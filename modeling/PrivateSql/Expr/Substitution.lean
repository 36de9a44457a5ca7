import PrivateSql.Expr.Basic
/-!
# Substitution of expressions

Expressions that are found in a list of replacements give way to their replacement, outermost first;
a replacement is not looked into again. Two expressions are the same when their trees are.

* `Substitution.insert`, `Substitution.find?` — the list of replacements;
* `Expr.replace` — the expression after the replacements.
-/

namespace PrivateSql

/-- Expressions and what they are replaced by. -/
structure Substitution (N : Type) where
  pairs : List (Expr N × Expr N)
  deriving Inhabited

namespace Substitution

variable {N : Type}

/-- Nothing is replaced. -/
def empty : Substitution N := ⟨[]⟩

/-- The replacement of an expression. -/
def find? (s : Substitution N) (e : Expr N) : Option (Expr N) :=
  (s.pairs.find? fun p => p.1.same e).map (·.2)

/-- Replace `e` by `r` from now on. -/
def insert (s : Substitution N) (e r : Expr N) : Substitution N := ⟨(e, r) :: s.pairs⟩

/-- Replace `e` by `r` unless it has a replacement already. -/
def insertNew (s : Substitution N) (e r : Expr N) : Substitution N :=
  match s.find? e with
  | some _ => s
  | none => s.insert e r

/-- The replacements of a list, the last one for an expression counting. -/
def ofList (l : List (Expr N × Expr N)) : Substitution N :=
  l.foldl (fun s p => s.insert p.1 p.2) empty

end Substitution

namespace Expr

variable {N : Type}

mutual
/-- The expression after the replacements, outermost first. -/
def replace (s : Substitution N) (e : Expr N) : Expr N :=
  match s.find? e with
  | some r => r
  | none =>
    match e with
    | .literal l => .literal l
    | .column id => .column id
    | .unary op x => .unary op (replace s x)
    | .binary l op r => .binary (replace s l) op (replace s r)
    | .nested x => .nested (replace s x)
    | .isNull x negated => .isNull (replace s x) negated
    | .call name args => .call name (replaceAll s args)
    | .aggregate f x => .aggregate f (replace s x)
    | .aggregateRows f => .aggregateRows f

/-- Some expressions after the replacements. -/
def replaceAll (s : Substitution N) : List (Expr N) → List (Expr N)
  | [] => []
  | e :: es => replace s e :: replaceAll s es
end

end Expr

end PrivateSql
