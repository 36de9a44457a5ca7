/-!
# Syntax trees

Every part of a query shows itself as a tree: leaves with a text, and branches. Rendering, hashing,
searching and structural equality are functions on trees, so that two parts with the same shape and
the same texts are interchangeable.

* `Tree.same` — structural equality, decided by comparing node by node;
* `same_iff` — it is equality of trees.
-/

namespace PrivateSql

/-- What a node of a tree stands for. -/
inductive Kind where
  | token
  | op
  | identifier
  | funcName
  | literal
  | sequence
  | expression
  | relation
  | query
  | clause
  deriving DecidableEq, Repr

namespace Kind

/-- The name of a kind. -/
def name : Kind → String
  | .token => "Token"
  | .op => "Op"
  | .identifier => "Identifier"
  | .funcName => "FuncName"
  | .literal => "Literal"
  | .sequence => "Sequence"
  | .expression => "Expression"
  | .relation => "Relation"
  | .query => "Query"
  | .clause => "Clause"

/-- All the kinds, in the order of their codes. -/
def all : List Kind :=
  [.token, .op, .identifier, .funcName, .literal, .sequence, .expression, .relation, .query,
    .clause]

/-- The kind with this name. -/
def ofName? (s : String) : Option Kind := all.find? (·.name == s)

/-- The number of a kind. -/
def code (k : Kind) : Nat := all.idxOf k

end Kind

/-- A syntax tree. -/
inductive Tree where
  | leaf (kind : Kind) (text : String)
  | branch (kind : Kind) (children : List Tree)

instance : Inhabited Tree := ⟨.leaf .token ""⟩

namespace Tree

def kind : Tree → Kind
  | .leaf k _ => k
  | .branch k _ => k

/-- The text of a leaf. -/
def text? : Tree → Option String
  | .leaf _ s => some s
  | .branch _ _ => none

def children : Tree → List Tree
  | .leaf _ _ => []
  | .branch _ cs => cs

mutual
/-- Have the trees the same shape and the same texts? -/
def same : Tree → Tree → Bool
  | .leaf k s, .leaf k' s' => decide (k = k') && s == s'
  | .branch k cs, .branch k' cs' => decide (k = k') && sameAll cs cs'
  | _, _ => false

/-- Are the lists as long, and the same one by one? -/
def sameAll : List Tree → List Tree → Bool
  | [], [] => true
  | c :: cs, c' :: cs' => same c c' && sameAll cs cs'
  | _, _ => false
end

mutual
theorem same_iff : (t u : Tree) → (same t u = true ↔ t = u)
  | .leaf k s, .leaf k' s' => by simp [same]
  | .branch k cs, .branch k' cs' => by simp [same, sameAll_iff cs cs']
  | .leaf _ _, .branch _ _ => by simp [same]
  | .branch _ _, .leaf _ _ => by simp [same]

theorem sameAll_iff : (ts us : List Tree) → (sameAll ts us = true ↔ ts = us)
  | [], [] => by simp [sameAll]
  | t :: ts, u :: us => by simp [sameAll, same_iff t u, sameAll_iff ts us]
  | [], _ :: _ => by simp [sameAll]
  | _ :: _, [] => by simp [sameAll]
end

instance : DecidableEq Tree := fun t u =>
  decidable_of_iff (same t u = true) (same_iff t u)

mutual
/-- The number of nodes. -/
def size : Tree → Nat
  | .leaf _ _ => 1
  | .branch _ cs => 1 + sizeAll cs

/-- The number of nodes of some trees. -/
def sizeAll : List Tree → Nat
  | [] => 0
  | c :: cs => c.size + sizeAll cs
end

theorem size_pos (t : Tree) : 0 < t.size := by cases t <;> simp only [size] <;> omega

theorem sizeAll_append (ts us : List Tree) : sizeAll (ts ++ us) = sizeAll ts + sizeAll us := by
  induction ts with
  | nil => simp [sizeAll]
  | cons t ts ih => simp only [List.cons_append, sizeAll, ih]; omega

theorem size_eq (t : Tree) : t.size = 1 + sizeAll t.children := by
  cases t <;> simp [size, children, sizeAll]

mutual
/-- The tree on one line, with the kind of every node. -/
def outline : Tree → String
  | .leaf k s => k.name ++ "<" ++ s ++ ">"
  | .branch k cs => k.name ++ "(" ++ " ".intercalate (outlines cs) ++ ")"

/-- The outlines of some trees. -/
def outlines : List Tree → List String
  | [] => []
  | c :: cs => outline c :: outlines cs
end

end Tree

end PrivateSql
