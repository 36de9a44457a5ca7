import PrivateSql.Proofs.SpelledNumbers
import PrivateSql.Proofs.SpelledTrees
import PrivateSql.Proofs.WrittenConstants
/-!
# Expressions that their texts stand for

An expression is written as its leaves one after the other, and no parentheses are added.  So its text is
read as the same expression only if its operators bind as its tree says, if no name in it is taken for
a keyword at its place, and if each name is scanned as it stands.

* `Expr.opensAbove`, `Expr.closesAt` — how tight the operators bind at the two ends of an expression;
* `Expr.IsFaithful` — an expression whose text is read as it is meant;
* `Expr.tokens`, `Expr.IsFaithful.spells` — the tokens of its text.
-/

namespace PrivateSql

variable {N : Type}

open Sql

/-! ## What an expression begins and ends with -/

/-- How tight an operator binds that stands between its operands. -/
def operatorPrecedence (op : String) : Nat :=
  match op with
  | "OR" => 5
  | "AND" => 10
  | op => Grammar.signPrecedence op

/-- How tight an operator binds its operand that stands before it. -/
def prefixPrecedence (op : String) : Nat := if op = "NOT" then 15 else 40

/-- How tight the test for nulls binds. -/
def testPrecedence : Nat := 17

/-- The words that are operators of their own, or begin one. -/
def operatorWords : List String := ["OR", "AND", "IS", "XOR", "OPERATOR", "DIV", "AT", "NOT"]

/-- A word that is no operator of its own binds as one that may be denied. -/
theorem precedence_word {w : Word} (us : List Token)
    (h : w.keyword ∉ operatorWords) :
    Grammar.precedence (.word w :: us) = Grammar.negatablePrecedence w.keyword := by
  simp only [operatorWords, List.mem_cons, List.not_mem_nil, or_false, not_or] at h
  simp [Grammar.precedence, h]

namespace Identifier

/-- Is an identifier made of bare words in lower case? -/
def isBare (id : Identifier) : Bool :=
  id.parts.all fun part => isBareWord part.toList && Text.toLower part == part

/-- The keyword that the first word of an identifier may be taken for. -/
def lead (id : Identifier) : String := Text.toUpper (id.parts.headD "")

end Identifier

/-- The words that are no names where a term begins. -/
def termStarters : List String :=
  ["INTERVAL", "CASE", "CAST", "TRY_CAST", "SAFE_CAST", "CONVERT", "EXTRACT", "CEIL", "FLOOR",
    "SUBSTRING", "OVERLAY", "TRIM", "MATCH", "STRUCT", "TRUE", "FALSE", "NULL", "NOT", "EXISTS"] ++
    Grammar.bareFunctions ++ Grammar.timeFunctions

namespace Expr

/-- The keyword that the name at the front of an expression may be taken for. -/
def lead : Expr N → String
  | .column id => id.lead
  | .binary l _ _ => lead l
  | .isNull e _ => lead e
  | _ => ""

/-- Do all the operators at the front of an expression bind tighter than the floor? -/
def opensAbove (floor : Nat) : Expr N → Bool
  | .binary l op _ => decide (floor < operatorPrecedence op) && opensAbove floor l
  | .isNull e _ => decide (floor < testPrecedence) && opensAbove floor e
  | _ => true

/-- Do all the operators at the end of an expression bind as tight as the one that follows, so that they
keep their operands? -/
def closesAt (next : Nat) : Expr N → Bool
  | .binary _ op r => decide (next ≤ operatorPrecedence op) && closesAt next r
  | .unary op e => decide (next ≤ prefixPrecedence op) && closesAt next e
  | _ => true

/-- An expression whose text is read as it is meant. -/
inductive IsFaithful [Number N] : Expr N → Prop
  | literal {l : Literal N} (written : l.IsWritten) (shown : l.text ≠ "") : IsFaithful (.literal l)
  | column {id : Identifier} (bare : id.isBare = true) (named : id.lead ∉ termStarters) :
      IsFaithful (.column id)
  | unary {op : String} {e : Expr N} (known : op = "-" ∨ op = "NOT")
      (opens : e.opensAbove (prefixPrecedence op) = true) (operand : IsFaithful e) :
      IsFaithful (.unary op e)
  | binary {l r : Expr N} {op : String} (known : op ∈ supportedOperators)
      (closes : l.closesAt (operatorPrecedence op) = true)
      (opens : r.opensAbove (operatorPrecedence op) = true) (named : r.lead ∉ ["ANY", "ALL"])
      (left : IsFaithful l) (right : IsFaithful r) : IsFaithful (.binary l op r)
  | nested {e : Expr N} (named : e.lead ∉ ["SELECT", "WITH"]) (inner : IsFaithful e) :
      IsFaithful (.nested e)
  | isNull {e : Expr N} {negated : Bool} (closes : e.closesAt testPrecedence = true)
      (operand : IsFaithful e) : IsFaithful (.isNull e negated)
  | call {name : String} {args : List (Expr N)} (known : name ∈ ["ABS", "SQRT", "ROUND"])
      (named : ∀ a ∈ args.head?, a.lead ∉ ["ALL", "DISTINCT"]) (arguments : ∀ a ∈ args, IsFaithful a) :
      IsFaithful (.call name args)
  | aggregate {f : AggregateFunction} {e : Expr N} (named : e.lead ∉ ["ALL", "DISTINCT"])
      (argument : IsFaithful e) : IsFaithful (.aggregate f e)
  | count : IsFaithful (.aggregateRows .count)

end Expr

/-! ## The tokens of a text -/

/-- The token of an operator. -/
def operatorToken (op : String) : Token :=
  if op ∈ ["NOT", "AND", "OR"] then bareWord op else .symbol op

/-- The token of a constant. -/
def Literal.token (l : Literal N) : Token :=
  match l.value with
  | .null => bareWord "NULL"
  | .boolean b => bareWord (if b then "TRUE" else "FALSE")
  | .text s => .string s
  | _ => .number l.text false

namespace Expr

mutual
/-- The tokens that an expression is written with. -/
def tokens : Expr N → List Token
  | .literal l => [l.token]
  | .column id => dottedTokens id.parts
  | .unary op e => operatorToken op :: tokens e
  | .binary l op r => tokens l ++ operatorToken op :: tokens r
  | .nested e => .symbol "(" :: (tokens e ++ [.symbol ")"])
  | .isNull e negated =>
    tokens e ++ bareWord "IS" :: ((if negated then [bareWord "NOT"] else []) ++ [bareWord "NULL"])
  | .call name args =>
    bareWord name :: .symbol "(" :: (commaTokens (tokensAll args) ++ [.symbol ")"])
  | .aggregate f e => bareWord f.name :: .symbol "(" :: (tokens e ++ [.symbol ")"])
  | .aggregateRows f => [bareWord f.name, .symbol "(", .symbol "*", .symbol ")"]

/-- The tokens of some expressions. -/
def tokensAll : List (Expr N) → List (List Token)
  | [] => []
  | e :: es => tokens e :: tokensAll es
end

theorem tokensAll_eq_map (es : List (Expr N)) : tokensAll es = es.map tokens := by
  induction es with
  | nil => rfl
  | cons e es ih => simp [tokensAll, ih]

theorem tokens_ne_nil (e : Expr N) : e.tokens ≠ [] := by
  cases e with
  | column id =>
      obtain ⟨first, others, hparts⟩ := List.exists_cons_of_ne_nil id.parts_ne_nil
      simp [tokens, hparts, dottedTokens]
  | _ => simp [tokens]

end Expr

/-- The keywords that expressions and functions are written with. -/
def writtenWords : List String :=
  ["NOT", "AND", "OR", "IS", "NULL", "TRUE", "FALSE", "ABS", "SQRT", "ROUND", "COUNT", "SUM", "MIN",
    "MAX", "AVG", "VAR", "STD"]

theorem spells_writtenWord {s : String} (h : s ∈ writtenWords) : Spells s [bareWord s] := by
  have hbare : ∀ s ∈ writtenWords, isBareWord s.toList = true := by decide
  exact spells_word (hbare s h)

theorem spells_operator {op : String} (h : op ∈ "NOT" :: supportedOperators) :
    Spells op [operatorToken op] := by
  have hsign : ∀ op ∈ "NOT" :: supportedOperators, op ∉ ["NOT", "AND", "OR"] → op ∈ signs := by
    decide
  have hword : ∀ op ∈ ["NOT", "AND", "OR"], op ∈ writtenWords := by decide
  by_cases hop : op ∈ ["NOT", "AND", "OR"]
  · rw [operatorToken, if_pos hop]
    exact spells_writtenWord (hword op hop)
  · rw [operatorToken, if_neg hop]
    exact spells_sign (hsign op h hop)

/-- What is read as a number is written as one. -/
theorem exists_isNumber_of_numberLiteral [Number N] {text : String} {l : Literal N}
    (h : numberLiteral text = .ok l) (shown : text ≠ "") :
    ∃ whole point fraction exponent, IsNumber whole point fraction exponent ∧
      text.toList = whole ++ (point ++ (fraction ++ exponent)) := by
  by_cases hdigits : text.toList.all (·.isDigit) = true
  · have hsome : text.toList ≠ [] := by simpa using shown
    exact ⟨text.toList, [], [], [], ⟨hdigits, rfl, .inr ⟨rfl, rfl⟩, .inl hsome, .inl rfl⟩, by simp⟩
  · rw [numberLiteral, if_neg hdigits] at h
    cases htext : Decimal.ofText? text.toList with
    | none => simp [htext] at h
    | some d => exact exists_isNumber_of_ofText? htext

/-- The constant of a number is a number. -/
theorem numberLiteral_isNumeric [Number N] {text : String} {l : Literal N}
    (h : numberLiteral text = .ok l) : l.value.number?.isSome = true := by
  simp only [numberLiteral] at h
  split at h
  · cases h
    rfl
  · split at h
    · cases h
      rfl
    · cases h

/-- A constant is scanned as its token. -/
theorem Literal.spells [Number N] {l : Literal N} (written : l.IsWritten) (shown : l.text ≠ "") :
    Spells l.text [l.token] := by
  rcases written with hnumber | ⟨v, hv, rfl⟩
  · obtain ⟨whole, point, fraction, exponent, hparts, htext⟩ := exists_isNumber_of_numberLiteral hnumber shown
    have htoken : l.token = .number l.text false := by
      have hnumeric := numberLiteral_isNumeric hnumber
      rw [Literal.token]
      split
      · rename_i hv
        rw [hv] at hnumeric
        cases hnumeric
      · rename_i hv
        rw [hv] at hnumeric
        cases hnumeric
      · rename_i hv
        rw [hv] at hnumeric
        cases hnumeric
      · rfl
    rw [htoken]
    exact spells_number hparts htext
  · cases v with
    | null => exact spells_writtenWord (s := "NULL") (by decide)
    | boolean b =>
        cases b with
        | true => exact spells_writtenWord (s := "TRUE") (by decide)
        | false => exact spells_writtenWord (s := "FALSE") (by decide)
    | text s => exact spells_quoteSql s
    | integer i => cases hv
    | float x => cases hv

theorem spells_punctuation {c : Char} (hc : c ∈ ['(', ')', ',']) :
    Spells (String.singleton c) [.symbol (String.singleton c)] := by
  intro after rest _ hscans
  rw [String.toList_singleton]
  exact scans_punctuation hc hscans

theorem spells_leaf {k : Kind} {s : String} {ts : List Token} (h : Spells s ts) :
    Spells (Tree.render (.leaf k s)) ts := h

/-- An expression spells the tokens of its children. -/
theorem Expr.spells_children {e : Expr N} {cs : List Tree} {tss : List (List Token)}
    (htree : e.tree = .branch .expression cs)
    (h : List.Forall₂ (fun c ts => Spells c.render ts) cs tss) (htokens : e.tokens = tss.flatten) :
    Spells e.display e.tokens := by
  rw [display, htree, htokens]
  exact spells_branch rfl h

/-- **Texts are scanned as their tokens.** -/
theorem Expr.IsFaithful.spells [Number N] {e : Expr N} (h : e.IsFaithful) :
    Spells e.display e.tokens := by
  have hopen {k : Kind} : Spells (Tree.render (.leaf k "(")) [.symbol "("] :=
    spells_leaf (spells_punctuation (c := '(') (by decide))
  have hclose {k : Kind} : Spells (Tree.render (.leaf k ")")) [.symbol ")"] :=
    spells_leaf (spells_punctuation (c := ')') (by decide))
  have hword {k : Kind} {s : String} (hs : s ∈ writtenWords) :
      Spells (Tree.render (.leaf k s)) [bareWord s] := spells_writtenWord hs
  induction h with
  | literal written shown =>
      exact spells_children rfl (.cons (spells_leaf (Literal.spells written shown)) .nil) rfl
  | @column id bare named =>
      have hbare : ∀ part ∈ id.parts, isBareWord part.toList = true := by
        intro part hpart
        have hboth := List.all_eq_true.mp bare part hpart
        exact (Bool.and_eq_true_iff.mp hboth).1
      exact spells_children rfl (.cons (spells_leaf (spells_identifier hbare)) .nil) (by simp [tokens])
  | @unary op e known opens operand ih =>
      have hop : Spells op [operatorToken op] :=
        spells_operator (by rcases known with rfl | rfl <;> decide)
      exact spells_children rfl (.cons (spells_leaf hop) (.cons ih .nil)) (by simp [tokens])
  | @binary l r op known closes opens named left right ihl ihr =>
      have hop : Spells op [operatorToken op] := spells_operator (List.mem_cons_of_mem _ known)
      exact spells_children rfl (.cons ihl (.cons (spells_leaf hop) (.cons ihr .nil))) (by simp [tokens])
  | nested named inner ih =>
      exact spells_children rfl (.cons hopen (.cons ih (.cons hclose .nil))) (by simp [tokens])
  | @isNull e negated closes operand ih =>
      cases negated with
      | false =>
          exact spells_children rfl
            (.cons ih (.cons (hword (by decide)) (.cons (hword (by decide)) .nil))) (by simp [tokens])
      | true =>
          exact spells_children rfl
            (.cons ih (.cons (hword (by decide)) (.cons (hword (by decide))
              (.cons (hword (by decide)) .nil)))) (by simp [tokens])
  | @call name args known named arguments ih =>
      have hname : name ∈ writtenWords := by
        simp only [List.mem_cons, List.not_mem_nil, or_false] at known
        rcases known with rfl | rfl | rfl <;> decide
      have hargs : Spells (Tree.render (.branch .sequence (trees args))) (commaTokens (tokensAll args)) := by
        rw [trees_eq_map, tokensAll_eq_map]
        refine spells_sequence ?_ (by simp [tokens_ne_nil])
        rw [List.forall₂_map_left_iff, List.forall₂_map_right_iff, List.forall₂_same]
        exact ih
      exact spells_children rfl
        (.cons (hword hname) (.cons hopen (.cons hargs (.cons hclose .nil)))) (by simp [tokens])
  | @aggregate f e named argument ih =>
      have hname : f.name ∈ writtenWords := by cases f <;> decide
      exact spells_children rfl
        (.cons (hword hname) (.cons hopen (.cons ih (.cons hclose .nil)))) (by simp [tokens])
  | count =>
      have hstar : Spells "*" [.symbol "*"] := spells_sign (by decide)
      exact spells_children rfl
        (.cons (hword (by decide)) (.cons hopen (.cons (spells_leaf hstar) (.cons hclose .nil)))) rfl

end PrivateSql
