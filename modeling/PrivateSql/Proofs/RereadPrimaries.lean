import PrivateSql.Proofs.FaithfulTexts
/-!
# Names and constants that are read from their tokens

An expression begins with names, constants, signs and parentheses.  Here the first two are read: what follows
them is no part of them, and none of the words they are written with begins another construct.

* `Expr.term`, `Expr.nesting` — the term that an expression is read as, and the levels that it takes;
* `MayFollow` — what follows an expression in a text;
* `primary_column`, `primary_literal` — names and constants are read by themselves.
-/

namespace PrivateSql

open Sql Sql.Grammar

/-- The term that a constant is read as. -/
def Literal.term {N : Type} (l : Literal N) : Sql.Term :=
  match l.value with
  | .null => .null
  | .boolean b => .boolean b
  | .text s => .string s
  | _ => .number l.text false

namespace Expr

variable {N : Type}

mutual
/-- The term that the tokens of an expression are read as. -/
def term : Expr N → Sql.Term
  | .literal l => l.term
  | .column id => .name (id.parts.map fun part => ⟨part, none⟩)
  | .unary op e => .unary op (term e)
  | .binary l op r => .binary (term l) op (term r)
  | .nested e => .nested (term e)
  | .isNull e negated => .isNull (term e) negated
  | .call name args => .call [⟨name, none⟩] none (termArguments args) .none
  | .aggregate f e => .call [⟨f.name, none⟩] none [.term (term e)] .none
  | .aggregateRows f => .call [⟨f.name, none⟩] none [.star] .none

/-- The terms of some arguments. -/
def termArguments : List (Expr N) → List (Argument Sql.Term)
  | [] => []
  | e :: es => .term (term e) :: termArguments es
end

mutual
/-- How many levels of parentheses and calls are nested. -/
def nesting : Expr N → Nat
  | .literal _ => 0
  | .column _ => 0
  | .unary _ e => nesting e
  | .binary l _ r => max (nesting l) (nesting r)
  | .nested e => nesting e + 1
  | .isNull e _ => nesting e
  | .call _ args => nestingArguments args
  | .aggregate _ e => nesting e + 1
  | .aggregateRows _ => 0

/-- The levels of the arguments of a call. -/
def nestingArguments : List (Expr N) → Nat
  | [] => 0
  | e :: es => max (nesting e + 1) (nestingArguments es)
end

theorem termArguments_eq_map (es : List (Expr N)) : termArguments es = es.map (.term ∘ term) := by
  induction es with
  | nil => rfl
  | cons e es ih => simp [termArguments, ih]

theorem nesting_lt_of_mem {es : List (Expr N)} {e : Expr N} (h : e ∈ es) :
    nesting e < nestingArguments es := by
  induction es with
  | nil => cases h
  | cons d es ih =>
      rw [nestingArguments]
      rcases List.mem_cons.mp h with rfl | htail
      · omega
      · have := ih htail
        omega

end Expr

namespace Sql.Grammar

/-! ## What may follow an expression -/

/-- The tokens that may follow an expression. -/
def followTokens : List Token :=
  [.symbol ")", .symbol ","] ++ supportedOperators.map operatorToken ++
    ["IS", "AS", "ASC", "DESC", "FROM", "WHERE", "GROUP", "HAVING", "ORDER", "LIMIT"].map bareWord

/-- Nothing goes on with an expression, or a token that may follow it does. -/
def MayFollow (ts : List Token) : Prop := ∀ t ∈ ts.head?, t ∈ followTokens

theorem follows_nil : MayFollow [] := by
  rintro t ⟨⟩

theorem follows_cons {t : Token} (ht : t ∈ followTokens) (ts : List Token) : MayFollow (t :: ts) := by
  rintro t ⟨⟩
  exact ht

theorem follows_operator {op : String} (h : op ∈ supportedOperators) (ts : List Token) :
    MayFollow (operatorToken op :: ts) :=
  follows_cons (List.mem_append_left _ (List.mem_append_right _ (List.mem_map_of_mem h))) ts

theorem mark_cons (t : Token) (ts : List Token) : mark (t :: ts) = mark [t] := by
  cases t <;> rfl

/-- A keyword or a sign that no token begins with which may follow an expression. -/
theorem MayFollow.mark_ne {ts : List Token} {m : String} (h : MayFollow ts)
    (hm : m ≠ "" ∧ ∀ t ∈ followTokens, mark [t] ≠ m) : mark ts ≠ m := by
  cases ts with
  | nil => exact fun heq => hm.1 heq.symm
  | cons t ts =>
      rw [mark_cons]
      exact hm.2 t (h t rfl)

theorem mark_not_mem {ts : List Token} {ms : List String} (hempty : "" ∉ ms)
    (h : ∀ t ∈ ts.head?, mark [t] ∉ ms) : mark ts ∉ ms := by
  cases ts with
  | nil => exact hempty
  | cons t ts =>
      rw [mark_cons]
      exact h t rfl

theorem MayFollow.mark_not_mem {ts : List Token} {ms : List String} (h : MayFollow ts)
    (hms : "" ∉ ms ∧ ∀ t ∈ followTokens, mark [t] ∉ ms) : mark ts ∉ ms :=
  Grammar.mark_not_mem hms.1 fun t ht => hms.2 t (h t ht)

/-- Is a token a sign or a keyword? -/
def isSignOrKeyword : Token → Bool
  | .symbol _ => true
  | .word w => w.isKeyword
  | _ => false

theorem MayFollow.head {ts : List Token} (h : MayFollow ts) : ∀ t ∈ ts.head?, isSignOrKeyword t = true := by
  have hkind : ∀ t ∈ followTokens, isSignOrKeyword t = true := by decide +kernel
  exact fun t ht => hkind t (h t ht)

theorem skip?_eq_none {m : String} {ms : List String} {ts : List Token} (h : mark ts ≠ m) :
    skip? (m :: ms) ts = none := by
  rw [skip?, if_neg h]

theorem whenFirst_eq {m : String} {ms : List String} {p : Passage} {ts : List Token}
    (h : mark ts ≠ m) : whenFirst [m :: ms] p ts = .ok ts := by
  simp [whenFirst, skip?_eq_none h]

theorem after_eq_none {α : Type} {m : String} {ms : List String} {piece : Piece α} {ts : List Token}
    (h : mark ts ≠ m) : after (m :: ms) piece ts = .ok (none, ts) := by
  simp [after, skip?_eq_none h]

theorem inTurn_of_ok {p : Passage} {ps : List Passage} {ts ts' : List Token} (h : p ts = .ok ts') :
    inTurn (p :: ps) ts = inTurn ps ts' := by
  rw [inTurn, h]
  rfl

theorem inTurn_of_fails {p : Passage} {ps : List Passage} {ts : List Token}
    (h : (p ts).toOption = none) : (inTurn (p :: ps) ts).toOption = none := by
  rw [inTurn]
  cases hp : p ts with
  | ok ts' => simp [hp, Except.toOption] at h
  | error e => rfl

theorem need_fails {m : String} {ts : List Token} (h : mark ts ≠ m) :
    (need m ts).toOption = none := by
  rw [need, if_neg h]
  rfl

/-- A text constant begins with neither a sign nor a keyword. -/
theorem textConstant_fails {ts : List Token} (h : ∀ t ∈ ts.head?, isSignOrKeyword t = true) :
    (textConstant ts).toOption = none := by
  cases ts with
  | nil => rfl
  | cons t ts =>
      have ht := h t rfl
      cases t with
      | symbol s => rfl
      | word w => simp [textConstant, show w.isKeyword = true from ht, failExpected, Except.toOption]
      | number text long => cases ht
      | string s => cases ht
      | otherLiteral source => cases ht

/-- The signs and words that go on with the name of a type. -/
def typeMarks : List String :=
  ["(", "LARGE", "VARYING", "WITH", "WITHOUT", "UNSIGNED", "PRECISION"]

/-- A type by its first word alone. -/
theorem typeEnding?_cases {k : String} {ending : Passage} {ts : List Token}
    (hk : typeEnding? k = some ending) (hmark : mark ts ∉ typeMarks) :
    ending ts = .ok ts ∨ (ending ts).toOption = none := by
  simp only [typeMarks, List.mem_cons, List.not_mem_nil, or_false, not_or] at hmark
  obtain ⟨hopen, hlarge, hvarying, hwith, hwithout, hunsigned, hprecision⟩ := hmark
  have hsize : optionalSize ts = .ok ts := whenFirst_eq hopen
  have hallow : ∀ ms : List String, (∀ m ∈ ms, mark ts ≠ m) → allow ms ts = .ok ts := by
    intro ms hms
    rw [allow, skipOneOf, if_neg fun hmem => hms _ hmem rfl]
  have hlength : optionalLength ts = .ok ts := whenFirst_eq hopen
  have hzone : timeTypeEnding ts = .ok ts := by
    have hneither : whenFirst [["WITH"], ["WITHOUT"]] (inTurn [need "TIME", need "ZONE"]) ts = .ok ts := by
      simp [whenFirst, skip?_eq_none hwith, skip?_eq_none hwithout]
    rw [timeTypeEnding, inTurn_of_ok hsize, inTurn_of_ok hneither, inTurn]
  have hvaries : textTypeEnding ts = .ok ts := by
    have hskip : skipOneOf ["VARYING"] ts = ts := if_neg (by simpa using hvarying)
    rw [textTypeEnding, skip?_eq_none hlarge, hskip, hlength]
  unfold typeEnding? at hk
  split at hk
  · cases hk
    exact .inl rfl
  split at hk
  · cases hk
    exact .inl hsize
  split at hk
  · cases hk
    exact .inl ((inTurn_of_ok hsize).trans (inTurn_of_ok (hallow ["UNSIGNED"] (by simpa using hunsigned))))
  split at hk
  · cases hk
    exact .inl (whenFirst_eq hopen)
  split at hk
  · cases hk
    exact .inl hlength
  split at hk
  · cases hk
    exact .inl hvaries
  split at hk
  · cases hk
    exact .inl hzone
  split at hk
  · cases hk
    exact .inr (inTurn_of_fails (need_fails hopen))
  split at hk
  · cases hk
    exact .inl (hallow ["PRECISION"] (by simpa using hprecision))
  · cases hk

/-- A name is no type before a constant when no constant follows it. -/
theorem typedConstant?_eq_none {w : Word} {ts : List Token} (hmark : mark ts ∉ typeMarks)
    (hhead : ∀ t ∈ ts.head?, isSignOrKeyword t = true) : typedConstant? (.word w :: ts) = none := by
  unfold typedConstant?
  cases hk : typeEnding? (mark (.word w :: ts)) with
  | none => rfl
  | some ending =>
      have htext := textConstant_fails hhead
      rcases typeEnding?_cases hk hmark with h | h
      · exact (congrArg _ (inTurn_of_ok h)).trans (inTurn_of_fails htext)
      · exact inTurn_of_fails h

/-! ## Names and constants -/

@[simp] theorem keyword_bare (s : String) : Word.keyword ⟨s, none⟩ = Text.toUpper s := rfl

@[simp] theorem mark_bareWord (s : String) (ts : List Token) : mark (bareWord s :: ts) = Text.toUpper s :=
  rfl

theorem construct?_eq_none (inner : Nested) {k : String} (h : k ∉ termStarters) :
    construct? inner k = none := by
  unfold construct?
  split
  all_goals first | rfl | exact absurd (by decide) h

/-- What begins with a word that begins nothing else is a name or a call. -/
theorem wordTerm_of_name {inner : Nested} {rhs : Nat → Piece Term} {s : String} {ts : List Token}
    (hs : Text.toUpper s ∉ termStarters)
    (hcall : mark ts = "(" → Text.toUpper s ≠ "POSITION" ∧ Text.toUpper s ≠ "ARRAY")
    (hhead : ∀ t ∈ ts.head?, isSignOrKeyword t = true) :
    wordTerm inner rhs ⟨s, none⟩ ts = nameTerm inner ⟨s, none⟩ ts := by
  have hne : ∀ m ∈ termStarters, Text.toUpper s ≠ m := by
    rintro m hm heq
    exact hs (heq ▸ hm)
  have hbare : Text.toUpper s ∉ bareFunctions := fun h => hs (by simp [termStarters, h])
  have htime : Text.toUpper s ∉ timeFunctions := fun h => hs (by simp [termStarters, h])
  have hplain : plainWordTerm inner rhs ⟨s, none⟩ ts = nameTerm inner ⟨s, none⟩ ts := by
    have hintroduced : startsIntroduced ts = false := by
      cases ts with
      | nil => rfl
      | cons t ts =>
          cases t with
          | string text => cases hhead _ rfl
          | otherLiteral source => cases hhead _ rfl
          | _ => rfl
    unfold plainWordTerm
    split
    · rename_i heq
      exact absurd heq (hcall rfl).1
    · rename_i heq
      exact absurd heq (hcall rfl).2
    · rw [if_neg (by simp [hintroduced])]
  unfold wordTerm
  dsimp only [keyword_bare]
  rw [construct?_eq_none inner hs]
  dsimp only
  rw [if_neg (hne "TRUE" (by decide)), if_neg (hne "FALSE" (by decide)),
    if_neg (hne "NULL" (by decide)), if_neg (hne "NOT" (by decide)),
    if_neg (hne "EXISTS" (by decide)), if_neg hbare, if_neg htime, hplain]

/-- A term that is neither an interval nor a constant with its type, and that no collation follows. -/
theorem primary_of_bareTerm {inner : Nested} {rhs : Nat → Piece Term} {ts rest : List Token} {t : Term}
    (hinterval : mark ts ≠ "INTERVAL") (htyped : typedConstant? ts = none)
    (hbare : bareTerm inner rhs ts = .ok (t, rest)) (hrest : mark rest ≠ "COLLATE") :
    primary inner rhs ts = .ok (t, rest) := by
  rw [primary, if_neg hinterval, htyped]
  simp only [hbare, ok_bind, skip?_eq_none hrest]
  rfl

/-- A name or a call that no constant and no collation follows. -/
theorem primary_of_name {inner : Nested} {rhs : Nat → Piece Term} {s : String} {ts rest : List Token}
    {t : Term} (hs : Text.toUpper s ∉ termStarters)
    (hcall : mark ts = "(" → Text.toUpper s ≠ "POSITION" ∧ Text.toUpper s ≠ "ARRAY")
    (hhead : ∀ t ∈ ts.head?, isSignOrKeyword t = true)
    (htyped : typedConstant? (bareWord s :: ts) = none)
    (hname : nameTerm inner ⟨s, none⟩ ts = .ok (t, rest)) (hrest : mark rest ≠ "COLLATE") :
    primary inner rhs (bareWord s :: ts) = .ok (t, rest) := by
  have hinterval : mark (bareWord s :: ts) ≠ "INTERVAL" := by
    rw [mark_bareWord]
    rintro heq
    exact hs (by rw [heq]; decide)
  refine primary_of_bareTerm hinterval htyped ?_ hrest
  rw [← hname, ← wordTerm_of_name hs hcall hhead]
  rfl

/-- The words of an identifier. -/
def bareWords (parts : List String) : List Word := parts.map fun part => ⟨part, none⟩

theorem moreWords_stop {ts : List Token} (fuel : Nat) (h : mark ts ≠ ".") :
    moreWords fuel ts = .ok ([], ts) := by
  unfold moreWords
  split
  · exact absurd rfl h
  · rfl

theorem moreWords_dotted {others : List String} {rest : List Token} (hrest : mark rest ≠ ".") :
    ∀ fuel, others.length ≤ fuel →
      moreWords fuel (others.flatMap (fun part => [.symbol ".", bareWord part]) ++ rest) =
        .ok (bareWords others, rest) := by
  induction others with
  | nil => exact fun fuel _ => moreWords_stop fuel hrest
  | cons part others ih =>
      intro fuel hfuel
      cases fuel with
      | zero => simp at hfuel
      | succ fuel =>
          have htail := ih fuel (by simpa using hfuel)
          simp only [List.flatMap_cons, List.cons_append, List.nil_append, moreWords, word, bareWord,
            ok_bind] at htail ⊢
          rw [htail]
          rfl

theorem moreWords_tokens {others : List String} {rest ts : List Token} (hrest : mark rest ≠ ".")
    (hts : ts = others.flatMap (fun part => [.symbol ".", bareWord part]) ++ rest) :
    moreWords ts.length ts = .ok (bareWords others, rest) := by
  rw [hts]
  refine moreWords_dotted hrest _ ?_
  simp only [List.length_append, List.length_flatMap, List.length_cons, List.length_nil,
    List.map_const', List.sum_replicate_nat]
  omega

/-- What follows the first word of a name: a dot, or what follows the name. -/
theorem head_dotted {others : List String} {rest : List Token} {p : Token → Prop}
    (hdot : p (.symbol ".")) (hrest : ∀ t ∈ rest.head?, p t) :
    ∀ t ∈ (others.flatMap (fun part => [.symbol ".", bareWord part]) ++ rest).head?, p t := by
  cases others with
  | nil => exact hrest
  | cons part others =>
      rintro t ⟨⟩
      exact hdot

/-- The tokens of a name are read as a name. -/
theorem primary_column {inner : Nested} {rhs : Nat → Piece Term} {id : Identifier} {rest : List Token}
    (hnamed : id.lead ∉ termStarters) (hrest : MayFollow rest) :
    primary inner rhs (dottedTokens id.parts ++ rest) = .ok (.name (bareWords id.parts), rest) := by
  obtain ⟨first, others, hparts⟩ := List.exists_cons_of_ne_nil id.parts_ne_nil
  have hdot : mark rest ≠ "." := hrest.mark_ne (by decide)
  have hopen : mark rest ≠ "(" := hrest.mark_ne (by decide)
  have hcollate : mark rest ≠ "COLLATE" := hrest.mark_ne (by decide)
  rw [Identifier.lead, hparts, List.headD_cons] at hnamed
  rw [hparts, dottedTokens, List.cons_append]
  generalize htail : others.flatMap _ ++ rest = tail
  have hfollow : ∀ t ∈ tail.head?, t = .symbol "." ∨ t ∈ followTokens := by
    rw [← htail]
    exact head_dotted (.inl rfl) fun t ht => .inr (hrest t ht)
  have hmarks : ∀ t ∈ tail.head?, mark [t] ∉ typeMarks ∧ isSignOrKeyword t = true := by
    have hall : ∀ t ∈ .symbol "." :: followTokens, mark [t] ∉ typeMarks ∧ isSignOrKeyword t = true := by
      decide +kernel
    exact fun t ht => hall t (List.mem_cons.mpr (hfollow t ht))
  have hmark : mark tail ∉ typeMarks := mark_not_mem (by decide) fun t ht => (hmarks t ht).1
  have hname : nameTerm inner ⟨first, none⟩ tail = .ok (.name (bareWords (first :: others)), rest) := by
    rw [nameTerm, moreWords_tokens hdot htail.symm, ok_bind]
    dsimp only
    split
    · exact absurd rfl hopen
    · rfl
  exact primary_of_name hnamed (fun h => absurd (by rw [h]; decide) hmark) (fun t ht => (hmarks t ht).2)
    (typedConstant?_eq_none hmark fun t ht => (hmarks t ht).2) hname hcollate

theorem wordTerm_null (inner : Nested) (rhs : Nat → Piece Term) (ts : List Token) :
    wordTerm inner rhs ⟨"NULL", none⟩ ts = .ok (.null, ts) := by
  have hnull : Text.toUpper "NULL" = "NULL" := by decide
  simp [wordTerm, hnull, construct?]

theorem wordTerm_true (inner : Nested) (rhs : Nat → Piece Term) (ts : List Token) :
    wordTerm inner rhs ⟨"TRUE", none⟩ ts = .ok (.boolean true, ts) := by
  have htrue : Text.toUpper "TRUE" = "TRUE" := by decide
  simp [wordTerm, htrue, construct?]

theorem wordTerm_false (inner : Nested) (rhs : Nat → Piece Term) (ts : List Token) :
    wordTerm inner rhs ⟨"FALSE", none⟩ ts = .ok (.boolean false, ts) := by
  have hfalse : Text.toUpper "FALSE" = "FALSE" := by decide
  simp [wordTerm, hfalse, construct?]

/-- A constant is read by itself. -/
theorem primary_literal {N : Type} {inner : Nested} {rhs : Nat → Piece Term} {l : Literal N}
    {rest : List Token} (hrest : MayFollow rest) :
    primary inner rhs (l.token :: rest) = .ok (l.term, rest) := by
  have hcollate : mark rest ≠ "COLLATE" := hrest.mark_ne (by decide)
  have htypes : mark rest ∉ typeMarks := hrest.mark_not_mem (by decide)
  have hword : ∀ w : Word, typedConstant? (.word w :: rest) = none := fun _ =>
    typedConstant?_eq_none htypes hrest.head
  have hname : ∀ k : String, Text.toUpper k ≠ "INTERVAL" → mark (bareWord k :: rest) ≠ "INTERVAL" :=
    fun _ h => h
  have hconstant : ∀ (t : Token) (text : Term), mark [t] = "" →
      bareTerm inner rhs (t :: rest) = .ok (text, rest) →
      primary inner rhs (t :: rest) = .ok (text, rest) := by
    intro t text hmark hbare
    rw [← mark_cons t rest] at hmark
    refine primary_of_bareTerm (by rw [hmark]; decide) ?_ hbare hcollate
    rw [typedConstant?, hmark]
    rfl
  cases hv : l.value with
  | null =>
      rw [Literal.token, Literal.term, hv]
      exact primary_of_bareTerm (hname _ (by decide)) (hword _) (wordTerm_null inner rhs rest) hcollate
  | boolean b =>
      rw [Literal.token, Literal.term, hv]
      cases b with
      | true =>
          exact primary_of_bareTerm (hname _ (by decide)) (hword _) (wordTerm_true inner rhs rest) hcollate
      | false =>
          exact primary_of_bareTerm (hname _ (by decide)) (hword _) (wordTerm_false inner rhs rest) hcollate
  | text s =>
      rw [Literal.token, Literal.term, hv]
      exact hconstant _ _ rfl rfl
  | integer i =>
      rw [Literal.token, Literal.term, hv]
      exact hconstant _ _ rfl rfl
  | float x =>
      rw [Literal.token, Literal.term, hv]
      exact hconstant _ _ rfl rfl

end Sql.Grammar

end PrivateSql
