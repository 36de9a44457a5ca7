import PrivateSql.Proofs.RereadPrimaries
/-!
# Terms read from the tokens of expressions

The grammar reads the tokens of a faithful expression as that expression.  The argument follows the
reading by precedence: after the tokens of an operand the reading goes on with what follows them, as
if it had begun there with the operand read.  So the operators of a tree are read one by one, and what is
read never depends on how much fuel is left.

* `commaSeparated_tokens` — lists are read member by member;
* `ReadsOperand.step` — an operator takes what was read as its left operand;
* `operand_tokens`, `term_tokens` — the tokens of an expression are read as its term;
* `readsBelow_nested` — this is so on every level of the grammar.
-/

namespace PrivateSql

open Sql Sql.Grammar

namespace Sql.Grammar

/-! ## Operators -/

theorem mark_operatorToken {op : String} (h : op ∈ "NOT" :: supportedOperators) (ts : List Token) :
    mark (operatorToken op :: ts) = op := by
  have hmarks : ∀ op ∈ "NOT" :: supportedOperators, mark [operatorToken op] = op := by decide
  rw [mark_cons, hmarks op h]

theorem precedence_operatorToken {op : String} (h : op ∈ supportedOperators) (ts : List Token) :
    precedence (operatorToken op :: ts) = operatorPrecedence op := by
  have hand : Text.toUpper "AND" = "AND" := by decide
  have hor : Text.toUpper "OR" = "OR" := by decide
  simp only [supportedOperators, List.mem_cons, List.not_mem_nil, or_false] at h
  rcases h with rfl | rfl | rfl | rfl | rfl | rfl | rfl | rfl | rfl | rfl | rfl | rfl | rfl
  case inr.inr.inr.inr.inr.inr.inr.inr.inr.inr.inr.inl =>
    simp [operatorToken, bareWord, precedence, hand, operatorPrecedence]
  case inr.inr.inr.inr.inr.inr.inr.inr.inr.inr.inr.inr =>
    simp [operatorToken, bareWord, precedence, hor, operatorPrecedence]
  all_goals rfl

/-- A binary operator is read with its right operand. -/
theorem operatorTail_binary {inner : Nested} {rhs : Nat → Piece Term} {p : Nat} {left : Term}
    {op : String} {ts : List Token} (h : op ∈ supportedOperators) :
    operatorTail inner rhs p left (operatorToken op :: ts) = binaryTail rhs p left op ts := by
  unfold operatorTail
  rw [mark_operatorToken (List.mem_cons_of_mem _ h), List.drop_one, List.tail_cons]
  simp only [supportedOperators, List.mem_cons, List.not_mem_nil, or_false] at h
  rcases h with rfl | rfl | rfl | rfl | rfl | rfl | rfl | rfl | rfl | rfl | rfl | rfl | rfl <;> rfl

/-! ## Lists -/

theorem commaTokens_cons_cons (ts us : List Token) (tss : List (List Token)) :
    commaTokens (ts :: us :: tss) = ts ++ .symbol "," :: commaTokens (us :: tss) := by
  simp [commaTokens]

theorem length_le_length_commaTokens (tss : List (List Token)) :
    tss.length ≤ (commaTokens tss).length + 1 := by
  cases tss with
  | nil => simp
  | cons ts tss =>
      induction tss generalizing ts with
      | nil => simp
      | cons us tss ih =>
          have htail := ih us
          rw [commaTokens_cons_cons]
          simp only [List.length_cons, List.length_append] at htail ⊢
          omega

variable {α β : Type} {piece : Piece α} {tokens : β → List Token} {read : β → α} {rest : List Token}

theorem commaSeparatedFrom_tokens {b : β} {bs : List β} {fuel : Nat} (hrest : mark rest ≠ ",")
    (hpiece : ∀ c ∈ b :: bs, ∀ ts, (ts = rest ∨ ∃ tail, ts = .symbol "," :: tail) →
      piece (tokens c ++ ts) = .ok (read c, ts)) (hfuel : bs.length ≤ fuel) :
    commaSeparatedFrom piece fuel (commaTokens ((b :: bs).map tokens) ++ rest) =
      .ok ((b :: bs).map read, rest) := by
  induction bs generalizing b fuel with
  | nil =>
      have hb := hpiece b List.mem_cons_self rest (.inl rfl)
      have htokens : commaTokens ([b].map tokens) ++ rest = tokens b ++ rest := by simp [commaTokens]
      rw [htokens]
      cases fuel with
      | zero => simp [commaSeparatedFrom, hb]
      | succ fuel =>
          rw [commaSeparatedFrom, hb, ok_bind]
          dsimp only
          split
          · exact absurd rfl hrest
          · rfl
  | cons c bs ih =>
      cases fuel with
      | zero => simp at hfuel
      | succ fuel =>
          have hb := fun tail => hpiece b List.mem_cons_self (.symbol "," :: tail) (.inr ⟨tail, rfl⟩)
          have htail := ih (b := c) (fun d hd => hpiece d (List.mem_cons_of_mem _ hd))
            (Nat.le_of_succ_le_succ hfuel)
          rw [List.map_cons, List.map_cons, commaTokens_cons_cons, List.append_assoc, List.cons_append,
            commaSeparatedFrom, hb, ok_bind]
          rw [← List.map_cons]
          simp only [htail, ok_bind]
          rfl

/-- Pieces with commas between their tokens are read one after the other. -/
theorem commaSeparated_tokens {bs : List β} (hsome : bs ≠ []) (hrest : mark rest ≠ ",")
    (hpiece : ∀ c ∈ bs, ∀ ts, (ts = rest ∨ ∃ tail, ts = .symbol "," :: tail) →
      piece (tokens c ++ ts) = .ok (read c, ts)) :
    commaSeparated piece (commaTokens (bs.map tokens) ++ rest) = .ok (bs.map read, rest) := by
  obtain ⟨b, bs, rfl⟩ := List.exists_cons_of_ne_nil hsome
  refine commaSeparatedFrom_tokens hrest hpiece ?_
  have hlength := length_le_length_commaTokens ((b :: bs).map tokens)
  rw [List.length_map, List.length_cons] at hlength
  rw [List.length_append]
  omega

/-- One piece that no comma follows. -/
theorem commaSeparated_one {ts : List Token} {a : α} (h : piece ts = .ok (a, rest)) (hrest : mark rest ≠ ",") :
    commaSeparated piece ts = .ok ([a], rest) := by
  rw [commaSeparated]
  cases ts.length with
  | zero =>
      rw [commaSeparatedFrom, h]
      rfl
  | succ fuel =>
      rw [commaSeparatedFrom, h, ok_bind]
      dsimp only
      split
      · exact absurd rfl hrest
      · rfl

end Sql.Grammar

/-! ## The front of an expression -/

/-- The keywords and signs that an expression may begin with which are no names. -/
def frontMarks : List String := ["", "(", "-"] ++ writtenWords

/-- May an expression begin with the token? -/
def isFront : Token → Bool
  | .symbol s => s == "(" || s == "-"
  | .otherLiteral _ => false
  | _ => true

namespace Expr.IsFaithful

variable {N : Type} [Number N] {e : Expr N}

theorem isFront_head (h : e.IsFaithful) (rest : List Token) :
    ∀ t ∈ (e.tokens ++ rest).head?, isFront t = true := by
  induction h generalizing rest with
  | @literal l written shown =>
      rintro t ⟨⟩
      rw [Literal.token]
      split <;> rfl
  | @column id bare named =>
      obtain ⟨first, others, hparts⟩ := List.exists_cons_of_ne_nil id.parts_ne_nil
      rw [tokens, hparts]
      rintro t ⟨⟩
      rfl
  | unary known opens operand ih =>
      rintro t ⟨⟩
      rcases known with rfl | rfl <;> decide
  | binary known closes opens named left right ihl ihr =>
      rw [tokens, List.append_assoc]
      exact ihl _
  | nested named inner ih =>
      rintro t ⟨⟩
      rfl
  | isNull closes operand ih =>
      rw [tokens, List.append_assoc]
      exact ih _
  | call known named arguments ih =>
      rintro t ⟨⟩
      rfl
  | aggregate named argument ih =>
      rintro t ⟨⟩
      rfl
  | count =>
      rintro t ⟨⟩
      rfl

/-- The first word of an expression is that of its first column, unless a constant, a function or a
sign stands there. -/
theorem mark_tokens (h : e.IsFaithful) (rest : List Token) :
    mark (e.tokens ++ rest) = e.lead ∨ mark (e.tokens ++ rest) ∈ frontMarks := by
  have hwords : ∀ s ∈ writtenWords, Text.toUpper s ∈ frontMarks := by decide
  have hempty : "" ∈ frontMarks := by decide
  have hopen : "(" ∈ frontMarks := by decide
  induction h generalizing rest with
  | @literal l written shown =>
      right
      rw [tokens, Literal.token]
      split
      · exact hwords "NULL" (by decide)
      · rename_i b _
        cases b with
        | true => exact hwords "TRUE" (by decide)
        | false => exact hwords "FALSE" (by decide)
      · exact hempty
      · exact hempty
  | @column id bare named =>
      obtain ⟨first, others, hparts⟩ := List.exists_cons_of_ne_nil id.parts_ne_nil
      left
      rw [tokens, lead, Identifier.lead, hparts]
      rfl
  | @unary op e known opens operand ih =>
      right
      have hop : mark (operatorToken op :: (e.tokens ++ rest)) = op :=
        mark_operatorToken (by rcases known with rfl | rfl <;> decide) _
      rw [tokens, List.cons_append, hop]
      rcases known with rfl | rfl <;> decide
  | binary known closes opens named left right ihl ihr =>
      rw [tokens, List.append_assoc]
      exact ihl _
  | nested named inner ih => exact .inr hopen
  | isNull closes operand ih =>
      rw [tokens, List.append_assoc]
      exact ih _
  | @call name args known named arguments ih =>
      simp only [List.mem_cons, List.not_mem_nil, or_false] at known
      exact .inr (hwords name (by rcases known with rfl | rfl | rfl <;> decide))
  | @aggregate f e named argument ih => exact .inr (hwords f.name (by cases f <;> decide))
  | count => exact .inr (hwords "COUNT" (by decide))

theorem mark_ne (h : e.IsFaithful) {m : String} (hlead : e.lead ≠ m) (hm : m ∉ frontMarks)
    (rest : List Token) : mark (e.tokens ++ rest) ≠ m := by
  rintro rfl
  rcases h.mark_tokens rest with heq | hmem
  · exact hlead heq.symm
  · exact hm hmem

end Expr.IsFaithful

namespace Sql.Grammar

/-- A term where a star or a named argument might stand. -/
def IsOrdinary (ts : List Token) : Prop :=
  ∀ term : Piece Term,
    let ordinary : Reading (Parsed (Argument Term)) := do
      let (t, rest) ← term ts
      return (.term t, rest)
    starOr term ts = ordinary ∧ argument term ts = ordinary

theorem isOrdinary_cons {t : Token} {ts : List Token} (hstar : t ≠ .symbol "*")
    (hdot : ts.head? ≠ some (.symbol ".")) (harrow : ts.head? ≠ some (.symbol "=>")) :
    IsOrdinary (t :: ts) := by
  intro term ordinary
  have hstarOr : starOr term (t :: ts) = ordinary := by
    unfold starOr
    split
    · rename_i heq
      exact absurd (List.cons.inj heq).1 hstar
    · rename_i heq
      exact absurd (congrArg List.head? (List.cons.inj heq).2) hdot
    · rename_i heq
      exact absurd (congrArg List.head? (List.cons.inj heq).2) hdot
    · rfl
  refine ⟨hstarOr, ?_⟩
  rw [← hstarOr]
  unfold argument
  split
  · rename_i heq
    exact absurd (congrArg List.head? (List.cons.inj heq).2) harrow
  · rfl

/-- No star stands behind the dots of a name. -/
theorem starAfterDots_dotted {others : List String} {rest : List Token}
    (hrest : rest.head? ≠ some (.symbol ".")) (fuel : Nat) :
    starOr.starAfterDots fuel (others.flatMap (fun part => [.symbol ".", bareWord part]) ++ rest) =
      .ok none := by
  induction others generalizing fuel with
  | nil =>
      unfold starOr.starAfterDots
      split
      · rename_i heq
        exact absurd (congrArg List.head? heq) hrest
      · rename_i heq
        exact absurd (congrArg List.head? heq) hrest
      · rfl
  | cons part others ih =>
      rw [List.flatMap_cons, List.append_assoc]
      cases fuel with
      | zero => rfl
      | succ fuel => exact ih fuel

theorem isOrdinary_dotted {parts : List String} {rest : List Token} (hsome : parts ≠ [])
    (hdot : rest.head? ≠ some (.symbol ".")) (harrow : rest.head? ≠ some (.symbol "=>")) :
    IsOrdinary (dottedTokens parts ++ rest) := by
  obtain ⟨first, others, rfl⟩ := List.exists_cons_of_ne_nil hsome
  cases others with
  | nil => exact isOrdinary_cons (by simp [bareWord]) hdot harrow
  | cons part others =>
      intro term ordinary
      have hstarOr : starOr term (dottedTokens (first :: part :: others) ++ rest) = ordinary := by
        have hdrop : (dottedTokens (first :: part :: others) ++ rest).drop 1 =
            (part :: others).flatMap (fun part => [.symbol ".", bareWord part]) ++ rest := rfl
        show starOr.qualifiedStar _ ordinary = ordinary
        rw [starOr.qualifiedStar, hdrop, starAfterDots_dotted hdot]
      exact ⟨hstarOr, hstarOr⟩

theorem MayFollow.head_ne {ts : List Token} {s : String} (h : MayFollow ts)
    (hs : .symbol s ∉ followTokens) : ts.head? ≠ some (.symbol s) :=
  fun heq => hs (h _ heq)

end Sql.Grammar

namespace Expr.IsFaithful

variable {N : Type} [Number N] {e : Expr N}

theorem head_ne (h : e.IsFaithful) {s : String} (hs : isFront (.symbol s) = false) (rest : List Token) :
    (e.tokens ++ rest).head? ≠ some (.symbol s) := by
  intro heq
  rw [h.isFront_head rest _ heq] at hs
  cases hs

/-- An expression is no star, and gives its value to no name. -/
theorem isOrdinary (h : e.IsFaithful) {rest : List Token} (hrest : MayFollow rest) :
    IsOrdinary (e.tokens ++ rest) := by
  have hdot {ts : List Token} (hts : MayFollow ts) : ts.head? ≠ some (.symbol ".") :=
    hts.head_ne (by decide)
  have harrow {ts : List Token} (hts : MayFollow ts) : ts.head? ≠ some (.symbol "=>") :=
    hts.head_ne (by decide)
  induction h generalizing rest with
  | @literal l written shown =>
      exact isOrdinary_cons (by rw [Literal.token]; split <;> simp [bareWord]) (hdot hrest) (harrow hrest)
  | @column id bare named => exact isOrdinary_dotted id.parts_ne_nil (hdot hrest) (harrow hrest)
  | @unary op e known opens operand ih =>
      have hop : operatorToken op ≠ .symbol "*" := by rcases known with rfl | rfl <;> decide
      exact isOrdinary_cons hop (operand.head_ne (by decide) rest) (operand.head_ne (by decide) rest)
  | @binary l r op known closes opens named left right ihl ihr =>
      rw [tokens, List.append_assoc]
      exact ihl (follows_operator known _)
  | @nested e named inner ih =>
      rw [tokens, List.cons_append, List.append_assoc]
      exact isOrdinary_cons (by decide) (inner.head_ne (by decide) _) (inner.head_ne (by decide) _)
  | isNull closes operand ih =>
      rw [tokens, List.append_assoc]
      exact ih (follows_cons (by decide) _)
  | call known named arguments ih => exact isOrdinary_cons (by simp [bareWord]) (by simp) (by simp)
  | aggregate named argument ih => exact isOrdinary_cons (by simp [bareWord]) (by simp) (by simp)
  | count => exact isOrdinary_cons (by simp [bareWord]) (by simp) (by simp)

end Expr.IsFaithful

namespace Sql.Grammar

variable {N : Type} [Number N]

/-- What follows an expression that nothing goes on with. -/
structure Ends (ts : List Token) : Prop where
  follows : MayFollow ts
  precedence : precedence ts = 0

theorem ends_cons {t : Token} (ht : t ∈ followTokens) {ts : List Token} (hp : precedence (t :: ts) = 0) :
    Ends (t :: ts) :=
  ⟨follows_cons ht ts, hp⟩

omit [Number N] in
theorem ends_of_closed {rest ts : List Token}
    (h : ts = .symbol ")" :: rest ∨ ∃ tail, ts = .symbol "," :: tail) : Ends ts := by
  rcases h with rfl | ⟨tail, rfl⟩
  · exact ends_cons (by decide) rfl
  · exact ends_cons (by decide) rfl

theorem opensAbove_zero {e : Expr N} (h : e.IsFaithful) : e.opensAbove 0 = true := by
  have hpositive : ∀ op ∈ supportedOperators, 0 < operatorPrecedence op := by decide
  induction h with
  | binary known closes opens named left right ihl ihr => simp [Expr.opensAbove, hpositive _ known, ihl]
  | isNull closes operand ih => simp [Expr.opensAbove, testPrecedence, ih]
  | _ => rfl

omit [Number N] in
theorem closesAt_zero (e : Expr N) : e.closesAt 0 = true := by
  induction e using Expr.induct with
  | unary op e ih => simp [Expr.closesAt, ih]
  | binary l op r ihl ihr => simp [Expr.closesAt, ihr]
  | _ => rfl

/-- The nested grammar reads the tokens of expressions of less than so many levels. -/
def ReadsBelow (N : Type) [Number N] (inner : Nested) (levels : Nat) : Prop :=
  ∀ e : Expr N, e.IsFaithful → e.nesting < levels → ∀ rest, Ends rest →
    inner.term (e.tokens ++ rest) = .ok (e.term, rest)

variable {inner : Nested} {levels : Nat}

/-- An expression between parentheses. -/
theorem parenthesizedTerm_tokens (hinner : ReadsBelow N inner levels) {e : Expr N} (h : e.IsFaithful)
    (hlevels : e.nesting < levels) (hnamed : e.lead ∉ ["SELECT", "WITH"]) {start rest : List Token}
    (hrest : MayFollow rest) :
    parenthesizedTerm inner start (e.tokens ++ .symbol ")" :: rest) = .ok (.nested e.term, rest) := by
  have hselect : mark (e.tokens ++ .symbol ")" :: rest) ≠ "SELECT" :=
    h.mark_ne (fun heq => hnamed (by simp [heq])) (by decide) _
  have hwith : mark (e.tokens ++ .symbol ")" :: rest) ≠ "WITH" :=
    h.mark_ne (fun heq => hnamed (by simp [heq])) (by decide) _
  have hquery : startsQuery (e.tokens ++ .symbol ")" :: rest) = false := by
    simp [startsQuery, hselect, hwith]
  have hterms : commaSeparated inner.term (e.tokens ++ .symbol ")" :: rest) =
      .ok ([e.term], .symbol ")" :: rest) :=
    commaSeparated_one (hinner e h hlevels _ (ends_of_closed (.inl rfl))) (by simp [mark])
  have hclosing : closing (commaSeparated inner.term) (e.tokens ++ .symbol ")" :: rest) =
      .ok ([e.term], rest) := by
    rw [closing, hterms]
    rfl
  have hdot : rest.head? ≠ some (.symbol ".") := hrest.head_ne (by decide)
  rw [parenthesizedTerm, if_neg (by simp [hquery]), hclosing]
  simp only [ok_bind, pure, Except.pure]
  split
  · exact absurd rfl hdot
  · exact absurd rfl hdot
  · rfl

/-- Nothing is said behind the parentheses of a call. -/
theorem call_of_arguments {w : Word} {ts rest : List Token} {args : List (Argument Term)}
    (harguments : arguments inner.term ts = .ok (⟨none, args, []⟩, rest)) (hrest : MayFollow rest) :
    call inner.term [w] ts = .ok (.call [w] none args .none, rest) := by
  have hwithin : after ["WITHIN", "GROUP"] (withinGroup inner.term) rest = .ok (none, rest) :=
    after_eq_none (hrest.mark_ne (by decide))
  have hnulls : nullsText rest = .ok (none, rest) := by
    have hignore : mark rest ≠ "IGNORE" := hrest.mark_ne (by decide)
    have hrespect : mark rest ≠ "RESPECT" := hrest.mark_ne (by decide)
    simp [nullsText, hignore, hrespect]
  have hover : mark rest ≠ "OVER" := hrest.mark_ne (by decide)
  have hwindow : whenFirst [["OVER"]] (namedOrWindow inner.term) rest = .ok rest := whenFirst_eq hover
  simp [call, harguments, hwithin, hnulls, hwindow, hover]
  rfl

/-- Some arguments between the parentheses of a call. -/
theorem call_of_commaSeparated {w : Word} {ts rest : List Token} {args : List (Argument Term)}
    (hargs : commaSeparated (argument inner.term) ts = .ok (args, .symbol ")" :: rest))
    (hsome : ts.head? ≠ some (.symbol ")")) (hall : mark ts ≠ "ALL") (hdistinct : mark ts ≠ "DISTINCT")
    (hrest : MayFollow rest) : call inner.term [w] ts = .ok (.call [w] none args .none, rest) := by
  refine call_of_arguments ?_ hrest
  unfold arguments
  split
  · exact absurd rfl hsome
  · dsimp only
    split
    · exact absurd ‹mark ts = "ALL"› hall
    · exact absurd ‹mark ts = "ALL"› hall
    · exact absurd ‹mark ts = "DISTINCT"› hdistinct
    · simp only [ok_bind, hargs]
      rfl

/-- The names of the functions that are answered. -/
def functionNames : List String :=
  ["ABS", "SQRT", "ROUND", "COUNT", "SUM", "MIN", "MAX", "AVG", "VAR", "STD"]

/-- A call by the name of a function. -/
theorem primary_call {rhs : Nat → Piece Term} {name : String} (hname : name ∈ functionNames)
    {ts rest : List Token} {t : Term} (hcall : call inner.term [⟨name, none⟩] ts = .ok (t, rest))
    (hrest : MayFollow rest) :
    primary inner rhs (bareWord name :: .symbol "(" :: ts) = .ok (t, rest) := by
  have hknown : ∀ name ∈ functionNames, Text.toUpper name ∉ termStarters ∧
      Text.toUpper name ≠ "POSITION" ∧ Text.toUpper name ≠ "ARRAY" ∧
      (typeEnding? (Text.toUpper name)).isNone = true := by decide
  obtain ⟨hstarts, hposition, harray, htype⟩ := hknown name hname
  have htyped : typedConstant? (bareWord name :: .symbol "(" :: ts) = none := by
    rw [typedConstant?, mark_bareWord, Option.isNone_iff_eq_none.mp htype]
    rfl
  have hmore : moreWords (Token.symbol "(" :: ts).length (.symbol "(" :: ts) =
      .ok ([], .symbol "(" :: ts) := moreWords_stop _ (by simp [mark])
  have hcalled : nameTerm inner ⟨name, none⟩ (.symbol "(" :: ts) = .ok (t, rest) := by
    rw [nameTerm, hmore, ok_bind]
    exact hcall
  refine primary_of_name hstarts (fun _ => ⟨hposition, harray⟩) ?_ htyped hcalled
    (hrest.mark_ne (by decide))
  rintro t ⟨⟩
  rfl

omit [Number N] in
theorem operators_stop {fuel floor : Nat} {t : Term} {ts : List Token} (h : precedence ts ≤ floor) :
    operators inner fuel floor t ts = .ok (t, ts) := by
  cases fuel with
  | zero => rw [operators, if_pos h]
  | succ fuel => rw [operators, if_pos h]

omit [Number N] in
/-- One more operator is read, and the reading goes on behind it. -/
theorem operators_step {fuel floor : Nat} {left t : Term} {ts rest : List Token}
    (hfloor : floor < precedence ts)
    (htail : operatorTail inner (operand inner fuel) (precedence ts) left ts = .ok (t, rest)) :
    operators inner (fuel + 1) floor left ts = operators inner fuel floor t rest := by
  rw [operators, if_neg (Nat.not_le_of_lt hfloor), htail]
  rfl

theorem operand_of_primary {fuel floor : Nat} {ts rest : List Token} {t : Term}
    (h : primary inner (operand inner fuel) ts = .ok (t, rest)) :
    operand inner (fuel + 1) floor ts = operators inner fuel floor t rest := by
  rw [operand, h]
  rfl

/-- However much fuel there is beyond the cost of the term, the reading of an operand comes to the
term at the front of the tokens and goes on with what follows it. -/
def ReadsOperand (inner : Nested) (floor cost : Nat) (ts : List Token) (t : Term)
    (rest : List Token) : Prop :=
  ∀ fuel, ∃ more, fuel ≤ more ∧ operand inner (fuel + cost) floor ts = operators inner more floor t rest

section ReadsOperand

omit [Number N]

variable {floor cost : Nat} {ts tail rest : List Token} {left t : Term}

theorem readsOperand_of_primary
    (h : ∀ fuel, primary inner (operand inner (fuel + cost)) ts = .ok (t, rest)) :
    ReadsOperand inner floor (cost + 1) ts t rest :=
  fun fuel => ⟨fuel + cost, Nat.le_add_right _ _, operand_of_primary (h fuel)⟩

/-- An expression that no operator is at the front of. -/
theorem readsOperand_of_leaf {e : Expr N}
    (h : ∀ rhs, primary inner rhs (e.tokens ++ rest) = .ok (e.term, rest)) :
    ReadsOperand inner floor e.tokens.length (e.tokens ++ rest) e.term rest := by
  obtain ⟨length, hlength⟩ := Nat.exists_eq_succ_of_ne_zero
    (mt List.length_eq_zero_iff.mp e.tokens_ne_nil)
  rw [hlength]
  exact readsOperand_of_primary fun fuel => h _

/-- An operator behind the operand that was read takes it as its left one. -/
theorem ReadsOperand.step (h : ReadsOperand inner floor cost ts left tail)
    (hfloor : floor < precedence tail) {more : Nat}
    (htail : ∀ fuel, operatorTail inner (operand inner (fuel + more)) (precedence tail) left tail =
      .ok (t, rest)) :
    ReadsOperand inner floor (cost + (more + 1)) ts t rest := by
  intro fuel
  obtain ⟨spared, hspared, hread⟩ := h (fuel + (more + 1))
  obtain ⟨fuel', rfl⟩ := Nat.exists_eq_add_of_le' (Nat.le_trans (Nat.le_add_left _ fuel) hspared)
  refine ⟨fuel' + more, by omega, ?_⟩
  rw [Nat.add_comm cost, ← Nat.add_assoc, hread]
  exact operators_step hfloor (htail fuel')

/-- The reading stops where no operator binds tighter than the floor. -/
theorem ReadsOperand.operand_eq (h : ReadsOperand inner floor cost ts t rest)
    (hfloor : precedence rest ≤ floor) (fuel : Nat) :
    operand inner (fuel + cost) floor ts = .ok (t, rest) := by
  obtain ⟨more, -, hread⟩ := h fuel
  rw [hread, operators_stop hfloor]

end ReadsOperand

/-- The arguments of a call. -/
theorem call_expressions (hinner : ReadsBelow N inner levels) {w : Word} {args : List (Expr N)}
    (hargs : ∀ a ∈ args, a.IsFaithful ∧ a.nesting < levels)
    (hnamed : ∀ a ∈ args.head?, a.lead ∉ ["ALL", "DISTINCT"]) {rest : List Token}
    (hrest : MayFollow rest) :
    call inner.term [w] (commaTokens (args.map Expr.tokens) ++ .symbol ")" :: rest) =
      .ok (.call [w] none (args.map (.term ∘ Expr.term)) .none, rest) := by
  cases args with
  | nil =>
      have harguments : arguments inner.term (.symbol ")" :: rest) = .ok (⟨none, [], []⟩, rest) := rfl
      exact call_of_arguments harguments hrest
  | cons a args =>
      have harguments : commaSeparated (argument inner.term)
          (commaTokens ((a :: args).map Expr.tokens) ++ .symbol ")" :: rest) =
          .ok ((a :: args).map (.term ∘ Expr.term), .symbol ")" :: rest) := by
        refine commaSeparated_tokens (by simp) (by simp [mark]) fun c hc ts hts => ?_
        have hends := ends_of_closed hts
        obtain ⟨hfaithful, hlevels⟩ := hargs c hc
        rw [(hfaithful.isOrdinary hends.follows inner.term).2, hinner c hfaithful hlevels ts hends]
        rfl
      have hfront := (hargs a List.mem_cons_self).1
      have htokens : ∃ tail, commaTokens ((a :: args).map Expr.tokens) ++ .symbol ")" :: rest =
          a.tokens ++ tail := by
        rw [List.map_cons, commaTokens, List.append_assoc]
        exact ⟨_, rfl⟩
      obtain ⟨tail, htail⟩ := htokens
      rw [htail] at harguments ⊢
      have hlead := hnamed a rfl
      exact call_of_commaSeparated harguments (hfront.head_ne (by decide) _)
        (hfront.mark_ne (fun heq => hlead (by simp [heq])) (by decide) _)
        (hfront.mark_ne (fun heq => hlead (by simp [heq])) (by decide) _) hrest

theorem lead_not_mem {e : Expr N} (h : e.IsFaithful) : e.lead ∉ termStarters := by
  have hempty : "" ∉ termStarters := by decide
  induction h with
  | column bare named => exact named
  | binary known closes opens named left right ihl ihr => exact ihl
  | isNull closes operand ih => exact ih
  | _ => exact hempty

/-- A sign or a denial before its operand. -/
theorem primary_unary {rhs : Nat → Piece Term} {op : String} (hop : op = "-" ∨ op = "NOT")
    {e : Expr N} (h : e.IsFaithful) {rest : List Token} (hrest : MayFollow rest)
    (hrhs : rhs (prefixPrecedence op) (e.tokens ++ rest) = .ok (e.term, rest)) :
    primary inner rhs (operatorToken op :: (e.tokens ++ rest)) = .ok (.unary op e.term, rest) := by
  have hcollate : mark rest ≠ "COLLATE" := hrest.mark_ne (by decide)
  rcases hop with rfl | rfl
  · change primary inner rhs (.symbol "-" :: (e.tokens ++ rest)) = _
    refine primary_of_bareTerm (by simp [mark]) rfl ?_ hcollate
    change rhs 40 (e.tokens ++ rest) = _ at hrhs
    rw [bareTerm, signedTerm, hrhs]
    rfl
  · have hexists : mark (e.tokens ++ rest) ≠ "EXISTS" :=
      h.mark_ne (fun heq => lead_not_mem h (by rw [heq]; decide)) (by decide) rest
    have hnot : Text.toUpper "NOT" = "NOT" := by decide
    have hmark : mark (operatorToken "NOT" :: (e.tokens ++ rest)) = "NOT" := hnot
    have hconstruct : construct? inner "NOT" = none := rfl
    refine primary_of_bareTerm (by rw [hmark]; decide) ?_ ?_ hcollate
    · rw [typedConstant?, hmark]
      rfl
    · change rhs 15 (e.tokens ++ rest) = _ at hrhs
      have hdenial : denial inner rhs (operatorToken "NOT" :: (e.tokens ++ rest)) (e.tokens ++ rest) =
          .ok (.unary "NOT" e.term, rest) := by
        rw [denial, skip?_eq_none hexists]
        simp only [hrhs, ok_bind]
        rfl
      rw [← hdenial]
      change wordTerm inner rhs ⟨"NOT", none⟩ (e.tokens ++ rest) = _
      unfold wordTerm
      dsimp only [keyword_bare]
      rw [hnot, hconstruct]
      rfl

/-- A binary operator and its right operand. -/
theorem operatorTail_operand {rhs : Nat → Piece Term} {p : Nat} {left : Term} {op : String}
    (hop : op ∈ supportedOperators) {e : Expr N} (h : e.IsFaithful) (hnamed : e.lead ∉ ["ANY", "ALL"])
    {rest : List Token} (hrhs : rhs p (e.tokens ++ rest) = .ok (e.term, rest)) :
    operatorTail inner rhs p left (operatorToken op :: (e.tokens ++ rest)) =
      .ok (.binary left op e.term, rest) := by
  have hany : mark (e.tokens ++ rest) ≠ "ANY" :=
    h.mark_ne (fun heq => hnamed (by simp [heq])) (by decide) rest
  have hall : mark (e.tokens ++ rest) ≠ "ALL" :=
    h.mark_ne (fun heq => hnamed (by simp [heq])) (by decide) rest
  rw [operatorTail_binary hop, binaryTail, if_neg (by simp [hany, hall]), hrhs]
  rfl

/-- A call of an aggregate of one expression. -/
theorem primary_aggregate (hinner : ReadsBelow N inner levels) {rhs : Nat → Piece Term}
    {f : AggregateFunction} {e : Expr N} (h : e.IsFaithful) (hlevels : e.nesting < levels)
    (hnamed : e.lead ∉ ["ALL", "DISTINCT"]) {rest : List Token} (hrest : MayFollow rest) :
    primary inner rhs ((Expr.aggregate f e).tokens ++ rest) = .ok ((Expr.aggregate f e).term, rest) := by
  have hname : f.name ∈ functionNames := by cases f <;> decide
  have hone : commaTokens ([e].map Expr.tokens) = e.tokens := by simp [commaTokens]
  have hargs : ∀ a ∈ [e], a.IsFaithful ∧ a.nesting < levels := by simpa using ⟨h, hlevels⟩
  have hfirst : ∀ a ∈ [e].head?, a.lead ∉ ["ALL", "DISTINCT"] := by simpa using hnamed
  have hcall := call_expressions hinner (w := ⟨f.name, none⟩) hargs hfirst hrest
  rw [hone] at hcall
  rw [Expr.tokens, List.cons_append, List.cons_append, List.append_assoc]
  exact primary_call hname hcall hrest

omit [Number N] in
/-- The number of rows. -/
theorem primary_count {rhs : Nat → Piece Term} {rest : List Token} (hrest : MayFollow rest) :
    primary inner rhs ((Expr.aggregateRows (N := N) .count).tokens ++ rest) =
      .ok ((Expr.aggregateRows (N := N) .count).term, rest) := by
  have hstar : commaSeparated (argument inner.term) (.symbol "*" :: .symbol ")" :: rest) =
      .ok ([.star], .symbol ")" :: rest) := rfl
  exact primary_call (by decide) (call_of_commaSeparated hstar (by simp) (by simp [mark])
    (by simp [mark]) hrest) hrest

/-! ## Tests for NULL -/

/-- The tokens of a test for NULL, behind its operand. -/
def nullTest (negated : Bool) : List Token :=
  bareWord "IS" :: ((if negated then [bareWord "NOT"] else []) ++ [bareWord "NULL"])

omit [Number N] in
theorem tokens_isNull (e : Expr N) (negated : Bool) :
    (Expr.isNull e negated).tokens = e.tokens ++ nullTest negated := rfl

theorem length_nullTest (negated : Bool) : (nullTest negated).length = negated.toNat + 1 + 1 := by
  cases negated <;> rfl

theorem precedence_nullTest (negated : Bool) (rest : List Token) :
    precedence (nullTest negated ++ rest) = testPrecedence := by
  have his : Text.toUpper "IS" = "IS" := by decide
  simp [nullTest, bareWord, precedence, his, testPrecedence]

theorem follows_nullTest (negated : Bool) (rest : List Token) : MayFollow (nullTest negated ++ rest) :=
  follows_cons (by decide) _

theorem operatorTail_nullTest {rhs : Nat → Piece Term} {p : Nat} (left : Term) (negated : Bool)
    (rest : List Token) :
    operatorTail inner rhs p left (nullTest negated ++ rest) = .ok (.isNull left negated, rest) := by
  have hnull : Text.toUpper "NULL" = "NULL" := by decide
  have hnot : Text.toUpper "NOT" = "NOT" := by decide
  have his : Text.toUpper "IS" = "IS" := by decide
  cases negated <;> simp [nullTest, operatorTail, isTail, skip?, his, hnull, hnot]

/-! ## Expressions -/

/-- The tokens of an operand are read, and the reading goes on behind them. -/
theorem operand_tokens (hinner : ReadsBelow N inner levels) {e : Expr N} (h : e.IsFaithful)
    (hlevels : e.nesting ≤ levels) {rest : List Token} (hrest : MayFollow rest) {floor : Nat}
    (hopens : e.opensAbove floor = true) (hcloses : e.closesAt (precedence rest) = true) :
    ReadsOperand inner floor e.tokens.length (e.tokens ++ rest) e.term rest := by
  induction h generalizing rest floor with
  | @literal l written shown => exact readsOperand_of_leaf (e := .literal l) fun _ => primary_literal hrest
  | @column id bare named =>
      exact readsOperand_of_leaf (e := .column id) fun _ => primary_column named hrest
  | @unary op e known opens operand ih =>
      rw [Expr.closesAt, Bool.and_eq_true, decide_eq_true_iff] at hcloses
      have hread := (ih hlevels hrest opens hcloses.2).operand_eq hcloses.1
      exact readsOperand_of_primary fun fuel => primary_unary known operand hrest (hread fuel)
  | @binary l r op known closes opens named left right ihl ihr =>
      rw [Expr.opensAbove, Bool.and_eq_true, decide_eq_true_iff] at hopens
      rw [Expr.closesAt, Bool.and_eq_true, decide_eq_true_iff] at hcloses
      rw [Expr.nesting, Nat.max_le] at hlevels
      have hnext := precedence_operatorToken known (r.tokens ++ rest)
      have hleft := ihl hlevels.1 (follows_operator known _) hopens.2 (by rw [hnext]; exact closes)
      have hright := (ihr hlevels.2 hrest opens hcloses.2).operand_eq hcloses.1
      rw [Expr.tokens, List.append_assoc, List.length_append]
      refine hleft.step (by rw [hnext]; exact hopens.1) fun fuel => ?_
      rw [hnext]
      exact operatorTail_operand known right named (hright fuel)
  | @nested e named inside ih =>
      refine readsOperand_of_leaf (e := .nested e) fun rhs => ?_
      rw [Expr.tokens, List.cons_append, List.append_assoc]
      refine primary_of_bareTerm (by simp [mark]) rfl ?_ (hrest.mark_ne (by decide))
      exact parenthesizedTerm_tokens hinner inside hlevels named hrest
  | @isNull e negated closes operand ih =>
      rw [Expr.opensAbove, Bool.and_eq_true, decide_eq_true_iff] at hopens
      have hnext := precedence_nullTest negated rest
      have hread := ih hlevels (follows_nullTest negated rest) hopens.2 (by rw [hnext]; exact closes)
      rw [tokens_isNull, List.append_assoc, List.length_append, length_nullTest]
      exact hread.step (by rw [hnext]; exact hopens.1) fun fuel => operatorTail_nullTest _ _ _
  | @call name args known named arguments ih =>
      refine readsOperand_of_leaf (e := .call name args) fun rhs => ?_
      have hname : ∀ name ∈ ["ABS", "SQRT", "ROUND"], name ∈ functionNames := by decide
      have hargs : ∀ a ∈ args, a.IsFaithful ∧ a.nesting < levels := fun a ha =>
        ⟨arguments a ha, Nat.lt_of_lt_of_le (Expr.nesting_lt_of_mem ha) hlevels⟩
      rw [Expr.tokens, Expr.term, Expr.tokensAll_eq_map, Expr.termArguments_eq_map, List.cons_append,
        List.cons_append, List.append_assoc]
      exact primary_call (hname name known) (call_expressions hinner hargs named hrest) hrest
  | @aggregate f e named argument ih =>
      exact readsOperand_of_leaf (e := .aggregate f e) fun _ =>
        primary_aggregate hinner argument hlevels named hrest
  | count => exact readsOperand_of_leaf (e := .aggregateRows .count) fun _ => primary_count hrest

/-- The tokens of an expression are read up to its end. -/
theorem term_tokens (hinner : ReadsBelow N inner levels) {e : Expr N} (h : e.IsFaithful)
    (hlevels : e.nesting ≤ levels) {rest : List Token} (hrest : Ends rest) :
    term inner (e.tokens ++ rest) = .ok (e.term, rest) := by
  have hcloses : e.closesAt (precedence rest) = true := by
    rw [hrest.precedence]
    exact closesAt_zero e
  have hread := operand_tokens hinner h hlevels hrest.follows (opensAbove_zero h) hcloses
  have hfuel : (e.tokens ++ rest).length + 1 = rest.length + 1 + e.tokens.length := by
    rw [List.length_append]
    omega
  rw [term, hfuel]
  exact hread.operand_eq (Nat.le_of_eq hrest.precedence) _

/-- **Tokens are read as their term.**  The grammar reads the tokens of every expression that has less
levels than it. -/
theorem readsBelow_nested (levels : Nat) : ReadsBelow N (nested levels) levels := by
  induction levels with
  | zero =>
      intro e h hlevels
      exact absurd hlevels (Nat.not_lt_zero _)
  | succ levels ih =>
      intro e h hlevels rest hrest
      exact term_tokens ih h (Nat.le_of_lt_succ hlevels) hrest

end Sql.Grammar

end PrivateSql
