import PrivateSql.Proofs.UnreadCalls
/-!
# Terms before an idle sign

An idle sign is no operator and begins no operand, so a term ends before it, or fails as it would at the end of
the text.  The argument follows the reading by precedence: every operand and every operator is a token at least,
so the fuel of both readings lasts, although one of them has more tokens in front of it.

* `precedence_append` — an idle sign binds nothing;
* `advances_primary`, `operatorTail_agree` — operands and operators;
* `operand_agree` — terms, with any fuel that the tokens do not use up.
-/

namespace PrivateSql.Sql.Grammar

variable {tail : IdleTail} {K k : Nat}

/-! ## What is refused -/

theorem Agree.refusedTerm {start : List Token} {x y : Reading (List Token)} (h : Agree (LeftOver tail k) x y) :
    Agree (SameRead tail k) (refusedTerm start x) (refusedTerm (start ++ tail.tokens) y) := by
  refine h.andThen fun r hr => ?_
  rw [sourceBetween_append]
  exact .found hr

theorem Agree.refusedTail {left : Term} {start : List Token} {x y : Reading (List Token)}
    (h : Agree (LeftOver tail k) x y) :
    Agree (SameRead tail k) (refusedTail left start x) (refusedTail left (start ++ tail.tokens) y) := by
  refine h.andThen fun r hr => ?_
  rw [sourceBetween_append]
  exact .found hr

/-! ## How tight an operator binds -/

theorem negatablePrecedence_append (ts : List Token) :
    negatablePrecedence (mark (ts ++ tail.tokens)) = negatablePrecedence (mark ts) := by
  have hidle : ∀ s ∈ idleSigns, negatablePrecedence s = 0 := by decide
  cases ts with
  | nil => exact hidle _ tail.idle
  | cons t ts => rw [mark_append_of_ne_nil (List.cons_ne_nil t ts)]

/-- An idle sign binds nothing, and does not help an operator that stands before it. -/
theorem precedence_append (ts : List Token) : precedence (ts ++ tail.tokens) = precedence ts := by
  have hidle : ∀ s ∈ idleSigns, signPrecedence s = 0 := by decide
  cases ts with
  | nil => exact hidle _ tail.idle
  | cons t ts =>
      cases t with
      | word w =>
          have hzone : (skip? ["TIME", "ZONE"] (ts ++ tail.tokens)).isSome =
              (skip? ["TIME", "ZONE"] ts).isSome := by
            rw [skip?_append tail (by decide), Option.isSome_map]
          rw [List.cons_append, precedence, precedence, hzone, negatablePrecedence_append]
      | symbol => rfl
      | number => rfl
      | string => rfl
      | otherLiteral => rfl

theorem startsIntroduced_append (ts : List Token) :
    startsIntroduced (ts ++ tail.tokens) = startsIntroduced ts := by
  cases ts with
  | nil => rfl
  | cons t ts => cases t <;> rfl

theorem startsQuery_append (ts : List Token) : startsQuery (ts ++ tail.tokens) = startsQuery ts := by
  rw [startsQuery, startsQuery, decide_eq_decide.mpr (mark_append_eq_iff tail (by decide)),
    decide_eq_decide.mpr (mark_append_eq_iff tail (by decide))]

/-! ## Operands -/

/-- May a term begin with the token? -/
def beginsTerm : Token → Bool
  | .symbol s => decide (s ∈ ["(", "-", "+", "@"])
  | _ => true

section Operands

variable {inner : Nested} (h : inner.IsBlind tail)

include h

theorem subquery_agree {start ts : List Token} (hts : Within k ts) :
    Agree (SameRead tail k) (subquery inner start ts)
      (subquery inner (start ++ tail.tokens) (ts ++ tail.tokens)) := by
  refine ((h.query k).closing k (Nat.le_refl k) ts hts).next fun _ r hr => ?_
  dsimp only
  rw [sourceBetween_append]
  exact .found hr

omit h in
/-- A field that is taken out of what stands between parentheses. -/
theorem fieldEnd_agree {start r : List Token} (t : Term) (hr : Within k r) :
    Agree (SameRead tail k)
      (match r with
        | .symbol "." :: .word _ :: rest => pure (.refused (sourceBetween start rest), rest)
        | .symbol "." :: rest => failExpected "an identifier" rest
        | _ => pure (t, r))
      (match r ++ tail.tokens with
        | .symbol "." :: .word _ :: rest =>
          pure (.refused (sourceBetween (start ++ tail.tokens) rest), rest)
        | .symbol "." :: rest => failExpected "an identifier" rest
        | _ => pure (t, r ++ tail.tokens)) := by
  split
  · rw [← sourceBetween_append start _ tail.tokens]
    exact .found hr.tail.tail
  · rename_i rest hword
    split
    · rename_i heq
      obtain ⟨us, rfl, -⟩ := tail.append_eq_cons rfl (List.cons.inj heq).2
      exact absurd rfl (hword _ us)
    · exact .failed
    · rename_i hdot
      exact absurd rfl (hdot _)
  · rename_i hfield hdot
    split
    · rename_i heq
      exact absurd heq (tail.append_ne_cons (by decide) hdot _)
    · rename_i heq
      exact absurd heq (tail.append_ne_cons (by decide) hdot _)
    · exact .found hr

theorem parenthesizedTerm_agree {start ts : List Token} (hts : Within k ts) :
    Agree (SameRead tail k) (parenthesizedTerm inner start ts)
      (parenthesizedTerm inner (start ++ tail.tokens) (ts ++ tail.tokens)) := by
  unfold parenthesizedTerm
  rw [startsQuery_append]
  cases startsQuery ts with
  | true => exact (subquery_agree h hts).next fun t r hr => fieldEnd_agree t hr
  | false =>
      have hterms := ((h.term k).commaSeparated.closing k (Nat.le_refl k) ts hts)
      refine hterms.next fun terms r hr => ?_
      dsimp only
      split
      · exact fieldEnd_agree _ hr
      · rw [sourceBetween_append]
        exact fieldEnd_agree _ hr

theorem blind_nameTerm (w : Word) : Blind tail K (nameTerm inner w) (nameTerm inner w) := by
  refine .ofLength fun ts _ hts => ?_
  refine (moreWords_agree (Nat.le_refl _) (tail.length_le _) hts).next fun ws r hr => ?_
  dsimp only
  split
  · exact (h.term _).call h.fails_nil _ _ (Nat.le_refl _) _ hr.tail
  · rename_i hopen
    split
    · rename_i heq
      exact absurd heq (tail.append_ne_cons (by decide) hopen _)
    · exact .found hr

variable {rhs rhs' : Nat → Piece Term} (hrhs : ∀ floor, Blind tail K (rhs floor) (rhs' floor))

include hrhs

theorem denial_agree (hk : k ≤ K) {start ts : List Token} (hts : Within k ts) :
    Agree (SameRead tail k) (denial inner rhs start ts)
      (denial inner rhs' (start ++ tail.tokens) (ts ++ tail.tokens)) := by
  refine .ofSkip? hts (by decide) (fun r hr => ?_) fun _ => ?_
  · exact (Passes.need (by decide) k hk r hr).andThen fun r hr => subquery_agree h hr
  · exact (hrhs 15 k hk ts hts).next fun _ _ hr => .found hr

omit h hrhs in
theorem plainWordTerm_of_ne (inner : Nested) (rhs : Nat → Piece Term) {w : Word} {ts : List Token}
    (hplain : w.keyword ∈ ["POSITION", "ARRAY"] → ∀ rest, ts ≠ .symbol "(" :: rest) :
    plainWordTerm inner rhs w ts =
      if w.text.toList.head? = some '_' ∧ startsIntroduced ts then
        refusedTerm (.word w :: ts) (.ok (ts.drop 1))
      else nameTerm inner w ts := by
  unfold plainWordTerm
  dsimp only
  split
  · rename_i hkeyword
    exact absurd rfl (hplain (by rw [hkeyword]; decide) _)
  · rename_i hkeyword
    exact absurd rfl (hplain (by rw [hkeyword]; decide) _)
  · rfl

theorem blind_plainWordTerm (w : Word) :
    Blind tail K (plainWordTerm inner rhs w) (plainWordTerm inner rhs' w) := by
  intro k hk ts hts
  by_cases hplain : w.keyword ∈ ["POSITION", "ARRAY"] → ∀ rest, ts ≠ .symbol "(" :: rest
  · have hplain' := fun hkeyword => tail.append_ne_cons (by decide) (hplain hkeyword)
    rw [plainWordTerm_of_ne inner rhs hplain, plainWordTerm_of_ne inner rhs' hplain',
      startsIntroduced_append]
    split
    · rename_i hstarts
      have hne : ts ≠ [] := by
        rintro rfl
        exact absurd hstarts.2 Bool.false_ne_true
      rw [drop_append_of_ne_nil hne, ← List.cons_append]
      exact (Agree.reached (hts.drop 1)).refusedTerm
    · exact blind_nameTerm h w k hk ts hts
  · simp only [Classical.not_imp, not_forall, not_not] at hplain
    obtain ⟨hkeyword, rest, rfl⟩ := hplain
    unfold plainWordTerm
    rcases List.mem_cons.mp hkeyword with hposition | hkeyword
    · rw [hposition]
      have hparts : Passes tail K (inTurn [passed (rhs 20), need "IN", passed inner.term, need ")"])
          (inTurn [passed (rhs' 20), need "IN", passed inner.term, need ")"]) :=
        .inTurn (.cons (hrhs 20).passed (.cons (.need (by decide))
          (.cons h.passed (.cons (.need (by decide)) .nil))))
      exact (hparts k hk _ hts.tail).refusedTerm
    · rw [List.mem_singleton.mp hkeyword]
      refine ((h.query K).closing k hk _ hts.tail).next fun _ r hr => ?_
      dsimp only
      rw [← List.cons_append, sourceBetween_append]
      exact .found hr

theorem blind_wordTerm (w : Word) : Blind tail K (wordTerm inner rhs w) (wordTerm inner rhs' w) := by
  intro k hk ts hts
  unfold wordTerm
  dsimp only
  rw [← List.cons_append]
  split
  · rename_i construct hconstruct
    exact (passes_construct? h hconstruct k hk ts hts).refusedTerm
  split
  · exact .found hts
  split
  · exact .found hts
  split
  · exact .found hts
  split
  · exact denial_agree h hrhs hk hts
  split
  · exact (Passes.need (by decide) k hk ts hts).andThen fun r hr => subquery_agree h hr
  split
  · exact .found hts
  split
  · split
    · refine ((h.term K).arguments h.fails_nil k hk _ hts.tail).next fun _ _ hr => .found hr
    · rename_i hopen
      split
      · rename_i heq
        exact absurd heq (tail.append_ne_cons (by decide) hopen _)
      · exact .found hts
  · exact blind_plainWordTerm h hrhs w k hk ts hts

omit h in
theorem blind_signedTerm (op : String) : Blind tail K (signedTerm rhs op) (signedTerm rhs' op) :=
  fun k hk ts hts => (hrhs 40 k hk ts hts).next fun _ _ hr => .found hr

omit h hrhs in
/-- No term begins with a token that begins none. -/
theorem bareTerm_fails (inner : Nested) (rhs : Nat → Piece Term) {ts : List Token}
    (hts : ∀ t ∈ ts.head?, beginsTerm t = false) :
    bareTerm inner rhs ts = failExpected "an expression" ts := by
  unfold bareTerm
  split
  all_goals first
    | exact absurd (hts _ rfl) (by simp [beginsTerm])
    | rfl

omit h hrhs in
theorem beginsTerm_head?_append {ts : List Token} (hts : ∀ t ∈ ts.head?, beginsTerm t = false) :
    ∀ t ∈ (ts ++ tail.tokens).head?, beginsTerm t = false := by
  have hidle : ∀ s ∈ idleSigns, beginsTerm (.symbol s) = false := by decide
  cases ts with
  | nil =>
      rintro t ⟨⟩
      exact hidle _ tail.idle
  | cons t ts => exact hts

theorem advances_bareTerm : Advances tail K (bareTerm inner rhs) (bareTerm inner rhs') := by
  intro k hk ts hts
  by_cases hbegins : ∀ t ∈ ts.head?, beginsTerm t = false
  · rw [bareTerm_fails inner rhs hbegins, bareTerm_fails inner rhs' (beginsTerm_head?_append hbegins)]
    exact .failed
  · cases ts with
    | nil => exact absurd (fun _ h => by cases h) hbegins
    | cons t ts =>
        cases t with
        | number => exact .found hts.of_cons
        | string => exact .found hts.of_cons
        | otherLiteral => exact .found hts.of_cons
        | word w => exact blind_wordTerm h hrhs w k hk _ hts.of_cons
        | symbol s =>
            simp only [List.head?_cons, Option.mem_some_iff, forall_eq', beginsTerm,
              decide_eq_false_iff_not, not_not, List.mem_cons, List.not_mem_nil, or_false] at hbegins
            rcases hbegins with rfl | rfl | rfl | rfl
            · exact parenthesizedTerm_agree h hts.of_cons
            · exact blind_signedTerm hrhs "-" k hk _ hts.of_cons
            · exact blind_signedTerm hrhs "+" k hk _ hts.of_cons
            · exact (blind_word k (Nat.le_refl k) _ hts.of_cons).next fun _ _ hr => .found hr

omit h hrhs in
/-- An idle sign begins no operand. -/
theorem primary_nil_agree (inner : Nested) (rhs rhs' : Nat → Piece Term) :
    Agree (SameRead tail k) (primary inner rhs []) (primary inner rhs' ([] ++ tail.tokens)) := by
  have hnone : ∀ t ∈ ([] : List Token).head?, beginsTerm t = false := fun _ h => by cases h
  have hempty : Within 1 [] := ⟨Nat.zero_le 1, fun t ht => absurd ht List.not_mem_nil⟩
  have hconstant : typedConstant? ([] ++ tail.tokens) = none := (typedConstant?_append tail hempty).1
  refine .ofMark (by decide) (fun heq => absurd heq (by decide)) ?_
  rw [hconstant, bareTerm_fails inner rhs' (beginsTerm_head?_append hnone)]
  exact .failed

theorem advances_primary : Advances tail K (primary inner rhs) (primary inner rhs') := by
  intro k hk ts hts
  obtain ⟨hconstant, hwithin⟩ := typedConstant?_append tail hts
  unfold primary
  refine .ofMark (by decide) (fun hmark => ?_) ?_
  · obtain ⟨t, ts, rfl⟩ := List.exists_cons_of_ne_nil (ne_nil_of_mark (by decide) hmark)
    have hinterval : Passes tail K (interval rhs) (interval rhs') :=
      .inTurn (.cons (hrhs 10).passed (.cons passes_intervalEnding .nil))
    exact (hinterval k hk ts hts.of_cons).refusedTerm
  · rw [hconstant]
    cases htyped : typedConstant? ts with
    | some r => exact (Agree.reached (hwithin r htyped)).refusedTerm
    | none =>
        refine (advances_bareTerm h hrhs k hk ts hts).next fun t r hr => ?_
        refine .ofSkip? hr (by decide) (fun r hr => ?_) fun _ => .found hr
        exact (blind_dottedName.passed k (Nat.le_refl k) r hr).refusedTerm

end Operands

/-! ## Operators -/

theorem passes_escapeCharacter : Passes tail K escapeCharacter escapeCharacter := by
  refine .whenFirst (by decide) fun k hk ts hts => ?_
  cases ts with
  | nil => exact .failed
  | cons t ts =>
      have htext : Agree (LeftOver tail k) (textConstant (t :: ts)) (textConstant (t :: ts ++ tail.tokens)) :=
        passes_textConstant k hk (t :: ts) hts
      cases t with
      | word w =>
          dsimp only [List.cons_append]
          split
          · exact htext
          · exact .failed
      | string s =>
          dsimp only [List.cons_append]
          split
          · exact htext
          · exact .failed
      | otherLiteral source =>
          dsimp only [List.cons_append]
          split
          · exact htext
          · exact .failed
      | number => exact .failed
      | symbol => exact .failed

section Operators

variable {rhs rhs' : Nat → Piece Term} (hrhs : ∀ floor, Blind tail K (rhs floor) (rhs' floor))

include hrhs

theorem blind_binaryTail (p : Nat) (left : Term) (op : String) :
    Blind tail K (binaryTail rhs p left op) (binaryTail rhs' p left op) := by
  intro k hk ts hts
  refine .ofEither (by decide) (fun hne => ?_) ((hrhs p k hk ts hts).next fun _ _ hr => .found hr)
  rw [drop_append_of_ne_nil hne, mark_append_of_ne_nil hne]
  refine ((hrhs p).parenthesized k hk _ (hts.drop 1)).next fun right r hr => ?_
  dsimp only
  split
  · exact .found hr
  · exact .failed

variable {inner : Nested} (h : inner.IsBlind tail)

omit hrhs in
include h in
theorem isTail_agree {left : Term} {start ts : List Token} (hts : Within k ts) :
    Agree (SameRead tail k) (isTail inner.term left start ts)
      (isTail inner.term left (start ++ tail.tokens) (ts ++ tail.tokens)) := by
  unfold isTail
  rw [skip?_append tail (by decide), skip?_append tail (by decide), skipOneOf_append tail (by decide)]
  cases hnull : skip? ["NULL"] ts with
  | some r => exact .found (hts.of_skip? hnull)
  | none =>
      cases hnot : skip? ["NOT", "NULL"] ts with
      | some r => exact .found (hts.of_skip? hnot)
      | none =>
          refine Agree.refusedTail ?_
          refine .ofSkip? (hts.skipOneOf _) (by decide) (fun r hr => ?_) fun _ => ?_
          · exact h.passed k (Nat.le_refl k) r hr
          · exact Passes.needOneOf (by decide) k (Nat.le_refl k) _ (hts.skipOneOf _)

omit hrhs in
include h in
theorem inTail_agree {left : Term} {negated : Bool} {start ts : List Token} (hts : Within k ts) :
    Agree (SameRead tail k) (inTail inner left negated start ts)
      (inTail inner left negated (start ++ tail.tokens) (ts ++ tail.tokens)) := by
  refine .ofSkip? hts (by decide) (fun r hr => ?_) fun _ => ?_
  · exact (Passes.enclosed (.cons h.passed .nil) k (Nat.le_refl k) r hr).refusedTail
  · refine (Passes.need (by decide) k (Nat.le_refl k) ts hts).andThen fun r hr => ?_
    rw [startsQuery_append]
    cases startsQuery r with
    | true =>
        refine ((h.query k).closing k (Nat.le_refl k) r hr).next fun _ r hr => ?_
        dsimp only
        rw [sourceBetween_append]
        exact .found hr
    | false =>
        exact ((h.term k).commaSeparated.closing k (Nat.le_refl k) r hr).next fun _ _ hr => .found hr

omit hrhs in
theorem negatableTail_of_ne (inner : Nested) (rhs : Nat → Piece Term) {left : Term} {negated : Bool}
    {start ts : List Token} (hmark : mark ts ∉ ["IN", "BETWEEN", "SIMILAR", "RLIKE", "REGEXP"]) :
    negatableTail inner rhs left negated start ts =
      refusedTail left start (inTurn [passed (rhs 19), escapeCharacter] (ts.drop 1)) := by
  simp only [List.mem_cons, List.not_mem_nil, or_false, not_or] at hmark
  obtain ⟨hin, hbetween, hsimilar, hrlike, hregexp⟩ := hmark
  unfold negatableTail
  split
  · exact absurd ‹_› hin
  · exact absurd ‹_› hbetween
  · exact absurd ‹_› hsimilar
  · exact absurd ‹_› hrlike
  · exact absurd ‹_› hregexp
  · rfl

include h in
theorem negatableTail_agree (hk : k ≤ K) {left : Term} {negated : Bool} {start ts : List Token}
    (hne : ts ≠ []) (hts : Within k (ts.drop 1)) :
    Agree (SameRead tail k) (negatableTail inner rhs left negated start ts)
      (negatableTail inner rhs' left negated (start ++ tail.tokens) (ts ++ tail.tokens)) := by
  have hpattern := fun r => (hrhs 19).passed k hk r
  by_cases hmark : mark ts ∈ ["IN", "BETWEEN", "SIMILAR", "RLIKE", "REGEXP"]
  · have hmark' := mark_append_of_ne_nil hne tail.tokens
    unfold negatableTail
    rw [hmark', drop_append_of_ne_nil hne]
    simp only [List.mem_cons, List.not_mem_nil, or_false] at hmark
    rcases hmark with heq | heq | heq | heq | heq <;> rw [heq]
    · exact inTail_agree h hts
    · refine (hrhs 20 k hk _ hts).next fun low r hr => ?_
      refine (Passes.need (by decide) k hk r hr).andThen fun r hr => ?_
      exact (hrhs 20 k hk r hr).next fun high r hr => .found hr
    · have hparts : Passes tail K (inTurn [need "TO", passed (rhs 19), escapeCharacter])
          (inTurn [need "TO", passed (rhs' 19), escapeCharacter]) :=
        .inTurn (.cons (.need (by decide)) (.cons (hrhs 19).passed (.cons passes_escapeCharacter .nil)))
      exact (hparts k hk _ hts).refusedTail
    · exact (hpattern _ hts).refusedTail
    · dsimp only
      rw [skipOneOf_append tail (by decide)]
      exact (hpattern _ (hts.skipOneOf _)).refusedTail
  · have hparts : Passes tail K (inTurn [passed (rhs 19), escapeCharacter])
        (inTurn [passed (rhs' 19), escapeCharacter]) :=
      .inTurn (.cons (hrhs 19).passed (.cons passes_escapeCharacter .nil))
    have hmark' := mt (mark_append_mem_iff tail (by decide)).mp hmark
    rw [negatableTail_of_ne inner rhs hmark, negatableTail_of_ne inner rhs' hmark',
      drop_append_of_ne_nil hne]
    exact (hparts k hk _ hts).refusedTail

/-- Operators with a reading of their own. -/
def ownOperators : List String :=
  ["AND", "OR", "XOR", "IS", "NOT", "AT", "OPERATOR", "::", "DIV", "#"]

omit hrhs in
theorem operatorTail_of_ne (inner : Nested) (rhs : Nat → Piece Term) {p : Nat} {left : Term} {ts : List Token}
    (hmark : mark ts ∉ ownOperators) :
    operatorTail inner rhs p left ts =
      if negatablePrecedence (mark ts) = 0 then binaryTail rhs p left (mark ts) (ts.drop 1)
      else negatableTail inner rhs left false ts ts := by
  unfold operatorTail
  split
  all_goals first
    | rfl
    | (rename_i heq
       exact absurd (heq ▸ hmark) (by decide))

omit hrhs in
theorem precedence_of_not {ts : List Token} (hoperator : 0 < precedence ts) (hmark : mark ts = "NOT") :
    precedence ts = negatablePrecedence (mark (ts.drop 1)) := by
  cases ts with
  | nil => exact absurd hmark (by decide)
  | cons t ts =>
      cases t with
      | word w =>
          rw [precedence, show w.keyword = "NOT" from hmark]
          rfl
      | symbol s =>
          obtain rfl : s = "NOT" := hmark
          exact absurd hoperator (Nat.lt_irrefl 0)
      | number => exact absurd hoperator (Nat.lt_irrefl 0)
      | string => exact absurd hoperator (Nat.lt_irrefl 0)
      | otherLiteral => exact absurd hoperator (Nat.lt_irrefl 0)

include h in
theorem operatorTail_agree (hk : k ≤ K) {p : Nat} {left : Term} {ts : List Token}
    (hoperator : 0 < precedence ts) (hts : Within (k + 1) ts) :
    Agree (SameRead tail k) (operatorTail inner rhs p left ts)
      (operatorTail inner rhs' p left (ts ++ tail.tokens)) := by
  have hne : ts ≠ [] := by
    rintro rfl
    exact absurd hoperator (by decide)
  have hmark' := mark_append_of_ne_nil hne tail.tokens
  have hdrop' := drop_append_of_ne_nil hne tail.tokens
  have hrest := hts.drop_one hne
  have hbinary := fun op => blind_binaryTail hrhs p left op k hk _ hrest
  by_cases hmark : mark ts ∈ ownOperators
  · have hcalm := hts.mark_ne (m := "OPERATOR") (by decide)
    unfold operatorTail
    rw [hmark', hdrop']
    simp only [ownOperators, List.mem_cons, List.not_mem_nil, or_false] at hmark
    rcases hmark with heq | heq | heq | heq | heq | heq | heq | heq | heq | heq <;> rw [heq]
    · exact hbinary "AND"
    · exact hbinary "OR"
    · exact hbinary "XOR"
    · exact isTail_agree h hrest
    · refine negatableTail_agree hrhs h hk (fun hempty => ?_) (hrest.drop 1)
      rw [precedence_of_not hoperator heq, hempty] at hoperator
      exact absurd hoperator (by decide)
    · exact Agree.refusedTail (Passes.inTurn (.cons (.need (by decide)) (.cons (.need (by decide))
        (.cons passes_string .nil))) k hk _ hrest)
    · exact absurd heq hcalm
    · exact (passes_typeName k hk _ hrest).refusedTail
    · exact .failed
    · exact .failed
  · rw [operatorTail_of_ne inner rhs hmark, operatorTail_of_ne inner rhs' (hmark' ▸ hmark), hmark', hdrop']
    split
    · exact hbinary (mark ts)
    · exact negatableTail_agree hrhs h hk hne hrest

end Operators

/-! ## Terms -/

section Terms

variable {inner : Nested} (h : inner.IsBlind tail)

include h

/-- Operands and operators are read alike with any fuel that the tokens do not use up. -/
theorem operand_operators_agree (n : Nat) :
    (∀ n' k floor ts, k < n → k < n' → Within k ts →
      Agree (SameRead tail k) (operand inner n floor ts) (operand inner n' floor (ts ++ tail.tokens))) ∧
    (∀ n' k floor t ts, k < n → k < n' → Within k ts →
      Agree (SameRead tail k) (operators inner n floor t ts)
        (operators inner n' floor t (ts ++ tail.tokens))) := by
  induction n with
  | zero =>
      exact ⟨fun _ k _ _ hn => absurd hn (Nat.not_lt_zero k), fun _ k _ _ _ hn => absurd hn (Nat.not_lt_zero k)⟩
  | succ n ih =>
      obtain ⟨hoperand, hoperators⟩ := ih
      refine ⟨fun n' k floor ts hn hn' hts => ?_, fun n' k floor t ts hn hn' hts => ?_⟩
      all_goals obtain ⟨n', rfl⟩ := Nat.exists_eq_add_one_of_ne_zero (Nat.ne_zero_of_lt hn')
      · rw [operand, operand]
        cases k with
        | zero =>
            obtain rfl : ts = [] := List.length_eq_zero_iff.mp (Nat.le_zero.mp hts.bound)
            obtain ⟨e, he⟩ : ∃ e, primary inner (operand inner n) [] = .error e := ⟨_, rfl⟩
            have hnil : Agree (SameRead tail 0) (primary inner (operand inner n) [])
              (primary inner (operand inner n') ([] ++ tail.tokens)) := primary_nil_agree inner _ _
            obtain ⟨f, hf⟩ := (he ▸ hnil).exists_error
            rw [he, hf]
            exact .failed
        | succ k =>
            have hrhs : ∀ floor, Blind tail k (operand inner n floor) (operand inner n' floor) :=
              fun floor j hj ts hts => hoperand n' j floor ts (by omega) (by omega) hts
            refine ((advances_primary h hrhs k (Nat.le_refl k) ts hts).next fun t r hr => ?_).weaken
              (Nat.le_succ k)
            exact hoperators n' k floor t r (by omega) (by omega) hr
      · rw [operators, operators, precedence_append]
        split
        · exact .found hts
        · rename_i hfloor
          have hoperator : 0 < precedence ts := Nat.lt_of_le_of_lt (Nat.zero_le floor) (Nat.lt_of_not_le hfloor)
          cases k with
          | zero =>
              obtain rfl : ts = [] := List.length_eq_zero_iff.mp (Nat.le_zero.mp hts.bound)
              exact absurd hoperator (by decide)
          | succ k =>
              have hrhs : ∀ floor, Blind tail k (operand inner n floor) (operand inner n' floor) :=
                fun floor j hj ts hts => hoperand n' j floor ts (by omega) (by omega) hts
              refine ((operatorTail_agree hrhs h (Nat.le_refl k) hoperator hts).next
                fun t r hr => ?_).weaken (Nat.le_succ k)
              exact hoperators n' k floor t r (by omega) (by omega) hr

theorem blind_term : Blind tail K (term inner) (term inner) :=
  .ofLength fun ts _ hts => (operand_operators_agree h (ts.length + 1)).1 _ _ 0 ts (Nat.lt_succ_self _)
    (Nat.lt_succ_of_le (tail.length_le ts)) hts

end Terms

end PrivateSql.Sql.Grammar
