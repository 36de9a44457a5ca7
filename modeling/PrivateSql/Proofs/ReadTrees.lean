import PrivateSql.Proofs.CaseFolding
import PrivateSql.Proofs.FittingTrees
/-!
# Trees that are read from texts

The reading goes on after an operand exactly as long as the next operator binds tighter than its floor, so what
was read fits between the floor and the operator that follows it.  One lemma for each construct
that is answered says so; all the others are refused and write no expression.

* `primary_fits` — a term before any operator fits behind every floor;
* `operatorTail_fits`, `operand_fits` — one operator, and all that bind tighter than a floor;
* `Expr.faithful_of_parse` — the text of a clear expression that was read says what it is.
-/

namespace PrivateSql

open Sql Sql.Grammar

variable {N : Type}

namespace Sql

variable (N) [Number N]

/-- What a term is written for fits between a floor and the operator that follows it. -/
def Term.Fits (t : Term) (floor next : Nat) : Prop :=
  ∀ e : Expr N, t.toExpr = .ok e → e.isClear = true → e.Fits floor next

/-- What a term is written for says what it is, when it is clear. -/
def Term.Faithful (t : Term) : Prop := ∀ e : Expr N, t.toExpr = .ok e → e.isClear = true → e.IsFaithful

/-- Whatever the piece reads says what it is. -/
def Faithfully (term : Grammar.Piece Term) : Prop :=
  ∀ ts t rest, term ts = .ok (t, rest) → t.Faithful N

/-- Operands are read up to the first operator that does not bind tighter than the floor, and fit there. -/
def Fitting (operand : Nat → Grammar.Piece Term) : Prop :=
  ∀ floor ts t rest, operand floor ts = .ok (t, rest) →
    precedence rest ≤ floor ∧ t.Fits N floor (precedence rest)

end Sql

namespace Sql.Grammar

variable [Number N] {inner : Nested} {rhs : Nat → Piece Term} {ts rest : List Token} {t : Term}

theorem fits_of_error {floor next : Nat} (h : ∀ e : Expr N, t.toExpr ≠ .ok e) : t.Fits N floor next :=
  fun e he => absurd he (h e)

theorem fits_refused (source : String) (floor next : Nat) : (Term.refused source).Fits N floor next :=
  fits_of_error fun _ h => by cases h

theorem refusedTerm_fits {start : List Token} {reached : Reading (List Token)}
    (h : refusedTerm start reached = .ok (t, rest)) (floor next : Nat) : t.Fits N floor next := by
  obtain ⟨_, -, h⟩ := bind_eq_ok.mp h
  cases h
  exact fits_refused _ _ _

theorem refusedTail_fits {left : Term} {start : List Token} {reached : Reading (List Token)}
    (h : refusedTail left start reached = .ok (t, rest)) (floor next : Nat) : t.Fits N floor next := by
  obtain ⟨_, -, h⟩ := bind_eq_ok.mp h
  cases h
  exact fits_refused _ _ _

theorem subquery_fits {start : List Token} (h : subquery inner start ts = .ok (t, rest)) (floor next : Nat) :
    t.Fits N floor next := by
  obtain ⟨_, -, h⟩ := bind_eq_ok.mp h
  cases h
  exact fits_of_error fun _ h => by cases h

/-- Constants. -/
theorem literal_fits {l : Literal N} (hl : l.IsWritten) (floor next : Nat)
    (hclear : (Expr.literal l).isClear = true) : (Expr.literal l).Fits floor next := by
  have hshown : l.text ≠ "" := by
    simpa [Expr.isClear, Expr.subterms, Expr.isClearHere] using hclear
  exact .of_closed (.literal hl hshown) (fun _ => rfl) (fun _ => rfl) floor next

theorem ofValue_fits {v : Value N} (hv : v.number? = none) (ht : t.toExpr = .ok (Expr.literal (.ofValue v)))
    (floor next : Nat) : t.Fits N floor next := by
  intro e he hclear
  rw [ht] at he
  cases he
  exact literal_fits (.inr ⟨v, hv, rfl⟩) floor next hclear

theorem commaSeparated_mem {α : Type} {piece : Piece α} {xs : List α}
    (h : commaSeparated piece ts = .ok (xs, rest)) : ∀ x ∈ xs, ∃ us vs, piece us = .ok (x, vs) := by
  have hfrom : ∀ fuel ts xs, commaSeparatedFrom piece fuel ts = .ok (xs, rest) →
      ∀ x ∈ xs, ∃ us vs, piece us = .ok (x, vs) := by
    intro fuel
    induction fuel with
    | zero =>
        intro ts xs h
        obtain ⟨⟨x, vs⟩, hx, h⟩ := bind_eq_ok.mp h
        cases h
        simpa using ⟨ts, _, hx⟩
    | succ fuel ih =>
        intro ts xs h
        rw [commaSeparatedFrom] at h
        obtain ⟨⟨x, vs⟩, hx, h⟩ := bind_eq_ok.mp h
        dsimp only at h
        split at h
        · obtain ⟨⟨ys, rest⟩, hys, h⟩ := bind_eq_ok.mp h
          cases h
          exact List.forall_mem_cons.mpr ⟨⟨ts, _, hx⟩, ih _ _ hys⟩
        · cases h
          simpa using ⟨ts, _, hx⟩
  exact hfrom _ _ _ h

theorem closing_eq_ok {α : Type} {piece : Piece α} {x : α} (h : closing piece ts = .ok (x, rest)) :
    ∃ vs, piece ts = .ok (x, vs) := by
  obtain ⟨⟨y, vs⟩, hy, h⟩ := bind_eq_ok.mp h
  obtain ⟨_, -, h⟩ := bind_eq_ok.mp h
  cases h
  exact ⟨vs, hy⟩

/-- What begins with a parenthesis. -/
theorem parenthesizedTerm_fits (hinner : Faithfully N inner.term) {start : List Token}
    (h : parenthesizedTerm inner start ts = .ok (t, rest)) (floor next : Nat) : t.Fits N floor next := by
  rw [parenthesizedTerm] at h
  split at h
  · obtain ⟨⟨found, us⟩, hfound, h⟩ := bind_eq_ok.mp h
    have hfits : found.Fits N floor next := subquery_fits hfound floor next
    dsimp only at h
    split at h <;> cases h
    · exact fits_refused _ _ _
    · exact hfits
  · obtain ⟨⟨terms, us⟩, hclosed, h⟩ := bind_eq_ok.mp h
    obtain ⟨vs, hterms⟩ := closing_eq_ok hclosed
    dsimp only at h
    split at h
    · obtain ⟨_, hpure, h⟩ := bind_eq_ok.mp h
      cases hpure
      dsimp only at h
      split at h <;> cases h
      · exact fits_refused _ _ _
      · intro e he hclear
        obtain ⟨_, _, hread⟩ := commaSeparated_mem hterms _ List.mem_cons_self
        obtain ⟨x, hx, he⟩ := bind_eq_ok.mp he
        cases he
        obtain ⟨hnamed, hinside⟩ := Expr.isClear_nested hclear
        exact .of_closed (.nested hnamed (hinner _ _ _ hread x hx hinside)) (fun _ => rfl) (fun _ => rfl) _ _
    · obtain ⟨_, hpure, h⟩ := bind_eq_ok.mp h
      cases hpure
      dsimp only at h
      split at h <;> cases h <;> exact fits_refused _ _ _

/-- The denial of an operand, or of a subquery. -/
theorem denial_fits (hrhs : Fitting N rhs) {start : List Token}
    (h : denial inner rhs start ts = .ok (t, rest)) (floor : Nat) : t.Fits N floor (precedence rest) := by
  rw [denial] at h
  split at h
  · obtain ⟨_, -, h⟩ := bind_eq_ok.mp h
    exact subquery_fits h floor _
  · obtain ⟨⟨operand, us⟩, hoperand, h⟩ := bind_eq_ok.mp h
    cases h
    obtain ⟨hnext, hfits⟩ := hrhs _ _ _ _ hoperand
    intro e he hclear
    obtain ⟨x, hx, he⟩ := bind_eq_ok.mp he
    cases he
    exact (hfits x hx (Expr.isClear_unary hclear)).unary (.inr rfl) hnext floor

/-- A sign before its operand; one without a meaning is dropped. -/
theorem signedTerm_fits (hrhs : Fitting N rhs) {op : String} (hop : op = "-" ∨ op = "+")
    (h : signedTerm rhs op ts = .ok (t, rest)) (floor : Nat) : t.Fits N floor (precedence rest) := by
  obtain ⟨⟨operand, us⟩, hoperand, h⟩ := bind_eq_ok.mp h
  cases h
  obtain ⟨hnext, hfits⟩ := hrhs _ _ _ _ hoperand
  intro e he hclear
  obtain ⟨x, hx, he⟩ := bind_eq_ok.mp he
  rcases hop with rfl | rfl
  · cases he
    exact (hfits x hx (Expr.isClear_unary hclear)).unary (.inl rfl) hnext floor
  · cases he
    exact (hfits x hx hclear).of_sign floor

/-! ### Calls -/

theorem starOr_eq_term {term : Piece Term} (h : starOr term ts = .ok (.term t, rest)) :
    ∃ us vs, term us = .ok (t, vs) := by
  have hordinary : ∀ us, (term us >>= fun found => pure (.term found.1, found.2) :
      Reading (Parsed (Argument Term))) = .ok (.term t, rest) → ∃ us vs, term us = .ok (t, vs) := by
    intro us h
    obtain ⟨⟨found, vs⟩, hfound, h⟩ := bind_eq_ok.mp h
    cases h
    exact ⟨us, _, hfound⟩
  have hqualified : ∀ us, starOr.qualifiedStar us (term us >>= fun found => pure (.term found.1, found.2) :
      Reading (Parsed (Argument Term))) = .ok (.term t, rest) → ∃ us vs, term us = .ok (t, vs) := by
    intro us h
    rw [starOr.qualifiedStar] at h
    split at h
    · cases h
    · exact hordinary us h
    · cases h
  unfold starOr at h
  split at h
  · cases h
  · exact hqualified _ h
  · exact hqualified _ h
  · exact hordinary _ h

theorem argument_eq_term {term : Piece Term} (h : argument term ts = .ok (.term t, rest)) :
    ∃ us vs, term us = .ok (t, vs) := by
  unfold argument at h
  split at h
  · obtain ⟨_, -, h⟩ := bind_eq_ok.mp h
    obtain ⟨_, -, h⟩ := bind_eq_ok.mp h
    cases h
  · exact starOr_eq_term h

/-- The terms between the parentheses of a call are read by the grammar of terms. -/
theorem exists_reading_of_arguments {term : Piece Term} {args : Arguments}
    (h : arguments term ts = .ok (args, rest)) :
    ∀ t, .term t ∈ args.arguments → ∃ us vs, term us = .ok (t, vs) := by
  unfold arguments at h
  split at h
  · cases h
    simp
  · dsimp only at h
    split at h
    · obtain ⟨_, hfail, -⟩ := bind_eq_ok.mp h
      cases hfail
    all_goals
      obtain ⟨_, -, h⟩ := bind_eq_ok.mp h
      obtain ⟨⟨found, us⟩, hfound, h⟩ := bind_eq_ok.mp h
      obtain ⟨_, -, h⟩ := bind_eq_ok.mp h
      obtain ⟨_, -, h⟩ := bind_eq_ok.mp h
      obtain ⟨_, -, h⟩ := bind_eq_ok.mp h
      obtain ⟨_, -, h⟩ := bind_eq_ok.mp h
      cases h
      intro t ht
      obtain ⟨us, vs, hread⟩ := commaSeparated_mem hfound _ ht
      exact argument_eq_term hread

/-- An argument of an expression is written for a term. -/
theorem exists_term_of_mem_toArguments {arguments : List (Argument Term)} {args : List (Option (Expr N))}
    (h : Term.toArguments arguments = .ok args) {e : Expr N} (he : some e ∈ args) :
    ∃ t, .term t ∈ arguments ∧ t.toExpr = .ok e := by
  induction arguments generalizing args with
  | nil =>
      cases h
      cases he
  | cons a arguments ih =>
      obtain ⟨x, hx, h⟩ := bind_eq_ok.mp h
      obtain ⟨xs, hxs, h⟩ := bind_eq_ok.mp h
      cases h
      rcases List.mem_cons.mp he with rfl | htail
      · cases a with
        | term t =>
            obtain ⟨y, hy, hx⟩ := bind_eq_ok.mp hx
            cases hx
            exact ⟨t, List.mem_cons_self, hy⟩
        | star => cases hx
        | refused source => cases hx
      · obtain ⟨t, ht, hread⟩ := ih hxs htail
        exact ⟨t, List.mem_cons_of_mem _ ht, hread⟩

/-- The names of functions that begin a construct of their own. -/
def constructNames : List String := ["CEIL", "FLOOR"]

/-- What a call is written for says what it is, when its arguments do. -/
theorem callExpr_faithful {name source : String} {args : List (Option (Expr N))} {e : Expr N}
    (hname : name ∉ constructNames) (hargs : ∀ a, some a ∈ args → a.isClear = true → a.IsFaithful)
    (h : callExpr name source args = .ok e) (hclear : e.isClear = true) (floor next : Nat) :
    e.Fits floor next := by
  rw [callExpr.eq_def] at h
  cases hf : AggregateFunction.ofName? name with
  | some f =>
      simp only [hf] at h
      split at h
      · cases h
        exact .of_closed .count (fun _ => rfl) (fun _ => rfl) floor next
      · rename_i a _
        cases h
        obtain ⟨hnamed, hargument⟩ := Expr.isClear_aggregate hclear
        have hfaithful := hargs a List.mem_cons_self hargument
        exact .of_closed (.aggregate hnamed hfaithful) (fun _ => rfl) (fun _ => rfl) floor next
      · cases h
      · contradiction
  | none =>
      simp only [hf] at h
      split at h
      · rename_i hscalar
        split at h
        · rename_i es hes
          cases h
          have hknown : ∀ name ∈ scalarFunctions, name ∉ constructNames →
              Text.toUpper name = name ∧ name ∈ ["ABS", "SQRT", "ROUND"] := by decide
          obtain ⟨hupper, hscalar⟩ := hknown name hscalar hname
          rw [Expr.ofCall, hupper] at hclear ⊢
          obtain ⟨hnamed, hall⟩ := Expr.isClear_call hclear
          have hfaithful : ∀ a ∈ es, a.IsFaithful := fun a ha =>
            hargs a (some_mem_of_mapM_id hes a ha) (hall a ha)
          exact .of_closed (.call hscalar hnamed hfaithful) (fun _ => rfl) (fun _ => rfl) floor next
        · cases h
      · cases h

/-- What a call without a window is written for. -/
theorem callExpr_of_toExpr {function : List Word} {quantifier : Option Quantifier}
    {arguments : List (Argument Term)} {clauses : CallClauses} {e : Expr N}
    (h : (Term.call function quantifier arguments clauses).toExpr = .ok e) :
    ∃ args source, Term.toArguments arguments = .ok args ∧
      callExpr (Text.toUpper (displayDotted function)) source args = .ok e := by
  simp only [Term.toExpr] at h
  split at h
  · cases h
  · split at h
    · cases h
    · obtain ⟨args, hargs, h⟩ := bind_eq_ok.mp h
      exact ⟨args, _, hargs, h⟩

/-- A call whose arguments are read by the grammar of terms. -/
theorem calledTerm_fits (hinner : Faithfully N inner.term) {function : List Word}
    (hname : Text.toUpper (displayDotted function) ∉ constructNames) {args : Arguments}
    (hread : ∀ t, .term t ∈ args.arguments → ∃ us vs, inner.term us = .ok (t, vs))
    (quantifier : Option Quantifier) (clauses : CallClauses) (floor next : Nat) :
    (Term.call function quantifier args.arguments clauses).Fits N floor next := by
  intro e he hclear
  obtain ⟨exprs, source, hexprs, hcall⟩ := callExpr_of_toExpr he
  refine callExpr_faithful hname (fun a ha hargument => ?_) hcall hclear floor next
  obtain ⟨t, ht, hwritten⟩ := exists_term_of_mem_toArguments hexprs ha
  obtain ⟨us, vs, hterm⟩ := hread t ht
  exact hinner us t vs hterm a hwritten hargument

theorem call_fits (hinner : Faithfully N inner.term) {function : List Word}
    (hname : Text.toUpper (displayDotted function) ∉ constructNames)
    (h : call inner.term function ts = .ok (t, rest)) (floor next : Nat) : t.Fits N floor next := by
  obtain ⟨⟨args, us⟩, hargs, h⟩ := bind_eq_ok.mp h
  obtain ⟨_, -, h⟩ := bind_eq_ok.mp h
  obtain ⟨_, -, h⟩ := bind_eq_ok.mp h
  obtain ⟨_, -, h⟩ := bind_eq_ok.mp h
  cases h
  exact calledTerm_fits hinner hname (exists_reading_of_arguments hargs) _ _ floor next

/-- Neither a dot nor a pair of quotation marks is found in the name of a construct, whatever the mark is. -/
theorem not_constructName {w : Word} {ws : List Word} (hw : w.keyword ∉ constructNames) :
    Text.toUpper (displayDotted (w :: ws)) ∉ constructNames := by
  have hdots : ∀ name ∈ constructNames, '.' ∉ name.toList := by decide
  have hborder : ∀ name ∈ constructNames, name.toList.length < 6 ∧ ∀ k < 3, 0 < k →
      name.toList.take k ≠ name.toList.drop (name.toList.length - k) := by decide
  intro hmem
  cases ws with
  | cons v ws =>
      refine hdots _ hmem ?_
      have hdot : '.' ∈ (displayDotted (w :: v :: ws)).toList := by
        simp [displayDotted, String.intercalate_cons_cons]
      rw [Text.toUpper, String.toList_ofList]
      exact List.mem_flatMap.mpr ⟨'.', hdot, by decide⟩
  | nil =>
      have hword : displayDotted [w] = w.display := by simp [displayDotted]
      rw [hword] at hmem
      cases hquote : w.quote with
      | none =>
          rw [Word.keyword, hquote] at hw
          rw [Word.display, hquote] at hmem
          exact hw hmem
      | some q =>
          rw [Word.display, hquote] at hmem
          obtain ⟨middle, hmiddle⟩ : ∃ middle, (Text.toUpper (quoted q w.text)).toList =
              Text.upperChar q ++ (middle ++ Text.upperChar q) :=
            ⟨_, by simp [Text.toUpper, quoted]; rfl⟩
          obtain ⟨hlength, hends⟩ := hborder _ hmem
          have hpositive := List.length_pos_of_ne_nil (Text.upperChar_ne_nil q)
          rw [hmiddle] at hlength hends
          simp only [List.length_append] at hlength hends
          refine hends (Text.upperChar q).length (by omega) hpositive ?_
          have hdrop : (Text.upperChar q).length + (middle.length + (Text.upperChar q).length) -
              (Text.upperChar q).length = (Text.upperChar q ++ middle).length := by
            rw [List.length_append]
            omega
          rw [List.take_left, hdrop, ← List.append_assoc, List.drop_left]

/-- A name, or a call. -/
theorem nameTerm_fits (hinner : Faithfully N inner.term) {w : Word} (hw : w.keyword ∉ constructNames)
    (h : nameTerm inner w ts = .ok (t, rest)) (floor next : Nat) : t.Fits N floor next := by
  obtain ⟨⟨ws, us⟩, -, h⟩ := bind_eq_ok.mp h
  dsimp only at h
  split at h
  · exact call_fits hinner (not_constructName hw) h floor next
  · cases h
    intro e he hclear
    cases he
    simp only [Expr.isClear, Expr.subterms, List.all_cons, List.all_nil, Bool.and_true, Expr.isClearHere,
      Bool.and_eq_true, decide_eq_true_iff] at hclear
    exact .of_closed (.column hclear.1 hclear.2) (fun _ => rfl) (fun _ => rfl) floor next

theorem bareCall_fits (w : Word) (floor next : Nat) : (Term.bareCall w).Fits N floor next :=
  fits_of_error fun _ h => by cases h

theorem plainWordTerm_fits (hinner : Faithfully N inner.term) {w : Word}
    (hw : w.keyword ∉ constructNames) (h : plainWordTerm inner rhs w ts = .ok (t, rest))
    (floor next : Nat) : t.Fits N floor next := by
  unfold plainWordTerm at h
  dsimp only at h
  split at h
  · exact refusedTerm_fits h floor next
  · obtain ⟨_, -, h⟩ := bind_eq_ok.mp h
    cases h
    exact fits_of_error fun _ h => by cases h
  · split at h
    · exact refusedTerm_fits h floor next
    · exact nameTerm_fits hinner hw h floor next

/-- What begins with a word. -/
theorem wordTerm_fits (hinner : Faithfully N inner.term) (hrhs : Fitting N rhs) {w : Word}
    (h : wordTerm inner rhs w ts = .ok (t, rest)) (floor : Nat) : t.Fits N floor (precedence rest) := by
  have hboolean (b : Bool) (next : Nat) : (Term.boolean b).Fits N floor next :=
    ofValue_fits (v := .boolean b) rfl rfl floor next
  unfold wordTerm at h
  dsimp only at h
  split at h
  · exact refusedTerm_fits h floor _
  · rename_i hconstruct
    have hw : w.keyword ∉ constructNames := by
      intro hmem
      simp only [constructNames, List.mem_cons, List.not_mem_nil, or_false] at hmem
      rcases hmem with hceil | hfloor
      · rw [hceil] at hconstruct
        cases hconstruct
      · rw [hfloor] at hconstruct
        cases hconstruct
    split_ifs at h with htrue hfalse hnull hnot hexists hbare htime
    · cases h
      exact hboolean true _
    · cases h
      exact hboolean false _
    · cases h
      exact ofValue_fits (v := .null) rfl rfl floor _
    · exact denial_fits hrhs h floor
    · obtain ⟨_, -, h⟩ := bind_eq_ok.mp h
      exact subquery_fits h floor _
    · cases h
      exact bareCall_fits w floor _
    · split at h
      · obtain ⟨⟨args, us⟩, hargs, h⟩ := bind_eq_ok.mp h
        cases h
        exact calledTerm_fits hinner (not_constructName hw) (exists_reading_of_arguments hargs) _ _ floor _
      · cases h
        exact bareCall_fits w floor _
    · exact plainWordTerm_fits hinner hw h floor _

theorem bareTerm_fits (hinner : Faithfully N inner.term) (hrhs : Fitting N rhs)
    (h : bareTerm inner rhs ts = .ok (t, rest)) (floor : Nat) : t.Fits N floor (precedence rest) := by
  unfold bareTerm at h
  split at h
  · cases h
    intro e he hclear
    obtain ⟨l, hl, he⟩ := bind_eq_ok.mp he
    cases he
    exact literal_fits (numberLiteral_isWritten hl) floor _ hclear
  · cases h
    exact ofValue_fits (v := .text _) rfl rfl floor _
  · cases h
    exact fits_of_error fun _ h => by cases h
  · exact parenthesizedTerm_fits hinner h floor _
  · exact signedTerm_fits hrhs (.inl rfl) h floor
  · exact signedTerm_fits hrhs (.inr rfl) h floor
  · obtain ⟨_, -, h⟩ := bind_eq_ok.mp h
    cases h
    exact fits_of_error fun _ h => by cases h
  · exact wordTerm_fits hinner hrhs h floor
  · cases h

/-- **A term before any operator fits behind every floor.** -/
theorem primary_fits (hinner : Faithfully N inner.term) (hrhs : Fitting N rhs)
    (h : primary inner rhs ts = .ok (t, rest)) (floor : Nat) : t.Fits N floor (precedence rest) := by
  rw [primary] at h
  split at h
  · exact refusedTerm_fits h floor _
  · split at h
    · exact refusedTerm_fits h floor _
    · obtain ⟨⟨found, us⟩, hfound, h⟩ := bind_eq_ok.mp h
      dsimp only at h
      split at h
      · exact refusedTerm_fits h floor _
      · cases h
        exact bareTerm_fits hinner hrhs hfound floor

/-! ### Operators -/

/-- How tight a binary operator binds is known by its name. -/
theorem precedence_of_mark (h : 0 < precedence ts) (hmark : mark ts ∈ supportedOperators) :
    precedence ts = operatorPrecedence (mark ts) := by
  have hsign : ∀ s ∈ supportedOperators, 0 < signPrecedence s → signPrecedence s = operatorPrecedence s := by
    decide
  have hword : ∀ k ∈ supportedOperators, k ∉ ["AND", "OR"] →
      k ∉ operatorWords ∧ negatablePrecedence k = 0 := by
    decide
  match ts, h, hmark with
  | .symbol s :: _, h, hmark => exact hsign s hmark h
  | .word w :: us, h, hmark =>
      change w.keyword ∈ supportedOperators at hmark
      change precedence (.word w :: us) = operatorPrecedence w.keyword
      by_cases hconnective : w.keyword ∈ ["AND", "OR"]
      · simp only [List.mem_cons, List.not_mem_nil, or_false] at hconnective
        rcases hconnective with hand | hor
        · simp [precedence, hand, operatorPrecedence]
        · simp [precedence, hor, operatorPrecedence]
      · obtain ⟨hplain, hnone⟩ := hword _ hmark hconnective
        rw [precedence_word us hplain, hnone] at h
        cases h

theorem precedence_of_test (h : 0 < precedence ts) (hmark : mark ts = "IS") :
    precedence ts = testPrecedence := by
  match ts, h, hmark with
  | .symbol s :: _, h, hmark =>
      change s = "IS" at hmark
      subst hmark
      cases h
  | .word w :: us, h, hmark =>
      change w.keyword = "IS" at hmark
      simp [precedence, hmark, testPrecedence]

/-- The words that a range or a list begins with. -/
def rangeWords : List String := ["IN", "BETWEEN"]

/-- Ranges and lists bind as tight as comparisons. -/
theorem precedence_of_range (h : 0 < precedence ts) (hmark : mark ts ∈ rangeWords) :
    precedence ts = Expr.comparisonPrecedence := by
  have hsign : ∀ s ∈ rangeWords, signPrecedence s = 0 := by decide
  have hword : ∀ k ∈ rangeWords, k ∉ operatorWords ∧
      negatablePrecedence k = Expr.comparisonPrecedence := by decide
  match ts, h, hmark with
  | .symbol s :: _, h, hmark =>
      have hnone := hsign s hmark
      exact absurd h (by rw [precedence, hnone]; decide)
  | .word w :: us, h, hmark =>
      obtain ⟨hplain, hprecedence⟩ := hword w.keyword hmark
      rw [precedence_word us hplain, hprecedence]

/-- Denied ranges and lists bind as tight as those that are not denied. -/
theorem precedence_of_deniedRange (h : 0 < precedence ts) (hnot : mark ts = "NOT")
    (hmark : mark (ts.drop 1) ∈ rangeWords) : precedence ts = Expr.comparisonPrecedence := by
  have hword : ∀ k ∈ rangeWords, negatablePrecedence k = Expr.comparisonPrecedence := by decide
  match ts, h, hnot, hmark with
  | .symbol s :: _, h, hnot, hmark =>
      change s = "NOT" at hnot
      subst hnot
      cases h
  | .word w :: us, h, hnot, hmark =>
      change w.keyword = "NOT" at hnot
      simp only [precedence, hnot]
      exact hword _ hmark

/-- A binary operator with its right operand. -/
theorem binaryTail_fits (hrhs : Fitting N rhs) {left : Term} {floor p : Nat} {op : String}
    (hop : op ∈ supportedOperators → p = operatorPrecedence op) (hfloor : floor < p)
    (hleft : left.Fits N floor p) (h : binaryTail rhs p left op ts = .ok (t, rest)) :
    t.Fits N floor (precedence rest) := by
  rw [binaryTail] at h
  split at h
  · obtain ⟨_, -, h⟩ := bind_eq_ok.mp h
    dsimp only at h
    split at h
    · cases h
      exact fits_refused _ _ _
    · cases h
  · obtain ⟨⟨right, us⟩, hright, h⟩ := bind_eq_ok.mp h
    cases h
    obtain ⟨hnext, hright⟩ := hrhs _ _ _ _ hright
    intro e he hclear
    obtain ⟨l, hl, he⟩ := bind_eq_ok.mp he
    by_cases hknown : op ∈ supportedOperators
    · simp only [hknown, not_true_eq_false, if_false] at he
      obtain ⟨r, hr, he⟩ := bind_eq_ok.mp he
      cases he
      obtain ⟨hhere, hleftClear, hrightClear⟩ := Expr.isClear_binary hclear
      obtain rfl := hop hknown
      exact .binary hknown (hleft l hl hleftClear) (hright r hr hrightClear) hfloor hnext hhere
    · simp only [hknown, not_false_eq_true, if_true] at he
      cases he

/-- A test of what stands before it. -/
theorem isTail_fits {left : Term} {floor : Nat} (hfloor : floor < testPrecedence)
    (hleft : left.Fits N floor testPrecedence) {start : List Token}
    (h : isTail inner.term left start ts = .ok (t, rest)) : t.Fits N floor (precedence rest) := by
  have htest : ∀ negated, (Term.isNull left negated).Fits N floor (precedence rest) := by
    intro negated e he hclear
    obtain ⟨x, hx, he⟩ := bind_eq_ok.mp he
    cases he
    obtain ⟨hplain, hoperand⟩ := Expr.isClear_isNull hclear
    exact (hleft x hx hoperand).isNull hfloor hplain
  rw [isTail] at h
  split at h
  · cases h
    exact htest false
  · cases h
    exact htest true
  · exact refusedTail_fits h floor _

theorem exists_term_of_mem_toExprs {terms : List Term} {es : List (Expr N)} (h : Term.toExprs terms = .ok es)
    {e : Expr N} (he : e ∈ es) : ∃ t ∈ terms, t.toExpr = .ok e := by
  induction terms generalizing es with
  | nil =>
      cases h
      cases he
  | cons t terms ih =>
      obtain ⟨x, hx, h⟩ := bind_eq_ok.mp h
      obtain ⟨xs, hxs, h⟩ := bind_eq_ok.mp h
      cases h
      rcases List.mem_cons.mp he with rfl | htail
      · exact ⟨t, List.mem_cons_self, hx⟩
      · obtain ⟨u, hu, hread⟩ := ih hxs htail
        exact ⟨u, List.mem_cons_of_mem _ hu, hread⟩

/-- A list, denied or not. -/
theorem inTail_fits (hinner : Faithfully N inner.term) {left : Term} {floor : Nat}
    (hfloor : floor < Expr.comparisonPrecedence) (hleft : left.Fits N floor Expr.comparisonPrecedence)
    {negated : Bool} {start : List Token} (h : inTail inner left negated start ts = .ok (t, rest)) :
    t.Fits N floor (precedence rest) := by
  rw [inTail] at h
  split at h
  · exact refusedTail_fits h floor _
  · obtain ⟨us, -, h⟩ := bind_eq_ok.mp h
    split at h
    · obtain ⟨_, -, h⟩ := bind_eq_ok.mp h
      cases h
      exact fits_of_error fun _ h => by cases h
    · obtain ⟨⟨items, vs⟩, hitems, h⟩ := bind_eq_ok.mp h
      cases h
      obtain ⟨ws, hitems⟩ := closing_eq_ok hitems
      intro e he hclear
      obtain ⟨x, hx, he⟩ := bind_eq_ok.mp he
      obtain ⟨es, hes, he⟩ := bind_eq_ok.mp he
      cases es with
      | nil => cases he
      | cons first others =>
          cases he
          refine Expr.fits_oneOfExpr (hleft x hx) hfloor (fun item hitem hitemClear => ?_) hclear _
          obtain ⟨t, ht, hwritten⟩ := exists_term_of_mem_toExprs hes hitem
          obtain ⟨us, vs, hread⟩ := commaSeparated_mem hitems t ht
          exact hinner us t vs hread item hwritten hitemClear

/-- An operator that may be denied. -/
theorem negatableTail_fits (hinner : Faithfully N inner.term) (hrhs : Fitting N rhs) {left : Term}
    {floor p : Nat} (hp : mark ts ∈ rangeWords → p = Expr.comparisonPrecedence) (hfloor : floor < p)
    (hleft : left.Fits N floor p) {negated : Bool} {start : List Token}
    (h : negatableTail inner rhs left negated start ts = .ok (t, rest)) :
    t.Fits N floor (precedence rest) := by
  unfold negatableTail at h
  dsimp only at h
  split at h
  · rename_i hmark
    obtain rfl := hp (by rw [hmark]; decide)
    exact inTail_fits hinner hfloor hleft h
  · rename_i hmark
    obtain rfl := hp (by rw [hmark]; decide)
    obtain ⟨⟨low, us⟩, hlow, h⟩ := bind_eq_ok.mp h
    obtain ⟨vs, -, h⟩ := bind_eq_ok.mp h
    obtain ⟨⟨high, ws⟩, hhigh, h⟩ := bind_eq_ok.mp h
    cases h
    have hlow := (hrhs _ _ _ _ hlow).2
    have hhigh := (hrhs _ _ _ _ hhigh).2
    intro e he hclear
    obtain ⟨x, hx, he⟩ := bind_eq_ok.mp he
    obtain ⟨y, hy, he⟩ := bind_eq_ok.mp he
    obtain ⟨z, hz, he⟩ := bind_eq_ok.mp he
    cases he
    exact Expr.fits_betweenExpr (hleft x hx) hfloor (hlow y hy) (hhigh z hz) hclear _
  all_goals exact refusedTail_fits h floor _

/-- **One operator.**  What fits before an operator fits together with it before the next one. -/
theorem operatorTail_fits (hinner : Faithfully N inner.term) (hrhs : Fitting N rhs) {left : Term}
    {floor : Nat} (hfloor : floor < precedence ts) (hleft : left.Fits N floor (precedence ts))
    (h : operatorTail inner rhs (precedence ts) left ts = .ok (t, rest)) :
    t.Fits N floor (precedence rest) := by
  have hpositive : 0 < precedence ts := Nat.zero_lt_of_lt hfloor
  have hbinary : ∀ op us, mark ts = op ∨ op ∉ supportedOperators →
      binaryTail rhs (precedence ts) left op us = .ok (t, rest) → t.Fits N floor (precedence rest) := by
    intro op us hop h
    refine binaryTail_fits hrhs (fun hknown => ?_) hfloor hleft h
    obtain rfl := hop.resolve_right (not_not_intro hknown)
    exact precedence_of_mark hpositive hknown
  unfold operatorTail at h
  split at h
  · exact hbinary _ _ (.inl ‹_›) h
  · exact hbinary _ _ (.inl ‹_›) h
  · exact hbinary _ _ (.inl ‹_›) h
  · have htest := precedence_of_test hpositive ‹mark ts = "IS"›
    rw [htest] at hfloor hleft
    exact isTail_fits hfloor hleft h
  · exact negatableTail_fits hinner hrhs (precedence_of_deniedRange hpositive ‹mark ts = "NOT"›) hfloor hleft h
  · exact refusedTail_fits h floor _
  · obtain ⟨⟨name, us⟩, -, h⟩ := bind_eq_ok.mp h
    refine hbinary _ _ (.inr fun hknown => ?_) h
    have hshort : ∀ op ∈ supportedOperators, op.toList.length < 10 := by decide
    have hlong := hshort _ hknown
    simp only [String.toList_append, List.length_append] at hlong
    change 9 + _ + 1 < 10 at hlong
    omega
  · exact refusedTail_fits h floor _
  · cases h
  · cases h
  · split at h
    · exact hbinary _ _ (.inl rfl) h
    · exact negatableTail_fits hinner hrhs (precedence_of_range hpositive) hfloor hleft h

/-- The operators behind an operand, one after the other. -/
theorem operators_fit (hinner : Faithfully N inner.term) {fuel : Nat}
    (hrhs : ∀ fuel' < fuel, Fitting N (operand inner fuel')) {left : Term} {floor : Nat}
    (hleft : left.Fits N floor (precedence ts)) (h : operators inner fuel floor left ts = .ok (t, rest)) :
    precedence rest ≤ floor ∧ t.Fits N floor (precedence rest) := by
  induction fuel generalizing left ts with
  | zero =>
      rw [operators] at h
      split at h
      · cases h
        exact ⟨‹_›, hleft⟩
      · cases h
  | succ fuel ih =>
      rw [operators] at h
      split at h
      · cases h
        exact ⟨‹_›, hleft⟩
      · obtain ⟨⟨joined, us⟩, htail, h⟩ := bind_eq_ok.mp h
        have hjoined := operatorTail_fits hinner (hrhs fuel (Nat.lt_succ_self _)) (Nat.lt_of_not_le ‹_›)
          hleft htail
        exact ih (fun fuel' hfuel => hrhs fuel' (Nat.lt_succ_of_lt hfuel)) hjoined h

/-- **The longest term whose operators bind tighter than a floor fits there.** -/
theorem operand_fits (hinner : Faithfully N inner.term) (fuel : Nat) : Fitting N (operand inner fuel) := by
  induction fuel using Nat.strongRecOn with
  | ind fuel ih =>
      intro floor ts t rest h
      cases fuel with
      | zero =>
          rw [operand] at h
          cases h
      | succ fuel =>
          rw [operand] at h
          obtain ⟨⟨first, us⟩, hfirst, h⟩ := bind_eq_ok.mp h
          have hfits := primary_fits hinner (ih fuel (Nat.lt_succ_self _)) hfirst floor
          exact operators_fit hinner (fun fuel' hfuel => ih fuel' (Nat.lt_succ_of_lt hfuel)) hfits h

/-- Whatever number of levels the grammar has, its terms say what they are. -/
theorem nested_faithfully (levels : Nat) : Faithfully N (nested levels).term := by
  induction levels with
  | zero =>
      intro ts t rest h
      cases h
  | succ levels ih =>
      intro ts t rest h e he hclear
      exact ((operand_fits ih _ _ _ _ _ h).2 e he hclear).faithful

end Sql.Grammar

/-- A piece of the grammar reads the tokens of a text. -/
theorem Sql.exists_tokens_of_readText {α : Type} {piece : Grammar.Piece α} {text : String} {found : α}
    (h : readText piece text = .ok found) : ∃ ts rest, piece ts = .ok (found, rest) := by
  rw [readText] at h
  split at h
  · cases h
  · split at h
    · cases h
    · cases h
      exact ⟨_, _, ‹_›⟩

/-- **What is read says what it is.**  A clear expression that was read from a text has operators that bind as
its tree says, and no name at the place of a keyword. -/
theorem Expr.faithful_of_parse [Number N] {text : String} {e : Expr N} (h : Expr.parse text = .ok e)
    (hclear : e.isClear = true) : e.IsFaithful := by
  obtain ⟨t, ht, h⟩ := bind_eq_ok.mp h
  obtain ⟨ts, rest, hread⟩ := exists_tokens_of_readText ht
  exact nested_faithfully levels ts t rest hread e h hclear

end PrivateSql
