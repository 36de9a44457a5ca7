import Mathlib.Analysis.SpecialFunctions.Pow.Real
import PrivateSql.Plan.Recombination
import PrivateSql.Proofs.AggregateValues
import PrivateSql.Proofs.GeneratedNames
import PrivateSql.Proofs.InsertedPaths
import PrivateSql.Proofs.PlanParts
/-!
# The values of recombinations

A mean, a variance and a deviation are put together from counts and sums.  In exact arithmetic their
formulas have the values of the aggregates themselves, for the same rows: a mean is the sum over the
count, and the mean of the squares less the square of the mean is never negative, so the variance
is never cut off at 0.

* `Recombination.Restores` — a formula that has the value of its aggregate;
* `Recombination.restores_of_raw` — a raw aggregate is read from its column, in any arithmetic;
* `evaluate_quotient`, `evaluate_varianceFormula` — formulas over columns that hold numbers, in any
  arithmetic;
* `Recombination.Holds`, `Recombination.evaluate_of_holds` — formulas over columns that hold what the
  accumulators make of some values, in exact arithmetic;
* `Recombination.restores_exact` — every formula has the value of its aggregate, in exact arithmetic;
* `Recombination.recombines_moments` — what a formula gives for any values.
-/

namespace PrivateSql

variable {N : Type} [Number N]

/-- **A formula that restores its aggregate**, over so many rows at most.  Wherever the columns hold the
raw aggregates of the rows, the formula has the value of the aggregate of these rows. -/
def Recombination.Restores (limit : Nat) (a : Expr N) (r : Recombination N) : Prop :=
  ∀ rows state, rows.length ≤ limit → aggregateRun a rows = .ok state →
    (∀ e ∈ r.raw, ∃ state', aggregateRun e rows = .ok state') →
    ∀ b : Bindings N, (∀ e ∈ r.raw, ∀ state', aggregateRun e rows = .ok state' →
      (Expr.ofColumn e.columnName).evaluate b = .ok state'.result) →
    r.formula.evaluate b = .ok state.result

omit [Number N] in
/-- A raw aggregate has only itself to be put together from. -/
theorem Recombination.eq_ofRaw {a : Expr N} {r : Recombination N} (ha : a.IsRawAggregate)
    (h : Recombination.of a = .ok r) : r = .ofRaw a := by
  obtain ⟨f, hf, hraw⟩ := ha
  cases a with
  | aggregate g e =>
      cases hf
      cases f with
      | count | sum | min | max =>
          cases h
          rfl
      | mean | variance | deviation => cases hraw
  | aggregateRows g =>
      cases hf
      rw [Recombination.of, if_pos hraw] at h
      cases h
      rfl
  | _ => cases hf

/-- A raw aggregate is read from its column. -/
theorem Recombination.restores_of_raw {a : Expr N} {r : Recombination N} (ha : a.IsRawAggregate)
    (h : Recombination.of a = .ok r) (limit : Nat) : r.Restores limit a := by
  rw [eq_ofRaw ha h]
  intro rows state _ hstate _ b hb
  exact hb a (List.mem_singleton_self a) state hstate

/-! ## The squares of an argument -/

/-- An operator on two values that has a value and does not stop at its left side. -/
theorem evaluate_binary {op : String} {l r : Expr N} {b : Bindings N} {x y v : Value N}
    (hl : l.evaluate b = .ok x) (hr : r.evaluate b = .ok y) (hleft : decidedByLeft op x = none)
    (hv : binaryValue op x y = some (.ok v)) : (Expr.binary l op r).evaluate b = .ok v := by
  rw [Expr.evaluate, hl, ok_bind, hleft]
  simp only [hr, ok_bind, hv]
  rfl

/-- No operator on numbers divides by zero, apart from the division and the remainder. -/
theorem mul_ne_zeroDenominator {x y : Value N} {n : String} :
    x.mul y ≠ .error (.zeroDenominator n) := by
  intro h
  rw [Value.mul, Value.arithmetic.eq_def] at h
  split at h
  · cases h
  · cases h
  · split at h <;> cases h
  · split at h <;> cases h

theorem binaryValue_mul (x y : Value N) : binaryValue "*" x y = some (x.mul y) := by
  have htimes : Text.toUpper "*" = "*" := by decide
  simp only [binaryValue, htimes]

omit [Number N] in
theorem decidedByLeft_mul (x : Value N) : decidedByLeft "*" x = none := by
  have htimes : Text.toUpper "*" = "*" := by decide
  simp [decidedByLeft, htimes]

/-- The square of an argument is its product with itself. -/
theorem evaluate_square (e : Expr N) (b : Bindings N) :
    ∃ factor : Expr N, factor.evaluate b = e.evaluate b ∧
      Recombination.square e = .binary factor "*" factor := by
  cases e with
  | binary l op r => exact ⟨.nested (.binary l op r), rfl, rfl⟩
  | _ => exact ⟨_, rfl, rfl⟩

/-- A value that is the square of another one: none of the two is a number, or both are. -/
def Value.IsSquareOf (w v : Value ℝ) : Prop :=
  (v.number? = none ∧ w.number? = none) ∨ ∃ x, v.number? = some x ∧ w.number? = some (x * x)

theorem Value.isSquareOf_of_mul {v w : Value ℝ} (h : v.mul v = .ok w) : w.IsSquareOf v := by
  rcases Value.number?_mul h with ⟨rfl, hnull⟩ | ⟨x, y, hx, hy, hw⟩
  · exact .inl ⟨by rcases hnull with rfl | rfl <;> rfl, rfl⟩
  · rw [hx] at hy
    cases hy
    exact .inr ⟨x, hx, hw⟩

/-- **Squares.**  Where the square of an argument is a cell, so is the argument, and the one is `NULL`
or the square of the other. -/
theorem cell_square {e : Expr ℝ} {b : Bindings ℝ} {w : Value ℝ}
    (h : cell b (Recombination.square e) = .ok w) : ∃ v, cell b e = .ok v ∧ w.IsSquareOf v := by
  obtain ⟨factor, hfactor, hsquare⟩ := evaluate_square e b
  rw [hsquare] at h
  cases he : e.evaluate b with
  | error error =>
      have hproduct : (Expr.binary factor "*" factor).evaluate b = .error error := by
        rw [Expr.evaluate, hfactor, he]
        rfl
      rw [cell, hproduct] at h
      split at h
      · rename_i n hzero
        cases h
        cases hzero
        exact ⟨.null, by rw [cell, he], .inl ⟨rfl, rfl⟩⟩
      · cases h
  | ok v =>
      refine ⟨v, by rw [cell, he], ?_⟩
      have hproduct : (Expr.binary factor "*" factor).evaluate b =
          valueOrInvalid (.binary factor "*" factor) (some (v.mul v)) := by
        rw [Expr.evaluate, hfactor, he, ok_bind, decidedByLeft_mul]
        simp only [ok_bind, binaryValue_mul]
      cases hmul : v.mul v with
      | error error =>
          rw [cell, hproduct, hmul] at h
          simp only [valueOrInvalid] at h
          split at h
          · rename_i n hzero
            cases hzero
            exact absurd hmul mul_ne_zeroDenominator
          · cases h
      | ok v' =>
          rw [cell, hproduct, hmul] at h
          cases h
          exact Value.isSquareOf_of_mul hmul

/-- The numbers of the squares are the squares of the numbers. -/
theorem numbersOf_squares {vs ws : List (Value ℝ)} (h : List.Forall₂ (fun v w => w.IsSquareOf v) vs ws) :
    numbersOf ws = (numbersOf vs).map fun x => x * x := by
  induction h with
  | nil => rfl
  | cons hhead _ ih =>
      rw [numbersOf] at ih
      rw [numbersOf, numbersOf]
      rcases hhead with ⟨hnone, hnone'⟩ | ⟨x, hx, hxx⟩
      · rw [List.filterMap_cons_none hnone, List.filterMap_cons_none hnone', ih]
        rfl
      · rw [List.filterMap_cons_some hx, List.filterMap_cons_some hxx, ih]
        rfl

/-- The squares of an argument on some rows stand beside its values. -/
theorem inputsOf_square {e : Expr ℝ} {rows : List (Bindings ℝ)} {f g : AggregateFunction}
    {vs ws : List (Value ℝ)} (hvs : inputsOf (.aggregate f e) rows = .ok vs)
    (hws : inputsOf (.aggregate g (Recombination.square e)) rows = .ok ws) :
    List.Forall₂ (fun v w => w.IsSquareOf v) vs ws := by
  induction rows generalizing vs ws with
  | nil =>
      cases hvs
      cases hws
      exact .nil
  | cons b rows ih =>
      obtain ⟨v, vs', hv, hvs', rfl⟩ := mapM_cons_eq_ok.mp hvs
      obtain ⟨w, ws', hw, hws', rfl⟩ := mapM_cons_eq_ok.mp hws
      obtain ⟨v', hv', hsquare⟩ := cell_square hw
      obtain rfl : v' = v := Except.ok.inj (hv'.symm.trans hv)
      exact .cons hsquare (ih hvs' hws')

/-! ## What the accumulators hold -/

/-- A cell that holds a sum of so many numbers, `NULL` when there is none. -/
def HoldsSum (v : Value ℝ) (xs : List ℝ) (y : ℝ) : Prop :=
  (xs = [] ∧ v = .null) ∨ (xs ≠ [] ∧ v.number? = some y)

section Accumulators

variable {vs : List (Value ℝ)} {state : Accumulator ℝ}

/-- Where there is nothing but `NULL` and numbers, no number is `NULL` only. -/
theorem numbersOf_eq_nil_iff (h : ∀ v ∈ vs, v.IsNumeric) : numbersOf vs = [] ↔ ∀ v ∈ vs, v = .null := by
  rw [numbersOf, List.filterMap_eq_nil_iff]
  constructor
  · intro hall v hv
    refine (h v hv).resolve_right ?_
    simp [hall v hv]
  · intro hall v hv
    rw [hall v hv]
    rfl

/-- What a sum holds: it has met only `NULL` and numbers, and it is their sum. -/
theorem sum_result (h : (Accumulator.fresh .sum : Accumulator ℝ).updateAll vs = .ok state) :
    (∀ v ∈ vs, v.IsNumeric) ∧ HoldsSum state.result (numbersOf vs) (numbersOf vs).sum := by
  obtain ⟨total, htotal, rfl⟩ := Accumulator.updateAll_sum h
  obtain ⟨hsum, hnumeric, hkept, hnull⟩ := Accumulator.foldlM_addToSum htotal
  refine ⟨hnumeric, ?_⟩
  have hnone : total = .null ↔ numbersOf vs = [] := by
    rw [hnull, numbersOf_eq_nil_iff hnumeric]
    exact ⟨fun h => h.2, fun h => ⟨rfl, h⟩⟩
  by_cases hempty : numbersOf vs = []
  · exact .inl ⟨hempty, hnone.mpr hempty⟩
  · refine .inr ⟨hempty, ?_⟩
    have hnumber := (hkept (.inl rfl)).resolve_left fun h => hempty (hnone.mp h)
    obtain ⟨x, hx⟩ := Option.isSome_iff_exists.mp hnumber
    rw [Accumulator.result, hx, ← Value.exact_eq hx, hsum, Value.exact_null, zero_add]

/-- What a count holds: the number of numbers, where there is nothing else but `NULL`. -/
theorem count_result (h : (Accumulator.fresh .count : Accumulator ℝ).updateAll vs = .ok state)
    (hnumeric : ∀ v ∈ vs, v.IsNumeric) (hlength : vs.length < 2 ^ 63) :
    ∃ k : Int64, state.result = .integer k ∧ (k.toInt : ℝ) = (numbersOf vs).length := by
  rw [Accumulator.fresh, Accumulator.updateAll_count, Nat.zero_add] at h
  cases h
  have hcount : (vs.countP fun v => !v.isNull) = (numbersOf vs).length := by
    rw [numbersOf, List.length_filterMap_eq_countP]
    apply List.countP_congr
    intro v hv
    rcases hnumeric v hv with rfl | hnumber
    · rfl
    · cases v <;> simp_all [Value.isNull, Value.number?]
  refine ⟨_, rfl, ?_⟩
  have hle : (numbersOf vs).length ≤ vs.length := List.length_filterMap_le _ _
  rw [hcount, Int64.toInt_ofNat_of_lt (by omega)]
  simp

end Accumulators

/-! ## Moments -/

/-- The squares of the distances to a number, from the moments. -/
theorem sum_squared_distances (l : List ℝ) (m : ℝ) :
    (l.map fun x => (x - m) * (x - m)).sum =
      (l.map fun x => x * x).sum - 2 * m * l.sum + l.length * (m * m) := by
  induction l with
  | nil => simp
  | cons x l ih =>
      simp only [List.map_cons, List.sum_cons, ih, List.length_cons, Nat.cast_add, Nat.cast_one]
      ring

/-- The mean of the squares is no less than the square of the mean. -/
theorem variance_nonneg {l : List ℝ} (h : l ≠ []) :
    0 ≤ (l.map fun x => x * x).sum / l.length - l.sum / l.length * (l.sum / l.length) := by
  have hlength : (0 : ℝ) < l.length := by
    exact_mod_cast List.length_pos_iff.mpr h
  have hdistances : 0 ≤ (l.map fun x =>
      (x - l.sum / l.length) * (x - l.sum / l.length)).sum := by
    apply List.sum_nonneg
    intro y hy
    obtain ⟨x, -, rfl⟩ := List.mem_map.mp hy
    exact mul_self_nonneg _
  rw [sum_squared_distances] at hdistances
  have hscaled : (l.map fun x => x * x).sum / l.length - l.sum / l.length * (l.sum / l.length) =
      ((l.map fun x => x * x).sum - 2 * (l.sum / l.length) * l.sum
        + l.length * (l.sum / l.length * (l.sum / l.length))) / l.length := by
    field_simp
    ring
  rw [hscaled]
  exact div_nonneg hdistances hlength.le

/-- What the accumulator of a statistic holds. -/
theorem moments_result {f : AggregateFunction} {s : Statistic}
    (hf : Accumulator.fresh f = (.moments s 0 Number.zero Number.zero : Accumulator ℝ))
    (vs : List (Value ℝ)) :
    ∃ n total squares, (Accumulator.fresh f).updateAll vs = .ok (.moments s n total squares) ∧
      n = (numbersOf vs).length ∧ total = (numbersOf vs).sum ∧
      squares = ((numbersOf vs).map fun x => x * x).sum := by
  rw [hf, Accumulator.updateAll_moments, exact_zero, Nat.zero_add, zero_add, zero_add]
  exact ⟨_, _, _, rfl, rfl, rfl, rfl⟩

/-- In exact arithmetic the variance is never cut off at 0. -/
theorem variance_of_moments_nonneg (xs : List ℝ) :
    0 ≤ (xs.map fun x => x * x).sum / xs.length - xs.sum / xs.length * (xs.sum / xs.length) := by
  by_cases hempty : xs = []
  · simp [hempty]
  · exact variance_nonneg hempty

/-! ## Formulas over numbers -/

section

variable {count sum squares : Expr N} {b : Bindings N} {k : Int64} {v w : Value N} {x y : N}

theorem binaryValue_div (x y : Value N) : binaryValue "/" x y = some (x.div y) := by
  have hover : Text.toUpper "/" = "/" := by decide
  simp only [binaryValue, hover]

omit [Number N] in
theorem decidedByLeft_div (x : Value N) : decidedByLeft "/" x = none := by
  have hover : Text.toUpper "/" = "/" := by decide
  simp [decidedByLeft, hover]

theorem binaryValue_sub (x y : Value N) : binaryValue "-" x y = some (x.sub y) := by
  have hminus : Text.toUpper "-" = "-" := by decide
  simp only [binaryValue, hminus]

omit [Number N] in
theorem decidedByLeft_sub (x : Value N) : decidedByLeft "-" x = none := by
  have hminus : Text.toUpper "-" = "-" := by decide
  simp [decidedByLeft, hminus]

/-- A number over a count that is not 0. -/
theorem evaluate_quotient {e : Expr N} (he : e.evaluate b = .ok v) (hv : v.number? = some x)
    (hcount : count.evaluate b = .ok (.integer k))
    (hk : Number.eq (Number.ofInt k.toInt : N) Number.zero = false) :
    (Expr.binary e "/" count).evaluate b = .ok (.float (x / Number.ofInt k.toInt)) := by
  refine evaluate_binary he hcount (decidedByLeft_div v) ?_
  rw [binaryValue_div]
  cases v <;> cases hv <;> simp [Value.div, Value.number?, hk]

/-- The formula of the mean, over a count that is not 0. -/
theorem evaluate_meanFormula (hsum : sum.evaluate b = .ok v) (hv : v.number? = some x)
    (hcount : count.evaluate b = .ok (.integer k))
    (hk : Number.eq (Number.ofInt k.toInt : N) Number.zero = false) :
    (Recombination.meanFormula count sum).evaluate b = .ok (.float (x / Number.ofInt k.toInt)) :=
  evaluate_quotient hsum hv hcount hk

/-- The formula of the variance, over a count that is not 0: the mean of the squares less the square of
the mean. -/
theorem evaluate_varianceFormula (hsum : sum.evaluate b = .ok v) (hv : v.number? = some x)
    (hsquares : squares.evaluate b = .ok w) (hw : w.number? = some y)
    (hcount : count.evaluate b = .ok (.integer k))
    (hk : Number.eq (Number.ofInt k.toInt : N) Number.zero = false) :
    (Recombination.varianceFormula count sum squares).evaluate b =
      .ok (.float (y / Number.ofInt k.toInt
        - x / Number.ofInt k.toInt * (x / Number.ofInt k.toInt))) := by
  have hmean := evaluate_meanFormula hsum hv hcount hk
  have hproduct := evaluate_binary hmean hmean (decidedByLeft_mul _) (by rw [binaryValue_mul]; rfl)
  rw [Recombination.varianceFormula, Expr.evaluate]
  exact evaluate_binary (evaluate_quotient hsquares hw hcount hk) hproduct (decidedByLeft_sub _)
    (by rw [binaryValue_sub]; rfl)

/-- The square root of a value. -/
theorem evaluate_sqrt {e : Expr N} (he : e.evaluate b = .ok v)
    (hw : functionValue "SQRT" [v] = some w) : (Expr.ofCall "SQRT" [e]).evaluate b = .ok w := by
  have hname : Text.toUpper "SQRT" = "SQRT" := by decide
  simp only [Expr.ofCall, hname, Expr.evaluate, Expr.evaluateAll, he, ok_bind, hw]

/-! ## Formulas over nothing -/

/-- `NULL` over a count. -/
theorem evaluate_quotient_null {e : Expr N} (he : e.evaluate b = .ok .null)
    (hcount : count.evaluate b = .ok (.integer k)) :
    (Expr.binary e "/" count).evaluate b = .ok .null :=
  evaluate_binary he hcount (decidedByLeft_div _) (by rw [binaryValue_div]; rfl)

theorem evaluate_meanFormula_null (hsum : sum.evaluate b = .ok .null)
    (hcount : count.evaluate b = .ok (.integer k)) :
    (Recombination.meanFormula count sum).evaluate b = .ok .null :=
  evaluate_quotient_null hsum hcount

theorem evaluate_varianceFormula_null (hsum : sum.evaluate b = .ok .null)
    (hsquares : squares.evaluate b = .ok .null) (hcount : count.evaluate b = .ok (.integer k)) :
    (Recombination.varianceFormula count sum squares).evaluate b = .ok .null := by
  have hmean := evaluate_meanFormula_null hsum hcount
  have hproduct := evaluate_binary hmean hmean (decidedByLeft_mul _) (by rw [binaryValue_mul]; rfl)
  rw [Recombination.varianceFormula, Expr.evaluate]
  exact evaluate_binary (evaluate_quotient_null hsquares hcount) hproduct (decidedByLeft_sub _)
    (by rw [binaryValue_sub]; rfl)

end

/-! ## Columns that hold raw aggregates -/

/-- The value of a plain column, read from a row. -/
theorem evaluate_ofColumn_rowBindings {pre n : String} {names : List String} {row : List (Value N)}
    {v : Value N} (hplain : IsPlain n)
    (h : ((names.zip row).reverse.find? fun c => Text.toLower c.1 == Text.toLower n).map (·.2) =
      some v) :
    (Expr.ofColumn n).evaluate (rowBindings [pre] names row) = .ok v := by
  have hfind : (rowBindings [pre] names row).find [n] = .one v := by
    rw [rowBindings, PathMap.find, PathMap.findEntry_ofList_under h]
    rfl
  rw [Expr.ofColumn, Expr.evaluate, hplain.parts, hfind]

/-- **A column that holds a raw aggregate of some values**, as the accumulator makes it. -/
def Recombination.Holds (b : Bindings N) (a : Expr N) (vs : List (Value N)) : Prop :=
  ∃ state, (emptyState a).updateAll vs = .ok state ∧
    (Expr.ofColumn a.columnName).evaluate b = .ok state.result

namespace Recombination

variable {f : AggregateFunction} {e : Expr ℝ} {b : Bindings ℝ} {vs : List (Value ℝ)}
  {r : Recombination ℝ}

/-- What the columns of a count and of a sum hold. -/
theorem columns_of_moments (hlength : vs.length < 2 ^ 63) (hcount : Holds b (.aggregate .count e) vs)
    (hsum : Holds b (.aggregate .sum e) vs) :
    (∀ v ∈ vs, v.IsNumeric) ∧ ∃ (k : Int64) (v : Value ℝ),
      (Expr.ofColumn (Expr.aggregate .count e).columnName).evaluate b = .ok (.integer k) ∧
      (k.toInt : ℝ) = (numbersOf vs).length ∧
      (Expr.ofColumn (Expr.aggregate .sum e).columnName).evaluate b = .ok v ∧
      HoldsSum v (numbersOf vs) (numbersOf vs).sum := by
  obtain ⟨counted, hcounted, hreadCount⟩ := hcount
  obtain ⟨summed, hsummed, hreadSum⟩ := hsum
  obtain ⟨hnumeric, hholds⟩ := sum_result hsummed
  obtain ⟨k, hk, hlen⟩ := count_result hcounted hnumeric hlength
  rw [hk] at hreadCount
  exact ⟨hnumeric, k, summed.result, hreadCount, hlen, hreadSum, hholds⟩

/-- What the column of the sum of the squares holds. -/
theorem column_of_squares (h : ∃ ws, List.Forall₂ (fun v w => w.IsSquareOf v) vs ws ∧
      Holds b (.aggregate .sum (square e)) ws) :
    ∃ w : Value ℝ, (Expr.ofColumn (Expr.aggregate .sum (square e)).columnName).evaluate b = .ok w ∧
      HoldsSum w (numbersOf vs) ((numbersOf vs).map fun x => x * x).sum := by
  obtain ⟨ws, hsquares, state, hstate, hread⟩ := h
  obtain ⟨-, hholds⟩ := sum_result hstate
  rw [numbersOf_squares hsquares] at hholds
  refine ⟨state.result, hread, ?_⟩
  rwa [HoldsSum, List.map_eq_nil_iff, ne_eq, List.map_eq_nil_iff] at hholds

/-- Without a number the sums are `NULL`, and so is every formula over them. -/
theorem evaluate_of_none (hraw : f.isRaw = false) (h : Recombination.of (.aggregate f e) = .ok r)
    {k : Int64} (hcount : (Expr.ofColumn (Expr.aggregate .count e).columnName).evaluate b = .ok (.integer k))
    (hsum : (Expr.ofColumn (Expr.aggregate .sum e).columnName).evaluate b = .ok .null)
    (hsquares : f ≠ .mean →
      (Expr.ofColumn (Expr.aggregate .sum (square e)).columnName).evaluate b = .ok .null) :
    r.formula.evaluate b = .ok .null := by
  cases f with
  | mean =>
      cases h
      exact evaluate_meanFormula_null hsum hcount
  | variance =>
      cases h
      exact evaluate_varianceFormula_null hsum (hsquares (by decide)) hcount
  | deviation =>
      cases h
      exact evaluate_sqrt (evaluate_varianceFormula_null hsum (hsquares (by decide)) hcount) rfl
  | _ => cases hraw

/-- Over the count, the sum and the sum of the squares of some numbers, a formula has the value of the
moments of the numbers. -/
theorem evaluate_of_some {s : Statistic} (hs : Accumulator.fresh f = (.moments s 0 Number.zero Number.zero :
      Accumulator ℝ)) (h : Recombination.of (.aggregate f e) = .ok r) {xs : List ℝ} (hsome : xs ≠ [])
    {k : Int64} (hk : (k.toInt : ℝ) = xs.length) {v : Value ℝ} (hv : v.number? = some xs.sum)
    (hcount : (Expr.ofColumn (Expr.aggregate .count e).columnName).evaluate b = .ok (.integer k))
    (hsum : (Expr.ofColumn (Expr.aggregate .sum e).columnName).evaluate b = .ok v)
    (hsquares : f ≠ .mean → ∃ w,
      (Expr.ofColumn (Expr.aggregate .sum (square e)).columnName).evaluate b = .ok w ∧
        w.number? = some (xs.map fun x => x * x).sum) :
    r.formula.evaluate b = .ok (Accumulator.moments s xs.length xs.sum (xs.map fun x => x * x).sum).result := by
  have hzero : Number.eq (Number.ofInt k.toInt : ℝ) Number.zero = false := by
    rw [Bool.eq_false_iff, ne_eq, exact_eq, exact_ofInt, hk, exact_zero, Nat.cast_eq_zero,
      List.length_eq_zero_iff]
    exact hsome
  have hcut := variance_of_moments_nonneg xs
  rw [Accumulator.result, if_neg fun h => hsome (List.length_eq_zero_iff.mp h)]
  cases f with
  | mean =>
      cases h
      cases hs
      rw [evaluate_meanFormula hsum hv hcount hzero]
      simp [Accumulator.statisticOf, hk]
  | variance =>
      cases h
      cases hs
      obtain ⟨w, hsquares, hw⟩ := hsquares (by decide)
      rw [evaluate_varianceFormula hsum hv hsquares hw hcount hzero]
      simp [Accumulator.statisticOf, hk, max_eq_left hcut]
  | deviation =>
      cases h
      cases hs
      obtain ⟨w, hsquares, hw⟩ := hsquares (by decide)
      refine evaluate_sqrt (evaluate_varianceFormula hsum hv hsquares hw hcount hzero) ?_
      simp [functionValue, Value.number?, Accumulator.statisticOf, hk, hcut, not_lt.mpr hcut]
  | _ => cases hs

/-- **Formulas over accumulators.**  Where the columns hold the count, the sum and the sum of the squares
of some values, the formula of a statistic has the value that the moments of these values have. -/
theorem evaluate_of_holds (hraw : f.isRaw = false) (h : Recombination.of (.aggregate f e) = .ok r)
    (hlength : vs.length < 2 ^ 63) (hcount : Holds b (.aggregate .count e) vs)
    (hsum : Holds b (.aggregate .sum e) vs)
    (hsquares : f ≠ .mean → ∃ ws, List.Forall₂ (fun v w => w.IsSquareOf v) vs ws ∧
      Holds b (.aggregate .sum (square e)) ws) :
    ∃ s n total squares, (Accumulator.fresh f).updateAll vs = .ok (.moments s n total squares) ∧
      r.formula.evaluate b = .ok (Accumulator.moments s n total squares).result ∧
      ((Accumulator.moments s n total squares).result = .null ↔ ∀ v ∈ vs, v = .null) ∧
      0 ≤ squares / n - total / n * (total / n) := by
  obtain ⟨hnumeric, k, v, hcount, hk, hsum, hv⟩ := columns_of_moments hlength hcount hsum
  obtain ⟨s, hs⟩ : ∃ s, Accumulator.fresh f =
      (.moments s 0 Number.zero Number.zero : Accumulator ℝ) := by
    cases f <;> first | exact ⟨_, rfl⟩ | cases hraw
  obtain ⟨n, total, squares, hstate, rfl, rfl, rfl⟩ := moments_result hs vs
  refine ⟨s, _, _, _, hstate, ?_, ?_, variance_of_moments_nonneg (numbersOf vs)⟩
  · rcases hv with ⟨hnone, rfl⟩ | ⟨hsome, hv⟩
    · rw [Accumulator.result, if_pos (by rw [hnone]; rfl)]
      refine evaluate_of_none hraw h hcount hsum fun hf => ?_
      obtain ⟨w, hread, hw⟩ := column_of_squares (hsquares hf)
      obtain ⟨-, rfl⟩ := hw.resolve_right fun h => h.1 hnone
      exact hread
    · refine evaluate_of_some hs h hsome hk hv hcount hsum fun hf => ?_
      obtain ⟨w, hread, hw⟩ := column_of_squares (hsquares hf)
      exact ⟨w, hread, (hw.resolve_left fun h => hsome h.1).2⟩
  · rw [← numbersOf_eq_nil_iff hnumeric, Accumulator.result]
    by_cases hnone : numbersOf vs = []
    · simp [hnone]
    · simp [hnone]

omit [Number N] in
/-- What a statistic is put together from. -/
theorem raw_of_statistic {e : Expr N} {r : Recombination N} (hraw : f.isRaw = false)
    (h : Recombination.of (.aggregate f e) = .ok r) :
    .aggregate .count e ∈ r.raw ∧ .aggregate .sum e ∈ r.raw ∧
      (f ≠ .mean → .aggregate .sum (square e) ∈ r.raw) := by
  cases f with
  | mean | variance | deviation =>
      cases h
      simp
  | _ => cases hraw

/-- The formula of a statistic has its value. -/
theorem restores_statistic {limit : Nat} (hraw : f.isRaw = false)
    (h : Recombination.of (.aggregate f e) = .ok r) (hlimit : limit < 2 ^ 63) :
    r.Restores limit (.aggregate f e) := by
  intro rows state hrows hstate hruns b hcolumns
  obtain ⟨vs, hvs, hrun⟩ := aggregateRun_eq_ok.mp hstate
  have hholds : ∀ g, .aggregate g e ∈ r.raw → Holds b (.aggregate g e) vs := by
    intro g hg
    obtain ⟨state', hstate'⟩ := hruns _ hg
    obtain ⟨vs', hvs', hrun'⟩ := aggregateRun_eq_ok.mp hstate'
    obtain rfl : vs' = vs := Except.ok.inj (hvs'.symm.trans hvs)
    exact ⟨state', hrun', hcolumns _ hg state' hstate'⟩
  have hsquares : .aggregate .sum (square e) ∈ r.raw →
      ∃ ws, List.Forall₂ (fun v w => w.IsSquareOf v) vs ws ∧
        Holds b (.aggregate .sum (square e)) ws := by
    intro hmem
    obtain ⟨state', hstate'⟩ := hruns _ hmem
    obtain ⟨ws, hws, hrun'⟩ := aggregateRun_eq_ok.mp hstate'
    exact ⟨ws, inputsOf_square hvs hws, state', hrun', hcolumns _ hmem state' hstate'⟩
  have hlength : vs.length < 2 ^ 63 := by
    rw [← (mapM_eq_ok.mp hvs).length_eq]
    exact lt_of_le_of_lt hrows hlimit
  obtain ⟨hcount, hsum, hmem⟩ := raw_of_statistic hraw h
  obtain ⟨s, n, total, squares, hmoments, heval, -⟩ := evaluate_of_holds hraw h hlength
    (hholds _ hcount) (hholds _ hsum) fun hmean => hsquares (hmem hmean)
  obtain rfl : state = .moments s n total squares := Except.ok.inj (hrun.symm.trans hmoments)
  exact heval

/-- **Recombination is exact.**  In exact arithmetic the formula of every aggregate has its value, over
as many rows as a count can count. -/
theorem restores_exact {a : Expr ℝ} {limit : Nat} (h : Recombination.of a = .ok r)
    (hlimit : limit < 2 ^ 63) : r.Restores limit a := by
  by_cases hraw : a.IsRawAggregate
  · exact restores_of_raw hraw h limit
  cases a with
  | aggregate f e =>
      have hf : f.isRaw = false := by
        rw [Bool.eq_false_iff]
        exact fun hf => hraw ⟨f, rfl, hf⟩
      exact restores_statistic hf h hlimit
  | aggregateRows f =>
      rw [Recombination.of] at h
      split at h
      · rename_i hf
        exact absurd ⟨f, rfl, hf⟩ hraw
      · cases h
  | _ => cases h

/-- **Recombination of moments.**  Over any values whose raw sums do not fail, as many as a count can
count, a mean, a variance or a deviation has a formula.  Where the columns hold what the accumulators of
`COUNT`, `SUM` and the `SUM` of the squares make of the values, the cell of the formula is what the
accumulator of moments makes of them.  It is `NULL` when all values are, and no variance is cut off
at 0. -/
theorem recombines_moments (hraw : f.isRaw = false) (hlength : vs.length < 2 ^ 63)
    (hcount : Holds b (.aggregate .count e) vs) (hsum : Holds b (.aggregate .sum e) vs)
    (hsquares : f ≠ .mean → ∃ ws, List.Forall₂ (fun v w => v.mul v = .ok w) vs ws ∧
      Holds b (.aggregate .sum (square e)) ws) :
    ∃ r s n total squares, Recombination.of (.aggregate f e) = .ok r ∧
      (Accumulator.fresh f).updateAll vs = .ok (.moments s n total squares) ∧
      cell b r.formula = .ok (Accumulator.moments s n total squares).result ∧
      ((Accumulator.moments s n total squares).result = .null ↔ ∀ v ∈ vs, v = .null) ∧
      Number.maximum (squares / n - total / n * (total / n)) Number.zero =
        squares / n - total / n * (total / n) := by
  obtain ⟨r, hr⟩ : ∃ r, Recombination.of (.aggregate f e) = .ok r := by
    cases f <;> exact ⟨_, rfl⟩
  have hvalues : f ≠ .mean → ∃ ws, List.Forall₂ (fun v w => w.IsSquareOf v) vs ws ∧
      Holds b (.aggregate .sum (square e)) ws := by
    intro hf
    obtain ⟨ws, hmul, hholds⟩ := hsquares hf
    exact ⟨ws, hmul.imp fun _ _ => Value.isSquareOf_of_mul, hholds⟩
  obtain ⟨s, n, total, squares, hstate, heval, hnull, hcut⟩ :=
    evaluate_of_holds hraw hr hlength hcount hsum hvalues
  refine ⟨r, s, n, total, squares, hr, hstate, by rw [cell, heval], hnull, ?_⟩
  rw [exact_maximum, exact_zero, max_eq_left hcut]

/-- Where the columns hold the count, the sum and the sum of the squares of one and three, with a `NULL`
between them, the formula of the deviation gives 1. -/
theorem recombines_moments_deviation :
    ∃ r, Recombination.of (.aggregate .deviation (.column ⟨"x"⟩) : Expr ℝ) = .ok r ∧
      cell (rowBindings ["t"] ["count_e0igw5", "sum_z0vy5g", "sum__fzlee"]
        [.integer 2, .float (Number.ofInt 1 + Number.ofInt 3),
          .float (Number.ofInt 1 + Number.ofInt 3 * Number.ofInt 3)]) r.formula = .ok (.float 1) := by
  have hcountName : (Expr.aggregate .count (.column ⟨"x"⟩) : Expr ℝ).columnName = "count_e0igw5" := by
    decide +kernel
  have hsumName : (Expr.aggregate .sum (.column ⟨"x"⟩) : Expr ℝ).columnName = "sum_z0vy5g" := by
    decide +kernel
  have hsquaresName : (Expr.aggregate .sum (square (.column ⟨"x"⟩)) : Expr ℝ).columnName =
      "sum__fzlee" := by
    decide +kernel
  have hcount : (Accumulator.fresh .count : Accumulator ℝ).updateAll
      [.integer 1, .null, .float (Number.ofInt 3)] = .ok (.count 2) := rfl
  have hsum : (Accumulator.fresh .sum : Accumulator ℝ).updateAll
      [.integer 1, .null, .float (Number.ofInt 3)] =
        .ok (.sum (.float (Number.ofInt 1 + Number.ofInt 3))) := rfl
  have hsquares : (Accumulator.fresh .sum : Accumulator ℝ).updateAll
      [.integer 1, .null, .float (Number.ofInt 3 * Number.ofInt 3)] =
        .ok (.sum (.float (Number.ofInt 1 + Number.ofInt 3 * Number.ofInt 3))) := rfl
  obtain ⟨r, s, n, total, squares, hr, hstate, hcell, -, -⟩ :=
    @recombines_moments .deviation (.column ⟨"x"⟩)
      (rowBindings ["t"] ["count_e0igw5", "sum_z0vy5g", "sum__fzlee"]
        [.integer 2, .float (Number.ofInt 1 + Number.ofInt 3),
          .float (Number.ofInt 1 + Number.ofInt 3 * Number.ofInt 3)])
      [.integer 1, .null, .float (Number.ofInt 3)] rfl (by decide)
      ⟨_, hcount, evaluate_ofColumn_rowBindings (isPlain_columnName _) (by rw [hcountName]; rfl)⟩
      ⟨_, hsum, evaluate_ofColumn_rowBindings (isPlain_columnName _) (by rw [hsumName]; rfl)⟩
      fun _ => ⟨_, .cons rfl (.cons rfl (.cons rfl .nil)), _, hsquares,
        evaluate_ofColumn_rowBindings (isPlain_columnName _) (by rw [hsquaresName]; rfl)⟩
  have hmoments : (Accumulator.fresh .deviation : Accumulator ℝ).updateAll
      [.integer 1, .null, .float (Number.ofInt 3)] =
        .ok (.moments .deviation 2 (Number.zero + Number.ofInt 1 + Number.ofInt 3)
          (Number.zero + Number.ofInt 1 * Number.ofInt 1 + Number.ofInt 3 * Number.ofInt 3)) := rfl
  refine ⟨r, hr, hcell.trans ?_⟩
  rw [← Except.ok.inj (hmoments.symm.trans hstate)]
  norm_num [Accumulator.result, Accumulator.statisticOf]

end Recombination

end PrivateSql
