import PrivateSql.Proofs.RecombinedValues
import PrivateSql.Proofs.RowOrder
/-!
# Recombining noised cells

A noised count need not be the count of any rows, nor a noised sum their sum: a count may be 0 beside a
sum that is not, and a mean of squares may be less than the square of the mean.  The formulas are still
computed.  A division by a count of 0 makes a cell `NULL`, and so does the square root of a negative
variance; operators on numbers have no other way to fail, as a quotient is never an integer.

* `TellsZero`, `tellsZero_binary64` — no other integer than 0 is rounded to it;
* `Settles`, `Recombination.exists_cell` — a formula over numbers always has a cell;
* `RecombinedCell`, `Recombination.cell_of_released` — the cell of a formula over noised cells.
-/

namespace PrivateSql

/-! ## Zero -/

/-- The only integer whose number is 0 is 0. -/
def TellsZero (N : Type) [Number N] : Prop :=
  ∀ k : Int64, Number.eq (Number.ofInt k.toInt : N) Number.zero = true ↔ k = 0

namespace Binary64

/-- The number of an integer has the place of 0 only if the integer is 0. -/
theorem place_ofInt_eq_zero_iff {i : Int} : (ofInt i).place = (ofInt 0).place ↔ i = 0 := by
  refine ⟨fun h => ?_, fun h => by rw [h]⟩
  have hzero : (ofInt 0).place = 0 := rfl
  by_contra hne
  have hpos := ratioMagnitude_pos (n := i.natAbs) (by omega)
  rw [hzero, place_ofInt] at h
  split at h <;> omega

end Binary64

/-- Binary numbers tell zero. -/
theorem tellsZero_binary64 : TellsZero Binary64 := by
  intro k
  change Binary64.eq (Binary64.ofInt k.toInt) (Binary64.ofInt 0) = true ↔ k = 0
  simp [Binary64.eq, Binary64.isNaN_ofInt, Binary64.place_ofInt_eq_zero_iff, ← Int64.toInt_inj]

variable {N : Type} [Number N]

/-! ## Operators that cannot fail otherwise -/

namespace Value

/-- A value that operators compute with: `NULL` or a number. -/
def IsOperand (v : Value N) : Prop := v = .null ∨ v.number?.isSome = true

/-- A value that a quotient may have: `NULL`, or a number that is no integer. -/
def IsFloat (v : Value N) : Prop := v = .null ∨ ∃ x, v = .float x

variable {v w : Value N}

/-- The quotient of operands is computed, unless it is one by zero. -/
theorem div_operands (hv : v.IsOperand) (hw : w.IsOperand) :
    (∃ r, v.div w = .ok r ∧ r.IsFloat) ∨ ∃ n, v.div w = .error (.zeroDenominator n) := by
  rcases hv with rfl | hv
  · exact .inl ⟨.null, rfl, .inl rfl⟩
  rcases hw with rfl | hw
  · refine .inl ⟨.null, ?_, .inl rfl⟩
    cases v <;> rfl
  obtain ⟨x, hx⟩ := Option.isSome_iff_exists.mp hv
  obtain ⟨y, hy⟩ := Option.isSome_iff_exists.mp hw
  have hdiv : v.div w =
      if Number.eq y Number.zero then .error (.zeroDenominator v.display) else .ok (.float (x / y)) := by
    cases v <;> cases hx <;> cases w <;> cases hy <;> rfl
  rw [hdiv]
  split
  · exact .inr ⟨_, rfl⟩
  · exact .inl ⟨_, rfl, .inr ⟨_, rfl⟩⟩

theorem mul_floats (hv : v.IsFloat) (hw : w.IsFloat) : ∃ r, v.mul w = .ok r ∧ r.IsFloat := by
  rcases hv with rfl | ⟨x, rfl⟩
  · exact ⟨.null, rfl, .inl rfl⟩
  · rcases hw with rfl | ⟨y, rfl⟩
    · exact ⟨.null, rfl, .inl rfl⟩
    · exact ⟨_, rfl, .inr ⟨_, rfl⟩⟩

theorem sub_floats (hv : v.IsFloat) (hw : w.IsFloat) : ∃ r, v.sub w = .ok r ∧ r.IsFloat := by
  rcases hv with rfl | ⟨x, rfl⟩
  · exact ⟨.null, rfl, .inl rfl⟩
  · rcases hw with rfl | ⟨y, rfl⟩
    · exact ⟨.null, rfl, .inl rfl⟩
    · exact ⟨_, rfl, .inr ⟨_, rfl⟩⟩

end Value

/-- **An expression that settles.**  It has a value, `NULL` or a number that is no integer, or else it
divides by zero. -/
def Settles (b : Bindings N) (e : Expr N) : Prop :=
  (∃ v, e.evaluate b = .ok v ∧ v.IsFloat) ∨
    ∃ n, e.evaluate b = .error (.operation (.zeroDenominator n))

namespace Settles

variable {b : Bindings N} {e l r : Expr N}

/-- What settles has a cell. -/
theorem exists_cell (h : Settles b e) : ∃ v, cell b e = .ok v := by
  rcases h with ⟨v, hv, -⟩ | ⟨n, hn⟩
  · exact ⟨v, by rw [cell, hv]⟩
  · exact ⟨.null, by rw [cell, hn]⟩

theorem nested (h : Settles b e) : Settles b (.nested e) := h

/-- Quotients of operands settle. -/
theorem quotient {v w : Value N} (hl : l.evaluate b = .ok v) (hv : v.IsOperand)
    (hr : r.evaluate b = .ok w) (hw : w.IsOperand) : Settles b (.binary l "/" r) := by
  have heval : (Expr.binary l "/" r).evaluate b =
      valueOrInvalid (.binary l "/" r) (some (v.div w)) := by
    rw [Expr.evaluate, hl, ok_bind, decidedByLeft_div]
    simp only [hr, ok_bind, binaryValue_div]
  rw [Settles, heval]
  rcases Value.div_operands hv hw with ⟨x, hx, hfloat⟩ | ⟨n, hn⟩
  · exact .inl ⟨x, by rw [hx]; rfl, hfloat⟩
  · exact .inr ⟨n, by rw [hn]; rfl⟩

/-- An operator that keeps floats settles where its sides do. -/
theorem operator {op : String} {onValues : Value N → Value N → Except ValueError (Value N)}
    (hleft : ∀ x : Value N, decidedByLeft op x = none)
    (hvalue : ∀ x y, binaryValue op x y = some (onValues x y))
    (hkeeps : ∀ {x y}, x.IsFloat → y.IsFloat → ∃ z, onValues x y = .ok z ∧ z.IsFloat)
    (hl : Settles b l) (hr : Settles b r) : Settles b (.binary l op r) := by
  rcases hl with ⟨v, hv, hvfloat⟩ | ⟨n, hn⟩
  · rcases hr with ⟨w, hw, hwfloat⟩ | ⟨n, hn⟩
    · obtain ⟨z, hz, hzfloat⟩ := hkeeps hvfloat hwfloat
      exact .inl ⟨z, evaluate_binary hv hw (hleft v) (by rw [hvalue, hz]), hzfloat⟩
    · refine .inr ⟨n, ?_⟩
      rw [Expr.evaluate, hv, ok_bind, hleft]
      simp only [hn, error_bind]
  · refine .inr ⟨n, ?_⟩
    rw [Expr.evaluate, hn, error_bind]

/-- A square root settles where its argument does. -/
theorem sqrt (h : Settles b e) : Settles b (.ofCall "SQRT" [e]) := by
  have hname : Text.toUpper "SQRT" = "SQRT" := by decide
  rcases h with ⟨v, hv, rfl | ⟨x, rfl⟩⟩ | ⟨n, hn⟩
  · exact .inl ⟨.null, evaluate_sqrt hv rfl, .inl rfl⟩
  · cases hnegative : Number.lt x Number.zero with
    | true =>
        refine .inl ⟨.null, evaluate_sqrt hv ?_, .inl rfl⟩
        simp [functionValue, Value.number?, hnegative]
    | false =>
        refine .inl ⟨.float (Number.sqrt x), evaluate_sqrt hv ?_, .inr ⟨_, rfl⟩⟩
        simp [functionValue, Value.number?, hnegative]
  · refine .inr ⟨n, ?_⟩
    simp only [Expr.ofCall, hname, Expr.evaluate, Expr.evaluateAll, hn, error_bind]

end Settles

namespace Recombination

variable {b : Bindings N} {count sum squares : Expr N} {v w u : Value N}

theorem settles_meanFormula (hsum : sum.evaluate b = .ok v) (hv : v.IsOperand)
    (hcount : count.evaluate b = .ok w) (hw : w.IsOperand) : Settles b (meanFormula count sum) :=
  (Settles.quotient hsum hv hcount hw).nested

theorem settles_varianceFormula (hsum : sum.evaluate b = .ok v) (hv : v.IsOperand)
    (hsquares : squares.evaluate b = .ok u) (hu : u.IsOperand)
    (hcount : count.evaluate b = .ok w) (hw : w.IsOperand) :
    Settles b (varianceFormula count sum squares) := by
  have hmean := settles_meanFormula hsum hv hcount hw
  have hproduct := Settles.operator decidedByLeft_mul binaryValue_mul Value.mul_floats hmean hmean
  have hsquared := Settles.quotient hsquares hu hcount hw
  exact (Settles.operator decidedByLeft_sub binaryValue_sub Value.sub_floats hsquared hproduct).nested

omit [Number N] in
/-- An aggregate is raw, or it is a mean, a variance or a deviation. -/
theorem raw_or_statistic {a : Expr N} {r : Recombination N} (h : Recombination.of a = .ok r) :
    a.IsRawAggregate ∨
      ∃ e, a = .aggregate .mean e ∨ a = .aggregate .variance e ∨ a = .aggregate .deviation e := by
  cases a with
  | aggregate f e =>
      cases f with
      | count | sum | min | max => exact .inl ⟨_, rfl, rfl⟩
      | mean => exact .inr ⟨e, .inl rfl⟩
      | variance => exact .inr ⟨e, .inr (.inl rfl)⟩
      | deviation => exact .inr ⟨e, .inr (.inr rfl)⟩
  | aggregateRows f =>
      rw [Recombination.of] at h
      split at h
      · rename_i hf
        exact .inl ⟨f, rfl, hf⟩
      · cases h
  | _ => cases h

/-- **Formulas over operands have cells**, whatever they are. -/
theorem exists_cell {a : Expr N} {r : Recombination N} (h : Recombination.of a = .ok r)
    (hcolumns : ∀ e ∈ r.raw, ∃ v, (Expr.ofColumn e.columnName).evaluate b = .ok v ∧ v.IsOperand) :
    ∃ v, cell b r.formula = .ok v := by
  rcases raw_or_statistic h with hraw | ⟨e, rfl | rfl | rfl⟩
  · rw [eq_ofRaw hraw h] at hcolumns ⊢
    obtain ⟨v, hv, -⟩ := hcolumns a (List.mem_singleton_self a)
    exact ⟨v, by rw [ofRaw, cell, hv]⟩
  · cases h
    obtain ⟨w, hcount, hw⟩ := hcolumns (.aggregate .count e) (by simp)
    obtain ⟨v, hsum, hv⟩ := hcolumns (.aggregate .sum e) (by simp)
    exact (settles_meanFormula hsum hv hcount hw).exists_cell
  · cases h
    obtain ⟨w, hcount, hw⟩ := hcolumns (.aggregate .count e) (by simp)
    obtain ⟨v, hsum, hv⟩ := hcolumns (.aggregate .sum e) (by simp)
    obtain ⟨u, hsquares, hu⟩ := hcolumns (.aggregate .sum (square e)) (by simp)
    exact (settles_varianceFormula hsum hv hsquares hu hcount hw).exists_cell
  · cases h
    obtain ⟨w, hcount, hw⟩ := hcolumns (.aggregate .count e) (by simp)
    obtain ⟨v, hsum, hv⟩ := hcolumns (.aggregate .sum e) (by simp)
    obtain ⟨u, hsquares, hu⟩ := hcolumns (.aggregate .sum (square e)) (by simp)
    exact (settles_varianceFormula hsum hv hsquares hu hcount hw).sqrt.exists_cell

end Recombination

/-! ## The cells of noised columns -/

/-- **A cell that a column is released as.**  A count is released as an integer that is not negative, any
other raw aggregate as an integer or as a number of any kind. -/
def Value.IsReleased (f : AggregateFunction) (v : Value N) : Prop :=
  if f = .count then ∃ k ∈ v.integer?, 0 ≤ k.toInt else v.number?.isSome = true

instance (f : AggregateFunction) (v : Value N) : Decidable (v.IsReleased f) :=
  inferInstanceAs (Decidable (if f = .count then ∃ k ∈ v.integer?, 0 ≤ k.toInt
    else v.number?.isSome = true))

namespace Value.IsReleased

variable {f : AggregateFunction} {v : Value N}

theorem eq_integer (h : v.IsReleased .count) : ∃ k : Int64, v = .integer k ∧ 0 ≤ k.toInt := by
  obtain ⟨k, hk, hnonneg⟩ := h
  cases v <;> cases hk
  exact ⟨k, rfl, hnonneg⟩

theorem isSome (h : v.IsReleased f) : v.number?.isSome = true := by
  by_cases hf : f = .count
  · subst hf
    obtain ⟨k, rfl, -⟩ := h.eq_integer
    rfl
  · rwa [IsReleased, if_neg hf] at h

end Value.IsReleased

/-- The variance of noised moments, which may be negative. -/
def noisedVariance (k : Int64) (x y : N) : N :=
  y / Number.ofInt k.toInt - x / Number.ofInt k.toInt * (x / Number.ofInt k.toInt)

/-- **The cell of an aggregate**, from the cells that its raw aggregates were released as.  A raw aggregate
is shown as it is.  A mean and a variance are `NULL` exactly when the count is 0, and a deviation also
when the variance is negative. -/
inductive RecombinedCell (Shows : Expr N → Value N → Prop) : Expr N → Value N → Prop
  | raw {a v} (isRaw : a.IsRawAggregate) (shown : Shows a v) : RecombinedCell Shows a v
  | mean {e k s x v} (count : Shows (.aggregate .count e) (.integer k))
      (sum : Shows (.aggregate .sum e) s) (number : s.number? = some x)
      (null : v = .null ↔ k = 0) (value : k ≠ 0 → v = .float (x / Number.ofInt k.toInt)) :
      RecombinedCell Shows (.aggregate .mean e) v
  | variance {e k s t x y v} (count : Shows (.aggregate .count e) (.integer k))
      (sum : Shows (.aggregate .sum e) s) (number : s.number? = some x)
      (squares : Shows (.aggregate .sum (Recombination.square e)) t) (number' : t.number? = some y)
      (null : v = .null ↔ k = 0) (value : k ≠ 0 → v = .float (noisedVariance k x y)) :
      RecombinedCell Shows (.aggregate .variance e) v
  | deviation {e k s t x y v} (count : Shows (.aggregate .count e) (.integer k))
      (sum : Shows (.aggregate .sum e) s) (number : s.number? = some x)
      (squares : Shows (.aggregate .sum (Recombination.square e)) t) (number' : t.number? = some y)
      (null : v = .null ↔ k = 0 ∨ Number.lt (noisedVariance k x y) Number.zero = true)
      (value : v ≠ .null → v = .float (Number.sqrt (noisedVariance k x y))) :
      RecombinedCell Shows (.aggregate .deviation e) v

namespace Recombination

section Formulas

variable {b : Bindings N} {count sum squares : Expr N} {k : Int64} {v w : Value N} {x y : N}

/-- A number over a count of 0. -/
theorem evaluate_quotient_zero {e : Expr N} (he : e.evaluate b = .ok v) (hv : v.number? = some x)
    (hcount : count.evaluate b = .ok (.integer k))
    (hk : Number.eq (Number.ofInt k.toInt : N) Number.zero = true) :
    (Expr.binary e "/" count).evaluate b = .error (.operation (.zeroDenominator v.display)) := by
  rw [Expr.evaluate, he, ok_bind, decidedByLeft_div]
  simp only [hcount, ok_bind, binaryValue_div]
  cases v <;> cases hv <;> simp [Value.div, Value.number?, hk, valueOrInvalid]

/-- The cell of a mean is `NULL` exactly when the count is 0. -/
theorem cell_meanFormula (hzero : TellsZero N) (hsum : sum.evaluate b = .ok v)
    (hv : v.number? = some x) (hcount : count.evaluate b = .ok (.integer k)) :
    ∃ u, cell b (meanFormula count sum) = .ok u ∧ (u = .null ↔ k = 0) ∧
      (k ≠ 0 → u = .float (x / Number.ofInt k.toInt)) := by
  by_cases hk : k = 0
  · have heval : (meanFormula count sum).evaluate b =
        .error (.operation (.zeroDenominator v.display)) :=
      evaluate_quotient_zero hsum hv hcount ((hzero k).mpr hk)
    exact ⟨.null, by rw [cell, heval], by simp [hk], fun h => absurd hk h⟩
  · have heval := evaluate_meanFormula hsum hv hcount (Bool.eq_false_iff.mpr (mt (hzero k).mp hk))
    exact ⟨_, by rw [cell, heval], by simp [hk], fun _ => rfl⟩

/-- What the formula of a variance gives: it divides by zero exactly when the count is 0. -/
theorem evaluate_varianceFormula_cases (hzero : TellsZero N) (hsum : sum.evaluate b = .ok v)
    (hv : v.number? = some x) (hsquares : squares.evaluate b = .ok w) (hw : w.number? = some y)
    (hcount : count.evaluate b = .ok (.integer k)) :
    (k = 0 ∧ ∃ n, (varianceFormula count sum squares).evaluate b =
        .error (.operation (.zeroDenominator n))) ∨
      (k ≠ 0 ∧ (varianceFormula count sum squares).evaluate b = .ok (.float (noisedVariance k x y))) := by
  by_cases hk : k = 0
  · refine .inl ⟨hk, w.display, ?_⟩
    have hquotient := evaluate_quotient_zero hsquares hw hcount ((hzero k).mpr hk)
    rw [varianceFormula, Expr.evaluate, Expr.evaluate, hquotient, error_bind]
  · exact .inr ⟨hk, evaluate_varianceFormula hsum hv hsquares hw hcount
      (Bool.eq_false_iff.mpr (mt (hzero k).mp hk))⟩

/-- The cell of a variance is `NULL` exactly when the count is 0. -/
theorem cell_varianceFormula (hzero : TellsZero N) (hsum : sum.evaluate b = .ok v)
    (hv : v.number? = some x) (hsquares : squares.evaluate b = .ok w) (hw : w.number? = some y)
    (hcount : count.evaluate b = .ok (.integer k)) :
    ∃ u, cell b (varianceFormula count sum squares) = .ok u ∧ (u = .null ↔ k = 0) ∧
      (k ≠ 0 → u = .float (noisedVariance k x y)) := by
  rcases evaluate_varianceFormula_cases hzero hsum hv hsquares hw hcount with
    ⟨hk, n, heval⟩ | ⟨hk, heval⟩
  · exact ⟨.null, by rw [cell, heval], by simp [hk], fun h => absurd hk h⟩
  · exact ⟨_, by rw [cell, heval], by simp [hk], fun _ => rfl⟩

/-- The cell of a deviation is `NULL` exactly when the count is 0 or the variance is negative. -/
theorem cell_deviationFormula (hzero : TellsZero N) (hsum : sum.evaluate b = .ok v)
    (hv : v.number? = some x) (hsquares : squares.evaluate b = .ok w) (hw : w.number? = some y)
    (hcount : count.evaluate b = .ok (.integer k)) :
    ∃ u, cell b (.ofCall "SQRT" [varianceFormula count sum squares]) = .ok u ∧
      (u = .null ↔ k = 0 ∨ Number.lt (noisedVariance k x y) Number.zero = true) ∧
      (u ≠ .null → u = .float (Number.sqrt (noisedVariance k x y))) := by
  rcases evaluate_varianceFormula_cases hzero hsum hv hsquares hw hcount with
    ⟨hk, n, heval⟩ | ⟨hk, heval⟩
  · have hroot : (Expr.ofCall "SQRT" [varianceFormula count sum squares]).evaluate b =
        .error (.operation (.zeroDenominator n)) := by
      simp only [Expr.ofCall, Expr.evaluate, Expr.evaluateAll, heval, error_bind]
    exact ⟨.null, by rw [cell, hroot], by simp [hk], fun h => absurd rfl h⟩
  · cases hnegative : Number.lt (noisedVariance k x y) Number.zero with
    | true =>
        have hroot := evaluate_sqrt (w := .null) heval
          (by simp [functionValue, Value.number?, hnegative])
        exact ⟨.null, by rw [cell, hroot], by simp [hk], fun h => absurd rfl h⟩
    | false =>
        have hroot := evaluate_sqrt (w := .float (Number.sqrt (noisedVariance k x y))) heval
          (by simp [functionValue, Value.number?, hnegative])
        exact ⟨_, by rw [cell, hroot], by simp [hk], fun _ => rfl⟩

end Formulas

/-- **The cell of a formula** over cells that its columns were released as. -/
theorem cell_of_released (hzero : TellsZero N) {a : Expr N} {r : Recombination N} {b : Bindings N}
    {Shows : Expr N → Value N → Prop} (h : Recombination.of a = .ok r)
    (hcolumns : ∀ e ∈ r.raw, ∀ f, e.function? = some f → ∃ v,
      (Expr.ofColumn e.columnName).evaluate b = .ok v ∧ Shows e v ∧ v.IsReleased f) :
    ∃ v, cell b r.formula = .ok v ∧ RecombinedCell Shows a v := by
  have hcounted : ∀ {e : Expr N}, .aggregate .count e ∈ r.raw → ∃ k : Int64,
      (Expr.ofColumn (Expr.aggregate .count e).columnName).evaluate b = .ok (.integer k) ∧
        Shows (.aggregate .count e) (.integer k) := by
    intro e he
    obtain ⟨v, hv, hshown, hreleased⟩ := hcolumns _ he .count rfl
    obtain ⟨k, rfl, -⟩ := hreleased.eq_integer
    exact ⟨k, hv, hshown⟩
  have hsummed : ∀ {e : Expr N}, .aggregate .sum e ∈ r.raw → ∃ v x,
      (Expr.ofColumn (Expr.aggregate .sum e).columnName).evaluate b = .ok v ∧
        Shows (.aggregate .sum e) v ∧ v.number? = some x := by
    intro e he
    obtain ⟨v, hv, hshown, hreleased⟩ := hcolumns _ he .sum rfl
    obtain ⟨x, hx⟩ := Option.isSome_iff_exists.mp hreleased.isSome
    exact ⟨v, x, hv, hshown, hx⟩
  rcases raw_or_statistic h with hraw | ⟨e, rfl | rfl | rfl⟩
  · rw [eq_ofRaw hraw h] at hcolumns ⊢
    obtain ⟨f, hf, hisRaw⟩ := hraw
    obtain ⟨v, hv, hshown, -⟩ := hcolumns a (List.mem_singleton_self a) f hf
    exact ⟨v, by rw [ofRaw, cell, hv], .raw ⟨f, hf, hisRaw⟩ hshown⟩
  · cases h
    obtain ⟨k, hcount, hk⟩ := @hcounted e (by simp)
    obtain ⟨s, x, hsum, hs, hx⟩ := @hsummed e (by simp)
    obtain ⟨v, hv, hnull, hvalue⟩ := cell_meanFormula hzero hsum hx hcount
    exact ⟨v, hv, .mean hk hs hx hnull hvalue⟩
  · cases h
    obtain ⟨k, hcount, hk⟩ := @hcounted e (by simp)
    obtain ⟨s, x, hsum, hs, hx⟩ := @hsummed e (by simp)
    obtain ⟨t, y, hsquares, ht, hy⟩ := @hsummed (square e) (by simp)
    obtain ⟨v, hv, hnull, hvalue⟩ := cell_varianceFormula hzero hsum hx hsquares hy hcount
    exact ⟨v, hv, .variance hk hs hx ht hy hnull hvalue⟩
  · cases h
    obtain ⟨k, hcount, hk⟩ := @hcounted e (by simp)
    obtain ⟨s, x, hsum, hs, hx⟩ := @hsummed e (by simp)
    obtain ⟨t, y, hsquares, ht, hy⟩ := @hsummed (square e) (by simp)
    obtain ⟨v, hv, hnull, hvalue⟩ := cell_deviationFormula hzero hsum hx hsquares hy hcount
    exact ⟨v, hv, .deviation hk hs hx ht hy hnull hvalue⟩

end Recombination

end PrivateSql
