import Mathlib.Analysis.SpecialFunctions.Pow.Real
import PrivateSql.Execution.Grouping
import PrivateSql.Proofs.ColumnResolution
import PrivateSql.Proofs.ExprStructure
import PrivateSql.Proofs.IntervalEnclosure
/-!
# Values lie in the inferred bounds

The bounds of an expression are inferred from those declared for its columns, operator by operator.
In exact arithmetic the inference is right: on rows that conform to the declared bounds, the value of
an expression is `NULL` or a number within the bounds inferred for it.

* `Value.Within`, `Scope.Conforms` — a value within an interval, a row within the declared bounds;
* `Value.number?_arithmetic` — operators compute with the numbers of their operands;
* `evaluate_within` — the value of an expression lies in its bounds, and `cell_within`, so does a
  cell.
-/

namespace PrivateSql

/-- The word of an integer in range stands for it. -/
theorem toInt_of_int64? {i : ℤ} {k : Int64} (h : int64? i = some k) : k.toInt = i := by
  rw [int64?] at h
  split at h
  · rename_i hrange
    cases h
    exact Int64.toInt_ofInt_of_le (by simpa using hrange.1) (by simpa using hrange.2)
  · cases h

namespace Value

/-- A value that is `NULL` or a number of an interval. -/
def Within (i : Interval ℝ) (v : Value ℝ) : Prop :=
  v = .null ∨ ∃ x, v.number? = some x ∧ i.contains x = true

variable {l r v : Value ℝ} {i j : Interval ℝ}

/-- **Operators compute with numbers.**  When the operator on integers agrees with the one on numbers,
a value that is not `NULL` comes from the numbers of both sides. -/
theorem number?_arithmetic {op : String} {onInts : ℤ → ℤ → Option Int64} {onNumbers : ℝ → ℝ → ℝ}
    (hints : ∀ a b k, onInts a b = some k → (k.toInt : ℝ) = onNumbers a b)
    (h : arithmetic op onInts onNumbers l r = .ok v) :
    (v = .null ∧ (l = .null ∨ r = .null)) ∨
      ∃ x y, l.number? = some x ∧ r.number? = some y ∧ v.number? = some (onNumbers x y) := by
  unfold arithmetic at h
  split at h
  · cases h
    exact .inl ⟨rfl, .inl rfl⟩
  · cases h
    exact .inl ⟨rfl, .inr rfl⟩
  · rename_i a b
    split at h
    · rename_i k hk
      cases h
      refine .inr ⟨(a.toInt : ℝ), (b.toInt : ℝ), rfl, rfl, ?_⟩
      rw [← hints _ _ _ hk]
      rfl
    · cases h
  · split at h
    · rename_i x y hx hy
      cases h
      exact .inr ⟨x, y, hx, hy, rfl⟩
    · cases h

theorem number?_add (h : l.add r = .ok v) :
    (v = .null ∧ (l = .null ∨ r = .null)) ∨
      ∃ x y, l.number? = some x ∧ r.number? = some y ∧ v.number? = some (x + y) := by
  refine number?_arithmetic (fun a b k hk => ?_) h
  rw [toInt_of_int64? hk]
  push_cast
  rfl

theorem number?_sub (h : l.sub r = .ok v) :
    (v = .null ∧ (l = .null ∨ r = .null)) ∨
      ∃ x y, l.number? = some x ∧ r.number? = some y ∧ v.number? = some (x - y) := by
  refine number?_arithmetic (fun a b k hk => ?_) h
  rw [toInt_of_int64? hk]
  push_cast
  rfl

theorem number?_mul (h : l.mul r = .ok v) :
    (v = .null ∧ (l = .null ∨ r = .null)) ∨
      ∃ x y, l.number? = some x ∧ r.number? = some y ∧ v.number? = some (x * y) := by
  refine number?_arithmetic (fun a b k hk => ?_) h
  rw [toInt_of_int64? hk]
  push_cast
  rfl

theorem number?_div (h : l.div r = .ok v) :
    (v = .null ∧ (l = .null ∨ r = .null)) ∨
      ∃ x y, l.number? = some x ∧ r.number? = some y ∧ y ≠ 0 ∧ v.number? = some (x / y) := by
  unfold div at h
  split at h
  · cases h
    exact .inl ⟨rfl, .inl rfl⟩
  · cases h
    exact .inl ⟨rfl, .inr rfl⟩
  · split at h
    · rename_i x y hx hy
      split at h
      · cases h
      · rename_i hzero
        cases h
        refine .inr ⟨x, y, hx, hy, ?_, rfl⟩
        intro hy0
        exact hzero (by simp [hy0])
    · cases h

theorem number?_neg (h : v.neg = .ok r) :
    (r = .null ∧ v = .null) ∨ ∃ x, v.number? = some x ∧ r.number? = some (-x) := by
  cases v with
  | null =>
      cases h
      exact .inl ⟨rfl, rfl⟩
  | integer a =>
      rw [neg] at h
      split at h
      · rename_i k hk
        cases h
        refine .inr ⟨(a.toInt : ℝ), rfl, ?_⟩
        have hint := toInt_of_int64? hk
        simp only [number?, exact_ofInt, hint]
        push_cast
        rfl
      · cases h
  | float x =>
      cases h
      exact .inr ⟨x, rfl, rfl⟩
  | boolean b => cases h
  | text s => cases h

theorem within_null (i : Interval ℝ) : (null : Value ℝ).Within i := .inl rfl

/-- The number of a value within an interval. -/
theorem Within.contains {x : ℝ} (h : v.Within i) (hx : v.number? = some x) :
    i.contains x = true := by
  rcases h with rfl | ⟨y, hy, hcontains⟩
  · cases hx
  · rw [hx, Option.some.injEq] at hy
    rw [hy]
    exact hcontains

theorem within_of_number? {x : ℝ} (hv : v.number? = some x) (hx : i.contains x = true) :
    v.Within i := .inr ⟨x, hv, hx⟩

end Value

open Value

/-- A row that conforms to the bounds declared for the columns: the value of a column with bounds is
`NULL` or a number within them. -/
def Scope.Conforms (scope : Scope ℝ) (b : Bindings ℝ) : Prop :=
  PathMap.Related (fun s v => ∀ i, s.bounds = some i → v.Within i) scope.columns b

/-- A row of a table conforms when each of its values is `NULL` or within the bounds of its column. -/
theorem conforms_rowBindings {symbols : List (Symbol ℝ)} {row : List (Value ℝ)} (path : List String)
    (h : List.Forall₂ (fun s v => ∀ i, s.bounds = some i → v.Within i) symbols row) :
    (relationScope path symbols).Conforms (rowBindings path (symbols.map (·.name)) row) :=
  related_rowBindings path h

/-- The operators with bounds give values within them. -/
theorem binaryValue_within {op : String} {l r v : Value ℝ} {i j k : Interval ℝ}
    (hk : Expr.binaryBounds? op i j = some k) (hl : l.Within i) (hr : r.Within j)
    (h : binaryValue op l r = some (.ok v)) : v.Within k := by
  have hplus : Text.toUpper "+" = "+" := by decide
  have hminus : Text.toUpper "-" = "-" := by decide
  have htimes : Text.toUpper "*" = "*" := by decide
  have hover : Text.toUpper "/" = "/" := by decide
  unfold Expr.binaryBounds? at hk
  split at hk
  · cases hk
    simp only [binaryValue, hplus, Option.some.injEq] at h
    rcases number?_add h with ⟨rfl, -⟩ | ⟨x, y, hx, hy, hv⟩
    · exact within_null _
    · exact within_of_number? hv (Interval.contains_add (hl.contains hx) (hr.contains hy))
  · cases hk
    simp only [binaryValue, hminus, Option.some.injEq] at h
    rcases number?_sub h with ⟨rfl, -⟩ | ⟨x, y, hx, hy, hv⟩
    · exact within_null _
    · exact within_of_number? hv (Interval.contains_sub (hl.contains hx) (hr.contains hy))
  · cases hk
    simp only [binaryValue, htimes, Option.some.injEq] at h
    rcases number?_mul h with ⟨rfl, -⟩ | ⟨x, y, hx, hy, hv⟩
    · exact within_null _
    · exact within_of_number? hv (Interval.contains_mul (hl.contains hx) (hr.contains hy))
  · simp only [binaryValue, hover, Option.some.injEq] at h
    rcases number?_div h with ⟨rfl, -⟩ | ⟨x, y, hx, hy, -, hv⟩
    · exact within_null _
    · exact within_of_number? hv (Interval.contains_div hk (hl.contains hx) (hr.contains hy))
  · cases hk

/-- No operator with bounds is decided by its left side. -/
theorem decidedByLeft_of_bounds {op : String} {i j k : Interval ℝ} {v : Value ℝ}
    (hk : Expr.binaryBounds? op i j = some k) : decidedByLeft op v = none := by
  have hplus : Text.toUpper "+" = "+" := by decide
  have hminus : Text.toUpper "-" = "-" := by decide
  have htimes : Text.toUpper "*" = "*" := by decide
  have hover : Text.toUpper "/" = "/" := by decide
  unfold Expr.binaryBounds? at hk
  split at hk
  · simp [decidedByLeft, hplus]
  · simp [decidedByLeft, hminus]
  · simp [decidedByLeft, htimes]
  · simp [decidedByLeft, hover]
  · cases hk

/-- The rounding of a value within an interval. -/
theorem rounded_within {mode : IntegerRounding} {v r : Value ℝ} {i : Interval ℝ} (hv : v.Within i)
    (h : r = .null ∨ (∃ a, v = .integer a ∧ r = .integer a) ∨
      ∃ x, v = .float x ∧ r = .float (Number.roundToInteger mode x)) :
    r.Within (i.map (Number.roundToInteger mode)) := by
  rcases h with rfl | ⟨a, rfl, rfl⟩ | ⟨x, rfl, rfl⟩
  · exact within_null _
  · have hrounded := Interval.contains_map (fun _ _ hle => exact_roundToInteger_mono mode hle)
      (hv.contains (x := (a.toInt : ℝ)) rfl)
    rw [exact_roundToInteger_int] at hrounded
    exact within_of_number? rfl hrounded
  · exact within_of_number? rfl
      (Interval.contains_map (fun _ _ hle => exact_roundToInteger_mono mode hle) (hv.contains rfl))

/-- The functions with bounds give values within them. -/
theorem functionValue_within {name : String} {v r : Value ℝ} {rest : List (Value ℝ)}
    {i k : Interval ℝ} (hk : Expr.callBounds? name (rest.length + 1) i = some k)
    (hv : v.Within i) (h : functionValue name (v :: rest) = some r) : r.Within k := by
  by_cases hnull : v = .null
  · rw [hnull] at h
    simp only [functionValue, Option.some.injEq] at h
    rw [← h]
    exact within_null _
  unfold Expr.callBounds? at hk
  split at hk
  · cases hk
    rcases rest with _ | ⟨w, rest⟩ <;> cases v <;> simp [functionValue] at h hnull
    · rename_i a
      obtain ⟨k, hk, rfl⟩ := h
      have hnumber : (integer k : Value ℝ).number? = some |(a.toInt : ℝ)| := by
        rw [number?, toInt_of_int64? hk, exact_ofInt, Int.cast_abs]
      exact within_of_number? hnumber (Interval.contains_abs (hv.contains rfl))
    · rw [← h]
      exact within_of_number? rfl (Interval.contains_abs (hv.contains rfl))
  · rcases rest with _ | ⟨w, rest⟩
    · have hroot : ∃ x, v.number? = some x ∧
          (if Number.lt x Number.zero then null else float (Number.sqrt x)) = r := by
        cases v <;> simp [functionValue] at h hnull ⊢ <;> exact h
      obtain ⟨x, hx, rfl⟩ := hroot
      obtain ⟨hx0, hcontains⟩ := Interval.contains_sqrt hk (hv.contains hx)
      rw [if_neg (by simpa using hx0)]
      exact within_of_number? rfl hcontains
    · cases v <;> simp [functionValue] at h hnull
  · cases hk
    rcases rest with _ | ⟨w, rest⟩ <;> cases v <;> simp [functionValue] at h hnull
    · exact rounded_within hv (.inr (.inl ⟨_, rfl, h.symm⟩))
    · exact rounded_within hv (.inr (.inr ⟨_, rfl, h.symm⟩))
  · cases hk
    rcases rest with _ | ⟨w, rest⟩ <;> cases v <;> simp [functionValue] at h hnull
    · exact rounded_within hv (.inr (.inl ⟨_, rfl, h.symm⟩))
    · exact rounded_within hv (.inr (.inr ⟨_, rfl, h.symm⟩))
  · split at hk
    · rename_i hsingle
      cases hk
      have hrest : rest = [] := List.length_eq_zero_iff.mp (by omega)
      subst hrest
      cases v <;> simp [functionValue] at h hnull
      · exact rounded_within hv (.inr (.inl ⟨_, rfl, h.symm⟩))
      · exact rounded_within hv (.inr (.inr ⟨_, rfl, h.symm⟩))
    · cases hk
  · cases hk

/-- **Values lie in the inferred bounds.**  On a row within the bounds declared for the columns, an
expression with inferred bounds is `NULL` or a number within them. -/
theorem evaluate_within {scope : Scope ℝ} {b : Bindings ℝ} (hb : scope.Conforms b) {e : Expr ℝ}
    {i : Interval ℝ} {v : Value ℝ} (hi : e.bounds scope = some i) (hv : e.evaluate b = .ok v) :
    v.Within i := by
  induction e using Expr.induct generalizing i v with
  | literal l =>
      rw [Expr.bounds, Option.map_eq_some_iff] at hi
      obtain ⟨x, hx, rfl⟩ := hi
      cases hv
      exact within_of_number? hx (Interval.contains_point x)
  | column id =>
      unfold Expr.bounds at hi
      split at hi
      · rename_i s hs
        obtain ⟨w, hw, hwithin⟩ := Scope.find_of_resolve hb hs
        rw [Expr.evaluate, hw] at hv
        cases hv
        exact hwithin i hi
      · cases hi
  | unary op e ih =>
      unfold Expr.bounds at hi
      split at hi
      · rename_i hop
        obtain ⟨j, hj, rfl⟩ := Option.map_eq_some_iff.mp hi
        obtain ⟨w, hw, hv⟩ := bind_eq_ok.mp hv
        have hwithin := ih hj hw
        rw [Expr.valueOrInvalid_eq_ok] at hv
        simp only [unaryValue, if_pos hop, Option.some.injEq] at hv
        rcases number?_neg hv with ⟨rfl, -⟩ | ⟨x, hx, hneg⟩
        · exact within_null _
        · exact within_of_number? hneg (Interval.contains_neg (hwithin.contains hx))
      · cases hi
  | binary l op r ihl ihr =>
      obtain ⟨j, hj, hi⟩ := Option.bind_eq_some_iff.mp hi
      obtain ⟨k, hk, hi⟩ := Option.bind_eq_some_iff.mp hi
      obtain ⟨x, hx, hv⟩ := bind_eq_ok.mp hv
      rw [decidedByLeft_of_bounds hi] at hv
      obtain ⟨y, hy, hv⟩ := bind_eq_ok.mp hv
      rw [Expr.valueOrInvalid_eq_ok] at hv
      exact binaryValue_within hi (ihl hj hx) (ihr hk hy) hv
  | nested e ih => exact ih hi hv
  | isNull e negated ih => cases hi
  | call name args ih =>
      cases args with
      | nil => cases hi
      | cons e es =>
          obtain ⟨j, hj, hi⟩ := Option.bind_eq_some_iff.mp hi
          obtain ⟨values, hvalues, hv⟩ := bind_eq_ok.mp hv
          obtain ⟨x, hx, hvalues⟩ := bind_eq_ok.mp hvalues
          obtain ⟨xs, hxs, hvalues⟩ := bind_eq_ok.mp hvalues
          cases hvalues
          rw [Expr.evaluateAll_eq_mapM] at hxs
          rw [(mapM_eq_ok.mp hxs).length_eq] at hi
          have hwithin := ih e List.mem_cons_self hj hx
          split at hv
          · rename_i w hw
            cases hv
            exact functionValue_within hi hwithin hw
          · cases hv
  | aggregate f e ih => cases hv
  | aggregateRows f => cases hv

/-- The same for cells, where a division by zero gives `NULL`. -/
theorem cell_within {scope : Scope ℝ} {b : Bindings ℝ} (hb : scope.Conforms b) {e : Expr ℝ}
    {i : Interval ℝ} {v : Value ℝ} (hi : e.bounds scope = some i) (hv : cell b e = .ok v) :
    v.Within i := by
  unfold cell at hv
  split at hv
  · cases hv
    exact within_null _
  · exact evaluate_within hb hi hv

end PrivateSql
