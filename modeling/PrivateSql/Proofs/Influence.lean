import PrivateSql.Privacy.Calibration
import PrivateSql.Proofs.AggregateValues
/-!
# The influence of one row

The noise of an aggregate is scaled to its sensitivity, the width of the bounds of its argument.  The
width is how far apart two values of the argument can be, and so it bounds what changing a value
does.  It does not bound what the first row of a group does, which takes the aggregate from nothing,
counted as 0, to the value itself: that is bounded by the width only where 0 is within the bounds.

* `OneRowApart` — two lists of rows that differ by one row;
* `BoundsInfluence` — a number that bounds the influence of one row on an aggregate;
* `Expr.sensitivity_bounds_influence` — exactly when the sensitivity does, in exact arithmetic.
-/

namespace PrivateSql

/-! ## Rows that differ by one -/

/-- One list is the other with an element added, removed or changed. -/
inductive OneRowApart {α : Type} : List α → List α → Prop
  | added (before : List α) (row : α) (after : List α) :
    OneRowApart (before ++ after) (before ++ row :: after)
  | removed (before : List α) (row : α) (after : List α) :
    OneRowApart (before ++ row :: after) (before ++ after)
  | changed (before : List α) (row row' : α) (after : List α) :
    OneRowApart (before ++ row :: after) (before ++ row' :: after)

/-- One of two lists that differ by an element has an element. -/
theorem OneRowApart.exists_mem {α : Type} {rows rows' : List α} (h : OneRowApart rows rows') :
    ∃ b, b ∈ rows ∨ b ∈ rows' := by
  cases h with
  | added before row after => exact ⟨row, .inr (by simp)⟩
  | removed before row after => exact ⟨row, .inl (by simp)⟩
  | changed before row row' after => exact ⟨row, .inl (by simp)⟩

/-- **Sums over rows that differ by one.**  They differ by what one row weighs, or by the weights of
two rows, one in place of the other. -/
theorem OneRowApart.abs_sub_sum_le {α β ε : Type} {f : α → Except ε β} {w : β → ℝ} {s : ℝ}
    {rows rows' : List α} (h : OneRowApart rows rows') {vs vs' : List β}
    (hvs : rows.mapM f = .ok vs) (hvs' : rows'.mapM f = .ok vs')
    (hone : ∀ b ∈ rows ++ rows', ∀ v, f b = .ok v → |w v| ≤ s)
    (htwo : ∀ b ∈ rows, ∀ b' ∈ rows', ∀ v v', f b = .ok v → f b' = .ok v' → |w v - w v'| ≤ s) :
    |(vs.map w).sum - (vs'.map w).sum| ≤ s := by
  cases h with
  | added before row after =>
      obtain ⟨us, ws, hus, hws, rfl⟩ := mapM_append_eq_ok.mp hvs
      obtain ⟨us', rest, hus', hrest, rfl⟩ := mapM_append_eq_ok.mp hvs'
      obtain ⟨v, ws', hv, hws', rfl⟩ := mapM_cons_eq_ok.mp hrest
      rw [hus] at hus'
      rw [hws] at hws'
      cases hus'
      cases hws'
      have hdifference : ((us ++ ws).map w).sum - ((us ++ v :: ws).map w).sum = -(w v) := by
        simp only [List.map_append, List.map_cons, List.sum_append, List.sum_cons]
        ring
      rw [hdifference, abs_neg]
      exact hone row (by simp) v hv
  | removed before row after =>
      obtain ⟨us, ws, hus, hws, rfl⟩ := mapM_append_eq_ok.mp hvs'
      obtain ⟨us', rest, hus', hrest, rfl⟩ := mapM_append_eq_ok.mp hvs
      obtain ⟨v, ws', hv, hws', rfl⟩ := mapM_cons_eq_ok.mp hrest
      rw [hus] at hus'
      rw [hws] at hws'
      cases hus'
      cases hws'
      have hdifference : ((us ++ v :: ws).map w).sum - ((us ++ ws).map w).sum = w v := by
        simp only [List.map_append, List.map_cons, List.sum_append, List.sum_cons]
        ring
      rw [hdifference]
      exact hone row (by simp) v hv
  | changed before row row' after =>
      obtain ⟨us, rest, hus, hrest, rfl⟩ := mapM_append_eq_ok.mp hvs
      obtain ⟨v, ws, hv, hws, rfl⟩ := mapM_cons_eq_ok.mp hrest
      obtain ⟨us', rest', hus', hrest', rfl⟩ := mapM_append_eq_ok.mp hvs'
      obtain ⟨v', ws', hv', hws', rfl⟩ := mapM_cons_eq_ok.mp hrest'
      rw [hus] at hus'
      rw [hws] at hws'
      cases hus'
      cases hws'
      have hdifference : ((us ++ v :: ws).map w).sum - ((us ++ v' :: ws).map w).sum =
          w v - w v' := by
        simp only [List.map_append, List.map_cons, List.sum_append, List.sum_cons]
        ring
      rw [hdifference]
      exact htwo row (by simp) row' (by simp) v v' hv hv'

/-! ## The number of an aggregate -/

/-- The number that an aggregate of some rows is noised from. -/
def AggregateNumber (a : Expr ℝ) (rows : List (Bindings ℝ)) (x : ℝ) : Prop :=
  ∃ state, aggregateRun a rows = .ok state ∧ Calibration.exactNumber state.result = .ok x

theorem exactNumber_eq_ok {v : Value ℝ} {x : ℝ} :
    Calibration.exactNumber v = .ok x ↔ v.IsNumeric ∧ x = v.exact := by
  cases v <;>
    simp [Calibration.exactNumber, Value.IsNumeric, Value.exact, Value.number?, eq_comm]

variable {scope : Scope ℝ} {a e : Expr ℝ} {i : Interval ℝ} {rows rows' : List (Bindings ℝ)}
  {b : Bindings ℝ} {v : Value ℝ} {x s : ℝ}

theorem AggregateNumber.unique {x' : ℝ} (h : AggregateNumber a rows x)
    (h' : AggregateNumber a rows x') : x = x' := by
  obtain ⟨state, hstate, hx⟩ := h
  obtain ⟨state', hstate', hx'⟩ := h'
  cases hstate.symm.trans hstate'
  cases hx.symm.trans hx'
  rfl

/-- An aggregate with a number has a value of its argument on every row. -/
theorem AggregateNumber.exists_input (h : AggregateNumber a rows x) (hb : b ∈ rows) :
    ∃ v, aggregateInput b a = .ok v := by
  obtain ⟨state, hstate, -⟩ := h
  obtain ⟨vs, hvs, -⟩ := aggregateRun_eq_ok.mp hstate
  obtain ⟨v, -, hv⟩ := exists_result_of_mem hvs hb
  exact ⟨v, hv⟩

/-- What a value weighs in a count. -/
noncomputable def countUnit (v : Value ℝ) : ℝ := if v.isNull then 0 else 1

theorem sum_countUnit (vs : List (Value ℝ)) :
    (vs.map countUnit).sum = (vs.countP fun v => !v.isNull : ℕ) := by
  induction vs with
  | nil => simp
  | cons v vs ih =>
      rw [List.map_cons, List.sum_cons, ih, List.countP_cons]
      cases hv : v.isNull <;> simp [countUnit, hv, add_comm]

/-- A count is the number of values that are not `NULL`. -/
theorem aggregateNumber_count (ha : a.function? = some .count) (hlength : rows.length < 2 ^ 63) :
    AggregateNumber a rows x ↔ ∃ vs, inputsOf a rows = .ok vs ∧ x = (vs.map countUnit).sum := by
  have hstart : emptyState a = Accumulator.count 0 := by
    rw [emptyState, ha]
    rfl
  have hresult : ∀ vs, inputsOf a rows = .ok vs →
      (Int64.ofNat (vs.countP fun v => !v.isNull)).toInt = (vs.countP fun v => !v.isNull : ℕ) := by
    intro vs hvs
    have hle : (vs.countP fun v => !v.isNull) ≤ vs.length := List.countP_le_length
    rw [← (mapM_eq_ok.mp hvs).length_eq] at hle
    exact Int64.toInt_ofNat_of_lt (by omega)
  constructor
  · rintro ⟨state, hstate, hx⟩
    obtain ⟨vs, hvs, hrun⟩ := aggregateRun_eq_ok.mp hstate
    rw [hstart, Accumulator.updateAll_count, Nat.zero_add] at hrun
    cases hrun
    refine ⟨vs, hvs, ?_⟩
    rw [(exactNumber_eq_ok.mp hx).2, Accumulator.result, Value.exact_eq rfl, hresult vs hvs, sum_countUnit]
    simp
  · rintro ⟨vs, hvs, rfl⟩
    refine ⟨_, aggregateRun_eq_ok.mpr ⟨vs, hvs, by rw [hstart, Accumulator.updateAll_count]⟩, ?_⟩
    rw [exactNumber_eq_ok, Accumulator.result, Nat.zero_add, Value.exact_eq rfl, hresult vs hvs,
      sum_countUnit]
    exact ⟨.inr rfl, by simp⟩

/-- A sum is the sum of the numbers of the values. -/
theorem aggregateNumber_sum (h : AggregateNumber (.aggregate .sum e) rows x) :
    ∃ vs, inputsOf (.aggregate .sum e) rows = .ok vs ∧ x = (vs.map Value.exact).sum := by
  obtain ⟨state, hstate, hx⟩ := h
  obtain ⟨vs, hvs, hrun⟩ := aggregateRun_eq_ok.mp hstate
  obtain ⟨total, htotal, rfl⟩ := Accumulator.updateAll_sum hrun
  have hsum := (Accumulator.foldlM_addToSum htotal).1
  refine ⟨vs, hvs, ?_⟩
  rw [(exactNumber_eq_ok.mp hx).2, Accumulator.result, hsum, sum_numbersOf, Value.exact_null,
    zero_add]

/-- The aggregates that keep one of the values. -/
def AggregateFunction.IsExtremum (f : AggregateFunction) : Prop := f = .min ∨ f = .max

theorem AggregateFunction.IsExtremum.emptyState {f : AggregateFunction} (hf : f.IsExtremum)
    (e : Expr ℝ) :
    ∃ keep, PrivateSql.emptyState (.aggregate f e) = Accumulator.extremum keep .null := by
  rcases hf with rfl | rfl
  · exact ⟨.lt, rfl⟩
  · exact ⟨.gt, rfl⟩

/-- An extremum is one of the values, or nothing when there is none. -/
theorem aggregateNumber_extremum {f : AggregateFunction} (hf : f.IsExtremum)
    (h : AggregateNumber (.aggregate f e) rows x) :
    x = 0 ∨ ∃ b ∈ rows, ∃ v, cell b e = .ok v ∧ v.IsNumeric ∧ v ≠ .null ∧ x = v.exact := by
  obtain ⟨state, hstate, hx⟩ := h
  obtain ⟨vs, hvs, hrun⟩ := aggregateRun_eq_ok.mp hstate
  obtain ⟨keep, hkeep⟩ := hf.emptyState e
  rw [hkeep] at hrun
  obtain ⟨v, rfl, hmem, -⟩ := Accumulator.mem_of_updateAll_extremum hrun
  obtain ⟨hnumeric, hx⟩ := exactNumber_eq_ok.mp hx
  rw [Accumulator.result] at hnumeric hx
  by_cases hnull : v = .null
  · rw [hnull] at hx
    exact .inl hx
  · rcases List.mem_cons.mp hmem with hhead | htail
    · exact absurd hhead hnull
    · obtain ⟨b, hzip, hv⟩ := exists_element_of_mem hvs htail
      exact .inr ⟨b, (List.of_mem_zip hzip).1, v, hv, hnumeric, hnull, hx⟩

/-- **One row.**  A sum or an extremum of one row is the number of its argument. -/
theorem aggregateNumber_single {f : AggregateFunction} (hf : f = .sum ∨ f.IsExtremum)
    (hv : cell b e = .ok v) (hnumeric : v.IsNumeric) :
    AggregateNumber (.aggregate f e) [b] v.exact := by
  have hinputs : inputsOf (.aggregate f e) [b] = .ok [v] := by
    rw [inputsOf, List.mapM_cons, aggregateInput, hv]
    rfl
  have hrun : ∃ state, (emptyState (.aggregate f e)).updateAll [v] = .ok state ∧
      state.result = v := by
    rcases hf with rfl | rfl | rfl
    · refine ⟨.sum v, ?_, rfl⟩
      rcases hnumeric with rfl | hnumber
      · rfl
      · cases v with
        | integer k => rfl
        | float y => rfl
        | _ => cases hnumber
    · refine ⟨.extremum .lt v, ?_, rfl⟩
      cases v <;> rfl
    · refine ⟨.extremum .gt v, ?_, rfl⟩
      cases v <;> rfl
  obtain ⟨state, hstate, hresult⟩ := hrun
  refine ⟨state, aggregateRun_eq_ok.mpr ⟨[v], hinputs, hstate⟩, ?_⟩
  rw [exactNumber_eq_ok, hresult]
  exact ⟨hnumeric, rfl⟩

/-- The aggregates that have a sensitivity. -/
theorem sensitivity_cases (h : a.sensitivity scope = some s) :
    (a.function? = some .count ∧ s = 1) ∨
      ∃ f e i, a = .aggregate f e ∧ (f = .sum ∨ f.IsExtremum) ∧ e.bounds scope = some i ∧
        s = i.width := by
  cases a with
  | aggregate f e =>
      cases f with
      | count =>
          rw [Expr.sensitivity, Option.some.injEq, exact_one] at h
          exact .inl ⟨rfl, h.symm⟩
      | sum =>
          obtain ⟨i, hi, rfl⟩ := Option.map_eq_some_iff.mp h
          exact .inr ⟨.sum, e, i, rfl, .inl rfl, hi, rfl⟩
      | min =>
          obtain ⟨i, hi, rfl⟩ := Option.map_eq_some_iff.mp h
          exact .inr ⟨.min, e, i, rfl, .inr (.inl rfl), hi, rfl⟩
      | max =>
          obtain ⟨i, hi, rfl⟩ := Option.map_eq_some_iff.mp h
          exact .inr ⟨.max, e, i, rfl, .inr (.inr rfl), hi, rfl⟩
      | mean => cases h
      | variance => cases h
      | deviation => cases h
  | aggregateRows f =>
      cases f with
      | count =>
          rw [Expr.sensitivity, Option.some.injEq, exact_one] at h
          exact .inl ⟨rfl, h.symm⟩
      | _ => cases h
  | _ => cases h

/-- Without rows the number of an aggregate with a sensitivity is 0. -/
theorem aggregateNumber_nil (h : a.sensitivity scope = some s) : AggregateNumber a [] 0 := by
  rcases sensitivity_cases h with ⟨ha, -⟩ | ⟨f, e, i, rfl, rfl | rfl | rfl, -, -⟩
  · exact (aggregateNumber_count ha (by simp)).mpr ⟨[], rfl, by simp⟩
  · exact ⟨_, rfl, exactNumber_eq_ok.mpr ⟨.inl rfl, rfl⟩⟩
  · exact ⟨_, rfl, exactNumber_eq_ok.mpr ⟨.inl rfl, rfl⟩⟩
  · exact ⟨_, rfl, exactNumber_eq_ok.mpr ⟨.inl rfl, rfl⟩⟩

theorem Value.Within.isNumeric (h : v.Within i) : v.IsNumeric := by
  rcases h with rfl | ⟨y, hy, -⟩
  · exact .inl rfl
  · exact .inr (by rw [hy]; rfl)

/-- A value within bounds around 0 is no larger than their width. -/
theorem Value.Within.abs_exact_le (h : v.Within i) (hzero : i.contains 0 = true) :
    |v.exact| ≤ i.width := by
  rcases h with rfl | ⟨x, hx, hcontains⟩
  · rw [exact_null]
    exact Interval.abs_le_width hzero hzero
  · rw [exact_eq hx]
    exact Interval.abs_le_width hzero hcontains

/-- Two numbers within bounds are no further apart than their width; next to `NULL`, the number
itself has to be as small. -/
theorem Value.Within.abs_sub_le {w : Value ℝ} (hv : v.Within i) (hw : w.Within i)
    (hvs : |v.exact| ≤ i.width) (hws : |w.exact| ≤ i.width) : |v.exact - w.exact| ≤ i.width := by
  rcases hv with rfl | ⟨x, hx, hvx⟩
  · rwa [exact_null, zero_sub, abs_neg]
  · rcases hw with rfl | ⟨y, hy, hwy⟩
    · rwa [exact_null, sub_zero]
    · rw [exact_eq hx, exact_eq hy]
      exact Interval.abs_sub_le_width hvx hwy

/-! ## The influence of a row -/

/-- A number bounds the influence of one row on an aggregate: on rows within the bounds declared for
the columns, no more of them than a list can have, adding, removing or changing one row moves the
number of the aggregate no further. -/
def BoundsInfluence (scope : Scope ℝ) (a : Expr ℝ) (s : ℝ) : Prop :=
  ∀ rows rows' : List (Bindings ℝ), OneRowApart rows rows' → (∀ b ∈ rows, scope.Conforms b) →
    (∀ b ∈ rows', scope.Conforms b) → rows.length < 2 ^ 63 → rows'.length < 2 ^ 63 →
    ∀ x x', AggregateNumber a rows x → AggregateNumber a rows' x' → |x - x'| ≤ s

/-- A number bounds what an aggregate of a single row can be. -/
def BoundsSingle (scope : Scope ℝ) (a : Expr ℝ) (s : ℝ) : Prop :=
  ∀ b x, scope.Conforms b → AggregateNumber a [b] x → |x| ≤ s

/-- One row moves a count by 1 at most. -/
theorem boundsInfluence_count (scope : Scope ℝ) (ha : a.function? = some .count) :
    BoundsInfluence scope a 1 := by
  intro rows rows' hapart _ _ hlength hlength' x x' hx hx'
  obtain ⟨vs, hvs, rfl⟩ := (aggregateNumber_count ha hlength).mp hx
  obtain ⟨vs', hvs', rfl⟩ := (aggregateNumber_count ha hlength').mp hx'
  refine hapart.abs_sub_sum_le hvs hvs' (fun b _ v _ => ?_) (fun b _ b' _ v v' _ _ => ?_)
  · unfold countUnit
    split <;> norm_num
  · rw [countUnit, countUnit]
    split <;> split <;> norm_num

/-- The influence of a row on a sum or an extremum is bounded by the width of the bounds, as soon as
what the first row brings is. -/
theorem boundsInfluence_of_single {f : AggregateFunction} (hf : f = .sum ∨ f.IsExtremum)
    (hi : e.bounds scope = some i) (hsingle : BoundsSingle scope (.aggregate f e) i.width) :
    BoundsInfluence scope (.aggregate f e) i.width := by
  intro rows rows' hapart hrows hrows' _ _ x x' hx hx'
  have hwithin : ∀ b, scope.Conforms b → ∀ v, cell b e = .ok v → v.Within i :=
    fun b hb v hv => cell_within hb hi hv
  have hone : ∀ b, scope.Conforms b → ∀ v, cell b e = .ok v → |v.exact| ≤ i.width := by
    intro b hb v hv
    exact hsingle b _ hb (aggregateNumber_single hf hv (hwithin b hb v hv).isNumeric)
  have htwo : ∀ b b', scope.Conforms b → scope.Conforms b' → ∀ v v', cell b e = .ok v →
      cell b' e = .ok v' → |v.exact - v'.exact| ≤ i.width := by
    intro b b' hb hb' v v' hv hv'
    exact (hwithin b hb v hv).abs_sub_le (hwithin b' hb' v' hv') (hone b hb v hv)
      (hone b' hb' v' hv')
  have hconforms : ∀ b ∈ rows ++ rows', scope.Conforms b := by
    intro b hb
    rcases List.mem_append.mp hb with hleft | hright
    · exact hrows b hleft
    · exact hrows' b hright
  rcases hf with rfl | hf
  · obtain ⟨vs, hvs, rfl⟩ := aggregateNumber_sum hx
    obtain ⟨vs', hvs', rfl⟩ := aggregateNumber_sum hx'
    exact hapart.abs_sub_sum_le hvs hvs' (fun b hb v hv => hone b (hconforms b hb) v hv)
      fun b hb b' hb' v v' hv hv' => htwo b b' (hrows b hb) (hrows' b' hb') v v' hv hv'
  · -- Both extrema are values of some rows, whether or not these are the rows that differ.
    rcases aggregateNumber_extremum hf hx with rfl | ⟨b, hb, v, hv, -, -, rfl⟩
    · rcases aggregateNumber_extremum hf hx' with rfl | ⟨b', hb', v', hv', -, -, rfl⟩
      · have hwidth : 0 ≤ i.width := by
          obtain ⟨b, hb | hb⟩ := hapart.exists_mem
          · obtain ⟨v, hv⟩ := hx.exists_input hb
            exact le_trans (abs_nonneg _) (hone b (hrows b hb) v hv)
          · obtain ⟨v, hv⟩ := hx'.exists_input hb
            exact le_trans (abs_nonneg _) (hone b (hrows' b hb) v hv)
        rwa [sub_zero, abs_zero]
      · rw [zero_sub, abs_neg]
        exact hone b' (hrows' b' hb') v' hv'
    · rcases aggregateNumber_extremum hf hx' with rfl | ⟨b', hb', v', hv', -, -, rfl⟩
      · rw [sub_zero]
        exact hone b (hrows b hb) v hv
      · exact htwo b b' (hrows b hb) (hrows' b' hb') v v' hv hv'

/-- A number as the value of a column, `NULL` where it is not within the bounds declared. -/
noncomputable def Symbol.valueAt (x : ℝ) (s : Symbol ℝ) : Value ℝ :=
  match s.bounds with
  | some i => if i.contains x then .float x else .null
  | none => .null

theorem Symbol.valueAt_within {t : Symbol ℝ} (ht : t.bounds = some i) : (t.valueAt x).Within i := by
  rw [valueAt, ht]
  by_cases hx : i.contains x = true
  · simp only [hx, if_true]
    exact Value.within_of_number? rfl hx
  · simp only [hx]
    exact Value.within_null i

theorem Symbol.valueAt_eq {t : Symbol ℝ} (ht : t.bounds = some i) (hx : i.contains x = true) :
    t.valueAt x = .float x := by
  rw [valueAt, ht]
  simp only [hx, if_true]

/-- The row that has a number in all the columns where it is within the bounds. -/
noncomputable def Scope.rowAt (scope : Scope ℝ) (x : ℝ) : Bindings ℝ :=
  scope.columns.map (Symbol.valueAt x)

theorem Scope.related_rowAt (scope : Scope ℝ) (x : ℝ) :
    PathMap.Related (fun t v => v = Symbol.valueAt x t) scope.columns (scope.rowAt x) := by
  rw [PathMap.Related, rowAt, PathMap.map, List.forall₂_map_right_iff, List.forall₂_same]
  intro _ _
  exact ⟨rfl, rfl⟩

theorem Scope.conforms_rowAt (scope : Scope ℝ) (x : ℝ) : scope.Conforms (scope.rowAt x) := by
  refine List.Forall₂.imp ?_ (scope.related_rowAt x)
  rintro t v ⟨hpath, hv⟩
  refine ⟨hpath, fun i hi => ?_⟩
  rw [hv]
  exact Symbol.valueAt_within hi

/-- Every number within the bounds of a column is its value on some row. -/
theorem cell_rowAt {id : Identifier} (hi : (Expr.column id).bounds scope = some i)
    (hx : i.contains x = true) : cell (scope.rowAt x) (.column id) = .ok (.float x) := by
  unfold Expr.bounds at hi
  split at hi
  · rename_i t ht
    obtain ⟨v, hv, rfl⟩ := Scope.find_of_resolve (scope.related_rowAt x) ht
    rw [cell, Expr.evaluate, hv, Symbol.valueAt_eq hi hx]
  · cases hi

/-- An aggregate with a sensitivity has a number wherever it has a value. -/
theorem exists_aggregateNumber (h : a.sensitivity scope = some s)
    (hrows : ∀ b ∈ rows, scope.Conforms b) {state : Accumulator ℝ}
    (hstate : aggregateRun a rows = .ok state) : ∃ x, AggregateNumber a rows x := by
  suffices hnumeric : state.result.IsNumeric from
    ⟨_, state, hstate, exactNumber_eq_ok.mpr ⟨hnumeric, rfl⟩⟩
  obtain ⟨vs, hvs, hrun⟩ := aggregateRun_eq_ok.mp hstate
  rcases sensitivity_cases h with ⟨ha, -⟩ | ⟨f, e, i, rfl, hf, hi, -⟩
  · rw [emptyState, ha] at hrun
    cases (Accumulator.updateAll_count 0 vs).symm.trans hrun
    exact .inr rfl
  · rcases hf with rfl | hf
    · obtain ⟨total, htotal, rfl⟩ := Accumulator.updateAll_sum hrun
      exact (Accumulator.foldlM_addToSum htotal).2.2.1 (.inl rfl)
    · obtain ⟨keep, hkeep⟩ := hf.emptyState e
      rw [hkeep] at hrun
      obtain ⟨v, rfl, hmem, -⟩ := Accumulator.mem_of_updateAll_extremum hrun
      rcases List.mem_cons.mp hmem with rfl | htail
      · exact .inl rfl
      · obtain ⟨b, hzip, hv⟩ := exists_element_of_mem hvs htail
        exact (cell_within (hrows b (List.of_mem_zip hzip).1) hi hv).isNumeric

/-- A table with one column of amounts, whose bounds are declared. -/
noncomputable def amountScope (i : Interval ℝ) : Scope ℝ :=
  relationScope ["t"] [⟨"amount", .float, some i⟩]

/-- The total of the amounts. -/
noncomputable def amountSum : Expr ℝ := .aggregate .sum (.column ⟨"amount"⟩)

theorem bounds_amount (i : Interval ℝ) :
    (Expr.column ⟨"amount"⟩).bounds (amountScope i) = some i := by
  have hparts : (Identifier.mk "amount").parts = ["amount"] := by decide
  have hlower : Text.toLower "t" = "t" ∧ Text.toLower "amount" = "amount" := by decide
  have hresolve : (amountScope i).resolve ⟨"amount"⟩ = .ok ⟨"amount", .float, some i⟩ := by
    rw [Scope.resolve_eq_ok, Identifier.splitAlias, hparts]
    refine ⟨⟨_, rfl⟩, ["t", "amount"], ?_⟩
    simp [amountScope, relationScope, PathMap.ofList, PathMap.insertAll, PathMap.insert,
      PathMap.insertEntry, PathMap.empty, PathMap.findEntry, Path.normalize, hlower, Found.also]
  rw [Expr.bounds, hresolve]

theorem sensitivity_amountSum (i : Interval ℝ) :
    amountSum.sensitivity (amountScope i) = some i.width := by
  rw [amountSum, Expr.sensitivity, bounds_amount]
  rfl

/-- **When the sensitivity bounds the influence of a row.**  An aggregate with a sensitivity has a
number on all rows within the declared bounds.  Its sensitivity bounds the influence of one row
exactly when it bounds what the first row brings: always for a count, and for a sum or an extremum
when 0 is within the bounds of the argument.  For a column no other bounds will do. -/
theorem Expr.sensitivity_bounds_influence (scope : Scope ℝ) (a : Expr ℝ) (s : ℝ)
    (h : a.sensitivity scope = some s) :
    (∀ rows state, (∀ b ∈ rows, scope.Conforms b) → aggregateRun a rows = .ok state →
      ∃ x, AggregateNumber a rows x) ∧
    (BoundsInfluence scope a s ↔ BoundsSingle scope a s) ∧
    (a.function? = some .count → BoundsInfluence scope a s) ∧
    (∀ f e i, a = .aggregate f e → e.bounds scope = some i → i.contains 0 = true →
      BoundsInfluence scope a s) ∧
    (∀ f id i, a = .aggregate f (.column id) → f ≠ .count →
      (Expr.column id).bounds scope = some i → i.lower ≤ i.upper →
      (BoundsInfluence scope a s ↔ i.contains 0 = true)) := by
  have hexact : BoundsInfluence scope a s ↔ BoundsSingle scope a s := by
    constructor
    · intro hbound b x hb hx
      have hstep := hbound [] [b] (.added [] b []) (by simp) (by simpa using hb) (by simp) (by simp)
        0 x (aggregateNumber_nil h) hx
      rwa [zero_sub, abs_neg] at hstep
    · intro hsingle
      rcases sensitivity_cases h with ⟨ha, rfl⟩ | ⟨f, e, i, rfl, hf, hi, rfl⟩
      · exact boundsInfluence_count scope ha
      · exact boundsInfluence_of_single hf hi hsingle
  have hcount : a.function? = some .count → BoundsInfluence scope a s := by
    intro ha
    rcases sensitivity_cases h with ⟨-, rfl⟩ | ⟨f, e, i, rfl, hf, -, -⟩
    · exact boundsInfluence_count scope ha
    · cases ha
      rcases hf with hf | hf | hf <;> cases hf
  have hzero : ∀ f e i, a = .aggregate f e → e.bounds scope = some i → i.contains 0 = true →
      BoundsInfluence scope a s := by
    rintro f e i rfl hi hcontains
    rcases sensitivity_cases h with ⟨ha, -⟩ | ⟨f', e', i', hsame, hf, hi', rfl⟩
    · exact hcount ha
    · cases hsame
      cases hi.symm.trans hi'
      apply boundsInfluence_of_single hf hi
      intro b x hb hx
      obtain ⟨v, hv⟩ := hx.exists_input List.mem_cons_self
      have hwithin := cell_within hb hi hv
      rw [hx.unique (aggregateNumber_single hf hv hwithin.isNumeric)]
      exact hwithin.abs_exact_le hcontains
  refine ⟨fun rows state hrows hstate => exists_aggregateNumber h hrows hstate, hexact, hcount, hzero,
    ?_⟩
  rintro f id i rfl hf hi hle
  refine ⟨fun hbound => ?_, hzero f (.column id) i rfl hi⟩
  rcases sensitivity_cases h with ⟨ha, -⟩ | ⟨f', e', i', hsame, hf', hi', rfl⟩
  · cases ha
    exact absurd rfl hf
  · cases hsame
    cases hi.symm.trans hi'
    by_contra hzero
    obtain ⟨x, hx, hlarge⟩ := Interval.exists_width_lt_abs hzero hle
    have hnumber := aggregateNumber_single hf' (cell_rowAt hi hx) (.inr rfl)
    have hsmall := hexact.mp hbound _ _ (scope.conforms_rowAt x) hnumber
    rw [Value.exact_eq rfl] at hsmall
    linarith

/-- Amounts from 0 to 100: one row moves their total by 100 at most, as its sensitivity says. -/
theorem Expr.sensitivity_bounds_amounts :
    amountSum.sensitivity (amountScope ⟨0, 100⟩) = some 100 ∧
      BoundsInfluence (amountScope ⟨0, 100⟩) amountSum 100 := by
  have hwidth : (⟨0, 100⟩ : Interval ℝ).width = 100 := by rw [Interval.width_eq]; norm_num
  have hsensitivity := sensitivity_amountSum ⟨0, 100⟩
  rw [hwidth] at hsensitivity
  refine ⟨hsensitivity, ?_⟩
  refine (Expr.sensitivity_bounds_influence _ amountSum 100 hsensitivity).2.2.2.1 .sum _ ⟨0, 100⟩ rfl
    (bounds_amount _) ?_
  rw [Interval.contains_iff]
  norm_num

/-- Amounts from 50 to 100: the first row brings more to their total than its sensitivity. -/
theorem Expr.sensitivity_misses_first_row :
    amountSum.sensitivity (amountScope ⟨50, 100⟩) = some 50 ∧
      (amountScope ⟨50, 100⟩).Conforms ((amountScope ⟨50, 100⟩).rowAt 100) ∧
      AggregateNumber amountSum [] 0 ∧
      AggregateNumber amountSum [(amountScope ⟨50, 100⟩).rowAt 100] 100 ∧
      ¬ |(0 : ℝ) - 100| ≤ 50 ∧ ¬ BoundsInfluence (amountScope ⟨50, 100⟩) amountSum 50 := by
  have hwidth : (⟨50, 100⟩ : Interval ℝ).width = 50 := by rw [Interval.width_eq]; norm_num
  have hsensitivity := sensitivity_amountSum ⟨50, 100⟩
  rw [hwidth] at hsensitivity
  have hconforms := (amountScope ⟨50, 100⟩).conforms_rowAt 100
  have hcontains : (⟨50, 100⟩ : Interval ℝ).contains 100 = true := by
    rw [Interval.contains_iff]
    norm_num
  have hnone := aggregateNumber_nil hsensitivity
  have hone : AggregateNumber amountSum [(amountScope ⟨50, 100⟩).rowAt 100] 100 :=
    aggregateNumber_single (.inl rfl) (cell_rowAt (bounds_amount _) hcontains) (.inr rfl)
  have hfar : ¬ |(0 : ℝ) - 100| ≤ 50 := by norm_num
  refine ⟨hsensitivity, hconforms, hnone, hone, hfar, fun hbound => hfar ?_⟩
  exact hbound [] _ (.added [] _ []) (by simp) (by simpa using hconforms) (by simp) (by simp) 0 100
    hnone hone

end PrivateSql
