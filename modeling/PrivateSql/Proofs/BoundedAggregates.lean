import Mathlib.Algebra.Order.BigOperators.Group.List
import PrivateSql.Proofs.Influence
/-!
# Aggregates lie in the inferred bounds

The bounds inferred for an expression are also those of its minimum, its maximum and its mean.  The
first two are values of the argument, the last lies between its values, so all three are right as soon
as the bounds of the argument are.

* `Accumulator.updateAll_extremum_within`, `Accumulator.updateAll_mean_within` — accumulators fed with
  values of an interval, one of which is not `NULL`;
* `aggregateRun_within` — an aggregate of rows that conform to the declared bounds;
* `Expr.bounds_enclose` — bounds hold of the values of an expression and of its aggregates.
-/

namespace PrivateSql

/-! ## Accumulators fed with values of an interval -/

/-- The mean of some numbers of an interval. -/
theorem Interval.contains_mean {i : Interval ℝ} {xs : List ℝ} (hne : xs ≠ [])
    (h : ∀ x ∈ xs, i.contains x = true) : i.contains (xs.sum / xs.length) = true := by
  have hlength : (0 : ℝ) < xs.length := by exact_mod_cast List.length_pos_iff.mpr hne
  rw [contains_iff, le_div_iff₀' hlength, div_le_iff₀' hlength, ← nsmul_eq_mul, ← nsmul_eq_mul]
  exact ⟨List.card_nsmul_le_sum xs i.lower fun x hx => (contains_iff.mp (h x hx)).1,
    List.sum_le_card_nsmul xs i.upper fun x hx => (contains_iff.mp (h x hx)).2⟩

namespace Accumulator

/-- An extremum never fails. -/
theorem exists_updateAll_extremum {N : Type} [Number N] (keep : Ordering) (value : Value N)
    (vs : List (Value N)) : ∃ v, (extremum keep value).updateAll vs = .ok (extremum keep v) := by
  induction vs generalizing value with
  | nil => exact ⟨value, rfl⟩
  | cons v vs ih =>
      rw [updateAll, List.foldlM_cons, update, ok_bind]
      exact ih _

variable {i : Interval ℝ} {vs : List (Value ℝ)}

/-- The extremum of values within an interval, one of which is not `NULL`, is a number of it. -/
theorem updateAll_extremum_within (keep : Ordering) (hvs : ∀ v ∈ vs, v.Within i)
    (hsome : ∃ v ∈ vs, v ≠ .null) :
    ∃ state x, (extremum keep .null).updateAll vs = .ok state ∧ state.result.number? = some x ∧
      i.contains x = true := by
  obtain ⟨w, hw⟩ := exists_updateAll_extremum keep (.null : Value ℝ) vs
  obtain ⟨v, heq, hmem, hnull⟩ := mem_of_updateAll_extremum hw
  cases heq
  obtain ⟨u, hu, hunull⟩ := hsome
  have hne : w ≠ .null := by
    rintro rfl
    have hall := hnull rfl u (List.mem_cons_of_mem _ hu)
    cases u <;> simp [Value.isNull] at hall hunull
  have htail : w ∈ vs := (List.mem_cons.mp hmem).resolve_left hne
  obtain ⟨x, hx, hcontains⟩ := (hvs w htail).resolve_left hne
  exact ⟨_, x, hw, hx, hcontains⟩

/-- The mean of values within an interval, one of which is not `NULL`, is a number of it. -/
theorem updateAll_mean_within (hvs : ∀ v ∈ vs, v.Within i) (hsome : ∃ v ∈ vs, v ≠ .null) :
    ∃ state x, (fresh .mean).updateAll vs = .ok state ∧ state.result.number? = some x ∧
      i.contains x = true := by
  have hnumbers : ∀ x ∈ numbersOf vs, i.contains x = true := by
    intro x hx
    obtain ⟨v, hv, hvx⟩ := List.mem_filterMap.mp hx
    exact (hvs v hv).contains hvx
  have hne : numbersOf vs ≠ [] := by
    obtain ⟨v, hv, hnull⟩ := hsome
    obtain ⟨x, hx, -⟩ := (hvs v hv).resolve_left hnull
    exact List.ne_nil_of_mem (List.mem_filterMap.mpr ⟨v, hv, hx⟩)
  refine ⟨_, (numbersOf vs).sum / (numbersOf vs).length, by rw [fresh, updateAll_moments], ?_,
    Interval.contains_mean hne hnumbers⟩
  rw [result, if_neg (by simpa using hne)]
  simp [statisticOf, Value.number?]

end Accumulator

/-! ## Aggregates of rows -/

variable {scope : Scope ℝ} {e : Expr ℝ} {i : Interval ℝ} {f : AggregateFunction}

/-- The functions whose aggregates lie in the bounds of their argument. -/
def AggregateFunction.keepsBounds (f : AggregateFunction) : Prop := f = .min ∨ f = .max ∨ f = .mean

/-- **Aggregates lie in the bounds of their argument.**  Over rows within the declared bounds, a
minimum, a maximum or a mean succeeds when its argument does, and is a number of the bounds as soon
as one value of the argument is not `NULL`. -/
theorem aggregateRun_within {rows : List (Bindings ℝ)} {vs : List (Value ℝ)}
    (hi : e.bounds scope = some i) (hf : f.keepsBounds) (hrows : ∀ b ∈ rows, scope.Conforms b)
    (hvs : inputsOf (.aggregate f e) rows = .ok vs) (hsome : ∃ v ∈ vs, v ≠ .null) :
    ∃ state x, aggregateRun (.aggregate f e) rows = .ok state ∧ state.result.number? = some x ∧
      i.contains x = true := by
  have hwithin : ∀ v ∈ vs, v.Within i := by
    intro v hv
    obtain ⟨b, hzip, hb⟩ := exists_element_of_mem hvs hv
    exact cell_within (hrows b (List.of_mem_zip hzip).1) hi hb
  have hfed : ∃ state x, (emptyState (.aggregate f e)).updateAll vs = .ok state ∧
      state.result.number? = some x ∧ i.contains x = true := by
    rcases hf with rfl | rfl | rfl
    · exact Accumulator.updateAll_extremum_within .lt hwithin hsome
    · exact Accumulator.updateAll_extremum_within .gt hwithin hsome
    · exact Accumulator.updateAll_mean_within hwithin hsome
  obtain ⟨state, x, hstate, hx⟩ := hfed
  exact ⟨state, x, aggregateRun_eq_ok.mpr ⟨vs, hvs, hstate⟩, hx⟩

/-- The same for an accumulator of a group of a query. -/
theorem result_within_of_mem_group {q : Query ℝ} {rows : List (Bindings ℝ)}
    {groups : List (Group ℝ)} {g : Group ℝ} {state : Accumulator ℝ} (hi : e.bounds scope = some i)
    (hf : f.keepsBounds) (hrows : ∀ b ∈ rows, scope.Conforms b)
    (hgroups : queryGroups q rows = .ok groups) (hg : g ∈ groups)
    (hstate : (.aggregate f e, state) ∈ q.aggregates.zip g.states)
    (hsome : ∃ b ∈ rowsWithKey q.groupBy g.key rows, cell b e ≠ .ok .null) :
    ∃ x, state.result.number? = some x ∧ i.contains x = true := by
  have hrun := eq_ok_of_mem_zip (group_of_mem hgroups hg).states hstate
  obtain ⟨vs, hvs, -⟩ := aggregateRun_eq_ok.mp hrun
  obtain ⟨b, hb, hnull⟩ := hsome
  obtain ⟨v, hzip, hv⟩ := exists_result_of_mem hvs hb
  have hv : cell b e = .ok v := hv
  have hvnull : v ≠ .null := by
    rintro rfl
    exact hnull hv
  obtain ⟨state', x, hrun', hx⟩ := aggregateRun_within hi hf
    (fun b hb => hrows b (mem_rowsWithKey.mp hb).1) hvs ⟨v, (List.of_mem_zip hzip).2, hvnull⟩
  cases hrun.symm.trans hrun'
  exact ⟨x, hx⟩

/-- **Bounds enclose.**  The bounds inferred for an expression enclose its number on every row within
the bounds declared for the columns.  They are also the bounds inferred for its minimum, its maximum
and its mean, and enclose those of any such rows, so those of any group of a query, where the argument
is not always `NULL`. -/
theorem Expr.bounds_enclose (hi : e.bounds scope = some i) :
    (∀ b v x, scope.Conforms b → e.evaluate b = .ok v → v.number? = some x →
        i.contains x = true) ∧
      ∀ f : AggregateFunction, f.keepsBounds →
        (Expr.aggregate f e).bounds scope = some i ∧
          (∀ rows vs, (∀ b ∈ rows, scope.Conforms b) → inputsOf (.aggregate f e) rows = .ok vs →
            (∃ v ∈ vs, v ≠ .null) → ∃ state x, aggregateRun (.aggregate f e) rows = .ok state ∧
              state.result.number? = some x ∧ i.contains x = true) ∧
          ∀ q rows groups g state, (∀ b ∈ rows, scope.Conforms b) →
            queryGroups q rows = .ok groups → g ∈ groups →
            (.aggregate f e, state) ∈ q.aggregates.zip g.states →
            (∃ b ∈ rowsWithKey q.groupBy g.key rows, cell b e ≠ .ok .null) →
            ∃ x, state.result.number? = some x ∧ i.contains x = true := by
  refine ⟨fun b v x hb hv hx => (evaluate_within hb hi hv).contains hx, fun f hf => ⟨?_, ?_, ?_⟩⟩
  · rcases hf with rfl | rfl | rfl <;> exact hi
  · intro rows vs hrows hvs hsome
    exact aggregateRun_within hi hf hrows hvs hsome
  · intro q rows groups g state hrows hgroups hg hstate hsome
    exact result_within_of_mem_group hi hf hrows hgroups hg hstate hsome

/-- The value of a column with bounds on the row of a number. -/
theorem evaluate_rowAt {id : Identifier} (hi : (Expr.column id).bounds scope = some i) (x : ℝ) :
    (Expr.column id).evaluate (scope.rowAt x) =
      .ok (if i.contains x = true then .float x else .null) := by
  unfold Expr.bounds at hi
  split at hi
  · rename_i t ht
    obtain ⟨v, hv, rfl⟩ := Scope.find_of_resolve (scope.related_rowAt x) ht
    rw [Expr.evaluate, hv, Symbol.valueAt, hi]
  · cases hi

/-- Amounts from 0 to 100 and a missing one: the negated amounts lie from -100 to 0, and so does
their mean. -/
theorem Expr.bounds_enclose_amounts :
    (Expr.unary "-" (.column ⟨"amount"⟩)).bounds (amountScope ⟨0, 100⟩) = some ⟨-100, 0⟩ ∧
      ∃ state x, aggregateRun (.aggregate .mean (.unary "-" (.column ⟨"amount"⟩)))
          [(amountScope ⟨0, 100⟩).rowAt 50, (amountScope ⟨0, 100⟩).rowAt 200] = .ok state ∧
        state.result.number? = some x ∧ (⟨-100, 0⟩ : Interval ℝ).contains x = true := by
  have hbounds : (Expr.unary "-" (.column ⟨"amount"⟩)).bounds (amountScope ⟨0, 100⟩) =
      some ⟨-100, 0⟩ := by
    rw [Expr.bounds, if_pos rfl, bounds_amount]
    simp [Interval.neg, Interval.of]
  have hinside : (⟨0, 100⟩ : Interval ℝ).contains 50 = true := by
    rw [Interval.contains_iff]
    norm_num
  have houtside : ¬ (⟨0, 100⟩ : Interval ℝ).contains 200 = true := by
    rw [Interval.contains_iff]
    norm_num
  have hamount := evaluate_rowAt (bounds_amount ⟨0, 100⟩)
  have hinputs : inputsOf (.aggregate .mean (.unary "-" (.column ⟨"amount"⟩)))
      [(amountScope ⟨0, 100⟩).rowAt 50, (amountScope ⟨0, 100⟩).rowAt 200] =
        .ok [.float (-50), .null] := by
    rw [inputsOf, mapM_eq_ok]
    refine .cons ?_ (.cons ?_ .nil)
    · rw [aggregateInput, cell, Expr.evaluate, hamount, if_pos hinside]
      rfl
    · rw [aggregateInput, cell, Expr.evaluate, hamount, if_neg houtside]
      rfl
  refine ⟨hbounds, ((Expr.bounds_enclose hbounds).2 .mean (.inr (.inr rfl))).2.1 _ _ ?_ hinputs
    ⟨.float (-50), List.mem_cons_self, by simp⟩⟩
  intro b hb
  rcases List.mem_cons.mp hb with rfl | hb
  · exact Scope.conforms_rowAt _ _
  · rw [List.mem_singleton.mp hb]
    exact Scope.conforms_rowAt _ _

end PrivateSql
