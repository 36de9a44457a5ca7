import PrivateSql.Proofs.BoundedEvaluation
import PrivateSql.Proofs.GroupPass
/-!
# The values of aggregates

An accumulator is fed with the values that the argument of its aggregate takes on the rows.  In exact
arithmetic its result is what the name of the aggregate says: a number of values, their sum, one of
them, or a statistic of their moments.

* `Accumulator.foldlM_addToSum`, `Accumulator.mem_of_updateAll_extremum`,
  `Accumulator.updateAll_moments` — what each accumulator holds after some values.
-/

namespace PrivateSql

section

variable {N : Type} [Number N]

namespace Accumulator

theorem updateAll_sum {total : Value N} {vs : List (Value N)} {state : Accumulator N}
    (h : (sum total).updateAll vs = .ok state) :
    ∃ total', vs.foldlM addToSum total = .ok total' ∧ state = sum total' := by
  unfold updateAll at h
  induction vs generalizing total with
  | nil =>
      cases h
      exact ⟨total, rfl, rfl⟩
  | cons v vs ih =>
      rw [List.foldlM_cons] at h
      obtain ⟨next, hnext, h⟩ := bind_eq_ok.mp h
      rw [update] at hnext
      cases hadd : addToSum total v with
      | error e =>
          rw [hadd] at hnext
          cases hnext
      | ok total₁ =>
          rw [hadd] at hnext
          cases hnext
          rw [List.foldlM_cons, hadd]
          exact ih h

/-- An extremum is one of the values, and `NULL` only when there is no other. -/
theorem mem_of_updateAll_extremum {keep : Ordering} {value : Value N} {vs : List (Value N)}
    {state : Accumulator N} (h : (extremum keep value).updateAll vs = .ok state) :
    ∃ v, state = extremum keep v ∧ v ∈ value :: vs ∧
      (v.isNull = true → ∀ w ∈ value :: vs, w.isNull = true) := by
  unfold updateAll at h
  induction vs generalizing value with
  | nil =>
      cases h
      exact ⟨value, rfl, List.mem_cons_self, by simp⟩
  | cons v vs ih =>
      rw [List.foldlM_cons, update, ok_bind] at h
      obtain ⟨r, hr, hmem, hnull⟩ := ih h
      by_cases hkeep : (!v.isNull && (value.isNull || v.compare? value == some keep)) = true
      · rw [if_pos hkeep] at hmem hnull
        refine ⟨r, hr, List.mem_cons_of_mem _ hmem, ?_⟩
        intro hrnull
        have hvnull := hnull hrnull v List.mem_cons_self
        simp [hvnull] at hkeep
      · rw [if_neg hkeep] at hmem hnull
        refine ⟨r, hr, ?_, ?_⟩
        · rcases List.mem_cons.mp hmem with hhead | htail
          · exact List.mem_cons.mpr (.inl hhead)
          · exact List.mem_cons_of_mem _ (List.mem_cons_of_mem _ htail)
        · intro hrnull w hw
          have hvalue := hnull hrnull value List.mem_cons_self
          rcases List.mem_cons.mp hw with rfl | hw
          · exact hvalue
          · rcases List.mem_cons.mp hw with rfl | htail
            · simpa [hvalue] using hkeep
            · exact hnull hrnull w (List.mem_cons_of_mem _ htail)

end Accumulator

end

/-! ## Exact arithmetic -/

namespace Value

/-- The number that a value counts for: anything that is not a number counts for 0. -/
noncomputable def exact (v : Value ℝ) : ℝ := v.number?.getD 0

@[simp] theorem exact_null : (null : Value ℝ).exact = 0 := rfl

theorem exact_eq {v : Value ℝ} {x : ℝ} (h : v.number? = some x) : v.exact = x := by
  rw [exact, h]
  rfl

/-- A value that is `NULL` or a number. -/
def IsNumeric (v : Value ℝ) : Prop := v = .null ∨ v.number?.isSome = true

end Value

/-- The numbers among some values. -/
noncomputable def numbersOf (vs : List (Value ℝ)) : List ℝ := vs.filterMap Value.number?

theorem sum_numbersOf (vs : List (Value ℝ)) : (numbersOf vs).sum = (vs.map Value.exact).sum := by
  induction vs with
  | nil => rfl
  | cons v vs ih =>
      rw [numbersOf, List.filterMap_cons, List.map_cons, List.sum_cons, ← ih]
      cases hv : v.number? with
      | none => simp [Value.exact, hv, numbersOf]
      | some x => simp [Value.exact, hv, numbersOf]

namespace Accumulator

/-- One more value for a sum that succeeds: it is `NULL` or a number, and its number is added. -/
theorem addToSum_exact {total v r : Value ℝ} (h : addToSum total v = .ok r) :
    r.exact = total.exact + v.exact ∧ v.IsNumeric ∧ (total.IsNumeric → r.IsNumeric) ∧
      (r = .null ↔ total = .null ∧ v = .null) := by
  unfold addToSum at h
  split at h
  · cases h
    exact ⟨by rw [Value.exact_null, add_zero], .inl rfl, id, by simp⟩
  · cases h
    exact ⟨by rw [Value.exact_null, zero_add], .inr rfl, fun _ => .inr rfl, by simp⟩
  · cases h
    exact ⟨by rw [Value.exact_null, zero_add], .inr rfl, fun _ => .inr rfl, by simp⟩
  · cases h
  · rename_i htotal hnull _ _
    split at h
    · rename_i s hadd
      cases h
      rcases Value.number?_add hadd with ⟨-, hleft | hright⟩ | ⟨x, y, hx, hy, hr⟩
      · exact absurd hleft htotal
      · exact absurd hright hnull
      · have hsome : r ≠ .null := by
          rintro rfl
          cases hr
        refine ⟨?_, .inr (by rw [hy]; rfl), fun _ => .inr (by rw [hr]; rfl), ?_⟩
        · rw [Value.exact_eq hx, Value.exact_eq hy, Value.exact_eq hr]
        · exact ⟨fun h => absurd h hsome, fun h => absurd h.1 htotal⟩
    · cases h

/-- **Sums.**  A sum that succeeds has met only `NULL` and numbers; it is their sum, and `NULL` when
there is no number. -/
theorem foldlM_addToSum {total r : Value ℝ} {vs : List (Value ℝ)}
    (h : vs.foldlM addToSum total = .ok r) :
    r.exact = total.exact + (numbersOf vs).sum ∧ (∀ v ∈ vs, v.IsNumeric) ∧
      (total.IsNumeric → r.IsNumeric) ∧ (r = .null ↔ total = .null ∧ ∀ v ∈ vs, v = .null) := by
  induction vs generalizing total with
  | nil =>
      cases h
      simp [numbersOf]
  | cons v vs ih =>
      rw [List.foldlM_cons] at h
      obtain ⟨next, hnext, h⟩ := bind_eq_ok.mp h
      obtain ⟨hsum, hnumeric, hkept, hnull⟩ := addToSum_exact hnext
      obtain ⟨ihsum, ihnumeric, ihkept, ihnull⟩ := ih h
      refine ⟨?_, ?_, fun htotal => ihkept (hkept htotal), ?_⟩
      · rw [ihsum, hsum, sum_numbersOf, sum_numbersOf, List.map_cons, List.sum_cons, add_assoc]
      · intro w hw
        rcases List.mem_cons.mp hw with rfl | htail
        · exact hnumeric
        · exact ihnumeric w htail
      · rw [ihnull, hnull, List.forall_mem_cons, and_assoc]

/-- **Moments.**  The number of the numbers, their sum and the sum of their squares. -/
theorem updateAll_moments (s : Statistic) (n : Nat) (total squares : ℝ) (vs : List (Value ℝ)) :
    (moments s n total squares).updateAll vs =
      .ok (moments s (n + (numbersOf vs).length) (total + (numbersOf vs).sum)
        (squares + ((numbersOf vs).map fun x => x * x).sum)) := by
  unfold updateAll
  induction vs generalizing n total squares with
  | nil => simp [numbersOf, pure, Except.pure]
  | cons v vs ih =>
      rw [List.foldlM_cons, update]
      cases hv : v.number? with
      | none =>
          simp only [ok_bind]
          rw [ih, numbersOf, numbersOf, List.filterMap_cons, hv]
      | some x =>
          simp only [ok_bind]
          rw [ih]
          simp only [numbersOf, List.filterMap_cons, hv, List.length_cons, List.sum_cons,
            List.map_cons, add_assoc, Nat.add_comm 1]

end Accumulator

end PrivateSql
