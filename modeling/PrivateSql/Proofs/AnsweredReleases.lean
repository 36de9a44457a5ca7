import PrivateSql.Proofs.NoisedRows
import PrivateSql.Proofs.RoundedCounts
import PrivateSql.Proofs.Summaries
/-!
# Releases that are answered

Whatever words noise is drawn from, the rows that it leaves are noised rows in the sense of their plan: a
count is rounded to an integer that is not negative, and any other aggregate is an integer or a number.
So a summary is answered as soon as its rows are noised.

* `Calibration.isReleased_cellOf` — the cell that any noisy number is released as;
* `Preparation.isReleasable_of_noised` — the rows that noise leaves;
* `PrivateReader.exists_release` — a summary whose rows are noised is answered.
-/

namespace PrivateSql

/-! ## The cell of a noisy number -/

namespace Binary64

/-- A number whose place is not negative is not negative as a word. -/
theorem toInt64_nonneg {x : Binary64} (hx : x.isNaN = false) (h : 0 ≤ x.place) :
    0 ≤ x.toInt64.toInt := by
  have hclamped : ∀ n : Nat, 0 ≤ (clampToInt64 n).toInt := by
    intro n
    rw [toInt_clampToInt64]
    omega
  rw [toInt64, hx]
  cases hneg : x.isNegative with
  | false =>
      simp only [Bool.false_eq_true, if_false]
      split
      · exact hclamped _
      · decide
  | true =>
      -- Only the negative zero is left.
      have hmagnitude : x.magnitude = 0 := by
        rw [place, hneg, if_pos rfl] at h
        omega
      have hsignificand : x.significand = 0 := by
        simp [significand, exponentField, hmagnitude]
      have hwhole : x.wholePart = 0 := by
        rw [wholePart, hsignificand, Nat.zero_mul, Nat.zero_div, ite_self]
      have hfinite : x.isFinite = true := by
        rw [isFinite, hmagnitude]
        decide
      simp only [Bool.false_eq_true, if_false, hfinite, if_true, hwhole]
      exact hclamped 0

/-- The larger one of a number and 0 is not negative as a word. -/
theorem toInt64_maximum_nonneg (x : Binary64) :
    0 ≤ (Number.toInt64 (Number.maximum x Number.zero)).toInt := by
  have hplace : (Binary64.ofInt 0).place = 0 := rfl
  have hzero : 0 ≤ (Number.toInt64 (Number.zero : Binary64)).toInt :=
    toInt64_nonneg (isNaN_ofInt 0) hplace.ge
  unfold Number.maximum
  split
  · exact hzero
  · rename_i hx
    split
    · rename_i hnan
      exact absurd hnan (by decide)
    · split
      · exact hzero
      · rename_i hlt
        have hx : x.isNaN = false := Bool.eq_false_iff.mpr hx
        have hlt : ¬ Binary64.lt x (Binary64.ofInt 0) = true := hlt
        refine toInt64_nonneg hx ?_
        simpa [Binary64.lt, hx, isNaN_ofInt, hplace] using hlt

end Binary64

/-- **Any noisy number is released** as its column can be. -/
theorem Calibration.isReleased_cellOf (c : Calibration Binary64) (noisy : Binary64) :
    (c.cellOf noisy).IsReleased c.function := by
  by_cases hc : c.function = .count
  · rw [cellOf_count hc, Value.IsReleased, if_pos hc]
    exact ⟨_, rfl, Binary64.toInt64_maximum_nonneg _⟩
  · rw [Value.IsReleased, if_neg hc]
    unfold cellOf
    split <;> rfl

/-! ## The rows that noise leaves -/

section Preparations

variable {q : Query Binary64} {d : Dataset Binary64} {p : Preparation Binary64} {b : Budget Binary64}
variable {m : Mechanism} {cs : List (Calibration Binary64)}

/-- The cell of an aggregate of the inner query is that of a noised column. -/
theorem Plan.exists_column_of_item {catalog : Catalog Binary64} {plan : Plan Binary64}
    (h : Plan.of q catalog = .ok plan) {k : Nat} {item : SelectItem Binary64} {f : AggregateFunction}
    (hitem : plan.inner.select[k]? = some item) (hf : item.expr.function? = some f) :
    ∃ i column, k = plan.keys.length + i ∧ plan.columns[i]? = some column ∧ column.function = f := by
  obtain ⟨scope, table, recombined, hbound, -, -, -, rfl⟩ := Plan.of_eq_ok h
  have hkeys : (assemble q scope table recombined).keys.length = q.groupBy.length := by
    simp [assemble]
  rw [hkeys]
  rcases Nat.lt_or_ge k q.groupBy.length with hlt | hge
  · -- A key has no aggregate.
    obtain ⟨key, hkey, rfl⟩ : ∃ key ∈ q.groupBy, .of key (some (keyName key)) = item := by
      simp only [assemble, innerQuery] at hitem
      rw [List.getElem?_append_left (by simpa using hlt), List.getElem?_map,
        Option.map_eq_some_iff] at hitem
      obtain ⟨key, hget, rfl⟩ := hitem
      exact ⟨key, List.mem_of_getElem? hget, rfl⟩
    have hagg : key.isAggregate = true := by
      cases key <;> first | rfl | cases hf
    have hself : key ∈ key.aggregates :=
      List.mem_filter.mpr ⟨Expr.mem_subterms_self key, hagg⟩
    rw [hbound.groupBy key hkey] at hself
    cases hself
  · obtain ⟨i, rfl⟩ := Nat.exists_eq_add_of_le hge
    simp only [assemble, innerQuery] at hitem
    rw [List.getElem?_append_right (by simp), List.length_map, Nat.add_sub_cancel_left,
      List.getElem?_map, Option.map_eq_some_iff] at hitem
    obtain ⟨e, he, rfl⟩ := hitem
    refine ⟨i, ⟨e, e.dataType scope, e.sensitivity scope⟩, rfl, ?_, NoisedColumn.function_eq hf⟩
    simp [assemble, he]

/-- **Noise leaves noised rows.** -/
theorem Preparation.isReleasable_of_noised (h : Preparation.of q d = .ok p)
    (hcs : p.plan.calibrate b m = .ok cs) {w w' : Words} {noised : List (List (Value Binary64))}
    (hnoised : (noiseRows cs m p.exact.rows).Gives w noised w') :
    ∀ row ∈ noised, p.plan.IsReleasable row := by
  intro out hout
  have hwidth := Preparation.width_of_noised h hcs hnoised out hout
  obtain ⟨row, hrow, w₁, w₂, hreleased⟩ :=
    exists_left_of_forall₂ (Preparation.forall₂_of_gives_noiseRows h hcs hnoised) hout
  have hlength := Plan.length_of_calibrate hcs
  have hrowWidth : row.length = p.plan.keys.length + cs.length := by
    rw [Preparation.width_of_exact h row hrow, hlength]
  refine ⟨by simp [Plan.exactNames, hwidth], ?_⟩
  rintro ⟨item, v⟩ hzip f hf
  obtain ⟨k, hk⟩ := List.mem_iff_getElem?.mp hzip
  obtain ⟨hitem, hv⟩ := List.getElem?_zip_eq_some.mp hk
  obtain ⟨i, column, rfl, hcolumn, hfunction⟩ :=
    Plan.exists_column_of_item (Preparation.of_eq_ok.mp h).1 hitem hf
  obtain ⟨hi, -⟩ := List.getElem?_eq_some_iff.mp hcolumn
  rw [← hlength] at hi
  obtain ⟨n, hn⟩ := Plan.exists_composition hcs
  obtain ⟨column', hcolumn', -, -, hcalibrated, -⟩ :=
    Plan.exists_column_of_calibrate hn hcs (List.getElem?_eq_getElem hi)
  obtain rfl := Option.some.inj (hcolumn.symm.trans hcolumn')
  obtain ⟨noisy, hnoisy⟩ :=
    exists_cell_of_releasedRow hrowWidth hreleased (List.getElem?_eq_getElem hi)
  obtain rfl := Option.some.inj (hv.symm.trans hnoisy)
  rw [← hfunction, ← hcalibrated]
  exact Calibration.isReleased_cellOf _ noisy

end Preparations

namespace PrivateReader

variable {r : PrivateReader Binary64} {p : Preparation Binary64}

/-- The rows that the outer query reads are noised rows. -/
theorem isReleasable_of_noisyRows {q : Query Binary64} (h : Preparation.of q r.dataset = .ok p)
    {w w' : Words} {rows : List (List (Value Binary64))} (hrows : (r.noisyRows p).Gives w rows w') :
    ∀ row ∈ rows, p.plan.IsReleasable row := by
  obtain ⟨cs, noised, _, hcs, hnoised, hmem⟩ := exists_noised_of_noisyRows hrows
  exact fun row hrow => Preparation.isReleasable_of_noised h hcs hnoised row (hmem row hrow)

/-- **A summary is answered** as soon as its rows are noised, from any words, as long as names hide
nothing. -/
theorem exists_release {q : Query Binary64} {scope : Scope Binary64}
    (h : Preparation.of q r.dataset = .ok p) (hscope : q.bind r.dataset.catalog = .ok scope)
    (hsummary : q.IsSummary scope) (hfree : p.plan.IsCollisionFree q)
    (hkeeps : p.plan.KeepsFormulas q scope) {w w' : Words} {rows : List (List (Value Binary64))}
    (hrows : (r.noisyRows p).Gives w rows w') :
    ∃ answer, (r.release p).Gives w answer w' ∧ answer.names = q.names := by
  obtain ⟨table, recombined, hp, hplanned⟩ :=
    Plan.plannedSummary_of hscope (Preparation.of_eq_ok.mp h).1 hsummary hfree hkeeps
  have hreleasable := isReleasable_of_noisyRows h hrows
  rw [hp] at hreleasable
  obtain ⟨given, ordered, -, -, hanswer⟩ := hplanned.execute tellsZero_binary64 hreleasable
  refine ⟨⟨q.names, q.rowLimit.elim ordered ordered.take⟩,
    Drawing.gives_bind.mpr ⟨rows, w', hrows, ?_⟩, rfl⟩
  rw [hp, hanswer]
  exact Drawing.gives_pure.mpr ⟨rfl, rfl⟩

end PrivateReader

end PrivateSql
