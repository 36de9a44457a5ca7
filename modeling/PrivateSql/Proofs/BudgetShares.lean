import Mathlib.Analysis.SpecialFunctions.Pow.Real
import PrivateSql.Privacy.Release
import PrivateSql.Proofs.CalibratedColumns
import PrivateSql.Proofs.EventComposition
import PrivateSql.Proofs.ExactNumbers
import PrivateSql.Proofs.InnerRows
import PrivateSql.Proofs.RowRemoval
/-!
# Shares of the budget

The budget of a query is shared by its noised columns and its repetitions: each column of positive
sensitivity is released with one draw of noise whose multiplier is the number of the shares over the
budget, and the event of the release is made of these draws, without the ones that have no impact.  So
the shares add up to no more than the budget.

* `PrivacyEvent.laplaceCost` — what a draw costs of the budget;
* `elementary_calibrationEvent` — the events of calibrated columns;
* `PrivateReader.event_shares` — the calibrations and the event of a plan, and what they cost.
-/

namespace PrivateSql

namespace PrivacyEvent

/-- What an elementary event costs of the budget: for a draw of Laplace noise, one over its
multiplier. -/
noncomputable def laplaceCost : PrivacyEvent ℝ → ℝ
  | .laplace m => 1 / m
  | _ => 0

end PrivacyEvent

/-! ## The event of calibrated columns -/

/-- The multiplier of a scale that is a multiple of a positive sensitivity. -/
theorem noiseMultiplier_of_pos {s share : ℝ} (hs : 0 < s) : noiseMultiplier (s * share) s = share := by
  rw [noiseMultiplier, if_pos (by rw [exact_lt, exact_zero]; exact hs)]
  exact mul_div_cancel_left₀ share hs.ne'

theorem noiseMultiplier_of_not_pos {s scale : ℝ} (hs : ¬ 0 < s) : noiseMultiplier scale s = 0 := by
  rw [noiseMultiplier, if_neg (by rw [exact_lt, exact_zero]; exact hs), exact_zero]

/-- **The event of calibrated columns.**  Where every scale is the sensitivity times the same share, the
event is made of one draw for each positive sensitivity, all of them with the share as multiplier. -/
theorem elementary_calibrationEvent {cs : List (Calibration ℝ)} {share : ℝ} (hshare : 0 < share)
    (hscales : ∀ c ∈ cs, c.scale = c.sensitivity * share) :
    (calibrationEvent cs .laplace).elementary =
      cs.filterMap fun c => if 0 < c.sensitivity then some (.laplace share) else none := by
  rw [calibrationEvent, PrivacyEvent.elementary_ofList]
  induction cs with
  | nil => rfl
  | cons c cs ih =>
      have htail := ih fun c' hc' => hscales c' (List.mem_cons_of_mem _ hc')
      have hscale := hscales c List.mem_cons_self
      rw [List.map_cons, List.filterMap_cons, ← htail]
      by_cases hpos : 0 < c.sensitivity
      · have hevent : Mechanism.laplace.event c.scale c.sensitivity = .laplace share := by
          rw [Mechanism.event, hscale, noiseMultiplier_of_pos hpos]
        have himpact : (PrivacyEvent.laplace share).isNoOp = false := by
          rw [PrivacyEvent.isNoOp, ← Bool.not_eq_true, exact_eq, exact_zero]
          exact hshare.ne'
        simp [hevent, himpact, hpos, PrivacyEvent.elementary]
      · have hevent : Mechanism.laplace.event c.scale c.sensitivity = .laplace 0 := by
          rw [Mechanism.event, noiseMultiplier_of_not_pos hpos]
        have himpact : (PrivacyEvent.laplace (0 : ℝ)).isNoOp = true := by
          rw [PrivacyEvent.isNoOp, exact_eq, exact_zero]
        simp [hevent, himpact, hpos]

/-- One draw of Laplace noise for each column of positive sensitivity, all of them with the same
multiplier. -/
noncomputable def columnEvents (columns : List (NoisedColumn ℝ)) (multiplier : ℝ) :
    List (PrivacyEvent ℝ) :=
  columns.filterMap fun column =>
    if 0 < column.sensitivity.getD 0 then some (.laplace multiplier) else none

/-- Calibrations with the sensitivities of the columns have their draws. -/
theorem filterMap_eq_columnEvents {cs : List (Calibration ℝ)} {columns : List (NoisedColumn ℝ)}
    (h : cs.map (fun c => some c.sensitivity) = columns.map (·.sensitivity)) (multiplier : ℝ) :
    (cs.filterMap fun c => if 0 < c.sensitivity then some (.laplace multiplier) else none) =
      columnEvents columns multiplier := by
  let drawn (s : Option ℝ) : Option (PrivacyEvent ℝ) :=
    if 0 < s.getD 0 then some (.laplace multiplier) else none
  calc (cs.filterMap fun c => if 0 < c.sensitivity then some (.laplace multiplier) else none)
      = (cs.map fun c => some c.sensitivity).filterMap drawn := by
        rw [List.filterMap_map]
        rfl
    _ = (columns.map (·.sensitivity)).filterMap drawn := by rw [h]
    _ = columnEvents columns multiplier := by
        rw [List.filterMap_map]
        rfl

/-- What the columns cost together: at most as much as if all of them were noised. -/
theorem sum_laplaceCost_columnEvents {multiplier : ℝ} (hpos : 0 < multiplier)
    (columns : List (NoisedColumn ℝ)) :
    ((columnEvents columns multiplier).map PrivacyEvent.laplaceCost).sum ≤
        columns.length * (1 / multiplier) ∧
      ((∀ column ∈ columns, 0 < column.sensitivity.getD 0) →
        ((columnEvents columns multiplier).map PrivacyEvent.laplaceCost).sum =
          columns.length * (1 / multiplier)) := by
  have hcost : 0 ≤ 1 / multiplier := by positivity
  induction columns with
  | nil => simp [columnEvents]
  | cons column columns ih =>
      obtain ⟨hle, heq⟩ := ih
      by_cases hs : 0 < column.sensitivity.getD 0
      · have hevents : columnEvents (column :: columns) multiplier =
            .laplace multiplier :: columnEvents columns multiplier := by
          rw [columnEvents, List.filterMap_cons, if_pos hs]
          rfl
        rw [hevents, List.map_cons, List.sum_cons, PrivacyEvent.laplaceCost, List.length_cons]
        push_cast
        refine ⟨by linarith, fun hall => ?_⟩
        rw [heq fun c hc => hall c (List.mem_cons_of_mem _ hc)]
        ring
      · have hevents : columnEvents (column :: columns) multiplier =
            columnEvents columns multiplier := by
          rw [columnEvents, List.filterMap_cons, if_neg hs]
          rfl
        rw [hevents, List.length_cons]
        push_cast
        exact ⟨by linarith, fun hall => absurd (hall column List.mem_cons_self) hs⟩

/-! ## The shares of a budget -/

/-- A budget is positive and shared by at least one repetition. -/
theorem Budget.of_eq_ok {epsilon : ℝ} {repetitions : Nat} {b : Budget ℝ}
    (h : Budget.of epsilon repetitions = .ok b) :
    0 < epsilon ∧ 1 ≤ repetitions ∧ b = ⟨epsilon, repetitions⟩ := by
  unfold Budget.of at h
  split at h
  · cases h
  · rename_i hpositive
    split at h
    · cases h
    · rename_i hrepetitions
      refine ⟨?_, by omega, (Except.ok.inj h).symm⟩
      simp only [Bool.not_eq_true, Bool.not_eq_false', Bool.and_eq_true, exact_lt, exact_zero]
        at hpositive
      exact hpositive.2

/-- The releases of at least one column are counted when their number fits a word. -/
theorem Budget.releases_eq {N : Type} (b : Budget N) {columns : Nat} (hpos : 0 < columns) :
    b.releases columns =
      if columns * b.repetitions < 0x10000000000000000 then .ok (columns * b.repetitions)
      else .error .tooManyReleases := by
  have hmax : max columns 1 = columns := by omega
  rw [releases, hmax]

theorem Budget.composition_of_lt {N : Type} [Number N] {b : Budget N} {columns : Nat}
    (hpos : 0 < columns) (hfits : columns * b.repetitions < 0x10000000000000000) :
    b.composition columns = .ok (Number.ofInt ((columns * b.repetitions : ℕ) : ℤ)) := by
  rw [composition, releases_eq b hpos, if_pos hfits]
  rfl

/-- In exact arithmetic the number of the releases is counted as it is. -/
theorem Budget.composition_of_fits {b : Budget ℝ} {columns : Nat} (hpos : 0 < columns)
    (hfits : columns * b.repetitions < 0x10000000000000000) :
    b.composition columns = .ok ((columns * b.repetitions : ℕ) : ℝ) := by
  rw [composition_of_lt hpos hfits, exact_ofInt, Int.cast_natCast]

/-- A plan has a noised column. -/
theorem Plan.columns_pos {N : Type} [Number N] {q : Query N} {catalog : Catalog N} {p : Plan N}
    (h : Plan.of q catalog = .ok p) : 0 < p.columns.length := by
  obtain ⟨scope, table, recombined, -, -, hagg, hrecombined, rfl⟩ := Plan.of_eq_ok h
  obtain ⟨e, he⟩ := exists_mem_rawAggregates_of_isAggregate hagg hrecombined
  rw [assemble, List.length_map]
  exact List.length_pos_of_mem he

namespace PrivateReader

/-- **The shares of a budget.**  Let a query be prepared, its budget be one, and its releases fit a word.

* If a noised column has no sensitivity, there are no calibrations and there is no event, but an error
  that names the first such column.
* Otherwise there is one calibration for each noised column, at the places after the keys, with the
  sensitivity of the column and a scale of this sensitivity times the number of shares over the budget.
  The event is made of one draw for each column of positive sensitivity, with the number of shares over
  the budget as multiplier, and of nothing else.  So its cost, as often as the query is repeated, is at
  most the budget, and all of it if every sensitivity is positive. -/
theorem event_shares {q : Query ℝ} {d : Dataset ℝ} {p : Preparation ℝ} {epsilon : ℝ}
    {repetitions : Nat} {b : Budget ℝ} (h : Preparation.of q d = .ok p)
    (hb : Budget.of epsilon repetitions = .ok b)
    (hfits : p.plan.columns.length * repetitions < 0x10000000000000000) :
    (∀ column, p.plan.columns.find? (·.sensitivity.isNone) = some column →
      p.plan.calibrate b .laplace = .error (.noSensitivity column.aggregate.display) ∧
        PrivateReader.event ⟨d, b, .laplace⟩ p.plan =
          .error (.noSensitivity column.aggregate.display)) ∧
      ((∀ column ∈ p.plan.columns, column.sensitivity.isSome) →
        ∃ cs e, p.plan.calibrate b .laplace = .ok cs ∧
          PrivateReader.event ⟨d, b, .laplace⟩ p.plan = .ok e ∧
          cs.map (·.index) = List.range' p.plan.keys.length p.plan.columns.length ∧
          cs.map (fun c => some c.sensitivity) = p.plan.columns.map (·.sensitivity) ∧
          (∀ c ∈ cs, c.scale = c.sensitivity * (p.plan.columns.length * repetitions / epsilon)) ∧
          e.elementary =
            columnEvents p.plan.columns (p.plan.columns.length * repetitions / epsilon) ∧
          (e.elementary.map PrivacyEvent.laplaceCost).sum * repetitions ≤ epsilon ∧
          ((∀ column ∈ p.plan.columns, 0 < column.sensitivity.getD 0) →
            (e.elementary.map PrivacyEvent.laplaceCost).sum * repetitions = epsilon)) := by
  obtain ⟨hplan, -⟩ := Preparation.of_eq_ok.mp h
  have hcolumns := Plan.columns_pos hplan
  obtain ⟨hepsilon, hrepetitions, rfl⟩ := Budget.of_eq_ok hb
  have hn := Budget.composition_of_fits (b := ⟨epsilon, repetitions⟩) hcolumns hfits
  refine ⟨fun column hcolumn => ?_, fun hsensitivities => ?_⟩
  · have herror := Plan.calibrate_of_find? (m := .laplace) hn hcolumn
    refine ⟨herror, ?_⟩
    rw [event, herror]
    rfl
  · obtain ⟨cs, hcs⟩ := Plan.exists_calibrate (m := .laplace) hn hsensitivities
    have hevent : PrivateReader.event ⟨d, ⟨epsilon, repetitions⟩, .laplace⟩ p.plan =
        .ok (calibrationEvent cs .laplace) := by
      rw [event, hcs]
      rfl
    have hcount : (0 : ℝ) < p.plan.columns.length := Nat.cast_pos.mpr hcolumns
    have htimes : (0 : ℝ) < repetitions := Nat.cast_pos.mpr hrepetitions
    have hshare : 0 < p.plan.columns.length * repetitions / epsilon := by positivity
    have hscales : ∀ c ∈ cs,
        c.scale = c.sensitivity * (p.plan.columns.length * repetitions / epsilon) := by
      intro c hc
      rw [Plan.scale_of_calibrate hn hcs hc, Mechanism.calibrate]
      push_cast
      exact mul_div_assoc _ _ _
    have helementary : (calibrationEvent cs .laplace).elementary =
        columnEvents p.plan.columns (p.plan.columns.length * repetitions / epsilon) := by
      rw [elementary_calibrationEvent hshare hscales]
      exact filterMap_eq_columnEvents (Plan.sensitivities_of_calibrate hcs) _
    have hbudget : p.plan.columns.length * (1 / (p.plan.columns.length * repetitions / epsilon)) *
        repetitions = epsilon := by
      field_simp
    obtain ⟨hle, heq⟩ := sum_laplaceCost_columnEvents hshare p.plan.columns
    refine ⟨cs, _, hcs, hevent, Plan.indices_of_calibrate hcs, Plan.sensitivities_of_calibrate hcs,
      hscales, helementary, ?_, fun hpositive => ?_⟩
    · rw [helementary]
      exact (mul_le_mul_of_nonneg_right hle htimes.le).trans_eq hbudget
    · rw [helementary, heq hpositive, hbudget]

/-- Counts by value, repeated twice: one draw, of multiplier two, and twice its cost is the budget. -/
theorem event_shares_counts :
    ∃ p cs e, Preparation.of (countsByValue ℝ) (integerDataset ℝ [5, 7, 5]) = .ok p ∧
      p.plan.calibrate ⟨1, 2⟩ .laplace = .ok cs ∧ cs.map (·.index) = [1] ∧
      PrivateReader.event ⟨integerDataset ℝ [5, 7, 5], ⟨1, 2⟩, .laplace⟩ p.plan = .ok e ∧
      e.elementary = [.laplace 2] ∧ (e.elementary.map PrivacyEvent.laplaceCost).sum * 2 = 1 := by
  have hruns : (Preparation.of (countsByValue ℝ) (integerDataset ℝ [5, 7, 5])).toOption.map
      (·.plan.keys.length) = some 1 := by
    decide +kernel
  have hplanned : (Plan.of (countsByValue ℝ) (integerDataset ℝ [5, 7, 5]).catalog).toOption.map
      (fun p => p.columns.map (·.sensitivity)) = some [some Number.one] := by
    rfl
  obtain ⟨p, hp, hkeys⟩ := Option.map_eq_some_iff.mp hruns
  rw [toOption_eq_some] at hp
  rw [(Preparation.of_eq_ok.mp hp).1] at hplanned
  obtain ⟨column, hcolumns, hone⟩ := List.map_eq_singleton_iff.mp (Option.some.inj hplanned)
  rw [exact_one] at hone
  have hbudget : Budget.of (1 : ℝ) 2 = .ok ⟨1, 2⟩ := by
    simp [Budget.of, Number.isFinite]
  have hshares := event_shares hp hbudget (by simp [hcolumns])
  obtain ⟨cs, e, hcs, he, hindices, -, -, helementary, -, hcost⟩ :=
    hshares.2 (by simp [hcolumns, hone])
  refine ⟨p, cs, e, hp, hcs, ?_, he, ?_, ?_⟩
  · rw [hindices, hcolumns, hkeys]
    rfl
  · rw [helementary]
    simp [hcolumns, columnEvents, hone]
  · have hall := hcost (by simp [hcolumns, hone])
    push_cast at hall
    exact hall

/-- The sum of a column. -/
def sumOfColumn (N : Type) : Query N where
  select := [.of (.aggregate .sum (.column ⟨"x"⟩)) (some "total")]
  relations := [.table ⟨"t"⟩ none]
  selection := none
  groupBy := []
  having := none
  orderBy := []
  limit := none

/-- **A column without sensitivity.**  The sum of a column without bounds has a plan, but no
calibration. -/
theorem event_refused :
    ∃ p, Preparation.of (sumOfColumn ℝ) (integerDataset ℝ [5, 7, 5]) = .ok p ∧
      Budget.of (1 : ℝ) 2 = .ok ⟨1, 2⟩ ∧ p.plan.columns.length * 2 < 0x10000000000000000 ∧
      ¬ ∃ cs, p.plan.calibrate ⟨1, 2⟩ .laplace = .ok cs := by
  have hruns : (do
      let p ← (Preparation.of (sumOfColumn ℝ) (integerDataset ℝ [5, 7, 5])).toOption
      let e ← errorOf (p.plan.calibrate ⟨1, 2⟩ .laplace)
      return (p.plan.columns.length, e)) = some (1, .noSensitivity "SUM(x)") := by
    decide +kernel
  obtain ⟨p, hp, hruns⟩ := Option.bind_eq_some_iff.mp hruns
  obtain ⟨e, he, hruns⟩ := Option.bind_eq_some_iff.mp hruns
  rw [toOption_eq_some] at hp
  rw [errorOf_eq_some] at he
  obtain ⟨hlength, -⟩ := Prod.mk.inj (Option.some.inj hruns)
  refine ⟨p, hp, by simp [Budget.of, Number.isFinite], by rw [hlength]; decide, ?_⟩
  rintro ⟨cs, hcs⟩
  rw [he] at hcs
  cases hcs

end PrivateReader

end PrivateSql
