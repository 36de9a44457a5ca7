import PrivateSql.Privacy.Calibration
import PrivateSql.Proofs.Drawings
/-!
# Calibrated columns

A plan is calibrated column by column: each noised column has a calibration of its own, at its place
after the keys.  A column without sensitivity has none, and then nothing is calibrated.

* `NoisedColumn.calibrate_eq_ok` — the calibration of a column;
* `Plan.calibrate_eq_ok` — the calibrations of a plan are those of its columns, one for each;
* `Plan.indices_of_calibrate`, `Plan.sensitivities_of_calibrate`, `Plan.scale_of_calibrate`,
  `Plan.forall₂_of_calibrate`, `Plan.dataTypes_of_calibrate` — their places, their sensitivities, their scales and their types;
* `Plan.exists_calibrate`, `Plan.calibrate_of_find?` — whether a plan is calibrated, and why not;
* `Calibration.gives_release`, `Calibration.cellOf_count`, `Calibration.gives_count` — the cell that is
  released, and that of a count.
-/

namespace PrivateSql

variable {N : Type} [Number N]

/-- A column is calibrated when it has a sensitivity. -/
theorem NoisedColumn.calibrate_eq_ok {column : NoisedColumn N} {index : Nat} {m : Mechanism}
    {epsilon composition delta : N} {c : Calibration N} :
    column.calibrate index m epsilon composition delta = .ok c ↔
      ∃ s, column.sensitivity = some s ∧ c = ⟨index, column.function, column.dataType, s,
        m.calibrate s epsilon composition delta⟩ := by
  unfold calibrate
  cases column.sensitivity with
  | none => simp
  | some s => simp [eq_comm]

/-- A column without sensitivity is named. -/
theorem NoisedColumn.calibrate_eq_error {column : NoisedColumn N} {index : Nat} {m : Mechanism}
    {epsilon composition delta : N} {e : PrivacyError} :
    column.calibrate index m epsilon composition delta = .error e ↔
      column.sensitivity = none ∧ e = .noSensitivity column.aggregate.display := by
  unfold calibrate
  cases column.sensitivity with
  | none => simp [eq_comm]
  | some s => simp

namespace Plan

variable {p : Plan N} {b : Budget N} {m : Mechanism} {cs : List (Calibration N)} {n : N}

/-- The calibrations of a plan, once the releases are counted. -/
theorem calibrate_of_composition (hn : b.composition p.columns.length = .ok n) :
    p.calibrate b m = p.columns.zipIdx.mapM fun x =>
      x.1.calibrate (p.keys.length + x.2) m b.epsilon n (releaseProbability p.tableRows) := by
  rw [calibrate, hn]
  rfl

/-- A plan is calibrated only when its releases can be counted. -/
theorem exists_composition (h : p.calibrate b m = .ok cs) :
    ∃ n, b.composition p.columns.length = .ok n := by
  obtain ⟨n, hn, -⟩ := bind_eq_ok.mp h
  exact ⟨n, hn⟩

/-- **The calibrations of a plan.**  There is one for each column, at its place after the keys, with the
sensitivity of the column and the scale of this sensitivity. -/
theorem calibrate_eq_ok (hn : b.composition p.columns.length = .ok n) :
    p.calibrate b m = .ok cs ↔ cs.length = p.columns.length ∧
      ∀ (i : Nat) (column : NoisedColumn N), p.columns[i]? = some column →
        ∃ s, column.sensitivity = some s ∧
          cs[i]? = some (⟨p.keys.length + i, column.function, column.dataType, s,
            m.calibrate s b.epsilon n (releaseProbability p.tableRows)⟩ : Calibration N) := by
  rw [calibrate_of_composition hn, mapM_eq_ok, List.forall₂_iff_get]
  simp only [List.length_zipIdx, List.get_eq_getElem, List.getElem_zipIdx,
    NoisedColumn.calibrate_eq_ok, Nat.zero_add]
  constructor
  · rintro ⟨hlength, hall⟩
    refine ⟨hlength.symm, fun i column hcolumn => ?_⟩
    obtain ⟨hi, rfl⟩ := List.getElem?_eq_some_iff.mp hcolumn
    obtain ⟨s, hs, hc⟩ := hall i hi (hlength ▸ hi)
    exact ⟨s, hs, by rw [List.getElem?_eq_getElem (hlength ▸ hi), hc]⟩
  · rintro ⟨hlength, hall⟩
    refine ⟨hlength.symm, fun i hi hi' => ?_⟩
    obtain ⟨s, hs, hc⟩ := hall i _ (List.getElem?_eq_getElem hi)
    obtain ⟨_, hc⟩ := List.getElem?_eq_some_iff.mp hc
    exact ⟨s, hs, hc⟩

/-- Each calibration is that of the column at its place. -/
theorem exists_column_of_calibrate (hn : b.composition p.columns.length = .ok n)
    (h : p.calibrate b m = .ok cs) {i : Nat} {c : Calibration N} (hc : cs[i]? = some c) :
    ∃ column, p.columns[i]? = some column ∧ column.sensitivity = some c.sensitivity ∧
      c.index = p.keys.length + i ∧ c.function = column.function ∧
      c.scale = m.calibrate c.sensitivity b.epsilon n (releaseProbability p.tableRows) := by
  obtain ⟨hlength, hall⟩ := (calibrate_eq_ok hn).mp h
  obtain ⟨hi, -⟩ := List.getElem?_eq_some_iff.mp hc
  rw [hlength] at hi
  have hcolumn := List.getElem?_eq_getElem hi
  obtain ⟨s, hs, hc'⟩ := hall i _ hcolumn
  obtain rfl := Option.some.inj (hc.symm.trans hc')
  exact ⟨_, hcolumn, hs, rfl, rfl, rfl⟩

/-- There is one calibration for each column. -/
theorem length_of_calibrate (h : p.calibrate b m = .ok cs) : cs.length = p.columns.length := by
  obtain ⟨n, hn⟩ := exists_composition h
  exact ((calibrate_eq_ok hn).mp h).1

/-- **The places of the calibrations.**  They are those after the keys, one after the other. -/
theorem indices_of_calibrate (h : p.calibrate b m = .ok cs) :
    cs.map (·.index) = List.range' p.keys.length p.columns.length := by
  obtain ⟨n, hn⟩ := exists_composition h
  refine List.ext_getElem (by rw [List.length_map, List.length_range', length_of_calibrate h])
    fun i hi hi' => ?_
  rw [List.length_map] at hi
  obtain ⟨-, -, -, hindex, -⟩ := exists_column_of_calibrate hn h (List.getElem?_eq_getElem hi)
  rw [List.getElem_map, List.getElem_range', hindex, Nat.one_mul]

/-- The calibrations have the sensitivities of the columns. -/
theorem sensitivities_of_calibrate (h : p.calibrate b m = .ok cs) :
    cs.map (fun c => some c.sensitivity) = p.columns.map (·.sensitivity) := by
  obtain ⟨n, hn⟩ := exists_composition h
  refine List.ext_getElem (by rw [List.length_map, List.length_map, length_of_calibrate h])
    fun i hi hi' => ?_
  rw [List.length_map] at hi hi'
  obtain ⟨column, hcolumn, hs, -⟩ := exists_column_of_calibrate hn h (List.getElem?_eq_getElem hi)
  obtain ⟨_, rfl⟩ := List.getElem?_eq_some_iff.mp hcolumn
  rw [List.getElem_map, List.getElem_map, hs]

/-- The scales are those of the sensitivities, when so many releases share the budget. -/
theorem scale_of_calibrate (hn : b.composition p.columns.length = .ok n)
    (h : p.calibrate b m = .ok cs) {c : Calibration N} (hc : c ∈ cs) :
    c.scale = m.calibrate c.sensitivity b.epsilon n (releaseProbability p.tableRows) := by
  obtain ⟨i, hi, rfl⟩ := List.mem_iff_getElem.mp hc
  obtain ⟨-, -, -, -, -, hscale⟩ :=
    exists_column_of_calibrate hn h (List.getElem?_eq_getElem hi)
  exact hscale

/-- The calibrations stand beside the columns, with their functions and their types. -/
theorem forall₂_of_calibrate (h : p.calibrate b m = .ok cs) :
    List.Forall₂ (fun column c => c.function = column.function ∧ c.dataType = column.dataType)
      p.columns cs := by
  obtain ⟨n, hn⟩ := exists_composition h
  obtain ⟨hlength, hall⟩ := (calibrate_eq_ok hn).mp h
  refine List.forall₂_iff_get.mpr ⟨hlength.symm, fun i hi hi' => ?_⟩
  obtain ⟨s, -, hc⟩ := hall i _ (List.getElem?_eq_getElem hi)
  obtain ⟨_, hc⟩ := List.getElem?_eq_some_iff.mp hc
  rw [List.get_eq_getElem, List.get_eq_getElem, hc]
  exact ⟨rfl, rfl⟩

/-- The calibrations have the types of the columns. -/
theorem dataTypes_of_calibrate (h : p.calibrate b m = .ok cs) :
    cs.map (·.dataType) = p.columns.map (·.dataType) := by
  rw [← List.forall₂_eq_eq_eq, List.forall₂_map_left_iff, List.forall₂_map_right_iff]
  exact (forall₂_of_calibrate h).flip.imp fun _ _ hc => hc.2

/-- A plan is calibrated when all of its columns have sensitivities. -/
theorem exists_calibrate (hn : b.composition p.columns.length = .ok n)
    (h : ∀ column ∈ p.columns, column.sensitivity.isSome) : ∃ cs, p.calibrate b m = .ok cs := by
  rw [calibrate_of_composition hn]
  refine exists_mapM_eq_ok fun x hx => ?_
  obtain ⟨s, hs⟩ := Option.isSome_iff_exists.mp (h x.1 (List.fst_mem_of_mem_zipIdx hx))
  exact ⟨_, NoisedColumn.calibrate_eq_ok.mpr ⟨s, hs, rfl⟩⟩

/-- **A plan that is not calibrated.**  The first of its columns without sensitivity is named. -/
theorem calibrate_of_find? (hn : b.composition p.columns.length = .ok n) {column : NoisedColumn N}
    (h : p.columns.find? (·.sensitivity.isNone) = some column) :
    p.calibrate b m = .error (.noSensitivity column.aggregate.display) := by
  obtain ⟨hnone, before, after, hcolumns, hbefore⟩ := List.find?_eq_some_iff_append.mp h
  rw [calibrate_of_composition hn, mapM_eq_error, hcolumns, List.zipIdx_append, List.zipIdx_cons]
  have hcalibrated : ∀ x ∈ before.zipIdx, ∃ c, x.1.calibrate (p.keys.length + x.2) m b.epsilon n
      (releaseProbability p.tableRows) = .ok c := by
    intro x hx
    have hsome := hbefore x.1 (List.fst_mem_of_mem_zipIdx hx)
    rw [Option.not_isNone] at hsome
    obtain ⟨s, hs⟩ := Option.isSome_iff_exists.mp hsome
    exact ⟨_, NoisedColumn.calibrate_eq_ok.mpr ⟨s, hs, rfl⟩⟩
  obtain ⟨cs, hcs⟩ := exists_mapM_eq_ok hcalibrated
  exact ⟨_, _, _, cs, rfl, hcs,
    NoisedColumn.calibrate_eq_error.mpr ⟨Option.isNone_iff_eq_none.mp hnone, rfl⟩⟩

end Plan

/-! ## Released cells -/

namespace Calibration

variable {c : Calibration N} {m : Mechanism} {v v' : Value N} {w w' : Words}

/-- A cell is released as its number, or 0 for nothing, with one draw of noise. -/
theorem gives_release : (c.release m v).Gives w v' w' ↔
    ∃ exact noise, exactNumber v = .ok exact ∧ (m.noise c.scale).Gives w noise w' ∧
      v' = c.cellOf (exact + noise) := by
  simp only [release, Mechanism.release, Drawing.gives_bind, Drawing.gives_ofExcept,
    Drawing.gives_pure]
  constructor
  · rintro ⟨exact, _, ⟨hexact, rfl⟩, _, _, ⟨noise, _, hnoise, rfl, rfl⟩, rfl, rfl⟩
    exact ⟨exact, noise, hexact, hnoise, rfl⟩
  · rintro ⟨exact, noise, hexact, hnoise, rfl⟩
    exact ⟨exact, w, ⟨hexact, rfl⟩, _, w', ⟨noise, w', hnoise, rfl, rfl⟩, rfl, rfl⟩

/-- A count is rounded, and not negative. -/
theorem cellOf_count (hc : c.function = .count) (noisy : N) : c.cellOf noisy =
    .integer (Number.toInt64 (Number.maximum (Number.roundToInteger .nearest noisy) Number.zero)) := by
  rw [cellOf, hc]

/-- A count is released as an integer. -/
theorem gives_count (hc : c.function = .count) (h : (c.release m v).Gives w v' w') :
    ∃ n, v' = .integer n := by
  obtain ⟨exact, noise, -, -, rfl⟩ := gives_release.mp h
  exact ⟨_, cellOf_count hc _⟩

end Calibration

end PrivateSql
