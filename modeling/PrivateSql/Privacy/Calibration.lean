import PrivateSql.Privacy.Mechanism
import PrivateSql.Privacy.Budget
/-!
# Calibrations

The noise of each raw aggregate of a plan. The budget is split evenly between the raw aggregates and
the repetitions of the query.

* `calibrate` — the calibrations of a plan;
* `Calibration.release` — a noised cell;
* `noiseRows` — rows with their calibrated cells noised;
* `calibrationEvent` — the accounting of a release of all the columns.
-/

namespace PrivateSql

/-- The noise of one column of the exact rows. -/
structure Calibration (N : Type) where
  /-- The position of the column. -/
  index : Nat
  function : AggregateFunction
  dataType : DataType
  sensitivity : N
  scale : N

variable {N : Type} [Number N]

namespace Calibration

/-- The number a cell is noised from; nothing counts as 0. -/
def exactNumber (v : Value N) : Except PrivacyError N :=
  match v with
  | .null => .ok Number.zero
  | v =>
    match v.number? with
    | some x => .ok x
    | none => .error (.notNumeric v.display)

/-- The cell of a noisy number: a count is not negative, and an integer stays one. -/
def cellOf (c : Calibration N) (noisy : N) : Value N :=
  let rounded := Number.roundToInteger .nearest noisy
  match c.function, c.dataType with
  | .count, _ => .integer (Number.toInt64 (Number.maximum rounded Number.zero))
  | _, .integer => .integer (Number.toInt64 rounded)
  | _, _ => .float noisy

/-- The noised cell. -/
def release (c : Calibration N) (m : Mechanism) (v : Value N) : Drawing (Value N) := do
  let exact ← Drawing.ofExcept (exactNumber v)
  return c.cellOf (← m.release exact c.scale)

end Calibration

/-- The calibration of a noised column. -/
def NoisedColumn.calibrate (c : NoisedColumn N) (index : Nat) (m : Mechanism)
    (epsilon composition delta : N) : Except PrivacyError (Calibration N) :=
  match c.sensitivity with
  | some s => .ok ⟨index, c.function, c.dataType, s, m.calibrate s epsilon composition delta⟩
  | none => .error (.noSensitivity c.aggregate.display)

/-- The calibrations of the noised columns of a plan, which follow its keys. -/
def Plan.calibrate (p : Plan N) (b : Budget N) (m : Mechanism) :
    Except PrivacyError (List (Calibration N)) := do
  let composition ← b.composition p.columns.length
  let delta := releaseProbability p.tableRows
  p.columns.zipIdx.mapM fun (c, i) => c.calibrate (p.keys.length + i) m b.epsilon composition delta

/-- A row with its calibrated cells noised, one after the other; the other cells are kept. -/
def noiseRow (calibrations : List (Calibration N)) (m : Mechanism) (row : List (Value N)) :
    Drawing (List (Value N)) :=
  calibrations.foldlM
    (fun row c => do return row.set c.index (← c.release m (row.getD c.index .null))) row

/-- Rows with their calibrated cells noised. -/
def noiseRows (calibrations : List (Calibration N)) (m : Mechanism) (rows : List (List (Value N))) :
    Drawing (List (List (Value N))) :=
  rows.mapM (noiseRow calibrations m)

/-- The accounting of one release of the calibrated columns. -/
def calibrationEvent (calibrations : List (Calibration N)) (m : Mechanism) : PrivacyEvent N :=
  .ofList (calibrations.map fun c => m.event c.scale c.sensitivity)

end PrivateSql
