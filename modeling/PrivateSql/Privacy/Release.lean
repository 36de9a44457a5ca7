import PrivateSql.Privacy.Calibration
import PrivateSql.Sql.Reading
/-!
# Private releases

A private query is answered from its exact rows: they are noised, the groups whose noised count
does not exceed a threshold are suppressed, and the outer query of the plan is executed over what is
left. That a group exists depends on private rows, so a group of few rows is hardly ever released.
The count that is compared is the one that is released; nothing is spent on the comparison.

* `suppress` — the rows whose count exceeds the threshold;
* `PrivateReader.release` — a noisy answer of a prepared query;
* `PrivateReader.answer`, `PrivateReader.answerTyped` — the answer of a query.
-/

namespace PrivateSql

variable {N : Type} [Number N]

/-- The rows whose cell at this position is a number above the threshold. -/
def suppress (rows : List (List (Value N))) (index : Nat) (tau : N) : List (List (Value N)) :=
  rows.filter fun row =>
    match (row.getD index .null).number? with
    | some count => Number.lt tau count
    | none => false

/-- Answers queries over a dataset with noise. -/
structure PrivateReader (N : Type) where
  dataset : Dataset N
  budget : Budget N
  mechanism : Mechanism

namespace PrivateReader

/-- The threshold of a plan: nothing without groups. -/
def threshold (r : PrivateReader N) (p : Plan N) (calibrations : List (Calibration N)) :
    Except PrivacyError (Option (Nat × N)) :=
  match p.threshold.bind (calibrations[·]?) with
  | none => .ok none
  | some count => do
    let tau ← r.mechanism.tau count.scale (releaseProbability p.tableRows) count.sensitivity
    return some (count.index, tau)

/-- The rows that the outer query reads: noised, and suppressed where there are groups. -/
def noisyRows (r : PrivateReader N) (p : Preparation N) : Drawing (List (List (Value N))) := do
  let calibrations ← Drawing.ofExcept (p.plan.calibrate r.budget r.mechanism)
  let rows ← noiseRows calibrations r.mechanism p.exact.rows
  match ← Drawing.ofExcept (r.threshold p.plan calibrations) with
  | some (index, tau) => return suppress rows index tau
  | none => return rows

/-- A noisy answer of a prepared query. -/
def release (r : PrivateReader N) (p : Preparation N) : Drawing (Rowset N) := do
  let rows ← r.noisyRows p
  match p.plan.outer.execute [Plan.exactPath] p.plan.exactNames rows with
  | .ok rowset => return rowset
  | .error e => throw (.query e)

/-- A noisy answer with the types of its columns. -/
def releaseTyped (r : PrivateReader N) (p : Preparation N) : Drawing (TypedRowset N) := do
  let rowset ← r.release p
  match TypedRowset.of rowset p.plan.types with
  | .ok t => return t
  | .error e => throw (.conversion e)

/-- The plan of a query with its exact rows. -/
def prepare (r : PrivateReader N) (q : Query N) : Except PrivacyError (Preparation N) :=
  match Preparation.of q r.dataset with
  | .ok p => .ok p
  | .error e => .error (.ofPlan e)

/-- The accounting of one release of a plan. -/
def event (r : PrivateReader N) (p : Plan N) : Except PrivacyError (PrivacyEvent N) := do
  return calibrationEvent (← p.calibrate r.budget r.mechanism) r.mechanism

/-- The query of a text. -/
def parse (s : String) : Except PrivacyError (Query N) :=
  match Query.parse s with
  | .ok q => .ok q
  | .error e => .error (.query e)

/-- The answer of a query. -/
def answer (r : PrivateReader N) (q : Query N) : Drawing (Rowset N) := do
  r.release (← Drawing.ofExcept (r.prepare q))

/-- The answer of a query with the types of its columns. -/
def answerTyped (r : PrivateReader N) (q : Query N) : Drawing (TypedRowset N) := do
  r.releaseTyped (← Drawing.ofExcept (r.prepare q))

end PrivateReader

end PrivateSql
