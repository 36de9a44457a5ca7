import PrivateSql.Privacy.Noise
import PrivateSql.Privacy.Event
import PrivateSql.Privacy.Quantile
/-!
# Mechanisms

A mechanism turns the sensitivity of a value and its share of the budget into the scale of the noise
that is added to the value, and gives the threshold that a noised count has to exceed so that its
group is released.

* `Mechanism.calibrate`, `Mechanism.release` — the scale, and the noisy value;
* `Mechanism.tau` — the threshold;
* `Mechanism.event` — the accounting of one release.
-/

namespace PrivateSql

/-- The kinds of noise. -/
inductive Mechanism where
  | laplace
  | gaussian
  deriving DecidableEq, Repr, Inhabited

variable {N : Type} [Number N]

/-- The probability that a group is released that should have been suppressed, for a table of so
many rows: one over the rows times their square root. -/
def releaseProbability (rows : Nat) : N :=
  let n : N := Number.ofInt (max rows 1)
  Number.one / (n * Number.sqrt n)

/-- A threshold is defined for a probability strictly between 0 and 1. -/
def checkProbability (delta : N) : Except PrivacyError N :=
  if Number.lt Number.zero delta && Number.lt delta Number.one then .ok delta
  else .error (.noThreshold (Number.write .display delta))

/-- The quantile of what has to be a probability. -/
def checkedQuantile (p : N) : Except PrivacyError N :=
  if Number.le Number.zero p && Number.le p Number.one then .ok (normalQuantile p)
  else .error .noProbability

/-- The scale of the noise over the sensitivity; 0 for a value that no row moves. -/
def noiseMultiplier (scale sensitivity : N) : N :=
  if Number.lt Number.zero sensitivity then scale / sensitivity else Number.zero

namespace Mechanism

/-- The name of a mechanism. -/
def name : Mechanism → String
  | .laplace => "laplace"
  | .gaussian => "gaussian"

/-- The mechanism with exactly this name. -/
def ofName? : String → Option Mechanism
  | "laplace" => some .laplace
  | "gaussian" => some .gaussian
  | _ => none

/-- The mechanism with this name in any case. -/
def ofText (s : String) : Except PrivacyError Mechanism :=
  match ofName? (Text.toLower s) with
  | some m => .ok m
  | none => .error (.unknownMechanism s)

/-- The scale of the noise for a value of this sensitivity when so many releases share the
budget. -/
def calibrate (m : Mechanism) (sensitivity epsilon composition delta : N) : N :=
  match m with
  | .laplace => sensitivity * composition / epsilon
  | .gaussian =>
    let log := Number.log (Number.one / delta)
    Number.sqrt composition * sensitivity * (Number.sqrt log + Number.sqrt (log + epsilon))
      / (Number.sqrt (Number.ofInt 2) * epsilon)

/-- A draw of noise. -/
def noise (m : Mechanism) (scale : N) : Drawing N :=
  match m with
  | .laplace => laplaceNoise scale
  | .gaussian => gaussianNoise scale

/-- A value with noise. -/
def release (m : Mechanism) (value scale : N) : Drawing N := do return value + (← m.noise scale)

/-- The threshold above which a noised count is released. -/
def tau (m : Mechanism) (scale delta sensitivity : N) : Except PrivacyError N := do
  let delta ← checkProbability delta
  match m with
  | .laplace =>
    return Number.one + scale * Number.log (Number.one / (Number.ofInt 2 * delta))
  | .gaussian =>
    let p := Number.pow (Number.one - delta / Number.ofInt 2) (Number.one / sensitivity)
    return Number.one + scale * (← checkedQuantile p)

/-- The accounting of one release. -/
def event (m : Mechanism) (scale sensitivity : N) : PrivacyEvent N :=
  match m with
  | .laplace => .laplace (noiseMultiplier scale sensitivity)
  | .gaussian => .gaussian (noiseMultiplier scale sensitivity)

end Mechanism

end PrivateSql
