import PrivateSql.Plan.Basic
/-!
# Errors of private queries

Why a private query has no answer: its noise cannot be drawn, its budget is none, or the exact query
behind it fails.

* `PrivacyError` — the causes, and `PrivacyError.message`, the text of each.
-/

namespace PrivateSql

/-- Why a private query has no answer. -/
inductive PrivacyError where
  /-- No noise has this scale. -/
  | badScale
  /-- A column whose values can move without bound cannot be noised. -/
  | noSensitivity (aggregate : String)
  | notNumeric (value : String)
  /-- With this probability no threshold suppresses groups. -/
  | noThreshold (delta : String)
  | unknownMechanism (name : String)
  | epsilonNotPositive (epsilon : String)
  | noRelease
  /-- The number of releases does not fit a word. -/
  | tooManyReleases
  /-- A quantile is asked of what is no probability. -/
  | noProbability
  | query (error : QueryError)
  | reader (error : ReaderError)
  | conversion (error : ConversionError)
  deriving DecidableEq, Repr

namespace PrivacyError

/-- What goes wrong with the noise or the budget, without its kind. -/
def detail : PrivacyError → String
  | .badScale => "Bad distribution parameters"
  | .noSensitivity a => a ++ " has no sensitivity"
  | .notNumeric v => "Cannot noise " ++ v
  | .noThreshold d => "delta = " ++ d ++ " leaves no threshold to suppress groups"
  | .unknownMechanism m => "Unknown mechanism " ++ m
  | .epsilonNotPositive e => "epsilon = " ++ e ++ " should be positive"
  | .noRelease => "repeat should be at least 1"
  | .tooManyReleases => "attempt to multiply with overflow"
  | .noProbability => "x must be in [0, 1]"
  | .query e => e.message
  | .reader e => e.message
  | .conversion e => e.message

/-- The text of an error; an error inside it keeps its own line. -/
def message (e : PrivacyError) : String :=
  match e with
  | .epsilonNotPositive _ => "BudgetError: " ++ e.detail ++ "\n"
  | .noRelease => "BudgetError: " ++ e.detail ++ "\n"
  | .tooManyReleases => e.detail
  | .noProbability => e.detail
  | .query _ => "Query: " ++ e.detail ++ "\n"
  | .reader _ => "Reader: " ++ e.detail ++ "\n"
  | .conversion _ => e.detail ++ "\n"
  | _ => "MechanismError: " ++ e.detail ++ "\n"

/-- An error of a dataset: that of a query is told apart. -/
def ofReader : ReaderError → PrivacyError
  | .query e => .query e
  | .rowWidth t n => .reader (.rowWidth t n)
  | .conversion e => .reader (.conversion e)

/-- An error of a plan. -/
def ofPlan : PlanError → PrivacyError
  | .query e => .query e
  | .reader e => ofReader e

end PrivacyError

end PrivateSql
