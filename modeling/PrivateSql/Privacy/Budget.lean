import PrivateSql.Privacy.Error
import PrivateSql.Catalog.Document
/-!
# Privacy budgets

A budget is a bound on the privacy loss that a query may cause however often it is repeated: it is
shared by the noised columns of the query and by its repetitions.

* `Budget.of` — a budget that is one;
* `Budget.composition` — the number of releases that share it;
* `Budget.ofJson`, `Budget.json` — budgets as JSON documents.
-/

namespace PrivateSql

/-- A privacy budget, and how often the query is expected to be repeated. -/
structure Budget (N : Type) where
  epsilon : N
  repetitions : Nat

namespace Budget

variable {N : Type} [Number N]

/-- The budget with these parameters: the first one positive and finite, the second at least 1. -/
def of (epsilon : N) (repetitions : Nat) : Except PrivacyError (Budget N) :=
  if !(Number.isFinite epsilon && Number.lt Number.zero epsilon) then
    .error (.epsilonNotPositive (Number.write .display epsilon))
  else if repetitions < 1 then .error .noRelease
  else .ok ⟨epsilon, repetitions⟩

/-- The number of releases that share the budget when a query noises so many columns. It is counted
in a word of 64 bits. -/
def releases (b : Budget N) (columns : Nat) : Except PrivacyError Nat :=
  let n := max columns 1 * b.repetitions
  if n < 0x10000000000000000 then .ok n else .error .tooManyReleases

/-- The number of releases as a number. -/
def composition (b : Budget N) (columns : Nat) : Except PrivacyError N := do
  return Number.ofInt (← b.releases columns)

/-- The members of a budget that were read so far. -/
structure Members (N : Type) where
  epsilon : Option N
  repetitions : Option Nat

/-- One more member of a budget. -/
def Members.read (m : Members N) (name : String) (d : Json.Document) : Json.Decoded (Members N) :=
  match name with
  | "epsilon" => do return { m with epsilon := ← Json.once m.epsilon (Json.numberOf d) }
  | _ => do return { m with repetitions := ← Json.once m.repetitions (Json.countOf d) }

/-- The parameters in a document; a query is repeated once where none is given. -/
def parametersOf (d : Json.Document) : Json.Decoded (N × Nat) := do
  let m ← Json.membersOf ["epsilon", "repeat"] Members.read ⟨none, none⟩ d
  return (← Json.required m.epsilon, m.repetitions.getD 1)

/-- The budget of a document; it is checked where its members end. -/
def ofDocument (d : Json.Document) : Json.Decoded (Except PrivacyError (Budget N)) := do
  let (epsilon, repetitions) ← parametersOf d
  return of epsilon repetitions

/-- The budget of a text: nothing when it is no document of a budget, else the budget or why it is
none. -/
def ofJson (s : String) : Option (Except PrivacyError (Budget N)) :=
  let (d, isWhole) := Json.Document.read s
  match ofDocument d with
  | .ok (.error e) => some (.error e)
  | .ok (.ok b) => if isWhole then some (.ok b) else none
  | .error _ => none

/-- The text of a budget as a document. -/
def json (b : Budget N) : String :=
  "\x7b\"epsilon\":" ++ (Value.float b.epsilon).json ++ ",\"repeat\":" ++ toString b.repetitions
    ++ "\x7d"

end Budget

end PrivateSql
