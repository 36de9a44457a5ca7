import PrivateSql.Number
/-!
# Privacy events

What a release costs is accounted for as an event: one draw of noise, or several that are composed.
Events without privacy impact vanish when events are composed.

* `PrivacyEvent.compose`, `PrivacyEvent.ofList` — the event of several releases;
* `PrivacyEvent.size` — how many elementary events have an impact.
-/

namespace PrivateSql

/-- The accounting of releases. The multiplier of a draw is its scale over the sensitivity. -/
inductive PrivacyEvent (N : Type) where
  | noOp
  | gaussian (multiplier : N)
  | laplace (multiplier : N)
  | epsilonDelta (epsilon delta : N)
  | composed (events : List (PrivacyEvent N))

instance {N : Type} : Inhabited (PrivacyEvent N) := ⟨.noOp⟩

namespace PrivacyEvent

variable {N : Type} [Number N]

mutual
/-- Is the event without privacy impact? -/
def isNoOp : PrivacyEvent N → Bool
  | .noOp => true
  | .gaussian m => Number.eq m Number.zero
  | .laplace m => Number.eq m Number.zero
  | .epsilonDelta e d => Number.eq e Number.zero && Number.eq d Number.zero
  | .composed events => areNoOp events

/-- Are some events without privacy impact? -/
def areNoOp : List (PrivacyEvent N) → Bool
  | [] => true
  | e :: es => isNoOp e && areNoOp es
end

/-- The events a composition is made of; any other event stands for itself. -/
def parts : PrivacyEvent N → List (PrivacyEvent N)
  | .composed events => events
  | e => [e]

/-- Two events one after the other. One without impact leaves the other as it is. -/
def compose (e e' : PrivacyEvent N) : PrivacyEvent N :=
  if e'.isNoOp then e
  else if e.isNoOp then e'
  else .composed (e.parts ++ e'.parts)

/-- Events one after the other. -/
def ofList (events : List (PrivacyEvent N)) : PrivacyEvent N := events.foldl compose .noOp

mutual
/-- The number of elementary events with an impact. -/
def size : PrivacyEvent N → Nat
  | .noOp => 0
  | .gaussian m => if isNoOp (.gaussian m) then 0 else 1
  | .laplace m => if isNoOp (.laplace m) then 0 else 1
  | .epsilonDelta e d => if isNoOp (.epsilonDelta e d) then 0 else 1
  | .composed events => sizeAll events

/-- The number of elementary events with an impact in some events. -/
def sizeAll : List (PrivacyEvent N) → Nat
  | [] => 0
  | e :: es => size e + sizeAll es
end

def isEmpty (e : PrivacyEvent N) : Bool := e.size == 0

mutual
/-- The text of an event. -/
def display : PrivacyEvent N → String
  | .noOp => "NoOp"
  | .gaussian m => "Gaussian (" ++ Number.write .display m ++ ")"
  | .laplace m => "Laplace (" ++ Number.write .display m ++ ")"
  | .epsilonDelta e d =>
    "EpsilonDelta (" ++ Number.write .display e ++ ", " ++ Number.write .display d ++ ")"
  | .composed events => "Composed (" ++ ", ".intercalate (displayAll events) ++ ")"

/-- The texts of some events. -/
def displayAll : List (PrivacyEvent N) → List String
  | [] => []
  | e :: es => display e :: displayAll es
end

end PrivacyEvent

end PrivateSql
