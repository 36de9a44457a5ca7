import PrivateSql.Number
/-!
# Numbers of JSON documents

A number is read from its digits as far as they fit a word of 64 bits; the digits after that only
count as places. Then one multiplication or division by a power of ten brings it to its place. So a
number with many digits need not be the one nearest to its text.

* `Numeral.scan` — the number at the start of a text;
* `Numeral.integer?`, `Numeral.value?` — the integer and the number it stands for.
-/

namespace PrivateSql.Json

/-- A number as it is written. A point has digits on both sides. -/
structure Numeral where
  isNegative : Bool
  whole : List Char
  fraction : List Char
  exponent : Option Int
  deriving DecidableEq, Repr

namespace Numeral

/-- The exponent of a number, nothing when no mark stands there; a mark needs digits. -/
def scanExponent (cs : List Char) : Option (Option Int × List Char) :=
  match cs with
  | c :: rest =>
    if c = 'e' ∨ c = 'E' then
      match Decimal.scanExponent cs with
      | some (e, rest) => some (some e, rest)
      | none => none
    else some (none, c :: rest)
  | [] => some (none, [])

/-- The fraction of a number, empty when there is no point; a point needs digits. -/
def scanFraction (cs : List Char) : Option (List Char × List Char) :=
  match cs with
  | '.' :: rest =>
    let (ds, rest) := Decimal.takeDigits rest
    if ds.isEmpty then none else some (ds, rest)
  | _ => some ([], cs)

/-- The number at the start of a text, and what follows. No digit comes after a first zero. -/
def scan (cs : List Char) : Option (Numeral × List Char) := do
  let (isNegative, rest) := match cs with
    | '-' :: rest => (true, rest)
    | _ => (false, cs)
  let (whole, rest) := Decimal.takeDigits rest
  if whole.isEmpty || (whole.length > 1 && whole.head? == some '0') then none
  else
    let (fraction, rest) ← scanFraction rest
    let (exponent, rest) ← scanExponent rest
    return (⟨isNegative, whole, fraction, exponent⟩, rest)

/-- The integer a number is written as. Zero with a sign is none. -/
def integer? (n : Numeral) : Option Int :=
  let i := Decimal.ofDigits 0 n.whole
  if !n.fraction.isEmpty || n.exponent.isSome then none
  else if n.isNegative then (if i = 0 then none else some (-i))
  else some i

/-- The digits go on a number as long as it fits 64 bits; what is left of them. -/
def appendDigits (n : Nat) : List Char → Nat × List Char
  | [] => (n, [])
  | d :: ds =>
    let n' := 10 * n + Decimal.digitValue d
    if n' < 0x10000000000000000 then appendDigits n' ds else (n, d :: ds)

/-- The digits that are kept, and the power of ten that they count. -/
def significand (n : Numeral) : Nat × Int :=
  let (digits, left) := appendDigits 0 n.whole
  let (digits, ignored) := appendDigits digits n.fraction
  let taken := n.fraction.length - ignored.length
  (digits, (left.length : Int) - taken + n.exponent.getD 0)

variable {N : Type} [Number N]

/-- The greatest power of ten that is multiplied or divided by at once. -/
def greatestPower : Nat := 308

/-- A number divided by `10 ^ (308 * times)`, and then by `10 ^ rest`. -/
def divideDown (x : N) (rest : Nat) : Nat → N
  | 0 => x / Number.ofDecimal 1 rest
  | times + 1 =>
    if Number.eq x Number.zero then x
    else divideDown (x / Number.ofDecimal 1 greatestPower) rest times

/-- A number times a power of ten, unless the result is too large. -/
def scale (x : N) (e : Int) : Option N :=
  if 0 ≤ e then
    if e ≤ greatestPower then
      let y := x * Number.ofDecimal 1 e
      if Number.isFinite y then some y else none
    else if Number.eq x Number.zero then some x
    else none
  else
    let places := e.natAbs
    if places ≤ greatestPower then some (divideDown x places 0)
    else
      let times := (places - 1) / greatestPower
      some (divideDown x (places - times * greatestPower) times)

/-- The number that is written, unless it is too large. -/
def value? (n : Numeral) : Option N :=
  let (digits, e) := n.significand
  (scale (Number.ofInt digits) e).map fun x => if n.isNegative then -x else x

end Numeral

end PrivateSql.Json
