import PrivateSql.Decimal.Shortest
/-!
# Layouts of numbers

The digits of a number are those of its shortest decimal; a layout decides how they are set: which
magnitudes are written positionally, whether an integer keeps a fraction, how an exponent is
written.

* `Layout.display` — always positional, integers without a fraction: the layout of messages;
* `Layout.literal` — the layout of literals of queries: `2.0`, `1e16`, `1.5e-7`;
* `Layout.json` — the layout of JSON documents: `2.0`, `1e+16`, `1.5e-7`;
* `Decimal.scientific` — a fixed number of significant digits.
-/

namespace PrivateSql

/-- How the digits of a number are set. -/
structure Layout where
  /-- The place of the leading digit from which numbers are positional, if there is a limit. -/
  positionalFrom : Option Int
  /-- The place of the leading digit at which they are no longer so, if there is a limit. -/
  positionalBelow : Option Int
  /-- Is an integer written with the fraction `.0`? -/
  keepsFraction : Bool
  /-- Does a positive exponent carry its sign? -/
  signsExponent : Bool
  /-- Which of two shortest decimals at an equal distance is written. -/
  tie : Tie

namespace Layout

/-- The layout of messages. -/
def display : Layout := ⟨none, none, false, false, .up⟩

/-- The layout of literals of queries. -/
def literal : Layout := ⟨some (-4), some 16, true, false, .up⟩

/-- The layout of JSON documents. -/
def json : Layout := ⟨some (-5), some 16, true, true, .even⟩

/-- Are numbers with the leading digit at this place written positionally? -/
def isPositional (layout : Layout) (place : Int) : Bool :=
  layout.positionalFrom.all (decide <| · ≤ place)
    && layout.positionalBelow.all (decide <| place < ·)

/-- The text of an integer in this layout. -/
def fraction (layout : Layout) : String := if layout.keepsFraction then ".0" else ""

/-- `digits * 10 ^ exponent` with all its places. -/
def positional (layout : Layout) (d : Decimal) : String :=
  let ds := Nat.toDigits 10 d.digits
  if 0 ≤ d.exponent then
    String.ofList (ds ++ List.replicate d.exponent.toNat '0') ++ layout.fraction
  else
    let places := (-d.exponent).toNat
    if places < ds.length then
      String.ofList (ds.take (ds.length - places) ++ '.' :: ds.drop (ds.length - places))
    else
      String.ofList ('0' :: '.' :: List.replicate (places - ds.length) '0' ++ ds)

/-- The digits with the point after the first one, and the exponent. -/
def exponential (layout : Layout) (d : Decimal) : String :=
  let ds := Nat.toDigits 10 d.digits
  let place : Int := d.exponent + ds.length - 1
  let mantissa := match ds with
    | [] => []
    | [c] => [c]
    | c :: rest => c :: '.' :: rest
  let sign := if layout.signsExponent && decide (0 ≤ place) then "+" else ""
  String.ofList mantissa ++ "e" ++ sign ++ toString place

/-- A positive decimal in a layout. -/
def write (layout : Layout) (d : Decimal) : String :=
  if layout.isPositional (d.exponent + (Nat.toDigits 10 d.digits).length - 1) then
    layout.positional d
  else
    layout.exponential d

/-- A number in a layout. The sign of a NaN is not written. -/
def format (layout : Layout) (x : Binary64) : String :=
  if x.isNaN then "NaN"
  else
    let sign := if x.isNegative then "-" else ""
    if !x.isFinite then sign ++ "inf"
    else if x.magnitude = 0 then sign ++ "0" ++ layout.fraction
    else sign ++ layout.write (Decimal.shortest layout.tie x)

end Layout

namespace Decimal

/-- A finite number with `n + 1` significant digits, the last one rounded to the nearest and a tie
to the even digit: `d.ddde-7`. -/
def scientific (n : Nat) (x : Binary64) : String :=
  let sign := if x.isNegative then "-" else ""
  let zeros := String.ofList (List.replicate n '0')
  if x.magnitude = 0 then
    sign ++ "0." ++ zeros ++ "e0"
  else
    let h := Neighbourhood.of x
    let place := h.decimalLength - 1
    let e := place - n
    let d := Binary64.divNearestEven (h.value * tenPow (-e).toNat) (h.den * tenPow e.toNat)
    let (d, place) := if d = tenPow (n + 1) then (tenPow n, place + 1) else (d, place)
    match Nat.toDigits 10 d with
    | [] => sign
    | c :: rest => sign ++ String.ofList (c :: '.' :: rest) ++ "e" ++ toString place

end Decimal

end PrivateSql
