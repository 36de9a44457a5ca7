import PrivateSql.Text.Casing
import PrivateSql.Binary64.Rounding
/-!
# Decimals

A decimal is a natural number of digits times a power of ten. Texts of unsigned numbers are read as
decimals, without any rounding; a number format rounds them afterwards.

* `Decimal.scan` — the longest decimal at the start of a text;
* `Decimal.ofText?` — a whole text that is a decimal;
* `Binary64.ofText?` — a signed decimal, or a word for an infinity or a NaN.
-/

namespace PrivateSql

/-- The number `digits * 10 ^ exponent`. -/
structure Decimal where
  digits : Nat
  exponent : Int
  deriving DecidableEq, Repr

namespace Decimal

/-- The value of a digit. -/
def digitValue (c : Char) : Nat := c.toNat - '0'.toNat

/-- The number written by a row of digits, continuing the number `start`. -/
def ofDigits (start : Nat) (ds : List Char) : Nat :=
  ds.foldl (fun n c => 10 * n + digitValue c) start

/-- The digits at the start of a text, and what follows them. -/
def takeDigits (cs : List Char) : List Char × List Char := cs.span (·.isDigit)

/-- An exponent mark with its digits at the start of a text, and what follows. There is none when
the mark has no digit after it. -/
def scanExponent (cs : List Char) : Option (Int × List Char) :=
  match cs with
  | c :: rest =>
    if c = 'e' ∨ c = 'E' then
      let (negative, rest) := match rest with
        | '-' :: r => (true, r)
        | '+' :: r => (false, r)
        | r => (false, r)
      let (ds, rest) := takeDigits rest
      if ds.isEmpty then
        none
      else
        let e := ofDigits 0 ds
        some (if negative then -(e : Int) else e, rest)
    else
      none
  | [] => none

/-- The digits of a decimal before and after its point, the exponent, and what follows. -/
def scan (cs : List Char) : Option (Decimal × List Char) :=
  let (whole, rest) := takeDigits cs
  let (fraction, rest) := match rest with
    | '.' :: r => takeDigits r
    | r => ([], r)
  if whole.isEmpty && fraction.isEmpty then
    none
  else
    let (e, rest) := (scanExponent rest).getD (0, rest)
    some (⟨ofDigits (ofDigits 0 whole) fraction, e - fraction.length⟩, rest)

/-- The decimal a text writes: digits with an optional point, at least one of them, then an
optional exponent. -/
def ofText? (cs : List Char) : Option Decimal :=
  match scan cs with
  | some (d, []) => some d
  | _ => none

end Decimal

namespace Binary64

/-- The number of a text: an optional sign, then a decimal, `inf`, `infinity` or `nan` in any
case. -/
def ofText? (s : String) : Option Binary64 :=
  let (negative, cs) := match s.toList with
    | '-' :: r => (true, r)
    | '+' :: r => (false, r)
    | r => (false, r)
  match Decimal.ofText? cs with
  | some d => some (ofDecimal negative d.digits d.exponent)
  | none =>
    match String.ofList (cs.map Char.toLower) with
    | "inf" => some (infinity negative)
    | "infinity" => some (infinity negative)
    | "nan" => some (if negative then quietNaN.neg else quietNaN)
    | _ => none

end Binary64

end PrivateSql
