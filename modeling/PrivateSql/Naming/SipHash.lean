/-!
# SipHash

The keyed hash function SipHash-1-3: one round per word of eight bytes, three to finish, with both
keys zero.
-/

namespace PrivateSql

/-- The four words that SipHash keeps. -/
structure SipState where
  v0 : UInt64
  v1 : UInt64
  v2 : UInt64
  v3 : UInt64
  deriving DecidableEq, Repr

namespace SipState

/-- The words at the start, for the keys zero. -/
def initial : SipState :=
  ⟨0x736f6d6570736575, 0x646f72616e646f6d, 0x6c7967656e657261, 0x7465646279746573⟩

/-- The word turned left by `k` bits, `0 < k < 64`. -/
def rotate (x k : UInt64) : UInt64 := (x <<< k) ||| (x >>> (64 - k))

/-- One round of mixing. -/
def round (s : SipState) : SipState :=
  let v0 := s.v0 + s.v1
  let v1 := rotate s.v1 13 ^^^ v0
  let v0 := rotate v0 32
  let v2 := s.v2 + s.v3
  let v3 := rotate s.v3 16 ^^^ v2
  let v0 := v0 + v3
  let v3 := rotate v3 21 ^^^ v0
  let v2 := v2 + v1
  let v1 := rotate v1 17 ^^^ v2
  let v2 := rotate v2 32
  ⟨v0, v1, v2, v3⟩

/-- Take one word in. -/
def absorb (s : SipState) (m : UInt64) : SipState :=
  let s := { s with v3 := s.v3 ^^^ m }.round
  { s with v0 := s.v0 ^^^ m }

/-- The hash once all the words are in. -/
def finish (s : SipState) : UInt64 :=
  let s := { s with v2 := s.v2 ^^^ 0xff }.round.round.round
  s.v0 ^^^ s.v1 ^^^ s.v2 ^^^ s.v3

end SipState

/-- The word of up to eight bytes, the lowest first. -/
def wordOf (bytes : List UInt8) : UInt64 :=
  bytes.foldr (fun b w => (w <<< 8) ||| b.toUInt64) 0

/-- Take in the words of some bytes; the last word holds the bytes that are left and, in its top
byte, the number of bytes in all. -/
def sipAbsorb (length : Nat) (s : SipState) : List UInt8 → SipState
  | b0 :: b1 :: b2 :: b3 :: b4 :: b5 :: b6 :: b7 :: rest =>
    sipAbsorb length (s.absorb (wordOf [b0, b1, b2, b3, b4, b5, b6, b7])) rest
  | rest => s.absorb (wordOf rest ||| (UInt64.ofNat (length % 256) <<< 56))

/-- The hash of some bytes. -/
def sipHash (bytes : List UInt8) : UInt64 :=
  (sipAbsorb bytes.length SipState.initial bytes).finish

end PrivateSql
