import PrivateSql.Privacy.Error
import PrivateSql.Privacy.Ziggurat
/-!
# Noise

Noise is drawn from words of 64 random bits, one for each draw. The words are a list that starts
again at its end, so that a release can be repeated.

* `Words.next` — the next word;
* `laplaceNoise`, `gaussianNoise` — the noise of one draw.
-/

namespace PrivateSql

/-- Random words, and how many of them were drawn. -/
structure Words where
  words : List UInt64
  used : Nat
  deriving Repr

namespace Words

/-- The words of a list from its start. -/
def ofList (words : List UInt64) : Words := ⟨words, 0⟩

/-- The word in the middle of all words, where both noises are 0. -/
def middle : UInt64 := 0x8000000000000000

/-- The word at the current place. Without words each one is the middle. -/
def current (w : Words) : UInt64 := w.words.getD (w.used % w.words.length) middle

/-- The next word. -/
def next (w : Words) : UInt64 × Words := (w.current, ⟨w.words, w.used + 1⟩)

end Words

/-- A computation that draws words. Words drawn before an error stay drawn. -/
abbrev Drawing := ExceptT PrivacyError (StateM Words)

/-- What may fail without a draw. -/
def Drawing.ofExcept {α : Type} : Except PrivacyError α → Drawing α
  | .ok a => pure a
  | .error e => throw e

/-- Draw a word. -/
def drawWord : Drawing UInt64 := do
  let (word, rest) := (← get).next
  set rest
  return word

variable {N : Type} [Number N]

/-- A natural number over a power of two. -/
def dyadic (n bits : Nat) : N := Number.ofInt n / Number.ofInt (twoPow bits)

/-- The noise of a word with the Laplace distribution: the 52 high bits are a place between one half
below and one half above 0, and the logarithm of the distance from the end gives the size. -/
def laplaceOfWord (scale : N) (w : UInt64) : N :=
  let x := dyadic (w.toNat / twoPow 12) 52 - dyadic 1 1
  let sign : N := if Number.lt x Number.zero then -Number.one else Number.one
  Number.zero - scale * sign * Number.log (Number.one - Number.ofInt 2 * Number.abs x)

/-- The noise of a word with the Gaussian distribution: the low byte is a layer, the 53 high bits
are a place between its two ends. -/
def gaussianOfWord (scale : N) (w : UInt64) : N :=
  let place : N := Number.ofInt 2 * dyadic (w.toNat / twoPow 11) 53 - Number.one
  let width : N := Number.ofDecimal (layerWidths.getD (w.toNat % 256) 0) (-18)
  Number.zero + scale * (place * width)

/-- A draw of noise from a word, where a scale can be used. Without scale nothing is drawn. -/
def noiseOf (accepts : N → Bool) (ofWord : N → UInt64 → N) (scale : N) : Drawing N :=
  if Number.eq scale Number.zero then return Number.zero
  else if accepts scale then return ofWord scale (← drawWord)
  else throw .badScale

/-- Laplace noise. -/
def laplaceNoise (scale : N) : Drawing N :=
  noiseOf (fun s => !(Number.isNaN s || Number.le s Number.zero)) laplaceOfWord scale

/-- Gaussian noise. -/
def gaussianNoise (scale : N) : Drawing N :=
  noiseOf (fun s => !(Number.isNaN s || Number.lt s Number.zero)) gaussianOfWord scale

end PrivateSql
