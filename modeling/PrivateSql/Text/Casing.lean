import PrivateSql.Text.CaseTable
import PrivateSql.Text.CaseContext
/-!
# Upper and lower case

Case mappings of whole texts: a character may give several, and a capital sigma that ends a word
becomes a final sigma. Paths, type names and words of queries are compared after `toLower`;
names of functions are written after `toUpper`.

* `toLower_ascii`, `toUpper_ascii` — on ASCII texts both are the mappings of `Char`.
-/

namespace PrivateSql.Text

/-- The first run that moves the code point, else the code point itself. -/
def applyRuns (runs : List CaseRun) (c : Nat) : Nat :=
  (runs.findSome? (·.moved? c)).getD c

/-- The other case of one character, from a table of long forms and a table of runs. -/
def mapCase (expansions : List (Nat × List Nat)) (runs : List CaseRun) (c : Char) : List Char :=
  match expansions.lookup c.toNat with
  | some cs => cs.map Char.ofNat
  | none => [Char.ofNat (applyRuns runs c.toNat)]

/-- The lower case of a character on its own. -/
def lowerChar (c : Char) : List Char :=
  if c.toNat < 0x80 then [c.toLower] else mapCase lowerExpansions lowerRuns c

/-- The upper case of a character on its own. -/
def upperChar (c : Char) : List Char :=
  if c.toNat < 0x80 then [c.toUpper] else mapCase upperExpansions upperRuns c

/-- Lower case of the characters `rest`, `before` being those already read, last first. A capital
sigma after a cased character and not before one is written as a final sigma. -/
def lowerFrom (before : List Char) : List Char → List Char
  | [] => []
  | c :: rest =>
    if c = 'Σ' then
      (if startsCased before && !startsCased rest then 'ς' else 'σ') :: lowerFrom (c :: before) rest
    else
      lowerChar c ++ lowerFrom (c :: before) rest

/-- The lower case of a text. -/
def toLower (s : String) : String := String.ofList (lowerFrom [] s.toList)

/-- The upper case of a text. -/
def toUpper (s : String) : String := String.ofList (s.toList.flatMap upperChar)

/-- Equality up to the case of ASCII letters only. -/
def eqIgnoringAsciiCase (s t : String) : Bool :=
  s.toList.map Char.toLower == t.toList.map Char.toLower

theorem lowerFrom_ascii {before cs : List Char} (h : ∀ c ∈ cs, c.toNat < 0x80) :
    lowerFrom before cs = cs.map Char.toLower := by
  induction cs generalizing before with
  | nil => rfl
  | cons c cs ih =>
    have hc : c.toNat < 0x80 := h c (by simp)
    have hs : c ≠ 'Σ' := by rintro rfl; exact absurd hc (by decide)
    simp [lowerFrom, hs, lowerChar, hc, ih fun d hd => h d (by simp [hd])]

theorem toLower_ascii {s : String} (h : ∀ c ∈ s.toList, c.toNat < 0x80) :
    toLower s = String.ofList (s.toList.map Char.toLower) := by
  rw [toLower, lowerFrom_ascii h]

theorem toUpper_ascii {s : String} (h : ∀ c ∈ s.toList, c.toNat < 0x80) :
    toUpper s = String.ofList (s.toList.map Char.toUpper) := by
  unfold toUpper
  congr 1
  revert h
  induction s.toList with
  | nil => intro _; rfl
  | cons c cs ih =>
    intro h
    have hc : c.toNat < 0x80 := h c (by simp)
    simp [upperChar, hc, ih fun d hd => h d (by simp [hd])]

end PrivateSql.Text
