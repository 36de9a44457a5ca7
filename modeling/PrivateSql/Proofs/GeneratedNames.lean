import PrivateSql.Plan.Basic
/-!
# The names that are generated

The columns that a plan adds have names made of lower-case letters, digits and underscores only.  So
such a name is an identifier of one part, and it is the same in lower case.

* `IsPlain` — a text of such characters;
* `isPlain_keyName`, `isPlain_columnName` — the names that are generated are plain;
* `IsPlain.toLower`, `IsPlain.parts` — what this says of a name.
-/

namespace PrivateSql

/-- A character that is the same in lower case, and no dot. -/
def isPlainChar (c : Char) : Bool := decide (c.toNat < 0x80) && c.toLower == c && c != '.'

/-- A text of such characters. -/
def IsPlain (s : String) : Prop := ∀ c ∈ s.toList, isPlainChar c = true

namespace IsPlain

variable {s t : String}

/-- Whether a text is plain can be computed. -/
theorem of_all (h : s.toList.all isPlainChar = true) : IsPlain s := List.all_eq_true.mp h

theorem append (hs : IsPlain s) (ht : IsPlain t) : IsPlain (s ++ t) := by
  intro c hc
  rw [String.toList_append, List.mem_append] at hc
  exact hc.elim (hs c) (ht c)

/-- A plain text is in lower case. -/
theorem toLower (h : IsPlain s) : Text.toLower s = s := by
  have hchar : ∀ c ∈ s.toList, c.toNat < 0x80 ∧ c.toLower = c := by
    intro c hc
    have hplain := h c hc
    simp only [isPlainChar, Bool.and_eq_true, decide_eq_true_eq, beq_iff_eq] at hplain
    exact hplain.1
  rw [Text.toLower_ascii fun c hc => (hchar c hc).1]
  have hmap : s.toList.map Char.toLower = s.toList.map id :=
    List.map_congr_left fun c hc => (hchar c hc).2
  rw [hmap, List.map_id, String.ofList_toList]

/-- A plain text is an identifier of one part. -/
theorem parts (h : IsPlain s) : (Identifier.mk s).parts = [s] := by
  refine Identifier.parts_of_undotted fun hdot => ?_
  have hplain : isPlainChar '.' = true := h '.' hdot
  revert hplain
  decide

end IsPlain

/-- The characters of the hashed part of a name are plain. -/
theorem isPlainChar_of_mem_base37 {k n : Nat} {c : Char} (h : c ∈ base37 k n) :
    isPlainChar c = true := by
  have halphabet : nameAlphabet.all isPlainChar = true := by decide
  induction k generalizing n with
  | zero => cases h
  | succ k ih =>
      rcases List.mem_cons.mp h with rfl | htail
      · rw [List.getD_eq_getElem?_getD]
        cases hget : nameAlphabet[n % 37]? with
        | none => decide
        | some d => exact List.all_eq_true.mp halphabet d (List.mem_of_getElem? hget)
      · exact ih htail

/-- **Generated names are plain**, as soon as their first word is. -/
theorem isPlain_generatedName {word : String} (h : IsPlain word) (bytes : List UInt8) :
    IsPlain (generatedName word bytes) := by
  have hunderscore : IsPlain "_" := IsPlain.of_all (by decide)
  refine (h.append hunderscore).append ?_
  intro c hc
  rw [String.toList_ofList] at hc
  exact isPlainChar_of_mem_base37 hc

variable {N : Type}

theorem isPlain_keyName (key : Expr N) : IsPlain (Plan.keyName key) :=
  isPlain_generatedName (IsPlain.of_all (by decide)) _

theorem isPlain_columnName (e : Expr N) : IsPlain e.columnName := by
  have hwords : ∀ f : AggregateFunction, IsPlain (Text.toLower f.name) := by
    intro f
    cases f <;> exact IsPlain.of_all (by decide)
  refine isPlain_generatedName ?_ _
  split
  · exact hwords _
  · exact hwords _
  · exact IsPlain.of_all (by decide)

end PrivateSql
