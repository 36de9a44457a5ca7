import Mathlib.Data.List.Basic
import PrivateSql.Path.Basic
/-!
# Lower case is settled

Names are put in lower case more than once on their way into a map, so it matters that a text in
lower case stays as it is.  The table of cases is searched for it: no character that the table leads
to is moved again, and neither form of the small sigma is.  Operators are compared in upper case, so it
matters that symbols are the upper case of nothing else.  Some names are compared up to the case of
ASCII letters only, which tells more texts apart.

* `Text.toLower_toLower` — a text in lower case is its own lower case;
* `Text.eq_of_toUpper` — a text of symbols is the upper case of itself only;
* `Text.toLower_eq_of_eqIgnoringAsciiCase` — texts that differ in ASCII letters have one lower case;
* `Path.normalize_normalize` — a normal path is its own normal form.
-/

namespace PrivateSql

namespace Text

/-- A character that is its own lower case, wherever it stands. -/
def IsSettled (c : Char) : Prop := lowerChar c = [c] ∧ c ≠ 'Σ'

instance (c : Char) : Decidable (IsSettled c) := by unfold IsSettled; infer_instance

/-- A text of settled characters is not changed by lower case. -/
theorem lowerFrom_of_settled {before cs : List Char} (h : ∀ c ∈ cs, IsSettled c) :
    lowerFrom before cs = cs := by
  induction cs generalizing before with
  | nil => rfl
  | cons c cs ih =>
      obtain ⟨hlower, hsigma⟩ := h c List.mem_cons_self
      have htail := @ih (c :: before) fun d hd => h d (List.mem_cons_of_mem _ hd)
      rw [lowerFrom, if_neg hsigma, hlower, htail]
      rfl

/-- The lower case of an ASCII character is settled. -/
theorem isSettled_toLower_of_ascii {c : Char} (h : c.toNat < 0x80) : IsSettled c.toLower := by
  have hall : ∀ n < 0x80, IsSettled (Char.ofNat n).toLower := by decide
  simpa using hall c.toNat h

/-- Is no character that the first run leads to moved by the second one?  They lie apart, or at odd
distances where every other character is moved. -/
def CaseRun.leavesAlone (r r' : CaseRun) : Bool :=
  Nat.blt r'.last (r.first + r.shift).toNat || Nat.blt (r.last + r.shift).toNat r'.first ||
    ((r.step == 2 || r.first == r.last) && r'.step == 2
      && ((r.first + r.shift).toNat + r'.first) % 2 == 1)

/-- What a run leads to is not moved by the runs that it leaves alone. -/
theorem CaseRun.moved?_eq_none {r r' : CaseRun} {c n : Nat} (hshift : 0 ≤ r.first + r.shift)
    (h : r.moved? c = some n) (hapart : r.leavesAlone r' = true) : r'.moved? n = none := by
  unfold moved? at h
  split at h
  · rename_i hin
    cases h
    rw [moved?, if_neg]
    rintro ⟨hfirst, hlast, hstep⟩
    simp only [leavesAlone, Bool.or_eq_true, Bool.and_eq_true, Nat.blt_eq, beq_iff_eq] at hapart
    rcases hapart with (hbelow | habove) | ⟨⟨hevery, hother⟩, hodd⟩
    · omega
    · omega
    · rw [hother] at hstep
      rcases hevery with htwo | hsingle
      · rw [htwo] at hin
        omega
      · omega
  · cases h

/-- The characters with a long lower case, as runs. -/
def expansionRuns : List CaseRun := lowerExpansions.map fun e => ⟨e.1, e.1, 1, 0⟩

/-- No run leads to a character that the tables move. -/
theorem lowerRuns_leave_alone {r r' : CaseRun} (hr : r ∈ lowerRuns)
    (hr' : r' ∈ lowerRuns ++ expansionRuns) : r.leavesAlone r' = true := by
  have hall : lowerRuns.all (fun r => (lowerRuns ++ expansionRuns).all r.leavesAlone) = true := by
    decide +kernel
  exact List.all_eq_true.mp (List.all_eq_true.mp hall r hr) r' hr'

/-- A code point that the tables do not move stands for a settled character. -/
theorem isSettled_of_unmoved {n : Nat} (h : ∀ r ∈ lowerRuns ++ expansionRuns, r.moved? n = none) :
    IsSettled (Char.ofNat n) := by
  by_cases hvalid : n.isValidChar
  · have hcode : (Char.ofNat n).toNat = n := by
      rw [Char.ofNat, dif_pos hvalid]
      rfl
    have hruns : lowerRuns.findSome? (·.moved? n) = none :=
      List.findSome?_eq_none_iff.mpr fun r hr => h r (List.mem_append_left _ hr)
    by_cases hascii : n < 0x80
    · have hall : ∀ n < 0x80, CaseRun.moved? ⟨0x41, 0x5A, 1, 32⟩ n = none →
          IsSettled (Char.ofNat n) := by
        decide
      exact hall n hascii (h _ (List.mem_append_left _ List.mem_cons_self))
    · have hshort : lowerExpansions.lookup n = none := by
        rw [List.lookup_eq_none_iff]
        intro e he
        have hrun := h ⟨e.1, e.1, 1, 0⟩ (List.mem_append_right _ (List.mem_map_of_mem he))
        simp only [CaseRun.moved?] at hrun
        by_contra heq
        have hsame : n = e.1 := by simpa using heq
        simp [hsame] at hrun
      constructor
      · rw [lowerChar, hcode, if_neg hascii, mapCase, hcode, hshort]
        simp [applyRuns, hruns]
      · intro hsigma
        have hn : n = 0x3A3 := by rw [← hcode, hsigma]; rfl
        rw [hn] at hruns
        revert hruns
        decide
  · have hzero : Char.ofNat n = Char.ofNat 0 := by
      rw [Char.ofNat, dif_neg hvalid]
      rfl
    rw [hzero]
    decide

/-- Where a run leads, no run leads further. -/
theorem isSettled_of_moved {r : CaseRun} {c n : Nat} (hr : r ∈ lowerRuns)
    (h : r.moved? c = some n) : IsSettled (Char.ofNat n) := by
  have hshift : ∀ r ∈ lowerRuns, 0 ≤ r.first + r.shift := by decide +kernel
  apply isSettled_of_unmoved
  intro r' hr'
  exact CaseRun.moved?_eq_none (hshift r hr) h (lowerRuns_leave_alone hr hr')

/-- The long lower cases are settled. -/
theorem isSettled_of_expansion {c : Nat} {cs : List Nat} (h : lowerExpansions.lookup c = some cs) :
    ∀ n ∈ cs, IsSettled (Char.ofNat n) := by
  have hall : ∀ e ∈ lowerExpansions, ∀ n ∈ e.2, IsSettled (Char.ofNat n) := by decide
  obtain ⟨before, after, hsplit, -⟩ := List.lookup_eq_some_iff.mp h
  have hmem : (c, cs) ∈ lowerExpansions := by simp [hsplit]
  exact hall (c, cs) hmem

/-- Every character of a lower case is settled. -/
theorem isSettled_of_mem_lowerChar {c d : Char} (hc : c ≠ 'Σ') (h : d ∈ lowerChar c) :
    IsSettled d := by
  by_cases hascii : c.toNat < 0x80
  · rw [lowerChar, if_pos hascii, List.mem_singleton] at h
    rw [h]
    exact isSettled_toLower_of_ascii hascii
  · rw [lowerChar, if_neg hascii, mapCase] at h
    cases hlong : lowerExpansions.lookup c.toNat with
    | some cs =>
        rw [hlong] at h
        obtain ⟨n, hn, rfl⟩ := List.mem_map.mp h
        exact isSettled_of_expansion hlong n hn
    | none =>
        simp only [hlong, List.mem_singleton] at h
        cases hmoved : lowerRuns.findSome? (·.moved? c.toNat) with
        | some n =>
            obtain ⟨r, hr, hn⟩ := List.exists_of_findSome?_eq_some hmoved
            rw [h, applyRuns, hmoved]
            exact isSettled_of_moved hr hn
        | none =>
            have hd : d = c := by simp [h, applyRuns, hmoved]
            refine ⟨?_, hd ▸ hc⟩
            rw [hd, lowerChar, if_neg hascii, mapCase, hlong]
            simp [applyRuns, hmoved]

/-- Every character of a text in lower case is settled. -/
theorem isSettled_of_mem_lowerFrom {before cs : List Char} {d : Char}
    (h : d ∈ lowerFrom before cs) : IsSettled d := by
  induction cs generalizing before with
  | nil => cases h
  | cons c cs ih =>
      unfold lowerFrom at h
      split at h
      · rcases List.mem_cons.mp h with rfl | htail
        · split <;> decide
        · exact ih htail
      · rename_i hsigma
        rcases List.mem_append.mp h with hhead | htail
        · exact isSettled_of_mem_lowerChar hsigma hhead
        · exact ih htail

/-- **Lower case is settled.**  A text in lower case is its own lower case. -/
theorem toLower_toLower (s : String) : toLower (toLower s) = toLower s := by
  have hsettled : ∀ d ∈ lowerFrom [] s.toList, IsSettled d := fun d hd =>
    isSettled_of_mem_lowerFrom hd
  simp only [toLower, String.toList_ofList, lowerFrom_of_settled hsettled]

/-! ## The upper case of symbols -/

/-- A symbol below the letters is the upper case of itself only. -/
theorem eq_of_mem_upperChar {c d : Char} (h : d ∈ upperChar c) (hd : d.toNat < 0x41) :
    upperChar c = [c] ∧ d = c := by
  by_cases hascii : c.toNat < 0x80
  · rw [upperChar, if_pos hascii, List.mem_singleton] at h
    have hall : ∀ n < 0x80, (Char.ofNat n).toUpper.toNat < 0x41 →
        (Char.ofNat n).toUpper = Char.ofNat n := by
      decide
    have hsame : c.toUpper = c := by
      simpa using hall c.toNat hascii (by simpa using h ▸ hd)
    rw [upperChar, if_pos hascii, hsame]
    exact ⟨rfl, h.trans hsame⟩
  · rw [upperChar, if_neg hascii, mapCase] at h ⊢
    cases hlong : upperExpansions.lookup c.toNat with
    | some cs =>
        have hall : ∀ e ∈ upperExpansions, ∀ n ∈ e.2, ¬ (Char.ofNat n).toNat < 0x41 := by
          decide
        rw [hlong] at h
        obtain ⟨n, hn, rfl⟩ := List.mem_map.mp h
        obtain ⟨before, after, hsplit, -⟩ := List.lookup_eq_some_iff.mp hlong
        exact absurd hd (hall (c.toNat, cs) (by simp [hsplit]) n hn)
    | none =>
        rw [hlong] at h
        obtain rfl := List.mem_singleton.mp h
        cases hmoved : upperRuns.findSome? (·.moved? c.toNat) with
        | some n =>
            -- No run leads below the letters, nor to a number that stands for no character.
            have hall : ∀ r ∈ upperRuns,
                0x41 ≤ (r.first : Int) + r.shift ∧ ((r.last : Int) + r.shift).toNat < 0xD800 ∨
                  0xE000 ≤ (r.first : Int) + r.shift ∧ ((r.last : Int) + r.shift).toNat < 0x110000 := by
              decide +kernel
            obtain ⟨r, hr, hn⟩ := List.exists_of_findSome?_eq_some hmoved
            unfold CaseRun.moved? at hn
            split at hn
            · cases hn
              have hrange := hall r hr
              rw [applyRuns, hmoved, Option.getD_some] at hd
              have hvalid : ((c.toNat : Int) + r.shift).toNat.isValidChar := by
                unfold Nat.isValidChar
                omega
              rw [Char.ofNat, dif_pos hvalid] at hd
              have hcode : ((c.toNat : Int) + r.shift).toNat < 0x41 := hd
              omega
            · cases hn
        | none => simp [applyRuns, hmoved]

theorem upperChar_ne_nil (c : Char) : upperChar c ≠ [] := by
  have hall : ∀ e ∈ upperExpansions, e.2 ≠ [] := by decide
  rw [upperChar]
  split
  · exact List.cons_ne_nil _ _
  · rw [mapCase]
    cases hlong : upperExpansions.lookup c.toNat with
    | some cs =>
        obtain ⟨before, after, hsplit, -⟩ := List.lookup_eq_some_iff.mp hlong
        simpa using hall (c.toNat, cs) (by simp [hsplit])
    | none => exact List.cons_ne_nil _ _

/-- **Symbols have no case.**  A text of symbols below the letters is the upper case of itself only. -/
theorem eq_of_toUpper {s t : String} (h : toUpper s = t) (ht : ∀ c ∈ t.toList, c.toNat < 0x41) :
    s = t := by
  have hsame : ∀ cs : List Char, (∀ d ∈ cs.flatMap upperChar, d.toNat < 0x41) →
      cs.flatMap upperChar = cs := by
    intro cs
    induction cs with
    | nil => exact fun _ => rfl
    | cons c cs ih =>
        intro hall
        rw [List.flatMap_cons] at hall ⊢
        obtain ⟨d, hd⟩ := List.exists_mem_of_ne_nil _ (upperChar_ne_nil c)
        have hupper := (eq_of_mem_upperChar hd (hall d (List.mem_append_left _ hd))).1
        rw [hupper, ih fun d hd => hall d (List.mem_append_right _ hd)]
        rfl
  have hchars : s.toList.flatMap upperChar = t.toList := by rw [← h, toUpper, String.toList_ofList]
  rw [← hchars] at ht
  exact String.toList_injective ((hsame s.toList ht).symm.trans hchars)

/-! ## The letters of ASCII -/

/-- A character outside of ASCII is not one of its letters. -/
theorem toLower_of_not_ascii {c : Char} (h : ¬ c.toNat < 0x80) : c.toLower = c := by
  have hupper : ¬ (c.val ≥ 'A'.val ∧ c.val ≤ 'Z'.val) := by
    rintro ⟨-, hlast⟩
    have hcode : c.toNat ≤ 0x5A := UInt32.le_iff_toNat_le.mp hlast
    omega
  exact dif_neg hupper

/-- What the letters of ASCII do not change, lower case does not either. -/
theorem eq_of_ascii_toLower {β : Type} {f : Char → β}
    (h : ∀ n < 0x80, f (Char.ofNat n).toLower = f (Char.ofNat n)) (c : Char) :
    f c.toLower = f c := by
  by_cases hascii : c.toNat < 0x80
  · simpa using h c.toNat hascii
  · rw [toLower_of_not_ascii hascii]

/-- Only the ranges that begin in ASCII hold a character of it. -/
theorem inRanges_of_ascii {ranges few : List (Nat × Nat)} {c : Char}
    (hfew : ranges.filter (fun r => Nat.blt r.1 0x80) = few) (hc : c.toNat < 0x80) :
    inRanges ranges c = inRanges few c := by
  rw [← hfew, inRanges, inRanges, List.any_filter]
  congr 1
  funext r
  by_cases hfirst : r.1 < 0x80
  · have hblt : Nat.blt r.1 0x80 = true := Nat.blt_eq.mpr hfirst
    rw [hblt, Bool.true_and]
  · have hout : ¬ (r.1 ≤ c.toNat ∧ c.toNat ≤ r.2) := by omega
    simp [hout]

theorem inRanges_toLower {ranges few : List (Nat × Nat)}
    (hfew : ranges.filter (fun r => Nat.blt r.1 0x80) = few)
    (hascii : ∀ n < 0x80, inRanges few (Char.ofNat n).toLower = inRanges few (Char.ofNat n))
    (c : Char) : inRanges ranges c.toLower = inRanges ranges c := by
  by_cases hc : c.toNat < 0x80
  · have hlower : c.toLower.toNat < 0x80 := by
      have hall : ∀ n < 0x80, (Char.ofNat n).toLower.toNat < 0x80 := by decide
      simpa using hall c.toNat hc
    rw [inRanges_of_ascii hfew hlower, inRanges_of_ascii hfew hc]
    exact eq_of_ascii_toLower hascii c
  · rw [toLower_of_not_ascii hc]

theorem startsCased_map_toLower (cs : List Char) :
    startsCased (cs.map Char.toLower) = startsCased cs := by
  have hfewIgnorable : caseIgnorableRanges.filter (fun r => Nat.blt r.1 0x80) =
      [(0x27, 0x27), (0x2E, 0x2E), (0x3A, 0x3A), (0x5E, 0x5E), (0x60, 0x60)] := by decide
  have hfewCased : casedRanges.filter (fun r => Nat.blt r.1 0x80) =
      [(0x41, 0x5A), (0x61, 0x7A)] := by decide
  have hignorable : inRanges caseIgnorableRanges ∘ Char.toLower = inRanges caseIgnorableRanges :=
    funext (inRanges_toLower hfewIgnorable (by decide))
  have hcased : ∀ c : Char, inRanges casedRanges c.toLower = inRanges casedRanges c :=
    inRanges_toLower hfewCased (by decide)
  rw [startsCased, startsCased, List.dropWhile_map, hignorable]
  cases cs.dropWhile (inRanges caseIgnorableRanges) with
  | nil => rfl
  | cons c _ => exact hcased c

/-- Letters of ASCII may be put in lower case before the others. -/
theorem lowerFrom_map_toLower (before cs : List Char) :
    lowerFrom (before.map Char.toLower) (cs.map Char.toLower) = lowerFrom before cs := by
  have hsigma : ∀ c : Char, decide (c.toLower = 'Σ') = decide (c = 'Σ') :=
    @eq_of_ascii_toLower Bool (fun c => decide (c = 'Σ')) (by decide)
  have hlower : ∀ c : Char, lowerChar c.toLower = lowerChar c :=
    fun c => eq_of_ascii_toLower (by decide) c
  induction cs generalizing before with
  | nil => rfl
  | cons c cs ih =>
      have htail := ih (c :: before)
      rw [List.map_cons] at htail
      simp only [List.map_cons, lowerFrom, decide_eq_decide.mp (hsigma c), hlower,
        startsCased_map_toLower, htail]

/-- **Fewer letters.**  Texts that are equal up to the case of ASCII letters have one lower case. -/
theorem toLower_eq_of_eqIgnoringAsciiCase {s t : String} (h : eqIgnoringAsciiCase s t = true) :
    toLower s = toLower t := by
  have hchars : s.toList.map Char.toLower = t.toList.map Char.toLower := by
    simpa [eqIgnoringAsciiCase] using h
  rw [toLower, toLower, ← lowerFrom_map_toLower [] s.toList, ← lowerFrom_map_toLower [] t.toList,
    hchars]

/-- For ASCII texts it is the same as having one lower case. -/
theorem eqIgnoringAsciiCase_iff_of_ascii {s t : String} (hs : ∀ c ∈ s.toList, c.toNat < 0x80)
    (ht : ∀ c ∈ t.toList, c.toNat < 0x80) :
    eqIgnoringAsciiCase s t = true ↔ toLower s = toLower t := by
  rw [toLower_ascii hs, toLower_ascii ht, String.ofList_inj, eqIgnoringAsciiCase, beq_iff_eq]

end Text

/-- A normal path is its own normal form. -/
theorem Path.normalize_normalize (parts : List String) :
    Path.normalize (Path.normalize parts) = Path.normalize parts := by
  simp [Path.normalize, Text.toLower_toLower]

theorem Path.normalize_append (p p' : List String) :
    Path.normalize (p ++ p') = Path.normalize p ++ Path.normalize p' := by
  simp [Path.normalize]

end PrivateSql
