import PrivateSql.Path.Identifier
import PrivateSql.Proofs.SpelledTokens
/-!
# Numbers and dotted names that are scanned back

A dot goes on with a number, begins one, or stands between the words of a name; which of these it is, the
characters beside it tell.

* `IsNumber`, `spells_number` — the parts of a number, and its token;
* `exists_isNumber_of_ofText?` — whatever is read as a decimal is a number;
* `dottedTokens`, `spells_identifier` — the words of a name.
-/

namespace PrivateSql.Sql

/-! ## Numbers -/

/-- The exponent of a number as it is written, which may be left out. -/
def IsExponent (cs : List Char) : Prop :=
  cs = [] ∨ ∃ e sign ds, (e = 'e' ∨ e = 'E') ∧ sign ∈ [[], ['-'], ['+']] ∧ ds ≠ [] ∧
    ds.all (·.isDigit) = true ∧ cs = e :: (sign ++ ds)

/-- The parts of an unsigned number: digits, a point with digits, and an exponent. -/
structure IsNumber (whole point fraction exponent : List Char) : Prop where
  whole_digits : whole.all (·.isDigit) = true
  fraction_digits : fraction.all (·.isDigit) = true
  pointed : point = ['.'] ∨ point = [] ∧ fraction = []
  not_bare : whole ≠ [] ∨ fraction ≠ []
  scaled : IsExponent exponent

theorem takeDigits_spec (cs : List Char) :
    ∃ ds rest, Decimal.takeDigits cs = (ds, rest) ∧ cs = ds ++ rest ∧ ds.all (·.isDigit) = true := by
  refine ⟨_, _, List.span_eq_takeWhile_dropWhile .., List.takeWhile_append_dropWhile.symm, ?_⟩
  exact List.all_takeWhile

/-- What is read to its end as an exponent is one. -/
theorem isExponent_of_scanExponent {cs : List Char}
    (h : ((Decimal.scanExponent cs).getD (0, cs)).2 = []) : IsExponent cs := by
  have hdigits : ∀ (e : Char) (sign r : List Char), (e = 'e' ∨ e = 'E') → sign ∈ [[], ['-'], ['+']] →
      (Decimal.takeDigits r).1 ≠ [] → (Decimal.takeDigits r).2 = [] → IsExponent (e :: (sign ++ r)) := by
    intro e sign r he hsign hsome hend
    obtain ⟨ds, rest, htake, rfl, hall⟩ := takeDigits_spec r
    rw [htake] at hsome hend
    cases hend
    exact .inr ⟨e, sign, ds, he, hsign, hsome, hall, by rw [List.append_nil]⟩
  match cs, h with
  | [], _ => exact .inl rfl
  | c :: rest, h =>
      by_cases hc : c = 'e' ∨ c = 'E'
      · simp only [Decimal.scanExponent, if_pos hc] at h
        split at h
        · by_cases hsome : (Decimal.takeDigits ‹List Char›).1 = []
          · simp [hsome] at h
          · simp [hsome] at h
            exact hdigits c ['-'] _ hc (by simp) hsome h
        · by_cases hsome : (Decimal.takeDigits ‹List Char›).1 = []
          · simp [hsome] at h
          · simp [hsome] at h
            exact hdigits c ['+'] _ hc (by simp) hsome h
        · by_cases hsome : (Decimal.takeDigits rest).1 = []
          · simp [hsome] at h
          · simp [hsome] at h
            exact hdigits c [] _ hc (by simp) hsome h
      · simp [Decimal.scanExponent, hc] at h

/-- Whatever is read as a decimal is made of such parts. -/
theorem exists_isNumber_of_ofText? {cs : List Char} {d : Decimal} (h : Decimal.ofText? cs = some d) :
    ∃ whole point fraction exponent, IsNumber whole point fraction exponent ∧
      cs = whole ++ (point ++ (fraction ++ exponent)) := by
  have hscan : Decimal.scan cs = some (d, []) := by
    unfold Decimal.ofText? at h
    split at h
    · rename_i heq
      cases h
      exact heq
    · cases h
  obtain ⟨whole, rest, htake, rfl, hwhole⟩ := takeDigits_spec cs
  simp only [Decimal.scan, htake] at hscan
  split at hscan
  · rename_i r
    obtain ⟨fraction, tail, htail, rfl, hfraction⟩ := takeDigits_spec r
    rw [htail] at hscan
    split at hscan
    · cases hscan
    · rename_i hsome
      refine ⟨whole, ['.'], fraction, tail, ⟨hwhole, hfraction, .inl rfl, ?_, ?_⟩, rfl⟩
      · simpa [imp_iff_not_or] using hsome
      · exact isExponent_of_scanExponent (congrArg Prod.snd (Option.some.inj hscan))
  · split at hscan
    · cases hscan
    · rename_i hsome
      refine ⟨whole, [], [], rest, ⟨hwhole, rfl, .inr ⟨rfl, rfl⟩, ?_, ?_⟩, rfl⟩
      · simpa [imp_iff_not_or] using hsome
      · exact isExponent_of_scanExponent (congrArg Prod.snd (Option.some.inj hscan))

theorem scanExponentText_eq {cs after : List Char} (h : IsExponent cs)
    (hafter : ∀ c ∈ after.head?, isBoundary c = true) :
    scanExponentText (cs ++ after) = (cs, after) := by
  have hstop : ∀ c ∈ after.head?, c.isDigit = false := fun c hc => not_isDigit_of_isBoundary (hafter c hc)
  rcases h with rfl | ⟨e, sign, ds, he, hsign, hsome, hall, rfl⟩
  · cases after with
    | nil => rfl
    | cons c rest =>
        have hc := hafter c rfl
        have he : ¬(c = 'e' ∨ c = 'E') := by
          rintro (rfl | rfl) <;> exact absurd hc (by decide)
        simp only [List.nil_append, scanExponentText, if_neg he]
  · obtain ⟨d, ds, rfl⟩ := List.exists_cons_of_ne_nil hsome
    have hspan := span_append hall hstop
    simp only [List.mem_cons, List.not_mem_nil, or_false] at hsign
    rcases hsign with rfl | rfl | rfl
    · have hd : d.isDigit = true := (Bool.and_eq_true_iff.mp hall).1
      have hminus : d ≠ '-' := by rintro rfl; exact absurd hd (by decide)
      have hplus : d ≠ '+' := by rintro rfl; exact absurd hd (by decide)
      rw [List.cons_append] at hspan
      simp only [List.nil_append, List.cons_append, scanExponentText, if_pos he]
      split
      · rename_i heq
        exact absurd (List.cons.inj heq).1 hminus
      · rename_i heq
        exact absurd (List.cons.inj heq).1 hplus
      · rw [hspan]
        rfl
    · rw [List.cons_append] at hspan
      simp only [List.nil_append, List.cons_append, scanExponentText, if_pos he, hspan]
      rfl
    · rw [List.cons_append] at hspan
      simp only [List.nil_append, List.cons_append, scanExponentText, if_pos he, hspan]
      rfl

/-- What follows the digits of a number begins with no sign that would go on with them. -/
theorem head_of_isExponent {cs after : List Char} (h : IsExponent cs)
    (hafter : ∀ c ∈ after.head?, isBoundary c = true) :
    ∀ c ∈ (cs ++ after).head?, c.isDigit = false ∧ c ≠ '.' ∧ c ≠ 'x' := by
  intro c hc
  rcases h with rfl | ⟨e, sign, ds, he, -, -, -, rfl⟩
  · have hboundary := hafter c hc
    refine ⟨not_isDigit_of_isBoundary hboundary, ?_, ?_⟩
    · rintro rfl
      exact absurd hboundary (by decide)
    · rintro rfl
      exact absurd hboundary (by decide)
  · cases hc
    rcases he with rfl | rfl <;> decide

/-- A number is scanned as a whole. -/
theorem scanNumber_eq {whole point fraction exponent after : List Char}
    (h : IsNumber whole point fraction exponent)
    (hafter : ∀ c ∈ after.head?, isBoundary c = true) :
    scanNumber (whole ++ (point ++ (fraction ++ (exponent ++ after)))) =
      (.number (String.ofList (whole ++ (point ++ (fraction ++ exponent)))) false, after) := by
  have htail := head_of_isExponent h.scaled hafter
  have hexponent := scanExponentText_eq h.scaled hafter
  have hlong : ∀ rest, after ≠ 'L' :: rest := by
    rintro rest rfl
    exact absurd (hafter 'L' rfl) (by decide)
  have hsome : ¬(whole.isEmpty && fraction.isEmpty) = true := by
    simpa [imp_iff_not_or] using h.not_bare
  have hfraction : (fraction ++ (exponent ++ after)).span (·.isDigit) = (fraction, exponent ++ after) :=
    span_append h.fraction_digits fun c hc => (htail c hc).1
  rcases h.pointed with rfl | ⟨rfl, rfl⟩
  · have hwhole : (whole ++ ('.' :: (fraction ++ (exponent ++ after)))).span (·.isDigit) =
        (whole, '.' :: (fraction ++ (exponent ++ after))) :=
      span_append h.whole_digits (by rintro c ⟨⟩; decide)
    simp only [List.singleton_append, scanNumber, hwhole]
    split
    · rename_i heq
      cases heq
    · simp only [hfraction, if_neg hsome, hexponent]
      simp
  · have hwhole : (whole ++ (exponent ++ after)).span (·.isDigit) = (whole, exponent ++ after) :=
      span_append h.whole_digits fun c hc => (htail c hc).1
    simp only [List.nil_append, scanNumber, hwhole]
    split
    · rename_i heq
      exact absurd rfl (htail 'x' (by rw [heq]; rfl)).2.2
    · split
      · rename_i heq
        exact absurd rfl (htail '.' (by rw [heq]; rfl)).2.1
      · simp only [List.nil_append] at hfraction
        simp only [hfraction, if_neg hsome, hexponent]
        simp

theorem not_isBlank_of_isDigit {c : Char} (h : c.isDigit = true ∨ c = '.') : Text.isBlank c = false := by
  rw [Bool.eq_false_iff]
  intro hblank
  have hnone : (c.isDigit || c == '.') = false :=
    eq_false_of_inRanges (p := fun c => c.isDigit || c == '.') (by decide) hblank
  simp only [Bool.or_eq_false_iff, beq_eq_false_iff_ne] at hnone
  rcases h with h | h
  · rw [hnone.1] at h
    cases h
  · exact hnone.2 h

theorem scanToken_of_isDigit {c : Char} {text : List Char} (h : c.isDigit = true ∨ c = '.') :
    scanToken c text = .ok (some (scanNumber (c :: text)).1, (scanNumber (c :: text)).2) := by
  have hne : ∀ d : Char, d.isDigit = false → d ≠ '.' → c ≠ d := by
    rintro d hd hpoint rfl
    rcases h with h | h
    · rw [hd] at h
      cases h
    · exact hpoint h
  have hquote : ¬(c = '"' ∨ c = '`') := by
    rintro (rfl | rfl)
    · exact hne '"' (by decide) (by decide) rfl
    · exact hne '`' (by decide) (by decide) rfl
  have hletter : ∀ ds : List Char, ds.all (fun d => !d.isDigit && d != '.') = true → c ∉ ds := by
    intro ds hds hmem
    have hc := List.all_eq_true.mp hds c hmem
    simp only [Bool.and_eq_true, Bool.not_eq_true', bne_iff_ne] at hc
    exact hne c hc.1 hc.2 rfl
  unfold scanToken
  rw [if_neg (by simp [not_isBlank_of_isDigit h])]
  split
  · exact absurd rfl (hne '-' (by decide) (by decide))
  · exact absurd rfl (hne '/' (by decide) (by decide))
  · exact absurd rfl (hne '\'' (by decide) (by decide))
  · simp only [hquote, hletter ['b', 'B', 'r', 'R'] (by decide),
      hletter ['n', 'N', 'e', 'E', 'x', 'X'] (by decide), h, if_false, if_true, and_false]
  · simp only [hquote, h, if_false, if_true]

/-- A number is scanned as the number it is written for. -/
theorem spells_number {s : String} {whole point fraction exponent : List Char}
    (h : IsNumber whole point fraction exponent)
    (hs : s.toList = whole ++ (point ++ (fraction ++ exponent))) : Spells s [.number s false] := by
  have hhead : ∃ c cs, s.toList = c :: cs ∧ (c.isDigit = true ∨ c = '.') := by
    rw [hs]
    match whole, h with
    | c :: cs, h => exact ⟨c, _, rfl, .inl (Bool.and_eq_true_iff.mp h.whole_digits).1⟩
    | [], h =>
        rcases h.pointed with rfl | ⟨-, hfraction⟩
        · exact ⟨'.', _, rfl, .inr rfl⟩
        · exact absurd hfraction (h.not_bare.resolve_left (by simp))
  obtain ⟨c, cs, hcs, hc⟩ := hhead
  refine spells_token hcs fun after hafter => ?_
  have hnumber := scanNumber_eq h hafter
  rw [← hs, String.ofList_toList] at hnumber
  have htext : c :: (cs ++ after) = whole ++ (point ++ (fraction ++ (exponent ++ after))) := by
    rw [← List.cons_append, ← hcs, hs]
    simp only [List.append_assoc]
  rw [scanToken_of_isDigit hc, htext, hnumber]

/-! ## Dotted names -/

/-- The tokens of words with dots between them. -/
def dottedTokens : List String → List Token
  | [] => []
  | s :: others => bareWord s :: others.flatMap fun part => [.symbol ".", bareWord part]

/-- A dot before a word is scanned as a sign. -/
theorem scans_dot {c : Char} {cs : List Char} {ts : List Token} (hc : c.isDigit = false)
    (h : Scans (c :: cs) ts) : Scans ('.' :: c :: cs) (.symbol "." :: ts) := by
  have hnumber : scanNumber ('.' :: c :: cs) = (.symbol ".", c :: cs) := by
    simp [scanNumber, List.span_eq_takeWhile_dropWhile, hc]
  have htoken : scanToken '.' (c :: cs) = .ok (some (.symbol "."), c :: cs) := by
    rw [scanToken_of_isDigit (.inr rfl), hnumber]
  exact scans_step htoken (Nat.le_refl _) h

/-- A name goes on with a dot or ends at a boundary. -/
theorem endsWord_of_dotted {others : List String} {after : List Char}
    (hafter : ∀ c ∈ after.head?, isBoundary c = true) :
    ∀ c ∈ (others.flatMap (fun part => '.' :: part.toList) ++ after).head?, endsWord c = true := by
  intro c hc
  cases others with
  | nil => exact endsWord_of_isBoundary (hafter c hc)
  | cons part others =>
      cases hc
      decide

/-- The words behind the first one of a name, each with its dot. -/
theorem scans_dotted {others : List String} {after : List Char} {rest : List Token}
    (hothers : ∀ part ∈ others, isBareWord part.toList = true)
    (hafter : ∀ c ∈ after.head?, isBoundary c = true) (h : Scans after rest) :
    Scans (others.flatMap (fun part => '.' :: part.toList) ++ after)
      (others.flatMap (fun part => [.symbol ".", bareWord part]) ++ rest) := by
  induction others with
  | nil => exact h
  | cons part others ih =>
      have hword := scans_word (hothers part List.mem_cons_self) (endsWord_of_dotted hafter)
        (ih fun p hp => hothers p (List.mem_cons_of_mem _ hp))
      obtain ⟨c, cs, hcs, hc⟩ := exists_start_of_isBareWord (hothers part List.mem_cons_self)
      rw [hcs] at hword
      simp only [List.flatMap_cons, List.cons_append, List.nil_append, List.append_assoc, hcs]
      exact scans_dot (not_isDigit_of_isWordStart hc) hword

/-- A name is scanned as its words. -/
theorem spells_identifier {id : Identifier} (h : ∀ part ∈ id.parts, isBareWord part.toList = true) :
    Spells id.text (dottedTokens id.parts) := by
  intro after rest hafter hscans
  obtain ⟨first, others, hparts, htext⟩ : ∃ first others, id.parts = first :: others ∧
      id.text.toList = first.toList ++ others.flatMap fun part => '.' :: part.toList := by
    refine ⟨_, _, rfl, ?_⟩
    rw [String.toList_ofList, List.flatMap_map]
    simp only [String.toList_ofList]
    exact (Identifier.append_splitDots id.text.toList).symm
  rw [hparts] at h
  rw [htext, hparts, List.append_assoc]
  exact scans_word (h first List.mem_cons_self) (endsWord_of_dotted hafter)
    (scans_dotted (fun part hpart => h part (List.mem_cons_of_mem _ hpart)) hafter hscans)

end PrivateSql.Sql
