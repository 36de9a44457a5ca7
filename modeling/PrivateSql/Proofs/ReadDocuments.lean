import Mathlib.Data.List.DropRight
import Mathlib.Data.List.TakeDrop
import PrivateSql.Json.Document
import PrivateSql.Json.Pretty
/-!
# Documents that are read back

A document is written with a line for each item and each member, and read from left to right with as
much fuel as it has characters.  What is written is read again: a text between its quotes, a number up
to the comma or the new line behind it, and a list or an object line by line.  So the text of a block
is read as the document of the same shape, whose scalars are what their texts are read as.

* `exists_quote_eq` — a quoted text is read as the text;
* `numeral_before` — a number is read as it is alone, whatever document follows;
* `Block.isRead_scalar`, `Block.isRead_list`, `Block.isRead_object` — blocks from their parts;
* `read_pretty` — the whole text of a block.
-/

namespace PrivateSql.Json

/-! ## Texts -/

/-- An escaped character is read as the character that the letter stands for. -/
theorem scanCodes_escaped {c d : Char} (h : Document.escaped? d = some c) (rest : List Char) :
    Document.scanCodes ('\\' :: d :: rest) =
      (Document.scanCodes rest).map fun p => (c.toNat :: p.1, p.2) := by
  have hletter : d ≠ 'u' := by
    rintro rfl
    cases h
  rw [Document.scanCodes.eq_4 d rest fun _ _ _ _ _ hd _ => hletter hd, h]
  cases Document.scanCodes rest <;> rfl

/-- A control character is read from the digits of its code. -/
theorem scanCodes_control {n : Nat} (h : n < 0x20) (rest : List Char) :
    Document.scanCodes ('\\' :: 'u' :: '0' :: '0' :: (hexPair n ++ rest)) =
      (Document.scanCodes rest).map fun p => (n :: p.1, p.2) := by
  have hcode : ∀ n < 0x20, Document.code? '0' '0' (Nat.digitChar (n / 16 % 16))
      (Nat.digitChar (n % 16)) = some n := by
    decide
  rw [hexPair, List.cons_append, List.cons_append, List.nil_append, Document.scanCodes.eq_3,
    hcode n h]
  cases Document.scanCodes rest <;> rfl

/-- Any other character stands for itself. -/
theorem scanCodes_plain {c : Char} (hquote : c ≠ '"') (hslash : c ≠ '\\') (h : ¬ c.toNat < 0x20)
    (rest : List Char) :
    Document.scanCodes (c :: rest) =
      (Document.scanCodes rest).map fun p => (c.toNat :: p.1, p.2) := by
  rw [Document.scanCodes.eq_5 c rest hquote (fun _ _ _ _ _ hc _ => hslash hc)
    (fun _ _ hc _ => hslash hc), if_neg h]
  cases Document.scanCodes rest <;> rfl

/-- The code of a character is read from what stands for it between the quotes. -/
theorem scanCodes_quoteChar (c : Char) (rest : List Char) :
    Document.scanCodes (quoteChar c ++ rest) =
      (Document.scanCodes rest).map fun p => (c.toNat :: p.1, p.2) := by
  unfold quoteChar
  split
  case h_8 hquote hslash _ _ _ _ _ =>
    split
    · exact scanCodes_control ‹_› rest
    · exact scanCodes_plain hquote hslash ‹_› rest
  all_goals exact scanCodes_escaped rfl rest

/-- The codes of a text are read between its quotes. -/
theorem scanCodes_quoted (cs rest : List Char) :
    Document.scanCodes (cs.flatMap quoteChar ++ '"' :: rest) = some (cs.map Char.toNat, rest) := by
  induction cs with
  | nil => rfl
  | cons c cs ih =>
      rw [List.flatMap_cons, List.append_assoc, scanCodes_quoteChar, ih]
      rfl

/-- The characters of a text are put together from their codes. -/
theorem combine_toNat (cs : List Char) : Document.combine (cs.map Char.toNat) = some cs := by
  have hvalid : ∀ c : Char, c.toNat < 0xD800 ∨ 0xE000 ≤ c.toNat := by
    intro c
    rcases c.valid with h | h
    · exact .inl h
    · exact .inr h.1
  induction cs with
  | nil => rfl
  | cons c cs ih =>
      have hc := hvalid c
      cases cs with
      | nil =>
          have hnot : ¬ (0xD800 ≤ c.toNat ∧ c.toNat < 0xE000) := by omega
          simp [Document.combine, hnot]
      | cons d cs =>
          have hhigh : ¬ (0xD800 ≤ c.toNat ∧ c.toNat < 0xDC00) := by omega
          have hlow : ¬ (0xDC00 ≤ c.toNat ∧ c.toNat < 0xE000) := by omega
          rw [List.map_cons, List.map_cons, Document.combine, if_neg hhigh, if_neg hlow,
            ← List.map_cons, ih]
          simp

/-- **Texts.**  A text is read back from between its quotes. -/
theorem exists_quote_eq (s : String) :
    ∃ cs, (quote s).toList = '"' :: cs ∧
      ∀ rest, Document.scanText (cs ++ rest) = some (some s, rest) := by
  refine ⟨s.toList.flatMap quoteChar ++ ['"'], String.toList_ofList, fun rest => ?_⟩
  rw [List.append_assoc, List.singleton_append, Document.scanText, scanCodes_quoted]
  simp [combine_toNat]

/-! ## Numbers -/

/-- What may stand behind a number in a document: nothing, a comma, or a new line. -/
def Ends (rest : List Char) : Prop := ∀ c ∈ rest.head?, c = ',' ∨ c = '\n'

variable {rest : List Char}

theorem Ends.not_isDigit (h : Ends rest) : ∀ c ∈ rest.head?, c.isDigit = false := by
  intro c hc
  rcases h c hc with rfl | rfl <;> rfl

/-- Digits that are read do not depend on what follows, unless it goes on with digits. -/
theorem takeDigits_before (h : Ends rest) (cs : List Char) :
    Decimal.takeDigits (cs ++ rest) =
      ((Decimal.takeDigits cs).1, (Decimal.takeDigits cs).2 ++ rest) := by
  simp only [Decimal.takeDigits, List.span_eq_takeWhile_dropWhile]
  induction cs with
  | nil =>
      cases rest with
      | nil => rfl
      | cons c rest => simp [h.not_isDigit c rfl]
  | cons c cs ih =>
      by_cases hc : c.isDigit = true
      · simpa [hc] using ih
      · simp [hc]

/-- The sign of an exponent, is it negative, and what follows. -/
def exponentSign : List Char → Bool × List Char
  | '-' :: cs => (true, cs)
  | '+' :: cs => (false, cs)
  | cs => (false, cs)

/-- The value of an exponent with these digits at its start, and what follows. -/
def exponentValue (isNegative : Bool) (cs : List Char) : Option (Int × List Char) :=
  if (Decimal.takeDigits cs).1.isEmpty then none
  else
    let e := Decimal.ofDigits 0 (Decimal.takeDigits cs).1
    some (if isNegative then -(e : Int) else e, (Decimal.takeDigits cs).2)

theorem scanExponent_cons {c : Char} (hc : c = 'e' ∨ c = 'E') (cs : List Char) :
    Decimal.scanExponent (c :: cs) = exponentValue (exponentSign cs).1 (exponentSign cs).2 := by
  rw [Decimal.scanExponent.eq_def]
  simp only [if_pos hc]
  rfl

theorem exponentSign_before {cs : List Char} (hcs : cs ≠ []) (rest : List Char) :
    exponentSign (cs ++ rest) = ((exponentSign cs).1, (exponentSign cs).2 ++ rest) := by
  cases cs with
  | nil => exact absurd rfl hcs
  | cons c cs =>
      by_cases hminus : c = '-'
      · rw [hminus]
        rfl
      · by_cases hplus : c = '+'
        · rw [hplus]
          rfl
        · have hsign : ∀ cs, exponentSign (c :: cs) = (false, c :: cs) := fun cs =>
            exponentSign.eq_3 (c :: cs) (fun _ h => hminus (List.cons.inj h).1)
              fun _ h => hplus (List.cons.inj h).1
          rw [List.cons_append, hsign, hsign]
          rfl

/-- An exponent that is read does not depend on what follows. -/
theorem scanExponent_before (h : Ends rest) {cs left : List Char} {e : Int}
    (hscan : Decimal.scanExponent cs = some (e, left)) :
    Decimal.scanExponent (cs ++ rest) = some (e, left ++ rest) := by
  cases cs with
  | nil => cases hscan
  | cons c cs =>
      by_cases hc : c = 'e' ∨ c = 'E'
      · rw [List.cons_append]
        rw [scanExponent_cons hc] at hscan ⊢
        have hcs : cs ≠ [] := by
          rintro rfl
          cases hscan
        rw [exponentSign_before hcs]
        simp only [exponentValue, takeDigits_before h] at hscan ⊢
        split at hscan
        · cases hscan
        · rename_i hsome
          rw [if_neg hsome]
          cases hscan
          rfl
      · rw [Decimal.scanExponent.eq_def] at hscan
        simp only [if_neg hc] at hscan
        cases hscan

theorem Ends.not_mark (h : Ends rest) :
    ∀ c ∈ rest.head?, c ≠ '.' ∧ ¬ (c = 'e' ∨ c = 'E') := by
  intro c hc
  rcases h c hc with rfl | rfl <;> decide

/-- Nor does the exponent of a number, which may be missing. -/
theorem numeralExponent_before (h : Ends rest) {cs left : List Char} {e : Option Int}
    (hscan : Numeral.scanExponent cs = some (e, left)) :
    Numeral.scanExponent (cs ++ rest) = some (e, left ++ rest) := by
  cases cs with
  | nil =>
      cases hscan
      cases rest with
      | nil => rfl
      | cons c rest => rw [List.nil_append, Numeral.scanExponent, if_neg (h.not_mark c rfl).2]
  | cons c cs =>
      by_cases hc : c = 'e' ∨ c = 'E'
      · rw [Numeral.scanExponent, if_pos hc] at hscan
        cases hdigits : Decimal.scanExponent (c :: cs) with
        | none => simp [hdigits] at hscan
        | some x =>
            obtain ⟨e', left'⟩ := x
            have hbefore := scanExponent_before h hdigits
            rw [hdigits] at hscan
            cases hscan
            rw [List.cons_append] at hbefore ⊢
            rw [Numeral.scanExponent, if_pos hc, hbefore]
      · rw [Numeral.scanExponent, if_neg hc] at hscan
        cases hscan
        rw [List.cons_append, Numeral.scanExponent, if_neg hc]

/-- Nor does the fraction of a number. -/
theorem scanFraction_before (h : Ends rest) {cs left ds : List Char}
    (hscan : Numeral.scanFraction cs = some (ds, left)) :
    Numeral.scanFraction (cs ++ rest) = some (ds, left ++ rest) := by
  have hnone : ∀ {c : Char} (cs : List Char), c ≠ '.' →
      Numeral.scanFraction (c :: cs) = some ([], c :: cs) := fun cs hc =>
    Numeral.scanFraction.eq_2 _ fun _ heq => hc (List.cons.inj heq).1
  cases cs with
  | nil =>
      cases hscan
      cases rest with
      | nil => rfl
      | cons c rest => exact hnone rest (h.not_mark c rfl).1
  | cons c cs =>
      by_cases hc : c = '.'
      · subst hc
        simp only [List.cons_append, Numeral.scanFraction, takeDigits_before h] at hscan ⊢
        split at hscan
        · cases hscan
        · rename_i hsome
          cases hscan
          rw [if_neg hsome]
      · rw [hnone cs hc] at hscan
        cases hscan
        exact hnone (cs ++ rest) hc

/-- The number at the start of a text whose sign was read, and what follows. -/
def scanUnsigned (isNegative : Bool) (cs : List Char) : Option (Numeral × List Char) :=
  let whole := (Decimal.takeDigits cs).1
  if whole.isEmpty || (whole.length > 1 && whole.head? == some '0') then none
  else
    (Numeral.scanFraction (Decimal.takeDigits cs).2).bind fun f =>
      (Numeral.scanExponent f.2).map fun e => (⟨isNegative, whole, f.1, e.1⟩, e.2)

/-- The sign of a number, is it negative, and what follows. -/
def numeralSign (cs : List Char) : Bool × List Char :=
  match cs with
  | '-' :: rest => (true, rest)
  | _ => (false, cs)

theorem scan_eq_scanUnsigned (cs : List Char) :
    Numeral.scan cs = scanUnsigned (numeralSign cs).1 (numeralSign cs).2 := by
  rw [Numeral.scan.eq_def]
  split
  rename_i isNegative rest hsign
  have hsame : numeralSign cs = (isNegative, rest) := hsign
  rw [hsame]
  simp only [scanUnsigned]
  split
  · rfl
  · cases Numeral.scanFraction (Decimal.takeDigits rest).2 with
    | none => rfl
    | some f => cases hexponent : Numeral.scanExponent f.2 <;> simp [hexponent]

theorem scan_minus (cs : List Char) : Numeral.scan ('-' :: cs) = scanUnsigned true cs :=
  scan_eq_scanUnsigned _

theorem scan_unsigned {c : Char} (hc : c ≠ '-') (cs : List Char) :
    Numeral.scan (c :: cs) = scanUnsigned false (c :: cs) := by
  have hsign : numeralSign (c :: cs) = (false, c :: cs) :=
    numeralSign.eq_2 _ fun _ heq => hc (List.cons.inj heq).1
  rw [scan_eq_scanUnsigned, hsign]

theorem scanUnsigned_before (h : Ends rest) {isNegative : Bool} {cs left : List Char} {n : Numeral}
    (hscan : scanUnsigned isNegative cs = some (n, left)) :
    scanUnsigned isNegative (cs ++ rest) = some (n, left ++ rest) := by
  simp only [scanUnsigned, takeDigits_before h] at hscan ⊢
  split at hscan
  · cases hscan
  · rename_i hwhole
    obtain ⟨⟨ds, cs'⟩, hfraction, htail⟩ := Option.bind_eq_some_iff.mp hscan
    obtain ⟨⟨e, cs''⟩, hexponent, heq⟩ := Option.map_eq_some_iff.mp htail
    cases heq
    rw [if_neg hwhole, scanFraction_before h hfraction, Option.bind_some,
      numeralExponent_before h hexponent]
    rfl

/-- **Numbers.**  A number that is read to the end of its text is read there before a comma or a new
line as well. -/
theorem numeral_before (h : Ends rest) {cs left : List Char} {n : Numeral}
    (hscan : Numeral.scan cs = some (n, left)) :
    Numeral.scan (cs ++ rest) = some (n, left ++ rest) := by
  cases cs with
  | nil => cases hscan
  | cons c cs =>
      by_cases hc : c = '-'
      · subst hc
        rw [List.cons_append]
        rw [scan_minus] at hscan ⊢
        exact scanUnsigned_before h hscan
      · rw [List.cons_append]
        rw [scan_unsigned hc] at hscan ⊢
        exact scanUnsigned_before h hscan

/-- A number begins with a digit or a sign. -/
theorem head_of_scan {cs left : List Char} {n : Numeral} (hscan : Numeral.scan cs = some (n, left)) :
    ∃ c cs', cs = c :: cs' ∧ (c = '-' ∨ c.isDigit = true) := by
  cases cs with
  | nil => cases hscan
  | cons c cs =>
      refine ⟨c, cs, rfl, ?_⟩
      by_cases hc : c = '-'
      · exact .inl hc
      · right
        rw [scan_unsigned hc, scanUnsigned] at hscan
        by_contra hdigit
        have hnone : (Decimal.takeDigits (c :: cs)).1 = [] := by
          simp [Decimal.takeDigits, List.span_eq_takeWhile_dropWhile, hdigit]
        simp [hnone] at hscan

/-! ## Scalars -/

/-- A text is read as a document wherever it stands before a comma, a new line or the end. -/
structure IsScalar (text : List Char) (d : Document) : Prop where
  not_nil : text ≠ []
  scan : ∀ (fuel : Nat) (rest : List Char), Ends rest →
    Document.scan (fuel + 1) (text ++ rest) = (d, some rest)

/-- A quoted text is read as the text. -/
theorem isScalar_quote (s : String) : IsScalar (quote s).toList (.text (some s)) := by
  obtain ⟨cs, hquote, hscan⟩ := exists_quote_eq s
  rw [hquote]
  refine ⟨List.cons_ne_nil _ _, fun fuel rest _ => ?_⟩
  have hskip : Document.skipBlanks ('"' :: (cs ++ rest)) = '"' :: (cs ++ rest) := rfl
  rw [List.cons_append, Document.scan.eq_2, hskip]
  simp only [hscan rest]

theorem isScalar_null : IsScalar "null".toList .null :=
  ⟨by decide, fun _ _ _ => rfl⟩

/-- A number is read as the number. -/
theorem isScalar_number {text : List Char} {n : Numeral} (h : Numeral.scan text = some (n, [])) :
    IsScalar text (.number n) := by
  obtain ⟨c, cs, rfl, hc⟩ := head_of_scan h
  have hother : ∀ d : Char, d ≠ '-' → d.isDigit = false → c ≠ d := by
    rintro d hminus hdigit rfl
    rcases hc with rfl | hc
    · exact hminus rfl
    · rw [hdigit] at hc
      cases hc
  have hblank : Document.isBlank c = false := by
    simp [Document.isBlank, hother ' ' (by decide) rfl, hother '\n' (by decide) rfl,
      hother '\t' (by decide) rfl, hother '\r' (by decide) rfl]
  refine ⟨List.cons_ne_nil _ _, fun fuel rest hrest => ?_⟩
  have hskip : Document.skipBlanks (c :: cs ++ rest) = c :: cs ++ rest := by
    rw [List.cons_append, Document.skipBlanks, List.dropWhile_cons_of_neg (by simp [hblank])]
  rw [Document.scan.eq_2, hskip]
  split
  case h_7 => rw [numeral_before hrest h]; rfl
  all_goals exact absurd (List.cons.inj ‹_›).1 (hother _ (by decide) rfl)

/-! ## Blanks -/

/-- Blanks before a document are passed over. -/
theorem skipBlanks_append {blanks : List Char} (h : ∀ c ∈ blanks, Document.isBlank c = true)
    (cs : List Char) : Document.skipBlanks (blanks ++ cs) = Document.skipBlanks cs :=
  List.dropWhile_append_of_pos h

theorem skipBlanks_skipBlanks (cs : List Char) :
    Document.skipBlanks (Document.skipBlanks cs) = Document.skipBlanks cs :=
  List.dropWhile_idempotent _ cs

theorem scan_skipBlanks (fuel : Nat) (cs : List Char) :
    Document.scan fuel (Document.skipBlanks cs) = Document.scan fuel cs := by
  cases fuel with
  | zero => rfl
  | succ fuel => rw [Document.scan.eq_2, Document.scan.eq_2, skipBlanks_skipBlanks]

theorem scanItems_skipBlanks (fuel : Nat) (cs : List Char) :
    Document.scanItems fuel (Document.skipBlanks cs) = Document.scanItems fuel cs := by
  cases fuel with
  | zero => rfl
  | succ fuel => rw [Document.scanItems.eq_2, Document.scanItems.eq_2, scan_skipBlanks]

theorem scanMembers_skipBlanks (fuel : Nat) (cs : List Char) :
    Document.scanMembers fuel (Document.skipBlanks cs) = Document.scanMembers fuel cs := by
  cases fuel with
  | zero => rfl
  | succ fuel => rw [Document.scanMembers.eq_2, Document.scanMembers.eq_2, skipBlanks_skipBlanks]

/-- A new line and the spaces after it. -/
theorem newline_eq (depth : Nat) :
    (Block.newline depth).toList = '\n' :: List.replicate (2 * depth) ' ' := by
  rw [Block.newline, String.toList_append]
  exact congrArg ('\n' :: ·) String.toList_ofList

theorem isBlank_of_mem_newline {depth : Nat} {c : Char}
    (h : c ∈ (Block.newline depth).toList) : Document.isBlank c = true := by
  rw [newline_eq] at h
  rcases List.mem_cons.mp h with rfl | hspace
  · rfl
  · rw [List.eq_of_mem_replicate hspace]
    rfl

/-! ## Documents over several lines -/

namespace Block

/-- The lines between two brackets, each on a new line. -/
def lines (depth : Nat) (texts : List String) : List Char :=
  (",".intercalate (texts.map (newline depth ++ ·))).toList

theorem lines_singleton (depth : Nat) (t : String) :
    lines depth [t] = (newline depth).toList ++ t.toList := by
  simp [lines]

theorem lines_cons_cons (depth : Nat) (t t' : String) (ts : List String) :
    lines depth (t :: t' :: ts) =
      (newline depth).toList ++ (t.toList ++ ',' :: lines depth (t' :: ts)) := by
  simp [lines, String.intercalate_cons_cons]

theorem enclose_cons (opening closing : String) (depth : Nat) (t : String) (ts : List String) :
    (enclose opening closing depth (t :: ts)).toList =
      opening.toList ++
        (lines (depth + 1) (t :: ts) ++ ((newline depth).toList ++ closing.toList)) := by
  simp [enclose, lines]

/-- Before a closing bracket stand a new line and blanks. -/
theorem skipBlanks_newline (depth : Nat) (c : Char) (hc : Document.isBlank c = false)
    (rest : List Char) :
    Document.skipBlanks ((newline depth).toList ++ c :: rest) = c :: rest := by
  rw [skipBlanks_append fun _ => isBlank_of_mem_newline, Document.skipBlanks,
    List.dropWhile_cons_of_neg (by simp [hc])]

theorem ends_newline (depth : Nat) (rest : List Char) : Ends ((newline depth).toList ++ rest) := by
  rw [newline_eq]
  rintro c hc
  right
  simpa using hc.symm

theorem ends_comma (rest : List Char) : Ends (',' :: rest) := by
  rintro c hc
  left
  simpa using hc.symm

/-- A list whose items can be read does not close at once. -/
theorem skipBlanks_ne_bracket {fuel : Nat} {cs rest : List Char} {ds : List Document}
    (h : Document.scanItems fuel cs = (ds, some rest)) (cs' : List Char) :
    Document.skipBlanks cs ≠ ']' :: cs' := by
  intro hclosed
  cases fuel with
  | zero => cases h
  | succ fuel =>
      rw [← scanItems_skipBlanks, hclosed, Document.scanItems.eq_2] at h
      have hfault : Document.scan fuel (']' :: cs') = (.fault, none) := by cases fuel <;> rfl
      rw [hfault] at h
      cases h

/-- A document is read on a new line as anywhere. -/
theorem scan_newline (depth fuel : Nat) (cs : List Char) :
    Document.scan fuel ((newline depth).toList ++ cs) = Document.scan fuel cs := by
  rw [← scan_skipBlanks, skipBlanks_append fun _ => isBlank_of_mem_newline, scan_skipBlanks]

/-- The text of a block, at any depth, is read as a document wherever it stands before a comma, a new
line or the end. -/
def IsRead (b : Block) (d : Document) : Prop :=
  ∀ (depth fuel : Nat) (rest : List Char), Ends rest →
    2 * (prettyAt depth b).toList.length ≤ fuel →
      Document.scan fuel ((prettyAt depth b).toList ++ rest) = (d, some rest)

theorem isRead_scalar {text : String} {d : Document} (h : IsScalar text.toList d) :
    IsRead (.scalar text) d := by
  intro depth fuel rest hrest hfuel
  rw [prettyAt] at hfuel ⊢
  have hpos := List.length_pos_iff.mpr h.not_nil
  obtain ⟨k, rfl⟩ : ∃ k, fuel = k + 1 := ⟨fuel - 1, by omega⟩
  exact h.scan k rest hrest

/-! ### Lists -/

/-- The lines of a list are read up to its closing bracket. -/
theorem scanItems_lines {bs : List Block} {ds : List Document} (h : List.Forall₂ IsRead bs ds)
    (hne : bs ≠ []) (depth close fuel : Nat) (rest : List Char)
    (hfuel : 2 * (lines depth (prettyItems depth bs)).length + 1 ≤ fuel) :
    Document.scanItems fuel
      (lines depth (prettyItems depth bs) ++ ((newline close).toList ++ ']' :: rest)) =
        (ds, some rest) := by
  induction h generalizing fuel with
  | nil => exact absurd rfl hne
  | @cons b d bs ds h hs ih =>
      obtain ⟨k, rfl⟩ : ∃ k, fuel = k + 1 := ⟨fuel - 1, by omega⟩
      cases hs with
      | nil =>
          rw [prettyItems, prettyItems, lines_singleton] at hfuel ⊢
          rw [List.length_append] at hfuel
          rw [Document.scanItems.eq_2, List.append_assoc, scan_newline,
            h depth k _ (ends_newline close _) (by omega)]
          simp only [skipBlanks_newline close ']' rfl]
      | @cons b' d' bs ds h' hs =>
          have hlines : lines depth (prettyItems depth (b :: b' :: bs)) =
              (newline depth).toList ++
                ((prettyAt depth b).toList ++ ',' :: lines depth (prettyItems depth (b' :: bs))) := by
            rw [prettyItems, prettyItems, lines_cons_cons]
          rw [hlines] at hfuel ⊢
          simp only [List.length_append, List.length_cons] at hfuel
          have htail := ih (List.cons_ne_nil _ _) k (by omega)
          rw [Document.scanItems.eq_2, List.append_assoc, List.append_assoc, List.cons_append,
            scan_newline, h depth k _ (ends_comma _) (by omega)]
          have hskip : ∀ cs, Document.skipBlanks (',' :: cs) = ',' :: cs := fun _ => rfl
          simp only [hskip, htail]

/-- After an opening bracket the items are read, unless a closing one follows. -/
theorem scan_bracket (k : Nat) {cs : List Char}
    (hopen : ∀ cs', Document.skipBlanks cs ≠ ']' :: cs') :
    Document.scan (k + 1) ('[' :: cs) =
      (.list (Document.scanItems k cs).1, (Document.scanItems k cs).2) := by
  have hskip : Document.skipBlanks ('[' :: cs) = '[' :: cs := rfl
  rw [Document.scan.eq_2, hskip, ← scanItems_skipBlanks]
  simp only

/-- **Lists.**  A list is read as the list of what its items are read as. -/
theorem isRead_list {bs : List Block} {ds : List Document} (h : List.Forall₂ IsRead bs ds) :
    IsRead (.list bs) (.list ds) := by
  intro depth fuel rest _ hfuel
  cases h with
  | nil =>
      have hempty : (prettyAt depth (.list [])).toList = ['[', ']'] := by
        simp [prettyAt, prettyItems, enclose]
      rw [hempty] at hfuel ⊢
      obtain ⟨k, rfl⟩ : ∃ k, fuel = k + 1 := ⟨fuel - 1, by simp at hfuel; omega⟩
      rfl
  | @cons b d bs ds h hs =>
      have htext : (prettyAt depth (.list (b :: bs))).toList = '[' ::
          (lines (depth + 1) (prettyItems (depth + 1) (b :: bs)) ++
            ((newline depth).toList ++ [']'])) := by
        rw [prettyAt, prettyItems, enclose_cons]
        rfl
      rw [htext] at hfuel ⊢
      simp only [List.length_cons, List.length_append] at hfuel
      obtain ⟨k, rfl⟩ : ∃ k, fuel = k + 1 := ⟨fuel - 1, by omega⟩
      have hitems := scanItems_lines (.cons h hs) (List.cons_ne_nil _ _) (depth + 1) depth k rest
        (by omega)
      have hopen := scan_bracket k (skipBlanks_ne_bracket hitems)
      simp only [List.cons_append, List.append_assoc, List.nil_append]
      rw [hopen, hitems]

/-! ### Objects -/

/-- A member of an object is read as its name and what its block is read as. -/
def IsMember (m : String × Block) (e : Option String × Document) : Prop :=
  e.1 = some m.1 ∧ IsRead m.2 e.2

/-- The text of a member. -/
def memberText (depth : Nat) (m : String × Block) : String := quote m.1 ++ ": " ++ prettyAt depth m.2

theorem prettyMembers_cons (depth : Nat) (m : String × Block) (ms : List (String × Block)) :
    prettyMembers depth (m :: ms) = memberText depth m :: prettyMembers depth ms := by
  obtain ⟨name, b⟩ := m
  rw [prettyMembers, memberText]

/-- The name of a member is read up to its block, and the block with it. -/
theorem scanMembers_memberText {m : String × Block} {e : Option String × Document}
    (h : IsMember m e) (depth k : Nat) {rest : List Char} (hrest : Ends rest)
    (hfuel : 2 * (memberText depth m).toList.length ≤ k) :
    (∀ rest', Document.skipBlanks rest = '\x7d' :: rest' →
        Document.scanMembers (k + 1)
          ((newline depth).toList ++ ((memberText depth m).toList ++ rest)) = ([e], some rest')) ∧
      ∀ rest', Document.skipBlanks rest = ',' :: rest' →
        Document.scanMembers (k + 1)
          ((newline depth).toList ++ ((memberText depth m).toList ++ rest)) =
            (e :: (Document.scanMembers k rest').1, (Document.scanMembers k rest').2) := by
  obtain ⟨name, b⟩ := m
  obtain ⟨name', d⟩ := e
  obtain ⟨hsame, hread⟩ := h
  dsimp only at hsame hread
  subst hsame
  obtain ⟨cs, hquote, hname⟩ := exists_quote_eq name
  have htext : (memberText depth (name, b)).toList =
      '"' :: (cs ++ ':' :: ' ' :: (prettyAt depth b).toList) := by
    rw [memberText, String.toList_append, String.toList_append, hquote, List.append_assoc]
    rfl
  rw [htext] at hfuel ⊢
  simp only [List.length_cons, List.length_append] at hfuel
  have hblock : Document.scan k (' ' :: ((prettyAt depth b).toList ++ rest)) = (d, some rest) := by
    have hspace : ∀ cs, Document.skipBlanks (' ' :: cs) = Document.skipBlanks cs := fun _ => rfl
    rw [← scan_skipBlanks, hspace, scan_skipBlanks]
    exact hread depth k rest hrest (by omega)
  have hskip : ∀ cs, Document.skipBlanks ('"' :: cs) = '"' :: cs := fun _ => rfl
  have hcolon : ∀ cs, Document.skipBlanks (':' :: cs) = ':' :: cs := fun _ => rfl
  rw [Document.scanMembers.eq_2, skipBlanks_append fun _ => isBlank_of_mem_newline]
  simp only [List.cons_append, List.append_assoc, hskip, hname, hcolon, hblock]
  constructor
  · intro rest' hrest'
    simp only [hrest']
  · intro rest' hrest'
    simp only [hrest']

/-- The lines of an object are read up to its closing bracket. -/
theorem scanMembers_lines {ms : List (String × Block)} {es : List (Option String × Document)}
    (h : List.Forall₂ IsMember ms es) (hne : ms ≠ []) (depth close fuel : Nat) (rest : List Char)
    (hfuel : 2 * (lines depth (prettyMembers depth ms)).length + 1 ≤ fuel) :
    Document.scanMembers fuel
      (lines depth (prettyMembers depth ms) ++ ((newline close).toList ++ '\x7d' :: rest)) =
        (es, some rest) := by
  induction h generalizing fuel with
  | nil => exact absurd rfl hne
  | @cons m e ms es h hs ih =>
      obtain ⟨k, rfl⟩ : ∃ k, fuel = k + 1 := ⟨fuel - 1, by omega⟩
      cases hs with
      | nil =>
          rw [prettyMembers_cons, prettyMembers, lines_singleton] at hfuel ⊢
          rw [List.length_append] at hfuel
          rw [List.append_assoc]
          exact (scanMembers_memberText h depth k (ends_newline close _) (by omega)).1 rest
            (skipBlanks_newline close '\x7d' rfl rest)
      | @cons m' e' ms es h' hs =>
          have hlines : lines depth (prettyMembers depth (m :: m' :: ms)) =
              (newline depth).toList ++ ((memberText depth m).toList ++
                ',' :: lines depth (prettyMembers depth (m' :: ms))) := by
            rw [prettyMembers_cons, prettyMembers_cons, lines_cons_cons]
          rw [hlines] at hfuel ⊢
          simp only [List.length_append, List.length_cons] at hfuel
          have htail := ih (List.cons_ne_nil _ _) k (by omega)
          rw [List.append_assoc, List.append_assoc, List.cons_append,
            (scanMembers_memberText h depth k (ends_comma _) (by omega)).2 _ rfl, htail]

/-- After an opening bracket the members are read, unless a closing one follows. -/
theorem scan_brace (k : Nat) {cs : List Char}
    (hopen : ∀ cs', Document.skipBlanks cs ≠ '\x7d' :: cs') :
    Document.scan (k + 1) ('\x7b' :: cs) =
      (.object (Document.scanMembers k cs).1, (Document.scanMembers k cs).2) := by
  have hskip : Document.skipBlanks ('\x7b' :: cs) = '\x7b' :: cs := rfl
  rw [Document.scan.eq_2, hskip, ← scanMembers_skipBlanks]
  simp only

/-- An object whose members can be read does not close at once. -/
theorem skipBlanks_ne_brace {fuel : Nat} {cs rest : List Char}
    {es : List (Option String × Document)}
    (h : Document.scanMembers fuel cs = (es, some rest)) (cs' : List Char) :
    Document.skipBlanks cs ≠ '\x7d' :: cs' := by
  intro hclosed
  cases fuel with
  | zero => cases h
  | succ fuel =>
      rw [Document.scanMembers.eq_2, hclosed] at h
      cases h

/-- **Objects.**  An object is read as the object of what its members are read as. -/
theorem isRead_object {ms : List (String × Block)} {es : List (Option String × Document)}
    (h : List.Forall₂ IsMember ms es) : IsRead (.object ms) (.object es) := by
  intro depth fuel rest _ hfuel
  cases h with
  | nil =>
      have hempty : (prettyAt depth (.object [])).toList = ['\x7b', '\x7d'] := by
        simp [prettyAt, prettyMembers, enclose]
      rw [hempty] at hfuel ⊢
      obtain ⟨k, rfl⟩ : ∃ k, fuel = k + 1 := ⟨fuel - 1, by simp at hfuel; omega⟩
      rfl
  | @cons m e ms es h hs =>
      have htext : (prettyAt depth (.object (m :: ms))).toList = '\x7b' ::
          (lines (depth + 1) (prettyMembers (depth + 1) (m :: ms)) ++
            ((newline depth).toList ++ ['\x7d'])) := by
        rw [prettyAt, prettyMembers_cons, enclose_cons]
        rfl
      rw [htext] at hfuel ⊢
      simp only [List.length_cons, List.length_append] at hfuel
      obtain ⟨k, rfl⟩ : ∃ k, fuel = k + 1 := ⟨fuel - 1, by omega⟩
      have hmembers := scanMembers_lines (.cons h hs) (List.cons_ne_nil _ _) (depth + 1) depth k
        rest (by omega)
      have hopen := scan_brace k (skipBlanks_ne_brace hmembers)
      simp only [List.cons_append, List.append_assoc, List.nil_append]
      rw [hopen, hmembers]

end Block

/-- **Whole texts.**  The text of a block is read as a whole document. -/
theorem read_pretty {b : Block} {d : Document} (h : b.IsRead d) :
    Document.read b.pretty = (d, true) := by
  have hpretty : Block.prettyAt 0 b = b.pretty := rfl
  have hscan := h 0 (2 * b.pretty.toList.length + 2) [] (by simp [Ends]) (by rw [hpretty]; omega)
  rw [hpretty, List.append_nil] at hscan
  simp only [Document.read, hscan]
  rfl

end PrivateSql.Json
