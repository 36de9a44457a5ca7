import Mathlib.Data.List.TakeDrop
import PrivateSql.Sql.Token.Scan
import PrivateSql.Value.Basic
/-!
# Texts that are scanned back

What tokens a text is cut into that is put together from pieces.  A piece spells its tokens when it is
cut into them before whatever may follow a piece: a blank, a comma, a parenthesis, or nothing.

* `Scans`, `Spells` — a text, and a piece of a text, with its tokens;
* `spells_word`, `spells_quoteSql`, `spells_sign` — words, texts and signs.
-/

namespace PrivateSql.Sql

/-! ## Texts and pieces -/

/-- A text is cut into these tokens, whatever fuel it is given beyond its length. -/
def Scans (cs : List Char) (ts : List Token) : Prop :=
  ∀ fuel, cs.length ≤ fuel → scanFrom fuel cs = .ok ts

theorem scan_eq {s : String} {ts : List Token} (h : Scans s.toList ts) : Token.scan s = .ok ts :=
  h _ (Nat.le_refl _)

theorem scans_nil : Scans [] [] := by
  intro fuel _
  cases fuel <;> rfl

theorem Scans.unique {cs : List Char} {ts ts' : List Token} (h : Scans cs ts) (h' : Scans cs ts') :
    ts = ts' :=
  Except.ok.inj ((h _ (Nat.le_refl _)).symm.trans (h' _ (Nat.le_refl _)))

/-- One token, or one blank, at the start of a text. -/
theorem scans_step {c : Char} {cs after : List Char} {token : Option Token} {ts : List Token}
    (htoken : scanToken c cs = .ok (token, after)) (hlength : after.length ≤ cs.length)
    (h : Scans after ts) : Scans (c :: cs) (token.toList ++ ts) := by
  intro fuel hfuel
  cases fuel with
  | zero => simp at hfuel
  | succ fuel =>
      have hafter : scanFrom fuel after = .ok ts := by
        refine h fuel ?_
        rw [List.length_cons] at hfuel
        omega
      simp only [scanFrom, htoken]
      exact congrArg (fun found => found >>= fun tokens => pure (token.toList ++ tokens)) hafter

theorem Scans.blank {cs : List Char} {ts : List Token} (h : Scans cs ts) : Scans (' ' :: cs) ts := by
  have hblank : scanToken ' ' cs = .ok (none, cs) := by
    simp only [scanToken]
    rw [if_pos (by decide)]
  exact scans_step hblank (Nat.le_refl _) h

/-- The characters that may follow a piece: none of them goes on with a token. -/
def isBoundary (c : Char) : Bool := c = ' ' || c = ')' || c = ',' || c = '('

/-- A piece of a text that is cut into these tokens before each boundary. -/
def Spells (s : String) (ts : List Token) : Prop :=
  ∀ after rest, (∀ c ∈ after.head?, isBoundary c = true) → Scans after rest →
    Scans (s.toList ++ after) (ts ++ rest)

theorem Spells.scans {s : String} {ts : List Token} (h : Spells s ts) : Scans s.toList ts := by
  have hnil := h [] [] (by simp) scans_nil
  rwa [List.append_nil, List.append_nil] at hnil

/-- A piece that is cut into one token. -/
theorem spells_token {s : String} {t : Token} {c : Char} {cs : List Char} (hs : s.toList = c :: cs)
    (h : ∀ after, (∀ d ∈ after.head?, isBoundary d = true) →
      scanToken c (cs ++ after) = .ok (some t, after)) : Spells s [t] := by
  intro after rest hafter hscans
  rw [hs]
  exact scans_step (h after hafter) (by simp) hscans

/-! ## Words -/

/-- The characters of one bare word. A mark that may begin a word is none on its own. -/
def isBareWord (cs : List Char) : Bool :=
  match cs with
  | [] => false
  | c :: rest => isWordStart c && rest.all isWordPart && !([['#'], ['@'], ['@', '@']].contains cs)

/-- The characters before which a word ends. -/
def endsWord (c : Char) : Bool := !isWordPart c && c != '\'' && c != '"'

/-- A property that fails on each character of some ranges. -/
theorem eq_false_of_inRanges {p : Char → Bool} {c : Char} {ranges : List (Nat × Nat)}
    (hranges : ∀ r ∈ ranges, ∀ n ∈ List.range' r.1 (r.2 + 1 - r.1), p (Char.ofNat n) = false)
    (h : Text.inRanges ranges c = true) : p c = false := by
  obtain ⟨r, hr, hfirst, hlast⟩ := Text.inRanges_iff.mp h
  have hfalse := hranges r hr c.toNat (List.mem_range'_1.mpr ⟨hfirst, by omega⟩)
  rwa [Char.ofNat_toNat] at hfalse

theorem not_isBlank_of_isWordStart {c : Char} (h : isWordStart c = true) :
    Text.isBlank c = false := by
  rw [Bool.eq_false_iff]
  intro hblank
  have hfalse : isWordStart c = false := eq_false_of_inRanges (by decide +kernel) hblank
  rw [hfalse] at h
  cases h

theorem not_isDigit_of_isWordStart {c : Char} (h : isWordStart c = true) : c.isDigit = false := by
  rw [Bool.eq_false_iff]
  intro hdigit
  have hrange : Text.inRanges [(48, 57)] c = true := by
    simp only [Char.isDigit, Bool.and_eq_true, decide_eq_true_eq] at hdigit
    exact Text.inRanges_iff.mpr ⟨_, List.mem_singleton_self _, hdigit.1, hdigit.2⟩
  have hfalse : isWordStart c = false := eq_false_of_inRanges (by decide) hrange
  rw [hfalse] at h
  cases h

/-- A run of characters ends where the property first fails. -/
theorem span_append {p : Char → Bool} {cs after : List Char} (hcs : cs.all p = true)
    (hafter : ∀ c ∈ after.head?, p c = false) : (cs ++ after).span p = (cs, after) := by
  have hstop : after.takeWhile p = [] ∧ after.dropWhile p = after := by
    cases after with
    | nil => exact ⟨rfl, rfl⟩
    | cons c rest => simp [hafter c rfl]
  rw [List.span_eq_takeWhile_dropWhile,
    List.takeWhile_append_of_pos (List.all_eq_true.mp hcs),
    List.dropWhile_append_of_pos (List.all_eq_true.mp hcs), hstop.1, hstop.2, List.append_nil]

/-- What begins with the start of a word is a word, unless a mark goes before one or a quotation mark
makes a constant of it. -/
theorem scanToken_of_isWordStart {c : Char} {text : List Char} (h : isWordStart c = true)
    (htext : ∀ q ∈ text.head?, q ≠ '\'' ∧ q ≠ '"') :
    scanToken c text = .ok
      (let found := if c = '#' ∨ c = '@' then scanMark c text else scanWord [c] text
       (some found.1, found.2)) := by
  have hne : ∀ d, isWordStart d = false → c ≠ d := by
    rintro d hd rfl
    rw [h] at hd
    cases hd
  have hquote : ¬(c = '"' ∨ c = '`') := by
    rintro (rfl | rfl)
    · exact hne '"' (by decide) rfl
    · exact hne '`' (by decide) rfl
  have hnumber : ¬(c.isDigit = true ∨ c = '.') := by
    rintro (hdigit | rfl)
    · rw [not_isDigit_of_isWordStart h] at hdigit
      cases hdigit
    · exact hne '.' (by decide) rfl
  unfold scanToken
  rw [if_neg (by simp [not_isBlank_of_isWordStart h])]
  split
  · exact absurd rfl (hne '-' (by decide))
  · exact absurd rfl (hne '/' (by decide))
  · exact absurd rfl (hne '\'' (by decide))
  · rename_i q tail _ _ _
    obtain ⟨hq, hq'⟩ := htext q rfl
    simp only [hquote, hnumber, hq, hq', h, if_false, if_true, false_and]
    split <;> rfl
  · simp only [hquote, hnumber, h, if_false, if_true]
    split <;> rfl

theorem scanWord_eq {start cs after : List Char} (hcs : cs.all isWordPart = true)
    (hafter : ∀ d ∈ after.head?, endsWord d = true) :
    scanWord start (cs ++ after) = (.word ⟨String.ofList (start ++ cs), none⟩, after) := by
  have hstop : ∀ d ∈ after.head?, isWordPart d = false := by
    intro d hd
    have hends := hafter d hd
    simp only [endsWord, Bool.and_eq_true, Bool.not_eq_true'] at hends
    exact hends.1.1
  rw [scanWord, span_append hcs hstop]

/-- A mark takes the word behind it along. -/
theorem scanMark_word {c : Char} {cs after : List Char} (hc : c = '#' ∨ c = '@')
    (h : isBareWord (c :: cs) = true) (hafter : ∀ d ∈ after.head?, endsWord d = true) :
    scanMark c (cs ++ after) = (.word ⟨String.ofList (c :: cs), none⟩, after) := by
  simp only [isBareWord, Bool.and_eq_true] at h
  obtain ⟨⟨-, hparts⟩, hmark⟩ := h
  have hne : ∀ e d, isWordPart e = true → isWordPart d = false → e ≠ d := by
    rintro e d he hd rfl
    rw [he] at hd
    cases hd
  match cs, hparts, hmark with
  | [], _, hmark => rcases hc with rfl | rfl <;> simp at hmark
  | d :: cs, hparts, hmark =>
      rw [List.all_cons, Bool.and_eq_true] at hparts
      have hspace := hne d ' ' hparts.1 (by decide)
      have hminus := hne d '-' hparts.1 (by decide)
      have hmore := hne d '>' hparts.1 (by decide)
      have hasks := hne d '?' hparts.1 (by decide)
      rcases hc with rfl | rfl
      · simp [scanMark, hminus, hmore, scanWord_eq hparts.2 hafter]
      · by_cases hd : d = '@'
        · subst hd
          match cs, hparts.2, hmark with
          | [], _, hmark => simp at hmark
          | e :: cs, hparts, _ =>
              rw [List.all_cons, Bool.and_eq_true] at hparts
              have hspace := hne e ' ' hparts.1 (by decide)
              simp [scanMark, scanWord_eq hparts.2 hafter]
        · simp [scanMark, hasks, hmore, hd, scanWord_eq hparts.2 hafter]

/-- The characters of a word are scanned as that word, up to a character that ends it. -/
theorem scanToken_word {c : Char} {cs after : List Char} (h : isBareWord (c :: cs) = true)
    (hafter : ∀ d ∈ after.head?, endsWord d = true) :
    scanToken c (cs ++ after) = .ok (some (.word ⟨String.ofList (c :: cs), none⟩), after) := by
  have hquote : ∀ q ∈ (cs ++ after).head?, q ≠ '\'' ∧ q ≠ '"' := by
    intro q hq
    cases cs with
    | nil =>
        have hends := hafter q hq
        simp only [endsWord, Bool.and_eq_true, bne_iff_ne] at hends
        exact ⟨hends.1.2, hends.2⟩
    | cons d cs =>
        cases hq
        simp only [isBareWord, List.all_cons, Bool.and_eq_true] at h
        constructor <;> rintro rfl
        · exact absurd h.1.2.1 (by decide)
        · exact absurd h.1.2.1 (by decide)
  have hword := h
  simp only [isBareWord, Bool.and_eq_true] at h
  rw [scanToken_of_isWordStart h.1.1 hquote]
  by_cases hc : c = '#' ∨ c = '@'
  · simp only [if_pos hc, scanMark_word hc hword hafter]
  · simp only [if_neg hc, scanWord_eq h.1.2 hafter, List.singleton_append]

theorem endsWord_of_isBoundary {c : Char} (h : isBoundary c = true) : endsWord c = true := by
  simp only [isBoundary, Bool.or_eq_true, decide_eq_true_eq] at h
  rcases h with ((rfl | rfl) | rfl) | rfl <;> decide

/-- A bare word of a query. -/
def bareWord (s : String) : Token := .word ⟨s, none⟩

theorem exists_start_of_isBareWord {s : String} (h : isBareWord s.toList = true) :
    ∃ c cs, s.toList = c :: cs ∧ isWordStart c = true := by
  cases hs : s.toList with
  | nil =>
      rw [hs] at h
      cases h
  | cons c cs =>
      rw [hs] at h
      simp only [isBareWord, Bool.and_eq_true] at h
      exact ⟨c, cs, rfl, h.1.1⟩

/-- A bare word is scanned as itself, up to a character that ends it. -/
theorem scans_word {s : String} {after : List Char} {rest : List Token}
    (h : isBareWord s.toList = true) (hafter : ∀ d ∈ after.head?, endsWord d = true)
    (hscans : Scans after rest) : Scans (s.toList ++ after) (bareWord s :: rest) := by
  obtain ⟨c, cs, hcs, -⟩ := exists_start_of_isBareWord h
  rw [hcs] at h
  have htoken := scanToken_word h hafter
  rw [← hcs, String.ofList_toList] at htoken
  rw [hcs]
  exact scans_step htoken (by simp) hscans

theorem spells_word {s : String} (h : isBareWord s.toList = true) : Spells s [bareWord s] :=
  fun _ _ hafter => scans_word h fun c hc => endsWord_of_isBoundary (hafter c hc)

/-! ## Text constants -/

/-- A text whose quotation marks are doubled is scanned up to the mark that closes it. -/
theorem scanQuoted_doubled (cs : List Char) {after : List Char}
    (hafter : ∀ c ∈ after.head?, c ≠ '\'') :
    scanQuoted '\'' (cs.flatMap (fun c => if c = '\'' then ['\'', '\''] else [c]) ++ '\'' :: after) =
      some (cs, after) := by
  induction cs with
  | nil =>
      cases after with
      | nil => rfl
      | cons c rest => simp [scanQuoted, hafter c rfl]
  | cons c cs ih =>
      rw [List.flatMap_cons, List.append_assoc]
      by_cases hc : c = '\''
      · rw [if_pos hc, hc, List.cons_append, List.cons_append, List.nil_append, scanQuoted, if_pos rfl,
          if_pos rfl, ih]
        rfl
      · rw [if_neg hc, List.cons_append, List.nil_append]
        generalize hrest : List.flatMap _ cs ++ '\'' :: after = rest at ih
        match rest with
        | [] => simp at hrest
        | d :: rest =>
            rw [scanQuoted, if_neg hc, ih]
            rfl

theorem not_quote_of_isBoundary {c : Char} (h : isBoundary c = true) : c ≠ '\'' := by
  rintro rfl
  exact absurd h (by decide)

theorem not_isDigit_of_isBoundary {c : Char} (h : isBoundary c = true) : c.isDigit = false := by
  rw [Bool.eq_false_iff]
  intro hdigit
  simp only [isBoundary, Bool.or_eq_true, decide_eq_true_eq] at h
  rcases h with ((rfl | rfl) | rfl) | rfl <;> exact absurd hdigit (by decide)

/-- A text constant is scanned as the text it is written for. -/
theorem spells_quoteSql (s : String) : Spells (Value.quoteSql s) [.string s] := by
  refine spells_token (String.toList_ofList ..) fun after hafter => ?_
  simp only [scanToken]
  rw [if_neg (by decide), List.append_assoc, List.singleton_append,
    scanQuoted_doubled s.toList fun c hc => not_quote_of_isBoundary (hafter c hc)]
  simp

/-! ## Signs -/

/-- The signs of operators. -/
def signs : List String := ["+", "-", "*", "/", "%", ">", "<", ">=", "<=", "=", "<>"]

/-- What begins with a sign is a sign, if no comment begins there. -/
theorem scanToken_of_sign {c : Char} {text : List Char} (h : c ∈ "+-*/%><=(),".toList)
    (htext : ∀ q ∈ text.head?, ¬(c = '-' ∧ q = '-') ∧ ¬(c = '/' ∧ q = '*')) :
    scanToken c text = .ok (some (scanSymbol c text).1, (scanSymbol c text).2) := by
  obtain ⟨hblank, hmark, hquote, hplain, hescaped, hnumber, hword, hstart⟩ :
      Text.isBlank c = false ∧ c ≠ '\'' ∧ ¬(c = '"' ∨ c = '`') ∧
        c ∉ ['b', 'B', 'r', 'R'] ∧ c ∉ ['n', 'N', 'e', 'E', 'x', 'X'] ∧
        ¬(c.isDigit = true ∨ c = '.') ∧ ¬(c = '#' ∨ c = '@') ∧ isWordStart c = false := by
    simp only [String.reduceToList, List.mem_cons, List.not_mem_nil, or_false] at h
    rcases h with rfl | rfl | rfl | rfl | rfl | rfl | rfl | rfl | rfl | rfl | rfl <;> decide
  unfold scanToken
  rw [if_neg (by simp [hblank])]
  split
  · exact absurd ⟨rfl, rfl⟩ (htext '-' rfl).1
  · exact absurd ⟨rfl, rfl⟩ (htext '*' rfl).2
  · exact absurd rfl hmark
  · simp only [hquote, hplain, hescaped, hnumber, hword, hstart, if_false, and_false,
      Bool.false_eq_true]
  · simp only [hquote, hnumber, hword, hstart, if_false, Bool.false_eq_true]

/-- What a boundary is. -/
theorem boundary_cases {after : List Char} (hafter : ∀ c ∈ after.head?, isBoundary c = true) :
    after = [] ∨ ∃ b ∈ [' ', ')', ',', '('], ∃ tail, after = b :: tail := by
  cases after with
  | nil => exact .inl rfl
  | cons b tail =>
      have hb := hafter b rfl
      simp only [isBoundary, Bool.or_eq_true, decide_eq_true_eq] at hb
      exact .inr ⟨b, by simp only [List.mem_cons, List.not_mem_nil, or_false]; tauto, tail, rfl⟩

/-- The longest sign that stands there is taken, and none goes on with a boundary. -/
theorem scanSymbol_sign {s : String} {c : Char} {cs after : List Char} (h : s ∈ signs)
    (hs : s.toList = c :: cs) (hafter : ∀ c ∈ after.head?, isBoundary c = true) :
    scanSymbol c (cs ++ after) = (.symbol s, after) := by
  simp only [signs, List.mem_cons, List.not_mem_nil, or_false] at h
  rcases boundary_cases hafter with rfl | ⟨b, hb, tail, rfl⟩
  · rcases h with rfl | rfl | rfl | rfl | rfl | rfl | rfl | rfl | rfl | rfl | rfl <;> cases hs <;> rfl
  · simp only [List.mem_cons, List.not_mem_nil, or_false] at hb
    rcases hb with rfl | rfl | rfl | rfl <;>
      rcases h with rfl | rfl | rfl | rfl | rfl | rfl | rfl | rfl | rfl | rfl | rfl <;> cases hs <;> rfl

theorem spells_sign {s : String} (h : s ∈ signs) : Spells s [.symbol s] := by
  have hstart : ∀ s ∈ signs, ∃ c cs, s.toList = c :: cs ∧ c ∈ "+-*/%><=(),".toList ∧
      ∀ q ∈ cs.head?, q ≠ '-' ∧ q ≠ '*' := by
    intro s hs
    simp only [signs, List.mem_cons, List.not_mem_nil, or_false] at hs
    rcases hs with rfl | rfl | rfl | rfl | rfl | rfl | rfl | rfl | rfl | rfl | rfl <;>
      simp only [String.reduceToList] <;> exact ⟨_, _, rfl, by decide, by simp⟩
  obtain ⟨c, cs, hcs, hc, hhead⟩ := hstart s h
  refine spells_token hcs fun after hafter => ?_
  have htext : ∀ q ∈ (cs ++ after).head?, q ≠ '-' ∧ q ≠ '*' := by
    cases cs with
    | cons d cs => exact hhead
    | nil =>
        intro q hq
        have hboundary := hafter q hq
        constructor
        · rintro rfl
          exact absurd hboundary (by decide)
        · rintro rfl
          exact absurd hboundary (by decide)
  rw [scanToken_of_sign hc fun q hq => ⟨fun h => (htext q hq).1 h.2, fun h => (htext q hq).2 h.2⟩,
    scanSymbol_sign h hcs hafter]

/-- Parentheses and commas are signs whatever follows them. -/
theorem scans_punctuation {c : Char} {after : List Char} {rest : List Token}
    (hc : c ∈ ['(', ')', ',']) (h : Scans after rest) :
    Scans (c :: after) (.symbol (String.singleton c) :: rest) := by
  have htoken : scanToken c after = .ok (some (.symbol (String.singleton c)), after) := by
    simp only [List.mem_cons, List.not_mem_nil, or_false] at hc
    rcases hc with rfl | rfl | rfl
    · rw [scanToken_of_sign (by decide) fun q _ => by simp]
      rfl
    · rw [scanToken_of_sign (by decide) fun q _ => by simp]
      rfl
    · rw [scanToken_of_sign (by decide) fun q _ => by simp]
      rfl
  exact scans_step htoken (Nat.le_refl _) h

end PrivateSql.Sql
