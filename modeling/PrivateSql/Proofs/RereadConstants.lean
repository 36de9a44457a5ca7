import PrivateSql.Proofs.RereadExprs
import PrivateSql.Proofs.WrittenNumbers
/-!
# Constants that are read back

A value is written as a constant of a query, and read again it is the same value.  A negative number is read as
the opposite of a positive one, so its digits have to be a constant of their own.  They are for all numbers and
for all integers but the least one, whose digits are those of an integer that is too large: it comes back
as a number.

* `spells_negative` — a minus before the digits of a number;
* `parse_number` — a number read from its digits, and behind a minus;
* `Value.sql_reread` — every constant with a finite value is read back, but one;
* `Value.sql_least` — the least integer comes back as a number.
-/

namespace PrivateSql

open Sql

/-! ## Numbers behind a minus -/

/-- No longer sign begins with a minus before a digit. -/
theorem scanSymbol_minus {c : Char} {cs : List Char} (hc : c.isDigit = true) :
    scanSymbol '-' (c :: cs) = (.symbol "-", c :: cs) := by
  have hlonger : ∀ sign ∈ longSigns, ∃ d e rest, sign.1.toList = d :: e :: rest ∧
      (d = '-' → e.isDigit = false) := by
    have hparts : ∀ sign ∈ longSigns, 2 ≤ sign.1.toList.length ∧
        (sign.1.toList[0]? = some '-' → sign.1.toList[1]?.all (fun e => !e.isDigit) = true) := by
      decide
    intro sign hsign
    obtain ⟨hlength, hsecond⟩ := hparts sign hsign
    obtain ⟨d, others, hfirst⟩ := List.exists_cons_of_length_pos (Nat.lt_of_lt_of_le Nat.zero_lt_two hlength)
    rw [hfirst] at hlength hsecond
    obtain ⟨e, rest, rfl⟩ := List.exists_cons_of_length_pos (Nat.le_of_succ_le_succ hlength)
    refine ⟨d, e, rest, hfirst, ?_⟩
    rintro rfl
    simpa using hsecond
  have hnone : ∀ sign ∈ longSigns, dropStart sign.1.toList ('-' :: c :: cs) = none := by
    intro sign hsign
    obtain ⟨d, e, rest, htext, hsecond⟩ := hlonger sign hsign
    rw [htext, dropStart]
    split
    · rename_i hd
      rw [dropStart, if_neg]
      rintro rfl
      rw [hsecond hd] at hc
      cases hc
    · rfl
  rw [scanSymbol, List.findSome?_eq_none_iff.mpr fun sign hsign => Option.map_eq_none_iff.mpr (hnone sign hsign)]
  rfl

/-- A minus before a digit is a sign of its own. -/
theorem scans_minus {c : Char} {cs : List Char} {ts : List Token} (hc : c.isDigit = true)
    (h : Scans (c :: cs) ts) : Scans ('-' :: c :: cs) (.symbol "-" :: ts) := by
  have hcomment : ∀ q ∈ (c :: cs).head?, ¬('-' = '-' ∧ q = '-') ∧ ¬('-' = '/' ∧ q = '*') := by
    rintro q ⟨⟩
    refine ⟨?_, fun h => absurd h.1 (by decide)⟩
    rintro ⟨-, rfl⟩
    exact absurd hc (by decide)
  have htoken : scanToken '-' (c :: cs) = .ok (some (.symbol "-"), c :: cs) := by
    rw [scanToken_of_sign (by decide) hcomment, scanSymbol_minus hc]
  exact scans_step htoken (Nat.le_refl _) h

theorem spells_negative {s : String} {ts : List Token} {c : Char} {cs : List Char}
    (hs : s.toList = c :: cs) (hc : c.isDigit = true) (h : Spells s ts) :
    Spells ("-" ++ s) (.symbol "-" :: ts) := by
  intro after rest hafter hscans
  have hrest := h after rest hafter hscans
  rw [hs] at hrest
  rw [String.toList_append, hs]
  exact scans_minus hc hrest

variable {N : Type} [Number N] {l : Literal N}

theorem levels_pos : 0 < Grammar.levels := by decide

/-- A constant is read from its text. -/
theorem parse_literal (written : l.IsWritten) (shown : l.text ≠ "") :
    Expr.parse l.text = .ok (.literal l) :=
  (Expr.IsFaithful.literal written shown).parse_of_spells levels_pos (Literal.spells written shown)

/-- A number is read from its digits as itself, and behind a minus as its opposite. -/
theorem parse_number {s : String} (h : numberLiteral s = .ok l)
    (hs : ∃ c cs, s.toList = c :: cs ∧ c.isDigit = true) :
    Expr.parse s = .ok (.literal l) ∧ Expr.parse ("-" ++ s) = .ok (.unary "-" (.literal l)) := by
  obtain ⟨c, cs, htext, hc⟩ := hs
  obtain rfl := text_of_numberLiteral h
  have shown : l.text ≠ "" := by
    intro hempty
    rw [hempty] at htext
    cases htext
  have hspells := Literal.spells (.inl h) shown
  have hfaithful : (Expr.unary "-" (.literal l)).IsFaithful :=
    .unary (.inl rfl) rfl (.literal (.inl h) shown)
  exact ⟨parse_literal (.inl h) shown,
    hfaithful.parse_of_spells levels_pos (spells_negative htext hc hspells)⟩

theorem evaluate_negative (b : Bindings N) {v : Value N} (h : l.value.neg = .ok v) :
    (Expr.unary "-" (.literal l)).evaluate b = .ok v := by
  have hvalue : unaryValue "-" l.value = some (.ok v) := by
    unfold unaryValue
    rw [if_pos rfl, h]
  rw [Expr.evaluate, Expr.evaluate, ok_bind, hvalue]
  rfl

/-! ## Integers -/

/-- The digits of an integer are read as the integer, if it is one of 64 bits. -/
theorem numberLiteral_digits {n : ℕ} (h : n < 0x8000000000000000) :
    numberLiteral (String.ofList (Nat.toDigits 10 n)) =
      .ok (⟨.integer (Int64.ofInt n), String.ofList (Nat.toDigits 10 n)⟩ : Literal N) := by
  have hword : int64? (n : ℤ) = some (Int64.ofInt n) := if_pos (by omega)
  simp only [numberLiteral, String.toList_ofList, Decimal.all_toDigits, if_true,
    Decimal.ofDigits_toDigits, hword]

theorem exists_digit_toDigits (n : ℕ) :
    ∃ c cs, (String.ofList (Nat.toDigits 10 n)).toList = c :: cs ∧ c.isDigit = true := by
  obtain ⟨c, cs, hds⟩ := List.exists_cons_of_ne_nil (Decimal.toDigits_ne_nil n)
  have hall := Decimal.all_toDigits n
  rw [hds] at hall
  exact ⟨c, cs, by rw [String.toList_ofList, hds], (Bool.and_eq_true_iff.mp hall).1⟩

/-- An integer is written as its digits, behind a minus when it is negative. -/
theorem sql_integer (i : Int64) :
    (Value.integer i : Value N).sql =
      if 0 ≤ i.toInt then String.ofList (Nat.toDigits 10 i.toInt.toNat)
      else "-" ++ String.ofList (Nat.toDigits 10 (-i.toInt).toNat) := by
  rw [Value.sql, Int.toString_eq_repr, Int.repr_eq_if, Nat.repr_eq_ofList_toDigits,
    Nat.repr_eq_ofList_toDigits]

/-- An integer is read back, unless it is the least one. -/
theorem reread_integer {i : Int64} (hi : i ≠ Int64.minValue) :
    ∃ e : Expr N, Expr.parse (Value.integer i : Value N).sql = .ok e ∧
      ∀ b, e.evaluate b = .ok (.integer i) := by
  have hlow : -0x8000000000000000 < i.toInt := by
    have hmin := Int64.le_toInt i
    rcases lt_or_eq_of_le hmin with hlt | heq
    · exact hlt
    · exact absurd (Int64.toInt_inj.mp (heq.symm.trans (by decide))) hi
  have hhigh := Int64.toInt_lt i
  rw [sql_integer]
  split
  · rename_i hnonneg
    have hread := numberLiteral_digits (N := N) (n := i.toInt.toNat) (by omega)
    refine ⟨_, (parse_number hread (exists_digit_toDigits _)).1, fun b => ?_⟩
    rw [Expr.evaluate, Int.toNat_of_nonneg hnonneg, Int64.ofInt_toInt]
  · rename_i hneg
    have hread := numberLiteral_digits (N := N) (n := (-i.toInt).toNat) (by omega)
    refine ⟨_, (parse_number hread (exists_digit_toDigits _)).2, fun b => evaluate_negative b ?_⟩
    have hopposite : (Int64.ofInt ((-i.toInt).toNat : ℤ)).toInt = -i.toInt := by
      rw [Int64.toInt_ofInt_of_le (by omega) (by omega)]
      omega
    have hword : int64? i.toInt = some i := by
      rw [int64?, if_pos (by omega), Int64.ofInt_toInt]
    rw [Value.neg, hopposite, neg_neg, hword]

/-! ## Numbers -/

/-- A number is put together from its sign and its magnitude. -/
theorem Binary64.ofMagnitude_magnitude (x : Binary64) : ofMagnitude x.isNegative x.magnitude = x := by
  apply totalPlace_inj.mp
  rw [totalPlace_ofMagnitude _ x.magnitude_lt]
  rfl

/-- The digits of a finite number are read as its magnitude. -/
theorem exists_digits_format {x : Binary64} (hfin : x.isFinite = true) :
    ∃ s : String, Layout.literal.format x = (if x.isNegative then "-" ++ s else s) ∧
      numberLiteral s = .ok ⟨.float (Binary64.ofMagnitude false x.magnitude), s⟩ ∧
      ∃ c cs, s.toList = c :: cs ∧ c.isDigit = true := by
  have hsign (s : String) : (if x.isNegative then "-" else "") ++ s = if x.isNegative then "-" ++ s else s := by
    split <;> simp
  rw [Layout.format, Binary64.not_isNaN_of_isFinite hfin, hfin]
  simp only [Bool.false_eq_true, Bool.not_true, if_false]
  by_cases hzero : x.magnitude = 0
  · refine ⟨"0.0", ?_, ?_, '0', ['.', '0'], rfl, by decide⟩
    · rw [if_pos hzero, String.append_assoc]
      exact hsign "0.0"
    · rw [hzero]
      rfl
  · obtain ⟨r, hread, hrounded⟩ :=
      Layout.ofDecimal_of_write hfin (Nat.pos_of_ne_zero hzero) Layout.literal Layout.literal.tie false
    refine ⟨_, ?_, ?_, Layout.exists_digit_write Layout.literal (Decimal.shortest Layout.literal.tie x)⟩
    · rw [if_neg hzero]
      exact hsign _
    · have hkeeps : Layout.literal.keepsFraction = true := rfl
      have hnot := Layout.not_all_isDigit hkeeps (Decimal.shortest Layout.literal.tie x)
      simp only [numberLiteral, hnot, Bool.false_eq_true, if_false, hread]
      exact congrArg (fun y => Except.ok (⟨.float y, _⟩ : Literal Binary64)) hrounded

/-- **Finite numbers are read back**, both zeros included. -/
theorem reread_float {x : Binary64} (hfin : x.isFinite = true) :
    ∃ e : Expr Binary64, Expr.parse (Value.float x : Value Binary64).sql = .ok e ∧
      ∀ b, e.evaluate b = .ok (.float x) := by
  obtain ⟨s, htext, hread, hs⟩ := exists_digits_format hfin
  have hsql : (Value.float x : Value Binary64).sql = if x.isNegative then "-" ++ s else s := htext
  obtain ⟨hself, hopposite⟩ := parse_number hread hs
  have hwhole := x.ofMagnitude_magnitude
  rw [hsql]
  cases hsign : x.isNegative with
  | false =>
      rw [hsign] at hwhole
      refine ⟨_, hself, fun b => ?_⟩
      rw [Expr.evaluate, hwhole]
  | true =>
      rw [hsign] at hwhole
      refine ⟨_, hopposite, fun b => evaluate_negative b ?_⟩
      have hneg : (Binary64.ofMagnitude false x.magnitude).neg = x := by
        rw [Binary64.neg, Binary64.isNegative_ofMagnitude false x.magnitude_lt,
          Binary64.magnitude_ofMagnitude false x.magnitude_lt]
        exact hwhole
      exact congrArg (fun y => Except.ok (Value.float y)) hneg

/-! ## All constants -/

namespace Value

/-- Is the value one that a constant can be written for? The infinities and the NaNs are not. -/
def isWritable : Value Binary64 → Bool
  | .float x => x.isFinite
  | _ => true

/-- **Constants are read back.**  The text of a value is read as an expression that has this value, whatever
the columns: `NULL`, truth values, texts with quotes and all finite numbers, bit by bit.  So are the integers, but
for the least one: its digits without the minus are those of an integer that is too large, so they are read as
the number `2 ^ 63`, and the expression has the number `-2 ^ 63` as its value. -/
theorem sql_reread {v : Value Binary64} (hv : v.isWritable = true) :
    ∃ e : Expr Binary64, Expr.parse v.sql = .ok e ∧
      ∀ b, e.evaluate b =
        .ok (if v = .integer Int64.minValue then .float ⟨0xC3E0000000000000⟩ else v) := by
  cases v with
  | null => exact ⟨_, parse_literal (l := .ofValue .null) (.inr ⟨.null, rfl, rfl⟩) (by decide), fun b => rfl⟩
  | boolean t =>
      refine ⟨_, parse_literal (l := .ofValue (.boolean t)) (.inr ⟨.boolean t, rfl, rfl⟩) ?_, fun b => rfl⟩
      cases t <;> decide
  | text s =>
      refine ⟨_, parse_literal (l := .ofValue (.text s)) (.inr ⟨.text s, rfl, rfl⟩) ?_, fun b => rfl⟩
      exact fun h => absurd (congrArg String.toList h) (by simp [Literal.ofValue, sql, quoteSql])
  | float x => exact reread_float hv
  | integer i =>
      by_cases hi : i = Int64.minValue
      · subst hi
        have hread : numberLiteral "9223372036854775808" =
            .ok (⟨.float ⟨0x43E0000000000000⟩, "9223372036854775808"⟩ : Literal Binary64) :=
          toOption_eq_some.mp (by decide +kernel)
        refine ⟨_, (parse_number hread ⟨'9', _, rfl, by decide⟩).2, fun b => evaluate_negative b ?_⟩
        rfl
      · obtain ⟨e, hparse, hvalue⟩ := reread_integer (N := Binary64) hi
        refine ⟨e, hparse, fun b => ?_⟩
        rw [hvalue, if_neg fun h => hi (Value.integer.inj h)]

/-- A negative tenth, whose digits are not its exact value, and a text with a quote in it. -/
theorem sql_reread_tenth :
    (∃ e : Expr Binary64, Expr.parse "-0.1" = .ok e ∧
      e.evaluate PathMap.empty = .ok (.float ⟨0xBFB999999999999A⟩)) ∧
    ∃ e : Expr Binary64, Expr.parse "'it''s'" = .ok e ∧ e.evaluate PathMap.empty = .ok (.text "it's") := by
  have htenth : (.float ⟨0xBFB999999999999A⟩ : Value Binary64).sql = "-0.1" := by decide +kernel
  have htext : (.text "it's" : Value Binary64).sql = "'it''s'" := by decide +kernel
  obtain ⟨e, he, hvalue⟩ := sql_reread (v := .float ⟨0xBFB999999999999A⟩) (by decide)
  obtain ⟨e', he', hvalue'⟩ := sql_reread (v := .text "it's") rfl
  rw [htenth] at he
  rw [htext] at he'
  exact ⟨⟨e, he, hvalue _⟩, e', he', hvalue' _⟩

/-- **The least integer comes back as a number.** -/
theorem sql_least :
    (.integer Int64.minValue : Value Binary64).sql = "-9223372036854775808" ∧
      ∀ e : Expr Binary64, Expr.parse (.integer Int64.minValue : Value Binary64).sql = .ok e →
        e.evaluate PathMap.empty ≠ .ok (.integer Int64.minValue) := by
  have hvalue : ((Expr.parse (N := Binary64) (.integer Int64.minValue : Value Binary64).sql).toOption.map
      fun e => (e.evaluate PathMap.empty).toOption) = some (some (.float ⟨0xC3E0000000000000⟩)) := by
    decide +kernel
  refine ⟨by decide +kernel, fun e he hinteger => ?_⟩
  rw [toOption_eq_some.mpr he, Option.map_some, hinteger] at hvalue
  cases hvalue

end Value

end PrivateSql
