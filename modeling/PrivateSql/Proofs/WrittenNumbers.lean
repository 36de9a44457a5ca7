import PrivateSql.Decimal.Layout
import PrivateSql.Proofs.ShortestDecimals
import PrivateSql.Proofs.SpelledTokens
/-!
# Decimals that are read back from their texts

A layout writes a decimal with all its places or with an exponent, and a reader counts the digits before and
after the point again.  It may find other digits with another exponent, zeros for instance, but it finds the
same amount; so it finds the number that the decimal was written for.

* `Decimal.scan_pointed`, `Decimal.scan_whole` — the parts of a text, with a point and without;
* `Layout.exists_ofText?_write` — what a layout writes is a decimal of the same amount;
* `Layout.ofDecimal_of_write` — it is rounded to the number it was written for.
-/

namespace PrivateSql

open Sql

namespace Decimal

/-! ## Rows of digits -/

theorem ofDigits_eq (start : ℕ) (ds : List Char) : ofDigits start ds = Nat.ofDigitChars 10 ds start :=
  Nat.ofDigitChars_eq_foldl.symm

theorem ofDigits_append (start : ℕ) (ds es : List Char) :
    ofDigits start (ds ++ es) = ofDigits (ofDigits start ds) es :=
  List.foldl_append

/-- The digits of a number are those it is read from. -/
theorem ofDigits_toDigits (n : ℕ) : ofDigits 0 (Nat.toDigits 10 n) = n := by
  rw [ofDigits_eq, Nat.ofDigitChars_ten_toDigits]

/-- Zeros behind the digits are places. -/
theorem ofDigits_replicate (start k : ℕ) :
    ofDigits start (List.replicate k '0') = tenPow k * start := by
  rw [ofDigits_eq, Nat.ofDigitChars_replicate_zero]
  rfl

theorem all_toDigits (n : ℕ) : (Nat.toDigits 10 n).all (·.isDigit) = true :=
  List.all_eq_true.mpr fun _ hc => Nat.isDigit_of_mem_toDigits (by decide) (by decide) hc

theorem all_replicate (k : ℕ) : (List.replicate k '0').all (·.isDigit) = true :=
  List.all_eq_true.mpr fun c hc => by rw [List.eq_of_mem_replicate hc]; decide

theorem toDigits_ne_nil (n : ℕ) : Nat.toDigits 10 n ≠ [] := Nat.toDigits_ne_nil

/-! ## The parts of a text -/

theorem takeDigits_append {ds after : List Char} (hds : ds.all (·.isDigit) = true)
    (hafter : ∀ c ∈ after.head?, c.isDigit = false) : takeDigits (ds ++ after) = (ds, after) :=
  span_append hds hafter

/-- A text of digits, a point and digits. -/
theorem scan_pointed {whole fraction tail rest : List Char} {e : ℤ} (hwhole : whole.all (·.isDigit) = true)
    (hsome : whole ≠ []) (hfraction : fraction.all (·.isDigit) = true)
    (htail : ∀ c ∈ tail.head?, c.isDigit = false)
    (hexponent : (scanExponent tail).getD (0, tail) = (e, rest)) :
    scan (whole ++ '.' :: (fraction ++ tail)) =
      some (⟨ofDigits 0 (whole ++ fraction), e - fraction.length⟩, rest) := by
  have hpoint : ∀ c ∈ ('.' :: (fraction ++ tail)).head?, c.isDigit = false := by
    rintro c ⟨⟩
    decide
  have hnonempty : (whole.isEmpty && fraction.isEmpty) = false := by
    rw [List.isEmpty_eq_false_iff.mpr hsome, Bool.false_and]
  simp only [scan, takeDigits_append hwhole hpoint, takeDigits_append hfraction htail, hnonempty,
    Bool.false_eq_true, if_false, hexponent, ofDigits_append]

/-- A text of digits without a point. -/
theorem scan_whole {whole tail rest : List Char} {e : ℤ} (hwhole : whole.all (·.isDigit) = true)
    (hsome : whole ≠ []) (htail : ∀ c ∈ tail.head?, c.isDigit = false ∧ c ≠ '.')
    (hexponent : (scanExponent tail).getD (0, tail) = (e, rest)) :
    scan (whole ++ tail) = some (⟨ofDigits 0 whole, e⟩, rest) := by
  have hnonempty : (whole.isEmpty && ([] : List Char).isEmpty) = false := by
    rw [List.isEmpty_eq_false_iff.mpr hsome, Bool.false_and]
  simp only [scan, takeDigits_append hwhole fun c hc => (htail c hc).1]
  split
  · exact absurd rfl (htail '.' rfl).2
  · simp only [hnonempty, Bool.false_eq_true, if_false, hexponent, List.length_nil, Nat.cast_zero,
      sub_zero]
    rfl

/-- The exponent is read back, with or without the sign of a positive one. -/
theorem scanExponent_write {sign : List Char} {place : ℤ} (hsign : sign = [] ∨ sign = ['+'] ∧ 0 ≤ place) :
    scanExponent ('e' :: (sign ++ (toString place).toList)) = some (place, []) := by
  have hdigits (n : ℕ) : takeDigits (Nat.toDigits 10 n) = (Nat.toDigits 10 n, []) := by
    have hnil : ∀ c ∈ ([] : List Char).head?, c.isDigit = false := by simp
    have h := takeDigits_append (all_toDigits n) hnil
    rwa [List.append_nil] at h
  have hsome (n : ℕ) : (Nat.toDigits 10 n).isEmpty = false :=
    List.isEmpty_eq_false_iff.mpr (toDigits_ne_nil n)
  have hunsigned (n : ℕ) : scanExponent ('e' :: Nat.toDigits 10 n) = some ((n : ℤ), []) := by
    have hsign (c : Char) (hc : c.isDigit = false) (r : List Char) : Nat.toDigits 10 n ≠ c :: r := by
      intro h
      have := all_toDigits n
      rw [h, List.all_cons, hc, Bool.false_and] at this
      cases this
    simp only [scanExponent, true_or, if_true]
    split
    · exact absurd ‹_› (hsign '-' (by decide) _)
    · exact absurd ‹_› (hsign '+' (by decide) _)
    · simp [hdigits, hsome, ofDigits_toDigits]
  rcases hsign with rfl | ⟨rfl, hplace⟩
  · rcases le_or_gt 0 place with hplace | hplace
    · obtain ⟨n, rfl⟩ := Int.eq_ofNat_of_zero_le hplace
      rw [List.nil_append, Int.toString_eq_repr, Int.repr_eq_if, if_pos hplace,
        Nat.repr_eq_ofList_toDigits, String.toList_ofList]
      exact hunsigned n
    · rw [List.nil_append, Int.toString_eq_repr, Int.repr_eq_if, if_neg (by omega),
        Nat.repr_eq_ofList_toDigits, String.toList_append, String.toList_ofList]
      simp [scanExponent, hdigits, hsome, ofDigits_toDigits]
      omega
  · obtain ⟨n, rfl⟩ := Int.eq_ofNat_of_zero_le hplace
    rw [Int.toString_eq_repr, Int.repr_eq_if, if_pos hplace, Nat.repr_eq_ofList_toDigits,
      String.toList_ofList]
    simp [scanExponent, hdigits, hsome, ofDigits_toDigits]

theorem ofText?_of_scan {cs : List Char} {d : Decimal} (h : scan cs = some (d, [])) :
    ofText? cs = some d := by
  rw [ofText?, h]

/-- Amounts do not change when the places of an integer are written out. -/
theorem amount_scaled {d : Decimal} (h : 0 ≤ d.exponent) (k : ℕ) :
    amount ⟨tenPow k * (tenPow d.exponent.toNat * d.digits), -k⟩ = d.amount := by
  have hscale := tenPow_scale d.exponent
  have hone : tenPow (-d.exponent).toNat = 1 := by
    rw [show (-d.exponent).toNat = 0 by omega, tenPow_zero]
  have hplaces : (tenPow k : ℚ) = 10 ^ (k : ℤ) := by
    rw [zpow_natCast]
    exact_mod_cast rfl
  rw [hone, Nat.cast_one, mul_one] at hscale
  rw [amount, amount]
  push_cast
  rw [hscale, hplaces, zpow_neg]
  field_simp

end Decimal

namespace Layout

open Decimal

variable {layout : Layout} {d : Decimal}

/-! ## Texts of layouts -/

/-- A text with a point and no exponent. -/
theorem ofText?_pointed {whole fraction : List Char} (hwhole : whole.all (·.isDigit) = true)
    (hsome : whole ≠ []) (hfraction : fraction.all (·.isDigit) = true) :
    ofText? (whole ++ '.' :: fraction) = some ⟨ofDigits 0 (whole ++ fraction), -(fraction.length : ℤ)⟩ := by
  have hnil : ∀ c ∈ ([] : List Char).head?, c.isDigit = false := by simp
  have hscan := scan_pointed hwhole hsome hfraction hnil rfl
  rw [List.append_nil, zero_sub] at hscan
  exact ofText?_of_scan hscan

/-- An integer is written with zeros for its places, and with a fraction or without. -/
theorem exists_ofText?_integer (layout : Layout) {d : Decimal} (hexponent : 0 ≤ d.exponent) :
    ∃ r, ofText? (String.ofList (Nat.toDigits 10 d.digits ++ List.replicate d.exponent.toNat '0') ++
      layout.fraction).toList = some r ∧ r.amount = d.amount := by
  set ds := Nat.toDigits 10 d.digits with hds
  have hall : (ds ++ List.replicate d.exponent.toNat '0').all (·.isDigit) = true := by
    rw [List.all_append, all_toDigits, all_replicate, Bool.and_self]
  have hplaces : ofDigits 0 (ds ++ List.replicate d.exponent.toNat '0') =
      tenPow d.exponent.toNat * d.digits := by
    rw [ofDigits_append, ofDigits_replicate, hds, ofDigits_toDigits]
  have hsome : ds ++ List.replicate d.exponent.toNat '0' ≠ [] :=
    List.append_ne_nil_of_left_ne_nil (toDigits_ne_nil d.digits) _
  rw [String.toList_append, String.toList_ofList, fraction]
  cases layout.keepsFraction with
  | true =>
      have hzero : ['0'].all (·.isDigit) = true := by decide
      refine ⟨_, ofText?_pointed hall hsome hzero, ?_⟩
      rw [ofDigits_append, hplaces]
      exact amount_scaled hexponent 1
  | false =>
      have hend : ∀ c ∈ ([] : List Char).head?, c.isDigit = false ∧ c ≠ '.' := by simp
      refine ⟨_, ofText?_of_scan (scan_whole hall hsome hend rfl), ?_⟩
      rw [hplaces]
      have hscaled := amount_scaled hexponent 0
      rwa [tenPow_zero, Nat.one_mul, Nat.cast_zero, neg_zero] at hscaled

/-- The point stands between the digits. -/
theorem ofText?_between {d : Decimal} {places : ℕ} (hexponent : d.exponent = -places)
    (hplaces : places < (Nat.toDigits 10 d.digits).length) :
    ofText? ((Nat.toDigits 10 d.digits).take ((Nat.toDigits 10 d.digits).length - places) ++ '.' ::
      (Nat.toDigits 10 d.digits).drop ((Nat.toDigits 10 d.digits).length - places)) = some d := by
  have hread : ofDigits 0 (Nat.toDigits 10 d.digits) = d.digits := ofDigits_toDigits d.digits
  have hdigits : (Nat.toDigits 10 d.digits).all (·.isDigit) = true := all_toDigits d.digits
  generalize Nat.toDigits 10 d.digits = ds at *
  have hparts := List.take_append_drop (ds.length - places) ds
  rw [← hparts, List.all_append, Bool.and_eq_true_iff] at hdigits
  have hwhole : ds.take (ds.length - places) ≠ [] := by
    rw [ne_eq, List.take_eq_nil_iff, not_or, ← List.length_eq_zero_iff]
    omega
  rw [ofText?_pointed hdigits.1 hwhole hdigits.2, hparts, hread, List.length_drop,
    show (-((ds.length - (ds.length - places) : ℕ) : ℤ)) = d.exponent by omega]

/-- Zeros stand between the point and the digits. -/
theorem ofText?_below {d : Decimal} {places : ℕ} (hexponent : d.exponent = -places)
    (hplaces : (Nat.toDigits 10 d.digits).length ≤ places) :
    ofText? (['0'] ++ '.' :: (List.replicate (places - (Nat.toDigits 10 d.digits).length) '0' ++
      Nat.toDigits 10 d.digits)) = some d := by
  have hread : ofDigits 0 (Nat.toDigits 10 d.digits) = d.digits := ofDigits_toDigits d.digits
  have hdigits : (Nat.toDigits 10 d.digits).all (·.isDigit) = true := all_toDigits d.digits
  generalize Nat.toDigits 10 d.digits = ds at *
  have hall : (List.replicate (places - ds.length) '0' ++ ds).all (·.isDigit) = true := by
    rw [List.all_append, hdigits, all_replicate, Bool.and_self]
  have hzero : ['0'].all (·.isDigit) = true := by decide
  rw [ofText?_pointed hzero (List.cons_ne_nil _ _) hall, ← List.append_assoc, ofDigits_append,
    ofDigits_append, ofDigits_replicate, show ofDigits 0 ['0'] = 0 from rfl, Nat.mul_zero, hread,
    List.length_append, List.length_replicate,
    show (-((places - ds.length + ds.length : ℕ) : ℤ)) = d.exponent by omega]

/-- What is written with all its places. -/
theorem exists_ofText?_positional (layout : Layout) (d : Decimal) :
    ∃ r, ofText? (layout.positional d).toList = some r ∧ r.amount = d.amount := by
  rw [positional]
  split
  · exact exists_ofText?_integer layout ‹_›
  · rename_i hexponent
    have hplaces : d.exponent = -((-d.exponent).toNat : ℤ) := by omega
    dsimp only
    split
    · refine ⟨d, ?_, rfl⟩
      rw [String.toList_ofList]
      exact ofText?_between hplaces ‹_›
    · refine ⟨d, ?_, rfl⟩
      rw [String.toList_ofList]
      exact ofText?_below hplaces (by omega)

/-- What is written with an exponent. -/
theorem ofText?_exponential (layout : Layout) (d : Decimal) :
    ofText? (layout.exponential d).toList = some d := by
  set ds := Nat.toDigits 10 d.digits with hds
  have hdigits : ds.all (·.isDigit) = true := all_toDigits d.digits
  have hread : ofDigits 0 ds = d.digits := ofDigits_toDigits d.digits
  set place : ℤ := d.exponent + ds.length - 1 with hplace
  obtain ⟨sign, hsign, htext⟩ : ∃ sign : List Char, (sign = [] ∨ sign = ['+'] ∧ 0 ≤ place) ∧
      (if layout.signsExponent && decide (0 ≤ place) then "+" else "").toList = sign := by
    refine ⟨_, ?_, rfl⟩
    split
    · rename_i hboth
      exact .inr ⟨rfl, of_decide_eq_true (Bool.and_eq_true_iff.mp hboth).2⟩
    · exact .inl rfl
  have hexponent : (scanExponent ('e' :: (sign ++ (toString place).toList))).getD
      (0, 'e' :: (sign ++ (toString place).toList)) = (place, []) := by
    rw [scanExponent_write hsign]
    rfl
  have htail : ∀ c ∈ ('e' :: (sign ++ (toString place).toList)).head?, c.isDigit = false ∧ c ≠ '.' := by
    rintro c ⟨⟩
    decide
  rw [exponential, ← hds]
  simp only [String.toList_append, String.toList_ofList, ← hplace, htext, List.append_assoc]
  apply ofText?_of_scan
  match ds, hdigits, hread, hplace with
  | [], _, hread, _ => exact absurd hds (toDigits_ne_nil _).symm
  | [c], hdigits, hread, hplace =>
      have hscan := scan_whole hdigits (by simp) htail hexponent
      rw [hread, show place = d.exponent by rw [hplace]; simp] at hscan
      rw [show place = d.exponent by rw [hplace]; simp]
      exact hscan
  | c :: c' :: others, hdigits, hread, hplace =>
      rw [List.all_cons, Bool.and_eq_true_iff] at hdigits
      have hfirst : [c].all (·.isDigit) = true := by simpa using hdigits.1
      have hscan := scan_pointed hfirst (List.cons_ne_nil _ _) hdigits.2 (fun c hc => (htail c hc).1) hexponent
      rw [List.singleton_append, List.singleton_append, hread,
        show place - ((c' :: others).length : ℤ) = d.exponent by rw [hplace]; simp; omega] at hscan
      exact hscan

/-- **Layouts are read back.**  What a layout writes is a decimal, of the same amount. -/
theorem exists_ofText?_write (layout : Layout) (d : Decimal) :
    ∃ r, ofText? (layout.write d).toList = some r ∧ r.amount = d.amount := by
  rw [write]
  split
  · exact exists_ofText?_positional layout d
  · exact ⟨d, ofText?_exponential layout d, rfl⟩

/-- Where integers keep a fraction, no number is written with digits alone. -/
theorem not_all_isDigit (h : layout.keepsFraction = true) (d : Decimal) :
    (layout.write d).toList.all (·.isDigit) = false := by
  have hmember {c : Char} {cs : List Char} (hc : c ∈ cs) (hnot : c.isDigit = false) :
      cs.all (·.isDigit) = false := by
    rw [List.all_eq_false]
    exact ⟨c, hc, by simp [hnot]⟩
  rw [write]
  split
  · refine hmember (c := '.') ?_ (by decide)
    rw [positional]
    split
    · simp [fraction, h]
    · dsimp only
      split <;> simp
  · refine hmember (c := 'e') ?_ (by decide)
    simp [exponential]

/-- The text of a decimal begins with a digit. -/
theorem exists_digit_write (layout : Layout) (d : Decimal) :
    ∃ c cs, (layout.write d).toList = c :: cs ∧ c.isDigit = true := by
  have hcons {cs : List Char} (h : ∃ c ∈ cs.head?, c.isDigit = true) :
      ∃ c rest, cs = c :: rest ∧ c.isDigit = true := by
    obtain ⟨c, hhead, hc⟩ := h
    exact ⟨c, cs.tail, List.eq_cons_of_mem_head? hhead, hc⟩
  obtain ⟨c, cs, hds⟩ := List.exists_cons_of_ne_nil (toDigits_ne_nil d.digits)
  have hc : c.isDigit = true := by
    have hall := all_toDigits d.digits
    rw [hds] at hall
    exact (Bool.and_eq_true_iff.mp hall).1
  apply hcons
  rw [write]
  split
  · rw [positional, hds]
    split
    · exact ⟨c, by simp, hc⟩
    · dsimp only
      split
      · rename_i hplaces
        obtain ⟨k, hk⟩ : ∃ k, (c :: cs).length - (-d.exponent).toNat = k + 1 :=
          ⟨(c :: cs).length - (-d.exponent).toNat - 1, by omega⟩
        exact ⟨c, by rw [hk]; simp, hc⟩
      · exact ⟨'0', by simp, by decide⟩
  · rw [exponential, hds]
    cases cs with
    | nil => exact ⟨c, by simp, hc⟩
    | cons c' cs => exact ⟨c, by simp, hc⟩

/-- **Written numbers are rounded back.**  The decimal that is read from the digits of a number is rounded to
its magnitude. -/
theorem ofDecimal_of_write {x : Binary64} (hfin : x.isFinite = true) (hpos : 0 < x.magnitude)
    (layout : Layout) (tie : Tie) (negative : Bool) :
    ∃ r, ofText? (layout.write (shortest tie x)).toList = some r ∧
      Binary64.ofDecimal negative r.digits r.exponent = Binary64.ofMagnitude negative x.magnitude := by
  obtain ⟨r, hread, hamount⟩ := exists_ofText?_write layout (shortest tie x)
  have hreach := shortest_reaches hpos tie
  rw [← hamount] at hreach
  exact ⟨r, hread, Binary64.ofDecimal_of_reaches hfin hpos hreach negative⟩

end Layout

end PrivateSql
