import Mathlib.Algebra.Order.Field.Power
import Mathlib.Algebra.Order.Field.Rat
import Mathlib.Tactic.FieldSimp
import Mathlib.Tactic.Linarith
import Mathlib.Tactic.NormNum
import Mathlib.Tactic.Positivity
import Mathlib.Tactic.Ring
import PrivateSql.Decimal.Shortest
import PrivateSql.Proofs.IntegerNumbers
/-!
# Numbers that quotients are rounded to

Around each positive finite number lie the quotients that are rounded to it: those nearer to it than to its
neighbours, and the two middles when its significand is even.  Below a power of two the neighbour is half as
far.  Whatever is in this reach of a number, as a quotient or as a decimal, is rounded to the number.

* `Binary64.Reaches` — the quotients around a number;
* `Binary64.lastPlace_spec` — the last place of a quotient, by its size;
* `Binary64.ofRatio_of_reaches`, `Binary64.ofDecimal_of_reaches` — they are rounded to the number.
-/

namespace PrivateSql

/-- The rational number a decimal stands for. -/
def Decimal.amount (d : Decimal) : ℚ := d.digits * (10 : ℚ) ^ d.exponent

theorem twoPow_scale (e : ℤ) : (twoPow e.toNat : ℚ) = 2 ^ e * twoPow (-e).toNat := by
  rw [Binary64.twoPow_eq, Binary64.twoPow_eq]
  push_cast
  rw [← zpow_natCast, ← zpow_natCast, ← zpow_add₀ two_ne_zero]
  congr 1
  omega

theorem tenPow_scale (e : ℤ) : (tenPow e.toNat : ℚ) = 10 ^ e * tenPow (-e).toNat := by
  have hpow (n : ℕ) : tenPow n = 10 ^ n := rfl
  rw [hpow, hpow]
  push_cast
  rw [← zpow_natCast, ← zpow_natCast, ← zpow_add₀ (by norm_num)]
  congr 1
  omega

namespace Binary64

variable {x : Binary64} {n d : ℕ} {q : ℚ}

/-! ## The parts of a magnitude -/

/-- A magnitude counts the last places from the least exponent on, then the significand. -/
theorem magnitude_eq (x : Binary64) :
    (x.exponent + 1074).toNat * 0x10000000000000 + x.significand = x.magnitude := by
  unfold exponent significand exponentField
  split <;> omega

theorem significand_lt (x : Binary64) : x.significand < 0x20000000000000 := by
  unfold significand
  split <;> omega

theorem significand_pos (h : 0 < x.magnitude) : 0 < x.significand := by
  unfold significand exponentField
  split <;> omega

theorem exponent_ge (x : Binary64) : -1074 ≤ x.exponent := by
  unfold exponent
  split <;> omega

theorem exponent_le (h : x.isFinite = true) : x.exponent ≤ 971 := by
  rw [isFinite, decide_eq_true_eq, infinityMagnitude] at h
  unfold exponent exponentField
  split <;> omega

/-- Above the least exponent the first bit of the significand is set. -/
theorem le_significand (h : -1074 < x.exponent) : 0x10000000000000 ≤ x.significand := by
  unfold exponent at h
  unfold significand
  split at h
  · omega
  · rw [if_neg (by assumption)]
    omega

/-! ## Quotients around a number -/

/-- How far the middle between the number and the one below it is, in quarters of its last place: half as
far below a power of two. -/
def quartersBelow (x : Binary64) : ℕ :=
  if x.significand = 0x10000000000000 ∧ -1074 < x.exponent then 1 else 2

/-- Is a quotient between the middles beside a number?  The middles themselves belong to it when its
significand is even. -/
structure Reaches (x : Binary64) (q : ℚ) : Prop where
  low : (x.significand - x.quartersBelow / 4) * 2 ^ x.exponent ≤ q
  high : q ≤ (x.significand + 1 / 2) * 2 ^ x.exponent
  inside : x.significand % 2 = 1 →
    (x.significand - x.quartersBelow / 4) * 2 ^ x.exponent < q ∧
      q < (x.significand + 1 / 2) * 2 ^ x.exponent

theorem quartersBelow_le (x : Binary64) : (x.quartersBelow : ℚ) ≤ 2 := by
  unfold quartersBelow
  split <;> norm_num

theorem quartersBelow_of_least (hleast : x.significand = 0x10000000000000) (habove : -1074 < x.exponent) :
    (x.quartersBelow : ℚ) = 1 := by
  rw [quartersBelow, if_pos ⟨hleast, habove⟩, Nat.cast_one]

/-- Twice the place below. -/
theorem two_zpow_eq (e : ℤ) : (2 : ℚ) ^ e = 2 ^ (e - 1) * 2 := by
  rw [← zpow_add_one₀ two_ne_zero, sub_add_cancel]

/-- A number is at least half a last place away from zero. -/
theorem Reaches.half_le (h : x.Reaches q) (hpos : 0 < x.magnitude) : 1 / 2 * 2 ^ x.exponent ≤ q := by
  have hone : (1 : ℚ) ≤ x.significand := by exact_mod_cast significand_pos hpos
  have hunit : (0 : ℚ) < 2 ^ x.exponent := by positivity
  have hbelow := x.quartersBelow_le
  refine le_trans (mul_le_mul_of_nonneg_right ?_ hunit.le) h.low
  linarith

theorem Reaches.pos (h : x.Reaches q) (hpos : 0 < x.magnitude) : 0 < q :=
  lt_of_lt_of_le (by positivity) (h.half_le hpos)

theorem Reaches.numerator_pos (h : x.Reaches (n / d)) (hpos : 0 < x.magnitude) : 0 < n := by
  rcases Nat.eq_zero_or_pos n with rfl | hn
  · have := h.pos hpos
    simp at this
  · exact hn

/-! ## The last place of a quotient -/

theorem scaleDown_pos (n : ℕ) (hd : 0 < d) (e : ℤ) : 0 < (scaleDown n d e).2 := by
  unfold scaleDown
  split
  · exact Nat.mul_pos hd (twoPow_pos _)
  · exact hd

/-- Scaling divides the quotient by a power of two. -/
theorem scaleDown_div (n : ℕ) (hd : 0 < d) (e : ℤ) :
    ((scaleDown n d e).1 : ℚ) / (scaleDown n d e).2 = n / d / 2 ^ e := by
  have hd' : (d : ℚ) ≠ 0 := by exact_mod_cast hd.ne'
  have hscale := twoPow_scale e
  have hpow : (2 : ℚ) ^ e ≠ 0 := by positivity
  unfold scaleDown
  split
  · rename_i he
    have hone : twoPow (-e).toNat = 1 := by rw [show (-e).toNat = 0 by omega, twoPow_zero]
    rw [hone, Nat.cast_one, mul_one] at hscale
    push_cast
    rw [hscale, div_div]
  · rename_i he
    have hone : twoPow e.toNat = 1 := by rw [show e.toNat = 0 by omega, twoPow_zero]
    rw [hone, Nat.cast_one] at hscale
    push_cast
    calc (n : ℚ) * twoPow (-e).toNat / d = n * (2 ^ e * twoPow (-e).toNat) / (d * 2 ^ e) := by
          field_simp
      _ = n / d / 2 ^ e := by rw [← hscale, mul_one, div_div]

/-- The size of a natural number by its bits. -/
theorem log2_bounds {n : ℕ} (hn : 0 < n) :
    (2 : ℚ) ^ (n.log2 : ℤ) ≤ n ∧ (n : ℚ) < 2 ^ ((n.log2 : ℤ) + 1) := by
  constructor
  · rw [zpow_natCast]
    exact_mod_cast Nat.log2_self_le hn.ne'
  · have hlt := Nat.lt_log2_self (n := n)
    rw [show (n.log2 : ℤ) + 1 = ((n.log2 + 1 : ℕ) : ℤ) by push_cast; rfl, zpow_natCast]
    exact_mod_cast hlt

/-- The size of a quotient by the bits of its parts. -/
theorem div_log2_bounds (hn : 0 < n) (hd : 0 < d) :
    (2 : ℚ) ^ ((n.log2 : ℤ) - d.log2 - 1) < n / d ∧
      (n : ℚ) / d < 2 ^ ((n.log2 : ℤ) - d.log2 + 1) := by
  obtain ⟨hnlow, hnhigh⟩ := log2_bounds hn
  obtain ⟨hdlow, hdhigh⟩ := log2_bounds hd
  have hd' : (0 : ℚ) < d := by exact_mod_cast hd
  constructor
  · rw [lt_div_iff₀ hd']
    calc (2 : ℚ) ^ ((n.log2 : ℤ) - d.log2 - 1) * d
        < 2 ^ ((n.log2 : ℤ) - d.log2 - 1) * 2 ^ ((d.log2 : ℤ) + 1) := by gcongr
      _ = 2 ^ (n.log2 : ℤ) := by rw [← zpow_add₀ two_ne_zero]; congr 1; ring
      _ ≤ n := hnlow
  · rw [div_lt_iff₀ hd']
    calc (n : ℚ) < 2 ^ ((n.log2 : ℤ) + 1) := hnhigh
      _ = 2 ^ ((n.log2 : ℤ) - d.log2 + 1) * 2 ^ (d.log2 : ℤ) := by
        rw [← zpow_add₀ two_ne_zero]; congr 1; ring
      _ ≤ 2 ^ ((n.log2 : ℤ) - d.log2 + 1) * d := by gcongr

/-- The place in which the quotient has 53 bits, before it is held above the least one. -/
theorem exists_place (hn : 0 < n) (hd : 0 < d) :
    ∃ e : ℤ, lastPlace n d = max e (-1074) ∧
      0x10000000000000 * 2 ^ e ≤ (n : ℚ) / d ∧ (n : ℚ) / d < 0x20000000000000 * 2 ^ e := by
  obtain ⟨hlow, hhigh⟩ := div_log2_bounds hn hd
  have hbits (k e : ℤ) : (2 : ℚ) ^ (e + k) = 2 ^ k * 2 ^ e := by
    rw [zpow_add₀ two_ne_zero, mul_comm]
  have h52 : (2 : ℚ) ^ (52 : ℤ) = 0x10000000000000 := by norm_num
  have h53 : (2 : ℚ) ^ (53 : ℤ) = 0x20000000000000 := by norm_num
  set s : ℤ := (n.log2 : ℤ) - d.log2 - 53 with hs
  have hcount : (scaleDown n d s).2 * 0x20000000000000 ≤ (scaleDown n d s).1 ↔
      0x20000000000000 * 2 ^ s ≤ (n : ℚ) / d := by
    have hscaled : (0 : ℚ) < (scaleDown n d s).2 := by exact_mod_cast scaleDown_pos n hd s
    rw [← le_div_iff₀ (by positivity), ← scaleDown_div n hd s, le_div_iff₀ hscaled, mul_comm]
    exact_mod_cast Iff.rfl
  by_cases hmore : (scaleDown n d s).2 * 0x20000000000000 ≤ (scaleDown n d s).1
  · refine ⟨s + 1, ?_, ?_, ?_⟩
    · simp only [lastPlace, ← hs, if_pos hmore]
    · rw [← h52, ← hbits, show s + 1 + 52 = 53 + s by ring, add_comm, hbits, h53]
      exact hcount.mp hmore
    · rw [← h53, ← hbits, show s + 1 + 53 = (n.log2 : ℤ) - d.log2 + 1 by omega]
      exact hhigh
  · refine ⟨s, ?_, ?_, ?_⟩
    · simp only [lastPlace, ← hs, if_neg hmore]
    · rw [← h52, ← hbits, show s + 52 = (n.log2 : ℤ) - d.log2 - 1 by omega]
      exact hlow.le
    · exact not_le.mp (mt hcount.mpr hmore)

/-- **The last place of a quotient.**  Counted in it, the quotient has 53 bits, or fewer at the least
exponent. -/
theorem lastPlace_spec (hn : 0 < n) (hd : 0 < d) :
    -1074 ≤ lastPlace n d ∧ (n : ℚ) / d < 0x20000000000000 * 2 ^ lastPlace n d ∧
      (lastPlace n d = -1074 ∨ 0x10000000000000 * 2 ^ lastPlace n d ≤ (n : ℚ) / d) := by
  obtain ⟨e, he, hlow, hhigh⟩ := exists_place hn hd
  rw [he]
  refine ⟨le_max_right _ _, lt_of_lt_of_le hhigh ?_, ?_⟩
  · have hmono : (2 : ℚ) ^ e ≤ 2 ^ max e (-1074) := zpow_le_zpow_right₀ one_le_two (le_max_left _ _)
    linarith
  · rcases le_total e (-1074) with hle | hle
    · exact .inl (max_eq_right hle)
    · rw [max_eq_left hle]
      exact .inr hlow

/-! ## Rounding into a number -/

/-- A quotient at most a half away from a natural number is rounded to it, a half only if the number is
even. -/
theorem divNearestEven_eq {s : ℕ} (hd : 0 < d) (hlow : (s : ℚ) - 1 / 2 ≤ n / d)
    (hhigh : (n : ℚ) / d ≤ s + 1 / 2)
    (hodd : s % 2 = 1 → (s : ℚ) - 1 / 2 < n / d ∧ (n : ℚ) / d < s + 1 / 2) :
    divNearestEven n d = s := by
  have hd' : (0 : ℚ) < d := by exact_mod_cast hd
  have hlow' : 2 * (s * d) ≤ 2 * n + d := by
    rw [le_div_iff₀ hd'] at hlow
    have : (2 : ℚ) * (s * d) ≤ 2 * n + d := by linarith
    exact_mod_cast this
  have hhigh' : 2 * n ≤ 2 * (s * d) + d := by
    rw [div_le_iff₀ hd'] at hhigh
    have : (2 : ℚ) * n ≤ 2 * (s * d) + d := by linarith
    exact_mod_cast this
  have hodd' : s % 2 = 1 → 2 * (s * d) < 2 * n + d ∧ 2 * n < 2 * (s * d) + d := by
    intro h
    obtain ⟨hl, hh⟩ := hodd h
    rw [lt_div_iff₀ hd'] at hl
    rw [div_lt_iff₀ hd'] at hh
    have hl' : (2 : ℚ) * (s * d) < 2 * n + d := by linarith
    have hh' : (2 : ℚ) * n < 2 * (s * d) + d := by linarith
    exact ⟨by exact_mod_cast hl', by exact_mod_cast hh'⟩
  have hdiv : d * (n / d) + n % d = n := Nat.div_add_mod n d
  have hmod : n % d < d := Nat.mod_lt n hd
  -- The number is the whole quotient or the next one.
  have hcases : s = n / d ∨ s = n / d + 1 := by
    have hle : n / d ≤ s := by
      by_contra hlt
      have : (s + 1) * d ≤ n / d * d := Nat.mul_le_mul_right d (by omega)
      rw [Nat.add_mul, Nat.one_mul, Nat.mul_comm (n / d) d] at this
      omega
    have hge : s ≤ n / d + 1 := by
      by_contra hlt
      have : (n / d + 2) * d ≤ s * d := Nat.mul_le_mul_right d (by omega)
      rw [Nat.add_mul, Nat.mul_comm (n / d) d] at this
      omega
    omega
  unfold divNearestEven
  rcases hcases with rfl | rfl
  · rw [Nat.mul_comm (n / d) d] at hhigh' hodd'
    rw [if_pos]
    omega
  · rw [Nat.add_mul, Nat.one_mul, Nat.mul_comm (n / d) d] at hlow' hodd'
    rw [if_neg]
    omega

/-- A quotient in the reach of a number has no more than 53 bits before the last place of the number. -/
theorem lastPlace_le_of_reaches (hpos : 0 < x.magnitude) (hd : 0 < d) (h : x.Reaches (n / d)) :
    lastPlace n d ≤ x.exponent := by
  obtain ⟨-, -, habove⟩ := lastPlace_spec (h.numerator_pos hpos) hd
  have hsignificand : (x.significand : ℚ) ≤ 0x1fffffffffffff := by
    exact_mod_cast Nat.le_of_lt_succ x.significand_lt
  have hunit : (0 : ℚ) < 2 ^ x.exponent := by positivity
  by_contra hlt
  have hmore := habove.resolve_left (by have := x.exponent_ge; omega)
  have hmono : (2 : ℚ) ^ (x.exponent + 1) ≤ 2 ^ lastPlace n d :=
    zpow_le_zpow_right₀ one_le_two (by omega)
  rw [zpow_add_one₀ two_ne_zero] at hmono
  have := h.high
  nlinarith

/-- Only below a power of two does a quotient have its last place below that of the number. -/
theorem significand_of_lastPlace_lt (hpos : 0 < x.magnitude) (hd : 0 < d) (h : x.Reaches (n / d))
    (hlt : lastPlace n d < x.exponent) : x.significand = 0x10000000000000 ∧ -1074 < x.exponent := by
  obtain ⟨hleast, hbelow, -⟩ := lastPlace_spec (h.numerator_pos hpos) hd
  have habove : -1074 < x.exponent := by omega
  have hunit : (0 : ℚ) < 2 ^ x.exponent := by positivity
  have hmono : (2 : ℚ) ^ lastPlace n d ≤ 2 ^ (x.exponent - 1) :=
    zpow_le_zpow_right₀ one_le_two (by omega)
  have hhalf := two_zpow_eq x.exponent
  have hquarters := x.quartersBelow_le
  have hfewer : (x.significand : ℚ) < 0x10000000000001 := by
    by_contra hge
    have : (0x10000000000001 - 1 / 2 : ℚ) * 2 ^ x.exponent ≤ n / d := by
      refine le_trans (mul_le_mul_of_nonneg_right ?_ hunit.le) h.low
      linarith [not_lt.mp hge]
    linarith
  have hfewer' : x.significand < 0x10000000000001 := by exact_mod_cast hfewer
  exact ⟨Nat.le_antisymm (Nat.le_of_lt_succ hfewer') (le_significand habove), habove⟩

/-- Where the last place of a quotient in the reach of a number is: at that of the number, or one below it
when the quotient is below a power of two. -/
theorem lastPlace_of_reaches (hpos : 0 < x.magnitude) (hd : 0 < d) (h : x.Reaches (n / d)) :
    lastPlace n d = x.exponent ∨
      lastPlace n d = x.exponent - 1 ∧ x.significand = 0x10000000000000 ∧ -1074 < x.exponent := by
  rcases (lastPlace_le_of_reaches hpos hd h).lt_or_eq with hlt | heq
  · obtain ⟨hleast, habove⟩ := significand_of_lastPlace_lt hpos hd h hlt
    refine .inr ⟨?_, hleast, habove⟩
    obtain ⟨-, hbelow, -⟩ := lastPlace_spec (h.numerator_pos hpos) hd
    have hlow := h.low
    rw [quartersBelow_of_least hleast habove, hleast] at hlow
    by_contra hne
    have hmono : (2 : ℚ) ^ lastPlace n d ≤ 2 ^ (x.exponent - 1 - 1) :=
      zpow_le_zpow_right₀ one_le_two (by omega)
    have hhalf := two_zpow_eq x.exponent
    have hquarter := two_zpow_eq (x.exponent - 1)
    have hunit : (0 : ℚ) < 2 ^ (x.exponent - 1 - 1) := by positivity
    push_cast at hlow
    nlinarith
  · exact .inl heq

/-- In its own last places a quotient is rounded to the significand that reaches it. -/
theorem divNearestEven_of_reaches {scaled : ℕ × ℕ} (h : x.Reaches q) (hscaled : 0 < scaled.2)
    (hdiv : (scaled.1 : ℚ) / scaled.2 = q / 2 ^ x.exponent) :
    divNearestEven scaled.1 scaled.2 = x.significand := by
  have hunit : (0 : ℚ) < 2 ^ x.exponent := by positivity
  have hquarters := x.quartersBelow_le
  refine divNearestEven_eq hscaled ?_ ?_ fun hodd => ?_
  · rw [hdiv, le_div_iff₀ hunit]
    refine le_trans (mul_le_mul_of_nonneg_right ?_ hunit.le) h.low
    linarith
  · rw [hdiv, div_le_iff₀ hunit]
    exact h.high
  · obtain ⟨hl, hh⟩ := h.inside hodd
    rw [hdiv, lt_div_iff₀ hunit, div_lt_iff₀ hunit]
    refine ⟨lt_of_le_of_lt (mul_le_mul_of_nonneg_right ?_ hunit.le) hl, hh⟩
    linarith

/-- Below a power of two, in places half as large, it is rounded to the power. -/
theorem divNearestEven_below {scaled : ℕ × ℕ} (h : x.Reaches q) (hleast : x.significand = 0x10000000000000)
    (habove : -1074 < x.exponent) (hbelow : q < 0x20000000000000 * 2 ^ (x.exponent - 1))
    (hscaled : 0 < scaled.2) (hdiv : (scaled.1 : ℚ) / scaled.2 = q / 2 ^ (x.exponent - 1)) :
    divNearestEven scaled.1 scaled.2 = 0x20000000000000 := by
  have hunit : (0 : ℚ) < 2 ^ (x.exponent - 1) := by positivity
  have hlow := h.low
  rw [quartersBelow_of_least hleast habove, hleast, two_zpow_eq] at hlow
  refine divNearestEven_eq hscaled ?_ ?_ fun hodd => absurd hodd (by decide)
  · rw [hdiv, le_div_iff₀ hunit]
    push_cast at hlow ⊢
    linarith
  · rw [hdiv, div_le_iff₀ hunit]
    push_cast
    linarith

/-- **What a number reaches is rounded to it.** -/
theorem ratioMagnitude_of_reaches (hfin : x.isFinite = true) (hpos : 0 < x.magnitude) (hd : 0 < d)
    (h : x.Reaches (n / d)) : ratioMagnitude n d = x.magnitude := by
  have hn := h.numerator_pos hpos
  have hscaled := scaleDown_pos n hd (lastPlace n d)
  have hdiv := scaleDown_div n hd (lastPlace n d)
  have hmagnitude := x.magnitude_eq
  have hless : x.magnitude ≤ infinityMagnitude := by
    rw [isFinite, decide_eq_true_eq] at hfin
    exact hfin.le
  rw [ratioMagnitude, if_neg hn.ne', magnitudeAt]
  rcases lastPlace_of_reaches hpos hd h with heq | ⟨heq, hleast, habove⟩
  · rw [heq] at hscaled hdiv ⊢
    rw [divNearestEven_of_reaches h hscaled hdiv, hmagnitude]
    exact min_eq_right hless
  · -- In places half as large the quotient is near the next power of two, and carries.
    have hbelow := (lastPlace_spec hn hd).2.1
    rw [heq] at hscaled hdiv hbelow ⊢
    have hplace : (x.exponent + 1074).toNat = (x.exponent - 1 + 1074).toNat + 1 := by omega
    have hcarry : (x.exponent - 1 + 1074).toNat * 0x10000000000000 + 0x20000000000000 = x.magnitude := by
      rw [← hmagnitude, hleast, hplace]
      ring
    rw [divNearestEven_below h hleast habove hbelow hscaled hdiv, hcarry]
    exact min_eq_right hless

theorem ofRatio_of_reaches (hfin : x.isFinite = true) (hpos : 0 < x.magnitude) (hd : 0 < d)
    (h : x.Reaches (n / d)) (negative : Bool) :
    ofRatio negative n d = ofMagnitude negative x.magnitude := by
  rw [ofRatio_eq, ratioMagnitude_of_reaches hfin hpos hd h]

/-- All finite numbers lie well between these powers of ten. -/
theorem powers_apart :
    0x20000000000001 * 2 ^ 971 < 10 ^ 401 ∧ 2 * (2 * 2 ^ 1074) < 10 ^ 401 := by
  decide +kernel

section

variable {digits : ℕ} {exponent : ℤ}

/-- No decimal that a finite number reaches has a larger exponent. -/
theorem Reaches.exponent_le (h : x.Reaches (digits * 10 ^ exponent)) (hfin : x.isFinite = true)
    (hdigits : 0 < digits) : exponent ≤ 400 := by
  have hunit : (0 : ℚ) < 2 ^ x.exponent := by positivity
  have hten : (0 : ℚ) < 10 ^ exponent := by positivity
  by_contra hlt
  have hone : (1 : ℚ) ≤ digits := by exact_mod_cast hdigits
  have hmono : (10 : ℚ) ^ (401 : ℤ) ≤ 10 ^ exponent := zpow_le_zpow_right₀ (by norm_num) (by omega)
  have hmono' : (2 : ℚ) ^ x.exponent ≤ 2 ^ (971 : ℤ) :=
    zpow_le_zpow_right₀ one_le_two (Binary64.exponent_le hfin)
  have hsignificand : (x.significand : ℚ) ≤ 0x20000000000000 := by exact_mod_cast x.significand_lt.le
  have hlarge : (0x20000000000001 : ℚ) * 2 ^ (971 : ℤ) < 10 ^ (401 : ℤ) := by
    exact_mod_cast powers_apart.1
  have hhigh : (x.significand + 1 / 2 : ℚ) * 2 ^ x.exponent ≤ 0x20000000000001 * 2 ^ (971 : ℤ) := by
    apply mul_le_mul _ hmono' hunit.le (by norm_num)
    linarith
  have hleast : (10 : ℚ) ^ exponent ≤ digits * 10 ^ exponent := le_mul_of_one_le_left hten.le hone
  exact absurd (hmono.trans (hleast.trans (h.high.trans hhigh))) (not_le.mpr hlarge)

/-- None that a number other than zero reaches has a smaller one. -/
theorem Reaches.le_exponent (h : x.Reaches (digits * 10 ^ exponent)) (hpos : 0 < x.magnitude)
    (hdigits : 0 < digits) : -400 - (digits.log2 : ℤ) ≤ exponent := by
  by_contra hlt
  have hbits := (log2_bounds hdigits).2
  have hmono : (10 : ℚ) ^ exponent ≤ 10 ^ (-401 - (digits.log2 : ℤ)) :=
    zpow_le_zpow_right₀ (by norm_num) (by omega)
  have hmono' : (2 : ℚ) ^ (-1074 : ℤ) ≤ 2 ^ x.exponent := zpow_le_zpow_right₀ one_le_two x.exponent_ge
  have hsmall : (2 : ℚ) * 10 ^ (-401 : ℤ) < 1 / 2 * 2 ^ (-1074 : ℤ) := by
    have hapart : (2 : ℚ) * (2 * 2 ^ 1074) < 10 ^ 401 := by exact_mod_cast powers_apart.2
    rw [zpow_neg, zpow_neg, ← div_eq_mul_inv, ← div_eq_mul_inv, div_div,
      div_lt_div_iff₀ (by positivity) (by positivity), one_mul]
    exact_mod_cast hapart
  have hfewer : (2 : ℚ) ^ (digits.log2 : ℤ) ≤ 10 ^ (digits.log2 : ℤ) := by
    rw [zpow_natCast, zpow_natCast]
    exact pow_le_pow_left₀ (by norm_num) (by norm_num) _
  have hbound : (digits : ℚ) * 10 ^ exponent ≤ 2 * 10 ^ (-401 : ℤ) := by
    calc (digits : ℚ) * 10 ^ exponent
        ≤ 2 ^ ((digits.log2 : ℤ) + 1) * 10 ^ (-401 - (digits.log2 : ℤ)) := by gcongr
      _ ≤ (10 ^ (digits.log2 : ℤ) * 2) * 10 ^ (-401 - (digits.log2 : ℤ)) := by
        rw [zpow_add_one₀ two_ne_zero]
        gcongr
      _ = 2 * 10 ^ (-401 : ℤ) := by
        rw [mul_right_comm, ← zpow_add₀ (by norm_num), mul_comm]
        congr 2
        ring
  have hleast := (mul_le_mul_of_nonneg_left hmono' (by norm_num)).trans (h.half_le hpos)
  exact absurd (hleast.trans hbound) (not_le.mpr hsmall)

/-- The decimals that a number reaches have exponents that are not answered without the power of ten. -/
theorem exponent_between (hfin : x.isFinite = true) (hpos : 0 < x.magnitude)
    (h : x.Reaches (digits * 10 ^ exponent)) :
    0 < digits ∧ exponent ≤ 400 ∧ -400 - (digits.log2 : ℤ) ≤ exponent := by
  have hdigits : 0 < digits := by
    rcases Nat.eq_zero_or_pos digits with rfl | hdigits
    · have := h.pos hpos
      simp at this
    · exact hdigits
  exact ⟨hdigits, h.exponent_le hfin hdigits, h.le_exponent hpos hdigits⟩

end

/-- **Decimals are rounded to the number that reaches them.** -/
theorem ofDecimal_of_reaches (hfin : x.isFinite = true) (hpos : 0 < x.magnitude) {digits : ℕ}
    {exponent : ℤ} (h : x.Reaches (digits * 10 ^ exponent)) (negative : Bool) :
    ofDecimal negative digits exponent = ofMagnitude negative x.magnitude := by
  obtain ⟨hdigits, hnotHigh, hnotLow⟩ := exponent_between hfin hpos h
  have hscale := tenPow_scale exponent
  rw [ofDecimal, if_neg (by omega), if_neg (by omega), if_neg (by omega)]
  split
  · rename_i hup
    refine ofRatio_of_reaches hfin hpos Nat.one_pos ?_ negative
    have hone : tenPow (-exponent).toNat = 1 := by rw [show (-exponent).toNat = 0 by omega, tenPow_zero]
    rw [hone, Nat.cast_one, mul_one] at hscale
    push_cast
    rwa [hscale, div_one]
  · rename_i hdown
    refine ofRatio_of_reaches hfin hpos (tenPow_pos _) ?_ negative
    have hone : tenPow exponent.toNat = 1 := by rw [show exponent.toNat = 0 by omega, tenPow_zero]
    rw [hone, Nat.cast_one] at hscale
    have hparts : (0 : ℚ) < tenPow (-exponent).toNat := by exact_mod_cast tenPow_pos _
    rwa [div_eq_mul_inv, ← eq_inv_of_mul_eq_one_left hscale.symm]

end Binary64

end PrivateSql
