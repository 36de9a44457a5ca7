import PrivateSql.Proofs.NearestNumbers
/-!
# The shortest decimal is near its number

The shortest decimal of a number is looked for on grids of 1, 2, … 17 digits.  A grid of 17 digits is finer
than the reach of any number, so one of its points next to the number is in the reach; whichever grid is
taken in the end, its point is.  Zeros dropped at the end of the digits change nothing.

* `Neighbourhood.holds_iff` — the fractions in a neighbourhood are those the number reaches;
* `Neighbourhood.le_decimalLength` — a number has as many digits before its point as are counted, or more;
* `Neighbourhood.exists_pick` — a fine grid has a point to take;
* `Decimal.shortest_reaches` — a number reaches its shortest decimal.
-/

namespace PrivateSql

variable {x : Binary64} {n d : ℕ}

/-! ## Neighbourhoods as reaches -/

namespace Neighbourhood

theorem den_pos (x : Binary64) : 0 < (of x).den := twoPow_pos _

/-- The amounts of a neighbourhood in last places of the number. -/
theorem of_scale (x : Binary64) (k : ℕ) :
    ((k * twoPow (x.exponent - 2).toNat : ℕ) : ℚ) / (of x).den = k / 4 * 2 ^ x.exponent := by
  have hden : (0 : ℚ) < (of x).den := by exact_mod_cast den_pos x
  have hscale : (twoPow (x.exponent - 2).toNat : ℚ) = 2 ^ (x.exponent - 2) * (of x).den :=
    twoPow_scale (x.exponent - 2)
  have hquarter : (2 : ℚ) ^ (x.exponent - 2) = 2 ^ x.exponent / 4 := by
    rw [zpow_sub₀ two_ne_zero]
    norm_num
  push_cast
  rw [hscale, hquarter]
  field_simp

theorem value_div (x : Binary64) :
    ((of x).value : ℚ) / (of x).den = x.significand * 2 ^ x.exponent := by
  have h := of_scale x (4 * x.significand)
  push_cast at h
  rw [show (of x).value = 4 * x.significand * twoPow (x.exponent - 2).toNat from rfl]
  push_cast
  rw [h]
  ring

theorem high_div (x : Binary64) :
    ((of x).high : ℚ) / (of x).den = (x.significand + 1 / 2) * 2 ^ x.exponent := by
  have h := of_scale x (4 * x.significand + 2)
  push_cast at h
  rw [show (of x).high = (4 * x.significand + 2) * twoPow (x.exponent - 2).toNat from rfl]
  push_cast
  rw [h]
  ring

theorem low_div (hpos : 0 < x.magnitude) :
    ((of x).low : ℚ) / (of x).den = (x.significand - x.quartersBelow / 4) * 2 ^ x.exponent := by
  have hsignificand := Binary64.significand_pos hpos
  have hquarters : x.quartersBelow ≤ 2 := by
    unfold Binary64.quartersBelow
    split <;> omega
  have h := of_scale x (4 * x.significand - x.quartersBelow)
  rw [show (of x).low = (4 * x.significand - x.quartersBelow) * twoPow (x.exponent - 2).toNat from rfl,
    h, Nat.cast_sub (by omega)]
  push_cast
  ring

/-- **The fractions in a neighbourhood** are those the number reaches. -/
theorem holds_iff (hpos : 0 < x.magnitude) (hd : 0 < d) :
    (of x).holds n d = true ↔ x.Reaches (n / d) := by
  have hd' : (0 : ℚ) < d := by exact_mod_cast hd
  have hden : (0 : ℚ) < (of x).den := by exact_mod_cast den_pos x
  have hclosed : (of x).closed = decide (x.significand % 2 = 0) := rfl
  have hle (a b : ℕ) : a * d ≤ b * (of x).den ↔ (a : ℚ) / (of x).den ≤ b / d := by
    rw [div_le_div_iff₀ hden hd']
    exact_mod_cast Iff.rfl
  have hge (a b : ℕ) : a * (of x).den ≤ b * d ↔ (a : ℚ) / d ≤ b / (of x).den := by
    rw [div_le_div_iff₀ hd' hden]
    exact_mod_cast Iff.rfl
  have hlt (a b : ℕ) : a * d < b * (of x).den ↔ (a : ℚ) / (of x).den < b / d := by
    rw [div_lt_div_iff₀ hden hd']
    exact_mod_cast Iff.rfl
  have hgt (a b : ℕ) : a * (of x).den < b * d ↔ (a : ℚ) / d < b / (of x).den := by
    rw [div_lt_div_iff₀ hd' hden]
    exact_mod_cast Iff.rfl
  unfold holds
  by_cases heven : x.significand % 2 = 0
  · simp only [hclosed, heven, decide_true, if_true, decide_eq_true_eq, hle, hge, low_div hpos, high_div]
    exact ⟨fun ⟨hl, hh⟩ => ⟨hl, hh, fun hodd => by omega⟩, fun h => ⟨h.low, h.high⟩⟩
  · simp only [hclosed, heven, decide_false, Bool.false_eq_true, if_false, decide_eq_true_eq, hlt, hgt,
      low_div hpos, high_div]
    exact ⟨fun ⟨hl, hh⟩ => ⟨hl.le, hh.le, fun _ => ⟨hl, hh⟩⟩, fun h => h.inside (by omega)⟩

/-! ## The digits before the point -/

/-- The powers of one base do not pass those of another, once and so many times over. -/
theorem zpow_mono_left {a b : ℚ} (ha : 0 < a) {j k : ℕ} (h : a ^ j ≤ b ^ k) (m : ℕ) :
    a ^ ((m : ℤ) * j) ≤ b ^ ((m : ℤ) * k) := by
  rw [mul_comm, zpow_mul, mul_comm, zpow_mul, zpow_natCast, zpow_natCast, zpow_natCast, zpow_natCast]
  exact pow_le_pow_left₀ (by positivity) h m

/-- The digits of 4096 bits are between 1233 and 1234. -/
theorem digits_of_bits : (10 : ℚ) ^ 1233 ≤ 2 ^ 4096 ∧ (2 : ℚ) ^ 4096 ≤ 10 ^ 1234 := by
  have hnat : 10 ^ 1233 ≤ 2 ^ 4096 ∧ 2 ^ 4096 ≤ 10 ^ 1234 := by decide +kernel
  exact ⟨by exact_mod_cast hnat.1, by exact_mod_cast hnat.2⟩

/-- The digits counted from some bits are not too many. -/
theorem tenPow_le_twoPow {bits : ℤ} (h : -8192 ≤ bits) :
    (10 : ℚ) ^ (bits * 1233 / 4096 - 2) ≤ 2 ^ bits := by
  obtain ⟨hlow, hhigh⟩ := digits_of_bits
  have hfloor : (bits * 1233 / 4096 - 2) * 4096 ≤ bits * 1233 - 8192 := by omega
  have hpower (a : ℚ) (k : ℤ) : (a ^ k) ^ 4096 = a ^ (k * 4096) := by
    rw [← zpow_natCast, ← zpow_mul, Nat.cast_ofNat]
  -- Both sides are compared in their 4096th powers.
  rw [← pow_le_pow_iff_left₀ (by positivity) (by positivity) (by decide : 4096 ≠ 0), hpower, hpower]
  refine le_trans (zpow_le_zpow_right₀ (by norm_num) hfloor) ?_
  rcases le_or_gt 0 bits with hnonneg | hneg
  · obtain ⟨b, rfl⟩ := Int.eq_ofNat_of_zero_le hnonneg
    have hmono := zpow_mono_left (by norm_num) hlow b
    rw [Nat.cast_ofNat, Nat.cast_ofNat] at hmono
    exact (zpow_le_zpow_right₀ (by norm_num) (by omega)).trans hmono
  · obtain ⟨b, hb⟩ := Int.eq_ofNat_of_zero_le (show 0 ≤ -bits by omega)
    have hmono := zpow_mono_left two_pos hhigh b
    rw [Nat.cast_ofNat, Nat.cast_ofNat, ← hb] at hmono
    have hinverse := inv_anti₀ (by positivity) hmono
    rw [← zpow_neg, ← zpow_neg, neg_mul, neg_mul, neg_neg, neg_neg] at hinverse
    exact (zpow_le_zpow_right₀ (by norm_num) (by omega)).trans hinverse

/-- The amount of a number, counted in bits. -/
theorem twoPow_lt_amount (hpos : 0 < x.magnitude) :
    (2 : ℚ) ^ (((of x).value.log2 : ℤ) - (of x).den.log2 - 1) < x.significand * 2 ^ x.exponent := by
  have hvalue : 0 < (of x).value :=
    Nat.mul_pos (Nat.mul_pos (by decide) (Binary64.significand_pos hpos)) (twoPow_pos _)
  rw [← value_div]
  exact (Binary64.div_log2_bounds hvalue (den_pos x)).1

/-- The denominators are no larger than the last places are small. -/
theorem log2_den_le (x : Binary64) : (of x).den.log2 ≤ 1076 := by
  have hexponent := x.exponent_ge
  have hden : (of x).den = 2 ^ (-(x.exponent - 2)).toNat := rfl
  rw [hden, Nat.log2_two_pow]
  omega

/-- **The digits before the point**: with one digit fewer the power of ten is not above the number. -/
theorem le_decimalLength (hpos : 0 < x.magnitude) :
    (10 : ℚ) ^ ((of x).decimalLength - 1) ≤ x.significand * 2 ^ x.exponent := by
  have hden : (0 : ℚ) < (of x).den := by exact_mod_cast den_pos x
  have hbits := twoPow_lt_amount hpos
  have hden' := log2_den_le x
  set bits : ℤ := ((of x).value.log2 : ℤ) - (of x).den.log2 - 1 with hbitsEq
  -- A power of ten that is not above the value.
  have hbelow (k : ℤ) (h : (if 0 ≤ k then decide ((of x).value < tenPow k.toNat * (of x).den)
      else decide ((of x).value * tenPow (-k).toNat < (of x).den)) = false) :
      (10 : ℚ) ^ k ≤ x.significand * 2 ^ x.exponent := by
    have hscale := tenPow_scale k
    rw [← value_div]
    split at h
    · have hone : tenPow (-k).toNat = 1 := by rw [show (-k).toNat = 0 by omega, tenPow_zero]
      rw [hone, Nat.cast_one, mul_one] at hscale
      rw [le_div_iff₀ hden, ← hscale]
      exact_mod_cast not_lt.mp (of_decide_eq_false h)
    · have hone : tenPow k.toNat = 1 := by rw [show k.toNat = 0 by omega, tenPow_zero]
      rw [hone, Nat.cast_one] at hscale
      have hparts : (0 : ℚ) < tenPow (-k).toNat := by exact_mod_cast tenPow_pos _
      rw [eq_inv_of_mul_eq_one_left hscale.symm, inv_le_iff_one_le_mul₀ hparts, div_mul_eq_mul_div,
        le_div_iff₀ hden, one_mul]
      exact_mod_cast not_lt.mp (of_decide_eq_false h)
  unfold decimalLength
  simp only [← hbitsEq]
  split
  · rename_i i hfound
    obtain ⟨-, -, hnot⟩ := List.find?_range_eq_some.mp hfound
    rcases Nat.eq_zero_or_pos i with rfl | hi
    · refine le_trans ?_ hbits.le
      have hpower : (10 : ℚ) ^ (bits * 1233 / 4096 - 2) ≤ 2 ^ bits := tenPow_le_twoPow (by omega)
      simpa [sub_sub] using hpower
    · have h := hnot (i - 1) (by omega)
      refine hbelow _ ?_
      rw [show bits * 1233 / 4096 - 1 + (i : ℤ) - 1 = bits * 1233 / 4096 - 1 + ((i - 1 : ℕ) : ℤ) by omega]
      simpa using h
  · rename_i hnone
    have h := List.find?_range_eq_none.mp hnone 4 (by omega)
    refine hbelow _ ?_
    rw [show bits * 1233 / 4096 - 1 + 5 - 1 = bits * 1233 / 4096 - 1 + ((4 : ℕ) : ℤ) by omega]
    simpa using h

/-! ## Points of a grid -/

/-- The fraction of a grid point. -/
theorem gridPoint_div (p : ℕ) (e : ℤ) :
    ((p * tenPow e.toNat : ℕ) : ℚ) / tenPow (-e).toNat = p * 10 ^ e := by
  have hparts : (tenPow (-e).toNat : ℚ) ≠ 0 := by exact_mod_cast (tenPow_pos _).ne'
  push_cast
  rw [tenPow_scale e]
  field_simp

/-- A grid point that is taken is in the neighbourhood. -/
theorem reaches_of_pick (hpos : 0 < x.magnitude) {tie : Tie} {e : ℤ} {p : ℕ}
    (h : (of x).pick? tie e = some p) : x.Reaches (p * 10 ^ e) := by
  have hpoint (p : ℕ) (hp : (of x).holds (p * tenPow e.toNat) (tenPow (-e).toNat) = true) :
      x.Reaches (p * 10 ^ e) := by
    rw [← gridPoint_div]
    exact (holds_iff hpos (tenPow_pos _)).mp hp
  simp only [pick?] at h
  split at h
  · rename_i hboth
    obtain ⟨hbelow, habove⟩ := Bool.and_eq_true_iff.mp hboth
    obtain ⟨order, rfl⟩ : ∃ order, p = tie.choose _ order := ⟨_, (Option.some.inj h).symm⟩
    cases order with
    | lt => exact hpoint _ hbelow
    | gt => exact hpoint _ habove
    | eq =>
        cases tie with
        | up => exact hpoint _ habove
        | even =>
            simp only [Tie.choose]
            split
            · exact hpoint _ hbelow
            · exact hpoint _ habove
  · split at h
    · cases h
      exact hpoint _ ‹_›
    · split at h
      · cases h
        exact hpoint _ ‹_›
      · cases h

/-- **A grid finer than the reach has a point to take.** -/
theorem exists_pick (hpos : 0 < x.magnitude) (tie : Tie) {e : ℤ}
    (hfine : (10 : ℚ) ^ e < (x.quartersBelow / 4 + 1 / 2) * 2 ^ x.exponent) :
    ((of x).pick? tie e).isSome = true := by
  have hden : (0 : ℚ) < (of x).den := by exact_mod_cast den_pos x
  have hparts : (0 : ℚ) < tenPow (-e).toNat := by exact_mod_cast tenPow_pos _
  have hten : (0 : ℚ) < 10 ^ e := by positivity
  set below := (of x).value * tenPow (-e).toNat / ((of x).den * tenPow e.toNat) with hbelowEq
  -- The value lies between two neighbours of the grid.
  have hbetween : (below : ℚ) * 10 ^ e ≤ x.significand * 2 ^ x.exponent ∧
      x.significand * 2 ^ x.exponent < ((below + 1 : ℕ) : ℚ) * 10 ^ e := by
    have hunit : 0 < (of x).den * tenPow e.toNat := Nat.mul_pos (den_pos x) (tenPow_pos _)
    have hle : below * ((of x).den * tenPow e.toNat) ≤ (of x).value * tenPow (-e).toNat :=
      Nat.div_mul_le_self _ _
    have hlt : (of x).value * tenPow (-e).toNat < (below + 1) * ((of x).den * tenPow e.toNat) :=
      Nat.lt_mul_of_div_lt (Nat.lt_succ_self _) hunit
    rw [← value_div, ← gridPoint_div, ← gridPoint_div, div_le_div_iff₀ hparts hden,
      div_lt_div_iff₀ hden hparts]
    constructor
    · have : below * tenPow e.toNat * (of x).den ≤ (of x).value * tenPow (-e).toNat := by
        rw [mul_assoc, mul_comm (tenPow e.toNat)]
        exact hle
      exact_mod_cast this
    · have : (of x).value * tenPow (-e).toNat < (below + 1) * tenPow e.toNat * (of x).den := by
        rw [mul_assoc, mul_comm (tenPow e.toNat)]
        exact hlt
      exact_mod_cast this
  -- If both are out of reach, the grid is no finer than the reach.
  have hone : x.Reaches ((below : ℚ) * 10 ^ e) ∨ x.Reaches (((below + 1 : ℕ) : ℚ) * 10 ^ e) := by
    have hunit : (0 : ℚ) < 2 ^ x.exponent := by positivity
    have hquarter : (0 : ℚ) < x.quartersBelow := by
      unfold Binary64.quartersBelow
      split <;> norm_num
    obtain ⟨hle, hlt⟩ := hbetween
    push_cast at hlt ⊢
    by_cases hlow : (x.significand - x.quartersBelow / 4) * 2 ^ x.exponent < (below : ℚ) * 10 ^ e
    · refine .inl ⟨hlow.le, ?_, fun _ => ⟨hlow, ?_⟩⟩ <;> nlinarith
    · have hhigh : ((below : ℚ) + 1) * 10 ^ e < (x.significand + 1 / 2) * 2 ^ x.exponent := by
        nlinarith [not_lt.mp hlow]
      refine .inr ⟨?_, hhigh.le, fun _ => ⟨?_, hhigh⟩⟩ <;> nlinarith
  simp only [pick?, ← hbelowEq]
  rcases hone with h | h
  · rw [← gridPoint_div, ← holds_iff hpos (tenPow_pos _)] at h
    simp only [h, Bool.true_and, if_true]
    split <;> rfl
  · rw [← gridPoint_div, ← holds_iff hpos (tenPow_pos _)] at h
    simp only [h, Bool.and_true, if_true]
    split <;> rfl

/-- Grids of 17 digits are finer than the reach. -/
theorem tenPow_lt_reach (hpos : 0 < x.magnitude) :
    (10 : ℚ) ^ ((of x).decimalLength - 17) < (x.quartersBelow / 4 + 1 / 2) * 2 ^ x.exponent := by
  have hunit : (0 : ℚ) < 2 ^ x.exponent := by positivity
  have hsixteen : (10 : ℚ) ^ ((of x).decimalLength - 17) * 10 ^ 16 = 10 ^ ((of x).decimalLength - 1) := by
    rw [← zpow_natCast, ← zpow_add₀ (by norm_num)]
    congr 1
    push_cast
    ring
  have hlength := le_decimalLength hpos
  unfold Binary64.quartersBelow
  split
  · rename_i hleast
    rw [hleast.1] at hlength
    push_cast at hlength ⊢
    linarith
  · have hsignificand : (x.significand : ℚ) ≤ 0x20000000000000 := by exact_mod_cast x.significand_lt.le
    push_cast
    nlinarith

end Neighbourhood

namespace Decimal

/-- Dropping zeros changes neither the amount nor whether there is any. -/
theorem dropZeros_spec (k : ℕ) (d : Decimal) :
    (dropZeros k d).amount = d.amount ∧ ((dropZeros k d).digits = 0 ↔ d.digits = 0) := by
  induction k generalizing d with
  | zero => exact ⟨rfl, Iff.rfl⟩
  | succ k ih =>
      rw [dropZeros]
      split
      · rename_i hzero
        obtain ⟨hamount, hdigits⟩ := ih ⟨d.digits / 10, d.exponent + 1⟩
        have htens : d.digits = d.digits / 10 * 10 := by omega
        constructor
        · rw [hamount, amount, amount]
          conv_rhs => rw [htens]
          push_cast
          rw [zpow_add_one₀ (by norm_num)]
          ring
        · rw [hdigits]
          simp only
          omega
      · exact ⟨rfl, Iff.rfl⟩

/-- **A number reaches its shortest decimal**, whichever of two decimals at an equal distance is taken. -/
theorem shortest_reaches (hpos : 0 < x.magnitude) (tie : Tie) : x.Reaches (shortest tie x).amount := by
  obtain ⟨d, hd⟩ : ∃ d, ((List.range 17).findSome? fun (i : Nat) =>
      ((Neighbourhood.of x).pick? tie ((Neighbourhood.of x).decimalLength - (i + 1))).map fun d =>
        Decimal.mk d ((Neighbourhood.of x).decimalLength - (i + 1))) = some d := by
    rw [← Option.isSome_iff_exists, List.findSome?_isSome_iff]
    refine ⟨16, by simp, ?_⟩
    rw [Option.isSome_map]
    exact Neighbourhood.exists_pick hpos tie (by simpa using Neighbourhood.tenPow_lt_reach hpos)
  obtain ⟨i, -, hi⟩ := List.exists_of_findSome?_eq_some hd
  obtain ⟨p, hp, rfl⟩ := Option.map_eq_some_iff.mp hi
  have hshortest : (shortest tie x).amount = amount ⟨p, (Neighbourhood.of x).decimalLength - (i + 1)⟩ := by
    unfold shortest
    simp only [hd, Option.getD_some]
    exact (dropZeros_spec 20 _).1
  rw [hshortest]
  exact Neighbourhood.reaches_of_pick hpos hp

/-- The shortest decimal has digits. -/
theorem shortest_pos (hpos : 0 < x.magnitude) (tie : Tie) : 0 < (shortest tie x).digits := by
  have h := (shortest_reaches hpos tie).pos hpos
  rcases Nat.eq_zero_or_pos (shortest tie x).digits with hzero | hdigits
  · rw [amount, hzero, Nat.cast_zero, zero_mul] at h
    exact absurd h (lt_irrefl 0)
  · exact hdigits

end Decimal

end PrivateSql
