import Mathlib.Algebra.Group.Nat.Defs
import Mathlib.Data.Nat.Log
import Mathlib.Order.Compare
import PrivateSql.Value.Order
/-!
# Integers as binary64 numbers

Queries compare integers as numbers: each is rounded to the nearest binary64 number first.  Rounding
never gives a NaN, so two integers always compare, by the places of their numbers.  It keeps the order
of the integers.  Up to `2 ^ 53` nothing is rounded and different integers have different places; above,
neighbours may share a place.

* `Binary64.totalCompare_eq_iff` — in the total order only a number itself compares as equal;
* `Binary64.compare?_ofInt` — two integers compare by the places of their numbers;
* `Binary64.totalPlace_ofInt_mono` — rounding keeps the order;
* `Binary64.place_ofInt_lt` — small integers keep it strictly.
-/

namespace PrivateSql

namespace Binary64

/-! ## The parts of a number -/

theorem toNat_bits_ofMagnitude (negative : Bool) {m : Nat} (h : m < 0x8000000000000000) :
    (ofMagnitude negative m).bits.toNat = if negative then 0x8000000000000000 + m else m := by
  cases negative
  · simp [ofMagnitude]
    omega
  · simp [ofMagnitude]
    omega

theorem magnitude_ofMagnitude (negative : Bool) {m : Nat} (h : m < 0x8000000000000000) :
    (ofMagnitude negative m).magnitude = m := by
  rw [magnitude, toNat_bits_ofMagnitude negative h]
  cases negative <;> simp <;> omega

theorem isNegative_ofMagnitude (negative : Bool) {m : Nat} (h : m < 0x8000000000000000) :
    (ofMagnitude negative m).isNegative = negative := by
  rw [isNegative, toNat_bits_ofMagnitude negative h]
  cases negative
  · simpa using h
  · simp

theorem place_ofMagnitude (negative : Bool) {m : Nat} (h : m < 0x8000000000000000) :
    (ofMagnitude negative m).place = if negative then -(m : Int) else m := by
  rw [place, isNegative_ofMagnitude negative h, magnitude_ofMagnitude negative h]

theorem totalPlace_ofMagnitude (negative : Bool) {m : Nat} (h : m < 0x8000000000000000) :
    (ofMagnitude negative m).totalPlace = if negative then -(m : Int) - 1 else m := by
  rw [totalPlace, isNegative_ofMagnitude negative h, magnitude_ofMagnitude negative h]

/-- The bits of a number, from its sign and its magnitude. -/
theorem toNat_bits (x : Binary64) :
    x.bits.toNat = (if x.isNegative then 0x8000000000000000 else 0) + x.magnitude := by
  have hlt := x.bits.toNat_lt
  by_cases h : 0x8000000000000000 ≤ x.bits.toNat
  · simp only [isNegative, magnitude, h, decide_true, if_true]
    omega
  · simp only [isNegative, magnitude, h, decide_false, Bool.false_eq_true, if_false]
    omega

/-- A number is known by its place in the total order. -/
theorem totalPlace_inj {x y : Binary64} : x.totalPlace = y.totalPlace ↔ x = y := by
  refine ⟨fun h => ?_, fun h => by rw [h]⟩
  have hbits : x.bits.toNat = y.bits.toNat := by
    rw [toNat_bits, toNat_bits]
    simp only [totalPlace] at h
    split at h <;> split at h <;> simp_all <;> omega
  cases x
  cases y
  exact congrArg mk (UInt64.toNat_inj.mp hbits)

/-- In the total order only a number itself compares as equal. -/
theorem totalCompare_eq_iff {x y : Binary64} : totalCompare x y = .eq ↔ x = y := by
  rw [totalCompare, compare_eq_iff_eq, totalPlace_inj]

/-! ## The number nearest to a quotient -/

/-- The magnitude that a quotient is rounded to, its last place given. -/
def magnitudeAt (e : Int) (scaled : Nat × Nat) : Nat :=
  min infinityMagnitude ((e + 1074).toNat * 0x10000000000000 + divNearestEven scaled.1 scaled.2)

/-- The magnitude that a quotient is rounded to. -/
def ratioMagnitude (n d : Nat) : Nat :=
  if n = 0 then 0 else magnitudeAt (lastPlace n d) (scaleDown n d (lastPlace n d))

theorem ofRatio_eq (negative : Bool) (n d : Nat) :
    ofRatio negative n d = ofMagnitude negative (ratioMagnitude n d) := by
  by_cases h : n = 0
  · rw [ofRatio, ratioMagnitude, if_pos h, if_pos h, zero]
  · rw [ofRatio, ratioMagnitude, if_neg h, if_neg h]
    extract_lets e
    generalize scaleDown n d e = scaled
    cases scaled
    rfl

theorem ratioMagnitude_le (n d : Nat) : ratioMagnitude n d ≤ infinityMagnitude := by
  unfold ratioMagnitude magnitudeAt
  split
  · exact Nat.zero_le _
  · exact Nat.min_le_left _ _

theorem ratioMagnitude_lt (n d : Nat) : ratioMagnitude n d < 0x8000000000000000 :=
  Nat.lt_of_le_of_lt (ratioMagnitude_le n d) (by decide)

theorem isNaN_ofRatio (negative : Bool) (n d : Nat) : (ofRatio negative n d).isNaN = false := by
  rw [ofRatio_eq, isNaN, magnitude_ofMagnitude negative (ratioMagnitude_lt n d),
    decide_eq_false_iff_not, Nat.not_lt]
  exact ratioMagnitude_le n d

theorem isNaN_ofInt (i : Int) : (ofInt i).isNaN = false := isNaN_ofRatio _ _ _

theorem place_ofInt (i : Int) :
    (ofInt i).place =
      if i < 0 then -(ratioMagnitude i.natAbs 1 : Int) else ratioMagnitude i.natAbs 1 := by
  rw [ofInt, ofNat, ofRatio_eq, place_ofMagnitude _ (ratioMagnitude_lt _ _)]
  simp only [decide_eq_true_eq]

/-- Two numbers that are not NaNs compare by their places. -/
theorem compare?_of_not_isNaN {x y : Binary64} (hx : x.isNaN = false) (hy : y.isNaN = false) :
    Number.compare? x y = some (compare x.place y.place) := by
  have hlt (a b : Binary64) (ha : a.isNaN = false) (hb : b.isNaN = false) :
      (Number.lt a b = true) = (a.place < b.place) := by
    change (Binary64.lt a b = true) = _
    simp [lt, ha, hb]
  have heq : (Number.eq x y = true) = (x.place = y.place) := by
    change (Binary64.eq x y = true) = _
    simp [eq, hx, hy]
  simp only [Number.compare?, hlt x y hx hy, hlt y x hy hx, heq]
  rcases lt_trichotomy x.place y.place with h | h | h
  · rw [if_pos h, compare_lt_iff_lt.mpr h]
  · rw [if_neg (by omega), if_pos h, compare_eq_iff_eq.mpr h]
  · rw [if_neg (by omega), if_neg (by omega), if_pos h, compare_gt_iff_gt.mpr h]

/-- **Integers always compare**, by the places of their numbers. -/
theorem compare?_ofInt (i j : Int) :
    Number.compare? (Number.ofInt i : Binary64) (Number.ofInt j) =
      some (compare (ofInt i).place (ofInt j).place) :=
  compare?_of_not_isNaN (isNaN_ofInt i) (isNaN_ofInt j)

/-! ## Rounding keeps the order -/

/-- The nearest even quotient grows with the dividend. -/
theorem divNearestEven_mono {m n : Nat} (d : Nat) (h : m ≤ n) :
    divNearestEven m d ≤ divNearestEven n d := by
  have hquotient : m / d ≤ n / d := Nat.div_le_div_right h
  unfold divNearestEven
  rcases Nat.lt_or_eq_of_le hquotient with hless | hsame
  · split <;> split <;> omega
  · -- With one quotient the remainders have the order of the dividends.
    have hm := Nat.div_add_mod m d
    have hn := Nat.div_add_mod n d
    rw [hsame] at hm ⊢
    have hremainder : m % d ≤ n % d := by omega
    split <;> split <;> omega

/-- A scaled integer has `k` bits before its last place when it has `e + k` bits. -/
theorem scaleDown_le_iff {n k : Nat} {e : Int} (h : 0 ≤ e + k) :
    (scaleDown n 1 e).2 * twoPow k ≤ (scaleDown n 1 e).1 ↔ twoPow (e + k).toNat ≤ n := by
  by_cases hup : 0 ≤ e
  · rw [scaleDown, if_pos hup, show (e + k).toNat = e.toNat + k by omega, twoPow_add, Nat.one_mul]
  · have hsplit : twoPow k = twoPow (e + k).toNat * twoPow (-e).toNat := by
      rw [← twoPow_add]
      congr 1
      omega
    rw [scaleDown, if_neg hup, Nat.one_mul, hsplit]
    exact Nat.mul_le_mul_right_iff (twoPow_pos _)

/-- The last place of an integer is 52 bits below its first one. -/
theorem lastPlace_eq {n : Nat} (hpos : 0 < n) : lastPlace n 1 = (n.log2 : Int) - 52 := by
  have hone : ((1 : Nat).log2 : Int) = 0 := by decide
  have hbits : twoPow n.log2 ≤ n := Nat.log2_self_le (by omega)
  have hmore : (scaleDown n 1 ((n.log2 : Int) - 0 - 53)).2 * 0x20000000000000 ≤
      (scaleDown n 1 ((n.log2 : Int) - 0 - 53)).1 := by
    apply (scaleDown_le_iff (k := 53) (by omega)).mpr
    rwa [show ((n.log2 : Int) - 0 - 53 + (53 : Nat)).toNat = n.log2 by omega]
  simp only [lastPlace, hone, if_pos hmore]
  omega

/-- The significand of an integer has 53 bits, before it is rounded and after. -/
theorem significand_between {n : Nat} (hpos : 0 < n) :
    0x10000000000000 ≤ divNearestEven (scaleDown n 1 ((n.log2 : Int) - 52)).1
        (scaleDown n 1 ((n.log2 : Int) - 52)).2 ∧
      divNearestEven (scaleDown n 1 ((n.log2 : Int) - 52)).1
        (scaleDown n 1 ((n.log2 : Int) - 52)).2 ≤ 0x20000000000000 := by
  have hbits : twoPow n.log2 ≤ n := Nat.log2_self_le (by omega)
  have hnext : n < twoPow (n.log2 + 1) := Nat.lt_log2_self
  have hlow : (scaleDown n 1 ((n.log2 : Int) - 52)).2 * 0x10000000000000 ≤
      (scaleDown n 1 ((n.log2 : Int) - 52)).1 := by
    apply (scaleDown_le_iff (k := 52) (by omega)).mpr
    rwa [show ((n.log2 : Int) - 52 + (52 : Nat)).toNat = n.log2 by omega]
  have hhigh : (scaleDown n 1 ((n.log2 : Int) - 52)).1 <
      (scaleDown n 1 ((n.log2 : Int) - 52)).2 * 0x20000000000000 := by
    apply Nat.lt_of_not_le
    intro hle
    have hall := (scaleDown_le_iff (k := 53) (by omega)).mp hle
    rw [show ((n.log2 : Int) - 52 + (53 : Nat)).toNat = n.log2 + 1 by omega] at hall
    omega
  generalize scaleDown n 1 ((n.log2 : Int) - 52) = scaled at hlow hhigh ⊢
  have hdivisor : 0 < scaled.2 := by omega
  have hquotient : 0x10000000000000 ≤ scaled.1 / scaled.2 :=
    (Nat.le_div_iff_mul_le hdivisor).mpr (by rwa [Nat.mul_comm])
  have hquotient' : scaled.1 / scaled.2 < 0x20000000000000 :=
    (Nat.div_lt_iff_lt_mul hdivisor).mpr (by rwa [Nat.mul_comm])
  unfold divNearestEven
  split <;> omega

/-- The number of an integer, from its first bit and its significand. -/
theorem ratioMagnitude_eq {n : Nat} (hpos : 0 < n) :
    ratioMagnitude n 1 = min infinityMagnitude ((n.log2 + 1022) * 0x10000000000000 +
      divNearestEven (scaleDown n 1 ((n.log2 : Int) - 52)).1
        (scaleDown n 1 ((n.log2 : Int) - 52)).2) := by
  rw [ratioMagnitude, if_neg (by omega), lastPlace_eq hpos, magnitudeAt,
    show ((n.log2 : Int) - 52 + 1074).toNat = n.log2 + 1022 by omega]

/-- The magnitude of a positive integer is positive. -/
theorem ratioMagnitude_pos {n : Nat} (h : 0 < n) : 0 < ratioMagnitude n 1 := by
  have hlow := (significand_between h).1
  rw [ratioMagnitude_eq h]
  unfold infinityMagnitude
  omega

/-- **Rounding keeps the order** of natural numbers. -/
theorem ratioMagnitude_mono {m n : Nat} (h : m ≤ n) : ratioMagnitude m 1 ≤ ratioMagnitude n 1 := by
  rcases Nat.eq_zero_or_pos m with rfl | hm
  · exact Nat.zero_le _
  · have hn : 0 < n := Nat.lt_of_lt_of_le hm h
    have hbits : m.log2 ≤ n.log2 := by
      rw [Nat.log2_eq_log_two, Nat.log2_eq_log_two]
      exact Nat.log_mono_right h
    rw [ratioMagnitude_eq hm, ratioMagnitude_eq hn]
    refine Nat.le_min.mpr ⟨Nat.min_le_left _ _, Nat.le_trans (Nat.min_le_right _ _) ?_⟩
    rcases Nat.lt_or_eq_of_le hbits with hmore | hsame
    · -- One more bit outweighs all significands.
      have hm' := (significand_between hm).2
      have hn' := (significand_between hn).1
      omega
    · rw [hsame]
      apply Nat.add_le_add_left
      by_cases hup : 0 ≤ (n.log2 : Int) - 52
      · simp only [scaleDown, if_pos hup]
        exact divNearestEven_mono _ h
      · simp only [scaleDown, if_neg hup]
        exact divNearestEven_mono _ (Nat.mul_le_mul_right _ h)

/-! ## The total order of the numbers of integers -/

theorem totalPlace_ofInt (i : Int) :
    (ofInt i).totalPlace =
      if i < 0 then -(ratioMagnitude i.natAbs 1 : Int) - 1 else ratioMagnitude i.natAbs 1 := by
  rw [ofInt, ofNat, ofRatio_eq, totalPlace_ofMagnitude _ (ratioMagnitude_lt _ _)]
  simp only [decide_eq_true_eq]

/-- **Rounding keeps the order** of integers. -/
theorem totalPlace_ofInt_mono {i j : Int} (h : i ≤ j) :
    (ofInt i).totalPlace ≤ (ofInt j).totalPlace := by
  rw [totalPlace_ofInt, totalPlace_ofInt]
  by_cases hi : i < 0
  · by_cases hj : j < 0
    · have hmono := ratioMagnitude_mono (show j.natAbs ≤ i.natAbs by omega)
      rw [if_pos hi, if_pos hj]
      omega
    · rw [if_pos hi, if_neg hj]
      omega
  · have hmono := ratioMagnitude_mono (show i.natAbs ≤ j.natAbs by omega)
    rw [if_neg hi, if_neg (by omega)]
    omega

/-- The two orders of numbers agree on the numbers of integers, as no integer is a negative zero. -/
theorem compare_place_ofInt (i j : Int) :
    compare (ofInt i).place (ofInt j).place = totalCompare (ofInt i) (ofInt j) := by
  have hbelow : ∀ k l : Int,
      (ofInt k).place < (ofInt l).place ↔ (ofInt k).totalPlace < (ofInt l).totalPlace := by
    intro k l
    have hk : k < 0 → 0 < ratioMagnitude k.natAbs 1 := fun h => ratioMagnitude_pos (by omega)
    have hl : l < 0 → 0 < ratioMagnitude l.natAbs 1 := fun h => ratioMagnitude_pos (by omega)
    rw [place_ofInt, place_ofInt, totalPlace_ofInt, totalPlace_ofInt]
    split <;> split <;> omega
  have hij := hbelow i j
  have hji := hbelow j i
  rw [totalCompare]
  rcases lt_trichotomy (ofInt i).place (ofInt j).place with h | h | h
  · rw [compare_lt_iff_lt.mpr h, compare_lt_iff_lt.mpr (hij.mp h)]
  · rw [compare_eq_iff_eq.mpr h, compare_eq_iff_eq.mpr (by omega)]
  · rw [compare_gt_iff_gt.mpr h, compare_gt_iff_gt.mpr (hji.mp h)]

/-! ## Small integers -/

theorem twoPow_eq (n : Nat) : twoPow n = 2 ^ n := rfl

theorem divNearestEven_one (n : Nat) : divNearestEven n 1 = n := by
  simp [divNearestEven, Nat.mod_one]

/-- An integer of at most 53 bits, moved up to 53 bits. -/
theorem significand_bounds {n : Nat} (hpos : 0 < n) (h : n < 0x20000000000000) :
    n.log2 ≤ 52 ∧ 0x10000000000000 ≤ n * twoPow (52 - n.log2) ∧
      n * twoPow (52 - n.log2) < 0x20000000000000 := by
  have hlog : n.log2 < 53 := (Nat.log2_lt (by omega)).mpr (by simpa using h)
  have hle : 2 ^ n.log2 ≤ n := Nat.log2_self_le (by omega)
  have hlt : n < 2 ^ (n.log2 + 1) := Nat.lt_log2_self
  have hpow : 2 ^ n.log2 * 2 ^ (52 - n.log2) = 0x10000000000000 := by
    rw [← Nat.pow_add, Nat.add_sub_cancel' (by omega)]
  have hhigh : 2 ^ (n.log2 + 1) * 2 ^ (52 - n.log2) = 0x20000000000000 := by
    rw [← Nat.pow_add, show n.log2 + 1 + (52 - n.log2) = 53 by omega]
  refine ⟨by omega, ?_, ?_⟩
  · rw [twoPow_eq, ← hpow]
    exact Nat.mul_le_mul_right _ hle
  · rw [twoPow_eq, ← hhigh]
    exact Nat.mul_lt_mul_of_pos_right hlt (Nat.two_pow_pos _)

/-- Below `2 ^ 53` the number of an integer is the integer itself. -/
theorem ratioMagnitude_of_lt {n : Nat} (hpos : 0 < n) (h : n < 0x20000000000000) :
    ratioMagnitude n 1 = (n.log2 + 1022) * 0x10000000000000 + n * twoPow (52 - n.log2) := by
  obtain ⟨hlog, -, hhigh⟩ := significand_bounds hpos h
  have hscaled : scaleDown n 1 ((n.log2 : Int) - 52) = (n * twoPow (52 - n.log2), 1) := by
    by_cases htop : n.log2 = 52
    · rw [scaleDown, if_pos (by omega), htop]
      simp [twoPow_zero]
    · rw [scaleDown, if_neg (by omega), show (-((n.log2 : Int) - 52)).toNat = 52 - n.log2 by omega]
  rw [ratioMagnitude_eq hpos, hscaled, divNearestEven_one]
  refine Nat.min_eq_right ?_
  unfold infinityMagnitude
  omega

/-- The magnitudes of integers of at most 53 bits have their order. -/
theorem ratioMagnitude_lt_of_lt {m n : Nat} (hmn : m < n) (hn : n ≤ 0x20000000000000) :
    ratioMagnitude m 1 < ratioMagnitude n 1 := by
  have hzero : ratioMagnitude 0 1 = 0 := rfl
  have htop : ratioMagnitude 0x20000000000000 1 = 1076 * 0x10000000000000 := by decide
  rcases Nat.eq_zero_or_pos m with rfl | hpos
  · rcases Nat.lt_or_eq_of_le hn with hlt | rfl
    · rw [hzero, ratioMagnitude_of_lt hmn hlt]
      omega
    · rw [hzero, htop]
      omega
  · obtain ⟨hlog, hlow, hhigh⟩ := significand_bounds hpos (by omega)
    rw [ratioMagnitude_of_lt hpos (by omega)]
    rcases Nat.lt_or_eq_of_le hn with hlt | rfl
    · obtain ⟨hlog', hlow', -⟩ := significand_bounds (Nat.lt_trans hpos hmn) hlt
      rw [ratioMagnitude_of_lt (Nat.lt_trans hpos hmn) hlt]
      -- The larger one has as many bits, or more of them.
      have hbits : m.log2 ≤ n.log2 := by
        rw [Nat.log2_eq_log_two, Nat.log2_eq_log_two]
        exact Nat.log_mono_right (Nat.le_of_lt hmn)
      rcases Nat.lt_or_eq_of_le hbits with hmore | heq
      · omega
      · rw [heq]
        have := Nat.mul_lt_mul_of_pos_right hmn (twoPow_pos (52 - n.log2))
        omega
    · rw [htop]
      omega

/-- **Small integers keep their order** as numbers. -/
theorem place_ofInt_lt {i j : Int} (hij : i < j) (hi : i.natAbs ≤ 0x20000000000000)
    (hj : j.natAbs ≤ 0x20000000000000) : (ofInt i).place < (ofInt j).place := by
  rw [place_ofInt, place_ofInt]
  by_cases hineg : i < 0
  · by_cases hjneg : j < 0
    · have := ratioMagnitude_lt_of_lt (m := j.natAbs) (n := i.natAbs) (by omega) hi
      rw [if_pos hineg, if_pos hjneg]
      omega
    · have := ratioMagnitude_lt_of_lt (m := 0) (n := i.natAbs) (by omega) hi
      rw [if_pos hineg, if_neg hjneg]
      omega
  · have := ratioMagnitude_lt_of_lt (m := i.natAbs) (n := j.natAbs) (by omega) hj
    rw [if_neg hineg, if_neg (by omega)]
    omega

end Binary64

end PrivateSql
