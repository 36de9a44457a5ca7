import Mathlib.Analysis.Complex.ExponentialBounds
import PrivateSql.Proofs.CalibratedColumns
import PrivateSql.Proofs.ExactNumbers
import PrivateSql.Privacy.Release
/-!
# Rounded counts and the threshold

The threshold of a mechanism is that of a noisy count, a number; what is compared with it is the cell
that is released, the noisy count rounded to an integer, not negative, and in the range of 64 bits.
Rounding moves a count by at most one half, and up as well as down: a group is released when its noisy
count is at least one half above the integer part of the threshold.  So where the fraction of the
threshold is below one half, rounding only hides more groups; where it is not, rounding shows groups
whose noisy counts are below the threshold.

* `releasedCount` — the integer that a noisy count is released as;
* `lt_releasedCount_iff` — when it exceeds a threshold;
* `gives_laplaceNoise`, `le_laplaceOfWord_iff` — draws of Laplace noise, and which of them are large;
* `Calibration.suppress_count_iff` — which noisy counts show a group, and which thresholds are kept;
* `Calibration.suppress_count_crosses` — a noisy count below the threshold that shows a group;
* `laplace_shows_single_iff` — the words of Laplace noise that show a group of one row.
-/

namespace PrivateSql

/-! ## The integer that is released -/

/-- A word in range stands for its integer, any other integer for the nearest end. -/
theorem toInt_clampToInt64 (i : ℤ) : (Binary64.clampToInt64 i).toInt =
    max (-0x8000000000000000) (min i 0x7fffffffffffffff) := by
  rw [Binary64.clampToInt64]
  refine Int64.toInt_ofInt_of_le ?_ ?_ <;> omega

/-- The integer that a noisy count is released as. -/
noncomputable def releasedCount (noisy : ℝ) : ℤ := min (max (roundAway noisy) 0) 0x7fffffffffffffff

/-- The released cell of a count holds its released integer. -/
theorem Calibration.number?_cellOf_count {c : Calibration ℝ} (hc : c.function = .count) (noisy : ℝ) :
    (c.cellOf noisy).number? = some (releasedCount noisy : ℝ) := by
  have hrounded : (Number.maximum (Number.roundToInteger .nearest noisy) Number.zero : ℝ) =
      ((max (roundAway noisy) 0 : ℤ) : ℝ) := by
    rw [exact_maximum, exact_zero]
    push_cast
    rfl
  rw [cellOf_count hc, hrounded, Value.number?, exact_toInt64_int, exact_ofInt, toInt_clampToInt64,
    releasedCount, max_eq_right]
  omega

/-- A count is rounded to an integer above `z` when it is at least one half above `z`. -/
theorem lt_roundAway_iff {z : ℤ} (hz : 0 ≤ z) (noisy : ℝ) :
    z < roundAway noisy ↔ (z : ℝ) + 1 / 2 ≤ noisy := by
  have hz' : (0 : ℝ) ≤ z := Int.cast_nonneg hz
  unfold roundAway
  split
  · rw [← Int.add_one_le_iff, Int.le_floor]
    push_cast
    constructor <;> intro h <;> linarith
  · rename_i hneg
    have hceil : ⌈noisy - 1 / 2⌉ ≤ 0 := Int.ceil_le.mpr (by push_cast; linarith)
    constructor
    · intro h
      omega
    · intro h
      linarith

/-- **When a released count exceeds the threshold.**  The noisy count is at least one half above the
integer part of the threshold. -/
theorem lt_releasedCount_iff {tau : ℝ} (h0 : 0 ≤ tau) (hmax : tau < 0x7fffffffffffffff) (noisy : ℝ) :
    tau < releasedCount noisy ↔ ⌊tau⌋ + 1 / 2 ≤ noisy := by
  have hfloor : 0 ≤ ⌊tau⌋ := Int.floor_nonneg.mpr h0
  have hfloorMax : ⌊tau⌋ < 0x7fffffffffffffff := Int.floor_lt.mpr (by exact_mod_cast hmax)
  rw [← Int.floor_lt, ← lt_roundAway_iff hfloor, releasedCount]
  omega

/-- **Which noisy counts show a group.**  Below 0 a threshold is exceeded by every count, and at the end
of the range by none. -/
theorem lt_releasedCount_cases (tau noisy : ℝ) :
    tau < releasedCount noisy ↔
      tau < 0 ∨ (tau < 0x7fffffffffffffff ∧ ⌊tau⌋ + 1 / 2 ≤ noisy) := by
  have hnonneg : (0 : ℝ) ≤ releasedCount noisy := by
    refine Int.cast_nonneg ?_
    rw [releasedCount]
    omega
  have hle : (releasedCount noisy : ℝ) ≤ 0x7fffffffffffffff := by
    exact_mod_cast (min_le_right _ _ : releasedCount noisy ≤ 0x7fffffffffffffff)
  by_cases h0 : tau < 0
  · exact iff_of_true (by linarith) (.inl h0)
  by_cases hmax : tau < 0x7fffffffffffffff
  · rw [lt_releasedCount_iff (not_lt.mp h0) hmax]
    simp [h0, hmax]
  · refine iff_of_false (by linarith) ?_
    simp [h0, hmax]

/-! ## Laplace noise -/

/-- The place of a word between 0 and 1, from its 52 high bits. -/
noncomputable def placeOf (word : UInt64) : ℝ := dyadic (word.toNat / twoPow 12) 52

theorem dyadic_one_one : (dyadic 1 1 : ℝ) = 1 / 2 := by
  norm_num [dyadic, twoPow]

theorem placeOf_nonneg (word : UInt64) : 0 ≤ placeOf word := by
  rw [placeOf, dyadic, exact_ofInt, exact_ofInt]
  positivity

theorem placeOf_lt_one (word : UInt64) : placeOf word < 1 := by
  have hword : word.toNat / twoPow 12 < twoPow 52 := by
    rw [Nat.div_lt_iff_lt_mul (by decide)]
    exact lt_of_lt_of_le word.toNat_lt (by decide)
  rw [placeOf, dyadic, exact_ofInt, exact_ofInt, div_lt_one (by norm_num [twoPow])]
  exact_mod_cast hword

/-- The noise of a word whose place is in the lower half is not positive. -/
theorem laplaceOfWord_of_low {scale : ℝ} (hscale : 0 < scale) {word : UInt64}
    (hlow : placeOf word < 1 / 2) : laplaceOfWord scale word ≤ 0 := by
  have hp := placeOf_nonneg word
  have hnoise : laplaceOfWord scale word = scale * Real.log (2 * placeOf word) := by
    have hneg : placeOf word - 1 / 2 < 0 := by linarith
    rw [laplaceOfWord, dyadic_one_one, ← placeOf, if_pos (exact_lt.mpr (by rwa [exact_zero]))]
    simp only [exact_zero, exact_one, exact_abs, exact_ofInt, exact_log, abs_of_neg hneg]
    push_cast
    ring_nf
  have hlog : Real.log (2 * placeOf word) ≤ 0 := Real.log_nonpos (by linarith) (by linarith)
  rw [hnoise]
  exact mul_nonpos_of_nonneg_of_nonpos hscale.le hlog

/-- The noise of a word whose place is in the upper half. -/
theorem laplaceOfWord_of_high {scale : ℝ} {word : UInt64} (hhigh : 1 / 2 ≤ placeOf word) :
    laplaceOfWord scale word = -(scale * Real.log (2 * (1 - placeOf word))) := by
  have hnonneg : 0 ≤ placeOf word - 1 / 2 := by linarith
  rw [laplaceOfWord, dyadic_one_one, ← placeOf,
    if_neg (by rw [exact_lt, exact_zero]; exact not_lt.mpr hnonneg)]
  simp only [exact_zero, exact_one, exact_abs, exact_ofInt, exact_log, abs_of_nonneg hnonneg]
  push_cast
  ring_nf

/-- **The upper tail of Laplace noise.**  A draw is at least `t` for the words whose place is near
enough to 1. -/
theorem le_laplaceOfWord_iff {scale t : ℝ} (hscale : 0 < scale) (ht : 0 < t) (word : UInt64) :
    t ≤ laplaceOfWord scale word ↔ 1 - placeOf word ≤ 1 / 2 * Real.exp (-t / scale) := by
  have hp1 := placeOf_lt_one word
  by_cases hhigh : 1 / 2 ≤ placeOf word
  · have hpos : 0 < 2 * (1 - placeOf word) := by linarith
    rw [laplaceOfWord_of_high hhigh]
    calc t ≤ -(scale * Real.log (2 * (1 - placeOf word)))
        ↔ Real.log (2 * (1 - placeOf word)) ≤ -t / scale := by
          rw [le_div_iff₀ hscale]
          constructor <;> intro h <;> linarith
      _ ↔ 2 * (1 - placeOf word) ≤ Real.exp (-t / scale) := Real.log_le_iff_le_exp hpos
      _ ↔ 1 - placeOf word ≤ 1 / 2 * Real.exp (-t / scale) := by
          constructor <;> intro h <;> linarith
  · have hlow := laplaceOfWord_of_low hscale (not_le.mp hhigh)
    have hexp : Real.exp (-t / scale) < 1 :=
      Real.exp_lt_one_iff.mpr (div_neg_of_neg_of_pos (by linarith) hscale)
    constructor
    · intro h
      linarith
    · intro h
      linarith

/-- A draw of Laplace noise is the noise of the next word. -/
theorem gives_laplaceNoise {scale : ℝ} (hscale : 0 < scale) (w : Words) :
    (Mechanism.laplace.noise scale).Gives w (laplaceOfWord scale w.current) w.next.2 := by
  have hzero : Number.eq scale Number.zero = false := by
    rw [← Bool.not_eq_true, exact_eq, exact_zero]
    exact hscale.ne'
  have haccepted : (!(Number.isNaN scale || Number.le scale Number.zero)) = true := by
    rw [exact_isNaN, Bool.false_or, Bool.not_eq_true', ← Bool.not_eq_true, exact_le, exact_zero]
    exact not_le.mpr hscale
  rw [Mechanism.noise, laplaceNoise, noiseOf, hzero, if_neg Bool.false_ne_true, if_pos haccepted]
  rfl

/-- The threshold of Laplace noise, for a probability that has one. -/
theorem laplace_tau {scale delta sensitivity tau : ℝ} :
    Mechanism.laplace.tau scale delta sensitivity = .ok tau ↔
      (0 < delta ∧ delta < 1) ∧ tau = 1 + scale * Real.log (1 / (2 * delta)) := by
  have hchecked : (Number.lt Number.zero delta && Number.lt delta Number.one) = true ↔
      0 < delta ∧ delta < 1 := by
    rw [Bool.and_eq_true, exact_lt, exact_lt, exact_zero, exact_one]
  have hvalue : Number.one + scale * Number.log (Number.one / (Number.ofInt 2 * delta)) =
      1 + scale * Real.log (1 / (2 * delta)) := by
    rw [exact_one, exact_log, exact_ofInt]
    rfl
  rw [Mechanism.tau, checkProbability]
  by_cases hbetween : 0 < delta ∧ delta < 1
  · rw [if_pos (hchecked.mpr hbetween), ok_bind]
    simp only [hvalue]
    exact ⟨fun h => ⟨hbetween, (Except.ok.inj h).symm⟩, fun h => congrArg _ h.2.symm⟩
  · rw [if_neg (mt hchecked.mp hbetween)]
    exact iff_of_false (fun h => nomatch h) fun h => hbetween h.1

/-- A noise above two and a half, and a threshold below four. -/
theorem log_bounds : 5 / 2 ≤ Real.log (64 / 5) ∧ 1 + Real.log (27 / 2) < 4 := by
  constructor
  · have hexp : Real.exp 5 ≤ (64 / 5) ^ 2 := by
      calc Real.exp 5 = Real.exp 1 ^ 5 := by rw [Real.exp_one_pow, Nat.cast_ofNat]
        _ ≤ 2.7182818286 ^ 5 := pow_le_pow_left₀ (Real.exp_pos 1).le (le_of_lt Real.exp_one_lt_d9) 5
        _ ≤ (64 / 5) ^ 2 := by norm_num
    have hsquare : 5 ≤ Real.log ((64 / 5) ^ 2) := (Real.le_log_iff_exp_le (by norm_num)).mpr hexp
    rw [Real.log_pow, Nat.cast_ofNat] at hsquare
    linarith
  · have hexp : 27 / 2 < Real.exp 3 := by
      calc (27 / 2 : ℝ) < 2.7182818283 ^ 3 := by norm_num
        _ ≤ Real.exp 1 ^ 3 := pow_le_pow_left₀ (by norm_num) (le_of_lt Real.exp_one_gt_d9) 3
        _ = Real.exp 3 := by rw [Real.exp_one_pow, Nat.cast_ofNat]
    have hlog : Real.log (27 / 2) < 3 := (Real.log_lt_iff_lt_exp (by norm_num)).mpr hexp
    linarith

/-! ## Groups that are shown -/

variable {c : Calibration ℝ}

/-- A row is kept where its released count exceeds the threshold. -/
theorem mem_suppress_iff (hc : c.function = .count) {tau noisy : ℝ} {rows : List (List (Value ℝ))}
    {row : List (Value ℝ)} {index : Nat} (hrow : row ∈ rows)
    (hcell : row[index]? = some (c.cellOf noisy)) :
    row ∈ suppress rows index tau ↔ tau < releasedCount noisy := by
  rw [suppress, List.mem_filter, and_iff_right hrow, List.getD_eq_getElem?_getD, hcell,
    Option.getD_some, Calibration.number?_cellOf_count hc]
  exact exact_lt

namespace Calibration

/-- Every noisy count up to the threshold is suppressed, exactly for the thresholds whose fraction is
below one half, or at the end of the range. -/
theorem suppresses_iff (tau : ℝ) :
    (∀ noisy, noisy ≤ tau → ¬ tau < releasedCount noisy) ↔
      0 ≤ tau ∧ (Int.fract tau < 1 / 2 ∨ 0x7fffffffffffffff ≤ tau) := by
  simp only [lt_releasedCount_cases, not_or, not_and, not_lt, not_le]
  constructor
  · intro h
    obtain ⟨h0, htau⟩ := h tau le_rfl
    refine ⟨h0, ?_⟩
    by_cases hmax : tau < 0x7fffffffffffffff
    · left
      have hhalf := htau hmax
      rw [Int.fract]
      linarith
    · exact .inr (not_lt.mp hmax)
  · rintro ⟨h0, hfract | hmax⟩ noisy hnoisy
    · refine ⟨h0, fun _ => ?_⟩
      rw [Int.fract] at hfract
      linarith
    · exact ⟨h0, fun hlt => absurd hlt (not_lt.mpr hmax)⟩

/-- **Rounding and the threshold.**  Let a count be released with some noise.

* The row of its group is kept when the noisy count is at least one half above the integer part of the
  threshold, for a threshold in the range of released counts; a negative threshold keeps every row, one
  at the end of the range or above keeps none.
* So no group is shown whose noisy count is one half below a threshold that is not negative.
* Every group whose noisy count does not exceed the threshold is suppressed, exactly if the threshold is
  not negative and its fraction is below one half, or if it is at the end of the range or above. -/
theorem suppress_count_iff (hc : c.function = .count) (tau : ℝ) :
    (∀ (m : Mechanism) (v cell : Value ℝ) (exact : ℝ) (w w' : Words), exactNumber v = .ok exact →
      (c.release m v).Gives w cell w' → ∃ noise, (m.noise c.scale).Gives w noise w' ∧
        ∀ (rows : List (List (Value ℝ))) (row : List (Value ℝ)) (index : Nat), row ∈ rows →
          row[index]? = some cell → (row ∈ suppress rows index tau ↔
            tau < 0 ∨ (tau < 0x7fffffffffffffff ∧ ⌊tau⌋ + 1 / 2 ≤ exact + noise))) ∧
      (0 ≤ tau → ∀ (exact noise : ℝ) (rows : List (List (Value ℝ))) (row : List (Value ℝ))
        (index : Nat), row[index]? = some (c.cellOf (exact + noise)) →
          row ∈ suppress rows index tau → tau - 1 / 2 < exact + noise) ∧
      ((∀ (exact noise : ℝ) (rows : List (List (Value ℝ))) (row : List (Value ℝ)) (index : Nat),
          row[index]? = some (c.cellOf (exact + noise)) → exact + noise ≤ tau →
            row ∉ suppress rows index tau) ↔
        0 ≤ tau ∧ (Int.fract tau < 1 / 2 ∨ 0x7fffffffffffffff ≤ tau)) := by
  have hkept : ∀ {rows : List (List (Value ℝ))} {row : List (Value ℝ)} {index : Nat},
      row ∈ suppress rows index tau → row ∈ rows := List.mem_of_mem_filter
  refine ⟨?_, ?_, ?_⟩
  · intro m v cell exact w w' hexact hrelease
    obtain ⟨exact', noise, hexact', hnoise, rfl⟩ := gives_release.mp hrelease
    obtain rfl : exact = exact' := Except.ok.inj (hexact.symm.trans hexact')
    refine ⟨noise, hnoise, fun rows row index hrow hcell => ?_⟩
    rw [mem_suppress_iff hc hrow hcell, lt_releasedCount_cases]
  · intro h0 exact noise rows row index hcell hrow
    rw [mem_suppress_iff hc (hkept hrow) hcell, lt_releasedCount_cases] at hrow
    rcases hrow with hneg | ⟨-, hhalf⟩
    · linarith
    · have hfloor := Int.lt_floor_add_one tau
      linarith
  · rw [← suppresses_iff]
    constructor
    · intro h noisy hnoisy hshown
      have hcell : [c.cellOf (noisy + 0)][0]? = some (c.cellOf (noisy + 0)) := rfl
      refine h noisy 0 [[c.cellOf (noisy + 0)]] _ 0 hcell (by rwa [add_zero]) ?_
      rw [mem_suppress_iff hc (List.mem_singleton_self _) hcell, add_zero]
      exact hshown
    · intro h exact noise rows row index hcell hnoisy hrow
      rw [mem_suppress_iff hc (hkept hrow) hcell] at hrow
      exact h _ hnoisy hrow

/-- A threshold whose fraction is one quarter suppresses every noisy count up to it, one whose fraction
is three quarters does not. -/
theorem suppress_count_fractions :
    ∃ c : Calibration ℝ, c.function = .count ∧
      (∀ (exact noise : ℝ) (rows : List (List (Value ℝ))) (row : List (Value ℝ)) (index : Nat),
        row[index]? = some (c.cellOf (exact + noise)) → exact + noise ≤ 41 / 4 →
          row ∉ suppress rows index (41 / 4)) ∧
      ¬ ∀ (exact noise : ℝ) (rows : List (List (Value ℝ))) (row : List (Value ℝ)) (index : Nat),
        row[index]? = some (c.cellOf (exact + noise)) → exact + noise ≤ 43 / 4 →
          row ∉ suppress rows index (43 / 4) := by
  refine ⟨⟨1, .count, .integer, 1, 1⟩, rfl, ?_, ?_⟩
  · rw [(suppress_count_iff rfl (41 / 4)).2.2]
    norm_num [Int.fract]
  · rw [(suppress_count_iff rfl (43 / 4)).2.2]
    norm_num [Int.fract]

/-- **A count that rounding carries over the threshold.**  In a table of nine rows, a group of one row is
counted with a noise of `log (64 / 5)`, which is above two and a half; the count does not exceed the
threshold `1 + log (27 / 2)`, but is released as four, and the group is shown. -/
theorem suppress_count_crosses :
    ∃ (c : Calibration ℝ) (noise tau : ℝ) (cell : Value ℝ) (w' : Words),
      c.function = .count ∧ c.sensitivity = 1 ∧ c.scale = 1 ∧
      Mechanism.laplace.tau c.scale (releaseProbability 9) c.sensitivity = .ok tau ∧
      (Mechanism.laplace.noise c.scale).Gives (.ofList [0xf600000000000000]) noise w' ∧
      (c.release .laplace (.integer 1)).Gives (.ofList [0xf600000000000000]) cell w' ∧
      1 + noise ≤ tau ∧ [.integer 7, cell] ∈ suppress [[.integer 7, cell]] 1 tau := by
  have hplace : placeOf 0xf600000000000000 = 123 / 128 := by
    have hbits : (0xf600000000000000 : UInt64).toNat / twoPow 12 = 123 * twoPow 45 := by
      decide
    rw [placeOf, hbits, dyadic]
    norm_num [twoPow]
  have hnoise : laplaceOfWord 1 0xf600000000000000 = Real.log (64 / 5) := by
    rw [laplaceOfWord_of_high (by rw [hplace]; norm_num), hplace, one_mul, ← Real.log_inv]
    norm_num
  have hdraw : (Mechanism.laplace.noise 1).Gives (.ofList [0xf600000000000000]) (Real.log (64 / 5))
      (Words.ofList [0xf600000000000000]).next.2 := by
    rw [← hnoise]
    exact gives_laplaceNoise one_pos _
  have hdelta : releaseProbability 9 = (1 / 27 : ℝ) := by
    have hsqrt : Real.sqrt 9 = 3 := by
      rw [Real.sqrt_eq_iff_mul_self_eq] <;> norm_num
    simp only [releaseProbability, exact_ofInt, exact_one, exact_sqrt]
    norm_num [hsqrt]
  have htau : Mechanism.laplace.tau (1 : ℝ) (releaseProbability 9) 1 =
      .ok (1 + Real.log (27 / 2)) := by
    rw [laplace_tau, hdelta]
    norm_num
  have hexact : exactNumber (.integer 1 : Value ℝ) = .ok 1 := by
    have hone : (1 : Int64).toInt = 1 := by decide
    change Except.ok (((1 : Int64).toInt : ℤ) : ℝ) = .ok 1
    rw [hone, Int.cast_one]
  have hrelease := (gives_release (c := ⟨1, .count, .integer, 1, 1⟩) (m := .laplace)).mpr
    ⟨1, _, hexact, hdraw, rfl⟩
  refine ⟨⟨1, .count, .integer, 1, 1⟩, _, _, _, _, rfl, rfl, rfl, htau, hdraw, hrelease, ?_, ?_⟩
  · have hle : Real.log (64 / 5) ≤ Real.log (27 / 2) :=
      Real.log_le_log (by norm_num) (by norm_num)
    linarith
  · -- The noise is above two and a half, and the threshold below four.
    obtain ⟨hlow, hhigh⟩ := log_bounds
    have hfloor : (⌊1 + Real.log (27 / 2)⌋ : ℝ) ≤ 3 := by
      have hlt : ⌊1 + Real.log (27 / 2)⌋ < 4 := Int.floor_lt.mpr (by exact_mod_cast hhigh)
      exact_mod_cast Int.lt_add_one_iff.mp hlt
    rw [mem_suppress_iff rfl (List.mem_singleton_self _) rfl, lt_releasedCount_cases]
    exact .inr ⟨by linarith, by linarith⟩

end Calibration

/-! ## Groups of one row -/

/-- **The chance of a group of one row.**  With the threshold that Laplace noise has for `delta`, a group
of one row is shown for the words whose places are within a share of 1 that is `delta` times a factor;
the factor is above one where the fraction of the threshold is above one half. -/
theorem laplace_shows_single_iff {scale delta sensitivity tau : ℝ} (hscale : 0 < scale)
    (hdelta : delta < 1 / 2) (htau : Mechanism.laplace.tau scale delta sensitivity = .ok tau)
    (hmax : tau < 0x7fffffffffffffff) (word : UInt64) :
    tau < releasedCount (1 + laplaceOfWord scale word) ↔
      1 - placeOf word ≤ delta * Real.exp ((Int.fract tau - 1 / 2) / scale) := by
  obtain ⟨⟨hpos, -⟩, hvalue⟩ := laplace_tau.mp htau
  have hlog : 0 < Real.log (1 / (2 * delta)) :=
    Real.log_pos (one_lt_one_div (by linarith) (by linarith))
  have hone : 1 < tau := by
    rw [hvalue]
    linarith [mul_pos hscale hlog]
  have hfloor : (1 : ℝ) ≤ ⌊tau⌋ := by
    exact_mod_cast Int.le_floor.mpr (by exact_mod_cast hone.le)
  have hshare : 1 / 2 * Real.exp (-(⌊tau⌋ - 1 / 2) / scale) =
      delta * Real.exp ((Int.fract tau - 1 / 2) / scale) := by
    have hexponent : -(⌊tau⌋ - 1 / 2) / scale =
        Real.log (2 * delta) + (Int.fract tau - 1 / 2) / scale := by
      have hinverse : Real.log (1 / (2 * delta)) = -Real.log (2 * delta) := by
        rw [one_div, Real.log_inv]
      have hsplit : (⌊tau⌋ : ℝ) = 1 - scale * Real.log (2 * delta) - Int.fract tau := by
        rw [Int.fract, ← sub_eq_zero]
        linarith [hvalue, congrArg (scale * ·) hinverse]
      rw [hsplit]
      field_simp
      ring
    rw [hexponent, Real.exp_add, Real.exp_log (by linarith)]
    ring
  calc tau < releasedCount (1 + laplaceOfWord scale word)
      ↔ ⌊tau⌋ + 1 / 2 ≤ 1 + laplaceOfWord scale word :=
        lt_releasedCount_iff (by linarith) hmax _
    _ ↔ ⌊tau⌋ - 1 / 2 ≤ laplaceOfWord scale word := by
        constructor <;> intro h <;> linarith
    _ ↔ 1 - placeOf word ≤ 1 / 2 * Real.exp (-(⌊tau⌋ - 1 / 2) / scale) :=
        le_laplaceOfWord_iff hscale (by linarith) word
    _ ↔ 1 - placeOf word ≤ delta * Real.exp ((Int.fract tau - 1 / 2) / scale) := by
        rw [hshare]

end PrivateSql
