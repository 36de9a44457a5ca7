import Mathlib.Tactic.Linarith
import PrivateSql.Interval
import PrivateSql.Expr.Typing
import PrivateSql.Proofs.ExactNumbers
/-!
# Intervals enclose results

Each operation on intervals is checked against the operation on numbers that it stands for, in exact
arithmetic: when the operands lie in the given intervals, the result lies in the resulting one.

* `Interval.contains_of`, `Interval.contains_hull` — the two ways an interval is made;
* `Interval.contains_add`, `contains_sub`, `contains_mul`, `contains_div`, … — one per operation;
* `Interval.abs_le_width` — a number of an interval around 0 is no larger than its width.
-/

namespace PrivateSql.Interval

variable {i j : Interval ℝ} {a b l u x y : ℝ}

theorem contains_iff : i.contains x = true ↔ i.lower ≤ x ∧ x ≤ i.upper := by
  simp [contains]

/-- The interval between two numbers, one below and one above. -/
theorem contains_of (hl : l ≤ x) (hu : x ≤ u) : (of l u).contains x = true := by
  have hle : l ≤ u := le_trans hl hu
  rw [contains_iff]
  simpa [of, hle] using ⟨hl, hu⟩

theorem contains_point (x : ℝ) : (point x).contains x = true := contains_of le_rfl le_rfl

/-- Folding with the minimum stays below the start and below every element. -/
theorem foldl_minimum_le (xs : List ℝ) (x : ℝ) :
    xs.foldl Number.minimum x ≤ x ∧ ∀ y ∈ xs, xs.foldl Number.minimum x ≤ y := by
  induction xs generalizing x with
  | nil => simp
  | cons z xs ih =>
      obtain ⟨hstart, hrest⟩ := ih (Number.minimum x z)
      rw [exact_minimum] at hstart hrest
      simp only [List.foldl_cons, List.forall_mem_cons, exact_minimum]
      exact ⟨hstart.trans (min_le_left x z), hstart.trans (min_le_right x z), hrest⟩

/-- Folding with the maximum stays above the start and above every element. -/
theorem le_foldl_maximum (xs : List ℝ) (x : ℝ) :
    x ≤ xs.foldl Number.maximum x ∧ ∀ y ∈ xs, y ≤ xs.foldl Number.maximum x := by
  induction xs generalizing x with
  | nil => simp
  | cons z xs ih =>
      obtain ⟨hstart, hrest⟩ := ih (Number.maximum x z)
      rw [exact_maximum] at hstart hrest
      simp only [List.foldl_cons, List.forall_mem_cons, exact_maximum]
      exact ⟨(le_max_left x z).trans hstart, (le_max_right x z).trans hstart, hrest⟩

/-- The interval around some points holds what lies between two of them. -/
theorem contains_hull {xs : List ℝ} (hl : l ∈ x :: xs) (hu : u ∈ x :: xs) (hly : l ≤ y)
    (hyu : y ≤ u) : (hull x xs).contains y = true := by
  obtain ⟨hmin, hmins⟩ := foldl_minimum_le xs x
  obtain ⟨hmax, hmaxs⟩ := le_foldl_maximum xs x
  have hlower : xs.foldl Number.minimum x ≤ l := by
    rcases List.mem_cons.mp hl with rfl | hmem
    · exact hmin
    · exact hmins l hmem
  have hupper : u ≤ xs.foldl Number.maximum x := by
    rcases List.mem_cons.mp hu with rfl | hmem
    · exact hmax
    · exact hmaxs u hmem
  simp only [hull, exact_isNaN, Bool.false_eq_true, if_false]
  exact contains_of (hlower.trans hly) (hyu.trans hupper)

theorem contains_add (hx : i.contains x = true) (hy : j.contains y = true) :
    (i.add j).contains (x + y) = true := by
  rw [contains_iff] at hx hy
  exact contains_of (add_le_add hx.1 hy.1) (add_le_add hx.2 hy.2)

theorem contains_sub (hx : i.contains x = true) (hy : j.contains y = true) :
    (i.sub j).contains (x - y) = true := by
  rw [contains_iff] at hx hy
  exact contains_of (sub_le_sub hx.1 hy.2) (sub_le_sub hx.2 hy.1)

/-- A product lies between the products of the ends of one factor. -/
theorem mul_between (hl : l ≤ a) (hu : a ≤ u) (b : ℝ) :
    (l * b ≤ a * b ∧ a * b ≤ u * b) ∨ (u * b ≤ a * b ∧ a * b ≤ l * b) := by
  rcases le_total 0 b with hb | hb
  · exact .inl ⟨mul_le_mul_of_nonneg_right hl hb, mul_le_mul_of_nonneg_right hu hb⟩
  · exact .inr ⟨mul_le_mul_of_nonpos_right hu hb, mul_le_mul_of_nonpos_right hl hb⟩

/-- **Products.**  A product lies between two of the four products of ends. -/
theorem exists_corners {l' u' : ℝ} (ha : l ≤ a ∧ a ≤ u) (hb : l' ≤ b ∧ b ≤ u') :
    (∃ c ∈ [l * l', l * u', u * l', u * u'], c ≤ a * b) ∧
      ∃ c ∈ [l * l', l * u', u * l', u * u'], a * b ≤ c := by
  have hside : ∀ e ∈ [l, u], (∃ c ∈ [e * l', e * u'], c ≤ e * b) ∧
      ∃ c ∈ [e * l', e * u'], e * b ≤ c := by
    intro e _
    have hbetween := mul_between hb.1 hb.2 e
    simp only [mul_comm _ e] at hbetween
    rcases hbetween with ⟨hlow, hhigh⟩ | ⟨hlow, hhigh⟩
    · exact ⟨⟨e * l', by simp, hlow⟩, e * u', by simp, hhigh⟩
    · exact ⟨⟨e * u', by simp, hlow⟩, e * l', by simp, hhigh⟩
  have hcorner : ∀ e ∈ [l, u], ∀ c ∈ [e * l', e * u'], c ∈ [l * l', l * u', u * l', u * u'] := by
    simp
  have hbelow : ∀ e ∈ [l, u], e * b ≤ a * b →
      ∃ c ∈ [l * l', l * u', u * l', u * u'], c ≤ a * b := by
    intro e he hle
    obtain ⟨⟨c, hc, hcb⟩, -⟩ := hside e he
    exact ⟨c, hcorner e he c hc, hcb.trans hle⟩
  have habove : ∀ e ∈ [l, u], a * b ≤ e * b →
      ∃ c ∈ [l * l', l * u', u * l', u * u'], a * b ≤ c := by
    intro e he hle
    obtain ⟨-, c, hc, hbc⟩ := hside e he
    exact ⟨c, hcorner e he c hc, hle.trans hbc⟩
  rcases mul_between ha.1 ha.2 b with ⟨hlow, hhigh⟩ | ⟨hlow, hhigh⟩
  · exact ⟨hbelow l (by simp) hlow, habove u (by simp) hhigh⟩
  · exact ⟨hbelow u (by simp) hlow, habove l (by simp) hhigh⟩

theorem contains_mul (hx : i.contains x = true) (hy : j.contains y = true) :
    (i.mul j).contains (x * y) = true := by
  rw [contains_iff] at hx hy
  obtain ⟨⟨c, hc, hcxy⟩, c', hc', hxyc'⟩ := exists_corners hx hy
  exact contains_hull hc hc' hcxy hxyc'

/-- **Quotients.**  The divisors are all positive or all negative, so their inverses lie between the
inverses of the ends. -/
theorem contains_div {k : Interval ℝ} (hk : i.div? j = some k) (hx : i.contains x = true)
    (hy : j.contains y = true) : k.contains (x / y) = true := by
  unfold div? at hk
  split at hk
  · cases hk
  · rename_i hzero
    cases hk
    rw [contains_iff] at hx hy
    have hsigns : 0 < j.lower ∨ j.upper < 0 := by
      by_contra hnot
      simp only [not_or, not_lt] at hnot
      exact hzero (contains_iff.mpr (by simpa using hnot))
    have hinverses : j.upper⁻¹ ≤ y⁻¹ ∧ y⁻¹ ≤ j.lower⁻¹ := by
      rcases hsigns with hpos | hneg
      · have hy0 : 0 < y := hpos.trans_le hy.1
        exact ⟨inv_anti₀ hy0 hy.2, inv_anti₀ hpos hy.1⟩
      · have hy0 : y < 0 := hy.2.trans_lt hneg
        have hl0 : j.lower < 0 := hy.1.trans_lt hy0
        exact ⟨(inv_le_inv_of_neg hneg hy0).mpr hy.2, (inv_le_inv_of_neg hy0 hl0).mpr hy.1⟩
    obtain ⟨⟨c, hc, hcxy⟩, c', hc', hxyc'⟩ := exists_corners hx hinverses
    simp only [← div_eq_mul_inv] at hc hc' hcxy hxyc'
    refine contains_hull ?_ ?_ hcxy hxyc'
    · simpa [or_comm, or_left_comm, or_assoc] using hc
    · simpa [or_comm, or_left_comm, or_assoc] using hc'

theorem contains_neg (hx : i.contains x = true) : i.neg.contains (-x) = true := by
  rw [contains_iff] at hx
  exact contains_of (neg_le_neg hx.2) (neg_le_neg hx.1)

theorem contains_abs (hx : i.contains x = true) : i.abs.contains |x| = true := by
  rw [contains_iff] at hx
  unfold Interval.abs
  split
  · refine contains_of (by simp) ?_
    simp only [exact_maximum, exact_abs]
    exact abs_le_max_abs_abs hx.1 hx.2
  · rename_i hzero
    have hsigns : 0 < i.lower ∨ i.upper < 0 := by
      by_contra hnot
      simp only [not_or, not_lt] at hnot
      exact hzero (contains_iff.mpr (by simpa using hnot))
    rcases hsigns with hpos | hneg
    · have hx0 : 0 < x := hpos.trans_le hx.1
      have hu0 : 0 < i.upper := hx0.trans_le hx.2
      refine contains_hull (l := |i.lower|) (u := |i.upper|) (by simp) (by simp) ?_ ?_
      · rw [abs_of_pos hpos, abs_of_pos hx0]
        exact hx.1
      · rw [abs_of_pos hx0, abs_of_pos hu0]
        exact hx.2
    · have hx0 : x < 0 := hx.2.trans_lt hneg
      have hl0 : i.lower < 0 := hx.1.trans_lt hx0
      refine contains_hull (l := |i.upper|) (u := |i.lower|) (by simp) (by simp) ?_ ?_
      · rw [abs_of_neg hneg, abs_of_neg hx0]
        exact neg_le_neg hx.2
      · rw [abs_of_neg hx0, abs_of_neg hl0]
        exact neg_le_neg hx.1

/-- Square roots are taken of what is not negative. -/
theorem contains_sqrt {k : Interval ℝ} (hk : i.sqrt? = some k) (hx : i.contains x = true) :
    0 ≤ x ∧ k.contains (Real.sqrt x) = true := by
  unfold sqrt? at hk
  split at hk
  · rename_i hlower
    cases hk
    rw [contains_iff] at hx
    have hzero : 0 ≤ i.lower := by simpa using hlower
    exact ⟨hzero.trans hx.1, contains_of (Real.sqrt_le_sqrt hx.1) (Real.sqrt_le_sqrt hx.2)⟩
  · cases hk

/-- The image by a function that keeps the order. -/
theorem contains_map {f : ℝ → ℝ} (hf : ∀ x y, x ≤ y → f x ≤ f y) (hx : i.contains x = true) :
    (i.map f).contains (f x) = true := by
  rw [contains_iff] at hx
  exact contains_of (hf _ _ hx.1) (hf _ _ hx.2)

/-! ## Widths -/

theorem width_eq (i : Interval ℝ) : i.width = i.upper - i.lower := rfl

/-- Two numbers of an interval are no further apart than its width. -/
theorem abs_sub_le_width (hx : i.contains x = true) (hy : i.contains y = true) :
    |x - y| ≤ i.width := by
  rw [contains_iff] at hx hy
  rw [width_eq, abs_le]
  constructor <;> linarith [hx.1, hx.2, hy.1, hy.2]

/-- A number of an interval around 0 is no larger than its width. -/
theorem abs_le_width (hzero : i.contains 0 = true) (hx : i.contains x = true) : |x| ≤ i.width := by
  have hdistance := abs_sub_le_width hx hzero
  rwa [sub_zero] at hdistance

/-- The ends of an interval that does not hold 0 are not all within its width of 0. -/
theorem exists_width_lt_abs (hzero : ¬ i.contains 0 = true) (hle : i.lower ≤ i.upper) :
    ∃ x, i.contains x = true ∧ i.width < |x| := by
  have hsigns : 0 < i.lower ∨ i.upper < 0 := by
    by_contra hnot
    simp only [not_or, not_lt] at hnot
    exact hzero (contains_iff.mpr hnot)
  rcases hsigns with hpos | hneg
  · refine ⟨i.upper, contains_iff.mpr ⟨hle, le_rfl⟩, ?_⟩
    rw [width_eq, abs_of_pos (hpos.trans_le hle)]
    linarith
  · refine ⟨i.lower, contains_iff.mpr ⟨le_rfl, hle⟩, ?_⟩
    rw [width_eq, abs_of_neg (hle.trans_lt hneg)]
    linarith

end PrivateSql.Interval
