import PrivateSql.Proofs.AggregateValues
import PrivateSql.Proofs.IntegerNumbers
import PrivateSql.Proofs.StableSorting
/-!
# Aggregates and the order of the rows

The rows of a group reach an accumulator one after the other.  Over integers and `NULL` the number of
values does not depend on their order, nor does the sum where there is one; but the sum is checked at
every row, so an order succeeds exactly when all its partial sums fit 64 bits, and all orders do when
the positive integers and the negative ones have sums that fit.  An extremum compares integers as
numbers and keeps the first of those that compare as equal, so it depends on the order only among
different integers that are the same number.

* `integersOf`, `sumOf` — the integers among some values, and their sum as a value;
* `Accumulator.finalValue` — the value of an aggregate over some values in their order;
* `Accumulator.finalValue_sum_iff` — when a sum succeeds;
* `Accumulator.ComparedBy`, `Accumulator.ComparedBy.finalValue_extremum` — over values compared by an
  order, an extremum is a value that no other one beats;
* `Accumulator.finalValue_perm` — what reordering the values changes;
* `Accumulator.finalValue_order` — orders of the same values that differ.
-/

namespace PrivateSql

/-! ## Integers and their sums -/

/-- Does an integer fit a 64-bit word? -/
def FitsInt64 (i : Int) : Prop := -0x8000000000000000 ≤ i ∧ i < 0x8000000000000000

instance (i : Int) : Decidable (FitsInt64 i) := inferInstanceAs (Decidable (_ ∧ _))

theorem int64?_of_fits {i : Int} (h : FitsInt64 i) : int64? i = some (Int64.ofInt i) := if_pos h

theorem int64?_of_not_fits {i : Int} (h : ¬ FitsInt64 i) : int64? i = none := if_neg h

theorem fitsInt64_toInt (i : Int64) : FitsInt64 i.toInt := ⟨Int64.le_toInt i, Int64.toInt_lt i⟩

/-- The positive integers of a list and the negative ones. -/
def positives (is : List Int) : List Int := is.filter fun i => decide (0 < i)

@[inherit_doc positives]
def negatives (is : List Int) : List Int := is.filter fun i => decide (i < 0)

/-- A sum lies between that of the negative integers and that of the positive ones. -/
theorem sum_between (is : List Int) :
    (negatives is).sum ≤ 0 ∧ 0 ≤ (positives is).sum ∧
      (negatives is).sum ≤ is.sum ∧ is.sum ≤ (positives is).sum := by
  induction is with
  | nil => simp [positives, negatives]
  | cons i is ih =>
      simp only [positives, negatives, List.filter_cons, List.sum_cons] at ih ⊢
      rcases lt_trichotomy i 0 with hneg | rfl | hpos
      · simp only [hneg, show ¬ 0 < i by omega, decide_true, decide_false, if_true,
          Bool.false_eq_true, if_false, List.sum_cons]
        omega
      · simpa using ih
      · simp only [hpos, show ¬ i < 0 by omega, decide_true, decide_false, if_true,
          Bool.false_eq_true, if_false, List.sum_cons]
        omega

/-- Partial sums too lie between the two. -/
theorem sum_prefix_between {p is : List Int} (h : p <+: is) :
    (negatives is).sum ≤ p.sum ∧ p.sum ≤ (positives is).sum := by
  obtain ⟨rest, rfl⟩ := h
  have hp := sum_between p
  have hrest := sum_between rest
  simp only [positives, negatives, List.filter_append, List.sum_append] at hp hrest ⊢
  omega

section

variable {N : Type}

/-- A value that is `NULL` or an integer. -/
def Value.IsIntegral (v : Value N) : Prop := v = .null ∨ ∃ i, v = .integer i

/-- The word of an integer. -/
def Value.integer? : Value N → Option Int64
  | .integer i => some i
  | _ => none

/-- The integers among some values. -/
def integersOf (vs : List (Value N)) : List Int :=
  vs.filterMap fun v => v.integer?.map Int64.toInt

/-- The sum of some integers as a value, `NULL` without integers. -/
def sumOf : List Int → Value N
  | [] => .null
  | is => .integer (Int64.ofInt is.sum)

theorem integersOf_perm {vs ws : List (Value N)} (h : vs.Perm ws) :
    (integersOf vs).Perm (integersOf ws) := h.filterMap _

theorem integersOf_append (vs ws : List (Value N)) :
    integersOf (vs ++ ws) = integersOf vs ++ integersOf ws := List.filterMap_append

theorem filter_integersOf (q : Int → Bool) (vs : List (Value N)) :
    (integersOf vs).filter q = integersOf (vs.filter fun v => v.integer?.any fun i => q i.toInt) := by
  rw [integersOf, integersOf, List.filter_filterMap, List.filterMap_filter]
  refine List.filterMap_congr fun v _ => ?_
  cases v.integer? <;> simp [Option.filter]

theorem sumOf_perm {is js : List Int} (h : is.Perm js) : (sumOf is : Value N) = sumOf js := by
  cases is with
  | nil => rw [h.nil_eq]
  | cons i is =>
      cases js with
      | nil => exact absurd h.eq_nil (List.cons_ne_nil i is)
      | cons j js => rw [sumOf, sumOf, h.sum_eq] <;> exact List.cons_ne_nil _ _

theorem Value.isNull_iff {v : Value N} : v.isNull = true ↔ v = .null := by
  cases v <;> simp [isNull]

theorem Value.isNull_of_ne {v : Value N} (h : v ≠ .null) : v.isNull = false :=
  Bool.eq_false_iff.mpr fun hnull => h (isNull_iff.mp hnull)

variable [Number N]

theorem Value.compare?_null_left (v : Value N) : (.null : Value N).compare? v = none := by
  cases v <;> rfl

theorem Value.compare?_null_right (v : Value N) : v.compare? .null = none := by
  cases v <;> rfl

end

namespace Accumulator

section

variable {N : Type} [Number N]

/-- The value of an aggregate over some values, fed in their order. -/
def finalValue (f : AggregateFunction) (vs : List (Value N)) : Except QueryError (Value N) :=
  ((fresh f).updateAll vs).map result

/-! ## Sums -/

/-- The word that stands for a sum that fits. -/
theorem toInt_of_fits {i : Int} (h : FitsInt64 i) : (Int64.ofInt i).toInt = i :=
  Int64.toInt_ofInt_of_le h.1 h.2

/-- An integer is added to a sum where the new sum fits. -/
theorem addToSum_of_fits {seen : List Int} {i : Int64} (hseen : FitsInt64 seen.sum)
    (h : FitsInt64 (seen.sum + i.toInt)) :
    addToSum (sumOf seen : Value N) (.integer i) = .ok (sumOf (seen ++ [i.toInt])) := by
  cases seen with
  | nil => simp [addToSum, sumOf]
  | cons j seen =>
      have hsum : ((j :: seen) ++ [i.toInt]).sum = (j :: seen).sum + i.toInt := by
        simp [Int.add_assoc]
      simp only [List.cons_append, sumOf] at hsum ⊢
      rw [hsum]
      simp only [addToSum, Value.add, Value.arithmetic, toInt_of_fits hseen, int64?_of_fits h]

/-- Where it does not fit, the sum fails. -/
theorem addToSum_of_not_fits {seen : List Int} {i : Int64} (hseen : FitsInt64 seen.sum)
    (h : ¬ FitsInt64 (seen.sum + i.toInt)) :
    ∃ e, addToSum (sumOf seen : Value N) (.integer i) = .error e := by
  cases seen with
  | nil => exact absurd (fitsInt64_toInt i) (by simpa using h)
  | cons j seen =>
      simp only [sumOf, addToSum, Value.add, Value.arithmetic, toInt_of_fits hseen,
        int64?_of_not_fits h]
      exact ⟨_, rfl⟩

/-- Adding goes on as long as the partial sums fit. -/
theorem foldlM_addToSum_iff {seen : List Int} {vs : List (Value N)} {r : Value N}
    (hseen : FitsInt64 seen.sum) (hvs : ∀ v ∈ vs, v.IsIntegral) :
    vs.foldlM addToSum (sumOf seen) = .ok r ↔
      (∀ p, p <+: integersOf vs → FitsInt64 (seen ++ p).sum) ∧
        r = sumOf (seen ++ integersOf vs) := by
  induction vs generalizing seen with
  | nil =>
      simp [integersOf, pure, Except.pure, hseen]
      exact eq_comm
  | cons v vs ih =>
      obtain ⟨hv, hrest⟩ := List.forall_mem_cons.mp hvs
      rw [List.foldlM_cons]
      rcases hv with rfl | ⟨i, rfl⟩
      · have hnull : addToSum (sumOf seen : Value N) .null = .ok (sumOf seen) := by
          cases seen <;> rfl
        rw [hnull, ok_bind, ih hseen hrest]
        rfl
      · have hcons : integersOf (.integer i :: vs) = i.toInt :: integersOf vs := rfl
        by_cases hfits : FitsInt64 (seen.sum + i.toInt)
        · have hnext : FitsInt64 (seen ++ [i.toInt]).sum := by simpa using hfits
          rw [addToSum_of_fits hseen hfits, ok_bind, ih hnext hrest, hcons]
          simp only [List.prefix_cons_iff, List.append_assoc, List.singleton_append]
          constructor
          · rintro ⟨hall, rfl⟩
            refine ⟨?_, rfl⟩
            rintro p (rfl | ⟨q, rfl, hq⟩)
            · simpa using hseen
            · exact hall q hq
          · rintro ⟨hall, rfl⟩
            exact ⟨fun q hq => hall _ (.inr ⟨q, rfl, hq⟩), rfl⟩
        · obtain ⟨e, he⟩ := addToSum_of_not_fits (N := N) hseen hfits
          rw [he, error_bind, hcons]
          constructor
          · rintro ⟨⟩
          · rintro ⟨hall, -⟩
            exact absurd (hall [i.toInt] (by simp)) (by simpa using hfits)

theorem updateAll_sum_eq (total : Value N) (vs : List (Value N)) :
    (sum total).updateAll vs = (vs.foldlM addToSum total).map sum := by
  unfold updateAll
  induction vs generalizing total with
  | nil => rfl
  | cons v vs ih =>
      rw [List.foldlM_cons, List.foldlM_cons, update]
      cases addToSum total v with
      | error e => rfl
      | ok next => exact ih next

/-- **When a sum succeeds.**  Every partial sum fits, and the value is the sum of all integers. -/
theorem finalValue_sum_iff {vs : List (Value N)} {r : Value N} (hvs : ∀ v ∈ vs, v.IsIntegral) :
    finalValue .sum vs = .ok r ↔
      (∀ p, p <+: integersOf vs → FitsInt64 p.sum) ∧ r = sumOf (integersOf vs) := by
  have hstart : (fresh .sum : Accumulator N) = sum (sumOf []) := rfl
  have hrun : finalValue .sum vs = vs.foldlM addToSum (sumOf []) := by
    rw [finalValue, hstart, updateAll_sum_eq]
    cases vs.foldlM addToSum (sumOf [] : Value N) <;> rfl
  have hempty : FitsInt64 ([] : List Int).sum := by decide
  rw [hrun, foldlM_addToSum_iff hempty hvs]
  simp only [List.nil_append]

/-- Some of the integers come first in one of the orders. -/
theorem fitsInt64_of_all_orders {vs : List (Value N)} (hvs : ∀ v ∈ vs, v.IsIntegral)
    (h : ∀ us, us.Perm vs → ∃ r, finalValue .sum us = .ok r) (q : Int → Bool) :
    FitsInt64 ((integersOf vs).filter q).sum := by
  let chosen : Value N → Bool := fun v => v.integer?.any fun i => q i.toInt
  have hperm : (vs.filter chosen ++ vs.filter fun v => !chosen v).Perm vs :=
    List.filter_append_perm chosen vs
  obtain ⟨r, hr⟩ := h _ hperm
  obtain ⟨hpartial, -⟩ := (finalValue_sum_iff fun v hv => hvs v (hperm.mem_iff.mp hv)).mp hr
  rw [filter_integersOf]
  refine hpartial _ ?_
  rw [integersOf_append]
  exact List.prefix_append _ _

/-- **When all orders of a sum succeed.**  The positive integers have a sum that fits, and the negative
ones too. -/
theorem finalValue_sum_all_iff {vs : List (Value N)} (hvs : ∀ v ∈ vs, v.IsIntegral) :
    (∀ us, us.Perm vs → ∃ r, finalValue .sum us = .ok r) ↔
      FitsInt64 (positives (integersOf vs)).sum ∧ FitsInt64 (negatives (integersOf vs)).sum := by
  constructor
  · intro h
    exact ⟨fitsInt64_of_all_orders hvs h _, fitsInt64_of_all_orders hvs h _⟩
  · rintro ⟨hpos, hneg⟩ us hperm
    refine ⟨_, (finalValue_sum_iff fun v hv => hvs v (hperm.mem_iff.mp hv)).mpr ⟨?_, rfl⟩⟩
    intro p hp
    have hints := integersOf_perm hperm
    have hbetween := sum_prefix_between hp
    rw [positives, negatives, (hints.filter _).sum_eq, (hints.filter _).sum_eq] at hbetween
    exact ⟨le_trans hneg.1 hbetween.1, lt_of_le_of_lt hbetween.2 hpos.2⟩

end

/-! ## Extrema -/

section

variable {N : Type} [Number N] {c : Value N → Value N → Ordering} {S : Value N → Prop}
variable {keep : Ordering} {value v r s : Value N} {vs : List (Value N)}

/-- **Values compared by an order.**  Where they are not `NULL`, queries compare these values as a preorder
says. -/
structure ComparedBy (c : Value N → Value N → Ordering) (S : Value N → Prop) : Prop where
  orders : OrdersOn c S
  agrees : ∀ v w, S v → S w → v ≠ .null → w ≠ .null → v.compare? w = some (c v w)

namespace ComparedBy

/-- The value kept of two is one of them, and what it does not beat, neither of them beats. -/
theorem ne_of_kept (h : ComparedBy c S) (hkeep : keep ≠ .eq) (hvalue : S value) (hv : S v) (hr : S r)
    (hkept : (if !v.isNull && (value.isNull || v.compare? value == some keep) then v
      else value).compare? r ≠ some keep) :
    value.compare? r ≠ some keep ∧ v.compare? r ≠ some keep := by
  by_cases hrnull : r = .null
  · simp [hrnull, Value.compare?_null_right]
  by_cases hvnull : v = .null
  · subst hvnull
    exact ⟨by simpa [Value.isNull] using hkept, by simp [Value.compare?_null_left]⟩
  have hnull : v.isNull = false := Value.isNull_of_ne hvnull
  by_cases hvaluenull : value = .null
  · subst hvaluenull
    exact ⟨by simp [Value.compare?_null_left], by simpa [Value.isNull, hnull] using hkept⟩
  have hnull' : value.isNull = false := Value.isNull_of_ne hvaluenull
  rw [hnull, hnull', h.agrees v value hv hvalue hvnull hvaluenull] at hkept
  rw [h.agrees value r hvalue hr hvaluenull hrnull, h.agrees v r hv hr hvnull hrnull]
  simp only [ne_eq, Option.some.injEq]
  by_cases hbeats : c v value = keep
  · have hvr : c v r ≠ keep := by simpa [hbeats, h.agrees v r hv hr hvnull hrnull] using hkept
    exact ⟨h.orders.ne_trans hkeep hvalue hv hr (h.orders.asymm hkeep hv hvalue hbeats) hvr, hvr⟩
  · have hvaluer : c value r ≠ keep := by
      simpa [hbeats, h.agrees value r hvalue hr hvaluenull hrnull] using hkept
    exact ⟨hvaluer, h.orders.ne_trans hkeep hv hvalue hr hbeats hvaluer⟩

/-- No value beats itself. -/
theorem ne_self (h : ComparedBy c S) (hkeep : keep ≠ .eq) (hv : S v) : v.compare? v ≠ some keep := by
  by_cases hnull : v = .null
  · simp [hnull, Value.compare?_null_right]
  · rw [h.agrees v v hv hv hnull hnull]
    intro hbeats
    have hself : c v v = keep := Option.some.inj hbeats
    exact h.orders.asymm hkeep hv hv hself hself

/-- An extremum is found, and no value beats it. -/
theorem updateAll_extremum (h : ComparedBy c S) (hkeep : keep ≠ .eq) (hvalue : S value)
    (hvs : ∀ v ∈ vs, S v) :
    ∃ r, (extremum keep value).updateAll vs = .ok (extremum keep r) ∧ S r ∧
      ∀ v ∈ value :: vs, v.compare? r ≠ some keep := by
  unfold updateAll
  induction vs generalizing value with
  | nil =>
      refine ⟨value, rfl, hvalue, ?_⟩
      rintro v (_ | ⟨_, ⟨⟩⟩)
      exact h.ne_self hkeep hvalue
  | cons v vs ih =>
      obtain ⟨hv, hrest⟩ := List.forall_mem_cons.mp hvs
      rw [List.foldlM_cons, update, ok_bind]
      have hnext : S (if !v.isNull && (value.isNull || v.compare? value == some keep)
          then v else value) := by
        split
        · exact hv
        · exact hvalue
      obtain ⟨r, hrun, hr, hunbeaten⟩ := ih hnext hrest
      obtain ⟨hkept, hothers⟩ := List.forall_mem_cons.mp hunbeaten
      obtain ⟨hfirst, hsecond⟩ := h.ne_of_kept hkeep hvalue hv hr hkept
      exact ⟨r, hrun, hr, List.forall_mem_cons.mpr
        ⟨hfirst, List.forall_mem_cons.mpr ⟨hsecond, hothers⟩⟩⟩

/-- **Extrema.**  Over values compared by an order an extremum is always found.  It is one of the values
that is not `NULL` when there is one, and no value beats it. -/
theorem finalValue_extremum (h : ComparedBy c S) (hkeep : keep ≠ .eq) {f : AggregateFunction}
    (hf : fresh f = extremum keep (.null : Value N)) (hnull : S .null) (hvs : ∀ v ∈ vs, S v) :
    ∃ r, finalValue f vs = .ok r ∧ S r ∧ (r ≠ .null → r ∈ vs) ∧
      (r = .null → ∀ v ∈ vs, v = .null) ∧ ∀ v ∈ vs, v.compare? r ≠ some keep := by
  obtain ⟨r, hrun, hr, hunbeaten⟩ := h.updateAll_extremum hkeep hnull hvs
  obtain ⟨r', hr', hmem, hallnull⟩ := mem_of_updateAll_extremum hrun
  obtain rfl : r = r' := by cases hr'; rfl
  refine ⟨r, by rw [finalValue, hf, hrun]; rfl, hr, ?_, ?_, ?_⟩
  · intro hne
    exact (List.mem_cons.mp hmem).resolve_left hne
  · rintro rfl v hv
    exact Value.isNull_iff.mp (hallnull rfl v (List.mem_cons_of_mem _ hv))
  · exact fun v hv => hunbeaten v (List.mem_cons_of_mem _ hv)

/-- Values of which none beats the other compare as equal. -/
theorem eq_of_ne (h : ComparedBy c S) (hkeep : keep ≠ .eq) (hr : S r) (hs : S s) (hrnull : r ≠ .null)
    (hsnull : s ≠ .null) (hrs : r.compare? s ≠ some keep) (hsr : s.compare? r ≠ some keep) :
    c r s = .eq := by
  rw [h.agrees r s hr hs hrnull hsnull, ne_eq, Option.some.injEq] at hrs
  rw [h.agrees s r hs hr hsnull hrnull, ne_eq, Option.some.injEq] at hsr
  exact h.orders.eq_of_ne hkeep hr hs hrs hsr

end ComparedBy

end

/-! ## Extrema of integers -/

/-- Integers compare by the places of their numbers. -/
theorem compare?_integer (i j : Int64) :
    (Value.integer i : Value Binary64).compare? (.integer j) =
      some (compare (Binary64.ofInt i.toInt).place (Binary64.ofInt j.toInt).place) :=
  Binary64.compare?_ofInt i.toInt j.toInt

/-- The place of the number of a value, `0` when there is none. -/
def placeOf (v : Value Binary64) : Int := (v.number?.map Binary64.place).getD 0

/-- Integers are compared by the order of their places. -/
theorem comparedBy_placeOf :
    ComparedBy (fun v w => compare (placeOf v) (placeOf w)) (Value.IsIntegral (N := Binary64)) where
  orders :=
    { swap := fun v w _ _ => Int.compare_swap (placeOf v) (placeOf w) |>.symm
      trans := fun u v w _ _ _ huv hvw =>
        compare_le_iff_le.mpr (le_trans (compare_le_iff_le.mp huv) (compare_le_iff_le.mp hvw)) }
  agrees := by
    intro v w hv hw hvnull hwnull
    obtain ⟨i, rfl⟩ := hv.resolve_left hvnull
    obtain ⟨j, rfl⟩ := hw.resolve_left hwnull
    exact compare?_integer i j

/-- Two orders find extrema that compare as equal. -/
theorem finalValue_extremum_perm {f : AggregateFunction} {keep : Ordering} (hkeep : keep ≠ .eq)
    (hf : fresh f = extremum keep (.null : Value Binary64)) {vs ws : List (Value Binary64)}
    (hperm : vs.Perm ws) (hvs : ∀ v ∈ vs, v.IsIntegral) :
    ∃ r s, finalValue f vs = .ok r ∧ finalValue f ws = .ok s ∧
      (r = .null ↔ s = .null) ∧ (r ≠ .null → r.compare? s = some .eq) ∧
      ((∀ v ∈ vs, ∀ w ∈ vs, v.compare? w = some .eq → v = w) → r = s) := by
  obtain ⟨r, hrun, hr, hrmem, hrnull, hrbest⟩ :=
    comparedBy_placeOf.finalValue_extremum hkeep hf (.inl rfl) hvs
  obtain ⟨s, hrun', hs, hsmem, hsnull, hsbest⟩ :=
    comparedBy_placeOf.finalValue_extremum hkeep hf (.inl rfl) fun v hv => hvs v (hperm.mem_iff.mpr hv)
  have hnull : r = .null ↔ s = .null := by
    constructor
    · intro h
      by_contra hne
      exact hne (hrnull h s (hperm.mem_iff.mpr (hsmem hne)))
    · intro h
      by_contra hne
      exact hne (hsnull h r (hperm.mem_iff.mp (hrmem hne)))
  have hequal : r ≠ .null → r.compare? s = some .eq := by
    intro hne
    have hne' : s ≠ .null := fun h => hne (hnull.mpr h)
    rw [comparedBy_placeOf.agrees r s hr hs hne hne']
    exact congrArg some (comparedBy_placeOf.eq_of_ne hkeep hr hs hne hne'
      (hsbest r (hperm.mem_iff.mp (hrmem hne))) (hrbest s (hperm.mem_iff.mpr (hsmem hne'))))
  refine ⟨r, s, hrun, hrun', hnull, hequal, ?_⟩
  intro hdistinct
  by_cases hne : r = .null
  · rw [hne, hnull.mp hne]
  · have hne' : s ≠ .null := fun h => hne (hnull.mpr h)
    exact hdistinct r (hrmem hne) s (hperm.mem_iff.mpr (hsmem hne')) (hequal hne)

/-- Up to `2 ^ 53` integers that compare as equal are the same. -/
theorem eq_of_compare?_eq {i j : Int64} (hi : i.toInt.natAbs ≤ 0x20000000000000)
    (hj : j.toInt.natAbs ≤ 0x20000000000000)
    (h : (Value.integer i : Value Binary64).compare? (.integer j) = some .eq) : i = j := by
  rw [compare?_integer, Option.some.injEq, compare_eq_iff_eq] at h
  rcases lt_trichotomy i.toInt j.toInt with hlt | heq | hgt
  · exact absurd h (ne_of_lt (Binary64.place_ofInt_lt hlt hi hj))
  · exact Int64.toInt_inj.mp heq
  · exact absurd h.symm (ne_of_lt (Binary64.place_ofInt_lt hgt hj hi))

/-- **Small integers.**  Up to `2 ^ 53` an extremum does not depend on the order. -/
theorem finalValue_extremum_of_small {f : AggregateFunction} {keep : Ordering} (hkeep : keep ≠ .eq)
    (hf : fresh f = extremum keep (.null : Value Binary64)) {vs ws : List (Value Binary64)}
    (hperm : vs.Perm ws)
    (hvs : ∀ v ∈ vs, v = .null ∨ ∃ i, v = .integer i ∧ i.toInt.natAbs ≤ 0x20000000000000) :
    finalValue f vs = finalValue f ws := by
  have hints : ∀ v ∈ vs, v.IsIntegral := fun v hv =>
    (hvs v hv).imp_right fun ⟨i, hi, _⟩ => ⟨i, hi⟩
  obtain ⟨r, s, hr, hs, -, -, hsame⟩ := finalValue_extremum_perm hkeep hf hperm hints
  rw [hr, hs, hsame]
  intro v hv w hw heq
  rcases hvs v hv with rfl | ⟨i, rfl, hi⟩
  · cases heq
  · rcases hvs w hw with rfl | ⟨j, rfl, hj⟩
    · cases heq
    · rw [eq_of_compare?_eq hi hj heq]

/-! ## All aggregates of integers -/

/-- **The order of the rows.**  Over integers and `NULL`, counts do not depend on the order.  A sum
succeeds on an order exactly when the partial sums of that order fit 64 bits; orders that succeed give
one value, and all of them succeed exactly when the positive integers have a sum that fits, and the
negative ones too.  Extrema are always found: those of two orders compare as equal, and they are the
same value when values of the list that compare as equal are. -/
theorem finalValue_perm {vs ws : List (Value Binary64)} (hperm : vs.Perm ws)
    (hvs : ∀ v ∈ vs, v.IsIntegral) :
    (∃ r, finalValue .count vs = .ok r ∧ finalValue .count ws = .ok r) ∧
      ((∃ r, finalValue .sum vs = .ok r) ↔ ∀ p, p <+: integersOf vs → FitsInt64 p.sum) ∧
      (∀ r s, finalValue .sum vs = .ok r → finalValue .sum ws = .ok s → r = s) ∧
      ((∀ us, us.Perm vs → ∃ r, finalValue .sum us = .ok r) ↔
        FitsInt64 (positives (integersOf vs)).sum ∧ FitsInt64 (negatives (integersOf vs)).sum) ∧
      ∀ f, f = .min ∨ f = .max → ∃ r s, finalValue f vs = .ok r ∧ finalValue f ws = .ok s ∧
        (r = .null ↔ s = .null) ∧ (r ≠ .null → r.compare? s = some .eq) ∧
        ((∀ v ∈ vs, ∀ w ∈ vs, v.compare? w = some .eq → v = w) → r = s) := by
  have hws : ∀ v ∈ ws, v.IsIntegral := fun v hv => hvs v (hperm.mem_iff.mpr hv)
  refine ⟨?_, ?_, ?_, finalValue_sum_all_iff hvs, ?_⟩
  · refine ⟨.integer (Int64.ofNat (0 + vs.countP fun v => !v.isNull)), ?_, ?_⟩
    · rw [finalValue, fresh, updateAll_count]
      rfl
    · rw [finalValue, fresh, updateAll_count, hperm.countP_eq]
      rfl
  · constructor
    · rintro ⟨r, hr⟩
      exact ((finalValue_sum_iff hvs).mp hr).1
    · intro h
      exact ⟨_, (finalValue_sum_iff hvs).mpr ⟨h, rfl⟩⟩
  · intro r s hr hs
    rw [((finalValue_sum_iff hvs).mp hr).2, ((finalValue_sum_iff hws).mp hs).2]
    exact sumOf_perm (integersOf_perm hperm)
  · rintro f (rfl | rfl)
    · exact finalValue_extremum_perm (show Ordering.lt ≠ .eq by decide) rfl hperm hvs
    · exact finalValue_extremum_perm (show Ordering.gt ≠ .eq by decide) rfl hperm hvs

/-- Two integers and a `NULL`: every order has a sum, and two of them the same minimum. -/
theorem finalValue_perm_small :
    ([.integer 3, .null, .integer (-5)] : List (Value Binary64)).Perm
        [.integer (-5), .integer 3, .null] ∧
      (∀ us, us.Perm ([.integer 3, .null, .integer (-5)] : List (Value Binary64)) →
        ∃ r, finalValue .sum us = .ok r) ∧
      ∃ r, finalValue .min ([.integer 3, .null, .integer (-5)] : List (Value Binary64)) = .ok r ∧
        finalValue .min ([.integer (-5), .integer 3, .null] : List (Value Binary64)) = .ok r := by
  have hperm : ([.integer 3, .null, .integer (-5)] : List (Value Binary64)).Perm
      [.integer (-5), .integer 3, .null] := by decide
  have hints : ∀ v ∈ ([.integer 3, .null, .integer (-5)] : List (Value Binary64)),
      v.IsIntegral := by
    simp [Value.IsIntegral]
  have hdistinct : ∀ v ∈ ([.integer 3, .null, .integer (-5)] : List (Value Binary64)),
      ∀ w ∈ ([.integer 3, .null, .integer (-5)] : List (Value Binary64)),
        v.compare? w = some .eq → v = w := by
    decide +kernel
  obtain ⟨-, -, -, hall, hextrema⟩ := finalValue_perm hperm hints
  obtain ⟨r, s, hr, hs, -, -, hsame⟩ := hextrema .min (.inl rfl)
  refine ⟨hperm, hall.mpr (by decide), r, hr, ?_⟩
  rw [hs, hsame hdistinct]

/-- **Orders that differ.**  A partial sum may not fit although the sum does, and of two integers that
are the same number an extremum keeps the first. -/
theorem finalValue_order :
    ([.integer 0x7FFFFFFFFFFFFFFF, .integer 1, .integer (-1)] : List (Value Binary64)).Perm
        [.integer 0x7FFFFFFFFFFFFFFF, .integer (-1), .integer 1] ∧
      (finalValue .sum ([.integer 0x7FFFFFFFFFFFFFFF, .integer 1, .integer (-1)] :
        List (Value Binary64))).toOption = none ∧
      (finalValue .sum ([.integer 0x7FFFFFFFFFFFFFFF, .integer (-1), .integer 1] :
        List (Value Binary64))).toOption = some (.integer 0x7FFFFFFFFFFFFFFF) ∧
      ([.integer 0x20000000000001, .integer 0x20000000000000] : List (Value Binary64)).Perm
        [.integer 0x20000000000000, .integer 0x20000000000001] ∧
      (finalValue .min ([.integer 0x20000000000001, .integer 0x20000000000000] :
        List (Value Binary64))).toOption = some (.integer 0x20000000000001) ∧
      (finalValue .min ([.integer 0x20000000000000, .integer 0x20000000000001] :
        List (Value Binary64))).toOption = some (.integer 0x20000000000000) := by
  decide +kernel

end Accumulator

end PrivateSql
