import Mathlib.Data.List.Induction
import PrivateSql.Execution.Sorting
/-!
# Sorting by a comparison

A comparison need not be an order on everything it compares, so what sorting does with it is said on
the elements of one list.  Where being not above is transitive among them, the result is in increasing
order; and whatever the comparison is, elements that do not come below one another keep their places
among themselves.

* `OrdersOn`, `inDirection` — a comparison that is a total preorder on some elements, and its outcome
  turned round;
* `stableSort_induction`, `stableSort_perm` — what every insertion keeps, the elements to begin with;
* `stableSort_pairwise` — sorting by it gives increasing order;
* `stableSort_filter` — sorting keeps the order of elements that compare as equal.
-/

namespace PrivateSql

variable {α : Type} {compare : α → α → Ordering}

/-- **Preorders by comparison.**  Among these elements a comparison turned round is the opposite one, and
not to be above is transitive. -/
structure OrdersOn (compare : α → α → Ordering) (S : α → Prop) : Prop where
  swap : ∀ a b, S a → S b → compare b a = (compare a b).swap
  trans : ∀ a b c, S a → S b → S c → compare a b ≠ .gt → compare b c ≠ .gt → compare a c ≠ .gt

/-- The outcome of a comparison, turned round when the order is not ascending. -/
def inDirection (ascending : Bool) (o : Ordering) : Ordering := if ascending then o else o.swap

namespace OrdersOn

variable {S : α → Prop} {a b c : α}

/-- Fewer elements are ordered too. -/
theorem mono {T : α → Prop} (h : OrdersOn compare S) (hsub : ∀ a, T a → S a) : OrdersOn compare T where
  swap a b ha hb := h.swap a b (hsub a ha) (hsub b hb)
  trans a b c ha hb hc := h.trans a b c (hsub a ha) (hsub b hb) (hsub c hc)

/-- Elements are ordered by what is read off them. -/
theorem comap {β : Type} (h : OrdersOn compare S) (f : β → α) :
    OrdersOn (fun x y => compare (f x) (f y)) fun x => S (f x) where
  swap x y := h.swap (f x) (f y)
  trans x y z := h.trans (f x) (f y) (f z)

/-- What is not below is not above the other way round. -/
theorem ne_gt_of_ne_lt (h : OrdersOn compare S) (ha : S a) (hb : S b) (hab : compare a b ≠ .lt) :
    compare b a ≠ .gt := by
  rw [h.swap a b ha hb]
  intro hgt
  exact hab (Ordering.swap_eq_gt.mp hgt)

theorem eq_symm (h : OrdersOn compare S) (ha : S a) (hb : S b) (hab : compare a b = .eq) :
    compare b a = .eq := by
  rw [h.swap a b ha hb, hab]
  rfl

theorem eq_of_ne_gt (h : OrdersOn compare S) (ha : S a) (hb : S b) (hab : compare a b ≠ .gt)
    (hba : compare b a ≠ .gt) : compare a b = .eq := by
  rw [h.swap a b ha hb] at hba
  cases heq : compare a b with
  | lt => exact absurd (by rw [heq]; rfl) hba
  | eq => rfl
  | gt => exact absurd heq hab

/-- Not to come out as `keep` is transitive. -/
theorem ne_trans {keep : Ordering} (h : OrdersOn compare S) (hkeep : keep ≠ .eq) (ha : S a) (hb : S b)
    (hc : S c) (hab : compare a b ≠ keep) (hbc : compare b c ≠ keep) : compare a c ≠ keep := by
  cases keep with
  | gt => exact h.trans a b c ha hb hc hab hbc
  | eq => exact absurd rfl hkeep
  | lt =>
      intro hac
      apply h.trans c b a hc hb ha (h.ne_gt_of_ne_lt hb hc hbc) (h.ne_gt_of_ne_lt ha hb hab)
      rw [h.swap a c ha hc, hac]
      rfl

/-- What comes out as `keep` does not do so the other way round. -/
theorem asymm {keep : Ordering} (h : OrdersOn compare S) (hkeep : keep ≠ .eq) (ha : S a) (hb : S b)
    (hab : compare a b = keep) : compare b a ≠ keep := by
  rw [h.swap a b ha hb, hab]
  cases keep with
  | gt => exact Ordering.noConfusion
  | eq => exact absurd rfl hkeep
  | lt => exact Ordering.noConfusion

/-- Elements that do not come out as `keep` either way are equal. -/
theorem eq_of_ne {keep : Ordering} (h : OrdersOn compare S) (hkeep : keep ≠ .eq) (ha : S a) (hb : S b)
    (hab : compare a b ≠ keep) (hba : compare b a ≠ keep) : compare a b = .eq := by
  cases keep with
  | gt => exact h.eq_of_ne_gt ha hb hab hba
  | eq => exact absurd rfl hkeep
  | lt => exact h.eq_of_ne_gt ha hb (h.ne_gt_of_ne_lt hb ha hba) (h.ne_gt_of_ne_lt ha hb hab)

/-- To compare as equal is transitive. -/
theorem eq_trans (h : OrdersOn compare S) (ha : S a) (hb : S b) (hc : S c)
    (hab : compare a b = .eq) (hbc : compare b c = .eq) : compare a c = .eq := by
  apply h.eq_of_ne_gt ha hc
  · exact h.trans a b c ha hb hc (by simp [hab]) (by simp [hbc])
  · exact h.trans c b a hc hb ha (by simp [h.eq_symm hb hc hbc]) (by simp [h.eq_symm ha hb hab])

/-- Elements are ordered the other way round. -/
theorem directed (h : OrdersOn compare S) (ascending : Bool) :
    OrdersOn (fun a b => inDirection ascending (compare a b)) S := by
  cases ascending with
  | true => exact h
  | false =>
      have hturned : ∀ a b, S a → S b → inDirection false (compare a b) = compare b a :=
        fun a b ha hb => (h.swap a b ha hb).symm
      refine ⟨fun a b ha hb => congrArg Ordering.swap (h.swap a b ha hb), ?_⟩
      intro a b c ha hb hc hab hbc
      rw [hturned a b ha hb] at hab
      rw [hturned b c hb hc] at hbc
      rw [hturned a c ha hc]
      exact h.trans c b a hc hb ha hbc hab

/-- What is compared first decides, and where it does not, what is compared next has to be ordered. -/
theorem then_ne_gt {p q r : Ordering} (h : OrdersOn compare S) (ha : S a) (hb : S b) (hc : S c)
    (hab : (compare a b).then p ≠ .gt) (hbc : (compare b c).then q ≠ .gt)
    (hnext : p ≠ .gt → q ≠ .gt → r ≠ .gt) : (compare a c).then r ≠ .gt := by
  have hab' : compare a b ≠ .gt := fun hgt => hab (by rw [hgt]; rfl)
  have hbc' : compare b c ≠ .gt := fun hgt => hbc (by rw [hgt]; rfl)
  cases hac : compare a c with
  | lt => simp
  | gt => exact absurd hac (h.trans a b c ha hb hc hab' hbc')
  | eq =>
      have hca : compare c a ≠ .gt := by simp [h.eq_symm ha hc hac]
      have hba : compare b a ≠ .gt := h.trans b c a hb hc ha hbc' hca
      have hcb : compare c b ≠ .gt := h.trans c a b hc ha hb hca hab'
      rw [h.eq_of_ne_gt ha hb hab' hba] at hab
      rw [h.eq_of_ne_gt hb hc hbc' hcb] at hbc
      exact hnext hab hbc

end OrdersOn

/-! ## One insertion after the other -/

/-- An insertion neither loses an element nor makes one. -/
theorem insertDescending_perm (compare : α → α → Ordering) (a : α) (l : List α) :
    (insertDescending compare a l).Perm (a :: l) := by
  induction l with
  | nil => exact .rfl
  | cons b rest ih =>
      unfold insertDescending
      split
      · exact (ih.cons b).trans (.swap a b rest)
      · exact .rfl

theorem mem_insertDescending {a b : α} {l : List α} :
    b ∈ insertDescending compare a l ↔ b = a ∨ b ∈ l :=
  (insertDescending_perm compare a l).mem_iff.trans List.mem_cons

/-- One more element is put in at its place. -/
theorem stableSort_append_singleton (compare : α → α → Ordering) (l : List α) (a : α) :
    stableSort compare (l ++ [a]) = (insertDescending compare a (stableSort compare l).reverse).reverse := by
  simp [stableSort]

/-- Sorting neither loses an element nor makes one. -/
theorem stableSort_perm (compare : α → α → Ordering) (l : List α) : (stableSort compare l).Perm l := by
  induction l using List.reverseRecOn with
  | nil => exact .rfl
  | append_singleton done a ih =>
      have hbelow : (stableSort compare done).reverse.Perm done := (List.reverse_perm _).trans ih
      have hput := (insertDescending_perm compare a _).trans (hbelow.cons a)
      rw [stableSort_append_singleton]
      exact ((List.reverse_perm _).trans hput).trans (List.perm_append_singleton a done).symm

/-- **What every insertion keeps** holds of the elements and of what they are sorted to, turned round. -/
theorem stableSort_induction (compare : α → α → Ordering) {P : List α → List α → Prop} (hnil : P [] [])
    (hinsert : ∀ done sorted a, sorted.Perm done → P done sorted →
      P (done ++ [a]) (insertDescending compare a sorted)) (l : List α) :
    P l (stableSort compare l).reverse := by
  induction l using List.reverseRecOn with
  | nil => exact hnil
  | append_singleton done a ih =>
      rw [stableSort_append_singleton, List.reverse_reverse]
      exact hinsert done _ a ((List.reverse_perm _).trans (stableSort_perm compare done)) ih

/-! ## Increasing order -/

/-- A list in decreasing order stays so when an element is put in at its place. -/
theorem insertDescending_pairwise {S : α → Prop} (h : OrdersOn compare S) {a : α} {l : List α}
    (ha : S a) (hl : ∀ b ∈ l, S b) (hsorted : l.Pairwise fun x y => compare y x ≠ .gt) :
    (insertDescending compare a l).Pairwise fun x y => compare y x ≠ .gt := by
  induction l with
  | nil => exact List.pairwise_singleton _ _
  | cons b rest ih =>
      obtain ⟨hb, hrest⟩ := List.forall_mem_cons.mp hl
      obtain ⟨hbelow, htail⟩ := List.pairwise_cons.mp hsorted
      unfold insertDescending
      by_cases hab : compare a b = .lt
      · rw [if_pos hab]
        refine List.pairwise_cons.mpr ⟨?_, ih hrest htail⟩
        intro y hy
        rcases mem_insertDescending.mp hy with rfl | hy
        · simp [hab]
        · exact hbelow y hy
      · rw [if_neg hab]
        have hba : compare b a ≠ .gt := h.ne_gt_of_ne_lt ha hb hab
        refine List.pairwise_cons.mpr ⟨?_, hsorted⟩
        intro y hy
        rcases List.mem_cons.mp hy with rfl | hy
        · exact hba
        · exact h.trans y b a (hrest y hy) hb ha (hbelow y hy) hba

/-- **Sorting gives increasing order**, when the comparison is a preorder on the elements. -/
theorem stableSort_pairwise {l : List α} (h : OrdersOn compare (· ∈ l)) :
    (stableSort compare l).Pairwise fun x y => compare x y ≠ .gt := by
  rw [← List.pairwise_reverse]
  -- What has been put in so far stands in decreasing order.
  refine stableSort_induction compare
    (P := fun done sorted => done ⊆ l → sorted.Pairwise fun x y => compare y x ≠ .gt)
    (fun _ => .nil) ?_ l (List.Subset.refl l)
  intro done sorted a hperm hsorted hsub
  obtain ⟨hdone, ha⟩ := List.append_subset.mp hsub
  exact insertDescending_pairwise h (ha List.mem_cons_self)
    (fun b hb => hdone (hperm.mem_iff.mp hb)) (hsorted hdone)

/-! ## Equal elements -/

/-- Putting an element in passes only those that it is below. -/
theorem insertDescending_filter {p : α → Bool} {a : α} {l : List α}
    (h : ∀ b ∈ l, p a = true → p b = true → compare a b ≠ .lt) :
    (insertDescending compare a l).filter p = (a :: l).filter p := by
  induction l with
  | nil => rfl
  | cons b rest ih =>
      obtain ⟨hb, hrest⟩ := List.forall_mem_cons.mp h
      unfold insertDescending
      by_cases hab : compare a b = .lt
      · rw [if_pos hab, List.filter_cons, ih hrest]
        by_cases hpa : p a = true
        · have hpb : p b = false := by
            by_contra hpb
            exact hb hpa (by simpa using hpb) hab
          simp [List.filter_cons, hpb]
        · simp [List.filter_cons, hpa]
      · rw [if_neg hab]

/-- **Sorting is stable.**  Elements of which none is below another one stay in the order they came in. -/
theorem stableSort_filter {p : α → Bool} {l : List α}
    (h : ∀ a ∈ l, ∀ b ∈ l, p a = true → p b = true → compare a b ≠ .lt) :
    (stableSort compare l).filter p = l.filter p := by
  have hkept := stableSort_induction compare
    (P := fun done sorted => done ⊆ l → sorted.filter p = done.reverse.filter p) (fun _ => rfl) ?_ l
    (List.Subset.refl l)
  · rwa [List.filter_reverse, List.filter_reverse, List.reverse_inj] at hkept
  · intro done sorted a hperm hsame hsub
    obtain ⟨hdone, ha⟩ := List.append_subset.mp hsub
    have ha := ha List.mem_cons_self
    rw [insertDescending_filter fun b hb => h a ha b (hdone (hperm.mem_iff.mp hb)),
      List.reverse_append, List.reverse_singleton, List.singleton_append, List.filter_cons,
      List.filter_cons, hsame hdone]

end PrivateSql
