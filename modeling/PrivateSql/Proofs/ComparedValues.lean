import PrivateSql.Proofs.RowOrder
import PrivateSql.Proofs.ValueOrder
/-!
# Comparisons beside the order of sorting

Queries compare truth values and texts as sorting does, but integers as numbers.  Rounding keeps the order
of the integers, so for two integers both comparisons say the same, unless these are different integers
that are rounded to one number: then queries find them equal.  Values of one type among which there are no
two such integers have a single order: that of the predicates, of the extrema and of the rows.

* `Value.Confused` — two integers that queries do not tell apart;
* `Value.compare?_eq_iff`, `Value.compare?_of_confused` — both comparisons, side by side;
* `predicates`, `evaluate_predicate` — what the operators that compare evaluate to;
* `Value.finalValue_min`, `Value.finalValue_max` — the extrema as the ends of the values when sorted;
* `Value.compare?_agrees` — the one order of values of one type;
* `Value.compare?_confuses` — integers for which there are two.
-/

namespace PrivateSql

/-! ## The ends of a sorted list -/

section

variable {α : Type} {R : α → α → Prop} {l : List α} {a b : α}

/-- The first element of some kind comes before the others of its kind. -/
theorem rel_of_find? {p : α → Bool} (h : l.Pairwise R) (ha : l.find? p = some a) (hb : b ∈ l)
    (hpb : p b = true) : b = a ∨ R a b := by
  obtain ⟨-, before, after, rfl, hbefore⟩ := List.find?_eq_some_iff_append.mp ha
  rcases List.mem_append.mp hb with hb | hb
  · have hnot := hbefore b hb
    rw [hpb] at hnot
    cases hnot
  · rcases List.mem_cons.mp hb with heq | hb
    · exact .inl heq
    · exact .inr ((List.pairwise_cons.mp (List.pairwise_append.mp h).2.1).1 b hb)

/-- The last element comes after the others. -/
theorem rel_of_getLast? (h : l.Pairwise R) (ha : l.getLast? = some a) (hb : b ∈ l) : b = a ∨ R b a := by
  obtain ⟨before, rfl⟩ := List.getLast?_eq_some_iff.mp ha
  rcases List.mem_append.mp hb with hb | hb
  · exact .inr ((List.pairwise_append.mp h).2.2 b hb a List.mem_cons_self)
  · exact .inl (List.mem_singleton.mp hb)

end

/-! ## The operators that compare -/

/-- The operators that compare, each with the outcomes that make it true. -/
def predicates : List (String × (Ordering → Bool)) :=
  [("=", (· == .eq)), ("<>", (· != .eq)), ("!=", (· != .eq)), ("<", (· == .lt)), ("<=", (· != .gt)),
    (">", (· == .gt)), (">=", (· != .lt))]

section

variable {N : Type} [Number N] {p : String × (Ordering → Bool)}

/-- An operator that compares waits for both sides, and is true for its outcomes. -/
theorem binaryValue_predicate (hp : p ∈ predicates) (v w : Value N) :
    decidedByLeft p.1 v = none ∧ binaryValue p.1 v w = some (.ok (comparison p.2 v w)) := by
  have hupper : ∀ p ∈ predicates, Text.toUpper p.1 = p.1 := by decide
  rw [decidedByLeft, binaryValue, hupper p hp]
  simp only [predicates, List.mem_cons, List.not_mem_nil, or_false] at hp
  rcases hp with rfl | rfl | rfl | rfl | rfl | rfl | rfl <;> exact ⟨rfl, rfl⟩

/-- A comparison between the values of two expressions. -/
theorem evaluate_predicate (hp : p ∈ predicates) {b : Bindings N} {l r : Expr N} {v w : Value N}
    (hl : l.evaluate b = .ok v) (hr : r.evaluate b = .ok w) :
    (Expr.binary l p.1 r).evaluate b = .ok (comparison p.2 v w) := by
  obtain ⟨hdecided, hvalue⟩ := binaryValue_predicate hp v w
  rw [Expr.evaluate, hl, ok_bind]
  simp only [hdecided]
  rw [hr, ok_bind, hvalue]
  rfl

end

namespace Value

variable {t : DataType} {a b v : Value Binary64} {i j : Int64} {vs : List (Value Binary64)}

/-! ## Both comparisons -/

/-- Two different integers that are rounded to one number. -/
def Confused : Value Binary64 → Value Binary64 → Prop
  | .integer i, .integer j => Merged i j
  | _, _ => False

/-- Integers that are not merged compare as integers. -/
theorem compare?_integer_of_not_merged (h : ¬ Merged i j) :
    (.integer i : Value Binary64).compare? (.integer j) = some (compare i.toInt j.toInt) := by
  rw [Accumulator.compare?_integer, Binary64.compare_place_ofInt, Binary64.totalCompare]
  have hne : i.toInt ≠ j.toInt →
      (Binary64.ofInt i.toInt).totalPlace ≠ (Binary64.ofInt j.toInt).totalPlace := by
    intro hne hsame
    exact h ⟨fun heq => hne (congrArg Int64.toInt heq), Binary64.totalPlace_inj.mp hsame⟩
  rcases lt_trichotomy i.toInt j.toInt with hlt | heq | hgt
  · have hle := Binary64.totalPlace_ofInt_mono hlt.le
    rw [compare_lt_iff_lt.mpr hlt, compare_lt_iff_lt.mpr (lt_of_le_of_ne hle (hne hlt.ne))]
  · rw [heq, compare_eq_iff_eq.mpr rfl, compare_eq_iff_eq.mpr rfl]
  · have hle := Binary64.totalPlace_ofInt_mono hgt.le
    rw [compare_gt_iff_gt.mpr hgt, compare_gt_iff_gt.mpr (lt_of_le_of_ne hle (hne hgt.ne').symm)]

/-- Integers that are merged compare as equal. -/
theorem compare?_integer_of_merged (h : Merged i j) :
    (.integer i : Value Binary64).compare? (.integer j) = some .eq := by
  rw [Accumulator.compare?_integer, h.2, compare_eq_iff_eq.mpr rfl]

/-- Confused values compare as equal, which they are not. -/
theorem compare?_of_confused (h : Confused a b) :
    a.compare? b = some .eq ∧ a.totalCompare b ≠ .eq := by
  match a, b, h with
  | .integer i, .integer j, h => exact ⟨compare?_integer_of_merged h, (totalCompare_merged h).2.2⟩

/-- **Both comparisons** say the same for integers, truth values and texts, unless these are confused. -/
theorem compare?_eq_iff (ht : t = .integer ∨ t = .boolean ∨ t = .text) (ha : a.dataType = t)
    (hb : b.dataType = t) : a.compare? b = some (a.totalCompare b) ↔ ¬ Confused a b := by
  constructor
  · intro h hconfused
    obtain ⟨hequal, hne⟩ := compare?_of_confused hconfused
    rw [hequal] at h
    exact hne (Option.some.inj h).symm
  · intro h
    match a, b, ha.trans hb.symm, h with
    | .integer i, .integer j, _, h => exact compare?_integer_of_not_merged h
    | .boolean _, .boolean _, _, _ => rfl
    | .text _, .text _, _, _ => rfl
    | .null, .null, _, _ =>
        rw [← ha] at ht
        simp [dataType] at ht
    | .float _, .float _, _, _ =>
        rw [← ha] at ht
        simp [dataType] at ht

/-- Values of one type are compared by the order of sorting when no two of them are confused. -/
theorem comparedBy_totalCompare (ht : t = .integer ∨ t = .boolean ∨ t = .text)
    (hvs : ∀ v ∈ vs, v.HasType t) (happart : ∀ v ∈ vs, ∀ w ∈ vs, ¬ Confused v w) :
    Accumulator.ComparedBy totalCompare fun v => v = .null ∨ v ∈ vs where
  orders := by
    apply (ordersOn_of_discerning (discerning_of_type t)).mono
    rintro v (rfl | hv)
    · exact .inl rfl
    · exact hvs v hv
  agrees := by
    intro v w hv hw hvnull hwnull
    have hv := hv.resolve_left hvnull
    have hw := hw.resolve_left hwnull
    exact (compare?_eq_iff ht ((hvs v hv).resolve_left hvnull) ((hvs w hw).resolve_left hwnull)).mpr
      (happart v hv w hw)

/-! ## Extrema -/

/-- `NULL` is below all other values. -/
theorem totalCompare_null_right (h : v ≠ .null) : v.totalCompare .null = .gt := by
  cases v with
  | null => exact absurd rfl h
  | boolean _ => rfl
  | integer _ => rfl
  | float _ => rfl
  | text _ => rfl

/-- Values of one type of which neither is above the other are the same. -/
theorem eq_of_totalCompare_ne_gt (ha : a.HasType t) (hb : b.HasType t) (hab : a.totalCompare b ≠ .gt)
    (hba : b.totalCompare a ≠ .gt) : a = b := by
  have horders := ordersOn_of_discerning (discerning_of_type t)
  exact (totalCompare_eq_eq_iff ha hb).mp (horders.eq_of_ne_gt ha hb hab hba)

/-- **The minimum** is the first of the sorted values that is not `NULL`. -/
theorem finalValue_min (ht : t = .integer ∨ t = .boolean ∨ t = .text) (hvs : ∀ v ∈ vs, v.HasType t)
    (happart : ∀ v ∈ vs, ∀ w ∈ vs, ¬ Confused v w) :
    Accumulator.finalValue .min vs =
      .ok (((stableSort totalCompare vs).find? fun v => !v.isNull).getD .null) := by
  have hcompared := comparedBy_totalCompare ht hvs happart
  have hsorted := stableSort_pairwise (hcompared.orders.mono fun v => Or.inr)
  obtain ⟨r, hrun, -, hmem, hnull, hbest⟩ := hcompared.finalValue_extremum
    (show Ordering.lt ≠ .eq by decide) (show Accumulator.fresh .min = _ from rfl) (.inl rfl) fun v => Or.inr
  have hsome : ∀ v : Value Binary64, v ≠ .null → (!v.isNull) = true := by
    intro v hv
    rw [isNull_of_ne hv]
    rfl
  rw [hrun]
  congr 1
  -- The first value is not above the one kept, and does not beat it either: they are the same.
  cases hfirst : (stableSort totalCompare vs).find? fun v => !v.isNull with
  | none =>
      by_contra hne
      exact List.find?_eq_none.mp hfirst r ((stableSort_perm _ vs).mem_iff.mpr (hmem hne))
        (hsome r hne)
  | some s =>
      have hs : s ∈ vs := (stableSort_perm _ vs).mem_iff.mp (List.mem_of_find?_eq_some hfirst)
      have hsne : s ≠ .null := by
        rintro rfl
        exact absurd (List.find?_some hfirst) (by decide)
      have hrne : r ≠ .null := fun h => hsne (hnull h s hs)
      have hr := hmem hrne
      rcases rel_of_find? hsorted hfirst ((stableSort_perm _ vs).mem_iff.mpr hr) (hsome r hrne) with
        heq | hle
      · exact heq
      · have hbest := hbest s hs
        rw [hcompared.agrees s r (.inr hs) (.inr hr) hsne hrne, ne_eq, Option.some.injEq] at hbest
        have hge := hcompared.orders.ne_gt_of_ne_lt (.inr hs) (.inr hr) hbest
        exact eq_of_totalCompare_ne_gt (hvs r hr) (hvs s hs) hge hle

/-- **The maximum** is the last of the sorted values. -/
theorem finalValue_max (ht : t = .integer ∨ t = .boolean ∨ t = .text) (hvs : ∀ v ∈ vs, v.HasType t)
    (happart : ∀ v ∈ vs, ∀ w ∈ vs, ¬ Confused v w) :
    Accumulator.finalValue .max vs = .ok ((stableSort totalCompare vs).getLast?.getD .null) := by
  have hcompared := comparedBy_totalCompare ht hvs happart
  have hsorted := stableSort_pairwise (hcompared.orders.mono fun v => Or.inr)
  obtain ⟨r, hrun, -, hmem, hnull, hbest⟩ := hcompared.finalValue_extremum
    (show Ordering.gt ≠ .eq by decide) (show Accumulator.fresh .max = _ from rfl) (.inl rfl) fun v => Or.inr
  rw [hrun]
  congr 1
  -- `NULL` is the last value only when there is no other.
  cases hlast : (stableSort totalCompare vs).getLast? with
  | none =>
      by_contra hne
      have hr := (stableSort_perm totalCompare vs).mem_iff.mpr (hmem hne)
      rw [List.getLast?_eq_none_iff.mp hlast] at hr
      cases hr
  | some s =>
      have hs : s ∈ vs := (stableSort_perm _ vs).mem_iff.mp (List.mem_of_getLast? hlast)
      by_cases hrnull : r = .null
      · exact hrnull.trans (hnull hrnull s hs).symm
      · have hr := hmem hrnull
        rcases rel_of_getLast? hsorted hlast ((stableSort_perm _ vs).mem_iff.mpr hr) with heq | hle
        · exact heq
        · have hsne : s ≠ .null := by
            rintro rfl
            exact hle (totalCompare_null_right hrnull)
          have hbest := hbest s hs
          rw [hcompared.agrees s r (.inr hs) (.inr hr) hsne hrnull, ne_eq, Option.some.injEq] at hbest
          exact eq_of_totalCompare_ne_gt (hvs r hr) (hvs s hs) hle hbest

/-! ## One order -/

/-- **One order.**  Two integers, truth values or texts are compared by queries as by sorting exactly when
they are not confused, which are two different integers rounded to one number; those compare as equal.
Integers are sorted in their own order, and rows by a single key as its values are, in its direction.  Where
two values are not confused, the operators that compare are true for their order; and where no two of some
values are, sorting puts these in order, the minimum is the first of them that is not `NULL`, and the
maximum the last one. -/
theorem compare?_agrees {t : DataType} (ht : t = .integer ∨ t = .boolean ∨ t = .text) :
    (∀ a b : Value Binary64, a.dataType = t → b.dataType = t →
      (a.compare? b = some (a.totalCompare b) ↔ ¬ Confused a b) ∧
      (Confused a b → a.compare? b = some .eq) ∧
      (∀ i j, a = .integer i → b = .integer j → a.totalCompare b = compare i.toInt j.toInt) ∧
      (∀ ascending, compareKeys [ascending] [a] [b] = inDirection ascending (a.totalCompare b)) ∧
      (¬ Confused a b → ∀ p ∈ predicates, ∀ (bindings : Bindings Binary64) (l r : Expr Binary64),
        l.evaluate bindings = .ok a → r.evaluate bindings = .ok b →
          (Expr.binary l p.1 r).evaluate bindings = .ok (.boolean (p.2 (a.totalCompare b))))) ∧
    ∀ vs : List (Value Binary64), (∀ v ∈ vs, v.HasType t) →
      (∀ v ∈ vs, ∀ w ∈ vs, ¬ Confused v w) →
      (stableSort totalCompare vs).Perm vs ∧
      (stableSort totalCompare vs).Pairwise (fun v w => v.totalCompare w ≠ .gt) ∧
      Accumulator.finalValue .min vs =
        .ok (((stableSort totalCompare vs).find? fun v => !v.isNull).getD .null) ∧
      Accumulator.finalValue .max vs = .ok ((stableSort totalCompare vs).getLast?.getD .null) := by
  constructor
  · intro a b ha hb
    refine ⟨compare?_eq_iff ht ha hb, fun h => (compare?_of_confused h).1, ?_, ?_, ?_⟩
    · rintro i j rfl rfl
      rfl
    · intro ascending
      rw [compareKeys_cons]
      exact Ordering.then_eq
    · intro happart p hp bindings l r hl hr
      rw [evaluate_predicate hp hl hr, comparison, (compare?_eq_iff ht ha hb).mpr happart]
  · intro vs hvs happart
    have hcompared := comparedBy_totalCompare ht hvs happart
    exact ⟨stableSort_perm _ _, stableSort_pairwise (hcompared.orders.mono fun v => Or.inr),
      finalValue_min ht hvs happart, finalValue_max ht hvs happart⟩

/-- Two small integers beside `NULL`: they compare as they are sorted, and the extrema are the ends. -/
theorem compare?_agrees_small :
    (.integer 3 : Value Binary64).compare? (.integer (-5)) =
        some ((.integer 3 : Value Binary64).totalCompare (.integer (-5))) ∧
      Accumulator.finalValue .min ([.integer 3, .null, .integer (-5)] : List (Value Binary64)) =
        .ok (.integer (-5)) ∧
      Accumulator.finalValue .max ([.integer 3, .null, .integer (-5)] : List (Value Binary64)) =
        .ok (.integer 3) := by
  have hsmall : ∀ i : Int64, i = 3 ∨ i = -5 → i.toInt.natAbs ≤ 0x20000000000000 := by
    rintro i (rfl | rfl) <;> decide
  have happart : ∀ i j, i = 3 ∨ i = -5 → j = 3 ∨ j = -5 → ¬ Merged i j := by
    intro i j hi hj
    exact not_merged_of_small (hsmall i hi) (hsmall j hj)
  obtain ⟨hpairs, hlists⟩ := compare?_agrees (t := .integer) (.inl rfl)
  obtain ⟨-, -, hmin, hmax⟩ := hlists [.integer 3, .null, .integer (-5)]
    (by simp [HasType, dataType]) (by simp [Confused, happart])
  refine ⟨?_, hmin, hmax⟩
  exact (hpairs _ _ rfl rfl).1.mpr (happart 3 (-5) (.inl rfl) (.inr rfl))

/-- **Two orders.**  The integer `2 ^ 53 + 1` is sorted above `2 ^ 53`, yet queries find both equal: the
first one is not greater, and it is the minimum when it comes first. -/
theorem compare?_confuses :
    (.integer 0x20000000000001 : Value Binary64).compare? (.integer 0x20000000000000) = some .eq ∧
      (.integer 0x20000000000001 : Value Binary64).totalCompare (.integer 0x20000000000000) = .gt ∧
      ((Expr.binary (.literal ⟨.integer 0x20000000000001, "9007199254740993"⟩) ">"
        (.literal ⟨.integer 0x20000000000000, "9007199254740992"⟩) : Expr Binary64).evaluate
          PathMap.empty).toOption = some (.boolean false) ∧
      (Accumulator.finalValue .min ([.integer 0x20000000000001, .integer 0x20000000000000] :
        List (Value Binary64))).toOption = some (.integer 0x20000000000001) ∧
      stableSort totalCompare ([.integer 0x20000000000001, .integer 0x20000000000000] :
        List (Value Binary64)) = [.integer 0x20000000000000, .integer 0x20000000000001] := by
  decide +kernel

end Value

end PrivateSql
