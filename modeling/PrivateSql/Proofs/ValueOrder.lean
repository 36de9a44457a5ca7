import PrivateSql.Proofs.IntegerNumbers
import PrivateSql.Proofs.StableSorting
import PrivateSql.Value.DataType
/-!
# The order of sorting

Sorting compares two integers as integers, but an integer and a number as numbers.  Rounding keeps the
order of the integers, so this fails to be a preorder at one place only: between two different integers
that are rounded to one number, and that number.  Values of one type have no such place, nor have values
whose integers are of at most 53 bits.  Rows of sort keys are then ordered by their first keys that
differ, for any directions.

* `Merged`, `Value.Discerning` — two integers that are one number, and values without that number beside
  them;
* `Value.totalCompare_swap`, `Value.totalCompare_trans` — the comparison turned round, and its
  transitivity;
* `Value.ordersOn_of_discerning`, `compareKeys_ordersOn` — the preorder on values and on rows of keys;
* `Value.ordersOn_iff_discerning` — where the order of sorting is a preorder;
* `Value.totalCompare_cycle` — where it is none.
-/

namespace PrivateSql

/-- Two different integers that are rounded to one number. -/
def Merged (i j : Int64) : Prop := i ≠ j ∧ Binary64.ofInt i.toInt = Binary64.ofInt j.toInt

instance (i j : Int64) : Decidable (Merged i j) := inferInstanceAs (Decidable (_ ∧ _))

/-- Integers of at most 53 bits are not merged. -/
theorem not_merged_of_small {i j : Int64} (hi : i.toInt.natAbs ≤ 0x20000000000000)
    (hj : j.toInt.natAbs ≤ 0x20000000000000) : ¬ Merged i j := by
  rintro ⟨hne, hsame⟩
  have hplace := congrArg Binary64.place hsame
  rcases lt_trichotomy i.toInt j.toInt with hlt | heq | hgt
  · exact absurd hplace (ne_of_lt (Binary64.place_ofInt_lt hlt hi hj))
  · exact hne (Int64.toInt_inj.mp heq)
  · exact absurd hplace.symm (ne_of_lt (Binary64.place_ofInt_lt hgt hj hi))

/-- Not to be above is transitive for the orders of the library. -/
theorem compare_ne_gt_trans {α : Type} [Ord α] [Std.TransOrd α] {a b c : α} (hab : compare a b ≠ .gt)
    (hbc : compare b c ≠ .gt) : compare a c ≠ .gt := by
  rw [ne_eq, ← Ordering.isLE_iff_ne_gt] at hab hbc ⊢
  exact Std.TransCmp.isLE_trans hab hbc

namespace Value

variable {a b c : Value Binary64} {x y z : Binary64}

/-- A value of a type, or `NULL`. -/
def HasType (t : DataType) (v : Value Binary64) : Prop := v = .null ∨ v.dataType = t

/-- Values without a number that two different integers among them are rounded to. -/
def Discerning (S : Value Binary64 → Prop) : Prop :=
  ∀ i j, S (.integer i) → S (.integer j) → Merged i j → ¬ S (.float (Binary64.ofInt i.toInt))

/-! ## Sorts of values -/

/-- Values of different sorts are ordered by their sorts. -/
theorem totalCompare_of_rank_ne (h : a.rank ≠ b.rank) : a.totalCompare b = compare a.rank b.rank := by
  cases a <;> cases b <;> first | rfl | exact absurd rfl h

theorem rank_le_of_ne_gt (h : a.totalCompare b ≠ .gt) : a.rank ≤ b.rank := by
  by_contra hlt
  apply h
  rw [totalCompare_of_rank_ne (by omega)]
  exact Nat.compare_eq_gt.mpr (by omega)

theorem exists_number_of_rank (h : a.rank = 2) : ∃ x, a.number? = some x := by
  cases a with
  | integer i => exact ⟨_, rfl⟩
  | float x => exact ⟨x, rfl⟩
  | null => cases h
  | boolean b => cases h
  | text s => cases h

/-- Numbers stand in the order of their places, also those of two integers. -/
theorem totalPlace_le_of_ne_gt (ha : a.number? = some x) (hb : b.number? = some y)
    (h : a.totalCompare b ≠ .gt) : x.totalPlace ≤ y.totalPlace := by
  cases a <;> cases ha <;> cases b <;> cases hb
  · exact Binary64.totalPlace_ofInt_mono (by simpa [totalCompare, compare_gt_iff_gt] using h)
  all_goals exact not_lt.mp fun hlt => h (compare_gt_iff_gt.mpr hlt)

/-- Two numbers are compared by their places unless both are integers. -/
theorem totalCompare_of_number (ha : a.number? = some x) (hb : b.number? = some y)
    (h : ∀ i j, a = .integer i → b ≠ .integer j) :
    a.totalCompare b = compare x.totalPlace y.totalPlace := by
  cases a <;> cases ha <;> cases b <;> cases hb
  · exact absurd rfl (h _ _ rfl)
  all_goals rfl

/-! ## The comparison turned round -/

/-- **Turned round** the comparison is the opposite one. -/
theorem totalCompare_swap (a b : Value Binary64) : b.totalCompare a = (a.totalCompare b).swap := by
  by_cases hrank : a.rank = b.rank
  · match a, b, hrank with
    | .null, .null, _ => rfl
    | .boolean l, .boolean r, _ => exact @Std.OrientedCmp.eq_swap Bool compare _ r l
    | .integer i, .integer j, _ => exact @Std.OrientedCmp.eq_swap Int compare _ j.toInt i.toInt
    | .integer _, .float _, _ => exact (Binary64.totalCompare_swap _ _).symm
    | .float _, .integer _, _ => exact (Binary64.totalCompare_swap _ _).symm
    | .float _, .float _, _ => exact (Binary64.totalCompare_swap _ _).symm
    | .text s, .text t, _ => exact @Std.OrientedCmp.eq_swap String compare _ t s
  · rw [totalCompare_of_rank_ne hrank, totalCompare_of_rank_ne fun h => hrank h.symm]
    exact @Std.OrientedCmp.eq_swap Nat compare _ b.rank a.rank

/-! ## Transitivity -/

/-- Not to be above is transitive for numbers, unless the outer ones are merged integers and the middle
one is their number. -/
theorem totalCompare_trans_number (ha : a.number? = some x) (hb : b.number? = some y)
    (hc : c.number? = some z) (hab : a.totalCompare b ≠ .gt) (hbc : b.totalCompare c ≠ .gt)
    (hmiddle : ∀ i j, a = .integer i → c = .integer j → Merged i j →
      b ≠ .float (Binary64.ofInt i.toInt)) : a.totalCompare c ≠ .gt := by
  have hxy := totalPlace_le_of_ne_gt ha hb hab
  have hyz := totalPlace_le_of_ne_gt hb hc hbc
  by_cases hints : ∃ i j, a = .integer i ∧ c = .integer j
  · obtain ⟨i, j, rfl, rfl⟩ := hints
    obtain rfl : Binary64.ofInt i.toInt = x := Option.some.inj ha
    obtain rfl : Binary64.ofInt j.toInt = z := Option.some.inj hc
    intro hgt
    have hji : j.toInt < i.toInt := compare_gt_iff_gt.mp hgt
    cases b with
    | integer k =>
        have hik : i.toInt ≤ k.toInt := compare_le_iff_le.mp hab
        have hkj : k.toInt ≤ j.toInt := compare_le_iff_le.mp hbc
        omega
    | float w =>
        obtain rfl : w = y := Option.some.inj hb
        -- The middle number has the place of both integers.
        have hmono : (Binary64.ofInt j.toInt).totalPlace ≤ (Binary64.ofInt i.toInt).totalPlace :=
          Binary64.totalPlace_ofInt_mono (by omega)
        have hleft : Binary64.ofInt i.toInt = w := Binary64.totalPlace_inj.mp (by omega)
        have hright : Binary64.ofInt j.toInt = w := Binary64.totalPlace_inj.mp (by omega)
        have hne : i ≠ j := by
          rintro rfl
          omega
        exact hmiddle i j rfl rfl ⟨hne, hleft.trans hright.symm⟩ (by rw [hleft])
    | null => cases hb
    | boolean b => cases hb
    | text s => cases hb
  · rw [totalCompare_of_number ha hc fun i j hi hj => hints ⟨i, j, hi, hj⟩]
    exact compare_le_iff_le.mpr (le_trans hxy hyz)

/-- **Transitivity.**  Not to be above is transitive, unless the outer values are merged integers and the
middle one is their number. -/
theorem totalCompare_trans (hab : a.totalCompare b ≠ .gt) (hbc : b.totalCompare c ≠ .gt)
    (hmiddle : ∀ i j, a = .integer i → c = .integer j → Merged i j →
      b ≠ .float (Binary64.ofInt i.toInt)) : a.totalCompare c ≠ .gt := by
  have hrank := rank_le_of_ne_gt hab
  have hrank' := rank_le_of_ne_gt hbc
  by_cases hsame : a.rank = c.rank
  · have hb : b.rank = a.rank := by omega
    by_cases hnumber : a.rank = 2
    · obtain ⟨x, hx⟩ := exists_number_of_rank hnumber
      obtain ⟨y, hy⟩ := exists_number_of_rank (hb.trans hnumber)
      obtain ⟨z, hz⟩ := exists_number_of_rank (hsame.symm.trans hnumber)
      exact totalCompare_trans_number hx hy hz hab hbc hmiddle
    · match a, b, c, hb, hsame with
      | .null, .null, .null, _, _ => exact hab
      | .boolean _, .boolean _, .boolean _, _, _ => exact compare_ne_gt_trans hab hbc
      | .text _, .text _, .text _, _, _ => exact compare_ne_gt_trans hab hbc
      | .integer _, _, _, _, _ => exact absurd rfl hnumber
      | .float _, _, _, _, _ => exact absurd rfl hnumber
  · rw [totalCompare_of_rank_ne hsame]
    exact Nat.compare_ne_gt.mpr (le_trans hrank hrank')

/-- **Discerning values are ordered.** -/
theorem ordersOn_of_discerning {S : Value Binary64 → Prop} (h : Discerning S) :
    OrdersOn totalCompare S where
  swap a b _ _ := totalCompare_swap a b
  trans a b c ha hb hc hab hbc := by
    apply totalCompare_trans hab hbc
    rintro i j rfl rfl hmerged rfl
    exact h i j ha hc hmerged hb

/-- Two merged integers compare as equal to their number, although one is above the other. -/
theorem totalCompare_merged {i j : Int64} (h : Merged i j) :
    (Value.integer i).totalCompare (.float (Binary64.ofInt i.toInt)) = .eq ∧
      (Value.float (Binary64.ofInt i.toInt)).totalCompare (.integer j) = .eq ∧
      (Value.integer i : Value Binary64).totalCompare (.integer j) ≠ .eq := by
  refine ⟨?_, ?_, ?_⟩
  · exact Binary64.totalCompare_eq_iff.mpr rfl
  · exact Binary64.totalCompare_eq_iff.mpr h.2
  · intro heq
    exact h.1 (Int64.toInt_inj.mp (compare_eq_iff_eq.mp heq))

/-- Values between which comparing as equal is transitive are discerning. -/
theorem discerning_of_eq_trans {S : Value Binary64 → Prop}
    (h : ∀ a b c, S a → S b → S c → a.totalCompare b = .eq → b.totalCompare c = .eq →
      a.totalCompare c = .eq) : Discerning S := by
  intro i j hi hj hmerged hnumber
  obtain ⟨hleft, hright, hne⟩ := totalCompare_merged hmerged
  exact hne (h _ _ _ hi hnumber hj hleft hright)

/-- No type has integers and other numbers. -/
theorem not_hasType_float {t : DataType} {i : Int64} (h : HasType t (.integer i)) :
    ¬ HasType t (.float x) := by
  rcases h with ⟨⟨⟩⟩ | rfl
  rintro (⟨⟨⟩⟩ | ⟨⟨⟩⟩)

/-- Values of one type, and `NULL`, are discerning. -/
theorem discerning_of_type (t : DataType) : Discerning (HasType t) := by
  intro i j hi hj hmerged
  exact not_hasType_float hi

theorem totalCompare_self (a : Value Binary64) : a.totalCompare a = .eq := by
  have hswap := totalCompare_swap a a
  cases h : a.totalCompare a with
  | lt => simp [h] at hswap
  | eq => rfl
  | gt => simp [h] at hswap

/-- Values of one type compare as equal only when they are the same. -/
theorem totalCompare_eq_eq_iff {t : DataType} (ha : a.HasType t) (hb : b.HasType t) :
    a.totalCompare b = .eq ↔ a = b := by
  constructor
  · intro h
    have hrank : a.rank = b.rank := by
      by_contra hne
      rw [totalCompare_of_rank_ne hne] at h
      exact hne (Nat.compare_eq_eq.mp h)
    match a, b, hrank, h with
    | .null, .null, _, _ => rfl
    | .boolean _, .boolean _, _, h => exact congrArg _ (Std.LawfulEqOrd.eq_of_compare h)
    | .integer _, .integer _, _, h => exact congrArg _ (Int64.toInt_inj.mp (compare_eq_iff_eq.mp h))
    | .float _, .float _, _, h => exact congrArg _ (Binary64.totalCompare_eq_iff.mp h)
    | .text _, .text _, _, h => exact congrArg _ (Std.LawfulEqOrd.eq_of_compare h)
    | .integer _, .float _, _, _ => exact absurd hb (not_hasType_float ha)
    | .float _, .integer _, _, _ => exact absurd ha (not_hasType_float hb)
  · rintro rfl
    exact totalCompare_self a

/-- Integers of at most 53 bits are discerning beside any numbers. -/
theorem discerning_of_small {S : Value Binary64 → Prop}
    (h : ∀ i, S (.integer i) → i.toInt.natAbs ≤ 0x20000000000000) : Discerning S := by
  intro i j hi hj hmerged
  exact absurd hmerged (not_merged_of_small (h i hi) (h j hj))

end Value

/-! ## Rows of sort keys -/

section

variable {N : Type} [Number N]

/-- The first keys decide, in their direction, and where they do not, the next ones. -/
theorem compareKeys_cons (ascending : Bool) (directions : List Bool) (l r : Value N)
    (ls rs : List (Value N)) :
    compareKeys (ascending :: directions) (l :: ls) (r :: rs) =
      (inDirection ascending (l.totalCompare r)).then (compareKeys directions ls rs) := by
  cases ascending <;> cases h : l.totalCompare r <;> simp [compareKeys, inDirection, h]

/-- **Rows of keys are ordered** when the values of each key are, in any directions. -/
theorem compareKeys_ordersOn {columns : List (Value N → Prop)}
    (h : ∀ S ∈ columns, OrdersOn Value.totalCompare S) (directions : List Bool) :
    OrdersOn (compareKeys directions) fun keys => List.Forall₂ (fun S k => S k) columns keys := by
  -- By induction on the columns: a key without direction, or a direction without key, decides nothing.
  induction columns generalizing directions with
  | nil =>
      have hnone : compareKeys directions ([] : List (Value N)) [] = .eq := by
        cases directions <;> rfl
      refine ⟨?_, ?_⟩
      · rintro _ _ ⟨⟩ ⟨⟩
        rw [hnone]
        rfl
      · rintro _ _ _ ⟨⟩ ⟨⟩ ⟨⟩ hab -
        exact hab
  | cons S columns ih =>
      cases directions with
      | nil => exact ⟨fun _ _ _ _ => rfl, fun _ _ _ _ _ _ h _ => h⟩
      | cons ascending directions =>
          obtain ⟨hS, hrest⟩ := List.forall_mem_cons.mp h
          have hfirst := hS.directed ascending
          have hnext := ih hrest directions
          refine ⟨?_, ?_⟩
          · rintro _ _ (_ | ⟨ha, has⟩) (_ | ⟨hb, hbs⟩)
            rw [compareKeys_cons, compareKeys_cons, Ordering.swap_then, hfirst.swap _ _ ha hb,
              hnext.swap _ _ has hbs]
          · rintro _ _ _ (_ | ⟨ha, has⟩) (_ | ⟨hb, hbs⟩) (_ | ⟨hc, hcs⟩) hab hbc
            rw [compareKeys_cons] at hab hbc ⊢
            exact hfirst.then_ne_gt ha hb hc hab hbc (hnext.trans _ _ _ has hbs hcs)

end

namespace Value

/-- **Where sorting has a preorder.**  Turned round the comparison is the opposite one, for all values.
Not to be above is transitive among some values exactly when no number among them is that of two
different integers among them, and so is to compare as equal.  Rows of keys then have a preorder as
well, for any number of keys in any directions.  Integers of at most 53 bits may stand beside any
numbers. -/
theorem ordersOn_iff_discerning (S : Value Binary64 → Prop) :
    (∀ a b : Value Binary64, b.totalCompare a = (a.totalCompare b).swap) ∧
      (OrdersOn totalCompare S ↔ Discerning S) ∧
      ((∀ a b c, S a → S b → S c → a.totalCompare b = .eq → b.totalCompare c = .eq →
        a.totalCompare c = .eq) ↔ Discerning S) ∧
      (∀ (columns : List (Value Binary64 → Prop)) (directions : List Bool),
        (∀ T ∈ columns, Discerning T) →
          OrdersOn (compareKeys directions) fun keys => List.Forall₂ (fun T k => T k) columns keys) ∧
      ((∀ i, S (.integer i) → i.toInt.natAbs ≤ 0x20000000000000) → Discerning S) := by
  refine ⟨totalCompare_swap, ?_, ?_, ?_, discerning_of_small⟩
  · refine ⟨fun h => ?_, ordersOn_of_discerning⟩
    exact discerning_of_eq_trans fun a b c ha hb hc => h.eq_trans ha hb hc
  · refine ⟨discerning_of_eq_trans, fun h a b c ha hb hc => ?_⟩
    exact (ordersOn_of_discerning h).eq_trans ha hb hc
  · intro columns directions h
    exact compareKeys_ordersOn (fun T hT => ordersOn_of_discerning (h T hT)) directions

/-- Truth values, texts, all numbers and the integers of at most 53 bits are ordered together. -/
theorem ordersOn_small_integers :
    OrdersOn totalCompare fun v : Value Binary64 =>
      ∀ i, v = .integer i → i.toInt.natAbs ≤ 0x20000000000000 := by
  obtain ⟨-, hiff, -, -, hsmall⟩ := ordersOn_iff_discerning fun v : Value Binary64 =>
    ∀ i, v = .integer i → i.toInt.natAbs ≤ 0x20000000000000
  exact hiff.mpr (hsmall fun i hi => hi i rfl)

/-- **A cycle.**  The integers `2 ^ 53 + 1` and `2 ^ 53` both compare as equal to the number `2 ^ 53`, yet
the first one is above the second one; with the number between them, they are left as they stand. -/
theorem totalCompare_cycle :
    (.integer 0x20000000000001 : Value Binary64).totalCompare
        (.float (Binary64.ofInt 0x20000000000000)) = .eq ∧
      (.float (Binary64.ofInt 0x20000000000000) : Value Binary64).totalCompare
        (.integer 0x20000000000000) = .eq ∧
      (.integer 0x20000000000001 : Value Binary64).totalCompare (.integer 0x20000000000000) = .gt ∧
      stableSort totalCompare ([.integer 0x20000000000001,
          .float (Binary64.ofInt 0x20000000000000), .integer 0x20000000000000] :
        List (Value Binary64)) = [.integer 0x20000000000001,
          .float (Binary64.ofInt 0x20000000000000), .integer 0x20000000000000] := by
  decide +kernel

end Value

end PrivateSql
