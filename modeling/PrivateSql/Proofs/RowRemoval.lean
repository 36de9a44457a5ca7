import PrivateSql.Proofs.ExactRows
import PrivateSql.Proofs.RowConfinement
/-!
# One row touches one group

A row that is left out is missed by its own group and by no other.  The pass that puts rows together
handles one row at a time, and a row with a key commutes with leaving out the group with another key:
so the groups with other keys are those of the rows with other keys, in the same order, whatever
happens to the rows of the key that is left out.

* `otherGroups`, `rowsWithOtherKey` — the groups and the rows without those of a key;
* `otherGroups_addRow_self`, `otherGroups_addRow_other` — what one row does to the other groups;
* `otherGroups_groupRows`, `otherGroups_queryGroups` — the other groups of some rows;
* `Dataset.LeavesOut` — two datasets that differ in one row;
* `Preparation.exact_of_leavesOut` — what the row changes in the exact rows of a query.
-/

namespace PrivateSql

variable {N : Type} [Number N]

/-! ## Groups with other keys -/

/-- The groups with other keys. -/
def otherGroups (key : List (Value N)) (groups : List (Group N)) : List (Group N) :=
  groups.filter fun g => decide (g.key ≠ key)

/-- The rows whose keys have other values. -/
def rowsWithOtherKey (keys : List (Expr N)) (key : List (Value N)) (rows : List (Bindings N)) :
    List (Bindings N) :=
  rows.filter fun b => decide ((cells b keys).toOption ≠ some key)

@[simp] theorem otherGroups_nil (key : List (Value N)) : otherGroups key [] = [] := rfl

@[simp] theorem otherGroups_cons_self (g : Group N) (groups : List (Group N)) :
    otherGroups g.key (g :: groups) = otherGroups g.key groups := by
  simp [otherGroups]

theorem otherGroups_cons_other {g : Group N} {key : List (Value N)} (h : g.key ≠ key)
    (groups : List (Group N)) : otherGroups key (g :: groups) = g :: otherGroups key groups := by
  simp [otherGroups, h]

/-- A group keeps its key. -/
theorem Group.key_update {aggregates : List (Expr N)} {b : Bindings N} {g g' : Group N}
    (h : g.update aggregates b = .ok g') : g'.key = g.key := by
  obtain ⟨states, -, rfl⟩ := update_eq_ok.mp h
  rfl

section Steps

variable {aggregates : List (Expr N)} {b : Bindings N} {key other : List (Value N)}
variable {groups groups' : List (Group N)}

/-- A row does not touch the groups with other keys. -/
theorem otherGroups_addRow_self (h : addRow aggregates b key groups = .ok groups') :
    otherGroups key groups' = otherGroups key groups := by
  rcases addRow_cases h with ⟨before, g, after, g', rfl, rfl, hupdate, rfl⟩ |
    ⟨-, g', hupdate, rfl⟩
  · simp [otherGroups, Group.key_update hupdate]
  · have hkey : g'.key = key := Group.key_update hupdate
    simp [otherGroups, hkey]

/-- **Rows with another key.**  What such a row does, it does as well where the groups of the key are
left out. -/
theorem otherGroups_addRow_other (hne : other ≠ key)
    (h : addRow aggregates b other groups = .ok groups') :
    addRow aggregates b other (otherGroups key groups) = .ok (otherGroups key groups') := by
  induction groups generalizing groups' with
  | nil =>
      obtain ⟨g', hg', hgroups'⟩ := bind_eq_ok.mp h
      cases hgroups'
      have hkey : g'.key ≠ key := by
        rw [Group.key_update hg']
        exact hne
      rw [otherGroups_cons_other hkey]
      exact h
  | cons g groups ih =>
      rw [addRow] at h
      by_cases hother : g.key = other
      · -- The row goes to this group, which is not left out.
        rw [if_pos hother] at h
        obtain ⟨g', hg', hgroups'⟩ := bind_eq_ok.mp h
        cases hgroups'
        have hkey : g.key ≠ key := hother ▸ hne
        have hkey' : g'.key ≠ key := by rwa [Group.key_update hg']
        rw [otherGroups_cons_other hkey, otherGroups_cons_other hkey', addRow, if_pos hother, hg']
        rfl
      · rw [if_neg hother] at h
        obtain ⟨rest, hrest, hgroups'⟩ := bind_eq_ok.mp h
        cases hgroups'
        by_cases hkey : g.key = key
        · subst hkey
          rw [otherGroups_cons_self, otherGroups_cons_self]
          exact ih hrest
        · rw [otherGroups_cons_other hkey, otherGroups_cons_other hkey, addRow, if_neg hother,
            ih hrest]
          rfl

end Steps

/-- **The groups with other keys.**  They are the groups of the rows with other keys. -/
theorem otherGroups_groupRows {keys aggregates : List (Expr N)} {rows : List (Bindings N)}
    {groups : List (Group N)} (key : List (Value N))
    (h : groupRows keys aggregates rows = .ok groups) :
    groupRows keys aggregates (rowsWithOtherKey keys key rows) = .ok (otherGroups key groups) := by
  have hrun : ∀ (rows : List (Bindings N)) (start groups : List (Group N)),
      rows.foldlM (fun groups b => do
        let k ← cells b keys
        addRow aggregates b k groups) start = .ok groups →
      (rowsWithOtherKey keys key rows).foldlM (fun groups b => do
        let k ← cells b keys
        addRow aggregates b k groups) (otherGroups key start) = .ok (otherGroups key groups) := by
    intro rows
    induction rows with
    | nil =>
        intro start groups h
        cases h
        rfl
    | cons b rows ih =>
        intro start groups h
        rw [List.foldlM_cons] at h
        obtain ⟨next, hnext, h⟩ := bind_eq_ok.mp h
        obtain ⟨k, hk, hadd⟩ := bind_eq_ok.mp hnext
        have htail := ih next groups h
        by_cases hkey : k = key
        · subst hkey
          rw [otherGroups_addRow_self hadd] at htail
          simpa [rowsWithOtherKey, hk, Except.toOption] using htail
        · have hkept : rowsWithOtherKey keys key (b :: rows) =
              b :: rowsWithOtherKey keys key rows := by
            simp [rowsWithOtherKey, hk, Except.toOption, hkey]
          rw [hkept, List.foldlM_cons, hk, ok_bind, otherGroups_addRow_other hkey hadd, ok_bind]
          exact htail
  exact hrun rows [] groups h

/-- The groups of a query with other keys.  The group that is there without rows has the key that is
left out. -/
theorem otherGroups_queryGroups {q : Query N} {rows : List (Bindings N)} {groups : List (Group N)}
    {key : List (Value N)} (hkey : key.length = q.groupBy.length)
    (h : queryGroups q rows = .ok groups) :
    groupRows q.groupBy q.aggregates (rowsWithOtherKey q.groupBy key rows) =
      .ok (otherGroups key groups) := by
  rcases queryGroups_cases h with ⟨-, hpassed⟩ | ⟨rfl, hkeys, rfl⟩
  · exact otherGroups_groupRows key hpassed
  · obtain rfl : key = [] := List.eq_nil_of_length_eq_zero (by rw [hkey, hkeys, List.length_nil])
    rfl

/-- The groups of a query have different keys. -/
theorem keys_nodup_of_queryGroups {q : Query N} {rows : List (Bindings N)} {groups : List (Group N)}
    (h : queryGroups q rows = .ok groups) : (groups.map (·.key)).Nodup := by
  rcases queryGroups_cases h with ⟨hgrouped, -⟩ | ⟨-, -, rfl⟩
  · exact hgrouped.keys_nodup
  · exact List.nodup_singleton _

/-- A row has a key, and the group of this key. -/
theorem exists_group_of_mem {q : Query N} {rows : List (Bindings N)} {groups : List (Group N)}
    {b : Bindings N} (h : queryGroups q rows = .ok groups) (hb : b ∈ rows) :
    ∃ g ∈ groups, cells b q.groupBy = .ok g.key := by
  rcases queryGroups_cases h with ⟨hgrouped, -⟩ | ⟨rfl, -, -⟩
  · exact hgrouped.covered b hb
  · cases hb

/-- **A row is missed by its own group only.**  The other groups of some rows are the same with and
without it. -/
theorem otherGroups_leaveOut {q : Query N} {first second : List (Bindings N)} {b : Bindings N}
    {groups groups' : List (Group N)} {key : List (Value N)} (hkey : cells b q.groupBy = .ok key)
    (h : queryGroups q (first ++ b :: second) = .ok groups)
    (h' : queryGroups q (first ++ second) = .ok groups') :
    otherGroups key groups' = otherGroups key groups := by
  have hlength : key.length = q.groupBy.length := (mapM_eq_ok.mp hkey).length_eq.symm
  have hothers := otherGroups_queryGroups hlength h
  have hothers' := otherGroups_queryGroups hlength h'
  have hrows : rowsWithOtherKey q.groupBy key (first ++ b :: second) =
      rowsWithOtherKey q.groupBy key (first ++ second) := by
    simp [rowsWithOtherKey, hkey, Except.toOption]
  rw [hrows, hothers', Except.ok.injEq] at hothers
  exact hothers

/-! ## The rows that are kept -/

/-- Rows are kept or not one by one. -/
theorem filterRows_append_eq_ok {condition : Option (Expr N)} {bs bs' kept : List (Bindings N)} :
    filterRows condition (bs ++ bs') = .ok kept ↔
      ∃ first second, filterRows condition bs = .ok first ∧ filterRows condition bs' = .ok second ∧
        kept = first ++ second := by
  induction bs generalizing kept with
  | nil => simp [filterRows]
  | cons b bs ih =>
      rw [List.cons_append, filterRows, filterRows]
      constructor
      · intro h
        obtain ⟨passes, hpasses, h⟩ := bind_eq_ok.mp h
        obtain ⟨rest, hrest, h⟩ := bind_eq_ok.mp h
        obtain ⟨first, second, hfirst, hsecond, rfl⟩ := ih.mp hrest
        cases h
        refine ⟨if passes then b :: first else first, second, ?_, hsecond, ?_⟩
        · rw [hpasses, hfirst]
          rfl
        · cases passes <;> rfl
      · rintro ⟨first, second, hfirst, hsecond, rfl⟩
        obtain ⟨passes, hpasses, hfirst⟩ := bind_eq_ok.mp hfirst
        obtain ⟨rest, hrest, hfirst⟩ := bind_eq_ok.mp hfirst
        cases hfirst
        rw [hpasses, ok_bind, ih.mpr ⟨rest, second, hrest, hsecond, rfl⟩]
        cases passes <;> rfl

/-- **One row less.**  Where a row is left out, the rows kept are the same, up to this row if it
satisfies the condition. -/
theorem filterRows_leaveOut {condition : Option (Expr N)} {b : Bindings N}
    {bs bs' kept kept' : List (Bindings N)} (h : filterRows condition (bs ++ b :: bs') = .ok kept)
    (h' : filterRows condition (bs ++ bs') = .ok kept') :
    ∃ passes first second, satisfies b condition = .ok passes ∧ kept' = first ++ second ∧
      kept = first ++ if passes then b :: second else second := by
  obtain ⟨first, second, hfirst, hsecond, rfl⟩ := filterRows_append_eq_ok.mp h'
  obtain ⟨first', rest, hfirst', hrest, rfl⟩ := filterRows_append_eq_ok.mp h
  obtain rfl : first = first' := Except.ok.inj (hfirst.symm.trans hfirst')
  obtain ⟨passes, hpasses, hrest⟩ := bind_eq_ok.mp hrest
  rw [hsecond, ok_bind] at hrest
  cases hrest
  exact ⟨passes, first, second, hpasses, rfl, rfl⟩

/-! ## The exact rows -/

/-- The count of each value of a column. -/
def countsByValue (N : Type) : Query N where
  select := [.of (.aggregateRows .count) (some "n")]
  relations := [.table ⟨"t"⟩ none]
  selection := none
  groupBy := [.column ⟨"x"⟩]
  having := none
  orderBy := []
  limit := none

/-- **One row left out.**  Two datasets with one catalog, and a table that has the same rows in both
except for one, which the second dataset does not have. -/
structure Dataset.LeavesOut (d d' : Dataset N) (name : Identifier) (schema : Schema N)
    (row : List (Value N)) : Prop where
  catalog : d'.catalog = d.catalog
  rows : ∃ before after, d.table name = .ok ⟨schema, before ++ row :: after⟩ ∧
    d'.table name = .ok ⟨schema, before ++ after⟩

/-- The values of the columns on a row of a table. -/
def tableBindings (name : Identifier) (label : Option Identifier) (schema : Schema N)
    (row : List (Value N)) : Bindings N :=
  rowBindings (Relation.path (.table name label : Relation (Query N))) schema.names row

/-- The rows that a query keeps, with and without a row of its table. -/
theorem Dataset.LeavesOut.rowsRead {d d' : Dataset N} {name : Identifier} {schema : Schema N}
    {row : List (Value N)} (hleft : d.LeavesOut d' name schema row) {q : Query N}
    {label : Option Identifier} (hreads : q.relations = [.table name label])
    {kept kept' : List (Bindings N)} (h : d.rowsRead q = .ok kept) (h' : d'.rowsRead q = .ok kept') :
    ∃ passes first second,
      satisfies (tableBindings name label schema row) q.selection = .ok passes ∧
      kept' = first ++ second ∧
      kept = first ++ if passes then tableBindings name label schema row :: second else second := by
  obtain ⟨before, after, htable, htable'⟩ := hleft.rows
  obtain ⟨path, source, hsource, hkept⟩ := Dataset.rowsRead_eq_ok.mp h
  obtain ⟨path', source', hsource', hkept'⟩ := Dataset.rowsRead_eq_ok.mp h'
  rw [hreads] at hsource hsource'
  simp only [runRelations, runRelation, htable, liftQuery, ok_bind] at hsource
  simp only [runRelations, runRelation, htable', liftQuery, ok_bind] at hsource'
  cases hsource
  cases hsource'
  rw [List.map_append, List.map_cons] at hkept
  rw [List.map_append] at hkept'
  exact filterRows_leaveOut hkept hkept'

namespace Preparation

/-- The cells of the keys of an exact row. -/
def keyCells (p : Preparation N) (row : List (Value N)) : List (Value N) :=
  row.take p.plan.keys.length

/-- The exact rows without those of a key. -/
def otherRows (p : Preparation N) (key : List (Value N)) : List (List (Value N)) :=
  p.exact.rows.filter fun row => decide (p.keyCells row ≠ key)

/-- The exact rows are those of the groups, in their order; leaving out a key leaves out its group. -/
theorem rows_of_groups {q : Query N} {d : Dataset N} {p : Preparation N}
    (h : Preparation.of q d = .ok p) :
    ∃ kept groups, d.rowsRead q = .ok kept ∧ queryGroups p.plan.inner kept = .ok groups ∧
      p.plan.inner.groupBy = q.groupBy ∧ groups.mapM p.plan.inner.groupCells = .ok p.exact.rows ∧
      p.exact.rows.map p.keyCells = groups.map (·.key) ∧
      ∀ key, (otherGroups key groups).mapM p.plan.inner.groupCells = .ok (p.otherRows key) := by
  obtain ⟨kept, groups, hkept, hgroups, hgroupBy, -, hrows, hshape⟩ := exact_eq h
  refine ⟨kept, groups, hkept, hgroups, hgroupBy, hrows, ?_, fun key => ?_⟩
  · have hkeys : List.Forall₂ Eq (p.exact.rows.map p.keyCells) (groups.map (·.key)) := by
      rw [List.forall₂_map_left_iff, List.forall₂_map_right_iff]
      refine List.Forall₂.flip (List.forall₂_iff_zip.mpr ⟨(mapM_eq_ok.mp hrows).length_eq, ?_⟩)
      intro g row hzip
      exact (hshape g (List.of_mem_zip hzip).1 row (eq_ok_of_mem_zip hrows hzip)).1
    exact List.forall₂_eq_eq_eq ▸ hkeys
  · refine mapM_filter_eq_ok hrows fun g hg row hrow => ?_
    rw [keyCells, (hshape g hg row hrow).1]

/-- The exact rows have different keys. -/
theorem keyCells_nodup {q : Query N} {d : Dataset N} {p : Preparation N}
    (h : Preparation.of q d = .ok p) : (p.exact.rows.map p.keyCells).Nodup := by
  obtain ⟨kept, groups, -, hgroups, -, -, hkeys, -⟩ := rows_of_groups h
  rw [hkeys]
  exact keys_nodup_of_queryGroups hgroups

/-- **One row touches one group.**  Let a query be prepared over a dataset, and over the same dataset
without one of the rows that the query reads.  Both have one plan.  If the row does not satisfy the
condition of the query, the exact rows are the same.  If it does, it has a key, there is one exact row
for this key while the row is there and at most one without it, and all the other exact rows are the
same, in the same order. -/
theorem exact_of_leavesOut {q : Query N} {d d' : Dataset N} {p p' : Preparation N}
    {name : Identifier} {label : Option Identifier} {schema : Schema N} {row : List (Value N)}
    (hreads : q.relations = [.table name label]) (hleft : d.LeavesOut d' name schema row)
    (h : Preparation.of q d = .ok p) (h' : Preparation.of q d' = .ok p') :
    p'.plan = p.plan ∧ p'.exact.names = p.exact.names ∧
      (p.exact.rows.map p.keyCells).Nodup ∧ (p'.exact.rows.map p'.keyCells).Nodup ∧
      ∃ passes, satisfies (tableBindings name label schema row) q.selection = .ok passes ∧
        (passes = false → p'.exact = p.exact) ∧
        (passes = true → ∃ key, cells (tableBindings name label schema row) q.groupBy = .ok key ∧
          key ∈ p.exact.rows.map p.keyCells ∧ p'.otherRows key = p.otherRows key) := by
  obtain ⟨hplan, hrun⟩ := Preparation.of_eq_ok.mp h
  obtain ⟨hplan', hrun'⟩ := Preparation.of_eq_ok.mp h'
  have hsame : p'.plan = p.plan := by
    rw [hleft.catalog, hplan] at hplan'
    exact (Except.ok.inj hplan').symm
  have hnames : p'.exact.names = p.exact.names := by
    rw [Dataset.names_of_run hrun, Dataset.names_of_run hrun', hsame]
  refine ⟨hsame, hnames, keyCells_nodup h, keyCells_nodup h', ?_⟩
  obtain ⟨kept, groups, hkept, hgroups, hgroupBy, hrows, hkeys, hothers⟩ := rows_of_groups h
  obtain ⟨kept', groups', hkept', hgroups', -, hrows', -, hothers'⟩ := rows_of_groups h'
  rw [hsame] at hgroups' hrows' hothers'
  obtain ⟨passes, first, second, hpasses, rfl, hwith⟩ := hleft.rowsRead hreads hkept hkept'
  refine ⟨passes, hpasses, ?_, ?_⟩
  · -- A row that is not kept is in no group.
    rintro rfl
    obtain rfl : kept = first ++ second := hwith
    obtain rfl : groups = groups' := Except.ok.inj (hgroups.symm.trans hgroups')
    have hexact : p'.exact.rows = p.exact.rows := Except.ok.inj (hrows'.symm.trans hrows)
    calc p'.exact = ⟨p'.exact.names, p'.exact.rows⟩ := rfl
      _ = p.exact := by rw [hnames, hexact]
  · rintro rfl
    obtain rfl : kept = first ++ tableBindings name label schema row :: second := hwith
    obtain ⟨g, hg, hkey⟩ := exists_group_of_mem hgroups (List.mem_append_right _ List.mem_cons_self)
    have hsameOthers : otherGroups g.key groups' = otherGroups g.key groups :=
      otherGroups_leaveOut hkey hgroups hgroups'
    rw [hgroupBy] at hkey
    refine ⟨g.key, hkey, ?_, ?_⟩
    · rw [hkeys]
      exact List.mem_map_of_mem hg
    · have hothers₁ := hothers' g.key
      rw [hsameOthers, hothers g.key, Except.ok.injEq] at hothers₁
      exact hothers₁.symm

/-- The first of three rows is left out: its group is counted again, and found later than the other
one, which is the same. -/
theorem exact_of_leavesOut_first :
    (integerDataset Binary64 [5, 7, 5]).LeavesOut (integerDataset Binary64 [7, 5]) ⟨"t"⟩
        (integerTable Binary64 []).schema [.integer 5] ∧
      ∃ p p', Preparation.of (countsByValue Binary64) (integerDataset Binary64 [5, 7, 5]) = .ok p ∧
        Preparation.of (countsByValue Binary64) (integerDataset Binary64 [7, 5]) = .ok p' ∧
        p.exact.rows = [[.integer 5, .integer 2], [.integer 7, .integer 1]] ∧
        p'.exact.rows = [[.integer 7, .integer 1], [.integer 5, .integer 1]] ∧
        p'.otherRows [.integer 5] = p.otherRows [.integer 5] := by
  have hleft : (integerDataset Binary64 [5, 7, 5]).LeavesOut (integerDataset Binary64 [7, 5]) ⟨"t"⟩
      (integerTable Binary64 []).schema [.integer 5] :=
    ⟨rfl, [], [[.integer 7], [.integer 5]], rfl, rfl⟩
  have hruns : (do
      let p ← (Preparation.of (countsByValue Binary64) (integerDataset Binary64 [5, 7, 5])).toOption
      let p' ← (Preparation.of (countsByValue Binary64) (integerDataset Binary64 [7, 5])).toOption
      return (p.exact.rows, p'.exact.rows)) =
        some ([[.integer 5, .integer 2], [.integer 7, .integer 1]],
          [[.integer 7, .integer 1], [.integer 5, .integer 1]]) := by
    decide +kernel
  obtain ⟨p, hp, hruns⟩ := Option.bind_eq_some_iff.mp hruns
  obtain ⟨p', hp', hruns⟩ := Option.bind_eq_some_iff.mp hruns
  rw [toOption_eq_some] at hp hp'
  obtain ⟨hrows, hrows'⟩ := Prod.mk.inj (Option.some.inj hruns)
  obtain ⟨-, -, -, -, passes, hpasses, -, hkept⟩ := exact_of_leavesOut rfl hleft hp hp'
  obtain rfl : passes = true := (Except.ok.inj hpasses).symm
  obtain ⟨key, hkey, -, hothers⟩ := hkept rfl
  have hfive : cells (tableBindings ⟨"t"⟩ none (integerTable Binary64 []).schema [.integer 5])
      (countsByValue Binary64).groupBy = .ok [.integer 5] := by
    rfl
  obtain rfl : key = [.integer 5] := Except.ok.inj (hkey.symm.trans hfive)
  exact ⟨hleft, p, p', hp, hp', hrows, hrows', hothers⟩

end Preparation

end PrivateSql
