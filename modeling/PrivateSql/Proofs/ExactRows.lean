import PrivateSql.Proofs.InnerRows
/-!
# The exact rows of a plan

The exact rows are those of the inner query, one for each group of the rows it keeps.  Such a row is the
key of its group, followed by one cell for each noised column, whatever the query looks like: the keys of
a bound query have no aggregates, so nothing in them gives way to the value of one.

* `Query.groupCells` — the row that a query gives for a group;
* `Preparation.exact_eq` — the exact rows of a preparation, group by group;
* `Plan.row_of_group`, `Preparation.width_of_exact` — what the row of a group is made of;
* `queryGroups_of_noKey`, `Preparation.exact_of_noKey` — without keys there is one group.
-/

namespace PrivateSql

variable {N : Type} [Number N]

/-- The cells that a query gives for a group. -/
def Query.groupCells (q : Query N) (g : Group N) : Except QueryError (List (Value N)) :=
  cells g.bindings (q.select.map fun item => item.expr.replace (g.aggregates q.aggregates))

/-! ## Without keys -/

/-- Without keys all rows are in one group, which is there also when there is no row. -/
theorem queryGroups_of_noKey {q : Query N} {rows : List (Bindings N)} {groups : List (Group N)}
    (hkeys : q.groupBy = []) (h : queryGroups q rows = .ok groups) : ∃ g, groups = [g] := by
  have hkey : ∀ g ∈ groups, g.key = [] := by
    intro g hg
    have hcells := (group_of_mem h hg).key
    rw [hkeys] at hcells
    exact (Except.ok.inj hcells).symm
  obtain ⟨passed, -, hpassed⟩ := bind_eq_ok.mp h
  have hsome : groups ≠ [] := by
    rintro rfl
    split at hpassed
    · cases hpassed
    · rename_i hnot
      cases hpassed
      simp [hkeys] at hnot
  rcases queryGroups_cases h with ⟨hgrouped, -⟩ | ⟨-, -, rfl⟩
  · cases groups with
    | nil => exact absurd rfl hsome
    | cons g rest =>
        cases rest with
        | nil => exact ⟨g, rfl⟩
        | cons g' rest =>
            -- Two groups would have the same key.
            have hnodup := hgrouped.keys_nodup
            simp [hkey g (by simp), hkey g' (by simp)] at hnodup
  · exact ⟨_, rfl⟩

/-! ## The rows of the groups -/

namespace Plan

variable {q : Query N} {scope : Scope N} {recombined : List (Recombination N)}

/-- **The row of a group.**  It is the key of the group, then one cell for each raw aggregate. -/
theorem row_of_group (hnone : ∀ key ∈ q.groupBy, key.aggregates = []) {rows : List (Bindings N)}
    {g : Group N} {row : List (Value N)}
    (hg : g.Of q.groupBy (innerQuery q (rawAggregates q recombined)).aggregates rows)
    (hrow : (innerQuery q (rawAggregates q recombined)).groupCells g = .ok row) :
    row.take q.groupBy.length = g.key ∧
      row.length = q.groupBy.length + (rawAggregates q recombined).length := by
  have hself : ∀ key ∈ q.groupBy,
      key.replace (g.aggregates (innerQuery q (rawAggregates q recombined)).aggregates) = key :=
    fun key hkey => Group.replace_eq_self (fun a ha => isAggregate_of_mem ha) (hnone key hkey)
  rw [Query.groupCells] at hrow
  generalize g.aggregates (innerQuery q (rawAggregates q recombined)).aggregates = values
    at hself hrow
  have hselect : (innerQuery q (rawAggregates q recombined)).select.map (fun item =>
      item.expr.replace values) =
      q.groupBy ++ (rawAggregates q recombined).map fun e => e.replace values := by
    simp only [innerQuery, List.map_append, List.map_map, Function.comp_def, SelectItem.of]
    rw [List.map_congr_left hself, List.map_id']
  rw [hselect] at hrow
  obtain ⟨keyCells, rawCells, hkeyCells, hrawCells, rfl⟩ := mapM_append_eq_ok.mp hrow
  obtain rfl : keyCells = g.key := Except.ok.inj (hkeyCells.symm.trans hg.key)
  have hkeyLength := (mapM_eq_ok.mp hkeyCells).length_eq
  have hrawLength := (mapM_eq_ok.mp hrawCells).length_eq
  rw [List.length_map] at hrawLength
  rw [hkeyLength, hrawLength]
  exact ⟨List.take_left, List.length_append⟩

end Plan

/-- **The exact rows of a preparation.**  They are given by the inner query, for each group of the rows
that the query keeps; each is the key of its group followed by the noised columns. -/
theorem Preparation.exact_eq {q : Query N} {d : Dataset N} {p : Preparation N}
    (h : Preparation.of q d = .ok p) :
    ∃ kept groups, d.rowsRead q = .ok kept ∧ queryGroups p.plan.inner kept = .ok groups ∧
      p.plan.inner.groupBy = q.groupBy ∧ p.plan.keys.length = q.groupBy.length ∧
      groups.mapM p.plan.inner.groupCells = .ok p.exact.rows ∧
      ∀ g ∈ groups, ∀ row, p.plan.inner.groupCells g = .ok row →
        row.take p.plan.keys.length = g.key ∧
          row.length = p.plan.keys.length + p.plan.columns.length := by
  obtain ⟨hplan, hexact⟩ := Preparation.of_eq_ok.mp h
  obtain ⟨scope, table, recombined, hbound, -, hagg, hrecombined, hp⟩ := Plan.of_eq_ok hplan
  rw [hp] at hexact ⊢
  obtain ⟨kept, groups, hkept, hgroups, hrows⟩ :=
    Dataset.rows_of_run (Plan.isAggregate_inner hagg hrecombined) rfl rfl rfl hexact
  refine ⟨kept, groups, hkept, hgroups, rfl, by simp [Plan.assemble], mapM_eq_ok.mpr hrows, ?_⟩
  intro g hg row hrow
  have hshape := Plan.row_of_group hbound.groupBy (group_of_mem hgroups hg) hrow
  simpa [Plan.assemble] using hshape

namespace Preparation

variable {q : Query N} {d : Dataset N} {p : Preparation N}

/-- An exact row has a cell for each key and for each noised column. -/
theorem width_of_exact (h : Preparation.of q d = .ok p) :
    ∀ row ∈ p.exact.rows, row.length = p.plan.keys.length + p.plan.columns.length := by
  intro row hrow
  obtain ⟨kept, groups, -, -, -, -, hrows, hshape⟩ := exact_eq h
  obtain ⟨g, hzip, hg⟩ := exists_element_of_mem hrows hrow
  exact (hshape g (List.of_mem_zip hzip).1 row hg).2

/-- Without keys there is one exact row. -/
theorem exact_of_noKey (h : Preparation.of q d = .ok p) (hkeys : q.groupBy = []) :
    p.exact.rows.length = 1 := by
  obtain ⟨kept, groups, -, hgroups, hgroupBy, -, hrows, -⟩ := exact_eq h
  obtain ⟨g, rfl⟩ := queryGroups_of_noKey (hgroupBy.trans hkeys) hgroups
  exact (mapM_eq_ok.mp hrows).length_eq.symm

end Preparation

end PrivateSql
