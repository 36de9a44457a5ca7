import Mathlib.Algebra.GroupWithZero.Nat
import PrivateSql.Proofs.BindingSoundness
/-!
# Groups as they are declared

The pass over the rows does what `GROUP BY` declares: there is one group for each key that occurs, in
the order in which the keys first appear; it has the columns of its first row, and the aggregates of
its own rows, fed in their order.

* `Arranged`, `Arranged.addRow`, `groupRows_arranged` — the groups stand in the order of their keys,
  which every row keeps;
* `flatMap_rowsWithKey_perm` — every row is in one group;
* `Query.groupKeys`, `Query.Summary`, `Query.summaries_of_sources` — the groups of a query;
* `Query.execute_groups` — the execution of a query that aggregates.
-/

namespace PrivateSql

variable {N : Type} [Number N]

/-! ## The order of the groups -/

section

variable {α : Type} [BEq α] [LawfulBEq α] {l : List α} {a : α}

/-- One more element that is there already. -/
theorem eraseDups_concat_of_mem (h : a ∈ l) : (l ++ [a]).eraseDups = l.eraseDups := by
  rw [List.eraseDups_append]
  simp [List.removeAll, h]

/-- One more element that is new. -/
theorem eraseDups_concat_of_not_mem (h : a ∉ l) : (l ++ [a]).eraseDups = l.eraseDups ++ [a] := by
  rw [List.eraseDups_append]
  simp [List.removeAll, h, List.eraseDups_cons]

end

/-- **Groups in the order of their keys.**  The keys of the groups are those of the rows, in the order in
which they first appear, and each group has the columns of its first row. -/
structure Arranged (keys : List (Expr N)) (rows : List (Bindings N)) (groups : List (Group N)) :
    Prop where
  order : ∃ vectors, rows.mapM (cells · keys) = .ok vectors ∧ groups.map (·.key) = vectors.eraseDups
  first : ∀ g ∈ groups, (rowsWithKey keys g.key rows).head? = some g.bindings

section Steps

variable {keys aggregates : List (Expr N)} {rows : List (Bindings N)} {groups groups' : List (Group N)}
variable {b : Bindings N} {key : List (Value N)}

/-- The first row of a group stays the first one. -/
theorem head?_rowsWithKey_append {k : List (Value N)} {b' : Bindings N} (hkey : cells b keys = .ok k)
    (h : (rowsWithKey keys key rows).head? = some b') :
    (rowsWithKey keys key (rows ++ [b])).head? = some b' := by
  rw [rowsWithKey_append hkey, List.head?_append, h, Option.some_or]

/-- Without a group of the key no row before has it. -/
theorem rowsWithKey_eq_nil {vectors : List (List (Value N))}
    (hvectors : rows.mapM (cells · keys) = .ok vectors) (hnone : key ∉ vectors) :
    rowsWithKey keys key rows = [] := by
  rw [List.eq_nil_iff_forall_not_mem]
  intro b' hb'
  obtain ⟨hb', hcells⟩ := mem_rowsWithKey.mp hb'
  obtain ⟨k, hzip, hk⟩ := exists_result_of_mem hvectors hb'
  rw [hcells] at hk
  cases hk
  exact hnone (List.of_mem_zip hzip).2

theorem Arranged.mem_iff {vectors : List (List (Value N))}
    (horder : groups.map (·.key) = vectors.eraseDups) (k : List (Value N)) :
    k ∈ vectors ↔ ∃ g ∈ groups, g.key = k := by
  rw [← List.mem_eraseDups, ← horder, List.mem_map]

/-- A row of a group that is there: the group keeps its key and its first row. -/
theorem Arranged.update {before after : List (Group N)} {g g' : Group N}
    (hinv : Arranged keys rows (before ++ g :: after)) (hkey : cells b keys = .ok g.key)
    (hsame : g'.key = g.key ∧ g'.bindings = g.bindings) :
    Arranged keys (rows ++ [b]) (before ++ g' :: after) := by
  obtain ⟨vectors, hvectors, horder⟩ := hinv.order
  have hold : g.key ∈ vectors :=
    (mem_iff horder g.key).mpr ⟨g, List.mem_append_right _ List.mem_cons_self, rfl⟩
  have hvectors' : (rows ++ [b]).mapM (cells · keys) = .ok (vectors ++ [g.key]) :=
    mapM_append_eq_ok.mpr ⟨vectors, [g.key], hvectors, by rw [List.mapM_cons, hkey]; rfl, rfl⟩
  refine ⟨⟨vectors ++ [g.key], hvectors', ?_⟩, fun x hx => ?_⟩
  · rw [eraseDups_concat_of_mem hold, ← horder]
    simp [hsame.1]
  · obtain ⟨y, hy, hykey, hybindings⟩ : ∃ y ∈ before ++ g :: after,
        y.key = x.key ∧ y.bindings = x.bindings := by
      rcases List.mem_append.mp hx with hbefore | hx
      · exact ⟨x, List.mem_append_left _ hbefore, rfl, rfl⟩
      · rcases List.mem_cons.mp hx with rfl | hafter
        · exact ⟨g, List.mem_append_right _ List.mem_cons_self, hsame.1.symm, hsame.2.symm⟩
        · exact ⟨x, List.mem_append_right _ (List.mem_cons_of_mem _ hafter), rfl, rfl⟩
    rw [← hykey, ← hybindings]
    exact head?_rowsWithKey_append hkey (hinv.first y hy)

/-- A row that is the first one with its key: its group comes last. -/
theorem Arranged.fresh {g : Group N} (hinv : Arranged keys rows groups) (hkey : cells b keys = .ok g.key)
    (hnew : ∀ g' ∈ groups, g'.key ≠ g.key) (hfirst : g.bindings = b) :
    Arranged keys (rows ++ [b]) (groups ++ [g]) := by
  obtain ⟨vectors, hvectors, horder⟩ := hinv.order
  have hnone : g.key ∉ vectors := by
    rw [mem_iff horder]
    rintro ⟨g', hg', heq⟩
    exact hnew g' hg' heq
  have hvectors' : (rows ++ [b]).mapM (cells · keys) = .ok (vectors ++ [g.key]) :=
    mapM_append_eq_ok.mpr ⟨vectors, [g.key], hvectors, by rw [List.mapM_cons, hkey]; rfl, rfl⟩
  refine ⟨⟨vectors ++ [g.key], hvectors', ?_⟩, fun x hx => ?_⟩
  · rw [eraseDups_concat_of_not_mem hnone, ← horder]
    simp
  · rcases List.mem_append.mp hx with hold | hlast
    · exact head?_rowsWithKey_append hkey (hinv.first x hold)
    · obtain rfl := List.mem_singleton.mp hlast
      rw [rowsWithKey_append hkey, rowsWithKey_eq_nil hvectors hnone, if_pos rfl, hfirst]
      rfl

/-- **Every row keeps the order of the groups.** -/
theorem Arranged.addRow (hinv : Arranged keys rows groups) (hkey : cells b keys = .ok key)
    (h : PrivateSql.addRow aggregates b key groups = .ok groups') :
    Arranged keys (rows ++ [b]) groups' := by
  rcases addRow_cases h with ⟨before, g, after, g', rfl, rfl, hupdate, rfl⟩ | ⟨hnew, g', hupdate, rfl⟩
  · obtain ⟨states, -, rfl⟩ := update_eq_ok.mp hupdate
    exact hinv.update hkey ⟨rfl, rfl⟩
  · obtain ⟨states, -, rfl⟩ := update_eq_ok.mp hupdate
    exact hinv.fresh hkey hnew rfl

end Steps

/-- **The pass puts the groups in the order of their keys.** -/
theorem groupRows_arranged {keys aggregates : List (Expr N)} {rows : List (Bindings N)}
    {groups : List (Group N)} (h : groupRows keys aggregates rows = .ok groups) :
    Arranged keys rows groups := by
  have hstep : ∀ (done : List (Bindings N)) b groups groups', Arranged keys done groups →
      (do let key ← cells b keys; addRow aggregates b key groups) = .ok groups' →
      Arranged keys (done ++ [b]) groups' := by
    intro done b groups groups' hinv hadd
    obtain ⟨key, hkey, hadd⟩ := bind_eq_ok.mp hadd
    exact hinv.addRow hkey hadd
  have hstart : Arranged keys ([] : List (Bindings N)) [] := ⟨⟨[], rfl, rfl⟩, by simp⟩
  rw [groupRows] at h
  exact @foldlM_invariant _ _ _ _ (Arranged keys) hstep rows [] [] groups hstart h

/-! ## Every row in one group -/

/-- The rows of some different keys, group by group. -/
theorem flatMap_rowsWithKey_perm {keys : List (Expr N)} {ks : List (List (Value N))}
    {rows : List (Bindings N)} (hnodup : ks.Nodup)
    (hcovered : ∀ b ∈ rows, ∃ key ∈ ks, cells b keys = .ok key) :
    (ks.flatMap fun key => rowsWithKey keys key rows).Perm rows := by
  induction ks generalizing rows with
  | nil =>
      cases rows with
      | nil => exact .rfl
      | cons b rows =>
          obtain ⟨key, hkey, -⟩ := hcovered b List.mem_cons_self
          cases hkey
  | cons k ks ih =>
      obtain ⟨hk, hnodup⟩ := List.nodup_cons.mp hnodup
      -- The rows with other keys keep their groups when those with the first key are taken away.
      have hothers : (ks.flatMap fun key => rowsWithKey keys key rows) =
          ks.flatMap fun key => rowsWithKey keys key
            (rows.filter fun b => !decide ((cells b keys).toOption = some k)) := by
        apply List.flatMap_congr
        intro key hkey
        have hne : key ≠ k := fun heq => hk (heq ▸ hkey)
        rw [rowsWithKey, rowsWithKey, List.filter_filter]
        apply List.filter_congr
        intro b _
        by_cases hb : (cells b keys).toOption = some key
        · simp [hb, hne]
        · simp [hb]
      rw [List.flatMap_cons, hothers]
      refine ((ih hnodup ?_).append_left _).trans (List.filter_append_perm _ rows)
      intro b hb
      obtain ⟨hb, hne⟩ := List.mem_filter.mp hb
      obtain ⟨key, hkey, hcells⟩ := hcovered b hb
      rcases List.mem_cons.mp hkey with rfl | htail
      · simp [hcells, Except.toOption] at hne
      · exact ⟨key, htail, hcells⟩

/-! ## The groups of a query -/

namespace Query

/-- The keys of the groups, from those of the rows: each of them once, in the order in which they first
appear.  Without keys there is one group, also without rows. -/
def groupKeys (q : Query N) (vectors : List (List (Value N))) : List (List (Value N)) :=
  if q.groupBy.isEmpty then [[]] else vectors.eraseDups

/-- **What a group of rows gives way to.**  The columns are those of its first row.  Each aggregate that
the query gives, filters or orders by has its value: that of a fresh accumulator, fed with the argument
of the aggregate on the rows of the group, in their order.  Aggregates with one tree have one value,
which is its own for each of them when constants are told by their texts.  Nothing else is replaced. -/
structure Summary (q : Query N) (rows : List (Bindings N)) (b : Bindings N) (s : Substitution N) :
    Prop where
  columns : b = rows.head?.getD PathMap.empty
  aggregates : ∀ e ∈ q.outputExprs, ∀ a ∈ e.aggregates,
    ∃ a' ∈ q.aggregates, a'.tree = a.tree ∧ (q.Legible → a' = a) ∧
      ∃ vs state, rows.mapM (aggregateInput · a') = .ok vs ∧
        (emptyState a').updateAll vs = .ok state ∧ s.find? a = some (.ofValue state.result)
  others : ∀ t, t.isAggregate = false → s.find? t = none

variable {q : Query N} {kept : List (Bindings N)}

theorem summary_of_states {g : Group N} {rows : List (Bindings N)}
    (hcolumns : g.bindings = rows.head?.getD PathMap.empty)
    (hstates : statesOf q.aggregates rows = .ok g.states) :
    q.Summary rows g.bindings (g.aggregates q.aggregates) := by
  refine ⟨hcolumns, fun e he a ha => ?_, fun t ht => ?_⟩
  · obtain ⟨a₀, ha₀, htree₀⟩ := exists_mem_aggregates he ha
    obtain ⟨r, hr⟩ := Option.isSome_iff_exists.mp
      (Group.isSome_find?_aggregates hstates ha₀ htree₀)
    obtain ⟨p, hp, htree, rfl⟩ := Group.find?_aggregates hr
    have hmem : p.1 ∈ q.aggregates := (List.of_mem_zip hp).1
    obtain ⟨vs, hvs, hupdate⟩ := aggregateRun_eq_ok.mp
      (eq_ok_of_mem_zip (f := fun a => aggregateRun a rows) hstates hp)
    refine ⟨p.1, hmem, htree, fun hlegible => ?_, vs, p.2, hvs, hupdate, hr⟩
    obtain ⟨e', he', ha'⟩ := exists_outputExpr_of_mem_aggregates hmem
    exact hlegible.eq_of_tree (List.mem_append_left _ he') (List.mem_filter.mp ha').1
      (List.mem_append_left _ he) (List.mem_filter.mp ha).1 htree
  · exact Group.find?_eq_none (fun a ha => isAggregate_of_mem ha) ht

/-- Without keys all rows that there are make one group. -/
theorem keys_eq_singleton {aggregates : List (Expr N)} {groups : List (Group N)}
    (h : Grouped [] aggregates kept groups) (hne : groups ≠ []) : groups.map (·.key) = [[]] := by
  have hkey : ∀ g ∈ groups, g.key = [] := by
    intro g hg
    have hcells : .ok [] = (.ok g.key : Except QueryError _) := (mem_rowsWithKey.mp (h.head g hg)).2
    exact (Except.ok.inj hcells).symm
  cases groups with
  | nil => exact absurd rfl hne
  | cons g rest =>
      have hnodup := h.keys_nodup
      rw [List.map_cons, List.nodup_cons] at hnodup
      cases rest with
      | nil => rw [List.map_singleton, hkey g List.mem_cons_self]
      | cons g' rest =>
          refine absurd ?_ hnodup.1
          rw [hkey g List.mem_cons_self, ← hkey g' (by simp)]
          simp

/-- **The groups of a query** stand beside the keys of its rows. -/
theorem summaries_of_sources (hagg : q.isAggregate = true)
    {found : List (Bindings N × Substitution N)} (h : q.sources kept = .ok found) :
    ∃ vectors, kept.mapM (cells · q.groupBy) = .ok vectors ∧ (q.groupKeys vectors).Nodup ∧
      List.Forall₂ (fun key g => q.Summary (rowsWithKey q.groupBy key kept) g.1 g.2)
        (q.groupKeys vectors) found := by
  rw [sources, if_pos hagg] at h
  obtain ⟨groups, hgroups, h⟩ := bind_eq_ok.mp h
  cases h
  rcases queryGroups_cases hgroups with ⟨hgrouped, hpass⟩ | ⟨rfl, hkeys, rfl⟩
  · have harranged := groupRows_arranged hpass
    obtain ⟨vectors, hvectors, horder⟩ := harranged.order
    have hsame : groups.map (·.key) = q.groupKeys vectors := by
      cases hkeys : q.groupBy with
      | cons key keys => simpa [groupKeys, hkeys] using horder
      | nil =>
          have hne : groups ≠ [] := by
            rintro rfl
            rw [queryGroups, hpass] at hgroups
            simp [hkeys] at hgroups
          rw [hkeys] at hgrouped
          simpa [groupKeys, hkeys] using keys_eq_singleton hgrouped hne
    refine ⟨vectors, hvectors, hsame ▸ hgrouped.keys_nodup, ?_⟩
    rw [← hsame, List.forall₂_map_left_iff, List.forall₂_map_right_iff, List.forall₂_same]
    intro g hg
    refine summary_of_states ?_ (hgrouped.states g hg)
    rw [harranged.first g hg]
    rfl
  · have hgroup : q.groupKeys [] = [[]] := by simp [groupKeys, hkeys]
    refine ⟨[], rfl, by simp [hgroup], ?_⟩
    rw [hgroup]
    exact .cons (summary_of_states rfl (statesOf_nil fun a ha => isAggregate_of_mem ha)) .nil

/-! ## The execution -/

/-- What counts the rows of a group gives their number. -/
theorem Summary.count {rows : List (Bindings N)} {b : Bindings N} {s : Substitution N}
    (h : q.Summary rows b s) (ha : .aggregateRows .count ∈ q.aggregates) :
    s.find? (.aggregateRows .count) = some (.ofValue (.integer (Int64.ofNat rows.length))) := by
  obtain ⟨e, he, hmem⟩ := exists_outputExpr_of_mem_aggregates ha
  obtain ⟨a', -, htree, -, vs, state, hvs, hupdate, hfound⟩ := h.aggregates e he _ hmem
  obtain rfl := Expr.eq_aggregateRows_of_tree htree
  have hcounted : ∀ v ∈ vs, (!v.isNull) = true := by
    intro v hv
    obtain ⟨b, -, hinput⟩ := exists_element_of_mem hvs hv
    cases hinput
    rfl
  have hstate : (.count rows.length : Accumulator N) = state := by
    have hcount := Accumulator.updateAll_count 0 vs
    rw [Nat.zero_add, List.countP_eq_length.mpr hcounted, ← (mapM_eq_ok.mp hvs).length_eq] at hcount
    exact Except.ok.inj (hcount.symm.trans hupdate)
  rw [hfound, ← hstate]
  rfl

/-- **A query that aggregates** is executed as `GROUP BY` declares it.  Let it be executed over some rows.
Then the rows that are kept are put into groups: one for each different vector of keys, in the order in
which these first appear, and without keys a single one.  Every row is in one of them, and `COUNT(*)` is
the number of its rows.  For each group one row is made, of the columns of its first row and of its
aggregates; only then the rows are filtered, ordered and cut. -/
theorem execute_groups {path names : List String} {rows : List (List (Value N))} {answer : Rowset N}
    (hagg : q.isAggregate = true) (h : q.execute path names rows = .ok answer) :
    ∃ (kept : List (Bindings N)) (vectors : List (List (Value N)))
      (groups : List (Bindings N × Substitution N)) (given : List (Option (OutputRow N))),
      filterRows q.selection (rows.map (rowBindings path names)) = .ok kept ∧
      kept.mapM (cells · q.groupBy) = .ok vectors ∧
      List.Forall₂ (fun key g => q.Summary (rowsWithKey q.groupBy key kept) g.1 g.2 ∧
          (.aggregateRows .count ∈ q.aggregates → g.2.find? (.aggregateRows .count) =
            some (.ofValue (.integer (Int64.ofNat (rowsWithKey q.groupBy key kept).length)))))
        (q.groupKeys vectors) groups ∧
      ((q.groupKeys vectors).flatMap fun key => rowsWithKey q.groupBy key kept).Perm kept ∧
      ((q.groupKeys vectors).map fun key => (rowsWithKey q.groupBy key kept).length).sum =
        kept.length ∧
      List.Forall₂ (fun g row => q.outputRow g.1 g.2 = .ok row) groups given ∧
      answer = q.arrange (given.flatMap Option.toList) := by
  obtain ⟨kept, groups, outputs, hkept, hgroups, houtputs, rfl⟩ := execute_eq_ok.mp h
  obtain ⟨given, hgiven, rfl⟩ := outputRows_eq_ok.mp houtputs
  obtain ⟨vectors, hvectors, hnodup, hsummaries⟩ := summaries_of_sources hagg hgroups
  have hcovered : ∀ b ∈ kept, ∃ key ∈ q.groupKeys vectors, cells b q.groupBy = .ok key := by
    intro b hb
    obtain ⟨key, hzip, hkey⟩ := exists_result_of_mem hvectors hb
    refine ⟨key, ?_, hkey⟩
    rw [groupKeys]
    split
    · rename_i hempty
      rw [List.isEmpty_iff.mp hempty] at hkey
      cases hkey
      exact List.mem_singleton_self _
    · exact List.mem_eraseDups.mpr (List.of_mem_zip hzip).2
  have hperm := flatMap_rowsWithKey_perm hnodup hcovered
  refine ⟨kept, vectors, groups, given, hkept, hvectors,
    hsummaries.imp fun key g hg => ⟨hg, hg.count⟩, hperm, ?_, hgiven, rfl⟩
  rw [← List.length_flatMap]
  exact hperm.length_eq

/-- Three rows are kept, two of them odd: two groups, the odd one first. -/
theorem execute_groups_parities :
    ∃ q answer kept vectors, Query.parse (N := Binary64)
        "SELECT x % 2 AS odd, COUNT(*) AS n FROM t WHERE x > 0 GROUP BY x % 2" = .ok q ∧
      q.isAggregate = true ∧
      q.execute ["t"] ["x"] [[.integer 3], [.integer 2], [.integer 0], [.integer 1]] = .ok answer ∧
      answer.rows = [[.integer 1, .integer 2], [.integer 0, .integer 1]] ∧
      kept.mapM (cells · q.groupBy) = .ok vectors ∧
      ((q.groupKeys vectors).map fun key => (rowsWithKey q.groupBy key kept).length).sum =
        kept.length := by
  have hruns : ((Query.parse (N := Binary64)
      "SELECT x % 2 AS odd, COUNT(*) AS n FROM t WHERE x > 0 GROUP BY x % 2").toOption.bind fun q =>
        (q.execute ["t"] ["x"] [[.integer 3], [.integer 2], [.integer 0], [.integer 1]]).toOption.map
          fun answer => (q.isAggregate, answer.rows)) =
        some (true, [[.integer 1, .integer 2], [.integer 0, .integer 1]]) := by
    decide +kernel
  obtain ⟨q, hq, hvalues⟩ := Option.bind_eq_some_iff.mp hruns
  obtain ⟨answer, hanswer, hvalues⟩ := Option.map_eq_some_iff.mp hvalues
  obtain ⟨hagg, hrows⟩ := Prod.ext_iff.mp hvalues
  have hrun := toOption_eq_some.mp hanswer
  obtain ⟨kept, vectors, -, -, -, hvectors, -, -, hsum, -, -⟩ := execute_groups hagg hrun
  exact ⟨q, answer, kept, vectors, toOption_eq_some.mp hq, hagg, hrun, hrows, hvectors, hsum⟩

/-- Two sums of constants with one text. -/
def confusedSums : Query Binary64 where
  select := [⟨.aggregate .sum (.literal ⟨.integer 1, "1"⟩), none⟩,
    ⟨.aggregate .sum (.literal ⟨.integer 2, "1"⟩), none⟩]
  relations := [.table ⟨"t"⟩ none]
  selection := none
  groupBy := []
  having := none
  orderBy := []
  limit := none

/-- **Constants are confused** when they have one text.  Of two sums the second is given as the first,
although an accumulator fed with its own argument gives another value. -/
theorem execute_confuses_constants :
    ∃ scope answer state, confusedSums.bind (integerDataset Binary64 [1, 2]).catalog = .ok scope ∧
      confusedSums.isAggregate = true ∧
      confusedSums.execute ["t"] ["x"] [[.integer 1], [.integer 2]] = .ok answer ∧
      answer.rows = [[.integer 2, .integer 2]] ∧
      confusedSums.select[1]? = some ⟨.aggregate .sum (.literal ⟨.integer 2, "1"⟩), none⟩ ∧
      aggregateRun (.aggregate .sum (.literal ⟨.integer 2, "1"⟩))
        ([[.integer 1], [.integer 2]].map (rowBindings (N := Binary64) ["t"] ["x"])) = .ok state ∧
      state.result = .integer 4 := by
  have hbound : (confusedSums.bind (integerDataset Binary64 [1, 2]).catalog).toOption.isSome := by
    decide +kernel
  have hruns : (confusedSums.execute ["t"] ["x"] [[.integer 1], [.integer 2]]).toOption.map
      (·.rows) = some [[.integer 2, .integer 2]] := by
    decide +kernel
  have hsum : (aggregateRun (.aggregate .sum (.literal ⟨.integer 2, "1"⟩))
      ([[.integer 1], [.integer 2]].map (rowBindings (N := Binary64) ["t"] ["x"]))).toOption.map
        Accumulator.result = some (.integer 4) := by
    decide +kernel
  obtain ⟨scope, hscope⟩ := Option.isSome_iff_exists.mp hbound
  obtain ⟨answer, hanswer, hrows⟩ := Option.map_eq_some_iff.mp hruns
  obtain ⟨state, hstate, hresult⟩ := Option.map_eq_some_iff.mp hsum
  exact ⟨scope, answer, state, toOption_eq_some.mp hscope, rfl, toOption_eq_some.mp hanswer, hrows,
    rfl, toOption_eq_some.mp hstate, hresult⟩

end Query

end PrivateSql
