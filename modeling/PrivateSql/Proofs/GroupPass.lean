import Mathlib.Data.List.Nodup
import PrivateSql.Execution.Grouping
import PrivateSql.Proofs.Replacement
import PrivateSql.Proofs.QueryParts
/-!
# The pass that puts rows together

Rows are put together in one pass that keeps, for each group, its key and one accumulator for each
aggregate.  The invariant of the pass ties all of it to the rows seen so far: the keys of the groups
are different, every row has its group, and the accumulators of a group are those of its rows alone,
fed in their order.

* `aggregateRun`, `aggregateRun_eq_ok` — an accumulator fed with some rows, that is with the values of
  its argument on them;
* `addRow_cases` — what one more row does to the groups;
* `Grouped`, `Grouped.addRow`, `groupRows_grouped` — the invariant, that every row keeps it, and that
  the pass establishes it;
* `queryGroups_cases` — the groups of a query, one of them also without rows;
* `Group.find?_aggregates`, `Group.replace_eq_self` — aggregates give way to their values, and nothing
  else does;
* `heads_of_groupRows`, `heads_of_queryGroups` — the keys and the first rows of the groups do not
  depend on the aggregates;
* `Group.Of`, `group_of_mem` — what the groups of a query are.
-/

namespace PrivateSql

variable {N : Type} [Number N]

/-! ## Accumulators fed with rows -/

/-- One more row for the accumulator of an aggregate. -/
def feed (a : Expr N) (state : Accumulator N) (b : Bindings N) :
    Except QueryError (Accumulator N) := do
  let v ← aggregateInput b a
  state.update v

/-- The accumulator of an aggregate before the first row. -/
def emptyState (a : Expr N) : Accumulator N := Accumulator.fresh (a.function?.getD .count)

/-- The accumulator of an aggregate fed with some rows, in their order. -/
def aggregateRun (a : Expr N) (rows : List (Bindings N)) : Except QueryError (Accumulator N) :=
  rows.foldlM (feed a) (emptyState a)

theorem aggregateRun_append (a : Expr N) (rows rows' : List (Bindings N)) :
    aggregateRun a (rows ++ rows') =
      (aggregateRun a rows >>= fun state => rows'.foldlM (feed a) state) := by
  rw [aggregateRun, List.foldlM_append]
  rfl

/-- The values that an aggregate is fed with. -/
def inputsOf (a : Expr N) (rows : List (Bindings N)) : Except QueryError (List (Value N)) :=
  rows.mapM fun b => aggregateInput b a

theorem feeds_eq_ok {a : Expr N} {rows : List (Bindings N)} {state state' : Accumulator N} :
    rows.foldlM (feed a) state = .ok state' ↔
      ∃ vs, inputsOf a rows = .ok vs ∧ state.updateAll vs = .ok state' := by
  induction rows generalizing state with
  | nil => simp [inputsOf, Accumulator.updateAll, pure, Except.pure]
  | cons b rows ih =>
      rw [List.foldlM_cons, inputsOf, List.mapM_cons]
      constructor
      · intro h
        obtain ⟨next, hnext, h⟩ := bind_eq_ok.mp h
        obtain ⟨v, hv, hupdate⟩ := bind_eq_ok.mp hnext
        obtain ⟨vs, hvs, hrest⟩ := ih.mp h
        rw [inputsOf] at hvs
        refine ⟨v :: vs, by rw [hv, ok_bind, hvs]; rfl, ?_⟩
        rw [Accumulator.updateAll, List.foldlM_cons, hupdate]
        exact hrest
      · rintro ⟨values, hvalues, h⟩
        obtain ⟨v, hv, hvalues⟩ := bind_eq_ok.mp hvalues
        obtain ⟨vs, hvs, hvalues⟩ := bind_eq_ok.mp hvalues
        cases hvalues
        rw [Accumulator.updateAll, List.foldlM_cons] at h
        obtain ⟨next, hnext, h⟩ := bind_eq_ok.mp h
        have hfed : feed a state b = .ok next := by rw [feed, hv, ok_bind, hnext]
        rw [hfed, ok_bind]
        exact ih.mpr ⟨vs, hvs, h⟩

/-- **Runs over rows and over values.**  An aggregate is run over some rows by evaluating its argument
on each of them and feeding the values. -/
theorem aggregateRun_eq_ok {a : Expr N} {rows : List (Bindings N)} {state : Accumulator N} :
    aggregateRun a rows = .ok state ↔
      ∃ vs, inputsOf a rows = .ok vs ∧ (emptyState a).updateAll vs = .ok state := feeds_eq_ok

/-- A count counts the values that are there. -/
theorem Accumulator.updateAll_count (n : Nat) (vs : List (Value N)) :
    (Accumulator.count n).updateAll vs = .ok (.count (n + vs.countP fun v => !v.isNull)) := by
  unfold updateAll
  induction vs generalizing n with
  | nil => rfl
  | cons v vs ih =>
      rw [List.foldlM_cons, update, ok_bind, ih, List.countP_cons]
      cases v.isNull
      · simp only [Bool.false_eq_true, if_false, Bool.not_false, if_true]
        rw [Nat.add_right_comm, Nat.add_assoc]
      · simp

/-- The accumulators of some aggregates fed with some rows, if none of them fails. -/
def statesOf (aggregates : List (Expr N)) (rows : List (Bindings N)) :
    Except QueryError (List (Accumulator N)) :=
  aggregates.mapM fun a => aggregateRun a rows

/-- Accumulators fed with some rows and then with one more. -/
theorem statesOf_append {aggregates : List (Expr N)} {rows : List (Bindings N)} {b : Bindings N}
    {states states' : List (Accumulator N)} (hstates : statesOf aggregates rows = .ok states)
    (h : Group.updateStates b aggregates states = .ok states') :
    statesOf aggregates (rows ++ [b]) = .ok states' := by
  induction aggregates generalizing states states' with
  | nil =>
      cases hstates
      cases h
      rfl
  | cons a aggregates ih =>
      rw [statesOf, List.mapM_cons] at hstates
      obtain ⟨state, hstate, hstates⟩ := bind_eq_ok.mp hstates
      obtain ⟨rest, hrest, hstates⟩ := bind_eq_ok.mp hstates
      cases hstates
      obtain ⟨v, hv, h⟩ := bind_eq_ok.mp h
      obtain ⟨state', hstate', h⟩ := bind_eq_ok.mp h
      obtain ⟨rest', hrest', h⟩ := bind_eq_ok.mp h
      cases h
      have hfed : aggregateRun a (rows ++ [b]) = .ok state' := by
        rw [aggregateRun_append, hstate]
        simp [feed, hv, hstate']
      have htail : statesOf aggregates (rows ++ [b]) = .ok rest' := ih hrest hrest'
      rw [statesOf] at htail
      rw [statesOf, List.mapM_cons, hfed, htail]
      rfl

/-- Accumulators before the first row, one for each aggregate. -/
theorem statesOf_nil {aggregates : List (Expr N)} (h : ∀ a ∈ aggregates, a.isAggregate = true) :
    statesOf aggregates ([] : List (Bindings N)) =
      .ok (aggregates.filterMap fun e => e.function?.map Accumulator.fresh) := by
  induction aggregates with
  | nil => rfl
  | cons a aggregates ih =>
      have htail := ih fun a' ha' => h a' (List.mem_cons_of_mem _ ha')
      have hfunction : ∃ f, a.function? = some f := by
        have haggregate := h a List.mem_cons_self
        cases a with
        | aggregate f e => exact ⟨f, rfl⟩
        | aggregateRows f => exact ⟨f, rfl⟩
        | _ => cases haggregate
      obtain ⟨f, hf⟩ := hfunction
      rw [statesOf] at htail
      rw [statesOf, List.mapM_cons, htail]
      simp [aggregateRun, emptyState, hf, pure, Except.pure]

/-! ## One more row -/

/-- **What one more row does.**  It updates the group with its key, or makes a new group at the end
when there is none. -/
theorem addRow_cases {aggregates : List (Expr N)} {b : Bindings N} {key : List (Value N)}
    {groups groups' : List (Group N)} (h : addRow aggregates b key groups = .ok groups') :
    (∃ before g after g', groups = before ++ g :: after ∧ g.key = key ∧
        g.update aggregates b = .ok g' ∧ groups' = before ++ g' :: after) ∨
      ((∀ g ∈ groups, g.key ≠ key) ∧ ∃ g', (Group.fresh aggregates key b).update aggregates b = .ok g' ∧
        groups' = groups ++ [g']) := by
  induction groups generalizing groups' with
  | nil =>
      obtain ⟨g', hg', h⟩ := bind_eq_ok.mp h
      cases h
      exact .inr ⟨by simp, g', hg', rfl⟩
  | cons g groups ih =>
      unfold addRow at h
      split at h
      · rename_i hkey
        obtain ⟨g', hg', h⟩ := bind_eq_ok.mp h
        cases h
        exact .inl ⟨[], g, groups, g', rfl, hkey, hg', rfl⟩
      · rename_i hkey
        obtain ⟨rest, hrest, h⟩ := bind_eq_ok.mp h
        cases h
        rcases ih hrest with ⟨before, g₀, after, g', rfl, hg₀, hg', rfl⟩ | ⟨hnew, g', hg', rfl⟩
        · exact .inl ⟨g :: before, g₀, after, g', rfl, hg₀, hg', rfl⟩
        · refine .inr ⟨?_, g', hg', rfl⟩
          intro g₀ hg₀
          rcases List.mem_cons.mp hg₀ with rfl | htail
          · exact hkey
          · exact hnew g₀ htail

/-- A group that is updated keeps its key and its first row. -/
theorem update_eq_ok {aggregates : List (Expr N)} {b : Bindings N} {g g' : Group N} :
    g.update aggregates b = .ok g' ↔ ∃ states, Group.updateStates b aggregates g.states = .ok states ∧
      g' = ⟨g.key, g.bindings, states⟩ := by
  rw [Group.update, bind_eq_ok]
  constructor
  · rintro ⟨states, hstates, h⟩
    cases h
    exact ⟨states, hstates, rfl⟩
  · rintro ⟨states, hstates, rfl⟩
    exact ⟨states, hstates, rfl⟩

/-! ## The invariant of the pass -/

/-- The rows whose keys have these values. -/
def rowsWithKey (keys : List (Expr N)) (key : List (Value N)) (rows : List (Bindings N)) :
    List (Bindings N) :=
  rows.filter fun b => decide ((cells b keys).toOption = some key)

theorem mem_rowsWithKey {keys : List (Expr N)} {key : List (Value N)} {rows : List (Bindings N)}
    {b : Bindings N} : b ∈ rowsWithKey keys key rows ↔ b ∈ rows ∧ cells b keys = .ok key := by
  simp [rowsWithKey, toOption_eq_some]

/-- **The invariant of the pass.**  The groups have different keys, every row is in one of them, and
each group has the accumulators of its own rows, and the columns of one of them. -/
structure Grouped (keys aggregates : List (Expr N)) (rows : List (Bindings N))
    (groups : List (Group N)) : Prop where
  keys_nodup : (groups.map (·.key)).Nodup
  covered : ∀ b ∈ rows, ∃ g ∈ groups, cells b keys = .ok g.key
  head : ∀ g ∈ groups, g.bindings ∈ rowsWithKey keys g.key rows
  states : ∀ g ∈ groups, statesOf aggregates (rowsWithKey keys g.key rows) = .ok g.states

/-- One more row changes the rows of its key only. -/
theorem rowsWithKey_append {keys : List (Expr N)} {key : List (Value N)}
    {rows : List (Bindings N)} {b : Bindings N} {k : List (Value N)} (h : cells b keys = .ok k) :
    rowsWithKey keys key (rows ++ [b]) =
      rowsWithKey keys key rows ++ if k = key then [b] else [] := by
  by_cases hkey : k = key
  · simp [rowsWithKey, h, hkey, Except.toOption]
  · simp [rowsWithKey, h, hkey, Except.toOption]

section Steps

variable {keys aggregates : List (Expr N)} {rows : List (Bindings N)} {groups : List (Group N)}
variable {b : Bindings N} {key : List (Value N)}

/-- A group with another key is not touched by a row. -/
theorem Grouped.other (hinv : Grouped keys aggregates rows groups) (hkey : cells b keys = .ok key)
    {g : Group N} (hg : g ∈ groups) (hne : g.key ≠ key) :
    g.bindings ∈ rowsWithKey keys g.key (rows ++ [b]) ∧
      statesOf aggregates (rowsWithKey keys g.key (rows ++ [b])) = .ok g.states := by
  have hrows : rowsWithKey keys g.key (rows ++ [b]) = rowsWithKey keys g.key rows := by
    rw [rowsWithKey_append hkey, if_neg hne.symm, List.append_nil]
  rw [hrows]
  exact ⟨hinv.head g hg, hinv.states g hg⟩

/-- A row updates the group with its key. -/
theorem Grouped.update {before after : List (Group N)} {g : Group N}
    {states : List (Accumulator N)} (hinv : Grouped keys aggregates rows (before ++ g :: after))
    (hkey : cells b keys = .ok g.key)
    (hstates : Group.updateStates b aggregates g.states = .ok states) :
    Grouped keys aggregates (rows ++ [b]) (before ++ ⟨g.key, g.bindings, states⟩ :: after) := by
  have hg : g ∈ before ++ g :: after := List.mem_append_right _ List.mem_cons_self
  have hnodup := hinv.keys_nodup
  have hrows : rowsWithKey keys g.key (rows ++ [b]) = rowsWithKey keys g.key rows ++ [b] := by
    rw [rowsWithKey_append hkey, if_pos rfl]
  have hne : ∀ x ∈ before ++ after, x.key ≠ g.key := by
    intro x hx heq
    rw [List.map_append, List.map_cons, List.nodup_middle, List.nodup_cons] at hnodup
    refine hnodup.1 ?_
    rw [← heq, ← List.map_append]
    exact List.mem_map_of_mem hx
  -- The updated group is told apart from the others, which have other keys.
  have hcases : ∀ x ∈ before ++ (⟨g.key, g.bindings, states⟩ : Group N) :: after,
      x = ⟨g.key, g.bindings, states⟩ ∨ (x ∈ before ++ g :: after ∧ x.key ≠ g.key) := by
    intro x hx
    rcases List.mem_append.mp hx with hbefore | hx
    · exact .inr ⟨List.mem_append_left _ hbefore, hne x (List.mem_append_left _ hbefore)⟩
    · rcases List.mem_cons.mp hx with rfl | hafter
      · exact .inl rfl
      · exact .inr ⟨List.mem_append_right _ (List.mem_cons_of_mem _ hafter),
          hne x (List.mem_append_right _ hafter)⟩
  refine ⟨by simpa using hnodup, ?_, ?_, ?_⟩
  · intro x hx
    rcases List.mem_append.mp hx with hold | hlast
    · obtain ⟨g₀, hg₀, hcells⟩ := hinv.covered x hold
      rcases List.mem_append.mp hg₀ with hbefore | hrest
      · exact ⟨g₀, List.mem_append_left _ hbefore, hcells⟩
      · rcases List.mem_cons.mp hrest with rfl | hafter
        · exact ⟨⟨g₀.key, g₀.bindings, states⟩, List.mem_append_right _ List.mem_cons_self, hcells⟩
        · exact ⟨g₀, List.mem_append_right _ (List.mem_cons_of_mem _ hafter), hcells⟩
    · obtain rfl := List.mem_singleton.mp hlast
      exact ⟨⟨g.key, g.bindings, states⟩, List.mem_append_right _ List.mem_cons_self, hkey⟩
  · intro x hx
    rcases hcases x hx with rfl | ⟨hmem, hxkey⟩
    · rw [hrows]
      exact List.mem_append_left _ (hinv.head g hg)
    · exact (hinv.other hkey hmem hxkey).1
  · intro x hx
    rcases hcases x hx with rfl | ⟨hmem, hxkey⟩
    · rw [hrows]
      exact statesOf_append (hinv.states g hg) hstates
    · exact (hinv.other hkey hmem hxkey).2

/-- A row with a new key makes a group of its own. -/
theorem Grouped.fresh {states : List (Accumulator N)}
    (hinv : Grouped keys aggregates rows groups)
    (haggregates : ∀ a ∈ aggregates, a.isAggregate = true) (hkey : cells b keys = .ok key)
    (hnew : ∀ g ∈ groups, g.key ≠ key)
    (hstates : Group.updateStates b aggregates (Group.fresh aggregates key b).states = .ok states) :
    Grouped keys aggregates (rows ++ [b]) (groups ++ [⟨key, b, states⟩]) := by
  have hnone : rowsWithKey keys key rows = [] := by
    rw [rowsWithKey, List.filter_eq_nil_iff]
    intro x hx
    obtain ⟨g, hg, hcells⟩ := hinv.covered x hx
    simpa [hcells, Except.toOption] using hnew g hg
  have hrows : rowsWithKey keys key (rows ++ [b]) = [b] := by
    rw [rowsWithKey_append hkey, hnone, if_pos rfl]
    rfl
  refine ⟨?_, ?_, ?_, ?_⟩
  · rw [List.map_append, List.nodup_append]
    refine ⟨hinv.keys_nodup, by simp, ?_⟩
    intro k hk k' hk'
    obtain ⟨g, hg, rfl⟩ := List.mem_map.mp hk
    obtain rfl : k' = key := by simpa using hk'
    exact hnew g hg
  · intro x hx
    rcases List.mem_append.mp hx with hold | hlast
    · obtain ⟨g, hg, hcells⟩ := hinv.covered x hold
      exact ⟨g, List.mem_append_left _ hg, hcells⟩
    · obtain rfl := List.mem_singleton.mp hlast
      exact ⟨_, List.mem_append_right _ (List.mem_singleton_self _), hkey⟩
  · intro x hx
    rcases List.mem_append.mp hx with hold | hlast
    · exact (hinv.other hkey hold (hnew x hold)).1
    · obtain rfl := List.mem_singleton.mp hlast
      rw [hrows]
      exact List.mem_singleton_self b
  · intro x hx
    rcases List.mem_append.mp hx with hold | hlast
    · exact (hinv.other hkey hold (hnew x hold)).2
    · obtain rfl := List.mem_singleton.mp hlast
      have hfed := statesOf_append (statesOf_nil haggregates) hstates
      rw [hrows]
      exact hfed

/-- **Every row keeps the invariant.** -/
theorem Grouped.addRow {groups' : List (Group N)} (hinv : Grouped keys aggregates rows groups)
    (haggregates : ∀ a ∈ aggregates, a.isAggregate = true) (hkey : cells b keys = .ok key)
    (h : PrivateSql.addRow aggregates b key groups = .ok groups') :
    Grouped keys aggregates (rows ++ [b]) groups' := by
  rcases addRow_cases h with ⟨before, g, after, g', rfl, hgkey, hupdate, rfl⟩ |
    ⟨hnew, g', hupdate, rfl⟩
  · obtain ⟨states, hstates, rfl⟩ := update_eq_ok.mp hupdate
    exact hinv.update (hgkey ▸ hkey) hstates
  · obtain ⟨states, hstates, rfl⟩ := update_eq_ok.mp hupdate
    exact hinv.fresh haggregates hkey hnew hstates

end Steps

/-- **The pass establishes its invariant.** -/
theorem groupRows_grouped {keys aggregates : List (Expr N)} {rows : List (Bindings N)}
    {groups : List (Group N)} (haggregates : ∀ a ∈ aggregates, a.isAggregate = true)
    (h : groupRows keys aggregates rows = .ok groups) : Grouped keys aggregates rows groups := by
  have hstep : ∀ (done : List (Bindings N)) b groups groups', Grouped keys aggregates done groups →
      (do let key ← cells b keys; addRow aggregates b key groups) = .ok groups' →
      Grouped keys aggregates (done ++ [b]) groups' := by
    intro done b groups groups' hinv hadd
    obtain ⟨key, hkey, hadd⟩ := bind_eq_ok.mp hadd
    exact hinv.addRow haggregates hkey hadd
  have hstart : Grouped keys aggregates ([] : List (Bindings N)) [] :=
    ⟨.nil, by simp, by simp, by simp⟩
  rw [groupRows] at h
  exact @foldlM_invariant _ _ _ _ (Grouped keys aggregates) hstep rows [] [] groups hstart h

/-! ## The groups of a query -/

omit [Number N] in
theorem isAggregate_of_mem {q : Query N} {a : Expr N} (h : a ∈ q.aggregates) :
    a.isAggregate = true := by
  obtain ⟨e, -, ha⟩ := List.mem_flatMap.mp (Query.mem_of_mem_distinct h)
  exact Expr.isAggregate_of_mem_aggregates ha

/-- **The groups of a query.**  They are those of the pass; without keys and without rows there is
one group all the same. -/
theorem queryGroups_cases {q : Query N} {rows : List (Bindings N)} {groups : List (Group N)}
    (h : queryGroups q rows = .ok groups) :
    Grouped q.groupBy q.aggregates rows groups ∧ groupRows q.groupBy q.aggregates rows = .ok groups ∨
      rows = [] ∧ q.groupBy = [] ∧ groups = [Group.fresh q.aggregates [] PathMap.empty] := by
  obtain ⟨passed, hpassed, h⟩ := bind_eq_ok.mp h
  have hgrouped := groupRows_grouped (fun a ha => isAggregate_of_mem ha) hpassed
  split at h
  · rename_i hempty
    obtain ⟨hnone, hkeys⟩ : passed = [] ∧ q.groupBy = [] := by simpa using hempty
    cases h
    refine .inr ⟨?_, hkeys, rfl⟩
    cases rows with
    | nil => rfl
    | cons b rows =>
        obtain ⟨g, hg, -⟩ := hgrouped.covered b List.mem_cons_self
        rw [hnone] at hg
        cases hg
  · cases h
    exact .inl ⟨hgrouped, hpassed⟩

/-- What stands for an aggregate of a group is the value of one of the same tree. -/
theorem Group.find?_aggregates {aggregates : List (Expr N)} {g : Group N} {t r : Expr N}
    (h : (g.aggregates aggregates).find? t = some r) :
    ∃ p ∈ aggregates.zip g.states, p.1.tree = t.tree ∧ r = .ofValue p.2.result := by
  rcases Substitution.find?_insertMany h with ⟨p, hp, htree, hr⟩ | hempty
  · obtain ⟨p, hmem, rfl⟩ := List.mem_map.mp hp
    exact ⟨p, hmem, htree, hr.symm⟩
  · cases hempty

/-- Every aggregate of a group has a value. -/
theorem Group.isSome_find?_aggregates {aggregates : List (Expr N)} {g : Group N}
    {rows : List (Bindings N)} {a t : Expr N} (hstates : statesOf aggregates rows = .ok g.states)
    (ha : a ∈ aggregates) (htree : a.tree = t.tree) :
    ((g.aggregates aggregates).find? t).isSome := by
  obtain ⟨state, hzip, -⟩ := exists_result_of_mem hstates ha
  exact Substitution.isSome_find?_insertMany (List.mem_map_of_mem hzip) htree

/-- Only aggregates give way to values. -/
theorem Group.find?_eq_none {aggregates : List (Expr N)} {g : Group N} {t : Expr N}
    (haggregates : ∀ a ∈ aggregates, a.isAggregate = true) (hnot : t.isAggregate = false) :
    (g.aggregates aggregates).find? t = none := by
  rw [Option.eq_none_iff_forall_ne_some]
  intro r hr
  obtain ⟨p, hp, htree, -⟩ := Group.find?_aggregates hr
  have haggregate := Expr.isAggregate_of_tree htree (haggregates p.1 (List.of_mem_zip hp).1)
  rw [haggregate] at hnot
  cases hnot

/-- An expression without aggregates stays as it is. -/
theorem Group.replace_eq_self {aggregates : List (Expr N)} {g : Group N} {e : Expr N}
    (haggregates : ∀ a ∈ aggregates, a.isAggregate = true) (hnone : e.aggregates = []) :
    e.replace (g.aggregates aggregates) = e := by
  apply Expr.replace_eq_self
  intro t ht
  refine Group.find?_eq_none haggregates ?_
  have hnot := List.filter_eq_nil_iff.mp hnone t ht
  simpa using hnot

/-! ## The heads of the groups -/

/-- A group without its accumulators. -/
def Group.head (g : Group N) : Group N := ⟨g.key, g.bindings, []⟩

theorem head_addRow {aggregates : List (Expr N)} {b : Bindings N} {key : List (Value N)}
    {groups groups' : List (Group N)} (h : addRow aggregates b key groups = .ok groups') :
    addRow [] b key (groups.map Group.head) = .ok (groups'.map Group.head) := by
  induction groups generalizing groups' with
  | nil =>
      obtain ⟨g', hg', h⟩ := bind_eq_ok.mp h
      cases h
      obtain ⟨states, -, rfl⟩ := update_eq_ok.mp hg'
      rfl
  | cons g groups ih =>
      rw [addRow] at h
      rw [List.map_cons, addRow]
      by_cases hkey : g.key = key
      · rw [if_pos hkey] at h
        obtain ⟨g', hg', h⟩ := bind_eq_ok.mp h
        cases h
        obtain ⟨states, -, rfl⟩ := update_eq_ok.mp hg'
        have hhead : g.head.key = key := hkey
        rw [if_pos hhead]
        rfl
      · rw [if_neg hkey] at h
        obtain ⟨rest, hrest, h⟩ := bind_eq_ok.mp h
        cases h
        have hhead : ¬ g.head.key = key := hkey
        rw [if_neg hhead, ih hrest]
        rfl

/-- **Heads do not depend on aggregates.**  Which groups there are, in which order and with which
columns, is the same for any aggregates that do not fail. -/
theorem heads_of_groupRows {keys aggregates : List (Expr N)} {rows : List (Bindings N)}
    {groups : List (Group N)} (h : groupRows keys aggregates rows = .ok groups) :
    groupRows keys [] rows = .ok (groups.map Group.head) := by
  have hsteps : ∀ (rows : List (Bindings N)) (start groups : List (Group N)),
      rows.foldlM (fun groups b => do
        let key ← cells b keys
        addRow aggregates b key groups) start = .ok groups →
      rows.foldlM (fun groups b => do
        let key ← cells b keys
        addRow [] b key groups) (start.map Group.head) = .ok (groups.map Group.head) := by
    intro rows
    induction rows with
    | nil =>
        intro start groups h
        cases h
        rfl
    | cons b rows ih =>
        intro start groups h
        rw [List.foldlM_cons] at h
        obtain ⟨next, hnext, h⟩ := bind_eq_ok.mp h
        obtain ⟨key, hkey, hadd⟩ := bind_eq_ok.mp hnext
        rw [List.foldlM_cons, hkey, ok_bind, head_addRow hadd, ok_bind]
        exact ih next groups h
  exact hsteps rows [] groups h

/-- Two queries with the same keys put the same rows into the same groups. -/
theorem heads_of_queryGroups {q q' : Query N} {rows : List (Bindings N)}
    {groups groups' : List (Group N)} (hkeys : q.groupBy = q'.groupBy)
    (h : queryGroups q rows = .ok groups) (h' : queryGroups q' rows = .ok groups') :
    groups.map Group.head = groups'.map Group.head := by
  obtain ⟨passed, hpassed, h⟩ := bind_eq_ok.mp h
  obtain ⟨passed', hpassed', h'⟩ := bind_eq_ok.mp h'
  have hheads := heads_of_groupRows hpassed
  rw [hkeys, heads_of_groupRows hpassed', Except.ok.injEq] at hheads
  have hempty : passed.isEmpty = passed'.isEmpty := by
    have hlength := congrArg List.length hheads
    rw [List.length_map, List.length_map] at hlength
    rw [Bool.eq_iff_iff, List.isEmpty_iff_length_eq_zero, List.isEmpty_iff_length_eq_zero, hlength]
  rw [hempty, hkeys] at h
  split at h
  · rename_i hnone
    rw [if_pos hnone] at h'
    cases h
    cases h'
    rfl
  · rename_i hsome
    rw [if_neg hsome] at h'
    cases h
    cases h'
    exact hheads.symm

/-- **A group of some rows.**  Its accumulators are those of the rows with its key, its key is that of
the row whose columns it has; without keys it may have no row. -/
structure Group.Of (keys aggregates : List (Expr N)) (rows : List (Bindings N)) (g : Group N) :
    Prop where
  states : statesOf aggregates (rowsWithKey keys g.key rows) = .ok g.states
  key : cells g.bindings keys = .ok g.key
  row : g.bindings ∈ rows ∨ keys = []

/-- The groups of a query are groups of its rows. -/
theorem group_of_mem {q : Query N} {rows : List (Bindings N)} {groups : List (Group N)}
    (h : queryGroups q rows = .ok groups) {g : Group N} (hg : g ∈ groups) :
    g.Of q.groupBy q.aggregates rows := by
  rcases queryGroups_cases h with ⟨hgrouped, -⟩ | ⟨rfl, hkeys, rfl⟩
  · obtain ⟨hrow, hkey⟩ := mem_rowsWithKey.mp (hgrouped.head g hg)
    exact ⟨hgrouped.states g hg, hkey, .inl hrow⟩
  · obtain rfl := List.mem_singleton.mp hg
    rw [hkeys]
    exact ⟨statesOf_nil fun a ha => isAggregate_of_mem ha, rfl, .inr rfl⟩

end PrivateSql
