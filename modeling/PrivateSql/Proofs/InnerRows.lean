import PrivateSql.Proofs.ExecutionParts
import PrivateSql.Proofs.GroupPass
import PrivateSql.Proofs.OuterBinding
import PrivateSql.Proofs.WrittenConstants
/-!
# The rows of the inner query

The inner query gives one row for each group: the values of its keys and of its raw aggregates.  The
outer query finds each of them by its generated name.  A name is a hash, so this needs that columns of
one name hold the same expression; and expressions are told apart by their trees, so it needs that
their constants are as they are written.

* `Group.Of.find?_aggregates` — the aggregates of a group are replaced by their values;
* `Dataset.rows_of_run` — the rows of a query that only puts rows together;
* `Query.find_output` — an output of such a query is found by its name;
* `Plan.mem_rawAggregates`, `Plan.exists_inner_aggregate` — all that a recombination needs is there.
-/

namespace PrivateSql

variable {N : Type} [Number N]

/-! ## What recombinations are made of -/

namespace Recombination

theorem written_square {e : Expr N} (h : e.Written) : (square e).Written := by
  cases e with
  | binary l op r => exact (Expr.Written.nested h).binary "*" (Expr.Written.nested h)
  | _ => exact Expr.Written.binary h "*" h

/-- The raw aggregates of a written aggregate are written. -/
theorem raw_written {a : Expr N} {r : Recombination N} (h : Recombination.of a = .ok r)
    (ha : a.Written) : ∀ e ∈ r.raw, e.Written := by
  cases a with
  | aggregate f e =>
      have hsquare : (square e).Written := written_square ha
      have hany : ∀ g, (Expr.aggregate g e).Written := fun _ => ha
      have hsum : (Expr.aggregate .sum (square e)).Written := hsquare
      cases f with
      | count | sum | min | max | mean | variance | deviation =>
          cases h
          simp [ofRaw, hany, hsum]
  | aggregateRows f =>
      rw [Recombination.of] at h
      split at h
      · cases h
        simpa [ofRaw] using ha
      · cases h
  | _ => cases h

omit [Number N] in
/-- Every raw aggregate is read by the formula, and there is one. -/
theorem reads_raw {a : Expr N} {r : Recombination N} (h : Recombination.of a = .ok r) :
    r.raw ≠ [] ∧ ∀ e ∈ r.raw, ⟨e.columnName⟩ ∈ r.formula.columns := by
  cases a with
  | aggregate f e =>
      cases f with
      | count | sum | min | max =>
          cases h
          simp [ofRaw, Expr.ofColumn]
      | mean | variance | deviation =>
          cases h
          simp [varianceFormula, meanFormula, Expr.ofColumn, Expr.ofCall]
  | aggregateRows f =>
      rw [Recombination.of] at h
      split at h
      · cases h
        simp [ofRaw, Expr.ofColumn]
      · cases h
  | _ => cases h

end Recombination

/-! ## The values of a group -/

section Groups

variable {keys aggregates : List (Expr N)} {rows : List (Bindings N)} {g : Group N}

/-- **An aggregate gives way to its value.** -/
theorem Group.Of.find?_aggregates (h : g.Of keys aggregates rows)
    (hwritten : ∀ a ∈ aggregates, a.Written) {t : Expr N} (ht : t.Written)
    (hmem : ∃ a ∈ aggregates, a.tree = t.tree) :
    ∃ state, aggregateRun t (rowsWithKey keys g.key rows) = .ok state ∧
      (g.aggregates aggregates).find? t = some (.ofValue state.result) := by
  obtain ⟨a, ha, htree⟩ := hmem
  obtain ⟨r, hr⟩ := Option.isSome_iff_exists.mp (Group.isSome_find?_aggregates h.states ha htree)
  obtain ⟨p, hp, htree', rfl⟩ := Group.find?_aggregates hr
  have hsame : p.1 = t := (hwritten p.1 (List.of_mem_zip hp).1).eq_of_tree ht htree'
  have hstate : aggregateRun p.1 (rowsWithKey keys g.key rows) = .ok p.2 :=
    eq_ok_of_mem_zip (f := fun a => aggregateRun a (rowsWithKey keys g.key rows)) h.states hp
  exact ⟨p.2, hsame ▸ hstate, hr⟩

end Groups

/-! ## Queries that only put rows together -/

omit [Number N] in
/-- Sorting elements that are all equal leaves them as they are. -/
theorem stableSort_eq_self {α : Type} {compare : α → α → Ordering} (h : ∀ a b, compare a b = .eq)
    (l : List α) : stableSort compare l = l := by
  have hfold : ∀ acc : List α,
      l.foldl (fun sorted a => insertDescending compare a sorted) acc = l.reverse ++ acc := by
    induction l with
    | nil => intro acc; rfl
    | cons a l ih =>
        intro acc
        have hinsert : insertDescending compare a acc = a :: acc := by
          cases acc with
          | nil => rfl
          | cons b rest => simp [insertDescending, h]
        rw [List.foldl_cons, ih, hinsert]
        simp
  rw [stableSort, hfold, List.append_nil, List.reverse_reverse]

/-- Without ordering and limit, the rows are given as they come. -/
theorem Query.arrange_of_plain {q : Query N} (horder : q.orderBy = []) (hlimit : q.limit = none)
    (outputs : List (OutputRow N)) : q.arrange outputs = ⟨q.names, outputs.map (·.values)⟩ := by
  simp [arrange, horder, rowLimit, hlimit, stableSort_eq_self, compareKeys]

/-- Without a second condition and without ordering, the outputs of a source are its cells. -/
theorem Query.outputRow_of_plain {q : Query N} (hhaving : q.having = none) (horder : q.orderBy = [])
    {b : Bindings N} {s : Substitution N} {row : Option (OutputRow N)}
    (h : q.outputRow b s = .ok row) :
    ∃ values, cells b (q.select.map fun item => item.expr.replace s) = .ok values ∧
      row = some ⟨values, []⟩ := by
  obtain ⟨values, hvalues, h⟩ := bind_eq_ok.mp h
  simp only [hhaving, horder, Option.map_none, satisfies, List.map_nil, ok_bind, if_true] at h
  cases h
  exact ⟨values, hvalues, rfl⟩

/-- **The rows of a query that only puts rows together.**  There is one for each group, with the values
of what is selected. -/
theorem Dataset.rows_of_run {d : Dataset N} {q : Query N} {answer : Rowset N}
    (hagg : q.isAggregate = true) (hhaving : q.having = none) (horder : q.orderBy = [])
    (hlimit : q.limit = none) (h : d.run q = .ok answer) :
    ∃ kept groups, d.rowsRead q = .ok kept ∧ queryGroups q kept = .ok groups ∧
      List.Forall₂ (fun g values => cells g.bindings (q.select.map fun item =>
        item.expr.replace (g.aggregates q.aggregates)) = .ok values) groups answer.rows := by
  obtain ⟨_, kept, sources, outputs, -, hkept, hsources, houtputs, rfl⟩ := run_eq_arrange.mp h
  rw [Query.sources, if_pos hagg] at hsources
  obtain ⟨groups, hgroups, hsources⟩ := bind_eq_ok.mp hsources
  cases hsources
  refine ⟨kept, groups, hkept, hgroups, ?_⟩
  rw [Query.arrange_of_plain horder hlimit]
  have hvalues : ∀ {gs : List (Group N)} {rows : List (Option (OutputRow N))},
      List.Forall₂ (fun g row => q.outputRow g.bindings (g.aggregates q.aggregates) = .ok row)
        gs rows →
      List.Forall₂ (fun g values => cells g.bindings (q.select.map fun item =>
        item.expr.replace (g.aggregates q.aggregates)) = .ok values) gs
        ((rows.flatMap Option.toList).map (·.values)) := by
    intro gs rows hrows
    induction hrows with
    | nil => exact .nil
    | cons hhead htail ih =>
        obtain ⟨values, hvalues, rfl⟩ := Query.outputRow_of_plain hhaving horder hhead
        exact .cons hvalues ih
  obtain ⟨rows, hrows, rfl⟩ := Query.outputRows_eq_ok.mp houtputs
  exact hvalues (List.forall₂_map_left_iff.mp hrows)

/-- **An output is found by its name.**  Let outputs of one name have one tree.  Among the outputs of
a row, put below a common name, the plain name of an output finds its value. -/
theorem Query.find_output {q : Query N} {pre : String} {b : Bindings N} {s : Substitution N}
    {values : List (Value N)} (hwritten : ∀ item ∈ q.select, item.expr.Written)
    (hplain : ∀ n ∈ q.names, IsPlain n)
    (hnames : ∀ i ∈ q.select, ∀ j ∈ q.select, i.name = j.name → i.expr.tree = j.expr.tree)
    (hvalues : cells b (q.select.map fun item => item.expr.replace s) = .ok values)
    {item : SelectItem N} (hitem : item ∈ q.select) :
    ∃ v, cell b (item.expr.replace s) = .ok v ∧
      (rowBindings [pre] q.names values).find [item.name] = .one v := by
  obtain ⟨v, hzip, hv⟩ := exists_cell_of_mem hvalues hitem
  refine ⟨v, hv, ?_⟩
  have hpairs : q.names.zip values = (q.select.zip values).map fun p => (p.1.name, p.2) := by
    rw [names, List.zip_map_left]
    rfl
  have hfound : ((q.names.zip values).reverse.find? fun c =>
      Text.toLower c.1 == Text.toLower item.name).map (·.2) = some v := by
    have hsome : ((q.names.zip values).reverse.find? fun c =>
        Text.toLower c.1 == Text.toLower item.name).isSome := by
      rw [List.find?_isSome]
      refine ⟨(item.name, v), List.mem_reverse.mpr ?_, by simp⟩
      rw [hpairs]
      exact List.mem_map_of_mem hzip
    obtain ⟨c, hc⟩ := Option.isSome_iff_exists.mp hsome
    rw [hc, Option.map_some]
    have hmem := List.mem_reverse.mp (List.mem_of_find?_eq_some hc)
    rw [hpairs] at hmem
    obtain ⟨⟨other, w⟩, hother, rfl⟩ := List.mem_map.mp hmem
    have hlower : Text.toLower other.name = Text.toLower item.name := by
      simpa using List.find?_some hc
    have hotherMem : other ∈ q.select := (List.of_mem_zip hother).1
    rw [(hplain _ (List.mem_map_of_mem hotherMem)).toLower,
      (hplain _ (List.mem_map_of_mem hitem)).toLower] at hlower
    have hsame : other.expr = item.expr :=
      (hwritten other hotherMem).eq_of_tree (hwritten item hitem)
        (hnames other hotherMem item hitem hlower)
    have hw := cell_of_mem_zip hvalues hother
    rw [hsame, hv] at hw
    rw [Except.ok.inj hw]
  have hentry := @PathMap.findEntry_ofList_under _ pre item.name _ v hfound
  rw [rowBindings, PathMap.find, hentry]
  rfl

/-! ## The inner query of a plan -/

namespace Plan

variable {q : Query N} {recombined : List (Recombination N)}

theorem written_rawAggregates (hq : q.Written)
    (hrecombined : q.aggregates.mapM Recombination.of = .ok recombined) {e : Expr N}
    (he : e ∈ rawAggregates q recombined) : e.Written := by
  rcases rawAggregates_cases hrecombined he with ⟨t, ht, r, hr, her⟩ | rfl
  · exact Recombination.raw_written hr (hq.aggregates ht) e her
  · intro l hl
    cases hl

/-- The raw aggregates of a recombination are among those of the plan. -/
theorem mem_rawAggregates (hq : q.Written)
    (hrecombined : q.aggregates.mapM Recombination.of = .ok recombined) {a e : Expr N}
    {r : Recombination N} (hzip : (a, r) ∈ q.aggregates.zip recombined) (he : e ∈ r.raw) :
    e ∈ rawAggregates q recombined := by
  obtain ⟨e', he', htree⟩ := exists_mem_rawAggregates (List.of_mem_zip hzip).2 he
  have hwritten : e.Written := Recombination.raw_written (eq_ok_of_mem_zip hrecombined hzip)
    (hq.aggregates (List.of_mem_zip hzip).1) e he
  have hsame : e' = e := (written_rawAggregates hq hrecombined he').eq_of_tree hwritten htree
  exact hsame ▸ he'

omit [Number N] in
/-- What the inner query gives are keys and raw aggregates. -/
theorem mem_outputExprs_inner {e : Expr N} :
    e ∈ (innerQuery q (rawAggregates q recombined)).outputExprs ↔
      e ∈ q.groupBy ∨ e ∈ rawAggregates q recombined := by
  simp [innerQuery, Query.outputExprs, SelectItem.of, Function.comp_def]

theorem written_inner (hq : q.Written)
    (hrecombined : q.aggregates.mapM Recombination.of = .ok recombined) :
    (innerQuery q (rawAggregates q recombined)).Written := by
  refine ⟨fun e he => ?_, hq.keys⟩
  rcases mem_outputExprs_inner.mp he with hkey | hraw
  · exact hq.keys e hkey
  · exact written_rawAggregates hq hrecombined hraw

omit [Number N] in
/-- Every raw aggregate of a plan is an aggregate of its inner query. -/
theorem exists_inner_aggregate
    (hrecombined : q.aggregates.mapM Recombination.of = .ok recombined) {e : Expr N}
    (he : e ∈ rawAggregates q recombined) :
    ∃ a ∈ (innerQuery q (rawAggregates q recombined)).aggregates, a.tree = e.tree := by
  refine Query.exists_mem_aggregates (mem_outputExprs_inner.mpr (.inr he)) ?_
  exact List.mem_filter.mpr ⟨Expr.mem_subterms_self e,
    (isRawAggregate_of_mem_rawAggregates hrecombined he).isAggregate⟩

omit [Number N] in
/-- With keys, the count of the rows is among the raw aggregates. -/
theorem rowCount_mem_rawAggregates (hkeys : q.groupBy ≠ []) :
    .aggregateRows .count ∈ rawAggregates q recombined := by
  have hcount : Expr.aggregateRows .count ∈ withRowCount q (recombined.flatMap (·.raw)) := by
    simp [withRowCount, hkeys]
  obtain ⟨e, he, htree⟩ := Query.exists_mem_distinct_nil hcount
  rwa [Expr.eq_aggregateRows_of_tree htree] at he

omit [Number N] in
/-- A plan has a raw aggregate: with keys the count of the rows, without keys what an aggregate of the
query is put together from. -/
theorem exists_mem_rawAggregates_of_isAggregate (hagg : q.isAggregate = true)
    (hrecombined : q.aggregates.mapM Recombination.of = .ok recombined) :
    ∃ e, e ∈ rawAggregates q recombined := by
  by_cases hkeys : q.groupBy = []
  · obtain ⟨a, ha⟩ : ∃ a, a ∈ q.aggregates := by
      apply List.exists_mem_of_ne_nil
      intro hnone
      simp [Query.isAggregate, hkeys, hnone] at hagg
    obtain ⟨r, hzip, hr⟩ := exists_result_of_mem hrecombined ha
    obtain ⟨e, he⟩ := List.exists_mem_of_ne_nil _ (Recombination.reads_raw hr).1
    obtain ⟨e', he', -⟩ := exists_mem_rawAggregates (List.of_mem_zip hzip).2 he
    exact ⟨e', he'⟩
  · exact ⟨_, rowCount_mem_rawAggregates hkeys⟩

omit [Number N] in
/-- The inner query puts rows together, as the query does. -/
theorem isAggregate_inner (hagg : q.isAggregate = true)
    (hrecombined : q.aggregates.mapM Recombination.of = .ok recombined) :
    (innerQuery q (rawAggregates q recombined)).isAggregate = true := by
  obtain ⟨e, he⟩ := exists_mem_rawAggregates_of_isAggregate hagg hrecombined
  obtain ⟨a, ha, -⟩ := exists_inner_aggregate hrecombined he
  have hsome : (innerQuery q (rawAggregates q recombined)).aggregates ≠ [] :=
    List.ne_nil_of_mem ha
  simp [Query.isAggregate, hsome]

end Plan

end PrivateSql
