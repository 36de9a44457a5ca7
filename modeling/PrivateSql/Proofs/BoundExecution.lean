import PrivateSql.Proofs.EvaluationFailures
import PrivateSql.Proofs.GroupPass
import PrivateSql.Proofs.ShadowedColumns
/-!
# Executing a bound query

Binding looks every column up among the columns of the relation and the names of the outputs; evaluation
looks it up again, by its path, on every row.  The two agree wherever a column of the relation is read.
They differ on outputs: binding takes any column with the name of an output for this output, while
evaluation sees the outputs only outside of aggregates, and takes a name with a dot for a path.

* `Query.missed` — the columns that binding lets pass as outputs and evaluation does not find;
* `Query.Source`, `Query.source_of_mem` — the rows and the groups that rows are given for;
* `Query.Remains`, `Query.execute_failsOnly` — executing a bound query fails only on invalid operations
  and on missed columns.
-/

namespace PrivateSql

variable {N : Type} [Number N]

omit [Number N] in
/-- The values of a row stand below one path, so no column is ambiguous among them. -/
theorem find_rowBindings_ne_many (path names : List String) (row : List (Value N)) {parts : Path}
    (hparts : parts ≠ []) : (rowBindings path names row).find parts ≠ .many := by
  have hnormal : Path.normalize parts ≠ [] := by simpa [Path.normalize] using hparts
  have hlast : ∀ e ∈ (rowBindings path names row).endingWith (Path.normalize parts),
      e.1 = Path.normalize path ++ [(Path.normalize parts).getLast hnormal] := by
    intro e he
    obtain ⟨hentry, hend⟩ := List.mem_filter.mp he
    obtain ⟨x, hx, rfl⟩ := PathMap.mem_of_mem_ofList hentry
    obtain ⟨c, -, rfl⟩ := List.mem_map.mp hx
    have hsuffix := List.isSuffixOf_iff_suffix.mp hend
    rw [Path.normalize_append] at hsuffix ⊢
    rw [hsuffix.getLast hnormal]
    simp [Path.normalize]
  have hone : (rowBindings path names row).findEntry parts ≠ .many :=
    PathMap.findEntry_ne_many fun e he e' he' => (hlast e he).trans (hlast e' he').symm
  rw [PathMap.find]
  cases hfound : (rowBindings path names row).findEntry parts with
  | many => exact absurd hfound hone
  | none | one e => simp [Found.map]

namespace Query

/-! ## The sources of the rows given -/

/-- What a row is given for: one of the rows kept, or a group of them with the columns of one of them,
where every aggregate gives way to its value on some of the rows.  Without keys there is a group also
when no row is kept. -/
structure Source (q : Query N) (kept : List (Bindings N)) (b : Bindings N) (s : Substitution N) :
    Prop where
  row : b ∈ kept ∨ b = PathMap.empty ∧ q.isAggregate = true ∧ q.groupBy = []
  covered : ∀ e ∈ q.outputExprs, ∀ a ∈ e.aggregates, (s.find? a).isSome
  values : ∀ t r, s.find? t = some r → ∃ a ∈ q.aggregates, a.tree = t.tree ∧
    ∃ rows ⊆ kept, ∃ state, aggregateRun a rows = .ok state ∧ r = .ofValue state.result

/-- The values of a source read no column. -/
theorem Source.reads_value {q : Query N} {kept : List (Bindings N)} {b : Bindings N}
    {s : Substitution N} (h : q.Source kept b s) {allowed : Identifier → Prop} (t r : Expr N)
    (hr : s.find? t = some r) : r.Reads allowed := by
  obtain ⟨_, _, _, _, _, _, _, rfl⟩ := h.values t r hr
  exact Expr.reads_literal _

/-- Rows are given for sources. -/
theorem source_of_mem {q : Query N} {kept : List (Bindings N)}
    {found : List (Bindings N × Substitution N)} (h : q.sources kept = .ok found)
    {source : Bindings N × Substitution N} (hsource : source ∈ found) :
    q.Source kept source.1 source.2 := by
  unfold sources at h
  split at h
  · rename_i hagg
    obtain ⟨groups, hgroups, h⟩ := bind_eq_ok.mp h
    cases h
    obtain ⟨g, hg, rfl⟩ := List.mem_map.mp hsource
    refine ⟨?_, fun e he a ha => ?_, fun t r hr => ?_⟩
    · rcases queryGroups_cases hgroups with ⟨hgrouped, -⟩ | ⟨-, hkeys, rfl⟩
      · exact .inl (mem_rowsWithKey.mp (hgrouped.head g hg)).1
      · obtain rfl := List.mem_singleton.mp hg
        exact .inr ⟨rfl, hagg, hkeys⟩
    · obtain ⟨a', ha', htree⟩ := exists_mem_aggregates he ha
      exact Group.isSome_find?_aggregates (group_of_mem hgroups hg).states ha' htree
    · obtain ⟨p, hp, htree, rfl⟩ := Group.find?_aggregates hr
      refine ⟨p.1, (List.of_mem_zip hp).1, htree, rowsWithKey q.groupBy g.key kept,
        List.filter_sublist.subset, p.2, ?_, rfl⟩
      exact eq_ok_of_mem_zip (f := fun a => aggregateRun a (rowsWithKey q.groupBy g.key kept))
        (group_of_mem hgroups hg).states hp
  · rename_i hagg
    cases h
    obtain ⟨b, hb, rfl⟩ := List.mem_map.mp hsource
    refine ⟨.inl hb, fun e he a ha => ?_, fun t r hr => by cases hr⟩
    obtain ⟨a', ha', -⟩ := exists_mem_aggregates he ha
    have hnone : q.aggregates = [] := by
      have hboth : q.groupBy = [] ∧ q.aggregates = [] := by simpa [isAggregate] using hagg
      exact hboth.2
    rw [hnone] at ha'
    cases ha'

/-! ## What binding leaves open -/

/-- The columns that binding takes for outputs and that evaluation does not find.  Inside an aggregate
no output is seen, so the column has to be one of the relation; and an identifier with a dot is taken
for a path, so it has to be one too, on a row that is there. -/
def missed (q : Query N) (scope : Scope N) : List Identifier :=
  let unresolved := fun c : Identifier => (scope.resolve c).toOption.isNone
  let inAggregates := q.rowExprs.flatMap fun e => e.aggregates.flatMap (·.columns)
  let dotted := (q.rowExprs.flatMap (·.columns)).filter fun c => c.parts ≠ [c.text]
  (inAggregates.filter unresolved ++
    dotted.filter fun c => unresolved c || q.isAggregate && q.groupBy.isEmpty).filter
      (isOutput q.names)

section Missed

omit [Number N]

variable {q : Query N} {scope : Scope N} {e : Expr N} {c : Identifier}

theorem isNone_of_unresolved (h : ¬ ∃ s, scope.resolve c = .ok s) :
    (scope.resolve c).toOption.isNone = true := by
  rw [Option.isNone_iff_eq_none, Option.eq_none_iff_forall_ne_some]
  exact fun s hs => h ⟨s, toOption_eq_some.mp hs⟩

/-- An output that is no column of the relation is missed inside an aggregate. -/
theorem mem_missed_of_aggregate (he : e ∈ q.rowExprs) {a : Expr N} (ha : a ∈ e.aggregates)
    (hc : c ∈ a.columns) (hout : isOutput q.names c = true)
    (hunresolved : ¬ ∃ s, scope.resolve c = .ok s) : c ∈ q.missed scope := by
  refine List.mem_filter.mpr ⟨List.mem_append_left _ (List.mem_filter.mpr ⟨?_, ?_⟩), hout⟩
  · exact List.mem_flatMap.mpr ⟨e, he, List.mem_flatMap.mpr ⟨a, ha, hc⟩⟩
  · exact isNone_of_unresolved hunresolved

/-- An output with a dot is missed where there is no column of the relation to find. -/
theorem mem_missed_of_dotted (he : e ∈ q.rowExprs) (hc : c ∈ e.columns)
    (hdot : c.parts ≠ [c.text]) (hout : isOutput q.names c = true)
    (hnone : (¬ ∃ s, scope.resolve c = .ok s) ∨ q.isAggregate = true ∧ q.groupBy = []) :
    c ∈ q.missed scope := by
  refine List.mem_filter.mpr ⟨List.mem_append_right _ (List.mem_filter.mpr ⟨?_, ?_⟩), hout⟩
  · refine List.mem_filter.mpr ⟨List.mem_flatMap.mpr ⟨e, he, hc⟩, ?_⟩
    simpa using hdot
  · rcases hnone with hunresolved | ⟨hagg, hkeys⟩
    · simp [isNone_of_unresolved hunresolved]
    · simp [hagg, hkeys]

end Missed

/-- What can go wrong when a bound query is executed: an operation without value, or a missed column. -/
def Remains (q : Query N) (scope : Scope N) (error : QueryError) : Prop :=
  error.IsInvalid ∨ ∃ c ∈ q.missed scope, error = .unevaluable (Expr.column c : Expr N).display

variable {q : Query N} {catalog : Catalog N} {scope : Scope N} {b : Bindings N}

/-- A column without value is allowed to fail where it is missed. -/
theorem missed_failsOnly {c : Identifier} (hmissed : c ∈ q.missed scope)
    (hmany : b.find c.parts ≠ .many) :
    FailsOnly (q.Remains scope) ((Expr.column c : Expr N).evaluate b) := by
  rw [Expr.evaluate]
  cases hfound : b.find c.parts with
  | none => exact failsOnly_error (.inr ⟨c, hmissed, rfl⟩)
  | one v => exact failsOnly_ok v
  | many => exact absurd hfound hmany

/-- The rows on which every column that is resolved has a value, and none is ambiguous. -/
structure Readable (scope : Scope N) (b : Bindings N) : Prop where
  found : ∀ c s, scope.resolve c = .ok s → ∃ v, b.find c.parts = .one v
  single : ∀ c : Identifier, b.find c.parts ≠ .many

/-- What is selected, asked of the rows read or grouped by can be evaluated on a row. -/
theorem Bound.evaluable (hbound : q.Bound catalog scope) (hread : Readable scope b) {e : Expr N}
    (he : e ∈ q.select.map (·.expr) ++ q.selection.toList ++ q.groupBy)
    (hnone : e.aggregates = []) : Evaluable (q.Remains scope) b e := by
  refine ⟨hnone, fun c hc => ?_⟩
  obtain ⟨s, hs⟩ := hbound.columns e he c hc
  exact column_failsOnly (hread.found c s hs)

/-- An argument of an aggregate has no aggregate, and its columns are those of what the query gives,
filters or orders by. -/
theorem Bound.aggregate_argument (hbound : q.Bound catalog scope) {f : AggregateFunction}
    {e : Expr N} (ha : .aggregate f e ∈ q.aggregates) :
    e.aggregates = [] ∧ ∃ e' ∈ q.outputExprs, .aggregate f e ∈ e'.aggregates ∧
      ∀ c ∈ e.columns, c ∈ e'.columns := by
  obtain ⟨e', he', hmem⟩ := exists_outputExpr_of_mem_aggregates ha
  have hsub : .aggregate f e ∈ e'.subterms := (List.mem_filter.mp hmem).1
  have hdepth := (Expr.subterms_subset hsub).2
  have hbounded := hbound.depth e' he'
  rw [Expr.aggregateDepth] at hdepth
  refine ⟨Expr.aggregates_eq_nil_of_depth (by omega), e', he', hmem, ?_⟩
  simpa using Expr.columns_subset hsub

/-- The aggregates of a bound query can be fed with a row, missed columns apart. -/
theorem Bound.feedable (hbound : q.Bound catalog scope) (hread : Readable scope b) {a : Expr N}
    (ha : a ∈ q.aggregates) : Feedable (q.Remains scope) b a := by
  rintro f e rfl
  obtain ⟨hnone, e', he', hmem, hcolumns⟩ := hbound.aggregate_argument ha
  refine ⟨hnone, fun c hc => ?_⟩
  rcases mem_outputExprs.mp he' with ⟨item, hitem, rfl⟩ | hrow
  · obtain ⟨s, hs⟩ := hbound.columns item.expr (List.mem_append_left _
      (List.mem_append_left _ (List.mem_map_of_mem hitem))) c (hcolumns c hc)
    exact column_failsOnly (hread.found c s hs)
  · by_cases hresolved : ∃ s, scope.resolve c = .ok s
    · obtain ⟨s, hs⟩ := hresolved
      exact column_failsOnly (hread.found c s hs)
    · have houtput : isOutput q.names c = true :=
        (hbound.outputColumns e' hrow c (hcolumns c hc)).resolve_right hresolved
      exact missed_failsOnly (mem_missed_of_aggregate hrow hmem (by simpa using hc) houtput hresolved)
        (hread.single c)

/-! ## Columns beside outputs -/

/-- Beside the outputs of a row, an output is found by its plain name, a value that is there hides no
other, and no column is ambiguous that was not before. -/
theorem find_beside_values {values : List (Value N)} {s : Substitution N}
    (hvalues : cells b (q.select.map fun item => item.expr.replace s) = .ok values)
    (c : Identifier) :
    (isOutput q.names c = true → c.parts = [c.text] →
        ∃ v, (b.insertAll (q.outputBindings values)).find c.parts = .one v) ∧
      ((∃ v, b.find c.parts = .one v) →
        ∃ v, (b.insertAll (q.outputBindings values)).find c.parts = .one v) ∧
      (b.find c.parts ≠ .many → (b.insertAll (q.outputBindings values)).find c.parts ≠ .many) := by
  rcases find_beside_outputs (cells_map_eq_ok.mp hvalues) c.parts_ne_nil with
    ⟨hnone, hsame⟩ | ⟨item, v, hnamed, -, hfound⟩
  · refine ⟨fun hout hplain => ?_, fun hv => by rwa [hsame], fun hmany => by rwa [hsame]⟩
    rw [← isSome_outputNamed?_iff hplain, hnone] at hout
    cases hout
  · exact ⟨fun _ _ => ⟨v, hfound b⟩, fun _ => ⟨v, hfound b⟩, fun _ => by simp [hfound b]⟩

/-- What is selected, its aggregates replaced, can be evaluated on a source. -/
theorem Bound.evaluable_select (hbound : q.Bound catalog scope) {kept : List (Bindings N)}
    {s : Substitution N} (hsource : q.Source kept b s) (hread : b ∈ kept → Readable scope b)
    {item : SelectItem N} (hitem : item ∈ q.select) :
    Evaluable (q.Remains scope) b (item.expr.replace s) := by
  have he := mem_outputExprs_of_select hitem
  have hmem := List.mem_map_of_mem (f := SelectItem.expr) hitem
  rcases hsource.row with hkept | ⟨-, hagg, hkeys⟩
  · refine Expr.reads_replace (fun c hc => ?_) (hsource.covered _ he) hsource.reads_value
    obtain ⟨symbol, hs⟩ := hbound.columns item.expr
      (List.mem_append_left _ (List.mem_append_left _ hmem)) c hc
    exact column_failsOnly ((hread hkept).found c symbol hs)
  · -- Without keys no column is left, whatever the row.
    have hreads := reads_replace_of_no_keys hkeys (hbound.groupedSelect hagg _ hmem)
      (hsource.covered _ he) hsource.reads_value
    exact hreads.mono fun c hc => by simp [isOutput_nil] at hc

/-- What filters and orders, its aggregates replaced, can be evaluated beside the outputs, missed columns
apart. -/
theorem Bound.evaluable_row (hbound : q.Bound catalog scope) {kept : List (Bindings N)}
    {s : Substitution N} (hsource : q.Source kept b s) (hread : b ∈ kept → Readable scope b)
    {values : List (Value N)}
    (hvalues : cells b (q.select.map fun item => item.expr.replace s) = .ok values) {e : Expr N}
    (he : e ∈ q.rowExprs) :
    Evaluable (q.Remains scope) (b.insertAll (q.outputBindings values)) (e.replace s) := by
  have hout := mem_outputExprs_of_rowExprs he
  have hsingle : ∀ c : Identifier, b.find c.parts ≠ .many := by
    rcases hsource.row with hkept | ⟨rfl, -, -⟩
    · exact (hread hkept).single
    · intro c
      simp [PathMap.find, PathMap.findEntry, PathMap.empty, Found.map]
  -- An output that is not found by its plain name is missed.
  have hname : ∀ c ∈ e.columns, isOutput q.names c = true →
      ((¬ ∃ s, scope.resolve c = .ok s) ∨ q.isAggregate = true ∧ q.groupBy = []) →
      FailsOnly (q.Remains scope)
        ((Expr.column c : Expr N).evaluate (b.insertAll (q.outputBindings values))) := by
    intro c hc houtput hnone
    obtain ⟨hplain, -, hmany⟩ := find_beside_values hvalues c
    by_cases hdot : c.parts = [c.text]
    · exact column_failsOnly (hplain houtput hdot)
    · exact missed_failsOnly (mem_missed_of_dotted he hc hdot houtput hnone) (hmany (hsingle c))
  rcases hsource.row with hkept | ⟨-, hagg, hkeys⟩
  · refine Expr.reads_replace (fun c hc => ?_) (hsource.covered _ hout) hsource.reads_value
    by_cases hresolved : ∃ s, scope.resolve c = .ok s
    · obtain ⟨symbol, hs⟩ := hresolved
      obtain ⟨-, hkeep, -⟩ := find_beside_values hvalues c
      exact column_failsOnly (hkeep ((hread hkept).found c symbol hs))
    · exact hname c hc ((hbound.outputColumns e he c hc).resolve_right hresolved) (.inl hresolved)
  · -- Without keys only outputs are left.
    have hreads := reads_replace_of_no_keys hkeys (hbound.groupedOutput hagg e he)
      (hsource.covered _ hout) hsource.reads_value
    have hcolumns : (e.replace s).Reads (· ∈ e.columns) :=
      Expr.reads_replace (fun c hc => hc) (hsource.covered _ hout) hsource.reads_value
    refine ⟨hreads.noAggregate, fun c hc => ?_⟩
    exact hname c (hcolumns.allowedColumns c hc) (hreads.allowedColumns c hc)
      (.inr ⟨hagg, hkeys⟩)

/-! ## The execution -/

/-- Rows are put together, invalid operations and missed columns apart. -/
theorem sources_failsOnly {P : QueryError → Prop} (hP : ∀ error, error.IsInvalid → P error)
    {kept : List (Bindings N)} (hkeys : ∀ b ∈ kept, ∀ e ∈ q.groupBy, Evaluable P b e)
    (haggregates : ∀ b ∈ kept, ∀ a ∈ q.aggregates, Feedable P b a) :
    FailsOnly P (q.sources kept) := by
  unfold sources
  split
  · have hgroups := groupRows_failsOnly hP hkeys haggregates
    refine FailsOnly.bind (hgroups.bind fun groups _ => ?_) fun groups _ => failsOnly_ok _
    split
    · exact failsOnly_ok _
    · exact failsOnly_ok _
  · exact failsOnly_ok _

/-- A row is given unless a cell fails, beside the outputs or not. -/
theorem outputRow_failsOnly {P : QueryError → Prop} (hP : ∀ error, error.IsInvalid → P error)
    {s : Substitution N} (hselect : ∀ item ∈ q.select, Evaluable P b (item.expr.replace s))
    (hrows : ∀ values, cells b (q.select.map fun item => item.expr.replace s) = .ok values →
      ∀ e ∈ q.rowExprs, Evaluable P (b.insertAll (q.outputBindings values)) (e.replace s)) :
    FailsOnly P (q.outputRow b s) := by
  have hcells : FailsOnly P (cells b (q.select.map fun item => item.expr.replace s)) := by
    apply cells_failsOnly hP
    intro e he
    obtain ⟨item, hitem, rfl⟩ := List.mem_map.mp he
    exact hselect item hitem
  apply hcells.bind
  intro values hvalues
  have hhaving : FailsOnly P (satisfies (b.insertAll (q.outputBindings values))
      (q.having.map (·.replace s))) := by
    apply satisfies_failsOnly hP
    intro e' he'
    obtain ⟨e, he, rfl⟩ := Option.map_eq_some_iff.mp he'
    exact hrows values hvalues e (List.mem_append_left _ (Option.mem_toList.mpr he))
  apply hhaving.bind
  intro kept _
  split
  · refine FailsOnly.bind (cells_failsOnly hP fun e' he' => ?_) fun keys _ => failsOnly_ok _
    obtain ⟨item, hitem, rfl⟩ := List.mem_map.mp he'
    exact hrows values hvalues item.expr (List.mem_append_right _ (List.mem_map_of_mem hitem))
  · exact failsOnly_ok _

/-- **Executing a bound query.**  Let every column that binding has resolved have a value on every row.
Then a bound query is executed, unless an operation is invalid or a missed column is read. -/
theorem execute_failsOnly (hbound : q.Bound catalog scope) {path names : List String}
    {rows : List (List (Value N))}
    (hrows : ∀ row ∈ rows, ∀ c s, scope.resolve c = .ok s →
      ∃ v, (rowBindings path names row).find c.parts = .one v) :
    FailsOnly (q.Remains scope) (q.execute path names rows) := by
  have hP : ∀ error : QueryError, error.IsInvalid → q.Remains scope error := fun _ => Or.inl
  have hreadable : ∀ b ∈ rows.map (rowBindings path names), Readable scope b := by
    intro b hb
    obtain ⟨row, hrow, rfl⟩ := List.mem_map.mp hb
    exact ⟨hrows row hrow, fun c => find_rowBindings_ne_many path names row c.parts_ne_nil⟩
  have hfilter : FailsOnly (q.Remains scope)
      (filterRows q.selection (rows.map (rowBindings path names))) :=
    filterRows_failsOnly hP fun b hb e he => hbound.evaluable (hreadable b hb)
      (List.mem_append_left _ (List.mem_append_right _ (Option.mem_toList.mpr he)))
      (hbound.selection e he)
  apply hfilter.bind
  intro kept hkept
  have hread : ∀ b ∈ kept, Readable scope b :=
    fun b hb => hreadable b (mem_of_mem_filterRows hkept hb)
  have hsources : FailsOnly (q.Remains scope) (q.sources kept) :=
    sources_failsOnly hP
      (fun b hb e he => hbound.evaluable (hread b hb) (List.mem_append_right _ he)
        (hbound.groupBy e he))
      fun b hb a ha => hbound.feedable (hread b hb) ha
  apply hsources.bind
  intro found hfound
  rw [outputRows_eq]
  refine FailsOnly.bind (FailsOnly.map _ (failsOnly_mapM fun source hmem => ?_))
    fun outputs _ => failsOnly_ok _
  have hsource := source_of_mem hfound hmem
  exact outputRow_failsOnly hP
    (fun item hitem => hbound.evaluable_select hsource (hread _) hitem)
    fun values hvalues e he => hbound.evaluable_row hsource (hread _) hvalues he

end Query

end PrivateSql
