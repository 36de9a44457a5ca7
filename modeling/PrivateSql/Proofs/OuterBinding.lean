import PrivateSql.Proofs.ColumnLookups
import PrivateSql.Proofs.GeneratedNames
import PrivateSql.Proofs.OuterColumns
/-!
# Binding the outer query

The outer query reads the rows of the inner one, and everything that it names is there: a generated
name has one part, and it is the end of exactly one path.  So the outer query of a plan is bound as
soon as the inner one is.

* `resolve_plain` — a plain name among the columns of a relation is resolved;
* `Query.bind_of_reads` — a query over another one is bound when it reads columns of that one;
* `Plan.outer_bind` — the outer query of a plan is bound.
-/

namespace PrivateSql

variable {N : Type}

/-- A plain name of a column is resolved below the name of its relation. -/
theorem resolve_plain {pre : String} {symbols : List (Symbol N)} {c : Identifier}
    (hplain : IsPlain c.text) (hmem : c.text ∈ symbols.map (·.name)) :
    ∃ s, (relationScope [pre] symbols).resolve c = .ok s := by
  have hparts : c.parts = [] ++ [c.text] := hplain.parts
  have hlength : c.parts.length ≤ 2 := by simp [hparts]
  obtain ⟨s, hs, hname⟩ := List.mem_map.mp hmem
  refine (Scope.exists_resolve_iff [] hlength hparts ⟨s, hs, ?_⟩).mpr List.nil_suffix
  rw [hname]

namespace Query

variable [Number N]

omit [Number N] in
/-- A query without aggregates has none in the wrong place. -/
theorem checkAggregates_of_none {q : Query N} (hselection : q.selection = none)
    (hgroupBy : q.groupBy = []) (h : ∀ e ∈ q.outputExprs, e.aggregates = []) :
    checkAggregates q = .ok () := by
  have hdepth : (q.outputExprs.find? fun e => decide (1 < e.aggregateDepth)) = none := by
    rw [List.find?_eq_none]
    intro e he
    simp [Expr.aggregateDepth_eq_zero (h e he)]
  simp [checkAggregates, hselection, hgroupBy, hdepth]

/-- A query over another one has the columns of that one to read. -/
theorem loadSymbols_of_derived {q inner : Query N} {catalog : Catalog N} {label : Identifier}
    {innerTable : SymbolTable N} (hrelations : q.relations = [.derived inner label])
    (hinner : inner.loadSymbols catalog SymbolTable.empty = .ok innerTable) :
    ∃ table, q.loadSymbols catalog SymbolTable.empty = .ok table := by
  obtain ⟨select, relations, selection, groupBy, having, orderBy, limit⟩ := q
  cases hrelations
  simp [loadSymbols, loadRelations, loadRelation, SymbolTable.has_empty, hinner]

/-- **Binding to another query.**  A query over another one, without aggregates and without a condition
on what it reads, is bound when it reads plain names of columns of that one and, where it may,
outputs. -/
theorem bind_of_reads {q inner : Query N} {catalog : Catalog N} {label : Identifier}
    {innerTable : SymbolTable N} (hrelations : q.relations = [.derived inner label])
    (hinner : inner.loadSymbols catalog SymbolTable.empty = .ok innerTable)
    (hplain : ∀ n ∈ inner.names, IsPlain n) (hselection : q.selection = none)
    (hgroupBy : q.groupBy = [])
    (hselect : ∀ e ∈ q.select.map (·.expr), e.Reads fun c => c.text ∈ inner.names)
    (houtput : ∀ e ∈ q.having.toList ++ q.orderBy.map (·.expr),
      e.Reads fun c => c.text ∈ inner.names ∨ isOutput q.names c = true) :
    ∃ scope, q.bind catalog = .ok scope := by
  obtain ⟨table, htable⟩ := loadSymbols_of_derived hrelations hinner
  have hscope := scope_of_derived hrelations hinner htable
  have hresolve : ∀ c : Identifier, c.text ∈ inner.names →
      ∃ s, table.scope.resolve c = .ok s := by
    intro c hc
    rw [hscope]
    refine resolve_plain (hplain c.text hc) ?_
    rwa [List.map_map]
  have hnone : ∀ e ∈ q.outputExprs, e.aggregates = [] := by
    intro e he
    rw [outputExprs, List.append_assoc] at he
    rcases List.mem_append.mp he with hleft | hright
    · exact (hselect e hleft).noAggregate
    · exact (houtput e hright).noAggregate
  have hcolumns : checkColumns table.scope []
      (q.select.map (·.expr) ++ q.selection.toList ++ q.groupBy) = .ok () := by
    refine checkColumns_eq_ok.mpr fun e he c hc => .inr ?_
    rw [hselection, hgroupBy, Option.toList_none, List.append_nil, List.append_nil] at he
    exact hresolve c ((hselect e he).allowedColumns c hc)
  have houtputs : checkColumns table.scope q.names
      (q.having.toList ++ q.orderBy.map (·.expr)) = .ok () := by
    apply checkColumns_eq_ok.mpr
    intro e he c hc
    rcases (houtput e he).allowedColumns c hc with hname | hout
    · exact .inr (hresolve c hname)
    · exact .inl hout
  have hgrouping : checkGrouping q table.scope = .ok () := by
    have haggregates : q.aggregates = [] := by
      rw [aggregates, List.flatMap_eq_nil_iff.mpr hnone]
      rfl
    simp [checkGrouping, isAggregate, hgroupBy, haggregates]
  refine ⟨table.scope, bind_eq_ok.mpr ⟨table, htable, ?_⟩⟩
  refine bind_eq_ok.mpr ⟨(), hcolumns, bind_eq_ok.mpr ⟨(), houtputs, ?_⟩⟩
  exact bind_eq_ok.mpr ⟨(), checkAggregates_of_none hselection hgroupBy hnone,
    bind_eq_ok.mpr ⟨(), hgrouping, rfl⟩⟩

end Query

namespace Plan

variable [Number N]

/-- The names of the columns of the inner query are plain. -/
theorem isPlain_of_mem_exactNames {q : Query N} {scope : Scope N} {table : Schema N}
    {recombined : List (Recombination N)} {n : String}
    (h : n ∈ (assemble q scope table recombined).exactNames) : IsPlain n := by
  rw [exactNames_assemble] at h
  rcases List.mem_append.mp h with hkey | hraw
  · obtain ⟨key, -, rfl⟩ := List.mem_map.mp hkey
    exact isPlain_keyName key
  · obtain ⟨e, -, rfl⟩ := List.mem_map.mp hraw
    exact isPlain_columnName e

omit [Number N] in
/-- The outer query gives its columns the names of the query. -/
theorem names_outerQuery (q inner : Query N) (s : Substitution N) :
    (outerQuery q inner s).names = q.names := by
  simp [outerQuery, Query.names, SelectItem.of, SelectItem.name, Function.comp_def]

/-- **The outer query is bound** when the inner one is. -/
theorem outer_bind {q : Query N} {scope : Scope N} {table : Schema N}
    {recombined : List (Recombination N)} {catalog : Catalog N} {innerScope : Scope N}
    (hbound : q.Bound catalog scope) (hagg : q.isAggregate = true)
    (hrecombined : q.aggregates.mapM Recombination.of = .ok recombined)
    (hinner : (assemble q scope table recombined).inner.bind catalog = .ok innerScope) :
    ∃ outerScope, (assemble q scope table recombined).outer.bind catalog = .ok outerScope := by
  obtain ⟨innerTable, hinnerTable, -⟩ := bind_eq_ok.mp hinner
  obtain ⟨hselect, houtput⟩ := outer_reads table hbound hagg hrecombined
  have hnames := names_inner q scope table recombined
  have hexact : ∀ c, IsExactName q recombined c →
      c.text ∈ (assemble q scope table recombined).inner.names := by
    intro c hc
    rw [hnames, exactNames_assemble]
    exact hc
  refine Query.bind_of_reads rfl hinnerTable ?_ rfl rfl ?_ ?_
  · intro n hn
    have hmem : n ∈ (assemble q scope table recombined).exactNames := by
      rw [← hnames]
      exact hn
    exact isPlain_of_mem_exactNames hmem
  · intro e he
    exact (hselect e he).mono hexact
  · intro e he
    refine (houtput e he).mono fun c hc => hc.imp (hexact c) fun hout => ?_
    rwa [assemble, names_outerQuery]

end Plan

end PrivateSql
