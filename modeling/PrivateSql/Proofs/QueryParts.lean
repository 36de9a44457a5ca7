import PrivateSql.Query.Binding
import PrivateSql.Proofs.Fallible
import PrivateSql.Proofs.ExprStructure
/-!
# The parts of a bound query

Binding is a sequence of checks.  Here its success is taken apart once, into everything that the later
proofs use of it, with the facts on lists of expressions that it rests on.

* `Query.distinct_pairwise`, `Query.exists_mem_distinct` — a list of expressions without repetition;
* `Query.rowExprs` — what filters and orders the rows given;
* `Query.Bound`, `Query.bound_of_bind` — what a bound query satisfies.
-/

namespace PrivateSql

variable {N : Type}

namespace Query

/-! ## Expressions without repetition -/

/-- Nothing new is in a list without repetition. -/
theorem mem_of_mem_distinct {seen es : List (Expr N)} {e : Expr N} (h : e ∈ distinct seen es) :
    e ∈ es := by
  induction es generalizing seen with
  | nil => cases h
  | cons e' es ih =>
      unfold distinct at h
      split at h
      · exact List.mem_cons_of_mem _ (ih h)
      · rcases List.mem_cons.mp h with rfl | htail
        · exact List.mem_cons_self
        · exact List.mem_cons_of_mem _ (ih htail)

/-- What was seen does not come again. -/
theorem not_same_of_mem_distinct {seen es : List (Expr N)} {e e' : Expr N}
    (h : e ∈ distinct seen es) (hseen : e' ∈ seen) : e'.same e = false := by
  induction es generalizing seen with
  | nil => cases h
  | cons x es ih =>
      unfold distinct at h
      split at h
      · exact ih h hseen
      · rename_i hnew
        rcases List.mem_cons.mp h with rfl | htail
        · simp only [List.any_eq_true, not_exists, not_and, Bool.not_eq_true] at hnew
          exact hnew e' hseen
        · exact ih htail (List.mem_cons_of_mem _ hseen)

/-- Two expressions of a list without repetition differ. -/
theorem distinct_pairwise (seen es : List (Expr N)) :
    (distinct seen es).Pairwise fun e e' => e.same e' = false := by
  induction es generalizing seen with
  | nil => exact .nil
  | cons e es ih =>
      unfold distinct
      split
      · exact ih seen
      · refine List.pairwise_cons.mpr ⟨?_, ih (e :: seen)⟩
        intro e' he'
        exact not_same_of_mem_distinct he' List.mem_cons_self

/-- Each expression has its like in the list without repetition, or was seen before. -/
theorem exists_mem_distinct {seen es : List (Expr N)} {e : Expr N} (h : e ∈ es) :
    (∃ e' ∈ seen, e'.tree = e.tree) ∨ ∃ e' ∈ distinct seen es, e'.tree = e.tree := by
  induction es generalizing seen with
  | nil => cases h
  | cons x es ih =>
      unfold distinct
      split
      · rename_i hold
        rcases List.mem_cons.mp h with rfl | htail
        · obtain ⟨e', he', hsame⟩ := List.any_eq_true.mp hold
          exact .inl ⟨e', he', Expr.same_iff.mp hsame⟩
        · exact ih htail
      · rcases List.mem_cons.mp h with rfl | htail
        · exact .inr ⟨e, List.mem_cons_self, rfl⟩
        · rcases @ih (x :: seen) htail with ⟨e', he', htree⟩ | ⟨e', he', htree⟩
          · rcases List.mem_cons.mp he' with rfl | hseen
            · exact .inr ⟨e', List.mem_cons_self, htree⟩
            · exact .inl ⟨e', hseen, htree⟩
          · exact .inr ⟨e', List.mem_cons_of_mem _ he', htree⟩

/-- Each expression has its like in the list without repetition. -/
theorem exists_mem_distinct_nil {es : List (Expr N)} {e : Expr N} (h : e ∈ es) :
    ∃ e' ∈ distinct [] es, e'.tree = e.tree := by
  rcases @exists_mem_distinct N [] es e h with ⟨e', he', -⟩ | hfound
  · cases he'
  · exact hfound

/-- The aggregates of a query are those inside what it gives, filters and orders by. -/
theorem exists_outputExpr_of_mem_aggregates {q : Query N} {a : Expr N} (h : a ∈ q.aggregates) :
    ∃ e ∈ q.outputExprs, a ∈ e.aggregates :=
  List.mem_flatMap.mp (mem_of_mem_distinct h)

/-- What filters and orders the rows given. -/
def rowExprs (q : Query N) : List (Expr N) := q.having.toList ++ q.orderBy.map (·.expr)

theorem mem_outputExprs_of_rowExprs {q : Query N} {e : Expr N} (h : e ∈ q.rowExprs) :
    e ∈ q.outputExprs := by
  rw [outputExprs, List.append_assoc]
  exact List.mem_append_right _ h

theorem mem_outputExprs_of_select {q : Query N} {item : SelectItem N} (h : item ∈ q.select) :
    item.expr ∈ q.outputExprs :=
  List.mem_append_left _ (List.mem_append_left _ (List.mem_map_of_mem h))

/-- What a query gives, filters or orders by is selected, or filters or orders the rows given. -/
theorem mem_outputExprs {q : Query N} {e : Expr N} :
    e ∈ q.outputExprs ↔ (∃ item ∈ q.select, item.expr = e) ∨ e ∈ q.rowExprs := by
  rw [outputExprs, List.append_assoc, List.mem_append, List.mem_map]
  rfl

/-- Every aggregate inside what a query gives, filters or orders by is one of its aggregates. -/
theorem exists_mem_aggregates {q : Query N} {e a : Expr N} (he : e ∈ q.outputExprs)
    (ha : a ∈ e.aggregates) : ∃ a' ∈ q.aggregates, a'.tree = a.tree :=
  exists_mem_distinct_nil (List.mem_flatMap.mpr ⟨e, he, ha⟩)

/-! ## Bound queries -/

/-- What holds of a query that is bound to a catalog. -/
structure Bound [Number N] (q : Query N) (catalog : Catalog N) (scope : Scope N) : Prop where
  scope_eq : ∃ table, loadSymbols catalog SymbolTable.empty q = .ok table ∧ scope = table.scope
  columns : ∀ e ∈ q.select.map (·.expr) ++ q.selection.toList ++ q.groupBy, ∀ c ∈ e.columns,
    ∃ s, scope.resolve c = .ok s
  outputColumns : ∀ e ∈ q.having.toList ++ q.orderBy.map (·.expr), ∀ c ∈ e.columns,
    isOutput q.names c = true ∨ ∃ s, scope.resolve c = .ok s
  selection : ∀ e ∈ q.selection, e.aggregates = []
  groupBy : ∀ e ∈ q.groupBy, e.aggregates = []
  depth : ∀ e ∈ q.outputExprs, e.aggregateDepth ≤ 1
  groupedSelect : q.isAggregate = true → ∀ e ∈ q.select.map (·.expr), isGrouped q scope [] e = true
  groupedOutput : q.isAggregate = true → ∀ e ∈ q.having.toList ++ q.orderBy.map (·.expr),
    isGrouped q scope q.names e = true

/-- A query is bound to one scope only. -/
theorem Bound.scope_unique [Number N] {q : Query N} {catalog : Catalog N} {scope scope' : Scope N}
    (h : q.Bound catalog scope) (h' : q.Bound catalog scope') : scope = scope' := by
  obtain ⟨table, htable, rfl⟩ := h.scope_eq
  obtain ⟨table', htable', rfl⟩ := h'.scope_eq
  rw [htable] at htable'
  cases htable'
  rfl

/-- The check of columns: each of them names an output or is found. -/
theorem checkColumns_eq_ok {scope : Scope N} {outputs : List String} {es : List (Expr N)} :
    checkColumns scope outputs es = .ok () ↔
      ∀ e ∈ es, ∀ c ∈ e.columns, isOutput outputs c = true ∨ ∃ s, scope.resolve c = .ok s := by
  rw [checkColumns, forM_eq_ok]
  constructor
  · intro h e he c hc
    have hcheck := h c (List.mem_flatMap.mpr ⟨e, he, hc⟩)
    split at hcheck
    · exact .inl ‹_›
    · obtain ⟨s, hs, -⟩ := bind_eq_ok.mp hcheck
      exact .inr ⟨s, hs⟩
  · intro h c hc
    obtain ⟨e, he, hce⟩ := List.mem_flatMap.mp hc
    split
    · rfl
    · rcases h e he c hce with hout | ⟨s, hs⟩
      · contradiction
      · exact bind_eq_ok.mpr ⟨s, hs, rfl⟩

theorem isOutput_nil (c : Identifier) : isOutput [] c = false := rfl

/-- The check of aggregates: none in a condition on rows nor in a key, and no aggregate of an
aggregate. -/
theorem checkAggregates_eq_ok {q : Query N} (h : checkAggregates q = .ok ()) :
    (∀ e ∈ q.selection, e.aggregates = []) ∧ (∀ e ∈ q.groupBy, e.aggregates = []) ∧
      ∀ e ∈ q.outputExprs, e.aggregateDepth ≤ 1 := by
  unfold checkAggregates at h
  split at h
  · cases h
  · rename_i hselection
    split at h
    · cases h
    · rename_i hgroupBy
      split at h
      · cases h
      · rename_i hdepth
        refine ⟨?_, ?_, ?_⟩
        · intro e he
          simpa [Option.mem_def.mp he, Expr.hasAggregate] using hselection
        · intro e he
          simp only [List.any_eq_true, not_exists, not_and] at hgroupBy
          simpa [Expr.hasAggregate] using hgroupBy e he
        · intro e he
          have hnot := List.find?_eq_none.mp hdepth e he
          simpa using hnot

/-- The check of grouping, when rows are put together: what is given, filtered and ordered by has
one value for a group. -/
theorem checkGrouping_eq_ok {q : Query N} {scope : Scope N} (h : checkGrouping q scope = .ok ())
    (hagg : q.isAggregate = true) :
    (∀ e ∈ q.select.map (·.expr), isGrouped q scope [] e = true) ∧
      ∀ e ∈ q.having.toList ++ q.orderBy.map (·.expr), isGrouped q scope q.names e = true := by
  simp only [checkGrouping, hagg, Bool.not_true, Bool.false_eq_true, if_false] at h
  split at h
  · cases h
  · rename_i hselect
    split at h
    · cases h
    · rename_i houtput
      constructor
      · intro e he
        simpa using List.find?_eq_none.mp hselect e he
      · intro e he
        simpa using List.find?_eq_none.mp houtput e he

/-- **Binding taken apart.**  A query that is bound satisfies all that binding asks for. -/
theorem bound_of_bind [Number N] {q : Query N} {catalog : Catalog N} {scope : Scope N}
    (h : q.bind catalog = .ok scope) : q.Bound catalog scope := by
  obtain ⟨table, htable, h⟩ := bind_eq_ok.mp h
  obtain ⟨⟨⟩, hcolumns, h⟩ := bind_eq_ok.mp h
  obtain ⟨⟨⟩, houtputs, h⟩ := bind_eq_ok.mp h
  obtain ⟨⟨⟩, haggregates, h⟩ := bind_eq_ok.mp h
  obtain ⟨⟨⟩, hgrouping, h⟩ := bind_eq_ok.mp h
  cases h
  obtain ⟨hselection, hgroupBy, hdepth⟩ := checkAggregates_eq_ok haggregates
  refine ⟨⟨table, htable, rfl⟩, ?_, checkColumns_eq_ok.mp houtputs, hselection, hgroupBy, hdepth,
    fun hagg => (checkGrouping_eq_ok hgrouping hagg).1,
    fun hagg => (checkGrouping_eq_ok hgrouping hagg).2⟩
  intro e he c hc
  simpa [isOutput_nil] using checkColumns_eq_ok.mp hcolumns e he c hc

end Query

end PrivateSql
