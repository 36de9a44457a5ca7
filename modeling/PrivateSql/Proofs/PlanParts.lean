import PrivateSql.Plan.Basic
import PrivateSql.Proofs.Replacement
import PrivateSql.Proofs.QueryParts
/-!
# The parts of a plan

Planning is a sequence of checks and searches.  Here its success is taken apart once, into everything
that the later proofs use of it.

* `Plan.assemble`, `Plan.of_eq_ok` — the plan of a query, from its scope and its recombinations;
* `Recombination.of_spec` — an aggregate is put together from raw aggregates only.
-/

namespace PrivateSql

variable {N : Type}

/-! ## Recombinations -/

/-- Expressions with one tree have one function. -/
theorem Expr.function?_of_tree {e e' : Expr N} (h : e.tree = e'.tree) :
    e.function? = e'.function? := by
  cases e with
  | aggregate f x | aggregateRows f =>
      cases e' <;> simp [tree] at h
      simp [function?, Expr.name_injective (by first | exact h | exact h.1)]
  | _ =>
      cases e' <;> simp [tree] at h
      rfl

/-- A raw aggregate: a count, a sum, a minimum or a maximum. -/
def Expr.IsRawAggregate (e : Expr N) : Prop := ∃ f, e.function? = some f ∧ f.isRaw = true

instance (e : Expr N) : Decidable e.IsRawAggregate :=
  decidable_of_iff (e.function?.any AggregateFunction.isRaw = true) (by rw [Option.any_eq_true]; rfl)

/-- The column of a raw aggregate is named after its tree. -/
theorem Expr.columnName_congr {e e' : Expr N} (he : e.isAggregate = true)
    (he' : e'.isAggregate = true) (h : e.tree = e'.tree) : e.columnName = e'.columnName := by
  cases e <;> simp only [isAggregate, Bool.false_eq_true] at he <;>
    cases e' <;> simp only [isAggregate, Bool.false_eq_true] at he' <;>
      simp_all [columnName, tree]

theorem Expr.IsRawAggregate.isAggregate {e : Expr N} (h : e.IsRawAggregate) :
    e.isAggregate = true := by
  obtain ⟨f, hf, -⟩ := h
  cases e <;> simp_all [Expr.function?, Expr.isAggregate]

namespace Recombination

/-- A raw aggregate is its own recombination. -/
theorem ofRaw_reads (a : Expr N) :
    (ofRaw a).formula.aggregates = [] ∧
      ∀ c ∈ (ofRaw a).formula.columns, ∃ e ∈ (ofRaw a).raw, c.text = e.columnName := by
  refine ⟨rfl, ?_⟩
  intro c hc
  obtain rfl : c = ⟨a.columnName⟩ := by simpa [ofRaw, Expr.ofColumn] using hc
  exact ⟨a, List.mem_singleton_self a, rfl⟩

/-- **What an aggregate is put together from.**  The raw aggregates are raw, and the formula reads
their columns and nothing else. -/
theorem of_spec {a : Expr N} {r : Recombination N} (h : Recombination.of a = .ok r) :
    (∀ e ∈ r.raw, e.IsRawAggregate) ∧ r.formula.aggregates = [] ∧
      ∀ c ∈ r.formula.columns, ∃ e ∈ r.raw, c.text = e.columnName := by
  cases a with
  | aggregateRows f =>
      simp only [Recombination.of] at h
      split at h
      · rename_i hraw
        cases h
        refine ⟨?_, ofRaw_reads _⟩
        intro e he
        obtain rfl := List.mem_singleton.mp he
        exact ⟨f, rfl, hraw⟩
      · cases h
  | aggregate f e =>
      cases f with
      | count | sum | min | max =>
          cases h
          refine ⟨?_, ofRaw_reads _⟩
          intro e' he'
          obtain rfl := List.mem_singleton.mp he'
          exact ⟨_, rfl, rfl⟩
      | mean =>
          cases h
          refine ⟨?_, by simp [meanFormula, Expr.ofColumn], ?_⟩
          · simp [Expr.IsRawAggregate, Expr.function?, AggregateFunction.isRaw]
          · simp [meanFormula, Expr.ofColumn]
      | variance =>
          cases h
          refine ⟨?_, by simp [varianceFormula, meanFormula, Expr.ofColumn], ?_⟩
          · simp [Expr.IsRawAggregate, Expr.function?, AggregateFunction.isRaw]
          · simp [varianceFormula, meanFormula, Expr.ofColumn]
      | deviation =>
          cases h
          refine ⟨?_, by simp [varianceFormula, meanFormula, Expr.ofColumn, Expr.ofCall], ?_⟩
          · simp [Expr.IsRawAggregate, Expr.function?, AggregateFunction.isRaw]
          · simp [varianceFormula, meanFormula, Expr.ofColumn, Expr.ofCall]
  | literal l => cases h
  | column id => cases h
  | unary op e => cases h
  | binary l op r => cases h
  | nested e => cases h
  | isNull e negated => cases h
  | call name args => cases h

end Recombination

/-! ## Plans -/

namespace Plan

variable [Number N]

omit [Number N] in
/-- A query with a plan reads a table of the catalog. -/
theorem sourceTable_eq_ok {q : Query N} {catalog : Catalog N} {table : Schema N}
    (h : sourceTable q catalog = .ok table) :
    ∃ name label, q.relations = [.table name label] ∧ catalog.table name = .ok table := by
  obtain ⟨relation, hrelation, h⟩ := bind_eq_ok.mp h
  unfold Query.relation at hrelation
  split at hrelation
  · rename_i r hrelations
    cases hrelation
    cases relation with
    | table name label => exact ⟨name, label, hrelations, h⟩
    | derived query label => cases h
  · cases hrelation
  · cases hrelation

/-- The raw aggregates of a query, from what its aggregates are put together from. -/
def rawAggregates (q : Query N) (recombined : List (Recombination N)) : List (Expr N) :=
  Query.distinct [] (withRowCount q (recombined.flatMap (·.raw)))

/-- The replacements that turn what a query gives into what its outer query gives. -/
def replacements (q : Query N) (scope : Scope N) (recombined : List (Recombination N)) :
    Substitution N :=
  (keyReplacements q scope).insertMany
    ((q.aggregates.zip recombined).map fun p => (p.1, p.2.formula))

/-- The plan of a query, from its scope, its table and its recombinations. -/
def assemble (q : Query N) (scope : Scope N) (table : Schema N)
    (recombined : List (Recombination N)) : Plan N where
  inner := innerQuery q (rawAggregates q recombined)
  outer := outerQuery q (innerQuery q (rawAggregates q recombined))
    (replacements q scope recombined)
  keys := q.groupBy.map keyName
  columns := (rawAggregates q recombined).map fun e => ⟨e, e.dataType scope, e.sensitivity scope⟩
  names := q.names
  types := q.select.map (·.expr.dataType scope)
  sensitivities := q.select.map (outputSensitivity scope ·.expr)
  threshold :=
    if q.groupBy.isEmpty then none
    else (rawAggregates q recombined).findIdx? (·.same (.aggregateRows .count))
  tableRows := table.rows

/-- **Planning taken apart.**  A query with a plan is bound, reads a table, puts rows together, and
each of its aggregates can be put together from raw ones. -/
theorem of_eq_ok {q : Query N} {catalog : Catalog N} {p : Plan N}
    (h : Plan.of q catalog = .ok p) :
    ∃ scope table recombined, q.Bound catalog scope ∧ sourceTable q catalog = .ok table ∧
      q.isAggregate = true ∧ q.aggregates.mapM Recombination.of = .ok recombined ∧
      p = assemble q scope table recombined := by
  obtain ⟨scope, hscope, h⟩ := bind_eq_ok.mp h
  obtain ⟨table, htable, h⟩ := bind_eq_ok.mp h
  cases hagg : q.isAggregate with
  | false =>
      simp only [hagg] at h
      cases h
  | true =>
      simp only [hagg, Bool.not_true, Bool.false_eq_true, if_false] at h
      obtain ⟨recombined, hrecombined, h⟩ := bind_eq_ok.mp h
      cases h
      refine ⟨scope, table, recombined, Query.bound_of_bind hscope, htable, rfl, hrecombined, ?_⟩
      simp [assemble, replacements, rawAggregates, Substitution.insertMany, List.foldl_map]

end Plan

end PrivateSql
