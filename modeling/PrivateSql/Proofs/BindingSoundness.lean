import PrivateSql.Proofs.BoundExecution
import PrivateSql.Proofs.StoredRows
import PrivateSql.Proofs.WrittenConstants
/-!
# Binding and execution

A query that is bound to the catalog of a dataset is executed over its rows.  Every column that binding
has looked up is found on every row, and every aggregate has given way to its value.  What is left are
operations without value, and the outputs that evaluation misses: those do occur.

* `Dataset.IsBuilt.run_failsOnly` — how a bound query over a table fails;
* `Dataset.IsBuilt.run_bound` — what binding promises of the queries that are read from texts;
* `run_misses_outputs` — queries that are bound and cannot be evaluated.
-/

namespace PrivateSql

variable {N : Type} [Number N]

namespace Dataset

/-- **How a bound query fails.**  Over a table whose rows fit, a bound query fails only on invalid
operations and on missed columns. -/
theorem IsBuilt.run_failsOnly {d : Dataset N} (hbuilt : d.IsBuilt) {q : Query N} {scope : Scope N}
    {name : Identifier} {label : Option Identifier} (hrelations : q.relations = [.table name label])
    (hbind : q.bind d.catalog = .ok scope) :
    FailsOnly (fun e => ∃ error, e = .query error ∧ q.Remains scope error) (d.run q) := by
  have hbound := Query.bound_of_bind hbind
  obtain ⟨schema, hschema⟩ := hbound.exists_schema hrelations
  obtain ⟨t, ht, rfl, hrelated⟩ := hbuilt.related_rows hrelations hschema hbound
  have hexecute : FailsOnly (q.Remains scope)
      (q.execute (Relation.path (.table name label : Relation (Query N))) t.schema.names t.rows) := by
    apply Query.execute_failsOnly hbound
    intro row hrow c s hs
    obtain ⟨v, hv, -⟩ := Scope.find_of_resolve (hrelated row hrow) hs
    exact ⟨v, hv⟩
  obtain ⟨select, relations, selection, groupBy, having, orderBy, limit⟩ := q
  cases hrelations
  simp only [run, runRelations, runRelation, hbind, ht, liftQuery, ok_bind]
  intro e he
  cases hanswer : Query.execute _ (Relation.path (.table name label : Relation (Query N)))
      t.schema.names t.rows with
  | ok rows =>
      rw [hanswer] at he
      cases he
  | error error =>
      rw [hanswer] at he
      cases he
      exact ⟨error, rfl, hexecute error hanswer⟩

/-- **What binding promises.**  Let a query be read from a text, and bound to the catalog of a dataset
that is built from tables.  If it fails over the rows, then because an operation has no value, or at a
column that is missed: one that binding took for an output, and that evaluation does not find because
it stands inside an aggregate or has a dot.  So no table and no column is unresolved or ambiguous, no
aggregate is left to evaluate, and without missed columns everything can be evaluated. -/
theorem IsBuilt.run_bound {d : Dataset N} (hbuilt : d.IsBuilt) {text : String} {q : Query N}
    {scope : Scope N} (hparse : Query.parse text = .ok q) (hbind : q.bind d.catalog = .ok scope)
    {e : ReaderError} (h : d.run q = .error e) :
    ∃ error, e = .query error ∧ (error.IsInvalid ∨
      ∃ c ∈ q.missed scope, error = .unevaluable (Expr.column c : Expr N).display) := by
  obtain ⟨name, label, hrelations⟩ := Query.relations_of_parse hparse
  exact hbuilt.run_failsOnly hrelations hbind e h

/-- A query that is read from a text and bound to a dataset, with the columns that it may read. -/
def boundText (d : Dataset N) (text : String) : Option (Query N × Scope N) := do
  let q ← (Query.parse (N := N) text).toOption
  let scope ← (q.bind d.catalog).toOption
  return (q, scope)

theorem boundText_eq_some {d : Dataset N} {text : String} {q : Query N} {scope : Scope N} :
    boundText d text = some (q, scope) ↔
      Query.parse (N := N) text = .ok q ∧ q.bind d.catalog = .ok scope := by
  simp [boundText, Option.bind_eq_some_iff, toOption_eq_some]

/-- A filtered and ordered sum that does not fit: nothing else goes wrong. -/
theorem run_bound_sum :
    ∃ q scope e error, Query.parse (N := Binary64)
        "SELECT SUM(x) AS s FROM t WHERE x > 0 HAVING s > 0 ORDER BY s" = .ok q ∧
      q.bind (integerDataset Binary64 [0x7FFFFFFFFFFFFFFF, 1]).catalog = .ok scope ∧
      (integerDataset Binary64 [0x7FFFFFFFFFFFFFFF, 1]).run q = .error e ∧
      q.missed scope = [] ∧ e = .query error ∧ error.IsInvalid := by
  have hruns : ((boundText (integerDataset Binary64 [0x7FFFFFFFFFFFFFFF, 1])
      "SELECT SUM(x) AS s FROM t WHERE x > 0 HAVING s > 0 ORDER BY s").map fun (q, scope) =>
        ((errorOf ((integerDataset Binary64 [0x7FFFFFFFFFFFFFFF, 1]).run q)).isSome,
          q.missed scope)) = some (true, []) := by
    decide +kernel
  obtain ⟨⟨q, scope⟩, hbound, hvalues⟩ := Option.map_eq_some_iff.mp hruns
  obtain ⟨hq, hscope⟩ := boundText_eq_some.mp hbound
  obtain ⟨hfailed, hmissed⟩ := Prod.ext_iff.mp hvalues
  obtain ⟨e, he⟩ := Option.isSome_iff_exists.mp hfailed
  have he := errorOf_eq_some.mp he
  obtain ⟨error, herror, hinvalid | ⟨c, hc, -⟩⟩ :=
    (isBuilt_integerDataset _).run_bound hq hscope he
  · exact ⟨q, scope, e, error, hq, hscope, he, hmissed, herror, hinvalid⟩
  · have hnone : q.missed scope = [] := hmissed
    rw [hnone] at hc
    cases hc

/-- **Outputs are missed.**  Two queries that are bound and cannot be evaluated: an output inside an
aggregate, and an output with a dot. -/
theorem run_misses_outputs :
    (integerDataset Binary64 [1]).IsBuilt ∧
      [("SELECT COUNT(*) AS n FROM t ORDER BY SUM(n)", "n"),
        ("SELECT COUNT(*) AS `t.n` FROM t ORDER BY t.n", "t.n")].Forall fun x =>
      ∃ q scope, Query.parse (N := Binary64) x.1 = .ok q ∧
        q.bind (integerDataset Binary64 [1]).catalog = .ok scope ∧
        (integerDataset Binary64 [1]).run q = .error (.query (.unevaluable x.2)) ∧
        q.missed scope = [⟨x.2⟩] := by
  have hruns : ∀ x ∈ [("SELECT COUNT(*) AS n FROM t ORDER BY SUM(n)", "n"),
      ("SELECT COUNT(*) AS `t.n` FROM t ORDER BY t.n", "t.n")],
      ((boundText (integerDataset Binary64 [1]) x.1).map fun (q, scope) =>
        (errorOf ((integerDataset Binary64 [1]).run q), q.missed scope)) =
          some (some (.query (.unevaluable x.2)), [⟨x.2⟩]) := by
    decide +kernel
  refine ⟨isBuilt_integerDataset _, ?_⟩
  rw [List.forall_iff_forall_mem]
  intro x hx
  obtain ⟨⟨q, scope⟩, hbound, hvalues⟩ := Option.map_eq_some_iff.mp (hruns x hx)
  obtain ⟨hq, hscope⟩ := boundText_eq_some.mp hbound
  obtain ⟨hfailed, hmissed⟩ := Prod.ext_iff.mp hvalues
  exact ⟨q, scope, hq, hscope, errorOf_eq_some.mp hfailed, hmissed⟩

end Dataset

end PrivateSql
