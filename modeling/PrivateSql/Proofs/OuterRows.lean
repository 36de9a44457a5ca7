import PrivateSql.Proofs.OuterCells
/-!
# The rows of the outer query

The outer query gives a row exactly where the query does, with the same cells and under the same order,
unless names or divisions come between.  Outputs are put beside the columns when rows are filtered and
ordered, so an output may hide a column that a key needs, or one that the plan has added; and a key that
divides by zero makes the whole cell of the query `NULL`, while the outer query reads a `NULL`.

* `Query.RowsUse` — what the filter and the ordering of the rows given look at;
* `Plan.Unambiguous` — the names and the divisions of a query are harmless;
* `Expr.Restored` — an expression whose aggregates are restored by their formulas;
* `Plan.GroupRow.outputRow_outer` — the row of the outer query, beside that of the query.
-/

namespace PrivateSql

variable {N : Type} [Number N]

/-- The aggregates of an expression are restored by their formulas, over so many rows. -/
def Expr.Restored (limit : Nat) (e : Expr N) : Prop :=
  ∀ a ∈ e.aggregates, ∀ r, Recombination.of a = .ok r → r.Restores limit a

/-- An expression whose aggregates are all raw. -/
def Expr.UsesRaw (e : Expr N) : Prop := ∀ a ∈ e.aggregates, a.IsRawAggregate

omit [Number N] in
instance (e : Expr N) : Decidable e.UsesRaw :=
  inferInstanceAs (Decidable (∀ a ∈ e.aggregates, a.IsRawAggregate))

theorem Expr.UsesRaw.restored {e : Expr N} (h : e.UsesRaw) (limit : Nat) : e.Restored limit :=
  fun a ha _ hr => Recombination.restores_of_raw (h a ha) hr limit

theorem Expr.restored_exact {limit : Nat} (hlimit : limit < 2 ^ 63) (e : Expr ℝ) :
    e.Restored limit :=
  fun _ _ _ hr => Recombination.restores_exact hr hlimit

namespace Query

/-- What filters and orders the rows given satisfies a condition, and so do the outputs that it
names. -/
structure RowsUse (q : Query N) (scope : Scope N) (P : Expr N → Prop) : Prop where
  rows : ∀ e ∈ q.rowExprs, P e
  outputs : ∀ e ∈ q.rowExprs, ∀ t ∈ q.partsOf scope e, q.standsForKey scope t = false →
    ∀ c ∈ t.column?, ∀ item ∈ q.outputNamed? c.parts, P item.expr

instance (q : Query N) (scope : Scope N) (P : Expr N → Prop) [DecidablePred P] :
    Decidable (q.RowsUse scope P) :=
  decidable_of_iff
    ((∀ e ∈ q.rowExprs, P e) ∧
      ∀ e ∈ q.rowExprs, ∀ t ∈ q.partsOf scope e, q.standsForKey scope t = false →
        ∀ c ∈ t.column?, ∀ item ∈ q.outputNamed? c.parts, P item.expr)
    ⟨fun h => ⟨h.1, h.2⟩, fun h => ⟨h.rows, h.outputs⟩⟩

omit [Number N] in
theorem RowsUse.mono {q : Query N} {scope : Scope N} {P P' : Expr N → Prop}
    (h : q.RowsUse scope P) (himp : ∀ e, P e → P' e) : q.RowsUse scope P' :=
  ⟨fun e he => himp e (h.rows e he),
    fun e he t ht hkey c hc item hitem => himp _ (h.outputs e he t ht hkey c hc item hitem)⟩

end Query

namespace Plan

/-- **Harmless names and divisions.**  What has to hold of a query, of its plan and of the rows that it
keeps for the outer query to answer like the query.  Each condition is about one way in which the two
come apart:

* two columns of the inner query whose generated names, which are hashes, are the same;
* an output with the generated name of a column, hiding it from the outer query;
* an output with the name of a column that a key needs, hiding it from the query, unless it repeats the
  column;
* an output that is named with a dot, which the query takes for a qualifier;
* a key that divides by zero inside a larger expression, which makes all of it `NULL` for the query. -/
structure Unambiguous (q : Query N) (scope : Scope N) (p : Plan N) (kept : List (Bindings N)) :
    Prop where
  generated : ∀ i ∈ p.inner.select, ∀ j ∈ p.inner.select,
    i.name = j.name → i.expr.tree = j.expr.tree
  exact : ∀ e ∈ p.outer.rowExprs, ∀ n ∈ p.exactNames, ⟨n⟩ ∈ e.columns →
    ∀ item ∈ p.outer.outputNamed? [n], item.expr.column? = some ⟨n⟩
  keys : ∀ e ∈ q.rowExprs, ∀ t ∈ q.partsOf scope e, q.standsForKey scope t = true →
    ∀ c ∈ t.columns, ∀ item ∈ q.outputNamed? c.parts,
      ∃ c' ∈ item.expr.column?, Query.isKey scope (.column c') (.column c : Expr N) = true
  outputs : ∀ e ∈ q.rowExprs, ∀ t ∈ q.partsOf scope e, q.standsForKey scope t = false →
    ∀ c ∈ t.column?, c.parts = [c.text]
  division : ∀ e ∈ q.outputExprs, q.standsForKey scope e = false → ∀ t ∈ q.partsOf scope e,
    q.standsForKey scope t = true → ∀ b ∈ kept, t.dividesByZero b = false

instance (q : Query N) (scope : Scope N) (p : Plan N) (kept : List (Bindings N)) :
    Decidable (Unambiguous q scope p kept) :=
  decidable_of_iff
    ((∀ i ∈ p.inner.select, ∀ j ∈ p.inner.select, i.name = j.name → i.expr.tree = j.expr.tree) ∧
      (∀ e ∈ p.outer.rowExprs, ∀ n ∈ p.exactNames, ⟨n⟩ ∈ e.columns →
        ∀ item ∈ p.outer.outputNamed? [n], item.expr.column? = some ⟨n⟩) ∧
      (∀ e ∈ q.rowExprs, ∀ t ∈ q.partsOf scope e, q.standsForKey scope t = true →
        ∀ c ∈ t.columns, ∀ item ∈ q.outputNamed? c.parts,
          ∃ c' ∈ item.expr.column?, Query.isKey scope (.column c') (.column c : Expr N) = true) ∧
      (∀ e ∈ q.rowExprs, ∀ t ∈ q.partsOf scope e, q.standsForKey scope t = false →
        ∀ c ∈ t.column?, c.parts = [c.text]) ∧
      ∀ e ∈ q.outputExprs, q.standsForKey scope e = false → ∀ t ∈ q.partsOf scope e,
        q.standsForKey scope t = true → ∀ b ∈ kept, t.dividesByZero b = false)
    ⟨fun h => ⟨h.1, h.2.1, h.2.2.1, h.2.2.2.1, h.2.2.2.2⟩,
      fun h => ⟨h.generated, h.exact, h.keys, h.outputs, h.division⟩⟩

/-! ## A row of the outer query -/

section OuterRow

variable {q : Query N} {scope : Scope N} {recombined : List (Recombination N)}
variable {kept : List (Bindings N)} {g : Group N} {b : Bindings N} {catalog : Catalog N}
variable {table : Schema N}

/-- A group with a key has one of the rows kept. -/
theorem GroupRow.mem_kept (h : GroupRow q scope recombined kept g b) {t : Expr N}
    (hkey : q.standsForKey scope t = true) : g.bindings ∈ kept := by
  rcases h.group.row with hrow | hempty
  · exact hrow
  · rw [Query.standsForKey, Query.groupKey?, hempty] at hkey
    cases hkey

/-- **What is selected.**  The outer query selects what the query does. -/
theorem GroupRow.cell_select (h : GroupRow q scope recombined kept g b)
    (hbound : q.Bound catalog scope) (hagg : q.isAggregate = true)
    (hu : Unambiguous q scope (assemble q scope table recombined) kept)
    {item : SelectItem N} (hitem : item ∈ q.select) (hrestored : item.expr.Restored kept.length)
    {v : Value N} (hv : cell g.bindings (item.expr.replace (g.aggregates q.aggregates)) = .ok v) :
    cell b (item.expr.replace (replacements q scope recombined)) = .ok v := by
  have he := Query.mem_outputExprs_of_select hitem
  refine h.cell_outer he ?_ ?_ ?_ ?_ hrestored hv
  · intro t ht hkey c hc
    rfl
  · intro c hc hkey
    have hout := Query.isOutput_of_mem_partsOf
      (hbound.groupedSelect hagg _ (List.mem_map_of_mem hitem)) hc hkey
    rw [Query.isOutput_nil] at hout
    cases hout
  · intro n hn hname
    rfl
  · intro hkey t ht htkey
    exact Expr.ne_of_not_dividesByZero (hu.division _ he hkey t ht htkey _ (h.mem_kept htkey))

omit [Number N] in
/-- The outer query gives the outputs the names that the query does. -/
theorem outputNamed?_outer (parts : List String) :
    (outerQuery q (innerQuery q (rawAggregates q recombined))
        (replacements q scope recombined)).outputNamed? parts =
      (q.outputNamed? parts).map fun item =>
        .of (item.expr.replace (replacements q scope recombined)) (some item.name) := by
  rw [Query.outputNamed?, Query.outputNamed?, outerQuery, ← List.map_reverse, List.find?_map]
  rfl

/-- Beside its cells, a path finds the cell of the last output of this name, if there is one. -/
theorem find_beside_cells {s : Substitution N} {b₀ : Bindings N} {values : List (Value N)}
    (hvalues : cells b₀ (q.select.map fun item => item.expr.replace s) = .ok values)
    {parts : Path} (hparts : parts ≠ []) :
    (q.outputNamed? parts = none ∧ ∀ b : Bindings N,
        (b.insertAll (q.outputBindings values)).find parts = b.find parts) ∨
      ∃ item ∈ q.select, ∃ v, q.outputNamed? parts = some item ∧
        cell b₀ (item.expr.replace s) = .ok v ∧ ∀ b : Bindings N,
          (b.insertAll (q.outputBindings values)).find parts = .one v := by
  rcases Query.find_beside_outputs (cells_map_eq_ok.mp hvalues) hparts with hnone | ⟨item, v, hnamed, hv, hfound⟩
  · exact .inl hnone
  · exact .inr ⟨item, Query.mem_of_outputNamed? hnamed, v, hnamed, hv, hfound⟩

/-- A column that a key needs is found beside the outputs as without them: the output that hides it
repeats it. -/
theorem GroupRow.find_key_column (h : GroupRow q scope recombined kept g b)
    (hu : Unambiguous q scope (assemble q scope table recombined) kept) {values : List (Value N)}
    (hvalues : cells g.bindings (q.select.map fun item =>
      item.expr.replace (g.aggregates q.aggregates)) = .ok values)
    {e : Expr N} (he : e ∈ q.rowExprs) {t : Expr N} (ht : t ∈ q.partsOf scope e)
    (hkey : q.standsForKey scope t = true) {c : Identifier} (hc : c ∈ t.columns) :
    (g.bindings.insertAll (q.outputBindings values)).find c.parts = g.bindings.find c.parts := by
  refine Query.find_beside_repeated (h.related _ (h.mem_kept hkey)) hvalues fun item hitem => ?_
  obtain ⟨c', hc', hisKey⟩ := hu.keys e he t ht hkey c hc item hitem
  refine ⟨c', ?_, hisKey⟩
  rw [Expr.eq_column hc']
  exact Group.replace_eq_self (fun a ha => isAggregate_of_mem ha) rfl

/-- Another column names an output, and the outputs of both queries have one value. -/
theorem GroupRow.find_output_column (h : GroupRow q scope recombined kept g b)
    (hbound : q.Bound catalog scope) (hagg : q.isAggregate = true)
    (hu : Unambiguous q scope (assemble q scope table recombined) kept)
    (hrows : q.RowsUse scope (Expr.Restored kept.length)) {values values' : List (Value N)}
    (hvalues : cells g.bindings (q.select.map fun item =>
      item.expr.replace (g.aggregates q.aggregates)) = .ok values)
    (hvalues' : cells b (q.select.map fun item =>
      item.expr.replace (replacements q scope recombined)) = .ok values')
    {e : Expr N} (he : e ∈ q.rowExprs) {c : Identifier} (hc : .column c ∈ q.partsOf scope e)
    (hkey : q.standsForKey scope (.column c) = false) :
    (g.bindings.insertAll (q.outputBindings values)).find c.parts =
      (b.insertAll (q.outputBindings values')).find c.parts := by
  have hparts : c.parts = [c.text] := hu.outputs e he _ hc hkey c rfl
  have hnames := Query.isOutput_of_mem_partsOf (hbound.groupedOutput hagg e he) hc hkey
  rw [← Query.isSome_outputNamed?_iff hparts] at hnames
  obtain ⟨item, hnamed⟩ := Option.isSome_iff_exists.mp hnames
  rcases find_beside_cells hvalues c.parts_ne_nil with ⟨hnone, -⟩ | ⟨_, hitem, v, hsome, hv, hfound⟩
  · rw [hnamed] at hnone
    cases hnone
  obtain rfl := Option.some.inj (hnamed.symm.trans hsome)
  rcases find_beside_cells hvalues' c.parts_ne_nil with ⟨hnone, -⟩ | ⟨_, -, w, hsome, hw, hfound'⟩
  · rw [hnamed] at hnone
    cases hnone
  obtain rfl := Option.some.inj (hnamed.symm.trans hsome)
  have hrestored := hrows.outputs e he _ hc hkey c rfl item hnamed
  rw [h.cell_select hbound hagg hu hitem hrestored hv] at hw
  rw [hfound, hfound', Except.ok.inj hw]

/-- A generated name is found beside the outputs of the outer query as without them: an output with this
name repeats the column. -/
theorem find_exact_name (hu : Unambiguous q scope (assemble q scope table recombined) kept)
    {values' : List (Value N)} (hvalues' : cells b (q.select.map fun item =>
      item.expr.replace (replacements q scope recombined)) = .ok values')
    {e : Expr N} (he : e ∈ q.rowExprs) {n : String}
    (hn : ⟨n⟩ ∈ (e.replace (replacements q scope recombined)).columns)
    (hname : IsExactName q recombined ⟨n⟩) :
    (b.insertAll (q.outputBindings values')).find [n] = b.find [n] := by
  have hexact : n ∈ (assemble q scope table recombined).exactNames := by
    rw [exactNames_assemble]
    exact hname
  rcases find_beside_cells hvalues' (List.cons_ne_nil n []) with ⟨-, hsame⟩ |
    ⟨item, -, w, hnamed, hw, hfound⟩
  · exact hsame b
  · have houter : e.replace (replacements q scope recombined) ∈
        (assemble q scope table recombined).outer.rowExprs := by
      simp only [Query.rowExprs, assemble, outerQuery, List.map_map, List.mem_append,
        Option.mem_toList, List.mem_map] at he ⊢
      rcases he with hhaving | ⟨order, horder, rfl⟩
      · exact .inl (by rw [hhaving]; rfl)
      · exact .inr ⟨order, horder, rfl⟩
    have hcolumn := hu.exact _ houter n hexact hn
      (.of (item.expr.replace (replacements q scope recombined)) (some item.name))
      (by simp only [assemble, outputNamed?_outer, hnamed]; rfl)
    have hreplaced : item.expr.replace (replacements q scope recombined) = .ofColumn n :=
      Expr.eq_column hcolumn
    rw [hreplaced] at hw
    have hread := find_of_cell hw
    rw [(isPlain_of_mem_exactNames hexact).parts] at hread
    rw [hfound, hread]

/-- **What filters and orders.**  Beside the outputs, what the outer query filters and orders by has the
value of what the query does. -/
theorem GroupRow.cell_row (h : GroupRow q scope recombined kept g b)
    (hbound : q.Bound catalog scope) (hagg : q.isAggregate = true)
    (hu : Unambiguous q scope (assemble q scope table recombined) kept)
    (hrows : q.RowsUse scope (Expr.Restored kept.length)) {values values' : List (Value N)}
    (hvalues : cells g.bindings (q.select.map fun item =>
      item.expr.replace (g.aggregates q.aggregates)) = .ok values)
    (hvalues' : cells b (q.select.map fun item =>
      item.expr.replace (replacements q scope recombined)) = .ok values')
    {e : Expr N} (he : e ∈ q.rowExprs) {v : Value N}
    (hv : cell (g.bindings.insertAll (q.outputBindings values))
      (e.replace (g.aggregates q.aggregates)) = .ok v) :
    cell (b.insertAll (q.outputBindings values'))
      (e.replace (replacements q scope recombined)) = .ok v := by
  have hout := Query.mem_outputExprs_of_rowExprs he
  refine h.cell_outer hout ?_ ?_ ?_ ?_ (hrows.rows e he) hv
  · intro t ht hkey c hc
    exact h.find_key_column hu hvalues he ht hkey hc
  · intro c hc hkey
    exact h.find_output_column hbound hagg hu hrows hvalues hvalues' he hc hkey
  · intro n hn hname
    exact find_exact_name hu hvalues' he hn hname
  · intro hkey t ht htkey
    exact Expr.ne_of_not_dividesByZero (hu.division _ hout hkey t ht htkey _ (h.mem_kept htkey))

/-- The outer query selects the expressions of the query, rewritten. -/
theorem cells_outer (b : Bindings N) :
    cells b ((assemble q scope table recombined).outer.select.map fun item =>
      item.expr.replace Substitution.empty) =
        cells b (q.select.map fun item => item.expr.replace (replacements q scope recombined)) := by
  simp [assemble, outerQuery, SelectItem.of, Expr.replace_empty, Function.comp_def]

/-- The outer query orders by the expressions of the query, rewritten. -/
theorem sortKeys_outer (b : Bindings N) :
    cells b ((assemble q scope table recombined).outer.orderBy.map fun item =>
      item.expr.replace Substitution.empty) =
        cells b (q.orderBy.map fun item => item.expr.replace (replacements q scope recombined)) := by
  simp [assemble, outerQuery, Expr.replace_empty, Function.comp_def]

/-- **A row of the outer query.**  The outer query gives a row where the query does, under the same
order. -/
theorem GroupRow.outputRow_outer (h : GroupRow q scope recombined kept g b)
    (hbound : q.Bound catalog scope) (hagg : q.isAggregate = true)
    (hu : Unambiguous q scope (assemble q scope table recombined) kept)
    (hrows : q.RowsUse scope (Expr.Restored kept.length)) {values values' : List (Value N)}
    (hvalues : cells g.bindings (q.select.map fun item =>
      item.expr.replace (g.aggregates q.aggregates)) = .ok values)
    (hvalues' : cells b (q.select.map fun item =>
      item.expr.replace (replacements q scope recombined)) = .ok values')
    {row : Option (OutputRow N)}
    (hrow : q.outputRow g.bindings (g.aggregates q.aggregates) = .ok row) :
    (assemble q scope table recombined).outer.outputRow b Substitution.empty =
      .ok (row.map fun r => ⟨values', r.keys⟩) := by
  have hcell : ∀ e ∈ q.rowExprs, ∀ v, cell (g.bindings.insertAll (q.outputBindings values))
      (e.replace (g.aggregates q.aggregates)) = .ok v →
      cell (b.insertAll (q.outputBindings values'))
        (e.replace (replacements q scope recombined)) = .ok v :=
    fun e he v hv => h.cell_row hbound hagg hu hrows hvalues hvalues' he hv
  rw [Query.outputRow, hvalues, ok_bind] at hrow
  obtain ⟨passed, hpassed, hrow⟩ := bind_eq_ok.mp hrow
  have hpassed' : satisfies (b.insertAll (q.outputBindings values'))
      (q.having.map (·.replace (replacements q scope recombined))) = .ok passed := by
    apply satisfies_map_of_cell hpassed
    intro e he v hv
    exact hcell e (List.mem_append_left _ (Option.mem_toList.mpr he)) v hv
  have hhaving : (assemble q scope table recombined).outer.having.map
      (·.replace Substitution.empty) =
        q.having.map (·.replace (replacements q scope recombined)) := by
    cases hhaving : q.having <;> simp [assemble, outerQuery, hhaving, Expr.replace_empty]
  have hnames : (assemble q scope table recombined).outer.names = q.names :=
    names_outerQuery q _ _
  rw [Query.outputRow, cells_outer, hvalues', ok_bind]
  simp only [hnames, hhaving]
  refine bind_eq_ok.mpr ⟨passed, hpassed', ?_⟩
  cases passed with
  | false =>
      cases hrow
      rfl
  | true =>
      obtain ⟨keys, hkeys, hrow⟩ := bind_eq_ok.mp hrow
      cases hrow
      have horder : cells (b.insertAll (q.outputBindings values'))
          ((assemble q scope table recombined).outer.orderBy.map fun item =>
            item.expr.replace Substitution.empty) = .ok keys := by
        rw [sortKeys_outer]
        apply cells_map_of_cell hkeys
        intro item hitem v hv
        exact hcell _ (List.mem_append_right _ (List.mem_map_of_mem hitem)) v hv
      exact bind_eq_ok.mpr ⟨keys, horder, rfl⟩

end OuterRow

end Plan

end PrivateSql
