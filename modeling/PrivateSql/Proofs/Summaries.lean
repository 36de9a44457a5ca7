import PrivateSql.Proofs.NameCollisions
import PrivateSql.Proofs.NoisedCells
/-!
# Releases of summaries

A summary gives group keys and aggregates as they are, and orders by such.  Its outer query is executed
over noised rows, which are not those of any table.  It answers all the same: each cell is that of a
noised row, or is put together from such cells, and no operator fails, except by dividing by a count
of 0.  One thing can come between: an output that shows a key under the name of a noised column hides
that column from the formulas that order the rows, and keys may be anything.

* `Query.IsSummary` — a query of keys and aggregates;
* `Plan.IsReleasable`, `Plan.CellOf` — a noised row, and the cells that are made of it;
* `Plan.exists_cell_of_item`, `Plan.exists_sortKey` — what a row shows, and what it is ordered by;
* `Plan.execute_summary` — the outer query of a summary answers over noised rows.
-/

namespace PrivateSql

variable {N : Type} [Number N]

namespace Query

/-- **A summary.**  It gives group keys and aggregates as they are, without a second condition, and orders
by keys, by aggregates or by outputs that are not named with a dot. -/
structure IsSummary (q : Query N) (scope : Scope N) : Prop where
  select : ∀ item ∈ q.select, q.standsForKey scope item.expr = true ∨ item.expr.isAggregate = true
  having : q.having = none
  orderBy : ∀ order ∈ q.orderBy, q.standsForKey scope order.expr = true ∨
    order.expr.isAggregate = true ∨ ∃ c ∈ order.expr.column?, c.parts = [c.text]

instance (q : Query N) (scope : Scope N) : Decidable (q.IsSummary scope) :=
  decidable_of_iff
    ((∀ item ∈ q.select, q.standsForKey scope item.expr = true ∨ item.expr.isAggregate = true) ∧
      q.having.isNone ∧
      ∀ order ∈ q.orderBy, q.standsForKey scope order.expr = true ∨
        order.expr.isAggregate = true ∨ ∃ c ∈ order.expr.column?, c.parts = [c.text])
    ⟨fun h => ⟨h.1, Option.isNone_iff_eq_none.mp h.2.1, h.2.2⟩,
      fun h => ⟨h.select, Option.isNone_iff_eq_none.mpr h.having, h.orderBy⟩⟩

end Query

namespace Plan

/-! ## Noised rows -/

/-- A value that stands on a row in the column of an expression, or of one that is written alike. -/
def Shows (p : Plan N) (row : List (Value N)) (e : Expr N) (v : Value N) : Prop :=
  ∃ (k : Nat) (item : SelectItem N), p.inner.select[k]? = some item ∧ item.expr.tree = e.tree ∧
    row[k]? = some v

/-- **A noised row.**  It has a cell for each column, and in the column of a raw aggregate one that this
aggregate can be released as.  The cells of keys may be anything. -/
structure IsReleasable (p : Plan N) (row : List (Value N)) : Prop where
  width : row.length = p.exactNames.length
  released : ∀ x ∈ p.inner.select.zip row, ∀ f ∈ x.1.expr.function?, x.2.IsReleased f

instance (p : Plan N) (row : List (Value N)) : Decidable (p.IsReleasable row) :=
  decidable_of_iff (row.length = p.exactNames.length ∧
      ∀ x ∈ p.inner.select.zip row, ∀ f ∈ x.1.expr.function?, x.2.IsReleased f)
    ⟨fun h => ⟨h.1, h.2⟩, fun h => ⟨h.width, h.released⟩⟩

/-- No output that shows a key has the name of a column that is read by a formula to order by. -/
def KeepsFormulas (p : Plan N) (q : Query N) (scope : Scope N) : Prop :=
  ∀ order ∈ p.outer.orderBy, order.expr.column? = none → ∀ c ∈ order.expr.columns,
    ∀ item ∈ q.outputNamed? c.parts, q.standsForKey scope item.expr = false

instance (p : Plan N) (q : Query N) (scope : Scope N) : Decidable (p.KeepsFormulas q scope) :=
  inferInstanceAs (Decidable (∀ order ∈ p.outer.orderBy, order.expr.column? = none →
    ∀ c ∈ order.expr.columns, ∀ item ∈ q.outputNamed? c.parts,
      q.standsForKey scope item.expr = false))

/-- **What a cell of the outer query is**, on a noised row: the cell of a key that the expression stands
for, or the cell of an aggregate that is written like it, from its noised cells. -/
inductive CellOf (p : Plan N) (q : Query N) (scope : Scope N) (row : List (Value N)) :
    Expr N → Value N → Prop
  | key {e key v} (mem : key ∈ q.groupBy) (isKey : Query.isKey scope key e = true)
      (shown : p.Shows row key v) : CellOf p q scope row e v
  | aggregate {e a v} (mem : a ∈ q.aggregates) (same : a.tree = e.tree)
      (recombined : RecombinedCell (p.Shows row) a v) : CellOf p q scope row e v

omit [Number N] in
theorem Shows.of_tree {p : Plan N} {row : List (Value N)} {e e' : Expr N} {v : Value N}
    (h : p.Shows row e v) (htree : e.tree = e'.tree) : p.Shows row e' v := by
  obtain ⟨k, item, hitem, hsame, hv⟩ := h
  exact ⟨k, item, hitem, hsame.trans htree, hv⟩

namespace IsReleasable

variable {p : Plan N} {row : List (Value N)} {e : Expr N} {v : Value N}

/-- What a noised row shows for an aggregate is released as one. -/
theorem of_shows (h : p.IsReleasable row) (hshown : p.Shows row e v) {f : AggregateFunction}
    (hf : e.function? = some f) : v.IsReleased f := by
  obtain ⟨k, item, hitem, htree, hv⟩ := hshown
  have hzip : (item, v) ∈ p.inner.select.zip row :=
    List.mem_of_getElem? (List.getElem?_zip_eq_some.mpr ⟨hitem, hv⟩)
  exact h.released _ hzip f ((Expr.function?_of_tree htree).trans hf)

/-- What is put together from released cells is an operand, whatever the aggregate. -/
theorem isOperand (h : p.IsReleasable row) (hcell : RecombinedCell (p.Shows row) e v) :
    v.IsOperand := by
  have hstatistic : ∀ {x : N} {k : Int64}, (v = .null ↔ k = 0) → (k ≠ 0 → v = .float x) →
      v.IsOperand := by
    intro x k hnull hvalue
    by_cases hk : k = 0
    · exact .inl (hnull.mpr hk)
    · exact .inr (by rw [hvalue hk]; rfl)
  cases hcell with
  | raw isRaw shown =>
      obtain ⟨f, hf, -⟩ := isRaw
      exact .inr (h.of_shows shown hf).isSome
  | mean _ _ _ null value => exact hstatistic null value
  | variance _ _ _ _ _ null value => exact hstatistic null value
  | deviation _ _ _ _ _ _ value =>
      by_cases hnull : v = .null
      · exact .inl hnull
      · exact .inr (by rw [value hnull]; rfl)

end IsReleasable

/-- **A planned summary**: a summary that is bound, with the parts of its plan, whose names hide
nothing. -/
structure PlannedSummary (q : Query N) (catalog : Catalog N) (scope : Scope N) (table : Schema N)
    (recombined : List (Recombination N)) : Prop where
  bound : q.Bound catalog scope
  aggregates : q.isAggregate = true
  recombines : q.aggregates.mapM Recombination.of = .ok recombined
  summary : q.IsSummary scope
  free : (assemble q scope table recombined).IsCollisionFree q
  keeps : (assemble q scope table recombined).KeepsFormulas q scope

namespace PlannedSummary

variable {q : Query N} {catalog : Catalog N} {scope : Scope N} {table : Schema N}
variable {recombined : List (Recombination N)} {row values : List (Value N)} {b : Bindings N}

/-! ## What the columns hold -/

/-- A column of the inner query is found by its name, with a cell that stands there. -/
theorem exists_shown (h : PlannedSummary q catalog scope table recombined)
    (hrow : (assemble q scope table recombined).IsReleasable row) {i : SelectItem N}
    (hi : i ∈ (innerQuery q (rawAggregates q recombined)).select) :
    ∃ v, (assemble q scope table recombined).Shows row i.expr v ∧
      (rowBindings [exactPath] (assemble q scope table recombined).exactNames row).find [i.name] =
        .one v := by
  obtain ⟨k, j, v, hj, hv, -, -, hfound, -, htree⟩ := find_exact_item h.recombines hrow.width hi
  exact ⟨v, ⟨k, j, hj, htree h.free, hv⟩, hfound⟩

/-- A key is read from its column. -/
theorem exists_key (h : PlannedSummary q catalog scope table recombined) {e : Expr N}
    (he : e ∈ q.outputExprs) (hkey : q.standsForKey scope e = true) :
    ∃ key ∈ q.groupBy, Query.isKey scope key e = true ∧
      e.replace (replacements q scope recombined) = .ofColumn (keyName key) ∧
      .of key (some (keyName key)) ∈ (innerQuery q (rawAggregates q recombined)).select := by
  obtain ⟨key, hmem, hisKey, hreplace⟩ := @exists_key_of_replace _ _ _ recombined h.bound.groupBy
    e e he (Expr.mem_subterms_self e) hkey
  exact ⟨key, hmem, hisKey, hreplace, mem_inner_select.mpr (.inl ⟨key, hmem, rfl⟩)⟩

/-- The formula of an aggregate reads columns of raw aggregates: each is written like one of the inner
query, and has its name. -/
theorem exists_formula (h : PlannedSummary q catalog scope table recombined) {e : Expr N}
    (he : e ∈ q.outputExprs) (hagg : e.isAggregate = true) (hkey : q.standsForKey scope e = false) :
    ∃ a ∈ q.aggregates, a.tree = e.tree ∧ ∃ r, Recombination.of a = .ok r ∧
      e.replace (replacements q scope recombined) = r.formula ∧
      ∀ x ∈ r.raw, ∃ i ∈ (innerQuery q (rawAggregates q recombined)).select,
        i.expr.tree = x.tree ∧ i.name = x.columnName := by
  have hself : e ∈ e.aggregates := List.mem_filter.mpr ⟨Expr.mem_subterms_self e, hagg⟩
  obtain ⟨formula, hfound⟩ := Option.isSome_iff_exists.mp
    (@isSome_replacements_of_aggregate _ _ scope _ _ _ h.recombines he hself)
  obtain ⟨⟨a, r⟩, hzip, htree, rfl⟩ := exists_aggregate_of_find? hkey hfound
  have hof := eq_ok_of_mem_zip h.recombines hzip
  refine ⟨a, (List.of_mem_zip hzip).1, htree, r, hof, Expr.replace_of_some hfound, fun x hx => ?_⟩
  obtain ⟨x', hx', htree'⟩ := exists_mem_rawAggregates (List.of_mem_zip hzip).2 hx
  have hraw := (Recombination.of_spec hof).1 x hx
  have hraw' := isRawAggregate_of_mem_rawAggregates h.recombines hx'
  exact ⟨.of x' (some x'.columnName), mem_inner_select.mpr (.inr ⟨x', hx', rfl⟩), htree',
    Expr.columnName_congr hraw'.isAggregate hraw.isAggregate htree'⟩

/-! ## What a row shows -/

/-- **What a row shows.**  Every item of a summary has a cell, that of a key or that of an aggregate. -/
theorem exists_cell_of_item (h : PlannedSummary q catalog scope table recombined)
    (hzero : TellsZero N) (hrow : (assemble q scope table recombined).IsReleasable row)
    {item : SelectItem N} (hitem : item ∈ q.select) :
    ∃ v, cell (rowBindings [exactPath] (assemble q scope table recombined).exactNames row)
        (item.expr.replace (replacements q scope recombined)) = .ok v ∧
      (assemble q scope table recombined).CellOf q scope row item.expr v := by
  have he := Query.mem_outputExprs_of_select hitem
  cases hkey : q.standsForKey scope item.expr with
  | true =>
      obtain ⟨key, hmem, hisKey, hreplace, hinner⟩ := h.exists_key he hkey
      obtain ⟨v, hshown, hfound⟩ := h.exists_shown hrow hinner
      refine ⟨v, ?_, .key hmem hisKey hshown⟩
      rw [hreplace, cell, GroupRow.evaluate_ofColumn (isPlain_keyName key) hfound]
  | false =>
      have hagg := (h.summary.select item hitem).resolve_left (by simp [hkey])
      obtain ⟨a, hmem, hsame, r, hof, hreplace, hinner⟩ := h.exists_formula he hagg hkey
      have hcells : ∀ x ∈ r.raw, ∀ f, x.function? = some f → ∃ v,
          (Expr.ofColumn x.columnName).evaluate
              (rowBindings [exactPath] (assemble q scope table recombined).exactNames row) = .ok v ∧
            (assemble q scope table recombined).Shows row x v ∧ v.IsReleased f := by
        intro x hx f hf
        obtain ⟨i, hi, htree, hname⟩ := hinner x hx
        obtain ⟨v, hshown, hfound⟩ := h.exists_shown hrow hi
        rw [hname] at hfound
        have hshown := hshown.of_tree htree
        exact ⟨v, GroupRow.evaluate_ofColumn (isPlain_columnName x) hfound, hshown,
          hrow.of_shows hshown hf⟩
      obtain ⟨v, hv, hcell⟩ := Recombination.cell_of_released hzero hof hcells
      exact ⟨v, by rw [hreplace, hv], .aggregate hmem hsame hcell⟩

/-! ## What a row is ordered by -/

section Beside

variable (hvalues : List.Forall₂ (fun item v =>
  (assemble q scope table recombined).CellOf q scope row item.expr v) q.select values)

include hvalues

/-- Beside the outputs, a column of the inner query is found, or an output of its name is. -/
theorem find_beside (h : PlannedSummary q catalog scope table recombined)
    (hrow : (assemble q scope table recombined).IsReleasable row) {i : SelectItem N}
    (hi : i ∈ (innerQuery q (rawAggregates q recombined)).select) :
    ∃ v, ((rowBindings [exactPath] (assemble q scope table recombined).exactNames row).insertAll
        (q.outputBindings values)).find [i.name] = .one v ∧
      ((assemble q scope table recombined).Shows row i.expr v ∨
        ∃ item ∈ q.outputNamed? [i.name],
          (assemble q scope table recombined).CellOf q scope row item.expr v) := by
  rcases Query.find_beside_outputs hvalues (List.cons_ne_nil i.name []) with
    ⟨-, hsame⟩ | ⟨item, v, hnamed, hcell, hfound⟩
  · obtain ⟨v, hshown, hv⟩ := h.exists_shown hrow hi
    exact ⟨v, by rw [hsame, hv], .inl hshown⟩
  · exact ⟨v, hfound _, .inr ⟨item, hnamed, hcell⟩⟩

/-- A column that names an output is ordered by this output. -/
theorem exists_sortKey_of_output (h : PlannedSummary q catalog scope table recombined)
    {c : Identifier} (hc : .column c ∈ q.rowExprs) (hkey : q.standsForKey scope (.column c) = false)
    (hparts : c.parts = [c.text]) :
    ∃ v, cell (b.insertAll (q.outputBindings values))
      ((Expr.column c).replace (replacements q scope recombined)) = .ok v := by
  have hself : (Expr.column c).replace (replacements q scope recombined) = .column c := by
    refine Expr.replace_eq_self fun t ht => ?_
    obtain rfl : t = .column c := by simpa [Expr.subterms] using ht
    rw [Option.eq_none_iff_forall_ne_some]
    intro r hr
    obtain ⟨a, hzip, htree, -⟩ := exists_aggregate_of_find? hkey hr
    have hcolumn := Expr.isAggregate_of_tree htree (isAggregate_of_mem (List.of_mem_zip hzip).1)
    cases hcolumn
  have hout : Query.isOutput q.names c = true := by
    have hgrouped := h.bound.groupedOutput h.aggregates _ hc
    rw [Query.standsForKey] at hkey
    simpa [Query.isGrouped, hkey] using hgrouped
  rw [← Query.isSome_outputNamed?_iff hparts] at hout
  rcases Query.find_beside_outputs hvalues c.parts_ne_nil with ⟨hnone, -⟩ | ⟨_, v, -, -, hfound⟩
  · rw [hnone] at hout
    cases hout
  · exact ⟨v, by rw [hself, cell, Expr.evaluate, hfound b]⟩

/-- The formula of an aggregate has a cell beside the outputs: if an output hides one of its columns, it
shows an aggregate. -/
theorem exists_sortKey_of_aggregate (h : PlannedSummary q catalog scope table recombined)
    (hrow : (assemble q scope table recombined).IsReleasable row) {order : OrderItem N}
    (horder : order ∈ q.orderBy) (hkey : q.standsForKey scope order.expr = false)
    (hagg : order.expr.isAggregate = true) :
    ∃ v, cell ((rowBindings [exactPath] (assemble q scope table recombined).exactNames row).insertAll
        (q.outputBindings values)) (order.expr.replace (replacements q scope recombined)) = .ok v := by
  have he := Query.mem_outputExprs_of_rowExprs
    (List.mem_append_right _ (List.mem_map_of_mem horder) : order.expr ∈ q.rowExprs)
  obtain ⟨a, -, -, r, hof, hreplace, hinner⟩ := h.exists_formula he hagg hkey
  have houter : ⟨r.formula, order.ascending⟩ ∈ (assemble q scope table recombined).outer.orderBy :=
    List.mem_map.mpr ⟨order, horder, by rw [hreplace]⟩
  rw [hreplace]
  rcases Recombination.raw_or_statistic hof with hisRaw | hstatistic
  · -- One column, and it may hold anything.
    rw [Recombination.eq_ofRaw hisRaw hof] at hinner ⊢
    obtain ⟨i, hi, -, hname⟩ := hinner a (List.mem_singleton_self a)
    obtain ⟨v, hfound, -⟩ := h.find_beside hvalues hrow hi
    rw [hname] at hfound
    exact ⟨v, by rw [Recombination.ofRaw, cell,
      GroupRow.evaluate_ofColumn (isPlain_columnName a) hfound]⟩
  · have hcompound : r.formula.column? = none := by
      obtain ⟨x, h | h | h⟩ := hstatistic <;> rw [h] at hof <;> cases hof <;> rfl
    refine Recombination.exists_cell hof fun x hx => ?_
    obtain ⟨i, hi, htree, hname⟩ := hinner x hx
    obtain ⟨v, hfound, hcell⟩ := h.find_beside hvalues hrow hi
    rw [hname] at hfound hcell
    refine ⟨v, GroupRow.evaluate_ofColumn (isPlain_columnName x) hfound, ?_⟩
    rcases hcell with hshown | ⟨item, hitem, hcell⟩
    · obtain ⟨f, hf, -⟩ := (Recombination.of_spec hof).1 x hx
      exact .inr (hrow.of_shows (hshown.of_tree htree) hf).isSome
    · have hread := (Recombination.reads_raw hof).2 x hx
      have hnotKey := h.keeps _ houter hcompound _ hread item
        (by rw [(isPlain_columnName x).parts]; exact hitem)
      cases hcell with
      | key mem isKey _ =>
          rw [Query.standsForKey_iff.mpr ⟨_, mem, isKey⟩] at hnotKey
          cases hnotKey
      | aggregate _ _ recombined => exact hrow.isOperand recombined

/-- **What a row is ordered by.**  Beside the outputs of the row, everything that a summary orders by has
a cell. -/
theorem exists_sortKey (h : PlannedSummary q catalog scope table recombined)
    (hrow : (assemble q scope table recombined).IsReleasable row) {order : OrderItem N}
    (horder : order ∈ q.orderBy) :
    ∃ v, cell ((rowBindings [exactPath] (assemble q scope table recombined).exactNames row).insertAll
        (q.outputBindings values)) (order.expr.replace (replacements q scope recombined)) = .ok v := by
  have hmem : order.expr ∈ q.rowExprs := List.mem_append_right _ (List.mem_map_of_mem horder)
  cases hkey : q.standsForKey scope order.expr with
  | true =>
      obtain ⟨key, -, -, hreplace, hinner⟩ :=
        h.exists_key (Query.mem_outputExprs_of_rowExprs hmem) hkey
      obtain ⟨v, hfound, -⟩ := h.find_beside hvalues hrow hinner
      exact ⟨v, by rw [hreplace, cell, GroupRow.evaluate_ofColumn (isPlain_keyName key) hfound]⟩
  | false =>
      rcases (h.summary.orderBy order horder).resolve_left (by simp [hkey]) with hagg | ⟨c, hc, hparts⟩
      · exact h.exists_sortKey_of_aggregate hvalues hrow horder hkey hagg
      · rw [Expr.eq_column hc] at hmem hkey ⊢
        exact h.exists_sortKey_of_output hvalues hmem hkey hparts

end Beside

/-! ## The answer -/

/-- **A row of the answer.**  Every noised row gives one. -/
theorem exists_outputRow (h : PlannedSummary q catalog scope table recombined)
    (hzero : TellsZero N) (hrow : (assemble q scope table recombined).IsReleasable row) :
    ∃ out : OutputRow N, (assemble q scope table recombined).outer.outputRow
        (rowBindings [exactPath] (assemble q scope table recombined).exactNames row)
        Substitution.empty = .ok (some out) ∧
      List.Forall₂ (fun item v =>
        (assemble q scope table recombined).CellOf q scope row item.expr v) q.select out.values := by
  obtain ⟨values, hvalues⟩ := exists_forall₂ fun item hitem => h.exists_cell_of_item hzero hrow hitem
  have hcells := cells_map_eq_ok.mpr (hvalues.imp fun _ _ hcell => hcell.1)
  have hshown := hvalues.imp fun _ _ hcell => hcell.2
  obtain ⟨keys, hsortKeys⟩ := exists_forall₂ fun order horder => h.exists_sortKey hshown hrow horder
  have hkeys := cells_map_eq_ok.mpr hsortKeys
  refine ⟨⟨values, keys⟩, ?_, hshown⟩
  have hnames : (assemble q scope table recombined).outer.names = q.names := names_outerQuery q _ _
  have hhaving : (assemble q scope table recombined).outer.having = none := by
    simp [assemble, outerQuery, h.summary.having]
  rw [Query.outputRow, cells_outer, hcells, ok_bind]
  simp only [hnames, hhaving, Option.map_none]
  refine bind_eq_ok.mpr ⟨true, rfl, bind_eq_ok.mpr ⟨keys, ?_, rfl⟩⟩
  rw [sortKeys_outer]
  exact hkeys

/-- **The outer query of a summary answers**, over any noised rows: each gives a row of its cells, and
these rows are ordered, then cut to the limit. -/
theorem execute (h : PlannedSummary q catalog scope table recombined) (hzero : TellsZero N)
    {rows : List (List (Value N))}
    (hrows : ∀ row ∈ rows, (assemble q scope table recombined).IsReleasable row) :
    ∃ given ordered : List (List (Value N)),
      List.Forall₂ (fun row values => List.Forall₂ (fun item v =>
        (assemble q scope table recombined).CellOf q scope row item.expr v) q.select values) rows given ∧
      ordered.Perm given ∧
      (assemble q scope table recombined).outer.execute [exactPath]
          (assemble q scope table recombined).exactNames rows =
        .ok ⟨q.names, q.rowLimit.elim ordered ordered.take⟩ := by
  obtain ⟨outputs, houtputs⟩ := exists_forall₂ fun row hrow => h.exists_outputRow hzero (hrows row hrow)
  have hgiven : (assemble q scope table recombined).outer.outputRows
      ((rows.map (rowBindings [exactPath] (assemble q scope table recombined).exactNames)).map
        fun b => (b, Substitution.empty)) = .ok outputs := by
    refine Query.outputRows_eq_ok.mpr ⟨outputs.map some, ?_, by simp [List.flatMap_map]⟩
    rw [List.forall₂_map_left_iff, List.forall₂_map_left_iff, List.forall₂_map_right_iff]
    exact houtputs.imp fun _ _ hout => hout.1
  have hexecute := Query.execute_eq_ok.mpr ⟨_, _, outputs, filterRows_none _,
    sources_outer table h.bound h.aggregates h.recombines _, hgiven, rfl⟩
  let compare := fun l r : OutputRow N =>
    compareKeys ((assemble q scope table recombined).outer.orderBy.map (·.ascending)) l.keys r.keys
  refine ⟨outputs.map (·.values), (stableSort compare outputs).map (·.values), ?_,
    (stableSort_perm compare outputs).map _, hexecute.trans ?_⟩
  · rw [List.forall₂_map_right_iff]
    exact houtputs.imp fun _ _ hout => hout.2
  · have hlimit : (assemble q scope table recombined).outer.rowLimit = q.rowLimit := rfl
    have hnames : (assemble q scope table recombined).outer.names = q.names := names_outerQuery q _ _
    simp only [Query.arrange, hlimit, hnames]
    cases q.rowLimit with
    | none => rfl
    | some n => simp [compare, List.map_take]

end PlannedSummary

/-- A summary that is planned, and whose names hide nothing, is a planned summary. -/
theorem plannedSummary_of {q : Query N} {catalog : Catalog N} {scope : Scope N} {p : Plan N}
    (hscope : q.bind catalog = .ok scope) (hplan : Plan.of q catalog = .ok p)
    (hsummary : q.IsSummary scope) (hfree : p.IsCollisionFree q) (hkeeps : p.KeepsFormulas q scope) :
    ∃ table recombined, p = assemble q scope table recombined ∧
      PlannedSummary q catalog scope table recombined := by
  obtain ⟨planScope, table, recombined, hbound, -, hagg, hrecombined, rfl⟩ := of_eq_ok hplan
  obtain rfl : planScope = scope := hbound.scope_unique (Query.bound_of_bind hscope)
  exact ⟨table, recombined, rfl, hbound, hagg, hrecombined, hsummary, hfree, hkeeps⟩

/-- **Noise never makes a summary fail**, as long as names hide nothing.  Let a query that gives and
orders by group keys and aggregates be planned, its generated names be different where its keys and its
raw aggregates are, and no output that shows a key have the name of a column that is read by a formula
to order by.  Over any noised rows its outer query answers: each row gives one, which is then ordered
and cut to the limit.  A cell of a key or of a raw aggregate is that of the noised row; a mean and a
variance are `NULL` exactly when the noised count of the argument is 0, and a deviation also when the
variance is negative. -/
theorem execute_summary {q : Query Binary64} {catalog : Catalog Binary64} {scope : Scope Binary64}
    {p : Plan Binary64} (hscope : q.bind catalog = .ok scope) (hplan : Plan.of q catalog = .ok p)
    (hsummary : q.IsSummary scope) (hfree : p.IsCollisionFree q) (hkeeps : p.KeepsFormulas q scope)
    {rows : List (List (Value Binary64))} (hrows : ∀ row ∈ rows, p.IsReleasable row) :
    ∃ given ordered : List (List (Value Binary64)),
      List.Forall₂ (fun row values => List.Forall₂ (fun item v => p.CellOf q scope row item.expr v)
        q.select values) rows given ∧
      ordered.Perm given ∧
      p.outer.execute [exactPath] p.exactNames rows =
        .ok ⟨q.names, q.rowLimit.elim ordered ordered.take⟩ := by
  obtain ⟨table, recombined, rfl, hplanned⟩ := plannedSummary_of hscope hplan hsummary hfree hkeeps
  exact hplanned.execute tellsZero_binary64 hrows

/-- A summary by a condition, with a mean, a deviation and the number of rows. -/
def summaryText : String :=
  "SELECT x > 1 AS b, AVG(x) AS a, STD(x) AS s, COUNT(*) AS n FROM t GROUP BY x > 1 ORDER BY AVG(x), n"

/-- Noised rows of it: the count of an argument is 0, the variance is negative, and a sum is infinite and
the sum of the squares no number. -/
def summaryRows : List (List (Value Binary64)) :=
  [[.boolean true, .integer 0, .integer 7, .integer (-2), .integer 3],
    [.boolean false, .integer 4, .integer 8, .integer 2, .integer 0],
    [.null, .integer 1, .float (Binary64.infinity true), .float Binary64.quietNaN, .integer 1]]

/-- Three noised rows that no table has are answered by three rows. -/
theorem execute_summary_noised :
    ∃ q p answer, Query.parse summaryText = .ok q ∧
      Plan.of q (integerDataset Binary64 [0, 1, 5]).catalog = .ok p ∧
      p.outer.execute [exactPath] p.exactNames summaryRows = .ok answer ∧ answer.rows.length = 3 := by
  have hruns : ((planText [0, 1, 5] summaryText).bind fun x =>
      (x.1.bind (integerDataset Binary64 [0, 1, 5]).catalog).toOption.map fun scope =>
        decide (x.1.IsSummary scope ∧ x.2.IsCollisionFree x.1 ∧ x.2.KeepsFormulas x.1 scope ∧
          (∀ row ∈ summaryRows, x.2.IsReleasable row) ∧ x.1.rowLimit = none)) = some true := by
    decide +kernel
  obtain ⟨⟨q, p⟩, hx, hbind⟩ := Option.bind_eq_some_iff.mp hruns
  obtain ⟨scope, hscope, hchecks⟩ := Option.map_eq_some_iff.mp hbind
  obtain ⟨hsummary, hfree, hkeeps, hrows, hlimit⟩ := of_decide_eq_true hchecks
  obtain ⟨hq, hp⟩ := planText_eq_some hx
  rw [toOption_eq_some] at hscope
  obtain ⟨given, ordered, hgiven, hperm, hanswer⟩ :=
    execute_summary hscope hp hsummary hfree hkeeps hrows
  refine ⟨q, p, _, hq, hp, hanswer, ?_⟩
  rw [hlimit, Option.elim_none, hperm.length_eq, ← hgiven.length_eq]
  rfl

/-- **A key in the place of a sum.**  An output that shows a key under the generated name of a sum hides
the sum from the mean that orders the rows, and no released row is answered. -/
theorem summary_fails :
    ∃ q p scope, Query.parse (N := Binary64)
        "SELECT x > 1 AS sum_z0vy5g, AVG(x) AS a FROM t GROUP BY x > 1 ORDER BY AVG(x)" = .ok q ∧
      Plan.of q (integerDataset Binary64 [0, 1, 5]).catalog = .ok p ∧
      q.bind (integerDataset Binary64 [0, 1, 5]).catalog = .ok scope ∧
      q.IsSummary scope ∧ p.IsCollisionFree q ∧
      p.IsReleasable [.boolean false, .integer 5, .integer 2, .integer 5] ∧
      errorOf (p.outer.execute [exactPath] p.exactNames
        [[.boolean false, .integer 5, .integer 2, .integer 5]]) =
          some (.operation (.invalidOperation "/" "false" "5")) := by
  have hruns : ((planText [0, 1, 5]
      "SELECT x > 1 AS sum_z0vy5g, AVG(x) AS a FROM t GROUP BY x > 1 ORDER BY AVG(x)").bind fun x =>
      (x.1.bind (integerDataset Binary64 [0, 1, 5]).catalog).toOption.map fun scope =>
        decide (x.1.IsSummary scope ∧ x.2.IsCollisionFree x.1 ∧
          x.2.IsReleasable [.boolean false, .integer 5, .integer 2, .integer 5] ∧
          errorOf (x.2.outer.execute [exactPath] x.2.exactNames
            [[.boolean false, .integer 5, .integer 2, .integer 5]]) =
              some (.operation (.invalidOperation "/" "false" "5")))) = some true := by
    decide +kernel
  obtain ⟨⟨q, p⟩, hx, hbind⟩ := Option.bind_eq_some_iff.mp hruns
  obtain ⟨scope, hscope, hchecks⟩ := Option.map_eq_some_iff.mp hbind
  obtain ⟨hq, hp⟩ := planText_eq_some hx
  exact ⟨q, p, scope, hq, hp, toOption_eq_some.mp hscope, of_decide_eq_true hchecks⟩

end Plan

end PrivateSql
