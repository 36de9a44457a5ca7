import PrivateSql.Proofs.BindingSoundness
import PrivateSql.Proofs.KeyParts
/-!
# The rows that stand for a group

What a query gives for a group is evaluated on its first row.  The grouping check lets pass what is made
of keys, of aggregates and of outputs, and the rows of a group have the same keys.  So any row of the
group would do, as long as the parts are evaluated as they were checked: a key beside an output that
hides one of its columns is not, nor is an output whose name is taken for a path; and a key that divides
by zero gives `NULL` like one that is `NULL`, but not to the expression that it stands in.

* `Query.Uniform` — the names and the divisions that do no harm;
* `Query.Twins`, `Query.Twins.cell_select`, `Query.Twins.cell_row` — two rows with the same keys give the
  same cells;
* `Dataset.IsBuilt.groups_uniform` — each row of a group stands for it;
* `Dataset.groups_depend` — groups that depend on the row that stands for them.
-/

namespace PrivateSql

variable {N : Type} [Number N]

namespace Query

/-- Of the columns of an expression the outputs hide all or none, but for outputs that repeat the column that
they hide. -/
def Unmixed (q : Query N) (scope : Scope N) (t : Expr N) : Prop :=
  (∀ c ∈ t.columns, ∀ item ∈ q.outputNamed? c.parts,
    ∃ c' ∈ item.expr.column?, isKey scope (.column c') (.column c : Expr N) = true) ∨
  ∀ c ∈ t.columns, (q.outputNamed? c.parts).isSome = true

omit [Number N] in
instance (q : Query N) (scope : Scope N) (t : Expr N) : Decidable (q.Unmixed scope t) :=
  inferInstanceAs (Decidable (_ ∨ _))

/-- **Harmless names and divisions.**  What has to hold of a query and of the rows of a group for each row
to give the same cells:

* constants are told by their texts, as keys are;
* of the columns of a key that filters or orders, the outputs hide all or none, but for outputs that
  repeat the column that they hide;
* an output that filters or orders is not named with a dot;
* a key inside a larger expression divides by zero on all rows of the group or on none. -/
structure Uniform (q : Query N) (scope : Scope N) (rows : List (Bindings N)) : Prop where
  legible : q.Legible
  keys : ∀ e ∈ q.rowExprs, ∀ t ∈ q.partsOf scope e, q.standsForKey scope t = true →
    q.Unmixed scope t
  outputs : ∀ e ∈ q.rowExprs, ∀ t ∈ q.partsOf scope e, q.standsForKey scope t = false →
    ∀ c ∈ t.column?, c.parts = [c.text]
  division : ∀ e ∈ q.outputExprs, q.standsForKey scope e = false → ∀ t ∈ q.partsOf scope e,
    q.standsForKey scope t = true → ∀ b ∈ rows, ∀ b' ∈ rows, t.dividesByZero b = t.dividesByZero b'

instance (q : Query N) (scope : Scope N) (rows : List (Bindings N)) :
    Decidable (q.Uniform scope rows) :=
  decidable_of_iff
    (q.Legible ∧
      (∀ e ∈ q.rowExprs, ∀ t ∈ q.partsOf scope e, q.standsForKey scope t = true →
        q.Unmixed scope t) ∧
      (∀ e ∈ q.rowExprs, ∀ t ∈ q.partsOf scope e, q.standsForKey scope t = false →
        ∀ c ∈ t.column?, c.parts = [c.text]) ∧
      ∀ e ∈ q.outputExprs, q.standsForKey scope e = false → ∀ t ∈ q.partsOf scope e,
        q.standsForKey scope t = true → ∀ b ∈ rows, ∀ b' ∈ rows,
          t.dividesByZero b = t.dividesByZero b')
    ⟨fun h => ⟨h.1, h.2.1, h.2.2.1, h.2.2.2⟩, fun h => ⟨h.legible, h.keys, h.outputs, h.division⟩⟩

/-! ## What follows from the parts -/

/-- **An expression follows itself** from one row to another, its aggregates replaced, as soon as the keys
inside do and the other columns have the same value. -/
theorem follows_of_keys {q : Query N} (scope : Scope N) {g : Group N} {e : Expr N}
    {x y : Bindings N}
    (hkeys : ∀ t ∈ q.partsOf scope e, q.standsForKey scope t = true →
      t.aggregates = [] ∧ Follows (t.evaluate x) (t.evaluate y))
    (hcolumns : ∀ c, .column c ∈ q.partsOf scope e → q.standsForKey scope (.column c) = false →
      x.find c.parts = y.find c.parts) :
    Follows ((e.replace (g.aggregates q.aggregates)).evaluate x)
      ((e.replace (g.aggregates q.aggregates)).evaluate y) := by
  -- What stands above the keys is no aggregate, so nothing is replaced there.
  have hkept : ∀ t ∈ e.subterms, q.standsForKey scope t = false → t.isComposite = true →
      (g.aggregates q.aggregates).find? t = none ∧
        (g.aggregates q.aggregates).find? t = none := by
    intro t _ _ hcomposite
    have hplain : t.isAggregate = false := by cases t <;> first | rfl | cases hcomposite
    have hnone : (g.aggregates q.aggregates).find? t = none :=
      Group.find?_eq_none (fun a ha => isAggregate_of_mem ha) hplain
    exact ⟨hnone, hnone⟩
  refine follows_of_parts hkept fun t ht => ?_
  by_cases hkey : q.standsForKey scope t = true
  · obtain ⟨hnone, hfollows⟩ := hkeys t ht hkey
    rw [Group.replace_eq_self (fun a ha => isAggregate_of_mem ha) hnone]
    exact hfollows
  · rw [Bool.not_eq_true] at hkey
    have hsimple := Expr.not_isComposite_of_mem_parts ht hkey
    cases hfound : (g.aggregates q.aggregates).find? t with
    | some r =>
        obtain ⟨p, -, -, rfl⟩ := Group.find?_aggregates hfound
        rw [Expr.replace_of_some hfound]
        exact .refl _
    | none =>
        cases t with
        | literal l | aggregate f e | aggregateRows f =>
            simp only [Expr.replace, hfound, Expr.evaluate]
            exact .refl _
        | column c =>
            simp only [Expr.replace, hfound, Expr.evaluate, hcolumns c ht hkey]
            exact .refl _
        | _ => cases hsimple

/-! ## Two rows of a group -/

/-- Two rows of a bound query with the same keys, on which the columns that the query may read stand. -/
structure Twins (q : Query N) (scope : Scope N) (b b' : Bindings N) : Prop where
  left : PathMap.Related (fun _ _ => True) scope.columns b
  right : PathMap.Related (fun _ _ => True) scope.columns b'
  keys : ∃ key, cells b q.groupBy = .ok key ∧ cells b' q.groupBy = .ok key

namespace Twins

variable {q : Query N} {catalog : Catalog N} {scope : Scope N} {rows : List (Bindings N)}
variable {b b' : Bindings N} {g : Group N} {e t : Expr N} {v : Value N} {values : List (Value N)}

theorem symm (h : q.Twins scope b b') : q.Twins scope b' b :=
  ⟨h.right, h.left, h.keys.imp fun _ hkey => hkey.symm⟩

/-- What stands for a key has no aggregate, and the same cell on both rows. -/
theorem cell_key (h : q.Twins scope b b') (hbound : q.Bound catalog scope) (hlegible : q.Legible)
    (he : e ∈ q.outputExprs) (ht : t ∈ e.subterms) (hkey : q.standsForKey scope t = true) :
    t.aggregates = [] ∧ ∃ v, cell b t = .ok v ∧ cell b' t = .ok v := by
  obtain ⟨key, hmem, hisKey⟩ := standsForKey_iff.mp hkey
  have hsame : key.tree = t.tree → key = t :=
    hlegible.eq_of_tree (List.mem_append_right _ hmem) (Expr.mem_subterms_self key)
      (List.mem_append_left _ he) ht
  refine ⟨aggregates_of_isKey hsame (hbound.groupBy key hmem) hisKey, ?_⟩
  obtain ⟨vector, hcells, hcells'⟩ := h.keys
  obtain ⟨v, hzip, hv⟩ := exists_result_of_mem hcells hmem
  have hv' : cell b' key = .ok v := eq_ok_of_mem_zip hcells' hzip
  rw [cell, evaluate_of_isKey h.left hsame hisKey] at hv
  rw [cell, evaluate_of_isKey h.right hsame hisKey] at hv'
  exact ⟨v, hv, hv'⟩

/-- **What is selected** has the same cells on both rows. -/
theorem cell_select (h : q.Twins scope b b') (hbound : q.Bound catalog scope)
    (hagg : q.isAggregate = true) (hu : q.Uniform scope rows) (hb : b ∈ rows) (hb' : b' ∈ rows)
    {item : SelectItem N} (hitem : item ∈ q.select)
    (hv : cell b (item.expr.replace (g.aggregates q.aggregates)) = .ok v) :
    cell b' (item.expr.replace (g.aggregates q.aggregates)) = .ok v := by
  have he := mem_outputExprs_of_select hitem
  by_cases hkey : q.standsForKey scope item.expr = true
  · obtain ⟨hnone, w, hw, hw'⟩ :=
      h.cell_key hbound hu.legible he (Expr.mem_subterms_self _) hkey
    rw [Group.replace_eq_self (fun a ha => isAggregate_of_mem ha) hnone] at hv ⊢
    rw [hw', ← hw, hv]
  · rw [Bool.not_eq_true] at hkey
    refine cell_of_follows (follows_of_keys scope (fun t ht htkey => ?_) ?_) hv
    · obtain ⟨hnone, w, hw, hw'⟩ :=
        h.cell_key hbound hu.legible he (Expr.mem_subterms_of_mem_parts ht) htkey
      exact ⟨hnone, follows_of_cell hw hw' (hu.division _ he hkey t ht htkey b hb b' hb')⟩
    · -- Only keys are read.
      intro c hc hckey
      have hout := isOutput_of_mem_partsOf
        (hbound.groupedSelect hagg _ (List.mem_map_of_mem hitem)) hc hckey
      rw [isOutput_nil] at hout
      cases hout

/-- A key beside the outputs: it is evaluated on the two rows alone, or on the outputs alone. -/
theorem evaluate_beside (h : q.Twins scope b b') (hu : q.Uniform scope rows)
    (hvalues : cells b (q.select.map fun item => item.expr.replace (g.aggregates q.aggregates)) =
      .ok values)
    (hvalues' : cells b' (q.select.map fun item => item.expr.replace (g.aggregates q.aggregates)) =
      .ok values)
    (he : e ∈ q.rowExprs) (ht : t ∈ q.partsOf scope e) (hkey : q.standsForKey scope t = true) :
    (t.evaluate (b.insertAll (q.outputBindings values)) = t.evaluate b ∧
        t.evaluate (b'.insertAll (q.outputBindings values)) = t.evaluate b') ∨
      t.evaluate (b.insertAll (q.outputBindings values)) =
        t.evaluate (b'.insertAll (q.outputBindings values)) := by
  rcases hu.keys e he t ht hkey with hrepeated | hhidden
  · have hreplaced : ∀ c ∈ t.columns, ∀ item ∈ q.outputNamed? c.parts, ∃ c',
        item.expr.replace (g.aggregates q.aggregates) = .column c' ∧
          isKey scope (.column c') (.column c : Expr N) = true := by
      intro c hc item hitem
      obtain ⟨c', hc', hisKey⟩ := hrepeated c hc item hitem
      refine ⟨c', ?_, hisKey⟩
      rw [Expr.eq_column hc']
      exact Group.replace_eq_self (fun a ha => isAggregate_of_mem ha) rfl
    refine .inl ⟨evaluate_congr fun c hc => ?_, evaluate_congr fun c hc => ?_⟩
    · exact find_beside_repeated h.left hvalues (hreplaced c hc)
    · exact find_beside_repeated h.right hvalues' (hreplaced c hc)
  · refine .inr (evaluate_congr fun c hc => ?_)
    exact find_beside_output (cells_map_eq_ok.mp hvalues) c.parts_ne_nil (hhidden c hc) b b'

/-- **What filters and orders** has the same cells beside the outputs of both rows. -/
theorem cell_row (h : q.Twins scope b b') (hbound : q.Bound catalog scope)
    (hagg : q.isAggregate = true) (hu : q.Uniform scope rows) (hb : b ∈ rows) (hb' : b' ∈ rows)
    (hvalues : cells b (q.select.map fun item => item.expr.replace (g.aggregates q.aggregates)) =
      .ok values)
    (hvalues' : cells b' (q.select.map fun item => item.expr.replace (g.aggregates q.aggregates)) =
      .ok values)
    (he : e ∈ q.rowExprs)
    (hv : cell (b.insertAll (q.outputBindings values)) (e.replace (g.aggregates q.aggregates)) =
      .ok v) :
    cell (b'.insertAll (q.outputBindings values)) (e.replace (g.aggregates q.aggregates)) = .ok v := by
  have hout := mem_outputExprs_of_rowExprs he
  by_cases hkey : q.standsForKey scope e = true
  · have hself : e ∈ q.partsOf scope e := by
      rw [partsOf, Expr.parts_of_stop hkey]
      exact List.mem_singleton_self e
    obtain ⟨hnone, w, hw, hw'⟩ :=
      h.cell_key hbound hu.legible hout (Expr.mem_subterms_self e) hkey
    rw [Group.replace_eq_self (fun a ha => isAggregate_of_mem ha) hnone] at hv ⊢
    rcases h.evaluate_beside hu hvalues hvalues' he hself hkey with ⟨hleft, hright⟩ | hsame
    · rw [cell, hleft] at hv
      rw [cell, hright]
      exact hw'.trans (hw.symm.trans hv)
    · rw [cell, ← hsame]
      exact hv
  · rw [Bool.not_eq_true] at hkey
    refine cell_of_follows (follows_of_keys scope (fun t ht htkey => ?_) ?_) hv
    · obtain ⟨hnone, w, hw, hw'⟩ :=
        h.cell_key hbound hu.legible hout (Expr.mem_subterms_of_mem_parts ht) htkey
      refine ⟨hnone, ?_⟩
      rcases h.evaluate_beside hu hvalues hvalues' he ht htkey with ⟨hleft, hright⟩ | hsame
      · rw [hleft, hright]
        exact follows_of_cell hw hw' (hu.division _ hout hkey t ht htkey b hb b' hb')
      · rw [hsame]
        exact .refl _
    · -- The other columns are outputs, which are the same.
      intro c hc hckey
      have hplain := hu.outputs e he _ hc hckey c rfl
      have hnamed := isOutput_of_mem_partsOf (hbound.groupedOutput hagg e he) hc hckey
      rw [← isSome_outputNamed?_iff hplain] at hnamed
      exact find_beside_output (cells_map_eq_ok.mp hvalues) c.parts_ne_nil hnamed b b'

/-- The rows that are given are the same. -/
theorem outputRow (h : q.Twins scope b b') (hbound : q.Bound catalog scope)
    (hagg : q.isAggregate = true) (hu : q.Uniform scope rows) (hb : b ∈ rows) (hb' : b' ∈ rows)
    {row : Option (OutputRow N)} (hrow : q.outputRow b (g.aggregates q.aggregates) = .ok row) :
    q.outputRow b' (g.aggregates q.aggregates) = .ok row := by
  obtain ⟨values, hvalues, hrow⟩ := bind_eq_ok.mp hrow
  have hvalues' : cells b' (q.select.map fun item =>
      item.expr.replace (g.aggregates q.aggregates)) = .ok values :=
    cells_map_of_cell hvalues fun item hitem v hv =>
      h.cell_select hbound hagg hu hb hb' hitem hv
  have hcell : ∀ e ∈ q.rowExprs, ∀ v, cell (b.insertAll (q.outputBindings values))
      (e.replace (g.aggregates q.aggregates)) = .ok v →
      cell (b'.insertAll (q.outputBindings values)) (e.replace (g.aggregates q.aggregates)) =
        .ok v :=
    fun e he v hv => h.cell_row hbound hagg hu hb hb' hvalues hvalues' he hv
  obtain ⟨passed, hpassed, hrow⟩ := bind_eq_ok.mp hrow
  have hpassed' : satisfies (b'.insertAll (q.outputBindings values))
      (q.having.map (·.replace (g.aggregates q.aggregates))) = .ok passed := by
    apply satisfies_map_of_cell hpassed
    intro e he v hv
    exact hcell e (List.mem_append_left _ (Option.mem_toList.mpr he)) v hv
  refine bind_eq_ok.mpr ⟨values, hvalues', bind_eq_ok.mpr ⟨passed, hpassed', ?_⟩⟩
  cases passed with
  | false => exact hrow
  | true =>
      obtain ⟨keys, hkeys, hrow⟩ := bind_eq_ok.mp hrow
      refine bind_eq_ok.mpr ⟨keys, ?_, hrow⟩
      apply cells_map_of_cell hkeys
      intro item hitem v hv
      exact hcell _ (List.mem_append_right _ (List.mem_map_of_mem hitem)) v hv

end Twins

end Query

/-! ## Groups of stored rows -/

namespace Dataset

/-- **Each row of a group stands for it.**  Let a query with keys be bound to a dataset that is built from
tables, and let its names and its divisions be harmless on the rows with some key.  Then what it selects
for them has the same cells on each of these rows, its aggregates replaced by their values; so has what
filters and orders, beside these cells; and so the same row is given. -/
theorem IsBuilt.groups_uniform {d : Dataset N} (hbuilt : d.IsBuilt) {q : Query N} {scope : Scope N}
    {kept : List (Bindings N)} (hbind : q.bind d.catalog = .ok scope) (hkeys : q.groupBy ≠ [])
    (hkept : d.rowsRead q = .ok kept) (g : Group N)
    (hu : q.Uniform scope (rowsWithKey q.groupBy g.key kept)) {b b' : Bindings N}
    (hb : b ∈ rowsWithKey q.groupBy g.key kept) (hb' : b' ∈ rowsWithKey q.groupBy g.key kept) :
    (∀ item ∈ q.select, ∀ v, cell b (item.expr.replace (g.aggregates q.aggregates)) = .ok v ↔
      cell b' (item.expr.replace (g.aggregates q.aggregates)) = .ok v) ∧
    (∀ values, cells b (q.select.map fun item => item.expr.replace (g.aggregates q.aggregates)) =
        .ok values → ∀ e ∈ q.rowExprs, ∀ v,
      cell (b.insertAll (q.outputBindings values)) (e.replace (g.aggregates q.aggregates)) = .ok v ↔
        cell (b'.insertAll (q.outputBindings values)) (e.replace (g.aggregates q.aggregates)) =
          .ok v) ∧
    ∀ row, q.outputRow b (g.aggregates q.aggregates) = .ok row ↔
      q.outputRow b' (g.aggregates q.aggregates) = .ok row := by
  have hbound := Query.bound_of_bind hbind
  have hagg : q.isAggregate = true := by simp [Query.isAggregate, hkeys]
  obtain ⟨hmem, hcells⟩ := mem_rowsWithKey.mp hb
  obtain ⟨hmem', hcells'⟩ := mem_rowsWithKey.mp hb'
  have htwins : q.Twins scope b b' :=
    ⟨hbuilt.related_of_mem_rowsRead hbound hkept hmem,
      hbuilt.related_of_mem_rowsRead hbound hkept hmem', g.key, hcells, hcells'⟩
  refine ⟨fun item hitem v => ⟨?_, ?_⟩, fun values hvalues e he v => ?_, fun row => ⟨?_, ?_⟩⟩
  · exact htwins.cell_select hbound hagg hu hb hb' hitem
  · exact htwins.symm.cell_select hbound hagg hu hb' hb hitem
  · have hvalues' : cells b' (q.select.map fun item =>
        item.expr.replace (g.aggregates q.aggregates)) = .ok values :=
      cells_map_of_cell hvalues fun item hitem v hv =>
        htwins.cell_select hbound hagg hu hb hb' hitem hv
    exact ⟨htwins.cell_row hbound hagg hu hb hb' hvalues hvalues' he,
      htwins.symm.cell_row hbound hagg hu hb' hb hvalues' hvalues he⟩
  · exact htwins.outputRow hbound hagg hu hb hb'
  · exact htwins.symm.outputRow hbound hagg hu hb' hb

/-- Two odd rows: the row of their group does not depend on which of them stands for it. -/
theorem groups_uniform_odd :
    ∃ q scope kept groups g b b', Query.parse (N := Binary64)
        "SELECT x % 2 AS odd, SUM(x) / (x % 2) AS s FROM t GROUP BY x % 2 HAVING s > 0 ORDER BY x % 2"
          = .ok q ∧
      q.bind (integerDataset Binary64 [1, 3]).catalog = .ok scope ∧ q.groupBy ≠ [] ∧
      (integerDataset Binary64 [1, 3]).rowsRead q = .ok kept ∧ queryGroups q kept = .ok groups ∧
      g ∈ groups ∧ q.Uniform scope (rowsWithKey q.groupBy g.key kept) ∧
      rowsWithKey q.groupBy g.key kept = [b, b'] ∧
      [b, b'].map (·.find ["x"]) = [.one (.integer 1), .one (.integer 3)] ∧
      ∀ row, q.outputRow b (g.aggregates q.aggregates) = .ok row ↔
        q.outputRow b' (g.aggregates q.aggregates) = .ok row := by
  have hruns : ((boundText (integerDataset Binary64 [1, 3])
      "SELECT x % 2 AS odd, SUM(x) / (x % 2) AS s FROM t GROUP BY x % 2 HAVING s > 0 ORDER BY x % 2").bind
      fun (q, scope) => ((integerDataset Binary64 [1, 3]).rowsRead q).toOption.bind fun kept =>
        (queryGroups q kept).toOption.bind fun groups => groups.head?.map fun g =>
          (decide (q.groupBy ≠ [] ∧ q.Uniform scope (rowsWithKey q.groupBy g.key kept)),
            (rowsWithKey q.groupBy g.key kept).map (·.find ["x"]))) =
        some (true, [.one (.integer 1), .one (.integer 3)]) := by
    decide +kernel
  obtain ⟨⟨q, scope⟩, hbound, hvalues⟩ := Option.bind_eq_some_iff.mp hruns
  obtain ⟨hq, hscope⟩ := boundText_eq_some.mp hbound
  obtain ⟨kept, hkept, hvalues⟩ := Option.bind_eq_some_iff.mp hvalues
  obtain ⟨groups, hgroups, hvalues⟩ := Option.bind_eq_some_iff.mp hvalues
  obtain ⟨g, hg, hvalues⟩ := Option.map_eq_some_iff.mp hvalues
  obtain ⟨huniform, hvalues⟩ := Prod.ext_iff.mp hvalues
  obtain ⟨hkeys, hu⟩ := of_decide_eq_true huniform
  obtain ⟨b, b', hrows⟩ : ∃ b b', rowsWithKey q.groupBy g.key kept = [b, b'] := by
    obtain ⟨b, rest, hrows, -, hrest⟩ := List.map_eq_cons_iff.mp hvalues
    obtain ⟨b', rfl, -⟩ := List.map_eq_singleton_iff.mp hrest
    exact ⟨b, b', hrows⟩
  have hread := toOption_eq_some.mp hkept
  exact ⟨q, scope, kept, groups, g, b, b', hq, hscope, hkeys, hread, toOption_eq_some.mp hgroups,
    List.mem_of_head? hg, hu, hrows, hrows ▸ hvalues,
    ((isBuilt_integerDataset _).groups_uniform hscope hkeys hread g hu
      (by rw [hrows]; simp) (by rw [hrows]; simp)).2.2⟩

/-- **Groups that depend on their rows.**  Three bound queries and a group of two rows each, for which the
two rows give different rows: an output hides one of the columns of a key, a key divides by zero on one
row and is `NULL` on the other, and an output is named with a dot. -/
theorem groups_depend :
    [("SELECT COUNT(*) AS x FROM t GROUP BY x - t.x HAVING x - t.x > 0", [1, 2],
        [some [.integer 2], none]),
      ("SELECT (SQRT(x) / x) IS NULL AS z FROM t GROUP BY SQRT(x) / x", [0, -1],
        [some [.null], some [.boolean true]]),
      ("SELECT COUNT(*) AS `t.x` FROM t GROUP BY x % 2 HAVING t.x > 1", [1, 3],
        [none, some [.integer 2]])].Forall fun x =>
      ∃ q scope kept groups g, Query.parse (N := Binary64) x.1 = .ok q ∧
        q.bind (integerDataset Binary64 x.2.1).catalog = .ok scope ∧
        (integerDataset Binary64 x.2.1).rowsRead q = .ok kept ∧ queryGroups q kept = .ok groups ∧
        g ∈ groups ∧ (rowsWithKey q.groupBy g.key kept).map (fun b =>
          (q.outputRow b (g.aggregates q.aggregates)).toOption.map (·.map (·.values))) =
            x.2.2.map some := by
  have hruns : ∀ x ∈ [("SELECT COUNT(*) AS x FROM t GROUP BY x - t.x HAVING x - t.x > 0", [1, 2],
        [some [.integer 2], none]),
      ("SELECT (SQRT(x) / x) IS NULL AS z FROM t GROUP BY SQRT(x) / x", [0, -1],
        [some [.null], some [.boolean true]]),
      ("SELECT COUNT(*) AS `t.x` FROM t GROUP BY x % 2 HAVING t.x > 1", [1, 3],
        [none, some [.integer 2]])],
      ((boundText (integerDataset Binary64 x.2.1) x.1).bind fun y =>
        ((integerDataset Binary64 x.2.1).rowsRead y.1).toOption.bind fun kept =>
          (queryGroups y.1 kept).toOption.bind fun groups => groups.head?.map fun g =>
            (rowsWithKey y.1.groupBy g.key kept).map fun b =>
              (y.1.outputRow b (g.aggregates y.1.aggregates)).toOption.map (·.map (·.values))) =
        some (x.2.2.map some) := by
    decide +kernel
  rw [List.forall_iff_forall_mem]
  intro x hx
  obtain ⟨⟨q, scope⟩, hbound, hvalues⟩ := Option.bind_eq_some_iff.mp (hruns x hx)
  obtain ⟨hq, hscope⟩ := boundText_eq_some.mp hbound
  obtain ⟨kept, hkept, hvalues⟩ := Option.bind_eq_some_iff.mp hvalues
  obtain ⟨groups, hgroups, hvalues⟩ := Option.bind_eq_some_iff.mp hvalues
  obtain ⟨g, hg, hvalues⟩ := Option.map_eq_some_iff.mp hvalues
  exact ⟨q, scope, kept, groups, g, hq, hscope, toOption_eq_some.mp hkept,
    toOption_eq_some.mp hgroups, List.mem_of_head? hg, hvalues⟩

end Dataset

end PrivateSql
