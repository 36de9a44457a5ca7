import PrivateSql.Proofs.NameCollisions
import PrivateSql.Proofs.NoisedCells
import PrivateSql.Proofs.NoisedRows
import PrivateSql.Proofs.TypedAnswers
/-!
# The types of a release

The types of a release are inferred from the query, but its cells go through noise: they are read as
numbers, rounded where their column holds integers, and put together again by the outer query.  Both
ways agree, column by column: the exact rows have the types of keys and raw aggregates, noise keeps
these types, and a formula has the type of its aggregate.

Noise makes a number of `NULL`, so a column of texts or truth values keeps its type only where no `NULL`
is noised; and columns of one generated name are told apart by no one, so they need one type.

* `Calibration.admits_release` — a noised cell is of the type of its column;
* `Preparation.KeepsTypes` — the rows of a preparation keep their types under noise, and in columns of
  one name they have one type;
* `Preparation.admits_exact`, `Preparation.admits_noised` — the types of the exact rows and of noised
  ones;
* `Recombination.admits_formula`, `Plan.admits_outer` — the types of formulas, and of what the outer query
  gives;
* `PrivateReader.release_typed` — the types of a release;
* `Preparation.keepsTypes_of_bounds` — where only numbers have bounds, and names do not collide, types are
  kept;
* `PrivateReader.release_untyped` — releases that cannot be read by columns.
-/

namespace PrivateSql

variable {N : Type} [Number N]

open DataType

/-! ## Noised cells -/

/-- A type that a number fits: not that of texts, nor that of truth values. -/
def DataType.FitsNumbers (t : DataType) : Prop := t ≠ .text ∧ t ≠ .boolean

instance (t : DataType) : Decidable t.FitsNumbers :=
  inferInstanceAs (Decidable (t ≠ .text ∧ t ≠ .boolean))

namespace DataType

theorem fitsNumbers_unknown : unknown.FitsNumbers := by decide

theorem fitsNumbers_integer : integer.FitsNumbers := by decide

theorem fitsNumbers_float : float.FitsNumbers := by decide

end DataType

namespace Calibration

variable {c : Calibration N}

/-- A noisy number is released as a value of the type of its column, if a number fits it. -/
theorem admits_cellOf (hcount : c.function = .count → c.dataType = .integer)
    (h : c.dataType.FitsNumbers) (noisy : N) : c.dataType.Admits (c.cellOf noisy) := by
  by_cases hc : c.function = .count
  · rw [cellOf_count hc, hcount hc]
    exact admits_dataType _
  · unfold cellOf
    cases htype : c.dataType with
    | integer | float =>
        split <;> first | exact absurd ‹_› hc | exact admits_dataType _ | contradiction
    | unknown => exact admits_unknown _
    | text => exact absurd htype h.1
    | boolean => exact absurd htype h.2

/-- **A noised cell is of the type of its column**, unless nothing was noised in a column of texts or
truth values. -/
theorem admits_release {m : Mechanism} {v v' : Value N} {w w' : Words}
    (hcount : c.function = .count → c.dataType = .integer) (hv : c.dataType.Admits v)
    (hnull : v = .null → c.dataType.FitsNumbers) (h : (c.release m v).Gives w v' w') :
    c.dataType.Admits v' := by
  obtain ⟨exact, noise, hexact, -, rfl⟩ := gives_release.mp h
  refine admits_cellOf hcount ?_ _
  rcases hv with hvnull | hunknown | hsame
  · exact hnull hvnull
  · rw [hunknown]
    exact DataType.fitsNumbers_unknown
  · -- No text and no truth value is noised.
    rw [← hsame]
    cases v with
    | null => exact DataType.fitsNumbers_unknown
    | integer i => exact DataType.fitsNumbers_integer
    | float x => exact DataType.fitsNumbers_float
    | boolean b | text s => cases hexact

end Calibration

/-- Cells released one after the other are of the types of their columns. -/
theorem admits_releaseCells {cs : List (Calibration N)} {m : Mechanism} {vs out : List (Value N)}
    {w w' : Words} (hcount : ∀ c ∈ cs, c.function = .count → c.dataType = .integer)
    (hvs : List.Forall₂ Admits (cs.map (·.dataType)) vs)
    (hnull : ∀ x ∈ (cs.map (·.dataType)).zip vs, x.2 = .null → x.1.FitsNumbers)
    (h : (releaseCells cs m vs).Gives w out w') :
    List.Forall₂ Admits (cs.map (·.dataType)) out := by
  induction cs generalizing vs w out with
  | nil =>
      obtain ⟨rfl, -⟩ := Drawing.gives_mapM_nil.mp h
      exact .nil
  | cons c cs ih =>
      obtain ⟨v, rest, hv, hrest, rfl⟩ := List.forall₂_cons_left_iff.mp hvs
      obtain ⟨v', w₁, out, hv', hout, rfl⟩ := Drawing.gives_mapM_cons.mp h
      refine .cons ?_ (ih (fun c hc => hcount c (List.mem_cons_of_mem _ hc)) hrest
        (fun x hx => hnull x (List.mem_cons_of_mem _ hx)) hout)
      exact Calibration.admits_release (hcount c List.mem_cons_self) hv
        (hnull (c.dataType, v) List.mem_cons_self) hv'

/-- **A released row has the types of the row**: its keys are kept, and its other cells are released. -/
theorem admits_releasedRow {cs : List (Calibration N)} {m : Mechanism} {keyTypes : List DataType}
    {row out : List (Value N)} {w w' : Words}
    (hcount : ∀ c ∈ cs, c.function = .count → c.dataType = .integer)
    (hrow : List.Forall₂ Admits (keyTypes ++ cs.map (·.dataType)) row)
    (hnull : ∀ x ∈ (cs.map (·.dataType)).zip (row.drop keyTypes.length),
      x.2 = .null → x.1.FitsNumbers)
    (h : (releasedRow cs m keyTypes.length row).Gives w out w') :
    List.Forall₂ Admits (keyTypes ++ cs.map (·.dataType)) out := by
  obtain ⟨released, hreleased, rfl⟩ := gives_releasedRow.mp h
  have hkeys := List.forall₂_take keyTypes.length hrow
  have hcells := List.forall₂_drop keyTypes.length hrow
  rw [List.take_left] at hkeys
  rw [List.drop_left] at hcells
  exact List.rel_append hkeys (admits_releaseCells hcount hcells hnull hreleased)

/-! ## Exact and noised rows -/

/-- **A preparation whose types are kept.**  Keys of one name have one type, and so have raw aggregates;
and the cell of a raw aggregate is not `NULL` in a column of texts or truth values. -/
structure Preparation.KeepsTypes (scope : Scope N) (p : Preparation N) : Prop where
  names : ∀ i ∈ p.plan.inner.select, ∀ j ∈ p.plan.inner.select, i.name = j.name →
    i.expr.dataType scope = j.expr.dataType scope
  cells : ∀ row ∈ p.exact.rows,
    ∀ x ∈ (p.plan.columns.map (·.dataType)).zip (row.drop p.plan.keys.length),
      x.2 = .null → x.1.FitsNumbers

omit [Number N] in
theorem Preparation.keepsTypes_iff {scope : Scope N} {p : Preparation N} : p.KeepsTypes scope ↔
    (∀ i ∈ p.plan.inner.select, ∀ j ∈ p.plan.inner.select, i.name = j.name →
      i.expr.dataType scope = j.expr.dataType scope) ∧
    ∀ row ∈ p.exact.rows,
      ∀ x ∈ (p.plan.columns.map (·.dataType)).zip (row.drop p.plan.keys.length),
        x.2 = .null → x.1.FitsNumbers :=
  ⟨fun h => ⟨h.names, h.cells⟩, fun h => ⟨h.1, h.2⟩⟩

instance [DecidableEq N] (scope : Scope N) (p : Preparation N) : Decidable (p.KeepsTypes scope) :=
  decidable_of_iff' _ Preparation.keepsTypes_iff

namespace Plan

variable {q : Query N} {scope : Scope N} {table : Schema N} {recombined : List (Recombination N)}

/-- The types of the inner query: those of the keys, then those of the noised columns. -/
theorem outputTypes_inner :
    Dataset.outputTypes (assemble q scope table recombined).inner scope =
      q.groupBy.map (·.dataType scope) ++
        (assemble q scope table recombined).columns.map (·.dataType) := by
  simp [Dataset.outputTypes, assemble, innerQuery, SelectItem.of, Function.comp_def]

/-- Counts are integers. -/
theorem dataType_of_count (hrecombined : q.aggregates.mapM Recombination.of = .ok recombined)
    {column : NoisedColumn N} (h : column ∈ (assemble q scope table recombined).columns)
    (hcount : column.function = .count) : column.dataType = .integer := by
  obtain ⟨e, he, rfl⟩ := mem_columns_assemble.mp h
  obtain ⟨f, hf, -⟩ := isRawAggregate_of_mem_rawAggregates hrecombined he
  have hfunction := NoisedColumn.function_eq (c := ⟨e, e.dataType scope, e.sensitivity scope⟩) hf
  rw [hcount] at hfunction
  subst hfunction
  cases e <;> cases hf <;> rfl

end Plan

namespace Preparation

variable {q : Query N} {d : Dataset N} {p : Preparation N} {scope : Scope N}

/-- **The types of the exact rows** are those of the keys and the raw aggregates. -/
theorem admits_exact (hbuilt : d.IsBuilt) (hwritten : q.Written) (h : Preparation.of q d = .ok p)
    (hscope : q.bind d.catalog = .ok scope) {row : List (Value N)} (hrow : row ∈ p.exact.rows) :
    List.Forall₂ Admits (Dataset.outputTypes p.plan.inner scope) row := by
  obtain ⟨hplan, hexact⟩ := of_eq_ok.mp h
  obtain ⟨_, table, recombined, -, htable, -, hrecombined, hp⟩ := Plan.of_eq_ok hplan
  obtain ⟨name, label, hrelations, -⟩ := Plan.sourceTable_eq_ok htable
  obtain ⟨_, kept, sources, outputs, -, hkept, hsources, houtputs, hanswer⟩ :=
    Dataset.run_eq_arrange.mp hexact
  -- The inner query reads the rows that the query itself does.
  have hread : d.rowsRead q = .ok kept := by
    rw [← hkept, hp]
    rfl
  have htypes : ∀ b ∈ kept, scope.Types b := fun b hb => Scope.types_of_related
    (hbuilt.admits_of_mem_rowsRead hrelations (Query.bound_of_bind hscope) hread hb)
  have hinner : p.plan.inner.Written := by
    rw [hp]
    exact Plan.written_inner hwritten hrecombined
  rw [hanswer] at hrow
  exact Query.admits_of_mem_arrange hinner htypes hsources houtputs hrow

/-- **Noise keeps the types of rows.** -/
theorem admits_noised (hbuilt : d.IsBuilt) (hwritten : q.Written) (h : Preparation.of q d = .ok p)
    (hscope : q.bind d.catalog = .ok scope) (hkeeps : p.KeepsTypes scope) {b : Budget N}
    {m : Mechanism} {cs : List (Calibration N)} (hcs : p.plan.calibrate b m = .ok cs) {w w' : Words}
    {noised : List (List (Value N))} (hnoised : (noiseRows cs m p.exact.rows).Gives w noised w') :
    ∀ out ∈ noised, List.Forall₂ Admits (Dataset.outputTypes p.plan.inner scope) out := by
  intro out hout
  obtain ⟨row, hrow, w₁, w₂, hreleased⟩ :=
    exists_left_of_forall₂ (forall₂_of_gives_noiseRows h hcs hnoised) hout
  have hexact := admits_exact hbuilt hwritten h hscope hrow
  have hnull := hkeeps.cells row hrow
  obtain ⟨planScope, table, recombined, hbound, -, -, hrecombined, hp⟩ :=
    Plan.of_eq_ok (of_eq_ok.mp h).1
  obtain rfl : planScope = scope := hbound.scope_unique (Query.bound_of_bind hscope)
  have hkeys : p.plan.keys.length = (q.groupBy.map (·.dataType planScope)).length := by
    rw [hp]
    simp [Plan.assemble]
  have htypes : Dataset.outputTypes p.plan.inner planScope =
      q.groupBy.map (·.dataType planScope) ++ cs.map (·.dataType) := by
    rw [Plan.dataTypes_of_calibrate hcs, hp]
    exact Plan.outputTypes_inner
  have hcount : ∀ c ∈ cs, c.function = .count → c.dataType = .integer := by
    intro c hc hfunction
    obtain ⟨column, hcolumn, hsame, htype⟩ :=
      exists_left_of_forall₂ (Plan.forall₂_of_calibrate hcs) hc
    rw [htype]
    rw [hp] at hcolumn
    exact Plan.dataType_of_count hrecombined hcolumn (hsame.symm.trans hfunction)
  rw [hkeys] at hreleased hnull
  rw [← Plan.dataTypes_of_calibrate hcs] at hnull
  rw [htypes] at hexact ⊢
  exact admits_releasedRow hcount hexact hnull hreleased

end Preparation

/-! ## What the outer query gives -/

omit [Number N] in
theorem Scope.types_of_empty (b : Bindings N) : (Scope.empty : Scope N).Types b := by
  intro c s v hs _
  obtain ⟨-, p, hp⟩ := Scope.resolve_eq_ok.mp hs
  cases PathMap.mem_of_findEntry hp

/-- **Formulas have the types of their aggregates**, if the columns of raw aggregates do: all others are
quotients, differences of quotients, or roots. -/
theorem Recombination.admits_formula {scope : Scope N} {a : Expr N} {r : Recombination N}
    {b : Bindings N} (h : Recombination.of a = .ok r)
    (hraw : a.IsRawAggregate → ∀ w, (Expr.ofColumn a.columnName).evaluate b = .ok w →
      (a.dataType scope).Admits w) {v : Value N} (hv : r.formula.evaluate b = .ok v) :
    (a.dataType scope).Admits v := by
  -- The types of these formulas do not depend on those of columns.
  have hfloat : ∀ e : Expr N, e.dataType Scope.empty = .float → e.evaluate b = .ok v →
      float.Admits v := by
    intro e he hv
    rw [← he]
    refine Expr.admits_evaluate (s := .empty) (Scope.types_of_empty b) (fun t _ r w hr => by cases hr) ?_
    rw [Expr.replace_empty]
    exact hv
  rcases raw_or_statistic h with hisRaw | ⟨e, rfl | rfl | rfl⟩
  · rw [eq_ofRaw hisRaw h] at hv
    exact hraw hisRaw v hv
  · cases h
    exact hfloat _ rfl hv
  · cases h
    exact hfloat _ rfl hv
  · cases h
    have hname : Text.toUpper "SQRT" = "SQRT" := by decide
    exact hfloat _ (by simp [Expr.ofCall, Expr.dataType, hname]) hv

omit [Number N] in
/-- What stands for a key has its type. -/
theorem Query.dataType_of_isKey {scope : Scope N} {key t : Expr N}
    (hsame : key.tree = t.tree → key = t) (h : isKey scope key t = true) :
    key.dataType scope = t.dataType scope := by
  have hentry : ∀ {c : Identifier} {e : Path × Symbol N}, scope.locate c = .ok e →
      e ∈ scope.columns.entries := by
    intro c e h
    obtain ⟨_, -, h⟩ := bind_eq_ok.mp h
    split at h
    · cases h
      exact PathMap.mem_of_findEntry ‹_›
    · cases h
    · cases h
  unfold isKey at h
  split at h
  · rename_i k c hk hc
    obtain rfl := Expr.eq_column hk
    obtain rfl := Expr.eq_column hc
    split at h
    · rename_i e e' hlocate hlocate'
      have hmem := hentry hlocate
      rw [show e = (e'.1, e.2) from Prod.ext (by simpa using h) rfl] at hmem
      have hsymbol := PathMap.eq_of_mem hmem (hentry hlocate')
      simp only [Expr.dataType, Scope.resolve, hlocate, hlocate', Except.map, hsymbol]
    · obtain rfl : k = c := by simpa using h
      rfl
  · rw [hsame (Expr.same_iff.mp h)]

namespace Plan

variable {q : Query N} {scope : Scope N} {table : Schema N} {recombined : List (Recombination N)}

section Rows

variable {row : List (Value N)}
variable (hrecombined : q.aggregates.mapM Recombination.of = .ok recombined)
variable (hrow : List.Forall₂ Admits
  (Dataset.outputTypes (assemble q scope table recombined).inner scope) row)
variable (hnames : ∀ i ∈ (assemble q scope table recombined).inner.select,
  ∀ j ∈ (assemble q scope table recombined).inner.select, i.name = j.name →
    i.expr.dataType scope = j.expr.dataType scope)

include hrecombined hrow hnames

/-- A generated name is read as a value of the type of what it was generated for. -/
theorem admits_column {i : SelectItem N} (hi : i ∈ (assemble q scope table recombined).inner.select)
    {v : Value N} (hv : (Expr.ofColumn i.name).evaluate
      (rowBindings [exactPath] (assemble q scope table recombined).exactNames row) = .ok v) :
    (i.expr.dataType scope).Admits v := by
  have hlength : row.length = (assemble q scope table recombined).exactNames.length := by
    rw [← hrow.length_eq, ← names_inner]
    simp [Dataset.outputTypes, Query.names]
  obtain ⟨k, j, w, hj, hw, hname, -, hfound, -⟩ := find_exact_item hrecombined hlength hi
  rw [GroupRow.evaluate_ofColumn (isPlain_inner_name (List.mem_map_of_mem hi)) hfound] at hv
  cases hv
  have htype : (Dataset.outputTypes (assemble q scope table recombined).inner scope)[k]? =
      some (j.expr.dataType scope) := by
    rw [Dataset.outputTypes, List.getElem?_map]
    exact congrArg (Option.map _) hj
  obtain ⟨w', hw', hadmits⟩ := exists_getElem?_of_forall₂ hrow htype
  obtain rfl := Option.some.inj (hw.symm.trans hw')
  rwa [hnames i hi j (List.mem_of_getElem? hj) hname.symm]

/-- What an aggregate gives way to is read as a value of its type. -/
theorem admits_aggregate (hwritten : q.Written) {e t : Expr N} (he : e ∈ q.outputExprs)
    (ht : t ∈ e.aggregates) (hkey : q.standsForKey scope t = false) {v : Value N}
    (hv : (t.replace (replacements q scope recombined)).evaluate
      (rowBindings [exactPath] (assemble q scope table recombined).exactNames row) = .ok v) :
    (t.dataType scope).Admits v := by
  have htWritten : t.Written := hwritten.of_mem_subterms he (List.mem_filter.mp ht).1
  obtain ⟨f, hf⟩ := Option.isSome_iff_exists.mp
    (@isSome_replacements_of_aggregate _ _ scope _ _ _ hrecombined he ht)
  obtain ⟨⟨a, r⟩, hzip, rfl, rfl⟩ := find?_replacements hwritten htWritten hkey hf
  have hof : Recombination.of a = .ok r := eq_ok_of_mem_zip hrecombined hzip
  rw [Expr.replace_of_some hf] at hv
  refine Recombination.admits_formula hof (fun hraw u hu => ?_) hv
  have hmem : a ∈ rawAggregates q recombined := mem_rawAggregates hwritten hrecombined hzip
    (by rw [Recombination.eq_ofRaw hraw hof]; exact List.mem_singleton_self a)
  exact admits_column hrecombined hrow hnames (mem_inner_select.mpr (.inr ⟨a, hmem, rfl⟩)) hu

/-- **What the outer query gives** for a row that has the types of the inner one is of the type that is
inferred for it. -/
theorem admits_outer {catalog : Catalog N} (hwritten : q.Written) (hbound : q.Bound catalog scope)
    (hagg : q.isAggregate = true) {item : SelectItem N} (hitem : item ∈ q.select) {v : Value N}
    (hv : (item.expr.replace (replacements q scope recombined)).evaluate
      (rowBindings [exactPath] (assemble q scope table recombined).exactNames row) = .ok v) :
    (item.expr.dataType scope).Admits v := by
  have he := Query.mem_outputExprs_of_select hitem
  have hgrouped := hbound.groupedSelect hagg _ (List.mem_map_of_mem hitem)
  refine Expr.admits_evaluate_of_parts (q.standsForKey scope) (fun t _ hkey hcomposite => ?_)
    (fun t ht w hw => ?_) hv
  · exact find?_replacements_eq_none hkey (by cases t <;> first | rfl | cases hcomposite)
  have hsub : t ∈ item.expr.subterms := Expr.mem_subterms_of_mem_parts ht
  rcases Query.partsOf_cases ht with hkey | ⟨hkey, hmem | ⟨hnot, ⟨l, rfl⟩ | ⟨c, rfl⟩⟩⟩
  · obtain ⟨-, key, hmem, hisKey, hreplace⟩ :=
      @replace_key _ _ _ _ recombined hwritten hbound.groupBy _ t he hsub hkey
    have htWritten : t.Written := hwritten.of_mem_subterms he hsub
    rw [hreplace] at hw
    rw [← Query.dataType_of_isKey ((hwritten.keys key hmem).eq_of_tree htWritten) hisKey]
    exact admits_column hrecombined hrow hnames (mem_inner_select.mpr (.inl ⟨key, hmem, rfl⟩)) hw
  · exact admits_aggregate hrecombined hrow hnames hwritten he hmem hkey hw
  · simp only [Expr.replace, find?_replacements_eq_none hkey hnot, Expr.evaluate] at hw
    cases hw
    exact admits_dataType _
  · -- Every column outside of aggregates stands for a key.
    have houtput := Query.isOutput_of_mem_partsOf hgrouped ht hkey
    simp [Query.isOutput_nil] at houtput

end Rows

end Plan

/-- The rows of an answer to the outer query have the types that are announced, if the rows that it reads
have the types of the inner one. -/
theorem Plan.admits_execute {q : Query N} {scope : Scope N} {table : Schema N}
    {recombined : List (Recombination N)} {catalog : Catalog N} (hwritten : q.Written)
    (hbound : q.Bound catalog scope) (hagg : q.isAggregate = true)
    (hrecombined : q.aggregates.mapM Recombination.of = .ok recombined)
    (hnames : ∀ i ∈ (assemble q scope table recombined).inner.select,
      ∀ j ∈ (assemble q scope table recombined).inner.select, i.name = j.name →
        i.expr.dataType scope = j.expr.dataType scope) {rows : List (List (Value N))}
    (hrows : ∀ row ∈ rows, List.Forall₂ Admits
      (Dataset.outputTypes (assemble q scope table recombined).inner scope) row) {answer : Rowset N}
    (h : (assemble q scope table recombined).outer.execute [exactPath]
      (assemble q scope table recombined).exactNames rows = .ok answer) :
    ∀ out ∈ answer.rows, List.Forall₂ Admits (assemble q scope table recombined).types out := by
  intro out hout
  obtain ⟨kept, sources, outputs, hkept, hsources, houtputs, rfl⟩ := Query.execute_eq_ok.mp h
  rw [sources_outer table hbound hagg hrecombined] at hsources
  cases hsources
  obtain ⟨o, ho, rfl⟩ := Query.exists_output_of_mem_arrange hout
  obtain ⟨given, hgiven, rfl⟩ := Query.outputRows_eq_ok.mp houtputs
  obtain ⟨given', hgiven', ho⟩ := List.mem_flatMap.mp ho
  rw [List.forall₂_map_left_iff] at hgiven
  obtain ⟨b, hb, houtput⟩ := exists_left_of_forall₂ hgiven hgiven'
  obtain ⟨row, hrow, rfl⟩ := List.mem_map.mp (mem_of_mem_filterRows hkept hb)
  obtain ⟨values, hvalues, hsame⟩ := Query.cells_of_outputRow houtput
  rw [hsame o (Option.mem_toList.mp ho)]
  rw [cells_outer] at hvalues
  have htypes : (assemble q scope table recombined).types =
      q.select.map (·.expr.dataType scope) := rfl
  rw [htypes, List.forall₂_map_left_iff, List.forall₂_iff_zip]
  refine ⟨(cells_map_eq_ok.mp hvalues).length_eq, fun {item v} hzip => ?_⟩
  have hcell := cell_of_mem_zip hvalues hzip
  unfold cell at hcell
  split at hcell
  · cases hcell
    exact admits_null _
  · exact admits_outer hrecombined (hrows row hrow) hnames hwritten hbound hagg
      (List.of_mem_zip hzip).1 hcell

/-! ## Releases -/

namespace PrivateReader

variable {r : PrivateReader N} {q : Query N} {p : Preparation N} {scope : Scope N}

/-- A table of an integer, a number and a truth value, with bounds; the last two have no room to move. -/
def mixedTable : Table Binary64 :=
  ⟨⟨"t", 10, [⟨"x", .integer, some (Number.ofInt 0), some (Number.ofInt 10)⟩,
      ⟨"y", .float, some (Number.ofInt 0), some (Number.ofInt 0)⟩,
      ⟨"b", .boolean, some (Number.ofInt 0), some (Number.ofInt 0)⟩]⟩,
    [[.integer 1, .float (Number.ofInt 0), .boolean true], [.integer 3, .null, .boolean true]]⟩

/-- A reader of this table. -/
def ofMixed : PrivateReader Binary64 := ⟨.ofTables [mixedTable], ⟨Number.ofInt 100, 1⟩, .laplace⟩

theorem isBuilt_ofMixed : ofMixed.dataset.IsBuilt := by
  refine ⟨[mixedTable], rfl, fun t ht => ?_⟩
  obtain rfl := List.mem_singleton.mp ht
  exact ⟨mixedTable.schema, mixedTable.rows, rfl⟩

/-- A query read, prepared and released from the middle word, if all of it succeeds. -/
def releasedText (r : PrivateReader Binary64) (text : String) :
    Option (Query Binary64 × Preparation Binary64 × Rowset Binary64) := do
  let q ← (Query.parse (N := Binary64) text).toOption
  let p ← (Preparation.of q r.dataset).toOption
  let answer ← ((r.release p).run.run (.ofList [])).1.toOption
  return (q, p, answer)

theorem gives_of_releasedText {r : PrivateReader Binary64} {text : String} {q : Query Binary64}
    {p : Preparation Binary64} {answer : Rowset Binary64}
    (h : releasedText r text = some (q, p, answer)) :
    Query.parse text = .ok q ∧ Preparation.of q r.dataset = .ok p ∧
      ∃ w', (r.release p).Gives (.ofList []) answer w' := by
  obtain ⟨q, hq, h⟩ := Option.bind_eq_some_iff.mp h
  obtain ⟨p, hp, h⟩ := Option.bind_eq_some_iff.mp h
  obtain ⟨answer, hanswer, h⟩ := Option.bind_eq_some_iff.mp h
  cases h
  rw [toOption_eq_some] at hq hp hanswer
  exact ⟨hq, hp, _, Prod.ext hanswer rfl⟩

end PrivateReader

/-! ## Where types are kept -/

omit [Number N] in
theorem fitsNumbers_arithmeticType (t u : DataType) : (Expr.arithmeticType t u).FitsNumbers := by
  cases t <;> cases u <;> decide

/-- Where only columns of numbers have bounds, so have expressions only. -/
theorem Expr.fitsNumbers_of_bounds {scope : Scope N}
    (hscope : ∀ c s, scope.resolve c = .ok s → s.bounds.isSome → s.dataType.FitsNumbers) {e : Expr N}
    (h : (e.bounds scope).isSome) : (e.dataType scope).FitsNumbers := by
  induction e using Expr.induct with
  | literal l =>
      rw [bounds, Option.isSome_map] at h
      rw [dataType]
      cases hvalue : l.value with
      | integer i => exact DataType.fitsNumbers_integer
      | float x => exact DataType.fitsNumbers_float
      | null | boolean b | text s =>
          rw [hvalue] at h
          cases h
  | column c =>
      rw [bounds] at h
      rw [dataType]
      split at h
      · exact hscope c _ ‹_› h
      · cases h
  | unary op e ih =>
      rw [bounds] at h
      split at h
      · rename_i hminus
        have hnot : Text.eqIgnoringAsciiCase "-" "NOT" = false := by decide
        rw [dataType, hminus, hnot]
        exact ih (by rwa [Option.isSome_map] at h)
      · cases h
  | binary l op r ihl ihr =>
      rw [bounds] at h
      obtain ⟨i, hi⟩ := Option.isSome_iff_exists.mp h
      obtain ⟨x, -, hi⟩ := Option.bind_eq_some_iff.mp hi
      obtain ⟨y, -, hi⟩ := Option.bind_eq_some_iff.mp hi
      unfold binaryBounds? at hi
      split at hi
      · exact fitsNumbers_arithmeticType _ _
      · exact fitsNumbers_arithmeticType _ _
      · exact fitsNumbers_arithmeticType _ _
      · exact DataType.fitsNumbers_float
      · cases hi
  | nested e ih => exact ih h
  | isNull e negated ih => cases h
  | call name args ih =>
      rw [dataType.eq_def]
      cases args with
      | nil => cases h
      | cons e es =>
          simp only
          split
          · exact DataType.fitsNumbers_float
          · refine ih e List.mem_cons_self ?_
            rw [bounds] at h
            obtain ⟨i, hi⟩ := Option.isSome_iff_exists.mp h
            obtain ⟨x, hx, -⟩ := Option.bind_eq_some_iff.mp hi
            rw [hx]
            rfl
  | aggregate f e ih =>
      cases f with
      | min | max => exact ih h
      | mean => exact DataType.fitsNumbers_float
      | count | sum | variance | deviation => cases h
  | aggregateRows f => cases h

/-- A raw aggregate that has a sensitivity is of a type that a number fits. -/
theorem Expr.fitsNumbers_of_sensitivity {scope : Scope N}
    (hscope : ∀ c s, scope.resolve c = .ok s → s.bounds.isSome → s.dataType.FitsNumbers) {e : Expr N}
    (h : (e.sensitivity scope).isSome) : (e.dataType scope).FitsNumbers := by
  cases e with
  | aggregate f x =>
      cases f with
      | count => exact DataType.fitsNumbers_integer
      | sum | min | max =>
          rw [sensitivity, Option.isSome_map] at h
          exact fitsNumbers_of_bounds (e := x) hscope h
      | mean | variance | deviation => cases h
  | aggregateRows f =>
      cases f with
      | count => exact DataType.fitsNumbers_integer
      | sum | min | max | mean | variance | deviation => cases h
  | _ => cases h

/-- **Where types are kept.**  Let only columns of numbers have bounds, and let no generated names
collide.  Then a preparation that can be noised keeps its types. -/
theorem Preparation.keepsTypes_of_bounds {q : Query N} {d : Dataset N} {p : Preparation N}
    {scope : Scope N} {text : String} (hparse : Query.parse text = .ok q)
    (h : Preparation.of q d = .ok p) (hscope : q.bind d.catalog = .ok scope)
    (hbounds : ∀ name schema, d.catalog.table name = .ok schema → ∀ f ∈ schema.fields,
      f.bounds.isSome → f.dataType.FitsNumbers)
    (hfree : p.plan.IsCollisionFree q) {b : Budget N} {m : Mechanism} {cs : List (Calibration N)}
    (hcs : p.plan.calibrate b m = .ok cs) : p.KeepsTypes scope := by
  obtain ⟨planScope, table, recombined, hbound, htable, -, hrecombined, hp⟩ :=
    Plan.of_eq_ok (of_eq_ok.mp h).1
  obtain rfl : planScope = scope := hbound.scope_unique (Query.bound_of_bind hscope)
  obtain ⟨name, label, hrelations, hschema⟩ := Plan.sourceTable_eq_ok htable
  have hinner := Plan.written_inner (Query.written_of_parse hparse) hrecombined
  have hsymbols : ∀ c s, planScope.resolve c = .ok s → s.bounds.isSome → s.dataType.FitsNumbers := by
    intro c s hs hsome
    obtain ⟨symbols, hloaded, rfl⟩ := hbound.scope_eq
    obtain ⟨-, path, hfound⟩ := Scope.resolve_eq_ok.mp hs
    have hentry := PathMap.mem_of_findEntry hfound
    rw [Query.scope_of_table hrelations hschema hloaded] at hentry
    obtain ⟨x, hx, hsame⟩ := PathMap.mem_of_mem_ofList hentry
    obtain ⟨_, hsymbol, rfl⟩ := List.mem_map.mp hx
    obtain ⟨field, hfield, rfl⟩ := List.mem_map.mp hsymbol
    obtain ⟨-, rfl⟩ := Prod.mk.inj hsame
    exact hbounds name table hschema field hfield hsome
  refine ⟨fun i hi j hj hname => ?_, fun row hrow x hx _ => ?_⟩
  · rw [hp] at hi hj hfree
    have htree := Plan.tree_eq_of_name_eq hrecombined hfree hi hj hname
    have hwritten : ∀ i ∈ (Plan.assemble q planScope table recombined).inner.select,
        i.expr.Written := fun i hi => hinner.outputs _ (Query.mem_outputExprs_of_select hi)
    rw [(hwritten i hi).eq_of_tree (hwritten j hj) htree]
  · obtain ⟨column, hcolumn, htype⟩ := List.mem_map.mp (List.of_mem_zip hx).1
    have hsensitivity : column.sensitivity ∈ cs.map fun c => some c.sensitivity := by
      rw [Plan.sensitivities_of_calibrate hcs]
      exact List.mem_map_of_mem hcolumn
    obtain ⟨c, -, hsome⟩ := List.mem_map.mp hsensitivity
    rw [hp] at hcolumn
    obtain ⟨e, -, rfl⟩ := Plan.mem_columns_assemble.mp hcolumn
    rw [← htype]
    exact Expr.fitsNumbers_of_sensitivity hsymbols (Option.isSome_iff_exists.mpr ⟨_, hsome.symm⟩)

end PrivateSql
