import PrivateSql.Proofs.ColumnResolution
import PrivateSql.Proofs.ExecutionParts
import PrivateSql.Proofs.QueryParts
/-!
# The rows that are stored

Rows are cast to the types of their columns when a table is made of them.  So the values that a query
reads stand beside the columns that binding has looked up, and each is of the type of its column.

* `DataType.Admits` — the values of a type, `admits_of_cast`, `cast_of_admits` — what casting does to
  them;
* `Table.Fits`, `Dataset.IsBuilt` — tables made of rows, and a dataset of such tables;
* `Dataset.IsBuilt.related_rows`, `Dataset.IsBuilt.admits_of_mem_rowsRead` — the columns that a query may
  read, beside the rows of its table;
* `Dataset.IsBuilt.related_of_mem_rowsRead` — and beside the rows of any relation.
-/

namespace PrivateSql

variable {N : Type}

/-! ## Values of a type -/

namespace DataType

/-- The values of a type.  `NULL` is of every type, and every value is of the unknown one. -/
def Admits (t : DataType) (v : Value N) : Prop := v = .null ∨ t = .unknown ∨ v.dataType = t

theorem admits_null (t : DataType) : t.Admits (.null : Value N) := .inl rfl

theorem admits_unknown (v : Value N) : unknown.Admits v := .inr (.inl rfl)

theorem admits_dataType (v : Value N) : v.dataType.Admits v := .inr (.inr rfl)

variable [Number N]

instance (t : DataType) (v : Value N) : Decidable (t.Admits v) :=
  inferInstanceAs (Decidable (v = .null ∨ t = .unknown ∨ v.dataType = t))

/-- Casting gives a value of the type. -/
theorem admits_of_cast {t : DataType} {v w : Value N} (h : t.cast v = .ok w) : t.Admits w := by
  cases v with
  | null =>
      cases t <;> cases h <;> exact admits_null _
  | float x =>
      cases t with
      | integer =>
          rw [cast] at h
          split at h
          · cases h
            exact admits_dataType _
          · cases h
      | float | text | unknown =>
          cases h
          first | exact admits_dataType _ | exact admits_unknown _
      | boolean => cases h
  | boolean b | integer i | text s =>
      cases t <;> cases h <;> first | exact admits_dataType _ | exact admits_unknown _

/-- A value of the type stays as it is. -/
theorem cast_of_admits {t : DataType} {v : Value N} (h : t.Admits v) : t.cast v = .ok v := by
  rcases h with rfl | rfl | rfl
  · cases t <;> rfl
  · cases v <;> rfl
  · cases v <;> rfl

end DataType

variable [Number N]

/-! ## Datasets that are built from tables -/

/-- The rows of a table have a value of its type for each of its columns. -/
def Table.Fits (t : Table N) : Prop := ∀ row ∈ t.rows, List.Forall₂ DataType.Admits t.schema.types row

theorem Table.admits_castRow {types : List DataType} {row row' : List (Value N)}
    (hlength : row.length = types.length) (h : Table.castRow types row = .ok row') :
    List.Forall₂ DataType.Admits types row' := by
  induction types generalizing row row' with
  | nil =>
      obtain rfl := List.eq_nil_of_length_eq_zero hlength
      cases h
      exact .nil
  | cons t types ih =>
      cases row with
      | nil => cases hlength
      | cons v row =>
          unfold Table.castRow at h
          split at h
          · rename_i w hw
            obtain ⟨rest, hrest, h⟩ := bind_eq_ok.mp h
            cases h
            exact .cons (DataType.admits_of_cast hw) (ih (Nat.succ.inj hlength) hrest)
          · cases h

/-- Rows are cast when a table is made of them. -/
theorem Table.fits_of_eq_ok {schema : Schema N} {rows : List (List (Value N))} {t : Table N}
    (h : Table.of schema rows = .ok t) : t.Fits := by
  obtain ⟨fitted, hfitted, h⟩ := bind_eq_ok.mp h
  cases h
  intro row' hrow'
  obtain ⟨row, -, hrow⟩ := exists_element_of_mem hfitted hrow'
  unfold Table.fitRow at hrow
  split at hrow
  · cases hrow
  · rename_i hwidth
    have hlength : row.length = schema.types.length := by
      rw [Schema.types, List.length_map]
      exact not_not.mp hwidth
    exact Table.admits_castRow hlength hrow

namespace Dataset

/-- A dataset as it is built: of tables whose rows were fitted to their schemas. -/
def IsBuilt (d : Dataset N) : Prop :=
  ∃ tables : List (Table N), d = .ofTables tables ∧
    ∀ t ∈ tables, ∃ schema rows, Table.of schema rows = .ok t

omit [Number N] in
theorem schemas_ofSchemas (l : List (Schema N)) :
    (Catalog.ofSchemas l).schemas =
      PathMap.ofList (l.map fun s => ((Identifier.mk s.name).parts, s)) := by
  have hfold : ∀ c : Catalog N, (l.foldl Catalog.add c).schemas =
      c.schemas.insertAll (l.map fun s => ((Identifier.mk s.name).parts, s)) := by
    induction l with
    | nil => intro c; rfl
    | cons s l ih => intro c; exact ih (c.add s)
  exact hfold Catalog.empty

/-- The tables of a dataset that is built stand beside their schemas. -/
theorem IsBuilt.related {d : Dataset N} (h : d.IsBuilt) :
    PathMap.Related (fun s t => t.schema = s ∧ t.Fits) d.catalog.schemas d.tables := by
  obtain ⟨tables, rfl, htables⟩ := h
  rw [ofTables, schemas_ofSchemas, List.map_map]
  refine PathMap.related_ofList ?_
  induction tables with
  | nil => exact .nil
  | cons t tables ih =>
      obtain ⟨schema, rows, hof⟩ := htables t List.mem_cons_self
      have htail := ih fun t' ht' => htables t' (List.mem_cons_of_mem _ ht')
      exact .cons ⟨rfl, rfl, Table.fits_of_eq_ok hof⟩ htail

/-- A table of the catalog has its rows, and they fit. -/
theorem IsBuilt.table {d : Dataset N} (h : d.IsBuilt) {name : Identifier} {schema : Schema N}
    (hschema : d.catalog.table name = .ok schema) :
    ∃ t, d.table name = .ok t ∧ t.schema = schema ∧ t.Fits := by
  unfold Catalog.table at hschema
  split at hschema
  · rename_i s hfound
    cases hschema
    obtain ⟨t, ht, hschema, hfits⟩ := h.related.find_one hfound
    exact ⟨t, by rw [Dataset.table, ht], hschema, hfits⟩
  · cases hschema

end Dataset

/-! ## Columns beside stored rows -/

/-- The table that a bound query reads is in the catalog. -/
theorem Query.Bound.exists_schema {q : Query N} {catalog : Catalog N} {scope : Scope N}
    (hbound : q.Bound catalog scope) {name : Identifier} {label : Option Identifier}
    (hrelations : q.relations = [.table name label]) : ∃ schema, catalog.table name = .ok schema := by
  obtain ⟨select, relations, selection, groupBy, having, orderBy, limit⟩ := q
  cases hrelations
  obtain ⟨table, htable, -⟩ := hbound.scope_eq
  simp only [loadSymbols, loadRelations, loadRelation, SymbolTable.has_empty, Bool.false_eq_true,
    if_false] at htable
  obtain ⟨loaded, hloaded, -⟩ := bind_eq_ok.mp htable
  obtain ⟨schema, hschema, -⟩ := bind_eq_ok.mp hloaded
  exact ⟨schema, hschema⟩

namespace Dataset

variable {d : Dataset N} {q : Query N} {scope : Scope N}

/-- The columns that a query over a table may read stand beside the values of each of its rows, which
are of their types. -/
theorem IsBuilt.related_rows (hbuilt : d.IsBuilt) {name : Identifier} {label : Option Identifier}
    {schema : Schema N} (hrelations : q.relations = [.table name label])
    (hschema : d.catalog.table name = .ok schema) (hbound : q.Bound d.catalog scope) :
    ∃ t, d.table name = .ok t ∧ t.schema = schema ∧ ∀ row ∈ t.rows,
      PathMap.Related (fun s v => s.dataType.Admits v) scope.columns
        (rowBindings (Relation.path (.table name label : Relation (Query N))) t.schema.names
          row) := by
  obtain ⟨t, ht, rfl, hfits⟩ := hbuilt.table hschema
  obtain ⟨table, htable, rfl⟩ := hbound.scope_eq
  have hscope := Query.scope_of_table hrelations hschema htable
  refine ⟨t, ht, rfl, fun row hrow => ?_⟩
  have htyped : List.Forall₂ (fun (s : Symbol N) v => s.dataType.Admits v)
      (t.schema.fields.map Field.symbol) row := by
    have hrow := hfits row hrow
    rw [Schema.types, List.forall₂_map_left_iff] at hrow
    exact List.forall₂_map_left_iff.mpr hrow
  have hrelated := related_rowBindings
    (Relation.path (.table name label : Relation (Query N))) htyped
  rw [← hscope, List.map_map] at hrelated
  exact hrelated

/-- The columns that a query over a table may read stand beside the values of the rows that it keeps,
which are of their types. -/
theorem IsBuilt.admits_of_mem_rowsRead (hbuilt : d.IsBuilt) {name : Identifier}
    {label : Option Identifier} (hrelations : q.relations = [.table name label])
    (hbound : q.Bound d.catalog scope) {kept : List (Bindings N)} (hkept : d.rowsRead q = .ok kept)
    {b : Bindings N} (hb : b ∈ kept) :
    PathMap.Related (fun s v => s.dataType.Admits v) scope.columns b := by
  obtain ⟨schema, hschema⟩ := hbound.exists_schema hrelations
  obtain ⟨t, ht, -, hrelated⟩ := hbuilt.related_rows hrelations hschema hbound
  obtain ⟨path, source, hread, hkept⟩ := Dataset.rowsRead_eq_ok.mp hkept
  rw [hrelations] at hread
  simp only [Dataset.runRelations, Dataset.runRelation, ht, Dataset.liftQuery, ok_bind] at hread
  cases hread
  obtain ⟨row, hrow, rfl⟩ := List.mem_map.mp (mem_of_mem_filterRows hkept hb)
  exact hrelated row hrow

/-- The columns that a query over another one may read stand beside the values of each of its rows. -/
theorem related_derived {inner : Query N} {label : Identifier} {answer : Rowset N}
    (hrelations : q.relations = [.derived inner label]) (hbound : q.Bound d.catalog scope)
    (hrun : d.run inner = .ok answer) {row : List (Value N)} (hrow : row ∈ answer.rows) :
    PathMap.Related (fun _ _ => True) scope.columns (rowBindings [label.text] answer.names row) := by
  obtain ⟨table, htable, rfl⟩ := hbound.scope_eq
  obtain ⟨innerScope, _, _, hinner, -⟩ := run_eq_ok.mp hrun
  obtain ⟨innerTable, hinnerTable, -⟩ := bind_eq_ok.mp hinner
  rw [Query.scope_of_derived hrelations hinnerTable htable, names_of_run hrun]
  have hbeside : List.Forall₂ (fun (_ : Symbol N) (_ : Value N) => True)
      (inner.select.map fun item => ⟨item.name, item.expr.dataType innerTable.scope,
        item.expr.bounds innerTable.scope⟩) row :=
    List.forall₂_iff_zip.mpr ⟨by rw [List.length_map, length_of_mem_run hrun hrow], by simp⟩
  have hrelated := related_rowBindings [label.text] hbeside
  rwa [List.map_map] at hrelated

/-- The columns that a query may read stand beside the values of each of the rows that it keeps. -/
theorem IsBuilt.related_of_mem_rowsRead (hbuilt : d.IsBuilt) (hbound : q.Bound d.catalog scope)
    {kept : List (Bindings N)} (hkept : d.rowsRead q = .ok kept) {b : Bindings N} (hb : b ∈ kept) :
    PathMap.Related (fun _ _ => True) scope.columns b := by
  obtain ⟨path, source, hread, hfilter⟩ := rowsRead_eq_ok.mp hkept
  have hrelation : ∃ r, q.relations = [r] ∧ d.runRelation r = .ok (path, source) := by
    unfold runRelations at hread
    split at hread
    · exact ⟨_, ‹_›, hread⟩
    · cases hread
    · cases hread
  obtain ⟨r, hrelations, hread⟩ := hrelation
  cases r with
  | table name label =>
      exact (hbuilt.admits_of_mem_rowsRead hrelations hbound hkept hb).mono fun _ _ _ => trivial
  | derived inner label =>
      rw [runRelation] at hread
      obtain ⟨answer, hrun, hread⟩ := bind_eq_ok.mp hread
      cases hread
      obtain ⟨row, hrow, rfl⟩ := List.mem_map.mp (mem_of_mem_filterRows hfilter hb)
      exact related_derived hrelations hbound hrun hrow

end Dataset

/-! ## A table of one column -/

/-- A table of one column of integers, with these values. -/
def integerTable (N : Type) [Number N] (values : List Int64) : Table N :=
  ⟨⟨"t", 10, [⟨"x", .integer, none, none⟩]⟩, values.map fun i => [.integer i]⟩

/-- The dataset of such a table. -/
def integerDataset (N : Type) [Number N] (values : List Int64) : Dataset N :=
  .ofTables [integerTable N values]

theorem isBuilt_integerDataset (values : List Int64) : (integerDataset N values).IsBuilt := by
  refine ⟨[integerTable N values], rfl, fun t ht => ?_⟩
  obtain rfl := List.mem_singleton.mp ht
  refine ⟨(integerTable N values).schema, (integerTable N values).rows, ?_⟩
  have hrows : (integerTable N values).rows.mapM (Table.fitRow (integerTable N values).schema) =
      .ok (integerTable N values).rows := by
    rw [mapM_eq_ok, List.forall₂_same]
    intro row hrow
    obtain ⟨i, -, rfl⟩ := List.mem_map.mp hrow
    rfl
  rw [Table.of, hrows]
  rfl

end PrivateSql
