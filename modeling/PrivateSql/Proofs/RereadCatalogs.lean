import PrivateSql.Catalog.Document
import PrivateSql.Proofs.ReadDocuments
import PrivateSql.Proofs.StoredRows
import PrivateSql.Proofs.WrittenNumbers
/-!
# Catalogs that are read back

A catalog is kept as a document.  The document has a place for every name, count, type and bound, but
none for a number that is not finite: there `null` is written, which is read as a bound that is not
declared.  So a catalog of accepted tables is always read back, its tables under the same paths with
the same columns, and it is the same catalog exactly when all its bounds are finite.  A table is
accepted with infinite bounds, and loses them.

That a reader of numbers finds the number that was written is taken as a hypothesis on the bounds
(`Field.IsReread`), since it rounds the digits in steps of its own.

* `Field.exists_document`, `Schema.exists_document` — columns and tables from their blocks;
* `Catalog.ofJson_toJson` — the catalog that is read back, `Catalog.written`;
* `Catalog.reread`, `Catalog.reread_unbounded` — when it is the same, and a catalog that is not.
-/

namespace PrivateSql

open Json

/-! ## Counts -/

/-- The digits of a number do not begin with a zero. -/
theorem head?_toDigits {n : ℕ} (h : 0 < n) : (Nat.toDigits 10 n).head? ≠ some '0' := by
  induction n using Nat.strongRecOn with
  | _ n ih =>
      rw [Nat.toDigits_eq_if (by decide)]
      split
      · have hall : ∀ n < 10, 0 < n → Nat.digitChar n ≠ '0' := by decide
        rename_i hlt
        simpa using hall n hlt h
      · rw [List.head?_append_of_ne_nil _ Nat.toDigits_ne_nil]
        exact ih (n / 10) (by omega) (by omega)

/-- A positive count as it is written. -/
def countNumeral (n : ℕ) : Numeral := ⟨false, Nat.toDigits 10 n, [], none⟩

theorem scan_toDigits {n : ℕ} (h : 0 < n) :
    Numeral.scan (Nat.toDigits 10 n) = some (countNumeral n, []) := by
  obtain ⟨c, cs, hdigits⟩ := List.exists_cons_of_ne_nil (Decimal.toDigits_ne_nil n)
  have hall := Decimal.all_toDigits n
  have hminus : c ≠ '-' := by
    rintro rfl
    rw [hdigits] at hall
    cases hall
  have hunsigned : Numeral.scan (Nat.toDigits 10 n) = scanUnsigned false (Nat.toDigits 10 n) := by
    rw [hdigits]
    exact scan_unsigned hminus cs
  have htake : Decimal.takeDigits (Nat.toDigits 10 n) = (Nat.toDigits 10 n, []) := by
    have htaken := @Decimal.takeDigits_append _ [] hall (by simp)
    rwa [List.append_nil] at htaken
  have hwhole : ¬ ((Nat.toDigits 10 n).isEmpty ||
      (decide ((Nat.toDigits 10 n).length > 1) && (Nat.toDigits 10 n).head? == some '0')) = true := by
    simp [head?_toDigits h]
  rw [hunsigned, scanUnsigned, htake]
  simp only [if_neg hwhole]
  rfl

theorem countOf_countNumeral {n : ℕ} (h : n < 0x10000000000000000) :
    countOf (.number (countNumeral n)) = .ok n := by
  have hinteger : (countNumeral n).integer? = some (n : ℤ) := by
    simp [Numeral.integer?, countNumeral, Decimal.ofDigits_toDigits]
  simp only [countOf, hinteger]
  rw [if_pos (by omega)]
  rfl

/-- A positive count is read back from its digits. -/
theorem isScalar_toString {n : ℕ} (h : 0 < n) :
    IsScalar (toString n).toList (.number (countNumeral n)) := by
  have htext : (toString n).toList = Nat.toDigits 10 n := by
    rw [Nat.toString_eq_repr, Nat.repr_eq_ofList_toDigits, String.toList_ofList]
  rw [htext]
  exact isScalar_number (scan_toDigits h)

/-! ## Bounds -/

variable {N : Type} [Number N]

/-- The bound that a document can hold: none in place of a number that is not finite. -/
def writtenBound (b : Option N) : Option N := b.filter Number.isFinite

/-- A number that is read back from its own text. -/
def IsReread (x : N) : Prop :=
  ∃ n, Numeral.scan (Number.write .json x).toList = some (n, []) ∧ n.value? = some x

/-- A bound is read back when it is finite, and as none when it is not. -/
theorem exists_bound {x : N} (h : Number.isFinite x = true → IsReread x) :
    ∃ d, IsScalar (Value.float x).json.toList d ∧
      Json.optional numberOf d = .ok (writtenBound (some x)) := by
  by_cases hfinite : Number.isFinite x = true
  · obtain ⟨n, hscan, hvalue⟩ := h hfinite
    refine ⟨.number n, ?_, ?_⟩
    · rw [Value.json, if_pos hfinite]
      exact isScalar_number hscan
    · rw [Json.optional, numberOf, hvalue, writtenBound, Option.filter_some, if_pos hfinite]
      · rfl
      · rintro ⟨⟩
  · refine ⟨.null, ?_, ?_⟩
    · rw [Value.json, if_neg hfinite]
      exact isScalar_null
    · rw [writtenBound, Option.filter_some, if_neg hfinite]
      rfl

/-- The members of a bound, as they are read back. -/
theorem exists_boundMembers (name : String) {b : Option N}
    (h : ∀ x, b = some x → Number.isFinite x = true → IsReread x) :
    ∃ es, List.Forall₂ Block.IsMember (boundBlock name b) es ∧
      (es = [] ∧ writtenBound b = none ∨
        ∃ d, es = [(some name, d)] ∧ Json.optional numberOf d = .ok (writtenBound b)) := by
  cases b with
  | none => exact ⟨[], .nil, .inl ⟨rfl, rfl⟩⟩
  | some x =>
      obtain ⟨d, hscalar, hread⟩ := exists_bound (h x rfl)
      exact ⟨[(some name, d)], .cons ⟨rfl, Block.isRead_scalar hscalar⟩ .nil,
        .inr ⟨d, rfl, hread⟩⟩

/-! ## Columns -/

/-- The column that a document can hold. -/
def Field.written (f : Field N) : Field N :=
  { f with lower := writtenBound f.lower, upper := writtenBound f.upper }

/-- The finite bounds of a column are read back from their own texts. -/
def Field.IsReread (f : Field N) : Prop :=
  ∀ x, f.lower = some x ∨ f.upper = some x → Number.isFinite x = true → PrivateSql.IsReread x

theorem DataType.ofName?_name (t : DataType) : DataType.ofName? t.name = some t := by
  cases t <;> rfl

/-- A column is read back from its block, but for the bounds that are not finite. -/
theorem Field.exists_document {f : Field N} (h : f.IsReread) :
    ∃ d, f.block.IsRead d ∧ Field.ofDocument d = .ok f.written := by
  obtain ⟨name, dataType, lower, upper⟩ := f
  obtain ⟨ls, hls, hlower⟩ := exists_boundMembers "lower" fun x hx => h x (.inl hx)
  obtain ⟨us, hus, hupper⟩ := exists_boundMembers "upper" fun x hx => h x (.inr hx)
  have hname := Block.isRead_scalar (isScalar_quote name)
  have htype := Block.isRead_scalar (isScalar_quote dataType.name)
  refine ⟨.object ((some "name", .text (some name)) :: (some "type", .text (some dataType.name)) ::
      (ls ++ us)),
    Block.isRead_object (.cons ⟨rfl, hname⟩ (.cons ⟨rfl, htype⟩ (List.rel_append hls hus))), ?_⟩
  rcases hlower with ⟨rfl, hlower⟩ | ⟨l, rfl, hlower⟩ <;>
    rcases hupper with ⟨rfl, hupper⟩ | ⟨u, rfl, hupper⟩ <;>
      simp [Field.ofDocument, membersOf, FieldMembers.read, textOf, once, DataType.ofDocument,
        DataType.ofName?_name, required, Field.written, hlower, hupper]

/-- A list is read back item by item. -/
theorem exists_listDocument {α β : Type} {block : α → Block} {read : Document → Decoded β}
    {g : α → β} {l : List α} (h : ∀ a ∈ l, ∃ d, (block a).IsRead d ∧ read d = .ok (g a)) :
    ∃ d, (Block.list (l.map block)).IsRead d ∧ listOf read d = .ok (l.map g) := by
  have hitems : ∃ ds, List.Forall₂ Block.IsRead (l.map block) ds ∧
      List.Forall₂ (fun d b => read d = .ok b) ds (l.map g) := by
    induction l with
    | nil => exact ⟨[], .nil, .nil⟩
    | cons a l ih =>
        obtain ⟨d, hblock, hread⟩ := h a List.mem_cons_self
        obtain ⟨ds, hblocks, hreads⟩ := ih fun a' ha' => h a' (List.mem_cons_of_mem _ ha')
        exact ⟨d :: ds, .cons hblock hblocks, .cons hread hreads⟩
  obtain ⟨ds, hblocks, hreads⟩ := hitems
  exact ⟨.list ds, Block.isRead_list hblocks, mapM_eq_ok.mpr hreads⟩

/-! ## Tables -/

/-- What a description has to be to stand for a table. -/
theorem SchemaDraft.check_eq_ok {d : SchemaDraft N} {s : Schema N} :
    d.check = .ok s ↔
      d = ⟨some s.name, some s.rows, s.fields⟩ ∧ 2 ≤ s.rows ∧ s.fields ≠ [] ∧
        fieldsError? s.name [] s.fields = none := by
  obtain ⟨name, rows, fields⟩ := d
  obtain ⟨name', rows', fields'⟩ := s
  cases name with
  | none => simp [check]
  | some name =>
      cases rows with
      | none => simp [check]
      | some rows =>
          simp only [check, SchemaDraft.mk.injEq, Option.some.injEq]
          constructor
          · intro h
            by_cases hrows : rows < 2
            · rw [if_pos hrows] at h
              cases h
            · rw [if_neg hrows] at h
              by_cases hfields : fields.isEmpty = true
              · rw [if_pos hfields] at h
                cases h
              · rw [if_neg hfields] at h
                cases hright : fieldsError? name [] fields with
                | some e => simp [hright] at h
                | none =>
                    rw [hright] at h
                    cases h
                    exact ⟨⟨rfl, rfl, rfl⟩, by omega, by simpa using hfields, hright⟩
          · rintro ⟨⟨rfl, rfl, rfl⟩, hrows, hfields, hright⟩
            rw [if_neg (by omega), if_neg (by simpa using hfields), hright]

/-- A table that some description stands for, with a number of rows that fits 64 bits. -/
def Schema.IsAccepted (s : Schema N) : Prop :=
  (∃ d : SchemaDraft N, d.check = .ok s) ∧ s.rows < 0x10000000000000000

/-- The table that a document can hold. -/
def Schema.written (s : Schema N) : Schema N := { s with fields := s.fields.map Field.written }

/-- Without some of its bounds a column is as right as before. -/
theorem SchemaDraft.fieldError?_written {table : String} {seen : List String} {f : Field N}
    (h : fieldError? table seen f = none) : fieldError? table seen f.written = none := by
  have hbound : ∀ {b : Option N} {x : N}, writtenBound b = some x → b = some x := fun hb =>
    (Option.filter_eq_some_iff.mp hb).1
  rw [fieldError?] at h ⊢
  split at h
  · cases h
  · rename_i hnew
    rw [if_neg (by exact hnew)]
    cases hlower : f.written.lower with
    | none => rfl
    | some l =>
        cases hupper : f.written.upper with
        | none => rfl
        | some u =>
            rw [hbound hlower, hbound hupper] at h
            exact h

theorem SchemaDraft.fieldsError?_written {table : String} {fs : List (Field N)}
    {seen : List String} (h : fieldsError? table seen fs = none) :
    fieldsError? table seen (fs.map Field.written) = none := by
  induction fs generalizing seen with
  | nil => rfl
  | cons f fs ih =>
      rw [fieldsError?] at h
      rw [List.map_cons, fieldsError?]
      cases hfield : fieldError? table seen f with
      | some e => simp [hfield] at h
      | none =>
          rw [hfield] at h
          rw [fieldError?_written hfield]
          exact ih h

/-- An accepted table: what its columns can hold of it is accepted as well. -/
theorem SchemaDraft.check_written {d : SchemaDraft N} {s : Schema N} (h : d.check = .ok s) :
    (SchemaDraft.mk (some s.name) (some s.rows) (s.fields.map Field.written)).check =
      .ok s.written := by
  obtain ⟨-, hrows, hfields, hright⟩ := check_eq_ok.mp h
  refine check_eq_ok.mpr ⟨rfl, hrows, ?_, fieldsError?_written hright⟩
  simpa [Schema.written] using hfields

/-- A table is read back from its block, but for the bounds that are not finite. -/
theorem Schema.exists_document {s : Schema N} (haccepted : s.IsAccepted)
    (hfields : ∀ f ∈ s.fields, f.IsReread) :
    ∃ d, s.block.IsRead d ∧ Schema.ofDocument d = .ok s.written := by
  obtain ⟨⟨d, hcheck⟩, hrows⟩ := haccepted
  obtain ⟨columns, hcolumns, hread⟩ := exists_listDocument fun f hf =>
    Field.exists_document (hfields f hf)
  obtain ⟨-, htwo, -, -⟩ := SchemaDraft.check_eq_ok.mp hcheck
  have hname := Block.isRead_scalar (isScalar_quote s.name)
  have hcount := Block.isRead_scalar (isScalar_toString (show 0 < s.rows by omega))
  refine ⟨.object [(some "name", .text (some s.name)), (some "rows", .number (countNumeral s.rows)),
      (some "columns", columns)],
    Block.isRead_object (.cons ⟨rfl, hname⟩ (.cons ⟨rfl, hcount⟩ (.cons ⟨rfl, hcolumns⟩ .nil))), ?_⟩
  have hchecked := SchemaDraft.check_written hcheck
  simp [Schema.ofDocument, membersOf, SchemaMembers.read, textOf, once, Json.optional,
    countOf_countNumeral hrows, hread, isShort, hchecked]
  rfl

/-! ## Catalogs -/

/-- Paths may be put in lower case before their entries are put. -/
theorem PathMap.insertAll_normalize {α : Type} (m : PathMap α) (l : List (List String × α)) :
    m.insertAll (l.map fun e => (Path.normalize e.1, e.2)) = m.insertAll l := by
  induction l generalizing m with
  | nil => rfl
  | cons e l ih =>
      have hinsert : m.insert (Path.normalize e.1) e.2 = m.insert e.1 e.2 := by
        simp only [insert, Path.normalize_normalize]
      exact (congrArg (fun m : PathMap α => m.insertAll _) hinsert).trans (ih _)

namespace Catalog

/-- The catalog that a document can hold. -/
def written (c : Catalog N) : Catalog N := ⟨c.schemas.map Schema.written⟩

omit [Number N] in
/-- The tables of a catalog are some of those that were added, each under its name. -/
theorem mem_of_mem_schemas {l : List (Schema N)} {e : Path × Schema N}
    (h : e ∈ (ofSchemas l).schemas.entries) :
    e.2 ∈ l ∧ e.1 = Path.normalize (Identifier.mk e.2.name).parts := by
  rw [Dataset.schemas_ofSchemas] at h
  obtain ⟨x, hx, rfl⟩ := PathMap.mem_of_mem_ofList h
  obtain ⟨s, hs, rfl⟩ := List.mem_map.mp hx
  exact ⟨hs, rfl⟩

/-- **Catalogs of the tables of a catalog.**  Tables that keep their names keep their paths. -/
theorem ofSchemas_map_tables (l : List (Schema N)) :
    ofSchemas ((ofSchemas l).tables.map Schema.written) = (ofSchemas l).written := by
  have hentries : (ofSchemas ((ofSchemas l).tables.map Schema.written)).schemas =
      PathMap.ofList ((ofSchemas l).schemas.map Schema.written).entries := by
    rw [Dataset.schemas_ofSchemas, PathMap.ofList, ← PathMap.insertAll_normalize, tables,
      PathMap.values, List.map_map, List.map_map, List.map_map, PathMap.ofList, PathMap.map]
    congr 1
    refine List.map_congr_left fun e he => ?_
    simp [(mem_of_mem_schemas he).2, Schema.written]
  have hnormal : ((ofSchemas l).schemas.map Schema.written).IsNormal := by
    intro e he
    obtain ⟨x, hx, rfl⟩ := List.mem_map.mp he
    dsimp only
    rw [(mem_of_mem_schemas hx).2, Path.normalize_normalize]
  rw [PathMap.ofList_entries hnormal] at hentries
  exact congrArg Catalog.mk hentries

/-- **What a document keeps.**  A catalog of accepted tables is read back from its document, but for
the bounds that are not finite. -/
theorem ofJson_toJson {l : List (Schema N)} (haccepted : ∀ s ∈ l, s.IsAccepted)
    (hread : ∀ s ∈ l, ∀ f ∈ s.fields, f.IsReread) :
    ofJson (ofSchemas l).toJson = .ok (ofSchemas l).written := by
  have htables : ∀ s ∈ (ofSchemas l).tables, s ∈ l := by
    intro s hs
    obtain ⟨e, he, rfl⟩ := List.mem_map.mp hs
    exact (mem_of_mem_schemas he).1
  obtain ⟨tables, hblock, hread⟩ := exists_listDocument fun s hs =>
    Schema.exists_document (haccepted s (htables s hs)) (hread s (htables s hs))
  have hobject : (Block.object [("tables", .list ((ofSchemas l).tables.map Schema.block))]).IsRead
      (.object [(some "tables", tables)]) :=
    Block.isRead_object (.cons ⟨rfl, hblock⟩ .nil)
  have hdocument : Catalog.ofDocument (.object [(some "tables", tables)]) =
      .ok (ofSchemas l).written := by
    rw [← ofSchemas_map_tables]
    simp [ofDocument, membersOf, once, hread, required]
  rw [ofJson, Json.ofText, toJson, read_pretty hobject]
  simp only [hdocument, ok_bind]
  rfl

/-! ## The catalog that is read back -/

end Catalog

/-- The bounds of a column are finite. -/
def Field.IsFinite (f : Field N) : Prop :=
  ∀ x, f.lower = some x ∨ f.upper = some x → Number.isFinite x = true

theorem Field.sameBound_written {b : Option Binary64} :
    Field.sameBound (writtenBound b) b = true ↔ ∀ x, b = some x → Number.isFinite x = true := by
  cases b with
  | none => simp [writtenBound, Field.sameBound]
  | some x =>
      by_cases hfinite : Number.isFinite x = true
      · have hnan : x.isNaN = false := Binary64.not_isNaN_of_isFinite hfinite
        have hself : Number.eq x x = true := by
          change x.eq x = true
          simp [Binary64.eq, hnan]
        simp [writtenBound, Option.filter_some, hfinite, Field.sameBound, hself]
      · simp [writtenBound, Option.filter_some, hfinite, Field.sameBound]

theorem Field.agrees_written {f : Field Binary64} : f.written.agrees f = true ↔ f.IsFinite := by
  simp only [Field.agrees, Field.written, Bool.and_eq_true, Field.sameBound_written, beq_self_eq_true,
    decide_true, true_and]
  exact ⟨fun h x hx => hx.elim (h.1 x) (h.2 x), fun h => ⟨fun x hx => h x (.inl hx), fun x hx => h x (.inr hx)⟩⟩

/-- What holds of the elements of a list beside their images, place by place. -/
theorem all_zip_map {α β : Type} (f : α → β) (p : β × α → Bool) (l : List α) :
    ((l.map f).zip l).all p = l.all fun a => p (f a, a) := by
  induction l with
  | nil => rfl
  | cons a l ih => simp [ih]

theorem Schema.agrees_written {s : Schema Binary64} :
    s.written.agrees s = true ↔ ∀ f ∈ s.fields, f.IsFinite := by
  simp only [Schema.agrees, Schema.written, beq_self_eq_true, List.length_map, all_zip_map,
    List.all_eq_true, Field.agrees_written, Bool.true_and]

theorem Catalog.agrees_written {c : Catalog Binary64} :
    c.written.agrees c = true ↔ ∀ s ∈ c.tables, ∀ f ∈ s.fields, f.IsFinite := by
  simp only [Catalog.agrees, Catalog.written, PathMap.map, PathMap.size, List.length_map,
    beq_self_eq_true, all_zip_map, List.all_eq_true, Schema.agrees_written, Bool.true_and,
    Catalog.tables, PathMap.values, List.forall_mem_map]

/-- **Catalogs are read back without their infinite bounds.**  The catalog of some accepted tables is
read back from its document as the one without the bounds that are not finite; it agrees with the
catalog that was written exactly when there are none of these. -/
theorem Catalog.reread {l : List (Schema Binary64)} (haccepted : ∀ s ∈ l, s.IsAccepted)
    (hread : ∀ s ∈ l, ∀ f ∈ s.fields, f.IsReread) :
    Catalog.ofJson (Catalog.ofSchemas l).toJson = .ok (Catalog.ofSchemas l).written ∧
      ((Catalog.ofSchemas l).written.agrees (Catalog.ofSchemas l) = true ↔
        ∀ s ∈ (Catalog.ofSchemas l).tables, ∀ f ∈ s.fields, f.IsFinite) :=
  ⟨Catalog.ofJson_toJson haccepted hread, Catalog.agrees_written⟩

/-- A table of one column with these bounds. -/
def tableWithin (lower upper : Binary64) : Schema Binary64 :=
  ⟨"t", 10, [⟨"x", .float, some lower, some upper⟩]⟩

/-- It is accepted when the bounds are in order. -/
theorem isAccepted_tableWithin {lower upper : Binary64} (h : Number.le lower upper = true) :
    ∀ s ∈ [tableWithin lower upper], s.IsAccepted := by
  intro s hs
  rw [List.mem_singleton.mp hs]
  have hright : SchemaDraft.fieldsError? "t" [] (tableWithin lower upper).fields = none := by
    simp [SchemaDraft.fieldsError?, SchemaDraft.fieldError?, tableWithin, h]
  have htwo : 2 ≤ (tableWithin lower upper).rows := by simp [tableWithin]
  have hword : (tableWithin lower upper).rows < 0x10000000000000000 := by simp [tableWithin]
  exact ⟨⟨_, SchemaDraft.check_eq_ok.mpr ⟨rfl, htwo, List.cons_ne_nil _ _, hright⟩⟩, hword⟩

/-- What holds of the two bounds holds of all bounds of the table. -/
theorem forall_bounds_tableWithin {lower upper : Binary64} {P : Binary64 → Prop} (hlower : P lower)
    (hupper : P upper) :
    ∀ s ∈ [tableWithin lower upper], ∀ f ∈ s.fields, ∀ x,
      f.lower = some x ∨ f.upper = some x → P x := by
  intro s hs f hf x hx
  rw [List.mem_singleton.mp hs] at hf
  rw [List.mem_singleton.mp hf] at hx
  rcases hx with hx | hx
  · exact Option.some.inj hx ▸ hlower
  · exact Option.some.inj hx ▸ hupper

/-- A catalog with finite bounds is read back as it was. -/
theorem Catalog.reread_bounded :
    ∃ c, Catalog.ofJson
        (Catalog.ofSchemas [tableWithin (Binary64.ofInt 0) (Binary64.ofInt 100)]).toJson = .ok c ∧
      c.agrees (Catalog.ofSchemas [tableWithin (Binary64.ofInt 0) (Binary64.ofInt 100)]) = true := by
  have hzero : IsReread (Binary64.ofInt 0) := ⟨⟨false, ['0'], ['0'], none⟩, by rfl, by rfl⟩
  have hhundred : IsReread (Binary64.ofInt 100) :=
    ⟨⟨false, ['1', '0', '0'], ['0'], none⟩, by rfl, by rfl⟩
  have hread : ∀ s ∈ [tableWithin (Binary64.ofInt 0) (Binary64.ofInt 100)], ∀ f ∈ s.fields,
      f.IsReread := fun s hs f hf x hx _ => forall_bounds_tableWithin hzero hhundred s hs f hf x hx
  obtain ⟨hjson, hagrees⟩ := Catalog.reread (isAccepted_tableWithin (by decide)) hread
  have hfinite : ∀ s ∈ [tableWithin (Binary64.ofInt 0) (Binary64.ofInt 100)], ∀ f ∈ s.fields,
      f.IsFinite := forall_bounds_tableWithin (by decide) (by decide)
  exact ⟨_, hjson, hagrees.mpr hfinite⟩

/-- A table whose column lies between the two infinities. -/
def unboundedTable : Schema Binary64 :=
  tableWithin (Binary64.infinity true) (Binary64.infinity false)

/-- **Bounds that are lost.**  A table is accepted with infinite bounds, and the catalog that is read
back from its document has no bounds for the column. -/
theorem Catalog.reread_unbounded :
    unboundedTable.IsAccepted ∧ (unboundedTable.fields.map fun f => f.bounds.isSome) = [true] ∧
      ∃ c, Catalog.ofJson (Catalog.ofSchemas [unboundedTable]).toJson = .ok c ∧
        (c.tables.map fun s => s.fields.map fun f => f.bounds.isSome) = [[false]] ∧
        c.agrees (Catalog.ofSchemas [unboundedTable]) = false := by
  have haccepted : ∀ s ∈ [unboundedTable], s.IsAccepted := isAccepted_tableWithin (by decide)
  have hread : ∀ s ∈ [unboundedTable], ∀ f ∈ s.fields, f.IsReread :=
    forall_bounds_tableWithin (fun hfinite => absurd hfinite (by decide))
      fun hfinite => absurd hfinite (by decide)
  refine ⟨haccepted _ List.mem_cons_self, rfl, _, Catalog.ofJson_toJson haccepted hread, rfl, ?_⟩
  rw [Bool.eq_false_iff, ne_eq, Catalog.agrees_written]
  intro hfinite
  have hlower := hfinite unboundedTable List.mem_cons_self _ List.mem_cons_self _ (.inl rfl)
  exact absurd hlower (by decide)

end PrivateSql
