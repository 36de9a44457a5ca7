import PrivateSql.Proofs.BoundedEvaluation
import PrivateSql.Proofs.StoredRows
/-!
# Stored values and declared bounds

A table checks the width of its rows and casts their values to the types of its columns.  It does not
look at the bounds declared for the columns, which the sensitivities of aggregates are inferred from: a
stored value lies within them exactly when the number that its column keeps for the given value does.

* `Field.Admits` — the values that fit a column, its type and its bounds;
* `DataType.kept?`, `DataType.number?_of_cast` — the number that a column keeps for a value;
* `Table.rows_admit_iff_keep` — the values of a table, and when they fit;
* `Table.conforms_of_keeps` — rows of a table whose values fit, in exact arithmetic.
-/

namespace PrivateSql

section

variable {N : Type} [Number N]

/-! ## Values that fit a column -/

/-- **A value that fits its column.**  It is of the type of the column, so `NULL` also fits, and when
it is a number and both bounds are declared, it lies within them. -/
structure Field.Admits (f : Field N) (v : Value N) : Prop where
  type : f.dataType.Admits v
  within : ∀ i x, f.bounds = some i → v.number? = some x → i.contains x = true

/-- The number that a column of a type keeps for a value, if it keeps one. -/
def DataType.kept? (t : DataType) (v : Value N) : Option N :=
  match t, v with
  | .integer, .float x => some (Number.ofInt (Number.toInt64 (Number.roundToInteger .nearest x)).toInt)
  | .integer, .boolean b => some (Number.ofInt (if b then 1 else 0))
  | .text, _ => none
  | .boolean, _ => none
  | _, v => v.number?

/-- Casting gives the number that is kept. -/
theorem DataType.number?_of_cast {t : DataType} {v w : Value N} (h : t.cast v = .ok w) :
    w.number? = t.kept? v := by
  cases v with
  | null => cases t <;> cases h <;> rfl
  | boolean b =>
      cases t <;> cases h
      · cases b <;> rfl
      · rfl
      · rfl
      · rfl
  | integer i => cases t <;> cases h <;> rfl
  | float x =>
      cases t with
      | integer =>
          rw [cast] at h
          split at h <;> cases h
          rfl
      | _ => cases h <;> rfl
  | text s => cases t <;> cases h <;> rfl

/-- A given value whose number, as the column keeps it, is within the bounds of the column. -/
def Field.Keeps (f : Field N) (v : Value N) : Prop :=
  ∀ i x, f.bounds = some i → f.dataType.kept? v = some x → i.contains x = true

theorem Field.admits_iff_keeps {f : Field N} {v w : Value N} (h : f.dataType.cast v = .ok w) :
    f.Admits w ↔ f.Keeps v := by
  rw [Field.Keeps, ← DataType.number?_of_cast h]
  exact ⟨fun hadmits => hadmits.within, fun hwithin => ⟨DataType.admits_of_cast h, hwithin⟩⟩

/-! ## The rows of a table -/

/-- The values of a stored row are those of the given one, cast one by one. -/
theorem Table.forall₂_castRow {fields : List (Field N)} {row stored : List (Value N)}
    (hlength : row.length = fields.length)
    (h : Table.castRow (fields.map (·.dataType)) row = .ok stored) :
    List.Forall₂ (fun p w => p.1.dataType.cast p.2 = .ok w) (fields.zip row) stored := by
  induction fields generalizing row stored with
  | nil =>
      cases h
      exact .nil
  | cons f fields ih =>
      cases row with
      | nil => cases hlength
      | cons v row =>
          rw [List.map_cons, Table.castRow] at h
          split at h
          · rename_i w hw
            obtain ⟨rest, hrest, h⟩ := bind_eq_ok.mp h
            cases h
            exact .cons hw (ih (Nat.succ.inj hlength) hrest)
          · cases h

/-- A given row that is stored has a value for each column. -/
theorem Table.fitRow_eq_ok {schema : Schema N} {row stored : List (Value N)}
    (h : Table.fitRow schema row = .ok stored) :
    row.length = schema.fields.length ∧
      List.Forall₂ (fun p w => p.1.dataType.cast p.2 = .ok w) (schema.fields.zip row) stored := by
  unfold Table.fitRow at h
  split at h
  · cases h
  · rename_i hwidth
    have hlength := not_not.mp hwidth
    exact ⟨hlength, Table.forall₂_castRow hlength h⟩

/-- A table that is made has its schema, and its rows are the given ones, cast. -/
theorem Table.of_eq_ok {schema : Schema N} {rows : List (List (Value N))} {t : Table N}
    (h : Table.of schema rows = .ok t) :
    t.schema = schema ∧ List.Forall₂ (fun row stored => Table.fitRow schema row = .ok stored) rows t.rows := by
  obtain ⟨fitted, hfitted, h⟩ := bind_eq_ok.mp h
  cases h
  exact ⟨rfl, mapM_eq_ok.mp hfitted⟩

/-- The values of a stored row fit exactly when those of the given one keep within the bounds. -/
theorem Table.row_admits_iff_keeps {fields : List (Field N)} {row stored : List (Value N)}
    (hlength : row.length = fields.length)
    (h : List.Forall₂ (fun p w => p.1.dataType.cast p.2 = .ok w) (fields.zip row) stored) :
    List.Forall₂ Field.Admits fields stored ↔ List.Forall₂ Field.Keeps fields row := by
  induction fields generalizing row stored with
  | nil =>
      obtain rfl := List.eq_nil_of_length_eq_zero hlength
      cases h
      exact ⟨fun _ => .nil, fun _ => .nil⟩
  | cons f fields ih =>
      cases row with
      | nil => cases hlength
      | cons v row =>
          cases h with
          | cons hcast hrest =>
              rw [List.forall₂_cons, List.forall₂_cons, Field.admits_iff_keeps hcast,
                ih (Nat.succ.inj hlength) hrest]

/-- Elements side by side with the same property. -/
theorem forall_mem_iff_of_forall₂ {α β : Type} {P : α → Prop} {Q : β → Prop} {l : List α} {bs : List β}
    (h : List.Forall₂ (fun a b => Q b ↔ P a) l bs) : (∀ b ∈ bs, Q b) ↔ ∀ a ∈ l, P a := by
  induction h with
  | nil => simp
  | cons hhead _ ih => rw [List.forall_mem_cons, List.forall_mem_cons, hhead, ih]

/-- **Which stored values fit.**  The rows of a table stand beside the given ones, with a value of its
type for each column, whose number is the one that the column keeps for the given value.  It fits the
column exactly when that number lies within the declared bounds, so all stored values fit exactly when
all given ones keep within the bounds. -/
theorem Table.rows_admit_iff_keep {schema : Schema N} {rows : List (List (Value N))} {t : Table N}
    (h : Table.of schema rows = .ok t) :
    t.schema = schema ∧
      List.Forall₂ (fun row stored => row.length = schema.fields.length ∧
        List.Forall₂ (fun p w => p.1.dataType.Admits w ∧ w.number? = p.1.dataType.kept? p.2 ∧
          (p.1.Admits w ↔ p.1.Keeps p.2)) (schema.fields.zip row) stored) rows t.rows ∧
      ((∀ stored ∈ t.rows, List.Forall₂ Field.Admits schema.fields stored) ↔
        ∀ row ∈ rows, List.Forall₂ Field.Keeps schema.fields row) := by
  obtain ⟨hschema, hrows⟩ := Table.of_eq_ok h
  have hfitted := hrows.imp fun _ _ => Table.fitRow_eq_ok
  refine ⟨hschema, hfitted.imp fun row stored hrow => ⟨hrow.1, hrow.2.imp fun p w hcast =>
    ⟨DataType.admits_of_cast hcast, DataType.number?_of_cast hcast, Field.admits_iff_keeps hcast⟩⟩, ?_⟩
  exact forall_mem_iff_of_forall₂ (hfitted.imp fun row stored hrow =>
    Table.row_admits_iff_keeps hrow.1 hrow.2)

/-- A table of one column of integers, declared to lie from 0 to 10. -/
def upToTen (N : Type) [Number N] : Schema N :=
  ⟨"t", 10, [⟨"x", .integer, some (Number.ofInt 0), some (Number.ofInt 10)⟩]⟩

end

/-- A number that is rounded to the upper bound, a truth value and `NULL` are stored, and fit. -/
theorem Table.rows_admit_iff_keep_rounded :
    ∃ t : Table Binary64, Table.of (upToTen Binary64)
        [[.float (Number.ofDecimal 104 (-1))], [.boolean true], [.null]] = .ok t ∧
      t.rows = [[.integer 10], [.integer 1], [.null]] ∧
      ∀ stored ∈ t.rows, List.Forall₂ Field.Admits (upToTen Binary64).fields stored := by
  have hof : Table.of (upToTen Binary64)
      [[.float (Number.ofDecimal 104 (-1))], [.boolean true], [.null]] =
        .ok ⟨upToTen Binary64, [[.integer 10], [.integer 1], [.null]]⟩ := by
    have hcast : DataType.integer.cast (.float (Number.ofDecimal 104 (-1)) : Value Binary64) =
        .ok (.integer 10) := toOption_eq_some.mp (by decide +kernel)
    have hrounded : Table.fitRow (upToTen Binary64) [.float (Number.ofDecimal 104 (-1))] =
        .ok [.integer 10] := by
      simp [Table.fitRow, Table.castRow, Schema.types, upToTen, hcast]
    rw [Table.of, mapM_eq_ok.mpr (.cons hrounded (.cons rfl (.cons rfl .nil)))]
    rfl
  refine ⟨_, hof, rfl, (Table.rows_admit_iff_keep hof).2.2.mpr ?_⟩
  have hten : ∀ x, DataType.integer.kept? (.float (Number.ofDecimal 104 (-1)) : Value Binary64) = some x →
      (Interval.of (Number.ofInt 0) (Number.ofInt 10)).contains x = true := by
    rintro x ⟨⟩
    decide +kernel
  have hone : ∀ x, DataType.integer.kept? (.boolean true : Value Binary64) = some x →
      (Interval.of (Number.ofInt 0) (Number.ofInt 10)).contains x = true := by
    rintro x ⟨⟩
    decide +kernel
  simp only [List.forall_mem_cons, List.not_mem_nil, false_implies, implies_true, and_true]
  refine ⟨.cons ?_ .nil, .cons ?_ .nil, .cons ?_ .nil⟩
  · rintro i x ⟨⟩ hx
    exact hten x hx
  · rintro i x ⟨⟩ hx
    exact hone x hx
  · rintro i x ⟨⟩ ⟨⟩

/-- A row outside the bounds is stored as it is. -/
theorem Table.stores_outside :
    ∃ t : Table Binary64, Table.of (upToTen Binary64) [[.integer 50]] = .ok t ∧
      ∃ stored ∈ t.rows, ¬ List.Forall₂ Field.Admits (upToTen Binary64).fields stored := by
  refine ⟨⟨upToTen Binary64, [[.integer 50]]⟩, rfl, [.integer 50], List.mem_cons_self, ?_⟩
  rintro (_ | ⟨hadmits, -⟩)
  have hinside := hadmits.within _ _ rfl rfl
  revert hinside
  decide +kernel

/-! ## Exact arithmetic -/

/-- A value that fits a column of numbers is `NULL` or a number within the bounds. -/
theorem Field.Admits.within_of_isNumeric {f : Field ℝ} {v : Value ℝ} {i : Interval ℝ} (h : f.Admits v)
    (hf : f.dataType.isNumeric = true) (hi : f.bounds = some i) : v.Within i := by
  rcases h.type with rfl | hunknown | htype
  · exact Value.within_null i
  · rw [hunknown] at hf
    cases hf
  · rw [← htype] at hf
    cases v with
    | integer k => exact Value.within_of_number? rfl (h.within i _ hi rfl)
    | float x => exact Value.within_of_number? rfl (h.within i _ hi rfl)
    | _ => cases hf

/-- **Rows within the declared bounds.**  When the given values keep within the bounds of their columns,
every stored row conforms to the bounds that sensitivities are inferred from. -/
theorem Table.conforms_of_keeps {schema : Schema ℝ} {rows : List (List (Value ℝ))} {t : Table ℝ}
    (h : Table.of schema rows = .ok t)
    (hkeeps : ∀ row ∈ rows, List.Forall₂ Field.Keeps schema.fields row)
    (htypes : ∀ f ∈ schema.fields, f.bounds.isSome = true → f.dataType.isNumeric = true)
    (path : List String) {stored : List (Value ℝ)} (hstored : stored ∈ t.rows) :
    (relationScope path (schema.fields.map Field.symbol)).Conforms
      (rowBindings path schema.names stored) := by
  obtain ⟨hschema, hrows⟩ := Table.of_eq_ok h
  have hfits : List.Forall₂ Field.Admits schema.fields stored := by
    obtain ⟨row, hrow, hfitted⟩ := exists_left_of_forall₂ hrows hstored
    obtain ⟨hlength, hcast⟩ := Table.fitRow_eq_ok hfitted
    exact (Table.row_admits_iff_keeps hlength hcast).mpr (hkeeps row hrow)
  have hwithin : List.Forall₂ (fun s v => ∀ i, s.bounds = some i → v.Within i)
      (schema.fields.map Field.symbol) stored := by
    have hbeside : List.Forall₂ (fun f v => f ∈ schema.fields ∧ f.Admits v) schema.fields stored :=
      List.forall₂_iff_zip.mpr ⟨hfits.length_eq, fun hzip =>
        ⟨(List.of_mem_zip hzip).1, (List.forall₂_iff_zip.mp hfits).2 hzip⟩⟩
    rw [List.forall₂_map_left_iff]
    refine hbeside.imp ?_
    rintro f v ⟨hf, hadmits⟩ i hi
    have hi : f.bounds = some i := hi
    exact hadmits.within_of_isNumeric (htypes f hf (by rw [hi]; rfl)) hi
  have hconforms := conforms_rowBindings path hwithin
  rw [List.map_map] at hconforms
  exact hconforms

end PrivateSql
