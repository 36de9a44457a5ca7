import Mathlib.Data.List.Nodup
import PrivateSql.Proofs.ColumnResolution
import PrivateSql.Proofs.InsertedPaths
/-!
# One column for a name

The type and the bounds of a column are read where its name is resolved among symbols, its values
where the same name is found among the cells of a row.  A bound is worth something only when both
mean the same column, so this says that they do: for every relation, row and identifier the column
that is resolved is the one that is read, and where one is missing or ambiguous the other is.

The values a query gives are put beside the cells under their bare names.  They answer for these
names and for no other.

* `lookups_agree` — the two look-ups find the same column, or fail alike;
* `Scope.resolve_eq_error_unresolved`, `Scope.resolve_eq_error_ambiguous` — how a resolution fails;
* `Scope.exists_resolve_iff` — the identifiers that a single relation resolves;
* `findEntry_insertAll_of_unnamed`, `findEntry_insertAll_of_named` — look-ups beside the outputs.
-/

namespace PrivateSql

variable {N : Type}

/-! ## Where a column stands -/

/-- The path under which a column of a relation is kept. -/
def columnPath (path : List String) (name : String) : Path := Path.normalize (path ++ [name])

theorem columnPath_eq_iff {path : List String} {n n' : String} :
    columnPath path n = columnPath path n' ↔ Text.toLower n = Text.toLower n' := by
  simp [columnPath, Path.normalize]

/-- A column of a relation: its symbol and its value on a row, at one position. -/
def IsColumn (symbols : List (Symbol N)) (row : List (Value N)) (s : Symbol N) (v : Value N) :
    Prop :=
  ∃ i : Nat, symbols[i]? = some s ∧ row[i]? = some v

/-- The symbols of a relation stand beside the values of a row of the same length. -/
theorem forall₂_isColumn {symbols : List (Symbol N)} {row : List (Value N)}
    (hlength : row.length = symbols.length) :
    List.Forall₂ (IsColumn symbols row) symbols row := by
  rw [List.forall₂_iff_get]
  refine ⟨hlength.symm, fun i hsymbol hvalue => ⟨i, ?_, ?_⟩⟩
  · exact List.getElem?_eq_getElem hsymbol
  · exact List.getElem?_eq_getElem hvalue

variable {path : List String} {symbols : List (Symbol N)} {row : List (Value N)}

/-- Columns of different names are told apart by them. -/
theorem IsColumn.eq_of_name {s s' : Symbol N} {v v' : Value N}
    (hnames : (symbols.map fun s => Text.toLower s.name).Nodup) (h : IsColumn symbols row s v)
    (h' : IsColumn symbols row s' v') (hname : Text.toLower s.name = Text.toLower s'.name) :
    s = s' ∧ v = v' := by
  obtain ⟨i, hs, hv⟩ := h
  obtain ⟨j, hs', hv'⟩ := h'
  have hi : i < (symbols.map fun s => Text.toLower s.name).length := by
    rw [List.length_map]
    exact (List.getElem?_eq_some_iff.mp hs).1
  have hsame : (symbols.map fun s => Text.toLower s.name)[i]? =
      (symbols.map fun s => Text.toLower s.name)[j]? := by
    rw [List.getElem?_map, List.getElem?_map, hs, hs', Option.map_some, Option.map_some,
      hname]
  obtain rfl : i = j := (List.getElem?_inj hi hnames).mp hsame
  exact ⟨Option.some.inj (hs.symm.trans hs'), Option.some.inj (hv.symm.trans hv')⟩

/-- An entry of the symbols and an entry of the values that stand for one column of a relation. -/
def SameColumn (path : List String) (symbols : List (Symbol N)) (row : List (Value N))
    (e : Path × Symbol N) (e' : Path × Value N) : Prop :=
  IsColumn symbols row e.2 e'.2 ∧ e.1 = columnPath path e.2.name ∧ e'.1 = e.1

/-- **One column.**  Among the symbols of a relation and among the values of one of its rows, a name
finds the same column, or it finds nothing in both, or more than one in both. -/
theorem lookups_agree [Number N] (path : List String) (hlength : row.length = symbols.length)
    (parts : List String) :
    PathMap.FoundRelated (SameColumn path symbols row)
      ((relationScope path symbols).columns.findEntry parts)
      ((rowBindings path (symbols.map (·.name)) row).findEntry parts) := by
  have hrelated := (related_rowBindings path (forall₂_isColumn hlength)).findEntry parts
  have hpath : ∀ e, (relationScope path symbols).columns.findEntry parts = .one e →
      e.1 = columnPath path e.2.name := by
    intro e hfound
    obtain ⟨x, hx, rfl⟩ := PathMap.mem_of_mem_ofList (PathMap.mem_of_findEntry hfound)
    obtain ⟨s, -, rfl⟩ := List.mem_map.mp hx
    rfl
  generalize (relationScope path symbols).columns.findEntry parts = found at hrelated hpath ⊢
  generalize (rowBindings path (symbols.map (·.name)) row).findEntry parts = found' at hrelated ⊢
  cases hrelated with
  | none => exact .none
  | one hboth => exact .one ⟨hboth.2, hpath _ rfl, hboth.1.symm⟩
  | many => exact .many

/-! ## What a resolution gives -/

namespace Scope

variable {scope : Scope N} {id : Identifier}

/-- With at most one qualifier, an identifier is resolved by looking up its parts. -/
theorem exists_splitAlias (h : id.parts.length ≤ 2) : ∃ parts, id.splitAlias = .ok parts := by
  rw [Identifier.splitAlias]
  rcases Identifier.exists_parts_eq h with hbare | ⟨q, hqualified⟩
  · rw [hbare]
    exact ⟨_, rfl⟩
  · rw [hqualified]
    exact ⟨_, rfl⟩

/-- A column is unresolved when its name finds nothing. -/
theorem resolve_eq_error_unresolved (h : id.parts.length ≤ 2) :
    scope.resolve id = .error (.unresolvedColumn id.text) ↔
      scope.columns.findEntry id.parts = .none := by
  obtain ⟨parts, hsplit⟩ := exists_splitAlias h
  rw [resolve, locate, hsplit]
  cases hfound : scope.columns.findEntry id.parts <;> simp [Except.map]

/-- A column is ambiguous when its name finds more than one. -/
theorem resolve_eq_error_ambiguous (h : id.parts.length ≤ 2) :
    scope.resolve id = .error (.ambiguousColumn id.text) ↔
      scope.columns.findEntry id.parts = .many := by
  obtain ⟨parts, hsplit⟩ := exists_splitAlias h
  rw [resolve, locate, hsplit]
  cases hfound : scope.columns.findEntry id.parts <;> simp [Except.map]

end Scope

/-! ## The columns of a relation -/

/-- A relation has a column when its name is that of a symbol. -/
theorem contains_ofList_iff {n : String} :
    (PathMap.ofList (symbols.map fun s => ([s.name], s))).contains [n] = true ↔
      ∃ s ∈ symbols, Text.toLower s.name = Text.toLower n := by
  rw [PathMap.contains, PathMap.ofList, PathMap.get?_insertAll]
  simp [PathMap.get?, PathMap.empty, Path.normalize]

/-- **What one relation resolves.**  Below the path of a relation, the name of one of its columns is
resolved exactly when what stands before the name is an end of the path. -/
theorem Scope.exists_resolve_iff (before : List String) {id : Identifier} {n : String}
    (hlength : id.parts.length ≤ 2) (hparts : id.parts = before ++ [n])
    (hcolumn : ∃ s ∈ symbols, Text.toLower s.name = Text.toLower n) :
    (∃ s, (relationScope path symbols).resolve id = .ok s) ↔
      Path.normalize before <:+ Path.normalize path := by
  have hlast : (((symbols.map fun s => (s.name, s)).reverse.find? fun c =>
      Text.toLower c.1 == Text.toLower n).map (·.2)).isSome := by
    simpa using hcolumn
  obtain ⟨s, hs⟩ := Option.isSome_iff_exists.mp hlast
  have hsplit := Scope.exists_splitAlias hlength
  have hcolumns : (relationScope path symbols).columns =
      PathMap.ofList ((symbols.map fun s => (s.name, s)).map fun c => (path ++ [c.1], c.2)) := by
    rw [relationScope, List.map_map]
    rfl
  constructor
  · rintro ⟨s', hresolved⟩
    obtain ⟨-, p, hp⟩ := Scope.resolve_eq_ok.mp hresolved
    by_contra hbefore
    rw [hparts, hcolumns, PathMap.findEntry_ofList_beside _ hbefore] at hp
    cases hp
  · intro hbefore
    have hfound := PathMap.findEntry_ofList_below hs hbefore
    exact ⟨s, Scope.resolve_eq_ok.mpr ⟨hsplit, _, by rw [hparts, hcolumns]; exact hfound⟩⟩

/-! ## Beside the outputs -/

/-- Only a bare name ends with a name, and only with itself. -/
theorem isSuffixOf_singleton_eq_false {id : Identifier} {n : String}
    (h : Text.toLower n ≠ Text.toLower id.text) :
    (Path.normalize id.parts).isSuffixOf (Path.normalize [n]) = false := by
  rw [Bool.eq_false_iff]
  intro hsuffix
  rcases List.suffix_cons_iff.mp (List.isSuffixOf_iff_suffix.mp hsuffix) with heq | hnil
  · obtain ⟨part, hpart⟩ : ∃ part, id.parts = [part] := by
      rw [← List.length_eq_one_iff]
      simpa [Path.normalize] using congrArg List.length heq
    rw [Identifier.parts_eq_singleton hpart] at heq
    exact h (List.cons.inj heq).1.symm
  · rw [List.map_nil, List.suffix_nil, Path.normalize, List.map_eq_nil_iff] at hnil
    exact id.parts_ne_nil hnil

/-- Outputs of other names leave what an identifier finds as it is. -/
theorem findEntry_insertAll_of_unnamed {b : Bindings N} {outputs : List (String × Value N)}
    {id : Identifier} (h : ∀ o ∈ outputs, Text.toLower o.1 ≠ Text.toLower id.text) :
    (b.insertAll (outputs.map fun o => ([o.1], o.2))).findEntry id.parts =
      b.findEntry id.parts := by
  apply PathMap.findEntry_insertAll_of_apart
  intro e he
  obtain ⟨o, ho, rfl⟩ := List.mem_map.mp he
  exact isSuffixOf_singleton_eq_false (h o ho)

/-- An identifier without a dot finds the last output of its name. -/
theorem findEntry_insertAll_of_named {b : Bindings N} {before after : List (String × Value N)}
    {n : String} {v : Value N} {id : Identifier} (hdot : '.' ∉ id.text.toList)
    (hname : Text.toLower n = Text.toLower id.text)
    (hlast : ∀ o ∈ after, Text.toLower o.1 ≠ Text.toLower id.text) :
    (b.insertAll ((before ++ (n, v) :: after).map fun o => ([o.1], o.2))).findEntry id.parts =
      .one (Path.normalize [id.text], v) := by
  rw [Identifier.parts_of_undotted hdot]
  apply PathMap.findEntry_of_get?
  have hskip : (after.map fun o => ([o.1], o.2)).reverse.find?
      (fun e : List String × Value N => Path.normalize e.1 == Path.normalize [id.text]) = none := by
    rw [List.find?_eq_none]
    intro e he
    obtain ⟨o, ho, rfl⟩ := List.mem_map.mp (List.mem_reverse.mp he)
    simpa [Path.normalize] using hlast o ho
  have hhere : [([n], v)].find?
      (fun e : List String × Value N => Path.normalize e.1 == Path.normalize [id.text]) =
        some ([n], v) := by
    simp [Path.normalize, hname]
  rw [PathMap.get?_insertAll, List.map_append, List.map_cons, List.reverse_append,
    List.reverse_cons, List.find?_append, List.find?_append, hskip, Option.none_or,
    hhere]
  rfl

/-! ## Symbols and values -/

/-- The symbol of a column is resolved exactly when its value is found. -/
theorem resolve_iff_findEntry [Number N] {id : Identifier} {s : Symbol N} {v : Value N}
    (hnames : (symbols.map fun s => Text.toLower s.name).Nodup)
    (hlength : row.length = symbols.length) (hparts : id.parts.length ≤ 2)
    (hcolumn : IsColumn symbols row s v) :
    (relationScope path symbols).resolve id = .ok s ↔
      (rowBindings path (symbols.map (·.name)) row).findEntry id.parts =
        .one (columnPath path s.name, v) := by
  have hagree := lookups_agree path hlength id.parts
  rw [Scope.resolve_eq_ok, and_iff_right (Scope.exists_splitAlias hparts)]
  generalize (relationScope path symbols).columns.findEntry id.parts = found at hagree ⊢
  generalize (rowBindings path (symbols.map (·.name)) row).findEntry id.parts = found'
    at hagree ⊢
  cases hagree with
  | none => simp
  | many => simp
  | @one e e' hsame =>
      obtain ⟨hthere, hpath, hpath'⟩ := hsame
      constructor
      · rintro ⟨p, hfound⟩
        cases hfound
        have hvalue : v = e'.2 := (hcolumn.eq_of_name hnames hthere rfl).2
        rw [hvalue, ← hpath, ← hpath']
      · intro hfound
        cases hfound
        have hname := columnPath_eq_iff.mp (hpath.symm.trans hpath'.symm)
        have hsymbol : e.2 = s := (hthere.eq_of_name hnames hcolumn hname).1
        exact ⟨e.1, by rw [← hsymbol]⟩

/-- What is resolved is a column of the relation. -/
theorem mem_of_resolve [Number N] {id : Identifier} {s : Symbol N}
    (h : (relationScope path symbols).resolve id = .ok s) : s ∈ symbols := by
  obtain ⟨-, p, hp⟩ := Scope.resolve_eq_ok.mp h
  obtain ⟨x, hx, heq⟩ := PathMap.mem_of_mem_ofList (PathMap.mem_of_findEntry hp)
  obtain ⟨s', hs', rfl⟩ := List.mem_map.mp hx
  cases heq
  exact hs'

/-- What is found on a row is the value of a column, under the path of this column. -/
theorem exists_column_of_findEntry [Number N] {parts : List String} {e : Path × Value N}
    (hlength : row.length = symbols.length)
    (h : (rowBindings path (symbols.map (·.name)) row).findEntry parts = .one e) :
    ∃ s, IsColumn symbols row s e.2 ∧ e.1 = columnPath path s.name := by
  have hagree := lookups_agree path hlength parts
  rw [h] at hagree
  cases hfound : (relationScope path symbols).columns.findEntry parts with
  | none =>
      rw [hfound] at hagree
      cases hagree
  | one x =>
      rw [hfound] at hagree
      cases hagree with
      | one hsame => exact ⟨x.2, hsame.1, hsame.2.2.trans hsame.2.1⟩
  | many =>
      rw [hfound] at hagree
      cases hagree

/-- A name is missing or ambiguous among the symbols exactly when it is so among the values. -/
theorem resolve_fails_iff [Number N] {id : Identifier} (hlength : row.length = symbols.length)
    (hparts : id.parts.length ≤ 2) :
    ((relationScope path symbols).resolve id = .error (.unresolvedColumn id.text) ↔
        (rowBindings path (symbols.map (·.name)) row).findEntry id.parts = .none) ∧
      ((relationScope path symbols).resolve id = .error (.ambiguousColumn id.text) ↔
        (rowBindings path (symbols.map (·.name)) row).findEntry id.parts = .many) := by
  have hagree := lookups_agree path hlength id.parts
  rw [Scope.resolve_eq_error_unresolved hparts, Scope.resolve_eq_error_ambiguous hparts]
  generalize (relationScope path symbols).columns.findEntry id.parts = found at hagree ⊢
  generalize (rowBindings path (symbols.map (·.name)) row).findEntry id.parts = found'
    at hagree ⊢
  cases hagree <;> simp

/-- **Names mean the same column twice.**  For a relation whose columns differ in their names, a row of
it and an identifier of at most one qualifier: the symbol of a column is resolved exactly when its
value is found, nothing but the value of a column is found, and one look-up misses or is ambiguous
exactly when the other is.  Beside the outputs of a query the value found is still that one, unless an
output has the name; then a bare name finds the last output of this name. -/
theorem Scope.resolve_iff_found [Number N] {id : Identifier}
    (hnames : (symbols.map fun s => Text.toLower s.name).Nodup)
    (hlength : row.length = symbols.length) (hparts : id.parts.length ≤ 2) :
    let scope := ((SymbolTable.empty : SymbolTable N).insert path symbols).2.scope
    let b := rowBindings path (symbols.map (·.name)) row
    (∀ i : Nat, ∀ s v, symbols[i]? = some s → row[i]? = some v →
        (scope.resolve id = .ok s ↔ b.findEntry id.parts = .one (columnPath path s.name, v))) ∧
      (∀ s, scope.resolve id = .ok s → ∃ i : Nat, symbols[i]? = some s) ∧
      (∀ e, b.findEntry id.parts = .one e → ∃ (i : Nat) (s : Symbol N),
        symbols[i]? = some s ∧ row[i]? = some e.2 ∧ e.1 = columnPath path s.name) ∧
      (scope.resolve id = .error (.unresolvedColumn id.text) ↔ b.findEntry id.parts = .none) ∧
      (scope.resolve id = .error (.ambiguousColumn id.text) ↔ b.findEntry id.parts = .many) ∧
      (∀ outputs : List (String × Value N),
        (∀ o ∈ outputs, Text.toLower o.1 ≠ Text.toLower id.text) →
          (b.insertAll (outputs.map fun o => ([o.1], o.2))).findEntry id.parts =
            b.findEntry id.parts) ∧
      ∀ (before after : List (String × Value N)) (n : String) (v : Value N),
        '.' ∉ id.text.toList → Text.toLower n = Text.toLower id.text →
          (∀ o ∈ after, Text.toLower o.1 ≠ Text.toLower id.text) →
            (b.insertAll ((before ++ (n, v) :: after).map fun o => ([o.1], o.2))).findEntry
              id.parts = .one (Path.normalize [id.text], v) := by
  intro scope b
  have hscope : scope = relationScope path symbols := SymbolTable.scope_insert path symbols
  rw [hscope]
  refine ⟨?_, ?_, ?_, (resolve_fails_iff hlength hparts).1, (resolve_fails_iff hlength hparts).2,
    fun outputs h => findEntry_insertAll_of_unnamed h,
    fun before after n v hdot hname hlast => findEntry_insertAll_of_named hdot hname hlast⟩
  · exact fun i s v hs hv => resolve_iff_findEntry hnames hlength hparts ⟨i, hs, hv⟩
  · exact fun s h => List.mem_iff_getElem?.mp (mem_of_resolve h)
  · intro e h
    obtain ⟨s, ⟨i, hs, hv⟩, hpath⟩ := exists_column_of_findEntry hlength h
    exact ⟨i, s, hs, hv, hpath⟩

/-- The columns of a relation of persons. -/
def personColumns : List (Symbol Binary64) := [⟨"Age", .integer, none⟩, ⟨"sex", .text, none⟩]

/-- A person of that relation. -/
def person34 : List (Value Binary64) := [.integer 34, .text "f"]

/-- A column is resolved by a part of its path in another case, because its value is found. -/
theorem Scope.resolve_person_age :
    ((SymbolTable.empty.insert ["PUMS", "PUMS"] personColumns).2.scope).resolve ⟨"pums.AGE"⟩ =
      .ok ⟨"Age", .integer, none⟩ := by
  have hfound : (rowBindings ["PUMS", "PUMS"] (personColumns.map (·.name)) person34).findEntry
      (Identifier.mk "pums.AGE").parts =
        .one (columnPath ["PUMS", "PUMS"] "Age", .integer 34) := by
    rfl
  exact ((Scope.resolve_iff_found (by decide) (by decide) (by decide)).1 0 _ _ rfl rfl).mpr hfound

end PrivateSql
