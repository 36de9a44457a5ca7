import PrivateSql.Proofs.ColumnLookups
/-!
# Qualifiers

A relation says by itself whether an identifier can mean one of its columns: it compares the
qualifier with the name that it shows.  Resolving the identifier among the columns of the relation
compares paths.  The first comparison ignores the case of ASCII letters, the second that of all
letters, so the two agree but for a qualifier that differs from the name in other letters: `é.x`
is a column of the relation shown as `É`, and the relation denies it.

* `Relation.shownName` — the name that qualifies the columns of a relation;
* `Relation.exists_resolve_iff` — which identifiers a relation resolves;
* `Relation.matchesQualifier_agrees` — where a relation and its columns agree on an identifier;
* `Relation.matchesQualifier_misses` — a column that the relation denies.
-/

namespace PrivateSql

variable {N : Type}

namespace Relation

variable {Q : Type}

/-- The name that qualifies the columns of a relation: its alias, else the last part of its name. -/
def shownName : Relation Q → String
  | .table name none => name.name
  | .table _ (some a) => a.text
  | .derived _ a => a.text

/-- The columns of a relation are visible under the name it shows, perhaps below others. -/
theorem exists_path_eq (r : Relation Q) : ∃ above, r.path = above ++ [r.shownName] := by
  match r with
  | .table name none =>
      refine ⟨name.parts.dropLast, ?_⟩
      rw [path, shownName, Identifier.name, List.getLastD_eq_getLast?,
        List.getLast?_eq_some_getLast name.parts_ne_nil]
      exact (List.dropLast_append_getLast name.parts_ne_nil).symm
  | .table _ (some a) => exact ⟨[], rfl⟩
  | .derived _ a => exact ⟨[], rfl⟩

/-- The qualifier of an identifier is compared with the name shown. -/
theorem matchesQualifier_eq (r : Relation Q) (id : Identifier) :
    r.matchesQualifier id = id.splitAlias.map fun parts =>
      parts.1.all (Text.eqIgnoringAsciiCase r.shownName) := by
  rw [matchesQualifier]
  cases id.splitAlias with
  | error e => rfl
  | ok parts =>
      obtain ⟨qualifier, name⟩ := parts
      cases qualifier with
      | none => rfl
      | some q =>
          match r with
          | .table _ none => rfl
          | .table _ (some _) => rfl
          | .derived _ _ => rfl

/-- The qualifier of an identifier is the name shown, but for the case of letters, and of some that
are not ASCII letters. -/
def MissesCase (r : Relation Q) (id : Identifier) : Prop :=
  ∃ q n, id.parts = [q, n] ∧ Text.toLower q = Text.toLower r.shownName ∧
    Text.eqIgnoringAsciiCase r.shownName q = false

end Relation

/-! ## The columns of one relation -/

namespace Query

variable [Number N]

/-- What is registered of a single relation are some columns, under its path. -/
theorem exists_insert_of_loadRelation {catalog : Catalog N} {r : Relation (Query N)}
    {table : SymbolTable N} (h : loadRelation catalog SymbolTable.empty r = .ok table) :
    ∃ symbols, table = (SymbolTable.empty.insert r.path symbols).2 := by
  cases r with
  | table name label =>
      simp only [loadRelation, SymbolTable.has_empty, Bool.false_eq_true, if_false] at h
      cases hschema : catalog.table name with
      | error e =>
          rw [hschema] at h
          cases h
      | ok schema =>
          rw [hschema] at h
          cases h
          exact ⟨_, rfl⟩
  | derived query label =>
      simp only [loadRelation, SymbolTable.has_empty, Bool.false_eq_true, if_false] at h
      cases hinner : loadSymbols catalog SymbolTable.empty query with
      | error e =>
          rw [hinner] at h
          cases h
      | ok inner =>
          rw [hinner] at h
          cases h
          exact ⟨_, rfl⟩

end Query

/-- The columns registered under a path are found there. -/
theorem SymbolTable.get?_insert (path : List String) (symbols : List (Symbol N)) :
    ((SymbolTable.empty : SymbolTable N).insert path symbols).2.get? path =
      some (PathMap.ofList (symbols.map fun s => ([s.name], s))) := by
  simp [SymbolTable.get?, SymbolTable.insert, PathMap.insertNew, PathMap.contains, PathMap.get?,
    SymbolTable.empty, PathMap.empty, PathMap.insert, PathMap.insertEntry]

/-- A relation resolves its columns by their bare names, and by its own name before them. -/
theorem Relation.exists_resolve_iff {Q : Type} {r : Relation Q} {symbols : List (Symbol N)}
    {id : Identifier} (hlength : id.parts.length ≤ 2)
    (hcolumn : (PathMap.ofList (symbols.map fun s => ([s.name], s))).contains [id.name] = true) :
    (∃ s, (relationScope r.path symbols).resolve id = .ok s) ↔
      ∀ q, id.parts = [q, id.name] → Text.toLower r.shownName = Text.toLower q := by
  obtain ⟨above, habove⟩ := r.exists_path_eq
  rcases Identifier.exists_parts_eq hlength with hbare | ⟨q, hqualified⟩
  · rw [Scope.exists_resolve_iff [] hlength hbare (contains_ofList_iff.mp hcolumn)]
    simp [hbare, Path.normalize]
  · rw [Scope.exists_resolve_iff [q] hlength hqualified (contains_ofList_iff.mp hcolumn), habove]
    have hends : Path.normalize [q] <:+ Path.normalize (above ++ [r.shownName]) ↔
        Text.toLower q = Text.toLower r.shownName := by
      rw [← List.isSuffixOf_iff_suffix]
      exact (@PathMap.isSuffixOf_below_iff above [] q r.shownName).trans
        (and_iff_left List.nil_suffix)
    rw [hends, hqualified]
    simp [eq_comm]

/-! ## A relation and its columns -/

/-- A relation matches an identifier when its qualifier is the name shown, up to ASCII letters. -/
theorem Relation.matchesQualifier_iff {Q : Type} {r : Relation Q} {id : Identifier}
    (hlength : id.parts.length ≤ 2) :
    r.matchesQualifier id = .ok true ↔
      ∀ q, id.parts = [q, id.name] → Text.eqIgnoringAsciiCase r.shownName q = true := by
  rw [Relation.matchesQualifier_eq, Identifier.splitAlias]
  rcases Identifier.exists_parts_eq hlength with hbare | ⟨q, hqualified⟩
  · simp [hbare, Except.map]
  · simp [hqualified, Except.map]

/-- A relation misses an identifier when the two comparisons of its qualifier differ. -/
theorem Relation.missesCase_iff {Q : Type} {r : Relation Q} {id : Identifier}
    (hlength : id.parts.length ≤ 2) :
    r.MissesCase id ↔
      (∀ q, id.parts = [q, id.name] → Text.toLower r.shownName = Text.toLower q) ∧
        ¬ ∀ q, id.parts = [q, id.name] → Text.eqIgnoringAsciiCase r.shownName q = true := by
  rw [Relation.MissesCase]
  rcases Identifier.exists_parts_eq hlength with hbare | ⟨q, hqualified⟩
  · simp [hbare]
  · rw [hqualified]
    constructor
    · rintro ⟨q', n, hsame, hlower, hmissed⟩
      cases hsame
      refine ⟨fun q' hq' => ?_, fun hall => ?_⟩
      · cases hq'
        exact hlower.symm
      · rw [hall q rfl] at hmissed
        cases hmissed
    · rintro ⟨hlower, hnotall⟩
      refine ⟨q, id.name, rfl, (hlower q rfl).symm, Bool.eq_false_iff.mpr fun hmatches => ?_⟩
      refine hnotall fun q' hq' => ?_
      cases hq'
      exact hmatches

/-- No qualifier of ASCII letters is missed. -/
theorem Relation.not_missesCase_of_ascii {Q : Type} {r : Relation Q} {id : Identifier}
    (hname : ∀ c ∈ r.shownName.toList, c.toNat < 0x80)
    (hid : ∀ c ∈ id.text.toList, c.toNat < 0x80) : ¬ r.MissesCase id := by
  rintro ⟨q, n, hparts, hlower, hmissed⟩
  have hq : ∀ c ∈ q.toList, c.toNat < 0x80 := fun c hc =>
    hid c (Identifier.mem_of_mem_parts (hparts ▸ List.mem_cons_self) hc)
  rw [(Text.eqIgnoringAsciiCase_iff_of_ascii hname hq).mpr hlower.symm] at hmissed
  cases hmissed

/-- **A relation and its columns.**  For a relation whose columns are registered alone, an identifier
with more than one qualifier is malformed both for the relation and for its columns.  An identifier
of at most one qualifier that names a column is resolved whenever the relation matches it; and the
converse holds, so that the two agree, unless its qualifier is the name shown in another case of some
letter that is not an ASCII letter. -/
theorem Relation.matchesQualifier_agrees [Number N] {catalog : Catalog N} {r : Relation (Query N)}
    {table : SymbolTable N}
    (h : Query.loadRelation catalog SymbolTable.empty r = .ok table) (id : Identifier) :
    (2 < id.parts.length →
        r.matchesQualifier id = .error (.malformedIdentifier id.text) ∧
          table.scope.resolve id = .error (.malformedIdentifier id.text)) ∧
      (id.parts.length ≤ 2 → (table.get? r.path).any (·.contains [id.name]) = true →
        (r.matchesQualifier id = .ok true → ∃ s, table.scope.resolve id = .ok s) ∧
          ((r.matchesQualifier id = .ok true ↔ ∃ s, table.scope.resolve id = .ok s) ↔
            ¬ r.MissesCase id)) ∧
      ((∀ c ∈ r.shownName.toList, c.toNat < 0x80) → (∀ c ∈ id.text.toList, c.toNat < 0x80) →
        ¬ r.MissesCase id) := by
  obtain ⟨symbols, rfl⟩ := Query.exists_insert_of_loadRelation h
  rw [SymbolTable.scope_insert, SymbolTable.get?_insert, Option.any_some]
  refine ⟨?_, ?_, ?_⟩
  · intro hlong
    rw [Relation.matchesQualifier_eq, Scope.resolve, Scope.locate, Identifier.splitAlias_of_lt hlong]
    exact ⟨rfl, rfl⟩
  · intro hlength hcolumn
    rw [Relation.exists_resolve_iff hlength hcolumn, Relation.matchesQualifier_iff hlength]
    have himp : (∀ q, id.parts = [q, id.name] → Text.eqIgnoringAsciiCase r.shownName q = true) →
        ∀ q, id.parts = [q, id.name] → Text.toLower r.shownName = Text.toLower q :=
      fun hmatches q hq => Text.toLower_eq_of_eqIgnoringAsciiCase (hmatches q hq)
    rw [Relation.missesCase_iff hlength]
    exact ⟨himp, by tauto⟩
  · exact Relation.not_missesCase_of_ascii

/-- A catalog of one table with one column. -/
def letterCatalog : Catalog Binary64 := .ofSchemas [⟨"t", 10, [⟨"x", .float, none, none⟩]⟩]

/-- That table, shown under a name. -/
def shownAs (name : String) : Relation (Query Binary64) := .table ⟨"t"⟩ (some ⟨name⟩)

/-- The column of the table, registered under this name. -/
def registeredAs (name : String) : SymbolTable Binary64 :=
  (SymbolTable.empty.insert [name] [⟨"x", .float, none⟩]).2

/-- ASCII letters in another case: the relation matches the identifier, so it is resolved. -/
theorem Relation.matchesQualifier_agrees_ascii :
    ∃ s, (registeredAs "E").scope.resolve ⟨"e.x"⟩ = .ok s :=
  ((@Relation.matchesQualifier_agrees Binary64 _ letterCatalog (shownAs "E") (registeredAs "E") rfl
    ⟨"e.x"⟩).2.1 (by decide) (by rfl)).1 (by rfl)

/-- **A column that is denied.**  Any other letter in another case: the identifier is resolved among
the columns of the relation, and the relation says that it is none of them. -/
theorem Relation.matchesQualifier_misses :
    Query.loadRelation letterCatalog SymbolTable.empty (shownAs "É") = .ok (registeredAs "É") ∧
      ((registeredAs "É").get? (shownAs "É").path).any (·.contains ["x"]) = true ∧
      (Identifier.mk "é.x").parts = ["é", "x"] ∧
      (shownAs "É").matchesQualifier ⟨"é.x"⟩ = .ok false ∧
      (registeredAs "É").scope.resolve ⟨"é.x"⟩ = .ok ⟨"x", .float, none⟩ :=
  ⟨rfl, rfl, rfl, rfl, rfl⟩

end PrivateSql
