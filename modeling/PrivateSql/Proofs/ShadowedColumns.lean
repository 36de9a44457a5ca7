import PrivateSql.Execution.Grouping
import PrivateSql.Proofs.ColumnResolution
import PrivateSql.Proofs.InsertedPaths
/-!
# Columns beside outputs

What filters and orders the rows given sees the outputs beside the columns that were read.  An output
answers for its own name, and hides the column of this name; all other columns are found as before.
An output that only repeats the column that it hides does no harm.

* `Query.outputNamed?`, `Query.find_beside_outputs` — which output answers for a path;
* `Query.find_of_isKey` — a column that stands for another one has its value.
-/

namespace PrivateSql

variable {N : Type}

namespace Query

/-- The output that answers for a path: the last one of this name. -/
def outputNamed? (q : Query N) (parts : List String) : Option (SelectItem N) :=
  q.select.reverse.find? fun item => Path.normalize [item.name] == Path.normalize parts

/-- The outputs of a row, by their names. -/
def outputBindings (q : Query N) (values : List (Value N)) : List (List String × Value N) :=
  (q.names.zip values).map fun c => ([c.1], c.2)

variable {q : Query N} {values : List (Value N)} {parts : List String}

/-- The outputs of a row stand beside what is selected. -/
theorem related_outputBindings {R : SelectItem N → Value N → Prop}
    (h : List.Forall₂ R q.select values) :
    List.Forall₂ (fun item e => e.1 = [item.name] ∧ R item e.2) q.select
      (q.outputBindings values) := by
  have hzip : ∀ {items : List (SelectItem N)} {values : List (Value N)},
      List.Forall₂ R items values →
      List.Forall₂ (fun item e => e.1 = [item.name] ∧ R item e.2) items
        (((items.map (·.name)).zip values).map fun c => ([c.1], c.2)) := by
    intro items values h
    induction h with
    | nil => exact .nil
    | cons hhead htail ih => exact .cons ⟨rfl, hhead⟩ ih
  exact hzip h

/-- The first of some entries with a name stands beside the first item with this name. -/
theorem exists_find_of_related {R : SelectItem N → Value N → Prop} {items : List (SelectItem N)}
    {entries : List (List String × Value N)} {item : SelectItem N}
    (h : List.Forall₂ (fun item e => e.1 = [item.name] ∧ R item e.2) items entries)
    (hitem : items.find? (fun item => Path.normalize [item.name] == Path.normalize parts) =
      some item) :
    ∃ e, entries.find? (fun e => Path.normalize e.1 == Path.normalize parts) = some e ∧
      R item e.2 := by
  induction h with
  | nil => cases hitem
  | @cons i e items entries hhead htail ih =>
      rw [List.find?_cons] at hitem
      rw [List.find?_cons, hhead.1]
      split at hitem
      · cases hitem
        exact ⟨e, rfl, hhead.2⟩
      · exact ih hitem

theorem mem_of_outputNamed? {item : SelectItem N} (h : q.outputNamed? parts = some item) :
    item ∈ q.select :=
  List.mem_reverse.mp (List.mem_of_find?_eq_some h)

/-- **Which output answers.**  Beside the outputs of a row, a path finds the last output of this name,
whatever else there is; when there is none, it finds what it found before. -/
theorem find_beside_outputs {R : SelectItem N → Value N → Prop}
    (h : List.Forall₂ R q.select values) (hparts : parts ≠ []) :
    (q.outputNamed? parts = none ∧ ∀ b : Bindings N,
        (b.insertAll (q.outputBindings values)).find parts = b.find parts) ∨
      ∃ item v, q.outputNamed? parts = some item ∧ R item v ∧ ∀ b : Bindings N,
        (b.insertAll (q.outputBindings values)).find parts = .one v := by
  have hrelated := related_outputBindings h
  cases hnamed : q.outputNamed? parts with
  | none =>
      refine .inl ⟨rfl, fun b => PathMap.find_insertAll_of_apart fun e he => ?_⟩
      obtain ⟨⟨n, v⟩, hmem, rfl⟩ := List.mem_map.mp he
      obtain ⟨item, hitem, rfl⟩ := List.mem_map.mp (List.of_mem_zip hmem).1
      have hother := List.find?_eq_none.mp hnamed item (List.mem_reverse.mpr hitem)
      rw [Bool.eq_false_iff]
      intro hsuffix
      rcases List.suffix_cons_iff.mp (List.isSuffixOf_iff_suffix.mp hsuffix) with heq | hnil
      · rw [heq] at hother
        simp [Path.normalize] at hother
      · rw [List.map_nil, List.suffix_nil, Path.normalize, List.map_eq_nil_iff] at hnil
        exact hparts hnil
  | some item =>
      obtain ⟨e, he, hR⟩ := exists_find_of_related (List.forall₂_reverse_iff.mpr hrelated) hnamed
      refine .inr ⟨item, e.2, rfl, hR, fun b => PathMap.find_of_get? ?_⟩
      rw [PathMap.get?_insertAll, he]
      rfl

/-- What an output answers for is found alike beside the outputs of any rows. -/
theorem find_beside_output {R : SelectItem N → Value N → Prop}
    (h : List.Forall₂ R q.select values) (hparts : parts ≠ [])
    (hnamed : (q.outputNamed? parts).isSome = true) (b b' : Bindings N) :
    (b.insertAll (q.outputBindings values)).find parts =
      (b'.insertAll (q.outputBindings values)).find parts := by
  rcases find_beside_outputs h hparts with ⟨hnone, -⟩ | ⟨_, v, -, -, hfound⟩
  · rw [hnone] at hnamed
    cases hnamed
  · rw [hfound b, hfound b']

/-- An identifier that names an output finds one, and no other does. -/
theorem isSome_outputNamed?_iff {c : Identifier} (hparts : c.parts = [c.text]) :
    (q.outputNamed? c.parts).isSome = isOutput q.names c := by
  rw [Bool.eq_iff_iff, outputNamed?, List.find?_isSome, isOutput, List.any_eq_true, hparts]
  simp [names, Path.normalize]

variable {scope : Scope N} {R : Symbol N → Value N → Prop} {b : Bindings N}

/-- Two columns that are located at one place have one value. -/
theorem find_of_locate {c c' : Identifier} {e e' : Path × Symbol N}
    (hrelated : PathMap.Related R scope.columns b) (h : scope.locate c = .ok e)
    (h' : scope.locate c' = .ok e') (hsame : e.1 = e'.1) :
    ∃ v, b.find c.parts = .one v ∧ b.find c'.parts = .one v := by
  have hentry : ∀ {c : Identifier} {e : Path × Symbol N}, scope.locate c = .ok e →
      ∃ v, b.findEntry c.parts = .one (e.1, v) := by
    intro c e h
    obtain ⟨_, -, h⟩ := bind_eq_ok.mp h
    split at h
    · rename_i hfound
      cases h
      obtain ⟨v, hv, -⟩ := hrelated.findEntry_one hfound
      exact ⟨v, hv⟩
    · cases h
    · cases h
  obtain ⟨v, hv⟩ := hentry h
  obtain ⟨v', hv'⟩ := hentry h'
  have hmem := PathMap.mem_of_findEntry hv
  rw [hsame] at hmem
  obtain rfl := PathMap.eq_of_mem hmem (PathMap.mem_of_findEntry hv')
  exact ⟨v, by rw [PathMap.find, hv]; rfl, by rw [PathMap.find, hv']; rfl⟩

/-- A column that stands for another one has its value. -/
theorem find_of_isKey {c c' : Identifier} {v : Value N}
    (hrelated : PathMap.Related R scope.columns b)
    (h : isKey scope (.column c) (.column c') = true) (hv : b.find c.parts = .one v) :
    b.find c'.parts = .one v := by
  simp only [isKey, Expr.column?] at h
  split at h
  · rename_i e e' hlocate hlocate'
    obtain ⟨w, hw, hw'⟩ := find_of_locate hrelated hlocate hlocate' (by simpa using h)
    rw [hw] at hv
    cases hv
    exact hw'
  · obtain rfl : c = c' := by simpa using h
    exact hv

end Query

variable [Number N]

/-- The cell of a column is its value. -/
theorem find_of_cell {b : Bindings N} {c : Identifier} {v : Value N}
    (h : cell b (.column c) = .ok v) : b.find c.parts = .one v := by
  rw [cell, Expr.evaluate] at h
  cases hfound : b.find c.parts with
  | none =>
      rw [hfound] at h
      cases h
  | one w =>
      rw [hfound] at h
      cases h
      rfl
  | many =>
      rw [hfound] at h
      cases h

end PrivateSql
