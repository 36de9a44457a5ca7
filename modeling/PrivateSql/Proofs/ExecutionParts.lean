import PrivateSql.Plan.Basic
import PrivateSql.Proofs.Fallible
import PrivateSql.Proofs.StableSorting
/-!
# The parts of an execution

A query is executed in steps: it is bound, the rows of its relation are read and filtered, put
together when it aggregates, given one by one, and at last ordered and cut.  Here a success is taken
apart into these steps, once for all the proofs that follow an execution.

* `Query.execute_eq_ok`, `Query.arrange` — an execution over rows, the ordering and the cut apart;
* `Query.outputRows_eq_ok`, `filterRows_eq` — the rows given and the rows kept, one by one;
* `cells_map_eq_ok` — the cells of a row, one by one;
* `Dataset.run_eq_ok`, `Preparation.of_eq_ok` — a query run over a dataset, and a preparation;
* `Dataset.rowsRead`, `Dataset.run_eq_arrange` — the rows that a query keeps, and what is made of them.
-/

namespace PrivateSql

variable {N : Type} [Number N]

namespace Dataset

variable {α : Type}

theorem liftQuery_eq_ok {x : Except QueryError α} {a : α} : liftQuery x = .ok a ↔ x = .ok a := by
  cases x <;> simp [liftQuery]

end Dataset

/-- The rows kept are those that satisfy the condition, each being asked in turn. -/
theorem filterRows_eq (condition : Option (Expr N)) (bs : List (Bindings N)) :
    filterRows condition bs =
      (bs.mapM fun b => satisfies b condition).map fun kept =>
        ((bs.zip kept).filter (·.2)).map (·.1) := by
  induction bs with
  | nil => rfl
  | cons b bs ih =>
      rw [filterRows, List.mapM_cons, ih]
      cases satisfies b condition with
      | error e => rfl
      | ok kept =>
          cases bs.mapM fun b => satisfies b condition with
          | error e => rfl
          | ok rest => cases kept <;> rfl

/-- Rows are only left out. -/
theorem mem_of_mem_filterRows {condition : Option (Expr N)} {bs kept : List (Bindings N)}
    {b : Bindings N} (h : filterRows condition bs = .ok kept) (hb : b ∈ kept) : b ∈ bs := by
  rw [filterRows_eq] at h
  obtain ⟨passed, -, rfl⟩ := map_eq_ok.mp h
  obtain ⟨⟨b', keep⟩, hmem, rfl⟩ := List.mem_map.mp hb
  exact (List.of_mem_zip (List.mem_filter.mp hmem).1).1

/-- Without a condition every row is kept. -/
theorem filterRows_none (bs : List (Bindings N)) : filterRows none bs = .ok bs := by
  induction bs with
  | nil => rfl
  | cons b bs ih =>
      rw [filterRows, ih]
      rfl

/-! ## Cells -/

section Cells

variable {ι : Type} {items : List ι} {f f' : ι → Expr N} {b b' : Bindings N} {values : List (Value N)}

/-- The cells of a row stand beside what they are the values of. -/
theorem cells_map_eq_ok :
    cells b (items.map f) = .ok values ↔
      List.Forall₂ (fun item v => cell b (f item) = .ok v) items values := by
  rw [cells, mapM_eq_ok, List.forall₂_map_left_iff]

theorem cell_of_mem_zip (h : cells b (items.map f) = .ok values) {item : ι} {v : Value N}
    (hzip : (item, v) ∈ items.zip values) : cell b (f item) = .ok v :=
  (List.forall₂_iff_zip.mp (cells_map_eq_ok.mp h)).2 hzip

/-- Where each cell of a row is one of another row, both rows have the same cells. -/
theorem cells_map_of_cell (h : cells b (items.map f) = .ok values)
    (hcell : ∀ item ∈ items, ∀ v, cell b (f item) = .ok v → cell b' (f' item) = .ok v) :
    cells b' (items.map f') = .ok values := by
  rw [cells_map_eq_ok, List.forall₂_iff_zip]
  refine ⟨(cells_map_eq_ok.mp h).length_eq, fun hzip => ?_⟩
  exact hcell _ (List.of_mem_zip hzip).1 _ (cell_of_mem_zip h hzip)

/-- The cell of what stands at a position. -/
theorem exists_getElem?_of_cells (h : cells b (items.map f) = .ok values) {i : Nat} {item : ι}
    (hitem : items[i]? = some item) : ∃ v, values[i]? = some v ∧ cell b (f item) = .ok v :=
  exists_getElem?_of_mapM h (by rw [List.getElem?_map, hitem, Option.map_some])

/-- The cell of what stands in a list. -/
theorem exists_cell_of_mem (h : cells b (items.map f) = .ok values) {item : ι} (hitem : item ∈ items) :
    ∃ v, (item, v) ∈ items.zip values ∧ cell b (f item) = .ok v := by
  rw [cells, List.mapM_map] at h
  exact exists_result_of_mem h hitem

/-- Where the cell of a condition is that of another one, both are satisfied or none. -/
theorem satisfies_map_of_cell {condition : Option (Expr N)} {f f' : Expr N → Expr N} {passed : Bool}
    (h : satisfies b (condition.map f) = .ok passed)
    (hcell : ∀ e ∈ condition, ∀ v, cell b (f e) = .ok v → cell b' (f' e) = .ok v) :
    satisfies b' (condition.map f') = .ok passed := by
  cases condition with
  | none => exact h
  | some e =>
      obtain ⟨v, hv, h⟩ := bind_eq_ok.mp h
      exact bind_eq_ok.mpr ⟨v, hcell e rfl v hv, h⟩

end Cells

namespace Query

/-- The rows given are those of the groups or rows that satisfy the second condition. -/
theorem outputRows_eq (q : Query N) (sources : List (Bindings N × Substitution N)) :
    q.outputRows sources =
      (sources.mapM fun s => q.outputRow s.1 s.2).map fun rows => rows.flatMap Option.toList := by
  induction sources with
  | nil => rfl
  | cons s sources ih =>
      obtain ⟨b, aggregates⟩ := s
      rw [outputRows, List.mapM_cons, ih]
      cases q.outputRow b aggregates with
      | error e => rfl
      | ok row =>
          cases sources.mapM fun s => q.outputRow s.1 s.2 with
          | error e => rfl
          | ok rows => rfl

/-- The rows given stand beside their groups or rows. -/
theorem outputRows_eq_ok {q : Query N} {sources : List (Bindings N × Substitution N)}
    {outputs : List (OutputRow N)} :
    q.outputRows sources = .ok outputs ↔
      ∃ rows, List.Forall₂ (fun s row => q.outputRow s.1 s.2 = .ok row) sources rows ∧
        outputs = rows.flatMap Option.toList := by
  rw [outputRows_eq, map_eq_ok]
  constructor
  · rintro ⟨rows, hrows, rfl⟩
    exact ⟨rows, mapM_eq_ok.mp hrows, rfl⟩
  · rintro ⟨rows, hrows, rfl⟩
    exact ⟨rows, mapM_eq_ok.mpr hrows, rfl⟩

/-- The values of a row that is given are the cells of what is selected. -/
theorem cells_of_outputRow {q : Query N} {b : Bindings N} {s : Substitution N} {row : Option (OutputRow N)}
    (h : q.outputRow b s = .ok row) :
    ∃ values, cells b (q.select.map fun item => item.expr.replace s) = .ok values ∧
      ∀ r ∈ row, r.values = values := by
  obtain ⟨values, hvalues, h⟩ := bind_eq_ok.mp h
  refine ⟨values, hvalues, ?_⟩
  obtain ⟨passed, -, h⟩ := bind_eq_ok.mp h
  cases passed with
  | false =>
      cases h
      simp
  | true =>
      obtain ⟨keys, -, h⟩ := bind_eq_ok.mp h
      cases h
      simp

/-- The rows given, ordered and cut to the limit, under the names of the query. -/
def arrange (q : Query N) (outputs : List (OutputRow N)) : Rowset N :=
  let directions := q.orderBy.map (·.ascending)
  let sorted := stableSort (fun l r => compareKeys directions l.keys r.keys) outputs
  let limited := match q.rowLimit with
    | some n => sorted.take n
    | none => sorted
  ⟨q.names, limited.map (·.values)⟩

/-- An answer has only rows that were given. -/
theorem exists_output_of_mem_arrange {q : Query N} {outputs : List (OutputRow N)}
    {row : List (Value N)} (h : row ∈ (q.arrange outputs).rows) : ∃ o ∈ outputs, o.values = row := by
  obtain ⟨o, ho, rfl⟩ := List.mem_map.mp h
  have hsorted : o ∈ stableSort (fun (l r : OutputRow N) =>
      compareKeys (q.orderBy.map (·.ascending)) l.keys r.keys) outputs := by
    split at ho
    · exact List.mem_of_mem_take ho
    · exact ho
  exact ⟨o, (stableSort_perm _ outputs).mem_iff.mp hsorted, rfl⟩

/-- **An execution taken apart.**  Rows are filtered, put together, given, then arranged. -/
theorem execute_eq_ok {q : Query N} {path names : List String} {rows : List (List (Value N))}
    {answer : Rowset N} :
    q.execute path names rows = .ok answer ↔
      ∃ kept sources outputs,
        filterRows q.selection (rows.map (rowBindings path names)) = .ok kept ∧
        q.sources kept = .ok sources ∧ q.outputRows sources = .ok outputs ∧
        answer = q.arrange outputs := by
  rw [execute, bind_eq_ok]
  constructor
  · rintro ⟨kept, hkept, h⟩
    obtain ⟨sources, hsources, h⟩ := bind_eq_ok.mp h
    obtain ⟨outputs, houtputs, h⟩ := bind_eq_ok.mp h
    cases h
    exact ⟨kept, sources, outputs, hkept, hsources, houtputs, rfl⟩
  · rintro ⟨kept, sources, outputs, hkept, hsources, houtputs, rfl⟩
    refine ⟨kept, hkept, bind_eq_ok.mpr ⟨sources, hsources, bind_eq_ok.mpr ⟨outputs, houtputs, rfl⟩⟩⟩

/-- The rows of an answer stand under the names of the query. -/
theorem names_of_execute {q : Query N} {path names : List String} {rows : List (List (Value N))}
    {answer : Rowset N} (h : q.execute path names rows = .ok answer) : answer.names = q.names := by
  obtain ⟨_, _, outputs, -, -, -, rfl⟩ := execute_eq_ok.mp h
  rfl

end Query

namespace Dataset

/-- **A run taken apart.**  The query is bound, the rows of its relation are read, and it is executed
over them. -/
theorem run_eq_ok {d : Dataset N} {q : Query N} {answer : Rowset N} :
    d.run q = .ok answer ↔
      ∃ scope path source, q.bind d.catalog = .ok scope ∧
        d.runRelations q.relations = .ok (path, source) ∧
        q.execute path source.names source.rows = .ok answer := by
  obtain ⟨select, relations, selection, groupBy, having, orderBy, limit⟩ := q
  rw [run, bind_eq_ok]
  constructor
  · rintro ⟨scope, hscope, h⟩
    obtain ⟨⟨path, source⟩, hsource, h⟩ := bind_eq_ok.mp h
    exact ⟨scope, path, source, liftQuery_eq_ok.mp hscope, hsource, liftQuery_eq_ok.mp h⟩
  · rintro ⟨scope, path, source, hscope, hsource, h⟩
    refine ⟨scope, liftQuery_eq_ok.mpr hscope, bind_eq_ok.mpr ⟨(path, source), hsource, ?_⟩⟩
    exact liftQuery_eq_ok.mpr h

/-- The rows of its relation that a query keeps. -/
def rowsRead (d : Dataset N) (q : Query N) : Except ReaderError (List (Bindings N)) := do
  let (path, source) ← d.runRelations q.relations
  liftQuery (filterRows q.selection (source.rows.map (rowBindings path source.names)))

theorem rowsRead_eq_ok {d : Dataset N} {q : Query N} {kept : List (Bindings N)} :
    d.rowsRead q = .ok kept ↔
      ∃ path source, d.runRelations q.relations = .ok (path, source) ∧
        filterRows q.selection (source.rows.map (rowBindings path source.names)) = .ok kept := by
  rw [rowsRead, bind_eq_ok]
  constructor
  · rintro ⟨⟨path, source⟩, hsource, h⟩
    exact ⟨path, source, hsource, liftQuery_eq_ok.mp h⟩
  · rintro ⟨path, source, hsource, h⟩
    exact ⟨(path, source), hsource, liftQuery_eq_ok.mpr h⟩

/-- A run, from the rows that the query keeps. -/
theorem run_eq_arrange {d : Dataset N} {q : Query N} {answer : Rowset N} :
    d.run q = .ok answer ↔
      ∃ scope kept sources outputs, q.bind d.catalog = .ok scope ∧ d.rowsRead q = .ok kept ∧
        q.sources kept = .ok sources ∧ q.outputRows sources = .ok outputs ∧
        answer = q.arrange outputs := by
  rw [run_eq_ok]
  constructor
  · rintro ⟨scope, path, source, hscope, hsource, hexecute⟩
    obtain ⟨kept, sources, outputs, hkept, hrest⟩ := Query.execute_eq_ok.mp hexecute
    exact ⟨scope, kept, sources, outputs, hscope, rowsRead_eq_ok.mpr ⟨path, source, hsource, hkept⟩,
      hrest⟩
  · rintro ⟨scope, kept, sources, outputs, hscope, hkept, hrest⟩
    obtain ⟨path, source, hsource, hkept⟩ := rowsRead_eq_ok.mp hkept
    exact ⟨scope, path, source, hscope, hsource,
      Query.execute_eq_ok.mpr ⟨kept, sources, outputs, hkept, hrest⟩⟩

/-- The rows of an answer have a value for each selected expression. -/
theorem length_of_mem_run {d : Dataset N} {q : Query N} {answer : Rowset N}
    (h : d.run q = .ok answer) {row : List (Value N)} (hrow : row ∈ answer.rows) :
    row.length = q.select.length := by
  obtain ⟨_, _, _, outputs, -, -, -, houtputs, rfl⟩ := run_eq_arrange.mp h
  obtain ⟨o, ho, rfl⟩ := Query.exists_output_of_mem_arrange hrow
  obtain ⟨given, hgiven, rfl⟩ := Query.outputRows_eq_ok.mp houtputs
  obtain ⟨row, hrow, ho⟩ := List.mem_flatMap.mp ho
  obtain ⟨source, -, hrow⟩ := exists_left_of_forall₂ hgiven hrow
  obtain ⟨values, hvalues, hsame⟩ := Query.cells_of_outputRow hrow
  rw [hsame o (Option.mem_toList.mp ho)]
  exact (cells_map_eq_ok.mp hvalues).length_eq.symm

/-- The rows of an answer stand under the names of the query. -/
theorem names_of_run {d : Dataset N} {q : Query N} {answer : Rowset N} (h : d.run q = .ok answer) :
    answer.names = q.names := by
  obtain ⟨_, _, _, -, -, hexecute⟩ := run_eq_ok.mp h
  exact Query.names_of_execute hexecute

end Dataset

/-- A preparation is a plan with the answer of its inner query. -/
theorem Preparation.of_eq_ok {q : Query N} {d : Dataset N} {p : Preparation N} :
    Preparation.of q d = .ok p ↔
      Plan.of q d.catalog = .ok p.plan ∧ d.run p.plan.inner = .ok p.exact := by
  unfold Preparation.of
  constructor
  · intro h
    split at h
    · cases h
    · rename_i plan hplan
      split at h
      · cases h
      · rename_i exact hexact
        cases h
        exact ⟨hplan, hexact⟩
  · rintro ⟨hplan, hexact⟩
    rw [hplan]
    simp only [hexact]

end PrivateSql
