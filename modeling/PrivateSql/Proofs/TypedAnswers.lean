import PrivateSql.Proofs.BindingSoundness
import PrivateSql.Proofs.TypedEvaluation
import PrivateSql.Proofs.WrittenConstants
/-!
# The types of an answer

The columns of an answer have the types that are inferred for what is selected.  The values that are
stored are of the types of their columns, so the accumulators of aggregates keep to the types of their
arguments, and what is computed from both is of the type inferred for it.  Then nothing is left to cast
when the answer is read by columns.

* `Accumulator.Holds`, `Accumulator.holds_update`, `Accumulator.holds_updateAll` — what an accumulator
  remembers is of the type that it is fed with;
* `Expr.admits_aggregateRun` — the value of an aggregate is of its type;
* `Query.Source.admits_cells` — and so is what is selected for a row or a group;
* `TypedRowset.of_admits` — rows of the types of their columns, read by columns;
* `Dataset.IsBuilt.run_typed` — the types of the answer of a query that is read from a text.
-/

namespace PrivateSql

variable {N : Type} [Number N]

open DataType

/-! ## Accumulators -/

/-- The type of the values of an aggregate function, from the type of its argument. -/
def AggregateFunction.resultType (t : DataType) : AggregateFunction → DataType
  | .count => .integer
  | .sum | .min | .max => t
  | .mean | .variance | .deviation => .float

omit [Number N] in
theorem Expr.dataType_aggregate (scope : Scope N) (f : AggregateFunction) (e : Expr N) :
    (aggregate f e).dataType scope = f.resultType (e.dataType scope) := by
  cases f <;> rfl

omit [Number N] in
theorem Expr.dataType_aggregateRows (scope : Scope N) (f : AggregateFunction) :
    (aggregateRows f : Expr N).dataType scope = f.resultType .unknown := by
  cases f <;> rfl

/-- One more value of a type for a sum of this type. -/
theorem admits_addToSum {t : DataType} {total v r : Value N} (htotal : t.Admits total)
    (hv : t.Admits v) (h : Accumulator.addToSum total v = .ok r) : t.Admits r := by
  unfold Accumulator.addToSum at h
  split at h
  · cases h
    exact htotal
  · cases h
    exact hv
  · cases h
    exact hv
  · cases h
  · rename_i htotalNull hvNull _ _
    split at h
    · rename_i s hadd
      cases h
      rcases Expr.dataType_of_arithmetic hadd with rfl | ⟨-, -, htype⟩
      · exact admits_null t
      · rcases htotal with hnull | hunknown | hsame
        · exact absurd hnull htotalNull
        · exact .inr (.inl hunknown)
        · rcases hv with hnull | hunknown | hsame'
          · exact absurd hnull hvNull
          · exact .inr (.inl hunknown)
          · -- Two numbers of one type have a sum of this type; nothing else has a sum.
            rw [hsame, hsame'] at htype
            cases t with
            | integer | float | unknown => exact .inr (.inr htype)
            | text | boolean =>
                refine .inl ?_
                cases r <;> first | rfl | cases htype
    · cases h

namespace Accumulator

/-- What is remembered of the values is of a type. -/
def Holds (t : DataType) : Accumulator N → Prop
  | .sum total => t.Admits total
  | .extremum _ value => t.Admits value
  | .count _ | .moments _ _ _ _ => True

/-- The type of the result, from the type of the values. -/
def resultType (t : DataType) : Accumulator N → DataType
  | .count _ => .integer
  | .sum _ | .extremum _ _ => t
  | .moments _ _ _ _ => .float

theorem holds_fresh (t : DataType) (f : AggregateFunction) :
    (fresh f : Accumulator N).Holds t ∧ (fresh f : Accumulator N).resultType t = f.resultType t := by
  cases f <;> simp [fresh, Holds, resultType, AggregateFunction.resultType, admits_null]

/-- **One more value** of the type. -/
theorem holds_update {t : DataType} {a a' : Accumulator N} {v : Value N} (ha : a.Holds t)
    (hv : t.Admits v) (h : a.update v = .ok a') : a'.Holds t ∧ a'.resultType t = a.resultType t := by
  cases a with
  | count n =>
      cases h
      exact ⟨trivial, rfl⟩
  | sum total =>
      obtain ⟨r, hr, rfl⟩ := map_eq_ok.mp h
      exact ⟨admits_addToSum ha hv hr, rfl⟩
  | extremum keep value =>
      cases h
      refine ⟨?_, rfl⟩
      rw [Holds]
      split
      · exact hv
      · exact ha
  | moments s n total squares =>
      rw [update] at h
      split at h
      · cases h
        exact ⟨trivial, rfl⟩
      · cases h
        exact ⟨trivial, rfl⟩

/-- What is remembered stays of the type, whichever values of the type are fed. -/
theorem holds_updateAll {t : DataType} {a a' : Accumulator N} {vs : List (Value N)} (ha : a.Holds t)
    (hvs : ∀ v ∈ vs, t.Admits v) (h : a.updateAll vs = .ok a') :
    a'.Holds t ∧ a'.resultType t = a.resultType t := by
  have hstep : ∀ (done : List (Value N)) v (b b' : Accumulator N),
      ((∀ w ∈ done, t.Admits w) → b.Holds t ∧ b.resultType t = a.resultType t) →
      b.update v = .ok b' → (∀ w ∈ done ++ [v], t.Admits w) →
      b'.Holds t ∧ b'.resultType t = a.resultType t := by
    intro done v b b' hinv hupdate hall
    obtain ⟨hb, htype⟩ := hinv fun w hw => hall w (List.mem_append_left _ hw)
    obtain ⟨hb', htype'⟩ := holds_update hb (hall v (by simp)) hupdate
    exact ⟨hb', htype'.trans htype⟩
  exact @foldlM_invariant _ _ _ update
    (fun done b => (∀ w ∈ done, t.Admits w) → b.Holds t ∧ b.resultType t = a.resultType t)
    hstep vs [] a a' (fun _ => ⟨ha, rfl⟩) h hvs

/-- The result is of the type inferred for it. -/
theorem admits_result {t : DataType} {a : Accumulator N} (h : a.Holds t) :
    (a.resultType t).Admits a.result := by
  cases a with
  | count n => exact admits_dataType _
  | sum total => exact h
  | extremum keep value => exact h
  | moments s n total squares =>
      rw [result]
      split
      · exact admits_null _
      · exact admits_dataType _

end Accumulator

/-! ## Aggregates -/

/-- **Aggregates have values of their types**, over rows whose values are of theirs. -/
theorem Expr.admits_aggregateRun {scope : Scope N} {a : Expr N} {rows : List (Bindings N)}
    {state : Accumulator N} (hrows : ∀ b ∈ rows, scope.Types b) (ha : a.isAggregate = true)
    (h : aggregateRun a rows = .ok state) : (a.dataType scope).Admits state.result := by
  have hrun : ∀ (f : AggregateFunction) (t : DataType), a.function? = some f →
      (∀ b ∈ rows, ∀ v, aggregateInput b a = .ok v → t.Admits v) →
      (f.resultType t).Admits state.result := by
    intro f t hf hinputs
    obtain ⟨vs, hvs, hupdate⟩ := aggregateRun_eq_ok.mp h
    rw [emptyState, hf, Option.getD_some] at hupdate
    obtain ⟨hfresh, hftype⟩ := Accumulator.holds_fresh (N := N) t f
    have hall : ∀ v ∈ vs, t.Admits v := by
      intro v hv
      obtain ⟨b, hb, hinput⟩ := exists_element_of_mem hvs hv
      exact hinputs b (List.of_mem_zip hb).1 v hinput
    obtain ⟨hholds, htype⟩ := Accumulator.holds_updateAll hfresh hall hupdate
    rw [← hftype, ← htype]
    exact Accumulator.admits_result hholds
  cases a with
  | aggregate f e =>
      rw [dataType_aggregate]
      refine hrun f _ rfl fun b hb v hv => ?_
      refine admits_cell (s := .empty) (hrows b hb) (fun t _ r w hr => by cases hr) ?_
      rw [replace_empty]
      exact hv
  | aggregateRows f =>
      rw [dataType_aggregateRows]
      exact hrun f _ rfl fun b _ v _ => admits_unknown v
  | literal l | column c | unary op e | binary l op r | nested e | isNull e negated | call name args =>
      cases ha

/-! ## Rows -/

namespace Query

variable {q : Query N} {scope : Scope N} {kept : List (Bindings N)} {b : Bindings N}
variable {s : Substitution N}

/-- What stands for an aggregate of a source is a value of its type. -/
theorem Source.admits_value (hsource : q.Source kept b s) (hwritten : q.Written)
    (hkept : ∀ b ∈ kept, scope.Types b) {e t r : Expr N} (he : e ∈ q.outputExprs)
    (ht : t ∈ e.subterms) (hr : s.find? t = some r) :
    ∃ v, r = .ofValue v ∧ (t.dataType scope).Admits v := by
  obtain ⟨a, ha, htree, rows, hrows, state, hstate, rfl⟩ := hsource.values t r hr
  obtain rfl := (hwritten.aggregates ha).eq_of_tree (hwritten.of_mem_subterms he ht) htree
  refine ⟨state.result, rfl, ?_⟩
  exact Expr.admits_aggregateRun (fun b hb => hkept b (hrows hb)) (isAggregate_of_mem ha) hstate

/-- **What is selected has values of its types**, for a row as for a group. -/
theorem Source.admits_cells (hsource : q.Source kept b s) (hwritten : q.Written)
    (hkept : ∀ b ∈ kept, scope.Types b) {values : List (Value N)}
    (h : cells b (q.select.map fun item => item.expr.replace s) = .ok values) :
    List.Forall₂ Admits (Dataset.outputTypes q scope) values := by
  have hb : scope.Types b := by
    rcases hsource.row with hmem | ⟨rfl, -, -⟩
    · exact hkept b hmem
    · exact scope.types_empty
  rw [Dataset.outputTypes, List.forall₂_map_left_iff, List.forall₂_iff_zip]
  refine ⟨(cells_map_eq_ok.mp h).length_eq, fun {item v} hzip => ?_⟩
  have he := mem_outputExprs_of_select (List.of_mem_zip hzip).1
  refine Expr.admits_cell hb (fun t ht r w hr hw => ?_) (cell_of_mem_zip h hzip)
  obtain ⟨w', rfl, hadmits⟩ := hsource.admits_value hwritten hkept he ht hr
  cases hw
  exact hadmits

/-- The rows of an answer have the types that are inferred for what is selected. -/
theorem admits_of_mem_arrange (hwritten : q.Written) (hkept : ∀ b ∈ kept, scope.Types b)
    {found : List (Bindings N × Substitution N)} {outputs : List (OutputRow N)}
    (hfound : q.sources kept = .ok found) (houtputs : q.outputRows found = .ok outputs)
    {row : List (Value N)} (hrow : row ∈ (q.arrange outputs).rows) :
    List.Forall₂ Admits (Dataset.outputTypes q scope) row := by
  obtain ⟨o, ho, rfl⟩ := exists_output_of_mem_arrange hrow
  obtain ⟨given, hgiven, rfl⟩ := outputRows_eq_ok.mp houtputs
  obtain ⟨row, hrow, ho⟩ := List.mem_flatMap.mp ho
  obtain ⟨source, hsource, hrow⟩ := exists_left_of_forall₂ hgiven hrow
  obtain ⟨values, hvalues, hsame⟩ := cells_of_outputRow hrow
  rw [hsame o (Option.mem_toList.mp ho)]
  exact (source_of_mem hfound hsource).admits_cells hwritten hkept hvalues

end Query

/-! ## Rows by columns -/

/-- Values of the type of a column stay as they are. -/
theorem TypedRowset.castColumn_of_admits {t : DataType} {values : List (Value N)}
    (h : ∀ v ∈ values, t.Admits v) : castColumn t values = .ok values := by
  rw [castColumn, mapM_eq_ok, List.forall₂_same]
  exact fun v hv => cast_of_admits (h v hv)

/-- **Rows of the types of their columns**, read by columns: every value stays as it is. -/
theorem TypedRowset.of_admits {answer : Rowset N} {types : List DataType}
    (h : ∀ row ∈ answer.rows, List.Forall₂ Admits types row) :
    of answer types = .ok ⟨(answer.names.zip types).zipIdx.map fun c =>
      ⟨c.1.1, c.1.2, answer.column c.2⟩, answer.rows.length⟩ := by
  have hcolumns : ∀ (named : List (String × DataType)) (i : Nat),
      (∀ k c, named[k]? = some c → ∀ v ∈ answer.column (i + k), c.2.Admits v) →
      columnsFrom answer i named =
        .ok ((named.zipIdx i).map fun c => ⟨c.1.1, c.1.2, answer.column c.2⟩) := by
    intro named
    induction named with
    | nil => intro i _; rfl
    | cons c named ih =>
        intro i hc
        have hhead := castColumn_of_admits (hc 0 c rfl)
        have htail := ih (i + 1) fun k c' hk => by
          have hnext := hc (k + 1) c' hk
          rwa [Nat.add_comm k 1, ← Nat.add_assoc] at hnext
        rw [Nat.add_zero] at hhead
        simp only [columnsFrom, hhead, ok_bind, htail, List.zipIdx_cons, List.map_cons]
  rw [of, hcolumns _ 0, ok_bind]
  intro k c hk v hv
  obtain ⟨row, hrow, rfl⟩ := List.mem_map.mp hv
  have htype : types[k]? = some c.2 := by
    rw [List.getElem?_zip_eq_some] at hk
    exact hk.2
  obtain ⟨w, hw, hadmits⟩ := exists_getElem?_of_forall₂ (h row hrow) htype
  rw [Nat.zero_add, List.getD_eq_getElem?_getD, hw]
  exact hadmits

/-! ## Answers -/

namespace Dataset

/-- **The types of an answer.**  Let a query be read from a text, bound to a dataset that is built from
tables, and executed.  Then every cell of its answer is `NULL` or of the type inferred for its column,
unless this is unknown; and the answer can be read by columns, all cells staying as they are. -/
theorem IsBuilt.run_typed {d : Dataset N} (hbuilt : d.IsBuilt) {text : String} {q : Query N}
    {scope : Scope N} {answer : Rowset N} (hparse : Query.parse text = .ok q)
    (hbind : q.bind d.catalog = .ok scope) (hrun : d.run q = .ok answer) :
    (∀ row ∈ answer.rows, List.Forall₂ Admits (outputTypes q scope) row) ∧
      d.runTyped q = .ok ⟨(answer.names.zip (outputTypes q scope)).zipIdx.map fun c =>
        ⟨c.1.1, c.1.2, answer.column c.2⟩, answer.rows.length⟩ := by
  obtain ⟨name, label, hrelations⟩ := Query.relations_of_parse hparse
  have hbound := Query.bound_of_bind hbind
  obtain ⟨_, kept, found, outputs, -, hkept, hfound, houtputs, rfl⟩ := run_eq_arrange.mp hrun
  have htypes : ∀ b ∈ kept, scope.Types b := fun b hb =>
    Scope.types_of_related (hbuilt.admits_of_mem_rowsRead hrelations hbound hkept hb)
  have hrows : ∀ row ∈ (q.arrange outputs).rows,
      List.Forall₂ Admits (outputTypes q scope) row := fun row hrow =>
    Query.admits_of_mem_arrange (Query.written_of_parse hparse) htypes hfound houtputs hrow
  refine ⟨hrows, ?_⟩
  rw [runTyped, hbind, hrun]
  simp only [liftQuery, ok_bind, TypedRowset.of_admits hrows, liftConversion]

/-- A key, a mean, and a sum of nothing but `NULL`: the last column has no type. -/
theorem run_typed_means :
    ∃ q scope answer, Query.parse (N := Binary64)
        "SELECT x, AVG(x) AS mean, SUM(NULL + x) AS none FROM t GROUP BY x ORDER BY x DESC" = .ok q ∧
      q.bind (integerDataset Binary64 [2, 1, 1]).catalog = .ok scope ∧
      (integerDataset Binary64 [2, 1, 1]).run q = .ok answer ∧
      outputTypes q scope = [.integer, .float, .unknown] ∧
      answer.rows.map (·.map Value.dataType) =
        [[.integer, .float, .unknown], [.integer, .float, .unknown]] ∧
      ∀ row ∈ answer.rows, List.Forall₂ Admits (outputTypes q scope) row := by
  have hruns : ((boundText (integerDataset Binary64 [2, 1, 1])
      "SELECT x, AVG(x) AS mean, SUM(NULL + x) AS none FROM t GROUP BY x ORDER BY x DESC").bind
        fun (q, scope) => ((integerDataset Binary64 [2, 1, 1]).run q).toOption.map fun answer =>
          (outputTypes q scope, answer.rows.map (·.map Value.dataType))) =
        some ([.integer, .float, .unknown],
          [[.integer, .float, .unknown], [.integer, .float, .unknown]]) := by
    decide +kernel
  obtain ⟨⟨q, scope⟩, hbound, hvalues⟩ := Option.bind_eq_some_iff.mp hruns
  obtain ⟨hq, hscope⟩ := boundText_eq_some.mp hbound
  obtain ⟨answer, hanswer, hvalues⟩ := Option.map_eq_some_iff.mp hvalues
  obtain ⟨htypes, hcells⟩ := Prod.ext_iff.mp hvalues
  have hrun := toOption_eq_some.mp hanswer
  exact ⟨q, scope, answer, hq, hscope, hrun, htypes, hcells,
    ((isBuilt_integerDataset _).run_typed hq hscope hrun).1⟩

end Dataset

end PrivateSql
