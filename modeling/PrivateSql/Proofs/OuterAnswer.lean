import PrivateSql.Proofs.OuterRows
import PrivateSql.Proofs.RowConfinement
/-!
# The answer of the outer query

A query and the two queries of its plan are run over one dataset.  The groups of the query and the rows
of the inner one stand side by side, the outer query gives a row where the query does, and ordering and
cutting treat both alike.  So the outer query answers what the query answers, as long as names and
divisions are harmless.

* `forall₂_stableSort`, `Query.arrange_related` — ordering and cutting keep rows side by side;
* `Preparation.Answered` — a query that is read, prepared and answered;
* `Plan.run_outer`, `Plan.cells_of_run_outer` — the answers of the outer query;
* `Plan.outer_preserves_answer` — rewriting preserves the meaning of queries.
-/

namespace PrivateSql

/-! ## Lists side by side -/

section Lists

variable {α β γ : Type} {R : α → β → Prop} {S : α → γ → Prop}

/-- Elements side by side are elements of their lists. -/
theorem forall₂_mem {l : List α} {l' : List β} (h : List.Forall₂ R l l') :
    List.Forall₂ (fun a b => a ∈ l ∧ b ∈ l' ∧ R a b) l l' := by
  rw [List.forall₂_iff_zip] at h ⊢
  exact ⟨h.1, fun hzip => ⟨(List.of_mem_zip hzip).1, (List.of_mem_zip hzip).2, h.2 hzip⟩⟩

/-- Two lists beside a third one are side by side. -/
theorem forall₂_of_common {l : List α} {bs : List β} {cs : List γ} (h : List.Forall₂ R l bs)
    (h' : List.Forall₂ S l cs) : List.Forall₂ (fun b c => ∃ a, R a b ∧ S a c) bs cs := by
  induction h generalizing cs with
  | nil =>
      cases h'
      exact .nil
  | cons hhead htail ih =>
      cases h' with
      | cons hhead' htail' => exact .cons ⟨_, hhead, hhead'⟩ (ih htail')

variable {compare : α → α → Ordering} {compare' : β → β → Ordering}

theorem forall₂_insertDescending
    (hcompare : ∀ a a' b b', R a b → R a' b' → compare a a' = compare' b b') {a : α} {b : β}
    (hab : R a b) {l : List α} {l' : List β} (h : List.Forall₂ R l l') :
    List.Forall₂ R (insertDescending compare a l) (insertDescending compare' b l') := by
  induction h with
  | nil => exact .cons hab .nil
  | @cons a' b' l l' hhead htail ih =>
      rw [insertDescending, insertDescending, hcompare a a' b b' hab hhead]
      split
      · exact .cons hhead ih
      · exact .cons hab (.cons hhead htail)

/-- Sorting keeps elements side by side that compare alike. -/
theorem forall₂_stableSort
    (hcompare : ∀ a a' b b', R a b → R a' b' → compare a a' = compare' b b') {l : List α}
    {l' : List β} (h : List.Forall₂ R l l') :
    List.Forall₂ R (stableSort compare l) (stableSort compare' l') := by
  have hfold : ∀ {acc : List α} {acc' : List β}, List.Forall₂ R acc acc' →
      List.Forall₂ R (l.foldl (fun sorted a => insertDescending compare a sorted) acc)
        (l'.foldl (fun sorted b => insertDescending compare' b sorted) acc') := by
    induction h with
    | nil => exact fun hacc => hacc
    | cons hhead htail ih => exact fun hacc => ih (forall₂_insertDescending hcompare hhead hacc)
  exact List.forall₂_reverse_iff.mpr (hfold .nil)

end Lists

variable {N : Type} [Number N]

/-- **Ordering and cutting.**  Two queries with the same ordering and limit keep rows side by side that
have the same sort keys. -/
theorem Query.arrange_related {q q' : Query N} {S : List (Value N) → List (Value N) → Prop}
    (hdirections : q'.orderBy.map (·.ascending) = q.orderBy.map (·.ascending))
    (hlimit : q'.limit = q.limit) {outputs outputs' : List (OutputRow N)}
    (h : List.Forall₂ (fun r r' => r.keys = r'.keys ∧ S r.values r'.values) outputs outputs') :
    List.Forall₂ S (q.arrange outputs).rows (q'.arrange outputs').rows := by
  have hsorted : List.Forall₂ (fun r r' : OutputRow N => r.keys = r'.keys ∧ S r.values r'.values)
      (stableSort (fun l r => compareKeys (q.orderBy.map (·.ascending)) l.keys r.keys) outputs)
      (stableSort (fun l r => compareKeys (q.orderBy.map (·.ascending)) l.keys r.keys) outputs') :=
    forall₂_stableSort (fun a a' b b' hab hab' => by rw [hab.1, hab'.1]) h
  have hrowLimit : q'.rowLimit = q.rowLimit := by rw [rowLimit, rowLimit, hlimit]
  simp only [arrange, hdirections, hrowLimit]
  rw [List.forall₂_map_left_iff, List.forall₂_map_right_iff]
  cases q.rowLimit with
  | none => exact hsorted.imp fun _ _ h => h.2
  | some n => exact (List.forall₂_take n hsorted).imp fun _ _ h => h.2

/-- Where two sources give rows side by side, both give one, or none does. -/
theorem forall₂_flatMap_toList {α : Type} {R : α → α → Prop} {rows rows' : List (Option α)}
    (h : List.Forall₂ (Option.Rel R) rows rows') :
    List.Forall₂ R (rows.flatMap Option.toList) (rows'.flatMap Option.toList) := by
  induction h with
  | nil => exact .nil
  | cons hhead htail ih =>
      cases hhead with
      | none => exact ih
      | some hrow => exact .cons hrow ih

/-! ## A query and its plan -/

/-- A query that is read from a text, prepared over a dataset that is built from tables, and answered;
with the columns that it may read and the rows that it keeps. -/
structure Preparation.Answered (q : Query N) (d : Dataset N) (p : Preparation N) (answer : Rowset N)
    (scope : Scope N) (kept : List (Bindings N)) : Prop where
  read : ∃ text, Query.parse text = .ok q
  built : d.IsBuilt
  prepared : Preparation.of q d = .ok p
  answered : d.run q = .ok answer
  bound : q.bind d.catalog = .ok scope
  kept : d.rowsRead q = .ok kept

namespace Plan

variable {q : Query N} {d : Dataset N} {p : Preparation N} {answer : Rowset N} {scope : Scope N}
variable {kept : List (Bindings N)}

/-- **Groups beside exact rows.**  Each group of the query stands beside the exact row that holds it,
and beside the row that the query gives for it, if it gives one. -/
theorem groups_of_answered (h : Preparation.Answered q d p answer scope kept)
    (hu : p.plan.Unambiguous q scope kept) :
    ∃ table recombined, p.plan = assemble q scope table recombined ∧ q.Bound d.catalog scope ∧
      q.isAggregate = true ∧ q.aggregates.mapM Recombination.of = .ok recombined ∧
      ∃ groups rows,
        List.Forall₂ (fun g values => GroupRow q scope recombined kept g
          (rowBindings [exactPath] p.plan.inner.names values)) groups p.exact.rows ∧
        List.Forall₂ (fun g row => q.outputRow g.bindings (g.aggregates q.aggregates) = .ok row)
          groups rows ∧
        answer = q.arrange (rows.flatMap Option.toList) := by
  obtain ⟨text, hparse⟩ := h.read
  have hq := Query.written_of_parse hparse
  obtain ⟨hplan, hexact⟩ := Preparation.of_eq_ok.mp h.prepared
  obtain ⟨planScope, table, recombined, hplanBound, hsource, hagg, hrecombined, hp⟩ :=
    of_eq_ok hplan
  have hbound := Query.bound_of_bind h.bound
  obtain rfl : planScope = scope := hplanBound.scope_unique hbound
  refine ⟨table, recombined, hp, hbound, hagg, hrecombined, ?_⟩
  obtain ⟨_, kept', sources, outputs, -, hkept, hsources, houtputs, hanswer⟩ :=
    Dataset.run_eq_arrange.mp h.answered
  obtain rfl : kept' = kept := Except.ok.inj (hkept.symm.trans h.kept)
  rw [Query.sources, if_pos hagg] at hsources
  obtain ⟨groups, hgroups, hsources⟩ := bind_eq_ok.mp hsources
  cases hsources
  obtain ⟨rows, hrows, rfl⟩ := Query.outputRows_eq_ok.mp houtputs
  refine ⟨groups, rows, ?_, List.forall₂_map_left_iff.mp hrows, hanswer⟩
  rw [hp] at hexact hu ⊢
  obtain ⟨innerKept, groups', hinnerKept, hgroups', hvalues⟩ :=
    Dataset.rows_of_run (isAggregate_inner hagg hrecombined) rfl rfl rfl hexact
  obtain rfl : innerKept = kept' := Except.ok.inj (hinnerKept.symm.trans hkept)
  have hheads : List.Forall₂ (fun g' g : Group N => g.head = g'.head) groups' groups := by
    have hkeys : q.groupBy = (innerQuery q (rawAggregates q recombined)).groupBy := rfl
    have hsame := heads_of_queryGroups hkeys hgroups hgroups'
    rw [← List.forall₂_eq_eq_eq, List.forall₂_map_left_iff, List.forall₂_map_right_iff] at hsame
    exact hsame.flip
  refine (forall₂_of_common (forall₂_mem hheads) hvalues).imp ?_
  rintro g values ⟨g', ⟨hg', hg, hhead⟩, hcells⟩
  have hplain : ∀ n ∈ (innerQuery q (rawAggregates q recombined)).names, IsPlain n := by
    intro n hn
    have hmem : n ∈ (assemble q planScope table recombined).exactNames := by
      rw [← names_inner]
      exact hn
    exact isPlain_of_mem_exactNames hmem
  exact groupRow_of_inner hq hbound.groupBy hrecombined (group_of_mem hgroups hg)
    (fun b hb => h.built.related_of_mem_rowsRead hbound hkept hb) hplain hu.generated
    (group_of_mem hgroups' hg') hhead hcells

/-- The outer query keeps all the exact rows. -/
theorem rowsRead_outer {table : Schema N} {recombined : List (Recombination N)} {exact : Rowset N}
    (hexact : d.run (assemble q scope table recombined).inner = .ok exact) :
    d.rowsRead (assemble q scope table recombined).outer = .ok (exact.rows.map
      (rowBindings [exactPath] (assemble q scope table recombined).inner.names)) := by
  refine Dataset.rowsRead_eq_ok.mpr ⟨[exactPath], exact, ?_, ?_⟩
  · have hrelations : (assemble q scope table recombined).outer.relations =
        [.derived (assemble q scope table recombined).inner ⟨exactPath⟩] := rfl
    rw [hrelations, Dataset.runRelations, Dataset.runRelation, hexact]
    rfl
  · have hselection : (assemble q scope table recombined).outer.selection = none := rfl
    rw [hselection, Dataset.names_of_run hexact]
    exact filterRows_none _

/-- The outer query puts no rows together. -/
theorem sources_outer (table : Schema N) {recombined : List (Recombination N)} {catalog : Catalog N}
    (hbound : q.Bound catalog scope) (hagg : q.isAggregate = true)
    (hrecombined : q.aggregates.mapM Recombination.of = .ok recombined) (bs : List (Bindings N)) :
    (assemble q scope table recombined).outer.sources bs =
      .ok (bs.map fun b => (b, Substitution.empty)) := by
  have hplainRows : (assemble q scope table recombined).outer.isAggregate = false := by
    rw [Query.isAggregate, aggregates_outer table hbound hagg hrecombined]
    rfl
  rw [Query.sources, hplainRows]
  rfl

/-- **Running the outer query** is giving a row for each exact row, and arranging them. -/
theorem run_outer_eq_ok {table : Schema N} {recombined : List (Recombination N)}
    (hprepared : Preparation.of q d = .ok p) (hp : p.plan = assemble q scope table recombined)
    (hbound : q.Bound d.catalog scope) (hagg : q.isAggregate = true)
    (hrecombined : q.aggregates.mapM Recombination.of = .ok recombined) {answer' : Rowset N} :
    d.run p.plan.outer = .ok answer' ↔ ∃ rows,
      List.Forall₂ (fun values row => p.plan.outer.outputRow
        (rowBindings [exactPath] p.plan.inner.names values) Substitution.empty = .ok row)
          p.exact.rows rows ∧
        answer' = p.plan.outer.arrange (rows.flatMap Option.toList) := by
  obtain ⟨-, hexact⟩ := Preparation.of_eq_ok.mp hprepared
  obtain ⟨innerScope, -, -, hinner, -, -⟩ := Dataset.run_eq_ok.mp hexact
  rw [hp] at hexact hinner ⊢
  obtain ⟨outerScope, houter⟩ : ∃ outerScope,
      (assemble q scope table recombined).outer.bind d.catalog = .ok outerScope :=
    outer_bind hbound hagg hrecombined hinner
  have hread := rowsRead_outer hexact
  have hsources := sources_outer table hbound hagg hrecombined
  rw [Dataset.run_eq_arrange]
  constructor
  · rintro ⟨_, bs, sources, outputs, -, hbs, hsource, houtputs, rfl⟩
    rw [hread] at hbs
    cases hbs
    rw [hsources] at hsource
    cases hsource
    obtain ⟨rows, hrows, rfl⟩ := Query.outputRows_eq_ok.mp houtputs
    rw [List.forall₂_map_left_iff, List.forall₂_map_left_iff] at hrows
    exact ⟨rows, hrows, rfl⟩
  · rintro ⟨rows, hrows, rfl⟩
    refine ⟨outerScope, _, _, _, houter, hread, hsources _, Query.outputRows_eq_ok.mpr
      ⟨rows, ?_, rfl⟩, rfl⟩
    rw [List.forall₂_map_left_iff, List.forall₂_map_left_iff]
    exact hrows

/-- The outer query keeps the names, the ordering and the limit. -/
theorem arrangement_outer {table : Schema N} {recombined : List (Recombination N)}
    {plan : Plan N} (hp : plan = assemble q scope table recombined) :
    plan.outer.names = q.names ∧
      plan.outer.orderBy.map (·.ascending) = q.orderBy.map (·.ascending) ∧
      plan.outer.limit = q.limit := by
  rw [hp]
  exact ⟨names_outerQuery q _ _, by simp [assemble, outerQuery, Function.comp_def], rfl⟩

/-- **The outer query answers** what the query does, where the formulas restore all aggregates. -/
theorem run_outer (h : Preparation.Answered q d p answer scope kept)
    (hu : p.plan.Unambiguous q scope kept)
    (hrestored : ∀ e ∈ q.outputExprs, e.Restored kept.length) :
    d.run p.plan.outer = .ok answer := by
  obtain ⟨table, recombined, hp, hbound, hagg, hrecombined, groups, rows, hgroups, hrows, rfl⟩ :=
    groups_of_answered h hu
  have hselected : ∀ item ∈ q.select, item.expr.Restored kept.length := by
    intro item hitem
    exact hrestored _ (Query.mem_outputExprs_of_select hitem)
  have hrowsUse : q.RowsUse scope (Expr.Restored kept.length) := by
    refine ⟨?_, ?_⟩
    · intro e he
      exact hrestored e (Query.mem_outputExprs_of_rowExprs he)
    · intro e he t ht hkey c hc item hitem
      exact hselected item (Query.mem_of_outputNamed? hitem)
  refine (run_outer_eq_ok h.prepared hp hbound hagg hrecombined).mpr ⟨rows, ?_, ?_⟩
  · refine (forall₂_of_common hgroups hrows).imp ?_
    rintro values row ⟨g, hg, hrow⟩
    obtain ⟨cells, hcells, hvalues⟩ := Query.cells_of_outputRow hrow
    rw [hp] at hu hg ⊢
    have hcells' : PrivateSql.cells
        (rowBindings [exactPath] (assemble q scope table recombined).inner.names values)
        (q.select.map fun item => item.expr.replace (replacements q scope recombined)) =
          .ok cells := by
      apply cells_map_of_cell hcells
      intro item hitem v hv
      exact hg.cell_select hbound hagg hu hitem (hselected item hitem) hv
    have hout : (row.map fun r => (⟨cells, r.keys⟩ : OutputRow N)) = row := by
      cases row with
      | none => rfl
      | some r => rw [Option.map_some, ← hvalues r rfl]
    rw [hg.outputRow_outer hbound hagg hu hrowsUse hcells hcells' hrow, hout]
  · obtain ⟨hnames, hdirections, hlimit⟩ := arrangement_outer hp
    simp only [Query.arrange, Query.rowLimit, hnames, hdirections, hlimit]

end Plan

/-- Two answers with the same names and with rows side by side, whose cells are the same wherever the
selected expression satisfies a condition. -/
def Query.AgreeWhere (q : Query N) (P : Expr N → Prop) (answer answer' : Rowset N) : Prop :=
  answer'.names = answer.names ∧
    List.Forall₂ (fun row row' => ∀ (i : Nat) (item : SelectItem N), q.select[i]? = some item →
      P item.expr → row'[i]? = row[i]?) answer.rows answer'.rows

namespace Plan

/-- **Cells of the outer query.**  Let what filters and orders the rows given be restored, with the
outputs that it names.  If the outer query answers at all, its cells are the same wherever the selected
expression is restored. -/
theorem cells_of_run_outer (h : Preparation.Answered q d p answer scope kept)
    (hu : p.plan.Unambiguous q scope kept)
    (hrestored : q.RowsUse scope (Expr.Restored kept.length)) {answer' : Rowset N}
    (hrun : d.run p.plan.outer = .ok answer') :
    q.AgreeWhere (Expr.Restored kept.length) answer answer' := by
  obtain ⟨table, recombined, hp, hbound, hagg, hrecombined, groups, rows, hgroups, hrows, rfl⟩ :=
    groups_of_answered h hu
  obtain ⟨rows', hrows', rfl⟩ :=
    (run_outer_eq_ok h.prepared hp hbound hagg hrecombined).mp hrun
  obtain ⟨hnames, hdirections, hlimit⟩ := arrangement_outer hp
  refine ⟨hnames, Query.arrange_related hdirections hlimit (forall₂_flatMap_toList ?_)⟩
  refine (forall₂_of_common (forall₂_of_common hgroups hrows) hrows').imp ?_
  rintro row row' ⟨values, ⟨g, hg, hrow⟩, hrow'⟩
  obtain ⟨cells, hcells, hvalues⟩ := Query.cells_of_outputRow hrow
  obtain ⟨cells', hcells', hvalues'⟩ := Query.cells_of_outputRow hrow'
  rw [hp] at hu hg hcells' hrow'
  rw [cells_outer] at hcells'
  rw [hg.outputRow_outer hbound hagg hu hrestored hcells hcells' hrow] at hrow'
  cases hrow'
  cases row with
  | none => exact .none
  | some r =>
      refine .some ⟨rfl, fun i item hitem hitemRestored => ?_⟩
      obtain ⟨v, hv, hcell⟩ := exists_getElem?_of_cells hcells hitem
      obtain ⟨v', hv', hcell'⟩ := exists_getElem?_of_cells hcells' hitem
      have hmem : item ∈ q.select := List.mem_of_getElem? hitem
      rw [hg.cell_select hbound hagg hu hmem hitemRestored hcell] at hcell'
      rw [hvalues r rfl, hv, hv', Except.ok.inj hcell']

/-- **Rewriting preserves the meaning of queries**, as long as names and divisions are harmless.  Let a
query that is read from a text be prepared and answered over a dataset that is built from tables.

* Where all its aggregates are raw, its outer query gives the same answer, in any arithmetic.
* Where some are not, but what filters and orders the rows only uses raw ones, and the outer query
  answers, then the cells that only use raw ones are the same, in any arithmetic.
* In exact arithmetic, and over as many rows as a count can count, its outer query gives the same
  answer. -/
theorem outer_preserves_answer (N : Type) [Number N] :
    (∀ {q : Query N} {d : Dataset N} {p : Preparation N} {answer : Rowset N} {scope : Scope N}
      {kept : List (Bindings N)},
      Preparation.Answered q d p answer scope kept → p.plan.Unambiguous q scope kept →
      ((∀ e ∈ q.outputExprs, e.UsesRaw) → d.run p.plan.outer = .ok answer) ∧
        (q.RowsUse scope Expr.UsesRaw → ∀ answer', d.run p.plan.outer = .ok answer' →
          q.AgreeWhere Expr.UsesRaw answer answer')) ∧
    ∀ {q : Query ℝ} {d : Dataset ℝ} {p : Preparation ℝ} {answer : Rowset ℝ} {scope : Scope ℝ}
      {kept : List (Bindings ℝ)},
      Preparation.Answered q d p answer scope kept → p.plan.Unambiguous q scope kept →
      kept.length < 2 ^ 63 → d.run p.plan.outer = .ok answer := by
  refine ⟨?_, ?_⟩
  · intro q d p answer scope kept h hu
    refine ⟨?_, ?_⟩
    · intro hraw
      have hrestored : ∀ e ∈ q.outputExprs, e.Restored kept.length := by
        intro e he
        exact (hraw e he).restored kept.length
      exact run_outer h hu hrestored
    · intro hraw answer' hrun
      have hrestored : q.RowsUse scope (Expr.Restored kept.length) :=
        hraw.mono fun _ he => he.restored kept.length
      obtain ⟨hnames, hrows⟩ := cells_of_run_outer h hu hrestored hrun
      refine ⟨hnames, hrows.imp ?_⟩
      intro row row' hcells i item hitem huses
      exact hcells i item hitem (huses.restored kept.length)
  · intro q d p answer scope kept h hu hlength
    have hrestored : ∀ e ∈ q.outputExprs, e.Restored kept.length := by
      intro e _
      exact e.restored_exact hlength
    exact run_outer h hu hrestored

/-- A text read, prepared and answered over a dataset, if all of it succeeds. -/
def answerText (d : Dataset N) (text : String) :
    Option (Query N × Preparation N × Rowset N × Scope N × List (Bindings N)) := do
  let q ← (Query.parse (N := N) text).toOption
  let p ← (Preparation.of q d).toOption
  let answer ← (d.run q).toOption
  let scope ← (q.bind d.catalog).toOption
  let kept ← (d.rowsRead q).toOption
  return (q, p, answer, scope, kept)

theorem answered_of_answerText {text : String} (hbuilt : d.IsBuilt)
    (h : answerText d text = some (q, p, answer, scope, kept)) :
    Query.parse (N := N) text = .ok q ∧ Preparation.Answered q d p answer scope kept := by
  obtain ⟨q, hq, h⟩ := Option.bind_eq_some_iff.mp h
  obtain ⟨p, hp, h⟩ := Option.bind_eq_some_iff.mp h
  obtain ⟨answer, hanswer, h⟩ := Option.bind_eq_some_iff.mp h
  obtain ⟨scope, hscope, h⟩ := Option.bind_eq_some_iff.mp h
  obtain ⟨kept, hkept, h⟩ := Option.bind_eq_some_iff.mp h
  cases h
  rw [toOption_eq_some] at hq hp hanswer hscope hkept
  exact ⟨hq, ⟨_, hq⟩, hbuilt, hp, hanswer, hscope, hkept⟩

/-- Counts by a key, filtered, ordered and cut; counts beside means; and means in exact arithmetic. -/
theorem outer_preserves_counts :
    (∃ q p answer, Query.parse (N := Binary64)
        "SELECT x AS k, COUNT(*) FROM t WHERE NOT x IS NULL GROUP BY x ORDER BY k DESC LIMIT 2" =
          .ok q ∧
      Preparation.of q (integerDataset Binary64 [5, 7, 5, 6]) = .ok p ∧
      (integerDataset Binary64 [5, 7, 5, 6]).run q = .ok answer ∧
      answer.rows = [[.integer 7, .integer 1], [.integer 6, .integer 1]] ∧
      (integerDataset Binary64 [5, 7, 5, 6]).run p.plan.outer = .ok answer) ∧
    (∃ q p answer answer', Query.parse (N := Binary64)
        "SELECT COUNT(*) AS n, AVG(x) FROM t GROUP BY x ORDER BY n" = .ok q ∧
      Preparation.of q (integerDataset Binary64 [5, 7, 5]) = .ok p ∧
      (integerDataset Binary64 [5, 7, 5]).run q = .ok answer ∧ answer.rows.length = 2 ∧
      (integerDataset Binary64 [5, 7, 5]).run p.plan.outer = .ok answer' ∧
      q.AgreeWhere Expr.UsesRaw answer answer') ∧
    ∃ q p answer, Query.parse (N := ℝ) "SELECT x, AVG(x) FROM t GROUP BY x ORDER BY x" = .ok q ∧
      Preparation.of q (integerDataset ℝ [5, 7, 5]) = .ok p ∧
      (integerDataset ℝ [5, 7, 5]).run q = .ok answer ∧ answer.rows.length = 2 ∧
      (integerDataset ℝ [5, 7, 5]).run p.plan.outer = .ok answer := by
  refine ⟨?_, ?_, ?_⟩
  · have hruns : ((answerText (integerDataset Binary64 [5, 7, 5, 6])
        "SELECT x AS k, COUNT(*) FROM t WHERE NOT x IS NULL GROUP BY x ORDER BY k DESC LIMIT 2").map
        fun (q, p, answer, scope, kept) => (answer.rows,
          decide (p.plan.Unambiguous q scope kept ∧ ∀ e ∈ q.outputExprs, e.UsesRaw))) =
        some ([[.integer 7, .integer 1], [.integer 6, .integer 1]], true) := by
      decide +kernel
    obtain ⟨⟨q, p, answer, scope, kept⟩, hx, hvalues⟩ := Option.map_eq_some_iff.mp hruns
    obtain ⟨hrows, hchecks⟩ := Prod.ext_iff.mp hvalues
    obtain ⟨hu, hraw⟩ := of_decide_eq_true hchecks
    obtain ⟨hq, h⟩ := answered_of_answerText (isBuilt_integerDataset _) hx
    exact ⟨q, p, answer, hq, h.prepared, h.answered, hrows,
      ((outer_preserves_answer Binary64).1 h hu).1 hraw⟩
  · have hruns : ((answerText (integerDataset Binary64 [5, 7, 5])
        "SELECT COUNT(*) AS n, AVG(x) FROM t GROUP BY x ORDER BY n").map
        fun (q, p, answer, scope, kept) => (answer.rows.length,
          ((integerDataset Binary64 [5, 7, 5]).run p.plan.outer).toOption.isSome,
          decide (p.plan.Unambiguous q scope kept ∧ q.RowsUse scope Expr.UsesRaw))) =
        some (2, true, true) := by
      decide +kernel
    obtain ⟨⟨q, p, answer, scope, kept⟩, hx, hvalues⟩ := Option.map_eq_some_iff.mp hruns
    obtain ⟨hrows, hsome, hchecks⟩ : answer.rows.length = 2 ∧
        ((integerDataset Binary64 [5, 7, 5]).run p.plan.outer).toOption.isSome = true ∧
        decide (p.plan.Unambiguous q scope kept ∧ q.RowsUse scope Expr.UsesRaw) = true := by
      simpa only [Prod.ext_iff] using hvalues
    obtain ⟨hu, hraw⟩ := of_decide_eq_true hchecks
    obtain ⟨answer', hanswer'⟩ := Option.isSome_iff_exists.mp hsome
    rw [toOption_eq_some] at hanswer'
    obtain ⟨hq, h⟩ := answered_of_answerText (isBuilt_integerDataset _) hx
    exact ⟨q, p, answer, answer', hq, h.prepared, h.answered, hrows, hanswer',
      ((outer_preserves_answer Binary64).1 h hu).2 hraw answer' hanswer'⟩
  · have hruns : ((answerText (integerDataset ℝ [5, 7, 5])
        "SELECT x, AVG(x) FROM t GROUP BY x ORDER BY x").map
        fun (q, p, answer, scope, kept) => (answer.rows.length, kept.length,
          decide (p.plan.Unambiguous q scope kept))) = some (2, 3, true) := by
      decide +kernel
    obtain ⟨⟨q, p, answer, scope, kept⟩, hx, hvalues⟩ := Option.map_eq_some_iff.mp hruns
    obtain ⟨hrows, hlength, hchecks⟩ : answer.rows.length = 2 ∧ kept.length = 3 ∧
        decide (p.plan.Unambiguous q scope kept) = true := by
      simpa only [Prod.ext_iff] using hvalues
    obtain ⟨hq, h⟩ := answered_of_answerText (isBuilt_integerDataset _) hx
    exact ⟨q, p, answer, hq, h.prepared, h.answered, hrows,
      (outer_preserves_answer ℝ).2 h (of_decide_eq_true hchecks) (by rw [hlength]; decide)⟩

/-- Queries over the rows 0, 1 and 0, with their rows and those of their outer queries, if these answer:
two keys with one generated name, an output with a generated name, an output with the name of a key, an
output with a dot, and a key that divides by zero. -/
def apart : List (String × List (List (Value Binary64)) × Option (List (List (Value Binary64)))) :=
  [("SELECT x + 11074 FROM t GROUP BY x + 11074, x + 26298",
      [[.integer 11074], [.integer 11075]], some [[.integer 26298], [.integer 26299]]),
    ("SELECT MIN(x) AS count_zwd8jv FROM t GROUP BY x ORDER BY COUNT(*)",
      [[.integer 1], [.integer 0]], some [[.integer 0], [.integer 1]]),
    ("SELECT COUNT(*) AS x FROM t GROUP BY x ORDER BY x",
      [[.integer 1], [.integer 2]], some [[.integer 2], [.integer 1]]),
    ("SELECT COUNT(*) AS `t.x` FROM t GROUP BY x + 1 ORDER BY t.x",
      [[.integer 2], [.integer 1]], none),
    ("SELECT COUNT(*) FROM t GROUP BY x / 0 HAVING x / 0 IS NULL", [], some [[.integer 3]])]

/-- **Ambiguity is met.**  Each way to come apart that harmless names and divisions exclude does make an
outer query answer otherwise, or not at all. -/
theorem outer_differs :
    apart.Forall fun x => ∃ q p answer, Query.parse x.1 = .ok q ∧
      Preparation.of q (integerDataset Binary64 [0, 1, 0]) = .ok p ∧
      (integerDataset Binary64 [0, 1, 0]).run q = .ok answer ∧ answer.rows = x.2.1 ∧
      ((integerDataset Binary64 [0, 1, 0]).run p.plan.outer).toOption.map (·.rows) = x.2.2 ∧
      x.2.2 ≠ some x.2.1 := by
  have hruns : ∀ x ∈ apart, ((answerText (integerDataset Binary64 [0, 1, 0]) x.1).map
      fun (_, p, answer, _, _) => (answer.rows,
        ((integerDataset Binary64 [0, 1, 0]).run p.plan.outer).toOption.map (·.rows))) =
        some x.2 ∧ x.2.2 ≠ some x.2.1 := by
    simp only [apart, List.forall_mem_cons, List.not_mem_nil, IsEmpty.forall_iff, implies_true, and_true]
    refine ⟨?_, ?_, ?_, ?_, ?_⟩ <;> decide +kernel
  rw [List.forall_iff_forall_mem]
  intro x hx
  obtain ⟨hanswer, hne⟩ := hruns x hx
  obtain ⟨⟨q, p, answer, scope, kept⟩, htext, hvalues⟩ := Option.map_eq_some_iff.mp hanswer
  obtain ⟨hrows, houter⟩ := Prod.ext_iff.mp hvalues
  obtain ⟨hq, h⟩ := answered_of_answerText (isBuilt_integerDataset _) htext
  exact ⟨q, p, answer, hq, h.prepared, h.answered, hrows, houter, hne⟩

end Plan

end PrivateSql
