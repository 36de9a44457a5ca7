import PrivateSql.Proofs.PlanParts
import PrivateSql.Proofs.ExecutionParts
import PrivateSql.Sample.Persons
import PrivateSql.Sql.Reading
/-!
# The columns that an outer query reads

Noise is added to the columns of the inner query, so a private query is safe only if its outer query
reads nothing else.  The check of grouping accepts an expression by recursion, with columns compared
by what they resolve to; the replacements are built in three passes and applied outermost first.
What links the two: everything that the check stops at has a replacement.

* `keyReplacements_sound`, `isSome_keyReplacements` — the replacements of keys, found for all that
  stands for a key and for nothing else;
* `replacements_read`, `isSome_replacements_of_aggregate` — the same of aggregates;
* `outer_reads_noised_columns` — the outer query reads group keys and noised columns only.
-/

namespace PrivateSql.Plan

variable {N : Type} {q : Query N} {scope : Scope N} {recombined : List (Recombination N)}

/-! ## The replacements of keys -/

/-- The group key that a column stands for. -/
def keyOf? (q : Query N) (scope : Scope N) (c : Identifier) : Option (Expr N) :=
  (q.groupKey? scope (.column c)).bind (q.groupBy[·]?)

/-- One more column, replaced by the key that it stands for. -/
def insertKey (q : Query N) (scope : Scope N) (s : Substitution N) (c : Identifier) :
    Substitution N :=
  match keyOf? q scope c with
  | some key => s.insertNew (.column c) (.ofColumn (keyName key))
  | none => s

theorem keyReplacements_eq (q : Query N) (scope : Scope N) :
    keyReplacements q scope = (q.outputExprs.flatMap (·.columns)).foldl (insertKey q scope)
      (Substitution.empty.insertMany (q.groupBy.map fun key => (key, .ofColumn (keyName key)))) :=
  rfl

/-- A key that an expression stands for is one of the keys. -/
theorem exists_key_of_groupKey? {e : Expr N} {i : Nat} (h : q.groupKey? scope e = some i) :
    ∃ key, q.groupBy[i]? = some key ∧ key ∈ q.groupBy ∧ Query.isKey scope key e = true := by
  obtain ⟨hlt, hkey, -⟩ := List.findIdx?_eq_some_iff_getElem.mp h
  exact ⟨q.groupBy[i], List.getElem?_eq_getElem hlt, List.getElem_mem hlt, hkey⟩

/-- The replacement of a column is inserted, or was there before. -/
theorem find?_insertKeys {s : Substitution N} {cs : List Identifier} {t r : Expr N}
    (h : (cs.foldl (insertKey q scope) s).find? t = some r) :
    s.find? t = some r ∨ ∃ c key, t.tree = (Expr.column c : Expr N).tree ∧
      keyOf? q scope c = some key ∧ r = .ofColumn (keyName key) := by
  induction cs generalizing s with
  | nil => exact .inl h
  | cons c cs ih =>
      rcases ih h with hbefore | hinserted
      · cases hkey : keyOf? q scope c with
        | none =>
            rw [insertKey, hkey] at hbefore
            exact .inl hbefore
        | some key =>
            simp only [insertKey, hkey, Substitution.find?_insertNew, Option.or_eq_some_iff] at hbefore
            rcases hbefore with hfound | ⟨-, hnew⟩
            · exact .inl hfound
            · split at hnew
              · rename_i hsame
                cases hnew
                exact .inr ⟨c, key, (Expr.same_iff.mp hsame).symm, hkey, rfl⟩
              · cases hnew
      · exact .inr hinserted

/-- Inserting the replacements of columns hides none. -/
theorem isSome_insertKeys_of_isSome {s : Substitution N} {cs : List Identifier} {t : Expr N}
    (h : (s.find? t).isSome) : ((cs.foldl (insertKey q scope) s).find? t).isSome := by
  induction cs generalizing s with
  | nil => exact h
  | cons c cs ih =>
      refine ih ?_
      cases hkey : keyOf? q scope c with
      | none => simpa [insertKey, hkey] using h
      | some key => simp [insertKey, hkey, Substitution.find?_insertNew, h]

/-- Every column that stands for a key has a replacement. -/
theorem isSome_insertKeys {s : Substitution N} {cs : List Identifier} {c : Identifier} {key : Expr N}
    (hc : c ∈ cs) (hkey : keyOf? q scope c = some key) :
    ((cs.foldl (insertKey q scope) s).find? (.column c)).isSome := by
  induction cs generalizing s with
  | nil => cases hc
  | cons c' cs ih =>
      rcases List.mem_cons.mp hc with rfl | htail
      · have hinserted : ((insertKey q scope s c).find? (.column c)).isSome := by
          simp [insertKey, hkey, Substitution.find?_insertNew, Expr.same_refl]
        exact @isSome_insertKeys_of_isSome N q scope _ cs _ hinserted
      · exact ih htail

/-- **Only keys are read from keys.**  The replacement of an expression by a key is the column of a
key with the same tree, or of the key that the expression, a column, stands for. -/
theorem keyReplacements_sound {t r : Expr N} (h : (keyReplacements q scope).find? t = some r) :
    ∃ key ∈ q.groupBy, r = .ofColumn (keyName key) ∧ (key.tree = t.tree ∨
      ∃ c, t.tree = (Expr.column c : Expr N).tree ∧ keyOf? q scope c = some key) := by
  rw [keyReplacements_eq] at h
  rcases find?_insertKeys h with hkeys | ⟨c, key, htree, hkey, hr⟩
  · rcases Substitution.find?_insertMany hkeys with ⟨p, hp, htree, hr⟩ | hempty
    · obtain ⟨key, hmem, rfl⟩ := List.mem_map.mp hp
      exact ⟨key, hmem, hr.symm, .inl htree⟩
    · simp at hempty
  · obtain ⟨i, hi, hget⟩ := Option.bind_eq_some_iff.mp hkey
    exact ⟨key, List.mem_of_getElem? hget, hr, .inr ⟨c, htree, hkey⟩⟩

/-- **Whatever stands for a key is replaced.**  An expression inside what a query gives, filters or
orders by has a replacement as soon as it stands for a group key. -/
theorem isSome_keyReplacements {e t : Expr N} (he : e ∈ q.outputExprs) (ht : t ∈ e.subterms)
    (hkey : (q.groupKey? scope t).isSome) : ((keyReplacements q scope).find? t).isSome := by
  obtain ⟨i, hi⟩ := Option.isSome_iff_exists.mp hkey
  obtain ⟨key, hget, hmem, his⟩ := exists_key_of_groupKey? hi
  rw [keyReplacements_eq]
  by_cases hcolumn : ∃ c, t = .column c
  · obtain ⟨c, rfl⟩ := hcolumn
    have hread : c ∈ e.columns := List.mem_filterMap.mpr ⟨.column c, ht, rfl⟩
    exact isSome_insertKeys (List.mem_flatMap.mpr ⟨e, he, hread⟩)
      (Option.bind_eq_some_iff.mpr ⟨i, hi, hget⟩)
  · -- What is no column is a key only when it is written like it.
    have hsame : key.same t = true := by
      have hnone : t.column? = none := by
        cases t with
        | column c => exact absurd ⟨c, rfl⟩ hcolumn
        | _ => rfl
      simpa [Query.isKey, hnone] using his
    refine isSome_insertKeys_of_isSome ?_
    exact Substitution.isSome_find?_insertMany (List.mem_map_of_mem hmem) (Expr.same_iff.mp hsame)

/-! ## The replacements of aggregates -/

/-- A raw aggregate of a plan is needed by a recombination, or counts the rows. -/
theorem rawAggregates_cases {a : Expr N}
    (hrecombined : q.aggregates.mapM Recombination.of = .ok recombined)
    (h : a ∈ rawAggregates q recombined) :
    (∃ t ∈ q.aggregates, ∃ r, Recombination.of t = .ok r ∧ a ∈ r.raw) ∨
      a = .aggregateRows .count := by
  have hmem := Query.mem_of_mem_distinct h
  have hneeded : a ∈ recombined.flatMap (·.raw) ∨ a = .aggregateRows .count := by
    unfold withRowCount at hmem
    split at hmem
    · exact .inl hmem
    · exact (List.mem_append.mp hmem).imp_right List.mem_singleton.mp
  apply hneeded.imp_left
  intro hraw
  obtain ⟨r, hr, har⟩ := List.mem_flatMap.mp hraw
  obtain ⟨t, hzip, ht⟩ := exists_element_of_mem hrecombined hr
  exact ⟨t, (List.of_mem_zip hzip).1, r, ht, har⟩

/-- The raw aggregates of a plan are raw. -/
theorem isRawAggregate_of_mem_rawAggregates {a : Expr N}
    (hrecombined : q.aggregates.mapM Recombination.of = .ok recombined)
    (h : a ∈ rawAggregates q recombined) : a.IsRawAggregate := by
  rcases rawAggregates_cases hrecombined h with ⟨t, -, r, ht, har⟩ | rfl
  · exact (Recombination.of_spec ht).1 a har
  · exact ⟨.count, rfl, rfl⟩

/-- What a recombination needs is among the raw aggregates, or one of the same tree is. -/
theorem exists_mem_rawAggregates {r : Recombination N} {e : Expr N} (hr : r ∈ recombined)
    (he : e ∈ r.raw) : ∃ e' ∈ rawAggregates q recombined, e'.tree = e.tree := by
  have hneeded : e ∈ withRowCount q (recombined.flatMap (·.raw)) := by
    have hmem : e ∈ recombined.flatMap (·.raw) := List.mem_flatMap.mpr ⟨r, hr, he⟩
    unfold withRowCount
    split
    · exact hmem
    · exact List.mem_append_left _ hmem
  exact Query.exists_mem_distinct_nil hneeded

/-- The columns that the recombination of an aggregate reads are those of the raw aggregates. -/
theorem exists_rawAggregate {r : Recombination N} {e : Expr N}
    (hrecombined : q.aggregates.mapM Recombination.of = .ok recombined) (hr : r ∈ recombined)
    (he : e ∈ r.raw) : ∃ e' ∈ rawAggregates q recombined, e'.columnName = e.columnName := by
  obtain ⟨e', he', htree⟩ := exists_mem_rawAggregates hr he
  obtain ⟨a, -, ha⟩ := exists_element_of_mem hrecombined hr
  have hraw : e.IsRawAggregate := (Recombination.of_spec ha).1 e he
  have hraw' : e'.IsRawAggregate := isRawAggregate_of_mem_rawAggregates hrecombined he'
  exact ⟨e', he', Expr.columnName_congr hraw'.isAggregate hraw.isAggregate htree⟩

/-- Is an identifier the name of a column of the inner query? -/
def IsExactName (q : Query N) (recombined : List (Recombination N)) (c : Identifier) : Prop :=
  c.text ∈ q.groupBy.map keyName ++ (rawAggregates q recombined).map (·.columnName)

/-- **What replacements read.**  The replacements of a plan have no aggregate, and read columns of the
inner query only. -/
theorem replacements_read {t r : Expr N}
    (hrecombined : q.aggregates.mapM Recombination.of = .ok recombined)
    (h : (replacements q scope recombined).find? t = some r) :
    r.Reads (IsExactName q recombined) := by
  rcases Substitution.find?_insertMany h with ⟨p, hp, -, rfl⟩ | hkeys
  · obtain ⟨⟨a, r⟩, hzip, rfl⟩ := List.mem_map.mp hp
    have hof : Recombination.of a = .ok r := eq_ok_of_mem_zip hrecombined hzip
    obtain ⟨-, hnone, hcolumns⟩ := Recombination.of_spec hof
    refine ⟨hnone, ?_⟩
    intro c hc
    obtain ⟨e, he, hname⟩ := hcolumns c hc
    obtain ⟨e', he', hname'⟩ := exists_rawAggregate hrecombined (List.of_mem_zip hzip).2 he
    refine List.mem_append_right _ (List.mem_map.mpr ⟨e', he', ?_⟩)
    rw [hname', hname]
  · obtain ⟨key, hkey, rfl, -⟩ := keyReplacements_sound hkeys
    exact Expr.reads_column (List.mem_append_left _ (List.mem_map_of_mem hkey))

/-- Whatever stands for a key has a replacement in the plan. -/
theorem isSome_replacements_of_key {e t : Expr N} (he : e ∈ q.outputExprs) (ht : t ∈ e.subterms)
    (hkey : (q.groupKey? scope t).isSome) :
    ((replacements q scope recombined).find? t).isSome :=
  Substitution.isSome_find?_insertMany_of_isSome (isSome_keyReplacements he ht hkey)

/-- Every aggregate of a query has a replacement in the plan. -/
theorem isSome_replacements_of_aggregate {e t : Expr N}
    (hrecombined : q.aggregates.mapM Recombination.of = .ok recombined)
    (he : e ∈ q.outputExprs) (ht : t ∈ e.aggregates) :
    ((replacements q scope recombined).find? t).isSome := by
  obtain ⟨a, ha, htree⟩ := Query.exists_mem_aggregates he ht
  obtain ⟨r, hzip, -⟩ := exists_result_of_mem hrecombined ha
  exact Substitution.isSome_find?_insertMany (List.mem_map_of_mem hzip) htree

/-- What a query gives, filters or orders by reads, once replaced, columns of the inner query and
the outputs that it was allowed to name. -/
theorem replace_reads {e : Expr N} {outputs : List String}
    (hrecombined : q.aggregates.mapM Recombination.of = .ok recombined)
    (he : e ∈ q.outputExprs) (hgrouped : Query.isGrouped q scope outputs e = true) :
    (e.replace (replacements q scope recombined)).Reads fun c =>
      IsExactName q recombined c ∨ Query.isOutput outputs c = true :=
  Query.reads_replace hgrouped (fun _ ht hkey => isSome_replacements_of_key he ht hkey)
    (fun _ ht => isSome_replacements_of_aggregate hrecombined he ht)
    (fun _ _ hfound => replacements_read hrecombined hfound)

/-! ## The outer query -/

variable [Number N]

/-- The names of the exact columns are those of the keys and of the raw aggregates. -/
theorem exactNames_assemble (q : Query N) (scope : Scope N) (table : Schema N)
    (recombined : List (Recombination N)) :
    (assemble q scope table recombined).exactNames =
      q.groupBy.map keyName ++ (rawAggregates q recombined).map (·.columnName) := by
  simp [assemble, exactNames, NoisedColumn.name, Function.comp_def]

/-- The columns of the inner query have the exact names. -/
theorem names_inner (q : Query N) (scope : Scope N) (table : Schema N)
    (recombined : List (Recombination N)) :
    (assemble q scope table recombined).inner.names =
      (assemble q scope table recombined).exactNames := by
  rw [exactNames_assemble]
  simp [assemble, innerQuery, Query.names, SelectItem.of, SelectItem.name, Function.comp_def]

/-- The outer query has no aggregate, and reads exact columns and outputs only. -/
theorem outer_reads {q : Query N} {scope : Scope N} {recombined : List (Recombination N)}
    {catalog : Catalog N} (table : Schema N) (hbound : q.Bound catalog scope)
    (hagg : q.isAggregate = true)
    (hrecombined : q.aggregates.mapM Recombination.of = .ok recombined) :
    (∀ e ∈ (assemble q scope table recombined).outer.select.map (·.expr),
        e.Reads (IsExactName q recombined)) ∧
      ∀ e ∈ (assemble q scope table recombined).outer.having.toList
          ++ (assemble q scope table recombined).outer.orderBy.map (·.expr),
        e.Reads fun c => IsExactName q recombined c ∨ Query.isOutput q.names c = true := by
  constructor
  · intro e he
    obtain ⟨item, hitem, rfl⟩ : ∃ item ∈ q.select,
        item.expr.replace (replacements q scope recombined) = e := by
      simpa [assemble, outerQuery, SelectItem.of] using he
    have hmem : item.expr ∈ q.select.map (·.expr) := List.mem_map_of_mem hitem
    have hreads := replace_reads hrecombined
      (List.mem_append_left _ (List.mem_append_left _ hmem))
      (hbound.groupedSelect hagg _ hmem)
    exact hreads.mono fun c hc => hc.resolve_right (by simp [Query.isOutput_nil])
  · intro e he
    obtain ⟨e, hmem, rfl⟩ : ∃ e' ∈ q.having.toList ++ q.orderBy.map (·.expr),
        e'.replace (replacements q scope recombined) = e := by
      rcases List.mem_append.mp he with hhaving | horder
      · obtain ⟨e', he', rfl⟩ : ∃ e', q.having = some e' ∧
            e'.replace (replacements q scope recombined) = e := by
          simpa [assemble, outerQuery] using hhaving
        exact ⟨e', by simp [he'], rfl⟩
      · obtain ⟨item, hitem, rfl⟩ : ∃ item ∈ q.orderBy,
            item.expr.replace (replacements q scope recombined) = e := by
          simpa [assemble, outerQuery] using horder
        exact ⟨item.expr, List.mem_append_right _ (List.mem_map_of_mem hitem), rfl⟩
    have houtput : e ∈ q.outputExprs := by
      rw [Query.outputExprs, List.append_assoc]
      exact List.mem_append_right _ hmem
    exact replace_reads hrecombined houtput (hbound.groupedOutput hagg e hmem)

/-- The outer query has no aggregate. -/
theorem aggregates_outer {q : Query N} {scope : Scope N} {recombined : List (Recombination N)}
    {catalog : Catalog N} (table : Schema N) (hbound : q.Bound catalog scope)
    (hagg : q.isAggregate = true)
    (hrecombined : q.aggregates.mapM Recombination.of = .ok recombined) :
    (assemble q scope table recombined).outer.aggregates = [] := by
  obtain ⟨hselect, houtput⟩ := outer_reads table hbound hagg hrecombined
  have hnone : ∀ e ∈ (assemble q scope table recombined).outer.outputExprs, e.aggregates = [] := by
    intro e he
    rw [Query.outputExprs, List.append_assoc] at he
    rcases List.mem_append.mp he with hleft | hright
    · exact (hselect e hleft).noAggregate
    · exact (houtput e hright).noAggregate
  rw [Query.aggregates, List.flatMap_eq_nil_iff.mpr hnone]
  rfl

/-- **The outer query reads group keys and noised columns only.**  In a plan, the inner query gives
exactly the group keys and then raw aggregates of different trees, under the names and in the order
of the exact rows.  The outer query puts no rows together and has no condition on what it reads;
what it gives reads exact columns only, and what it filters and orders by reads exact columns or
names an output. -/
theorem outer_reads_noised_columns {q : Query N} {d : Dataset N} {p : Preparation N}
    (h : Preparation.of q d = .ok p) :
    p.plan.inner.select = q.groupBy.map (fun key => .of key (some (keyName key)))
        ++ p.plan.columns.map (fun c => .of c.aggregate (some c.name)) ∧
      (p.plan.columns.map (·.aggregate)).Pairwise (fun a b => a.same b = false) ∧
      (∀ c ∈ p.plan.columns, c.aggregate.IsRawAggregate) ∧
      p.plan.inner.names = p.plan.exactNames ∧ p.exact.names = p.plan.exactNames ∧
      p.plan.outer.aggregates = [] ∧ p.plan.outer.selection = none ∧ p.plan.outer.groupBy = [] ∧
      (∀ item ∈ p.plan.outer.select, ∀ c ∈ item.expr.columns, c.text ∈ p.plan.exactNames) ∧
      ∀ e ∈ p.plan.outer.having.toList ++ p.plan.outer.orderBy.map (·.expr), ∀ c ∈ e.columns,
        c.text ∈ p.plan.exactNames ∨ Query.isOutput p.plan.names c = true := by
  obtain ⟨hplan, hexact⟩ := Preparation.of_eq_ok.mp h
  obtain ⟨scope, table, recombined, hbound, -, hagg, hrecombined, hp⟩ := of_eq_ok hplan
  have hnames : p.plan.inner.names = p.plan.exactNames := by
    rw [hp]
    exact names_inner q scope table recombined
  have hexactName : ∀ c, IsExactName q recombined c → c.text ∈ p.plan.exactNames := by
    intro c hc
    rw [hp, exactNames_assemble]
    exact hc
  obtain ⟨hselect, houtput⟩ := outer_reads table hbound hagg hrecombined
  rw [← hp] at hselect houtput
  refine ⟨?_, ?_, ?_, hnames, ?_, ?_, ?_, ?_, ?_, ?_⟩
  · simp [hp, assemble, innerQuery, NoisedColumn.name, Function.comp_def]
  · simpa [hp, assemble, rawAggregates, Function.comp_def] using Query.distinct_pairwise [] _
  · intro c hc
    obtain ⟨e, he, rfl⟩ : ∃ e ∈ rawAggregates q recombined,
        (⟨e, e.dataType scope, e.sensitivity scope⟩ : NoisedColumn N) = c := by
      simpa [hp, assemble] using hc
    exact isRawAggregate_of_mem_rawAggregates hrecombined he
  · rw [Dataset.names_of_run hexact, hnames]
  · rw [hp]
    exact aggregates_outer table hbound hagg hrecombined
  · simp [hp, assemble, outerQuery]
  · simp [hp, assemble, outerQuery]
  · intro item hitem c hc
    exact hexactName c ((hselect item.expr (List.mem_map_of_mem hitem)).allowedColumns c hc)
  · intro e he c hc
    have hnamesEq : p.plan.names = q.names := by rw [hp]; rfl
    rw [hnamesEq]
    exact ((houtput e he).allowedColumns c hc).imp (hexactName c) id

/-- Four persons of the sample table. -/
def fourPersons : Dataset Binary64 := .ofTables [⟨Sample.schema, (List.range 4).map Sample.person⟩]

/-- The mean age by sex is read from four exact columns: the key, a count, a sum and the number of
rows. -/
theorem outer_reads_mean_age :
    ∃ q p, Query.parse (N := Binary64)
        "SELECT sex AS s, AVG(age) FROM PUMS GROUP BY sex HAVING COUNT(*) > 1 ORDER BY S" = .ok q ∧
      Preparation.of q fourPersons = .ok p ∧ p.plan.exactNames.length = 4 ∧
      ∀ item ∈ p.plan.outer.select, ∀ c ∈ item.expr.columns, c.text ∈ p.plan.exactNames := by
  have hruns : (do
      let q ← (Query.parse (N := Binary64)
        "SELECT sex AS s, AVG(age) FROM PUMS GROUP BY sex HAVING COUNT(*) > 1 ORDER BY S").toOption
      let p ← (Preparation.of q fourPersons).toOption
      return p.plan.exactNames.length) = some 4 := by
    decide +kernel
  obtain ⟨q, hq, hrest⟩ := Option.bind_eq_some_iff.mp hruns
  obtain ⟨p, hp, hlength⟩ := Option.bind_eq_some_iff.mp hrest
  have hq' := toOption_eq_some.mp hq
  have hp' := toOption_eq_some.mp hp
  have hreads := outer_reads_noised_columns hp'
  exact ⟨q, p, hq', hp', by simpa using hlength, hreads.2.2.2.2.2.2.2.2.1⟩

end PrivateSql.Plan
