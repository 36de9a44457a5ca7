import PrivateSql.Proofs.InnerRows
import PrivateSql.Proofs.KeyParts
import PrivateSql.Proofs.RecombinedValues
/-!
# The cells of the outer query

On the row of a group, the outer query reads from columns what the query itself computes: a key from
the column of a key, an aggregate from the columns of its raw aggregates.  All that stands above the
keys and the aggregates is the same in both.  What is left to ask of the two rows is that other columns
are found alike in both, and that no column hides another.

* `Plan.replace_key`, `Plan.find?_replacements` — what is replaced, and by what;
* `Plan.GroupRow`, `Plan.groupRow_of_inner` — a row that holds the keys and the raw aggregates of a
  group;
* `Plan.GroupRow.cell_outer` — a cell of the outer query has the value of the cell of the query.
-/

namespace PrivateSql

variable {N : Type}

namespace Plan

variable [Number N] {q : Query N} {scope : Scope N} {recombined : List (Recombination N)}

/-! ## What is replaced -/

omit [Number N] in
/-- What is replaced by a key stands for it. -/
theorem isKey_of_keyReplacements {t r : Expr N} (h : (keyReplacements q scope).find? t = some r) :
    ∃ key ∈ q.groupBy, r = .ofColumn (keyName key) ∧ Query.isKey scope key t = true := by
  obtain ⟨key, hkey, hr, htree | ⟨c, htree, hof⟩⟩ := keyReplacements_sound h
  · exact ⟨key, hkey, hr, Query.isKey_of_tree htree⟩
  · obtain ⟨i, hi, hget⟩ := Option.bind_eq_some_iff.mp hof
    obtain ⟨key', hget', -, hisKey⟩ := exists_key_of_groupKey? hi
    obtain rfl : key' = key := by simpa [hget] using hget'.symm
    rw [Expr.eq_column_of_tree htree]
    exact ⟨key', hkey, hr, hisKey⟩

omit [Number N] in
/-- What is no key is replaced only by the formula of an aggregate that is written like it. -/
theorem exists_aggregate_of_find? {t r : Expr N} (hkey : q.standsForKey scope t = false)
    (h : (replacements q scope recombined).find? t = some r) :
    ∃ p ∈ q.aggregates.zip recombined, p.1.tree = t.tree ∧ r = p.2.formula := by
  rcases Substitution.find?_insertMany h with ⟨x, hx, htree, rfl⟩ | hbefore
  · obtain ⟨p, hp, rfl⟩ := List.mem_map.mp hx
    exact ⟨p, hp, htree, rfl⟩
  · obtain ⟨key, hmem, -, hisKey⟩ := isKey_of_keyReplacements hbefore
    rw [Query.standsForKey_iff.mpr ⟨key, hmem, hisKey⟩] at hkey
    cases hkey

omit [Number N] in
/-- What is neither a key nor an aggregate is not replaced. -/
theorem find?_replacements_eq_none {t : Expr N} (hkey : q.standsForKey scope t = false)
    (hnot : t.isAggregate = false) : (replacements q scope recombined).find? t = none := by
  rw [Option.eq_none_iff_forall_ne_some]
  intro r hr
  obtain ⟨p, hp, htree, -⟩ := exists_aggregate_of_find? hkey hr
  rw [Expr.isAggregate_of_tree htree (isAggregate_of_mem (List.of_mem_zip hp).1)] at hnot
  cases hnot

/-- **What is no key** is replaced only if it is an aggregate, and by its formula. -/
theorem find?_replacements (hq : q.Written) {t r : Expr N} (ht : t.Written)
    (hkey : q.standsForKey scope t = false)
    (h : (replacements q scope recombined).find? t = some r) :
    ∃ p ∈ q.aggregates.zip recombined, p.1 = t ∧ r = p.2.formula := by
  obtain ⟨p, hp, htree, hr⟩ := exists_aggregate_of_find? hkey h
  exact ⟨p, hp, (hq.aggregates (List.of_mem_zip hp).1).eq_of_tree ht htree, hr⟩

omit [Number N] in
/-- What stands for a key is read from the column of a key that it stands for. -/
theorem exists_key_of_replace (hnone : ∀ key ∈ q.groupBy, key.aggregates = []) {e t : Expr N}
    (he : e ∈ q.outputExprs) (ht : t ∈ e.subterms) (hkey : q.standsForKey scope t = true) :
    ∃ key ∈ q.groupBy, Query.isKey scope key t = true ∧
      t.replace (replacements q scope recombined) = .ofColumn (keyName key) := by
  obtain ⟨r, hr⟩ := Option.isSome_iff_exists.mp
    (@isSome_replacements_of_key _ _ _ recombined _ _ he ht hkey)
  rw [Expr.replace_of_some hr]
  rcases Substitution.find?_insertMany hr with ⟨x, hx, htree, -⟩ | hbefore
  · -- An aggregate is no key.
    obtain ⟨p, hp, rfl⟩ := List.mem_map.mp hx
    obtain ⟨key, hmem, hisKey⟩ := Query.standsForKey_iff.mp hkey
    have hagg := Expr.isAggregate_of_tree htree (isAggregate_of_mem (List.of_mem_zip hp).1)
    have hsame : key.tree = t.tree := by
      have hcolumn : t.column? = none := by cases t <;> first | rfl | cases hagg
      rw [Query.isKey, hcolumn] at hisKey
      cases hc : key.column? <;> rw [hc] at hisKey <;> exact Expr.same_iff.mp hisKey
    have hself : key ∈ key.aggregates := List.mem_filter.mpr
      ⟨Expr.mem_subterms_self key, Expr.isAggregate_of_tree hsame.symm hagg⟩
    rw [hnone key hmem] at hself
    cases hself
  · obtain ⟨key, hmem, rfl, hisKey⟩ := isKey_of_keyReplacements hbefore
    exact ⟨key, hmem, hisKey, rfl⟩

/-- **What stands for a key** has no aggregate, and is read from the column of a key that it stands
for. -/
theorem replace_key (hq : q.Written) (hnone : ∀ key ∈ q.groupBy, key.aggregates = [])
    {e t : Expr N} (he : e ∈ q.outputExprs) (ht : t ∈ e.subterms)
    (hkey : q.standsForKey scope t = true) :
    t.aggregates = [] ∧ ∃ key ∈ q.groupBy, Query.isKey scope key t = true ∧
      t.replace (replacements q scope recombined) = .ofColumn (keyName key) := by
  have hwritten : t.Written := hq.of_mem_subterms he ht
  have haggregates : t.aggregates = [] := by
    obtain ⟨key, hmem, hisKey⟩ := Query.standsForKey_iff.mp hkey
    exact Query.aggregates_of_isKey ((hq.keys key hmem).eq_of_tree hwritten) (hnone key hmem) hisKey
  exact ⟨haggregates, exists_key_of_replace hnone he ht hkey⟩

/-! ## The row of a group -/

/-- **A row that holds a group.**  Of a written query, whose keys have no aggregate, a group of the rows
kept, and a row where its keys and its raw aggregates stand under their generated names. -/
structure GroupRow (q : Query N) (scope : Scope N) (recombined : List (Recombination N))
    (kept : List (Bindings N)) (g : Group N) (b : Bindings N) : Prop where
  written : q.Written
  noAggregate : ∀ key ∈ q.groupBy, key.aggregates = []
  recombines : q.aggregates.mapM Recombination.of = .ok recombined
  group : g.Of q.groupBy q.aggregates kept
  related : ∀ x ∈ kept, PathMap.Related (fun _ _ => True) scope.columns x
  key : ∀ key ∈ q.groupBy, ∃ v, cell g.bindings key = .ok v ∧ b.find [keyName key] = .one v
  raw : ∀ e ∈ rawAggregates q recombined, ∃ state,
    aggregateRun e (rowsWithKey q.groupBy g.key kept) = .ok state ∧
      b.find [e.columnName] = .one state.result

/-- **The inner query gives such rows.** -/
theorem groupRow_of_inner {kept : List (Bindings N)} {g g' : Group N} {values : List (Value N)}
    (hq : q.Written) (hnone : ∀ key ∈ q.groupBy, key.aggregates = [])
    (hrecombined : q.aggregates.mapM Recombination.of = .ok recombined)
    (hg : g.Of q.groupBy q.aggregates kept)
    (hrelated : ∀ x ∈ kept, PathMap.Related (fun _ _ => True) scope.columns x)
    (hplain : ∀ n ∈ (innerQuery q (rawAggregates q recombined)).names, IsPlain n)
    (hnames : ∀ i ∈ (innerQuery q (rawAggregates q recombined)).select,
      ∀ j ∈ (innerQuery q (rawAggregates q recombined)).select,
        i.name = j.name → i.expr.tree = j.expr.tree)
    (hg' : g'.Of q.groupBy (innerQuery q (rawAggregates q recombined)).aggregates kept)
    (hhead : g.head = g'.head)
    (hvalues : cells g'.bindings ((innerQuery q (rawAggregates q recombined)).select.map fun item =>
      item.expr.replace
        (g'.aggregates (innerQuery q (rawAggregates q recombined)).aggregates)) = .ok values) :
    GroupRow q scope recombined kept g
      (rowBindings [exactPath] (innerQuery q (rawAggregates q recombined)).names values) := by
  obtain ⟨hkey, hbindings⟩ : g.key = g'.key ∧ g.bindings = g'.bindings := by
    simpa [Group.head] using hhead
  have hinner := written_inner hq hrecombined
  have hwritten : ∀ item ∈ (innerQuery q (rawAggregates q recombined)).select,
      item.expr.Written := by
    intro item hitem
    exact hinner.outputs _
      (List.mem_append_left _ (List.mem_append_left _ (List.mem_map_of_mem hitem)))
  have haggregates : ∀ a ∈ (innerQuery q (rawAggregates q recombined)).aggregates, a.Written :=
    fun a ha => hinner.aggregates ha
  refine ⟨hq, hnone, hrecombined, hg, hrelated, fun key hmem => ?_, fun e he => ?_⟩
  · have hitem : SelectItem.of key (some (keyName key)) ∈
        (innerQuery q (rawAggregates q recombined)).select :=
      List.mem_append_left _ (List.mem_map_of_mem hmem)
    obtain ⟨v, hv, hfound⟩ := Query.find_output hwritten hplain hnames hvalues hitem
    have hself : key.replace (g'.aggregates (innerQuery q (rawAggregates q recombined)).aggregates) =
        key := Group.replace_eq_self (fun a ha => isAggregate_of_mem ha) (hnone key hmem)
    rw [hbindings]
    refine ⟨v, ?_, hfound⟩
    rw [← hself]
    exact hv
  · have hitem : SelectItem.of e (some e.columnName) ∈
        (innerQuery q (rawAggregates q recombined)).select :=
      List.mem_append_right _ (List.mem_map_of_mem he)
    obtain ⟨v, hv, hfound⟩ := Query.find_output hwritten hplain hnames hvalues hitem
    obtain ⟨state, hstate, hreplaced⟩ := hg'.find?_aggregates haggregates
      (written_rawAggregates hq hrecombined he) (exists_inner_aggregate hrecombined he)
    rw [hkey]
    refine ⟨state, hstate, ?_⟩
    have hcell : cell g'.bindings (e.replace
        (g'.aggregates (innerQuery q (rawAggregates q recombined)).aggregates)) =
          .ok state.result := by
      rw [Expr.replace_of_some hreplaced]
      rfl
    have hv' : cell g'.bindings (e.replace
        (g'.aggregates (innerQuery q (rawAggregates q recombined)).aggregates)) = .ok v := hv
    rw [hcell] at hv'
    rw [Except.ok.inj hv']
    exact hfound

/-! ## Cells -/

namespace GroupRow

variable {kept : List (Bindings N)} {g : Group N} {b : Bindings N}

/-- The value of a plain column. -/
theorem evaluate_ofColumn {n : String} {v : Value N} (hplain : IsPlain n)
    (h : b.find [n] = .one v) : (Expr.ofColumn n).evaluate b = .ok v := by
  rw [Expr.ofColumn, Expr.evaluate, hplain.parts, h]

/-- **A key is read from its column.**  Let the columns of a part that stands for a key be those of the
group.  Then the column that replaces it holds its cell. -/
theorem key_part (h : GroupRow q scope recombined kept g b) {e t : Expr N}
    (he : e ∈ q.outputExprs) (ht : t ∈ e.subterms) (hkey : q.standsForKey scope t = true)
    {b' b'' : Bindings N} (hread : ∀ c ∈ t.columns, b'.find c.parts = g.bindings.find c.parts)
    (hexact : ∀ n, ⟨n⟩ ∈ (t.replace (replacements q scope recombined)).columns →
      IsExactName q recombined ⟨n⟩ → b''.find [n] = b.find [n]) :
    t.replace (g.aggregates q.aggregates) = t ∧ t.evaluate b' = t.evaluate g.bindings ∧
      ∃ v, cell g.bindings t = .ok v ∧
        (t.replace (replacements q scope recombined)).evaluate b'' = .ok v := by
  have hwritten : t.Written := h.written.of_mem_subterms he ht
  obtain ⟨hnone, key, hmem, hisKey, hreplace⟩ :=
    @replace_key _ _ _ _ recombined h.written h.noAggregate e t he ht hkey
  have hself : t.replace (g.aggregates q.aggregates) = t :=
    Group.replace_eq_self (fun a ha => isAggregate_of_mem ha) hnone
  have hrelated : PathMap.Related (fun _ _ => True) scope.columns g.bindings := by
    rcases h.group.row with hrow | hempty
    · exact h.related _ hrow
    · rw [hempty] at hmem
      cases hmem
  obtain ⟨v, hv, hfound⟩ := h.key key hmem
  have heval := Query.evaluate_of_isKey hrelated ((h.written.keys key hmem).eq_of_tree hwritten) hisKey
  refine ⟨hself, evaluate_congr hread, v, ?_, ?_⟩
  · rw [cell, ← heval]
    exact hv
  · rw [hreplace] at hexact ⊢
    refine evaluate_ofColumn (isPlain_keyName key) ?_
    rw [hexact (keyName key) (by simp [Expr.ofColumn])
      (List.mem_append_left _ (List.mem_map_of_mem hmem))]
    exact hfound

/-- **An aggregate is put together from its columns.**  Where the formula of an aggregate restores it,
the aggregate and its formula have one value. -/
theorem aggregate_part (h : GroupRow q scope recombined kept g b) {e t : Expr N}
    (he : e ∈ q.outputExprs) (ht : t ∈ e.aggregates) (hkey : q.standsForKey scope t = false)
    (hrestores : ∀ r, Recombination.of t = .ok r → r.Restores kept.length t) {b'' : Bindings N}
    (hexact : ∀ n, ⟨n⟩ ∈ (t.replace (replacements q scope recombined)).columns →
      IsExactName q recombined ⟨n⟩ → b''.find [n] = b.find [n]) :
    ∃ v, t.replace (g.aggregates q.aggregates) = .ofValue v ∧
      (t.replace (replacements q scope recombined)).evaluate b'' = .ok v := by
  have hwritten : t.Written := h.written.of_mem_subterms he (List.mem_filter.mp ht).1
  obtain ⟨state, hstate, hfound⟩ := h.group.find?_aggregates
    (fun a ha => h.written.aggregates ha) hwritten (Query.exists_mem_aggregates he ht)
  obtain ⟨r, hr⟩ := Option.isSome_iff_exists.mp
    (@isSome_replacements_of_aggregate _ _ scope _ _ _ h.recombines he ht)
  obtain ⟨⟨a, formula⟩, hzip, rfl, rfl⟩ := find?_replacements h.written hwritten hkey hr
  have hof : Recombination.of a = .ok formula := eq_ok_of_mem_zip h.recombines hzip
  refine ⟨state.result, Expr.replace_of_some hfound, ?_⟩
  rw [Expr.replace_of_some hr] at hexact ⊢
  have hrun : ∀ x ∈ formula.raw, ∃ state',
      aggregateRun x (rowsWithKey q.groupBy g.key kept) = .ok state' ∧
        (Expr.ofColumn x.columnName).evaluate b'' = .ok state'.result := by
    intro x hx
    have hraw := mem_rawAggregates h.written h.recombines hzip hx
    obtain ⟨state', hstate', hfound'⟩ := h.raw x hraw
    refine ⟨state', hstate', evaluate_ofColumn (isPlain_columnName x) ?_⟩
    rw [hexact x.columnName ((Recombination.reads_raw hof).2 x hx)
      (List.mem_append_right _ (List.mem_map_of_mem hraw))]
    exact hfound'
  have hlength : (rowsWithKey q.groupBy g.key kept).length ≤ kept.length :=
    List.length_filter_le _ _
  refine hrestores formula hof _ state hlength hstate (fun x hx => ?_) b'' fun x hx state' hs => ?_
  · obtain ⟨state', hstate', -⟩ := hrun x hx
    exact ⟨state', hstate'⟩
  · obtain ⟨state'', hstate'', heval⟩ := hrun x hx
    rw [hs] at hstate''
    cases hstate''
    exact heval

/-- **A cell of the outer query.**  Let an expression be evaluated beside a group and, rewritten, beside
a row that holds the group.  Suppose that the columns of its keys are those of the group, that its
other columns are found alike on both sides, that its generated names are found as on the row, that no
key inside it divides by zero, and that the formulas restore its aggregates.  Then the rewritten cell
has the value of the cell. -/
theorem cell_outer (h : GroupRow q scope recombined kept g b) {e : Expr N}
    (he : e ∈ q.outputExprs) {b' b'' : Bindings N} {v : Value N}
    (hkeys : ∀ t ∈ q.partsOf scope e, q.standsForKey scope t = true → ∀ c ∈ t.columns,
      b'.find c.parts = g.bindings.find c.parts)
    (hcolumns : ∀ c, .column c ∈ q.partsOf scope e → q.standsForKey scope (.column c) = false →
      b'.find c.parts = b''.find c.parts)
    (hexact : ∀ n, ⟨n⟩ ∈ (e.replace (replacements q scope recombined)).columns →
      IsExactName q recombined ⟨n⟩ → b''.find [n] = b.find [n])
    (hdivision : q.standsForKey scope e = false → ∀ t ∈ q.partsOf scope e,
      q.standsForKey scope t = true → ∀ n,
        t.evaluate g.bindings ≠ .error (.operation (.zeroDenominator n)))
    (hrestores : ∀ a ∈ e.aggregates, ∀ r, Recombination.of a = .ok r → r.Restores kept.length a)
    (hv : cell b' (e.replace (g.aggregates q.aggregates)) = .ok v) :
    cell b'' (e.replace (replacements q scope recombined)) = .ok v := by
  have hnone : ∀ {t : Expr N}, t.isAggregate = false → (g.aggregates q.aggregates).find? t = none :=
    Group.find?_eq_none fun a ha => isAggregate_of_mem ha
  have hkept : ∀ t ∈ e.subterms, q.standsForKey scope t = false → t.isComposite = true →
      (g.aggregates q.aggregates).find? t = none ∧
        (replacements q scope recombined).find? t = none := by
    intro t _ hkey hcomposite
    have hnot : t.isAggregate = false := by cases t <;> first | rfl | cases hcomposite
    exact ⟨hnone hnot, find?_replacements_eq_none hkey hnot⟩
  have hexactPart : ∀ t ∈ q.partsOf scope e, ∀ n,
      ⟨n⟩ ∈ (t.replace (replacements q scope recombined)).columns →
      IsExactName q recombined ⟨n⟩ → b''.find [n] = b.find [n] := by
    intro t ht n hn
    exact hexact n (columns_replace_parts (fun t ht hkey hc => (hkept t ht hkey hc).2) ht _ hn)
  by_cases hkey : q.standsForKey scope e = true
  · have hself : e ∈ q.partsOf scope e := by
      rw [Query.partsOf, Expr.parts_of_stop hkey]
      exact List.mem_cons_self
    obtain ⟨hsame, hread, w, hw, heval⟩ := h.key_part he (Expr.mem_subterms_self e) hkey
      (hkeys e hself hkey) (hexactPart e hself)
    rw [hsame, cell, hread] at hv
    rw [cell] at hw ⊢
    rw [hw] at hv
    rw [heval, ← hv]
  · rw [Bool.not_eq_true] at hkey
    refine cell_of_follows (follows_of_parts hkept fun t ht => ?_) hv
    have hsub : t ∈ e.subterms := Expr.mem_subterms_of_mem_parts ht
    rcases Query.partsOf_cases ht with htkey | ⟨htkey, hmem | ⟨hnot, ⟨l, rfl⟩ | ⟨c, rfl⟩⟩⟩
    · obtain ⟨hsame, hread, w, hw, heval⟩ := h.key_part he hsub htkey (hkeys t ht htkey)
        (hexactPart t ht)
      rw [hsame, hread, heval, evaluate_of_cell hw (hdivision hkey t ht htkey)]
      exact .refl _
    · obtain ⟨w, hw, heval⟩ := h.aggregate_part he hmem htkey (hrestores t hmem) (hexactPart t ht)
      rw [hw, heval]
      exact .refl _
    · rw [Expr.replace, Expr.replace, hnone hnot, find?_replacements_eq_none htkey hnot]
      exact .refl _
    · rw [Expr.replace, Expr.replace, hnone hnot, find?_replacements_eq_none htkey hnot, Expr.evaluate,
        Expr.evaluate, hcolumns c ht htkey]
      exact .refl _

end GroupRow

end Plan

end PrivateSql
