import PrivateSql.Proofs.RereadClauses
/-!
# Queries read from their texts

The grammar reads the tokens of a faithful query clause by clause, and what it reads is written for the query.

* `block_of_clauses`, `block_tokens` — a block is read from its clauses;
* `query_tokens` — the tokens of a query are read as its clauses;
* `Query.IsFaithful.parse_display` — the text of a faithful query is read as the query.
-/

namespace PrivateSql

open Sql Sql.Grammar

variable {N : Type}

/-! ## What queries are read as -/

namespace Query

/-- The block that the tokens of a query are read as, from this table. -/
def blockSource (q : Query N) (table : TableSource) : Block where
  isDistinct := false
  select := q.select.map SelectItem.source
  tables := [table]
  selection := q.selection.map Expr.term
  groupBy := some (q.groupBy.map Expr.term)
  having := q.having.map Expr.term

/-- What the tokens of a query are read as. -/
def source (q : Query N) (table : TableSource) : QuerySource where
  hasWith := false
  body := .block (q.blockSource table)
  orderBy := q.orderBy.map fun item => (item.expr.term, !item.ascending)
  limit := q.limit.map Literal.term
  skips := false

/-- The tokens behind the block of a query. -/
def endTokens (q : Query N) : List Token :=
  listTokens "ORDER" (q.orderBy.map OrderItem.tokens) ++ limitTokens q.limit

theorem begins_endTokens (q : Query N) : Begins ["ORDER", "LIMIT"] q.endTokens := (begins_limit q.limit).list _

end Query

namespace Sql.Grammar

variable [Number N] {q : Query N} {inner : Nested} {levels : Nat}

/-- The words before what is selected are not written. -/
theorem selectQuantifier_tokens {ts : List Token} (hall : mark ts ≠ "ALL") (hdistinct : mark ts ≠ "DISTINCT") :
    selectQuantifier inner ts = .ok (false, ts) := by
  have hskip : skipOneOf ["ALL"] ts = ts := if_neg (by simpa using hall)
  rw [selectQuantifier, hskip, skip?_eq_none hdistinct]

/-- The keys of a query. -/
theorem grouping_tokens (hinner : ReadsBelow N inner levels)
    (hkeys : ∀ e ∈ q.groupBy, e.IsFaithful ∧ e.nesting < levels ∧ e.lead ∉ Query.keyStarters)
    (hfirst : ∀ e ∈ q.groupBy.head?, e.lead ≠ "ALL") (hsome : q.groupBy ≠ []) {rest : List Token}
    (hrest : Ends rest) (hcomma : mark rest ≠ ",") :
    grouping inner (commaTokens (q.groupBy.map Expr.tokens) ++ rest) =
      .ok (some (q.groupBy.map Expr.term), rest) := by
  have hterms : commaSeparated (groupItem inner) (commaTokens (q.groupBy.map Expr.tokens) ++ rest) =
      .ok (q.groupBy.map Expr.term, rest) := by
    refine commaSeparated_tokens hsome hcomma fun e he ts hts => ?_
    obtain ⟨hfaithful, hlevels, hkey⟩ := hkeys e he
    refine groupItem_tokens hinner hfaithful hlevels hkey ?_
    rcases hts with rfl | ⟨tail, rfl⟩
    · exact hrest
    · exact ends_cons (by decide) rfl
  have hall : skip? ["ALL"] (commaTokens (q.groupBy.map Expr.tokens) ++ rest) = none := by
    obtain ⟨e, es, hes⟩ := List.exists_cons_of_ne_nil hsome
    have hlead := hfirst e (by rw [hes]; rfl)
    rw [hes, List.map_cons, commaTokens, List.append_assoc]
    exact skip?_eq_none ((hkeys e (by rw [hes]; exact List.mem_cons_self)).1.mark_ne hlead (by decide) _)
  unfold grouping
  rw [hall]
  simp only [hterms, ok_bind]
  rfl

omit [Number N] in
/-- A table that is read as it is written. -/
theorem toRelation_tokens {name : Identifier} {label : Option Identifier} (hname : name.isBare = true)
    (hlabel : ∀ a ∈ label, a.isWord = true) (source : String) :
    TableSource.toRelation ⟨.table (bareWords name.parts) (label.map Identifier.word), false, source⟩ =
      .ok (.table name label : Relation (Query N)) := by
  have hword : (label.map Identifier.word).map (fun w => (⟨w.name⟩ : Identifier)) = label := by
    cases label with
    | none => rfl
    | some a =>
        have hsame : Text.toLower a.text = a.text := eq_of_beq (Bool.and_eq_true_iff.mp (hlabel a rfl)).2
        exact congrArg (fun text => some (Identifier.mk text)) hsame
  rw [TableSource.toRelation]
  simp only [Bool.false_eq_true, if_false, Identifier.identifierOf_bareWords hname, hword]

/-- What is selected, before the table. -/
theorem select_tokens (hinner : ReadsBelow N inner levels) (h : q.IsFaithful)
    (hlevels : ∀ e ∈ q.exprs, e.nesting < levels) (tail : List Token) :
    ∃ ts, commaTokens (q.select.map SelectItem.tokens) ++ bareWord "FROM" :: tail = ts ∧
      mark ts ∉ Query.selectStarters ∧
      commaSeparated (selectItem inner) ts = .ok (q.select.map SelectItem.source, bareWord "FROM" :: tail) := by
  have hexprs : ∀ item ∈ q.select, item.expr.IsFaithful ∧ item.expr.nesting < levels := by
    intro item hitem
    have hmem : item.expr ∈ q.exprs := by
      simp only [Query.exprs, List.mem_append, List.mem_map]
      exact .inl (.inl (.inl (.inl ⟨item, hitem, rfl⟩)))
    exact ⟨h.exprs _ hmem, hlevels _ hmem⟩
  refine ⟨_, rfl, ?_, commaSeparated_tokens h.selects ?_ fun item hitem ts hts => ?_⟩
  · have hselected := h.selected
    obtain ⟨item, items, hitems⟩ := List.exists_cons_of_ne_nil h.selects
    rw [hitems] at hexprs hselected
    have hfront := (hexprs item List.mem_cons_self).1
    have hlead := hselected item rfl
    rw [hitems, List.map_cons, commaTokens, List.append_assoc, SelectItem.tokens, List.append_assoc]
    intro hmem
    have hwords : ∀ m ∈ Query.selectStarters, m ∉ frontMarks := by decide
    exact hfront.mark_ne (fun heq => hlead (heq ▸ hmem)) (hwords _ hmem) _ rfl
  · rw [mark_bareWord]
    decide
  · obtain ⟨hfaithful, hnesting⟩ := hexprs item hitem
    refine selectItem_tokens hinner hfaithful hnesting ?_
    rcases hts with rfl | htail
    · exact .inl ⟨tail, rfl⟩
    · exact .inr htail

omit [Number N] in
/-- A block whose clauses are read, each up to the next one, and in which no other clause is found. -/
theorem block_of_clauses {ts s₁ s₂ s₃ s₄ s₅ : List Token} {items : List SelectSource} {table : TableSource}
    {selection having : Option Term} {groups : Option (Option (List Term))}
    (hfront : mark ts ∉ Query.selectStarters)
    (hselect : commaSeparated (selectItem inner) ts = .ok (items, bareWord "FROM" :: s₁))
    (htable : tableSource inner (tableFactor inner (s₁.length + 2)) s₁ = .ok (table, s₂))
    (hread : Begins clauseWords s₂) (hwhere : after ["WHERE"] inner.term s₂ = .ok (selection, s₃))
    (hgroups : after ["GROUP", "BY"] (grouping inner) s₃ = .ok (groups, s₄))
    (hgiven : Begins ["HAVING", "ORDER", "LIMIT"] s₄)
    (hhaving : after ["HAVING"] inner.term s₄ = .ok (having, s₅)) (hend : Begins ["ORDER", "LIMIT"] s₅) :
    block inner ts = .ok (⟨false, items, [table], selection, groups.getD (some []), having⟩, s₅) := by
  have hmark {m : String} (hm : m ∈ Query.selectStarters) : mark ts ≠ m := fun heq => hfront (heq ▸ hm)
  have hquantifier : selectQuantifier inner ts = .ok (false, ts) :=
    selectQuantifier_tokens (hmark (by decide)) (hmark (by decide))
  have htop : whenFirst [["TOP"]] (topRows inner) ts = .ok ts := whenFirst_eq (hmark (by decide))
  have hword : Text.toUpper "FROM" = "FROM" := by decide
  have hinto : whenFirst [["INTO"]] intoTable (bareWord "FROM" :: s₁) = .ok (bareWord "FROM" :: s₁) :=
    whenFirst_eq (by rw [mark_bareWord, hword]; decide)
  have htables : after ["FROM"] (commaSeparated (tableSource inner (tableFactor inner (s₁.length + 2))))
      (bareWord "FROM" :: s₁) = .ok (some [table], s₂) := by
    have hskip : skip? ["FROM"] (bareWord "FROM" :: s₁) = some s₁ := by simp [skip?, hword]
    rw [after, hskip]
    simp only [commaSeparated_one htable (hread.mark_ne (by decide)), ok_bind]
    rfl
  have hviews (fuel : Nat) : lateralViews inner fuel s₂ = .ok s₂ := by
    cases fuel with
    | zero => rfl
    | succ fuel => rw [lateralViews, skip?_eq_none (hread.mark_ne (by decide))]
  have hsorted : inTurn (["CLUSTER", "DISTRIBUTE", "SORT"].map fun k => whenFirst [[k, "BY"]] inner.terms) s₄ =
      .ok s₄ := by
    have hnone {k : String} (hk : k ∉ "" :: ["HAVING", "ORDER", "LIMIT"]) :
        whenFirst [[k, "BY"]] inner.terms s₄ = .ok s₄ := whenFirst_eq (hgiven.mark_ne ⟨by decide, hk⟩)
    rw [List.map_cons, List.map_cons, List.map_cons, List.map_nil, inTurn_of_ok (hnone (by decide)),
      inTurn_of_ok (hnone (by decide)), inTurn_of_ok (hnone (by decide)), inTurn]
  have hwindows : windowClauses inner s₅ = .ok s₅ := by
    rw [windowClauses, if_neg (hend.mark_ne (by decide)), if_neg (hend.mark_ne (by decide))]
  have hsearch : searchClause inner s₅ = .ok s₅ := by
    unfold searchClause
    dsimp only
    split
    · exact absurd ‹mark s₅ = "START"› (hend.mark_ne (by decide))
    · exact absurd ‹mark s₅ = "CONNECT"› (hend.mark_ne (by decide))
    · rfl
  have hlast : inTurn [windowClauses inner, searchClause inner] s₅ = .ok s₅ := by
    rw [inTurn_of_ok hwindows, inTurn_of_ok hsearch, inTurn]
  simp only [block, hquantifier, htop, hselect, hinto, List.length_cons, htables, hviews, hwhere, hgroups,
    hsorted, hhaving, hlast, ok_bind]
  rfl

/-- **Blocks are read clause by clause.** -/
theorem block_tokens (hinner : ReadsBelow N inner levels) (h : q.IsFaithful)
    (hlevels : ∀ e ∈ q.exprs, e.nesting < levels) :
    ∃ (table : TableSource) (r : Relation (Query N)), q.relations = [r] ∧ table.toRelation = .ok r ∧
      block inner (commaTokens (q.select.map SelectItem.tokens) ++
        bareWord "FROM" :: (commaTokens (q.relations.map Relation.tokens) ++ q.clauseTokens)) =
      .ok (q.blockSource table, q.endTokens) := by
  have hexprs := fun e he => And.intro (h.exprs e he) (hlevels e he)
  simp only [Query.exprs, List.forall_mem_append, List.forall_mem_map, Option.mem_toList] at hexprs
  obtain ⟨⟨⟨⟨-, hselection⟩, hgroupBy⟩, hhaving⟩, -⟩ := hexprs
  obtain ⟨name, label, hrelations, hname, hnamed, hlabel⟩ := h.table
  -- What follows each clause, from the last one to the first.
  have hend := q.begins_endTokens
  have hgiven := hend.condition (k := "HAVING") q.having
  have hgrouped := hgiven.list (k := "GROUP") (q.groupBy.map Expr.tokens)
  have hread := hgrouped.condition (k := "WHERE") q.selection
  obtain ⟨ts, hts, hfront, hselect⟩ := select_tokens hinner h hlevels
    (commaTokens (q.relations.map Relation.tokens) ++ q.clauseTokens)
  obtain ⟨source, htable⟩ := tableSource_tokens (N := N) inner label
    (commaTokens (q.relations.map Relation.tokens) ++ q.clauseTokens).length.succ hnamed hread
  have hwords : ∀ k ∈ ["WHERE", "GROUP", "HAVING"], Text.toUpper k = k := by decide
  have hwhere := after_condition hinner (hwords "WHERE" (by decide)) hselection (hgrouped.ends (by decide))
    (hgrouped.mark_ne (by decide))
  have hgroups := @after_list _ _ (hwords "GROUP" (by decide)) _ (grouping inner) _ _
    (fun hsome => grouping_tokens hinner (fun e he => ⟨(hgroupBy e he).1, (hgroupBy e he).2, h.keys e he⟩)
      h.firstKey (by simpa using hsome) (hgiven.ends (by decide)) (hgiven.mark_ne (by decide)))
    (hgiven.mark_ne (by decide))
  have hhavings := after_condition hinner (hwords "HAVING" (by decide)) hhaving (hend.ends (by decide))
    (hend.mark_ne (by decide))
  refine ⟨_, _, hrelations, toRelation_tokens hname hlabel source, ?_⟩
  have htables : commaTokens (q.relations.map Relation.tokens) =
      Relation.tokens (.table name label : Relation (Query N)) := by
    rw [hrelations]
    simp [commaTokens]
  rw [← htables] at htable
  have hgetD : (if (q.groupBy.map Expr.tokens).isEmpty then none else some (some (q.groupBy.map Expr.term))).getD
      (some []) = some (q.groupBy.map Expr.term) := by
    cases q.groupBy <;> rfl
  rw [hts, block_of_clauses hfront hselect htable hread hwhere hgroups hgiven hhavings hend, hgetD]
  rfl

/-- The orderings and the limit behind a block. -/
theorem orderTerms_tokens (hinner : ReadsBelow N inner levels) (h : q.IsFaithful)
    (hlevels : ∀ e ∈ q.exprs, e.nesting < levels) :
    orderTerms inner.term q.endTokens =
      .ok (q.orderBy.map fun item => (item.expr.term, !item.ascending), limitTokens q.limit) := by
  have hlimit := begins_limit q.limit
  have hword : Text.toUpper "ORDER" = "ORDER" := by decide
  have hterms (hsome : q.orderBy.map OrderItem.tokens ≠ []) :
      commaSeparated (orderTerm inner.term) (commaTokens (q.orderBy.map OrderItem.tokens) ++ limitTokens q.limit) =
        .ok (q.orderBy.map fun item => (item.expr.term, !item.ascending), limitTokens q.limit) := by
    refine commaSeparated_tokens (by simpa using hsome) (hlimit.mark_ne (by decide)) fun item hitem ts hts => ?_
    have hmem : item.expr ∈ q.exprs := List.mem_append_right _ (List.mem_map_of_mem hitem)
    refine orderTerm_tokens hinner (h.exprs _ hmem) (hlevels _ hmem) ?_
    rcases hts with rfl | ⟨tail, rfl⟩
    · exact hlimit.mark_ne (by decide)
    · simp [mark]
  have hafter := after_list hword hterms (hlimit.mark_ne (by decide))
  rw [orderTerms, Query.endTokens, hafter, ok_bind]
  cases q.orderBy <;> rfl

omit [Number N] in
/-- No set operation goes on with a block. -/
theorem body_of_block {ts rest : List Token} {b : Block} (hmark : mark ts = "SELECT")
    (hblock : block inner (ts.drop 1) = .ok (b, rest)) (hrest : Begins ["ORDER", "LIMIT"] rest) (fuel : Nat) :
    body inner (fuel + 1) 0 ts = .ok (.block b, rest) := by
  have hsimple : simpleBody inner ts = .ok (.block b, rest) := by
    rw [simpleBody.eq_def, hmark]
    simp only [hblock, ok_bind]
    rfl
  have hset : setPrecedence rest = 0 := by
    unfold setPrecedence
    split
    · exact absurd ‹mark rest = "UNION"› (hrest.mark_ne (by decide))
    · exact absurd ‹mark rest = "EXCEPT"› (hrest.mark_ne (by decide))
    · exact absurd ‹mark rest = "INTERSECT"› (hrest.mark_ne (by decide))
    · rfl
  rw [body, hsimple, ok_bind]
  cases fuel with
  | zero => rfl
  | succ fuel =>
      dsimp only
      rw [setOperations, if_pos (Nat.le_of_eq hset)]

/-- **Queries are read clause by clause.** -/
theorem query_tokens (hinner : ReadsBelow N inner levels) (hpositive : 0 < levels) (h : q.IsFaithful)
    (hlevels : ∀ e ∈ q.exprs, e.nesting < levels) :
    ∃ (table : TableSource) (r : Relation (Query N)), q.relations = [r] ∧ table.toRelation = .ok r ∧
      query inner q.tokens = .ok (q.source table, []) := by
  obtain ⟨table, r, hrelations, htable, hblock⟩ := block_tokens hinner h hlevels
  have hmark : mark q.tokens = "SELECT" := by
    have hselect : Text.toUpper "SELECT" = "SELECT" := by decide
    exact hselect
  have hbody := body_of_block hmark hblock q.begins_endTokens
  have hlimits : limits inner 2 (none, false) (limitTokens q.limit) = .ok ((q.limit.map Literal.term, false), []) := by
    refine limits_tokens hinner (fun l hl => ?_) hpositive
    obtain ⟨hliteral, i, hvalue, -⟩ := h.limit l hl
    exact ⟨hliteral, i, hvalue⟩
  have hplain : plainQuery inner false q.tokens = .ok (q.source table, []) := by
    rw [plainQuery, hbody, ok_bind]
    simp only [orderTerms_tokens hinner h hlevels, ok_bind, hlimits]
    rfl
  have hwith : whenFirst [["WITH"]] (inTurn [allow ["RECURSIVE"], listOf (namedQuery inner)]) q.tokens =
      .ok q.tokens := whenFirst_eq (by rw [hmark]; decide)
  refine ⟨table, r, hrelations, htable, ?_⟩
  rw [query, withClause, hwith, ok_bind, hmark]
  exact hplain

end Sql.Grammar

/-! ## The query of a text -/

variable [Number N]

omit [Number N] in
/-- A name is read as it is written. -/
theorem Identifier.name_word {a : Identifier} (h : a.isWord = true) : a.word.name = a.text :=
  eq_of_beq (Bool.and_eq_true_iff.mp h).2

theorem SelectItem.toItem_source {item : SelectItem N} (h : item.expr.IsFaithful)
    (hlabel : ∀ a ∈ item.label, a.isWord = true) : item.source.toItem = .ok item := by
  obtain ⟨e, label⟩ := item
  have hname : (label.map Identifier.word).map Word.name = label.map Identifier.text := by
    cases label with
    | none => rfl
    | some a => exact congrArg some (Identifier.name_word (hlabel a rfl))
  rw [source, SelectSource.toItem, h.toExpr_term, hname]
  cases label <;> rfl

theorem toExprs_terms {es : List (Expr N)} (h : ∀ e ∈ es, e.IsFaithful) :
    Term.toExprs (es.map Expr.term) = .ok es := by
  induction es with
  | nil => rfl
  | cons e es ih =>
      rw [List.map_cons, Term.toExprs, (h e List.mem_cons_self).toExpr_term,
        ih fun x hx => h x (List.mem_cons_of_mem _ hx)]
      rfl

theorem mapM_condition {condition : Option (Expr N)} (h : ∀ e ∈ condition, e.IsFaithful) :
    (condition.map Expr.term).mapM Term.toExpr = .ok condition := by
  cases condition with
  | none => rfl
  | some e =>
      rw [Option.map_some]
      exact congrArg (fun x => x >>= fun e => .ok (some e)) (h e rfl).toExpr_term

/-- The query that the clauses are written for. -/
theorem Query.IsFaithful.toQuery_source {q : Query N} (h : q.IsFaithful) {table : TableSource}
    {r : Relation (Query N)} (hrelations : q.relations = [r]) (htable : table.toRelation = .ok r) :
    (q.source table).toQuery = .ok q := by
  have hexprs := h.exprs
  simp only [Query.exprs, List.forall_mem_append, List.forall_mem_map, Option.mem_toList] at hexprs
  obtain ⟨⟨⟨⟨hselect, hselection⟩, hgroupBy⟩, hhaving⟩, horderBy⟩ := hexprs
  have hitems : (q.select.map SelectItem.source).mapM SelectSource.toItem = .ok q.select := by
    rw [mapM_eq_ok, List.forall₂_map_left_iff, List.forall₂_same]
    exact fun item hitem => SelectItem.toItem_source (hselect item hitem) (h.labels item hitem)
  have horders : (q.orderBy.map fun item => (item.expr.term, !item.ascending)).mapM orderItemOf = .ok q.orderBy := by
    rw [mapM_eq_ok, List.forall₂_map_left_iff, List.forall₂_same]
    intro item hitem
    rw [orderItemOf, (horderBy item hitem).toExpr_term, ok_bind, Bool.not_not]
    rfl
  have hlimit : (q.limit.map Literal.term).mapM limitOf = .ok q.limit := by
    have hlimits := h.limit
    generalize q.limit = limit at hlimits
    cases limit with
    | none => rfl
    | some l =>
        obtain ⟨hliteral, i, hvalue, hi⟩ := hlimits l rfl
        have hread : limitOf l.term = .ok l := by
          have hterm : l.term.toExpr = .ok (.literal l) := hliteral.toExpr_term
          rw [limitOf, hterm]
          simp only [ok_bind, hvalue, hi, if_true]
          rfl
        exact congrArg (fun x => x >>= fun l => .ok (some l)) hread
  rw [QuerySource.toQuery]
  simp only [Query.source, Query.blockSource, Bool.false_eq_true, if_false, htable, toExprs_terms hgroupBy,
    hitems, mapM_condition hselection, mapM_condition hhaving, horders, hlimit, ok_bind]
  rw [← hrelations]
  cases q
  rfl

/-- **Texts of faithful queries are read as the queries.** -/
theorem Query.IsFaithful.parse_display {q : Query N} (h : q.IsFaithful)
    (hlevels : ∀ e ∈ q.exprs, e.nesting + 1 < Grammar.levels) : Query.parse q.display = .ok q := by
  have hinner : Grammar.ReadsBelow N (Grammar.nested (Grammar.levels - 1)) (Grammar.levels - 1) :=
    Grammar.readsBelow_nested _
  obtain ⟨table, r, hrelations, htable, hquery⟩ := Grammar.query_tokens hinner (by decide) h
    fun e he => Nat.lt_sub_of_add_lt (hlevels e he)
  have hread : (Grammar.nested Grammar.levels).query q.tokens = .ok (q.source table, []) := hquery
  rw [Query.parse, readText, scan_eq h.spells.scans]
  simp only [hread, ok_bind]
  exact h.toQuery_source hrelations htable

end PrivateSql
