import PrivateSql.Binary64.Arithmetic
import PrivateSql.Proofs.ReadTrees
import PrivateSql.Proofs.RereadQueries
/-!
# Rendered queries

What is read from a text and written out again is read as the same, if no name in it is taken for a keyword, no
denied range stands before an operator that binds tighter than the denial, and no list has a
member that is torn apart.  The conditions are asked of the tree that was read; each can be checked by
computing.

* `Query.isClear` — a query of which all this is true;
* `Query.faithful_of_parse` — such a query, read from a text, is written as it is meant;
* `display_reread` — expressions and queries are read again from their texts.
-/

namespace PrivateSql

open Sql Sql.Grammar

variable {N : Type}

/-! ## Clear queries -/

/-- Does a table say what it is? A query in its place is never read. -/
def Relation.isClear {Q : Type} : Relation Q → Bool
  | .table name label =>
    name.isBare && decide (name.lead ∉ Query.tableStarters) && label.all Identifier.isWord
  | .derived _ _ => true

namespace Query

/-- Does a query say what it is? All its expressions do, names that are given are words, and no name is a keyword
at the front of its clause. -/
def isClear (q : Query N) : Bool :=
  q.exprs.all Expr.isClear && q.relations.all Relation.isClear &&
    q.select.all (fun item => item.label.all Identifier.isWord) &&
    q.select.head?.all (fun item => decide (item.expr.lead ∉ selectStarters)) &&
    q.groupBy.all (fun e => decide (e.lead ∉ keyStarters)) &&
    q.groupBy.head?.all (fun e => decide (e.lead ≠ "ALL")) &&
    q.limit.all (fun l => l.text != "")

/-- How many levels the text of a query takes: one, and those of its expressions. -/
def nesting (q : Query N) : Nat := (q.exprs.map Expr.nesting).foldr max 0 + 1

theorem nesting_lt_of_mem {q : Query N} {e : Expr N} (h : e ∈ q.exprs) : e.nesting < q.nesting := by
  have hle : ∀ (es : List (Expr N)), e ∈ es → e.nesting ≤ (es.map Expr.nesting).foldr max 0 := by
    intro es
    induction es with
    | nil => exact fun h => by cases h
    | cons d es ih =>
        intro h
        rw [List.map_cons, List.foldr_cons]
        rcases List.mem_cons.mp h with rfl | htail
        · exact Nat.le_max_left _ _
        · exact Nat.le_trans (ih htail) (Nat.le_max_right _ _)
  exact Nat.lt_succ_of_le (hle q.exprs h)

end Query

/-! ## Clauses that are read -/

namespace Sql

variable (N) [Number N]

/-- What the terms of a block are written for says what it is. -/
structure Block.Faithful (b : Block) : Prop where
  selects : b.select ≠ []
  select : ∀ t label, .term t label ∈ b.select → t.Faithful N
  selection : ∀ t ∈ b.selection, t.Faithful N
  groupBy : ∀ terms, b.groupBy = some terms → ∀ t ∈ terms, t.Faithful N
  having : ∀ t ∈ b.having, t.Faithful N

end Sql

namespace Sql.Grammar

variable [Number N] {inner : Nested} {ts rest : List Token}

theorem after_eq_ok {α : Type} {ks : List String} {piece : Piece α} {found : Option α} {P : α → Prop}
    (hpiece : ∀ us x vs, piece us = .ok (x, vs) → P x) (h : after ks piece ts = .ok (found, rest)) :
    ∀ x ∈ found, P x := by
  rw [after] at h
  split at h
  · obtain ⟨⟨x, vs⟩, hx, h⟩ := bind_eq_ok.mp h
    cases h
    rintro y ⟨⟩
    exact hpiece _ _ _ hx
  · cases h
    rintro y ⟨⟩

theorem commaSeparated_ne_nil {α : Type} {piece : Piece α} {xs : List α}
    (h : commaSeparated piece ts = .ok (xs, rest)) : xs ≠ [] := by
  rw [commaSeparated] at h
  cases hfuel : ts.length with
  | zero =>
      rw [hfuel] at h
      obtain ⟨_, -, h⟩ := bind_eq_ok.mp h
      cases h
      exact List.cons_ne_nil _ _
  | succ fuel =>
      rw [hfuel, commaSeparatedFrom] at h
      obtain ⟨_, -, h⟩ := bind_eq_ok.mp h
      dsimp only at h
      split at h
      · obtain ⟨_, -, h⟩ := bind_eq_ok.mp h
        cases h
        exact List.cons_ne_nil _ _
      · cases h
        exact List.cons_ne_nil _ _

theorem faithful_refused (source : String) : (Term.refused source).Faithful N := fun _ h => by cases h

/-- A selected term is read by the grammar of terms. -/
theorem selectItem_faithful (hinner : Faithfully N inner.term) {t : Term} {label : Option Word}
    (h : selectItem inner ts = .ok (.term t label, rest)) : t.Faithful N := by
  obtain ⟨⟨found, us⟩, hfound, h⟩ := bind_eq_ok.mp h
  dsimp only at h
  split at h
  · obtain ⟨_, -, h⟩ := bind_eq_ok.mp h
    cases h
    obtain ⟨us, vs, hread⟩ := starOr_eq_term hfound
    exact hinner us t vs hread
  · obtain ⟨_, -, h⟩ := bind_eq_ok.mp h
    cases h

theorem groupItem_faithful (hinner : Faithfully N inner.term) {t : Term}
    (h : groupItem inner ts = .ok (t, rest)) : t.Faithful N := by
  unfold groupItem at h
  split at h
  · obtain ⟨_, -, h⟩ := bind_eq_ok.mp h
    cases h
    exact faithful_refused _
  · split at h
    · obtain ⟨_, -, h⟩ := bind_eq_ok.mp h
      cases h
      exact faithful_refused _
    · exact hinner _ _ _ h

theorem grouping_faithful (hinner : Faithfully N inner.term) {groups : Option (List Term)}
    (h : grouping inner ts = .ok (groups, rest)) : ∀ terms, groups = some terms → ∀ t ∈ terms, t.Faithful N := by
  unfold grouping at h
  split at h
  · cases h
    rintro terms ⟨⟩
  · obtain ⟨⟨terms, us⟩, hterms, h⟩ := bind_eq_ok.mp h
    cases h
    rintro terms ⟨⟩ t ht
    obtain ⟨us, vs, hread⟩ := commaSeparated_mem hterms t ht
    exact groupItem_faithful hinner hread

/-- **Blocks are read term by term.** -/
theorem block_faithful (hinner : Faithfully N inner.term) {b : Block} (h : block inner ts = .ok (b, rest)) :
    b.Faithful N := by
  obtain ⟨_, -, h⟩ := bind_eq_ok.mp h
  obtain ⟨_, -, h⟩ := bind_eq_ok.mp h
  obtain ⟨⟨select, _⟩, hselect, h⟩ := bind_eq_ok.mp h
  obtain ⟨_, -, h⟩ := bind_eq_ok.mp h
  obtain ⟨_, -, h⟩ := bind_eq_ok.mp h
  obtain ⟨_, -, h⟩ := bind_eq_ok.mp h
  obtain ⟨⟨selection, _⟩, hselection, h⟩ := bind_eq_ok.mp h
  obtain ⟨⟨groups, _⟩, hgroups, h⟩ := bind_eq_ok.mp h
  obtain ⟨_, -, h⟩ := bind_eq_ok.mp h
  obtain ⟨⟨having, _⟩, hhaving, h⟩ := bind_eq_ok.mp h
  obtain ⟨_, -, h⟩ := bind_eq_ok.mp h
  cases h
  refine ⟨commaSeparated_ne_nil hselect, fun t label ht => ?_, after_eq_ok hinner hselection, ?_,
    after_eq_ok hinner hhaving⟩
  · obtain ⟨us, vs, hread⟩ := commaSeparated_mem hselect _ ht
    exact selectItem_faithful hinner hread
  · have hread := after_eq_ok (fun us groups vs => grouping_faithful hinner) hgroups
    cases groups with
    | none =>
        rintro terms ⟨⟩ t ht
        cases ht
    | some groups => exact hread groups rfl

/-- A block that is all of a body is read as a block. -/
theorem block_of_body {fuel floor : Nat} {b : Block} (h : body inner fuel floor ts = .ok (.block b, rest)) :
    ∃ us vs, block inner us = .ok (b, vs) := by
  have hset : ∀ fuel start first us, setOperations inner fuel floor start first us = .ok (.block b, rest) →
      first = .block b := by
    intro fuel
    induction fuel with
    | zero =>
        intro start first us h
        cases h
        rfl
    | succ fuel ih =>
        intro start first us h
        rw [setOperations] at h
        split at h
        · cases h
          rfl
        · obtain ⟨_, -, h⟩ := bind_eq_ok.mp h
          cases ih _ _ _ h
  cases fuel with
  | zero => cases h
  | succ fuel =>
      rw [body] at h
      obtain ⟨⟨first, us⟩, hfirst, h⟩ := bind_eq_ok.mp h
      obtain rfl := hset _ _ _ _ h
      unfold simpleBody at hfirst
      split at hfirst
      · obtain ⟨⟨found, vs⟩, hfound, hfirst⟩ := bind_eq_ok.mp hfirst
        cases hfirst
        exact ⟨_, _, hfound⟩
      · obtain ⟨_, -, hfirst⟩ := bind_eq_ok.mp hfirst
        cases hfirst
      · obtain ⟨_, -, hfirst⟩ := bind_eq_ok.mp hfirst
        cases hfirst
      · obtain ⟨_, -, hfirst⟩ := bind_eq_ok.mp hfirst
        cases hfirst
      · cases hfirst

theorem orderTerms_faithful (hinner : Faithfully N inner.term) {orders : List (Term × Bool)}
    (h : orderTerms inner.term ts = .ok (orders, rest)) : ∀ o ∈ orders, o.1.Faithful N := by
  obtain ⟨⟨found, us⟩, hfound, h⟩ := bind_eq_ok.mp h
  cases h
  cases found with
  | none =>
      intro o ho
      cases ho
  | some orders =>
      intro o ho
      have hmembers := after_eq_ok (fun us xs vs hxs => commaSeparated_mem hxs) hfound orders rfl
      obtain ⟨us, vs, hread⟩ := hmembers o ho
      obtain ⟨⟨t, ws⟩, ht, hread⟩ := bind_eq_ok.mp hread
      cases hread
      exact hinner _ _ _ ht

/-- **Queries are read term by term.** -/
theorem query_faithful (hinner : Faithfully N inner.term) {source : QuerySource}
    (h : query inner ts = .ok (source, rest)) {b : Block} (hbody : source.body = .block b) :
    b.Faithful N ∧ ∀ o ∈ source.orderBy, o.1.Faithful N := by
  obtain ⟨us, -, h⟩ := bind_eq_ok.mp h
  dsimp only at h
  split at h
  · obtain ⟨⟨found, vs⟩, hfound, h⟩ := bind_eq_ok.mp h
    cases h
    obtain ⟨_, -, hfound⟩ := bind_eq_ok.mp hfound
    cases hfound
    cases hbody
  · obtain ⟨⟨found, vs⟩, hfound, h⟩ := bind_eq_ok.mp h
    obtain ⟨⟨orders, _⟩, horders, h⟩ := bind_eq_ok.mp h
    obtain ⟨_, -, h⟩ := bind_eq_ok.mp h
    obtain ⟨_, -, h⟩ := bind_eq_ok.mp h
    obtain ⟨_, -, h⟩ := bind_eq_ok.mp h
    cases h
    obtain rfl : found = .block b := hbody
    obtain ⟨us, vs, hblock⟩ := block_of_body hfound
    exact ⟨block_faithful hinner hblock, orderTerms_faithful hinner horders⟩

end Sql.Grammar

variable [Number N]

/-- What a clause is read from is written for its expressions. -/
theorem toItem_eq_ok {source : SelectSource} {item : SelectItem N} (h : source.toItem = .ok item) :
    ∃ t label, source = .term t label ∧ t.toExpr = .ok item.expr := by
  cases source with
  | refused text => cases h
  | term t label =>
      obtain ⟨e, he, h⟩ := bind_eq_ok.mp h
      cases h
      exact ⟨t, label, rfl, he⟩

/-- A limit is a constant that is no negative integer. -/
theorem limitOf_eq_ok {t : Term} {l : Literal N} (h : limitOf t = .ok l) :
    t.toExpr = .ok (Expr.literal l) ∧ ∃ i, l.value = .integer i ∧ 0 ≤ i.toInt := by
  obtain ⟨e, he, h⟩ := bind_eq_ok.mp h
  split at h
  · split at h
    · split at h
      · cases h
        exact ⟨he, _, ‹_›, ‹_›⟩
      · cases h
    · cases h
  · cases h

/-- The expressions of a query that was read say what they are. -/
theorem Query.exprs_faithful {source : QuerySource} {block : Block} {q : Query N}
    (clauses : WrittenFor source block q) (hblock : block.Faithful N)
    (horders : ∀ o ∈ source.orderBy, o.1.Faithful N) {e : Expr N} (he : e ∈ q.exprs)
    (hclear : e.isClear = true) : e.IsFaithful := by
  simp only [Query.exprs, List.mem_append, List.mem_map, Option.mem_toList] at he
  rcases he with (((⟨item, hitem, rfl⟩ | he) | he) | he) | ⟨item, hitem, rfl⟩
  · obtain ⟨source, hzip, hread⟩ := exists_element_of_mem clauses.select hitem
    obtain ⟨t, label, rfl, hexpr⟩ := toItem_eq_ok hread
    exact hblock.select t label (List.of_mem_zip hzip).1 _ hexpr hclear
  · obtain ⟨t, ht, hread⟩ := exists_of_mem_mapM clauses.selection he
    exact hblock.selection t ht e hread hclear
  · obtain ⟨terms, hterms, hread⟩ := clauses.groupBy
    obtain ⟨t, ht, hexpr⟩ := exists_term_of_mem_toExprs hread he
    exact hblock.groupBy terms hterms t ht e hexpr hclear
  · obtain ⟨t, ht, hread⟩ := exists_of_mem_mapM clauses.having he
    exact hblock.having t ht e hread hclear
  · obtain ⟨o, hzip, hread⟩ := exists_element_of_mem clauses.orderBy hitem
    obtain ⟨x, hx, hread⟩ := bind_eq_ok.mp hread
    cases hread
    exact horders o (List.of_mem_zip hzip).1 x hx hclear

/-- **Clear queries that are read say what they are.** -/
theorem Query.faithful_of_parse {text : String} {q : Query N} (h : Query.parse text = .ok q)
    (hclear : q.isClear = true) : q.IsFaithful := by
  obtain ⟨name, label, hrelations⟩ := relations_of_parse h
  obtain ⟨source, hsource, h⟩ := bind_eq_ok.mp h
  obtain ⟨ts, rest, hread⟩ := exists_tokens_of_readText hsource
  obtain ⟨block, clauses⟩ := writtenFor_of_toQuery h
  obtain ⟨hblock, horders⟩ := query_faithful (nested_faithfully (N := N) (levels - 1)) hread clauses.body
  simp only [isClear, Bool.and_eq_true, List.all_eq_true, Option.all_eq_true, decide_eq_true_iff,
    bne_iff_ne] at hclear
  obtain ⟨⟨⟨⟨⟨⟨hexprs, htables⟩, hlabels⟩, hselected⟩, hkeys⟩, hfirstKey⟩, hlimit⟩ := hclear
  have htable := htables _ (by rw [hrelations]; exact List.mem_cons_self)
  simp only [Relation.isClear, Bool.and_eq_true, Option.all_eq_true, decide_eq_true_iff] at htable
  refine ⟨fun e he => exprs_faithful clauses hblock horders he (hexprs e he), ?_, hlabels, hselected,
    ⟨name, label, hrelations, htable.1.1, htable.1.2, htable.2⟩, hkeys, hfirstKey, fun l hl => ?_⟩
  · intro hnil
    have hlength := (mapM_eq_ok.mp clauses.select).length_eq
    rw [hnil, List.length_nil, List.length_eq_zero_iff] at hlength
    exact hblock.selects hlength
  · obtain ⟨t, -, hread⟩ := exists_of_mem_mapM clauses.limit hl
    obtain ⟨hexpr, hinteger⟩ := limitOf_eq_ok hread
    have hwritten : l.IsWritten := toExpr_written t hexpr l (by simp)
    exact ⟨.literal hwritten (hlimit l hl), hinteger⟩

/-- **Rendered expressions and queries mean what they are.**  An expression or a query that was read from a text is
read again from the text it is written with, as the same tree, if it is clear and the text does not take
more levels than the grammar has. -/
theorem display_reread :
    (∀ (text : String) (e : Expr N), Expr.parse text = .ok e → e.isClear = true → e.nesting < levels →
      Expr.parse e.display = .ok e) ∧
    (∀ (text : String) (q : Query N), Query.parse text = .ok q → q.isClear = true → q.nesting < levels →
      Query.parse q.display = .ok q) := by
  constructor
  · intro text e h hclear hlevels
    exact (Expr.faithful_of_parse h hclear).parse_display hlevels
  · intro text q h hclear hlevels
    refine (Query.faithful_of_parse h hclear).parse_display fun e he => ?_
    have hlt := Query.nesting_lt_of_mem he
    omega

/-- An expression with a denied list, a denied range, signs and calls, and a query with all its clauses. -/
theorem display_reread_ranges :
    (∃ e : Expr Binary64,
      Expr.parse "a NOT IN (b, - c * 2) AND NOT x BETWEEN 1 AND SUM(+y) OR ROUND(z, 0.5) - -3 IS NOT NULL" = .ok e ∧
        e.isClear = true ∧ e.nesting < levels ∧ Expr.parse e.display = .ok e) ∧
    (∃ q : Query Binary64,
      Query.parse "select All x + 1 y, COUNT(*) from s.t u where u.x in ('a', 'it''s') group by x + 1
        having COUNT(*) > 2 order by y desc limit 5" = .ok q ∧
        q.isClear = true ∧ q.nesting < levels ∧ Query.parse q.display = .ok q) := by
  have hexpr : ((Expr.parse (N := Binary64)
      "a NOT IN (b, - c * 2) AND NOT x BETWEEN 1 AND SUM(+y) OR ROUND(z, 0.5) - -3 IS NOT NULL").toOption.map
        fun e => (e.isClear, decide (e.nesting < levels))) = some (true, true) := by
    decide +kernel
  have hquery : ((Query.parse (N := Binary64)
      "select All x + 1 y, COUNT(*) from s.t u where u.x in ('a', 'it''s') group by x + 1
        having COUNT(*) > 2 order by y desc limit 5").toOption.map
          fun q => (q.isClear, decide (q.nesting < levels))) = some (true, true) := by
    decide +kernel
  obtain ⟨e, he, hchecks⟩ := Option.map_eq_some_iff.mp hexpr
  obtain ⟨hclear, hlevels⟩ := Prod.ext_iff.mp hchecks
  obtain ⟨q, hq, hqchecks⟩ := Option.map_eq_some_iff.mp hquery
  obtain ⟨hqclear, hqlevels⟩ := Prod.ext_iff.mp hqchecks
  have hlevels := of_decide_eq_true hlevels
  have hqlevels := of_decide_eq_true hqlevels
  obtain ⟨hreread, hrereadQuery⟩ := display_reread (N := Binary64)
  exact ⟨⟨e, toOption_eq_some.mp he, hclear, hlevels, hreread _ e (toOption_eq_some.mp he) hclear hlevels⟩,
    ⟨q, toOption_eq_some.mp hq, hqclear, hqlevels,
      hrereadQuery _ q (toOption_eq_some.mp hq) hqclear hqlevels⟩⟩

/-- Expressions that are read from their texts as others, or not at all. -/
def misreadExprs : List String :=
  ["x NOT IN (1) = b", "x NOT IN (1) IS NULL", "x NOT BETWEEN 1 AND 2 + 3 = b", "x IN (a OR b, c)", "a = + any",
    "(+ select)", "ABS(+ all)", "SUM(ALL all)", "İx + 1", "seẞion_user"]

/-- Queries that are read from their texts as others, or not at all. -/
def misreadQueries : List String :=
  ["SELECT + all FROM t", "SELECT x FROM t GROUP BY + all", "SELECT x FROM t GROUP BY y, + cube",
    "SELECT x AS İ FROM t", "SELECT x FROM t İ"]

/-- **Texts that are misread.** -/
theorem display_misread :
    (∀ text ∈ misreadExprs, ∃ e : Expr Binary64, Expr.parse text = .ok e ∧
      ∀ e' : Expr Binary64, Expr.parse e.display = .ok e' → e'.same e = false) ∧
    (∀ text ∈ misreadQueries, ∃ q : Query Binary64, Query.parse text = .ok q ∧
      ∀ q' : Query Binary64, Query.parse q.display = .ok q' → q'.tree ≠ q.tree) := by
  have hexprs : ∀ text ∈ misreadExprs, ((Expr.parse (N := Binary64) text).toOption.map fun e =>
      (Expr.parse (N := Binary64) e.display).toOption.all fun e' => !e'.same e) = some true := by
    decide +kernel
  have hqueries : ∀ text ∈ misreadQueries, ((Query.parse (N := Binary64) text).toOption.map fun q =>
      (Query.parse (N := Binary64) q.display).toOption.all fun q' => decide (q'.tree ≠ q.tree)) = some true := by
    decide +kernel
  constructor
  · intro text htext
    obtain ⟨e, he, hall⟩ := Option.map_eq_some_iff.mp (hexprs text htext)
    refine ⟨e, toOption_eq_some.mp he, fun e' he' => ?_⟩
    rw [toOption_eq_some.mpr he'] at hall
    exact (Bool.not_eq_true' _).mp hall
  · intro text htext
    obtain ⟨q, hq, hall⟩ := Option.map_eq_some_iff.mp (hqueries text htext)
    refine ⟨q, toOption_eq_some.mp hq, fun q' hq' => ?_⟩
    rw [toOption_eq_some.mpr hq'] at hall
    exact of_decide_eq_true hall

end PrivateSql
