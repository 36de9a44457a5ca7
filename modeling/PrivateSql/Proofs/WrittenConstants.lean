import Mathlib.Data.List.TakeDrop
import PrivateSql.Sql.Reading
import PrivateSql.Proofs.QueryParts
/-!
# Constants as they are written

Expressions are compared by their trees, and a tree shows the text of a constant, not its value.  In a
query that was read from a text the one says the other: a number keeps the text it was read from,
and the other constants show themselves.  So in such a query equal trees are equal expressions.

* `Literal.IsWritten`, `Literal.eq_of_text` — a constant as it is written, told by its text;
* `Expr.Written`, `Expr.Written.eq_of_tree` — an expression of such constants, told by its tree;
* `Query.Written`, `Query.written_of_parse` — whatever is read from a text is made of them;
* `Query.Legible`, `Query.Legible.eq_of_tree` — a query whose constants are told by their texts, however
  it was made;
* `Query.relations_of_parse` — a query that is read from a text reads one table.
-/

namespace PrivateSql

variable {N : Type} [Number N]

/-! ## Constants and their texts -/

/-- What is read as a number begins with a digit or a point. -/
theorem numberLiteral_eq_error {text : String} {c : Char} {cs : List Char}
    (h : text.toList = c :: cs) (hdigit : c.isDigit = false) (hpoint : c ≠ '.') (l : Literal N) :
    Sql.numberLiteral text ≠ .ok l := by
  have hscan : Decimal.scan (c :: cs) = none := by
    simp [Decimal.scan, Decimal.takeDigits, List.span_eq_takeWhile_dropWhile, hdigit, hpoint]
  simp [Sql.numberLiteral, h, hdigit, Decimal.ofText?, hscan]

/-- Doubling the quotes of a text loses nothing. -/
theorem quoteSql_injective {s s' : String} (h : Value.quoteSql s = Value.quoteSql s') : s = s' := by
  have hinner : ∀ cs cs' : List Char,
      (cs.flatMap fun c => if c = '\'' then ['\'', '\''] else [c]) =
        (cs'.flatMap fun c => if c = '\'' then ['\'', '\''] else [c]) → cs = cs' := by
    intro cs
    induction cs with
    | nil =>
        intro cs' h
        cases cs' with
        | nil => rfl
        | cons c' cs' =>
            rw [List.flatMap_nil, List.flatMap_cons] at h
            split at h <;> cases h
    | cons c cs ih =>
        intro cs' h
        cases cs' with
        | nil =>
            rw [List.flatMap_nil, List.flatMap_cons] at h
            split at h <;> cases h
        | cons c' cs' =>
            rw [List.flatMap_cons, List.flatMap_cons] at h
            by_cases hc : c = '\''
            · by_cases hc' : c' = '\''
              · simp only [hc, hc', if_true, List.cons_append, List.nil_append, List.cons.injEq,
                  true_and] at h
                rw [hc, hc', ih cs' h]
              · simp [hc, hc', Ne.symm hc'] at h
            · by_cases hc' : c' = '\''
              · simp [hc, hc'] at h
              · simp only [hc, hc', if_false, List.cons_append, List.nil_append,
                  List.cons.injEq] at h
                rw [h.1, ih cs' h.2]
  have hlists := String.ofList_injective h
  rw [List.cons.injEq, List.append_cancel_right_eq] at hlists
  exact String.toList_injective (hinner _ _ hlists.2)

/-- The text of a value that is no number does not begin like one; it begins with a quote when the
value is a text. -/
theorem sql_head {v : Value N} (h : v.number? = none) :
    ∃ c cs, v.sql.toList = c :: cs ∧ c.isDigit = false ∧ c ≠ '.' ∧
      (c = '\'' ↔ ∃ s, v = .text s) := by
  have htrue : "TRUE".toList = ['T', 'R', 'U', 'E'] := by decide
  have hfalse : "FALSE".toList = ['F', 'A', 'L', 'S', 'E'] := by decide
  have hnull : "NULL".toList = ['N', 'U', 'L', 'L'] := by decide
  cases v with
  | null => exact ⟨_, _, hnull, by decide, by decide, by simp⟩
  | boolean b =>
      cases b with
      | true => exact ⟨_, _, htrue, by decide, by decide, by simp⟩
      | false => exact ⟨_, _, hfalse, by decide, by decide, by simp⟩
  | integer i => cases h
  | float x => cases h
  | text s => exact ⟨_, _, String.toList_ofList, by decide, by decide, by simp⟩

/-- Values that are no numbers are told by their texts. -/
theorem sql_injective {v v' : Value N} (hv : v.number? = none) (hv' : v'.number? = none)
    (h : v.sql = v'.sql) : v = v' := by
  obtain ⟨c, cs, hcs, -, -, hquote⟩ := sql_head hv
  obtain ⟨c', cs', hcs', -, -, hquote'⟩ := sql_head hv'
  have hhead : c = c' := by
    rw [h, hcs'] at hcs
    cases hcs
    rfl
  by_cases htext : ∃ s, v = .text s
  · obtain ⟨s', rfl⟩ := hquote'.mp (hhead ▸ hquote.mpr htext)
    obtain ⟨s, rfl⟩ := htext
    rw [quoteSql_injective h]
  · have htext' : ¬ ∃ s, v' = .text s := fun hs => htext (hquote.mp (hhead ▸ hquote'.mpr hs))
    cases v with
    | text s => exact absurd ⟨s, rfl⟩ htext
    | integer i => cases hv
    | float x => cases hv
    | null =>
        cases v' with
        | null => rfl
        | boolean b => cases b <;> simp [Value.sql] at h
        | text s => exact absurd ⟨s, rfl⟩ htext'
        | integer i => cases hv'
        | float x => cases hv'
    | boolean b =>
        cases v' with
        | null => cases b <;> simp [Value.sql] at h
        | boolean b' => cases b <;> cases b' <;> simp [Value.sql] at h ⊢
        | text s => exact absurd ⟨s, rfl⟩ htext'
        | integer i => cases hv'
        | float x => cases hv'

/-- A constant as it is written: a number is what its text is read as; `NULL`, truth values and texts
show themselves. -/
def Literal.IsWritten (l : Literal N) : Prop :=
  Sql.numberLiteral l.text = .ok l ∨ ∃ v, v.number? = none ∧ l = .ofValue v

/-- **Constants are told by their texts.** -/
theorem Literal.eq_of_text {l l' : Literal N} (h : l.IsWritten) (h' : l'.IsWritten)
    (htext : l.text = l'.text) : l = l' := by
  have hclash : ∀ {v : Value N} {l : Literal N}, v.number? = none →
      Sql.numberLiteral v.sql ≠ .ok l := by
    intro v l hv
    obtain ⟨c, cs, hcs, hdigit, hpoint, -⟩ := sql_head hv
    exact numberLiteral_eq_error hcs hdigit hpoint l
  rcases h with hnumber | ⟨v, hv, rfl⟩
  · rcases h' with hnumber' | ⟨v', hv', rfl⟩
    · rw [htext, hnumber'] at hnumber
      exact (Except.ok.inj hnumber).symm
    · rw [htext] at hnumber
      exact absurd hnumber (hclash hv')
  · rcases h' with hnumber' | ⟨v', hv', rfl⟩
    · rw [← htext] at hnumber'
      exact absurd hnumber' (hclash hv)
    · rw [sql_injective hv hv' htext]

/-! ## What is read from a text -/

/-- An expression whose constants are as they are written. -/
def Expr.Written (e : Expr N) : Prop := ∀ l ∈ e.constants, l.IsWritten

namespace Expr.Written

variable {e e' l r : Expr N}

/-- **Written expressions are told by their trees.** -/
theorem eq_of_tree (h : e.Written) (h' : e'.Written) (htree : e.tree = e'.tree) : e = e' :=
  tree_injective (fun _ _ => Literal.eq_of_text) h h' htree

theorem of_mem_subterms (h : e.Written) (hmem : e' ∈ e.subterms) : e'.Written :=
  fun l hl => h l (constants_subset hmem l hl)

theorem literal {l : Literal N} (h : l.IsWritten) : (Expr.literal l).Written := by
  intro l' hl'
  obtain rfl := List.mem_singleton.mp hl'
  exact h

theorem column (id : Identifier) : (Expr.column id : Expr N).Written := by
  intro l hl
  cases hl

theorem binary (hl : l.Written) (op : String) (hr : r.Written) : (Expr.binary l op r).Written := by
  intro c hc
  rw [constants_binary, List.mem_append] at hc
  exact hc.elim (hl c) (hr c)

theorem unary (op : String) (h : e.Written) : (Expr.unary op e).Written := h

theorem nested (h : e.Written) : (Expr.nested e).Written := h

theorem call (name : String) {args : List (Expr N)} (h : ∀ e ∈ args, e.Written) :
    (Expr.call name args).Written := by
  intro c hc
  rw [constants_call, List.mem_flatMap] at hc
  obtain ⟨e, he, hce⟩ := hc
  exact h e he c hce

end Expr.Written

namespace Sql

/-- A number keeps the text it is read from. -/
theorem text_of_numberLiteral {text : String} {l : Literal N} (h : numberLiteral text = .ok l) :
    l.text = text := by
  simp only [numberLiteral] at h
  split at h
  · cases h
    rfl
  · split at h
    · cases h
      rfl
    · cases h

theorem numberLiteral_isWritten {text : String} {l : Literal N} (h : numberLiteral text = .ok l) :
    l.IsWritten :=
  .inl (by rw [text_of_numberLiteral h, h])

theorem denyIf_written {e : Expr N} (negated : Bool) (h : e.Written) : (denyIf negated e).Written := by
  cases negated with
  | false => exact h
  | true => exact h.unary "NOT"

theorem oneOfExpr_written {e first : Expr N} {others : List (Expr N)} (he : e.Written)
    (hfirst : first.Written) (hothers : ∀ x ∈ others, x.Written) :
    (oneOfExpr e first others).Written := by
  have hfold : ∀ (others : List (Expr N)) (joined : Expr N), joined.Written →
      (∀ x ∈ others, x.Written) →
      (others.foldl (fun joined item => .binary joined "OR" (.binary e "=" item)) joined).Written := by
    intro others
    induction others with
    | nil => exact fun _ hjoined _ => hjoined
    | cons x others ih =>
        intro joined hjoined hall
        exact ih _ (hjoined.binary "OR" (he.binary "=" (hall x List.mem_cons_self)))
          fun y hy => hall y (List.mem_cons_of_mem _ hy)
  exact hfold others _ (he.binary "=" hfirst) hothers

omit [Number N] in
theorem some_mem_of_mapM_id {args : List (Option (Expr N))} {es : List (Expr N)}
    (h : args.mapM id = some es) : ∀ e ∈ es, some e ∈ args := by
  induction args generalizing es with
  | nil =>
      cases h
      simp
  | cons a args ih =>
      rw [List.mapM_cons] at h
      obtain ⟨x, hx, h⟩ := Option.bind_eq_some_iff.mp h
      obtain ⟨rest, hrest, h⟩ := Option.bind_eq_some_iff.mp h
      cases h
      cases hx
      intro e he
      rcases List.mem_cons.mp he with rfl | htail
      · exact List.mem_cons_self
      · exact List.mem_cons_of_mem _ (ih hrest e htail)

theorem callExpr_written {name source : String} {args : List (Option (Expr N))} {e : Expr N}
    (hargs : ∀ a, some a ∈ args → a.Written) (h : callExpr name source args = .ok e) : e.Written := by
  rw [callExpr.eq_def] at h
  cases hname : AggregateFunction.ofName? name with
  | some f =>
      simp only [hname] at h
      split at h
      · cases h
        intro l hl
        cases hl
      · rename_i a _
        cases h
        have hwritten := hargs a List.mem_cons_self
        exact hwritten
      · cases h
      · contradiction
  | none =>
      simp only [hname] at h
      split at h
      · split at h
        · rename_i es hes
          cases h
          exact .call _ fun e he => hargs e (some_mem_of_mapM_id hes e he)
        · cases h
      · cases h

mutual
theorem toExpr_written : ∀ (t : Term) {e : Expr N}, t.toExpr = .ok e → e.Written
  | .name ws, e, h => by
      cases h
      exact .column _
  | .number text long, e, h => by
      obtain ⟨l, hl, h⟩ := bind_eq_ok.mp h
      cases h
      exact .literal (numberLiteral_isWritten hl)
  | .string s, e, h => by
      cases h
      exact .literal (.inr ⟨.text s, rfl, rfl⟩)
  | .boolean b, e, h => by
      cases h
      exact .literal (.inr ⟨.boolean b, rfl, rfl⟩)
  | .null, e, h => by
      cases h
      exact .literal (.inr ⟨.null, rfl, rfl⟩)
  | .nested t, e, h => by
      obtain ⟨x, hx, h⟩ := bind_eq_ok.mp h
      cases h
      exact (toExpr_written t hx).nested
  | .unary op t, e, h => by
      obtain ⟨x, hx, h⟩ := bind_eq_ok.mp h
      have hwritten := toExpr_written t hx
      by_cases hplus : op = "+"
      · simp only [hplus, if_true] at h
        cases h
        exact hwritten
      · simp only [hplus, if_false] at h
        cases h
        exact hwritten.unary op
  | .binary l op r, e, h => by
      obtain ⟨x, hx, h⟩ := bind_eq_ok.mp h
      by_cases hop : op ∈ supportedOperators
      · simp only [hop, not_true_eq_false, if_false] at h
        obtain ⟨y, hy, h⟩ := bind_eq_ok.mp h
        cases h
        exact (toExpr_written l hx).binary op (toExpr_written r hy)
      · simp only [hop, not_false_eq_true, if_true] at h
        cases h
  | .isNull t negated, e, h => by
      obtain ⟨x, hx, h⟩ := bind_eq_ok.mp h
      cases h
      have hwritten := toExpr_written t hx
      exact hwritten
  | .between t negated low high, e, h => by
      obtain ⟨x, hx, h⟩ := bind_eq_ok.mp h
      obtain ⟨lo, hlo, h⟩ := bind_eq_ok.mp h
      obtain ⟨hi, hhi, h⟩ := bind_eq_ok.mp h
      cases h
      have hwritten := toExpr_written t hx
      have hbetween : (betweenExpr x lo hi).Written :=
        ((hwritten.binary ">=" (toExpr_written low hlo)).binary "AND"
          (hwritten.binary "<=" (toExpr_written high hhi))).nested
      exact denyIf_written negated hbetween
  | .inList t negated items, e, h => by
      obtain ⟨x, hx, h⟩ := bind_eq_ok.mp h
      obtain ⟨es, hes, h⟩ := bind_eq_ok.mp h
      have hitems := toExprs_written items hes
      cases es with
      | nil => cases h
      | cons first others =>
          cases h
          exact denyIf_written negated (oneOfExpr_written (toExpr_written t hx)
            (hitems first List.mem_cons_self) fun y hy => hitems y (List.mem_cons_of_mem _ hy))
  | .call f quantifier arguments clauses, e, h => by
      simp only [Term.toExpr] at h
      split at h
      · cases h
      · split at h
        · cases h
        · obtain ⟨args, hargs, h⟩ := bind_eq_ok.mp h
          exact callExpr_written (toArguments_written arguments hargs) h

theorem toExprs_written : ∀ (ts : List Term) {es : List (Expr N)}, Term.toExprs ts = .ok es →
    ∀ e ∈ es, e.Written
  | [], es, h => by
      cases h
      simp
  | t :: ts, es, h => by
      obtain ⟨e, he, h⟩ := bind_eq_ok.mp h
      obtain ⟨rest, hrest, h⟩ := bind_eq_ok.mp h
      cases h
      exact List.forall_mem_cons.mpr ⟨toExpr_written t he, toExprs_written ts hrest⟩

theorem toArgument_written : ∀ (a : Argument Term) {e : Expr N}, Term.toArgument a = .ok (some e) →
    e.Written
  | .term t, e, h => by
      obtain ⟨e', he', h⟩ := bind_eq_ok.mp h
      cases h
      exact toExpr_written t he'

theorem toArguments_written : ∀ (as : List (Argument Term)) {es : List (Option (Expr N))},
    Term.toArguments as = .ok es → ∀ e, some e ∈ es → e.Written
  | [], es, h => by
      cases h
      simp
  | a :: as, es, h => by
      obtain ⟨x, hx, h⟩ := bind_eq_ok.mp h
      obtain ⟨rest, hrest, h⟩ := bind_eq_ok.mp h
      cases h
      intro e he
      rcases List.mem_cons.mp he with rfl | htail
      · exact toArgument_written a hx
      · exact toArguments_written as hrest e htail
end

/-- The clauses of a query are those of a block, read one by one. -/
structure WrittenFor (source : QuerySource) (block : Block) (q : Query N) : Prop where
  body : source.body = .block block
  select : block.select.mapM SelectSource.toItem = .ok q.select
  table : ∃ (table : TableSource) (r : Relation (Query N)), table.toRelation = .ok r ∧ q.relations = [r]
  selection : block.selection.mapM Term.toExpr = .ok q.selection
  groupBy : ∃ terms, block.groupBy = some terms ∧ Term.toExprs terms = .ok q.groupBy
  having : block.having.mapM Term.toExpr = .ok q.having
  orderBy : source.orderBy.mapM orderItemOf = .ok q.orderBy
  limit : source.limit.mapM limitOf = .ok q.limit

/-- A query that is answered is written as a block. -/
theorem writtenFor_of_toQuery {source : QuerySource} {q : Query N} (h : source.toQuery = .ok q) :
    ∃ block, WrittenFor source block q := by
  simp only [QuerySource.toQuery] at h
  split at h
  · cases h
  · split at h
    · cases h
    · split at h
      · cases h
      · rename_i block hbody
        split at h
        · cases h
        · split at h
          · rename_i table _
            obtain ⟨relation, hrelation, h⟩ := bind_eq_ok.mp h
            split at h
            · rename_i terms hterms
              obtain ⟨groupBy, hgroupBy, h⟩ := bind_eq_ok.mp h
              obtain ⟨select, hselect, h⟩ := bind_eq_ok.mp h
              obtain ⟨selection, hselection, h⟩ := bind_eq_ok.mp h
              obtain ⟨having, hhaving, h⟩ := bind_eq_ok.mp h
              obtain ⟨orderBy, horderBy, h⟩ := bind_eq_ok.mp h
              obtain ⟨limit, hlimit, h⟩ := bind_eq_ok.mp h
              cases h
              exact ⟨block, hbody, hselect, ⟨table, relation, hrelation, rfl⟩, hselection,
                ⟨terms, hterms, hgroupBy⟩, hhaving, horderBy, hlimit⟩
            · cases h
          · cases h
          · cases h

theorem toItem_written {source : SelectSource} {item : SelectItem N}
    (h : source.toItem = .ok item) : item.expr.Written := by
  cases source with
  | refused text => cases h
  | term t label =>
      obtain ⟨e, he, h⟩ := bind_eq_ok.mp h
      cases h
      exact toExpr_written t he

theorem orderItemOf_written {source : Term × Bool} {item : OrderItem N}
    (h : orderItemOf source = .ok item) : item.expr.Written := by
  obtain ⟨e, he, h⟩ := bind_eq_ok.mp h
  cases h
  exact toExpr_written source.1 he

end Sql

omit [Number N] in
/-- What an optional clause holds is read from it. -/
theorem exists_of_mem_mapM {α β : Type} {f : α → Except QueryError β} {x : Option α} {y : Option β}
    (h : x.mapM f = .ok y) {b : β} (hb : b ∈ y) : ∃ a, x = some a ∧ f a = .ok b := by
  cases x with
  | none =>
      cases h
      cases hb
  | some a =>
      obtain ⟨c, hc, hsome⟩ := bind_eq_ok.mp h
      cases hsome
      cases hb
      exact ⟨a, rfl, hc⟩

/-- A query whose constants are as they are written. -/
structure Query.Written (q : Query N) : Prop where
  outputs : ∀ e ∈ q.outputExprs, e.Written
  keys : ∀ e ∈ q.groupBy, e.Written

namespace Query.Written

variable {q : Query N}

/-- What is inside an expression of a written query is written. -/
theorem of_mem_subterms (h : q.Written) {e t : Expr N} (he : e ∈ q.outputExprs)
    (ht : t ∈ e.subterms) : t.Written :=
  (h.outputs e he).of_mem_subterms ht

theorem aggregates (h : q.Written) {a : Expr N} (ha : a ∈ q.aggregates) : a.Written := by
  obtain ⟨e, he, hmem⟩ := exists_outputExpr_of_mem_aggregates ha
  exact h.of_mem_subterms he (List.mem_filter.mp hmem).1

end Query.Written

/-- The constants of a query. -/
def Query.constants (q : Query N) : List (Literal N) :=
  (q.outputExprs ++ q.groupBy).flatMap Expr.constants

/-- A query whose constants are told by their texts.  Any query can be built from constants that are
not, as a text may be given to each of them. -/
def Query.Legible (q : Query N) : Prop :=
  ∀ l ∈ q.constants, ∀ l' ∈ q.constants, l.text = l'.text → l = l'

instance : DecidableEq (Literal N) := fun l l' =>
  decidable_of_iff (l.value = l'.value ∧ l.text = l'.text) (by cases l; cases l'; simp)

instance (q : Query N) : Decidable q.Legible :=
  inferInstanceAs (Decidable (∀ l ∈ q.constants, ∀ l' ∈ q.constants, l.text = l'.text → l = l'))

theorem Query.Written.legible {q : Query N} (h : q.Written) : q.Legible := by
  have hconstants : ∀ l ∈ q.constants, l.IsWritten := by
    intro l hl
    obtain ⟨e, he, hmem⟩ := List.mem_flatMap.mp hl
    rcases List.mem_append.mp he with hout | hkey
    · exact h.outputs e hout l hmem
    · exact h.keys e hkey l hmem
  intro l hl l' hl' htext
  exact Literal.eq_of_text (hconstants l hl) (hconstants l' hl') htext

omit [Number N] in
/-- In a query whose constants are told by their texts, expressions are told by their trees. -/
theorem Query.Legible.eq_of_tree {q : Query N} (h : q.Legible) {e e' t t' : Expr N}
    (he : e ∈ q.outputExprs ++ q.groupBy) (ht : t ∈ e.subterms)
    (he' : e' ∈ q.outputExprs ++ q.groupBy) (ht' : t' ∈ e'.subterms) (htree : t.tree = t'.tree) :
    t = t' := by
  have hconstants : ∀ {e t : Expr N}, e ∈ q.outputExprs ++ q.groupBy → t ∈ e.subterms →
      ∀ l ∈ t.constants, l ∈ q.constants := by
    intro e t he ht l hl
    exact List.mem_flatMap.mpr ⟨e, he, Expr.constants_subset ht l hl⟩
  exact Expr.tree_injective (fun l l' hl hl' => h l hl l' hl') (hconstants he ht)
    (hconstants he' ht') htree

/-- **What is read is written.**  A query that is read from a text has its constants as they are
written there. -/
theorem Query.written_of_parse {text : String} {q : Query N} (h : Query.parse text = .ok q) :
    q.Written := by
  obtain ⟨source, -, h⟩ := bind_eq_ok.mp h
  obtain ⟨block, clauses⟩ := Sql.writtenFor_of_toQuery h
  obtain ⟨terms, -, hterms⟩ := clauses.groupBy
  refine ⟨fun e he => ?_, Sql.toExprs_written terms hterms⟩
  rw [outputExprs, List.mem_append, List.mem_append] at he
  rcases he with (he | he) | he
  · obtain ⟨item, hitem, rfl⟩ := List.mem_map.mp he
    obtain ⟨_, -, hread⟩ := exists_element_of_mem clauses.select hitem
    exact Sql.toItem_written hread
  · rw [Option.mem_toList] at he
    obtain ⟨t, -, hread⟩ := exists_of_mem_mapM clauses.having he
    exact Sql.toExpr_written t hread
  · obtain ⟨item, hitem, rfl⟩ := List.mem_map.mp he
    obtain ⟨_, -, hread⟩ := exists_element_of_mem clauses.orderBy hitem
    exact Sql.orderItemOf_written hread

/-- A query that is read from a text reads one table. -/
theorem Query.relations_of_parse {text : String} {q : Query N} (h : Query.parse text = .ok q) :
    ∃ name label, q.relations = [.table name label] := by
  obtain ⟨source, -, h⟩ := bind_eq_ok.mp h
  obtain ⟨_, clauses⟩ := Sql.writtenFor_of_toQuery h
  obtain ⟨table, r, hr, hrelations⟩ := clauses.table
  rw [hrelations]
  rw [Sql.TableSource.toRelation] at hr
  split at hr
  · cases hr
  · split at hr
    · cases hr
      exact ⟨_, _, rfl⟩
    · cases hr
    · cases hr

end PrivateSql
