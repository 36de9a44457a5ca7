import PrivateSql.Proofs.FaithfulTexts
/-!
# Queries that their texts stand for

A query is written clause by clause, each with its keyword before it.  Beside what is asked of its expressions,
no name in it may stand where the grammar takes it for a keyword of the clause: at the front of what is
selected, of the keys, or of the table that is read.

* `Query.tokens` — the tokens that a query is written with;
* `Query.IsFaithful` — a query whose text is read as it is meant;
* `Query.IsFaithful.spells` — its text is scanned as its tokens.
-/

namespace PrivateSql

open Sql

variable {N : Type}

/-! ## The tokens of a query -/

/-- Is an identifier one bare word in lower case? -/
def Identifier.isWord (id : Identifier) : Bool :=
  isBareWord id.text.toList && Text.toLower id.text == id.text

/-- The tokens of a name that is given to something. -/
def labelTokens : Option Identifier → List Token
  | some a => [bareWord "AS", bareWord a.text]
  | none => []

def SelectItem.tokens (item : SelectItem N) : List Token := item.expr.tokens ++ labelTokens item.label

def OrderItem.tokens (item : OrderItem N) : List Token :=
  item.expr.tokens ++ [bareWord (if item.ascending then "ASC" else "DESC")]

/-- The tokens of a table. A query in its place is never read, so its tokens are not asked for. -/
def Relation.tokens {Q : Type} : Relation Q → List Token
  | .table name label => dottedTokens name.parts ++ labelTokens label
  | .derived _ _ => []

/-- The tokens of a condition, if there is one, with its keyword. -/
def conditionTokens (k : String) : Option (Expr N) → List Token
  | some e => bareWord k :: e.tokens
  | none => []

/-- The tokens of a list, if it has members, with its two keywords. -/
def listTokens (k : String) (tss : List (List Token)) : List Token :=
  if tss.isEmpty then [] else bareWord k :: bareWord "BY" :: commaTokens tss

def limitTokens : Option (Literal N) → List Token
  | some l => [bareWord "LIMIT", l.token]
  | none => []

namespace Query

/-- The tokens of the clauses that follow the table. -/
def clauseTokens (q : Query N) : List Token :=
  conditionTokens "WHERE" q.selection ++ (listTokens "GROUP" (q.groupBy.map Expr.tokens) ++
    (conditionTokens "HAVING" q.having ++ (listTokens "ORDER" (q.orderBy.map OrderItem.tokens) ++
      limitTokens q.limit)))

/-- The tokens that a query is written with. -/
def tokens (q : Query N) : List Token :=
  bareWord "SELECT" :: (commaTokens (q.select.map SelectItem.tokens) ++
    bareWord "FROM" :: (commaTokens (q.relations.map Relation.tokens) ++ q.clauseTokens))

/-- All the expressions of a query. -/
def exprs (q : Query N) : List (Expr N) :=
  q.select.map (·.expr) ++ q.selection.toList ++ q.groupBy ++ q.having.toList ++ q.orderBy.map (·.expr)

/-- The words that are no names at the front of what is selected. -/
def selectStarters : List String := ["ALL", "DISTINCT", "TOP"]

/-- The words that are no names at the front of a table. -/
def tableStarters : List String := ["LATERAL", "TABLE", "VALUES", "UNNEST"]

/-- The words that are no names at the front of a key. -/
def keyStarters : List String := ["CUBE", "ROLLUP"]

/-- A query whose text is read as it is meant. -/
structure IsFaithful [Number N] (q : Query N) : Prop where
  exprs : ∀ e ∈ q.exprs, e.IsFaithful
  selects : q.select ≠ []
  labels : ∀ item ∈ q.select, ∀ a ∈ item.label, a.isWord = true
  selected : ∀ item ∈ q.select.head?, item.expr.lead ∉ selectStarters
  table : ∃ name label, q.relations = [.table name label] ∧ name.isBare = true ∧
    name.lead ∉ tableStarters ∧ ∀ a ∈ label, a.isWord = true
  keys : ∀ e ∈ q.groupBy, e.lead ∉ keyStarters
  firstKey : ∀ e ∈ q.groupBy.head?, e.lead ≠ "ALL"
  limit : ∀ l ∈ q.limit, (Expr.literal l).IsFaithful ∧ ∃ i, l.value = .integer i ∧ 0 ≤ i.toInt

end Query

/-! ## The text of a query -/

/-- Some pieces are cut into these tokens, one after the other. -/
def SpellsAll (cs : List Tree) (ts : List Token) : Prop :=
  ∃ tss, List.Forall₂ (fun c us => Spells c.render us) cs tss ∧ ts = tss.flatten

namespace SpellsAll

theorem nil : SpellsAll [] [] := ⟨[], .nil, rfl⟩

theorem cons {c : Tree} {cs : List Tree} {us ts : List Token} (hc : Spells c.render us)
    (h : SpellsAll cs ts) : SpellsAll (c :: cs) (us ++ ts) := by
  obtain ⟨tss, hall, rfl⟩ := h
  exact ⟨us :: tss, .cons hc hall, rfl⟩

theorem one {c : Tree} {us : List Token} (hc : Spells c.render us) : SpellsAll [c] us := by
  simpa using cons hc nil

theorem append {cs cs' : List Tree} {ts ts' : List Token} (h : SpellsAll cs ts) (h' : SpellsAll cs' ts') :
    SpellsAll (cs ++ cs') (ts ++ ts') := by
  obtain ⟨tss, hall, rfl⟩ := h
  obtain ⟨tss', hall', rfl⟩ := h'
  exact ⟨tss ++ tss', List.rel_append hall hall', by rw [List.flatten_append]⟩

theorem branch {k : Kind} {cs : List Tree} {ts : List Token} (hk : Tree.separator k = " ")
    (h : SpellsAll cs ts) : Spells (Tree.render (.branch k cs)) ts := by
  obtain ⟨tss, hall, rfl⟩ := h
  exact spells_branch hk hall

end SpellsAll

/-- The keywords that queries are written with. -/
def clauseKeywords : List String :=
  ["SELECT", "FROM", "AS", "ASC", "DESC", "WHERE", "GROUP", "BY", "HAVING", "ORDER", "LIMIT"]

theorem spells_keyword {k : String} (h : k ∈ clauseKeywords) : Spells k [bareWord k] := by
  have hbare : ∀ k ∈ clauseKeywords, isBareWord k.toList = true := by decide
  exact spells_word (hbare k h)

/-- Two pieces with a blank between them. -/
theorem spells_blank {s s' : String} {ts ts' : List Token} (h : Spells s ts) (h' : Spells s' ts') :
    Spells (s ++ " " ++ s') (ts ++ ts') := by
  intro after rest hafter hscans
  rw [String.toList_append, String.toList_append, List.append_assoc, List.append_assoc, List.append_assoc]
  exact h _ _ (by rintro c ⟨⟩; decide) (h' after rest hafter hscans).blank

theorem spells_label (label : Option Identifier) : (∀ a ∈ label, a.isWord = true) →
    SpellsAll (match label with
      | some a => [.leaf .token "AS", .leaf .identifier a.text]
      | none => []) (labelTokens label) := by
  intro h
  cases label with
  | none => exact .nil
  | some a =>
      have hbare : isBareWord a.text.toList = true := (Bool.and_eq_true_iff.mp (h a rfl)).1
      exact .cons (spells_leaf (spells_keyword (by decide))) (.one (spells_leaf (spells_word hbare)))

variable [Number N]

theorem SelectItem.spells {item : SelectItem N} (h : item.expr.IsFaithful)
    (hlabel : ∀ a ∈ item.label, a.isWord = true) : Spells item.tree.render item.tokens := by
  have hall := SpellsAll.cons h.spells (spells_label item.label hlabel)
  obtain ⟨e, label⟩ := item
  cases label with
  | none => exact SpellsAll.branch rfl hall
  | some a => exact SpellsAll.branch rfl hall

theorem OrderItem.spells {item : OrderItem N} (h : item.expr.IsFaithful) :
    Spells item.tree.render item.tokens := by
  refine SpellsAll.branch rfl (.cons h.spells (.one (spells_leaf (spells_keyword ?_))))
  cases item.ascending <;> decide

theorem spells_condition {k : String} (hk : k ∈ clauseKeywords) (condition : Option (Expr N)) :
    (∀ e ∈ condition, e.IsFaithful) → SpellsAll (match condition with
      | some e => [.leaf .token k, e.tree]
      | none => []) (conditionTokens k condition) := by
  intro h
  cases condition with
  | none => exact .nil
  | some e => exact .cons (spells_leaf (spells_keyword hk)) (.one (h e rfl).spells)

omit [Number N] in
theorem spells_list {α : Type} {k : String} (hk : k ∈ clauseKeywords) (members : List α) {tree : α → Tree}
    {tokens : α → List Token} (h : ∀ a ∈ members, Spells (tree a).render (tokens a) ∧ tokens a ≠ []) :
    SpellsAll (if members.isEmpty then [] else [.leaf .token (k ++ " BY"), .branch .sequence (members.map tree)])
      (listTokens k (members.map tokens)) := by
  cases members with
  | nil => exact .nil
  | cons a members =>
      have hsequence : Spells (Tree.render (.branch .sequence ((a :: members).map tree)))
          (commaTokens ((a :: members).map tokens)) := by
        refine spells_sequence ?_ fun ts hts => ?_
        · rw [List.forall₂_map_left_iff, List.forall₂_map_right_iff, List.forall₂_same]
          exact fun b hb => (h b hb).1
        · obtain ⟨b, hb, rfl⟩ := List.mem_map.mp hts
          exact (h b hb).2
      have hwords : Spells (k ++ " BY") ([bareWord k] ++ [bareWord "BY"]) := by
        have hboth := spells_blank (spells_keyword hk) (spells_keyword (k := "BY") (by decide))
        rwa [String.append_assoc] at hboth
      exact .cons (spells_leaf hwords) (.one hsequence)

omit [Number N] in
theorem spells_table {name : Identifier} {label : Option Identifier} (hname : name.isBare = true)
    (hlabel : ∀ a ∈ label, a.isWord = true) :
    Spells (Query.relationTree (N := N) (.table name label)).render
      (Relation.tokens (.table name label : Relation (Query N))) := by
  have hparts : ∀ part ∈ name.parts, isBareWord part.toList = true := fun part hpart =>
    (Bool.and_eq_true_iff.mp (List.all_eq_true.mp hname part hpart)).1
  have hall := SpellsAll.cons (spells_leaf (k := .identifier) (spells_identifier hparts))
    (spells_label label hlabel)
  cases label with
  | none => exact SpellsAll.branch rfl hall
  | some a => exact SpellsAll.branch rfl hall

omit [Number N] in
theorem Query.tree_eq (q : Query N) : q.tree = .branch .query
    (.leaf .token "SELECT" :: .branch .sequence (q.select.map SelectItem.tree) :: .leaf .token "FROM" ::
      .branch .sequence (relationTrees q.relations) ::
        clauseTrees q.selection q.groupBy q.having q.orderBy q.limit) := by
  cases q
  rw [tree]

theorem spells_clauses {q : Query N} (h : q.IsFaithful) :
    SpellsAll (Query.clauseTrees q.selection q.groupBy q.having q.orderBy q.limit) q.clauseTokens := by
  have hexprs := h.exprs
  simp only [Query.exprs, List.forall_mem_append, List.forall_mem_map, Option.mem_toList] at hexprs
  obtain ⟨⟨⟨⟨-, hselection⟩, hgroupBy⟩, hhaving⟩, horderBy⟩ := hexprs
  have hlimit : SpellsAll (match q.limit with
      | some l => [.leaf .token "LIMIT", .leaf .literal l.text]
      | none => []) (limitTokens q.limit) := by
    have hlimits := h.limit
    generalize q.limit = limit at hlimits
    cases limit with
    | none => exact .nil
    | some l =>
        obtain ⟨hliteral, -⟩ := hlimits l rfl
        cases hliteral with
        | literal written shown =>
            exact .cons (spells_leaf (spells_keyword (by decide)))
              (.one (spells_leaf (Literal.spells written shown)))
  have hkeys := spells_list (k := "GROUP") (by decide) q.groupBy
    fun e he => ⟨(hgroupBy e he).spells, e.tokens_ne_nil⟩
  have horders := spells_list (k := "ORDER") (by decide) q.orderBy
    fun item hitem => ⟨OrderItem.spells (horderBy item hitem), by simp [OrderItem.tokens]⟩
  rw [Query.clauseTrees.eq_def, Expr.trees_eq_map, List.append_assoc, List.append_assoc, List.append_assoc]
  exact (spells_condition (by decide) q.selection hselection).append (hkeys.append
    ((spells_condition (by decide) q.having hhaving).append (horders.append hlimit)))

/-- **Texts of queries are scanned as their tokens.** -/
theorem Query.IsFaithful.spells {q : Query N} (h : q.IsFaithful) : Spells q.display q.tokens := by
  have hexprs : ∀ item ∈ q.select, item.expr.IsFaithful := fun item hitem =>
    h.exprs _ (by simp only [Query.exprs, List.mem_append, List.mem_map]; exact .inl (.inl (.inl (.inl ⟨item, hitem, rfl⟩))))
  obtain ⟨name, label, hrelations, hname, -, hlabel⟩ := h.table
  have hitems : Spells (Tree.render (.branch .sequence (q.select.map SelectItem.tree)))
      (commaTokens (q.select.map SelectItem.tokens)) := by
    refine spells_sequence ?_ ?_
    · rw [List.forall₂_map_left_iff, List.forall₂_map_right_iff, List.forall₂_same]
      exact fun item hitem => SelectItem.spells (hexprs item hitem) (h.labels item hitem)
    · simp [SelectItem.tokens, Expr.tokens_ne_nil]
  have htables : Spells (Tree.render (.branch .sequence (Query.relationTrees q.relations)))
      (commaTokens (q.relations.map Relation.tokens)) := by
    rw [hrelations]
    refine spells_sequence (.cons (spells_table hname hlabel) .nil) ?_
    obtain ⟨first, others, hparts⟩ := List.exists_cons_of_ne_nil name.parts_ne_nil
    simp [Relation.tokens, hparts, dottedTokens]
  have hkeyword {s : String} (hs : s ∈ clauseKeywords) :
      Spells (Tree.render (.leaf .token s)) [bareWord s] := spells_leaf (spells_keyword hs)
  have hall := SpellsAll.cons (hkeyword (s := "SELECT") (by decide)) (.cons hitems
    (.cons (hkeyword (s := "FROM") (by decide)) (.cons htables (spells_clauses h))))
  rw [Query.display, Query.tree_eq]
  exact SpellsAll.branch rfl hall

end PrivateSql
