import PrivateSql.Proofs.FaithfulQueries
import PrivateSql.Proofs.RereadExprs
/-!
# Clauses read from the tokens of queries

Each clause of a query ends where the next one that is written begins, so its terms are read up to there, and of the
clauses that are never written none is found on the way.

* `Begins` — what follows a clause;
* `after_condition`, `after_list` — a condition, and a list with commas;
* `selectItem_tokens`, `groupItem_tokens`, `orderTerm_tokens`, `tableSource_tokens`, `limits_tokens` — what
  the clauses are made of.
-/

namespace PrivateSql

open Sql Sql.Grammar

variable {N : Type}

/-- The word of a name that is given to something. -/
def Identifier.word (a : Identifier) : Word := ⟨a.text, none⟩

/-- What a selected expression is read as. -/
def SelectItem.source (item : SelectItem N) : SelectSource := .term item.expr.term (item.label.map Identifier.word)

namespace Expr.IsFaithful

variable [Number N]

/-- The second token of an expression that a name stands at the front of. -/
theorem second_token {e : Expr N} (h : e.IsFaithful) {rest : List Token} (hrest : MayFollow rest)
    (hfront : mark (e.tokens ++ rest) ∉ frontMarks) :
    ∀ t ∈ ((e.tokens ++ rest).drop 1).head?, t = .symbol "." ∨ t ∈ followTokens := by
  have hleaf {e : Expr N} (h : e.IsFaithful) (hlead : e.lead = "") (rest : List Token) :
      mark (e.tokens ++ rest) ∈ frontMarks := by
    rcases h.mark_tokens rest with heq | hmem
    · rw [heq, hlead]
      decide
    · exact hmem
  induction h generalizing rest with
  | @column id bare named =>
      obtain ⟨first, others, hparts⟩ := List.exists_cons_of_ne_nil id.parts_ne_nil
      rw [tokens, hparts]
      exact head_dotted (.inl rfl) fun t ht => .inr (hrest t ht)
  | binary known closes opens named left right ihl ihr =>
      rw [tokens, List.append_assoc] at hfront ⊢
      exact ihl (follows_operator known _) hfront
  | isNull closes operand ih =>
      rw [tokens, List.append_assoc] at hfront ⊢
      exact ih (follows_cons (by decide) _) hfront
  | literal written shown => exact absurd (hleaf (.literal written shown) rfl rest) hfront
  | unary known opens operand ih => exact absurd (hleaf (.unary known opens operand) rfl rest) hfront
  | nested named inner ih => exact absurd (hleaf (.nested named inner) rfl rest) hfront
  | call known named arguments ih => exact absurd (hleaf (.call known named arguments) rfl rest) hfront
  | aggregate named argument ih => exact absurd (hleaf (.aggregate named argument) rfl rest) hfront
  | count => exact absurd (hleaf .count rfl rest) hfront

end Expr.IsFaithful

namespace Sql.Grammar

/-! ## Ends of clauses -/

/-- The keywords that the clauses behind a table begin with, in their order. -/
def clauseWords : List String := ["WHERE", "GROUP", "HAVING", "ORDER", "LIMIT"]

/-- Nothing follows, or one of these keywords does. -/
def Begins (ks : List String) (ts : List Token) : Prop := ∀ t ∈ ts.head?, t ∈ ks.map bareWord

/-- The keywords that end an expression. -/
def endWords : List String := ["FROM", "AS", "ASC", "DESC"] ++ clauseWords

theorem ends_word {k : String} (hk : k ∈ endWords) (ts : List Token) : Ends (bareWord k :: ts) := by
  have hwords : ∀ k ∈ endWords, bareWord k ∈ followTokens ∧ Text.toUpper k ∉ operatorWords ∧
      negatablePrecedence (Text.toUpper k) = 0 := by decide
  obtain ⟨hfollows, hplain, hprecedence⟩ := hwords k hk
  exact ends_cons hfollows ((precedence_word (w := ⟨k, none⟩) ts hplain).trans hprecedence)

namespace Begins

variable {ks : List String} {ts : List Token}

theorem nil (ks : List String) : Begins ks [] := by
  rintro t ⟨⟩

theorem cons {k : String} (hk : k ∈ ks) (ts : List Token) : Begins ks (bareWord k :: ts) := by
  rintro t ⟨⟩
  exact List.mem_map_of_mem hk

theorem mono {ks' : List String} (h : Begins ks ts) (hks : ks ⊆ ks') : Begins ks' ts := by
  intro t ht
  obtain ⟨k, hk, rfl⟩ := List.mem_map.mp (h t ht)
  exact List.mem_map_of_mem (hks hk)

theorem ends (h : Begins ks ts) (hks : ks ⊆ endWords) : Ends ts := by
  cases ts with
  | nil => exact ⟨follows_nil, rfl⟩
  | cons t ts =>
      obtain ⟨k, hk, rfl⟩ := List.mem_map.mp (h t rfl)
      exact ends_word (hks hk) ts

/-- Any other keyword or sign does not follow. -/
theorem mark_mem (h : Begins ks ts) (hks : ks ⊆ endWords) : mark ts ∈ "" :: ks := by
  have hupper : ∀ k ∈ endWords, Text.toUpper k = k := by decide
  cases ts with
  | nil => exact List.mem_cons_self
  | cons t ts =>
      obtain ⟨k, hk, rfl⟩ := List.mem_map.mp (h t rfl)
      rw [mark_bareWord, hupper k (hks hk)]
      exact List.mem_cons_of_mem _ hk

theorem mark_ne (h : Begins ks ts) {m : String} (hm : ks ⊆ endWords ∧ m ∉ "" :: ks) : mark ts ≠ m :=
  ne_of_mem_of_not_mem (h.mark_mem hm.1) hm.2

theorem head_ne (h : Begins ks ts) (s : String) : ts.head? ≠ some (.symbol s) := by
  intro heq
  obtain ⟨k, -, hk⟩ := List.mem_map.mp (h _ heq)
  cases hk

/-- A condition, if there is one, before what follows it. -/
theorem condition {k : String} (h : Begins ks ts) (e : Option (Expr N)) :
    Begins (k :: ks) (conditionTokens k e ++ ts) := by
  cases e with
  | none => exact h.mono (List.subset_cons_self _ _)
  | some e => exact cons List.mem_cons_self _

/-- A list, if it has members, before what follows it. -/
theorem list {k : String} (h : Begins ks ts) (tss : List (List Token)) :
    Begins (k :: ks) (listTokens k tss ++ ts) := by
  cases tss with
  | nil => exact h.mono (List.subset_cons_self _ _)
  | cons us tss => exact cons List.mem_cons_self _

/-- A name, if one is given, before what follows it. -/
theorem label (h : Begins ks ts) (a : Option Identifier) : Begins ("AS" :: ks) (labelTokens a ++ ts) := by
  cases a with
  | none => exact h.mono (List.subset_cons_self _ _)
  | some a => exact cons List.mem_cons_self _

end Begins

theorem begins_limit (l : Option (Literal N)) : Begins ["LIMIT"] (limitTokens l) := by
  cases l with
  | none => exact .nil _
  | some l => exact .cons List.mem_cons_self _

/-! ## Clauses -/

variable {inner : Nested} {levels : Nat}

/-- A condition, if there is one. -/
theorem after_condition [Number N] (hinner : ReadsBelow N inner levels) {k : String} (hk : Text.toUpper k = k)
    {e : Option (Expr N)} (he : ∀ x ∈ e, x.IsFaithful ∧ x.nesting < levels) {rest : List Token}
    (hrest : Ends rest) (hmark : mark rest ≠ k) :
    after [k] inner.term (conditionTokens k e ++ rest) = .ok (e.map Expr.term, rest) := by
  cases e with
  | none => exact after_eq_none hmark
  | some e =>
      obtain ⟨hfaithful, hlevels⟩ := he e rfl
      have hskip : skip? [k] (bareWord k :: (e.tokens ++ rest)) = some (e.tokens ++ rest) := by
        simp [skip?, hk]
      rw [conditionTokens, List.cons_append, after, hskip]
      simp only [hinner e hfaithful hlevels rest hrest, ok_bind]
      rfl

/-- A list, if it has members. -/
theorem after_list {α : Type} {k : String} (hk : Text.toUpper k = k) {tss : List (List Token)} {piece : Piece α}
    {found : α} {rest : List Token} (hread : tss ≠ [] → piece (commaTokens tss ++ rest) = .ok (found, rest))
    (hmark : mark rest ≠ k) :
    after [k, "BY"] piece (listTokens k tss ++ rest) =
      .ok (if tss.isEmpty then none else some found, rest) := by
  cases tss with
  | nil => exact after_eq_none hmark
  | cons ts tss =>
      have hby : Text.toUpper "BY" = "BY" := by decide
      have hskip : skip? [k, "BY"] (bareWord k :: bareWord "BY" :: (commaTokens (ts :: tss) ++ rest)) =
          some (commaTokens (ts :: tss) ++ rest) := by
        simp [skip?, hk, hby]
      change after [k, "BY"] piece (bareWord k :: bareWord "BY" :: (commaTokens (ts :: tss) ++ rest)) = _
      rw [after, hskip]
      simp only [hread (List.cons_ne_nil _ _), ok_bind]
      rfl

/-- A name, if one is given. -/
theorem aliasWord_label {reserved : List String} {label : Option Identifier} {rest : List Token}
    (hrest : aliasWord reserved rest = .ok (none, rest)) :
    aliasWord reserved (labelTokens label ++ rest) = .ok (label.map Identifier.word, rest) := by
  cases label with
  | none => exact hrest
  | some a =>
      have has : Text.toUpper "AS" = "AS" := by decide
      have hskip : skip? ["AS"] (bareWord "AS" :: bareWord a.text :: rest) = some (bareWord a.text :: rest) := by
        simp [skip?, has]
      change aliasWord reserved (bareWord "AS" :: bareWord a.text :: rest) = _
      unfold aliasWord
      rw [hskip]
      rfl

theorem aliasWord_comma (reserved : List String) (ts : List Token) :
    aliasWord reserved (.symbol "," :: ts) = .ok (none, .symbol "," :: ts) := rfl

theorem aliasWord_keyword {reserved : List String} {k : String} (hk : Text.toUpper k ∈ reserved)
    (has : Text.toUpper k ≠ "AS") (ts : List Token) :
    aliasWord reserved (bareWord k :: ts) = .ok (none, bareWord k :: ts) := by
  have hskip : skip? ["AS"] (bareWord k :: ts) = none := skip?_eq_none has
  unfold aliasWord
  rw [hskip]
  exact if_pos hk

variable [Number N]

/-- A selected expression with its name. -/
theorem selectItem_tokens (hinner : ReadsBelow N inner levels) {item : SelectItem N}
    (h : item.expr.IsFaithful) (hlevels : item.expr.nesting < levels) {rest : List Token}
    (hrest : (∃ tail, rest = bareWord "FROM" :: tail) ∨ ∃ tail, rest = .symbol "," :: tail) :
    selectItem inner (item.tokens ++ rest) = .ok (SelectItem.source item, rest) := by
  have halias : aliasWord reservedAfterTerm (labelTokens item.label ++ rest) =
      .ok (item.label.map Identifier.word, rest) := by
    refine aliasWord_label ?_
    rcases hrest with ⟨tail, rfl⟩ | ⟨tail, rfl⟩
    · exact aliasWord_keyword (by decide) (by decide) tail
    · exact aliasWord_comma _ tail
  have hends : Ends (labelTokens item.label ++ rest) := by
    cases item.label with
    | some a => exact ends_word (by decide) _
    | none =>
        rcases hrest with ⟨tail, rfl⟩ | ⟨tail, rfl⟩
        · exact ends_word (by decide) tail
        · exact ends_cons (by decide) rfl
  have hterm : starOr inner.term (item.expr.tokens ++ (labelTokens item.label ++ rest)) =
      .ok (.term item.expr.term, labelTokens item.label ++ rest) := by
    rw [(h.isOrdinary hends.follows inner.term).1, hinner _ h hlevels _ hends]
    rfl
  rw [SelectItem.tokens, List.append_assoc, selectItem, hterm]
  simp only [ok_bind, halias]
  rfl

/-- An expression that the rows are grouped by. -/
theorem groupItem_tokens (hinner : ReadsBelow N inner levels) {e : Expr N} (h : e.IsFaithful)
    (hlevels : e.nesting < levels) (hkey : e.lead ∉ Query.keyStarters) {rest : List Token}
    (hrest : Ends rest) : groupItem inner (e.tokens ++ rest) = .ok (e.term, rest) := by
  have hsets : skip? ["GROUPING", "SETS"] (e.tokens ++ rest) = none := by
    have hmarks : ∀ t ∈ .symbol "." :: followTokens, mark [t] ≠ "SETS" := by decide
    rw [skip?]
    split
    · rename_i hgrouping
      have hsecond := h.second_token hrest.follows (by rw [hgrouping]; decide)
      have hnext : mark ((e.tokens ++ rest).drop 1) ∉ ["SETS"] :=
        mark_not_mem (by decide) fun t ht hmem =>
          hmarks t (List.mem_cons.mpr (hsecond t ht)) (List.mem_singleton.mp hmem)
      exact skip?_eq_none fun heq => hnext (List.mem_singleton.mpr heq)
    · rfl
  have hcube : mark (e.tokens ++ rest) ≠ "CUBE" :=
    h.mark_ne (fun heq => hkey (by rw [heq]; decide)) (by decide) rest
  have hrollup : mark (e.tokens ++ rest) ≠ "ROLLUP" :=
    h.mark_ne (fun heq => hkey (by rw [heq]; decide)) (by decide) rest
  rw [groupItem, hsets]
  dsimp only
  rw [if_neg (by simp [hcube, hrollup]), hinner e h hlevels rest hrest]

/-- An expression that the rows are ordered by. -/
theorem orderTerm_tokens (hinner : ReadsBelow N inner levels) {item : OrderItem N}
    (h : item.expr.IsFaithful) (hlevels : item.expr.nesting < levels) {rest : List Token}
    (hrest : mark rest ≠ "NULLS") :
    orderTerm inner.term (item.tokens ++ rest) = .ok ((item.expr.term, !item.ascending), rest) := by
  obtain ⟨e, ascending⟩ := item
  have hasc : Text.toUpper "ASC" = "ASC" := by decide
  have hdesc : Text.toUpper "DESC" = "DESC" := by decide
  have hwords : orderWords (bareWord (if ascending then "ASC" else "DESC") :: rest) = rest := by
    have hnulls (m : String) : skip? ["NULLS", m] rest = none := skip?_eq_none hrest
    cases ascending <;> simp [orderWords, skipOneOf, hasc, hdesc, hnulls]
  have hterm := hinner e h hlevels (bareWord (if ascending then "ASC" else "DESC") :: rest)
    (ends_word (by cases ascending <;> decide) rest)
  rw [OrderItem.tokens, List.append_assoc, List.cons_append, List.nil_append, orderTerm, hterm]
  simp only [ok_bind, hwords, mark_bareWord]
  cases ascending <;> simp [hasc, hdesc] <;> rfl

/-- The number of rows, if one is given. -/
theorem limits_tokens (hinner : ReadsBelow N inner levels) {limit : Option (Literal N)}
    (h : ∀ l ∈ limit, (Expr.literal l).IsFaithful ∧ (∃ i, l.value = .integer i)) (hlevels : 0 < levels) :
    limits inner 2 (none, false) (limitTokens limit) = .ok ((limit.map Literal.term, false), []) := by
  cases limit with
  | none => rfl
  | some l =>
      obtain ⟨hfaithful, i, hvalue⟩ := h l rfl
      have hterm := hinner (.literal l) hfaithful hlevels [] ⟨follows_nil, rfl⟩
      have hlimit : after ["LIMIT"] (limitTerm inner) (limitTokens (some l)) = .ok (some (some l.term), []) := by
        have hword : Text.toUpper "LIMIT" = "LIMIT" := by decide
        have hskip : skip? ["LIMIT"] (limitTokens (some l)) = some [l.token] := by
          simp [limitTokens, skip?, hword]
        have hall : skip? ["ALL"] [l.token] = none := by
          rw [Literal.token, hvalue]
          rfl
        change inner.term [l.token] = .ok (l.term, []) at hterm
        have hread : limitTerm inner [l.token] = .ok (some l.term, []) := by
          unfold limitTerm
          rw [hall, hterm]
          rfl
        rw [after, hskip]
        simp only [hread, ok_bind]
        rfl
      rw [limits]
      simp only [Option.isNone_none, if_true, hlimit, ok_bind]
      rfl

/-! ## Tables -/

omit [Number N] in
theorem aliasWord_clause {ts : List Token} (h : Begins clauseWords ts) :
    aliasWord reservedAfterTable ts = .ok (none, ts) := by
  have hreserved : ∀ k ∈ clauseWords, Text.toUpper k ∈ reservedAfterTable ∧ Text.toUpper k ≠ "AS" := by
    decide
  cases ts with
  | nil => rfl
  | cons t ts =>
      obtain ⟨k, hk, rfl⟩ := List.mem_map.mp (h t rfl)
      obtain ⟨hmem, has⟩ := hreserved k hk
      exact aliasWord_keyword hmem has ts

omit [Number N] in
/-- The name of a table goes without names of its columns. -/
theorem tableAlias_tokens {label : Option Identifier} {rest : List Token} (hrest : Begins clauseWords rest) :
    tableAlias (labelTokens label ++ rest) = .ok (label.map Identifier.word, rest) := by
  have hopen : mark rest ≠ "(" := hrest.mark_ne (by decide)
  rw [tableAlias, aliasWord_label (aliasWord_clause hrest), ok_bind]
  cases label with
  | none => rfl
  | some a =>
      have hcolumns : whenEnclosed [listOf (passed word)] rest = .ok rest := whenFirst_eq hopen
      simp only [Option.map_some, hcolumns, ok_bind]
      rfl

omit [Number N] in
theorem dottedName_tokens {parts : List String} (hsome : parts ≠ []) {rest : List Token}
    (hrest : mark rest ≠ ".") : dottedName (dottedTokens parts ++ rest) = .ok (bareWords parts, rest) := by
  obtain ⟨first, others, rfl⟩ := List.exists_cons_of_ne_nil hsome
  change dottedName (bareWord first :: (others.flatMap (fun part => [.symbol ".", bareWord part]) ++ rest)) = _
  have hmore := moreWords_tokens hrest
    (Eq.refl (others.flatMap (fun part => [.symbol ".", bareWord part]) ++ rest))
  rw [dottedName]
  simp only [word, bareWord, ok_bind] at hmore ⊢
  rw [hmore]
  rfl

/-- Nothing that is read from is turned. -/
theorem turnedTable_stop {f : TableFactor} {ts : List Token} (h : Begins clauseWords ts) (fuel : Nat) :
    turnedTable inner fuel f ts = .ok (f, ts) := by
  have hnone : turning? inner ts = none := by
    unfold turning?
    split
    · exact absurd ‹mark ts = "PIVOT"› (h.mark_ne (by decide))
    · exact absurd ‹mark ts = "UNPIVOT"› (h.mark_ne (by decide))
    · exact absurd ‹mark ts = "MATCH_RECOGNIZE"› (h.mark_ne (by decide))
    · rfl
  cases fuel with
  | zero => rfl
  | succ fuel => rw [turnedTable, hnone]

/-- Nothing is joined to it. -/
theorem joins_stop {factor : Piece TableFactor} {ts : List Token} (h : Begins clauseWords ts) (fuel : Nat) :
    joins inner factor fuel ts = .ok (false, ts) := by
  have hnatural : mark ts ≠ "NATURAL" := h.mark_ne (by decide)
  have hnone : joinWords ts = .ok none := by
    unfold joinWords
    dsimp only
    split
    · exact absurd ‹mark ts = "JOIN"› (h.mark_ne (by decide))
    · exact absurd ‹mark ts = "INNER"› (h.mark_ne (by decide))
    · exact absurd ‹mark ts = "LEFT"› (h.mark_ne (by decide))
    · exact absurd ‹mark ts = "RIGHT"› (h.mark_ne (by decide))
    · exact absurd ‹mark ts = "FULL"› (h.mark_ne (by decide))
    · exact absurd ‹mark ts = "CROSS"› (h.mark_ne (by decide))
    · exact absurd ‹mark ts = "OUTER"› (h.mark_ne (by decide))
    · rfl
  cases fuel with
  | zero => rfl
  | succ fuel =>
      rw [joins, if_neg hnatural, hnone]
      rfl

/-- A table by its name. -/
theorem namedTable_tokens {name : Identifier} {label : Option Identifier} {rest : List Token}
    (hrest : Begins clauseWords rest) :
    namedTable inner (dottedTokens name.parts ++ (labelTokens label ++ rest)) =
      .ok (.table (bareWords name.parts) (label.map Identifier.word), rest) := by
  have htail := hrest.label label
  have hdot : mark (labelTokens label ++ rest) ≠ "." := htail.mark_ne (by decide)
  have hpartition : mark (labelTokens label ++ rest) ≠ "PARTITION" := htail.mark_ne (by decide)
  have hopen : mark (labelTokens label ++ rest) ≠ "(" := htail.mark_ne (by decide)
  have hwith : mark rest ≠ "WITH" := hrest.mark_ne (by decide)
  rw [namedTable, dottedName_tokens name.parts_ne_nil hdot, ok_bind]
  have hhints : tableHints inner rest = .ok rest := by
    unfold tableHints
    rw [skip?_eq_none hwith]
  simp only [whenFirst_eq hpartition, whenFirst_eq hopen, tableAlias_tokens hrest, ok_bind, hopen, hhints]
  exact turnedTable_stop hrest _

omit [Number N] in
/-- A table that nothing is joined to. -/
theorem tableSource_tokens (inner : Nested) {name : Identifier} (label : Option Identifier) (fuel : Nat)
    (hnamed : name.lead ∉ Query.tableStarters) {rest : List Token} (hrest : Begins clauseWords rest) :
    ∃ source, tableSource inner (tableFactor inner (fuel + 1))
      (Relation.tokens (.table name label : Relation (Query N)) ++ rest) =
        .ok (⟨.table (bareWords name.parts) (label.map Identifier.word), false, source⟩, rest) := by
  obtain ⟨first, others, hparts⟩ := List.exists_cons_of_ne_nil name.parts_ne_nil
  generalize htail : others.flatMap (fun part => [.symbol ".", bareWord part]) ++
    (labelTokens label ++ rest) = tail
  have hts : Relation.tokens (.table name label : Relation (Query N)) ++ rest = bareWord first :: tail := by
    rw [Relation.tokens, hparts, List.append_assoc, ← htail]
    rfl
  have hopen : tail.head? ≠ some (.symbol "(") := by
    have hclause := (hrest.label label).head_ne "("
    rw [← htail]
    intro heq
    exact head_dotted (p := (· ≠ .symbol "(")) (by decide) (fun t ht h => hclause (h ▸ ht)) _ heq rfl
  have hword : wordTable inner (bareWord first :: tail) = namedTable inner (bareWord first :: tail) := by
    rw [Identifier.lead, hparts, List.headD_cons] at hnamed
    have hne : ∀ m ∈ Query.tableStarters, Text.toUpper first ≠ m := by
      rintro m hm heq
      exact hnamed (heq ▸ hm)
    unfold wordTable
    split
    · exact absurd ‹mark (bareWord first :: tail) = "LATERAL"› (hne _ (by decide))
    · exact absurd ‹mark (bareWord first :: tail) = "LATERAL"› (hne _ (by decide))
    · exact absurd ‹mark (bareWord first :: tail) = "TABLE"› (hne _ (by decide))
    · exact absurd ‹mark (bareWord first :: tail) = "VALUES"› (hne _ (by decide))
    · exact absurd ‹mark (bareWord first :: tail) = "UNNEST"› (hne _ (by decide))
    · rename_i heq
      exact absurd (show tail.head? = some (.symbol "(") from congrArg List.head? heq) hopen
    · rfl
  have hfactor : tableFactor inner (fuel + 1) (bareWord first :: tail) =
      .ok (.table (bareWords name.parts) (label.map Identifier.word), rest) := by
    have hstart : bareWord first :: tail = dottedTokens name.parts ++ (labelTokens label ++ rest) := by
      rw [← List.append_assoc, ← hts, Relation.tokens]
    change wordTable inner (bareWord first :: tail) = _
    rw [hword, hstart, namedTable_tokens hrest]
  refine ⟨sourceBetween (bareWord first :: tail) rest, ?_⟩
  rw [hts, tableSource, hfactor]
  simp only [ok_bind, joins_stop hrest]
  rfl

end Sql.Grammar

end PrivateSql
