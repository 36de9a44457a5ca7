import PrivateSql.Proofs.ExprStructure
import PrivateSql.Query.Binding
/-!
# What replacements leave

A private query is rewritten by replacements: keys and aggregates give way to columns.  The facts
here say which replacement is found for an expression, and what an expression still reads once
everything that has one value for a group was replaced.

* `Substitution.find?_insert`, `Substitution.find?_insertNew`, `Substitution.find?_insertMany` — the
  replacement of an expression;
* `Expr.Reads` — an expression without aggregates, whose columns are all allowed;
* `Expr.reads_replace` — expressions read, once their aggregates are replaced, what they read before;
* `Query.reads_replace` — expressions accepted by the grouping check read, once replaced, what the
  replacements read, and the outputs that they name.
-/

namespace PrivateSql

variable {N : Type}

namespace Substitution

/-- Replacements do not tell two expressions with one tree apart. -/
theorem find?_congr (s : Substitution N) {e e' : Expr N} (h : e.tree = e'.tree) :
    s.find? e = s.find? e' := by
  have hsame : ∀ p : Expr N × Expr N, p.1.same e = p.1.same e' := by
    intro p
    rw [Bool.eq_iff_iff, Expr.same_iff, Expr.same_iff, h]
  simp only [find?, hsame]

@[simp] theorem find?_empty (e : Expr N) : (empty : Substitution N).find? e = none := rfl

/-- The last replacement of an expression counts. -/
theorem find?_insert (s : Substitution N) (e r e' : Expr N) :
    (s.insert e r).find? e' = if e.same e' then some r else s.find? e' := by
  by_cases h : e.same e'
  · simp [find?, insert, h]
  · simp [find?, insert, h]

/-- A new replacement counts only where there was none. -/
theorem find?_insertNew (s : Substitution N) (e r e' : Expr N) :
    (s.insertNew e r).find? e' = (s.find? e').or (if e.same e' then some r else none) := by
  cases hfound : s.find? e with
  | some r' =>
      have hkept : s.insertNew e r = s := by simp [insertNew, hfound]
      rw [hkept]
      by_cases h : e.same e'
      · rw [← s.find?_congr (Expr.same_iff.mp h), hfound]
        rfl
      · simp [h]
  | none =>
      have hinsert : s.insertNew e r = s.insert e r := by simp [insertNew, hfound]
      rw [hinsert, find?_insert]
      by_cases h : e.same e'
      · rw [← s.find?_congr (Expr.same_iff.mp h), hfound]
        simp [h]
      · simp [h]

/-- The replacements of a list, put one after the other. -/
def insertMany (s : Substitution N) (l : List (Expr N × Expr N)) : Substitution N :=
  l.foldl (fun s p => s.insert p.1 p.2) s

/-- A replacement that is found comes from the list, or was there before. -/
theorem find?_insertMany {s : Substitution N} {l : List (Expr N × Expr N)} {e r : Expr N}
    (h : (s.insertMany l).find? e = some r) :
    (∃ p ∈ l, p.1.tree = e.tree ∧ p.2 = r) ∨ s.find? e = some r := by
  induction l generalizing s with
  | nil => exact .inr h
  | cons p l ih =>
      rcases ih h with ⟨p', hp', hfound⟩ | hbefore
      · exact .inl ⟨p', List.mem_cons_of_mem _ hp', hfound⟩
      · rw [find?_insert] at hbefore
        by_cases hsame : p.1.same e
        · rw [if_pos hsame, Option.some.injEq] at hbefore
          exact .inl ⟨p, List.mem_cons_self, Expr.same_iff.mp hsame, hbefore⟩
        · rw [if_neg hsame] at hbefore
          exact .inr hbefore

/-- Replacements put later hide none. -/
theorem isSome_find?_insertMany_of_isSome {s : Substitution N} {l : List (Expr N × Expr N)}
    {e : Expr N} (h : (s.find? e).isSome) : ((s.insertMany l).find? e).isSome := by
  induction l generalizing s with
  | nil => exact h
  | cons p l ih =>
      refine ih ?_
      rw [find?_insert]
      by_cases hsame : p.1.same e
      · simp [hsame]
      · simpa [hsame] using h

/-- Every expression of the list has a replacement. -/
theorem isSome_find?_insertMany {s : Substitution N} {l : List (Expr N × Expr N)} {e : Expr N}
    {p : Expr N × Expr N} (hp : p ∈ l) (h : p.1.tree = e.tree) :
    ((s.insertMany l).find? e).isSome := by
  induction l generalizing s with
  | nil => cases hp
  | cons p' l ih =>
      rcases List.mem_cons.mp hp with rfl | htail
      · have hlast : ((s.insert p.1 p.2).find? e).isSome := by
          simp [find?_insert, Expr.same_iff.mpr h]
        have hkept := isSome_find?_insertMany_of_isSome (l := l) hlast
        exact hkept
      · exact ih htail

end Substitution

namespace Expr

/-- An expression that is replaced gives way to its replacement. -/
theorem replace_of_some {s : Substitution N} {e r : Expr N} (h : s.find? e = some r) :
    e.replace s = r := by
  cases e <;> simp only [replace, h]

/-- An expression in which nothing is replaced stays as it is. -/
theorem replace_eq_self {s : Substitution N} {e : Expr N}
    (h : ∀ t ∈ e.subterms, s.find? t = none) : e.replace s = e := by
  induction e using induct with
  | literal l | column id | aggregateRows f =>
      simp only [replace, h _ (mem_subterms_self _)]
  | unary op e ih | nested e ih | isNull e negated ih | aggregate f e ih =>
      simp only [replace, h _ (mem_subterms_self _)]
      rw [ih fun t ht => h t (List.mem_cons_of_mem _ ht)]
  | binary l op r ihl ihr =>
      simp only [replace, h _ (mem_subterms_self _)]
      rw [ihl fun t ht => h t (mem_subterms_left ht), ihr fun t ht => h t (mem_subterms_right ht)]
  | call name args ih =>
      have hargs : args.map (replace s) = args := by
        have hid : args.map (replace s) = args.map id := by
          exact List.map_congr_left fun e he => ih e he fun t ht => h t (mem_subterms_argument he ht)
        rwa [List.map_id] at hid
      simp only [replace, h _ (mem_subterms_self _), replaceAll_eq_map, hargs]

/-- Without replacements an expression stays as it is. -/
theorem replace_empty (e : Expr N) : e.replace Substitution.empty = e :=
  replace_eq_self fun _ _ => rfl

/-- An expression without aggregates, whose columns are all allowed. -/
structure Reads (allowed : Identifier → Prop) (e : Expr N) : Prop where
  noAggregate : e.aggregates = []
  allowedColumns : ∀ c ∈ e.columns, allowed c

variable {allowed : Identifier → Prop}

/-- Reading fewer columns. -/
theorem Reads.mono {allowed' : Identifier → Prop} {e : Expr N} (h : e.Reads allowed)
    (himp : ∀ c, allowed c → allowed' c) : e.Reads allowed' :=
  ⟨h.noAggregate, fun c hc => himp c (h.allowedColumns c hc)⟩

theorem reads_literal (l : Literal N) : (literal l).Reads allowed := ⟨rfl, by simp⟩

theorem reads_column {id : Identifier} (h : allowed id) : (column id : Expr N).Reads allowed :=
  ⟨rfl, by simpa using h⟩

theorem Reads.unary {e : Expr N} {op : String} (h : e.Reads allowed) :
    (Expr.unary op e).Reads allowed :=
  ⟨h.noAggregate, h.allowedColumns⟩

theorem Reads.nested {e : Expr N} (h : e.Reads allowed) : (Expr.nested e).Reads allowed :=
  ⟨h.noAggregate, h.allowedColumns⟩

theorem Reads.isNull {e : Expr N} {negated : Bool} (h : e.Reads allowed) :
    (Expr.isNull e negated).Reads allowed :=
  ⟨h.noAggregate, h.allowedColumns⟩

theorem Reads.binary {l r : Expr N} {op : String} (hl : l.Reads allowed) (hr : r.Reads allowed) :
    (Expr.binary l op r).Reads allowed := by
  refine ⟨by simp [hl.noAggregate, hr.noAggregate], ?_⟩
  intro c hc
  rw [columns_binary, List.mem_append] at hc
  exact hc.elim (hl.allowedColumns c) (hr.allowedColumns c)

theorem Reads.call {name : String} {args : List (Expr N)} (h : ∀ e ∈ args, e.Reads allowed) :
    (Expr.call name args).Reads allowed := by
  constructor
  · rw [aggregates_call, List.flatMap_eq_nil_iff]
    intro e he
    exact (h e he).noAggregate
  · intro c hc
    rw [columns_call, List.mem_flatMap] at hc
    obtain ⟨e, he, hce⟩ := hc
    exact (h e he).allowedColumns c hce

/-- **What is left of the columns.**  Let every aggregate inside an expression have a replacement, and
let the expression and the replacements read allowed columns only.  Then so does the expression once
replaced, and it has no aggregate. -/
theorem reads_replace {s : Substitution N} {e : Expr N} (hcolumns : ∀ c ∈ e.columns, allowed c)
    (haggregates : ∀ t ∈ e.aggregates, (s.find? t).isSome)
    (hreplacements : ∀ t r, s.find? t = some r → r.Reads allowed) : (e.replace s).Reads allowed := by
  induction e using inductUntil (fun e => s.find? e = none) with
  | stopped e hfound =>
      obtain ⟨r, hr⟩ := Option.ne_none_iff_exists'.mp hfound
      rw [replace_of_some hr]
      exact hreplacements e r hr
  | literal l hnone =>
      simp only [replace, hnone]
      exact reads_literal l
  | column id hnone =>
      simp only [replace, hnone]
      exact reads_column (hcolumns id (by simp))
  | unary op e hnone ih =>
      simp only [replace, hnone]
      exact (ih hcolumns haggregates).unary
  | binary l op r hnone ihl ihr =>
      rw [columns_binary] at hcolumns
      rw [aggregates_binary] at haggregates
      simp only [replace, hnone]
      refine Reads.binary ?_ ?_
      · exact ihl (fun c hc => hcolumns c (List.mem_append_left _ hc))
          fun t ht => haggregates t (List.mem_append_left _ ht)
      · exact ihr (fun c hc => hcolumns c (List.mem_append_right _ hc))
          fun t ht => haggregates t (List.mem_append_right _ ht)
  | nested e hnone ih =>
      simp only [replace, hnone]
      exact (ih hcolumns haggregates).nested
  | isNull e negated hnone ih =>
      simp only [replace, hnone]
      exact (ih hcolumns haggregates).isNull
  | call name args hnone ih =>
      rw [columns_call] at hcolumns
      rw [aggregates_call] at haggregates
      simp only [replace, hnone, replaceAll_eq_map]
      refine Reads.call ?_
      intro e' he'
      obtain ⟨e, he, rfl⟩ := List.mem_map.mp he'
      exact ih e he (fun c hc => hcolumns c (List.mem_flatMap.mpr ⟨e, he, hc⟩))
        fun t ht => haggregates t (List.mem_flatMap.mpr ⟨e, he, ht⟩)
  | aggregate f e hnone ih =>
      have hsome := haggregates _ List.mem_cons_self
      simp [hnone] at hsome
  | aggregateRows f hnone =>
      have hsome := haggregates _ List.mem_cons_self
      simp [hnone] at hsome

end Expr

namespace Query

variable {q : Query N} {scope : Scope N} {outputs : List String}

/-- Some expressions have one value for a group when each of them has. -/
theorem areGrouped_iff {es : List (Expr N)} :
    areGrouped q scope outputs es = true ↔ ∀ e ∈ es, isGrouped q scope outputs e = true := by
  induction es with
  | nil => simp [areGrouped]
  | cons e es ih => simp [areGrouped, ih]

/-- **What is left after replacing.**  Let every key and every aggregate inside an expression have a
replacement, and let the replacements read allowed columns only.  If the grouping check accepts the
expression, then once replaced it has no aggregate, and the columns that it reads are allowed or name
an output. -/
theorem reads_replace {allowed : Identifier → Prop} {s : Substitution N} {e : Expr N}
    (hgrouped : isGrouped q scope outputs e = true)
    (hkeys : ∀ t ∈ e.subterms, (q.groupKey? scope t).isSome → (s.find? t).isSome)
    (haggregates : ∀ t ∈ e.aggregates, (s.find? t).isSome)
    (hreplacements : ∀ t r, s.find? t = some r → r.Reads allowed) :
    (e.replace s).Reads fun c => allowed c ∨ isOutput outputs c = true := by
  -- What has no replacement is no key.
  have hnoKey : ∀ t, s.find? t = none → ((q.groupKey? scope t).isSome → (s.find? t).isSome) →
      (q.groupKey? scope t).isSome = false := by
    intro t hnone hcovered
    rw [Bool.eq_false_iff]
    intro hkey
    have hsome := hcovered hkey
    simp [hnone] at hsome
  induction e using Expr.inductUntil (fun e => s.find? e = none) with
  | stopped e hfound =>
      obtain ⟨r, hr⟩ := Option.ne_none_iff_exists'.mp hfound
      rw [Expr.replace_of_some hr]
      exact (hreplacements e r hr).mono fun c => Or.inl
  | literal l hnone =>
      simp only [Expr.replace, hnone]
      exact Expr.reads_literal l
  | column id hnone =>
      have hkey := hnoKey _ hnone (hkeys _ (Expr.mem_subterms_self _))
      simp only [Expr.replace, hnone]
      refine Expr.reads_column (Or.inr ?_)
      simpa [isGrouped, hkey] using hgrouped
  | unary op e hnone ih =>
      have hkey := hnoKey _ hnone (hkeys _ (Expr.mem_subterms_self _))
      simp only [isGrouped, hkey, Bool.false_or] at hgrouped
      simp only [Expr.replace, hnone]
      exact (ih hgrouped (fun t ht => hkeys t (List.mem_cons_of_mem _ ht)) haggregates).unary
  | binary l op r hnone ihl ihr =>
      have hkey := hnoKey _ hnone (hkeys _ (Expr.mem_subterms_self _))
      simp only [isGrouped, hkey, Bool.false_or, Bool.and_eq_true] at hgrouped
      rw [Expr.aggregates_binary] at haggregates
      simp only [Expr.replace, hnone]
      refine Expr.Reads.binary ?_ ?_
      · exact ihl hgrouped.1 (fun t ht => hkeys t (Expr.mem_subterms_left ht))
          fun t ht => haggregates t (List.mem_append_left _ ht)
      · exact ihr hgrouped.2 (fun t ht => hkeys t (Expr.mem_subterms_right ht))
          fun t ht => haggregates t (List.mem_append_right _ ht)
  | nested e hnone ih =>
      have hkey := hnoKey _ hnone (hkeys _ (Expr.mem_subterms_self _))
      simp only [isGrouped, hkey, Bool.false_or] at hgrouped
      simp only [Expr.replace, hnone]
      exact (ih hgrouped (fun t ht => hkeys t (List.mem_cons_of_mem _ ht)) haggregates).nested
  | isNull e negated hnone ih =>
      have hkey := hnoKey _ hnone (hkeys _ (Expr.mem_subterms_self _))
      simp only [isGrouped, hkey, Bool.false_or] at hgrouped
      simp only [Expr.replace, hnone]
      exact (ih hgrouped (fun t ht => hkeys t (List.mem_cons_of_mem _ ht)) haggregates).isNull
  | call name args hnone ih =>
      have hkey := hnoKey _ hnone (hkeys _ (Expr.mem_subterms_self _))
      simp only [isGrouped, hkey, Bool.false_or] at hgrouped
      rw [Expr.aggregates_call] at haggregates
      simp only [Expr.replace, hnone, Expr.replaceAll_eq_map]
      refine Expr.Reads.call ?_
      intro e' he'
      obtain ⟨e, he, rfl⟩ := List.mem_map.mp he'
      exact ih e he (areGrouped_iff.mp hgrouped e he)
        (fun t ht => hkeys t (Expr.mem_subterms_argument he ht))
        fun t ht => haggregates t (List.mem_flatMap.mpr ⟨e, he, ht⟩)
  | aggregate f e hnone ih =>
      have hsome := haggregates _ List.mem_cons_self
      simp [hnone] at hsome
  | aggregateRows f hnone =>
      have hsome := haggregates _ List.mem_cons_self
      simp [hnone] at hsome

/-- Without keys, and with literals for the aggregates, only outputs are left. -/
theorem reads_replace_of_no_keys {s : Substitution N} {e : Expr N} (hnoKeys : q.groupBy = [])
    (hgrouped : isGrouped q scope outputs e = true)
    (haggregates : ∀ t ∈ e.aggregates, (s.find? t).isSome)
    (hreplacements : ∀ t r, s.find? t = some r → r.Reads fun _ => False) :
    (e.replace s).Reads fun c => isOutput outputs c = true := by
  have hkeys : ∀ t ∈ e.subterms, (q.groupKey? scope t).isSome → (s.find? t).isSome :=
    fun t _ hkey => by simp [groupKey?, hnoKeys] at hkey
  have hreads := reads_replace hgrouped hkeys haggregates hreplacements
  exact hreads.mono fun c hc => hc.resolve_left id

end Query

end PrivateSql
