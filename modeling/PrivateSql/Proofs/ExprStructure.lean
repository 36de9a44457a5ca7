import Mathlib.Data.List.Forall2
import PrivateSql.Expr.Evaluation
import PrivateSql.Expr.Substitution
/-!
# The structure of expressions

An expression is a tree whose calls have lists of arguments, so the functions on expressions come in
pairs: one for an expression, one for a list.  Here each function on lists is read as the library
operation it is, the searches inside an expression are computed constructor by constructor, and one
induction principle serves all the proofs on expressions.

* `induct` — induction on an expression, where the arguments of a call are all available;
* `columns_*`, `aggregates_*` — what a search finds in each kind of expression;
* `tree_injective` — two expressions with one tree are the same expression, as soon as the texts of
  their constants say which constants they are.
-/

namespace PrivateSql.Expr

variable {N : Type}

/-- **Induction on expressions.**  The arguments of a call are treated as a list: what is to be
proved may be used of each of them. -/
theorem induct {P : Expr N → Prop}
    (literal : ∀ l, P (.literal l))
    (column : ∀ id, P (.column id))
    (unary : ∀ op e, P e → P (.unary op e))
    (binary : ∀ l op r, P l → P r → P (.binary l op r))
    (nested : ∀ e, P e → P (.nested e))
    (isNull : ∀ e negated, P e → P (.isNull e negated))
    (call : ∀ name args, (∀ e ∈ args, P e) → P (.call name args))
    (aggregate : ∀ f e, P e → P (.aggregate f e))
    (aggregateRows : ∀ f, P (.aggregateRows f)) (e : Expr N) : P e := by
  refine Expr.rec (motive_1 := P) (motive_2 := fun es => ∀ e ∈ es, P e)
    literal column unary binary nested isNull call aggregate aggregateRows ?_ ?_ e
  · intro e he
    cases he
  · intro e es he hes e' he'
    rcases List.mem_cons.mp he' with rfl | htail
    · exact he
    · exact hes e' htail

/-- **Induction up to a search.**  An expression that is not kept is settled as a whole, whatever is
inside it; one that is kept is taken apart. -/
theorem inductUntil (kept : Expr N → Prop) {P : Expr N → Prop}
    (stopped : ∀ e, ¬ kept e → P e)
    (literal : ∀ l, kept (.literal l) → P (.literal l))
    (column : ∀ id, kept (.column id) → P (.column id))
    (unary : ∀ op e, kept (.unary op e) → P e → P (.unary op e))
    (binary : ∀ l op r, kept (.binary l op r) → P l → P r → P (.binary l op r))
    (nested : ∀ e, kept (.nested e) → P e → P (.nested e))
    (isNull : ∀ e negated, kept (.isNull e negated) → P e → P (.isNull e negated))
    (call : ∀ name args, kept (.call name args) → (∀ e ∈ args, P e) → P (.call name args))
    (aggregate : ∀ f e, kept (.aggregate f e) → P e → P (.aggregate f e))
    (aggregateRows : ∀ f, kept (.aggregateRows f) → P (.aggregateRows f)) (e : Expr N) : P e := by
  have hsettled : ∀ e, (kept e → P e) → P e := fun e h => (Classical.em (kept e)).elim h (stopped e)
  induction e using induct with
  | literal l => exact hsettled _ (literal l)
  | column id => exact hsettled _ (column id)
  | unary op e ih => exact hsettled _ fun h => unary op e h ih
  | binary l op r ihl ihr => exact hsettled _ fun h => binary l op r h ihl ihr
  | nested e ih => exact hsettled _ fun h => nested e h ih
  | isNull e negated ih => exact hsettled _ fun h => isNull e negated h ih
  | call name args ih => exact hsettled _ fun h => call name args h ih
  | aggregate f e ih => exact hsettled _ fun h => aggregate f e h ih
  | aggregateRows f => exact hsettled _ (aggregateRows f)

/-! ## Lists of expressions -/

theorem trees_eq_map (es : List (Expr N)) : trees es = es.map tree := by
  induction es with
  | nil => rfl
  | cons e es ih => simp [trees, ih]

theorem subtermsAll_eq_flatMap (es : List (Expr N)) : subtermsAll es = es.flatMap subterms := by
  induction es with
  | nil => rfl
  | cons e es ih => simp [subtermsAll, ih]

theorem mem_subterms_left {l r t : Expr N} {op : String} (h : t ∈ l.subterms) :
    t ∈ (binary l op r).subterms :=
  List.mem_cons_of_mem _ (List.mem_append_left _ h)

theorem mem_subterms_right {l r t : Expr N} {op : String} (h : t ∈ r.subterms) :
    t ∈ (binary l op r).subterms :=
  List.mem_cons_of_mem _ (List.mem_append_right _ h)

theorem mem_subterms_argument {e t : Expr N} {name : String} {args : List (Expr N)} (he : e ∈ args)
    (h : t ∈ e.subterms) : t ∈ (call name args).subterms := by
  rw [subterms, subtermsAll_eq_flatMap]
  exact List.mem_cons_of_mem _ (List.mem_flatMap.mpr ⟨e, he, h⟩)

theorem replaceAll_eq_map (s : Substitution N) (es : List (Expr N)) :
    replaceAll s es = es.map (replace s) := by
  induction es with
  | nil => rfl
  | cons e es ih => simp [replaceAll, ih]

theorem evaluateAll_eq_mapM [Number N] (b : Bindings N) (es : List (Expr N)) :
    evaluateAll b es = es.mapM (evaluate b) := by
  induction es with
  | nil => rfl
  | cons e es ih =>
      rw [evaluateAll, List.mapM_cons, ih]
      rfl

theorem valueOrInvalid_eq_ok {e : Expr N} {x : Option (Except ValueError (Value N))} {v : Value N} :
    valueOrInvalid e x = .ok v ↔ x = some (.ok v) := by
  rcases x with _ | error | w <;> simp [valueOrInvalid]

theorem aggregateDepthAll_eq_zero {es : List (Expr N)}
    (h : ∀ e ∈ es, aggregateDepth e = 0) : aggregateDepthAll es = 0 := by
  induction es with
  | nil => rfl
  | cons e es ih =>
      have htail := ih fun e' he' => h e' (List.mem_cons_of_mem _ he')
      simp [aggregateDepthAll, h e List.mem_cons_self, htail]

theorem le_aggregateDepthAll {es : List (Expr N)} {e : Expr N} (h : e ∈ es) :
    aggregateDepth e ≤ aggregateDepthAll es := by
  induction es with
  | nil => cases h
  | cons e' es ih =>
      rw [aggregateDepthAll]
      rcases List.mem_cons.mp h with rfl | htail
      · exact Nat.le_max_left _ _
      · exact Nat.le_trans (ih htail) (Nat.le_max_right _ _)

/-! ## Searches -/

/-- An expression is found in itself. -/
theorem mem_subterms_self (e : Expr N) : e ∈ e.subterms := by
  cases e <;> simp [subterms]

theorem eq_column {e : Expr N} {c : Identifier} (h : e.column? = some c) : e = .column c := by
  cases e <;> cases h
  rfl

@[simp] theorem columns_literal (l : Literal N) : (literal l).columns = [] := rfl

@[simp] theorem columns_column (id : Identifier) : (column id : Expr N).columns = [id] := rfl

@[simp] theorem columns_unary (op : String) (e : Expr N) : (unary op e).columns = e.columns := rfl

@[simp] theorem columns_binary (l : Expr N) (op : String) (r : Expr N) :
    (binary l op r).columns = l.columns ++ r.columns := by
  simp only [columns, subterms]
  rw [List.filterMap_cons_none rfl, List.filterMap_append]

@[simp] theorem columns_nested (e : Expr N) : (nested e).columns = e.columns := rfl

@[simp] theorem columns_isNull (e : Expr N) (negated : Bool) :
    (isNull e negated).columns = e.columns := rfl

@[simp] theorem columns_call (name : String) (args : List (Expr N)) :
    (call name args).columns = args.flatMap columns := by
  have hargs : (call name args).columns = (subtermsAll args).filterMap column? := rfl
  rw [hargs, subtermsAll_eq_flatMap, List.filterMap_flatMap]
  rfl

@[simp] theorem columns_aggregate (f : AggregateFunction) (e : Expr N) :
    (aggregate f e).columns = e.columns := rfl

@[simp] theorem columns_aggregateRows (f : AggregateFunction) :
    (aggregateRows f : Expr N).columns = [] := rfl

@[simp] theorem aggregates_literal (l : Literal N) : (literal l).aggregates = [] := rfl

@[simp] theorem aggregates_column (id : Identifier) : (column id : Expr N).aggregates = [] := rfl

@[simp] theorem aggregates_unary (op : String) (e : Expr N) :
    (unary op e).aggregates = e.aggregates := rfl

@[simp] theorem aggregates_binary (l : Expr N) (op : String) (r : Expr N) :
    (binary l op r).aggregates = l.aggregates ++ r.aggregates := by
  simp [aggregates, subterms, isAggregate]

@[simp] theorem aggregates_nested (e : Expr N) : (nested e).aggregates = e.aggregates := rfl

@[simp] theorem aggregates_isNull (e : Expr N) (negated : Bool) :
    (isNull e negated).aggregates = e.aggregates := rfl

@[simp] theorem aggregates_call (name : String) (args : List (Expr N)) :
    (call name args).aggregates = args.flatMap aggregates := by
  have hargs : (call name args).aggregates = (subtermsAll args).filter isAggregate := rfl
  rw [hargs, subtermsAll_eq_flatMap, List.filter_flatMap]
  rfl

@[simp] theorem aggregates_aggregate (f : AggregateFunction) (e : Expr N) :
    (aggregate f e).aggregates = aggregate f e :: e.aggregates := rfl

@[simp] theorem aggregates_aggregateRows (f : AggregateFunction) :
    (aggregateRows f : Expr N).aggregates = [aggregateRows f] := rfl

/-- What a search for aggregates finds are aggregates. -/
theorem isAggregate_of_mem_aggregates {e a : Expr N} (h : a ∈ e.aggregates) :
    a.isAggregate = true :=
  (List.mem_filter.mp h).2

/-- An expression without aggregates has none nested. -/
theorem aggregateDepth_eq_zero {e : Expr N} (h : e.aggregates = []) : e.aggregateDepth = 0 := by
  induction e using induct with
  | literal l => rfl
  | column id => rfl
  | unary op e ih => exact ih h
  | binary l op r ihl ihr =>
      obtain ⟨hl, hr⟩ : l.aggregates = [] ∧ r.aggregates = [] := by simpa using h
      simp [aggregateDepth, ihl hl, ihr hr]
  | nested e ih => exact ih h
  | isNull e negated ih => exact ih h
  | call name args ih =>
      rw [aggregateDepth]
      refine aggregateDepthAll_eq_zero fun e he => ih e he ?_
      have hall : ∀ e ∈ args, e.aggregates = [] := by simpa using h
      exact hall e he
  | aggregate f e ih => simp at h
  | aggregateRows f => simp at h

/-- The argument of an aggregate that is not nested has no aggregate. -/
theorem aggregates_eq_nil_of_depth {e : Expr N} (h : e.aggregateDepth = 0) : e.aggregates = [] := by
  induction e using induct with
  | literal l => rfl
  | column id => rfl
  | unary op e ih => exact ih h
  | binary l op r ihl ihr =>
      simp only [aggregateDepth] at h
      simp [ihl (by omega), ihr (by omega)]
  | nested e ih => exact ih h
  | isNull e negated ih => exact ih h
  | call name args ih =>
      rw [aggregates_call, List.flatMap_eq_nil_iff]
      intro e he
      have hle : e.aggregateDepth ≤ aggregateDepthAll args := le_aggregateDepthAll he
      simp only [aggregateDepth] at h
      exact ih e he (by omega)
  | aggregate f e ih => simp [aggregateDepth] at h
  | aggregateRows f => simp [aggregateDepth] at h

/-! ## Inside an expression -/

/-- What is inside an expression is nested no deeper, and nothing else is inside it. -/
theorem subterms_subset {e t : Expr N} (h : t ∈ e.subterms) :
    (∀ x ∈ t.subterms, x ∈ e.subterms) ∧ t.aggregateDepth ≤ e.aggregateDepth := by
  induction e using induct with
  | literal l | column id | aggregateRows f =>
      obtain rfl := List.mem_singleton.mp h
      exact ⟨fun x hx => hx, Nat.le_refl _⟩
  | unary op e ih | nested e ih | isNull e negated ih =>
      rcases List.mem_cons.mp h with rfl | hinside
      · exact ⟨fun x hx => hx, Nat.le_refl _⟩
      · obtain ⟨hsub, hdepth⟩ := ih hinside
        exact ⟨fun x hx => List.mem_cons_of_mem _ (hsub x hx), hdepth⟩
  | binary l op r ihl ihr =>
      rcases List.mem_cons.mp h with rfl | hinside
      · exact ⟨fun x hx => hx, Nat.le_refl _⟩
      · rw [aggregateDepth]
        rcases List.mem_append.mp hinside with hleft | hright
        · obtain ⟨hsub, hdepth⟩ := ihl hleft
          exact ⟨fun x hx => mem_subterms_left (hsub x hx), by omega⟩
        · obtain ⟨hsub, hdepth⟩ := ihr hright
          exact ⟨fun x hx => mem_subterms_right (hsub x hx), by omega⟩
  | call name args ih =>
      rcases List.mem_cons.mp h with rfl | hinside
      · exact ⟨fun x hx => hx, Nat.le_refl _⟩
      · rw [subtermsAll_eq_flatMap] at hinside
        obtain ⟨e, he, hte⟩ := List.mem_flatMap.mp hinside
        obtain ⟨hsub, hdepth⟩ := ih e he hte
        exact ⟨fun x hx => mem_subterms_argument he (hsub x hx),
          Nat.le_trans hdepth (le_aggregateDepthAll he)⟩
  | aggregate f e ih =>
      rcases List.mem_cons.mp h with rfl | hinside
      · exact ⟨fun x hx => hx, Nat.le_refl _⟩
      · obtain ⟨hsub, hdepth⟩ := ih hinside
        exact ⟨fun x hx => List.mem_cons_of_mem _ (hsub x hx), Nat.le_succ_of_le hdepth⟩

/-- The columns of what is inside an expression are columns of it. -/
theorem columns_subset {e t : Expr N} (h : t ∈ e.subterms) : ∀ c ∈ t.columns, c ∈ e.columns := by
  intro c hc
  obtain ⟨x, hx, hcolumn⟩ := List.mem_filterMap.mp hc
  exact List.mem_filterMap.mpr ⟨x, (subterms_subset h).1 x hx, hcolumn⟩

/-! ## Trees -/

/-- Two expressions are the same when their trees are equal. -/
theorem same_iff {e e' : Expr N} : e.same e' = true ↔ e.tree = e'.tree :=
  Tree.same_iff _ _

theorem same_refl (e : Expr N) : e.same e = true := same_iff.mpr rfl

/-- The constant an expression is, if it is one. -/
def literal? : Expr N → Option (Literal N)
  | .literal l => some l
  | _ => none

/-- The constants inside an expression. -/
def constants (e : Expr N) : List (Literal N) := e.subterms.filterMap literal?

@[simp] theorem constants_literal (l : Literal N) : (literal l).constants = [l] := rfl

@[simp] theorem constants_column (id : Identifier) : (column id : Expr N).constants = [] := rfl

@[simp] theorem constants_unary (op : String) (e : Expr N) :
    (unary op e).constants = e.constants := rfl

@[simp] theorem constants_binary (l : Expr N) (op : String) (r : Expr N) :
    (binary l op r).constants = l.constants ++ r.constants := by
  simp only [constants, subterms]
  rw [List.filterMap_cons_none rfl, List.filterMap_append]

@[simp] theorem constants_nested (e : Expr N) : (nested e).constants = e.constants := rfl

@[simp] theorem constants_isNull (e : Expr N) (negated : Bool) :
    (isNull e negated).constants = e.constants := rfl

@[simp] theorem constants_call (name : String) (args : List (Expr N)) :
    (call name args).constants = args.flatMap constants := by
  have hargs : (call name args).constants = (subtermsAll args).filterMap literal? := rfl
  rw [hargs, subtermsAll_eq_flatMap, List.filterMap_flatMap]
  rfl

@[simp] theorem constants_aggregate (f : AggregateFunction) (e : Expr N) :
    (aggregate f e).constants = e.constants := rfl

@[simp] theorem constants_aggregateRows (f : AggregateFunction) :
    (aggregateRows f : Expr N).constants = [] := rfl

/-- The constants of what is inside an expression are constants of it. -/
theorem constants_subset {e t : Expr N} (h : t ∈ e.subterms) :
    ∀ l ∈ t.constants, l ∈ e.constants := by
  intro l hl
  obtain ⟨x, hx, hliteral⟩ := List.mem_filterMap.mp hl
  exact List.mem_filterMap.mpr ⟨x, (subterms_subset h).1 x hx, hliteral⟩

theorem name_injective {f f' : AggregateFunction} (h : f.name = f'.name) : f = f' := by
  cases f <;> cases f' <;> simp_all [AggregateFunction.name]

section Trees

attribute [local simp] tree

@[simp] theorem tree_ne_leaf (e : Expr N) (k : Kind) (s : String) : ¬ e.tree = .leaf k s := by
  cases e <;> simp

@[simp] theorem leaf_ne_tree (e : Expr N) (k : Kind) (s : String) : ¬ .leaf k s = e.tree := by
  cases e <;> simp

@[simp] theorem tree_ne_sequence (e : Expr N) (ts : List Tree) :
    ¬ e.tree = .branch .sequence ts := by
  cases e <;> simp

@[simp] theorem sequence_ne_tree (e : Expr N) (ts : List Tree) :
    ¬ .branch .sequence ts = e.tree := by
  cases e <;> simp

/-- What has the tree of an aggregate is one. -/
theorem isAggregate_of_tree {e e' : Expr N} (h : e.tree = e'.tree) (he : e.isAggregate = true) :
    e'.isAggregate = true := by
  cases e with
  | aggregate f x | aggregateRows f =>
      cases e' <;> simp at h
      rfl
  | _ => cases he

/-- An aggregate of whole rows is told by its tree. -/
theorem eq_aggregateRows_of_tree {f : AggregateFunction} {e : Expr N}
    (h : e.tree = (.aggregateRows f : Expr N).tree) : e = .aggregateRows f := by
  cases e <;> simp at h
  rw [name_injective h]

/-- A column is told by its tree. -/
theorem eq_column_of_tree {c : Identifier} {e : Expr N} (h : e.tree = (.column c : Expr N).tree) :
    e = .column c := by
  cases e <;> simp at h
  rename_i c'
  cases c
  cases c'
  simp_all

/-- **Trees tell expressions apart.**  Two expressions with one tree are the same expression, as soon
as the texts of their constants say which constants they are. -/
theorem tree_injective {P : Literal N → Prop}
    (hP : ∀ l l', P l → P l' → l.text = l'.text → l = l') {e e' : Expr N}
    (he : ∀ l ∈ e.constants, P l) (he' : ∀ l ∈ e'.constants, P l) (h : e.tree = e'.tree) :
    e = e' := by
  induction e using induct generalizing e' with
  | literal l =>
      cases e' <;> simp at h
      rename_i l'
      rw [hP l l' (he l (by simp)) (he' l' (by simp)) h]
  | column id =>
      cases e' <;> simp at h
      rename_i id'
      cases id
      cases id'
      simp_all
  | unary op e ih =>
      cases e' <;> simp at h
      rename_i op' x
      rw [h.1, @ih x he he' h.2]
  | binary l op r ihl ihr =>
      cases e' <;> simp at h
      rename_i l' op' r'
      rw [constants_binary] at he he'
      rw [h.2.1, ihl (fun x hx => he x (List.mem_append_left _ hx))
        (fun x hx => he' x (List.mem_append_left _ hx)) h.1,
        ihr (fun x hx => he x (List.mem_append_right _ hx))
        (fun x hx => he' x (List.mem_append_right _ hx)) h.2.2]
  | nested e ih =>
      cases e' <;> simp at h
      rename_i x
      rw [@ih x he he' h]
  | isNull e negated ih =>
      cases e' <;> simp at h
      rename_i x negated'
      have hnegated : negated = negated' := by
        cases negated <;> cases negated' <;> simp_all
      rw [@ih x he he' h.1, hnegated]
  | call name args ih =>
      cases e' <;> simp at h
      rename_i name' args'
      obtain ⟨rfl, hargs⟩ := h
      rw [constants_call] at he he'
      rw [trees_eq_map, trees_eq_map] at hargs
      have hequal : args = args' := by
        apply List.ext_getElem (by simpa using congrArg List.length hargs)
        intro i hi hi'
        have hmem := List.getElem_mem hi
        have hmem' := List.getElem_mem hi'
        have htree : args[i].tree = args'[i].tree := by
          have hmap := List.getElem_of_eq hargs (by simpa using hi : i < (args.map tree).length)
          rwa [List.getElem_map, List.getElem_map] at hmap
        exact ih _ hmem (fun l hl => he l (List.mem_flatMap.mpr ⟨_, hmem, hl⟩))
          (fun l hl => he' l (List.mem_flatMap.mpr ⟨_, hmem', hl⟩)) htree
      rw [hequal]
  | aggregate f e ih =>
      cases e' <;> simp at h
      rename_i f' x
      rw [name_injective h.1, @ih x he he' h.2]
  | aggregateRows f =>
      cases e' <;> simp at h
      rename_i f'
      rw [name_injective h]

end Trees

end PrivateSql.Expr
