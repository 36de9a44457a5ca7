import PrivateSql.Proofs.ExecutionParts
import PrivateSql.Proofs.RewrittenEvaluation
import PrivateSql.Proofs.ShadowedColumns
/-!
# The parts of an expression that have one value for a group

What a query gives for a group is made of keys, of constants, of aggregates and of outputs.  A part that
stands for a key has the value of this key, whether it is the same expression or another name of the
same column; the grouping check goes through all that stands above these parts.

* `Query.standsForKey`, `Query.standsForKey_iff` — the parts that stand for a key;
* `Query.aggregates_of_isKey`, `Query.evaluate_of_isKey` — what stands for a key has no aggregate, and
  has its value;
* `Query.find_beside_repeated` — an output that repeats a column does no harm;
* `Query.partsOf`, `Query.partsOf_cases` — the parts of an expression, and what they are;
* `Query.isGrouped_of_mem_partsOf`, `Query.isOutput_of_mem_partsOf` — the parts of what the grouping check
  accepts.
-/

namespace PrivateSql.Query

variable {N : Type} {q : Query N} {scope : Scope N}

/-- Does an expression stand for a group key? -/
def standsForKey (q : Query N) (scope : Scope N) (e : Expr N) : Bool := (q.groupKey? scope e).isSome

/-- The keys, constants, columns and aggregates that an expression is made of. -/
def partsOf (q : Query N) (scope : Scope N) (e : Expr N) : List (Expr N) :=
  e.parts (q.standsForKey scope)

/-- A part stands for a key, or it is an aggregate, or a constant or a column outside of them. -/
theorem partsOf_cases {e t : Expr N} (h : t ∈ q.partsOf scope e) :
    q.standsForKey scope t = true ∨ q.standsForKey scope t = false ∧
      (t ∈ e.aggregates ∨ t.isAggregate = false ∧ ((∃ l, t = .literal l) ∨ ∃ c, t = .column c)) := by
  by_cases hkey : q.standsForKey scope t = true
  · exact .inl hkey
  rw [Bool.not_eq_true] at hkey
  refine .inr ⟨hkey, ?_⟩
  have hsimple := Expr.not_isComposite_of_mem_parts h hkey
  cases t with
  | literal l => exact .inr ⟨rfl, .inl ⟨l, rfl⟩⟩
  | column c => exact .inr ⟨rfl, .inr ⟨c, rfl⟩⟩
  | aggregate f x | aggregateRows f =>
      exact .inl (List.mem_filter.mpr ⟨Expr.mem_subterms_of_mem_parts h, rfl⟩)
  | unary op x | binary l op r | nested x | isNull x negated | call name args => cases hsimple

theorem isKey_refl (e : Expr N) : isKey scope e e = true := by
  cases e with
  | column c =>
      simp only [isKey, Expr.column?]
      cases scope.locate c with
      | error e => simp
      | ok e => simp
  | _ => exact Expr.same_refl _

/-- A key stands for whatever is written like it. -/
theorem isKey_of_tree {key e : Expr N} (h : key.tree = e.tree) : isKey scope key e = true := by
  cases hc : e.column? with
  | none =>
      rw [isKey, hc]
      cases key.column? <;> exact Expr.same_iff.mpr h
  | some c =>
      rw [Expr.eq_column hc] at h ⊢
      rw [Expr.eq_column_of_tree h]
      exact isKey_refl _

theorem standsForKey_iff {e : Expr N} :
    q.standsForKey scope e = true ↔ ∃ key ∈ q.groupBy, isKey scope key e = true := by
  rw [standsForKey, groupKey?, List.findIdx?_isSome, List.any_eq_true]

/-- What stands for a key without aggregates has none. -/
theorem aggregates_of_isKey {key e : Expr N} (hsame : key.tree = e.tree → key = e)
    (hnone : key.aggregates = []) (h : isKey scope key e = true) : e.aggregates = [] := by
  unfold isKey at h
  split at h
  · rename_i k c hk hc
    rw [Expr.eq_column hc]
    rfl
  · rw [← hsame (Expr.same_iff.mp h)]
    exact hnone

/-! ## What the grouping check accepts -/

/-- What an expression with one value for a group is made of has one value for a group. -/
theorem isGrouped_of_mem_partsOf {outputs : List String} {e t : Expr N}
    (h : isGrouped q scope outputs e = true) (ht : t ∈ q.partsOf scope e) :
    isGrouped q scope outputs t = true := by
  have hself : ∀ e, isGrouped q scope outputs e = true → t ∈ [e] →
      isGrouped q scope outputs t = true := fun e he hmem => List.mem_singleton.mp hmem ▸ he
  unfold partsOf at ht
  induction e using Expr.inductUntil (fun e => q.standsForKey scope e = false) with
  | stopped e hstop =>
      rw [Expr.parts_of_stop (eq_true_of_ne_false hstop)] at ht
      exact hself _ h ht
  | literal l | column id | aggregate f e | aggregateRows f =>
      rw [Expr.parts_of_not_isComposite rfl] at ht
      exact hself _ h ht
  | unary op e he ih =>
      rw [Expr.parts_unary he] at ht
      rw [standsForKey] at he
      exact ih (by simpa [isGrouped, he] using h) ht
  | nested e he ih =>
      rw [Expr.parts_nested he] at ht
      rw [standsForKey] at he
      exact ih (by simpa [isGrouped, he] using h) ht
  | isNull e negated he ih =>
      rw [Expr.parts_isNull he] at ht
      rw [standsForKey] at he
      exact ih (by simpa [isGrouped, he] using h) ht
  | binary l op r he ihl ihr =>
      rw [Expr.parts_binary he] at ht
      rw [standsForKey] at he
      obtain ⟨hl, hr⟩ : isGrouped q scope outputs l = true ∧
          isGrouped q scope outputs r = true := by
        simpa [isGrouped, he] using h
      exact (List.mem_append.mp ht).elim (ihl hl) (ihr hr)
  | call name args he ih =>
      rw [Expr.parts_call he] at ht
      rw [standsForKey] at he
      have hargs : areGrouped q scope outputs args = true := by
        simpa [isGrouped, he] using h
      obtain ⟨e, hmem, hte⟩ := List.mem_flatMap.mp ht
      exact ih e hmem (areGrouped_iff.mp hargs e hmem) hte

/-- A column that stands for no key, where only keys and outputs may be read, names an output. -/
theorem isOutput_of_mem_partsOf {outputs : List String} {e : Expr N} {c : Identifier}
    (h : isGrouped q scope outputs e = true) (ht : .column c ∈ q.partsOf scope e)
    (hkey : q.standsForKey scope (.column c) = false) : isOutput outputs c = true := by
  have hgrouped := isGrouped_of_mem_partsOf h ht
  rw [standsForKey] at hkey
  simpa [isGrouped, hkey] using hgrouped

/-! ## Values -/

variable {R : Symbol N → Value N → Prop} {b : Bindings N}

variable [Number N]

/-- **What stands for a key has its value.** -/
theorem evaluate_of_isKey {key t : Expr N} (hrelated : PathMap.Related R scope.columns b)
    (hsame : key.tree = t.tree → key = t) (h : isKey scope key t = true) :
    key.evaluate b = t.evaluate b := by
  unfold isKey at h
  split at h
  · rename_i k c hk hc
    obtain rfl := Expr.eq_column hk
    obtain rfl := Expr.eq_column hc
    split at h
    · rename_i e e' hlocate hlocate'
      obtain ⟨v, hv, hv'⟩ := find_of_locate hrelated hlocate hlocate' (by simpa using h)
      rw [Expr.evaluate, Expr.evaluate, hv, hv']
    · obtain rfl : k = c := by simpa using h
      rfl
  · rw [hsame (Expr.same_iff.mp h)]

/-- **An output that repeats a column** that it hides does no harm: the column is found beside the outputs
as without them. -/
theorem find_beside_repeated {s : Substitution N} {values : List (Value N)} {c : Identifier}
    (hrelated : PathMap.Related R scope.columns b)
    (hvalues : cells b (q.select.map fun item => item.expr.replace s) = .ok values)
    (hrepeated : ∀ item ∈ q.outputNamed? c.parts, ∃ c', item.expr.replace s = .column c' ∧
      isKey scope (.column c') (.column c : Expr N) = true) :
    (b.insertAll (q.outputBindings values)).find c.parts = b.find c.parts := by
  rcases find_beside_outputs (cells_map_eq_ok.mp hvalues) c.parts_ne_nil with ⟨-, hsame⟩ |
    ⟨item, v, hnamed, hv, hfound⟩
  · exact hsame b
  · obtain ⟨c', hc', hisKey⟩ := hrepeated item hnamed
    rw [hc'] at hv
    rw [hfound, find_of_isKey hrelated hisKey (find_of_cell hv)]

end PrivateSql.Query
