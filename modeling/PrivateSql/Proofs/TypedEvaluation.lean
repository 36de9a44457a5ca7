import PrivateSql.Proofs.StoredRows
import PrivateSql.Proofs.Replacement
import PrivateSql.Proofs.RewrittenEvaluation
import PrivateSql.Proofs.CaseFolding
/-!
# Types of values and of expressions

The type of an expression is inferred from the columns alone; its value is computed from a row.  Here
the two are compared, operator by operator: the value is of the inferred type wherever the operands are
of theirs.  Operators are told apart by their text when types are inferred and by its upper case when
values are computed, which is the same for those that are symbols.

* `Expr.admits_binaryValue`, `Expr.admits_unaryValue`, `Expr.admits_functionValue` — the types of
  operators and functions;
* `Scope.Types` — rows whose values are of the types of their columns;
* `Expr.admits_evaluate_of_parts`, `Expr.admits_evaluate`, `Expr.admits_cell` — expressions have values
  of their types.
-/

namespace PrivateSql

variable {N : Type} [Number N]

open DataType

namespace Expr

/-! ## Operators and functions -/

omit [Number N] in
/-- The type of an operator is unknown, or that of its operands. -/
theorem arithmeticType_of_admits {t u : DataType} {x y : Value N} (hx : t.Admits x)
    (hy : u.Admits y) (hxnull : x ≠ .null) (hynull : y ≠ .null) :
    arithmeticType t u = .unknown ∨ arithmeticType t u = arithmeticType x.dataType y.dataType := by
  have hunknown : ∀ t, arithmeticType .unknown t = .unknown ∧ arithmeticType t .unknown = .unknown := by
    intro t
    cases t <;> exact ⟨rfl, rfl⟩
  rcases hx with hx | rfl | rfl
  · exact absurd hx hxnull
  · exact .inl (hunknown u).1
  · rcases hy with hy | rfl | rfl
    · exact absurd hy hynull
    · exact .inl (hunknown _).2
    · exact .inr rfl

/-- Of two numbers the result is a number, and an integer only of two integers. -/
theorem dataType_of_arithmetic {op : String} {onInts : Int → Int → Option Int64}
    {onNumbers : N → N → N} {x y v : Value N}
    (h : Value.arithmetic op onInts onNumbers x y = .ok v) :
    v = .null ∨ x ≠ .null ∧ y ≠ .null ∧ v.dataType = arithmeticType x.dataType y.dataType := by
  cases x with
  | null =>
      cases h
      exact .inl rfl
  | integer i =>
      cases y with
      | null =>
          cases h
          exact .inl rfl
      | integer j =>
          rw [Value.arithmetic] at h
          split at h
          · cases h
            exact .inr ⟨by simp, by simp, rfl⟩
          · cases h
      | float y =>
          cases h
          exact .inr ⟨by simp, by simp, rfl⟩
      | boolean b | text s => cases h
  | float x =>
      cases y with
      | null =>
          cases h
          exact .inl rfl
      | integer j | float y =>
          cases h
          exact .inr ⟨by simp, by simp, rfl⟩
      | boolean b | text s => cases h
  | boolean b | text s =>
      cases y <;> cases h
      exact .inl rfl

/-- A sum, a difference, a product or a remainder is of the smallest type that both operands fit in. -/
theorem admits_arithmetic {t u : DataType} {op : String} {onInts : Int → Int → Option Int64}
    {onNumbers : N → N → N} {x y v : Value N} (hx : t.Admits x) (hy : u.Admits y)
    (h : Value.arithmetic op onInts onNumbers x y = .ok v) : (arithmeticType t u).Admits v := by
  rcases dataType_of_arithmetic h with rfl | ⟨hxnull, hynull, htype⟩
  · exact admits_null _
  · rcases arithmeticType_of_admits hx hy hxnull hynull with hunknown | hsame
    · rw [hunknown]
      exact admits_unknown v
    · rw [hsame, ← htype]
      exact admits_dataType v

/-- A quotient is a number. -/
theorem admits_div {x y v : Value N} (h : x.div y = .ok v) : float.Admits v := by
  unfold Value.div at h
  split at h
  · cases h
    exact admits_null _
  · cases h
    exact admits_null _
  · split at h
    · split at h
      · cases h
      · cases h
        exact admits_dataType _
    · cases h

theorem admits_rem {t u : DataType} {x y v : Value N} (hx : t.Admits x) (hy : u.Admits y)
    (h : x.rem y = .ok v) : (arithmeticType t u).Admits v := by
  unfold Value.rem at h
  split at h
  · cases h
  · exact admits_arithmetic hx hy h

/-- The opposite of a value is of its type. -/
theorem admits_neg {t : DataType} {x v : Value N} (hx : t.Admits x) (h : x.neg = .ok v) :
    t.Admits v := by
  cases x with
  | null =>
      cases h
      exact admits_null t
  | integer i =>
      rw [Value.neg] at h
      split at h
      · cases h
        exact hx.imp (fun hnull => by cases hnull) id
      · cases h
  | float x =>
      cases h
      exact hx.imp (fun hnull => by cases hnull) id
  | boolean b | text s => cases h

theorem admits_comparison (accept : Ordering → Bool) (x y : Value N) :
    boolean.Admits (comparison accept x y) := by
  unfold comparison
  split
  · exact admits_dataType _
  · exact admits_null _

omit [Number N] in
theorem admits_conjunction {x y v : Value N} (h : conjunction x y = some v) : boolean.Admits v := by
  unfold conjunction at h
  split at h <;> cases h <;> first | exact admits_null _ | exact admits_dataType _

omit [Number N] in
theorem admits_disjunction {x y v : Value N} (h : disjunction x y = some v) : boolean.Admits v := by
  unfold disjunction at h
  split at h <;> cases h <;> first | exact admits_null _ | exact admits_dataType _

/-- The operators that compute numbers. -/
def arithmeticOperators : List String := ["+", "-", "*", "/", "%"]

omit [Number N] in
/-- All other operators compare or connect. -/
theorem dataType_binary_of_not_mem {scope : Scope N} {l r : Expr N} {op : String}
    (h : op ∉ arithmeticOperators) : (binary l op r).dataType scope = .boolean := by
  rw [dataType] <;> (rintro rfl; exact h (by decide))

/-- An operator that is no symbol of arithmetic gives a truth value. -/
theorem admits_binaryValue_of_not_mem {op : String} {x y v : Value N}
    (hop : op ∉ arithmeticOperators) (h : binaryValue op x y = some (.ok v)) : boolean.Admits v := by
  -- Arithmetic is chosen by the upper case of the operator, which is a symbol for symbols only.
  have hupper : Text.toUpper op ∉ arithmeticOperators := by
    intro hmem
    have hsymbols : ∀ symbol ∈ arithmeticOperators, ∀ c ∈ symbol.toList, c.toNat < 0x41 := by
      simp [arithmeticOperators]
    have hsame := Text.eq_of_toUpper rfl (hsymbols _ hmem)
    exact hop (hsame ▸ hmem)
  unfold binaryValue at h
  split at h
  case h_1 hsymbol | h_2 hsymbol | h_3 hsymbol | h_4 hsymbol | h_5 hsymbol =>
    rw [hsymbol] at hupper
    exact absurd (by decide) hupper
  case h_13 =>
    obtain ⟨w, hw, hv⟩ := Option.map_eq_some_iff.mp h
    cases hv
    exact admits_conjunction hw
  case h_14 =>
    obtain ⟨w, hw, hv⟩ := Option.map_eq_some_iff.mp h
    cases hv
    exact admits_disjunction hw
  case h_15 => cases h
  all_goals
    cases h
    exact admits_comparison _ x y

/-- **Operators.**  The value of an operator is of the type inferred for it. -/
theorem admits_binaryValue {scope : Scope N} {l r : Expr N} {op : String} {x y v : Value N}
    (hx : (l.dataType scope).Admits x) (hy : (r.dataType scope).Admits y)
    (h : binaryValue op x y = some (.ok v)) : ((binary l op r).dataType scope).Admits v := by
  by_cases hop : op ∈ arithmeticOperators
  · have hupper : Text.toUpper op = op := by
      have hall : ∀ op ∈ arithmeticOperators, Text.toUpper op = op := by decide
      exact hall op hop
    rw [binaryValue, hupper] at h
    simp only [arithmeticOperators, List.mem_cons, List.not_mem_nil, or_false] at hop
    rcases hop with rfl | rfl | rfl | rfl | rfl
    · exact admits_arithmetic hx hy (Option.some.inj h)
    · exact admits_arithmetic hx hy (Option.some.inj h)
    · exact admits_arithmetic hx hy (Option.some.inj h)
    · exact admits_div (Option.some.inj h)
    · exact admits_rem hx hy (Option.some.inj h)
  · rw [dataType_binary_of_not_mem hop]
    exact admits_binaryValue_of_not_mem hop h

omit [Number N] in
/-- A side that decides a connective decides on a truth value, and no arithmetic is decided so. -/
theorem admits_decidedByLeft {scope : Scope N} {l r : Expr N} {op : String} {x v : Value N}
    (h : decidedByLeft op x = some v) : ((binary l op r).dataType scope).Admits v := by
  have hop : op ∉ arithmeticOperators := by
    intro hmem
    have hnone : ∀ op ∈ arithmeticOperators, Text.toUpper op ≠ "AND" ∧ Text.toUpper op ≠ "OR" := by
      decide
    obtain ⟨hand, hor⟩ := hnone op hmem
    unfold decidedByLeft at h
    split at h
    · exact hand ‹_›
    · exact hor ‹_›
    · cases h
  rw [dataType_binary_of_not_mem hop]
  unfold decidedByLeft at h
  split at h <;> cases h <;> exact admits_dataType _

/-- The value of a unary operator is of the type inferred for it. -/
theorem admits_unaryValue {scope : Scope N} {e : Expr N} {op : String} {x v : Value N}
    (hx : (e.dataType scope).Admits x) (h : unaryValue op x = some (.ok v)) :
    ((unary op e).dataType scope).Admits v := by
  unfold unaryValue at h
  rw [dataType]
  split at h
  · rename_i hminus
    have hnot : ¬ Text.eqIgnoringAsciiCase op "NOT" = true := by
      rw [hminus]
      decide
    rw [if_neg hnot]
    exact admits_neg hx (Option.some.inj h)
  · split at h
    · rename_i hnot
      rw [if_pos hnot]
      split at h
      · cases h
        exact admits_null _
      · cases h
        exact admits_dataType _
      · cases h
    · cases h

/-- A function keeps the type of its first argument, the square root apart. -/
theorem dataType_of_functionValue {name : String} {vs : List (Value N)} {v : Value N}
    (h : functionValue name vs = some v) :
    v = .null ∨ name = "SQRT" ∧ v.dataType = .float ∨
      name ≠ "SQRT" ∧ ∃ x xs, vs = x :: xs ∧ x ≠ .null ∧ v.dataType = x.dataType := by
  unfold functionValue at h
  split at h
  case h_1 =>
    cases h
    exact .inl rfl
  case h_2 i =>
    obtain ⟨j, -, rfl⟩ := Option.map_eq_some_iff.mp h
    exact .inr (.inr ⟨by decide, _, _, rfl, by simp, rfl⟩)
  case h_4 =>
    obtain ⟨x, -, rfl⟩ := Option.map_eq_some_iff.mp h
    split
    · exact .inl rfl
    · exact .inr (.inl ⟨rfl, rfl⟩)
  case h_13 => cases h
  all_goals
    cases h
    exact .inr (.inr ⟨by decide, _, _, rfl, by simp, rfl⟩)

/-- The value of a function is of the type inferred for it. -/
theorem admits_functionValue {scope : Scope N} {name : String} {args : List (Expr N)}
    {vs : List (Value N)} {v : Value N}
    (hvs : List.Forall₂ (fun e v => (e.dataType scope).Admits v) args vs)
    (h : functionValue name vs = some v) : ((call name args).dataType scope).Admits v := by
  rw [dataType.eq_def]
  rcases dataType_of_functionValue h with rfl | ⟨hname, htype⟩ | ⟨hname, x, xs, rfl, hx, htype⟩
  · exact admits_null _
  · simp only [hname, if_true]
    rw [← htype]
    exact admits_dataType v
  · cases hvs with
    | cons hfirst hrest =>
        simp only [hname, if_false]
        rcases hfirst with hnull | hunknown | hsame
        · exact absurd hnull hx
        · rw [hunknown]
          exact admits_unknown v
        · rw [← hsame, ← htype]
          exact admits_dataType v

end Expr

/-! ## Expressions -/

/-- The rows whose values are of the types of their columns. -/
def Scope.Types (scope : Scope N) (b : Bindings N) : Prop :=
  ∀ c s v, scope.resolve c = .ok s → b.find c.parts = .one v → s.dataType.Admits v

omit [Number N] in
theorem Scope.types_of_related {scope : Scope N} {b : Bindings N}
    (h : PathMap.Related (fun s v => s.dataType.Admits v) scope.columns b) : scope.Types b := by
  intro c s v hs hv
  obtain ⟨w, hw, hadmits⟩ := Scope.find_of_resolve h hs
  rw [hw] at hv
  cases hv
  exact hadmits

omit [Number N] in
theorem Scope.types_empty (scope : Scope N) : scope.Types PathMap.empty := by
  intro c s v _ hv
  simp [PathMap.find, PathMap.findEntry, PathMap.empty, Found.map] at hv

/-- **Expressions have the types of their parts.**  Let nothing be replaced above the parts of an
expression, and let these have values of their types.  Then so has the expression. -/
theorem Expr.admits_evaluate_of_parts {scope : Scope N} {b : Bindings N} {s : Substitution N}
    (stop : Expr N → Bool) {e : Expr N}
    (hkept : ∀ t ∈ e.subterms, stop t = false → t.isComposite = true → s.find? t = none)
    (hparts : ∀ t ∈ e.parts stop, ∀ v, (t.replace s).evaluate b = .ok v →
      (t.dataType scope).Admits v) {v : Value N} (h : (e.replace s).evaluate b = .ok v) :
    (e.dataType scope).Admits v := by
  induction e using Expr.inductUntil (fun e => stop e = false) generalizing v with
  | stopped e hstop =>
      rw [Expr.parts_of_stop (eq_true_of_ne_false hstop)] at hparts
      exact hparts e List.mem_cons_self v h
  | literal l | column id | aggregate f e | aggregateRows f =>
      rw [Expr.parts_of_not_isComposite rfl] at hparts
      exact hparts _ List.mem_cons_self v h
  | unary op e hstop ih =>
      rw [Expr.parts_unary hstop] at hparts
      simp only [Expr.replace, hkept _ (Expr.mem_subterms_self _) hstop rfl, Expr.evaluate] at h
      obtain ⟨x, hx, h⟩ := bind_eq_ok.mp h
      exact Expr.admits_unaryValue (ih (fun t ht => hkept t (List.mem_cons_of_mem _ ht)) hparts hx)
        (Expr.valueOrInvalid_eq_ok.mp h)
  | binary l op r hstop ihl ihr =>
      rw [Expr.parts_binary hstop] at hparts
      simp only [Expr.replace, hkept _ (Expr.mem_subterms_self _) hstop rfl, Expr.evaluate] at h
      obtain ⟨x, hx, h⟩ := bind_eq_ok.mp h
      split at h
      · rename_i w hdecided
        cases h
        exact Expr.admits_decidedByLeft hdecided
      · obtain ⟨y, hy, h⟩ := bind_eq_ok.mp h
        refine Expr.admits_binaryValue (ihl ?_ ?_ hx) (ihr ?_ ?_ hy) (Expr.valueOrInvalid_eq_ok.mp h)
        · exact fun t ht => hkept t (Expr.mem_subterms_left ht)
        · exact fun t ht => hparts t (List.mem_append_left _ ht)
        · exact fun t ht => hkept t (Expr.mem_subterms_right ht)
        · exact fun t ht => hparts t (List.mem_append_right _ ht)
  | nested e hstop ih =>
      rw [Expr.parts_nested hstop] at hparts
      simp only [Expr.replace, hkept _ (Expr.mem_subterms_self _) hstop rfl, Expr.evaluate] at h
      exact ih (fun t ht => hkept t (List.mem_cons_of_mem _ ht)) hparts h
  | isNull e negated hstop ih =>
      simp only [Expr.replace, hkept _ (Expr.mem_subterms_self _) hstop rfl, Expr.evaluate] at h
      obtain ⟨x, -, h⟩ := bind_eq_ok.mp h
      cases h
      exact admits_dataType _
  | call name args hstop ih =>
      rw [Expr.parts_call hstop] at hparts
      simp only [Expr.replace, hkept _ (Expr.mem_subterms_self _) hstop rfl, Expr.replaceAll_eq_map,
        Expr.evaluate, Expr.evaluateAll_eq_mapM] at h
      obtain ⟨vs, hvs, h⟩ := bind_eq_ok.mp h
      rw [List.mapM_map, mapM_eq_ok] at hvs
      have htyped : List.Forall₂ (fun e v => (e.dataType scope).Admits v) args vs := by
        rw [List.forall₂_iff_zip] at hvs ⊢
        refine ⟨hvs.1, fun {e w} hzip => ?_⟩
        have he := (List.of_mem_zip hzip).1
        exact ih e he (fun t ht => hkept t (Expr.mem_subterms_argument he ht))
          (fun t ht => hparts t (List.mem_flatMap.mpr ⟨e, he, ht⟩)) (hvs.2 hzip)
      split at h
      · rename_i w hw
        cases h
        exact Expr.admits_functionValue htyped hw
      · cases h

/-- **Expressions have values of their types.**  Let the values of a row be of the types of their
columns, and let what stands for an expression inside have a value of the type of this expression.
Then the value of the expression is of its type. -/
theorem Expr.admits_evaluate {scope : Scope N} {b : Bindings N} {s : Substitution N} {e : Expr N}
    (hb : scope.Types b)
    (hs : ∀ t ∈ e.subterms, ∀ r v, s.find? t = some r → r.evaluate b = .ok v →
      (t.dataType scope).Admits v) {v : Value N} (h : (e.replace s).evaluate b = .ok v) :
    (e.dataType scope).Admits v := by
  refine Expr.admits_evaluate_of_parts (fun t => (s.find? t).isSome)
    (fun t _ hstop _ => Option.not_isSome_iff_eq_none.mp (ne_true_of_eq_false hstop))
    (fun t ht v hv => ?_) h
  cases hfound : s.find? t with
  | some r =>
      rw [Expr.replace_of_some hfound] at hv
      exact hs t (Expr.mem_subterms_of_mem_parts ht) r v hfound hv
  | none =>
      have hsimple := Expr.not_isComposite_of_mem_parts ht (by rw [hfound]; rfl)
      cases t with
      | literal l =>
          simp only [Expr.replace, hfound, Expr.evaluate] at hv
          cases hv
          exact admits_dataType _
      | column id =>
          simp only [Expr.replace, hfound, Expr.evaluate] at hv
          rw [Expr.dataType]
          split
          · rename_i symbol hresolve
            split at hv
            · rename_i w hw
              cases hv
              exact hb id symbol _ hresolve hw
            · cases hv
            · cases hv
          · exact admits_unknown v
      | aggregate f e | aggregateRows f =>
          simp only [Expr.replace, hfound, Expr.evaluate] at hv
          cases hv
      | unary op e | binary l op r | nested e | isNull e negated | call name args => cases hsimple

/-- A cell is of the type of its expression: a division by zero gives `NULL`. -/
theorem Expr.admits_cell {scope : Scope N} {b : Bindings N} {s : Substitution N} {e : Expr N}
    (hb : scope.Types b)
    (hs : ∀ t ∈ e.subterms, ∀ r v, s.find? t = some r → r.evaluate b = .ok v →
      (t.dataType scope).Admits v) {v : Value N} (h : cell b (e.replace s) = .ok v) :
    (e.dataType scope).Admits v := by
  unfold cell at h
  split at h
  · cases h
    exact admits_null _
  · exact Expr.admits_evaluate hb hs h

end PrivateSql
