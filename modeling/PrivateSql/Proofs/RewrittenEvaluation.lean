import PrivateSql.Execution.Grouping
import PrivateSql.Proofs.Fallible
import PrivateSql.Proofs.ExprStructure
import PrivateSql.Proofs.Replacement
/-!
# Evaluating what was rewritten

The same expression, rewritten in two ways and evaluated over two rows, has the same value as soon as
its replaced parts have: all that stands above them is computed alike.  Only one direction is needed,
and only for the outcomes that a cell tells apart, a value and a division by zero.

* `Follows` — a computation that has the value of another one, or divides by zero as that one does;
* `follows_of_cell` — an expression whose cell is known follows when it divides by zero alike;
* `Expr.parts` — the outermost parts of an expression where a search stops;
* `follows_of_parts` — an expression follows as soon as its parts do;
* `evaluate_congr` — the value depends on the columns that are read.
-/

namespace PrivateSql

variable {N : Type} [Number N]

/-! ## Computations that follow others -/

/-- The second computation has the outcome of the first one as far as a cell shows it: it has its value,
or divides by zero where the first one does.  Other errors are not compared. -/
def Follows {α : Type} (x y : Except QueryError α) : Prop :=
  y = x ∨ ∃ e, x = .error e ∧
    ∀ n, e = .operation (.zeroDenominator n) → ∃ m, y = .error (.operation (.zeroDenominator m))

namespace Follows

variable {α β : Type} {x y : Except QueryError α}

theorem refl (x : Except QueryError α) : Follows x x := .inl rfl

/-- A sequence follows when its first step does, and the rest on each value. -/
theorem bind {f g : α → Except QueryError β} (hx : Follows x y) (hf : ∀ a, Follows (f a) (g a)) :
    Follows (x >>= f) (y >>= g) := by
  rcases hx with rfl | ⟨e, rfl, he⟩
  · cases y with
    | error e => exact .inl rfl
    | ok a => exact hf a
  · refine .inr ⟨e, rfl, fun n hn => ?_⟩
    obtain ⟨m, rfl⟩ := he n hn
    exact ⟨m, rfl⟩

/-- A pass over a list follows when it does on each element. -/
theorem mapM {f g : β → Except QueryError α} {l : List β} (h : ∀ b ∈ l, Follows (f b) (g b)) :
    Follows (l.mapM f) (l.mapM g) := by
  induction l with
  | nil => exact refl _
  | cons b l ih =>
      rw [List.mapM_cons, List.mapM_cons]
      apply (h b List.mem_cons_self).bind
      intro a
      exact (ih fun b' hb' => h b' (List.mem_cons_of_mem _ hb')).bind fun _ => refl _

omit [Number N] in
/-- The error of an expression without value is no division by zero. -/
theorem invalid {x : Except QueryError α} (s : String) :
    Follows (.error (.invalidExpression s)) x :=
  .inr ⟨_, rfl, fun n h => by cases h⟩

end Follows

omit [Number N] in
/-- An operator follows whatever expression it is said to be of. -/
theorem follows_valueOrInvalid (e e' : Expr N) (x : Option (Except ValueError (Value N))) :
    Follows (valueOrInvalid e x) (valueOrInvalid e' x) := by
  rcases x with _ | error | v
  · exact .invalid _
  · exact .refl _
  · exact .refl _

/-- A cell has the value of another one that it follows. -/
theorem cell_of_follows {b b' : Bindings N} {e e' : Expr N} {v : Value N}
    (h : Follows (e.evaluate b) (e'.evaluate b')) (hv : cell b e = .ok v) : cell b' e' = .ok v := by
  rcases h with heq | ⟨error, herror, hother⟩
  · rw [cell, heq]
    exact hv
  · rw [cell, herror] at hv
    split at hv
    · rename_i n hzero
      cases hzero
      obtain ⟨m, hm⟩ := hother n rfl
      rw [cell, hm]
      exact hv
    · cases hv

/-- Does an expression divide by zero on a row? -/
def Expr.dividesByZero (b : Bindings N) (e : Expr N) : Bool :=
  match e.evaluate b with
  | .error (.operation (.zeroDenominator _)) => true
  | _ => false

theorem Expr.ne_of_not_dividesByZero {b : Bindings N} {e : Expr N}
    (h : e.dividesByZero b = false) (n : String) :
    e.evaluate b ≠ .error (.operation (.zeroDenominator n)) := by
  intro hzero
  rw [dividesByZero, hzero] at h
  cases h

/-- What has a cell without dividing by zero has its value. -/
theorem evaluate_of_cell {b : Bindings N} {e : Expr N} {v : Value N} (h : cell b e = .ok v)
    (hdivision : ∀ n, e.evaluate b ≠ .error (.operation (.zeroDenominator n))) :
    e.evaluate b = .ok v := by
  unfold cell at h
  split at h
  · rename_i n hzero
    exact absurd hzero (hdivision n)
  · exact h

/-- An expression with the same cell on two rows, and that divides by zero on both or on none, follows
itself. -/
theorem follows_of_cell {b b' : Bindings N} {e : Expr N} {v : Value N} (h : cell b e = .ok v)
    (h' : cell b' e = .ok v) (hdivision : e.dividesByZero b = e.dividesByZero b') :
    Follows (e.evaluate b) (e.evaluate b') := by
  cases hzero : e.dividesByZero b' with
  | false =>
      rw [evaluate_of_cell h (Expr.ne_of_not_dividesByZero (hdivision.trans hzero)),
        evaluate_of_cell h' (Expr.ne_of_not_dividesByZero hzero)]
      exact .refl _
  | true =>
      rw [hzero] at hdivision
      unfold Expr.dividesByZero at hdivision hzero
      split at hdivision
      · rename_i n hn
        split at hzero
        · rename_i m hm
          rw [hn]
          exact .inr ⟨_, rfl, fun _ _ => ⟨m, hm⟩⟩
        · cases hzero
      · cases hdivision

/-! ## The parts of an expression -/

namespace Expr

variable {M : Type}

mutual
/-- The outermost parts of an expression where a search stops, and its columns, constants and
aggregates elsewhere. -/
def parts (stop : Expr M → Bool) (e : Expr M) : List (Expr M) :=
  if stop e then [e]
  else match e with
    | .unary _ x => parts stop x
    | .binary l _ r => parts stop l ++ parts stop r
    | .nested x => parts stop x
    | .isNull x _ => parts stop x
    | .call _ args => partsAll stop args
    | e => [e]

/-- The parts of some expressions. -/
def partsAll (stop : Expr M → Bool) : List (Expr M) → List (Expr M)
  | [] => []
  | e :: es => parts stop e ++ partsAll stop es
end

theorem partsAll_eq_flatMap (stop : Expr M → Bool) (es : List (Expr M)) :
    partsAll stop es = es.flatMap (parts stop) := by
  induction es with
  | nil => rfl
  | cons e es ih => simp [partsAll, ih]

/-- Is an expression put together from others, outside of aggregates? -/
def isComposite : Expr M → Bool
  | .unary _ _ | .binary _ _ _ | .nested _ | .isNull _ _ | .call _ _ => true
  | _ => false

section Parts

variable {stop : Expr M → Bool} {e t l r : Expr M} {op name : String} {args : List (Expr M)}

attribute [local simp] parts

theorem parts_of_stop (h : stop e = true) : e.parts stop = [e] := by
  cases e <;> simp [h]

theorem parts_of_not_isComposite (h : e.isComposite = false) : e.parts stop = [e] := by
  cases e with
  | literal l | column id | aggregate f e | aggregateRows f => simp
  | _ => cases h

theorem parts_unary (h : stop (.unary op e) = false) :
    (unary op e).parts stop = e.parts stop := by
  simp [h]

theorem parts_binary (h : stop (.binary l op r) = false) :
    (binary l op r).parts stop = l.parts stop ++ r.parts stop := by
  simp [h]

theorem parts_nested (h : stop (.nested e) = false) : (nested e).parts stop = e.parts stop := by
  simp [h]

theorem parts_isNull {negated : Bool} (h : stop (.isNull e negated) = false) :
    (isNull e negated).parts stop = e.parts stop := by
  simp [h]

theorem parts_call (h : stop (.call name args) = false) :
    (call name args).parts stop = args.flatMap (parts stop) := by
  simp [h, partsAll_eq_flatMap]

/-- A part is inside the expression. -/
theorem mem_subterms_of_mem_parts (h : t ∈ e.parts stop) : t ∈ e.subterms := by
  induction e using inductUntil (fun e => stop e = false) with
  | stopped e hstop =>
      rw [parts_of_stop (eq_true_of_ne_false hstop), List.mem_singleton] at h
      exact h ▸ mem_subterms_self e
  | literal l | column id | aggregate f e | aggregateRows f =>
      rw [parts_of_not_isComposite rfl, List.mem_singleton] at h
      exact h ▸ mem_subterms_self _
  | unary op e hkept ih =>
      rw [parts_unary hkept] at h
      exact List.mem_cons_of_mem _ (ih h)
  | nested e hkept ih =>
      rw [parts_nested hkept] at h
      exact List.mem_cons_of_mem _ (ih h)
  | isNull e negated hkept ih =>
      rw [parts_isNull hkept] at h
      exact List.mem_cons_of_mem _ (ih h)
  | binary l op r hkept ihl ihr =>
      rw [parts_binary hkept] at h
      rcases List.mem_append.mp h with hleft | hright
      · exact mem_subterms_left (ihl hleft)
      · exact mem_subterms_right (ihr hright)
  | call name args hkept ih =>
      rw [parts_call hkept] at h
      obtain ⟨e, he, hte⟩ := List.mem_flatMap.mp h
      exact mem_subterms_argument he (ih e he hte)

/-- A part where the search does not stop is put together from no others. -/
theorem not_isComposite_of_mem_parts (h : t ∈ e.parts stop) (ht : stop t = false) :
    t.isComposite = false := by
  induction e using inductUntil (fun e => stop e = false) with
  | stopped e hstop =>
      rw [parts_of_stop (eq_true_of_ne_false hstop), List.mem_singleton] at h
      exact absurd (h ▸ ht) hstop
  | literal l | column id | aggregate f e | aggregateRows f =>
      rw [parts_of_not_isComposite rfl, List.mem_singleton] at h
      rw [h]
      rfl
  | unary op e hkept ih =>
      rw [parts_unary hkept] at h
      exact ih h
  | nested e hkept ih =>
      rw [parts_nested hkept] at h
      exact ih h
  | isNull e negated hkept ih =>
      rw [parts_isNull hkept] at h
      exact ih h
  | binary l op r hkept ihl ihr =>
      rw [parts_binary hkept] at h
      exact (List.mem_append.mp h).elim ihl ihr
  | call name args hkept ih =>
      rw [parts_call hkept] at h
      obtain ⟨e, he, hte⟩ := List.mem_flatMap.mp h
      exact ih e he hte

end Parts

end Expr

/-- **Rewritten expressions follow by their parts.**  Let two rewritings replace nothing above the
parts of an expression.  If each part, rewritten in the second way and evaluated over the second
row, follows itself rewritten in the first way, so does the expression. -/
theorem follows_of_parts {stop : Expr N → Bool} {s s' : Substitution N} {b b' : Bindings N}
    {e : Expr N}
    (hkept : ∀ t ∈ e.subterms, stop t = false → t.isComposite = true →
      s.find? t = none ∧ s'.find? t = none)
    (h : ∀ t ∈ e.parts stop, Follows ((t.replace s).evaluate b) ((t.replace s').evaluate b')) :
    Follows ((e.replace s).evaluate b) ((e.replace s').evaluate b') := by
  induction e using Expr.inductUntil (fun e => stop e = false) with
  | stopped e hstop =>
      rw [Expr.parts_of_stop (eq_true_of_ne_false hstop)] at h
      exact h e List.mem_cons_self
  | literal l | column id | aggregate f e | aggregateRows f =>
      rw [Expr.parts_of_not_isComposite rfl] at h
      exact h _ List.mem_cons_self
  | unary op e he ih =>
      obtain ⟨hs, hs'⟩ := hkept _ (Expr.mem_subterms_self _) he rfl
      rw [Expr.parts_unary he] at h
      simp only [Expr.replace, hs, hs']
      exact (ih (fun t ht => hkept t (List.mem_cons_of_mem _ ht)) h).bind
        fun v => follows_valueOrInvalid _ _ _
  | binary l op r he ihl ihr =>
      obtain ⟨hs, hs'⟩ := hkept _ (Expr.mem_subterms_self _) he rfl
      rw [Expr.parts_binary he] at h
      simp only [Expr.replace, hs, hs']
      have hleft := ihl (fun t ht => hkept t (Expr.mem_subterms_left ht))
        fun t ht => h t (List.mem_append_left _ ht)
      have hright := ihr (fun t ht => hkept t (Expr.mem_subterms_right ht))
        fun t ht => h t (List.mem_append_right _ ht)
      apply hleft.bind
      intro x
      cases decidedByLeft op x with
      | some v => exact .refl _
      | none => exact hright.bind fun y => follows_valueOrInvalid _ _ _
  | nested e he ih =>
      obtain ⟨hs, hs'⟩ := hkept _ (Expr.mem_subterms_self _) he rfl
      rw [Expr.parts_nested he] at h
      simp only [Expr.replace, hs, hs']
      exact ih (fun t ht => hkept t (List.mem_cons_of_mem _ ht)) h
  | isNull e negated he ih =>
      obtain ⟨hs, hs'⟩ := hkept _ (Expr.mem_subterms_self _) he rfl
      rw [Expr.parts_isNull he] at h
      simp only [Expr.replace, hs, hs']
      exact (ih (fun t ht => hkept t (List.mem_cons_of_mem _ ht)) h).bind fun v => .refl _
  | call name args he ih =>
      obtain ⟨hs, hs'⟩ := hkept _ (Expr.mem_subterms_self _) he rfl
      rw [Expr.parts_call he] at h
      simp only [Expr.replace, hs, hs', Expr.replaceAll_eq_map, Expr.evaluate,
        Expr.evaluateAll_eq_mapM, List.mapM_map]
      refine Follows.bind (.mapM fun e hmem => ?_) fun vs => ?_
      · exact ih e hmem (fun t ht => hkept t (Expr.mem_subterms_argument hmem ht))
          fun t ht => h t (List.mem_flatMap.mpr ⟨e, hmem, ht⟩)
      · cases functionValue name vs with
        | some v => exact .refl _
        | none => exact .invalid _

/-- What a rewritten part reads is read by the rewritten expression. -/
theorem columns_replace_parts {M : Type} {stop : Expr M → Bool} {s : Substitution M} {e t : Expr M}
    (hkept : ∀ t ∈ e.subterms, stop t = false → t.isComposite = true → s.find? t = none)
    (h : t ∈ e.parts stop) : ∀ c ∈ (t.replace s).columns, c ∈ (e.replace s).columns := by
  induction e using Expr.inductUntil (fun e => stop e = false) with
  | stopped e hstop =>
      rw [Expr.parts_of_stop (eq_true_of_ne_false hstop), List.mem_singleton] at h
      rw [h]
      intro c hc
      exact hc
  | literal l | column id | aggregate f e | aggregateRows f =>
      rw [Expr.parts_of_not_isComposite rfl, List.mem_singleton] at h
      rw [h]
      intro c hc
      exact hc
  | unary op e he ih =>
      have hs := hkept _ (Expr.mem_subterms_self _) he rfl
      rw [Expr.parts_unary he] at h
      simp only [Expr.replace, hs, Expr.columns_unary]
      exact ih (fun t ht => hkept t (List.mem_cons_of_mem _ ht)) h
  | binary l op r he ihl ihr =>
      have hs := hkept _ (Expr.mem_subterms_self _) he rfl
      rw [Expr.parts_binary he] at h
      simp only [Expr.replace, hs, Expr.columns_binary]
      intro c hc
      rcases List.mem_append.mp h with hleft | hright
      · exact List.mem_append_left _
          (ihl (fun t ht => hkept t (Expr.mem_subterms_left ht)) hleft c hc)
      · exact List.mem_append_right _
          (ihr (fun t ht => hkept t (Expr.mem_subterms_right ht)) hright c hc)
  | nested e he ih =>
      have hs := hkept _ (Expr.mem_subterms_self _) he rfl
      rw [Expr.parts_nested he] at h
      simp only [Expr.replace, hs, Expr.columns_nested]
      exact ih (fun t ht => hkept t (List.mem_cons_of_mem _ ht)) h
  | isNull e negated he ih =>
      have hs := hkept _ (Expr.mem_subterms_self _) he rfl
      rw [Expr.parts_isNull he] at h
      simp only [Expr.replace, hs, Expr.columns_isNull]
      exact ih (fun t ht => hkept t (List.mem_cons_of_mem _ ht)) h
  | call name args he ih =>
      have hs := hkept _ (Expr.mem_subterms_self _) he rfl
      rw [Expr.parts_call he] at h
      obtain ⟨e, hmem, hte⟩ := List.mem_flatMap.mp h
      simp only [Expr.replace, hs, Expr.replaceAll_eq_map, Expr.columns_call]
      intro c hc
      refine List.mem_flatMap.mpr ⟨e.replace s, List.mem_map_of_mem hmem, ?_⟩
      exact ih e hmem (fun t ht => hkept t (Expr.mem_subterms_argument hmem ht)) hte c hc

/-! ## What a value depends on -/

/-- The value of an expression depends on the columns that it reads. -/
theorem evaluate_congr {b b' : Bindings N} {e : Expr N}
    (h : ∀ c ∈ e.columns, b.find c.parts = b'.find c.parts) : e.evaluate b = e.evaluate b' := by
  induction e using Expr.induct with
  | literal l | aggregateRows f | aggregate f e => rfl
  | column id =>
      rw [Expr.evaluate, Expr.evaluate, h id (by simp)]
  | unary op e ih =>
      rw [Expr.evaluate, Expr.evaluate, ih h]
  | binary l op r ihl ihr =>
      rw [Expr.columns_binary] at h
      rw [Expr.evaluate, Expr.evaluate, ihl fun c hc => h c (List.mem_append_left _ hc),
        ihr fun c hc => h c (List.mem_append_right _ hc)]
  | nested e ih =>
      rw [Expr.evaluate, Expr.evaluate, ih h]
  | isNull e negated ih =>
      rw [Expr.evaluate, Expr.evaluate, ih h]
  | call name args ih =>
      rw [Expr.columns_call] at h
      rw [Expr.evaluate, Expr.evaluate, Expr.evaluateAll_eq_mapM, Expr.evaluateAll_eq_mapM,
        mapM_congr_left fun e he => ih e he fun c hc => h c (List.mem_flatMap.mpr ⟨e, he, hc⟩)]

end PrivateSql
