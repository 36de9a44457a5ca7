import PrivateSql.Sql.Reading
import PrivateSql.Proofs.ComparedValues
import PrivateSql.Proofs.RecombinedValues
/-!
# Lists and ranges of values

`IN` and `BETWEEN` are put together from comparisons: a list becomes disjunctions joined from left to right,
a range a conjunction.  Their values follow from the comparisons alone, whatever the number of items and
wherever a `NULL` stands: a list is true when an item is equal, and unknown when none is but some comparison
is; a range is false when one of its ends rules the value out, and unknown when none does but some comparison
is.  A denial turns truth values around and leaves the unknown one.

* `Value.listed`, `Value.ranged`, `Value.denied` — membership, ranges and denials, by comparisons;
* `Value.disjunction_listed`, `evaluate_disjunctions` — one disjunction more, and all of them;
* `Value.conjunction_ranged` — the two ends of a range;
* `evaluate_oneOfExpr`, `evaluate_betweenExpr` — the expressions that lists and ranges become;
* `Sql.Term.gives_listed_ranged` — the values of what is written with `IN` and `BETWEEN`.
-/

namespace PrivateSql

variable {N : Type} [Number N]

/-! ## Membership and ranges by comparisons -/

namespace Value

/-- Is the value one of some others?  An equal one decides it; otherwise it is unknown next to a comparison
that is unknown. -/
def listed (v : Value N) (ws : List (Value N)) : Value N :=
  if ∃ w ∈ ws, v.compare? w = some .eq then .boolean true
  else if ∃ w ∈ ws, v.compare? w = none then .null
  else .boolean false

/-- Is the value neither below `low` nor above `high`?  One end that rules it out decides it; otherwise it is
unknown next to a comparison that is unknown. -/
def ranged (v low high : Value N) : Value N :=
  if v.compare? low = some .lt ∨ v.compare? high = some .gt then .boolean false
  else if v.compare? low = none ∨ v.compare? high = none then .null
  else .boolean true

/-- The other truth value; what is unknown stays unknown. -/
def denied : Value N → Value N
  | .boolean b => .boolean (!b)
  | v => v

/-- The truth value itself, or the other one. -/
def deniedIf (negated : Bool) (v : Value N) : Value N := if negated then v.denied else v

theorem listed_singleton (v w : Value N) : v.listed [w] = comparison (· == .eq) v w := by
  simp only [listed, List.mem_singleton, exists_eq_left, comparison]
  rcases v.compare? w with _ | _ | _ | _ <;> rfl

/-- A list is true, false or unknown. -/
theorem listed_cases (v : Value N) (ws : List (Value N)) :
    v.listed ws = .boolean true ∨ v.listed ws = .null ∨ v.listed ws = .boolean false := by
  unfold listed
  split
  · exact .inl rfl
  · split
    · exact .inr (.inl rfl)
    · exact .inr (.inr rfl)

/-- A range is true, false or unknown. -/
theorem ranged_cases (v low high : Value N) :
    v.ranged low high = .boolean true ∨ v.ranged low high = .null ∨
      v.ranged low high = .boolean false := by
  unfold ranged
  split
  · exact .inr (.inr rfl)
  · split
    · exact .inr (.inl rfl)
    · exact .inl rfl

/-- A list that is true stays true, whatever follows. -/
theorem listed_append_of_true {v : Value N} {seen : List (Value N)} (more : List (Value N))
    (h : v.listed seen = .boolean true) : v.listed (seen ++ more) = .boolean true := by
  have hequal : ∃ w ∈ seen, v.compare? w = some .eq := by
    by_contra hnone
    rw [listed, if_neg hnone] at h
    split at h <;> cases h
  obtain ⟨w, hw, heq⟩ := hequal
  exact if_pos ⟨w, List.mem_append_left more hw, heq⟩

/-- **One item more.**  As long as no item was equal, the disjunction with one more comparison is the
membership in the longer list.  A side that is true would be lost next to a false one: it has to decide the
disjunction before. -/
theorem disjunction_listed {v : Value N} {seen : List (Value N)} (h : v.listed seen ≠ .boolean true)
    (w : Value N) :
    disjunction (v.listed seen) (comparison (· == .eq) v w) = some (v.listed (seen ++ [w])) := by
  have hapart : ¬ ∃ w ∈ seen, v.compare? w = some .eq := fun hequal => h (if_pos hequal)
  simp only [listed, List.mem_append, List.mem_singleton, or_and_right, exists_or, exists_eq_left,
    comparison, if_neg hapart]
  by_cases hunknown : ∃ w ∈ seen, v.compare? w = none <;>
    rcases v.compare? w with _ | _ | _ | _ <;> simp [hapart, hunknown] <;> rfl

/-- A first end that rules the value out decides the range. -/
theorem ranged_of_below {v low : Value N} (high : Value N)
    (h : comparison (· != .lt) v low = .boolean false) : v.ranged low high = .boolean false := by
  refine if_pos (.inl ?_)
  rw [comparison] at h
  generalize v.compare? low = compared at h ⊢
  rcases compared with _ | _ | _ | _
  case some.lt => rfl
  all_goals cases h

/-- **Both ends.**  Unless the first end rules the value out, the conjunction of the comparisons with both
ends is the range. -/
theorem conjunction_ranged {v low : Value N} (high : Value N)
    (h : comparison (· != .lt) v low ≠ .boolean false) :
    conjunction (comparison (· != .lt) v low) (comparison (· != .gt) v high) =
      some (v.ranged low high) := by
  rw [comparison] at h
  simp only [ranged, comparison]
  generalize v.compare? low = below at h ⊢
  rcases below with _ | _ | _ | _
  case some.lt => exact absurd rfl h
  all_goals rcases v.compare? high with _ | _ | _ | _ <;> simp <;> rfl

end Value

/-! ## Their evaluation -/

variable {b : Bindings N} {x e : Expr N} {v : Value N}

omit [Number N] in
/-- The truth value of a value is the value itself. -/
theorem Value.truth?_eq_some {t : Bool} : v.truth? = some t ↔ v = .boolean t := by
  cases v <;> simp [Value.truth?]

omit [Number N] in
theorem decidedByLeft_or (v : Value N) :
    decidedByLeft "OR" v = if v.truth? = some true then some (.boolean true) else none := by
  have hupper : Text.toUpper "OR" = "OR" := by decide
  rw [decidedByLeft, hupper]
  rcases v.truth? with _ | _ | _ <;> rfl

omit [Number N] in
theorem decidedByLeft_and (v : Value N) :
    decidedByLeft "AND" v = if v.truth? = some false then some (.boolean false) else none := by
  have hupper : Text.toUpper "AND" = "AND" := by decide
  rw [decidedByLeft, hupper]
  rcases v.truth? with _ | _ | _ <;> rfl

/-- A disjunction whose left side is known to be true does not look at its right side. -/
theorem evaluate_or {l r : Expr N} {v w u : Value N} (hl : l.evaluate b = .ok v)
    (hr : r.evaluate b = .ok w) (htrue : v = .boolean true → u = .boolean true)
    (hu : v ≠ .boolean true → disjunction v w = some u) : (Expr.binary l "OR" r).evaluate b = .ok u := by
  by_cases hv : v = .boolean true
  · rw [Expr.evaluate, hl, ok_bind, hv, htrue hv]
    rfl
  · refine evaluate_binary hl hr ?_ ?_
    · rw [decidedByLeft_or, if_neg (by simpa [Value.truth?_eq_some] using hv)]
    · have hupper : Text.toUpper "OR" = "OR" := by decide
      simp only [binaryValue, hupper, hu hv, Option.map_some]

/-- A conjunction whose left side is known to be false does not look at its right side. -/
theorem evaluate_and {l r : Expr N} {v w u : Value N} (hl : l.evaluate b = .ok v)
    (hr : r.evaluate b = .ok w) (hfalse : v = .boolean false → u = .boolean false)
    (hu : v ≠ .boolean false → conjunction v w = some u) : (Expr.binary l "AND" r).evaluate b = .ok u := by
  by_cases hv : v = .boolean false
  · rw [Expr.evaluate, hl, ok_bind, hv, hfalse hv]
    rfl
  · refine evaluate_binary hl hr ?_ ?_
    · rw [decidedByLeft_and, if_neg (by simpa [Value.truth?_eq_some] using hv)]
    · have hupper : Text.toUpper "AND" = "AND" := by decide
      simp only [binaryValue, hupper, hu hv, Option.map_some]

/-- The comparison of two expressions for equality. -/
theorem evaluate_equal {l r : Expr N} {v w : Value N} (hl : l.evaluate b = .ok v)
    (hr : r.evaluate b = .ok w) :
    (Expr.binary l "=" r).evaluate b = .ok (comparison (· == .eq) v w) :=
  evaluate_predicate (p := ("=", (· == .eq))) (by decide) hl hr

/-- **All disjunctions.**  Comparisons joined to a membership give the membership in all items. -/
theorem evaluate_disjunctions (hx : x.evaluate b = .ok v) {items : List (Expr N)} {ws : List (Value N)}
    (hitems : List.Forall₂ (fun item w => item.evaluate b = .ok w) items ws) {seen : List (Value N)}
    {joined : Expr N} (hjoined : joined.evaluate b = .ok (v.listed seen)) :
    (items.foldl (fun joined item => .binary joined "OR" (.binary x "=" item)) joined).evaluate b =
      .ok (v.listed (seen ++ ws)) := by
  induction hitems generalizing seen joined with
  | nil => rwa [List.append_nil]
  | @cons item w _ ws hitem _ ih =>
      rw [List.foldl_cons, List.append_cons]
      refine ih (evaluate_or hjoined (evaluate_equal hx hitem) (Value.listed_append_of_true [w]) ?_)
      exact fun hopen => Value.disjunction_listed hopen w

/-- The value of an expression that may be denied. -/
theorem evaluate_denyIf (negated : Bool) (he : e.evaluate b = .ok v)
    (hv : v = .boolean true ∨ v = .null ∨ v = .boolean false) :
    (Sql.denyIf negated e).evaluate b = .ok (v.deniedIf negated) := by
  cases negated with
  | false => exact he
  | true =>
      have hnot : unaryValue "NOT" v = some (.ok v.denied) := by
        rcases hv with rfl | rfl | rfl <;> rfl
      rw [Sql.denyIf, if_pos rfl, Expr.evaluate, he, ok_bind, hnot]
      rfl

/-- A list of comparisons. -/
theorem evaluate_oneOfExpr (hx : x.evaluate b = .ok v) {first : Expr N} {others : List (Expr N)}
    {w : Value N} {ws : List (Value N)} (hfirst : first.evaluate b = .ok w)
    (hothers : List.Forall₂ (fun item w => item.evaluate b = .ok w) others ws) :
    (Sql.oneOfExpr x first others).evaluate b = .ok (v.listed (w :: ws)) := by
  rw [Sql.oneOfExpr, Expr.evaluate]
  have hequal : (Expr.binary x "=" first).evaluate b = .ok (v.listed [w]) := by
    rw [Value.listed_singleton]
    exact evaluate_equal hx hfirst
  exact evaluate_disjunctions hx hothers hequal

/-- The comparisons with both ends. -/
theorem evaluate_betweenExpr (hx : x.evaluate b = .ok v) {low high : Expr N} {l h : Value N}
    (hlow : low.evaluate b = .ok l) (hhigh : high.evaluate b = .ok h) :
    (Sql.betweenExpr x low high).evaluate b = .ok (v.ranged l h) := by
  rw [Sql.betweenExpr, Expr.evaluate]
  have hfirst := evaluate_predicate (p := (">=", (· != .lt))) (by decide) hx hlow
  have hsecond := evaluate_predicate (p := ("<=", (· != .gt))) (by decide) hx hhigh
  exact evaluate_and hfirst hsecond (Value.ranged_of_below h) (Value.conjunction_ranged h)

/-! ## What is written -/

namespace Sql.Term

/-- The expression a term is written for has this value. -/
def Gives (b : Bindings N) (t : Term) (v : Value N) : Prop :=
  ∃ e : Expr N, t.toExpr = .ok e ∧ e.evaluate b = .ok v

/-- Terms that have values are written for expressions that have these values. -/
theorem exists_toExprs {items : List Term} {ws : List (Value N)} (h : List.Forall₂ (Gives b) items ws) :
    ∃ es : List (Expr N), toExprs items = .ok es ∧
      List.Forall₂ (fun e w => e.evaluate b = .ok w) es ws := by
  induction h with
  | nil => exact ⟨[], rfl, .nil⟩
  | cons hitem _ ih =>
      obtain ⟨e, he, hvalue⟩ := hitem
      obtain ⟨es, hes, hvalues⟩ := ih
      refine ⟨e :: es, ?_, .cons hvalue hvalues⟩
      rw [toExprs, he, ok_bind, hes]
      rfl

/-- **`IN` and `BETWEEN` are three-valued.**  Behind a term that has a value, a list of at least one term,
all of which have values, is true if an item compares equal, else unknown if a comparison is, else false; a
range is false if one of its ends rules the value out, else unknown if a comparison with an end is, else true.
With `NOT` it is the denial, in which what is unknown stays so. -/
theorem gives_listed_ranged {t : Term} (ht : t.Gives b v) (negated : Bool) :
    (∀ (items : List Term) (ws : List (Value N)), items ≠ [] → List.Forall₂ (Gives b) items ws →
      (inList t negated items).Gives b ((v.listed ws).deniedIf negated)) ∧
    ∀ (low high : Term) (lowest highest : Value N), low.Gives b lowest → high.Gives b highest →
      (between t negated low high).Gives b ((v.ranged lowest highest).deniedIf negated) := by
  obtain ⟨x, hread, hx⟩ := ht
  constructor
  · intro items ws hne hitems
    obtain ⟨es, hes, hvalues⟩ := exists_toExprs hitems
    cases hvalues with
    | nil =>
        cases hitems
        exact absurd rfl hne
    | @cons first w others rest hfirst hothers =>
        refine ⟨denyIf negated (oneOfExpr x first others), ?_,
          evaluate_denyIf negated (evaluate_oneOfExpr hx hfirst hothers) (Value.listed_cases v _)⟩
        rw [toExpr, hread, ok_bind, hes]
        rfl
  · rintro low high lowest highest ⟨l, hlow, hl⟩ ⟨h, hhigh, hh⟩
    refine ⟨denyIf negated (betweenExpr x l h), ?_,
      evaluate_denyIf negated (evaluate_betweenExpr hx hl hh) (Value.ranged_cases v _ _)⟩
    rw [toExpr, hread, ok_bind, hlow, ok_bind, hhigh]
    rfl

/-- `3 NOT IN (1, NULL)` is unknown, and `3 NOT BETWEEN NULL AND 1` is true, although one end is unknown. -/
theorem gives_listed_ranged_null :
    (inList (.number "3" false) true [.number "1" false, .null]).Gives
        (PathMap.empty : Bindings Binary64) .null ∧
      (between (.number "3" false) true .null (.number "1" false)).Gives
        (PathMap.empty : Bindings Binary64) (.boolean true) := by
  have hthree : (number "3" false).Gives (PathMap.empty : Bindings Binary64) (.integer 3) :=
    ⟨.literal ⟨.integer 3, "3"⟩, rfl, rfl⟩
  have hone : (number "1" false).Gives (PathMap.empty : Bindings Binary64) (.integer 1) :=
    ⟨.literal ⟨.integer 1, "1"⟩, rfl, rfl⟩
  have hnull : null.Gives (PathMap.empty : Bindings Binary64) .null := ⟨.literal (.ofValue .null), rfl, rfl⟩
  obtain ⟨hlists, hranges⟩ := gives_listed_ranged hthree true
  have hlisted := hlists [.number "1" false, .null] [.integer 1, .null] (List.cons_ne_nil _ _)
    (.cons hone (.cons hnull .nil))
  have hranged := hranges .null (.number "1" false) .null (.integer 1) hnull hone
  have hunknown : (Value.integer 3 : Value Binary64).listed [.integer 1, .null] = .null := by
    decide +kernel
  have hfalse : (Value.integer 3 : Value Binary64).ranged .null (.integer 1) = .boolean false := by
    decide +kernel
  rw [hunknown] at hlisted
  rw [hfalse] at hranged
  exact ⟨hlisted, hranged⟩

end Sql.Term

end PrivateSql
