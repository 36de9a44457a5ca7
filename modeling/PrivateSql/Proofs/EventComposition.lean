import Mathlib.Algebra.GroupWithZero.Nat
import PrivateSql.Privacy.Event
/-!
# Composed events

An event is a tree of draws of noise, some of which have no impact.  What counts of it is the list of
the draws with an impact: composing events puts these lists one after the other, however deep the
events are nested and whatever is hidden in them.  So composing is associative, sizes add up, and no draw
is lost.

* `PrivacyEvent.elementary` — the elementary events of an event, in order;
* `PrivacyEvent.elementary_compose`, `PrivacyEvent.elementary_ofList` — composing two events, and
  several, keeps the elementary events of those that have an impact;
* `PrivacyEvent.impacts`, `PrivacyEvent.impacts_compose` — the elementary events with an impact, and those
  of two events together;
* `PrivacyEvent.compose_laws` — associativity, sizes, and the event of a list.
-/

namespace PrivateSql.PrivacyEvent

variable {N : Type} [Number N]

/-! ## Elementary events -/

mutual
/-- The elementary events that an event is made of. -/
def elementary : PrivacyEvent N → List (PrivacyEvent N)
  | .noOp => []
  | .gaussian m => [.gaussian m]
  | .laplace m => [.laplace m]
  | .epsilonDelta e d => [.epsilonDelta e d]
  | .composed events => elementaryAll events

/-- The elementary events that some events are made of. -/
def elementaryAll : List (PrivacyEvent N) → List (PrivacyEvent N)
  | [] => []
  | e :: es => elementary e ++ elementaryAll es
end

omit [Number N] in
theorem elementaryAll_append (es es' : List (PrivacyEvent N)) :
    elementaryAll (es ++ es') = elementaryAll es ++ elementaryAll es' := by
  induction es with
  | nil => rfl
  | cons e es ih => rw [List.cons_append, elementaryAll, elementaryAll, ih, List.append_assoc]

omit [Number N] in
/-- An event is made of what its parts are made of. -/
theorem elementaryAll_parts (e : PrivacyEvent N) : elementaryAll e.parts = e.elementary := by
  cases e <;> simp [parts, elementary, elementaryAll]

theorem areNoOp_append (es es' : List (PrivacyEvent N)) :
    areNoOp (es ++ es') = (areNoOp es && areNoOp es') := by
  induction es with
  | nil => rfl
  | cons e es ih => rw [List.cons_append, areNoOp, areNoOp, ih, Bool.and_assoc]

/-- An event has an impact when one of its parts does. -/
theorem areNoOp_parts (e : PrivacyEvent N) : areNoOp e.parts = e.isNoOp := by
  cases e <;> simp [parts, isNoOp, areNoOp]

/-- No event, or one with an impact: what composing events leads to. -/
def IsTotal (e : PrivacyEvent N) : Prop := e = .noOp ∨ e.isNoOp = false

/-- **Composing two events.**  The elementary events of the second one follow those of the first one,
when it has an impact. -/
theorem elementary_compose {e : PrivacyEvent N} (h : e.IsTotal) (e' : PrivacyEvent N) :
    (e.compose e').IsTotal ∧
      (e.compose e').elementary = e.elementary ++ if e'.isNoOp then [] else e'.elementary := by
  unfold compose
  by_cases hnoOp' : e'.isNoOp = true
  · simpa [hnoOp'] using h
  rcases h with rfl | hnoOp
  · simp [hnoOp', isNoOp, elementary, IsTotal]
  · have htotal : (PrivacyEvent.composed (e.parts ++ e'.parts)).isNoOp = false := by
      rw [isNoOp, areNoOp_append, areNoOp_parts, hnoOp, Bool.false_and]
    have helementary : (PrivacyEvent.composed (e.parts ++ e'.parts)).elementary =
        e.elementary ++ e'.elementary := by
      rw [elementary, elementaryAll_append, elementaryAll_parts, elementaryAll_parts]
    simp [hnoOp', hnoOp, IsTotal, htotal, helementary]

/-- **Composing several events.**  What has an impact is kept, in its order. -/
theorem elementary_ofList (events : List (PrivacyEvent N)) :
    (ofList events).elementary = (events.filter fun e => !e.isNoOp).flatMap elementary := by
  have hrun : ∀ (events : List (PrivacyEvent N)) (start : PrivacyEvent N), start.IsTotal →
      (events.foldl compose start).elementary =
        start.elementary ++ (events.filter fun e => !e.isNoOp).flatMap elementary := by
    intro events
    induction events with
    | nil => simp
    | cons e events ih =>
        intro start hstart
        obtain ⟨htotal, helementary⟩ := elementary_compose hstart e
        rw [List.foldl_cons, ih _ htotal, helementary]
        cases he : e.isNoOp <;> simp [he]
  have hall := hrun events .noOp (.inl rfl)
  rwa [elementary, List.nil_append] at hall

/-! ## Events with an impact -/

/-- The elementary events with an impact that an event is made of, in order. -/
def impacts (e : PrivacyEvent N) : List (PrivacyEvent N) := e.elementary.filter fun x => !x.isNoOp

/-- The elementary events with an impact that some events are made of. -/
def impactsAll (es : List (PrivacyEvent N)) : List (PrivacyEvent N) :=
  (elementaryAll es).filter fun x => !x.isNoOp

theorem impactsAll_cons (e : PrivacyEvent N) (es : List (PrivacyEvent N)) :
    impactsAll (e :: es) = e.impacts ++ impactsAll es := by
  rw [impactsAll, elementaryAll, List.filter_append]
  rfl

theorem impactsAll_append (es es' : List (PrivacyEvent N)) :
    impactsAll (es ++ es') = impactsAll es ++ impactsAll es' := by
  rw [impactsAll, elementaryAll_append, List.filter_append]
  rfl

theorem impactsAll_parts (e : PrivacyEvent N) : impactsAll e.parts = e.impacts := by
  rw [impactsAll, elementaryAll_parts]
  rfl

/-- The event of a single draw, which has an impact or not. -/
theorem impacts_of_elementary {e : PrivacyEvent N} (h : e.elementary = [e]) :
    e.impacts = if e.isNoOp then [] else [e] := by
  rw [impacts, h]
  cases he : e.isNoOp <;> simp [he]

mutual
/-- The size of an event counts the draws with an impact. -/
theorem length_impacts : (e : PrivacyEvent N) → e.impacts.length = e.size
  | .noOp => rfl
  | .gaussian m => by
      rw [impacts_of_elementary rfl, size]
      split <;> rfl
  | .laplace m => by
      rw [impacts_of_elementary rfl, size]
      split <;> rfl
  | .epsilonDelta e d => by
      rw [impacts_of_elementary rfl, size]
      split <;> rfl
  | .composed events => length_impactsAll events

theorem length_impactsAll : (es : List (PrivacyEvent N)) → (impactsAll es).length = sizeAll es
  | [] => rfl
  | e :: es => by
      rw [impactsAll_cons, List.length_append, length_impacts e, length_impactsAll es, sizeAll]
end

mutual
/-- An event is without impact when none of its draws has one. -/
theorem isNoOp_iff_impacts : (e : PrivacyEvent N) → (e.isNoOp = true ↔ e.impacts = [])
  | .noOp => by simp [isNoOp, impacts, elementary]
  | .gaussian m => by
      rw [impacts_of_elementary rfl]
      simp
  | .laplace m => by
      rw [impacts_of_elementary rfl]
      simp
  | .epsilonDelta e d => by
      rw [impacts_of_elementary rfl]
      simp
  | .composed events => by
      rw [isNoOp, areNoOp_iff_impactsAll events]
      rfl

theorem areNoOp_iff_impactsAll : (es : List (PrivacyEvent N)) → (areNoOp es = true ↔ impactsAll es = [])
  | [] => by simp [areNoOp, impactsAll, elementaryAll]
  | e :: es => by
      rw [areNoOp, Bool.and_eq_true, isNoOp_iff_impacts e, areNoOp_iff_impactsAll es, impactsAll_cons,
        List.append_eq_nil_iff]
end

/-! ## Composing -/

/-- Two events with an impact are put together from their parts. -/
theorem compose_of_impact {a b : PrivacyEvent N} (ha : a.isNoOp = false) (hb : b.isNoOp = false) :
    a.compose b = .composed (a.parts ++ b.parts) := by
  simp [compose, ha, hb]

/-- **What composing keeps.**  The draws with an impact of the second event follow those of the first. -/
theorem impacts_compose (a b : PrivacyEvent N) : (a.compose b).impacts = a.impacts ++ b.impacts := by
  unfold compose
  split
  · rename_i hb
    rw [(isNoOp_iff_impacts b).mp hb, List.append_nil]
  · split
    · rename_i ha
      rw [(isNoOp_iff_impacts a).mp ha, List.nil_append]
    · have hparts : (PrivacyEvent.composed (a.parts ++ b.parts)).impacts =
          impactsAll (a.parts ++ b.parts) := rfl
      rw [hparts, impactsAll_append, impactsAll_parts, impactsAll_parts]

theorem isNoOp_compose (a b : PrivacyEvent N) : (a.compose b).isNoOp = (a.isNoOp && b.isNoOp) := by
  rw [Bool.eq_iff_iff, Bool.and_eq_true, isNoOp_iff_impacts, isNoOp_iff_impacts a, isNoOp_iff_impacts b,
    impacts_compose, List.append_eq_nil_iff]

/-- **Composing is associative.**  An event without impact drops out on either side; three events with an
impact are flattened into the same parts. -/
theorem compose_assoc (a b c : PrivacyEvent N) : (a.compose b).compose c = a.compose (b.compose c) := by
  have hright : ∀ x y : PrivacyEvent N, y.isNoOp = true → x.compose y = x := by
    intro x y hy
    simp [compose, hy]
  have hleft : ∀ x y : PrivacyEvent N, x.isNoOp = true → y.isNoOp = false → x.compose y = y := by
    intro x y hx hy
    simp [compose, hx, hy]
  cases hc : c.isNoOp with
  | true => rw [hright _ c hc, hright b c hc]
  | false =>
      cases hb : b.isNoOp with
      | true => rw [hright a b hb, hleft b c hb hc]
      | false =>
          have hbc : (b.compose c).isNoOp = false := by rw [isNoOp_compose, hb, Bool.false_and]
          cases ha : a.isNoOp with
          | true => rw [hleft a b ha hb, hleft a _ ha hbc]
          | false =>
              have hab : (a.compose b).isNoOp = false := by rw [isNoOp_compose, ha, Bool.false_and]
              rw [compose_of_impact hab hc, compose_of_impact ha hbc, compose_of_impact ha hb,
                compose_of_impact hb hc]
              simp [parts]

/-- **What collecting keeps.**  The draws with an impact of each event, in the order of the events. -/
theorem impacts_ofList (events : List (PrivacyEvent N)) :
    (ofList events).impacts = events.flatMap impacts := by
  have hrun : ∀ (events : List (PrivacyEvent N)) (start : PrivacyEvent N),
      (events.foldl compose start).impacts = start.impacts ++ events.flatMap impacts := by
    intro events
    induction events with
    | nil => simp
    | cons e events ih =>
        intro start
        rw [List.foldl_cons, ih, impacts_compose, List.flatMap_cons, List.append_assoc]
  exact hrun events .noOp

/-- **Events compose like a monoid.**  Composing is associative, and the empty event is neutral: it leaves
every event that has an impact as it is, on both sides.  The size of a composed event is the sum of the
sizes, and an event has size 0 exactly when it has no impact.  The event of a list has the sum of the sizes,
the draws with an impact of all its members in their order, and no impact exactly when none of them has
one. -/
theorem compose_laws :
    (∀ a b c : PrivacyEvent N, (a.compose b).compose c = a.compose (b.compose c)) ∧
      (∀ a : PrivacyEvent N, a.compose .noOp = a ∧ (a.isNoOp = false → PrivacyEvent.noOp.compose a = a)) ∧
      (∀ a b : PrivacyEvent N, (a.compose b).size = a.size + b.size) ∧
      (∀ a : PrivacyEvent N, a.isNoOp = true ↔ a.size = 0) ∧
      ∀ events : List (PrivacyEvent N),
        (ofList events).size = (events.map size).sum ∧
          (ofList events).impacts = events.flatMap impacts ∧
          ((ofList events).isNoOp = true ↔ ∀ e ∈ events, e.isNoOp = true) := by
  refine ⟨compose_assoc, fun a => ⟨?_, fun ha => ?_⟩, fun a b => ?_, fun a => ?_, fun events => ⟨?_, ?_, ?_⟩⟩
  · simp [compose, isNoOp]
  · simp [compose, isNoOp, ha]
  · rw [← length_impacts, impacts_compose, List.length_append, length_impacts, length_impacts]
  · rw [isNoOp_iff_impacts, ← length_impacts, List.length_eq_zero_iff]
  · rw [← length_impacts, impacts_ofList, List.length_flatMap]
    simp only [length_impacts]
  · exact impacts_ofList events
  · rw [isNoOp_iff_impacts, impacts_ofList, List.flatMap_eq_nil_iff]
    simp only [isNoOp_iff_impacts]

end PrivateSql.PrivacyEvent
