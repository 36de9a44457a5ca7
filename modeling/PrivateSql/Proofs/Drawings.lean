import PrivateSql.Privacy.Noise
import PrivateSql.Proofs.Fallible
/-!
# Computations that draw words

Noise is computed from random words, which are drawn one after the other.  A computation that succeeds
gives a result and leaves the words that it did not draw; the facts here take it apart into its steps,
each of which starts from the words that the one before left.

* `Drawing.Gives`, `Drawing.Fails` — what a computation gives from some words or fails with, and the
  words that it leaves;
* `gives_pure`, `gives_bind`, `gives_ofExcept`, `fails_bind` — the steps of a computation;
* `gives_mapM_nil`, `gives_mapM_cons`, `forall₂_of_gives_mapM`, `exists_of_fails_mapM` — a pass over a
  list.
-/

namespace PrivateSql

namespace Drawing

variable {α β : Type} {x : Drawing α} {w w' : Words}

/-- From these words the computation gives this result, and leaves those words. -/
def Gives (x : Drawing α) (w : Words) (a : α) (w' : Words) : Prop := x.run.run w = (.ok a, w')

@[simp] theorem gives_pure {a b : α} : (pure a : Drawing α).Gives w b w' ↔ a = b ∧ w = w' := by
  constructor
  · intro h
    obtain ⟨hresult, hwords⟩ := Prod.mk.inj h
    exact ⟨Except.ok.inj hresult, hwords⟩
  · rintro ⟨rfl, rfl⟩
    rfl

/-- The run of a sequence: the rest goes on from the words that the first step leaves. -/
theorem run_bind (x : Drawing α) (f : α → Drawing β) (w : Words) : (x >>= f).run.run w =
    match x.run.run w with
    | (.ok a, w₁) => (f a).run.run w₁
    | (.error e, w₁) => (.error e, w₁) := by
  change ((x.run >>= ExceptT.bindCont f) : StateM Words _).run w = _
  rw [StateT.run_bind]
  rcases x.run.run w with ⟨result, w₁⟩
  cases result <;> rfl

/-- A sequence gives what the rest gives, from the words that the first step leaves. -/
theorem gives_bind {f : α → Drawing β} {b : β} :
    (x >>= f).Gives w b w' ↔ ∃ a w₁, x.Gives w a w₁ ∧ (f a).Gives w₁ b w' := by
  unfold Gives
  rw [run_bind]
  rcases hfirst : x.run.run w with ⟨result, w₁⟩
  constructor
  · intro h
    cases result with
    | error e => cases h
    | ok a => exact ⟨a, w₁, rfl, h⟩
  · rintro ⟨a, w₂, hx, h⟩
    obtain ⟨rfl, rfl⟩ := Prod.mk.inj hx
    exact h

@[simp] theorem gives_ofExcept {y : Except PrivacyError α} {a : α} :
    (ofExcept y).Gives w a w' ↔ y = .ok a ∧ w = w' := by
  cases y with
  | error e =>
      constructor
      · intro h
        cases h
      · rintro ⟨h, -⟩
        cases h
  | ok b =>
      rw [ofExcept, gives_pure, Except.ok.injEq]

/-- From these words the computation fails with this error, and leaves those words. -/
def Fails (x : Drawing α) (w : Words) (e : PrivacyError) (w' : Words) : Prop :=
  x.run.run w = (.error e, w')

/-- From any words a computation gives a result or fails. -/
theorem gives_or_fails (x : Drawing α) (w : Words) :
    (∃ a w', x.Gives w a w') ∨ ∃ e w', x.Fails w e w' := by
  unfold Gives Fails
  rcases x.run.run w with ⟨result, w'⟩
  cases result with
  | error e => exact .inr ⟨e, w', rfl⟩
  | ok a => exact .inl ⟨a, w', rfl⟩

/-- A sequence fails where its first step does, or the rest on what the first step gives. -/
theorem fails_bind {f : α → Drawing β} {e : PrivacyError} :
    (x >>= f).Fails w e w' ↔ x.Fails w e w' ∨ ∃ a w₁, x.Gives w a w₁ ∧ (f a).Fails w₁ e w' := by
  unfold Fails Gives
  rw [run_bind]
  rcases hfirst : x.run.run w with ⟨result, w₁⟩
  constructor
  · intro h
    cases result with
    | error e' =>
        obtain ⟨herror, rfl⟩ := Prod.mk.inj h
        obtain rfl := Except.error.inj herror
        exact .inl rfl
    | ok a => exact .inr ⟨a, w₁, rfl, h⟩
  · rintro (h | ⟨a, w₂, hx, h⟩)
    · obtain ⟨rfl, rfl⟩ := Prod.mk.inj h
      rfl
    · obtain ⟨rfl, rfl⟩ := Prod.mk.inj hx
      exact h

@[simp] theorem not_fails_pure {a : α} {e : PrivacyError} : ¬ (pure a : Drawing α).Fails w e w' :=
  fun h => nomatch congrArg Prod.fst h

section Passes

variable {f : α → Drawing β} {a : α} {l : List α} {bs : List β}

theorem gives_mapM_nil : (([] : List α).mapM f).Gives w bs w' ↔ bs = [] ∧ w = w' := by
  rw [List.mapM_nil, gives_pure, eq_comm]

/-- A pass gives the result of the first element, then those of the others. -/
theorem gives_mapM_cons : ((a :: l).mapM f).Gives w bs w' ↔
    ∃ b w₁ cs, (f a).Gives w b w₁ ∧ (l.mapM f).Gives w₁ cs w' ∧ bs = b :: cs := by
  rw [List.mapM_cons, gives_bind]
  constructor
  · rintro ⟨b, w₁, hb, h⟩
    obtain ⟨cs, w₂, hcs, h⟩ := gives_bind.mp h
    obtain ⟨rfl, rfl⟩ := gives_pure.mp h
    exact ⟨b, w₁, cs, hb, hcs, rfl⟩
  · rintro ⟨b, w₁, cs, hb, hcs, rfl⟩
    exact ⟨b, w₁, hb, gives_bind.mpr ⟨cs, w', hcs, gives_pure.mpr ⟨rfl, rfl⟩⟩⟩

/-- The results of a pass stand beside the elements. -/
theorem forall₂_of_gives_mapM (h : (l.mapM f).Gives w bs w') :
    List.Forall₂ (fun a b => ∃ w₁ w₂, (f a).Gives w₁ b w₂) l bs := by
  induction l generalizing w bs with
  | nil =>
      obtain ⟨rfl, -⟩ := gives_mapM_nil.mp h
      exact .nil
  | cons a l ih =>
      obtain ⟨b, w₁, cs, hb, hcs, rfl⟩ := gives_mapM_cons.mp h
      exact .cons ⟨w, w₁, hb⟩ (ih hcs)

/-- A pass that fails does so at one of the elements. -/
theorem exists_of_fails_mapM {e : PrivacyError} (h : (l.mapM f).Fails w e w') :
    ∃ a ∈ l, ∃ w₁, (f a).Fails w₁ e w' := by
  induction l generalizing w with
  | nil =>
      rw [List.mapM_nil] at h
      exact absurd h not_fails_pure
  | cons a l ih =>
      rw [List.mapM_cons] at h
      rcases fails_bind.mp h with hfirst | ⟨b, w₁, -, h⟩
      · exact ⟨a, List.mem_cons_self, w, hfirst⟩
      · rcases fails_bind.mp h with hrest | ⟨bs, w₂, -, h⟩
        · obtain ⟨a', ha', hfails⟩ := ih hrest
          exact ⟨a', List.mem_cons_of_mem _ ha', hfails⟩
        · exact absurd h not_fails_pure

end Passes

end Drawing

end PrivateSql
