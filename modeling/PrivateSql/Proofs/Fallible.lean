import Mathlib.Data.List.Forall2
/-!
# Computations that may fail

Evaluation, grouping and execution are sequences of steps any of which may fail.  The facts here
take such a sequence apart: a sequence succeeds exactly when each of its steps does, and a pass over
a list succeeds exactly when it succeeds element by element.

* `bind_eq_ok`, `bind_eq_error` — the first step of a sequence and the rest;
* `mapM_eq_ok`, `mapM_eq_error` — a pass that treats the elements one by one;
* `foldlM_invariant` — what every step of a fold keeps, the whole fold keeps;
* `FailsOnly` — a computation whose errors are all of one sort.
-/

namespace PrivateSql

variable {ε α β γ : Type}

@[simp] theorem ok_bind {a : α} {f : α → Except ε β} : ((.ok a : Except ε α) >>= f) = f a := rfl

@[simp] theorem error_bind {e : ε} {f : α → Except ε β} :
    ((.error e : Except ε α) >>= f) = .error e := rfl

/-- A sequence succeeds when its first step does and the rest succeeds on its result. -/
theorem bind_eq_ok {x : Except ε α} {f : α → Except ε β} {b : β} :
    (x >>= f) = .ok b ↔ ∃ a, x = .ok a ∧ f a = .ok b := by
  cases x <;> simp

/-- A sequence fails when its first step does, or the rest on its result. -/
theorem bind_eq_error {x : Except ε α} {f : α → Except ε β} {e : ε} :
    (x >>= f) = .error e ↔ x = .error e ∨ ∃ a, x = .ok a ∧ f a = .error e := by
  cases x <;> simp

/-- The result of a computation, its error apart. -/
theorem map_eq_ok {x : Except ε α} {f : α → β} {b : β} :
    x.map f = .ok b ↔ ∃ a, x = .ok a ∧ f a = b := by
  cases x <;> simp [Except.map]

theorem toOption_eq_some {x : Except ε α} {a : α} : x.toOption = some a ↔ x = .ok a := by
  cases x <;> simp [Except.toOption]

/-- The error of a computation, if it has one. -/
def errorOf : Except ε α → Option ε
  | .error e => some e
  | .ok _ => none

theorem errorOf_eq_some {x : Except ε α} {e : ε} : errorOf x = some e ↔ x = .error e := by
  cases x <;> simp [errorOf]

/-- **Passes over a list.**  Treating the elements one by one succeeds exactly when each element
can be treated, and gives the results in their order. -/
theorem mapM_eq_ok {f : α → Except ε β} {l : List α} {bs : List β} :
    l.mapM f = .ok bs ↔ List.Forall₂ (fun a b => f a = .ok b) l bs := by
  induction l generalizing bs with
  | nil =>
      constructor
      · intro h
        cases h
        exact .nil
      · intro h
        cases h
        rfl
  | cons a l ih =>
      rw [List.mapM_cons, bind_eq_ok]
      constructor
      · rintro ⟨b, hb, hrest⟩
        obtain ⟨cs, hcs, hbs⟩ := bind_eq_ok.mp hrest
        cases hbs
        exact .cons hb (ih.mp hcs)
      · intro h
        cases h with
        | cons hb htail =>
            exact ⟨_, hb, bind_eq_ok.mpr ⟨_, ih.mpr htail, rfl⟩⟩

/-- A pass over two lists, one after the other. -/
theorem mapM_append_eq_ok {f : α → Except ε β} {l l' : List α} {bs : List β} :
    (l ++ l').mapM f = .ok bs ↔
      ∃ cs cs', l.mapM f = .ok cs ∧ l'.mapM f = .ok cs' ∧ bs = cs ++ cs' := by
  rw [List.mapM_append, bind_eq_ok]
  constructor
  · rintro ⟨cs, hcs, h⟩
    obtain ⟨cs', hcs', h⟩ := bind_eq_ok.mp h
    cases h
    exact ⟨cs, cs', hcs, hcs', rfl⟩
  · rintro ⟨cs, cs', hcs, hcs', rfl⟩
    exact ⟨cs, hcs, bind_eq_ok.mpr ⟨cs', hcs', rfl⟩⟩

theorem mapM_cons_eq_ok {f : α → Except ε β} {a : α} {l : List α} {bs : List β} :
    (a :: l).mapM f = .ok bs ↔ ∃ b cs, f a = .ok b ∧ l.mapM f = .ok cs ∧ bs = b :: cs := by
  rw [List.mapM_cons, bind_eq_ok]
  constructor
  · rintro ⟨b, hb, h⟩
    obtain ⟨cs, hcs, h⟩ := bind_eq_ok.mp h
    cases h
    exact ⟨b, cs, hb, hcs, rfl⟩
  · rintro ⟨b, cs, hb, hcs, rfl⟩
    exact ⟨b, hb, bind_eq_ok.mpr ⟨cs, hcs, rfl⟩⟩

/-- An element and its result stand at the same place. -/
theorem eq_ok_of_mem_zip {f : α → Except ε β} {l : List α} {bs : List β} {a : α} {b : β}
    (h : l.mapM f = .ok bs) (hzip : (a, b) ∈ l.zip bs) : f a = .ok b :=
  (List.forall₂_iff_zip.mp (mapM_eq_ok.mp h)).2 hzip

/-- Each element has its result. -/
theorem exists_result_of_mem {f : α → Except ε β} {l : List α} {bs : List β} {a : α}
    (h : l.mapM f = .ok bs) (ha : a ∈ l) : ∃ b, (a, b) ∈ l.zip bs ∧ f a = .ok b := by
  have hlength := (mapM_eq_ok.mp h).length_eq
  obtain ⟨i, hi, rfl⟩ := List.mem_iff_getElem.mp ha
  have hzip : (l[i], bs[i]) ∈ l.zip bs :=
    List.mem_iff_getElem.mpr ⟨i, by rw [List.length_zip]; omega, List.getElem_zip⟩
  exact ⟨bs[i], hzip, eq_ok_of_mem_zip h hzip⟩

/-- Each result is that of an element. -/
theorem exists_element_of_mem {f : α → Except ε β} {l : List α} {bs : List β} {b : β}
    (h : l.mapM f = .ok bs) (hb : b ∈ bs) : ∃ a, (a, b) ∈ l.zip bs ∧ f a = .ok b := by
  have hlength := (mapM_eq_ok.mp h).length_eq
  obtain ⟨i, hi, rfl⟩ := List.mem_iff_getElem.mp hb
  have hzip : (l[i], bs[i]) ∈ l.zip bs :=
    List.mem_iff_getElem.mpr ⟨i, by rw [List.length_zip]; omega, List.getElem_zip⟩
  exact ⟨l[i], hzip, eq_ok_of_mem_zip h hzip⟩

/-- What stands beside the element at a position. -/
theorem exists_getElem?_of_forall₂ {R : α → β → Prop} {l : List α} {bs : List β} {i : Nat} {a : α}
    (h : List.Forall₂ R l bs) (ha : l[i]? = some a) : ∃ b, bs[i]? = some b ∧ R a b := by
  have hlength := h.length_eq
  obtain ⟨hi, rfl⟩ := List.getElem?_eq_some_iff.mp ha
  exact ⟨bs[i], List.getElem?_eq_getElem _, (List.forall₂_iff_get.mp h).2 i hi (hlength ▸ hi)⟩

/-- Where every element has a related one, some list stands beside. -/
theorem exists_forall₂ {R : α → β → Prop} {l : List α} (h : ∀ a ∈ l, ∃ b, R a b) :
    ∃ bs, List.Forall₂ R l bs := by
  induction l with
  | nil => exact ⟨[], .nil⟩
  | cons a l ih =>
      obtain ⟨b, hb⟩ := h a List.mem_cons_self
      obtain ⟨bs, hbs⟩ := ih fun a' ha' => h a' (List.mem_cons_of_mem a ha')
      exact ⟨b :: bs, .cons hb hbs⟩

/-- Each element of the second list stands beside one of the first. -/
theorem exists_left_of_forall₂ {R : α → β → Prop} {l : List α} {bs : List β} {b : β}
    (h : List.Forall₂ R l bs) (hb : b ∈ bs) : ∃ a ∈ l, R a b := by
  induction h with
  | nil => cases hb
  | cons hhead _ ih =>
      rcases List.mem_cons.mp hb with rfl | hb
      · exact ⟨_, List.mem_cons_self, hhead⟩
      · obtain ⟨a, ha, hR⟩ := ih hb
        exact ⟨a, List.mem_cons_of_mem _ ha, hR⟩

/-- The element at a position has its result there. -/
theorem exists_getElem?_of_mapM {f : α → Except ε β} {l : List α} {bs : List β} {i : Nat} {a : α}
    (h : l.mapM f = .ok bs) (ha : l[i]? = some a) : ∃ b, bs[i]? = some b ∧ f a = .ok b :=
  exists_getElem?_of_forall₂ (mapM_eq_ok.mp h) ha

/-- A pass over some of the elements gives their results. -/
theorem mapM_filter_eq_ok {f : α → Except ε β} {l : List α} {bs : List β} {p : α → Bool}
    {p' : β → Bool} (h : l.mapM f = .ok bs) (hagree : ∀ a ∈ l, ∀ b, f a = .ok b → p a = p' b) :
    (l.filter p).mapM f = .ok (bs.filter p') := by
  induction l generalizing bs with
  | nil =>
      cases h
      rfl
  | cons a l ih =>
      obtain ⟨b, cs, hb, hcs, rfl⟩ := mapM_cons_eq_ok.mp h
      have htail := ih hcs fun a' ha' => hagree a' (List.mem_cons_of_mem _ ha')
      rw [List.filter_cons, List.filter_cons, ← hagree a List.mem_cons_self b hb]
      cases p a with
      | true => exact mapM_cons_eq_ok.mpr ⟨b, _, hb, htail, rfl⟩
      | false => exact htail

/-- **A pass that fails.**  It fails on the first element that cannot be treated. -/
theorem mapM_eq_error {f : α → Except ε β} {l : List α} {e : ε} :
    l.mapM f = .error e ↔ ∃ before a after bs, l = before ++ a :: after ∧
      before.mapM f = .ok bs ∧ f a = .error e := by
  constructor
  · intro h
    induction l with
    | nil => cases h
    | cons a l ih =>
        rw [List.mapM_cons] at h
        rcases bind_eq_error.mp h with ha | ⟨b, hb, hrest⟩
        · exact ⟨[], a, l, [], rfl, rfl, ha⟩
        · rcases bind_eq_error.mp hrest with hl | ⟨bs, -, hpure⟩
          · obtain ⟨before, a', after, bs, rfl, hbefore, herror⟩ := ih hl
            exact ⟨a :: before, a', after, b :: bs, rfl,
              mapM_cons_eq_ok.mpr ⟨b, bs, hb, hbefore, rfl⟩, herror⟩
          · cases hpure
  · rintro ⟨before, a, after, bs, rfl, hbefore, ha⟩
    rw [List.mapM_append, hbefore, ok_bind, List.mapM_cons, ha]
    rfl

/-- A pass that fails does so on one of the elements. -/
theorem exists_of_mapM_eq_error {f : α → Except ε β} {l : List α} {e : ε}
    (h : l.mapM f = .error e) : ∃ a ∈ l, f a = .error e := by
  obtain ⟨before, a, after, -, rfl, -, ha⟩ := mapM_eq_error.mp h
  exact ⟨a, List.mem_append_right _ List.mem_cons_self, ha⟩

/-- A pass succeeds when every element can be treated. -/
theorem exists_mapM_eq_ok {f : α → Except ε β} {l : List α} (h : ∀ a ∈ l, ∃ b, f a = .ok b) :
    ∃ bs, l.mapM f = .ok bs := by
  cases hm : l.mapM f with
  | ok bs => exact ⟨bs, rfl⟩
  | error e =>
      obtain ⟨a, ha, herror⟩ := exists_of_mapM_eq_error hm
      obtain ⟨b, hb⟩ := h a ha
      rw [hb] at herror
      cases herror

/-- A pass of checks that succeeds has made all of them. -/
theorem forM_eq_ok {f : α → Except ε Unit} {l : List α} :
    l.forM f = .ok () ↔ ∀ a ∈ l, f a = .ok () := by
  induction l with
  | nil => exact ⟨fun _ a ha => (List.not_mem_nil ha).elim, fun _ => rfl⟩
  | cons a l ih =>
      have hcons : (a :: l).forM f = (f a >>= fun _ => l.forM f) := rfl
      rw [hcons, bind_eq_ok]
      constructor
      · rintro ⟨⟨⟩, ha, hrest⟩ a' ha'
        rcases List.mem_cons.mp ha' with rfl | htail
        · exact ha
        · exact ih.mp hrest a' htail
      · intro h
        exact ⟨(), h a List.mem_cons_self,
          ih.mpr fun a' ha' => h a' (List.mem_cons_of_mem _ ha')⟩

/-- Passes with two functions that agree on the elements of a list are the same. -/
theorem mapM_congr_left {m : Type → Type} [Monad m] [LawfulMonad m] {α β : Type} {f g : α → m β}
    {l : List α} (h : ∀ a ∈ l, f a = g a) : l.mapM f = l.mapM g := by
  induction l with
  | nil => rfl
  | cons a l ih =>
      rw [List.mapM_cons, List.mapM_cons, h a List.mem_cons_self,
        ih fun a' ha' => h a' (List.mem_cons_of_mem _ ha')]

/-- **Folds keep invariants.**  A statement about the elements treated so far and the state, true
at the start and kept by every step that succeeds, is true of the whole list at the end. -/
theorem foldlM_invariant {f : β → α → Except ε β} {P : List α → β → Prop}
    (hstep : ∀ done a b b', P done b → f b a = .ok b' → P (done ++ [a]) b')
    {l done : List α} {b b' : β} (hstart : P done b) (h : l.foldlM f b = .ok b') :
    P (done ++ l) b' := by
  induction l generalizing done b with
  | nil =>
      cases h
      simpa using hstart
  | cons a l ih =>
      rw [List.foldlM_cons] at h
      obtain ⟨c, hc, hrest⟩ := bind_eq_ok.mp h
      have hnext := ih (hstep done a b c hstart hc) hrest
      simpa using hnext

/-- An error of a fold is that of one of its steps, from a state that earlier steps reached. -/
theorem foldlM_error {f : β → α → Except ε β} {P : β → Prop} {l : List α} {b : β} {e : ε}
    (hstart : P b) (hstep : ∀ b a b', P b → a ∈ l → f b a = .ok b' → P b')
    (h : l.foldlM f b = .error e) : ∃ c, P c ∧ ∃ a ∈ l, f c a = .error e := by
  induction l generalizing b with
  | nil => cases h
  | cons a l ih =>
      rw [List.foldlM_cons] at h
      rcases bind_eq_error.mp h with ha | ⟨c, hc, hrest⟩
      · exact ⟨b, hstart, a, List.mem_cons_self, ha⟩
      · have hnext : P c := hstep b a c hstart List.mem_cons_self hc
        obtain ⟨c', hc', a', ha', he⟩ := ih hnext
          (fun b a' b' hb ha' => hstep b a' b' hb (List.mem_cons_of_mem _ ha')) hrest
        exact ⟨c', hc', a', List.mem_cons_of_mem _ ha', he⟩

/-! ## Errors of one sort -/

/-- The errors of a computation, if it has one, satisfy a condition. -/
def FailsOnly (P : ε → Prop) (x : Except ε α) : Prop := ∀ e, x = .error e → P e

variable {P : ε → Prop}

@[simp] theorem failsOnly_ok (a : α) : FailsOnly P (.ok a : Except ε α) := by
  intro e h
  cases h

theorem failsOnly_error {e : ε} (h : P e) : FailsOnly P (.error e : Except ε α) := by
  intro e' he'
  cases he'
  exact h

/-- A sequence fails as its first step does, or as the rest. -/
theorem FailsOnly.bind {x : Except ε α} {f : α → Except ε β} (hx : FailsOnly P x)
    (hf : ∀ a, x = .ok a → FailsOnly P (f a)) : FailsOnly P (x >>= f) := by
  intro e he
  rcases bind_eq_error.mp he with herror | ⟨a, ha, herror⟩
  · exact hx e herror
  · exact hf a ha e herror

theorem FailsOnly.map {x : Except ε α} (f : α → β) (h : FailsOnly P x) :
    FailsOnly P (x.map f) := by
  cases x with
  | error e => exact failsOnly_error (h e rfl)
  | ok a => exact failsOnly_ok (f a)

/-- A pass over a list fails as it does on one of the elements. -/
theorem failsOnly_mapM {f : α → Except ε β} {l : List α} (h : ∀ a ∈ l, FailsOnly P (f a)) :
    FailsOnly P (l.mapM f) := by
  intro e he
  obtain ⟨a, ha, herror⟩ := exists_of_mapM_eq_error he
  exact h a ha e herror

/-- A fold fails as one of its steps does, on a state that the steps before it reached. -/
theorem failsOnly_foldlM {f : β → α → Except ε β} {Q : β → Prop} {l : List α} {b : β}
    (hstart : Q b) (hstep : ∀ b a b', Q b → a ∈ l → f b a = .ok b' → Q b')
    (h : ∀ b a, Q b → a ∈ l → FailsOnly P (f b a)) : FailsOnly P (l.foldlM f b) := by
  intro e he
  obtain ⟨b', hb', a, ha, herror⟩ := foldlM_error hstart hstep he
  exact h b' a hb' ha e herror

end PrivateSql
