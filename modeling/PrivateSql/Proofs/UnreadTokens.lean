import PrivateSql.Proofs.RereadPrimaries
/-!
# Tokens behind a sign that nothing reads

Some signs belong to no piece of the grammar.  A reading that comes to one of them ends there, or fails as it
would fail at the end of the text.  So two readings are compared: one of some tokens, and one of the same tokens
with such a sign and anything at all behind it.  They agree when both fail, or both read the same and what they
leave differs by those tokens only.  The pieces that others are put together from are compared here.

* `IdleTail` — an idle sign and what stands behind it;
* `Agree` — two readings with the same outcome;
* `Blind`, `Passes` — pieces and passages that are blind to an idle tail;
* `Advances` — pieces that are, and read at least one token.
-/

namespace PrivateSql.Sql.Grammar

/-! ## Idle signs -/

/-- Signs that no piece of the grammar begins with or goes on with. -/
def idleSigns : List String := [";", "]", "\x7d", "\\"]

/-- Is the token an idle sign? -/
def isIdle : Token → Bool
  | .symbol s => decide (s ∈ idleSigns)
  | _ => false

/-- Keywords after which the grammar takes tokens whatever they are. -/
def unrulyWords : List String := ["INSERT", "OPERATOR", "SET", "TABLE"]

/-- Tokens without the keywords that take others along. -/
def IsCalm (ts : List Token) : Prop := ∀ t ∈ ts, mark [t] ∉ unrulyWords

instance (ts : List Token) : Decidable (IsCalm ts) := List.decidableBAll _ ts

/-- An idle sign and the tokens behind it. -/
structure IdleTail where
  sign : String
  idle : sign ∈ idleSigns
  more : List Token

namespace IdleTail

/-- The sign with what stands behind it. -/
def tokens (tail : IdleTail) : List Token := .symbol tail.sign :: tail.more

theorem length_le (tail : IdleTail) (ts : List Token) : ts.length ≤ (ts ++ tail.tokens).length := by
  rw [List.length_append]
  exact Nat.le_add_right _ _

theorem sign_ne (tail : IdleTail) {m : String} (h : m ∉ idleSigns) : tail.sign ≠ m :=
  fun heq => h (heq ▸ tail.idle)

/-- A token that is no idle sign is not the first of an idle tail. -/
theorem append_eq_cons (tail : IdleTail) {t : Token} (ht : isIdle t = false) {ts us : List Token}
    (h : ts ++ tail.tokens = t :: us) : ∃ rest, ts = t :: rest ∧ us = rest ++ tail.tokens := by
  cases ts with
  | nil =>
      obtain ⟨rfl, -⟩ := List.cons.inj h
      exact absurd tail.idle (of_decide_eq_false ht)
  | cons u ts =>
      obtain ⟨rfl, rfl⟩ := List.cons.inj h
      exact ⟨ts, rfl, rfl⟩

theorem append_ne_cons (tail : IdleTail) {t : Token} (ht : isIdle t = false) {ts : List Token}
    (h : ∀ rest, ts ≠ t :: rest) : ∀ us, ts ++ tail.tokens ≠ t :: us := by
  intro us heq
  obtain ⟨rest, hts, -⟩ := tail.append_eq_cons ht heq
  exact h rest hts

end IdleTail

/-- Keywords and signs that are told from an idle sign and from no mark at all. -/
def areRead (ms : List String) : Bool := ms.all fun m => decide (m ∉ "" :: idleSigns)

theorem areRead_cons {m : String} {ms : List String} :
    areRead (m :: ms) = true ↔ m ∉ "" :: idleSigns ∧ areRead ms = true := by
  simp [areRead]

/-- No more than `k` tokens, all of them calm. -/
structure Within (k : Nat) (ts : List Token) : Prop where
  bound : ts.length ≤ k
  calm : IsCalm ts

namespace Within

variable {k j : Nat} {t : Token} {ts us : List Token}

theorem mono (h : Within k ts) (hkj : k ≤ j) : Within j ts := ⟨Nat.le_trans h.bound hkj, h.calm⟩

theorem self (h : Within k ts) : Within ts.length ts := ⟨Nat.le_refl _, h.calm⟩

theorem of_cons (h : Within (k + 1) (t :: ts)) : Within k ts :=
  ⟨Nat.le_of_succ_le_succ h.bound, fun u hu => h.calm u (List.mem_cons_of_mem t hu)⟩

theorem tail (h : Within k (t :: ts)) : Within k ts :=
  ⟨Nat.le_trans (Nat.le_succ _) h.bound, fun u hu => h.calm u (List.mem_cons_of_mem t hu)⟩

theorem exists_succ (h : Within k (t :: ts)) : ∃ j, k = j + 1 ∧ Within j ts := by
  cases k with
  | zero => exact absurd h.bound (Nat.not_succ_le_zero _)
  | succ k => exact ⟨k, rfl, h.of_cons⟩

theorem drop_one (h : Within (k + 1) ts) (hne : ts ≠ []) : Within k (ts.drop 1) := by
  obtain ⟨t, ts, rfl⟩ := List.exists_cons_of_ne_nil hne
  exact h.of_cons

theorem drop (h : Within k ts) (n : Nat) : Within k (ts.drop n) :=
  ⟨Nat.le_trans (by simp) h.bound, fun u hu => h.calm u (List.mem_of_mem_drop hu)⟩

theorem mark_ne (h : Within k ts) {m : String} (hm : m ∈ unrulyWords) : mark ts ≠ m := by
  rintro rfl
  cases ts with
  | nil => exact absurd hm (by decide)
  | cons t ts => exact h.calm t List.mem_cons_self (mark_cons t ts ▸ hm)

end Within

/-! ## Marks before an idle tail -/

section Marks

variable (tail : IdleTail) {k : Nat} {ms : List String} {ts : List Token}

theorem mark_append_of_ne_nil (h : ts ≠ []) (us : List Token) : mark (ts ++ us) = mark ts := by
  obtain ⟨t, ts, rfl⟩ := List.exists_cons_of_ne_nil h
  rw [List.cons_append, mark_cons, mark_cons t ts]

theorem mark_append_eq_iff {m : String} (hm : areRead [m] = true) :
    mark (ts ++ tail.tokens) = m ↔ mark ts = m := by
  have hread := (areRead_cons.mp hm).1
  by_cases h : ts = []
  · subst h
    have hsign := tail.sign_ne (fun hidle => hread (List.mem_cons_of_mem _ hidle))
    have hempty : "" ≠ m := fun heq => hread (heq ▸ List.mem_cons_self)
    exact ⟨fun heq => absurd heq hsign, fun heq => absurd heq hempty⟩
  · rw [mark_append_of_ne_nil h]

theorem mark_append_mem_iff (hms : areRead ms = true) :
    mark (ts ++ tail.tokens) ∈ ms ↔ mark ts ∈ ms := by
  induction ms with
  | nil => simp
  | cons m ms ih =>
      obtain ⟨hm, hms⟩ := areRead_cons.mp hms
      rw [List.mem_cons, List.mem_cons, ih hms,
        mark_append_eq_iff tail (areRead_cons.mpr ⟨hm, rfl⟩)]

/-- Only what stands first has a mark. -/
theorem ne_nil_of_mark {m : String} (hm : areRead [m] = true) (h : mark ts = m) : ts ≠ [] := by
  rintro rfl
  exact (areRead_cons.mp hm).1 (h ▸ List.mem_cons_self)

theorem drop_append_of_ne_nil (h : ts ≠ []) (us : List Token) : (ts ++ us).drop 1 = ts.drop 1 ++ us := by
  obtain ⟨t, ts, rfl⟩ := List.exists_cons_of_ne_nil h
  rfl

theorem drop_append_of_mark {m : String} (hm : areRead [m] = true) (h : mark ts = m) :
    (ts ++ tail.tokens).drop 1 = ts.drop 1 ++ tail.tokens :=
  drop_append_of_ne_nil (ne_nil_of_mark hm h) tail.tokens

theorem ne_nil_of_mark_mem (hms : areRead ms = true) (h : mark ts ∈ ms) : ts ≠ [] := by
  rintro rfl
  simp only [areRead, List.all_eq_true, decide_eq_true_eq] at hms
  exact hms _ h List.mem_cons_self

theorem skip?_append (hms : areRead ms = true) :
    skip? ms (ts ++ tail.tokens) = (skip? ms ts).map (· ++ tail.tokens) := by
  induction ms generalizing ts with
  | nil => rfl
  | cons m ms ih =>
      obtain ⟨hm, hms⟩ := areRead_cons.mp hms
      have hm : areRead [m] = true := areRead_cons.mpr ⟨hm, rfl⟩
      rw [skip?, skip?]
      by_cases h : mark ts = m
      · rw [if_pos ((mark_append_eq_iff tail hm).mpr h), if_pos h, drop_append_of_mark tail hm h, ih hms]
      · rw [if_neg (mt (mark_append_eq_iff tail hm).mp h), if_neg h]
        rfl

theorem Within.of_skip? {r : List Token} (h : Within k ts) (hr : skip? ms ts = some r) : Within k r := by
  induction ms generalizing ts with
  | nil =>
      obtain rfl := Option.some.inj hr
      exact h
  | cons m ms ih =>
      rw [skip?] at hr
      split at hr
      · exact ih (h.drop 1) hr
      · cases hr

/-- A beginning that stands first is a token at least. -/
theorem Within.exists_succ_of_skip? {m : String} {r : List Token} (h : Within k ts) (hm : areRead [m] = true)
    (hr : skip? (m :: ms) ts = some r) : ∃ j, k = j + 1 ∧ Within j r := by
  rw [skip?] at hr
  split at hr
  · rename_i hmark
    obtain ⟨t, ts, rfl⟩ := List.exists_cons_of_ne_nil (ne_nil_of_mark hm hmark)
    obtain ⟨j, rfl, hts⟩ := h.exists_succ
    exact ⟨j, rfl, hts.of_skip? hr⟩
  · cases hr

theorem skipOneOf_append (hms : areRead ms = true) :
    skipOneOf ms (ts ++ tail.tokens) = skipOneOf ms ts ++ tail.tokens := by
  rw [skipOneOf, skipOneOf]
  by_cases h : mark ts ∈ ms
  · rw [if_pos ((mark_append_mem_iff tail hms).mpr h), if_pos h,
      drop_append_of_ne_nil (ne_nil_of_mark_mem hms h)]
  · rw [if_neg (mt (mark_append_mem_iff tail hms).mp h), if_neg h]

theorem Within.skipOneOf (h : Within k ts) (ms : List String) : Within k (skipOneOf ms ts) := by
  rw [Grammar.skipOneOf]
  split
  · exact h.drop 1
  · exact h

theorem sourceBetween_append (before rest us : List Token) :
    sourceBetween (before ++ us) (rest ++ us) = sourceBetween before rest := by
  have hcount : (before ++ us).length - (rest ++ us).length = before.length - rest.length := by
    simp only [List.length_append]
    omega
  rw [sourceBetween, sourceBetween, hcount, List.take_append_of_le_length (Nat.sub_le _ _)]

end Marks

/-! ## Readings that agree -/

/-- Both readings fail, or both succeed with results that are related. -/
inductive Agree {α β : Type} (R : α → β → Prop) : Reading α → Reading β → Prop where
  | failed {e f : ParseFailure} : Agree R (.error e) (.error f)
  | read {a : α} {b : β} (related : R a b) : Agree R (.ok a) (.ok b)

/-- Tokens that are left over, without an idle tail and with it. -/
def LeftOver (tail : IdleTail) (k : Nat) (ts us : List Token) : Prop :=
  us = ts ++ tail.tokens ∧ Within k ts

/-- The same is read, and the same tokens are left over. -/
def SameRead {α : Type} (tail : IdleTail) (k : Nat) (x y : Parsed α) : Prop :=
  y.1 = x.1 ∧ LeftOver tail k x.2 y.2

namespace Agree

variable {α β γ δ : Type} {tail : IdleTail} {k : Nat}

theorem mono {R S : α → β → Prop} {x : Reading α} {y : Reading β} (h : Agree R x y)
    (hRS : ∀ a b, R a b → S a b) : Agree S x y := by
  cases h with
  | failed => exact .failed
  | read related => exact .read (hRS _ _ related)

theorem bind {R : α → β → Prop} {S : γ → δ → Prop} {x : Reading α} {y : Reading β} {f : α → Reading γ}
    {g : β → Reading δ} (h : Agree R x y) (hfg : ∀ a b, R a b → Agree S (f a) (g b)) :
    Agree S (x >>= f) (y >>= g) := by
  cases h with
  | failed => exact .failed
  | read related => exact hfg _ _ related

theorem exists_error {R : α → β → Prop} {e : ParseFailure} {y : Reading β} (h : Agree R (.error e) y) :
    ∃ f, y = .error f := by
  cases h with
  | failed => exact ⟨_, rfl⟩

/-- A passage was read, and the reading goes on. -/
theorem andThen {S : γ → δ → Prop} {x y : Reading (List Token)} {f : List Token → Reading γ}
    {g : List Token → Reading δ} (h : Agree (LeftOver tail k) x y)
    (hfg : ∀ r, Within k r → Agree S (f r) (g (r ++ tail.tokens))) : Agree S (x >>= f) (y >>= g) := by
  refine h.bind ?_
  rintro r _ ⟨rfl, hr⟩
  exact hfg r hr

/-- A piece was read, and the reading goes on. -/
theorem next {S : γ → δ → Prop} {x y : Reading (Parsed α)} {f : Parsed α → Reading γ}
    {g : Parsed α → Reading δ} (h : Agree (SameRead tail k) x y)
    (hfg : ∀ a r, Within k r → Agree S (f (a, r)) (g (a, r ++ tail.tokens))) :
    Agree S (x >>= f) (y >>= g) := by
  refine h.bind ?_
  rintro ⟨a, r⟩ ⟨b, us⟩ ⟨hread, hrest, hr⟩
  obtain rfl : b = a := hread
  obtain rfl : us = r ++ tail.tokens := hrest
  exact hfg b r hr

theorem found {a : α} {r : List Token} (h : Within k r) :
    Agree (SameRead tail k) (.ok (a, r)) (.ok (a, r ++ tail.tokens)) :=
  .read ⟨rfl, rfl, h⟩

theorem reached {r : List Token} (h : Within k r) :
    Agree (LeftOver tail k) (.ok r) (.ok (r ++ tail.tokens)) :=
  .read ⟨rfl, h⟩

theorem weaken {j : Nat} {x y : Reading (Parsed α)} (h : Agree (SameRead tail j) x y) (hjk : j ≤ k) :
    Agree (SameRead tail k) x y :=
  h.mono fun _ _ ⟨hread, hrest, hwithin⟩ => ⟨hread, hrest, hwithin.mono hjk⟩

theorem weakenRest {j : Nat} {x y : Reading (List Token)} (h : Agree (LeftOver tail j) x y) (hjk : j ≤ k) :
    Agree (LeftOver tail k) x y :=
  h.mono fun _ _ ⟨hrest, hwithin⟩ => ⟨hrest, hwithin.mono hjk⟩

/-- A fixed beginning stands first in both readings or in neither. -/
theorem ofSkip? {R : γ → δ → Prop} {ms : List String} {ts : List Token} {f : List Token → Reading γ}
    {g : List Token → Reading δ} {x : Reading γ} {y : Reading δ} (hts : Within k ts)
    (hms : areRead ms = true) (hsome : ∀ r, Within k r → Agree R (f r) (g (r ++ tail.tokens)))
    (hnone : skip? ms ts = none → Agree R x y) :
    Agree R (match skip? ms ts with | some r => f r | none => x)
      (match skip? ms (ts ++ tail.tokens) with | some r => g r | none => y) := by
  rw [skip?_append tail hms]
  cases h : skip? ms ts with
  | none => exact hnone h
  | some r => exact hsome r (hts.of_skip? h)

/-- A keyword stands first in both readings or in neither. -/
theorem ofMark {R : γ → δ → Prop} {m : String} {ts : List Token} {x x' : Reading γ} {y y' : Reading δ}
    (hm : areRead [m] = true) (hpos : mark ts = m → Agree R x y) (hneg : Agree R x' y') :
    Agree R (if mark ts = m then x else x') (if mark (ts ++ tail.tokens) = m then y else y') := by
  by_cases h : mark ts = m
  · rw [if_pos h, if_pos ((mark_append_eq_iff tail hm).mpr h)]
    exact hpos h
  · rw [if_neg h, if_neg (mt (mark_append_eq_iff tail hm).mp h)]
    exact hneg

/-- One of two keywords stands first in both readings or in neither. -/
theorem ofEither {R : γ → δ → Prop} {m n : String} {ts : List Token} {x x' : Reading γ} {y y' : Reading δ}
    (hms : areRead [m, n] = true) (hpos : ts ≠ [] → Agree R x y) (hneg : Agree R x' y') :
    Agree R (if mark ts = m ∨ mark ts = n then x else x')
      (if mark (ts ++ tail.tokens) = m ∨ mark (ts ++ tail.tokens) = n then y else y') := by
  have hmem : ∀ us, (mark us = m ∨ mark us = n) ↔ mark us ∈ [m, n] := by simp
  simp only [hmem, mark_append_mem_iff tail hms]
  split
  · rename_i h
    exact hpos (ne_nil_of_mark_mem hms h)
  · exact hneg

end Agree

/-- A piece that reads the same with an idle tail, which it leaves; of no more than `K` tokens. -/
def Blind {α : Type} (tail : IdleTail) (K : Nat) (p q : Piece α) : Prop :=
  ∀ k ≤ K, ∀ ts, Within k ts → Agree (SameRead tail k) (p ts) (q (ts ++ tail.tokens))

/-- A passage that ends at the same place with an idle tail; of no more than `K` tokens. -/
def Passes (tail : IdleTail) (K : Nat) (p q : Passage) : Prop :=
  ∀ k ≤ K, ∀ ts, Within k ts → Agree (LeftOver tail k) (p ts) (q (ts ++ tail.tokens))

/-- A blind piece that reads at least one token. -/
def Advances {α : Type} (tail : IdleTail) (K : Nat) (p q : Piece α) : Prop :=
  ∀ k ≤ K, ∀ ts, Within (k + 1) ts → Agree (SameRead tail k) (p ts) (q (ts ++ tail.tokens))

/-- It is enough to bound what is left over by the tokens there are. -/
theorem Blind.ofLength {α : Type} {tail : IdleTail} {K : Nat} {p q : Piece α}
    (h : ∀ ts, ts.length ≤ K → Within ts.length ts →
      Agree (SameRead tail ts.length) (p ts) (q (ts ++ tail.tokens))) : Blind tail K p q :=
  fun _ hk ts hts => (h ts (Nat.le_trans hts.bound hk) hts.self).weaken hts.bound

theorem Passes.ofLength {tail : IdleTail} {K : Nat} {p q : Passage}
    (h : ∀ ts, ts.length ≤ K → Within ts.length ts →
      Agree (LeftOver tail ts.length) (p ts) (q (ts ++ tail.tokens))) : Passes tail K p q :=
  fun _ hk ts hts => (h ts (Nat.le_trans hts.bound hk) hts.self).weakenRest hts.bound

/-! ## Pieces and passages put together -/

section Combinators

variable {α β : Type} {tail : IdleTail} {K : Nat} {p q : Piece α}

theorem Blind.passed (h : Blind tail K p q) : Passes tail K (passed p) (passed q) :=
  fun k hk ts hts => (h k hk ts hts).next fun _ _ hr => .reached hr

namespace Passes

variable {f g : Passage} {ps qs : List Passage}

theorem done : Passes tail K (fun ts => .ok ts) (fun ts => .ok ts) := fun _ _ _ hts => .reached hts

theorem need {m : String} (hm : areRead [m] = true) : Passes tail K (need m) (need m) := by
  intro k hk ts hts
  refine .ofMark hm (fun h => ?_) .failed
  rw [drop_append_of_mark tail hm h]
  exact .reached (hts.drop 1)

theorem allow {ms : List String} (hms : areRead ms = true) : Passes tail K (allow ms) (allow ms) := by
  intro k hk ts hts
  rw [Grammar.allow, Grammar.allow, skipOneOf_append tail hms]
  exact .reached (hts.skipOneOf ms)

theorem needOneOf {ms : List String} (hms : areRead ms = true) :
    Passes tail K (needOneOf ms) (needOneOf ms) := by
  intro k hk ts hts
  have hskip : skipOneOf ms (ts ++ tail.tokens) = skipOneOf ms ts ++ tail.tokens := skipOneOf_append tail hms
  unfold Grammar.needOneOf
  unfold skipOneOf at hskip
  by_cases h : mark ts ∈ ms
  · have h' := (mark_append_mem_iff tail hms).mpr h
    rw [if_pos h', if_pos h] at hskip
    rw [if_pos h', if_pos h, hskip]
    exact .reached (hts.drop 1)
  · rw [if_neg (mt (mark_append_mem_iff tail hms).mp h), if_neg h]
    exact .failed

/-- Passages one after the other are blind when each of them is. -/
theorem inTurn (h : List.Forall₂ (Passes tail K) ps qs) : Passes tail K (inTurn ps) (inTurn qs) := by
  induction h with
  | nil => exact done
  | cons hp _ ih => exact fun k hk ts hts => (hp k hk ts hts).andThen (ih k hk)

theorem enclosed (h : List.Forall₂ (Passes tail K) ps qs) :
    Passes tail K (enclosed ps) (enclosed qs) :=
  inTurn (List.rel_append (.cons (need (by decide)) h) (.cons (need (by decide)) .nil))

theorem whenFirst {beginnings : List (List String)} (hms : ∀ ms ∈ beginnings, areRead ms = true)
    (h : Passes tail K f g) : Passes tail K (whenFirst beginnings f) (whenFirst beginnings g) := by
  intro k hk ts hts
  unfold Grammar.whenFirst
  induction beginnings with
  | nil => exact .reached hts
  | cons ms beginnings ih =>
      have hread := hms ms List.mem_cons_self
      have ih := ih fun ms' h' => hms ms' (List.mem_cons_of_mem ms h')
      simp only [List.findSome?_cons, skip?_append tail hread]
      cases hskip : skip? ms ts with
      | none => exact ih
      | some r => exact h k hk r (hts.of_skip? hskip)

theorem whenEnclosed (h : List.Forall₂ (Passes tail K) ps qs) :
    Passes tail K (whenEnclosed ps) (whenEnclosed qs) :=
  whenFirst (by decide) (inTurn (List.rel_append h (.cons (need (by decide)) .nil)))

/-- One passage where a keyword stands first, and another one elsewhere. -/
theorem ifMark {f' g' : Passage} {m : String} (hm : areRead [m] = true) (hpos : Passes tail K f g)
    (hneg : Passes tail K f' g') :
    Passes tail K (fun ts => if mark ts = m then f ts else f' ts)
      (fun ts => if mark ts = m then g ts else g' ts) :=
  fun k hk ts hts => .ofMark hm (fun _ => hpos k hk ts hts) (hneg k hk ts hts)

/-- One passage behind a keyword that stands first, and another one elsewhere. -/
theorem behindMark {f' g' : Passage} {m : String} (hm : areRead [m] = true) (hpos : Passes tail K f g)
    (hneg : Passes tail K f' g') :
    Passes tail K (fun ts => if mark ts = m then f (ts.drop 1) else f' ts)
      (fun ts => if mark ts = m then g (ts.drop 1) else g' ts) := by
  intro k hk ts hts
  refine .ofMark hm (fun h => ?_) (hneg k hk ts hts)
  rw [drop_append_of_mark tail hm h]
  exact hpos k hk _ (hts.drop 1)

/-- One passage behind a fixed beginning, and another one elsewhere. -/
theorem ofSkip? {f' g' : Passage} {ms : List String} (hms : areRead ms = true) (hsome : Passes tail K f g)
    (hnone : Passes tail K f' g') :
    Passes tail K (fun ts => match skip? ms ts with | some r => f r | none => f' ts)
      (fun ts => match skip? ms ts with | some r => g r | none => g' ts) :=
  fun k hk ts hts => .ofSkip? hts hms (fun r hr => hsome k hk r hr) fun _ => hnone k hk ts hts

end Passes

theorem commaSeparatedFrom_fails {n : Nat} {ts : List Token} {e : ParseFailure} (h : p ts = .error e) :
    commaSeparatedFrom p n ts = .error e := by
  cases n <;> rw [commaSeparatedFrom, h] <;> rfl

theorem commaSeparatedFrom_stop {n : Nat} {ts r : List Token} {a : α} (h : p ts = .ok (a, r))
    (hr : ∀ rest, r ≠ .symbol "," :: rest) : commaSeparatedFrom p n ts = .ok ([a], r) := by
  cases n with
  | zero =>
      rw [commaSeparatedFrom, h]
      rfl
  | succ n =>
      rw [commaSeparatedFrom, h, ok_bind]
      dsimp only
      split
      · exact absurd rfl (hr _)
      · rfl

/-- Lists are read member by member with any fuel that the tokens do not use up. -/
theorem commaSeparatedFrom_agree (h : Blind tail K p q) {n n' k : Nat} (hk : k ≤ K) (hn : k ≤ n)
    (hn' : k ≤ n') {ts : List Token} (hts : Within k ts) :
    Agree (SameRead tail k) (commaSeparatedFrom p n ts) (commaSeparatedFrom q n' (ts ++ tail.tokens)) := by
  induction n using Nat.strongRecOn generalizing n' k ts with
  | ind n ih =>
      have hpq := h k hk ts hts
      generalize hp : p ts = x at hpq
      generalize hq : q (ts ++ tail.tokens) = y at hpq
      cases hpq with
      | failed =>
          rw [commaSeparatedFrom_fails hp, commaSeparatedFrom_fails hq]
          exact .failed
      | @read a b related =>
          obtain ⟨a, r⟩ := a
          obtain ⟨b, us⟩ := b
          obtain ⟨rfl, rfl, hr⟩ : b = a ∧ us = r ++ tail.tokens ∧ Within k r := related
          by_cases hcomma : ∃ rest, r = .symbol "," :: rest
          · -- the comma is a token less, and the fuel pays for it
            obtain ⟨rest, rfl⟩ := hcomma
            obtain ⟨j, rfl, hrest⟩ := hr.exists_succ
            obtain ⟨n, rfl⟩ := Nat.exists_eq_add_one_of_ne_zero (Nat.ne_zero_of_lt hn)
            obtain ⟨n', rfl⟩ := Nat.exists_eq_add_one_of_ne_zero (Nat.ne_zero_of_lt hn')
            have htail := ih n (Nat.lt_succ_self n) (Nat.le_of_succ_le hk) (Nat.le_of_succ_le_succ hn)
              (Nat.le_of_succ_le_succ hn') hrest
            rw [commaSeparatedFrom, commaSeparatedFrom, hp, hq]
            exact htail.next fun _ r hr => .found (hr.mono (Nat.le_succ j))
          · have hstop : ∀ rest, r ≠ .symbol "," :: rest := fun rest heq => hcomma ⟨rest, heq⟩
            rw [commaSeparatedFrom_stop hp hstop,
              commaSeparatedFrom_stop hq (tail.append_ne_cons (by decide) hstop)]
            exact .found hr

theorem Blind.commaSeparated (h : Blind tail K p q) :
    Blind tail K (commaSeparated p) (commaSeparated q) :=
  .ofLength fun _ hk hts => commaSeparatedFrom_agree h hk (Nat.le_refl _) (tail.length_le _) hts

theorem Passes.listOf {f g : Passage} (h : Passes tail K f g) : Passes tail K (listOf f) (listOf g) := by
  refine Blind.passed (Blind.commaSeparated fun k hk ts hts => ?_)
  exact (h k hk ts hts).andThen fun _ hr => .found hr

theorem Blind.closing (h : Blind tail K p q) : Blind tail K (closing p) (closing q) := by
  intro k hk ts hts
  refine (h k hk ts hts).next fun _ r hr => ?_
  exact (Passes.need (by decide) k hk r hr).andThen fun _ hr => .found hr

theorem Blind.parenthesized (h : Blind tail K p q) :
    Blind tail K (parenthesized p) (parenthesized q) :=
  fun k hk ts hts => (Passes.need (by decide) k hk ts hts).andThen fun r hr => h.closing k hk r hr

theorem Blind.after {ms : List String} (hms : areRead ms = true) (h : Blind tail K p q) :
    Blind tail K (after ms p) (after ms q) := by
  intro k hk ts hts
  refine Agree.ofSkip? hts hms (fun r hr => ?_) fun _ => .found hts
  exact (h k hk r hr).next fun _ _ hr => .found hr

end Combinators

/-! ## Names and orders -/

section Names

variable {tail : IdleTail} {K : Nat}

theorem blind_word : Blind tail K word word := by
  intro k hk ts hts
  cases ts with
  | nil => exact .failed
  | cons t ts =>
      cases t with
      | word w => exact .found hts.tail
      | string s => exact .found hts.tail
      | number => exact .failed
      | otherLiteral => exact .failed
      | symbol => exact .failed

theorem moreWords_stop_of_ne {n : Nat} {ts : List Token} (h : ∀ rest, ts ≠ .symbol "." :: rest) :
    moreWords n ts = .ok ([], ts) := by
  cases n with
  | zero => rfl
  | succ n =>
      unfold moreWords
      split
      · exact absurd rfl (h _)
      · rfl

/-- Dotted words are read one after the other with any fuel that the tokens do not use up. -/
theorem moreWords_agree {n n' k : Nat} (hn : k ≤ n) (hn' : k ≤ n') {ts : List Token}
    (hts : Within k ts) :
    Agree (SameRead tail k) (moreWords n ts) (moreWords n' (ts ++ tail.tokens)) := by
  induction n using Nat.strongRecOn generalizing n' k ts with
  | ind n ih =>
      by_cases hdot : ∃ rest, ts = .symbol "." :: rest
      · obtain ⟨rest, rfl⟩ := hdot
        obtain ⟨j, rfl, hrest⟩ := hts.exists_succ
        obtain ⟨n, rfl⟩ := Nat.exists_eq_add_one_of_ne_zero (Nat.ne_zero_of_lt hn)
        obtain ⟨n', rfl⟩ := Nat.exists_eq_add_one_of_ne_zero (Nat.ne_zero_of_lt hn')
        refine (blind_word j (Nat.le_refl j) rest hrest).next fun _ r hr => ?_
        refine (ih n (Nat.lt_succ_self n) (Nat.le_of_succ_le_succ hn) (Nat.le_of_succ_le_succ hn')
          hr).next fun _ r hr => ?_
        exact .found (hr.mono (Nat.le_succ j))
      · have hstop : ∀ rest, ts ≠ .symbol "." :: rest := fun rest heq => hdot ⟨rest, heq⟩
        rw [moreWords_stop_of_ne hstop,
          moreWords_stop_of_ne (tail.append_ne_cons (by decide) hstop)]
        exact .found hts

theorem blind_dottedName : Blind tail K dottedName dottedName := by
  intro k hk ts hts
  refine (blind_word k hk ts hts).next fun _ r hr => ?_
  refine ((moreWords_agree (Nat.le_refl _) (tail.length_le _) hr.self).weaken hr.bound).next fun _ r hr => ?_
  exact .found hr

theorem passes_wordList : Passes tail K wordList wordList :=
  .enclosed (.cons blind_word.passed.listOf .nil)

theorem blind_aliasWord (reserved : List String) :
    Blind tail K (aliasWord reserved) (aliasWord reserved) := by
  intro k hk ts hts
  refine Agree.ofSkip? hts (by decide) (fun r hr => ?_) fun _ => ?_
  · exact (blind_word k hk r hr).next fun _ _ hr => .found hr
  · cases ts with
    | nil => exact .found hts
    | cons t ts =>
        cases t with
        | word w =>
            dsimp only [List.cons_append]
            split
            · exact .found hts
            · exact .found hts.tail
        | string s => exact .found hts.tail
        | number => exact .found hts
        | otherLiteral => exact .found hts
        | symbol => exact .found hts

theorem passes_constant : Passes tail K constant constant := by
  intro k hk ts hts
  cases ts with
  | nil => exact .failed
  | cons t ts =>
      cases t with
      | word w =>
          dsimp only [constant, List.cons_append]
          split
          · exact .reached hts.tail
          · exact .failed
      | string s => exact .reached hts.tail
      | number => exact .reached hts.tail
      | otherLiteral => exact .reached hts.tail
      | symbol => exact .failed

theorem orderWords_append (ts : List Token) :
    orderWords (ts ++ tail.tokens) = orderWords ts ++ tail.tokens := by
  rw [orderWords, orderWords, skipOneOf_append tail (by decide), skip?_append tail (by decide),
    skip?_append tail (by decide)]
  cases skip? ["NULLS", "FIRST"] (skipOneOf ["ASC", "DESC"] ts) with
  | some r => rfl
  | none => cases skip? ["NULLS", "LAST"] (skipOneOf ["ASC", "DESC"] ts) <;> rfl

theorem Within.orderWords {k : Nat} {ts : List Token} (h : Within k ts) : Within k (orderWords ts) := by
  have hskip := h.skipOneOf ["ASC", "DESC"]
  rw [Grammar.orderWords]
  cases hfirst : skip? ["NULLS", "FIRST"] (Grammar.skipOneOf ["ASC", "DESC"] ts) with
  | some r => exact hskip.of_skip? hfirst
  | none =>
      cases hlast : skip? ["NULLS", "LAST"] (Grammar.skipOneOf ["ASC", "DESC"] ts) with
      | some r => exact hskip.of_skip? hlast
      | none => exact hskip

variable {p q : Piece Term}

theorem Blind.orderTerm (h : Blind tail K p q) : Blind tail K (orderTerm p) (orderTerm q) := by
  intro k hk ts hts
  refine (h k hk ts hts).next fun t r hr => ?_
  dsimp only
  rw [orderWords_append, decide_eq_decide.mpr (mark_append_eq_iff tail (by decide))]
  exact .found hr.orderWords

theorem Blind.orderTerms (h : Blind tail K p q) : Blind tail K (orderTerms p) (orderTerms q) :=
  fun k hk ts hts => (h.orderTerm.commaSeparated.after (by decide) k hk ts hts).next fun _ _ hr => .found hr

end Names

/-- A grammar inside of which an idle tail is not noticed, and whose terms are not empty. -/
structure Nested.IsBlind (tail : IdleTail) (inner : Nested) : Prop where
  term (K : Nat) : Blind tail K inner.term inner.term
  query (K : Nat) : Blind tail K inner.query inner.query
  fails_nil : ∃ e, inner.term [] = .error e

end PrivateSql.Sql.Grammar
