import PrivateSql.Proofs.BudgetShares
/-!
# Releases that are counted

The releases that share a budget are counted in a word of 64 bits: one for each noised column and each
repetition.  How often a query is repeated is checked when the budget is made, and any number that fits a word
is accepted there; how many columns are noised is known for each query only.  So the product fits for a
query with one column, but for every other query there are budgets that are accepted and for which it does not,
and then there are neither calibrations nor an event.

* `Budget.IsAccepted`, `Budget.isAccepted_iff` — the budgets that are made of parameters or read from a document;
* `Plan.calibrate_eq_tooManyReleases` — when the releases of a plan cannot be counted;
* `PrivateReader.releases_counted` — the exact condition, and the scales where they can;
* `PrivateReader.releases_uncounted` — an accepted budget for which they cannot.
-/

namespace PrivateSql

variable {N : Type} [Number N]

/-! ## Documents -/

namespace Json

/-- What every member that is read keeps, the whole document keeps. -/
theorem membersOf_invariant {σ : Type} {P : σ → Prop} {names : List String}
    {member : σ → String → Document → Decoded σ}
    (hstep : ∀ s name d s', P s → member s name d = .ok s' → P s') {start s : σ} {d : Document}
    (hstart : P start) (h : membersOf names member start d = .ok s) : P s := by
  have hfold : ∀ {α : Type} {f : σ → α → Decoded σ} {l : List α},
      (∀ s x s', P s → f s x = .ok s' → P s') → l.foldlM f start = .ok s → P s := by
    intro α f l hkeeps hl
    exact @foldlM_invariant _ _ _ f (fun _ s => P s) (fun _ x s s' => hkeeps s x s') l [] start s hstart hl
  unfold membersOf at h
  split at h
  · refine hfold (fun s x s' hs hs' => ?_) h
    dsimp only at hs'
    split at hs'
    · cases hs'
    · split at hs'
      · exact hstep _ _ _ _ hs hs'
      · split at hs'
        · cases hs'
        · cases hs'
          exact hs
  · split at h
    · obtain ⟨_, -, h⟩ := bind_eq_ok.mp h
      cases h
    · exact hfold (fun s x s' => hstep s x.1 x.2 s') h
  · cases h

/-- A number that counts something fits a word. -/
theorem countOf_lt {d : Document} {n : Nat} (h : countOf d = .ok n) : n < 0x10000000000000000 := by
  unfold countOf at h
  split at h
  · split at h
    · split at h
      · cases h
        omega
      · cases h
    · cases h
  · cases h

/-- A member that is given for the first time is what was read. -/
theorem once_eq_ok {α : Type} {old : Option α} {read : Decoded α} {a : Option α}
    (h : once old read = .ok a) : ∃ x, read = .ok x ∧ a = some x := by
  unfold once at h
  split at h
  · cases h
  · obtain ⟨x, hx, h⟩ := bind_eq_ok.mp h
    cases h
    exact ⟨x, hx, rfl⟩

end Json

/-! ## Budgets -/

namespace Budget

variable {b : Budget N} {epsilon : N} {repetitions : Nat}

/-- The budgets that are accepted: those made of a number and a count that fits a word, and those read from
a document. -/
inductive IsAccepted : Budget N → Prop where
  | parameters {epsilon : N} {repetitions : Nat} {b : Budget N}
      (word : repetitions < 0x10000000000000000) (accepted : of epsilon repetitions = .ok b) : IsAccepted b
  | document {text : String} {b : Budget N} (read : ofJson text = some (.ok b)) : IsAccepted b

/-- A budget of parameters has them, and any other number of repetitions would be accepted with its first
one. -/
theorem of_eq_ok_self (h : of epsilon repetitions = .ok b) :
    b = ⟨epsilon, repetitions⟩ ∧ ∀ times, 1 ≤ times → of epsilon times = .ok ⟨epsilon, times⟩ := by
  unfold of at h
  split at h
  · cases h
  · rename_i hpositive
    split at h
    · cases h
    · cases h
      refine ⟨rfl, fun times htimes => ?_⟩
      rw [of, if_neg hpositive, if_neg (by omega)]

/-- The repetitions in a document are counted in a word. -/
theorem parametersOf_lt {d : Json.Document} (h : parametersOf d = .ok (epsilon, repetitions)) :
    repetitions < 0x10000000000000000 := by
  obtain ⟨members, hmembers, h⟩ := bind_eq_ok.mp h
  obtain ⟨x, -, h⟩ := bind_eq_ok.mp h
  cases h
  have hword : ∀ n ∈ members.repetitions, n < 0x10000000000000000 := by
    refine Json.membersOf_invariant (P := fun m : Members N => ∀ n ∈ m.repetitions, n < 0x10000000000000000)
      (fun m name d m' hm hread => ?_) (fun n hn => by cases hn) hmembers
    unfold Members.read at hread
    split at hread
    · obtain ⟨_, -, hread⟩ := bind_eq_ok.mp hread
      cases hread
      exact hm
    · obtain ⟨_, honce, hread⟩ := bind_eq_ok.mp hread
      cases hread
      obtain ⟨count, hcount, rfl⟩ := Json.once_eq_ok honce
      intro n hn
      cases hn
      exact Json.countOf_lt hcount
  cases hgiven : members.repetitions with
  | none => decide
  | some n => exact hword n hgiven

/-- **Accepted budgets** are those of parameters that fit a word, however they were given. -/
theorem isAccepted_iff : b.IsAccepted ↔
    b.repetitions < 0x10000000000000000 ∧ of b.epsilon b.repetitions = .ok b := by
  constructor
  · intro h
    cases h with
    | parameters word accepted =>
        obtain ⟨rfl, -⟩ := of_eq_ok_self accepted
        exact ⟨word, accepted⟩
    | document read =>
        unfold ofJson at read
        dsimp only at read
        split at read
        · cases read
        · rename_i b' hdocument
          split at read
          · cases read
            obtain ⟨⟨epsilon, repetitions⟩, hparameters, hof⟩ := bind_eq_ok.mp hdocument
            have haccepted : of epsilon repetitions = .ok b := Except.ok.inj hof
            obtain ⟨rfl, -⟩ := of_eq_ok_self haccepted
            exact ⟨parametersOf_lt hparameters, haccepted⟩
          · cases read
        · cases read
  · rintro ⟨word, accepted⟩
    exact .parameters word accepted

end Budget

/-! ## Plans -/

/-- **The releases of a plan** cannot be counted exactly when their number does not fit a word. A column
without sensitivity is another error, which comes later. -/
theorem Plan.calibrate_eq_tooManyReleases {p : Plan N} {b : Budget N} {m : Mechanism}
    (hpos : 0 < p.columns.length) : p.calibrate b m = .error .tooManyReleases ↔
      0x10000000000000000 ≤ p.columns.length * b.repetitions := by
  by_cases hfits : p.columns.length * b.repetitions < 0x10000000000000000
  · refine ⟨fun herror => ?_, fun hlarge => absurd hfits (Nat.not_lt.mpr hlarge)⟩
    rw [calibrate_of_composition (Budget.composition_of_lt hpos hfits), mapM_eq_error] at herror
    obtain ⟨_, x, _, _, -, -, hcolumn⟩ := herror
    cases (NoisedColumn.calibrate_eq_error.mp hcolumn).2
  · refine ⟨fun _ => Nat.not_lt.mp hfits, fun _ => ?_⟩
    rw [calibrate, Budget.composition, b.releases_eq hpos, if_neg hfits]
    rfl

namespace PrivateReader

/-- There is no event exactly where there are no calibrations. -/
theorem event_eq_error {r : PrivateReader N} {p : Plan N} {e : PrivacyError} :
    r.event p = .error e ↔ p.calibrate r.budget r.mechanism = .error e := by
  rw [event, bind_eq_error]
  refine ⟨fun h => h.elim id ?_, .inl⟩
  rintro ⟨cs, -, hcs⟩
  cases hcs

/-- **When releases can be counted.**  Let a query be prepared and a budget be accepted.

* There are no calibrations and there is no event because the releases cannot be counted exactly when the number
  of noised columns times that of the repetitions does not fit a word.  For one column it always fits; for more,
  there is a number of repetitions that is accepted with this budget, too, and for which it does not.
* Where it fits, either the first column without sensitivity is named, or every column is calibrated.  With
  Laplace noise its scale is the sensitivity times the columns times the repetitions over the budget, as the
  arithmetic has it, and exactly so in exact arithmetic. -/
theorem releases_counted {q : Query N} {d : Dataset N} {p : Preparation N} {b : Budget N}
    (h : Preparation.of q d = .ok p) (hb : b.IsAccepted) (m : Mechanism) :
    (p.plan.calibrate b m = .error .tooManyReleases ↔
      0x10000000000000000 ≤ p.plan.columns.length * b.repetitions) ∧
    (PrivateReader.event ⟨d, b, m⟩ p.plan = .error .tooManyReleases ↔
      0x10000000000000000 ≤ p.plan.columns.length * b.repetitions) ∧
    (p.plan.columns.length = 1 → p.plan.columns.length * b.repetitions < 0x10000000000000000) ∧
    (2 ≤ p.plan.columns.length → ∃ times, (⟨b.epsilon, times⟩ : Budget N).IsAccepted ∧
      0x10000000000000000 ≤ p.plan.columns.length * times) ∧
    (p.plan.columns.length * b.repetitions < 0x10000000000000000 →
      (∀ column, p.plan.columns.find? (·.sensitivity.isNone) = some column →
        p.plan.calibrate b m = .error (.noSensitivity column.aggregate.display)) ∧
      ((∀ column ∈ p.plan.columns, column.sensitivity.isSome) →
        ∃ cs, p.plan.calibrate b m = .ok cs ∧
          List.Forall₂ (fun column c => column.sensitivity = some c.sensitivity ∧
            (m = .laplace → c.scale = c.sensitivity *
              Number.ofInt ((p.plan.columns.length * b.repetitions : ℕ) : ℤ) / b.epsilon))
            p.plan.columns cs)) := by
  have hpos := Plan.columns_pos (Preparation.of_eq_ok.mp h).1
  obtain ⟨hword, haccepted⟩ := Budget.isAccepted_iff.mp hb
  refine ⟨Plan.calibrate_eq_tooManyReleases hpos,
    event_eq_error.trans (Plan.calibrate_eq_tooManyReleases hpos), fun hone => ?_, fun htwo => ?_,
    fun hfits => ⟨fun column hcolumn => ?_, fun hsensitivities => ?_⟩⟩
  · rw [hone, Nat.one_mul]
    exact hword
  · have htimes : 0x10000000000000000 ≤ p.plan.columns.length * 0x8000000000000000 := by omega
    exact ⟨0x8000000000000000, .parameters (by decide)
      ((Budget.of_eq_ok_self haccepted).2 _ (by decide)), htimes⟩
  · exact Plan.calibrate_of_find? (Budget.composition_of_lt hpos hfits) hcolumn
  · have hn := Budget.composition_of_lt hpos hfits
    obtain ⟨cs, hcs⟩ := Plan.exists_calibrate (m := m) hn hsensitivities
    refine ⟨cs, hcs, List.forall₂_iff_get.mpr ⟨(Plan.length_of_calibrate hcs).symm, fun i hi hi' => ?_⟩⟩
    obtain ⟨column, hcolumn, hs, -, -, hscale⟩ :=
      Plan.exists_column_of_calibrate hn hcs (List.getElem?_eq_getElem hi')
    obtain ⟨_, rfl⟩ := List.getElem?_eq_some_iff.mp hcolumn
    refine ⟨hs, ?_⟩
    rintro rfl
    exact hscale

/-- Counts by value, repeated twice: the releases are counted, and the scale is two. -/
theorem releases_counted_counts :
    (∃ p, Preparation.of (countsByValue Binary64) (integerDataset Binary64 [5, 7, 5]) = .ok p ∧
      p.plan.calibrate ⟨Number.one, 2⟩ .gaussian ≠ .error .tooManyReleases) ∧
    ∃ p cs, Preparation.of (countsByValue ℝ) (integerDataset ℝ [5, 7, 5]) = .ok p ∧
      p.plan.calibrate ⟨1, 2⟩ .laplace = .ok cs ∧ cs.map (·.scale) = [2] := by
  constructor
  · have hruns : (Preparation.of (countsByValue Binary64) (integerDataset Binary64 [5, 7, 5])).toOption.map
        (·.plan.columns.length) = some 1 := by
      decide +kernel
    obtain ⟨p, hp, hcolumns⟩ := Option.map_eq_some_iff.mp hruns
    rw [toOption_eq_some] at hp
    have hbudget : Budget.of (Number.one : Binary64) 2 = .ok ⟨Number.one, 2⟩ := rfl
    obtain ⟨hcalibrate, -, hfits, -⟩ := releases_counted hp (.parameters (by decide) hbudget) .gaussian
    exact ⟨p, hp, fun herror => Nat.not_lt.mpr (hcalibrate.mp herror) (hfits hcolumns)⟩
  · have hruns : (Preparation.of (countsByValue ℝ) (integerDataset ℝ [5, 7, 5])).toOption.map
        (·.plan.keys.length) = some 1 := by
      decide +kernel
    have hplanned : (Plan.of (countsByValue ℝ) (integerDataset ℝ [5, 7, 5]).catalog).toOption.map
        (fun p => p.columns.map (·.sensitivity)) = some [some Number.one] := by
      rfl
    obtain ⟨p, hp, -⟩ := Option.map_eq_some_iff.mp hruns
    rw [toOption_eq_some] at hp
    rw [(Preparation.of_eq_ok.mp hp).1] at hplanned
    obtain ⟨column, hcolumns, hone⟩ := List.map_eq_singleton_iff.mp (Option.some.inj hplanned)
    have hbudget : Budget.of (1 : ℝ) 2 = .ok ⟨1, 2⟩ := by simp [Budget.of, Number.isFinite]
    obtain ⟨-, -, -, -, hcounted⟩ := releases_counted hp (.parameters (by decide) hbudget) .laplace
    obtain ⟨cs, hcs, hall⟩ := (hcounted (by simp [hcolumns])).2 (by simp [hcolumns, hone])
    refine ⟨p, cs, hp, hcs, ?_⟩
    rw [hcolumns] at hall
    cases hall with
    | cons hcolumn hnil =>
        cases hnil
        obtain ⟨hs, hscale⟩ := hcolumn
        rw [hone, exact_one, Option.some.injEq] at hs
        rw [List.map_singleton, hscale rfl, ← hs, exact_ofInt]
        norm_num

/-- **Releases that are not counted.**  A budget of one for `2 ^ 63` repetitions is accepted, as parameters and in a
document; but two counts have neither calibrations nor an event with it. -/
theorem releases_uncounted :
    Budget.of (Number.one : Binary64) 0x8000000000000000 = .ok ⟨Number.one, 0x8000000000000000⟩ ∧
    ((Budget.ofJson "\x7b\"epsilon\": 1.0, \"repeat\": 9223372036854775808\x7d").map fun b =>
      b.toOption.map fun b => (b.epsilon, b.repetitions)) =
        some (some ((Number.one : Binary64), 0x8000000000000000)) ∧
    (do
      let q ← (Query.parse "SELECT COUNT(*) AS n, COUNT(x) AS m FROM t").toOption
      let p ← (Preparation.of q (integerDataset Binary64 [1, 2])).toOption
      let e ← errorOf (p.plan.calibrate ⟨Number.one, 0x8000000000000000⟩ .laplace)
      let e' ← errorOf (PrivateReader.event
        ⟨integerDataset Binary64 [1, 2], ⟨Number.one, 0x8000000000000000⟩, .laplace⟩ p.plan)
      return (p.plan.columns.length, e, e')) = some (2, .tooManyReleases, .tooManyReleases) := by
  refine ⟨rfl, by decide +kernel, by decide +kernel⟩

end PrivateReader

end PrivateSql
