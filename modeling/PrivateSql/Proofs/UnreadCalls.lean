import PrivateSql.Proofs.UnreadTokens
/-!
# Types, calls and constructs before an idle sign

The names of types, what stands between the parentheses of a call and after them, and the constructs that begin
with a keyword of their own: none of them notices an idle sign that stands behind the tokens it is given.

* `passes_typeName`, `typedConstant?_append` — types, and constants with their type;
* `blind_call` — calls of functions;
* `passes_construct?` — constructs with a keyword.
-/

namespace PrivateSql.Sql.Grammar

variable {tail : IdleTail} {K : Nat}

/-! ## Types -/

theorem passes_size : Passes tail K size size := by
  intro k hk ts hts
  cases ts with
  | nil => exact .failed
  | cons t ts =>
      cases t with
      | number text long =>
          dsimp only [size, List.cons_append]
          split
          · exact .reached hts.tail
          · exact .failed
      | word => exact .failed
      | string => exact .failed
      | otherLiteral => exact .failed
      | symbol => exact .failed

theorem passes_optionalSize : Passes tail K optionalSize optionalSize :=
  .whenEnclosed (.cons passes_size .nil)

theorem passes_optionalScale : Passes tail K optionalScale optionalScale :=
  .whenEnclosed (.cons passes_size (.cons (.whenFirst (by decide) passes_size) .nil))

theorem passes_optionalLength : Passes tail K optionalLength optionalLength := by
  refine .whenEnclosed (.cons (fun k hk ts hts => ?_) .nil)
  refine Agree.ofSkip? hts (by decide) (fun r hr => .reached hr) fun _ => ?_
  exact Passes.inTurn (.cons passes_size (.cons (.allow (by decide)) .nil)) k hk ts hts

theorem passes_textTypeEnding : Passes tail K textTypeEnding textTypeEnding := by
  intro k hk ts hts
  refine Agree.ofSkip? hts (by decide) (fun r hr => passes_optionalSize k hk r hr) fun _ => ?_
  rw [skipOneOf_append tail (by decide)]
  exact passes_optionalLength k hk _ (hts.skipOneOf _)

theorem passes_timeTypeEnding : Passes tail K timeTypeEnding timeTypeEnding :=
  .inTurn (.cons passes_optionalSize (.cons (.whenFirst (by decide)
    (.inTurn (.cons (.need (by decide)) (.cons (.need (by decide)) .nil)))) .nil))

theorem passes_string {what : String} : Passes tail K
    (fun ts => match ts with
      | .string _ :: rest => .ok rest
      | _ => failExpected what ts)
    (fun ts => match ts with
      | .string _ :: rest => .ok rest
      | _ => failExpected what ts) := by
  intro k hk ts hts
  cases ts with
  | nil => exact .failed
  | cons t ts =>
      cases t with
      | string => exact .reached hts.tail
      | word => exact .failed
      | number => exact .failed
      | otherLiteral => exact .failed
      | symbol => exact .failed

theorem passes_textConstant : Passes tail K textConstant textConstant := by
  intro k hk ts hts
  cases ts with
  | nil => exact .failed
  | cons t ts =>
      cases t with
      | string => exact .reached hts.tail
      | word w =>
          dsimp only [textConstant, List.cons_append]
          split
          · exact .failed
          · exact .reached hts.tail
      | number => exact .failed
      | otherLiteral source =>
          dsimp only [textConstant, List.cons_append]
          split
          · exact .reached hts.tail
          · exact .failed
      | symbol => exact .failed

theorem passes_typeEnding? {k : String} {ending : Passage} (h : typeEnding? k = some ending) :
    Passes tail K ending ending := by
  unfold typeEnding? at h
  split at h
  · obtain rfl := Option.some.inj h
    exact .done
  split at h
  · obtain rfl := Option.some.inj h
    exact passes_optionalSize
  split at h
  · obtain rfl := Option.some.inj h
    exact .inTurn (.cons passes_optionalSize (.cons (.allow (by decide)) .nil))
  split at h
  · obtain rfl := Option.some.inj h
    exact passes_optionalScale
  split at h
  · obtain rfl := Option.some.inj h
    exact passes_optionalLength
  split at h
  · obtain rfl := Option.some.inj h
    exact passes_textTypeEnding
  split at h
  · obtain rfl := Option.some.inj h
    exact passes_timeTypeEnding
  split at h
  · obtain rfl := Option.some.inj h
    exact .enclosed (.cons passes_string.listOf .nil)
  split at h
  · obtain rfl := Option.some.inj h
    exact .allow (by decide)
  · cases h

theorem passes_typeModifiers : Passes tail K typeModifiers typeModifiers := by
  intro k hk ts hts
  induction ts with
  | nil =>
      rw [List.nil_append, IdleTail.tokens, typeModifiers, typeModifiers]
      rw [if_neg (tail.sign_ne (by decide)), if_neg (tail.sign_ne (by decide))]
      exact .failed
      all_goals simp
  | cons t ts ih =>
      cases t with
      | symbol s =>
          rw [List.cons_append, typeModifiers, typeModifiers]
          split
          · exact .reached hts.tail
          split
          · exact ih hts.tail
          · exact .failed
      | word => exact ih hts.tail
      | number => exact ih hts.tail
      | string => exact ih hts.tail
      | otherLiteral => exact .failed

theorem passes_typeName : Passes tail K typeName typeName := by
  intro k hk ts hts
  cases ts with
  | nil => exact .failed
  | cons t ts =>
      cases t with
      | word w =>
          dsimp only [typeName, List.cons_append]
          cases hending : typeEnding? w.keyword with
          | some ending => exact passes_typeEnding? hending k hk ts hts.tail
          | none =>
              exact Passes.inTurn (.cons blind_dottedName.passed
                (.cons (.whenFirst (by decide) passes_typeModifiers) .nil)) k hk _ hts
      | number => exact .failed
      | string => exact .failed
      | otherLiteral => exact .failed
      | symbol => exact .failed

theorem Agree.toOption {k : Nat} {x y : Reading (List Token)} (h : Agree (LeftOver tail k) x y) :
    y.toOption = x.toOption.map (· ++ tail.tokens) ∧ ∀ r, x.toOption = some r → Within k r := by
  cases h with
  | failed => exact ⟨rfl, fun _ h => by cases h⟩
  | @read r us related =>
      obtain ⟨rfl, hr⟩ := related
      refine ⟨rfl, ?_⟩
      rintro _ ⟨⟩
      exact hr

/-- A constant with its type is found with an idle tail exactly where it is found without. -/
theorem typedConstant?_append (tail : IdleTail) {k : Nat} {ts : List Token} (hts : Within (k + 1) ts) :
    typedConstant? (ts ++ tail.tokens) = (typedConstant? ts).map (· ++ tail.tokens) ∧
      ∀ r, typedConstant? ts = some r → Within k r := by
  have hidle : ∀ s ∈ "" :: idleSigns, (typeEnding? s).isNone = true := by decide
  cases ts with
  | nil =>
      have hempty : typeEnding? "" = none := Option.isNone_iff_eq_none.mp (hidle _ List.mem_cons_self)
      have hsign : typeEnding? tail.sign = none :=
        Option.isNone_iff_eq_none.mp (hidle _ (List.mem_cons_of_mem _ tail.idle))
      have hnone : typedConstant? [] = none := by
        rw [typedConstant?]
        exact congrArg (· >>= _) hempty
      have hnone' : typedConstant? tail.tokens = none := by
        rw [typedConstant?]
        exact congrArg (· >>= _) hsign
      rw [List.nil_append, hnone, hnone']
      exact ⟨rfl, fun _ h => by cases h⟩
  | cons t ts =>
      rw [List.cons_append, typedConstant?, typedConstant?, mark_cons, mark_cons t ts]
      cases hending : typeEnding? (mark [t]) with
      | none => exact ⟨rfl, fun _ h => by cases h⟩
      | some ending =>
          exact (Passes.inTurn (.cons (passes_typeEnding? hending) (.cons passes_textConstant .nil))
            k (Nat.le_refl k) ts hts.of_cons).toOption

theorem passes_timeField : Passes tail K timeField timeField :=
  .ofSkip? (by decide) (.whenEnclosed (.cons blind_word.passed .nil)) blind_word.passed

theorem passes_intervalEnding : Passes tail K intervalEnding intervalEnding := by
  have hlast : Passes tail K
      (fun ts => if mark ts = "SECOND" then optionalSize (ts.drop 1) else timeField ts)
      (fun ts => if mark ts = "SECOND" then optionalSize (ts.drop 1) else timeField ts) :=
    .behindMark (by decide) passes_optionalSize passes_timeField
  refine .behindMark (by decide) passes_optionalScale fun k hk ts hts => ?_
  have hfield : Passes tail K (if mark ts ∈ intervalFields then timeField else .ok)
      (if mark (ts ++ tail.tokens) ∈ intervalFields then timeField else .ok) := by
    have hmem : mark (ts ++ tail.tokens) ∈ intervalFields ↔ mark ts ∈ intervalFields :=
      mark_append_mem_iff tail (by decide)
    simp only [hmem]
    split
    · exact passes_timeField
    · exact .done
  exact Passes.inTurn (.cons hfield (.cons passes_optionalSize
    (.cons (.whenFirst (by decide) hlast) .nil))) k hk ts hts

/-! ## Calls -/

section Calls

variable {p : Piece Term}

theorem starAfterDots_star {n : Nat} {rest : List Token} :
    starOr.starAfterDots n (.symbol "." :: .symbol "*" :: rest) = .ok (some rest) := by
  cases n <;> rfl

theorem starAfterDots_stop {n : Nat} {ts : List Token} (h : ∀ rest, ts ≠ .symbol "." :: rest) :
    starOr.starAfterDots n ts = .ok none := by
  unfold starOr.starAfterDots
  split
  · exact absurd rfl (h _)
  · exact absurd rfl (h _)
  · rfl

theorem starAfterDots_word {n : Nat} {ts : List Token} (h : ∀ rest, ts ≠ .symbol "*" :: rest) :
    starOr.starAfterDots (n + 1) (.symbol "." :: ts) =
      word ts >>= fun (_, rest) => starOr.starAfterDots n rest := by
  rw [starOr.starAfterDots]
  exact h

/-- Dotted words lead to a star with an idle tail exactly where they do without. -/
theorem starAfterDots_agree (tail : IdleTail) {n n' k : Nat} (hn : k ≤ n) (hn' : k ≤ n') {ts : List Token}
    (hts : Within k ts) :
    Agree (fun x y => y = x.map (· ++ tail.tokens) ∧ ∀ r, x = some r → Within k r)
      (starOr.starAfterDots n ts) (starOr.starAfterDots n' (ts ++ tail.tokens)) := by
  induction n using Nat.strongRecOn generalizing n' k ts with
  | ind n ih =>
      by_cases hdot : ∃ rest, ts = .symbol "." :: rest
      · obtain ⟨ts, rfl⟩ := hdot
        obtain ⟨j, rfl, hrest⟩ := hts.exists_succ
        obtain ⟨n, rfl⟩ := Nat.exists_eq_add_one_of_ne_zero (Nat.ne_zero_of_lt hn)
        obtain ⟨n', rfl⟩ := Nat.exists_eq_add_one_of_ne_zero (Nat.ne_zero_of_lt hn')
        rw [List.cons_append]
        by_cases hstar : ∃ rest, ts = .symbol "*" :: rest
        · obtain ⟨rest, rfl⟩ := hstar
          rw [List.cons_append, starAfterDots_star, starAfterDots_star]
          refine .read ⟨rfl, ?_⟩
          rintro _ ⟨⟩
          exact hrest.tail.mono (Nat.le_succ j)
        · have hword : ∀ rest, ts ≠ .symbol "*" :: rest := fun rest heq => hstar ⟨rest, heq⟩
          rw [starAfterDots_word hword, starAfterDots_word (tail.append_ne_cons (by decide) hword)]
          refine (blind_word j (Nat.le_refl j) ts hrest).next fun _ r hr => ?_
          refine (ih n (Nat.lt_succ_self n) (Nat.le_of_succ_le_succ hn) (Nat.le_of_succ_le_succ hn')
            hr).mono ?_
          exact fun _ _ ⟨heq, hwithin⟩ => ⟨heq, fun r h => (hwithin r h).mono (Nat.le_succ j)⟩
      · have hstop : ∀ rest, ts ≠ .symbol "." :: rest := fun rest heq => hdot ⟨rest, heq⟩
        rw [starAfterDots_stop hstop, starAfterDots_stop (tail.append_ne_cons (by decide) hstop)]
        exact .read ⟨rfl, fun _ h => by cases h⟩

theorem qualifiedStar_agree {k : Nat} {t : Token} {ts : List Token} (hts : Within k (t :: ts))
    {x y : Reading (Parsed (Argument Term))} (hxy : Agree (SameRead tail k) x y) :
    Agree (SameRead tail k) (starOr.qualifiedStar (t :: ts) x)
      (starOr.qualifiedStar (t :: ts ++ tail.tokens) y) := by
  have hlonger : ts.length ≤ (t :: ts ++ tail.tokens).length :=
    Nat.le_trans (Nat.le_succ _) (tail.length_le (t :: ts))
  have hdots := starAfterDots_agree tail (Nat.le_succ ts.length) hlonger hts.tail.self
  unfold starOr.qualifiedStar
  simp only [List.drop_succ_cons, List.drop_zero, List.cons_append] at hdots ⊢
  generalize starOr.starAfterDots _ ts = found at hdots ⊢
  generalize starOr.starAfterDots _ (ts ++ tail.tokens) = found' at hdots ⊢
  cases hdots with
  | failed => exact .failed
  | @read a b related =>
      obtain ⟨rfl, hwithin⟩ := related
      cases a with
      | none => exact hxy
      | some r =>
          have hr := (hwithin r rfl).mono (Nat.le_trans (Nat.le_succ _) hts.bound)
          rw [← List.cons_append, Option.map_some]
          dsimp only
          rw [sourceBetween_append]
          exact .found hr

theorem Blind.ordinary (h : Blind tail K p p) :
    Blind tail K (fun ts => p ts >>= fun (t, rest) => (pure (Argument.term t, rest)))
      (fun ts => p ts >>= fun (t, rest) => (pure (Argument.term t, rest))) :=
  fun k hk ts hts => (h k hk ts hts).next fun _ _ hr => .found hr

theorem Blind.starOr (h : Blind tail K p p) : Blind tail K (starOr p) (starOr p) := by
  intro k hk ts hts
  have hordinary := h.ordinary k hk ts hts
  unfold Grammar.starOr
  split
  · exact .found hts.tail
  · exact qualifiedStar_agree hts hordinary
  · exact qualifiedStar_agree hts hordinary
  · rename_i hstar hword hstring
    split
    · rename_i heq
      obtain ⟨rest, rfl, -⟩ := tail.append_eq_cons (by decide) heq
      exact absurd rfl (hstar rest)
    · rename_i heq
      obtain ⟨rest, rfl, hrest⟩ := tail.append_eq_cons rfl heq
      obtain ⟨rest, rfl, -⟩ := tail.append_eq_cons (by decide) hrest.symm
      exact absurd rfl (hword _ rest)
    · rename_i heq
      obtain ⟨rest, rfl, hrest⟩ := tail.append_eq_cons rfl heq
      obtain ⟨rest, rfl, -⟩ := tail.append_eq_cons (by decide) hrest.symm
      exact absurd rfl (hstring _ rest)
    · exact hordinary

/-- The value of an argument with a name is refused with the name before it. -/
theorem Blind.namedArgument (h : Blind tail K p p) (us : List Token) {k : Nat} (hk : k ≤ K) {ts : List Token}
    (hts : Within k ts) : Agree (SameRead tail k)
      (Grammar.starOr p ts >>= fun (_, rest) =>
        (pure (.refused (sourceBetween us rest), rest) : Reading (Parsed (Argument Term))))
      (Grammar.starOr p (ts ++ tail.tokens) >>= fun (_, rest) =>
        pure (.refused (sourceBetween (us ++ tail.tokens) rest), rest)) := by
  refine (h.starOr k hk ts hts).next fun _ r hr => ?_
  dsimp only
  rw [sourceBetween_append]
  exact .found hr

/-- An argument with a name is told by its second token, so a term has to fail where no token is left. -/
theorem Blind.argument (h : Blind tail K p p) (hnil : ∃ e, p [] = .error e) :
    Blind tail K (argument p) (argument p) := by
  intro k hk ts hts
  unfold Grammar.argument
  split
  · rename_i t ts
    cases t with
    | word w => exact h.namedArgument _ hk hts.tail.tail
    | string s => exact h.namedArgument _ hk hts.tail.tail
    | number => exact .failed
    | otherLiteral => exact .failed
    | symbol => exact .failed
  · rename_i hnamed
    split
    · rename_i t us heq
      cases ts with
      | nil =>
          obtain ⟨e, he⟩ := hnil
          obtain ⟨rfl, -⟩ := List.cons.inj heq
          have hfails : Grammar.starOr p [] = .error e := by
            unfold Grammar.starOr
            rw [he]
            rfl
          rw [hfails]
          exact .failed
      | cons u ts =>
          obtain ⟨rest, rfl, -⟩ := tail.append_eq_cons (by decide) (List.cons.inj heq).2
          exact absurd rfl (hnamed _ rest)
    · exact h.starOr k hk ts hts

theorem Blind.orderText (h : Blind tail K p p) : Blind tail K (orderText p) (orderText p) := by
  intro k hk ts hts
  refine (h k hk ts hts).next fun t r hr => ?_
  dsimp only
  rw [orderWords_append, sourceBetween_append]
  exact .found hr.orderWords

theorem Blind.orderTexts (h : Blind tail K p p) : Blind tail K (orderTexts p) (orderTexts p) :=
  fun k hk ts hts => (h.orderText.commaSeparated k hk ts hts).next fun _ _ hr => .found hr

theorem Blind.limitText (h : Blind tail K p p) : Blind tail K (limitText p) (limitText p) :=
  fun k hk ts hts => (h k hk ts hts).next fun _ _ hr => .found hr

theorem blind_overflowText : Blind tail K overflowText overflowText := by
  intro k hk ts hts
  refine .ofSkip? hts (by decide) (fun r hr => .found hr) fun _ => ?_
  have hcount : Passes tail K (inTurn [needOneOf ["WITH", "WITHOUT"], need "COUNT"])
      (inTurn [needOneOf ["WITH", "WITHOUT"], need "COUNT"]) :=
    .inTurn (.cons (.needOneOf (by decide)) (.cons (.need (by decide)) .nil))
  have hfiller {filler : String} {r : List Token} (hr : Within k r) : Agree (SameRead tail k)
      (inTurn [needOneOf ["WITH", "WITHOUT"], need "COUNT"] r >>= fun rest =>
        (pure ("ON OVERFLOW TRUNCATE" ++ filler ++ " " ++ mark r ++ " COUNT", rest) : Reading (Parsed String)))
      (inTurn [needOneOf ["WITH", "WITHOUT"], need "COUNT"] (r ++ tail.tokens) >>= fun rest =>
        pure ("ON OVERFLOW TRUNCATE" ++ filler ++ " " ++ mark (r ++ tail.tokens) ++ " COUNT", rest)) := by
    by_cases hmark : mark r ∈ ["WITH", "WITHOUT"]
    · rw [mark_append_of_ne_nil (ne_nil_of_mark_mem (by decide) hmark)]
      exact (hcount k hk r hr).andThen fun _ hr => .found hr
    · have hmark' := mt (mark_append_mem_iff tail (by decide)).mp hmark
      simp only [inTurn, needOneOf, if_neg hmark, if_neg hmark']
      exact .failed
  refine (Passes.need (by decide) k hk ts hts).andThen fun r hr => ?_
  cases r with
  | nil => exact hfiller hr
  | cons t r =>
      cases t with
      | string s => exact hfiller hr.tail
      | otherLiteral source => exact hfiller hr.tail
      | word => exact hfiller hr
      | number => exact hfiller hr
      | symbol => exact hfiller hr

/-- What stands between the parentheses of a call after the word that says which values count. -/
def argumentsAfter (term : Piece Term) (quantifier : Option Quantifier) : Piece Arguments := fun ts => do
  let (args, ts) ← commaSeparated (argument term) ts
  let (order, ts) ← after ["ORDER", "BY"] (orderTexts term) ts
  let (limit, ts) ← after ["LIMIT"] (limitText term) ts
  let (overflow, ts) ← after ["ON", "OVERFLOW"] overflowText ts
  let ts ← need ")" ts
  return (⟨quantifier, args, order.toList ++ limit.toList ++ overflow.toList⟩, ts)

theorem Blind.argumentsAfter (h : Blind tail K p p) (hnil : ∃ e, p [] = .error e)
    (quantifier : Option Quantifier) :
    Blind tail K (argumentsAfter p quantifier) (argumentsAfter p quantifier) := by
  intro k hk ts hts
  refine ((h.argument hnil).commaSeparated k hk ts hts).next fun args r hr => ?_
  refine (h.orderTexts.after (by decide) k hk r hr).next fun order r hr => ?_
  refine (h.limitText.after (by decide) k hk r hr).next fun limit r hr => ?_
  refine (blind_overflowText.after (by decide) k hk r hr).next fun overflow r hr => ?_
  exact (Passes.need (by decide) k hk r hr).andThen fun _ hr => .found hr

theorem arguments_eq {ts : List Token} (hclose : ∀ rest, ts ≠ .symbol ")" :: rest) :
    arguments p ts =
      if mark ts = "ALL" then
        if mark (ts.drop 1) = "DISTINCT" then failExpected "either ALL or DISTINCT" ts
        else argumentsAfter p (some .all) (ts.drop 1)
      else if mark ts = "DISTINCT" then argumentsAfter p (some .distinct) (ts.drop 1)
      else argumentsAfter p none ts := by
  unfold arguments
  split
  · exact absurd rfl (hclose _)
  · split
    · rename_i hall hdistinct
      rw [if_pos hall, if_pos hdistinct]
      rfl
    · rename_i hall hother
      rw [if_pos hall, if_neg hother]
      rfl
    · rename_i hdistinct
      rw [if_neg (by rw [hdistinct]; decide), if_pos hdistinct]
      rfl
    · rename_i hall hdistinct _
      rw [if_neg hall, if_neg hdistinct]
      rfl

theorem Blind.arguments (h : Blind tail K p p) (hnil : ∃ e, p [] = .error e) :
    Blind tail K (arguments p) (arguments p) := by
  intro k hk ts hts
  have hafter := fun quantifier => h.argumentsAfter hnil quantifier k hk
  by_cases hclose : ∃ rest, ts = .symbol ")" :: rest
  · obtain ⟨rest, rfl⟩ := hclose
    exact .found hts.tail
  · have hclose : ∀ rest, ts ≠ .symbol ")" :: rest := fun rest heq => hclose ⟨rest, heq⟩
    rw [arguments_eq hclose, arguments_eq (tail.append_ne_cons (by decide) hclose)]
    refine .ofMark (by decide) (fun hall => ?_) (.ofMark (by decide) (fun hdistinct => ?_) ?_)
    · rw [drop_append_of_mark tail (by decide) hall]
      exact .ofMark (by decide) (fun _ => .failed) (hafter _ _ (hts.drop 1))
    · rw [drop_append_of_mark tail (by decide) hdistinct]
      exact hafter _ _ (hts.drop 1)
    · exact hafter _ _ hts

/-! ## Windows -/

theorem passes_side : Passes tail K frameBound.side frameBound.side := .needOneOf (by decide)

theorem Blind.frameBound (h : Blind tail K p p) : Passes tail K (frameBound p) (frameBound p) := by
  intro k hk ts hts
  have hterm : Passes tail K (inTurn [Grammar.passed p, Grammar.frameBound.side])
      (inTurn [Grammar.passed p, Grammar.frameBound.side]) := .inTurn (.cons h.passed (.cons passes_side .nil))
  have hinterval : Passes tail K (inTurn [Grammar.passed p, intervalEnding, Grammar.frameBound.side])
      (inTurn [Grammar.passed p, intervalEnding, Grammar.frameBound.side]) :=
    .inTurn (.cons h.passed (.cons passes_intervalEnding (.cons passes_side .nil)))
  unfold Grammar.frameBound
  rw [skip?_append tail (by decide), skip?_append tail (by decide)]
  cases hrow : skip? ["CURRENT", "ROW"] ts with
  | some r => exact .reached (hts.of_skip? hrow)
  | none =>
      cases hunbounded : skip? ["UNBOUNDED"] ts with
      | some r => exact passes_side k hk r (hts.of_skip? hunbounded)
      | none =>
          cases ts with
          | nil => exact hterm k hk [] hts
          | cons t ts =>
              cases t with
              | string s => exact hinterval k hk _ hts
              | word => exact hterm k hk _ hts
              | number => exact hterm k hk _ hts
              | otherLiteral => exact hterm k hk _ hts
              | symbol => exact hterm k hk _ hts

theorem Blind.frame (h : Blind tail K p p) : Passes tail K (frame p) (frame p) :=
  .inTurn (.cons (.needOneOf (by decide)) (.cons (.ofSkip? (by decide)
    (.inTurn (.cons h.frameBound (.cons (.need (by decide)) (.cons h.frameBound .nil)))) h.frameBound) .nil))

/-- A window after the name of the one that it goes on. -/
def windowAfter (term : Piece Term) : Passage := fun ts => do
  let ts ← whenFirst [["PARTITION", "BY"]] (listOf (passed term)) ts
  let (_, ts) ← orderTerms term ts
  match ts with
  | .symbol ")" :: rest => return rest
  | _ => inTurn [frame term, need ")"] ts

theorem Blind.windowAfter (h : Blind tail K p p) :
    Passes tail K (windowAfter p) (windowAfter p) := by
  intro k hk ts hts
  refine (h.passed.listOf.whenFirst (by decide) k hk ts hts).andThen fun r hr => ?_
  refine (h.orderTerms k hk r hr).next fun _ r hr => ?_
  have hframe : Passes tail K (inTurn [Grammar.frame p, need ")"]) (inTurn [Grammar.frame p, need ")"]) :=
    .inTurn (.cons h.frame (.cons (.need (by decide)) .nil))
  dsimp only
  split
  · exact .reached hr.tail
  · rename_i hclose
    split
    · rename_i heq
      exact absurd heq (tail.append_ne_cons (by decide) hclose _)
    · exact hframe k hk r hr

theorem Blind.window (h : Blind tail K p p) : Passes tail K (window p) (window p) := by
  intro k hk ts hts
  have hafter := h.windowAfter k hk
  cases ts with
  | nil => exact hafter _ hts
  | cons t ts =>
      cases t with
      | word w =>
          unfold Grammar.window
          dsimp only [List.cons_append]
          by_cases hkeyword : w.isKeyword = true
          · rw [if_pos hkeyword, if_pos hkeyword]
            exact hafter _ hts
          · rw [if_neg hkeyword, if_neg hkeyword]
            exact hafter _ hts.tail
      | string => exact hafter _ hts
      | number => exact hafter _ hts
      | otherLiteral => exact hafter _ hts
      | symbol => exact hafter _ hts

theorem Blind.namedOrWindow (h : Blind tail K p p) :
    Passes tail K (namedOrWindow p) (namedOrWindow p) := by
  intro k hk ts hts
  unfold Grammar.namedOrWindow
  split
  · exact h.window k hk _ hts.tail
  · rename_i hopen
    split
    · rename_i heq
      exact absurd heq (tail.append_ne_cons (by decide) hopen _)
    · exact blind_word.passed k hk ts hts

theorem Blind.withinGroup (h : Blind tail K p p) : Blind tail K (withinGroup p) (withinGroup p) := by
  intro k hk ts hts
  have hwords : Passes tail K (inTurn [need "(", need "ORDER", need "BY"])
      (inTurn [need "(", need "ORDER", need "BY"]) :=
    .inTurn (.cons (.need (by decide)) (.cons (.need (by decide)) (.cons (.need (by decide)) .nil)))
  refine (hwords k hk ts hts).andThen fun r hr => ?_
  exact (h.orderTexts.closing k hk r hr).next fun _ _ hr => .found hr

theorem blind_nullsText : Blind tail K nullsText nullsText := by
  intro k hk ts hts
  refine .ofEither (by decide) (fun hne => ?_) (.found hts)
  rw [drop_append_of_ne_nil hne, mark_append_of_ne_nil hne]
  exact (Passes.need (by decide) k hk _ (hts.drop 1)).andThen fun _ hr => .found hr

theorem Blind.call (h : Blind tail K p p) (hnil : ∃ e, p [] = .error e) (function : List Word) :
    Blind tail K (call p function) (call p function) := by
  intro k hk ts hts
  refine (h.arguments hnil k hk ts hts).next fun args r hr => ?_
  refine (h.withinGroup.after (by decide) k hk r hr).next fun within r hr => ?_
  refine (blind_nullsText k hk r hr).next fun nulls r hr => ?_
  refine (h.namedOrWindow.whenFirst (by decide) k hk r hr).andThen fun r' hr' => ?_
  dsimp only
  rw [decide_eq_decide.mpr (mark_append_eq_iff tail (by decide))]
  exact .found hr'

end Calls

/-! ## Constructs -/

section Constructs

variable {inner : Nested} (h : inner.IsBlind tail)

include h

theorem Nested.IsBlind.passed : Passes tail K (passed inner.term) (passed inner.term) := (h.term K).passed

theorem Nested.IsBlind.terms : Passes tail K inner.terms inner.terms := h.passed.listOf

theorem passes_armTerms : Passes tail K (inTurn [Grammar.passed inner.term, need "THEN", Grammar.passed inner.term])
    (inTurn [Grammar.passed inner.term, need "THEN", Grammar.passed inner.term]) :=
  .inTurn (.cons h.passed (.cons (.need (by decide)) (.cons h.passed .nil)))

omit h in
theorem caseArms_fails {n : Nat} {ts : List Token} {e : ParseFailure}
    (hterms : inTurn [Grammar.passed inner.term, need "THEN", Grammar.passed inner.term] ts = .error e) :
    ∃ f, caseArms inner n ts = .error f := by
  cases n with
  | zero => exact ⟨_, rfl⟩
  | succ n =>
      rw [caseArms, hterms]
      exact ⟨e, rfl⟩

/-- The cases are read one after the other with any fuel that the tokens do not use up. -/
theorem caseArms_agree {n n' k : Nat} (hn : k ≤ n) (hn' : k ≤ n') {ts : List Token}
    (hts : Within k ts) :
    Agree (LeftOver tail k) (caseArms inner n ts) (caseArms inner n' (ts ++ tail.tokens)) := by
  induction k using Nat.strongRecOn generalizing n n' ts with
  | ind k ih =>
      have hterms := passes_armTerms h k (Nat.le_refl k) ts hts
      cases ts with
      | nil =>
          -- no term is read of nothing, so it does not matter which of the two has fuel
          obtain ⟨e, he⟩ := h.fails_nil
          have hnone : inTurn [Grammar.passed inner.term, need "THEN", Grammar.passed inner.term] [] = .error e := by
            simp only [inTurn, Grammar.passed, he]
            rfl
          obtain ⟨f, hf⟩ := (hnone ▸ hterms).exists_error
          obtain ⟨e', he'⟩ := caseArms_fails (n := n) hnone
          obtain ⟨f', hf'⟩ := caseArms_fails (n := n') hf
          rw [he', hf']
          exact .failed
      | cons t ts =>
          have hpos := Nat.lt_of_lt_of_le (Nat.succ_pos ts.length) hts.bound
          obtain ⟨n, rfl⟩ := Nat.exists_eq_add_one_of_ne_zero (Nat.ne_zero_of_lt (Nat.lt_of_lt_of_le hpos hn))
          obtain ⟨n', rfl⟩ := Nat.exists_eq_add_one_of_ne_zero (Nat.ne_zero_of_lt (Nat.lt_of_lt_of_le hpos hn'))
          rw [caseArms, caseArms]
          refine hterms.andThen fun r hr => ?_
          rw [skip?_append tail (by decide)]
          cases hwhen : skip? ["WHEN"] r with
          | some r' =>
              obtain ⟨j, rfl, hr'⟩ := hr.exists_succ_of_skip? (by decide) hwhen
              exact (ih j (Nat.lt_succ_self j) (Nat.le_of_succ_le_succ hn) (Nat.le_of_succ_le_succ hn')
                hr').weakenRest (Nat.le_succ j)
          | none =>
              have hend : Passes tail k (inTurn [whenFirst [["ELSE"]] (Grammar.passed inner.term), need "END"])
                  (inTurn [whenFirst [["ELSE"]] (Grammar.passed inner.term), need "END"]) :=
                .inTurn (.cons (.whenFirst (by decide) h.passed) (.cons (.need (by decide)) .nil))
              exact hend k (Nat.le_refl k) r hr

theorem passes_caseTerm : Passes tail K (caseTerm inner) (caseTerm inner) := by
  refine .ofLength fun ts _ hts => ?_
  have harms (r : List Token) (hr : Within ts.length r) : Agree (LeftOver tail ts.length)
      (caseArms inner r.length r) (caseArms inner (r ++ tail.tokens).length (r ++ tail.tokens)) :=
    (caseArms_agree h (Nat.le_refl _) (tail.length_le _) hr.self).weakenRest hr.bound
  have hwhen : Passes tail ts.length (inTurn [Grammar.passed inner.term, need "WHEN"])
      (inTurn [Grammar.passed inner.term, need "WHEN"]) :=
    .inTurn (.cons h.passed (.cons (.need (by decide)) .nil))
  refine .ofSkip? hts (by decide) (fun r hr => harms r hr) fun _ => ?_
  exact (hwhen _ (Nat.le_refl _) ts hts).andThen harms

theorem passes_castTerm : Passes tail K (castTerm inner) (castTerm inner) :=
  .enclosed (.cons h.passed (.cons (.need (by decide)) (.cons passes_typeName
    (.cons (.whenFirst (by decide) (.inTurn (.cons passes_constant
      (.cons (.whenFirst (by decide) passes_constant) .nil)))) .nil))))

theorem passes_convertTerm : Passes tail K (convertTerm inner) (convertTerm inner) :=
  .enclosed (.cons h.passed (.cons (.ofSkip? (by decide) blind_dottedName.passed
    (.inTurn (.cons (.need (by decide)) (.cons passes_typeName
      (.cons (.whenFirst (by decide) blind_dottedName.passed) .nil))))) .nil))

theorem passes_extractTerm : Passes tail K (extractTerm inner) (extractTerm inner) :=
  .enclosed (.cons passes_timeField (.cons (.need (by decide)) (.cons h.passed .nil)))

theorem passes_roundingTerm : Passes tail K (roundingTerm inner) (roundingTerm inner) :=
  .enclosed (.cons h.passed (.cons (.whenFirst (by decide) passes_timeField) .nil))

theorem passes_substringTerm : Passes tail K (substringTerm inner) (substringTerm inner) :=
  .enclosed (.cons h.passed (.cons (.whenFirst (by decide) h.passed)
    (.cons (.whenFirst (by decide) h.passed) .nil)))

theorem passes_overlayTerm : Passes tail K (overlayTerm inner) (overlayTerm inner) :=
  .enclosed (.cons h.passed (.cons (.need (by decide)) (.cons h.passed (.cons (.need (by decide))
    (.cons h.passed (.cons (.whenFirst (by decide) h.passed) .nil))))))

theorem passes_trimTerm : Passes tail K (trimTerm inner) (trimTerm inner) :=
  .enclosed (.cons (.allow (by decide)) (.cons h.passed
    (.cons (.ofSkip? (by decide) h.passed (.whenFirst (by decide) h.terms)) .nil)))

omit h in
theorem passes_withExpansion : Passes tail K (fun ts => .ok (matchTerm.withExpansion ts))
    (fun ts => .ok (matchTerm.withExpansion ts)) := by
  intro k hk ts hts
  unfold matchTerm.withExpansion
  dsimp only
  rw [skip?_append tail (by decide)]
  cases hskip : skip? ["WITH", "QUERY", "EXPANSION"] ts with
  | some r => exact .reached (hts.of_skip? hskip)
  | none => exact .reached hts

omit h in
theorem passes_matchTerm : Passes tail K matchTerm matchTerm := by
  refine .inTurn (.cons passes_wordList (.cons (.need (by decide)) (.cons (.enclosed
    (.cons passes_constant (.cons (fun k hk ts hts => ?_) .nil))) .nil)))
  rw [skip?_append tail (by decide), skip?_append tail (by decide)]
  cases hnatural : skip? ["IN", "NATURAL", "LANGUAGE", "MODE"] ts with
  | some r => exact passes_withExpansion k hk r (hts.of_skip? hnatural)
  | none =>
      cases hboolean : skip? ["IN", "BOOLEAN", "MODE"] ts with
      | some r => exact .reached (hts.of_skip? hboolean)
      | none => exact passes_withExpansion k hk ts hts

theorem passes_structTerm : Passes tail K (structTerm inner) (structTerm inner) :=
  .enclosed (.cons (Passes.listOf (.inTurn (.cons h.passed
    (.cons (.whenFirst (by decide) blind_word.passed) .nil)))) .nil)

/-- **Constructs with a keyword are blind to an idle tail.** -/
theorem passes_construct? {k : String} {construct : Passage} (hk : construct? inner k = some construct) :
    Passes tail K construct construct := by
  unfold construct? at hk
  split at hk
  all_goals first
    | obtain rfl := Option.some.inj hk
    | exact absurd hk (by simp)
  · exact passes_caseTerm h
  · exact passes_castTerm h
  · exact passes_castTerm h
  · exact passes_castTerm h
  · exact passes_convertTerm h
  · exact passes_extractTerm h
  · exact passes_roundingTerm h
  · exact passes_roundingTerm h
  · exact passes_substringTerm h
  · exact passes_overlayTerm h
  · exact passes_trimTerm h
  · exact passes_matchTerm
  · exact passes_structTerm h

end Constructs

end PrivateSql.Sql.Grammar
