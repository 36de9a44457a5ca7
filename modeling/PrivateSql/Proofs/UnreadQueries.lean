import PrivateSql.Proofs.UnreadBlocks
/-!
# Queries before an idle sign

Set operations, the queries with names, orders and limits.  With these the grammar is closed: terms and queries of
one level are blind to an idle tail when those of the level below are, and below the last level nothing is read.

* `body_agree` — blocks with set operations between them;
* `blind_query` — whole queries;
* `isBlind_nested` — every level of the grammar is blind to an idle tail.
-/

namespace PrivateSql.Sql.Grammar

variable {tail : IdleTail} {K k : Nat} {inner : Nested} (h : inner.IsBlind tail)

/-! ## Set operations -/

theorem Agree.refusedBody {start : List Token} {x y : Reading (List Token)} (hxy : Agree (LeftOver tail k) x y) :
    Agree (SameRead tail k) (refusedBody start x) (refusedBody (start ++ tail.tokens) y) := by
  refine hxy.andThen fun r hr => ?_
  rw [sourceBetween_append]
  exact .found hr

/-- Keywords and signs that begin rows. -/
def bodyMarks : List String := ["SELECT", "(", "VALUES", "TABLE"]

theorem simpleBody_of_ne {ts : List Token} (hmark : mark ts ∉ bodyMarks) :
    simpleBody inner ts = failExpected "SELECT, VALUES or a subquery" ts := by
  unfold simpleBody
  split
  all_goals first
    | rfl
    | (rename_i heq
       exact absurd (heq ▸ hmark) (by decide))

/-- What stands between parentheses is a token less. -/
theorem enclosed_of_mark {ps : List Passage} {ts : List Token} (hmark : mark ts = "(") :
    enclosed ps ts = inTurn (ps ++ [need ")"]) (ts.drop 1) := by
  rw [enclosed, List.append_assoc, List.singleton_append, inTurn, need, if_pos hmark]
  rfl

include h in
theorem advances_simpleBody : Advances tail K (simpleBody inner) (simpleBody inner) := by
  intro k hk ts hts
  by_cases hmark : mark ts ∈ bodyMarks
  · have hne := ne_nil_of_mark_mem (by decide) hmark
    have hrest := hts.drop_one hne
    have hcalm := hts.mark_ne (m := "TABLE") (by decide)
    have hmark' := mark_append_of_ne_nil hne tail.tokens
    unfold simpleBody
    rw [hmark', drop_append_of_ne_nil hne]
    simp only [bodyMarks, List.mem_cons, List.not_mem_nil, or_false] at hmark
    rcases hmark with heq | heq | heq | heq <;> rw [heq]
    · exact (blind_block h k (Nat.le_refl k) _ hrest).next fun _ _ hr => .found hr
    · have hquery : Passes tail k (inTurn [passed inner.query, need ")"]) (inTurn [passed inner.query, need ")"]) :=
        .inTurn (.cons (h.query k).passed (.cons (.need (by decide)) .nil))
      dsimp only
      rw [enclosed_of_mark heq, enclosed_of_mark (hmark'.trans heq), drop_append_of_ne_nil hne]
      exact (hquery k (Nat.le_refl k) _ hrest).refusedBody
    · exact (passes_rowList h k (Nat.le_refl k) _ hrest).refusedBody
    · exact absurd heq hcalm
  · rw [simpleBody_of_ne hmark, simpleBody_of_ne (mt (mark_append_mem_iff tail (by decide)).mp hmark)]
    exact .failed

theorem setPrecedence_append (ts : List Token) : setPrecedence (ts ++ tail.tokens) = setPrecedence ts := by
  have hidle : ∀ s ∈ idleSigns, setPrecedence [.symbol s] = 0 := by decide
  cases ts with
  | nil => exact hidle _ tail.idle
  | cons t ts => rw [setPrecedence, mark_append_of_ne_nil (List.cons_ne_nil t ts), setPrecedence]

theorem setQuantifier_append (ts : List Token) :
    setQuantifier (ts ++ tail.tokens) = setQuantifier ts ++ tail.tokens := by
  rw [setQuantifier, setQuantifier, skipOneOf_append tail (by decide), skip?_append tail (by decide)]
  cases skip? ["BY", "NAME"] (skipOneOf ["ALL", "DISTINCT"] ts) <;> rfl

theorem Within.setQuantifier {ts : List Token} (hts : Within k ts) : Within k (setQuantifier ts) := by
  have hskip := hts.skipOneOf ["ALL", "DISTINCT"]
  rw [Grammar.setQuantifier]
  cases hname : skip? ["BY", "NAME"] (Grammar.skipOneOf ["ALL", "DISTINCT"] ts) with
  | some r => exact hskip.of_skip? hname
  | none => exact hskip

include h in
/-- Bodies and the set operations after them are read alike with any fuel that the tokens do not use up. -/
theorem body_setOperations_agree (n : Nat) :
    (∀ n' k floor ts, k < n → k < n' → Within k ts →
      Agree (SameRead tail k) (body inner n floor ts) (body inner n' floor (ts ++ tail.tokens))) ∧
    (∀ n' k floor start b ts, k < n → k < n' → Within k ts →
      Agree (SameRead tail k) (setOperations inner n floor start b ts)
        (setOperations inner n' floor (start ++ tail.tokens) b (ts ++ tail.tokens))) := by
  induction n with
  | zero =>
      exact ⟨fun _ k _ _ hn => absurd hn (Nat.not_lt_zero k), fun _ k _ _ _ _ hn => absurd hn (Nat.not_lt_zero k)⟩
  | succ n ih =>
      obtain ⟨hbody, hoperations⟩ := ih
      refine ⟨fun n' k floor ts hn hn' hts => ?_, fun n' k floor start b ts hn hn' hts => ?_⟩
      all_goals obtain ⟨n', rfl⟩ := Nat.exists_eq_add_one_of_ne_zero (Nat.ne_zero_of_lt hn')
      · rw [body, body]
        cases k with
        | zero =>
            obtain rfl : ts = [] := List.length_eq_zero_iff.mp (Nat.le_zero.mp hts.bound)
            have hidle : mark ([] ++ tail.tokens) ∉ bodyMarks :=
              mt (mark_append_mem_iff tail (by decide)).mp (by decide)
            rw [simpleBody_of_ne hidle]
            exact .failed
        | succ k =>
            refine ((advances_simpleBody h k (Nat.le_refl k) ts hts).next fun b r hr => ?_).weaken
              (Nat.le_succ k)
            exact hoperations n' k floor ts b r (by omega) (by omega) hr
      · rw [setOperations, setOperations, setPrecedence_append]
        split
        · exact .found hts
        · rename_i hfloor
          cases k with
          | zero =>
              obtain rfl : ts = [] := List.length_eq_zero_iff.mp (Nat.le_zero.mp hts.bound)
              exact absurd (Nat.zero_le floor) hfloor
          | succ k =>
              have hne : ts ≠ [] := by
                rintro rfl
                exact hfloor (Nat.zero_le floor)
              have hrest := (hts.drop_one hne).setQuantifier
              rw [drop_append_of_ne_nil hne, setQuantifier_append]
              refine ((hbody n' k _ _ (by omega) (by omega) hrest).next fun _ r hr => ?_).weaken
                (Nat.le_succ k)
              dsimp only
              rw [sourceBetween_append]
              exact hoperations n' k floor start _ r (by omega) (by omega) hr

/-! ## Orders and limits -/

include h

theorem passes_withClause : Passes tail K (withClause inner) (withClause inner) := by
  have hnamed : Passes tail K (namedQuery inner) (namedQuery inner) :=
    .inTurn (.cons blind_word.passed (.cons (.whenEnclosed (.cons blind_word.passed.listOf .nil))
      (.cons (.need (by decide)) (.cons (.enclosed (.cons (h.query K).passed .nil))
        (.cons (.whenFirst (by decide) blind_word.passed) .nil)))))
  exact .whenFirst (by decide) (.inTurn (.cons (.allow (by decide)) (.cons hnamed.listOf .nil)))

theorem blind_limitTerm : Blind tail K (limitTerm inner) (limitTerm inner) := by
  intro k hk ts hts
  refine .ofSkip? hts (by decide) (fun r hr => .found hr) fun _ => ?_
  exact (h.term K k hk ts hts).next fun _ _ hr => .found hr

theorem passes_offsetTerm : Passes tail K (offsetTerm inner) (offsetTerm inner) :=
  .inTurn (.cons h.passed (.cons (.allow (by decide)) .nil))

/-- A second number in the limit stands behind a comma. -/
def limitsAfterOffset (inner : Nested) (n : Nat) (limit : Option Term) (skips : Bool) :
    Piece (Option Term × Bool) := fun ts =>
  match limit.isSome && !skips, ts with
  | true, .symbol "," :: rest => do
    let (t, rest) ← inner.term rest
    limits inner n (some t, true) rest
  | _, _ => limits inner n (limit, skips) ts

/-- Skipped rows stand behind the limit, or before it. -/
def limitsAfterLimit (inner : Nested) (n : Nat) (limit : Option Term) (skips : Bool) :
    Piece (Option Term × Bool) := fun ts =>
  if skips then limitsAfterOffset inner n limit skips ts
  else do
    let rest ← whenFirst [["OFFSET"]] (offsetTerm inner) ts
    limitsAfterOffset inner n limit (decide (mark ts = "OFFSET")) rest

omit h in
theorem limits_succ (n : Nat) (limit : Option Term) (skips : Bool) (ts : List Token) :
    limits inner (n + 1) (limit, skips) ts =
      if limit.isNone then do
        let (l, ts) ← after ["LIMIT"] (limitTerm inner) ts
        limitsAfterLimit inner n l.join skips ts
      else limitsAfterLimit inner n limit skips ts := by
  rw [limits]
  cases limit <;> cases skips <;> rfl

theorem blind_limits (n : Nat) (found : Option Term × Bool) :
    Blind tail K (limits inner n found) (limits inner n found) := by
  induction n generalizing found with
  | zero => exact fun k hk ts hts => .found hts
  | succ n ih =>
      have hoffset (limit : Option Term) (skips : Bool) :
          Blind tail K (limitsAfterOffset inner n limit skips) (limitsAfterOffset inner n limit skips) := by
        intro k hk ts hts
        unfold limitsAfterOffset
        cases limit.isSome && !skips with
        | false => exact ih (limit, skips) k hk ts hts
        | true =>
            dsimp only
            split
            · refine (h.term K k hk _ hts.tail).next fun t r hr => ?_
              exact ih (some t, true) k hk r hr
            · rename_i hcomma
              split
              · rename_i heq
                exact absurd heq (tail.append_ne_cons (by decide) (fun rest => hcomma rest rfl) _)
              · exact ih (limit, skips) k hk _ hts
      have hlimit (limit : Option Term) (skips : Bool) :
          Blind tail K (limitsAfterLimit inner n limit skips) (limitsAfterLimit inner n limit skips) := by
        intro k hk ts hts
        unfold limitsAfterLimit
        split
        · exact hoffset limit skips k hk ts hts
        · refine ((passes_offsetTerm h).whenFirst (by decide) k hk ts hts).andThen fun r hr => ?_
          have hmark : mark (ts ++ tail.tokens) = "OFFSET" ↔ mark ts = "OFFSET" :=
            mark_append_eq_iff tail (by decide)
          rw [decide_eq_decide.mpr hmark]
          exact hoffset limit _ k hk r hr
      obtain ⟨limit, skips⟩ := found
      intro k hk ts hts
      rw [limits_succ, limits_succ]
      split
      · refine ((blind_limitTerm h).after (by decide) k hk ts hts).next fun l r hr => ?_
        exact hlimit l.join skips k hk r hr
      · exact hlimit limit skips k hk ts hts

omit h in
theorem passes_fetch : Passes tail K fetch fetch := by
  have hrows : Passes tail K
      (fun ts => if mark ts ∈ fetch.rows then .ok (ts.drop 1)
        else inTurn [constant, allow ["PERCENT"], needOneOf fetch.rows] ts)
      (fun ts => if mark ts ∈ fetch.rows then .ok (ts.drop 1)
        else inTurn [constant, allow ["PERCENT"], needOneOf fetch.rows] ts) := by
    intro k hk ts hts
    have hmem : mark (ts ++ tail.tokens) ∈ fetch.rows ↔ mark ts ∈ fetch.rows :=
      mark_append_mem_iff tail (by decide)
    dsimp only
    by_cases hmark : mark ts ∈ fetch.rows
    · rw [if_pos hmark, if_pos (hmem.mpr hmark), drop_append_of_ne_nil (ne_nil_of_mark_mem (by decide) hmark)]
      exact .reached (hts.drop 1)
    · rw [if_neg hmark, if_neg (mt hmem.mp hmark)]
      exact Passes.inTurn (.cons passes_constant (.cons (.allow (by decide))
        (.cons (.needOneOf (by decide)) .nil))) k hk ts hts
  exact .inTurn (.cons (.needOneOf (by decide)) (.cons hrows
    (.cons (.ofSkip? (by decide) .done (.need (by decide))) .nil)))

/-- Keywords of the forms that rows are given in. -/
def documentMarks : List String := ["BROWSE", "XML", "JSON"]

omit h in
theorem documentClause?_none {ts : List Token} (hmark : mark ts ∉ documentMarks) :
    documentClause? ts = none := by
  unfold documentClause?
  dsimp only
  split
  all_goals first
    | rfl
    | (rename_i heq
       exact absurd (heq ▸ hmark) (by decide))

omit h in
theorem documentClause?_some (tail : IdleTail) {ts : List Token} (hmark : mark ts ∈ documentMarks)
    (hts : Within k ts) :
    ∃ x y, documentClause? ts = some x ∧ documentClause? (ts ++ tail.tokens) = some y ∧
      Agree (LeftOver tail k) x y := by
  have hne := ne_nil_of_mark_mem (by decide) hmark
  have hrest := hts.drop 1
  unfold documentClause?
  rw [mark_append_of_ne_nil hne, drop_append_of_ne_nil hne]
  simp only [documentMarks, List.mem_cons, List.not_mem_nil, or_false] at hmark
  rcases hmark with heq | heq | heq <;> rw [heq]
  · exact ⟨_, _, rfl, rfl, .reached hrest⟩
  · exact ⟨_, _, rfl, rfl, Passes.needOneOf (by decide) k (Nat.le_refl k) _ hrest⟩
  · exact ⟨_, _, rfl, rfl, Passes.needOneOf (by decide) k (Nat.le_refl k) _ hrest⟩

omit h in
theorem purposes_none {n : Nat} {ts : List Token} (hnone : skip? ["FOR"] ts = none) :
    purposes n ts = .ok ts := by
  cases n with
  | zero => rfl
  | succ n => rw [purposes, hnone]

omit h in
/-- The purposes are read one after the other with any fuel that the tokens do not use up. -/
theorem purposes_agree {n n' : Nat} (hn : k ≤ n) (hn' : k ≤ n') {ts : List Token} (hts : Within k ts) :
    Agree (LeftOver tail k) (purposes n ts) (purposes n' (ts ++ tail.tokens)) := by
  induction k using Nat.strongRecOn generalizing n n' ts with
  | ind k ih =>
      have hskip : skip? ["FOR"] (ts ++ tail.tokens) = (skip? ["FOR"] ts).map (· ++ tail.tokens) :=
        skip?_append tail (by decide)
      cases hfor : skip? ["FOR"] ts with
      | none =>
          rw [hfor] at hskip
          rw [purposes_none hfor, purposes_none hskip]
          exact .reached hts
      | some r =>
          rw [hfor] at hskip
          obtain ⟨j, rfl, hr⟩ := hts.exists_succ_of_skip? (by decide) hfor
          obtain ⟨n, rfl⟩ := Nat.exists_eq_add_one_of_ne_zero (Nat.ne_zero_of_lt hn)
          obtain ⟨n', rfl⟩ := Nat.exists_eq_add_one_of_ne_zero (Nat.ne_zero_of_lt hn')
          rw [purposes, purposes, hfor, hskip]
          refine Agree.weakenRest ?_ (Nat.le_succ j)
          dsimp only [Option.map_some]
          by_cases hmark : mark r ∈ documentMarks
          · obtain ⟨x, y, hx, hy, hxy⟩ := documentClause?_some tail hmark hr
            rw [hx, hy]
            exact hxy
          · rw [documentClause?_none hmark,
              documentClause?_none (mt (mark_append_mem_iff tail (by decide)).mp hmark)]
            have hlock : Passes tail j
                (inTurn [needOneOf ["UPDATE", "SHARE"], whenFirst [["OF"]] (passed dottedName),
                  whenFirst [["NOWAIT"], ["SKIP", "LOCKED"]] .ok])
                (inTurn [needOneOf ["UPDATE", "SHARE"], whenFirst [["OF"]] (passed dottedName),
                  whenFirst [["NOWAIT"], ["SKIP", "LOCKED"]] .ok]) :=
              .inTurn (.cons (.needOneOf (by decide)) (.cons (.whenFirst (by decide) blind_dottedName.passed)
                (.cons (.whenFirst (by decide) Passes.done) .nil)))
            refine (hlock j (Nat.le_refl j) r hr).andThen fun r hr => ?_
            exact ih j (Nat.lt_succ_self j) (Nat.le_of_succ_le_succ hn) (Nat.le_of_succ_le_succ hn') hr

theorem blind_plainQuery (hasWith : Bool) :
    Blind tail K (plainQuery inner hasWith) (plainQuery inner hasWith) := by
  refine .ofLength fun ts _ hts => ?_
  have hbody := (body_setOperations_agree h (ts.length + 1)).1 ((ts ++ tail.tokens).length + 1) ts.length 0 ts
    (Nat.lt_succ_self _) (Nat.lt_succ_of_le (tail.length_le ts)) hts
  refine hbody.next fun b r hr => ?_
  refine ((h.term _).orderTerms _ (Nat.le_refl _) r hr).next fun orderBy r hr => ?_
  refine (blind_limits h 2 (none, false) _ (Nat.le_refl _) r hr).next fun found r hr => ?_
  refine (h.terms.whenFirst (by decide) _ (Nat.le_refl _) r hr).andThen fun r hr => ?_
  have hpurposes : Passes tail ts.length (fun ts => purposes ts.length ts) (fun ts => purposes ts.length ts) :=
    .ofLength fun us _ hus => purposes_agree (Nat.le_refl _) (tail.length_le _) hus
  have hfetch : Passes tail ts.length (whenFirst [["FETCH"]] fetch) (whenFirst [["FETCH"]] fetch) :=
    .whenFirst (by decide) passes_fetch
  have hending := Passes.inTurn (.cons hfetch (.cons hpurposes .nil)) _ (Nat.le_refl _) r hr
  dsimp only
  rw [decide_eq_decide.mpr (mark_append_eq_iff tail (by decide))]
  exact hending.andThen fun r hr => .found hr

/-- A change of rows needs a keyword that is not calm. -/
theorem replacement_agree {ts : List Token} (hts : Within k ts) :
    Agree (LeftOver tail k) (replacement inner ts) (replacement inner (ts ++ tail.tokens)) := by
  have hfactor : Blind tail ts.length (tableFactor inner (ts.length + 1))
      (tableFactor inner ((ts ++ tail.tokens).length + 1)) :=
    fun j hj us hus => tableFactor_agree h (Nat.lt_succ_of_le hj)
      (Nat.lt_succ_of_le (Nat.le_trans hj (tail.length_le ts))) hus
  have htable := ((blind_tableSource h hfactor).passed _ (Nat.le_refl _) ts hts.self).weakenRest hts.bound
  refine htable.andThen fun r hr => ?_
  have hset := hr.mark_ne (m := "SET") (by decide)
  have hset' := mt (mark_append_eq_iff tail (by decide)).mp hset
  rw [inTurn, inTurn, need, need, if_neg hset, if_neg hset']
  exact .failed

/-- A query behind the queries with names, or a change in its place. -/
def queryAfter (inner : Nested) (hasWith : Bool) : Piece QuerySource := fun ts =>
  match mark ts with
  | "INSERT" => do
    let (b, rest) ← refusedBody ts (insertion inner (ts.drop 1))
    return (⟨hasWith, b, [], none, false⟩, rest)
  | "UPDATE" => do
    let (b, rest) ← refusedBody ts (replacement inner (ts.drop 1))
    return (⟨hasWith, b, [], none, false⟩, rest)
  | _ => plainQuery inner hasWith ts

omit h in
theorem queryAfter_of_ne {hasWith : Bool} {ts : List Token} (hmark : mark ts ∉ ["INSERT", "UPDATE"]) :
    queryAfter inner hasWith ts = plainQuery inner hasWith ts := by
  unfold queryAfter
  split
  all_goals first
    | rfl
    | (rename_i heq
       exact absurd (heq ▸ hmark) (by decide))

omit h in
theorem query_eq (ts : List Token) :
    query inner ts = withClause inner ts >>= queryAfter inner (decide (mark ts = "WITH")) := by
  unfold query
  dsimp only
  congr 1
  funext r
  by_cases hinsert : mark r = "INSERT"
  · rw [queryAfter, hinsert]
    rfl
  by_cases hupdate : mark r = "UPDATE"
  · rw [queryAfter, hupdate]
    rfl
  rw [queryAfter_of_ne (by simp [hinsert, hupdate])]
  split
  · rename_i hchange
    split at hchange
    · exact absurd ‹_› hinsert
    · exact absurd ‹_› hupdate
    · cases hchange
  · rfl

theorem blind_queryAfter (hasWith : Bool) :
    Blind tail K (queryAfter inner hasWith) (queryAfter inner hasWith) := by
  intro k hk ts hts
  by_cases hmark : mark ts ∈ ["INSERT", "UPDATE"]
  · have hne := ne_nil_of_mark_mem (by decide) hmark
    have hcalm := hts.mark_ne (m := "INSERT") (by decide)
    unfold queryAfter
    rw [mark_append_of_ne_nil hne, drop_append_of_ne_nil hne]
    simp only [List.mem_cons, List.not_mem_nil, or_false] at hmark
    rcases hmark with heq | heq
    · exact absurd heq hcalm
    · rw [heq]
      exact (replacement_agree h (hts.drop 1)).refusedBody.next fun _ _ hr => .found hr
  · rw [queryAfter_of_ne hmark, queryAfter_of_ne (mt (mark_append_mem_iff tail (by decide)).mp hmark)]
    exact blind_plainQuery h hasWith k hk ts hts

/-- **Queries are blind to an idle tail.** -/
theorem blind_query : Blind tail K (query inner) (query inner) := by
  intro k hk ts hts
  rw [query_eq, query_eq, decide_eq_decide.mpr (mark_append_eq_iff tail (by decide))]
  refine (passes_withClause h k hk ts hts).andThen fun r hr => ?_
  exact blind_queryAfter h _ k hk r hr

omit h in
/-- **Every level of the grammar is blind to an idle tail.** -/
theorem isBlind_nested (levels : Nat) : (nested levels).IsBlind tail := by
  induction levels with
  | zero => exact ⟨fun _ _ _ _ _ => .failed, fun _ _ _ _ _ => .failed, _, rfl⟩
  | succ levels ih => exact ⟨fun _ => blind_term ih, fun _ => blind_query ih, _, rfl⟩

end PrivateSql.Sql.Grammar
