import PrivateSql.Proofs.UnreadTables
/-!
# Blocks before an idle sign

The clauses of a block `SELECT ... HAVING`, those that are answered for and those that are read and not kept.
Each of them may be left out, and none of them begins with an idle sign.

* `blind_selectItem`, `blind_grouping` — selected terms and terms to group by;
* `blind_block` — whole blocks.
-/

namespace PrivateSql.Sql.Grammar

variable {tail : IdleTail} {K k : Nat} {inner : Nested} (h : inner.IsBlind tail)

/-! ## Selected terms -/

theorem passes_renamed : Passes tail K renamed renamed :=
  .inTurn (.cons blind_word.passed (.cons (.allow (by decide)) (.cons blind_word.passed .nil)))

theorem passes_wordOrList : Passes tail K starEnding.wordOrList starEnding.wordOrList :=
  .ifMark (by decide) passes_wordList blind_word.passed

include h

theorem passes_starEnding : Passes tail K (starEnding inner) (starEnding inner) := by
  intro k hk ts hts
  have hreplace : Passes tail K (enclosed [listOf (inTurn [passed inner.term, allow ["AS"], passed word])])
      (enclosed [listOf (inTurn [passed inner.term, allow ["AS"], passed word])]) :=
    .enclosed (.cons (Passes.listOf (.inTurn (.cons h.passed (.cons (.allow (by decide))
      (.cons blind_word.passed .nil))))) .nil)
  have hrename : Passes tail K (fun ts => if mark ts = "(" then enclosed [listOf renamed] ts else renamed ts)
      (fun ts => if mark ts = "(" then enclosed [listOf renamed] ts else renamed ts) :=
    .ifMark (by decide) (.enclosed (.cons passes_renamed.listOf .nil)) passes_renamed
  have hexcept : Passes tail K (whenFirst [["EXCEPT"]] starEnding.wordOrList)
      (whenFirst [["EXCEPT"]] starEnding.wordOrList) := .whenFirst (by decide) passes_wordOrList
  have hrest := Passes.inTurn (.cons hexcept (.cons (@hreplace.whenFirst _ _ _ _ [["REPLACE"]] (by decide))
    (.cons (@hrename.whenFirst _ _ _ _ [["RENAME"]] (by decide)) .nil))) k hk
  have hexclude : Passes tail K (whenFirst [["EXCLUDE"]] starEnding.wordOrList)
      (whenFirst [["EXCLUDE"]] starEnding.wordOrList) := .whenFirst (by decide) passes_wordOrList
  have honly : mark (ts ++ tail.tokens) = "ILIKE" ↔ mark ts = "ILIKE" := mark_append_eq_iff tail (by decide)
  refine Agree.andThen (Passes.whenFirst (by decide) passes_string k hk ts hts) fun r hr => ?_
  by_cases hmark : mark ts = "ILIKE"
  · simp only [hmark, honly.mpr hmark, if_true]
    exact hrest r hr
  · simp only [hmark, mt honly.mp hmark, if_false]
    exact (hexclude k hk r hr).andThen hrest

theorem blind_selectItem : Blind tail K (selectItem inner) (selectItem inner) := by
  intro k hk ts hts
  refine ((h.term K).starOr k hk ts hts).next fun found r hr => ?_
  cases found with
  | term t => exact (blind_aliasWord _ k hk r hr).next fun _ _ hr => .found hr
  | star =>
      refine (passes_starEnding h k hk r hr).andThen fun r hr => ?_
      rw [sourceBetween_append]
      exact .found hr
  | refused =>
      refine (passes_starEnding h k hk r hr).andThen fun r hr => ?_
      rw [sourceBetween_append]
      exact .found hr

theorem passes_termTuple : Passes tail K (termTuple inner) (termTuple inner) :=
  .ofSkip? (by decide) .done (.enclosed (.cons h.terms .nil))

theorem blind_selectQuantifier : Blind tail K (selectQuantifier inner) (selectQuantifier inner) := by
  intro k hk ts hts
  have hall := hts.skipOneOf ["ALL"]
  unfold selectQuantifier
  dsimp only
  rw [skipOneOf_append tail (by decide), skip?_append tail (by decide)]
  cases hdistinct : skip? ["DISTINCT"] (skipOneOf ["ALL"] ts) with
  | none => exact .found hall
  | some r =>
      refine .ofMark (by decide) (fun _ => .failed) ?_
      exact ((passes_termTuple h).whenFirst (by decide) k hk r (hall.of_skip? hdistinct)).andThen
        fun _ hr => .found hr

theorem passes_topRows : Passes tail K (topRows inner) (topRows inner) :=
by
  have hrows : Passes tail K (fun ts => if mark ts = "(" then enclosed [passed inner.term] ts else size ts)
      (fun ts => if mark ts = "(" then enclosed [passed inner.term] ts else size ts) :=
    .ifMark (by decide) (.enclosed (.cons h.passed .nil)) passes_size
  exact .inTurn (.cons hrows (.cons (.allow (by decide)) (.cons (.whenFirst (by decide) Passes.done) .nil)))

omit h in
theorem passes_intoTable : Passes tail K intoTable intoTable :=
  .inTurn (.cons (.allow (by decide)) (.cons (.allow (by decide)) (.cons (.allow (by decide))
    (.cons blind_dottedName.passed .nil))))

/-! ## Views and groups -/

omit h in
theorem lateralViews_none {n : Nat} {ts : List Token} (hnone : skip? ["LATERAL", "VIEW"] ts = none) :
    lateralViews inner n ts = .ok ts := by
  cases n with
  | zero => rfl
  | succ n => rw [lateralViews, hnone]

/-- Views are read one after the other with any fuel that the tokens do not use up. -/
theorem lateralViews_agree {n n' : Nat} (hn : k ≤ n) (hn' : k ≤ n') {ts : List Token} (hts : Within k ts) :
    Agree (LeftOver tail k) (lateralViews inner n ts) (lateralViews inner n' (ts ++ tail.tokens)) := by
  induction k using Nat.strongRecOn generalizing n n' ts with
  | ind k ih =>
      have hskip : skip? ["LATERAL", "VIEW"] (ts ++ tail.tokens) =
          (skip? ["LATERAL", "VIEW"] ts).map (· ++ tail.tokens) := skip?_append tail (by decide)
      cases hview : skip? ["LATERAL", "VIEW"] ts with
      | none =>
          rw [hview] at hskip
          rw [lateralViews_none hview, lateralViews_none hskip]
          exact .reached hts
      | some r =>
          rw [hview] at hskip
          obtain ⟨j, rfl, hr⟩ := hts.exists_succ_of_skip? (by decide) hview
          obtain ⟨n, rfl⟩ := Nat.exists_eq_add_one_of_ne_zero (Nat.ne_zero_of_lt hn)
          obtain ⟨n', rfl⟩ := Nat.exists_eq_add_one_of_ne_zero (Nat.ne_zero_of_lt hn')
          have hlabel : Blind tail j (aliasWord ["WHERE", "GROUP", "CLUSTER", "HAVING", "LATERAL"])
              (aliasWord ["WHERE", "GROUP", "CLUSTER", "HAVING", "LATERAL"]) := blind_aliasWord _
          have hparts := Passes.inTurn (.cons h.passed (.cons blind_dottedName.passed
            (.cons hlabel.passed.listOf .nil))) j (Nat.le_refl j) _ (hr.skipOneOf ["OUTER"])
          rw [lateralViews, lateralViews, hview, hskip]
          dsimp only [Option.map_some]
          rw [skipOneOf_append tail (by decide)]
          refine Agree.weakenRest ?_ (Nat.le_succ j)
          refine hparts.andThen fun r hr => ?_
          exact ih j (Nat.lt_succ_self j) (Nat.le_of_succ_le_succ hn) (Nat.le_of_succ_le_succ hn') hr

theorem blind_groupItem : Blind tail K (groupItem inner) (groupItem inner) := by
  intro k hk ts hts
  have htuple : Passes tail K (groupItem.tupleOrTerm inner) (groupItem.tupleOrTerm inner) :=
    .ifMark (by decide) (passes_termTuple h) h.passed
  refine .ofSkip? hts (by decide) (fun r hr => ?_) fun _ => .ofEither (by decide) (fun hne => ?_) ?_
  · exact (Passes.enclosed (.cons (passes_termTuple h).listOf .nil) k hk r hr).refusedTerm
  · rw [drop_append_of_ne_nil hne]
    exact (Passes.enclosed (.cons htuple.listOf .nil) k hk _ (hts.drop 1)).refusedTerm
  · exact h.term K k hk ts hts

theorem blind_grouping : Blind tail K (grouping inner) (grouping inner) := by
  intro k hk ts hts
  refine .ofSkip? hts (by decide) (fun r hr => .found hr) fun _ => ?_
  exact ((blind_groupItem h).commaSeparated k hk ts hts).next fun _ _ hr => .found hr

/-! ## Windows and searches -/

theorem passes_namedWindows : Passes tail K (namedWindows inner) (namedWindows inner) :=
  .whenFirst (by decide) (Passes.listOf (.inTurn (.cons blind_word.passed (.cons (.need (by decide))
    (.cons (h.term K).namedOrWindow .nil)))))

theorem passes_windowClauses : Passes tail K (windowClauses inner) (windowClauses inner) := by
  have hcondition : Passes tail K (whenFirst [["QUALIFY"]] (passed inner.term))
      (whenFirst [["QUALIFY"]] (passed inner.term)) := .whenFirst (by decide) h.passed
  exact .ifMark (by decide) (.inTurn (.cons (passes_namedWindows h) (.cons hcondition .nil)))
    (.ifMark (by decide) (.inTurn (.cons hcondition (.cons (passes_namedWindows h) .nil))) .done)

omit h in
theorem searchClause_of_ne {ts : List Token} (hmark : mark ts ∉ ["START", "CONNECT"]) :
    searchClause inner ts = .ok ts := by
  unfold searchClause
  dsimp only
  split
  all_goals first
    | rfl
    | (rename_i heq
       exact absurd (heq ▸ hmark) (by decide))

theorem passes_searchClause : Passes tail K (searchClause inner) (searchClause inner) := by
  intro k hk ts hts
  have hstart : Passes tail K (inTurn [need "START", need "WITH", passed inner.term])
      (inTurn [need "START", need "WITH", passed inner.term]) :=
    .inTurn (.cons (.need (by decide)) (.cons (.need (by decide)) (.cons h.passed .nil)))
  have hstep : Passes tail K (inTurn [need "CONNECT", need "BY", inner.terms])
      (inTurn [need "CONNECT", need "BY", inner.terms]) :=
    .inTurn (.cons (.need (by decide)) (.cons (.need (by decide)) (.cons h.terms .nil)))
  by_cases hmark : mark ts ∈ ["START", "CONNECT"]
  · unfold searchClause
    rw [mark_append_of_ne_nil (ne_nil_of_mark_mem (by decide) hmark)]
    simp only [List.mem_cons, List.not_mem_nil, or_false] at hmark
    rcases hmark with heq | heq <;> rw [heq]
    · exact Passes.inTurn (.cons hstart (.cons hstep .nil)) k hk ts hts
    · exact Passes.inTurn (.cons hstep (.cons hstart .nil)) k hk ts hts
  · rw [searchClause_of_ne hmark, searchClause_of_ne (mt (mark_append_mem_iff tail (by decide)).mp hmark)]
    exact .reached hts

/-- **Blocks are blind to an idle tail.** -/
theorem blind_block : Blind tail K (block inner) (block inner) := by
  intro k hk ts hts
  refine (blind_selectQuantifier h k hk ts hts).next fun isDistinct r hr => ?_
  refine ((passes_topRows h).whenFirst (by decide) k hk r hr).andThen fun r hr => ?_
  refine ((blind_selectItem h).commaSeparated k hk r hr).next fun select r hr => ?_
  refine (passes_intoTable.whenFirst (by decide) k hk r hr).andThen fun r hr => ?_
  have hfactor : Blind tail r.length (tableFactor inner (r.length + 1))
      (tableFactor inner ((r ++ tail.tokens).length + 1)) :=
    fun j hj us hus => tableFactor_agree h (Nat.lt_succ_of_le hj)
      (Nat.lt_succ_of_le (Nat.le_trans hj (tail.length_le r))) hus
  have hsources := (blind_tableSource h hfactor).commaSeparated
  refine ((hsources.after (by decide) r.length (Nat.le_refl _) r hr.self).weaken hr.bound).next
    fun tables r hr => ?_
  refine ((lateralViews_agree h (Nat.le_refl _) (tail.length_le _) hr.self).weakenRest hr.bound).andThen
    fun r hr => ?_
  refine ((h.term K).after (by decide) k hk r hr).next fun selection r hr => ?_
  refine ((blind_grouping h).after (by decide) k hk r hr).next fun groups r hr => ?_
  have hsort (m : String) (hm : areRead [m, "BY"] = true) :
      Passes tail K (whenFirst [[m, "BY"]] inner.terms) (whenFirst [[m, "BY"]] inner.terms) :=
    .whenFirst (by simpa using hm) h.terms
  refine (Passes.inTurn (.cons (hsort "CLUSTER" (by decide)) (.cons (hsort "DISTRIBUTE" (by decide))
    (.cons (hsort "SORT" (by decide)) .nil))) k hk r hr).andThen fun r hr => ?_
  refine ((h.term K).after (by decide) k hk r hr).next fun having r hr => ?_
  have hwindows := Passes.inTurn (.cons (passes_windowClauses h) (.cons (passes_searchClause h) .nil)) k hk r hr
  exact hwindows.andThen fun r hr => .found hr

end PrivateSql.Sql.Grammar
