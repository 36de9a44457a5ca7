import PrivateSql.Proofs.UnreadTerms
/-!
# Tables before an idle sign

What rows are read from.  A parenthesis begins a query in place of a table if one can be read there.  An idle sign
does not change whether it can, so tables between parentheses of their own are told from queries alike.

* `joins_agree`, `turnedTable_agree` — tables that others are joined to, and tables that are turned;
* `tableFactor_agree`, `blind_tableSource` — tables, with any fuel that the tokens do not use up.
-/

namespace PrivateSql.Sql.Grammar

variable {tail : IdleTail} {K k : Nat}

/-! ## Names and joins -/

theorem blind_tableAlias : Blind tail K tableAlias tableAlias := by
  intro k hk ts hts
  refine (blind_aliasWord _ k hk ts hts).next fun label r hr => ?_
  dsimp only
  cases label with
  | none => exact .found hr
  | some w =>
      exact (Passes.whenEnclosed (.cons blind_word.passed.listOf .nil) k hk r hr).andThen
        fun _ hr => .found hr

/-- The words before a joined table, without an idle tail and with it. -/
def SameJoin (tail : IdleTail) (k : Nat) (x y : Option (Bool × List Token)) : Prop :=
  y = x.map (fun (conditional, r) => (conditional, r ++ tail.tokens)) ∧
    ∀ conditional r, x = some (conditional, r) → Within k r

theorem Agree.joined {conditional : Bool} {r : List Token} (hr : Within k r) :
    Agree (SameJoin tail k) (.ok (some (conditional, r))) (.ok (some (conditional, r ++ tail.tokens))) := by
  refine .read ⟨rfl, ?_⟩
  rintro _ _ ⟨⟩
  exact hr

/-- Keywords that may begin a join. -/
def joinMarks : List String := ["JOIN", "INNER", "LEFT", "RIGHT", "FULL", "CROSS", "OUTER"]

theorem joinWords_none {ts : List Token} (hmark : mark ts ∉ joinMarks) : joinWords ts = .ok none := by
  unfold joinWords
  split
  all_goals first
    | rfl
    | (rename_i heq
       exact absurd (heq ▸ hmark) (by decide))

theorem joinWords_agree {ts : List Token} (hts : Within (k + 1) ts) :
    Agree (SameJoin tail k) (joinWords ts) (joinWords (ts ++ tail.tokens)) := by
  by_cases hmark : mark ts ∈ joinMarks
  · have hne := ne_nil_of_mark_mem (by decide) hmark
    have hrest := hts.drop_one hne
    have hjoin (r : List Token) (hr : Within k r) : Agree (SameJoin tail k)
        (joinWords.conditional (need "JOIN" r)) (joinWords.conditional (need "JOIN" (r ++ tail.tokens))) :=
      (Passes.need (by decide) k (Nat.le_refl k) r hr).andThen fun _ hr => .joined hr
    have hskipped (ms : List String) (hms : areRead ms = true) : Agree (SameJoin tail k)
        (joinWords.conditional (need "JOIN" (skipOneOf ms (ts.drop 1))))
        (joinWords.conditional (need "JOIN" (skipOneOf ms (ts.drop 1 ++ tail.tokens)))) := by
      rw [skipOneOf_append tail hms]
      exact hjoin _ (hrest.skipOneOf ms)
    unfold joinWords
    rw [mark_append_of_ne_nil hne, drop_append_of_ne_nil hne]
    simp only [joinMarks, List.mem_cons, List.not_mem_nil, or_false] at hmark
    rcases hmark with heq | heq | heq | heq | heq | heq | heq <;> rw [heq]
    · exact .joined hrest
    · exact hjoin _ hrest
    · exact hskipped ["OUTER", "SEMI", "ANTI"] (by decide)
    · exact hskipped ["OUTER", "SEMI", "ANTI"] (by decide)
    · exact hskipped ["OUTER"] (by decide)
    · exact (Passes.needOneOf (by decide) k (Nat.le_refl k) _ hrest).andThen fun _ hr => .joined hr
    · exact (Passes.need (by decide) k (Nat.le_refl k) _ hrest).andThen fun _ hr => .joined hr
  · rw [joinWords_none hmark, joinWords_none (mt (mark_append_mem_iff tail (by decide)).mp hmark)]
    exact .read ⟨rfl, fun _ _ h => by cases h⟩

theorem naturalWords_agree {ts : List Token} (hts : Within (k + 1) ts) :
    Agree (SameJoin tail k) (naturalWords ts) (naturalWords (ts ++ tail.tokens)) := by
  unfold naturalWords
  have hmem : mark (ts ++ tail.tokens) ∈ ["JOIN", "INNER", "LEFT", "RIGHT", "FULL"] ↔
      mark ts ∈ ["JOIN", "INNER", "LEFT", "RIGHT", "FULL"] := mark_append_mem_iff tail (by decide)
  simp only [hmem]
  split
  · refine (joinWords_agree hts).bind ?_
    rintro found _ ⟨rfl, hwithin⟩
    cases found with
    | none => exact .read ⟨rfl, fun _ _ h => by cases h⟩
    | some found => exact .joined (hwithin _ _ rfl)
  · exact .failed

/-- Keywords after which a table is turned. -/
def turningMarks : List String := ["PIVOT", "UNPIVOT", "MATCH_RECOGNIZE"]

section Tables

variable {inner : Nested} (h : inner.IsBlind tail)

include h

theorem blind_derivedTable : Blind tail K (derivedTable inner) (derivedTable inner) := by
  intro k hk ts hts
  refine ((h.query K).closing k hk ts hts).next fun _ r hr => ?_
  exact (blind_tableAlias k hk r hr).next fun _ _ hr => .found hr

theorem passes_rowList : Passes tail K (rowList inner) (rowList inner) :=
  Passes.listOf (.inTurn (.cons (.allow (by decide)) (.cons (.enclosed (.cons h.terms .nil)) .nil)))

theorem passes_joinCondition : Passes tail K (joinCondition inner) (joinCondition inner) :=
  .ofSkip? (by decide) h.passed (.whenFirst (by decide) passes_wordList)

/-- The table that these words join, its condition and the joins after it. -/
def joinedTables (inner : Nested) (factor : Piece TableFactor) (n : Nat) (ts : List Token) :
    Option (Bool × List Token) → Reading (Parsed Bool)
  | none => .ok (false, ts)
  | some (conditional, ts) => do
    let (_, ts) ← factor ts
    let ts ← if conditional then joinCondition inner ts else .ok ts
    let (_, ts) ← joins inner factor n ts
    return (true, ts)

omit h in
theorem joins_succ (factor : Piece TableFactor) (n : Nat) (ts : List Token) :
    joins inner factor (n + 1) ts =
      (if mark ts = "NATURAL" then naturalWords (ts.drop 1) else joinWords ts) >>=
        joinedTables inner factor n ts := by
  rw [joins]
  split <;> rfl

omit h in
theorem joins_none {factor : Piece TableFactor} {n : Nat} {ts : List Token}
    (hmark : mark ts ∉ "NATURAL" :: joinMarks) : joins inner factor n ts = .ok (false, ts) := by
  obtain ⟨hnatural, hjoin⟩ := not_or.mp (mt List.mem_cons.mpr hmark)
  cases n with
  | zero => rfl
  | succ n =>
      rw [joins_succ, if_neg hnatural, joinWords_none hjoin]
      rfl

/-- Joins are read one after the other with any fuel that the tokens do not use up. -/
theorem joins_agree {factor factor' : Piece TableFactor} (hfactor : Blind tail K factor factor')
    {n n' k : Nat} (hk : k ≤ K) (hn : k ≤ n) (hn' : k ≤ n') {ts : List Token} (hts : Within k ts) :
    Agree (SameRead tail k) (joins inner factor n ts) (joins inner factor' n' (ts ++ tail.tokens)) := by
  induction k using Nat.strongRecOn generalizing n n' ts with
  | ind k ih =>
      by_cases hmark : mark ts ∈ "NATURAL" :: joinMarks
      · have hne := ne_nil_of_mark_mem (by decide) hmark
        obtain ⟨t, us, rfl⟩ := List.exists_cons_of_ne_nil hne
        obtain ⟨j, rfl, hus⟩ := hts.exists_succ
        obtain ⟨n, rfl⟩ := Nat.exists_eq_add_one_of_ne_zero (Nat.ne_zero_of_lt hn)
        obtain ⟨n', rfl⟩ := Nat.exists_eq_add_one_of_ne_zero (Nat.ne_zero_of_lt hn')
        have hwords : Agree (SameJoin tail j)
            (if mark (t :: us) = "NATURAL" then naturalWords us else joinWords (t :: us))
            (if mark (t :: us ++ tail.tokens) = "NATURAL" then naturalWords (us ++ tail.tokens)
              else joinWords (t :: us ++ tail.tokens)) :=
          .ofMark (by decide) (fun _ => naturalWords_agree (hus.mono (Nat.le_succ j))) (joinWords_agree hts)
        rw [joins_succ, joins_succ]
        refine hwords.bind ?_
        rintro found _ ⟨rfl, hwithin⟩
        cases found with
        | none => exact .found hts
        | some found =>
            obtain ⟨conditional, r⟩ := found
            have hjk := Nat.le_of_succ_le hk
            refine Agree.weaken ?_ (Nat.le_succ j)
            refine (hfactor j hjk r (hwithin _ _ rfl)).next fun _ r hr => ?_
            have hrest (r : List Token) (hr : Within j r) : Agree (SameRead tail j)
                (joins inner factor n r >>= fun (_, ts) => pure (true, ts))
                (joins inner factor' n' (r ++ tail.tokens) >>= fun (_, ts) => pure (true, ts)) :=
              (ih j (Nat.lt_succ_self j) hjk (Nat.le_of_succ_le_succ hn) (Nat.le_of_succ_le_succ hn')
                hr).next fun _ _ hr => .found hr
            cases conditional with
            | true => exact (passes_joinCondition h j hjk r hr).andThen hrest
            | false => exact hrest r hr
      · rw [joins_none hmark, joins_none (mt (mark_append_mem_iff tail (by decide)).mp hmark)]
        exact .found hts

theorem blind_tableSource {factor factor' : Piece TableFactor} (hfactor : Blind tail K factor factor') :
    Blind tail K (tableSource inner factor) (tableSource inner factor') := by
  refine .ofLength fun ts hk hts => ?_
  refine (hfactor _ hk ts hts).next fun f r hr => ?_
  refine ((joins_agree h hfactor (Nat.le_trans hr.bound hk) (Nat.le_refl _) (tail.length_le _) hr.self).weaken
    hr.bound).next fun isJoined r' hr' => ?_
  dsimp only
  rw [sourceBetween_append]
  exact .found hr'

omit h in
theorem nameOutside_agree (f : TableFactor) (label : Option Word) (ts us : List Token) :
    Agree Eq (TableFactor.nameOutside f label ts) (TableFactor.nameOutside f label us) := by
  unfold TableFactor.nameOutside
  split
  · exact .read rfl
  · exact .read rfl
  · exact .read rfl
  · exact .read rfl
  · exact .read rfl
  · exact .failed

/-! ## Tables that are called or turned -/

theorem passes_tableArguments : Passes tail K (tableArguments inner) (tableArguments inner) :=
  .ofSkip? (by decide) .done (.inTurn (.cons (Blind.argument (h.term K) h.fails_nil).passed.listOf
    (.cons (.need (by decide)) .nil)))

theorem passes_turnedCall : Passes tail K (turnedCall inner) (turnedCall inner) := by
  intro k hk ts hts
  cases ts with
  | nil => exact .failed
  | cons t ts =>
      cases t with
      | word w =>
          have hcall : Passes tail K
              (inTurn [passed (call inner.term [w]), whenFirst [["AS"]] (passed word)])
              (inTurn [passed (call inner.term [w]), whenFirst [["AS"]] (passed word)]) :=
            .inTurn (.cons ((h.term K).call h.fails_nil [w]).passed
              (.cons (.whenFirst (by decide) blind_word.passed) .nil))
          exact (Passes.need (by decide) k hk ts hts.tail).andThen fun r hr => hcall k hk r hr
      | number => exact .failed
      | string => exact .failed
      | otherLiteral => exact .failed
      | symbol => exact .failed

theorem passes_pivot : Passes tail K (pivot inner) (pivot inner) :=
  .enclosed (.cons (passes_turnedCall h).listOf (.cons (.need (by decide))
    (.cons blind_dottedName.passed (.cons (.need (by decide)) (.cons (.enclosed
      (.cons (Passes.listOf (.inTurn (.cons h.passed
        (.cons (.whenFirst (by decide) blind_word.passed) .nil)))) .nil)) .nil)))))

omit h in
theorem passes_unpivot : Passes tail K unpivot unpivot :=
  .enclosed (.cons blind_word.passed (.cons (.need (by decide)) (.cons blind_word.passed
    (.cons (.need (by decide)) (.cons passes_wordList .nil)))))

omit h in
theorem turning?_none {ts : List Token} (hmark : mark ts ∉ turningMarks) : turning? inner ts = none := by
  unfold turning?
  split
  all_goals first
    | rfl
    | (rename_i heq
       exact absurd (heq ▸ hmark) (by decide))

theorem turning?_some {ts : List Token} (hmark : mark ts ∈ turningMarks) (hts : Within (k + 1) ts) :
    ∃ x y, turning? inner ts = some x ∧ turning? inner (ts ++ tail.tokens) = some y ∧
      Agree (LeftOver tail k) x y := by
  have hne := ne_nil_of_mark_mem (by decide) hmark
  have hrest := hts.drop_one hne
  unfold turning?
  rw [mark_append_of_ne_nil hne, drop_append_of_ne_nil hne]
  simp only [turningMarks, List.mem_cons, List.not_mem_nil, or_false] at hmark
  rcases hmark with heq | heq | heq <;> rw [heq]
  · exact ⟨_, _, rfl, rfl, passes_pivot h k (Nat.le_refl k) _ hrest⟩
  · exact ⟨_, _, rfl, rfl, passes_unpivot k (Nat.le_refl k) _ hrest⟩
  · exact ⟨_, _, rfl, rfl, .failed⟩

omit h in
theorem turnedTable_none {n : Nat} {f : TableFactor} {ts : List Token} (hnone : turning? inner ts = none) :
    turnedTable inner n f ts = .ok (f, ts) := by
  cases n with
  | zero => rfl
  | succ n =>
      rw [turnedTable, hnone]

/-- A table is turned as often with any fuel that the tokens do not use up. -/
theorem turnedTable_agree {n n' : Nat} (hn : k ≤ n) (hn' : k ≤ n') (f : TableFactor) {ts : List Token}
    (hts : Within k ts) :
    Agree (SameRead tail k) (turnedTable inner n f ts) (turnedTable inner n' f (ts ++ tail.tokens)) := by
  induction k using Nat.strongRecOn generalizing n n' f ts with
  | ind k ih =>
      by_cases hmark : mark ts ∈ turningMarks
      · obtain ⟨t, us, rfl⟩ := List.exists_cons_of_ne_nil (ne_nil_of_mark_mem (by decide) hmark)
        obtain ⟨j, rfl, -⟩ := hts.exists_succ
        obtain ⟨n, rfl⟩ := Nat.exists_eq_add_one_of_ne_zero (Nat.ne_zero_of_lt hn)
        obtain ⟨n', rfl⟩ := Nat.exists_eq_add_one_of_ne_zero (Nat.ne_zero_of_lt hn')
        obtain ⟨x, y, hx, hy, hxy⟩ := turning?_some h hmark hts
        rw [turnedTable, turnedTable, hx, hy]
        refine Agree.weaken ?_ (Nat.le_succ j)
        refine hxy.andThen fun r hr => ?_
        refine (blind_tableAlias j (Nat.le_refl j) r hr).next fun label r hr => ?_
        exact ih j (Nat.lt_succ_self j) (Nat.le_of_succ_le_succ hn) (Nat.le_of_succ_le_succ hn') _ hr
      · have hmark' := mt (mark_append_mem_iff tail (by decide)).mp hmark
        rw [turnedTable_none (turning?_none hmark), turnedTable_none (turning?_none hmark')]
        exact .found hts

theorem passes_tableHints : Passes tail K (tableHints inner) (tableHints inner) :=
  .ofSkip? (by decide) (.inTurn (.cons h.terms (.cons (.need (by decide)) .nil))) .done

theorem blind_namedTable : Blind tail K (namedTable inner) (namedTable inner) := by
  intro k hk ts hts
  refine (blind_dottedName k hk ts hts).next fun name r hr => ?_
  refine (passes_wordList.whenFirst (by decide) k hk r hr).andThen fun r hr => ?_
  dsimp only
  have hopen : mark (r ++ tail.tokens) = "(" ↔ mark r = "(" := mark_append_eq_iff tail (by decide)
  simp only [hopen]
  refine ((passes_tableArguments h).whenFirst (by decide) k hk r hr).andThen fun r hr => ?_
  refine (blind_tableAlias k hk r hr).next fun label r hr => ?_
  refine (passes_tableHints h k hk r hr).andThen fun r hr => ?_
  exact (turnedTable_agree h (Nat.le_refl _) (tail.length_le _) _ hr.self).weaken hr.bound

omit h in
theorem Agree.computedTable {x y : Reading (List Token)} (hxy : Agree (LeftOver tail k) x y) :
    Agree (SameRead tail k) (computedTable x) (computedTable y) := by
  refine hxy.andThen fun r hr => ?_
  exact (blind_tableAlias k (Nat.le_refl k) r hr).next fun _ _ hr => .found hr

theorem blind_unnestedTable : Blind tail K (unnestedTable inner) (unnestedTable inner) := by
  intro k hk ts hts
  refine (Passes.enclosed (.cons h.terms .nil) k hk ts hts).computedTable.next fun f r hr => ?_
  refine .ofSkip? hr (by decide) (fun r hr => ?_) fun _ => ?_
  · exact (blind_aliasWord _ k hk r hr).next fun _ _ hr => .found hr
  · rw [skipOneOf_append tail (by decide)]
    exact .found (hr.skipOneOf _)

/-- Keywords that begin something in place of a table. -/
def tableMarks : List String := ["LATERAL", "TABLE", "VALUES", "UNNEST", "JSON_TABLE"]

omit h in
theorem wordTable_of_ne {ts : List Token} (hmark : mark ts ∉ tableMarks) :
    wordTable inner ts = namedTable inner ts := by
  unfold wordTable
  split
  all_goals first
    | rfl
    | (rename_i heq _
       exact absurd (heq ▸ hmark) (by decide))
    | (rename_i heq
       exact absurd (heq ▸ hmark) (by decide))

omit h in
theorem wordTable_lateral {ts : List Token} (hmark : mark ts = "LATERAL")
    (hopen : ∀ rest, ts.drop 1 ≠ .symbol "(" :: rest) :
    wordTable inner ts =
      computedTable (inTurn [passed dottedName, need "(", tableArguments inner] (ts.drop 1)) := by
  unfold wordTable
  split
  all_goals first
    | rfl
    | exact absurd ‹ts.drop 1 = _› (hopen _)
    | (rename_i heq
       exact absurd (hmark.symm.trans heq) (by decide))
    | (rename_i hlateral _ _ _ _ _
       exact absurd hmark hlateral)

omit h in
theorem wordTable_document {ts : List Token} (hmark : mark ts = "JSON_TABLE")
    (hopen : ∀ rest, ts.drop 1 ≠ .symbol "(" :: rest) : wordTable inner ts = namedTable inner ts := by
  unfold wordTable
  split
  all_goals first
    | rfl
    | exact absurd ‹ts.drop 1 = _› (hopen _)
    | (rename_i heq _
       exact absurd (hmark.symm.trans heq) (by decide))
    | (rename_i heq
       exact absurd (hmark.symm.trans heq) (by decide))

theorem blind_wordTable : Blind tail K (wordTable inner) (wordTable inner) := by
  intro k hk ts hts
  by_cases hmark : mark ts ∈ tableMarks
  · have hne := ne_nil_of_mark_mem (by decide) hmark
    have hrest := hts.drop 1
    have hmark' := mark_append_of_ne_nil hne tail.tokens
    have hdrop' := drop_append_of_ne_nil hne tail.tokens
    have hclosed (hopen : ∀ rest, ts.drop 1 ≠ .symbol "(" :: rest) :
        ∀ rest, (ts ++ tail.tokens).drop 1 ≠ .symbol "(" :: rest := by
      rw [hdrop']
      exact tail.append_ne_cons (by decide) hopen
    simp only [tableMarks, List.mem_cons, List.not_mem_nil, or_false] at hmark
    rcases hmark with heq | heq | heq | heq | heq
    · by_cases hopen : ∃ rest, ts.drop 1 = .symbol "(" :: rest
      · obtain ⟨rest, hopen⟩ := hopen
        unfold wordTable
        rw [hmark', hdrop', heq, hopen]
        exact blind_derivedTable h k hk _ (hopen ▸ hrest).tail
      · have hopen : ∀ rest, ts.drop 1 ≠ .symbol "(" :: rest := fun rest heq => hopen ⟨rest, heq⟩
        have hcalled : Passes tail K (inTurn [passed dottedName, need "(", tableArguments inner])
            (inTurn [passed dottedName, need "(", tableArguments inner]) :=
          .inTurn (.cons blind_dottedName.passed (.cons (.need (by decide))
            (.cons (passes_tableArguments h) .nil)))
        rw [wordTable_lateral heq hopen, wordTable_lateral (hmark'.trans heq) (hclosed hopen), hdrop']
        exact (hcalled k hk _ hrest).computedTable
    · unfold wordTable
      rw [hmark', hdrop', heq]
      exact (Passes.enclosed (.cons h.passed .nil) k hk _ hrest).computedTable
    · unfold wordTable
      rw [hmark', hdrop', heq]
      refine (passes_rowList h k hk _ hrest).andThen fun r hr => ?_
      exact (blind_tableAlias k hk r hr).next fun _ _ hr => .found hr
    · unfold wordTable
      rw [hmark', hdrop', heq]
      exact blind_unnestedTable h k hk _ hrest
    · by_cases hopen : ∃ rest, ts.drop 1 = .symbol "(" :: rest
      · obtain ⟨rest, hopen⟩ := hopen
        unfold wordTable
        rw [hmark', hdrop', heq, hopen]
        exact .failed
      · have hopen : ∀ rest, ts.drop 1 ≠ .symbol "(" :: rest := fun rest heq => hopen ⟨rest, heq⟩
        rw [wordTable_document heq hopen, wordTable_document (hmark'.trans heq) (hclosed hopen)]
        exact blind_namedTable h k hk ts hts
  · rw [wordTable_of_ne hmark, wordTable_of_ne (mt (mark_append_mem_iff tail (by decide)).mp hmark)]
    exact blind_namedTable h k hk ts hts

/-- Tables between parentheses of their own, the first of which was read. -/
def parenthesizedTables (inner : Nested) (factor : Piece TableFactor) : Piece TableFactor := fun ts => do
  let (table, rest) ← tableSource inner factor ts
  let rest ← need ")" rest
  let (label, after) ← tableAlias rest
  if table.isJoined then return (.joined, after)
  else
    let f ← TableFactor.nameOutside table.factor label rest
    return (f, after)

omit h in
theorem tableFactor_open (n : Nat) (ts : List Token) :
    tableFactor inner (n + 1) (.symbol "(" :: ts) =
      match derivedTable inner ts with
      | .ok found => .ok found
      | .error _ => parenthesizedTables inner (tableFactor inner n) ts := rfl

omit h in
theorem tableFactor_of_ne {n : Nat} {ts : List Token} (hopen : ∀ rest, ts ≠ .symbol "(" :: rest) :
    tableFactor inner (n + 1) ts = wordTable inner ts := by
  unfold tableFactor
  split
  · exact absurd rfl (hopen _)
  · rfl

theorem blind_parenthesizedTables {factor factor' : Piece TableFactor} (hfactor : Blind tail K factor factor') :
    Blind tail K (parenthesizedTables inner factor) (parenthesizedTables inner factor') := by
  intro k hk ts hts
  refine (blind_tableSource h hfactor k hk ts hts).next fun table r hr => ?_
  refine (Passes.need (by decide) k hk r hr).andThen fun r hr => ?_
  refine (blind_tableAlias k hk r hr).next fun label r' hr' => ?_
  dsimp only
  split
  · exact .found hr'
  · refine (nameOutside_agree table.factor label r (r ++ tail.tokens)).bind ?_
    rintro f _ rfl
    exact .found hr'

/-- Tables are read alike with any fuel that the tokens do not use up. -/
theorem tableFactor_agree {n n' : Nat} (hn : k < n) (hn' : k < n') {ts : List Token} (hts : Within k ts) :
    Agree (SameRead tail k) (tableFactor inner n ts) (tableFactor inner n' (ts ++ tail.tokens)) := by
  induction n generalizing n' k ts with
  | zero => exact absurd hn (Nat.not_lt_zero k)
  | succ n ih =>
      obtain ⟨n', rfl⟩ := Nat.exists_eq_add_one_of_ne_zero (Nat.ne_zero_of_lt hn')
      by_cases hopen : ∃ rest, ts = .symbol "(" :: rest
      · obtain ⟨rest, rfl⟩ := hopen
        obtain ⟨j, rfl, hrest⟩ := hts.exists_succ
        have hfactor : Blind tail j (tableFactor inner n) (tableFactor inner n') :=
          fun i hi us hus => ih (by omega) (by omega) hus
        have hderived := blind_derivedTable h j (Nat.le_refl j) rest hrest
        rw [List.cons_append, tableFactor_open, tableFactor_open]
        generalize derivedTable inner rest = x at hderived ⊢
        generalize derivedTable inner (rest ++ tail.tokens) = y at hderived ⊢
        refine Agree.weaken ?_ (Nat.le_succ j)
        cases hderived with
        | read related => exact .read related
        | failed => exact blind_parenthesizedTables h hfactor j (Nat.le_refl j) rest hrest
      · have hopen : ∀ rest, ts ≠ .symbol "(" :: rest := fun rest heq => hopen ⟨rest, heq⟩
        rw [tableFactor_of_ne hopen, tableFactor_of_ne (tail.append_ne_cons (by decide) hopen)]
        exact blind_wordTable h k (Nat.le_refl k) ts hts

end Tables

end PrivateSql.Sql.Grammar
