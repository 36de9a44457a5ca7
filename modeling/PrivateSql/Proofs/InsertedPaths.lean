import PrivateSql.Proofs.PathLookup
/-!
# Looking up among inserted entries

The outputs of a query are put, under their bare names, beside the columns that it reads.  A look-up
that is answered by an output finds it by its whole path; any other look-up does not notice the
outputs, since no longer path ends with a bare name that is not its last part.

* `PathMap.stored` — the object under a path as it is kept;
* `PathMap.get?_insertAll` — the entry under exactly a path is the last that was put there;
* `PathMap.findEntry_insertAll_of_apart` — entries that a path is no end of do not answer for it;
* `PathMap.findEntry_ne_many` — a path that is an end of one other path at most is not ambiguous;
* `PathMap.findEntry_ofList_below`, `PathMap.findEntry_ofList_beside` — names, bare or with others
  before them, among the entries below one path.
-/

namespace PrivateSql.PathMap

variable {α : Type}

/-! ## The entry under a path -/

theorem find?_insertEntry (p q : Path) (a : α) (l : List (Path × α)) :
    (insertEntry p a l).find? (fun e => e.1 == q) =
      if p = q then some (p, a) else l.find? fun e => e.1 == q := by
  induction l with
  | nil => by_cases h : p = q <;> simp [insertEntry, h]
  | cons e l ih =>
      unfold insertEntry
      split
      · by_cases h : p = q <;> simp [h]
      · split
        · rename_i hsame
          subst hsame
          by_cases h : e.1 = q <;> simp [h]
        · rename_i hother
          rw [List.find?_cons, List.find?_cons, ih]
          by_cases h : e.1 = q
          · have hne : p ≠ q := fun hpq => hother (hpq.trans h.symm)
            simp [h, hne]
          · have hbeq : (e.1 == q) = false := by simpa using h
            simp only [hbeq]

/-- The object under a path, the path being compared as it is. -/
def stored (m : PathMap α) (p : Path) : Option α :=
  (m.entries.find? fun e => e.1 == p).map (·.2)

theorem stored_eq_some_iff {m : PathMap α} {p : Path} {a : α} :
    m.stored p = some a ↔ (p, a) ∈ m.entries := by
  have hentry : ∀ e, m.entries.find? (fun e => e.1 == p) = some e → (p, e.2) ∈ m.entries := by
    intro e he
    have hpath : e.1 = p := by simpa using List.find?_some he
    rw [← hpath]
    exact List.mem_of_find?_eq_some he
  constructor
  · intro h
    obtain ⟨e, he, rfl⟩ := Option.map_eq_some_iff.mp h
    exact hentry e he
  · intro h
    have hsome : (m.entries.find? fun e => e.1 == p).isSome :=
      List.find?_isSome.mpr ⟨(p, a), h, by simp⟩
    obtain ⟨e, he⟩ := Option.isSome_iff_exists.mp hsome
    rw [stored, he, Option.map_some, eq_of_mem (hentry e he) h]

theorem get?_eq_stored (m : PathMap α) (parts : List String) :
    m.get? parts = m.stored (Path.normalize parts) := rfl

theorem stored_insert (m : PathMap α) (parts : List String) (a : α) (q : Path) :
    (m.insert parts a).stored q =
      if Path.normalize parts = q then some a else m.stored q := by
  rw [stored, insert, find?_insertEntry]
  split
  · rfl
  · rfl

theorem get?_insert (m : PathMap α) (path parts : List String) (a : α) :
    (m.insert path a).get? parts =
      if Path.normalize path = Path.normalize parts then some a else m.get? parts :=
  stored_insert m path a (Path.normalize parts)

/-- **Exact look-ups.**  What stands under a path is what was put there last. -/
theorem get?_insertAll (m : PathMap α) (l : List (List String × α)) (parts : List String) :
    (m.insertAll l).get? parts =
      ((l.reverse.find? fun e => Path.normalize e.1 == Path.normalize parts).map (·.2)).or
        (m.get? parts) := by
  induction l generalizing m with
  | nil => rfl
  | cons e l ih =>
      have hstep : m.insertAll (e :: l) = (m.insert e.1 e.2).insertAll l := rfl
      rw [hstep, ih, get?_insert, List.reverse_cons, List.find?_append]
      cases l.reverse.find? fun e => Path.normalize e.1 == Path.normalize parts with
      | some x => rfl
      | none => by_cases h : Path.normalize e.1 = Path.normalize parts <;> simp [h]

/-- What stands under exactly a path is found by it. -/
theorem findEntry_of_get? {m : PathMap α} {parts : List String} {a : α}
    (h : m.get? parts = some a) : m.findEntry parts = .one (Path.normalize parts, a) := by
  obtain ⟨e, he, rfl⟩ := Option.map_eq_some_iff.mp h
  have hpath : e.1 = Path.normalize parts := by simpa using List.find?_some he
  rw [findEntry, he, ← hpath]

theorem find_of_get? {m : PathMap α} {parts : List String} {a : α} (h : m.get? parts = some a) :
    m.find parts = .one a := by
  rw [find, findEntry_of_get? h]
  rfl

/-! ## Entries that do not answer -/

/-- The entries that a path is an end of. -/
def endingWith (m : PathMap α) (p : Path) : List (Path × α) :=
  m.entries.filter fun e => p.isSuffixOf e.1

/-- Only the entries that a path is an end of count when it is looked up. -/
theorem findEntry_congr {m m' : PathMap α} {parts : List String}
    (h : m.endingWith (Path.normalize parts) = m'.endingWith (Path.normalize parts)) :
    m.findEntry parts = m'.findEntry parts := by
  have hfind : ∀ l : List (Path × α), l.find? (fun e => e.1 == Path.normalize parts) =
      (l.filter fun e => (Path.normalize parts).isSuffixOf e.1).find?
        fun e => e.1 == Path.normalize parts := by
    intro l
    rw [List.find?_filter]
    congr 1
    funext e
    by_cases he : e.1 = Path.normalize parts
    · simp [he]
    · simp [he]
  have hfold : ∀ l : List (Path × α),
      l.foldl (fun f e => if (Path.normalize parts).isSuffixOf e.1 then f.also e else f) Found.none =
        (l.filter fun e => (Path.normalize parts).isSuffixOf e.1).foldl Found.also Found.none := by
    intro l
    rw [List.foldl_filter]
  rw [endingWith, endingWith] at h
  rw [findEntry, findEntry]
  simp only [hfind m.entries, hfind m'.entries, hfold, h]

/-- An entry whose path does not end like this leaves the others as they are. -/
theorem filter_insertEntry {P : Path → Bool} {p : Path} (h : P p = false) (a : α)
    (l : List (Path × α)) :
    (insertEntry p a l).filter (fun e => P e.1) = l.filter fun e => P e.1 := by
  induction l with
  | nil => simp [insertEntry, h]
  | cons e l ih =>
      unfold insertEntry
      split
      · rw [List.filter_cons_of_neg (by simp [h])]
      · split
        · rename_i hsame
          rw [List.filter_cons_of_neg (by simp [h]), List.filter_cons_of_neg (by simp [← hsame, h])]
        · rw [List.filter_cons, List.filter_cons, ih]

/-- **Look-ups that do not notice.**  Entries that a path is no end of do not answer for it. -/
theorem findEntry_insertAll_of_apart {m : PathMap α} {l : List (List String × α)}
    {parts : List String}
    (h : ∀ e ∈ l, (Path.normalize parts).isSuffixOf (Path.normalize e.1) = false) :
    (m.insertAll l).findEntry parts = m.findEntry parts := by
  induction l generalizing m with
  | nil => rfl
  | cons e l ih =>
      have hstep : m.insertAll (e :: l) = (m.insert e.1 e.2).insertAll l := rfl
      rw [hstep, ih fun e' he' => h e' (List.mem_cons_of_mem _ he')]
      have hsame : (m.insert e.1 e.2).endingWith (Path.normalize parts) =
          m.endingWith (Path.normalize parts) :=
        @filter_insertEntry α (Path.normalize parts).isSuffixOf _ (h e List.mem_cons_self) e.2 _
      exact findEntry_congr hsame

theorem find_insertAll_of_apart {m : PathMap α} {l : List (List String × α)} {parts : List String}
    (h : ∀ e ∈ l, (Path.normalize parts).isSuffixOf (Path.normalize e.1) = false) :
    (m.insertAll l).find parts = m.find parts := by
  rw [find, find, findEntry_insertAll_of_apart h]

/-! ## Entries below a common name -/

/-- A single entry answers for a path when all that the path is an end of stand under one path. -/
theorem endingWith_eq_singleton {m : PathMap α} {p q : Path} {a : α} (hmem : (q, a) ∈ m.entries)
    (hend : p.isSuffixOf q = true) (hall : ∀ e ∈ m.entries, p.isSuffixOf e.1 = true → e.1 = q) :
    m.endingWith p = [(q, a)] := by
  have hin : (q, a) ∈ m.endingWith p := List.mem_filter.mpr ⟨hmem, hend⟩
  have hpath : ∀ e ∈ m.endingWith p, e.1 = q := fun e he =>
    hall e (List.mem_filter.mp he).1 (List.mem_filter.mp he).2
  have hsorted : (m.endingWith p).Pairwise fun x y => x.1 < y.1 := m.sorted.filter _
  cases hlist : m.endingWith p with
  | nil =>
      rw [hlist] at hin
      cases hin
  | cons e rest =>
      cases rest with
      | nil =>
          rw [hlist] at hin
          rw [List.mem_singleton.mp hin]
      | cons e' rest =>
          rw [hlist] at hsorted hpath
          have hlt : e.1 < e'.1 := (List.pairwise_cons.mp hsorted).1 e' List.mem_cons_self
          rw [hpath e List.mem_cons_self, hpath e' (List.mem_cons_of_mem _ List.mem_cons_self)] at hlt
          exact absurd hlt (List.lt_irrefl q)

/-- A path finds the only entry that it is an end of. -/
theorem findEntry_of_endingWith {m : PathMap α} {parts : List String} {e : Path × α}
    (h : m.endingWith (Path.normalize parts) = [e]) : m.findEntry parts = .one e := by
  have hend : (Path.normalize parts).isSuffixOf e.1 = true := by
    have hmem : e ∈ m.endingWith (Path.normalize parts) := by rw [h]; exact List.mem_cons_self
    exact (List.mem_filter.mp hmem).2
  let alone : PathMap α := ⟨[e], List.pairwise_singleton _ _⟩
  have halone : m.findEntry parts = alone.findEntry parts := by
    refine findEntry_congr ?_
    rw [h]
    simp [endingWith, alone, hend]
  rw [halone, findEntry]
  by_cases hsame : e.1 = Path.normalize parts
  · simp [alone, hsame]
  · simp [alone, hsame, List.isSuffixOf_iff_suffix.mp hend, Found.also]

/-- A path that is an end of no other finds nothing. -/
theorem findEntry_of_endingWith_nil {m : PathMap α} {parts : List String}
    (h : m.endingWith (Path.normalize parts) = []) : m.findEntry parts = .none := by
  have hnone : m.findEntry parts = (empty : PathMap α).findEntry parts :=
    findEntry_congr (by rw [h]; rfl)
  rw [hnone]
  rfl

/-- A path is not ambiguous when all that it is an end of stand under one path. -/
theorem findEntry_ne_many {m : PathMap α} {parts : List String}
    (h : ∀ e ∈ m.endingWith (Path.normalize parts), ∀ e' ∈ m.endingWith (Path.normalize parts),
      e.1 = e'.1) : m.findEntry parts ≠ .many := by
  cases hlist : m.endingWith (Path.normalize parts) with
  | nil =>
      rw [findEntry_of_endingWith_nil hlist]
      simp
  | cons e rest =>
      have hmem : e ∈ m.endingWith (Path.normalize parts) := by rw [hlist]; exact List.mem_cons_self
      obtain ⟨hentry, hend⟩ := List.mem_filter.mp hmem
      have hsingle : m.endingWith (Path.normalize parts) = [e] :=
        endingWith_eq_singleton hentry hend fun e' he' hend' =>
          h e' (List.mem_filter.mpr ⟨he', hend'⟩) e hmem
      rw [findEntry_of_endingWith hsingle]
      simp

/-- A path ends with another when their last names agree, and so do the names before them. -/
theorem isSuffixOf_below_iff {path before : List String} {n c : String} :
    (Path.normalize (before ++ [n])).isSuffixOf (Path.normalize (path ++ [c])) = true ↔
      Text.toLower n = Text.toLower c ∧ Path.normalize before <:+ Path.normalize path := by
  rw [List.isSuffixOf_iff_suffix, Path.normalize_append, Path.normalize_append]
  constructor
  · rintro ⟨front, heq⟩
    rw [← List.append_assoc] at heq
    obtain ⟨hfront, hlast⟩ := List.append_inj' heq rfl
    exact ⟨List.singleton_inj.mp hlast, front, hfront⟩
  · rintro ⟨hlast, front, hfront⟩
    refine ⟨front, ?_⟩
    rw [← List.append_assoc, hfront]
    simp [Path.normalize, hlast]

/-- **Names below a path.**  Below one path, a name with an end of this path before it finds what was
put last under the name. -/
theorem findEntry_ofList_below {path before : List String} {n : String} {l : List (String × α)}
    {a : α}
    (h : (l.reverse.find? fun c => Text.toLower c.1 == Text.toLower n).map (·.2) = some a)
    (hbefore : Path.normalize before <:+ Path.normalize path) :
    (ofList (l.map fun c => (path ++ [c.1], c.2))).findEntry (before ++ [n]) =
      .one (Path.normalize (path ++ [n]), a) := by
  have hget : (ofList (l.map fun c => (path ++ [c.1], c.2))).get? (path ++ [n]) = some a := by
    rw [ofList, get?_insertAll, ← List.map_reverse, List.find?_map]
    have hsame : ((fun e : List String × α => Path.normalize e.1 == Path.normalize (path ++ [n])) ∘
        fun c : String × α => (path ++ [c.1], c.2)) =
          fun c => Text.toLower c.1 == Text.toLower n := by
      funext c
      simp [Path.normalize]
    rw [hsame, Option.map_map]
    have hvalue : ((fun e : List String × α => e.2) ∘ fun c : String × α => (path ++ [c.1], c.2)) =
        fun c => c.2 := rfl
    rw [hvalue, h]
    rfl
  have hmem : (Path.normalize (path ++ [n]), a) ∈
      (ofList (l.map fun c => (path ++ [c.1], c.2))).entries := stored_eq_some_iff.mp hget
  have hsingle : (ofList (l.map fun c => (path ++ [c.1], c.2))).endingWith
      (Path.normalize (before ++ [n])) = [(Path.normalize (path ++ [n]), a)] := by
    apply endingWith_eq_singleton hmem (isSuffixOf_below_iff.mpr ⟨rfl, hbefore⟩)
    intro e he hsuffix
    obtain ⟨x, hx, rfl⟩ := mem_of_mem_ofList he
    obtain ⟨c, -, rfl⟩ := List.mem_map.mp hx
    have hlast : Text.toLower n = Text.toLower c.1 := (isSuffixOf_below_iff.mp hsuffix).1
    simp [Path.normalize, hlast]
  exact findEntry_of_endingWith hsingle

/-- Below one path, a name with anything else before it finds nothing. -/
theorem findEntry_ofList_beside {path before : List String} {n : String} (l : List (String × α))
    (hbefore : ¬ Path.normalize before <:+ Path.normalize path) :
    (ofList (l.map fun c => (path ++ [c.1], c.2))).findEntry (before ++ [n]) = .none := by
  apply findEntry_of_endingWith_nil
  rw [endingWith, List.filter_eq_nil_iff]
  intro e he hsuffix
  obtain ⟨x, hx, rfl⟩ := mem_of_mem_ofList he
  obtain ⟨c, -, rfl⟩ := List.mem_map.mp hx
  exact hbefore (isSuffixOf_below_iff.mp hsuffix).2

/-- **Bare names.**  Below one common name, a bare name finds what was put last under it. -/
theorem findEntry_ofList_under {pre n : String} {l : List (String × α)} {a : α}
    (h : (l.reverse.find? fun c => Text.toLower c.1 == Text.toLower n).map (·.2) = some a) :
    (ofList (l.map fun c => ([pre] ++ [c.1], c.2))).findEntry [n] =
      .one (Path.normalize [pre, n], a) :=
  @findEntry_ofList_below α [pre] [] n l a h List.nil_suffix

end PrivateSql.PathMap
