import PrivateSql.Proofs.InsertedPaths
/-!
# What a path finds

A path finds the object that stands under it.  Where none does, the path is taken for the end of a
longer one, and finds the object of the only stored path that ends with it.  The entries alone decide
on this, so insertions under different paths may be made in any order, and an insertion under a path
that does not end with the one looked up is not noticed.

* `PathMap.Answers` — what a path finds, said of the stored paths;
* `PathMap.find_eq_iff` — a look-up gives this answer and no other;
* `PathMap.Insertion` — an object put in place of another, or only where there is none;
* `PathMap.stored_performAll` — what stands under a path is decided by the insertions under it;
* `PathMap.performAll_congr` — insertions under different paths change places;
* `PathMap.IsNormal.performAll`, `PathMap.IsNormal.find_of_mem` — paths are kept in lower case, so that
  they are found in any case;
* `PathMap.found_by_suffix` — the whole of it, for every map and every path.
-/

namespace PrivateSql.PathMap

variable {α : Type}

/-! ## What is stored -/

/-- The paths of the entries. -/
def paths (m : PathMap α) : List Path := m.entries.map (·.1)

theorem mem_paths {m : PathMap α} {p : Path} : p ∈ m.paths ↔ ∃ a, (p, a) ∈ m.entries := by
  simp [paths]

theorem stored_eq_none_iff {m : PathMap α} {p : Path} : m.stored p = none ↔ p ∉ m.paths := by
  rw [Option.eq_none_iff_forall_ne_some, mem_paths, not_exists]
  exact forall_congr' fun a => not_congr stored_eq_some_iff

/-- The order of the paths leaves one way to keep the same entries. -/
theorem ext_mem {m m' : PathMap α} (h : ∀ e, e ∈ m.entries ↔ e ∈ m'.entries) : m = m' := by
  have hnodup : ∀ m : PathMap α, m.entries.Nodup := by
    intro m
    refine m.sorted.imp ?_
    intro e e' hlt heq
    exact List.lt_irrefl _ (heq ▸ hlt)
  have hperm : m.entries.Perm m'.entries :=
    (List.perm_ext_iff_of_nodup (hnodup m) (hnodup m')).mpr h
  apply ext_entries
  refine hperm.eq_of_pairwise ?_ m.sorted m'.sorted
  intro e e' _ _ hlt hgt
  exact absurd (List.lt_trans hlt hgt) (List.lt_irrefl _)

/-- A map is what it stores under each path. -/
theorem ext_stored {m m' : PathMap α} (h : ∀ p, m.stored p = m'.stored p) : m = m' := by
  apply ext_mem
  intro e
  rw [← @stored_eq_some_iff α m e.1 e.2, h, stored_eq_some_iff]

/-! ## The answer to a look-up -/

/-- What a path finds: the object under it; else nothing, or the object of the only path that ends
with it, or more than one. -/
def Answers (m : PathMap α) (p : Path) : Found α → Prop
  | .none => ∀ q ∈ m.paths, ¬ p <:+ q
  | .one a =>
      (p, a) ∈ m.entries ∨
        p ∉ m.paths ∧ ∃ q, (q, a) ∈ m.entries ∧ p <:+ q ∧ ∀ q' ∈ m.paths, p <:+ q' → q' = q
  | .many => p ∉ m.paths ∧ ∃ q ∈ m.paths, ∃ q' ∈ m.paths, q ≠ q' ∧ p <:+ q ∧ p <:+ q'

theorem mem_endingWith {m : PathMap α} {p : Path} {e : Path × α} :
    e ∈ m.endingWith p ↔ e ∈ m.entries ∧ p <:+ e.1 := by
  rw [endingWith, List.mem_filter, List.isSuffixOf_iff_suffix]

/-- Once there is more than one, there stays more than one. -/
theorem foldl_also_many (l : List (Path × α)) : l.foldl Found.also .many = .many := by
  induction l with
  | nil => rfl
  | cons e l ih => exact ih

/-- A path that is not stored finds more than one entry when it is the end of two. -/
theorem findEntry_eq_many {m : PathMap α} {parts : List String} {e e' : Path × α}
    (hnew : Path.normalize parts ∉ m.paths) (he : e ∈ m.endingWith (Path.normalize parts))
    (he' : e' ∈ m.endingWith (Path.normalize parts)) (hne : e ≠ e') :
    m.findEntry parts = .many := by
  have hexact : m.entries.find? (fun e => e.1 == Path.normalize parts) = none :=
    Option.map_eq_none_iff.mp (stored_eq_none_iff.mpr hnew)
  have hcounted : m.findEntry parts =
      (m.endingWith (Path.normalize parts)).foldl Found.also .none := by
    rw [endingWith, List.foldl_filter]
    simp only [findEntry, hexact]
  rw [hcounted]
  cases hlist : m.endingWith (Path.normalize parts) with
  | nil =>
      rw [hlist] at he
      cases he
  | cons x rest =>
      cases rest with
      | nil =>
          rw [hlist, List.mem_singleton] at he he'
          exact absurd (he.trans he'.symm) hne
      | cons y rest => exact foldl_also_many rest

/-- A look-up gives the answer. -/
theorem find_of_answers {m : PathMap α} {parts : List String} {f : Found α}
    (h : m.Answers (Path.normalize parts) f) : m.find parts = f := by
  cases f with
  | none =>
      have hnil : m.endingWith (Path.normalize parts) = [] := by
        rw [List.eq_nil_iff_forall_not_mem]
        intro e he
        obtain ⟨hmem, hend⟩ := mem_endingWith.mp he
        exact h e.1 (mem_paths.mpr ⟨e.2, hmem⟩) hend
      rw [find, findEntry_of_endingWith_nil hnil]
      rfl
  | one a =>
      rcases h with hexact | ⟨-, q, hmem, hend, honly⟩
      · exact find_of_get? (stored_eq_some_iff.mpr hexact)
      · have hsingle : m.endingWith (Path.normalize parts) = [(q, a)] := by
          apply endingWith_eq_singleton hmem (List.isSuffixOf_iff_suffix.mpr hend)
          intro e he hsuffix
          exact honly e.1 (mem_paths.mpr ⟨e.2, he⟩) (List.isSuffixOf_iff_suffix.mp hsuffix)
        rw [find, findEntry_of_endingWith hsingle]
        rfl
  | many =>
      obtain ⟨hnew, q, hq, q', hq', hne, hend, hend'⟩ := h
      obtain ⟨a, hmem⟩ := mem_paths.mp hq
      obtain ⟨a', hmem'⟩ := mem_paths.mp hq'
      have hentries : (q, a) ≠ (q', a') := by
        intro heq
        exact hne (congrArg Prod.fst heq)
      rw [find, findEntry_eq_many hnew (mem_endingWith.mpr ⟨hmem, hend⟩)
        (mem_endingWith.mpr ⟨hmem', hend'⟩) hentries]
      rfl

/-- Every path has an answer. -/
theorem exists_answers (m : PathMap α) (p : Path) : ∃ f, m.Answers p f := by
  by_cases hstored : p ∈ m.paths
  · obtain ⟨a, ha⟩ := mem_paths.mp hstored
    exact ⟨.one a, .inl ha⟩
  · by_cases hend : ∃ q ∈ m.paths, p <:+ q
    · obtain ⟨q, hq, hsuffix⟩ := hend
      by_cases honly : ∀ q' ∈ m.paths, p <:+ q' → q' = q
      · obtain ⟨a, ha⟩ := mem_paths.mp hq
        exact ⟨.one a, .inr ⟨hstored, q, ha, hsuffix, honly⟩⟩
      · push Not at honly
        obtain ⟨q', hq', hsuffix', hne⟩ := honly
        exact ⟨.many, hstored, q, hq, q', hq', hne.symm, hsuffix, hsuffix'⟩
    · push Not at hend
      exact ⟨.none, hend⟩

/-- **The answer.**  A look-up gives what the stored paths say, whatever the case of its path. -/
theorem find_eq_iff {m : PathMap α} {parts : List String} {f : Found α} :
    m.find parts = f ↔ m.Answers (Path.normalize parts) f := by
  constructor
  · intro h
    obtain ⟨f', hanswer⟩ := m.exists_answers (Path.normalize parts)
    have hsame : f' = f := (find_of_answers hanswer).symm.trans h
    rw [← hsame]
    exact hanswer
  · exact find_of_answers

/-! ## Insertions -/

/-- An object put under a path given in any case, in place of the one that stands there or only where
there is none. -/
structure Insertion (α : Type) where
  parts : List String
  object : α
  replaces : Bool
  deriving DecidableEq

namespace Insertion

/-- The path as it is kept. -/
def path (i : Insertion α) : Path := Path.normalize i.parts

/-- What stands under the path of an insertion after it, from what stood there before. -/
def after (i : Insertion α) (before : Option α) : Option α :=
  if i.replaces then some i.object else before.or (some i.object)

end Insertion

/-- Carry out an insertion. -/
def perform (m : PathMap α) (i : Insertion α) : PathMap α :=
  if i.replaces then m.insert i.parts i.object else (m.insertNew i.parts i.object).2

/-- Carry out insertions one after the other. -/
def performAll (m : PathMap α) (l : List (Insertion α)) : PathMap α := l.foldl perform m

theorem stored_insertNew (m : PathMap α) (parts : List String) (a : α) (q : Path) :
    (m.insertNew parts a).2.stored q =
      if Path.normalize parts = q then (m.stored q).or (some a) else m.stored q := by
  rw [insertNew]
  split
  · rename_i hcontains
    obtain ⟨b, hb⟩ := Option.isSome_iff_exists.mp hcontains
    rw [get?_eq_stored] at hb
    split
    · rename_i hq
      rw [← hq, hb]
      rfl
    · rfl
  · rename_i hfree
    have hnone : m.stored (Path.normalize parts) = none := by
      rw [← get?_eq_stored]
      simpa [contains] using hfree
    rw [stored_insert]
    split
    · rename_i hq
      rw [← hq, hnone]
      rfl
    · rfl

/-- **One insertion.**  It decides on what stands under its path, and on nothing else. -/
theorem stored_perform (m : PathMap α) (i : Insertion α) (q : Path) :
    (m.perform i).stored q = if i.path = q then i.after (m.stored q) else m.stored q := by
  rw [perform, Insertion.after]
  split
  · exact stored_insert m i.parts i.object q
  · exact stored_insertNew m i.parts i.object q

/-- **Insertions.**  What stands under a path comes from the insertions under it, in their order. -/
theorem stored_performAll (m : PathMap α) (l : List (Insertion α)) (q : Path) :
    (m.performAll l).stored q =
      (l.filter fun i => i.path = q).foldl (fun before i => i.after before) (m.stored q) := by
  induction l generalizing m with
  | nil => rfl
  | cons i l ih =>
      have hstep : m.performAll (i :: l) = (m.perform i).performAll l := rfl
      rw [hstep, ih, stored_perform]
      by_cases hq : i.path = q
      · simp [hq]
      · simp [hq]

/-- **Any order.**  Two lists of insertions that do the same, in the same order, under each single path
give the same map. -/
theorem performAll_congr {m : PathMap α} {l l' : List (Insertion α)}
    (h : ∀ q, (l.filter fun i => i.path = q) = l'.filter fun i => i.path = q) :
    m.performAll l = m.performAll l' := by
  apply ext_stored
  intro q
  rw [stored_performAll, stored_performAll, h q]

/-- Insertions under different paths may be made in any order. -/
theorem performAll_perm {m : PathMap α} {l l' : List (Insertion α)} (hperm : l.Perm l')
    (hapart : (l.map Insertion.path).Nodup) : m.performAll l = m.performAll l' := by
  refine hperm.foldl_eq' ?_ m
  intro i hi j hj m
  by_cases hpath : i.path = j.path
  · rw [List.inj_on_of_nodup_map hapart hi hj hpath]
  · apply ext_stored
    intro q
    simp only [stored_perform]
    by_cases hq : i.path = q
    · have hother : j.path ≠ q := by
        intro hj
        exact hpath (hq.trans hj.symm)
      simp [hq, hother]
    · simp [hq]

/-- Entries put one after the other are insertions that replace each other. -/
theorem insertAll_eq_performAll (m : PathMap α) (l : List (List String × α)) :
    m.insertAll l = m.performAll (l.map fun e => ⟨e.1, e.2, true⟩) := by
  rw [insertAll, performAll, List.foldl_map]
  rfl

/-- A map of entries under different paths does not depend on their order. -/
theorem ofList_perm {l l' : List (List String × α)} (hperm : l.Perm l')
    (hapart : (l.map fun e => Path.normalize e.1).Nodup) : ofList l = ofList l' := by
  rw [ofList, ofList, insertAll_eq_performAll, insertAll_eq_performAll]
  apply performAll_perm (hperm.map _)
  rw [List.map_map]
  exact hapart

/-- An insertion leaves the map as it is, or puts its entry there. -/
theorem perform_cases (m : PathMap α) (i : Insertion α) :
    m.perform i = m ∨ m.perform i = m.insert i.parts i.object := by
  rw [perform, insertNew]
  split
  · exact .inr rfl
  · split
    · exact .inl rfl
    · exact .inr rfl

/-- Insertions keep the paths in lower case. -/
theorem IsNormal.performAll {m : PathMap α} (h : m.IsNormal) (l : List (Insertion α)) :
    (m.performAll l).IsNormal := by
  induction l generalizing m with
  | nil => exact h
  | cons i l ih =>
      apply ih
      rcases m.perform_cases i with hsame | hput
      · rw [hsame]
        exact h
      · rw [hput]
        intro e he
        rcases mem_insertEntry he with rfl | hold
        · exact Path.normalize_normalize i.parts
        · exact h e hold

/-- In a map in lower case the path of an object finds it in any case. -/
theorem IsNormal.find_of_mem {m : PathMap α} (h : m.IsNormal) {p : Path} {a : α}
    {parts : List String} (hmem : (p, a) ∈ m.entries)
    (hcase : Path.normalize parts = Path.normalize p) : m.find parts = .one a := by
  apply find_eq_iff.mpr
  left
  rw [hcase, h (p, a) hmem]
  exact hmem

/-- An insertion is not noticed by a path that its own does not end with. -/
theorem find_perform_of_apart {m : PathMap α} {i : Insertion α} {parts : List String}
    (h : ¬ Path.normalize parts <:+ i.path) : (m.perform i).find parts = m.find parts := by
  rcases m.perform_cases i with hsame | hput
  · rw [hsame]
  · have hsingle : m.insert i.parts i.object = m.insertAll [(i.parts, i.object)] := rfl
    rw [hput, hsingle]
    apply find_insertAll_of_apart
    intro e he
    obtain rfl := List.mem_singleton.mp he
    rw [Bool.eq_false_iff]
    intro hsuffix
    exact h (List.isSuffixOf_iff_suffix.mp hsuffix)

/-! ## The whole of it -/

/-- **Look-up by suffix.**  In every map a path, in any case, finds one object exactly when the object
stands under it, or nothing does and the object is that of the only stored path that ends with it; it
finds none exactly when no stored path ends with it, and more than one when it is not stored and two
paths end with it.  Maps with the same entries give the same answer, and so do insertions that agree
under each single path, in whatever order they come between the paths; an insertion under a path that
does not end with the one looked up changes no answer. -/
theorem found_by_suffix (m : PathMap α) (parts : List String) :
    (∀ a, m.find parts = .one a ↔
      (Path.normalize parts, a) ∈ m.entries ∨
        Path.normalize parts ∉ m.paths ∧
          ∃ q, (q, a) ∈ m.entries ∧ Path.normalize parts <:+ q ∧
            ∀ q' ∈ m.paths, Path.normalize parts <:+ q' → q' = q) ∧
      (m.find parts = .none ↔ ∀ q ∈ m.paths, ¬ Path.normalize parts <:+ q) ∧
      (m.find parts = .many ↔
        Path.normalize parts ∉ m.paths ∧
          ∃ q ∈ m.paths, ∃ q' ∈ m.paths,
            q ≠ q' ∧ Path.normalize parts <:+ q ∧ Path.normalize parts <:+ q') ∧
      (∀ m' : PathMap α, (∀ e, e ∈ m'.entries ↔ e ∈ m.entries) →
        m'.find parts = m.find parts) ∧
      (∀ l l' : List (Insertion α),
        (∀ q, (l.filter fun i => i.path = q) = l'.filter fun i => i.path = q) →
          (m.performAll l).find parts = (m.performAll l').find parts) ∧
      ∀ i : Insertion α, ¬ Path.normalize parts <:+ i.path →
        (m.perform i).find parts = m.find parts := by
  refine ⟨?_, find_eq_iff, find_eq_iff, ?_, ?_, ?_⟩
  · intro a
    exact find_eq_iff
  · intro m' hcontent
    rw [ext_mem hcontent]
  · intro l l' hsame
    rw [performAll_congr hsame]
  · intro i hapart
    exact find_perform_of_apart hapart

/-- Some paths that end alike. -/
def letters : PathMap Nat :=
  ofList [(["a", "b", "c"], 1), (["a", "b", "d"], 2), (["a", "c"], 3), (["a", "e"], 4),
    (["a", "e", "f"], 5), (["b", "c"], 6)]

/-- A stored path, an end of one, an end of three, insertions of two paths in either order, and an
insertion under a path that does not end like the one looked up. -/
theorem found_by_suffix_letters :
    letters.find ["A", "C"] = .one 3 ∧ letters.find ["d"] = .one 2 ∧ letters.find ["c"] = .many ∧
      letters.find ["x"] = .none ∧
      (letters.performAll [⟨["g"], 7, true⟩, ⟨["a", "D"], 8, false⟩, ⟨["G"], 9, true⟩]).find ["d"] =
        (letters.performAll [⟨["a", "D"], 8, false⟩, ⟨["g"], 7, true⟩, ⟨["G"], 9, true⟩]).find
          ["d"] ∧
      (letters.perform ⟨["d", "x"], 7, true⟩).find ["d"] = letters.find ["d"] := by
  refine ⟨?_, ?_, ?_, ?_, ?_, ?_⟩
  · exact ((found_by_suffix letters ["A", "C"]).1 3).mpr (.inl (by decide))
  · refine ((found_by_suffix letters ["d"]).1 2).mpr (.inr ⟨by decide, ["a", "b", "d"], ?_⟩)
    decide
  · refine (found_by_suffix letters ["c"]).2.2.1.mpr ⟨by decide, ["a", "c"], by decide, ?_⟩
    exact ⟨["b", "c"], by decide⟩
  · exact (found_by_suffix letters ["x"]).2.1.mpr (by decide)
  · refine (found_by_suffix letters ["d"]).2.2.2.2.1 _ _ ?_
    intro q
    by_cases hq : ["a", "d"] = q
    · subst hq
      decide
    · have hpath : (Insertion.mk ["a", "D"] 8 false).path = ["a", "d"] := by decide
      simp [List.filter_cons, hpath, hq]
  · exact (found_by_suffix letters ["d"]).2.2.2.2.2 _ (by decide)

end PrivateSql.PathMap
