import Mathlib.Data.List.Forall2
import Mathlib.Data.List.Sort
import PrivateSql.Path.Map
import PrivateSql.Proofs.CaseFolding
/-!
# Looking up paths

Columns are looked up twice: once among the columns that a query may read, and once for every row
among its values.  The two maps hold different things under the same paths, so they are compared by a
relation on what they hold: maps built by related steps stay related, and related maps find related
things, or fail alike.

* `PathMap.Related` — maps with the same paths and related objects;
* `PathMap.Related.insertAll`, `PathMap.related_ofList` — building keeps maps related;
* `PathMap.Related.findEntry_one` — what is found in one map is found in the other;
* `PathMap.ofList_below` — the entries of a map, put below a common path.
-/

namespace PrivateSql

namespace PathMap

variable {α β : Type}

/-! ## Maps with the same paths -/

/-- Two maps have the same paths, and related objects under each of them. -/
def Related (R : α → β → Prop) (m : PathMap α) (m' : PathMap β) : Prop :=
  List.Forall₂ (fun e e' => e.1 = e'.1 ∧ R e.2 e'.2) m.entries m'.entries

variable {R : α → β → Prop}

/-- Related objects are related in any looser way. -/
theorem Related.mono {S : α → β → Prop} {m : PathMap α} {m' : PathMap β} (h : Related R m m')
    (himp : ∀ a b, R a b → S a b) : Related S m m' :=
  List.Forall₂.imp (fun _ _ hboth => ⟨hboth.1, himp _ _ hboth.2⟩) h

theorem related_empty : Related R (empty : PathMap α) (empty : PathMap β) := .nil

/-- An entry is put at the same place of two related lists. -/
theorem related_insertEntry {p : Path} {a : α} {b : β} {l : List (Path × α)}
    {l' : List (Path × β)} (hab : R a b)
    (h : List.Forall₂ (fun e e' => e.1 = e'.1 ∧ R e.2 e'.2) l l') :
    List.Forall₂ (fun e e' => e.1 = e'.1 ∧ R e.2 e'.2) (insertEntry p a l)
      (insertEntry p b l') := by
  induction h with
  | nil => exact .cons ⟨rfl, hab⟩ .nil
  | @cons e e' l l' hhead htail ih =>
      simp only [insertEntry, ← hhead.1]
      split
      · exact .cons ⟨rfl, hab⟩ (.cons hhead htail)
      · split
        · exact .cons ⟨rfl, hab⟩ htail
        · exact .cons hhead ih

/-- Related objects put under one path keep two maps related. -/
theorem Related.insert {m : PathMap α} {m' : PathMap β} (h : Related R m m') (parts : List String)
    {a : α} {b : β} (hab : R a b) : Related R (m.insert parts a) (m'.insert parts b) :=
  related_insertEntry hab h

/-- Related objects put under the same paths, one after the other. -/
theorem Related.insertAll {m : PathMap α} {m' : PathMap β} {l : List (List String × α)}
    {l' : List (List String × β)} (h : Related R m m')
    (hl : List.Forall₂ (fun e e' => e.1 = e'.1 ∧ R e.2 e'.2) l l') :
    Related R (m.insertAll l) (m'.insertAll l') := by
  induction hl generalizing m m' with
  | nil => exact h
  | @cons e e' l l' hhead htail ih =>
      have hinserted : Related R (m.insert e.1 e.2) (m'.insert e'.1 e'.2) := by
        rw [← hhead.1]
        exact h.insert e.1 hhead.2
      exact ih hinserted

/-- Maps of related objects under the same paths are related. -/
theorem related_ofList {l : List (List String × α)} {l' : List (List String × β)}
    (hl : List.Forall₂ (fun e e' => e.1 = e'.1 ∧ R e.2 e'.2) l l') :
    Related R (ofList l) (ofList l') :=
  related_empty.insertAll hl

/-! ## Finding -/

/-- Two related lists have their first entry under a path at the same place. -/
theorem related_find? {l : List (Path × α)} {l' : List (Path × β)} (p : Path)
    (h : List.Forall₂ (fun e e' => e.1 = e'.1 ∧ R e.2 e'.2) l l') :
    Option.Rel (fun e e' => e.1 = e'.1 ∧ R e.2 e'.2) (l.find? fun e => e.1 == p)
      (l'.find? fun e => e.1 == p) := by
  induction h with
  | nil => exact .none
  | @cons e e' l l' hhead htail ih =>
      rw [List.find?_cons, List.find?_cons, hhead.1]
      split
      · exact .some hhead
      · exact ih

/-- What two searches find: nothing, related things, or more than one. -/
inductive FoundRelated (S : α → β → Prop) : Found α → Found β → Prop
  | none : FoundRelated S .none .none
  | one {a : α} {b : β} (h : S a b) : FoundRelated S (.one a) (.one b)
  | many : FoundRelated S .many .many

theorem related_foldl_also {S : Path × α → Path × β → Prop} {l : List (Path × α)}
    {l' : List (Path × β)} {f : Found (Path × α)} {f' : Found (Path × β)} (p : Path)
    (hS : ∀ e e', S e e' → e.1 = e'.1) (h : List.Forall₂ S l l') (hf : FoundRelated S f f') :
    FoundRelated S (l.foldl (fun f e => if p.isSuffixOf e.1 then f.also e else f) f)
      (l'.foldl (fun f e => if p.isSuffixOf e.1 then f.also e else f) f') := by
  induction h generalizing f f' with
  | nil => exact hf
  | @cons e e' l l' hhead htail ih =>
      refine ih ?_
      simp only [hS e e' hhead]
      split
      · cases hf with
        | none => exact .one hhead
        | one => exact .many
        | many => exact .many
      · exact hf

/-- **Related maps find alike.**  A path finds nothing in both maps, or related objects under the
same path, or more than one in both. -/
theorem Related.findEntry {m : PathMap α} {m' : PathMap β} (h : Related R m m')
    (parts : List String) :
    FoundRelated (fun e e' => e.1 = e'.1 ∧ R e.2 e'.2) (m.findEntry parts)
      (m'.findEntry parts) := by
  have hexact := related_find? (Path.normalize parts) h
  simp only [PathMap.findEntry]
  cases hm : m.entries.find? fun e => e.1 == Path.normalize parts with
  | some e =>
      cases hm' : m'.entries.find? fun e => e.1 == Path.normalize parts with
      | some e' =>
          rw [hm, hm'] at hexact
          cases hexact with
          | some hee' => exact .one hee'
      | none =>
          rw [hm, hm'] at hexact
          cases hexact
  | none =>
      cases hm' : m'.entries.find? fun e => e.1 == Path.normalize parts with
      | some e' =>
          rw [hm, hm'] at hexact
          cases hexact
      | none => exact related_foldl_also _ (fun _ _ hee' => hee'.1) h .none

/-- The entry found in one of two related maps has its like in the other. -/
theorem Related.findEntry_one {m : PathMap α} {m' : PathMap β} (h : Related R m m')
    {parts : List String} {p : Path} {a : α} (hfound : m.findEntry parts = .one (p, a)) :
    ∃ b, m'.findEntry parts = .one (p, b) ∧ R a b := by
  have hboth := h.findEntry parts
  rw [hfound] at hboth
  cases hfound' : m'.findEntry parts with
  | none =>
      rw [hfound'] at hboth
      cases hboth
  | one e' =>
      rw [hfound'] at hboth
      cases hboth with
      | one hee' =>
          obtain ⟨p', b⟩ := e'
          obtain ⟨rfl, hab⟩ := hee'
          exact ⟨b, rfl, hab⟩
  | many =>
      rw [hfound'] at hboth
      cases hboth

/-- The object found in one of two related maps has its like in the other. -/
theorem Related.find_one {m : PathMap α} {m' : PathMap β} (h : Related R m m')
    {parts : List String} {a : α} (hfound : m.find parts = .one a) :
    ∃ b, m'.find parts = .one b ∧ R a b := by
  rw [find] at hfound
  cases hentry : m.findEntry parts with
  | none => simp [hentry, Found.map] at hfound
  | one e =>
      obtain ⟨p, a'⟩ := e
      rw [hentry] at hfound
      cases hfound
      obtain ⟨b, hb, hab⟩ := h.findEntry_one hentry
      exact ⟨b, by rw [find, hb]; rfl, hab⟩
  | many => simp [hentry, Found.map] at hfound

/-- What is found is one of the entries. -/
theorem mem_of_findEntry {m : PathMap α} {parts : List String} {e : Path × α}
    (h : m.findEntry parts = .one e) : e ∈ m.entries := by
  have hfold : ∀ (l : List (Path × α)) (f : Found (Path × α)) (p : Path),
      l.foldl (fun f e => if p.isSuffixOf e.1 then f.also e else f) f = .one e →
        f = .one e ∨ e ∈ l := by
    intro l
    induction l with
    | nil => exact fun f p h => .inl h
    | cons e' l ih =>
        intro f p h
        rcases ih _ p h with hstep | htail
        · dsimp only at hstep
          split at hstep
          · cases f with
            | none =>
                cases hstep
                exact .inr List.mem_cons_self
            | one e => cases hstep
            | many => cases hstep
          · exact .inl hstep
        · exact .inr (List.mem_cons_of_mem _ htail)
  simp only [PathMap.findEntry] at h
  split at h
  · rename_i e' hexact
    cases h
    exact List.mem_of_find?_eq_some hexact
  · rcases hfold m.entries .none _ h with hnone | hmem
    · cases hnone
    · exact hmem

/-- There is one entry under a path. -/
theorem eq_of_mem {m : PathMap α} {p : Path} {a a' : α} (h : (p, a) ∈ m.entries)
    (h' : (p, a') ∈ m.entries) : a = a' := by
  have hapart : m.entries.Pairwise fun x y => x.1 = y.1 → x.2 = y.2 :=
    m.sorted.imp fun hlt heq => absurd (heq ▸ hlt) (List.lt_irrefl _)
  have hflip : m.entries.Pairwise (flip fun x y => x.1 = y.1 → x.2 = y.2) :=
    hapart.imp fun h heq => (h heq.symm).symm
  have hall := List.Pairwise.forall_of_forall_of_flip (fun _ _ _ => rfl) hapart hflip
  exact hall h h' rfl

/-! ## Maps below a path -/

/-- The objects of a map are those that were put. -/
theorem mem_of_mem_insertAll {m : PathMap α} {l : List (List String × α)} {e : Path × α}
    (h : e ∈ (m.insertAll l).entries) :
    e ∈ m.entries ∨ ∃ x ∈ l, e = (Path.normalize x.1, x.2) := by
  induction l generalizing m with
  | nil => exact .inl h
  | cons x l ih =>
      rcases ih h with hbefore | ⟨x', hx', he⟩
      · rcases mem_insertEntry hbefore with he | hm
        · exact .inr ⟨x, List.mem_cons_self, he⟩
        · exact .inl hm
      · exact .inr ⟨x', List.mem_cons_of_mem _ hx', he⟩

/-- The objects of the map of a list are those of the list. -/
theorem mem_of_mem_ofList {l : List (List String × α)} {e : Path × α}
    (h : e ∈ (ofList l).entries) : ∃ x ∈ l, e = (Path.normalize x.1, x.2) :=
  (mem_of_mem_insertAll h).resolve_left (by simp [empty])

/-- The paths of a map are in lower case. -/
def IsNormal (m : PathMap α) : Prop := ∀ e ∈ m.entries, Path.normalize e.1 = e.1

theorem isNormal_ofList (l : List (List String × α)) : (ofList l).IsNormal := by
  intro e he
  obtain ⟨x, -, rfl⟩ := mem_of_mem_ofList he
  exact Path.normalize_normalize x.1

/-- A path above all the others goes to the end. -/
theorem insertEntry_of_forall_lt {p : Path} {a : α} {l : List (Path × α)}
    (h : ∀ e ∈ l, e.1 < p) : insertEntry p a l = l ++ [(p, a)] := by
  induction l with
  | nil => rfl
  | cons e l ih =>
      have hlt : e.1 < p := h e List.mem_cons_self
      have hnot : ¬ p < e.1 := fun hgt => List.lt_irrefl _ (List.lt_trans hlt hgt)
      have hne : p ≠ e.1 := fun heq => List.lt_irrefl p (heq ▸ hlt)
      rw [insertEntry, if_neg hnot, if_neg hne, ih fun e' he' => h e' (List.mem_cons_of_mem _ he')]
      rfl

/-- Entries in order, in lower case, are put one after the other at the end. -/
theorem entries_insertAll_of_sorted {m : PathMap α} {l : List (Path × α)}
    (hsorted : (m.entries ++ l).Pairwise fun a b => a.1 < b.1)
    (hnormal : ∀ e ∈ l, Path.normalize e.1 = e.1) : (m.insertAll l).entries = m.entries ++ l := by
  induction l generalizing m with
  | nil => simp [insertAll]
  | cons e l ih =>
      have hbelow : ∀ e' ∈ m.entries, e'.1 < e.1 := fun e' he' =>
        (List.pairwise_append.mp hsorted).2.2 e' he' e List.mem_cons_self
      have hentries : (m.insert e.1 e.2).entries = m.entries ++ [e] := by
        simp only [insert, hnormal e List.mem_cons_self]
        exact insertEntry_of_forall_lt hbelow
      have hnext := @ih (m.insert e.1 e.2) (by rw [hentries]; simpa using hsorted)
        fun e' he' => hnormal e' (List.mem_cons_of_mem _ he')
      rw [hentries, List.append_assoc] at hnext
      exact hnext

/-- An entry is put at the same place when all the paths are put below a common one. -/
theorem insertEntry_below (p : Path) (k : Path) (a : α) (l : List (Path × α)) :
    insertEntry (p ++ k) a (l.map fun e => (p ++ e.1, e.2)) =
      (insertEntry k a l).map fun e => (p ++ e.1, e.2) := by
  have hlt : ∀ k k' : Path, p ++ k < p ++ k' ↔ k < k' := by
    intro k k'
    constructor
    · intro hlt
      by_contra hnot
      by_cases heq : k = k'
      · exact List.lt_irrefl _ (heq ▸ hlt)
      · have hgt : p ++ k' < p ++ k := List.append_left_lt (path_lt_of_not hnot heq)
        exact List.lt_irrefl _ (List.lt_trans hlt hgt)
    · exact List.append_left_lt
  induction l with
  | nil => rfl
  | cons e l ih =>
      simp only [List.map_cons, insertEntry, hlt, List.append_cancel_left_eq]
      split
      · rfl
      · split
        · rfl
        · rw [ih]
          rfl

/-- Putting entries, all below a common path. -/
theorem entries_insertAll_below {p : List String} {m m' : PathMap α}
    (l : List (List String × α))
    (h : m'.entries = m.entries.map fun e => (Path.normalize p ++ e.1, e.2)) :
    (m'.insertAll (l.map fun e => (p ++ e.1, e.2))).entries =
      (m.insertAll l).entries.map fun e => (Path.normalize p ++ e.1, e.2) := by
  induction l generalizing m m' with
  | nil => exact h
  | cons x l ih =>
      have hinserted : (m'.insert (p ++ x.1) x.2).entries =
          (m.insert x.1 x.2).entries.map fun e => (Path.normalize p ++ e.1, e.2) := by
        simp only [insert, h, Path.normalize_append, insertEntry_below]
      exact ih hinserted

/-- Two maps are the same when their entries are. -/
theorem ext_entries {m m' : PathMap α} (h : m.entries = m'.entries) : m = m' := by
  cases m
  cases m'
  cases h
  rfl

/-- A map in lower case is the map of its entries. -/
theorem ofList_entries {m : PathMap α} (h : m.IsNormal) : ofList m.entries = m :=
  ext_entries (@entries_insertAll_of_sorted α empty m.entries m.sorted h)

/-- **Maps below a path.**  Putting the entries of a map below a path, in lower case or not, is
putting below it what the map was made of. -/
theorem ofList_below (p : List String) (l : List (List String × α)) :
    ofList ((ofList l).entries.map fun e => (Path.normalize p ++ e.1, e.2)) =
      ofList (l.map fun e => (p ++ e.1, e.2)) := by
  have hbelow : (ofList (l.map fun e => (p ++ e.1, e.2))).entries =
      (ofList l).entries.map fun e => (Path.normalize p ++ e.1, e.2) :=
    entries_insertAll_below l rfl
  rw [← hbelow, ofList_entries (isNormal_ofList _)]

end PathMap

end PrivateSql
