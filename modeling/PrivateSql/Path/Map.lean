import PrivateSql.Path.Basic
/-!
# Maps from paths

A map whose keys are paths, kept in the order of the paths. A path that is not a key still finds an
entry when it is the end of exactly one key, so `age` finds `pums.pums.age`.

* `PathMap.insert`, `PathMap.ofList` — entries put later replace those under the same path;
* `PathMap.get?` — the entry under exactly this path;
* `PathMap.findEntry`, `PathMap.find` — that entry, else the only one whose path ends like this;
* `PathMap.startingWith` — the entries under a common beginning.
-/

namespace PrivateSql

/-- Entries in strictly increasing order of their paths. -/
structure PathMap (α : Type) where
  entries : List (Path × α)
  sorted : entries.Pairwise fun a b => a.1 < b.1

namespace PathMap

variable {α β : Type}

/-- Put an entry at its place, in place of the one under the same path. -/
def insertEntry (p : Path) (a : α) : List (Path × α) → List (Path × α)
  | [] => [(p, a)]
  | e :: rest =>
    if p < e.1 then (p, a) :: e :: rest
    else if p = e.1 then (p, a) :: rest
    else e :: insertEntry p a rest

theorem mem_insertEntry {p : Path} {a : α} {l : List (Path × α)} {e : Path × α}
    (h : e ∈ insertEntry p a l) : e = (p, a) ∨ e ∈ l := by
  induction l with
  | nil => simpa [insertEntry] using h
  | cons x rest ih =>
    simp only [insertEntry] at h
    split at h
    · simpa using h
    · split at h
      · simp only [List.mem_cons] at h ⊢
        exact h.imp id Or.inr
      · simp only [List.mem_cons] at h ⊢
        rcases h with h | h
        · exact Or.inr (Or.inl h)
        · exact (ih h).imp id Or.inr

theorem path_lt_of_not {p q : Path} (h : ¬ p < q) (h' : p ≠ q) : q < p := by
  rcases List.le_total p q with hle | hle
  · exact absurd (List.le_antisymm hle h) h'
  · rcases Decidable.em (q < p) with hlt | hlt
    · exact hlt
    · exact absurd (List.le_antisymm hlt h) h'

theorem sorted_insertEntry {p : Path} {a : α} {l : List (Path × α)}
    (h : l.Pairwise fun a b => a.1 < b.1) :
    (insertEntry p a l).Pairwise fun a b => a.1 < b.1 := by
  induction l with
  | nil => simp [insertEntry]
  | cons x rest ih =>
    have hx := List.pairwise_cons.1 h
    simp only [insertEntry]
    split
    · rename_i hlt
      refine List.pairwise_cons.2 ⟨fun e he => ?_, h⟩
      rcases List.mem_cons.1 he with rfl | he
      · exact hlt
      · exact List.lt_trans hlt (hx.1 e he)
    · rename_i hlt
      split
      · rename_i heq
        exact List.pairwise_cons.2 ⟨fun e he => heq ▸ hx.1 e he, hx.2⟩
      · rename_i hne
        refine List.pairwise_cons.2 ⟨fun e he => ?_, ih hx.2⟩
        rcases mem_insertEntry he with rfl | he
        · exact path_lt_of_not hlt hne
        · exact hx.1 e he

/-- The map without entries. -/
def empty : PathMap α := ⟨[], .nil⟩

instance : Inhabited (PathMap α) := ⟨empty⟩

/-- Put an entry under a path given in any case. -/
def insert (m : PathMap α) (parts : List String) (a : α) : PathMap α :=
  ⟨insertEntry (Path.normalize parts) a m.entries, sorted_insertEntry m.sorted⟩

/-- Put entries one after the other. -/
def insertAll (m : PathMap α) (l : List (List String × α)) : PathMap α :=
  l.foldl (fun m e => m.insert e.1 e.2) m

/-- The map of some entries; of two under the same path the last one stays. -/
def ofList (l : List (List String × α)) : PathMap α := empty.insertAll l

/-- The number of entries. -/
def size (m : PathMap α) : Nat := m.entries.length

def isEmpty (m : PathMap α) : Bool := m.entries.isEmpty

/-- The objects, in the order of their paths. -/
def values (m : PathMap α) : List α := m.entries.map (·.2)

/-- The object under exactly this path. -/
def get? (m : PathMap α) (parts : List String) : Option α :=
  (m.entries.find? fun e => e.1 == Path.normalize parts).map (·.2)

/-- Is there an entry under exactly this path? -/
def contains (m : PathMap α) (parts : List String) : Bool := (m.get? parts).isSome

/-- The entry under this path, else the one under the only path ending with it. -/
def findEntry (m : PathMap α) (parts : List String) : Found (Path × α) :=
  let p := Path.normalize parts
  match m.entries.find? fun e => e.1 == p with
  | some e => .one e
  | none => m.entries.foldl (fun f e => if p.isSuffixOf e.1 then f.also e else f) .none

/-- The object of that entry. -/
def find (m : PathMap α) (parts : List String) : Found α := (m.findEntry parts).map (·.2)

/-- Put an entry unless there is one under this path; is it put? -/
def insertNew (m : PathMap α) (parts : List String) (a : α) : Bool × PathMap α :=
  if m.contains parts then (false, m) else (true, m.insert parts a)

/-- The entries whose path begins with this one. -/
def startingWith (m : PathMap α) (parts : List String) : PathMap α :=
  ⟨m.entries.filter fun e => (Path.normalize parts).isPrefixOf e.1, m.sorted.filter _⟩

/-- Apply a function to all the objects. -/
def map (f : α → β) (m : PathMap α) : PathMap β :=
  ⟨m.entries.map fun e => (e.1, f e.2), List.pairwise_map.2 m.sorted⟩

/-- The text of a map, one entry a line. -/
def display (show_ : α → String) (m : PathMap α) : String :=
  let lines := m.entries.map fun e => ".".intercalate e.1 ++ " -> " ++ show_ e.2
  "\x7b\n  " ++ ",\n  ".intercalate lines ++ ",\n\x7d"

end PathMap

end PrivateSql
