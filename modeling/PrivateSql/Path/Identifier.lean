import PrivateSql.Path.Basic
import PrivateSql.Query.Error
/-!
# Identifiers

The name of a column or a table as a query writes it: parts with dots between them. The last part is
the bare name, the part before it says which relation is meant.

* `Identifier.parts`, `Identifier.name` — the parts and the last of them;
* `Identifier.splitAlias` — the qualifier and the name, an error with more than one qualifier.
-/

namespace PrivateSql

/-- The name of a column or a table, as it is written. -/
structure Identifier where
  text : String
  deriving DecidableEq, Repr, Inhabited

namespace Identifier

/-- The pieces of a text between its dots; there is always one. -/
def splitDots : List Char → List Char × List (List Char)
  | [] => ([], [])
  | c :: cs =>
    let (first, others) := splitDots cs
    if c = '.' then ([], first :: others) else (c :: first, others)

/-- The parts between the dots. -/
def parts (i : Identifier) : List String :=
  let (first, others) := splitDots i.text.toList
  String.ofList first :: others.map String.ofList

/-- The last part, the bare name. -/
def name (i : Identifier) : String := i.parts.getLastD ""

/-- The qualifier, if there is one, and the name. -/
def splitAlias (i : Identifier) : Except QueryError (Option String × String) :=
  match i.parts with
  | [name] => .ok (none, name)
  | [qualifier, name] => .ok (some qualifier, name)
  | _ => .error (.malformedIdentifier i.text)

/-- The path an identifier addresses. -/
def path (i : Identifier) : Path := Path.normalize i.parts

theorem parts_ne_nil (i : Identifier) : i.parts ≠ [] := by simp [parts]

/-- An identifier of at most two parts is a name with perhaps a qualifier before it. -/
theorem exists_parts_eq {id : Identifier} (h : id.parts.length ≤ 2) :
    id.parts = [id.name] ∨ ∃ q, id.parts = [q, id.name] := by
  rw [name]
  match hparts : id.parts with
  | [] => exact absurd hparts id.parts_ne_nil
  | [n] => exact .inl rfl
  | [q, n] => exact .inr ⟨q, rfl⟩
  | _ :: _ :: _ :: _ =>
      rw [hparts] at h
      simp at h

/-- An identifier of more than two parts is malformed. -/
theorem splitAlias_of_lt {id : Identifier} (h : 2 < id.parts.length) :
    id.splitAlias = .error (.malformedIdentifier id.text) := by
  rw [splitAlias]
  split
  · rename_i hparts
    simp [hparts] at h
  · rename_i hparts
    simp [hparts] at h
  · rfl

/-- The pieces between the dots of a text and the dots give the text. -/
theorem append_splitDots (cs : List Char) :
    (splitDots cs).1 ++ (splitDots cs).2.flatMap ('.' :: ·) = cs := by
  induction cs with
  | nil => rfl
  | cons c cs ih =>
    rw [splitDots]
    by_cases hc : c = '.'
    · simp [hc, ih]
    · simp [hc, ih]

/-- There is more than one piece exactly when there is a dot. -/
theorem splitDots_snd_eq_nil_iff {cs : List Char} : (splitDots cs).2 = [] ↔ '.' ∉ cs := by
  induction cs with
  | nil => simp [splitDots]
  | cons c cs ih =>
    by_cases hc : c = '.'
    · simp [splitDots, hc]
    · rw [List.mem_cons, not_or, ← ih, splitDots]
      simp [hc, Ne.symm hc]

/-- An identifier without a dot is its own only part. -/
theorem parts_of_undotted {i : Identifier} (h : '.' ∉ i.text.toList) : i.parts = [i.text] := by
  have hothers := splitDots_snd_eq_nil_iff.mpr h
  have hfirst := append_splitDots i.text.toList
  rw [hothers, List.flatMap_nil, List.append_nil] at hfirst
  simp [parts, hothers, hfirst]

/-- An identifier of one part is its own part. -/
theorem parts_eq_singleton {i : Identifier} {s : String} (h : i.parts = [s]) : i.parts = [i.text] := by
  refine parts_of_undotted (splitDots_snd_eq_nil_iff.mp ?_)
  simpa [parts] using (List.cons.inj h).2

/-- The characters of the pieces are those of the text. -/
theorem mem_of_mem_splitDots {cs piece : List Char} {c : Char}
    (h : piece ∈ (splitDots cs).1 :: (splitDots cs).2) (hc : c ∈ piece) : c ∈ cs := by
  have hpieces : c ∈ (splitDots cs).1 ++ (splitDots cs).2.flatMap ('.' :: ·) := by
    rcases List.mem_cons.mp h with rfl | hother
    · exact List.mem_append_left _ hc
    · exact List.mem_append_right _ (List.mem_flatMap.mpr ⟨piece, hother, List.mem_cons_of_mem _ hc⟩)
  rwa [append_splitDots] at hpieces

/-- The characters of the parts are those of the text. -/
theorem mem_of_mem_parts {i : Identifier} {p : String} {c : Char} (h : p ∈ i.parts)
    (hc : c ∈ p.toList) : c ∈ i.text.toList := by
  have hparts : i.parts =
      ((splitDots i.text.toList).1 :: (splitDots i.text.toList).2).map String.ofList := rfl
  rw [hparts] at h
  obtain ⟨piece, hpiece, rfl⟩ := List.mem_map.mp h
  rw [String.toList_ofList] at hc
  exact mem_of_mem_splitDots hpiece hc

end Identifier

end PrivateSql
