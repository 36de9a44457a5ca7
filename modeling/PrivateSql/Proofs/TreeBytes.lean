import Mathlib.Data.List.Basic
import PrivateSql.Powers
import PrivateSql.Tree.Encoding
/-!
# What the bytes of a tree say

The bytes of a tree are read from the front without looking ahead: a number has a fixed width, a text ends
where the first byte 255 is, and a node says how many children come.  So what is written behind a tree
does not mix with it, and two trees have the same bytes only if they are the same tree.  For this the number
of children has to fit its eight bytes.

* `littleEndian_append_inj`, `textBytes_append_inj` — where a number and a text end;
* `Tree.fitsBytes` — the numbers of children fit their bytes;
* `Tree.bytes_append_inj` — where a tree ends;
* `Tree.same_iff_bytes` — equal trees are trees with the same bytes.
-/

namespace PrivateSql

/-! ## Numbers and texts -/

theorem length_littleEndian (k n : Nat) : (littleEndian k n).length = k := by
  induction k generalizing n with
  | zero => rfl
  | succ k ih => rw [littleEndian, List.length_cons, ih]

/-- A number that fits its bytes is told by them. -/
theorem littleEndian_inj {k m n : Nat} (hm : m < twoPow (8 * k)) (hn : n < twoPow (8 * k))
    (h : littleEndian k m = littleEndian k n) : m = n := by
  induction k generalizing m n with
  | zero =>
      rw [Nat.mul_zero, twoPow_zero] at hm hn
      omega
  | succ k ih =>
      rw [Nat.mul_succ, twoPow_add] at hm hn
      have hbyte : twoPow 8 = 256 := rfl
      rw [hbyte] at hm hn
      obtain ⟨hlow, hhigh⟩ := List.cons.inj h
      have hmod : m % 256 = n % 256 := by
        have hnat := congrArg UInt8.toNat hlow
        simpa using hnat
      have hdiv : m / 256 = n / 256 := ih (by omega) (by omega) hhigh
      omega

/-- **Numbers end after their width.** -/
theorem littleEndian_append_inj {m n : Nat} {r s : List UInt8} (hm : m < 0x10000000000000000)
    (hn : n < 0x10000000000000000) (h : littleEndian 8 m ++ r = littleEndian 8 n ++ s) : m = n ∧ r = s := by
  obtain ⟨hbytes, hrest⟩ := List.append_inj h (by rw [length_littleEndian, length_littleEndian])
  exact ⟨littleEndian_inj (k := 8) hm hn hbytes, hrest⟩

/-- No character is written with the byte 255: each of its bytes is a small number with some of the high bits
added, never with all of them. -/
theorem lt_of_mem_utf8EncodeChar {c : Char} {b : UInt8} (hb : b ∈ String.utf8EncodeChar c) :
    b.toNat < 255 := by
  have hsmall : ∀ n < 255, (UInt8.ofNat n).toNat < 255 := by
    intro n hn
    rw [UInt8.toNat_ofNat']
    exact Nat.lt_of_le_of_lt (Nat.mod_le _ _) hn
  simp only [String.utf8EncodeChar] at hb
  split at hb
  · obtain rfl := List.mem_singleton.mp hb
    exact hsmall _ (by omega)
  · split at hb
    · simp only [List.mem_cons, List.not_mem_nil, or_false] at hb
      rcases hb with rfl | rfl <;> exact hsmall _ (by omega)
    · split at hb
      · simp only [List.mem_cons, List.not_mem_nil, or_false] at hb
        rcases hb with rfl | rfl | rfl <;> exact hsmall _ (by omega)
      · simp only [List.mem_cons, List.not_mem_nil, or_false] at hb
        rcases hb with rfl | rfl | rfl | rfl <;> exact hsmall _ (by omega)

/-- The bytes of an array, listed from a place on. -/
theorem toList_loop_eq (bs : ByteArray) (i : Nat) (r : List UInt8) :
    ByteArray.toList.loop bs i r = r.reverse ++ bs.data.toList.drop i := by
  fun_induction ByteArray.toList.loop bs i r with
  | case1 i r hi ih =>
      have hlength : i < bs.data.toList.length := by simpa using hi
      have hget : bs.get! i = bs.data.toList[i] := by
        rw [Array.getElem_toList]
        exact getElem!_pos bs.data i hi
      rw [ih, List.drop_eq_getElem_cons hlength, hget, List.reverse_cons, List.append_assoc,
        List.singleton_append]
  | case2 i r hi =>
      rw [List.drop_eq_nil_of_le (by simpa using Nat.le_of_not_lt hi), List.append_nil]

theorem toList_eq_data (bs : ByteArray) : bs.toList = bs.data.toList := by
  rw [ByteArray.toList, toList_loop_eq]
  rfl

/-- The bytes of a text are those of its characters, one after the other. -/
theorem toList_toUTF8 (s : String) : s.toUTF8.toList = s.toList.flatMap String.utf8EncodeChar := by
  rw [toList_eq_data, String.toUTF8_eq_toByteArray, ← String.utf8Encode_toList, List.utf8Encode,
    List.toList_data_toByteArray]

theorem not_mem_toUTF8 (s : String) : (255 : UInt8) ∉ s.toUTF8.toList := by
  rw [toList_toUTF8]
  intro hmem
  obtain ⟨c, -, hb⟩ := List.mem_flatMap.mp hmem
  exact absurd (lt_of_mem_utf8EncodeChar hb) (by decide)

/-- What comes before the first of some marks, and what comes behind it. -/
theorem append_mark_inj {α : Type} {x : α} {u v r s : List α} (hu : x ∉ u) (hv : x ∉ v)
    (h : u ++ x :: r = v ++ x :: s) : u = v ∧ r = s := by
  induction u generalizing v with
  | nil =>
      cases v with
      | nil => exact ⟨rfl, (List.cons.inj h).2⟩
      | cons b v => exact absurd (List.cons.inj h).1 (fun heq => hv (heq ▸ List.mem_cons_self))
  | cons a u ih =>
      cases v with
      | nil => exact absurd (List.cons.inj h).1.symm (fun heq => hu (heq ▸ List.mem_cons_self))
      | cons b v =>
          obtain ⟨rfl, htail⟩ := List.cons.inj h
          obtain ⟨rfl, hrest⟩ := ih (fun hmem => hu (List.mem_cons_of_mem _ hmem))
            (fun hmem => hv (List.mem_cons_of_mem _ hmem)) htail
          exact ⟨rfl, hrest⟩

/-- **Texts end at the first byte 255.** -/
theorem textBytes_append_inj {s t : String} {r r' : List UInt8}
    (h : textBytes s ++ r = textBytes t ++ r') : s = t ∧ r = r' := by
  rw [textBytes, textBytes, List.append_assoc, List.append_assoc] at h
  obtain ⟨hbytes, hrest⟩ := append_mark_inj (not_mem_toUTF8 s) (not_mem_toUTF8 t) h
  rw [toList_eq_data, toList_eq_data, Array.toList_inj] at hbytes
  exact ⟨String.toByteArray_inj.mp (ByteArray.ext hbytes), hrest⟩

/-! ## Trees -/

/-- Kinds are told by their codes, which are small. -/
theorem Kind.code_append_inj {k k' : Kind} {r s : List UInt8}
    (h : littleEndian 8 k.code ++ r = littleEndian 8 k'.code ++ s) : k = k' ∧ r = s := by
  have hall : ∀ k : Kind, k ∈ all := by
    intro k
    cases k <;> decide
  have hsmall : ∀ k : Kind, k.code < 0x10000000000000000 := fun k =>
    Nat.lt_trans (List.idxOf_lt_length_of_mem (hall k)) (by decide)
  obtain ⟨hcode, hrest⟩ := littleEndian_append_inj (hsmall k) (hsmall k') h
  exact ⟨(List.idxOf_inj (hall k)).mp hcode, hrest⟩

namespace Tree

mutual
/-- Do the numbers of children fit eight bytes each? -/
def fitsBytes : Tree → Bool
  | .leaf _ _ => true
  | .branch _ cs => decide (cs.length < 0x10000000000000000) && allFitBytes cs

/-- Do the numbers of children in some trees fit eight bytes each? -/
def allFitBytes : List Tree → Bool
  | [] => true
  | c :: cs => fitsBytes c && allFitBytes cs
end

mutual
/-- **Trees end where their bytes say.**  By recursion on the first tree: the kind and the mark of a text
decide which of the two forms both have, and then piece after piece is the same. -/
theorem bytes_append_inj : (t u : Tree) → t.fitsBytes = true → u.fitsBytes = true →
    ∀ {r s : List UInt8}, bytes t ++ r = bytes u ++ s → t = u ∧ r = s
  | .leaf k x, .leaf k' x', _, _, r, s, h => by
      simp only [bytes, List.append_assoc] at h
      obtain ⟨rfl, hmark⟩ := Kind.code_append_inj h
      obtain ⟨rfl, hnone⟩ := textBytes_append_inj (List.append_cancel_left hmark)
      exact ⟨rfl, List.append_cancel_left hnone⟩
  | .leaf k x, .branch k' cs', _, _, r, s, h => by
      simp only [bytes, List.append_assoc] at h
      obtain ⟨-, hmark⟩ := Kind.code_append_inj h
      cases (littleEndian_append_inj (by decide) (by decide) hmark).1
  | .branch k cs, .leaf k' x', _, _, r, s, h => by
      simp only [bytes, List.append_assoc] at h
      obtain ⟨-, hmark⟩ := Kind.code_append_inj h
      cases (littleEndian_append_inj (by decide) (by decide) hmark).1
  | .branch k cs, .branch k' cs', ht, hu, r, s, h => by
      simp only [fitsBytes, Bool.and_eq_true, decide_eq_true_eq] at ht hu
      simp only [bytes, List.append_assoc] at h
      obtain ⟨rfl, hmark⟩ := Kind.code_append_inj h
      obtain ⟨hlength, hchildren⟩ := littleEndian_append_inj ht.1 hu.1 (List.append_cancel_left hmark)
      obtain ⟨rfl, hrest⟩ := bytesAll_append_inj cs cs' ht.2 hu.2 hlength hchildren
      exact ⟨rfl, hrest⟩

theorem bytesAll_append_inj : (ts us : List Tree) → allFitBytes ts = true → allFitBytes us = true →
    ts.length = us.length →
    ∀ {r s : List UInt8}, bytesAll ts ++ r = bytesAll us ++ s → ts = us ∧ r = s
  | [], [], _, _, _, r, s, h => ⟨rfl, h⟩
  | t :: ts, u :: us, ht, hu, hlength, r, s, h => by
      simp only [allFitBytes, Bool.and_eq_true] at ht hu
      simp only [bytesAll, List.append_assoc] at h
      obtain ⟨rfl, hothers⟩ := bytes_append_inj t u ht.1 hu.1 h
      obtain ⟨rfl, hrest⟩ := bytesAll_append_inj ts us ht.2 hu.2 (Nat.succ.inj hlength) hothers
      exact ⟨rfl, hrest⟩
end

/-- **Equal trees and equal bytes.**  Trees that are the same have the same bytes, and no others do. -/
theorem same_iff_bytes {t u : Tree} (ht : t.fitsBytes = true) (hu : u.fitsBytes = true) :
    t.same u = true ↔ t.bytes = u.bytes := by
  rw [same_iff]
  refine ⟨fun h => by rw [h], fun h => ?_⟩
  exact (bytes_append_inj t u ht hu (r := []) (s := []) (by rw [h])).1

end Tree

end PrivateSql
