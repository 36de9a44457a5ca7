import PrivateSql.Value.Order
/-!
# Sorting

A stable sort by insertion: each element goes below the elements that are not above it, starting the
search from the last one put in.

* `stableSort` — the elements in increasing order, equal ones as they came;
* `compareKeys` — the order of two rows of sort keys.
-/

namespace PrivateSql

/-- Put an element into a list in decreasing order, above those it is not less than. -/
def insertDescending {α : Type} (compare : α → α → Ordering) (a : α) : List α → List α
  | [] => [a]
  | b :: rest =>
    if compare a b = .lt then b :: insertDescending compare a rest else a :: b :: rest

/-- The elements in increasing order; equal elements stay in the order they came in. -/
def stableSort {α : Type} (compare : α → α → Ordering) (l : List α) : List α :=
  (l.foldl (fun sorted a => insertDescending compare a sorted) []).reverse

/-- The order of two rows of sort keys: that of the first keys that differ, turned round when the
ordering is not ascending. -/
def compareKeys {N : Type} [Number N] : List Bool → List (Value N) → List (Value N) → Ordering
  | ascending :: directions, l :: ls, r :: rs =>
    match l.totalCompare r with
    | .eq => compareKeys directions ls rs
    | o => if ascending then o else o.swap
  | _, _, _ => .eq

end PrivateSql
