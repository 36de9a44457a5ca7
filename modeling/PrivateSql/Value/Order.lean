import PrivateSql.Value.Basic
/-!
# Orders of values

Two comparisons: the total one that sorts rows, in which `NULL` comes first, then the truth values,
the numbers and the texts; and the one that queries evaluate, which has no answer next to `NULL`
nor between values of different sorts.

* `Value.totalCompare` — the order of sorting;
* `Value.compare?` — the comparison of queries.
-/

namespace PrivateSql.Value

variable {N : Type} [Number N]

/-- The sorts of values in the order of sorting. -/
def rank : Value N → Nat
  | .null => 0
  | .boolean _ => 1
  | .integer _ => 2
  | .float _ => 2
  | .text _ => 3

/-- The order of sorting. Two integers are compared as such, an integer and a number as numbers. -/
def totalCompare : Value N → Value N → Ordering
  | .integer l, .integer r => compare l.toInt r.toInt
  | .boolean l, .boolean r => compare l r
  | .text l, .text r => compare l r
  | l, r =>
    match l.number?, r.number? with
    | some x, some y => Number.totalCompare x y
    | _, _ => compare l.rank r.rank

/-- The comparison of queries. Integers are compared as numbers. -/
def compare? : Value N → Value N → Option Ordering
  | .null, _ => none
  | _, .null => none
  | .boolean l, .boolean r => some (totalCompare (N := N) (.boolean l) (.boolean r))
  | .text l, .text r => some (totalCompare (N := N) (.text l) (.text r))
  | l, r =>
    match l.number?, r.number? with
    | some x, some y => Number.compare? x y
    | _, _ => none

end PrivateSql.Value
