/-!
# Powers of two and ten

A binary number is scaled by powers of two and a decimal one by powers of ten. Both scales are exact
natural numbers, and going one place up multiplies by the base.

* `twoPow`, `tenPow` — the powers;
* `twoPow_add` — scaling twice adds the places.
-/

namespace PrivateSql

/-- Two to the power `n`. -/
def twoPow (n : Nat) : Nat := Nat.pow 2 n

/-- Ten to the power `n`. -/
def tenPow (n : Nat) : Nat := Nat.pow 10 n

theorem twoPow_zero : twoPow 0 = 1 := rfl

theorem twoPow_succ (n : Nat) : twoPow (n + 1) = twoPow n * 2 := rfl

theorem twoPow_pos (n : Nat) : 0 < twoPow n := by
  induction n with
  | zero => rw [twoPow_zero]; exact Nat.one_pos
  | succ n ih => rw [twoPow_succ]; omega

theorem twoPow_add (m n : Nat) : twoPow (m + n) = twoPow m * twoPow n := by
  induction n with
  | zero => rw [twoPow_zero, Nat.mul_one, Nat.add_zero]
  | succ n ih => rw [← Nat.add_assoc, twoPow_succ, ih, twoPow_succ, Nat.mul_assoc]

theorem tenPow_zero : tenPow 0 = 1 := rfl

theorem tenPow_succ (n : Nat) : tenPow (n + 1) = tenPow n * 10 := rfl

theorem tenPow_pos (n : Nat) : 0 < tenPow n := by
  induction n with
  | zero => rw [tenPow_zero]; exact Nat.one_pos
  | succ n ih => rw [tenPow_succ]; omega

end PrivateSql
