import OpenAddressing.Fault

/-!
# Machine words

Lengths, indexes and capacities are natural numbers, but the sums and products
that size a table have to fit a word of 64 bits. The operations here are the
exact ones of `Nat` where the result fits, and a fault where it does not; no
operation wraps.
-/

namespace OpenAddressing.Word

/-- The first number that no longer fits a word. -/
def limit : Nat := 1 <<< 64

/-- The sum, if it fits a word. -/
def add (a b : Nat) : Except Fault Nat :=
  if a + b < limit then .ok (a + b) else .error .addOverflow

/-- The difference, if it is not negative. -/
def sub (a b : Nat) : Except Fault Nat :=
  if b ≤ a then .ok (a - b) else .error .subOverflow

/-- The product, if it fits a word. -/
def mul (a b : Nat) : Except Fault Nat :=
  if a * b < limit then .ok (a * b) else .error .mulOverflow

/-- The remainder, if there is one. -/
def rem (a b : Nat) : Except Fault Nat :=
  if b = 0 then .error .remByZero else .ok (a % b)

/-- The least power of two that is at least `n`. -/
def ceilPow2 (n : Nat) : Nat :=
  if n ≤ 1 then 1 else 1 <<< (Nat.log2 (n - 1) + 1)

theorem add_of_lt {a b : Nat} (h : a + b < limit) : add a b = .ok (a + b) := if_pos h

theorem sub_of_le {a b : Nat} (h : b ≤ a) : sub a b = .ok (a - b) := if_pos h

theorem mul_of_lt {a b : Nat} (h : a * b < limit) : mul a b = .ok (a * b) := if_pos h

theorem rem_of_pos {a b : Nat} (h : 0 < b) : rem a b = .ok (a % b) :=
  if_neg (Nat.ne_of_gt h)

theorem le_ceilPow2 (n : Nat) : n ≤ ceilPow2 n := by
  unfold ceilPow2
  split
  · assumption
  · have := Nat.lt_log2_self (n := n - 1)
    rw [Nat.shiftLeft_eq]
    omega

end OpenAddressing.Word
