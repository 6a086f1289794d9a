import Mathlib.Algebra.Order.Ring.Int

/-!
# Words — bounded machine arithmetic over `Nat`

A `u64` is a `Nat`; what the machine type adds is where its arithmetic stops.
`checkedAdd` answers `none` past the top, `saturatingAdd` and `saturatingMul` stay at it.
Nothing here assumes that an operand is itself in range, so a lemma over all of `Nat`
covers every machine value.
-/

namespace Words

/-- The largest 64-bit word. -/
def u64Max : Nat := 2 ^ 64 - 1

def checkedAdd (a b : Nat) : Option Nat :=
  if a + b ≤ u64Max then some (a + b) else none

def saturatingAdd (a b : Nat) : Nat := min (a + b) u64Max

def saturatingMul (a b : Nat) : Nat := min (a * b) u64Max

theorem checkedAdd_eq_some {a b c : Nat} :
    checkedAdd a b = some c ↔ c = a + b ∧ a + b ≤ u64Max := by
  unfold checkedAdd
  split
  · next h => simp [h, eq_comm]
  · next h => simp [h]

theorem checkedAdd_eq_none {a b : Nat} : checkedAdd a b = none ↔ u64Max < a + b := by
  unfold checkedAdd
  split
  · next h => simp; omega
  · next h => simp; omega

end Words
