import FlatMachine.Error

/-!
# Sizes

Sizes, offsets and counts are natural numbers. A size that a program can name stays below `2 ^ 64`,
and an address that is stored in memory as a handle stays below `2 ^ 32`. A sum is either checked,
and then it is a size or there is none, or it is plain, and then it depends on the build what
becomes of one that is no size.
-/

namespace FlatMachine

/-- What becomes of a plain sum or product that is no size: the program stops, or it goes on with
the remainder modulo `2 ^ 64`. -/
inductive Overflow where
  | stops
  | wraps
  deriving DecidableEq, Inhabited

namespace Size

/-- The largest size. -/
def max : Nat := 1 <<< 64 - 1

/-- The largest stored address. -/
def maxHandle : Nat := 1 <<< 32 - 1

/-- The sum, if it is a size. -/
def add? (a b : Nat) : Option Nat := if a + b ≤ max then some (a + b) else none

/-- The product, if it is a size. -/
def mul? (a b : Nat) : Option Nat := if a * b ≤ max then some (a * b) else none

/-- The size that a plain sum or product with this exact value is computed to. -/
def plain (overflow : Overflow) (exact : Nat) : Except Error Nat :=
  if exact ≤ max then .ok exact
  else match overflow with
    | .stops => .error .sizeOverflow
    | .wraps => .ok (exact % (max + 1))

theorem plain_of_le {overflow : Overflow} {exact : Nat} (h : exact ≤ max) :
    plain overflow exact = .ok exact := if_pos h

theorem add?_eq_some_iff {a b c : Nat} : add? a b = some c ↔ a + b ≤ max ∧ c = a + b := by
  unfold add?
  split
  · simp [*, eq_comm]
  · simp only [reduceCtorEq, false_iff]
    omega

theorem mul?_eq_some_iff {a b c : Nat} : mul? a b = some c ↔ a * b ≤ max ∧ c = a * b := by
  unfold mul?
  split
  · simp [*, eq_comm]
  · simp only [reduceCtorEq, false_iff]
    omega

end Size

end FlatMachine
