import FlatMachine.Native.Binary
import Mathlib.Algebra.Order.Ring.Int
import Mathlib.Data.Int.Bitwise
import Mathlib.Data.Int.ModEq
import Mathlib.Tactic.Ring

/-!
# Arithmetic on words

A word stands for an integer in the range of its kind, and is the word of every integer that differs
from this one by a multiple of `2 ^ k.bits`. So each operation on words is the word of what the
operation of the integers yields.
-/

namespace FlatMachine.IntKind

/-- The least integer of the kind. -/
def least (k : IntKind) : Int := if k.isSigned then -2 ^ (k.bits - 1) else 0

/-- The integer is one of the `2 ^ k.bits` that words of the kind stand for. -/
def InRange (k : IntKind) (n : Int) : Prop := k.least ≤ n ∧ n < k.least + 2 ^ k.bits

/-- The integer in the range that differs by a multiple of `2 ^ k.bits`. -/
def wrap (k : IntKind) (n : Int) : Int := k.least + (n - k.least) % 2 ^ k.bits

variable {k : IntKind} {n m : Int} {x y : BitVec k.bits}

section Range

theorem modulus_pos (k : IntKind) : (0 : Int) < 2 ^ k.bits := Int.pow_pos (by decide)

theorem wrap_of_inRange (h : k.InRange n) : k.wrap n = n := by
  have hmod : (n - k.least) % 2 ^ k.bits = n - k.least := by
    apply Int.emod_eq_of_lt
    · have := h.1
      omega
    · have := h.2
      omega
  rw [wrap, hmod]
  ring

theorem wrap_eq_wrap (h : n % 2 ^ k.bits = m % 2 ^ k.bits) : k.wrap n = k.wrap m := by
  rw [wrap, wrap, Int.sub_emod, h, ← Int.sub_emod]

end Range

section Words

theorem inRange_toInt (x : BitVec k.bits) : k.InRange (k.toInt x) := by
  unfold InRange least toInt
  cases hsigned : k.isSigned with
  | true =>
    have hle := x.le_toInt
    have hlt := x.toInt_lt
    have hhalf : (2 : Int) ^ k.bits = 2 * 2 ^ (k.bits - 1) := by cases k <;> rfl
    simp only [if_true]
    omega
  | false =>
    have hlt : (x.toNat : Int) < 2 ^ k.bits := by exact_mod_cast x.isLt
    simp only [Bool.false_eq_true, if_false]
    omega

theorem ofInt_toInt (x : BitVec k.bits) : k.ofInt (k.toInt x) = x := by
  unfold ofInt toInt
  split
  · exact BitVec.ofInt_toInt
  · rw [BitVec.ofInt_natCast, BitVec.ofNat_toNat, BitVec.setWidth_eq]

theorem ofInt_eq_ofInt : k.ofInt n = k.ofInt m ↔ n % 2 ^ k.bits = m % 2 ^ k.bits := by
  have hmodulus : ((2 ^ k.bits : Nat) : Int) = 2 ^ k.bits := by norm_cast
  have hn := Int.emod_nonneg n k.modulus_pos.ne'
  have hm := Int.emod_nonneg m k.modulus_pos.ne'
  rw [ofInt, ofInt, ← BitVec.toNat_inj, BitVec.toNat_ofInt, BitVec.toNat_ofInt, hmodulus]
  omega

theorem toInt_ofInt (k : IntKind) (n : Int) : k.toInt (k.ofInt n) = k.wrap n := by
  rw [← wrap_of_inRange (inRange_toInt (k.ofInt n))]
  exact wrap_eq_wrap (ofInt_eq_ofInt.mp (ofInt_toInt _))

end Words

section Arithmetic

end Arithmetic

section Shifts

end Shifts

section Bits

end Bits

section Division

end Division

end FlatMachine.IntKind
