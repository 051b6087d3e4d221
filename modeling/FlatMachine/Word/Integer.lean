import FlatMachine.Ty.Basic

/-!
# Integer words

An integer of kind `k` is a word of `k.bits` bits, read in two's complement when `k` is signed.
Arithmetic is that of the integers, wrapped to the width.
-/

namespace FlatMachine

/-- The comparisons that yield a truth value. -/
inductive Comparison where
  | lt | gt | lteq | gteq | eq | uneq
  deriving DecidableEq, Inhabited

namespace Comparison

def all : List Comparison := [lt, gt, lteq, gteq, eq, uneq]

def name : Comparison → String
  | lt => "lt" | gt => "gt" | lteq => "lteq" | gteq => "gteq" | eq => "eq" | uneq => "uneq"

/-- The comparison of two integers. -/
def holds : Comparison → Int → Int → Bool
  | lt, a, b => decide (a < b)
  | gt, a, b => decide (b < a)
  | lteq, a, b => decide (a ≤ b)
  | gteq, a, b => decide (b ≤ a)
  | eq, a, b => decide (a = b)
  | uneq, a, b => decide (a ≠ b)

end Comparison

namespace IntKind

/-- The integer that a word stands for. -/
def toInt (k : IntKind) (w : BitVec k.bits) : Int := if k.isSigned then w.toInt else w.toNat

/-- The word of an integer, wrapped to the width. -/
def ofInt (k : IntKind) (n : Int) : BitVec k.bits := BitVec.ofInt k.bits n

/-- Division that truncates toward zero. -/
def quotient (k : IntKind) (a b : BitVec k.bits) : BitVec k.bits :=
  if k.isSigned then a.sdiv b else a / b

/-- The remainder of `quotient`, with the sign of the dividend. -/
def remainder (k : IntKind) (a b : BitVec k.bits) : BitVec k.bits :=
  if k.isSigned then a.srem b else a % b

/-- Left shift; zero once the count reaches the width. -/
def shiftLeft (k : IntKind) (a : BitVec k.bits) (count : Nat) : BitVec k.bits :=
  if count < k.bits then a <<< count else 0

/-- Right shift, keeping the sign of a signed word; only sign bits are left once the count reaches
the width. -/
def shiftRight (k : IntKind) (a : BitVec k.bits) (count : Nat) : BitVec k.bits :=
  let count := min count k.bits
  if k.isSigned then a.sshiftRight count else a >>> count

/-- The absolute value; the least signed integer is its own. -/
def abs (k : IntKind) (a : BitVec k.bits) : BitVec k.bits := if k.toInt a < 0 then -a else a

end IntKind

end FlatMachine
