import FlatMachine.Decimal.Shortest
import FlatMachine.Word.Integer

/-!
# Floating-point words

A floating-point number is held as the bits of its IEEE 754 format. The sign, the order and the
decimal text are read off the bits; arithmetic is that of the format, rounding to nearest even.
-/

namespace FlatMachine.FloatKind

def fractionBits : FloatKind → Nat
  | f32 => 23
  | f64 => 52

/-- The exponent of a subnormal number's last fraction bit. -/
def leastExponent : FloatKind → Int
  | f32 => -149
  | f64 => -1074

/-- The word without its sign bit, as a number: it grows with the absolute value. -/
def magnitude (k : FloatKind) (w : BitVec k.bits) : Nat := w.toNat % 1 <<< (k.bits - 1)

def isNegative (k : FloatKind) (w : BitVec k.bits) : Bool := decide (1 <<< (k.bits - 1) ≤ w.toNat)

def infinity (k : FloatKind) : Nat :=
  1 <<< (k.bits - 1) - 1 <<< k.fractionBits

def isNaN (k : FloatKind) (w : BitVec k.bits) : Bool := decide (k.infinity < k.magnitude w)

/-- The place of a number in the order of the format; the two zeros share one. -/
def rank (k : FloatKind) (w : BitVec k.bits) : Int :=
  if k.isNegative w then -(k.magnitude w : Int) else k.magnitude w

/-- The comparison of two numbers. A NaN is different from everything and neither below nor above
anything. -/
def compare (k : FloatKind) (c : Comparison) (a b : BitVec k.bits) : Bool :=
  if k.isNaN a || k.isNaN b then c == .uneq else c.holds (k.rank a) (k.rank b)

/-- The absolute value of a finite number other than zero. -/
def binary (k : FloatKind) (w : BitVec k.bits) : Decimal.Binary :=
  let fraction := k.magnitude w % 1 <<< k.fractionBits
  let biased := k.magnitude w / 1 <<< k.fractionBits
  if biased = 0 then ⟨fraction, k.leastExponent, false⟩
  else ⟨1 <<< k.fractionBits + fraction, k.leastExponent + (biased - 1 : Nat),
    fraction == 0 && decide (1 < biased)⟩

/-- The shortest decimal text that reads back as the number: `1`, `-0`, `0.1`, `inf`, `NaN`. -/
def text (k : FloatKind) (w : BitVec k.bits) : String :=
  if k.isNaN w then "NaN"
  else
    let sign := if k.isNegative w then "-" else ""
    if k.magnitude w = k.infinity then sign ++ "inf"
    else if k.magnitude w = 0 then sign ++ "0"
    else sign ++ (k.binary w).shortest.positional

def double (w : BitVec 64) : Float := Float.ofBits (UInt64.ofBitVec w)

def single (w : BitVec 32) : Float32 := Float32.ofBits (UInt32.ofBitVec w)

def ofDouble (x : Float) : BitVec 64 := x.toBits.toBitVec

def ofSingle (x : Float32) : BitVec 32 := x.toBits.toBitVec

/-- The arithmetic operations on two numbers. -/
inductive Arithmetic where
  | add | sub | mul | div
  deriving DecidableEq, Inhabited

def Arithmetic.all : List Arithmetic := [.add, .sub, .mul, .div]

def Arithmetic.name : Arithmetic → String
  | add => "add" | sub => "sub" | mul => "mul" | div => "div"

/-- The result of an arithmetic operation, rounded to nearest even. -/
def arithmetic (k : FloatKind) (op : Arithmetic) (a b : BitVec k.bits) : BitVec k.bits :=
  match k with
  | f32 => ofSingle <| match op with
    | .add => single a + single b
    | .sub => single a - single b
    | .mul => single a * single b
    | .div => single a / single b
  | f64 => ofDouble <| match op with
    | .add => double a + double b
    | .sub => double a - double b
    | .mul => double a * double b
    | .div => double a / double b

/-- The word with its sign bit turned. -/
def neg (k : FloatKind) (a : BitVec k.bits) : BitVec k.bits := a ^^^ BitVec.ofNat _ (1 <<< (k.bits - 1))

/-- The word with its sign bit cleared. -/
def abs (k : FloatKind) (a : BitVec k.bits) : BitVec k.bits := BitVec.ofNat _ (k.magnitude a)

/-- The square root, rounded to nearest even. -/
def sqrt (k : FloatKind) (a : BitVec k.bits) : BitVec k.bits :=
  match k with
  | f32 => ofSingle (single a).sqrt
  | f64 => ofDouble (double a).sqrt

/-- The double nearest to an integer. -/
def doubleOfInt (n : BitVec 64) : BitVec 64 := ofDouble (Int64.ofBitVec n).toFloat

/-- The single nearest to an integer. -/
def singleOfInt (n : BitVec 32) : BitVec 32 := ofSingle (Int32.ofBitVec n).toFloat32

/-- The integer next to a double on the side of zero; out of range the nearest end of the range, and
0 for a NaN. -/
def truncate (w : BitVec 64) : BitVec 64 := (double w).toInt64.toBitVec

end FlatMachine.FloatKind
