import FlatMachine.Native.Primitive

/-!
# Binary operators

Every binary operator is defined on the integers, some on floating-point numbers, and two on truth
values. The generic operator of a name picks the typed one by the type of its first input; equality
is defined on every type that can be read as a value.
-/

namespace FlatMachine

/-- The operators on two inputs of one type. -/
inductive BinaryOp where
  | add | sub | mul | div | mod
  | and | or | xor
  /-- The bits of the first input that are not set in the second. -/
  | bitclear
  | shl | shr
  | compare (c : Comparison)
  deriving DecidableEq, Inhabited

/-- The operators on one integer. -/
inductive IntUnary where
  | neg | abs
  deriving DecidableEq

/-- The operators on one floating-point number. -/
inductive FloatUnary where
  | neg | abs | sqrt
  deriving DecidableEq

namespace BinaryOp

/-- The operators in the order of the integer families. -/
def all : List BinaryOp :=
  [add, sub, mul, div, mod, and, or, xor, bitclear, shl, shr] ++ Comparison.all.map compare

/-- The operators in the order of the generic family. -/
def generics : List BinaryOp :=
  [add, sub, mul, div, mod, shl, shr, and, or, xor, bitclear] ++ Comparison.all.map compare

def name : BinaryOp → String
  | add => "add" | sub => "sub" | mul => "mul" | div => "div" | mod => "mod"
  | and => "and" | or => "or" | xor => "xor" | bitclear => "bitclear" | shl => "shl" | shr => "shr"
  | compare c => c.name

/-- Yields a truth value. -/
def isComparison : BinaryOp → Bool
  | compare _ => true
  | _ => false

def shiftCount (opName : String) (k : IntKind) (y : BitVec k.bits) : Except Error Nat :=
  if k.toInt y < 0 then .error (.invalidArguments opName s!"negative shift count {k.toInt y}")
  else .ok (k.toInt y).toNat

/-- The result on two integers; `opName` is the name errors carry. -/
def onInts (op : BinaryOp) (opName : String) (k : IntKind) (x y : BitVec k.bits) :
    Except Error Value :=
  match op with
  | add => .ok (.int k (x + y))
  | sub => .ok (.int k (x - y))
  | mul => .ok (.int k (x * y))
  | div => if y = 0 then .error (.divisionByZero opName) else .ok (.int k (k.quotient x y))
  | mod => if y = 0 then .error (.divisionByZero opName) else .ok (.int k (k.remainder x y))
  | and => .ok (.int k (x &&& y))
  | or => .ok (.int k (x ||| y))
  | xor => .ok (.int k (x ^^^ y))
  | bitclear => .ok (.int k (x &&& ~~~y))
  | shl => return .int k (k.shiftLeft x (← shiftCount opName k y))
  | shr => return .int k (k.shiftRight x (← shiftCount opName k y))
  | compare c => .ok (.bool (c.holds (k.toInt x) (k.toInt y)))

/-- The result on two floating-point numbers, where it is defined. -/
def onFloats? (op : BinaryOp) (k : FloatKind) (x y : BitVec k.bits) : Option Value :=
  match op with
  | add => some (.float k (k.arithmetic .add x y))
  | sub => some (.float k (k.arithmetic .sub x y))
  | mul => some (.float k (k.arithmetic .mul x y))
  | div => some (.float k (k.arithmetic .div x y))
  | compare c => some (.bool (k.compare c x y))
  | _ => none

/-- Defined on floating-point numbers. -/
def hasFloats (op : BinaryOp) : Bool :=
  match op with
  | add | sub | mul | div | compare _ => true
  | _ => false

/-- The operator on integers of a kind. -/
def ints (op : BinaryOp) (k : IntKind) : Compute := fun s a => do
  let x ← s.int k a 0
  let y ← s.int k a 1
  s.outputs [← op.onInts s.name k x y]

/-- The operator on floating-point numbers of a kind. -/
def floats (op : BinaryOp) (k : FloatKind) : Compute := fun s a => do
  let x ← s.float k a 0
  let y ← s.float k a 1
  s.outputs (op.onFloats? k x y).toList

end BinaryOp

/-- Conjunction; the second input is read only if the first is true. -/
def conjunction : Compute := fun s a => do
  let value ← if ← s.bool a 0 then s.bool a 1 else pure false
  s.outputs [.bool value]

/-- Disjunction; the second input is read only if the first is false. -/
def disjunction : Compute := fun s a => do
  let value ← if ← s.bool a 0 then pure true else s.bool a 1
  s.outputs [.bool value]

def negation : Compute := fun s a => do
  s.outputs [.bool !(← s.bool a 0)]

/-- Compares two values of any type; `expected` is the answer for equal ones. -/
def equality (expected : Bool) : Compute := fun s a => do
  let x ← s.input a 0
  let y ← s.input a 1
  s.outputs [.bool (x.equals y == expected)]

namespace BinaryOp

/-- The typed operator on inputs of a type, if there is one. -/
def typed? (op : BinaryOp) (ty : Ty) : Option Compute :=
  match ty, op with
  | .int k, op => some (op.ints k)
  | .float k, op => if op.hasFloats then some (op.floats k) else none
  | _, compare .eq => some (equality true)
  | _, compare .uneq => some (equality false)
  | .bool, and => some conjunction
  | .bool, or => some disjunction
  | _, _ => none

/-- The typed operator for the type of the first input. -/
def generic (op : BinaryOp) : Compute := fun s a => do
  let ty ← s.inputTy a 0
  match op.typed? ty with
  | some run => run s a
  | none => .error (.typeMismatch s.name s!"an operand supporting {op.name}" ty.text)

/-- The scalar types, in the order signatures list them. -/
def scalarTypes : List Ty := IntKind.all.map Ty.int ++ FloatKind.all.map Ty.float ++ [.bool]

/-- The restriction on the first input of the generic operator. -/
def genericParam (op : BinaryOp) : Param :=
  match op with
  | compare .eq | compare .uneq => .any
  | op => { Param.any with oneOf := scalarTypes.filter fun ty => (op.typed? ty).isSome }

/-- The signature of the typed operator. -/
def signature (op : BinaryOp) (ty : Ty) : Signature :=
  .of [ty, ty] [if op.isComparison then .bool else ty]

/-- The typed operator on a kind of integers. -/
def intPrimitive (op : BinaryOp) (k : IntKind) : Primitive :=
  ⟨s!"{k.name}.{op.name}", op.signature (.int k), .compute (op.ints k)⟩

/-- The typed operator on a kind of floating-point numbers. -/
def floatPrimitive (op : BinaryOp) (k : FloatKind) : Primitive :=
  ⟨s!"{k.name}.{op.name}", op.signature (.float k), .compute (op.floats k)⟩

/-- The operator on all types that have it. -/
def genericPrimitive (op : BinaryOp) : Primitive where
  name := s!"und.{op.name}"
  signature := {
    inputs := [op.genericParam, { Param.any with sameAsFirst := true }]
    outputs := [if op.isComparison then .of .bool else .any] }
  body := .compute op.generic

end BinaryOp

namespace IntUnary

def name : IntUnary → String
  | neg => "neg"
  | abs => "abs"

def apply (op : IntUnary) (k : IntKind) (x : BitVec k.bits) : BitVec k.bits :=
  match op with
  | neg => -x
  | abs => k.abs x

def primitive (op : IntUnary) (k : IntKind) : Primitive where
  name := s!"{k.name}.{op.name}"
  signature := .of [.int k] [.int k]
  body := .compute fun s a => do
    s.outputs [.int k (op.apply k (← s.int k a 0))]

end IntUnary

namespace FloatUnary

def name : FloatUnary → String
  | neg => "neg"
  | abs => "abs"
  | sqrt => "sqrt"

def apply (op : FloatUnary) (k : FloatKind) (x : BitVec k.bits) : BitVec k.bits :=
  match op with
  | neg => k.neg x
  | abs => k.abs x
  | sqrt => k.sqrt x

def primitive (op : FloatUnary) (k : FloatKind) : Primitive where
  name := s!"{k.name}.{op.name}"
  signature := .of [.float k] [.float k]
  body := .compute fun s a => do
    s.outputs [.float k (op.apply k (← s.float k a 0))]

end FloatUnary

/-- A uniformly drawn integer between two bounds, the upper one excluded; equal bounds give the lower
one. -/
def draw (k : IntKind) : Site → Action Workspace Slots := fun s => do
  let min ← Workspace.look fun a => s.int k a 0
  let max ← Workspace.look fun a => s.int k a 1
  if k.toInt max < k.toInt min then
    throw (.invalidRange s.name (k.toInt min) (k.toInt max))
  else if min = max then
    Action.ofExcept (s.outputs [.int k min])
  else
    let w ← get
    let (n, random) := w.random.below (k.toInt max - k.toInt min).toNat
    set { w with random }
    Action.ofExcept (s.outputs [.int k (k.ofInt (k.toInt min + n))])

/-- The operators on a kind of integers. -/
def IntKind.primitives (k : IntKind) : List Primitive :=
  BinaryOp.all.map (·.intPrimitive k) ++ [IntUnary.neg, .abs].map (·.primitive k) ++
    [⟨s!"{k.name}.rand", .of [.int k, .int k] [.int k], .act (draw k)⟩]

/-- The operators on a kind of floating-point numbers. -/
def FloatKind.primitives (k : FloatKind) : List Primitive :=
  (BinaryOp.all.filter (·.hasFloats)).map (·.floatPrimitive k) ++
    [FloatUnary.neg, .abs, .sqrt].map (·.primitive k)

end FlatMachine
