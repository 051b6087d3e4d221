import FlatMachine.Code.Node
import FlatMachine.Memory.Place

/-!
# Reading inputs and staging outputs

A site is a node that is about to be executed in a frame. An operator reads the inputs it asks for
and stages values or bytes for the outputs; nothing is written until the operator has succeeded.
-/

namespace FlatMachine

/-- What an operator gives for an output: a value to be encoded at the output's type, or bytes. -/
inductive Staged where
  | value (v : Value)
  | bytes (content : Bytes)
  deriving Inhabited

/-- What is staged for each output. -/
abbrev Slots := List (Option Staged)

/-- A node in a frame. -/
structure Site where
  structs : StructTable
  fp : Nat
  node : Node

namespace Site

def name (s : Site) : String := s.node.operatorName

def operand (s : Site) (i : Nat) : Except Error Operand :=
  match s.node.inputs[i]? with
  | some o => .ok o
  | none => .error (.invalidArguments s.name s!"missing input {i}")

def inputPlace (s : Site) (a : Arena) (i : Nat) : Except Error Place := do
  (← s.operand i).place s.structs a s.fp

/-- The type of an input; by reference, a pointer to it. -/
def inputTy (s : Site) (a : Arena) (i : Nat) : Except Error Ty := do
  let o ← s.operand i
  let place ← o.place s.structs a s.fp
  return if o.byReference then .pointer place.ty else place.ty

/-- The bytes of an input; by reference, its address. -/
def inputBytes (s : Site) (a : Arena) (i : Nat) : Except Error Bytes := do
  (← s.operand i).bytes s.structs a s.fp

def inputHandle (s : Site) (a : Arena) (i : Nat) : Except Error Nat := do
  let ty ← s.inputTy a i
  if ty.isHandle then takeWord (← s.inputBytes a i) Ty.handleWidth (.pointer .undefined)
  else .error (.typeMismatch s.name "a handle type" ty.text)

/-- The value of an input; by reference, its address. -/
def input (s : Site) (a : Arena) (i : Nat) : Except Error Value := do
  let o ← s.operand i
  let place ← o.place s.structs a s.fp
  if o.byReference then return .pointer place.offset
  else match place.ty with
    | .str | .slice _ => a.readObject (← a.readHandle place.offset) place.ty
    | .pointer _ | .bool | .int _ | .float _ => place.ty.decode (← a.read place.offset place.size)
    | other => .error (.typeMismatch s.name "a scalar, string or slice" other.text)

/-- An input that has to be an integer of a kind. -/
def int (s : Site) (k : IntKind) (a : Arena) (i : Nat) : Except Error (BitVec k.bits) := do
  match ← s.input a i with
  | .int l w =>
    if h : l = k then return w.cast (by rw [h])
    else .error (.typeMismatch s.name k.name l.name)
  | other => .error (.typeMismatch s.name k.name other.typeName)

/-- An input that has to be a floating-point number of a kind. -/
def float (s : Site) (k : FloatKind) (a : Arena) (i : Nat) : Except Error (BitVec k.bits) := do
  match ← s.input a i with
  | .float l w =>
    if h : l = k then return w.cast (by rw [h])
    else .error (.typeMismatch s.name k.name l.name)
  | other => .error (.typeMismatch s.name k.name other.typeName)

/-- An input that has to be a truth value. -/
def bool (s : Site) (a : Arena) (i : Nat) : Except Error Bool := do
  match ← s.input a i with
  | .bool b => return b
  | other => .error (.typeMismatch s.name "bool" other.typeName)

def str (s : Site) (a : Arena) (i : Nat) : Except Error String := do
  match ← s.input a i with
  | .str text => return text
  | other => .error (.typeMismatch s.name "str" other.typeName)

def slice (s : Site) (a : Arena) (i : Nat) : Except Error (List Value) := do
  match ← s.input a i with
  | .slice items => return items
  | other => .error (.typeMismatch s.name "a slice" other.typeName)

/-- Nothing staged. -/
def noOutputs (s : Site) : Slots := List.replicate s.node.outputs.length none

/-- Stages something for an output. -/
def stage (s : Site) (slots : Slots) (i : Nat) (staged : Staged) : Except Error Slots :=
  if i < slots.length then .ok (slots.set i (some staged))
  else .error (.invalidArguments s.name s!"missing output {i}")

/-- Stages values for the outputs from number `i` on. -/
def stageFrom (s : Site) (slots : Slots) (i : Nat) : List Value → Except Error Slots
  | [] => .ok slots
  | v :: rest => do s.stageFrom (← s.stage slots i (.value v)) (i + 1) rest

def outputs (s : Site) (values : List Value) : Except Error Slots :=
  s.stageFrom s.noOutputs 0 values

/-- A count as a 32-bit integer. -/
def lengthValue (s : Site) (length : Nat) : Except Error Value :=
  if length < 1 <<< 31 then .ok (Value.i32 length)
  else .error (.invalidArguments s.name s!"length {length} does not fit in i32")

def outputHandle (s : Site) (handle : Nat) : Except Error Slots := do
  s.stage s.noOutputs 0 (.bytes (← encodeHandle handle))

end Site

end FlatMachine
