import FlatMachine.Error
import FlatMachine.Text.Quoted

/-!
# Assignment operators

`=`, `:=` and the compound operators, each of which applies a generic operator to the target and the
value.
-/

namespace FlatMachine

inductive AssignOp where
  | assign | define | add | sub | mul | div | mod | shl | shr | and | or | xor
  deriving DecidableEq, Inhabited

namespace AssignOp

def all : List AssignOp := [assign, define, add, sub, mul, div, mod, shl, shr, and, or, xor]

/-- How the operator is written. -/
def symbol : AssignOp → String
  | assign => "="
  | define => ":="
  | add => "+="
  | sub => "-="
  | mul => "*="
  | div => "/="
  | mod => "%="
  | shl => "<<="
  | shr => ">>="
  | and => "&="
  | or => "|="
  | xor => "^="

/-- What the operator is called. -/
def name : AssignOp → String
  | assign => "Assign" | define => "Define" | add => "Add" | sub => "Sub" | mul => "Mul"
  | div => "Div" | mod => "Mod" | shl => "Shl" | shr => "Shr" | and => "And" | or => "Or"
  | xor => "Xor"

/-- The generic primitive that a compound operator applies. -/
def primitive? : AssignOp → Option String
  | assign | define => none
  | add => some "und.add"
  | sub => some "und.sub"
  | mul => some "und.mul"
  | div => some "und.div"
  | mod => some "und.mod"
  | shl => some "und.shl"
  | shr => some "und.shr"
  | and => some "und.and"
  | or => some "und.or"
  | xor => some "und.xor"

def isCompound (op : AssignOp) : Bool := op.primitive?.isSome

/-- Reads an operator. -/
def ofSymbol (text : String) : Except Error AssignOp :=
  match all.find? (·.symbol == text) with
  | some op => .ok op
  | none => .error (.invalidAssignment s!"unknown assignment operator {Text.quoted text}")

theorem ofSymbol_symbol (op : AssignOp) : ofSymbol op.symbol = .ok op := by
  cases op <;> rfl

end AssignOp

end FlatMachine
