import FlatMachine.Code.Operand

/-!
# Nodes

A node applies an operator to input operands and writes output operands. A node without operator
moves its one input to its one output, or, without inputs, declares its outputs.
-/

namespace FlatMachine

structure FunctionName where
  package : String
  name : String
  deriving DecidableEq, Inhabited

/-- `package.name`. -/
def FunctionName.text (f : FunctionName) : String := s!"{f.package}.{f.name}"

/-- The declared shape of an operator's input or output. -/
structure Param where
  /-- The type; when undefined any type, as an output that of the first input. -/
  ty : Ty
  byReference : Bool := false
  /-- The result escapes to the heap. -/
  escapes : Bool := false
  /-- The types that an input of undefined type is restricted to; none for no restriction. -/
  oneOf : List Ty := []
  /-- The input has the type of the first input. -/
  sameAsFirst : Bool := false
  deriving DecidableEq, Inhabited

namespace Param

def of (ty : Ty) : Param := { ty }

/-- Any type. -/
def any : Param := of .undefined

/-- The type satisfies the declared type, or the restriction of an undefined one. -/
def accepts (p : Param) (ty : Ty) : Bool :=
  if p.ty.isDefined then p.ty == ty else p.oneOf.isEmpty || p.oneOf.contains ty

end Param

/-- The inputs and outputs of an operator. -/
structure Signature where
  inputs : List Param := []
  outputs : List Param := []
  deriving DecidableEq, Inhabited

/-- The signature with plain inputs and outputs of these types. -/
def Signature.of (inputs outputs : List Ty) : Signature :=
  ⟨inputs.map Param.of, outputs.map Param.of⟩

/-- What a node does. -/
inductive Operator where
  /-- The operator with that code in the table of primitives. -/
  | native (code : Nat) (name : String) (signature : Signature)
  | call (function : FunctionName) (signature : Signature)
  /-- Skips that many nodes past the next one: the first count when the condition holds or there is
  none, the second otherwise. -/
  | jump (onTrue onFalse : Int)
  deriving DecidableEq, Inhabited

namespace Operator

def signature? : Operator → Option Signature
  | native _ _ signature | call _ signature => some signature
  | jump _ _ => none

def name : Operator → String
  | native _ name _ => name
  | call function _ => function.text
  | jump _ _ => "jmp"

/-- The plain copy. -/
def isIdentity : Operator → Bool
  | native _ name _ => name == "identity"
  | _ => false

end Operator

/-- One step of a function's body. -/
structure Node where
  operator : Option Operator := none
  inputs : List Operand := []
  outputs : List Operand := []
  package : String := ""
  location : Location := {}
  /-- A call whose receiver stands among the outputs. -/
  isMethodCall : Bool := false
  /-- Initialises an element of an array literal. -/
  isArrayElement : Bool := false
  /-- Initialises a field of a struct literal. -/
  isStructField : Bool := false
  deriving Inhabited

namespace Node

/-- A value or a target: one output. -/
def value (o : Operand) : Node := { outputs := [o] }

/-- Has no operator. -/
def isBare (n : Node) : Bool := n.operator.isNone

def isDeclaration (n : Node) : Bool := n.isBare && n.inputs.isEmpty

def operatorName (n : Node) : String :=
  match n.operator with
  | some op => op.name
  | none => "move"

end Node

end FlatMachine
