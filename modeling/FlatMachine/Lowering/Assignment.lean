import FlatMachine.Lowering.AssignOp
import FlatMachine.Native.Primitive

/-!
# Lowering of assignments

An assignment comes as two sequences of nodes: the first output of the last `target` node is what is
assigned to, and the last `value` node produces the value. Lowering joins them to one sequence that
ends in a node writing the target.
-/

namespace FlatMachine

/-- What lowering knows, and the number of fresh names given out. -/
structure Lowering where
  structs : StructTable
  primitives : PrimitiveTable
  package : String
  location : Location := {}
  freshNames : Nat := 0

/-- The operand an assignment writes. -/
def target? (target : List Node) : Option Operand :=
  target.getLast?.bind (·.outputs.head?)

def modifyLast {α : Type} (f : α → α) : List α → List α
  | [] => []
  | [a] => [f a]
  | a :: rest => a :: modifyLast f rest

def Node.modifyOutput (f : Operand → Operand) (n : Node) : Node :=
  { n with outputs := n.outputs.modifyHead f }

namespace Lowering

/-- The error of a malformed assignment. -/
def invalid {α : Type} (reason : String) : Except Error α := .error (.invalidAssignment reason)

/-- The value, or the error of a malformed assignment. -/
def require {α : Type} (found : Option α) (reason : String) : Except Error α :=
  match found with
  | some a => .ok a
  | none => invalid reason

/-- An empty node in this package at the current location. -/
def node (l : Lowering) (operator : Option Operator := none) : Node :=
  { operator, package := l.package, location := l.location }

/-- An operand in this package at the current location. -/
def operand (l : Lowering) (name : String) (ty : Ty) : Operand :=
  { name, ty, package := l.package, location := l.location, declared := true }

/-- A name no other operand of this lowering has. -/
def fresh : Action Lowering String := fun l =>
  .ok s!"$lcl{l.freshNames}" { l with freshNames := l.freshNames + 1 }

/-- The type of an operand's value, or undefined as long as that of its symbol is. -/
def knownTy (l : Lowering) (o : Operand) : Except Error Ty :=
  if o.ty.isDefined then o.valueTy l.structs else .ok .undefined

/-- The type of a node's first input, or undefined without inputs. -/
def firstInputTy (l : Lowering) (n : Node) : Except Error Ty :=
  match n.inputs with
  | [] => .ok .undefined
  | input :: _ => l.knownTy input

/-- The type of the value a node produces: that of the operator's first output, or, where that
follows the inputs, that of the first input. -/
def outputTy (l : Lowering) (n : Node) : Except Error Ty := do
  let signature ← require (n.operator.bind (·.signature?))
    s!"{n.operatorName} does not produce a value"
  let first ← require signature.outputs.head? s!"{n.operatorName} has no result"
  if first.ty.isDefined then return first.ty else l.firstInputTy n

/-- The type that `:=` declares for a value. -/
def declaredTy (l : Lowering) (value : List Node) : Except Error Ty := do
  let last ← require value.getLast? "assignment has no value"
  let output := last.outputs.head?
  if last.isStructField then
    let field ← require output "empty struct literal"
    let name ← require field.structName "struct literal field without a struct type"
    return if field.literalPointer then .pointer (.struct name) else .struct name
  else if last.isArrayElement then
    match output with
    | some { ty, .. } =>
      if ty.isDefined then return ty else arrayTy last
    | none => arrayTy last
  else if last.isBare then
    l.knownTy (← require output "value node has no output")
  else l.outputTy last
where
  /-- An array of as many elements as are initialised, of the type of the last initialiser. -/
  arrayTy (last : Node) : Except Error Ty := do
    let elem ← l.firstInputTy last
    return .array elem (UInt32.ofNat (value.filter (·.isArrayElement)).length)

/-- Declares the target ahead of an assignment by `:=`. -/
def declareTarget (l : Lowering) (target value : List Node) : Except Error (List Node) := do
  let o ← require (target? target) "assignment has no target"
  let ty ← l.declaredTy value
  let symbol := { l.operand o.name ty with shortDeclared := true }
  let mark (o : Operand) : Operand := { o with declared := true, shortDeclared := true }
  return { l.node with outputs := [symbol] } :: modifyLast (·.modifyOutput mark) target

/-- How a plain assignment changes the last value node, and the type, mode and escape of what it
writes. -/
structure Retarget where
  node : Node
  ty : Ty
  byReference : Bool
  escapes : Bool

/-- Makes a node produce its value for another target. A bare value becomes a copy. -/
def retargetNode (l : Lowering) (copy : Operator) (n : Node) : Except Error Retarget := do
  match n.operator with
  | some op =>
    let signature ← require op.signature? s!"{op.name} does not produce a value"
    if 1 < signature.outputs.length then
      invalid s!"{op.name} returns {signature.outputs.length} values; use multi_assignment"
    let first ← require signature.outputs.head? s!"{op.name} has no result"
    let ty ← if op.isIdentity then pure Ty.undefined else l.outputTy n
    return ⟨n, ty, first.byReference, first.escapes⟩
  | none =>
    let value ← require n.outputs.head? "value node has no output"
    let ty ← l.knownTy value
    let inputs := if n.isMethodCall then n.outputs ++ n.inputs else n.outputs
    return ⟨{ n with operator := some copy, inputs }, ty, value.byReference, value.escapes⟩

/-- Gives the declaration that `:=` put in front of the target the type and escape of the value. -/
def retypeDeclaration (target : Operand) (ty : Ty) (escapes : Bool) : List Node → List Node
  | [] => []
  | n :: rest =>
    let retype (symbol : Operand) : Operand :=
      if symbol.name == target.name && symbol.shortDeclared then
        { symbol with ty := if ty.isDefined then ty else symbol.ty, escapes }
      else symbol
    (if n.isDeclaration then n.modifyOutput retype else n) :: rest

/-- The plain assignment: the last value node writes the target itself. -/
def retarget (l : Lowering) (target value : List Node) : Except Error (List Node) := do
  let copy ← l.primitives.operator "identity"
  let last ← require value.getLast? "assignment has no value"
  let r ← l.retargetNode copy last
  let targetNode ← require target.getLast? "assignment has no target"
  let o ← require targetNode.outputs.head? "assignment has no target"
  let written := { o with
    ty := if o.isPlain && r.ty.isDefined then r.ty else o.ty
    byReference := r.byReference, escapes := r.escapes }
  let front := target.dropLast
  let front := if o.shortDeclared then retypeDeclaration o r.ty r.escapes front else front
  return front ++ value.dropLast ++
    [{ r.node with outputs := written :: targetNode.outputs.tail }]

/-- A compound assignment: the generic operator on the target and the value. A value that is more
than an operand is first computed into a fresh local. -/
def shortAssignment (op : AssignOp) (target value : List Node) : Action Lowering (List Node) := do
  let l ← get
  let name ← Action.ofExcept (require op.primitive? s!"{op.symbol} is not a compound operator")
  let o ← Action.ofExcept (require (target? target) "assignment has no target")
  let last ← Action.ofExcept (require value.getLast? "assignment has no value")
  let operator ← Action.ofExcept (l.primitives.operator name)
  let apply (operand : Operand) : Node :=
    { l.node operator with inputs := [o, operand], outputs := [o] }
  if last.isBare then
    let operand ← Action.ofExcept (require last.outputs.head? "value node has no output")
    return target.dropLast ++ value.dropLast ++ [apply operand]
  else
    let result ← Action.ofExcept (l.outputTy last)
    let ty ← if result.isDefined then pure result else Action.ofExcept (l.knownTy o)
    let symbol := l.operand (← fresh) ty
    return target.dropLast ++ [{ l.node with outputs := [symbol] }] ++ value.dropLast ++
      [{ last with outputs := [symbol] }, apply symbol]

/-- Makes the field initialisers write the fields of `base`. -/
def assignFields (base : Operand) : List Node → Except Error (List Node)
  | [] => .ok []
  | n :: rest => do
    if n.isStructField then
      let output ← require n.outputs.head? "struct literal field without output"
      let field : Operand := { base with
        byReference := false, escapes := false, literalPointer := false
        structName := output.structName
        chain := base.chain ++ [.field { name := output.name }] }
      return n.modifyOutput (fun _ => field) :: (← assignFields base rest)
    else return n :: (← assignFields base rest)

/-- The assignment of a struct literal. For a literal by pointer the fields are written through a
fresh pointer to a new object, which is then copied to the target. -/
def structLiteralAssignment (target value : List Node) : Action Lowering (List Node) := do
  let l ← get
  let o ← Action.ofExcept (require (target? target) "assignment has no target")
  let last ← Action.ofExcept
    (require (value.getLast?.bind (·.outputs.head?)) "empty struct literal")
  if last.literalPointer then
    let struct ← Action.ofExcept
      (require last.structName "struct literal field without a struct type")
    let pointer := { l.operand (← fresh) (.pointer (.struct struct)) with
      literalPointer := true, escapes := true }
    let fields ← Action.ofExcept (assignFields pointer value)
    let copy ← Action.ofExcept (l.primitives.operator "identity")
    return [{ l.node with outputs := [pointer] }] ++ fields ++
      [{ l.node copy with inputs := [pointer], outputs := [{ o with byReference := true }] }]
  else Action.ofExcept (assignFields o value)

/-- Makes the element initialisers write the elements of `base` from number `i` on. -/
def assignElements (base : Operand) (i : Nat) : List Node → Except Error (List Node)
  | [] => .ok []
  | n :: rest => do
    if n.isArrayElement then
      if n.outputs.isEmpty then invalid "array literal element without output"
      let element : Operand := { base with chain := base.chain ++ [.index (.const i)] }
      return n.modifyOutput (fun _ => element) :: (← assignElements base (i + 1) rest)
    else return n :: (← assignElements base i rest)

def arrayLiteralAssignment (target value : List Node) : Except Error (List Node) := do
  let o ← require (target? target) "assignment has no target"
  assignElements o 0 value

def assignment (target : List Node) (op : AssignOp) (value : List Node) :
    Action Lowering (List Node) := do
  let l ← get
  let _ ← Action.ofExcept (require (target? target) "assignment has no target")
  let last ← Action.ofExcept (require value.getLast? "assignment has no value")
  if op.isCompound then shortAssignment op target value
  else
    let target ← if op = .define then Action.ofExcept (l.declareTarget target value)
      else pure target
    if last.isStructField then
      return target.dropLast ++ (← structLiteralAssignment target value)
    else if last.isArrayElement then
      return target.dropLast ++ (← Action.ofExcept (arrayLiteralAssignment target value))
    else Action.ofExcept (l.retarget target value)

/-- The first output of every node. -/
def targets? (nodes : List Node) : Option (List Operand) := nodes.mapM (·.outputs.head?)

/-- Lowers an assignment of all results of the last value node, one to each target. -/
def multiAssignment (l : Lowering) (target : List Node) (op : AssignOp) (value : List Node) :
    Except Error (List Node) := do
  if op.isCompound then invalid s!"{op.symbol} cannot assign multiple values"
  let targets ← require (targets? target) "assignment target without output"
  let last ← require value.getLast? "assignment has no value"
  let signature ← require (last.operator.bind (·.signature?)) "multi-value assignment needs a call"
  if targets.length ≠ signature.outputs.length then
    invalid s!"{targets.length} targets for {signature.outputs.length} values"
  if op = .define then
    let fallback ← l.firstInputTy last
    let declare (o : Operand) (p : Param) : Node :=
      let ty := if p.ty.isDefined then p.ty else fallback
      { l.node with outputs := [{ l.operand o.name ty with shortDeclared := true }] }
    let marked := targets.map fun o => { o with declared := true, shortDeclared := true }
    return List.zipWith declare targets signature.outputs ++ value.dropLast ++
      [{ last with outputs := marked }]
  else return value.dropLast ++ [{ last with outputs := targets }]

end Lowering

end FlatMachine
