import FlatMachine.Code.Program

/-!
# Frame layout

A function's parameters, result slots and locals get places in its frame one after another, in the
order in which their names are first declared. Every operand of the body is bound to a slot or a
global, its field accesses are linked to the struct layouts, and every node is checked against the
signature of its operator.
-/

namespace FlatMachine

/-- A named place in a frame. -/
structure Slot where
  name : String
  offset : Nat
  ty : Ty
  deriving DecidableEq, Inhabited

/-- The slots of a function declared so far, the latest first. -/
structure FrameLayout where
  package : String
  draft : Draft
  slots : List Slot := []
  /-- Bytes of the frame. -/
  size : Nat := 0

namespace FrameLayout

def structs (l : FrameLayout) : StructTable := l.draft.structs

def slot? (l : FrameLayout) (name : String) : Option Slot := l.slots.find? (·.name == name)

/-- Reserves a slot for a name. A name declared again with the same type keeps its slot. -/
def declare (l : FrameLayout) (name : String) (ty : Ty) : Except Error (Nat × FrameLayout) :=
  if !ty.isDefined then
    .error (.typeMismatch s!"declaration of {name}" "a concrete type" ty.text)
  else match l.slot? name with
    | some slot =>
      if slot.ty = ty then .ok (slot.offset, l)
      else .error (.typeMismatch s!"redeclaration of {name}" slot.ty.text ty.text)
    | none => do
      let size ← ty.size l.structs
      return (l.size, { l with slots := ⟨name, l.size, ty⟩ :: l.slots, size := l.size + size })

/-- Declares parameters or results and yields their operands. -/
def declareBound (l : FrameLayout) :
    List (String × Ty) → Except Error (List Operand × FrameLayout)
  | [] => .ok ([], l)
  | (name, ty) :: rest => do
    let (offset, l) ← l.declare name ty
    let o : Operand :=
      { name, ty, storage := .frame offset, package := l.package, declared := true }
    let (os, l) ← l.declareBound rest
    return (o :: os, l)

def declareAll (l : FrameLayout) : List (String × Ty) → Except Error FrameLayout
  | [] => .ok l
  | (name, ty) :: rest => do
    let (_, l) ← l.declare name ty
    l.declareAll rest

/-- The names that a node declares: the plain unbound outputs of a declaration. -/
def declarations (n : Node) : List (String × Ty) :=
  if n.isDeclaration then
    (n.outputs.filter fun o => o.isPlain && o.storage == .unassigned).map fun o => (o.name, o.ty)
  else []

/-- The storage and type of the symbol that an unbound operand names. -/
def symbol (l : FrameLayout) (name package : String) : Except Error (Storage × Ty) :=
  match l.slot? name with
  | some slot => .ok (.frame slot.offset, slot.ty)
  | none =>
    match l.draft.global? (if package = "" then l.package else package) name with
    | some o => .ok (o.storage, o.ty)
    | none => .error (.unresolvedSymbol name)

/-- The struct whose field is accessed in a value of a type. -/
def structOf (ty : Ty) (field : String) : Except Error String :=
  match ty with
  | .struct name => .ok name
  | .pointer (.struct name) => .ok name
  | .pointer other => .error (.typeMismatch s!"field access .{field}" "a struct" other.text)
  | other => .error (.typeMismatch s!"field access .{field}" "a struct" other.text)

mutual

/-- Binds an operand to its slot or global and links its chain. -/
def bind (l : FrameLayout) : Operand → Except Error Operand
  | { name, ty, storage, chain, byReference, escapes, literalPointer, structName, declared,
      shortDeclared, location, package } => do
    let (storage, ty) ← if storage == .unassigned then do
        let (storage, known) ← l.symbol name package
        if ty.isDefined && ty != known then
          throw (.typeMismatch s!"use of {name}" known.text ty.text)
        pure (storage, known)
      else pure (storage, ty)
    let chain ← l.linkChain ty chain
    return { name, ty, storage, chain, byReference, escapes, literalPointer, structName, declared,
             shortDeclared, location, package := if package = "" then l.package else package }

/-- Links the accesses of a chain that starts at a type. -/
def linkChain (l : FrameLayout) (ty : Ty) : List Access → Except Error (List Access)
  | [] => .ok []
  | access :: rest => do
    let access ← l.linkAccess ty access
    return access :: (← l.linkChain (← ty.step l.structs access) rest)

/-- Fills in the field of a field access and binds the operand of an index. -/
def linkAccess (l : FrameLayout) (ty : Ty) : Access → Except Error Access
  | .pointer => .ok .pointer
  | .index source => return .index (← l.bindIndex source)
  | .field ref => do
    let struct ← structOf ty ref.name
    let field ← l.structs.field struct ref.name
    return .field { name := ref.name, offset := field.offset, ty := field.ty }

/-- Binds the operand of an index, which has to be an integer. -/
def bindIndex (l : FrameLayout) : Index → Except Error Index
  | .const n => .ok (.const n)
  | .operand source => do
    let bound ← l.bind source
    let ty ← bound.valueTy l.structs
    if ty.isInteger then return .operand bound
    else .error (.typeMismatch "index" "an integer" ty.text)

end

def bindNode (l : FrameLayout) (n : Node) : Except Error Node := do
  let inputs ← n.inputs.mapM l.bind
  let outputs ← n.outputs.mapM l.bind
  return { n with inputs, outputs }

def inputTy (l : FrameLayout) (o : Operand) : Except Error Ty := do
  let ty ← o.valueTy l.structs
  return if o.byReference then .pointer ty else ty

/-- The number of inputs or outputs is wrong. -/
def arity (op : Operator) (what : String) (expected got : Nat) : Error :=
  .invalidArguments op.name s!"expected {expected} {what}, got {got}"

/-- Checks the inputs from number `i` on; `first` is the type of the first one, once known. Yields
the type of the first input. -/
def checkInputs (l : FrameLayout) (op : Operator) (i : Nat) (first : Option Ty) :
    List Operand → List Param → Except Error (Option Ty)
  | o :: os, p :: ps => do
    let ty ← l.inputTy o
    if !p.accepts ty then
      let expected := if p.ty.isDefined then p.ty.text
        else "one of " ++ ", ".intercalate (p.oneOf.map (·.text))
      throw (.typeMismatch s!"{op.name} input {i}" expected ty.text)
    match first with
    | none => l.checkInputs op (i + 1) (some ty) os ps
    | some head =>
      if p.sameAsFirst && head != ty then
        throw (.typeMismatch s!"{op.name} input {i}" head.text ty.text)
      l.checkInputs op (i + 1) first os ps
  | _, _ => .ok first

/-- Checks the outputs from number `i` on; an output of undefined type has that of the first
input. -/
def checkOutputs (l : FrameLayout) (op : Operator) (i : Nat) (first : Option Ty) :
    List Operand → List Param → Except Error Unit
  | o :: os, p :: ps => do
    match if p.ty.isDefined then some p.ty else first with
    | none => l.checkOutputs op (i + 1) first os ps
    | some expected =>
      let ty ← o.valueTy l.structs
      if ty != expected then
        throw (.typeMismatch s!"{op.name} output {i}" expected.text ty.text)
      l.checkOutputs op (i + 1) first os ps
  | _, _ => .ok ()

/-- Checks the operands of a node against a signature. -/
def checkSignature (l : FrameLayout) (op : Operator) (signature : Signature) (n : Node) :
    Except Error Unit := do
  if n.inputs.length ≠ signature.inputs.length then
    throw (arity op "inputs" signature.inputs.length n.inputs.length)
  let first ← l.checkInputs op 0 none n.inputs signature.inputs
  l.checkOutputs op 0 first n.outputs signature.outputs

/-- Checks that a jump from node `pc` stays within the body or leaves it at its end. -/
def checkJump (pc length : Nat) (skip : Int) : Except Error Unit :=
  let target := (pc : Int) + 1 + skip
  if target < 0 ∨ (length : Int) < target then
    .error (.invalidArguments "jmp" s!"target {target} outside body of {length} nodes")
  else .ok ()

def checkBare (l : FrameLayout) (n : Node) : Except Error Unit :=
  match n.inputs, n.outputs with
  | [], _ => .ok ()
  | [input], [output] => do
    let source ← l.inputTy input
    let target ← output.valueTy l.structs
    if source = target then return ()
    else .error (.typeMismatch "move" target.text source.text)
  | inputs, outputs =>
    .error (.invalidArguments "move" s!"{inputs.length} inputs and {outputs.length} outputs")

/-- Checks the bound node at `pc` of a body. -/
def checkNode (l : FrameLayout) (pc length : Nat) (n : Node) : Except Error Unit := do
  match n.operator with
  | none => l.checkBare n
  | some (.jump onTrue onFalse) =>
    match n.inputs with
    | [] => pure ()
    | [condition] =>
      let ty ← l.inputTy condition
      if ty ≠ .bool then throw (.typeMismatch "jmp" Ty.bool.text ty.text)
    | inputs => throw (.invalidArguments "jmp" s!"expected at most 1 input, got {inputs.length}")
    checkJump pc length onTrue
    checkJump pc length onFalse
  | some (op@(.native _ _ signature)) =>
    if n.outputs.length ≠ signature.outputs.length then
      throw (arity op "outputs" signature.outputs.length n.outputs.length)
    l.checkSignature op signature n
  | some (op@(.call _ signature)) =>
    if signature.outputs.length < n.outputs.length then
      throw (arity op "outputs" signature.outputs.length n.outputs.length)
    l.checkSignature op signature n

/-- Binds and checks a node; an error is located at the node. -/
def finishNode (l : FrameLayout) (pc length : Nat) (n : Node) : Except Error Node :=
  let attempt := do
    let n ← l.bindNode { n with package := if n.package = "" then l.package else n.package }
    l.checkNode pc length n
    return n
  attempt.mapError (·.tag n.location)

/-- Binds and checks the nodes of a body from `pc` on. -/
def finishBody (l : FrameLayout) (length : Nat) : Nat → List Node → Except Error (List Node)
  | _, [] => .ok []
  | pc, n :: rest => do
    let n ← l.finishNode pc length n
    return n :: (← l.finishBody length (pc + 1) rest)

end FrameLayout

/-- A function before its layout. -/
structure FunctionDraft where
  package : String
  name : String
  params : List (String × Ty) := []
  returns : List (String × Ty) := []
  /-- Locals declared up front; declarations in the body need not be listed. -/
  locals : List (String × Ty) := []
  body : List Node := []
  deriving Inhabited

namespace FunctionDraft

def signature (f : FunctionDraft) : Signature :=
  .of (f.params.map (·.2)) (f.returns.map (·.2))

/-- Lays out the frame and checks the body. -/
def layout (f : FunctionDraft) (d : Draft) : Except Error Function := do
  let l : FrameLayout := { package := f.package, draft := d }
  let (params, l) ← l.declareBound f.params
  let (returns, l) ← l.declareBound f.returns
  let l ← l.declareAll (f.locals ++ f.body.flatMap FrameLayout.declarations)
  let body ← l.finishBody f.body.length 0 f.body
  return { package := f.package, name := f.name, params, returns, body, frameSize := l.size }

end FunctionDraft

end FlatMachine
