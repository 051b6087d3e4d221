import FlatMachine.Code.Program
import FlatMachine.Machine.CallStack
import FlatMachine.Native.Primitive
import FlatMachine.Options

/-!
# Machines

A machine runs one program. This module holds what a single node, a call and a return do; `Run` puts
them together.
-/

namespace FlatMachine

/-- A program in execution. -/
structure Machine where
  program : Program
  primitives : PrimitiveTable
  options : Options
  /-- Memory, random generator and host. -/
  work : Workspace
  stack : CallStack
  /-- Callbacks are being run. -/
  dispatching : Bool := false

namespace Machine

/-- A machine whose arena is laid out as the options say. -/
def create (program : Program) (primitives : PrimitiveTable) (options : Options)
    (host : Host := {}) (overflow : Overflow := .stops) : Except Error Machine := do
  options.validateFor program.data.length overflow
  let arena ← Arena.withLayout program.data options.stackSize options.initialHeapSize
    options.maxMemory overflow
  return {
    program, primitives, options
    work := { arena, random := .ofSeed (options.rngSeed.getD 0), host }
    stack := { maxDepth := options.maxCallDepth } }

def arena (m : Machine) : Arena := m.work.arena

/-- The number of frames. -/
def depth (m : Machine) : Nat := m.stack.depth

/-- Where the next frame begins. -/
def nextFp (m : Machine) : Nat := m.stack.nextFp m.arena.stackStart

/-- The callbacks waiting to be run. -/
def callbacks (m : Machine) : List Callback := m.work.host.callbacks

def setCallbacks (m : Machine) (callbacks : List Callback) : Machine :=
  { m with work := { m.work with host := { m.work.host with callbacks } } }

def setPc (m : Machine) (pc : Nat) : Machine := { m with stack := m.stack.setPc pc }

/-- The place an operand leads to in the frame at `fp`. -/
def place (m : Machine) (fp : Nat) (o : Operand) : Except Error Place :=
  o.place m.program.structs m.arena fp

/-- The value of an operand in the frame at `fp`. -/
def value (m : Machine) (fp : Nat) (o : Operand) : Except Error Value :=
  o.value m.program.structs m.arena fp

def onWork {α : Type} (act : Action Workspace α) : Action Machine α :=
  act.within work fun work m => { m with work }

def onArena {α : Type} (act : Action Arena α) : Action Machine α :=
  onWork (Workspace.onArena act)

/-- Zeroes the place of a declared operand. The target of an escaping pointer is allocated. -/
def declare (structs : StructTable) (fp : Nat) (o : Operand) : Action Arena Unit := do
  let place ← Action.query (o.place structs · fp)
  Action.update (·.zero place.offset place.size)
  match o.escapes, place.ty with
  | true, .pointer target =>
    let size ← Action.ofExcept (target.size structs)
    let object ← Action.advance (·.allocate size)
    Action.update (·.writeHandle place.offset object)
  | _, _ => return ()

/-- Zeroes the places of declared operands in order. -/
def declareAll (structs : StructTable) (fp : Nat) : List Operand → Action Arena Unit
  | [] => return ()
  | o :: rest => do
    declare structs fp o
    declareAll structs fp rest

/-- Copies the bytes of one operand to the place of another. -/
def move (structs : StructTable) (fp : Nat) (input output : Operand) (a : Arena) :
    Except Error Arena := do
  let bytes ← input.bytes structs a fp
  let target ← output.place structs a fp
  if bytes.length = target.size then a.write target.offset bytes
  else .error (.typeMismatch "move" s!"{target.size} bytes for {target.ty.text}"
    (toString bytes.length))

def executeBare (structs : StructTable) (fp : Nat) (n : Node) : Action Arena Unit :=
  match n.inputs, n.outputs with
  | [], outputs => declareAll structs fp outputs
  | [input], [output] => Action.update (move structs fp input output)
  | inputs, outputs =>
    Action.ofExcept (.error (.invalidArguments "move"
      s!"{inputs.length} inputs and {outputs.length} outputs"))

/-- Executes a declaration, a move or a primitive in the frame at `fp`. -/
def executeNode (fp : Nat) (n : Node) : Action Machine Unit := do
  let m ← get
  match n.operator with
  | none => onArena (executeBare m.program.structs fp n)
  | some (.native code _ _) =>
    let p ← Action.ofExcept (m.primitives.get code)
    onWork (p.execute ⟨m.program.structs, fp, n⟩)
  | some op =>
    throw (.invalidArguments op.name "calls and jumps only run inside a frame")

/-- Stores the arguments of a call in the parameters. -/
def storeArgs (structs : StructTable) (fp : Nat) :
    List Operand → List Bytes → Action Arena Unit
  | param :: params, bytes :: args => do
    let place ← Action.query (param.place structs · fp)
    if bytes.length ≠ place.size then
      throw (.typeMismatch s!"argument {param.name}" s!"{place.size} bytes"
        (toString bytes.length))
    Action.update (·.write place.offset bytes)
    storeArgs structs fp params args
  | _, _ => return ()

/-- Pushes a zeroed frame for a function and stores the arguments. -/
def enter (f : Function) (fp callerFp : Nat) (args : List Bytes) (returnsToCaller : Bool) :
    Action Machine Unit := do
  let m ← get
  if m.arena.stackEnd < fp + f.frameSize then throw (.stackOverflow m.depth)
  Action.update fun m => return { m with stack := ← m.stack.push {
    function := f.reference, fp, callerFp, size := f.frameSize, returnsToCaller } }
  onArena (Action.update (·.zero fp f.frameSize))
  onArena (storeArgs m.program.structs fp f.params args)

/-- The number of arguments of a call is wrong. -/
def arityError (f : FunctionName) (expected got : Nat) : Error :=
  .invalidArguments f.text s!"expected {expected} arguments, got {got}"

/-- Enters the callee of a call node that is executed in the frame at `fp`. -/
def callNode (fp : Nat) (n : Node) (callee : FunctionName) : Action Machine Unit := do
  let m ← get
  let f ← Action.ofExcept (m.program.function callee)
  if n.inputs.length ≠ f.params.length then
    throw (arityError callee f.params.length n.inputs.length)
  let args ← Action.ofExcept (n.inputs.mapM (·.bytes m.program.structs m.arena fp))
  enter f m.nextFp fp args true

/-- The bytes of result slots in the frame at `fp`. -/
def readSlots (m : Machine) (fp : Nat) (slots : List Operand) : Except Error (List Bytes) :=
  slots.mapM fun o => do
    let place ← m.place fp o
    m.arena.read place.offset place.size

/-- Where results go: the places of a call node's outputs, checked against the results' widths. -/
def resultWrites (m : Machine) (callee : Function) (fp : Nat) :
    List Operand → List Bytes → Except Error (List (Nat × Bytes))
  | o :: os, bytes :: results => do
    let place ← m.place fp o
    if bytes.length ≠ place.size then
      throw (.typeMismatch s!"result of {callee.reference.text}" s!"{place.size} bytes"
        (toString bytes.length))
    return (place.offset, bytes) :: (← m.resultWrites callee fp os results)
  | _, _ => .ok []

/-- Copies the results of a call to the outputs of the call node. -/
def storeResults (calleeFp : Nat) (callee : Function) (callerFp : Nat) (n : Node) :
    Action Machine Unit := do
  let writes ← Action.query fun m => do
    let results ← m.readSlots calleeFp callee.returns
    m.resultWrites callee callerFp n.outputs results
  onArena (writeAll writes)

/-- Pops the innermost frame. If a call node entered it, the node receives the results and the
caller goes on behind the node. -/
def leave : Action Machine Unit := do
  let m ← get
  match m.stack.top? with
  | none => return ()
  | some frame =>
    set { m with stack := m.stack.pop }
    if frame.returnsToCaller then
      let callee ← Action.ofExcept (m.program.function frame.function)
      match m.stack.pop.top? with
      | none => return ()
      | some caller =>
        let f ← Action.ofExcept (m.program.function caller.function)
        match f.body[caller.pc]? with
        | none =>
          throw (.invalidArguments f.reference.text s!"return into missing node {caller.pc}")
        | some n =>
          (storeResults frame.fp callee caller.fp n).mapError (·.tag n.location)
          modify (·.setPc (caller.pc + 1))

def jumpTarget (m : Machine) (fp pc : Nat) (n : Node) (onTrue onFalse : Int) (length : Nat) :
    Except Error Nat := do
  let taken ← match n.inputs with
    | [] => pure true
    | condition :: _ =>
      match ← m.value fp condition with
      | .bool b => pure b
      | other => throw (.typeMismatch "jmp" "bool" other.typeName)
  let target := (pc : Int) + 1 + (if taken then onTrue else onFalse)
  if target < 0 ∨ (length : Int) < target then
    throw (.invalidArguments "jmp" s!"target {target} outside body of {length} nodes")
  else return target.toNat

/-- Executes the node at `pc` of a function in the frame at `fp`. -/
def executeAt (f : Function) (fp pc : Nat) (n : Node) : Action Machine Unit :=
  match n.operator with
  | some (.call callee _) => callNode fp n callee
  | some (.jump onTrue onFalse) => do
    let target ← Action.query (·.jumpTarget fp pc n onTrue onFalse f.body.length)
    modify (·.setPc target)
  | _ => do
    executeNode fp n
    modify (·.setPc (pc + 1))

end Machine

end FlatMachine
