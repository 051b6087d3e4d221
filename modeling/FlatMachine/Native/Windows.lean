import FlatMachine.Native.Primitive

/-!
# Window operators

The operators by which a program uses windows. They act on the host's registry; polling queues
callbacks.
-/

namespace FlatMachine.Window

/-- Takes a result and a new registry from the current one. -/
def onRegistry {α : Type} (f : Registry → Except Error (α × Registry)) : Action Workspace α :=
  Action.advance fun w => do
    let (result, windows) ← f w.host.windows
    return (result, { w with host := { w.host with windows } })

def lookRegistry {α : Type} (f : Registry → Except Error α) : Action Workspace α :=
  Action.query fun w => f w.host.windows

def changeRegistry (f : Registry → Except Error Registry) : Action Workspace Unit :=
  onRegistry fun r => do return ((), ← f r)

def str (s : Site) (i : Nat) : Action Workspace String := Workspace.look (s.str · i)

def i32 (s : Site) (i : Nat) : Action Workspace Int :=
  Workspace.look fun a => do return IntKind.i32.toInt (← s.int .i32 a i)

def outputs (s : Site) (values : List Value) : Action Workspace Slots :=
  Action.ofExcept (s.outputs values)

/-- The window operators. -/
inductive Op where
  | create | handle | shouldClose | setShouldClose | size | cursorPos | pollEvents | time
  /-- The function is one of the node's package. -/
  | setKeyCallback
  /-- The function's package is given. -/
  | setKeyCallbackEx
  | setCursorPosCallback
  | setSizeCallback
  deriving DecidableEq

namespace Op

def all : List Op :=
  [create, handle, shouldClose, setShouldClose, size, cursorPos, pollEvents, time, setKeyCallback,
   setKeyCallbackEx, setCursorPosCallback, setSizeCallback]

def name : Op → String
  | create => "create"
  | handle => "handle"
  | shouldClose => "should_close"
  | setShouldClose => "set_should_close"
  | size => "size"
  | cursorPos => "cursor_pos"
  | pollEvents => "poll_events"
  | time => "time"
  | setKeyCallback => "set_key_callback"
  | setKeyCallbackEx => "set_key_callback_ex"
  | setCursorPosCallback => "set_cursor_pos_callback"
  | setSizeCallback => "set_size_callback"

def signature : Op → Signature
  | create => .of [.str, .i32, .i32, .str] [.i32]
  | handle => .of [.str] [.i32]
  | shouldClose => .of [.str] [.bool]
  | setShouldClose => .of [.str, .bool] []
  | size => .of [.str] [.i32, .i32]
  | cursorPos => .of [.str] [.f64, .f64]
  | pollEvents => .of [] []
  | time => .of [] [.f64]
  | setKeyCallback => .of [.str, .str] []
  | setKeyCallbackEx => .of [.str, .str, .str] []
  | setCursorPosCallback => .of [.str, .str] []
  | setSizeCallback => .of [.str, .str, .str] []

/-- Sends events to the function named by the second input, in the node's package. -/
def setTarget (kind : EventKind) (s : Site) : Action Workspace Slots := do
  let window ← str s 0
  let f ← str s 1
  changeRegistry (·.setTarget window kind ⟨s.node.package, f⟩)
  return s.noOutputs

/-- Sends events to the function named by the second input, in the package named by the third. -/
def setTargetIn (kind : EventKind) (s : Site) : Action Workspace Slots := do
  let window ← str s 0
  let package ← str s 2
  let f ← str s 1
  changeRegistry (·.setTarget window kind ⟨package, f⟩)
  return s.noOutputs

def body (op : Op) (s : Site) : Action Workspace Slots :=
  match op with
  | create => do
    let name ← str s 0
    let width ← i32 s 1
    let height ← i32 s 2
    let title ← str s 3
    let handle ← onRegistry (·.create name width height title)
    outputs s [Value.i32 handle]
  | handle => do
    let name ← str s 0
    let handle ← lookRegistry (·.handle name)
    outputs s [Value.i32 handle]
  | shouldClose => do
    let name ← str s 0
    outputs s [.bool (← lookRegistry (·.shouldClose name))]
  | setShouldClose => do
    let name ← str s 0
    let value ← Workspace.look (s.bool · 1)
    changeRegistry (·.setShouldClose name value)
    return s.noOutputs
  | size => do
    let name ← str s 0
    let (width, height) ← lookRegistry (·.size name)
    outputs s [Value.i32 width, Value.i32 height]
  | cursorPos => do
    let name ← str s 0
    let (x, y) ← lookRegistry (·.cursor name)
    outputs s [.float .f64 x, .float .f64 y]
  | pollEvents => do
    modify fun w =>
      let (callbacks, windows) := w.host.windows.poll
      { w with host := { windows, callbacks := w.host.callbacks ++ callbacks } }
    return s.noOutputs
  | time => do
    outputs s [.float .f64 (← get).host.windows.time]
  | setKeyCallback => setTarget .key s
  | setKeyCallbackEx => setTargetIn .key s
  | setCursorPosCallback => setTarget .cursor s
  | setSizeCallback => setTargetIn .size s

def primitive (op : Op) : Primitive :=
  ⟨s!"{adapterName}.{op.name}", op.signature, .act op.body⟩

end Op

/-- The window operators in the order in which they are registered. -/
def primitives : List Primitive := Op.all.map (·.primitive)

end FlatMachine.Window
