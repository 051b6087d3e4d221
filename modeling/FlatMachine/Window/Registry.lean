import FlatMachine.Code.Callback
import FlatMachine.Text.Quoted
import FlatMachine.Window.Headless

/-!
# Registered windows

Programs know their windows by name, or by handles counted from 1 in order of creation; a name leads
to the window created under it last. For each kind of event a window may have a function to be
called; polling turns the waiting events into callbacks, whose first argument is the handle.
-/

namespace FlatMachine.Window

/-- A window and the functions its events go to. -/
structure Entry where
  name : String
  /-- The number of the window in the backend. -/
  window : Nat
  onKey : Option FunctionName := none
  onCursor : Option FunctionName := none
  onSize : Option FunctionName := none
  deriving Inhabited

inductive EventKind where
  | key | cursor | size
  deriving DecidableEq

def Event.kind : Event → EventKind
  | key .. => .key
  | cursor .. => .cursor
  | size .. => .size

namespace Entry

/-- The function that events of a kind go to. -/
def target? (entry : Entry) : EventKind → Option FunctionName
  | .key => entry.onKey
  | .cursor => entry.onCursor
  | .size => entry.onSize

def setTarget (entry : Entry) (kind : EventKind) (f : FunctionName) : Entry :=
  match kind with
  | .key => { entry with onKey := some f }
  | .cursor => { entry with onCursor := some f }
  | .size => { entry with onSize := some f }

end Entry

/-- A 32-bit integer argument. -/
def intArg (n : Int) : Bytes := LittleEndian.encode 4 (IntKind.ofInt .i32 n).toNat

def doubleArg (w : BitVec 64) : Bytes := LittleEndian.encode 8 w.toNat

/-- The arguments of an event's callback. -/
def Event.args (handle : Nat) : Event → List Bytes
  | key _ code scancode action mods => [(handle : Int), code, scancode, action, mods].map intArg
  | cursor _ x y => [intArg handle, doubleArg x, doubleArg y]
  | size _ width height => [(handle : Int), width, height].map intArg

/-- The windows of a program over a backend. -/
structure Registry where
  host : Headless := {}
  /-- The windows in the order of their handles. -/
  entries : List Entry := []
  /-- The handles of the names, the latest of a name first. -/
  handles : List (String × Nat) := []
  deriving Inhabited

namespace Registry

/-- Opens a window under a name and yields its handle. -/
def create (r : Registry) (name : String) (width height : Int) (title : String) :
    Except Error (Nat × Registry) := do
  let (window, host) ← r.host.create width height title
  let handle := r.entries.length + 1
  return (handle, {
    host, entries := r.entries ++ [{ name, window }], handles := (name, handle) :: r.handles })

def handle (r : Registry) (name : String) : Except Error Nat :=
  match r.handles.lookup name with
  | some handle => .ok handle
  | none => .error (failure s!"no window named {Text.quoted name}")

def entry (r : Registry) (handle : Int) : Except Error Entry :=
  let found := if 0 < handle then r.entries[handle.toNat - 1]? else none
  match found with
  | some entry => .ok entry
  | none => .error (failure s!"invalid window handle {handle}")

def name (r : Registry) (handle : Int) : Except Error String :=
  return (← r.entry handle).name

/-- The backend's window behind a name. -/
def window (r : Registry) (name : String) : Except Error Nat := do
  return (← r.entry (← r.handle name)).window

def shouldClose (r : Registry) (name : String) : Except Error Bool := do
  r.host.shouldClose (← r.window name)

def setShouldClose (r : Registry) (name : String) (value : Bool) : Except Error Registry := do
  return { r with host := ← r.host.setShouldClose (← r.window name) value }

def size (r : Registry) (name : String) : Except Error (Int × Int) := do
  r.host.size (← r.window name)

def cursor (r : Registry) (name : String) : Except Error (BitVec 64 × BitVec 64) := do
  r.host.cursor (← r.window name)

/-- The backend's clock. -/
def time (r : Registry) : BitVec 64 := r.host.time

/-- Sends the events of a kind to a function. -/
def setTarget (r : Registry) (name : String) (kind : EventKind) (f : FunctionName) :
    Except Error Registry := do
  let handle ← r.handle name
  let entry ← r.entry handle
  return { r with entries := r.entries.set (handle - 1) (entry.setTarget kind f) }

/-- The callback of an event, if its window is registered and has a function for its kind. -/
def callback? (r : Registry) (event : Event) : Option Callback := do
  let index ← r.entries.findIdx? (·.window == event.window)
  let entry ← r.entries[index]?
  let f ← entry.target? event.kind
  return ⟨f, event.args (index + 1)⟩

/-- Takes the waiting events and yields their callbacks in order. -/
def poll (r : Registry) : List Callback × Registry :=
  (r.host.events.filterMap r.callback?, { r with host := { r.host with events := [] } })

end Registry

end FlatMachine.Window
