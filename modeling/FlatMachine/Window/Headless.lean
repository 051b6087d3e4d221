import FlatMachine.Error
import FlatMachine.Word.Float

/-!
# Windows without a display

A backend that keeps its windows as plain records. Events are scripted: they wait in order until they
are polled. Windows are numbered from 1.
-/

namespace FlatMachine.Window

/-- The name under which errors of window operations are reported. -/
def adapterName : String := "window"

def failure (message : String) : Error := .adapter adapterName message

/-- What happened to a window of the backend. -/
inductive Event where
  | key (window : Nat) (code scancode action mods : Int)
  /-- The cursor moved; the position is a pair of doubles. -/
  | cursor (window : Nat) (x y : BitVec 64)
  | size (window : Nat) (width height : Int)
  deriving DecidableEq

def Event.window : Event → Nat
  | key window .. | cursor window .. | size window .. => window

/-- A window of the backend. -/
structure Pane where
  title : String
  width : Int
  height : Int
  cursor : BitVec 64 × BitVec 64 := (0, 0)
  shouldClose : Bool := false
  deriving Inhabited

/-- The backend: windows in order of creation, events still to be polled, and a clock in seconds. -/
structure Headless where
  panes : List Pane := []
  events : List Event := []
  time : BitVec 64 := 0
  deriving Inhabited

namespace Headless

def pane (h : Headless) (window : Nat) : Except Error Pane :=
  match window with
  | 0 => .error (failure s!"unknown headless window {window}")
  | index + 1 =>
    match h.panes[index]? with
    | some pane => .ok pane
    | none => .error (failure s!"unknown headless window {window}")

def modifyPane (h : Headless) (window : Nat) (f : Pane → Pane) : Except Error Headless := do
  let pane ← h.pane window
  return { h with panes := h.panes.set (window - 1) (f pane) }

/-- Opens a window and yields its number. -/
def create (h : Headless) (width height : Int) (title : String) : Except Error (Nat × Headless) :=
  if width ≤ 0 ∨ height ≤ 0 then .error (failure s!"invalid window size {width}x{height}")
  else .ok (h.panes.length + 1, { h with panes := h.panes ++ [{ title, width, height }] })

def shouldClose (h : Headless) (window : Nat) : Except Error Bool :=
  return (← h.pane window).shouldClose

def setShouldClose (h : Headless) (window : Nat) (value : Bool) : Except Error Headless :=
  h.modifyPane window fun pane => { pane with shouldClose := value }

def size (h : Headless) (window : Nat) : Except Error (Int × Int) := do
  let pane ← h.pane window
  return (pane.width, pane.height)

def cursor (h : Headless) (window : Nat) : Except Error (BitVec 64 × BitVec 64) :=
  return (← h.pane window).cursor

def title (h : Headless) (window : Nat) : Except Error String :=
  return (← h.pane window).title

/-- Puts an event behind the waiting ones. -/
def push (h : Headless) (event : Event) : Headless := { h with events := h.events ++ [event] }

/-- A key event, of any window. -/
def key (h : Headless) (window : Nat) (code scancode action mods : Int) : Headless :=
  h.push (.key window code scancode action mods)

def moveCursor (h : Headless) (window : Nat) (x y : BitVec 64) : Except Error Headless := do
  let h ← h.modifyPane window fun pane => { pane with cursor := (x, y) }
  return h.push (.cursor window x y)

/-- Gives a window another size. -/
def resize (h : Headless) (window : Nat) (width height : Int) : Except Error Headless := do
  let h ← h.modifyPane window fun pane => { pane with width, height }
  return h.push (.size window width height)

def requestClose (h : Headless) (window : Nat) : Except Error Headless :=
  h.setShouldClose window true

def advance (h : Headless) (seconds : BitVec 64) : Headless :=
  { h with time := FloatKind.arithmetic .f64 .add h.time seconds }

end Headless

end FlatMachine.Window
