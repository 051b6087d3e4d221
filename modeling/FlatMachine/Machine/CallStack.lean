import FlatMachine.Code.Node

/-!
# Call frames

The frames of the calls in progress lie one behind the other in the stack segment. The stack holds
them with the innermost first.
-/

namespace FlatMachine

/-- A call in progress. -/
structure Frame where
  function : FunctionName
  /-- Where the frame begins. -/
  fp : Nat
  /-- The next node of the body. -/
  pc : Nat := 0
  /-- Where the caller's frame begins; a frame entered from outside has its own `fp` here. -/
  callerFp : Nat
  /-- Bytes of the frame. -/
  size : Nat
  /-- Entered from a node, which receives the results. -/
  returnsToCaller : Bool
  deriving DecidableEq, Inhabited

/-- Where the frame ends. -/
def Frame.stop (f : Frame) : Nat := f.fp + f.size

/-- The frames, innermost first, and their largest number. -/
structure CallStack where
  frames : List Frame := []
  maxDepth : Nat
  deriving DecidableEq, Inhabited

namespace CallStack

def depth (s : CallStack) : Nat := s.frames.length

def isEmpty (s : CallStack) : Bool := s.frames.isEmpty

/-- Adds an innermost frame. -/
def push (s : CallStack) (f : Frame) : Except Error CallStack :=
  if s.depth < s.maxDepth then .ok { s with frames := f :: s.frames }
  else .error (.stackOverflow s.depth)

def top? (s : CallStack) : Option Frame := s.frames.head?

/-- Without the innermost frame. -/
def pop (s : CallStack) : CallStack := { s with frames := s.frames.tail }

/-- Moves the innermost frame to another node. -/
def setPc (s : CallStack) (pc : Nat) : CallStack :=
  { s with frames := s.frames.modifyHead fun f => { f with pc } }

/-- Drops the innermost frames until only `depth` are left. -/
def truncate (s : CallStack) (depth : Nat) : CallStack :=
  { s with frames := s.frames.drop (s.depth - depth) }

/-- Where the next frame begins. -/
def nextFp (s : CallStack) (stackStart : Nat) : Nat :=
  match s.top? with
  | some f => f.stop
  | none => stackStart

/-- The functions being executed, outermost first. -/
def backtrace (s : CallStack) : List String :=
  (s.frames.map (·.function.text)).reverse

end CallStack

end FlatMachine
