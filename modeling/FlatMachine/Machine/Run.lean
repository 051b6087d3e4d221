import FlatMachine.Machine.Basic

/-!
# Runs

A run is a machine with tasks, the innermost first: calls in progress and callbacks still to be made.
A step executes one node or return of the innermost call, starts the next callback, or finishes a
task. Waiting callbacks are taken up after a node, all at once, unless callbacks are already being
run. An error ends the run and undoes the frames of every task.
-/

namespace FlatMachine

/-- Something to be finished. -/
inductive Task where
  /-- A call made when `base` frames were in progress: its frame begins at `fp` and its results are
  read from these slots. -/
  | call (base fp : Nat) (returns : List Operand)
  /-- Callbacks to be made in order. -/
  | callbacks (pending : List Callback)
  deriving Inhabited

/-- A machine and its tasks, the innermost first. -/
structure Run where
  machine : Machine
  tasks : List Task

/-- How a run ends: the results of its outermost call, or an error. -/
abbrev Outcome := Except Error (List Bytes)

/-- What a step leads to. -/
inductive Progress where
  | running (run : Run)
  | finished (machine : Machine) (outcome : Outcome)

namespace Machine

/-- Makes a call from outside: enters the function and yields the task. If that fails, no frame is
left behind. -/
def beginCall (f : FunctionName) (args : List Bytes) : Action Machine Task := do
  let m ← get
  let function ← Action.ofExcept (m.program.function f)
  if args.length ≠ function.params.length then
    throw (arityError f function.params.length args.length)
  let fp := m.nextFp
  match enter function fp fp args false m with
  | .ok () m' => set m'
  | .error e m' =>
    set { m' with stack := m'.stack.truncate m.depth }
    throw e
  return .call m.depth fp function.returns

/-- Takes up the waiting callbacks, if there are any and none are being run. -/
def takeCallbacks (m : Machine) : Machine × List Task :=
  if m.dispatching || m.callbacks.isEmpty then (m, [])
  else ({ m.setCallbacks [] with dispatching := true }, [.callbacks m.callbacks])

/-- Gives up tasks: their frames are dropped and callbacks can be taken up again. -/
def abandon (m : Machine) : List Task → Machine
  | [] => m
  | .call base _ _ :: rest => abandon { m with stack := m.stack.truncate base } rest
  | .callbacks _ :: rest => abandon { m with dispatching := false } rest

/-- Executes the next node or return of the innermost frame; yields whether it was a node. -/
def advance : Action Machine Bool := do
  let m ← get
  match m.stack.top? with
  | none => return false
  | some frame =>
    let f ← Action.ofExcept (m.program.function frame.function)
    match f.body[frame.pc]? with
    | none => do
      leave
      return false
    | some n => do
      (executeAt f frame.fp frame.pc n).mapError (·.tag n.location)
      return true

end Machine

namespace Run

def fail (m : Machine) (tasks : List Task) (e : Error) : Progress :=
  .finished (m.abandon tasks) (.error e)

/-- A run whose innermost task is done. -/
def resume (m : Machine) (tasks : List Task) (results : List Bytes) : Progress :=
  if tasks.isEmpty then .finished m (.ok results) else .running ⟨m, tasks⟩

def step (r : Run) : Progress :=
  match r.tasks with
  | [] => .finished r.machine (.ok [])
  | .call base fp returns :: rest =>
    if base < r.machine.depth then
      match Machine.advance r.machine with
      | .error e m => fail m r.tasks e
      | .ok executed m =>
        if executed then
          let (m, started) := m.takeCallbacks
          .running ⟨m, started ++ r.tasks⟩
        else .running ⟨m, r.tasks⟩
    else
      match r.machine.readSlots fp returns with
      | .error e => fail r.machine r.tasks e
      | .ok results => resume r.machine rest results
  | .callbacks [] :: rest => resume { r.machine with dispatching := false } rest []
  | .callbacks (c :: pending) :: rest =>
    match r.machine.program.function? c.function with
    | none => .running ⟨r.machine, .callbacks pending :: rest⟩
    | some _ =>
      match Machine.beginCall c.function c.args r.machine with
      | .error e m => fail m (.callbacks pending :: rest) e
      | .ok task m => .running ⟨m, task :: .callbacks pending :: rest⟩

/-- The end of the run, if it is reached within `fuel` steps. -/
def finish? : Nat → Run → Option (Machine × Outcome)
  | 0, _ => none
  | fuel + 1, r =>
    match r.step with
    | .running r => finish? fuel r
    | .finished m outcome => some (m, outcome)

end Run

namespace Machine

def startCall (m : Machine) (f : FunctionName) (args : List Bytes) : Progress :=
  match beginCall f args m with
  | .error e m => .finished m (.error e)
  | .ok task m => .running ⟨m, [task]⟩

/-- Starts the function that the options name. -/
def start (m : Machine) : Progress :=
  m.startCall ⟨m.options.entryPackage, m.options.entryFunction⟩ []

def startCallbacks (m : Machine) : Progress :=
  let (m, tasks) := m.takeCallbacks
  Run.resume m tasks []

end Machine

/-- The end of what was started, if it is reached within `fuel` steps. -/
def Progress.finish? (fuel : Nat) : Progress → Option (Machine × Outcome)
  | .running r => r.finish? fuel
  | .finished m outcome => some (m, outcome)

end FlatMachine
