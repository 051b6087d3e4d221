import FlatMachine.Proofs.CallbackQueue
import FlatMachine.Proofs.Neutrality

/-!
# Callbacks are delivered once and in order

What happens to callbacks in a run is read off a log of it. Anyone who has the queue may append to
it at any time, before the run, between two steps of it or while a node is executed. The ledger of a
run balances: what was appended is what was taken, in that order, and what still waits. What was
taken has been called or passed over, in that order and one after the other, or the tasks of the run
hold it.
-/

namespace FlatMachine

open FlatMachine.Action

/-- Something that happens to callbacks in a run: one is appended to the queue, taken out of it,
passed over as the program has no such function, or called; or the innermost call of one has
returned. -/
inductive CallbackEvent where
  | pushed (c : Callback)
  | taken (c : Callback)
  | skipped (c : Callback)
  | begun (c : Callback)
  | ended
  deriving DecidableEq

namespace CallbackEvent

def pushed? : CallbackEvent → Option Callback
  | .pushed c => some c
  | _ => none

def taken? : CallbackEvent → Option Callback
  | .taken c => some c
  | _ => none

/-- The event is about what became of a callback that was taken. -/
def isHandling : CallbackEvent → Bool
  | .pushed _ | .taken _ => false
  | .skipped _ | .begun _ | .ended => true

def pushes (log : List CallbackEvent) : List Callback := log.filterMap pushed?

def takes (log : List CallbackEvent) : List Callback := log.filterMap taken?

def handling (log : List CallbackEvent) : List CallbackEvent := log.filter isHandling

variable (log events : List CallbackEvent) (cs : List Callback)

@[simp] theorem pushes_append : pushes (log ++ events) = pushes log ++ pushes events :=
  List.filterMap_append

@[simp] theorem takes_append : takes (log ++ events) = takes log ++ takes events :=
  List.filterMap_append

@[simp] theorem handling_append : handling (log ++ events) = handling log ++ handling events :=
  List.filter_append _ _

@[simp] theorem pushes_pushed : pushes (cs.map pushed) = cs := by
  simp [pushes, List.filterMap_map, Function.comp_def, pushed?]

@[simp] theorem takes_pushed : takes (cs.map pushed) = [] := by
  simp [takes, taken?]

@[simp] theorem handling_pushed : handling (cs.map pushed) = [] := by
  simp [handling, isHandling]

@[simp] theorem pushes_taken : pushes (cs.map taken) = [] := by
  simp [pushes, pushed?]

@[simp] theorem takes_taken : takes (cs.map taken) = cs := by
  simp [takes, List.filterMap_map, Function.comp_def, taken?]

@[simp] theorem handling_taken : handling (cs.map taken) = [] := by
  simp [handling, isHandling]

end CallbackEvent

open CallbackEvent

/-- What becomes of a callback that is taken. -/
def Program.handling (p : Program) (c : Callback) : List CallbackEvent :=
  if (p.function? c.function).isSome then [.begun c, .ended] else [.skipped c]

namespace Machine

variable {m m' : Machine} {name : FunctionName} {args : List Bytes} {task : Task}

def dispatched (m : Machine) : List Callback := if m.dispatching then [] else m.callbacks

/-- Beginning a call changes the frames and the memory only. -/
theorem beginCall_ok (h : beginCall name args m = .ok task m') :
    (∃ base fp returns, task = .call base fp returns) ∧ m'.program = m.program ∧
      m'.primitives = m.primitives ∧ m'.dispatching = m.dispatching ∧
      m'.callbacks = m.callbacks := by
  have hhost := (keepsHost_beginCall name args m).value h
  obtain ⟨function, -, rfl, -, -, _, rfl, -⟩ := ends_beginCall.value h
  exact ⟨⟨_, _, _, rfl⟩, rfl, rfl, rfl, congrArg Host.callbacks hhost⟩

end Machine

namespace Run

variable {m m' : Machine} {base fp : Nat} {returns : List Operand} {rest tasks : List Task}
  {log events : List CallbackEvent} {c : Callback} {pending : List Callback} {r s t : Run}

/-- A step of a run, and what happens to callbacks in it. -/
inductive Emits : Run → List CallbackEvent → Run → Prop where
  /-- Between two steps of the machine, others append to the queue. -/
  | others (m : Machine) (tasks : List Task) (cs : List Callback) :
      Emits ⟨m, tasks⟩ (cs.map pushed) ⟨m.setCallbacks (m.callbacks ++ cs), tasks⟩
  /-- A node is executed. It appends `own` callbacks to the queue, among those that others append
  meanwhile, and then waiting callbacks are taken up. -/
  | executed {m m' n : Machine} {base fp : Nat} {returns : List Operand} {rest : List Task}
      (own cs : List Callback) (hbase : base < m.depth) (h : Machine.advance m = .ok true m')
      (hown : m'.callbacks = m.callbacks ++ own) (hcs : own.Sublist cs)
      (hn : n = m'.setCallbacks (m.callbacks ++ cs)) :
      Emits ⟨m, .call base fp returns :: rest⟩ (cs.map pushed ++ n.dispatched.map taken)
        ⟨n.takeCallbacks.1, n.takeCallbacks.2 ++ .call base fp returns :: rest⟩
  | returned {m m' : Machine} {base fp : Nat} {returns : List Operand} {rest : List Task}
      (hbase : base < m.depth) (h : Machine.advance m = .ok false m') :
      Emits ⟨m, .call base fp returns :: rest⟩ [] ⟨m', .call base fp returns :: rest⟩
  | ended {m : Machine} {base fp : Nat} {returns : List Operand} {rest : List Task}
      {results : List Bytes} (hbase : ¬base < m.depth) (h : m.readSlots fp returns = .ok results)
      (hrest : rest ≠ []) : Emits ⟨m, .call base fp returns :: rest⟩ [.ended] ⟨m, rest⟩
  | skipped {m : Machine} {c : Callback} {pending : List Callback} {rest : List Task}
      (h : m.program.function? c.function = none) :
      Emits ⟨m, .callbacks (c :: pending) :: rest⟩ [.skipped c] ⟨m, .callbacks pending :: rest⟩
  | begun {m m' : Machine} {c : Callback} {pending : List Callback} {rest : List Task} {task : Task}
      (hc : (m.program.function? c.function).isSome)
      (h : Machine.beginCall c.function c.args m = .ok task m') :
      Emits ⟨m, .callbacks (c :: pending) :: rest⟩ [.begun c]
        ⟨m', task :: .callbacks pending :: rest⟩
  | drained {rest : List Task} (m : Machine) (hrest : rest ≠ []) :
      Emits ⟨m, .callbacks [] :: rest⟩ [] ⟨{ m with dispatching := false }, rest⟩

inductive Emitted : Run → List CallbackEvent → Run → Prop where
  | refl (r : Run) : Emitted r [] r
  | step {r s t : Run} {events log : List CallbackEvent} (h : r.Emits events s)
      (hlog : Emitted s log t) : Emitted r (events ++ log) t

theorem exists_emits (hops : r.machine.OnlyPushes) (h : r.step = .running s) :
    ∃ events, r.Emits events s := by
  cases stepsTo h with
  | executed hbase hadvance =>
    obtain ⟨own, hown⟩ := (Machine.pushes_advance hops).value hadvance
    refine ⟨_, .executed own own hbase hadvance hown.symm (List.Sublist.refl own) ?_⟩
    rw [hown]
    rfl
  | returned hbase hadvance => exact ⟨[], .returned hbase hadvance⟩
  | ended hbase hread hrest => exact ⟨_, .ended hbase hread hrest⟩
  | drained m hrest => exact ⟨_, .drained m hrest⟩
  | skipped hc => exact ⟨_, .skipped hc⟩
  | begun hc hbegin => exact ⟨_, .begun hc hbegin⟩

theorem Emits.primitives_eq (h : r.Emits events s) :
    s.machine.primitives = r.machine.primitives := by
  cases h with
  | others => rfl
  | executed _ _ _ h _ _ hn =>
    have hshift := (Machine.keeps_shifted_advance _).value h
    subst hn
    unfold Machine.takeCallbacks
    split <;> exact hshift.primitives_eq
  | returned _ h => exact ((Machine.keeps_shifted_advance _).value h).primitives_eq
  | ended => rfl
  | skipped => rfl
  | begun _ h => exact (Machine.beginCall_ok h).2.2.1
  | drained => rfl

/-- The end of the run, if it is reached within these many steps, when others append these callbacks
before each of them. -/
def finishAmid? : List (List Callback) → Run → Option (Machine × Outcome)
  | [], _ => none
  | cs :: later, ⟨m, tasks⟩ =>
    match step ⟨m.setCallbacks (m.callbacks ++ cs), tasks⟩ with
    | .running r => finishAmid? later r
    | .finished m outcome => some (m, outcome)

theorem finishAmid?_replicate (fuel : Nat) (r : Run) :
    r.finishAmid? (List.replicate fuel []) = r.finish? fuel := by
  induction fuel generalizing r with
  | zero => rfl
  | succ fuel ih =>
    obtain ⟨m, tasks⟩ := r
    have hsame : m.setCallbacks (m.callbacks ++ []) = m := by
      rw [List.append_nil]
      rfl
    rw [List.replicate_succ, finishAmid?, finish?, hsame]
    cases step ⟨m, tasks⟩ with
    | running r => exact ih r
    | finished m' outcome => rfl

/-- If operators only append to the queue, every run has a log, and what others append is in it. -/
theorem exists_emitted_of_finishAmid? {later : List (List Callback)} {outcome : Outcome}
    (hops : r.machine.OnlyPushes) (h : r.finishAmid? later = some (m', outcome)) :
    ∃ log used s, used <+: later ∧ used.flatten.Sublist (pushes log) ∧ r.Emitted log s ∧
      s.step = .finished m' outcome := by
  induction later generalizing r with
  | nil => cases h
  | cons cs later ih =>
    obtain ⟨m, tasks⟩ := r
    rw [finishAmid?] at h
    have hothers := Emits.others m tasks cs
    have hops₁ : (m.setCallbacks (m.callbacks ++ cs)).OnlyPushes := hops
    cases hstep : step ⟨m.setCallbacks (m.callbacks ++ cs), tasks⟩ with
    | running t =>
      rw [hstep] at h
      obtain ⟨events, hemits⟩ := exists_emits hops₁ hstep
      have hops₂ : t.machine.OnlyPushes := by
        rw [Machine.OnlyPushes, hemits.primitives_eq]
        exact hops₁
      obtain ⟨log, used, s, hused, hsub, hlog, hs⟩ := ih hops₂ h
      refine ⟨_, cs :: used, s, (List.prefix_cons_inj cs).mpr hused, ?_,
        .step hothers (.step hemits hlog), hs⟩
      simp only [List.flatten_cons, pushes_append, pushes_pushed]
      exact (hsub.trans (List.sublist_append_right _ _)).append_left cs
    | finished m₁ outcome₁ =>
      rw [hstep] at h
      cases h
      refine ⟨_, [cs], _, List.prefix_append [cs] later, ?_, .step hothers (.refl _), hstep⟩
      simp only [List.flatten_singleton, List.append_nil, pushes_pushed]
      exact .refl cs

end Run

/-- How far the callbacks that were taken have got: the call goes on and all of them have been
handled; the tasks hold those that have not; or they hold those behind one that is being called. -/
inductive Phase (p : Program) : Bool → List Task → List Callback → List CallbackEvent → Prop where
  | calling (base fp : Nat) (returns : List Operand) (taken : List Callback) :
      Phase p false [.call base fp returns] taken (taken.flatMap p.handling)
  | between (base fp : Nat) (returns : List Operand) (handled pending : List Callback) :
      Phase p true [.callbacks pending, .call base fp returns] (handled ++ pending)
        (handled.flatMap p.handling)
  | inside (base fp base' fp' : Nat) (returns returns' : List Operand) (c : Callback)
      (handled pending : List Callback) (hc : (p.function? c.function).isSome) :
      Phase p true [.call base fp returns, .callbacks pending, .call base' fp' returns']
        (handled ++ c :: pending) (handled.flatMap p.handling ++ [.begun c])

namespace Phase

variable {p : Program} {flag : Bool} {base fp : Nat} {returns : List Operand}
  {tasks rest : List Task} {taken pending : List Callback} {log : List CallbackEvent} {c : Callback}

theorem dispatch (h : Phase p false tasks taken log) (cs : List Callback) :
    Phase p true (.callbacks cs :: tasks) (taken ++ cs) log := by
  cases h with
  | calling base fp returns taken => exact .between base fp returns taken cs

theorem ended (h : Phase p flag (.call base fp returns :: rest) taken log) (hrest : rest ≠ []) :
    Phase p flag rest taken (log ++ [.ended]) := by
  cases h with
  | calling => exact absurd rfl hrest
  | inside _ _ base' fp' _ returns' c handled pending hc =>
    -- It is the call of `c` that has ended, so `c` joins the callbacks that have been handled.
    have hlog : handled.flatMap p.handling ++ [.begun c] ++ [.ended] =
        (handled ++ [c]).flatMap p.handling := by
      simp [Program.handling, hc]
    rw [hlog, List.append_cons]
    exact .between base' fp' returns' (handled ++ [c]) pending

theorem skipped (h : Phase p flag (.callbacks (c :: pending) :: rest) taken log)
    (hc : p.function? c.function = none) :
    Phase p flag (.callbacks pending :: rest) taken (log ++ [.skipped c]) := by
  cases h with
  | between base fp returns handled _ =>
    have hlog : handled.flatMap p.handling ++ [.skipped c] =
        (handled ++ [c]).flatMap p.handling := by
      simp [Program.handling, hc]
    rw [hlog, List.append_cons]
    exact .between base fp returns (handled ++ [c]) pending

theorem begun (base fp : Nat) (returns : List Operand) (hc : (p.function? c.function).isSome)
    (h : Phase p flag (.callbacks (c :: pending) :: rest) taken log) :
    Phase p flag (.call base fp returns :: .callbacks pending :: rest) taken
      (log ++ [.begun c]) := by
  cases h with
  | between base' fp' returns' handled _ =>
    exact .inside base fp base' fp' returns returns' c handled pending hc

theorem drained (h : Phase p flag (.callbacks [] :: rest) taken log) :
    Phase p false rest taken log := by
  cases h with
  | between base fp returns handled _ =>
    rw [List.append_nil]
    exact .calling base fp returns handled

theorem eq_flatMap (h : Phase p flag tasks taken log) (htasks : tasks.length ≤ 1) :
    log = taken.flatMap p.handling := by
  -- A single task is a call that is not interrupted by callbacks.
  cases h with
  | calling => rfl
  | between => exact absurd htasks (Nat.not_succ_le_self 1)
  | inside => exact absurd htasks (by simp)

end Phase

namespace Run

variable {m₀ : Machine} {log events : List CallbackEvent} {r s : Run}

/-- The log accounts for every callback. -/
structure Ledger (m₀ : Machine) (log : List CallbackEvent) (r : Run) : Prop where
  program_eq : r.machine.program = m₀.program
  queue : m₀.callbacks ++ pushes log = takes log ++ r.machine.callbacks
  phase : Phase m₀.program r.machine.dispatching r.tasks (takes log) (handling log)

theorem Ledger.append {m m' : Machine} {tasks : List Task} {cs : List Callback}
    (h : Ledger m₀ log ⟨m, tasks⟩) (hprogram : m'.program = m.program)
    (hflag : m'.dispatching = m.dispatching) (hcs : m'.callbacks = m.callbacks ++ cs) :
    Ledger m₀ (log ++ cs.map pushed) ⟨m', tasks⟩ := by
  have hqueue : m₀.callbacks ++ pushes log = takes log ++ m.callbacks := h.queue
  have hphase : Phase m₀.program m.dispatching tasks (takes log) (handling log) := h.phase
  refine ⟨hprogram.trans h.program_eq, ?_, ?_⟩
  · simp only [pushes_append, pushes_pushed, takes_append, takes_pushed, List.append_nil]
    rw [← List.append_assoc, hqueue, List.append_assoc, hcs]
  · simp only [takes_append, takes_pushed, handling_append, handling_pushed, List.append_nil]
    rw [hflag]
    exact hphase

theorem Ledger.takeCallbacks {m : Machine} {tasks : List Task} (h : Ledger m₀ log ⟨m, tasks⟩) :
    Ledger m₀ (log ++ m.dispatched.map taken) ⟨m.takeCallbacks.1, m.takeCallbacks.2 ++ tasks⟩ := by
  obtain ⟨hprogram, hqueue, hphase⟩ := h
  cases hflag : m.dispatching with
  | true =>
    simp only [Machine.takeCallbacks, Machine.dispatched, hflag, Bool.true_or, if_true,
      List.map_nil, List.append_nil, List.nil_append]
    exact ⟨hprogram, hqueue, hphase⟩
  | false =>
    by_cases hempty : m.callbacks = []
    · simp only [Machine.takeCallbacks, Machine.dispatched, hflag, hempty, List.isEmpty_nil,
        Bool.or_true, if_true, Bool.false_eq_true, if_false, List.map_nil, List.append_nil,
        List.nil_append]
      exact ⟨hprogram, hqueue, hphase⟩
    · have hwaiting : m.callbacks.isEmpty = false := by simpa using hempty
      simp only [Machine.takeCallbacks, Machine.dispatched, hflag, hwaiting, Bool.or_false,
        Bool.false_eq_true, if_false]
      refine ⟨hprogram, ?_, ?_⟩
      · simp only [pushes_append, pushes_taken, List.append_nil, takes_append, takes_taken, hqueue]
        exact (List.append_nil _).symm
      · simp only [takes_append, takes_taken, handling_append, handling_taken, List.append_nil]
        have hphase : Phase m₀.program m.dispatching tasks (takes log) (handling log) := hphase
        rw [hflag] at hphase
        exact hphase.dispatch m.callbacks

/-- Only the events of the calls of callbacks change what has been handled. -/
theorem Ledger.handle {m m' : Machine} {tasks tasks' : List Task} (h : Ledger m₀ log ⟨m, tasks⟩)
    (hprogram : m'.program = m.program) (hcallbacks : m'.callbacks = m.callbacks)
    (hpushes : pushes events = []) (htakes : takes events = [])
    (hphase : Phase m₀.program m'.dispatching tasks' (takes log)
      (handling log ++ handling events)) :
    Ledger m₀ (log ++ events) ⟨m', tasks'⟩ := by
  refine ⟨hprogram.trans h.program_eq, ?_, ?_⟩
  · rw [pushes_append, takes_append, hpushes, htakes, List.append_nil, List.append_nil, h.queue]
    exact congrArg (takes log ++ ·) hcallbacks.symm
  · rw [takes_append, handling_append, htakes, List.append_nil]
    exact hphase

theorem Ledger.step (h : Ledger m₀ log r) (hs : r.Emits events s) :
    Ledger m₀ (log ++ events) s := by
  cases hs with
  | others m tasks cs => exact h.append rfl rfl rfl
  | @executed m m' _ base fp returns rest own cs hbase hadvance hown hcs hn =>
    have hshift := (Machine.keeps_shifted_advance m).value hadvance
    subst hn
    have hpushed : Ledger m₀ (log ++ cs.map pushed)
        ⟨m'.setCallbacks (m.callbacks ++ cs), .call base fp returns :: rest⟩ :=
      h.append hshift.program_eq hshift.dispatching_eq rfl
    rw [← List.append_assoc]
    exact hpushed.takeCallbacks
  | @returned m m' base fp returns rest hbase hadvance =>
    have hshift := (Machine.keeps_shifted_advance m).value hadvance
    have hcallbacks : m'.callbacks = m.callbacks ++ [] :=
      (Machine.callbacks_eq_of_returned hadvance).trans (List.append_nil _).symm
    exact h.append hshift.program_eq hshift.dispatching_eq hcallbacks
  | ended hbase hread hrest => exact h.handle rfl rfl rfl rfl (h.phase.ended hrest)
  | skipped hc => exact h.handle rfl rfl rfl rfl (h.phase.skipped (h.program_eq ▸ hc))
  | begun hc hbegin =>
    obtain ⟨⟨base, fp, returns, rfl⟩, hprogram, -, hflag, hcallbacks⟩ := Machine.beginCall_ok hbegin
    have hphase := h.phase.begun base fp returns (h.program_eq ▸ hc)
    exact h.handle hprogram hcallbacks rfl rfl (hflag ▸ hphase)
  | drained m hrest =>
    have hphase := h.phase.drained
    rw [← List.append_nil (handling log)] at hphase
    exact h.handle rfl rfl rfl rfl hphase

theorem Emitted.ledger {log' : List CallbackEvent} (h : r.Emitted log' s) (hr : Ledger m₀ log r) :
    Ledger m₀ (log ++ log') s := by
  -- Over the steps from the first on, each of which extends the log so far.
  induction h generalizing log with
  | refl r =>
    rw [List.append_nil]
    exact hr
  | step hstep _ ih =>
    rw [← List.append_assoc]
    exact ih (hr.step hstep)

/-- A run that ends without an error ends with its last task. -/
theorem step_finished_ok {m' : Machine} {results : List Bytes}
    (h : r.step = .finished m' (.ok results)) :
    r.tasks.length ≤ 1 ∧ m'.callbacks = r.machine.callbacks := by
  cases stepsTo h with
  | idle => exact ⟨Nat.zero_le 1, rfl⟩
  | finished => exact ⟨le_rfl, rfl⟩
  | emptied => exact ⟨le_rfl, rfl⟩

end Run

namespace Machine

variable {m m' : Machine} {name : FunctionName} {args : List Bytes} {log : List CallbackEvent}
  {results : List Bytes}

/-- A call from outside returns these results, and its run has this log. -/
def Delivers (m : Machine) (name : FunctionName) (args : List Bytes) (log : List CallbackEvent)
    (m' : Machine) (results : List Bytes) : Prop :=
  ∃ r₀ r, m.startCall name args = .running r₀ ∧ r₀.Emitted log r ∧
    r.step = .finished m' (.ok results)

theorem startCall_running {r : Run} (h : m.startCall name args = .running r) :
    ∃ task, beginCall name args m = .ok task r.machine ∧ r.tasks = [task] := by
  unfold startCall at h
  split at h
  · cases h
  · rename_i task m₁ hbegin
    cases h
    exact ⟨task, hbegin, rfl⟩

theorem ledger_of_startCall {r : Run} (hidle : m.dispatching = false)
    (h : m.startCall name args = .running r) : r.Ledger m [] := by
  obtain ⟨task, hbegin, htasks⟩ := startCall_running h
  obtain ⟨⟨base, fp, returns, rfl⟩, hprogram, -, hflag, hcallbacks⟩ := beginCall_ok hbegin
  refine ⟨hprogram, (List.append_nil _).trans hcallbacks.symm, ?_⟩
  rw [htasks, hflag, hidle]
  exact .calling base fp returns []

theorem exists_delivers {r : Run} {later : List (List Callback)} (hops : m.OnlyPushes)
    (hstart : m.startCall name args = .running r)
    (h : r.finishAmid? later = some (m', .ok results)) :
    ∃ log used, used <+: later ∧ used.flatten.Sublist (pushes log) ∧
      m.Delivers name args log m' results := by
  obtain ⟨task, hbegin, -⟩ := startCall_running hstart
  have hops' : r.machine.OnlyPushes := by
    rw [OnlyPushes, (beginCall_ok hbegin).2.2.1]
    exact hops
  obtain ⟨log, used, s, hused, hsub, hlog, hstep⟩ := Run.exists_emitted_of_finishAmid? hops' h
  exact ⟨log, used, hused, hsub, r, s, hstart, hlog, hstep⟩

end Machine

/-- Callbacks are delivered once and in order. When a call returns that was made while no callbacks
were being run, what was taken out of the queue is what had been appended to it first, in that
order, and the rest is still in it. Each callback that was taken was called with its arguments, or
passed over if there is no such function, in that order, and none before the one ahead of it had
returned. If operators only append to the queue, every call that returns has such a log, whatever
others append before each step, and the log has what they did append. -/
theorem callbacks_delivered {m : Machine} {name : FunctionName} {args : List Bytes} {m' : Machine}
    {results : List Bytes} (hidle : m.dispatching = false) :
    (∀ log, m.Delivers name args log m' results →
      m.callbacks ++ pushes log = takes log ++ m'.callbacks ∧
        handling log = (takes log).flatMap m.program.handling) ∧
    (m.OnlyPushes → ∀ r later, m.startCall name args = .running r →
      r.finishAmid? later = some (m', .ok results) →
        ∃ log used, used <+: later ∧ used.flatten.Sublist (pushes log) ∧
          m.Delivers name args log m' results) := by
  refine ⟨?_, fun hops r later hstart h => Machine.exists_delivers hops hstart h⟩
  rintro log ⟨r₀, r, hstart, hlog, hstep⟩
  have hledger : r.Ledger m log := hlog.ledger (Machine.ledger_of_startCall hidle hstart)
  obtain ⟨htasks, hcallbacks⟩ := Run.step_finished_ok hstep
  refine ⟨?_, hledger.phase.eq_flatMap htasks⟩
  rw [hcallbacks]
  exact hledger.queue

/-- `nestingMachine` with a function `note` of one argument. A callback of it waits, and one of a
function that there is not. -/
def notifiedMachine : Machine :=
  { nestingMachine with
    program := { functions :=
      { package := "main", name := "note", frameSize := 1,
        params := [{ name := "x", ty := .int .u8, storage := .frame 0 }] } ::
      nestingMachine.program.functions } }.setCallbacks
    [⟨⟨"main", "note"⟩, [[7]]⟩, ⟨⟨"main", "gone"⟩, []⟩]

/-- While the first callback is being run, another is appended. It waits until after the call, as no
node is executed any more. -/
theorem callbacks_delivered_notifiedMachine :
    ∃ r m' log, notifiedMachine.startCall ⟨"main", "outer"⟩ [] = .running r ∧
      r.finishAmid? ([[], [], [⟨⟨"main", "inner"⟩, []⟩]] ++ List.replicate 7 []) =
        some (m', .ok []) ∧
      m'.callbacks = [⟨⟨"main", "inner"⟩, []⟩] ∧
      notifiedMachine.callbacks ++ pushes log = takes log ++ m'.callbacks ∧
      handling log = (takes log).flatMap notifiedMachine.program.handling := by
  have hops : notifiedMachine.OnlyPushes := fun p hp => .inl (List.mem_append_left _ hp)
  obtain ⟨r, hstart, hend⟩ : ∃ r, notifiedMachine.startCall ⟨"main", "outer"⟩ [] = .running r ∧
      (r.finishAmid? ([[], [], [⟨⟨"main", "inner"⟩, []⟩]] ++ List.replicate 7 [])).map
        (fun e => (e.1.callbacks, e.2.toOption)) =
          some ([⟨⟨"main", "inner"⟩, []⟩], some []) := ⟨_, rfl, by decide +kernel⟩
  obtain ⟨⟨m', outcome⟩, hfinish, hend⟩ := Option.map_eq_some_iff.mp hend
  obtain ⟨hcallbacks, houtcome⟩ := Prod.mk.inj hend
  cases outcome with
  | error e => cases houtcome
  | ok results =>
    cases houtcome
    obtain ⟨log, -, -, -, hlog⟩ := (callbacks_delivered rfl).2 hops r _ hstart hfinish
    obtain ⟨hqueue, hhandling⟩ := (callbacks_delivered rfl).1 log hlog
    exact ⟨r, m', log, hstart, hfinish, hcallbacks, hqueue, hhandling⟩

end FlatMachine
