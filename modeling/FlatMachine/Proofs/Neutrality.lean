import FlatMachine.Proofs.CallStack

/-!
# A call leaves the frames as it found them

The frames of a call lie on top of those that were there. The lowest of them has no caller, so no
return goes below it, and only the innermost frame is ever moved. So whichever way the call ends, in
the middle of whatever run and with any operators, the frames below it are untouched, and its own
are gone.
-/

namespace FlatMachine

open FlatMachine.Action

variable {m m' : Machine} {f : Frame} {frames inner outer : List Frame} {flag : Bool}
  {tasks rest : List Task}

/-- What a node or a return may do to the frames, whether it succeeds or fails. -/
inductive Shift : List Frame → List Frame → Prop where
  | none (frames : List Frame) : Shift frames frames
  | moved (f : Frame) (pc : Nat) (outer : List Frame) : Shift (f :: outer) ({ f with pc } :: outer)
  | pushed (f : Frame) (outer : List Frame) : Shift outer (f :: outer)
  | popped (f : Frame) (outer : List Frame) : Shift (f :: outer) outer
  | resumed (f caller : Frame) (pc : Nat) (outer : List Frame) (h : f.returnsToCaller = true) :
    Shift (f :: caller :: outer) ({ caller with pc } :: outer)

/-- The lowest of these frames, if there is one, has no caller. -/
def Closed (inner : List Frame) : Prop := ∀ f ∈ inner.getLast?, f.returnsToCaller = false

theorem closed_cons (h : outer ≠ []) : Closed (f :: outer) ↔ Closed outer := by
  rw [Closed, List.getLast?_cons_of_ne_nil h, Closed]

theorem closed_singleton : Closed [f] ↔ f.returnsToCaller = false := by simp [Closed]

theorem Closed.tail (h : Closed (f :: outer)) : Closed outer := by
  by_cases hne : outer = []
  · subst outer
    exact nofun
  · exact (closed_cons hne).mp h

theorem Closed.setPc (pc : Nat) (h : Closed (f :: outer)) : Closed ({ f with pc } :: outer) := by
  by_cases hne : outer = []
  · subst outer
    have hf : f.returnsToCaller = false := closed_singleton.mp h
    exact closed_singleton.mpr hf
  · exact (closed_cons hne).mpr ((closed_cons hne).mp h)

/-- On top of any frames, closed ones stay closed and the others stay as they are. -/
theorem Closed.shift (h : Closed inner) (hne : inner ≠ [])
    (hshift : Shift (inner ++ outer) frames) :
    ∃ inner', frames = inner' ++ outer ∧ Closed inner' := by
  obtain ⟨f, upper, rfl⟩ := List.exists_cons_of_ne_nil hne
  generalize hall : f :: upper ++ outer = all at hshift
  cases hshift with
  | none => exact ⟨f :: upper, hall.symm, h⟩
  | moved g pc below =>
    obtain ⟨rfl, rfl⟩ := List.cons.inj hall
    exact ⟨_ :: upper, rfl, h.setPc pc⟩
  | pushed g =>
    subst hall
    exact ⟨g :: f :: upper, rfl, (closed_cons hne).mpr h⟩
  | popped g below =>
    obtain ⟨rfl, rfl⟩ := List.cons.inj hall
    exact ⟨upper, rfl, h.tail⟩
  | resumed g caller pc below hreturns =>
    obtain ⟨rfl, hupper⟩ := List.cons.inj hall
    cases upper with
    | nil =>
      -- The lowest frame has no caller.
      rw [closed_singleton.mp h] at hreturns
      cases hreturns
    | cons caller' upper =>
      obtain ⟨rfl, rfl⟩ := List.cons.inj hupper
      exact ⟨_ :: upper, rfl, h.tail.setPc pc⟩

theorem StackStep.shift (h : StackStep m inner frames) : Shift inner frames := by
  cases h with
  | idle => exact .none _
  | moved pc _ _ => exact .moved _ pc _
  | called _ _ _ _ _ _ => exact .pushed _ _
  | left _ => exact .popped _ _
  | resumed hreturns _ _ => exact .resumed _ _ _ _ hreturns

namespace Machine

/-- The frames have been shifted, and otherwise nothing but the workspace has changed. -/
def Shifted (m m' : Machine) : Prop :=
  ∃ frames work, Shift m.stack.frames frames ∧ m' = { m.withFrames frames with work }

theorem Worked.shifted (h : Worked (m.withFrames frames) m') (hs : Shift m.stack.frames frames) :
    Shifted m m' := by
  obtain ⟨work, rfl, -⟩ := h
  exact ⟨frames, work, hs, rfl⟩

theorem Stepped.shifted (h : Stepped m m') : Shifted m m' := by
  obtain ⟨frames, hstep, hw⟩ := h
  exact hw.shifted hstep.shift

theorem shifted_work (m : Machine) (work : Workspace) : Shifted m { m with work } :=
  ⟨m.stack.frames, work, .none _, rfl⟩

theorem shifted_setPc (m : Machine) (work : Workspace) (pc : Nat) :
    Shifted m (setPc { m with work } pc) := by
  cases hm : m.stack.frames with
  | nil => exact ⟨[], work, hm ▸ .none _, by simp [setPc, CallStack.setPc, withFrames, hm]⟩
  | cons f outer =>
    refine ⟨{ f with pc } :: outer, work, hm ▸ .moved f pc outer, ?_⟩
    simp [setPc, CallStack.setPc, withFrames, hm]

theorem ends_onWork_work {α : Type} (act : Action Workspace α) (m : Machine) :
    Ends (onWork act) m (fun _ m' => ∃ work, m' = { m with work })
      (fun _ m' => ∃ work, m' = { m with work }) := by
  rw [ends_onWork, ends_iff]
  exact ⟨fun _ work _ => ⟨work, rfl⟩, fun _ work _ => ⟨work, rfl⟩⟩

theorem ends_executeNode_work (fp : Nat) (n : Node) (m : Machine) :
    Ends (executeNode fp n) m (fun _ m' => ∃ work, m' = { m with work })
      (fun _ m' => ∃ work, m' = { m with work }) := by
  simp only [executeNode, ends_bind, ends_get]
  split
  · exact ends_onWork_work _ m
  · simp only [ends_bind, ends_ofExcept]
    exact gives_of_ok (fun p _ => ends_onWork_work _ m) fun _ => ⟨m.work, rfl⟩
  · exact ⟨m.work, rfl⟩

theorem keeps_shifted_callNode (fp : Nat) (n : Node) (callee : FunctionName) :
    Keeps Shifted (callNode fp n callee) := by
  intro m
  apply ends_callNode.mono
  · rintro _ m' ⟨g, -, -, -, hw⟩
    exact hw.shifted (.pushed _ _)
  · rintro _ m' (⟨work, rfl, -⟩ | ⟨g, hw⟩)
    · exact m.shifted_work work
    · exact hw.shifted (.pushed g _)

theorem keeps_shifted_leave : Keeps Shifted leave := by
  intro m
  apply ends_leave.mono
  · exact fun _ _ hs => hs.shifted
  · rintro _ m' ⟨hw, -⟩
    apply hw.shifted
    cases m.stack.frames with
    | nil => exact .none _
    | cons f outer => exact .popped f outer

theorem keeps_shifted_executeAt (f : Function) (fp pc : Nat) (n : Node) :
    Keeps Shifted (executeAt f fp pc n) := by
  intro m
  unfold executeAt
  split
  · exact keeps_shifted_callNode fp n _ m
  · simp only [ends_bind, ends_query, ends_modify]
    exact gives_of_ok (fun target _ => m.shifted_setPc m.work target) fun _ => m.shifted_work m.work
  · simp only [ends_bind, ends_modify]
    apply (ends_executeNode_work fp n m).mono
    · rintro _ _ ⟨work, rfl⟩
      exact m.shifted_setPc work (pc + 1)
    · rintro _ _ ⟨work, rfl⟩
      exact m.shifted_work work

/-- What executing a node or a return does to the frames, with any operators and even if it
fails. -/
theorem keeps_shifted_advance : Keeps Shifted advance := by
  intro m
  have hsame : Shifted m m := m.shifted_work m.work
  apply ends_advance_cases
  · exact fun _ => hsame
  · exact fun _ _ _ _ => hsame
  · exact fun _ _ _ _ _ _ => keeps_shifted_leave m
  · exact fun f _ function n _ _ _ => keeps_shifted_executeAt function f.fp f.pc n m

theorem Shifted.program_eq (h : Shifted m m') : m'.program = m.program := by
  obtain ⟨_, _, -, rfl⟩ := h
  rfl

theorem Shifted.primitives_eq (h : Shifted m m') : m'.primitives = m.primitives := by
  obtain ⟨_, _, -, rfl⟩ := h
  rfl

theorem Shifted.dispatching_eq (h : Shifted m m') : m'.dispatching = m.dispatching := by
  obtain ⟨_, _, -, rfl⟩ := h
  rfl

theorem Shifted.maxDepth_eq (h : Shifted m m') : m'.stack.maxDepth = m.stack.maxDepth := by
  obtain ⟨_, _, -, rfl⟩ := h
  rfl

theorem Shifted.shift (h : Shifted m m') : Shift m.stack.frames m'.stack.frames := by
  obtain ⟨_, _, hs, rfl⟩ := h
  exact hs

end Machine

/-- The frames of tasks, and whether callbacks are being run, when the outermost task found these
frames and this flag. The frames of a call are closed and lie on those that it found; callbacks are
only run when none were. -/
inductive Piled (frames₀ : List Frame) (flag₀ : Bool) : List Task → List Frame → Bool → Prop where
  | nil : Piled frames₀ flag₀ [] frames₀ flag₀
  | call {rest : List Task} {inner outer : List Frame} {flag : Bool} (fp : Nat)
      (returns : List Operand) (hinner : Closed inner) (h : Piled frames₀ flag₀ rest outer flag) :
      Piled frames₀ flag₀ (.call outer.length fp returns :: rest) (inner ++ outer) flag
  | callbacks {rest : List Task} {frames : List Frame} (pending : List Callback)
      (h : Piled frames₀ flag₀ rest frames false) :
      Piled frames₀ flag₀ (.callbacks pending :: rest) frames true

section Piled

variable {frames₀ : List Frame} {flag₀ : Bool} {base fp : Nat} {returns : List Operand}
  {pending : List Callback}

theorem Piled.exists_inner (h : Piled frames₀ flag₀ (.call base fp returns :: rest) frames flag) :
    ∃ inner outer, frames = inner ++ outer ∧ base = outer.length ∧ Closed inner ∧
      Piled frames₀ flag₀ rest outer flag := by
  cases h with
  | call _ _ hinner h => exact ⟨_, _, rfl, rfl, hinner, h⟩

theorem Piled.of_callbacks (h : Piled frames₀ flag₀ (.callbacks pending :: rest) frames flag) :
    flag = true ∧ Piled frames₀ flag₀ rest frames false := by
  cases h with
  | callbacks _ h => exact ⟨rfl, h⟩

/-- Giving up the tasks leaves the frames and the flag that the outermost found. -/
theorem Piled.abandon (h : Piled frames₀ flag₀ tasks m.stack.frames m.dispatching) :
    m.abandon tasks = { m.withFrames frames₀ with dispatching := flag₀ } := by
  induction tasks generalizing m with
  | nil =>
    generalize hframes : m.stack.frames = frames at h
    generalize hflag : m.dispatching = flag at h
    cases h
    subst hframes hflag
    rfl
  | cons task rest ih =>
    cases task with
    | call base fp returns =>
      obtain ⟨inner, outer, hframes, rfl, -, h⟩ := h.exists_inner
      have htrunc : m.stack.truncate outer.length = { m.stack with frames := outer } := by
        simp [CallStack.truncate, CallStack.depth, hframes]
      rw [Machine.abandon, htrunc, ih h]
      rfl
    | callbacks pending =>
      rw [Machine.abandon, ih h.of_callbacks.2]
      rfl

end Piled

namespace Run

variable {r s : Run} {stack : CallStack}

/-- The tasks of a run lie on this stack and this flag. -/
structure Over (stack : CallStack) (flag : Bool) (r : Run) : Prop where
  maxDepth_eq : r.machine.stack.maxDepth = stack.maxDepth
  piled : Piled stack.frames flag r.tasks r.machine.stack.frames r.machine.dispatching

/-- The run goes on over the stack and the flag, or it has ended with them. -/
def Leaves (stack : CallStack) (flag : Bool) : Progress → Prop
  | .running r => r.Over stack flag
  | .finished m _ => m.stack = stack ∧ m.dispatching = flag

theorem Over.abandon (h : Over stack flag ⟨m, tasks⟩) :
    (m.abandon tasks).stack = stack ∧ (m.abandon tasks).dispatching = flag := by
  obtain ⟨hmax, hpiled⟩ := h
  rw [hpiled.abandon]
  exact ⟨congrArg (CallStack.mk stack.frames) hmax, rfl⟩

theorem Over.beginCall {name : FunctionName} {args : List Bytes} (h : Over stack flag ⟨m, tasks⟩) :
    Ends (Machine.beginCall name args) m (fun task m' => Over stack flag ⟨m', task :: tasks⟩)
      (fun _ m' => Over stack flag ⟨m', tasks⟩) := by
  obtain ⟨hmax, hpiled⟩ := h
  apply Machine.ends_beginCall.mono
  · rintro task _ ⟨function, -, rfl, -, -, work, rfl, -⟩
    refine ⟨hmax, ?_⟩
    have hclosed : Closed [function.frame m.nextFp m.nextFp false] := closed_singleton.mpr rfl
    exact .call _ _ hclosed hpiled
  · rintro _ _ ⟨work, rfl, -⟩
    exact ⟨hmax, hpiled⟩

/-- A step of a call that still has frames stays above what the call found. -/
theorem Over.advance {base fp : Nat} {returns : List Operand}
    (h : Over stack flag ⟨m, .call base fp returns :: rest⟩) (hbase : base < m.depth)
    (hm : m.Shifted m') : Over stack flag ⟨m', .call base fp returns :: rest⟩ := by
  obtain ⟨hmax, hpiled⟩ := h
  obtain ⟨inner, outer, hframes, rfl, hinner, hpiled⟩ := hpiled.exists_inner
  have hframes : m.stack.frames = inner ++ outer := hframes
  have hne : inner ≠ [] := by
    rintro rfl
    rw [Machine.depth, CallStack.depth, hframes] at hbase
    exact absurd hbase (lt_irrefl _)
  have hshift := hm.shift
  rw [hframes] at hshift
  obtain ⟨inner', hframes', hinner'⟩ := hinner.shift hne hshift
  refine ⟨hm.maxDepth_eq.trans hmax, ?_⟩
  have hflag : m'.dispatching = m.dispatching := hm.dispatching_eq
  rw [hframes', hflag]
  exact .call fp returns hinner' hpiled

theorem Over.takeCallbacks (h : Over stack flag ⟨m, tasks⟩) :
    Over stack flag ⟨m.takeCallbacks.1, m.takeCallbacks.2 ++ tasks⟩ := by
  unfold Machine.takeCallbacks
  split
  · exact h
  · rename_i hnot
    have hflag : m.dispatching = false := by simp_all
    have hpiled := h.piled
    rw [hflag] at hpiled
    exact ⟨h.maxDepth_eq, .callbacks _ hpiled⟩

/-- What is left when the innermost call has no frame any more. -/
theorem Over.ended {base fp : Nat} {returns : List Operand}
    (h : Over stack flag ⟨m, .call base fp returns :: rest⟩) (hbase : ¬ base < m.depth) :
    Over stack flag ⟨m, rest⟩ := by
  obtain ⟨inner, outer, hframes, rfl, -, hpiled⟩ := h.piled.exists_inner
  have hframes : m.stack.frames = inner ++ outer := hframes
  have hinner : inner = [] := by
    rw [Machine.depth, CallStack.depth, hframes, List.length_append] at hbase
    exact List.eq_nil_of_length_eq_zero (by omega)
  subst hinner
  exact ⟨h.maxDepth_eq, hframes ▸ hpiled⟩

/-- What is left when all callbacks that were taken up are made. -/
theorem Over.drained {pending : List Callback}
    (h : Over stack flag ⟨m, .callbacks pending :: rest⟩) :
    Over stack flag ⟨{ m with dispatching := false }, rest⟩ :=
  ⟨h.maxDepth_eq, h.piled.of_callbacks.2⟩

theorem Over.waiting {pending : List Callback}
    (h : Over stack flag ⟨m, .callbacks pending :: rest⟩) (left : List Callback) :
    Over stack flag ⟨m, .callbacks left :: rest⟩ := by
  obtain ⟨hflag, hpiled⟩ := h.piled.of_callbacks
  have hflag : m.dispatching = true := hflag
  exact ⟨h.maxDepth_eq, hflag ▸ .callbacks left hpiled⟩

theorem Over.step (h : r.Over stack flag) : Leaves stack flag r.step := by
  have hsteps := stepsTo (rfl : r.step = r.step)
  generalize r.step = progress at hsteps
  cases hsteps with
  | idle => exact h.abandon
  | executed hbase hadvance =>
    exact (h.advance hbase ((Machine.keeps_shifted_advance _).value hadvance)).takeCallbacks
  | returned hbase hadvance =>
    exact h.advance hbase ((Machine.keeps_shifted_advance _).value hadvance)
  | failed hbase hadvance =>
    exact (h.advance hbase ((Machine.keeps_shifted_advance _).failure hadvance)).abandon
  | ended hbase => exact h.ended hbase
  | finished hbase => exact (h.ended hbase).abandon
  | unread => exact h.abandon
  | drained => exact h.drained
  | emptied => exact h.drained.abandon
  | skipped => exact h.waiting _
  | begun _ hbegin => exact (h.waiting _).beginCall.value hbegin
  | refused _ hbegin => exact ((h.waiting _).beginCall.failure hbegin).abandon

theorem Reaches.over (h : r.Reaches s) (hr : r.Over stack flag) : s.Over stack flag := by
  induction h with
  | refl => exact hr
  | step _ hstep ih =>
    have hleaves := ih.step
    rw [hstep] at hleaves
    exact hleaves
  | host _ _ ih => exact ⟨ih.maxDepth_eq, ih.piled⟩

end Run

namespace Machine

variable {name : FunctionName} {args : List Bytes} {outcome : Outcome}

/-- A call from outside ends like this, whatever the host does between its steps. -/
def Returns (m : Machine) (name : FunctionName) (args : List Bytes) (m' : Machine)
    (outcome : Outcome) : Prop :=
  m.startCall name args = .finished m' outcome ∨
    ∃ r₀ r, m.startCall name args = .running r₀ ∧ Run.Reaches r₀ r ∧ r.step = .finished m' outcome

theorem leaves_startCall (m : Machine) (name : FunctionName) (args : List Bytes) :
    Run.Leaves m.stack m.dispatching (m.startCall name args) := by
  have hover : Run.Over m.stack m.dispatching ⟨m, []⟩ := ⟨rfl, .nil⟩
  unfold startCall
  split
  · rename_i e m' he
    exact (hover.beginCall.failure he).abandon
  · rename_i task m' he
    exact hover.beginCall.value he

theorem Returns.leaves (h : m.Returns name args m' outcome) :
    m'.stack = m.stack ∧ m'.dispatching = m.dispatching := by
  have hstart := m.leaves_startCall name args
  rcases h with h | ⟨r₀, r, h, hreaches, hstep⟩
  · rw [h] at hstart
    exact hstart
  · rw [h] at hstart
    have hleaves := (hreaches.over hstart).step
    rw [hstep] at hleaves
    exact hleaves

end Machine

/-- What is run on top of other tasks goes on with them when it is done, and gives them up when it
fails. -/
def Progress.onTop (rest : List Task) : Progress → Progress
  | .running r => .running { r with tasks := r.tasks ++ rest }
  | .finished m (.ok results) => Run.resume m rest results
  | .finished m (.error e) => Run.fail m rest e

theorem Machine.abandon_append (m : Machine) (tasks rest : List Task) :
    m.abandon (tasks ++ rest) = (m.abandon tasks).abandon rest := by
  induction tasks generalizing m with
  | nil => rfl
  | cons task tasks ih => cases task <;> exact ih _

namespace Run

variable {r s t : Run}

theorem fail_append (m : Machine) (tasks rest : List Task) (e : Error) :
    fail m (tasks ++ rest) e = (fail m tasks e).onTop rest := by
  rw [fail, Machine.abandon_append]
  rfl

theorem resume_append (m : Machine) (tasks rest : List Task) (results : List Bytes) :
    resume m (tasks ++ rest) results = (resume m tasks results).onTop rest := by
  cases tasks <;> rfl

/-- Tasks below the innermost do not take part in a step. -/
theorem step_onTop (h : r.tasks ≠ []) (rest : List Task) :
    step { r with tasks := r.tasks ++ rest } = r.step.onTop rest := by
  obtain ⟨m, tasks⟩ := r
  obtain ⟨task, tasks, rfl⟩ := List.exists_cons_of_ne_nil h
  rw [List.cons_append]
  cases task with
  | call base fp returns =>
    simp only [step]
    split
    · cases Machine.advance m with
      | error e m' => exact fail_append m' (.call base fp returns :: tasks) rest e
      | ok executed m' =>
        cases executed with
        | false => rfl
        | true =>
          simp only [if_true, Progress.onTop, List.append_assoc, List.cons_append]
    · cases m.readSlots fp returns with
      | error e => exact fail_append m (.call base fp returns :: tasks) rest e
      | ok results => exact resume_append m tasks rest results
  | callbacks pending =>
    cases pending with
    | nil => exact resume_append _ tasks rest []
    | cons c pending =>
      simp only [step]
      cases m.program.function? c.function with
      | none => rfl
      | some function =>
        cases Machine.beginCall c.function c.args m with
        | error e m' => exact fail_append m' (.callbacks pending :: tasks) rest e
        | ok task m' => rfl

theorem Reaches.trans (h : r.Reaches s) (h' : s.Reaches t) : r.Reaches t := by
  induction h' with
  | refl => exact h
  | step _ hstep ih => exact .step ih hstep
  | host host _ ih => exact .host host ih

theorem Reaches.onTop (h : r.Reaches s) (hne : r.tasks ≠ []) (rest : List Task) :
    s.tasks ≠ [] ∧
      Reaches { r with tasks := r.tasks ++ rest } { s with tasks := s.tasks ++ rest } := by
  induction h with
  | refl => exact ⟨hne, .refl⟩
  | @step s t _ hstep ih =>
    refine ⟨(step_running hstep).2, .step ih.2 ?_⟩
    rw [step_onTop ih.1, hstep]
    rfl
  | host host _ ih => exact ⟨ih.1, .host host ih.2⟩

/-- Making a callback is making a call on top of the tasks that wait for it. -/
theorem step_callback {c : Callback} {pending : List Callback} {rest : List Task}
    {function : Function} (h : m.program.function? c.function = some function) :
    step ⟨m, .callbacks (c :: pending) :: rest⟩ =
      (m.startCall c.function c.args).onTop (.callbacks pending :: rest) := by
  simp only [step, h, Machine.startCall]
  cases Machine.beginCall c.function c.args m <;> rfl

end Run

/-- However a call ends, the frames and the flag are what they were. That holds in the middle of
another run as well: there the run that makes the call as a callback goes on with the other
callbacks, or gives up, from what the call left. -/
theorem call_neutral {name : FunctionName} {args : List Bytes} {outcome : Outcome}
    (h : m.Returns name args m' outcome) :
    (m'.stack = m.stack ∧ m'.dispatching = m.dispatching) ∧
      ∀ function pending rest, m.program.function? name = some function →
        ∃ s, Run.Reaches ⟨m, .callbacks (⟨name, args⟩ :: pending) :: rest⟩ s ∧
          s.step = (Progress.finished m' outcome).onTop (.callbacks pending :: rest) := by
  refine ⟨h.leaves, fun function pending rest hfun => ?_⟩
  have hcallback : Run.step ⟨m, .callbacks (⟨name, args⟩ :: pending) :: rest⟩ =
      (m.startCall name args).onTop (.callbacks pending :: rest) := Run.step_callback hfun
  rcases h with h | ⟨r₀, r, h, hreaches, hstep⟩
  · exact ⟨_, .refl, by rw [hcallback, h]⟩
  · have htasks : r₀.tasks ≠ [] := by
      unfold Machine.startCall at h
      split at h
      · cases h
      · cases h
        exact List.cons_ne_nil _ _
    obtain ⟨hne, hreaches⟩ := hreaches.onTop htasks (.callbacks pending :: rest)
    rw [h] at hcallback
    refine ⟨_, .trans (.step .refl hcallback) hreaches, ?_⟩
    rw [Run.step_onTop hne, hstep]

/-- A run that ends within some fuel has come to its end. -/
theorem Run.reaches_of_finish? {fuel : Nat} {r : Run} {outcome : Outcome}
    (h : r.finish? fuel = some (m', outcome)) :
    ∃ s, r.Reaches s ∧ s.step = .finished m' outcome := by
  induction fuel generalizing r with
  | zero => cases h
  | succ fuel ih =>
    rw [finish?] at h
    cases hstep : r.step with
    | running t =>
      rw [hstep] at h
      obtain ⟨s, hreaches, hs⟩ := ih h
      exact ⟨s, .trans (.step .refl hstep) hreaches, hs⟩
    | finished m₁ outcome₁ =>
      rw [hstep] at h
      cases h
      exact ⟨r, .refl, hstep⟩

theorem Machine.returns_of_finish? {fuel : Nat} {name : FunctionName} {args : List Bytes}
    {outcome : Outcome} (h : (m.startCall name args).finish? fuel = some (m', outcome)) :
    m.Returns name args m' outcome := by
  cases hstart : m.startCall name args with
  | running r₀ =>
    rw [hstart] at h
    obtain ⟨r, hreaches, hstep⟩ := Run.reaches_of_finish? h
    exact .inr ⟨r₀, r, hstart, hreaches, hstep⟩
  | finished m₁ outcome₁ =>
    rw [hstart] at h
    cases h
    exact .inl hstart

/-- `nestingMachine`, with a larger stack segment, in the middle of its inner call and making
callbacks. -/
def interruptedMachine : Machine :=
  { nestingMachine with
    work := { nestingMachine.work with arena := { nestingMachine.work.arena with stackEnd := 18 } }
    stack := {
      frames := [
        { function := ⟨"main", "inner"⟩, fp := 12, callerFp := 8, size := 2, returnsToCaller := true },
        { function := ⟨"main", "outer"⟩, fp := 8, callerFp := 8, size := 4,
          returnsToCaller := false }]
      maxDepth := nestingMachine.stack.maxDepth }
    dispatching := true }

/-- There one callback returns, and another fails because its callee has no room. -/
theorem call_neutral_interruptedMachine :
    (∃ m', interruptedMachine.Returns ⟨"main", "inner"⟩ [] m' (.ok []) ∧
      m'.stack = interruptedMachine.stack ∧ m'.dispatching = true) ∧
    ∃ m', interruptedMachine.Returns ⟨"main", "outer"⟩ [] m'
        (.error ((Error.stackOverflow 3).tag {})) ∧
      m'.stack = interruptedMachine.stack ∧ m'.dispatching = true := by
  constructor
  · have hend : ((interruptedMachine.startCall ⟨"main", "inner"⟩ []).finish? 3).map (·.2) =
        some (.ok []) := rfl
    obtain ⟨⟨m', outcome⟩, hfinish, rfl⟩ := Option.map_eq_some_iff.mp hend
    have hreturns := Machine.returns_of_finish? hfinish
    exact ⟨m', hreturns, (call_neutral hreturns).1⟩
  · have hend : ((interruptedMachine.startCall ⟨"main", "outer"⟩ []).finish? 3).map (·.2) =
        some (.error ((Error.stackOverflow 3).tag {})) := rfl
    obtain ⟨⟨m', outcome⟩, hfinish, rfl⟩ := Option.map_eq_some_iff.mp hend
    have hreturns := Machine.returns_of_finish? hfinish
    exact ⟨m', hreturns, (call_neutral hreturns).1⟩

end FlatMachine
