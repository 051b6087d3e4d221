import FlatMachine.Proofs.StackStep

/-!
# The frames of a run

The frames of a run lie one behind the other in the stack segment, and every frame that returns to a
caller has that caller below it, still at the call node: a caller is moved behind its call node only
when the callee has left. This holds at the start of a call and survives every step, callbacks
included, because a callback's frames come and go on top of the frame that they interrupt.
-/

namespace FlatMachine

open FlatMachine.Action

variable {p : Program} {m m' : Machine} {f g : Frame} {frames inner outer : List Frame}
  {start stop : Nat}

/-- The frame is at a node of its function's body or behind the last, and as large as the function
asks. -/
def Frame.Within (p : Program) (f : Frame) : Prop :=
  ∃ function, p.function? f.function = some function ∧ f.size = function.frameSize ∧
    f.pc ≤ function.body.length

/-- The other frame is at a node that calls this frame's function. -/
def Frame.CalledBy (p : Program) (f caller : Frame) : Prop :=
  caller.fp = f.callerFp ∧ ∃ function n signature, p.function? caller.function = some function ∧
    function.body[caller.pc]? = some n ∧ n.operator = some (.call f.function signature)

/-- Where a frame behind these begins, if the outermost begins at `start`. -/
def frontier (start : Nat) : List Frame → Nat
  | [] => start
  | f :: _ => f.stop

/-- Frames, innermost first, that lie one behind the other between two addresses and of which each
was entered from outside or from the one below it. -/
inductive Linked (p : Program) (start stop : Nat) : List Frame → Prop where
  | nil : Linked p start stop []
  | cons {f : Frame} {outer : List Frame} (hfp : f.fp = frontier start outer) (hstop : f.stop ≤ stop)
      (hwithin : f.Within p)
      (hcaller : f.returnsToCaller = true → ∃ caller, outer.head? = some caller ∧ f.CalledBy p caller)
      (h : Linked p start stop outer) : Linked p start stop (f :: outer)

namespace Linked

theorem setPc {function : Function} {pc : Nat} (h : Linked p start stop (f :: outer))
    (hfun : p.function? f.function = some function) (hpc : pc ≤ function.body.length) :
    Linked p start stop ({ f with pc } :: outer) := by
  cases h with
  | cons hfp hstop hwithin hcaller h =>
    obtain ⟨function', hfun', hsize, -⟩ := hwithin
    obtain rfl : function = function' := Option.some.inj (hfun.symm.trans hfun')
    exact .cons hfp hstop ⟨function, hfun, hsize, hpc⟩ hcaller h

/-- A step keeps frames linked that lie on top of any others. The last of them has no caller, so the
others are never returned to. -/
theorem step {base : List Frame} (h : Linked m.program start m.arena.stackEnd inner)
    (hinner : inner ≠ [] ∨ base = []) (hstep : StackStep m (inner ++ base) frames) :
    ∃ inner', frames = inner' ++ base ∧ Linked m.program start m.arena.stackEnd inner' := by
  generalize hall : inner ++ base = all at hstep
  have hsplit : ∀ {f : Frame} {rest : List Frame}, inner ++ base = f :: rest →
      ∃ outer, inner = f :: outer ∧ rest = outer ++ base := by
    intro f rest hall
    cases inner with
    | nil =>
      obtain rfl : base = [] := hinner.resolve_left fun h => h rfl
      cases hall
    | cons f' outer =>
      obtain ⟨rfl, rfl⟩ := List.cons.inj hall
      exact ⟨outer, rfl, rfl⟩
  cases hstep with
  | idle =>
    obtain ⟨rfl, rfl⟩ := List.append_eq_nil_iff.mp hall
    exact ⟨[], rfl, .nil⟩
  | moved pc hfun hpc =>
    obtain ⟨outer, rfl, rfl⟩ := hsplit hall
    exact ⟨_ :: outer, rfl, h.setPc hfun hpc⟩
  | called hfun hn hop hg hroom hdepth =>
    obtain ⟨outer, rfl, rfl⟩ := hsplit hall
    obtain rfl := Program.reference_of_function? hg
    refine ⟨_ :: _ :: outer, rfl, .cons rfl hroom ⟨_, hg, rfl, Nat.zero_le _⟩ ?_ h⟩
    intro _
    exact ⟨_, rfl, rfl, _, _, _, hfun, hn, hop⟩
  | left _ =>
    obtain ⟨outer, rfl, rfl⟩ := hsplit hall
    cases h with
    | cons _ _ _ _ h => exact ⟨outer, rfl, h⟩
  | resumed hreturns hfun hn =>
    obtain ⟨outer, rfl, hrest⟩ := hsplit hall
    cases h with
    | cons _ _ _ hcaller h =>
      obtain ⟨caller, hcaller, -⟩ := hcaller hreturns
      obtain ⟨outer, rfl⟩ := List.head?_eq_some_iff.mp hcaller
      obtain ⟨rfl, rfl⟩ := List.cons.inj hrest
      exact ⟨_ :: outer, rfl, h.setPc hfun (List.getElem?_eq_some_iff.mp hn).1⟩

theorem of_append (h : Linked p start stop (inner ++ outer)) : Linked p start stop outer := by
  induction inner with
  | nil => exact h
  | cons f inner ih =>
    cases h with
    | cons _ _ _ _ h => exact ih h

theorem start_le_frontier (h : Linked p start stop frames) : start ≤ frontier start frames := by
  induction h with
  | nil => exact le_rfl
  | cons hfp _ _ _ _ ih =>
    rw [← hfp] at ih
    exact ih.trans (Nat.le_add_right _ _)

theorem stop_le_frontier (h : Linked p start stop frames) (hf : f ∈ frames) :
    f.stop ≤ frontier start frames := by
  induction h with
  | nil => cases hf
  | @cons g outer hfp _ _ _ h ih =>
    rcases List.mem_cons.mp hf with rfl | hf
    · exact le_rfl
    · have hle := ih hf
      rw [← hfp] at hle
      exact hle.trans (Nat.le_add_right _ _)

theorem inside (h : Linked p start stop frames) (hf : f ∈ frames) :
    start ≤ f.fp ∧ f.stop ≤ stop ∧ f.Within p := by
  obtain ⟨inner, outer, rfl⟩ := List.append_of_mem hf
  cases h.of_append with
  | cons hfp hstop hwithin _ h => exact ⟨hfp ▸ h.start_le_frontier, hstop, hwithin⟩

/-- No frame reaches into one that is further in. -/
theorem pairwise (h : Linked p start stop frames) :
    frames.Pairwise fun f g => g.stop ≤ f.fp := by
  induction h with
  | nil => exact .nil
  | cons hfp _ _ _ h ih => exact .cons (fun g hg => hfp ▸ h.stop_le_frontier hg) ih

end Linked

namespace Machine

/-- The same program runs with the same operators and options, and the segments lie as before. -/
structure SameSetup (m m' : Machine) : Prop where
  program_eq : m'.program = m.program
  primitives_eq : m'.primitives = m.primitives
  options_eq : m'.options = m.options
  maxDepth_eq : m'.stack.maxDepth = m.stack.maxDepth
  segments : m.arena.SameSegments m'.arena

theorem SameSetup.refl (m : Machine) : SameSetup m m := ⟨rfl, rfl, rfl, rfl, .refl _⟩

theorem SameSetup.trans {m'' : Machine} (h : SameSetup m m') (h' : SameSetup m' m'') :
    SameSetup m m'' :=
  ⟨h'.program_eq.trans h.program_eq, h'.primitives_eq.trans h.primitives_eq,
    h'.options_eq.trans h.options_eq, h'.maxDepth_eq.trans h.maxDepth_eq,
    h.segments.trans h'.segments⟩

theorem SameSetup.keepsSegments (h : SameSetup m m') (hops : m.KeepsSegments) :
    m'.KeepsSegments := by
  unfold KeepsSegments
  rw [h.primitives_eq]
  exact hops

theorem SameSetup.linked (h : SameSetup m m') :
    Linked m'.program m'.arena.stackStart m'.arena.stackEnd frames ↔
      Linked m.program m.arena.stackStart m.arena.stackEnd frames := by
  rw [h.program_eq, h.segments.stackStart_eq, h.segments.stackEnd_eq]

theorem Worked.frames_eq (h : Worked (m.withFrames frames) m') : m'.stack.frames = frames := by
  obtain ⟨_, rfl, -⟩ := h
  rfl

theorem Worked.sameSetup (h : Worked (m.withFrames frames) m') : SameSetup m m' := by
  obtain ⟨_, rfl, hw⟩ := h
  exact ⟨rfl, rfl, rfl, rfl, hw⟩

theorem nextFp_eq (m : Machine) : m.nextFp = frontier m.arena.stackStart m.stack.frames := by
  unfold nextFp CallStack.nextFp CallStack.top? frontier
  cases m.stack.frames <;> rfl

/-- A call from outside adds the function's frame. -/
theorem ends_beginCall {name : FunctionName} {args : List Bytes} :
    Ends (beginCall name args) m
      (fun task m' => ∃ function, m.program.function? name = some function ∧
        task = .call m.depth m.nextFp function.returns ∧
        m.nextFp + function.frameSize ≤ m.arena.stackEnd ∧ m.depth < m.stack.maxDepth ∧
        Worked (m.withFrames (function.frame m.nextFp m.nextFp false :: m.stack.frames)) m')
      (fun _ m' => Worked m m') := by
  simp only [beginCall, ends_bind, ends_get, ends_ofExcept, ends_ite, ends_throw]
  apply Program.gives_function.mono ?_ fun _ _ => .refl m
  intro function hfun
  refine ⟨fun _ => .refl m, fun _ => ?_⟩
  have henter : Ends (enter function m.nextFp m.nextFp args false) m _ _ := ends_enter
  split
  · rename_i m' he
    obtain ⟨hroom, hdepth, hw⟩ := henter.value he
    exact ⟨function, hfun, rfl, hroom, hdepth, hw⟩
  · rename_i e m' he
    simp only [ends_bind, ends_throw, ends_set]
    rcases henter.failure he with ⟨work, rfl, hw⟩ | ⟨work, rfl, hw⟩
    · refine ⟨work, ?_, hw⟩
      simp [CallStack.truncate, depth]
    · refine ⟨work, ?_, hw⟩
      simp [CallStack.truncate, depth, withFrames, CallStack.depth]

/-- Nothing but the host and the flag of callbacks has changed. -/
def HostChanged (m m' : Machine) : Prop :=
  ∃ host dispatching, m' = { m with work := { m.work with host }, dispatching }

theorem HostChanged.refl (m : Machine) : HostChanged m m := ⟨m.work.host, m.dispatching, rfl⟩

theorem HostChanged.sameSetup (h : HostChanged m m') : SameSetup m m' := by
  obtain ⟨_, _, rfl⟩ := h
  exact ⟨rfl, rfl, rfl, rfl, .refl _⟩

theorem HostChanged.stack_eq (h : HostChanged m m') : m'.stack = m.stack := by
  obtain ⟨_, _, rfl⟩ := h
  rfl

theorem takeCallbacks_of_empty (h : m.callbacks = []) : m.takeCallbacks = (m, []) := by
  simp [takeCallbacks, h]

theorem hostChanged_takeCallbacks (m : Machine) : HostChanged m m.takeCallbacks.1 := by
  unfold takeCallbacks
  split
  · exact .refl m
  · exact ⟨_, true, rfl⟩

end Machine

namespace Run

theorem resume_running {t : Run} {m : Machine} {tasks : List Task} {results : List Bytes}
    (h : resume m tasks results = .running t) : t = ⟨m, tasks⟩ ∧ tasks ≠ [] := by
  cases tasks with
  | nil => cases h
  | cons task rest =>
    cases h
    exact ⟨rfl, List.cons_ne_nil _ _⟩

/-- What a step of a run comes to, in each of the situations that it can find. -/
inductive StepsTo : Run → Progress → Prop where
  | idle (m : Machine) : StepsTo ⟨m, []⟩ (.finished m (.ok []))
  /-- A node is executed, and then waiting callbacks are taken up. -/
  | executed {m m' : Machine} {base fp : Nat} {returns : List Operand} {rest : List Task}
      (hbase : base < m.depth) (h : Machine.advance m = .ok true m') :
      StepsTo ⟨m, .call base fp returns :: rest⟩
        (.running ⟨m'.takeCallbacks.1, m'.takeCallbacks.2 ++ .call base fp returns :: rest⟩)
  | returned {m m' : Machine} {base fp : Nat} {returns : List Operand} {rest : List Task}
      (hbase : base < m.depth) (h : Machine.advance m = .ok false m') :
      StepsTo ⟨m, .call base fp returns :: rest⟩ (.running ⟨m', .call base fp returns :: rest⟩)
  | failed {m m' : Machine} {base fp : Nat} {returns : List Operand} {rest : List Task} {e : Error}
      (hbase : base < m.depth) (h : Machine.advance m = .error e m') :
      StepsTo ⟨m, .call base fp returns :: rest⟩
        (.finished (m'.abandon (.call base fp returns :: rest)) (.error e))
  /-- A callback has no frame left, and its results are dropped. -/
  | ended {m : Machine} {base fp : Nat} {returns : List Operand} {rest : List Task}
      {results : List Bytes} (hbase : ¬ base < m.depth) (h : m.readSlots fp returns = .ok results)
      (hrest : rest ≠ []) : StepsTo ⟨m, .call base fp returns :: rest⟩ (.running ⟨m, rest⟩)
  | finished {m : Machine} {base fp : Nat} {returns : List Operand} {results : List Bytes}
      (hbase : ¬ base < m.depth) (h : m.readSlots fp returns = .ok results) :
      StepsTo ⟨m, [.call base fp returns]⟩ (.finished m (.ok results))
  | unread {m : Machine} {base fp : Nat} {returns : List Operand} {rest : List Task} {e : Error}
      (hbase : ¬ base < m.depth) (h : m.readSlots fp returns = .error e) :
      StepsTo ⟨m, .call base fp returns :: rest⟩
        (.finished (m.abandon (.call base fp returns :: rest)) (.error e))
  /-- No callback is left of those that were taken up. -/
  | drained {rest : List Task} (m : Machine) (hrest : rest ≠ []) :
      StepsTo ⟨m, .callbacks [] :: rest⟩ (.running ⟨{ m with dispatching := false }, rest⟩)
  | emptied (m : Machine) :
      StepsTo ⟨m, [.callbacks []]⟩ (.finished { m with dispatching := false } (.ok []))
  /-- There is no function for a callback. -/
  | skipped {m : Machine} {c : Callback} {pending : List Callback} {rest : List Task}
      (h : m.program.function? c.function = none) :
      StepsTo ⟨m, .callbacks (c :: pending) :: rest⟩ (.running ⟨m, .callbacks pending :: rest⟩)
  | begun {m m' : Machine} {c : Callback} {pending : List Callback} {rest : List Task} {task : Task}
      (hc : (m.program.function? c.function).isSome)
      (h : Machine.beginCall c.function c.args m = .ok task m') :
      StepsTo ⟨m, .callbacks (c :: pending) :: rest⟩
        (.running ⟨m', task :: .callbacks pending :: rest⟩)
  | refused {m m' : Machine} {c : Callback} {pending : List Callback} {rest : List Task} {e : Error}
      (hc : (m.program.function? c.function).isSome)
      (h : Machine.beginCall c.function c.args m = .error e m') :
      StepsTo ⟨m, .callbacks (c :: pending) :: rest⟩
        (.finished (m'.abandon (.callbacks pending :: rest)) (.error e))

theorem stepsTo {r : Run} {p : Progress} (h : r.step = p) : r.StepsTo p := by
  subst h
  obtain ⟨m, tasks⟩ := r
  cases tasks with
  | nil => exact .idle m
  | cons task rest =>
    unfold step
    cases task with
    | call base fp returns =>
      by_cases hbase : base < m.depth
      · simp only [if_pos hbase]
        cases hadvance : Machine.advance m with
        | error e m' => exact .failed hbase hadvance
        | ok executed m' =>
          cases executed with
          | true => exact .executed hbase hadvance
          | false => exact .returned hbase hadvance
      · simp only [if_neg hbase]
        cases hread : m.readSlots fp returns with
        | error e => exact .unread hbase hread
        | ok results =>
          cases rest with
          | nil => exact .finished hbase hread
          | cons => exact .ended hbase hread (List.cons_ne_nil _ _)
    | callbacks pending =>
      cases pending with
      | nil =>
        cases rest with
        | nil => exact .emptied m
        | cons => exact .drained m (List.cons_ne_nil _ _)
      | cons c pending =>
        dsimp only
        cases hc : m.program.function? c.function with
        | none => exact .skipped hc
        | some function =>
          have hsome := Option.isSome_of_eq_some hc
          cases hbegin : Machine.beginCall c.function c.args m with
          | error e m' => exact .refused hsome hbegin
          | ok task m' => exact .begun hsome hbegin

/-- What a step does if the run goes on: the innermost frame advances, a callback's frame is
entered, or the frames are left alone; and there is something left to do. -/
theorem step_running {r t : Run} (h : r.step = .running t) :
    (∃ m, ((∃ executed, Machine.advance r.machine = .ok executed m) ∨
      (∃ name args task, Machine.beginCall name args r.machine = .ok task m) ∨ m = r.machine) ∧
      m.HostChanged t.machine) ∧ t.tasks ≠ [] := by
  cases stepsTo h with
  | @executed m m' _ _ _ _ _ hadvance =>
    refine ⟨⟨m', .inl ⟨true, hadvance⟩, m'.hostChanged_takeCallbacks⟩, ?_⟩
    exact List.append_ne_nil_of_right_ne_nil _ (List.cons_ne_nil _ _)
  | returned _ hadvance =>
    exact ⟨⟨_, .inl ⟨false, hadvance⟩, .refl _⟩, List.cons_ne_nil _ _⟩
  | ended _ _ hrest => exact ⟨⟨_, .inr (.inr rfl), .refl _⟩, hrest⟩
  | drained m hrest => exact ⟨⟨m, .inr (.inr rfl), _, false, rfl⟩, hrest⟩
  | skipped => exact ⟨⟨_, .inr (.inr rfl), .refl _⟩, List.cons_ne_nil _ _⟩
  | begun _ hbegin =>
    exact ⟨⟨_, .inr (.inl ⟨_, _, _, hbegin⟩), .refl _⟩, List.cons_ne_nil _ _⟩

/-- The runs that a run comes to. Between two steps the host may do to its own state what it likes:
queue callbacks, take them back, or change its windows. -/
inductive Reaches (r : Run) : Run → Prop where
  | refl : Reaches r r
  | step {s t : Run} (h : Reaches r s) (hstep : s.step = .running t) : Reaches r t
  | host {s : Run} (host : Host) (h : Reaches r s) :
      Reaches r { s with machine := { s.machine with work := { s.machine.work with host } } }

end Run

theorem StackStep.length_le (h : StackStep m frames inner)
    (hdepth : frames.length ≤ m.stack.maxDepth) : inner.length ≤ m.stack.maxDepth := by
  cases h with
  | idle => exact hdepth
  | moved => exact hdepth
  | called _ _ _ _ _ hroom => exact hroom
  | left => exact Nat.le_of_succ_le hdepth
  | resumed => exact Nat.le_of_succ_le hdepth

namespace Machine

/-- What holds of the frames at any time of a run. -/
structure Tidy (m : Machine) : Prop where
  keepsSegments : m.KeepsSegments
  depth_le : m.depth ≤ m.stack.maxDepth
  linked : Linked m.program m.arena.stackStart m.arena.stackEnd m.stack.frames

theorem Tidy.hostChanged (h : m.Tidy) (h' : HostChanged m m') : m'.Tidy := by
  refine ⟨h'.sameSetup.keepsSegments h.keepsSegments, ?_, h'.sameSetup.linked.mpr ?_⟩
  · simpa only [depth, h'.stack_eq] using h.depth_le
  · simpa only [h'.stack_eq] using h.linked

theorem Tidy.stepped (h : m.Tidy) (h' : Stepped m m') : SameSetup m m' ∧ m'.Tidy := by
  obtain ⟨frames, hstep, hw⟩ := h'
  have hsetup := hw.sameSetup
  have hall : StackStep m (m.stack.frames ++ []) frames := by rwa [List.append_nil]
  obtain ⟨inner, hframes, hinner⟩ := h.linked.step (.inr rfl) hall
  rw [List.append_nil] at hframes
  subst frames
  refine ⟨hsetup, hsetup.keepsSegments h.keepsSegments, ?_, hsetup.linked.mpr ?_⟩
  · rw [depth, CallStack.depth, hw.frames_eq, hsetup.maxDepth_eq]
    exact hstep.length_le h.depth_le
  · rw [hw.frames_eq]
    exact hinner

theorem Tidy.entered {name : FunctionName} {args : List Bytes} {task : Task} (h : m.Tidy)
    (h' : beginCall name args m = .ok task m') : SameSetup m m' ∧ m'.Tidy := by
  obtain ⟨function, hfun, -, hroom, hdepth, hw⟩ := ends_beginCall.value h'
  have hsetup := hw.sameSetup
  obtain rfl := Program.reference_of_function? hfun
  refine ⟨hsetup, hsetup.keepsSegments h.keepsSegments, ?_, hsetup.linked.mpr ?_⟩
  · rw [depth, CallStack.depth, hw.frames_eq, hsetup.maxDepth_eq]
    exact hdepth
  · rw [hw.frames_eq]
    have hbase : (function.frame m.nextFp m.nextFp false).returnsToCaller ≠ true :=
      Bool.false_ne_true
    exact .cons m.nextFp_eq hroom ⟨function, hfun, rfl, Nat.zero_le _⟩ (absurd · hbase) h.linked

end Machine

namespace Run

variable {r s t : Run}

theorem tidy_step (h : s.machine.Tidy) (hstep : s.step = .running t) :
    Machine.SameSetup s.machine t.machine ∧ t.machine.Tidy := by
  obtain ⟨⟨m, hm, hhost⟩, -⟩ := step_running hstep
  have hboth : Machine.SameSetup s.machine m ∧ m.Tidy := by
    rcases hm with ⟨executed, hadv⟩ | ⟨name, args, task, hcall⟩ | rfl
    · exact h.stepped ((Machine.ends_advance h.keepsSegments).value hadv)
    · exact h.entered hcall
    · exact ⟨.refl _, h⟩
  exact ⟨hboth.1.trans hhost.sameSetup, hboth.2.hostChanged hhost⟩

theorem Reaches.tidy (h : Reaches r s) (hr : r.machine.Tidy) :
    Machine.SameSetup r.machine s.machine ∧ s.machine.Tidy := by
  induction h with
  | refl => exact ⟨.refl _, hr⟩
  | step _ hstep ih =>
    have hboth := tidy_step ih.2 hstep
    exact ⟨ih.1.trans hboth.1, hboth.2⟩
  | @host s host _ ih =>
    have hhost : s.machine.HostChanged { s.machine with work := { s.machine.work with host } } :=
      ⟨host, _, rfl⟩
    exact ⟨ih.1.trans hhost.sameSetup, ih.2.hostChanged hhost⟩

end Run

namespace Machine

/-- The frames, outermost first. -/
def outermostFirst (m : Machine) : List Frame := m.stack.frames.reverse

/-- The layout of the frames, numbered from the outermost. -/
structure WellStacked (m : Machine) : Prop where
  depth_le : m.depth ≤ m.options.maxCallDepth
  first : ∀ f, m.outermostFirst[0]? = some f → f.fp = m.arena.stackStart
  next : ∀ i f g, m.outermostFirst[i]? = some f → m.outermostFirst[i + 1]? = some g → g.fp = f.stop
  last : ∀ f, m.outermostFirst.getLast? = some f → f.stop ≤ m.arena.stackEnd
  within : ∀ f ∈ m.outermostFirst, ∃ function, m.program.function? f.function = some function ∧
    f.size = function.frameSize ∧ f.pc ≤ function.body.length
  caller : ∀ i f, m.outermostFirst[i]? = some f → f.returnsToCaller = true →
    ∃ j caller function n signature, i = j + 1 ∧ m.outermostFirst[j]? = some caller ∧
      caller.fp = f.callerFp ∧ m.program.function? caller.function = some function ∧
      function.body[caller.pc]? = some n ∧ n.operator = some (.call f.function signature)
  /-- Every frame lies between the data segment and the heap. -/
  inside : ∀ f ∈ m.outermostFirst, m.arena.stackStart ≤ f.fp ∧ f.stop ≤ m.arena.stackEnd
  disjoint : m.outermostFirst.Pairwise fun f g => f.stop ≤ g.fp

theorem exists_append_of_outermostFirst {i : Nat} (h : m.outermostFirst[i]? = some f) :
    ∃ inner outer, m.stack.frames = inner ++ f :: outer ∧ outer.length = i := by
  obtain ⟨hi, hf⟩ := List.getElem?_eq_some_iff.mp h
  refine ⟨(m.outermostFirst.drop (i + 1)).reverse, (m.outermostFirst.take i).reverse, ?_, ?_⟩
  · have hsplit :
        m.outermostFirst = m.outermostFirst.take i ++ f :: m.outermostFirst.drop (i + 1) := by
      rw [← hf, ← List.drop_eq_getElem_cons hi, List.take_append_drop]
    have hrev := congrArg List.reverse hsplit
    simpa only [outermostFirst, List.reverse_reverse, List.reverse_append, List.reverse_cons,
      List.append_assoc, List.cons_append, List.nil_append] using hrev
  · rw [List.length_reverse, List.length_take]
    omega

theorem getElem?_outermostFirst (h : m.stack.frames = inner ++ f :: outer) :
    m.outermostFirst[outer.length]? = some f := by
  simp [outermostFirst, h]

theorem Tidy.exists_linked {i : Nat} (h : m.Tidy) (hf : m.outermostFirst[i]? = some f) :
    ∃ inner outer, m.stack.frames = inner ++ f :: outer ∧ outer.length = i ∧
      Linked m.program m.arena.stackStart m.arena.stackEnd (f :: outer) := by
  obtain ⟨inner, outer, hm, hlen⟩ := exists_append_of_outermostFirst hf
  have hlinked := h.linked
  rw [hm] at hlinked
  exact ⟨inner, outer, hm, hlen, hlinked.of_append⟩

theorem Tidy.wellStacked (h : m.Tidy) (hdepth : m.stack.maxDepth = m.options.maxCallDepth) :
    m.WellStacked where
  depth_le := hdepth ▸ h.depth_le
  first f hf := by
    obtain ⟨inner, outer, -, hlen, hlinked⟩ := h.exists_linked hf
    cases hlinked with
    | cons hfp _ _ _ _ =>
      rw [hfp, List.length_eq_zero_iff.mp hlen]
      rfl
  next i f g hf hg := by
    obtain ⟨inner, outer, hm, hlen, hlinked⟩ := h.exists_linked hg
    cases hlinked with
    | cons hfp _ _ _ _ =>
      cases outer with
      | nil => cases hlen
      | cons f' outer =>
        have hf' : m.outermostFirst[outer.length]? = some f' :=
          getElem?_outermostFirst (hm.trans (List.append_cons ..))
        obtain rfl : outer.length = i := Nat.succ.inj hlen
        rw [hf] at hf'
        cases hf'
        exact hfp
  last f hf := (h.linked.inside (List.mem_reverse.mp (List.mem_of_getLast? hf))).2.1
  within f hf := (h.linked.inside (List.mem_reverse.mp hf)).2.2
  caller i f hf hreturns := by
    obtain ⟨inner, outer, hm, hlen, hlinked⟩ := h.exists_linked hf
    cases hlinked with
    | cons _ _ _ hcaller _ =>
      obtain ⟨caller, hhead, hfp, function, n, signature, hfun, hn, hop⟩ := hcaller hreturns
      obtain ⟨rest, rfl⟩ := List.head?_eq_some_iff.mp hhead
      have hcaller' : m.outermostFirst[rest.length]? = some caller :=
        getElem?_outermostFirst (hm.trans (List.append_cons ..))
      exact ⟨rest.length, caller, function, n, signature, hlen.symm, hcaller', hfp, hfun, hn, hop⟩
  inside f hf :=
    have hinside := h.linked.inside (List.mem_reverse.mp hf)
    ⟨hinside.1, hinside.2.1⟩
  disjoint := List.pairwise_reverse.mpr h.linked.pairwise

/-- Between linked frames a return always finds the node it returns to. -/
theorem Tidy.not_missesNode (h : m.Tidy) : ¬ MissesNode m := by
  rintro ⟨f, caller, outer, function, hm, hreturns, hfun, hn⟩
  have hlinked := h.linked
  rw [hm] at hlinked
  cases hlinked with
  | cons _ _ _ hcaller _ =>
    obtain ⟨caller', hhead, -, function', n, -, hfun', hn', -⟩ := hcaller hreturns
    obtain rfl : caller = caller' := Option.some.inj hhead
    obtain rfl : function = function' := Option.some.inj (hfun.symm.trans hfun')
    rw [hn] at hn'
    cases hn'

end Machine

/-- At any time of a run that a call from outside started, the frames are well stacked in the same
segments as at its start, and a return is never without a node to return to. -/
theorem wellStacked_of_reaches {name : FunctionName} {args : List Bytes} {r₀ r : Run}
    (hops : m.KeepsSegments) (hempty : m.stack = { maxDepth := m.options.maxCallDepth })
    (hstart : m.startCall name args = .running r₀) (hr : r₀.Reaches r) :
    r.machine.WellStacked ∧ m.SameSetup r.machine ∧
      ∀ op reason m', Machine.leave r.machine ≠ .error (.invalidArguments op reason) m' := by
  have htidy : m.Tidy := by
    refine ⟨hops, ?_, ?_⟩
    · rw [Machine.depth, hempty]
      exact Nat.zero_le _
    · rw [hempty]
      exact .nil
  have hentered : m.SameSetup r₀.machine ∧ r₀.machine.Tidy := by
    unfold Machine.startCall at hstart
    split at hstart
    · cases hstart
    · rename_i task m' hcall
      cases hstart
      exact htidy.entered hcall
  obtain ⟨hsetup, hreached⟩ := hr.tidy hentered.2
  have hall := hentered.1.trans hsetup
  refine ⟨hreached.wellStacked ?_, hall, fun op reason m' hleave => ?_⟩
  · rw [hall.maxDepth_eq, hall.options_eq, hempty]
  · exact hreached.not_missesNode ((Machine.ends_leave.failure hleave).2 op reason rfl)

/-- A machine with a function `outer` that calls a function `inner`. -/
def nestingMachine : Machine where
  program := {
    functions := [
      { package := "main", name := "outer", frameSize := 4,
        body := [{ operator := some (.call ⟨"main", "inner"⟩ {}) }] },
      { package := "main", name := "inner", frameSize := 2 }] }
  primitives := .standard
  options := {}
  work := {
    arena := {
      image := Array.replicate 24 0, stackStart := 8, stackEnd := 16, capacity := 24, limit := 24 }
    random := .ofSeed 0 }
  stack := { maxDepth := ({} : Options).maxCallDepth }

theorem wellStacked_nestingMachine :
    ∃ r₀ r, nestingMachine.startCall ⟨"main", "outer"⟩ [] = .running r₀ ∧ r₀.Reaches r ∧
      r.machine.depth = 2 ∧ r.machine.WellStacked := by
  have hops : nestingMachine.KeepsSegments := fun p hp => .inl (List.mem_append_left _ hp)
  obtain ⟨r₀, r, hstart, hstep, hdepth⟩ : ∃ r₀ r,
      nestingMachine.startCall ⟨"main", "outer"⟩ [] = .running r₀ ∧ r₀.step = .running r ∧
        r.machine.depth = 2 := ⟨_, _, rfl, rfl, rfl⟩
  have hr : r₀.Reaches r := .step .refl hstep
  exact ⟨r₀, r, hstart, hr, hdepth, (wellStacked_of_reaches hops rfl hstart hr).1⟩

end FlatMachine
