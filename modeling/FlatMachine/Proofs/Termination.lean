import FlatMachine.Proofs.Neutrality
import FlatMachine.Proofs.Soundness
import Mathlib.Algebra.Group.Nat.Defs
import Mathlib.Data.List.MinMax

/-!
# Forward programs stop

Where no jump goes back, the innermost frame of a call moves on in its body, enters a callee, or
returns and moves its caller on. The nodes that are left in the frames of a call, the outermost
first, are the digits of a number in which a frame that is not there has the largest digit. Every
step makes that number smaller, so a call of limited depth comes to an end, and its number at the
start bounds the steps that it takes.
-/

namespace FlatMachine

open FlatMachine.Action

variable {p : Program} {m m' : Machine} {f g : Frame} {frames frames' inner outer base : List Frame}
  {n : Node} {depth : Nat}

/-- The operator does not jump back. -/
def Node.Forward (n : Node) : Prop :=
  ∀ onTrue onFalse, n.operator = some (.jump onTrue onFalse) → 0 ≤ onTrue ∧ 0 ≤ onFalse

def Program.Forward (p : Program) : Prop := ∀ f ∈ p.functions, ∀ n ∈ f.body, n.Forward

/-- A frame that is innermost before and after has moved on. -/
def Onward (frames frames' : List Frame) : Prop :=
  ∀ f f' outer, frames = f :: outer → frames' = f' :: outer → f.pc < f'.pc

theorem onward_of_length_ne (h : frames'.length ≠ frames.length) : Onward frames frames' := by
  rintro f f' outer rfl rfl
  exact absurd rfl h

theorem onward_setPc {pc : Nat} (h : f.pc < pc) : Onward (f :: outer) ({ f with pc } :: outer) := by
  rintro _ _ _ ⟨⟩ ⟨⟩
  exact h

namespace Machine

/-- The frames have changed by a step onward, and otherwise nothing but the workspace. -/
def Advanced (m m' : Machine) : Prop :=
  ∃ frames work, StackStep m m.stack.frames frames ∧ Onward m.stack.frames frames ∧
    m' = { m.withFrames frames with work }

/-- However a return ends, it takes one frame away. -/
theorem ends_leave_frames : Ends leave m
    (fun _ m' => m'.stack.frames.length = m.stack.frames.length - 1) (fun _ _ => True) := by
  simp only [leave, ends_bind, ends_get]
  cases hm : m.stack.frames with
  | nil =>
    simp only [CallStack.top?, hm, List.head?_nil, ends_pure]
    rfl
  | cons f outer =>
    simp only [CallStack.top?, CallStack.pop, hm, List.head?_cons, List.tail_cons, ends_bind,
      ends_set, ends_ite, ends_pure, ends_ofExcept, List.length_cons, Nat.add_sub_cancel,
      implies_true, and_true]
    intro _
    apply gives_of_ok ?_ fun _ => trivial
    intro callee _
    cases outer with
    | nil => rfl
    | cons caller outer =>
      simp only [List.head?_cons, ends_bind, ends_ofExcept]
      apply gives_of_ok ?_ fun _ => trivial
      intro function _
      split
      · trivial
      · simp only [ends_bind, ends_mapError, ends_modify]
        apply (keeps_worked_storeResults _ _ _ _ _).mono ?_ fun _ _ _ => trivial
        intro _ m' hw
        have hmoved : Worked _ (m'.setPc (caller.pc + 1)) := hw.setPc rfl
        rw [hmoved.frames_eq]
        rfl

theorem ends_leave_advanced : Ends leave m (fun _ m' => Advanced m m') (fun _ _ => True) := by
  refine ends_iff.mpr ⟨fun _ m' h => ?_, fun _ _ _ => trivial⟩
  obtain ⟨frames, hstep, work, rfl, -⟩ := ends_leave.value h
  have hlength := ends_leave_frames.value h
  refine ⟨frames, work, hstep, ?_, rfl⟩
  cases hm : m.stack.frames with
  | nil =>
    intro _ _ _ h
    cases h
  | cons f outer =>
    apply onward_of_length_ne
    rw [← hm]
    have hlength : frames.length = m.stack.frames.length - 1 := hlength
    rw [hlength, hm]
    exact Nat.ne_of_lt (Nat.lt_succ_self _)

/-- A jump by a count that is not negative goes on. -/
theorem gives_jumpLanding_forward {pc length : Nat} {skip : Int} (h : 0 ≤ skip) :
    Gives (jumpLanding pc length skip) (fun target => pc < target ∧ target ≤ length)
      (fun _ => True) := by
  simp only [jumpLanding, gives_ite, gives_ok, gives_error]
  refine ⟨fun _ => trivial, fun hinside => ?_⟩
  omega

theorem ends_executeAt_advanced {function : Function} (hforward : n.Forward)
    (hm : m.stack.frames = f :: outer) (hfun : m.program.function? f.function = some function)
    (hn : function.body[f.pc]? = some n) :
    Ends (executeAt function f.fp f.pc n) m (fun _ m' => Advanced m m') (fun _ _ => True) := by
  have hmoved : ∀ (work : Workspace) {pc : Nat}, f.pc < pc → pc ≤ function.body.length →
      Advanced m (setPc { m with work } pc) := by
    intro work pc hlt hle
    have hm' : ({ m with work } : Machine).stack.frames = f :: outer := hm
    rw [setPc_eq hm']
    exact ⟨_, work, hm ▸ .moved pc hfun hle, hm ▸ onward_setPc hlt, rfl⟩
  have hlt : f.pc < function.body.length := (List.getElem?_eq_some_iff.mp hn).1
  unfold executeAt
  split
  · rename_i callee signature hop
    apply ends_callNode.mono ?_ fun _ _ _ => trivial
    rintro _ m' ⟨g, hg, hroom, hdepth, work, rfl, -⟩
    have htop : m.nextFp = f.stop := by rw [nextFp_eq, hm]; rfl
    rw [htop] at hroom ⊢
    have hdepth : outer.length + 1 < m.stack.maxDepth := by
      simpa only [Machine.depth, CallStack.depth, hm, List.length_cons] using hdepth
    have hcalled := StackStep.called hfun hn hop hg hroom hdepth
    rw [← hm] at hcalled
    exact ⟨_, work, hcalled, onward_of_length_ne (Nat.succ_ne_self _), rfl⟩
  · rename_i onTrue onFalse hop
    obtain ⟨htrue, hfalse⟩ := hforward onTrue onFalse hop
    simp only [ends_bind, ends_query, ends_modify]
    rw [jumpTarget_eq, gives_bind]
    apply gives_of_ok ?_ fun _ => trivial
    intro taken _
    have hskip : 0 ≤ if taken then onTrue else onFalse := by split <;> assumption
    exact (gives_jumpLanding_forward hskip).imp fun pc hpc => hmoved m.work hpc.1 hpc.2
  · simp only [ends_bind, ends_modify]
    apply (ends_executeNode_work f.fp n m).mono ?_ fun _ _ _ => trivial
    rintro _ _ ⟨work, rfl⟩
    exact hmoved work (Nat.lt_succ_self _) hlt

/-- One step of the innermost frame, with any operators. -/
theorem ends_advance_advanced (hforward : m.program.Forward) :
    Ends advance m (fun _ m' => Advanced m m') (fun _ _ => True) := by
  apply ends_advance_cases
  · intro hm
    have hidle : StackStep m m.stack.frames [] := by
      rw [hm]
      exact .idle
    refine ⟨[], m.work, hidle, ?_, ?_⟩
    · intro _ _ _ _ h
      cases h
    · rw [← hm]
      rfl
  · exact fun _ _ _ _ => trivial
  · exact fun _ _ _ _ _ _ => ends_leave_advanced
  · intro f outer function n hm hfun hn
    have hnode := hforward function (List.mem_of_find?_eq_some hfun) n (List.mem_of_getElem? hn)
    exact ends_executeAt_advanced hnode hm hfun hn

end Machine

/-! ## What is left to execute -/

/-- The length of the longest body. -/
def Program.longestBody (p : Program) : Nat := (p.functions.map (·.body.length)).foldr max 0

theorem Program.length_le_longestBody {name : FunctionName} {function : Function}
    (h : p.function? name = some function) : function.body.length ≤ p.longestBody :=
  List.le_max_of_le' 0 (List.mem_map_of_mem (List.mem_of_find?_eq_some h)) le_rfl

/-- The nodes from the frame's next one on. -/
def Frame.left (p : Program) (f : Frame) : Nat :=
  match p.function? f.function with
  | some function => function.body.length - f.pc
  | none => 0

theorem Frame.left_eq {function : Function} (h : p.function? f.function = some function) :
    f.left p = function.body.length - f.pc := by
  simp only [Frame.left, h]

namespace Program

/-- One more than the largest digit. -/
def radix (p : Program) : Nat := p.longestBody + 2

/-- The number whose digits are the nodes left in the frames, innermost last. -/
def rank (p : Program) : List Frame → Nat
  | [] => 0
  | f :: outer => p.rank outer * p.radix + f.left p

/-- The number for frames of which `depth` have room; those that are not there have the largest
digit. Without frames nothing is left to do. -/
def potential (p : Program) (depth : Nat) (frames : List Frame) : Nat :=
  if frames = [] then 0 else (p.rank frames + 1) * p.radix ^ (depth - frames.length)

theorem radix_pos (p : Program) : 0 < p.radix := Nat.succ_pos _

theorem potential_cons :
    p.potential depth (f :: outer) =
      (p.rank (f :: outer) + 1) * p.radix ^ (depth - (outer.length + 1)) := rfl

theorem potential_pos : 0 < p.potential depth (f :: outer) :=
  Nat.mul_pos (Nat.succ_pos _) (Nat.pow_pos p.radix_pos)

theorem potential_moved {function : Function} {pc : Nat}
    (hfun : p.function? f.function = some function) (hlt : f.pc < pc)
    (hle : pc ≤ function.body.length) :
    p.potential depth ({ f with pc } :: outer) < p.potential depth (f :: outer) := by
  have hfun' : p.function? ({ f with pc } : Frame).function = some function := hfun
  rw [potential_cons, potential_cons, rank, rank, Frame.left_eq hfun, Frame.left_eq hfun']
  apply Nat.mul_lt_mul_of_pos_right ?_ (Nat.pow_pos p.radix_pos)
  have hpc : ({ f with pc } : Frame).pc = pc := rfl
  omega

/-- A callee has a smaller digit than no frame. -/
theorem potential_called {function : Function} (hdepth : (f :: outer).length < depth)
    (hfun : p.function? g.function = some function) :
    p.potential depth (g :: f :: outer) < p.potential depth (f :: outer) := by
  obtain ⟨k, rfl⟩ := Nat.exists_eq_add_of_lt hdepth
  have hleft : g.left p ≤ p.longestBody := by
    rw [Frame.left_eq hfun]
    exact (Nat.sub_le _ _).trans (length_le_longestBody hfun)
  have hk : (f :: outer).length + k + 1 - (outer.length + 1) = k + 1 := by
    rw [List.length_cons]
    omega
  have hk' : (f :: outer).length + k + 1 - ((f :: outer).length + 1) = k := by omega
  rw [potential_cons, potential_cons, hk, hk', rank, Nat.pow_succ, Nat.mul_comm (p.radix ^ k),
    ← Nat.mul_assoc]
  apply Nat.mul_lt_mul_of_pos_right ?_ (Nat.pow_pos p.radix_pos)
  rw [Nat.add_mul, radix]
  omega

/-- A caller's smaller digit makes up for the callee that is gone. -/
theorem potential_resumed {caller : Frame} {function : Function}
    (hdepth : outer.length + 2 ≤ depth) (hfun : p.function? caller.function = some function)
    (hlt : caller.pc < function.body.length) :
    p.potential depth ({ caller with pc := caller.pc + 1 } :: outer) <
      p.potential depth (f :: caller :: outer) := by
  obtain ⟨k, rfl⟩ := Nat.exists_eq_add_of_le hdepth
  have hk : outer.length + 2 + k - (outer.length + 1) = k + 1 := by omega
  have hk' : outer.length + 2 + k - ((caller :: outer).length + 1) = k := by
    rw [List.length_cons]
    omega
  have hfun' : p.function? ({ caller with pc := caller.pc + 1 } : Frame).function =
      some function := hfun
  have hleft : ({ caller with pc := caller.pc + 1 } : Frame).left p + 1 = caller.left p := by
    rw [Frame.left_eq hfun, Frame.left_eq hfun']
    have hpc : ({ caller with pc := caller.pc + 1 } : Frame).pc = caller.pc + 1 := rfl
    omega
  have hrank : p.rank ({ caller with pc := caller.pc + 1 } :: outer) + 1 =
      p.rank (caller :: outer) := by
    rw [rank, rank, Nat.add_assoc, hleft]
  rw [potential_cons, potential_cons, hk, hk', hrank, Nat.pow_succ, Nat.mul_comm (p.radix ^ k),
    ← Nat.mul_assoc]
  apply Nat.mul_lt_mul_of_pos_right ?_ (Nat.pow_pos p.radix_pos)
  have hcallee : p.rank (f :: caller :: outer) =
    p.rank (caller :: outer) * p.radix + f.left p := rfl
  omega

end Program

/-- Frames of one call: the lowest was entered from outside, each other one from a node of the frame
below it. -/
inductive Nested : List Frame → Prop where
  | lowest {f : Frame} (h : f.returnsToCaller = false) : Nested [f]
  | inner {f : Frame} {outer : List Frame} (h : f.returnsToCaller = true) (houter : Nested outer) :
      Nested (f :: outer)

theorem Nested.setPc {pc : Nat} (h : Nested (f :: outer)) : Nested ({ f with pc } :: outer) := by
  cases h with
  | lowest h => exact .lowest h
  | inner h houter => exact .inner h houter

/-- A step onward of a call keeps its frames nested, stays above the others and leaves less to
do. -/
theorem Nested.step (h : Nested inner) (hdepth : inner.length + base.length ≤ m.stack.maxDepth)
    (hstep : StackStep m (inner ++ base) frames) (honward : Onward (inner ++ base) frames) :
    ∃ inner', frames = inner' ++ base ∧ (inner' = [] ∨ Nested inner') ∧
      inner'.length + base.length ≤ m.stack.maxDepth ∧
      m.program.potential (m.stack.maxDepth - base.length) inner' <
        m.program.potential (m.stack.maxDepth - base.length) inner := by
  obtain ⟨f, upper, rfl⟩ : ∃ f upper, inner = f :: upper := by
    cases h with
    | lowest => exact ⟨_, _, rfl⟩
    | inner => exact ⟨_, _, rfl⟩
  rw [List.length_cons] at hdepth
  generalize hall : f :: upper ++ base = all at hstep honward
  cases hstep with
  | idle => cases hall
  | moved pc hfun hpc =>
    obtain ⟨rfl, rfl⟩ := List.cons.inj hall
    have hlt : f.pc < pc := honward _ _ _ rfl rfl
    exact ⟨_ :: upper, rfl, .inr h.setPc, hdepth, Program.potential_moved hfun hlt hpc⟩
  | @called f' outer function n callee signature g hfun hn hop hg hroom hlimit =>
    obtain ⟨rfl, rfl⟩ := List.cons.inj hall
    obtain rfl := Program.reference_of_function? hg
    have hlimit : upper.length + base.length + 1 < m.stack.maxDepth := by
      rw [← List.length_append]
      exact hlimit
    refine ⟨_ :: f :: upper, rfl, .inr (.inner rfl h), ?_, Program.potential_called ?_ hg⟩
    · simp only [List.length_cons]
      omega
    · rw [List.length_cons]
      omega
  | left hreturns =>
    obtain ⟨rfl, rfl⟩ := List.cons.inj hall
    -- Only a frame without a caller is left like this, and that is the lowest.
    cases h with
    | lowest => exact ⟨[], rfl, .inl rfl, by omega, Program.potential_pos⟩
    | inner hreturns' houter =>
      obtain ⟨rfl, -⟩ := List.append_eq_nil_iff.mp (hreturns hreturns')
      cases houter
  | @resumed f' caller outer function n hreturns hfun hn =>
    obtain ⟨rfl, hupper⟩ := List.cons.inj hall
    cases h with
    | lowest hnone =>
      rw [hnone] at hreturns
      cases hreturns
    | inner _ houter =>
      obtain ⟨caller', upper, rfl⟩ : ∃ caller' upper', upper = caller' :: upper' := by
        cases houter with
        | lowest => exact ⟨_, _, rfl⟩
        | inner => exact ⟨_, _, rfl⟩
      obtain ⟨rfl, rfl⟩ := List.cons.inj hupper
      rw [List.length_cons] at hdepth
      have hlt := (List.getElem?_eq_some_iff.mp hn).1
      refine ⟨_ :: upper, rfl, .inr houter.setPc, ?_, Program.potential_resumed ?_ hfun hlt⟩
      · rw [List.length_cons]
        omega
      · omega

namespace Run

variable {r t : Run} {runs : Nat → Run} {count : Nat}

/-- A step, with any changes that the host makes to its own state before it, after which no callback
waits if a node was executed. -/
def QuietStep (r t : Run) : Prop :=
  ∃ host, ∃ m : Machine, m = { r.machine with work := { r.machine.work with host } } ∧
    Run.step ⟨m, r.tasks⟩ = .running t ∧ ∀ m', Machine.advance m = .ok true m' → m'.callbacks = []

/-- The run makes a single call, on top of frames that are not its own, with so much left to do. -/
structure Descends (p : Program) (maxDepth : Nat) (base : List Frame) (count : Nat) (r : Run) :
    Prop where
  program_eq : r.machine.program = p
  maxDepth_eq : r.machine.stack.maxDepth = maxDepth
  task : ∃ fp returns, r.tasks = [.call base.length fp returns]
  frames : ∃ inner, r.machine.stack.frames = inner ++ base ∧ (inner = [] ∨ Nested inner) ∧
    inner.length + base.length ≤ maxDepth ∧ p.potential (maxDepth - base.length) inner = count

/-- A call that has begun has less left to do than frames of the longest body could hold. -/
theorem Descends.begun {name : FunctionName} {args : List Bytes} {task : Task}
    (h : Machine.beginCall name args m = .ok task m') :
    ∃ count < m.program.radix ^ m.stack.maxDepth,
      Descends m.program m.stack.maxDepth m.stack.frames count ⟨m', [task]⟩ := by
  obtain ⟨function, hfun, rfl, -, hdepth, work, rfl, -⟩ := Machine.ends_beginCall.value h
  obtain rfl := Program.reference_of_function? hfun
  have hbase : (function.frame m.nextFp m.nextFp false).returnsToCaller = false := rfl
  have hframes : [function.frame m.nextFp m.nextFp false].length + m.stack.frames.length ≤
      m.stack.maxDepth := by
    rw [List.length_singleton, Nat.add_comm]
    exact hdepth
  refine ⟨_, ?_, rfl, rfl, ⟨_, _, rfl⟩, [_], rfl, .inr (.lowest hbase), hframes, rfl⟩
  rw [List.length_singleton] at hframes
  have hleft : (function.frame m.nextFp m.nextFp false).left m.program = function.body.length :=
    Frame.left_eq hfun
  have hsmall : m.program.rank [function.frame m.nextFp m.nextFp false] + 1 < m.program.radix := by
    rw [Program.rank, Program.rank, Nat.zero_mul, Nat.zero_add, hleft, Program.radix]
    have hle := Program.length_le_longestBody hfun
    omega
  calc m.program.potential (m.stack.maxDepth - m.stack.frames.length)
        [function.frame m.nextFp m.nextFp false]
      < m.program.radix * m.program.radix ^ (m.stack.maxDepth - m.stack.frames.length - 1) :=
        Nat.mul_lt_mul_of_pos_right hsmall (Nat.pow_pos m.program.radix_pos)
    _ = m.program.radix ^ (m.stack.maxDepth - m.stack.frames.length) := by
        rw [Nat.mul_comm, ← Nat.pow_succ]
        congr 1
        omega
    _ ≤ m.program.radix ^ m.stack.maxDepth :=
        Nat.pow_le_pow_right m.program.radix_pos (Nat.sub_le _ _)

variable {maxDepth : Nat}

theorem Descends.host (h : Descends p maxDepth base count r) (host : Host) :
    Descends p maxDepth base count
      { r with machine := { r.machine with work := { r.machine.work with host } } } :=
  ⟨h.program_eq, h.maxDepth_eq, h.task, h.frames⟩

/-- Executing a node or a return of the call leaves less to do. -/
theorem Descends.advance (h : Descends p maxDepth base count r) (hforward : p.Forward)
    {executed : Bool} (hrunning : base.length < r.machine.depth)
    (hadvance : Machine.advance r.machine = .ok executed m') :
    ∃ count' < count, Descends p maxDepth base count' ⟨m', r.tasks⟩ := by
  obtain ⟨rfl, rfl, htask, inner, hframes, hinner, hdepth, rfl⟩ := h
  have hnested : Nested inner := by
    refine hinner.resolve_left ?_
    rintro rfl
    rw [Machine.depth, CallStack.depth, hframes, List.nil_append] at hrunning
    exact Nat.lt_irrefl _ hrunning
  obtain ⟨frames, work, hstack, honward, rfl⟩ :=
    (Machine.ends_advance_advanced hforward).value hadvance
  rw [hframes] at hstack honward
  obtain ⟨inner', rfl, hnested', hdepth', hless⟩ := hnested.step hdepth hstack honward
  exact ⟨_, hless, rfl, rfl, htask, inner', rfl, hnested', hdepth', rfl⟩

/-- A step after which no callback waits leaves less to do. -/
theorem Descends.step (h : Descends p maxDepth base count r) (hforward : p.Forward)
    (hquiet : ∀ m', Machine.advance r.machine = .ok true m' → m'.callbacks = [])
    (hstep : r.step = .running t) : ∃ count' < count, Descends p maxDepth base count' t := by
  obtain ⟨m, tasks⟩ := r
  obtain ⟨fp, returns, rfl⟩ : ∃ fp returns, tasks = [.call base.length fp returns] := h.task
  cases stepsTo hstep with
  | executed hbase hadvance =>
    rw [Machine.takeCallbacks_of_empty (hquiet _ hadvance)]
    exact h.advance hforward hbase hadvance
  | returned hbase hadvance => exact h.advance hforward hbase hadvance
  | ended _ _ hrest => exact absurd rfl hrest

/-- What is left to do bounds the steps that a run takes. -/
theorem Descends.steps_le (h : Descends p maxDepth base count (runs 0)) (hforward : p.Forward)
    {k : Nat} (hsteps : ∀ i < k, QuietStep (runs i) (runs (i + 1))) :
    ∃ count', count' + k ≤ count ∧ Descends p maxDepth base count' (runs k) := by
  induction k with
  | zero => exact ⟨count, le_rfl, h⟩
  | succ k ih =>
    obtain ⟨before, hbefore, hdescends⟩ := ih fun i hi => hsteps i (Nat.lt_succ_of_lt hi)
    obtain ⟨host, m, rfl, hstep, hquiet⟩ := hsteps k (Nat.lt_succ_self k)
    obtain ⟨after, hafter, hdescends'⟩ := (hdescends.host host).step hforward hquiet hstep
    exact ⟨after, by omega, hdescends'⟩

/-- What is left to do, and one step more, bring a run to its end. -/
theorem Descends.finish? (h : Descends p maxDepth base count r) (hforward : p.Forward)
    (hquiet : r.Quiet) {fuel : Nat} (hfuel : count < fuel) :
    ∃ m' outcome, r.finish? fuel = some (m', outcome) := by
  induction fuel generalizing r count with
  | zero => omega
  | succ fuel ih =>
    rw [Run.finish?]
    obtain ⟨hadvance, hnext⟩ := quiet_iff.mp hquiet
    cases hstep : r.step with
    | finished m' outcome => exact ⟨m', outcome, rfl⟩
    | running t =>
      obtain ⟨count', hless, hdescends⟩ := h.step hforward (hadvance true) hstep
      exact ih hdescends (hnext t hstep) (by omega)

end Run

/-- A call of a program without backward jumps comes to an end, with any operators and recursion, if
no callback is queued: as long as none waits after a node it takes fewer steps than the number
that has a digit for every frame there is room for, whatever else the host does between them, and
so it returns results or an error. -/
theorem forward_call_ends {name : FunctionName} {args : List Bytes}
    (hforward : m.program.Forward) :
    (∀ runs : Nat → Run, m.startCall name args = .running (runs 0) →
      (∀ k, (∀ i < k, Run.QuietStep (runs i) (runs (i + 1))) →
        k < (m.program.longestBody + 2) ^ m.stack.maxDepth) ∧
      ¬ ∀ i, Run.QuietStep (runs i) (runs (i + 1))) ∧
    ((∀ r, m.startCall name args = .running r → r.Quiet) → ∃ m' outcome,
      (m.startCall name args).finish? ((m.program.longestBody + 2) ^ m.stack.maxDepth) =
        some (m', outcome)) := by
  cases hbegin : Machine.beginCall name args m with
  | error e m' =>
    have hstart : m.startCall name args = .finished m' (.error e) := by
      simp only [Machine.startCall, hbegin]
    rw [hstart]
    refine ⟨fun _ h => ?_, fun _ => ⟨m', .error e, rfl⟩⟩
    cases h
  | ok task m' =>
    have hstart : m.startCall name args = .running ⟨m', [task]⟩ := by
      simp only [Machine.startCall, hbegin]
    obtain ⟨count, hcount, hdescends⟩ := Run.Descends.begun hbegin
    rw [hstart]
    refine ⟨fun runs hruns => ?_, fun hquiet => ?_⟩
    · obtain hfirst : ⟨m', [task]⟩ = runs 0 := Progress.running.inj hruns
      rw [hfirst] at hdescends
      have hbound : ∀ k, (∀ i < k, Run.QuietStep (runs i) (runs (i + 1))) →
          k < (m.program.longestBody + 2) ^ m.stack.maxDepth := by
        intro k hsteps
        obtain ⟨count', hle, -⟩ := hdescends.steps_le hforward hsteps
        exact (Nat.le_of_add_left_le hle).trans_lt hcount
      exact ⟨hbound, fun hsteps => Nat.lt_irrefl _ (hbound _ fun i _ => hsteps i)⟩
    · exact hdescends.finish? hforward (hquiet _ rfl) hcount

/-- A machine for a function that jumps to its next node and there calls itself. -/
def recursingMachine : Machine :=
  { spinMachine with
    program := {
      functions := [
        { package := "main", name := "recurse",
          body := [
            { operator := some (.jump 0 0) },
            { operator := some (.call ⟨"main", "recurse"⟩ {}) }] }] } }

/-- Its calls end for want of frames. -/
theorem forward_call_ends_recursingMachine :
    recursingMachine.program.Forward ∧ ∃ m' e,
      (recursingMachine.startCall ⟨"main", "recurse"⟩ []).finish? 4 = some (m', .error e) ∧
        e.root = .stackOverflow 1 := by
  have hforward : recursingMachine.program.Forward := by
    intro f hf n hn onTrue onFalse hop
    obtain rfl := List.mem_singleton.mp hf
    simp only [List.mem_cons, List.not_mem_nil, or_false] at hn
    rcases hn with rfl | rfl
    · cases hop
      exact ⟨le_rfl, le_rfl⟩
    · cases hop
  obtain ⟨r, m₁, r₁, e₁, m₂, e, m₃, hstart, hadvance, hcallbacks, hstep, hfails, hend, hroot⟩ :
      ∃ r m₁ r₁ e₁ m₂ e m₃, recursingMachine.startCall ⟨"main", "recurse"⟩ [] = .running r ∧
        Machine.advance r.machine = .ok true m₁ ∧ m₁.callbacks = [] ∧ r.step = .running r₁ ∧
        Machine.advance r₁.machine = .error e₁ m₂ ∧ r₁.step = .finished m₃ (.error e) ∧
        e.root = .stackOverflow 1 :=
    ⟨_, _, _, _, _, _, _, rfl, rfl, rfl, rfl, rfl, rfl, rfl⟩
  have hquiet : ∀ s, recursingMachine.startCall ⟨"main", "recurse"⟩ [] = .running s → s.Quiet := by
    intro s hs
    cases hstart.symm.trans hs
    refine Run.quiet_iff.mpr ⟨fun executed m hm => ?_, fun t ht => ?_⟩
    · cases hadvance.symm.trans hm
      exact hcallbacks
    · cases hstep.symm.trans ht
      refine Run.quiet_iff.mpr ⟨fun executed m hm => ?_, fun u hu => ?_⟩
      · cases hfails.symm.trans hm
      · cases hend.symm.trans hu
  obtain ⟨m', outcome, hfinish⟩ := (forward_call_ends hforward).2 hquiet
  have hfour : (recursingMachine.startCall ⟨"main", "recurse"⟩ []).finish? 4 = some (m', outcome) :=
    hfinish
  have houtcome : outcome = .error e := by
    simp only [hstart, Progress.finish?, Run.finish?, hstep, hend, Option.some.injEq,
      Prod.mk.injEq] at hfour
    exact hfour.2.symm
  subst houtcome
  exact ⟨hforward, m', e, hfour, hroot⟩

end FlatMachine
