import FlatMachine.Proofs.CallStack
import FlatMachine.Proofs.HeapSize
import FlatMachine.Proofs.Residue

/-!
# Calls on machines that differ behind an edge

In a program without handles a function reads its frame and the data segment only. A frame is zeroed
when it is entered. So two machines that differ behind the innermost frame only take every step in
the same way. The edge behind which they may differ moves with the frames; it stays behind the first
frame of the call, from which the results are read when that frame is gone.
-/

namespace FlatMachine

open FlatMachine.Action

/-- What layout guarantees of a program without handles. -/
structure Program.Enclosed (p : Program) (table : PrimitiveTable) : Prop where
  packed : p.structs.Packed
  fields : p.structs.HandleFreeFields
  operands : ∀ f ∈ p.functions, ∀ o ∈ f.operands, o.Housed p.structs f.frameSize p.data.length
  slots : ∀ f ∈ p.functions, ∀ o ∈ f.params ++ f.returns, ∀ x ∈ o.nested,
    x.Housed p.structs f.frameSize p.data.length
  byValue : ∀ f ∈ p.functions, ∀ n ∈ f.body, ∀ o ∈ n.inputs, o.byReference = false
  library : ∀ f ∈ p.functions, ∀ n ∈ f.body, ∀ code name signature q,
    n.operator = some (.native code name signature) → table.get code = .ok q → q ∈ library

/-- The frame of a function of the program at `fp` lies below the edge, and so does the data
segment. -/
structure Function.Sheltered (p : Program) (fp edge : Nat) (f : Function) : Prop where
  mem : f ∈ p.functions
  frame_le : fp + f.frameSize ≤ edge
  data_le : p.data.length ≤ edge

section Sheltered

variable {p : Program} {table : PrimitiveTable} {f : Function} {n : Node} {o : Operand}
  {fp edge : Nat}

namespace Program.Enclosed

theorem below (hp : p.Enclosed table) (hf : f.Sheltered p fp edge) (hn : n ∈ f.body)
    (ho : o ∈ n.inputs ++ n.outputs) : o.Below p.structs fp edge := by
  refine Operand.below_of_housed (fun x hx => ?_) hp.packed hp.fields hf.frame_le hf.data_le
  have hnode : x ∈ n.operands := List.mem_flatMap.mpr ⟨o, ho, hx⟩
  exact hp.operands f hf.mem x (List.mem_flatMap.mpr ⟨n, hn, hnode⟩)

theorem input_below (hp : p.Enclosed table) (hf : f.Sheltered p fp edge) (hn : n ∈ f.body) :
    ∀ o ∈ n.inputs, o.Below p.structs fp edge :=
  fun _ ho => hp.below hf hn (List.mem_append_left _ ho)

theorem output_below (hp : p.Enclosed table) (hf : f.Sheltered p fp edge) (hn : n ∈ f.body) :
    ∀ o ∈ n.outputs, o.Below p.structs fp edge :=
  fun _ ho => hp.below hf hn (List.mem_append_right _ ho)

theorem slot_below (hp : p.Enclosed table) (hf : f.Sheltered p fp edge)
    (ho : o ∈ f.params ++ f.returns) : o.Below p.structs fp edge :=
  Operand.below_of_housed (hp.slots f hf.mem o ho) hp.packed hp.fields hf.frame_le hf.data_le

end Program.Enclosed

end Sheltered

theorem mapM_congr {α β : Type} {f g : α → Except Error β} {l : List α}
    (h : ∀ a ∈ l, f a = g a) : l.mapM f = l.mapM g := by
  induction l with
  | nil => rfl
  | cons a rest ih =>
    obtain ⟨ha, hrest⟩ := List.forall_mem_cons.mp h
    rw [List.mapM_cons, List.mapM_cons, ha, ih hrest]

namespace Machine

variable {α : Type} {m m' m₀ : Machine} {f : Function} {n : Node} {fp edge edge' : Nat}

/-- The machines differ at most in bytes of the stack segment from the edge on. -/
def AgreeBelow (edge : Nat) (m m' : Machine) : Prop :=
  ∃ a, m.arena.AgreeBelow edge a ∧ m' = { m with work := { m.work with arena := a } }

/-- Besides, they differ from a third in the workspace only. -/
def Twins (m₀ : Machine) (edge : Nat) (m m' : Machine) : Prop :=
  (∃ work, m = { m₀ with work }) ∧ m.AgreeBelow edge m'

theorem AgreeBelow.mono (h : m.AgreeBelow edge m') (hle : edge' ≤ edge) :
    m.AgreeBelow edge' m' := by
  obtain ⟨a, ha, rfl⟩ := h
  exact ⟨a, ha.mono hle, rfl⟩

theorem AgreeBelow.twins (h : m.AgreeBelow edge m') : Twins m edge m m' := ⟨⟨m.work, rfl⟩, h⟩

/-- Changing the frames keeps machines in agreement. -/
theorem AgreeBelow.withStack (h : m.AgreeBelow edge m') (stack : CallStack) :
    AgreeBelow edge { m with stack } { m' with stack } := by
  obtain ⟨a, ha, rfl⟩ := h
  exact ⟨a, ha, rfl⟩

theorem AgreeBelow.stack_eq (h : m.AgreeBelow edge m') : m'.stack = m.stack := by
  obtain ⟨_, -, rfl⟩ := h
  rfl

theorem AgreeBelow.program_eq (h : m.AgreeBelow edge m') : m'.program = m.program := by
  obtain ⟨_, -, rfl⟩ := h
  rfl

theorem AgreeBelow.callbacks_eq (h : m.AgreeBelow edge m') : m'.callbacks = m.callbacks := by
  obtain ⟨_, -, rfl⟩ := h
  rfl

theorem AgreeBelow.nextFp_eq (h : m.AgreeBelow edge m') : m'.nextFp = m.nextFp := by
  obtain ⟨_, ⟨_, rfl, -⟩, rfl⟩ := h
  rfl

theorem AgreeBelow.depth_eq (h : m.AgreeBelow edge m') : m'.depth = m.depth := by
  rw [depth, depth, h.stack_eq]

theorem AgreeBelow.setPc (h : m.AgreeBelow edge m') (pc : Nat) :
    (m.setPc pc).AgreeBelow edge (m'.setPc pc) := by
  rw [Machine.setPc, Machine.setPc, h.stack_eq]
  exact h.withStack _

section Reading

theorem AgreeBelow.place_eq (h : m.AgreeBelow edge m') {o : Operand}
    (ho : o.Below m.program.structs fp edge) : m'.place fp o = m.place fp o := by
  obtain ⟨a, ha, rfl⟩ := h
  exact ho.steady _ a ha

theorem AgreeBelow.value_eq (h : m.AgreeBelow edge m') {o : Operand}
    (ho : o.Below m.program.structs fp edge) : m'.value fp o = m.value fp o := by
  obtain ⟨a, ha, rfl⟩ := h
  exact ho.value_eq ha

theorem AgreeBelow.readSlots_eq (h : m.AgreeBelow edge m') {slots : List Operand}
    (hslots : ∀ o ∈ slots, o.Below m.program.structs fp edge) :
    m'.readSlots fp slots = m.readSlots fp slots := by
  apply mapM_congr
  intro o ho
  rw [h.place_eq (hslots o ho)]
  cases hplace : m.place fp o with
  | error e => rfl
  | ok place =>
    obtain ⟨a, ha, rfl⟩ := h
    exact (hslots o ho).read_eq ha hplace

theorem AgreeBelow.resultWrites_eq (h : m.AgreeBelow edge m') (callee : Function)
    {outputs : List Operand} (houtputs : ∀ o ∈ outputs, o.Below m.program.structs fp edge)
    (results : List Bytes) :
    m'.resultWrites callee fp outputs results = m.resultWrites callee fp outputs results := by
  induction outputs generalizing results with
  | nil => rfl
  | cons o os ih =>
    obtain ⟨ho, hos⟩ := List.forall_mem_cons.mp houtputs
    cases results with
    | nil => rfl
    | cons bytes results => simp only [resultWrites, h.place_eq ho, ih hos]

theorem AgreeBelow.jumpTarget_eq (h : m.AgreeBelow edge m')
    (hinputs : ∀ o ∈ n.inputs, o.Below m.program.structs fp edge) (pc : Nat) (onTrue onFalse : Int)
    (length : Nat) : m'.jumpTarget fp pc n onTrue onFalse length =
      m.jumpTarget fp pc n onTrue onFalse length := by
  unfold jumpTarget
  cases hcases : n.inputs with
  | nil => rfl
  | cons condition rest =>
    have hcondition := hinputs condition (hcases ▸ List.mem_cons_self)
    simp only [h.value_eq hcondition]

theorem AgreeBelow.args_eq (h : m.AgreeBelow edge m') {inputs : List Operand}
    (hinputs : ∀ o ∈ inputs, o.Below m.program.structs fp edge) :
    inputs.mapM (·.bytes m'.program.structs m'.arena fp) =
      inputs.mapM (·.bytes m.program.structs m.arena fp) := by
  obtain ⟨a, ha, rfl⟩ := h
  exact mapM_congr fun o ho => (hinputs o ho).bytes_eq ha

end Reading

theorem respects_onWork_twins {act : Action Workspace α}
    (h : Respects (Workspace.Relates (Arena.AgreeBelow edge)) act) :
    Respects (Twins m₀ edge) (onWork act) := by
  apply h.within
  · rintro m _ ⟨-, a, ha, rfl⟩
    exact ⟨a, ha, rfl⟩
  · rintro w _ m _ ⟨a, ha, rfl⟩ ⟨⟨work, rfl⟩, b, -, rfl⟩
    exact ⟨⟨w, rfl⟩, a, ha, rfl⟩

theorem respects_onArena_twins {act : Action Arena α} (h : Respects (Arena.AgreeBelow edge) act) :
    Respects (Twins m₀ edge) (onArena act) :=
  respects_onWork_twins (Workspace.respects_onArena h)

theorem respects_executeNode_twins (hp : m₀.program.Enclosed m₀.primitives)
    (hf : f.Sheltered m₀.program fp edge) (hn : n ∈ f.body) :
    Respects (Twins m₀ edge) (executeNode fp n) := by
  have hinputs := hp.input_below hf hn
  have houtputs := hp.output_below hf hn
  apply respects_get_bind
  · rintro m _ ⟨-, a, -, rfl⟩
    rfl
  · rintro _ _ ⟨⟨work, rfl⟩, -⟩
    dsimp only
    split
    · apply respects_onArena_twins
      apply (Arena.congruent_agreeBelow edge).executeBare
      · exact fun o ho a b => (hinputs o ho).bytes_eq
      · exact fun o ho => (houtputs o ho).steady
    · rename_i code name signature hop
      cases hq : m₀.primitives.get code with
      | error e => exact fun _ _ h => ⟨rfl, h⟩
      | ok q =>
        have hsite : Site.Below edge ⟨m₀.program.structs, fp, n⟩ :=
          ⟨hinputs, hp.byValue f hf.mem n hn, houtputs⟩
        have hlibrary := hp.library f hf.mem n hn code name signature q hop hq
        exact respects_onWork_twins (hsite.respects_execute hlibrary)
    · exact respects_throw _

theorem respects_storeResults_twins {callee : Function} {calleeFp : Nat}
    (hp : m₀.program.Enclosed m₀.primitives) (hcallee : callee.Sheltered m₀.program calleeFp edge)
    (hf : f.Sheltered m₀.program fp edge) (hn : n ∈ f.body) :
    Respects (Twins m₀ edge) (storeResults calleeFp callee fp n) := by
  apply Respects.bind
  · apply respects_query
    rintro _ m' ⟨⟨work, rfl⟩, h⟩
    have hresults := h.readSlots_eq fun o ho => hp.slot_below hcallee (List.mem_append_right _ ho)
    have hwrites := h.resultWrites_eq callee (hp.output_below hf hn)
    simp only [hresults, hwrites]
  · intro writes
    exact respects_onArena_twins ((Arena.congruent_agreeBelow edge).writeAll writes)

/-- An action on the memory that moves the edge. -/
theorem endBoth_onArena {act : Action Arena α} (h : Twins m₀ edge m m')
    (hact : EndBoth (Arena.AgreeBelow edge') (Arena.AgreeBelow edge) (act m.arena)
      (act m'.arena)) :
    EndBoth (Twins m₀ edge') (AgreeBelow edge) (onArena act m) (onArena act m') := by
  obtain ⟨⟨work, rfl⟩, a, -, rfl⟩ := h
  simp only [Machine.onArena, onWork, Workspace.onArena, within]
  rcases hact.cases with ⟨x, s, t, hs, ht, hst⟩ | ⟨e, s, t, hs, ht, hst⟩
  · change act work.arena = _ at hs
    change act a = _ at ht
    simp only [hs, ht]
    exact ⟨rfl, ⟨_, rfl⟩, t, hst, rfl⟩
  · change act work.arena = _ at hs
    change act a = _ at ht
    simp only [hs, ht]
    exact ⟨rfl, t, hst, rfl⟩

theorem endBoth_push (h : Twins m₀ edge m m') (frame : Frame) :
    EndBoth (Twins (m₀.withFrames (frame :: m₀.stack.frames)) edge) (AgreeBelow edge)
      (update (fun m => return { m with stack := ← m.stack.push frame }) m)
      (update (fun m => return { m with stack := ← m.stack.push frame }) m') := by
  obtain ⟨⟨work, rfl⟩, a, ha, rfl⟩ := h
  simp only [update, CallStack.push]
  by_cases hdepth : m₀.stack.depth < m₀.stack.maxDepth
  · simp only [if_pos hdepth]
    exact ⟨rfl, ⟨work, rfl⟩, a, ha, rfl⟩
  · simp only [if_neg hdepth]
    exact ⟨rfl, a, ha, rfl⟩

/-- A frame is zeroed before the arguments are stored in it, so it holds the same bytes. -/
theorem endBoth_fill {g : Function} {structs : StructTable} (h : Twins m₀ edge m m')
    (hfp : fp ≤ edge) (hparams : ∀ o ∈ g.params, o.Below structs fp (max edge (fp + g.frameSize)))
    (args : List Bytes) :
    EndBoth (Twins m₀ (max edge (fp + g.frameSize))) (AgreeBelow edge)
      ((onArena (update (·.zero fp g.frameSize)) >>= fun _ =>
        onArena (storeArgs structs fp g.params args)) m)
      ((onArena (update (·.zero fp g.frameSize)) >>= fun _ =>
        onArena (storeArgs structs fp g.params args)) m') := by
  have hzero : EndBoth (Twins m₀ (max edge (fp + g.frameSize))) (AgreeBelow edge)
      (onArena (update (·.zero fp g.frameSize)) m)
      (onArena (update (·.zero fp g.frameSize)) m') := by
    apply endBoth_onArena h
    obtain ⟨-, a, ha, rfl⟩ := h
    exact ha.zero hfp
  have hargs : Respects (Twins m₀ (max edge (fp + g.frameSize)))
      (onArena (storeArgs structs fp g.params args)) := by
    apply respects_onArena_twins
    exact (Arena.congruent_agreeBelow _).storeArgs (fun o ho => (hparams o ho).steady) args
  apply hzero.bind
  intro _ m₁ m₁' h₁
  exact (hargs m₁ m₁' h₁).both fun _ _ h => h.2.mono (le_max_left _ _)

/-- A frame that begins at the edge or below is entered with the same bytes in it. -/
theorem endBoth_enter {g : Function} {callerFp : Nat} {args : List Bytes} {returnsToCaller : Bool}
    (h : Twins m₀ edge m m') (hp : m₀.program.Enclosed m₀.primitives)
    (hg : g ∈ m₀.program.functions) (hfp : fp ≤ edge) (hdata : m₀.program.data.length ≤ edge) :
    EndBoth
      (Twins (m₀.withFrames (g.frame fp callerFp returnsToCaller :: m₀.stack.frames))
        (max edge (fp + g.frameSize)))
      (AgreeBelow edge) (enter g fp callerFp args returnsToCaller m)
      (enter g fp callerFp args returnsToCaller m') := by
  have hsheltered : g.Sheltered m₀.program fp (max edge (fp + g.frameSize)) :=
    ⟨hg, le_max_right _ _, hdata.trans (le_max_left _ _)⟩
  have hparams : ∀ o ∈ g.params,
      o.Below m₀.program.structs fp (max edge (fp + g.frameSize)) :=
    fun o ho => hp.slot_below hsheltered (List.mem_append_left _ ho)
  have hpush := endBoth_push h (g.frame fp callerFp returnsToCaller)
  obtain ⟨⟨work, rfl⟩, a, ⟨image, rfl, hsize, hsame⟩, rfl⟩ := h
  unfold Machine.enter
  rw [get_bind_apply, get_bind_apply]
  change EndBoth _ _
    ((if work.arena.stackEnd < fp + g.frameSize then _ else _ : Action Machine Unit) _)
    ((if work.arena.stackEnd < fp + g.frameSize then _ else _ : Action Machine Unit) _)
  by_cases hroom : work.arena.stackEnd < fp + g.frameSize
  · rw [if_pos hroom, if_pos hroom]
    exact ⟨rfl, _, ⟨image, rfl, hsize, hsame⟩, rfl⟩
  · rw [if_neg hroom, if_neg hroom]
    apply hpush.bind
    intro _ m₁ m₁' h₁
    exact endBoth_fill h₁ hfp hparams args

/-- The edge lies behind the first frame of a call and behind the innermost one. -/
def edgeOf (first : Nat) (m : Machine) : Nat := max first (frontier 0 m.stack.frames)

/-- Machines that have run a call in step so far: they differ at most behind the edge. -/
def InStep (first : Nat) (m m' : Machine) : Prop := m.AgreeBelow (edgeOf first m) m'

section Steps

variable {top : Frame} {outer : List Frame} {lo first : Nat}

theorem edgeOf_eq (hm : m.stack.frames = top :: outer) : edgeOf first m = max first top.stop := by
  rw [edgeOf, hm, frontier]

theorem nextFp_eq_stop (hm : m.stack.frames = top :: outer) : m.nextFp = top.stop := by
  rw [nextFp_eq, hm, frontier]

theorem endBoth_callNode (h : InStep first m m') (hp : m.program.Enclosed m.primitives)
    (hm : m.stack.frames = top :: outer) (hf : f.Sheltered m.program top.fp (edgeOf first m))
    (hn : n ∈ f.body) (hlo : lo ≤ first) (callee : FunctionName) :
    EndBoth (InStep first) (AgreeBelow lo) (callNode top.fp n callee m)
      (callNode top.fp n callee m') := by
  have hedge : lo ≤ edgeOf first m := hlo.trans (le_max_left _ _)
  have hlow : ∀ s t : Machine, s.AgreeBelow (edgeOf first m) t → s.AgreeBelow lo t :=
    fun _ _ h => h.mono hedge
  have hargs := h.args_eq (hp.input_below hf hn)
  unfold callNode
  rw [get_bind_apply, get_bind_apply, h.program_eq, h.nextFp_eq]
  rw [h.program_eq] at hargs
  cases hfun : m.program.function callee with
  | error e => exact ⟨rfl, hlow m m' h⟩
  | ok g =>
    have hg : g ∈ m.program.functions :=
      List.mem_of_find?_eq_some (Program.gives_function.value hfun)
    change EndBoth _ _ ((if n.inputs.length ≠ g.params.length then _ else _ : Action Machine Unit) m)
      ((if n.inputs.length ≠ g.params.length then _ else _ : Action Machine Unit) m')
    by_cases harity : n.inputs.length ≠ g.params.length
    · rw [if_pos harity, if_pos harity]
      exact ⟨rfl, hlow m m' h⟩
    · rw [if_neg harity, if_neg harity, hargs]
      cases n.inputs.mapM (·.bytes m.program.structs m.arena top.fp) with
      | error e => exact ⟨rfl, hlow m m' h⟩
      | ok args =>
        have hnext : m.nextFp ≤ edgeOf first m := by
          rw [nextFp_eq_stop hm, edgeOf_eq hm]
          exact le_max_right _ _
        have henter : EndBoth _ _ (enter g m.nextFp top.fp args true m)
            (enter g m.nextFp top.fp args true m') :=
          endBoth_enter (AgreeBelow.twins h) hp hg hnext hf.data_le
        rcases henter.cases with ⟨x, s, t, hs, ht, ⟨work, rfl⟩, hst⟩ | ⟨e, s, t, hs, ht, hst⟩
        · change EndBoth _ _ (enter g m.nextFp top.fp args true m)
            (enter g m.nextFp top.fp args true m')
          rw [hs, ht]
          refine ⟨rfl, hst.mono ?_⟩
          have hstop : m.nextFp + g.frameSize = (g.frame m.nextFp top.fp true).stop := rfl
          rw [hstop]
          exact max_le_max (le_max_left _ _) le_rfl
        · change EndBoth _ _ (enter g m.nextFp top.fp args true m)
            (enter g m.nextFp top.fp args true m')
          rw [hs, ht]
          exact ⟨rfl, hlow s t hst⟩

theorem inStep_setPc {s t : Machine} (hs : s.stack.frames = top :: outer)
    (h : s.AgreeBelow edge t) (hle : max first top.stop ≤ edge) (pc : Nat) :
    InStep first (s.setPc pc) (t.setPc pc) := by
  apply (h.setPc pc).mono
  rw [setPc_eq hs]
  exact hle

/-- The results are read where the callee's frame was, which still lies below the edge. -/
theorem endBoth_leave {callee : Function} (h : InStep first m m')
    (hp : m.program.Enclosed m.primitives) (hm : m.stack.frames = top :: outer)
    (hfun : m.program.function? top.function = some callee)
    (hcallee : callee.Sheltered m.program top.fp (edgeOf first m))
    (hcaller : top.returnsToCaller = true → ∀ caller, outer.head? = some caller →
      ∃ f, m.program.function? caller.function = some f ∧
        f.Sheltered m.program caller.fp (edgeOf first m))
    (hpop : frontier 0 outer ≤ edgeOf first m) (hlo : lo ≤ first) :
    EndBoth (InStep first) (AgreeBelow lo) (leave m) (leave m') := by
  have hedge : lo ≤ edgeOf first m := hlo.trans (le_max_left _ _)
  have hpopped := AgreeBelow.withStack h m.stack.pop
  have hframes : m.stack.pop.frames = outer := by rw [CallStack.pop, hm, List.tail_cons]
  have hinStep : InStep first { m with stack := m.stack.pop } { m' with stack := m.stack.pop } := by
    apply hpopped.mono
    rw [edgeOf, hframes]
    exact max_le (le_max_left _ _) hpop
  have htop : m.stack.top? = some top := by rw [CallStack.top?, hm, List.head?_cons]
  unfold leave
  rw [get_bind_apply, get_bind_apply, h.stack_eq, h.program_eq, htop]
  apply EndBoth.bind (R := fun s t => s = { m with stack := m.stack.pop } ∧
    t = { m' with stack := m.stack.pop })
  · refine ⟨rfl, rfl, ?_⟩
    rw [h.program_eq]
  · rintro _ _ _ ⟨rfl, rfl⟩
    by_cases hreturns : top.returnsToCaller = true
    · rw [if_pos hreturns]
      simp only [Program.function, hfun, CallStack.top?, hframes, ofExcept_ok_bind]
      cases outer with
      | nil => exact ⟨rfl, hinStep⟩
      | cons caller rest =>
        obtain ⟨f, hfound, hf⟩ := hcaller hreturns caller rfl
        simp only [List.head?_cons, hfound, ofExcept_ok_bind]
        cases hn : f.body[caller.pc]? with
        | none => exact ⟨rfl, hpopped.mono hedge⟩
        | some n =>
          have hstore : Respects (Twins { m with stack := m.stack.pop } (edgeOf first m))
              (storeResults top.fp callee caller.fp n) :=
            respects_storeResults_twins hp hcallee hf (List.mem_of_getElem? hn)
          have hboth := (hstore _ _ hpopped.twins).both fun _ _ h => h.2.mono hedge
          apply (hboth.mapError _).bind
          rintro _ s t ⟨⟨work, rfl⟩, hst⟩
          refine ⟨rfl, inStep_setPc hframes hst ?_ _⟩
          exact max_le (le_max_left _ _) hpop
    · rw [if_neg hreturns]
      exact ⟨rfl, hinStep⟩

theorem endBoth_executeAt (h : InStep first m m') (hp : m.program.Enclosed m.primitives)
    (hm : m.stack.frames = top :: outer) (hf : f.Sheltered m.program top.fp (edgeOf first m))
    (hn : n ∈ f.body) (hlo : lo ≤ first) (pc : Nat) :
    EndBoth (InStep first) (AgreeBelow lo) (executeAt f top.fp pc n m)
      (executeAt f top.fp pc n m') := by
  have hlow : ∀ s t : Machine, Twins m (edgeOf first m) s t → s.AgreeBelow lo t :=
    fun _ _ h => h.2.mono (hlo.trans (le_max_left _ _))
  have htwins : Twins m (edgeOf first m) m m' := AgreeBelow.twins h
  have hmoved : ∀ pc s t, Twins m (edgeOf first m) s t → InStep first (s.setPc pc) (t.setPc pc) := by
    rintro pc _ t ⟨⟨work, rfl⟩, hst⟩
    exact inStep_setPc (s := { m with work := work }) hm hst (edgeOf_eq hm).ge pc
  generalize hact : executeAt f top.fp pc n = act
  unfold executeAt at hact
  split at hact <;> subst hact
  · exact endBoth_callNode h hp hm hf hn hlo _
  · rename_i onTrue onFalse hop
    have htarget : Respects (Twins m (edgeOf first m))
        (query (·.jumpTarget top.fp pc n onTrue onFalse f.body.length)) := by
      apply respects_query
      rintro _ t ⟨⟨work, rfl⟩, hst⟩
      exact hst.jumpTarget_eq (hp.input_below hf hn) _ _ _ _
    apply ((htarget m m' htwins).both hlow).bind
    intro target s t hst
    exact ⟨rfl, hmoved target s t hst⟩
  · apply ((respects_executeNode_twins hp hf hn m m' htwins).both hlow).bind
    intro _ s t hst
    exact ⟨rfl, hmoved (pc + 1) s t hst⟩

variable {inner base : List Frame}

/-- The functions of the frames of a call lie below the edge. -/
theorem sheltered_of_linked (hlinked : Linked m.program lo m.arena.stackEnd inner)
    (hm : m.stack.frames = inner ++ base) (hdata : m.program.data.length ≤ lo) (hlo : lo ≤ first)
    {frame : Frame} (hframe : frame ∈ inner) :
    ∃ f, m.program.function? frame.function = some f ∧
      f.Sheltered m.program frame.fp (edgeOf first m) := by
  obtain ⟨-, -, f, hfun, hsize, -⟩ := hlinked.inside hframe
  refine ⟨f, hfun, List.mem_of_find?_eq_some hfun, ?_, ?_⟩
  · have hstop := hlinked.stop_le_frontier hframe
    rw [Frame.stop, hsize] at hstop
    apply hstop.trans
    apply le_trans ?_ (le_max_right _ _)
    rw [hm]
    cases inner with
    | nil => cases hframe
    | cons => exact le_rfl
  · exact (hdata.trans hlo).trans (le_max_left _ _)

theorem endBoth_advance (h : InStep first m m') (hp : m.program.Enclosed m.primitives)
    (hlinked : Linked m.program lo m.arena.stackEnd inner) (hm : m.stack.frames = inner ++ base)
    (hinner : inner ≠ []) (hdata : m.program.data.length ≤ lo) (hlo : lo ≤ first)
    (hbase : frontier 0 base ≤ lo) :
    EndBoth (InStep first) (AgreeBelow lo) (advance m) (advance m') := by
  obtain ⟨top, outer, rfl⟩ := List.exists_cons_of_ne_nil hinner
  have hsheltered : ∀ frame ∈ top :: outer, ∃ f, m.program.function? frame.function = some f ∧
      f.Sheltered m.program frame.fp (edgeOf first m) :=
    fun _ => sheltered_of_linked hlinked hm hdata hlo
  obtain ⟨f, hfun, hf⟩ := hsheltered top List.mem_cons_self
  have htop : m.stack.top? = some top := by rw [CallStack.top?, hm]; rfl
  unfold advance
  rw [get_bind_apply, get_bind_apply, h.stack_eq, h.program_eq, htop]
  simp only [Program.function, hfun, ofExcept_ok_bind]
  cases hn : f.body[top.pc]? with
  | none =>
    have hleave : EndBoth (InStep first) (AgreeBelow lo) (leave m) (leave m') := by
      apply endBoth_leave h hp hm hfun hf ?_ ?_ hlo
      · intro hreturns caller hcaller
        cases hlinked with
        | cons _ _ _ hcalled _ =>
          obtain ⟨caller', hhead, -⟩ := hcalled hreturns
          obtain ⟨rest, rfl⟩ := List.head?_eq_some_iff.mp hhead
          cases hcaller
          exact hsheltered caller (List.mem_cons_of_mem _ List.mem_cons_self)
      · cases outer with
        | nil => exact (hbase.trans hlo).trans (le_max_left _ _)
        | cons caller rest =>
          have hstop := hlinked.stop_le_frontier (List.mem_cons_of_mem _ List.mem_cons_self)
          rw [edgeOf, hm]
          exact hstop.trans (le_max_right _ _)
    exact hleave.bind fun _ _ _ hst => ⟨rfl, hst⟩
  | some n =>
    have hexecute := endBoth_executeAt h hp hm hf (List.mem_of_getElem? hn) hlo top.pc
    exact (hexecute.mapError _).bind fun _ _ _ hst => ⟨rfl, hst⟩

end Steps

/-- A call from outside begins where it leaves nothing visible of what lies behind the frames. -/
theorem endBoth_beginCall (h : m.AgreeBelow m.nextFp m') (hp : m.program.Enclosed m.primitives)
    (hdata : m.program.data.length ≤ m.nextFp) (name : FunctionName) (args : List Bytes) :
    EndBoth
      (fun s t => ∃ f, m.program.function? name = some f ∧ InStep (m.nextFp + f.frameSize) s t)
      (AgreeBelow m.nextFp) (beginCall name args m) (beginCall name args m') := by
  unfold beginCall
  rw [get_bind_apply, get_bind_apply, h.program_eq, h.nextFp_eq, h.depth_eq]
  cases hfun : m.program.function? name with
  | none =>
    simp only [Program.function, hfun]
    exact ⟨rfl, h⟩
  | some f =>
    simp only [Program.function, hfun, ofExcept_ok_bind]
    by_cases harity : args.length ≠ f.params.length
    · simp only [if_pos harity]
      exact ⟨rfl, h⟩
    · simp only [if_neg harity]
      have henter : EndBoth _ _ (enter f m.nextFp m.nextFp args false m)
          (enter f m.nextFp m.nextFp args false m') :=
        endBoth_enter h.twins hp (List.mem_of_find?_eq_some hfun) le_rfl hdata
      rcases henter.cases with ⟨_, s, t, hs, ht, ⟨work, rfl⟩, hst⟩ | ⟨e, s, t, hs, ht, hst⟩
      · simp only [hs, ht]
        refine ⟨rfl, f, rfl, hst.mono ?_⟩
        exact max_le (le_max_right _ _) (le_max_right _ _)
      · simp only [hs, ht]
        refine ⟨rfl, ?_⟩
        rw [hst.stack_eq]
        exact hst.withStack _

end Machine

end FlatMachine
