import FlatMachine.Machine.Run
import FlatMachine.Proofs.Containment

/-!
# What a step does to the frames

Executing a node moves the innermost frame within its body or enters a callee, and returning takes a
frame away. `StackStep` lists these changes, each with what was checked for it. Everything else that
a machine does leaves the frames alone and the segments of memory where they are.
-/

namespace FlatMachine

open FlatMachine.Action

namespace Arena

variable {α : Type}

/-- However the action ends, the segments lie as before. -/
abbrev KeepsSegments (act : Action Arena α) : Prop := Keeps SameSegments act

theorem KeepsSegments.bind {β : Type} {act : Action Arena α} {f : α → Action Arena β}
    (h : KeepsSegments act) (hf : ∀ x, KeepsSegments (f x)) : KeepsSegments (act >>= f) :=
  Keeps.bind h (·.trans ·) hf

theorem keepsSegments_pure (x : α) : KeepsSegments (pure x : Action Arena α) := fun a => .refl a

theorem keepsSegments_query (f : Arena → Except Error α) : KeepsSegments (query f) :=
  keeps_query .refl f

theorem keepsSegments_ofExcept (r : Except Error α) : KeepsSegments (Action.ofExcept r) :=
  keeps_ofExcept .refl r

theorem keepsSegments_write (offset : Nat) (bytes : Bytes) :
    KeepsSegments (update (·.write offset bytes)) :=
  keeps_update .refl fun _ _ h => (write_changedIn h).sameSegments

theorem keepsSegments_zero (offset width : Nat) : KeepsSegments (update (·.zero offset width)) :=
  keeps_update .refl fun _ _ h => (zero_changedIn h).sameSegments

theorem keepsSegments_writeHandle (offset value : Nat) :
    KeepsSegments (update (·.writeHandle offset value)) :=
  keeps_update .refl fun _ _ h => (writeHandle_changedIn h).sameSegments

theorem keepsSegments_allocate (size : Nat) : KeepsSegments (advance (·.allocate size)) := by
  intro a
  rw [ends_advance]
  exact gives_allocate.mono (fun _ h => h.2.1.toSameSegments) fun _ _ => .refl a

theorem keepsSegments_store (bytes : Bytes) : KeepsSegments (store bytes) := fun _ =>
  ends_store.mono (fun _ _ h => h.2.toSameSegments) fun _ _ h => h.toSameSegments

theorem keepsSegments_writeAll (writes : List (Nat × Bytes)) : KeepsSegments (writeAll writes) := by
  induction writes with
  | nil => exact keepsSegments_pure ()
  | cons w rest ih => exact (keepsSegments_write w.1 w.2).bind fun _ => ih

theorem keepsSegments_settle (p : Pending) : KeepsSegments p.settle := by
  cases p with
  | bytes offset content => exact keepsSegments_pure _
  | object offset content =>
    exact (keepsSegments_store content).bind fun _ => (keepsSegments_ofExcept _).bind fun _ =>
      keepsSegments_pure _

theorem keepsSegments_settleAll (ps : List Pending) : KeepsSegments (Pending.settleAll ps) := by
  induction ps with
  | nil => exact keepsSegments_pure _
  | cons p rest ih =>
    exact (keepsSegments_settle p).bind fun _ => ih.bind fun _ => keepsSegments_pure _

theorem keepsSegments_commit (s : Site) (slots : Slots) : KeepsSegments (s.commit slots) :=
  (keepsSegments_query _).bind fun pending => (keepsSegments_settleAll pending).bind fun writes =>
    keepsSegments_writeAll writes

theorem keepsSegments_declare (structs : StructTable) (fp : Nat) (o : Operand) :
    KeepsSegments (Machine.declare structs fp o) := by
  apply (keepsSegments_query _).bind
  intro place
  apply (keepsSegments_zero _ _).bind
  intro _
  split
  · apply (keepsSegments_ofExcept _).bind
    intro size
    apply (keepsSegments_allocate size).bind
    intro object
    exact keepsSegments_writeHandle _ object
  · exact keepsSegments_pure ()

theorem keepsSegments_declareAll (structs : StructTable) (fp : Nat) (os : List Operand) :
    KeepsSegments (Machine.declareAll structs fp os) := by
  induction os with
  | nil => exact keepsSegments_pure ()
  | cons o rest ih => exact (keepsSegments_declare structs fp o).bind fun _ => ih

theorem keepsSegments_executeBare (structs : StructTable) (fp : Nat) (n : Node) :
    KeepsSegments (Machine.executeBare structs fp n) := by
  unfold Machine.executeBare
  split
  · exact keepsSegments_declareAll structs fp _
  · apply keeps_update .refl
    intro a b h
    obtain ⟨bytes, -, h⟩ := bind_eq_ok.mp h
    obtain ⟨target, -, h⟩ := bind_eq_ok.mp h
    split at h
    · exact (write_changedIn h).sameSegments
    · cases h
  · exact keepsSegments_ofExcept _

theorem keepsSegments_storeArgs (structs : StructTable) (fp : Nat) (params : List Operand)
    (args : List Bytes) : KeepsSegments (Machine.storeArgs structs fp params args) := by
  induction params generalizing args with
  | nil => exact keepsSegments_pure ()
  | cons param params ih =>
    cases args with
    | nil => exact keepsSegments_pure ()
    | cons bytes args =>
      apply (keepsSegments_query _).bind
      intro place a
      simp only [ends_ite, ends_bind, ends_throw]
      refine ⟨fun _ => .refl a, fun _ => ?_⟩
      exact ends_bind.mp (((keepsSegments_write _ _).bind fun _ => ih args) a)

end Arena

theorem Program.gives_function {p : Program} {f : FunctionName} :
    Gives (p.function f) (fun g => p.function? f = some g)
      (fun e => p.function? f = none ∧ e = .unresolvedSymbol f.text) := by
  unfold Program.function
  cases p.function? f <;> simp

theorem Program.reference_of_function? {p : Program} {f : FunctionName} {g : Function}
    (h : p.function? f = some g) : g.reference = f := by
  simpa using List.find?_some h

/-- The frame of a function that has just been entered. -/
def Function.frame (f : Function) (fp callerFp : Nat) (returnsToCaller : Bool) : Frame where
  function := f.reference
  fp := fp
  callerFp := callerFp
  size := f.frameSize
  returnsToCaller := returnsToCaller

namespace Machine

variable {α : Type} {m m' m'' : Machine}

@[simp] theorem ends_onWork {act : Action Workspace α} {ok : α → Machine → Prop}
    {bad : Error → Machine → Prop} :
    Ends (onWork act) m ok bad ↔ Ends act m.work (fun x work => ok x { m with work })
      (fun e work => bad e { m with work }) := by
  simp only [onWork, ends_within]

@[simp] theorem ends_onArena {act : Action Arena α} {ok : α → Machine → Prop}
    {bad : Error → Machine → Prop} :
    Ends (onArena act) m ok bad ↔
      Ends act m.arena (fun x arena => ok x { m with work := { m.work with arena } })
        (fun e arena => bad e { m with work := { m.work with arena } }) := by
  simp only [onArena, ends_onWork, Workspace.ends_onArena]
  rfl

/-- Nothing but the workspace has changed, and in it the segments lie as before. -/
def Worked (m m' : Machine) : Prop :=
  ∃ work, m' = { m with work } ∧ m.arena.SameSegments work.arena

theorem Worked.refl (m : Machine) : Worked m m := ⟨m.work, rfl, .refl _⟩

theorem Worked.trans (h : Worked m m') (h' : Worked m' m'') : Worked m m'' := by
  obtain ⟨_, rfl, hw⟩ := h
  obtain ⟨work, rfl, hw'⟩ := h'
  exact ⟨work, rfl, hw.trans hw'⟩

theorem keeps_worked_onArena {act : Action Arena α} (h : Arena.KeepsSegments act) :
    Keeps Worked (onArena act) := fun m =>
  ends_onArena.mpr ((h m.arena).mono (fun _ _ ha => ⟨_, rfl, ha⟩) fun _ _ ha => ⟨_, rfl, ha⟩)

/-- The operators of a machine leave the segments where they are: those that come with it do, and a
host has to see to it for those that it adds. -/
def KeepsSegments (m : Machine) : Prop :=
  ∀ p ∈ m.primitives.entries, p.Shipped ∨ p.KeepsSegments

/-- The operator of a node leaves the segments where they are. -/
def KeepsSegmentsAt (m : Machine) (n : Node) : Prop :=
  ∀ code name signature p, n.operator = some (.native code name signature) →
    m.primitives.get code = .ok p → p.KeepsSegments

theorem KeepsSegments.atNode (h : m.KeepsSegments) (n : Node) : m.KeepsSegmentsAt n :=
  fun _ _ _ p _ hp => (h p (PrimitiveTable.mem_of_get hp)).elim (·.contained.keepsSegments) id

theorem ends_executeNode {fp : Nat} {n : Node} (h : m.KeepsSegmentsAt n) :
    Ends (executeNode fp n) m (fun _ m' => Worked m m') (fun _ m' => Worked m m') := by
  simp only [executeNode, ends_bind, ends_get]
  split
  · exact keeps_worked_onArena (Arena.keepsSegments_executeBare _ _ _) m
  · rename_i hop
    simp only [ends_bind, ends_ofExcept, ends_onWork]
    apply gives_of_ok ?_ fun _ => .refl m
    intro p hp
    have hkeeps : p.KeepsSegments := h _ _ _ p hop hp
    simp only [Primitive.execute, ends_bind, Workspace.ends_onArena]
    apply (hkeeps _ m.work).mono ?_ fun _ work hw => ⟨work, rfl, hw⟩
    intro slots work hw
    apply (Arena.keepsSegments_commit _ slots work.arena).mono
    · intro _ a ha
      exact ⟨_, rfl, hw.trans ha⟩
    · intro _ a ha
      exact ⟨_, rfl, hw.trans ha⟩
  · exact .refl m

theorem keeps_worked_storeResults (calleeFp : Nat) (callee : Function) (callerFp : Nat) (n : Node) :
    Keeps Worked (storeResults calleeFp callee callerFp n) :=
  (keeps_query .refl _).bind (·.trans ·) fun writes =>
    keeps_worked_onArena (Arena.keepsSegments_writeAll writes)

/-- The machine with these frames. -/
def withFrames (m : Machine) (frames : List Frame) : Machine :=
  { m with stack := { m.stack with frames } }

theorem setPc_eq {pc : Nat} {f : Frame} {outer : List Frame} (h : m.stack.frames = f :: outer) :
    m.setPc pc = m.withFrames ({ f with pc } :: outer) := by
  simp only [setPc, CallStack.setPc, withFrames, h, List.modifyHead_cons]

/-- Entering a function adds its frame. A failure may come before the frame is there or after. -/
theorem ends_enter {f : Function} {fp callerFp : Nat} {args : List Bytes} {returnsToCaller : Bool} :
    Ends (enter f fp callerFp args returnsToCaller) m
      (fun _ m' => fp + f.frameSize ≤ m.arena.stackEnd ∧ m.depth < m.stack.maxDepth ∧
        Worked (m.withFrames (f.frame fp callerFp returnsToCaller :: m.stack.frames)) m')
      (fun _ m' => Worked m m' ∨
        Worked (m.withFrames (f.frame fp callerFp returnsToCaller :: m.stack.frames)) m') := by
  simp only [enter, ends_bind, ends_get, ends_ite, ends_throw, ends_update, CallStack.push,
    gives_bind, gives_ite, gives_ok, gives_error, gives_pure]
  refine ⟨fun _ => .inl (.refl m), fun hroom => ⟨fun hdepth => ?_, fun _ => .inl (.refl m)⟩⟩
  apply (keeps_worked_onArena (Arena.keepsSegments_zero _ _) _).mono ?_ fun _ _ h => .inr h
  intro _ m₁ h₁
  apply (keeps_worked_onArena (Arena.keepsSegments_storeArgs _ _ _ _) m₁).mono
  · intro _ m₂ h₂
    exact ⟨not_lt.mp hroom, hdepth, h₁.trans h₂⟩
  · intro _ m₂ h₂
    exact .inr (h₁.trans h₂)

theorem ends_callNode {fp : Nat} {n : Node} {callee : FunctionName} :
    Ends (callNode fp n callee) m
      (fun _ m' => ∃ g, m.program.function? callee = some g ∧
        m.nextFp + g.frameSize ≤ m.arena.stackEnd ∧ m.depth < m.stack.maxDepth ∧
        Worked (m.withFrames (g.frame m.nextFp fp true :: m.stack.frames)) m')
      (fun _ m' => Worked m m' ∨ ∃ g : Frame, Worked (m.withFrames (g :: m.stack.frames)) m') := by
  simp only [callNode, ends_bind, ends_get, ends_ofExcept, ends_ite, ends_throw]
  apply Program.gives_function.mono ?_ fun _ _ => .inl (.refl m)
  intro g hg
  refine ⟨fun _ => .inl (.refl m), fun _ => ?_⟩
  apply gives_of_ok ?_ fun _ => .inl (.refl m)
  intro args _
  exact ends_enter.mono (fun _ m' h => ⟨g, hg, h⟩) fun _ _ h => h.imp_right fun hw => ⟨_, hw⟩

end Machine

/-- What executing a node of the innermost frame, or returning from it, does to the frames. -/
inductive StackStep (m : Machine) : List Frame → List Frame → Prop where
  /-- Nothing is in progress. -/
  | idle : StackStep m [] []
  /-- A node other than a call was executed. -/
  | moved {f outer function} (pc : Nat) (hfun : m.program.function? f.function = some function)
      (hpc : pc ≤ function.body.length) : StackStep m (f :: outer) ({ f with pc } :: outer)
  /-- A call node entered its callee. -/
  | called {f outer function n callee signature g}
      (hfun : m.program.function? f.function = some function) (hn : function.body[f.pc]? = some n)
      (hop : n.operator = some (.call callee signature)) (hg : m.program.function? callee = some g)
      (hroom : f.stop + g.frameSize ≤ m.arena.stackEnd)
      (hdepth : outer.length + 1 < m.stack.maxDepth) :
      StackStep m (f :: outer) (g.frame f.stop f.fp true :: f :: outer)
  /-- A frame without a caller ended. -/
  | left {f outer} (h : f.returnsToCaller = true → outer = []) : StackStep m (f :: outer) outer
  /-- A frame ended, and its caller goes on behind the call node. -/
  | resumed {f caller outer function n} (hreturns : f.returnsToCaller = true)
      (hfun : m.program.function? caller.function = some function)
      (hn : function.body[caller.pc]? = some n) :
      StackStep m (f :: caller :: outer) ({ caller with pc := caller.pc + 1 } :: outer)

/-- A return finds no node in its caller. -/
def MissesNode (m : Machine) : Prop :=
  ∃ f caller outer function, m.stack.frames = f :: caller :: outer ∧ f.returnsToCaller = true ∧
    m.program.function? caller.function = some function ∧ function.body[caller.pc]? = none

namespace Machine

variable {m m' : Machine}

/-- The frames have changed by a step and otherwise no more than the workspace. -/
def Stepped (m m' : Machine) : Prop :=
  ∃ frames, StackStep m m.stack.frames frames ∧ Worked (m.withFrames frames) m'

theorem Worked.setPc {pc : Nat} {f : Frame} {outer : List Frame} (h : Worked m m')
    (hm : m.stack.frames = f :: outer) :
    Worked (m.withFrames ({ f with pc } :: outer)) (m'.setPc pc) := by
  obtain ⟨work, rfl, hw⟩ := h
  have hm' : ({ m with work } : Machine).stack.frames = f :: outer := hm
  rw [setPc_eq hm']
  exact ⟨work, rfl, hw⟩

theorem tag_ne_invalidArguments (l : Location) (e : Error) (op reason : String) :
    e.tag l ≠ .invalidArguments op reason := by
  cases e <;> simp [Error.tag]

/-- A return that fails has taken its frame away. Its only error that no location is given to, apart
from an unknown function, is that of a missing node. -/
theorem ends_leave : Ends leave m (fun _ m' => Stepped m m')
    (fun e m' => Worked (m.withFrames m.stack.frames.tail) m' ∧
      ∀ op reason, e = .invalidArguments op reason → MissesNode m) := by
  simp only [leave, ends_bind, ends_get]
  cases hm : m.stack.frames with
  | nil =>
    simp only [CallStack.top?, hm, List.head?_nil, ends_pure]
    refine ⟨[], ?_, ?_⟩
    · rw [hm]
      exact .idle
    · rw [← hm]
      exact .refl m
  | cons f outer =>
    simp only [CallStack.top?, CallStack.pop, hm, List.head?_cons, List.tail_cons, ends_bind,
      ends_set, ends_ite, ends_pure, ends_ofExcept]
    have hpop : Worked (m.withFrames outer) (m.withFrames outer) := .refl _
    constructor
    · intro hreturns
      apply Program.gives_function.mono
      · intro callee _
        cases outer with
        | nil => exact ⟨[], hm ▸ .left fun _ => rfl, hpop⟩
        | cons caller outer =>
          simp only [List.head?_cons, ends_bind, ends_ofExcept]
          apply Program.gives_function.mono
          · intro function hfun
            cases hn : function.body[caller.pc]? with
            | none =>
              exact ⟨hpop, fun _ _ _ => ⟨f, caller, outer, function, hm, hreturns, hfun, hn⟩⟩
            | some n =>
              simp only [ends_bind, ends_mapError, ends_modify]
              apply (keeps_worked_storeResults _ _ _ _ _).mono
              · intro _ m' hw
                exact ⟨_, hm ▸ .resumed hreturns hfun hn, hw.setPc rfl⟩
              · exact fun e m' hw => ⟨hw, fun _ _ he => absurd he (tag_ne_invalidArguments _ _ _ _)⟩
          · rintro e ⟨-, rfl⟩
            exact ⟨hpop, fun _ _ he => Error.noConfusion he⟩
      · rintro e ⟨-, rfl⟩
        exact ⟨hpop, fun _ _ he => Error.noConfusion he⟩
    · intro hreturns
      exact ⟨outer, hm ▸ .left fun h => absurd h hreturns, hpop⟩

/-- Whether a jump takes its first count. -/
def jumpTaken (m : Machine) (fp : Nat) : List Operand → Except Error Bool
  | [] => .ok true
  | condition :: _ => do
    match ← m.value fp condition with
    | .bool b => return b
    | other => .error (.typeMismatch "jmp" "bool" other.typeName)

/-- The node that a jump by a count goes to. -/
def jumpLanding (pc length : Nat) (skip : Int) : Except Error Nat :=
  let target := (pc : Int) + 1 + skip
  if target < 0 ∨ (length : Int) < target then
    .error (.invalidArguments "jmp" s!"target {target} outside body of {length} nodes")
  else .ok target.toNat

theorem jumpTarget_eq (m : Machine) (fp pc : Nat) (n : Node) (onTrue onFalse : Int) (length : Nat) :
    m.jumpTarget fp pc n onTrue onFalse length = m.jumpTaken fp n.inputs >>= fun taken =>
      jumpLanding pc length (if taken then onTrue else onFalse) := by
  unfold jumpTarget jumpTaken
  cases n.inputs with
  | nil => rfl
  | cons condition rest =>
    dsimp only
    cases m.value fp condition with
    | error e => rfl
    | ok v => cases v <;> rfl

theorem gives_jumpLanding {pc length : Nat} {skip : Int} :
    Gives (jumpLanding pc length skip) (· ≤ length)
      (fun e => ∃ reason, e = .invalidArguments "jmp" reason) := by
  simp only [jumpLanding, gives_ite, gives_ok, gives_error]
  refine ⟨fun _ => ⟨_, rfl⟩, fun h => ?_⟩
  omega

theorem ends_executeAt {f : Frame} {outer : List Frame} {function : Function} {n : Node}
    (h : m.KeepsSegmentsAt n) (hm : m.stack.frames = f :: outer)
    (hfun : m.program.function? f.function = some function) (hn : function.body[f.pc]? = some n) :
    Ends (executeAt function f.fp f.pc n) m (fun _ m' => Stepped m m') (fun _ _ => True) := by
  have hmoved : ∀ {m' : Machine} {pc : Nat}, Worked m m' → pc ≤ function.body.length →
      Stepped m (m'.setPc pc) := fun hw hpc => ⟨_, hm ▸ .moved _ hfun hpc, hw.setPc hm⟩
  have hlt : f.pc < function.body.length := (List.getElem?_eq_some_iff.mp hn).1
  unfold executeAt
  split
  · rename_i callee signature hop
    apply ends_callNode.mono ?_ fun _ _ _ => trivial
    intro _ m' hcall
    obtain ⟨g, hg, hroom, hdepth, hw⟩ := hcall
    have htop : m.nextFp = f.stop := by
      simp only [nextFp, CallStack.nextFp, CallStack.top?, hm, List.head?_cons]
    rw [htop] at hroom hw
    rw [hm] at hw
    refine ⟨_, hm ▸ .called hfun hn hop hg hroom ?_, hw⟩
    simpa only [depth, CallStack.depth, hm, List.length_cons] using hdepth
  · simp only [ends_bind, ends_query, ends_modify]
    rw [jumpTarget_eq, gives_bind]
    apply gives_of_ok ?_ fun _ => trivial
    intro taken _
    exact gives_jumpLanding.mono (fun pc hpc => hmoved (.refl m) hpc) fun _ _ => trivial
  · simp only [ends_bind, ends_modify]
    exact (ends_executeNode h).mono (fun _ m' hw => hmoved hw hlt) fun _ _ _ => trivial

section Advance

variable {f caller : Frame} {outer : List Frame} {function callee : Function} {n : Node}
  {ok : Bool → Machine → Prop} {left : Unit → Machine → Prop} {bad : Error → Machine → Prop}

/-- An error of a node is tagged with its location. -/
theorem ends_advance_at_node (hm : m.stack.frames = f :: outer)
    (hfun : m.program.function? f.function = some function) (hn : function.body[f.pc]? = some n) :
    Ends advance m ok bad ↔ Ends (executeAt function f.fp f.pc n) m (fun _ m' => ok true m')
      (fun e m' => bad (e.tag n.location) m') := by
  simp only [advance, ends_bind, ends_get, CallStack.top?, hm, List.head?_cons, ends_ofExcept,
    Program.function, hfun, gives_ok, hn, ends_mapError, ends_pure]

theorem ends_advance_at_end (hm : m.stack.frames = f :: outer)
    (hfun : m.program.function? f.function = some function) (hn : function.body[f.pc]? = none) :
    Ends advance m ok bad ↔ Ends leave m (fun _ m' => ok false m') bad := by
  simp only [advance, ends_bind, ends_get, CallStack.top?, hm, List.head?_cons, ends_ofExcept,
    Program.function, hfun, gives_ok, hn, ends_pure]

/-- To advance is to execute the next node of the innermost frame, or to leave the frame at the end
of its body. Without frames nothing is done, and without the function of the frame it fails. -/
theorem ends_advance_cases (hidle : m.stack.frames = [] → ok false m)
    (hmissing : ∀ f outer, m.stack.frames = f :: outer → m.program.function? f.function = none →
      bad (.unresolvedSymbol f.function.text) m)
    (hleave : ∀ f outer function, m.stack.frames = f :: outer →
      m.program.function? f.function = some function → function.body[f.pc]? = none →
        Ends leave m (fun _ m' => ok false m') bad)
    (hnode : ∀ f outer function n, m.stack.frames = f :: outer →
      m.program.function? f.function = some function → function.body[f.pc]? = some n →
        Ends (executeAt function f.fp f.pc n) m (fun _ m' => ok true m')
          (fun e m' => bad (e.tag n.location) m')) : Ends advance m ok bad := by
  cases hm : m.stack.frames with
  | nil =>
    simp only [advance, ends_bind, ends_get, CallStack.top?, hm, List.head?_nil, ends_pure]
    exact hidle hm
  | cons f outer =>
    cases hfun : m.program.function? f.function with
    | none =>
      simp only [advance, ends_bind, ends_get, CallStack.top?, hm, List.head?_cons, ends_ofExcept,
        Program.function, hfun, gives_error]
      exact hmissing f outer hm hfun
    | some function =>
      cases hn : function.body[f.pc]? with
      | none => exact (ends_advance_at_end hm hfun hn).mpr (hleave f outer function hm hfun hn)
      | some n => exact (ends_advance_at_node hm hfun hn).mpr (hnode f outer function n hm hfun hn)

/-- A return to a call node stores the results and moves the caller on; an error is one of that
node. -/
theorem ends_leave_at_node (hm : m.stack.frames = f :: caller :: outer)
    (hreturns : f.returnsToCaller = true) (hcallee : m.program.function? f.function = some callee)
    (hfun : m.program.function? caller.function = some function)
    (hn : function.body[caller.pc]? = some n) :
    Ends leave m left bad ↔
      Ends (storeResults f.fp callee caller.fp n) (m.withFrames (caller :: outer))
        (fun _ m' => left () (m'.setPc (caller.pc + 1)))
        (fun e m' => bad (e.tag n.location) m') := by
  simp only [leave, ends_bind, ends_get, CallStack.top?, CallStack.pop, hm, List.head?_cons,
    List.tail_cons, ends_set, hreturns, if_true, ends_ofExcept, Program.function, hcallee, gives_ok,
    hfun, hn, ends_mapError, ends_modify]
  rfl

end Advance

/-- One step of the innermost frame. -/
theorem ends_advance_of (h : ∀ f ∈ m.program.functions, ∀ n ∈ f.body, m.KeepsSegmentsAt n) :
    Ends advance m (fun _ m' => Stepped m m') (fun _ _ => True) := by
  apply ends_advance_cases
  · intro hm
    refine ⟨[], ?_, ?_⟩
    · rw [hm]
      exact .idle
    · rw [← hm]
      exact .refl m
  · exact fun _ _ _ _ => trivial
  · intro f outer function hm hfun hn
    exact ends_leave.mono (fun _ _ hs => hs) fun _ _ _ => trivial
  · intro f outer function n hm hfun hn
    have hnode := h function (List.mem_of_find?_eq_some hfun) n (List.mem_of_getElem? hn)
    exact ends_executeAt hnode hm hfun hn

theorem ends_advance (h : m.KeepsSegments) :
    Ends advance m (fun _ m' => Stepped m m') (fun _ _ => True) :=
  ends_advance_of fun _ _ n _ => h.atNode n

end Machine

end FlatMachine
