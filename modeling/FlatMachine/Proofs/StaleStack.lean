import FlatMachine.Proofs.CallbackQueue
import FlatMachine.Proofs.CallsInStep

/-!
# Calls do not see what earlier calls left

A frame that ends is not erased, and the next call is laid over its bytes. In a program without
handles this cannot be observed: machines that differ in nothing else run a call in step, from its
first frame to its results.
-/

namespace FlatMachine

open FlatMachine.Action

namespace Program.Enclosed

variable {p : Program} {m : Machine} {f : Function} {n : Node}

/-- A step keeps the segments and the host. -/
theorem ends_advance (h : m.program.Enclosed m.primitives) :
    Ends Machine.advance m (fun _ m' => m.Stepped m' ∧ m'.work.host = m.work.host)
      (fun _ _ => True) := by
  have hstepped : Ends Machine.advance m (fun _ m' => m.Stepped m') (fun _ _ => True) := by
    apply Machine.ends_advance_of
    intro f hf n hn code name signature q hop hq
    have hmem := h.library f hf n hn code name signature q hop hq
    exact (Primitive.contained_of_mem_library hmem).keepsSegments
  have hhost : Ends Machine.advance m (fun _ m' => m'.work.host = m.work.host)
      (fun _ m' => m'.work.host = m.work.host) := by
    apply Machine.ends_advance_host (Q := (· = m.work.host)) rfl
    intro f hf n hn fp
    apply Machine.ends_executeNode_host (Q := (· = m.work.host)) rfl
    intro code name signature q hop hq s
    have hmem := h.library f hf n hn code name signature q hop hq
    exact (Primitive.shape_of_mem_library hmem).keepsHost m.work
  rw [ends_iff] at hstepped hhost ⊢
  exact ⟨fun x m' hm => ⟨hstepped.1 x m' hm, hhost.1 x m' hm⟩, fun _ _ _ => trivial⟩

end Program.Enclosed

/-- Two runs of a call of the function whose frame begins at `lo` on top of other frames. -/
structure Run.Paired (base : List Frame) (lo : Nat) (f : Function) (r r' : Run) : Prop where
  enclosed : r.machine.program.Enclosed r.machine.primitives
  mem : f ∈ r.machine.program.functions
  data_le : r.machine.program.data.length ≤ lo
  base_le : frontier 0 base ≤ lo
  tasks_eq : r.tasks = [.call base.length lo f.returns]
  same_tasks : r'.tasks = r.tasks
  linked : ∃ inner, r.machine.stack.frames = inner ++ base ∧
    Linked r.machine.program lo r.machine.arena.stackEnd inner
  callbacks_eq : r.machine.callbacks = []
  inStep : Machine.InStep (lo + f.frameSize) r.machine r'.machine

/-- Both have come to the same outcome and differ at most behind the edge. -/
def EndsAgree (lo : Nat) (e e' : Machine × Outcome) : Prop :=
  e.1.AgreeBelow lo e'.1 ∧ e'.2 = e.2

namespace Run

variable {base : List Frame} {lo : Nat} {f : Function} {r r' : Run}

/-- A step keeps the runs paired, or ends both. -/
theorem Paired.step (h : Paired base lo f r r') :
    Progress.Related (Paired base lo f) (EndsAgree lo) r.step r'.step := by
  obtain ⟨m, tasks⟩ := r
  obtain ⟨m', tasks'⟩ := r'
  obtain ⟨hp, hf, hdata, hbase, rfl, rfl, ⟨inner, hframes, hlinked⟩, hcallbacks, hinStep⟩ := h
  dsimp only at hp hf hdata hframes hlinked hcallbacks hinStep
  have hfirst : lo ≤ lo + f.frameSize := Nat.le_add_right _ _
  have hagree : m.AgreeBelow lo m' := hinStep.mono (hfirst.trans (le_max_left _ _))
  have hlength : m.depth = inner.length + base.length := by
    rw [Machine.depth, CallStack.depth, hframes, List.length_append]
  simp only [Run.step, hagree.depth_eq]
  by_cases hdepth : base.length < m.depth
  · have hinner : inner ≠ [] := by
      rintro rfl
      rw [hlength, List.length_nil] at hdepth
      omega
    rw [if_pos hdepth, if_pos hdepth]
    have hboth := Machine.endBoth_advance hinStep hp hlinked hframes hinner hdata hfirst hbase
    rcases hboth.cases with ⟨executed, s, t, hs, ht, hst⟩ | ⟨e, s, t, hs, ht, hst⟩ <;> rw [hs, ht]
    · obtain ⟨⟨frames, hstep, hworked⟩, hhost⟩ := hp.ends_advance.value hs
      rw [hframes] at hstep
      obtain ⟨inner', rfl, hlinked'⟩ := hlinked.step (.inl hinner) hstep
      have hsetup := hworked.sameSetup
      rw [← hsetup.program_eq, ← hsetup.segments.stackEnd_eq] at hlinked'
      have hqueue : s.callbacks = [] := (congrArg Host.callbacks hhost).trans hcallbacks
      have hpaired : Paired base lo f ⟨s, [.call base.length lo f.returns]⟩
          ⟨t, [.call base.length lo f.returns]⟩ := by
        refine ⟨?_, ?_, ?_, hbase, rfl, rfl, ⟨inner', hworked.frames_eq, hlinked'⟩, hqueue, hst⟩
        · rw [hsetup.program_eq, hsetup.primitives_eq]
          exact hp
        · rw [hsetup.program_eq]
          exact hf
        · rw [hsetup.program_eq]
          exact hdata
      have hqueue' : t.callbacks = [] := hst.callbacks_eq.trans hqueue
      cases executed with
      | true =>
        simp only [Machine.takeCallbacks_of_empty hqueue, Machine.takeCallbacks_of_empty hqueue']
        exact hpaired
      | false => exact hpaired
    · refine ⟨?_, rfl⟩
      simp only [Machine.abandon, hst.stack_eq]
      exact hst.withStack _
  · have hsheltered : f.Sheltered m.program lo (Machine.edgeOf (lo + f.frameSize) m) :=
      ⟨hf, le_max_left _ _, (hdata.trans hfirst).trans (le_max_left _ _)⟩
    rw [if_neg hdepth, if_neg hdepth, Machine.AgreeBelow.readSlots_eq hinStep fun o ho =>
      hp.slot_below hsheltered (List.mem_append_right _ ho)]
    cases m.readSlots lo f.returns with
    | error e =>
      refine ⟨?_, rfl⟩
      simp only [Machine.abandon, hagree.stack_eq]
      exact hagree.withStack _
    | ok results => exact ⟨hagree, rfl⟩

theorem Paired.begun {m s t : Machine} {name : FunctionName} {args : List Bytes} {task : Task}
    (hp : m.program.Enclosed m.primitives) (hdata : m.program.data.length ≤ m.nextFp)
    (hbase : frontier 0 m.stack.frames ≤ m.nextFp) (hcallbacks : m.callbacks = [])
    (hs : Machine.beginCall name args m = .ok task s)
    (hst : ∃ f, m.program.function? name = some f ∧ Machine.InStep (m.nextFp + f.frameSize) s t) :
    ∃ f, Paired m.stack.frames m.nextFp f ⟨s, [task]⟩ ⟨t, [task]⟩ := by
  obtain ⟨f, hf, hinStep⟩ := hst
  obtain ⟨f', hf', rfl, hroom, -, hworked⟩ := Machine.ends_beginCall.value hs
  obtain rfl : f = f' := Option.some.inj (hf.symm.trans hf')
  have hhost : s.work.host = m.work.host := (Machine.keepsHost_beginCall name args m).value hs
  have hsetup := hworked.sameSetup
  refine ⟨f, ?_, ?_, ?_, hbase, rfl, rfl, ⟨[_], hworked.frames_eq, ?_⟩,
    (congrArg Host.callbacks hhost).trans hcallbacks, hinStep⟩
  · rw [hsetup.program_eq, hsetup.primitives_eq]
    exact hp
  · rw [hsetup.program_eq]
    exact List.mem_of_find?_eq_some hf
  · rw [hsetup.program_eq]
    exact hdata
  · obtain rfl := Program.reference_of_function? hf
    have hwithin : (f.frame m.nextFp m.nextFp false).Within m.program :=
      ⟨f, hf, rfl, Nat.zero_le _⟩
    rw [hsetup.program_eq, hsetup.segments.stackEnd_eq]
    exact .cons rfl hroom hwithin (absurd · Bool.false_ne_true) .nil

end Run

/-- The program was built from a draft without handles: no type that is declared holds one, no input
is passed by reference, and the operators are those of the library. -/
structure Program.HandleFree (p : Program) (table : PrimitiveTable) (d : Draft) : Prop where
  build_eq : d.build = .ok p
  reachable : d.Reachable
  /-- Each function was laid out at some time in the history of the draft. -/
  functions : ∀ f ∈ p.functions, ∃ (fd : FunctionDraft) (d₀ : Draft), d₀.Reachable ∧
    d₀.Grows d ∧ fd.layout d₀ = .ok f ∧ fd.HandleFree d
  fields : p.structs.HandleFreeFields
  globals : ∀ g ∈ p.globals, g.ty.isHandleFree = true
  byValue : ∀ f ∈ p.functions, ∀ n ∈ f.body, ∀ o ∈ n.inputs, o.byReference = false
  library : ∀ f ∈ p.functions, ∀ n ∈ f.body, ∀ code name signature q,
    n.operator = some (.native code name signature) → table.get code = .ok q → q ∈ library

theorem Program.HandleFree.enclosed {p : Program} {table : PrimitiveTable} {d : Draft}
    (h : p.HandleFree table d) : p.Enclosed table := by
  have hp : p = ⟨d.structs, d.data, d.globals, d.functions⟩ := by
    have hbuild := h.build_eq
    unfold Draft.build at hbuild
    split at hbuild
    · cases hbuild
    · exact (Except.ok.inj hbuild).symm
  have hglobals : ∀ g ∈ d.globals, g.ty.isHandleFree = true := by
    have hall := h.globals
    rwa [hp] at hall
  have hstructs : p.structs = d.structs := by rw [hp]
  have hdata : p.data = d.data := by rw [hp]
  refine ⟨?_, h.fields, fun f hf => ?_, fun f hf => ?_, h.byValue, h.library⟩
  · rw [hstructs]
    exact h.reachable.packed
  · obtain ⟨fd, d₀, hreachable, hgrows, hlayout, hfree⟩ := h.functions f hf
    rw [hstructs, hdata]
    exact (hfree.housed hlayout hreachable hgrows hglobals).1
  · obtain ⟨fd, d₀, hreachable, hgrows, hlayout, hfree⟩ := h.functions f hf
    rw [hstructs, hdata]
    exact (hfree.housed hlayout hreachable hgrows hglobals).2

/-- A call in a program without handles does not see what lies in the stack segment behind the
frames: on two machines that differ in nothing else, it takes as many steps, comes to the same
results or the same error, and leaves the same data segment. -/
theorem stale_stack_unobservable {p : Program} {table : PrimitiveTable} {d : Draft}
    (hp : p.HandleFree table d) {m m' : Machine} (hprogram : m.program = p)
    (hprimitives : m.primitives = table) (hdata : p.data.length ≤ m.arena.stackStart)
    (hstack : m.arena.stackStart ≤ m.nextFp) (hcallbacks : m.callbacks = [])
    (hagree : m.AgreeBelow m.nextFp m') (name : FunctionName) (args : List Bytes) (fuel : Nat) :
    Option.Rel
      (fun e e' => e'.2 = e.2 ∧
        (∀ i < m.arena.stackStart, e'.1.arena.image[i]? = e.1.arena.image[i]?) ∧
        e.1.AgreeBelow m.nextFp e'.1)
      ((m.startCall name args).finish? fuel) ((m'.startCall name args).finish? fuel) := by
  subst hprogram hprimitives
  have henclosed := hp.enclosed
  have hbelow := hdata.trans hstack
  have hbase : frontier 0 m.stack.frames ≤ m.nextFp := by
    rw [Machine.nextFp_eq]
    cases m.stack.frames with
    | nil => exact Nat.zero_le _
    | cons => exact le_rfl
  have hends : Option.Rel (EndsAgree m.nextFp) ((m.startCall name args).finish? fuel)
      ((m'.startCall name args).finish? fuel) := by
    have hbegin := Machine.endBoth_beginCall hagree henclosed hbelow name args
    unfold Machine.startCall
    rcases hbegin.cases with ⟨task, s, t, hs, ht, hst⟩ | ⟨e, s, t, hs, ht, hst⟩ <;> rw [hs, ht]
    · obtain ⟨f, hpaired⟩ := Run.Paired.begun henclosed hbelow hbase hcallbacks hs hst
      apply Progress.Related.finish? (P := Run.Paired m.stack.frames m.nextFp f)
      · exact fun _ _ => Run.Paired.step
      · exact hpaired
    · exact .some ⟨hst, rfl⟩
  generalize (m.startCall name args).finish? fuel = x, (m'.startCall name args).finish? fuel = y
    at hends
  cases hends with
  | none => exact .none
  | some hend =>
    refine .some ⟨hend.2, fun i hi => ?_, hend.1⟩
    obtain ⟨_, ⟨image, rfl, -, hsame⟩, heq⟩ := hend.1
    rw [heq]
    exact hsame i (.inl (hi.trans_le hstack))

/-- A function that returns a local which it has not set. -/
def peekDraft : FunctionDraft where
  package := "main"
  name := "peek"
  returns := [("y", .bool)]
  locals := [("z", .bool)]
  body := [{ inputs := [{ name := "z" }], outputs := [{ name := "y" }] }]

/-- The function, laid out: its result lies at the start of the frame, the local behind it. -/
def peekFunction : Function where
  package := "main"
  name := "peek"
  returns := [
    { name := "y", ty := .bool, storage := .frame 0, declared := true, package := "main" }]
  body := [
    { inputs := [{ name := "z", ty := .bool, storage := .frame 1, package := "main" }]
      outputs := [{ name := "y", ty := .bool, storage := .frame 0, package := "main" }]
      package := "main" }]
  frameSize := 2

/-- A machine for the function, with these bytes in its stack segment. -/
def peekMachine (residue : UInt8) : Machine where
  program := { data := List.replicate nilGuard 0, functions := [peekFunction] }
  primitives := .empty
  options := {}
  work := {
    arena := {
      image := Array.replicate 8 0 ++ Array.replicate 4 residue
      stackStart := 8, stackEnd := 12, capacity := 12, limit := 12 }
    random := .ofSeed 0 }
  stack := { maxDepth := 1 }

theorem handleFree_peekMachine :
    (peekMachine 0).program.HandleFree .empty (Draft.addFunction {} peekFunction) where
  build_eq := rfl
  reachable := .tail .refl (.addFunction _)
  functions f hf := by
    obtain rfl := List.mem_singleton.mp hf
    refine ⟨peekDraft, {}, .refl, .tail .refl (.addFunction _), rfl, by decide, ?_⟩
    have hunassigned : ∀ o ∈ peekDraft.operands, o.storage = .unassigned := by decide
    exact fun o ho hassigned => absurd (hunassigned o ho) hassigned
  fields := nofun
  globals := nofun
  byValue f hf := by
    obtain rfl := List.mem_singleton.mp hf
    decide
  library f hf n hn code name signature q hop := by
    obtain rfl := List.mem_singleton.mp hf
    obtain rfl := List.mem_singleton.mp hn
    cases hop

theorem agreeBelow_peekMachine : (peekMachine 0).AgreeBelow 8 (peekMachine 1) := by
  refine ⟨(peekMachine 1).arena, ⟨(peekMachine 1).arena.image, rfl, rfl, ?_⟩, rfl⟩
  have himage : ∀ residue, (peekMachine residue).arena.image =
      Array.replicate 8 0 ++ Array.replicate 4 residue := fun _ => rfl
  intro i hi
  rw [himage, himage]
  rcases hi with hi | hi
  · have hleft : i < (Array.replicate 8 (0 : UInt8)).size := hi
    rw [Array.getElem?_append_left hleft, Array.getElem?_append_left hleft]
  · rw [Array.getElem?_eq_none hi, Array.getElem?_eq_none hi]

theorem stale_stack_unobservable_peekMachine :
    (peekMachine 1).arena.image[9]? = some 1 ∧
      ∃ m, ((peekMachine 1).startCall ⟨"main", "peek"⟩ []).finish? 3 = some (m, .ok [[0]]) := by
  obtain ⟨m, hm⟩ : ∃ m,
      ((peekMachine 0).startCall ⟨"main", "peek"⟩ []).finish? 3 = some (m, .ok [[0]]) := ⟨_, rfl⟩
  have hsame := stale_stack_unobservable handleFree_peekMachine rfl rfl le_rfl le_rfl rfl
    agreeBelow_peekMachine ⟨"main", "peek"⟩ [] 3
  rw [hm] at hsame
  generalize ((peekMachine 1).startCall ⟨"main", "peek"⟩ []).finish? 3 = y at hsame ⊢
  cases hsame with
  | some h => exact ⟨rfl, _, congrArg some (Prod.ext rfl h.1)⟩

end FlatMachine
