import FlatMachine.Proofs.CallStack
import FlatMachine.Proofs.Execution

/-!
# Type soundness

A program whose functions have been laid out never finds a wrong type or an unknown name while it
runs. The layout has settled where every operand leads and what type it has there; a run keeps to
the nodes of laid-out functions, and every caller that is returned to is still at the node that
called.
-/

namespace FlatMachine

open FlatMachine.Action

namespace Machine

variable {m : Machine} {f : Frame} {inner outer base : List Frame} {start stop : Nat}

theorem dynamic_leave (hp : m.program.WellTyped m.primitives) (hm : m.stack.frames = f :: outer)
    (hf : f.Within m.program) (hcaller : f.returnsToCaller = true →
      ∃ caller, outer.head? = some caller ∧ f.CalledBy m.program caller) :
    Ends leave m (fun _ _ => True) (fun e _ => e.Dynamic) := by
  simp only [leave, ends_bind, ends_get, CallStack.top?, CallStack.pop, hm, List.head?_cons,
    List.tail_cons, ends_set, ends_ite, ends_pure, ends_ofExcept]
  refine ⟨fun hreturns => ?_, fun _ => trivial⟩
  obtain ⟨caller, hhead, -, function, n, signature, hfun, hn, hop⟩ := hcaller hreturns
  obtain ⟨callee, hcallee, -⟩ := hf
  have hnode : n.WellTyped m.program m.primitives :=
    hp.nodes function (List.mem_of_find?_eq_some hfun) n (List.mem_of_getElem? hn)
  simp only [hhead, Program.function_eq_ok hcallee, gives_ok, ends_bind, ends_ofExcept,
    Program.function_eq_ok hfun, hn, ends_mapError, ends_modify, Error.dynamic_tag]
  exact dynamic_storeResults hp hnode hop hcallee

theorem dynamic_advance (hp : m.program.WellTyped m.primitives)
    (hm : m.stack.frames = inner ++ base) (hlinked : Linked m.program start stop inner)
    (hinner : inner ≠ []) : Ends advance m (fun _ _ => True) (fun e _ => e.Dynamic) := by
  cases hlinked with
  | nil => exact absurd rfl hinner
  | @cons f outer _ _ hwithin hcaller _ =>
    obtain ⟨function, hfun, -, -⟩ := id hwithin
    rw [List.cons_append] at hm
    cases hn : function.body[f.pc]? with
    | none =>
      rw [ends_advance_at_end hm hfun hn]
      apply dynamic_leave hp hm hwithin
      intro hreturns
      obtain ⟨caller, hhead, hcalled⟩ := hcaller hreturns
      obtain ⟨rest, rfl⟩ := List.head?_eq_some_iff.mp hhead
      exact ⟨caller, rfl, hcalled⟩
    | some n =>
      have hnode : n.WellTyped m.program m.primitives :=
        hp.nodes function (List.mem_of_find?_eq_some hfun) n (List.mem_of_getElem? hn)
      simp only [ends_advance_at_node hm hfun hn, Error.dynamic_tag]
      exact dynamic_executeAt hp hnode

theorem dynamic_beginCall {name : FunctionName} {function : Function} {args : List Bytes}
    (hp : m.program.WellTyped m.primitives) (hf : m.program.function? name = some function)
    (hargs : function.Accepts m.program.structs args) :
    Ends (beginCall name args) m (fun _ _ => True) (fun e _ => e.Dynamic) := by
  have henter : Ends (enter function m.nextFp m.nextFp args false) m (fun _ _ => True)
      (fun e _ => e.Dynamic) := dynamic_enter hp (List.mem_of_find?_eq_some hf) hargs
  simp only [beginCall, ends_bind, ends_get, ends_ofExcept, Program.function_eq_ok hf, gives_ok,
    ends_ite, ends_throw]
  refine ⟨fun _ => trivial, fun _ => ?_⟩
  split
  · trivial
  · rename_i he
    exact henter.failure he

end Machine

namespace Run

/-- No callback is waiting after anything that the run executes. -/
def Quiet (r : Run) : Prop :=
  ∀ s executed m, Relation.ReflTransGen (fun s t => s.step = .running t) r s →
    Machine.advance s.machine = .ok executed m → m.callbacks = []

variable {r s : Run} {p : Program} {table : PrimitiveTable} {start : Nat} {base : List Frame}

theorem quiet_iff : r.Quiet ↔
    (∀ executed m, Machine.advance r.machine = .ok executed m → m.callbacks = []) ∧
      ∀ s, r.step = .running s → s.Quiet := by
  constructor
  · intro h
    constructor
    · intro executed m
      exact h r executed m .refl
    · intro s hs t executed m hreach
      exact h t executed m (.head hs hreach)
  · rintro ⟨hadvance, hstep⟩ t executed m hreach
    rcases hreach.cases_head with rfl | ⟨s, hs, hreach⟩
    · exact hadvance executed m
    · exact hstep s hs t executed m hreach

/-- The run makes a single call, whose frames lie on top of others. -/
structure OfCall (p : Program) (table : PrimitiveTable) (start : Nat) (base : List Frame)
    (r : Run) : Prop where
  program_eq : r.machine.program = p
  primitives_eq : r.machine.primitives = table
  task : ∃ fp returns, r.tasks = [.call base.length fp returns] ∧
    ∀ o ∈ returns, o.HasTy p.structs o.ty
  frames : ∃ inner, r.machine.stack.frames = inner ++ base ∧
    Linked p start r.machine.arena.stackEnd inner

/-- A call that has begun is the only task of its run. -/
theorem OfCall.begun {m m' : Machine} {name : FunctionName} {f : Function} {args : List Bytes}
    {task : Task} (hp : m.program.WellTyped m.primitives)
    (hf : m.program.function? name = some f) (h : Machine.beginCall name args m = .ok task m') :
    OfCall m.program m.primitives m.nextFp m.stack.frames ⟨m', [task]⟩ := by
  obtain ⟨function, hfun, rfl, hroom, -, hworked⟩ := Machine.ends_beginCall.value h
  cases hf.symm.trans hfun
  obtain rfl := Program.reference_of_function? hf
  have hsetup := hworked.sameSetup
  have hreturns : ∀ o ∈ f.returns, o.HasTy m.program.structs o.ty := by
    intro o ho
    exact hp.slots f (List.mem_of_find?_eq_some hf) o (List.mem_append_right _ ho)
  have hbase : (f.frame m.nextFp m.nextFp false).returnsToCaller ≠ true := Bool.false_ne_true
  have hlinked : Linked m.program m.nextFp m'.arena.stackEnd [f.frame m.nextFp m.nextFp false] := by
    rw [hsetup.segments.stackEnd_eq]
    exact .cons rfl hroom ⟨f, hf, rfl, Nat.zero_le _⟩ (absurd · hbase) .nil
  exact ⟨hsetup.program_eq, hsetup.primitives_eq, ⟨m.nextFp, f.returns, rfl, hreturns⟩,
    _, hworked.frames_eq, hlinked⟩

/-- As long as the call has frames, what is executed next keeps to them. -/
theorem OfCall.ends_advance (h : r.OfCall p table start base) (hp : p.WellTyped table)
    (hrunning : base.length < r.machine.depth) :
    Ends Machine.advance r.machine (fun _ m => OfCall p table start base ⟨m, r.tasks⟩)
      (fun e _ => e.Dynamic) := by
  obtain ⟨rfl, rfl, htask, inner, hframes, hlinked⟩ := h
  have hinner : inner ≠ [] := by
    rintro rfl
    rw [Machine.depth, CallStack.depth, hframes, List.nil_append] at hrunning
    exact Nat.lt_irrefl _ hrunning
  have hkeeps : r.machine.KeepsSegments := fun q hq => .inl (hp.shipped q hq)
  apply ends_iff.mpr
  constructor
  · intro executed m hadvance
    obtain ⟨frames, hstep, hworked⟩ := (Machine.ends_advance hkeeps).value hadvance
    rw [hframes] at hstep
    obtain ⟨inner', rfl, hlinked'⟩ := hlinked.step (.inl hinner) hstep
    have hsetup := hworked.sameSetup
    rw [← hsetup.segments.stackEnd_eq] at hlinked'
    exact ⟨hsetup.program_eq, hsetup.primitives_eq, htask, inner', hworked.frames_eq, hlinked'⟩
  · intro e m hadvance
    exact (Machine.dynamic_advance hp hframes hlinked hinner).failure hadvance

/-- A step of such a run leads to such a run, unless it fails for the values it meets. -/
theorem OfCall.step (h : r.OfCall p table start base) (hp : p.WellTyped table) (hquiet : r.Quiet) :
    (∀ s, r.step = .running s → s.OfCall p table start base) ∧
      ∀ m e, r.step = .finished m (.error e) → e.Dynamic := by
  have hcallbacks := (quiet_iff.mp hquiet).1
  obtain ⟨m, tasks⟩ := r
  obtain ⟨fp, returns, rfl, hreturns⟩ : ∃ fp returns, tasks = [.call base.length fp returns] ∧
      ∀ o ∈ returns, o.HasTy p.structs o.ty := h.task
  constructor
  · intro s hstep
    cases stepsTo hstep with
    | executed hbase hadvance =>
      rw [Machine.takeCallbacks_of_empty (hcallbacks _ _ hadvance)]
      exact (h.ends_advance hp hbase).value hadvance
    | returned hbase hadvance => exact (h.ends_advance hp hbase).value hadvance
    | ended _ _ hrest => exact absurd rfl hrest
  · intro m' e hstep
    cases stepsTo hstep with
    | failed hbase hadvance => exact (h.ends_advance hp hbase).failure hadvance
    | unread _ hread =>
      obtain ⟨rfl, rfl, -, -⟩ := h
      exact (Machine.gives_readSlots hp hreturns).failure hread

theorem OfCall.finish {fuel : Nat} {m : Machine} {e : Error} (h : r.OfCall p table start base)
    (hp : p.WellTyped table) (hquiet : r.Quiet) (hfinish : r.finish? fuel = some (m, .error e)) :
    e.Dynamic := by
  induction fuel generalizing r with
  | zero => cases hfinish
  | succ fuel ih =>
    obtain ⟨hrunning, hfinished⟩ := h.step hp hquiet
    unfold finish? at hfinish
    split at hfinish
    · rename_i s hs
      exact ih (hrunning s hs) ((quiet_iff.mp hquiet).2 s hs) hfinish
    · rename_i m' outcome hs
      cases hfinish
      exact hfinished _ _ hs

end Run

/-- The operator was obtained from the table, or calls a function of the program by its signature.
-/
inductive Operator.TakenFrom (p : Program) (table : PrimitiveTable) : Operator → Prop where
  | table {key : String} {op : Operator} (h : table.operator key = .ok op) : TakenFrom p table op
  | call {callee : FunctionName} {g : Function} (h : p.function? callee = some g) :
      TakenFrom p table (.call callee g.signature)
  | jump (onTrue onFalse : Int) : TakenFrom p table (.jump onTrue onFalse)

/-- The program was built from a draft over whose history its functions were laid out, with the
operators that come with the machine and with sized types only. -/
structure Program.LaidOut (p : Program) (table : PrimitiveTable) (d : Draft) : Prop where
  build_eq : d.build = .ok p
  /-- Each function was laid out at some time in the history of the draft. -/
  functions : ∀ f ∈ p.functions, ∃ (fd : FunctionDraft) (d₀ : Draft), d₀.Reachable ∧
    d₀.Grows d ∧ fd.layout d₀ = .ok f ∧ fd.Sized p.structs
  fields : p.structs.SizedFields
  globals : ∀ g ∈ p.globals, g.ty.Sized p.structs
  shipped : ∀ q ∈ table.entries, q.Shipped
  operators : ∀ f ∈ p.functions, ∀ n ∈ f.body, ∀ op, n.operator = some op → op.TakenFrom p table
  readable : ∀ f ∈ p.functions, ∀ n ∈ f.body, n.ComparesReadable p.structs

section LaidOut

variable {p : Program} {table : PrimitiveTable} {d : Draft}

theorem Operator.TakenFrom.resolved {op : Operator} (h : op.TakenFrom p table) :
    op.Resolved p table := by
  cases h with
  | table h =>
    obtain ⟨code, -, h⟩ := bind_eq_ok.mp h
    obtain ⟨q, hq, h⟩ := bind_eq_ok.mp h
    cases h
    exact ⟨q, hq, rfl, rfl⟩
  | call h => exact ⟨_, h, rfl⟩
  | jump => trivial

theorem Draft.build_eq_ok (h : d.build = .ok p) :
    p.structs = d.structs ∧ p.globals = d.globals := by
  unfold Draft.build at h
  split at h
  · cases h
  · cases h
    exact ⟨rfl, rfl⟩

theorem Program.LaidOut.wellTyped (h : p.LaidOut table d) : p.WellTyped table := by
  obtain ⟨hstructs, hglobals⟩ := Draft.build_eq_ok h.build_eq
  have htyped : ∀ f ∈ p.functions, (∀ o ∈ f.params ++ f.returns, o.HasTy p.structs o.ty) ∧
      ∀ n ∈ f.body, ∃ ins outs, n.Typed p.structs ins outs ∧ n.Checked ins outs := by
    intro f hf
    obtain ⟨fd, d₀, hreachable, hgrows, hlayout, hsized⟩ := h.functions f hf
    obtain ⟨l, rfl, hmakes⟩ := fd.layout_eq_ok hlayout
    refine hmakes.typed hreachable (hstructs ▸ hgrows.structs) (fun g hg => ?_) hsized
    exact h.globals g (hglobals ▸ hgrows.globals_subset hg)
  refine ⟨h.shipped, h.fields, fun f hf => (htyped f hf).1, fun f hf n hn => ⟨?_, ?_, ?_⟩⟩
  · exact (htyped f hf).2 n hn
  · exact fun op hop => (h.operators f hf n hn op hop).resolved
  · exact h.readable f hf n hn

end LaidOut

/-- No call of a laid-out program fails because a type is wrong or a name is unknown: on any
machine, for arguments of the declared widths, and for as long as it runs, provided that no
callback is queued. -/
theorem type_sound {p : Program} {table : PrimitiveTable} {d : Draft} (hp : p.LaidOut table d)
    {m : Machine} (hprogram : m.program = p) (hprimitives : m.primitives = table)
    {name : FunctionName} {f : Function} (hf : p.function? name = some f) {args : List Bytes}
    (hargs : f.Accepts p.structs args) (hquiet : ∀ r, m.startCall name args = .running r → r.Quiet)
    {fuel : Nat} {m' : Machine} {e : Error}
    (hrun : (m.startCall name args).finish? fuel = some (m', .error e)) :
    (∀ context expected got, e.root ≠ .typeMismatch context expected got) ∧
      ∀ symbol, e.root ≠ .unresolvedSymbol symbol := by
  subst hprogram hprimitives
  have htyped := hp.wellTyped
  have hdynamic : e.Dynamic := by
    unfold Machine.startCall at hrun hquiet
    cases hcall : Machine.beginCall name args m with
    | error e' m₁ =>
      rw [hcall] at hrun
      cases hrun
      exact (Machine.dynamic_beginCall htyped hf hargs).failure hcall
    | ok task m₁ =>
      rw [hcall] at hrun hquiet
      have hbegun := Run.OfCall.begun htyped hf hcall
      exact hbegun.finish htyped (hquiet _ rfl) hrun
  exact hdynamic.root_ne

/-- A function that negates its argument and calls itself with it. -/
def spinDraft : FunctionDraft where
  package := "main"
  name := "spin"
  params := [("x", .bool)]
  returns := [("y", .bool)]
  body := [
    { operator := some (.native 4 "bool.not" (.of [.bool] [.bool]))
      inputs := [{ name := "x" }]
      outputs := [{ name := "x" }] },
    { operator := some (.call ⟨"main", "spin"⟩ (.of [.bool] [.bool]))
      inputs := [{ name := "x" }]
      outputs := [{ name := "y" }] }]

/-- The function, laid out: its argument lies at the start of the frame, its result behind it. -/
def spinFunction : Function where
  package := "main"
  name := "spin"
  params := [
    { name := "x", ty := .bool, storage := .frame 0, declared := true, package := "main" }]
  returns := [
    { name := "y", ty := .bool, storage := .frame 1, declared := true, package := "main" }]
  body := [
    { operator := some (.native 4 "bool.not" (.of [.bool] [.bool]))
      inputs := [{ name := "x", ty := .bool, storage := .frame 0, package := "main" }]
      outputs := [{ name := "x", ty := .bool, storage := .frame 0, package := "main" }]
      package := "main" },
    { operator := some (.call ⟨"main", "spin"⟩ (.of [.bool] [.bool]))
      inputs := [{ name := "x", ty := .bool, storage := .frame 0, package := "main" }]
      outputs := [{ name := "y", ty := .bool, storage := .frame 1, package := "main" }]
      package := "main" }]
  frameSize := 2

/-- The draft in which the function was declared, laid out and added. -/
def spinHistory : Draft :=
  (Draft.declareFunction {} ⟨"main", "spin"⟩ (.of [.bool] [.bool])).addFunction spinFunction

/-- A machine for the function, with room for one frame. -/
def spinMachine : Machine where
  program := { data := List.replicate nilGuard 0, functions := [spinFunction] }
  primitives := { entries := boolPrimitives }
  options := {}
  work := {
    arena := {
      image := Array.replicate 16 0, stackStart := 8, stackEnd := 16, capacity := 16, limit := 16 }
    random := .ofSeed 0 }
  stack := { maxDepth := 1 }

theorem laidOut_spinMachine :
    spinMachine.program.LaidOut spinMachine.primitives spinHistory where
  build_eq := rfl
  functions f hf := by
    obtain rfl := List.mem_singleton.mp hf
    refine ⟨spinDraft, _, .tail .refl (.declareFunction _ _), .tail .refl (.addFunction _), rfl, ?_⟩
    have hdeclared : spinDraft.declared = [("x", .bool), ("y", .bool)] := rfl
    have hunassigned : ∀ o ∈ spinDraft.operands, o.storage = .unassigned := by decide
    refine ⟨fun entry hentry => ?_, fun o ho hassigned => absurd (hunassigned o ho) hassigned⟩
    simp only [hdeclared, List.mem_cons, List.not_mem_nil, or_false] at hentry
    rcases hentry with rfl | rfl <;> trivial
  fields := nofun
  globals := nofun
  shipped q hq := List.mem_append_left _ (Primitive.Family.bool hq).mem_library
  operators f hf n hn op hop := by
    obtain rfl := List.mem_singleton.mp hf
    simp only [spinFunction, List.mem_cons, List.not_mem_nil, or_false] at hn
    rcases hn with rfl | rfl
    · cases hop
      have hnot : spinMachine.primitives.operator "bool.not" =
          .ok (.native 4 "bool.not" (.of [.bool] [.bool])) := rfl
      exact .table hnot
    · cases hop
      have hspin : spinMachine.program.function? ⟨"main", "spin"⟩ = some spinFunction := rfl
      exact .call hspin
  readable f hf n hn code name signature hop hname := by
    obtain rfl := List.mem_singleton.mp hf
    simp only [spinFunction, List.mem_cons, List.not_mem_nil, or_false] at hn
    rcases hn with rfl | rfl
    · cases hop
      exact absurd hname (by decide)
    · cases hop

theorem type_sound_spinMachine : ∃ m' e,
    (spinMachine.startCall ⟨"main", "spin"⟩ [[1]]).finish? 2 = some (m', .error e) ∧
      e.root = .stackOverflow 1 ∧
      (∀ context expected got, e.root ≠ .typeMismatch context expected got) ∧
        ∀ symbol, e.root ≠ .unresolvedSymbol symbol := by
  obtain ⟨r, m₁, r₁, e₁, m₂, e, m', hstart, hadvance, hcallbacks, hstep, hfails, hend, hrun, hroot⟩ :
      ∃ r m₁ r₁ e₁ m₂ e m', spinMachine.startCall ⟨"main", "spin"⟩ [[1]] = .running r ∧
        Machine.advance r.machine = .ok true m₁ ∧ m₁.callbacks = [] ∧ r.step = .running r₁ ∧
        Machine.advance r₁.machine = .error e₁ m₂ ∧ r₁.step = .finished m' (.error e) ∧
        (spinMachine.startCall ⟨"main", "spin"⟩ [[1]]).finish? 2 = some (m', .error e) ∧
        e.root = .stackOverflow 1 :=
    ⟨_, _, _, _, _, _, _, rfl, rfl, rfl, rfl, rfl, rfl, rfl, rfl⟩
  have hquiet : r.Quiet := by
    apply Run.quiet_iff.mpr
    constructor
    · intro executed m hm
      cases hadvance.symm.trans hm
      exact hcallbacks
    · intro s hs
      cases hstep.symm.trans hs
      apply Run.quiet_iff.mpr
      constructor
      · intro executed m hm
        cases hfails.symm.trans hm
      · intro s hs
        cases hend.symm.trans hs
  have hfunction : spinMachine.program.function? ⟨"main", "spin"⟩ = some spinFunction := rfl
  have hargs : spinFunction.Accepts spinMachine.program.structs [[1]] := .cons rfl .nil
  have hstarted : ∀ r, spinMachine.startCall ⟨"main", "spin"⟩ [[1]] = .running r → r.Quiet := by
    intro s hs
    cases hstart.symm.trans hs
    exact hquiet
  exact ⟨m', e, hrun, hroot, type_sound laidOut_spinMachine rfl rfl hfunction hargs hstarted hrun⟩

end FlatMachine
