import FlatMachine.Proofs.Neutrality
import FlatMachine.Proofs.UnlocatedErrors

/-!
# A failing node tells where it stands

The error of a node is tagged with the node's location where the node is executed, or where a call
returns to it, and nowhere else: on its way out of the calls and callbacks around it no other
location is put in its place or added.
-/

namespace FlatMachine

open FlatMachine.Action

theorem Error.tag_eq_located {e : Error} (h : e.location? = none) (l : Location) :
    e.tag l = .located l e := by
  cases e <;> first | rfl | cases h

namespace Action

variable {σ α : Type} {act : Action σ α} {s : σ} {e : Error}

theorem ends_error_iff :
    Ends act s (fun _ _ => False) (fun e' _ => e' = e) ↔ ∃ s', act s = .error e s' := by
  unfold Ends
  cases act s <;> simp

end Action

namespace Machine

variable {m m' : Machine} {n : Node} {cause : Error}

/-- What is next is a node, and it fails for this cause: a node that is executed, or a call node to
which a call returns whose results cannot be stored. -/
inductive FailsAt (m : Machine) (n : Node) (cause : Error) : Prop where
  | executed {f : Frame} {outer : List Frame} {function : Function} {m' : Machine}
      (hm : m.stack.frames = f :: outer) (hfun : m.program.function? f.function = some function)
      (hn : function.body[f.pc]? = some n)
      (h : executeAt function f.fp f.pc n m = .error cause m')
  | stored {f caller : Frame} {outer : List Frame} {callee function : Function} {m' : Machine}
      (hm : m.stack.frames = f :: caller :: outer) (hreturns : f.returnsToCaller = true)
      (hcallee : m.program.function? f.function = some callee) (hend : callee.body[f.pc]? = none)
      (hfun : m.program.function? caller.function = some function)
      (hn : function.body[caller.pc]? = some n)
      (h : storeResults f.fp callee caller.fp n (m.withFrames (caller :: outer)) = .error cause m')

theorem FailsAt.location (h : m.FailsAt n cause)
    (hops : ∀ p ∈ m.primitives.entries, p.Unlocated) : cause.location? = none := by
  cases h with
  | executed _ _ _ h => exact (unlocatedAt_executeAt m _ _ n hops _).failure h
  | stored _ _ _ _ _ _ h => exact (unlocatedAt_storeResults _ n _ _ _).failure h

/-- The error of a node is tagged with the node's location. -/
theorem FailsAt.advance (h : m.FailsAt n cause) :
    ∃ m', advance m = .error (cause.tag n.location) m' := by
  rw [← ends_error_iff]
  cases h with
  | executed hm hfun hn h =>
    rw [ends_advance_at_node hm hfun hn, ends_iff]
    simp [h]
  | @stored f caller outer callee function m' hm hreturns hcallee hend hfun hn h =>
    rw [ends_advance_at_end hm hcallee hend, ends_leave_at_node hm hreturns hcallee hfun hn,
      ends_iff]
    simp [h]

/-- The error has no location, or a node of the machine has failed with it. -/
def Accounted (m : Machine) (e : Error) : Prop :=
  e.location? = none ∨ ∃ n cause, m.FailsAt n cause ∧ e = cause.tag n.location

theorem gives_accounted {α : Type} {r : Except Error α} {ok : α → Prop} (h : Unlocated r)
    (hok : ∀ a, r = .ok a → ok a) : Gives r ok m.Accounted :=
  gives_iff.mpr ⟨hok, fun _ he => .inl (h.failure he)⟩

theorem ends_leave_accounted {f : Frame} {outer : List Frame} {callee : Function}
    (hm : m.stack.frames = f :: outer) (hcallee : m.program.function? f.function = some callee)
    (hend : callee.body[f.pc]? = none) :
    Ends leave m (fun _ _ => True) (fun e _ => m.Accounted e) := by
  simp only [leave, ends_bind, ends_get, CallStack.top?, hm, List.head?_cons, ends_set, ends_ite,
    ends_pure, ends_ofExcept, Program.function, hcallee, gives_ok, CallStack.pop, List.tail_cons,
    implies_true, and_true]
  intro hreturns
  cases outer with
  | nil => trivial
  | cons caller outer =>
    simp only [List.head?_cons, ends_bind, ends_ofExcept]
    apply gives_accounted (m.program.unlocated_function _)
    intro function hfun
    cases hn : function.body[caller.pc]? with
    | none => exact .inl rfl
    | some n =>
      simp only [ends_bind, ends_mapError, ends_modify]
      refine ends_iff.mpr ⟨fun _ _ _ => trivial, fun cause m' h => .inr ⟨n, cause, ?_, rfl⟩⟩
      exact .stored hm hreturns hcallee hend (Program.gives_function.value hfun) hn h

/-- Advancing the innermost frame fails at a node, or without a location. -/
theorem ends_advance_accounted :
    Ends Machine.advance m (fun _ _ => True) (fun e _ => m.Accounted e) := by
  apply ends_advance_cases
  · exact fun _ => trivial
  · exact fun _ _ _ _ => .inl rfl
  · exact fun f outer function hm hfun hn => ends_leave_accounted hm hfun hn
  · intro f outer function n hm hfun hn
    exact ends_iff.mpr ⟨fun _ _ _ => trivial, fun cause m' h =>
      .inr ⟨n, cause, .executed hm hfun hn h, rfl⟩⟩

end Machine

namespace Run

variable {r s t : Run} {m : Machine} {n : Node} {cause e : Error}

/-- What is next in the innermost call is a node, and it fails for this cause. -/
def FailsAt (r : Run) (n : Node) (cause : Error) : Prop :=
  r.machine.FailsAt n cause ∧ ∃ base fp returns rest, r.tasks = .call base fp returns :: rest ∧
    base < r.machine.depth

theorem FailsAt.step (h : r.FailsAt n cause) :
    ∃ m, r.step = .finished m (.error (cause.tag n.location)) := by
  obtain ⟨hfails, base, fp, returns, rest, htasks, hbase⟩ := h
  obtain ⟨m, hadvance⟩ := hfails.advance
  refine ⟨m.abandon r.tasks, ?_⟩
  simp only [Run.step, htasks, hbase, if_true, hadvance, fail]

/-- A run that ends with an error that has a location ends at a node. -/
theorem failsAt_of_step (h : r.step = .finished m (.error e)) :
    e.location? = none ∨ ∃ n cause, r.FailsAt n cause ∧ e = cause.tag n.location := by
  cases stepsTo h with
  | failed hbase hadvance =>
    rcases Machine.ends_advance_accounted.failure hadvance with hnone | ⟨n, cause, hfails, he⟩
    · exact .inl hnone
    · exact .inr ⟨n, cause, ⟨hfails, _, _, _, _, rfl, hbase⟩, he⟩
  | unread _ hread => exact .inl ((Machine.unlocated_readSlots _ _ _).failure hread)
  | refused _ hbegin => exact .inl ((Machine.unlocatedAt_beginCall _ _ _).failure hbegin)

theorem Reaches.primitives_eq (h : r.Reaches s) :
    s.machine.primitives = r.machine.primitives := by
  induction h with
  | refl => rfl
  | host _ _ ih => exact ih
  | @step s t _ hstep ih =>
    obtain ⟨⟨m, hm, hhost⟩, -⟩ := step_running hstep
    have hprims : m.primitives = s.machine.primitives := by
      rcases hm with ⟨executed, hadvance⟩ | ⟨name, args, task, hbegin⟩ | rfl
      · exact ((Machine.keeps_shifted_advance _).value hadvance).primitives_eq
      · obtain ⟨_, -, -, -, -, _, rfl, -⟩ := Machine.ends_beginCall.value hbegin
        rfl
      · rfl
    rw [hhost.sameSetup.primitives_eq, hprims, ih]

end Run

namespace Machine

variable {m m' : Machine} {name : FunctionName} {args : List Bytes}

theorem primitives_of_startCall {r : Run} (h : m.startCall name args = .running r) :
    r.machine.primitives = m.primitives := by
  unfold startCall at h
  split at h
  · cases h
  · rename_i task m₁ hbegin
    cases h
    obtain ⟨_, -, -, -, -, _, rfl, -⟩ := ends_beginCall.value hbegin
    rfl

/-- A call that cannot begin fails without a location. -/
theorem location_of_startCall {e : Error} (h : m.startCall name args = .finished m' (.error e)) :
    e.location? = none := by
  unfold startCall at h
  split at h
  · rename_i e' m₁ hbegin
    cases h
    exact (m.unlocatedAt_beginCall name args).failure hbegin
  · cases h

end Machine

/-- Every error of a node that a call comes to, at any depth and in callbacks too, ends the call,
which returns the error with the node's location and no other. Every error with a location that a
call returns is such an error. The operators have to report their failures without a location, as
those do that come with the machine. -/
theorem node_error_located {m : Machine} {name : FunctionName} {args : List Bytes}
    (hops : ∀ p ∈ m.primitives.entries, p.Shipped ∨ p.Unlocated) :
    (∀ r₀ r n cause, m.startCall name args = .running r₀ → r₀.Reaches r → r.FailsAt n cause →
      cause.location? = none ∧ ∃ m', r.step = .finished m' (.error (.located n.location cause)) ∧
        m.Returns name args m' (.error (.located n.location cause))) ∧
    ∀ m' e, m.Returns name args m' (.error e) → e.location? = none ∨
      ∃ r₀ r n cause, m.startCall name args = .running r₀ ∧ r₀.Reaches r ∧ r.FailsAt n cause ∧
        e = .located n.location cause := by
  have hops : ∀ p ∈ m.primitives.entries, p.Unlocated := fun p hp =>
    (hops p hp).elim Primitive.Shipped.unlocated id
  have hbare : ∀ {r₀ r n cause}, m.startCall name args = .running r₀ → r₀.Reaches r →
      r.FailsAt n cause → cause.location? = none := by
    intro r₀ r n cause hstart hreaches hfails
    have hprims : r.machine.primitives = m.primitives :=
      hreaches.primitives_eq.trans (Machine.primitives_of_startCall hstart)
    exact hfails.1.location (hprims ▸ hops)
  refine ⟨fun r₀ r n cause hstart hreaches hfails => ?_, fun m' e hreturns => ?_⟩
  · have hnone := hbare hstart hreaches hfails
    obtain ⟨m', hstep⟩ := hfails.step
    rw [Error.tag_eq_located hnone] at hstep
    exact ⟨hnone, m', hstep, .inr ⟨r₀, r, hstart, hreaches, hstep⟩⟩
  · rcases hreturns with hstart | ⟨r₀, r, hstart, hreaches, hstep⟩
    · exact .inl (Machine.location_of_startCall hstart)
    · rcases Run.failsAt_of_step hstep with hnone | ⟨n, cause, hfails, rfl⟩
      · exact .inl hnone
      · have htag := Error.tag_eq_located (hbare hstart hreaches hfails) n.location
        exact .inr ⟨r₀, r, n, cause, hstart, hreaches, hfails, htag⟩

/-- A machine with a callback waiting for a function `key` that calls the function `wide`, for whose
frame there is no room, and a function `outer` that calls a function `inner`. -/
def keyMachine : Machine :=
  { nestingMachine with
    program := {
      functions := [
        { package := "main", name := "outer",
          body := [{ operator := some (.call ⟨"main", "inner"⟩ {}), location := ⟨"outer", 1⟩ }] },
        { package := "main", name := "inner", body := [{ location := ⟨"inner", 2⟩ }] },
        { package := "main", name := "key",
          body := [{ operator := some (.call ⟨"main", "wide"⟩ {}), location := ⟨"key", 3⟩ }] },
        { package := "main", name := "wide", frameSize := 100 }] }
    work := { nestingMachine.work with host := { callbacks := [⟨⟨"main", "key"⟩, []⟩] } } }

/-- There the callback interrupts the inner call, and the error comes out with the location of the
node of `key`. -/
theorem node_error_located_keyMachine : ∃ m' r₀ r n,
    keyMachine.startCall ⟨"main", "outer"⟩ [] = .running r₀ ∧ r₀.Reaches r ∧
      r.FailsAt n (.stackOverflow 3) ∧
      r.step = .finished m' (.error (.located n.location (.stackOverflow 3))) ∧
      n.location = ⟨"key", 3⟩ := by
  have hops : ∀ p ∈ keyMachine.primitives.entries, p.Shipped ∨ p.Unlocated := fun p hp =>
    .inl (List.mem_append_left _ hp)
  have hend : ((keyMachine.startCall ⟨"main", "outer"⟩ []).finish? 4).map (·.2) =
      some (.error (.located ⟨"key", 3⟩ (.stackOverflow 3))) := by decide +kernel
  obtain ⟨⟨m', outcome⟩, hfinish, rfl⟩ := Option.map_eq_some_iff.mp hend
  obtain ⟨hlocated, honly⟩ := node_error_located hops
  rcases honly m' _ (Machine.returns_of_finish? hfinish) with
    hnone | ⟨r₀, r, n, cause, hstart, hreaches, hfails, heq⟩
  · cases hnone
  · obtain ⟨hlocation, rfl⟩ := Error.located.inj heq
    obtain ⟨-, m'', hstep, -⟩ := hlocated r₀ r n _ hstart hreaches hfails
    exact ⟨m'', r₀, r, n, hstart, hreaches, hfails, hstep, hlocation.symm⟩

end FlatMachine
