import FlatMachine.Proofs.Inputs
import FlatMachine.Proofs.StackStep

/-!
# Who touches the callback queue

Only the dispatch between two nodes takes callbacks out of the queue. The window operators append to
it or leave it alone, and so does every node. The operators of the library, calls and returns do not
touch the host at all.
-/

namespace FlatMachine

open FlatMachine.Action

namespace Workspace

variable {α β : Type}

/-- However the action ends, the host is what it was. -/
abbrev KeepsHost (act : Action Workspace α) : Prop := Keeps (fun w w' => w'.host = w.host) act

theorem KeepsHost.bind {act : Action Workspace α} {f : α → Action Workspace β} (h : KeepsHost act)
    (hf : ∀ x, KeepsHost (f x)) : KeepsHost (act >>= f) :=
  Keeps.bind h (fun hab hbc => hbc.trans hab) hf

theorem keepsHost_pure (x : α) : KeepsHost (pure x : Action Workspace α) := fun _ => rfl

theorem keepsHost_throw (e : Error) : KeepsHost (throw e : Action Workspace α) := fun _ => rfl

theorem keepsHost_ofExcept (r : Except Error α) : KeepsHost (Action.ofExcept r) :=
  keeps_ofExcept (fun w => Eq.refl w.host) r

theorem keepsHost_look (f : Arena → Except Error α) : KeepsHost (look f) :=
  keeps_query (fun w => Eq.refl w.host) _

theorem keepsHost_onArena (act : Action Arena α) : KeepsHost (onArena act) := by
  intro w
  rw [ends_onArena, ends_iff]
  exact ⟨fun _ _ _ => rfl, fun _ _ _ => rfl⟩

/-- However the action ends, callbacks have at most been appended to the queue. -/
abbrev Pushes (act : Action Workspace α) : Prop :=
  Keeps (fun w w' => w.host.callbacks <+: w'.host.callbacks) act

theorem KeepsHost.pushes {act : Action Workspace α} (h : KeepsHost act) : Pushes act := by
  intro w
  have hprefix : ∀ w' : Workspace, w'.host = w.host → w.host.callbacks <+: w'.host.callbacks := by
    intro w' hhost
    exact hhost ▸ List.prefix_rfl
  exact (h w).mono (fun _ => hprefix) fun _ => hprefix

theorem Pushes.bind {act : Action Workspace α} {f : α → Action Workspace β} (h : Pushes act)
    (hf : ∀ x, Pushes (f x)) : Pushes (act >>= f) :=
  Keeps.bind h (·.trans ·) hf

theorem pushes_pure (x : α) : Pushes (pure x : Action Workspace α) := (keepsHost_pure x).pushes

theorem pushes_ofExcept (r : Except Error α) : Pushes (Action.ofExcept r) :=
  (keepsHost_ofExcept r).pushes

theorem pushes_look (f : Arena → Except Error α) : Pushes (look f) := (keepsHost_look f).pushes

theorem pushes_lookRegistry (f : Window.Registry → Except Error α) :
    Pushes (Window.lookRegistry f) :=
  keeps_query (fun w => List.prefix_refl w.host.callbacks) _

theorem pushes_onRegistry (f : Window.Registry → Except Error (α × Window.Registry)) :
    Pushes (Window.onRegistry f) := by
  intro w
  simp only [Window.onRegistry, ends_advance, gives_bind, gives_pure]
  exact gives_of_ok (fun _ _ => List.prefix_rfl) fun _ => List.prefix_rfl

end Workspace

open Workspace

section Bodies

variable {s : Site}

theorem keepsHost_draw (k : IntKind) : KeepsHost (draw k s) := by
  apply (keepsHost_look _).bind
  intro min
  apply (keepsHost_look _).bind
  intro max
  split
  · exact keepsHost_throw _
  · split
    · exact keepsHost_ofExcept _
    · intro w
      simp only [ends_bind, ends_get, ends_set, ends_ofExcept]
      exact gives_of_ok (fun _ _ => trivial) fun _ => trivial

theorem keepsHost_appendBody : KeepsHost (SliceOp.appendBody s) :=
  (keepsHost_look _).bind fun _ => (keepsHost_look _).bind fun _ => (keepsHost_look _).bind fun _ =>
    (keepsHost_onArena _).bind fun _ => keepsHost_ofExcept _

theorem keepsHost_concatBody : KeepsHost (SliceOp.concatBody s) :=
  (keepsHost_look _).bind fun _ => (keepsHost_look _).bind fun _ => (keepsHost_look _).bind fun _ =>
    (keepsHost_onArena _).bind fun _ => keepsHost_ofExcept _

theorem keepsHost_copyBody : KeepsHost (SliceOp.copyBody s) :=
  (keepsHost_look _).bind fun _ => (keepsHost_look _).bind fun _ => (keepsHost_look _).bind fun _ =>
    (keepsHost_onArena _).bind fun _ => keepsHost_pure _

theorem keepsHost_writeBody : KeepsHost (SliceOp.writeBody s) := by
  apply (keepsHost_look _).bind
  intro width
  apply (keepsHost_look _).bind
  intro handle
  apply (keepsHost_look _).bind
  intro index
  apply (keepsHost_look _).bind
  intro element
  split
  · exact keepsHost_throw _
  · exact (keepsHost_look _).bind fun _ => (keepsHost_onArena _).bind fun _ => keepsHost_pure _

theorem Body.Shape.keepsHost {body : Body} (h : body.Shape) : KeepsHost (body.run s) := by
  cases h with
  | fromInputs => exact keepsHost_look _
  | length => exact keepsHost_look _
  | draw k => exact keepsHost_draw k
  | slice op =>
    cases op with
    | len => exact keepsHost_look _
    | append => exact keepsHost_appendBody
    | concat => exact keepsHost_concatBody
    | copy => exact keepsHost_copyBody
    | read => exact keepsHost_look _
    | write => exact keepsHost_writeBody

theorem pushes_setTarget (kind : Window.EventKind) : Pushes (Window.Op.setTarget kind s) :=
  (pushes_look _).bind fun _ => (pushes_look _).bind fun _ => (pushes_onRegistry _).bind fun _ =>
    pushes_pure _

theorem pushes_setTargetIn (kind : Window.EventKind) : Pushes (Window.Op.setTargetIn kind s) :=
  (pushes_look _).bind fun _ => (pushes_look _).bind fun _ => (pushes_look _).bind fun _ =>
    (pushes_onRegistry _).bind fun _ => pushes_pure _

theorem pushes_lookup {α : Type} {look : Window.Registry → String → Except Error α}
    {values : α → List Value} : Pushes (do
      let name ← Window.str s 0
      let found ← Window.lookRegistry (look · name)
      Window.outputs s (values found)) :=
  (pushes_look _).bind fun _ => (pushes_lookRegistry _).bind fun _ => pushes_ofExcept _

/-- Polling is the one operator that appends. -/
theorem pushes_windowBody (op : Window.Op) : Pushes (op.body s) := by
  cases op with
  | create =>
    exact (pushes_look _).bind fun _ => (pushes_look _).bind fun _ => (pushes_look _).bind fun _ =>
      (pushes_look _).bind fun _ => (pushes_onRegistry _).bind fun _ => pushes_ofExcept _
  | handle => exact pushes_lookup
  | shouldClose => exact pushes_lookup
  | setShouldClose =>
    exact (pushes_look _).bind fun _ => (pushes_look _).bind fun _ =>
      (pushes_onRegistry _).bind fun _ => pushes_pure _
  | size => exact pushes_lookup
  | cursorPos => exact pushes_lookup
  | pollEvents => exact fun w => List.prefix_append _ _
  | time => exact fun w => pushes_ofExcept _ w
  | setKeyCallback => exact pushes_setTarget .key
  | setKeyCallbackEx => exact pushes_setTargetIn .key
  | setCursorPosCallback => exact pushes_setTarget .cursor
  | setSizeCallback => exact pushes_setTargetIn .size

end Bodies

namespace Primitive

variable {p : Primitive}

/-- However the body ends, callbacks have at most been appended to the queue. -/
def OnlyPushes (p : Primitive) : Prop := ∀ s, Pushes (p.body.run s)

theorem Shipped.onlyPushes (h : p.Shipped) : p.OnlyPushes := by
  rcases h.cases with h | ⟨op, rfl⟩
  · exact fun s => (shape_of_mem_library h).keepsHost.pushes
  · exact fun s => pushes_windowBody op

end Primitive

namespace Machine

variable {α : Type} {m m' : Machine}

/-- However the action ends, the host is what it was. -/
abbrev KeepsHost (act : Action Machine α) : Prop :=
  Keeps (fun m m' => m'.work.host = m.work.host) act

theorem keepsHost_onArena (act : Action Arena α) : KeepsHost (onArena act) := by
  intro m
  rw [ends_onArena, ends_iff]
  exact ⟨fun _ _ _ => rfl, fun _ _ _ => rfl⟩

theorem keepsHost_enter (f : Function) (fp callerFp : Nat) (args : List Bytes)
    (returnsToCaller : Bool) : KeepsHost (enter f fp callerFp args returnsToCaller) := by
  intro m
  simp only [enter, ends_bind, ends_get, ends_ite, ends_throw, ends_update, gives_bind, gives_pure]
  refine ⟨fun _ => trivial, fun _ => gives_of_ok (fun stack _ => ?_) fun _ => trivial⟩
  apply (keepsHost_onArena _ _).mono ?_ fun _ _ h => h
  intro _ m₁ h₁
  exact (keepsHost_onArena _ m₁).mono (fun _ _ h => h.trans h₁) fun _ _ h => h.trans h₁

theorem keepsHost_callNode (fp : Nat) (n : Node) (callee : FunctionName) :
    KeepsHost (callNode fp n callee) := by
  intro m
  simp only [callNode, ends_bind, ends_get, ends_ofExcept, ends_ite, ends_throw]
  apply gives_of_ok ?_ fun _ => trivial
  intro f _
  refine ⟨fun _ => trivial, fun _ => gives_of_ok (fun args _ => ?_) fun _ => trivial⟩
  exact keepsHost_enter f m.nextFp fp args true m

theorem keepsHost_storeResults (calleeFp : Nat) (callee : Function) (callerFp : Nat) (n : Node) :
    KeepsHost (storeResults calleeFp callee callerFp n) := by
  intro m
  simp only [storeResults, ends_bind, ends_query]
  exact gives_of_ok (fun writes _ => keepsHost_onArena _ m) fun _ => trivial

theorem keepsHost_leave : KeepsHost leave := by
  intro m
  simp only [leave, ends_bind, ends_get]
  split
  · rfl
  · rename_i frame _
    simp only [ends_bind, ends_set, ends_ite, ends_pure, ends_ofExcept]
    refine ⟨fun _ => gives_of_ok (fun callee _ => ?_) fun _ => trivial, fun _ => trivial⟩
    split
    · rfl
    · rename_i caller _
      simp only [ends_bind, ends_ofExcept]
      apply gives_of_ok ?_ fun _ => trivial
      intro f _
      split
      · rfl
      · rename_i n _
        simp only [ends_bind, ends_mapError, ends_modify]
        exact keepsHost_storeResults frame.fp callee caller.fp n _

theorem keepsHost_beginCall (name : FunctionName) (args : List Bytes) :
    KeepsHost (beginCall name args) := by
  intro m
  simp only [beginCall, ends_bind, ends_get, ends_ofExcept, ends_ite, ends_throw]
  apply gives_of_ok ?_ fun _ => trivial
  intro f _
  refine ⟨fun _ => trivial, fun _ => ?_⟩
  have henter := keepsHost_enter f m.nextFp m.nextFp args false m
  split
  · rename_i m' he
    exact henter.value he
  · rename_i e m' he
    have hhost : m'.work.host = m.work.host := henter.failure he
    exact hhost

/-- The operators of a machine append to the queue at most: those that come with it do, and a host
has to see to it for those that it adds. -/
def OnlyPushes (m : Machine) : Prop := ∀ p ∈ m.primitives.entries, p.Shipped ∨ p.OnlyPushes

/-- However the action ends, callbacks have at most been appended to the queue. -/
abbrev Pushes (act : Action Machine α) : Prop :=
  Keeps (fun m m' => m.callbacks <+: m'.callbacks) act

/-- What holds of the host and is kept by the operator of a node is kept by the node. -/
theorem ends_executeNode_host {Q : Host → Prop} {fp : Nat} {n : Node} (hQ : Q m.work.host)
    (hnative : ∀ code name signature p, n.operator = some (.native code name signature) →
      m.primitives.get code = .ok p → ∀ s, Ends (p.body.run s) m.work
        (fun _ w => Q w.host) (fun _ w => Q w.host)) :
    Ends (executeNode fp n) m (fun _ m' => Q m'.work.host) (fun _ m' => Q m'.work.host) := by
  simp only [executeNode, ends_bind, ends_get]
  split
  · exact (keepsHost_onArena _ m).mono (fun _ _ h => h ▸ hQ) fun _ _ h => h ▸ hQ
  · rename_i code name signature hop
    simp only [ends_bind, ends_ofExcept, ends_onWork]
    apply gives_of_ok ?_ fun _ => hQ
    intro p hp
    simp only [Primitive.execute, ends_bind]
    apply (hnative code name signature p hop hp _).mono ?_ fun _ _ h => h
    intro slots w hw
    exact (Workspace.keepsHost_onArena _ w).mono (fun _ _ h => h ▸ hw) fun _ _ h => h ▸ hw
  · exact hQ

theorem pushes_executeNode (fp : Nat) (n : Node) (h : m.OnlyPushes) :
    Ends (executeNode fp n) m (fun _ m' => m.callbacks <+: m'.callbacks)
      (fun _ m' => m.callbacks <+: m'.callbacks) := by
  apply ends_executeNode_host (Q := fun host => m.callbacks <+: host.callbacks) List.prefix_rfl
  intro code name signature p _ hp s
  have hpushes : p.OnlyPushes := (h p (PrimitiveTable.mem_of_get hp)).elim (·.onlyPushes) id
  exact hpushes s m.work

/-- What holds of the host and is kept by the nodes of the program is kept by a step. -/
theorem ends_advance_host {Q : Host → Prop} (hQ : Q m.work.host)
    (hnodes : ∀ f ∈ m.program.functions, ∀ n ∈ f.body, ∀ fp, Ends (executeNode fp n) m
      (fun _ m' => Q m'.work.host) (fun _ m' => Q m'.work.host)) :
    Ends advance m (fun _ m' => Q m'.work.host) (fun _ m' => Q m'.work.host) := by
  have hkept : ∀ {β : Type} {act : Action Machine β}, KeepsHost act →
      Ends act m (fun _ m' => Q m'.work.host) (fun _ m' => Q m'.work.host) := fun h =>
    (h m).mono (fun _ _ heq => heq ▸ hQ) fun _ _ heq => heq ▸ hQ
  apply ends_advance_cases
  · exact fun _ => hQ
  · exact fun _ _ _ _ => hQ
  · exact fun _ _ _ _ _ _ => hkept keepsHost_leave
  · intro _ _ f n _ hf hn
    unfold executeAt
    split
    · exact hkept (keepsHost_callNode _ n _)
    · simp only [ends_bind, ends_query, ends_modify]
      exact gives_of_ok (fun _ _ => hQ) fun _ => hQ
    · simp only [ends_bind, ends_modify]
      exact hnodes f (List.mem_of_find?_eq_some hf) n (List.mem_of_getElem? hn) _

/-- A node appends to the queue at most. -/
theorem pushes_advance (h : m.OnlyPushes) :
    Ends advance m (fun _ m' => m.callbacks <+: m'.callbacks)
      (fun _ m' => m.callbacks <+: m'.callbacks) :=
  ends_advance_host (Q := fun host => m.callbacks <+: host.callbacks) List.prefix_rfl
    fun _ _ n _ fp => pushes_executeNode fp n h

/-- A return does not touch the queue. -/
theorem callbacks_eq_of_returned (h : advance m = .ok false m') : m'.callbacks = m.callbacks := by
  have hends : Ends advance m
      (fun executed m' => executed = false → m'.work.host = m.work.host) (fun _ _ => True) := by
    apply ends_advance_cases
    · exact fun _ _ => rfl
    · exact fun _ _ _ _ => trivial
    · intro _ _ _ _ _ _
      exact (keepsHost_leave m).mono (fun _ _ hhost _ => hhost) fun _ _ _ => trivial
    · intro _ _ _ _ _ _ _
      exact ends_iff.mpr ⟨fun _ _ _ hfalse => Bool.noConfusion hfalse, fun _ _ _ => trivial⟩
  exact congrArg Host.callbacks (hends.value h rfl)

end Machine

end FlatMachine
