import FlatMachine.Proofs.Operators

/-!
# Window operators

The registry never finds a wrong type or an unknown name, and every window operator stages what fits
the outputs of its signature.
-/

namespace FlatMachine

open FlatMachine.Action

namespace Window

variable {r : Registry} {name : String} {handle : Int}

theorem dynamic_pane {h : Headless} {window : Nat} :
    Gives (h.pane window) (fun _ => True) Error.Dynamic := by
  unfold Headless.pane
  split
  · trivial
  · split <;> trivial

theorem dynamic_handle : Gives (r.handle name) (fun _ => True) Error.Dynamic := by
  unfold Registry.handle
  split <;> trivial

theorem dynamic_entry : Gives (r.entry handle) (fun _ => True) Error.Dynamic := by
  unfold Registry.entry
  dsimp only
  split <;> trivial

theorem dynamic_window : Gives (r.window name) (fun _ => True) Error.Dynamic := by
  simp only [Registry.window, gives_bind, gives_pure]
  exact dynamic_handle.imp fun _ _ => dynamic_entry

theorem dynamic_create {width height : Int} {title : String} :
    Gives (r.create name width height title) (fun _ => True) Error.Dynamic := by
  simp only [Registry.create, Headless.create, gives_bind, gives_ite, gives_error, gives_ok,
    gives_pure]
  exact ⟨fun _ => trivial, fun _ => trivial⟩

theorem dynamic_shouldClose : Gives (r.shouldClose name) (fun _ => True) Error.Dynamic := by
  simp only [Registry.shouldClose, Headless.shouldClose, gives_bind, gives_pure]
  exact dynamic_window.imp fun _ _ => dynamic_pane

theorem dynamic_setShouldClose {value : Bool} :
    Gives (r.setShouldClose name value) (fun _ => True) Error.Dynamic := by
  simp only [Registry.setShouldClose, Headless.setShouldClose, Headless.modifyPane, gives_bind,
    gives_pure]
  exact dynamic_window.imp fun _ _ => dynamic_pane

theorem dynamic_size : Gives (r.size name) (fun _ => True) Error.Dynamic := by
  simp only [Registry.size, Headless.size, gives_bind, gives_pure]
  exact dynamic_window.imp fun _ _ => dynamic_pane

theorem dynamic_cursor : Gives (r.cursor name) (fun _ => True) Error.Dynamic := by
  simp only [Registry.cursor, Headless.cursor, gives_bind, gives_pure]
  exact dynamic_window.imp fun _ _ => dynamic_pane

theorem dynamic_setTarget {kind : EventKind} {f : FunctionName} :
    Gives (r.setTarget name kind f) (fun _ => True) Error.Dynamic := by
  simp only [Registry.setTarget, gives_bind, gives_pure]
  exact dynamic_handle.imp fun _ _ => dynamic_entry

variable {α : Type} {w : Workspace} {s : Site}

@[simp] theorem ends_onRegistry {f : Registry → Except Error (α × Registry)}
    {ok : α → Workspace → Prop} {bad : Error → Workspace → Prop} :
    Ends (onRegistry f) w ok bad ↔ Gives (f w.host.windows)
      (fun p => ok p.1 { w with host := { w.host with windows := p.2 } }) (bad · w) := by
  simp only [onRegistry, ends_advance, gives_bind, gives_pure]

@[simp] theorem ends_changeRegistry {f : Registry → Except Error Registry}
    {ok : Unit → Workspace → Prop} {bad : Error → Workspace → Prop} :
    Ends (changeRegistry f) w ok bad ↔ Gives (f w.host.windows)
      (fun windows => ok () { w with host := { w.host with windows } }) (bad · w) := by
  simp only [changeRegistry, ends_onRegistry, gives_bind, gives_pure]

theorem serves_setTarget (kind : EventKind) :
    (Body.act (Op.setTarget kind)).Serves [.str, .str] [] := by
  intro s w hs
  simp only [Body.run, Op.setTarget, str, ends_bind, Workspace.ends_look, ends_changeRegistry,
    ends_pure]
  apply (hs.str rfl).imp
  intro window _
  apply (hs.str rfl).imp
  intro f _
  exact dynamic_setTarget.imp fun _ _ => Site.fit_noOutputs

theorem serves_setTargetIn (kind : EventKind) :
    (Body.act (Op.setTargetIn kind)).Serves [.str, .str, .str] [] := by
  intro s w hs
  simp only [Body.run, Op.setTargetIn, str, ends_bind, Workspace.ends_look, ends_changeRegistry,
    ends_pure]
  apply (hs.str rfl).imp
  intro window _
  apply (hs.str rfl).imp
  intro package _
  apply (hs.str rfl).imp
  intro f _
  exact dynamic_setTarget.imp fun _ _ => Site.fit_noOutputs

/-- An operator that reads the registry at the window that its input names. -/
theorem serves_lookup {look : Registry → String → Except Error α} {values : α → List Value}
    {tys : List Ty} (hlook : ∀ r name, Gives (look r name) (fun _ => True) Error.Dynamic)
    (hvalues : ∀ found, (values found).map Value.ty? = tys.map some) :
    (Body.act fun s => do
      let name ← str s 0
      let found ← lookRegistry (look · name)
      outputs s (values found)).Serves [.str] tys := by
  intro s w hs
  simp only [Body.run, str, outputs, lookRegistry, ends_bind, Workspace.ends_look, ends_query,
    ends_ofExcept]
  apply (hs.str rfl).imp
  intro name _
  apply (hlook w.host.windows name).imp
  intro found _
  exact Site.gives_outputs (hvalues found)

/-- Every window operator serves the types of its signature. -/
theorem serves_op (op : Op) : (Body.act op.body).Serves (op.signature.inputs.map (·.ty))
    (op.signature.outputs.map (·.ty)) := by
  cases op with
  | setKeyCallback => exact serves_setTarget .key
  | setKeyCallbackEx => exact serves_setTargetIn .key
  | setCursorPosCallback => exact serves_setTarget .cursor
  | setSizeCallback => exact serves_setTargetIn .size
  | create =>
    intro s w hs
    simp only [Body.run, Op.body, str, i32, outputs, ends_bind, Workspace.ends_look,
      ends_onRegistry, ends_ofExcept, gives_bind, gives_pure]
    apply (hs.str rfl).imp
    intro name _
    apply (hs.int rfl).imp
    intro width _
    apply (hs.int rfl).imp
    intro height _
    apply (hs.str rfl).imp
    intro title _
    exact dynamic_create.imp fun _ _ => Site.gives_outputs rfl
  | handle => exact serves_lookup (fun _ _ => dynamic_handle) fun _ => rfl
  | shouldClose => exact serves_lookup (fun _ _ => dynamic_shouldClose) fun _ => rfl
  | setShouldClose =>
    intro s w hs
    simp only [Body.run, Op.body, str, ends_bind, Workspace.ends_look, ends_changeRegistry,
      ends_pure]
    apply (hs.str rfl).imp
    intro name _
    apply (hs.bool rfl).imp
    intro value _
    exact dynamic_setShouldClose.imp fun _ _ => Site.fit_noOutputs
  | size => exact serves_lookup (fun _ _ => dynamic_size) fun _ => rfl
  | cursorPos => exact serves_lookup (fun _ _ => dynamic_cursor) fun _ => rfl
  | pollEvents => exact fun s w _ => Site.fit_noOutputs
  | time =>
    intro s w hs
    simp only [Body.run, Op.body, outputs, ends_bind, ends_get, ends_ofExcept]
    exact Site.gives_outputs rfl

end Window

end FlatMachine
