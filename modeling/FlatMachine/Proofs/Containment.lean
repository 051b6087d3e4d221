import FlatMachine.Native.Windows
import FlatMachine.Proofs.Arena
import FlatMachine.Proofs.Library

/-!
# What the bodies of operators do to the arena

The body of an operator runs before anything is committed. Most bodies only look at the arena.
Those that append or concatenate allocate behind what was there, and those that copy or write
change elements in place, but as their last act and with nothing staged. So a body that fails has
changed no allocated byte, and one that has changed any stages nothing.
-/

namespace FlatMachine

open FlatMachine.Action

namespace Arena

variable {a : Arena} {bytes : Bytes} {count width handle first second dst src : Nat}

/-- However the action ends, every allocated byte is what it was. -/
abbrev Preserves {α : Type} (act : Action Arena α) : Prop := Keeps Extends act

theorem ends_store : Ends (store bytes) a (fun handle b => handle = a.heapPointer ∧ Extends a b)
    (fun _ b => Extends a b) := by
  simp only [store, ends_bind, ends_advance, ends_update, ends_pure]
  refine gives_allocate.mono ?_ fun _ _ => .refl a
  rintro ⟨handle, b⟩ ⟨rfl, hext, -⟩
  exact gives_of_ok (fun c hc => ⟨rfl, hext.changedIn (write_changedIn hc) le_rfl⟩) fun _ => hext

theorem ends_newObject : Ends (newObject count width) a
    (fun handle b => handle = a.heapPointer ∧ Extends a b) (fun _ b => Extends a b) := by
  simp only [newObject, ends_bind, ends_advance, ends_update, ends_pure]
  refine gives_allocate.mono ?_ fun _ _ => .refl a
  rintro ⟨handle, b⟩ ⟨rfl, hext, -⟩
  exact gives_of_ok (fun c hc => ⟨rfl, hext.changedIn (writeHandle_changedIn hc) le_rfl⟩)
    fun _ => hext

theorem preserves_appendElement : Preserves (appendElement handle width bytes) := by
  intro a
  simp only [appendElement, ends_ite, ends_bind, ends_throw, ends_query, ends_update, ends_pure]
  refine ⟨fun _ => .refl a, fun _ => gives_of_ok (fun old _ => ?_) fun _ => .refl a⟩
  refine ends_newObject.mono ?_ fun _ _ h => h
  rintro _ b ⟨rfl, hb⟩
  apply gives_of_ok ?_ fun _ => hb
  intro c hc
  have hac := hb.changedIn (write_changedIn hc) (by omega)
  exact gives_of_ok (fun d hd => hac.changedIn (write_changedIn hd) (by omega)) fun _ => hac

theorem preserves_concatObjects : Preserves (concatObjects first second width) := by
  intro a
  simp only [concatObjects, ends_bind, ends_query, ends_update, ends_pure]
  apply gives_of_ok ?_ fun _ => .refl a
  intro front _
  apply gives_of_ok ?_ fun _ => .refl a
  intro back _
  refine ends_newObject.mono ?_ fun _ _ h => h
  rintro _ b ⟨rfl, hb⟩
  exact gives_of_ok (fun c hc => hb.changedIn (write_changedIn hc) (by omega)) fun _ => hb

theorem ends_copyElements : Ends (copyElements dst src width) a (fun _ b => SameSegments a b)
    (fun _ b => Extends a b) := by
  simp only [copyElements, ends_bind, ends_query, ends_ite, ends_update, ends_pure]
  apply gives_of_ok ?_ fun _ => .refl a
  intro room _
  apply gives_of_ok ?_ fun _ => .refl a
  intro given _
  exact ⟨fun _ => gives_of_ok (fun b hb => (copy_changedIn hb).sameSegments) fun _ => .refl a,
    fun _ => .refl a⟩

end Arena

namespace Workspace

variable {α : Type} {w : Workspace} {ok : α → Workspace → Prop} {bad : Error → Workspace → Prop}

@[simp] theorem ends_look {f : Arena → Except Error α} :
    Ends (look f) w ok bad ↔ Gives (f w.arena) (ok · w) (bad · w) := by
  simp only [look, ends_query]

@[simp] theorem ends_onArena {act : Action Arena α} :
    Ends (onArena act) w ok bad ↔ Ends act w.arena (fun x a => ok x { w with arena := a })
      (fun e a => bad e { w with arena := a }) := by
  simp only [onArena, ends_within]

/-- However the action ends, every allocated byte is what it was. -/
abbrev Preserves (act : Action Workspace α) : Prop :=
  Keeps (fun w w' => w.arena.Extends w'.arena) act

theorem Preserves.bind {β : Type} {act : Action Workspace α} {f : α → Action Workspace β}
    (h : Preserves act) (hf : ∀ x, Preserves (f x)) : Preserves (act >>= f) :=
  Keeps.bind h (·.trans ·) hf

theorem preserves_pure (x : α) : Preserves (pure x : Action Workspace α) := fun _ => .refl _

theorem preserves_look (f : Arena → Except Error α) : Preserves (look f) :=
  keeps_query (fun _ => .refl _) _

theorem preserves_ofExcept (r : Except Error α) : Preserves (Action.ofExcept r) :=
  keeps_ofExcept (fun _ => .refl _) r

theorem preserves_onArena {act : Action Arena α} (h : Arena.Preserves act) :
    Preserves (onArena act) := fun w => ends_onArena.mpr (h w.arena)

theorem preserves_lookRegistry (f : Window.Registry → Except Error α) :
    Preserves (Window.lookRegistry f) :=
  keeps_query (fun _ => .refl _) _

theorem preserves_onRegistry (f : Window.Registry → Except Error (α × Window.Registry)) :
    Preserves (Window.onRegistry f) := by
  intro w
  simp only [Window.onRegistry, ends_advance, gives_bind, gives_pure]
  exact gives_of_ok (fun _ _ => .refl _) fun _ => .refl _

end Workspace

namespace Primitive

/-- However the body ends, the segments lie as before. -/
def KeepsSegments (p : Primitive) : Prop :=
  ∀ s, Keeps (fun w w' => w.arena.SameSegments w'.arena) (p.body.run s)

/-- However the body ends, every allocated byte is what it was: it changes memory only through what
it stages. -/
def StagesOnly (p : Primitive) : Prop :=
  ∀ s, Keeps (fun w w' => w.arena.Extends w'.arena) (p.body.run s)

/-- A body that fails has changed no allocated byte, and one that has changed any stages nothing. -/
def Contained (p : Primitive) : Prop :=
  ∀ s w, Ends (p.body.run s) w
    (fun slots w' => w.arena.Extends w'.arena ∨
      w.arena.SameSegments w'.arena ∧ ∀ slot ∈ slots, slot = none)
    (fun _ w' => w.arena.Extends w'.arena)

variable {p : Primitive}

theorem StagesOnly.contained (h : p.StagesOnly) : p.Contained := fun s w =>
  (h s w).mono (fun _ _ hw => .inl hw) fun _ _ hw => hw

theorem Contained.keepsSegments (h : p.Contained) : p.KeepsSegments := fun s w =>
  (h s w).mono (fun _ _ hw => hw.elim (·.toSameSegments) (·.1)) fun _ _ hw => hw.toSameSegments

theorem stagesOnly_of_compute {run : Compute} (h : p.body = .compute run) : p.StagesOnly := by
  intro s w
  simp only [h, Body.run, Workspace.ends_look]
  exact gives_of_ok (fun _ _ => .refl _) fun _ => .refl _

end Primitive

section Bodies

variable {s : Site}

theorem preserves_draw (k : IntKind) : Workspace.Preserves (draw k s) := by
  intro w
  simp only [draw, ends_bind, Workspace.ends_look, ends_ite, ends_throw, ends_ofExcept, ends_get,
    ends_set]
  apply gives_of_ok ?_ fun _ => .refl _
  intro min _
  apply gives_of_ok ?_ fun _ => .refl _
  intro max _
  refine ⟨fun _ => .refl _, fun _ => ⟨fun _ => ?_, fun _ => ?_⟩⟩
  · exact gives_of_ok (fun _ _ => .refl _) fun _ => .refl _
  · exact gives_of_ok (fun _ _ => .refl _) fun _ => .refl _

theorem preserves_appendBody : Workspace.Preserves (SliceOp.appendBody s) := by
  apply (Workspace.preserves_look _).bind
  intro width
  apply (Workspace.preserves_look _).bind
  intro handle
  apply (Workspace.preserves_look _).bind
  intro element
  apply (Workspace.preserves_onArena Arena.preserves_appendElement).bind
  intro grown
  exact Workspace.preserves_ofExcept _

theorem preserves_concatBody : Workspace.Preserves (SliceOp.concatBody s) := by
  apply (Workspace.preserves_look _).bind
  intro width
  apply (Workspace.preserves_look _).bind
  intro first
  apply (Workspace.preserves_look _).bind
  intro second
  apply (Workspace.preserves_onArena Arena.preserves_concatObjects).bind
  intro joined
  exact Workspace.preserves_ofExcept _

theorem noOutputs_eq_none : ∀ slot ∈ s.noOutputs, slot = none := fun _ h =>
  List.eq_of_mem_replicate h

theorem contained_copyBody (w : Workspace) : Ends (SliceOp.copyBody s) w
    (fun slots w' => w.arena.SameSegments w'.arena ∧ ∀ slot ∈ slots, slot = none)
    (fun _ w' => w.arena.Extends w'.arena) := by
  simp only [SliceOp.copyBody, ends_bind, Workspace.ends_look, Workspace.ends_onArena, ends_pure]
  apply gives_of_ok ?_ fun _ => .refl _
  intro width _
  apply gives_of_ok ?_ fun _ => .refl _
  intro dst _
  apply gives_of_ok ?_ fun _ => .refl _
  intro src _
  exact Arena.ends_copyElements.imp fun _ a ha => ⟨ha, noOutputs_eq_none⟩

theorem contained_writeBody (w : Workspace) : Ends (SliceOp.writeBody s) w
    (fun slots w' => w.arena.SameSegments w'.arena ∧ ∀ slot ∈ slots, slot = none)
    (fun _ w' => w.arena.Extends w'.arena) := by
  simp only [SliceOp.writeBody, ends_bind, Workspace.ends_look, ends_ite, ends_throw,
    Workspace.ends_onArena, ends_update, ends_pure]
  apply gives_of_ok ?_ fun _ => .refl _
  intro width _
  apply gives_of_ok ?_ fun _ => .refl _
  intro handle _
  apply gives_of_ok ?_ fun _ => .refl _
  intro index _
  apply gives_of_ok ?_ fun _ => .refl _
  intro element _
  refine ⟨fun _ => .refl _, fun _ => gives_of_ok (fun offset _ => ?_) fun _ => .refl _⟩
  exact gives_of_ok (fun a ha => ⟨(Arena.write_changedIn ha).sameSegments, noOutputs_eq_none⟩)
    fun _ => .refl _

theorem preserves_setTarget (kind : Window.EventKind) :
    Workspace.Preserves (Window.Op.setTarget kind s) :=
  (Workspace.preserves_look _).bind fun _ => (Workspace.preserves_look _).bind fun _ =>
    (Workspace.preserves_onRegistry _).bind fun _ => Workspace.preserves_pure _

theorem preserves_setTargetIn (kind : Window.EventKind) :
    Workspace.Preserves (Window.Op.setTargetIn kind s) :=
  (Workspace.preserves_look _).bind fun _ => (Workspace.preserves_look _).bind fun _ =>
    (Workspace.preserves_look _).bind fun _ => (Workspace.preserves_onRegistry _).bind fun _ =>
      Workspace.preserves_pure _

theorem preserves_lookup {α : Type} {look : Window.Registry → String → Except Error α}
    {values : α → List Value} : Workspace.Preserves (do
      let name ← Window.str s 0
      let found ← Window.lookRegistry (look · name)
      Window.outputs s (values found)) := by
  apply (Workspace.preserves_look _).bind
  intro name
  apply (Workspace.preserves_lookRegistry _).bind
  intro found
  exact Workspace.preserves_ofExcept _

/-- Window operators act on the host only. -/
theorem preserves_windowBody (op : Window.Op) : Workspace.Preserves (op.body s) := by
  cases op with
  | create =>
    apply (Workspace.preserves_look _).bind
    intro name
    apply (Workspace.preserves_look _).bind
    intro width
    apply (Workspace.preserves_look _).bind
    intro height
    apply (Workspace.preserves_look _).bind
    intro title
    apply (Workspace.preserves_onRegistry _).bind
    intro handle
    exact Workspace.preserves_ofExcept _
  | handle => exact preserves_lookup
  | shouldClose => exact preserves_lookup
  | setShouldClose =>
    apply (Workspace.preserves_look _).bind
    intro name
    apply (Workspace.preserves_look _).bind
    intro value
    apply (Workspace.preserves_onRegistry _).bind
    intro _
    exact Workspace.preserves_pure _
  | size => exact preserves_lookup
  | cursorPos => exact preserves_lookup
  | pollEvents => exact fun w => .refl w.arena
  | time => exact fun w => Workspace.preserves_ofExcept _ w
  | setKeyCallback => exact preserves_setTarget .key
  | setKeyCallbackEx => exact preserves_setTargetIn .key
  | setCursorPosCallback => exact preserves_setTarget .cursor
  | setSizeCallback => exact preserves_setTargetIn .size

end Bodies

namespace Primitive

variable {p : Primitive}

/-- The operators that change elements where they lie. -/
def ActsInPlace (p : Primitive) : Prop :=
  ∃ op elem, (op = SliceOp.copy ∨ op = SliceOp.write) ∧ p = op.primitive elem

theorem ActsInPlace.contained (h : p.ActsInPlace) : p.Contained := by
  obtain ⟨op, elem, rfl | rfl, rfl⟩ := h
  · exact fun s w => (contained_copyBody w).imp fun _ _ h => .inr h
  · exact fun s w => (contained_writeBody w).imp fun _ _ h => .inr h

theorem stagesOnly_slice (op : SliceOp) (elem : Ty) :
    (op.primitive elem).StagesOnly ∨ (op.primitive elem).ActsInPlace := by
  cases op with
  | len => exact .inl (stagesOnly_of_compute rfl)
  | append => exact .inl fun s => preserves_appendBody
  | concat => exact .inl fun s => preserves_concatBody
  | copy => exact .inr ⟨.copy, elem, .inl rfl, rfl⟩
  | read => exact .inl (stagesOnly_of_compute rfl)
  | write => exact .inr ⟨.write, elem, .inr rfl, rfl⟩

theorem stagesOnly_of_mem_library (h : p ∈ library) : p.StagesOnly ∨ p.ActsInPlace := by
  cases family_of_mem_library h with
  | bool h =>
    simp only [boolPrimitives, List.mem_cons, List.not_mem_nil, or_false] at h
    rcases h with rfl | rfl | rfl | rfl | rfl <;> exact .inl (stagesOnly_of_compute rfl)
  | conversion h =>
    simp only [conversions, List.mem_cons, List.not_mem_nil, or_false] at h
    rcases h with rfl | rfl | rfl | rfl | rfl <;> exact .inl (stagesOnly_of_compute rfl)
  | string h =>
    simp only [stringPrimitives, List.mem_cons, List.not_mem_nil, or_false] at h
    rcases h with rfl | rfl | rfl <;> exact .inl (stagesOnly_of_compute rfl)
  | random k => exact .inl fun s => preserves_draw k
  | @slice op elem => exact stagesOnly_slice op elem
  | identity | generic | ints | int | floats | float => exact .inl (stagesOnly_of_compute rfl)

theorem contained_of_mem_library (h : p ∈ library) : p.Contained :=
  (stagesOnly_of_mem_library h).elim (·.contained) (·.contained)

/-- The operators that come with the machine. -/
def Shipped (p : Primitive) : Prop := p ∈ library ++ Window.primitives

theorem Shipped.cases (h : p.Shipped) : p ∈ library ∨ ∃ op : Window.Op, p = op.primitive := by
  rcases List.mem_append.mp h with h | h
  · exact .inl h
  · obtain ⟨op, -, rfl⟩ := List.mem_map.mp h
    exact .inr ⟨op, rfl⟩

theorem Shipped.stagesOnly (h : p.Shipped) : p.StagesOnly ∨ p.ActsInPlace := by
  rcases h.cases with h | ⟨op, rfl⟩
  · exact stagesOnly_of_mem_library h
  · exact .inl fun s => preserves_windowBody op

theorem Shipped.contained (h : p.Shipped) : p.Contained :=
  h.stagesOnly.elim (·.contained) (·.contained)

end Primitive

theorem PrimitiveTable.mem_of_get {t : PrimitiveTable} {code : Nat} {p : Primitive}
    (h : t.get code = .ok p) : p ∈ t.entries :=
  List.mem_of_getElem? (get_eq_ok.mp h)

end FlatMachine
