import FlatMachine.Proofs.Containment
import FlatMachine.Proofs.Place
import FlatMachine.Proofs.StackStep

/-!
# Errors without a location

Only the machine tags errors with locations. What a node is made of reports its failure bare: the
codec, the memory, the places that operands lead to, the operators that come with the machine, and
the calls and jumps.
-/

namespace FlatMachine

open FlatMachine.Action (Ends ends_bind ends_get ends_set ends_modify ends_ofExcept ends_query
  ends_update ends_advance ends_ite ends_throw)

variable {σ α β : Type}

attribute [simp] Error.location?

/-- If the result is an error, it has no location. -/
def Unlocated (r : Except Error α) : Prop := Gives r (fun _ => True) (·.location? = none)

section Unlocated

variable {r : Except Error α} {e : Error} {a : α}

@[simp] theorem unlocated_ok : Unlocated (.ok a : Except Error α) := trivial

@[simp] theorem unlocated_pure : Unlocated (pure a : Except Error α) := trivial

@[simp] theorem unlocated_error : Unlocated (.error e : Except Error α) ↔ e.location? = none :=
  Iff.rfl

@[simp] theorem unlocated_throw : Unlocated (throw e : Except Error α) ↔ e.location? = none :=
  Iff.rfl

@[simp] theorem unlocated_bind {f : α → Except Error β} :
    Unlocated (r >>= f) ↔ Unlocated r ∧ ∀ a, r = .ok a → Unlocated (f a) := by
  cases r <;> simp [Unlocated]

@[simp] theorem unlocated_map {f : α → β} : Unlocated (f <$> r) ↔ Unlocated r := by
  cases r <;> rfl

@[simp] theorem unlocated_ite {c : Prop} [Decidable c] {x y : Except Error α} :
    Unlocated (if c then x else y) ↔ (c → Unlocated x) ∧ (¬c → Unlocated y) :=
  gives_ite

theorem unlocated_mapM {f : α → Except Error β} (h : ∀ a, Unlocated (f a)) (as : List α) :
    Unlocated (as.mapM f) := by
  apply (gives_mapM (R := fun _ _ => True) fun a _ => h a).imp
  exact fun _ _ => trivial

end Unlocated

namespace Action

/-- If the action fails in the state, its error has no location. -/
def UnlocatedAt (act : Action σ α) (s : σ) : Prop :=
  Ends act s (fun _ _ => True) (fun e _ => e.location? = none)

variable {act : Action σ α} {s : σ} {a : α} {e : Error}

@[simp] theorem unlocatedAt_pure : UnlocatedAt (pure a) s := trivial

@[simp] theorem unlocatedAt_throw : UnlocatedAt (throw e : Action σ α) s ↔ e.location? = none :=
  Iff.rfl

@[simp] theorem unlocatedAt_get : UnlocatedAt get s := trivial

@[simp] theorem unlocatedAt_set {t : σ} : UnlocatedAt (set t : Action σ PUnit) s := trivial

@[simp] theorem unlocatedAt_modify {f : σ → σ} : UnlocatedAt (modify f) s := trivial

@[simp] theorem unlocatedAt_bind {f : α → Action σ β} : UnlocatedAt (act >>= f) s ↔
    UnlocatedAt act s ∧ ∀ a s', act s = .ok a s' → UnlocatedAt (f a) s' := by
  simp only [UnlocatedAt, Ends, bind, EStateM.bind]
  cases act s <;> simp

@[simp] theorem unlocatedAt_map {f : α → β} : UnlocatedAt (f <$> act) s ↔ UnlocatedAt act s := by
  rw [← bind_pure_comp, unlocatedAt_bind]
  simp

@[simp] theorem unlocatedAt_ofExcept {r : Except Error α} :
    UnlocatedAt (ofExcept r) s ↔ Unlocated r := ends_ofExcept

@[simp] theorem unlocatedAt_query {f : σ → Except Error α} :
    UnlocatedAt (query f) s ↔ Unlocated (f s) := ends_query

@[simp] theorem unlocatedAt_update {f : σ → Except Error σ} :
    UnlocatedAt (update f) s ↔ Unlocated (f s) := ends_update

@[simp] theorem unlocatedAt_advance {f : σ → Except Error (α × σ)} :
    UnlocatedAt (advance f) s ↔ Unlocated (f s) := ends_advance

@[simp] theorem unlocatedAt_ite {c : Prop} [Decidable c] {x y : Action σ α} :
    UnlocatedAt (if c then x else y) s ↔ (c → UnlocatedAt x s) ∧ (¬c → UnlocatedAt y s) :=
  ends_ite

end Action

section Codec

@[simp] theorem unlocated_encodeHandle (offset : Nat) : Unlocated (encodeHandle offset) := by
  simp [encodeHandle]

@[simp] theorem Ty.unlocated_elementWidth (elem : Ty) : Unlocated elem.elementWidth := by
  cases elem <;> simp [Ty.elementWidth]

namespace Value

@[simp] theorem unlocated_encodeScalar (v : Value) (ty : Ty) : Unlocated (v.encodeScalar ty) := by
  unfold encodeScalar
  split <;> simp [encodeMismatch]

@[simp] theorem unlocated_encodeElement (elem : Ty) (v : Value) :
    Unlocated (v.encodeElement elem) := by
  simp only [encodeElement, unlocated_ite]
  refine ⟨fun _ => ?_, fun _ => unlocated_encodeScalar v elem⟩
  split <;> simp [encodeMismatch]

@[simp] theorem unlocated_encodeElements (elem : Ty) (vs : List Value) :
    Unlocated (encodeElements elem vs) := by
  induction vs with
  | nil => exact unlocated_ok
  | cons v vs ih => simp [encodeElements, ih]

@[simp] theorem unlocated_encode (v : Value) (ty : Ty) : Unlocated (v.encode ty) := by
  unfold encode
  split <;> simp

end Value

@[simp] theorem unlocated_takeWord (bytes : Bytes) (width : Nat) (ty : Ty) :
    Unlocated (takeWord bytes width ty) := by
  simp [takeWord]

@[simp] theorem unlocated_checkedCount (bytes : Bytes) (width : Nat) :
    Unlocated (checkedCount bytes width) := by
  simp [checkedCount]

namespace Ty

@[simp] theorem unlocated_decodeWord (bytes : Bytes) (ty : Ty) :
    Unlocated (ty.decodeWord bytes) := by
  cases ty <;> simp [decodeWord]

@[simp] theorem unlocated_decodeElements (elem : Ty) (width count : Nat) (bytes : Bytes) :
    Unlocated (elem.decodeElements width count bytes) := by
  induction count generalizing bytes with
  | zero => exact unlocated_ok
  | succ count ih => simp [decodeElements, ih]

@[simp] theorem unlocated_decode (bytes : Bytes) (ty : Ty) : Unlocated (ty.decode bytes) := by
  cases ty <;> simp [decode]

end Ty

end Codec

section Structs

variable (t : StructTable)

@[simp] theorem StructDef.unlocated_field (d : StructDef) (name : String) :
    Unlocated (d.field name) := by
  unfold StructDef.field
  split <;> simp

@[simp] theorem StructTable.unlocated_get (name : String) : Unlocated (t.get name) := by
  unfold StructTable.get
  split <;> simp

@[simp] theorem StructTable.unlocated_field (struct name : String) :
    Unlocated (t.field struct name) := by
  simp [StructTable.field]

@[simp] theorem Ty.unlocated_size (ty : Ty) : Unlocated (ty.size t) := by
  induction ty with
  | array elem length ih =>
    simp only [Ty.size, unlocated_bind, ih, true_and]
    intro size _
    split <;> simp
  | _ => simp [Ty.size]

end Structs

namespace Arena

variable (a : Arena)

@[simp] theorem unlocated_check (offset width : Nat) : Unlocated (a.check offset width) := by
  simp [check]

@[simp] theorem unlocated_read (offset width : Nat) : Unlocated (a.read offset width) := by
  simp [read]

@[simp] theorem unlocated_write (offset : Nat) (bytes : Bytes) :
    Unlocated (a.write offset bytes) := by
  simp [write]

@[simp] theorem unlocated_zero (offset width : Nat) : Unlocated (a.zero offset width) := by
  simp [zero]

@[simp] theorem unlocated_copy (src dst width : Nat) : Unlocated (a.copy src dst width) := by
  simp [copy]

@[simp] theorem unlocated_readHandle (offset : Nat) : Unlocated (a.readHandle offset) := by
  simp [readHandle]

@[simp] theorem unlocated_writeHandle (offset value : Nat) :
    Unlocated (a.writeHandle offset value) := by
  simp [writeHandle]

@[simp] theorem unlocated_allocate (size : Nat) : Unlocated (a.allocate size) := by
  unfold allocate
  split <;> simp [reserve]

@[simp] theorem unlocated_objectLength (handle : Nat) : Unlocated (a.objectLength handle) := by
  simp [objectLength]

@[simp] theorem unlocated_payload (handle width : Nat) : Unlocated (a.payload handle width) := by
  simp [payload]

@[simp] theorem unlocated_readObject (handle : Nat) (ty : Ty) :
    Unlocated (a.readObject handle ty) := by
  unfold readObject
  split <;> simp

@[simp] theorem unlocated_elementOffset (handle : Nat) (index : Int) (width : Nat) :
    Unlocated (a.elementOffset handle index width) := by
  simp [elementOffset]

@[simp] theorem unlocated_follow (name : String) (offset : Nat) :
    Unlocated (a.follow name offset) := by
  simp [follow]

@[simp] theorem unlocatedAt_store (bytes : Bytes) : (store bytes).UnlocatedAt a := by
  simp [store]

@[simp] theorem unlocatedAt_newObject (count width : Nat) :
    (newObject count width).UnlocatedAt a := by
  simp [newObject]

@[simp] theorem unlocatedAt_appendElement (handle width : Nat) (element : Bytes) :
    (appendElement handle width element).UnlocatedAt a := by
  simp [appendElement]

@[simp] theorem unlocatedAt_concatObjects (first second width : Nat) :
    (concatObjects first second width).UnlocatedAt a := by
  simp [concatObjects]

@[simp] theorem unlocatedAt_copyElements (dst src width : Nat) :
    (copyElements dst src width).UnlocatedAt a := by
  simp [copyElements]

end Arena

section Places

variable (t : StructTable) (a : Arena) (fp : Nat)

@[simp] theorem unlocated_checkIndex (index : Int) (length : Nat) :
    Unlocated (checkIndex index length) := by
  simp [checkIndex]

@[simp] theorem unlocated_start (storage : Storage) (name : String) :
    Unlocated (storage.start fp name) := by
  cases storage <;> simp [Storage.start]

@[simp] theorem Arena.unlocated_implicit (name : String) (offset : Nat) (ty : Ty) :
    Unlocated (a.implicit name offset ty) := by
  cases ty <;> simp [Arena.implicit]

@[simp] theorem Arena.unlocated_element (offset : Nat) (index : Int) (ty : Ty) :
    Unlocated (a.element t offset index ty) := by
  cases ty <;> simp [Arena.element]

mutual

@[simp] theorem Operand.unlocated_place : (o : Operand) → Unlocated (o.place t a fp)
  | { name, ty, storage, chain, byReference, escapes, literalPointer, structName, declared,
      shortDeclared, location, package } => by
    have hchain := unlocated_followChain chain
    simp [Operand.place_eq, hchain]

theorem unlocated_followChain : (chain : List Access) → (name : String) → (offset : Nat) →
    (ty : Ty) → Unlocated (followChain t a fp name offset ty chain)
  | [], _, _, _ => unlocated_ok
  | access :: rest, _, _, _ => by
    have haccess := Access.unlocated_follow access
    have hrest := unlocated_followChain rest
    simp [followChain, haccess, hrest]

theorem Access.unlocated_follow : (access : Access) → (name : String) → (offset : Nat) →
    (ty : Ty) → Unlocated (access.follow t a fp name offset ty)
  | .pointer, _, _, ty => by cases ty <;> simp [Access.follow]
  | .index source, _, _, _ => by
    have hsource := Index.unlocated_value source
    simp [Access.follow_index_eq, hsource]
  | .field ref, _, _, ty => by
    cases ty with
    | pointer target => cases target <;> simp [Access.follow]
    | _ => simp [Access.follow]

theorem Index.unlocated_value : (source : Index) → Unlocated (source.value t a fp)
  | .const _ => unlocated_ok
  | .operand source => by
    simp only [Index.value, unlocated_bind, unlocated_ite, unlocated_error, Arena.unlocated_read,
      Ty.unlocated_decode, true_and, Error.location?, implies_true]
    refine ⟨Operand.unlocated_place source, fun place _ _ bytes _ v _ => ?_⟩
    split <;> simp

end

namespace Operand

variable (o : Operand)

@[simp] theorem unlocated_value : Unlocated (o.value t a fp) := by
  simp only [Operand.value, unlocated_bind, unlocated_place, true_and]
  intro place _
  split <;> simp

@[simp] theorem unlocated_bytes : Unlocated (o.bytes t a fp) := by
  simp [Operand.bytes]

end Operand

end Places

namespace Site

variable (s : Site) (a : Arena) (i : Nat)

@[simp] theorem unlocated_operand : Unlocated (s.operand i) := by
  unfold Site.operand
  split <;> simp

@[simp] theorem unlocated_inputTy : Unlocated (s.inputTy a i) := by
  simp [Site.inputTy]

@[simp] theorem unlocated_inputBytes : Unlocated (s.inputBytes a i) := by
  simp [Site.inputBytes]

@[simp] theorem unlocated_inputHandle : Unlocated (s.inputHandle a i) := by
  simp [Site.inputHandle]

@[simp] theorem unlocated_input : Unlocated (s.input a i) := by
  simp only [Site.input, unlocated_bind, unlocated_operand, Operand.unlocated_place,
    unlocated_ite, unlocated_pure, true_and, implies_true]
  intro o _ place _ _
  split <;> simp

@[simp] theorem unlocated_int (k : IntKind) : Unlocated (s.int k a i) := by
  simp only [Site.int, unlocated_bind, unlocated_input, true_and]
  intro v _
  split
  · split <;> simp
  · simp

@[simp] theorem unlocated_float (k : FloatKind) : Unlocated (s.float k a i) := by
  simp only [Site.float, unlocated_bind, unlocated_input, true_and]
  intro v _
  split
  · split <;> simp
  · simp

@[simp] theorem unlocated_bool : Unlocated (s.bool a i) := by
  simp only [Site.bool, unlocated_bind, unlocated_input, true_and]
  intro v _
  cases v <;> simp

@[simp] theorem unlocated_str : Unlocated (s.str a i) := by
  simp only [Site.str, unlocated_bind, unlocated_input, true_and]
  intro v _
  cases v <;> simp

@[simp] theorem unlocated_stage (slots : Slots) (staged : Staged) :
    Unlocated (s.stage slots i staged) := by
  simp [Site.stage]

@[simp] theorem unlocated_outputs (values : List Value) : Unlocated (s.outputs values) := by
  have hfrom : ∀ slots i, Unlocated (s.stageFrom slots i values) := by
    induction values with
    | nil => exact fun _ _ => unlocated_ok
    | cons v values ih => simp [Site.stageFrom, ih]
  exact hfrom s.noOutputs 0

@[simp] theorem unlocated_lengthValue (length : Nat) : Unlocated (s.lengthValue length) := by
  simp [Site.lengthValue]

@[simp] theorem unlocated_outputHandle (handle : Nat) : Unlocated (s.outputHandle handle) := by
  simp [Site.outputHandle]

@[simp] theorem unlocated_elementWidth : Unlocated (s.elementWidth a) := by
  simp only [Site.elementWidth, unlocated_bind, unlocated_inputTy, true_and]
  intro ty _
  cases ty <;> simp

@[simp] theorem unlocated_elementIndex : Unlocated (s.elementIndex a i) := by
  exact unlocated_map.mpr (s.unlocated_int a i .i32)

end Site

section Commit

variable (s : Site) (a : Arena)

@[simp] theorem Pending.unlocated_ofStaged (place : Place) (staged : Staged) :
    Unlocated (Pending.ofStaged place staged) := by
  cases staged with
  | bytes content => exact unlocated_ok
  | value v => cases v <;> simp [Pending.ofStaged]

@[simp] theorem Pending.unlocatedAt_settleAll (ps : List Pending) :
    (Pending.settleAll ps).UnlocatedAt a := by
  induction ps generalizing a with
  | nil => exact Action.unlocatedAt_pure
  | cons p ps ih => cases p <;> simp [Pending.settleAll, Pending.settle, ih]

@[simp] theorem unlocatedAt_writeAll (writes : List (Nat × Bytes)) :
    (writeAll writes).UnlocatedAt a := by
  induction writes generalizing a with
  | nil => exact Action.unlocatedAt_pure
  | cons write writes ih => simp [writeAll, ih]

@[simp] theorem Site.unlocated_prepareAll (os : List Operand) (slots : Slots) :
    Unlocated (s.prepareAll a os slots) := by
  induction os generalizing slots with
  | nil => cases slots <;> simp [Site.prepareAll]
  | cons o os ih =>
    match slots with
    | [] => exact unlocated_ok
    | none :: slots => exact ih slots
    | some staged :: slots => simp [Site.prepareAll, Site.prepare, ih]

@[simp] theorem Site.unlocatedAt_commit (slots : Slots) : (s.commit slots).UnlocatedAt a := by
  simp [Site.commit]

end Commit

section Operators

variable (s : Site) (a : Arena) (w : Workspace)

@[simp] theorem Workspace.unlocatedAt_look {f : Arena → Except Error α} :
    (Workspace.look f).UnlocatedAt w ↔ Unlocated (f w.arena) :=
  Workspace.ends_look

@[simp] theorem Workspace.unlocatedAt_onArena {act : Action Arena α} :
    (Workspace.onArena act).UnlocatedAt w ↔ act.UnlocatedAt w.arena :=
  Workspace.ends_onArena

namespace BinaryOp

variable (op : BinaryOp)

@[simp] theorem unlocated_onInts (name : String) (k : IntKind) (x y : BitVec k.bits) :
    Unlocated (op.onInts name k x y) := by
  cases op <;> simp [onInts, shiftCount]

@[simp] theorem unlocated_ints (k : IntKind) : Unlocated (op.ints k s a) := by
  simp [ints]

@[simp] theorem unlocated_floats (k : FloatKind) : Unlocated (op.floats k s a) := by
  simp [floats]

end BinaryOp

@[simp] theorem unlocated_conjunction : Unlocated (conjunction s a) := by
  simp [conjunction]

@[simp] theorem unlocated_disjunction : Unlocated (disjunction s a) := by
  simp [disjunction]

@[simp] theorem unlocated_negation : Unlocated (negation s a) := by
  simp [negation]

@[simp] theorem unlocated_equality (expected : Bool) : Unlocated (equality expected s a) := by
  simp [equality]

theorem BinaryOp.unlocated_typed {op : BinaryOp} {ty : Ty} {run : Compute}
    (h : op.typed? ty = some run) : Unlocated (run s a) := by
  unfold BinaryOp.typed? at h
  split at h
  · cases h
    exact op.unlocated_ints s a _
  · split at h
    · cases h
      exact op.unlocated_floats s a _
    · cases h
  · cases h
    exact unlocated_equality s a true
  · cases h
    exact unlocated_equality s a false
  · cases h
    exact unlocated_conjunction s a
  · cases h
    exact unlocated_disjunction s a
  · cases h

@[simp] theorem BinaryOp.unlocated_generic (op : BinaryOp) : Unlocated (op.generic s a) := by
  simp only [BinaryOp.generic, unlocated_bind, Site.unlocated_inputTy, true_and]
  intro ty _
  cases hrun : op.typed? ty with
  | none => simp
  | some run => exact unlocated_typed s a hrun

@[simp] theorem unlocated_objectLength : Unlocated (Site.objectLength s a) := by
  simp [Site.objectLength]

@[simp] theorem unlocatedAt_draw (k : IntKind) : (draw k s).UnlocatedAt w := by
  simp [draw]

theorem SliceOp.unlocatedAt_run (op : SliceOp) : (op.body.run s).UnlocatedAt w := by
  cases op with
  | len => simp [SliceOp.body, Body.run]
  | append => simp [SliceOp.body, Body.run, SliceOp.appendBody]
  | concat => simp [SliceOp.body, Body.run, SliceOp.concatBody]
  | copy => simp [SliceOp.body, Body.run, SliceOp.copyBody]
  | read => simp [SliceOp.body, Body.run, SliceOp.readBody]
  | write => simp [SliceOp.body, Body.run, SliceOp.writeBody]

end Operators

namespace Window

namespace Headless

variable (h : Headless) (window : Nat)

@[simp] theorem unlocated_pane : Unlocated (h.pane window) := by
  cases window with
  | zero => simp [pane, failure]
  | succ index =>
    simp only [pane]
    split <;> simp [failure]

@[simp] theorem unlocated_create (width height : Int) (title : String) :
    Unlocated (h.create width height title) := by
  simp [create, failure]

@[simp] theorem unlocated_modifyPane (f : Pane → Pane) : Unlocated (h.modifyPane window f) := by
  simp [modifyPane]

end Headless

namespace Registry

variable (r : Registry) (name : String)

@[simp] theorem unlocated_create (width height : Int) (title : String) :
    Unlocated (r.create name width height title) := by
  simp [create]

@[simp] theorem unlocated_handle : Unlocated (r.handle name) := by
  unfold handle
  split <;> simp [failure]

@[simp] theorem unlocated_entry (handle : Int) : Unlocated (r.entry handle) := by
  simp only [entry]
  split <;> simp [failure]

@[simp] theorem unlocated_window : Unlocated (r.window name) := by
  simp [window]

@[simp] theorem unlocated_setTarget (kind : EventKind) (f : FunctionName) :
    Unlocated (r.setTarget name kind f) := by
  simp [setTarget]

end Registry

variable (s : Site) (w : Workspace)

@[simp] theorem unlocatedAt_onRegistry {f : Registry → Except Error (α × Registry)} :
    (onRegistry f).UnlocatedAt w ↔ Unlocated (f w.host.windows) := by
  simp [onRegistry]

theorem Op.unlocatedAt_body (op : Op) : (op.body s).UnlocatedAt w := by
  cases op with
  | create => simp [Op.body, str, i32, outputs, s.unlocated_int _ _ .i32]
  | handle => simp [Op.body, str, lookRegistry, outputs]
  | shouldClose =>
    simp [Op.body, str, lookRegistry, outputs, Registry.shouldClose, Headless.shouldClose]
  | setShouldClose =>
    simp [Op.body, str, changeRegistry, Registry.setShouldClose, Headless.setShouldClose]
  | size => simp [Op.body, str, lookRegistry, outputs, Registry.size, Headless.size]
  | cursorPos => simp [Op.body, str, lookRegistry, outputs, Registry.cursor, Headless.cursor]
  | pollEvents => simp [Op.body]
  | time => simp [Op.body, outputs]
  | setKeyCallback | setCursorPosCallback => simp [Op.body, Op.setTarget, str, changeRegistry]
  | setKeyCallbackEx | setSizeCallback => simp [Op.body, Op.setTargetIn, str, changeRegistry]

end Window

namespace Primitive

variable {p : Primitive}

/-- The operator reports its failures without a location. -/
def Unlocated (p : Primitive) : Prop := ∀ s w, (p.body.run s).UnlocatedAt w

theorem unlocated_of_compute {run : Compute} (h : p.body = .compute run)
    (hrun : ∀ s a, FlatMachine.Unlocated (run s a)) : p.Unlocated := by
  intro s w
  rw [h, Body.run, Workspace.unlocatedAt_look]
  exact hrun s w.arena

theorem unlocated_of_mem_conversions (h : p ∈ conversions) : p.Unlocated := by
  simp only [conversions, List.mem_cons, List.not_mem_nil, or_false] at h
  rcases h with rfl | rfl | rfl | rfl | rfl <;> apply unlocated_of_compute rfl <;> intro s a
  · simp [s.unlocated_int a 0 .i32]
  · simp [s.unlocated_int a 0 .i64]
  · simp [s.unlocated_int a 0 .i64]
  · simp [s.unlocated_float a 0 .f64]
  · simp [s.unlocated_int a 0 .i32]

theorem unlocated_of_mem_library (h : p ∈ library) : p.Unlocated := by
  cases family_of_mem_library h with
  | identity => exact unlocated_of_compute rfl fun s a => by simp
  | generic op => exact unlocated_of_compute rfl fun s a => op.unlocated_generic s a
  | bool h =>
    simp only [boolPrimitives, List.mem_cons, List.not_mem_nil, or_false] at h
    rcases h with rfl | rfl | rfl | rfl | rfl <;>
      exact unlocated_of_compute rfl fun s a => by simp
  | conversion h => exact unlocated_of_mem_conversions h
  | ints op k => exact unlocated_of_compute rfl fun s a => op.unlocated_ints s a k
  | int => exact unlocated_of_compute rfl fun s a => by simp
  | random k => exact fun s w => unlocatedAt_draw s w k
  | @floats op _ k => exact unlocated_of_compute rfl fun s a => op.unlocated_floats s a k
  | float => exact unlocated_of_compute rfl fun s a => by simp
  | string h =>
    simp only [stringPrimitives, List.mem_cons, List.not_mem_nil, or_false] at h
    rcases h with rfl | rfl | rfl <;> exact unlocated_of_compute rfl fun s a => by simp
  | slice op => exact fun s w => op.unlocatedAt_run s w

/-- The operators that come with the machine leave it to the machine to tell where they failed. -/
theorem Shipped.unlocated (h : p.Shipped) : p.Unlocated := by
  rcases h.cases with h | ⟨op, rfl⟩
  · exact unlocated_of_mem_library h
  · exact fun s w => op.unlocatedAt_body s w

theorem Unlocated.execute (h : p.Unlocated) (s : Site) (w : Workspace) :
    (p.execute s).UnlocatedAt w := by
  simp only [Primitive.execute, Action.unlocatedAt_bind, Workspace.unlocatedAt_onArena,
    Site.unlocatedAt_commit, implies_true, and_true]
  exact h s w

end Primitive

@[simp] theorem PrimitiveTable.unlocated_get (t : PrimitiveTable) (code : Nat) :
    Unlocated (t.get code) := by
  unfold PrimitiveTable.get
  split <;> simp

@[simp] theorem Program.unlocated_function (p : Program) (f : FunctionName) :
    Unlocated (p.function f) := by
  unfold Program.function
  split <;> simp

namespace Machine

section Arena

variable (t : StructTable) (fp : Nat) (a : Arena)

@[simp] theorem unlocatedAt_declare (o : Operand) : (declare t fp o).UnlocatedAt a := by
  simp only [declare, Action.unlocatedAt_bind, Action.unlocatedAt_query, Action.unlocatedAt_update,
    Operand.unlocated_place, Arena.unlocated_zero, true_and]
  intro place _ _ _ _ _
  split <;> simp

@[simp] theorem unlocatedAt_declareAll (os : List Operand) :
    (declareAll t fp os).UnlocatedAt a := by
  induction os generalizing a with
  | nil => exact Action.unlocatedAt_pure
  | cons o os ih => simp [declareAll, ih]

@[simp] theorem unlocatedAt_executeBare (n : Node) : (executeBare t fp n).UnlocatedAt a := by
  unfold executeBare
  split <;> simp [move]

@[simp] theorem unlocatedAt_storeArgs (params : List Operand) (args : List Bytes) :
    (storeArgs t fp params args).UnlocatedAt a := by
  induction params generalizing args a with
  | nil => exact Action.unlocatedAt_pure
  | cons param params ih =>
    cases args with
    | nil => exact Action.unlocatedAt_pure
    | cons bytes args => simp [storeArgs, ih]

end Arena

variable (m : Machine) (fp pc : Nat) (n : Node)

@[simp] theorem unlocatedAt_onWork {act : Action Workspace α} :
    (onWork act).UnlocatedAt m ↔ act.UnlocatedAt m.work := ends_onWork

@[simp] theorem unlocatedAt_onArena {act : Action Arena α} :
    (onArena act).UnlocatedAt m ↔ act.UnlocatedAt m.work.arena := ends_onArena

theorem unlocatedAt_executeNode (h : ∀ p ∈ m.primitives.entries, p.Unlocated) :
    (executeNode fp n).UnlocatedAt m := by
  simp only [executeNode, Action.unlocatedAt_bind, Action.unlocatedAt_get, true_and]
  rintro _ _ ⟨⟩
  split
  · simp
  · simp only [Action.unlocatedAt_bind, Action.unlocatedAt_ofExcept, unlocatedAt_onWork,
      PrimitiveTable.unlocated_get, true_and]
    intro p m' hp
    obtain ⟨hp, rfl⟩ := Action.ofExcept_eq_ok.mp hp
    exact (h p (PrimitiveTable.mem_of_get hp)).execute _ _
  · simp

@[simp] theorem unlocatedAt_enter (f : Function) (callerFp : Nat) (args : List Bytes)
    (returnsToCaller : Bool) : (enter f fp callerFp args returnsToCaller).UnlocatedAt m := by
  simp [enter, CallStack.push]

@[simp] theorem unlocatedAt_callNode (callee : FunctionName) :
    (callNode fp n callee).UnlocatedAt m := by
  simp [callNode, arityError, unlocated_mapM]

@[simp] theorem unlocated_readSlots (slots : List Operand) : Unlocated (m.readSlots fp slots) := by
  simp [readSlots, unlocated_mapM, place]

@[simp] theorem unlocated_resultWrites (callee : Function) (os : List Operand)
    (results : List Bytes) : Unlocated (m.resultWrites callee fp os results) := by
  induction os generalizing results with
  | nil => simp [resultWrites]
  | cons o os ih => cases results <;> simp [resultWrites, place, ih]

@[simp] theorem unlocatedAt_storeResults (calleeFp : Nat) (callee : Function) (callerFp : Nat) :
    (storeResults calleeFp callee callerFp n).UnlocatedAt m := by
  simp [storeResults]

@[simp] theorem unlocated_jumpTarget (onTrue onFalse : Int) (length : Nat) :
    Unlocated (m.jumpTarget fp pc n onTrue onFalse length) := by
  have htaken : Unlocated (m.jumpTaken fp n.inputs) := by
    cases n.inputs with
    | nil => exact unlocated_ok
    | cons condition rest =>
      simp only [jumpTaken, value, unlocated_bind, Operand.unlocated_value, true_and]
      intro v _
      cases v <;> simp
  simp [jumpTarget_eq, jumpLanding, htaken]

/-- Whatever the node does, its failure is reported without a location. -/
theorem unlocatedAt_executeAt (h : ∀ p ∈ m.primitives.entries, p.Unlocated) (f : Function) :
    (executeAt f fp pc n).UnlocatedAt m := by
  unfold executeAt
  split
  · simp
  · simp
  · simp [unlocatedAt_executeNode m fp n h]

theorem unlocatedAt_beginCall (name : FunctionName) (args : List Bytes) :
    (beginCall name args).UnlocatedAt m := by
  simp only [Action.UnlocatedAt, beginCall, ends_bind, ends_get, ends_ofExcept, ends_ite,
    ends_throw]
  refine gives_iff.mpr ⟨fun function _ => ⟨fun _ => rfl, fun _ => ?_⟩, fun e he =>
    (m.program.unlocated_function name).failure he⟩
  have henter := m.unlocatedAt_enter m.nextFp function m.nextFp args false
  split
  · trivial
  · rename_i e m' he
    exact henter.failure he

end Machine

end FlatMachine
