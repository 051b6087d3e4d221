import FlatMachine.Proofs.Containment
import FlatMachine.Proofs.Place

/-!
# What operators see of their nodes

An operator reads its inputs, counts its outputs, and has a name; committing leads the outputs to
their places. Nothing else of the operands matters: neither how they were declared nor where they
were written. Two window operators also look at the node's package.
-/

namespace FlatMachine

open FlatMachine.Action

/-- The operands lead to the same place. -/
structure Operand.Twin (o o' : Operand) : Prop where
  name_eq : o'.name = o.name
  ty_eq : o'.ty = o.ty
  storage_eq : o'.storage = o.storage
  chain_eq : o'.chain = o.chain

/-- The operands stand for the same value, or for the same address. -/
structure Operand.TwinInput (o o' : Operand) : Prop extends o.Twin o' where
  byReference_eq : o'.byReference = o.byReference

namespace Operand

variable {o o' : Operand} {t : StructTable} {a : Arena} {fp : Nat}

theorem Twin.refl (o : Operand) : o.Twin o := ⟨rfl, rfl, rfl, rfl⟩

theorem TwinInput.refl (o : Operand) : o.TwinInput o := ⟨.refl o, rfl⟩

theorem Twin.place_eq (h : o.Twin o') : o'.place t a fp = o.place t a fp := by
  rw [Operand.place_eq, Operand.place_eq, h.name_eq, h.ty_eq, h.storage_eq, h.chain_eq]

theorem Twin.valueTy_eq (h : o.Twin o') : o'.valueTy t = o.valueTy t := by
  rw [valueTy, valueTy, h.ty_eq, h.chain_eq]

theorem Twin.value_eq (h : o.Twin o') : o'.value t a fp = o.value t a fp := by
  rw [Operand.value, Operand.value, h.place_eq]

theorem TwinInput.bytes_eq (h : o.TwinInput o') : o'.bytes t a fp = o.bytes t a fp := by
  rw [bytes, bytes, h.place_eq, h.byReference_eq]

end Operand

/-- The sites have the same operator, inputs and places of outputs. -/
structure Site.Twin (s s' : Site) : Prop where
  structs_eq : s'.structs = s.structs
  fp_eq : s'.fp = s.fp
  operator_eq : s'.node.operator = s.node.operator
  inputs : List.Forall₂ Operand.TwinInput s.node.inputs s'.node.inputs
  outputs : List.Forall₂ Operand.Twin s.node.outputs s'.node.outputs

namespace Site.Twin

variable {s s' : Site} {a : Arena} {i : Nat}

theorem name_eq (h : s.Twin s') : s'.name = s.name := by
  simp only [Site.name, Node.operatorName, h.operator_eq]

/-- Something that is done with an input. -/
theorem operand_bind {α : Type} (h : s.Twin s') {f g : Operand → Except Error α}
    (hfg : ∀ o o', o.TwinInput o' → g o' = f o) :
    s'.operand i >>= g = s.operand i >>= f := by
  unfold Site.operand
  rw [h.name_eq]
  cases hi : s.node.inputs[i]? with
  | none =>
    have hi' : s'.node.inputs[i]? = none := by
      rw [List.getElem?_eq_none_iff] at hi ⊢
      exact h.inputs.length_eq ▸ hi
    rw [hi']
    rfl
  | some o =>
    obtain ⟨o', hi', ho⟩ := exists_getElem?_of_forall₂ h.inputs.flip hi
    rw [hi']
    exact hfg o o' ho

theorem inputTy_eq (h : s.Twin s') (a : Arena) (i : Nat) : s'.inputTy a i = s.inputTy a i := by
  apply h.operand_bind
  intro o o' ho
  rw [h.structs_eq, h.fp_eq, ho.place_eq, ho.byReference_eq]

theorem inputBytes_eq (h : s.Twin s') (a : Arena) (i : Nat) :
    s'.inputBytes a i = s.inputBytes a i := by
  apply h.operand_bind
  intro o o' ho
  rw [h.structs_eq, h.fp_eq, ho.bytes_eq]

theorem input_eq (h : s.Twin s') (a : Arena) (i : Nat) : s'.input a i = s.input a i := by
  apply h.operand_bind
  intro o o' ho
  rw [h.structs_eq, h.fp_eq, ho.place_eq, ho.byReference_eq, h.name_eq]

theorem inputHandle_eq (h : s.Twin s') (a : Arena) (i : Nat) :
    s'.inputHandle a i = s.inputHandle a i := by
  simp only [inputHandle, h.inputTy_eq, h.inputBytes_eq, h.name_eq]

theorem int_eq (h : s.Twin s') (k : IntKind) (a : Arena) (i : Nat) :
    s'.int k a i = s.int k a i := by
  simp only [int, h.input_eq, h.name_eq]

theorem float_eq (h : s.Twin s') (k : FloatKind) (a : Arena) (i : Nat) :
    s'.float k a i = s.float k a i := by
  simp only [float, h.input_eq, h.name_eq]

theorem bool_eq (h : s.Twin s') (a : Arena) (i : Nat) : s'.bool a i = s.bool a i := by
  simp only [bool, h.input_eq, h.name_eq]

theorem str_eq (h : s.Twin s') (a : Arena) (i : Nat) : s'.str a i = s.str a i := by
  simp only [str, h.input_eq, h.name_eq]

theorem noOutputs_eq (h : s.Twin s') : s'.noOutputs = s.noOutputs := by
  simp only [noOutputs, h.outputs.length_eq]

theorem stage_eq (h : s.Twin s') (slots : Slots) (i : Nat) (staged : Staged) :
    s'.stage slots i staged = s.stage slots i staged := by
  simp only [stage, h.name_eq]

theorem stageFrom_eq (h : s.Twin s') (slots : Slots) (i : Nat) (values : List Value) :
    s'.stageFrom slots i values = s.stageFrom slots i values := by
  induction values generalizing slots i with
  | nil => rfl
  | cons v rest ih => simp only [stageFrom, h.stage_eq, ih]

theorem outputs_eq (h : s.Twin s') (values : List Value) :
    s'.outputs values = s.outputs values := by
  simp only [Site.outputs, h.stageFrom_eq, h.noOutputs_eq]

theorem lengthValue_eq (h : s.Twin s') (length : Nat) :
    s'.lengthValue length = s.lengthValue length := by
  simp only [lengthValue, h.name_eq]

theorem outputHandle_eq (h : s.Twin s') (handle : Nat) :
    s'.outputHandle handle = s.outputHandle handle := by
  simp only [outputHandle, h.stage_eq, h.noOutputs_eq]

theorem elementWidth_eq (h : s.Twin s') (a : Arena) : s'.elementWidth a = s.elementWidth a := by
  simp only [elementWidth, h.inputTy_eq, h.name_eq]

theorem elementIndex_eq (h : s.Twin s') (a : Arena) (i : Nat) :
    s'.elementIndex a i = s.elementIndex a i := by
  simp only [elementIndex, h.int_eq]

theorem prepareAll_eq (h : s.Twin s') {os os' : List Operand}
    (hos : List.Forall₂ Operand.Twin os os') (slots : Slots) :
    s'.prepareAll a os' slots = s.prepareAll a os slots := by
  induction hos generalizing slots with
  | nil => cases slots <;> rfl
  | cons ho _ ih =>
    cases slots with
    | nil => rfl
    | cons slot slots =>
      cases slot with
      | none => exact ih slots
      | some staged =>
        simp only [prepareAll, prepare, h.structs_eq, h.fp_eq, ho.place_eq, h.name_eq, ih]

theorem commit_eq (h : s.Twin s') (slots : Slots) : s'.commit slots = s.commit slots := by
  simp only [commit, h.prepareAll_eq h.outputs]

end Site.Twin

/-- The body sees no more of a site than its operator, inputs and number of outputs. -/
def Body.Blind (body : Body) : Prop := ∀ s s' : Site, s.Twin s' → body.run s' = body.run s

namespace Body

section Library

variable {p : Primitive}

theorem blind_of_compute {run : Compute} (h : ∀ s s' : Site, s.Twin s' → ∀ a, run s' a = run s a) :
    Body.Blind (.compute run) := by
  intro s s' htwin
  exact congrArg Workspace.look (funext (h s s' htwin))

theorem ints_twin (op : BinaryOp) (k : IntKind) {s s' : Site} (h : s.Twin s') (a : Arena) :
    op.ints k s' a = op.ints k s a := by
  simp only [BinaryOp.ints, h.int_eq, h.name_eq, h.outputs_eq]

theorem floats_twin (op : BinaryOp) (k : FloatKind) {s s' : Site} (h : s.Twin s') (a : Arena) :
    op.floats k s' a = op.floats k s a := by
  simp only [BinaryOp.floats, h.float_eq, h.outputs_eq]

theorem conjunction_twin {s s' : Site} (h : s.Twin s') (a : Arena) :
    conjunction s' a = conjunction s a := by
  simp only [conjunction, h.bool_eq, h.outputs_eq]

theorem disjunction_twin {s s' : Site} (h : s.Twin s') (a : Arena) :
    disjunction s' a = disjunction s a := by
  simp only [disjunction, h.bool_eq, h.outputs_eq]

theorem equality_twin (expected : Bool) {s s' : Site} (h : s.Twin s') (a : Arena) :
    equality expected s' a = equality expected s a := by
  simp only [equality, h.input_eq, h.outputs_eq]

theorem typed_twin {op : BinaryOp} {ty : Ty} {run : Compute} (hrun : op.typed? ty = some run)
    {s s' : Site} (h : s.Twin s') (a : Arena) : run s' a = run s a := by
  unfold BinaryOp.typed? at hrun
  split at hrun
  · cases hrun
    exact ints_twin op _ h a
  · split at hrun
    · cases hrun
      exact floats_twin op _ h a
    · cases hrun
  · cases hrun
    exact equality_twin true h a
  · cases hrun
    exact equality_twin false h a
  · cases hrun
    exact conjunction_twin h a
  · cases hrun
    exact disjunction_twin h a
  · cases hrun

theorem blind_generic (op : BinaryOp) : Body.Blind (.compute op.generic) := by
  apply blind_of_compute
  intro s s' h a
  simp only [BinaryOp.generic, h.inputTy_eq, h.name_eq]
  apply bind_congr
  intro ty
  cases hrun : op.typed? ty with
  | none => rfl
  | some run => exact typed_twin hrun h a

theorem blind_objectLength : Body.Blind (.compute Site.objectLength) := by
  apply blind_of_compute
  intro s s' h a
  simp only [Site.objectLength, h.inputHandle_eq, h.lengthValue_eq, h.outputs_eq]

theorem blind_draw (k : IntKind) : Body.Blind (.act (draw k)) := by
  intro s s' h
  simp only [Body.run, draw, h.int_eq, h.name_eq, h.outputs_eq]

theorem blind_slice (op : SliceOp) : op.body.Blind := by
  cases op with
  | len => exact blind_objectLength
  | read =>
    apply blind_of_compute
    intro s s' h a
    simp only [SliceOp.readBody, h.elementWidth_eq, h.inputHandle_eq, h.elementIndex_eq,
      h.stage_eq, h.noOutputs_eq]
  | append =>
    intro s s' h
    have hwidth : s'.elementWidth = s.elementWidth := funext h.elementWidth_eq
    simp only [Body.run, SliceOp.body, SliceOp.appendBody, hwidth, h.inputHandle_eq,
      h.inputBytes_eq, h.outputHandle_eq]
  | concat =>
    intro s s' h
    have hwidth : s'.elementWidth = s.elementWidth := funext h.elementWidth_eq
    simp only [Body.run, SliceOp.body, SliceOp.concatBody, hwidth, h.inputHandle_eq,
      h.outputHandle_eq]
  | copy =>
    intro s s' h
    have hwidth : s'.elementWidth = s.elementWidth := funext h.elementWidth_eq
    simp only [Body.run, SliceOp.body, SliceOp.copyBody, hwidth, h.inputHandle_eq, h.noOutputs_eq]
  | write =>
    intro s s' h
    have hwidth : s'.elementWidth = s.elementWidth := funext h.elementWidth_eq
    simp only [Body.run, SliceOp.body, SliceOp.writeBody, hwidth, h.inputHandle_eq,
      h.elementIndex_eq, h.inputBytes_eq, h.name_eq, h.noOutputs_eq]

theorem blind_of_mem_bools (h : p ∈ boolPrimitives) : p.body.Blind := by
  simp only [boolPrimitives, List.mem_cons, List.not_mem_nil, or_false] at h
  rcases h with rfl | rfl | rfl | rfl | rfl
  · exact blind_of_compute fun s s' => conjunction_twin
  · exact blind_of_compute fun s s' => disjunction_twin
  · exact blind_of_compute fun s s' => equality_twin true
  · exact blind_of_compute fun s s' => equality_twin false
  · exact blind_of_compute fun s s' h a => by simp only [negation, h.bool_eq, h.outputs_eq]

theorem blind_of_mem_library (h : p ∈ library) : p.body.Blind := by
  cases Primitive.family_of_mem_library h with
  | identity =>
    exact blind_of_compute fun s s' h a => by
      simp only [h.stage_eq, h.noOutputs_eq, h.inputBytes_eq]
  | generic op => exact blind_generic op
  | bool h => exact blind_of_mem_bools h
  | conversion h =>
    simp only [conversions, List.mem_cons, List.not_mem_nil, or_false] at h
    rcases h with rfl | rfl | rfl | rfl | rfl <;>
      exact blind_of_compute fun s s' h a => by simp only [h.int_eq, h.float_eq, h.outputs_eq]
  | ints op k => exact blind_of_compute fun s s' h => ints_twin op k h
  | int => exact blind_of_compute fun s s' h a => by simp only [h.int_eq, h.outputs_eq]
  | random k => exact blind_draw k
  | @floats op _ k => exact blind_of_compute fun s s' h => floats_twin op k h
  | float => exact blind_of_compute fun s s' h a => by simp only [h.float_eq, h.outputs_eq]
  | string h =>
    simp only [stringPrimitives, List.mem_cons, List.not_mem_nil, or_false] at h
    rcases h with rfl | rfl | rfl
    · exact blind_objectLength
    · exact blind_of_compute fun s s' h a => by simp only [h.str_eq, h.outputs_eq]
    · exact blind_of_compute fun s s' h a => by simp only [h.str_eq, h.outputs_eq]
  | slice op => exact blind_slice op

end Library

end Body

section Windows

variable {s s' : Site}

theorem windowBody_twin (h : s.Twin s') (hpackage : s'.node.package = s.node.package)
    (op : Window.Op) : op.body s' = op.body s := by
  cases op <;> simp only [Window.Op.body, Window.Op.setTarget, Window.Op.setTargetIn, Window.str,
    Window.i32, Window.outputs, h.str_eq, h.int_eq, h.bool_eq, h.outputs_eq, h.noOutputs_eq,
    hpackage]

end Windows

namespace Primitive

variable {p : Primitive} {s s' : Site}

theorem execute_of_run (h : s.Twin s') (hrun : p.body.run s' = p.body.run s) :
    p.execute s' = p.execute s := by
  simp only [execute, hrun, h.commit_eq]

/-- An operator that is shipped does the same at both sites. -/
theorem Shipped.execute_twin (hp : p.Shipped) (h : s.Twin s')
    (hpackage : s'.node.package = s.node.package) : p.execute s' = p.execute s := by
  apply execute_of_run h
  rcases hp.cases with hlibrary | ⟨op, rfl⟩
  · exact Body.blind_of_mem_library hlibrary s s' h
  · exact windowBody_twin h hpackage op

end Primitive

end FlatMachine
