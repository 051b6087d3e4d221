import FlatMachine.Proofs.DataSegment
import FlatMachine.Proofs.Results

/-!
# Operators on variables

A variable stands for a slot of its own, whatever lies in memory. So an operator whose inputs are
variables reads their slots, and a node with one variable as its output writes the slot of that one.
-/

namespace FlatMachine

open FlatMachine.Action

/-- The operand stands for the slot, whatever lies in memory, and is passed by value. -/
structure Operand.IsVariable (t : StructTable) (fp : Nat) (o : Operand) (slot : Place) : Prop where
  place_eq : ∀ a, o.place t a fp = .ok slot
  byValue : o.byReference = false

/-- A symbol without accesses is a variable. -/
theorem Operand.IsVariable.of_plain {t : StructTable} {fp offset size : Nat} {o : Operand}
    (hstart : o.storage.start fp o.name = .ok offset) (hsize : o.ty.size t = .ok size)
    (hchain : o.chain = []) (hvalue : o.byReference = false) :
    o.IsVariable t fp ⟨offset, o.ty, size⟩ where
  place_eq a := by
    rw [Operand.place_eq, hchain, hstart]
    exact bind_eq_ok.mpr ⟨_, rfl, bind_eq_ok.mpr ⟨_, rfl, bind_eq_ok.mpr ⟨size, hsize, rfl⟩⟩⟩
  byValue := hvalue

/-- The operand is a variable whose slot is allocated. -/
structure Machine.HasVariable (m : Machine) (fp : Nat) (o : Operand) (slot : Place) : Prop
    extends o.IsVariable m.program.structs fp slot where
  stop_le : slot.offset + slot.size ≤ m.arena.heapPointer

section Inputs

variable {t : StructTable} {a : Arena} {fp : Nat} {s : Site} {i : Nat} {o : Operand} {slot : Place}

/-- The value in a slot; a string or slice is read through its handle. -/
def Arena.valueAt (a : Arena) (slot : Place) : Except Error Value :=
  match slot.ty with
  | .str | .slice _ => a.readHandle slot.offset >>= (a.readObject · slot.ty)
  | ty => a.read slot.offset slot.size >>= ty.decode

theorem Operand.IsVariable.value_eq (h : o.IsVariable t fp slot) :
    o.value t a fp = a.valueAt slot := by
  rw [Operand.value, h.place_eq]
  rfl

theorem Operand.IsVariable.bytes_eq (h : o.IsVariable t fp slot) :
    o.bytes t a fp = a.read slot.offset slot.size := by
  rw [Operand.bytes, h.place_eq, h.byValue]
  rfl

theorem Operand.IsVariable.size_eq (h : o.IsVariable t fp slot) :
    slot.ty.size t = .ok slot.size :=
  size_of_place (h.place_eq default)

theorem Operand.IsVariable.size_of_elementWidth {width : Nat} (h : o.IsVariable t fp slot)
    (hwidth : slot.ty.elementWidth = .ok width) : slot.size = width :=
  Except.ok.inj (h.size_eq.symm.trans (Ty.size_of_elementWidth hwidth))

namespace Site

/-- The input at a position is a variable. -/
def HasInput (s : Site) (i : Nat) (slot : Place) : Prop :=
  ∃ o, s.node.inputs[i]? = some o ∧ o.IsVariable s.structs s.fp slot

theorem operand_eq_ok (h : s.node.inputs[i]? = some o) : s.operand i = .ok o := by
  rw [operand, h]

namespace HasInput

theorem inputTy_eq (h : s.HasInput i slot) : s.inputTy a i = .ok slot.ty := by
  obtain ⟨o, ho, hvariable⟩ := h
  rw [inputTy, operand_eq_ok ho]
  refine bind_eq_ok.mpr ⟨o, rfl, bind_eq_ok.mpr ⟨slot, hvariable.place_eq a, ?_⟩⟩
  rw [hvariable.byValue]
  rfl

theorem inputBytes_eq (h : s.HasInput i slot) :
    s.inputBytes a i = a.read slot.offset slot.size := by
  obtain ⟨o, ho, hvariable⟩ := h
  rw [inputBytes, operand_eq_ok ho, ← hvariable.bytes_eq]
  rfl

theorem size_eq (h : s.HasInput i slot) : slot.ty.size s.structs = .ok slot.size := by
  obtain ⟨o, -, hvariable⟩ := h
  exact hvariable.size_eq

theorem size_of_elementWidth {width : Nat} (h : s.HasInput i slot)
    (hwidth : slot.ty.elementWidth = .ok width) : slot.size = width := by
  obtain ⟨o, -, hvariable⟩ := h
  exact hvariable.size_of_elementWidth hwidth

theorem size_of_isHandle (h : s.HasInput i slot) (hty : slot.ty.isHandle = true) :
    slot.size = Ty.handleWidth := by
  have hsize := h.size_eq
  obtain ⟨offset, ty, size⟩ := slot
  cases ty with
  | str | slice | pointer => exact (Except.ok.inj hsize).symm
  | _ => cases hty

theorem inputHandle_eq (h : s.HasInput i slot) (hty : slot.ty.isHandle = true) :
    s.inputHandle a i = a.readHandle slot.offset := by
  rw [inputHandle, h.inputTy_eq, h.inputBytes_eq, h.size_of_isHandle hty]
  change (if slot.ty.isHandle = true then _ else _) = _
  rw [if_pos hty, Arena.readHandle]
  cases hread : a.read slot.offset Ty.handleWidth with
  | error e =>
    rw [show a.read slot.offset 4 = .error e from hread]
    rfl
  | ok bytes =>
    obtain ⟨-, hlen, -⟩ := Arena.gives_read.value hread
    rw [show a.read slot.offset 4 = .ok bytes from hread]
    exact takeWord_of_length hlen

/-- A scalar, string, slice or address is read from the slot. -/
theorem input_eq (h : s.HasInput i slot) (hty : slot.ty.isScalar = true ∨ slot.ty.isHandle = true) :
    s.input a i = a.valueAt slot := by
  obtain ⟨o, ho, hvariable⟩ := h
  rw [input, operand_eq_ok ho]
  change (o.place s.structs a s.fp >>= fun _ => _) = _
  rw [hvariable.place_eq]
  change (if o.byReference = true then _ else _) = _
  rw [hvariable.byValue]
  obtain ⟨offset, ty, size⟩ := slot
  cases ty with
  | undefined | array | struct => rcases hty with hty | hty <;> cases hty
  | _ => rfl

end HasInput

theorem int_eq_ok {k : IntKind} {w : BitVec k.bits} (h : s.input a i = .ok (.int k w)) :
    s.int k a i = .ok w := by
  rw [int, h]
  change (if hk : k = k then pure (w.cast _) else _) = _
  rw [dif_pos rfl]
  rfl

end Site

theorem Arena.valueAt_int {k : IntKind} (hty : slot.ty = .int k) (hsize : slot.size = k.bytes)
    (hle : slot.offset + slot.size ≤ a.heapPointer) : ∃ w, a.valueAt slot = .ok (.int k w) := by
  obtain ⟨offset, ty, size⟩ := slot
  subst hty
  subst hsize
  obtain ⟨bytes, hread, hlen⟩ := exists_read hle
  refine ⟨BitVec.ofNat k.bits (LittleEndian.decode bytes), bind_eq_ok.mpr ⟨bytes, hread, ?_⟩⟩
  exact bind_eq_ok.mpr ⟨_, takeWord_of_length hlen, rfl⟩

end Inputs

/-- The node in the frame at `fp`. -/
def Machine.site (m : Machine) (fp : Nat) (n : Node) : Site := ⟨m.program.structs, fp, n⟩

theorem Machine.HasVariable.hasInput {m : Machine} {fp i : Nat} {n : Node} {o : Operand}
    {slot : Place} (h : m.HasVariable fp o slot) (ho : n.inputs[i]? = some o) :
    (m.site fp n).HasInput i slot :=
  ⟨o, ho, h.toIsVariable⟩

@[simp] theorem Machine.work_arena (m : Machine) : m.work.arena = m.arena := rfl

/-- The node applies the primitive to these operands. -/
structure Node.Performs (table : PrimitiveTable) (n : Node) (p : Primitive)
    (inputs outputs : List Operand) : Prop where
  operator : ∃ code name signature, n.operator = some (.native code name signature) ∧
    table.get code = .ok p
  inputs_eq : n.inputs = inputs
  outputs_eq : n.outputs = outputs

/-- The node's operator is the primitive, as the table has it registered. -/
def Node.AppliesPrimitive (table : PrimitiveTable) (n : Node) (p : Primitive) : Prop :=
  ∃ code, n.operator = some (.native code p.name p.signature) ∧ table.get code = .ok p

theorem Node.AppliesPrimitive.performs {table : PrimitiveTable} {n : Node} {p : Primitive}
    (h : n.AppliesPrimitive table p) : n.Performs table p n.inputs n.outputs := by
  obtain ⟨code, hoperator, hcode⟩ := h
  exact ⟨⟨code, _, _, hoperator, hcode⟩, rfl, rfl⟩

theorem Node.AppliesPrimitive.name_site {m : Machine} {n : Node} {p : Primitive}
    (h : n.AppliesPrimitive m.primitives p) (fp : Nat) : (m.site fp n).name = p.name := by
  obtain ⟨code, hoperator, -⟩ := h
  rw [Site.name, Machine.site, Node.operatorName, hoperator]
  rfl

section Execution

variable {a : Arena} {s : Site} {m : Machine} {fp : Nat} {n : Node} {p : Primitive} {o : Operand}
  {inputs outputs : List Operand} {place : Place} {content : Bytes}

theorem Machine.ends_performs {ok : Unit → Machine → Prop} {bad : Error → Machine → Prop}
    (h : n.Performs m.primitives p inputs outputs) : Ends (executeNode fp n) m ok bad ↔
      Ends (p.execute (m.site fp n)) m.work (fun x work => ok x { m with work })
        (fun e work => bad e { m with work }) := by
  obtain ⟨code, name, signature, hop, hcode⟩ := h.operator
  simp only [executeNode, ends_bind, ends_get, hop, ends_ofExcept, hcode, gives_ok, ends_onWork,
    site]

namespace Site

theorem stage_only (houtputs : s.node.outputs = [o]) (staged : Staged) :
    s.stage s.noOutputs 0 staged = .ok [some staged] := by
  simp [stage, noOutputs, houtputs]

/-- What is staged for the only output is checked, settled and written. -/
theorem ends_commit_only {ok : Unit → Arena → Prop} {bad : Error → Arena → Prop} {staged : Staged}
    (houtputs : s.node.outputs = [o]) : Ends (s.commit [some staged]) a ok bad ↔
      Gives (s.prepare a o staged) (fun p => Ends p.settle a
        (fun w b => Gives (b.write w.1 w.2) (ok ()) (bad · b)) bad) (bad · a) := by
  simp only [commit, ends_bind, ends_query, houtputs, prepareAll, gives_bind, gives_ok, gives_pure,
    Pending.settleAll, writeAll, ends_pure, ends_update]

theorem prepare_of_width {p : Pending} {staged : Staged}
    (hplace : o.place s.structs a s.fp = .ok place) (hp : Pending.ofStaged place staged = .ok p)
    (hwidth : p.width = place.size) : s.prepare a o staged = .ok p := by
  rw [prepare, hplace]
  exact bind_eq_ok.mpr ⟨place, rfl, bind_eq_ok.mpr ⟨p, hp, if_pos hwidth⟩⟩

/-- Bytes for the only output are written to its place. -/
theorem ends_commit_bytes {ok : Unit → Arena → Prop} {bad : Error → Arena → Prop}
    (houtputs : s.node.outputs = [o])
    (hlen : ∀ place, o.place s.structs a s.fp = .ok place → content.length = place.size) :
    Ends (s.commit [some (.bytes content)]) a ok bad ↔
      Gives (o.place s.structs a s.fp >>= fun place => a.write place.offset content) (ok ())
        (bad · a) := by
  rw [ends_commit_only houtputs]
  cases hplace : o.place s.structs a s.fp with
  | error e =>
    rw [prepare, hplace]
    rfl
  | ok place =>
    have hpending : Pending.ofStaged place (.bytes content) = .ok (.bytes place.offset content) :=
      rfl
    rw [prepare_of_width hplace hpending (hlen place hplace)]
    rfl

/-- What is staged for the only output is settled and written to its place. -/
theorem ends_commit_staged {ok : Unit → Arena → Prop} {bad : Error → Arena → Prop} {p : Pending}
    {staged : Staged} (houtputs : s.node.outputs = [o])
    (hplace : o.place s.structs a s.fp = .ok place) (hp : Pending.ofStaged place staged = .ok p)
    (hwidth : p.width = place.size) : Ends (s.commit [some staged]) a ok bad ↔
      Ends p.settle a (fun w b => Gives (b.write w.1 w.2) (ok ()) (bad · b)) bad := by
  rw [ends_commit_only houtputs, prepare_of_width hplace hp hwidth, gives_ok]

/-- Bytes for the only output, a variable, are written to its slot. -/
theorem ends_commit_variable {ok : Unit → Arena → Prop} {bad : Error → Arena → Prop}
    (houtputs : s.node.outputs = [o]) (ho : o.IsVariable s.structs s.fp place)
    (hlen : content.length = place.size) : Ends (s.commit [some (.bytes content)]) a ok bad ↔
      Gives (a.write place.offset content) (ok ()) (bad · a) := by
  have hpending : Pending.ofStaged place (.bytes content) = .ok (.bytes place.offset content) := rfl
  exact ends_commit_staged houtputs (ho.place_eq a) hpending hlen

/-- Nothing staged, nothing written. -/
theorem ends_commit_noOutputs {ok : Unit → Arena → Prop} {bad : Error → Arena → Prop} :
    Ends (s.commit s.noOutputs) a ok bad ↔ ok () a := by
  simp only [commit, ends_bind, ends_query, prepareAll_of_none s a _ noOutputs_eq_none, gives_ok,
    Pending.settleAll, writeAll, ends_pure]

end Site

end Execution

end FlatMachine
