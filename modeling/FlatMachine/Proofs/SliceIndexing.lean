import FlatMachine.Proofs.Signatures
import FlatMachine.Proofs.Variables

/-!
# Elements of a slice

An element of a slice is reached in two ways: a chain that ends with an index leads to it, and the
operators `read` and `write` compute its offset. Both check the index against the count that lies at
the handle, and then the bytes of the element against what is allocated, so a move from or to the
element does what the operator does, failures included.
-/

namespace FlatMachine

open FlatMachine.Action

/-- The element whose number is the value of the index. -/
def Operand.element (xs index : Operand) : Operand :=
  { xs with chain := xs.chain ++ [.index (.operand index)] }

section Element

variable {t : StructTable} {a : Arena} {fp handle width : Nat} {elem : Ty} {xs i : Operand}
  {slot number : Place} {w : BitVec IntKind.i32.bits}

/-- The indexes of chains are 64 bits wide. -/
theorem toInt64?_i32 (w : BitVec IntKind.i32.bits) :
    (Value.int .i32 w).toInt64? = some (IntKind.i32.toInt w) := by
  change some (BitVec.ofInt 64 w.toInt).toInt = some w.toInt
  have hlow : -2 ^ 31 ≤ w.toInt := BitVec.le_toInt w
  have hhigh : w.toInt < 2 ^ 31 := BitVec.toInt_lt
  rw [BitVec.toInt_ofInt, Int.bmod_eq_of_le] <;> omega

theorem Operand.IsVariable.index_eq (h : i.IsVariable t fp number) (hty : number.ty = .i32)
    (hw : a.valueAt number = .ok (.int .i32 w)) :
    (Index.operand i).value t a fp = .ok (IntKind.i32.toInt w) := by
  obtain ⟨offset, ty, size⟩ := number
  subst hty
  obtain ⟨bytes, hread, hdecode⟩ := bind_eq_ok.mp hw
  unfold Index.value
  refine bind_eq_ok.mpr ⟨_, h.place_eq a, ?_⟩
  refine bind_eq_ok.mpr ⟨bytes, hread, bind_eq_ok.mpr ⟨_, hdecode, ?_⟩⟩
  rw [toInt64?_i32]
  rfl

/-- Where the element lies: at the offset that the operators compute. -/
theorem place_element (hxs : xs.IsVariable t fp slot) (hi : i.IsVariable t fp number)
    (hslice : slot.ty = .slice elem) (hnumber : number.ty = .i32)
    (hwidth : elem.elementWidth = .ok width) (hhandle : a.readHandle slot.offset = .ok handle)
    (hw : a.valueAt number = .ok (.int .i32 w)) : (xs.element i).place t a fp =
      a.elementOffset handle (IntKind.i32.toInt w) width >>= fun offset =>
        return ⟨offset, elem, width⟩ := by
  have hsize : elem.size t = .ok width := Ty.size_of_elementWidth hwidth
  rw [Operand.element, Operand.place_append (hxs.place_eq a), hslice]
  unfold followChain followChain
  rw [Access.follow_index_eq, hi.index_eq hnumber hw]
  simp only [Arena.implicit, Arena.element, pure_bind, bind_assoc, Arena.elementOffset, hhandle]
  change (a.objectLength handle >>= fun _ => _) = (a.objectLength handle >>= fun _ => _)
  apply bind_congr
  intro length
  rw [checkIndex]
  split
  · rfl
  · rw [hsize]
    change (elem.size t >>= fun _ => _) = _
    rw [hsize]
    rfl

end Element

section Nodes

variable {m : Machine} {fp : Nat} {n : Node} {input output : Operand} {elem : Ty}
  {ok : Unit → Machine → Prop} {bad : Error → Machine → Prop}

/-- A move whose widths agree. -/
theorem Machine.ends_moves (h : n.Moves m.primitives input output)
    (hwidth : ∀ bytes place, input.bytes m.program.structs m.arena fp = .ok bytes →
      m.place fp output = .ok place → bytes.length = place.size) :
    Ends (executeNode fp n) m ok bad ↔
      Gives (do
        let bytes ← input.bytes m.program.structs m.arena fp
        let place ← m.place fp output
        m.arena.write place.offset bytes)
      (fun arena => ok () { m with work := { m.work with arena } }) (bad · m) := by
  rcases h.operator with hop | ⟨code, name, signature, hop, hcode⟩
  · simp only [executeNode, ends_bind, ends_get, hop, executeBare, h.inputs_eq, h.outputs_eq,
      ends_onArena, ends_update, move, gives_bind]
    refine gives_congr (fun bytes hbytes => ?_) fun _ => Iff.rfl
    refine gives_congr (fun place hplace => ?_) fun _ => Iff.rfl
    rw [if_pos (hwidth bytes place hbytes hplace)]
    rfl
  · have hperforms : n.Performs m.primitives identity [input] [output] :=
      ⟨⟨code, name, signature, hop, hcode⟩, h.inputs_eq, h.outputs_eq⟩
    have hinput : (m.site fp n).operand 0 = .ok input := by
      rw [Site.operand, site, h.inputs_eq]
      rfl
    have houtputs : (m.site fp n).node.outputs = [output] := h.outputs_eq
    rw [ends_performs hperforms]
    simp only [Primitive.execute, identity, Body.run, ends_bind, Workspace.ends_look,
      Workspace.ends_onArena, gives_bind, Site.inputBytes, hinput, gives_ok,
      Site.stage_only houtputs]
    refine gives_congr (fun bytes hbytes => ?_) fun _ => Iff.rfl
    exact (Site.ends_commit_bytes houtputs (hwidth bytes · hbytes)).trans gives_bind

variable {s : Site} {a : Arena} {slot number target value : Place} {k handle width : Nat}
  {w : BitVec IntKind.i32.bits} {xs i o v : Operand}

theorem Site.HasInput.elementWidth_eq (h : s.HasInput 0 slot) (hslice : slot.ty = .slice elem) :
    s.elementWidth a = elem.elementWidth := by
  rw [elementWidth, h.inputTy_eq, hslice]
  rfl

theorem Site.HasInput.elementIndex_eq (h : s.HasInput k number) (hnumber : number.ty = .i32)
    (hw : a.valueAt number = .ok (.int .i32 w)) :
    s.elementIndex a k = .ok (IntKind.i32.toInt w) := by
  have hinput : s.input a k = .ok (.int .i32 w) := by
    rw [h.input_eq (.inl (by rw [hnumber]; rfl)), hw]
  rw [elementIndex, int_eq_ok hinput]
  rfl

namespace Machine

variable {inputs outputs : List Operand}

/-- Reading an element into a variable. -/
theorem ends_read (hn : n.Performs m.primitives (SliceOp.read.primitive elem) inputs [o])
    (hxs : (m.site fp n).HasInput 0 slot) (hslice : slot.ty = .slice elem)
    (hi : (m.site fp n).HasInput 1 number) (hnumber : number.ty = .i32)
    (ho : o.IsVariable m.program.structs fp target) (htarget : target.ty = elem)
    (hwidth : elem.elementWidth = .ok width)
    (hhandle : m.arena.readHandle slot.offset = .ok handle)
    (hw : m.arena.valueAt number = .ok (.int .i32 w)) : Ends (executeNode fp n) m ok bad ↔
      Gives (do
        let offset ← m.arena.elementOffset handle (IntKind.i32.toInt w) width
        let bytes ← m.arena.read offset width
        m.arena.write target.offset bytes)
      (fun arena => ok () { m with work := { m.work with arena } }) (bad · m) := by
  have houtputs : (m.site fp n).node.outputs = [o] := hn.outputs_eq
  have hfound : (m.site fp n).inputHandle m.arena 0 = .ok handle := by
    rw [hxs.inputHandle_eq (by rw [hslice]; rfl), hhandle]
  have hsize : target.size = width := ho.size_of_elementWidth (htarget ▸ hwidth)
  rw [ends_performs hn]
  simp only [Primitive.execute, SliceOp.primitive, SliceOp.body, SliceOp.readBody, Body.run,
    ends_bind, Workspace.ends_look, Workspace.ends_onArena, gives_bind, work_arena,
    hxs.elementWidth_eq hslice, hwidth, hfound, hi.elementIndex_eq hnumber hw, gives_ok,
    Site.stage_only houtputs]
  refine gives_congr (fun offset _ => ?_) fun _ => Iff.rfl
  refine gives_congr (fun bytes hbytes => ?_) fun _ => Iff.rfl
  obtain ⟨-, hlen, -⟩ := Arena.gives_read.value hbytes
  rw [Site.ends_commit_variable houtputs ho (hlen.trans hsize.symm)]
  rfl

/-- Writing the bytes of a variable to an element. -/
theorem ends_write (hn : n.Performs m.primitives (SliceOp.write.primitive elem) inputs outputs)
    (hxs : (m.site fp n).HasInput 0 slot) (hslice : slot.ty = .slice elem)
    (hi : (m.site fp n).HasInput 1 number) (hnumber : number.ty = .i32)
    (hv : (m.site fp n).HasInput 2 value) (hvalue : value.ty = elem)
    (hwidth : elem.elementWidth = .ok width)
    (hhandle : m.arena.readHandle slot.offset = .ok handle)
    (hw : m.arena.valueAt number = .ok (.int .i32 w)) : Ends (executeNode fp n) m ok bad ↔
      Gives (do
        let bytes ← m.arena.read value.offset width
        let offset ← m.arena.elementOffset handle (IntKind.i32.toInt w) width
        m.arena.write offset bytes)
      (fun arena => ok () { m with work := { m.work with arena } }) (bad · m) := by
  have hfound : (m.site fp n).inputHandle m.arena 0 = .ok handle := by
    rw [hxs.inputHandle_eq (by rw [hslice]; rfl), hhandle]
  have hsize : value.size = width := hv.size_of_elementWidth (hvalue ▸ hwidth)
  rw [ends_performs hn]
  simp only [Primitive.execute, SliceOp.primitive, SliceOp.body, SliceOp.writeBody, Body.run,
    ends_bind, Workspace.ends_look, Workspace.ends_onArena, gives_bind, work_arena,
    hxs.elementWidth_eq hslice, hwidth, hfound, hi.elementIndex_eq hnumber hw, gives_ok,
    hv.inputBytes_eq, hsize]
  refine gives_congr (fun bytes hbytes => ?_) fun _ => Iff.rfl
  obtain ⟨-, hlen, -⟩ := Arena.gives_read.value hbytes
  rw [if_neg (not_not.mpr hlen)]
  simp only [ends_bind, Workspace.ends_look, Workspace.ends_onArena, ends_update, ends_pure,
    work_arena, Site.ends_commit_noOutputs]
  rfl

/-- What the variables of an element access hold: a handle and a number. -/
theorem exists_handle_number (hxs : m.HasVariable fp xs slot) (hslice : slot.ty = .slice elem)
    (hi : m.HasVariable fp i number) (hnumber : number.ty = .i32) :
    ∃ handle w, m.arena.readHandle slot.offset = .ok handle ∧
      m.arena.valueAt number = .ok (.int .i32 w) := by
  have hsize : slot.size = 4 := hxs.size_of_elementWidth (hslice ▸ rfl)
  have hword : number.size = IntKind.i32.bytes := hi.size_of_elementWidth (hnumber ▸ rfl)
  obtain ⟨w, hw⟩ := Arena.valueAt_int hnumber hword hi.stop_le
  have hstop := hxs.stop_le
  rw [hsize] at hstop
  obtain ⟨bytes, hread, -⟩ := Arena.exists_read hstop
  exact ⟨_, w, bind_eq_ok.mpr ⟨bytes, hread, rfl⟩, hw⟩

end Machine

end Nodes

/-- Reading or writing an element by its operator is the same as moving it from or to where a chain
with that index leads, for any memory and any index: the same memory is left, or the same error. -/
theorem indexing_agrees {m : Machine} {fp : Nat} {elem : Ty} {xs i x : Operand}
    {slot number item : Place} (helem : elem ∈ SliceOp.elementTypes)
    (hxs : m.HasVariable fp xs slot) (hslice : slot.ty = .slice elem)
    (hi : m.HasVariable fp i number) (hnumber : number.ty = .i32)
    (hx : m.HasVariable fp x item) (hitem : item.ty = elem) :
    (∀ n n', n.Performs m.primitives (SliceOp.read.primitive elem) [xs, i] [x] →
      n'.Moves m.primitives (xs.element i) x →
        Machine.executeNode fp n m = Machine.executeNode fp n' m) ∧
    (∀ n n', n.Performs m.primitives (SliceOp.write.primitive elem) [xs, i, x] [] →
      n'.Moves m.primitives x (xs.element i) →
        Machine.executeNode fp n m = Machine.executeNode fp n' m) := by
  obtain ⟨handle, w, hhandle, hw⟩ := Machine.exists_handle_number hxs hslice hi hnumber
  obtain ⟨-, -, width, hwidth⟩ := Primitive.elementType_facts helem
  have hplace := place_element hxs.toIsVariable hi.toIsVariable hslice hnumber hwidth hhandle hw
  have hvalue : (xs.element i).byReference = false := hxs.byValue
  have hsize : item.size = width := hx.size_of_elementWidth (hitem ▸ hwidth)
  have hmoved : (xs.element i).bytes m.program.structs m.arena fp =
      m.arena.elementOffset handle (IntKind.i32.toInt w) width >>= (m.arena.read · width) := by
    rw [Operand.bytes, hplace, hvalue, bind_assoc]
    rfl
  constructor
  · intro n n' hn hn'
    apply eq_of_ends_iff
    intro ok bad
    have hxs' : (m.site fp n).HasInput 0 slot := hxs.hasInput (by rw [hn.inputs_eq]; rfl)
    have hi' : (m.site fp n).HasInput 1 number := hi.hasInput (by rw [hn.inputs_eq]; rfl)
    rw [Machine.ends_read hn hxs' hslice hi' hnumber hx.toIsVariable hitem hwidth hhandle hw,
      Machine.ends_moves hn', hmoved, bind_assoc]
    · rw [show m.place fp x = .ok item from hx.place_eq _]
      rfl
    · intro bytes place hbytes hx'
      cases hx'.symm.trans (hx.place_eq _)
      obtain ⟨offset, -, hread⟩ := bind_eq_ok.mp (hmoved.symm.trans hbytes)
      obtain ⟨-, hlen, -⟩ := Arena.gives_read.value hread
      rw [hlen, hsize]
  · intro n n' hn hn'
    apply eq_of_ends_iff
    intro ok bad
    have hxs' : (m.site fp n).HasInput 0 slot := hxs.hasInput (by rw [hn.inputs_eq]; rfl)
    have hi' : (m.site fp n).HasInput 1 number := hi.hasInput (by rw [hn.inputs_eq]; rfl)
    have hx' : (m.site fp n).HasInput 2 item := hx.hasInput (by rw [hn.inputs_eq]; rfl)
    rw [Machine.ends_write hn hxs' hslice hi' hnumber hx' hitem hwidth hhandle hw,
      Machine.ends_moves hn', hx.bytes_eq, hsize,
      show m.place fp (xs.element i) = _ from hplace]
    · simp only [bind_assoc, pure_bind]
    · intro bytes place hbytes hplace'
      obtain ⟨offset, -, heq⟩ := bind_eq_ok.mp (hplace.symm.trans hplace')
      cases heq
      rw [hx.bytes_eq] at hbytes
      obtain ⟨-, hlen, -⟩ := Arena.gives_read.value hbytes
      rw [hlen, hsize]

/-- A frame at 8 in which `xs` holds two numbers, `i` the given index and `x` a number. -/
def pairMachine (index : UInt8) : Machine where
  program := {}
  primitives := { entries := [SliceOp.read.primitive .i16, SliceOp.write.primitive .i16, identity] }
  options := {}
  work := {
    arena := {
      image := #[0, 0, 0, 0, 0, 0, 0, 0, 24, 0, 0, 0, index, 0, 0, 0, 7, 0, 0, 0, 0, 0, 0, 0,
        2, 0, 0, 0, 5, 0, 9, 0]
      stackStart := 8, stackEnd := 24, capacity := 32, limit := 32 }
    random := .ofSeed 0 }
  stack := { maxDepth := 1 }

def pairSlice : Operand := { name := "xs", ty := .slice .i16, storage := .frame 0 }

def pairIndex : Operand := { name := "i", ty := .i32, storage := .frame 4 }

def pairItem : Operand := { name := "x", ty := .i16, storage := .frame 8 }

/-- Reads an element of the pair by the operator. -/
def readPair : Node where
  operator := some (.native 0 "[]i16.read" (SliceOp.read.signature .i16))
  inputs := [pairSlice, pairIndex]
  outputs := [pairItem]

/-- Writes an element of the pair by the operator. -/
def writePair : Node where
  operator := some (.native 1 "[]i16.write" (SliceOp.write.signature .i16))
  inputs := [pairSlice, pairIndex, pairItem]

/-- Copies one operand to another. -/
def copyPair (input output : Operand) : Node where
  operator := some (.native 2 "identity" identity.signature)
  inputs := [input]
  outputs := [output]

theorem indexing_agrees_pairMachine :
    (∃ m, Machine.executeNode 8 readPair (pairMachine 1) = .ok () m ∧
      Machine.executeNode 8 (copyPair (pairSlice.element pairIndex) pairItem) (pairMachine 1) =
        .ok () m ∧ m.arena.read 16 2 = .ok [9, 0]) ∧
    ∃ m, Machine.executeNode 8 writePair (pairMachine 255) = .error (.indexOutOfRange 255 2) m ∧
      Machine.executeNode 8 (copyPair pairItem (pairSlice.element pairIndex)) (pairMachine 255) =
        .error (.indexOutOfRange 255 2) m := by
  have hsize : ∀ index, (pairMachine index).arena.heapPointer = 32 := fun _ => rfl
  have hslice : ∀ index, (pairMachine index).HasVariable 8 pairSlice ⟨8, .slice .i16, 4⟩ :=
    fun index => ⟨.of_plain rfl rfl rfl rfl, by rw [hsize]; decide⟩
  have hindex : ∀ index, (pairMachine index).HasVariable 8 pairIndex ⟨12, .i32, 4⟩ :=
    fun index => ⟨.of_plain rfl rfl rfl rfl, by rw [hsize]; decide⟩
  have hitem : ∀ index, (pairMachine index).HasVariable 8 pairItem ⟨16, .i16, 2⟩ :=
    fun index => ⟨.of_plain rfl rfl rfl rfl, by rw [hsize]; decide⟩
  have hread : ∀ index, readPair.Performs (pairMachine index).primitives
      (SliceOp.read.primitive .i16) [pairSlice, pairIndex] [pairItem] :=
    fun index => ⟨⟨0, _, _, rfl, rfl⟩, rfl, rfl⟩
  have hwrite : ∀ index, writePair.Performs (pairMachine index).primitives
      (SliceOp.write.primitive .i16) [pairSlice, pairIndex, pairItem] [] :=
    fun index => ⟨⟨1, _, _, rfl, rfl⟩, rfl, rfl⟩
  have hcopy : ∀ index input output, (copyPair input output).Moves (pairMachine index).primitives
      input output := fun index input output => ⟨rfl, rfl, .inr ⟨2, _, _, rfl, rfl⟩⟩
  constructor
  · obtain ⟨hagrees, -⟩ :=
      indexing_agrees (by decide) (hslice 1) rfl (hindex 1) rfl (hitem 1) rfl
    exact ⟨_, rfl, (hagrees _ _ (hread 1) (hcopy 1 _ _)).symm, rfl⟩
  · obtain ⟨-, hagrees⟩ :=
      indexing_agrees (by decide) (hslice 255) rfl (hindex 255) rfl (hitem 255) rfl
    exact ⟨_, rfl, (hagrees _ _ (hwrite 255) (hcopy 255 _ _)).symm⟩

end FlatMachine
