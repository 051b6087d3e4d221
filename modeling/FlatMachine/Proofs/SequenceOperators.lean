import FlatMachine.Proofs.SequenceExecution

/-!
# Slice and string operators

On variables the operators on slices and strings compute the functions on lists and texts that they
are named for: appending an element, concatenation, the length, an element, an updated list, a list
whose front is overwritten, and equality. What is read of the output, or of the slice that is
written to, is the function of what was read of the inputs, also when the output is an input.
-/

namespace FlatMachine

open FlatMachine.Action

/-- The slot holds the handle of a well-formed text. -/
def Arena.HoldsText (a : Arena) (slot : Place) : Prop :=
  ∃ handle text, a.readHandle slot.offset = .ok handle ∧ a.payload handle 1 = .ok (Utf8.encode text)

/-- Where a node leaves its result: in its output, or without one in its first input. -/
def Node.target? (n : Node) : Option Operand := (n.outputs ++ n.inputs).head?

/-- The operators on slices of an element type, and those on strings. -/
inductive SequenceOp where
  | slice (op : SliceOp) (elem : Ty)
  | strLen | strConcat | strEq

namespace SequenceOp

def primitive : SequenceOp → Primitive
  | slice op elem => op.primitive elem
  | strLen => stringPrimitives[0]
  | strConcat => stringPrimitives[1]
  | strEq => stringPrimitives[2]

/-- The operator comes with the machine. -/
def Registered : SequenceOp → Prop
  | slice _ elem => elem ∈ SliceOp.elementTypes
  | _ => True

/-- A length that fits in 32 bits. -/
def length? (n : Nat) : Option Value := if n < 2 ^ 31 then some (.i32 n) else none

/-- The function that the operator computes; it has no result for an index out of range or a length
that is too large. -/
def result? : SequenceOp → List Value → Option Value
  | slice .len _, [.slice items] => length? items.length
  | slice .append _, [.slice items, item] => some (.slice (items ++ [item]))
  | slice .concat _, [.slice front, .slice back] => some (.slice (front ++ back))
  | slice .copy _, [.slice room, .slice given] =>
    some (.slice (given.take room.length ++ room.drop given.length))
  | slice .read _, [.slice items, .int .i32 index] =>
    if 0 ≤ index.toInt then items[index.toInt.toNat]? else none
  | slice .write _, [.slice items, .int .i32 index, item] =>
    if 0 ≤ index.toInt ∧ index.toInt < items.length then
      some (.slice (items.set index.toInt.toNat item))
    else none
  | strLen, [.str text] => length? text.utf8ByteSize
  | strConcat, [.str front, .str back] => some (.str (front ++ back))
  | strEq, [.str x, .str y] => some (.bool (x == y))
  | _, _ => none

/-- What the operator sees of an operand: for those on slices, a string is an element and counts as
its handle. -/
def view (op : SequenceOp) (m : Machine) (fp : Nat) (o : Operand) : Except Error Value := do
  let place ← m.place fp o
  match op, place.ty with
  | slice .., .str => return .pointer (← m.arena.readHandle place.offset)
  | _, _ => m.value fp o

/-- The count and width of the elements of the object that the operator makes for its result. -/
def object? : SequenceOp → Value → Option (Nat × Nat)
  | slice .append elem, .slice items | slice .concat elem, .slice items =>
    elem.elementWidth.toOption.map (items.length, ·)
  | strConcat, .str text => some (text.utf8ByteSize, 1)
  | _, _ => none

/-- An argument: the slot of a variable and what the operator sees in it. -/
structure Argument where
  slot : Place
  value : Value

/-- The node applies the operator to variables of the types that it asks for. What they hold can be
read, and the object of the first one, if it has one, does not lie over its slot; the length of a
text is taken of valid UTF-8. -/
structure Applies (op : SequenceOp) (m : Machine) (fp : Nat) (n : Node) (args : List Argument)
    (outs : List Place) : Prop where
  registered : op.Registered
  performs : n.Performs m.primitives op.primitive n.inputs n.outputs
  inputs : List.Forall₂ (fun o arg => m.HasVariable fp o arg.slot ∧
    op.view m fp o = .ok arg.value) n.inputs args
  outputs : List.Forall₂ (m.HasVariable fp) n.outputs outs
  inputs_ty : args.map (·.slot.ty) = op.primitive.signature.inputs.map (·.ty)
  outputs_ty : outs.map (·.ty) = op.primitive.signature.outputs.map (·.ty)
  apart : ∀ slot ∈ (args.map (·.slot)).head?, ∀ i, slot.Covers i → ¬ m.arena.ObjectCovers slot i
  valid : op = strLen → ∀ slot ∈ args.map (·.slot), m.arena.HoldsText slot

/-- The memory suffices for the object of the result. -/
def HasRoom (op : SequenceOp) (a : Arena) (result : Value) : Prop :=
  ∀ count width, op.object? result = some (count, width) →
    a.HasRoom count width ∧ a.heapPointer ≤ Size.maxHandle

/-- What the operator sees in a slot. -/
def seen (op : SequenceOp) (a : Arena) (slot : Place) : Except Error Value :=
  match op, slot.ty with
  | slice .., .str => return .pointer (← a.readHandle slot.offset)
  | _, _ => a.valueAt slot

/-- The input is a variable of the type, and the operator sees the value in it. -/
structure Sees (op : SequenceOp) (m : Machine) (fp : Nat) (n : Node) (i : Nat) (slot : Place)
    (ty : Ty) (v : Value) : Prop where
  hasInput : (m.site fp n).HasInput i slot
  ty_eq : slot.ty = ty
  seen_eq : op.seen m.arena slot = .ok v
  stop_le : slot.offset + slot.size ≤ m.arena.heapPointer

section Seeing

variable {op : SequenceOp} {m : Machine} {fp : Nat} {n : Node} {args : List Argument}
  {outs : List Place} {i width : Nat} {slot : Place} {elem ty : Ty} {v : Value} {o : Operand}
  {a : Arena} {bytes : Bytes}

theorem view_eq (h : o.IsVariable m.program.structs fp slot) :
    op.view m fp o = op.seen m.arena slot := by
  have hvalue : m.value fp o = m.arena.valueAt slot := h.value_eq
  rw [view, show m.place fp o = .ok slot from h.place_eq _, hvalue]
  rfl

theorem seen_eq_valueAt (hty : slot.ty ≠ .str) : op.seen a slot = a.valueAt slot := by
  unfold seen
  split
  · exact absurd ‹_› hty
  · rfl

/-- An element in a variable, as the operators on slices see it. -/
theorem seen_element {slices : SliceOp} (helem : elem ∈ SliceOp.elementTypes)
    (hwidth : elem.elementWidth = .ok width) (hty : slot.ty = elem) (hsize : slot.size = width)
    (hread : a.read slot.offset width = .ok bytes) :
    (slice slices ty).seen a slot = elem.elementView.decodeWord bytes := by
  obtain ⟨offset, ty', size⟩ := slot
  subst hty hsize
  obtain ⟨-, hscalar | rfl, -⟩ := Primitive.elementType_facts helem
  · have hword := Ty.wordWidth?_elementView hwidth
    have hview : ty'.elementView = ty' := by cases ty' <;> first | rfl | cases hscalar
    rw [hview] at hword ⊢
    have hobject : ty'.isObject = false := by cases ty' <;> first | rfl | cases hscalar
    have hstr : ty' ≠ .str := by
      rintro rfl
      cases hscalar
    rw [seen_eq_valueAt hstr, Arena.valueAt_word hobject, hread]
    exact Ty.decode_eq_decodeWord hword
  · cases hwidth
    obtain ⟨-, hlen, -⟩ := Arena.gives_read.value hread
    have hfour : bytes.length = Ty.handleWidth := hlen
    change (a.readHandle offset >>= fun handle => pure (Value.pointer handle)) =
      (takeWord bytes Ty.handleWidth (.pointer .undefined) >>= fun n => pure (Value.pointer n))
    rw [takeWord_of_length hfour, Arena.readHandle, show a.read offset 4 = _ from hread]
    rfl

/-- An argument at a position of the type that the signature has there. -/
theorem Applies.sees (h : op.Applies m fp n args outs) (hv : (args.map (·.value))[i]? = some v)
    (hty : (op.primitive.signature.inputs.map (·.ty))[i]? = some ty) :
    ∃ slot, (args.map (·.slot))[i]? = some slot ∧ op.Sees m fp n i slot ty v := by
  rw [← h.inputs_ty] at hty
  obtain ⟨arg, harg, rfl⟩ : ∃ arg, args[i]? = some arg ∧ arg.value = v := by simpa using hv
  obtain ⟨o, ho, hvariable, hview⟩ := exists_getElem?_of_forall₂ h.inputs harg
  have htype : arg.slot.ty = ty := by simpa [harg] using hty
  exact ⟨arg.slot, by simp [harg], hvariable.hasInput ho, htype,
    (view_eq hvariable.toIsVariable).symm.trans hview, hvariable.stop_le⟩

theorem Applies.output (h : op.Applies m fp n args outs)
    (hty : op.primitive.signature.outputs.map (·.ty) = [ty]) : ∃ out target,
      n.Performs m.primitives op.primitive n.inputs [out] ∧ outs = [target] ∧
        m.HasVariable fp out target ∧ target.ty = ty := by
  obtain ⟨target, rfl⟩ : ∃ target, outs = [target] :=
    List.length_eq_one_iff.mp (by simpa using congrArg List.length (h.outputs_ty.trans hty))
  obtain ⟨out, hout, hvariable⟩ := exists_of_forall₂_singleton h.outputs.flip
  refine ⟨out, target, ⟨h.performs.operator, rfl, hout⟩, rfl, hvariable, ?_⟩
  simpa using h.outputs_ty.trans hty

theorem Applies.target (h : op.Applies m fp n args outs) (ho : n.target? = some o) :
    ∃ slot, (outs ++ args.map (·.slot))[0]? = some slot ∧
      o.IsVariable m.program.structs fp slot := by
  have houts : List.Forall₂ (·.IsVariable m.program.structs fp) n.outputs outs :=
    h.outputs.imp fun _ _ hvariable => hvariable.toIsVariable
  have hins : List.Forall₂ (·.IsVariable m.program.structs fp) n.inputs (args.map (·.slot)) :=
    List.forall₂_map_right_iff.mpr (h.inputs.imp fun _ _ hinput => hinput.1.toIsVariable)
  rw [Node.target?, List.head?_eq_getElem?] at ho
  exact exists_getElem?_of_forall₂ (List.rel_append houts hins).flip ho

end Seeing

section Computing

variable {m : Machine} {fp : Nat} {n : Node} {args : List Argument} {outs : List Place}
  {i width : Nat} {slot : Place} {elem : Ty} {v item r : Value} {op : SequenceOp} {slices : SliceOp}
  {x y : String} {items front back room given : List Value} {index : BitVec IntKind.i32.bits}

theorem seen_slice {a : Arena} (hty : slot.ty = .slice elem) : op.seen a slot = .ok v ↔
    ∃ handle o, a.HoldsObject slot handle o ∧ (Ty.slice elem).ReadsAs o v := by
  rw [seen_eq_valueAt (by rw [hty]; exact nofun), Arena.valueAt_object (by rw [hty]; rfl), hty]

/-- What is seen as a slice is an object whose elements spell the items. -/
theorem Sees.listing (h : op.Sees m fp n i slot (.slice elem) (.slice items))
    (hwidth : elem.elementWidth = .ok width) : ∃ handle elements,
      (m.site fp n).inputHandle m.arena i = .ok handle ∧
        m.arena.HoldsObject slot handle ⟨width, elements⟩ ∧ elem.Spells elements items := by
  obtain ⟨handle, o, hholds, hreads⟩ := (seen_slice h.ty_eq).mp h.seen_eq
  cases hreads with
  | items hwidth' hspells =>
    cases hwidth.symm.trans hwidth'
    have hhandle := h.hasInput.inputHandle_eq (a := m.arena) (by rw [h.ty_eq]; rfl)
    exact ⟨handle, _, hhandle.trans hholds.handle_eq, hholds, hspells⟩

theorem Sees.elementWidth_eq (h : op.Sees m fp n 0 slot (.slice elem) v)
    (hwidth : elem.elementWidth = .ok width) : (m.site fp n).elementWidth m.arena = .ok width :=
  (h.hasInput.elementWidth_eq h.ty_eq).trans hwidth

theorem Sees.element (h : (slice slices elem).Sees m fp n i slot elem v)
    (helem : elem ∈ SliceOp.elementTypes) (hwidth : elem.elementWidth = .ok width) :
    ∃ element, element.length = width ∧ m.arena.read slot.offset width = .ok element ∧
      (m.site fp n).inputBytes m.arena i = .ok element ∧
        elem.elementView.decodeWord element = .ok v := by
  have hsize : slot.size = width := h.hasInput.size_of_elementWidth (h.ty_eq ▸ hwidth)
  have hstop := h.stop_le
  rw [hsize] at hstop
  obtain ⟨element, hread, hlen⟩ := Arena.exists_read hstop
  have hbytes := h.hasInput.inputBytes_eq (a := m.arena)
  rw [hsize, hread] at hbytes
  have hseen := h.seen_eq
  rw [seen_element helem hwidth h.ty_eq hsize hread] at hseen
  exact ⟨element, hlen, hread, hbytes, hseen⟩

theorem Sees.number (h : op.Sees m fp n i slot .i32 v) : m.arena.valueAt slot = .ok v := by
  rw [← seen_eq_valueAt (by rw [h.ty_eq]; exact nofun), h.seen_eq]

theorem Sees.text (h : op.Sees m fp n i slot .str (.str x))
    (hop : op.seen m.arena slot = m.arena.valueAt slot) :
    (m.site fp n).str m.arena i = .ok x := by
  have hinput : (m.site fp n).input m.arena i = .ok (.str x) := by
    rw [h.hasInput.input_eq (.inr (by rw [h.ty_eq]; rfl)), ← hop, h.seen_eq]
  rw [Site.str, hinput]
  rfl

/-- A well-formed text has as many bytes as its object has elements. -/
theorem Sees.bytes (h : op.Sees m fp n i slot .str (.str x))
    (hop : op.seen m.arena slot = m.arena.valueAt slot) (hvalid : m.arena.HoldsText slot) :
    ∃ handle elements, (m.site fp n).inputHandle m.arena i = .ok handle ∧
      m.arena.HasObject handle ⟨1, elements⟩ ∧ elements.length = x.utf8ByteSize := by
  have hty := h.ty_eq
  have hvalue := hop.symm.trans h.seen_eq
  rw [Arena.valueAt_object (by rw [hty]; rfl), hty] at hvalue
  obtain ⟨handle, o, hholds, hreads⟩ := hvalue
  obtain ⟨handle', chars, hhandle, hpayload⟩ := hvalid
  cases hhandle.symm.trans hholds.handle_eq
  cases hreads with
  | text elements =>
    have hflat : elements.flatten = Utf8.encode chars :=
      Except.ok.inj (hholds.hasObject.shows.2.symm.trans hpayload)
    have hlen : elements.flatten.length = elements.length := by
      rw [length_flatten_of_forall hholds.hasObject.sound.length_eq, Nat.mul_one]
    have hhandle := h.hasInput.inputHandle_eq (a := m.arena) (by rw [hty]; rfl)
    refine ⟨handle, elements, hhandle.trans hholds.handle_eq, hholds.hasObject, ?_⟩
    rw [← hlen, hflat, Utf8.decodeText_encode, Utf8.length_encode]

theorem seen_of_holds {a : Arena} {handle : Nat} {elements : List Bytes}
    (hty : slot.ty = .slice elem) (hwidth : elem.elementWidth = .ok width)
    (hholds : a.HoldsObject slot handle ⟨width, elements⟩) (hspells : elem.Spells elements items) :
    op.seen a slot = .ok (.slice items) :=
  (seen_slice hty).mpr ⟨handle, _, hholds, .items hwidth hspells⟩

/-- The operator leaves the result in the output, or in the slice that it writes to. -/
def Computes (op : SequenceOp) (m : Machine) (fp : Nat) (n : Node) (args : List Argument)
    (outs : List Place) (r : Value) : Prop :=
  Ends (Machine.executeNode fp n) m
    (fun _ m' => ∀ slot, (outs ++ args.map (·.slot))[0]? = some slot →
      op.seen m'.arena slot = .ok r) (fun _ _ => False)

theorem HasRoom.grown {a : Arena} (hroom : (slice slices elem).HasRoom a (.slice items))
    (hop : slices = .append ∨ slices = .concat) (hwidth : elem.elementWidth = .ok width) :
    a.HasRoom items.length width ∧ a.heapPointer ≤ Size.maxHandle := by
  apply hroom
  rcases hop with rfl | rfl <;> rw [object?, hwidth] <;> rfl

theorem computes_append (h : (slice .append elem).Applies m fp n args outs)
    (hvalues : args.map (·.value) = [.slice items, item])
    (hroom : (slice .append elem).HasRoom m.arena (.slice (items ++ [item]))) :
    (slice .append elem).Computes m fp n args outs (.slice (items ++ [item])) := by
  obtain ⟨-, -, width, hwidth⟩ := Primitive.elementType_facts h.registered
  obtain ⟨out, target, hn, rfl, hout, htarget⟩ := h.output rfl
  obtain ⟨slot, -, hslice⟩ := h.sees (i := 0) (by rw [hvalues]; rfl) rfl
  obtain ⟨place, -, hitem⟩ := h.sees (i := 1) (by rw [hvalues]; rfl) rfl
  obtain ⟨handle, old, hhandle, hholds, hspells⟩ := hslice.listing hwidth
  obtain ⟨element, hlen, -, hbytes, hdecode⟩ := hitem.element h.registered hwidth
  have hheader : target.size = headerWidth := hout.size_of_elementWidth (htarget ▸ rfl)
  obtain ⟨hroom, hmax⟩ := hroom.grown (.inl rfl) hwidth
  rw [List.length_append, ← hspells.length_eq] at hroom
  apply (Machine.ends_append hn (hslice.elementWidth_eq hwidth) hhandle hholds.hasObject hbytes hlen
    hout hheader hroom hmax).imp
  rintro - m' ⟨made, hmade⟩ _ ⟨⟩
  exact seen_of_holds htarget hwidth hmade (List.rel_append hspells (.cons hdecode .nil))

theorem computes_concat (h : (slice .concat elem).Applies m fp n args outs)
    (hvalues : args.map (·.value) = [.slice front, .slice back])
    (hroom : (slice .concat elem).HasRoom m.arena (.slice (front ++ back))) :
    (slice .concat elem).Computes m fp n args outs (.slice (front ++ back)) := by
  obtain ⟨-, -, width, hwidth⟩ := Primitive.elementType_facts h.registered
  obtain ⟨out, target, hn, rfl, hout, htarget⟩ := h.output rfl
  obtain ⟨slot, -, hfront⟩ := h.sees (i := 0) (by rw [hvalues]; rfl) rfl
  obtain ⟨place, -, hback⟩ := h.sees (i := 1) (by rw [hvalues]; rfl) rfl
  obtain ⟨first, ahead, hfirst, hholds, hspells⟩ := hfront.listing hwidth
  obtain ⟨second, behind, hsecond, hholds', hspells'⟩ := hback.listing hwidth
  have hheader : target.size = headerWidth := hout.size_of_elementWidth (htarget ▸ rfl)
  obtain ⟨hroom, hmax⟩ := hroom.grown (.inr rfl) hwidth
  rw [List.length_append, ← hspells.length_eq, ← hspells'.length_eq] at hroom
  apply (Machine.ends_concat hn (hfront.elementWidth_eq hwidth) hfirst hholds.hasObject hsecond
    hholds'.hasObject hout hheader hroom hmax).imp
  rintro - m' ⟨made, hmade⟩ _ ⟨⟩
  exact seen_of_holds htarget hwidth hmade (List.rel_append hspells hspells')

theorem computes_len (h : (slice .len elem).Applies m fp n args outs)
    (hvalues : args.map (·.value) = [.slice items]) (hfits : items.length < 2 ^ 31) :
    (slice .len elem).Computes m fp n args outs (.i32 items.length) := by
  obtain ⟨-, -, width, hwidth⟩ := Primitive.elementType_facts h.registered
  obtain ⟨out, target, hn, rfl, hout, htarget⟩ := h.output rfl
  obtain ⟨slot, -, hslice⟩ := h.sees (i := 0) (by rw [hvalues]; rfl) rfl
  obtain ⟨handle, old, hhandle, hholds, hspells⟩ := hslice.listing hwidth
  rw [← hspells.length_eq] at hfits ⊢
  apply (Machine.ends_length rfl hn hhandle hholds.hasObject hfits hout htarget).imp
  rintro - m' hvalue _ ⟨⟩
  exact (seen_eq_valueAt (by rw [htarget]; exact nofun)).trans hvalue

theorem computes_read (h : (slice .read elem).Applies m fp n args outs)
    (hvalues : args.map (·.value) = [.slice items, .int .i32 index])
    (hpos : 0 ≤ index.toInt) (hitem : items[index.toInt.toNat]? = some item) :
    (slice .read elem).Computes m fp n args outs item := by
  obtain ⟨-, -, width, hwidth⟩ := Primitive.elementType_facts h.registered
  obtain ⟨out, target, hn, rfl, hout, htarget⟩ := h.output rfl
  obtain ⟨slot, -, hslice⟩ := h.sees (i := 0) (by rw [hvalues]; rfl) rfl
  obtain ⟨number, -, hindex⟩ := h.sees (i := 1) (by rw [hvalues]; rfl) rfl
  obtain ⟨handle, old, -, hholds, hspells⟩ := hslice.listing hwidth
  obtain ⟨element, helement, hdecode⟩ := exists_getElem?_of_forall₂ hspells hitem
  obtain ⟨offset, hoffset, hread⟩ := hholds.hasObject.read_element hpos helement
  obtain ⟨-, hlen, -⟩ := Arena.gives_read.value hread
  have hsize : target.size = width := hout.size_of_elementWidth (htarget ▸ hwidth)
  have hstop := hout.stop_le
  rw [Computes, Machine.ends_read hn hslice.hasInput hslice.ty_eq hindex.hasInput hindex.ty_eq
    hout.toIsVariable htarget hwidth hholds.handle_eq hindex.number]
  simp only [gives_bind]
  rw [show m.arena.elementOffset handle (IntKind.i32.toInt index) width = .ok offset from hoffset,
    gives_ok, hread, gives_ok]
  apply Arena.gives_write_stores.mono ?_ fun _ hlt => by omega
  rintro c ⟨hchanged, hstores⟩ _ ⟨⟩
  have hback : c.read target.offset width = .ok element := by
    rw [← hlen]
    exact hstores.read (by rw [hchanged.heapPointer_eq]; omega)
  exact (seen_element h.registered hwidth htarget hsize hback).trans hdecode

theorem Registered.shipped (h : op.Registered) : op.primitive.Shipped := by
  have hstring : ∀ p ∈ stringPrimitives, p.Shipped := fun p hp =>
    List.mem_append_left _ (Primitive.Family.string hp).mem_library
  cases op with
  | slice op elem => exact shipped_slice op h
  | strLen | strConcat | strEq => exact hstring _ (by simp [primitive, stringPrimitives])

/-- The elements that an operator may change in place belong to the object of its first input. -/
theorem Sees.objectCovers {a : Arena} (h : op.Sees m fp n 0 slot (.slice elem) v) {k : Nat}
    (hcovers : (m.site fp n).InputCovers a k) : a.ObjectCovers slot k := by
  obtain ⟨handle, width, hhandle, hwidth, count, hcount, hle, hlt⟩ := hcovers
  rw [h.hasInput.inputHandle_eq (by rw [h.ty_eq]; rfl)] at hhandle
  rw [h.hasInput.elementWidth_eq h.ty_eq] at hwidth
  refine ⟨handle, count, width, ?_, hhandle, ?_, hcount, by omega, hlt⟩
  · rw [h.ty_eq]
    exact Ty.objectWidth?_of_elementWidth hwidth
  · rintro rfl
    cases hcount
    omega

/-- The handle stays where it is when only elements of its object change. -/
theorem Sees.readHandle_kept {b : Arena} {handle : Nat}
    (h : op.Sees m fp n 0 slot (.slice elem) v)
    (hhandle : m.arena.readHandle slot.offset = .ok handle)
    (hapart : ∀ i, slot.Covers i → ¬ m.arena.ObjectCovers slot i)
    (hheap : m.arena.heapPointer ≤ b.heapPointer)
    (hchanges : m.arena.ChangesOnly b ((m.site fp n).InputCovers m.arena)) :
    b.readHandle slot.offset = .ok handle := by
  have hsize : slot.size = 4 := h.hasInput.size_of_elementWidth (h.ty_eq ▸ rfl)
  have hstop := h.stop_le
  rw [hsize] at hstop
  rw [Arena.readHandle, Arena.read_eq_of_inside hstop hheap]
  · exact hhandle
  · intro i hle hlt
    refine hchanges.getElem?_eq (by omega) fun hcovers => ?_
    exact hapart i ⟨hle, hsize ▸ hlt⟩ (h.objectCovers hcovers)

/-- An operator that only changes elements of the slice that is its first input. -/
theorem computes_of_actsInPlace {handle : Nat} {new : List Bytes}
    (h : (slice slices elem).Applies m fp n args outs)
    (hplace : (slices.primitive elem).ActsInPlace) (houts : outs = [])
    (hslot : (args.map (·.slot))[0]? = some slot)
    (hslice : (slice slices elem).Sees m fp n 0 slot (.slice elem) v)
    (hhandle : m.arena.readHandle slot.offset = .ok handle)
    (hwidth : elem.elementWidth = .ok width) (hspells : elem.Spells new items)
    (hends : Ends (Machine.executeNode fp n) m
      (fun _ m' => m'.arena.HasObject handle ⟨width, new⟩) (fun _ _ => False)) :
    (slice slices elem).Computes m fp n args outs (.slice items) := by
  subst houts
  have hkeeps := h.registered.shipped.contained.keepsSegments
  have hapart := h.apart slot (by rwa [List.head?_eq_getElem?])
  refine ends_iff.mpr ⟨fun _ m' hrun => ?_, fun _ _ hrun => hends.failure hrun⟩
  obtain ⟨-, -, -, hchanges⟩ := (Machine.ends_actsInPlace hplace h.performs).value hrun
  have hheap := ((Machine.keepsSegments_performs hkeeps h.performs).value hrun).heapPointer_le
  have hkept := hslice.readHandle_kept hhandle hapart hheap hchanges
  rintro _ hslot'
  cases hslot.symm.trans hslot'
  exact seen_of_holds hslice.ty_eq hwidth ⟨hkept, hends.value hrun⟩ hspells

theorem computes_write (h : (slice .write elem).Applies m fp n args outs)
    (hvalues : args.map (·.value) = [.slice items, .int .i32 index, item])
    (hpos : 0 ≤ index.toInt) (hlt : index.toInt < items.length) :
    (slice .write elem).Computes m fp n args outs (.slice (items.set index.toInt.toNat item)) := by
  obtain ⟨-, -, width, hwidth⟩ := Primitive.elementType_facts h.registered
  obtain ⟨slot, hslot, hslice⟩ := h.sees (i := 0) (by rw [hvalues]; rfl) rfl
  obtain ⟨number, -, hindex⟩ := h.sees (i := 1) (by rw [hvalues]; rfl) rfl
  obtain ⟨place, -, hitem⟩ := h.sees (i := 2) (by rw [hvalues]; rfl) rfl
  obtain ⟨handle, old, -, hholds, hspells⟩ := hslice.listing hwidth
  obtain ⟨element, hlen, hread, -, hdecode⟩ := hitem.element h.registered hwidth
  have houts : outs = [] := List.map_eq_nil_iff.mp h.outputs_ty
  have hset : elem.Spells (old.set index.toInt.toNat element) (items.set index.toInt.toNat item) :=
    hspells.set hdecode _
  apply computes_of_actsInPlace h ⟨.write, elem, .inr rfl, rfl⟩ houts hslot hslice hholds.handle_eq
    hwidth hset
  have hin : 0 ≤ index.toInt ∧ index.toInt < old.length := ⟨hpos, hspells.length_eq ▸ hlt⟩
  have hover : Ends (Arena.overwriteElement handle index.toInt width element) m.arena _ _ :=
    Arena.rewrites_overwriteElement hholds.hasObject hlen
  simp only [Arena.overwriteElement, ends_bind, ends_query, ends_update, ends_pure] at hover
  rw [Machine.ends_write h.performs hslice.hasInput hslice.ty_eq hindex.hasInput hindex.ty_eq
    hitem.hasInput hitem.ty_eq hwidth hholds.handle_eq hindex.number]
  simp only [gives_bind, hread, gives_ok]
  apply hover.mono ?_ fun _ hfails => hfails.2 hin
  intro offset hwrite
  exact hwrite.mono (fun b hb => hb.2.hasObject) fun _ hfails => hfails.2 hin

theorem computes_copy (h : (slice .copy elem).Applies m fp n args outs)
    (hvalues : args.map (·.value) = [.slice room, .slice given]) :
    (slice .copy elem).Computes m fp n args outs
      (.slice (given.take room.length ++ room.drop given.length)) := by
  obtain ⟨-, -, width, hwidth⟩ := Primitive.elementType_facts h.registered
  obtain ⟨slot, hslot, hroom⟩ := h.sees (i := 0) (by rw [hvalues]; rfl) rfl
  obtain ⟨place, -, hgiven⟩ := h.sees (i := 1) (by rw [hvalues]; rfl) rfl
  obtain ⟨dst, old, hdst, hholds, hspells⟩ := hroom.listing hwidth
  obtain ⟨src, new, hsrc, hholds', hspells'⟩ := hgiven.listing hwidth
  have houts : outs = [] := List.map_eq_nil_iff.mp h.outputs_ty
  apply computes_of_actsInPlace h ⟨.copy, elem, .inl rfl, rfl⟩ houts hslot hroom hholds.handle_eq
    hwidth (hspells'.copied hspells)
  apply (Machine.ends_copy h.performs (hroom.elementWidth_eq hwidth) hdst hholds.hasObject hsrc
    hholds'.hasObject).imp
  exact fun _ m' hrewrites => hrewrites.hasObject

theorem computes_strLen (h : strLen.Applies m fp n args outs)
    (hvalues : args.map (·.value) = [.str x]) (hfits : x.utf8ByteSize < 2 ^ 31) :
    strLen.Computes m fp n args outs (.i32 x.utf8ByteSize) := by
  obtain ⟨out, target, hn, rfl, hout, htarget⟩ := h.output rfl
  obtain ⟨slot, hslot, htext⟩ := h.sees (i := 0) (by rw [hvalues]; rfl) rfl
  obtain ⟨handle, elements, hhandle, hobject, hlength⟩ :=
    htext.bytes rfl (h.valid rfl slot (List.mem_of_getElem? hslot))
  rw [← hlength] at hfits ⊢
  apply (Machine.ends_length rfl hn hhandle hobject hfits hout htarget).imp
  rintro - m' hvalue _ ⟨⟩
  exact hvalue

theorem computes_strConcat (h : strConcat.Applies m fp n args outs)
    (hvalues : args.map (·.value) = [.str x, .str y])
    (hroom : strConcat.HasRoom m.arena (.str (x ++ y))) :
    strConcat.Computes m fp n args outs (.str (x ++ y)) := by
  obtain ⟨out, target, hn, rfl, hout, htarget⟩ := h.output rfl
  obtain ⟨slot, -, hx⟩ := h.sees (i := 0) (by rw [hvalues]; rfl) rfl
  obtain ⟨place, -, hy⟩ := h.sees (i := 1) (by rw [hvalues]; rfl) rfl
  obtain ⟨hroom, hmax⟩ := hroom _ _ rfl
  rw [← Utf8.length_encode] at hroom
  apply (Machine.ends_strConcat hn (hx.text rfl) (hy.text rfl) hout htarget hroom hmax).imp
  rintro - m' ⟨made, hmade⟩ _ ⟨⟩
  change m'.arena.valueAt target = _
  rw [Arena.valueAt_object (by rw [htarget]; rfl), htarget]
  exact ⟨made, _, hmade, Ty.readsAs_ofText (x ++ y)⟩

theorem computes_strEq (h : strEq.Applies m fp n args outs)
    (hvalues : args.map (·.value) = [.str x, .str y]) :
    strEq.Computes m fp n args outs (.bool (x == y)) := by
  obtain ⟨out, target, hn, rfl, hout, htarget⟩ := h.output rfl
  obtain ⟨slot, -, hx⟩ := h.sees (i := 0) (by rw [hvalues]; rfl) rfl
  obtain ⟨place, -, hy⟩ := h.sees (i := 1) (by rw [hvalues]; rfl) rfl
  apply (Machine.ends_strEq hn (hx.text rfl) (hy.text rfl) hout htarget).imp
  rintro - m' hvalue _ ⟨⟩
  exact hvalue

theorem length?_eq_some {count : Nat} (h : length? count = some r) :
    count < 2 ^ 31 ∧ some (.i32 count) = some r :=
  Option.ite_none_right_eq_some.mp h

theorem computes (h : op.Applies m fp n args outs)
    (hresult : op.result? (args.map (·.value)) = some r) (hroom : op.HasRoom m.arena r) :
    op.Computes m fp n args outs r := by
  unfold result? at hresult
  split at hresult
  case h_1 items hvalues =>
    obtain ⟨hfits, ⟨⟩⟩ := length?_eq_some hresult
    exact computes_len h hvalues hfits
  case h_2 items item hvalues =>
    cases hresult
    exact computes_append h hvalues hroom
  case h_3 front back hvalues =>
    cases hresult
    exact computes_concat h hvalues hroom
  case h_4 room given hvalues =>
    cases hresult
    exact computes_copy h hvalues
  case h_5 items index hvalues =>
    obtain ⟨hpos, hitem⟩ := Option.ite_none_right_eq_some.mp hresult
    exact computes_read h hvalues hpos hitem
  case h_6 items index item hvalues =>
    obtain ⟨⟨hpos, hlt⟩, ⟨⟩⟩ := Option.ite_none_right_eq_some.mp hresult
    exact computes_write h hvalues hpos hlt
  case h_7 text hvalues =>
    obtain ⟨hfits, ⟨⟩⟩ := length?_eq_some hresult
    exact computes_strLen h hvalues hfits
  case h_8 front back hvalues =>
    cases hresult
    exact computes_strConcat h hvalues hroom
  case h_9 x y hvalues =>
    cases hresult
    exact computes_strEq h hvalues
  case h_10 => cases hresult

/-- Operators that do not act in place leave what a variable holds, unless an output lies over the
variable's slot or over its object. -/
theorem keeps_variable {m' : Machine} {o : Operand} (h : op.Applies m fp n args outs)
    (hstages : ¬ op.primitive.ActsInPlace) (hrun : Machine.executeNode fp n m = .ok () m')
    (ho : m.HasVariable fp o slot) (hvalue : m.value fp o = .ok v)
    (hapart : ∀ out ∈ outs, ∀ i, out.Covers i → ¬ slot.Covers i ∧ ¬ m.arena.ObjectCovers slot i) :
    m'.value fp o = .ok v := by
  have hshipped := h.registered.shipped
  have hkeeps := hshipped.contained.keepsSegments
  have hheap := ((Machine.keepsSegments_performs hkeeps h.performs).value hrun).heapPointer_le
  obtain ⟨-, w, -, hchanges⟩ := (Machine.ends_stagesOnly (hshipped.stagesOnly.resolve_right hstages)
    h.performs).value hrun
  obtain ⟨⟨work, rfl⟩, -⟩ := Machine.executeNode_ok hrun
  have hnot : ∀ i, slot.Covers i ∨ m.arena.ObjectCovers slot i →
      ¬ (m.site fp n).OutputCovers w.arena i := by
    rintro i hin ⟨o', ho', place, hplace, hcovers⟩
    obtain ⟨out, hout, hvariable⟩ := exists_of_forall₂_right h.outputs.flip ho'
    cases hplace.symm.trans (hvariable.place_eq w.arena)
    obtain ⟨hslot, hobject⟩ := hapart _ hout i hcovers
    exact hin.elim hslot hobject
  have hbefore : m.arena.valueAt slot = .ok v := ho.value_eq.symm.trans hvalue
  have hafter := Arena.valueAt_kept hheap hchanges ho.size_eq ho.stop_le
    (fun i hi => hnot i (.inl hi)) (fun i hi => hnot i (.inr hi)) hbefore
  exact ho.value_eq.trans hafter

end Computing

end SequenceOp

/-- The operators on slices and strings compute their functions. The node succeeds, and the operator
sees the result in the output, or in the slice that it writes to. Unless it acts in place, any other
variable is read as before if no output lies over it or its object. -/
theorem sequence_operators_compute {op : SequenceOp} {m : Machine} {fp : Nat} {n : Node}
    {args : List SequenceOp.Argument} {outs : List Place} {r : Value}
    (h : op.Applies m fp n args outs) (hresult : op.result? (args.map (·.value)) = some r)
    (hroom : op.HasRoom m.arena r) : ∃ m', Machine.executeNode fp n m = .ok () m' ∧
      (∀ o, n.target? = some o → op.view m' fp o = .ok r) ∧
        (¬ op.primitive.ActsInPlace → ∀ o slot v, m.HasVariable fp o slot → m.value fp o = .ok v →
          (∀ out ∈ outs, ∀ i, out.Covers i → ¬ slot.Covers i ∧ ¬ m.arena.ObjectCovers slot i) →
            m'.value fp o = .ok v) := by
  have hcomputes := SequenceOp.computes h hresult hroom
  cases hrun : Machine.executeNode fp n m with
  | error e m' => exact (hcomputes.failure hrun).elim
  | ok _ m' =>
    refine ⟨m', rfl, fun o ho => ?_, fun hstages o slot v hvariable hvalue hapart =>
      SequenceOp.keeps_variable h hstages hrun hvariable hvalue hapart⟩
    obtain ⟨slot, hslot, hvariable⟩ := h.target ho
    have hseen := hcomputes.value hrun slot hslot
    obtain ⟨⟨work, rfl⟩, -⟩ := Machine.executeNode_ok hrun
    exact (SequenceOp.view_eq (m := { m with work := work }) hvariable).trans hseen

/-- The frame in which `ys` shares the pair with `xs`, and room for more. -/
def sharingMachine : Machine :=
  let m := pairMachine 24
  { m with
    primitives := { entries := [SliceOp.append.primitive .i16] }
    work := { m.work with arena := { m.work.arena with capacity := 64, limit := 64 } } }

def sharedSlice : Operand := { name := "ys", ty := .slice .i16, storage := .frame 4 }

theorem sequence_operators_compute_sharingMachine : ∃ m,
    Machine.executeNode 8 appendPair sharingMachine = .ok () m ∧
      m.value 8 pairSlice = .ok (.slice [.int .i16 5, .int .i16 9, .int .i16 7]) ∧
        m.value 8 sharedSlice = .ok (.slice [.int .i16 5, .int .i16 9]) := by
  have hheap : sharingMachine.arena.heapPointer = 32 := rfl
  have hpair : sharingMachine.HasVariable 8 pairSlice ⟨8, .slice .i16, 4⟩ :=
    ⟨.of_plain rfl rfl rfl rfl, by rw [hheap]; decide⟩
  have hitem : sharingMachine.HasVariable 8 pairItem ⟨16, .i16, 2⟩ :=
    ⟨.of_plain rfl rfl rfl rfl, by rw [hheap]; decide⟩
  have hshared : sharingMachine.HasVariable 8 sharedSlice ⟨12, .slice .i16, 4⟩ :=
    ⟨.of_plain rfl rfl rfl rfl, by rw [hheap]; decide⟩
  -- The pair lies at 24, behind the frame.
  have happart : ∀ slot, sharingMachine.arena.readHandle slot.offset = .ok 24 → ∀ i < 24,
      ¬ sharingMachine.arena.ObjectCovers slot i := by
    rintro slot hhandle i hi ⟨handle, count, width, -, hhandle', -, -, hle, -⟩
    cases hhandle.symm.trans hhandle'
    omega
  have happlies : (SequenceOp.slice .append .i16).Applies sharingMachine 8 appendPair
      [⟨⟨8, .slice .i16, 4⟩, .slice [.int .i16 5, .int .i16 9]⟩, ⟨⟨16, .i16, 2⟩, .int .i16 7⟩]
      [⟨8, .slice .i16, 4⟩] := by
    refine ⟨show Ty.i16 ∈ SliceOp.elementTypes by decide, ⟨⟨0, _, _, rfl, rfl⟩, rfl, rfl⟩,
      .cons ⟨hpair, rfl⟩ (.cons ⟨hitem, rfl⟩ .nil), .cons hpair .nil, rfl, rfl, ?_, nofun⟩
    rintro _ ⟨⟩ i hcovers
    exact happart _ rfl i (hcovers.2.trans (by decide))
  have hroom : (SequenceOp.slice .append .i16).HasRoom sharingMachine.arena
      (.slice [.int .i16 5, .int .i16 9, .int .i16 7]) := by
    rintro _ _ ⟨⟩
    exact ⟨⟨by decide, by decide⟩, by decide⟩
  obtain ⟨m, hrun, hresult, hkept⟩ := sequence_operators_compute happlies rfl hroom
  refine ⟨m, hrun, hresult pairSlice rfl, hkept ?_ sharedSlice _ _ hshared rfl ?_⟩
  · rintro ⟨op, elem, rfl | rfl, heq⟩ <;>
      cases congrArg (fun p : Primitive => p.signature.outputs.length) heq
  · intro out hout i hcovers
    cases List.mem_singleton.mp hout
    have hlt : i < 12 := hcovers.2
    refine ⟨fun hin => ?_, happart _ rfl i (hlt.trans (by decide))⟩
    have hle : 12 ≤ i := hin.1
    omega

end FlatMachine
