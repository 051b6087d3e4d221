import FlatMachine.Proofs.DeclaredSlots
import FlatMachine.Proofs.LiteralAssignment

/-!
# Assignments of pointers to literals

The literal by pointer is built in a new object, through an auxiliary pointer that the statement
declares, and the pointer is then moved to the target. So until the last node the statement changes
nothing of the memory from before but the slot of the auxiliary pointer.
-/

namespace FlatMachine

open FlatMachine.Action

namespace Lowering

variable {table : PrimitiveTable} {t : Operand} {target : Node} {value ns : List Node}
  {names : List String} {struct : String} {lw lw' : Lowering}

/-- The literal is one by pointer, of that struct. -/
def IsByPointer (value : List Node) (struct : String) : Prop :=
  ∃ last o, value.getLast? = some last ∧ last.outputs.head? = some o ∧ o.literalPointer = true ∧
    o.structName = some struct

/-- The pointer through which the fields are written. -/
def auxiliary (lw : Lowering) (struct : String) : Operand :=
  { lw.operand s!"$lcl{lw.freshNames}" (.pointer (.struct struct)) with
    literalPointer := true, escapes := true }

theorem assignment_byPointer (hfields : MovesFields table value names)
    (hpointer : IsByPointer value struct) (htarget : target.outputs.head? = some t)
    (h : assignment [target] .assign value lw = .ok ns lw') :
    ∃ written copy, lw.primitives.operator "identity" = .ok copy ∧
      List.Forall₂ (fun x n' => x.1.Retargets (lw.auxiliary struct) x.2 n')
        (value.zip (names.map fun name => .field { name })) written ∧
      ns = { lw.node with outputs := [lw.auxiliary struct] } :: (written ++
        [{ lw.node copy with
            inputs := [lw.auxiliary struct], outputs := [{ t with byReference := true }] }]) := by
  obtain ⟨last, output, hlast, houtput, hliteral, hstruct⟩ := hpointer
  obtain ⟨o, last', ho, hlast', hassigns⟩ := assignment_assign_eq_ok.mp h
  have ht : target? [target] = some t := htarget
  cases ht.symm.trans ho
  cases hlast.symm.trans hlast'
  obtain ⟨name, -, hfield, -⟩ := exists_of_forall₂_right hfields.flip (List.mem_of_getLast? hlast)
  cases hassigns with
  | struct _ hassigned hns =>
    simp only [structLiteralAssignment, get_bind_apply, ht, hlast, houtput, hliteral, hstruct,
      require, ofExcept_ok_bind, Option.bind_some, if_true] at hassigned
    obtain ⟨name, _, hfresh, hrest⟩ := seq_eq_ok.mp hassigned
    cases hfresh
    obtain ⟨written, _, hassign, hrest⟩ := seq_eq_ok.mp hrest
    obtain ⟨hwritten, rfl⟩ := ofExcept_eq_ok.mp hassign
    obtain ⟨copy, _, hoperator, hend⟩ := seq_eq_ok.mp hrest
    obtain ⟨hcopy, rfl⟩ := ofExcept_eq_ok.mp hoperator
    cases hend
    exact ⟨written, copy, hcopy, retargets_of_assignFields hfields hwritten, hns⟩
  | array hnot => cases hfield.symm.trans hnot
  | other hnot => cases hfield.symm.trans hnot

end Lowering

/-- The name of the copy operator belongs to the copy. -/
def PrimitiveTable.HasCopy (table : PrimitiveTable) : Prop :=
  ∀ code, table.code "identity" = .ok code → table.get code = .ok identity

theorem PrimitiveTable.HasCopy.operator {table : PrimitiveTable} {copy : Operator}
    (h : table.HasCopy) (hcopy : table.operator "identity" = .ok copy) :
    ∃ code name signature, copy = .native code name signature ∧ table.get code = .ok identity := by
  obtain ⟨code, hcode, hcopy⟩ := bind_eq_ok.mp hcopy
  obtain ⟨p, -, hcopy⟩ := bind_eq_ok.mp hcopy
  cases hcopy
  exact ⟨code, _, _, rfl, h code hcode⟩

section Object

variable {t : StructTable} {l : FrameLayout} {a b : Arena} {fp offset handle size : Nat}
  {o p : Operand} {struct name : String} {access' : Access} {part : Place}

/-- A field that is reached through a pointer is a part of the object. -/
theorem Operand.PartOf.part_of_pointer (h : p.PartOf o access') (hpacked : t.Packed)
    (hgrows : l.structs.Grows t)
    (haccess : l.linkAccess (.pointer (.struct struct)) (.field { name }) = .ok access')
    (ho : o.place t a fp = .ok ⟨offset, .pointer (.struct struct), Ty.handleWidth⟩)
    (hhandle : a.readHandle offset = .ok handle) (hpart : p.place t a fp = .ok part) :
    (⟨handle, .struct struct, size⟩ : Place).Part t (.field { name }) part := by
  obtain ⟨struct', field, hstruct, hfield, hfollow⟩ := follow_linkedField hpacked hgrows haccess
  obtain rfl : struct = struct' := by simpa using hstruct
  rw [h.place_eq ho] at hpart
  obtain ⟨found, hfound, hpart⟩ := bind_eq_ok.mp hpart
  rw [hfollow] at hfound
  obtain ⟨start, hstart, hfound⟩ := bind_eq_ok.mp hfound
  obtain ⟨handle', hhandle', hstart⟩ := bind_eq_ok.mp hstart
  obtain ⟨held, hheld, hhandle'⟩ := bind_eq_ok.mp hhandle'
  cases hhandle.symm.trans hheld
  split at hhandle'
  · cases hhandle'
  cases hhandle'
  cases hstart
  cases hfound
  obtain ⟨width, hwidth, hpart⟩ := bind_eq_ok.mp hpart
  cases hpart
  exact .field rfl hfield hwidth

/-- Such a field stays where it is as long as the pointer does and holds the same handle. -/
theorem Operand.PartOf.place_eq_of_pointer (h : p.PartOf o access')
    (haccess : l.linkAccess (.pointer (.struct struct)) (.field { name }) = .ok access')
    (ha : o.place t a fp = .ok ⟨offset, .pointer (.struct struct), Ty.handleWidth⟩)
    (hb : o.place t b fp = .ok ⟨offset, .pointer (.struct struct), Ty.handleWidth⟩)
    (hsame : a.SameOn b [(offset, Ty.handleWidth)]) : p.place t b fp = p.place t a fp := by
  obtain ⟨_, -, haccess⟩ := bind_eq_ok.mp haccess
  obtain ⟨field, -, haccess⟩ := bind_eq_ok.mp haccess
  cases haccess
  rw [h.place_eq ha, h.place_eq hb]
  congr 1
  exact access_congr _ hsame

end Object

/-- In the frame `l` the node moves the argument of the initialiser to a field of the struct that
the operand points to. -/
def FrameLayout.MovesToField (l : FrameLayout) (table : PrimitiveTable) (o : Operand)
    (struct : String) (n : Node) (access : Access) (n' : Node) : Prop :=
  ∃ e e' p name access', n.inputs = [e] ∧ l.bind e = .ok e' ∧ n'.Moves table e' p ∧
    access = .field { name } ∧ l.linkAccess (.pointer (.struct struct)) access = .ok access' ∧
    p.PartOf o access'

theorem FrameLayout.movesToField_of_movesToPart {l : FrameLayout} {table : PrimitiveTable}
    {o : Operand} {struct : String} {value ns : List Node} {names : List String}
    (h : List.Forall₂ (fun x n' => l.MovesToPart table o x.1 x.2 n')
      (value.zip (names.map fun name => .field { name })) ns)
    (hty : o.valueTy l.structs = .ok (.pointer (.struct struct))) :
    List.Forall₂ (fun x n' => l.MovesToField table o struct x.1 x.2 n')
      (value.zip (names.map fun name => .field { name })) ns := by
  refine forall₂_imp_of_mem h fun x hx n hmade => ?_
  obtain ⟨e, e', p, ty, access', he, hbound, hmoves, hty', haccess, hpart⟩ := hmade
  cases hty.symm.trans hty'
  obtain ⟨name, -, hname⟩ := List.mem_map.mp (List.of_mem_zip hx).2
  exact ⟨e, e', p, name, access', he, hbound, hmoves, hname.symm, haccess, hpart⟩

/-- The ranges are allocated, and the place has no byte of them. -/
def Arena.HoldsAside (a : Arena) (place : Place) (ranges : List (Nat × Nat)) : Prop :=
  ∀ r ∈ ranges, r.1 + r.2 ≤ a.heapPointer ∧ ∀ b, r.1 ≤ b → b < r.1 + r.2 → ¬ place.Covers b

/-- The ranges are read as before as long as nothing beside the place has changed. -/
theorem Arena.HoldsAside.sameOn {a b : Arena} {place : Place} {ranges : List (Nat × Nat)}
    (h : a.HoldsAside place ranges) (hsize : a.heapPointer ≤ b.heapPointer)
    (hsame : ∀ i < a.heapPointer, ¬ place.Covers i → b.image[i]? = a.image[i]?) :
    a.SameOn b ranges := fun r hr =>
  Arena.read_eq_of_inside (h r hr).1 hsize fun i hle hlt =>
    hsame i (hlt.trans_le (h r hr).1) ((h r hr).2 i hle hlt)

namespace Machine

variable {l : FrameLayout} {o : Operand} {value ns : List Node} {names : List String} {fp : Nat}
  {m m' s : Machine} {offset handle size : Nat} {struct : String}

/-- The operand leads to a pointer to a struct, whatever lies in memory. -/
def PointsAt (m : Machine) (fp : Nat) (o : Operand) (offset : Nat) (struct : String) : Prop :=
  ∀ a, o.place m.program.structs a fp = .ok ⟨offset, .pointer (.struct struct), Ty.handleWidth⟩

theorem sameOn_of_touches (h : Touches (handle ≤ ·) m s)
    (habove : offset + Ty.handleWidth ≤ handle) :
    m.arena.SameOn s.arena [(offset, Ty.handleWidth)] := by
  apply h.sameOn
  intro r hr i hle hlt
  cases List.mem_singleton.mp hr
  dsimp only at hlt
  omega

/-- Moves to fields of an object that a pointer below it points to touch nothing below the object,
so the pointer goes on holding its handle. -/
theorem touches_fields (hpacked : m.program.structs.Packed)
    (hgrows : l.structs.Grows m.program.structs)
    (hmade : ∀ n ∈ ns, ∃ x access, l.MovesToField m.primitives o struct x access n)
    (hpoints : m.PointsAt fp o offset struct) (hhandle : m.arena.readHandle offset = .ok handle)
    (habove : offset + Ty.handleWidth ≤ handle) (hrun : executeAll fp ns m = .ok () s) :
    Touches (handle ≤ ·) m s := by
  refine executeAll_invariant (P := Touches (handle ≤ ·) m) (.refl m) ?_ hrun
  intro front n back hns s t _ hs hn
  obtain ⟨x, access, e, e', p, name, access', -, -, hmoves, rfl, haccess, hpart⟩ :=
    hmade n (hns ▸ List.mem_append_right _ List.mem_cons_self)
  rw [← hs.primitives_eq] at hmoves
  obtain ⟨bytes, place, hmove⟩ := (ends_move hmoves).value hn
  have hplace := hmove.place_eq
  unfold Machine.place at hplace
  rw [hs.program_eq] at hplace
  have hheld : s.arena.readHandle offset = .ok handle :=
    (Arena.readHandle_congr (sameOn_of_touches hs habove)).trans hhandle
  have hfield :
      (⟨handle, .struct struct, 0⟩ : Place).Part m.program.structs (.field { name }) place :=
    hpart.part_of_pointer hpacked hgrows haccess (hpoints _) hheld hplace
  exact hs.trans (hmove.touches.mono fun b hb => hfield.le.trans hb.1)

/-- Fields that are written through a pointer to an object above it. -/
theorem writesParts_of_pointer (hpacked : m.program.structs.Packed)
    (hgrows : l.structs.Grows m.program.structs)
    (hvalue : Literal m.primitives value (names.map fun name => .field { name }))
    (hmade : List.Forall₂ (fun x n' => l.MovesToPart m.primitives o x.1 x.2 n')
      (value.zip (names.map fun name => .field { name })) ns)
    (hty : o.valueTy l.structs = .ok (.pointer (.struct struct)))
    (hpoints : m.PointsAt fp o offset struct) (hhandle : m.arena.readHandle offset = .ok handle)
    (habove : offset + Ty.handleWidth ≤ handle) :
    m.WritesParts fp l ⟨handle, .struct struct, size⟩ value (names.map fun name => .field { name })
      ns := by
  have hmade := FrameLayout.movesToField_of_movesToPart hmade hty
  refine ⟨hpacked, hvalue, hmade.imp ?_, ?_⟩
  · rintro x n ⟨e, e', p, name, access', he, hbound, hmoves, hname, haccess, hpart⟩
    refine ⟨e, e', p, he, hbound, hmoves, fun part => ?_⟩
    rw [hname] at haccess ⊢
    exact hpart.part_of_pointer hpacked hgrows haccess (hpoints _) hhandle
  · intro front n back hns s hs output houtput
    have hfields : ∀ n ∈ ns, ∃ x access, l.MovesToField m.primitives o struct x access n := by
      intro n hn
      obtain ⟨x, -, hx⟩ := exists_of_forall₂_right hmade hn
      exact ⟨x.1, x.2, hx⟩
    obtain ⟨x, access, e, e', p, name, access', -, -, hmoves, rfl, haccess, hpart⟩ :=
      hfields n (hns ▸ List.mem_append_right _ List.mem_cons_self)
    rw [hmoves.outputs_eq] at houtput
    cases List.mem_singleton.mp houtput
    have hs' : Touches (handle ≤ ·) m s :=
      touches_fields hpacked hgrows (fun n hn => hfields n (hns ▸ List.mem_append_left _ hn))
        hpoints hhandle habove hs
    unfold Machine.place
    rw [hs'.program_eq]
    exact hpart.place_eq_of_pointer haccess (hpoints _) (hpoints _) (sameOn_of_touches hs' habove)

/-- From `m` to `m'` the object was built: it is all that was allocated, the named fields hold what
their initialisers stood for, the rest of it is zero, and a handle to it lies at the place. Below
the object nothing has changed but the slot and the place. -/
structure BuildsObject (m : Machine) (fp : Nat) (l : FrameLayout) (slot object place : Place)
    (value : List Node) (names : List String) (m' : Machine) : Prop where
  offset_eq : object.offset = m.arena.heapPointer
  heapPointer_eq : m'.arena.heapPointer = object.offset + object.size
  handle : m'.arena.readHandle place.offset = .ok object.offset
  fields : ∀ i n name, value[i]? = some n → names[i]? = some name →
    ∃ e e' s bytes part, n.inputs = [e] ∧ l.bind e = .ok e' ∧ advances (i + 1) m = .ok () s ∧
      e'.bytes m.program.structs s.arena fp = .ok bytes ∧
      object.Part m.program.structs (.field { name }) part ∧ bytes.length = part.size ∧
      (∀ k < part.size, ¬ place.Covers (part.offset + k) →
        m'.arena.image[part.offset + k]? = bytes[k]?) ∧
      (m.arena.HoldsAside slot (e'.footprint m.program.structs m.arena fp) →
        e'.bytes m.program.structs m.arena fp = .ok bytes)
  zero : ∀ b, object.Covers b → ¬ place.Covers b →
    ¬ object.InParts m.program.structs (names.map fun name => .field { name }) b →
      m'.arena.image[b]? = some 0
  same : ∀ b < object.offset, ¬ slot.Covers b → ¬ place.Covers b →
    m'.arena.image[b]? = m.arena.image[b]?

/-- The memory that was allocated on `m` is what it was, but for a slot. -/
structure SameAside (m : Machine) (slot : Place) (s : Machine) : Prop where
  program_eq : s.program = m.program
  heapPointer_le : m.arena.heapPointer ≤ s.arena.heapPointer
  same : ∀ b < m.arena.heapPointer, ¬ slot.Covers b → s.arena.image[b]? = m.arena.image[b]?

namespace SameAside

variable {slot : Place} {touched : Nat → Prop}

theorem bytes_eq (h : m.SameAside slot s)
    (hreads : m.arena.HoldsAside slot (o.footprint m.program.structs m.arena fp)) :
    o.bytes m.program.structs s.arena fp = o.bytes m.program.structs m.arena fp :=
  Operand.bytes_congr (hreads.sameOn h.heapPointer_le h.same)

theorem place_eq (h : m.SameAside slot s)
    (hreads : m.arena.HoldsAside slot (o.reads m.program.structs m.arena fp)) :
    s.place fp o = m.place fp o := by
  unfold Machine.place
  rw [h.program_eq]
  exact o.place_congr (hreads.sameOn h.heapPointer_le h.same)

/-- What is touched above the old memory is aside from it. -/
theorem touches (h : m.SameAside slot m') (htouches : Touches touched m' s)
    (habove : ∀ b, touched b → m.arena.heapPointer ≤ b) : m.SameAside slot s where
  program_eq := htouches.program_eq.trans h.program_eq
  heapPointer_le := htouches.heapPointer_eq ▸ h.heapPointer_le
  same b hb hslot :=
    (htouches.getElem?_eq fun ht => (habove b ht).not_gt hb).trans (h.same b hb hslot)

end SameAside

/-- The bytes of a part belong to the value. -/
theorem covers_of_inParts {t : StructTable} {whole : Place} {parts : List Access} {b : Nat}
    (hpacked : t.Packed) (hsize : whole.ty.size t = .ok whole.size) (h : whole.InParts t parts b) :
    whole.Covers b := by
  obtain ⟨access, -, part, hpart, hcovers⟩ := h
  have hinside := hpart.inside hpacked hsize
  unfold Place.Covers at hcovers ⊢
  omega

section Run

variable {m₁ m₂ : Machine} {slot : Place} {t' aux : Operand} {declaration last : Node}
  {fields : List Node}

/-- The last move stores the handle that the auxiliary pointer holds. -/
theorem readHandle_of_move (hmoves : last.Moves m.primitives aux t')
    (hrun : executeNode fp last m = .ok () m') (haux : m.PointsAt fp aux offset struct)
    (hvalue : aux.byReference = false) (hhandle : m.arena.readHandle offset = .ok handle) :
    ∃ place, m.place fp t' = .ok place ∧ m'.arena.readHandle place.offset = .ok handle ∧
      Touches place.Covers m m' := by
  obtain ⟨bytes, place, hmove⟩ := (ends_move hmoves).value hrun
  have hbytes := hmove.bytes_eq
  rw [Operand.bytes, haux] at hbytes
  obtain ⟨_, hplace, hbytes⟩ := bind_eq_ok.mp hbytes
  cases hplace
  rw [if_neg (by simp [hvalue])] at hbytes
  have hheld : m.arena.read offset Ty.handleWidth = .ok bytes := hbytes
  obtain ⟨-, hlen, -⟩ := Arena.gives_read.value hheld
  have hread : m'.arena.read place.offset Ty.handleWidth = .ok bytes := by
    rw [← hlen]
    apply hmove.stores.read
    rw [hmove.length_eq, hmove.touches.heapPointer_eq]
    exact hmove.stop_le
  refine ⟨place, hmove.place_eq, ?_, hmove.touches⟩
  rw [← hhandle]
  exact congrArg (· >>= fun bytes => return LittleEndian.decode bytes) (hread.trans hheld.symm)

/-- After the last move, which touches only the place of the target, a field of the new object holds
what its initialiser stood for. -/
theorem holds_field {object place : Place}
    (hwrites : m₁.WritesParts fp l object value (names.map fun name => .field { name }) fields)
    (hstart : m.SameAside slot m₁)
    (habove : ∀ parts b, object.InParts m₁.program.structs parts b → m.arena.heapPointer ≤ b)
    (hfields : executeAll fp fields m₁ = .ok () m₂) (hmove : Touches place.Covers m₂ m')
    (hreached : ∀ k ≤ fields.length, ∀ s, executeAll fp (fields.take k) m₁ = .ok () s →
      ∃ pc, advances (k + 1) m = .ok () (s.setPc pc)) {i : Nat} {n : Node} {name : String}
    (hn : value[i]? = some n) (hname : names[i]? = some name) :
    ∃ e e' s bytes part, n.inputs = [e] ∧ l.bind e = .ok e' ∧ advances (i + 1) m = .ok () s ∧
      e'.bytes m.program.structs s.arena fp = .ok bytes ∧
      object.Part m.program.structs (.field { name }) part ∧ bytes.length = part.size ∧
      (∀ k < part.size, ¬ place.Covers (part.offset + k) →
        m'.arena.image[part.offset + k]? = bytes[k]?) ∧
      (m.arena.HoldsAside slot (e'.footprint m.program.structs m.arena fp) →
        e'.bytes m.program.structs m.arena fp = .ok bytes) := by
  have hpart : (names.map fun name => Access.field { name })[i]? = some (.field { name }) := by
    rw [List.getElem?_map, hname]
    rfl
  obtain ⟨e, e', s, bytes, part, he, hbound, hs, hbytes, hpart, hread, -⟩ :=
    hwrites.hold hfields hn hpart
  have hi : i ≤ fields.length := by
    rw [hwrites.length_eq]
    exact (List.getElem?_eq_some_iff.mp hn).1.le
  obtain ⟨pc, hpc⟩ := hreached i hi s hs
  obtain ⟨-, hlen, hcontent⟩ := Arena.gives_read.value hread
  have hbefore := hstart.touches (hwrites.touches hs) (habove _)
  rw [hstart.program_eq] at hbytes hpart
  refine ⟨e, e', s.setPc pc, bytes, part, he, hbound, hpc, hbytes, hpart, hlen, ?_,
    fun hreads => ?_⟩
  · intro k hk hnot
    rw [hmove.getElem?_eq hnot, hcontent]
    exact Arena.stores_extract m₂.arena part.offset part.size k (by rw [← hcontent]; omega)
  · rw [← hbefore.bytes_eq hreads]
    exact hbytes

/-- The statement at run time: the declaration, the initialisers, and the last move. -/
theorem buildsObject_of_run (hpacked : m.program.structs.Packed)
    (hgrows : l.structs.Grows m.program.structs)
    (hvalue : Literal m.primitives value (names.map fun name => .field { name }))
    (hmade : List.Forall₂ (fun x n' => l.MovesToPart m.primitives aux x.1 x.2 n')
      (value.zip (names.map fun name => .field { name })) fields)
    (hlast : last.Moves m.primitives aux t')
    (hop : declaration.operator = none) (hinputs : declaration.inputs = [])
    (houtputs : declaration.outputs = [aux]) (haux : m.PointsAt fp aux offset struct)
    (hauxTy : aux.valueTy l.structs = .ok (.pointer (.struct struct)))
    (hescapes : aux.escapes = true) (hbyValue : aux.byReference = false)
    (hdeclared : executeNode fp declaration m = .ok () m₁)
    (hfields : executeAll fp fields m₁ = .ok () m₂) (hmoved : executeNode fp last m₂ = .ok () m')
    (hreached : ∀ k ≤ fields.length, ∀ s, executeAll fp (fields.take k) m₁ = .ok () s →
      ∃ pc, advances (k + 1) m = .ok () (s.setPc pc)) :
    ∃ slot size place, m.place fp aux = .ok slot ∧
      (Ty.struct struct).size m.program.structs = .ok size ∧ m.SameAside slot m₂ ∧
      m₂.place fp t' = .ok place ∧
      m.BuildsObject fp l slot ⟨m.arena.heapPointer, .struct struct, size⟩ place value names
        m' := by
  obtain ⟨slot, b, hslot, hdeclares, rfl⟩ := (ends_declaration hop hinputs houtputs).value hdeclared
  have hslotAt := haux m.arena
  unfold Machine.place at hslot
  cases hslotAt.symm.trans hslot
  have hcontent := hdeclares.slot
  rw [hescapes] at hcontent
  obtain ⟨size, hsize, -, hheap, hhandle⟩ := hcontent
  have hwrites : WritesParts { m with work := { m.work with arena := b } } fp l
      ⟨m.arena.heapPointer, .struct struct, size⟩ value (names.map fun name => .field { name })
      fields :=
    writesParts_of_pointer hpacked hgrows hvalue hmade hauxTy haux hhandle hdeclares.stop_le
  have habove : ∀ parts b, Place.InParts m.program.structs
      ⟨m.arena.heapPointer, .struct struct, size⟩ parts b → m.arena.heapPointer ≤ b :=
    fun _ _ hb => (covers_of_inParts hpacked hsize hb).1
  have hstart : m.SameAside ⟨offset, .pointer (.struct struct), Ty.handleWidth⟩
      { m with work := { m.work with arena := b } } :=
    ⟨rfl, hdeclares.heapPointer_le, hdeclares.same⟩
  have htouches := hwrites.touches_all hfields
  have hm₂ := hstart.touches htouches (habove _)
  have hhandle' : m₂.arena.readHandle offset = .ok m.arena.heapPointer := by
    rw [← hhandle]
    refine Arena.readHandle_congr (htouches.sameOn fun r hr i hle hlt hparts => ?_)
    cases List.mem_singleton.mp hr
    exact (habove _ _ hparts).not_gt (hlt.trans_le hdeclares.stop_le)
  obtain ⟨place, hplace, hheld, hmove⟩ := readHandle_of_move (htouches.primitives_eq ▸ hlast) hmoved
    (by unfold PointsAt; rw [htouches.program_eq]; exact haux) hbyValue hhandle'
  refine ⟨_, size, place, hslotAt, hsize, hm₂, hplace, rfl, ?_, hheld, ?_, ?_, ?_⟩
  · rw [hmove.heapPointer_eq, htouches.heapPointer_eq]
    exact hheap
  · exact fun i n name => holds_field hwrites hstart habove hfields hmove hreached
  · intro b' hb hnot hunnamed
    rw [hmove.getElem?_eq hnot, htouches.getElem?_eq hunnamed]
    exact hdeclares.fresh b' hb.1 (hheap ▸ hb.2)
  · intro b' hb hnot hnot'
    rw [hmove.getElem?_eq hnot']
    exact hm₂.same b' hb hnot

end Run

end Machine

theorem FrameLayout.bind_of_byReference {l : FrameLayout} {t o : Operand}
    (h : l.bind { t with byReference := true } = .ok o) :
    ∃ t', l.bind t = .ok t' ∧ o = { t' with byReference := true } := by
  rw [bind_eq] at h
  obtain ⟨origin, horigin, h⟩ := bind_eq_ok.mp h
  obtain ⟨chain, hchain, h⟩ := bind_eq_ok.mp h
  cases h
  refine ⟨{ t with
    storage := origin.1, ty := origin.2, chain
    package := if t.package = "" then l.package else t.package }, ?_, rfl⟩
  rw [bind_eq]
  exact bind_eq_ok.mpr ⟨origin, horigin, bind_eq_ok.mpr ⟨chain, hchain, rfl⟩⟩

theorem Operand.place_byReference (t : StructTable) (a : Arena) (fp : Nat) (o : Operand) :
    { o with byReference := true }.place t a fp = o.place t a fp := by
  rw [Operand.place_eq, Operand.place_eq]

section Statement

variable {fd : FunctionDraft} {d d' : Draft} {l : FrameLayout} {f : Function} {lw lw' : Lowering}
  {t : Operand} {target : Node} {value ns ns' : List Node} {names : List String}
  {struct : String} {m m' : Machine} {frame : Frame}

/-- What the nodes have become in the frame: the declaration, the initialisers and the last move. -/
theorem FunctionDraft.Lays.pointerNodes {pc : Nat} {written : List Node} {copy : Operator}
    (hlays : fd.Lays d l f pc ({ lw.node with outputs := [lw.auxiliary struct] } :: (written ++
      [{ lw.node copy with
          inputs := [lw.auxiliary struct], outputs := [{ t with byReference := true }] }])) ns')
    (hvalue : Literal m.primitives value (names.map fun name => .field { name }))
    (hwritten : List.Forall₂ (fun x n' => x.1.Retargets (lw.auxiliary struct) x.2 n')
      (value.zip (names.map fun name => .field { name })) written)
    (hcopy : ∃ code name signature, copy = .native code name signature ∧
      m.primitives.get code = .ok identity) :
    ∃ declaration aux fields last t', ns' = declaration :: (fields ++ [last]) ∧
      declaration.operator = none ∧ declaration.inputs = [] ∧ declaration.outputs = [aux] ∧
      l.bind (lw.auxiliary struct) = .ok aux ∧
      List.Forall₂ (fun x n' => l.MovesToPart m.primitives aux x.1 x.2 n')
        (value.zip (names.map fun name => .field { name })) fields ∧
      l.bind t = .ok t' ∧ last.Moves m.primitives aux { t' with byReference := true } := by
  obtain ⟨declaration, rest, hdeclaration, hrest, rfl⟩ := List.forall₂_cons_left_iff.mp hlays.binds
  obtain ⟨aux, houtputs, haux⟩ := exists_of_forall₂_singleton hdeclaration.outputs
  obtain ⟨fields, back, rfl, hfields, hback⟩ := exists_of_forall₂_append hrest
  obtain ⟨last, rfl, hlast⟩ := exists_of_forall₂_singleton hback
  obtain ⟨input, hinputs, hinput⟩ := exists_of_forall₂_singleton hlast.inputs
  obtain ⟨output, houtputs', houtput⟩ := exists_of_forall₂_singleton hlast.outputs
  cases haux.symm.trans hinput
  obtain ⟨t', ht, rfl⟩ := FrameLayout.bind_of_byReference houtput
  obtain ⟨code, name, signature, hnative, hcode⟩ := hcopy
  refine ⟨declaration, aux, fields, last, t', rfl, hdeclaration.operator_eq, ?_, houtputs, haux,
    movesToPart_of_binds hfields hvalue hwritten haux, ht, hinputs, houtputs', .inr ?_⟩
  · exact List.forall₂_nil_left_iff.mp hdeclaration.inputs
  · exact ⟨code, name, signature, hlast.operator_eq.trans (congrArg some hnative), hcode⟩

/-- The statement at run time, node by node. -/
theorem FunctionDraft.Lays.run_pointerNodes {declaration last : Node} {fields : List Node}
    (hlays : fd.Lays d l f frame.pc ns (declaration :: (fields ++ [last])))
    (hframe : m.stack.top? = some frame) (hf : m.program.function? frame.function = some f)
    (hstraight : ∀ n ∈ declaration :: (fields ++ [last]), n.IsStraight)
    (hrun : Machine.advances ns.length m = .ok () m') :
    ∃ m₁ m₂ m₃, Machine.executeNode frame.fp declaration m = .ok () m₁ ∧
      Machine.executeAll frame.fp fields m₁ = .ok () m₂ ∧
      Machine.executeNode frame.fp last m₂ = .ok () m₃ ∧
      m' = m₃.setPc (frame.pc + ns.length) ∧ ns.length - 1 = fields.length + 1 ∧
      ∀ k ≤ fields.length, ∀ s, Machine.executeAll frame.fp (fields.take k) m₁ = .ok () s →
        Machine.advances (k + 1) m = .ok () (s.setPc (frame.pc + (k + 1))) := by
  obtain ⟨m₃, hm₃, rfl⟩ :=
    (hlays.advances_eq_ok hframe hf hstraight hlays.length_eq.ge).mp hrun
  have hlength := hlays.length_eq
  rw [← hlength, List.take_length] at hm₃
  obtain ⟨m₁, hm₁, hrest⟩ := Machine.executeAll_cons_ok.mp hm₃
  obtain ⟨m₂, hm₂, hend⟩ := Machine.executeAll_append_ok.mp hrest
  obtain ⟨_, hmoved, hnil⟩ := Machine.executeAll_cons_ok.mp hend
  cases hnil
  simp only [List.length_cons, List.length_append, List.length_nil] at hlength
  refine ⟨m₁, m₂, m₃, hm₁, hm₂, hmoved, rfl, by omega, fun k hk s hs => ?_⟩
  refine (hlays.advances_eq_ok hframe hf hstraight ?_).mpr ⟨s, ?_, rfl⟩
  · simp only [List.length_cons, List.length_append]
    omega
  · rw [List.take_succ_cons, List.take_append_of_le_length hk]
    exact Machine.executeAll_cons_ok.mpr ⟨m₁, hm₁, hs⟩

/-- A pointer to a new literal is assigned. Until the last node, which moves it to the target, the
memory from before is what it was but for the slot of the auxiliary pointer. -/
theorem FunctionDraft.Lays.buildsObject (hd : d.Reachable) (hgrows : d.Grows d')
    (hstructs : m.program.structs = d'.structs) (hprimitives : m.primitives = lw.primitives)
    (hcopy : m.primitives.HasCopy) (hdistinct : names.Nodup)
    (hfields : MovesFields m.primitives value names) (hpointer : Lowering.IsByPointer value struct)
    (htarget : target.outputs.head? = some t)
    (hlower : Lowering.assignment [target] .assign value lw = .ok ns lw')
    (hlays : fd.Lays d l f frame.pc ns ns') (hframe : m.stack.top? = some frame)
    (hf : m.program.function? frame.function = some f)
    (hrun : Machine.advances ns.length m = .ok () m') :
    ∃ aux t' slot size place s, l.bind (lw.auxiliary struct) = .ok aux ∧ l.bind t = .ok t' ∧
      m.place frame.fp aux = .ok slot ∧ (Ty.struct struct).size m.program.structs = .ok size ∧
      Machine.advances (ns.length - 1) m = .ok () s ∧ m.SameAside slot s ∧
      s.place frame.fp t' = .ok place ∧ m.BuildsObject frame.fp l slot
        ⟨m.arena.heapPointer, .struct struct, size⟩ place value names m' := by
  have hvalue : Literal m.primitives value (names.map fun name => .field { name }) :=
    .struct hdistinct hfields
  obtain ⟨written, copy, hidentity, hwritten, hns⟩ :=
    Lowering.assignment_byPointer hfields hpointer htarget hlower
  subst hns
  obtain ⟨declaration, aux, fields, last, t', rfl, hop, hinputs, houtputs, haux, hmade, ht,
      hlast⟩ := hlays.pointerNodes hvalue hwritten (hcopy.operator (hprimitives ▸ hidentity))
  obtain ⟨slot, hslot, hname, hslotTy⟩ :=
    hlays.declares_slot List.mem_cons_self rfl List.mem_cons_self rfl rfl
  obtain ⟨⟨-, hstorage, hauxTy, hchain⟩, hescapes⟩ :=
    hlays.laidOut.bind_slot hslot hname rfl rfl haux
  have hty : aux.ty = .pointer (.struct struct) := hauxTy.trans hslotTy
  have hstraight : ∀ n ∈ declaration :: (fields ++ [last]), n.IsStraight := by
    intro n hn
    rcases List.mem_cons.mp hn with rfl | hn
    · exact Node.isStraight_of_bare hop
    rcases List.mem_append.mp hn with hn | hn
    · exact isStraight_of_movesToPart hmade n hn
    · exact List.mem_singleton.mp hn ▸ hlast.isStraight
  obtain ⟨m₁, m₂, m₃, hm₁, hm₂, hmoved, rfl, hlast', hreached⟩ :=
    hlays.run_pointerNodes hframe hf hstraight hrun
  have hpoints : m.PointsAt frame.fp aux (frame.fp + slot.offset) struct := by
    intro a
    rw [Operand.place_eq, hstorage, hty, hchain]
    rfl
  obtain ⟨slot', size, place, hslot, hsize, hbefore, hplace, hbuilds⟩ :=
    Machine.buildsObject_of_run (hstructs ▸ Draft.Reachable.packed (hd.trans hgrows))
      (by rw [FrameLayout.structs, hlays.draft_eq, hstructs]; exact hgrows.structs) hvalue hmade
      hlast hop hinputs houtputs hpoints (by rw [Operand.valueTy, hty, hchain]; rfl) hescapes
      (FrameLayout.binds_of_bind haux).byReference_eq hm₁ hm₂ hmoved
      fun k hk s hs => ⟨_, hreached k hk s hs⟩
  unfold Machine.place at hplace
  rw [Operand.place_byReference] at hplace
  refine ⟨aux, t', slot', size, place, m₂.setPc (frame.pc + (fields.length + 1)), haux, ht, hslot,
    hsize, ?_, ⟨hbefore.program_eq, hbefore.heapPointer_le, hbefore.same⟩, hplace,
    hbuilds.offset_eq, hbuilds.heapPointer_eq, hbuilds.handle, hbuilds.fields, hbuilds.zero,
    hbuilds.same⟩
  rw [hlast']
  exact hreached fields.length le_rfl m₂ (by rwa [List.take_length])

/-- A pointer to a new literal is assigned: the object is all that has been allocated. Its named
fields hold what their initialisers stood for when they were executed, which is what they stood for
before the statement if they read memory that was allocated then, aside from the slot of the
auxiliary pointer. Its other bytes are zero, and the target, found before the last node, holds its
handle; if the target lies in the object, this is what is there. Below the object nothing has
changed but the target and that slot. -/
theorem pointer_literal_builds (hd : d.Reachable) (hgrows : d.Grows d')
    (hstructs : m.program.structs = d'.structs) (hprimitives : m.primitives = lw.primitives)
    (hcopy : m.primitives.HasCopy) (hdistinct : names.Nodup)
    (hfields : MovesFields m.primitives value names) (hpointer : Lowering.IsByPointer value struct)
    (htarget : target.outputs.head? = some t)
    (hlower : Lowering.assignment [target] .assign value lw = .ok ns lw')
    (hlays : fd.Lays d l f frame.pc ns ns') (hframe : m.stack.top? = some frame)
    (hf : m.program.function? frame.function = some f)
    (hrun : Machine.advances ns.length m = .ok () m') :
    ∃ aux t' slot size place s, l.bind (lw.auxiliary struct) = .ok aux ∧ l.bind t = .ok t' ∧
      m.place frame.fp aux = .ok slot ∧ (Ty.struct struct).size d'.structs = .ok size ∧
      Machine.advances (ns.length - 1) m = .ok () s ∧ s.place frame.fp t' = .ok place ∧
      (m.arena.HoldsAside slot (t'.reads d'.structs m.arena frame.fp) →
        m.place frame.fp t' = .ok place) ∧
      m.BuildsObject frame.fp l slot ⟨m.arena.heapPointer, .struct struct, size⟩ place value names
        m' := by
  obtain ⟨aux, t', slot, size, place, s, haux, ht, hslot, hsize, hs, hbefore, hplace, hbuilds⟩ :=
    hlays.buildsObject hd hgrows hstructs hprimitives hcopy hdistinct hfields hpointer htarget
      hlower hframe hf hrun
  refine ⟨aux, t', slot, size, place, s, haux, ht, hslot, hstructs ▸ hsize, hs, hplace,
    fun hreads => ?_, hbuilds⟩
  rw [← hstructs] at hreads
  exact (hbefore.place_eq hreads).symm.trans hplace

end Statement

/-- A draft with a struct that points to another one of its kind. -/
def linkDraft : Draft where
  structs := { defs := [⟨"Link", [⟨"next", .pointer (.struct "Link"), 0⟩], 4⟩] }

/-- The only operator is the copy. -/
def copyTable : PrimitiveTable where
  entries := [identity]

/-- The lowering in the package of the function. -/
def linkLowering : Lowering where
  structs := linkDraft.structs
  primitives := copyTable
  package := "main"

/-- The initialiser of a link whose successor is what `q` points to. -/
def linkValue : List Node := [
  { inputs := [{ name := "q", chain := [.pointer] }]
    outputs := [{ name := "next", literalPointer := true, structName := some "Link" }]
    isStructField := true }]

/-- The auxiliary pointer as it is written. -/
def linkAuxiliary : Operand :=
  { name := "$lcl0", ty := .pointer (.struct "Link"), escapes := true, literalPointer := true
    declared := true, package := "main" }

/-- What the assignment of a pointer to such a link to `p` is lowered to. -/
def linkBody : List Node := [
  { outputs := [linkAuxiliary], package := "main" },
  { inputs := [{ name := "q", chain := [.pointer] }]
    outputs := [{ linkAuxiliary with
      chain := [.field { name := "next" }], escapes := false, literalPointer := false
      structName := some "Link" }]
    isStructField := true },
  { operator := some (.native 0 "identity" identity.signature), inputs := [linkAuxiliary]
    outputs := [{ name := "p", byReference := true }], package := "main" }]

def linkFunctionDraft : FunctionDraft where
  package := "main"
  name := "link"
  params := [("q", .pointer (.pointer (.struct "Link"))), ("p", .pointer (.struct "Link"))]
  body := linkBody

/-- The frame layout of the function. -/
def linkLayout : FrameLayout where
  package := "main"
  draft := linkDraft
  slots := [⟨"$lcl0", 8, .pointer (.struct "Link")⟩, ⟨"p", 4, .pointer (.struct "Link")⟩,
    ⟨"q", 0, .pointer (.pointer (.struct "Link"))⟩]
  size := 12

/-- An operand of the laid-out function. -/
def linkOperand (name : String) (offset : Nat) (ty : Ty) : Operand :=
  { name, ty, storage := .frame offset, package := "main" }

def linkSource : Operand :=
  { linkOperand "q" 0 (.pointer (.pointer (.struct "Link"))) with chain := [.pointer] }

def linkTarget : Operand := linkOperand "p" 4 (.pointer (.struct "Link"))

/-- The auxiliary pointer, bound. -/
def linkPointer : Operand := { linkAuxiliary with storage := .frame 8 }

/-- The function, laid out. -/
def linkFunction : Function where
  package := "main"
  name := "link"
  params := [
    { linkOperand "q" 0 (.pointer (.pointer (.struct "Link"))) with declared := true },
    { linkTarget with declared := true }]
  body := [
    { outputs := [linkPointer], package := "main" },
    { inputs := [linkSource]
      outputs := [{ linkPointer with
        chain := [.field { name := "next", ty := .pointer (.struct "Link") }], escapes := false
        literalPointer := false, structName := some "Link" }]
      package := "main", isStructField := true },
    { operator := some (.native 0 "identity" identity.signature), inputs := [linkPointer]
      outputs := [{ linkTarget with byReference := true }], package := "main" }]
  frameSize := 12

/-- The frame of the call that is in progress. -/
def linkFrame : Frame where
  function := ⟨"main", "link"⟩
  fp := 8
  callerFp := 8
  size := 12
  returnsToCaller := false

/-- A machine in the function, with a link at 20 in `p` and this address in `q`. -/
def linkMachine (q : UInt8) : Machine where
  program := {
    structs := linkDraft.structs, data := List.replicate nilGuard 0, functions := [linkFunction] }
  primitives := copyTable
  options := {}
  work := {
    arena := {
      image := #[0, 0, 0, 0, 0, 0, 0, 0, q, 0, 0, 0, 20, 0, 0, 0, 0, 0, 0, 0, 0, 0, 0, 0]
      stackStart := 8, stackEnd := 20, capacity := 32, limit := 32 }
    random := .ofSeed 0 }
  stack := { frames := [linkFrame], maxDepth := 1 }

theorem reachable_linkDraft : linkDraft.Reachable := by
  have hdefine : Draft.defineStruct {} "Link" [("next", .pointer (.struct "Link"))] =
      .ok (⟨"Link", [⟨"next", .pointer (.struct "Link"), 0⟩], 4⟩, linkDraft) := rfl
  exact .tail .refl (.defineStruct hdefine)

theorem hasCopy_copyTable : copyTable.HasCopy := by
  intro code hcode
  cases hcode
  rfl

theorem movesFields_linkValue : MovesFields copyTable linkValue ["next"] :=
  .cons ⟨rfl, _, _, ⟨rfl, rfl, .inl rfl⟩, rfl⟩ .nil

theorem isByPointer_linkValue : Lowering.IsByPointer linkValue "Link" := ⟨_, _, rfl, rfl, rfl, rfl⟩

theorem assignment_linkValue : Lowering.assignment [.value { name := "p" }] .assign linkValue
    linkLowering = .ok linkBody { linkLowering with freshNames := 1 } := rfl

theorem lays_linkFunctionDraft :
    linkFunctionDraft.Lays linkDraft linkLayout linkFunction 0 linkBody linkFunction.body :=
  ⟨rfl, rfl, List.prefix_rfl, List.prefix_rfl, rfl⟩

/-- With `q` pointing to `p` the new link comes in front of the old one. -/
theorem pointer_literal_builds_linkMachine : ∃ m',
    Machine.advances 3 (linkMachine 12) = .ok () m' ∧ m'.arena.readHandle 12 = .ok 24 ∧
      m'.arena.image[24]? = some 20 := by
  obtain ⟨m', hm'⟩ : ∃ m', Machine.advances 3 (linkMachine 12) = .ok () m' := ⟨_, rfl⟩
  obtain ⟨aux, t', slot, size, place, s, haux, ht, hslot, hsize, -, -, hplace, hbuilds⟩ :=
    pointer_literal_builds reachable_linkDraft .refl rfl rfl hasCopy_copyTable (by decide)
      movesFields_linkValue isByPointer_linkValue rfl assignment_linkValue lays_linkFunctionDraft
      rfl rfl hm'
  cases haux
  cases ht
  cases hslot
  cases hsize
  cases hplace nofun
  obtain ⟨e, e', -, bytes, part, he, hbound, -, -, hpart, -, hbytes, hreads⟩ :=
    hbuilds.fields 0 _ "next" rfl rfl
  cases he
  cases hbound
  cases hpart with
  | field hty hfield hwidth =>
    cases hty
    cases hfield
    cases hwidth
    have haside : (linkMachine 12).arena.HoldsAside ⟨16, .pointer (.struct "Link"), 4⟩
        [(8, 4), (12, 4)] := by
      intro r hr
      simp only [List.mem_cons, List.not_mem_nil, or_false] at hr
      rcases hr with rfl | rfl
      · exact ⟨by decide, fun b _ hlt hcovers =>
          absurd (Nat.lt_of_lt_of_le (show b < 12 from hlt) (by decide)) hcovers.1.not_gt⟩
      · exact ⟨by decide, fun b _ hlt hcovers =>
          absurd (show b < 16 from hlt) hcovers.1.not_gt⟩
    cases hreads haside
    exact ⟨m', hm', hbuilds.handle, hbytes 0 (by decide) (show ¬(12 ≤ 24 ∧ 24 < 16) by decide)⟩

/-- With `q` pointing to the auxiliary pointer itself, the new link gets the address of itself, and
not the zero that the initialiser stood for before the statement. -/
theorem pointer_literal_rereads_auxiliary :
    (MovesFields (linkMachine 16).primitives linkValue ["next"] ∧
      Lowering.IsByPointer linkValue "Link" ∧
      Lowering.assignment [.value { name := "p" }] .assign linkValue linkLowering =
        .ok linkBody { linkLowering with freshNames := 1 } ∧
      linkFunctionDraft.Lays linkDraft linkLayout linkFunction linkFrame.pc linkBody
        linkFunction.body ∧
      (linkMachine 16).stack.top? = some linkFrame ∧
      (linkMachine 16).program.function? linkFrame.function = some linkFunction) ∧
    (∀ r ∈ linkSource.footprint linkDraft.structs (linkMachine 16).arena linkFrame.fp,
      r.1 + r.2 ≤ (linkMachine 16).arena.heapPointer) ∧
    linkSource.bytes linkDraft.structs (linkMachine 16).arena linkFrame.fp = .ok [0, 0, 0, 0] ∧
    ∃ m', Machine.advances linkBody.length (linkMachine 16) = .ok () m' ∧
      m'.arena.readHandle 12 = .ok 24 ∧ m'.arena.read 24 4 = .ok [24, 0, 0, 0] :=
  ⟨⟨movesFields_linkValue, isByPointer_linkValue, rfl, lays_linkFunctionDraft, rfl, rfl⟩, by decide,
    rfl, _, rfl, rfl, rfl⟩

end FlatMachine
