import FlatMachine.Proofs.DeclaredType
import FlatMachine.Proofs.Unmentioned

/-!
# Variables that are defined by a literal

`x := literal` declares `x` with the type of the literal. At run time its slot is zeroed, and then
every initialiser moves its argument to its field or element, which is there in every state. So the
slot ends up with the literal in it, and with zero in the fields that are not named, whatever it
held before.
-/

namespace FlatMachine

open FlatMachine.Action

namespace FrameLayout

variable {l : FrameLayout} {lw : Lowering} {table : PrimitiveTable} {t : StructTable}
  {target : Node} {o : Operand} {value : List Node} {parts : List Access} {ty : Ty} {place : Place}

/-- The node takes its arguments by value. They have this type, which is known when the node is
lowered. -/
def TakesValue (l : FrameLayout) (n : Node) (ty : Ty) : Prop :=
  ∀ v ∈ n.inputs, v.byReference = false ∧ l.Holds v ty

/-- A literal of this type, whose initialisers move arguments by value to these parts of it:
different fields of a struct, or all elements of an array, which may state its type. -/
inductive LiteralOf (l : FrameLayout) (table : PrimitiveTable) (value : List Node) :
    Ty → List Access → Prop where
  | struct {struct : String} {names : List String} {last : Node} {output : Operand}
      (hlast : value.getLast? = some last) (houtput : last.outputs.head? = some output)
      (hstruct : output.structName = some struct) (hdirect : output.literalPointer = false)
      (hdistinct : names.Nodup) (hfields : MovesFields table value names)
      (htypes : List.Forall₂ (fun n name => ∃ field,
        l.structs.field struct name = .ok field ∧ l.TakesValue n field.ty) value names) :
      LiteralOf l table value (.struct struct) (names.map fun name => .field { name })
  | array {elem : Ty} {length : UInt32} {last : Node} {output : Operand}
      (hlast : value.getLast? = some last) (houtput : last.outputs.head? = some output)
      (hstated : output.ty.isDefined = true → output.ty = .array elem length)
      (hlength : value.length = length.toNat)
      (helements : ∀ n ∈ value, n.isStructField = false ∧
        n.isArrayElement = true ∧ ∃ input output, n.Moves table input output)
      (htypes : ∀ n ∈ value, l.TakesValue n elem) :
      LiteralOf l table value (.array elem length)
        ((List.range value.length).map fun i : Nat => .index (.const i))

namespace LiteralOf

theorem literal (h : l.LiteralOf table value ty parts) : Literal table value parts := by
  cases h with
  | struct _ _ _ _ hdistinct hfields => exact .struct hdistinct hfields
  | array _ _ _ _ helements => exact .array helements

theorem isHandle_eq (h : l.LiteralOf table value ty parts) : ty.isHandle = false := by
  cases h <;> rfl

theorem isDirect (h : l.LiteralOf table value ty parts) : Lowering.IsDirect value := by
  intro n hn hkind o ho
  cases h with
  | @struct _ _ last output hlast houtput _ hdirect _ hfields =>
    cases hlast.symm.trans hn
    obtain ⟨_, -, -, input, written, hmoves, -⟩ :=
      exists_of_forall₂_right hfields.flip (List.mem_of_getLast? hlast)
    rw [hmoves.outputs_eq] at ho houtput
    cases houtput
    cases List.mem_singleton.mp ho
    exact hdirect
  | array hlast _ _ _ helements =>
    obtain ⟨hnot, -⟩ := helements n (List.mem_of_getLast? hn)
    cases hnot.symm.trans hkind

/-- Lowering reads the type off the literal. -/
theorem declaredTy (h : l.LiteralOf table value ty parts) (hstructs : lw.structs = l.structs) :
    lw.declaredTy value = .ok ty := by
  cases h with
  | struct hlast houtput hstruct hdirect _ hfields =>
    obtain ⟨_, -, hkind, -⟩ :=
      exists_of_forall₂_right hfields.flip (List.mem_of_getLast? hlast)
    rw [Lowering.declaredTy_struct hlast houtput hkind hstruct, Operand.literalTy,
      if_neg (by simp [hdirect])]
  | @array elem length last output hlast houtput hstated hlength helements htypes =>
    have hmem := List.mem_of_getLast? hlast
    obtain ⟨hfield, hkind, input, written, hmoves⟩ := helements last hmem
    rw [Lowering.declaredTy_array hlast houtput hfield hkind]
    by_cases hdefined : output.ty.isDefined = true
    · rw [if_pos hdefined, hstated hdefined]
    · have hall : value.filter (·.isArrayElement) = value :=
        List.filter_eq_self.mpr fun n hn => (helements n hn).2.1
      obtain ⟨-, hinput⟩ := htypes last hmem input (hmoves.inputs_eq ▸ List.mem_cons_self)
      have hfirst : l.FirstTy last.inputs elem := hmoves.inputs_eq ▸ .first hinput
      rw [if_neg hdefined, hfirst.firstInputTy hstructs, hall, hlength, UInt32.ofNat_toNat]
      rfl

/-- The short declaration of the literal is lowered. -/
theorem exists_assignment (h : l.LiteralOf table value ty parts)
    (hstructs : lw.structs = l.structs) (ht : target.outputs = [o]) :
    ∃ ns, Lowering.assignment [target] .define value lw =
      .ok (lw.declaration (lw.shortSymbol o ty) :: ns) lw := by
  have hty := h.declaredTy hstructs
  have hmoves := h.literal.moves
  have houtputs : ∀ n ∈ value, ∃ p, n.outputs = [p] := by
    intro n hn
    obtain ⟨input, output, hn⟩ := hmoves n hn
    exact ⟨output, hn.outputs_eq⟩
  cases h with
  | @struct struct _ _ _ hlast houtput _ hdirect _ hfields =>
    obtain ⟨_, -, hkind, -⟩ :=
      exists_of_forall₂_right hfields.flip (List.mem_of_getLast? hlast)
    obtain ⟨ns, hns, -⟩ := Lowering.exists_assignFields o.marked fun n hn _ => houtputs n hn
    have htarget := Lowering.target?_declaring ht lw (.struct struct)
    have hwritten := @Lowering.structLiteralAssignment_value lw _ _ _ _ _ _ htarget hlast houtput
      hdirect hns
    exact ⟨ns, Lowering.assignment_define_struct ht hty hlast hkind hwritten⟩
  | array hlast _ _ _ helements =>
    obtain ⟨hfield, hkind, -⟩ := helements _ (List.mem_of_getLast? hlast)
    obtain ⟨ns, hns, -⟩ := Lowering.exists_assignElements o.marked 0 fun n hn _ => houtputs n hn
    exact ⟨ns, Lowering.assignment_define_array ht hty hlast hfield hkind hns⟩

/-- A place of the literal's type has all the parts that it initialises. -/
theorem exists_part (h : l.LiteralOf table value place.ty parts) (hpacked : t.Packed)
    (hgrows : l.structs.Grows t) (hsize : place.ty.size t = .ok place.size) :
    ∀ access ∈ parts, ∃ part, place.Part t access part := by
  intro access haccess
  generalize hty : place.ty = ty at h
  cases h with
  | @struct struct names last output _ _ _ _ _ _ htypes =>
    obtain ⟨name, hname, rfl⟩ := List.mem_map.mp haccess
    obtain ⟨n, -, field, hfield, -⟩ := exists_of_forall₂_right htypes hname
    obtain ⟨total, size, -, hwidth, -⟩ := hpacked.field (hgrows.field hfield)
    exact ⟨_, .field hty (hgrows.field hfield) hwidth⟩
  | @array elem length last output _ _ _ hlength =>
    obtain ⟨i, hi, rfl⟩ := List.mem_map.mp haccess
    have hlt := List.mem_range.mp hi
    rw [hty] at hsize
    obtain ⟨width, hwidth, -⟩ := bind_eq_ok.mp hsize
    exact ⟨_, .element hty ⟨Int.natCast_nonneg i, by omega⟩ hwidth⟩

end LiteralOf

end FrameLayout

section Slots

variable {t : StructTable} {a b : Arena} {part place : Place} {escapes : Bool}

/-- In every state the laid-out nodes lead to these parts of what stands at the place: no index is
out of range. -/
def Place.Reached (t : StructTable) (fp : Nat) (place : Place) : List Access → List Node → Prop :=
  List.Forall₂ fun access n => ∃ p part, n.outputs = [p] ∧ place.Part t access part ∧
    ∀ a, p.place t a fp = .ok part

/-- A declaration zeroes the slot of a value that is not a handle, and changes nothing else. -/
theorem Arena.DeclaresSlot.zeroed (h : a.DeclaresSlot t escapes place b)
    (hty : place.ty.isHandle = false) :
    ChangedAt place a b ∧ b.Stores place.offset (List.replicate place.size 0) := by
  have hslot : b.heapPointer = a.heapPointer ∧
      b.Stores place.offset (List.replicate place.size 0) := by
    have hslot := h.slot
    split at hslot
    · rename_i hpointer
      rw [hpointer] at hty
      cases hty
    · exact hslot
  obtain ⟨hheap, hstores⟩ := hslot
  refine ⟨⟨hheap, fun i hi => ?_⟩, hstores⟩
  by_cases hlt : i < a.heapPointer
  · exact h.same i hlt hi
  · have hle : b.heapPointer ≤ i := hheap.trans_le (not_lt.mp hlt)
    rw [Array.getElem?_eq_none (not_lt.mp hlt), Array.getElem?_eq_none hle]

/-- A part of bytes that are zero. -/
theorem Arena.Stores.read_zero (h : a.Stores place.offset (List.replicate place.size 0))
    (hle : place.offset + place.size ≤ a.heapPointer) (hfrom : place.offset ≤ part.offset)
    (hto : part.offset + part.size ≤ place.offset + place.size) :
    a.read part.offset part.size = .ok (List.replicate part.size 0) := by
  have hstores : a.Stores part.offset (List.replicate part.size 0) := by
    intro i hi
    rw [List.length_replicate] at hi
    have hbyte := h (part.offset - place.offset + i) (by rw [List.length_replicate]; omega)
    rw [← Nat.add_assoc, Nat.add_sub_cancel' hfrom] at hbyte
    rw [hbyte, List.getElem?_replicate, List.getElem?_replicate, if_pos (by omega), if_pos hi]
  have hread := hstores.read (by rw [List.length_replicate]; omega)
  rwa [List.length_replicate] at hread

end Slots

namespace Machine

variable {l : FrameLayout} {fp i : Nat} {whole part : Place} {value ns : List Node}
  {parts : List Access} {access : Access} {m s : Machine}

/-- Nothing but the value changes while its parts are written. -/
theorem WritesParts.changedAt (h : m.WritesParts fp l whole value parts ns)
    (hsize : whole.ty.size m.program.structs = .ok whole.size)
    (hrun : executeAll fp (ns.take i) m = .ok () s) : m.arena.ChangedAt whole s.arena := by
  have htouches := h.touches hrun
  exact ⟨htouches.heapPointer_eq, fun b hb => htouches.getElem?_eq fun hin =>
    hb (covers_of_inParts h.packed hsize hin)⟩

/-- The parts of the value that are not written stay as they are. -/
theorem WritesParts.read_eq (h : m.WritesParts fp l whole value parts ns)
    (hrun : executeAll fp ns m = .ok () s) (hpart : whole.Part m.program.structs access part)
    (hnot : access ∉ parts) :
    s.arena.read part.offset part.size = m.arena.read part.offset part.size := by
  have hsame : m.arena.SameOn s.arena [(part.offset, part.size)] := by
    apply (h.touches_all hrun).sameOn
    refine List.forall_mem_singleton.mpr fun i hle hlt => ?_
    rintro ⟨access', hmem, part', hpart', hcovers⟩
    have hne : access ≠ access' := fun heq => hnot (heq ▸ hmem)
    exact hpart.apart h.packed hpart' hne i ⟨hle, hlt⟩ hcovers
  exact hsame _ List.mem_cons_self

/-- From `m` to `m'` the slot at the place has been given a literal. Every part with an initialiser
holds what the argument stood for when it was moved. That is what it stood for before the statement
if it follows no handle, or reads no byte of the slot. -/
structure DefinesLiteral (m : Machine) (fp : Nat) (l : FrameLayout) (place : Place)
    (value : List Node) (parts : List Access) (m' : Machine) : Prop where
  initialised : ∀ i n access, value[i]? = some n → parts[i]? = some access →
    ∃ v v' s bytes part, n.inputs = [v] ∧ l.bind v = .ok v' ∧ advances (i + 1) m = .ok () s ∧
      v'.bytes m.program.structs s.arena fp = .ok bytes ∧
      place.Part m.program.structs access part ∧
      m'.arena.read part.offset part.size = .ok bytes ∧
      ((∀ o ∈ v'.nested, o.Direct m.program.structs) ∨
        place.Misses (v'.footprint m.program.structs m.arena fp) →
          v'.bytes m.program.structs m.arena fp = .ok bytes)
  /-- All other parts are zero. -/
  zeroed : ∀ access part, place.Part m.program.structs access part → access ∉ parts →
    m'.arena.read part.offset part.size = .ok (List.replicate part.size 0)
  unchanged : m.arena.ChangedAt place m'.arena

end Machine

namespace FunctionDraft.Lays

variable {fd : FunctionDraft} {d d' : Draft} {l : FrameLayout} {f : Function} {lw : Lowering}
  {t symbol : Operand} {value ns rest nodes : List Node} {parts : List Access} {frame : Frame}
  {outer : List Frame} {m m₁ m' : Machine} {place : Place} {table : PrimitiveTable}
  {structs : StructTable} {fp pc : Nat}

/-- The name of a declaration has a place of the declared type in every frame. -/
theorem exists_place (hlays : fd.Lays d l f pc (lw.declaration symbol :: ns) nodes)
    (hgrows : l.structs.Grows structs) (hsymbol : Lowering.Declares t symbol) (fp : Nat) :
    ∃ place, l.PlaceOf structs fp t.name place ∧ place.ty = symbol.ty := by
  obtain ⟨slot, hslot, hname, hty⟩ := hlays.declares_slot List.mem_cons_self rfl
    List.mem_cons_self hsymbol.isPlain hsymbol.unassigned
  obtain ⟨size, hsize, -⟩ := (hgrows.tiled hlays.laidOut.tiled).inside (List.mem_map_of_mem hslot)
  exact ⟨⟨fp + slot.offset, slot.ty, size⟩,
    ⟨slot, hslot, hname.trans hsymbol.name_eq, rfl, rfl, hsize⟩, hty⟩

/-- The nodes of a literal that is assigned to a name lead to its parts. -/
theorem reached (hpacked : m.program.structs.Packed) (hgrows : l.structs.Grows m.program.structs)
    (hvalue : Literal table value parts) (hdirect : Lowering.IsDirect value)
    (hparts : ∀ access ∈ parts, ∃ part, place.Part m.program.structs access part)
    (hassigns : lw.AssignsTo .assign ([t].map .marked) value ns) (hlays : fd.Lays d l f pc ns nodes)
    (hplain : t.isPlain = true) (hunassigned : t.storage = .unassigned)
    (hplace : l.PlaceOf m.program.structs fp t.name place) :
    place.Reached m.program.structs fp parts nodes := by
  have htargets : ∀ o ∈ [t], o.isPlain = true ∧ o.storage = .unassigned :=
    List.forall_mem_singleton.mpr ⟨hplain, hunassigned⟩
  obtain ⟨o, o', ho, hat, hmoves⟩ := movesToParts_to_slot hvalue hdirect hassigns hlays htargets
    (.cons hplace .nil) place List.mem_cons_self
  have hlinked := hgrows.chainLinked (FrameLayout.binds_of_bind ho).linked
  have hplaceTy := hlinked.valueTy_of_place hpacked (hat m.arena)
  have hsnd : (value.zip parts).map Prod.snd = parts := List.map_snd_zip hvalue.length_eq.le
  unfold Place.Reached
  rw [← hsnd, List.forall₂_map_left_iff]
  refine forall₂_imp_of_mem hmoves ?_
  rintro x hx n ⟨e, e', p, ty, access', -, -, hmoves, hty, haccess, hpart⟩
  cases hplaceTy.symm.trans (hgrows.valueTy hty)
  obtain ⟨part, hfound⟩ := hparts x.2 (List.of_mem_zip hx).2
  exact ⟨p, part, hmoves.outputs_eq, hfound, fun a =>
    hpart.place_of_part hpacked hgrows haccess hfound (hat a)⟩

/-- The first steps of an assignment to parts are those of its first nodes. -/
theorem executes {s : Machine} {i : Nat} (hlays : fd.Lays d l f frame.pc ns nodes)
    (hframe : m.stack.top? = some frame) (hf : m.program.function? frame.function = some f)
    (hwrites : m.WritesParts frame.fp l place value parts nodes) (hi : i ≤ value.length)
    (hrun : Machine.advances i m = .ok () s) :
    ∃ s', Machine.executeAll frame.fp (nodes.take i) m = .ok () s' ∧ s'.arena = s.arena := by
  rw [← hwrites.length_eq] at hi
  obtain ⟨s', hs', rfl⟩ := (hlays.advances_eq_ok hframe hf hwrites.isStraight hi).mp hrun
  exact ⟨s', hs', rfl⟩

/-- The declaration of a name whose value is not a handle zeroes its slot, and nothing else
happens. -/
theorem zeroed (hlays : fd.Lays d l f frame.pc ([symbol].map lw.declaration) nodes)
    (hsymbol : Lowering.Declares t symbol) (hm : m.stack.frames = frame :: outer)
    (hf : m.program.function? frame.function = some f)
    (hplace : l.PlaceOf m.program.structs frame.fp t.name place)
    (hhandle : place.ty.isHandle = false) (hrun : Machine.advances 1 m = .ok () m₁) :
    m₁.stack.top? = some { frame with pc := frame.pc + 1 } ∧ m₁.program = m.program ∧
      m₁.primitives = m.primitives ∧ m.arena.ChangedAt place m₁.arena ∧
      place.offset + place.size ≤ m₁.arena.heapPointer ∧
      m₁.arena.Stores place.offset (List.replicate place.size 0) := by
  obtain ⟨hframes, hprogram, hprimitives, places, hplaces, hslots⟩ :=
    hlays.declaresSlots (.cons hsymbol .nil) hm hf hrun
  obtain ⟨place₁, rfl, hplace₁⟩ := exists_of_forall₂_singleton hplaces
  cases hplace₁.unique hplace hlays.laidOut
  have hbelow := hslots.stop_le place List.mem_cons_self
  cases hslots with
  | cons hslot hnone =>
    cases hnone
    obtain ⟨hchanged, hzero⟩ := hslot.zeroed hhandle
    refine ⟨?_, hprogram, hprimitives, hchanged, hbelow, hzero⟩
    rw [CallStack.top?, hframes, List.head?_cons]
    rfl

/-- An operand that leaves out the name, and follows no handle, reads nothing of its slot. -/
theorem misses_footprint {v v' : Operand} (hd : d.Reachable) (hgrows : d.Grows d')
    (hlays : fd.Lays d l f pc ns nodes) (hdata : d'.data.length ≤ fp)
    (hplace : l.PlaceOf d'.structs fp t.name place) (hother : v.LeavesOut d' t.name)
    (hbound : l.bind v = .ok v') (hdirect : ∀ o ∈ v'.nested, o.Direct d'.structs) (a : Arena) :
    place.Misses (v'.footprint d'.structs a fp) := by
  rw [← hlays.draft_eq] at hd hgrows
  exact FrameLayout.misses_footprint hplace hlays.laidOut hd hgrows hdata hbound hother hdirect a

/-- What has become of the slot when the nodes have run. -/
theorem definesLiteral (hd : d.Reachable) (hgrows : d.Grows d')
    (hstructs : m.program.structs = d'.structs) (hvalue : Literal m.primitives value parts)
    (hdirect : Lowering.IsDirect value)
    (hassigns : lw.AssignsTo .assign ([t].map .marked) value rest)
    (hsymbol : Lowering.Declares t symbol)
    (hlays : fd.Lays d l f frame.pc (lw.declaration symbol :: rest) nodes)
    (hplain : t.isPlain = true) (hunassigned : t.storage = .unassigned)
    (hother : ∀ n ∈ value, ∀ v ∈ n.inputs, v.LeavesOut d' t.name)
    (hm : m.stack.frames = frame :: outer) (hf : m.program.function? frame.function = some f)
    (hdata : d'.data.length ≤ frame.fp)
    (hplace : l.PlaceOf m.program.structs frame.fp t.name place)
    (hhandle : place.ty.isHandle = false)
    (hrun : Machine.advances (value.length + 1) m = .ok () m') :
    m.DefinesLiteral frame.fp l place value parts m' := by
  have hsplit : fd.Lays d l f frame.pc ([symbol].map lw.declaration ++ rest) nodes := hlays
  obtain ⟨front, back, rfl, hfront, hback⟩ := hsplit.append
  obtain ⟨b, m₁, hfirst, hrest⟩ := Machine.advances_succ.mp hrun
  obtain ⟨htop, hprogram, hprimitives, hzeroed, hbelow, hzero⟩ := hfront.zeroed hsymbol hm hf hplace
    hhandle (Machine.advances_succ.mpr ⟨b, m₁, hfirst, rfl⟩)
  let frame₁ : Frame := { frame with pc := frame.pc + 1 }
  have hnext : fd.Lays d l f frame₁.pc rest back := hback
  have hf₁ : m₁.program.function? frame₁.function = some f := hprogram ▸ hf
  have hplace₁ : l.PlaceOf m₁.program.structs frame₁.fp t.name place := hprogram ▸ hplace
  have hsize := hplace₁.size_eq
  have hwrites : m₁.WritesParts frame₁.fp l place value parts back :=
    hnext.writesParts_to_slot hd hgrows (hprogram ▸ hstructs) (hprimitives ▸ hvalue) hdirect
      hassigns (List.forall_mem_singleton.mpr ⟨hplain, hunassigned⟩) (.cons hplace₁ .nil) place
      List.mem_cons_self hhandle
  have hlength : rest.length = value.length := hnext.length_eq.symm.trans hwrites.length_eq
  have hassigned := hnext.assignsParts htop hf₁ hwrites (hlength ▸ hrest)
  have hchanged : ∀ i s, i ≤ value.length → Machine.advances i m₁ = .ok () s →
      m.arena.ChangedAt place s.arena := by
    intro i s hi hs
    obtain ⟨s', hs', harena⟩ := hnext.executes htop hf₁ hwrites hi hs
    exact hzeroed.trans (harena ▸ hwrites.changedAt hsize hs')
  refine ⟨fun i n access hn haccess => ?_, fun access part hpart hnot => ?_,
    hchanged _ _ le_rfl hrest⟩
  · obtain ⟨v, v', s, bytes, part, hv, hbound, hs, hbytes, hpart, hread, -⟩ :=
      hassigned i n access hn haccess
    rw [hprogram] at hbytes hpart
    refine ⟨v, v', s, bytes, part, hv, hbound, Machine.advances_succ.mpr ⟨b, m₁, hfirst, hs⟩,
      hbytes, hpart, hread, fun hclear => ?_⟩
    have hmisses : place.Misses (v'.footprint m.program.structs m.arena frame.fp) := by
      rcases hclear with hdirect | hmisses
      · rw [hstructs] at hplace hdirect ⊢
        have hv : v ∈ n.inputs := hv ▸ List.mem_cons_self
        exact hback.misses_footprint hd hgrows hdata hplace
          (hother n (List.mem_of_getElem? hn) v hv) hbound hdirect m.arena
      · exact hmisses
    have hi : i ≤ value.length := (List.getElem?_eq_some_iff.mp hn).1.le
    rwa [Operand.bytes_congr ((hchanged i s hi hs).sameOn hmisses)] at hbytes
  · obtain ⟨s', hs', harena⟩ := hnext.executes htop hf₁ hwrites le_rfl hrest
    rw [← hwrites.length_eq, List.take_length] at hs'
    rw [← hprogram] at hpart
    obtain ⟨hfrom, hto⟩ := hpart.inside hwrites.packed hsize
    rw [← harena, hwrites.read_eq hs' hpart hnot]
    exact hzero.read_zero hbelow hfrom hto

end FunctionDraft.Lays

section Statement

variable {fd : FunctionDraft} {d d' : Draft} {l : FrameLayout} {f : Function} {lw : Lowering}
  {target : Node} {t : Operand} {value nodes : List Node} {parts : List Access} {ty : Ty}
  {frame : Frame} {outer : List Frame} {m : Machine}

/-- `x := literal`, with initialisers that leave `x` out, is lowered, and declares `x` with the type
of the literal. Laid out, its nodes lead to the fields or elements of the slot of `x` in every
state. When they have run in a frame above the data segment, these hold what the initialisers stood
for, all other fields are zero, and nothing but the slot has changed. -/
theorem literal_definition_yields (hd : d.Reachable) (hgrows : d.Grows d')
    (hstructs : m.program.structs = d'.structs) (htable : lw.structs = l.structs)
    (ht : target.outputs = [t]) (hplain : t.isPlain = true) (hunassigned : t.storage = .unassigned)
    (hvalue : l.LiteralOf m.primitives value ty parts)
    (hother : ∀ n ∈ value, ∀ v ∈ n.inputs, v.LeavesOut d' t.name)
    (hm : m.stack.frames = frame :: outer) (hf : m.program.function? frame.function = some f)
    (hdata : d'.data.length ≤ frame.fp) :
    ∃ ns, Lowering.assignment [target] .define value lw =
        .ok (lw.declaration (lw.shortSymbol t ty) :: ns) lw ∧
      (fd.Lays d l f frame.pc (lw.declaration (lw.shortSymbol t ty) :: ns) nodes →
        ∃ place, l.PlaceOf m.program.structs frame.fp t.name place ∧ place.ty = ty ∧
          place.Reached m.program.structs frame.fp parts (nodes.drop 1) ∧
          ∀ m', Machine.advances (value.length + 1) m = .ok () m' →
            m.DefinesLiteral frame.fp l place value parts m') := by
  obtain ⟨ns, hlower⟩ := hvalue.exists_assignment htable ht
  refine ⟨ns, hlower, fun hlays => ?_⟩
  have hlgrows : l.structs.Grows m.program.structs := by
    rw [FrameLayout.structs, hlays.draft_eq, hstructs]
    exact hgrows.structs
  have hpacked : m.program.structs.Packed := hstructs ▸ Draft.Reachable.packed (hd.trans hgrows)
  have hsymbol := lw.declares_shortSymbol t ty
  obtain ⟨place, hplace, hty⟩ := hlays.exists_place hlgrows hsymbol frame.fp
  have hplaceTy : place.ty = ty := hty
  subst hplaceTy
  have hassigns : lw.AssignsTo .assign ([t].map .marked) value ns := by
    have hassigns : lw.AssignsTo .define [t] value _ := .one ht rfl hlower
    obtain ⟨symbols, rest, hns, hsymbols, hassigns⟩ := hassigns.declares
    obtain ⟨symbol, rfl, -⟩ := exists_of_forall₂_singleton hsymbols
    obtain ⟨-, rfl⟩ := List.cons.inj hns
    exact hassigns
  refine ⟨place, hplace, rfl, ?_, fun m' hrun => ?_⟩
  · have hsplit : fd.Lays d l f frame.pc
        ([lw.declaration (lw.shortSymbol t place.ty)] ++ ns) nodes := hlays
    obtain ⟨front, back, rfl, hfront, hback⟩ := hsplit.append
    have hdrop : (front ++ back).drop 1 = back := List.drop_left' hfront.length_eq
    rw [hdrop]
    exact hback.reached hpacked hlgrows hvalue.literal hvalue.isDirect
      (hvalue.exists_part hpacked hlgrows hplace.size_eq) hassigns hplain hunassigned hplace
  · exact hlays.definesLiteral hd hgrows hstructs hvalue.literal hvalue.isDirect hassigns hsymbol
      hplain hunassigned hother hm hf hdata hplace hvalue.isHandle_eq hrun

end Statement

/-- `Pair{y: y}`. -/
def halfValue : List Node := [
  { inputs := [{ name := "y", ty := .i32 }]
    outputs := [{ name := "y", structName := some "Pair" }], isStructField := true }]

/-- What `x := Pair{y: y}` is lowered to. -/
def halfBody : List Node := [
  swapLowering.declaration (swapLowering.shortSymbol { name := "x" } (.struct "Pair")),
  { inputs := [{ name := "y", ty := .i32 }]
    outputs := [{ name := "x", declared := true, shortDeclared := true
                  chain := [.field { name := "y" }], structName := some "Pair" }]
    isStructField := true }]

def halfDraft : FunctionDraft where
  package := "main"
  name := "half"
  params := [("y", .i32)]
  body := halfBody

/-- The frame layout of the function. -/
def halfLayout : FrameLayout where
  package := "main"
  draft := pairDraft
  slots := [⟨"x", 4, .struct "Pair"⟩, ⟨"y", 0, .i32⟩]
  size := 12

/-- The pair in the laid-out function, or its field. -/
def halfPair (chain : List Access) : Operand :=
  { name := "x", ty := .struct "Pair", storage := .frame 4, chain, declared := true
    shortDeclared := true, package := "main" }

/-- The function, laid out. -/
def halfFunction : Function where
  package := "main"
  name := "half"
  params := [{ againOperand "y" 0 with declared := true }]
  body := [
    { outputs := [halfPair []], package := "main" },
    { inputs := [againOperand "y" 0]
      outputs := [{ halfPair [.field { name := "y", offset := 4, ty := .i32 }] with
                    structName := some "Pair" }]
      package := "main", isStructField := true }]
  frameSize := 12

/-- The frame of the call that is in progress. -/
def halfFrame : Frame where
  function := ⟨"main", "half"⟩
  fp := 8
  callerFp := 8
  size := 12
  returnsToCaller := false

/-- A machine in the function, with 5 in `y` and other bytes in the slot of `x`. -/
def halfMachine : Machine where
  program := {
    structs := pairDraft.structs, data := List.replicate nilGuard 0, functions := [halfFunction] }
  primitives := .empty
  options := {}
  work := {
    arena := {
      image := #[0, 0, 0, 0, 0, 0, 0, 0, 5, 0, 0, 0, 7, 7, 7, 7, 7, 7, 7, 7]
      stackStart := 8, stackEnd := 20, capacity := 20, limit := 20 }
    random := .ofSeed 0 }
  stack := { frames := [halfFrame], maxDepth := 1 }

theorem literalOf_halfValue :
    halfLayout.LiteralOf .empty halfValue (.struct "Pair") [.field { name := "y" }] := by
  have hmoves : MovesFields .empty halfValue ["y"] :=
    .cons ⟨rfl, _, _, ⟨rfl, rfl, .inl rfl⟩, rfl⟩ .nil
  refine .struct rfl rfl rfl rfl (by decide) hmoves (.cons ⟨_, rfl, ?_⟩ .nil)
  exact List.forall_mem_singleton.mpr ⟨rfl, rfl, againOperand "y" 0, rfl, rfl⟩

theorem leavesOut_halfValue : ∀ n ∈ halfValue, ∀ v ∈ n.inputs, v.LeavesOut pairDraft "x" := by
  refine List.forall_mem_singleton.mpr (List.forall_mem_singleton.mpr ?_)
  exact List.forall_mem_singleton.mpr (.inl ⟨rfl, by decide⟩)

theorem lays_halfDraft :
    halfDraft.Lays pairDraft halfLayout halfFunction 0 halfBody halfFunction.body :=
  ⟨rfl, rfl, List.prefix_rfl, List.prefix_rfl, rfl⟩

/-- The field that is named gets its value, and the other one is zero. -/
theorem literal_definition_yields_halfMachine : ∃ m',
    Machine.advances 2 halfMachine = .ok () m' ∧ m'.arena.read 12 4 = .ok [0, 0, 0, 0] ∧
      m'.arena.read 16 4 = .ok [5, 0, 0, 0] := by
  obtain ⟨ns, hlower, hdefined⟩ := @literal_definition_yields halfDraft pairDraft pairDraft
    halfLayout halfFunction swapLowering (.value { name := "x" }) { name := "x" } halfValue
    halfFunction.body _ _ halfFrame [] halfMachine reachable_pairDraft .refl rfl rfl rfl rfl rfl
    literalOf_halfValue leavesOut_halfValue rfl rfl (by decide)
  have hbody : Lowering.assignment [.value { name := "x" }] .define halfValue swapLowering =
      .ok halfBody swapLowering := rfl
  obtain ⟨hns, -⟩ := EStateM.Result.ok.inj (hbody.symm.trans hlower)
  obtain ⟨-, rfl⟩ := List.cons.inj hns
  obtain ⟨place, ⟨slot, hslot, hname, hoffset, -⟩, hty, -, hyields⟩ := hdefined lays_halfDraft
  have hat : place.offset = 12 := by
    simp only [halfLayout, FrameLayout.inOrder, List.reverse_cons, List.reverse_nil,
      List.nil_append, List.cons_append, List.mem_cons, List.not_mem_nil, or_false] at hslot
    rcases hslot with rfl | rfl
    · exact absurd hname (by decide)
    · exact hoffset
  obtain ⟨m', hm'⟩ : ∃ m', Machine.advances 2 halfMachine = .ok () m' := ⟨_, rfl⟩
  have h := hyields m' hm'
  have hzero := h.zeroed (.field { name := "x" }) _ (.field hty rfl rfl) (by simp)
  obtain ⟨v, v', s, bytes, part, hv, hbound, -, -, hpart, hread, hbefore⟩ :=
    h.initialised 0 _ _ rfl rfl
  cases hv
  cases hbound
  have hbytes := hbefore (.inl (List.forall_mem_singleton.mpr trivial))
  cases hbytes
  cases hpart with
  | field hstruct hfield hsize =>
    cases hty.symm.trans hstruct
    cases hfield
    cases hsize
    rw [hat] at hzero hread
    exact ⟨m', hm', hzero, hread⟩

end FlatMachine
