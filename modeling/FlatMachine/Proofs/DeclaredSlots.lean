import FlatMachine.Proofs.Codec
import FlatMachine.Proofs.HeapObjects
import FlatMachine.Proofs.Statements

/-!
# Declared slots

A declaration zeroes the slot of its symbol. The slot of a pointer that escapes gets the handle of a
new object, which is zeroed too. Nothing else changes.
-/

namespace FlatMachine

open FlatMachine.Action

/-- What a declaration makes of the slot at a place and of the memory around it. -/
structure Arena.DeclaresSlot (t : StructTable) (escapes : Bool) (place : Place) (a b : Arena) :
    Prop where
  stop_le : place.offset + place.size ≤ a.heapPointer
  heapPointer_le : a.heapPointer ≤ b.heapPointer
  same : ∀ i < a.heapPointer, ¬ place.Covers i → b.image[i]? = a.image[i]?
  fresh : ∀ i, a.heapPointer ≤ i → i < b.heapPointer → b.image[i]? = some 0
  slot : match escapes, place.ty with
    | true, .pointer target => ∃ size, target.size t = .ok size ∧ place.size = Ty.handleWidth ∧
        b.heapPointer = a.heapPointer + size ∧ b.readHandle place.offset = .ok a.heapPointer
    | _, _ => b.heapPointer = a.heapPointer ∧
        b.Stores place.offset (List.replicate place.size 0)

theorem Arena.Stores.readHandle {a : Arena} {offset n : Nat}
    (h : a.Stores offset (LittleEndian.encode headerWidth n))
    (hle : offset + headerWidth ≤ a.heapPointer) (hn : n ≤ Size.maxHandle) :
    a.readHandle offset = .ok n := by
  have hlen : (LittleEndian.encode headerWidth n).length = headerWidth :=
    LittleEndian.length_encode ..
  have hread := h.read (hlen.symm ▸ hle)
  rw [hlen] at hread
  refine bind_eq_ok.mpr ⟨_, hread, ?_⟩
  rw [LittleEndian.decode_encode (le_maxHandle_iff.mp hn)]
  rfl

section Declared

variable {t : StructTable} {escapes : Bool} {place : Place} {target : Ty} {a b c e : Arena}
  {size : Nat}

/-- A slot that has been zeroed, and gets no object. -/
theorem Arena.declaresSlot_zeroed (hle : place.offset + place.size ≤ a.heapPointer)
    (hchanged : ChangedIn a b place.offset place.size)
    (hstores : b.Stores place.offset (List.replicate place.size 0))
    (hplain : ∀ target, escapes = true → place.ty ≠ .pointer target) :
    a.DeclaresSlot t escapes place b where
  stop_le := hle
  heapPointer_le := hchanged.heapPointer_eq.ge
  same i _ hcovers := by
    apply hchanged.getElem?_eq
    unfold Place.Covers at hcovers
    omega
  fresh _ hi hlt := absurd (hlt.trans_eq hchanged.heapPointer_eq) hi.not_gt
  slot := by
    split
    · rename_i hty
      exact (hplain _ rfl hty).elim
    · exact ⟨hchanged.heapPointer_eq, hstores⟩

/-- A slot that has been zeroed and then got the handle of an object above it. -/
theorem Arena.declaresSlot_allocated (hle : place.offset + place.size ≤ a.heapPointer)
    (hchanged : ChangedIn a b place.offset place.size) (hgains : Gains b size c)
    (hwritten : ChangedIn c e place.offset headerWidth)
    (hstores : e.Stores place.offset (LittleEndian.encode headerWidth b.heapPointer))
    (hmax : b.heapPointer ≤ Size.maxHandle) (hty : place.ty = .pointer target)
    (hsize : target.size t = .ok size) (hwidth : place.size = Ty.handleWidth) :
    a.DeclaresSlot t true place e := by
  have hheader : headerWidth = Ty.handleWidth := rfl
  have hstart := hchanged.heapPointer_eq
  have hheap : e.heapPointer = a.heapPointer + size := by
    rw [hwritten.heapPointer_eq, hgains.heapPointer_eq, hstart]
  -- the handle is written to the slot, below everything that is new
  have hbelow : ∀ i, ¬ place.Covers i → e.image[i]? = c.image[i]? := by
    intro i hnot
    apply hwritten.getElem?_eq
    unfold Place.Covers at hnot
    omega
  refine ⟨hle, by omega, fun i hi hnot => ?_, fun i hi hlt => ?_, ?_⟩
  · rw [hbelow i hnot, hgains.toExtends.getElem?_eq i (hstart.symm ▸ hi)]
    apply hchanged.getElem?_eq
    unfold Place.Covers at hnot
    omega
  · have hnot : ¬ place.Covers i := by
      unfold Place.Covers
      omega
    have hzero := hgains.getElem?_eq_zero (i := i - a.heapPointer) (by omega)
    rw [hbelow i hnot]
    rw [hstart, Nat.add_sub_cancel' hi] at hzero
    exact hzero
  · simp only [hty]
    rw [hstart] at hstores hmax
    refine ⟨size, hsize, hwidth, hheap, hstores.readHandle ?_ hmax⟩
    omega

end Declared

namespace Machine

variable {t : StructTable} {fp : Nat} {o : Operand} {a : Arena}

theorem ends_declare : Ends (declare t fp o) a
    (fun _ b => ∃ place, o.place t a fp = .ok place ∧ a.DeclaresSlot t o.escapes place b)
    (fun _ _ => True) := by
  simp only [declare, ends_bind, ends_query, ends_update]
  apply gives_of_ok ?_ fun _ => trivial
  intro place hplace
  apply Arena.gives_zero.mono ?_ fun _ _ => trivial
  rintro b ⟨hle, rfl⟩
  have hzero : (List.replicate place.size (0 : UInt8)).length = place.size := List.length_replicate
  obtain ⟨hchanged, hstores⟩ := Arena.overlay_stored hle hzero
  split
  · rename_i target hescapes hty
    simp only [ends_bind, ends_ofExcept, Action.ends_advance, ends_update]
    apply gives_of_ok ?_ fun _ => trivial
    intro size hsize
    apply Arena.gives_allocate_gains.mono ?_ fun _ _ => trivial
    rintro ⟨handle, c⟩ ⟨rfl, hgains⟩
    apply Arena.gives_writeHandle_stores.mono ?_ fun _ _ => trivial
    rintro e ⟨hmax, hwritten, hhandle⟩
    have hwidth : place.size = Ty.handleWidth := by
      have hsize := Operand.size_of_place hplace
      rw [hty] at hsize
      exact (Except.ok.inj hsize).symm
    rw [hescapes]
    exact ⟨place, hplace, Arena.declaresSlot_allocated hle hchanged hgains hwritten hhandle hmax hty
      hsize hwidth⟩
  · rename_i hplain
    exact ⟨place, hplace, Arena.declaresSlot_zeroed hle hchanged hstores hplain⟩

/-- Executing the declaration of one operand. -/
theorem ends_declaration {m : Machine} {n : Node} (hop : n.operator = none)
    (hinputs : n.inputs = []) (houtputs : n.outputs = [o]) : Ends (executeNode fp n) m
      (fun _ m' => ∃ place b, m.place fp o = .ok place ∧
        m.arena.DeclaresSlot m.program.structs o.escapes place b ∧
        m' = { m with work := { m.work with arena := b } })
      (fun _ _ => True) := by
  simp only [executeNode, ends_bind, ends_get, hop, executeBare, hinputs, houtputs, declareAll,
    ends_onArena, ends_pure]
  apply (ends_declare (o := o)).mono ?_ fun _ _ _ => trivial
  rintro - b ⟨place, hplace, hslot⟩
  exact ⟨place, b, hplace, hslot, rfl⟩

end Machine

section Layout

variable {l : FrameLayout} {declared : List (String × Ty)} {slot : Slot} {o o' : Operand}

/-- A name that has a slot is a symbol in that slot. -/
theorem FrameLayout.LaidOut.symbol (h : l.LaidOut declared) (hslot : slot ∈ l.inOrder)
    (package : String) : l.symbol slot.name package = .ok (.frame slot.offset, slot.ty) := by
  unfold FrameLayout.symbol
  cases hfound : l.slot? slot.name with
  | none => exact absurd (List.mem_map_of_mem hslot) (slot?_eq_none hfound)
  | some slot' =>
    obtain ⟨hslot', hname⟩ := slot?_eq_some hfound
    cases List.inj_on_of_nodup_map h.nodup hslot' hslot hname
    rfl

/-- The operand is the slot itself. -/
structure Operand.IsSlot (o : Operand) (slot : Slot) : Prop where
  name_eq : slot.name = o.name
  storage_eq : o.storage = .frame slot.offset
  ty_eq : o.ty = slot.ty
  chain_eq : o.chain = []

/-- The slot lies in the frame, whatever lies in memory. -/
theorem Operand.IsSlot.place_eq_ok {t : StructTable} {a : Arena} {fp : Nat} {place : Place}
    (h : o.IsSlot slot) : o.place t a fp = .ok place ↔
      place.offset = fp + slot.offset ∧ place.ty = slot.ty ∧ slot.ty.size t = .ok place.size := by
  rw [Operand.place_eq, h.storage_eq, h.chain_eq, h.ty_eq]
  constructor
  · intro hplace
    obtain ⟨start, hstart, hplace⟩ := bind_eq_ok.mp hplace
    cases hstart
    obtain ⟨found, hfound, hplace⟩ := bind_eq_ok.mp hplace
    cases hfound
    obtain ⟨size, hsize, hplace⟩ := bind_eq_ok.mp hplace
    cases hplace
    exact ⟨rfl, rfl, hsize⟩
  · obtain ⟨offset, ty, size⟩ := place
    rintro ⟨rfl, rfl, hsize⟩
    exact bind_eq_ok.mpr ⟨_, rfl, bind_eq_ok.mpr ⟨_, rfl, bind_eq_ok.mpr ⟨size, hsize, rfl⟩⟩⟩

/-- A name is bound to its slot. -/
theorem FrameLayout.LaidOut.bind_slot (h : l.LaidOut declared) (hslot : slot ∈ l.inOrder)
    (hname : slot.name = o.name) (hplain : o.isPlain = true) (hunassigned : o.storage = .unassigned)
    (hbind : l.bind o = .ok o') : o'.IsSlot slot ∧ o'.escapes = o.escapes := by
  have hchain : o.chain = [] := by simpa [Operand.isPlain] using hplain
  have hsymbol := h.symbol hslot o.package
  rw [bind_eq, origin, if_pos hunassigned, ← hname, hsymbol, hchain] at hbind
  obtain ⟨origin, horigin, hbind⟩ := bind_eq_ok.mp hbind
  obtain ⟨known, hknown, horigin⟩ := bind_eq_ok.mp horigin
  cases hknown
  split at horigin
  · cases horigin
  cases horigin
  obtain ⟨chain, hlinked, hbind⟩ := bind_eq_ok.mp hbind
  cases hlinked
  cases hbind
  exact ⟨⟨rfl, rfl, rfl, rfl⟩, rfl⟩

end Layout

namespace FunctionDraft.Lays

variable {fd : FunctionDraft} {d : Draft} {l : FrameLayout} {f : Function} {pc : Nat}
  {ns ns' : List Node} {n : Node} {o o' : Operand}

theorem mem_body (h : fd.Lays d l f pc ns ns') (hn : n ∈ ns) : n ∈ fd.body :=
  List.mem_of_mem_drop (h.written.subset hn)

/-- A symbol that a node of the statement declares has a slot in the frame. -/
theorem declares_slot (h : fd.Lays d l f pc ns ns') (hn : n ∈ ns)
    (hdeclaration : n.isDeclaration = true) (ho : o ∈ n.outputs) (hplain : o.isPlain = true)
    (hunassigned : o.storage = .unassigned) :
    ∃ slot ∈ l.inOrder, slot.name = o.name ∧ slot.ty = o.ty := by
  refine h.laidOut.ty_eq o.name o.ty (List.mem_append_right _ (List.mem_append_right _ ?_))
  refine List.mem_flatMap.mpr ⟨n, h.mem_body hn, ?_⟩
  rw [FrameLayout.declarations, if_pos hdeclaration]
  exact List.mem_map_of_mem (List.mem_filter.mpr ⟨ho, by simp [hplain, hunassigned]⟩)

end FunctionDraft.Lays

end FlatMachine
