import FlatMachine.Proofs.Variables

/-!
# Objects as values

A string or slice is read from an object: the bytes of a text, or elements of which each is a scalar
or an address. What is read depends on the elements alone, and whatever can be read lies in an
object. So a variable that holds a string or slice keeps its value as long as neither its slot nor
its object changes.
-/

namespace FlatMachine

open FlatMachine.Action

section Elements

variable {elem : Ty} {width count : Nat} {bytes : Bytes} {elements : List Bytes}
  {items : List Value}

/-- Each element is read as the item at its position. -/
def Ty.Spells (elem : Ty) (elements : List Bytes) (items : List Value) : Prop :=
  List.Forall₂ (fun bytes v => elem.elementView.decodeWord bytes = .ok v) elements items

theorem Ty.Spells.set {e : Bytes} {v : Value} (h : elem.Spells elements items)
    (hv : elem.elementView.decodeWord e = .ok v) (i : Nat) :
    elem.Spells (elements.set i e) (items.set i v) := by
  induction h generalizing i with
  | nil => exact .nil
  | cons hhead hrest ih =>
    cases i with
    | zero => exact .cons hv hrest
    | succ i => exact .cons hhead (ih i)

theorem Ty.Spells.copied {room : List Bytes} {places : List Value} (h : elem.Spells elements items)
    (hroom : elem.Spells room places) : elem.Spells (Arena.copied elements room)
      (items.take places.length ++ places.drop items.length) := by
  have hfront := List.forall₂_take (min room.length elements.length) h
  have hback := List.forall₂_drop (min room.length elements.length) hroom
  have hspells : elem.Spells (Arena.copied elements room) _ := List.rel_append hfront hback
  rw [hroom.length_eq, h.length_eq] at hspells
  have htake : items.take (min places.length items.length) = items.take places.length :=
    List.take_eq_take_min.symm
  have hdrop : places.drop (min places.length items.length) = places.drop items.length := by
    rcases le_total places.length items.length with hle | hle
    · rw [min_eq_left hle, List.drop_length, List.drop_of_length_le hle]
    · rw [min_eq_right hle]
  rwa [htake, hdrop] at hspells

theorem Ty.decodeElements_flatten (h : ∀ e ∈ elements, e.length = width) :
    elem.decodeElements width elements.length elements.flatten = .ok items ↔
      elem.Spells elements items := by
  induction elements generalizing items with
  | nil =>
    rw [Spells, List.forall₂_nil_left_iff]
    exact ⟨fun h => (Except.ok.inj h).symm, fun h => congrArg Except.ok h.symm⟩
  | cons e rest ih =>
    obtain ⟨he, hrest⟩ := List.forall_mem_cons.mp h
    rw [Spells, List.forall₂_cons_left_iff, List.flatten_cons, List.length_cons, decodeElements,
      List.take_left' he, List.drop_left' he]
    constructor
    · intro h
      obtain ⟨v, hv, h⟩ := bind_eq_ok.mp h
      obtain ⟨others, hothers, h⟩ := bind_eq_ok.mp h
      cases h
      exact ⟨v, others, hv, (ih hrest).mp hothers, rfl⟩
    · rintro ⟨v, others, hv, hothers, rfl⟩
      exact bind_eq_ok.mpr ⟨v, hv, bind_eq_ok.mpr ⟨others, (ih hrest).mpr hothers, rfl⟩⟩

/-- Bytes that are as many as so many elements of a width are such elements. -/
theorem exists_elements (h : bytes.length = count * width) : ∃ elements : List Bytes,
    elements.length = count ∧ (∀ e ∈ elements, e.length = width) ∧ elements.flatten = bytes := by
  induction count generalizing bytes with
  | zero =>
    rw [Nat.zero_mul, List.length_eq_zero_iff] at h
    exact ⟨[], rfl, nofun, h.symm⟩
  | succ count ih =>
    rw [Nat.succ_mul] at h
    have hrest : (bytes.drop width).length = count * width := by simp [h]
    obtain ⟨elements, hcount, hwidth, hflat⟩ := ih hrest
    refine ⟨bytes.take width :: elements, by simp [hcount], ?_, by simp [hflat]⟩
    exact List.forall_mem_cons.mpr ⟨by simp [h], hwidth⟩

end Elements

namespace Arena

variable {a b c : Arena} {handle width count offset : Nat} {bytes : Bytes} {elements : List Bytes}
  {elem : Ty} {index : Int} {v : Value} {o : Listing}

theorem payload_eq_ok (h : a.payload handle width = .ok bytes) :
    ∃ count, a.objectLength handle = .ok count ∧ bytes.length = count * width ∧
      (handle ≠ nilHandle → a.read (handle + headerWidth) (count * width) = .ok bytes) := by
  unfold payload at h
  split at h
  · rename_i hnil
    cases h
    refine ⟨0, ?_, (Nat.zero_mul width).symm, fun hne => absurd hnil hne⟩
    rw [objectLength, if_pos hnil]
  · obtain ⟨count, hcount, h⟩ := bind_eq_ok.mp h
    dsimp only at h
    split at h
    · cases h
    · obtain ⟨-, hlen, -⟩ := gives_read.value h
      exact ⟨count, hcount, hlen, fun _ => h⟩

theorem elementOffset_eq_ok (h : a.elementOffset handle index width = .ok offset) :
    ∃ count, a.objectLength handle = .ok count ∧ 0 ≤ index ∧ index < count ∧
      offset = handle + headerWidth + index.toNat * width := by
  obtain ⟨count, hcount, h⟩ := bind_eq_ok.mp h
  split at h
  · cases h
  · cases h
    exact ⟨count, hcount, by omega, by omega, rfl⟩

theorem hasObject_nil (hnil : handle = nilHandle) (hpos : 0 < width) :
    a.HasObject handle ⟨width, []⟩ :=
  ⟨⟨hpos, nofun, Nat.zero_le _⟩, fun hne => absurd hnil hne, fun _ => rfl⟩

/-- An element can be read where it lies. -/
theorem HasObject.read_element {element : Bytes} (h : a.HasObject handle ⟨width, elements⟩)
    (hpos : 0 ≤ index) (he : elements[index.toNat]? = some element) :
    ∃ offset, a.elementOffset handle index width = .ok offset ∧
      a.read offset width = .ok element := by
  obtain ⟨hlt, rfl⟩ := List.getElem?_eq_some_iff.mp he
  have hnil : handle ≠ nilHandle := h.ne_nil (by omega)
  have hcount : a.objectLength handle = .ok elements.length := h.shows.1
  have hin : ¬ (index < 0 ∨ (elements.length : Int) ≤ index) := by omega
  refine ⟨handle + headerWidth + index.toNat * width, ?_, ?_⟩
  · rw [elementOffset, hcount]
    exact if_neg hin
  · have hlen := h.sound.length_eq
    have hstop : handle + headerWidth + elements.length * width ≤ a.heapPointer := h.stop_le hnil
    have hstored := (stores_append.mp (h.stores hnil)).2
    have hfront : (elements.take index.toNat).flatten.length = index.toNat * width := by
      rw [length_flatten_of_forall fun e he => hlen e (List.mem_of_mem_take he),
        List.length_take_of_le hlt.le]
    have hsplit : elements.flatten = (elements.take index.toNat).flatten ++
        (elements[index.toNat] ++ (elements.drop (index.toNat + 1)).flatten) := by
      rw [← List.flatten_cons, ← List.flatten_append, List.getElem_cons_drop,
        List.take_append_drop]
    have hwidth : elements[index.toNat].length = width := hlen _ (List.getElem_mem hlt)
    have hlast : (index.toNat + 1) * width ≤ elements.length * width :=
      Nat.mul_le_mul_right width hlt
    rw [Nat.succ_mul] at hlast
    rw [LittleEndian.length_encode, hsplit, stores_append, hfront, stores_append] at hstored
    have hread := hstored.2.1.read (by rw [hwidth]; omega)
    rwa [hwidth] at hread

/-- Where elements can be read there is an object. -/
theorem exists_hasObject (hpos : 0 < width) (h : a.payload handle width = .ok bytes) :
    ∃ elements, elements.flatten = bytes ∧ a.HasObject handle ⟨width, elements⟩ := by
  obtain ⟨count, hcount, hlen, hread⟩ := payload_eq_ok h
  obtain ⟨elements, rfl, hwidth, rfl⟩ := exists_elements hlen
  refine ⟨elements, rfl, ?_⟩
  by_cases hnil : handle = nilHandle
  · rw [objectLength, if_pos hnil] at hcount
    have hempty : elements = [] := List.length_eq_zero_iff.mp (Except.ok.inj hcount).symm
    subst hempty
    exact hasObject_nil hnil hpos
  · rw [objectLength, if_neg hnil] at hcount
    obtain ⟨header, hheader, hdecode⟩ := bind_eq_ok.mp hcount
    have hlength : LittleEndian.decode header = elements.length := Except.ok.inj hdecode
    obtain ⟨-, hfour, -⟩ := gives_read.value hheader
    have hencode := LittleEndian.encode_decode header
    have hlt := LittleEndian.decode_lt header
    rw [hfour, hlength] at hencode hlt
    refine ⟨⟨hpos, hwidth, le_maxHandle_iff.mpr hlt⟩, fun _ => ?_, fun heq => absurd heq hnil⟩
    refine stores_append.mpr ⟨?_, ?_⟩
    · exact hencode.symm ▸ stores_of_read hheader
    · rw [LittleEndian.length_encode]
      exact stores_of_read (hread hnil)

end Arena

/-- An object of the type with these elements is read as the value. -/
inductive Ty.ReadsAs : Ty → Listing → Value → Prop where
  | text (elements : List Bytes) :
      ReadsAs .str ⟨1, elements⟩ (.str (Utf8.decodeText elements.flatten))
  | items {elem : Ty} {width : Nat} {elements : List Bytes} {items : List Value}
      (hwidth : elem.elementWidth = .ok width) (h : elem.Spells elements items) :
      ReadsAs (.slice elem) ⟨width, elements⟩ (.slice items)

theorem Ty.readsAs_ofText (text : String) : Ty.str.ReadsAs (.ofText text) (.str text) := by
  have hflat : (Listing.ofText text).elements.flatten = Utf8.encode text := by
    simp [Listing.ofText, ← List.flatMap_def]
  have hreads := Ty.ReadsAs.text (Listing.ofText text).elements
  rw [hflat, Utf8.decodeText_encode] at hreads
  exact hreads

section Reading

variable {a b c : Arena} {handle width : Nat} {elem ty : Ty} {elements : List Bytes}
  {items : List Value} {v : Value} {o : Listing}

theorem checkedCount_bytes (h : o.Sound) (hwidth : o.width ≤ 8) :
    checkedCount o.bytes o.width = .ok o.elements.length :=
  checkedCount_object h.count_le hwidth (length_flatten_of_forall h.length_eq).ge

theorem drop_header_bytes (o : Listing) : o.bytes.drop headerWidth = o.elements.flatten :=
  List.drop_left' (LittleEndian.length_encode ..)

theorem decode_text (h : (⟨1, elements⟩ : Listing).Sound) :
    Ty.decode (⟨1, elements⟩ : Listing).bytes .str =
      .ok (.str (Utf8.decodeText elements.flatten)) := by
  have hflat : elements.flatten.length = elements.length := by
    rw [length_flatten_of_forall h.length_eq, Nat.mul_one]
  rw [Ty.decode, checkedCount_bytes h (show 1 ≤ 8 by decide), drop_header_bytes]
  change Except.ok (Value.str (Utf8.decodeText (elements.flatten.take elements.length))) = _
  rw [← hflat, List.take_length]

theorem decode_items (hwidth : elem.elementWidth = .ok width)
    (h : (⟨width, elements⟩ : Listing).Sound) :
    Ty.decode (⟨width, elements⟩ : Listing).bytes (.slice elem) =
      elem.decodeElements width elements.length elements.flatten >>= fun items =>
        return .slice items := by
  rw [Ty.decode, hwidth]
  change (checkedCount _ width >>= fun _ => _) = _
  rw [checkedCount_bytes h (Ty.elementWidth_le hwidth), drop_header_bytes]
  rfl

/-- What is read of an object. -/
theorem Arena.HasObject.readObject (h : a.HasObject handle o) (hty : ty.ReadsAs o v) :
    a.readObject handle ty = .ok v := by
  obtain ⟨hcount, hpayload⟩ := h.shows
  cases hty with
  | text elements =>
    by_cases hnil : handle = nilHandle
    · have hempty : elements = [] := h.elements_eq_nil hnil
      subst hempty
      rw [Arena.readObject, if_pos hnil]
      rfl
    · rw [Arena.readObject, if_neg hnil]
      exact bind_eq_ok.mpr ⟨_, hcount, bind_eq_ok.mpr ⟨_, hpayload, decode_text h.sound⟩⟩
  | @items elem width elements items hwidth hspells =>
    by_cases hnil : handle = nilHandle
    · have hempty : elements = [] := h.elements_eq_nil hnil
      subst hempty
      cases hspells
      rw [Arena.readObject, hwidth, hnil]
      rfl
    · have hitems := (Ty.decodeElements_flatten h.sound.length_eq).mpr hspells
      have hdecode := (decode_items hwidth h.sound).trans (bind_eq_ok.mpr ⟨items, hitems, rfl⟩)
      refine bind_eq_ok.mpr ⟨width, hwidth, ?_⟩
      rw [if_neg hnil]
      exact bind_eq_ok.mpr ⟨_, hcount, bind_eq_ok.mpr ⟨_, hpayload, hdecode⟩⟩

/-- Whatever is read lies in an object. -/
theorem exists_hasObject_of_readObject (h : a.readObject handle ty = .ok v) :
    ∃ o, a.HasObject handle o ∧ ty.ReadsAs o v := by
  cases ty with
  | str =>
    by_cases hnil : handle = nilHandle
    · rw [Arena.readObject, if_pos hnil] at h
      cases h
      exact ⟨⟨1, []⟩, Arena.hasObject_nil hnil Nat.one_pos, .text []⟩
    · rw [Arena.readObject, if_neg hnil] at h
      obtain ⟨count, hcount, h⟩ := bind_eq_ok.mp h
      obtain ⟨payload, hpayload, h⟩ := bind_eq_ok.mp h
      obtain ⟨elements, rfl, hobject⟩ := Arena.exists_hasObject Nat.one_pos hpayload
      obtain ⟨hcount', -⟩ := hobject.shows
      cases hcount.symm.trans hcount'
      cases h.symm.trans (decode_text hobject.sound)
      exact ⟨_, hobject, .text elements⟩
  | slice elem =>
    obtain ⟨width, hwidth, h⟩ := bind_eq_ok.mp h
    have hpos := Ty.elementWidth_pos hwidth
    split at h
    · rename_i hnil
      cases h
      exact ⟨⟨width, []⟩, Arena.hasObject_nil hnil hpos, .items hwidth .nil⟩
    · obtain ⟨count, hcount, h⟩ := bind_eq_ok.mp h
      obtain ⟨payload, hpayload, h⟩ := bind_eq_ok.mp h
      obtain ⟨elements, rfl, hobject⟩ := Arena.exists_hasObject hpos hpayload
      obtain ⟨hcount', -⟩ := hobject.shows
      cases hcount.symm.trans hcount'
      have hdecode := (decode_items hwidth hobject.sound).symm.trans h
      obtain ⟨items, hitems, heq⟩ := bind_eq_ok.mp hdecode
      cases heq
      have hspells := (Ty.decodeElements_flatten hobject.sound.length_eq).mp hitems
      exact ⟨_, hobject, .items hwidth hspells⟩
  | _ => cases h

end Reading

section Slots

variable {a b : Arena} {t : StructTable} {slot : Place} {handle : Nat} {v : Value} {o : Listing}
  {touched : Nat → Prop}

/-- The slot holds the handle of the object. -/
structure Arena.HoldsObject (a : Arena) (slot : Place) (handle : Nat) (o : Listing) : Prop where
  handle_eq : a.readHandle slot.offset = .ok handle
  hasObject : a.HasObject handle o

theorem Arena.valueAt_object (hobject : slot.ty.isObject = true) : a.valueAt slot = .ok v ↔
    ∃ handle o, a.HoldsObject slot handle o ∧ slot.ty.ReadsAs o v := by
  have hvalue : a.valueAt slot = a.readHandle slot.offset >>= (a.readObject · slot.ty) := by
    unfold valueAt
    obtain ⟨offset, ty, size⟩ := slot
    cases ty with
    | str | slice => rfl
    | _ => cases hobject
  rw [hvalue]
  constructor
  · intro h
    obtain ⟨handle, hhandle, h⟩ := bind_eq_ok.mp h
    obtain ⟨o, ho, hreads⟩ := exists_hasObject_of_readObject h
    exact ⟨handle, o, ⟨hhandle, ho⟩, hreads⟩
  · rintro ⟨handle, o, ⟨hhandle, ho⟩, hreads⟩
    exact bind_eq_ok.mpr ⟨handle, hhandle, ho.readObject hreads⟩

theorem Arena.valueAt_word (hobject : slot.ty.isObject = false) :
    a.valueAt slot = a.read slot.offset slot.size >>= slot.ty.decode := by
  unfold valueAt
  obtain ⟨offset, ty, size⟩ := slot
  cases ty with
  | str | slice => cases hobject
  | _ => rfl

/-- Allocated bytes that have changed are among the touched ones. -/
def Arena.ChangesOnly (a b : Arena) (touched : Nat → Prop) : Prop :=
  ∀ i < a.heapPointer, b.image[i]? ≠ a.image[i]? → touched i

theorem Arena.ChangesOnly.getElem?_eq (h : a.ChangesOnly b touched) {i : Nat}
    (hi : i < a.heapPointer) (hnot : ¬ touched i) : b.image[i]? = a.image[i]? :=
  not_not.mp fun hchanged => hnot (h i hi hchanged)

/-- The byte belongs to the object that the slot holds the handle of. -/
def Arena.ObjectCovers (a : Arena) (slot : Place) (i : Nat) : Prop :=
  ∃ handle count width, slot.ty.objectWidth? = some width ∧
    a.readHandle slot.offset = .ok handle ∧ handle ≠ nilHandle ∧
    a.objectLength handle = .ok count ∧ handle ≤ i ∧ i < handle + headerWidth + count * width

theorem Ty.objectWidth?_of_elementWidth {elem : Ty} {width : Nat}
    (h : elem.elementWidth = .ok width) : (slice elem).objectWidth? = some width := by
  cases elem <;> cases h <;> rfl

theorem Ty.ReadsAs.objectWidth?_eq {ty : Ty} (h : ty.ReadsAs o v) :
    ty.objectWidth? = some o.width := by
  cases h with
  | text => rfl
  | items hwidth _ => exact objectWidth?_of_elementWidth hwidth

theorem Arena.HoldsObject.covers (h : a.HoldsObject slot handle o) (hreads : slot.ty.ReadsAs o v)
    (hnil : handle ≠ nilHandle) {i : Nat} (hle : handle ≤ i) (hlt : i < handle + o.bytes.length) :
    a.ObjectCovers slot i := by
  obtain ⟨hcount, -⟩ := h.hasObject.shows
  rw [Listing.length_bytes h.hasObject.sound.length_eq, ← Nat.add_assoc] at hlt
  exact ⟨handle, _, _, hreads.objectWidth?_eq, h.handle_eq, hnil, hcount, hle, hlt⟩

theorem Arena.HasObject.of_same (h : a.HasObject handle o)
    (hsame : handle ≠ nilHandle → ∀ i, handle ≤ i → i < handle + o.bytes.length →
      b.image[i]? = a.image[i]?) : b.HasObject handle o := by
  refine ⟨h.sound, fun hnil i hi => ?_, h.elements_eq_nil⟩
  rw [hsame hnil (handle + i) (Nat.le_add_right _ _) (by omega), h.stores hnil i hi]

/-- A variable is read as before when neither its slot nor its object has been touched. -/
theorem Arena.valueAt_kept (hheap : a.heapPointer ≤ b.heapPointer)
    (hchanges : a.ChangesOnly b touched)
    (hsize : slot.ty.size t = .ok slot.size) (hinside : slot.offset + slot.size ≤ a.heapPointer)
    (hslot : ∀ i, slot.Covers i → ¬ touched i) (hobject : ∀ i, a.ObjectCovers slot i → ¬ touched i)
    (h : a.valueAt slot = .ok v) : b.valueAt slot = .ok v := by
  have hread : b.read slot.offset slot.size = a.read slot.offset slot.size :=
    read_eq_of_inside hinside hheap fun i hle hlt =>
      hchanges.getElem?_eq (by omega) (hslot i ⟨hle, hlt⟩)
  by_cases hty : slot.ty.isObject = true
  · have hfour : slot.size = 4 := by
      rw [Ty.size_of_isObject hty] at hsize
      exact (Except.ok.inj hsize).symm
    obtain ⟨handle, o, hholds, hreads⟩ := (valueAt_object hty).mp h
    refine (valueAt_object hty).mpr ⟨handle, o, ⟨?_, ?_⟩, hreads⟩
    · rw [hfour] at hread
      rw [readHandle, hread]
      exact hholds.handle_eq
    · apply hholds.hasObject.of_same
      intro hnil i hle hlt
      have hstop := (hholds.hasObject.stores hnil).stop_le o.bytes_ne_nil
      exact hchanges.getElem?_eq (by omega) (hobject i (hholds.covers hreads hnil hle hlt))
  · rw [Bool.not_eq_true] at hty
    rw [valueAt_word hty] at h ⊢
    rw [hread]
    exact h

end Slots

end FlatMachine
