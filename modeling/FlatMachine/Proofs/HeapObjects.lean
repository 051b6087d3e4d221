import FlatMachine.Memory.Object
import FlatMachine.Proofs.Allocation

/-!
# What the operations on heap objects do

An object is a list of elements of one width, stored behind its count. Reading an object yields its
elements; writing, appending and concatenating make a new object behind everything that was
allocated; copying and overwriting replace elements where they lie.
-/

namespace FlatMachine

open FlatMachine.Action

/-- Elements of one width. -/
structure Listing where
  width : Nat
  elements : List Bytes
  deriving DecidableEq

namespace Listing

/-- The elements as an object: their count, and they one after another. -/
def bytes (o : Listing) : Bytes :=
  LittleEndian.encode headerWidth o.elements.length ++ o.elements.flatten

/-- The bytes of a text. -/
def ofText (text : String) : Listing := ⟨1, (Utf8.encode text).map ([·])⟩

/-- The encoded items of a slice. -/
def ofItems (elem : Ty) (items : List Value) : Except Error Listing := do
  return ⟨← elem.elementWidth, ← items.mapM (·.encodeElement elem)⟩

/-- The elements have their width, and their count can be stored. -/
structure Sound (o : Listing) : Prop where
  width_pos : 0 < o.width
  length_eq : ∀ e ∈ o.elements, e.length = o.width
  count_le : o.elements.length ≤ Size.maxHandle

end Listing

theorem length_flatten_of_forall {elements : List Bytes} {width : Nat}
    (h : ∀ e ∈ elements, e.length = width) : elements.flatten.length = elements.length * width := by
  induction elements with
  | nil => simp
  | cons e rest ih =>
    rw [List.flatten_cons, List.length_append, h e List.mem_cons_self,
      ih fun e he => h e (List.mem_cons_of_mem _ he), List.length_cons, Nat.succ_mul, Nat.add_comm]

theorem flatten_div_width {elements : List Bytes} {width : Nat} (hpos : 0 < width)
    (h : ∀ e ∈ elements, e.length = width) : elements.flatten.length / width = elements.length := by
  rw [length_flatten_of_forall h, Nat.mul_div_cancel _ hpos]

theorem Listing.length_bytes {o : Listing} (h : ∀ e ∈ o.elements, e.length = o.width) :
    o.bytes.length = headerWidth + o.elements.length * o.width := by
  rw [bytes, List.length_append, LittleEndian.length_encode, length_flatten_of_forall h]

theorem Listing.bytes_ne_nil (o : Listing) : o.bytes ≠ [] :=
  List.append_ne_nil_of_left_ne_nil (List.cons_ne_nil _ _) _

theorem Listing.bytes_split {front mid back : List Bytes} {width count : Nat}
    (h : (front ++ mid ++ back).length = count) : bytes ⟨width, front ++ mid ++ back⟩ =
      LittleEndian.encode headerWidth count ++ front.flatten ++ mid.flatten ++ back.flatten := by
  subst h
  simp [bytes]

theorem Ty.elementWidth_pos {elem : Ty} {width : Nat} (h : elem.elementWidth = .ok width) :
    0 < width := by
  cases elem with
  | int kind | float kind => cases kind <;> cases h <;> decide
  | _ => cases h <;> decide

theorem elementWidth_of_encodeScalar {ty : Ty} {v : Value} {bytes : Bytes}
    (h : v.encodeScalar ty = .ok bytes) : ty.elementWidth = .ok bytes.length := by
  unfold Value.encodeScalar at h
  split at h
  · cases h
    rfl
  · split at h <;> cases h
    rename_i heq
    rw [LittleEndian.length_encode, heq]
    rfl
  · split at h <;> cases h
    rename_i heq
    rw [LittleEndian.length_encode, heq]
    rfl
  · cases h

theorem length_encodeElement {elem : Ty} {width : Nat} {v : Value} {bytes : Bytes}
    (hwidth : elem.elementWidth = .ok width) (h : v.encodeElement elem = .ok bytes) :
    bytes.length = width := by
  suffices hbytes : elem.elementWidth = .ok bytes.length from
    Except.ok.inj (hbytes.symm.trans hwidth)
  unfold Value.encodeElement at h
  split at h
  · rename_i hhandle
    split at h
    · obtain ⟨-, rfl⟩ := gives_encodeHandle.value h
      rw [LittleEndian.length_encode]
      cases elem <;> first | rfl | cases hhandle
    · cases h
  · exact elementWidth_of_encodeScalar h

theorem encodeElements_eq (elem : Ty) (items : List Value) :
    Value.encodeElements elem items =
      List.flatten <$> items.mapM (·.encodeElement elem) := by
  induction items with
  | nil => rfl
  | cons v rest ih =>
    rw [Value.encodeElements, List.mapM_cons, ih]
    simp only [bind_assoc, map_eq_pure_bind, pure_bind, List.flatten_cons]

theorem Listing.ofItems_eq_ok {elem : Ty} {items : List Value} {o : Listing}
    (h : ofItems elem items = .ok o) :
    o.elements.length = items.length ∧ 0 < o.width ∧ ∀ e ∈ o.elements, e.length = o.width := by
  obtain ⟨width, hwidth, h⟩ := bind_eq_ok.mp h
  obtain ⟨elements, helements, h⟩ := bind_eq_ok.mp h
  cases h
  have hall : List.Forall₂ (fun _ e => e.length = width) items elements := by
    have hitems : ∀ v ∈ items, Gives (v.encodeElement elem) (·.length = width) fun _ => True :=
      fun v _ => gives_of_ok (fun _ hv => length_encodeElement hwidth hv) fun _ => trivial
    exact (gives_mapM hitems).value helements
  refine ⟨hall.length_eq.symm, Ty.elementWidth_pos hwidth, fun e he => ?_⟩
  obtain ⟨_, -, hlen⟩ := exists_of_forall₂_right hall he
  exact hlen

theorem objectSize_le (count width : Nat) :
    objectSize count width ≤ headerWidth + count * width := by
  unfold objectSize Size.mul? Size.add?
  split
  · simp only [Option.bind_some]
    split
    · simp only [Option.getD_some]
      omega
    · simp only [Option.getD_none]
      omega
  · simp only [Option.bind_none, Option.getD_none]
    omega

namespace Arena

variable {a b : Arena} {handle width count offset : Nat} {elements front back : List Bytes}
  {bytes element : Bytes} {o : Listing}

/-- Reading an object yields these elements. -/
def Shows (a : Arena) (handle width : Nat) (elements : List Bytes) : Prop :=
  a.objectLength handle = .ok elements.length ∧ a.payload handle width = .ok elements.flatten

theorem shows_nil (a : Arena) (width : Nat) : a.Shows nilHandle width [] := ⟨rfl, rfl⟩

theorem maxHandle_lt : Size.maxHandle < Nat.pow 256 headerWidth := by decide

/-- An object with these elements lies at the handle. -/
structure HasObject (a : Arena) (handle : Nat) (o : Listing) : Prop where
  sound : o.Sound
  stores : handle ≠ nilHandle → a.Stores handle o.bytes
  elements_eq_nil : handle = nilHandle → o.elements = []

theorem HasObject.ne_nil (h : a.HasObject handle ⟨width, elements⟩) (hpos : 0 < elements.length) :
    handle ≠ nilHandle := by
  intro heq
  have hempty : elements = [] := h.elements_eq_nil heq
  rw [hempty] at hpos
  exact absurd hpos (lt_irrefl 0)

theorem HasObject.stop_le (h : a.HasObject handle o) (hnil : handle ≠ nilHandle) :
    handle + headerWidth + o.elements.length * o.width ≤ a.heapPointer := by
  have hstop := (h.stores hnil).stop_le o.bytes_ne_nil
  rw [Listing.length_bytes h.sound.length_eq] at hstop
  omega

theorem HasObject.of_extends (h : a.HasObject handle o) (hext : Extends a b) :
    b.HasObject handle o :=
  ⟨h.sound, fun hnil => (h.stores hnil).of_extends hext, h.elements_eq_nil⟩

theorem HasObject.changedIn (h : a.HasObject handle o) (hchanged : ChangedIn a b offset width)
    (hapart : handle + o.bytes.length ≤ offset ∨ offset + width ≤ handle) : b.HasObject handle o :=
  ⟨h.sound, fun hnil => (h.stores hnil).changedIn hchanged hapart, h.elements_eq_nil⟩

/-- The first elements can be read. -/
theorem HasObject.read_take {n : Nat} (h : a.HasObject handle ⟨width, elements⟩)
    (hnil : handle ≠ nilHandle) (hn : n ≤ elements.length) :
    a.read (handle + headerWidth) (n * width) = .ok (elements.take n).flatten := by
  have hstored := (stores_append.mp (h.stores hnil)).2
  have hstop : handle + headerWidth + elements.length * width ≤ a.heapPointer := h.stop_le hnil
  have hle : n * width ≤ elements.length * width := Nat.mul_le_mul_right _ hn
  have hflat : (elements.take n).flatten.length = n * width := by
    rw [length_flatten_of_forall fun e he => h.sound.length_eq e (List.mem_of_mem_take he),
      List.length_take_of_le hn]
  rw [LittleEndian.length_encode, ← List.take_append_drop n elements, List.flatten_append,
    stores_append] at hstored
  rw [← hflat]
  exact hstored.1.read (by omega)

theorem HasObject.shows (h : a.HasObject handle o) : a.Shows handle o.width o.elements := by
  by_cases hnil : handle = nilHandle
  · rw [h.elements_eq_nil hnil, hnil]
    exact shows_nil a o.width
  have hstop := h.stop_le hnil
  have hcount : a.objectLength handle = .ok o.elements.length := by
    have hheader := (stores_append.mp (h.stores hnil)).1
    have hread := hheader.read (by rw [LittleEndian.length_encode]; omega)
    rw [LittleEndian.length_encode] at hread
    have hlt := h.sound.count_le.trans_lt maxHandle_lt
    unfold objectLength readHandle
    rw [if_neg hnil]
    change (do return LittleEndian.decode (← a.read handle headerWidth)) = _
    rw [hread]
    exact congrArg Except.ok (LittleEndian.decode_encode hlt)
  refine ⟨hcount, ?_⟩
  have hroom : ¬ a.heapPointer - handle < objectSize o.elements.length o.width := by
    have hsize := objectSize_le o.elements.length o.width
    omega
  unfold payload
  rw [if_neg hnil, hcount]
  change (if a.heapPointer - handle < objectSize o.elements.length o.width then _ else _) = _
  rw [if_neg hroom, h.read_take hnil le_rfl, List.take_length]

/-- The handle is that of a new object with these elements, behind all that was allocated. -/
structure Makes (a : Arena) (o : Listing) (handle : Nat) (b : Arena) : Prop where
  handle_eq : handle = a.heapPointer
  toExtends : Extends a b
  stores : b.Stores handle o.bytes
  sound : o.Sound

/-- There is room for one more object. -/
def HasRoom (a : Arena) (count width : Nat) : Prop :=
  a.heapPointer + (headerWidth + count * width) ≤ min a.limit Size.max ∧ count ≤ Size.maxHandle

theorem gives_write_stores : Gives (a.write offset bytes)
    (fun b => ChangedIn a b offset bytes.length ∧ b.Stores offset bytes)
    (fun _ => a.heapPointer < offset + bytes.length) := by
  apply gives_write.mono
  · rintro _ ⟨hle, rfl⟩
    exact overlay_stored hle rfl
  · exact fun _ he => he.1

theorem ends_store_bytes : Ends (store bytes) a
    (fun handle b => handle = a.heapPointer ∧ Extends a b ∧ b.Stores handle bytes)
    (fun _ b => Extends a b ∧ min a.limit Size.max < a.heapPointer + bytes.length) := by
  simp only [store, ends_bind, ends_advance, ends_update, ends_pure]
  apply gives_allocate_gains.mono
  · rintro ⟨handle, b⟩ ⟨rfl, hb⟩
    apply gives_write_stores.mono
    · rintro c ⟨hchanged, hstores⟩
      exact ⟨rfl, hb.toExtends.changedIn hchanged le_rfl, hstores⟩
    · intro _ hlt
      rw [hb.heapPointer_eq] at hlt
      exact absurd hlt (lt_irrefl _)
  · exact fun _ he => ⟨.refl a, he.1⟩

theorem gives_writeHandle_stores : Gives (a.writeHandle offset count)
    (fun b => count ≤ Size.maxHandle ∧ ChangedIn a b offset headerWidth ∧
      b.Stores offset (LittleEndian.encode headerWidth count))
    (fun _ => a.heapPointer < offset + headerWidth ∨ Size.maxHandle < count) := by
  apply gives_writeHandle.mono
  · rintro _ ⟨⟨hle, hcount⟩, rfl⟩
    exact ⟨hcount, overlay_stored hle (LittleEndian.length_encode ..)⟩
  · intro _ hnot
    have hwidth : headerWidth = 4 := rfl
    omega

theorem makes_newObject (hpos : 0 < width) : Ends (newObject count width) a
    (Makes a ⟨width, List.replicate count (List.replicate width 0)⟩)
    (fun _ b => Extends a b ∧ ¬ a.HasRoom count width) := by
  simp only [newObject, ends_bind, ends_advance, ends_update, ends_pure]
  apply gives_allocate_gains.mono
  · rintro ⟨handle, b⟩ ⟨rfl, hb⟩
    have hzeros := hb.stores
    rw [List.replicate_add] at hzeros
    replace hzeros := (stores_append.mp hzeros).2
    rw [List.length_replicate] at hzeros
    apply gives_writeHandle_stores.mono
    · rintro c ⟨hcount, hchanged, hstores⟩
      refine ⟨rfl, hb.toExtends.changedIn hchanged le_rfl, ?_,
        hpos, fun e he => by simp [List.eq_of_mem_replicate he], by simpa using hcount⟩
      rw [Listing.bytes, List.length_replicate, List.flatten_replicate_replicate, stores_append,
        LittleEndian.length_encode]
      exact ⟨hstores, hzeros.changedIn hchanged (.inr le_rfl)⟩
    · intro _ hfails
      have hheap := hb.heapPointer_eq
      refine ⟨hb.toExtends, fun hroom => ?_⟩
      have hcount := hroom.2
      omega
  · exact fun _ he => ⟨.refl a, fun hroom => absurd hroom.1 (not_le.mpr he.1)⟩

theorem overlay_append (image : Array UInt8) (offset : Nat) (front back : Bytes) :
    overlay image offset (front ++ back) =
      overlay (overlay image offset front) (offset + front.length) back := by
  induction front generalizing image offset with
  | nil => rfl
  | cons b rest ih =>
    rw [List.cons_append, overlay, overlay, ih, List.length_cons, Nat.add_right_comm]
    rfl

theorem write_eq (h : offset + bytes.length ≤ a.heapPointer) :
    a.write offset bytes = .ok { a with image := overlay a.image offset bytes } := by
  unfold write check
  rw [if_pos h]
  rfl

/-- Two writes one behind the other are one write. -/
theorem write_append {front back : Bytes} (h : offset + (front ++ back).length ≤ a.heapPointer) :
    (a.write offset front >>= fun b => b.write (offset + front.length) back) =
      a.write offset (front ++ back) := by
  rw [write_eq h, overlay_append]
  rw [List.length_append] at h
  rw [write_eq (by omega)]
  exact write_eq (by rw [heapPointer, size_overlay]; exact (Nat.add_assoc ..).trans_le h)

/-- Filling a new object with as many elements. -/
theorem Makes.gives_write
    (h : Makes a ⟨width, List.replicate count (List.replicate width 0)⟩ handle b)
    (hcount : elements.length = count) (hwidth : ∀ e ∈ elements, e.length = width) :
    handle + headerWidth + elements.flatten.length ≤ b.heapPointer ∧
      Gives (b.write (handle + headerWidth) elements.flatten) (Makes a ⟨width, elements⟩ handle)
        (fun _ => False) := by
  subst count
  have hlen := length_flatten_of_forall hwidth
  obtain ⟨hheader, hzeros⟩ := stores_append.mp h.stores
  rw [List.length_replicate] at hheader
  rw [LittleEndian.length_encode, List.flatten_replicate_replicate] at hzeros
  have hstop := h.stores.stop_le (Listing.bytes_ne_nil _)
  rw [Listing.length_bytes h.sound.length_eq, List.length_replicate, ← hlen] at hstop
  refine ⟨by omega, ?_⟩
  apply gives_write_stores.mono
  · rintro c ⟨hchanged, hstores⟩
    refine ⟨h.handle_eq, h.toExtends.changedIn hchanged (by rw [h.handle_eq]; omega), ?_,
      h.sound.width_pos, hwidth, by simpa using h.sound.count_le⟩
    refine stores_append.mpr ⟨hheader.changedIn hchanged (.inl ?_), ?_⟩
    · rw [LittleEndian.length_encode]
    · rwa [LittleEndian.length_encode]
  · intro _ hlt
    omega

section Growing

variable {front back old : List Bytes} {first second : Nat}

theorem makes_appendElement (h : a.HasObject handle ⟨width, old⟩) :
    Ends (appendElement handle width element) a
      (fun result b => element.length = width ∧ Makes a ⟨width, old ++ [element]⟩ result b)
      (fun _ b => Extends a b ∧ (element.length = width → ¬ a.HasRoom (old.length + 1) width)) := by
  obtain ⟨hpos, hold, -⟩ := h.sound
  have hcount := flatten_div_width hpos hold
  simp only [appendElement, ends_bind, ends_ite, ends_throw, ends_query, ends_update, ends_pure,
    h.shows.2, gives_ok, hcount]
  refine ⟨fun hne => ⟨.refl a, fun heq => absurd heq hne⟩, fun hlen => ?_⟩
  rw [not_not] at hlen
  apply (makes_newObject hpos).mono ?_ fun _ _ he => ⟨he.1, fun _ => he.2⟩
  intro result b hb
  have hwidth : ∀ e ∈ old ++ [element], e.length = width := by
    simpa [or_imp, forall_and, hlen] using hold
  obtain ⟨hstop, hfill⟩ := hb.gives_write (by simp) hwidth
  rw [List.flatten_append, List.flatten_singleton] at hstop hfill
  rw [← write_append hstop, gives_bind] at hfill
  apply hfill.mono ?_ fun _ he => he.elim
  intro c hc
  exact hc.mono (fun _ hd => ⟨hlen, hd⟩) fun _ he => he.elim

theorem makes_concatObjects (hfirst : a.HasObject first ⟨width, front⟩)
    (hsecond : a.HasObject second ⟨width, back⟩) :
    Ends (concatObjects first second width) a (Makes a ⟨width, front ++ back⟩)
      (fun _ b => Extends a b ∧ ¬ a.HasRoom (front.length + back.length) width) := by
  obtain ⟨hpos, hfront, -⟩ := hfirst.sound
  have hwidth : ∀ e ∈ front ++ back, e.length = width := by
    intro e he
    rcases List.mem_append.mp he with he | he
    · exact hfront e he
    · exact hsecond.sound.length_eq e he
  have hcount := flatten_div_width hpos hwidth
  rw [List.flatten_append, List.length_append, List.length_append] at hcount
  simp only [concatObjects, ends_bind, ends_query, ends_update, ends_pure, hfirst.shows.2,
    hsecond.shows.2, gives_ok, hcount]
  apply (makes_newObject hpos).mono ?_ fun _ _ he => he
  intro result b hb
  rw [← List.flatten_append]
  exact (hb.gives_write (by simp) hwidth).2.mono (fun _ hc => hc) fun _ he => he.elim

end Growing

theorem makes_store (hcount : o.elements.length ≤ Size.maxHandle)
    (hpos : 0 < o.width) (hwidth : ∀ e ∈ o.elements, e.length = o.width) :
    Ends (store o.bytes) a (Makes a o)
      (fun _ b => Extends a b ∧ ¬ a.HasRoom o.elements.length o.width) := by
  apply ends_store_bytes.mono
  · rintro handle b ⟨heq, hext, hstores⟩
    exact ⟨heq, hext, hstores, hpos, hwidth, hcount⟩
  · rintro _ b ⟨hext, hlt⟩
    refine ⟨hext, fun hroom => absurd hroom.1 (not_le.mpr ?_)⟩
    rwa [Listing.bytes, List.length_append, LittleEndian.length_encode,
      length_flatten_of_forall hwidth] at hlt

theorem bytes_ofText (text : String) : (Listing.ofText text).bytes =
    LittleEndian.encode headerWidth (Utf8.encode text).length ++ Utf8.encode text := by
  simp [Listing.bytes, Listing.ofText, ← List.flatMap_def]

theorem length_ofText (text : String) :
    (Listing.ofText text).elements.length = (Utf8.encode text).length :=
  List.length_map ..

theorem makes_ofText {text : String} (hcount : (Utf8.encode text).length ≤ Size.maxHandle) :
    Ends (store (Listing.ofText text).bytes) a (Makes a (.ofText text))
      (fun _ b => Extends a b ∧ ¬ a.HasRoom (Utf8.encode text).length 1) := by
  rw [← length_ofText] at hcount ⊢
  exact makes_store hcount Nat.one_pos (by simp [Listing.ofText])

theorem makes_text (text : String) :
    Ends (writeObject (.str text) .str) a (Makes a (.ofText text))
      (fun _ b => Extends a b ∧ ¬ a.HasRoom (Utf8.encode text).length 1) := by
  simp only [writeObject, Value.encode, ends_bind, ends_ofExcept, gives_bind, gives_pure]
  apply gives_encodeHandle.mono
  · rintro _ ⟨hcount, rfl⟩
    rw [← bytes_ofText]
    exact makes_ofText hcount
  · exact fun _ hcount => ⟨.refl a, fun hroom => hcount hroom.2⟩

theorem gives_encode_slice (elem : Ty) (items : List Value) :
    Gives (Value.encode (.slice items) (.slice elem))
      (fun bytes => ∃ o, Listing.ofItems elem items = .ok o ∧ bytes = o.bytes ∧
        items.length ≤ Size.maxHandle)
      (fun _ => ∀ o, Listing.ofItems elem items = .ok o → ¬ items.length ≤ Size.maxHandle) := by
  unfold Value.encode
  cases hwidth : elem.elementWidth with
  | error e =>
    have ho : Listing.ofItems elem items = .error e := by
      rw [Listing.ofItems, hwidth]
      rfl
    simp only [hwidth, gives_bind, gives_error]
    intro o h
    cases ho.symm.trans h
  | ok width =>
    simp only [hwidth, gives_bind, gives_ok, gives_pure]
    apply gives_encodeHandle.mono ?_ fun _ hcount _ _ => hcount
    rintro _ ⟨hcount, rfl⟩
    rw [encodeElements_eq]
    cases helements : items.mapM (·.encodeElement elem) with
    | error e =>
      have ho : Listing.ofItems elem items = .error e := by
        rw [Listing.ofItems, hwidth, helements]
        rfl
      intro o h
      cases ho.symm.trans h
    | ok elements =>
      have ho : Listing.ofItems elem items = .ok ⟨width, elements⟩ := by
        rw [Listing.ofItems, hwidth, helements]
        rfl
      refine ⟨_, ho, ?_, hcount⟩
      rw [Listing.bytes, (Listing.ofItems_eq_ok ho).1]

theorem makes_items (elem : Ty) (items : List Value) :
    Ends (writeObject (.slice items) (.slice elem)) a
      (fun result b => ∃ o, Listing.ofItems elem items = .ok o ∧ Makes a o result b)
      (fun _ b => Extends a b ∧
        ∀ o, Listing.ofItems elem items = .ok o → ¬ a.HasRoom items.length o.width) := by
  simp only [writeObject, ends_bind, ends_ofExcept]
  apply (gives_encode_slice elem items).mono
  · rintro _ ⟨o, ho, rfl, hcount⟩
    obtain ⟨hlen, hpos, hwidth⟩ := Listing.ofItems_eq_ok ho
    rw [← hlen] at hcount ⊢
    apply (makes_store hcount hpos hwidth).mono
    · exact fun _ _ hb => ⟨o, ho, hb⟩
    · rintro _ b ⟨hext, hroom⟩
      refine ⟨hext, fun o' ho' => ?_⟩
      cases ho.symm.trans ho'
      exact hroom
  · exact fun _ hcount => ⟨.refl a, fun o ho hroom => hcount o ho hroom.2⟩

/-- Part of the bytes is replaced. -/
theorem Stores.splice {front old new back : Bytes} (h : a.Stores offset (front ++ old ++ back))
    (hchanged : ChangedIn a b (offset + front.length) old.length)
    (hnew : b.Stores (offset + front.length) new) (hlen : new.length = old.length) :
    b.Stores offset (front ++ new ++ back) := by
  obtain ⟨hfront, hback⟩ := stores_append.mp h
  obtain ⟨hfront, -⟩ := stores_append.mp hfront
  rw [List.length_append] at hback
  refine stores_append.mpr ⟨stores_append.mpr ⟨hfront.changedIn hchanged (.inl le_rfl), hnew⟩, ?_⟩
  rw [List.length_append, hlen]
  exact hback.changedIn hchanged (.inr (Nat.add_assoc ..).le)

/-- An object has other elements now, as many as it had, and nothing else has changed. -/
structure Rewrites (a : Arena) (handle : Nat) (old new : Listing) (b : Arena) : Prop where
  changedIn : ChangedIn a b handle old.bytes.length
  hasObject : b.HasObject handle new

theorem ChangedIn.mono {offset' width' : Nat} (h : ChangedIn a b offset width)
    (hfrom : offset' ≤ offset) (hto : offset + width ≤ offset' + width') :
    ChangedIn a b offset' width' :=
  ⟨h.stackStart_eq, h.stackEnd_eq, h.heapPointer_eq, fun i hi => h.getElem?_eq i (by omega)⟩

section Overwriting

variable {front old new back room given : List Bytes} {dst src : Nat}

theorem HasObject.gives_write_elements (h : a.HasObject handle ⟨width, front ++ old ++ back⟩)
    (hnil : handle ≠ nilHandle) (hnew : ∀ e ∈ new, e.length = width)
    (hlen : new.length = old.length) :
    Gives (a.write (handle + headerWidth + front.length * width) new.flatten)
      (Rewrites a handle ⟨width, front ++ old ++ back⟩ ⟨width, front ++ new ++ back⟩)
      (fun _ => False) := by
  have hwidth := h.sound.length_eq
  have hstop := h.stop_le hnil
  have hbytes := Listing.length_bytes hwidth
  simp only [List.mem_append, or_imp, forall_and] at hwidth
  obtain ⟨⟨hfront, hold⟩, hback⟩ := hwidth
  have hcount : (front ++ new ++ back).length = (front ++ old ++ back).length := by simp [hlen]
  have hsound : Listing.Sound ⟨width, front ++ new ++ back⟩ := by
    refine ⟨h.sound.width_pos, ?_, hcount.trans_le h.sound.count_le⟩
    simpa only [List.mem_append, or_imp, forall_and] using ⟨⟨hfront, hnew⟩, hback⟩
  have hflat : new.flatten.length = old.flatten.length := by
    rw [length_flatten_of_forall hnew, length_flatten_of_forall hold, hlen]
  have hahead : (LittleEndian.encode headerWidth (front ++ old ++ back).length ++
      front.flatten).length = headerWidth + front.length * width := by
    rw [List.length_append, LittleEndian.length_encode, length_flatten_of_forall hfront]
  have hstored := h.stores hnil
  rw [Listing.bytes_split rfl] at hstored
  apply gives_write_stores.mono
  · rintro b ⟨hchanged, hwritten⟩
    rw [Nat.add_assoc, ← hahead] at hchanged hwritten
    refine ⟨hchanged.mono (Nat.le_add_right _ _) ?_, hsound, fun _ => ?_,
      fun heq => absurd heq hnil⟩
    · rw [Listing.bytes_split rfl]
      simp only [List.length_append, hflat]
      omega
    · rw [Listing.bytes_split hcount]
      exact hstored.splice (hflat ▸ hchanged) hwritten hflat
  · intro _ hlt
    rw [hflat, length_flatten_of_forall hold] at hlt
    simp only [List.length_append, Nat.add_mul] at hstop
    omega

/-- Overwrites one element and yields its offset. -/
def overwriteElement (handle : Nat) (index : Int) (width : Nat) (element : Bytes) :
    Action Arena Nat := do
  let offset ← query (·.elementOffset handle index width)
  update (·.write offset element)
  return offset

theorem rewrites_overwriteElement {index : Int} (h : a.HasObject handle ⟨width, old⟩)
    (hlen : element.length = width) : Ends (overwriteElement handle index width element) a
      (fun _ b => (0 ≤ index ∧ index < old.length) ∧
        Rewrites a handle ⟨width, old⟩ ⟨width, old.set index.toNat element⟩ b)
      (fun _ b => b = a ∧ ¬ (0 ≤ index ∧ index < old.length)) := by
  simp only [overwriteElement, elementOffset, ends_bind, ends_query, ends_update, ends_pure,
    h.shows.1, gives_bind, gives_ok, gives_ite, gives_error, gives_pure, true_and]
  refine ⟨fun hout => by omega, fun hin => ?_⟩
  have hlt : index.toNat < old.length := by omega
  have hnil : handle ≠ nilHandle := h.ne_nil (by omega)
  have hsplit : old = old.take index.toNat ++ [old[index.toNat]] ++ old.drop (index.toNat + 1) := by
    simp
  have hset : old.set index.toNat element =
      old.take index.toNat ++ [element] ++ old.drop (index.toNat + 1) := by
    rw [List.set_eq_take_append_cons_drop, if_pos hlt]
    simp
  rw [hsplit] at h
  have hone : ∀ e ∈ [element], e.length = width := by simpa using hlen
  have hwrite := h.gives_write_elements hnil hone rfl
  rw [← hsplit, ← hset, List.flatten_singleton, List.length_take_of_le hlt.le] at hwrite
  exact hwrite.mono (fun _ hb => ⟨by omega, hb⟩) fun _ he => he.elim

theorem Rewrites.refl (h : a.HasObject handle o) : Rewrites a handle o o a :=
  ⟨⟨rfl, rfl, rfl, fun _ _ => rfl⟩, h⟩

/-- The first elements of one list take the place of as many of the other. -/
def copied (given room : List Bytes) : List Bytes :=
  given.take (min room.length given.length) ++ room.drop (min room.length given.length)

theorem rewrites_copyElements (hdst : a.HasObject dst ⟨width, room⟩)
    (hsrc : a.HasObject src ⟨width, given⟩) :
    Ends (copyElements dst src width) a
      (fun n b => n = min room.length given.length ∧
        Rewrites a dst ⟨width, room⟩ ⟨width, copied given room⟩ b)
      (fun _ _ => False) := by
  have hpos : 1 ≤ width := hdst.sound.width_pos
  have hroom : room.flatten.length / width = room.length :=
    flatten_div_width hpos hdst.sound.length_eq
  have hgiven : given.flatten.length / width = given.length :=
    flatten_div_width hpos hsrc.sound.length_eq
  simp only [copyElements, ends_bind, ends_query, ends_update, ends_pure, ends_ite, hdst.shows.2,
    hsrc.shows.2, gives_ok, max_eq_left hpos, hroom, hgiven, true_and, copied]
  constructor
  · intro hsome
    have hdstNil : dst ≠ nilHandle := hdst.ne_nil (by omega)
    have hsrcNil : src ≠ nilHandle := hsrc.ne_nil (by omega)
    generalize hn : min room.length given.length = n
    have hwidth : ∀ e ∈ given.take n, e.length = width :=
      fun e he => hsrc.sound.length_eq e (List.mem_of_mem_take he)
    have hlen : (given.take n).length = (room.take n).length := by
      rw [List.length_take, List.length_take]
      omega
    have hread : a.read (src + headerWidth) (n * width) = .ok (given.take n).flatten :=
      hsrc.read_take hsrcNil (hn ▸ Nat.min_le_right _ _)
    rw [copy_eq, hread]
    have hsplit : room = [] ++ room.take n ++ room.drop n := (List.take_append_drop n room).symm
    rw [hsplit] at hdst
    have hwrite := hdst.gives_write_elements hdstNil hwidth hlen
    rw [← hsplit, List.length_nil, Nat.zero_mul] at hwrite
    exact hwrite
  · intro hnone
    have hzero : min room.length given.length = 0 := by omega
    rw [hzero]
    exact .refl hdst

end Overwriting

end Arena

end FlatMachine
