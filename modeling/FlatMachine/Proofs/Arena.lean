import FlatMachine.Memory.Object
import FlatMachine.Proofs.Postcondition

/-!
# What the arena's operations do

Each operation has one statement: the arena it yields, or the error and why. Two relations sum them
up. `ChangedIn` is that of the writes: nothing outside a range of bytes has changed. `Extends` is
that of the allocations: the allocated bytes are what they were, and there may be more of them.
-/

namespace FlatMachine

theorem getElem?_overlay (image : Array UInt8) (offset : Nat) (bytes : Bytes) (i : Nat) :
    (overlay image offset bytes)[i]? =
      if offset ≤ i ∧ i < offset + bytes.length ∧ i < image.size then bytes[i - offset]?
      else image[i]? := by
  induction bytes generalizing image offset with
  | nil =>
    have hnot : ¬ (offset ≤ i ∧ i < offset + ([] : Bytes).length ∧ i < image.size) := by
      simp only [List.length_nil]
      omega
    rw [overlay, if_neg hnot]
  | cons b rest ih =>
    rw [overlay, ih, Array.size_setIfInBounds, Array.getElem?_setIfInBounds, List.length_cons]
    by_cases hi : offset = i
    · subst i
      have hr :
          ¬ (offset + 1 ≤ offset ∧ offset < offset + 1 + rest.length ∧ offset < image.size) := by
        omega
      rw [if_neg hr, if_pos rfl]
      by_cases hs : offset < image.size <;> simp [hs]
    · by_cases hr : offset + 1 ≤ i ∧ i < offset + 1 + rest.length ∧ i < image.size
      · have hc : offset ≤ i ∧ i < offset + (rest.length + 1) ∧ i < image.size := by omega
        rw [if_pos hr, if_pos hc, show i - offset = (i - (offset + 1)) + 1 by omega,
          List.getElem?_cons_succ]
      · have hc : ¬ (offset ≤ i ∧ i < offset + (rest.length + 1) ∧ i < image.size) := by omega
        rw [if_neg hr, if_neg hc, if_neg hi]

theorem getElem?_overlay_of_lt {image : Array UInt8} {offset : Nat} {bytes : Bytes} {i : Nat}
    (h : i < offset ∨ offset + bytes.length ≤ i) :
    (overlay image offset bytes)[i]? = image[i]? := by
  rw [getElem?_overlay, if_neg (by omega)]

theorem gives_encodeHandle {n : Nat} : Gives (encodeHandle n)
    (fun header => n ≤ Size.maxHandle ∧ header = LittleEndian.encode headerWidth n)
    (fun _ => ¬ n ≤ Size.maxHandle) := by
  simp only [encodeHandle, gives_ite, gives_ok, gives_error]
  exact ⟨fun h => ⟨h, rfl⟩, id⟩

namespace Size

variable {overflow : Overflow} {exact : Nat}

theorem mod_of_le (h : exact ≤ max) : exact % (max + 1) = exact :=
  Nat.mod_eq_of_lt (Nat.lt_succ_of_le h)

theorem gives_plain : Gives (plain overflow exact)
    (fun n => (max < exact → overflow = .wraps) ∧ n = exact % (max + 1))
    (fun e => max < exact ∧ overflow = .stops ∧ e = .sizeOverflow) := by
  by_cases hle : exact ≤ max
  · rw [plain_of_le hle, gives_ok, mod_of_le hle]
    exact ⟨fun hlt => absurd hle (not_le.mpr hlt), rfl⟩
  · unfold plain
    rw [if_neg hle]
    cases overflow with
    | stops => exact ⟨not_le.mp hle, rfl, rfl⟩
    | wraps => exact ⟨fun _ => rfl, rfl⟩

theorem gives_plain_stops : Gives (plain .stops exact) (fun n => exact ≤ max ∧ n = exact)
    (fun e => max < exact ∧ e = .sizeOverflow) := by
  apply gives_plain.mono
  · rintro _ ⟨hwraps, rfl⟩
    have hle : exact ≤ max := not_lt.mp fun h => nomatch hwraps h
    exact ⟨hle, mod_of_le hle⟩
  · exact fun _ he => ⟨he.1, he.2.2⟩

end Size

namespace Arena

/-- The segments lie alike, and no allocated byte is lost. -/
structure SameSegments (a b : Arena) : Prop where
  stackStart_eq : b.stackStart = a.stackStart
  stackEnd_eq : b.stackEnd = a.stackEnd
  heapPointer_le : a.heapPointer ≤ b.heapPointer

/-- The allocated bytes are what they were; there may be more of them. -/
structure Extends (a b : Arena) : Prop extends SameSegments a b where
  getElem?_eq : ∀ i < a.heapPointer, b.image[i]? = a.image[i]?

/-- Only bytes of one range have changed. -/
structure ChangedIn (a b : Arena) (offset width : Nat) : Prop where
  stackStart_eq : b.stackStart = a.stackStart
  stackEnd_eq : b.stackEnd = a.stackEnd
  heapPointer_eq : b.heapPointer = a.heapPointer
  getElem?_eq : ∀ i, i < offset ∨ offset + width ≤ i → b.image[i]? = a.image[i]?

variable {a b c : Arena}

theorem SameSegments.refl (a : Arena) : SameSegments a a := ⟨rfl, rfl, le_rfl⟩

theorem SameSegments.trans (h : SameSegments a b) (h' : SameSegments b c) : SameSegments a c :=
  ⟨h'.stackStart_eq.trans h.stackStart_eq, h'.stackEnd_eq.trans h.stackEnd_eq,
    h.heapPointer_le.trans h'.heapPointer_le⟩

theorem Extends.refl (a : Arena) : Extends a a := ⟨.refl a, fun _ _ => rfl⟩

theorem Extends.trans (h : Extends a b) (h' : Extends b c) : Extends a c :=
  ⟨h.toSameSegments.trans h'.toSameSegments, fun i hi =>
    (h'.getElem?_eq i (hi.trans_le h.heapPointer_le)).trans (h.getElem?_eq i hi)⟩

theorem ChangedIn.sameSegments {offset width : Nat} (h : ChangedIn a b offset width) :
    SameSegments a b :=
  ⟨h.stackStart_eq, h.stackEnd_eq, h.heapPointer_eq.ge⟩

/-- A change behind what was allocated before leaves an extension. -/
theorem Extends.changedIn {offset width : Nat} (h : Extends a b) (h' : ChangedIn b c offset width)
    (ho : a.heapPointer ≤ offset) : Extends a c :=
  ⟨h.toSameSegments.trans h'.sameSegments, fun i hi =>
    (h'.getElem?_eq i (.inl (hi.trans_le ho))).trans (h.getElem?_eq i hi)⟩

theorem changedIn_overlay (a : Arena) (offset : Nat) (bytes : Bytes) :
    ChangedIn a { a with image := overlay a.image offset bytes } offset bytes.length :=
  ⟨rfl, rfl, size_overlay .., fun _ h => getElem?_overlay_of_lt h⟩

theorem extends_extend (a : Arena) (width : Nat) : Extends a (a.extend width) where
  stackStart_eq := rfl
  stackEnd_eq := rfl
  heapPointer_le := by simp [heapPointer, extend]
  getElem?_eq i hi := Array.getElem?_append_left hi

/-- The segments and the ceiling are the same; the heap and the reserve have not shrunk. -/
structure Grows (a b : Arena) : Prop extends SameSegments a b where
  capacity_le : a.capacity ≤ b.capacity
  limit_eq : b.limit = a.limit

theorem Grows.refl (a : Arena) : Grows a a := ⟨.refl a, le_rfl, rfl⟩

theorem Grows.trans (h : Grows a b) (h' : Grows b c) : Grows a c :=
  ⟨h.toSameSegments.trans h'.toSameSegments, h.capacity_le.trans h'.capacity_le,
    h'.limit_eq.trans h.limit_eq⟩

/-- The bytes are the end of the heap, so that the object in them can grow where it lies. -/
def IsLatest (a : Arena) (offset size : Nat) : Prop :=
  offset + size = a.heapPointer ∧ a.stackEnd ≤ offset

/-- Zeroed bytes have been allocated behind those there were. -/
structure Gains (a : Arena) (width : Nat) (b : Arena) : Prop where
  eq_extend : b = { a with capacity := b.capacity }.extend width
  capacity_le : a.capacity ≤ b.capacity
  reserved : a.heapPointer + width ≤ b.capacity
  limited : a.capacity ≤ a.limit → b.capacity ≤ a.limit

namespace Gains

variable {width : Nat}

theorem toExtends (h : Gains a width b) : Extends a b := by
  have hgrown := extends_extend { a with capacity := b.capacity } width
  rw [h.eq_extend]
  exact ⟨⟨rfl, rfl, hgrown.heapPointer_le⟩, hgrown.getElem?_eq⟩

theorem heapPointer_eq (h : Gains a width b) : b.heapPointer = a.heapPointer + width := by
  rw [h.eq_extend]
  simp [heapPointer, extend]

theorem grows (h : Gains a width b) : Grows a b :=
  ⟨h.toExtends.toSameSegments, h.capacity_le, by rw [h.eq_extend]; rfl⟩

theorem getElem?_eq_zero (h : Gains a width b) {i : Nat} (hi : i < width) :
    b.image[a.heapPointer + i]? = some 0 := by
  rw [h.eq_extend]
  simp only [extend, heapPointer]
  rw [Array.getElem?_append_right (Nat.le_add_right _ _), Nat.add_sub_cancel_left,
    Array.getElem?_replicate, if_pos hi]

end Gains

/-- What an object of `oldSize` bytes becomes with another size: it stays, it grows where it lies,
or it is copied to the heap pointer. -/
inductive Resizes (a : Arena) (offset oldSize newSize : Nat) : Nat × Arena → Prop where
  | stays (hshrinks : newSize ≤ oldSize) : Resizes a offset oldSize newSize (offset, a)
  | grows {b : Arena} (hgrows : oldSize < newSize) (hlatest : a.IsLatest offset oldSize)
      (hgains : Gains a (newSize - oldSize) b) : Resizes a offset oldSize newSize (offset, b)
  | moves {b : Arena} (hgrows : oldSize < newSize) (hlatest : ¬ a.IsLatest offset oldSize)
      (hgains : Gains a newSize b) : Resizes a offset oldSize newSize (a.heapPointer, { b with
        image := overlay b.image a.heapPointer (b.image.extract offset (offset + oldSize)).toList })

/-- Why an object cannot have another size. -/
inductive ResizeFails (a : Arena) (offset oldSize newSize : Nat) : Error → Prop where
  | outside (hlt : a.heapPointer < offset + oldSize) :
    ResizeFails a offset oldSize newSize (.outOfBounds offset oldSize a.heapPointer)
  | overflows (hlatest : a.IsLatest offset oldSize) (hlt : Size.max < offset + newSize) :
    ResizeFails a offset oldSize newSize .sizeOverflow
  | cannotGrow (hgrows : oldSize < newSize) (hlatest : a.IsLatest offset oldSize)
      (hle : offset + newSize ≤ Size.max) (hlt : a.limit < offset + newSize) :
    ResizeFails a offset oldSize newSize (.outOfMemory (offset + newSize) a.limit)
  | cannotMove (hgrows : oldSize < newSize) (hle : offset + oldSize ≤ a.heapPointer)
      (hlatest : ¬ a.IsLatest offset oldSize)
      (hlt : min a.limit Size.max < a.heapPointer + newSize) :
    ResizeFails a offset oldSize newSize
      (.outOfMemory (min (a.heapPointer + newSize) Size.max) a.limit)

section Operations

variable {offset width value src dst size stop handle count : Nat} {bytes : Bytes}

theorem size_padded (data : Bytes) (stop : Nat) :
    ((data.take stop).toArray ++ Array.replicate (stop - data.length) (0 : UInt8)).size = stop := by
  simp only [Array.size_append, List.size_toArray, List.length_take, Array.size_replicate]
  omega

/-- A layout is made of what its sums are computed to. -/
theorem gives_withLayout (data : Bytes) (stackSize heapSize limit : Nat) (overflow : Overflow) :
    let stackStart := max data.length nilGuard
    let layout := stackStart + stackSize + heapSize
    Gives (withLayout data stackSize heapSize limit overflow)
      (fun a => (Size.max < layout → overflow = .wraps) ∧ layout % (Size.max + 1) ≤ limit ∧
        a.stackStart = stackStart ∧ a.stackEnd = (stackStart + stackSize) % (Size.max + 1) ∧
        a.heapPointer = a.stackEnd ∧ a.capacity = layout % (Size.max + 1) ∧ a.limit = limit)
      (fun e => (Size.max < layout ∧ e = .sizeOverflow) ∨
        (Size.max < layout → overflow = .wraps) ∧ limit < layout % (Size.max + 1) ∧
          e = .outOfMemory (layout % (Size.max + 1)) limit) := by
  intro stackStart layout
  simp only [withLayout, gives_bind, gives_ite, gives_error, gives_ok, and_true]
  apply Size.gives_plain.mono
  · rintro _ ⟨hstack, rfl⟩
    have hlayout : (stackStart + stackSize) % (Size.max + 1) + heapSize ≤ layout :=
      Nat.add_le_add_right (Nat.mod_le _ _) _
    have hmod : ((stackStart + stackSize) % (Size.max + 1) + heapSize) % (Size.max + 1) =
        layout % (Size.max + 1) := Nat.mod_add_mod _ _ _
    apply Size.gives_plain.mono
    · rintro _ ⟨hheap, rfl⟩
      rw [hmod]
      have hwraps : Size.max < layout → overflow = .wraps := by
        intro hlt
        by_cases hle : stackStart + stackSize ≤ Size.max
        · rw [Size.mod_of_le hle] at hheap
          exact hheap hlt
        · exact hstack (not_le.mp hle)
      refine ⟨fun hlimit => .inr ⟨hwraps, hlimit, rfl⟩, fun hlimit => ⟨fun hdata => ?_, ?_⟩⟩
      · -- A reserve that is too short for the data has wrapped.
        left
        by_contra hle
        rw [Size.mod_of_le (not_lt.mp hle)] at hdata
        have hstart : data.length ≤ stackStart := Nat.le_max_left _ _
        omega
      · exact fun _ => ⟨hwraps, not_lt.mp hlimit, rfl, rfl, size_padded .., rfl⟩
    · rintro e ⟨hlt, -, rfl⟩
      exact .inl ⟨hlt.trans_le hlayout, rfl⟩
  · rintro e ⟨hlt, -, rfl⟩
    exact .inl ⟨hlt.trans_le (Nat.le_add_right _ _), rfl⟩

/-- Where plain sums do not wrap, a layout is just what its sizes say. -/
theorem withLayout_eq_ok {data : Bytes} {stackSize heapSize limit : Nat}
    (h : withLayout data stackSize heapSize limit = .ok a) :
    let stackEnd := max data.length nilGuard + stackSize
    stackEnd + heapSize ≤ min limit Size.max ∧ a = {
      image := data.toArray ++ Array.replicate (stackEnd - data.length) 0
      stackStart := max data.length nilGuard, stackEnd
      capacity := stackEnd + heapSize, limit } := by
  obtain ⟨stackEnd, hstack, h⟩ := bind_eq_ok.mp h
  obtain ⟨reserved, hreserved, h⟩ := bind_eq_ok.mp h
  obtain ⟨-, rfl⟩ := Size.gives_plain_stops.value hstack
  obtain ⟨hsize, rfl⟩ := Size.gives_plain_stops.value hreserved
  split at h
  · cases h
  rename_i hlimit
  split at h
  · cases h
  cases h
  have hdata : data.length ≤ max data.length nilGuard + stackSize :=
    (Nat.le_max_left _ _).trans (Nat.le_add_right _ _)
  rw [List.take_of_length_le hdata]
  exact ⟨le_min (not_lt.mp hlimit) hsize, rfl⟩

theorem gives_check : Gives (a.check offset width) (fun _ => offset + width ≤ a.heapPointer)
    (fun e => a.heapPointer < offset + width ∧ e = .outOfBounds offset width a.heapPointer) := by
  simp only [check, gives_ite, gives_ok, gives_error, and_true]
  exact ⟨id, not_le.mp⟩

theorem gives_read : Gives (a.read offset width)
    (fun bytes => offset + width ≤ a.heapPointer ∧ bytes.length = width ∧
      bytes = (a.image.extract offset (offset + width)).toList)
    (fun e => a.heapPointer < offset + width ∧ e = .outOfBounds offset width a.heapPointer) := by
  simp only [read, gives_bind, gives_pure, and_true]
  apply gives_check.imp
  intro _ h
  refine ⟨h, ?_⟩
  change offset + width ≤ a.image.size at h
  simp only [Array.length_toList, Array.size_extract]
  omega

theorem gives_write : Gives (a.write offset bytes)
    (fun b => offset + bytes.length ≤ a.heapPointer ∧
      b = { a with image := overlay a.image offset bytes })
    (fun e => a.heapPointer < offset + bytes.length ∧
      e = .outOfBounds offset bytes.length a.heapPointer) := by
  simp only [write, gives_bind, gives_pure, and_true]
  exact gives_check

theorem gives_zero : Gives (a.zero offset width)
    (fun b => offset + width ≤ a.heapPointer ∧
      b = { a with image := overlay a.image offset (List.replicate width 0) })
    (fun e => a.heapPointer < offset + width ∧ e = .outOfBounds offset width a.heapPointer) := by
  simp only [zero, gives_bind, gives_pure, and_true]
  exact gives_check

theorem gives_copy : Gives (a.copy src dst width)
    (fun b => src + width ≤ a.heapPointer ∧ dst + width ≤ a.heapPointer ∧
      b = { a with image := overlay a.image dst (a.image.extract src (src + width)).toList })
    (fun e => e = .outOfBounds src width a.heapPointer ∨
      e = .outOfBounds dst width a.heapPointer) := by
  simp only [copy, gives_bind, gives_pure, and_true]
  apply gives_check.mono ?_ fun _ he => .inl he.2
  intro _ hs
  exact gives_check.mono (fun _ hd => ⟨hs, hd⟩) fun _ he => .inr he.2

theorem write_changedIn (h : a.write offset bytes = .ok b) :
    ChangedIn a b offset bytes.length := by
  obtain ⟨_, rfl⟩ := gives_write.value h
  exact changedIn_overlay ..

theorem zero_changedIn (h : a.zero offset width = .ok b) : ChangedIn a b offset width := by
  obtain ⟨_, rfl⟩ := gives_zero.value h
  simpa only [List.length_replicate] using changedIn_overlay a offset (List.replicate width 0)

theorem copy_changedIn (h : a.copy src dst width = .ok b) : ChangedIn a b dst width := by
  obtain ⟨hs, _, rfl⟩ := gives_copy.value h
  have hlen : (a.image.extract src (src + width)).toList.length = width := by
    change src + width ≤ a.image.size at hs
    simp only [Array.length_toList, Array.size_extract]
    omega
  simpa only [hlen] using changedIn_overlay a dst (a.image.extract src (src + width)).toList

theorem writeHandle_changedIn (h : a.writeHandle offset value = .ok b) :
    ChangedIn a b offset 4 := by
  obtain ⟨bytes, hbytes, hw⟩ := bind_eq_ok.mp h
  have hlen : bytes.length = 4 := by
    obtain ⟨-, rfl⟩ := gives_encodeHandle.value hbytes
    exact LittleEndian.length_encode ..
  simpa only [hlen] using write_changedIn hw

/-- Reserving changes no more than the reserve, which does not pass the ceiling. -/
theorem gives_reserve : Gives (a.reserve stop)
    (fun b => ∃ capacity, b = { a with capacity } ∧ a.capacity ≤ capacity ∧ stop ≤ capacity ∧
      (a.capacity ≤ a.limit → capacity ≤ a.limit))
    (fun e => a.limit < stop ∧ e = .outOfMemory stop a.limit) := by
  simp only [reserve, gives_ite, gives_ok, gives_error, and_true]
  refine ⟨fun h => ⟨a.capacity, rfl, le_rfl, h, id⟩, fun h => ⟨id, fun hlimit => ?_⟩⟩
  refine ⟨_, rfl, ?_, ?_, ?_⟩ <;> omega

theorem gives_reserve_extend (a : Arena) (width : Nat) :
    Gives (do return (← a.reserve (a.heapPointer + width)).extend width) (Gains a width)
      (fun e => a.limit < a.heapPointer + width ∧
        e = .outOfMemory (a.heapPointer + width) a.limit) := by
  simp only [gives_bind, gives_pure]
  apply gives_reserve.imp
  rintro _ ⟨capacity, rfl, hle, hstop, hlimit⟩
  exact ⟨rfl, hle, hstop, hlimit⟩

theorem gives_allocate_gains : Gives (a.allocate size)
    (fun p => p.1 = a.heapPointer ∧ Gains a size p.2)
    (fun e => min a.limit Size.max < a.heapPointer + size ∧
      e = .outOfMemory (min (a.heapPointer + size) Size.max) a.limit) := by
  unfold allocate
  cases hadd : Size.add? a.heapPointer size with
  | none =>
    unfold Size.add? at hadd
    split at hadd
    · cases hadd
    · refine ⟨by omega, ?_⟩
      rw [Nat.min_eq_right (by omega)]
  | some stop =>
    obtain ⟨hle, rfl⟩ := Size.add?_eq_some_iff.mp hadd
    have hgains := gives_reserve_extend a size
    simp only [gives_bind, gives_pure, true_and] at hgains ⊢
    refine hgains.mono (fun _ h => h) ?_
    rintro e ⟨hlimit, rfl⟩
    refine ⟨by omega, ?_⟩
    rw [Nat.min_eq_left hle]

theorem gives_resize {oldSize newSize : Nat} : Gives (a.resize offset oldSize newSize)
    (fun p => offset + oldSize ≤ a.heapPointer ∧ Resizes a offset oldSize newSize p)
    (ResizeFails a offset oldSize newSize) := by
  simp only [resize, gives_bind, gives_ite, gives_pure]
  apply gives_check.mono
  · intro _ hcheck
    refine ⟨fun hshrinks => ⟨hcheck, .stays hshrinks⟩, fun hgrows => ⟨?_, ?_⟩⟩
    · -- The latest allocation grows in place: only the missing bytes are gained.
      intro hlatest
      have hstop : offset + newSize = a.heapPointer + (newSize - oldSize) := by
        have := hlatest.1
        omega
      apply Size.gives_plain_stops.mono
      · rintro _ ⟨hle, rfl⟩
        have hgains := gives_reserve_extend a (newSize - oldSize)
        simp only [gives_bind, gives_pure, ← hstop] at hgains
        apply hgains.mono
        · exact fun b hb => ⟨hcheck, .grows (not_le.mp hgrows) hlatest hb⟩
        · rintro e ⟨hlimit, rfl⟩
          exact .cannotGrow (not_le.mp hgrows) hlatest hle hlimit
      · rintro e ⟨hlt, rfl⟩
        exact .overflows hlatest hlt
    · intro hlatest
      apply gives_allocate_gains.mono
      · rintro ⟨moved, b⟩ ⟨rfl, hb⟩
        exact ⟨hcheck, .moves (not_le.mp hgrows) hlatest hb⟩
      · rintro e ⟨hlt, rfl⟩
        exact .cannotMove (not_le.mp hgrows) hcheck hlatest hlt
  · rintro e ⟨hlt, rfl⟩
    exact .outside hlt

theorem gives_allocate : Gives (a.allocate size)
    (fun p => p.1 = a.heapPointer ∧ Extends a p.2 ∧ p.2.heapPointer = a.heapPointer + size)
    (fun e => ∃ requested, e = .outOfMemory requested a.limit) :=
  gives_allocate_gains.mono (fun _ h => ⟨h.1, h.2.toExtends, h.2.heapPointer_eq⟩)
    fun _ h => ⟨_, h.2⟩

end Operations

end Arena

end FlatMachine
