import FlatMachine.Proofs.Arena

/-!
# Sequences of calls on an arena

Whatever is asked of an arena, its segments stay where they are and in order, the heap and the
reserve only grow, and the reserve stays below the ceiling. A call that succeeds changes no more
than it is about; one that fails changes nothing. What is allocated is zeroed and lies behind
everything that was handed out before.
-/

namespace FlatMachine.Arena

open FlatMachine.Action

variable {a b c : Arena} {offset width src dst size value : Nat} {bytes front back : Bytes}

/-- The bytes lie at the offset. -/
def Stores (a : Arena) (offset : Nat) (bytes : Bytes) : Prop :=
  ∀ i < bytes.length, a.image[offset + i]? = bytes[i]?

theorem Stores.stop_le (h : a.Stores offset bytes) (hne : bytes ≠ []) :
    offset + bytes.length ≤ a.heapPointer := by
  have hlast := h (bytes.length - 1) (by have := List.length_pos_of_ne_nil hne; omega)
  rw [List.getElem?_eq_getElem (by have := List.length_pos_of_ne_nil hne; omega)] at hlast
  have hlt := (Array.getElem?_eq_some_iff.mp hlast).1
  change _ < a.heapPointer at hlt
  omega

theorem stores_append : a.Stores offset (front ++ back) ↔
    a.Stores offset front ∧ a.Stores (offset + front.length) back := by
  constructor
  · intro h
    constructor
    · intro i hi
      rw [h i (by rw [List.length_append]; omega), List.getElem?_append_left hi]
    · intro i hi
      rw [Nat.add_assoc, h (front.length + i) (by rw [List.length_append]; omega),
        List.getElem?_append_right (Nat.le_add_right _ _), Nat.add_sub_cancel_left]
  · rintro ⟨hfront, hback⟩ i hi
    rw [List.length_append] at hi
    by_cases hlt : i < front.length
    · rw [hfront i hlt, List.getElem?_append_left hlt]
    · have hrest := hback (i - front.length) (by omega)
      rw [Nat.add_assoc, Nat.add_sub_cancel' (not_lt.mp hlt)] at hrest
      rw [hrest, List.getElem?_append_right (not_lt.mp hlt)]

theorem Stores.of_extends (h : a.Stores offset bytes) (hext : Extends a b) :
    b.Stores offset bytes := by
  intro i hi
  have hsome := h i hi
  rw [List.getElem?_eq_getElem hi] at hsome
  rw [hext.getElem?_eq _ (Array.getElem?_eq_some_iff.mp hsome).1, h i hi]

theorem Stores.changedIn (h : a.Stores offset bytes) (hchanged : ChangedIn a b dst width)
    (hapart : offset + bytes.length ≤ dst ∨ dst + width ≤ offset) : b.Stores offset bytes := by
  intro i hi
  rw [hchanged.getElem?_eq _ (by omega), h i hi]

theorem overlay_stored (h : offset + width ≤ a.heapPointer) (hlen : bytes.length = width) :
    let b : Arena := { a with image := overlay a.image offset bytes }
    ChangedIn a b offset width ∧ b.Stores offset bytes := by
  subst width
  refine ⟨changedIn_overlay .., fun i hi => ?_⟩
  have hsize : offset + i < a.image.size := by
    change _ ≤ a.image.size at h
    omega
  have hin : offset ≤ offset + i ∧ offset + i < offset + bytes.length ∧
      offset + i < a.image.size := ⟨Nat.le_add_right _ _, by omega, hsize⟩
  rw [getElem?_overlay, if_pos hin, Nat.add_sub_cancel_left]

theorem stores_extract (a : Arena) (offset width : Nat) :
    a.Stores offset (a.image.extract offset (offset + width)).toList := by
  intro i hi
  rw [Array.length_toList, Array.size_extract] at hi
  rw [Array.getElem?_toList, Array.getElem?_extract, if_pos hi]

theorem stores_of_read (h : a.read offset width = .ok bytes) : a.Stores offset bytes := by
  obtain ⟨-, -, rfl⟩ := gives_read.value h
  exact stores_extract a offset width

theorem exists_read (h : offset + width ≤ a.heapPointer) :
    ∃ bytes, a.read offset width = .ok bytes ∧ bytes.length = width := by
  cases hread : a.read offset width with
  | error e =>
    obtain ⟨hlt, -⟩ := gives_read.failure hread
    exact absurd h (not_le.mpr hlt)
  | ok bytes =>
    obtain ⟨-, hlen, -⟩ := gives_read.value hread
    exact ⟨bytes, rfl, hlen⟩

theorem Stores.read (h : a.Stores offset bytes) (hle : offset + bytes.length ≤ a.heapPointer) :
    a.read offset bytes.length = .ok bytes := by
  cases hr : a.read offset bytes.length with
  | error e =>
    have hlt := (gives_read.failure hr).1
    omega
  | ok found =>
    obtain ⟨-, hlen, rfl⟩ := gives_read.value hr
    congr 1
    apply List.ext_getElem?
    intro i
    by_cases hi : i < bytes.length
    · rw [← h i hi, stores_extract a offset bytes.length i (by omega)]
    · rw [List.getElem?_eq_none (by omega), List.getElem?_eq_none (by omega)]

/-- The segments lie one behind the other, and the reserve covers the allocated bytes. -/
structure Ordered (a : Arena) : Prop where
  nilGuard_le : nilGuard ≤ a.stackStart
  stackStart_le : a.stackStart ≤ a.stackEnd
  stackEnd_le : a.stackEnd ≤ a.heapPointer
  heapPointer_le : a.heapPointer ≤ a.capacity
  capacity_le : a.capacity ≤ a.limit

theorem Ordered.grows (h : a.Ordered) (hgrows : Grows a b) (hcapacity : b.heapPointer ≤ b.capacity)
    (hlimit : b.capacity ≤ b.limit) : b.Ordered where
  nilGuard_le := hgrows.stackStart_eq ▸ h.nilGuard_le
  stackStart_le := by rw [hgrows.stackStart_eq, hgrows.stackEnd_eq]; exact h.stackStart_le
  stackEnd_le := by rw [hgrows.stackEnd_eq]; exact h.stackEnd_le.trans hgrows.heapPointer_le
  heapPointer_le := hcapacity
  capacity_le := hlimit

/-- A layout that is a size is made in order, unless it passes the ceiling. -/
theorem gives_withLayout_of_le {data : Bytes} {stackSize heapSize limit : Nat} {overflow : Overflow}
    (h : max data.length nilGuard + stackSize + heapSize ≤ Size.max) :
    let layout := max data.length nilGuard + stackSize + heapSize
    Gives (withLayout data stackSize heapSize limit overflow)
      (fun a => a.Ordered ∧ a.limit = limit ∧ layout ≤ limit)
      (fun e => limit < layout ∧ e = .outOfMemory layout limit) := by
  have hlaid := gives_withLayout data stackSize heapSize limit overflow
  have hstack : max data.length nilGuard + stackSize ≤ Size.max := (Nat.le_add_right _ _).trans h
  simp only [Size.mod_of_le h, Size.mod_of_le hstack] at hlaid
  apply hlaid.mono
  · rintro a ⟨-, hlimit, hstart, hend, hheap, hcapacity, rfl⟩
    refine ⟨⟨?_, ?_, hheap.ge, ?_, ?_⟩, rfl, hlimit⟩
    · exact hstart ▸ Nat.le_max_right _ _
    · rw [hstart, hend]
      exact Nat.le_add_right _ _
    · rw [hheap, hend, hcapacity]
      exact Nat.le_add_right _ _
    · exact hcapacity ▸ hlimit
  · rintro e (⟨hlt, -⟩ | ⟨-, hlt, rfl⟩)
    · exact absurd h (not_le.mpr hlt)
    · exact ⟨hlt, rfl⟩

theorem ordered_withLayout {data : Bytes} {stackSize heapSize limit : Nat}
    (h : withLayout data stackSize heapSize limit = .ok a) : a.Ordered :=
  ((gives_withLayout_of_le ((withLayout_eq_ok h).1.trans (Nat.min_le_right _ _))).value h).1

theorem grows_overlay (a : Arena) (offset : Nat) (bytes : Bytes) :
    Grows a { a with image := overlay a.image offset bytes } :=
  ⟨(changedIn_overlay a offset bytes).sameSegments, le_rfl, rfl⟩

theorem Ordered.overlay (h : a.Ordered) (offset : Nat) (bytes : Bytes) :
    Ordered { a with image := overlay a.image offset bytes } :=
  h.grows (grows_overlay a offset bytes)
    (by simpa only [heapPointer, size_overlay] using h.heapPointer_le) h.capacity_le

theorem Gains.ordered (h : Gains a width b) (ha : a.Ordered) : b.Ordered :=
  ha.grows h.grows (h.heapPointer_eq ▸ h.reserved) (h.grows.limit_eq ▸ h.limited ha.capacity_le)

theorem Gains.stores (h : Gains a width b) :
    b.Stores a.heapPointer (List.replicate width 0) := by
  intro i hi
  rw [List.length_replicate] at hi
  rw [h.getElem?_eq_zero hi, List.getElem?_replicate_of_lt hi]

/-- A call on an arena. -/
inductive Call where
  | read (offset width : Nat)
  | write (offset : Nat) (bytes : Bytes)
  | zero (offset width : Nat)
  | copy (src dst width : Nat)
  | writeHandle (offset value : Nat)
  | allocate (size : Nat)
  | resize (offset oldSize newSize : Nat)

/-- What a call yields. -/
inductive Reply where
  | done
  | bytes (content : Bytes)
  | offset (n : Nat)

/-- Bytes that were handed out. -/
structure Region where
  offset : Nat
  size : Nat
  deriving DecidableEq

def Region.stop (r : Region) : Nat := r.offset + r.size

/-- The regions lie in front of the heap pointer. -/
def Covers (a : Arena) (regions : List Region) : Prop := ∀ r ∈ regions, r.stop ≤ a.heapPointer

namespace Call

def run : Call → Action Arena Reply
  | read offset width => do return .bytes (← query (·.read offset width))
  | write offset bytes => do
    update (·.write offset bytes)
    return .done
  | zero offset width => do
    update (·.zero offset width)
    return .done
  | copy src dst width => do
    update (·.copy src dst width)
    return .done
  | writeHandle offset value => do
    update (·.writeHandle offset value)
    return .done
  | allocate size => do return .offset (← advance (·.allocate size))
  | resize offset oldSize newSize => do
    return .offset (← advance (·.resize offset oldSize newSize))

/-- The region that a call hands out. -/
def region? : Call → Reply → Option Region
  | allocate size, .offset n => some ⟨n, size⟩
  | resize _ _ newSize, .offset n => some ⟨n, newSize⟩
  | _, _ => none

/-- The ranges of a call are allocated, and what it stores or allocates has room. -/
def Fits (a : Arena) : Call → Prop
  | read offset width | zero offset width => offset + width ≤ a.heapPointer
  | write offset bytes => offset + bytes.length ≤ a.heapPointer
  | copy src dst width => src + width ≤ a.heapPointer ∧ dst + width ≤ a.heapPointer
  | writeHandle offset value => offset + 4 ≤ a.heapPointer ∧ value ≤ Size.maxHandle
  | allocate size => a.heapPointer + size ≤ min a.limit Size.max
  | resize offset oldSize newSize =>
    offset + oldSize ≤ a.heapPointer ∧ a.heapPointer + newSize ≤ min a.limit Size.max

/-- What a call does to an arena in which these regions have been handed out. -/
def Effect (regions : List Region) (a : Arena) (reply : Reply) (b : Arena) : Call → Prop
  | read offset width =>
    b = a ∧ ∃ bytes, reply = .bytes bytes ∧ bytes.length = width ∧ a.Stores offset bytes
  | write offset bytes => ChangedIn a b offset bytes.length ∧ b.Stores offset bytes
  | zero offset width => ChangedIn a b offset width ∧ b.Stores offset (List.replicate width 0)
  | copy src dst width => ChangedIn a b dst width ∧
    ∃ bytes, bytes.length = width ∧ a.Stores src bytes ∧ b.Stores dst bytes
  | writeHandle offset value =>
    ChangedIn a b offset 4 ∧ b.Stores offset (LittleEndian.encode 4 value)
  | allocate size => reply = .offset a.heapPointer ∧ b.heapPointer = a.heapPointer + size ∧
    b.Stores a.heapPointer (List.replicate size 0) ∧ Extends a b ∧
      a.Covers regions
  | resize .. => Extends a b

end Call

/-- An arena with the regions that it has handed out, the latest first. -/
structure Ledger where
  arena : Arena
  regions : List Region := []

namespace Ledger

def after (l : Ledger) (c : Call) : Ledger :=
  match c.run l.arena with
  | .ok reply a => ⟨a, (c.region? reply).toList ++ l.regions⟩
  | .error _ a => { l with arena := a }

def afterAll (l : Ledger) (calls : List Call) : Ledger := calls.foldl after l

end Ledger

/-- Zeroing is writing zeros. -/
theorem zero_eq (a : Arena) (offset width : Nat) :
    a.zero offset width = a.write offset (List.replicate width 0) := by
  rw [zero, write, List.length_replicate]

/-- Copying is reading all the bytes and then writing them, so that the ranges may overlap. -/
theorem copy_eq (a : Arena) (src dst width : Nat) :
    a.copy src dst width = a.read src width >>= a.write dst := by
  cases hread : a.read src width with
  | ok bytes =>
    obtain ⟨hle, rfl, hbytes⟩ := gives_read.value hread
    unfold copy check
    rw [if_pos hle, ← hbytes]
    rfl
  | error e =>
    obtain ⟨hlt, rfl⟩ := gives_read.failure hread
    unfold copy check
    rw [if_neg (not_le.mpr hlt)]
    rfl

theorem gives_writeHandle : Gives (a.writeHandle offset value)
    (fun b => (offset + 4 ≤ a.heapPointer ∧ value ≤ Size.maxHandle) ∧
      b = { a with image := overlay a.image offset (LittleEndian.encode 4 value) })
    (fun _ => ¬ (offset + 4 ≤ a.heapPointer ∧ value ≤ Size.maxHandle)) := by
  simp only [writeHandle, encodeHandle, gives_bind, gives_ite, gives_ok, gives_error]
  refine ⟨fun hvalue => ?_, fun h hfits => h hfits.2⟩
  apply gives_write.mono
  · simp only [LittleEndian.length_encode]
    exact fun _ hb => ⟨⟨hb.1, hvalue⟩, hb.2⟩
  · simp only [LittleEndian.length_encode]
    exact fun _ he hfits => absurd hfits.1 (not_le.mpr he.1)

theorem Resizes.kept {oldSize newSize : Nat} {p : Nat × Arena}
    (h : Resizes a offset oldSize newSize p) (hinside : offset + oldSize ≤ a.heapPointer) :
    Extends a p.2 ∧ Grows a p.2 ∧ (a.Ordered → p.2.Ordered) ∧ p.1 + newSize ≤ p.2.heapPointer := by
  cases h with
  | stays hshrinks =>
    exact ⟨.refl a, .refl a, id, (Nat.add_le_add_left hshrinks offset).trans hinside⟩
  | @grows b hgrows hlatest hgains =>
    refine ⟨hgains.toExtends, hgains.grows, hgains.ordered, ?_⟩
    rw [hgains.heapPointer_eq]
    have := hlatest.1
    omega
  | @moves b hgrows hlatest hgains =>
    have hover := changedIn_overlay b a.heapPointer
      (b.image.extract offset (offset + oldSize)).toList
    refine ⟨hgains.toExtends.changedIn hover le_rfl, hgains.grows.trans (grows_overlay _ _ _),
      fun ha => (hgains.ordered ha).overlay _ _, ?_⟩
    exact hover.heapPointer_eq.symm ▸ hgains.heapPointer_eq.ge

theorem ResizeFails.not_fits {oldSize newSize : Nat} {e : Error}
    (h : ResizeFails a offset oldSize newSize e) :
    ¬ (Call.resize offset oldSize newSize).Fits a := by
  rintro ⟨hinside, hroom⟩
  cases h with
  | outside hlt => omega
  | overflows hlatest hlt =>
    have := hlatest.1
    omega
  | cannotGrow hgrows hlatest hle hlt =>
    have := hlatest.1
    omega
  | cannotMove hgrows hle hlatest hlt => omega

theorem Covers.grows {regions : List Region} (h : a.Covers regions) (hgrows : Grows a b) :
    b.Covers regions := fun r hr => (h r hr).trans hgrows.heapPointer_le

theorem Covers.cons {regions : List Region} {r : Region} (h : a.Covers regions)
    (hr : r.stop ≤ a.heapPointer) : a.Covers (r :: regions) := List.forall_mem_cons.mpr ⟨hr, h⟩

/-- What a call that only overwrites keeps. -/
theorem overlay_kept {regions : List Region} (h : a.Covers regions) (offset : Nat) (bytes : Bytes) :
    let b : Arena := { a with image := overlay a.image offset bytes }
    Grows a b ∧ (a.Ordered → b.Ordered) ∧ b.Covers regions :=
  ⟨grows_overlay .., fun ha => ha.overlay .., h.grows (grows_overlay ..)⟩

/-- What one call does. -/
theorem Call.ends_run {regions : List Region} (call : Call) (hcovers : a.Covers regions) :
    Ends call.run a
      (fun reply b => (Grows a b ∧ (a.Ordered → b.Ordered) ∧
        b.Covers ((call.region? reply).toList ++ regions)) ∧ call.Effect regions a reply b)
      (fun _ b => b = a ∧ ¬ call.Fits a) := by
  cases call with
  | read offset width =>
    simp only [run, ends_bind, ends_query, ends_pure, true_and]
    apply gives_read.mono
    · rintro bytes ⟨-, hlen, rfl⟩
      exact ⟨⟨.refl a, id, hcovers⟩, rfl, _, rfl, hlen, stores_extract a offset width⟩
    · exact fun _ he => not_le.mpr he.1
  | write offset bytes =>
    simp only [run, ends_bind, ends_update, ends_pure, true_and]
    apply gives_write.mono
    · rintro _ ⟨hle, rfl⟩
      exact ⟨overlay_kept hcovers .., overlay_stored hle rfl⟩
    · exact fun _ he => not_le.mpr he.1
  | zero offset width =>
    simp only [run, ends_bind, ends_update, ends_pure, true_and]
    apply gives_zero.mono
    · rintro _ ⟨hle, rfl⟩
      exact ⟨overlay_kept hcovers .., overlay_stored hle List.length_replicate⟩
    · exact fun _ he => not_le.mpr he.1
  | copy src dst width =>
    simp only [run, ends_bind, ends_update, ends_pure, copy_eq, gives_bind, true_and]
    apply gives_read.mono
    · rintro bytes ⟨hsrc, rfl, hbytes⟩
      apply gives_write.mono
      · rintro _ ⟨hdst, rfl⟩
        obtain ⟨hchanged, hstores⟩ := overlay_stored hdst rfl
        exact ⟨overlay_kept hcovers .., hchanged, bytes, rfl,
          hbytes ▸ stores_extract a src bytes.length, hstores⟩
      · exact fun _ he hfits => absurd hfits.2 (not_le.mpr he.1)
    · exact fun _ he hfits => absurd hfits.1 (not_le.mpr he.1)
  | writeHandle offset value =>
    simp only [run, ends_bind, ends_update, ends_pure, true_and]
    apply gives_writeHandle.mono
    · rintro _ ⟨⟨hle, -⟩, rfl⟩
      exact ⟨overlay_kept hcovers .., overlay_stored hle (LittleEndian.length_encode ..)⟩
    · exact fun _ he => he
  | allocate size =>
    simp only [run, ends_bind, ends_advance, ends_pure, true_and]
    apply gives_allocate_gains.mono
    · rintro ⟨offset, b⟩ ⟨rfl, hb⟩
      refine ⟨⟨hb.grows, hb.ordered, (hcovers.grows hb.grows).cons hb.heapPointer_eq.ge⟩, rfl,
        hb.heapPointer_eq, hb.stores, hb.toExtends, hcovers⟩
    · exact fun _ he => not_le.mpr he.1
  | resize offset oldSize newSize =>
    simp only [run, ends_bind, ends_advance, ends_pure, true_and]
    apply gives_resize.mono
    · rintro ⟨moved, b⟩ ⟨hinside, hresizes⟩
      obtain ⟨hext, hgrows, hordered, hstop⟩ := hresizes.kept hinside
      exact ⟨⟨hgrows, hordered, (hcovers.grows hgrows).cons hstop⟩, hext⟩
    · exact fun _ he => he.not_fits

theorem Ledger.afterAll_kept {l : Ledger} (calls : List Call)
    (hcovers : l.arena.Covers l.regions) :
    Grows l.arena (l.afterAll calls).arena ∧
      (l.arena.Ordered → (l.afterAll calls).arena.Ordered) ∧
      (l.afterAll calls).arena.Covers (l.afterAll calls).regions := by
  induction calls generalizing l with
  | nil => exact ⟨.refl _, id, hcovers⟩
  | cons call calls ih =>
    have hstep : Grows l.arena (l.after call).arena ∧
        (l.arena.Ordered → (l.after call).arena.Ordered) ∧
        (l.after call).arena.Covers (l.after call).regions := by
      have hends := call.ends_run hcovers
      unfold after
      cases hrun : call.run l.arena with
      | ok reply a => exact (hends.value hrun).1
      | error e a =>
        obtain ⟨rfl, -⟩ := hends.failure hrun
        exact ⟨.refl _, id, hcovers⟩
    obtain ⟨hgrows, hordered, hcovers⟩ := ih hstep.2.2
    exact ⟨hstep.1.trans hgrows, fun h => hordered (hstep.2.1 h), hcovers⟩

/-- After any calls the segments are in order and where they were, and the next call either changes
only what it is about or, if it does not fit, nothing. -/
theorem ordered_afterAll {data : Bytes} {stackSize heapSize limit : Nat}
    (h : withLayout data stackSize heapSize limit = .ok a) (calls : List Call) :
    let l := Ledger.afterAll ⟨a, []⟩ calls
    l.arena.Ordered ∧ Grows a l.arena ∧ ∀ call : Call, Ends call.run l.arena
      (fun reply b => b.Ordered ∧ Grows l.arena b ∧ call.Effect l.regions l.arena reply b)
      (fun _ b => b = l.arena ∧ ¬ call.Fits l.arena) := by
  obtain ⟨hgrows, hkept, hcovers⟩ := Ledger.afterAll_kept (l := ⟨a, []⟩) calls nofun
  have hordered := hkept (ordered_withLayout h)
  refine ⟨hordered, hgrows, fun call => ?_⟩
  apply (call.ends_run hcovers).mono ?_ fun _ _ he => he
  intro reply b hb
  exact ⟨hb.1.2.1 hordered, hb.1.1, hb.2⟩

/-- Two objects, of which the first is moved to grow, a write and an allocation that do not fit, and
an allocation that does. -/
def growingCalls : List Call :=
  [.allocate 4, .allocate 6, .write 16 [1, 2, 3, 4], .resize 16 4 8, .write 60 [5], .allocate 70,
   .allocate 3]

theorem ordered_afterAll_growingCalls : ∃ a, withLayout [7] 8 4 64 = .ok a ∧
    (Ledger.afterAll ⟨a, []⟩ growingCalls).regions = [⟨34, 3⟩, ⟨26, 8⟩, ⟨20, 6⟩, ⟨16, 4⟩] ∧
    (Ledger.afterAll ⟨a, []⟩ growingCalls).arena.Ordered ∧
    Grows a (Ledger.afterAll ⟨a, []⟩ growingCalls).arena := by
  obtain ⟨a, ha, hregions⟩ : ∃ a, withLayout [7] 8 4 64 = .ok a ∧
      (Ledger.afterAll ⟨a, []⟩ growingCalls).regions = [⟨34, 3⟩, ⟨26, 8⟩, ⟨20, 6⟩, ⟨16, 4⟩] :=
    ⟨_, rfl, by decide⟩
  have hsound := ordered_afterAll ha growingCalls
  exact ⟨a, ha, hregions, hsound.1, hsound.2.1⟩

end FlatMachine.Arena
