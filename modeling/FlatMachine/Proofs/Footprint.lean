import FlatMachine.Proofs.Arena
import FlatMachine.Proofs.Place

/-!
# What is read on the way to a value

The way to the place of an operand goes through memory: pointers and slice handles are read, and so
are the values of indexes. The footprint of an operand lists these ranges of bytes, and with them
that of the value itself. What an operand stands for depends on no other byte.
-/

namespace FlatMachine

namespace Arena

/-- The ranges, of an offset and a width each, hold the same bytes in both arenas. -/
def SameOn (a b : Arena) (ranges : List (Nat × Nat)) : Prop :=
  ∀ r ∈ ranges, b.read r.1 r.2 = a.read r.1 r.2

variable {a b : Arena} {ranges rest : List (Nat × Nat)} {offset width : Nat}

theorem sameOn_append : SameOn a b (ranges ++ rest) ↔ SameOn a b ranges ∧ SameOn a b rest :=
  List.forall_mem_append

/-- A range holds the same bytes if each byte of it is the same. -/
theorem extract_congr
    (hsame : ∀ i, offset ≤ i → i < offset + width → b.image[i]? = a.image[i]?) :
    b.image.extract offset (offset + width) = a.image.extract offset (offset + width) := by
  have hbyte : ∀ (c : Arena) (k : Nat), (c.image.extract offset (offset + width))[k]? =
      if k < width then c.image[offset + k]? else none := by
    intro c k
    rw [Array.getElem?_extract]
    by_cases hin : k < min (offset + width) c.image.size - offset
    · rw [if_pos hin, if_pos (by omega)]
    · rw [if_neg hin]
      split
      · exact (Array.getElem?_eq_none (by omega)).symm
      · rfl
  apply Array.ext_getElem?
  intro k
  rw [hbyte, hbyte]
  split
  · exact hsame (offset + k) (Nat.le_add_right _ _) (by omega)
  · rfl

/-- Bytes that have not changed are read as before. -/
theorem read_congr (hsize : b.heapPointer = a.heapPointer)
    (hsame : ∀ i, offset ≤ i → i < offset + width → b.image[i]? = a.image[i]?) :
    b.read offset width = a.read offset width := by
  simp only [read, check, hsize, extract_congr hsame]

/-- Allocated bytes that have not changed are read as before, also when there are more of them. -/
theorem read_eq_of_inside (hinside : offset + width ≤ a.heapPointer)
    (hsize : a.heapPointer ≤ b.heapPointer)
    (hsame : ∀ i, offset ≤ i → i < offset + width → b.image[i]? = a.image[i]?) :
    b.read offset width = a.read offset width := by
  simp only [read, check, extract_congr hsame, if_pos hinside, if_pos (hinside.trans hsize)]

theorem readHandle_congr (h : SameOn a b [(offset, 4)]) : b.readHandle offset = a.readHandle offset := by
  rw [readHandle, readHandle, h _ List.mem_cons_self]

end Arena

/-- The handle that a pointer at an offset is followed by; nothing is read for another type. -/
def Ty.pointerReads (offset : Nat) : Ty → List (Nat × Nat)
  | .pointer _ => [(offset, 4)]
  | _ => []

/-- The handle and the count of a slice at an offset; an array is not read. -/
def Arena.elementReads (a : Arena) (offset : Nat) : Ty → List (Nat × Nat)
  | .slice _ =>
    (offset, 4) :: match a.readHandle offset with
      | .ok handle => [(handle, 4)]
      | .error _ => []
  | _ => []

mutual

/-- The ranges that are read on the way to the place of an operand. -/
def Operand.reads (structs : StructTable) (a : Arena) (fp : Nat) : Operand → List (Nat × Nat)
  | { name, ty, storage, chain, .. } =>
    match storage.start fp name with
    | .ok start => readsAlong structs a fp name start ty chain
    | .error _ => []

/-- The ranges that are read while the accesses of a chain are followed. -/
def readsAlong (structs : StructTable) (a : Arena) (fp : Nat) (name : String) (offset : Nat)
    (ty : Ty) : List Access → List (Nat × Nat)
  | [] => []
  | access :: rest =>
    access.reads structs a fp name offset ty ++
      match access.follow structs a fp name offset ty with
      | .ok found => readsAlong structs a fp name found.1 found.2 rest
      | .error _ => []

def Access.reads (structs : StructTable) (a : Arena) (fp : Nat) (name : String) (offset : Nat)
    (ty : Ty) : Access → List (Nat × Nat)
  | .pointer => ty.pointerReads offset
  | .field _ => ty.pointerReads offset
  | .index source =>
    ty.pointerReads offset ++ source.reads structs a fp ++
      match a.implicit name offset ty with
      | .ok start => a.elementReads start.1 start.2
      | .error _ => []

def Index.reads (structs : StructTable) (a : Arena) (fp : Nat) : Index → List (Nat × Nat)
  | .const _ => []
  | .operand source =>
    source.reads structs a fp ++
      match source.place structs a fp with
      | .ok place => [(place.offset, place.size)]
      | .error _ => []

end

/-- The ranges that the bytes of an operand depend on: those on the way, and that of its value unless
it is taken by reference. -/
def Operand.footprint (structs : StructTable) (a : Arena) (fp : Nat) (o : Operand) :
    List (Nat × Nat) :=
  o.reads structs a fp ++
    match o.place structs a fp with
    | .ok place => if o.byReference then [] else [(place.offset, place.size)]
    | .error _ => []

section Congruence

variable {t : StructTable} {a b : Arena} {fp offset : Nat} {name : String} {ty : Ty}

theorem Operand.reads_eq (t : StructTable) (a : Arena) (fp : Nat) (o : Operand) :
    o.reads t a fp = match o.storage.start fp o.name with
      | .ok start => readsAlong t a fp o.name start o.ty o.chain
      | .error _ => [] := by
  cases o
  rfl

theorem Arena.implicit_congr (h : a.SameOn b (ty.pointerReads offset)) :
    b.implicit name offset ty = a.implicit name offset ty := by
  cases ty with
  | pointer target =>
    have hread : a.SameOn b [(offset, 4)] := h
    simp only [implicit, follow, readHandle_congr hread]
  | _ => rfl

theorem Arena.element_congr {index : Int} (h : a.SameOn b (a.elementReads offset ty)) :
    b.element t offset index ty = a.element t offset index ty := by
  cases ty with
  | slice elem =>
    obtain ⟨hhandle, hcount⟩ := List.forall_mem_cons.mp h
    have hread : a.SameOn b [(offset, 4)] := List.forall_mem_singleton.mpr hhandle
    simp only [element, readHandle_congr hread]
    cases hfound : a.readHandle offset with
    | error e => rfl
    | ok handle =>
      rw [hfound] at hcount
      have hlength : b.objectLength handle = a.objectLength handle := by
        simp only [objectLength, readHandle_congr hcount]
      change (b.objectLength handle >>= fun _ => _) = (a.objectLength handle >>= fun _ => _)
      rw [hlength]
  | _ => rfl

mutual

/-- The way to a place depends only on the bytes that are read on it. -/
theorem Operand.place_congr : (o : Operand) → a.SameOn b (o.reads t a fp) →
    o.place t b fp = o.place t a fp
  | { name, ty, storage, chain, byReference, escapes, literalPointer, structName, declared,
      shortDeclared, location, package }, h => by
    rw [Operand.place_eq, Operand.place_eq]
    rw [Operand.reads_eq] at h
    dsimp only at h ⊢
    cases hstart : storage.start fp name with
    | error e => rfl
    | ok start =>
      rw [hstart] at h
      change (followChain t b fp name start ty chain >>= fun _ => _) =
        (followChain t a fp name start ty chain >>= fun _ => _)
      rw [followChain_congr chain h]

theorem followChain_congr : (chain : List Access) → {name : String} → {offset : Nat} → {ty : Ty} →
    a.SameOn b (readsAlong t a fp name offset ty chain) →
    followChain t b fp name offset ty chain = followChain t a fp name offset ty chain
  | [], _, _, _, _ => rfl
  | access :: rest, name, offset, ty, h => by
    obtain ⟨haccess, hrest⟩ := Arena.sameOn_append.mp h
    unfold followChain
    rw [access_congr access haccess]
    cases hfound : access.follow t a fp name offset ty with
    | error e => rfl
    | ok found =>
      rw [hfound] at hrest
      exact followChain_congr rest hrest

theorem access_congr : (access : Access) → {name : String} → {offset : Nat} → {ty : Ty} →
    a.SameOn b (access.reads t a fp name offset ty) →
    access.follow t b fp name offset ty = access.follow t a fp name offset ty
  | .pointer, name, offset, ty, h => by
    unfold Access.follow
    cases ty with
    | pointer target =>
      have hread : a.SameOn b [(offset, 4)] := h
      simp only [Arena.follow, Arena.readHandle_congr hread]
    | _ => rfl
  | .index source, name, offset, ty, h => by
    obtain ⟨h, helement⟩ := Arena.sameOn_append.mp h
    obtain ⟨hpointer, hindex⟩ := Arena.sameOn_append.mp h
    rw [Access.follow_index_eq, Access.follow_index_eq, Arena.implicit_congr hpointer,
      index_congr source hindex]
    cases hstart : a.implicit name offset ty with
    | error e => rfl
    | ok start =>
      rw [hstart] at helement
      change (source.value t a fp >>= fun _ => _) = (source.value t a fp >>= fun _ => _)
      exact bind_congr fun index => Arena.element_congr helement
  | .field ref, name, offset, ty, h => by
    unfold Access.follow
    cases ty with
    | pointer target =>
      have hread : a.SameOn b [(offset, 4)] := h
      simp only [Arena.follow, Arena.readHandle_congr hread]
    | _ => rfl

theorem index_congr : (source : Index) → a.SameOn b (source.reads t a fp) →
    source.value t b fp = source.value t a fp
  | .const n, _ => by
    unfold Index.value
    rfl
  | .operand source, h => by
    obtain ⟨hreads, hvalue⟩ := Arena.sameOn_append.mp h
    unfold Index.value
    rw [Operand.place_congr source hreads]
    cases hplace : source.place t a fp with
    | error e => rfl
    | ok place =>
      rw [hplace] at hvalue
      have hread : b.read place.offset place.size = a.read place.offset place.size :=
        hvalue _ List.mem_cons_self
      change (if _ then _ else _) = (if _ then _ else _)
      rw [hread]

end

/-- What an operand stands for depends only on the bytes of its footprint. -/
theorem Operand.bytes_congr {o : Operand} (h : a.SameOn b (o.footprint t a fp)) :
    o.bytes t b fp = o.bytes t a fp := by
  obtain ⟨hreads, hvalue⟩ := Arena.sameOn_append.mp h
  rw [Operand.bytes, Operand.bytes, o.place_congr hreads]
  cases hplace : o.place t a fp with
  | error e => rfl
  | ok place =>
    rw [hplace] at hvalue
    change (if _ then _ else _) = (if _ then _ else _)
    by_cases hreference : o.byReference = true
    · rw [if_pos hreference, if_pos hreference]
    · rw [if_neg hreference, if_neg hreference]
      apply hvalue (place.offset, place.size)
      simp only [if_neg hreference, List.mem_singleton]

end Congruence

end FlatMachine
