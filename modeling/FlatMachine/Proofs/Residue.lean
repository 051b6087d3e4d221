import FlatMachine.Proofs.Footprint
import FlatMachine.Proofs.HandleFree
import FlatMachine.Proofs.Relational

/-!
# Bytes that a function does not see

Frames that have ended leave their bytes in the stack segment. Two arenas that differ at most in
such bytes, behind an edge, stay so whatever is written and allocated in both. An operand without
handles reads nothing behind the edge of its frame, so it leads to the same place and stands for the
same bytes, and an operator of the library does the same in both arenas.
-/

namespace FlatMachine

open FlatMachine.Action

namespace Arena

variable {a b : Arena} {edge edge' offset width : Nat}

/-- The arenas differ at most in bytes of the stack segment from the edge on. -/
def AgreeBelow (edge : Nat) (a b : Arena) : Prop :=
  ∃ image, b = { a with image } ∧ image.size = a.image.size ∧
    ∀ i, i < edge ∨ a.stackEnd ≤ i → image[i]? = a.image[i]?

theorem AgreeBelow.mono (h : AgreeBelow edge a b) (hle : edge' ≤ edge) : AgreeBelow edge' a b := by
  obtain ⟨image, rfl, hsize, hsame⟩ := h
  exact ⟨image, rfl, hsize, fun i hi => hsame i (hi.imp_left (·.trans_le hle))⟩

theorem AgreeBelow.heapPointer_eq (h : AgreeBelow edge a b) : b.heapPointer = a.heapPointer := by
  obtain ⟨image, rfl, hsize, -⟩ := h
  exact hsize

theorem AgreeBelow.read_eq (h : AgreeBelow edge a b) (hle : offset + width ≤ edge) :
    b.read offset width = a.read offset width := by
  apply read_congr h.heapPointer_eq
  obtain ⟨image, rfl, -, hsame⟩ := h
  intro i _ hi
  exact hsame i (.inl (hi.trans_le hle))

theorem congruent_agreeBelow (edge : Nat) : Congruent (AgreeBelow edge) where
  write offset bytes := by
    rintro a _ ⟨image, rfl, hsize, hsame⟩
    have hcheck : ({ a with image } : Arena).check offset bytes.length =
        a.check offset bytes.length := by
      simp only [check, heapPointer, hsize]
      rfl
    simp only [update, write, hcheck]
    cases a.check offset bytes.length with
    | error e => exact ⟨rfl, image, rfl, hsize, hsame⟩
    | ok _ =>
      refine ⟨rfl, overlay image offset bytes, rfl, ?_, fun i hi => ?_⟩
      · rw [size_overlay, size_overlay, hsize]
      · rw [getElem?_overlay, getElem?_overlay, hsize, hsame i hi]
  allocate size := by
    rintro a _ ⟨image, rfl, hsize, hsame⟩
    have hpointer : ({ a with image } : Arena).heapPointer = a.heapPointer := hsize
    simp only [advance, allocate, hpointer]
    cases Size.add? a.heapPointer size with
    | none => exact ⟨rfl, image, rfl, hsize, hsame⟩
    | some stop =>
      have happend : ∀ i, i < edge ∨ a.stackEnd ≤ i →
          (image ++ Array.replicate size 0)[i]? = (a.image ++ Array.replicate size 0)[i]? := by
        intro i hi
        rw [Array.getElem?_append, Array.getElem?_append, hsize, hsame i hi]
      have htotal : (image ++ Array.replicate size 0).size =
          (a.image ++ Array.replicate size 0).size := by
        rw [Array.size_append, Array.size_append, hsize]
      by_cases hroom : stop ≤ a.capacity
      · simp only [reserve, if_pos hroom]
        exact ⟨rfl, _, rfl, htotal, happend⟩
      · by_cases hlimit : a.limit < stop
        · simp only [reserve, if_neg hroom, if_pos hlimit]
          exact ⟨rfl, image, rfl, hsize, hsame⟩
        · simp only [reserve, if_neg hroom, if_neg hlimit]
          exact ⟨rfl, _, rfl, htotal, happend⟩

/-- Zeroing a range that begins at the edge or below moves the edge behind it. -/
theorem AgreeBelow.zero (h : AgreeBelow edge a b) (hle : offset ≤ edge) :
    EndBoth (AgreeBelow (max edge (offset + width))) (AgreeBelow edge)
      (update (·.zero offset width) a) (update (·.zero offset width) b) := by
  obtain ⟨image, rfl, hsize, hsame⟩ := h
  have hcheck : ({ a with image } : Arena).check offset width = a.check offset width := by
    simp only [check, heapPointer, hsize]
    rfl
  simp only [update, Arena.zero, hcheck]
  cases a.check offset width with
  | error e => exact ⟨rfl, image, rfl, hsize, hsame⟩
  | ok _ =>
    refine ⟨rfl, overlay image offset (List.replicate width 0), rfl, ?_, fun i hi => ?_⟩
    · rw [size_overlay, size_overlay, hsize]
    · rw [getElem?_overlay, getElem?_overlay, List.length_replicate, hsize]
      change i < max edge (offset + width) ∨ a.stackEnd ≤ i at hi
      by_cases hinside : offset ≤ i ∧ i < offset + width ∧ i < a.image.size
      · rw [if_pos hinside, if_pos hinside]
      · rw [if_neg hinside, if_neg hinside]
        by_cases hend : i < a.image.size
        · exact hsame i (by omega)
        · rw [Array.getElem?_eq_none (by omega), Array.getElem?_eq_none (by omega)]

end Arena

section Reading

variable {t : StructTable} {a : Arena} {fp frameSize dataSize edge size : Nat} {name : String}
  {offset : Nat} {ty : Ty} {chain : List Access} {o : Operand}

theorem followChain_isHandleFree (hpacked : t.Packed) (hfields : t.HandleFreeFields)
    (hlinked : ChainLinked t ty chain) (hfree : ty.isHandleFree = true)
    (hsize : ty.size t = .ok size) :
    Gives (followChain t a fp name offset ty chain) (fun found => found.2.isHandleFree = true)
      (fun _ => True) := by
  induction chain generalizing offset ty size with
  | nil => exact hfree
  | cons access rest ih =>
    obtain ⟨haccess, next, hnext, hrest⟩ := hlinked
    unfold followChain
    rw [gives_bind]
    apply (follow_inside hpacked haccess hnext (Ty.isHandle_of_isHandleFree hfree) hsize).imp
    rintro ⟨middle, _⟩ ⟨rfl, width, hwidth, -⟩
    exact ih hrest (Ty.isHandleFree_step hfields hfree hnext) hwidth

/-- A value that is housed lies below the edge, and no handle occurs in it. -/
theorem Operand.Housed.place_below {place : Place} (h : o.Housed t frameSize dataSize)
    (hpacked : t.Packed) (hfields : t.HandleFreeFields) (hframe : fp + frameSize ≤ edge)
    (hdata : dataSize ≤ edge) (hplace : o.place t a fp = .ok place) :
    place.offset + place.size ≤ edge ∧ place.ty.isHandleFree = true := by
  obtain ⟨size, hsize, hhome⟩ := h.home
  have hdirect : ChainDirect t o.ty o.chain := chainDirect_of_isHandleFree hfields h.handleFree
  rw [Operand.place_eq] at hplace
  obtain ⟨start, hstart, hplace⟩ := bind_eq_ok.mp hplace
  obtain ⟨found, hfound, hplace⟩ := bind_eq_ok.mp hplace
  obtain ⟨width, hwidth, hplace⟩ := bind_eq_ok.mp hplace
  cases hplace
  obtain ⟨width', hwidth', -, hstop⟩ :=
    (followChain_inside hpacked h.linked hdirect hsize).value hfound
  cases hwidth.symm.trans hwidth'
  have hend : start + size ≤ edge := by
    rcases hhome with ⟨offset, hstorage, hle⟩ | ⟨offset, hstorage, hle⟩ <;> rw [hstorage] at hstart
    · obtain rfl : fp + offset = start := Except.ok.inj hstart
      omega
    · obtain rfl : offset = start := Except.ok.inj hstart
      omega
  exact ⟨hstop.trans hend,
    (followChain_isHandleFree hpacked hfields h.linked h.handleFree hsize).value hfound⟩

mutual

/-- Operands that are housed read nothing behind the edge on their way. -/
theorem Operand.reads_below (hpacked : t.Packed) (hfields : t.HandleFreeFields)
    (hframe : fp + frameSize ≤ edge) (hdata : dataSize ≤ edge) : (o : Operand) →
    (∀ x ∈ o.nested, x.Housed t frameSize dataSize) → ∀ r ∈ o.reads t a fp, r.1 + r.2 ≤ edge
  | { name, ty, storage, chain, byReference, escapes, literalPointer, structName, declared,
      shortDeclared, location, package }, h => by
    obtain ⟨hself, hrest⟩ := List.forall_mem_cons.mp h
    obtain ⟨size, hsize, -⟩ := hself.home
    rw [Operand.reads_eq]
    dsimp only
    cases storage.start fp name with
    | error e => exact nofun
    | ok start =>
      exact readsAlong_below hpacked hfields hframe hdata chain hrest hself.linked
        hself.handleFree hsize

theorem readsAlong_below (hpacked : t.Packed) (hfields : t.HandleFreeFields)
    (hframe : fp + frameSize ≤ edge) (hdata : dataSize ≤ edge) : (chain : List Access) →
    (∀ x ∈ nestedInChain chain, x.Housed t frameSize dataSize) → {name : String} →
    {offset : Nat} → {ty : Ty} → {size : Nat} → ChainLinked t ty chain → ty.isHandleFree = true →
    ty.size t = .ok size → ∀ r ∈ readsAlong t a fp name offset ty chain, r.1 + r.2 ≤ edge
  | [], _, _, _, _, _, _, _, _ => nofun
  | access :: rest, h, name, offset, ty, size, hlinked, hfree, hsize => by
    obtain ⟨haccess, hrest⟩ := List.forall_mem_append.mp h
    obtain ⟨hlink, next, hnext, hchain⟩ := hlinked
    rw [readsAlong, List.forall_mem_append]
    constructor
    · exact access_reads_below hpacked hfields hframe hdata access haccess hfree
    · cases hfound : access.follow t a fp name offset ty with
      | error e => exact nofun
      | ok found =>
        have hdirect := Ty.isHandle_of_isHandleFree hfree
        obtain ⟨hty, width, hwidth, -⟩ :=
          (follow_inside hpacked hlink hnext hdirect hsize).value hfound
        dsimp only
        rw [hty]
        exact readsAlong_below hpacked hfields hframe hdata rest hrest hchain
          (Ty.isHandleFree_step hfields hfree hnext) hwidth

theorem access_reads_below (hpacked : t.Packed) (hfields : t.HandleFreeFields)
    (hframe : fp + frameSize ≤ edge) (hdata : dataSize ≤ edge) : (access : Access) →
    (∀ x ∈ access.nested, x.Housed t frameSize dataSize) → {name : String} → {offset : Nat} →
    {ty : Ty} → ty.isHandleFree = true →
    ∀ r ∈ access.reads t a fp name offset ty, r.1 + r.2 ≤ edge
  | .pointer, _, name, offset, ty, hfree => by
    cases ty with
    | pointer target => cases hfree
    | _ => exact nofun
  | .field ref, _, name, offset, ty, hfree => by
    cases ty with
    | pointer target => cases hfree
    | _ => exact nofun
  | .index source, h, name, offset, ty, hfree => by
    have hsource : ∀ r ∈ source.reads t a fp, r.1 + r.2 ≤ edge :=
      index_reads_below hpacked hfields hframe hdata source h
    cases ty with
    | str => cases hfree
    | slice elem => cases hfree
    | pointer target => cases hfree
    | _ =>
      intro r hr
      change r ∈ [] ++ source.reads t a fp ++ [] at hr
      rw [List.nil_append, List.append_nil] at hr
      exact hsource r hr

theorem index_reads_below (hpacked : t.Packed) (hfields : t.HandleFreeFields)
    (hframe : fp + frameSize ≤ edge) (hdata : dataSize ≤ edge) : (source : Index) →
    (∀ x ∈ source.nested, x.Housed t frameSize dataSize) →
    ∀ r ∈ source.reads t a fp, r.1 + r.2 ≤ edge
  | .const n, _ => nofun
  | .operand source, h => by
    rw [Index.reads, List.forall_mem_append]
    constructor
    · exact Operand.reads_below hpacked hfields hframe hdata source h
    · cases hplace : source.place t a fp with
      | error e => exact nofun
      | ok place =>
        have hhoused := h source source.mem_nested
        exact List.forall_mem_singleton.mpr
          (hhoused.place_below hpacked hfields hframe hdata hplace).1

end

end Reading

/-- What the operand reads lies below the edge, and so does its value, in which no handle occurs. -/
structure Operand.Below (t : StructTable) (fp edge : Nat) (o : Operand) : Prop where
  reads : ∀ a, ∀ r ∈ o.reads t a fp, r.1 + r.2 ≤ edge
  place : ∀ a place, o.place t a fp = .ok place →
    place.offset + place.size ≤ edge ∧ place.ty.isHandleFree = true

namespace Operand

variable {t : StructTable} {a b : Arena} {fp frameSize dataSize edge edge' : Nat} {o : Operand}

theorem below_of_housed (h : ∀ x ∈ o.nested, x.Housed t frameSize dataSize) (hpacked : t.Packed)
    (hfields : t.HandleFreeFields) (hframe : fp + frameSize ≤ edge) (hdata : dataSize ≤ edge) :
    o.Below t fp edge :=
  ⟨fun _ => o.reads_below hpacked hfields hframe hdata h,
    fun _ _ => (h o o.mem_nested).place_below hpacked hfields hframe hdata⟩

namespace Below

theorem steady (h : o.Below t fp edge) : o.Steady (Arena.AgreeBelow edge) t fp :=
  fun a _ hab => o.place_congr fun r hr => hab.read_eq (h.reads a r hr)

theorem read_eq {place : Place} (h : o.Below t fp edge) (hab : a.AgreeBelow edge b)
    (hplace : o.place t a fp = .ok place) :
    b.read place.offset place.size = a.read place.offset place.size :=
  hab.read_eq (h.place a place hplace).1

theorem bytes_eq (h : o.Below t fp edge) (hab : a.AgreeBelow edge b) :
    o.bytes t b fp = o.bytes t a fp := by
  rw [Operand.bytes, Operand.bytes, h.steady a b hab]
  cases hplace : o.place t a fp with
  | error e => rfl
  | ok place =>
    change (if _ then _ else _) = (if _ then _ else _)
    rw [h.read_eq hab hplace]

theorem value_eq (h : o.Below t fp edge) (hab : a.AgreeBelow edge b) :
    o.value t b fp = o.value t a fp := by
  rw [Operand.value, Operand.value, h.steady a b hab]
  cases hplace : o.place t a fp with
  | error e => rfl
  | ok place =>
    obtain ⟨offset, ty, size⟩ := place
    have hread : b.read offset size = a.read offset size := h.read_eq hab hplace
    have hfree : ty.isHandleFree = true := (h.place a _ hplace).2
    cases ty with
    | str => cases hfree
    | slice elem => cases hfree
    | pointer target => cases hfree
    | _ =>
      change (b.read offset size >>= fun _ => _) = (a.read offset size >>= fun _ => _)
      rw [hread]

end Below

end Operand

namespace Site

/-- The operands of the node lie below the edge, and its inputs are taken by value. -/
structure Below (edge : Nat) (s : Site) : Prop where
  inputs : ∀ o ∈ s.node.inputs, o.Below s.structs s.fp edge
  byValue : ∀ o ∈ s.node.inputs, o.byReference = false
  outputs : ∀ o ∈ s.node.outputs, o.Below s.structs s.fp edge

variable {s : Site} {a b : Arena} {edge : Nat}

theorem mem_of_operand {i : Nat} {o : Operand} (h : s.operand i = .ok o) : o ∈ s.node.inputs := by
  unfold operand at h
  split at h
  · rename_i hi
    cases h
    exact List.mem_of_getElem? hi
  · cases h

namespace Below

theorem sameInputs (h : s.Below edge) (hab : a.AgreeBelow edge b) : s.SameInputs a b where
  input_eq i := by
    rw [input, input]
    cases ho : s.operand i with
    | error e => rfl
    | ok o =>
      have hbelow := h.inputs o (mem_of_operand ho)
      change (o.place s.structs b s.fp >>= fun _ => _) = (o.place s.structs a s.fp >>= fun _ => _)
      rw [hbelow.steady a b hab, h.byValue o (mem_of_operand ho)]
      cases hplace : o.place s.structs a s.fp with
      | error e => rfl
      | ok place =>
        obtain ⟨offset, ty, size⟩ := place
        have hread : b.read offset size = a.read offset size := hbelow.read_eq hab hplace
        have hfree : ty.isHandleFree = true := (hbelow.place a _ hplace).2
        cases ty with
        | str => cases hfree
        | slice elem => cases hfree
        | pointer target => cases hfree
        | undefined => rfl
        | array elem length => rfl
        | struct name => rfl
        | _ =>
          change (b.read offset size >>= fun _ => _) = (a.read offset size >>= fun _ => _)
          rw [hread]
  inputTy_eq i := by
    rw [inputTy, inputTy]
    cases ho : s.operand i with
    | error e => rfl
    | ok o =>
      change (o.place s.structs b s.fp >>= fun _ => _) = (o.place s.structs a s.fp >>= fun _ => _)
      rw [(h.inputs o (mem_of_operand ho)).steady a b hab]
  inputBytes_eq i := by
    rw [inputBytes, inputBytes]
    cases ho : s.operand i with
    | error e => rfl
    | ok o => exact (h.inputs o (mem_of_operand ho)).bytes_eq hab

theorem isHandleFree_inputTy {i : Nat} {ty : Ty} (h : s.Below edge) (hty : s.inputTy a i = .ok ty) :
    ty.isHandleFree = true := by
  obtain ⟨o, ho, hty⟩ := bind_eq_ok.mp hty
  obtain ⟨place, hplace, hty⟩ := bind_eq_ok.mp hty
  rw [h.byValue o (mem_of_operand ho)] at hty
  cases hty
  exact ((h.inputs o (mem_of_operand ho)).place a place hplace).2

theorem inputHandle_ne_ok (h : s.Below edge) (i handle : Nat) : s.inputHandle a i ≠ .ok handle := by
  intro hhandle
  obtain ⟨ty, hty, hhandle⟩ := bind_eq_ok.mp hhandle
  rw [Ty.isHandle_of_isHandleFree (h.isHandleFree_inputTy hty)] at hhandle
  cases hhandle

theorem elementWidth_ne_ok (h : s.Below edge) (width : Nat) : s.elementWidth a ≠ .ok width := by
  intro hwidth
  obtain ⟨ty, hty, hwidth⟩ := bind_eq_ok.mp hwidth
  have hfree := h.isHandleFree_inputTy hty
  cases ty with
  | slice elem => cases hfree
  | _ => cases hwidth

theorem objectLength_eq (h : s.Below edge) (hab : a.AgreeBelow edge b) :
    objectLength s b = objectLength s a := by
  rw [objectLength, objectLength, (h.sameInputs hab).inputHandle_eq]
  cases hhandle : s.inputHandle a 0 with
  | error e => rfl
  | ok handle => exact absurd hhandle (h.inputHandle_ne_ok 0 handle)

theorem readBody_eq (h : s.Below edge) (hab : a.AgreeBelow edge b) :
    SliceOp.readBody s b = SliceOp.readBody s a := by
  rw [SliceOp.readBody, SliceOp.readBody, (h.sameInputs hab).elementWidth_eq]
  cases hwidth : s.elementWidth a with
  | error e => rfl
  | ok width => exact absurd hwidth (h.elementWidth_ne_ok width)

/-- An operator on slices finds no slice. -/
theorem respects_slice (h : s.Below edge) (op : SliceOp) :
    Respects (Workspace.Relates (Arena.AgreeBelow edge)) (op.body.run s) := by
  have hwidth : Respects (Workspace.Relates (Arena.AgreeBelow edge))
      (Workspace.look s.elementWidth) :=
    Workspace.respects_look fun a b hab => (h.sameInputs hab).elementWidth_eq
  have hfails : ∀ w width w', Workspace.look s.elementWidth w ≠ .ok width w' := by
    intro w width w' hlook
    simp only [Workspace.look, query] at hlook
    split at hlook
    · rename_i hok
      exact h.elementWidth_ne_ok _ hok
    · cases hlook
  cases op with
  | len => exact Workspace.respects_look fun a b => h.objectLength_eq
  | read => exact Workspace.respects_look fun a b => h.readBody_eq
  | append => exact hwidth.bind_of_fails hfails
  | concat => exact hwidth.bind_of_fails hfails
  | copy => exact hwidth.bind_of_fails hfails
  | write => exact hwidth.bind_of_fails hfails

theorem respects_run {body : Body} (h : s.Below edge) (hbody : body.Shape) :
    Respects (Workspace.Relates (Arena.AgreeBelow edge)) (body.run s) := by
  cases hbody with
  | fromInputs hrun => exact Workspace.respects_look fun a b hab => hrun s a b (h.sameInputs hab)
  | length => exact Workspace.respects_look fun a b => h.objectLength_eq
  | draw k => exact Workspace.respects_draw (fun a b => h.sameInputs) k
  | slice op => exact h.respects_slice op

/-- An operator of the library ends alike and leaves the arenas different behind the edge only. -/
theorem respects_execute {p : Primitive} (h : s.Below edge) (hp : p ∈ library) :
    Respects (Workspace.Relates (Arena.AgreeBelow edge)) (p.execute s) :=
  Primitive.respects_execute (Arena.congruent_agreeBelow edge)
    (h.respects_run (Primitive.shape_of_mem_library hp)) fun o ho => (h.outputs o ho).steady

end Below

end Site

end FlatMachine
