import FlatMachine.Proofs.HandleFree
import FlatMachine.Proofs.ShortDeclaration

/-!
# Operands that leave out a name

An operand mentions the names of its own symbol and of the symbols in its indexes. If the name of a
local is not among them, and no handle is followed on the way, then no byte of the local's slot is
read: the symbols that are mentioned have other slots, or lie in the data segment below the frame.
-/

namespace FlatMachine

/-- The place has no byte of these ranges. -/
def Place.Misses (place : Place) (ranges : List (Nat × Nat)) : Prop :=
  ∀ r ∈ ranges, ∀ b, r.1 ≤ b → b < r.1 + r.2 → ¬ place.Covers b

/-- The operand, and those that its indexes hold, are symbols of other names, or globals and
literals that the draft gave out. -/
def Operand.LeavesOut (d : Draft) (name : String) (v : Operand) : Prop :=
  ∀ o ∈ v.nested, (o.storage = .unassigned ∧ o.name ≠ name) ∨
    ∃ g, d.GaveOut g ∧ o.storage = g.storage ∧ o.ty = g.ty

/-- The operand leads to its value without following a handle, and the value lies beside the
place. -/
structure Operand.Beside (t : StructTable) (fp : Nat) (place : Place) (o : Operand) : Prop where
  linked : ChainLinked t o.ty o.chain
  direct : o.Direct t
  apart : ∀ a part, o.place t a fp = .ok part → part.Apart place

namespace Place

variable {t : StructTable} {place home part : Place} {ranges rest : List (Nat × Nat)}

theorem misses_append :
    place.Misses (ranges ++ rest) ↔ place.Misses ranges ∧ place.Misses rest :=
  List.forall_mem_append

theorem misses_singleton : place.Misses [(part.offset, part.size)] ↔ part.Apart place := by
  unfold Misses Apart Covers
  rw [List.forall_mem_singleton]
  exact forall_congr' fun b => and_imp.symm

theorem Apart.of_inside (h : home.Apart place) (hfrom : home.offset ≤ part.offset)
    (hto : part.offset + part.size ≤ home.offset + home.size) : part.Apart place := by
  intro b hb
  apply h b
  unfold Covers at hb ⊢
  omega

theorem apart_of_below (h : part.offset + part.size ≤ place.offset) : part.Apart place := by
  intro b hb hb'
  unfold Covers at hb hb'
  omega

end Place

/-- Nothing beside the place has changed. -/
structure Arena.ChangedAt (place : Place) (a b : Arena) : Prop where
  heapPointer_eq : b.heapPointer = a.heapPointer
  getElem?_eq : ∀ i, ¬ place.Covers i → b.image[i]? = a.image[i]?

namespace Arena.ChangedAt

variable {place : Place} {a b c : Arena} {ranges : List (Nat × Nat)}

theorem trans (h : ChangedAt place a b) (h' : ChangedAt place b c) : ChangedAt place a c :=
  ⟨h'.heapPointer_eq.trans h.heapPointer_eq, fun i hi =>
    (h'.getElem?_eq i hi).trans (h.getElem?_eq i hi)⟩

/-- Ranges without a byte of the place are read as before. -/
theorem sameOn (h : ChangedAt place a b) (hmisses : place.Misses ranges) : a.SameOn b ranges :=
  fun r hr => read_congr h.heapPointer_eq fun i hle hlt => h.getElem?_eq i (hmisses r hr i hle hlt)

end Arena.ChangedAt

section Reading

variable {t : StructTable} {a : Arena} {fp : Nat} {place : Place}

mutual

/-- Nothing of the place is read on the way of an operand that leads beside it. -/
theorem Operand.misses_reads (hpacked : t.Packed) : (o : Operand) →
    (∀ x ∈ o.nested, x.Beside t fp place) → place.Misses (o.reads t a fp)
  | { name, ty, storage, chain, byReference, escapes, literalPointer, structName, declared,
      shortDeclared, location, package }, h => by
    obtain ⟨hself, hrest⟩ := List.forall_mem_cons.mp h
    rw [Operand.reads_eq]
    dsimp only
    cases storage.start fp name with
    | error e => exact nofun
    | ok start => exact misses_readsAlong hpacked chain hrest hself.linked hself.direct

theorem misses_readsAlong (hpacked : t.Packed) : (chain : List Access) →
    (∀ x ∈ nestedInChain chain, x.Beside t fp place) → {name : String} → {offset : Nat} →
    {ty : Ty} → ChainLinked t ty chain → ChainDirect t ty chain →
    place.Misses (readsAlong t a fp name offset ty chain)
  | [], _, _, _, _, _, _ => nofun
  | access :: rest, h, name, offset, ty, hlinked, hdirect => by
    obtain ⟨haccess, hrest⟩ := List.forall_mem_append.mp h
    obtain ⟨hlink, next, hnext, hchain⟩ := hlinked
    obtain ⟨hty, hdirect⟩ := hdirect
    rw [readsAlong, Place.misses_append]
    constructor
    · exact access_misses_reads hpacked access haccess hty
    · cases hfound : access.follow t a fp name offset ty with
      | error e => exact nofun
      | ok found =>
        have hstep := hlink.step_of_follow hpacked hfound
        cases hnext.symm.trans hstep
        exact misses_readsAlong hpacked rest hrest hchain (hdirect _ hstep)

theorem access_misses_reads (hpacked : t.Packed) : (access : Access) →
    (∀ x ∈ access.nested, x.Beside t fp place) → {name : String} → {offset : Nat} → {ty : Ty} →
    ty.isHandle = false → place.Misses (access.reads t a fp name offset ty)
  | .pointer, _, name, offset, ty, hty => by
    cases ty with
    | pointer target => cases hty
    | _ => exact nofun
  | .field ref, _, name, offset, ty, hty => by
    cases ty with
    | pointer target => cases hty
    | _ => exact nofun
  | .index source, h, name, offset, ty, hty => by
    have hsource : place.Misses (source.reads t a fp) := index_misses_reads hpacked source h
    cases ty with
    | slice elem => cases hty
    | pointer target => cases hty
    | _ =>
      change place.Misses ([] ++ source.reads t a fp ++ [])
      rwa [List.nil_append, List.append_nil]

theorem index_misses_reads (hpacked : t.Packed) : (source : Index) →
    (∀ x ∈ source.nested, x.Beside t fp place) → place.Misses (source.reads t a fp)
  | .const n, _ => nofun
  | .operand source, h => by
    rw [Index.reads, Place.misses_append]
    constructor
    · exact Operand.misses_reads hpacked source h
    · cases hplace : source.place t a fp with
      | error e => exact nofun
      | ok part =>
        have hsource := h source source.mem_nested
        exact Place.misses_singleton.mpr (hsource.apart a part hplace)

end

/-- Nor is anything of it in the footprint. -/
theorem Operand.misses_footprint {o : Operand} (hpacked : t.Packed)
    (h : ∀ x ∈ o.nested, x.Beside t fp place) : place.Misses (o.footprint t a fp) := by
  rw [Operand.footprint, Place.misses_append]
  refine ⟨o.misses_reads hpacked h, ?_⟩
  cases hplace : o.place t a fp with
  | error e => exact nofun
  | ok part =>
    dsimp only
    split
    · exact nofun
    · exact Place.misses_singleton.mpr ((h o o.mem_nested).apart a part hplace)

end Reading

section Binding

variable {l : FrameLayout} {declared : List (String × Ty)} {d' : Draft} {fp : Nat} {name : String}
  {place : Place} {written bound v v' : Operand}

/-- A value that stays in the data segment lies beside every slot of a frame above. -/
theorem Operand.StaysIn.apart_of_holds {g o : Operand} {offset : Nat}
    (h : o.StaysIn d'.structs (fun _ => offset) g.ty) (hholds : d'.Holds g)
    (hstorage : g.storage = .global offset) (hdata : d'.data.length ≤ place.offset) (a : Arena)
    (fp : Nat) (part : Place) (hpart : o.place d'.structs a fp = .ok part) : part.Apart place := by
  obtain ⟨offset', size, hstorage', hsize, hle⟩ := hholds
  cases hstorage.symm.trans hstorage'
  obtain ⟨size', hsize', -, hstop⟩ := h a fp part hpart
  cases hsize.symm.trans hsize'
  exact Place.apart_of_below (hstop.trans (hle.trans hdata))

variable (hplace : l.PlaceOf d'.structs fp name place) (hlaid : l.LaidOut declared)
  (hd : l.draft.Reachable) (hgrows : l.draft.Grows d') (hdata : d'.data.length ≤ fp)

include hplace hlaid hd hgrows hdata

/-- A bound operand that is no symbol of this name, and follows no handle, leads beside its slot. -/
theorem FrameLayout.Binds.beside (h : l.Binds written bound)
    (hother : (written.storage = .unassigned ∧ written.name ≠ name) ∨
      ∃ g, d'.GaveOut g ∧ written.storage = g.storage ∧ written.ty = g.ty)
    (hdirect : bound.Direct d'.structs) : bound.Beside d'.structs fp place := by
  have hpacked : d'.structs.Packed := Draft.Reachable.packed (hd.trans hgrows)
  have hlinked := hgrows.structs.chainLinked h.linked
  have habove : d'.data.length ≤ place.offset := by
    obtain ⟨slot, -, -, hoffset, -⟩ := hplace
    omega
  refine ⟨hlinked, hdirect, fun a part hpart => ?_⟩
  rcases hother with ⟨hunassigned, hne⟩ | ⟨g, hgave, hstorage, hty⟩
  · have htiled := hgrows.structs.tiled hlaid.tiled
    rcases h.staysHome hd hgrows.structs hpacked htiled hunassigned hdirect with
      ⟨slot, hslot, hname, hstays⟩ | ⟨-, g, offset, hg, hglobal, hstays⟩
    · -- the operand stays in the slot of its own name
      obtain ⟨size, hsize, hfrom, hto⟩ := hstays a fp part hpart
      have hhome : l.PlaceOf d'.structs fp written.name ⟨fp + slot.offset, slot.ty, size⟩ :=
        ⟨slot, hslot, hname, rfl, rfl, hsize⟩
      exact (hhome.apart hplace hlaid hgrows.structs hne).of_inside hfrom hto
    · have hgave := (hd.gaveOut g (List.mem_of_find?_eq_some hg)).grows hgrows
      exact hstays.apart_of_holds hgave.holds hglobal habove a fp part hpart
  · obtain ⟨offset, size, hglobal, hsize, hle⟩ := hgave.holds
    have hassigned : written.storage ≠ .unassigned := by
      rw [hstorage, hglobal]
      nofun
    obtain ⟨hkept, hkeptTy⟩ := h.kept hassigned
    have hboundTy : bound.ty = g.ty := hkeptTy.trans hty
    have hstays : bound.StaysIn d'.structs (fun _ => offset) bound.ty := by
      apply hdirect.staysIn hpacked hlinked (hboundTy ▸ hsize)
      intro fp
      rw [hkept, hstorage, hglobal]
      rfl
    rw [hboundTy] at hstays
    exact hstays.apart_of_holds hgave.holds hglobal habove a fp part hpart

/-- An operand that leaves out the name, and follows no handle, does not depend on its slot. -/
theorem FrameLayout.misses_footprint (hbind : l.bind v = .ok v') (hother : v.LeavesOut d' name)
    (hdirect : ∀ o ∈ v'.nested, o.Direct d'.structs) (a : Arena) :
    place.Misses (v'.footprint d'.structs a fp) := by
  apply Operand.misses_footprint (Draft.Reachable.packed (hd.trans hgrows))
  intro o ho
  have hnested : List.Forall₂ l.Binds v.nested v'.nested := bind_nested v hbind
  obtain ⟨written, hwritten, hbinds⟩ := exists_of_forall₂_right hnested ho
  exact hbinds.beside hplace hlaid hd hgrows hdata (hother written hwritten) (hdirect o ho)

end Binding

end FlatMachine
