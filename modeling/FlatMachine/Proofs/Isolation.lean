import FlatMachine.Proofs.Draft
import FlatMachine.Proofs.FrameLayout
import FlatMachine.Proofs.Place
import Mathlib.Tactic.Ring

/-!
# Locals do not reach each other

An access to an element of an array or to a field stays inside the value it starts from, whatever
the index is at run time. So as long as a chain does not go through a handle, an operand that
names a local leads to a place in that local's slot, and slots do not overlap.
-/

namespace FlatMachine

/-- No access of the chain goes through a handle. -/
def ChainDirect (t : StructTable) : Ty → List Access → Prop
  | _, [] => True
  | ty, access :: rest =>
    ty.isHandle = false ∧ ∀ next, ty.step t access = .ok next → ChainDirect t next rest

/-- The operand leads to its value without going through a handle. -/
def Operand.Direct (t : StructTable) (o : Operand) : Prop := ChainDirect t o.ty o.chain

section Following

variable {t : StructTable} {a : Arena} {fp offset size : Nat} {name : String} {ty next : Ty}

/-- An element of an array lies inside it. -/
theorem element_le {index : Int} {length : Nat} (width : Nat) (h : 0 ≤ index ∧ index < length) :
    index.toNat * width + width ≤ width * length := by
  have hlt : index.toNat + 1 ≤ length := by omega
  calc index.toNat * width + width = (index.toNat + 1) * width := by ring
    _ ≤ length * width := Nat.mul_le_mul_right _ hlt
    _ = width * length := Nat.mul_comm _ _

theorem index_inside {source : Index} {elem : Ty} {length : UInt32}
    (hsize : (Ty.array elem length).size t = .ok size) :
    Gives ((Access.index source).follow t a fp name offset (.array elem length))
      (fun place => place.2 = elem ∧ ∃ width, elem.size t = .ok width ∧ offset ≤ place.1 ∧
        place.1 + width ≤ offset + size)
      (fun _ => True) := by
  obtain ⟨width, hwidth, hsize⟩ := bind_eq_ok.mp hsize
  have htotal : size = width * length.toNat := by
    split at hsize
    · rename_i total htotal
      cases hsize
      exact (Size.mul?_eq_some_iff.mp htotal).2
    · cases hsize
  unfold Access.follow
  simp only [gives_bind, gives_pure]
  apply gives_of_ok ?_ fun _ => trivial
  intro index _
  apply gives_checkIndex.mono ?_ fun _ _ => trivial
  intro _ hindex
  apply gives_of_ok ?_ fun _ => trivial
  intro width' hwidth'
  cases hwidth.symm.trans hwidth'
  have hinside := element_le width hindex
  exact ⟨trivial, width, hwidth, Nat.le_add_right _ _, by omega⟩

/-- A field lies inside its struct. -/
theorem field_inside {ref : FieldRef} {struct : String} (hpacked : t.Packed)
    (hlinked : (Access.field ref).Linked t (.struct struct))
    (hstep : (Ty.struct struct).step t (.field ref) = .ok next)
    (hsize : (Ty.struct struct).size t = .ok size) :
    Gives ((Access.field ref).follow t a fp name offset (.struct struct))
      (fun place => place.2 = next ∧ ∃ width, next.size t = .ok width ∧ offset ≤ place.1 ∧
        place.1 + width ≤ offset + size)
      (fun _ => True) := by
  obtain ⟨struct', field, hty, hfield, hoffset, hty'⟩ := hlinked
  obtain rfl : struct = struct' := by simpa using hty
  obtain ⟨total, width, htotal, hwidth, hle⟩ := hpacked.field hfield
  obtain rfl : total = size := Except.ok.inj (htotal.symm.trans hsize)
  have hnext : next = field.ty := by
    obtain ⟨field', hfield', hnext⟩ := bind_eq_ok.mp hstep
    cases hfield.symm.trans hfield'
    exact (pure_eq_ok.mp hnext).symm
  have hdefined : ref.ty.isDefined = true := by
    rw [hty']
    cases hkind : field.ty with
    | undefined =>
      rw [hkind] at hwidth
      cases hwidth
    | _ => rfl
  unfold Access.follow
  simp only [gives_bind, gives_pure, hdefined, if_true]
  rw [hoffset, hty', hnext]
  exact ⟨rfl, width, hwidth, Nat.le_add_right _ _, by omega⟩

theorem follow_inside {access : Access} (hpacked : t.Packed) (hlinked : access.Linked t ty)
    (hstep : ty.step t access = .ok next) (hdirect : ty.isHandle = false)
    (hsize : ty.size t = .ok size) :
    Gives (access.follow t a fp name offset ty)
      (fun place => place.2 = next ∧ ∃ width, next.size t = .ok width ∧ offset ≤ place.1 ∧
        place.1 + width ≤ offset + size)
      (fun _ => True) := by
  cases access with
  | pointer =>
    cases ty with
    | pointer target => cases hdirect
    | _ => cases hstep
  | index source =>
    cases ty with
    | array elem length =>
      cases hstep
      exact index_inside hsize
    | slice elem => cases hdirect
    | pointer target => cases hdirect
    | _ => cases hstep
  | field ref =>
    cases ty with
    | struct struct => exact field_inside hpacked hlinked hstep hsize
    | pointer target => cases hdirect
    | _ => cases hstep

theorem followChain_inside {chain : List Access} (hpacked : t.Packed)
    (hlinked : ChainLinked t ty chain) (hdirect : ChainDirect t ty chain)
    (hsize : ty.size t = .ok size) :
    Gives (followChain t a fp name offset ty chain)
      (fun place => ∃ width, place.2.size t = .ok width ∧ offset ≤ place.1 ∧
        place.1 + width ≤ offset + size)
      (fun _ => True) := by
  induction chain generalizing offset ty size with
  | nil => exact ⟨size, hsize, le_rfl, le_rfl⟩
  | cons access rest ih =>
    obtain ⟨haccess, next, hnext, hrest⟩ := hlinked
    obtain ⟨hty, hdirect⟩ := hdirect
    unfold followChain
    rw [gives_bind]
    apply (follow_inside hpacked haccess hnext hty hsize).imp
    rintro ⟨middle, _⟩ ⟨rfl, width, hwidth, hle, hstop⟩
    apply (ih hrest (hdirect _ hnext) hwidth).imp
    intro place hplace
    obtain ⟨width', hwidth', hle', hstop'⟩ := hplace
    exact ⟨width', hwidth', hle.trans hle', hstop'.trans hstop⟩

end Following

/-- Wherever the operand leads, it stays in the value of a type that begins at an address
depending on the frame. -/
def Operand.StaysIn (t : StructTable) (o : Operand) (start : Nat → Nat) (ty : Ty) : Prop :=
  ∀ a fp place, o.place t a fp = .ok place → ∃ size, ty.size t = .ok size ∧
    start fp ≤ place.offset ∧ place.offset + place.size ≤ start fp + size

theorem Operand.Direct.staysIn {t : StructTable} {o : Operand} {start : Nat → Nat} {size : Nat}
    (h : o.Direct t) (hpacked : t.Packed) (hlinked : ChainLinked t o.ty o.chain)
    (hsize : o.ty.size t = .ok size) (hstart : ∀ fp, o.storage.start fp o.name = .ok (start fp)) :
    o.StaysIn t start o.ty := by
  intro a fp place hplace
  rw [Operand.place_eq] at hplace
  obtain ⟨base, hbase, hplace⟩ := bind_eq_ok.mp hplace
  obtain rfl : start fp = base := Except.ok.inj ((hstart fp).symm.trans hbase)
  obtain ⟨found, hfound, hplace⟩ := bind_eq_ok.mp hplace
  obtain ⟨width, hwidth, hplace⟩ := bind_eq_ok.mp hplace
  cases hplace
  obtain ⟨width', hwidth', hle, hstop⟩ := (followChain_inside hpacked hlinked h hsize).value hfound
  cases hwidth.symm.trans hwidth'
  exact ⟨size, hsize, hle, hstop⟩

/-- A written operand without storage, and what binding makes of it: it stays in the slot of its
name, or, if the function does not declare that name, in the global of its package. -/
def StaysHome (d : Draft) (t : StructTable) (package : String) (slots : List Slot)
    (written bound : Operand) : Prop :=
  written.storage = .unassigned → bound.Direct t →
    (∃ slot ∈ slots, slot.name = written.name ∧ bound.StaysIn t (· + slot.offset) slot.ty) ∨
    (∀ slot ∈ slots, slot.name ≠ written.name) ∧ ∃ g offset,
      d.global? (if written.package = "" then package else written.package) written.name = some g ∧
        g.storage = .global offset ∧ bound.StaysIn t (fun _ => offset) g.ty

theorem FrameLayout.Binds.staysHome {l : FrameLayout} {t : StructTable} {written bound : Operand}
    {stop : Nat} (h : l.Binds written bound) (hdraft : l.draft.Reachable) (hgrows : l.structs.Grows t)
    (hpacked : t.Packed)
    (htiled : Tiled t 0 (l.inOrder.map fun slot => (slot.offset, slot.ty)) stop) :
    StaysHome l.draft t l.package l.inOrder written bound := by
  intro hunassigned hdirect
  have hlinked := hgrows.chainLinked h.linked
  have hsymbol := h.symbol hunassigned
  unfold FrameLayout.symbol at hsymbol
  split at hsymbol
  · rename_i slot hfound
    obtain ⟨hstorage, hty⟩ := Prod.mk.inj (Except.ok.inj hsymbol)
    obtain ⟨hslot, hname⟩ := FrameLayout.slot?_eq_some hfound
    obtain ⟨size, hsize, -, -⟩ := htiled.inside (List.mem_map_of_mem hslot)
    rw [hty] at hsize
    refine .inl ⟨slot, hslot, hname, ?_⟩
    rw [hty]
    apply hdirect.staysIn hpacked hlinked hsize
    intro fp
    rw [← hstorage]
    rfl
  · rename_i hnone
    split at hsymbol
    · rename_i g hg
      obtain ⟨hstorage, hty⟩ := Prod.mk.inj (Except.ok.inj hsymbol)
      obtain ⟨-, ⟨offset, hoffset⟩, size, hsize⟩ :=
        hdraft.isGlobal g (List.mem_of_find?_eq_some hg)
      refine .inr ⟨fun slot hslot hname => ?_, g, offset, hg, hoffset, ?_⟩
      · exact FrameLayout.slot?_eq_none hnone (hname ▸ List.mem_map_of_mem hslot)
      · have hsize := hgrows.size hsize
        rw [hty] at hsize ⊢
        apply hdirect.staysIn hpacked hlinked hsize
        intro fp
        rw [← hstorage, hoffset]
        rfl
    · cases hsymbol

theorem or_of_pairwise {α : Type} {R : α → α → Prop} {l : List α} {a b : α}
    (h : l.Pairwise R) (ha : a ∈ l) (hb : b ∈ l) (hne : a ≠ b) : R a b ∨ R b a := by
  induction h with
  | nil => cases ha
  | cons hhead _ ih =>
    rcases List.mem_cons.mp ha with rfl | hmem
    · exact .inl (hhead b ((List.mem_cons.mp hb).resolve_left (Ne.symm hne)))
    · rcases List.mem_cons.mp hb with rfl | hb
      · exact .inr (hhead a hmem)
      · exact ih hmem hb

/-- Operands that stay in different slots never overlap. -/
theorem disjoint_of_staysIn {t : StructTable} {slots : List Slot} {o p : Operand} {s s' : Slot}
    {stop : Nat} (htiled : Tiled t 0 (slots.map fun slot => (slot.offset, slot.ty)) stop)
    (hs : s ∈ slots) (hs' : s' ∈ slots) (hne : s ≠ s') (ho : o.StaysIn t (· + s.offset) s.ty)
    (hp : p.StaysIn t (· + s'.offset) s'.ty) {a b : Arena} {fp : Nat} {x y : Place}
    (hx : o.place t a fp = .ok x) (hy : p.place t b fp = .ok y) :
    x.offset + x.size ≤ y.offset ∨ y.offset + y.size ≤ x.offset := by
  obtain ⟨size, hsize, hle, hstop⟩ := ho a fp x hx
  obtain ⟨size', hsize', hle', hstop'⟩ := hp b fp y hy
  dsimp only at hle hstop hle' hstop'
  have hpair := List.pairwise_map.mp htiled.disjoint
  rcases or_of_pairwise hpair hs hs' hne with h | h
  · have hgap : s.offset + size ≤ s'.offset := h size hsize
    omega
  · have hgap : s'.offset + size' ≤ s.offset := h size' hsize'
    omega

/-- The slots of a function tile its frame in the order of first declaration. An operand that the
layout bound, and that leads to its value without going through a handle, stays in the slot or
global of its name on any memory and in any frame; so two that name different locals never
overlap. -/
theorem locals_isolated {fd : FunctionDraft} {d d' : Draft} {f : Function} (hd : d.Reachable)
    (hlayout : fd.layout d = .ok f) (hgrows : d.Grows d') :
    ∃ slots : List Slot,
      slots.map (·.name) = (fd.declared.map (·.1)).eraseDups ∧
      (∀ name ty, (name, ty) ∈ fd.declared → ∃ slot ∈ slots, slot.name = name ∧ slot.ty = ty) ∧
      (∀ o ∈ f.params ++ f.returns, o.chain = [] ∧
        ∃ slot ∈ slots, slot.name = o.name ∧ slot.ty = o.ty ∧ o.storage = .frame slot.offset) ∧
      Tiled d'.structs 0 (slots.map fun slot => (slot.offset, slot.ty)) f.frameSize ∧
      List.Forall₂ (StaysHome d d'.structs fd.package slots) fd.operands f.operands ∧
      ∀ o ∈ fd.operands.zip f.operands, ∀ p ∈ fd.operands.zip f.operands,
        o.1.storage = .unassigned → o.1.name ∈ slots.map (·.name) → o.2.Direct d'.structs →
        p.1.storage = .unassigned → p.1.name ∈ slots.map (·.name) → p.2.Direct d'.structs →
          o.1.name ≠ p.1.name → ∀ a b fp x y, o.2.place d'.structs a fp = .ok x →
            p.2.place d'.structs b fp = .ok y →
              x.offset + x.size ≤ y.offset ∨ y.offset + y.size ≤ x.offset := by
  obtain ⟨l, rfl, hmakes⟩ := fd.layout_eq_ok hlayout
  have hstructs := hgrows.structs
  have hpacked : d'.structs.Packed := Draft.Reachable.packed (hd.trans hgrows)
  have htiled : Tiled d'.structs 0 (l.inOrder.map fun slot => (slot.offset, slot.ty)) f.frameSize :=
    hmakes.frameSize_eq ▸ hstructs.tiled hmakes.laidOut.tiled
  have hhome : List.Forall₂ (StaysHome l.draft d'.structs fd.package l.inOrder) fd.operands
      f.operands := hmakes.operands.imp fun _ _ h =>
    hmakes.package_eq ▸ h.staysHome hd hstructs hpacked htiled
  refine ⟨l.inOrder, hmakes.laidOut.names_eq, hmakes.laidOut.ty_eq, ?_, htiled, hhome, ?_⟩
  · intro o ho
    obtain ⟨⟨name, ty⟩, -, hstands⟩ := hmakes.exists_standsFor ho
    obtain ⟨rfl, rfl, hchain, offset, hstorage, slot, hslot, hname, hty, rfl⟩ := hstands
    exact ⟨hchain, slot, hslot, hname, hty, hstorage⟩
  · intro o ho p hp hounassigned honame hodirect hpunassigned hpname hpdirect hne a b fp x y hx hy
    have hlocal : ∀ q ∈ fd.operands.zip f.operands, q.1.storage = .unassigned →
        q.1.name ∈ l.inOrder.map (·.name) → q.2.Direct d'.structs →
          ∃ slot ∈ l.inOrder, slot.name = q.1.name ∧
            q.2.StaysIn d'.structs (· + slot.offset) slot.ty := by
      intro q hq hunassigned hname hdirect
      rcases List.forall₂_zip hhome hq hunassigned hdirect with hslot | ⟨hnone, -⟩
      · exact hslot
      · obtain ⟨slot, hslot, hname⟩ := List.mem_map.mp hname
        exact absurd hname (hnone slot hslot)
    obtain ⟨s, hs, hsname, ho⟩ := hlocal o ho hounassigned honame hodirect
    obtain ⟨s', hs', hsname', hp⟩ := hlocal p hp hpunassigned hpname hpdirect
    have hslots : s ≠ s' := by
      rintro rfl
      exact hne (hsname.symm.trans hsname')
    exact disjoint_of_staysIn htiled hs hs' hslots ho hp hx hy

/-- A draft with the struct `Pair` of two integers. -/
def pairDraft : Draft where
  structs := { defs := [⟨"Pair", [⟨"x", .i32, 0⟩, ⟨"y", .i32, 4⟩], 8⟩] }

/-- Moves `a[i].y` to `b[1].x`, where `a` and `b` are arrays of pairs. -/
def crossDraft : FunctionDraft where
  package := "main"
  name := "cross"
  params := [("i", .i32)]
  locals := [("a", .array (.struct "Pair") 2), ("b", .array (.struct "Pair") 2)]
  body := [{
    inputs := [{ name := "a", chain := [.index (.operand { name := "i" }), .field { name := "y" }] }]
    outputs := [{ name := "b", chain := [.index (.const 1), .field { name := "x" }] }] }]

theorem locals_isolated_crossDraft : ∃ f, crossDraft.layout pairDraft = .ok f ∧
    ∃ slots : List Slot, slots.map (·.name) = ["i", "a", "b"] ∧
      Tiled pairDraft.structs 0 (slots.map fun slot => (slot.offset, slot.ty)) 36 ∧
        List.Forall₂ (StaysHome pairDraft pairDraft.structs "main" slots) crossDraft.operands
          f.operands := by
  have hdefine : Draft.defineStruct {} "Pair" [("x", .i32), ("y", .i32)] =
      .ok (⟨"Pair", [⟨"x", .i32, 0⟩, ⟨"y", .i32, 4⟩], 8⟩, pairDraft) := rfl
  have hd : pairDraft.Reachable := .tail .refl (.defineStruct hdefine)
  obtain ⟨f, hlayout, hsize⟩ : ∃ f, crossDraft.layout pairDraft = .ok f ∧ f.frameSize = 36 :=
    ⟨_, rfl, rfl⟩
  obtain ⟨slots, hnames, -, -, htiled, hhome, -⟩ := locals_isolated hd hlayout .refl
  exact ⟨f, hlayout, slots, hnames.trans rfl, hsize ▸ htiled, hhome⟩

end FlatMachine
