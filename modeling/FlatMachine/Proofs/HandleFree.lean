import FlatMachine.Proofs.Codec
import FlatMachine.Proofs.Isolation

/-!
# Programs without handles

Where no type holds a string, a slice or a pointer, an operand never leaves the value of its symbol.
That value lies in the frame of the function, or, for a global or a literal, in the data segment:
the draft puts one behind the other and takes none back.
-/

namespace FlatMachine

/-- No string, slice or pointer occurs in the type; what a struct is made of is said by the table. -/
def Ty.isHandleFree : Ty → Bool
  | str | slice _ | pointer _ => false
  | array elem _ => elem.isHandleFree
  | undefined | bool | int _ | float _ | struct _ => true

/-- No field of a struct holds a handle. -/
def StructTable.HandleFreeFields (t : StructTable) : Prop :=
  ∀ d ∈ t.defs, ∀ f ∈ d.fields, f.ty.isHandleFree = true

section Types

variable {t : StructTable} {ty next : Ty} {access : Access} {chain : List Access}

theorem Ty.isHandle_of_isHandleFree (h : ty.isHandleFree = true) : ty.isHandle = false := by
  cases ty with
  | str => cases h
  | slice elem => cases h
  | pointer target => cases h
  | _ => rfl

theorem StructTable.HandleFreeFields.field {struct name : String} {f : Field}
    (h : t.HandleFreeFields) (hf : t.field struct name = .ok f) : f.ty.isHandleFree = true := by
  obtain ⟨d, hget, hfind⟩ := field_eq_ok.mp hf
  have hd : d ∈ t.defs := List.mem_of_find?_eq_some (get_eq_ok.mp hget)
  exact h d hd f (List.mem_of_find?_eq_some hfind)

theorem Ty.isHandleFree_step (hfields : t.HandleFreeFields) (h : ty.isHandleFree = true)
    (hstep : ty.step t access = .ok next) : next.isHandleFree = true := by
  cases ty with
  | array elem length =>
    cases access <;> cases hstep
    exact h
  | struct name =>
    cases access with
    | field ref =>
      obtain ⟨f, hf, hnext⟩ := bind_eq_ok.mp hstep
      cases pure_eq_ok.mp hnext
      exact hfields.field hf
    | _ => cases hstep
  | str => cases h
  | slice elem => cases h
  | pointer target => cases h
  | _ => cases access <;> cases hstep

theorem chainDirect_of_isHandleFree (hfields : t.HandleFreeFields) (h : ty.isHandleFree = true) :
    ChainDirect t ty chain := by
  induction chain generalizing ty with
  | nil => trivial
  | cons access rest ih =>
    exact ⟨Ty.isHandle_of_isHandleFree h, fun next hnext => ih (Ty.isHandleFree_step hfields h hnext)⟩

end Types

namespace Draft

/-- The operand was handed out for a global or a literal of the draft. -/
inductive GaveOut : Draft → Operand → Prop where
  | global {d d' : Draft} {package name ty o}
      (h : d.addGlobal package name ty = .ok (o, d')) : GaveOut d' o
  | literal {d d' : Draft} {value ty o} (h : addLiteral value ty d = .ok o d') : GaveOut d' o
  | later {d d' : Draft} {o} (h : GaveOut d o) (hstep : Step d d') : GaveOut d' o

/-- The value of the operand's symbol lies in the data segment. -/
def Holds (d : Draft) (o : Operand) : Prop :=
  ∃ offset size, o.storage = .global offset ∧ o.ty.size d.structs = .ok size ∧
    offset + size ≤ d.data.length

variable {d d' : Draft} {o : Operand} {value : Value} {ty : Ty} {bytes : Bytes} {start offset : Nat}

theorem addLiteral_eq_ok (h : addLiteral value ty d = .ok o d') : ∃ bytes offset,
    literalBytes d.data.length value ty = .ok (bytes, offset) ∧ o.ty = ty ∧
      o.storage = .global offset ∧ d'.structs = d.structs ∧ d'.data = d.data ++ bytes := by
  unfold addLiteral at h
  dsimp only at h
  split at h
  · cases h
  · rename_i bytes offset hbytes
    cases h
    exact ⟨bytes, offset, hbytes, rfl, rfl, rfl, rfl⟩

/-- The value of a literal lies in the bytes that it adds. -/
theorem literalBytes_inside (t : StructTable)
    (h : literalBytes start value ty = .ok (bytes, offset)) :
    ∃ size, ty.size t = .ok size ∧ offset + size ≤ start + bytes.length := by
  obtain ⟨encoded, hencoded, h⟩ := bind_eq_ok.mp h
  have hhandle : ∀ {handle}, encodeHandle start = .ok handle → handle.length = 4 := by
    intro handle hencode
    obtain ⟨-, rfl⟩ := encodeHandle_eq_ok.mp hencode
    exact LittleEndian.length_encode ..
  split at h
  · obtain ⟨handle, hencode, h⟩ := bind_eq_ok.mp h
    cases h
    refine ⟨4, rfl, ?_⟩
    rw [List.length_append, hhandle hencode]
    omega
  · obtain ⟨handle, hencode, h⟩ := bind_eq_ok.mp h
    cases h
    refine ⟨4, rfl, ?_⟩
    rw [List.length_append, hhandle hencode]
    omega
  · rename_i hstr hslice
    cases h
    have hplain : value.isAddressOf ty = false := by
      unfold Value.isAddressOf
      split
      · exact absurd rfl hstr
      · exact absurd rfl (hslice _)
      · rfl
    have hlength := (encode_length_decode [] hencoded hplain).1 t
    refine ⟨bytes.length, ?_, le_rfl⟩
    unfold Value.encodedLength at hlength
    split at hlength
    · exact absurd rfl hstr
    · exact absurd rfl (hslice _)
    · exact hlength

theorem Step.data_le (h : Step d d') : d.data.length ≤ d'.data.length := by
  cases h with
  | defineStruct h =>
    obtain ⟨⟨s, structs⟩, -, h⟩ := bind_eq_ok.mp h
    cases h
    exact le_rfl
  | addGlobal h =>
    obtain ⟨size, -, h⟩ := bind_eq_ok.mp h
    cases h
    exact List.length_append ▸ Nat.le_add_right _ _
  | addLiteral h =>
    obtain ⟨bytes, offset, -, -, -, -, hdata⟩ := addLiteral_eq_ok h
    rw [hdata, List.length_append]
    exact Nat.le_add_right _ _
  | failLiteral h =>
    unfold Draft.addLiteral at h
    dsimp only at h
    split at h
    · cases h
      exact le_rfl
    · cases h
  | declareFunction => exact le_rfl
  | addFunction => exact le_rfl

theorem Holds.step (h : d.Holds o) (hstep : Step d d') : d'.Holds o := by
  obtain ⟨offset, size, hstorage, hsize, hle⟩ := h
  exact ⟨offset, size, hstorage, hstep.structs.size hsize, hle.trans hstep.data_le⟩

theorem GaveOut.holds (h : d.GaveOut o) : d.Holds o := by
  induction h with
  | @global d d' package name ty o h =>
    obtain ⟨size, hsize, h⟩ := bind_eq_ok.mp h
    cases h
    refine ⟨d.data.length, size, rfl, hsize, ?_⟩
    rw [List.length_append, List.length_replicate]
  | literal h =>
    obtain ⟨bytes, offset, hbytes, rfl, hstorage, -, hdata⟩ := addLiteral_eq_ok h
    obtain ⟨size, hsize, hle⟩ := literalBytes_inside _ hbytes
    refine ⟨offset, size, hstorage, hsize, ?_⟩
    rw [hdata, List.length_append]
    exact hle
  | later _ hstep ih => exact ih.step hstep

theorem GaveOut.grows (h : d.GaveOut o) (hgrows : Grows d d') : d'.GaveOut o := by
  induction hgrows with
  | refl => exact h
  | tail _ hstep ih => exact .later ih hstep

/-- Every global of a draft was handed out. -/
theorem Reachable.gaveOut (h : d.Reachable) : ∀ g ∈ d.globals, d.GaveOut g := by
  induction h with
  | refl => exact nofun
  | @tail d d' _ hstep ih =>
    have hkept : ∀ g ∈ d.globals, d'.GaveOut g := fun g hg => .later (ih g hg) hstep
    cases hstep with
    | defineStruct h =>
      obtain ⟨⟨s, structs⟩, -, h⟩ := bind_eq_ok.mp h
      cases h
      exact hkept
    | addGlobal h =>
      have hnew := GaveOut.global h
      obtain ⟨size, -, h⟩ := bind_eq_ok.mp h
      cases h
      exact List.forall_mem_cons.mpr ⟨hnew, hkept⟩
    | addLiteral h =>
      rw [(addLiteral_same.value h).2]
      exact hkept
    | failLiteral h =>
      rw [(addLiteral_same.failure h).2]
      exact hkept
    | declareFunction => exact hkept
    | addFunction => exact hkept

end Draft

/-- The value of the operand's symbol lies in a frame of the one size or in a data segment of the
other, the chain is linked, and no handle occurs in the type. -/
structure Operand.Housed (t : StructTable) (frameSize dataSize : Nat) (o : Operand) : Prop where
  linked : ChainLinked t o.ty o.chain
  handleFree : o.ty.isHandleFree = true
  home : ∃ size, o.ty.size t = .ok size ∧
    ((∃ offset, o.storage = .frame offset ∧ offset + size ≤ frameSize) ∨
      ∃ offset, o.storage = .global offset ∧ offset + size ≤ dataSize)

/-- No handle occurs in what a function declares, and none in the globals and literals of the draft
that its operands stand for. -/
structure FunctionDraft.HandleFree (d : Draft) (fd : FunctionDraft) : Prop where
  declared : ∀ entry ∈ fd.declared, entry.2.isHandleFree = true
  /-- An operand has no storage yet, or it is that of a global or a literal. -/
  operands : ∀ o ∈ fd.operands, o.storage ≠ .unassigned → o.ty.isHandleFree = true ∧
    ∃ g, d.GaveOut g ∧ o.storage = g.storage ∧ o.ty = g.ty

section Housed

variable {d d' : Draft} {fd : FunctionDraft} {f : Function} {l : FrameLayout} {o : Operand}
  {stop : Nat}

theorem Draft.GaveOut.housed {g : Operand} (h : d.GaveOut g) (hstorage : o.storage = g.storage)
    (hty : o.ty = g.ty) (hfree : o.ty.isHandleFree = true)
    (hlinked : ChainLinked d.structs o.ty o.chain) (frameSize : Nat) :
    o.Housed d.structs frameSize d.data.length := by
  obtain ⟨offset, size, hglobal, hsize, hle⟩ := h.holds
  exact ⟨hlinked, hfree, size, hty ▸ hsize, .inr ⟨offset, hstorage.trans hglobal, hle⟩⟩

/-- An operand bound to a slot stays in the frame. -/
theorem FrameLayout.HasSlot.housed {name : String} {offset : Nat} {t : StructTable}
    (h : l.HasSlot name o.ty offset) (hlaidOut : l.LaidOut fd.declared)
    (hgrows : l.structs.Grows t) (hstorage : o.storage = .frame offset)
    (hfree : ∀ entry ∈ fd.declared, entry.2.isHandleFree = true)
    (hlinked : ChainLinked t o.ty o.chain) (dataSize : Nat) : o.Housed t l.size dataSize := by
  obtain ⟨slot, hslot, -, hty, rfl⟩ := h
  have hmem : (slot.offset, slot.ty) ∈ l.inOrder.map fun slot => (slot.offset, slot.ty) :=
    List.mem_map_of_mem hslot
  obtain ⟨size, hsize, -, hle⟩ := (hgrows.tiled hlaidOut.tiled).inside hmem
  have hslotFree := hfree _ (hlaidOut.mem_declared hslot)
  rw [hty] at hsize hslotFree
  exact ⟨hlinked, hslotFree, size, hsize, .inl ⟨slot.offset, hstorage, hle⟩⟩

theorem FrameLayout.Binds.housed {w : Operand} (h : l.Binds w o) (hw : w ∈ fd.operands)
    (hlaidOut : l.LaidOut fd.declared) (hreachable : l.draft.Reachable)
    (hgrows : l.draft.Grows d') (hfree : fd.HandleFree d')
    (hglobals : ∀ g ∈ d'.globals, g.ty.isHandleFree = true) :
    o.Housed d'.structs l.size d'.data.length := by
  have hlinked := hgrows.structs.chainLinked h.linked
  by_cases hstorage : w.storage = .unassigned
  · have hsymbol := h.symbol hstorage
    unfold FrameLayout.symbol at hsymbol
    split at hsymbol
    · rename_i slot hfound
      obtain ⟨hframe, hty⟩ := Prod.mk.inj (Except.ok.inj hsymbol)
      obtain ⟨hslot, hname⟩ := FrameLayout.slot?_eq_some hfound
      have hhas : l.HasSlot slot.name o.ty slot.offset := ⟨slot, hslot, rfl, hty, rfl⟩
      exact hhas.housed hlaidOut hgrows.structs hframe.symm hfree.declared hlinked _
    · split at hsymbol
      · rename_i g hg
        obtain ⟨hglobal, hty⟩ := Prod.mk.inj (Except.ok.inj hsymbol)
        have hmem : g ∈ l.draft.globals := List.mem_of_find?_eq_some hg
        have hgave := (hreachable.gaveOut g hmem).grows hgrows
        have hgfree := hglobals g (hgrows.globals_subset hmem)
        exact hgave.housed hglobal.symm hty.symm (hty ▸ hgfree) hlinked _
      · cases hsymbol
  · obtain ⟨hkept, hty⟩ := h.kept hstorage
    obtain ⟨hwfree, g, hgave, hgstorage, hgty⟩ := hfree.operands w hw hstorage
    exact hgave.housed (hkept.trans hgstorage) (hty.trans hgty) (hty ▸ hwfree) hlinked _

/-- All operands of a function without handles are housed, and those that their indexes hold. -/
theorem FunctionDraft.HandleFree.housed {d₀ : Draft} (hfree : fd.HandleFree d')
    (hlayout : fd.layout d₀ = .ok f) (hreachable : d₀.Reachable) (hgrows : d₀.Grows d')
    (hglobals : ∀ g ∈ d'.globals, g.ty.isHandleFree = true) :
    (∀ o ∈ f.operands, o.Housed d'.structs f.frameSize d'.data.length) ∧
      ∀ o ∈ f.params ++ f.returns, ∀ x ∈ o.nested,
        x.Housed d'.structs f.frameSize d'.data.length := by
  obtain ⟨l, rfl, hmakes⟩ := fd.layout_eq_ok hlayout
  rw [hmakes.frameSize_eq]
  constructor
  · intro o ho
    obtain ⟨w, hw, hbinds⟩ := exists_of_forall₂_right hmakes.operands ho
    exact hbinds.housed hw hmakes.laidOut hreachable hgrows hfree hglobals
  · intro o ho x hx
    obtain ⟨⟨name, ty⟩, -, rfl, rfl, hchain, offset, hstorage, hslot⟩ := hmakes.exists_standsFor ho
    rw [Operand.nested_eq, hchain] at hx
    obtain rfl := List.mem_singleton.mp hx
    apply hslot.housed hmakes.laidOut hgrows.structs hstorage hfree.declared
    rw [hchain]
    trivial

end Housed

end FlatMachine
