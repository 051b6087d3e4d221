import FlatMachine.Proofs.Binding
import Mathlib.Data.List.Nodup

/-!
# Laid-out functions

The slots of a frame tile it in the order in which their names are first declared. The layout of a
function ends with such slots, and binds every operand of the body with them.
-/

namespace FlatMachine

namespace FrameLayout

variable {l l' l'' : FrameLayout} {name : String} {ty : Ty} {offset : Nat} {slot : Slot}
  {declared rest : List (String × Ty)}

/-- The slots in the order of their declaration. -/
def inOrder (l : FrameLayout) : List Slot := l.slots.reverse

/-- The slots are those of the declared names. -/
structure LaidOut (l : FrameLayout) (declared : List (String × Ty)) : Prop where
  names_eq : l.inOrder.map (·.name) = (declared.map (·.1)).eraseDups
  nodup : (l.inOrder.map (·.name)).Nodup
  ty_eq : ∀ name ty, (name, ty) ∈ declared → ∃ slot ∈ l.inOrder, slot.name = name ∧ slot.ty = ty
  tiled : Tiled l.structs 0 (l.inOrder.map fun slot => (slot.offset, slot.ty)) l.size

/-- A slot has the type that its name was declared with. -/
theorem LaidOut.mem_declared (h : LaidOut l declared) (hslot : slot ∈ l.inOrder) :
    (slot.name, slot.ty) ∈ declared := by
  have hname : slot.name ∈ declared.map (·.1) := by
    rw [← List.mem_eraseDups, ← h.names_eq]
    exact List.mem_map_of_mem hslot
  obtain ⟨⟨name, ty⟩, hmem, rfl⟩ := List.mem_map.mp hname
  obtain ⟨slot', hslot', hname', rfl⟩ := h.ty_eq _ ty hmem
  rw [← hname'] at hmem
  cases List.inj_on_of_nodup_map h.nodup hslot hslot' hname'.symm
  exact hmem

/-- A layout with more slots. -/
structure Declares (l l' : FrameLayout) : Prop where
  draft_eq : l'.draft = l.draft
  package_eq : l'.package = l.package
  subset : l.inOrder ⊆ l'.inOrder

theorem Declares.refl (l : FrameLayout) : Declares l l := ⟨rfl, rfl, List.Subset.refl _⟩

theorem Declares.trans (h : Declares l l') (h' : Declares l' l'') : Declares l l'' :=
  ⟨h'.draft_eq.trans h.draft_eq, h'.package_eq.trans h.package_eq,
    List.Subset.trans h.subset h'.subset⟩

/-- The name has a slot of that type at the offset. -/
def HasSlot (l : FrameLayout) (name : String) (ty : Ty) (offset : Nat) : Prop :=
  ∃ slot ∈ l.inOrder, slot.name = name ∧ slot.ty = ty ∧ slot.offset = offset

theorem Declares.hasSlot (h : Declares l l') (hslot : l.HasSlot name ty offset) :
    l'.HasSlot name ty offset := by
  obtain ⟨slot, hmem, heq⟩ := hslot
  exact ⟨slot, h.subset hmem, heq⟩

theorem slot?_eq_some (h : l.slot? name = some slot) : slot ∈ l.inOrder ∧ slot.name = name :=
  ⟨List.mem_reverse.mpr (List.mem_of_find?_eq_some h), by simpa using List.find?_some h⟩

theorem slot?_eq_none (h : l.slot? name = none) : name ∉ l.inOrder.map (·.name) := by
  intro hmem
  obtain ⟨slot, hslot, rfl⟩ := List.mem_map.mp hmem
  have hne := List.find?_eq_none.mp h slot (List.mem_reverse.mp hslot)
  simp at hne

theorem eraseDups_snoc (names : List String) (name : String) : (names ++ [name]).eraseDups =
    if name ∈ names then names.eraseDups else names.eraseDups ++ [name] := by
  rw [List.eraseDups_append]
  by_cases h : name ∈ names <;> simp [h, List.removeAll, List.eraseDups_cons]

theorem laidOut_nil (package : String) (draft : Draft) : LaidOut { package, draft } [] :=
  ⟨rfl, .nil, nofun, rfl⟩

theorem LaidOut.ty_eq_snoc (h : LaidOut l declared) (hl : Declares l l')
    (hslot : l'.HasSlot name ty offset) : ∀ name' ty', (name', ty') ∈ declared ++ [(name, ty)] →
      ∃ slot ∈ l'.inOrder, slot.name = name' ∧ slot.ty = ty' := by
  intro name' ty' hmem
  rcases List.mem_append.mp hmem with hmem | hmem
  · obtain ⟨slot, hslot, heq⟩ := h.ty_eq name' ty' hmem
    exact ⟨slot, hl.subset hslot, heq⟩
  · obtain ⟨slot, hslot, hname, hty, -⟩ := hslot
    cases List.mem_singleton.mp hmem
    exact ⟨slot, hslot, hname, hty⟩

/-- A name that has no slot is given one behind the others. -/
theorem LaidOut.push {size : Nat} (h : LaidOut l declared) (hsize : ty.size l.structs = .ok size)
    (hnew : name ∉ l.inOrder.map (·.name)) (hdraft : l'.draft = l.draft)
    (hpackage : l'.package = l.package) (hslots : l'.slots = ⟨name, l.size, ty⟩ :: l.slots)
    (hend : l'.size = l.size + size) :
    LaidOut l' (declared ++ [(name, ty)]) ∧ Declares l l' ∧ l'.HasSlot name ty l.size := by
  have horder : l'.inOrder = l.inOrder ++ [⟨name, l.size, ty⟩] := by
    rw [inOrder, hslots, List.reverse_cons]
    rfl
  have hundeclared : name ∉ declared.map (·.1) := by
    rwa [← List.mem_eraseDups, ← h.names_eq]
  have hdeclares : Declares l l' :=
    ⟨hdraft, hpackage, horder ▸ List.subset_append_left _ _⟩
  have hslot : l'.HasSlot name ty l.size := by
    refine ⟨⟨name, l.size, ty⟩, ?_, rfl, rfl, rfl⟩
    rw [horder]
    exact List.mem_append_right _ List.mem_cons_self
  refine ⟨⟨?_, ?_, h.ty_eq_snoc hdeclares hslot, ?_⟩, hdeclares, hslot⟩
  · rw [horder, List.map_append, List.map_append, List.map_singleton, List.map_singleton,
      eraseDups_snoc, if_neg hundeclared, h.names_eq]
  · rw [horder, List.map_append, List.map_singleton]
    exact List.nodup_append.mpr ⟨h.nodup, List.pairwise_singleton _ _, by simpa using hnew⟩
  · have hstructs : l'.structs = l.structs := congrArg Draft.structs hdraft
    rw [horder, List.map_append, List.map_singleton, hstructs, hend]
    exact h.tiled.snoc hsize

/-- Declaring a name gives it a slot behind the others, unless it has one of the type. -/
theorem LaidOut.declare (h : LaidOut l declared) (hdeclare : l.declare name ty = .ok (offset, l')) :
    LaidOut l' (declared ++ [(name, ty)]) ∧ Declares l l' ∧ l'.HasSlot name ty offset := by
  unfold FrameLayout.declare at hdeclare
  split at hdeclare
  · cases hdeclare
  split at hdeclare
  · rename_i slot hfound
    split at hdeclare
    · rename_i hslotTy
      cases hdeclare
      obtain ⟨hmem, rfl⟩ := slot?_eq_some hfound
      have hslot : l.HasSlot slot.name ty slot.offset := ⟨slot, hmem, rfl, hslotTy, rfl⟩
      have hdeclared : slot.name ∈ declared.map (·.1) := by
        rw [← List.mem_eraseDups, ← h.names_eq]
        exact List.mem_map_of_mem hmem
      refine ⟨⟨?_, h.nodup, h.ty_eq_snoc (.refl l) hslot, h.tiled⟩, .refl l, hslot⟩
      rw [List.map_append, List.map_singleton, eraseDups_snoc, if_pos hdeclared, h.names_eq]
    · cases hdeclare
  · rename_i hnone
    obtain ⟨size, hsize, hdeclare⟩ := bind_eq_ok.mp hdeclare
    cases hdeclare
    exact h.push hsize (slot?_eq_none hnone) rfl rfl rfl rfl

theorem LaidOut.declareAll (h : LaidOut l declared) (hrest : l.declareAll rest = .ok l') :
    LaidOut l' (declared ++ rest) ∧ Declares l l' := by
  induction rest generalizing l declared with
  | nil =>
    cases hrest
    rw [List.append_nil]
    exact ⟨h, .refl _⟩
  | cons entry rest ih =>
    obtain ⟨⟨offset, m⟩, hdeclare, hrest⟩ := bind_eq_ok.mp hrest
    obtain ⟨hm, hlm, -⟩ := h.declare hdeclare
    obtain ⟨hl', hml'⟩ := ih hm hrest
    rw [List.append_cons]
    exact ⟨hl', hlm.trans hml'⟩

/-- The operand stands for the slot of a declared name. -/
def StandsFor (l : FrameLayout) (entry : String × Ty) (o : Operand) : Prop :=
  o.name = entry.1 ∧ o.ty = entry.2 ∧ o.chain = [] ∧
    ∃ offset, o.storage = .frame offset ∧ l.HasSlot entry.1 entry.2 offset

theorem Declares.standsFor {entry : String × Ty} {o : Operand} (h : Declares l l')
    (hentry : l.StandsFor entry o) : l'.StandsFor entry o := by
  obtain ⟨hname, hty, hchain, offset, hstorage, hslot⟩ := hentry
  exact ⟨hname, hty, hchain, offset, hstorage, h.hasSlot hslot⟩

theorem LaidOut.declareBound {os : List Operand} (h : LaidOut l declared)
    (hrest : l.declareBound rest = .ok (os, l')) :
    LaidOut l' (declared ++ rest) ∧ Declares l l' ∧ List.Forall₂ l'.StandsFor rest os := by
  induction rest generalizing l declared os with
  | nil =>
    cases hrest
    rw [List.append_nil]
    exact ⟨h, .refl _, .nil⟩
  | cons entry rest ih =>
    obtain ⟨⟨offset, m⟩, hdeclare, hrest⟩ := bind_eq_ok.mp hrest
    obtain ⟨⟨os', l₂⟩, hrest, heq⟩ := bind_eq_ok.mp hrest
    cases heq
    obtain ⟨hm, hlm, hslot⟩ := h.declare hdeclare
    obtain ⟨hl', hml', hos⟩ := ih hm hrest
    rw [List.append_cons]
    exact ⟨hl', hlm.trans hml', .cons ⟨rfl, rfl, rfl, offset, rfl, hml'.hasSlot hslot⟩ hos⟩

end FrameLayout

/-- The operands of a node, with those that their indexes hold. -/
def Node.operands (n : Node) : List Operand := (n.inputs ++ n.outputs).flatMap (·.nested)

namespace FrameLayout

variable {l : FrameLayout} {pc length : Nat} {n n' : Node} {nodes nodes' : List Node}

/-- What finishing makes of a node. -/
structure Finishes (l : FrameLayout) (pc length : Nat) (n n' : Node) : Prop where
  operator_eq : n'.operator = n.operator
  operands : List.Forall₂ l.Binds n.operands n'.operands
  checked : l.checkNode pc length n' = .ok ()

theorem mapM_bind_nested {os os' : List Operand} (h : os.mapM l.bind = .ok os') :
    List.Forall₂ l.Binds (os.flatMap (·.nested)) (os'.flatMap (·.nested)) := by
  have hbound : Gives (os.mapM l.bind) (List.Forall₂ (fun o o' => l.bind o = .ok o') os)
      fun _ => True := gives_mapM fun o _ => gives_of_ok (fun _ h => h) fun _ => trivial
  exact List.rel_flatMap (hbound.value h) fun _ _ hbind => bind_nested _ hbind

theorem finishNode_eq_ok (h : l.finishNode pc length n = .ok n') : l.Finishes pc length n n' := by
  obtain ⟨m, hm, h⟩ := bind_eq_ok.mp (mapError_eq_ok.mp h)
  obtain ⟨_, hchecked, h⟩ := bind_eq_ok.mp h
  cases h
  obtain ⟨inputs, hinputs, hm⟩ := bind_eq_ok.mp hm
  obtain ⟨outputs, houtputs, hm⟩ := bind_eq_ok.mp hm
  cases hm
  refine ⟨rfl, ?_, hchecked⟩
  unfold Node.operands
  rw [List.flatMap_append, List.flatMap_append]
  exact List.rel_append (mapM_bind_nested hinputs) (mapM_bind_nested houtputs)

theorem finishBody_eq_ok (h : l.finishBody length pc nodes = .ok nodes') :
    List.Forall₂ (fun n n' => ∃ pc, l.Finishes pc length n n') nodes nodes' ∧
      ∀ i n', nodes'[i]? = some n' → ∃ n ∈ nodes, l.Finishes (pc + i) length n n' := by
  induction nodes generalizing pc nodes' with
  | nil =>
    cases h
    exact ⟨.nil, nofun⟩
  | cons n rest ih =>
    obtain ⟨n', hn, h⟩ := bind_eq_ok.mp h
    obtain ⟨rest', hrest, h⟩ := bind_eq_ok.mp h
    cases h
    have hn := finishNode_eq_ok hn
    obtain ⟨hall, hindex⟩ := ih hrest
    refine ⟨.cons ⟨pc, hn⟩ hall, fun i m hm => ?_⟩
    cases i with
    | zero =>
      cases hm
      exact ⟨n, List.mem_cons_self, hn⟩
    | succ i =>
      obtain ⟨m', hmem, hm'⟩ := hindex i m hm
      exact ⟨m', List.mem_cons_of_mem _ hmem, by rwa [Nat.add_comm i 1, ← Nat.add_assoc]⟩

end FrameLayout

namespace FunctionDraft

/-- All the names that a function declares, in order. -/
def declared (fd : FunctionDraft) : List (String × Ty) :=
  fd.params ++ fd.returns ++ (fd.locals ++ fd.body.flatMap FrameLayout.declarations)

/-- The operands of the body as they were written. -/
def operands (fd : FunctionDraft) : List Operand := fd.body.flatMap (·.operands)

end FunctionDraft

/-- The operands of the body, bound. -/
def Function.operands (f : Function) : List Operand := f.body.flatMap (·.operands)

/-- The function is what the layout, with all names declared, makes of a draft of it. -/
structure FrameLayout.Makes (l : FrameLayout) (fd : FunctionDraft) (f : Function) : Prop where
  package_eq : l.package = fd.package
  reference_eq : f.reference = ⟨fd.package, fd.name⟩
  frameSize_eq : f.frameSize = l.size
  laidOut : l.LaidOut fd.declared
  params : List.Forall₂ l.StandsFor fd.params f.params
  returns : List.Forall₂ l.StandsFor fd.returns f.returns
  operands : List.Forall₂ l.Binds fd.operands f.operands
  nodes : ∀ pc n', f.body[pc]? = some n' → ∃ n ∈ fd.body, l.Finishes pc f.body.length n n'

theorem FrameLayout.Makes.exists_standsFor {l : FrameLayout} {fd : FunctionDraft} {f : Function}
    {o : Operand} (h : l.Makes fd f) (ho : o ∈ f.params ++ f.returns) :
    ∃ entry ∈ fd.declared, l.StandsFor entry o := by
  rcases List.mem_append.mp ho with ho | ho
  · obtain ⟨entry, hentry, hstands⟩ := exists_of_forall₂_right h.params ho
    exact ⟨entry, List.mem_append_left _ (List.mem_append_left _ hentry), hstands⟩
  · obtain ⟨entry, hentry, hstands⟩ := exists_of_forall₂_right h.returns ho
    exact ⟨entry, List.mem_append_left _ (List.mem_append_right _ hentry), hstands⟩

theorem FunctionDraft.layout_eq_ok {fd : FunctionDraft} {d : Draft} {f : Function}
    (h : fd.layout d = .ok f) : ∃ l : FrameLayout, l.draft = d ∧ l.Makes fd f := by
  obtain ⟨⟨params, l₁⟩, hparams, h⟩ := bind_eq_ok.mp h
  obtain ⟨⟨returns, l₂⟩, hreturns, h⟩ := bind_eq_ok.mp h
  obtain ⟨l, hlocals, h⟩ := bind_eq_ok.mp h
  obtain ⟨body, hbody, h⟩ := bind_eq_ok.mp h
  cases h
  obtain ⟨h₁, hl₁, hparams⟩ := (FrameLayout.laidOut_nil fd.package d).declareBound hparams
  obtain ⟨h₂, hl₂, hreturns⟩ := h₁.declareBound hreturns
  obtain ⟨hl, hl₃⟩ := h₂.declareAll hlocals
  obtain ⟨hall, hindex⟩ := FrameLayout.finishBody_eq_ok hbody
  have hgrows := hl₁.trans (hl₂.trans hl₃)
  refine ⟨l, hgrows.draft_eq, hgrows.package_eq, rfl, rfl, hl, ?_, ?_, ?_, ?_⟩
  · exact hparams.imp fun _ _ h => (hl₂.trans hl₃).standsFor h
  · exact hreturns.imp fun _ _ h => hl₃.standsFor h
  · exact List.rel_flatMap hall fun _ _ hn => hn.choose_spec.operands
  · intro pc n' hn'
    rw [← hall.length_eq]
    simpa only [Nat.zero_add] using hindex pc n' hn'

end FlatMachine
