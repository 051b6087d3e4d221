import FlatMachine.Proofs.Isolation
import FlatMachine.Proofs.Moves
import FlatMachine.Proofs.Walks

/-!
# Statements in laid-out functions

The nodes of a statement stand in the body of a draft, and the layout of the draft binds them one by
one. An operand that goes on from another by one access leads to a part of what the other leads to:
a field of a struct or an element of an array. Different parts of a value have no byte in common.
-/

namespace FlatMachine

section Layout

variable {fd : FunctionDraft} {d : Draft} {l : FrameLayout} {f : Function} {pc length : Nat}
  {n n' : Node} {ns ns' : List Node}

/-- The frame of a function, with everything declared that its body declares. -/
def FunctionDraft.frame (fd : FunctionDraft) (d : Draft) : Except Error FrameLayout := do
  let l : FrameLayout := { package := fd.package, draft := d }
  let (_, l) ← l.declareBound fd.params
  let (_, l) ← l.declareBound fd.returns
  l.declareAll (fd.locals ++ fd.body.flatMap FrameLayout.declarations)

theorem FunctionDraft.laidOut_of_frame (h : fd.frame d = .ok l) :
    l.draft = d ∧ l.LaidOut fd.declared := by
  obtain ⟨⟨params, l₁⟩, hparams, h⟩ := bind_eq_ok.mp h
  obtain ⟨⟨returns, l₂⟩, hreturns, hlocals⟩ := bind_eq_ok.mp h
  obtain ⟨h₁, hl₁, -⟩ := (FrameLayout.laidOut_nil fd.package d).declareBound hparams
  obtain ⟨h₂, hl₂, -⟩ := h₁.declareBound hreturns
  obtain ⟨hl, hl₃⟩ := h₂.declareAll hlocals
  exact ⟨(hl₁.trans (hl₂.trans hl₃)).draft_eq, hl⟩

/-- The layout of a function finishes its body in its frame. -/
theorem FunctionDraft.frame_of_layout (h : fd.layout d = .ok f) : ∃ l, fd.frame d = .ok l ∧
    l.draft = d ∧ l.LaidOut fd.declared ∧
      l.finishBody fd.body.length 0 fd.body = .ok f.body := by
  obtain ⟨⟨params, l₁⟩, hparams, h⟩ := bind_eq_ok.mp h
  obtain ⟨⟨returns, l₂⟩, hreturns, h⟩ := bind_eq_ok.mp h
  obtain ⟨l, hlocals, h⟩ := bind_eq_ok.mp h
  obtain ⟨body, hbody, h⟩ := bind_eq_ok.mp h
  cases h
  have hframe : fd.frame d = .ok l :=
    bind_eq_ok.mpr ⟨_, hparams, bind_eq_ok.mpr ⟨_, hreturns, hlocals⟩⟩
  obtain ⟨hdraft, hlaid⟩ := laidOut_of_frame hframe
  exact ⟨l, hframe, hdraft, hlaid, hbody⟩

theorem FrameLayout.binds_of_bind {o o' : Operand} (h : l.bind o = .ok o') : l.Binds o o' := by
  have hnested := bind_nested o h
  rw [Operand.nested_eq, Operand.nested_eq] at hnested
  cases hnested with
  | cons hbinds _ => exact hbinds

/-- The operands of the node are bound, and nothing else about it has changed. -/
structure FrameLayout.BindsNode (l : FrameLayout) (n n' : Node) : Prop where
  operator_eq : n'.operator = n.operator
  inputs : List.Forall₂ (fun o o' => l.bind o = .ok o') n.inputs n'.inputs
  outputs : List.Forall₂ (fun o o' => l.bind o = .ok o') n.outputs n'.outputs

theorem FrameLayout.forall₂_of_mapM_bind {os os' : List Operand} (h : os.mapM l.bind = .ok os') :
    List.Forall₂ (fun o o' => l.bind o = .ok o') os os' := by
  have hbound : Gives (os.mapM l.bind) (List.Forall₂ (fun o o' => l.bind o = .ok o') os)
      fun _ => True := gives_mapM fun o _ => gives_of_ok (fun _ h => h) fun _ => trivial
  exact hbound.value h

theorem FrameLayout.bindsNode_of_finishNode (h : l.finishNode pc length n = .ok n') :
    l.BindsNode n n' := by
  obtain ⟨m, hm, h⟩ := bind_eq_ok.mp (mapError_eq_ok.mp h)
  obtain ⟨_, -, h⟩ := bind_eq_ok.mp h
  cases h
  obtain ⟨inputs, hinputs, hm⟩ := bind_eq_ok.mp hm
  obtain ⟨outputs, houtputs, hm⟩ := bind_eq_ok.mp hm
  cases hm
  exact ⟨rfl, forall₂_of_mapM_bind hinputs, forall₂_of_mapM_bind houtputs⟩

theorem FrameLayout.bindsNode_of_finishBody (h : l.finishBody length pc ns = .ok ns') :
    List.Forall₂ l.BindsNode ns ns' := by
  induction ns generalizing pc ns' with
  | nil =>
    cases h
    exact .nil
  | cons n rest ih =>
    obtain ⟨n', hn, h⟩ := bind_eq_ok.mp h
    obtain ⟨rest', hrest, h⟩ := bind_eq_ok.mp h
    cases h
    exact .cons (bindsNode_of_finishNode hn) (ih hrest)

/-- The nodes `ns` stand at `pc` in the body of a draft. In the function that it is laid out to,
with the frame `l`, they have become `ns'`. -/
structure FunctionDraft.Lays (fd : FunctionDraft) (d : Draft) (l : FrameLayout) (f : Function)
    (pc : Nat) (ns ns' : List Node) : Prop where
  layout_eq : fd.layout d = .ok f
  frame_eq : fd.frame d = .ok l
  written : ns <+: fd.body.drop pc
  laid : ns' <+: f.body.drop pc
  length_eq : ns'.length = ns.length

namespace FunctionDraft.Lays

theorem draft_eq (h : fd.Lays d l f pc ns ns') : l.draft = d := by
  obtain ⟨l', hframe, hdraft, -⟩ := frame_of_layout h.layout_eq
  cases h.frame_eq.symm.trans hframe
  exact hdraft

theorem laidOut (h : fd.Lays d l f pc ns ns') : l.LaidOut fd.declared := by
  obtain ⟨l', hframe, -, hlaid, -⟩ := frame_of_layout h.layout_eq
  cases h.frame_eq.symm.trans hframe
  exact hlaid

theorem binds (h : fd.Lays d l f pc ns ns') : List.Forall₂ l.BindsNode ns ns' := by
  obtain ⟨l', hframe, -, -, hbody⟩ := frame_of_layout h.layout_eq
  cases h.frame_eq.symm.trans hframe
  obtain ⟨rest, hrest⟩ := h.written
  obtain ⟨rest', hrest'⟩ := h.laid
  have hall := List.forall₂_drop pc (FrameLayout.bindsNode_of_finishBody hbody)
  rw [← hrest, ← hrest'] at hall
  have htake := List.forall₂_take ns.length hall
  rwa [List.take_left, ← h.length_eq, List.take_left] at htake

/-- The machine runs nodes without calls and jumps one by one. -/
theorem advances_eq_ok {m s : Machine} {frame : Frame} {k : Nat}
    (h : fd.Lays d l f frame.pc ns ns') (hframe : m.stack.top? = some frame)
    (hf : m.program.function? frame.function = some f) (hstraight : ∀ n ∈ ns', n.IsStraight)
    (hk : k ≤ ns'.length) : Machine.advances k m = .ok () s ↔
      ∃ s', Machine.executeAll frame.fp (ns'.take k) m = .ok () s' ∧
        s = s'.setPc (frame.pc + k) := by
  obtain ⟨outer, hm⟩ : ∃ outer, m.stack.frames = frame :: outer :=
    List.head?_eq_some_iff.mp hframe
  obtain ⟨rest, hrest⟩ := h.laid
  have hlength : (ns'.take k).length = k := List.length_take_of_le hk
  have hbody : f.body.drop frame.pc = ns'.take k ++ (ns'.drop k ++ rest) := by
    rw [← hrest, ← List.append_assoc, List.take_append_drop]
  have hrun : Machine.advances (ns'.take k).length m = .ok () s ↔
      ∃ s', Machine.executeAll frame.fp (ns'.take k) m = .ok () s' ∧
        s = s'.setPc (frame.pc + (ns'.take k).length) :=
    Machine.advances_eq_ok hm hf hbody fun n hn => hstraight n (List.mem_of_mem_take hn)
  rwa [hlength] at hrun

end FunctionDraft.Lays

end Layout

section Parts

variable {t u : StructTable} {a : Arena} {fp offset : Nat} {name : String} {ty next : Ty}
  {access access' : Access} {chain chain' : List Access} {whole part part' : Place}
  {l : FrameLayout} {o p p' : Operand} {found : Nat × Ty}

theorem followChain_append : followChain t a fp name offset ty (chain ++ chain') =
    followChain t a fp name offset ty chain >>= fun found =>
      followChain t a fp name found.1 found.2 chain' := by
  induction chain generalizing offset ty with
  | nil => rfl
  | cons access rest ih =>
    rw [List.cons_append]
    simp only [followChain, bind_assoc, ih]

/-- From its place an operand is followed on. -/
theorem Operand.place_append (h : o.place t a fp = .ok whole) (chain : List Access) :
    { o with chain := o.chain ++ chain }.place t a fp =
      followChain t a fp o.name whole.offset whole.ty chain >>= fun found =>
        found.2.size t >>= fun size => return ⟨found.1, found.2, size⟩ := by
  rw [Operand.place_eq] at h ⊢
  obtain ⟨start, hstart, h⟩ := bind_eq_ok.mp h
  obtain ⟨found, hfound, h⟩ := bind_eq_ok.mp h
  obtain ⟨size, hsize, h⟩ := bind_eq_ok.mp h
  cases h
  change o.storage.start fp o.name >>= _ = _
  rw [hstart]
  change followChain t a fp o.name start o.ty (o.chain ++ chain) >>= _ = _
  rw [followChain_append, hfound]
  rfl

/-- A linked access leads to a value of the type that the static step gives. -/
theorem Access.Linked.step_of_follow (hpacked : t.Packed) (hlinked : access.Linked t ty)
    (h : access.follow t a fp name offset ty = .ok found) : ty.step t access = .ok found.2 := by
  match access with
  | .pointer => exact Access.step_of_follow trivial h
  | .index source => exact Access.step_of_follow trivial h
  | .field ref =>
    obtain ⟨struct, field, hty, hfield, -, hfieldTy⟩ := hlinked
    have hdefined : ref.ty.isDefined = true := hfieldTy ▸ hpacked.isDefined_field hfield
    rw [Access.follow_field_eq hty, FieldRef.target, if_pos hdefined] at h
    obtain ⟨start, -, h⟩ := bind_eq_ok.mp h
    cases h
    rw [Ty.step_field hty, hfield, hfieldTy]
    rfl

theorem ChainLinked.chainTy_of_followChain (hpacked : t.Packed) (hlinked : ChainLinked t ty chain)
    (h : followChain t a fp name offset ty chain = .ok found) :
    Operand.chainTy t ty chain = .ok found.2 := by
  induction chain generalizing offset ty with
  | nil =>
    cases h
    rfl
  | cons access rest ih =>
    obtain ⟨haccess, next, hnext, hrest⟩ := hlinked
    obtain ⟨middle, hmiddle, h⟩ := bind_eq_ok.mp h
    have hstep := haccess.step_of_follow hpacked hmiddle
    cases hnext.symm.trans hstep
    exact bind_eq_ok.mpr ⟨_, hstep, ih hrest h⟩

theorem Operand.size_of_place (h : o.place t a fp = .ok whole) :
    whole.ty.size t = .ok whole.size := by
  rw [Operand.place_eq] at h
  obtain ⟨start, -, h⟩ := bind_eq_ok.mp h
  obtain ⟨found, -, h⟩ := bind_eq_ok.mp h
  obtain ⟨size, hsize, h⟩ := bind_eq_ok.mp h
  cases h
  exact hsize

/-- The place of a linked operand has the type that the operand has statically. -/
theorem ChainLinked.valueTy_of_place (hpacked : t.Packed) (hlinked : ChainLinked t o.ty o.chain)
    (h : o.place t a fp = .ok whole) : o.valueTy t = .ok whole.ty := by
  rw [Operand.place_eq] at h
  obtain ⟨start, -, h⟩ := bind_eq_ok.mp h
  obtain ⟨found, hfound, h⟩ := bind_eq_ok.mp h
  obtain ⟨size, -, h⟩ := bind_eq_ok.mp h
  cases h
  exact hlinked.chainTy_of_followChain hpacked hfound

/-- The operand goes on from another one by an access. -/
structure Operand.PartOf (p o : Operand) (access : Access) : Prop where
  name_eq : p.name = o.name
  ty_eq : p.ty = o.ty
  storage_eq : p.storage = o.storage
  package_eq : p.package = o.package
  chain_eq : p.chain = o.chain ++ [access]

/-- Where an operand leads that goes on from another. -/
theorem Operand.PartOf.place_eq (h : p.PartOf o access) (hwhole : o.place t a fp = .ok whole) :
    p.place t a fp = access.follow t a fp o.name whole.offset whole.ty >>= fun found =>
      found.2.size t >>= fun size => return ⟨found.1, found.2, size⟩ := by
  rw [Operand.place_eq] at hwhole ⊢
  obtain ⟨start, hstart, hwhole⟩ := bind_eq_ok.mp hwhole
  obtain ⟨found, hfound, hwhole⟩ := bind_eq_ok.mp hwhole
  obtain ⟨size, hsize, hwhole⟩ := bind_eq_ok.mp hwhole
  cases hwhole
  rw [h.name_eq, h.storage_eq, h.ty_eq, h.chain_eq, hstart]
  change followChain t a fp o.name start o.ty (o.chain ++ [access]) >>= _ = _
  rw [followChain_append, hfound]
  change (access.follow t a fp o.name found.1 found.2 >>= _) >>= _ = _
  rw [bind_assoc]
  rfl

theorem FrameLayout.linkChain_snoc (h : l.linkChain ty (chain ++ [access]) = .ok chain') :
    ∃ front next access', l.linkChain ty chain = .ok front ∧
      Operand.chainTy l.structs ty front = .ok next ∧ l.linkAccess next access = .ok access' ∧
      chain' = front ++ [access'] := by
  induction chain generalizing ty chain' with
  | nil =>
    obtain ⟨access', haccess, h⟩ := bind_eq_ok.mp h
    obtain ⟨next, -, h⟩ := bind_eq_ok.mp h
    cases h
    exact ⟨[], ty, access', rfl, rfl, haccess, rfl⟩
  | cons head rest ih =>
    obtain ⟨head', hhead, h⟩ := bind_eq_ok.mp h
    obtain ⟨next, hnext, h⟩ := bind_eq_ok.mp h
    obtain ⟨rest', hrest, h⟩ := bind_eq_ok.mp h
    cases h
    obtain ⟨front, last, access', hfront, hlast, haccess, rfl⟩ := ih hrest
    refine ⟨head' :: front, last, access', ?_, ?_, haccess, rfl⟩
    · exact bind_eq_ok.mpr ⟨head', hhead, bind_eq_ok.mpr ⟨next, hnext,
        bind_eq_ok.mpr ⟨front, hfront, rfl⟩⟩⟩
    · exact bind_eq_ok.mpr ⟨next, hnext, hlast⟩

/-- Binding an operand that goes on from another binds the other and links the access. -/
theorem Operand.PartOf.bind (h : p.PartOf o access) (hbind : l.bind p = .ok p') :
    ∃ o' ty access', l.bind o = .ok o' ∧ o'.valueTy l.structs = .ok ty ∧
      l.linkAccess ty access = .ok access' ∧ p'.PartOf o' access' := by
  rw [FrameLayout.bind_eq] at hbind
  obtain ⟨origin, horigin, hbind⟩ := bind_eq_ok.mp hbind
  obtain ⟨chain', hchain, hbind⟩ := bind_eq_ok.mp hbind
  cases hbind
  have horigin' : l.origin o = .ok origin := by
    unfold FrameLayout.origin at horigin ⊢
    rwa [h.name_eq, h.ty_eq, h.storage_eq, h.package_eq] at horigin
  rw [h.chain_eq] at hchain
  obtain ⟨front, next, access', hfront, hnext, haccess, rfl⟩ := FrameLayout.linkChain_snoc hchain
  have hbound : l.bind o = .ok { o with
      storage := origin.1, ty := origin.2, chain := front
      package := if o.package = "" then l.package else o.package } := by
    rw [FrameLayout.bind_eq, horigin']
    exact bind_eq_ok.mpr ⟨origin, rfl, bind_eq_ok.mpr ⟨front, hfront, rfl⟩⟩
  refine ⟨_, next, access', hbound, hnext, haccess, h.name_eq, rfl, rfl, ?_, rfl⟩
  exact congrArg (fun package => if package = "" then l.package else package) h.package_eq

/-- The part of a value that an access leads to: a field of a struct, or an element of an array. -/
inductive Place.Part (t : StructTable) (whole : Place) : Access → Place → Prop where
  | field {struct name : String} {field : Field} {size : Nat} (hty : whole.ty = .struct struct)
      (hfield : t.field struct name = .ok field) (hsize : field.ty.size t = .ok size) :
      Part t whole (.field { name }) ⟨whole.offset + field.offset, field.ty, size⟩
  | element {elem : Ty} {length : UInt32} {i : Int} {size : Nat}
      (hty : whole.ty = .array elem length) (hindex : 0 ≤ i ∧ i < length.toNat)
      (hsize : elem.size t = .ok size) :
      Part t whole (.index (.const i)) ⟨whole.offset + i.toNat * size, elem, size⟩

theorem Place.Part.le (h : whole.Part t access part) : whole.offset ≤ part.offset := by
  cases h <;> exact Nat.le_add_right _ _

/-- A part lies inside the value. -/
theorem Place.Part.inside (hpacked : t.Packed) (hsize : whole.ty.size t = .ok whole.size)
    (h : whole.Part t access part) : whole.offset ≤ part.offset ∧
      part.offset + part.size ≤ whole.offset + whole.size := by
  cases h with
  | field hty hfield hwidth =>
    obtain ⟨total, width, htotal, hwidth', hle⟩ := hpacked.field hfield
    rw [hty] at hsize
    cases htotal.symm.trans hsize
    cases hwidth.symm.trans hwidth'
    exact ⟨Nat.le_add_right _ _, by dsimp only; omega⟩
  | @element elem length i width hty hindex hwidth =>
    rw [hty] at hsize
    obtain ⟨width', hwidth', hsize⟩ := bind_eq_ok.mp hsize
    cases hwidth.symm.trans hwidth'
    have htotal : whole.size = width * length.toNat := by
      split at hsize
      · rename_i total htotal
        cases hsize
        exact (Size.mul?_eq_some_iff.mp htotal).2
      · cases hsize
    have hle := element_le width hindex
    exact ⟨Nat.le_add_right _ _, by dsimp only; omega⟩

/-- Different parts of a value have no byte in common. -/
theorem Place.Part.apart (hpacked : t.Packed) (h : whole.Part t access part)
    (h' : whole.Part t access' part') (hne : access ≠ access') : part.Apart part' := by
  intro i hi hi'
  unfold Place.Covers at hi hi'
  cases h with
  | @field struct name field size hty hfield hsize =>
    cases h' with
    | @field struct' name' field' size' hty' hfield' hsize' =>
      obtain rfl : struct = struct' := by simpa [hty] using hty'
      obtain ⟨d, hget, hfind⟩ := StructTable.field_eq_ok.mp hfield
      obtain ⟨d', hget', hfind'⟩ := StructTable.field_eq_ok.mp hfield'
      cases hget.symm.trans hget'
      have hfields : field ≠ field' := by
        rintro rfl
        have hname : field.name = name := by simpa using List.find?_some hfind
        have hname' : field.name = name' := by simpa using List.find?_some hfind'
        exact hne (hname ▸ hname' ▸ rfl)
      have hpair := List.pairwise_map.mp (hpacked struct d hget).disjoint
      rcases or_of_pairwise hpair (List.mem_of_find?_eq_some hfind)
        (List.mem_of_find?_eq_some hfind') hfields with hle | hle
      · have hgap : field.offset + size ≤ field'.offset := hle size hsize
        dsimp only at hi hi'
        omega
      · have hgap : field'.offset + size' ≤ field.offset := hle size' hsize'
        dsimp only at hi hi'
        omega
    | element hty' => cases hty.symm.trans hty'
  | @element elem length j size hty hindex hsize =>
    cases h' with
    | field hty' => cases hty.symm.trans hty'
    | @element elem' length' j' size' hty' hindex' hsize' =>
      obtain ⟨rfl, rfl⟩ : elem = elem' ∧ length = length' := by simpa [hty] using hty'
      cases hsize.symm.trans hsize'
      have hgap : ∀ x y : Int, 0 ≤ x → x < y → x.toNat * size + size ≤ y.toNat * size := by
        intro x y hx hxy
        rw [Nat.mul_comm y.toNat]
        exact element_le size ⟨hx, by omega⟩
      have hj : j ≠ j' := by
        rintro rfl
        exact hne rfl
      dsimp only at hi hi'
      rcases Int.lt_or_gt_of_ne hj with hlt | hlt
      · have hle := hgap j j' hindex.1 hlt
        omega
      · have hle := hgap j' j hindex'.1 hlt
        omega

/-- An access whose way depends on memory only through the handle of a pointer or slice. -/
def Access.IsStatic : Access → Prop
  | .field _ | .index (.const _) => True
  | .pointer | .index (.operand _) => False

theorem Access.IsStatic.of_linkAccess (h : access.IsStatic)
    (haccess : l.linkAccess ty access = .ok access') : access'.IsStatic := by
  match access with
  | .field ref =>
    obtain ⟨struct, -, haccess⟩ := bind_eq_ok.mp haccess
    obtain ⟨field, -, haccess⟩ := bind_eq_ok.mp haccess
    cases haccess
    trivial
  | .index (.const i) =>
    cases haccess
    trivial

/-- Nothing is read on the way to a part of a value that is not a handle. -/
theorem Access.IsStatic.reads_eq_nil (h : access.IsStatic) (hty : ty.isHandle = false) :
    access.reads t a fp name offset ty = [] := by
  match access with
  | .field ref =>
    cases ty with
    | pointer target => cases hty
    | _ => rfl
  | .index (.const i) =>
    cases ty with
    | pointer target => cases hty
    | slice elem => cases hty
    | _ => rfl

/-- As long as an operand leads to the same value, its parts stay where they are. -/
theorem Operand.PartOf.place_eq_of_place {b : Arena} (h : p.PartOf o access)
    (hstatic : access.IsStatic) (hty : whole.ty.isHandle = false)
    (ha : o.place t a fp = .ok whole) (hb : o.place t b fp = .ok whole) :
    p.place t b fp = p.place t a fp := by
  rw [h.place_eq ha, h.place_eq hb]
  congr 1
  apply access_congr
  rw [hstatic.reads_eq_nil hty]
  nofun

/-- A linked field lies in the struct, or in the struct that the pointer leads to. -/
theorem follow_linkedField (hpacked : t.Packed) (hgrows : l.structs.Grows t) {ref : FieldRef}
    (haccess : l.linkAccess ty (.field ref) = .ok access') :
    ∃ struct field, (ty = .struct struct ∨ ty = .pointer (.struct struct)) ∧
      t.field struct ref.name = .ok field ∧ access'.follow t a fp name offset ty =
        a.implicit name offset ty >>= fun start => return (start.1 + field.offset, field.ty) := by
  obtain ⟨struct, hstruct, haccess⟩ := bind_eq_ok.mp haccess
  obtain ⟨field, hfield, haccess⟩ := bind_eq_ok.mp haccess
  cases haccess
  have hty := FrameLayout.structOf_eq_ok hstruct
  have hfield' := hgrows.field hfield
  refine ⟨struct, field, hty, hfield', ?_⟩
  rw [Access.follow_field_eq hty, FieldRef.target, if_pos (hpacked.isDefined_field hfield')]
  rfl

/-- The place of an operand that goes on by a field or an element from a value that is not a handle
is that part of the value. -/
theorem Operand.PartOf.part_of_place (h : p.PartOf o access') (hpacked : t.Packed)
    (hgrows : l.structs.Grows t) (haccess : l.linkAccess whole.ty access = .ok access')
    (hwritten : (∃ name, access = .field { name }) ∨ ∃ i, access = .index (.const i))
    (hty : whole.ty.isHandle = false) (hwhole : o.place t a fp = .ok whole)
    (hpart : p.place t a fp = .ok part) : whole.Part t access part := by
  rw [h.place_eq hwhole] at hpart
  obtain ⟨found, hfound, hpart⟩ := bind_eq_ok.mp hpart
  obtain ⟨size, hsize, hpart⟩ := bind_eq_ok.mp hpart
  cases hpart
  rcases hwritten with ⟨field, rfl⟩ | ⟨i, rfl⟩
  · obtain ⟨struct, field, hstruct, hfield, hfollow⟩ := follow_linkedField hpacked hgrows haccess
    rcases hstruct with hstruct | hstruct
    · rw [hfollow, hstruct] at hfound
      cases hfound
      exact .field hstruct hfield hsize
    · rw [hstruct] at hty
      cases hty
  · cases haccess
    rw [Access.follow_index_eq] at hfound
    obtain ⟨start, hstart, hfound⟩ := bind_eq_ok.mp hfound
    obtain ⟨index, hindex, hfound⟩ := bind_eq_ok.mp hfound
    rw [Index.value] at hindex
    cases hindex
    cases harray : whole.ty with
    | array elem length =>
      rw [harray] at hstart
      cases hstart
      obtain ⟨_, hchecked, hfound⟩ := bind_eq_ok.mp hfound
      obtain ⟨width, hwidth, hfound⟩ := bind_eq_ok.mp hfound
      cases hfound
      cases hwidth.symm.trans hsize
      exact .element harray (gives_checkIndex.value hchecked) hsize
    | pointer target => cases harray ▸ hty
    | slice elem => cases harray ▸ hty
    | _ =>
      rw [harray] at hstart
      cases hstart
      cases hfound

/-- An operand that goes on by a field or an element leads to that part, if the value has it. -/
theorem Operand.PartOf.place_of_part (h : p.PartOf o access') (hpacked : t.Packed)
    (hgrows : l.structs.Grows t) (haccess : l.linkAccess whole.ty access = .ok access')
    (hpart : whole.Part t access part) (hwhole : o.place t a fp = .ok whole) :
    p.place t a fp = .ok part := by
  rw [h.place_eq hwhole]
  cases hpart with
  | @field struct name field size hty hfield hsize =>
    obtain ⟨struct', field', hstruct, hfield', hfollow⟩ := follow_linkedField hpacked hgrows haccess
    rw [hty] at hstruct
    obtain rfl : struct = struct' := by simpa using hstruct
    cases hfield.symm.trans hfield'
    have hfound : access'.follow t a fp o.name whole.offset whole.ty =
        .ok (whole.offset + field.offset, field.ty) := by
      rw [hfollow, hty]
      rfl
    exact bind_eq_ok.mpr ⟨_, hfound, bind_eq_ok.mpr ⟨size, hsize, rfl⟩⟩
  | @element elem length i size hty hindex hsize =>
    cases haccess
    have hchecked : checkIndex i length.toNat = .ok () := by
      rw [checkIndex, if_neg (by omega)]
    have hfound : (Access.index (.const i)).follow t a fp o.name whole.offset whole.ty =
        .ok (whole.offset + i.toNat * size, elem) := by
      rw [Access.follow_index_eq, hty]
      refine bind_eq_ok.mpr ⟨_, rfl, bind_eq_ok.mpr ⟨i, ?_, bind_eq_ok.mpr ⟨(), hchecked, ?_⟩⟩⟩
      · rw [Index.value]
      · exact bind_eq_ok.mpr ⟨size, hsize, rfl⟩
    exact bind_eq_ok.mpr ⟨_, hfound, bind_eq_ok.mpr ⟨size, hsize, rfl⟩⟩

end Parts

end FlatMachine
