import FlatMachine.Proofs.Place

/-!
# The three walks along a chain

A chain is walked three times: statically for its type, once more to link its field accesses, and
at run time for the place it leads to. All three follow slices and pointers implicitly and take the
same steps, so the static type is that of the place, and links change no place.
-/

namespace FlatMachine

variable {t : StructTable} {a : Arena} {fp offset : Nat} {name struct : String} {ty elem : Ty}
  {ref : FieldRef} {source : Index} {access : Access} {chain : List Access} {o : Operand}
  {found : Nat × Ty}

section Static

/-- What a pointer points to; another type is followed as it is. -/
def Ty.pointee : Ty → Ty
  | pointer target => target
  | ty => ty

theorem Arena.pointee_of_implicit (h : a.implicit name offset ty = .ok found) :
    found.2 = ty.pointee := by
  unfold implicit at h
  split at h
  · obtain ⟨handle, -, h⟩ := bind_eq_ok.mp h
    cases h
    rfl
  · rename_i hne
    cases h
    unfold Ty.pointee
    split
    · exact absurd rfl (hne _)
    · rfl

theorem Arena.element?_of_element {index : Int} (h : a.element t offset index ty = .ok found) :
    ty.element? = some found.2 := by
  unfold element at h
  split at h
  · obtain ⟨-, -, h⟩ := bind_eq_ok.mp h
    obtain ⟨size, -, h⟩ := bind_eq_ok.mp h
    cases h
    rfl
  · obtain ⟨handle, -, h⟩ := bind_eq_ok.mp h
    obtain ⟨length, -, h⟩ := bind_eq_ok.mp h
    obtain ⟨-, -, h⟩ := bind_eq_ok.mp h
    obtain ⟨size, -, h⟩ := bind_eq_ok.mp h
    cases h
    rfl
  · cases h

theorem Ty.step_index (h : ty.pointee.element? = some elem) :
    ty.step t (.index source) = .ok elem := by
  cases ty with
  | pointer target =>
    change target.element? = some elem at h
    simp only [step, h]
  | _ =>
    cases h
    try rfl

/-- The distance and type of the field that an access names in a struct. -/
def FieldRef.target (t : StructTable) (struct : String) (ref : FieldRef) :
    Except Error (Nat × Ty) :=
  if ref.ty.isDefined then .ok (ref.offset, ref.ty)
  else do
    let field ← t.field struct ref.name
    return (field.offset, field.ty)

theorem Access.follow_field_eq (hty : ty = .struct struct ∨ ty = .pointer (.struct struct)) :
    (Access.field ref).follow t a fp name offset ty = a.implicit name offset ty >>= fun start =>
      ref.target t struct >>= fun field => return (start.1 + field.1, field.2) := by
  rcases hty with rfl | rfl
  · unfold Access.follow FieldRef.target
    simp only [Arena.implicit, pure_bind]
    split
    · rfl
    · simp only [bind_assoc, pure_bind]
  · unfold Access.follow FieldRef.target
    simp only [Arena.implicit, bind_assoc, pure_bind]
    split
    · rfl
    · simp only [bind_assoc, pure_bind]

theorem Access.struct_of_follow_field
    (h : (Access.field ref).follow t a fp name offset ty = .ok found) :
    ∃ struct, ty = .struct struct ∨ ty = .pointer (.struct struct) := by
  unfold Access.follow at h
  cases ty with
  | struct struct => exact ⟨struct, .inl rfl⟩
  | pointer target =>
    cases target with
    | struct struct => exact ⟨struct, .inr rfl⟩
    | _ => cases h
  | _ => cases h

theorem Ty.step_field (hty : ty = .struct struct ∨ ty = .pointer (.struct struct)) :
    ty.step t (.field ref) = (·.ty) <$> t.field struct ref.name := by
  rcases hty with rfl | rfl <;> exact (map_eq_pure_bind ..).symm

/-- The access is not linked. -/
def Access.IsUnlinked : Access → Prop
  | .field ref => ref.ty = .undefined
  | .pointer | .index _ => True

/-- Where an access leads, the static step goes too. -/
theorem Access.step_of_follow (hunlinked : access.IsUnlinked)
    (h : access.follow t a fp name offset ty = .ok found) :
    ty.step t access = .ok found.2 := by
  match access with
  | .pointer =>
    unfold follow at h
    cases ty with
    | pointer target =>
      obtain ⟨handle, -, h⟩ := bind_eq_ok.mp h
      cases h
      rfl
    | _ => cases h
  | .index source =>
    rw [follow_index_eq] at h
    obtain ⟨start, hstart, h⟩ := bind_eq_ok.mp h
    obtain ⟨index, -, h⟩ := bind_eq_ok.mp h
    apply Ty.step_index
    rw [← Arena.pointee_of_implicit hstart]
    exact Arena.element?_of_element h
  | .field ref =>
    obtain ⟨struct, hty⟩ := struct_of_follow_field h
    rw [follow_field_eq hty] at h
    obtain ⟨start, -, h⟩ := bind_eq_ok.mp h
    obtain ⟨field, hfield, h⟩ := bind_eq_ok.mp h
    cases h
    have hundefined : ¬ ref.ty.isDefined = true := by
      rw [show ref.ty = .undefined from hunlinked]
      exact Bool.false_ne_true
    rw [FieldRef.target, if_neg hundefined] at hfield
    obtain ⟨f, hf, hfield⟩ := bind_eq_ok.mp hfield
    cases hfield
    rw [Ty.step_field hty, hf]
    rfl

theorem chainTy_of_followChain (hunlinked : ∀ access ∈ chain, access.IsUnlinked)
    (h : followChain t a fp name offset ty chain = .ok found) :
    Operand.chainTy t ty chain = .ok found.2 := by
  induction chain generalizing offset ty with
  | nil =>
    cases h
    rfl
  | cons access rest ih =>
    obtain ⟨next, hnext, h⟩ := bind_eq_ok.mp h
    have hstep := Access.step_of_follow (hunlinked access List.mem_cons_self) hnext
    have hrest := ih (fun access hmem => hunlinked access (List.mem_cons_of_mem _ hmem)) h
    exact bind_eq_ok.mpr ⟨next.2, hstep, hrest⟩

theorem valueTy_of_place {place : Place} (hunlinked : ∀ access ∈ o.chain, access.IsUnlinked)
    (h : o.place t a fp = .ok place) :
    o.valueTy t = .ok place.ty ∧ place.ty.size t = .ok place.size := by
  rw [Operand.place_eq] at h
  obtain ⟨start, -, h⟩ := bind_eq_ok.mp h
  obtain ⟨found, hfound, h⟩ := bind_eq_ok.mp h
  obtain ⟨size, hsize, h⟩ := bind_eq_ok.mp h
  cases h
  exact ⟨chainTy_of_followChain hunlinked hfound, hsize⟩

end Static

section Linking

/-- An operand with storage whose field accesses are not linked. -/
structure Operand.IsUnlinked (o : Operand) : Prop where
  assigned : o.storage ≠ .unassigned
  chain : ∀ access ∈ o.chain, access.IsUnlinked

variable {l : FrameLayout} {u : StructTable} {access' : Access} {next : Ty}

/-- The type of a field is defined, so a link is told from a field that is not linked. -/
theorem StructTable.Packed.isDefined_field {key : String} {field : Field} (h : t.Packed)
    (hfield : t.field struct key = .ok field) : field.ty.isDefined = true := by
  obtain ⟨total, size, -, hsize, -⟩ := h.field hfield
  cases hty : field.ty with
  | undefined =>
    rw [hty] at hsize
    cases hsize
  | _ => rfl

theorem follow_linkField (hpacked : l.structs.Packed) (hgrows : l.structs.Grows u)
    (hunlinked : (Access.field ref).IsUnlinked)
    (h : l.linkAccess ty (.field ref) = .ok access') :
    access'.follow u a fp name offset ty = (Access.field ref).follow u a fp name offset ty := by
  obtain ⟨struct, hstruct, h⟩ := bind_eq_ok.mp h
  obtain ⟨field, hfield, h⟩ := bind_eq_ok.mp h
  cases h
  have hty := FrameLayout.structOf_eq_ok hstruct
  have hlinked : FieldRef.target u struct ⟨ref.name, field.offset, field.ty⟩ =
      .ok (field.offset, field.ty) := if_pos (hpacked.isDefined_field hfield)
  have hfound : ref.target u struct = .ok (field.offset, field.ty) := by
    have hundefined : ref.ty = .undefined := hunlinked
    rw [FieldRef.target, hundefined, hgrows.field hfield]
    rfl
  rw [Access.follow_field_eq hty, Access.follow_field_eq hty, hlinked, hfound]

theorem Ty.step_linkAccess (h : l.linkAccess ty access = .ok access') :
    ty.step t access' = ty.step t access := by
  match access with
  | .pointer =>
    cases h
    rfl
  | .index source =>
    obtain ⟨source', -, h⟩ := bind_eq_ok.mp h
    cases h
    cases ty <;> rfl
  | .field ref =>
    obtain ⟨struct, hstruct, h⟩ := bind_eq_ok.mp h
    obtain ⟨field, -, h⟩ := bind_eq_ok.mp h
    cases h
    have hty := FrameLayout.structOf_eq_ok hstruct
    rw [step_field hty, step_field hty]

mutual

/-- Binding moves no operand: it leads to the same place or fails in the same way. -/
theorem place_bind (hpacked : l.structs.Packed) (hgrows : l.structs.Grows u) :
    (o : Operand) → (∀ p ∈ o.nested, p.IsUnlinked) → {bound : Operand} → l.bind o = .ok bound →
      bound.place u a fp = o.place u a fp
  | { name, ty, storage, chain, byReference, escapes, literalPointer, structName, declared,
      shortDeclared, location, package }, ho, bound, h => by
    rw [FrameLayout.bind_eq] at h
    obtain ⟨origin, horigin, h⟩ := bind_eq_ok.mp h
    obtain ⟨chain', hchain, h⟩ := bind_eq_ok.mp h
    cases h
    have hself := ho _ (Operand.mem_nested _)
    rw [FrameLayout.origin, if_neg hself.assigned] at horigin
    cases horigin
    rw [Operand.place_eq, Operand.place_eq]
    apply bind_congr
    intro start
    have hrest : ∀ p ∈ nestedInChain chain, p.IsUnlinked := by
      intro p hp
      apply ho
      rw [Operand.nested_eq]
      exact List.mem_cons_of_mem _ hp
    exact congrArg (· >>= _) (followChain_link hpacked hgrows chain hself.chain hrest hchain)

theorem followChain_link (hpacked : l.structs.Packed) (hgrows : l.structs.Grows u) :
    (chain : List Access) → (∀ access ∈ chain, access.IsUnlinked) →
      (∀ p ∈ nestedInChain chain, p.IsUnlinked) → {ty : Ty} → {chain' : List Access} →
      l.linkChain ty chain = .ok chain' → {name : String} → {offset : Nat} →
      followChain u a fp name offset ty chain' = followChain u a fp name offset ty chain
  | [], _, _, ty, chain', h, name, offset => by
    cases h
    rfl
  | access :: rest, hchain, hnested, ty, chain', h, name, offset => by
    obtain ⟨access', haccess, h⟩ := bind_eq_ok.mp h
    obtain ⟨next, hnext, h⟩ := bind_eq_ok.mp h
    obtain ⟨rest', hrest, h⟩ := bind_eq_ok.mp h
    cases h
    have hhead := hchain access List.mem_cons_self
    have hfollow : access'.follow u a fp name offset ty = access.follow u a fp name offset ty :=
      follow_linkAccess hpacked hgrows access hhead
        (fun p hp => hnested p (List.mem_append_left _ hp)) haccess
    change access'.follow u a fp name offset ty >>= _ = access.follow u a fp name offset ty >>= _
    rw [hfollow]
    cases hfound : access.follow u a fp name offset ty with
    | error e => rfl
    | ok found =>
      have hstep := Access.step_of_follow hhead hfound
      rw [Ty.step_linkAccess haccess] at hnext
      cases hstep.symm.trans (hgrows.step hnext)
      exact followChain_link hpacked hgrows rest
        (fun access hmem => hchain access (List.mem_cons_of_mem _ hmem))
        (fun p hp => hnested p (List.mem_append_right _ hp)) hrest

theorem follow_linkAccess (hpacked : l.structs.Packed) (hgrows : l.structs.Grows u) :
    (access : Access) → access.IsUnlinked → (∀ p ∈ access.nested, p.IsUnlinked) → {ty : Ty} →
      {access' : Access} → l.linkAccess ty access = .ok access' → {name : String} →
      {offset : Nat} →
      access'.follow u a fp name offset ty = access.follow u a fp name offset ty
  | .pointer, _, _, ty, access', h, name, offset => by
    cases h
    rfl
  | .index source, _, hnested, ty, access', h, name, offset => by
    obtain ⟨source', hsource, h⟩ := bind_eq_ok.mp h
    cases h
    rw [Access.follow_index_eq, Access.follow_index_eq,
      value_bindIndex hpacked hgrows source hnested hsource]
  | .field ref, hunlinked, _, ty, access', h, name, offset =>
    follow_linkField hpacked hgrows hunlinked h

theorem value_bindIndex (hpacked : l.structs.Packed) (hgrows : l.structs.Grows u) :
    (source : Index) → (∀ p ∈ source.nested, p.IsUnlinked) → {source' : Index} →
      l.bindIndex source = .ok source' → source'.value u a fp = source.value u a fp
  | .const n, _, source', h => by
    cases h
    rfl
  | .operand source, hnested, source', h => by
    obtain ⟨bound, hbound, h⟩ := bind_eq_ok.mp h
    obtain ⟨ty, -, h⟩ := bind_eq_ok.mp h
    split at h
    · cases h
      have hplace : bound.place u a fp = source.place u a fp :=
        place_bind hpacked hgrows source hnested hbound
      unfold Index.value
      rw [hplace]
    · cases h

end

end Linking

/-- The walks agree: a place has the type that the static walk finds and the size of that type,
there is none where the static walk fails, and a linked chain leads where the chain led before it
was linked, also after the struct table has grown. -/
theorem walks_agree (ho : ∀ p ∈ o.nested, p.IsUnlinked) :
    (∀ place, o.place t a fp = .ok place →
      o.valueTy t = .ok place.ty ∧ place.ty.size t = .ok place.size) ∧
    (∀ e, o.valueTy t = .error e → ∃ e', o.place t a fp = .error e') ∧
    (∀ l : FrameLayout, StructTable.empty.Grows l.structs → l.structs.Grows t →
      ∀ chain, l.linkChain o.ty o.chain = .ok chain →
        { o with chain }.place t a fp = o.place t a fp) := by
  have hself := ho o o.mem_nested
  refine ⟨fun place => valueTy_of_place hself.chain, fun e he => ?_, fun l hbuilt hgrows => ?_⟩
  · cases hplace : o.place t a fp with
    | error e' => exact ⟨e', rfl⟩
    | ok place =>
      obtain ⟨hty, -⟩ := valueTy_of_place hself.chain hplace
      cases he.symm.trans hty
  · intro chain hchain
    have hnested : ∀ p ∈ nestedInChain o.chain, p.IsUnlinked := by
      intro p hp
      apply ho
      rw [Operand.nested_eq]
      exact List.mem_cons_of_mem _ hp
    rw [Operand.place_eq, Operand.place_eq]
    apply bind_congr
    intro start
    exact congrArg (· >>= _)
      (followChain_link hbuilt.packed hgrows o.chain hself.chain hnested hchain)

/-- Items with an identifier and a slice of tags. -/
def itemStructs : StructTable :=
  ⟨[⟨"Item", [⟨"id", .i32, 0⟩, ⟨"tags", .slice .i64, 4⟩], 8⟩]⟩

/-- The tag with the number that `i` holds, of the item that `x` points to. -/
def itemTag : Operand :=
  { name := "x", ty := .pointer (.struct "Item"), storage := .frame 0
    chain := [.field { name := "tags" },
      .index (.operand { name := "i", ty := .u8, storage := .frame 4 })] }

/-- An item at 16 with two tags in the object at 24; `i` is 1. -/
def itemArena : Arena where
  image := #[0, 0, 0, 0, 0, 0, 0, 0, 16, 0, 0, 0, 1, 0, 0, 0, 9, 0, 0, 0, 24, 0, 0, 0,
    2, 0, 0, 0, 0, 0, 0, 0, 0, 0, 0, 0, 0, 0, 0, 0, 0, 0, 0, 0]
  stackStart := 8
  stackEnd := 16
  capacity := 64
  limit := 64

theorem walks_agree_itemTag : ∃ chain,
    let l : FrameLayout := { package := "main", draft := { structs := itemStructs } }
    l.linkChain itemTag.ty itemTag.chain = .ok chain ∧
      itemTag.valueTy itemStructs = .ok .i64 ∧ Ty.i64.size itemStructs = .ok 8 ∧
      { itemTag with chain }.place itemStructs itemArena 8 = .ok ⟨36, .i64, 8⟩ := by
  let l : FrameLayout := { package := "main", draft := { structs := itemStructs } }
  have hnested : ∀ p ∈ itemTag.nested, p.IsUnlinked := by
    intro p hp
    change p ∈ [itemTag, { name := "i", ty := .u8, storage := .frame 4 }] at hp
    simp only [List.mem_cons, List.not_mem_nil, or_false] at hp
    rcases hp with rfl | rfl
    · refine ⟨by decide, fun access haccess => ?_⟩
      simp only [itemTag, List.mem_cons, List.not_mem_nil, or_false] at haccess
      rcases haccess with rfl | rfl
      · rfl
      · trivial
    · exact ⟨by decide, fun access haccess => by cases haccess⟩
  have hplace : itemTag.place itemStructs itemArena 8 = .ok ⟨36, .i64, 8⟩ := rfl
  have hdefine : StructTable.empty.define "Item" [("id", .i32), ("tags", .slice .i64)] =
      .ok (⟨"Item", [⟨"id", .i32, 0⟩, ⟨"tags", .slice .i64, 4⟩], 8⟩, l.structs) := rfl
  obtain ⟨hstatic, -, hlinked⟩ := walks_agree hnested
  obtain ⟨hty, hsize⟩ := hstatic _ hplace
  exact ⟨_, rfl, hty, hsize, (hlinked l (.define .refl hdefine) .refl _ rfl).trans hplace⟩

end FlatMachine
