import FlatMachine.Proofs.DataSegment
import FlatMachine.Proofs.Statements

/-!
# Arguments by reference

An operand that is passed by reference leaves its address with the callee. From there on a chain
leads where it would have led the caller: following it depends on the place and type it starts from
and on the values of its indexes, not on the frame or on the symbol, except that a nil pointer is
reported under the name of the symbol.
-/

namespace FlatMachine

/-- The same value, or the same error, but that a nil pointer may be reported under another name. -/
inductive SameUpToName {α : Type} : Except Error α → Except Error α → Prop where
  | same (r : Except Error α) : SameUpToName r r
  | nilPointer (name name' : String) :
      SameUpToName (.error (.nullPointer name)) (.error (.nullPointer name'))

/-- The same step in the frame at `fp` as in that at `fp'`: an index may be another operand there,
of the same value. -/
inductive Access.Alike (t : StructTable) (a : Arena) (fp fp' : Nat) : Access → Access → Prop where
  | pointer : Alike t a fp fp' .pointer .pointer
  | index {source source' : Index} (h : source'.value t a fp' = source.value t a fp) :
      Alike t a fp fp' (.index source) (.index source')
  | field (ref : FieldRef) : Alike t a fp fp' (.field ref) (.field ref)

section Chains

variable {α β : Type} {t : StructTable} {a : Arena} {fp fp' offset : Nat} {name name' : String}
  {ty : Ty} {access access' : Access} {chain chain' : List Access}

namespace SameUpToName

theorem bind {r r' : Except Error α} {f g : α → Except Error β} (h : SameUpToName r r')
    (hf : ∀ x, SameUpToName (f x) (g x)) : SameUpToName (r >>= f) (r' >>= g) := by
  cases h with
  | same =>
    cases r with
    | ok x => exact hf x
    | error e => exact .same _
  | nilPointer => exact .nilPointer _ _

theorem eq_ok {x : α} {r : Except Error α} (h : SameUpToName (.ok x) r) : r = .ok x := by
  cases h
  rfl

end SameUpToName

theorem Arena.sameUpToName_follow :
    SameUpToName (a.follow name offset) (a.follow name' offset) := by
  apply SameUpToName.bind (.same _)
  intro handle
  by_cases hnil : handle = nilHandle
  · rw [if_pos hnil, if_pos hnil]
    exact .nilPointer name name'
  · rw [if_neg hnil, if_neg hnil]
    exact .same _

theorem Arena.sameUpToName_implicit :
    SameUpToName (a.implicit name offset ty) (a.implicit name' offset ty) := by
  cases ty with
  | pointer target => exact sameUpToName_follow.bind fun _ => .same _
  | _ => exact .same _

theorem Access.Alike.follow (h : access.Alike t a fp fp' access') :
    SameUpToName (access.follow t a fp name offset ty)
      (access'.follow t a fp' name' offset ty) := by
  cases h with
  | pointer =>
    unfold Access.follow
    cases ty with
    | pointer target => exact Arena.sameUpToName_follow.bind fun _ => .same _
    | _ => exact .same _
  | index hindex =>
    rw [Access.follow_index_eq, Access.follow_index_eq, hindex]
    exact Arena.sameUpToName_implicit.bind fun _ => .same _
  | field ref =>
    by_cases hstruct : ∃ struct, ty = .struct struct ∨ ty = .pointer (.struct struct)
    · obtain ⟨struct, hty⟩ := hstruct
      rw [Access.follow_field_eq hty, Access.follow_field_eq hty]
      exact Arena.sameUpToName_implicit.bind fun _ => .same _
    · unfold Access.follow
      cases ty with
      | struct struct => exact absurd ⟨struct, .inl rfl⟩ hstruct
      | pointer target =>
        cases target with
        | struct struct => exact absurd ⟨struct, .inr rfl⟩ hstruct
        | _ => exact .same _
      | _ => exact .same _

theorem followChain_alike (h : List.Forall₂ (Access.Alike t a fp fp') chain chain') :
    SameUpToName (followChain t a fp name offset ty chain)
      (followChain t a fp' name' offset ty chain') := by
  induction h generalizing offset ty with
  | nil => exact .same _
  | cons haccess _ ih =>
    unfold followChain
    exact haccess.follow.bind fun _ => ih

end Chains

/-- The chain starts by an access that follows a pointer to the type by itself: to a field of a
struct, or to an element of an array or slice. -/
def Ty.FollowsBy : Ty → List Access → Prop
  | .struct _, .field _ :: _ | .array .., .index _ :: _ | .slice _, .index _ :: _ => True
  | _, _ => False

/-- The slot of the parameter `p` in the frame at `fp'` holds the address of the place that `o`
leads to in the frame at `fp`, as it is stored when `o` is passed by reference. -/
structure Operand.RefersTo (t : StructTable) (a : Arena) (fp fp' : Nat) (p o : Operand)
    (place : Place) : Prop where
  place_eq : o.place t a fp = .ok place
  offset_pos : nilHandle < place.offset
  ty_eq : p.ty = .pointer place.ty
  holds : ∃ slot address, p.storage.start fp' p.name = .ok slot ∧
    { o with byReference := true }.bytes t a fp = .ok address ∧
      a.read slot address.length = .ok address

namespace Operand.RefersTo

variable {t : StructTable} {a : Arena} {fp fp' : Nat} {p o : Operand} {place : Place}
  {chain chain' : List Access}

/-- The parameter is followed to the place of the operand. -/
theorem follow_eq (h : p.RefersTo t a fp fp' o place) :
    ∃ slot, p.storage.start fp' p.name = .ok slot ∧ a.follow p.name slot = .ok place.offset := by
  obtain ⟨slot, address, hslot, haddress, hread⟩ := h.holds
  obtain ⟨place', hplace, haddress⟩ := bind_eq_ok.mp haddress
  have hsame : { o with byReference := true }.place t a fp = o.place t a fp := by
    rw [Operand.place_eq, Operand.place_eq]
  cases (hsame.symm.trans hplace).symm.trans h.place_eq
  have haddress : encodeHandle place.offset = .ok address := haddress
  have hhandle := Arena.readHandle_of_encodeHandle haddress hread
  refine ⟨slot, hslot, bind_eq_ok.mpr ⟨_, hhandle, ?_⟩⟩
  rw [if_neg (Nat.ne_of_gt h.offset_pos)]
  rfl

/-- Where the parameter leads once the pointer has been followed. -/
theorem place_pointer (h : p.RefersTo t a fp fp' o place) (chain : List Access) :
    { p with chain := .pointer :: chain }.place t a fp' =
      followChain t a fp' p.name place.offset place.ty chain >>= fun found =>
        found.2.size t >>= fun size => return ⟨found.1, found.2, size⟩ := by
  obtain ⟨slot, hslot, hfollow⟩ := h.follow_eq
  have hstep : Access.pointer.follow t a fp' p.name slot p.ty = .ok (place.offset, place.ty) := by
    rw [h.ty_eq, Access.follow, hfollow]
    rfl
  rw [Operand.place_eq]
  change p.storage.start fp' p.name >>= _ = _
  rw [hslot]
  change followChain t a fp' p.name slot p.ty (.pointer :: chain) >>= _ = _
  rw [followChain, hstep]
  rfl

/-- An access that follows pointers by itself needs no step for it. -/
theorem place_implicit (h : p.RefersTo t a fp fp' o place) (hstart : place.ty.FollowsBy chain) :
    { p with chain }.place t a fp' = { p with chain := .pointer :: chain }.place t a fp' := by
  obtain ⟨slot, hslot, hfollow⟩ := h.follow_eq
  have himplicit : a.implicit p.name slot p.ty = .ok (place.offset, place.ty) := by
    rw [h.ty_eq, Arena.implicit, hfollow]
    rfl
  rw [h.place_pointer, Operand.place_eq]
  change p.storage.start fp' p.name >>= _ = _
  rw [hslot]
  change followChain t a fp' p.name slot p.ty chain >>= _ = _
  congr 1
  unfold Ty.FollowsBy at hstart
  split at hstart
  · rename_i hty
    unfold followChain
    rw [Access.follow_field_eq (.inr (h.ty_eq.trans (congrArg _ hty))), himplicit,
      Access.follow_field_eq (.inl hty), hty]
    rfl
  · rename_i hty
    unfold followChain
    rw [Access.follow_index_eq, himplicit, Access.follow_index_eq, hty]
    rfl
  · rename_i hty
    unfold followChain
    rw [Access.follow_index_eq, himplicit, Access.follow_index_eq, hty]
    rfl
  · exact hstart.elim

end Operand.RefersTo

/-- A parameter that holds the address of a variable stands for the variable: the pointer step and
a chain lead from the parameter to where the same chain leads from the variable, or fail for the
same cause, and the step may be left out where the chain follows pointers by itself. -/
theorem place_through_parameter {t : StructTable} {a : Arena} {fp fp' : Nat} {p o : Operand}
    {place : Place} {chain chain' : List Access} (h : p.RefersTo t a fp fp' o place)
    (hchains : List.Forall₂ (Access.Alike t a fp fp') chain chain') :
    SameUpToName ({ o with chain := o.chain ++ chain }.place t a fp)
        ({ p with chain := .pointer :: chain' }.place t a fp') ∧
      (place.ty.FollowsBy chain' → SameUpToName
        ({ o with chain := o.chain ++ chain }.place t a fp)
        ({ p with chain := chain' }.place t a fp')) := by
  have hexplicit : SameUpToName ({ o with chain := o.chain ++ chain }.place t a fp)
      ({ p with chain := .pointer :: chain' }.place t a fp') := by
    rw [Operand.place_append h.place_eq, h.place_pointer]
    exact (followChain_alike hchains).bind fun _ => .same _
  refine ⟨hexplicit, fun hstart => ?_⟩
  rw [h.place_implicit hstart]
  exact hexplicit

/-- The tags of the item that `x` points to. -/
def itemTags : Operand :=
  { name := "x", ty := .pointer (.struct "Item"), storage := .frame 0
    chain := [.field { name := "tags" }] }

/-- A parameter for tags by reference. -/
def tagsParameter : Operand :=
  { name := "tags", ty := .pointer (.slice .i64), storage := .frame 0 }

/-- The caller's frame is at 8 and the callee's at 16. `x` points to the item at 24, whose two tags
are in the object at 32; the caller's `i` and the callee's `j` are 1. -/
def referenceArena : Arena where
  image := #[0, 0, 0, 0, 0, 0, 0, 0, 24, 0, 0, 0, 1, 0, 0, 0, 28, 0, 0, 0, 1, 0, 0, 0,
    9, 0, 0, 0, 32, 0, 0, 0, 2, 0, 0, 0, 0, 0, 0, 0, 0, 0, 0, 0, 0, 0, 0, 0, 0, 0, 0, 0]
  stackStart := 8
  stackEnd := 24
  capacity := 64
  limit := 64

theorem place_through_tagsParameter :
    let i : Access := .index (.operand { name := "i", ty := .u8, storage := .frame 4 })
    let j : Access := .index (.operand { name := "j", ty := .i32, storage := .frame 4 })
    { itemTags with chain := itemTags.chain ++ [i] }.place itemStructs referenceArena 8 =
        .ok ⟨44, .i64, 8⟩ ∧
      { tagsParameter with chain := [.pointer, j] }.place itemStructs referenceArena 16 =
        .ok ⟨44, .i64, 8⟩ ∧
      { tagsParameter with chain := [j] }.place itemStructs referenceArena 16 =
        .ok ⟨44, .i64, 8⟩ := by
  intro i j
  have hrefers : tagsParameter.RefersTo itemStructs referenceArena 8 16 itemTags
      ⟨28, .slice .i64, 4⟩ :=
    { place_eq := rfl
      offset_pos := by decide
      ty_eq := rfl
      holds := ⟨16, [28, 0, 0, 0], rfl, rfl, rfl⟩ }
  have halike : Access.Alike itemStructs referenceArena 8 16 i j := .index rfl
  have hplace : { itemTags with chain := itemTags.chain ++ [i] }.place itemStructs
      referenceArena 8 = .ok ⟨44, .i64, 8⟩ := rfl
  obtain ⟨hexplicit, himplicit⟩ := place_through_parameter hrefers (.cons halike .nil)
  rw [hplace] at hexplicit himplicit
  exact ⟨hplace, hexplicit.eq_ok, (himplicit trivial).eq_ok⟩

end FlatMachine
