import FlatMachine.Proofs.Place
import FlatMachine.Proofs.Values

/-!
# Typed operands

An operand whose symbol has a sized type and whose chain is linked leads to a value of the type that
its chain ends with, whatever the memory holds: following it fails for nil handles, indexes out of
range and unallocated bytes only.
-/

namespace FlatMachine

/-- The type has a size, and so have the types of the values that its handles lead to. -/
def Ty.Sized (t : StructTable) : Ty → Prop
  | undefined => False
  | bool | int _ | float _ | str => True
  | array elem length => elem.Sized t ∧ ∃ size, (array elem length).size t = .ok size
  | slice elem => elem.Sized t
  | pointer target => target.Sized t
  | struct name => ∃ d, t.get name = .ok d

/-- The fields of every struct have sized types. -/
def StructTable.SizedFields (t : StructTable) : Prop :=
  ∀ d ∈ t.defs, ∀ f ∈ d.fields, f.ty.Sized t

theorem Ty.eq_int_of_isInteger {ty : Ty} (h : ty.isInteger = true) : ∃ kind, ty = .int kind := by
  cases ty <;> first | exact ⟨_, rfl⟩ | cases h

theorem Value.eq_int {v : Value} {kind : IntKind} (h : v.ty? = some (.int kind)) :
    ∃ word, v = .int kind word := by
  cases v <;> cases h
  exact ⟨_, rfl⟩

section Sized

variable {t : StructTable} {ty next : Ty} {access : Access} {chain : List Access}

theorem Ty.Sized.size (h : ty.Sized t) : ∃ size, ty.size t = .ok size := by
  cases ty with
  | undefined => exact h.elim
  | array elem length => exact h.2
  | struct name =>
    obtain ⟨d, hd⟩ := h
    exact ⟨d.size, bind_eq_ok.mpr ⟨d, hd, rfl⟩⟩
  | _ => exact ⟨_, rfl⟩

theorem Ty.Sized.isDefined (h : ty.Sized t) : ty.isDefined = true := by
  cases ty with
  | undefined => exact h.elim
  | _ => rfl

theorem StructTable.SizedFields.field {struct name : String} {f : Field} (h : t.SizedFields)
    (hf : t.field struct name = .ok f) : f.ty.Sized t := by
  obtain ⟨d, hget, hfind⟩ := field_eq_ok.mp hf
  have hd : d ∈ t.defs := List.mem_of_find?_eq_some (get_eq_ok.mp hget)
  exact h d hd f (List.mem_of_find?_eq_some hfind)

theorem Ty.Sized.step (hfields : t.SizedFields) (h : ty.Sized t)
    (hstep : ty.step t access = .ok next) : next.Sized t := by
  have hfield : ∀ {struct name : String},
      (t.field struct name >>= fun f => pure f.ty) = .ok next → next.Sized t := by
    intro struct name hty
    obtain ⟨f, hf, hty⟩ := bind_eq_ok.mp hty
    cases pure_eq_ok.mp hty
    exact hfields.field hf
  unfold Ty.step at hstep
  split at hstep
  · cases hstep
    exact h
  · cases hstep
  · cases hstep
    exact h.1
  · cases hstep
    exact h
  · rename_i target
    cases target with
    | array elem length =>
      cases hstep
      exact h.1
    | slice elem =>
      cases hstep
      exact h
    | _ => cases hstep
  · cases hstep
  · exact hfield hstep
  · exact hfield hstep
  · cases hstep

theorem Ty.Sized.chainTy (hfields : t.SizedFields) (h : ty.Sized t)
    (hchain : Operand.chainTy t ty chain = .ok next) : next.Sized t := by
  induction chain generalizing ty with
  | nil =>
    cases hchain
    exact h
  | cons access rest ih =>
    obtain ⟨middle, hmiddle, hrest⟩ := bind_eq_ok.mp hchain
    exact ih (h.step hfields hmiddle) hrest

end Sized

/-- The symbol of an operand has a place and a sized type, and its chain is linked. -/
structure Operand.Bound (t : StructTable) (o : Operand) : Prop where
  storage_ne : o.storage ≠ .unassigned
  sized : o.ty.Sized t
  linked : ChainLinked t o.ty o.chain

/-- The operand and those that its indexes hold are bound. -/
def Operand.Settled (t : StructTable) (o : Operand) : Prop := ∀ x ∈ o.nested, x.Bound t

section Places

variable {t : StructTable} {a : Arena} {fp : Nat}

theorem dynamic_start {storage : Storage} {name : String} (h : storage ≠ .unassigned) :
    Gives (storage.start fp name) (fun _ => True) Error.Dynamic := by
  cases storage with
  | unassigned => exact absurd rfl h
  | frame offset => trivial
  | global offset => trivial

theorem dynamic_follow {name : String} {offset : Nat} :
    Gives (a.follow name offset) (fun _ => True) Error.Dynamic := by
  simp only [Arena.follow, gives_bind, gives_ite, gives_error, gives_pure]
  exact Arena.dynamic_readHandle.imp fun _ _ => ⟨fun _ => trivial, fun _ => trivial⟩

theorem dynamic_checkIndex {index : Int} {length : Nat} :
    Gives (checkIndex index length) (fun _ => True) Error.Dynamic := by
  refine gives_checkIndex.mono (fun _ _ => trivial) ?_
  rintro _ rfl
  trivial

theorem implicit_typed {name : String} {offset : Nat} {ty next : Ty} {source : Index}
    (hstep : ty.step t (.index source) = .ok next) :
    Gives (a.implicit name offset ty)
      (fun start => start.2.element? = some next)
      Error.Dynamic := by
  cases ty with
  | pointer target =>
    simp only [Arena.implicit, gives_bind, gives_pure]
    apply dynamic_follow.imp
    intro _ _
    cases target with
    | array elem length =>
      cases hstep
      rfl
    | slice elem =>
      cases hstep
      rfl
    | _ => cases hstep
  | array elem length =>
    cases hstep
    rfl
  | slice elem =>
    cases hstep
    rfl
  | _ => cases hstep

theorem element_typed {offset : Nat} {index : Int} {ty elem : Ty} (hsized : elem.Sized t)
    (helem : ty.element? = some elem) :
    Gives (a.element t offset index ty) (fun found => found.2 = elem) Error.Dynamic := by
  obtain ⟨size, hsize⟩ := hsized.size
  cases ty with
  | array _ length =>
    cases helem
    simp only [Arena.element, gives_bind, gives_pure, hsize, gives_ok]
    exact dynamic_checkIndex.imp fun _ _ => trivial
  | slice _ =>
    cases helem
    simp only [Arena.element, gives_bind, gives_pure, hsize, gives_ok]
    apply Arena.dynamic_readHandle.imp
    intro handle _
    apply Arena.dynamic_objectLength.imp
    intro length _
    exact dynamic_checkIndex.imp fun _ _ => trivial
  | _ => cases helem

mutual

/-- An operand leads to a place of its value's type. -/
theorem Operand.gives_place (hfields : t.SizedFields) : (o : Operand) → o.Settled t →
    Gives (o.place t a fp)
      (fun place => o.valueTy t = .ok place.ty ∧ place.ty.size t = .ok place.size) Error.Dynamic
  | { name, ty, storage, chain, byReference, escapes, literalPointer, structName, declared,
      shortDeclared, location, package }, h => by
    obtain ⟨hself, hnested⟩ := List.forall_mem_cons.mp h
    rw [Operand.place_eq]
    simp only [gives_bind, gives_pure]
    apply (dynamic_start hself.storage_ne).imp
    intro start _
    apply (followChain_typed hfields chain hnested hself.sized hself.linked).imp
    rintro ⟨offset, ty'⟩ hty'
    obtain ⟨size, hsize⟩ := (hself.sized.chainTy hfields hty').size
    simp only [hsize, gives_ok]
    exact ⟨hty', trivial⟩

theorem followChain_typed (hfields : t.SizedFields) : (chain : List Access) →
    {offset : Nat} → {ty : Ty} → {name : String} → (∀ x ∈ nestedInChain chain, x.Bound t) →
      ty.Sized t → ChainLinked t ty chain →
        Gives (followChain t a fp name offset ty chain)
          (fun found => Operand.chainTy t ty chain = .ok found.2) Error.Dynamic
  | [], offset, ty, name, _, _, _ => rfl
  | access :: rest, offset, ty, name, h, hsized, hlinked => by
    obtain ⟨haccess, next, hnext, hrest⟩ := hlinked
    obtain ⟨hnested, hnested'⟩ := List.forall_mem_append.mp h
    unfold followChain
    simp only [gives_bind]
    apply (access_typed hfields access hnested hsized haccess hnext).imp
    intro found hfound
    obtain ⟨offset', ty'⟩ := found
    obtain rfl : ty' = next := hfound
    have hsized' := hsized.step hfields hnext
    apply (followChain_typed hfields rest hnested' hsized' hrest).imp
    intro _ hend
    exact bind_eq_ok.mpr ⟨_, hnext, hend⟩

theorem access_typed (hfields : t.SizedFields) : (access : Access) →
    {offset : Nat} → {ty next : Ty} → {name : String} → (∀ x ∈ access.nested, x.Bound t) →
      ty.Sized t → access.Linked t ty → ty.step t access = .ok next →
        Gives (access.follow t a fp name offset ty) (fun found => found.2 = next) Error.Dynamic
  | .pointer, offset, ty, next, name, _, _, _, hstep => by
    cases ty with
    | pointer target =>
      cases hstep
      simp only [Access.follow, gives_bind, gives_pure]
      exact dynamic_follow.imp fun _ _ => trivial
    | _ => cases hstep
  | .index source, offset, ty, next, name, h, hsized, hlinked, hstep => by
    rw [Access.follow_index_eq]
    simp only [gives_bind]
    apply (implicit_typed hstep).imp
    intro start hstart
    apply (index_typed hfields source h hlinked).imp
    intro index _
    exact element_typed (hsized.step hfields hstep) hstart
  | .field ref, offset, ty, next, name, _, _, hlinked, hstep => by
    obtain ⟨struct, field, hty, hfield, -, hrefTy⟩ := hlinked
    have hnext : ref.ty = next := by
      have hstep : (t.field struct ref.name >>= fun f => pure f.ty) = .ok next := by
        rcases hty with rfl | rfl <;> exact hstep
      obtain ⟨field', hfield', hnext⟩ := bind_eq_ok.mp hstep
      cases hfield.symm.trans hfield'
      rw [hrefTy]
      exact pure_eq_ok.mp hnext
    have hdefined : ref.ty.isDefined = true := hrefTy ▸ (hfields.field hfield).isDefined
    unfold Access.follow
    rcases hty with rfl | rfl
    · simp only [gives_bind, gives_pure, hdefined, if_true]
      exact hnext
    · simp only [gives_bind, gives_pure, hdefined, if_true]
      exact dynamic_follow.imp fun _ _ => hnext

theorem index_typed (hfields : t.SizedFields) : (source : Index) →
    {ty : Ty} → (∀ x ∈ source.nested, x.Bound t) →
    (Access.index source).Linked t ty →
      Gives (source.value t a fp) (fun _ => True) Error.Dynamic
  | .const n, _, _, _ => trivial
  | .operand source, _, h, ⟨sourceTy, hty, hint⟩ => by
    unfold Index.value
    simp only [gives_bind, gives_ite, gives_error]
    apply (Operand.gives_place hfields source h).imp
    intro place hplace
    obtain ⟨hplaceTy, hsize⟩ := hplace
    cases hty.symm.trans hplaceTy
    refine ⟨fun hnot => absurd hint (by simpa using hnot), fun _ => ?_⟩
    obtain ⟨kind, hkind⟩ := Ty.eq_int_of_isInteger hint
    rw [hkind] at hsize ⊢
    apply Arena.dynamic_read.imp
    intro bytes hlen
    have hword : (Ty.int kind).wordWidth? = some bytes.length := by
      rw [hlen, ← Except.ok.inj hsize, Ty.wordWidth?]
    apply (Ty.gives_decode_word hword).mono ?_ fun _ he => he.elim
    intro v hv
    obtain ⟨word, rfl⟩ := Value.eq_int (hv rfl)
    trivial

end

end Places

namespace Operand

variable {t : StructTable} {a : Arena} {fp : Nat} {o : Operand} {ty : Ty}

/-- The operand is settled, and its value has the type. -/
structure HasTy (t : StructTable) (o : Operand) (ty : Ty) : Prop where
  settled : o.Settled t
  valueTy_eq : o.valueTy t = .ok ty

/-- The type that an input has for its operator. -/
def inputTy (t : StructTable) (o : Operand) : Except Error Ty := do
  let ty ← o.valueTy t
  return if o.byReference then .pointer ty else ty

/-- The operand is settled, and as an input it has the type. -/
structure Supplies (t : StructTable) (o : Operand) (ty : Ty) : Prop where
  settled : o.Settled t
  inputTy_eq : o.inputTy t = .ok ty

theorem HasTy.sized (h : o.HasTy t ty) (hfields : t.SizedFields) : ty.Sized t :=
  (h.settled o o.mem_nested).sized.chainTy hfields h.valueTy_eq

theorem HasTy.gives_place (h : o.HasTy t ty) (hfields : t.SizedFields) :
    Gives (o.place t a fp) (fun place => place.ty = ty ∧ ty.size t = .ok place.size)
      Error.Dynamic := by
  apply (Operand.gives_place hfields o h.settled).imp
  intro place hplace
  obtain ⟨hty, hsize⟩ := hplace
  cases h.valueTy_eq.symm.trans hty
  exact ⟨rfl, hsize⟩

/-- What an input of a type is: a value of it, or a place whose address it is. -/
theorem Supplies.cases (h : o.Supplies t ty) :
    (o.byReference = false ∧ o.HasTy t ty) ∨
      o.byReference = true ∧ ∃ target, o.HasTy t target ∧ ty = .pointer target := by
  obtain ⟨valueTy, hvalue, hty⟩ := bind_eq_ok.mp h.inputTy_eq
  cases hreference : o.byReference with
  | false =>
    rw [hreference] at hty
    cases pure_eq_ok.mp hty
    exact .inl ⟨rfl, h.settled, hvalue⟩
  | true =>
    rw [hreference] at hty
    cases pure_eq_ok.mp hty
    exact .inr ⟨rfl, valueTy, ⟨h.settled, hvalue⟩, rfl⟩

theorem Supplies.gives_bytes (h : o.Supplies t ty) (hfields : t.SizedFields) :
    Gives (o.bytes t a fp) (fun bytes => ty.size t = .ok bytes.length) Error.Dynamic := by
  simp only [bytes, gives_bind, gives_ite]
  rcases h.cases with ⟨hvalue, hty⟩ | ⟨hreference, target, hty, rfl⟩
  · apply (hty.gives_place hfields).imp
    intro place hplace
    refine ⟨fun hreference => absurd hreference (by simp [hvalue]), fun _ => ?_⟩
    apply Arena.dynamic_read.imp
    intro bytes hlen
    rw [hlen]
    exact hplace.2
  · apply (hty.gives_place hfields).imp
    intro place _
    refine ⟨fun _ => ?_, fun hvalue => absurd hreference hvalue⟩
    apply Arena.dynamic_encodeHandle.imp
    intro bytes hlen
    rw [hlen]
    rfl

/-- The value of an input that is a truth value. -/
theorem Supplies.gives_bool (h : o.Supplies t .bool) (hfields : t.SizedFields) :
    Gives (o.value t a fp) (fun v => ∃ b, v = .bool b) Error.Dynamic := by
  rcases h.cases with ⟨-, hty⟩ | ⟨-, target, -, hpointer⟩
  · simp only [value, gives_bind]
    apply (hty.gives_place hfields).imp
    intro place hplace
    obtain ⟨hplaceTy, hsize⟩ := hplace
    simp only [hplaceTy, gives_bind]
    apply Arena.dynamic_read.imp
    intro bytes hlen
    have hword : Ty.bool.wordWidth? = some bytes.length := by
      rw [hlen, ← Except.ok.inj hsize, Ty.wordWidth?]
    apply (Ty.gives_decode_word hword).mono ?_ fun _ he => he.elim
    intro v hv
    have hbool := hv rfl
    cases v <;> cases hbool
    exact ⟨_, rfl⟩
  · cases hpointer

end Operand

end FlatMachine
