import FlatMachine.Lowering.FrameLayout
import FlatMachine.Proofs.StructTable

/-!
# Bound operands

Binding goes through an operand and the operands that its indexes hold. `nested` lists them all, and
`Binds` says what binding makes of each: the storage and type of its symbol, and a chain that can be
followed from there in the struct table of the layout and in every table that grows from it.
-/

namespace FlatMachine

mutual

/-- The operand and those that its indexes hold, at any depth. -/
def Operand.nested : Operand → List Operand
  | { name, ty, storage, chain, byReference, escapes, literalPointer, structName, declared,
      shortDeclared, location, package } =>
    { name, ty, storage, chain, byReference, escapes, literalPointer, structName, declared,
      shortDeclared, location, package } :: nestedInChain chain

/-- The operands that the indexes of a chain hold. -/
def nestedInChain : List Access → List Operand
  | [] => []
  | access :: rest => access.nested ++ nestedInChain rest

/-- The operands that an access holds. -/
def Access.nested : Access → List Operand
  | .index source => source.nested
  | .pointer | .field _ => []

/-- The operands that an index holds. -/
def Index.nested : Index → List Operand
  | .const _ => []
  | .operand source => source.nested

end

theorem Operand.nested_eq (o : Operand) : o.nested = o :: nestedInChain o.chain := by
  cases o
  rfl

theorem Operand.mem_nested (o : Operand) : o ∈ o.nested := by
  rw [nested_eq]
  exact List.mem_cons_self

/-- An access from a value of a type is linked: the operand of its index is an integer, and its
field has the offset and type that the struct gives it. -/
def Access.Linked (t : StructTable) (ty : Ty) : Access → Prop
  | .pointer => True
  | .index (.const _) => True
  | .index (.operand source) => ∃ sourceTy, source.valueTy t = .ok sourceTy ∧ sourceTy.isInteger = true
  | .field ref => ∃ struct field, (ty = .struct struct ∨ ty = .pointer (.struct struct)) ∧
      t.field struct ref.name = .ok field ∧ ref.offset = field.offset ∧ ref.ty = field.ty

/-- A chain can be followed from a type, and its accesses are linked. -/
def ChainLinked (t : StructTable) : Ty → List Access → Prop
  | _, [] => True
  | ty, access :: rest =>
    access.Linked t ty ∧ ∃ next, ty.step t access = .ok next ∧ ChainLinked t next rest

section Growth

variable {t u : StructTable} {ty ty' : Ty} {access : Access} {chain : List Access} {o : Operand}

theorem StructTable.Grows.step (h : t.Grows u) (hstep : ty.step t access = .ok ty') :
    ty.step u access = .ok ty' := by
  unfold Ty.step at hstep ⊢
  split at hstep <;> try exact hstep
  all_goals
    obtain ⟨field, hfield, hty⟩ := bind_eq_ok.mp hstep
    exact bind_eq_ok.mpr ⟨field, h.field hfield, hty⟩

theorem StructTable.Grows.chainTy (h : t.Grows u) (hchain : Operand.chainTy t ty chain = .ok ty') :
    Operand.chainTy u ty chain = .ok ty' := by
  induction chain generalizing ty with
  | nil => exact hchain
  | cons access rest ih =>
    obtain ⟨next, hnext, hrest⟩ := bind_eq_ok.mp hchain
    exact bind_eq_ok.mpr ⟨next, h.step hnext, ih hrest⟩

theorem StructTable.Grows.valueTy (h : t.Grows u) (hty : o.valueTy t = .ok ty) :
    o.valueTy u = .ok ty :=
  h.chainTy hty

theorem StructTable.Grows.chainLinked (h : t.Grows u) (hchain : ChainLinked t ty chain) :
    ChainLinked u ty chain := by
  induction chain generalizing ty with
  | nil => trivial
  | cons access rest ih =>
    obtain ⟨haccess, next, hnext, hrest⟩ := hchain
    refine ⟨?_, next, h.step hnext, ih hrest⟩
    match access, haccess with
    | .pointer, _ => trivial
    | .index (.const _), _ => trivial
    | .index (.operand source), ⟨sourceTy, hsource, hint⟩ =>
      exact ⟨sourceTy, h.valueTy hsource, hint⟩
    | .field ref, ⟨struct, field, hty, hfield, heq⟩ =>
      exact ⟨struct, field, hty, h.field hfield, heq⟩

end Growth

theorem ChainLinked.chainTy {t : StructTable} {ty : Ty} {chain : List Access}
    (h : ChainLinked t ty chain) : ∃ ty', Operand.chainTy t ty chain = .ok ty' := by
  induction chain generalizing ty with
  | nil => exact ⟨ty, rfl⟩
  | cons access rest ih =>
    obtain ⟨-, next, hnext, hrest⟩ := h
    obtain ⟨ty', hty'⟩ := ih hrest
    exact ⟨ty', bind_eq_ok.mpr ⟨next, hnext, hty'⟩⟩

namespace FrameLayout

variable {l : FrameLayout}

/-- What binding makes of one operand. -/
structure Binds (l : FrameLayout) (written bound : Operand) : Prop where
  name_eq : bound.name = written.name
  byReference_eq : bound.byReference = written.byReference
  /-- One that has storage keeps it. -/
  kept : written.storage ≠ .unassigned → bound.storage = written.storage ∧ bound.ty = written.ty
  symbol : written.storage = .unassigned →
    l.symbol written.name written.package = .ok (bound.storage, bound.ty)
  linked : ChainLinked l.structs bound.ty bound.chain

/-- The storage and type that an operand is bound to. -/
def origin (l : FrameLayout) (o : Operand) : Except Error (Storage × Ty) :=
  if o.storage = .unassigned then do
    let known ← l.symbol o.name o.package
    if o.ty.isDefined && o.ty != known.2 then
      .error (.typeMismatch s!"use of {o.name}" known.2.text o.ty.text)
    else return known
  else return (o.storage, o.ty)

theorem bind_eq (o : Operand) : l.bind o = l.origin o >>= fun origin =>
    l.linkChain origin.2 o.chain >>= fun chain =>
      return { o with
        storage := origin.1, ty := origin.2, chain
        package := if o.package = "" then l.package else o.package } := by
  obtain ⟨name, ty, storage, chain, byReference, escapes, literalPointer, structName, declared,
    shortDeclared, location, package⟩ := o
  unfold FrameLayout.bind origin
  dsimp only
  by_cases hstorage : storage = .unassigned
  · rw [if_pos hstorage, if_pos (by simpa using hstorage)]
    cases l.symbol name package with
    | error e => rfl
    | ok known =>
      obtain ⟨storage', ty'⟩ := known
      simp only [Bind.bind, Except.bind]
      cases ty.isDefined && ty != ty' <;> rfl
  · rw [if_neg hstorage, if_neg (by simpa using hstorage)]

theorem structOf_eq_ok {ty : Ty} {field struct : String} (h : structOf ty field = .ok struct) :
    ty = .struct struct ∨ ty = .pointer (.struct struct) := by
  unfold structOf at h
  split at h <;> cases h
  · exact .inl rfl
  · exact .inr rfl

mutual

theorem bind_nested : (o : Operand) → {bound : Operand} → l.bind o = .ok bound →
    List.Forall₂ l.Binds o.nested bound.nested
  | { name, ty, storage, chain, byReference, escapes, literalPointer, structName, declared,
      shortDeclared, location, package }, bound, h => by
    rw [bind_eq] at h
    obtain ⟨⟨storage', ty'⟩, horigin, h⟩ := bind_eq_ok.mp h
    obtain ⟨chain', hchain, h⟩ := bind_eq_ok.mp h
    cases h
    obtain ⟨hnested, hlinked⟩ := linkChain_nested chain hchain
    unfold origin at horigin
    refine .cons ⟨rfl, rfl, fun hne => ?_, fun heq => ?_, hlinked⟩ hnested
    · rw [if_neg hne] at horigin
      cases horigin
      exact ⟨rfl, rfl⟩
    · rw [if_pos heq] at horigin
      obtain ⟨known, hknown, horigin⟩ := bind_eq_ok.mp horigin
      split at horigin
      · cases horigin
      · cases horigin
        exact hknown

theorem linkChain_nested : (chain : List Access) → {ty : Ty} → {bound : List Access} →
    l.linkChain ty chain = .ok bound →
      List.Forall₂ l.Binds (nestedInChain chain) (nestedInChain bound) ∧
        ChainLinked l.structs ty bound
  | [], ty, bound, h => by
    cases h
    exact ⟨.nil, trivial⟩
  | access :: rest, ty, bound, h => by
    obtain ⟨access', haccess, h⟩ := bind_eq_ok.mp h
    obtain ⟨next, hnext, h⟩ := bind_eq_ok.mp h
    obtain ⟨rest', hrest, h⟩ := bind_eq_ok.mp h
    cases h
    obtain ⟨hnested, hlinked⟩ := linkAccess_nested access haccess
    obtain ⟨hnested', hlinked'⟩ := linkChain_nested rest hrest
    exact ⟨List.rel_append hnested hnested', hlinked, next, hnext, hlinked'⟩

theorem linkAccess_nested : (access : Access) → {ty : Ty} → {bound : Access} →
    l.linkAccess ty access = .ok bound →
      List.Forall₂ l.Binds access.nested bound.nested ∧ bound.Linked l.structs ty
  | .pointer, ty, bound, h => by
    cases h
    exact ⟨.nil, trivial⟩
  | .index source, ty, bound, h => by
    obtain ⟨source', hsource, h⟩ := bind_eq_ok.mp h
    cases h
    exact bindIndex_nested source hsource
  | .field ref, ty, bound, h => by
    obtain ⟨struct, hstruct, h⟩ := bind_eq_ok.mp h
    obtain ⟨field, hfield, h⟩ := bind_eq_ok.mp h
    cases h
    exact ⟨.nil, struct, field, structOf_eq_ok hstruct, hfield, rfl, rfl⟩

theorem bindIndex_nested : (source : Index) → {ty : Ty} → {bound : Index} →
    l.bindIndex source = .ok bound →
    List.Forall₂ l.Binds source.nested bound.nested ∧ (Access.index bound).Linked l.structs ty
  | .const n, ty, bound, h => by
    cases h
    exact ⟨.nil, trivial⟩
  | .operand source, ty, bound, h => by
    obtain ⟨source', hsource, h⟩ := bind_eq_ok.mp h
    obtain ⟨sourceTy, hty, h⟩ := bind_eq_ok.mp h
    split at h
    · rename_i hint
      cases h
      exact ⟨bind_nested source hsource, sourceTy, hty, hint⟩
    · cases h

end

end FrameLayout

end FlatMachine
