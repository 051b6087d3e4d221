import FlatMachine.Proofs.LayoutCongruence
import FlatMachine.Proofs.Signatures

/-!
# What the layout accepts

A function has a frame if its names are declared with one sized type each, and is laid out in this
frame if every node of its body is accepted where it stands. A node that gives a single result is
accepted if what it writes has the type of the result.
-/

namespace FlatMachine

section Frames

variable {fd : FunctionDraft} {d : Draft} {l : FrameLayout} {f : Function} {name : String} {ty : Ty}
  {declared rest : List (String × Ty)} {t : StructTable}

/-- Every name is declared with one type only, and that one has a size. -/
structure Consistent (t : StructTable) (declared : List (String × Ty)) : Prop where
  sized : ∀ entry ∈ declared, ∃ size, entry.2.size t = .ok size
  unique : ∀ entry ∈ declared, ∀ entry' ∈ declared, entry.1 = entry'.1 → entry.2 = entry'.2

theorem Ty.isDefined_of_size {size : Nat} (h : ty.size t = .ok size) : ty.isDefined = true := by
  cases ty with
  | undefined => cases h
  | _ => rfl

namespace FrameLayout

theorem LaidOut.consistent (h : l.LaidOut declared) : Consistent l.structs declared := by
  constructor
  · rintro ⟨name, ty⟩ hmem
    obtain ⟨slot, hslot, -, rfl⟩ := h.ty_eq name ty hmem
    obtain ⟨size, hsize, -⟩ := h.tiled.inside (List.mem_map_of_mem hslot)
    exact ⟨size, hsize⟩
  · rintro ⟨name, ty⟩ hmem ⟨name', ty'⟩ hmem' rfl
    obtain ⟨slot, hslot, hname, rfl⟩ := h.ty_eq name ty hmem
    obtain ⟨slot', hslot', hname', rfl⟩ := h.ty_eq name ty' hmem'
    cases List.inj_on_of_nodup_map h.nodup hslot hslot' (hname.trans hname'.symm)
    rfl

/-- A name can be declared if that keeps the declarations consistent. -/
theorem LaidOut.exists_declare (h : l.LaidOut declared)
    (hconsistent : Consistent l.structs (declared ++ (name, ty) :: rest)) :
    ∃ offset l', l.declare name ty = .ok (offset, l') := by
  have hmem : (name, ty) ∈ declared ++ (name, ty) :: rest := by simp
  obtain ⟨size, hsize⟩ := hconsistent.sized _ hmem
  unfold FrameLayout.declare
  rw [if_neg (by simp [Ty.isDefined_of_size hsize])]
  split
  · rename_i slot hfound
    obtain ⟨hslot, hname⟩ := slot?_eq_some hfound
    have hdeclared := List.mem_append_left ((name, ty) :: rest) (h.mem_declared hslot)
    have hty : slot.ty = ty := hconsistent.unique _ hdeclared _ hmem hname
    exact ⟨slot.offset, l, if_pos hty⟩
  · exact ⟨_, _, bind_eq_ok.mpr ⟨size, hsize, rfl⟩⟩

/-- The next name is declared, and the frame is one for which the others are still consistent. -/
theorem LaidOut.exists_declare_next (h : l.LaidOut declared)
    (hconsistent : Consistent l.structs (declared ++ (name, ty) :: rest)) :
    ∃ offset m, l.declare name ty = .ok (offset, m) ∧ m.LaidOut (declared ++ [(name, ty)]) ∧
      Consistent m.structs (declared ++ [(name, ty)] ++ rest) := by
  obtain ⟨offset, m, hm⟩ := h.exists_declare hconsistent
  obtain ⟨hmlaid, hlm, -⟩ := h.declare hm
  have hstructs : m.structs = l.structs := congrArg Draft.structs hlm.draft_eq
  rw [List.append_cons, ← hstructs] at hconsistent
  exact ⟨offset, m, hm, hmlaid, hconsistent⟩

theorem LaidOut.exists_declareAll (h : l.LaidOut declared)
    (hconsistent : Consistent l.structs (declared ++ rest)) : ∃ l', l.declareAll rest = .ok l' := by
  induction rest generalizing l declared with
  | nil => exact ⟨l, rfl⟩
  | cons entry rest ih =>
    obtain ⟨name, ty⟩ := entry
    obtain ⟨offset, m, hm, hmlaid, hrest⟩ := h.exists_declare_next hconsistent
    obtain ⟨l', hl'⟩ := ih hmlaid hrest
    exact ⟨l', bind_eq_ok.mpr ⟨_, hm, hl'⟩⟩

theorem LaidOut.exists_declareBound (h : l.LaidOut declared)
    (hconsistent : Consistent l.structs (declared ++ rest)) :
    ∃ os l', l.declareBound rest = .ok (os, l') := by
  induction rest generalizing l declared with
  | nil => exact ⟨[], l, rfl⟩
  | cons entry rest ih =>
    obtain ⟨name, ty⟩ := entry
    obtain ⟨offset, m, hm, hmlaid, hrest⟩ := h.exists_declare_next hconsistent
    obtain ⟨os, l', hl'⟩ := ih hmlaid hrest
    exact ⟨_, l', bind_eq_ok.mpr ⟨_, hm, bind_eq_ok.mpr ⟨_, hl', rfl⟩⟩⟩

end FrameLayout

theorem Consistent.front (h : Consistent t (declared ++ rest)) : Consistent t declared where
  sized entry hentry := h.sized entry (List.mem_append_left _ hentry)
  unique entry hentry entry' hentry' :=
    h.unique entry (List.mem_append_left _ hentry) entry' (List.mem_append_left _ hentry')

namespace FunctionDraft

/-- A function has a frame if and only if its names are declared consistently. -/
theorem exists_frame_iff : (∃ l, fd.frame d = .ok l) ↔ Consistent d.structs fd.declared := by
  constructor
  · rintro ⟨l, hl⟩
    obtain ⟨rfl, hlaid⟩ := laidOut_of_frame hl
    exact hlaid.consistent
  · intro hconsistent
    have hempty := FrameLayout.laidOut_nil fd.package d
    have hreturns : Consistent d.structs (fd.params ++ fd.returns) := hconsistent.front
    obtain ⟨params, l₁, h₁⟩ := hempty.exists_declareBound hreturns.front
    obtain ⟨hl₁, hgrows₁, -⟩ := hempty.declareBound h₁
    have hstructs₁ : l₁.structs = d.structs := congrArg Draft.structs hgrows₁.draft_eq
    rw [← hstructs₁] at hreturns
    obtain ⟨returns, l₂, h₂⟩ := hl₁.exists_declareBound hreturns
    obtain ⟨hl₂, hgrows₂, -⟩ := hl₁.declareBound h₂
    have hstructs₂ : l₂.structs = d.structs :=
      congrArg Draft.structs (hgrows₁.trans hgrows₂).draft_eq
    rw [← hstructs₂] at hconsistent
    obtain ⟨l, hl⟩ := hl₂.exists_declareAll hconsistent
    exact ⟨l, bind_eq_ok.mpr ⟨_, h₁, bind_eq_ok.mpr ⟨_, h₂, hl⟩⟩⟩

/-- In the frame the nodes of the body that are among `ns` are accepted where they stand. -/
def Accepts (fd : FunctionDraft) (l : FrameLayout) (ns : List Node) : Prop :=
  ∀ pc n, fd.body[pc]? = some n → n ∈ ns → ∃ n', l.finishNode pc fd.body.length n = .ok n'

end FunctionDraft

theorem FrameLayout.exists_finishBody_iff {length pc : Nat} {ns : List Node} :
    (∃ ns', l.finishBody length pc ns = .ok ns') ↔
      ∀ i n, ns[i]? = some n → ∃ n', l.finishNode (pc + i) length n = .ok n' := by
  induction ns generalizing pc with
  | nil => exact iff_of_true ⟨[], rfl⟩ nofun
  | cons m ms ih =>
    have hnext : ∀ i, pc + 1 + i = pc + (i + 1) := fun i => by omega
    constructor
    · rintro ⟨ns', hns⟩ i n hn
      obtain ⟨m', hm, hns⟩ := bind_eq_ok.mp hns
      obtain ⟨ms', hms, -⟩ := bind_eq_ok.mp hns
      cases i with
      | zero =>
        cases hn
        exact ⟨m', hm⟩
      | succ i => exact hnext i ▸ ih.mp ⟨ms', hms⟩ i n hn
    · intro h
      obtain ⟨m', hm⟩ := h 0 m rfl
      have hrest : ∃ ms', l.finishBody length (pc + 1) ms = .ok ms' :=
        ih.mpr fun i n hn => hnext i ▸ h (i + 1) n hn
      obtain ⟨ms', hms⟩ := hrest
      exact ⟨m' :: ms', bind_eq_ok.mpr ⟨m', hm, bind_eq_ok.mpr ⟨ms', hms, rfl⟩⟩⟩

/-- A function with a frame is laid out if and only if its nodes are accepted. -/
theorem FunctionDraft.exists_layout_iff (hframe : fd.frame d = .ok l) :
    (∃ f, fd.layout d = .ok f) ↔ fd.Accepts l fd.body := by
  have hbody : (∃ f, fd.layout d = .ok f) ↔
      ∃ body, l.finishBody fd.body.length 0 fd.body = .ok body := by
    constructor
    · rintro ⟨f, hf⟩
      obtain ⟨l', hframe', -, -, hbody⟩ := frame_of_layout hf
      cases hframe.symm.trans hframe'
      exact ⟨_, hbody⟩
    · rintro ⟨body, hbody⟩
      obtain ⟨⟨params, l₁⟩, hparams, hframe⟩ := bind_eq_ok.mp hframe
      obtain ⟨⟨returns, l₂⟩, hreturns, hlocals⟩ := bind_eq_ok.mp hframe
      exact ⟨_, bind_eq_ok.mpr ⟨_, hparams, bind_eq_ok.mpr ⟨_, hreturns,
        bind_eq_ok.mpr ⟨_, hlocals, bind_eq_ok.mpr ⟨_, hbody, rfl⟩⟩⟩⟩⟩
  rw [hbody, FrameLayout.exists_finishBody_iff]
  simp only [Nat.zero_add]
  exact ⟨fun h pc n hn _ => h pc n hn, fun h pc n hn => h pc n hn (List.mem_of_getElem? hn)⟩

end Frames

namespace FrameLayout

variable {l : FrameLayout} {signature : Signature} {r : Param} {n : Node} {o o' v v' : Operand}
  {ty ty' : Ty} {first : Option Ty} {is os : List Operand} {p : Prop}

theorem mapM_bind_singleton (h : l.bind o = .ok o') : [o].mapM l.bind = .ok [o'] := by
  rw [List.mapM_cons, h]
  rfl

/-- The layout accepts the node, wherever it stands, if and only if `p`. -/
def AcceptsIff (l : FrameLayout) (n : Node) (p : Prop) : Prop :=
  ∀ pc length, (∃ n', l.finishNode pc length n = .ok n') ↔ p

theorem AcceptsIff.congr {q : Prop} (h : l.AcceptsIff n p) (hiff : p ↔ q) : l.AcceptsIff n q :=
  fun pc length => (h pc length).trans hiff

/-- A node is accepted if its operands can be bound and the bound node passes the checks. -/
theorem acceptsIff_of_bind (hinputs : n.inputs.mapM l.bind = .ok is)
    (houtputs : n.outputs.mapM l.bind = .ok os)
    (hcheck : ∀ pc length package,
      l.checkNode pc length { n with package, inputs := is, outputs := os } = .ok () ↔ p) :
    l.AcceptsIff n p := by
  intro pc length
  rw [← hcheck pc length (if n.package = "" then l.package else n.package)]
  have hbound : l.bindNode { n with package := if n.package = "" then l.package else n.package } =
      .ok { n with
        package := if n.package = "" then l.package else n.package, inputs := is, outputs := os } :=
    bind_eq_ok.mpr ⟨is, hinputs, bind_eq_ok.mpr ⟨os, houtputs, rfl⟩⟩
  unfold finishNode
  simp only [mapError_eq_ok]
  constructor
  · rintro ⟨n', h⟩
    obtain ⟨m, hm, h⟩ := bind_eq_ok.mp h
    cases hbound.symm.trans hm
    obtain ⟨_, hchecked, -⟩ := bind_eq_ok.mp h
    exact hchecked
  · exact fun h => ⟨_, bind_eq_ok.mpr ⟨_, hbound, bind_eq_ok.mpr ⟨(), h, rfl⟩⟩⟩

/-- The node gives a single result of that type, whatever it is written to. -/
inductive Yields (l : FrameLayout) (n : Node) (ty : Ty) : Prop where
  | move {v v' : Operand} (hop : n.operator = none) (hinputs : n.inputs = [v])
      (hbind : l.bind v = .ok v') (hty : l.inputTy v' = .ok ty)
  | result {op : Operator} {signature : Signature} {r : Param} {is : List Operand}
      {first : Option Ty} (hop : n.operator = some op) (hsignature : op.signature? = some signature)
      (hresult : signature.outputs = [r]) (hbind : n.inputs.mapM l.bind = .ok is)
      (hlength : is.length = signature.inputs.length)
      (hinputs : l.checkInputs op 0 none is signature.inputs = .ok first)
      (hty : r.expected? first = some ty)

theorem checkOutputs_single_iff (op : Operator) (hexpected : r.expected? first = some ty)
    (hty : o.valueTy l.structs = .ok ty') :
    l.checkOutputs op 0 first [o] [r] = .ok () ↔ ty' = ty := by
  have hfold : (if r.ty.isDefined = true then some r.ty else first) = some ty := hexpected
  rw [checkOutputs, hfold]
  change (o.valueTy l.structs >>= fun ty' => _) = _ ↔ _
  rw [hty]
  change (if (ty' != ty) = true then _ else _) = _ ↔ _
  by_cases heq : ty' = ty
  · rw [if_neg (by simp [heq])]
    exact iff_of_true rfl heq
  · rw [if_pos (by simp [heq])]
    exact iff_of_false (by rintro ⟨⟩) heq

/-- A node that gives a result is accepted if it writes the result to something of its type. -/
theorem Yields.acceptsIff (h : l.Yields n ty) (hbind : l.bind o = .ok o')
    (hty : o'.valueTy l.structs = .ok ty') : l.AcceptsIff { n with outputs := [o] } (ty' = ty) := by
  have houtputs := mapM_bind_singleton hbind
  cases h with
  | @move v v' hop hinputs hv hvty =>
    have hins : n.inputs.mapM l.bind = .ok [v'] := hinputs ▸ mapM_bind_singleton hv
    refine acceptsIff_of_bind hins houtputs fun pc length package => ?_
    rw [checkNode, hop]
    dsimp only
    rw [checkBare]
    dsimp only
    rw [hvty, hty]
    change (if ty = ty' then _ else _) = _ ↔ _
    by_cases heq : ty = ty'
    · rw [if_pos heq]
      exact iff_of_true rfl heq.symm
    · rw [if_neg heq]
      exact iff_of_false (by rintro ⟨⟩) fun h => heq h.symm
  | @result op signature r is first hop hsignature hresult hins hlength hinputs hresultTy =>
    refine acceptsIff_of_bind hins houtputs fun pc length package => ?_
    have hcheck : l.checkSignature op signature { n with package, inputs := is, outputs := [o'] } =
        l.checkOutputs op 0 first [o'] [r] := by
      unfold checkSignature
      rw [if_neg (not_not.mpr hlength)]
      change (l.checkInputs op 0 none is signature.inputs >>= _) = _
      rw [hinputs, ← hresult]
      rfl
    rw [← checkOutputs_single_iff op hresultTy hty, ← hcheck, checkNode, hop]
    cases op with
    | native code name s =>
      cases hsignature
      dsimp only
      rw [if_neg (by simp [hresult])]
    | call function s =>
      cases hsignature
      dsimp only
      rw [if_neg (by simp [hresult])]
    | jump onTrue onFalse => cases hsignature

end FrameLayout

end FlatMachine
