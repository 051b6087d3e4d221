import FlatMachine.Proofs.DeclaredSlots

/-!
# Qualified names

An operand may say which package its symbol belongs to. Binding only looks at the package once the
frame has no slot of the name: a name that the function declares is bound to its slot, and a global
of that name in another package is out of reach.
-/

namespace FlatMachine

/-- A result that gives the same value as the other, or is an error of the `bad` ones in its
place. -/
def Misses {α : Type} (bad : Error → Prop) (r r' : Except Error α) : Prop :=
  ∀ a, r' = .ok a → Gives r (· = a) bad

namespace Misses

variable {α β : Type} {bad bad' : Error → Prop} {r r' : Except Error α}

theorem refl (bad : Error → Prop) (r : Except Error α) : Misses bad r r := by
  rintro a rfl
  exact rfl

theorem bind {f f' : α → Except Error β} (h : Misses bad r r')
    (hf : ∀ a, Misses bad (f a) (f' a)) : Misses bad (r >>= f) (r' >>= f') := by
  intro b hb
  obtain ⟨a, ha, hb⟩ := bind_eq_ok.mp hb
  rw [gives_bind]
  refine (h a ha).imp ?_
  rintro _ rfl
  exact hf _ b hb

theorem mapM {f f' : α → Except Error β} {as : List α} (h : ∀ a ∈ as, Misses bad (f a) (f' a)) :
    Misses bad (as.mapM f) (as.mapM f') := by
  induction as with
  | nil => exact .refl bad _
  | cons a as ih =>
    rw [List.forall_mem_cons] at h
    rw [List.mapM_cons, List.mapM_cons]
    exact h.1.bind fun b => (ih h.2).bind fun bs => .refl bad _

theorem mapError {f f' : Error → Error} (h : Misses bad r r') (hf : ∀ e, bad e → bad' (f e)) :
    Misses bad' (r.mapError f) (r'.mapError f') := by
  intro a ha
  have hgives := h a (mapError_eq_ok.mp ha)
  cases r with
  | ok b => exact hgives
  | error e => exact hf e hgives

theorem mono (h : Misses bad r r') (hbad : ∀ e, bad e → bad' e) : Misses bad' r r' :=
  fun a ha => (h a ha).mono (fun _ h => h) hbad

end Misses

namespace FrameLayout

variable {l l' : FrameLayout} {bad : Error → Prop}

/-- The layouts differ in what they know of the symbols. -/
structure MissesSymbols (bad : Error → Prop) (l l' : FrameLayout) : Prop where
  package_eq : l'.package = l.package
  structs_eq : l'.structs = l.structs
  symbol : ∀ name package, Misses bad (l.symbol name package) (l'.symbol name package)

namespace MissesSymbols

variable (h : MissesSymbols bad l l')

include h

theorem origin (o : Operand) : Misses bad (l.origin o) (l'.origin o) := by
  unfold FrameLayout.origin
  split
  · exact (h.symbol o.name o.package).bind fun known => .refl bad _
  · exact .refl bad _

mutual

theorem bind : (o : Operand) → Misses bad (l.bind o) (l'.bind o)
  | { name, ty, storage, chain, byReference, escapes, literalPointer, structName, declared,
      shortDeclared, location, package } => by
    rw [bind_eq, bind_eq, h.package_eq]
    exact (h.origin _).bind fun origin => (linkChain chain origin.2).bind fun chain' => .refl bad _

theorem linkChain : (chain : List Access) → (ty : Ty) →
    Misses bad (l.linkChain ty chain) (l'.linkChain ty chain)
  | [], ty => .refl bad _
  | access :: rest, ty => by
    unfold FrameLayout.linkChain
    rw [h.structs_eq]
    exact (linkAccess access ty).bind fun access' => Misses.bind (.refl bad _) fun next =>
      (linkChain rest next).bind fun rest' => .refl bad _

theorem linkAccess : (access : Access) → (ty : Ty) →
    Misses bad (l.linkAccess ty access) (l'.linkAccess ty access)
  | .pointer, ty => .refl bad _
  | .index source, ty => (bindIndex source).bind fun source' => .refl bad _
  | .field ref, ty => by
    unfold FrameLayout.linkAccess
    rw [h.structs_eq]
    exact .refl bad _

theorem bindIndex : (source : Index) → Misses bad (l.bindIndex source) (l'.bindIndex source)
  | .const n => .refl bad _
  | .operand source => by
    unfold FrameLayout.bindIndex
    rw [h.structs_eq]
    exact (bind source).bind fun source' => .refl bad _

end

omit h in
theorem inputTy (hstructs : l'.structs = l.structs) (o : Operand) : l'.inputTy o = l.inputTy o := by
  rw [FrameLayout.inputTy, FrameLayout.inputTy, hstructs]

theorem checkInputs (op : Operator) (i : Nat) (first : Option Ty) (os : List Operand)
    (ps : List Param) : l'.checkInputs op i first os ps = l.checkInputs op i first os ps := by
  induction os generalizing i first ps with
  | nil => rfl
  | cons o os ih =>
    cases ps with
    | nil => rfl
    | cons p ps => simp only [FrameLayout.checkInputs, inputTy h.structs_eq, ih]

theorem checkOutputs (op : Operator) (i : Nat) (first : Option Ty) (os : List Operand)
    (ps : List Param) : l'.checkOutputs op i first os ps = l.checkOutputs op i first os ps := by
  induction os generalizing i ps with
  | nil => rfl
  | cons o os ih =>
    cases ps with
    | nil => rfl
    | cons p ps => simp only [FrameLayout.checkOutputs, h.structs_eq, ih]

/-- The checks of a bound node look at no symbol. -/
theorem checkNode (pc length : Nat) (n : Node) :
    l'.checkNode pc length n = l.checkNode pc length n := by
  unfold FrameLayout.checkNode checkBare checkSignature
  simp only [h.checkInputs, h.checkOutputs, inputTy h.structs_eq, h.structs_eq]

theorem finishNode (pc length : Nat) (n : Node) :
    Misses (fun e => ∃ cause, bad cause ∧ e = cause.tag n.location) (l.finishNode pc length n)
      (l'.finishNode pc length n) := by
  unfold FrameLayout.finishNode bindNode
  rw [h.package_eq]
  refine Misses.mapError ?_ fun cause hcause => ⟨cause, hcause, rfl⟩
  refine Misses.bind ?_ fun n => ?_
  · exact (Misses.mapM fun o _ => h.bind o).bind fun inputs =>
      (Misses.mapM fun o _ => h.bind o).bind fun outputs => .refl bad _
  · rw [h.checkNode]
    exact .refl bad _

theorem finishBody (length pc : Nat) (ns : List Node) :
    Misses (fun e => ∃ n ∈ ns, ∃ cause, bad cause ∧ e = cause.tag n.location)
      (l.finishBody length pc ns) (l'.finishBody length pc ns) := by
  induction ns generalizing pc with
  | nil => exact .refl _ _
  | cons n rest ih =>
    refine ((h.finishNode pc length n).mono fun e he => ?_).bind fun n' => ?_
    · exact ⟨n, List.mem_cons_self, he⟩
    · refine ((ih (pc + 1)).mono ?_).bind fun rest' => .refl _ _
      rintro e ⟨m, hm, he⟩
      exact ⟨m, List.mem_cons_of_mem _ hm, he⟩

end MissesSymbols

section Frame

variable {d d' : Draft} {name : String} {ty : Ty} {offset : Nat} {m : FrameLayout}
  {os : List Operand} {rest : List (String × Ty)}

/-- The layout over another draft. -/
def withDraft (l : FrameLayout) (d : Draft) : FrameLayout := { l with draft := d }

/-- The slots do not depend on the draft. -/
@[simp] theorem slot?_withDraft (l : FrameLayout) (d : Draft) (name : String) :
    (l.withDraft d).slot? name = l.slot? name := rfl

variable (hstructs : d.structs = l.structs)

include hstructs

theorem declare_withDraft (h : l.declare name ty = .ok (offset, m)) :
    (l.withDraft d).declare name ty = .ok (offset, m.withDraft d) ∧ m.structs = l.structs := by
  unfold declare at h ⊢
  rw [slot?_withDraft]
  split at h
  · cases h
  rename_i hdefined
  rw [if_neg hdefined]
  cases hfound : l.slot? name with
  | some slot =>
    rw [hfound] at h
    dsimp only at h ⊢
    split at h
    · rename_i hty
      cases h
      exact ⟨if_pos hty, rfl⟩
    · cases h
  | none =>
    rw [hfound] at h
    obtain ⟨size, hsize, h⟩ := bind_eq_ok.mp h
    cases h
    exact ⟨bind_eq_ok.mpr ⟨size, (congrArg ty.size hstructs).trans hsize, rfl⟩, rfl⟩

theorem declareBound_withDraft (h : l.declareBound rest = .ok (os, m)) :
    (l.withDraft d).declareBound rest = .ok (os, m.withDraft d) ∧ m.structs = l.structs := by
  induction rest generalizing l os with
  | nil =>
    cases h
    exact ⟨rfl, rfl⟩
  | cons entry rest ih =>
    obtain ⟨⟨offset, l₁⟩, hdeclare, h⟩ := bind_eq_ok.mp h
    obtain ⟨⟨os', l₂⟩, hrest, h⟩ := bind_eq_ok.mp h
    cases h
    obtain ⟨hdeclare, hl₁⟩ := declare_withDraft hstructs hdeclare
    obtain ⟨hrest, hl₂⟩ := ih (hstructs.trans hl₁.symm) hrest
    exact ⟨bind_eq_ok.mpr ⟨_, hdeclare, bind_eq_ok.mpr ⟨_, hrest, rfl⟩⟩, hl₂.trans hl₁⟩

theorem declareAll_withDraft (h : l.declareAll rest = .ok m) :
    (l.withDraft d).declareAll rest = .ok (m.withDraft d) := by
  induction rest generalizing l with
  | nil =>
    cases h
    rfl
  | cons entry rest ih =>
    obtain ⟨⟨offset, l₁⟩, hdeclare, h⟩ := bind_eq_ok.mp h
    obtain ⟨hdeclare, hl₁⟩ := declare_withDraft hstructs hdeclare
    exact bind_eq_ok.mpr ⟨_, hdeclare, ih (hstructs.trans hl₁.symm) h⟩

end Frame

end FrameLayout

namespace FunctionDraft

variable {fd : FunctionDraft} {d d' : Draft} {bad : Error → Prop}

/-- Where a function is laid out over another draft, it is laid out to the same, if binding does
not miss a symbol. -/
theorem misses_layout (hstructs : d.structs = d'.structs)
    (hsymbols : ∀ l, fd.frame d = .ok l → FrameLayout.MissesSymbols bad l (l.withDraft d')) :
    Misses (fun e => ∃ n ∈ fd.body, ∃ cause, bad cause ∧ e = cause.tag n.location)
      (fd.layout d) (fd.layout d') := by
  intro f hf
  obtain ⟨⟨params, l₁⟩, hparams, hf⟩ := bind_eq_ok.mp hf
  obtain ⟨⟨returns, l₂⟩, hreturns, hf⟩ := bind_eq_ok.mp hf
  obtain ⟨l, hlocals, hf⟩ := bind_eq_ok.mp hf
  obtain ⟨body, hbody, hf⟩ := bind_eq_ok.mp hf
  obtain ⟨hdraft, -⟩ := laidOut_of_frame (bind_eq_ok.mpr ⟨_, hparams, bind_eq_ok.mpr
    ⟨_, hreturns, hlocals⟩⟩ : fd.frame d' = .ok l)
  obtain ⟨hparams, hl₁⟩ := FrameLayout.declareBound_withDraft hstructs hparams
  obtain ⟨hreturns, hl₂⟩ :=
    FrameLayout.declareBound_withDraft (hstructs.trans hl₁.symm) hreturns
  have hlocals :=
    FrameLayout.declareAll_withDraft (hstructs.trans (hl₂.trans hl₁).symm) hlocals
  have hframe : fd.frame d = .ok (l.withDraft d) :=
    bind_eq_ok.mpr ⟨_, hparams, bind_eq_ok.mpr ⟨_, hreturns, hlocals⟩⟩
  have hmisses := hsymbols _ hframe
  have hback : (l.withDraft d).withDraft d' = l := by
    rw [← hdraft]
    rfl
  rw [hback] at hmisses
  have hlayout : fd.layout d =
      (l.withDraft d).finishBody fd.body.length 0 fd.body >>= fun body => .ok
        { package := fd.package, name := fd.name, params, returns, body, frameSize := l.size } := by
    unfold layout
    change FrameLayout.declareBound (FrameLayout.withDraft { package := fd.package, draft := d' } d)
      _ >>= _ = _
    rw [hparams]
    change FrameLayout.declareBound _ _ >>= _ = _
    rw [hreturns]
    change FrameLayout.declareAll _ _ >>= _ = _
    rw [hlocals]
    rfl
  rw [hlayout, gives_bind]
  refine (hmisses.finishBody _ _ _ body hbody).imp ?_
  rintro _ rfl
  exact pure_eq_ok.mp hf

end FunctionDraft

section Globals

variable {fd : FunctionDraft} {d d' : Draft} {l : FrameLayout} {f : Function} {o g : Operand}
  {declared : List (String × Ty)} {package name : String} {ty : Ty} {i : Nat}

theorem Draft.structs_addGlobal (h : d.addGlobal package name ty = .ok (g, d')) :
    d'.structs = d.structs := by
  obtain ⟨size, -, h⟩ := bind_eq_ok.mp h
  cases h
  rfl

theorem Draft.global?_addGlobal (h : d.addGlobal package name ty = .ok (g, d')) (p n : String) :
    d'.global? p n = if p = package ∧ n = name then some g else d.global? p n := by
  obtain ⟨size, -, h⟩ := bind_eq_ok.mp h
  cases h
  unfold global?
  by_cases hsame : p = package ∧ n = name
  · obtain ⟨rfl, rfl⟩ := hsame
    rw [if_pos ⟨rfl, rfl⟩, List.find?_cons_of_pos (by simp)]
  · rw [if_neg hsame, List.find?_cons_of_neg]
    intro hfound
    obtain ⟨hpackage, hname⟩ := Bool.and_eq_true_iff.mp hfound
    exact hsame ⟨(beq_iff_eq.mp hpackage).symm, (beq_iff_eq.mp hname).symm⟩

namespace FrameLayout

theorem LaidOut.exists_slot?_iff (h : l.LaidOut declared) :
    (∃ slot, l.slot? name = some slot) ↔ name ∈ declared.map (·.1) := by
  rw [← List.mem_eraseDups, ← h.names_eq]
  constructor
  · rintro ⟨slot, hslot⟩
    obtain ⟨hmem, rfl⟩ := slot?_eq_some hslot
    exact List.mem_map_of_mem hmem
  · intro hname
    cases hslot : l.slot? name with
    | none => exact absurd hname (slot?_eq_none hslot)
    | some slot => exact ⟨slot, rfl⟩

/-- A slot hides the globals of its name, in all packages. -/
theorem symbol_withDraft_of_slot? (hslot : l.slot? name = some slot)
    (h : d.addGlobal package name ty = .ok (g, d')) (n p : String) :
    (l.withDraft d').symbol n p = (l.withDraft d).symbol n p := by
  unfold symbol
  rw [slot?_withDraft, slot?_withDraft]
  cases hn : l.slot? n with
  | some slot => rfl
  | none =>
    have hne : n ≠ name := by
      rintro rfl
      cases hslot.symm.trans hn
    simp only [withDraft, Draft.global?_addGlobal h, hne, and_false, if_false]

/-- Without the global, its name alone is unresolved. -/
theorem misses_symbol (hnone : d.global? package name = none)
    (h : d.addGlobal package name ty = .ok (g, d')) (n p : String) :
    Misses (· = .unresolvedSymbol name) ((l.withDraft d).symbol n p)
      ((l.withDraft d').symbol n p) := by
  unfold symbol
  rw [slot?_withDraft, slot?_withDraft]
  cases l.slot? n with
  | some slot => exact .refl _ _
  | none =>
    dsimp only [withDraft]
    rw [Draft.global?_addGlobal h]
    generalize (if p = "" then l.package else p) = q
    by_cases hsame : q = package ∧ n = name
    · obtain ⟨rfl, rfl⟩ := hsame
      rw [hnone]
      exact fun _ _ => rfl
    · rw [if_neg hsame]
      exact .refl _ _

end FrameLayout

namespace FunctionDraft

/-- A global whose name the function declares makes no difference to its layout. -/
theorem layout_addGlobal_of_declared (hname : name ∈ fd.declared.map (·.1))
    (h : d.addGlobal package name ty = .ok (g, d')) :
    fd.layout d' = .ok f ↔ fd.layout d = .ok f := by
  have hstructs := Draft.structs_addGlobal h
  -- neither of the two layouts misses a symbol of the other
  have hsame : ∀ {e e' : Draft}, e'.structs = e.structs →
      (∀ l : FrameLayout, (∃ slot, l.slot? name = some slot) → ∀ n p,
        (l.withDraft e').symbol n p = (l.withDraft e).symbol n p) →
      fd.layout e' = .ok f → fd.layout e = .ok f := by
    intro e e' hstructs hsymbol hf
    have hmisses : ∀ l, fd.frame e = .ok l →
        FrameLayout.MissesSymbols (fun _ => False) l (l.withDraft e') := by
      intro l hl
      obtain ⟨rfl, hlaid⟩ := laidOut_of_frame hl
      refine ⟨rfl, hstructs, fun n p => ?_⟩
      rw [hsymbol l (hlaid.exists_slot?_iff.mpr hname)]
      exact .refl _ _
    have hgives := misses_layout hstructs.symm hmisses f hf
    cases hlayout : fd.layout e with
    | ok f' =>
      rw [hlayout] at hgives
      rw [hgives]
    | error e =>
      rw [hlayout] at hgives
      obtain ⟨_, _, _, hfalse, _⟩ := hgives
      exact hfalse.elim
  constructor
  · exact hsame hstructs fun l ⟨slot, hslot⟩ n p =>
      FrameLayout.symbol_withDraft_of_slot? hslot h n p
  · exact hsame hstructs.symm fun l ⟨slot, hslot⟩ n p =>
      (FrameLayout.symbol_withDraft_of_slot? hslot h n p).symm

/-- Where only a global is missing, the layout fails with its name. -/
theorem layout_without_global (hnone : d.global? package name = none)
    (h : d.addGlobal package name ty = .ok (g, d')) (hf : fd.layout d' = .ok f) :
    fd.layout d = .ok f ∨
      ∃ n ∈ fd.body, fd.layout d = .error ((Error.unresolvedSymbol name).tag n.location) := by
  have hstructs := Draft.structs_addGlobal h
  have hmisses : ∀ l, fd.frame d = .ok l →
      FrameLayout.MissesSymbols (· = .unresolvedSymbol name) l (l.withDraft d') := by
    intro l hl
    obtain ⟨rfl, -⟩ := laidOut_of_frame hl
    exact ⟨rfl, hstructs, FrameLayout.misses_symbol hnone h⟩
  have hgives := misses_layout hstructs.symm hmisses f hf
  cases hlayout : fd.layout d with
  | ok f' =>
    rw [hlayout] at hgives
    exact .inl (congrArg Except.ok hgives)
  | error e =>
    rw [hlayout] at hgives
    obtain ⟨n, hn, _, rfl, rfl⟩ := hgives
    exact .inr ⟨n, hn, rfl⟩

/-- What becomes of an operand of the body. -/
theorem binds_of_layout (h : fd.layout d = .ok f) (ho : fd.operands[i]? = some o) :
    ∃ l b, fd.frame d = .ok l ∧ l.draft = d ∧ l.LaidOut fd.declared ∧
      f.operands[i]? = some b ∧ l.Binds o b := by
  obtain ⟨l, hframe, hdraft, hlaid, hbody⟩ := frame_of_layout h
  obtain ⟨hall, -⟩ := FrameLayout.finishBody_eq_ok hbody
  have hbinds : List.Forall₂ l.Binds fd.operands f.operands :=
    List.rel_flatMap hall fun _ _ hn => hn.choose_spec.operands
  obtain ⟨b, hb, hob⟩ := exists_getElem?_of_forall₂ hbinds.flip ho
  exact ⟨l, b, hframe, hdraft, hlaid, hb, hob⟩

end FunctionDraft

/-- An unbound operand of the body that says the package of its symbol, be it nested in an index. If
the function declares the name, the operand is bound to the slot of that name, and it makes no
difference whether the package has such a global. Otherwise it is bound to the global of its
package; without such a global there is no layout, and if that is all that is missing, the layout
fails with the name. -/
theorem qualified_name_bound (ho : fd.operands[i]? = some o) (hunbound : o.storage = .unassigned)
    (hpackage : o.package ≠ "") :
    (o.name ∈ fd.declared.map (·.1) →
      (∀ f, fd.layout d = .ok f → ∃ l b offset, fd.frame d = .ok l ∧ f.operands[i]? = some b ∧
        b.name = o.name ∧ b.storage = .frame offset ∧ l.HasSlot o.name b.ty offset) ∧
      ∀ ty g d' f, d.addGlobal o.package o.name ty = .ok (g, d') →
        (fd.layout d' = .ok f ↔ fd.layout d = .ok f)) ∧
    (o.name ∉ fd.declared.map (·.1) →
      (∀ f, fd.layout d = .ok f → ∃ b g, f.operands[i]? = some b ∧ b.name = o.name ∧
        d.global? o.package o.name = some g ∧ b.storage = g.storage ∧ b.ty = g.ty) ∧
      (d.global? o.package o.name = none → ∃ e, fd.layout d = .error e ∧
        ∀ ty g d' f, d.addGlobal o.package o.name ty = .ok (g, d') → fd.layout d' = .ok f →
          ∃ n ∈ fd.body, e = (Error.unresolvedSymbol o.name).tag n.location)) := by
  refine ⟨fun hdeclared => ⟨fun f hf => ?_, fun ty g d' f hglobal =>
    FunctionDraft.layout_addGlobal_of_declared hdeclared hglobal⟩, fun hundeclared => ?_⟩
  · obtain ⟨l, b, hframe, -, hlaid, hb, hbinds⟩ := FunctionDraft.binds_of_layout hf ho
    obtain ⟨slot, hslot⟩ := hlaid.exists_slot?_iff.mpr hdeclared
    obtain ⟨hmem, hname⟩ := FrameLayout.slot?_eq_some hslot
    have hsymbol := hbinds.symbol hunbound
    rw [FrameLayout.symbol, hslot] at hsymbol
    injection hsymbol with hsymbol
    obtain ⟨hstorage, hty⟩ := Prod.mk.inj hsymbol
    exact ⟨l, b, slot.offset, hframe, hb, hbinds.name_eq, hstorage.symm,
      slot, hmem, hname, hty, rfl⟩
  · have hbound : ∀ f, fd.layout d = .ok f → ∃ b g, f.operands[i]? = some b ∧ b.name = o.name ∧
        d.global? o.package o.name = some g ∧ b.storage = g.storage ∧ b.ty = g.ty := by
      intro f hf
      obtain ⟨l, b, -, rfl, hlaid, hb, hbinds⟩ := FunctionDraft.binds_of_layout hf ho
      have hsymbol := hbinds.symbol hunbound
      unfold FrameLayout.symbol at hsymbol
      split at hsymbol
      · rename_i slot hslot
        exact absurd (hlaid.exists_slot?_iff.mp ⟨slot, hslot⟩) hundeclared
      rw [if_neg hpackage] at hsymbol
      split at hsymbol
      · rename_i g hg
        injection hsymbol with hsymbol
        obtain ⟨hstorage, hty⟩ := Prod.mk.inj hsymbol
        exact ⟨b, g, hb, hbinds.name_eq, hg, hstorage.symm, hty.symm⟩
      · cases hsymbol
    refine ⟨hbound, fun hnone => ?_⟩
    have hrefused : ∀ f, fd.layout d ≠ .ok f := by
      intro f hf
      obtain ⟨_, g, -, -, hg, -⟩ := hbound f hf
      cases hnone.symm.trans hg
    cases hlayout : fd.layout d with
    | ok f => exact absurd hlayout (hrefused f)
    | error e =>
      refine ⟨e, rfl, fun ty g d' f hglobal hf => ?_⟩
      rcases FunctionDraft.layout_without_global hnone hglobal hf with hok | ⟨n, hn, herror⟩
      · exact absurd hok (hrefused f)
      · cases hlayout.symm.trans herror
        exact ⟨n, hn, rfl⟩

end Globals

/-- A global of another package. -/
def otherDraft : Draft where
  data := List.replicate (nilGuard + 4) 0
  globals := [{ name := "x", ty := .i32, storage := .global nilGuard, package := "other",
                declared := true }]

def otherOperand : Operand := { name := "x", package := "other" }

/-- A function with a parameter of the name, which asks for the global. -/
def shadowingDraft : FunctionDraft where
  package := "main"
  name := "take"
  params := [("x", .i32), ("y", .i32)]
  body := [{ inputs := [otherOperand], outputs := [{ name := "y" }] }]

/-- The function is laid out the same with and without the global. -/
theorem qualified_name_bound_shadowingDraft :
    shadowingDraft.operands[0]? = some otherOperand ∧ otherOperand.storage = .unassigned ∧
      otherOperand.package ≠ "" ∧ ∃ f, shadowingDraft.layout {} = .ok f ∧
        shadowingDraft.layout otherDraft = .ok f := by
  have hpackage : otherOperand.package ≠ "" := by decide
  have hbound := @qualified_name_bound shadowingDraft {} otherOperand 0 rfl rfl hpackage
  have hdeclared : otherOperand.name ∈ shadowingDraft.declared.map (·.1) := by decide
  exact ⟨rfl, rfl, hpackage, _, rfl, ((hbound.1 hdeclared).2 .i32 _ _ _ rfl).mpr rfl⟩

/-- The global is there, but the operand that names it is bound to the parameter. -/
theorem exists_captured_name : ∃ f b, (otherDraft.global? "other" "x").isSome = true ∧
    shadowingDraft.layout otherDraft = .ok f ∧ shadowingDraft.operands[0]? = some otherOperand ∧
      f.operands[0]? = some b ∧ b.storage = .frame 0 :=
  ⟨_, _, rfl, rfl, rfl, rfl, rfl⟩

end FlatMachine
