import FlatMachine.Proofs.Assignment
import FlatMachine.Proofs.Statements

/-!
# Assignments of literals

A literal is assigned part by part: every initialiser moves its argument to the field or element
that it is for. The parts that come earlier have been written by then, so an initialiser that reads
them finds their new bytes; any other finds the bytes from before the statement.
-/

namespace FlatMachine

open FlatMachine.Action

/-- The nodes initialise the fields of these names by moves. -/
def MovesFields (table : PrimitiveTable) : List Node → List String → Prop :=
  List.Forall₂ fun n name => n.isStructField = true ∧
    ∃ input output, n.Moves table input output ∧ output.name = name

/-- The nodes initialise these parts of a value by moves: different fields, or the elements from 0
on. -/
inductive Literal (table : PrimitiveTable) : List Node → List Access → Prop where
  | struct {value : List Node} {names : List String} (hdistinct : names.Nodup)
      (hfields : MovesFields table value names) :
      Literal table value (names.map fun name => .field { name })
  | array {value : List Node} (helements : ∀ n ∈ value, n.isStructField = false ∧
        n.isArrayElement = true ∧ ∃ input output, n.Moves table input output) :
      Literal table value ((List.range value.length).map fun i : Nat => .index (.const i))

namespace Literal

variable {table : PrimitiveTable} {value : List Node} {parts : List Access}

theorem moves (h : Literal table value parts) :
    ∀ n ∈ value, ∃ input output, n.Moves table input output := by
  intro n hn
  cases h with
  | struct _ hfields =>
    obtain ⟨name, -, -, input, output, hmoves, -⟩ := exists_of_forall₂_right hfields.flip hn
    exact ⟨input, output, hmoves⟩
  | array helements =>
    obtain ⟨-, -, hmoves⟩ := helements n hn
    exact hmoves

theorem isPart (h : Literal table value parts) :
    ∀ n ∈ value, n.isStructField = true ∨ n.isArrayElement = true := by
  intro n hn
  cases h with
  | struct _ hfields =>
    obtain ⟨name, -, hfield, -⟩ := exists_of_forall₂_right hfields.flip hn
    exact .inl hfield
  | array helements => exact .inr (helements n hn).2.1

theorem length_eq (h : Literal table value parts) : parts.length = value.length := by
  cases h with
  | struct _ hfields => rw [List.length_map, hfields.length_eq]
  | array => rw [List.length_map, List.length_range]

theorem written (h : Literal table value parts) {access : Access} (haccess : access ∈ parts) :
    (∃ name, access = .field { name }) ∨ ∃ i, access = .index (.const i) := by
  cases h with
  | struct =>
    obtain ⟨name, -, rfl⟩ := List.mem_map.mp haccess
    exact .inl ⟨name, rfl⟩
  | array =>
    obtain ⟨i, -, rfl⟩ := List.mem_map.mp haccess
    exact .inr ⟨i, rfl⟩

theorem nodup (h : Literal table value parts) : parts.Nodup := by
  cases h with
  | struct hdistinct =>
    refine hdistinct.map fun a b hab => ?_
    simpa using hab
  | array =>
    refine List.nodup_range.map fun a b hab => ?_
    simpa using hab

end Literal

/-- The initialiser writes a part of `base` now. -/
structure Node.Retargets (base : Operand) (n : Node) (access : Access) (n' : Node) : Prop where
  operator_eq : n'.operator = n.operator
  inputs_eq : n'.inputs = n.inputs
  output : ∃ p, n'.outputs = [p] ∧ p.PartOf base access

namespace Lowering

variable {table : PrimitiveTable} {base t : Operand} {n target : Node} {value ns : List Node}
  {parts : List Access} {names : List String} {lw lw' : Lowering}

theorem retargets_modifyOutput {p output : Operand} {access : Access}
    (houtputs : n.outputs = [output]) (hp : p.PartOf base access) :
    n.Retargets base access (n.modifyOutput fun _ => p) :=
  ⟨rfl, rfl, p, by rw [Node.modifyOutput, houtputs]; rfl, hp⟩

theorem retargets_of_assignFields (hfields : MovesFields table value names)
    (h : assignFields base value = .ok ns) : List.Forall₂ (fun x n' => x.1.Retargets base x.2 n')
      (value.zip (names.map fun name => .field { name })) ns := by
  induction hfields generalizing ns with
  | nil =>
    cases h
    exact .nil
  | @cons n name value names hn _ ih =>
    obtain ⟨hfield, input, output, hmoves, rfl⟩ := hn
    unfold assignFields at h
    rw [if_pos hfield] at h
    obtain ⟨o, ho, h⟩ := bind_eq_ok.mp h
    obtain ⟨rest, hrest, h⟩ := bind_eq_ok.mp h
    cases h
    rw [hmoves.outputs_eq] at ho
    cases ho
    exact .cons (retargets_modifyOutput hmoves.outputs_eq ⟨rfl, rfl, rfl, rfl, rfl⟩) (ih hrest)

theorem retargets_of_assignElements (helements : ∀ n ∈ value, n.isArrayElement = true ∧
      ∃ input output, n.Moves table input output) (start : Nat)
    (h : assignElements base start value = .ok ns) :
    List.Forall₂ (fun x n' => x.1.Retargets base x.2 n')
      (value.zip ((List.range' start value.length).map fun i : Nat => .index (.const i))) ns := by
  induction value generalizing start ns with
  | nil =>
    cases h
    exact .nil
  | cons n value ih =>
    obtain ⟨hn, hvalue⟩ := List.forall_mem_cons.mp helements
    obtain ⟨helement, input, output, hmoves⟩ := hn
    unfold assignElements at h
    rw [if_pos helement, hmoves.outputs_eq] at h
    obtain ⟨rest, hrest, h⟩ := bind_eq_ok.mp h
    cases h
    exact .cons (retargets_modifyOutput hmoves.outputs_eq ⟨rfl, rfl, rfl, rfl, rfl⟩)
      (ih hvalue _ hrest)

/-- The literal is not one by pointer. -/
def IsDirect (value : List Node) : Prop :=
  ∀ n ∈ value.getLast?, n.isStructField = true → ∀ o ∈ n.outputs, o.literalPointer = false

theorem retargets_of_assignment (hvalue : Literal table value parts) (hdirect : IsDirect value)
    (htarget : target.outputs.head? = some t)
    (h : assignment [target] .assign value lw = .ok ns lw') :
    List.Forall₂ (fun x n' => x.1.Retargets t x.2 n') (value.zip parts) ns := by
  obtain ⟨o, last, ho, hlast, hassigns⟩ := assignment_assign_eq_ok.mp h
  have ht : target? [target] = some t := htarget
  cases ht.symm.trans ho
  have hmem := List.mem_of_getLast? hlast
  cases hvalue with
  | struct _ hfields =>
    obtain ⟨name, -, hstruct, input, output, hmoves, -⟩ := exists_of_forall₂_right hfields.flip hmem
    cases hassigns with
    | @struct written _ hassigned hns =>
      have hpointer := hdirect last (by simp [hlast]) hstruct output (by simp [hmoves.outputs_eq])
      have hwritten : assignFields t value = .ok written ∧ lw' = lw := by
        simpa [structLiteralAssignment, get_bind_apply, ht, hlast, hmoves.outputs_eq, hpointer,
          require, ofExcept_ok_bind, ofExcept_eq_ok] using hassigned
      rw [hns]
      exact retargets_of_assignFields hfields hwritten.1
    | array hnot => cases hstruct.symm.trans hnot
    | other hnot => cases hstruct.symm.trans hnot
  | array helements =>
    obtain ⟨hstruct, harray, -⟩ := helements last hmem
    cases hassigns with
    | struct hnot => cases hstruct.symm.trans hnot
    | array _ _ hassigned _ hns =>
      simp only [arrayLiteralAssignment, ht, require] at hassigned
      rw [hns, List.range_eq_range']
      exact retargets_of_assignElements (fun n hn => (helements n hn).2) 0 hassigned
    | other _ hnot => cases harray.symm.trans hnot

end Lowering

/-- The byte belongs to one of these parts of a value. -/
def Place.InParts (t : StructTable) (whole : Place) (parts : List Access) (b : Nat) : Prop :=
  ∃ access ∈ parts, ∃ part, whole.Part t access part ∧ part.Covers b

namespace Machine

variable {l : FrameLayout} {value ns : List Node} {parts : List Access} {fp : Nat}
  {m m' s : Machine} {whole : Place} {n : Node} {access : Access}

/-- The bytes that the operand stands for depend on that byte of memory. -/
def DependsOn (m : Machine) (fp : Nat) (o : Operand) (b : Nat) : Prop :=
  ∃ r ∈ o.footprint m.program.structs m.arena fp, r.1 ≤ b ∧ b < r.1 + r.2

/-- The laid-out node moves the argument of the initialiser to a part of the value. -/
def MovesInto (m : Machine) (fp : Nat) (l : FrameLayout) (whole : Place) (n : Node)
    (access : Access) (n' : Node) : Prop :=
  ∃ e e' p, n.inputs = [e] ∧ l.bind e = .ok e' ∧ n'.Moves m.primitives e' p ∧
    ∀ part, m.place fp p = .ok part → whole.Part m.program.structs access part

/-- Nodes that move the arguments of the initialisers to the parts of a value that they are for. -/
structure WritesParts (m : Machine) (fp : Nat) (l : FrameLayout) (whole : Place) (value : List Node)
    (parts : List Access) (ns : List Node) : Prop where
  packed : m.program.structs.Packed
  literal : Literal m.primitives value parts
  made : List.Forall₂ (fun x n' => m.MovesInto fp l whole x.1 x.2 n') (value.zip parts) ns
  steady : SteadyAlong m m fp ns

namespace WritesParts

theorem moves (h : WritesParts m fp l whole value parts ns) :
    ∀ n ∈ ns, ∃ input output, n.Moves m.primitives input output := by
  intro n hn
  obtain ⟨x, -, e, e', p, -, -, hmoves, -⟩ := exists_of_forall₂_right h.made hn
  exact ⟨e', p, hmoves⟩

theorem isStraight (h : WritesParts m fp l whole value parts ns) : ∀ n ∈ ns, n.IsStraight := by
  intro n hn
  obtain ⟨input, output, hmoves⟩ := h.moves n hn
  exact hmoves.isStraight

theorem length_eq (h : WritesParts m fp l whole value parts ns) : ns.length = value.length := by
  rw [← h.made.length_eq, List.length_zip, h.literal.length_eq, Nat.min_self]

theorem apart (h : WritesParts m fp l whole value parts ns) :
    ns.Pairwise fun n n' => ∀ o ∈ n.outputs, ∀ o' ∈ n'.outputs, ∀ x y,
      m.place fp o = .ok x → m.place fp o' = .ok y → x.Apart y := by
  have hpair : (value.zip parts).Pairwise fun x y => x.2 ≠ y.2 := by
    rw [← List.pairwise_map (f := Prod.snd) (R := (· ≠ ·)), List.map_snd_zip h.literal.length_eq.le]
    exact h.literal.nodup
  refine pairwise_of_forall₂ h.made hpair ?_
  rintro a - a' - b b' ⟨_, _, p, -, -, hb, hpart⟩ ⟨_, _, p', -, -, hb', hpart'⟩ hne
  rw [hb.outputs_eq, hb'.outputs_eq]
  intro o ho o' ho' x y hx hy
  cases List.mem_singleton.mp ho
  cases List.mem_singleton.mp ho'
  exact (hpart x hx).apart h.packed (hpart' y hy) hne

/-- The first nodes write the first parts. -/
theorem inParts_of_outputCovers (h : WritesParts m fp l whole value parts ns) {i b : Nat}
    (hb : m.OutputCovers fp (ns.take i) b) :
    whole.InParts m.program.structs (parts.take i) b := by
  obtain ⟨n, hn, o, ho, part, hpart, hcovers⟩ := hb
  obtain ⟨x, hx, e, e', p, -, -, hmoves, hplace⟩ :=
    exists_of_forall₂_right (List.forall₂_take i h.made) hn
  rw [hmoves.outputs_eq] at ho
  cases List.mem_singleton.mp ho
  rw [List.zip_eq_zipWith, List.take_zipWith, ← List.zip_eq_zipWith] at hx
  exact ⟨x.2, (List.of_mem_zip hx).2, part, hplace part hpart, hcovers⟩

/-- Nothing but the first parts is touched by the first nodes. -/
theorem touches (h : WritesParts m fp l whole value parts ns) {i : Nat}
    (hrun : executeAll fp (ns.take i) m = .ok () s) :
    Touches (whole.InParts m.program.structs (parts.take i)) m s := by
  have hsteady : SteadyAlong m m fp (ns.take i ++ ns.drop i) := by
    rw [List.take_append_drop]
    exact h.steady
  have hmoves : ∀ n ∈ ns.take i, ∃ input output, n.Moves m.primitives input output :=
    fun n hn => h.moves n (List.mem_of_mem_take hn)
  exact (touches_moves hmoves hsteady.front hrun).mono fun b => h.inParts_of_outputCovers

theorem touches_all (h : WritesParts m fp l whole value parts ns)
    (hrun : executeAll fp ns m = .ok () m') :
    Touches (whole.InParts m.program.structs parts) m m' := by
  rw [← List.take_length (l := ns)] at hrun
  have htouches := h.touches hrun
  rwa [List.take_of_length_le (h.literal.length_eq.trans h.length_eq.symm).le] at htouches

/-- After the run every part holds the bytes that its initialiser's argument stood for when it was
moved, and these are the bytes from before the run, if they depend on no part written earlier. -/
theorem hold (h : WritesParts m fp l whole value parts ns)
    (hrun : executeAll fp ns m = .ok () m') {i : Nat} (hn : value[i]? = some n)
    (haccess : parts[i]? = some access) :
    ∃ e e' s bytes part, n.inputs = [e] ∧ l.bind e = .ok e' ∧
      executeAll fp (ns.take i) m = .ok () s ∧
      e'.bytes m.program.structs s.arena fp = .ok bytes ∧
      whole.Part m.program.structs access part ∧ m'.arena.read part.offset part.size = .ok bytes ∧
      ((∀ b, m.DependsOn fp e' b → ¬ whole.InParts m.program.structs (parts.take i) b) →
        e'.bytes m.program.structs m.arena fp = .ok bytes) := by
  have hx : (value.zip parts)[i]? = some (n, access) := by
    rw [List.getElem?_zip_eq_some]
    exact ⟨hn, haccess⟩
  obtain ⟨n', hn', e, e', p, he, hbound, hmoves, hpart⟩ := exists_getElem?_of_forall₂ h.made.flip hx
  obtain ⟨hlt, rfl⟩ := List.getElem?_eq_some_iff.mp hn'
  have hsplit : ns = ns.take i ++ ns[i] :: ns.drop (i + 1) := by
    rw [← List.drop_eq_getElem_cons hlt, List.take_append_drop]
  obtain ⟨input, output, s, bytes, place, hinputs, houtputs, hs, hbytes, hplace, hlen, hle, hstores,
    hold⟩ := moves_hold h.moves h.steady h.apart hrun hsplit
  rw [hmoves.inputs_eq] at hinputs
  rw [hmoves.outputs_eq] at houtputs
  cases hinputs
  cases houtputs
  rw [(h.touches hs).program_eq] at hbytes
  refine ⟨e, e', s, bytes, place, he, hbound, hs, hbytes, hpart place hplace, ?_, fun hunread => ?_⟩
  · rw [← hlen] at hle ⊢
    exact hstores.read hle
  · apply hold
    intro r hr b hrb hbr hcovers
    exact hunread b ⟨r, hr, hrb, hbr⟩ (h.inParts_of_outputCovers hcovers)

end WritesParts

end Machine

/-- In the frame `l` the node moves the argument of the initialiser to a part of the operand. -/
def FrameLayout.MovesToPart (l : FrameLayout) (table : PrimitiveTable) (o : Operand) (n : Node)
    (access : Access) (n' : Node) : Prop :=
  ∃ e e' p ty access', n.inputs = [e] ∧ l.bind e = .ok e' ∧ n'.Moves table e' p ∧
    o.valueTy l.structs = .ok ty ∧ l.linkAccess ty access = .ok access' ∧ p.PartOf o access'

theorem Node.Retargets.movesToPart {l : FrameLayout} {table : PrimitiveTable}
    {t o input output : Operand} {n n₁ n' : Node} {access : Access} (h : n.Retargets t access n₁)
    (hmoves : n.Moves table input output) (hbinds : l.BindsNode n₁ n') (ho : l.bind t = .ok o) :
    l.MovesToPart table o n access n' := by
  obtain ⟨p, hp, hpart⟩ := h.output
  have hinputs := hbinds.inputs
  have houtputs := hbinds.outputs
  rw [h.inputs_eq, hmoves.inputs_eq] at hinputs
  rw [hp] at houtputs
  obtain ⟨e', hinput, hbound⟩ := exists_of_forall₂_singleton hinputs
  obtain ⟨p', houtput, hbound'⟩ := exists_of_forall₂_singleton houtputs
  obtain ⟨o', ty, access', ho', hty, haccess, hpart'⟩ := hpart.bind hbound'
  cases ho.symm.trans ho'
  refine ⟨input, e', p', ty, access', hmoves.inputs_eq, hbound, ⟨hinput, houtput, ?_⟩, hty, haccess,
    hpart'⟩
  rw [hbinds.operator_eq, h.operator_eq]
  exact hmoves.operator

section Statement

variable {fd : FunctionDraft} {d d' : Draft} {l : FrameLayout} {f : Function} {lw lw' : Lowering}
  {t t' o : Operand} {target : Node} {value ns ns' : List Node} {parts : List Access}
  {table : PrimitiveTable} {m m' : Machine} {frame : Frame} {whole : Place} {pc fp : Nat}

theorem movesToPart_of_binds (hbinds : List.Forall₂ l.BindsNode ns ns')
    (hvalue : Literal table value parts)
    (hwritten : List.Forall₂ (fun x n' => x.1.Retargets t x.2 n') (value.zip parts) ns)
    (ht : l.bind t = .ok t') :
    List.Forall₂ (fun x n' => l.MovesToPart table t' x.1 x.2 n') (value.zip parts) ns' := by
  refine forall₂_of_forall₂ hwritten hbinds fun x hx n n' hn hn' => ?_
  obtain ⟨input, output, hmoves⟩ := hvalue.moves x.1 (List.of_mem_zip hx).1
  exact hn.movesToPart hmoves hn' ht

theorem isStraight_of_movesToPart {xs : List (Node × Access)}
    (hmade : List.Forall₂ (fun x n' => l.MovesToPart table o x.1 x.2 n') xs ns) :
    ∀ n ∈ ns, n.IsStraight := by
  intro n hn
  obtain ⟨x, -, e, e', p, ty, access', -, -, hmoves, -⟩ := exists_of_forall₂_right hmade hn
  exact hmoves.isStraight

theorem Literal.isStatic (h : Literal table value parts) {access : Access}
    (haccess : access ∈ parts) : access.IsStatic := by
  rcases h.written haccess with ⟨name, rfl⟩ | ⟨i, rfl⟩
  · trivial
  · trivial

/-- The parts of an operand that leads to the same value throughout and not to a handle. -/
theorem Machine.writesParts_of_steady (hpacked : m.program.structs.Packed)
    (hgrows : l.structs.Grows m.program.structs) (hlinked : ChainLinked l.structs o.ty o.chain)
    (hvalue : Literal m.primitives value parts)
    (hmade : List.Forall₂ (fun x n' => l.MovesToPart m.primitives o x.1 x.2 n')
      (value.zip parts) ns)
    (hdirect : whole.ty.isHandle = false) (hwhole : m.place fp o = .ok whole)
    (hsteady : ∀ front n back, ns = front ++ n :: back → ∀ s, executeAll fp front m = .ok () s →
      s.place fp o = .ok whole) : m.WritesParts fp l whole value parts ns := by
  have hstatic := (hgrows.chainLinked hlinked).valueTy_of_place hpacked hwhole
  refine ⟨hpacked, hvalue, forall₂_imp_of_mem hmade ?_, ?_⟩
  · rintro x hx n ⟨e, e', p, ty, access', he, hbound, hmoves, hty, haccess, hpart⟩
    cases hstatic.symm.trans (hgrows.valueTy hty)
    refine ⟨e, e', p, he, hbound, hmoves, fun part => ?_⟩
    exact hpart.part_of_place hpacked hgrows haccess (hvalue.written (List.of_mem_zip hx).2) hdirect
      hwhole
  · intro front n back hns s hs output houtput
    have hn : n ∈ ns := hns ▸ List.mem_append_right _ List.mem_cons_self
    obtain ⟨x, hx, e, e', p, ty, access', -, -, hmoves, -, haccess, hpart⟩ :=
      exists_of_forall₂_right hmade hn
    rw [hmoves.outputs_eq] at houtput
    cases List.mem_singleton.mp houtput
    have hprogram : s.program = m.program := by
      obtain ⟨⟨work, rfl⟩, -⟩ := executeAll_ok hs
      rfl
    have hs' := hsteady front n back hns s hs
    unfold place at hs' ⊢
    rw [hprogram] at hs' ⊢
    exact hpart.place_eq_of_place ((hvalue.isStatic (List.of_mem_zip hx).2).of_linkAccess haccess)
      hdirect hwhole hs'

/-- From `m` to `m'` the parts of a value have been assigned: each holds the bytes that its
initialiser stood for in the state in which it was executed, with the parts before it written. These
are the bytes from before if they do not depend on a part written earlier. -/
def Machine.AssignsParts (m : Machine) (fp : Nat) (l : FrameLayout) (whole : Place)
    (value : List Node) (parts : List Access) (m' : Machine) : Prop :=
  ∀ i n access, value[i]? = some n → parts[i]? = some access →
    ∃ e e' s bytes part, n.inputs = [e] ∧ l.bind e = .ok e' ∧ advances i m = .ok () s ∧
      e'.bytes m.program.structs s.arena fp = .ok bytes ∧
      whole.Part m.program.structs access part ∧ m'.arena.read part.offset part.size = .ok bytes ∧
      ((∀ b, m.DependsOn fp e' b → ¬ whole.InParts m.program.structs (parts.take i) b) →
        e'.bytes m.program.structs m.arena fp = .ok bytes)

theorem FunctionDraft.Lays.assignsParts (hlays : fd.Lays d l f frame.pc ns ns')
    (hframe : m.stack.top? = some frame) (hf : m.program.function? frame.function = some f)
    (hwrites : m.WritesParts frame.fp l whole value parts ns')
    (hrun : Machine.advances ns.length m = .ok () m') :
    m.AssignsParts frame.fp l whole value parts m' := by
  have hstraight := hwrites.isStraight
  obtain ⟨m₁, hm₁, rfl⟩ := (hlays.advances_eq_ok hframe hf hstraight hlays.length_eq.ge).mp hrun
  rw [← hlays.length_eq, List.take_length] at hm₁
  intro i n access hn haccess
  obtain ⟨e, e', s, bytes, part, he, hbound, hs, hheld⟩ := hwrites.hold hm₁ hn haccess
  have hi : i ≤ ns'.length := by
    rw [hwrites.length_eq]
    exact (List.getElem?_eq_some_iff.mp hn).1.le
  exact ⟨e, e', s.setPc (frame.pc + i), bytes, part, he, hbound,
    (hlays.advances_eq_ok hframe hf hstraight hi).mpr ⟨s, hs, rfl⟩, hheld⟩

/-- A literal assigned to an operand that leads to the same value throughout: when all is done,
every field or element that it names holds what its initialiser stood for when it was executed. -/
theorem literal_assignment_holds (hd : d.Reachable) (hgrows : d.Grows d')
    (hstructs : m.program.structs = d'.structs) (hvalue : Literal m.primitives value parts)
    (hdirect : Lowering.IsDirect value) (htarget : target.outputs.head? = some t)
    (hlower : Lowering.assignment [target] .assign value lw = .ok ns lw')
    (hlays : fd.Lays d l f frame.pc ns ns') (hframe : m.stack.top? = some frame)
    (hf : m.program.function? frame.function = some f) (ht : l.bind t = .ok t')
    (hwhole : whole.ty.isHandle = false)
    (hsteady : ∀ k < ns.length, ∀ s, Machine.advances k m = .ok () s →
      s.place frame.fp t' = .ok whole)
    (hrun : Machine.advances ns.length m = .ok () m') :
    m.AssignsParts frame.fp l whole value parts m' := by
  have hmade := movesToPart_of_binds hlays.binds hvalue
    (Lowering.retargets_of_assignment hvalue hdirect htarget hlower) ht
  have hstraight := isStraight_of_movesToPart hmade
  have hplace : ∀ k < ns.length, ∀ s, Machine.executeAll frame.fp (ns'.take k) m = .ok () s →
      s.place frame.fp t' = .ok whole := by
    intro k hk s hs
    apply hsteady k hk (s.setPc (frame.pc + k))
    exact (hlays.advances_eq_ok hframe hf hstraight (hlays.length_eq ▸ hk.le)).mpr ⟨s, hs, rfl⟩
  intro i n access hn
  have hlength : ns'.length = value.length := by
    rw [← hmade.length_eq, List.length_zip, hvalue.length_eq, Nat.min_self]
  have hpos : 0 < ns.length := by
    rw [← hlays.length_eq, hlength]
    exact Nat.zero_lt_of_lt (List.getElem?_eq_some_iff.mp hn).1
  refine hlays.assignsParts hframe hf ?_ hrun i n access hn
  refine Machine.writesParts_of_steady ?_ ?_ (FrameLayout.binds_of_bind ht).linked hvalue hmade
    hwhole (hplace 0 hpos m rfl) ?_
  · exact hstructs ▸ Draft.Reachable.packed (hd.trans hgrows)
  · rw [FrameLayout.structs, hlays.draft_eq, hstructs]
    exact hgrows.structs
  · intro front n back hns s hs
    have htake : ns'.take front.length = front := by rw [hns, List.take_left]
    apply hplace front.length ?_ s (htake.symm ▸ hs)
    rw [← hlays.length_eq, hns, List.length_append, List.length_cons]
    omega

end Statement

/-- The initialisers of the pair that has the fields of `t` swapped. -/
def swapValue : List Node := [
  { inputs := [{ name := "t", chain := [.field { name := "y" }] }]
    outputs := [{ name := "x", structName := some "Pair" }], isStructField := true },
  { inputs := [{ name := "t", chain := [.field { name := "x" }] }]
    outputs := [{ name := "y", structName := some "Pair" }], isStructField := true }]

/-- What the assignment of that pair to `t` is lowered to. -/
def swapBody : List Node := [
  { inputs := [{ name := "t", chain := [.field { name := "y" }] }]
    outputs := [{ name := "t", chain := [.field { name := "x" }], structName := some "Pair" }]
    isStructField := true },
  { inputs := [{ name := "t", chain := [.field { name := "x" }] }]
    outputs := [{ name := "t", chain := [.field { name := "y" }], structName := some "Pair" }]
    isStructField := true }]

def swapDraft : FunctionDraft where
  package := "main"
  name := "swap"
  params := [("t", .struct "Pair")]
  body := swapBody

/-- An operand of the laid-out function. -/
def swapOperand (chain : List Access) : Operand :=
  { name := "t", ty := .struct "Pair", storage := .frame 0, chain, package := "main" }

def swapField (name : String) (offset : Nat) : Operand :=
  swapOperand [.field { name, offset, ty := .i32 }]

/-- The function, laid out. -/
def swapFunction : Function where
  package := "main"
  name := "swap"
  params := [{ swapOperand [] with declared := true }]
  body := [
    { inputs := [swapField "y" 4], outputs := [{ swapField "x" 0 with structName := some "Pair" }]
      package := "main", isStructField := true },
    { inputs := [swapField "x" 0], outputs := [{ swapField "y" 4 with structName := some "Pair" }]
      package := "main", isStructField := true }]
  frameSize := 8

/-- The frame of the call that is in progress. -/
def swapFrame : Frame where
  function := ⟨"main", "swap"⟩
  fp := 8
  callerFp := 8
  size := 8
  returnsToCaller := false

/-- The frame layout of the function. -/
def swapLayout : FrameLayout where
  package := "main"
  draft := pairDraft
  slots := [⟨"t", 0, .struct "Pair"⟩]
  size := 8

/-- The lowering in the package of the function. -/
def swapLowering : Lowering where
  structs := pairDraft.structs
  primitives := .empty
  package := "main"

/-- A machine in the function, with the pair of 1 and 2 in `t`. -/
def swapMachine : Machine where
  program := {
    structs := pairDraft.structs, data := List.replicate nilGuard 0, functions := [swapFunction] }
  primitives := .empty
  options := {}
  work := {
    arena := {
      image := #[0, 0, 0, 0, 0, 0, 0, 0, 1, 0, 0, 0, 2, 0, 0, 0]
      stackStart := 8, stackEnd := 16, capacity := 16, limit := 16 }
    random := .ofSeed 0 }
  stack := { frames := [swapFrame], maxDepth := 1 }

theorem reachable_pairDraft : pairDraft.Reachable := by
  have hdefine : Draft.defineStruct {} "Pair" [("x", .i32), ("y", .i32)] =
      .ok (⟨"Pair", [⟨"x", .i32, 0⟩, ⟨"y", .i32, 4⟩], 8⟩, pairDraft) := rfl
  exact .tail .refl (.defineStruct hdefine)

theorem literal_swapValue :
    Literal .empty swapValue [.field { name := "x" }, .field { name := "y" }] := by
  have hmoves : MovesFields .empty swapValue ["x", "y"] :=
    .cons ⟨rfl, _, _, ⟨rfl, rfl, .inl rfl⟩, rfl⟩ (.cons ⟨rfl, _, _, ⟨rfl, rfl, .inl rfl⟩, rfl⟩ .nil)
  exact .struct (by decide) hmoves

theorem isDirect_swapValue : Lowering.IsDirect swapValue := by
  intro n hn _ o ho
  cases hn
  cases List.mem_singleton.mp ho
  rfl

theorem assignment_swapValue : Lowering.assignment [.value { name := "t" }] .assign swapValue
    swapLowering = .ok swapBody swapLowering := rfl

theorem lays_swapDraft :
    swapDraft.Lays pairDraft swapLayout swapFunction 0 swapBody swapFunction.body :=
  ⟨rfl, rfl, List.prefix_rfl, List.prefix_rfl, rfl⟩

theorem steady_swapMachine : ∀ k < swapBody.length, ∀ s,
    Machine.advances k swapMachine = .ok () s →
      s.place swapFrame.fp (swapOperand []) = .ok ⟨8, .struct "Pair", 8⟩
  | 0, _, s, hs => by
    cases hs
    rfl
  | 1, _, s, hs => by
    cases hs
    rfl

/-- The first field gets what the second one held. -/
theorem literal_assignment_holds_swapMachine : ∃ m', Machine.advances 2 swapMachine = .ok () m' ∧
    m'.arena.read 8 4 = .ok [2, 0, 0, 0] := by
  obtain ⟨m', hm'⟩ : ∃ m', Machine.advances 2 swapMachine = .ok () m' := ⟨_, rfl⟩
  have h := literal_assignment_holds reachable_pairDraft .refl rfl literal_swapValue
    isDirect_swapValue rfl assignment_swapValue lays_swapDraft rfl rfl rfl (by rfl)
    steady_swapMachine hm'
  obtain ⟨e, e', s, bytes, part, he, hbound, -, -, hpart, hread, hunread⟩ := h 0 _ _ rfl rfl
  cases he
  cases hbound
  cases hpart with
  | field hty hfield hsize =>
    cases hty
    cases hfield
    cases hsize
    have hbytes := hunread nofun
    cases hbytes
    exact ⟨m', hm', hread⟩

/-- The second field gets what the first one has been overwritten with, and not the 1 that its
initialiser stood for before the statement. -/
theorem literal_assignment_rereads_field :
    (Literal swapMachine.primitives swapValue [.field { name := "x" }, .field { name := "y" }] ∧
      Lowering.IsDirect swapValue ∧
      Lowering.assignment [.value { name := "t" }] .assign swapValue swapLowering =
        .ok swapBody swapLowering ∧
      swapDraft.Lays pairDraft swapLayout swapFunction swapFrame.pc swapBody swapFunction.body ∧
      swapMachine.stack.top? = some swapFrame ∧
      swapMachine.program.function? swapFrame.function = some swapFunction ∧
      ∀ k < swapBody.length, ∀ s, Machine.advances k swapMachine = .ok () s →
        s.place swapFrame.fp (swapOperand []) = .ok ⟨8, .struct "Pair", 8⟩) ∧
    (swapField "x" 0).bytes pairDraft.structs swapMachine.arena swapFrame.fp = .ok [1, 0, 0, 0] ∧
    ∃ m', Machine.advances swapBody.length swapMachine = .ok () m' ∧
      m'.place swapFrame.fp (swapField "y" 4) = .ok ⟨12, .i32, 4⟩ ∧
      m'.arena.read 12 4 = .ok [2, 0, 0, 0] :=
  ⟨⟨literal_swapValue, isDirect_swapValue, rfl, lays_swapDraft, rfl, rfl, steady_swapMachine⟩, rfl,
    _, rfl, rfl, rfl⟩

end FlatMachine
