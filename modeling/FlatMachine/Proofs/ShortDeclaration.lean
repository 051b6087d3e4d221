import FlatMachine.Proofs.Completion
import FlatMachine.Proofs.PointerLiteral
import Mathlib.Data.List.Infix

/-!
# Short declarations

A short declaration first initialises its targets anew, whether or not they were declared before. It
then is the plain assignment of the same value, so the value is that of the state with the targets
initialised. All else that was allocated is what it was, and an operand that does not read a target
stands for what it stood for before the statement.
-/

namespace FlatMachine

open FlatMachine.Action

namespace Arena

variable {t : StructTable} {places : List Place} {a b : Arena} {ranges : List (Nat × Nat)}

/-- Declarations have initialised the slots at these places one after another. -/
inductive DeclaresSlots (t : StructTable) : List Place → Arena → Arena → Prop where
  | nil (a : Arena) : DeclaresSlots t [] a a
  | cons {place : Place} {places : List Place} {escapes : Bool} {a b c : Arena}
      (h : a.DeclaresSlot t escapes place b) (hrest : DeclaresSlots t places b c) :
      DeclaresSlots t (place :: places) a c

namespace DeclaresSlots

theorem heapPointer_le (h : a.DeclaresSlots t places b) : a.heapPointer ≤ b.heapPointer := by
  induction h with
  | nil => exact le_rfl
  | cons h _ ih => exact h.heapPointer_le.trans ih

theorem stop_le (h : a.DeclaresSlots t places b) :
    ∀ place ∈ places, place.offset + place.size ≤ b.heapPointer := by
  induction h with
  | nil => nofun
  | cons h hrest ih =>
    exact List.forall_mem_cons.mpr
      ⟨(h.stop_le.trans h.heapPointer_le).trans hrest.heapPointer_le, ih⟩

/-- Ranges aside from the slots are read as before. -/
theorem sameOn (h : a.DeclaresSlots t places b)
    (haside : ∀ place ∈ places, a.HoldsAside place ranges) : a.SameOn b ranges := by
  induction h with
  | nil => exact fun _ _ => rfl
  | cons h _ ih =>
    obtain ⟨hplace, hplaces⟩ := List.forall_mem_cons.mp haside
    have hfirst := hplace.sameOn h.heapPointer_le h.same
    have hrest := ih fun place hmem r hr =>
      ⟨(hplaces place hmem r hr).1.trans h.heapPointer_le, (hplaces place hmem r hr).2⟩
    exact fun r hr => (hrest r hr).trans (hfirst r hr)

end DeclaresSlots

end Arena

/-- The place of a name in the frame at `fp`. -/
def FrameLayout.PlaceOf (l : FrameLayout) (t : StructTable) (fp : Nat) (name : String)
    (place : Place) : Prop :=
  ∃ slot ∈ l.inOrder, slot.name = name ∧ place.offset = fp + slot.offset ∧ place.ty = slot.ty ∧
    slot.ty.size t = .ok place.size

section Slots

variable {l : FrameLayout} {declared : List (String × Ty)} {t : StructTable} {fp : Nat}
  {name name' : String} {place place' : Place} {o o' : Operand}

theorem FrameLayout.PlaceOf.size_eq (h : l.PlaceOf t fp name place) :
    place.ty.size t = .ok place.size := by
  obtain ⟨slot, -, -, -, hty, hsize⟩ := h
  rwa [hty]

/-- A name has one place in a frame. -/
theorem FrameLayout.PlaceOf.unique (h : l.PlaceOf t fp name place)
    (h' : l.PlaceOf t fp name place') (hlaid : l.LaidOut declared) : place = place' := by
  obtain ⟨slot, hslot, hname, hoffset, hty, hsize⟩ := h
  obtain ⟨slot', hslot', hname', hoffset', hty', hsize'⟩ := h'
  cases List.inj_on_of_nodup_map hlaid.nodup hslot hslot' (hname.trans hname'.symm)
  obtain ⟨offset, ty, size⟩ := place
  cases hoffset
  cases hty
  cases hsize.symm.trans hsize'
  obtain ⟨offset', ty', size'⟩ := place'
  cases hoffset'
  cases hty'
  rfl

/-- Names that differ have places without a common byte. -/
theorem FrameLayout.PlaceOf.apart (h : l.PlaceOf t fp name place)
    (h' : l.PlaceOf t fp name' place') (hlaid : l.LaidOut declared) (hgrows : l.structs.Grows t)
    (hne : name ≠ name') : place.Apart place' := by
  obtain ⟨slot, hslot, rfl, hoffset, -, hsize⟩ := h
  obtain ⟨slot', hslot', rfl, hoffset', -, hsize'⟩ := h'
  have hslots : slot ≠ slot' := fun heq => hne (congrArg Slot.name heq)
  have hpair := List.pairwise_map.mp (hgrows.tiled hlaid.tiled).disjoint
  intro i hi hi'
  unfold Place.Covers at hi hi'
  rcases or_of_pairwise hpair hslot hslot' hslots with hle | hle
  · have hgap : slot.offset + place.size ≤ slot'.offset := hle _ hsize
    omega
  · have hgap : slot'.offset + place'.size ≤ slot.offset := hle _ hsize'
    omega

/-- A plain operand is bound to the place of its name. -/
theorem FrameLayout.PlaceOf.place_eq (h : l.PlaceOf t fp o.name place) (hlaid : l.LaidOut declared)
    (hplain : o.isPlain = true) (hunassigned : o.storage = .unassigned) (hbind : l.bind o = .ok o')
    (a : Arena) : o'.place t a fp = .ok place := by
  obtain ⟨slot, hslot, hname, hplace⟩ := h
  obtain ⟨hat, -⟩ := hlaid.bind_slot hslot hname hplain hunassigned hbind
  exact hat.place_eq_ok.mpr hplace

end Slots

namespace Machine

variable {l : FrameLayout} {declared : List (String × Ty)} {lw : Lowering} {symbols : List Operand}
  {ns : List Node} {m m' : Machine} {fp : Nat}

/-- Executing the declarations of symbols that have slots. -/
theorem declaresSlots_of_run (hlaid : l.LaidOut declared)
    (hsymbols : ∀ symbol ∈ symbols, symbol.isPlain = true ∧ symbol.storage = .unassigned ∧
      ∃ slot ∈ l.inOrder, slot.name = symbol.name)
    (hbinds : List.Forall₂ l.BindsNode (symbols.map lw.declaration) ns)
    (hrun : executeAll fp ns m = .ok () m') :
    ∃ places, List.Forall₂ (fun (symbol : Operand) place =>
        l.PlaceOf m.program.structs fp symbol.name place) symbols places ∧
      m.arena.DeclaresSlots m.program.structs places m'.arena := by
  induction symbols generalizing ns m with
  | nil =>
    cases hbinds
    cases hrun
    exact ⟨[], .nil, .nil _⟩
  | cons symbol symbols ih =>
    obtain ⟨n, rest, hn, hrest, rfl⟩ := List.forall₂_cons_left_iff.mp hbinds
    obtain ⟨⟨hplain, hunassigned, slot, hslot, hname⟩, hsymbols⟩ := List.forall_mem_cons.mp hsymbols
    obtain ⟨o, houtputs, hbind⟩ := exists_of_forall₂_singleton hn.outputs
    obtain ⟨s, hs, hrun⟩ := executeAll_cons_ok.mp hrun
    obtain ⟨place, b, hplace, hdeclares, rfl⟩ := (ends_declaration hn.operator_eq
      (List.forall₂_nil_left_iff.mp hn.inputs) houtputs).value hs
    obtain ⟨places, hplaces, hslots⟩ := ih hsymbols hrest hrun
    obtain ⟨hat, -⟩ := hlaid.bind_slot hslot hname hplain hunassigned hbind
    exact ⟨place :: places, .cons ⟨slot, hslot, hname, hat.place_eq_ok.mp hplace⟩ hplaces,
      .cons hdeclares hslots⟩

/-- The machine has come to a node of the frame. -/
def ReachesNode (m : Machine) (frame : Frame) (outer : List Frame) (pc : Nat) (s : Machine) :
    Prop :=
  ∃ k, advances k m = .ok () s ∧ s.stack.frames = { frame with pc } :: outer

/-- The results are the value of the node `last`, for which the laid-out node `n` is executed: what
its operator or callee gives for the same inputs, or the bytes that its operand stands for. -/
inductive GivesValue (s : Machine) (fp : Nat) (l : FrameLayout) (last n : Node) (slots : Slots) :
    Prop where
  | operator {op : Operator} (hlast : last.operator = some op) (hop : n.operator = some op)
      (hinputs : List.Forall₂ (fun o o' => l.bind o = .ok o') last.inputs n.inputs)
  | operand {e e' : Operand} {bytes : Bytes} (hlast : last.operator = none)
      (he : last.outputs.head? = some e) (hbound : l.bind e = .ok e')
      (hbytes : e'.bytes s.program.structs s.arena fp = .ok bytes)
      (hslots : slots[0]? = some (some (.bytes bytes)))

theorem Completes.copies {s : Machine} {n : Node} {slots : Slots} {a : Arena} {code : Nat}
    {name : String} {signature : Signature} {e : Operand} (h : s.Completes fp n slots a m')
    (hop : n.operator = some (.native code name signature))
    (hcode : s.primitives.get code = .ok identity) (hinput : n.inputs[0]? = some e) :
    ∃ bytes, e.bytes s.program.structs s.arena fp = .ok bytes ∧
      slots[0]? = some (some (.bytes bytes)) := by
  cases h with
  | move hnone => cases hop.symm.trans hnone
  | call hcall => cases hop.symm.trans hcall
  | native hop' hp hrun =>
    cases hop.symm.trans hop'
    cases hcode.symm.trans hp
    have hends : Ends (identity.body.run ⟨s.program.structs, fp, n⟩) s.work
        (fun slots _ => ∃ bytes, e.bytes s.program.structs s.arena fp = .ok bytes ∧
          slots[0]? = some (some (.bytes bytes))) (fun _ _ => True) := by
      simp only [identity, Body.run, Workspace.ends_look, gives_bind, Site.inputBytes, Site.operand,
        hinput, gives_ok]
      apply gives_of_ok ?_ fun _ => trivial
      intro bytes hbytes
      simp only [Site.stage, gives_ite, gives_ok, gives_error]
      refine ⟨fun hlt => ⟨bytes, hbytes, ?_⟩, fun _ => trivial⟩
      rw [List.getElem?_set_self hlt]
    exact hends.value hrun

/-- A node that is lowered from another gives results. -/
theorem givesResults_of_computes {table : PrimitiveTable} {last n₀ n : Node}
    (h : lw.Computes last n₀) (hbinds : l.BindsNode n₀ n) (hcopy : table.HasCopy)
    (hprimitives : table = lw.primitives) : n.GivesResults := by
  unfold Node.GivesResults
  rw [hbinds.operator_eq]
  cases h with
  | @operator op _ _ hsignature hop =>
    rw [hop]
    cases op with
    | native => trivial
    | call => trivial
    | jump => cases hsignature
  | operand _ _ hidentity hop =>
    obtain ⟨code, name, signature, rfl, -⟩ := hcopy.operator (hprimitives ▸ hidentity)
    rw [hop]
    trivial

/-- A node that is lowered from another gives its value. -/
theorem Completes.givesValue {s : Machine} {last n₀ n : Node} {slots : Slots} {a : Arena}
    (h : s.Completes fp n slots a m') (hcomputes : lw.Computes last n₀) (hbinds : l.BindsNode n₀ n)
    (hcopy : s.primitives.HasCopy) (hprimitives : s.primitives = lw.primitives) :
    s.GivesValue fp l last n slots := by
  cases hcomputes with
  | operator hlast _ hop hinputs =>
    exact .operator hlast (hbinds.operator_eq.trans hop) (hinputs ▸ hbinds.inputs)
  | operand hlast he hidentity hop hinputs =>
    rw [← hprimitives] at hidentity
    obtain ⟨code, name, signature, rfl, hcode⟩ := hcopy.operator hidentity
    rw [List.head?_eq_getElem?] at hinputs
    obtain ⟨e', hinput, hbound⟩ := exists_getElem?_of_forall₂ hbinds.inputs.flip hinputs
    obtain ⟨bytes, hbytes, hslots⟩ := h.copies (hbinds.operator_eq.trans hop) hcode hinput
    exact .operand hlast he hbound hbytes hslots

end Machine

namespace FrameLayout.LaidOut

variable {l : FrameLayout} {declared : List (String × Ty)} {t : StructTable} {fp i : Nat}
  {targets : List Operand} {places : List Place} {n₀ n : Node} {target : Operand} {place : Place}
  {a b : Arena} {slots : Slots} {staged : Staged}

/-- Outputs with the symbols of plain targets lead to the places of their names. -/
theorem leadsTo (hlaid : l.LaidOut declared)
    (houtputs : List.Forall₂ Lowering.SameSymbol (targets.map .marked) n₀.outputs)
    (hbinds : l.BindsNode n₀ n)
    (htargets : ∀ t ∈ targets, t.isPlain = true ∧ t.storage = .unassigned)
    (hplaces : List.Forall₂ (fun (o : Operand) place => l.PlaceOf t fp o.name place)
      targets places) :
    List.Forall₂ (fun (o : Operand) place => ∀ c, o.place t c fp = .ok place) n.outputs places := by
  have hbound : List.Forall₂ (fun (o o' : Operand) => ∀ place, l.PlaceOf t fp o.name place →
      ∀ c, o'.place t c fp = .ok place) targets n.outputs := by
    refine forall₂_of_forall₂ (List.forall₂_map_left_iff.mp houtputs) hbinds.outputs ?_
    intro target htarget o o' hsame hbind place hplace c
    obtain ⟨hplain, hunassigned⟩ := htargets target htarget
    have hname : o.name = target.name := hsame.name_eq
    rw [← hname] at hplace
    refine hplace.place_eq hlaid ?_ (hsame.storage_eq.trans hunassigned) hbind c
    rw [Operand.isPlain, hsame.chain_eq]
    exact hplain
  exact forall₂_of_forall₂ hbound.flip hplaces fun o' _ target place hleads => hleads place

/-- A target holds the result for it, unless a later target has the same name. -/
theorem holds (hlaid : l.LaidOut declared) (hgrows : l.structs.Grows t)
    (hleads : List.Forall₂ (fun (o : Operand) place => ∀ c, o.place t c fp = .ok place) n.outputs
      places)
    (hplaces : List.Forall₂ (fun (o : Operand) place => l.PlaceOf t fp o.name place) targets places)
    (hbelow : ∀ place ∈ places, place.offset + place.size ≤ a.heapPointer)
    (hstores : a.StoresStaged t fp n.outputs slots b) (htarget : targets[i]? = some target)
    (hplace : places[i]? = some place) (hstaged : slots[i]? = some (some staged))
    (hlater : ∀ (j : Nat) target', i < j → targets[j]? = some target' →
      target'.name ≠ target.name) : b.HoldsStaged place staged := by
  refine hstores.holds hleads hbelow hplace hstaged fun j place' hj hplace' => ?_
  obtain ⟨_, htarget', hat⟩ := exists_getElem?_of_forall₂ hplaces hplace
  cases htarget.symm.trans htarget'
  obtain ⟨target', hj', hat'⟩ := exists_getElem?_of_forall₂ hplaces hplace'
  exact hat.apart hat' hlaid hgrows (hlater j target' hj hj').symm

end FrameLayout.LaidOut

namespace FunctionDraft.Lays

variable {fd : FunctionDraft} {d : Draft} {l : FrameLayout} {f : Function} {pc : Nat}
  {ns rest nodes : List Node} {lw : Lowering} {targets symbols : List Operand} {value : List Node}
  {frame : Frame} {outer : List Frame} {m m₁ s m' : Machine} {places : List Place} {n : Node}
  {slots : Slots} {a : Arena}

/-- The nodes of a statement in two parts. -/
theorem append (h : fd.Lays d l f pc (ns ++ rest) nodes) : ∃ front back, nodes = front ++ back ∧
    fd.Lays d l f pc ns front ∧ fd.Lays d l f (pc + ns.length) rest back := by
  have hlength := h.length_eq
  rw [List.length_append] at hlength
  refine ⟨nodes.take ns.length, nodes.drop ns.length, (List.take_append_drop ..).symm,
    ⟨h.layout_eq, h.frame_eq, (List.prefix_append ..).trans h.written,
      (List.take_prefix ..).trans h.laid, List.length_take_of_le (by omega)⟩,
    ⟨h.layout_eq, h.frame_eq, ?_, ?_, by rw [List.length_drop]; omega⟩⟩
  · have hwritten := h.written.drop ns.length
    rwa [List.drop_left, List.drop_drop] at hwritten
  · have hlaid := h.laid.drop ns.length
    rwa [List.drop_drop] at hlaid

/-- The declarations of a short declaration. -/
theorem declaresSlots (hlays : fd.Lays d l f frame.pc (symbols.map lw.declaration) nodes)
    (hsymbols : List.Forall₂ Lowering.Declares targets symbols)
    (hm : m.stack.frames = frame :: outer) (hf : m.program.function? frame.function = some f)
    (hrun : Machine.advances targets.length m = .ok () m₁) :
    m₁.stack.frames = { frame with pc := frame.pc + targets.length } :: outer ∧
      m₁.program = m.program ∧ m₁.primitives = m.primitives ∧
      ∃ places, List.Forall₂ (fun (t : Operand) place =>
          l.PlaceOf m.program.structs frame.fp t.name place) targets places ∧
        m.arena.DeclaresSlots m.program.structs places m₁.arena := by
  have hframe : m.stack.top? = some frame := by rw [CallStack.top?, hm, List.head?_cons]
  have hlength : nodes.length = targets.length := by
    rw [hlays.length_eq, List.length_map, hsymbols.length_eq]
  have hstraight : ∀ n ∈ nodes, n.IsStraight := by
    intro n hn
    obtain ⟨n₀, hn₀, hbinds⟩ := exists_of_forall₂_right hlays.binds hn
    obtain ⟨symbol, -, rfl⟩ := List.mem_map.mp hn₀
    exact Node.isStraight_of_bare hbinds.operator_eq
  obtain ⟨t, ht, rfl⟩ := (hlays.advances_eq_ok hframe hf hstraight hlength.ge).mp hrun
  rw [← hlength, List.take_length] at ht
  have hslots : ∀ symbol ∈ symbols, symbol.isPlain = true ∧ symbol.storage = .unassigned ∧
      ∃ slot ∈ l.inOrder, slot.name = symbol.name := by
    intro symbol hsymbol
    obtain ⟨_, -, hdeclares⟩ := exists_of_forall₂_right hsymbols hsymbol
    obtain ⟨slot, hslot, hname, -⟩ := hlays.declares_slot (List.mem_map_of_mem hsymbol) rfl
      List.mem_cons_self hdeclares.isPlain hdeclares.unassigned
    exact ⟨hdeclares.isPlain, hdeclares.unassigned, slot, hslot, hname⟩
  obtain ⟨places, hplaces, hdeclared⟩ :=
    Machine.declaresSlots_of_run hlays.laidOut hslots hlays.binds ht
  obtain ⟨⟨work, rfl⟩, -⟩ := Machine.executeAll_ok ht
  have hat : ({ m with work } : Machine).stack.frames = frame :: outer := hm
  refine ⟨by rw [Machine.setPc_eq hat]; rfl, rfl, rfl, places, ?_, hdeclared⟩
  refine forall₂_of_forall₂ hsymbols hplaces fun t _ symbol place hdeclares hplace => ?_
  rwa [hdeclares.name_eq] at hplace

theorem getElem?_body {i : Nat} (h : fd.Lays d l f pc ns nodes) (hn : nodes[i]? = some n) :
    f.body[pc + i]? = some n := by
  obtain ⟨back, hback⟩ := h.laid
  rw [← List.getElem?_drop, ← hback,
    List.getElem?_append_left (List.getElem?_eq_some_iff.mp hn).1, hn]

/-- A node of the statement that gives results has completed with some when it is finished. -/
theorem exists_completes {i : Nat} (hlays : fd.Lays d l f pc ns nodes) (hops : m.KeepsSegments)
    (hf : m.program.function? frame.function = some f) (hn : nodes[i]? = some n)
    (hresults : n.GivesResults) (hreached : m.ReachesNode frame outer (pc + i) s)
    (hfinished : s.Finishes m') : ∃ slots a, s.Completes frame.fp n slots a m' := by
  obtain ⟨k, hs, hframes⟩ := hreached
  have hsetup := Machine.sameSetup_advances hops hs
  rw [← hsetup.program_eq] at hf
  have hat : ∃ slots a, s.Completes ({ frame with pc := pc + i } : Frame).fp n slots a m' :=
    hfinished.exists_completes (hsetup.keepsSegments hops) hframes hf (hlays.getElem?_body hn)
      hresults
  exact hat

/-- The results of a node of the statement are stored in its outputs. -/
theorem delivers {i : Nat} (hlays : fd.Lays d l f pc ns nodes) (hops : m.KeepsSegments)
    (hf : m.program.function? frame.function = some f) (hn : nodes[i]? = some n)
    (hreached : m.ReachesNode frame outer (pc + i) s)
    (hcompletes : s.Completes frame.fp n slots a m') : s.program = m.program ∧
      s.primitives = m.primitives ∧ m.arena.heapPointer ≤ a.heapPointer ∧
      a.DeliversStaged m.program.structs frame.fp n.outputs slots m'.arena := by
  obtain ⟨k, hs, hframes⟩ := hreached
  have hsetup := Machine.sameSetup_advances hops hs
  rw [← hsetup.program_eq] at hf
  have hat : s.Completes ({ frame with pc := pc + i } : Frame).fp n slots a m' := hcompletes
  obtain ⟨hle, hdelivers⟩ :=
    hat.delivers (hsetup.keepsSegments hops) hframes hf (hlays.getElem?_body hn)
  rw [hsetup.program_eq] at hdelivers
  exact ⟨hsetup.program_eq, hsetup.primitives_eq, hsetup.segments.heapPointer_le.trans hle,
    hdelivers⟩

theorem stores {i : Nat} (hlays : fd.Lays d l f pc ns nodes) (hops : m.KeepsSegments)
    (hf : m.program.function? frame.function = some f) (hn : nodes[i]? = some n)
    (hreached : m.ReachesNode frame outer (pc + i) s)
    (hcompletes : s.Completes frame.fp n slots a m') : s.program = m.program ∧
      s.primitives = m.primitives ∧ m.arena.heapPointer ≤ a.heapPointer ∧
      a.StoresStaged m.program.structs frame.fp n.outputs slots m'.arena := by
  obtain ⟨hprogram, hprimitives, hle, hdelivers⟩ :=
    hlays.delivers hops hf hn hreached hcompletes
  exact ⟨hprogram, hprimitives, hle, hdelivers.stores⟩

section Literals

variable {d' : Draft} {parts : List Access} {names : List String} {struct : String} {t t' : Operand}
  {place : Place}

/-- The assignment of a literal has one target. -/
theorem single_of_literal {table : PrimitiveTable} (hvalue : Literal table value parts)
    (h : lw.AssignsTo .assign (targets.map .marked) value ns) : ∃ t target lw',
      targets = [t] ∧ target.outputs = [t.marked] ∧
        Lowering.assignment [target] .assign value lw = .ok ns lw' := by
  cases h with
  | @one t₁ target lw' houtputs htargets h =>
    obtain ⟨t, rfl, rfl⟩ := List.map_eq_singleton_iff.mp htargets
    exact ⟨t, target, lw', rfl, houtputs, h⟩
  | many _ hlast h =>
    obtain ⟨_, last, _, -, hvalueLast, -⟩ := Lowering.multiAssignment_assign_eq_ok.mp h
    obtain ⟨hstruct, harray⟩ := hlast last hvalueLast
    rcases hvalue.isPart last (List.mem_of_getLast? hvalueLast) with hpart | hpart
    · cases hstruct.symm.trans hpart
    · cases harray.symm.trans hpart

/-- The initialisers of a literal that is assigned to a name move their arguments to the parts of
what stands at its place. -/
theorem movesToParts_to_slot {table : PrimitiveTable} {structs : StructTable} {fp : Nat}
    (hvalue : Literal table value parts) (hdirect : Lowering.IsDirect value)
    (hassigns : lw.AssignsTo .assign (targets.map .marked) value ns)
    (hlays : fd.Lays d l f pc ns nodes)
    (htargets : ∀ t ∈ targets, t.isPlain = true ∧ t.storage = .unassigned)
    (hplaces : List.Forall₂ (fun (o : Operand) place =>
      l.PlaceOf structs fp o.name place) targets places) :
    ∀ place ∈ places, ∃ t t', l.bind t = .ok t' ∧ (∀ a, t'.place structs a fp = .ok place) ∧
      List.Forall₂ (fun x n' => l.MovesToPart table t' x.1 x.2 n') (value.zip parts) nodes := by
  obtain ⟨t, target, lw', rfl, houtputs, hlower⟩ := single_of_literal hvalue hassigns
  obtain ⟨place, rfl, hplace⟩ := exists_of_forall₂_singleton hplaces
  obtain ⟨hplain, hunassigned⟩ := htargets t List.mem_cons_self
  have hretargets := Lowering.retargets_of_assignment hvalue hdirect
    (congrArg List.head? houtputs) hlower
  intro _ hmem
  cases List.mem_singleton.mp hmem
  -- the target is bound, since there is an initialiser, and it writes a part of it
  obtain ⟨t', ht⟩ : ∃ t', l.bind t.marked = .ok t' := by
    obtain ⟨_, last, -, hlast, -⟩ := Lowering.assignment_assign_eq_ok.mp hlower
    have hlen : (value.zip parts).length = value.length := by
      rw [List.length_zip, hvalue.length_eq, Nat.min_self]
    have hpos := List.length_pos_of_mem (List.mem_of_getLast? hlast)
    obtain ⟨x, hx⟩ := List.exists_mem_of_length_pos (hpos.trans_eq hlen.symm)
    obtain ⟨n₁, hn₁, hretarget⟩ := exists_of_forall₂_right hretargets.flip hx
    obtain ⟨p, houtput, hpart⟩ := hretarget.output
    obtain ⟨n', -, hbinds⟩ := exists_of_forall₂_right hlays.binds.flip hn₁
    have hbound := hbinds.outputs
    rw [houtput] at hbound
    obtain ⟨p', -, hbind⟩ := exists_of_forall₂_singleton hbound
    obtain ⟨t', -, -, ht, -⟩ := hpart.bind hbind
    exact ⟨t', ht⟩
  exact ⟨t.marked, t', ht, hplace.place_eq (o := t.marked) hlays.laidOut hplain hunassigned ht,
    movesToPart_of_binds hlays.binds hvalue hretargets ht⟩

/-- A literal that is assigned to a name writes the parts of what stands at its place. -/
theorem writesParts_to_slot (hd : d.Reachable) (hgrows : d.Grows d')
    (hstructs : m.program.structs = d'.structs) (hvalue : Literal m.primitives value parts)
    (hdirect : Lowering.IsDirect value)
    (hassigns : lw.AssignsTo .assign (targets.map .marked) value ns)
    (hlays : fd.Lays d l f frame.pc ns nodes)
    (htargets : ∀ t ∈ targets, t.isPlain = true ∧ t.storage = .unassigned)
    (hplaces : List.Forall₂ (fun (o : Operand) place =>
      l.PlaceOf m.program.structs frame.fp o.name place) targets places) :
    ∀ place ∈ places, place.ty.isHandle = false →
      m.WritesParts frame.fp l place value parts nodes := by
  intro place hmem hhandle
  obtain ⟨t, t', ht, hat, hmoves⟩ :=
    movesToParts_to_slot hvalue hdirect hassigns hlays htargets hplaces place hmem
  refine Machine.writesParts_of_steady ?_ ?_ (FrameLayout.binds_of_bind ht).linked hvalue hmoves
    hhandle (hat m.arena) ?_
  · exact hstructs ▸ Draft.Reachable.packed (hd.trans hgrows)
  · rw [FrameLayout.structs, hlays.draft_eq, hstructs]
    exact hgrows.structs
  · intro front n back _ s hs
    obtain ⟨⟨work, rfl⟩, -⟩ := Machine.executeAll_ok hs
    exact hat work.arena

/-- A literal assigned to a name goes to its place. -/
theorem assignsParts_to_slot (hd : d.Reachable) (hgrows : d.Grows d')
    (hstructs : m.program.structs = d'.structs) (hvalue : Literal m.primitives value parts)
    (hdirect : Lowering.IsDirect value)
    (hassigns : lw.AssignsTo .assign (targets.map .marked) value ns)
    (hlays : fd.Lays d l f frame.pc ns nodes) (hframe : m.stack.top? = some frame)
    (hf : m.program.function? frame.function = some f)
    (htargets : ∀ t ∈ targets, t.isPlain = true ∧ t.storage = .unassigned)
    (hplaces : List.Forall₂ (fun (o : Operand) place =>
      l.PlaceOf m.program.structs frame.fp o.name place) targets places)
    (hrun : Machine.advances ns.length m = .ok () m') :
    ∀ place ∈ places, place.ty.isHandle = false →
      m.AssignsParts frame.fp l place value parts m' := by
  intro place hmem hhandle
  have hwrites := writesParts_to_slot hd hgrows hstructs hvalue hdirect hassigns hlays htargets
    hplaces place hmem hhandle
  exact hlays.assignsParts hframe hf hwrites hrun

/-- A pointer to a new literal that is assigned to a name goes to its place. -/
theorem buildsObject_for_slot (hd : d.Reachable) (hgrows : d.Grows d')
    (hstructs : m.program.structs = d'.structs) (hprimitives : m.primitives = lw.primitives)
    (hcopy : m.primitives.HasCopy) (hdistinct : names.Nodup)
    (hfields : MovesFields m.primitives value names) (hpointer : Lowering.IsByPointer value struct)
    (hassigns : lw.AssignsTo .assign (targets.map .marked) value ns)
    (hlays : fd.Lays d l f frame.pc ns nodes) (hframe : m.stack.top? = some frame)
    (hf : m.program.function? frame.function = some f)
    (htargets : ∀ t ∈ targets, t.isPlain = true ∧ t.storage = .unassigned)
    (hplaces : List.Forall₂ (fun (o : Operand) place =>
      l.PlaceOf m.program.structs frame.fp o.name place) targets places)
    (hrun : Machine.advances ns.length m = .ok () m') :
    ∃ aux slot size, l.bind (lw.auxiliary struct) = .ok aux ∧ m.place frame.fp aux = .ok slot ∧
      (Ty.struct struct).size m.program.structs = .ok size ∧ ∀ place ∈ places,
        m.BuildsObject frame.fp l slot ⟨m.arena.heapPointer, .struct struct, size⟩ place value names
          m' := by
  obtain ⟨t, target, lw', rfl, houtputs, hlower⟩ :=
    single_of_literal (.struct hdistinct hfields) hassigns
  obtain ⟨place, rfl, hplace⟩ := exists_of_forall₂_singleton hplaces
  obtain ⟨hplain, hunassigned⟩ := htargets t List.mem_cons_self
  obtain ⟨aux, t', slot, size, place', s, haux, ht, hslot, hsize, -, hbefore, hplace', hbuilds⟩ :=
    hlays.buildsObject hd hgrows hstructs hprimitives hcopy hdistinct hfields hpointer
      (congrArg List.head? houtputs) hlower hframe hf hrun
  have hat := hplace.place_eq (o := t.marked) hlays.laidOut hplain hunassigned ht s.arena
  unfold Machine.place at hplace'
  rw [hbefore.program_eq] at hplace'
  cases hat.symm.trans hplace'
  refine ⟨aux, slot, size, haux, hslot, hsize, fun _ hmem => ?_⟩
  cases List.mem_singleton.mp hmem
  exact hbuilds

end Literals

end FunctionDraft.Lays

/-- A short declaration at run time. Its declarations have led from `m` to `m₁`, and the laid-out
`nodes` of the assignment are still to run. -/
structure Machine.Defines (m m₁ : Machine) (frame : Frame) (outer : List Frame) (l : FrameLayout)
    (lw : Lowering) (targets : List Operand) (places : List Place) (value nodes : List Node) :
    Prop where
  frames_eq : m₁.stack.frames = { frame with pc := frame.pc + targets.length } :: outer
  placed : List.Forall₂ (fun (t : Operand) place =>
    l.PlaceOf m.program.structs frame.fp t.name place) targets places
  /-- The targets have been initialised anew. -/
  declared : m.arena.DeclaresSlots m.program.structs places m₁.arena
  /-- What does not depend on a target is what it was. -/
  unread : ∀ o : Operand, (∀ place ∈ places,
      m.arena.HoldsAside place (o.footprint m.program.structs m.arena frame.fp)) →
    o.bytes m.program.structs m₁.arena frame.fp = o.bytes m.program.structs m.arena frame.fp
  /-- A node of the assignment that gives results has completed with some when it is finished. -/
  finished : ∀ i n s m', nodes[i]? = some n → n.GivesResults →
    m₁.ReachesNode frame outer (frame.pc + targets.length + i) s → s.Finishes m' →
      ∃ slots a, s.Completes frame.fp n slots a m'
  /-- Every node of the assignment, an initialiser of a literal for example, stores its results in
  its outputs. -/
  stored : ∀ i n s slots a m', nodes[i]? = some n →
    m₁.ReachesNode frame outer (frame.pc + targets.length + i) s →
      s.Completes frame.fp n slots a m' →
        a.StoresStaged m.program.structs frame.fp n.outputs slots m'.arena
  /-- The value, unless it is a literal, is given by the last node, and every target then holds the
  result for it, if no later target has the same name. -/
  results : ∀ last, value.getLast? = some last → last.isStructField = false →
    last.isArrayElement = false → ∃ n, nodes.getLast? = some n ∧ n.GivesResults ∧ ∀ s slots a m',
      m₁.ReachesNode frame outer (frame.pc + targets.length + (nodes.length - 1)) s →
        s.Completes frame.fp n slots a m' → s.GivesValue frame.fp l last n slots ∧
          ∀ (i : Nat) (t : Operand) (place : Place) (staged : Staged), targets[i]? = some t →
            places[i]? = some place → slots[i]? = some (some staged) →
              (∀ (j : Nat) (t' : Operand), i < j → targets[j]? = some t' → t'.name ≠ t.name) →
                m'.arena.HoldsStaged place staged
  /-- A literal of moves is assigned part by part. -/
  literal : ∀ parts m', Literal m.primitives value parts → Lowering.IsDirect value →
    advances nodes.length m₁ = .ok () m' → ∀ place ∈ places, place.ty.isHandle = false →
      m₁.AssignsParts frame.fp l place value parts m'
  /-- A pointer to a literal of moves is built, and the target holds it. -/
  object : ∀ names struct m', names.Nodup → MovesFields m.primitives value names →
    Lowering.IsByPointer value struct → advances nodes.length m₁ = .ok () m' →
      ∃ aux slot size, l.bind (lw.auxiliary struct) = .ok aux ∧ m₁.place frame.fp aux = .ok slot ∧
        (Ty.struct struct).size m.program.structs = .ok size ∧ ∀ place ∈ places,
          m₁.BuildsObject frame.fp l slot ⟨m₁.arena.heapPointer, .struct struct, size⟩ place value
            names m'

section Statement

variable {fd : FunctionDraft} {d d' : Draft} {l : FrameLayout} {f : Function} {lw : Lowering}
  {targets : List Operand} {value ns nodes : List Node} {frame : Frame} {outer : List Frame}
  {m m₁ : Machine}

/-- A short declaration initialises its targets and then runs as the plain assignment of the same
value, so the targets end up with the value of the state in which they have been initialised. -/
theorem short_declaration_defines (hd : d.Reachable) (hgrows : d.Grows d')
    (hstructs : m.program.structs = d'.structs) (hprimitives : m.primitives = lw.primitives)
    (hcopy : m.primitives.HasCopy) (hops : m.KeepsSegments)
    (htargets : ∀ t ∈ targets, t.isPlain = true ∧ t.storage = .unassigned)
    (hlower : lw.AssignsTo .define targets value ns) (hlays : fd.Lays d l f frame.pc ns nodes)
    (hm : m.stack.frames = frame :: outer) (hf : m.program.function? frame.function = some f)
    (hrun : Machine.advances targets.length m = .ok () m₁) :
    ∃ places rest, lw.AssignsTo .assign (targets.map .marked) value rest ∧
      fd.Lays d l f (frame.pc + targets.length) rest (nodes.drop targets.length) ∧
      m.Defines m₁ frame outer l lw targets places value (nodes.drop targets.length) := by
  obtain ⟨symbols, rest, rfl, hsymbols, hassigns⟩ := hlower.declares
  obtain ⟨front, back, rfl, hfront, hback⟩ := hlays.append
  obtain ⟨hframes, hprogram, hprims, places, hplaces, hdeclared⟩ :=
    hfront.declaresSlots hsymbols hm hf hrun
  have hcount : (symbols.map lw.declaration).length = targets.length := by
    rw [List.length_map, hsymbols.length_eq]
  have hdrop : (front ++ back).drop targets.length = back := by
    rw [← hcount, ← hfront.length_eq, List.drop_left]
  rw [hcount] at hback
  rw [hdrop]
  have hops₁ : m₁.KeepsSegments := (Machine.sameSetup_advances hops hrun).keepsSegments hops
  have hlgrows : l.structs.Grows m.program.structs := by
    rw [FrameLayout.structs, hback.draft_eq, hstructs]
    exact hgrows.structs
  have htop : m₁.stack.top? = some { frame with pc := frame.pc + targets.length } := by
    rw [CallStack.top?, hframes, List.head?_cons]
  have hnext :
      fd.Lays d l f ({ frame with pc := frame.pc + targets.length } : Frame).pc rest back := hback
  rw [← hprogram] at hf
  refine ⟨places, rest, hassigns, hback, hframes, hplaces, hdeclared, fun o haside => ?_,
    ?_, ?_, ?_, ?_, ?_⟩
  · exact Operand.bytes_congr (hdeclared.sameOn haside)
  · exact fun i n s m' hn hresults => hback.exists_completes hops₁ hf hn hresults
  · intro i n s slots a m' hn hreached hcompletes
    obtain ⟨-, -, -, hstores⟩ := hback.stores hops₁ hf hn hreached hcompletes
    rwa [hprogram] at hstores
  · intro last hlast hstruct harray
    obtain ⟨n₀, rfl, hcomputes, houtputs⟩ := hassigns.last hlast hstruct harray
    obtain ⟨initial, tail, rfl, -, htail⟩ := exists_of_forall₂_append hback.binds
    obtain ⟨n, rfl, hbinds⟩ := exists_of_forall₂_singleton htail
    have hresults := Machine.givesResults_of_computes hcomputes hbinds hcopy hprimitives
    refine ⟨n, List.getLast?_concat, hresults, fun s slots a m' hreached hcompletes => ?_⟩
    rw [List.length_append, List.length_singleton, Nat.add_sub_cancel] at hreached
    have hn : (initial ++ [n])[initial.length]? = some n := List.getElem?_concat_length
    obtain ⟨hs, hs', hle, hstores⟩ := hback.stores hops₁ hf hn hreached hcompletes
    have hsprims : s.primitives = m.primitives := hs'.trans hprims
    refine ⟨hcompletes.givesValue hcomputes hbinds (hsprims ▸ hcopy) (hsprims.trans hprimitives),
      ?_⟩
    intro i t place staged ht hplace hstaged hlater
    rw [hprogram] at hstores
    have hleads := hback.laidOut.leadsTo houtputs hbinds htargets hplaces
    exact hback.laidOut.holds hlgrows hleads hplaces
      (fun place hmem => (hdeclared.stop_le place hmem).trans hle) hstores ht hplace hstaged hlater
  · intro parts m' hvalue hdirect hrun
    rw [hback.length_eq] at hrun
    rw [← hprims] at hvalue
    have hassigned := hnext.assignsParts_to_slot hd hgrows (hprogram ▸ hstructs) hvalue hdirect
      hassigns htop hf htargets (hprogram ▸ hplaces) hrun
    exact hassigned
  · intro names struct m' hdistinct hfields hpointer hrun
    rw [hback.length_eq] at hrun
    rw [← hprims] at hfields
    rw [← hprogram]
    have hbuilds := hnext.buildsObject_for_slot hd hgrows (hprogram ▸ hstructs)
      (hprims.trans hprimitives) (hprims ▸ hcopy) hdistinct hfields hpointer hassigns htop hf
      htargets (hprogram ▸ hplaces) hrun
    exact hbuilds

end Statement

/-- The lowering in the package of the function. -/
def againLowering : Lowering where
  structs := {}
  primitives := copyTable
  package := "main"

/-- The value of a parameter. -/
def againValue (source : String) : List Node := [.value { name := source, ty := .i32 }]

/-- What `x := source` is lowered to. -/
def againBody (source : String) : List Node := [
  { outputs := [
      { name := "x", ty := .i32, declared := true, shortDeclared := true, package := "main" }]
    package := "main" },
  { operator := some (.native 0 "identity" identity.signature)
    inputs := [{ name := source, ty := .i32 }]
    outputs := [{ name := "x", ty := .i32, declared := true, shortDeclared := true }] }]

def againDraft (source : String) : FunctionDraft where
  package := "main"
  name := "again"
  params := [("x", .i32), ("y", .i32)]
  body := againBody source

/-- The frame layout of the function. -/
def againLayout : FrameLayout where
  package := "main"
  draft := {}
  slots := [⟨"y", 4, .i32⟩, ⟨"x", 0, .i32⟩]
  size := 8

/-- A parameter of the laid-out function. -/
def againOperand (name : String) (offset : Nat) : Operand :=
  { name, ty := .i32, storage := .frame offset, package := "main" }

/-- The function, laid out. -/
def againFunction (source : String) (offset : Nat) : Function where
  package := "main"
  name := "again"
  params := [
    { againOperand "x" 0 with declared := true }, { againOperand "y" 4 with declared := true }]
  body := [
    { outputs := [{ againOperand "x" 0 with declared := true, shortDeclared := true }]
      package := "main" },
    { operator := some (.native 0 "identity" identity.signature)
      inputs := [againOperand source offset]
      outputs := [{ againOperand "x" 0 with declared := true, shortDeclared := true }]
      package := "main" }]
  frameSize := 8

/-- The frame of the call that is in progress. -/
def againFrame : Frame where
  function := ⟨"main", "again"⟩
  fp := 8
  callerFp := 8
  size := 8
  returnsToCaller := false

/-- A machine in the function, with 41 in `x` and 42 in `y`. -/
def againMachine (source : String) (offset : Nat) : Machine where
  program := { data := List.replicate nilGuard 0, functions := [againFunction source offset] }
  primitives := copyTable
  options := {}
  work := {
    arena := {
      image := #[0, 0, 0, 0, 0, 0, 0, 0, 41, 0, 0, 0, 42, 0, 0, 0]
      stackStart := 8, stackEnd := 16, capacity := 16, limit := 16 }
    random := .ofSeed 0 }
  stack := { frames := [againFrame], maxDepth := 1 }

theorem assignsTo_againValue (source : String) :
    againLowering.AssignsTo .define [{ name := "x" }] (againValue source) (againBody source) := by
  have hlower : Lowering.assignment [.value { name := "x" }] .define (againValue source)
      againLowering = .ok (againBody source) againLowering := rfl
  exact .one rfl rfl hlower

theorem lays_againDraft : (againDraft "y").Lays {} againLayout (againFunction "y" 4) 0
    (againBody "y") (againFunction "y" 4).body :=
  ⟨rfl, rfl, List.prefix_rfl, List.prefix_rfl, rfl⟩

/-- The name that was declared before gets the value of the other one. -/
theorem short_declaration_defines_againMachine : ∃ m',
    Machine.advances 2 (againMachine "y" 4) = .ok () m' ∧
      m'.arena.read 8 4 = .ok [42, 0, 0, 0] := by
  obtain ⟨m₁, hm₁⟩ : ∃ m₁, Machine.advances 1 (againMachine "y" 4) = .ok () m₁ := ⟨_, rfl⟩
  have hops : (againMachine "y" 4).KeepsSegments := by
    intro p hp
    cases List.mem_singleton.mp hp
    exact .inl (by simp [Primitive.Shipped, library])
  obtain ⟨places, rest, -, -, h⟩ := short_declaration_defines .refl .refl rfl rfl hasCopy_copyTable
    hops (by simp [Operand.isPlain]) (assignsTo_againValue "y") lays_againDraft rfl rfl hm₁
  obtain ⟨n, hn, -, hgives⟩ := h.results _ rfl rfl rfl
  cases hn
  cases hm₁
  obtain ⟨m', hm'⟩ : ∃ m', Machine.advances 2 (againMachine "y" 4) = .ok () m' := ⟨_, rfl⟩
  obtain ⟨place, rfl, slot, hslot, hname, hoffset, -⟩ := exists_of_forall₂_singleton h.placed
  obtain ⟨-, hholds⟩ := hgives _ [some (.bytes [42, 0, 0, 0])] _ m' ⟨0, rfl, rfl⟩
    (.native rfl rfl rfl (by cases hm'; rfl))
  have hlater : ∀ (j : Nat) (t' : Operand), 0 < j →
      ([{ name := "x" }] : List Operand)[j]? = some t' → t'.name ≠ "x" := by
    intro j t' hj ht'
    rw [List.getElem?_singleton, if_neg hj.ne'] at ht'
    cases ht'
  obtain ⟨pending, hpending, hwidth, hheld⟩ := hholds 0 _ place _ rfl rfl rfl hlater
  cases hpending
  have hzero : slot.offset = 0 := by
    simp only [againLayout, FrameLayout.inOrder, List.reverse_cons, List.reverse_nil,
      List.nil_append, List.cons_append, List.mem_cons, List.not_mem_nil, or_false] at hslot
    rcases hslot with rfl | rfl
    · rfl
    · exact absurd hname (by decide)
  have hat : place.offset = 8 := by
    rw [hoffset, hzero]
    rfl
  refine ⟨m', hm', ?_⟩
  rw [← hat]
  exact hheld

/-- The name that is declared again is initialised before its value is read: the 41 that the value
stood for before the statement is lost. -/
theorem short_declaration_initialises_first :
    (againLowering.AssignsTo .define [{ name := "x" }] (againValue "x") (againBody "x") ∧
      (againDraft "x").Lays {} againLayout (againFunction "x" 0) againFrame.pc (againBody "x")
        (againFunction "x" 0).body ∧
      (againMachine "x" 0).stack.frames = [againFrame] ∧
      (againMachine "x" 0).program.function? againFrame.function = some (againFunction "x" 0)) ∧
    (againOperand "x" 0).bytes {} (againMachine "x" 0).arena againFrame.fp = .ok [41, 0, 0, 0] ∧
    ∃ m', Machine.advances (againBody "x").length (againMachine "x" 0) = .ok () m' ∧
      (againOperand "x" 0).bytes {} m'.arena againFrame.fp = .ok [0, 0, 0, 0] :=
  ⟨⟨assignsTo_againValue "x", ⟨rfl, rfl, List.prefix_rfl, List.prefix_rfl, rfl⟩, rfl, rfl⟩, rfl, _,
    rfl, rfl⟩

end FlatMachine
