import FlatMachine.Proofs.Results

/-!
# Finished nodes

The node that the innermost frame has reached is finished when there are as many frames as before
again: at once, or when the callee of a call has returned. By then a move has copied bytes, an
operator has staged results, or the callee has come to the end of its body and returned with some,
and these results have been stored in the outputs of the node.
-/

namespace FlatMachine

open FlatMachine.Action

/-- A node that neither jumps nor declares. -/
def Node.GivesResults (n : Node) : Prop :=
  match n.operator with
  | none => n.inputs ≠ []
  | some (.native ..) | some (.call ..) => True
  | some (.jump ..) => False

theorem StackStep.length_le_succ {m : Machine} {frames frames' : List Frame}
    (h : StackStep m frames frames') : frames.length ≤ frames'.length + 1 := by
  cases h with
  | idle => exact Nat.le_succ _
  | moved => exact Nat.le_succ _
  | called => exact (Nat.le_succ _).trans (Nat.le_succ _)
  | left => exact le_rfl
  | resumed => exact le_rfl

namespace Machine

theorem advances_succ {k : Nat} {m m' : Machine} :
    advances (k + 1) m = .ok () m' ↔ ∃ b t, advance m = .ok b t ∧ advances k t = .ok () m' :=
  seq_eq_ok

/-- The run of a machine leaves its setup alone. -/
theorem sameSetup_advances {k : Nat} {m s : Machine} (hops : m.KeepsSegments)
    (h : advances k m = .ok () s) : SameSetup m s := by
  induction k generalizing m with
  | zero =>
    cases h
    exact .refl _
  | succ k ih =>
    obtain ⟨b, t, ht, hrest⟩ := advances_succ.mp h
    obtain ⟨frames, -, hworked⟩ := (ends_advance hops).value ht
    have hsetup := hworked.sameSetup
    exact hsetup.trans (ih (hsetup.keepsSegments hops) hrest)

/-- The node that the innermost frame at `fp` has reached is executed and gives these results: a
move copies them, its operator stages them, or its callee returns with them. The places for them are
found on `a`. -/
inductive Completes (s : Machine) (fp : Nat) (n : Node) : Slots → Arena → Machine → Prop where
  | move {input output : Operand} {bytes : Bytes} {m' : Machine} (hop : n.operator = none)
      (hinputs : n.inputs = [input]) (houtputs : n.outputs = [output])
      (hbytes : input.bytes s.program.structs s.arena fp = .ok bytes)
      (hadvance : advance s = .ok true m') : Completes s fp n [some (.bytes bytes)] s.arena m'
  | native {code : Nat} {name : String} {signature : Signature} {p : Primitive} {slots : Slots}
      {w : Workspace} {m' : Machine} (hop : n.operator = some (.native code name signature))
      (hp : s.primitives.get code = .ok p)
      (hrun : p.body.run ⟨s.program.structs, fp, n⟩ s.work = .ok slots w)
      (hadvance : advance s = .ok true m') : Completes s fp n slots w.arena m'
  | call {callee : FunctionName} {signature : Signature} {g : Function} {k : Nat}
      {t u m' : Machine} {results : List Bytes} (hop : n.operator = some (.call callee signature))
      (hg : s.program.function? callee = some g) (henter : advance s = .ok true t)
      (hran : advances k t = .ok () u) (hframes : u.stack.frames =
        { g.frame s.nextFp fp true with pc := g.body.length } :: s.stack.frames)
      (hresults : u.readSlots s.nextFp g.returns = .ok results)
      (hleave : advance u = .ok false m') :
      Completes s fp n (results.map fun bytes => some (.bytes bytes)) u.arena m'

/-- The node that the innermost frame has reached is finished: for the first time there are as many
frames as before. -/
def Finishes (s m' : Machine) : Prop :=
  ∃ k, advances (k + 1) s = .ok () m' ∧ m'.depth = s.depth ∧
    ∀ j < k, ∀ t, advances (j + 1) s = .ok () t → s.depth < t.depth

theorem advances_snoc {k : Nat} {m m' : Machine} (h : advances (k + 1) m = .ok () m') :
    ∃ b t, advances k m = .ok () t ∧ advance t = .ok b m' := by
  induction k generalizing m with
  | zero =>
    obtain ⟨b, t, ht, hrest⟩ := advances_succ.mp h
    cases hrest
    exact ⟨b, m, rfl, ht⟩
  | succ k ih =>
    obtain ⟨b, t, ht, hrest⟩ := advances_succ.mp h
    obtain ⟨b', u, hu, hlast⟩ := ih hrest
    exact ⟨b', u, advances_succ.mpr ⟨b, t, ht, hu⟩, hlast⟩

section Calls

variable {s t u m' : Machine} {n : Node} {frame callee : Frame} {base outer : List Frame}
  {f g : Function}

/-- A function is in progress in a frame on top of these. -/
def RunsAbove (g : Function) (callee : Frame) (base : List Frame) (u : Machine) : Prop :=
  u.program.function? callee.function = some g ∧ ∃ inner pc, pc ≤ g.body.length ∧
    u.stack.frames = inner ++ { callee with pc } :: base

/-- As long as there are more frames than those below it, a frame stays where it is. -/
theorem runsAbove_step (h : u.RunsAbove g callee base) (hstep : Stepped u t)
    (hdeep : base.length < t.depth) : t.RunsAbove g callee base := by
  obtain ⟨hg, inner, pc, hpc, hu⟩ := h
  obtain ⟨frames, hstep, work, rfl, -⟩ := hstep
  refine ⟨hg, ?_⟩
  change base.length < frames.length at hdeep
  change ∃ inner pc, pc ≤ g.body.length ∧ frames = inner ++ { callee with pc } :: base
  rw [hu] at hstep
  cases inner with
  | nil =>
    cases hstep with
    | moved pc' hfun hpc' =>
      cases hg.symm.trans hfun
      exact ⟨[], pc', hpc', rfl⟩
    | called => exact ⟨[_], pc, hpc, rfl⟩
    | left => exact absurd hdeep (lt_irrefl _)
    | resumed => exact absurd hdeep (lt_irrefl _)
  | cons top inner =>
    rw [List.cons_append] at hstep
    generalize hbelow : inner ++ { callee with pc } :: base = below at hstep
    cases hstep with
    | moved pc' => exact ⟨{ top with pc := pc' } :: inner, pc, hpc, by rw [← hbelow]; rfl⟩
    | called => exact ⟨_ :: top :: inner, pc, hpc, by rw [← hbelow]; rfl⟩
    | left => exact ⟨inner, pc, hpc, hbelow.symm⟩
    | @resumed _ caller rest _ _ _ hfun hn =>
      cases inner with
      | nil =>
        cases hbelow
        cases hg.symm.trans hfun
        exact ⟨[], pc + 1, (List.getElem?_eq_some_iff.mp hn).1, rfl⟩
      | cons caller' inner =>
        cases hbelow
        exact ⟨{ caller with pc := caller.pc + 1 } :: inner, pc, hpc, rfl⟩

/-- As long as there are more frames than those below it, a function goes on. -/
theorem runsAbove_advances {k : Nat} (h : t.RunsAbove g callee base) (hops : t.KeepsSegments)
    (hrun : advances k t = .ok () u)
    (hdeep : ∀ j < k, ∀ v, advances (j + 1) t = .ok () v → base.length < v.depth) :
    u.RunsAbove g callee base := by
  induction k generalizing t with
  | zero =>
    cases hrun
    exact h
  | succ k ih =>
    obtain ⟨b, v, hv, hrest⟩ := advances_succ.mp hrun
    have hstepped := (ends_advance hops).value hv
    have hnext : v.RunsAbove g callee base :=
      runsAbove_step h hstepped (hdeep 0 (Nat.succ_pos k) v (advances_succ.mpr ⟨b, v, hv, rfl⟩))
    obtain ⟨frames, -, hworked⟩ := hstepped
    refine ih hnext (hworked.sameSetup.keepsSegments hops) hrest fun j hj w hw => ?_
    exact hdeep (j + 1) (Nat.succ_lt_succ hj) w (advances_succ.mpr ⟨b, v, hv, hw⟩)

/-- Executing a node drops no frame. -/
theorem ends_executeAt_depth {fp pc : Nat} :
    Ends (executeAt f fp pc n) s (fun _ m' => s.depth ≤ m'.depth) (fun _ _ => True) := by
  have hset : ∀ (m : Machine) pc, (m.setPc pc).depth = m.depth :=
    fun _ _ => List.length_modifyHead ..
  unfold executeAt
  split
  · apply ends_callNode.mono ?_ fun _ _ _ => trivial
    rintro - _ ⟨g, -, -, -, work, rfl, -⟩
    exact Nat.le_succ _
  · simp only [ends_bind, ends_query, ends_modify, hset]
    exact gives_of_ok (fun _ _ => le_rfl) fun _ => trivial
  · simp only [ends_bind, ends_modify, hset]
    refine ends_iff.mpr ⟨fun _ m' h => ?_, fun _ _ _ => trivial⟩
    obtain ⟨⟨work, rfl⟩, -⟩ := executeNode_ok h
    exact le_rfl

/-- A function ends at the end of its body. -/
theorem returns_of_runsAbove {b : Bool} (h : u.RunsAbove g callee base) (hops : u.KeepsSegments)
    (hadvance : advance u = .ok b t) (hdepth : t.depth = base.length) : b = false ∧
      leave u = .ok () t ∧ u.stack.frames = { callee with pc := g.body.length } :: base := by
  obtain ⟨hg, inner, pc, hpc, hu⟩ := h
  have hlength : u.depth = inner.length + (base.length + 1) := by
    rw [depth, CallStack.depth, hu, List.length_append, List.length_cons]
  obtain rfl : inner = [] := by
    obtain ⟨frames, hstep, work, rfl, -⟩ := (ends_advance hops).value hadvance
    have hle : u.depth ≤ frames.length + 1 := hstep.length_le_succ
    change frames.length = base.length at hdepth
    exact List.eq_nil_of_length_eq_zero (by omega)
  cases hn : g.body[pc]? with
  | some n =>
    obtain ⟨-, hexecuted⟩ := (advance_at_node hu hg hn).mp hadvance
    have hle := ends_executeAt_depth.value hexecuted
    omega
  | none =>
    obtain ⟨hb, hleave⟩ := (advance_at_end hu hg hn).mp hadvance
    cases hpc.antisymm (List.getElem?_eq_none_iff.mp hn)
    exact ⟨hb, hleave, hu⟩

end Calls

section Completes

variable {s m' : Machine} {n : Node} {slots : Slots} {frame : Frame} {outer : List Frame}
  {f : Function} {a : Arena}

/-- Executing a native node commits what its operator stages. -/
theorem ends_native_commit {code : Nat} {name : String} {signature : Signature} {p : Primitive}
    {w : Workspace} (hop : n.operator = some (.native code name signature))
    (hp : s.primitives.get code = .ok p)
    (hrun : p.body.run ⟨s.program.structs, fp, n⟩ s.work = .ok slots w) :
    Ends (executeNode fp n) s
      (fun _ m' => (Site.commit ⟨s.program.structs, fp, n⟩ slots) w.arena = .ok () m'.arena)
      (fun _ _ => True) := by
  simp only [executeNode, ends_bind, ends_get, hop, ends_ofExcept, hp, gives_ok, ends_onWork,
    Primitive.execute, Workspace.ends_onArena]
  apply ends_iff.mpr
  refine ⟨fun slots' w' hrun' => ?_, fun _ _ _ => trivial⟩
  cases hrun.symm.trans hrun'
  exact ends_iff.mpr ⟨fun _ _ hcommit => hcommit, fun _ _ _ => trivial⟩

/-- A return to a call node stores the results. -/
theorem ends_leave_stores {top : Frame} (hm : m.stack.frames = top :: frame :: outer)
    (hcallee : m.program.function? top.function = some callee) (htop : top.returnsToCaller = true)
    (hf : m.program.function? frame.function = some f) (hn : f.body[frame.pc]? = some n) :
    Ends leave m (fun _ m' => ∃ t, storeResults top.fp callee frame.fp n
      { m with stack := m.stack.pop } = .ok () t ∧ m'.arena = t.arena) (fun _ _ => True) := by
  simp only [leave, ends_bind, ends_get, CallStack.top?, CallStack.pop, hm, List.head?_cons,
    List.tail_cons, ends_set, htop, if_true, ends_ofExcept, Program.function, hcallee, gives_ok, hf,
    hn, ends_mapError, ends_modify]
  exact ends_iff.mpr ⟨fun _ t ht => ⟨t, ht, rfl⟩, fun _ _ _ => trivial⟩

/-- However a node is executed, its results are stored in its outputs. -/
theorem Completes.delivers (h : s.Completes frame.fp n slots a m') (hops : s.KeepsSegments)
    (hs : s.stack.frames = frame :: outer) (hf : s.program.function? frame.function = some f)
    (hn : f.body[frame.pc]? = some n) : s.arena.heapPointer ≤ a.heapPointer ∧
      a.DeliversStaged s.program.structs frame.fp n.outputs slots m'.arena := by
  cases h with
  | @move input output bytes _ hop hinputs houtputs hbytes hadvance =>
    obtain ⟨-, t, ht, rfl⟩ :=
      (advance_straight hs hf hn (Node.isStraight_of_bare hop)).mp hadvance
    obtain ⟨_, place, hmade⟩ := (ends_move ⟨hinputs, houtputs, .inl hop⟩).value ht
    cases hbytes.symm.trans hmade.bytes_eq
    refine ⟨le_rfl, fun i o staged ho hstaged => ?_⟩
    obtain ⟨rfl, rfl⟩ : i = 0 ∧ o = output := by
      rw [houtputs, List.getElem?_singleton] at ho
      split at ho <;> simp_all
    cases hstaged
    refine ⟨place, hmade.place_eq, fun _ _ => ⟨.bytes place.offset bytes, rfl, hmade.length_eq, ?_⟩⟩
    apply hmade.stores.read
    rw [hmade.length_eq]
    exact hmade.stop_le.trans_eq hmade.touches.heapPointer_eq.symm
  | @native code name signature p _ w _ hop hp hrun hadvance =>
    have hstraight : n.IsStraight := by
      unfold Node.IsStraight
      rw [hop]
      trivial
    obtain ⟨-, t, ht, rfl⟩ := (advance_straight hs hf hn hstraight).mp hadvance
    refine ⟨?_, Site.delivers_commit.value ((ends_native_commit hop hp hrun).value ht)⟩
    have hkeeps := (hops.atNode n) code name signature p hop hp
    exact ((hkeeps _ s.work).value hrun).heapPointer_le
  | @call callee signature g k t u _ results hop hg henter hran hframes hresults hleave =>
    have hsetup : SameSetup s u := sameSetup_advances (k := k + 1) hops
      (advances_succ.mpr ⟨true, t, henter, hran⟩)
    have hreference := Program.reference_of_function? hg
    rw [hs] at hframes
    rw [← hsetup.program_eq] at hg hf
    have hfunction : u.program.function? (g.frame s.nextFp frame.fp true).function = some g :=
      (congrArg u.program.function? hreference).trans hg
    obtain ⟨-, hleft⟩ :=
      (advance_at_end hframes hfunction (List.getElem?_eq_none le_rfl)).mp hleave
    obtain ⟨v, hv, harena⟩ := (ends_leave_stores hframes hfunction rfl hf hn).value hleft
    have hread : readSlots { u with stack := u.stack.pop } s.nextFp g.returns = .ok results :=
      hresults
    refine ⟨hsetup.segments.heapPointer_le, ?_⟩
    rw [harena, ← hsetup.program_eq]
    exact (delivers_storeResults hread).value hv

/-- A bare node with inputs moves one of them to one output. -/
theorem ends_bare_shape (hop : n.operator = none) (hinputs : n.inputs ≠ []) :
    Ends (executeNode fp n) s
      (fun _ _ => ∃ input output, n.inputs = [input] ∧ n.outputs = [output]) (fun _ _ => True) := by
  simp only [executeNode, ends_bind, ends_get, hop, ends_onArena, executeBare]
  split
  · rename_i hnone
    exact absurd hnone hinputs
  · rename_i input output hinput houtput
    exact ends_iff.mpr ⟨fun _ _ _ => ⟨input, output, hinput, houtput⟩, fun _ _ _ => trivial⟩
  · simp only [ends_ofExcept, gives_error]

/-- A native node that has been executed has staged results. -/
theorem ends_native_stages {code : Nat} {name : String} {signature : Signature}
    (hop : n.operator = some (.native code name signature)) : Ends (executeNode fp n) s
      (fun _ _ => ∃ p slots w, s.primitives.get code = .ok p ∧
        p.body.run ⟨s.program.structs, fp, n⟩ s.work = .ok slots w)
      (fun _ _ => True) := by
  simp only [executeNode, ends_bind, ends_get, hop, ends_ofExcept, ends_onWork, Primitive.execute]
  apply gives_of_ok ?_ fun _ => trivial
  intro p hp
  refine ends_iff.mpr ⟨fun slots w hrun => ?_, fun _ _ _ => trivial⟩
  exact ends_iff.mpr ⟨fun _ _ _ => ⟨p, slots, w, hp, hrun⟩, fun _ _ _ => trivial⟩

/-- Storing results begins with reading them. -/
theorem ends_storeResults_reads {calleeFp callerFp : Nat} {callee : Function} :
    Ends (storeResults calleeFp callee callerFp n) s
      (fun _ _ => ∃ results, s.readSlots calleeFp callee.returns = .ok results)
      (fun _ _ => True) := by
  simp only [storeResults, ends_bind, ends_query]
  apply gives_of_ok ?_ fun _ => trivial
  intro writes hwrites
  obtain ⟨results, hresults, -⟩ := bind_eq_ok.mp hwrites
  exact ends_iff.mpr ⟨fun _ _ _ => ⟨results, hresults⟩, fun _ _ _ => trivial⟩

/-- A call that is finished has come to the end of its callee and returned. -/
theorem exists_completes_call {callee : FunctionName} {signature : Signature} {k : Nat}
    {t : Machine} (hops : s.KeepsSegments) (hs : s.stack.frames = frame :: outer)
    (hf : s.program.function? frame.function = some f) (hn : f.body[frame.pc]? = some n)
    (hop : n.operator = some (.call callee signature)) (ht : advance s = .ok true t)
    (hrest : advances k t = .ok () m') (hdepth : m'.depth = s.depth)
    (hdeep : ∀ j < k, ∀ v, advances (j + 1) s = .ok () v → s.depth < v.depth) :
    ∃ slots a, s.Completes frame.fp n slots a m' := by
  have hcalled : executeAt f frame.fp frame.pc n = callNode frame.fp n callee := by
    unfold executeAt
    rw [hop]
  obtain ⟨-, hexecuted⟩ := (advance_at_node hs hf hn).mp ht
  rw [hcalled] at hexecuted
  obtain ⟨g, hg, -, -, hworked⟩ := ends_callNode.value hexecuted
  have hsetup : SameSetup s t := hworked.sameSetup
  have hreference := Program.reference_of_function? hg
  have hframes : t.stack.frames = g.frame s.nextFp frame.fp true :: s.stack.frames := by
    obtain ⟨work, rfl, -⟩ := hworked
    rfl
  have habove : t.RunsAbove g (g.frame s.nextFp frame.fp true) s.stack.frames := by
    refine ⟨?_, [], 0, Nat.zero_le _, hframes⟩
    rw [hsetup.program_eq]
    exact (congrArg s.program.function? hreference).trans hg
  cases k with
  | zero =>
    cases hrest
    rw [depth, CallStack.depth, hframes] at hdepth
    exact absurd hdepth (Nat.succ_ne_self _)
  | succ k =>
    obtain ⟨b, u, hu, hlast⟩ := advances_snoc hrest
    have hops' := hsetup.keepsSegments hops
    have hends : u.RunsAbove g (g.frame s.nextFp frame.fp true) s.stack.frames := by
      refine runsAbove_advances habove hops' hu fun j hj v hv => ?_
      exact hdeep (j + 1) (Nat.succ_lt_succ hj) v (advances_succ.mpr ⟨true, t, ht, hv⟩)
    have hsetup' := sameSetup_advances hops' hu
    obtain ⟨rfl, hleave, hat⟩ :=
      returns_of_runsAbove hends (hsetup'.keepsSegments hops') hlast hdepth
    have hg' := hends.1
    have hbelow := hat
    rw [hs] at hbelow
    rw [← hsetup.program_eq, ← hsetup'.program_eq] at hf
    obtain ⟨v, hv, -⟩ := (ends_leave_stores hbelow hg' rfl hf hn).value hleave
    obtain ⟨results, hresults⟩ := ends_storeResults_reads.value hv
    exact ⟨_, _, .call hop hg ht hu hat hresults hlast⟩

/-- A node that gives results has been executed in one of the three ways when it is finished. -/
theorem Finishes.exists_completes (h : s.Finishes m') (hops : s.KeepsSegments)
    (hs : s.stack.frames = frame :: outer) (hf : s.program.function? frame.function = some f)
    (hn : f.body[frame.pc]? = some n) (hresults : n.GivesResults) :
    ∃ slots a, s.Completes frame.fp n slots a m' := by
  obtain ⟨k, hrun, hdepth, hdeep⟩ := h
  obtain ⟨b, t, ht, hrest⟩ := advances_succ.mp hrun
  obtain ⟨rfl, -⟩ := (advance_at_node hs hf hn).mp ht
  -- a node other than a call is finished at once
  have hstraight : n.IsStraight → t = m' ∧ ∃ u, executeNode frame.fp n s = .ok () u := by
    intro hstraight
    obtain ⟨-, u, hu, rfl⟩ := (advance_straight hs hf hn hstraight).mp ht
    obtain ⟨⟨work, rfl⟩, -⟩ := executeNode_ok hu
    refine ⟨?_, _, hu⟩
    cases k with
    | zero =>
      cases hrest
      rfl
    | succ k =>
      have hlt := hdeep 0 (Nat.succ_pos k) _ (advances_succ.mpr ⟨true, _, ht, rfl⟩)
      exact absurd (List.length_modifyHead ..) hlt.ne'
  unfold Node.GivesResults at hresults
  unfold Node.IsStraight at hstraight
  cases hop : n.operator with
  | none =>
    rw [hop] at hresults hstraight
    obtain ⟨rfl, u, hu⟩ := hstraight trivial
    obtain ⟨input, output, hinputs, houtputs⟩ := (ends_bare_shape hop hresults).value hu
    obtain ⟨bytes, place, hmade⟩ := (ends_move ⟨hinputs, houtputs, .inl hop⟩).value hu
    exact ⟨_, _, .move hop hinputs houtputs hmade.bytes_eq ht⟩
  | some op =>
    rw [hop] at hresults hstraight
    cases op with
    | native code name signature =>
      obtain ⟨rfl, u, hu⟩ := hstraight trivial
      obtain ⟨p, slots, w, hp, hstaged⟩ := (ends_native_stages hop).value hu
      exact ⟨slots, w.arena, .native hop hp hstaged ht⟩
    | call => exact exists_completes_call hops hs hf hn hop ht hrest hdepth hdeep
    | jump => exact hresults.elim

end Completes

end Machine

end FlatMachine
