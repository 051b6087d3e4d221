import FlatMachine.Proofs.Allocation
import FlatMachine.Proofs.Footprint
import FlatMachine.Proofs.Relational
import FlatMachine.Proofs.StackStep

/-!
# Nodes one after another, and moves

A stretch of a body without calls and jumps is executed node by node in its frame. A move, bare or
by the operator for it, stores the bytes of its input at the place of its output and does nothing
else. So after several moves to places apart from each other, every place holds what its input
stood for when the move was made.
-/

namespace FlatMachine

open FlatMachine.Action

/-- The node neither calls nor jumps. -/
def Node.IsStraight (n : Node) : Prop :=
  match n.operator with
  | none | some (.native ..) => True
  | some (.call ..) | some (.jump ..) => False

namespace Machine

variable {m m' m'' : Machine} {fp : Nat} {n : Node} {ns rest : List Node}

/-- Executes nodes one after another in the frame at `fp`. -/
def executeAll (fp : Nat) : List Node → Action Machine Unit
  | [] => return ()
  | n :: rest => do
    executeNode fp n
    executeAll fp rest

theorem executeAll_append (fp : Nat) (ns rest : List Node) :
    executeAll fp (ns ++ rest) = executeAll fp ns >>= fun _ => executeAll fp rest := by
  induction ns with
  | nil => rfl
  | cons n ns ih => simp only [List.cons_append, executeAll, ih, bind_assoc]

theorem executeAll_append_ok : executeAll fp (ns ++ rest) m = .ok () m'' ↔
    ∃ m', executeAll fp ns m = .ok () m' ∧ executeAll fp rest m' = .ok () m'' := by
  rw [executeAll_append, seq_eq_ok]
  exact ⟨fun ⟨_, m', h⟩ => ⟨m', h⟩, fun ⟨m', h⟩ => ⟨(), m', h⟩⟩

theorem executeAll_cons_ok : executeAll fp (n :: rest) m = .ok () m'' ↔
    ∃ m', executeNode fp n m = .ok () m' ∧ executeAll fp rest m' = .ok () m'' := by
  rw [executeAll, seq_eq_ok]
  exact ⟨fun ⟨_, m', h⟩ => ⟨m', h⟩, fun ⟨m', h⟩ => ⟨(), m', h⟩⟩

/-- What holds at the start and is kept by every node, on the machine that it finds, holds at the
end. -/
theorem executeAll_invariant {P : Machine → Prop} (hstart : P m)
    (hstep : ∀ front n back, ns = front ++ n :: back → ∀ s t, executeAll fp front m = .ok () s →
      P s → executeNode fp n s = .ok () t → P t)
    (hrun : executeAll fp ns m = .ok () m') : P m' := by
  induction ns generalizing m with
  | nil =>
    cases hrun
    exact hstart
  | cons n rest ih =>
    obtain ⟨t, hn, hrest⟩ := executeAll_cons_ok.mp hrun
    apply ih (hstep [] n rest rfl m t rfl hstart hn) ?_ hrest
    intro front n' back hns s t' hs
    apply hstep (n :: front) n' back (by rw [hns, List.cons_append])
    exact executeAll_cons_ok.mpr ⟨t, hn, hs⟩

/-- A node acts on the workspace only, and the frames have no part in it. -/
theorem executeNode_eq_onWork (m : Machine) (fp : Nat) (n : Node) : ∃ act : Action Workspace Unit,
    ∀ work stack, executeNode fp n { m with work, stack } = onWork act { m with work, stack } := by
  unfold executeNode
  simp only [get_bind_apply]
  cases hop : n.operator with
  | none => exact ⟨_, fun _ _ => rfl⟩
  | some op =>
    cases op with
    | native code name signature =>
      dsimp only
      cases hp : m.primitives.get code with
      | error e => exact ⟨throw e, fun _ _ => rfl⟩
      | ok p => exact ⟨_, fun _ _ => rfl⟩
    | call callee signature => exact ⟨throw _, fun _ _ => rfl⟩
    | jump onTrue onFalse => exact ⟨throw _, fun _ _ => rfl⟩

theorem executeNode_ok (h : executeNode fp n m = .ok () m') : (∃ work, m' = { m with work }) ∧
    ∀ stack, executeNode fp n { m with stack } = .ok () { m' with stack } := by
  obtain ⟨act, hact⟩ := executeNode_eq_onWork m fp n
  have heq : executeNode fp n m = onWork act m := hact m.work m.stack
  rw [heq] at h
  simp only [hact m.work, onWork, within] at h ⊢
  cases hrun : act m.work with
  | ok x work =>
    rw [hrun] at h
    cases h
    exact ⟨⟨work, rfl⟩, fun _ => rfl⟩
  | error e work =>
    rw [hrun] at h
    cases h

theorem executeAll_ok (h : executeAll fp ns m = .ok () m') : (∃ work, m' = { m with work }) ∧
    ∀ stack, executeAll fp ns { m with stack } = .ok () { m' with stack } := by
  induction ns generalizing m with
  | nil =>
    cases h
    exact ⟨⟨_, rfl⟩, fun _ => rfl⟩
  | cons n ns ih =>
    obtain ⟨s, hn, hrest⟩ := executeAll_cons_ok.mp h
    obtain ⟨⟨work, rfl⟩, hhead⟩ := executeNode_ok hn
    obtain ⟨⟨work', rfl⟩, htail⟩ := ih hrest
    exact ⟨⟨work', rfl⟩, fun stack => executeAll_cons_ok.mpr ⟨_, hhead stack, htail stack⟩⟩

theorem setPc_setPc (m : Machine) (pc pc' : Nat) : (m.setPc pc).setPc pc' = m.setPc pc' := by
  simp only [setPc, CallStack.setPc, List.modifyHead_modifyHead]
  rfl

/-- Where the frames stand has no part in what the nodes do. -/
theorem executeAll_setPc {pc : Nat} : executeAll fp ns (m.setPc pc) = .ok () m'' ↔
    ∃ m', executeAll fp ns m = .ok () m' ∧ m'' = m'.setPc pc := by
  constructor
  · intro h
    obtain ⟨⟨work, rfl⟩, hrun⟩ := executeAll_ok h
    exact ⟨{ m with work }, hrun m.stack, rfl⟩
  · rintro ⟨_, h, rfl⟩
    obtain ⟨⟨work, rfl⟩, hrun⟩ := executeAll_ok h
    exact hrun (m.stack.setPc pc)

/-- Advances that often. -/
def advances : Nat → Action Machine Unit
  | 0 => return ()
  | k + 1 => do
    let _ ← advance
    advances k

variable {frame : Frame} {outer : List Frame} {f : Function}

theorem advance_at_node {b : Bool} (hm : m.stack.frames = frame :: outer)
    (hf : m.program.function? frame.function = some f) (hn : f.body[frame.pc]? = some n) :
    advance m = .ok b m' ↔ b = true ∧ executeAt f frame.fp frame.pc n m = .ok () m' := by
  have htop : m.stack.top? = some frame := by rw [CallStack.top?, hm, List.head?_cons]
  unfold advance
  rw [get_bind_apply, htop]
  simp only [Program.function, hf, hn, ofExcept_ok_bind]
  simp only [Bind.bind, EStateM.bind, Action.mapError]
  cases executeAt f frame.fp frame.pc n m with
  | ok x s =>
    constructor
    · rintro ⟨⟩
      exact ⟨rfl, rfl⟩
    · rintro ⟨rfl, ⟨⟩⟩
      rfl
  | error e s =>
    constructor
    · rintro ⟨⟩
    · rintro ⟨-, ⟨⟩⟩

theorem advance_at_end {b : Bool} (hm : m.stack.frames = frame :: outer)
    (hf : m.program.function? frame.function = some f) (hend : f.body[frame.pc]? = none) :
    advance m = .ok b m' ↔ b = false ∧ leave m = .ok () m' := by
  have htop : m.stack.top? = some frame := by rw [CallStack.top?, hm, List.head?_cons]
  unfold advance
  rw [get_bind_apply, htop]
  simp only [Program.function, hf, hend, ofExcept_ok_bind]
  rw [seq_eq_ok]
  constructor
  · rintro ⟨_, s, hs, hpure⟩
    cases hpure
    exact ⟨rfl, hs⟩
  · rintro ⟨rfl, h⟩
    exact ⟨(), m', h, rfl⟩

theorem advance_straight {b : Bool} (hm : m.stack.frames = frame :: outer)
    (hf : m.program.function? frame.function = some f) (hn : f.body[frame.pc]? = some n)
    (hstraight : n.IsStraight) : advance m = .ok b m'' ↔
      b = true ∧ ∃ m', executeNode frame.fp n m = .ok () m' ∧ m'' = m'.setPc (frame.pc + 1) := by
  have hexecute : executeAt f frame.fp frame.pc n = (executeNode frame.fp n >>= fun _ =>
      modify (·.setPc (frame.pc + 1))) := by
    unfold executeAt
    unfold Node.IsStraight at hstraight
    split at hstraight
    · rename_i hop
      rw [hop]
    · rename_i hop
      rw [hop]
    · cases hstraight
    · cases hstraight
  rw [advance_at_node hm hf hn, hexecute, seq_eq_ok]
  apply and_congr_right
  intro _
  constructor
  · rintro ⟨_, s, hs, hmoved⟩
    cases hmoved
    exact ⟨s, hs, rfl⟩
  · rintro ⟨s, hs, rfl⟩
    exact ⟨(), s, hs, rfl⟩

/-- A stretch of a body without calls and jumps is executed node by node in its frame. -/
theorem advances_eq_ok (hm : m.stack.frames = frame :: outer)
    (hf : m.program.function? frame.function = some f)
    (hbody : f.body.drop frame.pc = ns ++ rest) (hstraight : ∀ n ∈ ns, n.IsStraight) :
    advances ns.length m = .ok () m'' ↔
      ∃ m', executeAll frame.fp ns m = .ok () m' ∧ m'' = m'.setPc (frame.pc + ns.length) := by
  induction ns generalizing m m'' frame with
  | nil =>
    have hsame : m.setPc frame.pc = m := by rw [setPc_eq hm, withFrames, ← hm]
    constructor
    · rintro ⟨⟩
      exact ⟨m, rfl, hsame.symm⟩
    · rintro ⟨_, ⟨⟩, rfl⟩
      exact congrArg (EStateM.Result.ok ()) hsame.symm
  | cons n ns ih =>
    have hlt : f.body[frame.pc]? = some n := by
      rw [← List.head?_drop, hbody]
      rfl
    have hdrop : f.body.drop (frame.pc + 1) = ns ++ rest := by
      rw [← List.tail_drop, hbody]
      rfl
    obtain ⟨hn, hns⟩ := List.forall_mem_cons.mp hstraight
    rw [List.length_cons, advances, seq_eq_ok]
    simp only [advance_straight hm hf hlt hn, executeAll_cons_ok]
    -- the rest of the nodes runs in the same frame, one node further
    have htail : ∀ s, executeNode frame.fp n m = .ok () s →
        (advances ns.length (s.setPc (frame.pc + 1)) = .ok () m'' ↔
          ∃ m', executeAll frame.fp ns s = .ok () m' ∧
            m'' = m'.setPc (frame.pc + (ns.length + 1))) := by
      intro s hs
      obtain ⟨⟨work, rfl⟩, -⟩ := executeNode_ok hs
      have hat : ({ m with work }.setPc (frame.pc + 1)).stack.frames =
          { frame with pc := frame.pc + 1 } :: outer := by
        rw [setPc_eq (m := { m with work }) hm]
        rfl
      rw [ih hat hf hdrop hns, Nat.add_right_comm, Nat.add_assoc]
      simp only [executeAll_setPc]
      constructor
      · rintro ⟨_, ⟨t, ht, rfl⟩, rfl⟩
        exact ⟨t, ht, setPc_setPc ..⟩
      · rintro ⟨t, ht, rfl⟩
        exact ⟨_, ⟨t, ht, rfl⟩, (setPc_setPc ..).symm⟩
    constructor
    · rintro ⟨_, _, ⟨-, s, hs, rfl⟩, h⟩
      obtain ⟨m', hrun, rfl⟩ := (htail s hs).mp h
      exact ⟨m', ⟨s, hs, hrun⟩, rfl⟩
    · rintro ⟨m', ⟨s, hs, hrun⟩, rfl⟩
      exact ⟨true, _, ⟨rfl, s, hs, rfl⟩, (htail s hs).mpr ⟨m', hrun, rfl⟩⟩

end Machine

/-- The node moves one operand to another, bare or by the operator for it. -/
structure Node.Moves (table : PrimitiveTable) (n : Node) (input output : Operand) : Prop where
  inputs_eq : n.inputs = [input]
  outputs_eq : n.outputs = [output]
  operator : n.operator = none ∨ ∃ code name signature,
    n.operator = some (.native code name signature) ∧ table.get code = .ok identity

theorem Node.isStraight_of_bare {n : Node} (h : n.operator = none) : n.IsStraight := by
  unfold IsStraight
  rw [h]
  trivial

theorem Node.Moves.isStraight {table : PrimitiveTable} {n : Node} {input output : Operand}
    (h : n.Moves table input output) : n.IsStraight := by
  rcases h.operator with hop | ⟨code, name, signature, hop, -⟩
  · exact isStraight_of_bare hop
  · unfold IsStraight
    rw [hop]
    trivial

/-- The byte belongs to the place. -/
def Place.Covers (p : Place) (i : Nat) : Prop := p.offset ≤ i ∧ i < p.offset + p.size

/-- The places have no byte in common. -/
def Place.Apart (p q : Place) : Prop := ∀ i, p.Covers i → ¬ q.Covers i

namespace Machine

variable {m m' m'' : Machine} {fp : Nat} {n : Node} {ns rest : List Node}
  {input output : Operand} {touched touched' : Nat → Prop}

/-- The machines are the same but for touched bytes of memory. -/
def Touches (touched : Nat → Prop) (m m' : Machine) : Prop :=
  ∃ image, m' = { m with work := { m.work with arena := { m.arena with image } } } ∧
    image.size = m.arena.image.size ∧ ∀ i, ¬ touched i → image[i]? = m.arena.image[i]?

theorem Touches.refl (m : Machine) : Touches touched m m :=
  ⟨m.arena.image, rfl, rfl, fun _ _ => rfl⟩

theorem Touches.trans (h : Touches touched m m') (h' : Touches touched m' m'') :
    Touches touched m m'' := by
  obtain ⟨_, rfl, hsize, hsame⟩ := h
  obtain ⟨image, rfl, hsize', hsame'⟩ := h'
  exact ⟨image, rfl, hsize'.trans hsize, fun i hi => (hsame' i hi).trans (hsame i hi)⟩

theorem Touches.mono (h : Touches touched m m') (hle : ∀ i, touched i → touched' i) :
    Touches touched' m m' := by
  obtain ⟨image, hm, hsize, hsame⟩ := h
  exact ⟨image, hm, hsize, fun i hi => hsame i fun ht => hi (hle i ht)⟩

theorem Touches.program_eq (h : Touches touched m m') : m'.program = m.program := by
  obtain ⟨_, rfl, -⟩ := h
  rfl

theorem Touches.primitives_eq (h : Touches touched m m') : m'.primitives = m.primitives := by
  obtain ⟨_, rfl, -⟩ := h
  rfl

theorem Touches.heapPointer_eq (h : Touches touched m m') :
    m'.arena.heapPointer = m.arena.heapPointer := by
  obtain ⟨_, rfl, hsize, -⟩ := h
  exact hsize

theorem Touches.getElem?_eq (h : Touches touched m m') {i : Nat} (hi : ¬ touched i) :
    m'.arena.image[i]? = m.arena.image[i]? := by
  obtain ⟨_, rfl, -, hsame⟩ := h
  exact hsame i hi

/-- Ranges without a touched byte are read as before. -/
theorem Touches.sameOn (h : Touches touched m m') {ranges : List (Nat × Nat)}
    (hranges : ∀ r ∈ ranges, ∀ i, r.1 ≤ i → i < r.1 + r.2 → ¬ touched i) :
    m.arena.SameOn m'.arena ranges := fun r hr =>
  Arena.read_congr h.heapPointer_eq fun i hle hlt => h.getElem?_eq (hranges r hr i hle hlt)

/-- What a move does: the place of the output holds the bytes of the input, and nothing else has
changed. -/
structure MadeMove (m : Machine) (fp : Nat) (input output : Operand) (bytes : Bytes) (place : Place)
    (m' : Machine) : Prop where
  bytes_eq : input.bytes m.program.structs m.arena fp = .ok bytes
  place_eq : m.place fp output = .ok place
  length_eq : bytes.length = place.size
  stop_le : place.offset + place.size ≤ m.arena.heapPointer
  stores : m'.arena.Stores place.offset bytes
  touches : Touches place.Covers m m'

theorem madeMove_of_write {bytes : Bytes} {place : Place}
    (hbytes : input.bytes m.program.structs m.arena fp = .ok bytes)
    (hplace : m.place fp output = .ok place) (hlen : bytes.length = place.size) :
    Gives (m.arena.write place.offset bytes)
      (fun arena => MadeMove m fp input output bytes place { m with work := { m.work with arena } })
      (fun _ => True) := by
  apply Arena.gives_write.mono ?_ fun _ _ => trivial
  rintro _ ⟨hle, rfl⟩
  obtain ⟨hchanged, hstores⟩ := Arena.overlay_stored hle rfl
  refine ⟨hbytes, hplace, hlen, hlen ▸ hle, hstores, _, rfl, size_overlay .., fun i hi => ?_⟩
  apply hchanged.getElem?_eq
  unfold Place.Covers at hi
  omega

theorem ends_move (h : n.Moves m.primitives input output) :
    Ends (executeNode fp n) m (fun _ m' => ∃ bytes place, MadeMove m fp input output bytes place m')
      (fun _ _ => True) := by
  simp only [executeNode, ends_bind, ends_get]
  rcases h.operator with hop | ⟨code, name, signature, hop, hcode⟩
  · simp only [hop, executeBare, h.inputs_eq, h.outputs_eq, ends_onArena, ends_update, move,
      gives_bind, gives_ite, gives_error]
    apply gives_of_ok ?_ fun _ => trivial
    intro bytes hbytes
    apply gives_of_ok ?_ fun _ => trivial
    intro place hplace
    refine ⟨fun hlen => ?_, fun _ => trivial⟩
    exact (madeMove_of_write hbytes hplace hlen).imp fun _ hmove => ⟨bytes, place, hmove⟩
  · have hstage : ∀ bytes, (⟨m.program.structs, fp, n⟩ : Site).stage
        (Site.noOutputs ⟨m.program.structs, fp, n⟩) 0 (.bytes bytes) =
          .ok [some (.bytes bytes)] := by
      intro bytes
      simp [Site.stage, Site.noOutputs, h.outputs_eq]
    simp only [hop, hcode, ends_bind, ends_ofExcept, gives_ok, ends_onWork, Primitive.execute,
      identity, Body.run, Workspace.ends_look, Workspace.ends_onArena, gives_bind, Site.inputBytes,
      Site.operand, h.inputs_eq, List.getElem?_cons_zero, hstage]
    apply gives_of_ok ?_ fun _ => trivial
    intro bytes hbytes
    simp only [Site.commit, ends_bind, ends_query, h.outputs_eq, Site.prepareAll, Site.prepare,
      Pending.ofStaged, gives_bind, gives_ok, gives_ite, gives_error, gives_pure]
    apply gives_of_ok ?_ fun _ => trivial
    intro place hplace
    refine ⟨fun hwidth => ?_, fun _ => trivial⟩
    have hlen : bytes.length = place.size := hwidth
    simp only [Pending.settleAll, Pending.settle, writeAll, pure_bind, ends_pure, ends_bind,
      ends_update]
    exact (madeMove_of_write hbytes hplace hlen).imp fun _ hmove => ⟨bytes, place, hmove⟩

/-- Whenever a node is executed, its outputs lead where they lead on the machine `m₀`. -/
def SteadyAlong (m₀ m : Machine) (fp : Nat) (ns : List Node) : Prop :=
  ∀ front n back, ns = front ++ n :: back → ∀ s, executeAll fp front m = .ok () s →
    ∀ o ∈ n.outputs, s.place fp o = m₀.place fp o

/-- The byte belongs to a place that an output of the nodes leads to. -/
def OutputCovers (m : Machine) (fp : Nat) (ns : List Node) (i : Nat) : Prop :=
  ∃ n ∈ ns, ∃ o ∈ n.outputs, ∃ place, m.place fp o = .ok place ∧ place.Covers i

variable {m₀ : Machine}

theorem SteadyAlong.front (h : SteadyAlong m₀ m fp (ns ++ rest)) : SteadyAlong m₀ m fp ns := by
  intro front n back hns
  apply h front n (back ++ rest)
  rw [hns, List.append_assoc, List.cons_append]

theorem SteadyAlong.back (h : SteadyAlong m₀ m fp (ns ++ rest))
    (hrun : executeAll fp ns m = .ok () m') : SteadyAlong m₀ m' fp rest := by
  intro front n back hrest s hs
  apply h (ns ++ front) n back
  · rw [hrest, List.append_assoc]
  · exact executeAll_append_ok.mpr ⟨m', hrun, hs⟩

/-- Moves touch the places of their outputs only. -/
theorem touches_moves (hmoves : ∀ n ∈ ns, ∃ input output, n.Moves m.primitives input output)
    (hsteady : SteadyAlong m₀ m fp ns) (hrun : executeAll fp ns m = .ok () m') :
    Touches (m₀.OutputCovers fp ns) m m' := by
  apply executeAll_invariant (.refl m) ?_ hrun
  intro front n back hns s t hfront hs hn
  have hmem : n ∈ ns := hns ▸ List.mem_append_right _ List.mem_cons_self
  obtain ⟨input, output, hmove⟩ := hmoves n hmem
  rw [← hs.primitives_eq] at hmove
  obtain ⟨bytes, place, hmade⟩ := (ends_move hmove).value hn
  have houtput : output ∈ n.outputs := hmove.outputs_eq ▸ List.mem_cons_self
  have hplace := (hsteady front n back hns s hfront output houtput).symm.trans hmade.place_eq
  apply hs.trans (hmade.touches.mono fun i hi => ?_)
  exact ⟨n, hmem, output, houtput, place, hplace, hi⟩

/-- After moves to places apart from each other every place holds the bytes that its input stood
for when its move was made; and these are the bytes from before all the moves, if what they depend
on belongs to no place that was written earlier. -/
theorem moves_hold {front back : List Node}
    (hmoves : ∀ n ∈ ns, ∃ input output, n.Moves m.primitives input output)
    (hsteady : SteadyAlong m₀ m fp ns)
    (hapart : ns.Pairwise fun n n' => ∀ o ∈ n.outputs, ∀ o' ∈ n'.outputs, ∀ x y,
      m₀.place fp o = .ok x → m₀.place fp o' = .ok y → x.Apart y)
    (hrun : executeAll fp ns m = .ok () m') (hns : ns = front ++ n :: back) :
    ∃ input output s bytes place, n.inputs = [input] ∧ n.outputs = [output] ∧
      executeAll fp front m = .ok () s ∧ input.bytes s.program.structs s.arena fp = .ok bytes ∧
      m₀.place fp output = .ok place ∧ bytes.length = place.size ∧
      place.offset + place.size ≤ m'.arena.heapPointer ∧ m'.arena.Stores place.offset bytes ∧
      ((∀ r ∈ input.footprint m.program.structs m.arena fp, ∀ i, r.1 ≤ i → i < r.1 + r.2 →
        ¬ m₀.OutputCovers fp front i) →
          input.bytes m.program.structs m.arena fp = .ok bytes) := by
  subst hns
  obtain ⟨s, hfront, hrest⟩ := executeAll_append_ok.mp hrun
  obtain ⟨t, hn, hback⟩ := executeAll_cons_ok.mp hrest
  have hs := touches_moves (fun x hx => hmoves x (List.mem_append_left _ hx)) hsteady.front hfront
  obtain ⟨input, output, hmove⟩ := hmoves n (List.mem_append_right _ List.mem_cons_self)
  have hmove' : n.Moves s.primitives input output := hs.primitives_eq ▸ hmove
  obtain ⟨bytes, place, hmade⟩ := (ends_move hmove').value hn
  have houtput : output ∈ n.outputs := hmove.outputs_eq ▸ List.mem_cons_self
  have hplace := (hsteady front n back rfl s hfront output houtput).symm.trans hmade.place_eq
  have hsteady' : SteadyAlong m₀ s fp ([n] ++ back) := hsteady.back hfront
  have hback : Touches (m₀.OutputCovers fp back) t m' := by
    apply touches_moves ?_ (hsteady'.back ?_) hback
    · intro x hx
      obtain ⟨input', output', hx⟩ := hmoves x (by simp [hx])
      refine ⟨input', output', ?_⟩
      rwa [hmade.touches.primitives_eq, hs.primitives_eq]
    · exact executeAll_cons_ok.mpr ⟨t, hn, rfl⟩
  refine ⟨input, output, s, bytes, place, hmove.inputs_eq, hmove.outputs_eq, hfront, hmade.bytes_eq,
    hplace, hmade.length_eq, ?_, ?_, ?_⟩
  · rw [hback.heapPointer_eq, hmade.touches.heapPointer_eq]
    exact hmade.stop_le
  · intro i hi
    rw [hback.getElem?_eq, hmade.stores i hi]
    rintro ⟨x, hx, o, ho, other, hother, hcovers⟩
    obtain ⟨-, hpair, -⟩ := List.pairwise_append.mp hapart
    have hhead := (List.pairwise_cons.mp hpair).1 x hx output houtput o ho place other hplace hother
    refine hhead _ ⟨Nat.le_add_right _ _, ?_⟩ hcovers
    rw [← hmade.length_eq]
    omega
  · intro hunread
    have hbytes := hmade.bytes_eq
    rwa [hs.program_eq, Operand.bytes_congr (hs.sameOn hunread)] at hbytes

end Machine

end FlatMachine
