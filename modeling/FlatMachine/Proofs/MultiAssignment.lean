import FlatMachine.Proofs.ShortDeclaration

/-!
# Assignments of several results

An assignment of several results is the node of the value with the targets as its outputs. When its
operator or callee is done, all targets are resolved before a result is written, so a target does
not see what is stored in another one.
-/

namespace FlatMachine

open FlatMachine.Action

namespace Lowering

variable {lw : Lowering} {op : AssignOp} {target value : List Node}

/-- Compound operators, values without a signature and a wrong number of targets are refused. -/
theorem multiAssignment_refuses (h : op.isCompound = true ∨ ∀ targets last signature,
      targets? target = some targets → value.getLast? = some last →
        last.operator.bind (·.signature?) = some signature →
          targets.length ≠ signature.outputs.length) :
    ∃ reason, lw.multiAssignment target op value = .error (.invalidAssignment reason) := by
  unfold multiAssignment
  by_cases hcompound : op.isCompound = true
  · rw [if_pos hcompound]
    exact ⟨_, rfl⟩
  rw [if_neg hcompound]
  have hcount := h.resolve_left hcompound
  cases htargets : targets? target with
  | none => exact ⟨_, rfl⟩
  | some targets =>
    cases hlast : value.getLast? with
    | none => exact ⟨_, rfl⟩
    | some last =>
      cases hsignature : last.operator.bind (·.signature?) with
      | none =>
        simp only [require, bind, Except.bind, hsignature]
        exact ⟨_, rfl⟩
      | some signature =>
        simp only [require, bind, Except.bind, hsignature]
        rw [if_pos (hcount targets last signature htargets hlast hsignature)]
        exact ⟨_, rfl⟩

end Lowering

namespace Arena

variable (a : Arena) (t : StructTable) (fp : Nat) (os : List Operand)

/-- No two of the operands lead to places with a common byte. -/
def LeadsApart : Prop :=
  ∀ (i j : Nat) (o o' : Operand) (place place' : Place), i < j → os[i]? = some o →
    os[j]? = some o' → o.place t a fp = .ok place → o'.place t a fp = .ok place' →
      place.Apart place'

/-- The operands lead into allocated memory. -/
def LeadsInside : Prop :=
  ∀ o ∈ os, ∀ place, o.place t a fp = .ok place → place.offset + place.size ≤ a.heapPointer

end Arena

/-- Only calls and primitives have a signature. -/
theorem Node.givesResults_of_signature {n : Node} {signature : Signature}
    (h : n.operator.bind (·.signature?) = some signature) : n.GivesResults := by
  obtain ⟨op, hop, hsome⟩ := Option.bind_eq_some_iff.mp h
  unfold GivesResults
  rw [hop]
  cases op with
  | native => trivial
  | call => trivial
  | jump => cases hsome

/-- A call gives as many results as its callee has result slots, each of them bytes. -/
theorem Machine.Completes.call_results {s m' : Machine} {fp : Nat} {n : Node} {slots : Slots}
    {a : Arena} {callee : FunctionName} {signature : Signature} (h : s.Completes fp n slots a m')
    (hop : n.operator = some (.call callee signature)) :
    ∃ (g : Function) (results : List Bytes), s.program.function? callee = some g ∧
      results.length = g.returns.length ∧
      slots = results.map fun bytes => some (.bytes bytes) := by
  cases h with
  | move hnone => cases hop.symm.trans hnone
  | native hnative => cases hop.symm.trans hnative
  | @call _ _ g _ _ u _ results hcall hg _ _ _ hresults =>
    cases hop.symm.trans hcall
    have hread : Gives (u.readSlots s.nextFp g.returns)
        (List.Forall₂ (fun _ _ => True) g.returns) (fun _ => True) :=
      gives_mapM fun _ _ => gives_of_ok (fun _ _ => trivial) fun _ => trivial
    exact ⟨g, results, hg, (hread.value hresults).length_eq.symm, rfl⟩

/-- Bytes are stored as they are. -/
theorem Staged.not_needsObject_of_bytes {results : List Bytes} {staged : Staged}
    (h : some staged ∈ results.map fun bytes => some (Staged.bytes bytes)) :
    ¬ staged.NeedsObject := by
  obtain ⟨bytes, -, heq⟩ := List.mem_map.mp h
  cases heq
  exact id

/-- The assignment of several results at run time: its last node, `n`, has completed with results
in `slots`, and its targets were looked for on `a`. -/
structure Machine.BindsResults (s : Machine) (l : FrameLayout) (fp : Nat) (targets : List Operand)
    (n : Node) (slots : Slots) (a : Arena) (m' : Machine) : Prop where
  /-- A callee gives the bytes of its result slots. -/
  call_results : ∀ callee signature, n.operator = some (.call callee signature) →
    ∃ (g : Function) (results : List Bytes), s.program.function? callee = some g ∧
      results.length = g.returns.length ∧ slots = results.map fun bytes => some (.bytes bytes)
  /-- Every target is found, and holds the result of its number, if no two of them overlap. If
  objects have to be stored for the results, this takes that all targets lie in allocated memory. -/
  held : ∀ (i : Nat) (target : Operand) (staged : Staged), targets[i]? = some target →
    slots[i]? = some (some staged) → ∃ o place, l.bind target = .ok o ∧
      o.place s.program.structs a fp = .ok place ∧
      (a.LeadsApart s.program.structs fp n.outputs →
        (∀ staged, some staged ∈ slots → ¬ staged.NeedsObject) ∨
          a.LeadsInside s.program.structs fp n.outputs →
        m'.arena.HoldsStaged place staged)

/-- An assignment of several results binds each of them. It is refused with a compound operator, for
a value without a signature and for another number of targets than of results. Otherwise its last
node is that of the value, for the targets; and when this node has been reached and is finished, it
has completed with results, which are bound to the targets as they stand in the memory before any of
them is written. -/
theorem multi_assignment_binds {lw : Lowering} {op : AssignOp} {target value : List Node} :
    (op.isCompound = true ∨ (∀ targets last signature, Lowering.targets? target = some targets →
        value.getLast? = some last → last.operator.bind (·.signature?) = some signature →
          targets.length ≠ signature.outputs.length) →
      ∃ reason, lw.multiAssignment target op value = .error (.invalidAssignment reason)) ∧
    ∀ {fd : FunctionDraft} {d : Draft} {l : FrameLayout} {f : Function} {ns nodes : List Node}
      {frame : Frame} {outer : List Frame} {m : Machine},
      lw.multiAssignment target .assign value = .ok ns → fd.Lays d l f frame.pc ns nodes →
      m.KeepsSegments → m.program.function? frame.function = some f →
      ∃ targets last n, Lowering.targets? target = some targets ∧ value.getLast? = some last ∧
        nodes.getLast? = some n ∧ n.operator = last.operator ∧
        List.Forall₂ (fun o o' => l.bind o = .ok o') last.inputs n.inputs ∧
        List.Forall₂ (fun o o' => l.bind o = .ok o') targets n.outputs ∧
        ∀ s m', m.ReachesNode frame outer (frame.pc + (nodes.length - 1)) s →
          (s.Finishes m' → ∃ slots a, s.Completes frame.fp n slots a m') ∧
          ∀ slots a, s.Completes frame.fp n slots a m' →
            s.BindsResults l frame.fp targets n slots a m' := by
  refine ⟨Lowering.multiAssignment_refuses, ?_⟩
  intro fd d l f ns nodes frame outer m hlower hlays hops hf
  obtain ⟨targets, last, signature, htargets, hlast, hsignature, -, rfl⟩ :=
    Lowering.multiAssignment_assign_eq_ok.mp hlower
  obtain ⟨front, tail, rfl, hfront, htail⟩ := exists_of_forall₂_append hlays.binds
  obtain ⟨n, rfl, hbinds⟩ := exists_of_forall₂_singleton htail
  have hn : (front ++ [n])[front.length]? = some n := List.getElem?_concat_length
  have hoperator : n.operator = last.operator := hbinds.operator_eq
  have hresults : n.GivesResults := Node.givesResults_of_signature (hoperator ▸ hsignature)
  refine ⟨targets, last, n, htargets, hlast, List.getLast?_concat, hoperator, hbinds.inputs,
    hbinds.outputs, fun s m' hreached => ?_⟩
  rw [List.length_append, List.length_singleton, Nat.add_sub_cancel] at hreached
  refine ⟨fun hfinished => hlays.exists_completes hops hf hn hresults hreached hfinished,
    fun slots a hcompletes => ⟨fun _ _ hop => hcompletes.call_results hop, ?_⟩⟩
  intro i target staged htarget hstaged
  obtain ⟨hprogram, -, -, hdelivers⟩ := hlays.delivers hops hf hn hreached hcompletes
  obtain ⟨o, ho, hbind⟩ := exists_getElem?_of_forall₂ hbinds.outputs.flip htarget
  obtain ⟨place, hplace, hholds⟩ := hdelivers i o staged ho hstaged
  rw [hprogram]
  refine ⟨o, place, hbind, hplace, fun hapart hsafe => hholds hsafe ?_⟩
  intro j o' place' hlt ho' hplace'
  exact hapart i j o o' place place' hlt ho ho' hplace hplace'

/-- A variable of a laid-out function. -/
def slotOperand (name : String) (ty : Ty) (offset : Nat) : Operand :=
  { name, ty, storage := .frame offset, package := "main" }

/-- A function that yields its arguments in the other order. -/
def exchangeFunction : Function where
  package := "main"
  name := "exchange"
  params := [slotOperand "x" .i32 0, slotOperand "y" .i32 4]
  returns := [slotOperand "v" .i32 8, slotOperand "w" .i32 12]
  body := [
    { inputs := [slotOperand "y" .i32 4], outputs := [slotOperand "v" .i32 8] },
    { inputs := [slotOperand "x" .i32 0], outputs := [slotOperand "w" .i32 12] }]
  frameSize := 16

def exchangeOperator : Operator := .call ⟨"main", "exchange"⟩ (.of [.i32, .i32] [.i32, .i32])

def exchangeLowering : Lowering where
  structs := {}
  primitives := .empty
  package := "main"

/-- The targets `i` and `xs[i]`. -/
def exchangeTargets : List Operand :=
  [{ name := "i" }, { name := "xs", chain := [.index (.operand { name := "i" })] }]

/-- The call `exchange(i, k)`, for these targets. -/
def exchangeBody (targets : List Operand) : List Node :=
  [{ operator := some exchangeOperator
     inputs := [{ name := "i" }, { name := "k" }]
     outputs := targets }]

def exchangeDraft : FunctionDraft where
  package := "main"
  name := "store"
  params := [("i", .i32), ("k", .i32), ("xs", .array .i32 2)]
  body := exchangeBody exchangeTargets

def exchangeLayout : FrameLayout where
  package := "main"
  draft := {}
  slots := [⟨"xs", 8, .array .i32 2⟩, ⟨"k", 4, .i32⟩, ⟨"i", 0, .i32⟩]
  size := 16

/-- The element that the index `i` leads to. -/
def elementOperand : Operand :=
  { slotOperand "xs" (.array .i32 2) 8 with
    chain := [.index (.operand (slotOperand "i" .i32 0))] }

/-- The function with the assignment, laid out. -/
def storeFunction : Function where
  package := "main"
  name := "store"
  params := [
    { slotOperand "i" .i32 0 with declared := true },
    { slotOperand "k" .i32 4 with declared := true },
    { slotOperand "xs" (.array .i32 2) 8 with declared := true }]
  body := [
    { operator := some exchangeOperator
      inputs := [slotOperand "i" .i32 0, slotOperand "k" .i32 4]
      outputs := [slotOperand "i" .i32 0, elementOperand]
      package := "main" }]
  frameSize := 16

def storeFrame : Frame where
  function := ⟨"main", "store"⟩
  fp := 8
  callerFp := 8
  size := 16
  returnsToCaller := false

/-- A machine with 0 in `i`, 1 in `k` and 5 in both elements, the bytes of a call behind them, and
frames on top of that of the function. -/
def storeMachine (called : List UInt8) (frames : List Frame) : Machine where
  program := {
    data := List.replicate nilGuard 0, functions := [storeFunction, exchangeFunction] }
  primitives := .empty
  options := {}
  work := {
    arena := {
      image := (List.replicate 8 0 ++
        [0, 0, 0, 0, 1, 0, 0, 0, 5, 0, 0, 0, 5, 0, 0, 0] ++ called).toArray
      stackStart := 8, stackEnd := 40, capacity := 40, limit := 40 }
    random := .ofSeed 0 }
  stack := { frames := frames ++ [storeFrame], maxDepth := 2 }

/-- The machine that is about to execute the assignment. -/
def assigningMachine : Machine := storeMachine (List.replicate 16 0) []

/-- The machine whose callee has come to its end. -/
def returningMachine : Machine :=
  storeMachine [0, 0, 0, 0, 1, 0, 0, 0, 1, 0, 0, 0, 0, 0, 0, 0]
    [{ exchangeFunction.frame 24 8 true with pc := 2 }]

/-- With the index as it still is, `xs[i]` is the first element. -/
theorem leadsApart_returningMachine :
    returningMachine.arena.LeadsApart {} 8 [slotOperand "i" .i32 0, elementOperand] := by
  intro i j o o' place place' hlt ho ho' hplace hplace'
  have hj : j < 2 := (List.getElem?_eq_some_iff.mp ho').1
  obtain ⟨rfl, rfl⟩ : i = 0 ∧ j = 1 := by omega
  cases ho
  cases ho'
  have hfirst : place = ⟨8, .i32, 4⟩ := Except.ok.inj hplace.symm
  have hsecond : place' = ⟨16, .i32, 4⟩ := Except.ok.inj hplace'.symm
  subst hfirst hsecond
  intro b hin hin'
  unfold Place.Covers at hin hin'
  dsimp only at hin hin'
  omega

/-- The first result becomes the index; the second one goes to the element of the index before. -/
theorem multi_assignment_binds_assigningMachine :
    (∃ reason, exchangeLowering.multiAssignment [.value { name := "i" }] .assign (exchangeBody []) =
      .error (.invalidAssignment reason)) ∧
    ∃ t m', Machine.advance assigningMachine = .ok true t ∧
      Machine.advances 2 t = .ok () returningMachine ∧
      Machine.advance returningMachine = .ok false m' ∧
      m'.arena.HoldsStaged ⟨8, .i32, 4⟩ (.bytes [1, 0, 0, 0]) ∧
      m'.arena.HoldsStaged ⟨16, .i32, 4⟩ (.bytes [0, 0, 0, 0]) := by
  constructor
  · refine (@multi_assignment_binds exchangeLowering .assign _ _).1 (.inr ?_)
    rintro targets last signature htargets hlast hsignature
    cases htargets
    cases hlast
    cases hsignature
    decide
  have hlower : exchangeLowering.multiAssignment (exchangeTargets.map .value) .assign
      (exchangeBody []) = .ok (exchangeBody exchangeTargets) := rfl
  have hlays : exchangeDraft.Lays {} exchangeLayout storeFunction 0 (exchangeBody exchangeTargets)
      storeFunction.body := ⟨rfl, rfl, List.prefix_rfl, List.prefix_rfl, rfl⟩
  have hops : assigningMachine.KeepsSegments := nofun
  have hstore : assigningMachine.program.function? storeFrame.function = some storeFunction := rfl
  obtain ⟨targets, last, n, htargets, -, hn, -, -, -, hbinds⟩ :=
    (@multi_assignment_binds exchangeLowering .assign _ _).2 hlower hlays hops hstore
  cases htargets
  cases hn
  obtain ⟨t, henter, hran⟩ : ∃ t, Machine.advance assigningMachine = .ok true t ∧
      Machine.advances 2 t = .ok () returningMachine := ⟨_, rfl, rfl⟩
  obtain ⟨m', hleave⟩ : ∃ m', Machine.advance returningMachine = .ok false m' := ⟨_, rfl⟩
  have hcompletes : assigningMachine.Completes storeFrame.fp storeFunction.body[0]
      ([[1, 0, 0, 0], [0, 0, 0, 0]].map fun bytes => some (.bytes bytes))
      returningMachine.arena m' :=
    .call rfl rfl henter hran rfl rfl hleave
  have hbound := (hbinds assigningMachine m' ⟨0, rfl, rfl⟩).2 _ _ hcompletes
  have hfirst : (slotOperand "i" .i32 0).place {} returningMachine.arena 8 = .ok ⟨8, .i32, 4⟩ := rfl
  have hsecond : elementOperand.place {} returningMachine.arena 8 = .ok ⟨16, .i32, 4⟩ := rfl
  have hwords : ∀ staged, some staged ∈ ([[1, 0, 0, 0], [0, 0, 0, 0]] : List Bytes).map
      (fun bytes => some (Staged.bytes bytes)) → ¬ staged.NeedsObject :=
    fun _ hstaged => Staged.not_needsObject_of_bytes hstaged
  refine ⟨t, m', henter, hran, hleave, ?_, ?_⟩
  · obtain ⟨o, place, hbind, hplace, hholds⟩ := hbound.held 0 _ _ rfl rfl
    cases hbind
    cases hfirst.symm.trans hplace
    exact hholds leadsApart_returningMachine (.inl hwords)
  · obtain ⟨o, place, hbind, hplace, hholds⟩ := hbound.held 1 _ _ rfl rfl
    cases hbind
    cases hsecond.symm.trans hplace
    exact hholds leadsApart_returningMachine (.inl hwords)

/-- The primitives on strings, the second one of which joins two. -/
def joinTable : PrimitiveTable := { entries := stringPrimitives }

def joinOperator : Operator := .native 1 "str.concat" (.of [.str, .str] [.str])

def joinLowering : Lowering where
  structs := {}
  primitives := joinTable
  package := "main"

/-- What `p` points to. -/
def joinTarget : Operand := { name := "p", chain := [.pointer] }

/-- The nodes of `str.concat(a, a)`, for these targets. -/
def joinBody (targets : List Operand) : List Node :=
  [{ operator := some joinOperator
     inputs := [{ name := "a" }, { name := "a" }]
     outputs := targets }]

def joinDraft : FunctionDraft where
  package := "main"
  name := "join"
  params := [("p", .pointer .str), ("a", .str)]
  body := joinBody [joinTarget]

def joinLayout : FrameLayout where
  package := "main"
  draft := {}
  slots := [⟨"a", 4, .str⟩, ⟨"p", 0, .pointer .str⟩]
  size := 8

/-- The target in the laid-out function. -/
def danglingTarget : Operand := { slotOperand "p" (.pointer .str) 0 with chain := [.pointer] }

def joinNode : Node where
  operator := some joinOperator
  inputs := [slotOperand "a" .str 4, slotOperand "a" .str 4]
  outputs := [danglingTarget]
  package := "main"

def joinFunction : Function where
  package := "main"
  name := "join"
  params := [
    { slotOperand "p" (.pointer .str) 0 with declared := true },
    { slotOperand "a" .str 4 with declared := true }]
  body := [joinNode]
  frameSize := 8

def joinFrame : Frame where
  function := ⟨"main", "join"⟩
  fp := 8
  callerFp := 8
  size := 8
  returnsToCaller := false

/-- A machine in the function, with the empty string in `a`, whose pointer `p` leads to the end of
the allocated memory. -/
def joinMachine : Machine where
  program := { data := List.replicate nilGuard 0, functions := [joinFunction] }
  primitives := joinTable
  options := {}
  work := {
    arena := {
      image := #[0, 0, 0, 0, 0, 0, 0, 0, 16, 0, 0, 0, 0, 0, 0, 0]
      stackStart := 8, stackEnd := 16, capacity := 20, limit := 20 }
    random := .ofSeed 0 }
  stack := { frames := [joinFrame], maxDepth := 1 }

/-- Where the target leads the string is stored as an object, whose length is then overwritten with
the handle. -/
theorem exists_result_overwritten :
    joinLowering.multiAssignment [.value joinTarget] .assign (joinBody []) =
      .ok (joinBody [joinTarget]) ∧
    joinDraft.Lays {} joinLayout joinFunction joinFrame.pc (joinBody [joinTarget])
      joinFunction.body ∧
    joinMachine.stack.frames = [joinFrame] ∧
    joinMachine.program.function? joinFrame.function = some joinFunction ∧
    ∃ m', joinMachine.Completes 8 joinNode [some (.value (.str ""))] joinMachine.arena m' ∧
      joinMachine.Finishes m' ∧
      danglingTarget.place {} joinMachine.arena 8 = .ok ⟨16, .str, 4⟩ ∧
      ¬ m'.arena.HoldsStaged ⟨16, .str, 4⟩ (.value (.str "")) ∧
      danglingTarget.value {} m'.arena 8 = .error (.corruptSlice 20 4) := by
  refine ⟨rfl, ⟨rfl, rfl, List.prefix_rfl, List.prefix_rfl, rfl⟩, rfl, rfl, ?_⟩
  obtain ⟨m', hadvance, hdepth, hhandle, hlength, hvalue⟩ : ∃ m',
      Machine.advance joinMachine = .ok true m' ∧ m'.depth = joinMachine.depth ∧
        m'.arena.readHandle 16 = .ok 16 ∧ m'.arena.image[16]? = some 16 ∧
        danglingTarget.value {} m'.arena 8 = .error (.corruptSlice 20 4) :=
    ⟨_, rfl, rfl, rfl, rfl, rfl⟩
  have hrun : Machine.advances 1 joinMachine = .ok () m' :=
    Machine.advances_succ.mpr ⟨true, m', hadvance, rfl⟩
  refine ⟨m', .native rfl rfl rfl hadvance, ⟨0, hrun, hdepth, nofun⟩, rfl, ?_, hvalue⟩
  rintro ⟨pending, hpending, -, hheld⟩
  have hobject : Pending.ofStaged ⟨16, .str, 4⟩ (.value (.str "")) =
      .ok (.object 16 [0, 0, 0, 0]) := rfl
  cases hobject.symm.trans hpending
  obtain ⟨handle, hread, hstores⟩ := hheld
  cases hhandle.symm.trans hread
  -- the length of the empty string has become that of the handle
  cases hlength.symm.trans (hstores 0 (by decide))

end FlatMachine
