import FlatMachine.Proofs.Relational
import FlatMachine.Proofs.Twins

/-!
# Interchangeable functions

Nodes are interchangeable if they apply the same operator to the same inputs and write to the same
places, wherever they stand in the source and however their operands were declared. A function whose
nodes are interchangeable with those of another can take its place: the two programs run in
lockstep, and end alike but for the location that an error is found at.
-/

namespace FlatMachine

open FlatMachine.Action

namespace Action

variable {σ α β : Type} {R : σ → σ → Prop} {s t : σ}

/-- Both results are the same value, or errors that differ in their locations only, in related
states. -/
def EndRooted (R : σ → σ → Prop) : EStateM.Result Error σ α → EStateM.Result Error σ α → Prop
  | .ok x s, .ok y t => y = x ∧ R s t
  | .error e s, .error f t => f.root = e.root ∧ R s t
  | _, _ => False

theorem EndRooted.cases {r r' : EStateM.Result Error σ α} (h : EndRooted R r r') :
    (∃ x s t, r = .ok x s ∧ r' = .ok x t ∧ R s t) ∨
      ∃ e f s t, r = .error e s ∧ r' = .error f t ∧ f.root = e.root ∧ R s t := by
  cases r with
  | ok x s =>
    cases r' with
    | ok y t =>
      obtain ⟨rfl, h⟩ := h
      exact .inl ⟨y, s, t, rfl, rfl, h⟩
    | error f t => exact h.elim
  | error e s =>
    cases r' with
    | ok y t => exact h.elim
    | error f t => exact .inr ⟨e, f, s, t, rfl, rfl, h⟩

theorem EndAlike.rooted {r r' : EStateM.Result Error σ α} (h : EndAlike R r r') :
    EndRooted R r r' := by
  rcases h.cases with ⟨x, s, t, rfl, rfl, hst⟩ | ⟨e, s, t, rfl, rfl, hst⟩
  · exact ⟨rfl, hst⟩
  · exact ⟨rfl, hst⟩

theorem EndRooted.bind {act act' : Action σ α} {f f' : α → Action σ β}
    (h : EndRooted R (act s) (act' t))
    (hf : ∀ x s' t', R s' t' → EndRooted R (f x s') (f' x t')) :
    EndRooted R ((act >>= f) s) ((act' >>= f') t) := by
  simp only [Bind.bind, EStateM.bind]
  rcases h.cases with ⟨x, s', t', hs, ht, h⟩ | ⟨e, e', s', t', hs, ht, h⟩ <;> rw [hs, ht]
  · exact hf x s' t' h
  · exact h

theorem EndRooted.tag {act act' : Action σ α} (h : EndRooted R (act s) (act' t))
    (location location' : Location) :
    EndRooted R (act.mapError (·.tag location) s) (act'.mapError (·.tag location') t) := by
  simp only [Action.mapError]
  rcases h.cases with ⟨x, s', t', hs, ht, h⟩ | ⟨e, e', s', t', hs, ht, hroot, h⟩ <;> rw [hs, ht]
  · exact ⟨rfl, h⟩
  · exact ⟨by rw [Error.root_tag, Error.root_tag, hroot], h⟩

end Action

/-- The operands are declared at the same place, and the same object is allocated for both. -/
structure Operand.TwinDeclared (o o' : Operand) : Prop extends o.Twin o' where
  escapes_eq : o'.escapes = o.escapes ∨ o.chain = [] ∧ ∀ target, o.ty ≠ .pointer target

/-- Nodes that do the same where operators are looked up in this table. -/
inductive Node.Interchangeable (table : PrimitiveTable) (n n' : Node) : Prop where
  | same (h : n' = n)
  | declares (hop : n.operator = none) (hop' : n'.operator = none) (hinputs : n.inputs = [])
      (hinputs' : n'.inputs = [])
      (houtputs : List.Forall₂ Operand.TwinDeclared n.outputs n'.outputs)
  | applies {op : Operator} (hop : n.operator = some op) (hop' : n'.operator = some op)
      (hinputs : List.Forall₂ Operand.TwinInput n.inputs n'.inputs)
      (houtputs : List.Forall₂ Operand.Twin n.outputs n'.outputs)
      (hexecute : ∀ code name signature p structs fp, op = .native code name signature →
        table.get code = .ok p → p.execute ⟨structs, fp, n'⟩ = p.execute ⟨structs, fp, n⟩)

/-- Functions with the same frame whose nodes are interchangeable. -/
structure Function.Interchangeable (table : PrimitiveTable) (f f' : Function) : Prop where
  reference_eq : f'.reference = f.reference
  params_eq : f'.params = f.params
  returns_eq : f'.returns = f.returns
  frameSize_eq : f'.frameSize = f.frameSize
  body : List.Forall₂ (Node.Interchangeable table) f.body f'.body

structure Program.Interchangeable (table : PrimitiveTable) (p p' : Program) : Prop where
  structs_eq : p'.structs = p.structs
  functions : List.Forall₂ (Function.Interchangeable table) p.functions p'.functions

/-- The machine in the same state with another program. -/
def Machine.withProgram (m : Machine) (p : Program) : Machine := { m with program := p }

/-- Two machines in the same state, with these programs. -/
structure Machine.Swapped (table : PrimitiveTable) (p p' : Program) (m m' : Machine) : Prop where
  primitives_eq : m.primitives = table
  program_eq : m.program = p
  eq : m' = m.withProgram p'

section Nodes

variable {table : PrimitiveTable} {structs : StructTable} {fp : Nat} {n n' : Node}
  {o o' : Operand} {os os' : List Operand}

theorem Node.Interchangeable.operator_eq (h : n.Interchangeable table n') :
    n'.operator = n.operator := by
  cases h with
  | same h => rw [h]
  | declares hop hop' => rw [hop, hop']
  | applies hop hop' => rw [hop, hop']

theorem Node.Interchangeable.inputs (h : n.Interchangeable table n') :
    List.Forall₂ Operand.TwinInput n.inputs n'.inputs := by
  cases h with
  | same h => exact h ▸ List.forall₂_same.mpr fun o _ => .refl o
  | declares _ _ hinputs hinputs' =>
    rw [hinputs, hinputs']
    exact .nil
  | applies _ _ hinputs => exact hinputs

theorem Node.Interchangeable.outputs (h : n.Interchangeable table n') :
    List.Forall₂ Operand.Twin n.outputs n'.outputs := by
  cases h with
  | same h => exact h ▸ List.forall₂_same.mpr fun o _ => .refl o
  | declares _ _ _ _ houtputs => exact houtputs.imp fun _ _ h => h.toTwin
  | applies _ _ _ houtputs => exact houtputs

theorem mapM_eq_of_forall₂ {α β : Type} {R : α → α → Prop} {f : α → Except Error β}
    {as as' : List α} (h : List.Forall₂ R as as') (hf : ∀ a a', R a a' → f a' = f a) :
    as'.mapM f = as.mapM f := by
  induction h with
  | nil => rfl
  | cons hab _ ih => rw [List.mapM_cons, List.mapM_cons, hf _ _ hab, ih]

/-- The place of an operand that names a symbol has the type of the symbol. -/
theorem Operand.ty_of_place {a : Arena} {place : Place} (hchain : o.chain = [])
    (h : o.place structs a fp = .ok place) : place.ty = o.ty := by
  rw [Operand.place_eq, hchain] at h
  obtain ⟨start, -, h⟩ := bind_eq_ok.mp h
  obtain ⟨found, hfound, h⟩ := bind_eq_ok.mp h
  obtain ⟨size, -, h⟩ := bind_eq_ok.mp h
  cases hfound
  cases h
  rfl

theorem Machine.declare_twin (h : o.TwinDeclared o') :
    Machine.declare structs fp o' = Machine.declare structs fp o := by
  funext a
  simp only [Machine.declare, Action.query, Bind.bind, EStateM.bind, h.place_eq]
  cases hplace : o.place structs a fp with
  | error e => rfl
  | ok place =>
    rcases h.escapes_eq with hescapes | ⟨hchain, hty⟩
    · rw [hescapes]
    · -- nothing is allocated for what is not a pointer
      have hne : ∀ target, place.ty ≠ .pointer target := by
        rw [Operand.ty_of_place hchain hplace]
        exact hty
      obtain ⟨offset, ty, size⟩ := place
      cases ty with
      | pointer target => exact absurd rfl (hne target)
      | _ => cases o.escapes <;> cases o'.escapes <;> rfl

theorem Machine.declareAll_twin (h : List.Forall₂ Operand.TwinDeclared os os') :
    Machine.declareAll structs fp os' = Machine.declareAll structs fp os := by
  induction h with
  | nil => rfl
  | cons ho _ ih => rw [declareAll, declareAll, declare_twin ho, ih]

/-- The nodes do the same to a machine. -/
theorem Node.Interchangeable.executeNode_eq (h : n.Interchangeable table n') {m : Machine}
    (hm : m.primitives = table) : Machine.executeNode fp n' m = Machine.executeNode fp n m := by
  unfold Machine.executeNode
  rw [get_bind_apply, get_bind_apply]
  cases h with
  | same h => rw [h]
  | declares hop hop' hinputs hinputs' houtputs =>
    rw [hop, hop', Machine.executeBare, Machine.executeBare, hinputs, hinputs']
    exact congrFun (congrArg Machine.onArena (Machine.declareAll_twin houtputs)) m
  | @applies op hop hop' _ _ hexecute =>
    rw [hop, hop']
    cases op with
    | native code name signature =>
      dsimp only
      rw [hm]
      cases hp : table.get code with
      | error e => rfl
      | ok p =>
        rw [ofExcept_ok_bind, ofExcept_ok_bind, hexecute code name signature p _ fp rfl hp]
    | call function signature => rfl
    | jump onTrue onFalse => rfl

end Nodes

namespace Machine

variable {table : PrimitiveTable} {p p' : Program} {m m' : Machine} {α : Type} {fp pc : Nat}
  {n n' : Node} {f f' : Function}

theorem swapped_withProgram (m : Machine) (p' : Program) :
    Swapped m.primitives m.program p' m (m.withProgram p') := ⟨rfl, rfl, rfl⟩

theorem Swapped.withStack (h : Swapped table p p' m m') (stack : CallStack) :
    Swapped table p p' { m with stack } { m' with stack } := by
  obtain ⟨htable, hprogram, rfl⟩ := h
  exact ⟨htable, hprogram, rfl⟩

theorem Swapped.stack_eq (h : Swapped table p p' m m') : m'.stack = m.stack := by
  rw [h.eq]
  rfl

theorem Swapped.arena_eq (h : Swapped table p p' m m') : m'.arena = m.arena := by
  rw [h.eq]
  rfl

theorem Swapped.program_eq' (h : Swapped table p p' m m') : m'.program = p' := by
  rw [h.eq]
  rfl

theorem Swapped.depth_eq (h : Swapped table p p' m m') : m'.depth = m.depth := by
  rw [depth, depth, h.stack_eq]

theorem Swapped.nextFp_eq (h : Swapped table p p' m m') : m'.nextFp = m.nextFp := by
  rw [nextFp, nextFp, h.stack_eq, h.arena_eq]

theorem Swapped.setPc (h : Swapped table p p' m m') (pc : Nat) :
    Swapped table p p' (m.setPc pc) (m'.setPc pc) := by
  rw [Machine.setPc, Machine.setPc, h.stack_eq]
  exact h.withStack _

/-- What acts on the memory, the generator and the host does not see the program. -/
theorem swapped_onWork (act : Action Workspace α) :
    Respects (Swapped table p p') (onWork act) := by
  apply Respects.within (R := Eq)
  · rintro w _ rfl
    cases act w <;> exact ⟨rfl, rfl⟩
  · rintro m m' h
    rw [h.eq]
    rfl
  · rintro w _ m m' rfl ⟨htable, hprogram, rfl⟩
    exact ⟨htable, hprogram, rfl⟩

theorem swapped_onArena (act : Action Arena α) : Respects (Swapped table p p') (onArena act) :=
  swapped_onWork _

theorem enter_interchangeable (hf : f.Interchangeable table f') (fp callerFp : Nat)
    (args : List Bytes) (returnsToCaller : Bool) :
    enter f' fp callerFp args returnsToCaller = enter f fp callerFp args returnsToCaller := by
  unfold enter
  rw [hf.frameSize_eq, hf.params_eq, hf.reference_eq]

/-- The node at the same position does the same. -/
theorem getElem?_interchangeable (hf : f.Interchangeable table f') (pc : Nat) :
    Option.Rel (Node.Interchangeable table) f.body[pc]? f'.body[pc]? := by
  have hbody := hf.body
  generalize f.body = ns, f'.body = ns' at hbody
  induction hbody generalizing pc with
  | nil => exact .none
  | cons hn _ ih =>
    cases pc with
    | zero => exact .some hn
    | succ pc => exact ih pc

section Programs

variable (h : p.Interchangeable table p')
include h

theorem swapped_executeNode (fp : Nat) (n : Node) :
    Respects (Swapped table p p') (executeNode fp n) := by
  apply respects_get_bind
  · intro m m' hm
    rw [hm.program_eq', hm.program_eq, h.structs_eq, hm.eq]
    rfl
  · intro m _ _
    split
    · exact swapped_onArena _
    · exact (respects_ofExcept _).bind fun p => swapped_onWork _
    · exact respects_throw _

theorem swapped_enter (f : Function) (fp callerFp : Nat) (args : List Bytes)
    (returnsToCaller : Bool) :
    Respects (Swapped table p p') (enter f fp callerFp args returnsToCaller) := by
  apply respects_get_bind
  · intro m m' hm
    rw [hm.program_eq', hm.program_eq, h.structs_eq, hm.arena_eq, hm.depth_eq]
  · intro m _ _
    dsimp only
    split
    · exact respects_throw _
    · apply Respects.bind
      · intro m m' hm
        simp only [update, hm.stack_eq]
        cases m.stack.push _ with
        | error e => exact ⟨rfl, hm⟩
        | ok stack => exact ⟨rfl, hm.withStack stack⟩
      · intro _
        exact (swapped_onArena _).bind fun _ => swapped_onArena _

theorem function?_interchangeable (name : FunctionName) :
    Option.Rel (Function.Interchangeable table) (p.function? name) (p'.function? name) := by
  have hfunctions := h.functions
  unfold Program.function?
  generalize p.functions = fs, p'.functions = fs' at hfunctions
  induction hfunctions with
  | nil => exact .none
  | @cons f f' _ _ hf _ ih =>
    rw [List.find?_cons, List.find?_cons, hf.reference_eq]
    cases f.reference == name with
    | true => exact .some hf
    | false => exact ih

theorem function_interchangeable (name : FunctionName) :
    (∃ f f', p.function name = .ok f ∧ p'.function name = .ok f' ∧ f.Interchangeable table f') ∨
      ∃ e, p.function name = .error e ∧ p'.function name = .error e := by
  have hrel := function?_interchangeable h name
  unfold Program.function
  generalize p.function? name = found, p'.function? name = found' at hrel
  cases hrel with
  | none => exact .inr ⟨_, rfl, rfl⟩
  | some hf => exact .inl ⟨_, _, rfl, rfl, hf⟩

theorem endAlike_executeNode (hn : n.Interchangeable table n') (hm : Swapped table p p' m m') :
    EndAlike (Swapped table p p') (executeNode fp n m) (executeNode fp n' m') := by
  have htable : m'.primitives = table := by
    rw [hm.eq]
    exact hm.primitives_eq
  rw [hn.executeNode_eq htable]
  exact swapped_executeNode h fp n m m' hm

theorem Swapped.place_eq (hm : Swapped table p p' m m') {o o' : Operand} (ho : o.Twin o') :
    m'.place fp o' = m.place fp o := by
  rw [place, place, hm.program_eq', hm.program_eq, h.structs_eq, hm.arena_eq, ho.place_eq]

theorem Swapped.value_eq (hm : Swapped table p p' m m') {o o' : Operand} (ho : o.Twin o') :
    m'.value fp o' = m.value fp o := by
  rw [value, value, hm.program_eq', hm.program_eq, h.structs_eq, hm.arena_eq, ho.value_eq]

theorem Swapped.readSlots_eq (hm : Swapped table p p' m m') (slots : List Operand) :
    m'.readSlots fp slots = m.readSlots fp slots := by
  simp only [readSlots, hm.place_eq h (.refl _), hm.arena_eq]

theorem Swapped.resultWrites_eq (hm : Swapped table p p' m m') (hf : f.Interchangeable table f')
    {os os' : List Operand} (hos : List.Forall₂ Operand.Twin os os') (results : List Bytes) :
    m'.resultWrites f' fp os' results = m.resultWrites f fp os results := by
  induction hos generalizing results with
  | nil => rfl
  | cons ho _ ih =>
    cases results with
    | nil => rfl
    | cons bytes results =>
      simp only [resultWrites, hm.place_eq h ho, hf.reference_eq, ih]

theorem Swapped.jumpTarget_eq (hm : Swapped table p p' m m') (hn : n.Interchangeable table n')
    (onTrue onFalse : Int) (length : Nat) : m'.jumpTarget fp pc n' onTrue onFalse length =
      m.jumpTarget fp pc n onTrue onFalse length := by
  have hinputs := hn.inputs
  unfold jumpTarget
  generalize n.inputs = os, n'.inputs = os' at hinputs
  cases hinputs with
  | nil => rfl
  | cons ho _ => simp only [hm.value_eq h ho.toTwin]

theorem endAlike_callNode (hn : n.Interchangeable table n') (hm : Swapped table p p' m m')
    (callee : FunctionName) :
    EndAlike (Swapped table p p') (callNode fp n callee m) (callNode fp n' callee m') := by
  unfold callNode
  rw [get_bind_apply, get_bind_apply, hm.program_eq', hm.program_eq, hm.nextFp_eq, hm.arena_eq,
    h.structs_eq, ← hn.inputs.length_eq]
  rcases function_interchangeable h callee with ⟨f, f', hf, hf', hff⟩ | ⟨e, he, he'⟩
  · have hargs : n'.inputs.mapM (·.bytes p.structs m.arena fp) =
        n.inputs.mapM (·.bytes p.structs m.arena fp) :=
      mapM_eq_of_forall₂ hn.inputs fun _ _ ho => ho.bytes_eq
    simp only [hf, hf', ofExcept_ok_bind, hff.params_eq, hargs, enter_interchangeable hff]
    split
    · exact ⟨rfl, hm⟩
    · exact ((respects_ofExcept _).bind fun args => swapped_enter h f _ _ args true) m m' hm
  · rw [he, he']
    exact ⟨rfl, hm⟩

theorem endAlike_storeResults (hf : f.Interchangeable table f') (hn : n.Interchangeable table n')
    (hm : Swapped table p p' m m') (calleeFp callerFp : Nat) : EndAlike (Swapped table p p')
      (storeResults calleeFp f callerFp n m) (storeResults calleeFp f' callerFp n' m') := by
  apply EndAlike.bind
  · simp only [query, hf.returns_eq, hm.readSlots_eq h, hm.resultWrites_eq h hf hn.outputs]
    exact respects_ofExcept _ m m' hm
  · exact fun writes => swapped_onArena (writeAll writes)

theorem endRooted_leave (hm : Swapped table p p' m m') :
    EndRooted (Swapped table p p') (leave m) (leave m') := by
  unfold leave
  rw [get_bind_apply, get_bind_apply, hm.stack_eq, hm.program_eq', hm.program_eq]
  cases m.stack.top? with
  | none => exact ⟨rfl, hm⟩
  | some frame =>
    have hpop := hm.withStack m.stack.pop
    rw [hm.program_eq', hm.program_eq] at hpop
    apply EndRooted.bind
    · exact ⟨rfl, hpop⟩
    · intro _ s t hst
      split
      · rcases function_interchangeable h frame.function with
          ⟨callee, callee', hf, hf', hcallee⟩ | ⟨e, he, he'⟩
        · rw [hf, hf', ofExcept_ok_bind, ofExcept_ok_bind]
          cases m.stack.pop.top? with
          | none => exact ⟨rfl, hst⟩
          | some caller =>
            dsimp only
            rcases function_interchangeable h caller.function with
              ⟨f, f', hf, hf', hff⟩ | ⟨e, he, he'⟩
            · rw [hf, hf', ofExcept_ok_bind, ofExcept_ok_bind]
              have hnode := getElem?_interchangeable hff caller.pc
              generalize f.body[caller.pc]? = found, f'.body[caller.pc]? = found' at hnode
              cases hnode with
              | none =>
                rw [hff.reference_eq]
                exact ⟨rfl, hst⟩
              | some hn =>
                refine (EndRooted.tag (endAlike_storeResults h hcallee hn hst _ _).rooted
                  _ _).bind fun _ s t hst => ?_
                exact ⟨rfl, hst.setPc _⟩
            · rw [he, he']
              exact ⟨rfl, hst⟩
        · rw [he, he']
          exact ⟨rfl, hst⟩
      · exact ⟨rfl, hst⟩

theorem endAlike_executeAt (hf : f.Interchangeable table f') (hn : n.Interchangeable table n')
    (hm : Swapped table p p' m m') (fp pc : Nat) : EndAlike (Swapped table p p')
      (executeAt f fp pc n m) (executeAt f' fp pc n' m') := by
  have hnode : EndAlike (Swapped table p p') ((executeNode fp n >>= fun _ =>
      modify (·.setPc (pc + 1)) : Action Machine Unit) m) ((executeNode fp n' >>= fun _ =>
      modify (·.setPc (pc + 1)) : Action Machine Unit) m') :=
    (endAlike_executeNode h hn hm).bind fun _ s t hst => ⟨rfl, hst.setPc (pc + 1)⟩
  unfold executeAt
  rw [hn.operator_eq]
  rcases n.operator with _ | ⟨code, name, signature⟩ | ⟨callee, signature⟩ | ⟨onTrue, onFalse⟩
  · exact hnode
  · exact hnode
  · exact endAlike_callNode h hn hm callee
  · apply EndAlike.bind
    · simp only [query, ← hf.body.length_eq, hm.jumpTarget_eq h hn]
      exact respects_ofExcept _ m m' hm
    · exact fun target s t hst => ⟨rfl, hst.setPc target⟩

theorem endRooted_advance (hm : Swapped table p p' m m') :
    EndRooted (Swapped table p p') (advance m) (advance m') := by
  unfold advance
  rw [get_bind_apply, get_bind_apply, hm.stack_eq, hm.program_eq', hm.program_eq]
  cases m.stack.top? with
  | none => exact ⟨rfl, hm⟩
  | some frame =>
    dsimp only
    rcases function_interchangeable h frame.function with
      ⟨f, f', hf, hf', hff⟩ | ⟨e, he, he'⟩
    · rw [hf, hf', ofExcept_ok_bind, ofExcept_ok_bind]
      have hnode := getElem?_interchangeable hff frame.pc
      generalize f.body[frame.pc]? = found, f'.body[frame.pc]? = found' at hnode
      cases hnode with
      | none => exact (endRooted_leave h hm).bind fun _ s t hst => ⟨rfl, hst⟩
      | some hn =>
        refine (EndRooted.tag (endAlike_executeAt h hff hn hm _ _).rooted _ _).bind
          fun _ s t hst => ?_
        exact ⟨rfl, hst⟩
    · rw [he, he']
      exact ⟨rfl, hm⟩

theorem endAlike_beginCall (hm : Swapped table p p' m m') (name : FunctionName)
    (args : List Bytes) :
    EndAlike (Swapped table p p') (beginCall name args m) (beginCall name args m') := by
  unfold beginCall
  rw [get_bind_apply, get_bind_apply, hm.program_eq', hm.program_eq, hm.nextFp_eq, hm.depth_eq]
  rcases function_interchangeable h name with ⟨f, f', hf, hf', hff⟩ | ⟨e, he, he'⟩
  · simp only [hf, hf', ofExcept_ok_bind, hff.params_eq, hff.returns_eq,
      enter_interchangeable hff]
    split
    · exact ⟨rfl, hm⟩
    · rcases (swapped_enter h f m.nextFp m.nextFp args false m m' hm).cases with
        ⟨_, s, t, he, he', hst⟩ | ⟨e, s, t, he, he', hst⟩ <;> rw [he, he']
      · exact ⟨rfl, hst⟩
      · -- The entry may have failed after pushing the frame, which is dropped.
        refine ⟨rfl, ?_⟩
        rw [hst.stack_eq]
        exact hst.withStack _
  · rw [he, he']
    exact ⟨rfl, hm⟩

end Programs

theorem Swapped.withDispatching (h : Swapped table p p' m m') (dispatching : Bool) :
    Swapped table p p' { m with dispatching } { m' with dispatching } := by
  obtain ⟨htable, hprogram, rfl⟩ := h
  exact ⟨htable, hprogram, rfl⟩

theorem Swapped.abandon (h : Swapped table p p' m m') (tasks : List Task) :
    Swapped table p p' (m.abandon tasks) (m'.abandon tasks) := by
  induction tasks generalizing m m' with
  | nil => exact h
  | cons task rest ih =>
    cases task with
    | call base fp returns =>
      rw [Machine.abandon, Machine.abandon, h.stack_eq]
      exact ih (h.withStack _)
    | callbacks pending => exact ih (h.withDispatching false)

theorem Swapped.takeCallbacks (h : Swapped table p p' m m') :
    Swapped table p p' m.takeCallbacks.1 m'.takeCallbacks.1 ∧
      m'.takeCallbacks.2 = m.takeCallbacks.2 := by
  obtain ⟨htable, hprogram, rfl⟩ := h
  unfold Machine.takeCallbacks
  change Swapped table p p' _ (if m.dispatching || m.callbacks.isEmpty then _ else _ :
    Machine × List Task).1 ∧ (if m.dispatching || m.callbacks.isEmpty then _ else _ :
    Machine × List Task).2 = _
  split
  · exact ⟨⟨htable, hprogram, rfl⟩, rfl⟩
  · exact ⟨⟨htable, hprogram, rfl⟩, rfl⟩

end Machine

/-- The outcomes are the same results, or errors that differ in their locations only. -/
def Outcome.SameRoot : Outcome → Outcome → Prop
  | .ok results, .ok results' => results' = results
  | .error e, .error e' => e'.root = e.root
  | _, _ => False

/-- What `k` steps lead to. -/
def Progress.after : Nat → Progress → Progress
  | k + 1, .running r => r.step.after k
  | _, x => x

/-- The second run is the first one with another program: it has the same tasks and its machine is
in the same state; if one has ended, so has the other, with the same outcome but for locations. -/
def Progress.Follows (p' : Program) : Progress → Progress → Prop :=
  Progress.Related (fun r r' => r' = ⟨r.machine.withProgram p', r.tasks⟩)
    fun e e' => e'.1 = e.1.withProgram p' ∧ Outcome.SameRoot e.2 e'.2

section Runs

variable {table : PrimitiveTable} {p p' : Program} {m m' : Machine} {x y : Progress}

/-- The runs have the same tasks, or end with the same outcome, on machines that are swapped. -/
def Progress.Swapped (table : PrimitiveTable) (p p' : Program) : Progress → Progress → Prop :=
  Progress.Related (fun r r' => r.machine.Swapped table p p' r'.machine ∧ r'.tasks = r.tasks)
    fun e e' => e.1.Swapped table p p' e'.1 ∧ Outcome.SameRoot e.2 e'.2

theorem Progress.Swapped.follows (h : x.Swapped table p p' y) : x.Follows p' y := by
  rcases h.cases with ⟨⟨m, tasks⟩, ⟨m', tasks'⟩, rfl, rfl, hm, rfl⟩ | ⟨m, m', _, _, rfl, rfl, hm, h⟩
  · have heq : m' = m.withProgram p' := hm.eq
    rw [heq]
    rfl
  · exact ⟨hm.eq, h⟩

namespace Run

theorem swapped_fail (hm : m.Swapped table p p' m') (tasks : List Task) {e e' : Error}
    (he : e'.root = e.root) : (fail m tasks e).Swapped table p p' (fail m' tasks e') :=
  ⟨hm.abandon tasks, he⟩

theorem swapped_resume (hm : m.Swapped table p p' m') (tasks : List Task) (results : List Bytes) :
    (resume m tasks results).Swapped table p p' (resume m' tasks results) := by
  cases tasks with
  | nil => exact ⟨hm, rfl⟩
  | cons task rest => exact ⟨hm, rfl⟩

theorem swapped_step (h : p.Interchangeable table p') (hm : m.Swapped table p p' m')
    (tasks : List Task) : (step ⟨m, tasks⟩).Swapped table p p' (step ⟨m', tasks⟩) := by
  cases tasks with
  | nil => exact ⟨hm, rfl⟩
  | cons task rest =>
    cases task with
    | call base fp returns =>
      simp only [step, hm.depth_eq, hm.readSlots_eq h]
      split
      · rcases (Machine.endRooted_advance h hm).cases with
          ⟨executed, s, t, he, he', hst⟩ | ⟨e, e', s, t, he, he', hroot, hst⟩ <;> rw [he, he']
        · cases executed with
          | true => exact ⟨hst.takeCallbacks.1, congrArg (· ++ _) hst.takeCallbacks.2⟩
          | false => exact ⟨hst, rfl⟩
        · exact swapped_fail hst _ hroot
      · cases m.readSlots fp returns with
        | error e => exact swapped_fail hm _ rfl
        | ok results => exact swapped_resume hm rest results
    | callbacks pending =>
      cases pending with
      | nil => exact swapped_resume (hm.withDispatching false) rest []
      | cons c pending =>
        have hfound := Machine.function?_interchangeable h c.function
        simp only [step, hm.program_eq', hm.program_eq]
        generalize p.function? c.function = found, p'.function? c.function = found' at hfound
        cases hfound with
        | none => exact ⟨hm, rfl⟩
        | some _ =>
          rcases (Machine.endAlike_beginCall h hm c.function c.args).cases with
            ⟨task, s, t, he, he', hst⟩ | ⟨e, s, t, he, he', hst⟩ <;> simp only [he, he']
          · exact ⟨hst, rfl⟩
          · exact swapped_fail hst _ rfl

end Run

theorem Progress.Swapped.after (h : p.Interchangeable table p') (hxy : x.Swapped table p p' y)
    (k : Nat) : (x.after k).Swapped table p p' (y.after k) := by
  induction k generalizing x y with
  | zero =>
    rcases hxy.cases with ⟨r, r', rfl, rfl, -⟩ | ⟨m, m', _, _, rfl, rfl, -⟩
    · exact hxy
    · exact hxy
  | succ k ih =>
    rcases hxy.cases with ⟨⟨m, tasks⟩, ⟨m', tasks'⟩, rfl, rfl, hm, rfl⟩ | ⟨m, m', _, _, rfl, rfl, -⟩
    · exact ih (Run.swapped_step h hm _)
    · exact hxy

/-- A machine that runs with another program in which the nodes are interchangeable goes through the
same states. -/
theorem Program.Interchangeable.follows (h : m.program.Interchangeable m.primitives p')
    (tasks : List Task) (k : Nat) : ((Progress.running ⟨m, tasks⟩).after k).Follows p'
      ((Progress.running ⟨m.withProgram p', tasks⟩).after k) := by
  have hstart : (Progress.running ⟨m, tasks⟩).Swapped m.primitives m.program p'
      (.running ⟨m.withProgram p', tasks⟩) := ⟨m.swapped_withProgram p', rfl⟩
  exact (hstart.after h k).follows

end Runs

/-- On machines with this table one function can stand for the other: whatever the state and
whatever is to be done, the program with `f'` in the place of `f` goes through the same states. -/
def Function.StandsIn (table : PrimitiveTable) (f f' : Function) : Prop :=
  ∀ (m : Machine) (front back : List Function) (tasks : List Task) (k : Nat),
    m.primitives = table → m.program.functions = front ++ f :: back →
      let p' : Program := { m.program with functions := front ++ f' :: back }
      ((Progress.running ⟨m, tasks⟩).after k).Follows p'
        ((Progress.running ⟨m.withProgram p', tasks⟩).after k)

theorem Function.Interchangeable.refl (table : PrimitiveTable) (f : Function) :
    f.Interchangeable table f := ⟨rfl, rfl, rfl, rfl, List.forall₂_same.mpr fun _ _ => .same rfl⟩

theorem Function.Interchangeable.standsIn {table : PrimitiveTable} {f f' : Function}
    (h : f.Interchangeable table f') : f.StandsIn table f' := by
  rintro m front back tasks k rfl hfunctions
  have hrefl : ∀ fs : List Function, List.Forall₂ (Function.Interchangeable m.primitives) fs fs :=
    fun fs => List.forall₂_same.mpr fun f _ => .refl _ f
  have hprogram : m.program.Interchangeable m.primitives
      { m.program with functions := front ++ f' :: back } := by
    refine ⟨rfl, ?_⟩
    rw [hfunctions]
    exact List.rel_append (hrefl front) (.cons h (hrefl back))
  exact hprogram.follows tasks k

end FlatMachine
