import FlatMachine.Machine.Run
import FlatMachine.Proofs.Allocation
import FlatMachine.Proofs.Inputs
import FlatMachine.Proofs.Postcondition

/-!
# Two executions side by side

An action respects a relation between states if it ends in the same way from related states, with
the same value or error, in related states. For a relation between arenas it is enough that writing
and allocating respect it: then every action on the memory does, as long as the operands it uses
lead to the same places. For runs it is enough that a step keeps them related.
-/

namespace FlatMachine

namespace Action

variable {σ τ α β : Type} {R : σ → σ → Prop} {S : τ → τ → Prop} {act : Action σ α}

/-- Both results are the same value or the same error, in related states. -/
def EndAlike (R : σ → σ → Prop) : EStateM.Result Error σ α → EStateM.Result Error σ α → Prop
  | .ok x s, .ok y t => x = y ∧ R s t
  | .error e s, .error f t => e = f ∧ R s t
  | _, _ => False

/-- From related states the action ends alike. -/
def Respects (R : σ → σ → Prop) (act : Action σ α) : Prop :=
  ∀ s t, R s t → EndAlike R (act s) (act t)

theorem EndAlike.cases {r r' : EStateM.Result Error σ α} (h : EndAlike R r r') :
    (∃ x s t, r = .ok x s ∧ r' = .ok x t ∧ R s t) ∨
      ∃ e s t, r = .error e s ∧ r' = .error e t ∧ R s t := by
  cases r with
  | ok x s =>
    cases r' with
    | ok y t =>
      obtain ⟨rfl, h⟩ := h
      exact .inl ⟨x, s, t, rfl, rfl, h⟩
    | error f t => exact h.elim
  | error e s =>
    cases r' with
    | ok y t => exact h.elim
    | error f t =>
      obtain ⟨rfl, h⟩ := h
      exact .inr ⟨e, s, t, rfl, rfl, h⟩

theorem EndAlike.bind {act act' : Action σ α} {f f' : α → Action σ β} {s t : σ}
    (h : EndAlike R (act s) (act' t))
    (hf : ∀ x s' t', R s' t' → EndAlike R (f x s') (f' x t')) :
    EndAlike R ((act >>= f) s) ((act' >>= f') t) := by
  simp only [Bind.bind, EStateM.bind]
  rcases h.cases with ⟨x, s', t', hs, ht, h⟩ | ⟨e, s', t', hs, ht, h⟩ <;> rw [hs, ht]
  · exact hf x s' t' h
  · exact ⟨rfl, h⟩

theorem EndAlike.bind_respects {act act' : Action σ α} {f : α → Action σ β} {s t : σ}
    (h : EndAlike R (act s) (act' t)) (hf : ∀ x, Respects R (f x)) :
    EndAlike R ((act >>= f) s) ((act' >>= f) t) := h.bind fun x => hf x

theorem Respects.bind {f : α → Action σ β} (h : Respects R act) (hf : ∀ x, Respects R (f x)) :
    Respects R (act >>= f) := fun s t hst => (h s t hst).bind_respects hf

/-- Both results are the same value, in states related by `R`, or the same error, in states related
by `E`. -/
def EndBoth (R E : σ → σ → Prop) : EStateM.Result Error σ α → EStateM.Result Error σ α → Prop
  | .ok x s, .ok y t => x = y ∧ R s t
  | .error e s, .error f t => e = f ∧ E s t
  | _, _ => False

section EndBoth

variable {E S' : σ → σ → Prop} {r r' : EStateM.Result Error σ α}

theorem EndBoth.cases (h : EndBoth R E r r') :
    (∃ x s t, r = .ok x s ∧ r' = .ok x t ∧ R s t) ∨
      ∃ e s t, r = .error e s ∧ r' = .error e t ∧ E s t := by
  cases r with
  | ok x s =>
    cases r' with
    | ok y t =>
      obtain ⟨rfl, h⟩ := h
      exact .inl ⟨x, s, t, rfl, rfl, h⟩
    | error f t => exact h.elim
  | error e s =>
    cases r' with
    | ok y t => exact h.elim
    | error f t =>
      obtain ⟨rfl, h⟩ := h
      exact .inr ⟨e, s, t, rfl, rfl, h⟩

theorem EndAlike.both (h : EndAlike R r r') (hE : ∀ s t, R s t → E s t) : EndBoth R E r r' := by
  rcases h.cases with ⟨x, s, t, rfl, rfl, hst⟩ | ⟨e, s, t, rfl, rfl, hst⟩
  · exact ⟨rfl, hst⟩
  · exact ⟨rfl, hE s t hst⟩

theorem EndBoth.bind {act act' : Action σ α} {f f' : α → Action σ β} {s t : σ}
    (h : EndBoth R E (act s) (act' t))
    (hf : ∀ x s' t', R s' t' → EndBoth S' E (f x s') (f' x t')) :
    EndBoth S' E ((act >>= f) s) ((act' >>= f') t) := by
  simp only [Bind.bind, EStateM.bind]
  rcases h.cases with ⟨x, s', t', hs, ht, h⟩ | ⟨e, s', t', hs, ht, h⟩ <;> rw [hs, ht]
  · exact hf x s' t' h
  · exact ⟨rfl, h⟩

theorem EndBoth.mapError {act act' : Action σ α} {s t : σ} (h : EndBoth R E (act s) (act' t))
    (f : Error → Error) : EndBoth R E (act.mapError f s) (act'.mapError f t) := by
  simp only [Action.mapError]
  rcases h.cases with ⟨x, s', t', hs, ht, h⟩ | ⟨e, s', t', hs, ht, h⟩ <;> rw [hs, ht]
  · exact ⟨rfl, h⟩
  · exact ⟨rfl, h⟩

end EndBoth

/-- What would follow does not matter if the action fails in any case. -/
theorem Respects.bind_of_fails {f : α → Action σ β} (h : Respects R act)
    (hfails : ∀ s x s', act s ≠ .ok x s') : Respects R (act >>= f) := by
  intro s t hst
  simp only [Bind.bind, EStateM.bind]
  rcases (h s t hst).cases with ⟨x, s', t', hs, -, -⟩ | ⟨e, s', t', hs, ht, h⟩
  · exact absurd hs (hfails s x s')
  · rw [hs, ht]
    exact ⟨rfl, h⟩

theorem respects_pure (x : α) : Respects R (pure x) := fun _ _ h => ⟨rfl, h⟩

theorem respects_throw (e : Error) : Respects R (throw e : Action σ α) := fun _ _ h => ⟨rfl, h⟩

theorem respects_ofExcept (r : Except Error α) : Respects R (Action.ofExcept r) := by
  intro s t h
  cases r <;> exact ⟨rfl, h⟩

theorem respects_query {f : σ → Except Error α} (hf : ∀ s t, R s t → f t = f s) :
    Respects R (query f) := by
  intro s t h
  simp only [query, hf s t h]
  cases f s <;> exact ⟨rfl, h⟩

/-- An update that looks at the state first. -/
theorem respects_update_bind {r : σ → Except Error α} {f : α → σ → Except Error σ}
    (hr : Respects R (query r)) (hf : ∀ x, Respects R (update (f x))) :
    Respects R (update fun s => r s >>= fun x => f x s) := by
  have heq : (update fun s => r s >>= fun x => f x s) = query r >>= fun x => update (f x) := by
    funext s
    simp only [update, query, Bind.bind, EStateM.bind, Except.bind]
    cases r s <;> rfl
  rw [heq]
  exact hr.bind hf

theorem get_bind_apply (f : σ → Action σ β) (s : σ) : (get >>= f : Action σ β) s = f s s := rfl

theorem ofExcept_ok_bind (x : α) (f : α → Action σ β) :
    (Action.ofExcept (.ok x) >>= f : Action σ β) = f x := rfl

/-- What the action does with the state that it gets does not depend on it. -/
theorem respects_get_bind {f : σ → Action σ β} (heq : ∀ s t, R s t → f t = f s)
    (hf : ∀ s t, R s t → Respects R (f s)) : Respects R (get >>= f) := by
  intro s t hst
  change EndAlike R (f s s) (f t t)
  rw [heq s t hst]
  exact hf s t hst s t hst

theorem Respects.mapError (h : Respects R act) (f : Error → Error) :
    Respects R (act.mapError f) := by
  intro s t hst
  simp only [Action.mapError]
  rcases (h s t hst).cases with ⟨x, s', t', hs, ht, h⟩ | ⟨e, s', t', hs, ht, h⟩ <;> rw [hs, ht]
  · exact ⟨rfl, h⟩
  · exact ⟨rfl, h⟩

theorem Respects.within [Inhabited σ] {get : τ → σ} {set : σ → τ → τ} (h : Respects R act)
    (hget : ∀ {t t'}, S t t' → R (get t) (get t'))
    (hset : ∀ {s s' t t'}, R s s' → S t t' → S (set s (set default t)) (set s' (set default t'))) :
    Respects S (act.within get set) := by
  intro t t' htt
  simp only [Action.within]
  rcases (h _ _ (hget htt)).cases with ⟨x, s, s', hs, ht, h⟩ | ⟨e, s, s', hs, ht, h⟩ <;> rw [hs, ht]
  · exact ⟨rfl, hset h htt⟩
  · exact ⟨rfl, hset h htt⟩

end Action

open FlatMachine.Action

variable {R : Arena → Arena → Prop} {α : Type}

/-- The operand leads to the same place in related arenas. -/
def Operand.Steady (R : Arena → Arena → Prop) (structs : StructTable) (fp : Nat) (o : Operand) :
    Prop :=
  ∀ a b, R a b → o.place structs b fp = o.place structs a fp

namespace Arena

/-- What is written in one of two related arenas can be written in the other, and what is allocated
lies at the same place; the arenas are related then. -/
structure Congruent (R : Arena → Arena → Prop) : Prop where
  write : ∀ offset bytes, Respects R (update (·.write offset bytes))
  allocate : ∀ size, Respects R (advance (·.allocate size))

namespace Congruent

theorem writeHandle (h : Congruent R) (offset value : Nat) :
    Respects R (update (·.writeHandle offset value)) :=
  respects_update_bind (respects_query fun _ _ _ => rfl) fun bytes => h.write offset bytes

theorem zero (h : Congruent R) (offset width : Nat) : Respects R (update (·.zero offset width)) := by
  simp only [zero_eq]
  exact h.write offset _

theorem store (h : Congruent R) (bytes : Bytes) : Respects R (store bytes) :=
  (h.allocate bytes.length).bind fun handle =>
    (h.write handle bytes).bind fun _ => respects_pure handle

theorem newObject (h : Congruent R) (count width : Nat) : Respects R (newObject count width) :=
  (h.allocate _).bind fun handle =>
    (h.writeHandle handle count).bind fun _ => respects_pure handle

theorem writeAll (h : Congruent R) (writes : List (Nat × Bytes)) : Respects R (writeAll writes) := by
  induction writes with
  | nil => exact respects_pure ()
  | cons w rest ih => exact (h.write w.1 w.2).bind fun _ => ih

theorem settle (h : Congruent R) (p : Pending) : Respects R p.settle := by
  cases p with
  | bytes offset content => exact respects_pure _
  | object offset content =>
    exact (h.store content).bind fun _ => (respects_ofExcept _).bind fun _ => respects_pure _

theorem settleAll (h : Congruent R) (ps : List Pending) : Respects R (Pending.settleAll ps) := by
  induction ps with
  | nil => exact respects_pure _
  | cons p rest ih => exact (h.settle p).bind fun _ => ih.bind fun _ => respects_pure _

section Operands

variable {structs : StructTable} {fp : Nat}

theorem declare (h : Congruent R) {o : Operand} (ho : o.Steady R structs fp) :
    Respects R (Machine.declare structs fp o) := by
  apply (respects_query ho).bind
  intro place
  apply (h.zero _ _).bind
  intro _
  split
  · apply (respects_ofExcept _).bind
    intro size
    apply (h.allocate size).bind
    intro object
    exact h.writeHandle _ object
  · exact respects_pure ()

theorem declareAll (h : Congruent R) {os : List Operand} (hos : ∀ o ∈ os, o.Steady R structs fp) :
    Respects R (Machine.declareAll structs fp os) := by
  induction os with
  | nil => exact respects_pure ()
  | cons o rest ih =>
    obtain ⟨ho, hrest⟩ := List.forall_mem_cons.mp hos
    exact (h.declare ho).bind fun _ => ih hrest

theorem move (h : Congruent R) {input output : Operand}
    (hinput : ∀ a b, R a b → input.bytes structs b fp = input.bytes structs a fp)
    (houtput : output.Steady R structs fp) :
    Respects R (update (Machine.move structs fp input output)) := by
  apply respects_update_bind (respects_query hinput)
  intro bytes
  apply respects_update_bind (respects_query houtput)
  intro target
  by_cases hwidth : bytes.length = target.size
  · simp only [if_pos hwidth]
    exact h.write _ bytes
  · simp only [if_neg hwidth]
    exact fun _ _ h => ⟨rfl, h⟩

theorem executeBare (h : Congruent R) {n : Node}
    (hinputs : ∀ o ∈ n.inputs, ∀ a b, R a b → o.bytes structs b fp = o.bytes structs a fp)
    (houtputs : ∀ o ∈ n.outputs, o.Steady R structs fp) :
    Respects R (Machine.executeBare structs fp n) := by
  unfold Machine.executeBare
  split
  · exact h.declareAll houtputs
  · rename_i input output hin hout
    rw [hin] at hinputs
    rw [hout] at houtputs
    exact h.move (hinputs input List.mem_cons_self) (houtputs output List.mem_cons_self)
  · exact respects_ofExcept _

theorem storeArgs (h : Congruent R) {params : List Operand}
    (hparams : ∀ o ∈ params, o.Steady R structs fp) (args : List Bytes) :
    Respects R (Machine.storeArgs structs fp params args) := by
  induction params generalizing args with
  | nil => exact respects_pure ()
  | cons param params ih =>
    obtain ⟨hparam, hparams⟩ := List.forall_mem_cons.mp hparams
    cases args with
    | nil => exact respects_pure ()
    | cons bytes args =>
      apply (respects_query hparam).bind
      intro place
      dsimp only
      split
      · exact fun _ _ h => ⟨rfl, h⟩
      · exact (h.write _ _).bind fun _ => ih hparams args

end Operands

variable {s : Site}

theorem prepareAll_eq {a b : Arena} (hR : R a b) {os : List Operand}
    (hos : ∀ o ∈ os, o.Steady R s.structs s.fp) (slots : Slots) :
    s.prepareAll b os slots = s.prepareAll a os slots := by
  induction os generalizing slots with
  | nil => cases slots <;> rfl
  | cons o os ih =>
    obtain ⟨ho, hos⟩ := List.forall_mem_cons.mp hos
    cases slots with
    | nil => rfl
    | cons slot slots =>
      cases slot <;> simp only [Site.prepareAll, Site.prepare, ho a b hR, ih hos]

theorem commit (h : Congruent R) (houtputs : ∀ o ∈ s.node.outputs, o.Steady R s.structs s.fp)
    (slots : Slots) : Respects R (s.commit slots) := by
  apply (respects_query fun a b hR => prepareAll_eq hR houtputs slots).bind
  intro pending
  apply (h.settleAll pending).bind
  intro writes
  exact h.writeAll writes

end Congruent

end Arena

namespace Workspace

/-- The arenas are related, and the rest is the same. -/
def Relates (R : Arena → Arena → Prop) (w w' : Workspace) : Prop :=
  ∃ a, R w.arena a ∧ w' = { w with arena := a }

theorem respects_onArena {act : Action Arena α} (h : Respects R act) :
    Respects (Relates R) (onArena act) := by
  apply h.within
  · rintro w _ ⟨a, ha, rfl⟩
    exact ha
  · rintro a b w _ hab ⟨_, -, rfl⟩
    exact ⟨b, hab, rfl⟩

theorem respects_look {f : Arena → Except Error α} (hf : ∀ a b, R a b → f b = f a) :
    Respects (Relates R) (look f) := by
  apply respects_query
  rintro w _ ⟨a, ha, rfl⟩
  exact hf _ _ ha

/-- What is drawn depends on the bounds and the generator. -/
theorem respects_draw {s : Site} (hs : ∀ a b, R a b → s.SameInputs a b) (k : IntKind) :
    Respects (Relates R) (draw k s) := by
  apply (respects_look fun a b h => (hs a b h).int_eq k 0).bind
  intro min
  apply (respects_look fun a b h => (hs a b h).int_eq k 1).bind
  intro max
  dsimp only
  split
  · exact respects_throw _
  · split
    · exact respects_ofExcept _
    · rintro w _ ⟨a, ha, rfl⟩
      let random := (w.random.below (k.toInt max - k.toInt min).toNat).2
      have hdrawn : Relates R { w with random } { w with arena := a, random } := ⟨a, ha, rfl⟩
      exact respects_ofExcept _ _ _ hdrawn

end Workspace

theorem Primitive.respects_execute {p : Primitive} {s : Site} (hR : Arena.Congruent R)
    (hbody : Respects (Workspace.Relates R) (p.body.run s))
    (houtputs : ∀ o ∈ s.node.outputs, o.Steady R s.structs s.fp) :
    Respects (Workspace.Relates R) (p.execute s) :=
  hbody.bind fun slots => Workspace.respects_onArena (hR.commit houtputs slots)

/-- Both go on, as runs related by `P`, or both have finished, with ends related by `E`. -/
def Progress.Related (P : Run → Run → Prop) (E : Machine × Outcome → Machine × Outcome → Prop) :
    Progress → Progress → Prop
  | .running r, .running r' => P r r'
  | .finished m outcome, .finished m' outcome' => E (m, outcome) (m', outcome')
  | _, _ => False

section Runs

variable {P : Run → Run → Prop} {E : Machine × Outcome → Machine × Outcome → Prop} {x y : Progress}

theorem Progress.Related.cases (h : Related P E x y) :
    (∃ r r', x = .running r ∧ y = .running r' ∧ P r r') ∨
      ∃ m m' outcome outcome', x = .finished m outcome ∧ y = .finished m' outcome' ∧
        E (m, outcome) (m', outcome') := by
  cases x with
  | running r =>
    cases y with
    | running r' => exact .inl ⟨r, r', rfl, rfl, h⟩
    | finished m' outcome' => exact h.elim
  | finished m outcome =>
    cases y with
    | running r' => exact h.elim
    | finished m' outcome' => exact .inr ⟨m, m', outcome, outcome', rfl, rfl, h⟩

theorem Run.finish?_succ (fuel : Nat) (r : Run) : r.finish? (fuel + 1) = r.step.finish? fuel := by
  rw [finish?]
  cases r.step <;> rfl

theorem Progress.Related.finish? (hstep : ∀ r r', P r r' → Related P E r.step r'.step)
    (h : Related P E x y) (fuel : Nat) : Option.Rel E (x.finish? fuel) (y.finish? fuel) := by
  induction fuel generalizing x y with
  | zero =>
    rcases h.cases with ⟨r, r', rfl, rfl, -⟩ | ⟨m, m', outcome, outcome', rfl, rfl, h⟩
    · exact .none
    · exact .some h
  | succ fuel ih =>
    rcases h.cases with ⟨r, r', rfl, rfl, h⟩ | ⟨m, m', outcome, outcome', rfl, rfl, h⟩
    · simp only [Progress.finish?, Run.finish?_succ]
      exact ih (hstep r r' h)
    · exact .some h

end Runs

end FlatMachine
