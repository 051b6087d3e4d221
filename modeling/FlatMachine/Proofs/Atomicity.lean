import FlatMachine.Proofs.StackStep

/-!
# What a failure leaves behind

An operator that fails has written none of its outputs, and neither has a commit whose outputs do
not resolve, do not encode or have the wrong width. The writes themselves come last and are not
checked ahead. So they are torn when some place lies outside the allocated bytes and is not the
first: the outputs in front of it stay written. The results of a call are stored in the same way.
-/

namespace FlatMachine

open FlatMachine.Action

namespace Arena

variable {a b : Arena} {writes : List (Nat × Bytes)}

/-- The place of a write is allocated. -/
def Holds (a : Arena) (w : Nat × Bytes) : Prop := w.1 + w.2.length ≤ a.heapPointer

instance (a : Arena) (w : Nat × Bytes) : Decidable (a.Holds w) :=
  inferInstanceAs (Decidable (_ ≤ _))

/-- The arena after writes. -/
def written (a : Arena) : List (Nat × Bytes) → Arena
  | [] => a
  | w :: rest => { a with image := overlay a.image w.1 w.2 }.written rest

/-- The writes that are made before one fails. -/
def made (a : Arena) (writes : List (Nat × Bytes)) : List (Nat × Bytes) :=
  writes.takeWhile (a.Holds ·)

/-- Some write fails, but not the first. -/
def Torn (a : Arena) (writes : List (Nat × Bytes)) : Prop :=
  ∃ first rest, writes = first :: rest ∧ a.Holds first ∧ ∃ w ∈ rest, ¬ a.Holds w

theorem holds_overlay (offset : Nat) (bytes : Bytes) (w : Nat × Bytes) :
    Holds { a with image := overlay a.image offset bytes } w ↔ a.Holds w := by
  simp only [Holds, heapPointer, size_overlay]

theorem ends_writeAll : Ends (writeAll writes) a
    (fun _ b => (∀ w ∈ writes, a.Holds w) ∧ b = a.written writes)
    (fun e b => (∃ w ∈ writes, ¬ a.Holds w ∧ e = .outOfBounds w.1 w.2.length a.heapPointer) ∧
      b = a.written (a.made writes)) := by
  induction writes generalizing a with
  | nil => exact ⟨nofun, rfl⟩
  | cons w rest ih =>
    simp only [writeAll, ends_bind, ends_update]
    apply gives_write.mono
    · rintro _ ⟨hw, rfl⟩
      have hw : a.Holds w := hw
      have hmade : a.made (w :: rest) = w :: a.made rest :=
        List.takeWhile_cons_of_pos (by simpa using hw)
      have hsame : made { a with image := overlay a.image w.1 w.2 } rest = a.made rest := by
        simp only [made, holds_overlay]
      apply ih.mono
      · rintro _ _ ⟨hall, rfl⟩
        simp only [holds_overlay] at hall
        exact ⟨List.forall_mem_cons.mpr ⟨hw, hall⟩, rfl⟩
      · rintro e _ ⟨⟨w', hmem, hw', he⟩, rfl⟩
        rw [holds_overlay] at hw'
        simp only [heapPointer, size_overlay] at he
        refine ⟨⟨w', List.mem_cons_of_mem _ hmem, hw', he⟩, ?_⟩
        rw [hsame, hmade, written]
    · rintro e ⟨hlt, rfl⟩
      have hw : ¬ a.Holds w := not_le.mpr hlt
      refine ⟨⟨w, List.mem_cons_self, hw, rfl⟩, ?_⟩
      rw [made, List.takeWhile_cons_of_neg (by simpa using hw), written]

theorem made_eq_nil (h : ¬ a.Torn writes) (hfails : ∃ w ∈ writes, ¬ a.Holds w) :
    a.made writes = [] := by
  cases writes with
  | nil => rfl
  | cons first rest =>
    obtain ⟨w, hmem, hw⟩ := hfails
    have hfirst : ¬ a.Holds first := by
      rcases List.mem_cons.mp hmem with rfl | hmem
      · exact hw
      · exact fun hfirst => h ⟨first, rest, rfl, hfirst, w, hmem, hw⟩
    exact List.takeWhile_cons_of_neg (by simpa using hfirst)

/-- What failing writes leave behind: nothing, unless they are torn. -/
theorem writeAll_failure {e : Error} (h : writeAll writes a = .error e b) :
    a.Torn writes ∧ b = a.written (a.made writes) ∨ ¬ a.Torn writes ∧ b = a := by
  obtain ⟨⟨w, hmem, hw, -⟩, rfl⟩ := ends_writeAll.failure h
  by_cases htorn : a.Torn writes
  · exact .inl ⟨htorn, rfl⟩
  · refine .inr ⟨htorn, ?_⟩
    rw [made_eq_nil htorn ⟨w, hmem, hw⟩, written]

theorem preserves_settle (p : Pending) : Preserves p.settle := by
  intro a
  cases p with
  | bytes offset content => exact .refl a
  | object offset content =>
    simp only [Pending.settle, ends_bind, ends_ofExcept, ends_pure]
    apply ends_store.mono ?_ fun _ _ h => h
    intro _ b hb
    exact gives_of_ok (fun _ _ => hb.2) fun _ => hb.2

theorem preserves_settleAll (ps : List Pending) : Preserves (Pending.settleAll ps) := by
  induction ps with
  | nil => exact .refl
  | cons p rest ih =>
    apply (preserves_settle p).bind (·.trans ·)
    intro w
    apply ih.bind (·.trans ·)
    intro ws
    exact .refl

/-- How an action that ends in writes may fail: with every allocated byte as it was, or with its
writes torn. It is `ready` when nothing but the writes is left to do. -/
def WholeOrTorn (ready : Arena → List (Nat × Bytes) → Prop) (a b : Arena) : Prop :=
  (∀ c writes, ready c writes → ¬ c.Torn writes) ∧ a.Extends b ∨
    ∃ c writes, ready c writes ∧ c.Torn writes ∧ a.Extends c ∧ b = c.written (c.made writes)

section WholeOrTorn

variable {ready ready' : Arena → List (Nat × Bytes) → Prop}

theorem WholeOrTorn.of_never (hnever : ∀ c writes, ¬ ready c writes) (h : a.Extends b) :
    WholeOrTorn ready a b :=
  .inl ⟨fun c writes hready => absurd hready (hnever c writes), h⟩

theorem WholeOrTorn.of_extends {c : Arena} (hext : a.Extends b)
    (hready : ∀ c writes, ready' c writes ↔ ready c writes) (h : WholeOrTorn ready b c) :
    WholeOrTorn ready' a c := by
  rcases h with ⟨hwhole, h⟩ | ⟨d, writes, hd, htorn, h, rfl⟩
  · exact .inl ⟨fun d writes hd => hwhole d writes ((hready d writes).mp hd), hext.trans h⟩
  · exact .inr ⟨d, writes, (hready d writes).mpr hd, htorn, hext.trans h, rfl⟩

end WholeOrTorn

end Arena

namespace Site

/-- What is staged was checked, and the objects among it are stored: these writes are left. -/
def AboutToWrite (s : Site) (slots : Slots) (a c : Arena) (writes : List (Nat × Bytes)) : Prop :=
  ∃ pending, s.prepareAll a s.node.outputs slots = .ok pending ∧
    Pending.settleAll pending a = .ok writes c

theorem prepareAll_of_none (s : Site) (a : Arena) (os : List Operand) {slots : Slots}
    (h : ∀ slot ∈ slots, slot = none) : s.prepareAll a os slots = .ok [] := by
  induction os generalizing slots with
  | nil => rfl
  | cons o os ih =>
    cases slots with
    | nil => rfl
    | cons slot slots =>
      obtain ⟨rfl, hslots⟩ := List.forall_mem_cons.mp h
      exact ih hslots

theorem ends_commit_of_none {s : Site} {slots : Slots} {a : Arena}
    (h : ∀ slot ∈ slots, slot = none) :
    Ends (s.commit slots) a (fun _ b => b = a) (fun _ _ => False) := by
  simp only [commit, ends_bind, ends_query, s.prepareAll_of_none a s.node.outputs h]
  rfl

theorem ends_commit {s : Site} {slots : Slots} {a : Arena} :
    Ends (s.commit slots) a (fun _ _ => True)
      (fun _ b => Arena.WholeOrTorn (s.AboutToWrite slots a) a b) := by
  simp only [commit, ends_bind, ends_query]
  apply gives_iff.mpr
  constructor
  · intro pending hpending
    have hsettle := Arena.preserves_settleAll pending a
    apply ends_iff.mpr
    constructor
    · intro writes c hc
      have hext := hsettle.value hc
      refine ends_iff.mpr ⟨fun _ _ _ => trivial, fun e b hb => ?_⟩
      rcases Arena.writeAll_failure hb with ⟨htorn, rfl⟩ | ⟨hwhole, rfl⟩
      · exact .inr ⟨c, writes, ⟨pending, hpending, hc⟩, htorn, hext, rfl⟩
      · refine .inl ⟨?_, hext⟩
        rintro c' writes' ⟨pending', hpending', hc'⟩
        cases hpending.symm.trans hpending'
        cases hc.symm.trans hc'
        exact hwhole
    · intro e b hb
      refine .of_never ?_ (hsettle.failure hb)
      rintro c writes ⟨pending', hpending', hc⟩
      cases hpending.symm.trans hpending'
      cases hb.symm.trans hc
  · intro e he
    refine .of_never ?_ (.refl a)
    rintro c writes ⟨pending, hpending, -⟩
    cases he.symm.trans hpending

end Site

namespace Machine

variable {m m' : Machine} {fp : Nat} {n : Node} {e : Error}

/-- The operators of a machine write memory only through what they stage, except that those that
come with it may do what `Contained` allows. -/
def StagesOnly (m : Machine) : Prop :=
  ∀ p ∈ m.primitives.entries, p.Shipped ∨ p.StagesOnly

/-- The operator of a native node has succeeded, and its outputs are ready to be written. -/
def AboutToWrite (m : Machine) (fp : Nat) (n : Node) (a : Arena) (writes : List (Nat × Bytes)) :
    Prop :=
  ∃ code name signature p slots w, n.operator = some (.native code name signature) ∧
    m.primitives.get code = .ok p ∧ p.body.run ⟨m.program.structs, fp, n⟩ m.work = .ok slots w ∧
      Site.AboutToWrite ⟨m.program.structs, fp, n⟩ slots w.arena a writes

theorem ends_native {code : Nat} {name : String} {signature : Signature} (hops : m.StagesOnly)
    (hn : n.operator = some (.native code name signature)) :
    Ends (executeNode fp n) m (fun _ _ => True)
      (fun _ m' => Arena.WholeOrTorn (m.AboutToWrite fp n) m.arena m'.arena) := by
  simp only [executeNode, ends_bind, ends_get, hn, ends_ofExcept, ends_onWork]
  apply gives_iff.mpr
  constructor
  · intro p hp
    have hready : ∀ {slots w}, p.body.run ⟨m.program.structs, fp, n⟩ m.work = .ok slots w →
        ∀ c writes, m.AboutToWrite fp n c writes ↔
          Site.AboutToWrite ⟨m.program.structs, fp, n⟩ slots w.arena c writes := by
      intro slots w hrun c writes
      constructor
      · rintro ⟨code', name', signature', p', slots', w', hn', hp', hrun', hready⟩
        cases hn.symm.trans hn'
        cases hp.symm.trans hp'
        cases hrun.symm.trans hrun'
        exact hready
      · exact fun h => ⟨code, name, signature, p, slots, w, hn, hp, hrun, h⟩
    have hcontained : p.Contained := (hops p (PrimitiveTable.mem_of_get hp)).elim (·.contained)
      (·.contained)
    simp only [Primitive.execute, ends_bind, Workspace.ends_onArena]
    have hbody := hcontained ⟨m.program.structs, fp, n⟩ m.work
    apply ends_iff.mpr
    constructor
    · intro slots w hrun
      rcases hbody.value hrun with hext | ⟨-, hnone⟩
      · apply Site.ends_commit.mono fun _ _ _ => trivial
        intro e a h
        exact h.of_extends hext (hready hrun)
      · exact (Site.ends_commit_of_none hnone).mono (fun _ _ _ => trivial) fun _ _ h => h.elim
    · intro e w hrun
      refine .of_never ?_ (hbody.failure hrun)
      rintro c writes ⟨code', name', signature', p', slots', w', hn', hp', hrun', -⟩
      cases hn.symm.trans hn'
      cases hp.symm.trans hp'
      cases hrun.symm.trans hrun'
  · intro e he
    refine .of_never ?_ (.refl m.arena)
    rintro c writes ⟨code', name', signature', p', slots', w', hn', hp', -⟩
    cases hn.symm.trans hn'
    cases he.symm.trans hp'

/-- The writes by which a call node receives the results of its callee. -/
def resultsToWrite (m : Machine) (calleeFp : Nat) (callee : Function) (callerFp : Nat) (n : Node) :
    Except Error (List (Nat × Bytes)) := do
  m.resultWrites callee callerFp n.outputs (← m.readSlots calleeFp callee.returns)

theorem ends_storeResults {calleeFp callerFp : Nat} {callee : Function} :
    Ends (storeResults calleeFp callee callerFp n) m (fun _ _ => True) (fun _ m' =>
      (∀ writes, m.resultsToWrite calleeFp callee callerFp n = .ok writes → ¬ m.arena.Torn writes) ∧
          m' = m ∨
        ∃ writes, m.resultsToWrite calleeFp callee callerFp n = .ok writes ∧ m.arena.Torn writes ∧
          m'.arena = m.arena.written (m.arena.made writes)) := by
  change Ends (query (fun m => m.resultsToWrite calleeFp callee callerFp n) >>= fun writes =>
    onArena (writeAll writes)) m _ _
  simp only [ends_bind, ends_query, ends_onArena]
  apply gives_iff.mpr
  constructor
  · intro writes hwrites
    refine ends_iff.mpr ⟨fun _ _ _ => trivial, fun e a ha => ?_⟩
    rcases Arena.writeAll_failure ha with ⟨htorn, rfl⟩ | ⟨hwhole, rfl⟩
    · exact .inr ⟨writes, hwrites, htorn, rfl⟩
    · refine .inl ⟨fun writes' hwrites' => ?_, rfl⟩
      cases hwrites.symm.trans hwrites'
      exact hwhole
  · intro e he
    refine .inl ⟨fun writes hwrites => ?_, trivial⟩
    cases he.symm.trans hwrites

end Machine

/-- A native node or a return that fails has changed no allocated byte, unless its writes are torn:
then exactly those in front of the first that fails have been made. -/
theorem whole_or_torn {m : Machine} {fp : Nat} (hops : m.StagesOnly) :
    (∀ n code name signature e m', n.operator = some (.native code name signature) →
      Machine.executeNode fp n m = .error e m' →
        Arena.WholeOrTorn (m.AboutToWrite fp n) m.arena m'.arena) ∧
    ∀ calleeFp callee n e m', Machine.storeResults calleeFp callee fp n m = .error e m' →
      (∀ writes, m.resultsToWrite calleeFp callee fp n = .ok writes → ¬ m.arena.Torn writes) ∧
          m' = m ∨
        ∃ writes, m.resultsToWrite calleeFp callee fp n = .ok writes ∧ m.arena.Torn writes ∧
          m'.arena = m.arena.written (m.arena.made writes) :=
  ⟨fun _ _ _ _ _ _ hn h => (Machine.ends_native hops hn).failure h,
    fun _ _ _ _ _ h => Machine.ends_storeResults.failure h⟩

/-- A machine with a window of 7 by 9 and the globals `name` at 8, `width` at 12 and `height` at 16,
of which the last points outside the memory. -/
def danglingMachine : Machine where
  program := {}
  primitives := { entries := Window.primitives }
  options := {}
  work := {
    arena := {
      image := Array.replicate 16 0 ++ #[232, 3, 0, 0] ++ Array.replicate 4 1
      stackStart := 20, stackEnd := 24, capacity := 24, limit := 24 }
    random := .ofSeed 0
    host := {
      windows := {
        host := { panes := [{ title := "", width := 7, height := 9 }] }
        entries := [{ name := "", window := 1 }]
        handles := [("", 1)] } } }
  stack := { maxDepth := 1 }

/-- The width goes to a global, the height to where a pointer leads. -/
def sizeTargets : List Operand :=
  [{ name := "width", ty := .i32, storage := .global 12 },
   { name := "height", ty := .pointer .i32, storage := .global 16, chain := [.pointer] }]

/-- Stores the size of the window. -/
def sizeNode : Node where
  operator := some (.native 4 "window.size" Window.Op.size.signature)
  inputs := [{ name := "name", ty := .str, storage := .global 8 }]
  outputs := sizeTargets

/-- A function that results in two integers. -/
def pairFunction : Function where
  package := "main"
  name := "pair"
  returns := [{ name := "x", ty := .i32, storage := .frame 0 },
    { name := "y", ty := .i32, storage := .frame 0 }]
  frameSize := 4

theorem stagesOnly_danglingMachine : danglingMachine.StagesOnly := fun _ hp =>
  .inl (List.mem_append_right _ hp)

theorem whole_or_torn_danglingMachine :
    (∃ e m', Machine.executeNode 20 sizeNode danglingMachine = .error e m' ∧
      Arena.WholeOrTorn (danglingMachine.AboutToWrite 20 sizeNode) danglingMachine.arena m'.arena) ∧
    ∃ e m' writes, Machine.storeResults 20 pairFunction 20 { outputs := sizeTargets }
        danglingMachine = .error e m' ∧
      m'.arena = danglingMachine.arena.written (danglingMachine.arena.made writes) := by
  have hboth := @whole_or_torn danglingMachine 20 stagesOnly_danglingMachine
  refine ⟨⟨_, _, rfl, hboth.1 sizeNode _ _ _ _ _ rfl rfl⟩, ?_⟩
  obtain ⟨e, m', hfails⟩ : ∃ e m', Machine.storeResults 20 pairFunction 20
      { outputs := sizeTargets } danglingMachine = .error e m' := ⟨_, _, rfl⟩
  rcases hboth.2 20 pairFunction _ e m' hfails with ⟨-, rfl⟩ | ⟨writes, -, -, harena⟩
  · exact ⟨e, _, [], hfails, rfl⟩
  · exact ⟨e, m', writes, hfails, harena⟩

/-- The outputs of a failing node or return may be written up to the one that fails. -/
theorem exists_torn_outputs :
    danglingMachine.StagesOnly ∧
      (∃ e m', Machine.executeNode 20 sizeNode danglingMachine = .error e m' ∧
        12 < danglingMachine.arena.heapPointer ∧
          m'.arena.image[12]? ≠ danglingMachine.arena.image[12]?) ∧
      ∃ e m', Machine.storeResults 20 pairFunction 20 { outputs := sizeTargets } danglingMachine =
          .error e m' ∧
        m'.arena.image[12]? ≠ danglingMachine.arena.image[12]? := by
  refine ⟨stagesOnly_danglingMachine, ⟨_, _, rfl, ?_, ?_⟩, ⟨_, _, rfl, ?_⟩⟩ <;> decide

end FlatMachine
