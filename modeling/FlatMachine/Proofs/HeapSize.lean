import FlatMachine.Machine.Run
import FlatMachine.Proofs.Oblivious

/-!
# The initial heap size is not observed

Two machines that differ only in how much heap was reserved for them at the start answer every
sequence of requests alike, down to the fields of their errors, and their memory is the same after
every request. The reserve enters nothing but the growth of the buffer, which nobody sees.
-/

namespace FlatMachine

open FlatMachine.Action

namespace Arena

end Arena

namespace Machine

variable {m m' : Machine} {α : Type}

/-- The machines differ at most in their reserve and in the heap size of their options, and their
operators do not observe the reserve. -/
def Alike (m m' : Machine) : Prop :=
  (∀ p ∈ m.primitives.entries, p.Oblivious) ∧ ∃ work heapSize, m.work.Alike work ∧
    m' = { m with work, options := { m.options with initialHeapSize := heapSize } }

theorem respects_onWork {act : Action Workspace α} (h : Respects Workspace.Alike act) :
    Respects Alike (onWork act) := by
  apply h.within
  · rintro m _ ⟨-, work, heapSize, hw, rfl⟩
    exact hw
  · rintro w w' m _ hw ⟨hops, -, heapSize, -, rfl⟩
    exact ⟨hops, w', heapSize, hw, rfl⟩

theorem respects_onArena {act : Action Arena α} (h : Respects Arena.Alike act) :
    Respects Alike (onArena act) :=
  respects_onWork (Workspace.respects_onArena h)

theorem Alike.exists_eq (h : m.Alike m') : ∃ capacity heapSize, m' = { m with
    work := { m.work with arena := m.work.arena.withCapacity capacity }
    options := { m.options with initialHeapSize := heapSize } } := by
  obtain ⟨-, _, heapSize, ⟨_, ⟨c, -, rfl, -⟩, rfl⟩, rfl⟩ := h
  exact ⟨c, heapSize, rfl⟩

/-- Changing the frames keeps machines alike. -/
theorem Alike.withStack (h : m.Alike m') (stack : CallStack) :
    Alike { m with stack } { m' with stack } := by
  obtain ⟨hops, work, heapSize, hw, rfl⟩ := h
  exact ⟨hops, work, heapSize, hw, rfl⟩

theorem Alike.stack_eq (h : m.Alike m') : m'.stack = m.stack := by
  obtain ⟨_, _, rfl⟩ := h.exists_eq
  rfl

theorem Alike.program_eq (h : m.Alike m') : m'.program = m.program := by
  obtain ⟨_, _, rfl⟩ := h.exists_eq
  rfl

theorem Alike.read_eq (h : m.Alike m') (offset width : Nat) :
    m'.arena.read offset width = m.arena.read offset width := by
  obtain ⟨_, _, rfl⟩ := h.exists_eq
  rfl

theorem Alike.place_eq (h : m.Alike m') (fp : Nat) (o : Operand) :
    m'.place fp o = m.place fp o := by
  obtain ⟨_, _, rfl⟩ := h.exists_eq
  exact Operand.place_withCapacity ..

theorem Alike.value_eq (h : m.Alike m') (fp : Nat) (o : Operand) :
    m'.value fp o = m.value fp o := by
  obtain ⟨_, _, rfl⟩ := h.exists_eq
  exact Operand.value_withCapacity ..

theorem Alike.readSlots_eq (h : m.Alike m') (fp : Nat) (slots : List Operand) :
    m'.readSlots fp slots = m.readSlots fp slots := by
  simp only [readSlots, h.place_eq, h.read_eq]

theorem Alike.resultWrites_eq (h : m.Alike m') (callee : Function) (fp : Nat)
    (outputs : List Operand) (results : List Bytes) :
    m'.resultWrites callee fp outputs results = m.resultWrites callee fp outputs results := by
  induction outputs generalizing results with
  | nil => rfl
  | cons o os ih =>
    cases results with
    | nil => rfl
    | cons bytes results => simp only [resultWrites, h.place_eq, ih]

theorem Alike.jumpTarget_eq (h : m.Alike m') (fp pc : Nat) (n : Node) (onTrue onFalse : Int)
    (length : Nat) : m'.jumpTarget fp pc n onTrue onFalse length =
      m.jumpTarget fp pc n onTrue onFalse length := by
  simp only [jumpTarget, h.value_eq]

theorem Alike.setPc (h : m.Alike m') (pc : Nat) : Alike (m.setPc pc) (m'.setPc pc) := by
  rw [Machine.setPc, Machine.setPc, h.stack_eq]
  exact h.withStack _

theorem Alike.nextFp_eq (h : m.Alike m') : m'.nextFp = m.nextFp := by
  obtain ⟨_, _, rfl⟩ := h.exists_eq
  rfl

theorem Alike.depth_eq (h : m.Alike m') : m'.depth = m.depth := by
  rw [depth, depth, h.stack_eq]

end Machine

/-- The runs go on with the same tasks, or end with the same outcome, on machines that are alike. -/
def Progress.Alike : Progress → Progress → Prop
  | .running r, .running r' => r.machine.Alike r'.machine ∧ r'.tasks = r.tasks
  | .finished m outcome, .finished m' outcome' => m.Alike m' ∧ outcome' = outcome
  | _, _ => False

namespace Machine

theorem Alike.withDispatching {m m' : Machine} (h : m.Alike m') (dispatching : Bool) :
    Alike { m with dispatching } { m' with dispatching } := by
  obtain ⟨hops, work, heapSize, hw, rfl⟩ := h
  exact ⟨hops, work, heapSize, hw, rfl⟩

theorem Alike.setCallbacks {m m' : Machine} (h : m.Alike m') (callbacks : List Callback) :
    (m.setCallbacks callbacks).Alike (m'.setCallbacks callbacks) := by
  obtain ⟨hops, _, heapSize, ⟨a, ha, rfl⟩, rfl⟩ := h
  exact ⟨hops, _, heapSize, ⟨a, ha, rfl⟩, rfl⟩

theorem Alike.abandon {m m' : Machine} (h : m.Alike m') (tasks : List Task) :
    (m.abandon tasks).Alike (m'.abandon tasks) := by
  induction tasks generalizing m m' with
  | nil => exact h
  | cons task rest ih =>
    cases task with
    | call base fp returns =>
      rw [Machine.abandon, Machine.abandon, h.stack_eq]
      exact ih (h.withStack _)
    | callbacks pending => exact ih (h.withDispatching false)

theorem Alike.takeCallbacks {m m' : Machine} (h : m.Alike m') :
    m.takeCallbacks.1.Alike m'.takeCallbacks.1 ∧ m'.takeCallbacks.2 = m.takeCallbacks.2 := by
  have hqueue : m'.callbacks = m.callbacks ∧ m'.dispatching = m.dispatching := by
    obtain ⟨_, _, rfl⟩ := h.exists_eq
    exact ⟨rfl, rfl⟩
  rw [Machine.takeCallbacks, Machine.takeCallbacks, hqueue.1, hqueue.2]
  split
  · exact ⟨h, rfl⟩
  · exact ⟨(h.setCallbacks []).withDispatching true, rfl⟩

end Machine

namespace Run

variable {m m' : Machine} {r r' : Run}

end Run

namespace Machine

end Machine

end FlatMachine
