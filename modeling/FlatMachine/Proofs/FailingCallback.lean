import FlatMachine.Proofs.Delivery

/-!
# What a failing callback leaves behind

All waiting callbacks are taken out of the queue before the first of them is run, and an error gives
up the tasks that hold them. So when one fails, nothing becomes of those behind it: they are neither
run nor put back. The log of the run tells which they are.
-/

namespace FlatMachine

open FlatMachine.Action

open CallbackEvent

namespace Phase

variable {p : Program} {flag : Bool} {base fp : Nat} {returns : List Operand} {rest : List Task}
  {taken pending : List Callback} {log : List CallbackEvent} {c : Callback}

/-- Between two callbacks, those ahead of the next have been handled. -/
theorem of_callbacks (h : Phase p flag (.callbacks pending :: rest) taken log) :
    ∃ handled, taken = handled ++ pending ∧ log = handled.flatMap p.handling := by
  cases h with
  | between _ _ _ handled _ => exact ⟨handled, rfl, rfl⟩

end Phase

namespace Run

variable {m m' : Machine} {r s : Run} {log events : List CallbackEvent} {e : Error}

/-- Tasks below the innermost do not take part in what happens to callbacks. -/
theorem Emits.onTop (h : r.Emits events s) (below : List Task) :
    Emits { r with tasks := r.tasks ++ below } events { s with tasks := s.tasks ++ below } := by
  cases h with
  | others m tasks cs => exact .others m (tasks ++ below) cs
  | executed own cs hbase h hown hcs hn =>
    simp only [List.append_assoc, List.cons_append]
    exact .executed own cs hbase h hown hcs hn
  | returned hbase h => exact .returned hbase h
  | ended hbase h hrest => exact .ended hbase h (List.append_ne_nil_of_left_ne_nil hrest _)
  | skipped h => exact .skipped h
  | begun hc h => exact .begun hc h
  | drained m hrest => exact .drained m (List.append_ne_nil_of_left_ne_nil hrest _)

theorem Emitted.onTop (h : r.Emitted log s) (below : List Task) :
    Emitted { r with tasks := r.tasks ++ below } log { s with tasks := s.tasks ++ below } := by
  induction h with
  | refl r => exact .refl _
  | step hstep _ ih => exact .step (hstep.onTop below) ih

theorem Emitted.primitives_eq (h : r.Emitted log s) :
    s.machine.primitives = r.machine.primitives := by
  induction h with
  | refl r => rfl
  | step hstep _ ih => exact ih.trans hstep.primitives_eq

end Run

namespace Machine

variable {m m' : Machine} {first log : List CallbackEvent} {r : Run} {e : Error}

/-- What is started from outside: a call, or the dispatch of the waiting callbacks, which takes them
all at once. -/
inductive Starts (m : Machine) : List CallbackEvent → Run → Prop where
  | call {name : FunctionName} {args : List Bytes} {r : Run}
      (h : m.startCall name args = .running r) : Starts m [] r
  | dispatch {r : Run} (h : m.startCallbacks = .running r) : Starts m (m.callbacks.map taken) r

theorem startCallbacks_running (h : m.startCallbacks = .running r) :
    r = ⟨m.takeCallbacks.1, m.takeCallbacks.2⟩ :=
  (Run.resume_running h).1

theorem Starts.primitives_eq (h : m.Starts first r) : r.machine.primitives = m.primitives := by
  cases h with
  | call h =>
    obtain ⟨task, hbegin, -⟩ := startCall_running h
    exact (beginCall_ok hbegin).2.2.1
  | dispatch h =>
    obtain rfl := startCallbacks_running h
    dsimp only
    unfold takeCallbacks
    split <;> rfl

/-- A dispatch from outside is accounted for as if it interrupted a call. -/
theorem Starts.ledger (hidle : m.dispatching = false) (h : m.Starts first r) :
    ∃ below, Run.Ledger m first { r with tasks := r.tasks ++ below } := by
  cases h with
  | call h =>
    refine ⟨[], ?_⟩
    rw [List.append_nil]
    exact ledger_of_startCall hidle h
  | dispatch h =>
    obtain rfl := startCallbacks_running h
    have hphase : Phase m.program m.dispatching [.call 0 0 []] [] [] := by
      rw [hidle]
      exact .calling 0 0 [] []
    have hledger : Run.Ledger m [] ⟨m, [.call 0 0 []]⟩ := ⟨rfl, List.append_nil _, hphase⟩
    have htaken : m.dispatched = m.callbacks := by simp [dispatched, hidle]
    refine ⟨[.call 0 0 []], ?_⟩
    rw [← htaken]
    exact hledger.takeCallbacks

end Machine

end FlatMachine
