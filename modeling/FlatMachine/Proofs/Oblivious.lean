import FlatMachine.Proofs.Containment
import FlatMachine.Proofs.Inputs
import FlatMachine.Proofs.Reserve

/-!
# Operators do not observe the reserve

What an operator reads, stages and changes does not depend on how many bytes are in reserve.
-/

namespace FlatMachine

open FlatMachine.Action

namespace Site

variable (s : Site) (a : Arena) (c : Nat)

theorem sameInputs_withCapacity : s.SameInputs a (a.withCapacity c) where
  input_eq i := by
    simp only [input, Operand.place_withCapacity, Arena.read_withCapacity,
      Arena.readHandle_withCapacity, Arena.readObject_withCapacity]
  inputTy_eq i := by simp only [inputTy, Operand.place_withCapacity]
  inputBytes_eq i := by simp only [inputBytes, Operand.bytes_withCapacity]

end Site

/-- Computing outputs does not look at the reserve. -/
def Compute.Blind (run : Compute) : Prop := ∀ s a c, run s (a.withCapacity c) = run s a

section Computes

theorem blind_objectLength : Compute.Blind Site.objectLength := fun s a c => by
  simp only [Site.objectLength, (s.sameInputs_withCapacity a c).inputHandle_eq,
    Arena.objectLength_withCapacity]

end Computes

namespace Workspace

variable {α : Type}

/-- The arenas are alike, and the rest is the same. -/
def Alike (w w' : Workspace) : Prop := ∃ a, w.arena.Alike a ∧ w' = { w with arena := a }

end Workspace

section Bodies

open Workspace

variable {s : Site}

end Bodies

namespace Primitive

variable {p : Primitive}

/-- What the body stages and changes does not depend on the reserve. -/
def Oblivious (p : Primitive) : Prop := ∀ s, Respects Workspace.Alike (p.body.run s)

theorem Oblivious.respects_execute (h : p.Oblivious) (s : Site) :
    Respects Workspace.Alike (p.execute s) :=
  Primitive.respects_execute Arena.congruent_alike (h s) fun o _ => o.steady_alike s.fp s.structs

end Primitive

end FlatMachine
