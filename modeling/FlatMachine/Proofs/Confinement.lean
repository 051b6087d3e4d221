import FlatMachine.Proofs.ObjectValues
import FlatMachine.Proofs.SliceIndexing

/-!
# What a native node may change

What a native node changes of the memory that was allocated before lies in the places of its
outputs. Only copying to a slice and writing an element change anything else: elements of the slice
that is their first input, but never the count in front of them.
-/

namespace FlatMachine

open FlatMachine.Action

namespace Arena

variable {a b : Arena} {touched touched' : Nat → Prop} {handle width offset src dst : Nat}
  {index : Int} {bytes : Bytes}

theorem ChangedIn.changesOnly (h : ChangedIn a b offset width)
    (hrange : ∀ i, offset ≤ i → i < offset + width → touched i) : a.ChangesOnly b touched := by
  intro i _ hchanged
  by_cases hin : offset ≤ i ∧ i < offset + width
  · exact hrange i hin.1 hin.2
  · exact absurd (h.getElem?_eq i (by omega)) hchanged

/-- The byte belongs to the elements of the object. -/
def PayloadCovers (a : Arena) (handle width i : Nat) : Prop :=
  ∃ count, a.objectLength handle = .ok count ∧ handle + headerWidth ≤ i ∧
    i < handle + headerWidth + count * width

theorem ends_copyElements_payload : Ends (copyElements dst src width) a
    (fun _ b => a.ChangesOnly b (a.PayloadCovers dst width)) (fun _ _ => True) := by
  simp only [copyElements, ends_bind, ends_query, ends_ite, ends_update, ends_pure]
  apply gives_of_ok ?_ fun _ => trivial
  intro room hroom
  apply gives_of_ok ?_ fun _ => trivial
  intro given _
  refine ⟨fun _ => gives_of_ok (fun b hb => ?_) fun _ => trivial,
    fun _ i _ hchanged => absurd rfl hchanged⟩
  have hchanged := copy_changedIn hb
  obtain ⟨count, hcount, hlen, -⟩ := payload_eq_ok hroom
  refine hchanged.changesOnly fun i hle hlt => ⟨count, hcount, hle, ?_⟩
  have hfits := calc
    min (room.length / max width 1) (given.length / max width 1) * width
      ≤ room.length / max width 1 * max width 1 :=
        Nat.mul_le_mul (Nat.min_le_left ..) (Nat.le_max_left ..)
    _ ≤ count * width := hlen ▸ Nat.div_mul_le_self ..
  omega

theorem write_payload {element : Bytes} (hoffset : a.elementOffset handle index width = .ok offset)
    (hlen : element.length = width) (h : a.write offset element = .ok b) :
    a.ChangesOnly b (a.PayloadCovers handle width) := by
  obtain ⟨count, hcount, hpos, hlt, rfl⟩ := elementOffset_eq_ok hoffset
  have hchanged := write_changedIn h
  refine hchanged.changesOnly fun i hle hi => ⟨count, hcount, ?_, ?_⟩
  · omega
  · have hlast : (index.toNat + 1) * width ≤ count * width :=
      Nat.mul_le_mul_right width (by omega)
    rw [Nat.succ_mul] at hlast
    omega

end Arena

section Bodies

variable {s : Site} {w : Workspace}

/-- The byte belongs to the elements of the object that the first input holds the handle of. -/
def Site.InputCovers (s : Site) (a : Arena) (i : Nat) : Prop :=
  ∃ handle width, s.inputHandle a 0 = .ok handle ∧ s.elementWidth a = .ok width ∧
    a.PayloadCovers handle width i

theorem confined_copyBody : Ends (SliceOp.copyBody s) w
    (fun slots w' => w.arena.ChangesOnly w'.arena (s.InputCovers w.arena) ∧
      ∀ slot ∈ slots, slot = none) (fun _ _ => True) := by
  simp only [SliceOp.copyBody, ends_bind, Workspace.ends_look, Workspace.ends_onArena, ends_pure]
  apply gives_of_ok ?_ fun _ => trivial
  intro width hwidth
  apply gives_of_ok ?_ fun _ => trivial
  intro dst hdst
  apply gives_of_ok ?_ fun _ => trivial
  intro src _
  apply Arena.ends_copyElements_payload.imp
  intro _ b hchanges
  exact ⟨fun i hi hchanged => ⟨dst, width, hdst, hwidth, hchanges i hi hchanged⟩,
    noOutputs_eq_none⟩

theorem confined_writeBody : Ends (SliceOp.writeBody s) w
    (fun slots w' => w.arena.ChangesOnly w'.arena (s.InputCovers w.arena) ∧
      ∀ slot ∈ slots, slot = none) (fun _ _ => True) := by
  simp only [SliceOp.writeBody, ends_bind, Workspace.ends_look, ends_ite, ends_throw,
    Workspace.ends_onArena, ends_update, ends_pure]
  apply gives_of_ok ?_ fun _ => trivial
  intro width hwidth
  apply gives_of_ok ?_ fun _ => trivial
  intro handle hhandle
  apply gives_of_ok ?_ fun _ => trivial
  intro index _
  apply gives_of_ok ?_ fun _ => trivial
  intro element _
  refine ⟨fun _ => trivial, fun hlen => gives_of_ok (fun offset hoffset => ?_) fun _ => trivial⟩
  apply gives_of_ok ?_ fun _ => trivial
  intro b hb
  have hchanges := Arena.write_payload hoffset (not_not.mp hlen) hb
  exact ⟨fun i hi hchanged => ⟨handle, width, hhandle, hwidth, hchanges i hi hchanged⟩,
    noOutputs_eq_none⟩

theorem Primitive.ActsInPlace.ends_run {p : Primitive} (h : p.ActsInPlace) :
    Ends (p.body.run s) w
      (fun slots w' => w.arena.ChangesOnly w'.arena (s.InputCovers w.arena) ∧
        ∀ slot ∈ slots, slot = none) (fun _ _ => True) := by
  obtain ⟨op, elem, rfl | rfl, rfl⟩ := h
  · exact confined_copyBody
  · exact confined_writeBody

/-- The byte belongs to the place of an output. -/
def Site.OutputCovers (s : Site) (a : Arena) (i : Nat) : Prop :=
  ∃ o ∈ s.node.outputs, ∃ place, o.place s.structs a s.fp = .ok place ∧ place.Covers i

theorem Site.ends_commit_confined {slots : Slots} {a : Arena} : Ends (s.commit slots) a
    (fun _ b => a.ChangesOnly b (s.OutputCovers a)) (fun _ _ => True) := by
  simp only [commit, ends_bind, ends_query]
  apply gives_of_ok ?_ fun _ => trivial
  intro pending hpending
  apply Pending.ends_settleAll.mono ?_ fun _ _ _ => trivial
  rintro writes c ⟨hext, hsettled⟩
  apply Arena.ends_writeAll.mono ?_ fun _ _ _ => trivial
  rintro - _ ⟨-, rfl⟩ i hi hchanged
  by_contra hnot
  apply hchanged
  rw [Arena.getElem?_written, hext.getElem?_eq i hi]
  intro w hw
  obtain ⟨p, hp, hsettled⟩ := exists_of_forall₂_right hsettled hw
  obtain ⟨j, o, staged, ho, -, hprepared⟩ := exists_of_mem_prepareAll hpending hp
  obtain ⟨place, hplace, hoffset, hlen⟩ := place_of_settled hsettled hprepared
  have hout : ¬ place.Covers i := fun hcovers =>
    hnot ⟨o, List.mem_of_getElem? ho, place, hplace, hcovers⟩
  unfold Place.Covers at hout
  omega

end Bodies

namespace Machine

variable {m : Machine} {fp : Nat} {n : Node} {p : Primitive} {inputs outputs : List Operand}

theorem keepsSegments_performs (hp : p.KeepsSegments)
    (hn : n.Performs m.primitives p inputs outputs) : Ends (executeNode fp n) m
      (fun _ m' => m.arena.SameSegments m'.arena) (fun _ _ => True) := by
  simp only [ends_performs hn, Primitive.execute, ends_bind, Workspace.ends_onArena]
  apply (hp (m.site fp n) m.work).mono ?_ fun _ _ _ => trivial
  intro slots w hkept
  apply (Arena.keepsSegments_commit _ slots w.arena).mono ?_ fun _ _ _ => trivial
  exact fun _ b hb => hkept.trans hb

/-- An operator that only stages changes the places of the outputs only. -/
theorem ends_stagesOnly (hp : p.StagesOnly) (hn : n.Performs m.primitives p inputs outputs) :
    Ends (executeNode fp n) m
      (fun _ m' => ∃ slots w, p.body.run (m.site fp n) m.work = .ok slots w ∧
        m.arena.ChangesOnly m'.arena ((m.site fp n).OutputCovers w.arena)) (fun _ _ => True) := by
  simp only [ends_performs hn, Primitive.execute, ends_bind, Workspace.ends_onArena]
  refine ends_iff.mpr ⟨fun slots w hbody => ?_, fun _ _ _ => trivial⟩
  have hext := (hp (m.site fp n) m.work).value hbody
  apply Site.ends_commit_confined.mono ?_ fun _ _ _ => trivial
  intro _ b hchanges
  refine ⟨slots, w, hbody, fun i hi hchanged => hchanges i (hi.trans_le hext.heapPointer_le) ?_⟩
  rwa [hext.getElem?_eq i hi]

theorem ends_actsInPlace (hp : p.ActsInPlace) (hn : n.Performs m.primitives p inputs outputs) :
    Ends (executeNode fp n) m
      (fun _ m' => ∃ slots w, p.body.run (m.site fp n) m.work = .ok slots w ∧
        m.arena.ChangesOnly m'.arena ((m.site fp n).InputCovers m.arena)) (fun _ _ => True) := by
  simp only [ends_performs hn, Primitive.execute, ends_bind, Workspace.ends_onArena]
  refine ends_iff.mpr ⟨fun slots w hbody => ?_, fun _ _ _ => trivial⟩
  obtain ⟨hchanges, hnone⟩ := hp.ends_run.value hbody
  apply (Site.ends_commit_of_none hnone).mono ?_ fun _ _ _ => trivial
  rintro _ _ rfl
  exact ⟨slots, w, hbody, hchanges⟩

end Machine

/-- A native node that succeeds leaves the segments where they are and keeps what is allocated. The
bytes that it changes belong to the places of its outputs, as these are when it writes them; for the
two operators that act in place they belong to the elements of the slice that is the first input. -/
theorem native_changes_confined {m m' : Machine} {fp code : Nat} {n : Node} {name : String}
    {signature : Signature} {p : Primitive} (hop : n.operator = some (.native code name signature))
    (hp : m.primitives.get code = .ok p) (hshipped : p.Shipped)
    (hrun : Machine.executeNode fp n m = .ok () m') :
    m.arena.SameSegments m'.arena ∧ ∃ slots w, p.body.run (m.site fp n) m.work = .ok slots w ∧
      (¬ p.ActsInPlace → m.arena.ChangesOnly m'.arena ((m.site fp n).OutputCovers w.arena)) ∧
      (p.ActsInPlace → m.arena.ChangesOnly m'.arena ((m.site fp n).InputCovers m.arena)) := by
  have hperforms : n.Performs m.primitives p n.inputs n.outputs :=
    ⟨⟨code, name, signature, hop, hp⟩, rfl, rfl⟩
  have hkeeps := hshipped.contained.keepsSegments
  have hsegments := (Machine.keepsSegments_performs hkeeps hperforms).value hrun
  refine ⟨hsegments, ?_⟩
  by_cases hplace : p.ActsInPlace
  · obtain ⟨slots, w, hbody, hchanges⟩ := (Machine.ends_actsInPlace hplace hperforms).value hrun
    exact ⟨slots, w, hbody, fun hnot => absurd hplace hnot, fun _ => hchanges⟩
  · have hstages := hshipped.stagesOnly.resolve_right hplace
    obtain ⟨slots, w, hbody, hchanges⟩ := (Machine.ends_stagesOnly hstages hperforms).value hrun
    exact ⟨slots, w, hbody, fun _ => hchanges, fun hnot => absurd hnot hplace⟩

theorem shipped_slice {elem : Ty} (op : SliceOp) (helem : elem ∈ SliceOp.elementTypes) :
    (op.primitive elem).Shipped :=
  List.mem_append_left _ (Primitive.Family.slice op helem).mem_library

/-- The frame with two numbers and room for more; `i` is 1. -/
def growingMachine : Machine :=
  let m := pairMachine 1
  { m with
    primitives := { entries := [SliceOp.append.primitive .i16, SliceOp.write.primitive .i16] }
    work := { m.work with arena := { m.work.arena with capacity := 64, limit := 64 } } }

/-- Appends the number to the slice itself. -/
def appendPair : Node where
  operator := some (.native 0 "[]i16.append" (SliceOp.append.signature .i16))
  inputs := [pairSlice, pairItem]
  outputs := [pairSlice]

theorem native_changes_confined_growingMachine :
    (∃ m, Machine.executeNode 8 appendPair growingMachine = .ok () m ∧
      growingMachine.arena.ChangesOnly m.arena fun i => 8 ≤ i ∧ i < 12) ∧
    ∃ m, Machine.executeNode 8 writePair growingMachine = .ok () m ∧
      growingMachine.arena.ChangesOnly m.arena fun i => 28 ≤ i ∧ i < 32 := by
  constructor
  · have hstages : ¬ (SliceOp.append.primitive .i16).ActsInPlace := by
      rintro ⟨op, elem, rfl | rfl, heq⟩ <;>
        cases congrArg (fun p : Primitive => p.signature.outputs.length) heq
    have hvariable : pairSlice.IsVariable {} 8 ⟨8, .slice .i16, 4⟩ := .of_plain rfl rfl rfl rfl
    obtain ⟨m, hrun⟩ : ∃ m, Machine.executeNode 8 appendPair growingMachine = .ok () m := ⟨_, rfl⟩
    refine ⟨m, hrun, ?_⟩
    obtain ⟨-, slots, w, -, hchanges, -⟩ := native_changes_confined (m := growingMachine)
      (n := appendPair) rfl rfl (shipped_slice .append (by decide)) hrun
    intro i hi hchanged
    obtain ⟨o, ho, place, hplace, hcovers⟩ := hchanges hstages i hi hchanged
    cases List.mem_singleton.mp ho
    cases hplace.symm.trans (hvariable.place_eq w.arena)
    exact hcovers
  · have hplace : (SliceOp.write.primitive .i16).ActsInPlace := ⟨.write, .i16, .inr rfl, rfl⟩
    obtain ⟨m, hrun⟩ : ∃ m, Machine.executeNode 8 writePair growingMachine = .ok () m := ⟨_, rfl⟩
    refine ⟨m, hrun, ?_⟩
    obtain ⟨-, slots, w, -, -, hchanges⟩ := native_changes_confined (m := growingMachine)
      (n := writePair) rfl rfl (shipped_slice .write (by decide)) hrun
    intro i hi hchanged
    obtain ⟨_, _, hhandle, hwidth, _, hcount, hle, hlt⟩ := hchanges hplace i hi hchanged
    cases hhandle
    cases hwidth
    cases hcount
    exact ⟨hle, hlt⟩

end FlatMachine
