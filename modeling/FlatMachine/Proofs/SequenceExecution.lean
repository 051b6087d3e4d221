import FlatMachine.Proofs.Confinement

/-!
# Executing slice and string operators

An operator that makes a string or slice stores a new object and puts its handle in the output, and
one that makes a scalar puts the scalar there. With room for the object the node succeeds. Copying
and writing succeed without an output, and leave the object of the first input with other elements.
-/

namespace FlatMachine

open FlatMachine.Action

section Delivery

variable {a b : Arena} {s : Site} {out : Operand} {target : Place} {o : Listing} {handle : Nat}
  {text : String} {v : Value} {content : Bytes}

/-- The new object is behind everything that was allocated, so its handle is not nil. -/
theorem Arena.Makes.hasObject (h : a.Makes o handle b) (hpos : 0 < a.heapPointer) :
    b.HasObject handle o :=
  ⟨h.sound, fun _ => h.stores, fun hnil => absurd (h.handle_eq ▸ hnil) hpos.ne'⟩

/-- Storing the handle of a new object in a slot that was allocated before. -/
theorem Arena.Makes.gives_deliver (h : a.Makes o handle b) (hsize : target.size = headerWidth)
    (hstop : target.offset + target.size ≤ a.heapPointer) (hmax : a.heapPointer ≤ Size.maxHandle) :
    Gives (encodeHandle handle) (fun bytes => bytes.length = target.size ∧
      Gives (b.write target.offset bytes) (·.HoldsObject target handle o) (fun _ => False))
      (fun _ => False) := by
  have hheader : (0 : Nat) < headerWidth := by decide
  have hle := h.toExtends.heapPointer_le
  apply gives_encodeHandle.mono ?_ fun _ hnot => hnot (h.handle_eq ▸ hmax)
  rintro _ ⟨hcount, rfl⟩
  have hlen := LittleEndian.length_encode headerWidth handle
  refine ⟨hlen.trans hsize.symm, ?_⟩
  apply Arena.gives_write_stores.mono
  · rintro c ⟨hchanged, hstores⟩
    rw [hlen] at hchanged
    refine ⟨hstores.readHandle ?_ hcount, ?_⟩
    · rw [hchanged.heapPointer_eq]
      omega
    · apply (h.hasObject (by omega)).changedIn hchanged
      rw [h.handle_eq]
      omega
  · intro _ hlt
    omega

theorem Value.encode_of_encodeScalar {ty : Ty} (h : v.encodeScalar ty = .ok content) :
    v.encode ty = .ok content := by
  unfold Value.encode
  split
  · cases h
  · cases h
  · cases h
  · cases h
  · cases h
  · exact h

namespace Site

/-- The handle of a new object as the output. -/
theorem ends_outputHandle (houtputs : s.node.outputs = [out])
    (hout : out.IsVariable s.structs s.fp target) (hsize : target.size = headerWidth)
    (hstop : target.offset + target.size ≤ a.heapPointer) (hmax : a.heapPointer ≤ Size.maxHandle)
    (hmade : a.Makes o handle b) : Gives (s.outputHandle handle)
      (fun slots => Ends (s.commit slots) b (fun _ c => c.HoldsObject target handle o)
        (fun _ _ => False)) (fun _ => False) := by
  simp only [outputHandle, gives_bind]
  apply (hmade.gives_deliver hsize hstop hmax).imp
  rintro bytes ⟨hlen, hwrite⟩
  rw [stage_only houtputs, gives_ok, ends_commit_variable houtputs hout hlen]
  exact hwrite

theorem outputs_only (houtputs : s.node.outputs = [out]) (v : Value) :
    s.outputs [v] = .ok [some (.value v)] := by
  rw [outputs, stageFrom, stage_only houtputs]
  rfl

/-- A text as the output. -/
theorem ends_commit_text (houtputs : s.node.outputs = [out])
    (hout : out.IsVariable s.structs s.fp target) (hty : target.ty = .str)
    (hstop : target.offset + target.size ≤ a.heapPointer) (hmax : a.heapPointer ≤ Size.maxHandle)
    (hroom : a.HasRoom (Utf8.encode text).length 1) : Ends (s.commit [some (.value (.str text))]) a
      (fun _ c => ∃ handle, c.HoldsObject target handle (.ofText text)) (fun _ _ => False) := by
  have hsize : target.size = headerWidth := by
    have hsize := hout.size_eq
    rw [hty] at hsize
    exact (Except.ok.inj hsize).symm
  have hpending : Pending.ofStaged target (.value (.str text)) =
      .ok (.object target.offset (Listing.ofText text).bytes) := by
    have hheader := encodeHandle_eq_ok.mpr ⟨hroom.2, rfl⟩
    rw [Pending.ofStaged, hty, Value.encode, hheader, Arena.bytes_ofText]
    rfl
  simp only [ends_commit_staged houtputs (hout.place_eq a) hpending hsize.symm, Pending.settle,
    ends_bind, ends_ofExcept, ends_pure]
  apply (Arena.makes_ofText hroom.2).mono ?_ fun _ _ hfails => hfails.2 hroom
  intro handle b hmade
  apply (hmade.gives_deliver hsize hstop hmax).imp
  rintro bytes ⟨-, hwrite⟩
  exact hwrite.imp fun c hholds => ⟨handle, hholds⟩

/-- A scalar as the output. -/
theorem ends_commit_word (houtputs : s.node.outputs = [out])
    (hplace : out.place s.structs a s.fp = .ok target)
    (hstop : target.offset + target.size ≤ a.heapPointer)
    (henc : v.encodeScalar target.ty = .ok content) : Ends (s.commit [some (.value v)]) a
      (fun _ c => c.valueAt target = .ok v) (fun _ _ => False) := by
  obtain ⟨hword, hdecode⟩ := decodeWord_encodeScalar [] henc
  have hsize : content.length = target.size :=
    Except.ok.inj ((Ty.size_of_wordWidth? hword).symm.trans (Operand.size_of_place hplace))
  have hpending : Pending.ofStaged target (.value v) = .ok (.bytes target.offset content) := by
    rw [Pending.ofStaged, Value.encode_of_encodeScalar henc]
    unfold Value.encodeScalar at henc
    split at henc
    · rfl
    · rfl
    · rfl
    · cases henc
  have hobject : target.ty.isObject = false := by
    cases hty : target.ty with
    | str | slice => rw [hty] at hword; cases hword
    | _ => rfl
  rw [ends_commit_staged houtputs hplace hpending hsize]
  simp only [Pending.settle, ends_pure]
  apply Arena.gives_write_stores.mono
  · rintro c ⟨hchanged, hstores⟩
    rw [Arena.valueAt_word hobject, ← hsize, hstores.read (by rw [hchanged.heapPointer_eq]; omega)]
    change target.ty.decode content = .ok v
    rw [Ty.decode_eq_decodeWord hword]
    simpa using hdecode
  · intro _ hlt
    omega

end Site

end Delivery

section Operators

variable {m : Machine} {fp : Nat} {n : Node} {inputs outputs : List Operand} {out : Operand}
  {slot target : Place} {elem : Ty} {width handle first second dst src : Nat} {element : Bytes}
  {old front back room given : List Bytes} {w : BitVec IntKind.i32.bits} {o : Listing}
  {x y : String}

namespace Machine

/-- The slot gets the handle of a new object, for which there has to be room. -/
theorem ends_append (hn : n.Performs m.primitives (SliceOp.append.primitive elem) inputs [out])
    (hwidth : (m.site fp n).elementWidth m.arena = .ok width)
    (hhandle : (m.site fp n).inputHandle m.arena 0 = .ok handle)
    (hobject : m.arena.HasObject handle ⟨width, old⟩)
    (hbytes : (m.site fp n).inputBytes m.arena 1 = .ok element) (hlen : element.length = width)
    (hout : m.HasVariable fp out target) (hsize : target.size = headerWidth)
    (hroom : m.arena.HasRoom (old.length + 1) width)
    (hmax : m.arena.heapPointer ≤ Size.maxHandle) : Ends (executeNode fp n) m
      (fun _ m' => ∃ made, m'.arena.HoldsObject target made ⟨width, old ++ [element]⟩)
      (fun _ _ => False) := by
  have houtputs : (m.site fp n).node.outputs = [out] := hn.outputs_eq
  rw [ends_performs hn]
  simp only [Primitive.execute, SliceOp.primitive, SliceOp.body, SliceOp.appendBody, Body.run,
    ends_bind, Workspace.ends_look, Workspace.ends_onArena, work_arena, hwidth, hhandle, hbytes,
    gives_ok, ends_ofExcept]
  apply (Arena.makes_appendElement hobject).mono ?_ fun _ _ hfails => hfails.2 hlen hroom
  rintro made b ⟨-, hmade⟩
  have hdeliver := Site.ends_outputHandle houtputs hout.toIsVariable hsize hout.stop_le hmax hmade
  exact hdeliver.imp fun slots hcommit => hcommit.imp fun _ c hholds => ⟨made, hholds⟩

theorem ends_concat (hn : n.Performs m.primitives (SliceOp.concat.primitive elem) inputs [out])
    (hwidth : (m.site fp n).elementWidth m.arena = .ok width)
    (hfirst : (m.site fp n).inputHandle m.arena 0 = .ok first)
    (hfront : m.arena.HasObject first ⟨width, front⟩)
    (hsecond : (m.site fp n).inputHandle m.arena 1 = .ok second)
    (hback : m.arena.HasObject second ⟨width, back⟩)
    (hout : m.HasVariable fp out target) (hsize : target.size = headerWidth)
    (hroom : m.arena.HasRoom (front.length + back.length) width)
    (hmax : m.arena.heapPointer ≤ Size.maxHandle) : Ends (executeNode fp n) m
      (fun _ m' => ∃ made, m'.arena.HoldsObject target made ⟨width, front ++ back⟩)
      (fun _ _ => False) := by
  have houtputs : (m.site fp n).node.outputs = [out] := hn.outputs_eq
  rw [ends_performs hn]
  simp only [Primitive.execute, SliceOp.primitive, SliceOp.body, SliceOp.concatBody, Body.run,
    ends_bind, Workspace.ends_look, Workspace.ends_onArena, work_arena, hwidth, hfirst, hsecond,
    gives_ok, ends_ofExcept]
  apply (Arena.makes_concatObjects hfront hback).mono ?_ fun _ _ hfails => hfails.2 hroom
  intro made b hmade
  have hdeliver := Site.ends_outputHandle houtputs hout.toIsVariable hsize hout.stop_le hmax hmade
  exact hdeliver.imp fun slots hcommit => hcommit.imp fun _ c hholds => ⟨made, hholds⟩

/-- The object of the first input has other elements; nothing is staged. -/
theorem ends_copy (hn : n.Performs m.primitives (SliceOp.copy.primitive elem) inputs outputs)
    (hwidth : (m.site fp n).elementWidth m.arena = .ok width)
    (hdst : (m.site fp n).inputHandle m.arena 0 = .ok dst)
    (hroom : m.arena.HasObject dst ⟨width, room⟩)
    (hsrc : (m.site fp n).inputHandle m.arena 1 = .ok src)
    (hgiven : m.arena.HasObject src ⟨width, given⟩) : Ends (executeNode fp n) m
      (fun _ m' => m.arena.Rewrites dst ⟨width, room⟩ ⟨width, Arena.copied given room⟩ m'.arena)
      (fun _ _ => False) := by
  rw [ends_performs hn]
  simp only [Primitive.execute, SliceOp.primitive, SliceOp.body, SliceOp.copyBody, Body.run,
    ends_bind, Workspace.ends_look, Workspace.ends_onArena, work_arena, hwidth, hdst, hsrc,
    gives_ok, ends_pure, Site.ends_commit_noOutputs]
  exact (Arena.rewrites_copyElements hroom hgiven).imp fun _ b hrewrites => hrewrites.2

/-- The number of elements of the object that the first input holds the handle of. -/
theorem ends_length {p : Primitive} (hp : p.body = .compute Site.objectLength)
    (hn : n.Performs m.primitives p inputs [out])
    (hhandle : (m.site fp n).inputHandle m.arena 0 = .ok handle)
    (hobject : m.arena.HasObject handle o)
    (hfits : o.elements.length < 2 ^ 31) (hout : m.HasVariable fp out target)
    (hty : target.ty = .i32) : Ends (executeNode fp n) m
      (fun _ m' => m'.arena.valueAt target = .ok (.i32 o.elements.length)) (fun _ _ => False) := by
  have houtputs : (m.site fp n).node.outputs = [out] := hn.outputs_eq
  have hlength : (m.site fp n).lengthValue o.elements.length = .ok (.i32 o.elements.length) :=
    if_pos hfits
  have henc : (Value.i32 o.elements.length).encodeScalar target.ty =
      .ok (LittleEndian.encode 4 (IntKind.ofInt .i32 o.elements.length).toNat) := by
    rw [hty]
    rfl
  rw [ends_performs hn]
  simp only [Primitive.execute, hp, Body.run, Site.objectLength, ends_bind, Workspace.ends_look,
    Workspace.ends_onArena, work_arena, hhandle, hobject.shows.1, hlength, gives_bind, gives_ok,
    Site.outputs_only houtputs]
  exact Site.ends_commit_word houtputs (hout.place_eq _) hout.stop_le henc

theorem ends_strConcat (hn : n.Performs m.primitives stringPrimitives[1] inputs [out])
    (hx : (m.site fp n).str m.arena 0 = .ok x) (hy : (m.site fp n).str m.arena 1 = .ok y)
    (hout : m.HasVariable fp out target) (hty : target.ty = .str)
    (hroom : m.arena.HasRoom (Utf8.encode (x ++ y)).length 1)
    (hmax : m.arena.heapPointer ≤ Size.maxHandle) : Ends (executeNode fp n) m
      (fun _ m' => ∃ made, m'.arena.HoldsObject target made (.ofText (x ++ y)))
      (fun _ _ => False) := by
  have houtputs : (m.site fp n).node.outputs = [out] := hn.outputs_eq
  rw [ends_performs hn]
  simp only [Primitive.execute, stringPrimitives, List.getElem_cons_succ, List.getElem_cons_zero,
    Body.run, ends_bind, Workspace.ends_look, Workspace.ends_onArena, work_arena, hx, hy,
    gives_bind, gives_ok, Site.outputs_only houtputs]
  exact Site.ends_commit_text houtputs hout.toIsVariable hty hout.stop_le hmax hroom

theorem ends_strEq (hn : n.Performs m.primitives stringPrimitives[2] inputs [out])
    (hx : (m.site fp n).str m.arena 0 = .ok x) (hy : (m.site fp n).str m.arena 1 = .ok y)
    (hout : m.HasVariable fp out target) (hty : target.ty = .bool) : Ends (executeNode fp n) m
      (fun _ m' => m'.arena.valueAt target = .ok (.bool (x == y))) (fun _ _ => False) := by
  have houtputs : (m.site fp n).node.outputs = [out] := hn.outputs_eq
  have henc : (Value.bool (x == y)).encodeScalar target.ty = .ok [if x == y then 1 else 0] := by
    rw [hty]
    rfl
  rw [ends_performs hn]
  simp only [Primitive.execute, stringPrimitives, List.getElem_cons_succ, List.getElem_cons_zero,
    Body.run, ends_bind, Workspace.ends_look, Workspace.ends_onArena, work_arena, hx, hy,
    gives_bind, gives_ok, Site.outputs_only houtputs]
  exact Site.ends_commit_word houtputs (hout.place_eq _) hout.stop_le henc

end Machine

end Operators

end FlatMachine
