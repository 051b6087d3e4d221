import FlatMachine.Proofs.Execution
import FlatMachine.Proofs.Results

/-!
# What a call and a return move

A call zeroes the frame of its callee and stores the bytes of its inputs in the parameters. When the
callee has ended, the result slots are read and the outputs that they go to are found before
anything is written; then the results are written one after another. The slots of a laid-out
function are fixed places of its frame, and those of parameters with different names are apart.
-/

namespace FlatMachine

open FlatMachine.Action

/-- The bytes have the width of the place, which is allocated. -/
def Arena.Fits (a : Arena) (place : Place) (bytes : Bytes) : Prop :=
  bytes.length = place.size ∧ place.offset + place.size ≤ a.heapPointer

/-- Contents have been stored at places, one after another, and nothing else has changed. -/
structure Arena.Receives (a b : Arena) (places : List Place) (contents : List Bytes) : Prop where
  fits : List.Forall₂ a.Fits places contents
  stackStart_eq : b.stackStart = a.stackStart
  stackEnd_eq : b.stackEnd = a.stackEnd
  heapPointer_eq : b.heapPointer = a.heapPointer
  /-- A byte is that of the last content for whose place it is. -/
  stored : ∀ (k : Nat) (place : Place) (bytes : Bytes), places[k]? = some place →
    contents[k]? = some bytes → ∀ i, place.Covers i →
      (∀ (j : Nat) (place' : Place), k < j → places[j]? = some place' → ¬ place'.Covers i) →
        b.image[i]? = bytes[i - place.offset]?
  rest : ∀ i, (∀ place ∈ places, ¬ place.Covers i) → b.image[i]? = a.image[i]?

/-- The writes of contents to places. -/
def writesTo (places : List Place) (contents : List Bytes) : List (Nat × Bytes) :=
  List.zipWith (fun place bytes => (place.offset, bytes)) places contents

theorem exists_of_mem_writesTo {R : Place → Bytes → Prop} {places : List Place}
    {contents : List Bytes} {w : Nat × Bytes} (h : List.Forall₂ R places contents)
    (hw : w ∈ writesTo places contents) :
    ∃ place ∈ places, ∃ bytes, R place bytes ∧ w = (place.offset, bytes) := by
  induction h with
  | nil => cases hw
  | @cons place bytes places contents hhead _ ih =>
    rcases List.mem_cons.mp hw with rfl | hw
    · exact ⟨place, List.mem_cons_self, bytes, hhead, rfl⟩
    · obtain ⟨place', hmem, hrest⟩ := ih hw
      exact ⟨place', List.mem_cons_of_mem _ hmem, hrest⟩

namespace Arena

variable {a b : Arena} {place : Place} {bytes : Bytes} {places : List Place}
  {contents : List Bytes}

@[simp] theorem fits_overlay {offset : Nat} {content : Bytes} :
    Fits { a with image := overlay a.image offset content } place bytes ↔ a.Fits place bytes := by
  simp only [Fits, heapPointer, size_overlay]

theorem fits_of_holds
    (h : List.Forall₂ (fun place bytes => List.length bytes = Place.size place) places contents)
    (hholds : ∀ w ∈ writesTo places contents, a.Holds w) :
    List.Forall₂ a.Fits places contents := by
  induction h with
  | nil => exact .nil
  | cons hwidth _ ih =>
    obtain ⟨hhead, hrest⟩ := List.forall_mem_cons.mp hholds
    exact .cons ⟨hwidth, hwidth ▸ hhead⟩ (ih hrest)

theorem receives_nil (a : Arena) : a.Receives a [] [] :=
  ⟨.nil, rfl, rfl, rfl, nofun, fun _ _ => rfl⟩

/-- The first content is stored before the others. -/
theorem Receives.cons {c : Arena} (hfits : a.Fits place bytes)
    (hb : b = { a with image := overlay a.image place.offset bytes })
    (h : b.Receives c places contents) : a.Receives c (place :: places) (bytes :: contents) := by
  subst hb
  have hrest := h.fits.imp fun _ _ hfit => fits_overlay.mp hfit
  refine ⟨.cons hfits hrest, h.stackStart_eq, h.stackEnd_eq, ?_, ?_, ?_⟩
  · rw [h.heapPointer_eq]
    exact size_overlay ..
  · intro k place' bytes' hplace hbytes i hcovers hlater
    cases k with
    | zero =>
      cases hplace
      cases hbytes
      have hnone : ∀ place' ∈ places, ¬ place'.Covers i := by
        intro place' hmem
        obtain ⟨j, hj⟩ := List.mem_iff_getElem?.mp hmem
        exact hlater (j + 1) place' (Nat.succ_pos j) hj
      obtain ⟨hlen, hle⟩ := hfits
      have hin : place.offset ≤ i ∧ i < place.offset + bytes.length ∧ i < a.image.size := by
        have hsize : a.image.size = a.heapPointer := rfl
        unfold Place.Covers at hcovers
        omega
      rw [h.rest i hnone, getElem?_overlay, if_pos hin]
    | succ k =>
      refine h.stored k place' bytes' hplace hbytes i hcovers fun j place'' hj hplace'' => ?_
      exact hlater (j + 1) place'' (Nat.succ_lt_succ hj) hplace''
  · intro i hnone
    obtain ⟨hhead, htail⟩ := List.forall_mem_cons.mp hnone
    rw [h.rest i htail]
    apply getElem?_overlay_of_lt
    obtain ⟨hlen, -⟩ := hfits
    unfold Place.Covers at hhead
    omega

theorem receives_written (h : List.Forall₂ a.Fits places contents) :
    a.Receives (a.written (writesTo places contents)) places contents := by
  induction places generalizing a contents with
  | nil =>
    cases h
    exact receives_nil a
  | cons place places ih =>
    cases h with
    | cons hfits hrest =>
      refine .cons hfits rfl (ih ?_)
      exact hrest.imp fun _ _ hfit => fits_overlay.mpr hfit

/-- Contents whose places are apart are all there in the end. -/
theorem Receives.read (h : a.Receives b places contents) (hapart : places.Pairwise Place.Apart)
    {k : Nat} (hplace : places[k]? = some place) (hbytes : contents[k]? = some bytes) :
    b.read place.offset place.size = .ok bytes := by
  obtain ⟨_, hfound, hlen, hle⟩ := exists_getElem?_of_forall₂ h.fits hbytes
  cases hplace.symm.trans hfound
  have hstores : b.Stores place.offset bytes := by
    intro i hi
    have hcovers : place.Covers (place.offset + i) := ⟨Nat.le_add_right _ _, by omega⟩
    have hlater : ∀ (j : Nat) (place' : Place), k < j → places[j]? = some place' →
        ¬ place'.Covers (place.offset + i) := by
      intro j place' hj hplace'
      obtain ⟨hk, hat⟩ := List.getElem?_eq_some_iff.mp hplace
      obtain ⟨hj', rfl⟩ := List.getElem?_eq_some_iff.mp hplace'
      exact List.pairwise_iff_getElem.mp hapart k j hk hj' hj _ (hat ▸ hcovers)
    rw [h.stored k place bytes hplace hbytes _ hcovers hlater, Nat.add_sub_cancel_left]
  rw [← hlen]
  apply hstores.read
  rw [hlen, h.heapPointer_eq]
  exact hle

theorem Receives.reads (h : a.Receives b places contents)
    (hapart : places.Pairwise Place.Apart) :
    List.Forall₂ (fun place bytes => b.read place.offset place.size = .ok bytes) places contents :=
  List.forall₂_iff_get.mpr ⟨h.fits.length_eq, fun _ hi hi' =>
    h.read hapart (List.getElem?_eq_getElem hi) (List.getElem?_eq_getElem hi')⟩

/-- In a range that was zeroed before, only the places are not zero; outside nothing has changed. -/
theorem Receives.of_zeroed {offset width : Nat} (hle : offset + width ≤ a.heapPointer)
    (h : Receives { a with image := overlay a.image offset (List.replicate width 0) } b places
      contents)
    (hinside : ∀ place ∈ places, offset ≤ place.offset ∧
      place.offset + place.size ≤ offset + width) :
    a.ChangedIn b offset width ∧ ∀ i, offset ≤ i → i < offset + width →
      (∀ place ∈ places, ¬ place.Covers i) → b.image[i]? = some 0 := by
  have hzeros : (List.replicate width (0 : UInt8)).length = width := List.length_replicate
  obtain ⟨hchanged, hstores⟩ := overlay_stored hle hzeros
  refine ⟨⟨h.stackStart_eq, h.stackEnd_eq, h.heapPointer_eq.trans hchanged.heapPointer_eq, ?_⟩, ?_⟩
  · intro i hi
    refine (h.rest i fun place hmem hcovers => ?_).trans (hchanged.getElem?_eq i hi)
    obtain ⟨hstart, hstop⟩ := hinside place hmem
    unfold Place.Covers at hcovers
    omega
  · intro i hi hlt hnone
    have hzero := hstores (i - offset) (by omega)
    rw [Nat.add_sub_cancel' hi, List.getElem?_replicate, if_pos (by omega)] at hzero
    exact (h.rest i hnone).trans hzero

end Arena

namespace FrameLayout.Makes

variable {l : FrameLayout} {t : StructTable} {fd : FunctionDraft} {g : Function} {o : Operand}

/-- A parameter or result stands for the slot of its name, a fixed place of the frame. -/
theorem exists_slot (h : l.Makes fd g) (hgrows : l.structs.Grows t)
    (ho : o ∈ g.params ++ g.returns) : ∃ slot ∈ l.inOrder, slot.name = o.name ∧ slot.ty = o.ty ∧
      ∃ size, slot.ty.size t = .ok size ∧ slot.offset + size ≤ g.frameSize ∧
        ∀ a fp, o.place t a fp = .ok ⟨fp + slot.offset, o.ty, size⟩ := by
  obtain ⟨⟨name, ty⟩, -, rfl, rfl, hchain, offset, hstorage, slot, hslot, hname, hty, rfl⟩ :=
    h.exists_standsFor ho
  obtain ⟨size, hsize, -, hle⟩ :=
    (hgrows.tiled h.laidOut.tiled).inside (List.mem_map_of_mem hslot)
  dsimp only at hsize hle hty hname hstorage
  refine ⟨slot, hslot, hname, hty, size, hsize, h.frameSize_eq ▸ hle, fun a fp => ?_⟩
  rw [hty] at hsize
  rw [Operand.place_eq, hstorage, hchain]
  exact bind_eq_ok.mpr ⟨_, rfl, bind_eq_ok.mpr ⟨_, rfl, bind_eq_ok.mpr ⟨_, hsize, rfl⟩⟩⟩

/-- The place of a parameter or result in the frame at `fp`. -/
theorem exists_place (h : l.Makes fd g) (hgrows : l.structs.Grows t)
    (ho : o ∈ g.params ++ g.returns) (fp : Nat) : ∃ place : Place,
      (∀ a, o.place t a fp = .ok place) ∧ o.ty.size t = .ok place.size ∧ fp ≤ place.offset ∧
        place.offset + place.size ≤ fp + g.frameSize := by
  obtain ⟨slot, -, -, hty, size, hsize, hle, hplace⟩ := h.exists_slot hgrows ho
  refine ⟨_, (hplace · fp), hty ▸ hsize, Nat.le_add_right _ _, ?_⟩
  dsimp only
  omega

/-- Parameters with different names are places apart. -/
theorem pairwise_params (h : l.Makes fd g) (hgrows : l.structs.Grows t)
    (hnames : (fd.params.map (·.1)).Nodup) (fp : Nat) :
    g.params.Pairwise fun o o' => ∀ a b place place', o.place t a fp = .ok place →
      o'.place t b fp = .ok place' → place.Apart place' := by
  have hnames : g.params.Pairwise fun o o' => o.name ≠ o'.name := by
    apply pairwise_of_forall₂ h.params (List.pairwise_map.mp hnames)
    rintro entry - entry' - o o' ⟨hname, -⟩ ⟨hname', -⟩ hne heq
    exact hne (hname.symm.trans (heq.trans hname'))
  have htiled := List.pairwise_map.mp (hgrows.tiled h.laidOut.tiled).disjoint
  refine hnames.imp_of_mem fun {o o'} ho ho' hne a b place place' hplace hplace' i hi hi' => ?_
  obtain ⟨slot, hslot, hname, -, size, hsize, -, hat⟩ :=
    h.exists_slot hgrows (List.mem_append_left _ ho)
  obtain ⟨slot', hslot', hname', -, size', hsize', -, hat'⟩ :=
    h.exists_slot hgrows (List.mem_append_left _ ho')
  cases hplace.symm.trans (hat a fp)
  cases hplace'.symm.trans (hat' b fp)
  unfold Place.Covers at hi hi'
  dsimp only at hi hi'
  have hslots : slot ≠ slot' := by
    rintro rfl
    exact hne (hname.symm.trans hname')
  rcases or_of_pairwise htiled hslot hslot' hslots with hgap | hgap
  · have := hgap size hsize
    dsimp only at this
    omega
  · have := hgap size' hsize'
    dsimp only at this
    omega

end FrameLayout.Makes

namespace Machine

variable {m u : Machine} {fp : Nat} {o : Operand} {bytes : Bytes} {frame top : Frame}
  {outer : List Frame} {n : Node} {g function : Function} {callee : FunctionName}
  {signature : Signature}

/-- An input stands for these bytes: those at its place, or the address of the place when it is
passed by reference. -/
def Passes (m : Machine) (fp : Nat) (o : Operand) (bytes : Bytes) : Prop :=
  ∃ place, m.place fp o = .ok place ∧ match o.byReference with
    | true => place.offset ≤ Size.maxHandle ∧ LittleEndian.encode 4 place.offset = bytes
    | false => m.arena.read place.offset place.size = .ok bytes

theorem passes_iff : m.Passes fp o bytes ↔ o.bytes m.program.structs m.arena fp = .ok bytes := by
  unfold Passes Operand.bytes
  rw [bind_eq_ok]
  cases o.byReference with
  | true => simp only [if_true, encodeHandle_eq_ok]; rfl
  | false => rfl

/-- A result slot or output is a place that holds these bytes. -/
def ReadsAs (m : Machine) (fp : Nat) (o : Operand) (bytes : Bytes) : Prop :=
  ∃ place, m.place fp o = .ok place ∧ m.arena.read place.offset place.size = .ok bytes

/-- The call node has entered its callee. -/
structure Entered (m : Machine) (frame : Frame) (n : Node) (g : Function) (m' : Machine) :
    Prop where
  frames_eq : m'.stack.frames = g.frame m.nextFp frame.fp true :: m.stack.frames
  /-- Each parameter holds what its input stood for before the call. -/
  params : ∃ args, List.Forall₂ (m.Passes frame.fp) n.inputs args ∧
    List.Forall₂ (m'.ReadsAs m.nextFp) g.params args
  /-- The rest of the frame is zero. -/
  zero : ∀ i, m.nextFp ≤ i → i < m.nextFp + g.frameSize →
    (∀ o ∈ g.params, ∀ place, m'.place m.nextFp o = .ok place → ¬ place.Covers i) →
      m'.arena.image[i]? = some 0
  /-- Outside the frame nothing has changed. -/
  changedIn : m.arena.ChangedIn m'.arena m.nextFp g.frameSize

/-- The inputs can be read and have the widths of the parameters, and there is room for a frame. -/
structure CanEnter (m : Machine) (frame : Frame) (n : Node) (g : Function) : Prop where
  args : ∃ args, List.Forall₂ (m.Passes frame.fp) n.inputs args ∧
    List.Forall₂ (fun o bytes => o.ty.size m.program.structs = .ok bytes.length) g.params args
  room : m.nextFp + g.frameSize ≤ m.arena.stackEnd
  allocated : m.arena.stackEnd ≤ m.arena.heapPointer
  depth : m.depth < m.stack.maxDepth

/-- The call node has received the results of its callee. -/
structure Received (u : Machine) (top frame : Frame) (outer : List Frame) (n : Node) (g : Function)
    (t : Machine) : Prop where
  frames_eq : t.stack.frames = { frame with pc := frame.pc + 1 } :: outer
  /-- The result slots are read and the outputs that have one are found in the memory before. -/
  results : ∃ results places, List.Forall₂ (u.ReadsAs top.fp) g.returns results ∧
    List.Forall₂ (fun o place => u.place frame.fp o = .ok place) (n.outputs.take g.returns.length)
      places ∧
    u.arena.Receives t.arena places (results.take n.outputs.length)

/-- Each output leads to a place as wide as the result slot for it, if it has one. -/
def OutputsFit (u : Machine) (fp : Nat) (n : Node) (g : Function) : Prop :=
  ∀ (i : Nat) (o slot : Operand), n.outputs[i]? = some o → g.returns[i]? = some slot →
    ∃ place, u.place fp o = .ok place ∧ slot.ty.size u.program.structs = .ok place.size

/-- The result slots and the outputs that receive them are allocated, and the outputs fit. -/
structure CanReceive (u : Machine) (top frame : Frame) (n : Node) (g : Function) : Prop where
  slots : top.fp + g.frameSize ≤ u.arena.heapPointer
  outputs : u.OutputsFit frame.fp n g
  allocated : ∀ o ∈ n.outputs.take g.returns.length, ∀ place, u.place frame.fp o = .ok place →
    place.offset + place.size ≤ u.arena.heapPointer

/-- Storing arguments in parameters at fixed places. -/
theorem ends_storeArgs {t : StructTable} {a : Arena} {params : List Operand} {args : List Bytes}
    {places : List Place}
    (hplaces : List.Forall₂ (fun (o : Operand) place => ∀ b, o.place t b fp = .ok place) params
      places) (hlength : args.length = params.length) :
    Ends (storeArgs t fp params args) a (fun _ b => a.Receives b places args)
      (fun _ _ => ¬ List.Forall₂ a.Fits places args) := by
  induction hplaces generalizing a args with
  | nil =>
    cases List.eq_nil_of_length_eq_zero hlength
    exact a.receives_nil
  | @cons param place params places hplace hrest ih =>
    cases args with
    | nil => cases hlength
    | cons bytes args =>
      simp only [storeArgs, ends_bind, ends_query, hplace a, gives_ok, ends_ite, ends_throw,
        ends_update]
      refine ⟨fun hne hfits => ?_, fun heq => ?_⟩
      · cases hfits with
        | cons hfit _ => exact hne hfit.1
      · have hlen : bytes.length = place.size := not_not.mp heq
        apply Arena.gives_write.mono
        · rintro b ⟨hle, rfl⟩
          have hfit : a.Fits place bytes := ⟨hlen, hlen ▸ hle⟩
          apply (ih (Nat.succ.inj hlength)).mono
          · exact fun _ _ hreceives => .cons hfit rfl hreceives
          · intro _ _ hnot hfits
            cases hfits with
            | cons _ hfits => exact hnot (hfits.imp fun _ _ h => Arena.fits_overlay.mpr h)
        · rintro e ⟨hlt, -⟩ hfits
          cases hfits with
          | cons hfit _ =>
            obtain ⟨-, hle⟩ := hfit
            omega

section Laid

variable {l : FrameLayout} {fd : FunctionDraft} {args results : List Bytes}

/-- Entering a laid-out function with as many arguments as it has parameters. -/
theorem ends_enter_laid (h : l.Makes fd g) (hgrows : l.structs.Grows m.program.structs)
    (hnames : (fd.params.map (·.1)).Nodup) (hlength : args.length = g.params.length) :
    Ends (enter g m.nextFp frame.fp args true) m
      (fun _ m' => m'.stack.frames = g.frame m.nextFp frame.fp true :: m.stack.frames ∧
        List.Forall₂ (m'.ReadsAs m.nextFp) g.params args ∧
        (∀ i, m.nextFp ≤ i → i < m.nextFp + g.frameSize →
          (∀ o ∈ g.params, ∀ place, m'.place m.nextFp o = .ok place → ¬ place.Covers i) →
            m'.arena.image[i]? = some 0) ∧
        m.arena.ChangedIn m'.arena m.nextFp g.frameSize)
      (fun _ _ => m.nextFp + g.frameSize ≤ m.arena.stackEnd →
        m.arena.stackEnd ≤ m.arena.heapPointer → m.depth < m.stack.maxDepth →
          ¬ List.Forall₂ (fun o bytes => o.ty.size m.program.structs = .ok bytes.length)
            g.params args) := by
  obtain ⟨places, hplaces⟩ := exists_forall₂ fun o ho =>
    h.exists_place hgrows (List.mem_append_left g.returns ho) m.nextFp
  have hfixed := hplaces.imp fun _ _ hplace => hplace.1
  have hinside : ∀ place ∈ places, m.nextFp ≤ place.offset ∧
      place.offset + place.size ≤ m.nextFp + g.frameSize := by
    intro place hmem
    obtain ⟨o, -, -, -, hplace⟩ := exists_of_forall₂_right hplaces hmem
    exact hplace
  have hapart : places.Pairwise Place.Apart :=
    pairwise_of_forall₂ hfixed (h.pairwise_params hgrows hnames m.nextFp)
      fun _ _ _ _ _ _ hp hp' happart => happart m.arena m.arena _ _ (hp _) (hp' _)
  simp only [enter, ends_bind, ends_get, ends_ite, ends_throw, ends_update, CallStack.push,
    gives_bind, gives_ite, gives_ok, gives_error, gives_pure, ends_onArena]
  refine ⟨fun hfull hroom => absurd hfull (not_lt.mpr hroom), fun hroom => ⟨fun hdepth => ?_,
    fun hfull _ _ hdepth => absurd hdepth hfull⟩⟩
  apply Arena.gives_zero.mono
  · rintro b ⟨hle, rfl⟩
    have hle : m.nextFp + g.frameSize ≤ m.arena.heapPointer := hle
    apply (ends_storeArgs hfixed hlength).mono
    · intro _ c hreceives
      obtain ⟨hchanged, hzero⟩ := hreceives.of_zeroed hle hinside
      refine ⟨rfl, ?_, fun i hi hlt hnone => hzero i hi hlt fun place hmem => ?_, hchanged⟩
      · exact forall₂_of_forall₂ hfixed (hreceives.reads hapart)
          fun o _ place bytes hplace hread => ⟨place, hplace c, hread⟩
      · obtain ⟨o, ho, hplace⟩ := exists_of_forall₂_right hfixed hmem
        exact hnone o ho place (hplace c)
    · intro _ _ hnot _ _ _ hwidths
      refine hnot (forall₂_of_forall₂ hplaces.flip hwidths ?_)
      rintro place hmem o bytes ⟨-, hsize, -, hstop⟩ hwidth
      refine Arena.fits_overlay.mpr ⟨Except.ok.inj (hwidth.symm.trans hsize), ?_⟩
      exact hstop.trans hle
  · rintro e ⟨hlt, -⟩ _ hallocated
    have hlt : m.arena.heapPointer < m.nextFp + g.frameSize := hlt
    omega

theorem ends_callNode_entered (h : l.Makes fd g) (hgrows : l.structs.Grows m.program.structs)
    (hnames : (fd.params.map (·.1)).Nodup) (hcallee : m.program.function? callee = some g) :
    Ends (callNode frame.fp n callee) m (fun _ m' => m.Entered frame n g m')
      (fun _ _ => ¬ m.CanEnter frame n g) := by
  simp only [callNode, ends_bind, ends_get, ends_ofExcept, Program.function_eq_ok hcallee, gives_ok,
    ends_ite, ends_throw]
  refine ⟨fun hne hcan => ?_, fun heq => ?_⟩
  · obtain ⟨args, hinputs, hparams⟩ := hcan.args
    exact hne (hinputs.length_eq.trans hparams.length_eq.symm)
  · have hargs : Gives (n.inputs.mapM (·.bytes m.program.structs m.arena frame.fp))
        (List.Forall₂ (m.Passes frame.fp) n.inputs) (fun _ => ¬ m.CanEnter frame n g) := by
      apply gives_mapM
      intro o ho
      refine gives_iff.mpr ⟨fun bytes hbytes => passes_iff.mpr hbytes, fun e he hcan => ?_⟩
      obtain ⟨args, hinputs, -⟩ := hcan.args
      obtain ⟨bytes, -, hpasses⟩ := exists_of_forall₂_right hinputs.flip ho
      cases he.symm.trans (passes_iff.mp hpasses)
    apply hargs.imp
    intro args hinputs
    have hlength : args.length = g.params.length :=
      hinputs.length_eq.symm.trans (not_not.mp heq)
    apply (ends_enter_laid h hgrows hnames hlength).mono
    · rintro _ m' ⟨hframes, hparams, hzero, hchanged⟩
      exact ⟨hframes, ⟨args, hinputs, hparams⟩, hzero, hchanged⟩
    · intro _ _ hnot hcan
      obtain ⟨args', hinputs', hwidths⟩ := hcan.args
      have hunique : Relator.RightUnique (m.Passes frame.fp) := fun _ _ _ h h' =>
        Except.ok.inj ((passes_iff.mp h).symm.trans (passes_iff.mp h'))
      have hsame : args' = args := hunique.forall₂ hinputs' hinputs
      exact hnot hcan.room hcan.allocated hcan.depth (hsame ▸ hwidths)

/-- The result slots can be read as far as the frame is allocated. -/
theorem gives_readSlots_reads (h : l.Makes fd g) (hgrows : l.structs.Grows u.program.structs) :
    Gives (u.readSlots fp g.returns) (List.Forall₂ (fun o bytes => u.ReadsAs fp o bytes ∧
        o.ty.size u.program.structs = .ok bytes.length) g.returns)
      (fun _ => u.arena.heapPointer < fp + g.frameSize) := by
  apply gives_mapM
  intro o ho
  obtain ⟨place, hplace, hsize, -, hstop⟩ :=
    h.exists_place hgrows (List.mem_append_right g.params ho) fp
  have hplace : u.place fp o = .ok place := hplace u.arena
  rw [gives_bind, hplace, gives_ok]
  refine gives_iff.mpr ⟨fun bytes hbytes => ?_, fun e he => ?_⟩
  · obtain ⟨-, hlen, -⟩ := Arena.gives_read.value hbytes
    exact ⟨⟨place, hplace, hbytes⟩, hlen ▸ hsize⟩
  · exact (Arena.gives_read.failure he).1.trans_le hstop

/-- All outputs that receive a result are found, and none is of another width, or nothing is left to
be written. -/
theorem gives_resultWrites {os : List Operand} : Gives (u.resultWrites g fp os results)
    (fun writes => ∃ places,
      List.Forall₂ (fun o place => u.place fp o = .ok place) (os.take results.length) places ∧
      List.Forall₂ (fun place bytes => List.length bytes = Place.size place) places
        (results.take os.length) ∧
      writes = writesTo places (results.take os.length))
    (fun _ => ∃ (i : Nat) (o : Operand) (bytes : Bytes), os[i]? = some o ∧
      results[i]? = some bytes ∧
        ∀ place, u.place fp o = .ok place → bytes.length ≠ place.size) := by
  induction os generalizing results with
  | nil =>
    rw [List.take_nil]
    exact ⟨[], .nil, .nil, rfl⟩
  | cons o os ih =>
    cases results with
    | nil =>
      rw [List.take_nil]
      exact ⟨[], .nil, .nil, rfl⟩
    | cons bytes results =>
      simp only [resultWrites, gives_bind]
      refine gives_iff.mpr ⟨fun place hplace => ?_, fun e he => ?_⟩
      · simp only [gives_ite, gives_throw, gives_bind, gives_pure]
        refine ⟨fun hne => ⟨0, o, bytes, rfl, rfl, fun place' hplace' => ?_⟩, fun heq => ?_⟩
        · cases hplace.symm.trans hplace'
          exact hne
        · apply ih.mono
          · rintro _ ⟨places, hplaces, hwidths, rfl⟩
            exact ⟨place :: places, .cons hplace hplaces, .cons (not_not.mp heq) hwidths, rfl⟩
          · rintro _ ⟨i, o', bytes', ho, hbytes, hnone⟩
            exact ⟨i + 1, o', bytes', ho, hbytes, hnone⟩
      · refine ⟨0, o, bytes, rfl, rfl, fun place hplace => ?_⟩
        cases he.symm.trans hplace

/-- Storing the results of a laid-out function. -/
theorem ends_storeResults_laid (h : l.Makes fd g) (hgrows : l.structs.Grows u.program.structs) :
    Ends (storeResults top.fp g frame.fp n) u
      (fun _ t => t.stack = u.stack ∧ u.OutputsFit frame.fp n g ∧ ∃ results places,
        List.Forall₂ (u.ReadsAs top.fp) g.returns results ∧
        List.Forall₂ (fun o place => u.place frame.fp o = .ok place)
          (n.outputs.take g.returns.length) places ∧
        u.arena.Receives t.arena places (results.take n.outputs.length))
      (fun _ t => ¬ u.CanReceive top frame n g ∧
        (¬ u.OutputsFit frame.fp n g → t.arena = u.arena)) := by
  simp only [storeResults, ends_bind, ends_query, ends_onArena, gives_bind]
  apply (gives_readSlots_reads h hgrows).mono
  · intro results hresults
    have hlength : g.returns.length = results.length := hresults.length_eq
    apply gives_resultWrites.mono
    · rintro _ ⟨places, hplaces, hwidths, rfl⟩
      rw [← hlength] at hplaces
      have hfit : u.OutputsFit frame.fp n g := by
        intro i o slot ho hslot
        obtain ⟨bytes, hbytes, -, hsize⟩ := exists_getElem?_of_forall₂ hresults.flip hslot
        have hshort : i < g.returns.length := (List.getElem?_eq_some_iff.mp hslot).1
        have hshort' : i < n.outputs.length := (List.getElem?_eq_some_iff.mp ho).1
        rw [← List.getElem?_take_of_lt hshort] at ho
        rw [← List.getElem?_take_of_lt hshort'] at hbytes
        obtain ⟨place, hat, hplace⟩ := exists_getElem?_of_forall₂ hplaces.flip ho
        obtain ⟨_, hat', hwidth⟩ := exists_getElem?_of_forall₂ hwidths hbytes
        cases hat.symm.trans hat'
        exact ⟨place, hplace, hwidth ▸ hsize⟩
      apply Arena.ends_writeAll.mono
      · rintro _ _ ⟨hholds, rfl⟩
        have hfits := Arena.fits_of_holds hwidths hholds
        refine ⟨trivial, hfit, results, places, hresults.imp fun _ _ h => h.1, hplaces, ?_⟩
        exact Arena.receives_written hfits
      · rintro _ _ ⟨⟨w, hw, hnot, -⟩, -⟩
        refine ⟨fun hcan => hnot ?_, fun hnotFit => absurd hfit hnotFit⟩
        obtain ⟨place, hmem, bytes, hwidth, rfl⟩ := exists_of_mem_writesTo hwidths hw
        obtain ⟨o, ho, hplace⟩ := exists_of_forall₂_right hplaces hmem
        have hle := hcan.allocated o ho place hplace
        rw [← hwidth] at hle
        exact hle
    · rintro _ ⟨i, o, bytes, ho, hbytes, hnone⟩
      refine ⟨fun hcan => ?_, fun _ => trivial⟩
      obtain ⟨slot, hslot, -, hsize⟩ := exists_getElem?_of_forall₂ hresults hbytes
      obtain ⟨place, hplace, hwidth⟩ := hcan.outputs i o slot ho hslot
      exact hnone place hplace (Except.ok.inj (hsize.symm.trans hwidth))
  · exact fun _ hlt => ⟨fun hcan => absurd hcan.slots (not_le.mpr hlt), fun _ => trivial⟩

/-- A return from a laid-out function to a call node. -/
theorem ends_leave_laid (h : l.Makes fd g) (hgrows : l.structs.Grows u.program.structs)
    (hframes : u.stack.frames = top :: frame :: outer)
    (hcallee : u.program.function? top.function = some g) (hreturns : top.returnsToCaller = true)
    (hfun : u.program.function? frame.function = some function)
    (hn : function.body[frame.pc]? = some n) :
    Ends leave u (fun _ t => u.OutputsFit frame.fp n g ∧ u.Received top frame outer n g t)
      (fun _ t => ¬ u.CanReceive top frame n g ∧
        (¬ u.OutputsFit frame.fp n g → t.arena = u.arena)) := by
  rw [ends_leave_at_node hframes hreturns hcallee hfun hn]
  have hstored : Ends (storeResults top.fp g frame.fp n) (u.withFrames (frame :: outer)) _ _ :=
    ends_storeResults_laid h hgrows
  apply hstored.mono
  · rintro _ t ⟨hstack, hfit, results, places, hresults, hplaces, hreceives⟩
    refine ⟨hfit, ?_, results, places, hresults, hplaces, hreceives⟩
    have hbelow : t.stack.frames = frame :: outer := by
      rw [hstack]
      rfl
    rw [setPc_eq hbelow]
    rfl
  · rintro _ t ⟨hcannot, hsame⟩
    refine ⟨fun hcan => hcannot ⟨hcan.slots, hcan.outputs, hcan.allocated⟩, hsame⟩

end Laid

end Machine

/-- A call and a return move exactly the bytes of the inputs and results, for a callee that was laid
out with different parameter names. When the call node enters it, each parameter holds what its
input stood for, the rest of the new frame is zero, and nothing else has changed. When it returns,
the result slots and the places of the outputs are those of the memory before, each output receives
the result of its number, as far as there are so many, and nothing else has changed; if an output
does not lead to a place of the width of its result, the return fails and nothing has changed. An
output for which there is no result takes no part. -/
theorem call_transfer {m : Machine} {frame : Frame} {outer : List Frame} {function g : Function}
    {n : Node} {callee : FunctionName} {signature : Signature} {fd : FunctionDraft} {d : Draft}
    (hlayout : fd.layout d = .ok g) (hnames : (fd.params.map (·.1)).Nodup)
    (hgrows : d.structs.Grows m.program.structs) (hcallee : m.program.function? callee = some g)
    (hfun : m.program.function? frame.function = some function)
    (hn : function.body[frame.pc]? = some n) (hop : n.operator = some (.call callee signature)) :
    (m.stack.frames = frame :: outer →
      (∀ b m', Machine.advance m = .ok b m' → b = true ∧ m.Entered frame n g m') ∧
      (m.CanEnter frame n g → ∃ m', Machine.advance m = .ok true m')) ∧
    ∀ top, m.stack.frames = top :: frame :: outer → top.function = callee →
      top.returnsToCaller = true → g.body.length ≤ top.pc →
        (∀ b m', Machine.advance m = .ok b m' → b = false ∧ m.Received top frame outer n g m') ∧
        (m.CanReceive top frame n g → ∃ m', Machine.advance m = .ok false m') ∧
        (¬ m.OutputsFit frame.fp n g →
          ∃ e m', Machine.advance m = .error e m' ∧ m'.arena = m.arena) := by
  obtain ⟨l, rfl, hmakes⟩ := fd.layout_eq_ok hlayout
  constructor
  · intro hframes
    have hends : Ends Machine.advance m (fun b m' => b = true ∧ m.Entered frame n g m')
        (fun _ _ => ¬ m.CanEnter frame n g) := by
      rw [Machine.ends_advance_at_node hframes hfun hn]
      unfold Machine.executeAt
      rw [hop]
      exact (Machine.ends_callNode_entered hmakes hgrows hnames hcallee).imp
        fun _ _ hentered => ⟨rfl, hentered⟩
    refine ⟨fun b m' hm' => hends.value hm', fun hcan => ?_⟩
    cases hadvance : Machine.advance m with
    | ok b m' =>
      obtain ⟨rfl, -⟩ := hends.value hadvance
      exact ⟨m', rfl⟩
    | error e m' => exact absurd hcan (hends.failure hadvance)
  · rintro top hframes rfl hreturns hend
    have hends : Ends Machine.advance m
        (fun b m' => b = false ∧ m.OutputsFit frame.fp n g ∧ m.Received top frame outer n g m')
        (fun _ m' => ¬ m.CanReceive top frame n g ∧
          (¬ m.OutputsFit frame.fp n g → m'.arena = m.arena)) := by
      rw [Machine.ends_advance_at_end hframes hcallee (List.getElem?_eq_none hend)]
      exact (Machine.ends_leave_laid hmakes hgrows hframes hcallee hreturns hfun hn).imp
        fun _ _ hreceived => ⟨rfl, hreceived⟩
    refine ⟨fun b m' hm' => ?_, fun hcan => ?_, fun hnot => ?_⟩
    · obtain ⟨hb, -, hreceived⟩ := hends.value hm'
      exact ⟨hb, hreceived⟩
    · cases hadvance : Machine.advance m with
      | ok b m' =>
        obtain ⟨rfl, -⟩ := hends.value hadvance
        exact ⟨m', rfl⟩
      | error e m' => exact absurd hcan (hends.failure hadvance).1
    · cases hadvance : Machine.advance m with
      | ok b m' => exact absurd (hends.value hadvance).2.1 hnot
      | error e m' => exact ⟨e, m', rfl, (hends.failure hadvance).2 hnot⟩

/-- Returns its argument: the parameter and the result share a slot. -/
def sameDraft : FunctionDraft where
  package := "main"
  name := "same"
  params := [("x", .i32)]
  returns := [("x", .i32)]

def sameFunction : Function where
  package := "main"
  name := "same"
  params := [{ name := "x", ty := .i32, storage := .frame 0, declared := true, package := "main" }]
  returns := [{ name := "x", ty := .i32, storage := .frame 0, declared := true, package := "main" }]
  frameSize := 4

/-- Calls `same` on the first variable of the frame. -/
def sameCall (outputs : List Operand) : Node where
  operator := some (.call ⟨"main", "same"⟩ (.of [.i32] [.i32, .i32]))
  inputs := [{ name := "a", ty := .i32, storage := .frame 0 }]
  outputs := outputs

def callingFunction (outputs : List Operand) : Function where
  package := "main"
  name := "caller"
  body := [sameCall outputs]
  frameSize := 8

def callingFrame : Frame := (callingFunction []).frame 8 8 false

/-- A machine about to execute such a call, with 7 in the first variable. -/
def callingMachine (outputs : List Operand) : Machine where
  program := { functions := [callingFunction outputs, sameFunction] }
  primitives := .empty
  options := {}
  work := {
    arena := {
      image := #[0, 0, 0, 0, 0, 0, 0, 0, 7, 0, 0, 0, 0, 0, 0, 0, 0, 0, 0, 0]
      stackStart := 8, stackEnd := 20, capacity := 20, limit := 20 }
    random := .ofSeed 0 }
  stack := { frames := [callingFrame], maxDepth := 2 }

/-- The second variable of the frame. -/
def secondVariable : Operand := { name := "b", ty := .i32, storage := .frame 4 }

/-- The call copies the number to the second variable. -/
theorem call_transfer_callingMachine : ∃ m m',
    Machine.advance (callingMachine [secondVariable]) = .ok true m ∧
    (callingMachine [secondVariable]).Entered callingFrame (sameCall [secondVariable]) sameFunction
      m ∧
    Machine.advance m = .ok false m' ∧
    m.Received (sameFunction.frame 16 8 true) callingFrame [] (sameCall [secondVariable])
      sameFunction m' ∧
    m'.arena.image = #[0, 0, 0, 0, 0, 0, 0, 0, 7, 0, 0, 0, 7, 0, 0, 0, 7, 0, 0, 0] := by
  obtain ⟨m, m', henter, hframes, hprogram, hleave, himage⟩ : ∃ m m',
      Machine.advance (callingMachine [secondVariable]) = .ok true m ∧
        m.stack.frames = [sameFunction.frame 16 8 true, callingFrame] ∧
        m.program = (callingMachine [secondVariable]).program ∧
        Machine.advance m = .ok false m' ∧
        m'.arena.image = #[0, 0, 0, 0, 0, 0, 0, 0, 7, 0, 0, 0, 7, 0, 0, 0, 7, 0, 0, 0] :=
    ⟨_, _, rfl, rfl, rfl, rfl, rfl⟩
  have hlayout : sameDraft.layout {} = .ok sameFunction := rfl
  have hnames : (sameDraft.params.map (·.1)).Nodup := by decide
  have hsame : (callingMachine [secondVariable]).program.function? ⟨"main", "same"⟩ =
      some sameFunction := rfl
  have hcaller : (callingMachine [secondVariable]).program.function? callingFrame.function =
      some (callingFunction [secondVariable]) := rfl
  have hnode : (callingFunction [secondVariable]).body[callingFrame.pc]? =
      some (sameCall [secondVariable]) := rfl
  have hbefore := (call_transfer hlayout hnames .refl hsame hcaller hnode rfl).1 rfl
  have hafter : m.program.function? ⟨"main", "same"⟩ = some sameFunction ∧
      m.program.function? callingFrame.function = some (callingFunction [secondVariable]) := by
    rw [hprogram]
    exact ⟨hsame, hcaller⟩
  have hreturn := (call_transfer hlayout hnames (hprogram ▸ .refl) hafter.1 hafter.2 hnode rfl).2
    _ hframes rfl rfl (Nat.zero_le _)
  exact ⟨m, m', henter, (hbefore.1 _ _ henter).2, hleave, (hreturn.1 _ _ hleave).2, himage⟩

/-- An operand that leads nowhere, as its index is out of range. -/
def missingElement : Operand :=
  { name := "xs", ty := .array .i32 1, storage := .frame 4, chain := [.index (.const 9)] }

/-- With such an operand as a second output, for which there is no result, the call returns all the
same. -/
theorem surplus_output_ignored : ∃ m m' m'',
    m = callingMachine [secondVariable, missingElement] ∧
    sameDraft.layout {} = .ok sameFunction ∧ (sameDraft.params.map (·.1)).Nodup ∧
    m.program.function? ⟨"main", "same"⟩ = some sameFunction ∧
    (callingFunction [secondVariable, missingElement]).body[callingFrame.pc]? =
      some (sameCall [secondVariable, missingElement]) ∧
    Machine.advance m = .ok true m' ∧
    m'.stack.frames = [sameFunction.frame 16 8 true, callingFrame] ∧
    missingElement ∈ (sameCall [secondVariable, missingElement]).outputs ∧
    m'.place callingFrame.fp missingElement = .error (.indexOutOfRange 9 1) ∧
    Machine.advance m' = .ok false m'' ∧
    m''.stack.frames = [{ callingFrame with pc := 1 }] := by
  have hmem : missingElement ∈ (sameCall [secondVariable, missingElement]).outputs :=
    List.mem_cons_of_mem _ List.mem_cons_self
  have hnames : (sameDraft.params.map (·.1)).Nodup := by decide
  exact ⟨_, _, _, rfl, rfl, hnames, rfl, rfl, rfl, rfl, hmem, rfl, rfl, rfl⟩

end FlatMachine
