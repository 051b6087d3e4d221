import FlatMachine.Proofs.Declarations
import FlatMachine.Proofs.HandleFree

/-!
# What is read from the data segment

A draft only adds to its data segment. A global adds its zeroed bytes, a literal the bytes of its
value, and a literal string or slice an object with a handle behind it. So all of them lie one
behind the other, and whatever is added later, a machine finds there what was put down.
-/

namespace FlatMachine

/-- A string or slice, which is stored as an object. -/
def Ty.isObject : Ty → Bool
  | .str | .slice _ => true
  | _ => false

/-- What a draft has handed out for a place in the data segment. -/
inductive Datum where
  | global (o : Operand)
  | literal (o : Operand) (v : Value)

namespace Datum

def operand : Datum → Operand
  | global o | literal o _ => o

/-- A literal string or slice. -/
def isObject : Datum → Bool
  | global _ => false
  | literal o _ => o.ty.isObject

/-- A literal string or slice that is given by an address. -/
def isAddress : Datum → Bool
  | global _ => false
  | literal o v => v.isAddressOf o.ty

end Datum

/-- Bytes at an offset. -/
structure Piece where
  offset : Nat
  bytes : Bytes

/-- Ends where the bytes of the other begin, or earlier. -/
def Piece.Before (p q : Piece) : Prop := p.offset + p.bytes.length ≤ q.offset

/-- The bytes of the piece are those of the data from its offset on. -/
def Piece.Lies (p : Piece) (data : Bytes) : Prop :=
  ∃ front back, data = front ++ p.bytes ++ back ∧ front.length = p.offset

namespace Piece.Lies

variable {p : Piece} {data : Bytes}

theorem append (h : p.Lies data) (more : Bytes) : p.Lies (data ++ more) := by
  obtain ⟨front, back, rfl, hfront⟩ := h
  exact ⟨front, back ++ more, List.append_assoc .., hfront⟩

theorem stop_le (h : p.Lies data) : p.offset + p.bytes.length ≤ data.length := by
  obtain ⟨front, back, rfl, hfront⟩ := h
  rw [List.length_append, List.length_append, hfront]
  exact Nat.le_add_right _ _

end Piece.Lies

theorem lies_added (data bytes : Bytes) : Piece.Lies ⟨data.length, bytes⟩ (data ++ bytes) :=
  ⟨data, [], (List.append_nil _).symm, rfl⟩

/-- The pieces lie one behind the other between the ends. -/
structure Piece.Fill (start stop : Nat) (pieces : List Piece) : Prop where
  apart : pieces.Pairwise Piece.Before
  start_le : ∀ p ∈ pieces, start ≤ p.offset
  le_stop : ∀ p ∈ pieces, p.offset + p.bytes.length ≤ stop

namespace Piece.Fill

variable {start middle stop : Nat} {front back : List Piece}

theorem nil : Fill start stop [] := ⟨.nil, nofun, nofun⟩

theorem append (hfront : Fill start middle front) (hback : Fill middle stop back)
    (hstart : start ≤ middle) (hstop : middle ≤ stop) : Fill start stop (front ++ back) where
  apart := List.pairwise_append.mpr ⟨hfront.apart, hback.apart, fun p hp q hq =>
    (hfront.le_stop p hp).trans (hback.start_le q hq)⟩
  start_le p hp := (List.mem_append.mp hp).elim (hfront.start_le p) fun hp =>
    hstart.trans (hback.start_le p hp)
  le_stop p hp := (List.mem_append.mp hp).elim (fun hp => (hfront.le_stop p hp).trans hstop)
    (hback.le_stop p)

end Piece.Fill

namespace Draft

variable {d d' : Draft} {e : Edit} {x : Datum} {pieces : List Piece} {o : Operand} {v : Value}
  {ty : Ty} {start offset : Nat} {bytes : Bytes}

/-- What an edit of the draft hands out. -/
def handsOut (d : Draft) : Edit → Option Datum
  | .addGlobal package name ty =>
    match d.addGlobal package name ty with
    | .ok (o, _) => some (.global o)
    | .error _ => none
  | .addLiteral value ty =>
    match addLiteral value ty d with
    | .ok o _ => some (.literal o value)
    | .error .. => none
  | _ => none

/-- What the edits hand out, one after another. -/
def handedOut (d : Draft) : List Edit → List Datum
  | [] => []
  | e :: edits => (d.handsOut e).toList ++ (d.edit e).handedOut edits

/-- The data segment has these pieces for what was handed out, and the operand leads to the last of
them. -/
inductive Has (d : Draft) : Datum → List Piece → Prop where
  | global {o : Operand} {offset size : Nat} (hstorage : o.storage = .global offset)
      (hchain : o.chain = []) (hsize : o.ty.size d.structs = .ok size)
      (hlies : Piece.Lies ⟨offset, List.replicate size 0⟩ d.data) :
      Has d (.global o) [⟨offset, List.replicate size 0⟩]
  | word {o : Operand} {v : Value} {offset : Nat} {bytes : Bytes}
      (hstorage : o.storage = .global offset) (hchain : o.chain = [])
      (hobject : o.ty.isObject = false) (hbytes : v.encode o.ty = .ok bytes)
      (hlies : Piece.Lies ⟨offset, bytes⟩ d.data) : Has d (.literal o v) [⟨offset, bytes⟩]
  | object {o : Operand} {v : Value} {start : Nat} {bytes handle : Bytes}
      (hstorage : o.storage = .global (start + bytes.length)) (hchain : o.chain = [])
      (hobject : o.ty.isObject = true) (hbytes : v.encode o.ty = .ok bytes)
      (hhandle : encodeHandle start = .ok handle) (hlies : Piece.Lies ⟨start, bytes⟩ d.data)
      (hslot : Piece.Lies ⟨start + bytes.length, handle⟩ d.data) :
      Has d (.literal o v) [⟨start, bytes⟩, ⟨start + bytes.length, handle⟩]

theorem Has.lies (h : d.Has x pieces) : ∀ p ∈ pieces, p.Lies d.data := by
  cases h with
  | global _ _ _ hlies => simpa using hlies
  | word _ _ _ _ hlies => simpa using hlies
  | object _ _ _ _ _ hlies hslot => simpa using ⟨hlies, hslot⟩

/-- An edit keeps the struct layouts and the data there were. -/
structure Adds (d d' : Draft) : Prop where
  structs : d.structs.Grows d'.structs
  data : d.data <+: d'.data

theorem Adds.refl (d : Draft) : d.Adds d := ⟨.refl, List.prefix_rfl⟩

theorem Adds.trans {d'' : Draft} (h : d.Adds d') (h' : d'.Adds d'') : d.Adds d'' :=
  ⟨h.structs.trans h'.structs, h.data.trans h'.data⟩

theorem adds_edit (d : Draft) (e : Edit) : d.Adds (d.edit e) := by
  cases e with
  | defineStruct name fields =>
    rw [edit]
    split
    · rename_i h
      obtain ⟨⟨s, structs⟩, hdefine, h⟩ := bind_eq_ok.mp h
      cases h
      exact ⟨.define .refl hdefine, List.prefix_rfl⟩
    · exact .refl d
  | addGlobal package name ty =>
    rw [edit]
    split
    · rename_i h
      obtain ⟨size, -, h⟩ := bind_eq_ok.mp h
      cases h
      exact ⟨.refl, List.prefix_append _ _⟩
    · exact .refl d
  | addLiteral value ty =>
    rw [edit]
    unfold Draft.addLiteral
    dsimp only
    cases literalBytes d.data.length value ty with
    | error e => exact ⟨.refl, List.prefix_rfl⟩
    | ok found => exact ⟨.refl, List.prefix_append _ _⟩
  | declareFunction f signature => exact ⟨.refl, List.prefix_rfl⟩
  | addFunction f => exact ⟨.refl, List.prefix_rfl⟩

theorem adds_edits (d : Draft) (edits : List Edit) : d.Adds (edits.foldl edit d) := by
  induction edits generalizing d with
  | nil => exact .refl d
  | cons e edits ih => exact (adds_edit d e).trans (ih (d.edit e))

theorem Has.mono (h : d.Has x pieces) (hadds : d.Adds d') : d'.Has x pieces := by
  obtain ⟨more, hdata⟩ := hadds.data
  have hkept : ∀ {p : Piece}, p.Lies d.data → p.Lies d'.data := fun hp => hdata ▸ hp.append more
  cases h with
  | global hstorage hchain hsize hlies =>
    exact .global hstorage hchain (hadds.structs.size hsize) (hkept hlies)
  | word hstorage hchain hobject hbytes hlies =>
    exact .word hstorage hchain hobject hbytes (hkept hlies)
  | object hstorage hchain hobject hbytes hhandle hlies hslot =>
    exact .object hstorage hchain hobject hbytes hhandle (hkept hlies) (hkept hslot)

theorem literalBytes_object (hobject : ty.isObject = true)
    (h : literalBytes start v ty = .ok (bytes, offset)) : ∃ object handle,
      v.encode ty = .ok object ∧ encodeHandle start = .ok handle ∧ bytes = object ++ handle ∧
        offset = start + object.length := by
  obtain ⟨object, hencode, h⟩ := bind_eq_ok.mp h
  cases ty with
  | str | slice =>
    obtain ⟨handle, hhandle, h⟩ := bind_eq_ok.mp h
    cases h
    exact ⟨object, handle, hencode, hhandle, rfl, rfl⟩
  | _ => cases hobject

theorem literalBytes_word (hobject : ty.isObject = false)
    (h : literalBytes start v ty = .ok (bytes, offset)) :
    v.encode ty = .ok bytes ∧ offset = start := by
  obtain ⟨encoded, hencode, h⟩ := bind_eq_ok.mp h
  cases ty with
  | str | slice => cases hobject
  | _ =>
    cases h
    exact ⟨hencode, rfl⟩

theorem has_of_addGlobal {package name : String} (h : d.addGlobal package name ty = .ok (o, d')) :
    ∃ pieces, d'.Has (.global o) pieces ∧ Piece.Fill d.data.length d'.data.length pieces := by
  obtain ⟨size, hsize, h⟩ := bind_eq_ok.mp h
  cases h
  refine ⟨_, .global rfl rfl hsize (lies_added _ _), List.pairwise_singleton _ _, ?_, ?_⟩
  · simp
  · simp

theorem has_of_addLiteral (h : addLiteral v ty d = .ok o d') :
    ∃ pieces, d'.Has (.literal o v) pieces ∧ Piece.Fill d.data.length d'.data.length pieces := by
  unfold addLiteral at h
  dsimp only at h
  split at h
  · cases h
  rename_i bytes offset hbytes
  cases h
  cases hobject : ty.isObject with
  | true =>
    obtain ⟨object, handle, hencode, hhandle, rfl, rfl⟩ := literalBytes_object hobject hbytes
    have hslot := lies_added (d.data ++ object) handle
    rw [List.length_append, List.append_assoc] at hslot
    have hlies := (lies_added d.data object).append handle
    rw [List.append_assoc] at hlies
    refine ⟨_, .object rfl rfl hobject hencode hhandle hlies hslot, ?_, ?_, ?_⟩
    · simp [Piece.Before]
    · simp
    · simp only [List.mem_cons, List.not_mem_nil, or_false, forall_eq_or_imp, forall_eq,
        List.length_append]
      omega
  | false =>
    obtain ⟨hencode, rfl⟩ := literalBytes_word hobject hbytes
    refine ⟨_, .word rfl rfl hobject hencode (lies_added _ _), List.pairwise_singleton _ _, ?_, ?_⟩
    · simp
    · simp

/-- What an edit hands out has its pieces behind the data there was. -/
theorem has_of_handsOut (h : d.handsOut e = some x) :
    ∃ pieces, (d.edit e).Has x pieces ∧ Piece.Fill d.data.length (d.edit e).data.length pieces := by
  cases e with
  | addGlobal package name ty =>
    simp only [handsOut] at h
    split at h
    · rename_i o d' hadded
      cases h
      simp only [edit, hadded]
      exact has_of_addGlobal hadded
    · cases h
  | addLiteral value ty =>
    simp only [handsOut] at h
    split at h
    · rename_i o d' hadded
      cases h
      simp only [edit, hadded]
      exact has_of_addLiteral hadded
    · cases h
  | _ => cases h

/-- Whatever was handed out has its pieces, and no two of them have a byte in common. -/
theorem has_handedOut (d : Draft) (edits : List Edit) : ∃ pieces,
    List.Forall₂ (edits.foldl edit d).Has (d.handedOut edits) pieces ∧
      Piece.Fill d.data.length (edits.foldl edit d).data.length pieces.flatten := by
  induction edits generalizing d with
  | nil => exact ⟨[], .nil, .nil⟩
  | cons e edits ih =>
    obtain ⟨pieces, hpieces, hfill⟩ := ih (d.edit e)
    have hfirst := (adds_edit d e).data.length_le
    have hrest := (adds_edits (d.edit e) edits).data.length_le
    cases h : d.handsOut e with
    | none =>
      rw [handedOut, h]
      exact ⟨pieces, hpieces, Piece.Fill.nil.append hfill hfirst hrest⟩
    | some x =>
      obtain ⟨own, hown, hstart⟩ := has_of_handsOut h
      rw [handedOut, h]
      exact ⟨own :: pieces, .cons (hown.mono (adds_edits _ edits)) hpieces,
        hstart.append hfill hfirst hrest⟩

end Draft

section Encoded

variable {v : Value} {ty : Ty} {bytes : Bytes} {a : Arena} {handle : Nat}

theorem Value.isAddressOf_of_isObject (hobject : ty.isObject = false) :
    v.isAddressOf ty = false := by
  unfold Value.isAddressOf
  split
  · cases hobject
  · cases hobject
  · rfl

theorem Value.size_of_encode (hobject : ty.isObject = false) (h : v.encode ty = .ok bytes)
    (t : StructTable) : ty.size t = .ok bytes.length := by
  have hlength := (encode_length_decode [] h (isAddressOf_of_isObject hobject)).1 t
  unfold Value.encodedLength at hlength
  split at hlength
  · cases hobject
  · cases hobject
  · exact hlength

/-- A string or slice is encoded as the listing of its elements. -/
theorem Value.listing_of_encode (hobject : ty.isObject = true) (hplain : v.isAddressOf ty = false)
    (h : v.encode ty = .ok bytes) : ∃ o : Listing, o.Sound ∧ bytes = o.bytes ∧
      (ty = .str ∧ o.width = 1 ∨ ∃ elem, ty = .slice elem ∧ elem.elementWidth = .ok o.width) := by
  cases ty with
  | str =>
    cases v with
    | str text =>
      obtain ⟨header, hheader, h⟩ := bind_eq_ok.mp h
      obtain ⟨hcount, rfl⟩ := encodeHandle_eq_ok.mp hheader
      cases h
      refine ⟨.ofText text, ⟨Nat.one_pos, by simp [Listing.ofText], ?_⟩, ?_, .inl ⟨rfl, rfl⟩⟩
      · simpa [Listing.ofText] using hcount
      · simp [Listing.bytes, Listing.ofText, ← List.flatMap_def]
    | pointer offset => cases hplain
    | _ => cases h
  | slice elem =>
    cases v with
    | slice items =>
      obtain ⟨o, ho, rfl, hcount⟩ := (Arena.gives_encode_slice elem items).value h
      obtain ⟨hlen, hpos, hwidth⟩ := Listing.ofItems_eq_ok ho
      obtain ⟨width, helem, ho⟩ := bind_eq_ok.mp ho
      obtain ⟨elements, -, ho⟩ := bind_eq_ok.mp ho
      cases ho
      exact ⟨_, ⟨hpos, hwidth, hlen ▸ hcount⟩, rfl, .inr ⟨elem, rfl, helem⟩⟩
    | pointer offset => cases hplain
    | _ => cases h
  | _ => cases hobject

/-- The object that a string or slice is encoded as is read as that value. -/
theorem Arena.readObject_of_encode (hobject : ty.isObject = true)
    (hplain : v.isAddressOf ty = false) (h : v.encode ty = .ok bytes)
    (hstores : a.Stores handle bytes) (hnil : handle ≠ nilHandle) :
    a.readObject handle ty = .ok v := by
  have hdecode := (encode_length_decode [] h hplain).2
  rw [List.append_nil] at hdecode
  obtain ⟨o, hsound, rfl, hty⟩ := Value.listing_of_encode hobject hplain h
  have hshows : a.Shows handle o.width o.elements :=
    HasObject.shows ⟨hsound, fun _ => hstores, fun heq => absurd heq hnil⟩
  obtain ⟨hlength, hpayload⟩ := hshows
  rw [Listing.bytes] at hdecode
  rcases hty with ⟨rfl, hwidth⟩ | ⟨elem, rfl, hwidth⟩
  · rw [hwidth] at hpayload
    simp only [readObject, if_neg hnil, hlength, hpayload, bind, Except.bind, hdecode]
  · simp only [readObject, hwidth, if_neg hnil, hlength, hpayload, bind, Except.bind, hdecode]

theorem Ty.size_of_isObject (hobject : ty.isObject = true) (t : StructTable) :
    ty.size t = .ok Ty.handleWidth := by
  cases ty with
  | str | slice => rfl
  | _ => cases hobject

theorem length_encodeHandle {n : Nat} (h : encodeHandle n = .ok bytes) :
    bytes.length = Ty.handleWidth := by
  obtain ⟨-, rfl⟩ := encodeHandle_eq_ok.mp h
  exact LittleEndian.length_encode ..

theorem Arena.readHandle_of_encodeHandle {n offset : Nat} (h : encodeHandle n = .ok bytes)
    (hread : a.read offset bytes.length = .ok bytes) : a.readHandle offset = .ok n := by
  have hlength : bytes.length = 4 := length_encodeHandle h
  obtain ⟨hle, rfl⟩ := encodeHandle_eq_ok.mp h
  rw [hlength] at hread
  rw [readHandle, hread]
  exact congrArg Except.ok (LittleEndian.decode_encode (le_maxHandle_iff.mp hle))

end Encoded

namespace Machine

variable {d d' : Draft} {p : Program} {table : PrimitiveTable} {options : Options} {host : Host}
  {m m' : Machine} {x : Datum} {pieces : List Piece} {fp : Nat}

/-- The machine has just been loaded with the program of a draft. -/
structure Loads (d : Draft) (m : Machine) : Prop where
  structs_eq : m.program.structs = d.structs
  stackStart_eq : m.arena.stackStart = max d.data.length nilGuard
  stores : m.arena.Stores 0 d.data
  length_le : d.data.length ≤ m.arena.heapPointer

theorem loads_of_create (hbuild : d.build = .ok p)
    (hcreate : create p table options host = .ok m) : Loads d m := by
  unfold Draft.build at hbuild
  split at hbuild
  · cases hbuild
  cases hbuild
  obtain ⟨_, -, hcreate⟩ := bind_eq_ok.mp hcreate
  obtain ⟨a, harena, hcreate⟩ := bind_eq_ok.mp hcreate
  cases hcreate
  obtain ⟨-, rfl⟩ := Arena.withLayout_eq_ok harena
  refine ⟨rfl, rfl, fun i hi => ?_, ?_⟩
  · rw [Nat.zero_add]
    simp only [arena]
    rw [Array.getElem?_append_left (by simpa using hi)]
    simp
  · simp [arena, Arena.heapPointer]

/-- The bytes of a piece of the data segment. -/
theorem Loads.stores_piece {q : Piece} (h : Loads d m) (hlies : q.Lies d.data) :
    m.arena.Stores q.offset q.bytes := by
  obtain ⟨front, back, hdata, hfront⟩ := hlies
  have hstores := h.stores
  rw [hdata] at hstores
  have hfound := (Arena.stores_append.mp (Arena.stores_append.mp hstores).1).2
  rwa [Nat.zero_add, hfront] at hfound

theorem Loads.read_piece {q : Piece} (h : Loads d m) (hlies : q.Lies d.data) :
    m.arena.read q.offset q.bytes.length = .ok q.bytes :=
  (h.stores_piece hlies).read (hlies.stop_le.trans h.length_le)

theorem place_global (m : Machine) (fp : Nat) {o : Operand} {offset size : Nat}
    (hstorage : o.storage = .global offset) (hchain : o.chain = [])
    (hsize : o.ty.size m.program.structs = .ok size) :
    m.place fp o = .ok ⟨offset, o.ty, size⟩ := by
  rw [place, Operand.place_eq, hstorage, hchain]
  change (o.ty.size m.program.structs >>= fun size => pure (⟨offset, o.ty, size⟩ : Place)) = _
  rw [hsize]
  rfl

/-- The pieces of memory that belong to what was handed out: the place to which the operand leads,
and for a literal string or slice in front of it the object whose handle lies there. -/
inductive Occupies (m : Machine) (fp : Nat) : Datum → List Piece → Prop where
  | slot {x : Datum} {place : Place} {bytes : Bytes} (hobject : x.isObject = false)
      (hplace : m.place fp x.operand = .ok place)
      (hread : m.arena.read place.offset place.size = .ok bytes) :
      Occupies m fp x [⟨place.offset, bytes⟩]
  | object {o : Operand} {v : Value} {place : Place} {start : Nat} {bytes handle : Bytes}
      (hobject : o.ty.isObject = true) (hplace : m.place fp o = .ok place)
      (hread : m.arena.read place.offset place.size = .ok handle)
      (hhandle : m.arena.readHandle place.offset = .ok start) (hbytes : v.encode o.ty = .ok bytes)
      (hstored : m.arena.read start bytes.length = .ok bytes) :
      Occupies m fp (.literal o v) [⟨start, bytes⟩, ⟨place.offset, handle⟩]

/-- A global is read as zeroes, and a literal as its value. -/
def Reads (m : Machine) (fp : Nat) : Datum → Prop
  | .global o => ∃ place, m.place fp o = .ok place ∧ o.ty.size m.program.structs = .ok place.size ∧
      m.arena.read place.offset place.size = .ok (List.replicate place.size 0)
  | .literal o v => v.isAddressOf o.ty = false → m.value fp o = .ok v

theorem value_of_read {o : Operand} {place : Place} {bytes : Bytes}
    (hplace : m.place fp o = .ok place) (hobject : place.ty.isObject = false)
    (hread : m.arena.read place.offset place.size = .ok bytes) :
    m.value fp o = place.ty.decode bytes := by
  unfold value Operand.value
  rw [show o.place m.program.structs m.arena fp = .ok place from hplace]
  obtain ⟨offset, ty, size⟩ := place
  cases ty with
  | str | slice => cases hobject
  | _ => simp only [bind, Except.bind, hread]

theorem value_of_readHandle {o : Operand} {place : Place} {start : Nat}
    (hplace : m.place fp o = .ok place) (hobject : place.ty.isObject = true)
    (hhandle : m.arena.readHandle place.offset = .ok start) :
    m.value fp o = m.arena.readObject start place.ty := by
  unfold value Operand.value
  rw [show o.place m.program.structs m.arena fp = .ok place from hplace]
  obtain ⟨offset, ty, size⟩ := place
  cases ty with
  | str | slice => simp only [bind, Except.bind, hhandle]
  | _ => cases hobject

theorem Loads.occupies (h : Loads d m) (hhas : d.Has x pieces) : m.Occupies fp x pieces := by
  cases hhas with
  | @global o offset size hstorage hchain hsize hlies =>
    have hplace := place_global m fp hstorage hchain (h.structs_eq ▸ hsize)
    have hread := h.read_piece hlies
    rw [List.length_replicate] at hread
    exact .slot (x := .global o) rfl hplace hread
  | @word o v offset bytes hstorage hchain hobject hbytes hlies =>
    have hplace := place_global m fp hstorage hchain
      (Value.size_of_encode hobject hbytes _)
    exact .slot (x := .literal o v) hobject hplace (h.read_piece hlies)
  | @object o v start bytes handle hstorage hchain hobject hbytes hhandle hlies hslot =>
    have hplace := place_global m fp hstorage hchain (Ty.size_of_isObject hobject _)
    have hread := h.read_piece hslot
    have hfound := Arena.readHandle_of_encodeHandle hhandle hread
    rw [length_encodeHandle hhandle] at hread
    exact .object hobject hplace hread hfound hbytes (h.read_piece hlies)

theorem Loads.reads (h : Loads d m) (hhas : d.Has x pieces)
    (hguard : ∀ q ∈ pieces, nilGuard ≤ q.offset) : m.Reads fp x := by
  cases hhas with
  | @global o offset size hstorage hchain hsize hlies =>
    have hread := h.read_piece hlies
    rw [List.length_replicate] at hread
    rw [← h.structs_eq] at hsize
    exact ⟨_, place_global m fp hstorage hchain hsize, hsize, hread⟩
  | @word o v offset bytes hstorage hchain hobject hbytes hlies =>
    intro hplain
    have hplace := place_global m fp hstorage hchain
      (Value.size_of_encode hobject hbytes _)
    rw [value_of_read hplace hobject (h.read_piece hlies)]
    have hdecode := (encode_length_decode [] hbytes hplain).2
    rwa [List.append_nil] at hdecode
  | @object o v start bytes handle hstorage hchain hobject hbytes hhandle hlies hslot =>
    intro hplain
    have hplace := place_global m fp hstorage hchain (Ty.size_of_isObject hobject _)
    have hfound := Arena.readHandle_of_encodeHandle hhandle (h.read_piece hslot)
    have hnil : start ≠ nilHandle := by
      have hle : nilGuard ≤ start := hguard ⟨start, bytes⟩ List.mem_cons_self
      exact Nat.ne_of_gt (Nat.lt_of_lt_of_le (by decide) hle)
    rw [value_of_readHandle hplace hobject hfound]
    exact Arena.readObject_of_encode hobject hplain hbytes (h.stores_piece hlies) hnil

/-- What is read where there are only zeroes. -/
def zeroValue (ty : Ty) (width : Nat) : Except Error Value :=
  if ty.isObject then Arena.readObject default nilHandle ty else ty.decode (List.replicate width 0)

theorem Loads.value_global {o : Operand} {size : Nat} (h : Loads d m)
    (hhas : d.Has (.global o) pieces) (hsize : o.ty.size d.structs = .ok size) :
    m.value fp o = zeroValue o.ty size := by
  cases hhas with
  | @global o offset size' hstorage hchain hsize' hlies =>
    cases hsize.symm.trans hsize'
    have hread := h.read_piece hlies
    rw [List.length_replicate] at hread
    rw [← h.structs_eq] at hsize
    have hplace := place_global m fp hstorage hchain hsize
    unfold zeroValue
    cases hobject : o.ty.isObject with
    | false => exact value_of_read hplace hobject hread
    | true =>
      cases hsize.symm.trans (Ty.size_of_isObject hobject _)
      have hnil : m.arena.readHandle offset = .ok nilHandle := by
        rw [Arena.readHandle, show m.arena.read offset 4 = _ from hread]
        rfl
      rw [value_of_readHandle hplace hobject hnil]
      cases o.ty <;> rfl

theorem Loads.value_eq (h : Loads d m) (h' : Loads d' m') (hadds : d.Adds d')
    (hhas : d.Has x pieces) (hguard : ∀ q ∈ pieces, nilGuard ≤ q.offset)
    (hplain : x.isAddress = false) : m'.value fp x.operand = m.value fp x.operand := by
  have hhas' := hhas.mono hadds
  cases x with
  | global o =>
    have hglobal := hhas
    cases hhas with
    | global _ _ hsize _ =>
      exact (h'.value_global hhas' (hadds.structs.size hsize)).trans
        (h.value_global hglobal hsize).symm
  | literal o v => exact (h'.reads hhas' hguard hplain).trans (h.reads hhas hguard hplain).symm

end Machine

/-- Whatever is done to a draft, a machine that is loaded with its program reads every global as
zeroes and every literal as its value. The pieces of memory that belong to them lie one behind the
other in the data segment; and whatever else is done to the draft first, the same bytes lie at the
same places, and the same values are read. -/
theorem data_segment_faithful (edits : List Edit) {p : Program} {table : PrimitiveTable}
    {options : Options} {host : Host} {m : Machine} (hbuild : (Draft.edited edits).build = .ok p)
    (hcreate : Machine.create p table options host = .ok m) (fp : Nat) :
    (∀ x ∈ Draft.handedOut {} edits, m.Reads fp x) ∧
    ∃ pieces, List.Forall₂ (m.Occupies fp) (Draft.handedOut {} edits) pieces ∧
      Piece.Fill nilGuard m.arena.stackStart pieces.flatten ∧
      ∀ later p' table' options' host' m', (Draft.edited (edits ++ later)).build = .ok p' →
        Machine.create p' table' options' host' = .ok m' →
        List.Forall₂ (m'.Occupies fp) (Draft.handedOut {} edits) pieces ∧
        ∀ x ∈ Draft.handedOut {} edits, x.isAddress = false →
          m'.value fp x.operand = m.value fp x.operand := by
  have hload := Machine.loads_of_create hbuild hcreate
  obtain ⟨pieces, hpieces, hfill⟩ := Draft.has_handedOut {} edits
  have hguard : ∀ own ∈ pieces, ∀ q ∈ own, nilGuard ≤ q.offset := fun own hown q hq =>
    hfill.start_le q (List.mem_flatten_of_mem hown hq)
  refine ⟨fun x hx => ?_, pieces, ?_, ?_, ?_⟩
  · obtain ⟨own, hown, hhas⟩ := exists_of_forall₂_right hpieces.flip hx
    exact hload.reads hhas (hguard own hown)
  · exact hpieces.imp fun x own hhas => hload.occupies hhas
  · refine ⟨hfill.apart, hfill.start_le, fun q hq => (hfill.le_stop q hq).trans ?_⟩
    rw [hload.stackStart_eq]
    exact Nat.le_max_left _ _
  · intro later p' table' options' host' m' hbuild' hcreate'
    have hload' := Machine.loads_of_create hbuild' hcreate'
    have hadds : (Draft.edited edits).Adds (Draft.edited (edits ++ later)) := by
      rw [Draft.edited, Draft.edited, List.foldl_append]
      exact Draft.adds_edits _ later
    refine ⟨hpieces.imp fun x own hhas => hload'.occupies (hhas.mono hadds), fun x hx hplain => ?_⟩
    obtain ⟨own, hown, hhas⟩ := exists_of_forall₂_right hpieces.flip hx
    exact hload.value_eq hload' hadds hhas (hguard own hown) hplain

/-- A global and two literals; the literal between them is not one of its type. -/
def labelEdits : List Edit := [.addGlobal "main" "count" (.int .i32), .addLiteral (.str "hi") .str,
  .addLiteral (.str "no") .bool, .addLiteral (.i32 7) (.int .i32)]

def labelOptions : Options where
  stackSize := 8
  initialHeapSize := 4
  maxMemory := 64
  maxCallDepth := 1

/-- The literal `"hi"`, whose handle lies behind the global and the object. -/
def label : Operand := { name := "$lit0", ty := .str, storage := .global 18, declared := true }

theorem data_segment_faithful_labelEdits : ∃ p m, (Draft.edited labelEdits).build = .ok p ∧
    Machine.create p { entries := [] } labelOptions = .ok m ∧
      m.value 30 label = .ok (.str "hi") ∧
      ∃ pieces, List.Forall₂ (m.Occupies 30) (Draft.handedOut {} labelEdits) pieces ∧
        Piece.Fill nilGuard m.arena.stackStart pieces.flatten := by
  obtain ⟨p, m, hbuild, hcreate⟩ : ∃ p m, (Draft.edited labelEdits).build = .ok p ∧
      Machine.create p { entries := [] } labelOptions = .ok m := ⟨_, _, rfl, rfl⟩
  obtain ⟨hreads, pieces, hpieces, hfill, -⟩ :=
    data_segment_faithful labelEdits hbuild hcreate 30
  have hmem : Datum.literal label (.str "hi") ∈ Draft.handedOut {} labelEdits :=
    .tail _ (.head _)
  exact ⟨p, m, hbuild, hcreate, hreads _ hmem rfl, pieces, hpieces, hfill⟩

end FlatMachine
