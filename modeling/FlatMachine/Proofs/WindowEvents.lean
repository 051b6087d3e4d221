import FlatMachine.Native.Windows
import FlatMachine.Proofs.Postcondition
import Mathlib.Algebra.Group.Nat.Defs

/-!
# Where the events of windows go

What is done to windows, by a program through the registry and from outside through the backend, is
written down in a log. Which handle a name has, where the events of a window go and which events
wait is read off the log alone, without the tables of the registry. After any calls in any order the
registry agrees with its log.
-/

namespace FlatMachine.Window

open FlatMachine.Action

/-- What is done to the backend from outside; its windows have numbers. -/
inductive Control where
  | key (window : Nat) (code scancode action mods : Int)
  | moveCursor (window : Nat) (x y : BitVec 64)
  | resize (window : Nat) (width height : Int)
  | requestClose (window : Nat)
  | advance (seconds : BitVec 64)

namespace Control

def apply (b : Headless) : Control → Except Error Headless
  | key window code scancode action mods => .ok (b.key window code scancode action mods)
  | moveCursor window x y => b.moveCursor window x y
  | resize window width height => b.resize window width height
  | requestClose window => b.requestClose window
  | advance seconds => .ok (b.advance seconds)

/-- The window that has to be there. -/
def window? : Control → Option Nat
  | moveCursor window .. | resize window .. | requestClose window => some window
  | key .. | advance _ => none

/-- The event that is brought about. -/
def event? : Control → Option Event
  | key window code scancode action mods => some (.key window code scancode action mods)
  | moveCursor window x y => some (.cursor window x y)
  | resize window width height => some (.size window width height)
  | requestClose _ | advance _ => none

end Control

/-- What is done to the windows of a host: a program creates windows, says where their events go and
polls, and the backend is scripted. -/
inductive Call where
  | create (name : String) (width height : Int) (title : String)
  | setTarget (name : String) (kind : EventKind) (f : FunctionName)
  | poll
  | control (c : Control)

/-- A change of the registry of a host, without an answer. -/
def change (f : Registry → Except Error Registry) : Action Host (Option Nat) := do
  Action.update fun h => return { h with windows := ← f h.windows }
  return none

/-- Makes the call. It answers the handle of the new window, or the number of callbacks queued. -/
def Call.perform : Call → Action Host (Option Nat)
  | create name width height title => Action.advance fun h => do
    let (handle, windows) ← h.windows.create name width height title
    return (some handle, { h with windows })
  | setTarget name kind f => change (·.setTarget name kind f)
  | poll => fun h =>
    let (callbacks, windows) := h.windows.poll
    .ok (some callbacks.length) { windows, callbacks := h.callbacks ++ callbacks }
  | control c => change fun r => return { r with host := ← c.apply r.host }

/-- The operator that polls makes the call on the host. -/
theorem Op.pollEvents_performs (s : Site) (w : Workspace) : ∃ count host,
    Call.poll.perform w.host = .ok (some count) host ∧
      Op.pollEvents.body s w = .ok s.noOutputs { w with host } :=
  ⟨_, _, rfl, rfl⟩

/-- The calls that were not refused, the latest first, and their answers. -/
abbrev Log := List (Call × Option Nat)

namespace Log

/-- The names under which windows were created, in order. -/
def opened : Log → List String
  | [] => []
  | (.create name .., _) :: log => opened log ++ [name]
  | _ :: log => opened log

/-- The handle that the latest creation under the name was answered with. -/
def bound (name : String) : Log → Option Nat
  | [] => none
  | (.create name' .., handle) :: log => if name' = name then handle else bound name log
  | _ :: log => bound name log

/-- The function to which the events of a kind were last sent by a name that had the handle then. -/
def target (handle : Nat) (kind : EventKind) : Log → Option FunctionName
  | [] => none
  | (.setTarget name kind' f, _) :: log =>
    if bound name log = some handle ∧ kind' = kind then some f else target handle kind log
  | _ :: log => target handle kind log

/-- The events since the latest poll, in order. -/
def waiting : Log → List Event
  | [] => []
  | (.poll, _) :: _ => []
  | (.control c, _) :: log => waiting log ++ c.event?.toList
  | _ :: log => waiting log

/-- The callback of an event, if the events of its kind of the window go anywhere. -/
def callback? (log : Log) (event : Event) : Option Callback :=
  (target event.window event.kind log).map fun f => ⟨f, event.args event.window⟩

end Log

/-- The hosts that calls lead to from a host, and the logs of the calls. The queue of callbacks is
not theirs alone: others append to it and take from it. -/
inductive History (h₀ : Host) : Log → Host → Prop where
  | start : History h₀ [] h₀
  | answered {log : Log} {h h' : Host} {call : Call} {answer : Option Nat} (hist : History h₀ log h)
      (hcall : call.perform h = .ok answer h') : History h₀ ((call, answer) :: log) h'
  | refused {log : Log} {h h' : Host} {call : Call} {e : Error} (hist : History h₀ log h)
      (hcall : call.perform h = .error e h') : History h₀ log h'
  | others {log : Log} {h : Host} (callbacks : List Callback) (hist : History h₀ log h) :
      History h₀ log { h with callbacks }

/-- The tables of the registry and the windows and events of the backend are as the log has them. -/
structure Registry.Follows (r : Registry) (log : Log) : Prop where
  names_eq : r.entries.map (·.name) = log.opened
  panes_eq : r.host.panes.length = r.entries.length
  window_eq : ∀ (i : Nat) (entry : Entry), r.entries[i]? = some entry → entry.window = i + 1
  handles_eq : ∀ name, r.handles.lookup name = log.bound name
  bound_opened : ∀ name handle, log.bound name = some handle →
    ∃ i, handle = i + 1 ∧ log.opened[i]? = some name
  target_zero : ∀ kind, log.target 0 kind = none
  target_eq : ∀ (i : Nat) (kind : EventKind),
    r.entries[i]?.bind (·.target? kind) = log.target (i + 1) kind
  events_eq : r.host.events = log.waiting

section Calls

variable {h h' : Host} {log : Log} {call : Call} {answer : Option Nat} {e : Error}

theorem ends_change {f : Registry → Except Error Registry} : Ends (change f) h
    (fun answer h' => ∃ r, f h.windows = .ok r ∧ answer = none ∧ h' = { h with windows := r })
    (fun _ h' => h' = h) := by
  simp only [change, ends_bind, ends_update, ends_pure, gives_bind, gives_pure]
  exact gives_of_ok (fun r hr => ⟨r, hr, trivial, rfl⟩) fun _ => trivial

theorem ends_create {name : String} {width height : Int} {title : String} :
    Ends (Call.perform (.create name width height title)) h
      (fun answer h' => (0 < width ∧ 0 < height) ∧
        answer = some (h.windows.entries.length + 1) ∧ h' = { h with windows := {
          host := { h.windows.host with
            panes := h.windows.host.panes ++ [{ title, width, height }] }
          entries := h.windows.entries ++ [{ name, window := h.windows.host.panes.length + 1 }]
          handles := (name, h.windows.entries.length + 1) :: h.windows.handles } })
      (fun _ h' => ¬(0 < width ∧ 0 < height) ∧ h' = h) := by
  simp only [Call.perform, Registry.create, Headless.create, Action.ends_advance, gives_bind,
    gives_ite, gives_error, gives_ok, gives_pure]
  exact ⟨fun hsize => ⟨by omega, trivial⟩, fun hsize => ⟨by omega, trivial, trivial⟩⟩

/-- A call that is refused changes nothing. -/
theorem ends_perform (call : Call) (h : Host) :
    Ends call.perform h (fun _ _ => True) (fun _ h' => h' = h) := by
  cases call with
  | create name width height title =>
    exact ends_create.mono (fun _ _ _ => trivial) fun _ _ he => he.2
  | poll => trivial
  | setTarget | control =>
    rw [Call.perform]
    exact ends_change.mono (fun _ _ _ => trivial) fun _ _ he => he

end Calls

theorem getElem?_snoc {α : Type} {l : List α} {a b : α} {i : Nat} :
    (l ++ [a])[i]? = some b ↔ l[i]? = some b ∨ i = l.length ∧ a = b := by
  grind

theorem Entry.target?_setTarget (entry : Entry) (kind kind' : EventKind) (f : FunctionName) :
    (entry.setTarget kind f).target? kind' =
      if kind = kind' then some f else entry.target? kind' := by
  cases kind <;> cases kind' <;> rfl

@[simp] theorem Entry.name_setTarget (entry : Entry) (kind : EventKind) (f : FunctionName) :
    (entry.setTarget kind f).name = entry.name := by
  cases kind <;> rfl

@[simp] theorem Entry.window_setTarget (entry : Entry) (kind : EventKind) (f : FunctionName) :
    (entry.setTarget kind f).window = entry.window := by
  cases kind <;> rfl

namespace Registry

variable {r : Registry} {name : String}

theorem handle_eq_ok {handle : Nat} :
    r.handle name = .ok handle ↔ r.handles.lookup name = some handle := by
  unfold Registry.handle
  split <;> simp [*]

theorem entry_eq_ok {handle : Int} {entry : Entry} : r.entry handle = .ok entry ↔
    ∃ i : Nat, handle = i + 1 ∧ r.entries[i]? = some entry := by
  simp only [Registry.entry]
  constructor
  · intro h
    split at h
    · rename_i found hfound
      cases h
      split at hfound
      · exact ⟨handle.toNat - 1, by omega, hfound⟩
      · cases hfound
    · cases h
  · rintro ⟨i, rfl, hentry⟩
    have hindex : ((i : Int) + 1).toNat - 1 = i := by omega
    rw [if_pos (by omega), hindex, hentry]

end Registry

theorem Headless.modifyPane_eq_ok {b b' : Headless} {window : Nat} {f : Pane → Pane}
    (h : b.modifyPane window f = .ok b') :
    b'.panes.length = b.panes.length ∧ b'.events = b.events := by
  obtain ⟨pane, -, h⟩ := bind_eq_ok.mp h
  obtain rfl := pure_eq_ok.mp h
  exact ⟨List.length_set .., rfl⟩

theorem Control.apply_eq_ok {b b' : Headless} (c : Control) (h : c.apply b = .ok b') :
    b'.panes.length = b.panes.length ∧ b'.events = b.events ++ c.event?.toList := by
  cases c with
  | key =>
    cases h
    exact ⟨rfl, rfl⟩
  | moveCursor | resize =>
    obtain ⟨changed, hchanged, h⟩ := bind_eq_ok.mp h
    obtain rfl := pure_eq_ok.mp h
    obtain ⟨hpanes, hevents⟩ := Headless.modifyPane_eq_ok hchanged
    exact ⟨hpanes, congrArg (· ++ _) hevents⟩
  | requestClose =>
    obtain ⟨hpanes, hevents⟩ := Headless.modifyPane_eq_ok h
    exact ⟨hpanes, hevents.trans (List.append_nil _).symm⟩
  | advance =>
    cases h
    exact ⟨rfl, (List.append_nil _).symm⟩

namespace Registry.Follows

variable {r : Registry} {log : Log} {answer : Option Nat} {name : String}

theorem length_eq (h : r.Follows log) : r.entries.length = log.opened.length := by
  rw [← h.names_eq, List.length_map]

/-- A window created under a name gets the next handle, and the name. -/
theorem create {width height : Int} {title : String} (h : r.Follows log) :
    Follows {
      host := { r.host with panes := r.host.panes ++ [{ title, width, height }] }
      entries := r.entries ++ [{ name, window := r.host.panes.length + 1 }]
      handles := (name, r.entries.length + 1) :: r.handles }
      ((.create name width height title, some (r.entries.length + 1)) :: log) where
  names_eq := by simp [Log.opened, h.names_eq]
  panes_eq := by simp [h.panes_eq]
  window_eq i entry hentry := by
    rcases getElem?_snoc.mp hentry with hentry | ⟨rfl, rfl⟩
    · exact h.window_eq i entry hentry
    · exact congrArg (· + 1) h.panes_eq
  handles_eq name' := by
    by_cases hname : name = name'
    · simp [Log.bound, hname]
    · have hne : (name' == name) = false := beq_eq_false_iff_ne.mpr (Ne.symm hname)
      simp [Log.bound, hname, List.lookup_cons, hne, h.handles_eq]
  bound_opened name' handle hbound := by
    simp only [Log.bound] at hbound
    split at hbound
    · rename_i hname
      cases hbound
      exact ⟨r.entries.length, rfl, getElem?_snoc.mpr (.inr ⟨h.length_eq, hname⟩)⟩
    · obtain ⟨i, hi, hopened⟩ := h.bound_opened name' handle hbound
      exact ⟨i, hi, getElem?_snoc.mpr (.inl hopened)⟩
  target_zero := h.target_zero
  target_eq i kind := by
    -- The new window has no functions, and nothing was said of its handle before.
    have hsame : Log.target (i + 1) kind ((.create name width height title,
        some (r.entries.length + 1)) :: log) = log.target (i + 1) kind := rfl
    rw [hsame, ← h.target_eq i kind]
    rcases Nat.lt_trichotomy i r.entries.length with hi | rfl | hi
    · rw [List.getElem?_append_left hi]
    · rw [List.getElem?_concat_length, List.getElem?_eq_none le_rfl]
      cases kind <;> rfl
    · rw [List.getElem?_eq_none (by simp; omega), List.getElem?_eq_none hi.le]
  events_eq := by simp [Log.waiting, h.events_eq]

/-- The handle of a name leads to an entry. -/
theorem exists_entry {handle : Nat} (h : r.Follows log) (hhandle : r.handle name = .ok handle) :
    ∃ i entry, handle = i + 1 ∧ r.entries[i]? = some entry := by
  rw [handle_eq_ok, h.handles_eq] at hhandle
  obtain ⟨i, rfl, hi⟩ := h.bound_opened name handle hhandle
  rw [← h.names_eq, List.getElem?_map, Option.map_eq_some_iff] at hi
  obtain ⟨entry, hentry, -⟩ := hi
  exact ⟨i, entry, rfl, hentry⟩

theorem setTarget {r' : Registry} {kind : EventKind} {f : FunctionName} (h : r.Follows log)
    (hr : r.setTarget name kind f = .ok r') :
    r'.Follows ((.setTarget name kind f, answer) :: log) := by
  obtain ⟨handle, hhandle, hr⟩ := bind_eq_ok.mp hr
  obtain ⟨entry, hfound, hr⟩ := bind_eq_ok.mp hr
  obtain rfl := pure_eq_ok.mp hr
  obtain ⟨i, hi, hentry⟩ := entry_eq_ok.mp hfound
  obtain rfl : handle = i + 1 := by omega
  have hbound : log.bound name = some (i + 1) :=
    (h.handles_eq name).symm.trans (handle_eq_ok.mp hhandle)
  rw [Nat.add_sub_cancel]
  have hset : ∀ {j : Nat} {entry' : Entry},
      (r.entries.set i (entry.setTarget kind f))[j]? = some entry' →
        j = i ∧ entry' = entry.setTarget kind f ∨ r.entries[j]? = some entry' := by
    grind
  constructor
  · have hname : (r.entries.map (·.name))[i]? = some entry.name := by
      rw [List.getElem?_map, hentry, Option.map_some]
    obtain ⟨hlt, hname⟩ := List.getElem?_eq_some_iff.mp hname
    rw [List.map_set, Entry.name_setTarget, ← hname, List.set_getElem_self]
    exact h.names_eq
  · simp [h.panes_eq]
  · intro j entry' hentry'
    rcases hset hentry' with ⟨rfl, rfl⟩ | hentry'
    · rw [Entry.window_setTarget]
      exact h.window_eq j entry hentry
    · exact h.window_eq j entry' hentry'
  · exact h.handles_eq
  · exact h.bound_opened
  · intro kind'
    simp [Log.target, hbound, h.target_zero]
  · intro j kind'
    simp only [Log.target, hbound, Option.some.injEq, Nat.add_right_cancel_iff, ← h.target_eq]
    by_cases hij : i = j
    · subst j
      obtain ⟨hlt, -⟩ := List.getElem?_eq_some_iff.mp hentry
      rw [List.getElem?_set_self hlt, hentry, Option.bind_some, Option.bind_some,
        Entry.target?_setTarget]
      simp
    · rw [List.getElem?_set_ne hij]
      simp [hij]
  · simp [Log.waiting, h.events_eq]

/-- The backend keeps its windows, and has the event that the call brings about. -/
theorem control {c : Control} {b : Headless} (h : r.Follows log) (hc : c.apply r.host = .ok b) :
    Follows { r with host := b } ((.control c, answer) :: log) := by
  obtain ⟨hpanes, hevents⟩ := c.apply_eq_ok hc
  exact {
    names_eq := h.names_eq
    panes_eq := hpanes.trans h.panes_eq
    window_eq := h.window_eq
    handles_eq := h.handles_eq
    bound_opened := h.bound_opened
    target_zero := h.target_zero
    target_eq := h.target_eq
    events_eq := hevents.trans (congrArg (· ++ _) h.events_eq) }

theorem poll (h : r.Follows log) : r.poll.2.Follows ((.poll, answer) :: log) where
  names_eq := h.names_eq
  panes_eq := h.panes_eq
  window_eq := h.window_eq
  handles_eq := h.handles_eq
  bound_opened := h.bound_opened
  target_zero := h.target_zero
  target_eq := h.target_eq
  events_eq := rfl

end Registry.Follows

/-- Whatever the call, the registry goes on as its log does. -/
theorem Registry.Follows.perform {h h' : Host} {log : Log} {call : Call} {answer : Option Nat}
    (hr : h.windows.Follows log) (hcall : call.perform h = .ok answer h') :
    h'.windows.Follows ((call, answer) :: log) := by
  cases call with
  | create name width height title =>
    obtain ⟨-, rfl, rfl⟩ := ends_create.value hcall
    exact hr.create
  | setTarget name kind f =>
    rw [Call.perform] at hcall
    obtain ⟨r, hset, -, rfl⟩ := ends_change.value hcall
    exact hr.setTarget hset
  | poll =>
    cases hcall
    exact hr.poll
  | control c =>
    rw [Call.perform] at hcall
    obtain ⟨r, hset, -, rfl⟩ := ends_change.value hcall
    obtain ⟨b, hb, hset⟩ := bind_eq_ok.mp hset
    obtain rfl := pure_eq_ok.mp hset
    exact hr.control hb

theorem History.follows {h₀ h : Host} {log : Log} (hist : History h₀ log h)
    (hempty : h₀.windows = {}) : h.windows.Follows log := by
  induction hist with
  | start =>
    rw [hempty]
    exact {
      names_eq := rfl
      panes_eq := rfl
      window_eq := nofun
      handles_eq := fun _ => rfl
      bound_opened := nofun
      target_zero := fun _ => rfl
      target_eq := fun _ _ => rfl
      events_eq := rfl }
  | answered _ hcall ih => exact ih.perform hcall
  | refused _ hcall ih =>
    rw [(ends_perform _ _).failure hcall]
    exact ih
  | others _ _ ih => exact ih

/-- What follows calls follows the calls before them. -/
theorem History.trans {h₀ h h' : Host} {log log' : Log} (hist : History h₀ log h)
    (hist' : History h log' h') : History h₀ (log' ++ log) h' := by
  induction hist' with
  | start => exact hist
  | answered _ hcall ih => exact .answered ih hcall
  | refused _ hcall ih => exact .refused ih hcall
  | others callbacks _ ih => exact .others callbacks ih

theorem Log.opened_append (log log' : Log) :
    Log.opened (log' ++ log) = log.opened ++ log'.opened := by
  induction log' with
  | nil => exact (List.append_nil _).symm
  | cons entry log' ih =>
    obtain ⟨call, answer⟩ := entry
    cases call with
    | create name width height title => simp only [List.cons_append, opened, ih, List.append_assoc]
    | _ => exact ih

namespace Event

/-- What an event tells its callback, by value and type: the handle of the window, and what there is
to say. -/
def values (handle : Nat) : Event → List (Value × Ty)
  | key _ code scancode action mods =>
    [(handle : Int), code, scancode, action, mods].map fun n => (Value.i32 n, .i32)
  | cursor _ x y => [(Value.i32 handle, .i32), (.float .f64 x, .f64), (.float .f64 y, .f64)]
  | size _ width height => [(handle : Int), width, height].map fun n => (Value.i32 n, .i32)

theorem encode_i32 (n : Int) : (Value.i32 n).encode .i32 = .ok (intArg n) := rfl

theorem encode_double (w : BitVec 64) : (Value.float .f64 w).encode .f64 = .ok (doubleArg w) := rfl

/-- The arguments are the encoded values. -/
theorem forall₂_args (handle : Nat) (event : Event) :
    List.Forall₂ (fun (v : Value × Ty) bytes => v.1.encode v.2 = .ok bytes)
      (event.values handle) (event.args handle) := by
  cases event with
  | key => exact .cons (encode_i32 _) (.cons (encode_i32 _) (.cons (encode_i32 _)
      (.cons (encode_i32 _) (.cons (encode_i32 _) .nil))))
  | cursor => exact .cons (encode_i32 _) (.cons (encode_double _) (.cons (encode_double _) .nil))
  | size => exact .cons (encode_i32 _) (.cons (encode_i32 _) (.cons (encode_i32 _) .nil))

end Event

/-- An integer argument is read back. -/
theorem decode_intArg (n : Int) : Ty.i32.decode (intArg n) = .ok (Value.i32 n) := by
  have hlen : (intArg n).length = 4 := LittleEndian.length_encode 4 _
  have htake : takeWord (intArg n) 4 .i32 = .ok (IntKind.i32.ofInt n).toNat := by
    rw [takeWord, if_pos hlen.ge, List.take_of_length_le hlen.le, intArg,
      LittleEndian.decode_encode (BitVec.isLt _)]
  change (takeWord (intArg n) 4 .i32 >>= fun w => pure (Value.int .i32 (BitVec.ofNat _ w))) = _
  rw [htake]
  change Except.ok (Value.int .i32 (BitVec.ofNat _ (IntKind.i32.ofInt n).toNat)) = _
  rw [BitVec.ofNat_toNat, BitVec.setWidth_eq]
  rfl

/-- A handle in the range of the type is the number it was. -/
theorem toInt64?_i32 {handle : Nat} (h : handle < 2 ^ 31) :
    (Value.i32 handle).toInt64? = some (handle : Int) := by
  have hint : (BitVec.ofInt 32 (handle : Int)).toInt = handle :=
    BitVec.toInt_ofInt_eq_self (by decide) (by omega) (by omega)
  change some (BitVec.ofInt 64 (BitVec.ofInt 32 (handle : Int)).toInt).toInt = some (handle : Int)
  rw [hint, BitVec.toInt_ofInt_eq_self (by decide) (by omega) (by omega)]

/-- The calls that are not refused. -/
def Log.Admits (log : Log) : Call → Prop
  | .create _ width height _ => 0 < width ∧ 0 < height
  | .setTarget name _ _ => (log.bound name).isSome = true
  | .poll => True
  | .control c => ∀ window, c.window? = some window → 0 < window ∧ window ≤ log.opened.length

/-- The callbacks that the waiting events bring about. -/
def Log.callbacks (log : Log) : List Callback := log.waiting.filterMap log.callback?

/-- A host serves the windows of a program as the log of the calls to it tells. -/
structure Serves (h : Host) (log : Log) : Prop where
  /-- Handles count the windows in order of creation. -/
  name_iff : ∀ handle name, h.windows.name handle = .ok name ↔
    ∃ i : Nat, handle = i + 1 ∧ log.opened[i]? = some name
  /-- A handle keeps its name. -/
  lasting : ∀ log' h' handle name, History h log' h' → h.windows.name handle = .ok name →
    h'.windows.name handle = .ok name
  /-- A name has the handle of the latest window created under it. -/
  handle_iff : ∀ name handle, h.windows.handle name = .ok handle ↔ log.bound name = some handle
  /-- The program's handle of a window is the backend's number of it. -/
  window_eq : ∀ handle entry, h.windows.entry handle = .ok entry → (entry.window : Int) = handle
  accepted : ∀ call, log.Admits call → ∃ answer h', call.perform h = .ok answer h'
  /-- What is refused changes nothing. -/
  refused : ∀ call, ¬log.Admits call → ∃ e, call.perform h = .error e h
  /-- A new window gets the next handle. The older ones keep their names and functions, even if one
  of them loses its name to the new one, and all events go on waiting. -/
  created : ∀ name width height title answer h',
    (Call.create name width height title).perform h = .ok answer h' →
      answer = some (log.opened.length + 1) ∧
      h'.windows.handle name = .ok (log.opened.length + 1) ∧
      (∀ other, other ≠ name → h'.windows.handle other = h.windows.handle other) ∧
      (∀ handle entry, h.windows.entry handle = .ok entry → h'.windows.entry handle = .ok entry) ∧
      h'.windows.host.events = h.windows.host.events ∧ h'.callbacks = h.callbacks
  /-- A poll takes all events and queues the callbacks of those that go anywhere. -/
  polled : Call.poll.perform h = .ok (some log.callbacks.length) {
    windows := { h.windows with host := { h.windows.host with events := [] } }
    callbacks := h.callbacks ++ log.callbacks }
  /-- The arguments of a callback are encoded values, the first the handle of a window. -/
  encoded : ∀ event callback, log.callback? event = some callback →
    (0 < event.window ∧ event.window ≤ log.opened.length) ∧
    List.Forall₂ (fun (v : Value × Ty) bytes => v.1.encode v.2 = .ok bytes)
      (event.values event.window) callback.args ∧
    ∃ first rest, callback.args = first :: rest ∧
      Ty.i32.decode first = .ok (Value.i32 event.window) ∧
      (Value.i32 event.window).toInt64? = some (event.window : Int)

namespace Registry.Follows

variable {r : Registry} {log : Log}

theorem name_iff (h : r.Follows log) (handle : Int) (name : String) : r.name handle = .ok name ↔
    ∃ i : Nat, handle = i + 1 ∧ log.opened[i]? = some name := by
  simp only [Registry.name, bind_eq_ok, pure_eq_ok, entry_eq_ok, ← h.names_eq, List.getElem?_map,
    Option.map_eq_some_iff]
  constructor
  · rintro ⟨entry, ⟨i, hi, hentry⟩, hname⟩
    exact ⟨i, hi, entry, hentry, hname⟩
  · rintro ⟨i, hi, entry, hentry, hname⟩
    exact ⟨entry, ⟨i, hi, hentry⟩, hname⟩

theorem exists_entry_of_target {handle : Nat} {kind : EventKind} {f : FunctionName}
    (h : r.Follows log) (htarget : log.target handle kind = some f) :
    ∃ i entry, handle = i + 1 ∧ r.entries[i]? = some entry ∧ entry.target? kind = some f := by
  cases handle with
  | zero =>
    rw [h.target_zero] at htarget
    cases htarget
  | succ i =>
    rw [← h.target_eq, Option.bind_eq_some_iff] at htarget
    obtain ⟨entry, hentry, hf⟩ := htarget
    exact ⟨i, entry, rfl, hentry, hf⟩

/-- An event goes where the log says. -/
theorem callback?_eq (h : r.Follows log) (event : Event) :
    r.callback? event = log.callback? event := by
  cases hfind : r.entries.findIdx? (·.window == event.window) with
  | none =>
    have hnone : log.target event.window event.kind = none := by
      rw [Option.eq_none_iff_forall_ne_some]
      intro f hf
      obtain ⟨i, entry, hi, hentry, -⟩ := h.exists_entry_of_target hf
      have hother := List.findIdx?_eq_none_iff.mp hfind entry (List.mem_of_getElem? hentry)
      rw [h.window_eq i entry hentry, ← hi] at hother
      simp at hother
    simp [Registry.callback?, Log.callback?, hfind, hnone]
  | some i =>
    obtain ⟨hlt, hwindow, -⟩ := List.findIdx?_eq_some_iff_getElem.mp hfind
    have hentry : r.entries[i]? = some r.entries[i] := List.getElem?_eq_getElem hlt
    have hi : event.window = i + 1 := by
      rw [← h.window_eq i _ hentry]
      exact (beq_iff_eq.mp hwindow).symm
    have htarget := h.target_eq i event.kind
    rw [hentry, Option.bind_some, ← hi] at htarget
    simp only [Registry.callback?, Log.callback?, hfind, Option.bind_eq_bind, Option.bind_some,
      hentry, htarget, ← hi]
    cases log.target event.window event.kind <;> rfl

theorem callback?_opened {event : Event} {callback : Callback} (h : r.Follows log)
    (hcallback : log.callback? event = some callback) :
    0 < event.window ∧ event.window ≤ log.opened.length := by
  obtain ⟨f, hf, -⟩ := Option.map_eq_some_iff.mp hcallback
  obtain ⟨i, entry, hi, hentry, -⟩ := h.exists_entry_of_target hf
  obtain ⟨hlt, -⟩ := List.getElem?_eq_some_iff.mp hentry
  rw [h.length_eq] at hlt
  omega

theorem setTarget_ok_iff {name : String} {kind : EventKind} {f : FunctionName}
    (h : r.Follows log) :
    (∃ r', r.setTarget name kind f = .ok r') ↔ (log.bound name).isSome = true := by
  rw [Option.isSome_iff_exists, ← h.handles_eq]
  constructor
  · rintro ⟨r', hr⟩
    obtain ⟨handle, hhandle, -⟩ := bind_eq_ok.mp hr
    exact ⟨handle, handle_eq_ok.mp hhandle⟩
  · rintro ⟨handle, hhandle⟩
    have hhandle := handle_eq_ok.mpr hhandle
    obtain ⟨i, entry, rfl, hentry⟩ := h.exists_entry hhandle
    have hentry := entry_eq_ok.mpr ⟨i, rfl, hentry⟩
    exact ⟨_, bind_eq_ok.mpr ⟨_, hhandle, bind_eq_ok.mpr ⟨_, hentry, rfl⟩⟩⟩

end Registry.Follows

section Accepted

variable {b : Headless} {h : Host} {log : Log}

theorem Headless.pane_ok_iff {window : Nat} :
    (∃ pane, b.pane window = .ok pane) ↔ 0 < window ∧ window ≤ b.panes.length := by
  cases window with
  | zero => simp [Headless.pane]
  | succ i =>
    simp only [Headless.pane, Nat.succ_pos, true_and, Nat.succ_le_iff]
    cases hpane : b.panes[i]? with
    | none => simpa using hpane
    | some pane =>
      obtain ⟨hlt, -⟩ := List.getElem?_eq_some_iff.mp hpane
      simpa using hlt

/-- A computation that goes on after another one succeeds if that does and it does itself. -/
theorem exists_bind_ok {α β : Type} {r : Except Error α} {f : α → β} :
    (∃ y, (r >>= fun x => pure (f x)) = .ok y) ↔ ∃ x, r = .ok x := by
  cases r <;> simp [bind, Except.bind, pure, Except.pure]

theorem Control.apply_ok_iff (c : Control) : (∃ b', c.apply b = .ok b') ↔
    ∀ window, c.window? = some window → 0 < window ∧ window ≤ b.panes.length := by
  cases c with
  | key | advance => simp [Control.apply, Control.window?]
  | moveCursor | resize | requestClose =>
    simp only [Control.apply, Headless.moveCursor, Headless.resize, Headless.requestClose,
      Headless.setShouldClose, Headless.modifyPane, exists_bind_ok, Headless.pane_ok_iff,
      Control.window?, Option.some.injEq, forall_eq']

theorem change_ok_iff {f : Registry → Except Error Registry} :
    (∃ answer h', change f h = .ok answer h') ↔ ∃ r, f h.windows = .ok r := by
  constructor
  · rintro ⟨answer, h', hcall⟩
    obtain ⟨r, hr, -⟩ := ends_change.value hcall
    exact ⟨r, hr⟩
  · rintro ⟨r, hr⟩
    refine ⟨none, { h with windows := r }, seq_eq_ok.mpr ⟨(), _, ?_, rfl⟩⟩
    simp only [Action.update, hr, bind, Except.bind, pure, Except.pure]

/-- The calls that the log admits are those that are not refused. -/
theorem admits_iff (hr : h.windows.Follows log) (call : Call) :
    log.Admits call ↔ ∃ answer h', call.perform h = .ok answer h' := by
  cases call with
  | create name width height title =>
    cases hcall : (Call.create name width height title).perform h with
    | ok answer h' =>
      obtain ⟨hsize, -⟩ := ends_create.value hcall
      exact ⟨fun _ => ⟨answer, h', rfl⟩, fun _ => hsize⟩
    | error e h' =>
      obtain ⟨hsize, -⟩ := ends_create.failure hcall
      exact ⟨fun hadmits => absurd hadmits hsize, nofun⟩
  | setTarget name kind f =>
    rw [Call.perform, change_ok_iff, hr.setTarget_ok_iff]
    rfl
  | poll => exact ⟨fun _ => ⟨_, _, rfl⟩, fun _ => trivial⟩
  | control c =>
    rw [Call.perform, change_ok_iff, exists_bind_ok, c.apply_ok_iff, hr.panes_eq, hr.length_eq]
    rfl

end Accepted

/-- After any calls in any order a host without windows serves its windows as the log of the calls
tells. -/
theorem serves_of_history {h₀ h : Host} {log : Log} (hempty : h₀.windows = {})
    (hist : History h₀ log h) (hfew : log.opened.length < 2 ^ 31) : Serves h log := by
  have hr : h.windows.Follows log := hist.follows hempty
  refine {
    name_iff := hr.name_iff
    lasting := fun log' h' handle name hist' hname => ?_
    handle_iff := fun name handle => by rw [Registry.handle_eq_ok, hr.handles_eq]
    window_eq := fun handle entry hentry => ?_
    accepted := fun call hadmits => (admits_iff hr call).mp hadmits
    refused := fun call hnot => ?_
    created := fun name width height title answer h' hcall => ?_
    polled := ?_
    encoded := fun event callback hcallback => ?_ }
  · obtain ⟨i, hi, hopened⟩ := (hr.name_iff handle name).mp hname
    refine (((hist.trans hist').follows hempty).name_iff handle name).mpr ⟨i, hi, ?_⟩
    obtain ⟨hlt, -⟩ := List.getElem?_eq_some_iff.mp hopened
    rw [Log.opened_append, List.getElem?_append_left hlt, hopened]
  · obtain ⟨i, rfl, hfound⟩ := Registry.entry_eq_ok.mp hentry
    rw [hr.window_eq i entry hfound]
    rfl
  · cases hcall : call.perform h with
    | ok answer h' => exact absurd ((admits_iff hr call).mpr ⟨answer, h', hcall⟩) hnot
    | error e h' =>
      obtain rfl : h' = h := (ends_perform call h).failure hcall
      exact ⟨e, rfl⟩
  · obtain ⟨-, rfl, rfl⟩ := ends_create.value hcall
    rw [hr.length_eq]
    refine ⟨rfl, ?_, fun other hother => ?_, fun handle entry hentry => ?_, rfl, rfl⟩
    · rw [Registry.handle_eq_ok]
      simp
    · have hne : (other == name) = false := beq_eq_false_iff_ne.mpr hother
      simp only [Registry.handle, List.lookup_cons, hne]
    · obtain ⟨i, hi, hentry⟩ := Registry.entry_eq_ok.mp hentry
      exact Registry.entry_eq_ok.mpr ⟨i, hi, getElem?_snoc.mpr (.inl hentry)⟩
  · have hcallbacks : h.windows.host.events.filterMap h.windows.callback? = log.callbacks := by
      rw [hr.events_eq, Log.callbacks]
      exact congrArg (List.filterMap · _) (funext hr.callback?_eq)
    simp only [Call.perform, Registry.poll, hcallbacks]
  · have hopened := hr.callback?_opened hcallback
    obtain ⟨f, -, rfl⟩ := Option.map_eq_some_iff.mp hcallback
    refine ⟨hopened, event.forall₂_args event.window, ?_⟩
    have hback := toInt64?_i32 (hopened.2.trans_lt hfew)
    cases event <;> exact ⟨_, _, rfl, decode_intArg _, hback⟩

/-- Two windows under one name, with a function for keys each. A key is pressed in both, and in a
window that there is not. -/
def reboundLog : Log :=
  [(.control (.key 3 67 0 1 0), none),
   (.control (.key 1 66 0 1 0), none),
   (.control (.key 2 65 0 1 0), none),
   (.setTarget "game" .key ⟨"main", "new"⟩, none),
   (.create "game" 320 200 "second", some 2),
   (.setTarget "game" .key ⟨"main", "old"⟩, none),
   (.create "game" 640 480 "first", some 1)]

/-- The name has the second handle, and each of the windows its own function still. -/
theorem serves_of_history_reboundLog : ∃ h h', History {} reboundLog h ∧
    h.windows.handle "game" = .ok 2 ∧ h.windows.name 1 = .ok "game" ∧
    Call.poll.perform h = .ok (some 2) h' ∧
    h'.callbacks = [⟨⟨"main", "new"⟩, [2, 65, 0, 1, 0].map intArg⟩,
      ⟨⟨"main", "old"⟩, [1, 66, 0, 1, 0].map intArg⟩] := by
  obtain ⟨h, hist, hqueue⟩ : ∃ h, History {} reboundLog h ∧ h.callbacks = [] :=
    ⟨_, .answered (.answered (.answered (.answered (.answered (.answered (.answered .start rfl) rfl)
      rfl) rfl) rfl) rfl) rfl, rfl⟩
  have hserves : Serves h reboundLog := serves_of_history rfl hist (by decide)
  refine ⟨h, _, hist, (hserves.handle_iff "game" 2).mpr rfl,
    (hserves.name_iff 1 "game").mpr ⟨0, rfl, rfl⟩, hserves.polled, ?_⟩
  rw [hqueue]
  rfl

end FlatMachine.Window
