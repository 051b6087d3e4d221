import FlatMachine.Proofs.Allocation

/-!
# Resizing keeps the content

An object that gets another size keeps its bytes as far as there is room for them, and what it gains
is zeroed. It is moved only if it grows and something lies behind it, and nothing is overwritten:
who still holds the old offset reads the old object.
-/

namespace FlatMachine.Arena

open FlatMachine.Action

variable {a b : Arena} {offset oldSize newSize start : Nat} {content : Bytes}

/-- The old bytes lie where the object is now, as many of them as fit, and zeros behind them. -/
theorem Resizes.stores (h : Resizes a offset oldSize newSize (start, b))
    (hread : a.read offset (min oldSize newSize) = .ok content) :
    b.Stores start (content ++ List.replicate (newSize - oldSize) 0) := by
  obtain ⟨hinside, hlen, -⟩ := gives_read.value hread
  have hold := stores_of_read hread
  rw [stores_append, hlen]
  cases h with
  | stays hshrinks =>
    rw [Nat.sub_eq_zero_of_le hshrinks]
    exact ⟨hold, nofun⟩
  | grows hgrows hlatest hgains =>
    rw [Nat.min_eq_left hgrows.le, hlatest.1]
    exact ⟨hold.of_extends hgains.toExtends, hgains.stores⟩
  | @moves grown hgrows hlatest hgains =>
    rw [Nat.min_eq_left hgrows.le] at hinside hlen ⊢
    have hcopied := (hold.of_extends hgains.toExtends).read
      (hlen ▸ hinside.trans hgains.toExtends.heapPointer_le)
    obtain ⟨-, -, hcontent⟩ := gives_read.value hcopied
    have hroom : a.heapPointer + oldSize ≤ grown.heapPointer := by
      rw [hgains.heapPointer_eq]
      omega
    obtain ⟨hchanged, hstores⟩ := overlay_stored hroom hlen
    rw [← hlen, ← hcontent, hlen]
    refine ⟨hstores, ?_⟩
    -- The zeros are those of the new region behind the bytes that were copied into it.
    have hzeros := hgains.stores
    rw [← Nat.add_sub_cancel' hgrows.le, List.replicate_add, stores_append,
      List.length_replicate] at hzeros
    exact hzeros.2.changedIn hchanged (.inr le_rfl)

theorem Resizes.start_eq (h : Resizes a offset oldSize newSize (start, b)) :
    (newSize ≤ oldSize ∨ a.IsLatest offset oldSize) ∧ start = offset ∨
      oldSize < newSize ∧ ¬ a.IsLatest offset oldSize ∧ start = a.heapPointer := by
  cases h with
  | stays hshrinks => exact .inl ⟨.inl hshrinks, rfl⟩
  | grows _ hlatest _ => exact .inl ⟨.inr hlatest, rfl⟩
  | moves hgrows hlatest _ => exact .inr ⟨hgrows, hlatest, rfl⟩

/-- What has been allocated stays in front of everything that is allocated later. -/
theorem le_later_allocation {stop size n : Nat} {c : Arena} (hstop : stop ≤ b.heapPointer)
    (calls : List Call)
    (h : (Ledger.afterAll ⟨b, []⟩ calls).arena.allocate size = .ok (n, c)) : stop ≤ n := by
  obtain ⟨hgrows, -⟩ := Ledger.afterAll_kept (l := ⟨b, []⟩) calls nofun
  obtain ⟨rfl, -⟩ := gives_allocate_gains.value h
  exact hstop.trans hgrows.heapPointer_le

/-- An object that is given another size holds what it held before, as far as it fits, and zeros
behind that. It is where it was, unless it had to move to the old heap pointer; no byte that was
allocated has changed; and it lies in front of whatever is allocated later. If it cannot have the
size, nothing has changed. -/
theorem resize_keeps_content (a : Arena) (offset oldSize newSize : Nat) :
    Ends (advance (·.resize offset oldSize newSize)) a
      (fun start b =>
        (∃ content, a.read offset (min oldSize newSize) = .ok content ∧
          b.read start newSize = .ok (content ++ List.replicate (newSize - oldSize) 0)) ∧
        ((newSize ≤ oldSize ∨ a.IsLatest offset oldSize) ∧ start = offset ∨
          oldSize < newSize ∧ ¬ a.IsLatest offset oldSize ∧ start = a.heapPointer) ∧
        Extends a b ∧ start + newSize ≤ b.heapPointer ∧
        ∀ calls size n c, (Ledger.afterAll ⟨b, []⟩ calls).arena.allocate size = .ok (n, c) →
          start + newSize ≤ n)
      (fun e b => b = a ∧ ResizeFails a offset oldSize newSize e) := by
  simp only [ends_advance, true_and]
  apply gives_resize.imp
  rintro ⟨start, b⟩ ⟨hinside, hresizes⟩
  obtain ⟨hextends, -, -, hstop⟩ := hresizes.kept hinside
  have hleast : offset + min oldSize newSize ≤ a.heapPointer := by omega
  obtain ⟨content, hread, hlen⟩ := exists_read hleast
  refine ⟨⟨content, hread, ?_⟩, hresizes.start_eq, hextends, hstop, ?_⟩
  · have hsize : (content ++ List.replicate (newSize - oldSize) 0).length = newSize := by
      rw [List.length_append, List.length_replicate, hlen]
      omega
    have hfound := (hresizes.stores hread).read (hsize.symm ▸ hstop)
    rwa [hsize] at hfound
  · exact fun calls size n c h => le_later_allocation hstop calls h

end FlatMachine.Arena
