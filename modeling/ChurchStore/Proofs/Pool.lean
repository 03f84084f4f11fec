import ChurchStore.Pool
import ChurchStore.Proofs.Cells.Release
import ChurchStore.Proofs.Ledger
import ChurchStore.Proofs.Representation

/-!
# Pools represent groves

The slots of a pool are sound cells, the free slots are the empty ones, each of them listed once,
and the counters differ by the closures that are there. Every operation keeps this, and none of
them changes a closure, although slots are used again.
-/

namespace ChurchStore

namespace Cells

/-- A reference that is added and given up at once leaves no trace. -/
theorem release_acquire {cs : Cells} {i n : Nat} {c : Closure Nat}
    (h : cs.toArray[i]? = some ⟨n + 1, some c⟩) : (cs.acquire i).release i = (cs, []) := by
  have hi := lt_size h
  have hput : (cs.acquire i).toArray[i]? = some ⟨n + 2, some c⟩ := by
    rw [acquire_eq_put h, getElem?_put hi, if_pos rfl]
  have hback : (cs.acquire i).put i ⟨n + 1, some c⟩ = cs := by
    rw [acquire_eq_put h, put, put, Array.setIfInBounds_setIfInBounds, Modify.set_eq_self h]
  have hlet := letGo_of_more hput
  rw [hback] at hlet
  rw [release, releaseList_of_none hlet, releaseList]
  rfl

end Cells

namespace Pool

/-- A pool is sound for the slots to which handles point. -/
structure Sound (p : Pool) (refs : Multiset Nat) : Prop where
  cells : p.cells.Sound refs
  nodup : p.free.Nodup
  mem_free (i : Nat) : i ∈ p.free ↔ i < p.cells.size ∧ p.cells.closure? i = none
  alloc_eq (k : Kind) : p.ledger.alloc.get k = p.ledger.free.get k + p.cells.census k

namespace Sound

variable {p : Pool} {refs : Multiset Nat} {i : Nat} {c : Closure Nat}

theorem empty : Sound {} 0 where
  cells := .empty
  nodup := List.nodup_nil
  mem_free i := by simp [Cells.size]
  alloc_eq k := by simp [Cells.census]

end Sound

theorem foldl_acquire (p : Pool) (l : List Nat) :
    l.foldl acquire p = { p with cells := l.foldl Cells.acquire p.cells } := by
  induction l generalizing p with
  | nil => rfl
  | cons i l ih => exact ih (p.acquire i)

theorem foldl_reclaim (p : Pool) (freed : List Cells.Freed) :
    freed.foldl reclaim p = { p with
      free := (freed.map (·.cell)).reverse ++ p.free
      ledger := p.ledger.recordFreed freed } := by
  induction freed generalizing p with
  | nil => rfl
  | cons f freed ih =>
    rw [List.foldl_cons, ih]
    simp [reclaim, Ledger.recordFreed]

/-- An owner of an occupied slot that comes and goes leaves no trace. -/
theorem release_acquire {p : Pool} {i : Nat} {c : Closure Nat} (hc : p.cells.closure? i = some c)
    (hi : 0 < p.cells.owners i) : (p.acquire i).release i = p := by
  obtain ⟨n, hcell⟩ := Cells.exists_cell_of_closure? hc
  rw [Cells.owners_eq hcell] at hi
  obtain ⟨k, rfl⟩ := Nat.exists_eq_add_one_of_ne_zero (Nat.ne_of_gt hi)
  simp only [release, acquire, Cells.release_acquire hcell, List.foldl_nil]

namespace Sound

variable {p : Pool} {refs : Multiset Nat} {i : Nat} {c : Closure Nat}

theorem acquireAll (h : p.Sound refs) (l : List Nat) (hl : ∀ j ∈ l, 0 < p.cells.owners j) :
    (l.foldl Pool.acquire p).Sound (l + refs) ∧
      (∀ j, (l.foldl Pool.acquire p).cells.closure? j = p.cells.closure? j) ∧
      (l.foldl Pool.acquire p).ledger.alloc = p.ledger.alloc := by
  obtain ⟨hcells, hsize, hclosure, hcensus⟩ := h.cells.acquireAll l hl
  rw [foldl_acquire]
  refine ⟨⟨hcells, h.nodup, fun i => ?_, fun k => ?_⟩, hclosure, rfl⟩
  · simp only [hsize, hclosure]
    exact h.mem_free i
  · simp only [hcensus]
    exact h.alloc_eq k

theorem acquire (h : p.Sound refs) (hi : 0 < p.cells.owners i) :
    (p.acquire i).Sound (i ::ₘ refs) ∧
      ∀ j, (p.acquire i).cells.closure? j = p.cells.closure? j := by
  have hall := h.acquireAll [i] fun j hj => by rwa [List.mem_singleton.1 hj]
  rw [Multiset.coe_singleton, Multiset.singleton_add] at hall
  exact ⟨hall.1, hall.2.1⟩

/-- The slots that a release empties are the free ones that were not free before. -/
theorem release (h : p.Sound (i ::ₘ refs)) :
    (p.release i).Sound refs ∧ (p.release i).ledger.alloc = p.ledger.alloc ∧
      ∀ j c, (p.release i).cells.closure? j = some c → p.cells.closure? j = some c := by
  obtain ⟨hcells, hfree⟩ := h.cells.release
  simp only [Pool.release, foldl_reclaim]
  refine ⟨⟨hcells, ?_, fun j => ?_, fun k => ?_⟩, Ledger.alloc_recordFreed _ _,
    fun j c => hfree.closure?_some⟩
  · rw [List.nodup_append', List.nodup_reverse]
    refine ⟨hfree.nodup, h.nodup, fun j hj hj' => ?_⟩
    have hsome := (hfree.mem_iff.1 (List.mem_reverse.1 hj)).2
    have hnone := ((h.mem_free j).1 hj').2
    rw [hnone] at hsome
    cases hsome
  · rw [List.mem_append, List.mem_reverse, hfree.mem_iff, h.mem_free, hfree.size_eq]
    constructor
    · intro hj
      rcases hj with ⟨hnone, hsome⟩ | ⟨hlt, hnone⟩
      · exact ⟨Cells.lt_size_of_isSome hsome, hnone⟩
      · refine ⟨hlt, ?_⟩
        by_contra hne
        obtain ⟨c, hc⟩ := Option.ne_none_iff_exists'.1 hne
        rw [hfree.closure?_some hc] at hnone
        cases hnone
    · intro ⟨hlt, hnone⟩
      by_cases hj : p.cells.closure? j = none
      · exact .inr ⟨hlt, hj⟩
      · exact .inl ⟨hnone, Option.isSome_iff_ne_none.2 hj⟩
  · have hcensus := hfree.census_eq k
    have hledger := h.alloc_eq k
    rw [Ledger.alloc_recordFreed, Ledger.free_get_recordFreed]
    simp only
    omega

/-- The slot that the next closure goes to is empty. -/
theorem closure?_nextSlot (h : p.Sound refs) : p.cells.closure? p.nextSlot = none := by
  rw [nextSlot]
  cases hfree : p.free with
  | nil => exact Cells.closure?_of_size_le (Nat.le_refl _)
  | cons slot rest => exact ((h.mem_free slot).1 (by rw [hfree]; exact List.mem_cons_self ..)).2

theorem insert (h : p.Sound (c.captures + refs)) :
    (p.insert c).Sound (p.nextSlot ::ₘ refs) ∧
      (p.insert c).ledger.alloc = (p.ledger.recordAlloc c.kind).alloc ∧
      ∀ j, (p.insert c).cells.closure? j =
        if j = p.nextSlot then some c else p.cells.closure? j := by
  have hnone := h.closure?_nextSlot
  have hledger (k : Kind) : (p.ledger.recordAlloc c.kind).alloc.get k =
      (p.ledger.recordAlloc c.kind).free.get k + (p.cells.census k +
        if c.kind = k then 1 else 0) := by
    have hk := h.alloc_eq k
    rw [Ledger.alloc_get_recordAlloc, Ledger.recordAlloc]
    simp only
    omega
  cases hfree : p.free with
  | nil =>
    have hnext : p.nextSlot = p.cells.size := by rw [nextSlot, hfree]; rfl
    have hempty (j : Nat) : ¬ (j < p.cells.size ∧ p.cells.closure? j = none) := by
      rw [← h.mem_free, hfree]
      exact List.not_mem_nil
    rw [hnext]
    simp only [Pool.insert, hfree]
    refine ⟨⟨h.cells.push, List.nodup_nil, fun j => ?_, fun k => ?_⟩, trivial,
      fun j => Cells.closure?_push⟩
    · rw [Cells.size_push, Cells.closure?_push]
      constructor
      · intro hj
        cases hj
      · rintro ⟨hlt, hnone⟩
        by_cases hj : j = p.cells.size
        · rw [if_pos hj] at hnone
          cases hnone
        · rw [if_neg hj] at hnone
          exact absurd ⟨by omega, hnone⟩ (hempty j)
    · rw [Cells.census_push, hledger]
      simp
  | cons slot rest =>
    have hnext : p.nextSlot = slot := by rw [nextSlot, hfree]; rfl
    rw [hnext] at hnone ⊢
    have hlt : slot < p.cells.size :=
      ((h.mem_free slot).1 (by rw [hfree]; exact List.mem_cons_self ..)).1
    have hnodup := h.nodup
    rw [hfree, List.nodup_cons] at hnodup
    simp only [Pool.insert, hfree]
    refine ⟨⟨h.cells.fill hlt hnone, hnodup.2, fun j => ?_, fun k => ?_⟩, trivial,
      fun j => Cells.closure?_put hlt⟩
    · have hj := h.mem_free j
      rw [hfree, List.mem_cons] at hj
      rw [Cells.size_put, Cells.closure?_put hlt]
      by_cases hjs : j = slot
      · subst hjs
        simp [hnodup.1]
      · rw [if_neg hjs, ← hj]
        simp [hjs]
    · have hcell : p.cells.toArray[slot]? = some ⟨0, none⟩ := h.cells.cell_of_none hlt hnone
      have hcensus := Cells.census_put hcell ⟨1, some c⟩ k
      rw [hledger]
      simp only [Cell.holds_some, decide_eq_true_eq] at hcensus
      have hempty : Cell.holds k ⟨0, none⟩ = false := Cell.holds_empty k
      rw [hempty] at hcensus
      simp only [Bool.false_eq_true, if_false, Nat.add_zero] at hcensus
      rw [hcensus]

end Sound

end Pool

end ChurchStore
