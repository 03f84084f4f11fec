import ChurchStore.Proofs.Cells.Standing
import ChurchStore.Proofs.Pools

/-!
# Tidy pools

Whatever handles a pool has adopted and however wrong its counts have become, its free slots are
empty and listed once, and what is captured in it is one of its slots. So a closure never takes the
place of another one.
-/

namespace ChurchStore

namespace Pool

variable {p : Pool} {c x : Closure Nat} {i j k : Nat}

/-- The free slots of a pool are empty, each is listed once, and captures are slots. -/
structure Tidy (p : Pool) : Prop where
  closed : p.cells.Closed
  nodup : p.free.Nodup
  of_mem_free {i : Nat} : i ∈ p.free → i < p.cells.size ∧ p.cells.closure? i = none

namespace Tidy

theorem empty : Tidy {} := ⟨.empty, List.nodup_nil, fun h => by cases h⟩

theorem acquire (h : p.Tidy) (slot : Nat) : (p.acquire slot).Tidy where
  closed := h.closed.acquire slot
  nodup := h.nodup
  of_mem_free hi := by
    change _ < (p.cells.acquire slot).size ∧ (p.cells.acquire slot).closure? _ = none
    rw [Cells.size_acquire, Cells.closure?_acquire]
    exact h.of_mem_free hi

/-- What a release empties was occupied, so it was not free. -/
theorem release (h : p.Tidy) (slot : Nat) : (p.release slot).Tidy := by
  have hfree := p.cells.freeing_release slot
  have hclosed := h.closed.release slot
  simp only [Pool.release, foldl_reclaim]
  refine ⟨hclosed, ?_, fun {i} hi => ?_⟩
  · rw [List.nodup_append', List.nodup_reverse]
    refine ⟨hfree.nodup, h.nodup, fun i hi hi' => ?_⟩
    have hsome := (hfree.mem_iff.1 (List.mem_reverse.1 hi)).2
    rw [(h.of_mem_free hi').2] at hsome
    cases hsome
  · simp only [hfree.size_eq]
    rcases List.mem_append.1 hi with hi | hi
    · obtain ⟨hnone, hsome⟩ := hfree.mem_iff.1 (List.mem_reverse.1 hi)
      exact ⟨Cells.lt_size_of_isSome hsome, hnone⟩
    · obtain ⟨hlt, hnone⟩ := h.of_mem_free hi
      refine ⟨hlt, Option.eq_none_iff_forall_ne_some.2 fun c hc => ?_⟩
      rw [hfree.closure?_some hc] at hnone
      cases hnone

/-- The slot that the next closure goes to is empty. -/
theorem closure?_nextSlot (h : p.Tidy) : p.cells.closure? p.nextSlot = none := by
  unfold nextSlot
  cases hfree : p.free with
  | nil => exact Cells.closure?_of_size_le (Nat.le_refl _)
  | cons slot rest => exact (h.of_mem_free (by simp [hfree])).2

/-- A closure goes to a cell at the end, or to an empty cell. -/
theorem insert_cases (h : p.Tidy) (c : Closure Nat) :
    (p.free = [] ∧ p.nextSlot = p.cells.size ∧
        (p.insert c).cells = p.cells.push ⟨1, some c⟩ ∧ (p.insert c).free = []) ∨
      p.nextSlot < p.cells.size ∧ (p.insert c).cells = p.cells.put p.nextSlot ⟨1, some c⟩ ∧
        p.free = p.nextSlot :: (p.insert c).free := by
  unfold insert nextSlot
  cases hfree : p.free with
  | nil => exact .inl ⟨rfl, rfl, rfl, rfl⟩
  | cons slot rest => exact .inr ⟨(h.of_mem_free (by simp [hfree])).1, rfl, rfl⟩

theorem closure?_insert (h : p.Tidy) (c : Closure Nat) (j : Nat) :
    (p.insert c).cells.closure? j = if j = p.nextSlot then some c else p.cells.closure? j := by
  rcases h.insert_cases c with ⟨-, hnext, hcells, -⟩ | ⟨hlt, hcells, -⟩
  · rw [hcells, Cells.closure?_push, hnext]
  · rw [hcells, Cells.closure?_put hlt]

theorem owners_insert (h : p.Tidy) (c : Closure Nat) (j : Nat) :
    (p.insert c).cells.owners j = if j = p.nextSlot then 1 else p.cells.owners j := by
  rcases h.insert_cases c with ⟨-, hnext, hcells, -⟩ | ⟨hlt, hcells, -⟩
  · rw [hcells, Cells.owners_push, hnext]
  · rw [hcells, Cells.owners_put hlt]

theorem size_insert (h : p.Tidy) (c : Closure Nat) :
    p.cells.size ≤ (p.insert c).cells.size ∧ p.nextSlot < (p.insert c).cells.size := by
  rcases h.insert_cases c with ⟨-, hnext, hcells, -⟩ | ⟨hlt, hcells, -⟩
  · rw [hcells, hnext, Cells.size_push]
    omega
  · rw [hcells, Cells.size_put]
    exact ⟨Nat.le_refl _, hlt⟩

theorem insert (h : p.Tidy) (hc : ∀ j ∈ c.captures, j < p.cells.size) : (p.insert c).Tidy := by
  refine ⟨h.closed.of_closure?_new hc (h.size_insert c).1 (h.closure?_insert c), ?_, ?_⟩
  · rcases h.insert_cases c with ⟨-, -, -, hfree⟩ | ⟨-, -, hfree⟩
    · rw [hfree]
      exact List.nodup_nil
    · have hnodup := h.nodup
      rw [hfree] at hnodup
      exact (List.nodup_cons.1 hnodup).2
  · intro i hi
    rcases h.insert_cases c with ⟨-, -, -, hfree⟩ | ⟨-, -, hfree⟩
    · rw [hfree] at hi
      cases hi
    · have hnodup := h.nodup
      rw [hfree] at hnodup
      have hne : i ≠ p.nextSlot := fun heq => (List.nodup_cons.1 hnodup).1 (heq ▸ hi)
      obtain ⟨hlt, hnone⟩ := h.of_mem_free (hfree ▸ List.mem_cons_of_mem _ hi)
      rw [h.closure?_insert, if_neg hne]
      exact ⟨Nat.lt_of_lt_of_le hlt (h.size_insert c).1, hnone⟩

/-- What a new closure captures it owns. -/
theorem stands_insert (h : p.Tidy) (hs : p.cells.Stands i c (k + x.captures.count i)) :
    (p.insert x).cells.Stands i c k := by
  rcases h.insert_cases x with ⟨-, -, hcells, -⟩ | ⟨hlt, hcells, -⟩
  · rw [hcells]
    exact hs.push
  · rw [hcells]
    exact hs.fill hlt h.closure?_nextSlot

end Tidy

end Pool

end ChurchStore
