import ChurchStore.Cells
import ChurchStore.Ledger

/-!
# Running counters

What recording allocations and frees does to the counters of each kind.
-/

namespace ChurchStore.Ledger

variable {l : Ledger}

@[simp]
theorem alloc_get_empty (k : Kind) : ({} : Ledger).alloc.get k = 0 := PerKind.get_const ..

@[simp]
theorem free_get_empty (k : Kind) : ({} : Ledger).free.get k = 0 := PerKind.get_const ..

theorem alloc_get_recordAlloc (l : Ledger) (k j : Kind) :
    (l.recordAlloc k).alloc.get j = l.alloc.get j + if k = j then 1 else 0 := by
  by_cases h : k = j
  · subst h
    simp [recordAlloc]
  · simp [recordAlloc, h]

theorem free_get_recordFree (l : Ledger) (k j : Kind) :
    (l.recordFree k).free.get j = l.free.get j + if k = j then 1 else 0 := by
  by_cases h : k = j
  · subst h
    simp [recordFree]
  · simp [recordFree, h]

/-- Records that the listed cells were emptied. -/
def recordFreed (l : Ledger) (freed : List Cells.Freed) : Ledger :=
  freed.foldl (fun l f => l.recordFree f.kind) l

@[simp]
theorem alloc_recordFreed (l : Ledger) (freed : List Cells.Freed) :
    (l.recordFreed freed).alloc = l.alloc := by
  induction freed generalizing l with
  | nil => rfl
  | cons f freed ih => exact ih (l.recordFree f.kind)

theorem free_get_recordFreed (l : Ledger) (freed : List Cells.Freed) (k : Kind) :
    (l.recordFreed freed).free.get k = l.free.get k + freed.countP (·.kind = k) := by
  induction freed generalizing l with
  | nil => rfl
  | cons f freed ih =>
    have hrest := ih (l.recordFree f.kind)
    rw [free_get_recordFree] at hrest
    rw [recordFreed, List.foldl_cons, List.countP_cons]
    simp only [decide_eq_true_eq]
    rw [recordFreed] at hrest
    omega

theorem ext_get {l' : Ledger} (halloc : ∀ k, l.alloc.get k = l'.alloc.get k)
    (hfree : ∀ k, l.free.get k = l'.free.get k) : l = l' := by
  cases l
  cases l'
  rw [mk.injEq]
  exact ⟨PerKind.ext halloc, PerKind.ext hfree⟩

/-- The counters raised by those of another ledger. -/
def raise (more l : Ledger) : Ledger where
  alloc := .ofFn fun k => l.alloc.get k + more.alloc.get k
  free := .ofFn fun k => l.free.get k + more.free.get k

theorem raise_recordAlloc (more l : Ledger) (k : Kind) :
    more.raise (l.recordAlloc k) = (more.raise l).recordAlloc k := by
  refine ext_get (fun j => ?_) fun j => ?_
  · simp only [raise, PerKind.get_ofFn, alloc_get_recordAlloc]
    omega
  · simp only [raise, PerKind.get_ofFn, recordAlloc]

theorem raise_recordFreed (more l : Ledger) (freed : List Cells.Freed) :
    more.raise (l.recordFreed freed) = (more.raise l).recordFreed freed := by
  refine ext_get (fun j => ?_) fun j => ?_
  · simp only [raise, PerKind.get_ofFn, alloc_recordFreed]
  · simp only [raise, PerKind.get_ofFn, free_get_recordFreed]
    omega

/-- Counters can be raised so that they differ by any numbers. -/
theorem exists_raise (l : Ledger) (n : Kind → Nat) :
    ∃ more : Ledger, ∀ k, (more.raise l).alloc.get k = (more.raise l).free.get k + n k := by
  refine ⟨⟨.ofFn fun k => l.free.get k + n k, l.alloc⟩, fun k => ?_⟩
  simp only [raise, PerKind.get_ofFn]
  omega

/-- If everything that was allocated has been freed then nothing is live. -/
theorem live_eq_zero (h : ∀ k, l.alloc.get k = l.free.get k) : l.live = 0 := by
  have heq : l.alloc = l.free := PerKind.ext h
  rw [live, heq, Nat.sub_self]

/-- A report tells the counters of each kind; a kind without an entry reads as zero. -/
theorem kind_snapshot (l : Ledger) (k : Kind) : l.snapshot.kind k = l.kind k := by
  unfold AllocStats.kind snapshot
  by_cases h : l.kind k = {} <;> simp [h]

end ChurchStore.Ledger
