import ChurchStore.Proofs.Cells.Update
import ChurchStore.Proofs.Ledger
import Mathlib.Algebra.BigOperators.Group.List.Basic
import Mathlib.Algebra.GroupWithZero.Nat

/-!
# Totals over all kinds

Reports add up the counters of all kinds, and so does the number of live closures. Kinds that were
never counted are left out of a report, which changes no sum.
-/

namespace ChurchStore

namespace PerKind

theorem total_eq_sum (t : PerKind Nat) : t.total = (Kind.all.map t.get).sum := rfl

theorem total_const_zero : (const 0 : PerKind Nat).total = 0 := rfl

/-- Tables whose entries differ by given numbers have totals that differ by their sum. -/
theorem total_eq_add {t u : PerKind Nat} {f : Kind → Nat} (h : ∀ k, t.get k = u.get k + f k) :
    t.total = u.total + (Kind.all.map f).sum := by
  have hget : Kind.all.map t.get = Kind.all.map fun k => u.get k + f k :=
    List.map_congr_left fun k _ => h k
  rw [total_eq_sum, total_eq_sum, hget, List.sum_map_add]

end PerKind

/-- One more of one kind makes one more of all kinds. -/
theorem Kind.sum_indicator (k : Kind) : (Kind.all.map fun j => if k = j then 1 else 0).sum = 1 := by
  have h : ∀ j ∈ Kind.all, (Kind.all.map fun i => if j = i then 1 else 0).sum = 1 := by decide
  exact h k (Kind.mem_all k)

namespace Ledger

/-- Adding up the counters of a report, from which the kinds without any are left out. -/
theorem foldr_entries (l : Ledger) (f : AllocFree → Nat) (hf : f {} = 0) :
    l.snapshot.entries.foldr (fun af n => f af + n) 0 =
      (Kind.all.map fun k => f (l.kind k)).sum := by
  have hentries : l.snapshot.entries = Kind.all.filterMap fun k =>
      if l.kind k = {} then none else some (l.kind k) := by
    rw [AllocStats.entries, PerKind.toList, List.filterMap_map]
    refine List.filterMap_congr fun k _ => ?_
    rw [Function.comp_apply, snapshot, PerKind.get_ofFn, id]
  rw [hentries]
  induction Kind.all with
  | nil => rfl
  | cons k ks ih =>
    rw [List.filterMap_cons, List.map_cons, List.sum_cons]
    by_cases hk : l.kind k = {}
    · rw [if_pos hk, hk, hf, Nat.zero_add]
      exact ih
    · rw [if_neg hk]
      exact congrArg (f (l.kind k) + ·) ih

theorem allocated_snapshot (l : Ledger) : l.snapshot.allocated = l.alloc.total :=
  l.foldr_entries AllocFree.alloc rfl

theorem freed_snapshot (l : Ledger) : l.snapshot.freed = l.free.total :=
  l.foldr_entries AllocFree.free rfl

theorem total_recordAlloc (l : Ledger) (k : Kind) :
    (l.recordAlloc k).alloc.total = l.alloc.total + 1 := by
  rw [PerKind.total_eq_add (l.alloc_get_recordAlloc k), Kind.sum_indicator]

end Ledger

/-- Every occupied cell holds a closure of exactly one kind. -/
theorem Cells.sum_census (cs : Cells) : (Kind.all.map cs.census).sum = cs.occupied := by
  have hcell (cell : Cell) : (Kind.all.map fun k => if cell.holds k then 1 else 0).sum =
      if cell.isOccupied then 1 else 0 := by
    cases h : cell.closure with
    | none => simp [Cell.holds, Cell.isOccupied, h]
    | some c => simpa [Cell.holds, Cell.isOccupied, h] using c.kind.sum_indicator
  have hcells (cells : List Cell) :
      (Kind.all.map fun k => cells.countP (Cell.holds k)).sum = cells.countP Cell.isOccupied := by
    induction cells with
    | nil => rfl
    | cons cell cells ih => simp only [List.countP_cons, List.sum_map_add, ih, hcell]
  exact hcells cs.toArray.toList

end ChurchStore
