import ChurchStore.Proofs.Ownership
import ChurchStore.Proofs.Session.HandleSize
import ChurchStore.Proofs.Arenas.Sessions

/-!
# Stores that count in lockstep

The same run counts the same on an arena, on the shared heap and on a pool. All three go along with
one grove: the allocations of the grove are counted by each of them, an arena frees nothing, and
the heap and the pool free what dies on the grove and count the owners that the grove has. The
handles of the heap are smaller than those of the others, so it is looked at in another guise, with
handles of their size, which makes no difference unless a table could be reserved on the heap
only.
-/

namespace ChurchStore

open Session

variable {filter : Log.Filter} {limits : Limits} {commands : List Command}

/-- The number of owners of the node behind a handle. -/
def SharedHeap.owners (w : SharedHeap) (h : NodeRef) : Nat := w.nodes.owners h.node

/-- The number of owners of the slot behind a handle. -/
def Pools.owners (w : Pools) (h : PoolRef) : Nat := (w.pool h.pool).cells.owners h.slot

namespace Representation.Counted

variable {W H : Type} [Host W H] {R : Representation W} {cells : W → Cells} {ledger : W → Ledger}
  {handle : Nat → H} {position : H → Nat} {b : Nat} {hb : Backend.handleBytes W = b}

theorem tallies_after (hR : R.Counted cells ledger handle position) (owners : W → H → Nat)
    (howners : ∀ w i, owners w (handle i) = (cells w).owners i) {w : W} {g : Grove b}
    (hopens : (R.simulation hb []).Opens limits w g) (hmade : g.made = [])
    (hfits : g.capacity.filter (· < Closure.headerWord) = none) (filter : Log.Filter)
    (hc : ∀ command ∈ commands, command.isOperation = true) :
    Tallies ledger owners ((openedOn w filter limits).after commands)
      ((openedOn g filter limits).after commands) := by
  obtain ⟨e, c, hafter⟩ :=
    hopens.paired_after filter (Grove.openGrove_of_fits limits hfits hmade) hc
  exact hR.tallies owners howners hafter

end Representation.Counted

namespace SharedHeap

/-- The shared heap can be opened with handles of another size. -/
theorem opens_guise (bytes : Nat) (limits : Limits) :
    (((SharedHeap.representation 0).guise bytes).simulation (b := bytes) rfl []).Opens limits
      Host.initial Host.initial := by
  refine Representation.opens (v := { ledgers := #[{}] }) ?_ (fun m hm => ?_)
    fun t m => ⟨m.journal.record .singletonsAllocated, rfl⟩
  · exact Representation.represents_empty Sound.initial (fun h => rfl) rfl
      (fun k => PerKind.get_const ..) fun c => rfl
  · obtain ⟨w, j⟩ := m
    subst hm
    exact ⟨j, rfl⟩

/-- A heap counts along with a grove whose handles are larger. -/
theorem tallies_after {bytes : Nat} (hle : 8 ≤ bytes) (filter : Log.Filter) (limits : Limits)
    (hc : ∀ command ∈ commands, command.isOperation = true)
    (hfits : ∀ command ∈ commands, command.tableSize * bytes < reservationBound ∨
      reservationBound ≤ command.tableSize * 8) :
    Tallies (·.ledger 0) owners ((opened SharedHeap filter limits).after commands)
      ((opened (Grove bytes) filter limits).after commands) := by
  have h := ((counted 0).guise bytes).tallies_after owners (fun _ _ => rfl)
    (opens_guise bytes limits) rfl rfl filter hc
  have halike (command : Command) (hmem : command ∈ commands) :
      command.tableSize * bytes < reservationBound ↔
        command.tableSize * Backend.handleBytes SharedHeap < reservationBound := by
    have hlarger := Nat.mul_le_mul_left command.tableSize hle
    change _ ↔ command.tableSize * 8 < reservationBound
    have hcases := hfits command hmem
    omega
  rw [← Guise.after_eq hc halike]
  exact h

end SharedHeap

theorem Pools.tallies_after (filter : Log.Filter) (limits : Limits)
    (hc : ∀ command ∈ commands, command.isOperation = true) :
    Tallies (fun w => (w.pool 0).ledger) owners ((opened Pools filter limits).after commands)
      ((opened (Grove 16) filter limits).after commands) :=
  (counted 0).tallies_after owners (fun _ _ => rfl) (Pools.opens limits) rfl rfl filter hc

/-- An arena counts the allocations of a grove, and no frees. -/
theorem Arenas.counts_after (filter : Log.Filter)
    (hcap : Closure.maxFootprint ≤ limits.blockCapacity)
    (hbytes : limits.blockCapacity / Closure.headerWord * Arena.closureBytes < reservationBound)
    (hc : ∀ command ∈ commands, command.isOperation = true) (k : Kind) :
    (((opened Arenas filter limits).after commands).machine.store.arena 0).ledger.alloc.get k =
        ((opened (Grove 16) filter limits).after commands).machine.store.made.count k ∧
      (((opened Arenas filter limits).after commands).machine.store.arena 0).ledger.free.get k =
        0 := by
  have hopens := Arenas.opens none hbytes fun c => (Closure.filter_footprint_eq_none hcap c).symm
  obtain ⟨e, c, hafter⟩ := hopens.paired_after filter (Grove.openGrove_of_fits limits rfl rfl) hc
  obtain ⟨tree, -, hsound, hcount⟩ := Representation.exists_depicts hafter
  exact ⟨hcount k, hsound.free_eq k⟩

/-- What it means that three sessions count in lockstep, on an arena, on the shared heap and on a
pool. -/
structure Session.Lockstep (arena : Session Arenas ArenaRef) (heap : Session SharedHeap NodeRef)
    (pool : Session Pools PoolRef) : Prop where
  alloc_arena (k : Kind) : (arena.machine.store.arena 0).ledger.alloc.get k =
    (heap.machine.store.ledger 0).alloc.get k
  alloc_pool (k : Kind) : (heap.machine.store.ledger 0).alloc.get k =
    (pool.machine.store.pool 0).ledger.alloc.get k
  free_arena (k : Kind) : (arena.machine.store.arena 0).ledger.free.get k = 0
  free_pool (k : Kind) : (heap.machine.store.ledger 0).free.get k =
    (pool.machine.store.pool 0).ledger.free.get k
  /-- The handles that are held have as many owners, one by one. -/
  owners : heap.handles.map heap.machine.store.owners = pool.handles.map pool.machine.store.owners
  /-- And so do those of each variable. -/
  owners_getElem? (name : Name) : heap.bindings[name]?.map heap.machine.store.owners =
    pool.bindings[name]?.map pool.machine.store.owners

/-- After every run of operations, refused ones and such that stop with a fault included, the three
stores have counted as many allocations of each kind, an arena no frees, the heap and a pool as many
frees of each kind, and their handles have as many owners: if an arena could be opened whose blocks
have room for every closure, and as long as all three can reserve a table or none of them can, whose
handles take 16, 8 and 16 bytes. -/
theorem stores_count_in_lockstep (filter : Log.Filter) (limits : Limits) (commands : List Command)
    (hcap : Closure.maxFootprint ≤ limits.blockCapacity)
    (hopen : 0 < (opened Arenas filter limits).seats.size)
    (hc : ∀ command ∈ commands, command.isOperation = true)
    (hfits : ∀ command ∈ commands, command.tableSize * 16 < reservationBound ∨
      reservationBound ≤ command.tableSize * 8) :
    Lockstep ((opened Arenas filter limits).after commands)
      ((opened SharedHeap filter limits).after commands)
      ((opened Pools filter limits).after commands) := by
  have hbytes := Arenas.reservation_lt_of_opened hopen
  have harena (k : Kind) := Arenas.counts_after filter hcap hbytes hc k
  have hheap := SharedHeap.tallies_after (show 8 ≤ 16 by decide) filter limits hc hfits
  have hpool := Pools.tallies_after filter limits hc
  constructor
  case alloc_arena => exact fun k => (harena k).1.trans (hheap.alloc_eq k).symm
  case alloc_pool => exact fun k => (hheap.alloc_eq k).trans (hpool.alloc_eq k).symm
  case free_arena => exact fun k => (harena k).2
  case free_pool => exact fun k => (hheap.free_eq k).trans (hpool.free_eq k).symm
  case owners => exact hheap.map_owners.trans hpool.map_owners.symm
  case owners_getElem? =>
    exact fun name => (hheap.map_owners_getElem? name).trans (hpool.map_owners_getElem? name).symm

/-- A run that shares a closure, fails in the middle of an application, which leaves closures behind
in the arena only, and ends the evaluator. -/
theorem stores_count_in_lockstep_failing :
    Lockstep ((opened Arenas .off { blockCapacity := 24 }).after
        [.numeral 2 "n", .int 5 "i", .apply "n" "i" "f", .apply "f" "n" "x", .numerals 3 "t",
          .drop "n", .close])
      ((opened SharedHeap .off { blockCapacity := 24 }).after
        [.numeral 2 "n", .int 5 "i", .apply "n" "i" "f", .apply "f" "n" "x", .numerals 3 "t",
          .drop "n", .close])
      ((opened Pools .off { blockCapacity := 24 }).after
        [.numeral 2 "n", .int 5 "i", .apply "n" "i" "f", .apply "f" "n" "x", .numerals 3 "t",
          .drop "n", .close]) :=
  stores_count_in_lockstep .off { blockCapacity := 24 }
    [.numeral 2 "n", .int 5 "i", .apply "n" "i" "f", .apply "f" "n" "x", .numerals 3 "t",
      .drop "n", .close] (by decide) (by decide +kernel) (by decide) (by decide)

end ChurchStore
