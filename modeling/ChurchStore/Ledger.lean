import ChurchStore.Kind

/-!
# Allocation counters

Each store counts, for each kind, the closures it has allocated and the closures it has freed.
The running counters are a `Ledger`. A report is an `AllocStats`, which holds entries only for
the kinds that were seen, and which can count on its own. Counting live closures never goes below
zero, however many more frees than allocations were recorded.
-/

namespace ChurchStore

/-- How many closures of one kind were allocated and freed (`AllocFree`). -/
structure AllocFree where
  alloc : Nat := 0
  free : Nat := 0
  deriving DecidableEq, Repr, Inhabited

/-- Closures allocated and not yet freed, never below zero (`live` of `AllocFree`). -/
def AllocFree.live (af : AllocFree) : Nat := af.alloc - af.free

/-- A report of allocations: an entry for each kind seen, and the size of the store
(`AllocStats`). -/
structure AllocStats where
  perKind : PerKind (Option AllocFree) := .const none
  /-- Blocks of an arena. -/
  blocks : Nat := 0
  /-- Bytes in use in an arena. -/
  bytes : Nat := 0
  /-- Slots of a pool, free ones included. -/
  slots : Nat := 0
  /-- Allocations that a pool served from its free list. -/
  reused : Nat := 0
  deriving DecidableEq, Repr, Inhabited

namespace AllocStats

/-- The counters of one kind, zero if it was never seen (`kind` of `AllocStats`). -/
def kind (s : AllocStats) (k : Kind) : AllocFree := (s.perKind.get k).getD {}

/-- Counts an allocation (`record_alloc` of `AllocStats`). -/
def recordAlloc (s : AllocStats) (k : Kind) : AllocStats :=
  { s with perKind := s.perKind.set k (some { s.kind k with alloc := (s.kind k).alloc + 1 }) }

/-- Counts a free (`record_free` of `AllocStats`). -/
def recordFree (s : AllocStats) (k : Kind) : AllocStats :=
  { s with perKind := s.perKind.set k (some { s.kind k with free := (s.kind k).free + 1 }) }

/-- The entries of the kinds that were seen. -/
def entries (s : AllocStats) : List AllocFree := s.perKind.toList.filterMap id

/-- All allocations (`allocated`). -/
def allocated (s : AllocStats) : Nat := s.entries.foldr (fun af n => af.alloc + n) 0

/-- All frees (`freed`). -/
def freed (s : AllocStats) : Nat := s.entries.foldr (fun af n => af.free + n) 0

/-- Closures of all kinds that are alive (`live` of `AllocStats`). -/
def live (s : AllocStats) : Nat := s.allocated - s.freed

end AllocStats

/-- Running counters of a store, which outlive the evaluator that owns it (`Ledger`). They are
natural numbers, so they never wrap. -/
structure Ledger where
  alloc : PerKind Nat := .const 0
  free : PerKind Nat := .const 0
  deriving DecidableEq, Repr, Inhabited

namespace Ledger

/-- Counts an allocation (`record_alloc` of `Ledger`). -/
def recordAlloc (l : Ledger) (k : Kind) : Ledger := { l with alloc := l.alloc.modify k (· + 1) }

/-- Counts a free (`record_free` of `Ledger`). -/
def recordFree (l : Ledger) (k : Kind) : Ledger := { l with free := l.free.modify k (· + 1) }

/-- Both counters of one kind. -/
def kind (l : Ledger) (k : Kind) : AllocFree := ⟨l.alloc.get k, l.free.get k⟩

/-- The counters as a report, without the kinds that were never counted (`snapshot`). -/
def snapshot (l : Ledger) : AllocStats :=
  { perKind := .ofFn fun k => if l.kind k = {} then none else some (l.kind k) }

/-- Closures of all kinds that are alive (`live` of `Ledger`). -/
def live (l : Ledger) : Nat := l.alloc.total - l.free.total

end Ledger

end ChurchStore
