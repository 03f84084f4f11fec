import ChurchStore.Cells
import ChurchStore.Host

/-!
# Pools

A store that keeps the closures of each evaluator in the slots of one pool. A slot counts its
owners: the handles for it, and the captures in occupied slots. When the last owner is gone the
slot goes on the free list, and the slot that was freed last is the first one to be used again;
the pool grows only while no slot is free. Slots hold captures as bare positions.
-/

namespace ChurchStore

/-- The slots of one evaluator (`Pool`). -/
structure Pool where
  cells : Cells := {}
  /-- The free slots, the most recently freed one first. -/
  free : List Nat := []
  /-- Allocations that were served from the free list. -/
  reused : Nat := 0
  ledger : Ledger := {}
  deriving Repr, Inhabited

namespace Pool

/-- The slot that the next closure goes to. -/
def nextSlot (p : Pool) : Nat := p.free.headD p.cells.size

/-- Stores a closure, whose captures are already counted, with one owner (`insert`, without its
check that the number of a new slot fits in 32 bits). -/
def insert (p : Pool) (c : Closure Nat) : Pool :=
  match p.free with
  | [] =>
    { p with
      cells := p.cells.push ⟨1, some c⟩
      ledger := p.ledger.recordAlloc c.kind }
  | slot :: rest =>
    { cells := p.cells.put slot ⟨1, some c⟩
      free := rest
      reused := p.reused + 1
      ledger := p.ledger.recordAlloc c.kind }

/-- Adds an owner of a slot (`acquire` of `Pool`). -/
def acquire (p : Pool) (slot : Nat) : Pool := { p with cells := p.cells.acquire slot }

/-- Puts an emptied slot on the free list. -/
def reclaim (p : Pool) (f : Cells.Freed) : Pool :=
  { p with free := f.cell :: p.free, ledger := p.ledger.recordFree f.kind }

/-- Removes an owner of a slot; slots without owners go on the free list (`release` of `Pool`). -/
def release (p : Pool) (slot : Nat) : Pool :=
  let (cells, freed) := p.cells.release slot
  freed.foldl reclaim { p with cells }

/-- The counters of a pool (`stats` of `Pooled`). -/
def stats (p : Pool) : AllocStats :=
  { p.ledger.snapshot with slots := p.cells.size, reused := p.reused }

end Pool

/-- A slot of one of several pools (`PoolRef`). -/
structure PoolRef where
  pool : Site
  slot : Nat
  deriving DecidableEq, Repr, Inhabited

/-- The pools of all evaluators. -/
structure Pools where
  toArray : Array Pool := #[]
  deriving Repr, Inhabited

namespace Pools

def pool (w : Pools) (site : Site) : Pool := (w.toArray[site]?).getD {}

/-- Changes one pool. -/
def modify (w : Pools) (site : Site) (f : Pool → Pool) : Pools := ⟨w.toArray.modify site f⟩

/-- Duplicates a handle (`clone` of `PoolRef`). -/
def retain (h : PoolRef) (w : Pools) : Pools := w.modify h.pool (·.acquire h.slot)

/-- Gives a handle back (`drop` of `PoolRef`). -/
def release (h : PoolRef) (w : Pools) : Pools := w.modify h.pool (·.release h.slot)

/-- Makes a pool an owner of the slot that a handle names, and gives the handle back. A handle of
another pool is taken by its position alone, which has to exist in this pool. This is what `store`
does with each capture. -/
def adopt (site : Site) (h : PoolRef) : Act Pools Nat := do
  let size ← Act.read fun w => (w.pool site).cells.size
  if h.slot < size then
    Act.update fun w => release h (w.modify site (·.acquire h.slot))
    return h.slot
  else
    Act.update (release h)
    throw (.indexOutOfBounds size h.slot)

/-- Adopts the captures of a closure in their order. -/
def adoptCaptures (site : Site) : Closure PoolRef → Act Pools (Closure Nat)
  | .zero => return .zero
  | .zeroInner => return .zeroInner
  | .succ => return .succ
  | .succPartial n => return .succPartial (← adopt site n)
  | .succInner n s => do
    let n ← Act.onFault (release s) (adopt site n)
    let s ← adopt site s
    return .succInner n s
  | .intLiteral value => return .intLiteral value
  | .inc => return .inc

/-- Stores a closure with its captures (`store`). -/
def alloc (site : Site) (c : Closure PoolRef) : Act Pools PoolRef := do
  let c ← adoptCaptures site c
  let (slot, isReused) ← Act.read fun w =>
    let p := w.pool site
    (p.nextSlot, !p.free.isEmpty)
  Act.update (·.modify site (·.insert c))
  if isReused then
    Act.emit (.slotReused slot c.kind)
  return ⟨site, slot⟩

/-- The closure in a slot of the evaluator's own pool (`resolve` of `Pooled`). -/
def resolve (site : Site) (h : PoolRef) : Act Pools (Closure PoolRef) := do
  if h.pool ≠ site then
    Act.violate (.foreignHandle .pooled)
  else
    match ← Act.read fun w => (w.pool site).cells.closure? h.slot with
    | none => Act.violate (.freedSlot h.slot)
    | some c =>
      Act.update (·.modify site fun p => c.captures.foldl Pool.acquire p)
      return c.map (⟨site, ·⟩)

/-- Opens an evaluator with an empty pool (`new` of `Pooled`). -/
def openPool (limits : Limits) : Act Pools (Evaluator PoolRef) := do
  let site ← Act.read (·.toArray.size)
  Act.update fun w => ⟨w.toArray.push {}⟩
  let singletons ← Singletons.build (alloc site)
  return { site, singletons, nesting := limits.nesting }

/-- The slot of a handle with its closure's kind and its number of owners (`slot`, `kind` and
`owners` of `PoolRef`). -/
def describe (h : PoolRef) : Act Pools Placement := do
  match ← Act.read fun w => (w.pool h.pool).cells.closure? h.slot with
  | none => Act.violate (.freedSlot h.slot)
  | some c => return .pooled h.slot c.kind (← Act.read fun w => (w.pool h.pool).cells.owners h.slot)

instance : Host Pools PoolRef where
  kind := .pooled
  alloc := alloc
  resolve := resolve
  retain := retain
  release := release
  same a b := a == b
  stats site w := (w.pool site).stats
  handleBytes := 16
  initial := {}
  openWith := openPool
  reset? := none
  describe := describe
  extent site w := .pooled (w.pool site).ledger.live (w.pool site).free.length
  ledger? site w := some (w.pool site).ledger

end Pools

end ChurchStore
