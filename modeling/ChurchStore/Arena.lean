import ChurchStore.Host

/-!
# Arenas

A store that fills blocks of a fixed capacity one after another and never reclaims a single
closure. Memory comes back only when an arena is reset, which starts a new epoch. A handle names
the arena, the epoch and the place of its closure; one from another arena or from an earlier epoch
is refused, so it never reads a closure that it was not issued for.
-/

namespace ChurchStore

/-- The place of a closure: an arena, its epoch, a block and a position in the block
(`ArenaRef`). -/
structure ArenaRef where
  arena : Site
  epoch : UInt32
  block : Nat
  slot : Nat
  deriving DecidableEq, Repr, Inhabited

/-- A block of closures, with the bytes of it that are handed out (`ArenaBlock`). -/
structure Block where
  closures : Array (Closure ArenaRef) := #[]
  used : Nat := 0
  deriving DecidableEq, Repr, Inhabited

/-- The blocks of one evaluator, of which the last one is being filled (`ArenaState`). -/
structure Arena where
  capacity : Nat
  epoch : UInt32 := 0
  blocks : Array Block := #[]
  /-- Bytes handed out in all blocks. -/
  bytes : Nat := 0
  ledger : Ledger := {}
  deriving DecidableEq, Repr, Inhabited

namespace Arena

/-- Bytes that a stored closure takes in memory. -/
def closureBytes : Nat := 40

/-- Whether the last block has room for this many bytes. -/
def hasRoom (a : Arena) (size : Nat) : Bool :=
  match a.blocks.back? with
  | some head => head.used + size ≤ a.capacity
  | none => false

/-- Bytes reserved for a block, in which each closure takes at least one word of capacity. -/
def blockReservation (a : Arena) : Nat := a.capacity / Closure.headerWord * closureBytes

def addBlock (a : Arena) : Arena := { a with blocks := a.blocks.push {} }

/-- Puts a closure into the last block. -/
def place (a : Arena) (c : Closure ArenaRef) : Arena :=
  { a with
    blocks := a.blocks.modify (a.blocks.size - 1) fun b =>
      { closures := b.closures.push c, used := b.used + c.footprint }
    bytes := a.bytes + c.footprint
    ledger := a.ledger.recordAlloc c.kind }

/-- The place that the next closure goes to in the last block. -/
def nextRef (a : Arena) (site : Site) : ArenaRef where
  arena := site
  epoch := a.epoch
  block := a.blocks.size - 1
  slot := (a.blocks.back?.map (·.closures.size)).getD 0

/-- The closure at a place. -/
def closure? (a : Arena) (block slot : Nat) : Option (Closure ArenaRef) :=
  a.blocks[block]?.bind (·.closures[slot]?)

/-- The empty arena of the next epoch (`reset`, up to the new builtin functions). -/
def cleared (a : Arena) : Arena := { capacity := a.capacity, epoch := a.epoch + 1 }

/-- The counters of an arena (`stats` of `Arena`). -/
def stats (a : Arena) : AllocStats :=
  { a.ledger.snapshot with blocks := a.blocks.size, bytes := a.bytes }

end Arena

/-- The arenas of all evaluators. The position of an arena stands for the number that the program
gives to each new one. -/
structure Arenas where
  toArray : Array Arena := #[]
  deriving DecidableEq, Repr, Inhabited

namespace Arenas

def arena (w : Arenas) (site : Site) : Arena := (w.toArray[site]?).getD { capacity := 0 }

/-- Changes one arena. -/
def modify (w : Arenas) (site : Site) (f : Arena → Arena) : Arenas := ⟨w.toArray.modify site f⟩

/-- Starts a new block (`push_block`). -/
def grow (site : Site) : Act Arenas Unit := do
  let (reservation, blocks, bytes) ← Act.read fun w =>
    let a := w.arena site
    (a.blockReservation, a.blocks.size, a.bytes)
  if reservation < reservationBound then
    Act.update (·.modify site Arena.addBlock)
    Act.emit (.blockAllocated (blocks + 1) bytes)
  else
    throw .capacityOverflow

/-- Puts a closure after the others, in a new block if the last one has no room for it (`allocate`,
without the check of `handle_index` that positions fit in 32 bits). -/
def alloc (site : Site) (c : Closure ArenaRef) : Act Arenas ArenaRef := do
  let (capacity, hasRoom) ← Act.read fun w =>
    let a := w.arena site
    (a.capacity, a.hasRoom c.footprint)
  if capacity < c.footprint then
    Act.violate (.oversizeAllocation c.footprint capacity)
  else
    unless hasRoom do
      grow site
    let place ← Act.read fun w => (w.arena site).nextRef site
    Act.update (·.modify site (·.place c))
    return place

/-- The closure that a handle was issued for (`get` of `ArenaState`). -/
def resolve (site : Site) (h : ArenaRef) : Act Arenas (Closure ArenaRef) := do
  if h.arena ≠ site then
    Act.violate (.foreignHandle .arena)
  else
    let epoch ← Act.read fun w => (w.arena site).epoch
    if h.epoch ≠ epoch then
      Act.violate (.staleHandle h.epoch epoch)
    else
      match ← Act.read fun w => (w.arena site).closure? h.block h.slot with
      | some c => return c
      | none => Act.violate (.danglingHandle h.block h.slot)

/-- Opens an evaluator with an arena of its own (`new` of `Arena`). -/
def openArena (limits : Limits) : Act Arenas (Evaluator ArenaRef) := do
  let site ← Act.read (·.toArray.size)
  Act.update fun w => ⟨w.toArray.push { capacity := limits.blockCapacity }⟩
  let singletons ← Singletons.build (alloc site)
  return { site, singletons, nesting := limits.nesting }

/-- Drops all closures of an arena and starts its next epoch with new builtin functions
(`reset`). -/
def reset (e : Evaluator ArenaRef) : Act Arenas (Evaluator ArenaRef) := do
  let (epoch, bytes) ← Act.read fun w =>
    let a := w.arena e.site
    (a.epoch, a.bytes)
  Act.emit (.arenaReset epoch bytes)
  Act.update (·.modify e.site Arena.cleared)
  let singletons ← Singletons.build (alloc e.site)
  return { e with singletons }

instance : Host Arenas ArenaRef where
  kind := .arena
  alloc := alloc
  resolve := resolve
  retain _ w := w
  release _ w := w
  same a b := a == b
  stats site w := (w.arena site).stats
  handleBytes := 16
  initial := {}
  openWith := openArena
  reset? := some reset
  describe h := return .arena h.block h.slot
  extent site w :=
    let a := w.arena site
    .arena a.epoch a.blocks.size a.bytes
  ledger? _ _ := none

end Arenas

end ChurchStore
