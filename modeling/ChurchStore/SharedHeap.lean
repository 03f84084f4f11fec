import ChurchStore.Cells
import ChurchStore.Host

/-!
# Reference-counted heap

A store in which every closure is a node of its own. A node counts its owners: the handles for it,
and the captures in live nodes. When the last owner is gone the node is destroyed, which releases
its captures in turn, and the destruction is counted in the ledger of the evaluator that allocated
it. All evaluators share one heap, so handles can be passed between them.
-/

namespace ChurchStore

/-- A node of the heap (`Shared`). -/
structure NodeRef where
  node : Nat
  deriving DecidableEq, Repr, Inhabited

/-- The nodes of all evaluators, past and present. -/
structure SharedHeap where
  nodes : Cells := {}
  /-- The evaluator that allocated each node. -/
  homes : Array Site := #[]
  /-- The counters of each evaluator. -/
  ledgers : Array Ledger := #[]
  deriving Repr, Inhabited

namespace SharedHeap

def ledger (w : SharedHeap) (site : Site) : Ledger := (w.ledgers[site]?).getD {}

/-- The evaluator that allocated a node. -/
def home (w : SharedHeap) (node : Nat) : Site := (w.homes[node]?).getD 0

/-- Adds a node with one owner; its captures are owned by it from now on. -/
def insert (w : SharedHeap) (site : Site) (c : Closure NodeRef) : SharedHeap where
  nodes := w.nodes.push ⟨1, some (c.map (·.node))⟩
  homes := w.homes.push site
  ledgers := w.ledgers.modify site (·.recordAlloc c.kind)

/-- Duplicates a handle (`clone` of `Shared`). -/
def retain (h : NodeRef) (w : SharedHeap) : SharedHeap :=
  { w with nodes := w.nodes.acquire h.node }

/-- Counts the destruction of a node where it was allocated (`drop` of `Node`). -/
def bury (w : SharedHeap) (f : Cells.Freed) : SharedHeap :=
  let site := w.home f.cell
  { w with ledgers := w.ledgers.modify site (·.recordFree f.kind) }

/-- Gives a handle back (`drop` of `Shared`). -/
def release (h : NodeRef) (w : SharedHeap) : SharedHeap :=
  let (nodes, freed) := w.nodes.release h.node
  freed.foldl bury { w with nodes }

/-- Makes a node of a closure (`new` of `Shared`). -/
def alloc (site : Site) (c : Closure NodeRef) : Act SharedHeap NodeRef := do
  let node ← Act.read (·.nodes.size)
  Act.update (·.insert site c)
  return ⟨node⟩

/-- The closure of a node, whichever evaluator allocated it (`resolve` of `Refcounted`). -/
def resolve (h : NodeRef) : Act SharedHeap (Closure NodeRef) := do
  match ← Act.read (·.nodes.closure? h.node) with
  | none => throw (.indexOutOfBounds (← Act.read (·.nodes.size)) h.node)
  | some c =>
    Act.update fun w => { w with nodes := c.captures.foldl Cells.acquire w.nodes }
    return c.map (⟨·⟩)

/-- Opens an evaluator with counters of its own (`new` of `Refcounted`). -/
def openLedger (limits : Limits) : Act SharedHeap (Evaluator NodeRef) := do
  let site ← Act.read (·.ledgers.size)
  Act.update fun w => { w with ledgers := w.ledgers.push {} }
  let singletons ← Singletons.build (alloc site)
  Act.emit .singletonsAllocated
  return { site, singletons, nesting := limits.nesting }

/-- The kind of a handle's closure and its number of owners (`kind` and `owners` of `Shared`). -/
def describe (h : NodeRef) : Act SharedHeap Placement := do
  match ← Act.read (·.nodes.closure? h.node) with
  | none => throw (.indexOutOfBounds (← Act.read (·.nodes.size)) h.node)
  | some c => return .shared c.kind (← Act.read (·.nodes.owners h.node))

instance : Host SharedHeap NodeRef where
  kind := .refcounted
  alloc := alloc
  resolve _ := resolve
  retain := retain
  release := release
  same a b := a == b
  stats site w := (w.ledger site).snapshot
  handleBytes := 8
  initial := {}
  openWith := openLedger
  reset? := none
  describe := describe
  extent site w := .refcounted (w.ledger site).live
  ledger? site w := some (w.ledger site)

end SharedHeap

end ChurchStore
