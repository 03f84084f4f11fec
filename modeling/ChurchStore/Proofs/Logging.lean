import ChurchStore.Proofs.Arenas.Logging
import ChurchStore.Proofs.Pools.Logging

/-!
# The log accounts for the run

With all levels enabled, what an operation logs can be told from what it does to the store, and what
the store looks like from what was logged. The only records are those of slots that are used again,
of blocks, of resets and of violations.
-/

namespace ChurchStore

open Session

namespace SharedHeap

/-- A step of the opening of an evaluator, which is logged once its builtin functions exist. -/
def Opens (es : List Log.Event) (_ _ : SharedHeap) : Prop := es = [] ∨ es = [.singletonsAllocated]

end SharedHeap

end ChurchStore
