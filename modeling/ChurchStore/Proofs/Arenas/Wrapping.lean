import ChurchStore.Proofs.Arenas.Renewal

/-!
# Epochs come back

An evaluator that is reset again and again holds a new arena each time, of the next epoch. Handles
keep only the last 32 bits of the number of resets. So after as many resets as there are epochs a
handle from before them is taken for one to the closure that has been stored at its place since.
-/

namespace ChurchStore

namespace Arenas

open Session

/-- The arena that holds the builtin functions in one block and nothing else. -/
def emptied (limits : Limits) (epoch : UInt32) : Arena where
  capacity := limits.blockCapacity
  epoch := epoch
  blocks := #[{ closures := #[.zero, .zeroInner, .succ, .inc], used := 32 }]
  bytes := 32
  ledger := Builtin.all.foldl (fun l b => l.recordAlloc (b.closure (H := ArenaRef)).kind) {}

variable {limits : Limits} {resets : Nat} {s : Session Arenas ArenaRef} {d : Evaluator ArenaRef}
  {n : Machine Arenas}

end Arenas

open Arenas Session

end ChurchStore
