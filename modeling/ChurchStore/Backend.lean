import ChurchStore.Ledger
import ChurchStore.Machine

/-!
# Backends

What an evaluator needs of a store. A store of type `W` serves several evaluators at once, which
are told apart by their `Site`, and hands out handles of type `H`. A handle is an owner of its
closure: it is duplicated by `retain` and given back by `release`, and a store may reclaim a
closure once nothing owns it.
-/

namespace ChurchStore

/-- Which of a store's evaluators an operation belongs to. -/
abbrev Site := Nat

/-- A store that holds closures behind handles (`Backend`). -/
class Backend (W : Type) (H : outParam Type) where
  kind : BackendKind
  /-- Stores a closure, and with it the handles of its captures. -/
  alloc : Site → Closure H → Act W H
  /-- The closure behind a handle; its captures are handles that the caller then owns. -/
  resolve : Site → H → Act W (Closure H)
  /-- Adds an owner of the closure behind a handle. -/
  retain : H → W → W
  /-- Removes an owner of the closure behind a handle. -/
  release : H → W → W
  /-- Whether two handles stand for the same allocation. -/
  same : H → H → Bool
  /-- The counters of an evaluator's store. -/
  stats : Site → W → AllocStats
  /-- Bytes that a handle takes in a table. -/
  handleBytes : Nat

namespace Backend

variable {W H α : Type} [Backend W H]

/-- A second handle for the same closure (`clone` of a handle). -/
@[inline]
def clone (h : H) : Act W H := do
  Act.update (retain h)
  return h

/-- Runs an operation and then gives a handle back, whether the operation answered or stopped
(`drop` at the end of a scope, also while unwinding). -/
@[inline]
def holding (h : H) (op : Act W α) : Act W α := op.ensuring (release h)

/-- Gives several handles back, the first one first. -/
def releaseAll (hs : List H) (w : W) : W := hs.foldl (fun w h => release h w) w

end Backend

end ChurchStore
