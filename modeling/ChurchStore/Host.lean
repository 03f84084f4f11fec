import ChurchStore.Evaluator

/-!
# Hosts

A host is a store in which evaluators can be opened, reset and looked at from outside.
-/

namespace ChurchStore

/-- Where a handle points and what a reader of it can see. -/
inductive Placement where
  | arena (block slot : Nat)
  | shared (kind : Kind) (owners : Nat)
  | pooled (slot : Nat) (kind : Kind) (owners : Nat)
  deriving DecidableEq, Repr

def Placement.render : Placement → String
  | arena block slot => s!"({block}, {slot})"
  | shared kind owners => "Shared(" ++ kind.name ++ s!", owners={owners})"
  | pooled slot kind owners => s!"PoolRef(#{slot} " ++ kind.name ++ s!", owners={owners})"

/-- The size of an evaluator's store. -/
inductive Extent where
  | arena (epoch : UInt32) (blocks bytes : Nat)
  | refcounted (live : Nat)
  | pooled (live freeSlots : Nat)
  deriving DecidableEq, Repr

/-- A store in which evaluators can be opened and looked at. -/
class Host (W : Type) (H : outParam Type) extends Backend W H where
  /-- The store without any evaluator. -/
  initial : W
  /-- Opens an evaluator within the given limits. -/
  openWith : Limits → Act W (Evaluator H)
  /-- Drops everything that an evaluator has stored, where the store can do that. -/
  reset? : Option (Evaluator H → Act W (Evaluator H))
  describe : H → Act W Placement
  extent : Site → W → Extent
  /-- The counters that outlive an evaluator, where the store keeps any. -/
  ledger? : Site → W → Option Ledger

end ChurchStore
