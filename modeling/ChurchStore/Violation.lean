import ChurchStore.Config

/-!
# Faults

A `Violation` is a misuse of the evaluator: an ill-typed application, an integer that overflows,
an allocation that no block can hold, or a handle that a store does not know. A `Fault` is any
reason for which an operation stops early, with the message that is shown for it.
-/

namespace ChurchStore

/-- A misuse of the evaluator or of a store (`Violation`). -/
inductive Violation where
  /-- A closure of this kind was applied. -/
  | notApplicable (kind : Kind)
  /-- The integer of a closure of this kind was asked for. -/
  | notNumeric (kind : Kind)
  /-- The largest integer was to be incremented. -/
  | integerOverflow (value : Int64)
  /-- A closure is larger than a block. -/
  | oversizeAllocation (requested capacity : Nat)
  /-- A handle is older than the last reset of its arena. -/
  | staleHandle (handleEpoch arenaEpoch : UInt32)
  /-- A handle points outside its arena's blocks. -/
  | danglingHandle (block slot : Nat)
  /-- A handle points at a free slot. -/
  | freedSlot (slot : Nat)
  /-- A handle belongs to another store of the same sort. -/
  | foreignHandle (backend : BackendKind)
  /-- A position does not fit in a handle. Positions here are natural numbers and stores have no
  size limit, so no operation stops with it. -/
  | indexOverflow (index : Nat)
  deriving DecidableEq, Repr

/-- What a violation says (`fmt` of `Violation`). -/
def Violation.message : Violation → String
  | .notApplicable kind => "not implemented: apply(atom) on " ++ kind.name
  | .notNumeric kind => "not implemented: to_int() on " ++ kind.name
  | .integerOverflow value => "integer overflow: inc applied to " ++ toString value.toInt
  | .oversizeAllocation requested capacity =>
    s!"can't alloc object: size is too big ({requested} bytes, block capacity is {capacity})"
  | .staleHandle handleEpoch arenaEpoch =>
    "stale arena handle: created in epoch " ++ toString handleEpoch.toNat ++
      ", arena is at epoch " ++ toString arenaEpoch.toNat
  | .danglingHandle block slot => s!"dangling arena handle: block {block} slot {slot}"
  | .freedSlot slot => s!"pool slot {slot} used after release"
  | .foreignHandle backend =>
    "foreign handle: resolved by another " ++ backend.name ++ " backend"
  | .indexOverflow index => s!"handle index {index} does not fit in 32 bits"

/-- A reason for which an operation stops early: a violation, which `fatal` raises, or one of the
runtime's own checks. -/
inductive Fault where
  | violation (v : Violation)
  /-- More bytes were to be reserved at once than an address space holds. -/
  | capacityOverflow
  /-- A position outside a sequence was accessed. -/
  | indexOutOfBounds (length index : Nat)
  /-- Calls were nested deeper than allowed. -/
  | nestingLimit
  deriving DecidableEq, Repr

def Fault.message : Fault → String
  | .violation v => v.message
  | .capacityOverflow => "capacity overflow"
  | .indexOutOfBounds length index =>
    s!"index out of bounds: the len is {length} but the index is {index}"
  | .nestingLimit => "calls are nested too deeply"

/-- Reservations of this many bytes, half of all addresses, or more are refused. -/
def reservationBound : Nat := 0x8000000000000000

end ChurchStore
