import ChurchStore.Log.Filter

/-!
# Machines

A machine is a store together with the log of what happened in it. An operation on a machine
answers or stops with a fault; in both cases it leaves the machine as it then is, so what was
changed before a fault stays changed.
-/

namespace ChurchStore

/-- The events that a filter kept, in the order in which they happened. -/
structure Journal where
  filter : Log.Filter := .off
  events : Array Log.Event := #[]
  deriving Inhabited

/-- Keeps an event if the filter admits it. -/
def Journal.record (j : Journal) (e : Log.Event) : Journal :=
  if j.filter.admits e.target.name e.level then { j with events := j.events.push e } else j

/-- A store of type `W` and its log. -/
structure Machine (W : Type) where
  store : W
  journal : Journal := {}

/-- An operation on machines: an answer or a fault, and the machine afterwards. -/
abbrev Act (W : Type) := EStateM Fault (Machine W)

namespace Act

variable {W α β : Type}

/-- Writes an event into the log. -/
@[inline]
def emit (e : Log.Event) : Act W Unit := fun m =>
  .ok () { m with journal := m.journal.record e }

/-- Logs a violation and stops with it. -/
def violate (v : Violation) : Act W α := fun m =>
  .error (.violation v) { m with journal := m.journal.record (.violation v) }

/-- Reads the store. -/
@[inline]
def read (f : W → β) : Act W β := fun m => .ok (f m.store) m

/-- Changes the store. -/
@[inline]
def update (f : W → W) : Act W Unit := fun m =>
  .ok () { m with store := f m.store }

/-- Changes the store after the operation, whether it answered or stopped. -/
@[inline]
def ensuring (finish : W → W) (op : Act W α) : Act W α := fun m =>
  match op m with
  | .ok a m => .ok a { m with store := finish m.store }
  | .error e m => .error e { m with store := finish m.store }

/-- Changes the store after the operation if it stopped. -/
@[inline]
def onFault (finish : W → W) (op : Act W α) : Act W α := fun m =>
  match op m with
  | .ok a m => .ok a m
  | .error e m => .error e { m with store := finish m.store }

end Act

end ChurchStore
