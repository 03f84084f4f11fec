import ChurchStore.Host
import ChurchStore.Numeral

/-!
# Terms

Closed expressions over numerals, integers and the builtin functions, which are built on a store
by evaluating operands from left to right. A trial builds a term on a store of its own, looks at
the result and gives it back, and keeps the allocation counters at each of these moments.
-/

namespace ChurchStore

/-- A closed expression. -/
inductive Term where
  | int (value : Int64)
  | builtin (b : Builtin)
  | numeral (k : Nat)
  | successor (t : Term)
  | app (f x : Term)
  | plus (a b : Term)
  | mul (a b : Term)
  deriving DecidableEq, Repr, Inhabited

namespace Term

open Backend

/-- Obtains two operands, combines them, and gives them back, the second one first. -/
def operate {W H : Type} [Backend W H] (op : H → H → Act W H) (a b : Act W H) : Act W H := do
  let x ← a
  holding x do
    let y ← b
    holding y (op x y)

/-- Evaluates a term. -/
def build {W H : Type} [Backend W H] (e : Evaluator H) : Term → Act W H
  | int value => e.int value
  | builtin b => e.builtin b
  | numeral k => e.numeral k
  | successor t => do
    let n ← build e t
    holding n (e.successor n)
  | app f x => operate e.apply (build e f) (build e x)
  | plus a b => operate e.plus (build e a) (build e b)
  | mul a b => operate e.mul (build e a) (build e b)

/-- How the result of a term is looked at. -/
inductive Observation where
  | none
  | fold
  | int
  deriving DecidableEq, Repr, Inhabited

def Observation.run {W H : Type} [Backend W H] (e : Evaluator H) (h : H) :
    Observation → Act W (Option Int64)
  | none => return Option.none
  | fold => return some (← e.fold h)
  | int => return some (← e.toInt h)

/-- What was seen of a term that was built. -/
structure Sighting where
  kind : Kind
  place : Placement
  /-- The counters after building. -/
  built : AllocStats
  /-- What the observation answered. -/
  seen : Except Fault (Option Int64)
  /-- The counters after the observation. -/
  observed : AllocStats

/-- A term tried on a store of its own. -/
structure Trial where
  /-- What was seen, or why the term could not be built. -/
  outcome : Except Fault Sighting
  /-- The counters after the result was given back. -/
  final : AllocStats

/-- Looks at a handle and gives it back. -/
def sight {W H : Type} [Host W H] (e : Evaluator H) (observation : Observation) (h : H) :
    Act W Sighting :=
  holding h do
    let kind ← e.kind h
    let built ← Act.read (stats e.site)
    let place ← Host.describe h
    let seen : Except Fault (Option Int64) ← fun m =>
      match observation.run e h m with
      | .ok value m => .ok (.ok value) m
      | .error f m => .ok (.error f) m
    let observed ← Act.read (stats e.site)
    return { kind, place, built, seen, observed }

/-- Tries a term on a new store; a fault means that the store could not be opened. -/
def tryOn (W : Type) {H : Type} [Host W H] (limits : Limits) (observation : Observation)
    (t : Term) : Except Fault Trial :=
  match (Host.openWith limits : Act W (Evaluator H)) { store := Host.initial } with
  | .error f _ => .error f
  | .ok e m =>
    match (t.build e >>= sight e observation : Act W Sighting) m with
    | .ok sighting m => .ok ⟨.ok sighting, stats e.site m.store⟩
    | .error f m => .ok ⟨.error f, stats e.site m.store⟩

end Term

end ChurchStore
