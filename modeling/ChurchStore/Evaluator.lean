import ChurchStore.Backend

/-!
# Evaluation

Applying closures to each other, over any store. The evaluator owns one handle for each builtin
function. Every result is a handle that the caller then owns, and every handle that evaluation
needs only for itself is given back, the last one obtained first, also when a fault stops it.
-/

namespace ChurchStore

/-- How deep applications may be nested by default; no stack holds as many of them. -/
def nestingLimit : Nat := 0x4000000000000000

/-- What bounds an evaluator. -/
structure Limits where
  /-- Bytes in each block, for stores that have blocks. -/
  blockCapacity : Nat := ({} : Config).blockCapacity
  /-- How deep applications may be nested. -/
  nesting : Nat := nestingLimit
  deriving DecidableEq, Repr, Inhabited

/-- An evaluator: its place in the store, the builtin functions that it shares out, and how deep
it may nest applications (`Evaluator`). -/
structure Evaluator (H : Type) where
  site : Site
  singletons : Singletons H
  nesting : Nat
  deriving Repr, Inhabited

namespace Evaluator

open Backend

variable {W H : Type} [Backend W H]

/-- A handle for a builtin function (`zero`, `zero_inner`, `succ` and `inc`). -/
def builtin (e : Evaluator H) (b : Builtin) : Act W H := clone (e.singletons.get b)

/-- A new integer literal (`int`). -/
def int (e : Evaluator H) (value : Int64) : Act W H := alloc e.site (.intLiteral value)

/-- Looks at the closure behind a handle and gives the handles of its captures back. -/
def inspect (e : Evaluator H) (h : H) : Act W (Closure H) := do
  let c ← resolve e.site h
  Act.update (releaseAll c.captures)
  return c

/-- The kind of the closure behind a handle (`kind` of `Evaluator`). -/
def kind (e : Evaluator H) (h : H) : Act W Kind := do
  return (← e.inspect h).kind

/-- The integer of a literal; any other closure is a violation (`to_int`). -/
def toInt (e : Evaluator H) (h : H) : Act W Int64 := do
  let c ← e.inspect h
  match c.asInt? with
  | some value => return value
  | none => Act.violate (.notNumeric c.kind)

/-- Applies `f` to `x` with at most `depth` applications nested in each other (`apply`, whose calls
only the stack bounds). -/
def applyWithin (e : Evaluator H) : Nat → H → H → Act W H
  | 0, _, _ => throw .nestingLimit
  | depth + 1, f, x => do
    match ← resolve e.site f with
    | .zero => e.builtin .zeroInner
    | .zeroInner => clone x
    | .succ => alloc e.site (.succPartial (← clone x))
    | .succPartial n => alloc e.site (.succInner n (← clone x))
    | .succInner n s =>
      holding n <| holding s do
        let ns ← e.applyWithin depth n s
        holding ns do
          let nsx ← e.applyWithin depth ns x
          holding nsx (e.applyWithin depth s nsx)
    | .intLiteral _ => Act.violate (.notApplicable .intLiteral)
    | .inc => do
      let value ← e.toInt x
      if value = Int64.maxValue then
        Act.violate (.integerOverflow value)
      else
        e.int (value + 1)

/-- Applies `f` to `x`. -/
def apply (e : Evaluator H) (f x : H) : Act W H := e.applyWithin e.nesting f x

/-- Gives the handles of the builtin functions back, which ends the evaluator. -/
def close (e : Evaluator H) : Act W Unit :=
  Act.update (releaseAll (Builtin.all.map e.singletons.get))

end Evaluator

end ChurchStore
