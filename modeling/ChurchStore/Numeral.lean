import ChurchStore.Evaluator

/-!
# Church numerals

Numerals and their arithmetic by application alone: a numeral applied to `s` and then to `z` is
`s` applied to `z` as often as the numeral counts. Sums iterate the successor, products iterate a
sum, and a power is one numeral applied to another.
-/

namespace ChurchStore.Evaluator

open Backend

variable {W H : Type} [Backend W H]

/-- The numeral after `n` (`successor`). -/
def successor (e : Evaluator H) (n : H) : Act W H := do
  let succ ← e.builtin .succ
  holding succ (e.apply succ n)

/-- Applies the successor `k` times to a numeral, which is given back. -/
def successors (e : Evaluator H) : Nat → H → Act W H
  | 0, n => return n
  | k + 1, n => do
    let next ← holding n (e.successor n)
    e.successors k next

/-- The numeral `k`, as a chain of its own (`numeral`). -/
def numeral (e : Evaluator H) (k : Nat) : Act W H := do
  e.successors k (← e.builtin .zero)

/-- Adds `k` numerals to a table, each the successor of the last. -/
def extendTable (e : Evaluator H) : Nat → Array H → Act W (Array H)
  | 0, table => return table
  | k + 1, table => do
    let next ← Act.onFault (fun w => releaseAll table.toList w) <|
      match table.back? with
      | some last => e.successor last
      | none => e.builtin .zero
    e.extendTable k (table.push next)

/-- The table of the first `count` numerals, each of which captures the one before it
(`numerals`). -/
def numerals (e : Evaluator H) (count : Nat) : Act W (Array H) :=
  if count * Backend.handleBytes W < reservationBound then
    e.extendTable count #[]
  else
    throw .capacityOverflow

/-- The integer that a numeral counts up to, from zero by increments (`fold`). -/
def fold (e : Evaluator H) (n : H) : Act W Int64 := do
  let inc ← e.builtin .inc
  let applied ← holding inc (e.apply n inc)
  holding applied do
    let start ← e.int 0
    let counted ← holding start (e.apply applied start)
    holding counted (e.toInt counted)

/-- The integer of a power of two numerals (`pow`). -/
def pow (e : Evaluator H) (base exponent : H) : Act W Int64 := do
  let power ← e.apply exponent base
  holding power (e.fold power)

/-- The sum of two numerals (`plus`). -/
def plus (e : Evaluator H) (a b : H) : Act W H := do
  let succ ← e.builtin .succ
  holding succ do
    let add ← e.apply a succ
    holding add (e.apply add b)

/-- The product of two numerals (`mul`). -/
def mul (e : Evaluator H) (a b : H) : Act W H := do
  let succ ← e.builtin .succ
  let addB ← holding succ (e.apply b succ)
  let iterated ← Act.onFault (release addB) (e.apply a addB)
  holding iterated do
    let zero ← e.builtin .zero
    holding zero (holding addB (e.apply iterated zero))

end ChurchStore.Evaluator
