import ChurchStore.Kind

/-!
# Closures

The values of the evaluator. A closure captures handles of a type `H`, which each store chooses
for itself, so all stores share the seven cases below. Applied to arguments they behave like
* `zero`: `λ s. λ z. z`, which yields `zeroInner` for any `s`,
* `zeroInner`: `λ z. z`,
* `succ`: `λ n. λ s. λ z. s (n s z)`, whose first two arguments are collected by `succPartial`
  and `succInner`,
* `inc`: adds one to an integer literal.
-/

namespace ChurchStore

/-- A value of the evaluator whose captures are handles of type `H` (`Closure`). -/
inductive Closure (H : Type) where
  | zero
  | zeroInner
  | succ
  | succPartial (n : H)
  | succInner (n s : H)
  | intLiteral (value : Int64)
  | inc
  deriving DecidableEq, Repr, Inhabited

namespace Closure

variable {H K : Type}

/-- The variant of a closure (`Closure`'s `kind`). -/
def kind : Closure H → Kind
  | zero => .zero
  | zeroInner => .zeroInner
  | succ => .succ
  | succPartial _ => .succPartial
  | succInner _ _ => .succInner
  | intLiteral _ => .intLiteral
  | inc => .inc

/-- The handles that a closure holds, in the order in which they are visited. -/
def captures : Closure H → List H
  | succPartial n => [n]
  | succInner n s => [n, s]
  | _ => []

theorem length_captures_le (c : Closure H) : c.captures.length ≤ 2 := by
  cases c <;> simp [captures]

/-- Replaces each capture by its image under `f` (`Closure`'s `map`). -/
def map (f : H → K) : Closure H → Closure K
  | zero => .zero
  | zeroInner => .zeroInner
  | succ => .succ
  | succPartial n => .succPartial (f n)
  | succInner n s => .succInner (f n) (f s)
  | intLiteral value => .intLiteral value
  | inc => .inc

/-- The integer of a literal; no other closure is numeric (`as_int`). -/
def asInt? : Closure H → Option Int64
  | intLiteral value => some value
  | _ => none

/-- Bytes of one machine word, of which each closure takes one as its header (`HEADER_WORD`). -/
def headerWord : Nat := 8

end Closure

/-- Bytes that a closure of this kind takes: the header and one word for each captured value. -/
def Kind.footprint : Kind → Nat
  | .succPartial | .intLiteral => 2 * Closure.headerWord
  | .succInner => 3 * Closure.headerWord
  | _ => Closure.headerWord

namespace Closure

variable {H K : Type}

/-- Bytes that a closure takes in a block (`footprint`). -/
def footprint (c : Closure H) : Nat := c.kind.footprint

/-- The footprint of the largest closures (`MAX_FOOTPRINT`). -/
def maxFootprint : Nat := 3 * headerWord

theorem footprint_le_maxFootprint (c : Closure H) : c.footprint ≤ maxFootprint := by
  have h : ∀ k ∈ Kind.all, k.footprint ≤ maxFootprint := by decide
  exact h c.kind (Kind.mem_all _)

@[simp]
theorem kind_map (f : H → K) (c : Closure H) : (c.map f).kind = c.kind := by
  cases c <;> rfl

@[simp]
theorem captures_map (f : H → K) (c : Closure H) : (c.map f).captures = c.captures.map f := by
  cases c <;> rfl

/-- A closure written out with its captures, given how a capture is written; the derived debug text
of `Closure`. -/
def render (capture : H → String) : Closure H → String
  | zero => "Zero"
  | zeroInner => "ZeroInner"
  | succ => "Succ"
  | succPartial n => "SuccPartial \x7b n: " ++ capture n ++ " \x7d"
  | succInner n s => "SuccInner \x7b n: " ++ capture n ++ ", s: " ++ capture s ++ " \x7d"
  | intLiteral value => "IntLiteral(" ++ toString value.toInt ++ ")"
  | inc => "Inc"

end Closure

/-- The four capture-free functions, of which every evaluator keeps one handle each. -/
inductive Builtin where
  | zero
  | zeroInner
  | succ
  | inc
  deriving DecidableEq, Repr, Inhabited

namespace Builtin

/-- The functions in the order in which an evaluator allocates them. -/
def all : List Builtin := [.zero, .zeroInner, .succ, .inc]

def closure {H : Type} : Builtin → Closure H
  | zero => .zero
  | zeroInner => .zeroInner
  | succ => .succ
  | inc => .inc

end Builtin

/-- One shared handle for each builtin function (`Singletons`). -/
structure Singletons (H : Type) where
  zero : H
  zeroInner : H
  succ : H
  inc : H
  deriving Repr, Inhabited

namespace Singletons

variable {H : Type}

def get (t : Singletons H) : Builtin → H
  | .zero => t.zero
  | .zeroInner => t.zeroInner
  | .succ => t.succ
  | .inc => t.inc

/-- Builds the four handles in the order of `Builtin.all` (`build` of `Singletons`). -/
def build {m : Type → Type} [Monad m] (alloc : Closure H → m H) : m (Singletons H) := do
  let zero ← alloc Builtin.zero.closure
  let zeroInner ← alloc Builtin.zeroInner.closure
  let succ ← alloc Builtin.succ.closure
  let inc ← alloc Builtin.inc.closure
  return ⟨zero, zeroInner, succ, inc⟩

end Singletons

end ChurchStore
