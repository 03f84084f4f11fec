import ChurchStore.Proofs.Iteration
import Mathlib.Order.Filter.AtTopBot.Basic
import Mathlib.Order.Filter.Finite

/-!
# The store of values

The bare store: what is left of a store if closures have no identity. A handle is the closure
itself, written out with all that it captures, or the epoch of a handle that is refused. The
operations of an evaluator change nothing here, so what they come to depends on the values alone: an
application that may nest as deep as it needs has an outcome, and the outcomes of programs are put
together from those of their applications by the rules below.
-/

namespace ChurchStore

open Filter

/-- A closure written out with all that it captures; a handle of a past epoch shows only that. -/
inductive Value where
  | node (closure : Closure Value)
  | stale (epoch : UInt32)

instance : Inhabited Value := ⟨.node .zero⟩

/-- The store that holds nothing but the present epoch. -/
structure Bare where
  now : UInt32 := 0
  deriving DecidableEq, Repr, Inhabited

namespace Bare

def alloc (c : Closure Value) : Act Bare Value := return .node c

def resolve : Value → Act Bare (Closure Value)
  | .node c => return c
  | .stale epoch => do
    let now ← Act.read (·.now)
    Act.violate (.staleHandle epoch now)

/-- The builtin functions. -/
def builtins : Singletons Value where
  zero := .node .zero
  zeroInner := .node .zeroInner
  succ := .node .succ
  inc := .node .inc

def openBare (limits : Limits) : Act Bare (Evaluator Value) := do
  let singletons ← Singletons.build alloc
  return { site := 0, singletons, nesting := limits.nesting }

/-- Equal values cannot be told apart, and all of them are at the same place. -/
instance : Host Bare Value where
  kind := .arena
  alloc _ := alloc
  resolve _ := resolve
  retain _ w := w
  release _ w := w
  same _ _ := true
  stats _ _ := {}
  handleBytes := 16
  initial := {}
  openWith := openBare
  reset? := none
  describe _ := return .arena 0 0
  extent _ w := .arena w.now 0 0
  ledger? _ _ := none

/-- The evaluator of the bare store, which may nest applications to the given depth. -/
def evaluator (depth : Nat) : Evaluator Value := ⟨0, builtins, depth⟩

theorem nestedTo_evaluator (depth : Nat) : (evaluator 0).nestedTo depth = evaluator depth := rfl

variable {α β : Type} {w : Bare}

@[simp]
theorem holding_eq (u : Value) (op : Act Bare α) : Backend.holding u op = op := by
  funext m
  simp only [Backend.holding, Act.ensuring]
  cases op m <;> rfl

@[simp]
theorem onFault_release_eq (u : Value) (op : Act Bare α) :
    Act.onFault (Backend.release u) op = op := by
  funext m
  simp only [Act.onFault]
  cases op m <;> rfl

@[simp]
theorem clone_eq (u : Value) : (Backend.clone u : Act Bare Value) = pure u := rfl

@[simp]
theorem builtin_eq (depth : Nat) (b : Builtin) :
    ((evaluator depth).builtin b : Act Bare Value) = pure (.node b.closure) := by
  cases b <;> rfl

@[simp]
theorem int_eq (depth : Nat) (a : Int64) :
    ((evaluator depth).int a : Act Bare Value) = pure (.node (.intLiteral a)) := rfl

@[simp]
theorem toInt_intLiteral (depth : Nat) (a : Int64) :
    ((evaluator depth).toInt (.node (.intLiteral a)) : Act Bare Int64) = pure a := rfl

/-- The operation answers or stops with a violation, and leaves the store as it is, whatever has
been logged. -/
def Concludes (w : Bare) (x : Act Bare α) : Except Violation α → Prop
  | .ok a => ∀ j, ∃ j', x ⟨w, j⟩ = .ok a ⟨w, j'⟩
  | .error v => ∀ j, ∃ j', x ⟨w, j⟩ = .error (.violation v) ⟨w, j'⟩

/-- From some depth of nesting on, the operation concludes with `r`. -/
def Comes (w : Bare) (x : Nat → Act Bare α) (r : Except Violation α) : Prop :=
  ∀ᶠ depth in atTop, Concludes w (x depth) r

namespace Comes

variable {x : Nat → Act Bare α} {k : Nat → α → Act Bare β} {a : α} {r : Except Violation β}

theorem pure (a : α) : Comes w (fun _ => Pure.pure a) (.ok a) := .of_forall fun _ j => ⟨j, rfl⟩

theorem bind (h : Comes w x (.ok a)) (hk : Comes w (fun depth => k depth a) r) :
    Comes w (fun depth => x depth >>= k depth) r := by
  filter_upwards [h, hk] with depth hx hy
  cases r with
  | ok _ | error _ =>
    intro j
    obtain ⟨j, hx⟩ := hx j
    simp only [Bind.bind, EStateM.bind, hx]
    exact hy j

theorem bind_error {v : Violation} (h : Comes w x (.error v)) :
    Comes w (fun depth => x depth >>= k depth) (.error v) := by
  filter_upwards [h] with depth hx j
  obtain ⟨j, hx⟩ := hx j
  simp only [Bind.bind, EStateM.bind, hx]
  exact ⟨j, rfl⟩

/-- One more level of nesting. -/
theorem of_succ {r : Except Violation α} (h : Comes w (fun depth => x (depth + 1)) r) :
    Comes w x r := by
  rw [Comes, ← map_add_atTop_eq_nat 1]
  exact h

end Comes

/-- What holds of each entry of a list from some depth on holds of all of them from some depth
on. -/
theorem eventually_forall_mem {α : Type} {P : Nat → α → Prop} {l : List α}
    (h : ∀ x ∈ l, ∀ᶠ depth in atTop, P depth x) : ∀ᶠ depth in atTop, ∀ x ∈ l, P depth x :=
  (eventually_all_finite l.finite_toSet).2 h

/-! ### Application -/

/-- The outcome of applying `f` to `x`. -/
def Applies (w : Bare) (f x : Value) (r : Except Violation Value) : Prop :=
  Comes w (fun depth => (evaluator depth).apply f x) r

variable {n s x : Value} {r : Except Violation Value}

theorem applies_zero (w : Bare) (x : Value) :
    Applies w (.node .zero) x (.ok (.node .zeroInner)) :=
  .of_succ (.of_forall fun _ j => ⟨j, rfl⟩)

theorem applies_zeroInner (w : Bare) (x : Value) : Applies w (.node .zeroInner) x (.ok x) :=
  .of_succ (.of_forall fun _ j => ⟨j, rfl⟩)

theorem applies_succ (w : Bare) (x : Value) :
    Applies w (.node .succ) x (.ok (.node (.succPartial x))) :=
  .of_succ (.of_forall fun _ j => ⟨j, rfl⟩)

theorem applies_succPartial (w : Bare) (n x : Value) :
    Applies w (.node (.succPartial n)) x (.ok (.node (.succInner n x))) :=
  .of_succ (.of_forall fun _ j => ⟨j, rfl⟩)

theorem applyWithin_succInner (e : Evaluator Value) (depth : Nat) (n s x : Value) :
    (e.applyWithin (depth + 1) (.node (.succInner n s)) x : Act Bare Value) = (do
      let ns ← e.applyWithin depth n s
      let nsx ← e.applyWithin depth ns x
      e.applyWithin depth s nsx) := by
  change Backend.holding n (Backend.holding s (e.applyWithin depth n s >>= fun ns =>
    Backend.holding ns (e.applyWithin depth ns x >>= fun nsx =>
      Backend.holding nsx (e.applyWithin depth s nsx)))) = _
  simp only [holding_eq]

/-- The three applications by which a successor is applied may each nest as deep as it needs. -/
theorem applies_succInner
    (h : Comes w (fun depth => do
      let ns ← (evaluator depth).apply n s
      let nsx ← (evaluator depth).apply ns x
      (evaluator depth).apply s nsx) r) :
    Applies w (.node (.succInner n s)) x r := by
  refine .of_succ ?_
  filter_upwards [h] with depth hd
  rw [← nestedTo_evaluator depth] at hd
  rw [← nestedTo_evaluator (depth + 1), Evaluator.apply_nestedTo, applyWithin_succInner]
  simpa only [Evaluator.apply_nestedTo] using hd

theorem applyWithin_inc (e : Evaluator Value) (depth : Nat) (a : Int64) :
    (e.applyWithin (depth + 1) (.node .inc) (.node (.intLiteral a)) : Act Bare Value) =
      if a = Int64.maxValue then Act.violate (.integerOverflow a)
      else pure (.node (.intLiteral (a + 1))) := rfl

theorem applies_inc (w : Bare) {a : Int64} (h : a ≠ Int64.maxValue) :
    Applies w (.node .inc) (.node (.intLiteral a)) (.ok (.node (.intLiteral (a + 1)))) := by
  refine .of_succ (.of_forall fun depth j => ?_)
  simp only [Evaluator.apply, evaluator, applyWithin_inc, if_neg h]
  exact ⟨j, rfl⟩

theorem applies_inc_max (w : Bare) :
    Applies w (.node .inc) (.node (.intLiteral Int64.maxValue))
      (.error (.integerOverflow Int64.maxValue)) := by
  refine .of_succ (.of_forall fun depth j => ?_)
  simp only [Evaluator.apply, evaluator, applyWithin_inc, if_pos]
  exact ⟨_, rfl⟩

end Bare

end ChurchStore
