import ChurchStore.Proofs.Simulation.Evaluation
import ChurchStore.Term

/-!
# Iteration

The programs that numerals are measured by: a function applied to a start as often as a number
says, one application after the other, and a numeral applied to the function and then to the start.
Like the building of terms, they agree on related stores.
-/

namespace ChurchStore

namespace Evaluator

open Backend

variable {W H : Type} [Backend W H]

/-- The same evaluator with another bound on nesting. -/
def nestedTo (e : Evaluator H) (depth : Nat) : Evaluator H := { e with nesting := depth }

/-- How deep an evaluator may nest is of no consequence where a bound is given. -/
theorem applyWithin_nestedTo (e : Evaluator H) (d depth : Nat) (f x : H) :
    ((e.nestedTo d).applyWithin depth f x : Act W H) = e.applyWithin depth f x := by
  induction depth generalizing f x with
  | zero => rfl
  | succ depth ih =>
    rw [applyWithin, applyWithin]
    simp only [ih]
    rfl

theorem apply_nestedTo (e : Evaluator H) (depth : Nat) (f x : H) :
    ((e.nestedTo depth).apply f x : Act W H) = e.applyWithin depth f x :=
  e.applyWithin_nestedTo depth depth f x

/-- Replaces a handle `k` times by the application of `s` to it; it is given back each time. -/
def replace (e : Evaluator H) (s : H) : Nat → H → Act W H
  | 0, x => return x
  | k + 1, x => do
    let next ← holding x (e.apply s x)
    e.replace s k next

/-- `s` applied `k` times, to `z` first. -/
def iterate (e : Evaluator H) (s : H) (k : Nat) (z : H) : Act W H := do
  e.replace s k (← clone z)

/-- A function of two arguments, applied to both. -/
def applyTwice (e : Evaluator H) (f s z : H) : Act W H := do
  let fs ← e.apply f s
  holding fs (e.apply fs z)

end Evaluator

namespace Simulation.Serves

open Backend

variable {W V H G : Type} [Host W H] [Host V G] {S : Simulation W V} {e : Evaluator H}
  {d : Evaluator G} {lent : Multiset (H × G)} {f s z n a b : H × G}

theorem nestedTo (hS : S.Serves e d lent) (depth : Nat) :
    S.Serves (e.nestedTo depth) (d.nestedTo depth) lent :=
  ⟨hS.left, hS.right, rfl, hS.builtin⟩

theorem agree_replace (hS : S.Serves e d lent) (hs : s ∈ lent) (k : Nat) (x : H × G) :
    S.Agree {x} lent (e.replace s.1 k x.1) (d.replace s.2 k x.2) Handed := by
  induction k generalizing x with
  | zero => exact Agree.pure rfl
  | succ k ih =>
    have hnext := (hS.cons x).agree_apply (Multiset.mem_cons_of_mem hs) (Multiset.mem_cons_self ..)
    refine Agree.bind (Agree.holding x hnext) ?_
    rintro next₁ next₂ _ rfl
    exact ih (next₁, next₂)

theorem agree_iterate (hS : S.Serves e d lent) (hs : s ∈ lent) (k : Nat) (hz : z ∈ lent) :
    S.Agree 0 lent (e.iterate s.1 k z.1) (d.iterate s.2 k z.2) Handed := by
  refine Agree.bind (Agree.clone_lent hz) ?_
  rintro x₁ x₂ _ rfl
  exact hS.agree_replace hs k (x₁, x₂)

theorem agree_applyTwice (hS : S.Serves e d lent) (hf : f ∈ lent) (hs : s ∈ lent)
    (hz : z ∈ lent) :
    S.Agree 0 lent (e.applyTwice f.1 s.1 z.1) (d.applyTwice f.2 s.2 z.2) Handed := by
  refine Agree.bind (hS.agree_apply hf hs) ?_
  rintro fs₁ fs₂ _ rfl
  exact Agree.holding (fs₁, fs₂)
    ((hS.cons _).agree_apply (Multiset.mem_cons_self ..) (Multiset.mem_cons_of_mem hz))

/-- Operands are built one after the other, and both are lent to the operation. -/
theorem agree_operate {x y : Act W H} {x' y' : Act V G} {op : H → H → Act W H}
    {op' : G → G → Act V G} (hS : S.Serves e d lent)
    (hx : ∀ {lent}, S.Serves e d lent → S.Agree 0 lent x x' Handed)
    (hy : ∀ {lent}, S.Serves e d lent → S.Agree 0 lent y y' Handed)
    (hop : ∀ {lent} {a b : H × G}, S.Serves e d lent → a ∈ lent → b ∈ lent →
      S.Agree 0 lent (op a.1 b.1) (op' a.2 b.2) Handed) :
    S.Agree 0 lent (Term.operate op x y) (Term.operate op' x' y') Handed := by
  refine Agree.bind (hx hS) ?_
  rintro a₁ a₂ _ rfl
  refine Agree.holding (a₁, a₂) ?_
  refine Agree.bind (hy (hS.cons _)) ?_
  rintro b₁ b₂ _ rfl
  exact Agree.holding (b₁, b₂) (hop (a := (a₁, a₂)) (b := (b₁, b₂)) ((hS.cons _).cons _)
    (by simp) (by simp))

theorem agree_build (hS : S.Serves e d lent) (t : Term) :
    S.Agree 0 lent (t.build e) (t.build d) Handed := by
  induction t generalizing lent with
  | int value => exact hS.agree_int value
  | builtin b => exact hS.agree_builtin b
  | numeral k => exact hS.agree_numeral k
  | successor t ih =>
    refine Agree.bind (ih hS) ?_
    rintro n₁ n₂ _ rfl
    exact Agree.holding (n₁, n₂) ((hS.cons _).agree_successor (Multiset.mem_cons_self ..))
  | app f x ihf ihx => exact hS.agree_operate ihf ihx agree_apply
  | plus a b iha ihb => exact hS.agree_operate iha ihb agree_plus
  | mul a b iha ihb => exact hS.agree_operate iha ihb agree_mul

end Simulation.Serves

end ChurchStore
