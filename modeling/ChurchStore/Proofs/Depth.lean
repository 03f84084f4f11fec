import ChurchStore.Evaluator

/-!
# The bound on nesting

An application that is allowed to nest deeper does the same, unless it stopped because of the bound.
-/

namespace ChurchStore

variable {W H α β : Type}

/-- Where `x` does not stop at the bound on nesting, `y` does the same. -/
def Deepens (x y : Act W α) : Prop :=
  ∀ m, (∀ m', x m ≠ .error .nestingLimit m') → y m = x m

namespace Deepens

theorem refl (x : Act W α) : Deepens x x := fun _ _ => rfl

theorem bind {x y : Act W α} {k l : α → Act W β} (h : Deepens x y)
    (hk : ∀ a, Deepens (k a) (l a)) : Deepens (x >>= k) (y >>= l) := by
  intro m hm
  simp only [Bind.bind, EStateM.bind] at hm ⊢
  cases hx : x m with
  | ok a m' =>
    rw [hx] at hm
    rw [h m (by simp [hx]), hx]
    exact hk a m' hm
  | error f m' =>
    rw [hx] at hm
    have hf : ∀ n, x m ≠ .error .nestingLimit n := by
      intro n hn
      rw [hx] at hn
      exact hm n (by rw [hn])
    rw [h m hf, hx]

theorem holding [Backend W H] {x y : Act W α} (p : H) (h : Deepens x y) :
    Deepens (Backend.holding p x) (Backend.holding p y) := by
  intro m hm
  simp only [Backend.holding, Act.ensuring] at hm ⊢
  have hx : ∀ m', x m ≠ .error .nestingLimit m' := by
    intro m' hx
    rw [hx] at hm
    exact hm _ rfl
  rw [h m hx]

end Deepens

namespace Evaluator

variable [Backend W H] {e : Evaluator H} {f x : H} {m : Machine W}

theorem deepens_applyWithin (depth : Nat) (f x : H) :
    Deepens (e.applyWithin depth f x : Act W H) (e.applyWithin (depth + 1) f x) := by
  induction depth generalizing f x with
  | zero =>
    intro m hm
    exact absurd rfl (hm m)
  | succ depth ih =>
    refine Deepens.bind (.refl _) fun c => ?_
    cases c with
    | zero | zeroInner | succ | succPartial | intLiteral | inc => exact .refl _
    | succInner n s =>
      exact Deepens.holding n <| Deepens.holding s <| Deepens.bind (ih n s) fun ns =>
        Deepens.holding ns <| Deepens.bind (ih ns x) fun nsx => Deepens.holding nsx (ih s nsx)

/-- An application that did not stop at the bound is the same with every larger bound. -/
theorem applyWithin_of_le {depth deeper : Nat} (hle : depth ≤ deeper)
    (h : ∀ m', e.applyWithin depth f x m ≠ .error .nestingLimit m') :
    e.applyWithin deeper f x m = e.applyWithin depth f x m := by
  induction hle with
  | refl => rfl
  | step _ ih => rw [deepens_applyWithin _ f x m (by rwa [ih]), ih]

end Evaluator

end ChurchStore
