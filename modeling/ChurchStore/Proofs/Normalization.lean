import ChurchStore.Proofs.Depth
import ChurchStore.Proofs.Grove

/-!
# Every application of trees ends

Closures are untyped and may be applied to themselves, and the result of an application is applied
again, so no size of closures decreases. What decreases is how often a closure will still be
applied: a tree is reducible to a level if its application to every tree that is reducible to the
level below ends, in a tree that is reducible to that level too. All trees are reducible to all
levels, by induction on trees: a successor of `n` that is applied `i` times needs `n` to be applied
once more.
-/

namespace ChurchStore

/-- An operation answered or was stopped by a violation. -/
def Settled {W α : Type} : EStateM.Result Fault (Machine W) α → Prop
  | .ok _ _ => True
  | .error f _ => ∃ v, f = .violation v

theorem Settled.ne_nestingLimit {W α : Type} {r : EStateM.Result Fault (Machine W) α}
    (h : Settled r) (m : Machine W) : r ≠ .error .nestingLimit m := by
  intro hr
  subst hr
  obtain ⟨v, hv⟩ := h
  cases hv

/-- The application of `f` to `x` ends: with every larger bound on nesting it comes to the same end,
which is an answer or a violation. -/
def Evaluator.Ends {W H : Type} [Backend W H] (e : Evaluator H) (f x : H) (m : Machine W) : Prop :=
  ∃ depth r, (∀ d, depth ≤ d → e.applyWithin d f x m = r) ∧ Settled r

/-- An application ends if some bound on nesting is enough for it. -/
theorem Evaluator.ends_of_settled {W H : Type} [Backend W H] {e : Evaluator H} {f x : H}
    {m : Machine W} {depth : Nat} (h : Settled (e.applyWithin depth f x m)) : e.Ends f x m :=
  ⟨depth, _, fun _ hd => Evaluator.applyWithin_of_le hd fun m' => h.ne_nestingLimit m', h⟩

/-- An operation that may use any depth of nesting comes to the same end from some depth on, and
its answer has the property `P` if it answers. -/
def Settles {W α : Type} (x : Nat → Act W α) (P : α → Prop) : Prop :=
  ∀ m, ∃ depth r, (∀ d, depth ≤ d → x d m = r) ∧ Settled r ∧ ∀ a m', r = .ok a m' → P a

namespace Settles

variable {W α β : Type} {x : Nat → Act W α} {k : Nat → α → Act W β} {P : α → Prop} {Q : β → Prop}

/-- An operation that does not nest. -/
theorem of_const {y : Act W α} (h : ∀ m, Settled (y m) ∧ ∀ a m', y m = .ok a m' → P a) :
    Settles (fun _ => y) P := by
  intro m
  obtain ⟨hs, hP⟩ := h m
  exact ⟨0, y m, fun _ _ => rfl, hs, hP⟩

theorem pure {a : α} (h : P a) : Settles (fun _ => (Pure.pure a : Act W α)) P :=
  of_const fun m => ⟨trivial, fun b m' hb => by
    cases hb
    exact h⟩

theorem violate (v : Violation) : Settles (fun _ => (Act.violate v : Act W α)) P :=
  of_const fun m => ⟨⟨v, rfl⟩, fun b m' hb => by cases hb⟩

theorem bind (h : Settles x P) (hk : ∀ a, P a → Settles (fun d => k d a) Q) :
    Settles (fun d => x d >>= k d) Q := by
  intro m
  obtain ⟨depth, r, hx, hs, hP⟩ := h m
  cases r with
  | ok a m' =>
    obtain ⟨depth', r', hy, hs', hQ⟩ := hk a (hP a m' rfl) m'
    refine ⟨max depth depth', r', fun d hd => ?_, hs', hQ⟩
    simp only [Bind.bind, EStateM.bind]
    rw [hx d (by omega)]
    exact hy d (by omega)
  | error f m' =>
    refine ⟨depth, .error f m', fun d hd => ?_, hs, fun a m' ha => by cases ha⟩
    simp only [Bind.bind, EStateM.bind]
    rw [hx d hd]

/-- One more level of nesting. -/
theorem of_succ (h : Settles (fun d => x (d + 1)) P) : Settles x P := by
  intro m
  obtain ⟨depth, r, hx, hs, hP⟩ := h m
  refine ⟨depth + 1, r, fun d hd => ?_, hs, hP⟩
  obtain ⟨n, rfl⟩ : ∃ n, d = n + 1 := ⟨d - 1, by omega⟩
  exact hx n (by omega)

end Settles

namespace Grove

variable {b : Nat}

theorem settles_resolve {P : Closure Tree → Prop} (t : Tree) (h : P t.closure) :
    Settles (fun _ => (resolve t : Act (Grove b) (Closure Tree))) P := by
  refine Settles.of_const fun m => ?_
  by_cases hm : m.store.epochOf t.number = m.store.resets.length
  · rw [resolve_of_current hm]
    refine ⟨trivial, fun a m' ha => ?_⟩
    cases ha
    exact h
  · rw [resolve_of_stale hm]
    exact ⟨⟨_, rfl⟩, fun a m' ha => by cases ha⟩

theorem settles_alloc {P : Tree → Prop} (c : Closure Tree) (h : ∀ n, P (.node n c)) :
    Settles (fun _ => (alloc c : Act (Grove b) Tree)) P := by
  refine Settles.of_const fun m => ?_
  cases hm : m.store.capacity.filter (· < c.footprint) with
  | none =>
    rw [alloc_of_fits hm]
    refine ⟨trivial, fun a m' ha => ?_⟩
    cases ha
    exact h _
  | some size =>
    rw [alloc_of_oversize hm]
    exact ⟨⟨_, rfl⟩, fun a m' ha => by cases ha⟩

variable {e : Evaluator Tree} {f x : Tree}

theorem settles_toInt (e : Evaluator Tree) (x : Tree) :
    Settles (fun _ => (e.toInt x : Act (Grove b) Int64)) fun _ => True := by
  refine Settles.bind (P := fun _ => True) ?_ fun c _ => ?_
  · refine Settles.bind (settles_resolve x (P := fun _ => True) trivial) fun c _ => ?_
    exact Settles.of_const fun m => ⟨trivial, fun _ _ _ => trivial⟩
  · cases c.asInt? with
    | some value => exact .pure trivial
    | none => exact .violate _

/-- An application comes to an end if what its closure does comes to one. -/
theorem settles_applyWithin {P : Tree → Prop}
    (h : Settles (fun depth => (applied e depth x f.closure : Act (Grove b) Tree)) P) :
    Settles (fun depth => (e.applyWithin depth f x : Act (Grove b) Tree)) P := by
  refine Settles.of_succ ?_
  simp only [applyWithin_succ]
  refine Settles.bind (settles_resolve f (P := (· = f.closure)) rfl) fun c hc => ?_
  rw [hc]
  exact h

/-- A tree that can be applied this many times, each time to trees that can be applied once
less. -/
def Reducible (b : Nat) (e : Evaluator Tree) : Nat → Tree → Prop
  | 0, _ => True
  | level + 1, f => ∀ x, Reducible b e level x →
    Settles (fun depth => (e.applyWithin depth f x : Act (Grove b) Tree)) (Reducible b e level)

theorem reducible_zeroInner (level : Nat) {f : Tree} (hf : f.closure = .zeroInner) :
    Reducible b e level f := by
  cases level with
  | zero => trivial
  | succ level =>
    intro x hx
    refine settles_applyWithin ?_
    rw [hf]
    exact .pure hx

theorem reducible_intLiteral (level : Nat) (n : Nat) (value : Int64) :
    Reducible b e level (.node n (.intLiteral value)) := by
  cases level with
  | zero => trivial
  | succ level => exact fun x _ => settles_applyWithin (.violate _)

/-- A successor is applied by applying `n` twice as deep and `s` once. -/
theorem reducible_succInner {level : Nat} {n s : Tree} (hn : Reducible b e (level + 1) n)
    (hs : Reducible b e level s) (number : Nat) :
    Reducible b e level (.node number (.succInner n s)) := by
  cases level with
  | zero => trivial
  | succ level =>
    intro x hx
    refine settles_applyWithin ?_
    refine Settles.bind (hn s hs) fun ns hns => ?_
    refine Settles.bind (hns x hx) fun nsx hnsx => ?_
    exact hs nsx hnsx

theorem reducible_succPartial {level : Nat} {n : Tree} (hn : Reducible b e level n)
    (number : Nat) : Reducible b e level (.node number (.succPartial n)) := by
  cases level with
  | zero => trivial
  | succ level =>
    intro s hs
    exact settles_applyWithin (settles_alloc _ fun number => reducible_succInner hn hs number)

/-- All trees can be applied as often as one likes. -/
theorem reducible (he : e.singletons.zeroInner.closure = .zeroInner) (t : Tree) (level : Nat) :
    Reducible b e level t := by
  induction t generalizing level with
  | node number c ih =>
    cases c with
    | succPartial n =>
      exact reducible_succPartial (ih n (by simp [Closure.captures]) level) number
    | succInner n s =>
      exact reducible_succInner (ih n (by simp [Closure.captures]) (level + 1))
        (ih s (by simp [Closure.captures]) level) number
    | zeroInner => exact reducible_zeroInner level rfl
    | intLiteral value => exact reducible_intLiteral level number value
    | zero =>
      cases level with
      | zero => trivial
      | succ level =>
        exact fun x _ => settles_applyWithin (.pure (reducible_zeroInner level he))
    | succ =>
      cases level with
      | zero => trivial
      | succ level =>
        intro x hx
        exact settles_applyWithin (settles_alloc _ fun number => reducible_succPartial hx number)
    | inc =>
      cases level with
      | zero => trivial
      | succ level =>
        intro x _
        refine settles_applyWithin (Settles.bind (settles_toInt e x) fun value _ => ?_)
        split
        · exact .violate _
        · exact settles_alloc _ fun number => reducible_intLiteral level number _

/-- Every application of trees comes to an end. -/
theorem settles_apply (he : e.singletons.zeroInner.closure = .zeroInner) (f x : Tree) :
    Settles (fun depth => (e.applyWithin depth f x : Act (Grove b) Tree)) fun _ => True :=
  reducible he f 1 x trivial

theorem ends_apply (he : e.singletons.zeroInner.closure = .zeroInner) (f x : Tree)
    (m : Machine (Grove b)) : e.Ends f x m := by
  obtain ⟨depth, r, hr, hsettled, -⟩ := settles_apply he f x m
  exact ⟨depth, r, hr, hsettled⟩

end Grove

end ChurchStore
