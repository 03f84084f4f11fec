import ChurchStore.Proofs.ChainArithmetic
import Mathlib.Algebra.Order.Group.Multiset
import Mathlib.Algebra.Ring.GeomSum
import Mathlib.Tactic.Abel

/-!
# What applications cost

An application makes closures on its way, and which ones depends on the values alone. So the cost of
an application can be told before it is known on which store it is evaluated: `Yields` derives it
together with the result. Counting to a number costs something to make the function that is applied,
and something more than what the function itself costs to apply it. Both are known exactly for
chains of successors and for their powers; for all arithmetic terms no integers are among them.
-/

namespace ChurchStore.Value

variable {f s t u x y z : Value} {κ κ' α β : Multiset Kind} {a b k n : Nat}

/-- Applying `f` to `x` yields `y`, and makes closures of the kinds `κ` on the way. -/
inductive Yields : Value → Value → Value → Multiset Kind → Prop where
  | zero (x : Value) : Yields (.node .zero) x (.node .zeroInner) 0
  | zeroInner (x : Value) : Yields (.node .zeroInner) x x 0
  | succ (x : Value) : Yields (.node .succ) x (.node (.succPartial x)) {.succPartial}
  | succPartial (n x : Value) :
    Yields (.node (.succPartial n)) x (.node (.succInner n x)) {.succInner}
  | succInner {n s x ns nsx y : Value} {κ₁ κ₂ κ₃ : Multiset Kind} : Yields n s ns κ₁ →
    Yields ns x nsx κ₂ → Yields s nsx y κ₃ → Yields (.node (.succInner n s)) x y (κ₁ + κ₂ + κ₃)
  | inc {i : Int64} : i ≠ Int64.maxValue →
    Yields (.node .inc) (.node (.intLiteral i)) (.node (.intLiteral (i + 1))) {.intLiteral}

/-- Applying `s` to `z`, and then to what comes of it as often as the number says, yields `y`. -/
inductive Repeats (s : Value) : Nat → Value → Value → Multiset Kind → Prop where
  | done (z : Value) : Repeats s 0 z z 0
  | step {k : Nat} {z y x : Value} {κ κ' : Multiset Kind} : Yields s z y κ → Repeats s k y x κ' →
    Repeats s (k + 1) z x (κ + κ')

namespace Repeats

theorem yields (h : Repeats s 1 z y κ) : Yields s z y κ := by
  cases h with
  | step hs hrest =>
    cases hrest
    rwa [add_zero]

/-- A repetition goes on where its first part ended. -/
theorem split (h : Repeats s (a + b) z x κ) :
    ∃ y κ₁ κ₂, Repeats s a z y κ₁ ∧ Repeats s b y x κ₂ ∧ κ = κ₁ + κ₂ := by
  induction a generalizing z κ with
  | zero =>
    rw [Nat.zero_add] at h
    exact ⟨z, 0, κ, .done z, h, (zero_add κ).symm⟩
  | succ a ih =>
    rw [Nat.succ_add] at h
    cases h with
    | step hs hrest =>
      obtain ⟨y, κ₁, κ₂, hfirst, hsecond, rfl⟩ := ih hrest
      exact ⟨y, _, κ₂, .step hs hfirst, hsecond, (add_assoc ..).symm⟩

end Repeats

/-- To apply `u` is to apply `s` as often as the number says, at an additional cost. -/
def Unrolls (n : Nat) (s u : Value) (κ : Multiset Kind) : Prop :=
  ∀ {z y κ'}, Repeats s n z y κ' → Yields u z y (κ + κ')

theorem Unrolls.repeats (h : Unrolls n s u κ) (hr : Repeats s (n * k) z y κ') :
    Repeats u k z y (k • κ + κ') := by
  induction k generalizing z κ' with
  | zero =>
    rw [Nat.mul_zero] at hr
    cases hr
    rw [zero_nsmul, zero_add]
    exact .done _
  | succ k ih =>
    rw [Nat.mul_succ, Nat.add_comm] at hr
    obtain ⟨x, κ₁, κ₂, hfirst, hrest, rfl⟩ := hr.split
    have hsum : (k + 1) • κ + (κ₁ + κ₂) = κ + κ₁ + (k • κ + κ₂) := by
      rw [succ_nsmul']
      abel
    rw [hsum]
    exact .step (h hfirst) (ih hrest)

/-- The value counts to `n`: applied to any `s`, which costs `α`, it yields a value whose
application costs `β` more than the `n` applications of `s`. -/
def CountsAt (n : Nat) (t : Value) (α β : Multiset Kind) : Prop :=
  ∀ s, ∃ u, Yields t s u α ∧ Unrolls n s u β

namespace CountsAt

theorem zero : CountsAt 0 (.node .zero) 0 0 := by
  refine fun s => ⟨_, .zero s, fun hr => ?_⟩
  cases hr
  exact .zeroInner _

theorem succPartial (h : CountsAt n t α β) :
    CountsAt (n + 1) (.node (.succPartial t)) {.succInner} (α + β) := by
  intro s
  obtain ⟨u, hu, hunrolls⟩ := h s
  refine ⟨_, .succPartial t s, fun {z y κ'} hr => ?_⟩
  obtain ⟨x, κ₁, κ₂, hfirst, hlast, rfl⟩ := hr.split
  have hsum : α + β + (κ₁ + κ₂) = α + (β + κ₁) + κ₂ := by abel
  rw [hsum]
  exact .succInner hu (hunrolls hfirst) hlast.yields

theorem church_succ (k : Nat) :
    CountsAt (k + 1) (church (k + 1)) {.succInner} (k • {.succInner}) := by
  induction k with
  | zero => exact zero.succPartial
  | succ k ih =>
    rw [succ_nsmul']
    exact ih.succPartial

/-- A chain of successors makes one closure when it is applied, and one for each further level when
the result is. -/
theorem church (k : Nat) :
    CountsAt k (church k) (min k 1 • {.succInner}) ((k - 1) • {.succInner}) := by
  cases k with
  | zero => exact zero
  | succ k =>
    rw [Nat.min_eq_right (Nat.le_add_left 1 k), one_nsmul]
    exact church_succ k

/-- Iterating a value that counts to `b` nests the iterations in each other. -/
theorem exists_repeats (h : CountsAt b t α β) (k : Nat) (s : Value) :
    ∃ u, Repeats t k s u (k • α) ∧ Unrolls (b ^ k) s u ((∑ i ∈ Finset.range k, b ^ i) • β) := by
  induction k generalizing s with
  | zero =>
    refine ⟨s, by simpa using Repeats.done s, fun hr => ?_⟩
    rw [Finset.sum_range_zero, zero_nsmul, zero_add]
    exact hr.yields
  | succ k ih =>
    obtain ⟨v, hv, hb⟩ := h s
    obtain ⟨u, hu, hpow⟩ := ih v
    rw [succ_nsmul']
    refine ⟨u, .step hv hu, fun {z y κ'} hr => ?_⟩
    rw [Nat.pow_succ, Nat.mul_comm] at hr
    rw [Finset.sum_range_succ, add_nsmul, add_assoc]
    exact hpow (hb.repeats hr)

/-- A value that counts to `a` raises one that counts to `b` to a power. -/
theorem power {α' β' : Multiset Kind} (ha : CountsAt a f α β) (hb : CountsAt b x α' β') :
    ∃ u, Yields f x u α ∧
      CountsAt (b ^ a) u (β + a • α') ((∑ i ∈ Finset.range a, b ^ i) • β') := by
  obtain ⟨u, hu, hunrolls⟩ := ha x
  refine ⟨u, hu, fun s => ?_⟩
  obtain ⟨v, hv, hpow⟩ := hb.exists_repeats a s
  exact ⟨v, hunrolls hv, hpow⟩

end CountsAt

/-- Numerals are made by iterating the successor. -/
theorem repeats_succ_church (n k : Nat) :
    Repeats (.node .succ) k (church n) (church (n + k)) (k • {.succPartial}) := by
  induction k generalizing n with
  | zero =>
    rw [zero_nsmul]
    exact .done _
  | succ k ih =>
    have hrest := ih (n + 1)
    rw [Nat.succ_add] at hrest
    rw [succ_nsmul']
    exact .step (.succ _) hrest

/-! ### Counting integers -/

theorem repeats_inc {i : Int64} (h : i.toInt + n ≤ Int64.maxValue.toInt) :
    Repeats (.node .inc) n (.node (.intLiteral i)) (.node (.intLiteral (.ofInt (i.toInt + n))))
      (n • {.intLiteral}) := by
  induction n generalizing i with
  | zero =>
    rw [Int.natCast_zero, Int.add_zero, Int64.ofInt_toInt, zero_nsmul]
    exact .done _
  | succ n ih =>
    have hmax : i ≠ Int64.maxValue := by
      rintro rfl
      omega
    have hnext : (i + 1).toInt + n = i.toInt + (n + 1 : Nat) := by
      rw [toInt_add_one hmax]
      omega
    have hrest := ih (i := i + 1) (by rwa [hnext])
    rw [hnext] at hrest
    rw [succ_nsmul']
    exact .step (.inc hmax) hrest

/-- Counting increments from zero, as a fold does. -/
theorem CountsAt.exists_yields_inc (h : CountsAt n t α β) (hn : n ≤ Int64.maxValue.toInt) :
    ∃ u, Yields t (.node .inc) u α ∧
      Yields u (.node (.intLiteral 0)) (.node (.intLiteral (.ofInt n)))
        (β + n • {.intLiteral}) := by
  obtain ⟨u, hu, hunrolls⟩ := h (.node .inc)
  have hrepeats := repeats_inc (i := 0) (n := n) (by simpa using hn)
  rw [show (0 : Int64).toInt = 0 from rfl, Int.zero_add] at hrepeats
  exact ⟨u, hu, hunrolls hrepeats⟩

/-! ### Arithmetic without integers -/

/-- The value counts to `n` and makes no integers of its own in doing so. -/
def CountsFreely (n : Nat) (t : Value) : Prop :=
  ∃ α β, CountsAt n t α β ∧ .intLiteral ∉ α ∧ .intLiteral ∉ β

namespace CountsFreely

theorem church (k : Nat) : CountsFreely k (church k) :=
  ⟨_, _, .church k, by simp, by simp⟩

theorem succPartial (h : CountsFreely n t) : CountsFreely (n + 1) (.node (.succPartial t)) := by
  obtain ⟨α, β, hcounts, hα, hβ⟩ := h
  exact ⟨_, _, hcounts.succPartial, by simp, by simp [hα, hβ]⟩

theorem exists_repeats_succ (h : CountsFreely n t) (k : Nat) :
    ∃ u κ, Repeats (.node .succ) k t u κ ∧ .intLiteral ∉ κ ∧ CountsFreely (n + k) u := by
  induction k generalizing n t with
  | zero => exact ⟨t, 0, .done t, by simp, h⟩
  | succ k ih =>
    obtain ⟨u, κ, hu, hκ, hcounts⟩ := ih h.succPartial
    rw [Nat.succ_add] at hcounts
    exact ⟨u, _, .step (.succ t) hu, by simp [hκ], hcounts⟩

/-- A sum iterates the successor. -/
theorem plus (ha : CountsFreely a f) (hb : CountsFreely b x) :
    ∃ add y κ κ', Yields f (.node .succ) add κ ∧ Yields add x y κ' ∧
      .intLiteral ∉ κ + κ' ∧ CountsFreely (a + b) y := by
  obtain ⟨α, β, hcounts, hα, hβ⟩ := ha
  obtain ⟨add, hadd, hunrolls⟩ := hcounts (.node .succ)
  obtain ⟨y, κ, hy, hκ, hsum⟩ := hb.exists_repeats_succ a
  rw [Nat.add_comm] at hsum
  exact ⟨add, y, _, _, hadd, hunrolls hy, by simp [hα, hβ, hκ], hsum⟩

/-- A product iterates the function that adds, from zero on, so it is a chain of successors
whatever its factors are. -/
theorem mul (ha : CountsFreely a f) (hb : CountsFreely b x) :
    ∃ add iterated κ₁ κ₂ κ₃, Yields x (.node .succ) add κ₁ ∧ Yields f add iterated κ₂ ∧
      Yields iterated (.node .zero) (Value.church (a * b)) κ₃ ∧ .intLiteral ∉ κ₁ + (κ₂ + κ₃) := by
  obtain ⟨α, β, hcounts, hα, hβ⟩ := ha
  obtain ⟨α', β', hcounts', hα', hβ'⟩ := hb
  obtain ⟨add, hadd, hsum⟩ := hcounts' (.node .succ)
  obtain ⟨iterated, hiterated, hunrolls⟩ := hcounts add
  have hchain := repeats_succ_church 0 (b * a)
  rw [Nat.zero_add] at hchain
  rw [Nat.mul_comm a b]
  exact ⟨add, iterated, _, _, _, hadd, hiterated, hunrolls (hsum.repeats hchain),
    by simp [hα, hβ, hα', hβ']⟩

theorem power (ha : CountsFreely a f) (hb : CountsFreely b x) :
    ∃ u κ, Yields f x u κ ∧ .intLiteral ∉ κ ∧ CountsFreely (b ^ a) u := by
  obtain ⟨α, β, hcounts, hα, hβ⟩ := ha
  obtain ⟨α', β', hcounts', hα', hβ'⟩ := hb
  obtain ⟨u, hu, hpow⟩ := hcounts.power hcounts'
  exact ⟨u, _, hu, hα, _, _, hpow, by simp [hβ, hα'], by simp [hβ']⟩

end CountsFreely

end ChurchStore.Value
