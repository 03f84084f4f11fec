import ChurchStore.Proofs.GroveCosts

/-!
# Addition to any tree

A numeral that is applied to the successor adds: it puts new successors on top of whatever tree it
is applied to, and never looks into that tree. A numeral that is applied to something that adds
repeats it. So sums and products are climbs from the very tree that they start with, and what they
spend besides the climb are the closures that collect the arguments of numerals.
-/

namespace ChurchStore

/-- The tree consists of `k` successors of `x`, none of which has a number below `first`. -/
inductive Tree.Climbs (first : Nat) (x : Tree) : Nat → Tree → Prop where
  | base : Climbs first x 0 x
  | succ {k number : Nat} {t : Tree} : first ≤ number → Climbs first x k t →
    Climbs first x (k + 1) (.node number (.succPartial t))

namespace Grove

open Value

variable {b : Nat} {resets : List Nat} {first depth j k : Nat} {d : Evaluator Tree}
  {s t x y : Tree} {κ : Multiset Kind}

theorem climbs_trans (h : Tree.Climbs first y j t) (h' : Tree.Climbs first x k y) :
    Tree.Climbs first x (j + k) t := by
  induction h with
  | base => rwa [Nat.zero_add]
  | succ hle _ ih =>
    rw [Nat.succ_add]
    exact .succ hle ih

/-- A climb from a numeral is a numeral. -/
theorem value_of_climbs (hfirst : ∀ r ∈ resets, r ≤ first) (h : Tree.Climbs first x k t)
    (hx : value resets x = church j) : value resets t = church (k + j) := by
  induction h with
  | base => rwa [Nat.zero_add]
  | succ hle _ ih =>
    rw [value_of_le fun r hr => (hfirst r hr).trans hle, Closure.map, ih, Nat.succ_add]
    rfl

/-- With room for a depth of nesting, applying `s` climbs `k` successors up from any tree, and
spends `κ` on that. -/
def Adds (b : Nat) (resets : List Nat) (first : Nat) (d : Evaluator Tree) (depth k : Nat)
    (κ : Multiset Kind) (s : Tree) : Prop :=
  ∀ i, depth ≤ i → ∀ x,
    Spends (b := b) resets first (d.applyWithin i s x) (Tree.Climbs first x k) κ

theorem Adds.mono {depth' : Nat} (h : Adds b resets first d depth k κ s) (hle : depth ≤ depth') :
    Adds b resets first d depth' k κ s :=
  fun i hi => h i (hle.trans hi)

theorem adds_zeroInner (hs : value resets s = .node .zeroInner) :
    Adds b resets first d 1 0 0 s := by
  rintro (_ | i) hi x
  · cases hi
  · rw [applyWithin_succ]
    refine Spends.bind_free (spends_resolve hs) fun c hc => ?_
    cases c <;> cases hc
    exact Spends.pure .base

theorem adds_succ (hs : value resets s = .node .succ) :
    Adds b resets first d 1 1 {.succPartial} s := by
  rintro (_ | i) hi x
  · cases hi
  · rw [applyWithin_succ]
    refine Spends.bind_free (spends_resolve hs) fun c hc => ?_
    cases c <;> cases hc
    refine (spends_make (.succPartial x)).imp ?_
    rintro _ ⟨number, rfl, hle, -⟩
    exact .succ hle .base

/-- Applying the numeral `k` to what adds `j` gives what adds `k` times `j`. -/
theorem spends_apply_church (hd : Ready resets d) (hs : Adds b resets first d depth j κ s)
    (ht : value resets t = church k) {i : Nat} (hi : depth + k + 1 ≤ i) :
    Spends (b := b) resets first (d.applyWithin i t s)
      (Adds b resets first d (depth + k + 1) (k * j) ((k - 1) • {.succInner} + k • κ))
      (min k 1 • {.succInner}) := by
  induction k generalizing t i with
  | zero =>
    obtain ⟨i, rfl⟩ := Nat.exists_eq_add_of_lt hi
    rw [applyWithin_succ]
    refine Spends.bind_free (spends_resolve ht) fun c hc => ?_
    cases c <;> cases hc
    refine Spends.pure ?_
    rw [Nat.zero_mul, Nat.zero_sub, zero_nsmul, zero_nsmul, zero_add]
    exact (adds_zeroInner (hd.value_get .zeroInner)).mono (Nat.le_add_left 1 _)
  | succ k ih =>
    obtain ⟨i, rfl⟩ := Nat.exists_eq_add_of_lt hi
    rw [applyWithin_succ]
    refine Spends.bind_free (spends_resolve ht) fun c hc => ?_
    cases c <;> try cases hc
    case succPartial n =>
      rw [Nat.min_eq_right (Nat.le_add_left 1 k), one_nsmul]
      refine (spends_make (.succInner n s)).imp ?_
      rintro _ ⟨number, rfl, -, hle⟩ i hi x
      obtain ⟨i, rfl⟩ := Nat.exists_eq_add_of_lt hi
      have hcurrent : resets.countP (· ≤ number) = resets.length :=
        List.countP_eq_length.2 fun r hr => decide_eq_true (hle r hr)
      rw [applyWithin_succ]
      refine Spends.bind_free (spends_resolve_of_current hcurrent) ?_
      rintro _ rfl
      -- The numeral below climbs `k * j` up from `x`, and `s` climbs on from there.
      have hsum : (k + 1 - 1) • {Kind.succInner} + (k + 1) • κ =
          min k 1 • {.succInner} + ((k - 1) • {.succInner} + k • κ + κ) := by
        have hcollected : k + 1 - 1 = min k 1 + (k - 1) := by omega
        rw [hcollected, add_nsmul, succ_nsmul]
        abel
      rw [hsum, Nat.succ_mul, Nat.add_comm (k * j)]
      refine Spends.bind (ih (Closure.succPartial.inj hc) (by omega)) fun ns hns => ?_
      refine Spends.bind (hns _ (by omega) x) fun nsx hnsx => ?_
      exact (hs _ (by omega) nsx).imp fun y hy => climbs_trans hy hnsx

/-! ### Programs -/

variable {m n : Tree} {i : Nat}

/-- A sum climbs from its second operand. -/
theorem spends_plus_church (hd : Ready resets d) (hm : value resets m = church k)
    (hi : k + 2 ≤ i) :
    Spends (b := b) resets first ((d.nestedTo i).plus m n) (Tree.Climbs first n k)
      (k • {.succInner} + k • {.succPartial}) := by
  have hcollected : (k • {.succInner} + k • {.succPartial} : Multiset Kind) =
      min k 1 • {.succInner} + ((k - 1) • {.succInner} + k • {.succPartial}) := by
    have hk : min k 1 + (k - 1) = k := by omega
    rw [← add_assoc, ← add_nsmul, hk]
  simp only [Evaluator.plus, holding_eq, Evaluator.apply_nestedTo]
  rw [hcollected]
  refine Spends.bind_free (spends_builtin hd .succ) fun succ hsucc => ?_
  refine Spends.bind (spends_apply_church hd (adds_succ hsucc) hm (by omega)) fun add hadd => ?_
  rw [Nat.mul_one] at hadd
  exact hadd i (by omega) n

/-- A product climbs from the function that all zeros share. -/
theorem spends_mul_church (hd : Ready resets d) (hm : value resets m = church j)
    (hn : value resets n = church k) (hi : k + j + 3 ≤ i) :
    Spends (b := b) resets first ((d.nestedTo i).mul m n)
      (Tree.Climbs first d.singletons.zero (j * k))
      (min k 1 • {.succInner} + (min j 1 • {.succInner} +
        ((j - 1) • {.succInner} + j • ((k - 1) • {.succInner} + k • {.succPartial})))) := by
  simp only [Evaluator.mul, holding_eq, onFault_release_eq, Evaluator.apply_nestedTo]
  refine Spends.bind_free (spends_builtin hd .succ) fun succ hsucc => ?_
  refine Spends.bind (spends_apply_church hd (adds_succ hsucc) hn (by omega)) fun add hadd => ?_
  refine Spends.bind (spends_apply_church hd hadd hm (by omega)) fun iterated hiterated => ?_
  rw [Nat.mul_one] at hiterated
  refine Spends.bind_free (Spends.pure (P := (· = d.singletons.zero)) rfl) ?_
  rintro _ rfl
  exact hiterated i (by omega) _

end Grove

end ChurchStore
