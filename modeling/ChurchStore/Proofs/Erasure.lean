import ChurchStore.Proofs.Church
import ChurchStore.Proofs.HandleSize
import ChurchStore.Proofs.Normalization
import Mathlib.Data.Multiset.MapFold

/-!
# Erasing the numbers of allocations

The value of a tree is the tree without the numbers of its allocations; what was made before the
last reset shows its epoch only. Evaluation never looks at the numbers otherwise, so a grove on
which no closure is too large and the bare store agree. Applications of trees end, and hence so do
those of their values.
-/

namespace ChurchStore

open Filter

namespace Grove

/-- What a closure shows that was made under the given number. -/
def shown (resets : List Nat) (number : Nat) (c : Closure Value) : Value :=
  if resets.countP (· ≤ number) = resets.length then .node c
  else .stale (.ofNat (resets.countP (· ≤ number)))

/-- The value of a tree after the given resets. -/
def value (resets : List Nat) : Tree → Value
  | .node number .zero => shown resets number .zero
  | .node number .zeroInner => shown resets number .zeroInner
  | .node number .succ => shown resets number .succ
  | .node number (.succPartial n) => shown resets number (.succPartial (value resets n))
  | .node number (.succInner n s) =>
    shown resets number (.succInner (value resets n) (value resets s))
  | .node number (.intLiteral a) => shown resets number (.intLiteral a)
  | .node number .inc => shown resets number .inc

variable {b : Nat} {resets : List Nat}

theorem value_node (resets : List Nat) (number : Nat) (c : Closure Tree) :
    value resets (.node number c) = shown resets number (c.map (value resets)) := by
  cases c <;> rfl

theorem value_of_current {g : Grove b} {t : Tree} (h : g.epochOf t.number = g.resets.length) :
    value g.resets t = .node (t.closure.map (value g.resets)) := by
  obtain ⟨number, c⟩ := t
  rw [value_node]
  exact if_pos h

theorem value_of_stale {g : Grove b} {t : Tree} (h : g.epochOf t.number ≠ g.resets.length) :
    value g.resets t = .stale (.ofNat (g.epochOf t.number)) := by
  obtain ⟨number, c⟩ := t
  rw [value_node]
  exact if_neg h

/-- The value of a tree that was made last. -/
theorem value_of_le {number : Nat} {c : Closure Tree} (h : ∀ r ∈ resets, r ≤ number) :
    value resets (.node number c) = .node (c.map (value resets)) := by
  rw [value_node, shown, if_pos (List.countP_eq_length.2 fun r hr => decide_eq_true (h r hr))]

/-- A grove on which nothing is too large, seen without the numbers of allocations. -/
structure Erases (resets : List Nat) (g : Grove b) (w : Bare) (held : Multiset (Tree × Value)) :
    Prop where
  resets_eq : g.resets = resets
  resets_le : ∀ r ∈ resets, r ≤ g.made.length
  fits (c : Closure Tree) : g.capacity.filter (· < c.footprint) = none
  now_eq : w.now = .ofNat resets.length
  value_eq {p : Tree × Value} : p ∈ held → p.2 = value resets p.1

namespace Erases

variable {g : Grove b} {w : Bare} {held held' : Multiset (Tree × Value)}

theorem mono (h : Erases resets g w held) (hsub : held' ⊆ held) : Erases resets g w held' :=
  { h with value_eq := fun hp => h.value_eq (hsub hp) }

theorem map_snd {c : Closure (Tree × Value)} {lent : Multiset (Tree × Value)}
    (h : Erases resets g w (c.captures + lent)) :
    c.map Prod.snd = (c.map Prod.fst).map (value resets) := by
  rw [Closure.map_map]
  exact Closure.map_congr fun p hp => h.value_eq (Multiset.mem_add.2 (.inl hp))

theorem grow {c : Closure (Tree × Value)} {lent : Multiset (Tree × Value)}
    (h : Erases resets g w (c.captures + lent)) (k : Kind) :
    Erases resets (g.grow k) w
      ((.node g.made.length (c.map Prod.fst), .node (c.map Prod.snd)) ::ₘ lent) where
  resets_eq := h.resets_eq
  resets_le r hr := Nat.le_succ_of_le (h.resets_le r hr)
  fits := h.fits
  now_eq := h.now_eq
  value_eq hp := by
    rcases Multiset.mem_cons.1 hp with rfl | hp
    · rw [value_of_le h.resets_le, h.map_snd]
    · exact h.value_eq (Multiset.mem_add.2 (.inr hp))

theorem captures {t : Tree} {lent : Multiset (Tree × Value)} (h : Erases resets g w lent) :
    Erases resets g w ((t.closure.map fun u => (u, value resets u)).captures + lent) :=
  { h with
    value_eq := fun {p} hp => by
      rcases Multiset.mem_add.1 hp with hp | hp
      · rw [Multiset.mem_coe, Closure.captures_map] at hp
        obtain ⟨u, -, rfl⟩ := List.mem_map.1 hp
        rfl
      · exact h.value_eq hp }

end Erases

theorem erases_alloc (resets : List Nat) (c : Closure (Tree × Value))
    (lent : Multiset (Tree × Value)) :
    Coupled (fun m n => Erases resets m.store n.store (c.captures + lent))
      (alloc (c.map Prod.fst) : Act (Grove b) Tree) (Bare.alloc (c.map Prod.snd))
      (fun t u m n => Erases resets m.store n.store ((t, u) ::ₘ lent))
      (fun _ m n => True ∧ Erases resets m.store n.store lent) := by
  refine Coupled.of_ok fun m n h => ?_
  exact ⟨_, _, _, n, alloc_of_fits (h.fits (c.map Prod.fst)), rfl, h.grow _⟩

theorem erases_resolve {p : Tree × Value} {lent : Multiset (Tree × Value)} (hp : p ∈ lent) :
    Coupled (fun m n => Erases resets m.store n.store lent)
      (resolve p.1 : Act (Grove b) (Closure Tree)) (Bare.resolve p.2)
      (fun x y m n => ∃ c : Closure (Tree × Value), x = c.map Prod.fst ∧ y = c.map Prod.snd ∧
        Erases resets m.store n.store (c.captures + lent))
      (fun _ m n => True ∧ Erases resets m.store n.store lent) := by
  intro m n h
  have hvalue := h.value_eq hp
  rw [← h.resets_eq] at hvalue
  by_cases hcur : m.store.epochOf p.1.number = m.store.resets.length
  · rw [resolve_of_current hcur, hvalue, value_of_current hcur, h.resets_eq]
    refine ⟨p.1.closure.map fun u => (u, value resets u), ?_, ?_, h.captures⟩
    · rw [Closure.map_map]
      exact (Closure.map_eq_self fun u _ => rfl).symm
    · rw [Closure.map_map]
      rfl
  · have hnow : n.store.now = .ofNat m.store.resets.length := by rw [h.now_eq, h.resets_eq]
    rw [resolve_of_stale hcur, hvalue, value_of_stale hcur, ← hnow]
    exact ⟨rfl, trivial, h⟩

/-- Groves and the bare store agree, but for the comparison of handles. -/
def erasure (b : Nat) (resets : List Nat) :
    Simulation (Guise (Grove b) 16 fun _ _ : Tree => true) Bare where
  left := 0
  right := 0
  Rel g w held := Erases (b := b) resets g w held
  Faulty _ := True
  retain h hp := h.mono (Multiset.cons_subset.2 ⟨hp, Multiset.Subset.refl _⟩)
  release h := h.mono (Multiset.subset_cons _ _)
  alloc := erases_alloc resets
  resolve := erases_resolve
  same _ _ _ := rfl
  describe _ := Coupled.of_ok fun m n h => ⟨_, _, m, n, rfl, rfl, h⟩
  handleBytes_eq := rfl

/-- Trees beside their values. -/
def values (resets : List Nat) (trees : Multiset Tree) : Multiset (Tree × Value) :=
  trees.map fun t => (t, value resets t)

variable {trees : Multiset Tree} {g : Grove b} {w : Bare}

theorem mem_values {t : Tree} (h : t ∈ trees) : (t, value resets t) ∈ values resets trees :=
  Multiset.mem_map_of_mem (fun t => (t, value resets t)) h

theorem value_eq_of_mem_values {p : Tree × Value} (h : p ∈ values resets trees) :
    p.2 = value resets p.1 := by
  obtain ⟨t, -, rfl⟩ := Multiset.mem_map.1 h
  rfl

theorem Erases.with_values {held : Multiset (Tree × Value)} (h : Erases resets g w held)
    (trees : Multiset Tree) : Erases resets g w (values resets trees) :=
  { h with value_eq := value_eq_of_mem_values }

variable {d : Evaluator Tree}

theorem Ready.value_get (hd : Ready resets d) (b : Builtin) :
    value resets (d.singletons.get b) = Bare.builtins.get b := by
  obtain ⟨first, hd, hle⟩ := hd
  rw [hd]
  have h (k : Nat) (r : Nat) (hr : r ∈ resets) : r ≤ first + k := Nat.le_add_right_of_le (hle r hr)
  cases b with
  | zero => exact value_of_le hle
  | zeroInner => exact value_of_le (h 1)
  | succ => exact value_of_le (h 2)
  | inc => exact value_of_le (h 3)

theorem Ready.serves (hd : Ready resets d) (hsite : d.site = 0)
    (hheld : ∀ b, d.singletons.get b ∈ trees) (depth : Nat) :
    (erasure b resets).Serves (d.nestedTo depth) (Bare.evaluator depth) (values resets trees) where
  left := hsite
  right := rfl
  nesting := rfl
  builtin b := by
    have hmem : (d.singletons.get b, value resets (d.singletons.get b)) ∈ values resets trees :=
      mem_values (hheld b)
    rwa [hd.value_get] at hmem

/-! ### Outcomes on a grove and on the bare store -/

variable {held : Multiset (Tree × Value)} {m m' : Machine (Grove b)} {α β : Type}

theorem Erases.store_eq {held' : Multiset (Tree × Value)} {g' : Grove b} {w' : Bare}
    (h : Erases resets g w held) (h' : Erases resets g' w' held') : w' = w := by
  obtain ⟨now⟩ := w
  obtain ⟨now'⟩ := w'
  exact congrArg Bare.mk (h'.now_eq.trans h.now_eq.symm)

/-- What the bare store concludes with is what the grove comes to. -/
theorem of_concludes {x : Act (Grove b) α} {y : Act Bare β} {r : Except Violation β}
    {result : α → β → Multiset (Tree × Value) → Prop}
    (h : (erasure b resets).Agree 0 held x y result) (hm : Erases resets m.store w held)
    (hy : Bare.Concludes w y r) :
    match r with
    | .ok u => ∃ t m' given, x m = .ok t m' ∧ result t u given ∧
      Erases resets m'.store w (given + held)
    | .error v => ∃ m', x m = .error (.violation v) m' := by
  have hcases := h.cases (n := ⟨w, {}⟩) hm
  cases r with
  | ok u =>
    obtain ⟨j, hy⟩ := hy {}
    obtain ⟨t, u', m', n', given, hx, hy', hr, hholds⟩ | ⟨f, m', n', -, hy', -⟩ := hcases
    · rw [hy] at hy'
      cases hy'
      exact ⟨t, m', given, hx, hr, hholds⟩
    · rw [hy] at hy'
      cases hy'
  | error v =>
    obtain ⟨j, hy⟩ := hy {}
    obtain ⟨a, a', m', n', -, -, hy', -⟩ | ⟨f, m', n', hx, hy', -⟩ := hcases
    · rw [hy] at hy'
      cases hy'
    · rw [hy] at hy'
      cases hy'
      exact ⟨m', hx⟩

variable {x : Act (Grove b) Tree} {y : Act Bare Value}

theorem concludes_of_ok {t : Tree} (h : (erasure b resets).Agree 0 held x y Simulation.Handed)
    (hm : Erases resets m.store w held) (hx : x m = .ok t m') :
    Bare.Concludes w y (.ok (value resets t)) := by
  intro j
  obtain ⟨t', u, n, ⟨w', j'⟩, _, hx', hy, rfl, hholds⟩ | ⟨f, n, n', hx', -, -⟩ :=
    h.cases (n := ⟨w, j⟩) hm
  · obtain ⟨rfl, rfl⟩ : t = t' ∧ m' = n := by
      have := hx.symm.trans hx'
      cases this
      exact ⟨rfl, rfl⟩
    have hu : u = value resets t := Erases.value_eq hholds (p := (t, u)) (by simp)
    have hw : w' = w := hm.store_eq hholds
    exact ⟨j', by rw [hy, hu, hw]⟩
  · have := hx.symm.trans hx'
    cases this

theorem concludes_of_error {v : Violation}
    (h : (erasure b resets).Agree 0 held x y Simulation.Handed)
    (hm : Erases resets m.store w held) (hx : x m = .error (.violation v) m') :
    Bare.Concludes w y (.error v) := by
  intro j
  obtain ⟨t', u, n, n', -, hx', -⟩ | ⟨f, n, ⟨w', j'⟩, hx', hy, -, hholds⟩ :=
    h.cases (n := ⟨w, j⟩) hm
  · have := hx.symm.trans hx'
    cases this
  · obtain rfl : f = .violation v := by
      have := hx.symm.trans hx'
      cases this
      rfl
    have hw : w' = w := hm.store_eq hholds
    exact ⟨j', by rw [hy, hw]⟩

/-! ### Evaluation -/

section Agreement

variable (hd : Ready resets d) (hsite : d.site = 0) (hheld : ∀ b, d.singletons.get b ∈ trees)
  (depth : Nat) {f s z : Tree}

include hd hsite hheld

theorem agree_build (t : Term) :
    (erasure b resets).Agree 0 (values resets trees)
      (t.build (d.nestedTo depth) : Act (Grove b) Tree) (t.build (Bare.evaluator depth))
      Simulation.Handed := by
  have h := (hd.serves (b := b) hsite hheld depth).agree_build t
  rwa [Guise.build_eq] at h

theorem agree_apply (hf : f ∈ trees) (hs : s ∈ trees) :
    (erasure b resets).Agree 0 (values resets trees)
      ((d.nestedTo depth).apply f s : Act (Grove b) Tree)
      ((Bare.evaluator depth).apply (value resets f) (value resets s)) Simulation.Handed := by
  have h := (hd.serves (b := b) hsite hheld depth).agree_apply (mem_values hf) (mem_values hs)
  rwa [Guise.apply_eq] at h

theorem agree_applyTwice (hf : f ∈ trees) (hs : s ∈ trees) (hz : z ∈ trees) :
    (erasure b resets).Agree 0 (values resets trees)
      ((d.nestedTo depth).applyTwice f s z : Act (Grove b) Tree)
      ((Bare.evaluator depth).applyTwice (value resets f) (value resets s) (value resets z))
      Simulation.Handed := by
  have h := (hd.serves (b := b) hsite hheld depth).agree_applyTwice (mem_values hf) (mem_values hs)
    (mem_values hz)
  rwa [Guise.applyTwice_eq] at h

theorem agree_iterate (hs : s ∈ trees) (k : Nat) (hz : z ∈ trees) :
    (erasure b resets).Agree 0 (values resets trees)
      ((d.nestedTo depth).iterate s k z : Act (Grove b) Tree)
      ((Bare.evaluator depth).iterate (value resets s) k (value resets z)) Simulation.Handed := by
  have h := (hd.serves (b := b) hsite hheld depth).agree_iterate (mem_values hs) k (mem_values hz)
  rwa [Guise.iterate_eq] at h

theorem agree_countFrom (start : Int64) (hf : f ∈ trees) :
    (erasure b resets).Agree 0 (values resets trees)
      ((d.nestedTo depth).countFrom start f : Act (Grove b) Int64)
      ((Bare.evaluator depth).countFrom start (value resets f)) Simulation.Shown := by
  have h := (hd.serves (b := b) hsite hheld depth).agree_countFrom start (mem_values hf)
  rwa [Guise.countFrom_eq] at h

theorem agree_pow (hs : s ∈ trees) (hf : f ∈ trees) :
    (erasure b resets).Agree 0 (values resets trees)
      ((d.nestedTo depth).pow s f : Act (Grove b) Int64)
      ((Bare.evaluator depth).pow (value resets s) (value resets f)) Simulation.Shown := by
  have h := (hd.serves (b := b) hsite hheld depth).agree_pow (mem_values hs) (mem_values hf)
  rwa [Guise.pow_eq] at h

theorem agree_numeral (k : Nat) :
    (erasure b resets).Agree 0 (values resets trees)
      ((d.nestedTo depth).numeral k : Act (Grove b) Tree) ((Bare.evaluator depth).numeral k)
      Simulation.Handed := by
  have h := (hd.serves (b := b) hsite hheld depth).agree_numeral k
  rwa [Guise.numeral_eq] at h

theorem agree_extendTable (k : Nat) :
    (erasure b resets).Agree 0 (values resets trees)
      ((d.nestedTo depth).extendTable k #[] : Act (Grove b) (Array Tree))
      ((Bare.evaluator depth).extendTable k #[]) Simulation.Tabled := by
  have h := (hd.serves (b := b) hsite hheld depth).agree_extendTable k []
  rwa [Guise.extendTable_eq] at h

theorem agree_plus (hs : s ∈ trees) (hf : f ∈ trees) :
    (erasure b resets).Agree 0 (values resets trees)
      ((d.nestedTo depth).plus s f : Act (Grove b) Tree)
      ((Bare.evaluator depth).plus (value resets s) (value resets f)) Simulation.Handed := by
  have h := (hd.serves (b := b) hsite hheld depth).agree_plus (mem_values hs) (mem_values hf)
  rwa [Guise.plus_eq] at h

theorem agree_mul (hs : s ∈ trees) (hf : f ∈ trees) :
    (erasure b resets).Agree 0 (values resets trees)
      ((d.nestedTo depth).mul s f : Act (Grove b) Tree)
      ((Bare.evaluator depth).mul (value resets s) (value resets f)) Simulation.Handed := by
  have h := (hd.serves (b := b) hsite hheld depth).agree_mul (mem_values hs) (mem_values hf)
  rwa [Guise.mul_eq] at h

end Agreement

/-! ### Ends of applications -/

/-- Applying the value of a tree to that of another comes to an end, which is again the value of a
tree if it is not a violation. -/
theorem exists_applies (hd : Ready resets d) (hsite : d.site = 0)
    (hm : Erases resets g w held) (f x : Tree) :
    ∃ r, Bare.Applies w (value resets f) (value resets x) r ∧
      ∀ u, r = .ok u → ∃ t, u = value resets t := by
  let trees : Multiset Tree := f ::ₘ x ::ₘ Builtin.all.map d.singletons.get
  have hheld (b : Builtin) : d.singletons.get b ∈ trees := by
    refine Multiset.mem_cons_of_mem (Multiset.mem_cons_of_mem ?_)
    exact List.mem_map_of_mem (by cases b <;> simp [Builtin.all])
  have hagree (depth : Nat) := agree_apply (b := b) hd hsite hheld depth
    (Multiset.mem_cons_self f _) (Multiset.mem_cons_of_mem (Multiset.mem_cons_self x _))
  have hpre : Erases resets (⟨g, {}⟩ : Machine (Grove b)).store w (values resets trees) :=
    hm.with_values trees
  obtain ⟨depth, r, hr, hsettled, -⟩ := settles_apply hd.closure_zeroInner f x ⟨g, {}⟩
  have hrun (k : Nat) (hk : depth ≤ k) : (d.nestedTo k).apply f x ⟨g, {}⟩ = r := by
    rw [Evaluator.apply_nestedTo]
    exact hr k hk
  cases r with
  | ok t m' =>
    refine ⟨.ok (value resets t), ?_, fun u hu => ⟨t, (Except.ok.inj hu).symm⟩⟩
    exact Filter.eventually_atTop.2 ⟨depth, fun k hk =>
      concludes_of_ok (hagree k) hpre (hrun k hk)⟩
  | error fault m' =>
    obtain ⟨v, rfl⟩ := hsettled
    refine ⟨.error v, ?_, fun u hu => by cases hu⟩
    exact Filter.eventually_atTop.2 ⟨depth, fun k hk =>
      concludes_of_error (hagree k) hpre (hrun k hk)⟩

/-- So does iterating one. -/
theorem exists_iterates (hd : Ready resets d) (hsite : d.site = 0)
    (hm : Erases resets g w held) (s : Tree) (k : Nat) (z : Tree) :
    ∃ r, Bare.Iterates w (value resets s) k (value resets z) r := by
  induction k generalizing z with
  | zero => exact ⟨_, .done _⟩
  | succ k ih =>
    obtain ⟨r, hr, hvalue⟩ := exists_applies hd hsite hm s z
    cases r with
    | ok u =>
      obtain ⟨t, rfl⟩ := hvalue u rfl
      obtain ⟨r, hiterates⟩ := ih t
      exact ⟨r, .step hr hiterates⟩
    | error v => exact ⟨.error v, .stop hr⟩

end Grove

end ChurchStore
