import ChurchStore.Proofs.Arithmetic
import ChurchStore.Proofs.Pools.SlotCounts
import ChurchStore.Proofs.Resumption

/-!
# What counting costs

Wherever a run has brought an evaluator, it allocates a known number of closures of each kind to
fold a numeral or to raise one numeral to the power of another: what the store allocates is what the
grove spends, and that can be read off the values of the trees. To build an arithmetic term takes no
integers at all, and to fold it one more than its number. On a new pool the slots are known, too.
-/

namespace ChurchStore

open Filter Session

open Value (church CountsAt)

/-- How many closures of each kind it takes to fold the numeral `k`. -/
def foldCost (k : Nat) : Kind → Nat
  | .succInner => k
  | .intLiteral => k + 1
  | .zero | .zeroInner | .succ | .succPartial | .inc => 0

/-- How many closures of each kind it takes to raise the numeral `l` to the power of the numeral
`k`. -/
def powCost (l k : Nat) : Kind → Nat
  | .succInner => if l = 0 then k else l ^ k + 2 * k - 1
  | .intLiteral => l ^ k + 1
  | .zero | .zeroInner | .succ | .succPartial | .inc => 0

theorem count_foldCost (k : Nat) (kind : Kind) :
    (min k 1 • {.succInner} + (k - 1) • {.succInner} + (k + 1) • {.intLiteral} :
      Multiset Kind).count kind = foldCost k kind := by
  cases kind with
  | succInner =>
    have hsum : min k 1 + (k - 1) = k := by omega
    simpa [foldCost] using hsum
  | intLiteral => simp [foldCost]
  | zero | zeroInner | succ | succPartial | inc => simp [foldCost]

/-- What the levels of the numeral that is raised make adds up to a geometric sum. -/
theorem count_powCost (l k : Nat) (kind : Kind) :
    (min k 1 • {.succInner} + ((k - 1) • {.succInner} + k • min l 1 • {.succInner} +
      (∑ i ∈ Finset.range k, l ^ i) • (l - 1) • {.succInner} + (l ^ k + 1) • {.intLiteral}) :
        Multiset Kind).count kind = powCost l k kind := by
  cases kind with
  | succInner =>
    have hsum : min k 1 + (k - 1 + k * min l 1 + (∑ i ∈ Finset.range k, l ^ i) * (l - 1)) =
        powCost l k .succInner := by
      cases l with
      | zero =>
        simp only [powCost, if_pos, Nat.zero_min, Nat.mul_zero, Nat.zero_sub]
        omega
      | succ l =>
        have hgeom := geom_sum_mul_add l k
        simp only [powCost, if_neg (Nat.succ_ne_zero l), Nat.add_sub_cancel,
          Nat.min_eq_right (Nat.le_add_left 1 l), Nat.mul_one]
        omega
    simpa using hsum
  | intLiteral => simp [powCost]
  | zero | zeroInner | succ | succPartial | inc => simp [powCost]

variable {W H : Type} [Host W H]

/-- How many closures of a kind the evaluator has allocated. -/
def Evaluator.allocations (e : Evaluator H) (m : Machine W) (k : Kind) : Nat :=
  ((Backend.stats e.site m.store).kind k).alloc

/-- From one machine to the other the evaluator allocates as many closures of each kind as the table
says. -/
def Evaluator.Allocates (e : Evaluator H) (m m' : Machine W) (cost : Kind → Nat) : Prop :=
  ∀ k, e.allocations m' k = e.allocations m k + cost k

/-- What counting costs an evaluator with a machine, as soon as it may nest deep enough. To fold a
numeral allocates what `foldCost` says and nothing else, and to raise one to the power of another
what `powCost` says, whether the numerals are held already or are built beforehand. To build an
arithmetic term allocates no integers, and to fold it one more than its number. -/
structure Evaluator.Costs (v : View W H) (e : Evaluator H) (held : List H) (m : Machine W) :
    Prop where
  fold_held {n : H} {k : Nat} : n ∈ held → v.Shows m.store n (church k) →
    k ≤ Int64.maxValue.toInt → ∃ depth, ∀ i, depth ≤ i → ∃ m',
      (e.nestedTo i).fold n m = .ok (.ofInt k) m' ∧ e.Allocates m m' (foldCost k)
  pow_held {a n : H} {l k : Nat} : a ∈ held → n ∈ held → v.Shows m.store a (church l) →
    v.Shows m.store n (church k) → (l ^ k : Nat) ≤ Int64.maxValue.toInt →
    ∃ depth, ∀ i, depth ≤ i → ∃ m',
      (e.nestedTo i).pow a n m = .ok (.ofInt (l ^ k : Nat)) m' ∧ e.Allocates m m' (powCost l k)
  fold_numeral {k : Nat} : k ≤ Int64.maxValue.toInt → ∃ depth, ∀ i, depth ≤ i → ∃ n m₁ m₂,
    (e.nestedTo i).numeral k m = .ok n m₁ ∧
      (e.nestedTo i).fold n m₁ = .ok (.ofInt k) m₂ ∧ e.Allocates m₁ m₂ (foldCost k)
  pow_numerals {l k : Nat} : (l ^ k : Nat) ≤ Int64.maxValue.toInt →
    ∃ depth, ∀ i, depth ≤ i → ∃ a m₁ n m₂ m₃, (e.nestedTo i).numeral l m = .ok a m₁ ∧
      (e.nestedTo i).numeral k m₁ = .ok n m₂ ∧
      (e.nestedTo i).pow a n m₂ = .ok (.ofInt (l ^ k : Nat)) m₃ ∧
      e.Allocates m₂ m₃ (powCost l k)
  fold_term {t : Term} {n : Nat} : t.number? = some n → n ≤ Int64.maxValue.toInt →
    ∃ depth, ∀ i, depth ≤ i → ∃ f m₁ m₂, t.build (e.nestedTo i) m = .ok f m₁ ∧
      (e.nestedTo i).fold f m₁ = .ok (.ofInt n) m₂ ∧
      e.allocations m₁ .intLiteral = e.allocations m .intLiteral ∧
      e.allocations m₂ .intLiteral = e.allocations m₁ .intLiteral + (n + 1)

namespace Representation.AtWork

variable {b : Nat} {R : Representation W} {hb : Backend.handleBytes W = b} {resets : List Nat}
  {e : Evaluator H} {d : Evaluator Tree} {held : Multiset (H × Tree)} {m : Machine W}
  {n : Machine (Grove b)} {α β : Type}

theorem roomy {first : Nat} (h : R.AtWork hb resets e d held m n)
    (hfirst : first ≤ n.store.made.length) : Grove.Roomy resets first n.store := by
  have herases := erases_of_holds h.fits e.singletons.zero h.holds 0
  exact ⟨herases.resets_eq, herases.resets_le, hfirst, herases.fits⟩

/-- The evaluator counts what is allocated. -/
theorem allocations_eq_iff {m' : Machine W} {k : Kind} {c : Nat}
    (h : R.AtWork hb resets e d held m n) :
    e.allocations m' k = e.allocations m k + c ↔
      R.allocated m'.store k = R.allocated m.store k + c := by
  obtain ⟨more, hmore⟩ := h.exists_allocated_eq
  have hsite : e.site = R.site := h.serves.left
  rw [hmore, hmore, Evaluator.allocations, Evaluator.allocations, hsite]
  omega

/-- The store counts what has been made on the grove. -/
theorem allocates {m' : Machine W} {held' : Multiset (H × Tree)} {known : H → Prop}
    {tree : H → Tree} {l : List Kind} {cost : Kind → Nat} (h : R.AtWork hb resets e d held m n)
    (hm' : R.Mirrors m'.store (n.store.growAll l) held' known tree)
    (hcost : ∀ k, l.count k = cost k) : e.Allocates m m' cost := by
  intro k
  obtain ⟨-, known, tree, hm⟩ := h.holds
  rw [h.allocations_eq_iff, hm.allocated_eq, hm'.allocated_eq,
    (h.roomy (Nat.zero_le _)).recent_growAll, List.count_append, Nat.add_comm, ← hcost]

/-- What the grove spends, the store allocates. -/
theorem spends {x : Act W α} {y : Act (Grove b) β}
    {result : α → β → Multiset (H × Tree) → Prop} {P : β → Prop} {κ : Multiset Kind}
    {cost : Kind → Nat} (h : R.AtWork hb resets e d held m n)
    (hagree : (R.simulation hb resets).Agree 0 held x y result)
    (hspends : Grove.Spends resets 0 y P κ) (hcost : ∀ k, κ.count k = cost k) :
    ∃ a t given m' n', x m = .ok a m' ∧ result a t given ∧ P t ∧
      R.AtWork hb resets e d (given + held) m' n' ∧ e.Allocates m m' cost := by
  obtain ⟨t, l, hy, hP, rfl⟩ := hspends n (h.roomy (Nat.zero_le _))
  obtain ⟨a, u, m', n', given, hx, hy', hresult, hholds⟩ | ⟨f, m', n', -, hy', -⟩ :=
    hagree.cases h.holds
  · cases hy.symm.trans hy'
    refine ⟨a, t, given, m', { n with store := n.store.growAll l }, hx, hresult, hP, ?_, ?_⟩
    · exact { h with
        serves := h.serves.mono fun p hp => Multiset.mem_add.2 (.inr hp)
        holds := hholds }
    · obtain ⟨-, known, tree, hm'⟩ := hholds
      exact h.allocates hm' fun k => by rw [← hcost, Multiset.coe_count]
  · cases hy.symm.trans hy'

variable {κ : Multiset Kind} {cost : Kind → Nat}

theorem hands {x : Act W H} {y : Act (Grove b) Tree} {u : Value}
    (h : R.AtWork hb resets e d held m n)
    (hagree : (R.simulation hb resets).Agree 0 held x y Simulation.Handed)
    (hspends : Grove.Spends resets 0 y (Grove.value resets · = u) κ)
    (hcost : ∀ k, κ.count k = cost k) :
    ∃ p m' n', x m = .ok p.1 m' ∧ Grove.value resets p.2 = u ∧
      R.AtWork hb resets e d (p ::ₘ held) m' n' ∧ e.Allocates m m' cost := by
  obtain ⟨a, t, _, m', n', hx, rfl, hvalue, hwork, hallocates⟩ := h.spends hagree hspends hcost
  exact ⟨(a, t), m', n', hx, hvalue, hwork, hallocates⟩

theorem shows {x : Act W α} {y : Act (Grove b) α} {a : α} (h : R.AtWork hb resets e d held m n)
    (hagree : (R.simulation hb resets).Agree 0 held x y Simulation.Shown)
    (hspends : Grove.Spends resets 0 y (· = a) κ) (hcost : ∀ k, κ.count k = cost k) :
    ∃ m', x m = .ok a m' ∧ e.Allocates m m' cost := by
  obtain ⟨_, _, _, m', -, hx, ⟨rfl, -⟩, rfl, -, hallocates⟩ := h.spends hagree hspends hcost
  exact ⟨m', hx, hallocates⟩

/-- A numeral is held from when it has been built. -/
theorem numeral {i k : Nat} (h : R.AtWork hb resets e d held m n)
    (hspends : Grove.Spends (b := b) resets 0 ((d.nestedTo i).numeral k)
      (Grove.value resets · = church k) κ) :
    ∃ p m' n', (e.nestedTo i).numeral k m = .ok p.1 m' ∧ Grove.value resets p.2 = church k ∧
      R.AtWork hb resets e d (p ::ₘ held) m' n' := by
  obtain ⟨p, m', n', hp, hvalue, hwork, -⟩ :=
    h.hands ((h.serves.nestedTo i).agree_numeral k) hspends fun _ => rfl
  exact ⟨p, m', n', hp, hvalue, hwork⟩

/-- The costs of an evaluator at work are those of the values that its handles show. -/
theorem costs {v : View W H} {l : List (H × Tree)} (h : R.AtWork hb resets e d l m n)
    (hv : R.SeenAs v) : e.Costs v (l.map Prod.fst) m := by
  have hvalue {p : H × Tree} (hp : p ∈ l) {u : Value} (hs : v.Shows m.store p.1 u) :
      Grove.value resets p.2 = u :=
    (hv.value_eq_of_holds h.holds hp hs).symm
  constructor
  case fold_held =>
    intro a k ha hs hk
    obtain ⟨p, hp, rfl⟩ := List.mem_map.1 ha
    obtain ⟨depth, hdepth⟩ := eventually_atTop.1
      (Grove.eventually_spends_fold (b := b) 0 h.ready (.church k) hk)
    refine ⟨depth, fun i hi => ?_⟩
    exact h.shows ((h.serves.nestedTo i).agree_fold hp) (hdepth i hi _ (hvalue hp hs))
      (count_foldCost k)
  case pow_held =>
    intro a c j k ha hc hs hs' hmax
    obtain ⟨p, hp, rfl⟩ := List.mem_map.1 ha
    obtain ⟨q, hq, rfl⟩ := List.mem_map.1 hc
    obtain ⟨depth, hdepth⟩ := eventually_atTop.1
      (Grove.eventually_spends_pow (b := b) 0 h.ready (.church k) (.church j) hmax)
    refine ⟨depth, fun i hi => ?_⟩
    exact h.shows ((h.serves.nestedTo i).agree_pow hp hq)
      (hdepth i hi _ _ (hvalue hp hs) (hvalue hq hs')) (count_powCost j k)
  case fold_numeral =>
    intro k hk
    obtain ⟨depth, hdepth⟩ := eventually_atTop.1
      ((Grove.eventually_spends_numeral (b := b) 0 h.ready k).and
        (Grove.eventually_spends_fold (b := b) 0 h.ready (.church k) hk))
    refine ⟨depth, fun i hi => ?_⟩
    obtain ⟨hnumeral, hfold⟩ := hdepth i hi
    obtain ⟨p, m₁, n₁, hp, hpk, h₁⟩ := h.numeral hnumeral
    obtain ⟨m₂, hrun, hallocates⟩ := h₁.shows
      ((h₁.serves.nestedTo i).agree_fold (Multiset.mem_cons_self ..)) (hfold _ hpk)
      (count_foldCost k)
    exact ⟨p.1, m₁, m₂, hp, hrun, hallocates⟩
  case pow_numerals =>
    intro j k hmax
    obtain ⟨depth, hdepth⟩ := eventually_atTop.1
      ((Grove.eventually_spends_numeral (b := b) 0 h.ready j).and
        ((Grove.eventually_spends_numeral (b := b) 0 h.ready k).and
          (Grove.eventually_spends_pow (b := b) 0 h.ready (.church k) (.church j) hmax)))
    refine ⟨depth, fun i hi => ?_⟩
    obtain ⟨hbase, hexponent, hpow⟩ := hdepth i hi
    obtain ⟨p, m₁, n₁, hp, hpj, h₁⟩ := h.numeral hbase
    obtain ⟨q, m₂, n₂, hq, hqk, h₂⟩ := h₁.numeral hexponent
    obtain ⟨m₃, hrun, hallocates⟩ := h₂.shows
      ((h₂.serves.nestedTo i).agree_pow (a := p) (b := q) (by simp) (by simp)) (hpow _ _ hpj hqk)
      (count_powCost j k)
    exact ⟨p.1, m₁, q.1, m₂, m₃, hp, hq, hrun, hallocates⟩
  case fold_term =>
    intro t k hk hmax
    obtain ⟨u, κ, ⟨α, β, hcounts, hα, hβ⟩, hκ, hbuilds⟩ :=
      Grove.builds_of_number? (b := b) 0 h.ready hk
    obtain ⟨depth, hdepth⟩ := eventually_atTop.1
      (hbuilds.and (Grove.eventually_spends_fold (b := b) 0 h.ready hcounts hmax))
    refine ⟨depth, fun i hi => ?_⟩
    obtain ⟨hbuild, hfold⟩ := hdepth i hi
    obtain ⟨p, m₁, n₁, hp, hpu, h₁, hfree⟩ :=
      h.hands ((h.serves.nestedTo i).agree_build t) hbuild fun _ => rfl
    obtain ⟨m₂, hrun, hallocates⟩ := h₁.shows
      ((h₁.serves.nestedTo i).agree_fold (Multiset.mem_cons_self ..)) (hfold _ hpu) fun _ => rfl
    refine ⟨p.1, m₁, m₂, hp, hrun, ?_, ?_⟩
    · rw [hfree]
      simp [Multiset.count_eq_zero_of_notMem hκ]
    · rw [hallocates]
      simp [Multiset.count_eq_zero_of_notMem hα, Multiset.count_eq_zero_of_notMem hβ]

end Representation.AtWork

/-- The costs of counting are the same on all stores after every run: on arenas as long as their
blocks have room for every closure, also if they are reset less often than there are epochs. They
are the same wherever evaluators go on alone, whatever sessions have done before. And a new pool has
taken `2 * k + 7` slots when the numeral `k` has been built and folded. -/
theorem counting_costs (filter : Log.Filter) (limits : Limits) (commands : List Command) :
    (Closure.maxFootprint ≤ limits.blockCapacity →
        (∀ command ∈ commands, command.isOperation = true ∨ command.isReset = true) →
        commands.countP (·.isReset) < UInt32.size →
        ((opened Arenas filter limits).after commands).HasHeld
          (Evaluator.Costs (Arenas.view 0 limits.blockCapacity))) ∧
      ((∀ command ∈ commands, command.isOperation = true) →
        ((opened SharedHeap filter limits).after commands).HasHeld
            (Evaluator.Costs (SharedHeap.view 0)) ∧
          ((opened Pools filter limits).after commands).HasHeld
            (Evaluator.Costs (Pools.view 0)) ∧
          Resumed filter commands fun v s => s.HasHeld (Evaluator.Costs v)) ∧
      ∀ (m : Machine Pools) (k : Nat), 2 ≤ k → k ≤ Int64.maxValue.toInt → k < limits.nesting →
        ∃ e m₁ n m₂ m₃, Pools.openPool limits m = .ok e m₁ ∧ e.numeral k m₁ = .ok n m₂ ∧
          e.fold n m₂ = .ok (.ofInt k) m₃ ∧
          (Backend.stats e.site m₃.store).slots = 2 * k + 7 := by
  have hstores := stores_have_held Evaluator.Costs (fun h => h.costs .rfl) filter limits commands
  refine ⟨hstores.1, fun hc => ?_, fun m k => Pools.exists_slots_after_fold limits m⟩
  obtain ⟨hheap, hpool⟩ := hstores.2 hc
  exact ⟨hheap, hpool, resumed_hasHeld Evaluator.Costs (fun hv h => h.costs hv) hc⟩

/-- Two to the third, on an arena in which a numeral has become stale, what the other stores take
after a run that fails, the costs of an evaluator whose pool holds a closure that captured itself,
and the slots of a new pool for the numeral two. -/
theorem counting_costs_small :
    (∃ e, ((opened Arenas .off { blockCapacity := 24 }).after
          [.numeral 2 "n", .reset, .numeral 3 "x"]).seats[0]? = some ⟨e, true⟩ ∧
        ∃ depth, ∀ i, depth ≤ i → ∃ a m₁ n m₂ m₃,
          (e.nestedTo i).numeral 2 ((opened Arenas .off { blockCapacity := 24 }).after
            [.numeral 2 "n", .reset, .numeral 3 "x"]).machine = .ok a m₁ ∧
          (e.nestedTo i).numeral 3 m₁ = .ok n m₂ ∧ (e.nestedTo i).pow a n m₂ = .ok 8 m₃ ∧
          e.allocations m₃ .succInner = e.allocations m₂ .succInner + 13 ∧
          e.allocations m₃ .intLiteral = e.allocations m₂ .intLiteral + 9 ∧
          e.allocations m₃ .succPartial = e.allocations m₂ .succPartial) ∧
      ((opened SharedHeap .off {}).after [.int 5 "i", .apply "i" "i" "x"]).HasHeld
        (Evaluator.Costs (SharedHeap.view 0)) ∧
      ((opened Pools .off {}).after [.int 5 "i", .apply "i" "i" "x"]).HasHeld
        (Evaluator.Costs (Pools.view 0)) ∧
      (let turns : List (Nat × Command) := [(0, .new {}), (0, .new {}), (0, .int 5 "a"),
          (1, .int 1 "b"), (1, .drop "b"), (1, .successor "a" "p")]
        let s : Session Pools PoolRef := (start .off).afterTurns turns
        ∃ e, s.seats[1]? = some ⟨e, true⟩ ∧
          ((resume e s.machine).after [.int 5 "i", .apply "i" "i" "x"]).HasHeld
            (Evaluator.Costs (Pools.view e.site))) ∧
      ∃ e m₁ n m₂ m₃, Pools.openPool {} ⟨Host.initial, {}⟩ = .ok e m₁ ∧ e.numeral 2 m₁ = .ok n m₂ ∧
        e.fold n m₂ = .ok 2 m₃ ∧ (Backend.stats e.site m₃.store).slots = 11 := by
  have hpools := counting_costs .off {} [.int 5 "i", .apply "i" "i" "x"]
  obtain ⟨hheap, hpool, hresumed⟩ := hpools.2.1 (by decide)
  refine ⟨?_, hheap, hpool, ?_, hpools.2.2 _ 2 (by decide) (by decide) (by decide)⟩
  swap
  · intro turns s
    have hopen : s.seats[1]?.map (·.isOpen) = some true := by decide +kernel
    clear_value turns
    obtain ⟨⟨e, o⟩, he, rfl⟩ := Option.map_eq_some_iff.1 hopen
    exact ⟨e, he, (hresumed turns 1).2.2 e he⟩
  have hopen : (((opened Arenas .off { blockCapacity := 24 }).after
      [.numeral 2 "n", .reset, .numeral 3 "x"]).seats[0]?).map (·.isOpen) = some true := by
    decide +kernel
  obtain ⟨⟨e, o⟩, he, rfl⟩ := Option.map_eq_some_iff.1 hopen
  have harena := (counting_costs .off { blockCapacity := 24 }
    [.numeral 2 "n", .reset, .numeral 3 "x"]).1 (by decide) (by decide) (by decide) e he
  obtain ⟨depth, hdepth⟩ := harena.pow_numerals (l := 2) (k := 3) (by decide)
  refine ⟨e, he, depth, fun i hi => ?_⟩
  obtain ⟨a, m₁, n, m₂, m₃, ha, hn, hpow, hallocates⟩ := hdepth i hi
  exact ⟨a, m₁, n, m₂, m₃, ha, hn, hpow, hallocates .succInner, hallocates .intLiteral,
    hallocates .succPartial⟩

end ChurchStore
