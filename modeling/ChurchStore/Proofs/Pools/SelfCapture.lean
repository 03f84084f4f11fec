import ChurchStore.Proofs.Cells.Standing
import ChurchStore.Proofs.Coupling
import ChurchStore.Proofs.Pools
import ChurchStore.Proofs.Session.Turns

/-!
# Closures that capture themselves

A pool that is given a handle of another pool takes it by its position alone. If that position is
the slot that the new closure goes to, the closure captures itself. An application of such a closure
to itself builds one that, whatever it is applied to, first builds the same again and then applies
it: this never ends, however deep applications may be nested.
-/

namespace ChurchStore

/-- No slot is free, and the closure in this one captures itself. -/
structure Pool.SelfCaptured (p : Pool) (slot : Nat) : Prop where
  free_eq : p.free = []
  closure?_eq : p.cells.closure? slot = some (.succPartial slot)
  owners_pos : 0 < p.cells.owners slot

namespace Pool.SelfCaptured

variable {p : Pool} {slot : Nat}

theorem acquire (h : p.SelfCaptured slot) (i : Nat) : (p.acquire i).SelfCaptured slot where
  free_eq := h.free_eq
  closure?_eq := by rw [Pool.acquire, Cells.closure?_acquire, h.closure?_eq]
  owners_pos := by
    rw [Pool.acquire]
    by_cases hi : i < p.cells.size
    · rw [Cells.owners_acquire hi]
      exact Nat.lt_of_lt_of_le h.owners_pos (Nat.le_add_right ..)
    · rw [Cells.acquire_of_size_le (Nat.le_of_not_lt hi)]
      exact h.owners_pos

theorem foldl_acquire (h : p.SelfCaptured slot) (l : List Nat) :
    (l.foldl Pool.acquire p).SelfCaptured slot := by
  induction l generalizing p with
  | nil => exact h
  | cons i l ih => exact ih (h.acquire i)

theorem insert (h : p.SelfCaptured slot) (c : Closure Nat) : (p.insert c).SelfCaptured slot := by
  have hslot : slot ≠ p.cells.size := by
    rintro rfl
    have hnone := Cells.closure?_of_size_le (Nat.le_refl p.cells.size)
    rw [h.closure?_eq] at hnone
    cases hnone
  simp only [Pool.insert, h.free_eq]
  refine ⟨rfl, ?_, ?_⟩
  · rw [Cells.closure?_push, if_neg hslot, h.closure?_eq]
  · rw [Cells.owners_push, if_neg hslot]
    exact h.owners_pos

theorem closure?_insert (h : p.SelfCaptured slot) (c : Closure Nat) (i : Nat) :
    (p.insert c).cells.closure? i = if i = p.cells.size then some c else p.cells.closure? i := by
  simp only [Pool.insert, h.free_eq, Cells.closure?_push]

end Pool.SelfCaptured

namespace Pools

/-- A pool that exists holds a closure that captures itself. -/
structure SelfCaptured (w : Pools) (site : Site) (slot : Nat) : Prop where
  lt_size : site < w.toArray.size
  pool : (w.pool site).SelfCaptured slot

namespace SelfCaptured

variable {w : Pools} {m : Machine Pools} {site : Site} {slot i : Nat} {c : Closure Nat}
  {e : Evaluator PoolRef}

theorem modify (h : w.SelfCaptured site slot) {f : Pool → Pool}
    (hf : (f (w.pool site)).SelfCaptured slot) : (w.modify site f).SelfCaptured site slot where
  lt_size := by
    rw [size_modify]
    exact h.lt_size
  pool := by rwa [pool_modify h.lt_size]

theorem retain (h : w.SelfCaptured site slot) (i : Nat) :
    (Pools.retain ⟨site, i⟩ w).SelfCaptured site slot :=
  h.modify (h.pool.acquire i)

theorem resolve (h : m.store.SelfCaptured site slot)
    (hc : (m.store.pool site).cells.closure? i = some c) :
    ∃ m', Pools.resolve site ⟨site, i⟩ m = .ok (c.map (⟨site, ·⟩)) m' ∧
      m'.store.SelfCaptured site slot :=
  ⟨_, resolve_of_closure? rfl hc, h.modify (h.pool.foldl_acquire _)⟩

theorem adoptCaptures (h : m.store.SelfCaptured site slot) :
    Pools.adoptCaptures site (.succInner ⟨site, slot⟩ ⟨site, slot⟩) m =
      .ok (.succInner slot slot) m := by
  refine adoptCaptures_of_adopt fun k hk => ?_
  obtain rfl : k = ⟨site, slot⟩ := by simpa [Closure.captures] using hk
  exact adopt_of_closure? rfl h.pool.closure?_eq h.pool.owners_pos

/-- A closure that captures the slot twice goes to the end. -/
theorem alloc (h : m.store.SelfCaptured site slot) :
    ∃ i m', Pools.alloc site (.succInner ⟨site, slot⟩ ⟨site, slot⟩) m = .ok ⟨site, i⟩ m' ∧
      m'.store.SelfCaptured site slot ∧
      (m'.store.pool site).cells.closure? i = some (.succInner slot slot) := by
  have hfree : (m.store.pool site).free.isEmpty = true := by rw [h.pool.free_eq, List.isEmpty_nil]
  have hnext : (m.store.pool site).nextSlot = (m.store.pool site).cells.size := by
    rw [Pool.nextSlot, h.pool.free_eq, List.headD_nil]
  refine ⟨(m.store.pool site).cells.size,
    ⟨m.store.modify site (·.insert (.succInner slot slot)), m.journal⟩, ?_,
    h.modify (h.pool.insert _), ?_⟩
  · simp only [Pools.alloc, Bind.bind, EStateM.bind, h.adoptCaptures, Act.read, Act.update, hfree,
      hnext]
    rfl
  · rw [pool_modify h.lt_size, h.pool.closure?_insert, if_pos rfl]

/-- The closure in the slot, applied to itself. -/
theorem applyWithin_self (h : m.store.SelfCaptured e.site slot) (depth : Nat) :
    ∃ i m', e.applyWithin (depth + 1) ⟨e.site, slot⟩ ⟨e.site, slot⟩ m = .ok ⟨e.site, i⟩ m' ∧
      m'.store.SelfCaptured e.site slot ∧
      (m'.store.pool e.site).cells.closure? i = some (.succInner slot slot) := by
  obtain ⟨m₁, hresolve, h₁⟩ := h.resolve h.pool.closure?_eq
  have h₂ : (Machine.mk (Pools.retain ⟨e.site, slot⟩ m₁.store) m₁.journal).store.SelfCaptured
      e.site slot := h₁.retain slot
  obtain ⟨i, m', halloc, h', hclosure⟩ := h₂.alloc
  refine ⟨i, m', ?_, h', hclosure⟩
  rw [Evaluator.applyWithin]
  simp only [Bind.bind, EStateM.bind, Backend.resolve, hresolve, Closure.map, Backend.clone,
    Act.update]
  exact halloc

/-- The closure that this builds, applied to anything: induction on the depth, along which each
application comes back to one of the same closure in a larger pool. -/
theorem applyWithin (depth : Nat) (x : PoolRef) (h : m.store.SelfCaptured e.site slot)
    (hi : (m.store.pool e.site).cells.closure? i = some (.succInner slot slot)) :
    ∃ m', e.applyWithin depth ⟨e.site, i⟩ x m = .error .nestingLimit m' := by
  induction depth generalizing m i with
  | zero => exact ⟨m, rfl⟩
  | succ depth ih =>
    obtain ⟨m₁, hresolve, h₁⟩ := h.resolve hi
    rw [Evaluator.applyWithin]
    simp only [Bind.bind, EStateM.bind, Backend.resolve, hresolve, Closure.map, Backend.holding,
      Act.ensuring]
    cases depth with
    | zero => exact ⟨_, rfl⟩
    | succ depth =>
      obtain ⟨k, m₂, hself, h₂, hk⟩ := h₁.applyWithin_self depth
      obtain ⟨m₃, hagain⟩ := ih h₂ hk
      simp only [hself, hagain]
      exact ⟨_, rfl⟩

end SelfCaptured

end Pools

open Session

/-- An application that never ends, although its handles are of one pool: the pool was given a
handle of another one when the slot at that position was free, so the closure captured itself, and
then it was applied to itself. And an application that stops without a violation, where there is no
slot at that position. -/
theorem self_captures_never_end :
    (let s := (start .off : Session Pools PoolRef).afterTurns [(0, .new {}), (0, .new {}),
        (0, .int 5 "a"), (1, .int 1 "b"), (1, .drop "b"), (1, .successor "a" "p"),
        (1, .apply "p" "p" "q")]
      ∃ e, s.seats[1]? = some ⟨e, true⟩ ∧ s.bindings["q"]? = some ⟨e.site, 5⟩ ∧
        ∀ depth x, ending (e.applyWithin depth ⟨e.site, 5⟩ x s.machine) = .error .nestingLimit) ∧
      (let s := (start .off : Session Pools PoolRef).afterTurns [(0, .new {}), (0, .new {}),
        (0, .int 5 "five"), (1, .builtin .succ "s")]
      ∃ e f x, s.seats[1]? = some ⟨e, true⟩ ∧ s.bindings["s"]? = some f ∧
        s.bindings["five"]? = some x ∧
        ending (e.apply f x s.machine) = .error (.indexOutOfBounds 4 4)) := by
  constructor
  · intro s
    have hseat : s.seats[1]?.map (fun seat => (seat.isOpen, seat.evaluator.site)) =
        some (true, 1) := by
      decide +kernel
    obtain ⟨⟨e, o⟩, he, hsite⟩ := Option.map_eq_some_iff.1 hseat
    obtain ⟨rfl, hsite⟩ := Prod.mk.inj hsite
    have hpool : s.machine.store.SelfCaptured e.site 4 := by
      rw [hsite]
      exact ⟨by decide +kernel, by decide +kernel, by decide +kernel, by decide +kernel⟩
    have hq : (s.machine.store.pool e.site).cells.closure? 5 = some (.succInner 4 4) := by
      rw [hsite]
      decide +kernel
    refine ⟨e, he, ?_, fun depth x => ?_⟩
    · rw [hsite]
      decide +kernel
    · obtain ⟨m, hend⟩ := hpool.applyWithin depth x hq
      rw [hend, ending]
  · intro s
    have hseat : s.seats[1]?.map (fun seat => (seat.isOpen,
        ending (seat.evaluator.apply ⟨1, 2⟩ ⟨0, 4⟩ s.machine))) =
        some (true, .error (.indexOutOfBounds 4 4)) := by
      decide +kernel
    obtain ⟨⟨e, o⟩, he, hend⟩ := Option.map_eq_some_iff.1 hseat
    obtain ⟨rfl, hend⟩ := Prod.mk.inj hend
    exact ⟨e, ⟨1, 2⟩, ⟨0, 4⟩, he, by decide +kernel, by decide +kernel, hend⟩

end ChurchStore
