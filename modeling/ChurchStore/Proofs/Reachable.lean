import ChurchStore.Proofs.Arenas.Sessions
import ChurchStore.Proofs.Ledger

/-!
# Evaluators at work

Wherever a run of operations has brought the evaluator of a session, its store represents a grove
on which another evaluator holds the same builtin functions. So a property of an evaluator and its
machine that follows from this has been shown for all stores at once, after every run: arenas with
room for every closure may also be reset less often than there are epochs.
-/

namespace ChurchStore

open Session

variable {W H : Type}

/-- The property holds of the evaluator of a session and its machine, unless the evaluator could not
be opened or was ended. -/
def Session.Has (P : Evaluator H → Machine W → Prop) (s : Session W H) : Prop :=
  ∀ e, s.seats[0]? = some ⟨e, true⟩ → P e s.machine

/-- The same of a property that also speaks of the handles that are held. -/
def Session.HasHeld (P : Evaluator H → List H → Machine W → Prop) (s : Session W H) : Prop :=
  ∀ e, s.seats[0]? = some ⟨e, true⟩ → P e s.handles s.machine

theorem Session.hasHeld_of_unopened {P : Evaluator H → List H → Machine W → Prop}
    {s : Session W H} (h : s.seats = #[]) : s.HasHeld P := by
  intro e he
  rw [h] at he
  cases he

variable [Host W H]

/-- An evaluator `e` with a machine `m`, whose store represents that of `n` and has room for every
closure; `d` is the evaluator of the grove, and the pairs of `held` are held. The counters of the
evaluator tell what is allocated, up to what had been counted otherwise before. -/
structure Representation.AtWork {b : Nat} (R : Representation W) (hb : Backend.handleBytes W = b)
    (resets : List Nat) (e : Evaluator H) (d : Evaluator Tree) (held : Multiset (H × Tree))
    (m : Machine W) (n : Machine (Grove b)) : Prop where
  handleBytes_pos : 0 < Backend.handleBytes W
  fits (c : Closure H) : R.capacity.filter (· < c.footprint) = none
  exists_allocated_eq : ∃ more : Kind → Nat, ∀ w k,
    R.allocated w k = ((Backend.stats R.site w).kind k).alloc + more k
  ready : Grove.Ready resets d
  serves : (R.simulation hb resets).Serves e d held
  holds : (R.simulation hb resets).Holds held m n

namespace Representation

variable {b : Nat} {R : Representation W} {hb : Backend.handleBytes W = b}

/-- On a store that is never reset. -/
theorem hasHeld_after {P : Evaluator H → List H → Machine W → Prop}
    (hP : ∀ {e d m n} {l : List (H × Tree)}, R.AtWork hb [] e d l m n → P e (l.map Prod.fst) m)
    {limits : Limits} {w : W} {g : Grove b} (hopens : (R.simulation hb []).Opens limits w g)
    (hmade : g.made = []) (hcap : g.capacity.filter (· < Closure.headerWord) = none)
    (hpos : 0 < Backend.handleBytes W)
    (hfits : ∀ c : Closure H, R.capacity.filter (· < c.footprint) = none)
    (halloc : ∀ w k, ((Backend.stats R.site w).kind k).alloc = R.allocated w k)
    (filter : Log.Filter) {commands : List Command}
    (hc : ∀ command ∈ commands, command.isOperation = true) :
    ((openedOn w filter limits).after commands).HasHeld P := by
  obtain ⟨e, c, hafter⟩ := hopens.paired_after filter (Grove.openGrove_of_fits limits hcap hmade) hc
  intro e' he
  obtain ⟨rfl, l, hl, hholds, hserves⟩ := hafter.exists_serves he
  rw [hl]
  exact hP ⟨hpos, hfits, ⟨fun _ => 0, fun w k => (halloc w k).symm⟩, Grove.ready_evaluator limits,
    hserves, hholds⟩

end Representation

namespace Arenas

theorem hasHeld_after {P : Evaluator ArenaRef → List ArenaRef → Machine Arenas → Prop}
    {limits : Limits}
    (hP : ∀ {resets e d m n} {l : List (ArenaRef × Tree)},
      (representation 0 limits.blockCapacity).AtWork rfl resets e d l m n →
        P e (l.map Prod.fst) m)
    (hcap : Closure.maxFootprint ≤ limits.blockCapacity) (filter : Log.Filter)
    {commands : List Command}
    (hc : ∀ command ∈ commands, command.isOperation = true ∨ command.isReset = true)
    (hlt : commands.countP (·.isReset) < UInt32.size) :
    ((opened Arenas filter limits).after commands).HasHeld P := by
  obtain hnone | ⟨resets, e, d, c, t, hd, hpaired⟩ := unopened_or_paired filter limits hc hlt
  · exact hasHeld_of_unopened hnone
  · intro e' he
    obtain ⟨rfl, l, hl, hholds, hserves⟩ := hpaired.exists_serves he
    have halloc (w : Arenas) (k : Kind) :
        ((Backend.stats 0 w).kind k).alloc = (w.arena 0).ledger.alloc.get k :=
      congrArg AllocFree.alloc ((w.arena 0).ledger.kind_snapshot k)
    rw [hl]
    exact hP ⟨by decide, Closure.filter_footprint_eq_none hcap,
      ⟨fun _ => 0, fun w k => (halloc w k).symm⟩, hd, hserves, hholds⟩

end Arenas

/-- A property of evaluators at work, of what they hold and of how it can be seen holds of the
evaluators of all stores after every run. -/
theorem stores_have_held
    (P : ∀ {W H : Type} [Host W H], View W H → Evaluator H → List H → Machine W → Prop)
    (hP : ∀ {W H : Type} [Host W H] {b : Nat} {R : Representation W}
      {hb : Backend.handleBytes W = b} {resets e d m n} {l : List (H × Tree)},
      R.AtWork hb resets e d l m n → P R.toView e (l.map Prod.fst) m)
    (filter : Log.Filter) (limits : Limits) (commands : List Command) :
    (Closure.maxFootprint ≤ limits.blockCapacity →
        (∀ command ∈ commands, command.isOperation = true ∨ command.isReset = true) →
        commands.countP (·.isReset) < UInt32.size →
        ((opened Arenas filter limits).after commands).HasHeld
          (P (Arenas.view 0 limits.blockCapacity))) ∧
      ((∀ command ∈ commands, command.isOperation = true) →
        ((opened SharedHeap filter limits).after commands).HasHeld (P (SharedHeap.view 0)) ∧
          ((opened Pools filter limits).after commands).HasHeld (P (Pools.view 0))) := by
  refine ⟨fun hcap hc hlt => Arenas.hasHeld_after (fun h => hP h) hcap filter hc hlt,
    fun hc => ⟨?_, ?_⟩⟩
  · refine Representation.hasHeld_after (R := SharedHeap.representation 0) (fun h => hP h)
      (SharedHeap.opens limits) rfl rfl (by decide) (fun _ => rfl) (fun w k => ?_) filter hc
    exact congrArg AllocFree.alloc ((w.ledger 0).kind_snapshot k)
  · refine Representation.hasHeld_after (R := Pools.representation 0) (fun h => hP h)
      (Pools.opens limits) rfl rfl (by decide) (fun _ => rfl) (fun w k => ?_) filter hc
    exact congrArg AllocFree.alloc ((w.pool 0).ledger.kind_snapshot k)

/-- A property of evaluators at work holds of the evaluators of all stores after every run. -/
theorem stores_have (P : ∀ {W H : Type} [Host W H], Evaluator H → Machine W → Prop)
    (hP : ∀ {W H : Type} [Host W H] {b : Nat} {R : Representation W}
      {hb : Backend.handleBytes W = b} {resets e d held m n},
      R.AtWork hb resets e d held m n → P e m)
    (filter : Log.Filter) (limits : Limits) (commands : List Command) :
    (Closure.maxFootprint ≤ limits.blockCapacity →
        (∀ command ∈ commands, command.isOperation = true ∨ command.isReset = true) →
        commands.countP (·.isReset) < UInt32.size →
        ((opened Arenas filter limits).after commands).Has P) ∧
      ((∀ command ∈ commands, command.isOperation = true) →
        ((opened SharedHeap filter limits).after commands).Has P ∧
          ((opened Pools filter limits).after commands).Has P) :=
  stores_have_held (fun _ e _ m => P e m) (fun h => hP h) filter limits commands

end ChurchStore
