import ChurchStore.Proofs.Arenas.Mask
import ChurchStore.Proofs.BuiltinHandles.Counted
import ChurchStore.Proofs.Pools.Mask
import ChurchStore.Proofs.Reachable
import ChurchStore.Proofs.SharedHeap.Mask

/-!
# Evaluators that go on after a session

Sessions of several evaluators may mistake each other's handles, close evaluators whose handles are
still held, and reset arenas as often as they like, so that what a handle stands for is anyone's
guess. But the builtin functions of an evaluator are always there. From any state that a session has
reached each evaluator can go on alone with them, and everything it makes from then on is what it
should be: to the evaluator its store represents a grove in which only the builtin functions have
been made.
-/

namespace ChurchStore

open Session

variable {W H : Type} [Host W H]

/-- A session in which an evaluator goes on alone with a machine. No variable is set. -/
def Session.resume (e : Evaluator H) (m : Machine W) : Session W H := ⟨m, #[⟨e, true⟩], {}⟩

/-- What holds wherever evaluators go on alone with these commands, whatever has been done before in
the session that they are from: in arenas with room for every closure, on the shared heap, and in
pools. -/
def Session.Resumed (filter : Log.Filter) (commands : List Command)
    (P : ∀ {W H : Type} [Host W H], View W H → Session W H → Prop) : Prop :=
  ∀ (turns : List (Nat × Command)) (number : Nat),
    (let s : Session Arenas ArenaRef := (start filter).afterTurns turns
      ∀ e, s.seats[number]? = some ⟨e, true⟩ →
        Closure.maxFootprint ≤ (s.machine.store.arena e.site).capacity →
        P (Arenas.view e.site (s.machine.store.arena e.site).capacity)
          ((resume e s.machine).after commands)) ∧
    (let s : Session SharedHeap NodeRef := (start filter).afterTurns turns
      ∀ e, s.seats[number]? = some ⟨e, true⟩ →
        P (SharedHeap.view e.site) ((resume e s.machine).after commands)) ∧
    (let s : Session Pools PoolRef := (start filter).afterTurns turns
      ∀ e, s.seats[number]? = some ⟨e, true⟩ →
        P (Pools.view e.site) ((resume e s.machine).after commands))

/-- The evaluator of a grove in which nothing but the builtin functions can be reached. -/
def Grove.resumed (nesting : Nat) : Evaluator Tree := ⟨0, Grove.builtins 0, nesting⟩

namespace Representation

variable {R : Representation W} {b : Nat} {v : View W H} {e : Evaluator H} {m : Machine W}

/-- An evaluator that goes on alone has a partner on a grove. -/
theorem Begins.exists_paired (hR : R.Begins v e m.store) (hb : Backend.handleBytes W = b) :
    ∃ (resets : List Nat) (t : Session (Grove b) Tree),
      Grove.Ready resets (Grove.resumed e.nesting) ∧
        (R.simulation hb resets).Paired e (Grove.resumed e.nesting) {} 0 (resume e m) t := by
  obtain ⟨g, hg⟩ := hR.represents (b := b) (d := Grove.resumed e.nesting) rfl
  refine ⟨.replicate (R.now m.store).toNat 0, resume (Grove.resumed e.nesting) ⟨g, {}⟩,
    ⟨0, rfl, fun r hr => Nat.le_of_eq (List.mem_replicate.1 hr).2⟩, ?_⟩
  constructor
  case seats_left => rfl
  case seats_right => rfl
  case bindings_left => simp [resume]
  case bindings_right => simp [resume]
  case serves =>
    exact ⟨hR.site_eq, rfl, rfl, Simulation.mem_builtinPairs e (Grove.resumed e.nesting)⟩
  case holds =>
    rw [Multiset.zero_add, Simulation.Pairing.standing_start]
    exact hg

/-- A property of evaluators at work holds after every run of an evaluator that goes on alone. -/
theorem Begins.hasHeld_after {P : Evaluator H → List H → Machine W → Prop}
    (hb : Backend.handleBytes W = b)
    (hP : ∀ {resets d m n} {l : List (H × Tree)}, R.AtWork hb resets e d l m n →
      P e (l.map Prod.fst) m)
    (hR : R.Begins v e m.store) (hpos : 0 < Backend.handleBytes W)
    {commands : List Command} (hc : ∀ command ∈ commands, command.isOperation = true) :
    ((resume e m).after commands).HasHeld P := by
  obtain ⟨resets, t, hd, hpaired⟩ := hR.exists_paired hb
  obtain ⟨⟨c, hafter⟩, -⟩ := hpaired.after commands hc
  intro e' he
  obtain ⟨rfl, l, hl, hholds, hserves⟩ := hafter.exists_serves he
  rw [hl]
  exact hP ⟨hpos, hR.capacity_eq, ⟨_, hR.allocated_eq⟩, hd, hserves, hholds⟩

end Representation

/-- Whatever has been done in sessions, the evaluators can begin again with what is seen of their
stores. -/
theorem resumed_of_begins {filter : Log.Filter} {commands : List Command}
    {P : ∀ {W H : Type} [Host W H], View W H → Session W H → Prop}
    (hP : ∀ {W H : Type} [Host W H] {R : Representation W} {v : View W H} {e : Evaluator H}
      {m : Machine W}, 0 < Backend.handleBytes W → R.Begins v e m.store →
        P v ((resume e m).after commands)) :
    Session.Resumed filter commands P := by
  refine fun turns number => ⟨fun e he hcap => ?_, fun e he => ?_, fun e he => ?_⟩
  · have hhoused := (housed_start filter).afterTurns turns
    obtain ⟨R, hR⟩ := (hhoused.houses (mem_evaluators he)).exists_begins hcap
    exact hP (by decide) hR
  · obtain ⟨⟨-, hsize⟩, ⟨hlt, hhome⟩, hstands⟩ := SharedHeap.lawful_care.afterTurns filter he
    obtain ⟨R, hR⟩ := SharedHeap.exists_begins hlt hsize
      (fun b => by rw [SharedHeap.home, hhome b]; rfl) hstands
    exact hP (by decide) hR
  · obtain ⟨htidy, ⟨hlt, hpool⟩, hstands⟩ := Pools.lawful_care.afterTurns filter he
    obtain ⟨R, hR⟩ := Pools.exists_begins hlt (htidy e.site) hpool fun b => hpool b ▸ hstands b
    exact hP (by decide) hR

/-- A property of evaluators at work, of what they hold and of how it can be seen holds wherever
evaluators go on alone. -/
theorem resumed_hasHeld {filter : Log.Filter} {commands : List Command}
    (P : ∀ {W H : Type} [Host W H], View W H → Evaluator H → List H → Machine W → Prop)
    (hP : ∀ {W H : Type} [Host W H] {b : Nat} {R : Representation W} {v : View W H}
      {hb : Backend.handleBytes W = b} {resets e d m n} {l : List (H × Tree)},
      R.SeenAs v → R.AtWork hb resets e d l m n → P v e (l.map Prod.fst) m)
    (hc : ∀ command ∈ commands, command.isOperation = true) :
    Session.Resumed filter commands fun v s => s.HasHeld (P v) :=
  resumed_of_begins fun hpos hR => hR.hasHeld_after rfl (fun h => hP hR.seen h) hpos hc

end ChurchStore
