import ChurchStore.Proofs.Agreement
import ChurchStore.Proofs.Arenas.Opening
import ChurchStore.Proofs.Simulation.Strengthening

/-!
# Sessions with an arena

An arena that is reset by its evaluator starts its next epoch, and a grove beside it does the same.
What was issued before is stale on both sides then, so the two stay related along runs of operations
and resets. That holds only for fewer resets than there are epochs: then the epochs begin anew, and
a handle from before is taken for one to a new closure.
-/

namespace ChurchStore

open Session

namespace Arenas

variable {capacity : Nat} {resets : List Nat} {e : Evaluator ArenaRef} {d : Evaluator Tree}
  {c : Simulation.Pairing ArenaRef Tree} {s : Session Arenas ArenaRef}
  {t : Session (Grove 16) Tree}

/-- The first arena and a grove, after the given resets. -/
def simulation (capacity : Nat) (resets : List Nat) : Simulation Arenas (Grove 16) :=
  (representation 0 capacity).simulation rfl resets

/-- Handles may be forgotten by an arena. -/
theorem represents_of_subset {w : Arenas} {g : Grove 16} {held held' : Multiset (ArenaRef × Tree)}
    (h : (representation 0 capacity).Represents resets w g held) (hsub : held' ⊆ held) :
    (representation 0 capacity).Represents resets w g held' := by
  obtain ⟨hresets, known, tree, hm⟩ := h
  have hsound : (representation 0 capacity).Sound w (held'.map Prod.fst) :=
    hm.sound.of_subset (Multiset.map_subset_map hsub)
  obtain ⟨known', hm', -⟩ := hm.within .rfl hsound fun p hp => hm.of_mem (hsub hp)
  exact ⟨hresets, known', tree, hm'⟩

/-- Where a cleared arena is related to the next epoch of a grove, resetting their evaluators gives
new ones with builtin functions of their own. -/
theorem reset_of_cleared {S : Simulation Arenas (Grove 16)} (hleft : S.left = 0)
    (hright : S.right = 0) {m : Machine Arenas} {n : Machine (Grove 16)}
    {held : Multiset (ArenaRef × Tree)} (hsite : e.site = 0)
    (hcap : n.store.capacity.filter (· < Closure.headerWord) = none)
    (h : S.Rel (m.store.modify 0 Arena.cleared) n.store.nextEpoch held) :
    ∃ a m' n', Arenas.reset e m = .ok { e with singletons := a } m' ∧
      Grove.reset d n =
        .ok { d with singletons := Grove.builtins n.store.made.length } n' ∧
      S.Holds (Simulation.builtinPairs { e with singletons := a }
        { d with singletons := Grove.builtins n.store.made.length } + held) m' n' := by
  have hright' : Grove.reset d n = (Singletons.build Grove.alloc >>= fun singletons =>
      pure { d with singletons }) { n with store := n.store.nextEpoch } := rfl
  have hleft' : Arenas.reset e m = (Singletons.build (Arenas.alloc 0) >>= fun singletons =>
      pure { e with singletons }) ⟨m.store.modify 0 Arena.cleared, m.journal.record
        (.arenaReset (m.store.arena 0).epoch (m.store.arena 0).bytes)⟩ := by
    rw [← hsite]
    rfl
  have hgrove := Grove.build_of_fits (m := { n with store := n.store.nextEpoch }) hcap
  have hbuild := S.coupled_build held
  have hcleared : S.Holds held ⟨m.store.modify 0 Arena.cleared, m.journal.record
      (.arenaReset (m.store.arena 0).epoch (m.store.arena 0).bytes)⟩
      { n with store := n.store.nextEpoch } := h
  rw [hleft, hright] at hbuild
  rw [hleft', hright']
  simp only [Bind.bind, EStateM.bind]
  obtain ⟨a, u, m', n', hx, hy, hholds⟩ | ⟨f, m', n', -, hy, -⟩ := Coupled.cases hbuild hcleared
  · have hx : Singletons.build (Arenas.alloc 0) _ = .ok a m' := hx
    have hy : Singletons.build Grove.alloc _ = .ok u n' := hy
    rw [hgrove] at hy
    cases hy
    rw [hx, hgrove]
    exact ⟨a, m', _, rfl, rfl, hholds⟩
  · have hy : Singletons.build Grove.alloc _ = .error f n' := hy
    rw [hgrove] at hy
    cases hy

/-- What is kept by all operations of an arena that goes along with a grove, and by resets. -/
structure Persists (capacity : Nat) (J : Arenas → Grove 16 → Prop) : Prop where
  keeps (resets : List Nat) : (simulation capacity resets).Keeps J
  clear {w : Arenas} {g : Grove 16} : 0 < w.toArray.size → J w g →
    J (w.modify 0 Arena.cleared) g.nextEpoch

/-- Nothing has to be kept. -/
theorem persists_true (capacity : Nat) : Persists capacity fun _ _ => True where
  keeps _ _ _ _ _ _ _ _ := trivial
  clear _ _ := trivial

variable {J : Arenas → Grove 16 → Prop}

/-- Resetting two related evaluators gives new ones with builtin functions of their own. -/
theorem reset_apply (hJ : Persists capacity J) {m : Machine Arenas} {n : Machine (Grove 16)}
    {held : Multiset (ArenaRef × Tree)} (hfits : Closure.headerWord ≤ capacity)
    (hlt : resets.length + 1 < UInt32.size) (hsite : e.site = 0)
    (h : (simulation capacity resets).Holds held m n) (hmn : J m.store n.store) :
    ∃ a m' n', Arenas.reset e m = .ok { e with singletons := a } m' ∧
      Grove.reset d n =
        .ok { d with singletons := Grove.builtins n.store.made.length } n' ∧
      (simulation capacity (n.store.made.length :: resets)).Holds
          (Simulation.builtinPairs { e with singletons := a }
            { d with singletons := Grove.builtins n.store.made.length } + held) m' n' ∧
        J m'.store n'.store := by
  have hcap : n.store.capacity.filter (· < Closure.headerWord) = none := by
    obtain ⟨-, known, tree, hm⟩ := h
    have hle : ¬ capacity < Closure.headerWord := Nat.not_lt.2 hfits
    refine (hm.capacity_eq .zero).trans ?_
    change Option.filter (· < Closure.headerWord) (some capacity) = none
    rw [Option.filter_some, if_neg (by simpa using hle)]
  have hsize : 0 < m.store.toArray.size := by
    obtain ⟨-, known, tree, hm⟩ := h
    exact hm.sound.lt_size
  have hclear := represents_clear h hlt
  exact reset_of_cleared
    (S := (simulation capacity (n.store.made.length :: resets)).keeping (hJ.keeps _)) rfl rfl hsite
    hcap ⟨hclear, hJ.clear hsize hmn⟩

/-- A reset starts the next epoch of both, unless the evaluators have been ended. -/
theorem paired_reset (hJ : Persists capacity J) (hfits : Closure.headerWord ≤ capacity)
    (hlt : resets.length + 1 < UInt32.size) (hd : Grove.Ready resets d)
    (h : (simulation capacity resets).Paired e d c 0 s t)
    (hst : J s.machine.store t.machine.store) :
    ∃ resets' e' d' c', resets'.length ≤ resets.length + 1 ∧ Grove.Ready resets' d' ∧
      (simulation capacity resets').Paired e' d' c' 0 (s.step 0 (some .reset)).2
          (t.step 0 (some .reset)).2 ∧
        J (s.step 0 (some .reset)).2.machine.store (t.step 0 (some .reset)).2.machine.store := by
  have hs : s.seats[0]? = some ⟨e, c.isOpen⟩ := by rw [h.seats_left]; rfl
  have ht : t.seats[0]? = some ⟨d, c.isOpen⟩ := by rw [h.seats_right]; rfl
  cases hopen : c.isOpen with
  | false =>
    rw [hopen] at hs ht
    rw [step_reset_of_ended hs, step_reset_of_ended ht]
    exact ⟨resets, e, d, c, Nat.le_succ _, hd, { h with }, hst⟩
  | true =>
    rw [hopen] at hs ht
    have hvars : (simulation capacity resets).Holds (c.bindings.values : Multiset _) s.machine
        t.machine := by
      refine represents_of_subset h.holds fun p hp => ?_
      rw [Multiset.zero_add, Simulation.Pairing.standing]
      exact Multiset.mem_add.2 (.inl hp)
    have hready : ∀ r ∈ t.machine.store.made.length :: resets, r ≤ t.machine.store.made.length := by
      obtain ⟨rfl, known, tree, hm⟩ := h.holds
      intro r hr
      rcases List.mem_cons.1 hr with rfl | hr
      · exact Nat.le_refl _
      · exact hm.resets_le r hr
    obtain ⟨a, m', n', hx, hy, hholds, hmn⟩ :=
      reset_apply (d := d) hJ hfits hlt h.serves.left hvars hst
    rw [step_reset_of_open rfl hs hx, step_reset_of_open rfl ht hy]
    refine ⟨t.machine.store.made.length :: resets, { e with singletons := a },
      { d with singletons := Grove.builtins t.machine.store.made.length }, c, Nat.le_refl _,
      ⟨_, rfl, hready⟩, ⟨?_, ?_, h.bindings_left, h.bindings_right, ?_, ?_⟩, hmn⟩
    · rw [h.seats_left, hopen]
      rfl
    · rw [h.seats_right, hopen]
      rfl
    · exact ⟨h.serves.left, h.serves.right, h.serves.nesting,
        Simulation.mem_builtinPairs _ _⟩
    · rw [Multiset.zero_add, Simulation.Pairing.standing, hopen, if_pos rfl, Multiset.add_comm]
      exact hholds

/-- A command that is an operation or a reset keeps an arena related to a grove. -/
theorem paired_step (hJ : Persists capacity J) (hfits : Closure.headerWord ≤ capacity)
    (hd : Grove.Ready resets d) {command : Command}
    (hc : command.isOperation = true ∨ command.isReset = true)
    (hlt : resets.length + [command].countP (·.isReset) < UInt32.size)
    (h : (simulation capacity resets).Paired e d c 0 s t)
    (hst : J s.machine.store t.machine.store) :
    ∃ resets' e' d' c', resets'.length ≤ resets.length + [command].countP (·.isReset) ∧
      Grove.Ready resets' d' ∧
      (simulation capacity resets').Paired e' d' c' 0 (s.step 0 (some command)).2
          (t.step 0 (some command)).2 ∧
        J (s.step 0 (some command)).2.machine.store (t.step 0 (some command)).2.machine.store := by
  rcases hc with hop | hreset
  · obtain ⟨⟨c', hstep⟩, -⟩ := (h.keeping (hJ.keeps resets) hst).step hop
    exact ⟨resets, e, d, c', Nat.le_add_right _ _, hd, hstep.of_keeping⟩
  · obtain rfl : command = .reset := by
      cases command <;> first | rfl | cases hreset
    exact paired_reset hJ hfits hlt hd h hst

/-- Along a run with fewer resets than there are epochs an arena stays related to a grove. -/
theorem paired_after (hJ : Persists capacity J) (hfits : Closure.headerWord ≤ capacity)
    (hd : Grove.Ready resets d) (commands : List Command)
    (hc : ∀ command ∈ commands, command.isOperation = true ∨ command.isReset = true)
    (hlt : resets.length + commands.countP (·.isReset) < UInt32.size)
    (h : (simulation capacity resets).Paired e d c 0 s t)
    (hst : J s.machine.store t.machine.store) :
    ∃ resets' e' d' c', Grove.Ready resets' d' ∧
      (simulation capacity resets').Paired e' d' c' 0 (s.after commands) (t.after commands) ∧
        J (s.after commands).machine.store (t.after commands).machine.store := by
  induction commands generalizing resets e d c s t with
  | nil => exact ⟨resets, e, d, c, hd, h, hst⟩
  | cons command commands ih =>
    rw [← List.singleton_append, List.countP_append] at hlt
    obtain ⟨resets', e', d', c', hlen, hd', hstep, hst'⟩ :=
      paired_step hJ hfits hd (hc command (List.mem_cons_self ..)) (by omega) h hst
    exact ih hd' (fun x hx => hc x (List.mem_cons_of_mem command hx)) (by omega) hstep hst'

/-- An arena is opened only if its blocks can be reserved. -/
theorem reservation_lt_of_opened {filter : Log.Filter} {limits : Limits}
    (hopen : 0 < (opened Arenas filter limits).seats.size) :
    limits.blockCapacity / Closure.headerWord * Arena.closureBytes < reservationBound := by
  by_contra hlarge
  obtain ⟨f, m, hfail⟩ := openArena_of_error ⟨Host.initial, { filter }⟩ fun h => hlarge h.2
  obtain ⟨hseats, -⟩ := openedOn_of_error (W := Arenas) hfail
  rw [opened, hseats] at hopen
  exact Nat.lt_irrefl 0 hopen

/-- After a run with fewer resets than there are epochs an arena is related to a grove, unless none
could be opened. -/
theorem unopened_or_paired (filter : Log.Filter) (limits : Limits) {commands : List Command}
    (hc : ∀ command ∈ commands, command.isOperation = true ∨ command.isReset = true)
    (hlt : commands.countP (·.isReset) < UInt32.size) :
    ((opened Arenas filter limits).after commands).seats = #[] ∨
      ∃ resets e d c t, Grove.Ready resets d ∧
        (simulation limits.blockCapacity resets).Paired e d c 0
          ((opened Arenas filter limits).after commands) t := by
  by_cases hopen : Closure.headerWord ≤ limits.blockCapacity ∧
      limits.blockCapacity / Closure.headerWord * Arena.closureBytes < reservationBound
  · obtain ⟨hfits, hbytes⟩ := hopen
    have hcap : (some limits.blockCapacity).filter (· < Closure.headerWord) = none := by
      rw [Option.filter_some, if_neg (by simpa using hfits)]
    have hopens := Arenas.opens (some limits.blockCapacity) hbytes fun c => rfl
    obtain ⟨e, hpaired⟩ := hopens.paired filter (Grove.openGrove_of_fits limits hcap rfl)
    obtain ⟨resets, e', d', c', hd', hafter, -⟩ :=
      paired_after (persists_true _) hfits (Grove.ready_evaluator limits) commands hc
        (by simpa using hlt) hpaired trivial
    exact .inr ⟨resets, e', d', c', _, hd', hafter⟩
  · obtain ⟨f, m, hfail⟩ := openArena_of_error ⟨Host.initial, { filter }⟩ hopen
    obtain ⟨hseats, hbindings⟩ := openedOn_of_error (W := Arenas) hfail
    exact .inl (seats_after_of_unopened hseats (fun name => by rw [hbindings]; simp) commands hc)

end Arenas

end ChurchStore
