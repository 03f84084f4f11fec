import ChurchStore.Proofs.Arena
import ChurchStore.Proofs.Pools
import ChurchStore.Proofs.SharedHeap
import ChurchStore.Proofs.Simulation.Run

/-!
# All stores agree

A run of operations on an arena, on the shared heap or on a pool gives the answers that it gives on
a grove, where every handle is the tree that it stands for and application follows the table of
`Grove.applied`. All along the run the closures in the store are the nodes of these trees, and
distinct closures bear distinct numbers, so no reuse of a slot can ever be noticed.
-/

namespace ChurchStore

open Session

variable {W H : Type} [Host W H] {b : Nat}

/-- The closures behind handles are the nodes of trees: each has the form of its tree, distinct ones
bear distinct numbers, and nothing is missing that a closure captures or that is held. -/
structure Labels (look : H → Option (Closure H)) (roots : List H) (tree : H → Tree) : Prop where
  closure_eq {h : H} {c : Closure H} : look h = some c → (tree h).closure = c.map tree
  number_injective {h k : H} : (look h).isSome → (look k).isSome →
    (tree h).number = (tree k).number → h = k
  isSome_look_captured {h : H} {c : Closure H} : look h = some c →
    ∀ x ∈ c.captures, (look x).isSome
  isSome_look : ∀ h ∈ roots, (look h).isSome

/-- The labelling of a mirrored grove that was never reset. -/
theorem Representation.Mirrors.labels {R : Representation W} {w : W} {g : Grove b}
    {l : List (H × Tree)} {known : H → Prop} {tree : H → Tree} (hm : R.Mirrors w g l known tree)
    (hresets : g.resets = []) : Labels (R.look w) (l.map Prod.fst) tree := by
  have hisSome {x : H} (hx : known x) : (R.look w x).isSome := by
    refine hm.look_isSome hx ?_
    rw [hm.epoch_eq_now_iff hx, Grove.epochOf, hresets]
    rfl
  constructor
  case closure_eq => exact fun hc => (hm.of_look hc).2.1
  case number_injective =>
    intro x y hx hy
    obtain ⟨c, hc⟩ := Option.isSome_iff_exists.1 hx
    obtain ⟨c', hc'⟩ := Option.isSome_iff_exists.1 hy
    exact hm.number_injective (hm.of_look hc).1 (hm.of_look hc').1
  case isSome_look_captured => exact fun hc y hy => hisSome ((hm.of_look hc).2.2 y hy)
  case isSome_look =>
    intro x hx
    obtain ⟨p, hp, rfl⟩ := List.mem_map.1 hx
    exact hisSome (hm.of_mem (Multiset.mem_coe.2 hp)).1

namespace Session

/-- The handles of a session stand for the trees of a session on a grove: `tree` labels the
closures in the store by trees that were made there, all handles that are held or captured point to
a closure, and the handles of the grove are the labels of those that are held. -/
structure Depicts (v : View W H) (s : Session W H) (t : Session (Grove b) Tree)
    (tree : H → Tree) : Prop where
  closure_eq {h : H} {c : Closure H} : v.look s.machine.store h = some c →
    (tree h).closure = c.map tree
  number_injective {h k : H} : (v.look s.machine.store h).isSome →
    (v.look s.machine.store k).isSome → (tree h).number = (tree k).number → h = k
  kindOf_eq {h : H} {c : Closure H} : v.look s.machine.store h = some c →
    t.machine.store.kindOf (tree h).number = some c.kind
  isSome_look_captured {h : H} {c : Closure H} : v.look s.machine.store h = some c →
    ∀ x ∈ c.captures, (v.look s.machine.store x).isSome
  isSome_look : ∀ h ∈ s.handles, (v.look s.machine.store h).isSome
  handles_eq : t.handles = s.handles.map tree
  bindings_eq (name : Name) : t.bindings[name]? = s.bindings[name]?.map tree

/-- Two sessions answer commands alike, apart from the places of handles, and the handles held
afterwards in the first one stand for the trees held in the second one. -/
def Agrees (v : View W H) (s : Session W H) (t : Session (Grove b) Tree)
    (commands : List Command) : Prop :=
  (s.answers commands).map (·.map Answer.unplaced) =
      (t.answers commands).map (·.map Answer.unplaced) ∧
    ∃ tree, Depicts v (s.after commands) (t.after commands) tree

end Session

namespace Representation

variable {R : Representation W} {hb : Backend.handleBytes W = b}

/-- Opening an evaluator makes some store ready and then allocates the builtin functions. -/
theorem opens {limits : Limits} {w v : W} {g : Grove b}
    {finish : Singletons H → Act W (Evaluator H)} (hrep : R.Represents [] v g 0)
    (hopen : ∀ m : Machine W, m.store = w →
      ∃ j, (Host.openWith limits : Act W (Evaluator H)) m =
        (Singletons.build (Backend.alloc R.site) >>= finish) ⟨v, j⟩)
    (hfinish : ∀ t m, ∃ j, finish t m = .ok ⟨R.site, t, limits.nesting⟩ ⟨m.store, j⟩) :
    (R.simulation hb []).Opens limits w g := by
  intro m n ⟨hm, hn⟩
  obtain ⟨j, hopen⟩ := hopen m hm
  have hpre : (R.simulation hb []).Holds 0 ⟨v, j⟩ n := by
    rw [Simulation.Holds, hn]
    exact hrep
  have hbuild := (R.simulation hb []).coupled_build 0
  have hright : (Host.openWith limits : Act (Grove b) (Evaluator Tree)) n =
      (Singletons.build (Backend.alloc 0) >>= fun t => pure ⟨0, t, limits.nesting⟩) n := rfl
  rw [hopen, hright]
  refine Coupled.bind hbuild (fun t u => Coupled.of_ok fun m n hmn => ?_) _ _ hpre
  obtain ⟨j', hfinish⟩ := hfinish t m
  rw [Multiset.add_zero] at hmn
  exact ⟨_, _, _, _, hfinish, rfl, rfl, rfl, rfl, hmn⟩

variable {e : Evaluator H} {d : Evaluator Tree} {c : Simulation.Pairing H Tree}
  {s : Session W H} {t : Session (Grove b) Tree}

/-- Where no handle can be stale, the labelling of a mirrored grove depicts what is held, and as
many closures of each kind were allocated. -/
theorem depicts_of_handles {l : List (H × Tree)} {bindings : Std.TreeMap Name (H × Tree)}
    (hs : s.handles = l.map Prod.fst) (ht : t.handles = l.map Prod.snd)
    (hleft : ∀ name : Name, s.bindings[name]? = bindings[name]?.map Prod.fst)
    (hright : ∀ name : Name, t.bindings[name]? = bindings[name]?.map Prod.snd)
    (hmem : ∀ p ∈ bindings.values, p ∈ l) {known : H → Prop} {tree : H → Tree}
    (hresets : t.machine.store.resets = [])
    (hm : R.Mirrors s.machine.store t.machine.store l known tree) :
    Depicts R.toView s t tree ∧ R.Sound s.machine.store s.handles ∧
      ∀ k, R.allocated s.machine.store k = t.machine.store.made.count k := by
  have hlabels := hm.labels hresets
  rw [← hs] at hlabels
  have hsound := hm.sound
  rw [Multiset.map_coe, ← hs] at hsound
  refine ⟨?_, hsound, fun k => ?_⟩
  swap
  · rw [hm.allocated_eq, Grove.recent, hresets]
    simp
  constructor
  case closure_eq => exact hlabels.closure_eq
  case number_injective => exact hlabels.number_injective
  case isSome_look_captured => exact hlabels.isSome_look_captured
  case isSome_look => exact hlabels.isSome_look
  case kindOf_eq =>
    intro x c hc
    obtain ⟨hk, hclosure, -⟩ := hm.of_look hc
    rw [hm.kindOf_eq hk, hclosure, Closure.kind_map]
  case handles_eq =>
    rw [hs, ht, List.map_map]
    exact List.map_congr_left fun p hp => (hm.of_mem (Multiset.mem_coe.2 hp)).2
  case bindings_eq =>
    intro name
    rw [hleft, hright]
    cases hp : bindings[name]? with
    | none => rfl
    | some p => exact congrArg some (hm.of_mem (hmem p (mem_values_of_getElem? hp))).2

theorem depicts_of_mirrors {S : Simulation W (Grove b)} (h : S.Paired e d c 0 s t)
    {known : H → Prop} {tree : H → Tree} (hresets : t.machine.store.resets = [])
    (hm : R.Mirrors s.machine.store t.machine.store (c.standing e d) known tree) :
    Depicts R.toView s t tree ∧ R.Sound s.machine.store s.handles ∧
      ∀ k, R.allocated s.machine.store k = t.machine.store.made.count k := by
  obtain ⟨l, hs, ht, hl⟩ := h.exists_handles
  have hmem (p : H × Tree) (hp : p ∈ c.bindings.values) : p ∈ l := by
    rw [← Multiset.mem_coe, ← hl]
    exact Multiset.mem_add.2 (.inl hp)
  rw [hl] at hm
  exact depicts_of_handles hs ht h.bindings_left h.bindings_right hmem hresets hm

theorem exists_depicts (h : (R.simulation hb []).Paired e d c 0 s t) :
    ∃ tree, Depicts R.toView s t tree ∧ R.Sound s.machine.store s.handles ∧
      ∀ k, R.allocated s.machine.store k = t.machine.store.made.count k := by
  have hholds := h.holds
  rw [Multiset.zero_add] at hholds
  obtain ⟨hresets, known, tree, hm⟩ := hholds
  exact ⟨tree, depicts_of_mirrors h hresets hm⟩

/-- A store on which an evaluator can be opened answers every run as a grove does. -/
theorem agrees {limits : Limits} {w : W} {g : Grove b}
    (hopens : (R.simulation hb []).Opens limits w g) (hmade : g.made = [])
    (hfits : g.capacity.filter (· < Closure.headerWord) = none) (filter : Log.Filter)
    {commands : List Command} (hc : ∀ command ∈ commands, command.isOperation = true) :
    Agrees R.toView (openedOn w filter limits) (openedOn g filter limits) commands := by
  obtain ⟨e, hpaired⟩ := hopens.paired filter (Grove.openGrove_of_fits limits hfits hmade)
  obtain ⟨⟨c, hafter⟩, hanswers, -⟩ := hpaired.after commands hc
  obtain ⟨tree, hdepicts, -⟩ := exists_depicts hafter
  exact ⟨hanswers, tree, hdepicts⟩

end Representation

/-- A pool without slots is all that opening an evaluator needs. -/
theorem Pools.opens (limits : Limits) :
    ((Pools.representation 0).simulation (b := 16) rfl []).Opens limits Host.initial
      Host.initial := by
  refine Representation.opens (v := ⟨#[{}]⟩) ?_ (fun m hm => ?_)
    fun t m => ⟨m.journal, rfl⟩
  · refine Representation.represents_empty ⟨Nat.zero_lt_one, ?_, .empty⟩ (fun h => ?_) rfl
      (fun k => PerKind.get_const ..) fun c => rfl
    · exact fun h hh => absurd hh (Multiset.notMem_zero h)
    · rw [← Option.not_isSome_iff_eq_none]
      intro hsome
      obtain ⟨c, hc⟩ := Option.isSome_iff_exists.1 hsome
      obtain ⟨-, x, hx, -⟩ := Pools.look_eq_some hc
      cases hx
  · obtain ⟨w, j⟩ := m
    subst hm
    exact ⟨j, rfl⟩

/-- The heap without nodes is sound. -/
theorem SharedHeap.Sound.initial : SharedHeap.Sound 0 { ledgers := #[{}] } 0 where
  lt_size := Nat.zero_lt_one
  nodes := .empty
  homes_size := rfl
  home_eq h := absurd h (Nat.not_lt_zero _)
  alloc_eq _ := rfl

theorem SharedHeap.opens (limits : Limits) :
    ((SharedHeap.representation 0).simulation (b := 8) rfl []).Opens limits Host.initial
      Host.initial := by
  refine Representation.opens (v := { ledgers := #[{}] }) ?_ (fun m hm => ?_)
    fun t m => ⟨m.journal.record .singletonsAllocated, rfl⟩
  · exact Representation.represents_empty .initial (fun h => rfl) rfl
      (fun k => PerKind.get_const ..) fun c => rfl
  · obtain ⟨w, j⟩ := m
    subst hm
    exact ⟨j, rfl⟩

/-- An arena can be opened whose blocks can be reserved, on a grove whose bound refuses the same
closures. -/
theorem Arenas.opens {limits : Limits} (bound : Option Nat)
    (hbytes : limits.blockCapacity / Closure.headerWord * Arena.closureBytes < reservationBound)
    (hbound : ∀ c : Closure ArenaRef, bound.filter (· < c.footprint) =
      (some limits.blockCapacity).filter (· < c.footprint)) :
    ((Arenas.representation 0 limits.blockCapacity).simulation (b := 16) rfl []).Opens limits
      Host.initial { capacity := bound } := by
  refine Representation.opens (v := ⟨#[{ capacity := limits.blockCapacity }]⟩) ?_
    (fun m hm => ?_) fun t m => ⟨m.journal, rfl⟩
  · refine Representation.represents_empty
      ⟨Nat.zero_lt_one, rfl, hbytes, ?_, ?_, fun k => PerKind.get_const ..⟩
      (fun h => ?_) rfl (fun k => PerKind.get_const ..) hbound
    · exact fun h hh => absurd hh (Multiset.notMem_zero h)
    · intro block slot c hc
      cases hc
    · rw [← Option.not_isSome_iff_eq_none]
      intro hsome
      obtain ⟨c, hc⟩ := Option.isSome_iff_exists.1 hsome
      obtain ⟨-, hc⟩ := Arenas.look_eq_some hc
      cases hc
  · obtain ⟨w, j⟩ := m
    subst hm
    exact ⟨j, rfl⟩

/-- Blocks with room for the largest closures refuse none. -/
theorem Closure.filter_footprint_eq_none {capacity : Nat} (h : Closure.maxFootprint ≤ capacity)
    (c : Closure H) : (some capacity).filter (· < c.footprint) = none := by
  have hle := c.footprint_le_maxFootprint
  rw [Option.filter_some, if_neg (by simp; omega)]

/-- Every run of operations, refused ones and such that stop with a fault included, is answered by
each of the stores as by a grove with handles of the same size, and leaves handles that stand for
the same trees: for arenas, if the blocks have room for every closure and can be reserved. -/
theorem stores_agree_with_groves (filter : Log.Filter) (limits : Limits)
    (commands : List Command) (hc : ∀ command ∈ commands, command.isOperation = true) :
    (Closure.maxFootprint ≤ limits.blockCapacity →
        limits.blockCapacity / Closure.headerWord * Arena.closureBytes < reservationBound →
        Agrees (Arenas.view 0 limits.blockCapacity) (opened Arenas filter limits)
          (opened (Grove 16) filter limits) commands) ∧
      Agrees (SharedHeap.view 0) (opened SharedHeap filter limits)
        (opened (Grove 8) filter limits) commands ∧
      Agrees (Pools.view 0) (opened Pools filter limits) (opened (Grove 16) filter limits)
        commands := by
  refine ⟨fun hcap hbytes => ?_, ?_, ?_⟩
  · have hbound (c : Closure ArenaRef) : (none : Option Nat).filter (· < c.footprint) =
        (some limits.blockCapacity).filter (· < c.footprint) := by
      have hle := c.footprint_le_maxFootprint
      rw [Option.filter_some, if_neg (by simp; omega)]
      rfl
    exact Representation.agrees (Arenas.opens none hbytes hbound) rfl rfl filter hc
  · exact Representation.agrees (SharedHeap.opens limits) rfl rfl filter hc
  · exact Representation.agrees (Pools.opens limits) rfl rfl filter hc

/-- A run that stores a closure over variables, drops one of them and asks for an integer that a
numeral does not have. -/
theorem stores_agree_with_groves_sharing :
    Agrees (Arenas.view 0 24) (opened Arenas .off { blockCapacity := 24 })
        (opened (Grove 16) .off { blockCapacity := 24 })
        [.numeral 2 "n", .apply "n" "n" "f", .alloc (.succInner "n" "f") "g", .drop "n",
          .toInt "g"] ∧
      Agrees (SharedHeap.view 0) (opened SharedHeap .off { blockCapacity := 24 })
        (opened (Grove 8) .off { blockCapacity := 24 })
        [.numeral 2 "n", .apply "n" "n" "f", .alloc (.succInner "n" "f") "g", .drop "n",
          .toInt "g"] ∧
      Agrees (Pools.view 0) (opened Pools .off { blockCapacity := 24 })
        (opened (Grove 16) .off { blockCapacity := 24 })
        [.numeral 2 "n", .apply "n" "n" "f", .alloc (.succInner "n" "f") "g", .drop "n",
          .toInt "g"] := by
  have h := stores_agree_with_groves .off { blockCapacity := 24 }
    [.numeral 2 "n", .apply "n" "n" "f", .alloc (.succInner "n" "f") "g", .drop "n", .toInt "g"]
    (by decide)
  exact ⟨h.1 (by decide) (by decide), h.2⟩

end ChurchStore
