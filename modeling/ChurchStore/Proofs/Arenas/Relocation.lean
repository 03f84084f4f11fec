import ChurchStore.Proofs.Arenas.Packing
import ChurchStore.Proofs.Simulation.Run

/-!
# Arenas in another place

An arena can be moved: to another place among the arenas and into another epoch, with its closures
and what they capture in the same blocks and slots. Nothing that an evaluator does with handles of
the present epoch tells an arena from a moved one, down to the blocks that it fills. A cleared arena
is a new one that was moved; so a reset succeeds where an arena of that capacity can be opened, and
the evaluators are alike from then on.
-/

namespace ChurchStore

/-- The handle of the same place in another arena and epoch. -/
def ArenaRef.moved (site : Site) (epoch : UInt32) (h : ArenaRef) : ArenaRef :=
  { h with arena := site, epoch }

/-- The block in another arena and epoch, whose closures capture handles of these. -/
def Block.moved (site : Site) (epoch : UInt32) (b : Block) : Block :=
  { b with closures := b.closures.map (·.map (·.moved site epoch)) }

namespace Arena

/-- The arena with the same closures in another place and epoch. -/
def moved (site : Site) (epoch : UInt32) (a : Arena) : Arena :=
  { a with epoch, blocks := a.blocks.map (·.moved site epoch) }

variable (site : Site) (epoch : UInt32) (a : Arena)

theorem back?_moved :
    (a.moved site epoch).blocks.back? = a.blocks.back?.map (·.moved site epoch) := by
  simp [moved, Array.back?]

theorem hasRoom_moved (size : Nat) : (a.moved site epoch).hasRoom size = a.hasRoom size := by
  rw [hasRoom, hasRoom, back?_moved]
  cases a.blocks.back? <;> rfl

theorem closure?_moved (block slot : Nat) : (a.moved site epoch).closure? block slot =
    (a.closure? block slot).map (·.map (·.moved site epoch)) := by
  rw [closure?, closure?, moved, Array.getElem?_map]
  cases a.blocks[block]? with
  | none => rfl
  | some b => exact Array.getElem?_map ..

theorem addBlock_moved : (a.moved site epoch).addBlock = a.addBlock.moved site epoch := by
  simp [addBlock, moved, Block.moved]

theorem withRoom_moved (size : Nat) :
    (a.moved site epoch).withRoom size = (a.withRoom size).moved site epoch := by
  rw [withRoom, withRoom, hasRoom_moved, addBlock_moved]
  split <;> rfl

theorem place_moved (c : Closure ArenaRef) :
    (a.moved site epoch).place (c.map (·.moved site epoch)) = (a.place c).moved site epoch := by
  have hadd (b : Block) : (b.moved site epoch).add (c.map (·.moved site epoch)) =
      (b.add c).moved site epoch := by
    simp [Block.add, Block.moved, Closure.footprint_map]
  have hblocks : (a.blocks.map (·.moved site epoch)).modify (a.blocks.size - 1)
      (·.add (c.map (·.moved site epoch))) =
        (a.blocks.modify (a.blocks.size - 1) (·.add c)).map (·.moved site epoch) := by
    refine Array.ext_getElem? fun i => ?_
    rw [Array.getElem?_modify, Array.getElem?_map, Array.getElem?_map, Array.getElem?_modify]
    split
    · rw [Option.map_map, Option.map_map]
      exact congrArg (Option.map · _) (funext hadd)
    · rfl
  have hplace (a : Arena) (c : Closure ArenaRef) : a.place c =
      { a with blocks := a.blocks.modify (a.blocks.size - 1) (·.add c),
               bytes := a.bytes + c.footprint, ledger := a.ledger.recordAlloc c.kind } := rfl
  rw [hplace, hplace, Closure.footprint_map, Closure.kind_map]
  simp only [moved, Array.size_map, hblocks]

theorem nextRef_moved (site' : Site) :
    (a.moved site epoch).nextRef site = (a.nextRef site').moved site epoch := by
  rw [nextRef, nextRef, back?_moved]
  cases a.blocks.back? with
  | none => simp [moved, ArenaRef.moved]
  | some b => simp [moved, ArenaRef.moved, Block.moved]

theorem store_moved (c : Closure ArenaRef) :
    (a.moved site epoch).store (c.map (·.moved site epoch)) = (a.store c).moved site epoch := by
  rw [store, store, Closure.footprint_map, withRoom_moved, place_moved]

end Arena

namespace Arenas

variable {i j : Site} {w v : Arenas} {held : Multiset (ArenaRef × ArenaRef)}

/-- A handle of the present epoch of an arena. -/
def Current (site : Site) (w : Arenas) (h : ArenaRef) : Prop :=
  h.arena = site ∧ h.epoch = (w.arena site).epoch

/-- Handles of one epoch of an arena are told apart also after they are moved. -/
theorem Current.moved_inj {h k : ArenaRef} (hh : Current i w h) (hk : Current i w k)
    (epoch : UInt32) : h.moved j epoch = k.moved j epoch ↔ h = k := by
  obtain ⟨arena, epoch₁, block, slot⟩ := h
  obtain ⟨arena', epoch₂, block', slot'⟩ := k
  have harena : arena = arena' := hh.1.trans hk.1.symm
  have hepoch : epoch₁ = epoch₂ := hh.2.trans hk.2.symm
  simp [ArenaRef.moved, harena, hepoch]

/-- The second arena is the first one in another place and epoch. In both of them only handles of
the present epoch are held and captured. -/
structure Twins (i j : Site) (w v : Arenas) (held : Multiset (ArenaRef × ArenaRef)) : Prop where
  left_lt : i < w.toArray.size
  right_lt : j < v.toArray.size
  arena_eq : v.arena j = (w.arena i).moved j (v.arena j).epoch
  current_of_mem {x y : ArenaRef} :
    (x, y) ∈ held → Current i w x ∧ y = x.moved j (v.arena j).epoch
  current_of_captured {block slot : Nat} {c : Closure ArenaRef} :
    (w.arena i).closure? block slot = some c → ∀ h ∈ c.captures, Current i w h

namespace Twins

variable {m n : Machine Arenas} {c : Closure (ArenaRef × ArenaRef)} {p : ArenaRef × ArenaRef}

theorem of_subset {held' : Multiset (ArenaRef × ArenaRef)} (h : Twins i j w v held)
    (hsub : held' ⊆ held) : Twins i j w v held' :=
  { h with current_of_mem := fun hp => h.current_of_mem (hsub hp) }

theorem map_snd (h : Twins i j w v held) (hc : ∀ p ∈ c.captures, p ∈ held) :
    c.map Prod.snd = (c.map Prod.fst).map (·.moved j (v.arena j).epoch) := by
  rw [Closure.map_map]
  exact Closure.map_congr fun p hp => (h.current_of_mem (hc p hp)).2

theorem hasRoom_eq (h : Twins i j w v held) (size : Nat) :
    (v.arena j).hasRoom size = (w.arena i).hasRoom size := by
  rw [h.arena_eq, Arena.hasRoom_moved]

theorem capacity_eq (h : Twins i j w v held) : (v.arena j).capacity = (w.arena i).capacity := by
  rw [h.arena_eq]
  rfl

/-- Both arenas go on alike if a closure is stored. -/
theorem alloc_of_fits (h : Twins i j m.store n.store (c.captures + held))
    (hfits : (c.map Prod.fst).footprint ≤ (m.store.arena i).capacity)
    (hroom : (m.store.arena i).hasRoom (c.map Prod.fst).footprint = true ∨
      (m.store.arena i).blockReservation < reservationBound) :
    ∃ a b m' n', Arenas.alloc i (c.map Prod.fst) m = .ok a m' ∧
      Arenas.alloc j (c.map Prod.snd) n = .ok b n' ∧
      Twins i j m'.store n'.store ((a, b) ::ₘ held) := by
  have hsnd := h.map_snd (c := c) fun p hp => Multiset.mem_add.2 (.inl hp)
  have hfoot : (c.map Prod.snd).footprint = (c.map Prod.fst).footprint := by
    rw [Closure.footprint_map, Closure.footprint_map]
  obtain ⟨m', hx, hm'⟩ := Arenas.alloc_of_fits h.left_lt hfits hroom
  obtain ⟨n', hy, hn'⟩ := Arenas.alloc_of_fits (m := n) (c := c.map Prod.snd) h.right_lt
    (by rwa [hfoot, h.capacity_eq])
    (by rwa [hfoot, h.hasRoom_eq, Arena.blockReservation, h.capacity_eq])
  have hp := places_of_alloc hx
  have hq := places_of_alloc hy
  refine ⟨_, _, m', n', hx, hy, ?_⟩
  constructor
  case left_lt =>
    rw [hp.size_eq]
    exact h.left_lt
  case right_lt =>
    rw [hq.size_eq]
    exact h.right_lt
  case arena_eq =>
    rw [hq.epoch_kept, hm', hn', arena_modify h.left_lt, arena_modify h.right_lt, ← Arena.store,
      ← Arena.store, hsnd]
    nth_rewrite 1 [h.arena_eq]
    exact Arena.store_moved ..
  case current_of_mem =>
    intro x y hmem
    rw [Current, hp.epoch_kept, hq.epoch_kept]
    rcases Multiset.mem_cons.1 hmem with heq | hmem
    · cases heq
      refine ⟨⟨hp.arena_eq, hp.epoch_eq⟩, ?_⟩
      nth_rewrite 1 [h.arena_eq]
      rw [hfoot, Arena.withRoom_moved]
      exact Arena.nextRef_moved ..
    · exact h.current_of_mem (Multiset.mem_add.2 (.inr hmem))
  case current_of_captured =>
    intro block slot x hx y hy
    rw [Current, hp.epoch_kept]
    rw [hp.closure?_eq] at hx
    split at hx
    · cases hx
      rw [Closure.captures_map] at hy
      obtain ⟨p, hp, rfl⟩ := List.mem_map.1 hy
      exact (h.current_of_mem (Multiset.mem_add.2 (.inl hp))).1
    · exact h.current_of_captured hx y hy

/-- Both arenas store a closure, or refuse it for the same reason. -/
theorem coupled_alloc (c : Closure (ArenaRef × ArenaRef)) (lent : Multiset (ArenaRef × ArenaRef)) :
    Coupled (fun m n => Twins i j m.store n.store (c.captures + lent))
      (Arenas.alloc i (c.map Prod.fst)) (Arenas.alloc j (c.map Prod.snd))
      (fun a b m n => Twins i j m.store n.store ((a, b) ::ₘ lent))
      (fun _ m n => True ∧ Twins i j m.store n.store lent) := by
  intro m n h
  have hlent := h.of_subset (Multiset.subset_of_le (Multiset.le_add_left ..))
  have hfoot : (c.map Prod.snd).footprint = (c.map Prod.fst).footprint := by
    rw [Closure.footprint_map, Closure.footprint_map]
  by_cases hcap : (m.store.arena i).capacity < (c.map Prod.fst).footprint
  · have hcap' : (n.store.arena j).capacity < (c.map Prod.snd).footprint := by
      rwa [hfoot, h.capacity_eq]
    obtain ⟨k, hx⟩ := alloc_of_oversize hcap
    obtain ⟨l, hy⟩ := alloc_of_oversize hcap'
    rw [hfoot, h.capacity_eq] at hy
    rw [hx, hy]
    exact ⟨rfl, trivial, hlent⟩
  have hfits := Nat.not_lt.1 hcap
  by_cases hroom : (m.store.arena i).hasRoom (c.map Prod.fst).footprint = true ∨
      (m.store.arena i).blockReservation < reservationBound
  · obtain ⟨a, b, m', n', hx, hy, hnext⟩ := h.alloc_of_fits hfits hroom
    rw [hx, hy]
    exact hnext
  · obtain ⟨hfull, hres⟩ := not_or.1 hroom
    have hfull := Bool.eq_false_of_not_eq_true hfull
    have hfits' : (c.map Prod.snd).footprint ≤ (n.store.arena j).capacity := by
      rwa [hfoot, h.capacity_eq]
    have hfull' : (n.store.arena j).hasRoom (c.map Prod.snd).footprint = false := by
      rwa [hfoot, h.hasRoom_eq]
    have hres' : ¬ (n.store.arena j).blockReservation < reservationBound := by
      rwa [Arena.blockReservation, h.capacity_eq]
    rw [alloc_of_overflow hfits hfull hres, alloc_of_overflow hfits' hfull' hres']
    exact ⟨rfl, trivial, hlent⟩

/-- Both arenas hand out a closure, one with moved captures, or find nothing at the place. -/
theorem coupled_resolve {lent : Multiset (ArenaRef × ArenaRef)} (hp : p ∈ lent) :
    Coupled (fun m n => Twins i j m.store n.store lent) (Arenas.resolve i p.1)
      (Arenas.resolve j p.2)
      (fun a b m n => ∃ c : Closure (ArenaRef × ArenaRef), a = c.map Prod.fst ∧
        b = c.map Prod.snd ∧ Twins i j m.store n.store (c.captures + lent))
      (fun _ m n => True ∧ Twins i j m.store n.store lent) := by
  intro m n h
  obtain ⟨x, y⟩ := p
  obtain ⟨hcurrent, rfl⟩ := h.current_of_mem hp
  have harena : (x.moved j (n.store.arena j).epoch).arena = j := rfl
  have hepoch : (x.moved j (n.store.arena j).epoch).epoch = (n.store.arena j).epoch := rfl
  have hclosure :=
    Arena.closure?_moved j (n.store.arena j).epoch (m.store.arena i) x.block x.slot
  rw [← h.arena_eq] at hclosure
  cases hc : (m.store.arena i).closure? x.block x.slot with
  | some c =>
    rw [hc] at hclosure
    rw [resolve_of_current hcurrent.1 hcurrent.2 hc, resolve_of_current harena hepoch hclosure]
    refine ⟨c.map fun k => (k, k.moved j (n.store.arena j).epoch), ?_, ?_,
      { h with current_of_mem := fun {x' y'} hq => ?_ }⟩
    · rw [Closure.map_map]
      exact (Closure.map_eq_self fun _ _ => rfl).symm
    · rw [Closure.map_map]
      rfl
    · rcases Multiset.mem_add.1 hq with hq | hq
      · rw [Multiset.mem_coe, Closure.captures_map] at hq
        obtain ⟨k, hk, heq⟩ := List.mem_map.1 hq
        cases heq
        exact ⟨h.current_of_captured hc _ hk, rfl⟩
      · exact h.current_of_mem hq
  | none =>
    rw [hc] at hclosure
    obtain ⟨k, hx⟩ := resolve_of_dangling hcurrent.1 hcurrent.2 hc
    obtain ⟨l, hy⟩ := resolve_of_dangling harena hepoch hclosure
    rw [hx, hy]
    exact ⟨rfl, trivial, h⟩

end Twins

/-- Two arenas of which one is the other in another place and epoch. -/
def twins (i j : Site) : Simulation Arenas Arenas where
  left := i
  right := j
  Rel := Twins i j
  Faulty _ := True
  retain h hp := h.of_subset (Multiset.cons_subset.2 ⟨hp, Multiset.Subset.refl _⟩)
  release h := h.of_subset (Multiset.subset_cons ..)
  alloc := Twins.coupled_alloc
  resolve := Twins.coupled_resolve
  same {w v held p q} h hp hq := by
    obtain ⟨hcurrent, hmoved⟩ := h.current_of_mem hp
    obtain ⟨hcurrent', hmoved'⟩ := h.current_of_mem hq
    have hiff : p.1 = q.1 ↔ p.2 = q.2 := by rw [hmoved, hmoved', hcurrent.moved_inj hcurrent']
    simpa [Backend.same] using hiff
  describe {p lent} hp := Coupled.pure fun _ _ h => h
  handleBytes_eq := Eq.refl 16

/-- A new arena and a cleared one of the same capacity. -/
theorem twins_cleared {capacity : Nat} (hi : i < w.toArray.size)
    (hcap : (w.arena i).capacity = capacity) (v : Arenas) :
    Twins v.toArray.size i (v.withArena capacity) (w.modify i Arena.cleared) 0 := by
  have hleft := arena_withArena_self v capacity
  have hright := arena_modify hi Arena.cleared
  constructor
  case left_lt =>
    rw [size_withArena]
    exact Nat.lt_succ_self _
  case right_lt => rwa [size_modify]
  case arena_eq =>
    rw [hleft, hright]
    simp [Arena.cleared, Arena.moved, hcap]
  case current_of_mem =>
    intro x y hxy
    exact absurd hxy (Multiset.notMem_zero _)
  case current_of_captured =>
    intro block slot c hc
    rw [hleft] at hc
    cases hc

/-- Where an arena can be opened, one of the same capacity can be reset, and their evaluators are
alike. -/
theorem exists_reset {limits : Limits} {e d : Evaluator ArenaRef} {m n n' : Machine Arenas}
    (hsite : e.site < m.store.toArray.size)
    (hcap : (m.store.arena e.site).capacity = limits.blockCapacity)
    (hnesting : e.nesting = limits.nesting) (hopen : openArena limits n = .ok d n') :
    ∃ t m', reset e m = .ok { e with singletons := t } m' ∧
      (twins d.site e.site).Paired d { e with singletons := t } {} 0 ⟨n', #[⟨d, true⟩], {}⟩
        ⟨m', #[⟨{ e with singletons := t }, true⟩], {}⟩ := by
  obtain ⟨u, n₁, hbuild, hrun⟩ | ⟨f, j, hrun⟩ := openArena_cases limits n
  · rw [hopen] at hrun
    cases hrun
    have hcoupled := (twins n.store.toArray.size e.site).coupled_build 0
    have hstart : (twins n.store.toArray.size e.site).Holds 0
        ⟨n.store.withArena limits.blockCapacity, n.journal⟩
        ⟨m.store.modify e.site Arena.cleared, m.journal.record
          (.arenaReset (m.store.arena e.site).epoch (m.store.arena e.site).bytes)⟩ :=
      twins_cleared hsite hcap n.store
    obtain ⟨u', t, n₂, m', hx, hy, hholds⟩ | ⟨f, n₂, m', hx, -⟩ := hcoupled.cases hstart
    · injection hbuild.symm.trans hx with hu hn
      subst hu hn
      have hy : Singletons.build (alloc e.site) _ = .ok t m' := hy
      refine ⟨t, m', ?_, ⟨rfl, rfl, fun name => by simp, fun name => by simp,
        ⟨rfl, rfl, hnesting.symm, Simulation.mem_builtinPairs _ _⟩, ?_⟩⟩
      · simp only [reset_eq, Bind.bind, EStateM.bind, hy]
        rfl
      · rw [Multiset.zero_add, Simulation.Pairing.standing_start]
        rw [Multiset.add_zero] at hholds
        exact hholds
    · cases hbuild.symm.trans hx
  · rw [hopen] at hrun
    cases hrun

end Arenas

end ChurchStore
