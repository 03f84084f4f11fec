import ChurchStore.Proofs.Arenas.Places

/-!
# Opening and resetting arenas

Opening an evaluator is storing the builtin functions in a new arena, and resetting one is storing
them in the arena that was cleared. Each of them takes one word, so they are stored together or not
at all.
-/

namespace ChurchStore

namespace Arenas

/-- One more arena. -/
def withArena (w : Arenas) (capacity : Nat) : Arenas := ⟨w.toArray.push { capacity }⟩

theorem size_withArena (w : Arenas) (capacity : Nat) :
    (w.withArena capacity).toArray.size = w.toArray.size + 1 :=
  Array.size_push _

/-- A new arena is as an absent one is read, but for its capacity. -/
theorem arena_withArena (w : Arenas) (capacity : Nat) (site : Site) :
    ((w.withArena capacity).arena site).epoch = (w.arena site).epoch ∧
      ∀ block slot, ((w.withArena capacity).arena site).closure? block slot =
        (w.arena site).closure? block slot := by
  by_cases hsite : site = w.toArray.size
  · subst hsite
    rw [arena_of_size_le (Nat.le_refl _), withArena, arena, Array.getElem?_push, if_pos rfl]
    exact ⟨rfl, fun _ _ => rfl⟩
  · rw [withArena, arena, Array.getElem?_push, if_neg hsite]
    exact ⟨rfl, fun _ _ => rfl⟩

/-- An arena without blocks stores the builtin functions if it can store one of them. -/
theorem build_of_canHold {site : Site} {m : Machine Arenas}
    (h : (m.store.arena site).blocks = #[]) (hzero : CanHold m.store site Closure.headerWord) :
    ∃ t m', Singletons.build (alloc site) m = .ok t m' := by
  obtain ⟨hlt, hcap, hroom⟩ := hzero
  have hres : (m.store.arena site).blockReservation < reservationBound := by
    refine hroom.resolve_left ?_
    rw [Arena.hasRoom, h]
    exact Bool.false_ne_true
  have hstep (b : Builtin) {n : Machine Arenas} (hsize : site < n.store.toArray.size)
      (hn : (n.store.arena site).capacity = (m.store.arena site).capacity) :
      ∃ x n', alloc site b.closure n = .ok x n' ∧ site < n'.store.toArray.size ∧
        (n'.store.arena site).capacity = (m.store.arena site).capacity := by
    have hfoot : (b.closure : Closure ArenaRef).footprint = Closure.headerWord := by
      cases b <;> rfl
    obtain ⟨n', hrun, -⟩ := alloc_of_fits (c := b.closure) hsize (by rwa [hfoot, hn])
      (.inr (by rwa [Arena.blockReservation, hn]))
    have hp := places_of_alloc hrun
    exact ⟨_, n', hrun, hp.size_eq ▸ hsize, (hp.capacity_kept site).trans hn⟩
  obtain ⟨zero, m₁, h₁, hlt₁, hcap₁⟩ := hstep .zero hlt rfl
  obtain ⟨inner, m₂, h₂, hlt₂, hcap₂⟩ := hstep .zeroInner hlt₁ hcap₁
  obtain ⟨succ, m₃, h₃, hlt₃, hcap₃⟩ := hstep .succ hlt₂ hcap₂
  obtain ⟨inc, m₄, h₄, -⟩ := hstep .inc hlt₃ hcap₃
  refine ⟨⟨zero, inner, succ, inc⟩, m₄, ?_⟩
  simp only [Singletons.build, Bind.bind, EStateM.bind, h₁, h₂, h₃, h₄]
  rfl

/-- The builtin functions stop with the fault of the first one. -/
theorem build_of_error {site : Site} {m m' : Machine Arenas} {f : Fault}
    (h : alloc site .zero m = .error f m') :
    Singletons.build (alloc site) m = .error f m' := by
  simp only [Singletons.build, Bind.bind, EStateM.bind, Builtin.closure, h]

/-- The builtin functions of an arena without blocks can all be stored, or none of them. -/
theorem build_cases {site : Site} {m : Machine Arenas} (h : (m.store.arena site).blocks = #[]) :
    (∃ t m', Singletons.build (alloc site) m = .ok t m') ∨
      ∃ f j, Singletons.build (alloc site) m = .error f ⟨m.store, j⟩ := by
  by_cases hzero : CanHold m.store site Closure.headerWord
  · exact .inl (build_of_canHold h hzero)
  · obtain ⟨f, j, herror⟩ := alloc_of_not_canHold (c := .zero) hzero
    exact .inr ⟨f, j, build_of_error herror⟩

theorem arena_withArena_self (w : Arenas) (capacity : Nat) :
    (w.withArena capacity).arena w.toArray.size = { capacity } := by
  rw [withArena, arena, Array.getElem?_push, if_pos rfl]
  rfl

/-- Opening an evaluator is building its functions in a new arena. -/
theorem openArena_eq (limits : Limits) (m : Machine Arenas) :
    openArena limits m = (Singletons.build (alloc m.store.toArray.size) >>= fun singletons =>
      pure { site := m.store.toArray.size, singletons, nesting := limits.nesting })
        ⟨m.store.withArena limits.blockCapacity, m.journal⟩ := rfl

/-- Resetting an evaluator is building its functions in the cleared arena. -/
theorem reset_eq (e : Evaluator ArenaRef) (m : Machine Arenas) :
    reset e m = (Singletons.build (alloc e.site) >>= fun singletons =>
      pure { e with singletons }) ⟨m.store.modify e.site Arena.cleared, m.journal.record
        (.arenaReset (m.store.arena e.site).epoch (m.store.arena e.site).bytes)⟩ := rfl

theorem openArena_of_alloc {limits : Limits} {m m' : Machine Arenas} {f : Fault}
    (h : alloc m.store.toArray.size .zero ⟨m.store.withArena limits.blockCapacity, m.journal⟩ =
      .error f m') : openArena limits m = .error f m' := by
  simp only [openArena_eq, Bind.bind, EStateM.bind, build_of_error h]

/-- An evaluator is opened if closures of one word fit in a block and a block can be reserved. -/
theorem openArena_of_fits {limits : Limits} (m : Machine Arenas)
    (hcap : Closure.headerWord ≤ limits.blockCapacity)
    (hbytes : limits.blockCapacity / Closure.headerWord * Arena.closureBytes < reservationBound) :
    ∃ e m', openArena limits m = .ok e m' := by
  have hself := arena_withArena_self m.store limits.blockCapacity
  have hblocks : ((m.store.withArena limits.blockCapacity).arena m.store.toArray.size).blocks =
      #[] := by rw [hself]
  have hzero : CanHold (m.store.withArena limits.blockCapacity) m.store.toArray.size
      Closure.headerWord := by
    rw [CanHold, size_withArena, hself]
    exact ⟨Nat.lt_succ_self _, hcap, .inr hbytes⟩
  obtain ⟨t, m', hbuild⟩ := build_of_canHold
    (m := ⟨m.store.withArena limits.blockCapacity, m.journal⟩) hblocks hzero
  refine ⟨⟨m.store.toArray.size, t, limits.nesting⟩, m', ?_⟩
  simp only [openArena_eq, Bind.bind, EStateM.bind, hbuild]
  rfl

/-- Blocks that no closure fits in. -/
theorem openArena_of_oversize {limits : Limits} (m : Machine Arenas)
    (hcap : limits.blockCapacity < Closure.headerWord) :
    ∃ m', openArena limits m = .error (.violation (.oversizeAllocation Closure.headerWord
      limits.blockCapacity)) m' := by
  have hself := arena_withArena_self m.store limits.blockCapacity
  have hsmall : ((m.store.withArena limits.blockCapacity).arena m.store.toArray.size).capacity <
      (Closure.zero : Closure ArenaRef).footprint := by
    rw [hself]
    exact hcap
  obtain ⟨j, halloc⟩ := alloc_of_oversize
    (m := ⟨m.store.withArena limits.blockCapacity, m.journal⟩) hsmall
  rw [hself] at halloc
  exact ⟨_, openArena_of_alloc halloc⟩

/-- Blocks that cannot be reserved. -/
theorem openArena_of_overflow {limits : Limits} (m : Machine Arenas)
    (hcap : Closure.headerWord ≤ limits.blockCapacity)
    (hbytes : ¬ limits.blockCapacity / Closure.headerWord * Arena.closureBytes <
      reservationBound) :
    ∃ m', openArena limits m = .error .capacityOverflow m' := by
  have hself := arena_withArena_self m.store limits.blockCapacity
  have hfits : (Closure.zero : Closure ArenaRef).footprint ≤
      ((m.store.withArena limits.blockCapacity).arena m.store.toArray.size).capacity := by
    rw [hself]
    exact hcap
  have halloc := alloc_of_overflow (m := ⟨m.store.withArena limits.blockCapacity, m.journal⟩)
    hfits (by rw [hself]; rfl) (by rw [hself]; exact hbytes)
  exact ⟨_, openArena_of_alloc halloc⟩

/-- No evaluator can be opened if the blocks are too small for any closure, or cannot be
reserved. -/
theorem openArena_of_error {limits : Limits} (m : Machine Arenas)
    (h : ¬ (Closure.headerWord ≤ limits.blockCapacity ∧
      limits.blockCapacity / Closure.headerWord * Arena.closureBytes < reservationBound)) :
    ∃ f m', openArena limits m = .error f m' := by
  by_cases hcap : Closure.headerWord ≤ limits.blockCapacity
  · obtain ⟨m', hrun⟩ := openArena_of_overflow m hcap fun hbytes => h ⟨hcap, hbytes⟩
    exact ⟨_, m', hrun⟩
  · obtain ⟨m', hrun⟩ := openArena_of_oversize m (Nat.not_le.1 hcap)
    exact ⟨_, m', hrun⟩

theorem openArena_cases (limits : Limits) (m : Machine Arenas) :
    (∃ t m', Singletons.build (alloc m.store.toArray.size)
          ⟨m.store.withArena limits.blockCapacity, m.journal⟩ = .ok t m' ∧
        openArena limits m = .ok ⟨m.store.toArray.size, t, limits.nesting⟩ m') ∨
      ∃ f j, openArena limits m = .error f ⟨m.store.withArena limits.blockCapacity, j⟩ := by
  have hblocks : ((m.store.withArena limits.blockCapacity).arena m.store.toArray.size).blocks =
      #[] := by rw [arena_withArena_self]
  simp only [openArena_eq, Bind.bind, EStateM.bind]
  obtain ⟨t, m', hbuild⟩ | ⟨f, j, hbuild⟩ :=
    build_cases (m := ⟨m.store.withArena limits.blockCapacity, m.journal⟩) hblocks
  · refine .inl ⟨t, m', hbuild, ?_⟩
    simp only [hbuild]
    rfl
  · exact .inr ⟨f, j, by simp only [hbuild]⟩

theorem reset_cases (e : Evaluator ArenaRef) {m : Machine Arenas}
    (hs : e.site < m.store.toArray.size) :
    (∃ j t m', Singletons.build (alloc e.site) ⟨m.store.modify e.site Arena.cleared, j⟩ =
          .ok t m' ∧ reset e m = .ok { e with singletons := t } m') ∨
      ∃ f j, reset e m = .error f ⟨m.store.modify e.site Arena.cleared, j⟩ := by
  have hblocks : ((m.store.modify e.site Arena.cleared).arena e.site).blocks = #[] := by
    rw [arena_modify hs]
    rfl
  obtain ⟨t, m', hbuild⟩ | ⟨f, j, hbuild⟩ :=
    build_cases (m := ⟨m.store.modify e.site Arena.cleared, m.journal.record
      (.arenaReset (m.store.arena e.site).epoch (m.store.arena e.site).bytes)⟩) hblocks
  · refine .inl ⟨_, t, m', hbuild, ?_⟩
    simp only [reset, Bind.bind, EStateM.bind, Act.read, Act.emit, Act.update, hbuild]
    rfl
  · refine .inr ⟨f, j, ?_⟩
    simp only [reset, Bind.bind, EStateM.bind, Act.read, Act.emit, Act.update, hbuild]

end Arenas

end ChurchStore
