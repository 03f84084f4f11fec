import ChurchStore.Proofs.Arena
import ChurchStore.Proofs.Arenas.Opening
import ChurchStore.Proofs.Isolation
import ChurchStore.Proofs.Upholding.Counted

/-!
# Room for every closure

A configuration passes validation if the largest closures fit in a block, so in no run with it is a
closure too large for a store; a configuration whose blocks are refused as too small does fail that
way. Validation sets no upper bound: blocks can be so large that an arena cannot reserve one, and
then it cannot be opened.
-/

namespace ChurchStore

/-- A closure is larger than a block. -/
def Fault.isOversize : Fault → Bool
  | .violation (.oversizeAllocation ..) => true
  | _ => false

theorem Fault.evaluationAllowed_of_not_isOversize {W : Type} (I : W → Prop) :
    Fault.EvaluationAllowed (fun m : Machine W => I m.store)
      fun f m => f.isOversize = false ∧ I m.store where
  nestingLimit _ hm := ⟨rfl, hm⟩
  capacityOverflow _ hm := ⟨rfl, hm⟩
  notApplicable _ _ hm := ⟨rfl, hm⟩
  notNumeric _ _ hm := ⟨rfl, hm⟩
  integerOverflow _ _ hm := ⟨rfl, hm⟩

/-- The faults among answers. -/
def Session.faults (answers : List (Except Refusal Answer)) : List Fault :=
  answers.filterMap fun
    | .error (.fault f) => some f
    | _ => none

theorem Session.mem_faults {answers : List (Except Refusal Answer)} {f : Fault} :
    f ∈ faults answers ↔ .error (.fault f) ∈ answers := by
  rw [faults, List.mem_filterMap]
  constructor
  · rintro ⟨answer, hmem, hanswer⟩
    split at hanswer
    · cases hanswer
      exact hmem
    · cases hanswer
  · exact fun hmem => ⟨_, hmem, rfl⟩

/-! ## Stores without blocks -/

/-- A store on which no operation stops with other faults than these, whatever its state. -/
theorem Host.Upholds.of_always {W H : Type} [Host W H] {I : W → Prop} {Q : Fault → Prop}
    (hI : ∀ w, I w)
    (hW : Host.Operates (fun m : Machine W => I m.store) (fun f m => Q f ∧ I m.store) fun _ => True)
    (hopen : ∀ limits, Act.Maintains I Q (fun _ : Evaluator H => True) (Host.openWith limits))
    (hreset : (Host.reset? : Option (Evaluator H → Act W (Evaluator H))) = none) :
    Host.Upholds (W := W) (fun _ => I) Q (fun _ => True) where
  operates n :=
    { alloc := fun c _ => hW.alloc c trivial
      resolve := fun h _ => hW.resolve h trivial
      retain := hW.retain
      release := hW.release
      release_failed := hW.release_failed
      describe := hW.describe }
  openWith_ok {n limits m m' e} _ _ _ :=
    ⟨max n (e.site + 1), Nat.le_max_left .., Nat.le_max_right .., hI _⟩
  openWith_error {n limits m m' f} _ _ hrun :=
    ⟨((hopen limits).of_error (hI _) hrun).1, n, Nat.le_refl n, hI _⟩
  reset h := by
    rw [hreset] at h
    cases h

/-- No closure is too large for the heap. -/
theorem SharedHeap.upholds {I : SharedHeap → Prop} (hI : ∀ w, I w) :
    Host.Upholds (W := SharedHeap) (fun _ => I) (·.isOversize = false) (fun _ => True) :=
  .of_always hI
    (operates (fun _ _ _ => hI _) (fun _ _ _ _ => ⟨rfl, hI _⟩) fun _ _ _ hm => ⟨hm.1, hI _⟩)
    (upholds_openLedger (fun _ _ _ => hI _) (fun _ _ _ _ => ⟨rfl, hI _⟩)
      (fun _ _ _ hm => ⟨hm.1, hI _⟩) fun _ _ => hI _) rfl

namespace Pools

variable {I : Pools → Prop} (hI : ∀ w, I w)

include hI

theorem changes_of_always :
    Changes (fun m => I m.store) (fun f m => f.isOversize = false ∧ I m.store) fun _ => True where
  retain _ _ _ := hI _
  release _ _ _ := hI _
  release_failed _ _ _ hm := ⟨hm.1, hI _⟩
  insert _ _ _ _ := hI _
  foreignHandle _ _ := ⟨rfl, hI _⟩
  freedSlot _ _ _ := ⟨rfl, hI _⟩
  indexOutOfBounds _ _ _ _ := ⟨rfl, hI _⟩

theorem upholds_openPool (limits : Limits) :
    Act.Maintains I (·.isOversize = false) (fun _ => True) (openPool limits) := by
  refine (Act.upholds_read _).bind fun site _ => (Act.upholds_update fun _ _ => hI _).bind
    fun _ _ => ?_
  exact ((changes_of_always hI).operates.backend trivial).build.bind fun _ _ => .pure trivial

/-- No closure is too large for a pool. -/
theorem upholds : Host.Upholds (W := Pools) (fun _ => I) (·.isOversize = false) (fun _ => True) :=
  .of_always hI (changes_of_always hI).operates (upholds_openPool hI) rfl

end Pools

/-! ## Arenas -/

namespace Arenas

variable {n : Nat} {w : Arenas} {site : Site}

/-- There are `n` arenas, and in each of them the largest closures fit in a block. -/
structure HasRoom (n : Nat) (w : Arenas) : Prop where
  size_eq : w.toArray.size = n
  le_capacity (site : Site) : site < n → Closure.maxFootprint ≤ (w.arena site).capacity

theorem HasRoom.modify {f : Arena → Arena} (h : HasRoom n w) (site : Site)
    (hf : ∀ a, (f a).capacity = a.capacity) : HasRoom n (w.modify site f) := by
  refine ⟨(size_modify ..).trans h.size_eq, fun site' hlt => ?_⟩
  by_cases hsite : site = site'
  · subst hsite
    rw [arena_modify (h.size_eq ▸ hlt), hf]
    exact h.le_capacity site hlt
  · rw [arena_modify_of_ne hsite]
    exact h.le_capacity site' hlt

theorem HasRoom.withArena {capacity : Nat} (h : HasRoom n w)
    (hcap : Closure.maxFootprint ≤ capacity) : HasRoom (n + 1) (w.withArena capacity) := by
  refine ⟨by rw [size_withArena, h.size_eq], fun site hlt => ?_⟩
  by_cases hsite : site = w.toArray.size
  · rw [hsite, arena_withArena_self]
    exact hcap
  · rw [Arenas.withArena, arena, Array.getElem?_push, if_neg hsite]
    exact h.le_capacity site (Nat.lt_of_le_of_ne (Nat.le_of_lt_succ hlt) (h.size_eq ▸ hsite))

theorem upholds_grow (site : Site) :
    Act.Maintains (HasRoom n) (·.isOversize = false) (fun _ => True) (grow site) := by
  refine (Act.upholds_read _).bind fun ⟨reservation, blocks, bytes⟩ _ => ?_
  dsimp only
  split
  · exact (Act.upholds_update fun m hm => hm.modify site fun _ => rfl).bind fun _ _ =>
      Act.upholds_emit fun _ hm => hm
  · exact .throw fun _ hm => ⟨rfl, hm⟩

theorem upholds_alloc (c : Closure ArenaRef) (hlt : site < n) :
    Act.Maintains (HasRoom n) (·.isOversize = false) (fun _ => True) (alloc site c) := by
  refine Upholds.bind (Act.upholds_read_of (P := fun r => Closure.maxFootprint ≤ r.1)
    fun m hm => hm.le_capacity site hlt) fun ⟨capacity, hasRoom⟩ hcap => ?_
  have hfits : ¬ capacity < c.footprint :=
    Nat.not_lt.2 (Nat.le_trans c.footprint_le_maxFootprint hcap)
  have hplace : Act.Maintains (HasRoom n) (·.isOversize = false) (fun _ => True) (do
      let place ← Act.read fun w => (w.arena site).nextRef site
      Act.update (·.modify site (·.place c))
      return place) := by
    refine (Act.upholds_read _).bind fun _ _ => ?_
    exact (Act.upholds_update fun m hm => hm.modify site fun _ => rfl).bind fun _ _ =>
      .pure trivial
  simp only [if_neg hfits]
  cases hasRoom with
  | true => exact hplace
  | false => exact (upholds_grow site).bind fun _ _ => hplace

theorem upholds_resolve (site : Site) (h : ArenaRef) :
    Act.Maintains (HasRoom n) (·.isOversize = false) (fun _ => True) (resolve site h) := by
  rw [resolve]
  split
  · exact Act.upholds_violate fun _ hm => ⟨rfl, hm⟩
  · refine (Act.upholds_read _).bind fun epoch _ => ?_
    split
    · exact Act.upholds_violate fun _ hm => ⟨rfl, hm⟩
    · refine (Act.upholds_read _).bind fun c _ => ?_
      cases c with
      | none => exact Act.upholds_violate fun _ hm => ⟨rfl, hm⟩
      | some c => exact .pure trivial

theorem upholds_build (hlt : site < n) : Act.Maintains (HasRoom n) (·.isOversize = false)
    (fun _ => True) (Singletons.build (alloc site)) :=
  Backend.Upholds.build ⟨fun c => upholds_alloc c hlt, upholds_resolve site, fun _ _ hm => hm,
    fun _ _ hm => hm, fun _ _ _ hm => hm⟩

/-- What is left of opening an evaluator once there is an arena for it. -/
theorem upholds_opening {m : Machine Arenas} (hm : HasRoom n m.store) (limits : Limits) :
    Act.Maintains (HasRoom (n + 1)) (·.isOversize = false) (fun e => e.site < n + 1) (do
      let singletons ← Singletons.build (alloc m.store.toArray.size)
      return (⟨m.store.toArray.size, singletons, limits.nesting⟩ : Evaluator ArenaRef)) := by
  have hlt : m.store.toArray.size < n + 1 := hm.size_eq ▸ Nat.lt_succ_self _
  exact (upholds_build hlt).bind fun _ _ => .pure hlt

/-- No closure is too large where the largest ones fit in a block of every arena. -/
theorem upholds : Host.Upholds (W := Arenas) HasRoom (·.isOversize = false)
    (fun limits => Closure.maxFootprint ≤ limits.blockCapacity) where
  operates n :=
    { alloc := fun c hlt => upholds_alloc c hlt
      resolve := fun h _ => upholds_resolve _ h
      retain := fun _ _ hm => hm
      release := fun _ _ hm => hm
      release_failed := fun _ _ _ hm => hm
      describe := fun _ => .pure trivial }
  openWith_ok {n limits m m' e} hcap hm hrun := by
    obtain ⟨he, hm'⟩ := (upholds_opening hm limits).of_ok (hm.withArena hcap) hrun
    exact ⟨n + 1, Nat.le_succ n, he, hm'⟩
  openWith_error {n limits m m' f} hcap hm hrun := by
    obtain ⟨hf, hm'⟩ := (upholds_opening hm limits).of_error (hm.withArena hcap) hrun
    exact ⟨hf, n + 1, Nat.le_succ n, hm'⟩
  reset {n e op} hop hlt := by
    cases hop
    refine (Act.upholds_read _).bind fun ⟨epoch, bytes⟩ _ => ?_
    refine (Act.upholds_emit fun _ hm => hm).bind fun _ _ => ?_
    refine (Act.upholds_update fun m hm => hm.modify e.site fun _ => rfl).bind fun _ _ => ?_
    exact (upholds_build hlt).bind fun _ _ => .pure hlt

theorem hasRoom_initial : HasRoom 0 Host.initial := ⟨rfl, fun _ h => absurd h (Nat.not_lt_zero _)⟩

end Arenas

/-! ## Validation -/

theorem Config.validate_eq_ok_iff (c : Config) :
    c.validate = .ok () ↔ Closure.maxFootprint ≤ c.blockCapacity ∧ c.repeatCount ≠ 0 := by
  rw [validate]
  split
  · exact iff_of_false nofun fun h => absurd h.1 (Nat.not_le.2 ‹_›)
  · split
    · exact iff_of_false nofun fun h => h.2 ‹_›
    · exact iff_of_true rfl ⟨Nat.not_lt.1 ‹_›, ‹_›⟩

theorem Config.lt_of_validate {c : Config} {capacity required : Nat}
    (h : c.validate = .error (.blockTooSmall capacity required)) :
    c.blockCapacity < Closure.maxFootprint := by
  rw [validate] at h
  split at h
  · assumption
  · split at h <;> cases h

namespace Session

variable {W H : Type} [Host W H]

theorem upheld_start {I : Nat → W → Prop} (h : I 0 Host.initial) (filter : Log.Filter) :
    Upheld (fun m => I 0 m.store) (· < 0) (start filter : Session W H) :=
  ⟨h, fun _ hseat => absurd hseat (by simp [start])⟩

end Session

open Session

/-- Where each evaluator has blocks for the largest closures, no closure is too large. -/
theorem Session.not_isOversize_of_mem_faults {W H : Type} [Host W H] {I : Nat → W → Prop}
    {L : Limits → Prop} (hW : Host.Upholds (W := W) I (·.isOversize = false) L)
    (hI : I 0 Host.initial) (filter : Log.Filter) {turns : List (Nat × Command)}
    (hturns : ∀ turn ∈ turns, turn.2.Within L) {f : Fault}
    (hf : f ∈ faults ((start filter : Session W H).turnAnswers turns)) : f.isOversize = false :=
  (upheld_start hI filter).fault_of_mem_turnAnswers hW
    (fun n => Fault.evaluationAllowed_of_not_isOversize (I n)) hturns (mem_faults.1 hf)

/-- Applications that store closures of each size. -/
def Session.sizes : List Command :=
  [.int 0 "i", .builtin .succ "s", .builtin .zero "z", .apply "s" "z" "p", .apply "p" "z" "q"]

theorem Arenas.oversize_mem_faults {capacity : Nat} (hword : Closure.headerWord ≤ capacity)
    (hcap : capacity < Closure.maxFootprint) :
    .violation (.oversizeAllocation (if capacity < 16 then 16 else 24) capacity) ∈
      faults ((opened Arenas .off { blockCapacity := capacity }).answers sizes) := by
  have hall : ∀ capacity < 24, 8 ≤ capacity →
      .violation (.oversizeAllocation (if capacity < 16 then 16 else 24) capacity) ∈
        faults ((opened Arenas .off { blockCapacity := capacity }).answers sizes) := by
    decide +kernel
  exact hall capacity hcap hword

/-- What validation decides. If a configuration passes, no closure is too large in any run with it,
and evaluators can be opened on every store, with one exception: an arena cannot reserve a block of
half of all addresses. If a configuration fails for its blocks, then a closure is too large for an
arena with such blocks, as it is opened or in a run. -/
theorem validation_decides_room (c : Config) :
    (c.validate = .ok () →
      (∀ (filter : Log.Filter) (turns : List (Nat × Command)),
        (∀ turn ∈ turns, turn.2.Within fun limits => limits.blockCapacity = c.blockCapacity) →
        (∀ f ∈ faults ((start filter : Session Arenas ArenaRef).turnAnswers turns),
            f.isOversize = false) ∧
          (∀ f ∈ faults ((start filter : Session SharedHeap NodeRef).turnAnswers turns),
            f.isOversize = false) ∧
          ∀ f ∈ faults ((start filter : Session Pools PoolRef).turnAnswers turns),
            f.isOversize = false) ∧
      ∀ limits : Limits, limits.blockCapacity = c.blockCapacity →
        (∀ m : Machine SharedHeap, ∃ e m', Host.openWith limits m = .ok e m') ∧
        (∀ m : Machine Pools, ∃ e m', Host.openWith limits m = .ok e m') ∧
        ∀ m : Machine Arenas,
          if c.blockCapacity / Closure.headerWord * Arena.closureBytes < reservationBound then
            ∃ e m', Host.openWith limits m = .ok e m'
          else
            ∃ m', Host.openWith limits m = .error .capacityOverflow m') ∧
    ∀ capacity required, c.validate = .error (.blockTooSmall capacity required) →
      (∀ m : Machine Arenas, ∃ m', Host.openWith { blockCapacity := c.blockCapacity } m =
        .error (.violation (.oversizeAllocation Closure.headerWord c.blockCapacity)) m') ∨
      ∃ commands requested, (∀ command ∈ commands, command.isOperation = true) ∧
        .violation (.oversizeAllocation requested c.blockCapacity) ∈
          faults ((opened Arenas .off { blockCapacity := c.blockCapacity }).answers commands) := by
  constructor
  · intro hvalid
    obtain ⟨hcap, -⟩ := c.validate_eq_ok_iff.1 hvalid
    have hword : Closure.headerWord ≤ c.blockCapacity := Nat.le_trans (by decide) hcap
    constructor
    · intro filter turns hturns
      refine ⟨fun f hf => ?_, fun f hf => ?_, fun f hf => ?_⟩
      · refine not_isOversize_of_mem_faults Arenas.upholds Arenas.hasRoom_initial filter ?_ hf
        intro turn hturn limits hnew
        rw [hturns turn hturn limits hnew]
        exact hcap
      · exact not_isOversize_of_mem_faults (SharedHeap.upholds (I := fun _ => True)
          fun _ => trivial) trivial filter (fun _ _ _ _ => trivial) hf
      · exact not_isOversize_of_mem_faults (Pools.upholds (I := fun _ => True)
          fun _ => trivial) trivial filter (fun _ _ _ _ => trivial) hf
    · intro limits hlimits
      refine ⟨fun m => ⟨_, _, rfl⟩, fun m => ?_, fun m => ?_⟩
      · obtain ⟨t, m', hrun, -⟩ := Pools.exists_openPool limits m
        exact ⟨_, m', hrun⟩
      · rw [← hlimits] at hword ⊢
        split
        · exact Arenas.openArena_of_fits m hword ‹_›
        · exact Arenas.openArena_of_overflow m hword ‹_›
  · intro capacity required hsmall
    have hcap := Config.lt_of_validate hsmall
    by_cases hword : Closure.headerWord ≤ c.blockCapacity
    · exact .inr ⟨sizes, _, by decide, Arenas.oversize_mem_faults hword hcap⟩
    · exact .inl fun m => Arenas.openArena_of_oversize m (Nat.not_le.1 hword)

/-- Blocks of the size of the largest closures are enough for a power and for an application that
fails otherwise; with one byte less a closure does not fit. -/
theorem validation_decides_room_narrow :
    Config.validate { blockCapacity := 24 } = .ok () ∧
      (∀ f ∈ faults ((start .off : Session Arenas ArenaRef).turnAnswers
          [(0, .new { blockCapacity := 24 }), (0, .numeral 2 "n"), (0, .pow "n" "n"),
            (0, .int 5 "i"), (0, .apply "i" "n" "x")]), f.isOversize = false) ∧
      Config.validate { blockCapacity := 23 } = .error (.blockTooSmall 23 24) ∧
      ((∀ m : Machine Arenas, ∃ m', Host.openWith { blockCapacity := 23 } m =
          .error (.violation (.oversizeAllocation Closure.headerWord 23)) m') ∨
        ∃ commands requested, (∀ command ∈ commands, command.isOperation = true) ∧
          .violation (.oversizeAllocation requested 23) ∈
            faults ((opened Arenas .off { blockCapacity := 23 }).answers commands)) := by
  refine ⟨rfl, ?_, rfl, (validation_decides_room { blockCapacity := 23 }).2 23 24 rfl⟩
  refine (((validation_decides_room { blockCapacity := 24 }).1 rfl).1 .off _ ?_).1
  intro turn hturn limits hnew
  simp only [List.mem_cons, List.not_mem_nil, or_false] at hturn
  rcases hturn with rfl | rfl | rfl | rfl | rfl <;> cases hnew
  rfl

/-- The smallest blocks that pass validation although an arena cannot reserve one. -/
theorem validated_blocks_overflow :
    Config.validate { blockCapacity := 1844674407370955168 } = .ok () ∧
      ∀ m : Machine Arenas, ∃ m', Host.openWith { blockCapacity := 1844674407370955168 } m =
        .error .capacityOverflow m' :=
  ⟨rfl, fun m => Arenas.openArena_of_overflow m (by decide) (by decide)⟩

end ChurchStore
