import ChurchStore.Proofs.Balance
import ChurchStore.Proofs.Timeline
import ChurchStore.Proofs.Totals
import Mathlib.Data.List.Chain
import Mathlib.Order.Bounds.Basic

/-!
# How pools use space

A pool grows only when none of its slots is free, and never shrinks, so it has as many slots as
there ever were closures at once. Every allocation has either made the pool grow or used a free slot
again.
-/

namespace ChurchStore

open Session

theorem Cells.size_foldl_acquire (cs : Cells) (l : List Nat) :
    (l.foldl acquire cs).size = cs.size := by
  induction l generalizing cs with
  | nil => rfl
  | cons i l ih =>
    rw [List.foldl_cons, ih]
    exact Array.size_modify

/-- A cell for each position, in order. -/
theorem Cells.toList_eq_map (cs : Cells) :
    cs.toArray.toList = (List.range cs.size).map fun i => (cs.toArray[i]?).getD Cell.empty := by
  refine List.ext_getElem? fun i => ?_
  rw [List.getElem?_map, Array.getElem?_toList]
  by_cases hi : i < cs.size
  · rw [List.getElem?_range hi, Option.map_some, Array.getElem?_eq_getElem hi]
    rfl
  · rw [List.getElem?_eq_none (by rw [List.length_range]; omega), Option.map_none]
    exact Array.getElem?_eq_none (Nat.le_of_not_lt hi)

/-- Cells are occupied or hold nothing. -/
theorem Cells.size_eq_add (cs : Cells) : cs.size =
    cs.occupied + (List.range cs.size).countP fun i => cs.closure? i = none := by
  have hoccupied : cs.occupied = (List.range cs.size).countP fun i => (cs.closure? i).isSome := by
    rw [occupied, cs.toList_eq_map, List.countP_map]
    refine List.countP_congr fun i _ => ?_
    rw [Function.comp_apply, closure?, Cell.isOccupied]
    cases cs.toArray[i]? <;> rfl
  have hlength := List.length_eq_countP_add_countP (fun i => (cs.closure? i).isSome)
    (l := List.range cs.size)
  rw [List.length_range] at hlength
  rw [hoccupied]
  simpa using hlength

namespace Pool

/-- What the sizes and counters of a pool have to do with each other. -/
structure SpaceLaw (p : Pool) : Prop where
  slots_eq : p.stats.slots = p.free.length + p.ledger.live
  live_eq : p.ledger.live = p.cells.occupied
  /-- An allocation made the pool grow or used a free slot again. -/
  allocated_eq : p.stats.allocated = p.stats.slots + p.stats.reused
  freed_eq : p.stats.freed = p.free.length + p.stats.reused

variable {p q : Pool} {refs : Multiset Nat}

/-- The free slots are those that are not occupied. -/
theorem Sound.size_eq (h : p.Sound refs) : p.cells.size = p.cells.occupied + p.free.length := by
  have hperm :
      p.free.Perm ((List.range p.cells.size).filter fun i => p.cells.closure? i = none) := by
    refine (List.perm_ext_iff_of_nodup h.nodup (List.nodup_range.filter _)).2 fun i => ?_
    rw [h.mem_free, List.mem_filter, List.mem_range, decide_eq_true_eq]
  rw [hperm.length_eq, ← List.countP_eq_length_filter]
  exact p.cells.size_eq_add

theorem Sound.alloc_total (h : p.Sound refs) :
    p.ledger.alloc.total = p.ledger.free.total + p.cells.occupied := by
  rw [PerKind.total_eq_add h.alloc_eq, Cells.sum_census]

theorem Sound.spaceLaw (h : p.Sound refs)
    (halloc : p.ledger.alloc.total = p.cells.size + p.reused) : p.SpaceLaw := by
  have hsize := h.size_eq
  have htotal := h.alloc_total
  have hlive : p.ledger.live = p.cells.occupied := by
    rw [Ledger.live]
    omega
  have hallocated : p.stats.allocated = p.ledger.alloc.total := p.ledger.allocated_snapshot
  have hfreed : p.stats.freed = p.ledger.free.total := p.ledger.freed_snapshot
  constructor
  case slots_eq =>
    change p.cells.size = _
    omega
  case live_eq => exact hlive
  case allocated_eq => exact hallocated.trans halloc
  case freed_eq =>
    change _ = p.free.length + p.reused
    omega

/-- What a primitive operation makes of a pool: a closure is put into the next slot, or there are as
many slots and allocations as before. -/
inductive Turns (p : Pool) : Pool → Prop
  | insert (c : Closure Nat) : Turns p (p.insert c)
  | keep {q : Pool} : q.cells.size = p.cells.size → q.reused = p.reused →
    q.ledger.alloc = p.ledger.alloc → Turns p q

theorem Turns.rfl : p.Turns p := .keep (Eq.refl _) (Eq.refl _) (Eq.refl _)

/-- A pool never shrinks. If it grows then no slot was free, and none is. -/
theorem Turns.size_cases (h : p.Turns q) : q.cells.size = p.cells.size ∨
    p.free = [] ∧ q.cells.size = p.cells.size + 1 ∧ q.free = [] := by
  cases h with
  | insert c =>
    cases hfree : p.free with
    | nil =>
      right
      simp only [Pool.insert, hfree, Cells.size_push]
      exact ⟨trivial, trivial, trivial⟩
    | cons slot rest =>
      left
      simp only [Pool.insert, hfree, Cells.size_put]
  | keep hsize _ _ => exact .inl hsize

theorem Turns.alloc_total (h : p.Turns q) (hp : p.ledger.alloc.total = p.cells.size + p.reused) :
    q.ledger.alloc.total = q.cells.size + q.reused := by
  cases h with
  | insert c =>
    cases hfree : p.free with
    | nil =>
      simp only [Pool.insert, hfree, Ledger.total_recordAlloc, Cells.size_push, hp]
      omega
    | cons slot rest =>
      simp only [Pool.insert, hfree, Ledger.total_recordAlloc, Cells.size_put, hp]
      omega
  | keep hsize hreused halloc => rw [halloc, hsize, hreused, hp]

/-- A pool keeps its slots, or it gets one more because all of them are occupied. -/
def GrowsWhenFull (p q : Pool) : Prop :=
  q.stats.slots = p.stats.slots ∨
    p.ledger.live = p.stats.slots ∧ q.stats.slots = p.stats.slots + 1

theorem Turns.growsWhenFull (h : p.Turns q) (hp : p.SpaceLaw) : p.GrowsWhenFull q := by
  rcases h.size_cases with heq | ⟨hfree, heq, -⟩
  · exact .inl heq
  · have hslots := hp.slots_eq
    rw [hfree, List.length_nil, Nat.zero_add] at hslots
    exact .inr ⟨hslots.symm, heq⟩

/-- Pools each of which has turned into the one before it in the list. -/
def History (ps : List Pool) : Prop := ps.IsChain fun q p => p.Turns q

/-- A pool without free slots in the beginning has as many slots as there ever were closures at
once: by induction on its history, the latest growth of which left no slot free. -/
theorem History.isGreatest {before : List Pool} (h : History (p :: before))
    (hsize : ∀ q ∈ p :: before, q.cells.size = q.cells.occupied + q.free.length)
    (hfirst : ∀ q, (p :: before).getLast? = some q → q.free = []) :
    IsGreatest {n | ∃ q ∈ p :: before, n = q.cells.occupied} p.cells.size := by
  have hp := hsize p (List.mem_cons_self ..)
  induction before generalizing p with
  | nil =>
    have hfree := hfirst p rfl
    rw [hfree, List.length_nil, Nat.add_zero] at hp
    refine ⟨⟨p, List.mem_cons_self .., hp⟩, ?_⟩
    rintro n ⟨q, hq, rfl⟩
    obtain rfl := List.mem_singleton.1 hq
    exact hp.ge
  | cons q before ih =>
    obtain ⟨hturns, hrest⟩ := List.isChain_cons_cons.1 h
    obtain ⟨⟨r, hr, hmax⟩, hupper⟩ := ih hrest (fun r hr => hsize r (List.mem_cons_of_mem p hr))
      (fun r hr => hfirst r (by rwa [List.getLast?_cons_cons])) (hsize q (by simp))
    have hbound (n : Nat) (hn : ∃ r ∈ p :: q :: before, n = r.cells.occupied)
        (hle : q.cells.size ≤ p.cells.size) : n ≤ p.cells.size := by
      obtain ⟨r, hr, rfl⟩ := hn
      rcases List.mem_cons.1 hr with rfl | hr
      · omega
      · exact (hupper ⟨r, hr, rfl⟩).trans hle
    rcases hturns.size_cases with heq | ⟨-, hsucc, hnone⟩
    · rw [heq]
      exact ⟨⟨r, List.mem_cons_of_mem p hr, hmax⟩, fun n hn => heq ▸ hbound n hn heq.ge⟩
    · rw [hnone, List.length_nil, Nat.add_zero] at hp
      exact ⟨⟨p, List.mem_cons_self .., hp⟩, fun n hn => hbound n hn (by omega)⟩

theorem History.alloc_total {before : List Pool} (h : History (p :: before))
    (hfirst : ∀ q, (p :: before).getLast? = some q →
      q.ledger.alloc.total = q.cells.size + q.reused) :
    ∀ q ∈ p :: before, q.ledger.alloc.total = q.cells.size + q.reused := by
  induction before generalizing p with
  | nil =>
    intro q hq
    obtain rfl := List.mem_singleton.1 hq
    exact hfirst q rfl
  | cons q before ih =>
    obtain ⟨hturns, hrest⟩ := List.isChain_cons_cons.1 h
    have hbefore := ih hrest fun r hr => hfirst r (by rwa [List.getLast?_cons_cons])
    intro r hr
    rcases List.mem_cons.1 hr with rfl | hr
    · exact hturns.alloc_total (hbefore q (List.mem_cons_self ..))
    · exact hbefore r hr

/-- The space law along the history of a pool that began without free slots. -/
theorem History.obeys {before : List Pool} (h : History (p :: before))
    (hsound : ∀ q ∈ p :: before, ∃ refs, q.Sound refs)
    (hfirst : ∀ q, (p :: before).getLast? = some q →
      q.free = [] ∧ q.ledger.alloc.total = q.cells.size + q.reused) :
    (∀ q ∈ p :: before, q.SpaceLaw) ∧
      IsGreatest {n | ∃ q ∈ p :: before, n = q.ledger.live} p.stats.slots ∧
      (p :: before).IsChain fun q p => p.GrowsWhenFull q := by
  have hlaw (q : Pool) (hq : q ∈ p :: before) : q.SpaceLaw := by
    obtain ⟨refs, hq'⟩ := hsound q hq
    exact hq'.spaceLaw (h.alloc_total (fun q hq => (hfirst q hq).2) q hq)
  refine ⟨hlaw, ?_, List.IsChain.imp_of_mem_imp (fun q p _ hp hturns => ?_) h⟩
  · have hlive : {n | ∃ q ∈ p :: before, n = q.ledger.live} =
        {n | ∃ q ∈ p :: before, n = q.cells.occupied} :=
      Set.ext fun n => exists_congr fun q => and_congr_right fun hq => by
        rw [(hlaw q hq).live_eq]
    rw [hlive]
    exact h.isGreatest (fun q hq => (hsound q hq).choose_spec.size_eq) fun q hq => (hfirst q hq).1
  · exact hturns.growsWhenFull (hlaw p hp)

end Pool

namespace Pools

variable {site : Site} {held : Multiset PoolRef} {m : Machine Pools}

theorem turns_modify {w : Pools} {f : Pool → Pool} (hs : site < w.toArray.size)
    (hf : (w.pool site).Turns (f (w.pool site))) :
    (w.pool site).Turns ((w.modify site f).pool site) := by
  rw [pool_modify hs]
  exact hf

/-- Every primitive operation on held handles lets a pool turn into what it leaves. -/
theorem turns_leaves (hw : Sound site m.store held) {deed : Deed PoolRef}
    (hd : (deed.handles : Multiset PoolRef) ≤ held) :
    (m.store.pool site).Turns ((deed.leaves site m).pool site) := by
  have hmem (h : PoolRef) (hh : h ∈ deed.handles) : h ∈ held :=
    Multiset.mem_of_le hd (Multiset.mem_coe.2 hh)
  cases deed with
  | alloc c =>
    change (m.store.pool site).Turns (((alloc site c).leaves m).pool site)
    obtain ⟨lent, rfl⟩ := Multiset.le_iff_exists_add.1 hd
    obtain ⟨m', hrun, hstore⟩ := Sound.exists_alloc (c := c) hw
    rw [Act.leaves_of_ok hrun, hstore]
    exact turns_modify hw.lt_size (.insert _)
  | resolve h =>
    change (m.store.pool site).Turns (((resolve site h).leaves m).pool site)
    obtain ⟨x, -, hrun⟩ := hw.exists_resolve (hmem h (List.mem_cons_self ..))
    rw [Act.leaves_of_ok hrun]
    refine turns_modify hw.lt_size ?_
    rw [Pool.foldl_acquire]
    exact .keep (Cells.size_foldl_acquire ..) rfl rfl
  | retain h =>
    change (m.store.pool site).Turns ((retain h m.store).pool site)
    rw [retain, hw.pool_eq h (hmem h (List.mem_cons_self ..))]
    exact turns_modify hw.lt_size (.keep Array.size_modify rfl rfl)
  | release h =>
    have hh := hmem h (List.mem_cons_self ..)
    change (m.store.pool site).Turns ((release h m.store).pool site)
    rw [release, hw.pool_eq h hh]
    refine turns_modify hw.lt_size ?_
    have hpool := hw.pool
    rw [← Multiset.cons_erase (Multiset.mem_map_of_mem (·.slot) hh)] at hpool
    obtain ⟨-, hfree⟩ := hpool.cells.release
    simp only [Pool.release, Pool.foldl_reclaim]
    exact .keep hfree.size_eq rfl (Ledger.alloc_recordFreed ..)
  | describe h =>
    obtain ⟨p, hrun⟩ := hw.describe (hmem h (List.mem_cons_self ..))
    change (m.store.pool site).Turns (((describe h).leaves m).pool site)
    rw [Act.leaves_of_ok hrun]
    exact .rfl

variable {b : Nat} {hb : Backend.handleBytes Pools = b} {resets : List Nat}

theorem sound_of_upheld {m : Moment Pools PoolRef}
    (h : Recorded.Upheld ((representation site).simulation hb resets) m) :
    Sound site m.store m.held ∧ (m.deed.handles : Multiset PoolRef) ≤ m.held := by
  obtain ⟨g, held, ⟨-, known, tree, hm⟩, hheld, hhandles⟩ := h
  exact ⟨hheld ▸ hm.sound, hhandles⟩

/-- Opening an evaluator fills the first slots of a new pool, and frees none. -/
theorem pool_opened (filter : Log.Filter) (limits : Limits) :
    let p := (opened Pools filter limits).machine.store.pool 0
    p.free = [] ∧ p.ledger.alloc.total = p.cells.size + p.reused := by
  intro p
  have hempty : p.free = [] := rfl
  have hfreed : p.ledger.free = .const 0 := rfl
  have hreused : p.reused = 0 := rfl
  have hsound : ∃ refs, p.Sound refs := by
    obtain ⟨e, hpaired⟩ := (opens limits).paired filter
      (Grove.openGrove_of_fits (b := 16) (m := ⟨Host.initial, { filter }⟩) limits rfl rfl)
    obtain ⟨-, -, hsound, -⟩ := Representation.exists_depicts hpaired
    exact ⟨_, hsound.pool⟩
  clear_value p
  obtain ⟨refs, hsound⟩ := hsound
  have hsize := hsound.size_eq
  have htotal := hsound.alloc_total
  rw [hempty, List.length_nil] at hsize
  rw [hfreed, PerKind.total_const_zero, Nat.zero_add] at htotal
  rw [hreused, hsize, htotal]
  exact ⟨hempty, rfl⟩

/-- The pool of a run has turned from moment to moment into what it is. -/
theorem history (filter : Log.Filter) (limits : Limits) {commands : List Command}
    (hc : ∀ command ∈ commands, command.isOperation = true) :
    let s := opened Pools filter limits
    let s' := s.after commands
    let past := ((opened (Recorded Pools PoolRef) filter limits).after commands).machine.store.past
    let pools := s'.machine.store.pool 0 :: past.map (·.store.pool 0)
    Recorded.Linked 0 s.machine.store s'.machine.store past ∧ Pool.History pools ∧
      (∀ p ∈ pools, ∃ refs, p.Sound refs) ∧ pools.getLast? = some (s.machine.store.pool 0) := by
  have hopens := opens limits
  have hgrove := Grove.openGrove_of_fits (b := 16) (m := ⟨Host.initial, { filter }⟩) limits rfl rfl
  intro s s' past pools
  obtain ⟨hstore, -, hpast⟩ := Recorded.of_opens hopens (quiet 0) filter hgrove hc
  have hlinked : Recorded.Linked 0 s.machine.store s'.machine.store past := by
    have hnone : ∀ command ∈ ([] : List Command), command.isOperation = true := by simp
    obtain ⟨hopened, -⟩ := Recorded.of_opens hopens (quiet 0) filter hgrove hnone
    have h := Recorded.linked_after (H := PoolRef) hopens filter hgrove hc
    simp only [Session.after, List.foldl_nil] at hopened
    simp only [hopened, hstore] at h
    exact h
  have hpools : pools = (s'.machine.store :: past.map (·.store)).map (·.pool 0) := by
    rw [List.map_cons, List.map_map]
    rfl
  refine ⟨hlinked, ?_, fun p hp => ?_, ?_⟩
  · rw [hpools]
    refine (List.isChain_map _).2 (hlinked.isChain fun m hm journal => ?_)
    obtain ⟨hsound, hhandles⟩ := sound_of_upheld (hpast m hm)
    exact turns_leaves (m := ⟨m.store, journal⟩) hsound hhandles
  · rcases List.mem_cons.1 hp with rfl | hp
    · obtain ⟨e, hpaired⟩ := hopens.paired filter hgrove
      obtain ⟨⟨c, hafter⟩, -⟩ := hpaired.after commands hc
      obtain ⟨-, -, hsound, -⟩ := Representation.exists_depicts hafter
      exact ⟨_, hsound.pool⟩
    · obtain ⟨m, hm, rfl⟩ := List.mem_map.1 hp
      exact ⟨_, (sound_of_upheld (hpast m hm)).1.pool⟩
  · rw [hpools, List.getLast?_map, hlinked.getLast?, Option.map_some]

end Pools

/-- The space law of pools. After every run of operations, refused ones and such that stop with a
fault included, and at every moment within the run, as a recorded run shows, the slots of the pool
are the free ones and those of the live closures, and each allocation has either made the pool grow
or used a free slot again. There are as many slots as there were closures at once at some moment,
and never were there more: from one moment to the next the pool does not shrink, and it grows only
where every slot is occupied. -/
theorem pools_obey_space_law (filter : Log.Filter) (limits : Limits) (commands : List Command)
    (hc : ∀ command ∈ commands, command.isOperation = true) :
    let s := opened Pools filter limits
    let s' := s.after commands
    let past := ((opened (Recorded Pools PoolRef) filter limits).after commands).machine.store.past
    let pools := s'.machine.store.pool 0 :: past.map (·.store.pool 0)
    Recorded.Linked 0 s.machine.store s'.machine.store past ∧ (∀ p ∈ pools, p.SpaceLaw) ∧
      IsGreatest {n | ∃ p ∈ pools, n = p.ledger.live} (s'.machine.store.pool 0).stats.slots ∧
      pools.IsChain fun q p => p.GrowsWhenFull q := by
  intro s s' past pools
  obtain ⟨hlinked, hhistory, hsound, hlast⟩ := Pools.history filter limits hc
  have hfirst (q : Pool) (hq : pools.getLast? = some q) :
      q.free = [] ∧ q.ledger.alloc.total = q.cells.size + q.reused := by
    obtain rfl := Option.some.inj (hq.symm.trans hlast)
    exact Pools.pool_opened filter limits
  exact ⟨hlinked, Pool.History.obeys hhistory hsound hfirst⟩

/-- A run that uses slots again, and in which an integer is taken for a function. -/
theorem pools_obey_space_law_reusing :
    let commands : List Command := [.numeral 2 "n", .apply "n" "n" "f", .drop "n", .int 7 "i",
      .apply "i" "f" "g", .toInt "f", .drop "f"]
    let s := opened Pools .off {}
    let s' := s.after commands
    let past := ((opened (Recorded Pools PoolRef) .off {}).after commands).machine.store.past
    let pools := s'.machine.store.pool 0 :: past.map (·.store.pool 0)
    Recorded.Linked 0 s.machine.store s'.machine.store past ∧ (∀ p ∈ pools, p.SpaceLaw) ∧
      IsGreatest {n | ∃ p ∈ pools, n = p.ledger.live} (s'.machine.store.pool 0).stats.slots ∧
      pools.IsChain fun q p => p.GrowsWhenFull q :=
  pools_obey_space_law .off {} [.numeral 2 "n", .apply "n" "n" "f", .drop "n", .int 7 "i",
    .apply "i" "f" "g", .toInt "f", .drop "f"] (by decide)

end ChurchStore
