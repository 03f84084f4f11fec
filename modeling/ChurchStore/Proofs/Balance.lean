import ChurchStore.Proofs.Agreement
import ChurchStore.Proofs.Cells.Orderly
import ChurchStore.Proofs.Record
import Mathlib.Logic.Relation

/-!
# Balanced pools

The counts of a pool are right after every operation, and at every moment within an operation: no
count is ever decremented below zero, no slot is emptied while something refers to it, and none is
read after it has been emptied.
-/

namespace ChurchStore

open Session

/-- One cell captures another one. -/
def Cells.Captures (cs : Cells) (i j : Nat) : Prop := ∃ c, cs.closure? i = some c ∧ j ∈ c.captures

/-- Captures that lead down along a measure do not lead back. -/
theorem Cells.not_transGen_captures {cs : Cells} (height : Nat → Nat)
    (h : ∀ i j, cs.Captures i j → height j < height i) (i : Nat) :
    ¬ Relation.TransGen cs.Captures i i := by
  have hlt {j : Nat} (hj : Relation.TransGen cs.Captures i j) : height j < height i := by
    induction hj with
    | single hstep => exact h _ _ hstep
    | tail _ hstep ih => exact Nat.lt_trans (h _ _ hstep) ih
  intro hcircle
  exact Nat.lt_irrefl _ (hlt hcircle)

namespace Pool

/-- The counts of a pool are right while the handles are those for the slots of `refs`. -/
structure Balanced (p : Pool) (refs : Multiset Nat) : Prop where
  /-- A slot counts the handles for it and the captures in occupied slots. -/
  owners_eq (i : Nat) : p.cells.owners i = refs.count i + p.cells.captured.count i
  closure?_eq_none_iff {i : Nat} : i < p.cells.size →
    (p.cells.closure? i = none ↔ p.cells.owners i = 0)
  mem_free_iff (i : Nat) : i ∈ p.free ↔ i < p.cells.size ∧ p.cells.owners i = 0
  nodup_free : p.free.Nodup
  of_captures {i j : Nat} : p.cells.Captures i j →
    j < p.cells.size ∧ (p.cells.closure? j).isSome
  acyclic (i : Nat) : ¬ Relation.TransGen p.cells.Captures i i

/-- A slot is there and has an owner. -/
def Owned (p : Pool) (i : Nat) : Prop := i < p.cells.size ∧ 0 < p.cells.owners i

/-- A capture can be adopted: a reference is added and another one released in an orderly way,
after which the pool is as it was. -/
def Adopts (p : Pool) (refs : Multiset Nat) (i : Nat) : Prop :=
  p.Owned i ∧ (p.acquire i).cells.Orderly refs [i] ∧ (p.acquire i).release i = p

/-- What a pool and the slots of the held handles have to be like for a primitive operation. Slots
that are read or counted up are owned; the next slot to be filled is empty, and nothing refers to
it; and what is released is released in an orderly way. -/
def Safe (p : Pool) (refs : Multiset Nat) : Deed Nat → Prop
  | .alloc c => (∀ i ∈ c.captures, p.Adopts refs i) ∧ p.cells.closure? p.nextSlot = none ∧
    p.nextSlot ∉ refs ∧ p.nextSlot ∉ p.cells.captured
  | .resolve i => p.Owned i ∧ ∃ c, p.cells.closure? i = some c ∧ ∀ j ∈ c.captures, p.Owned j
  | .retain i | .describe i => p.Owned i
  | .release i => p.cells.Orderly (refs.erase i) [i]

namespace Sound

variable {p : Pool} {refs : Multiset Nat} {i : Nat} {c : Closure Nat}

theorem owned_of_pos (hi : 0 < p.cells.owners i) : p.Owned i := by
  refine ⟨?_, hi⟩
  by_contra hge
  rw [Cells.owners_of_size_le (Nat.le_of_not_lt hge)] at hi
  omega

theorem owned_of_mem (h : p.Sound refs) (hi : i ∈ refs) : p.Owned i :=
  owned_of_pos (h.cells.owners_pos_of_mem hi)

/-- Nothing refers to a slot without a closure. -/
theorem notMem_of_none (h : p.Sound refs) (hi : p.cells.closure? i = none) :
    i ∉ refs ∧ i ∉ p.cells.captured := by
  have hzero := (h.cells.closure?_eq_none_iff i).1 hi
  rw [h.cells.owners_eq] at hzero
  constructor
  · exact Multiset.count_eq_zero.1 (by omega)
  · exact List.count_eq_zero.1 (by omega)

theorem adopts (h : p.Sound refs) (hi : i ∈ refs) : p.Adopts refs i := by
  have howned := h.owned_of_mem hi
  obtain ⟨c, hc⟩ := Option.isSome_iff_exists.1 (h.cells.isSome_of_mem hi)
  refine ⟨howned, Cells.Sound.orderly [i] ?_, Pool.release_acquire hc howned.2⟩
  rw [Multiset.coe_singleton, Multiset.singleton_add]
  exact (h.acquire howned.2).1.cells

/-- Every operation on held handles finds the pool as it has to be. -/
theorem safe (h : p.Sound refs) {deed : Deed Nat} (hd : (deed.handles : Multiset Nat) ≤ refs) :
    p.Safe refs deed := by
  have hmem (i : Nat) (hi : i ∈ deed.handles) : i ∈ refs :=
    Multiset.mem_of_le hd (Multiset.mem_coe.2 hi)
  cases deed with
  | alloc c =>
    have hnone := h.closure?_nextSlot
    exact ⟨fun i hi => h.adopts (hmem i hi), hnone, h.notMem_of_none hnone⟩
  | resolve i =>
    have hi := h.owned_of_mem (hmem i (List.mem_cons_self ..))
    obtain ⟨c, hc⟩ := Option.isSome_iff_exists.1 ((h.cells.isSome_iff i).2 hi.2)
    exact ⟨hi, c, hc, fun j hj => owned_of_pos (h.cells.owners_pos_of_captured hc hj)⟩
  | retain i | describe i => exact h.owned_of_mem (hmem i (List.mem_cons_self ..))
  | release i =>
    have hi := hmem i (List.mem_cons_self ..)
    refine Cells.Sound.orderly [i] ?_
    rw [Multiset.coe_singleton, Multiset.singleton_add, Multiset.cons_erase hi]
    exact h.cells

/-- Sound pools in which captures lead down are balanced. -/
theorem balanced (h : p.Sound refs) (height : Nat → Nat)
    (hheight : ∀ i j, p.cells.Captures i j → height j < height i) : p.Balanced refs where
  owners_eq := h.cells.owners_eq
  closure?_eq_none_iff _ := h.cells.closure?_eq_none_iff _
  mem_free_iff i := by rw [h.mem_free, h.cells.closure?_eq_none_iff]
  nodup_free := h.nodup
  of_captures := by
    intro i j ⟨c, hc, hj⟩
    have hpos := h.cells.owners_pos_of_captured hc hj
    exact ⟨(owned_of_pos hpos).1, (h.cells.isSome_iff j).2 hpos⟩
  acyclic := Cells.not_transGen_captures height hheight

end Sound

end Pool

namespace Pools

theorem quiet_adopt (site : Site) (h : PoolRef) : (adopt site h).Quiet := by
  refine (Act.Quiet.read _).bind fun size => ?_
  by_cases hlt : h.slot < size
  · simp only [if_pos hlt]
    exact (Act.Quiet.update _).bind fun _ => .pure _
  · simp only [if_neg hlt]
    exact (Act.Quiet.update _).bind fun _ => .throw _

theorem quiet_adoptCaptures (site : Site) (c : Closure PoolRef) : (adoptCaptures site c).Quiet := by
  cases c with
  | zero | zeroInner | succ | intLiteral | inc => exact .pure _
  | succPartial n => exact (quiet_adopt site n).bind fun _ => .pure _
  | succInner n s =>
    refine (Act.Quiet.onFault _ (quiet_adopt site n)).bind fun _ => ?_
    exact (quiet_adopt site s).bind fun _ => .pure _

theorem quiet_alloc (site : Site) (c : Closure PoolRef) : (alloc site c).Quiet := by
  refine (quiet_adoptCaptures site c).bind fun x => ?_
  refine (Act.Quiet.read _).bind fun ⟨slot, isReused⟩ => (Act.Quiet.update _).bind fun _ => ?_
  cases isReused with
  | true => exact (Act.Quiet.emit _).bind fun _ => .pure _
  | false => exact .pure _

theorem quiet_resolve (site : Site) (h : PoolRef) : (resolve site h).Quiet := by
  unfold resolve
  by_cases hp : h.pool = site
  · simp only [hp, ne_eq, not_true, if_false]
    refine (Act.Quiet.read _).bind fun o => ?_
    cases o with
    | none => exact .violate _
    | some c => exact (Act.Quiet.update _).bind fun _ => .pure _
  · simp only [hp, ne_eq, not_false_eq_true, if_true]
    exact .violate _

theorem quiet_describe (h : PoolRef) : (describe h).Quiet := by
  refine (Act.Quiet.read _).bind fun o => ?_
  cases o with
  | none => exact .violate _
  | some c => exact (Act.Quiet.read _).bind fun _ => .pure _

theorem quiet_openPool (limits : Limits) : (openPool limits).Quiet := by
  refine (Act.Quiet.read _).bind fun site => (Act.Quiet.update _).bind fun _ => ?_
  refine Act.Quiet.bind ?_ fun _ => .pure _
  refine (quiet_alloc site _).bind fun _ => (quiet_alloc site _).bind fun _ => ?_
  exact (quiet_alloc site _).bind fun _ => (quiet_alloc site _).bind fun _ => .pure _

/-- Nothing in a pool depends on the log. -/
theorem quiet (site : Site) : Host.Quiet Pools site :=
  ⟨quiet_alloc site, quiet_resolve site, quiet_describe, quiet_openPool⟩

/-- All held handles are for slots of one pool, and its counts are right. -/
def Balanced (site : Site) (w : Pools) (held : Multiset PoolRef) : Prop :=
  (∀ h ∈ held, h.pool = site) ∧ (w.pool site).Balanced (held.map (·.slot))

/-- A primitive operation on the slots of one pool finds it balanced and as it has to be. -/
def Orderly (site : Site) (m : Moment Pools PoolRef) : Prop :=
  Balanced site m.store m.held ∧
    (m.store.pool site).Safe (m.held.map (·.slot)) (m.deed.map (·.slot))

variable {b : Nat} {site : Site} {resets : List Nat}

/-- Captures lead down, because the slots stand for trees. -/
theorem balanced_of_represents {w : Pools} {g : Grove b} {held : Multiset (PoolRef × Tree)}
    (h : (representation site).Represents resets w g held) :
    Balanced site w (held.map Prod.fst) := by
  obtain ⟨-, known, tree, hm⟩ := h
  refine ⟨hm.sound.pool_eq, hm.sound.pool.balanced (fun i => (tree ⟨site, i⟩).height) ?_⟩
  intro i j ⟨c, hc, hj⟩
  have hlook : (representation site).look w ⟨site, i⟩ = some (c.map (⟨site, ·⟩)) := by
    change (if site = site then _ else _) = _
    rw [if_pos rfl, hc]
    rfl
  refine Tree.height_lt_of_closure_eq (hm.of_look hlook).2.1 ?_
  rw [Closure.captures_map]
  exact List.mem_map_of_mem hj

theorem orderly_of_upheld {hb : Backend.handleBytes Pools = b} {m : Moment Pools PoolRef}
    (h : Recorded.Upheld ((representation site).simulation hb resets) m) : Orderly site m := by
  obtain ⟨g, held, hrel, hheld, hhandles⟩ := h
  have hbalanced := balanced_of_represents hrel
  obtain ⟨-, known, tree, hm⟩ := hrel
  have hsound := hm.sound.pool
  rw [← hheld] at hbalanced hsound
  refine ⟨hbalanced, hsound.safe ?_⟩
  have hmap : ((m.deed.map (·.slot)).handles : Multiset Nat) =
      (m.deed.handles : Multiset PoolRef).map (·.slot) := by
    cases m.deed <;> simp [Deed.map, Deed.handles]
  rw [hmap]
  exact Multiset.map_le_map hhandles

/-- A pool refuses nothing by itself. -/
theorem not_faulty (f : Fault) : ¬ (representation site).Faulty f := by
  intro h
  cases h with
  | oversize hsize => cases hsize
  | stale hstale => exact hstale rfl

end Pools

/-- After every run of operations, refused ones and such that stop with a fault included, and
wherever in the run the evaluator is ended, the counts of its pool are right. Faults are raised by
evaluation only, never because of a slot. And all that the pool was asked to do on the way, as a
recorded run shows, found it in order. -/
theorem pools_stay_balanced (filter : Log.Filter) (limits : Limits) (commands : List Command)
    (hc : ∀ command ∈ commands, command.isOperation = true) :
    let s := (opened Pools filter limits).after commands
    let t := (opened (Recorded Pools PoolRef) filter limits).after commands
    Pools.Balanced 0 s.machine.store s.handles ∧
      (∀ f, .error (.fault f) ∈ (opened Pools filter limits).answers commands →
        f.isEvaluation = true) ∧
      t.machine.store.store = s.machine.store ∧ t.machine.store.held = s.handles ∧
      ∀ m ∈ t.machine.store.past, Pools.Orderly 0 m := by
  have hopens := Pools.opens limits
  have hgrove := Grove.openGrove_of_fits (b := 16) (m := ⟨Host.initial, { filter }⟩) limits rfl rfl
  obtain ⟨e, hpaired⟩ := hopens.paired filter hgrove
  obtain ⟨⟨c, hafter⟩, -, hrefusals⟩ := hpaired.after commands hc
  obtain ⟨l, hs, -, hl⟩ := hafter.exists_handles
  obtain ⟨hstore, hheld, hpast⟩ := Recorded.of_opens hopens (Pools.quiet 0) filter hgrove hc
  refine ⟨?_, fun f hf => ?_, hstore, hheld, fun m hm => Pools.orderly_of_upheld (hpast m hm)⟩
  · have hholds := hafter.holds
    rw [Multiset.zero_add, hl] at hholds
    have hbalanced := Pools.balanced_of_represents hholds
    rwa [Multiset.map_coe, ← hs] at hbalanced
  · rcases hrefusals _ hf with heval | hfaulty
    · exact heval
    · exact absurd hfaulty (Pools.not_faulty f)

/-- A run in which a slot is captured twice, the evaluator is ended, and a slot is used again. -/
theorem pools_stay_balanced_reusing :
    let commands : List Command := [.numeral 1 "n", .alloc (.succInner "n" "n") "p", .drop "n",
      .toInt "p", .int 7 "i", .drop "p", .int 8 "j", .close]
    let s := (opened Pools .off {}).after commands
    let t := (opened (Recorded Pools PoolRef) .off {}).after commands
    Pools.Balanced 0 s.machine.store s.handles ∧
      (∀ f, .error (.fault f) ∈ (opened Pools .off {}).answers commands → f.isEvaluation = true) ∧
      t.machine.store.store = s.machine.store ∧ t.machine.store.held = s.handles ∧
      ∀ m ∈ t.machine.store.past, Pools.Orderly 0 m :=
  pools_stay_balanced .off {} [.numeral 1 "n", .alloc (.succInner "n" "n") "p", .drop "n",
    .toInt "p", .int 7 "i", .drop "p", .int 8 "j", .close] (by decide)

end ChurchStore
