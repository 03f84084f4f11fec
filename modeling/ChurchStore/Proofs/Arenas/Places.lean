import ChurchStore.Arena
import ChurchStore.Proofs.Ledger
import ChurchStore.Proofs.Modify
import Mathlib.Tactic.ByContra

/-!
# Places of closures

Where an allocation puts a closure, and what else it changes: in its arena the new place comes after
all others, and no other arena changes. An allocation that is not answered changes nothing, and
neither does looking at a closure.
-/

namespace ChurchStore

namespace Arena

variable {a : Arena} {head : Block} {c : Closure ArenaRef}

theorem closure?_addBlock (a : Arena) (block slot : Nat) :
    a.addBlock.closure? block slot = a.closure? block slot := by
  rw [closure?, addBlock, Array.getElem?_push]
  split
  · subst_vars
    rw [closure?, Array.getElem?_eq_none (Nat.le_refl _)]
    rfl
  · rfl

/-- The arena whose last block has room for this many bytes. -/
def withRoom (a : Arena) (size : Nat) : Arena := if a.hasRoom size then a else a.addBlock

theorem closure?_withRoom (a : Arena) (size block slot : Nat) :
    (a.withRoom size).closure? block slot = a.closure? block slot := by
  unfold withRoom
  split
  · rfl
  · exact closure?_addBlock a block slot

theorem exists_back?_withRoom (a : Arena) (size : Nat) :
    ∃ head, (a.withRoom size).blocks.back? = some head := by
  unfold withRoom
  split
  · rename_i hroom
    unfold hasRoom at hroom
    cases hback : a.blocks.back? with
    | some head => exact ⟨head, rfl⟩
    | none => simp [hback] at hroom
  · exact ⟨{}, by simp [addBlock]⟩

theorem nextRef_of_back? (site : Site) (h : a.blocks.back? = some head) :
    a.nextRef site = ⟨site, a.epoch, a.blocks.size - 1, head.closures.size⟩ := by
  rw [nextRef, h]
  rfl

theorem closure?_place (h : a.blocks.back? = some head) (c : Closure ArenaRef)
    (block slot : Nat) : (a.place c).closure? block slot =
      if block = a.blocks.size - 1 ∧ slot = head.closures.size then some c
      else a.closure? block slot := by
  rw [Array.back?] at h
  rw [closure?, place]
  simp only [Array.getElem?_modify]
  by_cases hblock : a.blocks.size - 1 = block
  · subst hblock
    rw [closure?, if_pos rfl, h, Option.map_some, Option.bind_some, Option.bind_some,
      Array.getElem?_push]
    simp
  · rw [if_neg hblock, if_neg fun hb => hblock hb.1.symm, closure?]

end Arena

theorem Closure.footprint_pos {H : Type} (c : Closure H) : 0 < c.footprint := by
  have h : ∀ k ∈ Kind.all, 0 < k.footprint := by decide
  exact h c.kind (Kind.mem_all _)

/-- The place of the first handle comes before that of the second one. -/
def ArenaRef.Before (h k : ArenaRef) : Prop :=
  h.block < k.block ∨ h.block = k.block ∧ h.slot < k.slot

/-- Closures come before the place that the next one goes to. -/
theorem Arena.before_last {a : Arena} {head : Block} {block slot : Nat} {c : Closure ArenaRef}
    (hback : a.blocks.back? = some head) (h : a.closure? block slot = some c) :
    block < a.blocks.size - 1 ∨ block = a.blocks.size - 1 ∧ slot < head.closures.size := by
  obtain ⟨b, hb, hc⟩ := Option.bind_eq_some_iff.1 h
  obtain ⟨hlt, -⟩ := Array.getElem?_eq_some_iff.1 hb
  by_cases hlast : block = a.blocks.size - 1
  · rw [Array.back?, ← hlast, hb] at hback
    cases hback
    obtain ⟨hslot, -⟩ := Array.getElem?_eq_some_iff.1 hc
    exact .inr ⟨hlast, hslot⟩
  · exact .inl (by omega)

namespace Arenas

variable {w : Arenas} {site : Site} {capacity : Nat} {f : Arena → Arena} {h : ArenaRef}

theorem arena_modify (hs : site < w.toArray.size) (f : Arena → Arena) :
    (w.modify site f).arena site = f (w.arena site) :=
  Modify.getD_modify hs f _

theorem size_modify (w : Arenas) (site : Site) (f : Arena → Arena) :
    (w.modify site f).toArray.size = w.toArray.size := by
  simp [modify]

theorem modify_modify (w : Arenas) (site : Site) (f g : Arena → Arena) :
    (w.modify site f).modify site g = w.modify site fun a => g (f a) :=
  congrArg mk (Modify.modify_modify ..)

theorem modify_congr {g : Arena → Arena} (h : f (w.arena site) = g (w.arena site)) :
    w.modify site f = w.modify site g := by
  refine congrArg mk (Modify.modify_congr fun a ha => ?_)
  rwa [arena, ha, Option.getD_some] at h

/-- A block that can be reserved is logged. -/
theorem grow_of_reservation {m : Machine Arenas}
    (h : (m.store.arena site).blockReservation < reservationBound) :
    grow site m = .ok () ⟨m.store.modify site Arena.addBlock, m.journal.record
      (.blockAllocated ((m.store.arena site).blocks.size + 1) (m.store.arena site).bytes)⟩ := by
  simp only [grow, Bind.bind, EStateM.bind, Act.read, if_pos h]
  rfl

/-- A closure is stored in a block that has room for it, which is a new one if the last one has
none. -/
theorem alloc_of_fits {m : Machine Arenas} {c : Closure ArenaRef}
    (hs : site < m.store.toArray.size) (hfits : c.footprint ≤ (m.store.arena site).capacity)
    (hroom : (m.store.arena site).hasRoom c.footprint = true ∨
      (m.store.arena site).blockReservation < reservationBound) :
    ∃ m', alloc site c m = .ok (((m.store.arena site).withRoom c.footprint).nextRef site) m' ∧
      m'.store = m.store.modify site fun a => (a.withRoom c.footprint).place c := by
  have hcap : ¬ (m.store.arena site).capacity < c.footprint := Nat.not_lt.2 hfits
  cases h : (m.store.arena site).hasRoom c.footprint with
  | true =>
    have hwith : (m.store.arena site).withRoom c.footprint = m.store.arena site := by
      rw [Arena.withRoom, if_pos h]
    refine ⟨⟨m.store.modify site (·.place c), m.journal⟩, ?_, ?_⟩
    · simp only [alloc, Bind.bind, EStateM.bind, Act.read, if_neg hcap, h, hwith]
      rfl
    · exact modify_congr (by rw [hwith])
  | false =>
    have hres := hroom.resolve_left (by rw [h]; exact Bool.false_ne_true)
    have hwith : (m.store.arena site).withRoom c.footprint = (m.store.arena site).addBlock := by
      rw [Arena.withRoom, h, if_neg Bool.false_ne_true]
    refine ⟨⟨(m.store.modify site Arena.addBlock).modify site (·.place c), m.journal.record
      (.blockAllocated ((m.store.arena site).blocks.size + 1) (m.store.arena site).bytes)⟩, ?_, ?_⟩
    · simp only [alloc, Bind.bind, EStateM.bind, Act.read, if_neg hcap, h, hwith,
        Bool.false_eq_true, if_false, grow_of_reservation hres, arena_modify hs, Act.update]
      rfl
    · rw [modify_modify]
      exact modify_congr (by rw [hwith])

theorem alloc_of_oversize {m : Machine Arenas} {c : Closure ArenaRef}
    (h : (m.store.arena site).capacity < c.footprint) :
    ∃ j, alloc site c m = .error (.violation (.oversizeAllocation c.footprint
      (m.store.arena site).capacity)) ⟨m.store, j⟩ := by
  simp only [alloc, Bind.bind, EStateM.bind, Act.read, if_pos h, Act.violate]
  exact ⟨_, rfl⟩

/-- A new block that is needed cannot be reserved. -/
theorem alloc_of_overflow {m : Machine Arenas} {c : Closure ArenaRef}
    (hfits : c.footprint ≤ (m.store.arena site).capacity)
    (hroom : (m.store.arena site).hasRoom c.footprint = false)
    (hres : ¬ (m.store.arena site).blockReservation < reservationBound) :
    alloc site c m = .error .capacityOverflow m := by
  have hgrow : grow site m = .error .capacityOverflow m := by
    simp only [grow, Bind.bind, EStateM.bind, Act.read, if_neg hres]
    rfl
  simp only [alloc, Bind.bind, EStateM.bind, Act.read, if_neg (Nat.not_lt.2 hfits), hroom,
    Bool.false_eq_true, if_false, hgrow]

theorem resolve_of_foreign (hh : h.arena ≠ site) (m : Machine Arenas) :
    ∃ j, resolve site h m = .error (.violation (.foreignHandle .arena)) ⟨m.store, j⟩ := by
  rw [resolve, if_pos hh]
  exact ⟨_, rfl⟩

theorem resolve_of_stale {m : Machine Arenas} (hh : h.arena = site)
    (he : h.epoch ≠ (m.store.arena site).epoch) :
    ∃ j, resolve site h m =
      .error (.violation (.staleHandle h.epoch (m.store.arena site).epoch)) ⟨m.store, j⟩ := by
  rw [resolve, if_neg (not_not_intro hh)]
  simp only [Bind.bind, EStateM.bind, Act.read, if_pos he, Act.violate]
  exact ⟨_, rfl⟩

theorem resolve_of_current {m : Machine Arenas} {c : Closure ArenaRef} (hh : h.arena = site)
    (he : h.epoch = (m.store.arena site).epoch)
    (hc : (m.store.arena site).closure? h.block h.slot = some c) :
    resolve site h m = .ok c m := by
  rw [resolve, if_neg (not_not_intro hh)]
  simp only [Bind.bind, EStateM.bind, Act.read, if_neg (not_not_intro he), hc]
  rfl

theorem resolve_of_dangling {m : Machine Arenas} (hh : h.arena = site)
    (he : h.epoch = (m.store.arena site).epoch)
    (hc : (m.store.arena site).closure? h.block h.slot = none) :
    ∃ k, resolve site h m =
      .error (.violation (.danglingHandle h.block h.slot)) ⟨m.store, k⟩ := by
  rw [resolve, if_neg (not_not_intro hh)]
  simp only [Bind.bind, EStateM.bind, Act.read, if_neg (not_not_intro he), hc, Act.violate]
  exact ⟨_, rfl⟩

/-- Looking at a closure changes nothing. -/
theorem resolve_cases (site : Site) (h : ArenaRef) (m : Machine Arenas) :
    (∃ c, resolve site h m = .ok c m ∧ (m.store.arena site).closure? h.block h.slot = some c) ∨
      ∃ f j, resolve site h m = .error f ⟨m.store, j⟩ := by
  by_cases ha : h.arena = site
  · by_cases he : h.epoch = (m.store.arena site).epoch
    · cases hc : (m.store.arena site).closure? h.block h.slot with
      | some c => exact .inl ⟨c, resolve_of_current ha he hc, rfl⟩
      | none =>
        right
        rw [resolve, if_neg (not_not_intro ha)]
        simp only [Bind.bind, EStateM.bind, Act.read, if_neg (not_not_intro he), hc, Act.violate]
        exact ⟨_, _, rfl⟩
    · exact .inr ⟨_, resolve_of_stale ha he⟩
  · exact .inr ⟨_, resolve_of_foreign ha m⟩

theorem arena_modify_of_ne {w : Arenas} {site site' : Site} (h : site ≠ site')
    (f : Arena → Arena) : (w.modify site f).arena site' = w.arena site' := by
  rw [arena, modify, Array.getElem?_modify, if_neg h]
  rfl

theorem arena_of_size_le {w : Arenas} {site : Site} (h : w.toArray.size ≤ site) :
    w.arena site = { capacity := 0 } := by
  rw [arena, Array.getElem?_eq_none h]
  rfl

/-- Whether an arena can store a closure of this size. -/
def CanHold (w : Arenas) (site : Site) (size : Nat) : Prop :=
  site < w.toArray.size ∧ size ≤ (w.arena site).capacity ∧
    ((w.arena site).hasRoom size = true ∨ (w.arena site).blockReservation < reservationBound)

/-- An allocation that is not answered changes nothing. -/
theorem alloc_of_not_canHold {site : Site} {c : Closure ArenaRef} {m : Machine Arenas}
    (h : ¬ CanHold m.store site c.footprint) :
    ∃ f j, alloc site c m = .error f ⟨m.store, j⟩ := by
  by_cases hcap : (m.store.arena site).capacity < c.footprint
  · obtain ⟨j, hrun⟩ := alloc_of_oversize hcap
    exact ⟨_, j, hrun⟩
  have hlt : site < m.store.toArray.size := by
    by_contra hge
    rw [arena_of_size_le (Nat.le_of_not_lt hge)] at hcap
    exact hcap c.footprint_pos
  have hroom : ¬ ((m.store.arena site).hasRoom c.footprint = true ∨
      (m.store.arena site).blockReservation < reservationBound) :=
    fun hroom => h ⟨hlt, Nat.not_lt.1 hcap, hroom⟩
  obtain ⟨hroom, hres⟩ := not_or.1 hroom
  exact ⟨_, _, alloc_of_overflow (Nat.not_lt.1 hcap) (by simpa using hroom) hres⟩

/-- What an allocation changes: the closure is behind the handle now, whose place comes after those
of all closures of the arena. -/
structure Places (w w' : Arenas) (site : Site) (c : Closure ArenaRef) (h : ArenaRef) : Prop where
  lt_size : site < w.toArray.size
  size_eq : w'.toArray.size = w.toArray.size
  arena_eq : h.arena = site
  epoch_eq : h.epoch = (w.arena site).epoch
  epoch_kept (site' : Site) : (w'.arena site').epoch = (w.arena site').epoch
  capacity_kept (site' : Site) : (w'.arena site').capacity = (w.arena site').capacity
  ledger_eq : (w'.arena site).ledger = (w.arena site).ledger.recordAlloc c.kind
  closure?_eq (block slot : Nat) : (w'.arena site).closure? block slot =
    if block = h.block ∧ slot = h.slot then some c else (w.arena site).closure? block slot
  before {block slot : Nat} {x : Closure ArenaRef} : (w.arena site).closure? block slot = some x →
    block < h.block ∨ block = h.block ∧ slot < h.slot
  arena_of_ne {site' : Site} : site ≠ site' → w'.arena site' = w.arena site'

theorem places_of_alloc {site : Site} {c : Closure ArenaRef} {h : ArenaRef}
    {m m' : Machine Arenas} (hrun : alloc site c m = .ok h m') :
    Places m.store m'.store site c h := by
  obtain ⟨hlt, hfits, hroom⟩ : CanHold m.store site c.footprint := by
    by_contra hnot
    obtain ⟨f, j, herror⟩ := alloc_of_not_canHold hnot
    rw [herror] at hrun
    cases hrun
  obtain ⟨n, hok, hstore⟩ := alloc_of_fits hlt hfits hroom
  rw [hok] at hrun
  cases hrun
  obtain ⟨head, hback⟩ := (m.store.arena site).exists_back?_withRoom c.footprint
  have hwith : ((m.store.arena site).withRoom c.footprint).epoch = (m.store.arena site).epoch ∧
      ((m.store.arena site).withRoom c.footprint).capacity = (m.store.arena site).capacity := by
    rw [Arena.withRoom]
    split <;> exact ⟨rfl, rfl⟩
  have harena : m'.store.arena site = ((m.store.arena site).withRoom c.footprint).place c := by
    rw [hstore, arena_modify hlt]
  have hother {site' : Site} (hne : site ≠ site') : m'.store.arena site' = m.store.arena site' := by
    rw [hstore, arena_modify_of_ne hne]
  have hkept (site' : Site) : (m'.store.arena site').epoch = (m.store.arena site').epoch ∧
      (m'.store.arena site').capacity = (m.store.arena site').capacity := by
    by_cases hsite : site = site'
    · subst hsite
      rw [harena]
      exact hwith
    · rw [hother hsite]
      exact ⟨rfl, rfl⟩
  rw [Arena.nextRef_of_back? site hback]
  constructor
  case lt_size => exact hlt
  case size_eq => rw [hstore, size_modify]
  case arena_eq => rfl
  case epoch_eq => exact hwith.1
  case epoch_kept => exact fun site' => (hkept site').1
  case capacity_kept => exact fun site' => (hkept site').2
  case ledger_eq =>
    rw [harena, Arena.withRoom]
    split <;> rfl
  case closure?_eq =>
    intro block slot
    rw [harena, Arena.closure?_place hback, Arena.closure?_withRoom]
  case before =>
    intro block slot x hx
    rw [← Arena.closure?_withRoom _ c.footprint] at hx
    exact Arena.before_last hback hx
  case arena_of_ne => exact hother

end Arenas

end ChurchStore
