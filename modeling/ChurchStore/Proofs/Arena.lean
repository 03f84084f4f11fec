import ChurchStore.Proofs.Arenas.Places
import ChurchStore.Proofs.Representation

/-!
# Arenas represent groves

An arena only grows within an epoch: a new closure goes behind the last one, and no closure that
was stored before changes. A reset loses all closures at once, after which every handle that was
issued before is stale; only after as many resets as there are epochs would one of them be taken
for a handle of the present epoch again.
-/

namespace ChurchStore

namespace Arenas

variable {w : Arenas} {site : Site} {capacity : Nat} {h : ArenaRef}

/-- A handle of this arena is stale, or there is a closure behind it. -/
def Valid (site : Site) (w : Arenas) (h : ArenaRef) : Prop :=
  h.arena = site ∧
    (h.epoch = (w.arena site).epoch → ((w.arena site).closure? h.block h.slot).isSome)

/-- The handles that are held and those that closures capture are valid, blocks can be reserved, and
nothing was counted as freed. -/
structure Sound (site : Site) (capacity : Nat) (w : Arenas) (held : Multiset ArenaRef) : Prop where
  lt_size : site < w.toArray.size
  capacity_eq : (w.arena site).capacity = capacity
  reservation_lt : capacity / Closure.headerWord * Arena.closureBytes < reservationBound
  valid_of_mem : ∀ h ∈ held, Valid site w h
  valid_of_captured {block slot : Nat} {c : Closure ArenaRef} :
    (w.arena site).closure? block slot = some c → ∀ h ∈ c.captures, Valid site w h
  free_eq (k : Kind) : (w.arena site).ledger.free.get k = 0

/-- The closures of the present epoch of one arena. -/
def view (site : Site) (capacity : Nat) : View Arenas ArenaRef where
  site := site
  capacity := some capacity
  look w h :=
    if h.arena = site ∧ h.epoch = (w.arena site).epoch then
      (w.arena site).closure? h.block h.slot
    else none
  epoch h := h.epoch
  now w := (w.arena site).epoch
  allocated w k := (w.arena site).ledger.alloc.get k

theorem look_eq_some {c : Closure ArenaRef} (hc : (view site capacity).look w h = some c) :
    (h.arena = site ∧ h.epoch = (w.arena site).epoch) ∧
      (w.arena site).closure? h.block h.slot = some c := by
  simp only [view] at hc
  split at hc
  · exact ⟨‹_›, hc⟩
  · cases hc

theorem look_of_current (ha : h.arena = site) (he : h.epoch = (w.arena site).epoch) :
    (view site capacity).look w h = (w.arena site).closure? h.block h.slot := by
  simp only [view]
  rw [if_pos ⟨ha, he⟩]

namespace Places

variable {w' : Arenas} {site' : Site} {c x : Closure ArenaRef} {a k : ArenaRef}

theorem look_self (hp : Places w w' site c a) : (view site capacity).look w' a = some c := by
  rw [look_of_current hp.arena_eq (hp.epoch_eq.trans (hp.epoch_kept site).symm), hp.closure?_eq,
    if_pos ⟨rfl, rfl⟩]

/-- Closures stay where they are. -/
theorem look_kept (hp : Places w w' site c a) (hx : (view site' capacity).look w k = some x) :
    (view site' capacity).look w' k = some x := by
  obtain ⟨⟨ha, he⟩, hx⟩ := look_eq_some hx
  rw [look_of_current ha (he.trans (hp.epoch_kept site').symm)]
  by_cases hsite : site = site'
  · subst hsite
    have hbefore := hp.before hx
    rw [hp.closure?_eq, if_neg (by omega), hx]
  · rw [hp.arena_of_ne hsite, hx]

/-- What can be seen is extended by the new closure. -/
theorem extends_view (hp : Places w w' site c a) :
    (view site capacity).Extends w w' a c where
  fresh := by
    rw [Option.eq_none_iff_forall_ne_some]
    intro x hx
    have hbefore := hp.before (look_eq_some hx).2
    omega
  epoch_eq := hp.epoch_eq
  look_eq {k x} hx := by
    obtain ⟨⟨ha, he⟩, hx⟩ := look_eq_some hx
    rw [hp.closure?_eq] at hx
    split at hx
    · rename_i hplace
      cases hx
      refine .inl ⟨?_, rfl⟩
      obtain ⟨arena, epoch, block, slot⟩ := k
      obtain ⟨rfl, rfl⟩ := hplace
      obtain rfl : arena = a.arena := ha.trans hp.arena_eq.symm
      obtain rfl : epoch = a.epoch := he.trans ((hp.epoch_kept site).trans hp.epoch_eq.symm)
      rfl
    · exact .inr (by rw [look_of_current ha (he.trans (hp.epoch_kept site)), hx])
  now_eq := hp.epoch_kept site
  allocated_eq k := by
    simp only [view]
    rw [hp.ledger_eq, Ledger.alloc_get_recordAlloc]

/-- What was valid stays so. -/
theorem valid (hp : Places w w' site c a) (hk : Valid site w k) : Valid site w' k := by
  refine ⟨hk.1, fun he => ?_⟩
  rw [hp.epoch_kept] at he
  rw [hp.closure?_eq]
  split
  · rfl
  · exact hk.2 he

end Places

namespace Sound

variable {held : Multiset ArenaRef} {m : Machine Arenas} {c : Closure ArenaRef}

/-- Handles may be forgotten and duplicated. -/
theorem of_subset {held' : Multiset ArenaRef} (hw : Sound site capacity w held)
    (hsub : held' ⊆ held) : Sound site capacity w held' :=
  { hw with valid_of_mem := fun h hh => hw.valid_of_mem h (hsub hh) }

/-- An arena stays in order when a closure over held handles is stored, whose handle is held
then. -/
theorem store {a : ArenaRef} {w' : Arenas} (hw : Sound site capacity w (c.captures + held))
    (hp : Places w w' site c a) : Sound site capacity w' (a ::ₘ held) where
  lt_size := by
    rw [hp.size_eq]
    exact hw.lt_size
  capacity_eq := (hp.capacity_kept site).trans hw.capacity_eq
  reservation_lt := hw.reservation_lt
  valid_of_mem h hh := by
    rcases Multiset.mem_cons.1 hh with rfl | hh
    · refine ⟨hp.arena_eq, fun _ => ?_⟩
      rw [hp.closure?_eq, if_pos ⟨rfl, rfl⟩]
      rfl
    · exact hp.valid (hw.valid_of_mem h (Multiset.mem_add.2 (.inr hh)))
  valid_of_captured {block slot x} hx h hh := by
    rw [hp.closure?_eq] at hx
    split at hx
    · cases hx
      exact hp.valid (hw.valid_of_mem h (Multiset.mem_add.2 (.inl hh)))
    · exact hp.valid (hw.valid_of_captured hx h hh)
  free_eq k := by
    rw [hp.ledger_eq]
    exact hw.free_eq k

/-- A closure that fits is stored after the others. -/
theorem alloc (hw : Sound site capacity m.store (c.captures + held))
    (hfits : c.footprint ≤ capacity) :
    ∃ a m', Arenas.alloc site c m = .ok a m' ∧ Sound site capacity m'.store (a ::ₘ held) ∧
      (view site capacity).Extends m.store m'.store a c := by
  have hres : (m.store.arena site).blockReservation < reservationBound := by
    rw [Arena.blockReservation, hw.capacity_eq]
    exact hw.reservation_lt
  obtain ⟨m', hrun, -⟩ := alloc_of_fits hw.lt_size (by rwa [hw.capacity_eq]) (.inr hres)
  have hp := places_of_alloc hrun
  exact ⟨_, m', hrun, hw.store hp, hp.extends_view⟩

theorem alloc_oversize (hw : Sound site capacity m.store (c.captures + held))
    (hfits : capacity < c.footprint) :
    ∃ j, Arenas.alloc site c m =
      .error (.violation (.oversizeAllocation c.footprint capacity)) ⟨m.store, j⟩ := by
  rw [← hw.capacity_eq] at hfits ⊢
  exact alloc_of_oversize hfits

theorem resolve_current (hw : Sound site capacity m.store held) (hh : h ∈ held)
    (he : h.epoch = (m.store.arena site).epoch) :
    ∃ c, Arenas.resolve site h m = .ok c m ∧ (view site capacity).look m.store h = some c := by
  obtain ⟨ha, hsome⟩ := hw.valid_of_mem h hh
  obtain ⟨c, hc⟩ := Option.isSome_iff_exists.1 (hsome he)
  exact ⟨c, resolve_of_current ha he hc, by rw [look_of_current ha he, hc]⟩

theorem resolve_stale (hw : Sound site capacity m.store held) (hh : h ∈ held)
    (he : h.epoch ≠ (m.store.arena site).epoch) :
    ∃ j, Arenas.resolve site h m =
      .error (.violation (.staleHandle h.epoch (m.store.arena site).epoch)) ⟨m.store, j⟩ :=
  resolve_of_stale (hw.valid_of_mem h hh).1 he

end Sound

/-- Arenas keep the laws of a store that represents a grove. -/
def representation (site : Site) (capacity : Nat) : Representation Arenas where
  toView := view site capacity
  Sound := Sound site capacity
  look_of_mem hw hh he := by
    obtain ⟨ha, hsome⟩ := hw.valid_of_mem _ hh
    rw [look_of_current ha he]
    exact hsome he
  look_of_captured hw hc hx he := by
    obtain ⟨-, hc⟩ := look_eq_some hc
    obtain ⟨ha, hsome⟩ := hw.valid_of_captured hc _ hx
    rw [look_of_current ha he]
    exact hsome he
  epoch_of_look _ hc := (look_eq_some hc).1.2
  retain hw hh := by
    refine ⟨hw.of_subset fun x hx => ?_, .rfl⟩
    rcases Multiset.mem_cons.1 hx with rfl | hx
    · exact hh
    · exact hx
  release hw := ⟨hw.of_subset (Multiset.subset_cons _ _), .rfl⟩
  alloc_fits {m c lent} hw hsize := by
    refine hw.alloc ?_
    have hlt := Option.filter_eq_none_iff.1 hsize capacity rfl
    simpa using hlt
  alloc_oversize {m c lent size} hw hsize := by
    obtain ⟨hcap, hlt⟩ := Option.filter_eq_some_iff.1 hsize
    cases hcap
    obtain ⟨j, hrun⟩ := hw.alloc_oversize (of_decide_eq_true hlt)
    exact ⟨_, hrun, hw.of_subset (Multiset.subset_of_le (Multiset.le_add_left _ _)), .rfl⟩
  resolve_current {m held h} hw hh he := by
    obtain ⟨c, hrun, hlook⟩ := hw.resolve_current hh he
    refine ⟨c, m, hrun, hlook, ?_, .rfl⟩
    obtain ⟨-, hc⟩ := look_eq_some hlook
    refine { hw with valid_of_mem := fun x hx => ?_ }
    rcases Multiset.mem_add.1 hx with hx | hx
    · exact hw.valid_of_captured hc x hx
    · exact hw.valid_of_mem x hx
  resolve_stale hw hh he := by
    obtain ⟨j, hrun⟩ := hw.resolve_stale hh he
    exact ⟨_, hrun, hw, .rfl⟩
  same_iff := beq_iff_eq
  describe hw _ := ⟨_, _, rfl, hw, .rfl⟩

/-- A cleared arena is in order as long as no handle of its new epoch is held. -/
theorem Sound.clear {held : Multiset ArenaRef} (hw : Sound site capacity w held)
    (hstale : ∀ h ∈ held, h.epoch ≠ (w.arena site).epoch + 1) :
    Sound site capacity (w.modify site Arena.cleared) held := by
  have harena := arena_modify hw.lt_size Arena.cleared
  constructor
  case lt_size =>
    rw [size_modify]
    exact hw.lt_size
  case capacity_eq =>
    rw [harena]
    exact hw.capacity_eq
  case reservation_lt => exact hw.reservation_lt
  case valid_of_mem =>
    intro h hh
    refine ⟨(hw.valid_of_mem h hh).1, fun he => ?_⟩
    rw [harena] at he
    exact absurd he (hstale h hh)
  case valid_of_captured =>
    intro block slot c hc
    rw [harena] at hc
    cases hc
  case free_eq =>
    intro k
    rw [harena]
    exact PerKind.get_const ..

theorem look_cleared (hs : site < w.toArray.size) (h : ArenaRef) :
    (view site capacity).look (w.modify site Arena.cleared) h = none := by
  rw [Option.eq_none_iff_forall_ne_some]
  intro c hc
  obtain ⟨-, hc⟩ := look_eq_some hc
  rw [arena_modify hs] at hc
  cases hc

/-- A reset loses all closures, and makes every handle stale that was issued before, as long as
there have not been as many resets as there are epochs. -/
theorem represents_clear {b : Nat} {g : Grove b} {held : Multiset (ArenaRef × Tree)}
    {resets : List Nat} (h : (representation site capacity).Represents resets w g held)
    (hlt : resets.length + 1 < UInt32.size) :
    (representation site capacity).Represents (g.made.length :: resets)
      (w.modify site Arena.cleared) g.nextEpoch held := by
  obtain ⟨rfl, known, tree, hm⟩ := h
  have hs := hm.sound.lt_size
  have harena := arena_modify hs Arena.cleared
  have hnow : (w.arena site).epoch + 1 = UInt32.ofNat (g.resets.length + 1) := by
    have heq : (w.arena site).epoch = UInt32.ofNat g.resets.length := hm.now_eq
    rw [heq, UInt32.ofNat_add]
    rfl
  have hstale {x : ArenaRef} (hx : known x) : x.epoch ≠ (w.arena site).epoch + 1 := by
    rw [hnow]
    exact hm.epoch_ne_next hx hlt
  refine ⟨rfl, known, tree, ?_⟩
  constructor
  case sound =>
    refine hm.sound.clear fun x hx => ?_
    obtain ⟨p, hp, rfl⟩ := Multiset.mem_map.1 hx
    exact hstale (hm.of_mem hp).1
  case of_mem => exact hm.of_mem
  case of_look =>
    intro x c hc
    cases (look_cleared hs x).symm.trans hc
  case look_isSome =>
    intro x hx he
    change x.epoch = ((w.modify site Arena.cleared).arena site).epoch at he
    rw [harena] at he
    exact absurd he (hstale hx)
  case number_injective => exact hm.number_injective
  case kindOf_eq => exact hm.kindOf_eq
  case epoch_eq =>
    intro x hx
    rw [Grove.epochOf_nextEpoch (hm.number_lt hx)]
    exact hm.epoch_eq hx
  case now_eq =>
    change ((w.modify site Arena.cleared).arena site).epoch = _
    rw [harena, Grove.nextEpoch, List.length_cons, ← hnow]
    rfl
  case resets_lt => exact hlt
  case resets_le =>
    intro r hr
    rcases List.mem_cons.1 hr with rfl | hr
    · exact Nat.le_refl _
    · exact hm.resets_le r hr
  case capacity_eq => exact hm.capacity_eq
  case allocated_eq =>
    intro k
    change ((w.modify site Arena.cleared).arena site).ledger.alloc.get k = _
    rw [harena, Grove.recent_nextEpoch]
    exact PerKind.get_const ..

end Arenas

end ChurchStore
