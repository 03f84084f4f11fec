import ChurchStore.Proofs.Cells.Mask
import ChurchStore.Proofs.Mask
import ChurchStore.Proofs.Pools.Tidy

/-!
# Masked pools

A mask over the slots of one pool. As long as only handles of this pool are used that are not
hidden, each operation does the same with the pool and with what the mask leaves of it.
-/

namespace ChurchStore

namespace Pool

/-- The pool with a mask over its slots, and counters that are raised accordingly. -/
def mask (hidden : Nat → Bool) (more : Ledger) (p : Pool) : Pool :=
  { p with cells := p.cells.mask hidden, ledger := more.raise p.ledger }

variable {hidden : Nat → Bool} {more : Ledger} {p : Pool} {refs : Multiset Nat} {i : Nat}

theorem nextSlot_mask (hidden : Nat → Bool) (more : Ledger) (p : Pool) :
    (p.mask hidden more).nextSlot = p.nextSlot := by
  rw [nextSlot, nextSlot, mask, Cells.size_mask]

theorem mask_foldl_acquire (h : (p.mask hidden more).Sound refs) (l : List Nat)
    (hl : ∀ i ∈ l, hidden i = false ∧ 0 < (p.cells.mask hidden).owners i) :
    (l.foldl acquire p).mask hidden more = l.foldl acquire (p.mask hidden more) := by
  rw [foldl_acquire, foldl_acquire, mask, Cells.mask_foldl_acquire h.cells l hl]
  rfl

theorem mask_acquire (h : (p.mask hidden more).Sound refs) (hi : hidden i = false)
    (hpos : 0 < (p.cells.mask hidden).owners i) :
    (p.acquire i).mask hidden more = (p.mask hidden more).acquire i := by
  refine mask_foldl_acquire h [i] fun j hj => ?_
  rw [List.mem_singleton.1 hj]
  exact ⟨hi, hpos⟩

theorem mask_release (h : (p.mask hidden more).Sound (i ::ₘ refs)) (hi : hidden i = false)
    (hcaptured : p.cells.Discloses hidden) :
    (p.release i).mask hidden more = (p.mask hidden more).release i := by
  have hcells := Cells.release_mask h.cells hi hcaptured
  simp only [release, foldl_reclaim, mask] at hcells ⊢
  rw [hcells, Ledger.raise_recordFreed]

theorem mask_insert (hi : hidden p.nextSlot = false) (c : Closure Nat) :
    (p.insert c).mask hidden more = (p.mask hidden more).insert c := by
  unfold nextSlot at hi
  unfold insert mask
  cases hfree : p.free with
  | nil =>
    rw [hfree, List.headD_nil] at hi
    simp only [Cells.mask_push hi, Ledger.raise_recordAlloc]
    rfl
  | cons slot rest =>
    rw [hfree, List.headD_cons] at hi
    simp only [Cells.mask_put hi, Ledger.raise_recordAlloc]
    rfl

end Pool

namespace Pools

/-- A mask over some slots of one pool, and over all others. -/
def mask (site : Site) (hidden : Nat → Bool) (more : Ledger) (others : Multiset PoolRef) :
    Mask Pools PoolRef where
  hidden h := h.pool != site || hidden h.slot
  cover w := w.modify site (Pool.mask hidden more)
  others := others
  Fits w := site < w.toArray.size

variable {site : Site} {hidden : Nat → Bool} {more : Ledger} {others : Multiset PoolRef}
  {w : Pools} {m : Machine Pools} {held : Multiset PoolRef} {h : PoolRef}

theorem hidden_mask_eq_false :
    (mask site hidden more others).hidden h = false ↔ h.pool = site ∧ hidden h.slot = false := by
  simp [mask]

section Covered

variable (hs : (mask site hidden more others).Sound (representation site) w held)

include hs

theorem pool_cover :
    ((mask site hidden more others).cover w).pool site = (w.pool site).mask hidden more :=
  pool_modify hs.fits _

theorem sound_mask : ((w.pool site).mask hidden more).Sound ((held + others).map (·.slot)) := by
  rw [← pool_cover hs]
  exact hs.sound.pool

theorem cover_modify {f : Pool → Pool}
    (hf : (f (w.pool site)).mask hidden more = f ((w.pool site).mask hidden more)) :
    (mask site hidden more others).Fits (w.modify site f) ∧
      (mask site hidden more others).cover (w.modify site f) =
        ((mask site hidden more others).cover w).modify site f := by
  constructor
  · change site < (w.modify site f).toArray.size
    rw [size_modify]
    exact hs.fits
  · simp only [mask]
    rw [modify_modify, modify_modify]
    exact modify_congr hf

/-- Slots of held handles are as they seem, and have an owner. -/
theorem shown_of_held (hh : h ∈ held) : h.pool = site ∧ hidden h.slot = false ∧
    0 < ((w.pool site).cells.mask hidden).owners h.slot := by
  obtain ⟨hp, hi⟩ := hidden_mask_eq_false.1 (hs.shown_of_mem hh)
  exact ⟨hp, hi, (sound_mask hs).cells.owners_pos_of_mem
    (Multiset.mem_map_of_mem _ (Multiset.mem_add.2 (.inl hh)))⟩

theorem discloses : (w.pool site).cells.Discloses hidden := by
  intro j hj
  obtain ⟨i, c, hc, hjc⟩ := Cells.mem_captured.1 hj
  have hlook : (view site).look ((mask site hidden more others).cover w) ⟨site, i⟩ =
      some (c.map (⟨site, ·⟩)) := by
    simp only [view]
    rw [if_true, pool_cover hs]
    exact congrArg (Option.map _) hc
  refine (hidden_mask_eq_false.1 (hs.shown_of_captured (x := ⟨site, j⟩) hlook ?_)).2
  rw [Closure.captures_map]
  exact List.mem_map_of_mem hjc

/-- A hidden slot is never used again. -/
theorem hidden_nextSlot (hothers : ∀ i, hidden i = true → ⟨site, i⟩ ∈ others) :
    hidden (w.pool site).nextSlot = false := by
  by_contra hne
  have hmem := hothers _ (by simpa using hne)
  have hsome := (sound_mask hs).cells.isSome_of_mem
    (Multiset.mem_map_of_mem (·.slot) (Multiset.mem_add.2 (.inr hmem)))
  have hnone := (sound_mask hs).closure?_nextSlot
  rw [Pool.nextSlot_mask] at hnone
  rw [hnone] at hsome
  cases hsome

end Covered

/-- The captures of a new closure are owned, and its slot is not hidden. -/
theorem cover_alloc {c : Closure PoolRef} {a : PoolRef} {n : Machine Pools}
    (hothers : ∀ i, hidden i = true → ⟨site, i⟩ ∈ others)
    (hs : (mask site hidden more others).Sound (representation site) m.store (c.captures + held))
    (hrun : alloc site c ⟨(mask site hidden more others).cover m.store, m.journal⟩ = .ok a n) :
    (mask site hidden more others).hidden a = false ∧ ∃ m', alloc site c m = .ok a m' ∧
      (mask site hidden more others).Fits m'.store ∧
      (mask site hidden more others).cover m'.store = n.store := by
  have hsound := hs.sound
  rw [Multiset.add_assoc] at hsound
  obtain ⟨n', hok, hstore⟩ := Sound.exists_alloc (m := ⟨_, m.journal⟩) hsound
  cases hok.symm.trans hrun
  have hslot := hidden_nextSlot hs hothers
  have hadopt := adoptCaptures_of_adopt fun h hh => by
    have hmem : h ∈ (c.captures : Multiset PoolRef) + held := Multiset.mem_add.2 (.inl hh)
    obtain ⟨hp, hi, hpos⟩ := shown_of_held hs hmem
    obtain ⟨k, x, hcell, -⟩ := (sound_mask hs).cells.exists_unmasked hi hpos
    refine adopt_of_closure? hp (Cells.closure?_eq hcell) ?_
    rw [Cells.owners_eq hcell]
    exact Nat.succ_pos k
  obtain ⟨m', hrun', hstore'⟩ := alloc_of_adoptCaptures hadopt
  have hnext : (((mask site hidden more others).cover m.store).pool site).nextSlot =
      (m.store.pool site).nextSlot := by
    rw [pool_cover hs, Pool.nextSlot_mask]
  obtain ⟨hfits, hcover⟩ := cover_modify hs
    (f := (·.insert (c.map (·.slot)))) (Pool.mask_insert hslot _)
  refine ⟨hidden_mask_eq_false.2 ⟨rfl, by rwa [hnext]⟩, m', ?_, ?_, ?_⟩
  · rw [hnext]
    exact hrun'
  · rw [hstore']
    exact hfits
  · rw [hstore', hcover, hstore]

/-- Owners are added to the captures of a closure that is not hidden, which are not hidden
either. -/
theorem cover_resolve {c : Closure PoolRef} {n : Machine Pools}
    (hs : (mask site hidden more others).Sound (representation site) m.store held) (hh : h ∈ held)
    (hrun : resolve site h ⟨(mask site hidden more others).cover m.store, m.journal⟩ = .ok c n) :
    ∃ m', resolve site h m = .ok c m' ∧ (mask site hidden more others).Fits m'.store ∧
      (mask site hidden more others).cover m'.store = n.store := by
  obtain ⟨hp, hi, hpos⟩ := shown_of_held hs hh
  obtain ⟨k, x, hcell, hmask⟩ := (sound_mask hs).cells.exists_unmasked hi hpos
  have hx : (((mask site hidden more others).cover m.store).pool site).cells.closure? h.slot =
      some x := by
    rw [pool_cover hs]
    exact Cells.closure?_eq hmask
  have hok := resolve_of_closure? (m := ⟨(mask site hidden more others).cover m.store,
    m.journal⟩) hp hx
  cases hok.symm.trans hrun
  refine ⟨_, resolve_of_closure? hp (Cells.closure?_eq hcell), cover_modify hs
    (f := fun p => x.captures.foldl Pool.acquire p) ?_⟩
  refine Pool.mask_foldl_acquire (sound_mask hs) _ fun j hj => ?_
  exact ⟨discloses hs j (Cells.mem_captured.2 ⟨_, x, Cells.closure?_eq hmask, hj⟩),
    (sound_mask hs).cells.owners_pos_of_captured (Cells.closure?_eq hmask) hj⟩

theorem lawful_mask (hothers : ∀ i, hidden i = true → ⟨site, i⟩ ∈ others) :
    (mask site hidden more others).Lawful (representation site) where
  epoch_eq _ _ := rfl
  now_cover _ := rfl
  capacity_eq _ := rfl
  allocated_cover k := by
    refine ⟨more.alloc.get k, fun w hw => ?_⟩
    have hpool : ((mask site hidden more others).cover w).pool site =
        (w.pool site).mask hidden more := pool_modify hw _
    change (((mask site hidden more others).cover w).pool site).ledger.alloc.get k = _
    rw [hpool]
    exact PerKind.get_ofFn _ k
  look_cover {w held h c} hs hh hc := by
    obtain ⟨hp, hi⟩ := hidden_mask_eq_false.1 hh
    obtain ⟨-, x, hx, rfl⟩ := look_eq_some hc
    rw [pool_cover hs] at hx
    change (view site).look w h = _
    simp only [view]
    rw [if_pos hp, ← Cells.closure?_mask hi]
    exact congrArg (Option.map _) hx
  retain {w held h} hs hh := by
    obtain ⟨hp, hi, hpos⟩ := shown_of_held hs hh
    have hretain (w : Pools) : Backend.retain h w = w.modify site (·.acquire h.slot) := by
      rw [← hp]
      rfl
    rw [hretain, hretain]
    exact cover_modify hs (f := (·.acquire h.slot)) (Pool.mask_acquire (sound_mask hs) hi hpos)
  release {w held h} hs := by
    obtain ⟨hp, hi, hpos⟩ := shown_of_held hs (Multiset.mem_cons_self h held)
    have hsound := sound_mask hs
    rw [Multiset.cons_add, Multiset.map_cons] at hsound
    have hrelease (w : Pools) : Backend.release h w = w.modify site (·.release h.slot) := by
      rw [← hp]
      rfl
    rw [hrelease, hrelease]
    exact cover_modify hs (f := (·.release h.slot)) (Pool.mask_release hsound hi (discloses hs))
  alloc hs hrun := cover_alloc hothers hs hrun
  resolve hs hh hrun := cover_resolve hs hh hrun
  describe {m held h} hs hh := by
    obtain ⟨hp, hi, hpos⟩ := shown_of_held hs hh
    obtain ⟨k, x, hcell, -⟩ := (sound_mask hs).cells.exists_unmasked hi hpos
    obtain ⟨p, hrun⟩ := describe_of_closure? (h := h) (m := m)
      (by rw [hp]; exact Cells.closure?_eq hcell)
    exact ⟨p, m, hrun, rfl⟩

/-! ### The beginning -/

/-- The slot of a builtin function of an evaluator. -/
abbrev builtinSlot (e : Evaluator PoolRef) (b : Builtin) : Nat := (e.singletons.get b).slot

/-- The slots of a tidy pool that are neither free nor those of builtin functions. -/
def olderSlots (p : Pool) (cell : Builtin → Nat) (i : Nat) : Bool :=
  i < p.cells.size && !(p.free.contains i || Builtin.all.any (cell · == i))

theorem olderSlots_eq_true {p : Pool} {cell : Builtin → Nat} {i : Nat} :
    olderSlots p cell i = true ↔ i < p.cells.size ∧ i ∉ p.free ∧ ∀ b, cell b ≠ i := by
  have hall (b : Builtin) : b ∈ Builtin.all := by cases b <;> decide
  simp [olderSlots, hall]

theorem isolates_olderSlots {p : Pool} {cell : Builtin → Nat} (hp : p.Tidy)
    (hstands : ∀ b, ∃ k, 0 < k ∧ p.cells.Stands (cell b) b.closure k) :
    p.cells.Isolates (olderSlots p cell) cell where
  stands := hstands
  hidden_cell b := by
    rw [← Bool.not_eq_true, olderSlots_eq_true]
    exact fun h => h.2.2 b rfl
  lt_size hi := (olderSlots_eq_true.1 hi).1
  of_closure? {i c} hi hc := by
    rw [← Bool.not_eq_true, olderSlots_eq_true] at hi
    by_contra hnone
    refine hi ⟨Cells.lt_size_of_isSome (Option.isSome_of_eq_some hc), fun hfree => ?_,
      fun b hb => hnone ⟨b, hb⟩⟩
    rw [(hp.of_mem_free hfree).2] at hc
    cases hc

/-- The slots that the mask leaves empty are the free ones. -/
theorem mem_free_iff {p : Pool} {cell : Builtin → Nat} (hp : p.Tidy)
    (hisolates : p.cells.Isolates (olderSlots p cell) cell) {i : Nat} :
    i ∈ p.free ↔ i < (p.cells.mask (olderSlots p cell)).size ∧
      (p.cells.mask (olderSlots p cell)).closure? i = none := by
  rw [Cells.size_mask]
  constructor
  · intro hi
    obtain ⟨hlt, hnone⟩ := hp.of_mem_free hi
    refine ⟨hlt, ?_⟩
    rw [Cells.closure?_mask, hnone]
    rw [← Bool.not_eq_true, olderSlots_eq_true]
    exact fun h => h.2.1 hi
  · rintro ⟨hlt, hnone⟩
    by_contra hi
    cases hhidden : olderSlots p cell i with
    | true =>
      rw [Cells.closure?_mask_of_hidden hhidden hlt] at hnone
      cases hnone
    | false =>
      rw [← Bool.not_eq_true, olderSlots_eq_true] at hhidden
      refine hhidden ⟨hlt, hi, ?_⟩
      rintro b rfl
      rw [hisolates.closure?_cell] at hnone
      cases hnone

section Beginning

variable {e : Evaluator PoolRef} (hlt : e.site < w.toArray.size)
  (hpool : ∀ b, (e.singletons.get b).pool = e.site) (hp : (w.pool e.site).Tidy)
  (hisolates : (w.pool e.site).cells.Isolates
    (olderSlots (w.pool e.site) (builtinSlot e)) (builtinSlot e))

include hlt hpool hp hisolates

/-- With counters that fit, the mask leaves a sound pool. -/
theorem exists_sound_mask : ∃ more others,
    (∀ i, olderSlots (w.pool e.site) (builtinSlot e) i = true →
      ⟨e.site, i⟩ ∈ others) ∧
    (mask e.site (olderSlots (w.pool e.site) (builtinSlot e)) more others).Sound
      (representation e.site) w (Builtin.all.map e.singletons.get : List PoolRef) := by
  obtain ⟨others, hsound, hothers⟩ := hisolates.exists_sound
  obtain ⟨more, hmore⟩ := Ledger.exists_raise (w.pool e.site).ledger
    ((w.pool e.site).cells.mask (olderSlots (w.pool e.site) (builtinSlot e))).census
  refine ⟨more, others.map (⟨e.site, ·⟩),
    fun i hi => Multiset.mem_map_of_mem _ (hothers i hi), ?_⟩
  constructor
  case fits => exact hlt
  case sound =>
    constructor
    case lt_size =>
      change _ < (w.modify ..).toArray.size
      rwa [size_modify]
    case pool_eq =>
      intro h hh
      rcases Multiset.mem_add.1 hh with hh | hh
      · obtain ⟨b, -, rfl⟩ := List.mem_map.1 hh
        exact hpool b
      · obtain ⟨i, -, rfl⟩ := Multiset.mem_map.1 hh
        rfl
    case pool =>
      have hslots : (others.map (PoolRef.mk e.site)).map (·.slot) = others :=
        (Multiset.map_map ..).trans (Multiset.map_id others)
      change Pool.Sound ((w.modify ..).pool e.site) _
      rw [pool_modify hlt, Multiset.map_add, Multiset.map_coe, List.map_map]
      change Pool.Sound _ (_ + (others.map (PoolRef.mk e.site)).map (·.slot))
      rw [hslots]
      exact ⟨hsound, hp.nodup, fun i => mem_free_iff hp hisolates, hmore⟩
  case shown_of_mem =>
    intro h hh
    obtain ⟨b, -, rfl⟩ := List.mem_map.1 hh
    exact hidden_mask_eq_false.2 ⟨hpool b, hisolates.hidden_cell b⟩
  case shown_of_captured =>
    intro h x c hc hx
    obtain ⟨-, y, hy, rfl⟩ := look_eq_some hc
    change (((w.modify ..).pool e.site).cells.closure? _) = _ at hy
    rw [pool_modify hlt] at hy
    rw [Closure.captures_map, hisolates.captures_eq_nil hy] at hx
    cases hx

end Beginning

/-- Whatever has been done to a tidy pool, its evaluator can go on with the builtin functions. -/
theorem exists_begins {e : Evaluator PoolRef} (hlt : e.site < w.toArray.size)
    (hp : (w.pool e.site).Tidy) (hpool : ∀ b, (e.singletons.get b).pool = e.site)
    (hstands : ∀ b, ∃ k, 0 < k ∧
      (w.pool e.site).cells.Stands (builtinSlot e b) b.closure k) :
    ∃ R : Representation Pools, R.Begins (view e.site) e w := by
  have hisolates := isolates_olderSlots hp hstands
  obtain ⟨more, others, hothers, hs⟩ := exists_sound_mask hlt hpool hp hisolates
  refine ⟨(lawful_mask hothers).representation, (lawful_mask hothers).begins rfl hs (fun b => ?_)
    (fun {h c} hh hc => ?_) fun w k => ?_⟩
  · change (view e.site).look _ _ = _
    simp only [view]
    rw [if_pos (hpool b), pool_cover hs]
    exact (congrArg (Option.map _) (hisolates.closure?_cell b)).trans
      (congrArg some (b.map_closure _))
  · obtain ⟨hsite, hi⟩ := hidden_mask_eq_false.1 hh
    obtain ⟨-, y, hy, -⟩ := look_eq_some hc
    rw [pool_cover hs] at hy
    obtain ⟨b, hb⟩ := hisolates.of_closure? hi ((Cells.closure?_mask hi).symm.trans hy)
    refine ⟨b, ?_⟩
    rw [← hpool b] at hsite
    cases h
    exact congrArg₂ PoolRef.mk hsite.symm hb
  · exact (congrArg AllocFree.alloc ((w.pool e.site).ledger.kind_snapshot k)).symm

end Pools

end ChurchStore
