import ChurchStore.Proofs.Pool

/-!
# The pools of several evaluators

A handle names its pool, so an operation on one pool leaves the others alone. To adopt a handle of
the same pool is to add an owner and to give the handle back at once, which changes nothing. Hence
the primitive operations of a pool are those of its slots, and pools represent groves.
-/

namespace ChurchStore.Pools

variable {w : Pools} {site : Site} {f g : Pool → Pool} {h : PoolRef}

theorem pool_modify (hs : site < w.toArray.size) (f : Pool → Pool) :
    (w.modify site f).pool site = f (w.pool site) :=
  Modify.getD_modify hs f _

theorem pool_modify_of_ne {site' : Site} (hne : site ≠ site') (f : Pool → Pool) :
    (w.modify site f).pool site' = w.pool site' := by
  rw [pool, modify, Array.getElem?_modify, if_neg hne]
  rfl

theorem size_modify (w : Pools) (site : Site) (f : Pool → Pool) :
    (w.modify site f).toArray.size = w.toArray.size := by
  simp [modify]

theorem modify_modify (w : Pools) (site : Site) (f g : Pool → Pool) :
    (w.modify site f).modify site g = w.modify site fun p => g (f p) :=
  congrArg mk (Modify.modify_modify ..)

theorem modify_congr (h : f (w.pool site) = g (w.pool site)) :
    w.modify site f = w.modify site g := by
  refine congrArg mk (Modify.modify_congr fun p hp => ?_)
  rwa [pool, hp, Option.getD_some] at h

theorem modify_eq_self (h : f (w.pool site) = w.pool site) : w.modify site f = w := by
  refine congrArg mk (Modify.modify_eq_self fun p hp => ?_)
  rwa [pool, hp, Option.getD_some] at h

/-! ### Operations on occupied slots -/

section Occupied

variable {m : Machine Pools} {c : Closure PoolRef} {x : Closure Nat}

/-- To adopt a handle of the pool itself changes nothing. -/
theorem adopt_of_closure? (hp : h.pool = site)
    (hx : (m.store.pool site).cells.closure? h.slot = some x)
    (hpos : 0 < (m.store.pool site).cells.owners h.slot) :
    adopt site h m = .ok h.slot m := by
  obtain ⟨n, hcell⟩ := Cells.exists_cell_of_closure? hx
  have hlt : h.slot < (m.store.pool site).cells.size := Cells.lt_size hcell
  have hback : release h (m.store.modify site (·.acquire h.slot)) = m.store := by
    rw [release, hp, modify_modify]
    exact modify_eq_self (Pool.release_acquire hx hpos)
  simp only [adopt, Bind.bind, EStateM.bind, Act.read, if_pos hlt, Act.update, hback]
  rfl

theorem adoptCaptures_of_adopt (hc : ∀ h ∈ c.captures, adopt site h m = .ok h.slot m) :
    adoptCaptures site c m = .ok (c.map (·.slot)) m := by
  cases c with
  | zero | zeroInner | succ | intLiteral | inc => rfl
  | succPartial n =>
    have hn := hc n (by simp [Closure.captures])
    simp only [adoptCaptures, Bind.bind, EStateM.bind, hn]
    rfl
  | succInner n s =>
    have hn := hc n (by simp [Closure.captures])
    have hs := hc s (by simp [Closure.captures])
    simp only [adoptCaptures, Bind.bind, EStateM.bind, Act.onFault, hn, hs]
    rfl

/-- A closure whose captures can be adopted goes to the next slot. -/
theorem alloc_of_adoptCaptures (hc : adoptCaptures site c m = .ok x m) :
    ∃ m', alloc site c m = .ok ⟨site, (m.store.pool site).nextSlot⟩ m' ∧
      m'.store = m.store.modify site (·.insert x) := by
  simp only [alloc, Bind.bind, EStateM.bind, hc, Act.read, Act.update]
  cases (m.store.pool site).free.isEmpty with
  | true => exact ⟨_, rfl, rfl⟩
  | false => exact ⟨_, rfl, rfl⟩

theorem resolve_of_closure? (hp : h.pool = site)
    (hx : (m.store.pool site).cells.closure? h.slot = some x) :
    resolve site h m = .ok (x.map (⟨site, ·⟩)) ⟨m.store.modify site fun p =>
      x.captures.foldl Pool.acquire p, m.journal⟩ := by
  simp only [resolve, Bind.bind, EStateM.bind, Act.read, ne_eq, hp, not_true, if_false, hx,
    Act.update]
  rfl

theorem describe_of_closure? (hx : (m.store.pool h.pool).cells.closure? h.slot = some x) :
    ∃ p, describe h m = .ok p m := by
  simp only [describe, Bind.bind, EStateM.bind, Act.read, hx]
  exact ⟨_, rfl⟩

end Occupied

/-- The pool of an evaluator is sound for the held handles, all of which are its own. -/
structure Sound (site : Site) (w : Pools) (held : Multiset PoolRef) : Prop where
  lt_size : site < w.toArray.size
  pool_eq : ∀ h ∈ held, h.pool = site
  pool : (w.pool site).Sound (held.map (·.slot))

/-- The closures in the slots of one pool, behind its handles. -/
def view (site : Site) : View Pools PoolRef where
  site := site
  look w h :=
    if h.pool = site then ((w.pool site).cells.closure? h.slot).map (·.map (⟨site, ·⟩)) else none
  allocated w k := (w.pool site).ledger.alloc.get k

theorem look_eq_some {c : Closure PoolRef} (hc : (view site).look w h = some c) :
    h.pool = site ∧ ∃ x, (w.pool site).cells.closure? h.slot = some x ∧ c = x.map (⟨site, ·⟩) := by
  simp only [view] at hc
  split at hc
  · rename_i hp
    obtain ⟨x, hx, hxc⟩ := Option.map_eq_some_iff.1 hc
    exact ⟨hp, x, hx, hxc.symm⟩
  · cases hc

theorem isSome_look (hp : h.pool = site) (hx : ((w.pool site).cells.closure? h.slot).isSome) :
    ((view site).look w h).isSome := by
  simp only [view]
  rw [if_pos hp, Option.isSome_map]
  exact hx

/-- What an operation on one pool that loses no more than some closures leaves to be seen. -/
theorem within_modify (hs : site < w.toArray.size)
    (hf : ∀ i c, (f (w.pool site)).cells.closure? i = some c →
      (w.pool site).cells.closure? i = some c)
    (halloc : (f (w.pool site)).ledger.alloc = (w.pool site).ledger.alloc) :
    (view site).Within (w.modify site f) w where
  look_eq {h c} hc := by
    obtain ⟨hp, x, hx, rfl⟩ := look_eq_some hc
    rw [pool_modify hs] at hx
    simp only [view]
    rw [if_pos hp, hf _ _ hx]
    rfl
  now_eq := rfl
  allocated_eq k := by
    simp only [view]
    rw [pool_modify hs, halloc]

namespace Sound

variable {held : Multiset PoolRef} {m : Machine Pools} {c : Closure PoolRef}

theorem owners_pos (hw : Sound site w held) (hh : h ∈ held) :
    0 < (w.pool site).cells.owners h.slot :=
  hw.pool.cells.owners_pos_of_mem (Multiset.mem_map_of_mem _ hh)

theorem retain (hw : Sound site w held) (hh : h ∈ held) :
    Sound site (Pools.retain h w) (h ::ₘ held) ∧ (view site).Within (Pools.retain h w) w := by
  have hp := hw.pool_eq h hh
  obtain ⟨hpool, hclosure⟩ := hw.pool.acquire (hw.owners_pos hh)
  rw [Pools.retain, hp]
  refine ⟨⟨by rw [size_modify]; exact hw.lt_size, fun k hk => ?_, ?_⟩,
    within_modify hw.lt_size (fun i c hc => by rwa [hclosure] at hc) rfl⟩
  · rcases Multiset.mem_cons.1 hk with rfl | hk
    · exact hp
    · exact hw.pool_eq k hk
  · rw [pool_modify hw.lt_size, Multiset.map_cons]
    exact hpool

theorem release (hw : Sound site w (h ::ₘ held)) :
    Sound site (Pools.release h w) held ∧ (view site).Within (Pools.release h w) w := by
  have hp := hw.pool_eq h (Multiset.mem_cons_self h held)
  have hpool := hw.pool
  rw [Multiset.map_cons] at hpool
  obtain ⟨hpool, halloc, hclosure⟩ := hpool.release
  rw [Pools.release, hp]
  refine ⟨⟨by rw [size_modify]; exact hw.lt_size, fun k hk => ?_, ?_⟩,
    within_modify hw.lt_size hclosure halloc⟩
  · exact hw.pool_eq k (Multiset.mem_cons_of_mem hk)
  · rw [pool_modify hw.lt_size]
    exact hpool

/-- There is a closure in the slot of a held handle. -/
theorem exists_closure? (hw : Sound site w held) (hh : h ∈ held) :
    ∃ x, (w.pool site).cells.closure? h.slot = some x :=
  Option.isSome_iff_exists.1
    (hw.pool.cells.isSome_of_mem (Multiset.mem_map_of_mem (·.slot) hh))

/-- A closure over held handles goes to the next slot. -/
theorem exists_alloc (hw : Sound site m.store (c.captures + held)) :
    ∃ m', Pools.alloc site c m = .ok ⟨site, (m.store.pool site).nextSlot⟩ m' ∧
      m'.store = m.store.modify site (·.insert (c.map (·.slot))) := by
  refine alloc_of_adoptCaptures (adoptCaptures_of_adopt fun h hh => ?_)
  have hmem : h ∈ (c.captures : Multiset PoolRef) + held := Multiset.mem_add.2 (.inl hh)
  obtain ⟨x, hx⟩ := hw.exists_closure? hmem
  exact adopt_of_closure? (hw.pool_eq h hmem) hx (hw.owners_pos hmem)

theorem alloc (hw : Sound site m.store (c.captures + held)) :
    ∃ a m', Pools.alloc site c m = .ok a m' ∧ Sound site m'.store (a ::ₘ held) ∧
      (view site).Extends m.store m'.store a c := by
  have hpool := hw.pool
  rw [Multiset.map_add, Multiset.map_coe, ← Closure.captures_map] at hpool
  obtain ⟨hpool', halloc, hclosure⟩ := hpool.insert
  have hback : (c.map (·.slot)).map (PoolRef.mk site) = c := by
    rw [Closure.map_map]
    refine Closure.map_eq_self fun h hh => ?_
    rw [Function.comp_apply, ← hw.pool_eq h (Multiset.mem_add.2 (.inl hh))]
  obtain ⟨m', hm', hstore⟩ := hw.exists_alloc
  refine ⟨_, m', hm', ⟨?_, ?_, ?_⟩, ?_⟩
  · rw [hstore, size_modify]
    exact hw.lt_size
  · intro h hh
    rcases Multiset.mem_cons.1 hh with rfl | hh
    · rfl
    · exact hw.pool_eq h (Multiset.mem_add.2 (.inr hh))
  · rw [hstore, pool_modify hw.lt_size, Multiset.map_cons]
    exact hpool'
  · constructor
    case fresh =>
      simp only [view, if_pos, hpool.closure?_nextSlot]
      rfl
    case epoch_eq => rfl
    case look_eq =>
      intro h x hx
      rw [hstore] at hx
      obtain ⟨hp, y, hy, rfl⟩ := look_eq_some hx
      rw [pool_modify hw.lt_size, hclosure] at hy
      split at hy
      · rename_i hslot
        cases hy
        exact .inl ⟨by rw [← hslot, ← hp], hback⟩
      · right
        simp only [view]
        rw [if_pos hp, hy]
        rfl
    case now_eq => rfl
    case allocated_eq =>
      intro k
      simp only [view]
      rw [hstore, pool_modify hw.lt_size, halloc, Ledger.alloc_get_recordAlloc, Closure.kind_map]

/-- A held handle shows the closure in its slot, whose captures have an owner more. -/
theorem exists_resolve (hw : Sound site m.store held) (hh : h ∈ held) :
    ∃ x, (m.store.pool site).cells.closure? h.slot = some x ∧
      Pools.resolve site h m = .ok (x.map (⟨site, ·⟩)) ⟨m.store.modify site fun p =>
        x.captures.foldl Pool.acquire p, m.journal⟩ := by
  obtain ⟨x, hx⟩ := hw.exists_closure? hh
  exact ⟨x, hx, resolve_of_closure? (hw.pool_eq h hh) hx⟩

theorem resolve (hw : Sound site m.store held) (hh : h ∈ held) :
    ∃ c m', Pools.resolve site h m = .ok c m' ∧ (view site).look m.store h = some c ∧
      Sound site m'.store (c.captures + held) ∧ (view site).Within m'.store m.store := by
  have hp := hw.pool_eq h hh
  obtain ⟨x, hx, hrun⟩ := hw.exists_resolve hh
  obtain ⟨hpool, hclosure, halloc⟩ := hw.pool.acquireAll x.captures fun j hj =>
    hw.pool.cells.owners_pos_of_captured hx hj
  refine ⟨_, _, hrun, ?_, ⟨?_, ?_, ?_⟩, ?_⟩
  · simp only [view]
    rw [if_pos hp, hx]
    rfl
  · rw [size_modify]
    exact hw.lt_size
  · intro k hk
    rcases Multiset.mem_add.1 hk with hk | hk
    · rw [Multiset.mem_coe, Closure.captures_map] at hk
      obtain ⟨i, -, rfl⟩ := List.mem_map.1 hk
      rfl
    · exact hw.pool_eq k hk
  · have hid : ((·.slot) ∘ PoolRef.mk site : Nat → Nat) = id := rfl
    rw [pool_modify hw.lt_size, Multiset.map_add, Multiset.map_coe, Closure.captures_map,
      List.map_map, hid, List.map_id]
    exact hpool
  · exact within_modify hw.lt_size (fun i c hc => by rwa [hclosure] at hc) halloc

theorem isSome_look_of_mem (hw : Sound site w held) (hh : h ∈ held) :
    ((view site).look w h).isSome :=
  isSome_look (hw.pool_eq h hh)
    (hw.pool.cells.isSome_of_mem (Multiset.mem_map_of_mem (·.slot) hh))

theorem isSome_look_of_captured (hw : Sound site w held) (hc : (view site).look w h = some c)
    {x : PoolRef} (hx : x ∈ c.captures) : ((view site).look w x).isSome := by
  obtain ⟨-, y, hy, rfl⟩ := look_eq_some hc
  rw [Closure.captures_map] at hx
  obtain ⟨i, hi, rfl⟩ := List.mem_map.1 hx
  exact isSome_look rfl (hw.pool.cells.isSome_of_captured hy hi)

theorem describe (hw : Sound site m.store held) (hh : h ∈ held) :
    ∃ p, Pools.describe h m = .ok p m := by
  obtain ⟨x, hx⟩ := hw.exists_closure? hh
  rw [← hw.pool_eq h hh] at hx
  exact describe_of_closure? hx

end Sound

/-- Pools keep the laws of a store that represents a grove. -/
def representation (site : Site) : Representation Pools where
  toView := view site
  Sound := Sound site
  look_of_mem hw hh _ := hw.isSome_look_of_mem hh
  look_of_captured hw hc hx _ := hw.isSome_look_of_captured hc hx
  epoch_of_look _ _ := rfl
  retain := Sound.retain
  release := Sound.release
  alloc_fits hw _ := hw.alloc
  alloc_oversize _ h := nomatch h
  resolve_current hw hh _ := hw.resolve hh
  resolve_stale _ _ h := absurd rfl h
  same_iff := beq_iff_eq
  describe hw hh := by
    obtain ⟨p, hp⟩ := hw.describe hh
    exact ⟨p, _, hp, hw, .rfl⟩

end ChurchStore.Pools
