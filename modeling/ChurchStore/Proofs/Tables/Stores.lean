import ChurchStore.Proofs.Arenas.Packing
import ChurchStore.Proofs.BuiltinHandles.Counted
import ChurchStore.Proofs.Lockstep
import ChurchStore.Proofs.Tables

/-!
# The stores have what tables need

Each store keeps what it has been given, also when other handles have been misused: an arena as long
as it can reserve blocks, the shared heap always, and a pool since its free slots are empty.
-/

namespace ChurchStore

namespace Arenas

variable {w w' : Arenas} {site : Site} {capacity : Nat} {a n : ArenaRef}

/-- A closure that is placed after all others is laid on them. -/
theorem lays_of_places (hp : Places w w' site (.succPartial n) a)
    (hledger : (w'.arena site).ledger = (w.arena site).ledger.recordAlloc .succPartial) :
    (view site capacity).Lays (fun _ _ _ => True) w w' a n fun _ j => j := by
  constructor
  case fresh =>
    rw [look_of_current hp.arena_eq hp.epoch_eq]
    cases hc : (w.arena site).closure? a.block a.slot with
    | none => rfl
    | some c =>
      have hbefore := hp.before hc
      omega
  case look_self => exact hp.look_self
  case look_of_ne =>
    intro x hx
    simp only [view, hp.epoch_kept, hp.closure?_eq]
    split
    · rename_i hcurrent
      refine if_neg fun hplace => hx ?_
      have harena : x.arena = a.arena := hcurrent.1.trans hp.arena_eq.symm
      have hepoch : x.epoch = a.epoch := hcurrent.2.trans hp.epoch_eq.symm
      cases x
      cases a
      rw [ArenaRef.mk.injEq]
      exact ⟨harena, hepoch, hplace⟩
    · rfl
  case now_eq => exact hp.epoch_kept site
  case allocated_eq =>
    intro k
    simp only [view]
    rw [hledger, Ledger.alloc_get_recordAlloc]
    simp only [eq_comm]
  case owns_self => trivial
  case owns => exact fun _ _ => trivial

/-- An arena whose blocks have room for a closure with one capture is a shelf without owners. -/
def shelf (site : Site) (hfits : Kind.succPartial.footprint ≤ capacity) : Shelf Arenas where
  toView := view site capacity
  Owns _ _ _ := True
  Sound w := Opened w site capacity
  stats_eq w k := congrArg AllocFree.alloc (Ledger.kind_snapshot (w.arena site).ledger k)
  same_self h := beq_self_eq_true h
  resolve {m h c} hc := by
    obtain ⟨⟨ha, he⟩, hclosure⟩ := look_eq_some hc
    exact ⟨m, resolve_of_current ha he hclosure, fun _ => rfl⟩
  retain hw _ := ⟨hw, fun _ => rfl, rfl, fun _ => rfl, id⟩
  release hw _ _ := ⟨hw, fun _ => rfl, rfl, fun _ => rfl, fun _ => trivial⟩
  alloc {m n c j} hw hc _ _ := by
    obtain ⟨m', hrun, hstore⟩ := alloc_of_fits (c := .succPartial n) hw.lt_size
      (hw.capacity_eq.symm ▸ hfits) (.inr hw.reservation_lt)
    refine ⟨_, m', hrun, hw.of_changes (changes_of_alloc hrun),
      lays_of_places (places_of_alloc hrun) ?_⟩
    rw [hstore, arena_modify hw.lt_size]
    exact Arena.ledger_store ..

end Arenas

namespace SharedHeap

variable {w : SharedHeap} {site : Site} {h : NodeRef} {n : Nat}

theorem rests_retain (hh : h.node < w.nodes.size) :
    (view site).Rests (fun w h n => w.owners h = n) w (retain h w)
      fun x j => j + [h].count x where
  look_eq x := by
    simp only [view, retain, Cells.closure?_acquire]
  now_eq := rfl
  allocated_eq _ := rfl
  owns {x j} hx := by
    have hcount := count_map_node [h] x
    unfold owners at hx ⊢
    simp only [retain]
    rw [Cells.owners_acquire hh, hx]
    exact congrArg (j + ·) hcount

/-- A release that leaves an owner destroys nothing. -/
theorem rests_release (hn : 1 < w.nodes.owners h.node) :
    (view site).Rests (fun w h n => w.owners h = n) w (release h w)
      fun x j => j - [h].count x := by
  obtain ⟨ds, hrun, hfree, howners⟩ := Cells.release_of_lt hn
  have hstore : release h w = { w with nodes := ds } := by
    rw [release_eq, hrun]
    rfl
  rw [hstore]
  refine ⟨fun x => ?_, rfl, fun _ => rfl, fun {x j} hx => ?_⟩
  · simp only [view, hfree.closure?_eq (List.not_mem_nil)]
  · have hcount := count_map_node [h] x
    unfold owners at hx ⊢
    simp only
    rw [howners, hx]
    exact congrArg (j - ·) hcount

/-- A node that is added is laid on the others. -/
theorem lays_insert (w : SharedHeap) (hs : site < w.ledgers.size) {n : NodeRef} :
    (view site).Lays (fun w h n => w.owners h = n) w (w.insert site (.succPartial n))
      ⟨w.nodes.size⟩ n fun _ j => j := by
  have hnone : w.nodes.closure? w.nodes.size = none := Cells.closure?_of_size_le (Nat.le_refl _)
  have hclosure (i : Nat) : (w.insert site (.succPartial n)).nodes.closure? i =
      if i = w.nodes.size then some (.succPartial n.node) else w.nodes.closure? i :=
    Cells.closure?_push
  have howners (i : Nat) : (w.insert site (.succPartial n)).nodes.owners i =
      if i = w.nodes.size then 1 else w.nodes.owners i :=
    Cells.owners_push
  have hne {x : NodeRef} (hx : x ≠ ⟨w.nodes.size⟩) : x.node ≠ w.nodes.size := by
    rintro hi
    cases x
    exact hx (congrArg NodeRef.mk hi)
  constructor
  case fresh =>
    simp only [view, hnone]
    rfl
  case look_self =>
    simp only [view, hclosure, if_pos]
    rfl
  case look_of_ne =>
    intro x hx
    simp only [view, hclosure, if_neg (hne hx)]
  case now_eq => rfl
  case allocated_eq =>
    intro k
    have hledger : (w.insert site (.succPartial n)).ledger site =
        (w.ledger site).recordAlloc .succPartial :=
      ledger_of_modify (f := (·.recordAlloc _)) hs rfl
    simp only [view, hledger, Ledger.alloc_get_recordAlloc, eq_comm]
  case owns_self =>
    unfold owners
    rw [howners, if_pos rfl]
  case owns =>
    intro x j hx hj
    have hlook : x ≠ ⟨w.nodes.size⟩ := by
      rintro rfl
      simp only [view, hnone] at hx
      cases hx
    unfold owners at hj ⊢
    rw [howners, if_neg (hne hlook), hj]

/-- The shared heap is a shelf for each of its evaluators. -/
def shelf (site : Site) : Shelf SharedHeap where
  toView := view site
  Owns w h n := w.owners h = n
  Sound w := site < w.ledgers.size
  stats_eq w k := congrArg AllocFree.alloc (Ledger.kind_snapshot (w.ledger site) k)
  same_self h := beq_self_eq_true h
  resolve {m h c} hc := by
    obtain ⟨x, hx, rfl⟩ := look_eq_some hc
    refine ⟨⟨{ m.store with nodes := x.captures.foldl Cells.acquire m.store.nodes }, m.journal⟩, ?_,
      fun hnone => ?_⟩
    · change resolve h m = _
      simp only [resolve, Bind.bind, EStateM.bind, Act.read, hx, Act.update]
      rfl
    · rw [Closure.captures_map, List.map_eq_nil_iff] at hnone
      rw [hnone]
      rfl
  retain {w h c} hw hc := by
    obtain ⟨x, hx, -⟩ := look_eq_some hc
    obtain ⟨n, hcell⟩ := Cells.exists_cell_of_closure? hx
    exact ⟨hw, rests_retain (Cells.lt_size hcell)⟩
  release {w h n} hw hn hle := by
    refine ⟨?_, rests_release (by rwa [← hn] at hle)⟩
    change _ < (release h w).ledgers.size
    rwa [release_eq, size_ledgers_foldl_bury]
  alloc {m n c j} hw _ _ _ := by
    refine ⟨⟨m.store.nodes.size⟩, ⟨m.store.insert site (.succPartial n), m.journal⟩, rfl, ?_, ?_⟩
    · change _ < (m.store.insert site (.succPartial n)).ledgers.size
      rwa [insert, Array.size_modify]
    · exact lays_insert m.store hw

end SharedHeap

namespace Pools

variable {w : Pools} {site : Site} {h : PoolRef} {m : Machine Pools} {c : Closure PoolRef}

/-- What is done to the owners in one pool. -/
theorem rests_modify (site : Site) {site' : Site} {f : Pool → Pool} {g : Nat → Nat → Nat}
    (hs : site' < w.toArray.size)
    (hclosure : ∀ i, (f (w.pool site')).cells.closure? i = (w.pool site').cells.closure? i)
    (halloc : (f (w.pool site')).ledger.alloc = (w.pool site').ledger.alloc)
    (howners : ∀ i, (f (w.pool site')).cells.owners i = g i ((w.pool site').cells.owners i)) :
    (view site).Rests (fun w h n => w.owners h = n) w (w.modify site' f)
      fun x j => if x.pool = site' then g x.slot j else j where
  look_eq x := by
    simp only [view, pool_modify_eq hs]
    by_cases hsite : site = site'
    · subst hsite
      simp only [if_true, hclosure]
    · simp only [if_neg hsite]
  now_eq := rfl
  allocated_eq k := by
    simp only [view, pool_modify_eq hs]
    split
    · subst_vars
      rw [halloc]
    · rfl
  owns {x j} hx := by
    unfold owners at hx ⊢
    rw [pool_modify_eq hs]
    split
    · rename_i hpool
      rw [hpool] at hx ⊢
      rw [howners, hx]
    · exact hx

theorem rests_retain (hs : h.pool < w.toArray.size) (hlt : h.slot < (w.pool h.pool).cells.size) :
    (view site).Rests (fun w h n => w.owners h = n) w (retain h w)
      fun x j => j + [h].count x := by
  have hrests := rests_modify site (f := (·.acquire h.slot))
    (g := fun i j => j + [h.slot].count i) hs (Cells.closure?_acquire _ _) rfl
    (Cells.owners_acquire hlt)
  have hcount : (fun (x : PoolRef) j => if x.pool = h.pool then j + [h.slot].count x.slot else j) =
      fun x j => j + [h].count x := by
    funext x j
    rw [count_singleton]
    split <;> rfl
  rwa [hcount] at hrests

/-- A release that leaves an owner frees no slot. -/
theorem rests_release (hn : 1 < (w.pool h.pool).cells.owners h.slot) :
    (view site).Rests (fun w h n => w.owners h = n) w (release h w)
      fun x j => j - [h].count x := by
  have hs : h.pool < w.toArray.size := by
    refine lt_size_of_known (h := h) ?_
    by_contra hge
    rw [Cells.owners_of_size_le (Nat.le_of_not_lt hge)] at hn
    exact absurd hn (by decide)
  obtain ⟨ds, hrun, hfree, howners⟩ := Cells.release_of_lt hn
  have hpool : (w.pool h.pool).release h.slot = { w.pool h.pool with cells := ds } := by
    simp only [Pool.release, hrun, List.foldl_nil]
  have hrests := rests_modify site (f := (·.release h.slot))
    (g := fun i j => j - [h.slot].count i) hs
    (fun i => by rw [hpool]; exact hfree.closure?_eq List.not_mem_nil) (by rw [hpool])
    (fun i => by rw [hpool]; exact howners i)
  have hcount : (fun (x : PoolRef) j => if x.pool = h.pool then j - [h.slot].count x.slot else j) =
      fun x j => j - [h].count x := by
    funext x j
    rw [count_singleton]
    split <;> rfl
  rwa [hcount] at hrests

/-- A closure that goes to an empty slot is laid on the others. -/
theorem lays_insert {n : PoolRef} (hs : site < w.toArray.size) (hp : (w.pool site).Tidy)
    (hn : n.pool = site) :
    (view site).Lays (fun w h n => w.owners h = n) w
      (w.modify site (·.insert (.succPartial n.slot))) ⟨site, (w.pool site).nextSlot⟩ n
      fun _ j => j := by
  have hne {x : PoolRef} (hx : x ≠ ⟨site, (w.pool site).nextSlot⟩) (hpool : x.pool = site) :
      x.slot ≠ (w.pool site).nextSlot := by
    intro hslot
    cases x
    rw [ne_eq, PoolRef.mk.injEq] at hx
    exact hx ⟨hpool, hslot⟩
  constructor
  case fresh =>
    simp only [view, if_true, hp.closure?_nextSlot]
    rfl
  case look_self =>
    simp only [view, if_true, pool_modify hs, hp.closure?_insert]
    rw [← hn]
    rfl
  case look_of_ne =>
    intro x hx
    simp only [view, pool_modify hs, hp.closure?_insert]
    split
    · rw [if_neg (hne hx ‹_›)]
    · rfl
  case now_eq => rfl
  case allocated_eq =>
    intro k
    have hledger : ((w.pool site).insert (.succPartial n.slot)).ledger =
        (w.pool site).ledger.recordAlloc .succPartial := by
      unfold Pool.insert
      split <;> rfl
    simp only [view, pool_modify hs, hledger, Ledger.alloc_get_recordAlloc, eq_comm]
  case owns_self =>
    unfold owners
    rw [pool_modify hs, hp.owners_insert, if_pos rfl]
  case owns =>
    intro x j hx hj
    unfold owners at hj ⊢
    rw [pool_modify_eq hs]
    split
    · rename_i hpool
      have hlook : x ≠ ⟨site, (w.pool site).nextSlot⟩ := by
        rintro rfl
        simp only [view, if_true, hp.closure?_nextSlot] at hx
        cases hx
      rw [hpool] at hj ⊢
      rw [hp.owners_insert, if_neg (hne hlook hpool), hj]
    · exact hj

/-- To adopt a handle of the pool itself changes nothing. -/
theorem adopt_of_look (hc : (view site).look m.store h = some c)
    (hown : 0 < m.store.owners h) : adopt site h m = .ok h.slot m := by
  obtain ⟨hpool, x, hx, -⟩ := look_eq_some hc
  unfold owners at hown
  rw [hpool] at hown
  exact adopt_of_closure? hpool hx hown

/-- There is a tidy pool for the evaluator. -/
def Ordered (site : Site) (w : Pools) : Prop := site < w.toArray.size ∧ (w.pool site).Tidy

theorem Ordered.modify (hw : Ordered site w) {site' : Site} {f : Pool → Pool}
    (hf : site' = site → (f (w.pool site)).Tidy) : Ordered site (w.modify site' f) := by
  refine ⟨(size_modify ..).symm ▸ hw.1, ?_⟩
  by_cases hsite : site' = site
  · rw [hsite, pool_modify hw.1]
    exact hf hsite
  · rw [pool_modify_of_ne hsite]
    exact hw.2

/-- A pool is a shelf for its evaluator. -/
def shelf (site : Site) : Shelf Pools where
  toView := view site
  Owns w h n := w.owners h = n
  Sound := Ordered site
  stats_eq w k := congrArg AllocFree.alloc (Ledger.kind_snapshot (w.pool site).ledger k)
  same_self h := beq_self_eq_true h
  resolve {m h c} hc := by
    obtain ⟨hpool, x, hx, rfl⟩ := look_eq_some hc
    refine ⟨⟨m.store.modify site fun p => x.captures.foldl Pool.acquire p, m.journal⟩, ?_,
      fun hnone => ?_⟩
    · exact resolve_of_closure? hpool hx
    · rw [Closure.captures_map, List.map_eq_nil_iff] at hnone
      rw [hnone]
      exact congrArg (Machine.mk · m.journal) (modify_eq_self rfl)
  retain {w h c} hw hc := by
    obtain ⟨hpool, x, hx, -⟩ := look_eq_some hc
    obtain ⟨n, hcell⟩ := Cells.exists_cell_of_closure? hx
    rw [← hpool] at hcell
    have hs : h.pool < w.toArray.size := hpool ▸ hw.1
    exact ⟨hw.modify fun _ => hw.2.acquire h.slot, rests_retain hs (Cells.lt_size hcell)⟩
  release {w h n} hw hn hle :=
    ⟨hw.modify fun _ => hw.2.release h.slot, rests_release (by rwa [← hn] at hle)⟩
  alloc {m n c j} hw hc hj hpos := by
    obtain ⟨hpool, x, hx, -⟩ := look_eq_some hc
    obtain ⟨k, hcell⟩ := Cells.exists_cell_of_closure? hx
    have hadopt := adopt_of_look hc (by rwa [hj])
    refine ⟨⟨site, (m.store.pool site).nextSlot⟩, inserted site (.succPartial n.slot) m, ?_, ?_, ?_⟩
    · change alloc site (.succPartial n) m = _
      simp only [alloc_eq, adoptCaptures, Bind.bind, EStateM.bind, hadopt]
      rfl
    · rw [store_inserted]
      refine hw.modify fun _ => hw.2.insert fun i hi => ?_
      rw [List.mem_singleton.1 hi]
      exact Cells.lt_size hcell
    · rw [store_inserted]
      exact lays_insert hw.1 hw.2 hpool

end Pools

end ChurchStore
