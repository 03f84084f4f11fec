import ChurchStore.Proofs.Sharing

/-!
# The ledgers of a shared heap

Every node of a heap has a home, the evaluator that allocated it. The ledger of an evaluator counts
the nodes that are at home with it, and those of them that have been destroyed, whoever destroyed
them. Each primitive operation of any evaluator keeps this.
-/

namespace ChurchStore.SharedHeap

variable {w : SharedHeap} {site : Site} {h : NodeRef} {n : Nat} {g : Grove 8}
  {held : Multiset (NodeRef × Tree)}

/-- The nodes of a kind that an evaluator allocated. -/
def allocatedAt (w : SharedHeap) (g : Grove 8) (site : Site) (k : Kind) : Set Nat :=
  {i | w.homes[i]? = some site ∧ g.kindOf i = some k}

/-- Those of them that have been destroyed. -/
def destroyedAt (w : SharedHeap) (g : Grove 8) (site : Site) (k : Kind) : Set Nat :=
  {i | i ∈ w.allocatedAt g site k ∧ w.nodes.closure? i = none}

/-- The ledgers of `n` evaluators tell what became of the nodes of a heap, which are the closures
made in a grove. -/
structure Accounts (n : Nat) (w : SharedHeap) (g : Grove 8) : Prop where
  ledgers_size : w.ledgers.size = n
  homes_size : w.homes.size = w.nodes.size
  home_lt {site : Site} : site ∈ w.homes → site < n
  alloc_eq (site : Site) (k : Kind) :
    (w.ledger site).alloc.get k = (w.allocatedAt g site k).ncard
  free_eq (site : Site) (k : Kind) :
    (w.ledger site).free.get k = (w.destroyedAt g site k).ncard

theorem home_eq_iff {i : Nat} (hi : i < w.homes.size) :
    w.home i = site ↔ w.homes[i]? = some site := by
  rw [home, Array.getElem?_eq_getElem hi, Option.getD_some, Option.some.injEq]

theorem finite_allocatedAt (w : SharedHeap) (g : Grove 8) (site : Site) (k : Kind) :
    (w.allocatedAt g site k).Finite :=
  (Grove.ncard_kindOf g k).1.subset fun _ hi => hi.2

theorem finite_destroyedAt (w : SharedHeap) (g : Grove 8) (site : Site) (k : Kind) :
    (w.destroyedAt g site k).Finite :=
  (w.finite_allocatedAt g site k).subset fun _ hi => hi.1

/-- No ledger has more frees than allocations. -/
theorem Accounts.free_le_alloc (ha : Accounts n w g) (site : Site) (k : Kind) :
    (w.ledger site).free.get k ≤ (w.ledger site).alloc.get k := by
  rw [ha.free_eq, ha.alloc_eq]
  exact Set.ncard_le_ncard (fun _ hi => hi.1) (w.finite_allocatedAt g site k)

/-- The ledger of an evaluator after one of the ledgers was changed. -/
theorem ledger_modify {w' : SharedHeap} {f : Ledger → Ledger} (hs : site < w.ledgers.size)
    (h : w'.ledgers = w.ledgers.modify site f) (j : Site) :
    w'.ledger j = if j = site then f (w.ledger j) else w.ledger j := by
  by_cases hj : j = site
  · rw [if_pos hj, hj]
    exact ledger_of_modify hs h
  · rw [if_neg hj, ledger, ledger, h, Array.getElem?_modify, if_neg (Ne.symm hj)]

theorem free_insert (w : SharedHeap) (site : Site) (c : Closure NodeRef) (j : Site) :
    ((w.insert site c).ledger j).free = (w.ledger j).free := by
  rw [ledger, ledger, insert, Array.getElem?_modify]
  split
  · cases w.ledgers[j]? <;> rfl
  · rfl

/-- A new ledger, in which nothing is counted, is as good as none. -/
theorem ledger_push (w : SharedHeap) (j : Site) :
    (⟨w.nodes, w.homes, w.ledgers.push {}⟩ : SharedHeap).ledger j = w.ledger j := by
  rw [ledger, ledger, Array.getElem?_push]
  split
  · subst_vars
    rw [Array.getElem?_eq_none (Nat.le_refl _)]
    rfl
  · rfl

/-- Each destruction is counted at the home of the node. -/
theorem ledger_foldl_bury (freed : List Cells.Freed)
    (hhome : ∀ f ∈ freed, w.home f.cell < w.ledgers.size) (j : Site) :
    (freed.foldl bury w).ledger j =
      (w.ledger j).recordFreed (freed.filter fun f => w.home f.cell = j) := by
  induction freed generalizing w with
  | nil => rfl
  | cons f freed ih =>
    have hbury : (bury w f).ledgers = w.ledgers.modify (w.home f.cell) (·.recordFree f.kind) := rfl
    have hledger := ledger_modify (hhome f (List.mem_cons_self ..)) hbury j
    have hsize : (bury w f).ledgers.size = w.ledgers.size := Array.size_modify
    have hrest := ih (w := bury w f) fun f' hf' => by
      rw [hsize]
      exact hhome f' (List.mem_cons_of_mem f hf')
    rw [List.foldl_cons, hrest, hledger, List.filter_cons]
    change Ledger.recordFreed _ (freed.filter fun f => w.home f.cell = j) = _
    by_cases hf : w.home f.cell = j
    · rw [if_pos hf.symm, if_pos (decide_eq_true hf)]
      rfl
    · rw [if_neg (Ne.symm hf), if_neg (by simpa using hf)]

theorem size_ledgers_foldl_bury (w : SharedHeap) (freed : List Cells.Freed) :
    (freed.foldl bury w).ledgers.size = w.ledgers.size := by
  induction freed generalizing w with
  | nil => rfl
  | cons f freed ih => exact (ih (bury w f)).trans Array.size_modify

/-- Nothing has been allocated behind the last node. -/
theorem size_notMem_allocatedAt (hmade : w.nodes.size = g.made.length) (j : Site) (k : Kind) :
    w.nodes.size ∉ w.allocatedAt g j k := by
  intro hmem
  have hlt := Grove.lt_of_kindOf hmem.2
  omega

/-- The nodes of an evaluator and a kind that giving a handle back destroys. -/
def freedAt (w : SharedHeap) (h : NodeRef) (site : Site) (k : Kind) : List Cells.Freed :=
  (w.nodes.release h.node).2.filter fun f => w.home f.cell = site ∧ f.kind = k

theorem allocatedAt_release (w : SharedHeap) (h : NodeRef) (g : Grove 8) (j : Site) (k : Kind) :
    (SharedHeap.release h w).allocatedAt g j k = w.allocatedAt g j k := by
  simp only [allocatedAt, (nodes_release h w).2]

/-- What is destroyed was there before. -/
theorem exists_of_freed {refs : Multiset Nat} {f : Cells.Freed}
    (hsound : w.nodes.Sound (h.node ::ₘ refs)) (hf : f ∈ (w.nodes.release h.node).2) :
    ∃ c, w.nodes.closure? f.cell = some c ∧ c.kind = f.kind :=
  Option.map_eq_some_iff.1 (hsound.release.2.emptied hf).2

namespace Accounts

/-- Without evaluators there is nothing to tell. -/
theorem initial : Accounts 0 {} {} where
  ledgers_size := rfl
  homes_size := rfl
  home_lt h := by simp at h
  alloc_eq site k := by
    have hset : allocatedAt {} {} site k = ∅ := by simp [allocatedAt]
    rw [hset, Set.ncard_empty]
    exact Ledger.alloc_get_empty k
  free_eq site k := by
    have hset : destroyedAt {} {} site k = ∅ := by simp [destroyedAt, allocatedAt]
    rw [hset, Set.ncard_empty]
    exact Ledger.free_get_empty k

/-- Further owners of nodes are not counted. -/
theorem acquireAll (ha : Accounts n w g) (l : List Nat) :
    Accounts n ⟨l.foldl Cells.acquire w.nodes, w.homes, w.ledgers⟩ g := by
  obtain ⟨hsize, hclosure⟩ := Cells.foldl_acquire w.nodes l
  refine { ha with homes_size := ha.homes_size.trans hsize.symm, free_eq := fun site k => ?_ }
  have hfree := ha.free_eq site k
  simp only [destroyedAt, hclosure]
  exact hfree

/-- A node that is added is at home with the evaluator that allocated it. -/
theorem mem_allocatedAt_insert (ha : Accounts n w g) (hmade : w.nodes.size = g.made.length)
    (site : Site) (c : Closure NodeRef) (i : Nat) (j : Site) (k : Kind) :
    i ∈ (w.insert site c).allocatedAt (g.grow c.kind) j k ↔
      if i = w.nodes.size then site = j ∧ c.kind = k else i ∈ w.allocatedAt g j k := by
  have hhome : (w.insert site c).homes[i]? =
      if i = w.nodes.size then some site else w.homes[i]? := by
    rw [SharedHeap.insert, Array.getElem?_push, ha.homes_size]
  have hkind : (g.grow c.kind).kindOf i =
      if i = w.nodes.size then some c.kind else g.kindOf i := by
    rw [hmade, Grove.kindOf_grow]
  simp only [allocatedAt, Set.mem_ofPred_eq, hhome, hkind]
  split <;> simp

/-- The new node is counted with its maker and its kind, and nothing else is. -/
theorem ncard_allocatedAt_insert (ha : Accounts n w g) (hmade : w.nodes.size = g.made.length)
    (site : Site) (c : Closure NodeRef) (j : Site) (k : Kind) :
    ((w.insert site c).allocatedAt (g.grow c.kind) j k).ncard =
      (w.allocatedAt g j k).ncard + if site = j ∧ c.kind = k then 1 else 0 := by
  by_cases hjk : site = j ∧ c.kind = k
  · have hset : (w.insert site c).allocatedAt (g.grow c.kind) j k =
        Insert.insert w.nodes.size (w.allocatedAt g j k) := by
      ext i
      rw [ha.mem_allocatedAt_insert hmade, Set.mem_insert_iff]
      split
      · exact iff_of_true hjk (.inl ‹_›)
      · exact (or_iff_right ‹_›).symm
    rw [hset, if_pos hjk, Set.ncard_insert_of_notMem (size_notMem_allocatedAt hmade j k)
      (w.finite_allocatedAt g j k)]
  · have hset : (w.insert site c).allocatedAt (g.grow c.kind) j k = w.allocatedAt g j k := by
      ext i
      rw [ha.mem_allocatedAt_insert hmade]
      split
      · subst_vars
        exact iff_of_false hjk (size_notMem_allocatedAt hmade j k)
      · rfl
    rw [hset, if_neg hjk, Nat.add_zero]

/-- Nothing is destroyed when a node is added. -/
theorem destroyedAt_insert (ha : Accounts n w g) (hmade : w.nodes.size = g.made.length)
    (site : Site) (c : Closure NodeRef) (j : Site) (k : Kind) :
    (w.insert site c).destroyedAt (g.grow c.kind) j k = w.destroyedAt g j k := by
  have hclosure (i : Nat) : (w.insert site c).nodes.closure? i =
      if i = w.nodes.size then some (c.map (·.node)) else w.nodes.closure? i :=
    Cells.closure?_push
  ext i
  simp only [destroyedAt, Set.mem_ofPred_eq, ha.mem_allocatedAt_insert hmade, hclosure]
  split
  · subst_vars
    simp [size_notMem_allocatedAt hmade j k]
  · rfl

/-- An allocation is counted by the evaluator that made it. -/
theorem insert (ha : Accounts n w g) (hmade : w.nodes.size = g.made.length) (hs : site < n)
    (c : Closure NodeRef) : Accounts n (w.insert site c) (g.grow c.kind) := by
  have hledger (j : Site) : (w.insert site c).ledger j =
      if j = site then (w.ledger j).recordAlloc c.kind else w.ledger j :=
    ledger_modify (f := (·.recordAlloc c.kind)) (ha.ledgers_size ▸ hs) rfl j
  constructor
  case ledgers_size => rw [SharedHeap.insert, Array.size_modify, ha.ledgers_size]
  case homes_size => rw [SharedHeap.insert, Array.size_push, Cells.size_push, ha.homes_size]
  case home_lt =>
    intro j hj
    rcases Array.mem_push.1 hj with hj | rfl
    · exact ha.home_lt hj
    · exact hs
  case alloc_eq =>
    intro j k
    rw [ha.ncard_allocatedAt_insert hmade, hledger, ← ha.alloc_eq]
    by_cases hj : j = site
    · simp [hj, Ledger.alloc_get_recordAlloc]
    · simp [hj, Ne.symm hj]
  case free_eq =>
    intro j k
    rw [ha.destroyedAt_insert hmade, free_insert, ha.free_eq]

section Release

variable {refs : Multiset Nat} {f : Cells.Freed}

theorem lt_size_of_freed (ha : Accounts n w g) (hsound : w.nodes.Sound (h.node ::ₘ refs))
    (hf : f ∈ (w.nodes.release h.node).2) : f.cell < w.homes.size := by
  obtain ⟨c, hc, -⟩ := exists_of_freed hsound hf
  obtain ⟨m, hcell⟩ := Cells.exists_cell_of_closure? hc
  rw [ha.homes_size]
  exact Cells.lt_size hcell

/-- The destroyed nodes are those that were allocated and are empty now only. -/
theorem mem_freedAt (ha : Accounts n w g) (hsound : w.nodes.Sound (h.node ::ₘ refs))
    (hkindOf : ∀ {i c}, w.nodes.closure? i = some c → g.kindOf i = some c.kind) {i : Nat}
    {j : Site} {k : Kind} : i ∈ (w.freedAt h j k).map (·.cell) ↔ i ∈ w.allocatedAt g j k ∧
      (w.nodes.release h.node).1.closure? i = none ∧ (w.nodes.closure? i).isSome := by
  have hfree := hsound.release.2
  constructor
  · intro hi
    obtain ⟨f, hf, rfl⟩ := List.mem_map.1 hi
    obtain ⟨hf, hq⟩ := List.mem_filter.1 hf
    obtain ⟨hj, hk⟩ := of_decide_eq_true hq
    obtain ⟨c, hc, hkind⟩ := exists_of_freed hsound hf
    refine ⟨⟨(home_eq_iff (ha.lt_size_of_freed hsound hf)).1 hj, ?_⟩,
      hfree.mem_iff.1 (List.mem_map_of_mem hf)⟩
    rw [hkindOf hc, hkind, hk]
  · intro ⟨⟨hj, hk⟩, hi⟩
    obtain ⟨f, hf, rfl⟩ := List.mem_map.1 (hfree.mem_iff.2 hi)
    obtain ⟨c, hc, hkind⟩ := exists_of_freed hsound hf
    rw [hkindOf hc, hkind] at hk
    have hhome := (home_eq_iff (ha.lt_size_of_freed hsound hf)).2 hj
    exact List.mem_map_of_mem
      (List.mem_filter.2 ⟨hf, decide_eq_true ⟨hhome, Option.some.inj hk⟩⟩)

/-- A release destroys what it frees besides what was destroyed before. -/
theorem ncard_destroyedAt_release (ha : Accounts n w g)
    (hsound : w.nodes.Sound (h.node ::ₘ refs))
    (hkindOf : ∀ {i c}, w.nodes.closure? i = some c → g.kindOf i = some c.kind) (j : Site)
    (k : Kind) : ((SharedHeap.release h w).destroyedAt g j k).ncard =
      (w.destroyedAt g j k).ncard + (w.freedAt h j k).length := by
  have hfree := hsound.release.2
  have hnodup : ((w.freedAt h j k).map (·.cell)).Nodup :=
    hfree.nodup.sublist (List.filter_sublist.map _)
  have hset : (SharedHeap.release h w).destroyedAt g j k =
      w.destroyedAt g j k ∪ {i | i ∈ (w.freedAt h j k).map (·.cell)} := by
    ext i
    simp only [destroyedAt, allocatedAt_release, (nodes_release h w).1, Set.mem_union,
      Set.mem_ofPred_eq, ha.mem_freedAt hsound hkindOf]
    by_cases hi : i ∈ (w.nodes.release h.node).2.map (·.cell)
    · obtain ⟨hnone, hsome⟩ := hfree.mem_iff.1 hi
      simp [hnone, hsome, Option.isSome_iff_ne_none.1 hsome]
    · rw [hfree.closure?_eq hi]
      cases w.nodes.closure? i <;> simp
  have hdisjoint :
      Disjoint (w.destroyedAt g j k) {i | i ∈ (w.freedAt h j k).map (·.cell)} := by
    rw [Set.disjoint_left]
    intro i hold hi
    have hsome := ((ha.mem_freedAt hsound hkindOf).1 hi).2.2
    rw [hold.2] at hsome
    cases hsome
  rw [hset, Set.ncard_union_eq hdisjoint (w.finite_destroyedAt g j k) (List.finite_toSet _),
    ncard_mem_of_nodup hnodup, List.length_map]

/-- What a release destroys is counted where it was allocated, each node once. -/
theorem release (ha : Accounts n w g) (hsound : w.nodes.Sound (h.node ::ₘ refs))
    (hkindOf : ∀ {i c}, w.nodes.closure? i = some c → g.kindOf i = some c.kind) :
    Accounts n (SharedHeap.release h w) g := by
  obtain ⟨hnodes, hhomes⟩ := nodes_release h w
  have hhome (f : Cells.Freed) (hf : f ∈ (w.nodes.release h.node).2) :
      w.home f.cell < w.ledgers.size := by
    rw [ha.ledgers_size]
    exact ha.home_lt (Array.mem_of_getElem? ((home_eq_iff (ha.lt_size_of_freed hsound hf)).1 rfl))
  have hledger (j : Site) : (SharedHeap.release h w).ledger j = (w.ledger j).recordFreed
      ((w.nodes.release h.node).2.filter fun f => w.home f.cell = j) :=
    ledger_foldl_bury (w := ⟨(w.nodes.release h.node).1, w.homes, w.ledgers⟩) _ hhome j
  constructor
  case ledgers_size => rw [release_eq, size_ledgers_foldl_bury, ha.ledgers_size]
  case homes_size => rw [hnodes, hsound.release.2.size_eq, hhomes, ha.homes_size]
  case home_lt =>
    rw [hhomes]
    exact ha.home_lt
  case alloc_eq =>
    intro j k
    rw [allocatedAt_release, hledger, Ledger.alloc_recordFreed, ha.alloc_eq]
  case free_eq =>
    intro j k
    have hcount : ((w.nodes.release h.node).2.filter fun f => w.home f.cell = j).countP
        (·.kind = k) = (w.freedAt h j k).length := by
      rw [List.countP_filter, List.countP_eq_length_filter]
      simp only [freedAt, Bool.decide_and, Bool.and_comm]
    rw [ha.ncard_destroyedAt_release hsound hkindOf, hledger, Ledger.free_get_recordFreed,
      ha.free_eq, hcount]

end Release

/-- One more evaluator has a ledger in which nothing is counted. -/
theorem push (ha : Accounts n w g) :
    Accounts (n + 1) ⟨w.nodes, w.homes, w.ledgers.push {}⟩ g := by
  constructor
  case ledgers_size => rw [Array.size_push, ha.ledgers_size]
  case homes_size => exact ha.homes_size
  case home_lt => exact fun hj => Nat.lt_succ_of_lt (ha.home_lt hj)
  case alloc_eq =>
    intro j k
    rw [ledger_push, ha.alloc_eq]
    rfl
  case free_eq =>
    intro j k
    rw [ledger_push, ha.free_eq]
    rfl

end Accounts

/-- What a primitive operation on held handles does: it adds a node and makes a closure of the same
kind, or it adds owners to nodes, or it releases a handle. -/
theorem leaves_cases {m : Machine SharedHeap} {t : Machine (Grove 8)} (site : Site)
    (deed : Deed (NodeRef × Tree)) (hrel : m.store.Pictures t.store held)
    (hhandles : (deed.handles : Multiset (NodeRef × Tree)) ≤ held) :
    (∃ c, (deed.map Prod.fst).leaves site m = m.store.insert site c ∧
        (deed.map Prod.snd).leaves 0 t = t.store.grow c.kind) ∨
      (∃ l : List Nat, (deed.map Prod.fst).leaves site m =
          ⟨l.foldl Cells.acquire m.store.nodes, m.store.homes, m.store.ledgers⟩ ∧
        (deed.map Prod.snd).leaves 0 t = t.store) ∨
      ∃ h refs, m.store.nodes.Sound (h.node ::ₘ refs) ∧
        (deed.map Prod.fst).leaves site m = SharedHeap.release h m.store ∧
        (deed.map Prod.snd).leaves 0 t = t.store := by
  cases deed with
  | alloc c =>
    refine .inl ⟨c.map Prod.fst, rfl, ?_⟩
    have hrun : Grove.alloc (c.map Prod.snd) t = _ := Grove.alloc_of_fits (hrel.fits _)
    refine (Act.leaves_of_ok hrun).trans ?_
    rw [Closure.kind_map, Closure.kind_map]
  | resolve p =>
    obtain ⟨l, hl⟩ := leaves_resolve p.1 m
    exact .inr (.inl ⟨l, hl, Grove.leaves_resolve p.2 t⟩)
  | retain p => exact .inr (.inl ⟨[p.1.node], rfl, rfl⟩)
  | release p =>
    obtain ⟨rest, rfl⟩ := Multiset.exists_cons_of_mem (Multiset.singleton_le.1 hhandles)
    have hsound := hrel.sound_nodes
    rw [Multiset.map_cons] at hsound
    exact .inr (.inr ⟨p.1, _, hsound, rfl, rfl⟩)
  | describe p => exact .inr (.inl ⟨[], leaves_describe p.1 m, rfl⟩)

/-- Each primitive operation of one of the evaluators keeps the accounts right. -/
theorem keeps_accounts (hs : site < n) : (sharing site).Keeps (Accounts n) := by
  intro m t held deed hrel hhandles ha
  obtain ⟨c, hx, hy⟩ | ⟨l, hx, hy⟩ | ⟨h, refs, hsound, hx, hy⟩ :=
    leaves_cases site deed hrel hhandles
  · exact hx ▸ hy ▸ ha.insert hrel.1 hs c
  · exact hx ▸ hy ▸ ha.acquireAll l
  · exact hx ▸ hy ▸ ha.release hsound hrel.kindOf_eq

/-- What becomes of a heap while one evaluator is at work: the nodes that are added are at home with
it, and what has been destroyed stays so. -/
structure Follows (w₀ : SharedHeap) (site : Site) (w : SharedHeap) : Prop where
  homes_eq : ∃ count, w.homes.toList = w₀.homes.toList ++ List.replicate count site
  size_le : w₀.nodes.size ≤ w.nodes.size
  closure?_eq_none {i : Nat} : i < w₀.nodes.size → w₀.nodes.closure? i = none →
    w.nodes.closure? i = none

theorem Follows.rfl : w.Follows site w := ⟨⟨0, by simp⟩, Nat.le_refl _, fun _ h => h⟩

/-- Where no node was added, it makes no difference which evaluator was at work. -/
theorem Follows.of_size_eq {w₀ : SharedHeap} {site' : Site} (h : w₀.Follows site w)
    (hsize : w.homes.size = w₀.homes.size) : w₀.Follows site' w := by
  obtain ⟨count, hcount⟩ := h.homes_eq
  have hlength := congrArg List.length hcount
  simp only [List.length_append, List.length_replicate, Array.length_toList] at hlength
  obtain rfl : count = 0 := by omega
  exact { h with homes_eq := ⟨0, hcount⟩ }

theorem Follows.acquireAll {w₀ : SharedHeap} (h : w₀.Follows site w) (l : List Nat) :
    w₀.Follows site ⟨l.foldl Cells.acquire w.nodes, w.homes, w.ledgers⟩ := by
  obtain ⟨hsize, hclosure⟩ := Cells.foldl_acquire w.nodes l
  refine ⟨h.homes_eq, hsize.symm ▸ h.size_le, fun hi hnone => ?_⟩
  rw [hclosure]
  exact h.closure?_eq_none hi hnone

theorem Follows.insert {w₀ : SharedHeap} (h : w₀.Follows site w) (c : Closure NodeRef) :
    w₀.Follows site (w.insert site c) := by
  obtain ⟨count, hcount⟩ := h.homes_eq
  have hle := h.size_le
  refine ⟨⟨count + 1, ?_⟩, ?_, fun hi hnone => ?_⟩
  · rw [SharedHeap.insert, Array.toList_push, hcount, List.append_assoc, List.replicate_succ']
  · rw [SharedHeap.insert, Cells.size_push]
    omega
  · rw [SharedHeap.insert, Cells.closure?_push, if_neg (by omega)]
    exact h.closure?_eq_none hi hnone

theorem Follows.release {w₀ : SharedHeap} (h : w₀.Follows site w) {r : NodeRef}
    {refs : Multiset Nat} (hsound : w.nodes.Sound (r.node ::ₘ refs)) :
    w₀.Follows site (SharedHeap.release r w) := by
  obtain ⟨-, hfree⟩ := hsound.release
  obtain ⟨hnodes, hhomes⟩ := nodes_release r w
  refine ⟨hhomes.symm ▸ h.homes_eq, ?_, fun hi hnone => ?_⟩
  · rw [hnodes, hfree.size_eq]
    exact h.size_le
  · rw [hnodes, Option.eq_none_iff_forall_ne_some]
    intro c hc
    have hold := hfree.closure?_some hc
    rw [h.closure?_eq_none hi hnone] at hold
    cases hold

/-- Each primitive operation of an evaluator is part of its work. -/
theorem keeps_follows (w₀ : SharedHeap) (site : Site) :
    (sharing site).Keeps fun w _ => w₀.Follows site w := by
  intro m t held deed hrel hhandles hw
  change w₀.Follows site ((deed.map Prod.fst).leaves site m)
  obtain ⟨c, hx, -⟩ | ⟨l, hx, -⟩ | ⟨h, refs, hsound, hx, -⟩ :=
    leaves_cases site deed hrel hhandles
  · exact hx ▸ hw.insert c
  · exact hx ▸ hw.acquireAll l
  · exact hx ▸ hw.release hsound

end ChurchStore.SharedHeap
