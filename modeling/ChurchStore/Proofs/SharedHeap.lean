import ChurchStore.Proofs.Cells.Release
import ChurchStore.Proofs.Ledger
import ChurchStore.Proofs.Representation
import ChurchStore.SharedHeap

/-!
# The shared heap represents groves

The nodes of a heap are sound cells, and the counters of the evaluator that allocated them differ
by the closures that are there. A node is never used again, so nothing that was allocated changes
before it is destroyed.
-/

namespace ChurchStore.SharedHeap

variable {w : SharedHeap} {site : Site} {h : NodeRef}

theorem ledger_of_modify {w' : SharedHeap} {f : Ledger → Ledger} (hs : site < w.ledgers.size)
    (h : w'.ledgers = w.ledgers.modify site f) : w'.ledger site = f (w.ledger site) := by
  rw [ledger, h]
  exact Modify.getD_modify hs f _

/-- The destruction of nodes that one evaluator allocated is counted in its ledger. -/
theorem foldl_bury (freed : List Cells.Freed) (hhome : ∀ f ∈ freed, w.home f.cell = site) :
    freed.foldl bury w = { w with ledgers := w.ledgers.modify site (·.recordFreed freed) } := by
  induction freed generalizing w with
  | nil =>
    have hid : (fun l : Ledger => l.recordFreed []) = id := rfl
    rw [hid, Modify.modify_id]
    rfl
  | cons f freed ih =>
    have hf : w.home f.cell = site := hhome f (List.mem_cons_self ..)
    have hbury : bury w f = { w with ledgers := w.ledgers.modify site (·.recordFree f.kind) } := by
      rw [bury, hf]
    have hrest := ih (w := { w with ledgers := w.ledgers.modify site (·.recordFree f.kind) })
      fun g hg => hhome g (List.mem_cons_of_mem f hg)
    rw [List.foldl_cons, hbury, hrest, Modify.modify_modify]
    rfl

theorem resolve_of_closure? {m : Machine SharedHeap} {x : Closure Nat}
    (hx : m.store.nodes.closure? h.node = some x) :
    resolve h m = .ok (x.map (⟨·⟩)) ⟨{ m.store with
      nodes := x.captures.foldl Cells.acquire m.store.nodes }, m.journal⟩ := by
  simp only [resolve, Bind.bind, EStateM.bind, Act.read, hx, Act.update]
  rfl

theorem describe_of_closure? {m : Machine SharedHeap} {x : Closure Nat}
    (hx : m.store.nodes.closure? h.node = some x) : ∃ p, describe h m = .ok p m := by
  simp only [describe, Bind.bind, EStateM.bind, Act.read, hx]
  exact ⟨_, rfl⟩

/-- The heap is sound for the held handles, and all its nodes belong to one evaluator. -/
structure Sound (site : Site) (w : SharedHeap) (held : Multiset NodeRef) : Prop where
  lt_size : site < w.ledgers.size
  nodes : w.nodes.Sound (held.map (·.node))
  homes_size : w.homes.size = w.nodes.size
  home_eq {i : Nat} : i < w.nodes.size → w.home i = site
  alloc_eq (k : Kind) : (w.ledger site).alloc.get k =
    (w.ledger site).free.get k + w.nodes.census k

/-- The closures in the nodes. -/
def view (site : Site) : View SharedHeap NodeRef where
  site := site
  look w h := (w.nodes.closure? h.node).map (·.map (⟨·⟩))
  allocated w k := (w.ledger site).alloc.get k

theorem look_eq_some {c : Closure NodeRef} (hc : (view site).look w h = some c) :
    ∃ x, w.nodes.closure? h.node = some x ∧ c = x.map (⟨·⟩) := by
  obtain ⟨x, hx, hxc⟩ := Option.map_eq_some_iff.1 hc
  exact ⟨x, hx, hxc.symm⟩

theorem isSome_look : ((view site).look w h).isSome = (w.nodes.closure? h.node).isSome :=
  Option.isSome_map

/-- What an operation that loses no more than some closures leaves to be seen. -/
theorem within_of {w' : SharedHeap}
    (hnodes : ∀ i c, w'.nodes.closure? i = some c → w.nodes.closure? i = some c)
    (halloc : (w'.ledger site).alloc = (w.ledger site).alloc) : (view site).Within w' w where
  look_eq {h c} hc := by
    obtain ⟨x, hx, rfl⟩ := look_eq_some hc
    simp only [view]
    rw [hnodes _ _ hx]
    rfl
  now_eq := rfl
  allocated_eq k := by simp only [view, halloc]

namespace Sound

variable {held : Multiset NodeRef} {m : Machine SharedHeap} {c : Closure NodeRef}

theorem owners_pos (hw : Sound site w held) (hh : h ∈ held) : 0 < w.nodes.owners h.node :=
  hw.nodes.owners_pos_of_mem (Multiset.mem_map_of_mem _ hh)

theorem isSome_closure? (hw : Sound site w held) (hh : h ∈ held) :
    (w.nodes.closure? h.node).isSome :=
  hw.nodes.isSome_of_mem (Multiset.mem_map_of_mem _ hh)

/-- Owners are added to nodes that have one. -/
theorem acquireAll (hw : Sound site w held) (l : List NodeRef)
    (hl : ∀ h ∈ l, 0 < w.nodes.owners h.node) :
    Sound site { w with nodes := (l.map (·.node)).foldl Cells.acquire w.nodes } (l + held) ∧
      (view site).Within { w with nodes := (l.map (·.node)).foldl Cells.acquire w.nodes } w := by
  obtain ⟨hnodes, hsize, hclosure, hcensus⟩ := hw.nodes.acquireAll (l.map (·.node))
    fun i hi => by
      obtain ⟨h, hh, rfl⟩ := List.mem_map.1 hi
      exact hl h hh
  refine ⟨⟨hw.lt_size, ?_, ?_, fun hi => ?_, fun k => ?_⟩, within_of (fun i c hc => ?_) rfl⟩
  · rw [Multiset.map_add, Multiset.map_coe]
    exact hnodes
  · rw [hsize]
    exact hw.homes_size
  · rw [hsize] at hi
    exact hw.home_eq hi
  · rw [hcensus]
    exact hw.alloc_eq k
  · rwa [hclosure] at hc

theorem retain (hw : Sound site w held) (hh : h ∈ held) :
    Sound site (SharedHeap.retain h w) (h ::ₘ held) ∧
      (view site).Within (SharedHeap.retain h w) w := by
  have hall := hw.acquireAll [h] fun k hk => by
    obtain rfl := List.mem_singleton.1 hk
    exact hw.owners_pos hh
  rwa [Multiset.coe_singleton, Multiset.singleton_add] at hall

theorem release (hw : Sound site w (h ::ₘ held)) :
    Sound site (SharedHeap.release h w) held ∧
      (view site).Within (SharedHeap.release h w) w := by
  have hnodes := hw.nodes
  rw [Multiset.map_cons] at hnodes
  obtain ⟨hnodes, hfree⟩ := hnodes.release
  have hhome (f : Cells.Freed) (hf : f ∈ (w.nodes.release h.node).2) :
      ({ w with nodes := (w.nodes.release h.node).1 } : SharedHeap).home f.cell = site :=
    hw.home_eq (hfree.cell_lt hf)
  have hrun : SharedHeap.release h w = ⟨(w.nodes.release h.node).1, w.homes,
      w.ledgers.modify site (·.recordFreed (w.nodes.release h.node).2)⟩ := foldl_bury _ hhome
  have hledger : (SharedHeap.release h w).ledger site =
      (w.ledger site).recordFreed (w.nodes.release h.node).2 :=
    ledger_of_modify (f := (·.recordFreed _)) hw.lt_size (by rw [hrun])
  rw [hrun] at hledger ⊢
  refine ⟨⟨?_, hnodes, ?_, fun hi => ?_, fun k => ?_⟩,
    within_of (fun i c => hfree.closure?_some) ?_⟩
  · rw [Array.size_modify]
    exact hw.lt_size
  · rw [hfree.size_eq]
    exact hw.homes_size
  · rw [hfree.size_eq] at hi
    exact hw.home_eq hi
  · have hcensus := hfree.census_eq k
    have halloc := hw.alloc_eq k
    rw [hledger, Ledger.alloc_recordFreed, Ledger.free_get_recordFreed]
    simp only
    omega
  · rw [hledger, Ledger.alloc_recordFreed]

theorem alloc (hw : Sound site m.store (c.captures + held)) :
    ∃ a m', SharedHeap.alloc site c m = .ok a m' ∧ Sound site m'.store (a ::ₘ held) ∧
      (view site).Extends m.store m'.store a c := by
  have hnodes := hw.nodes
  rw [Multiset.map_add, Multiset.map_coe, ← Closure.captures_map] at hnodes
  have hnone : m.store.nodes.closure? m.store.nodes.size = none :=
    Cells.closure?_of_size_le (Nat.le_refl _)
  have hledger : (m.store.insert site c).ledger site =
      (m.store.ledger site).recordAlloc c.kind :=
    ledger_of_modify (f := (·.recordAlloc _)) hw.lt_size rfl
  refine ⟨⟨m.store.nodes.size⟩, { m with store := m.store.insert site c }, rfl, ?_, ?_⟩
  · constructor
    case lt_size =>
      rw [insert, Array.size_modify]
      exact hw.lt_size
    case nodes =>
      rw [Multiset.map_cons]
      exact hnodes.push
    case homes_size =>
      rw [insert, Array.size_push, Cells.size_push, hw.homes_size]
    case home_eq =>
      intro i hi
      rw [insert, Cells.size_push] at hi
      rw [home, insert, Array.getElem?_push, hw.homes_size]
      by_cases hlast : i = m.store.nodes.size
      · rw [if_pos hlast]
        rfl
      · rw [if_neg hlast]
        exact hw.home_eq (by omega)
    case alloc_eq =>
      intro k
      have halloc := hw.alloc_eq k
      have hfree : ((m.store.ledger site).recordAlloc c.kind).free =
        (m.store.ledger site).free := rfl
      rw [hledger, Ledger.alloc_get_recordAlloc, hfree, insert, Cells.census_push]
      simp only [Cell.holds_some, decide_eq_true_eq, Closure.kind_map]
      omega
  · constructor
    case fresh =>
      simp only [view]
      rw [hnone]
      rfl
    case epoch_eq => rfl
    case look_eq =>
      intro h x hx
      obtain ⟨y, hy, rfl⟩ := look_eq_some hx
      rw [insert, Cells.closure?_push] at hy
      split at hy
      · rename_i hnode
        cases hy
        refine .inl ⟨by rw [← hnode], ?_⟩
        rw [Closure.map_map]
        exact Closure.map_eq_self fun _ _ => rfl
      · right
        simp only [view]
        rw [hy]
        rfl
    case now_eq => rfl
    case allocated_eq =>
      intro k
      simp only [view]
      rw [hledger, Ledger.alloc_get_recordAlloc]

theorem resolve (hw : Sound site m.store held) (hh : h ∈ held) :
    ∃ c m', SharedHeap.resolve h m = .ok c m' ∧ (view site).look m.store h = some c ∧
      Sound site m'.store (c.captures + held) ∧ (view site).Within m'.store m.store := by
  obtain ⟨x, hx⟩ := Option.isSome_iff_exists.1 (hw.isSome_closure? hh)
  have hall := hw.acquireAll (x.map NodeRef.mk).captures fun k hk => by
    rw [Closure.captures_map] at hk
    obtain ⟨i, hi, rfl⟩ := List.mem_map.1 hk
    exact hw.nodes.owners_pos_of_captured hx hi
  have hid : (NodeRef.node ∘ NodeRef.mk : Nat → Nat) = id := rfl
  rw [Closure.captures_map, List.map_map, hid, List.map_id] at hall
  refine ⟨_, _, resolve_of_closure? hx, ?_, ?_, hall.2⟩
  · simp only [view]
    rw [hx]
    rfl
  · rw [Closure.captures_map]
    exact hall.1

theorem describe (hw : Sound site m.store held) (hh : h ∈ held) :
    ∃ p, SharedHeap.describe h m = .ok p m := by
  obtain ⟨x, hx⟩ := Option.isSome_iff_exists.1 (hw.isSome_closure? hh)
  exact describe_of_closure? hx

end Sound

/-- The heap keeps the laws of a store that represents a grove. -/
def representation (site : Site) : Representation SharedHeap where
  toView := view site
  Sound := Sound site
  look_of_mem hw hh _ := by
    rw [isSome_look]
    exact hw.isSome_closure? hh
  look_of_captured hw hc hx _ := by
    obtain ⟨y, hy, rfl⟩ := look_eq_some hc
    rw [Closure.captures_map] at hx
    obtain ⟨i, hi, rfl⟩ := List.mem_map.1 hx
    rw [isSome_look]
    exact hw.nodes.isSome_of_captured hy hi
  epoch_of_look _ _ := rfl
  retain := Sound.retain
  release := Sound.release
  alloc_fits hw _ := hw.alloc
  alloc_oversize _ h := nomatch h
  resolve_current hw hh _ := hw.resolve hh
  resolve_stale _ _ h := absurd rfl h
  same_iff := beq_iff_eq
  describe hw hh := by
    obtain ⟨p, hp⟩ := hw.describe hh
    exact ⟨p, _, hp, hw, .rfl⟩

end ChurchStore.SharedHeap
