import ChurchStore.Proofs.Cells.Mask
import ChurchStore.Proofs.Mask
import ChurchStore.Proofs.SharedHeap

/-!
# Masked heaps

A mask over the nodes of the shared heap, all but some of one evaluator. As long as only handles
are used that are not hidden, each operation does the same with the heap and with what the mask
leaves of it.
-/

namespace ChurchStore.SharedHeap

/-- The heap with a mask over its nodes, in which all of them are at home with one evaluator. The
counters of this evaluator are raised accordingly. -/
def cover (site : Site) (hidden : Nat → Bool) (more : Ledger) (w : SharedHeap) : SharedHeap where
  nodes := w.nodes.mask hidden
  homes := w.homes.map fun _ => site
  ledgers := w.ledgers.modify site more.raise

/-- The nodes that are not hidden are at home with the evaluator. -/
structure Fits (site : Site) (hidden : Nat → Bool) (w : SharedHeap) : Prop where
  lt_size : site < w.ledgers.size
  homes_size : w.homes.size = w.nodes.size
  home_eq {i : Nat} : hidden i = false → i < w.nodes.size → w.home i = site

def mask (site : Site) (hidden : Nat → Bool) (more : Ledger) (others : Multiset NodeRef) :
    Mask SharedHeap NodeRef where
  hidden h := hidden h.node
  cover := cover site hidden more
  others := others
  Fits := Fits site hidden

variable {site : Site} {hidden : Nat → Bool} {more : Ledger} {others held : Multiset NodeRef}
  {w : SharedHeap} {m : Machine SharedHeap} {h : NodeRef} {c : Closure NodeRef}

/-- Owners may come and go. -/
theorem Fits.of_size_eq {nodes : Cells} (h : Fits site hidden w)
    (hsize : nodes.size = w.nodes.size) : Fits site hidden { w with nodes } where
  lt_size := h.lt_size
  homes_size := h.homes_size.trans hsize.symm
  home_eq hi hlt := h.home_eq hi (hsize ▸ hlt)

theorem Fits.modify (h : Fits site hidden w) (f : Ledger → Ledger) :
    Fits site hidden { w with ledgers := w.ledgers.modify site f } where
  lt_size := by
    rw [Array.size_modify]
    exact h.lt_size
  homes_size := h.homes_size
  home_eq := h.home_eq

theorem Fits.insert (h : Fits site hidden w) (c : Closure NodeRef) :
    Fits site hidden (w.insert site c) where
  lt_size := by
    rw [SharedHeap.insert, Array.size_modify]
    exact h.lt_size
  homes_size := by rw [SharedHeap.insert, Array.size_push, Cells.size_push, h.homes_size]
  home_eq {i} hi hlt := by
    rw [SharedHeap.insert, Cells.size_push] at hlt
    rw [home, SharedHeap.insert, Array.getElem?_push, h.homes_size]
    split
    · rfl
    · exact h.home_eq hi (by omega)

theorem home_cover (hsize : w.homes.size = w.nodes.size) {i : Nat} (hi : i < w.nodes.size) :
    (cover site hidden more w).home i = site := by
  rw [← hsize] at hi
  simp [home, cover, hi]

theorem ledger_cover (hs : site < w.ledgers.size) :
    (cover site hidden more w).ledger site = more.raise (w.ledger site) :=
  ledger_of_modify hs rfl

theorem cover_insert (hi : hidden w.nodes.size = false) (c : Closure NodeRef) :
    cover site hidden more (w.insert site c) = (cover site hidden more w).insert site c := by
  simp only [cover, insert, Cells.mask_push hi, Array.map_push, Modify.modify_modify]
  congr 1
  exact Modify.modify_congr fun l _ => Ledger.raise_recordAlloc more l c.kind

section Covered

variable (hs : (mask site hidden more others).Sound (representation site) w held)

include hs

theorem sound_nodes : (w.nodes.mask hidden).Sound ((held + others).map (·.node)) := hs.sound.nodes

/-- Nodes of held handles are as they seem, and have an owner. -/
theorem shown_of_held (hh : h ∈ held) :
    hidden h.node = false ∧ 0 < (w.nodes.mask hidden).owners h.node :=
  ⟨hs.shown_of_mem hh, (sound_nodes hs).owners_pos_of_mem
    (Multiset.mem_map_of_mem _ (Multiset.mem_add.2 (.inl hh)))⟩

theorem discloses : w.nodes.Discloses hidden := by
  intro j hj
  obtain ⟨i, c, hc, hjc⟩ := Cells.mem_captured.1 hj
  have hlook : (view site).look (cover site hidden more w) ⟨i⟩ = some (c.map (⟨·⟩)) :=
    congrArg (Option.map _) hc
  refine hs.shown_of_captured (x := ⟨j⟩) hlook ?_
  rw [Closure.captures_map]
  exact List.mem_map_of_mem hjc

theorem isSome_of_others {i : Nat} (hi : ⟨i⟩ ∈ others) :
    ((w.nodes.mask hidden).closure? i).isSome :=
  (sound_nodes hs).isSome_of_mem
    (Multiset.mem_map_of_mem (·.node) (Multiset.mem_add.2 (.inr hi)))

/-- New nodes are not hidden. -/
theorem hidden_size (hothers : ∀ i, hidden i = true → ⟨i⟩ ∈ others) :
    hidden w.nodes.size = false := by
  by_contra hne
  have hsome := isSome_of_others hs (hothers _ (by simpa using hne))
  rw [Cells.closure?_of_size_le (by rw [Cells.size_mask])] at hsome
  cases hsome

end Covered

/-- The nodes that are given up with a held handle are at home with the evaluator. -/
theorem home_of_freed (hothers : ∀ i, hidden i = true → ⟨i⟩ ∈ others)
    (hs : (mask site hidden more others).Sound (representation site) w (h ::ₘ held))
    {f : Cells.Freed} (hf : f ∈ (w.nodes.release h.node).2) : w.home f.cell = site := by
  have hcells := sound_nodes hs
  rw [Multiset.cons_add, Multiset.map_cons] at hcells
  have hmask := Cells.release_mask hcells (hs.shown_of_mem (Multiset.mem_cons_self h held))
    (discloses hs)
  obtain ⟨hafter, hfree⟩ := hcells.release
  have hmem : f ∈ ((w.nodes.mask hidden).release h.node).2 := by rwa [hmask]
  obtain ⟨hnone, -⟩ := hfree.emptied hmem
  refine hs.fits.home_eq ?_ ?_
  · -- The others still hold what is hidden.
    by_contra hne
    have hmem : ⟨f.cell⟩ ∈ held + others :=
      Multiset.mem_add.2 (.inr (hothers _ (by simpa using hne)))
    have hsome := hafter.isSome_of_mem (Multiset.mem_map_of_mem (·.node) hmem)
    rw [hnone] at hsome
    cases hsome
  · rw [← Cells.size_mask hidden]
    exact hfree.cell_lt hmem

theorem cover_release (hothers : ∀ i, hidden i = true → ⟨i⟩ ∈ others)
    (hs : (mask site hidden more others).Sound (representation site) w (h ::ₘ held)) :
    Fits site hidden (release h w) ∧
      cover site hidden more (release h w) = release h (cover site hidden more w) := by
  have hcells := sound_nodes hs
  rw [Multiset.cons_add, Multiset.map_cons] at hcells
  have hmask := Cells.release_mask hcells (hs.shown_of_mem (Multiset.mem_cons_self h held))
    (discloses hs)
  have hfree := w.nodes.freeing_release h.node
  have hrun := foldl_bury (w := { w with nodes := (w.nodes.release h.node).1 })
    (w.nodes.release h.node).2 fun f hf => home_of_freed hothers hs hf
  have hcover := foldl_bury
    (w := { cover site hidden more w with nodes := (w.nodes.release h.node).1.mask hidden })
    (w.nodes.release h.node).2 fun f hf =>
      @home_cover site hidden more w hs.fits.homes_size _ (hfree.cell_lt hf)
  simp only [release, hmask, cover] at hrun hcover ⊢
  rw [hrun, hcover]
  refine ⟨(hs.fits.of_size_eq hfree.size_eq).modify _, ?_⟩
  simp only [Modify.modify_modify]
  congr 1
  exact Modify.modify_congr fun l _ => Ledger.raise_recordFreed more l _

/-- Owners are added to the captures of a closure that is not hidden, which are not hidden
either. -/
theorem cover_resolve {n : Machine SharedHeap}
    (hs : (mask site hidden more others).Sound (representation site) m.store held) (hh : h ∈ held)
    (hrun : resolve h ⟨cover site hidden more m.store, m.journal⟩ = .ok c n) :
    ∃ m', resolve h m = .ok c m' ∧ Fits site hidden m'.store ∧
      cover site hidden more m'.store = n.store := by
  obtain ⟨hi, hpos⟩ := shown_of_held hs hh
  obtain ⟨k, x, hcell, hmask⟩ := (sound_nodes hs).exists_unmasked hi hpos
  have hok := resolve_of_closure? (h := h) (m := ⟨cover site hidden more m.store, m.journal⟩)
    (Cells.closure?_eq hmask)
  cases hok.symm.trans hrun
  have hacquire := Cells.mask_foldl_acquire (sound_nodes hs) x.captures fun j hj =>
    ⟨discloses hs j (Cells.mem_captured.2 ⟨_, x, Cells.closure?_eq hmask, hj⟩),
      (sound_nodes hs).owners_pos_of_captured (Cells.closure?_eq hmask) hj⟩
  refine ⟨_, resolve_of_closure? (Cells.closure?_eq hcell),
    hs.fits.of_size_eq (Cells.foldl_acquire ..).1, ?_⟩
  exact congrArg (fun nodes => { cover site hidden more m.store with nodes }) hacquire

theorem lawful_mask (hothers : ∀ i, hidden i = true → ⟨i⟩ ∈ others) :
    (mask site hidden more others).Lawful (representation site) where
  epoch_eq _ _ := rfl
  now_cover _ := rfl
  capacity_eq _ := rfl
  allocated_cover k := by
    refine ⟨more.alloc.get k, fun w hw => ?_⟩
    change ((cover site hidden more w).ledger site).alloc.get k = _
    rw [ledger_cover hw.lt_size]
    exact PerKind.get_ofFn _ k
  look_cover {w held h c} hs hh hc := by
    obtain ⟨x, hx, rfl⟩ := look_eq_some hc
    change (view site).look w h = _
    simp only [view]
    rw [← Cells.closure?_mask hh]
    exact congrArg (Option.map _) hx
  retain {w held h} hs hh := by
    obtain ⟨hi, hpos⟩ := shown_of_held hs hh
    refine ⟨hs.fits.of_size_eq (Cells.size_acquire ..), ?_⟩
    change cover site hidden more (retain h w) = retain h (cover site hidden more w)
    simp only [cover, retain, Cells.mask_acquire (sound_nodes hs) hi hpos]
  release hs := cover_release hothers hs
  alloc {m c held a n} hs hrun := by
    cases hrun
    have hnode := hidden_size hs hothers
    have hsize : (cover site hidden more m.store).nodes.size = m.store.nodes.size :=
      Cells.size_mask ..
    refine ⟨?_, { m with store := m.store.insert site c }, ?_, hs.fits.insert c,
      cover_insert hnode c⟩
    · change hidden (cover site hidden more m.store).nodes.size = false
      rw [hsize, hnode]
    · change SharedHeap.alloc site c m = .ok ⟨(cover site hidden more m.store).nodes.size⟩ _
      rw [hsize]
      rfl
  resolve hs hh hrun := cover_resolve hs hh hrun
  describe {m held h} hs hh := by
    obtain ⟨hi, hpos⟩ := shown_of_held hs hh
    obtain ⟨k, x, hcell, -⟩ := (sound_nodes hs).exists_unmasked hi hpos
    obtain ⟨p, hrun⟩ := describe_of_closure? (m := m) (Cells.closure?_eq hcell)
    exact ⟨p, m, hrun, rfl⟩

/-! ### The beginning -/

/-- The node of a builtin function of an evaluator. -/
abbrev builtinNode (e : Evaluator NodeRef) (b : Builtin) : Nat := (e.singletons.get b).node

/-- The nodes but those of builtin functions. -/
def olderNodes (w : SharedHeap) (cell : Builtin → Nat) (i : Nat) : Bool :=
  i < w.nodes.size && !Builtin.all.any (cell · == i)

theorem olderNodes_eq_true {cell : Builtin → Nat} {i : Nat} :
    olderNodes w cell i = true ↔ i < w.nodes.size ∧ ∀ b, cell b ≠ i := by
  have hall (b : Builtin) : b ∈ Builtin.all := by cases b <;> decide
  simp [olderNodes, hall]

theorem exists_cell_of_olderNodes {cell : Builtin → Nat} {i : Nat}
    (hi : olderNodes w cell i = false) (hlt : i < w.nodes.size) : ∃ b, cell b = i := by
  rw [← Bool.not_eq_true, olderNodes_eq_true] at hi
  by_contra hnone
  exact hi ⟨hlt, fun b hb => hnone ⟨b, hb⟩⟩

theorem isolates_olderNodes {cell : Builtin → Nat}
    (hstands : ∀ b, ∃ k, 0 < k ∧ w.nodes.Stands (cell b) b.closure k) :
    w.nodes.Isolates (olderNodes w cell) cell where
  stands := hstands
  hidden_cell b := by
    rw [← Bool.not_eq_true, olderNodes_eq_true]
    exact fun h => h.2 b rfl
  lt_size hi := (olderNodes_eq_true.1 hi).1
  of_closure? hi hc :=
    exists_cell_of_olderNodes hi (Cells.lt_size_of_isSome (Option.isSome_of_eq_some hc))

/-- With counters that fit, the mask leaves a sound heap. -/
theorem exists_sound_mask {e : Evaluator NodeRef} (hlt : e.site < w.ledgers.size)
    (hsize : w.homes.size = w.nodes.size)
    (hhome : ∀ b, w.home (builtinNode e b) = e.site)
    (hisolates : w.nodes.Isolates (olderNodes w (builtinNode e)) (builtinNode e)) :
    ∃ more others, (∀ i, olderNodes w (builtinNode e) i = true →
        ⟨i⟩ ∈ others) ∧
      (mask e.site (olderNodes w (builtinNode e)) more others).Sound
        (representation e.site) w (Builtin.all.map e.singletons.get : List NodeRef) := by
  obtain ⟨others, hsound, hothers⟩ := hisolates.exists_sound
  obtain ⟨more, hmore⟩ := Ledger.exists_raise (w.ledger e.site)
    (w.nodes.mask (olderNodes w (builtinNode e))).census
  refine ⟨more, others.map (⟨·⟩), fun i hi => Multiset.mem_map_of_mem _ (hothers i hi), ?_⟩
  constructor
  case fits =>
    refine ⟨hlt, hsize, fun hi hlt => ?_⟩
    obtain ⟨b, rfl⟩ := exists_cell_of_olderNodes hi hlt
    exact hhome b
  case sound =>
    constructor
    case lt_size =>
      change _ < (w.ledgers.modify ..).size
      rwa [Array.size_modify]
    case nodes =>
      have hnodes : (others.map NodeRef.mk).map (·.node) = others :=
        (Multiset.map_map ..).trans (Multiset.map_id others)
      rw [Multiset.map_add, Multiset.map_coe, List.map_map]
      change Cells.Sound _ (_ + (others.map NodeRef.mk).map (·.node))
      rw [hnodes]
      exact hsound
    case homes_size =>
      change (w.homes.map _).size = (w.nodes.mask _).size
      rw [Array.size_map, Cells.size_mask, hsize]
    case home_eq =>
      exact fun hi => home_cover hsize (by rwa [← Cells.size_mask])
    case alloc_eq =>
      intro k
      change ((cover ..).ledger _).alloc.get k = ((cover ..).ledger _).free.get k + _
      rw [ledger_cover hlt]
      exact hmore k
  case shown_of_mem =>
    intro h hh
    obtain ⟨b, -, rfl⟩ := List.mem_map.1 hh
    exact hisolates.hidden_cell b
  case shown_of_captured =>
    intro h x c hc hx
    obtain ⟨y, hy, rfl⟩ := look_eq_some hc
    rw [Closure.captures_map, hisolates.captures_eq_nil hy] at hx
    cases hx

/-- Whatever has been done to the heap, an evaluator can go on with the builtin functions. -/
theorem exists_begins {e : Evaluator NodeRef} (hlt : e.site < w.ledgers.size)
    (hsize : w.homes.size = w.nodes.size)
    (hhome : ∀ b, w.home (builtinNode e b) = e.site)
    (hstands : ∀ b, ∃ k, 0 < k ∧ w.nodes.Stands (builtinNode e b) b.closure k) :
    ∃ R : Representation SharedHeap, R.Begins (view e.site) e w := by
  have hisolates := isolates_olderNodes hstands
  obtain ⟨more, others, hothers, hs⟩ := exists_sound_mask hlt hsize hhome hisolates
  refine ⟨(lawful_mask hothers).representation, (lawful_mask hothers).begins rfl hs (fun b => ?_)
    (fun {h c} hh hc => ?_) fun w k => ?_⟩
  · change (view e.site).look (cover ..) _ = _
    exact (congrArg (Option.map _) (hisolates.closure?_cell b)).trans
      (congrArg some (b.map_closure _))
  · obtain ⟨y, hy, -⟩ := look_eq_some hc
    obtain ⟨b, hb⟩ := hisolates.of_closure? hh ((Cells.closure?_mask hh).symm.trans hy)
    refine ⟨b, ?_⟩
    cases h
    exact congrArg NodeRef.mk hb
  · exact (congrArg AllocFree.alloc ((w.ledger e.site).kind_snapshot k)).symm

end ChurchStore.SharedHeap
