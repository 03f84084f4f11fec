import ChurchStore.Proofs.Agreement
import ChurchStore.Proofs.Counted
import ChurchStore.Proofs.Liveness
import ChurchStore.Proofs.Simulation.Strengthening

/-!
# One heap for several evaluators

Which evaluator allocated a node makes no difference to what is in it. So a heap that several
evaluators share goes along with a grove as the heap of one evaluator does. And since a node is
never used again, the closures of the grove bear the numbers of the nodes that stand for them.
-/

namespace ChurchStore

open Session

namespace SharedHeap

variable {w : SharedHeap} {l : Ledger} {site : Site} {h : NodeRef}

/-- The heap as if one evaluator, with the counters `l`, had allocated all nodes. -/
def solo (w : SharedHeap) (l : Ledger) : SharedHeap := ⟨w.nodes, w.homes.map fun _ => 0, #[l]⟩

theorem home_solo (w : SharedHeap) (l : Ledger) (i : Nat) : (w.solo l).home i = 0 := by
  rw [home, solo, Array.getElem?_map]
  cases w.homes[i]? <;> rfl

/-- Destructions are counted in the ledgers, and nothing else is changed. -/
theorem foldl_bury_eq (w : SharedHeap) (freed : List Cells.Freed) :
    freed.foldl bury w = ⟨w.nodes, w.homes, (freed.foldl bury w).ledgers⟩ := by
  induction freed generalizing w with
  | nil => rfl
  | cons f freed ih =>
    rw [List.foldl_cons, ih (bury w f)]
    rfl

theorem release_eq (h : NodeRef) (w : SharedHeap) : SharedHeap.release h w =
    (w.nodes.release h.node).2.foldl bury ⟨(w.nodes.release h.node).1, w.homes, w.ledgers⟩ :=
  rfl

theorem release_solo (h : NodeRef) (w : SharedHeap) (l : Ledger) : ∃ l',
    SharedHeap.release h (w.solo l) = (SharedHeap.release h w).solo l' := by
  refine ⟨l.recordFreed (w.nodes.release h.node).2, ?_⟩
  have hhome (f : Cells.Freed) (_ : f ∈ (w.nodes.release h.node).2) :
      (⟨(w.nodes.release h.node).1, (w.solo l).homes, #[l]⟩ : SharedHeap).home f.cell = 0 :=
    home_solo w l f.cell
  rw [release_eq h w, foldl_bury_eq]
  exact foldl_bury _ hhome

theorem insert_solo (w : SharedHeap) (l : Ledger) (site : Site) (c : Closure NodeRef) :
    (w.solo l).insert 0 c = (w.insert site c).solo (l.recordAlloc c.kind) := by
  simp [insert, solo]

/-- A release changes no home. -/
theorem nodes_release (h : NodeRef) (w : SharedHeap) :
    (SharedHeap.release h w).nodes = (w.nodes.release h.node).1 ∧
      (SharedHeap.release h w).homes = w.homes := by
  rw [release_eq, foldl_bury_eq]
  exact ⟨rfl, rfl⟩

/-- Resolving adds owners to nodes. -/
theorem leaves_resolve (h : NodeRef) (m : Machine SharedHeap) : ∃ l : List Nat,
    (SharedHeap.resolve h).leaves m =
      ⟨l.foldl Cells.acquire m.store.nodes, m.store.homes, m.store.ledgers⟩ := by
  simp only [Act.leaves, SharedHeap.resolve, Bind.bind, EStateM.bind, Act.read]
  cases m.store.nodes.closure? h.node with
  | none => exact ⟨[], rfl⟩
  | some c => exact ⟨c.captures, rfl⟩

theorem leaves_describe (h : NodeRef) (m : Machine SharedHeap) :
    (SharedHeap.describe h).leaves m = m.store := by
  simp only [Act.leaves, SharedHeap.describe, Bind.bind, EStateM.bind, Act.read]
  cases m.store.nodes.closure? h.node <;> rfl

/-- An operation does to the heap what another one does to it as if it were the heap of one
evaluator. -/
def ActsSolo {α : Type} (x x₀ : Act SharedHeap α) : Prop :=
  ∀ (m : Machine SharedHeap) (l : Ledger), ∃ l',
    match x m with
    | .ok a m' => x₀ ⟨m.store.solo l, m.journal⟩ = .ok a ⟨m'.store.solo l', m'.journal⟩
    | .error f m' => x₀ ⟨m.store.solo l, m.journal⟩ = .error f ⟨m'.store.solo l', m'.journal⟩

theorem actsSolo_alloc (site : Site) (c : Closure NodeRef) :
    ActsSolo (SharedHeap.alloc site c) (SharedHeap.alloc 0 c) := by
  intro ⟨w, j⟩ l
  refine ⟨l.recordAlloc c.kind, ?_⟩
  have hrun : SharedHeap.alloc 0 c ⟨w.solo l, j⟩ = .ok ⟨w.nodes.size⟩ ⟨(w.solo l).insert 0 c, j⟩ :=
    rfl
  rw [insert_solo w l site] at hrun
  exact hrun

theorem actsSolo_resolve (h : NodeRef) :
    ActsSolo (SharedHeap.resolve h) (SharedHeap.resolve h) := by
  intro ⟨w, j⟩ l
  refine ⟨l, ?_⟩
  have hsolo : (w.solo l).nodes = w.nodes := rfl
  simp only [SharedHeap.resolve, Bind.bind, EStateM.bind, Act.read, hsolo]
  cases w.nodes.closure? h.node <;> rfl

theorem actsSolo_describe (h : NodeRef) :
    ActsSolo (SharedHeap.describe h) (SharedHeap.describe h) := by
  intro ⟨w, j⟩ l
  refine ⟨l, ?_⟩
  have hsolo : (w.solo l).nodes = w.nodes := rfl
  simp only [SharedHeap.describe, Bind.bind, EStateM.bind, Act.read, hsolo]
  cases w.nodes.closure? h.node <;> rfl

/-- What is coupled as if the heap were that of one evaluator is coupled. -/
theorem ActsSolo.coupled {V α β : Type} {x x₀ : Act SharedHeap α} {y : Act V β}
    {pre : Machine SharedHeap → Machine V → Prop}
    {post : α → β → Machine SharedHeap → Machine V → Prop}
    {stopped : Fault → Machine SharedHeap → Machine V → Prop} (hx : ActsSolo x x₀)
    (h : Coupled pre x₀ y post stopped) :
    Coupled (fun m n => ∃ l, pre ⟨m.store.solo l, m.journal⟩ n) x y
      (fun a b m n => ∃ l, post a b ⟨m.store.solo l, m.journal⟩ n)
      fun f m n => ∃ l, stopped f ⟨m.store.solo l, m.journal⟩ n := by
  intro m n ⟨l, hpre⟩
  obtain ⟨l', hl⟩ := hx m l
  have hcoupled := h ⟨m.store.solo l, m.journal⟩ n hpre
  cases hrun : x m with
  | ok a m' =>
    rw [hrun] at hl
    rw [hl] at hcoupled
    cases hy : y n with
    | ok b n' =>
      rw [hy] at hcoupled
      exact ⟨l', hcoupled⟩
    | error f n' =>
      rw [hy] at hcoupled
      exact hcoupled
  | error f m' =>
    rw [hrun] at hl
    rw [hl] at hcoupled
    cases hy : y n with
    | ok b n' =>
      rw [hy] at hcoupled
      exact hcoupled
    | error f' n' =>
      rw [hy] at hcoupled
      exact ⟨hcoupled.1, l', hcoupled.2⟩

/-- The heap mirrors a grove, whose closures bear the numbers of their nodes. -/
def Pictures (w : SharedHeap) (g : Grove 8) (held : Multiset (NodeRef × Tree)) : Prop :=
  w.nodes.size = g.made.length ∧ g.resets = [] ∧ ∃ l known tree,
    (representation 0).Mirrors (w.solo l) g held known tree ∧
      ∀ h, known h → (tree h).number = h.node

variable {g : Grove 8} {held lent : Multiset (NodeRef × Tree)} {known : NodeRef → Prop}
  {tree : NodeRef → Tree} {p : NodeRef × Tree}

/-- A heap without nodes mirrors a grove in which nothing was made. -/
theorem Pictures.initial : Pictures {} {} 0 := by
  have hsolo : solo {} {} = { ledgers := #[{}] } := by simp [solo]
  obtain ⟨hresets, known, tree, hm⟩ :
      (representation 0).Represents (b := 8) [] (solo {} {}) {} 0 := by
    rw [hsolo]
    exact Representation.represents_empty .initial (fun _ => rfl) rfl
      (fun _ => PerKind.get_const ..) fun _ => rfl
  refine ⟨rfl, hresets, {}, known, tree, hm, fun h hk => ?_⟩
  exact absurd (Grove.lt_of_kindOf (hm.kindOf_eq hk)) (Nat.not_lt_zero _)

theorem Pictures.sound_nodes (h : w.Pictures g held) :
    w.nodes.Sound (held.map fun p => p.1.node) := by
  obtain ⟨-, -, l, known, tree, hm, -⟩ := h
  have hsound := hm.sound.nodes
  rwa [Multiset.map_map] at hsound

/-- No closure is refused for its size. -/
theorem Pictures.fits (h : w.Pictures g held) (c : Closure Tree) :
    g.capacity.filter (· < c.footprint) = none := by
  obtain ⟨-, -, l, known, tree, hm, -⟩ := h
  have hcap := hm.capacity_eq (c.map fun _ => default)
  rw [Closure.footprint, Closure.kind_map] at hcap
  exact hcap

/-- The closure in a node is of the kind that the grove remembers. -/
theorem Pictures.kindOf_eq (h : w.Pictures g held) {i : Nat} {c : Closure Nat}
    (hc : w.nodes.closure? i = some c) : g.kindOf i = some c.kind := by
  obtain ⟨-, -, l, known, tree, hm, hnumber⟩ := h
  have hlook : (view 0).look (w.solo l) ⟨i⟩ = some (c.map (⟨·⟩)) := congrArg (Option.map _) hc
  obtain ⟨hk, htree, -⟩ := hm.of_look hlook
  have hkind := hm.kindOf_eq hk
  rwa [hnumber _ hk, htree, Closure.kind_map, Closure.kind_map] at hkind

/-- Where no closure was added, the numbers are still those of the nodes. -/
theorem pictures_of_since (hnumber : ∀ h, known h → (tree h).number = h.node)
    (hsize : w.nodes.size = g.made.length)
    (h : (representation 0).RepresentsSince ⟨known, tree, g.made⟩ [] (w.solo l) g held) :
    w.Pictures g held := by
  obtain ⟨hresets, known', tree', hm, hcontinues⟩ := h
  refine ⟨hsize, hresets, l, known', tree', hm, fun h hk => ?_⟩
  obtain ⟨hold, htree⟩ := hcontinues.of_number_lt hk (Grove.lt_of_kindOf (hm.kindOf_eq hk))
  simp only at htree
  rw [htree]
  exact hnumber h hold

/-- A closure that was added bears the number of its node, and no other closure does. -/
theorem pictures_of_grow {c : Closure Tree} (hnumber : ∀ h, known h → (tree h).number = h.node)
    (hsize : w.nodes.size = g.made.length + 1)
    (h : (representation 0).RepresentsSince ⟨known, tree, g.made⟩ [] (w.solo l) (g.grow c.kind)
      ((⟨g.made.length⟩, .node g.made.length c) ::ₘ held)) :
    w.Pictures (g.grow c.kind) ((⟨g.made.length⟩, .node g.made.length c) ::ₘ held) := by
  obtain ⟨hresets, known', tree', hm, hcontinues⟩ := h
  refine ⟨hsize, hresets, l, known', tree', hm, fun h hk => ?_⟩
  by_cases hlt : (tree' h).number < g.made.length
  · obtain ⟨hold, htree⟩ := hcontinues.of_number_lt hk hlt
    simp only at htree
    rw [htree]
    exact hnumber h hold
  · obtain ⟨hnew, htree⟩ := hm.of_mem (Multiset.mem_cons_self ..)
    simp only at hnew htree
    have hmade : (tree' h).number < g.made.length + 1 := Grove.lt_of_kindOf (hm.kindOf_eq hk)
    have hlast : (tree' h).number = (tree' ⟨g.made.length⟩).number := by
      rw [← htree, Tree.number]
      omega
    rw [hlast, hm.number_injective hk hnew hlast, ← htree, Tree.number]

/-- What neither adds a node nor makes a closure goes along with pictures as it does with what is
represented by the heap of one evaluator. -/
theorem ActsSolo.coupled_pictures {α β : Type} {x x₀ : Act SharedHeap α} {y : Act (Grove 8) β}
    (hx : ActsSolo x x₀) (result : α → β → Multiset (NodeRef × Tree) → Prop)
    (hsize : ∀ m, (x.leaves m).nodes.size = m.store.nodes.size)
    (hy : ∀ n, y.leaves n = n.store)
    (h : ∀ l, Coupled
      (fun m n => (representation 0).RepresentsSince (b := 8) l [] m.store n.store lent) x₀ y
      (fun a b m n => ∃ held, result a b held ∧
        (representation 0).RepresentsSince l [] m.store n.store held)
      (fun f m n => (representation 0).Faulty f ∧
        (representation 0).RepresentsSince l [] m.store n.store lent)) :
    Coupled (fun m n => Pictures m.store n.store lent) x y
      (fun a b m n => ∃ held, result a b held ∧ Pictures m.store n.store held)
      (fun f m n => (representation 0).Faulty f ∧ Pictures m.store n.store lent) := by
  intro m n ⟨hmade, hresets, l, known, tree, hm, hnumber⟩
  have hsize := hsize m
  have hy := hy n
  obtain ⟨a, b, m', n', hx', hy', l', held, hr, hrep⟩ | ⟨f, m', n', hx', hy', l', hf, hrep⟩ :=
    Coupled.cases (hx.coupled (h ⟨known, tree, n.store.made⟩)) (s := m) (t := n)
      ⟨l, hresets, known, tree, hm, .rfl⟩
  · rw [Act.leaves_of_ok hx'] at hsize
    rw [Act.leaves_of_ok hy'] at hy
    rw [hx', hy']
    simp only [← hy] at hrep hmade
    exact ⟨held, hr, pictures_of_since hnumber (hsize.trans hmade) hrep⟩
  · rw [Act.leaves_of_error hx'] at hsize
    rw [Act.leaves_of_error hy'] at hy
    rw [hx', hy']
    simp only [← hy] at hrep hmade
    exact ⟨rfl, hf, pictures_of_since hnumber (hsize.trans hmade) hrep⟩

/-- A heap with any number of evaluators goes along with a grove, whichever of them works on it. -/
def sharing (site : Site) : Simulation SharedHeap (Grove 8) where
  left := site
  right := 0
  Rel := Pictures
  Faulty := (representation 0).Faulty
  retain := by
    intro w g held p ⟨hmade, hresets, l, known, tree, hm, hnumber⟩ hp
    have hrep := ((representation 0).simulationSince rfl [] ⟨known, tree, g.made⟩).retain
      ⟨hresets, known, tree, hm, .rfl⟩ hp
    exact pictures_of_since (w := SharedHeap.retain p.1 w) hnumber
      ((Cells.foldl_acquire w.nodes [p.1.node]).1.trans hmade) hrep
  release := by
    intro w g held p ⟨hmade, hresets, l, known, tree, hm, hnumber⟩
    have hrep := ((representation 0).simulationSince rfl [] ⟨known, tree, g.made⟩).release
      ⟨hresets, known, tree, hm, .rfl⟩
    have hsound : w.nodes.Sound _ :=
      Pictures.sound_nodes ⟨hmade, hresets, l, known, tree, hm, hnumber⟩
    rw [Multiset.map_cons] at hsound
    obtain ⟨l', hl⟩ := release_solo p.1 w l
    change (representation 0).RepresentsSince _ _ (SharedHeap.release p.1 (w.solo l)) g held at hrep
    rw [hl] at hrep
    refine pictures_of_since (w := SharedHeap.release p.1 w) hnumber ?_ hrep
    rw [(nodes_release p.1 w).1, hsound.release.2.size_eq]
    exact hmade
  alloc c lent := by
    intro m n ⟨hmade, hresets, l, known, tree, hm, hnumber⟩
    have hcoupled := (actsSolo_alloc site (c.map Prod.fst)).coupled
      (((representation 0).simulationSince (b := 8) rfl [] ⟨known, tree, n.store.made⟩).alloc c
        lent) m n ⟨l, hresets, known, tree, hm, .rfl⟩
    have hfits := Pictures.fits ⟨hmade, hresets, l, known, tree, hm, hnumber⟩ (c.map Prod.snd)
    have hx : SharedHeap.alloc site (c.map Prod.fst) m = .ok ⟨n.store.made.length⟩
        ⟨m.store.insert site (c.map Prod.fst), m.journal⟩ := hmade ▸ rfl
    have hy : Grove.alloc (c.map Prod.snd) n = _ := Grove.alloc_of_fits hfits
    simp only [Backend.alloc] at hcoupled ⊢
    rw [hx, hy] at hcoupled ⊢
    obtain ⟨l', hrep⟩ := hcoupled
    refine pictures_of_grow hnumber ?_ hrep
    rw [SharedHeap.insert, Cells.size_push, hmade]
  resolve {p lent} hp := by
    refine ((actsSolo_resolve p.1).coupled_pictures (fun a b held =>
      ∃ c : Closure (NodeRef × Tree), a = c.map Prod.fst ∧ b = c.map Prod.snd ∧
        held = c.captures + lent) (fun m => ?_) (Grove.leaves_resolve p.2) fun l => ?_).weaken
      (fun _ _ h => h) (fun _ _ _ _ ⟨_, ⟨c, ha, hb, hheld⟩, h⟩ => ⟨c, ha, hb, hheld ▸ h⟩)
      fun _ _ _ h => h
    · obtain ⟨l, hl⟩ := leaves_resolve p.1 m
      rw [hl, (Cells.foldl_acquire ..).1]
    · exact (((representation 0).simulationSince (b := 8) rfl [] l).resolve hp).weaken
        (fun _ _ h => h) (fun _ _ _ _ ⟨c, ha, hb, h⟩ => ⟨_, ⟨c, ha, hb, rfl⟩, h⟩) fun _ _ _ h => h
  same := by
    rintro w g held p q ⟨-, hresets, l, known, tree, hm, -⟩ hp hq
    exact Representation.Represents.same_eq ⟨hresets, known, tree, hm⟩ hp hq
  describe {p lent} hp := by
    refine ((actsSolo_describe p.1).coupled_pictures (fun _ _ held => held = lent)
      (fun m => by rw [leaves_describe]) (fun _ => rfl) fun l => ?_).weaken (fun _ _ h => h)
      (fun _ _ _ _ ⟨_, hheld, h⟩ => hheld ▸ h) fun _ _ _ h => h
    exact (((representation 0).simulationSince (b := 8) rfl [] l).describe hp).weaken
      (fun _ _ h => h) (fun _ _ _ _ h => ⟨lent, rfl, h⟩) fun _ _ _ h => h
  handleBytes_eq := rfl

end SharedHeap

end ChurchStore
