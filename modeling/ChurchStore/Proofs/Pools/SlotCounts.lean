import ChurchStore.Proofs.Isolation
import ChurchStore.Proofs.Liveness
import ChurchStore.Proofs.Space
import ChurchStore.Proofs.GroveCosts

/-!
# How many slots counting takes

A pool has as many slots as it ever had closures at once, and what is there at some moment can be
told from the trees that are held then. So the slots that an operation leaves are told by the moment
at which it holds most: its peak. Counting with a chain of successors reaches it where all of them
are unrolled, with one closure for each, and an integer is incremented.
-/

namespace ChurchStore

open ChurchStore.Representation (Covered alive alive_add alive_cons alive_mono alive_node
  covered_of_mem finite_alive)

/-- What an operation makes of a pool needs no more slots than there are closures then or were slots
before. -/
theorem Pool.Turns.size_eq_max {p q : Pool} {refs : Multiset Nat} (h : p.Turns q)
    (hq : q.Sound refs) : q.cells.size = max p.cells.size q.cells.occupied := by
  have hsize := hq.size_eq
  rcases h.size_cases with heq | ⟨-, hsucc, hnone⟩
  · omega
  · rw [hnone, List.length_nil] at hsize
    omega

namespace Pools

variable {site : Site} {held held' lent : Multiset (PoolRef × Tree)} {m m' : Machine Pools}
  {g g' : Grove 16} {p : PoolRef × Tree} {α β : Type}

theorem sound_of_represents {w : Pools} (h : (representation site).Represents [] w g held) :
    Sound site w (held.map Prod.fst) := by
  obtain ⟨-, known, tree, hm⟩ := h
  exact hm.sound

/-- There are slots for everything that is alive. -/
theorem ncard_alive_le {w : Pools} (h : (representation site).Represents [] w g held) :
    (alive held).ncard ≤ (w.pool site).cells.size := by
  rw [← (counted site).occupied_eq_ncard h, (sound_of_represents h).pool.size_eq]
  exact Nat.le_add_right ..

theorem size_of_leaves (deed : Deed PoolRef)
    (h : (representation site).Represents [] m.store g held)
    (hd : (deed.handles : Multiset PoolRef) ≤ held.map Prod.fst)
    (h' : (representation site).Represents [] (deed.leaves site m) g' held') :
    ((deed.leaves site m).pool site).cells.size =
      max (m.store.pool site).cells.size (alive held').ncard := by
  rw [← (counted site).occupied_eq_ncard h']
  exact (turns_leaves (sound_of_represents h) hd).size_eq_max (sound_of_represents h').pool

/-- The operation answers while the pairs of `held` are held, and leaves such pairs as `Q` says with
its answer. The pool has as many slots afterwards as before or as the peak says. -/
def Peaks (site : Site) (held : Multiset (PoolRef × Tree)) (x : Act Pools α)
    (Q : α → Multiset (PoolRef × Tree) → Prop) (peak : Nat) : Prop :=
  ∀ m (g : Grove 16), (representation site).Represents [] m.store g held →
    ∃ a m' held', x m = .ok a m' ∧
      (∃ g' : Grove 16, (representation site).Represents [] m'.store g' held') ∧ Q a held' ∧
      (m'.store.pool site).cells.size = max (m.store.pool site).cells.size peak

/-- The caller is handed a handle for a tree with the property. -/
def Given (lent : Multiset (PoolRef × Tree)) (P : Tree → Prop) (a : PoolRef)
    (held : Multiset (PoolRef × Tree)) : Prop :=
  ∃ t, P t ∧ held = (a, t) ::ₘ lent

/-- A tree that was made just now. -/
def Fresh (lent : Multiset (PoolRef × Tree)) (c : Closure Tree) (t : Tree) : Prop :=
  ∃ number ∉ alive lent, t = .node number c

namespace Peaks

variable {x : Act Pools α} {k : α → Act Pools β} {Q Q' : α → Multiset (PoolRef × Tree) → Prop}
  {R : β → Multiset (PoolRef × Tree) → Prop} {n n' : Nat} {P P' : Tree → Prop}

theorem weaken (h : Peaks site held x Q n) (hQ : ∀ a held', Q a held' → Q' a held') :
    Peaks site held x Q' n := by
  intro m g hm
  obtain ⟨a, m', held', hx, hrep, hQ', hsize⟩ := h m g hm
  exact ⟨a, m', held', hx, hrep, hQ a held' hQ', hsize⟩

theorem of_eq (h : Peaks site held x Q n) (hn : n = n') : Peaks site held x Q n' := hn ▸ h

/-- A peak may be put as high as what is there at the beginning. -/
theorem rise (h : Peaks site held x Q n) (hle : n ≤ n') (hmax : n' ≤ max n (alive held).ncard) :
    Peaks site held x Q n' := by
  intro m g hm
  obtain ⟨a, m', held', hx, hrep, hQ, hsize⟩ := h m g hm
  have hN := ncard_alive_le hm
  exact ⟨a, m', held', hx, hrep, hQ, by omega⟩

theorem pure {a : α} (h : Q a held) : Peaks site held (Pure.pure a) Q 0 :=
  fun m g hm => ⟨a, m, held, rfl, ⟨g, hm⟩, h, (Nat.max_zero _).symm⟩

/-- Peaks compose as high-water marks. -/
theorem bind (h : Peaks site held x Q n) (hk : ∀ a held', Q a held' → Peaks site held' (k a) R n') :
    Peaks site held (x >>= k) R (max n n') := by
  intro m g hm
  obtain ⟨a, m₁, held₁, hx, ⟨g₁, hm₁⟩, hQ, hsize⟩ := h m g hm
  obtain ⟨b, m₂, held₂, hy, hm₂, hR, hsize'⟩ := hk a held₁ hQ m₁ g₁ hm₁
  refine ⟨b, m₂, held₂, ?_, hm₂, hR, by rw [hsize', hsize, Nat.max_assoc]⟩
  simp only [Bind.bind, EStateM.bind, hx, hy]

/-- A handle that is given back at the end takes no slot. -/
theorem holding (h : Peaks site (p ::ₘ held) x (fun a held' => ∃ rest, held' = p ::ₘ rest ∧
      Q a rest) n) : Peaks site (p ::ₘ held) (Backend.holding p.1 x) Q n := by
  intro m g hm
  obtain ⟨a, m₁, _, hx, ⟨g₁, hm₁⟩, ⟨rest, rfl, hQ⟩, hsize⟩ := h m g hm
  have hrep := represents_release hm₁
  have hreleased := size_of_leaves (m := m₁) (.release p.1) hm₁ (by simp [Deed.handles]) hrep
  have hle := ncard_alive_le hm₁
  have hmono := Set.ncard_le_ncard (alive_mono (Multiset.subset_cons rest p))
    (finite_alive _)
  refine ⟨a, { m₁ with store := release p.1 m₁.store }, rest, ?_, ⟨g₁, hrep⟩, hQ, ?_⟩
  · simp only [Backend.holding, Act.ensuring, hx]
    rfl
  · refine hreleased.trans ?_
    rw [← hsize]
    omega

theorem holding_eq {P : α → Prop} (h : Peaks site (p ::ₘ held) x
      (fun a held' => P a ∧ held' = p ::ₘ held) n) :
    Peaks site (p ::ₘ held) (Backend.holding p.1 x) (fun a held' => P a ∧ held' = held) n := by
  refine holding (h.weaken ?_)
  rintro a _ ⟨ha, rfl⟩
  exact ⟨held, rfl, ha, rfl⟩

theorem holding_given {x : Act Pools PoolRef}
    (h : Peaks site (p ::ₘ held) x (Given (p ::ₘ lent) P) n) :
    Peaks site (p ::ₘ held) (Backend.holding p.1 x) (Given lent P) n := by
  refine holding (h.weaken ?_)
  rintro a _ ⟨t, ht, rfl⟩
  exact ⟨_, Multiset.cons_swap .., t, ht, rfl⟩

theorem bind_given {x : Act Pools PoolRef} {k : PoolRef → Act Pools β}
    (h : Peaks site held x (Given lent P) n)
    (hk : ∀ a t, P t → Peaks site ((a, t) ::ₘ lent) (k a) R n') :
    Peaks site held (x >>= k) R (max n n') := by
  refine bind h ?_
  rintro a _ ⟨t, ht, rfl⟩
  exact hk a t ht

theorem bind_free (h : Peaks site held x Q 0) (hk : ∀ a held', Q a held' →
    Peaks site held' (k a) R n) : Peaks site held (x >>= k) R n := by
  have hbind := bind h hk
  rwa [Nat.zero_max] at hbind

end Peaks

/-! ### Primitive operations -/

theorem peaks_alloc {c : Closure (PoolRef × Tree)} (hc : ∀ p ∈ c.captures, Covered lent p.2) :
    Peaks site (c.captures + lent) (alloc site (c.map Prod.fst))
      (Given lent (Fresh lent (c.map Prod.snd))) ((alive lent).ncard + 1) := by
  intro m g hm
  obtain ⟨a, m', hrun, hrep⟩ := exists_alloc hm
  have hleaves : (Deed.alloc (c.map Prod.fst)).leaves site m = m'.store := Act.leaves_of_ok hrun
  have halive : alive ((c.captures : Multiset (PoolRef × Tree)) + lent) = alive lent :=
    alive_add hc
  have hfresh : g.made.length ∉ alive lent := by
    rw [← halive]
    exact fun hn => Nat.lt_irrefl _ ((counted site).lt_of_mem_alive hm hn)
  have hnode : alive ((a, .node g.made.length (c.map Prod.snd)) ::ₘ lent) =
      insert g.made.length (alive lent) := by
    refine alive_node fun t ht => ?_
    rw [Closure.captures_map] at ht
    obtain ⟨p, hp, rfl⟩ := List.mem_map.1 ht
    exact hc p hp
  have hsize := size_of_leaves (.alloc (c.map Prod.fst)) hm (by
    rw [Deed.handles, Closure.captures_map, Multiset.map_add, Multiset.map_coe]
    exact Multiset.le_add_right ..) (by rwa [hleaves])
  rw [hleaves, hnode, Set.ncard_insert_of_notMem hfresh (finite_alive _)] at hsize
  exact ⟨a, m', _, hrun, ⟨_, hrep⟩, ⟨_, ⟨_, hfresh, rfl⟩, rfl⟩, hsize⟩

theorem peaks_alloc_closed {c : Closure (PoolRef × Tree)} (hc : c.captures = []) :
    Peaks site lent (alloc site (c.map Prod.fst)) (Given lent (Fresh lent (c.map Prod.snd)))
      ((alive lent).ncard + 1) := by
  have h : Peaks site (c.captures + lent) (alloc site (c.map Prod.fst)) _ _ :=
    peaks_alloc (by simp [hc])
  rwa [hc, Multiset.coe_nil, zero_add] at h

/-- What an operation does with the closure that it finds behind a held handle. -/
theorem peaks_resolve_bind {k : Closure PoolRef → Act Pools β} {c : Closure Tree}
    {Q : β → Multiset (PoolRef × Tree) → Prop} {n : Nat} (hp : p ∈ held) (hc : p.2.closure = c)
    (hk : ∀ x : Closure (PoolRef × Tree), x.map Prod.snd = c →
      Peaks site (x.captures + held) (k (x.map Prod.fst)) Q n) :
    Peaks site held (resolve site p.1 >>= k) Q n := by
  refine Peaks.bind_free (Q := fun x held' => ∃ c : Closure (PoolRef × Tree),
    x = c.map Prod.fst ∧ p.2.closure = c.map Prod.snd ∧ held' = c.captures + held)
    (fun m g hm => ?_) ?_
  · obtain ⟨c, m', hrun, hclosure, hrep⟩ := exists_resolve hm hp
    have hleaves : (Deed.resolve p.1).leaves site m = m'.store := Act.leaves_of_ok hrun
    have halive : alive ((c.captures : Multiset (PoolRef × Tree)) + held) = alive held := by
      refine alive_add fun q hq => (covered_of_mem hp).of_mem_captures ?_
      rw [hclosure, Closure.captures_map]
      exact List.mem_map_of_mem hq
    have hsize := size_of_leaves (.resolve p.1) hm
      (Multiset.singleton_le.2 (Multiset.mem_map_of_mem Prod.fst hp)) (by rwa [hleaves])
    rw [hleaves, halive, Nat.max_eq_left (ncard_alive_le hm)] at hsize
    exact ⟨_, m', _, hrun, ⟨g, hrep⟩, ⟨c, rfl, hclosure, rfl⟩, by rw [hsize, Nat.max_zero]⟩
  · rintro _ _ ⟨x, rfl, hx, rfl⟩
    exact hk x (hx.symm.trans hc)

theorem peaks_clone (hp : p ∈ held) :
    Peaks site held (Backend.clone p.1) (Given held (· = p.2)) 0 := by
  intro m g hm
  have hrep := represents_retain hm hp
  have hsize := size_of_leaves (.retain p.1) hm
    (Multiset.singleton_le.2 (Multiset.mem_map_of_mem Prod.fst hp)) hrep
  rw [alive_cons (covered_of_mem hp), Nat.max_eq_left (ncard_alive_le hm)] at hsize
  exact ⟨p.1, _, _, rfl, ⟨g, hrep⟩, ⟨p.2, rfl, rfl⟩, by rw [Nat.max_zero]; exact hsize⟩

/-! ### Application -/

variable {e : Evaluator PoolRef} {f x : PoolRef × Tree} {i : Int64} {depth : Nat}

/-- The handles of an evaluator for the builtin functions are held. -/
def Attended (e : Evaluator PoolRef) (held : Multiset (PoolRef × Tree)) : Prop :=
  ∀ b : Builtin, ∃ t : Tree, (e.singletons.get b, t) ∈ held ∧ t.closure = b.closure

theorem Attended.cons (h : Attended e held) (p : PoolRef × Tree) : Attended e (p ::ₘ held) := by
  intro b
  obtain ⟨t, ht, hclosure⟩ := h b
  exact ⟨t, Multiset.mem_cons_of_mem ht, hclosure⟩

theorem Fresh.closure_eq {c : Closure Tree} {t : Tree} (h : Fresh held c t) : t.closure = c := by
  obtain ⟨number, -, rfl⟩ := h
  rfl

theorem Fresh.mono {c : Closure Tree} {t : Tree} (h : Fresh held c t) (hsub : lent ⊆ held) :
    Fresh lent c t := by
  obtain ⟨number, hn, rfl⟩ := h
  exact ⟨number, fun hmem => hn (alive_mono hsub hmem), rfl⟩

/-- A fresh closure over what is there takes one slot. -/
theorem Fresh.ncard_alive {c : Closure Tree} {t : Tree} (h : Fresh held c t)
    (hc : ∀ u ∈ c.captures, Covered held u) (a : PoolRef) :
    (alive ((a, t) ::ₘ held)).ncard = (alive held).ncard + 1 := by
  obtain ⟨number, hn, rfl⟩ := h
  rw [alive_node hc, Set.ncard_insert_of_notMem hn (finite_alive _)]

theorem peaks_builtin (he : Attended e held) (b : Builtin) :
    Peaks site held (e.builtin b)
      (Given held fun t => t.closure = b.closure ∧ Covered held t) 0 := by
  obtain ⟨t, ht, hclosure⟩ := he b
  refine (peaks_clone ht).weaken fun a held' ⟨u, hu, hheld⟩ => ?_
  rw [hu] at hheld
  exact ⟨t, ⟨hclosure, covered_of_mem ht⟩, hheld⟩

theorem peaks_toInt (hx : x ∈ held) (hi : x.2.closure = .intLiteral i) :
    Peaks e.site held (e.toInt x.1) (fun a held' => a = i ∧ held' = held) 0 := by
  refine Peaks.bind_free (Q := fun c held' => c = .intLiteral i ∧ held' = held) ?_ ?_
  · refine peaks_resolve_bind hx hi fun c hc => ?_
    cases c <;> cases hc
    refine Peaks.bind_free (Q := fun _ held' => held' = held) (fun m g hm => ?_) ?_
    · exact ⟨(), m, held, rfl, ⟨g, by simpa [Closure.captures] using hm⟩, rfl,
        (Nat.max_zero _).symm⟩
    · rintro _ _ rfl
      exact Peaks.pure ⟨rfl, rfl⟩
  · rintro _ _ ⟨rfl, rfl⟩
    exact Peaks.pure ⟨rfl, rfl⟩

theorem peaks_zero (he : Attended e held) (hf : f ∈ held) (hc : f.2.closure = .zero) (x : PoolRef) :
    Peaks e.site held (e.applyWithin (depth + 1) f.1 x)
      (Given held fun t => t.closure = .zeroInner ∧ Covered held t) 0 := by
  rw [Evaluator.applyWithin]
  refine peaks_resolve_bind hf hc fun c hc => ?_
  cases c <;> cases hc
  change Peaks e.site (0 + held) (e.builtin .zeroInner) _ 0
  rw [zero_add]
  exact peaks_builtin he .zeroInner

theorem peaks_zeroInner (hf : f ∈ held) (hc : f.2.closure = .zeroInner) (hx : x ∈ held) :
    Peaks e.site held (e.applyWithin (depth + 1) f.1 x.1) (Given held (· = x.2)) 0 := by
  rw [Evaluator.applyWithin]
  refine peaks_resolve_bind hf hc fun c hc => ?_
  cases c <;> cases hc
  change Peaks e.site (0 + held) (Backend.clone x.1) _ 0
  rw [zero_add]
  exact peaks_clone hx

theorem peaks_succ (hf : f ∈ held) (hc : f.2.closure = .succ) (hx : x ∈ held) :
    Peaks e.site held (e.applyWithin (depth + 1) f.1 x.1)
      (Given held (Fresh held (.succPartial x.2))) ((alive held).ncard + 1) := by
  rw [Evaluator.applyWithin]
  refine peaks_resolve_bind hf hc fun c hc => ?_
  cases c <;> cases hc
  change Peaks e.site (0 + held) (Backend.clone x.1 >>= fun a => alloc e.site (.succPartial a)) _ _
  rw [zero_add]
  refine Peaks.bind_free (peaks_clone hx) ?_
  rintro a _ ⟨_, rfl, rfl⟩
  refine peaks_alloc (c := .succPartial (a, x.2)) fun p hp => ?_
  rw [List.mem_singleton.1 hp]
  exact ⟨x, hx, .root⟩

theorem peaks_succPartial {n : Tree} (hf : f ∈ held) (hc : f.2.closure = .succPartial n)
    (hx : x ∈ held) :
    Peaks e.site held (e.applyWithin (depth + 1) f.1 x.1)
      (Given held (Fresh held (.succInner n x.2))) ((alive held).ncard + 1) := by
  rw [Evaluator.applyWithin]
  refine peaks_resolve_bind hf hc fun c hc => ?_
  cases c <;> cases hc
  rename_i n
  change Peaks e.site ({n} + held)
    (Backend.clone x.1 >>= fun a => alloc e.site (.succInner n.1 a)) _ _
  refine Peaks.bind_free (peaks_clone (Multiset.mem_add.2 (.inr hx))) ?_
  rintro a _ ⟨_, rfl, rfl⟩
  have hcaptures : (a, x.2) ::ₘ ({n} + held) =
      ((Closure.succInner n (a, x.2)).captures : Multiset (PoolRef × Tree)) + held := by
    rw [← Multiset.cons_add]
    exact congrArg (· + held) (Multiset.coe_eq_coe.2 (.swap ..))
  rw [hcaptures]
  refine peaks_alloc (c := .succInner n (a, x.2)) fun p hp => ?_
  rcases List.mem_cons.1 hp with rfl | hp
  · exact (covered_of_mem hf).of_mem_captures (by rw [hc]; exact List.mem_singleton_self _)
  · rw [List.mem_singleton.1 hp]
    exact ⟨x, hx, .root⟩

theorem peaks_inc (hf : f ∈ held) (hc : f.2.closure = .inc) (hx : x ∈ held)
    (hi : x.2.closure = .intLiteral i) (hmax : i ≠ Int64.maxValue) :
    Peaks e.site held (e.applyWithin (depth + 1) f.1 x.1)
      (Given held fun t => ∃ k : Int64, k.toInt = i.toInt + 1 ∧ Fresh held (.intLiteral k) t)
      ((alive held).ncard + 1) := by
  rw [Evaluator.applyWithin]
  refine peaks_resolve_bind hf hc fun c hc => ?_
  cases c <;> cases hc
  change Peaks e.site (0 + held) (e.toInt x.1 >>= fun value => _) _ _
  rw [zero_add]
  refine Peaks.bind_free (peaks_toInt hx hi) ?_
  rintro i _ ⟨rfl, rfl⟩
  rw [if_neg hmax]
  refine (peaks_alloc_closed (c := .intLiteral (i + 1)) rfl).weaken ?_
  rintro a _ ⟨t, ht, rfl⟩
  exact ⟨t, ⟨i + 1, toInt_add_one hmax, ht⟩, rfl⟩

/-! ### Counting -/

open Value (church)

theorem closure_of_value_eq {t : Tree} {c : Closure Value} (h : Grove.value [] t = .node c) :
    t.closure.map (Grove.value []) = c :=
  (Grove.map_of_value_eq h).2

/-- How many slots it takes to unroll `j` further successors over an integer and to increment it, if
`n` are taken already. -/
def unrolled (n : Nat) : Nat → Nat
  | 0 => n + 1
  | j + 1 => n + j + 3

theorem closure_eq_zero {t : Tree} (h : Grove.value [] t = church 0) : t.closure = .zero := by
  have hc := closure_of_value_eq h
  cases htc : t.closure <;> rw [htc] at hc <;> cases hc

theorem exists_closure_eq_succPartial {t : Tree} {k : Nat}
    (h : Grove.value [] t = church (k + 1)) :
    ∃ n, t.closure = .succPartial n ∧ Grove.value [] n = church k := by
  have hc := closure_of_value_eq h
  cases htc : t.closure with
  | succPartial n =>
    rw [htc] at hc
    exact ⟨n, rfl, Closure.succPartial.inj hc⟩
  | zero | zeroInner | succ | succInner | intLiteral | inc =>
    rw [htc] at hc
    cases hc

/-- What the captures of a successor are held for. -/
theorem peaks_succInner {u : PoolRef × Tree} {z : PoolRef} {n s : Tree} {P : Tree → Prop}
    {peak : Nat} (hu : u ∈ held) (hclosure : u.2.closure = .succInner n s)
    (h : ∀ a b, Peaks e.site ((b, s) ::ₘ (a, n) ::ₘ held) (do
        let ns ← e.applyWithin depth a b
        Backend.holding ns do
          let nsx ← e.applyWithin depth ns z
          Backend.holding nsx (e.applyWithin depth b nsx))
      (Given ((b, s) ::ₘ (a, n) ::ₘ held) P) peak) :
    Peaks e.site held (e.applyWithin (depth + 1) u.1 z) (Given held P) peak := by
  rw [Evaluator.applyWithin]
  refine peaks_resolve_bind hu hclosure fun c hc => ?_
  cases c <;> cases hc
  rename_i n s
  have hcaptures : ((Closure.succInner n s).captures : Multiset (PoolRef × Tree)) + held =
      n ::ₘ s ::ₘ held := by
    simp [Closure.captures, ← Multiset.cons_coe]
  rw [hcaptures]
  refine Peaks.holding_given (p := n) ?_
  rw [Multiset.cons_swap]
  exact Peaks.holding_given (p := s) (h n.1 s.1)

/-- The captures of a held successor keep nothing else alive. -/
theorem alive_captured {u : PoolRef × Tree} {n s : Tree} (hu : u ∈ held)
    (hclosure : u.2.closure = .succInner n s) (a b : PoolRef) :
    alive ((b, s) ::ₘ (a, n) ::ₘ held) = alive held := by
  have hcovered {t : Tree} (ht : t ∈ [n, s]) : Covered held t := by
    refine (covered_of_mem hu).of_mem_captures ?_
    rwa [hclosure]
  rw [alive_cons ((hcovered (by simp)).mono (Multiset.subset_cons ..)),
    alive_cons (hcovered (by simp))]

/-- Unrolling a chain of successors over the increment, by induction on the chain: the function that
the rest of the chain yields stays alive while it is applied, and so does its result while it is
incremented. -/
theorem peaks_countdown {u z : PoolRef × Tree} {n s : Tree} {j : Nat} (he : Attended e held)
    (hu : u ∈ held) (hclosure : u.2.closure = .succInner n s) (hn : Grove.value [] n = church j)
    (hs : s.closure = .inc) (hz : z ∈ held) (hi : z.2.closure = .intLiteral i)
    (hmax : i.toInt + j + 1 ≤ Int64.maxValue.toInt) (hdepth : j + 2 ≤ depth) :
    Peaks e.site held (e.applyWithin depth u.1 z.1)
      (Given held fun t => ∃ k : Int64, k.toInt = i.toInt + j + 1 ∧ Fresh held (.intLiteral k) t)
      (unrolled (alive held).ncard j) := by
  obtain ⟨depth, rfl⟩ : ∃ d, depth = d + 2 := ⟨depth - 2, by omega⟩
  induction j generalizing held u z n depth with
  | zero =>
    have hne : i ≠ Int64.maxValue := by
      rintro rfl
      omega
    refine peaks_succInner hu hclosure fun a b => ?_
    refine Peaks.bind_free (peaks_zero ((he.cons _).cons _) (f := (a, n)) (by simp)
      (closure_eq_zero hn) b) ?_
    rintro ns _ ⟨t, ⟨ht, hcovered⟩, rfl⟩
    refine Peaks.holding_given (p := (ns, t)) ?_
    refine Peaks.bind_free (peaks_zeroInner (Multiset.mem_cons_self ..) ht (by simp [hz])) ?_
    rintro nsx _ ⟨_, rfl, rfl⟩
    refine Peaks.holding_given (p := (nsx, z.2)) ?_
    have halive : alive ((nsx, z.2) ::ₘ (ns, t) ::ₘ (b, s) ::ₘ (a, n) ::ₘ held) = alive held := by
      rw [alive_cons ⟨z, by simp [hz], .root⟩, alive_cons hcovered, alive_captured hu hclosure]
    refine ((peaks_inc (f := (b, s)) (x := (nsx, z.2)) (by simp) hs
      (Multiset.mem_cons_self ..) hi hne).weaken ?_).of_eq (by rw [halive, unrolled])
    rintro y _ ⟨v, ⟨k, hk, hv⟩, rfl⟩
    exact ⟨v, ⟨k, by omega, hv.mono fun p hp => by simp [hp]⟩, rfl⟩
  | succ j ih =>
    obtain ⟨n', hn', hvalue⟩ := exists_closure_eq_succPartial hn
    obtain ⟨depth, rfl⟩ : ∃ d, depth = d + 1 := ⟨depth - 1, by omega⟩
    have hpeak : unrolled (alive held).ncard (j + 1) = max ((alive held).ncard + 1)
        (max (unrolled ((alive held).ncard + 1) j) ((alive held).ncard + 3)) := by
      cases j <;> simp only [unrolled] <;> omega
    refine peaks_succInner hu hclosure fun a b => ?_
    rw [hpeak]
    have hlent := alive_captured hu hclosure a b
    refine Peaks.bind_given ((peaks_succPartial (f := (a, n)) (x := (b, s)) (by simp) hn'
      (by simp)).of_eq (by rw [hlent])) fun ns t ht => ?_
    have hns : (alive ((ns, t) ::ₘ (b, s) ::ₘ (a, n) ::ₘ held)).ncard =
        (alive held).ncard + 1 := by
      rw [ht.ncard_alive (fun v hv => ?_), hlent]
      rcases List.mem_cons.1 hv with rfl | hv
      · refine (covered_of_mem (p := (a, n)) (by simp)).of_mem_captures ?_
        rw [hn']
        exact List.mem_singleton_self _
      · rw [List.mem_singleton.1 hv]
        exact covered_of_mem (p := (b, s)) (by simp)
    refine Peaks.holding_given (p := (ns, t)) ?_
    have hcount := ih (((he.cons (a, n)).cons (b, s)).cons (ns, t)) (z := z)
      (Multiset.mem_cons_self ..) ht.closure_eq hvalue (by simp [hz]) hi (by omega) depth (by omega)
    refine Peaks.bind_given (hcount.of_eq (by rw [hns])) ?_
    rintro nsx t' ⟨k, hk, hfresh⟩
    have hnsx := hfresh.ncard_alive (by simp [Closure.captures]) nsx
    rw [hns] at hnsx
    refine Peaks.holding_given (p := (nsx, t')) ?_
    have hne : k ≠ Int64.maxValue := by
      rintro rfl
      omega
    refine ((peaks_inc (f := (b, s)) (x := (nsx, t')) (by simp) hs
      (Multiset.mem_cons_self ..) hfresh.closure_eq hne).weaken ?_).of_eq (by rw [hnsx])
    rintro y _ ⟨v, ⟨l, hl, hv⟩, rfl⟩
    exact ⟨v, ⟨l, by omega, hv.mono fun p hp => by simp [hp]⟩, rfl⟩

/-- To fold a numeral takes slots for the function that it makes of the increment and for the start,
besides those that are taken to unroll it. -/
theorem peaks_fold {n : PoolRef × Tree} {k : Nat} (he : Attended e held) (hn : n ∈ held)
    (hvalue : Grove.value [] n.2 = church (k + 1)) (hmax : k + 1 ≤ Int64.maxValue.toInt)
    (hdepth : k + 2 ≤ e.nesting) :
    Peaks e.site held (e.fold n.1) (fun a held' => a.toInt = k + 1 ∧ held' = held)
      (unrolled ((alive held).ncard + 2) k) := by
  obtain ⟨n', hn', hvalue'⟩ := exists_closure_eq_succPartial hvalue
  obtain ⟨depth, hnesting⟩ : ∃ d, e.nesting = d + 1 := ⟨e.nesting - 1, by omega⟩
  have hpeak : unrolled ((alive held).ncard + 2) k = max ((alive held).ncard + 1)
      (max ((alive held).ncard + 2) (unrolled ((alive held).ncard + 2) k)) := by
    cases k <;> simp only [unrolled] <;> omega
  rw [hpeak, Evaluator.fold]
  refine Peaks.bind_free (peaks_builtin he .inc) ?_
  rintro inc _ ⟨s, ⟨hs, hcovered⟩, rfl⟩
  have happlied : Peaks e.site ((inc, s) ::ₘ held) (e.apply n.1 inc)
      (Given ((inc, s) ::ₘ held) (Fresh ((inc, s) ::ₘ held) (.succInner n' s)))
      ((alive held).ncard + 1) := by
    rw [Evaluator.apply, hnesting]
    exact (peaks_succPartial (x := (inc, s)) (Multiset.mem_cons_of_mem hn) hn'
      (Multiset.mem_cons_self ..)).of_eq (by rw [alive_cons hcovered])
  refine Peaks.bind_given (Peaks.holding_given (p := (inc, s)) happlied) fun applied t ht => ?_
  have htaken : (alive ((applied, t) ::ₘ held)).ncard = (alive held).ncard + 1 := by
    refine (ht.mono (Multiset.subset_cons ..)).ncard_alive (fun v hv => ?_) applied
    rcases List.mem_cons.1 hv with rfl | hv
    · refine (covered_of_mem hn).of_mem_captures ?_
      rw [hn']
      exact List.mem_singleton_self _
    · rwa [List.mem_singleton.1 hv]
  refine Peaks.holding_eq (p := (applied, t)) ?_
  have hstart : Peaks e.site ((applied, t) ::ₘ held) (e.int 0) _ _ :=
    peaks_alloc_closed (c := .intLiteral 0) rfl
  refine Peaks.bind_given (hstart.of_eq (by rw [htaken])) fun start z hz => ?_
  have hstarted := hz.ncard_alive (by simp [Closure.captures, Closure.map]) start
  rw [htaken] at hstarted
  have hcounted := (peaks_countdown (u := (applied, t)) (z := (start, z))
    ((he.cons (applied, t)).cons (start, z)) (by simp) ht.closure_eq hvalue' hs (by simp)
    hz.closure_eq (by simpa using hmax) hdepth).of_eq (by rw [hstarted])
  rw [← Nat.max_zero (unrolled _ k)]
  refine Peaks.bind_given (Peaks.holding_given (p := (start, z)) hcounted) ?_
  rintro counted t' ⟨i, hi, hfresh⟩
  refine Peaks.holding_eq (p := (counted, t')) ?_
  refine (peaks_toInt (x := (counted, t')) (Multiset.mem_cons_self ..) hfresh.closure_eq).weaken ?_
  rintro a _ ⟨rfl, rfl⟩
  exact ⟨by simpa using hi, rfl⟩

/-! ### A new pool -/

/-- Each successor takes a slot. -/
theorem peaks_successors {k : Nat} {n : PoolRef × Tree} {j : Nat} (he : Attended e held)
    (hn : Grove.value [] n.2 = church j) (hdepth : 0 < e.nesting) :
    Peaks e.site (n ::ₘ held) (e.successors k n.1)
      (fun a held' => ∃ t, Grove.value [] t = church (j + k) ∧ held' = (a, t) ::ₘ held ∧
        (alive held').ncard = (alive (n ::ₘ held)).ncard + k)
      ((alive (n ::ₘ held)).ncard + k) := by
  obtain ⟨depth, hnesting⟩ : ∃ d, e.nesting = d + 1 := ⟨e.nesting - 1, by omega⟩
  induction k generalizing n j with
  | zero =>
    refine (Peaks.pure ?_).rise (Nat.zero_le _) (Nat.le_max_right ..)
    exact ⟨n.2, hn, rfl, rfl⟩
  | succ k ih =>
    have hnext : Peaks e.site (n ::ₘ held) (e.successor n.1)
        (Given (n ::ₘ held) (Fresh (n ::ₘ held) (.succPartial n.2)))
        ((alive (n ::ₘ held)).ncard + 1) := by
      refine Peaks.bind_free (peaks_builtin (he.cons n) .succ) ?_
      rintro f _ ⟨t, ⟨ht, hcovered⟩, rfl⟩
      refine Peaks.holding_given (p := (f, t)) ?_
      rw [Evaluator.apply, hnesting]
      refine ((peaks_succ (f := (f, t)) (x := n) (Multiset.mem_cons_self ..) ht (by simp)).weaken
        ?_).of_eq (by rw [alive_cons hcovered])
      rintro a _ ⟨u, hu, rfl⟩
      exact ⟨u, hu.mono (Multiset.subset_cons ..), rfl⟩
    have hpeak : (alive (n ::ₘ held)).ncard + (k + 1) =
        max ((alive (n ::ₘ held)).ncard + 1) ((alive (n ::ₘ held)).ncard + 1 + k) := by
      omega
    rw [hpeak]
    refine Peaks.bind_given (Peaks.holding_given hnext) fun a t ht => ?_
    have hvalue : Grove.value [] t = church (j + 1) := by
      obtain ⟨number, -, rfl⟩ := ht
      rw [Grove.value_of_le (by simp), Closure.map, hn]
      rfl
    -- The numeral that was given back stays alive as what the new one captures.
    have hcovered : Covered ((a, t) ::ₘ held) n.2 := by
      refine (covered_of_mem (Multiset.mem_cons_self ..)).of_mem_captures ?_
      rw [ht.closure_eq]
      exact List.mem_singleton_self _
    have htaken : (alive ((a, t) ::ₘ held)).ncard = (alive (n ::ₘ held)).ncard + 1 := by
      rw [← alive_cons (a := n.1) hcovered, Multiset.cons_swap]
      exact ht.ncard_alive (by simp [Closure.captures, covered_of_mem]) a
    refine ((ih (n := (a, t)) hvalue).weaken ?_).of_eq (by rw [htaken])
    rintro c _ ⟨u, hu, rfl, hcard⟩
    refine ⟨u, ?_, rfl, by omega⟩
    rwa [Nat.add_right_comm j 1 k] at hu

theorem peaks_numeral {k : Nat} (he : Attended e held) (hdepth : 0 < e.nesting) :
    Peaks e.site held (e.numeral k) (fun a held' => ∃ t, Grove.value [] t = church k ∧
      held' = (a, t) ::ₘ held ∧ (alive held').ncard = (alive held).ncard + k)
      ((alive held).ncard + k) := by
  refine Peaks.bind_free (peaks_builtin he .zero) ?_
  rintro a _ ⟨t, ⟨ht, hcovered⟩, rfl⟩
  have hvalue : Grove.value [] t = church 0 := by
    obtain ⟨number, c⟩ := t
    rw [Grove.value_of_le (by simp), show c = .zero from ht]
    rfl
  have hsuccessors := peaks_successors (k := k) (n := (a, t)) he hvalue hdepth
  rwa [alive_cons hcovered, Nat.zero_add] at hsuccessors

theorem peaks_alloc_builtin (b : Builtin) {n : Nat} (h : (alive held).ncard = n) :
    Peaks site held (alloc site b.closure) (Given held (Fresh held b.closure)) (n + 1) := by
  have halloc : Peaks site held (alloc site (b.closure.map Prod.fst)) _ _ :=
    peaks_alloc_closed b.captures_closure
  rwa [Builtin.map_closure, Builtin.map_closure, h] at halloc

theorem Fresh.ncard_alive_builtin {b : Builtin} {t : Tree} {n : Nat} (h : Fresh held b.closure t)
    (hn : (alive held).ncard = n) (a : PoolRef) : (alive ((a, t) ::ₘ held)).ncard = n + 1 := by
  rw [h.ncard_alive (by simp [Builtin.captures_closure]), hn]

theorem peaks_build : Peaks site 0 (Singletons.build (alloc site)) (fun t held =>
    (∀ b : Builtin, ∃ u : Tree, (t.get b, u) ∈ held ∧ u.closure = b.closure) ∧
      (alive held).ncard = 4) 4 := by
  have hnone : (alive (0 : Multiset (PoolRef × Tree))).ncard = 0 := by
    simp [alive, Covered]
  rw [show 4 = max 1 (max 2 (max 3 (max 4 0))) from rfl, Singletons.build]
  refine Peaks.bind_given (peaks_alloc_builtin .zero hnone) fun zero t₁ h₁ => ?_
  have hone := h₁.ncard_alive_builtin hnone zero
  refine Peaks.bind_given (peaks_alloc_builtin .zeroInner hone) fun zeroInner t₂ h₂ => ?_
  have htwo := h₂.ncard_alive_builtin hone zeroInner
  refine Peaks.bind_given (peaks_alloc_builtin .succ htwo) fun succ t₃ h₃ => ?_
  have hthree := h₃.ncard_alive_builtin htwo succ
  refine Peaks.bind_given (peaks_alloc_builtin .inc hthree) fun inc t₄ h₄ => ?_
  refine Peaks.pure ⟨fun b => ?_, h₄.ncard_alive_builtin hthree inc⟩
  cases b with
  | zero => exact ⟨t₁, by simp [Singletons.get], h₁.closure_eq⟩
  | zeroInner => exact ⟨t₂, by simp [Singletons.get], h₂.closure_eq⟩
  | succ => exact ⟨t₃, by simp [Singletons.get], h₃.closure_eq⟩
  | inc => exact ⟨t₄, by simp [Singletons.get], h₄.closure_eq⟩

/-- A new pool in which a numeral was built and folded: with a slot for each builtin function and
for each successor of the numeral, two for what the folding itself holds, one for each successor but
the first that is unrolled, and two for an integer and the one after it. -/
theorem exists_slots_after_fold (limits : Limits) (m : Machine Pools) {k : Nat} (hk : 2 ≤ k)
    (hmax : k ≤ Int64.maxValue.toInt) (hdepth : k < limits.nesting) :
    ∃ e m₁ n m₂ m₃, openPool limits m = .ok e m₁ ∧ e.numeral k m₁ = .ok n m₂ ∧
      e.fold n m₂ = .ok (.ofInt k) m₃ ∧ (Backend.stats e.site m₃.store).slots = 2 * k + 7 := by
  obtain ⟨t, m₁, held, hbuild, ⟨g₁, hm₁⟩, ⟨hbuiltins, hfour⟩, hsize₁⟩ :=
    peaks_build ⟨⟨m.store.toArray.push {}⟩, m.journal⟩ _ represents_opened
  have hempty : (Pools.pool ⟨m.store.toArray.push {}⟩ m.store.toArray.size).cells.size = 0 := by
    rw [Pools.pool, Array.getElem?_push, if_pos rfl]
    rfl
  let e : Evaluator PoolRef := ⟨m.store.toArray.size, t, limits.nesting⟩
  have he : Attended e held := hbuiltins
  have hnesting : k < e.nesting := hdepth
  obtain ⟨n, m₂, _, hnumeral, ⟨g₂, hm₂⟩, ⟨u, hu, rfl, hcard⟩, hsize₂⟩ :=
    peaks_numeral (k := k) he (by omega) m₁ g₁ hm₁
  obtain ⟨j, rfl⟩ : ∃ j, k = j + 2 := ⟨k - 2, by omega⟩
  obtain ⟨a, m₃, _, hfold, -, ⟨ha, rfl⟩, hsize₃⟩ :=
    peaks_fold (he.cons (n, u)) (Multiset.mem_cons_self ..) hu hmax (by omega) m₂ g₂ hm₂
  have hanswer : a = .ofInt (j + 2 : Nat) := by
    rw [← Int64.ofInt_toInt a, ha]
    rfl
  refine ⟨e, m₁, n, m₂, m₃, ?_, hnumeral, hanswer ▸ hfold, ?_⟩
  · simp only [openPool, Bind.bind, EStateM.bind, Act.read, Act.update, hbuild]
    rfl
  · change (m₃.store.pool e.site).cells.size = _
    rw [hsize₃, hsize₂, hsize₁, hempty, hcard, hfour, unrolled]
    omega

end Pools

end ChurchStore
