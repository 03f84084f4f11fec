import ChurchStore.Proofs.Balance

/-!
# Several pools

What is done in one pool does not show in another one: an operation with handles of one pool changes
that pool only, and a handle that a pool did not issue is refused by it. Beside each pool this
module lets a grove undergo the same, in which a handle is the value itself, so that each held
handle can be seen to read the closure that was stored for it.

All this holds while pools store handles of their own. A pool that is given a handle of another pool
to store keeps the position of it only, which it reads as one of its own.
-/

namespace ChurchStore

namespace Pools

variable {α β : Type} {site site' : Site} {w w' w'' : Pools} {m : Machine Pools} {h : PoolRef}

/-! ### Operations that change one pool only -/

/-- Nothing has changed but one pool. -/
structure Within (site : Site) (w' w : Pools) : Prop where
  size_eq : w'.toArray.size = w.toArray.size
  pool_eq {site' : Site} : site' ≠ site → w'.pool site' = w.pool site'

theorem Within.rfl : Within site w w := ⟨Eq.refl _, fun _ => Eq.refl _⟩

theorem Within.trans (h : Within site w'' w') (h' : Within site w' w) : Within site w'' w :=
  ⟨h.size_eq.trans h'.size_eq, fun hne => (h.pool_eq hne).trans (h'.pool_eq hne)⟩

theorem within_modify_self (f : Pool → Pool) : Within site (w.modify site f) w :=
  ⟨size_modify .., fun hne => pool_modify_of_ne hne.symm _⟩

theorem within_release (hp : h.pool = site) : Within site (release h w) w := by
  subst hp
  exact within_modify_self _

/-- An operation that changes no other pool than one. -/
def Confined (site : Site) (op : Act Pools α) : Prop :=
  ∀ m, match op m with
    | .ok _ m' | .error _ m' => Within site m'.store m.store

namespace Confined

variable {op : Act Pools α}

theorem of_ok {a : α} {m' : Machine Pools} (h : Confined site op) (hrun : op m = .ok a m') :
    Within site m'.store m.store := by
  have hm := h m
  rwa [hrun] at hm

theorem of_error {f : Fault} {m' : Machine Pools} (h : Confined site op)
    (hrun : op m = .error f m') : Within site m'.store m.store := by
  have hm := h m
  rwa [hrun] at hm

theorem pure (a : α) : Confined site (Pure.pure a) := fun _ => .rfl

theorem read (f : Pools → α) : Confined site (Act.read f) := fun _ => .rfl

theorem emit (e : Log.Event) : Confined site (Act.emit e) := fun _ => .rfl

theorem violate (v : Violation) : Confined site (Act.violate v : Act Pools α) := fun _ => .rfl

theorem throw (f : Fault) : Confined site (MonadExcept.throw f : Act Pools α) := fun _ => .rfl

theorem modify (f : Pool → Pool) : Confined site (Act.update (·.modify site f)) :=
  fun _ => within_modify_self f

theorem release (hp : h.pool = site) : Confined site (Act.update (Pools.release h)) :=
  fun _ => within_release hp

theorem bind {k : α → Act Pools β} (hop : Confined site op) (hk : ∀ a, Confined site (k a)) :
    Confined site (op >>= k) := by
  intro m
  simp only [Bind.bind, EStateM.bind]
  cases hrun : op m with
  | ok a n =>
    have hn := hop.of_ok hrun
    cases hrest : k a n with
    | ok b m' =>
      simp only [hrest]
      exact ((hk a).of_ok hrest).trans hn
    | error f m' =>
      simp only [hrest]
      exact ((hk a).of_error hrest).trans hn
  | error f n => exact hop.of_error hrun

theorem onFault (hop : Confined site op) (hp : h.pool = site) :
    Confined site (Act.onFault (Pools.release h) op) := by
  intro m
  rw [Act.onFault]
  cases hrun : op m with
  | ok a n => exact hop.of_ok hrun
  | error f n => exact (within_release hp).trans (hop.of_error hrun)

end Confined

theorem confined_adopt (hp : h.pool = site) : Confined site (adopt site h) := by
  refine (Confined.read _).bind fun size => ?_
  split
  · refine Confined.bind (fun m => ?_) fun _ => .pure _
    exact (within_release hp).trans (within_modify_self _)
  · exact (Confined.release hp).bind fun _ => .throw _

theorem confined_adoptCaptures {c : Closure PoolRef} (hc : ∀ x ∈ c.captures, x.pool = site) :
    Confined site (adoptCaptures site c) := by
  cases c with
  | zero | zeroInner | succ | intLiteral | inc => exact .pure _
  | succPartial n =>
    exact (confined_adopt (hc n (by simp [Closure.captures]))).bind fun _ => .pure _
  | succInner n s =>
    have hn := hc n (by simp [Closure.captures])
    have hs := hc s (by simp [Closure.captures])
    exact ((confined_adopt hn).onFault hs).bind fun _ => (confined_adopt hs).bind fun _ => .pure _

/-- To store a closure over handles of a pool changes that pool only. -/
theorem confined_alloc {c : Closure PoolRef} (hc : ∀ x ∈ c.captures, x.pool = site) :
    Confined site (alloc site c) := by
  refine (confined_adoptCaptures hc).bind fun x => (Confined.read _).bind fun ⟨slot, isReused⟩ => ?_
  refine (Confined.modify _).bind fun _ => ?_
  cases isReused with
  | true => exact (Confined.emit _).bind fun _ => .pure _
  | false => exact .pure _

/-- Whatever handle a pool is asked for, nothing changes elsewhere. -/
theorem confined_resolve (site : Site) (h : PoolRef) : Confined site (resolve site h) := by
  rw [resolve]
  split
  · exact .violate _
  · refine (Confined.read _).bind fun o => ?_
    cases o with
    | none => exact .violate _
    | some c => exact (Confined.modify _).bind fun _ => .pure _

theorem confined_build (site : Site) : Confined site (Singletons.build (alloc site)) := by
  have halloc (b : Builtin) : Confined site (alloc site b.closure) :=
    confined_alloc (by simp [Builtin.captures_closure])
  exact (halloc .zero).bind fun _ => (halloc .zeroInner).bind fun _ => (halloc .succ).bind fun _ =>
    (halloc .inc).bind fun _ => .pure _

/-- A handle is refused by every pool but its own. -/
theorem resolve_of_foreign (hp : h.pool ≠ site) (m : Machine Pools) :
    ∃ j, resolve site h m = .error (.violation (.foreignHandle .pooled)) ⟨m.store, j⟩ := by
  rw [resolve, if_pos hp]
  exact ⟨_, rfl⟩

/-! ### Pools beside groves -/

variable {g : Grove 16} {held : Multiset (PoolRef × Tree)} {p : PoolRef × Tree}

/-- What a pool represents is told by that pool alone. -/
theorem represents_of_pool_eq (h : (representation site).Represents [] w g held)
    (hlt : site < w'.toArray.size) (hpool : w'.pool site = w.pool site) :
    (representation site).Represents [] w' g held := by
  obtain ⟨hresets, known, tree, hm⟩ := h
  have hlook (x : PoolRef) : (view site).look w' x = (view site).look w x := by
    simp only [view, hpool]
  refine ⟨hresets, known, tree, { hm with
    sound := ⟨hlt, hm.sound.pool_eq, hpool ▸ hm.sound.pool⟩
    of_look := fun {x c} hc => hm.of_look ((hlook x).symm.trans hc)
    look_isSome := fun {x} hk he => ?_
    allocated_eq := fun k => ?_ }⟩
  · change ((view site).look w' x).isSome
    rw [hlook]
    exact hm.look_isSome hk he
  · change (w'.pool site).ledger.alloc.get k = _
    rw [hpool]
    exact hm.allocated_eq k

theorem pool_push_of_ne (hne : site ≠ w.toArray.size) (p : Pool) :
    Pools.pool ⟨w.toArray.push p⟩ site = w.pool site := by
  rw [Pools.pool, Pools.pool, Array.getElem?_push, if_neg hne]

/-- A new pool represents the grove in which nothing was made. -/
theorem represents_opened :
    (representation w.toArray.size).Represents [] ⟨w.toArray.push {}⟩ ({} : Grove 16) 0 := by
  have hpool : Pools.pool ⟨w.toArray.push {}⟩ w.toArray.size = {} := by
    rw [Pools.pool, Array.getElem?_push, if_pos rfl]
    rfl
  refine Representation.represents_empty ⟨?_, fun h hh => absurd hh (Multiset.notMem_zero h), ?_⟩
    (fun h => ?_) rfl (fun k => ?_) fun c => rfl
  · change w.toArray.size < (w.toArray.push {}).size
    rw [Array.size_push]
    exact Nat.lt_succ_self _
  · rw [hpool]
    exact .empty
  · rw [← Option.not_isSome_iff_eq_none]
    intro hsome
    obtain ⟨c, hc⟩ := Option.isSome_iff_exists.1 hsome
    obtain ⟨-, x, hx, -⟩ := look_eq_some hc
    rw [hpool] at hx
    cases hx
  · change (Pools.pool ⟨w.toArray.push {}⟩ w.toArray.size).ledger.alloc.get k = 0
    rw [hpool]
    exact PerKind.get_const ..

/-- The builtin functions that are made first in a grove. -/
def withBuiltins : Grove 16 :=
  Builtin.all.foldl (fun g b => g.grow (b.closure : Closure Tree).kind) {}

/-- Opening a pool changes no other one, and its evaluator's handles stand for the builtin functions
of a grove. -/
theorem exists_openPool (limits : Limits) (m : Machine Pools) :
    ∃ t m', openPool limits m = .ok ⟨m.store.toArray.size, t, limits.nesting⟩ m' ∧
      Within m.store.toArray.size m'.store ⟨m.store.toArray.push {}⟩ ∧
      (representation m.store.toArray.size).Represents [] m'.store withBuiltins
        (Builtin.all.map fun b => (t.get b, (Grove.builtins 0).get b) : List (PoolRef × Tree)) := by
  have hbuild :=
    ((representation m.store.toArray.size).simulation (b := 16) rfl []).coupled_build 0
  have hgrove : Singletons.build (Backend.alloc 0) (⟨{}, {}⟩ : Machine (Grove 16)) = _ :=
    Grove.build_of_fits rfl
  obtain ⟨t, u, m', n', hx, hy, hrep⟩ | ⟨f, m', n', -, hy, -⟩ :=
    hbuild.cases (s := ⟨⟨m.store.toArray.push {}⟩, m.journal⟩) (t := ⟨{}, {}⟩) represents_opened
  · injection hgrove.symm.trans hy with hu hn
    subst hu hn
    have hrun : Singletons.build (alloc m.store.toArray.size)
        ⟨⟨m.store.toArray.push {}⟩, m.journal⟩ = .ok t m' := hx
    refine ⟨t, m', ?_, (confined_build _).of_ok hrun, ?_⟩
    · simp only [openPool, Bind.bind, EStateM.bind, Act.read, Act.update, hrun]
      rfl
    · rw [Multiset.add_zero] at hrep
      exact hrep
  · cases hgrove.symm.trans hy

/-- A held handle reads the closure of its tree, and the captures that are handed out stand for the
captures of the tree. -/
theorem exists_resolve (h : (representation site).Represents [] m.store g held) (hp : p ∈ held) :
    ∃ (c : Closure (PoolRef × Tree)) (m' : Machine Pools),
      resolve site p.1 m = .ok (c.map Prod.fst) m' ∧ p.2.closure = c.map Prod.snd ∧
        (representation site).Represents [] m'.store g (c.captures + held) := by
  have hcurrent : g.epochOf p.2.number = g.resets.length := by
    rw [Grove.epochOf, h.1]
    rfl
  have hgrove : Backend.resolve 0 p.2 (⟨g, {}⟩ : Machine (Grove 16)) = _ :=
    Grove.resolve_of_current hcurrent
  have hcoupled := ((representation site).simulation (b := 16) rfl []).resolve hp
  obtain ⟨x, y, m', n', hx, hy, c, rfl, rfl, hrep⟩ | ⟨f, m', n', -, hy, -⟩ :=
    hcoupled.cases (s := m) (t := ⟨g, {}⟩) h
  · injection hgrove.symm.trans hy with hclosure hn
    subst hn
    exact ⟨c, m', hx, hclosure, hrep⟩
  · cases hgrove.symm.trans hy

/-- A closure over held handles is stored, and its handle stands for a new tree. -/
theorem exists_alloc {c : Closure (PoolRef × Tree)}
    (h : (representation site).Represents [] m.store g (c.captures + held)) :
    ∃ a m', alloc site (c.map Prod.fst) m = .ok a m' ∧
      (representation site).Represents [] m'.store (g.grow c.kind)
        ((a, .node g.made.length (c.map Prod.snd)) ::ₘ held) := by
  have hfits : g.capacity.filter (· < (c.map Prod.snd).footprint) = none := by
    obtain ⟨-, known, tree, hm⟩ := h
    have hfoot : (c.map Prod.snd).footprint = (c.map Prod.fst).footprint := by
      simp [Closure.footprint]
    rw [hfoot]
    exact hm.capacity_eq (c.map Prod.fst)
  have hgrove : Backend.alloc 0 (c.map Prod.snd) (⟨g, {}⟩ : Machine (Grove 16)) = _ :=
    Grove.alloc_of_fits hfits
  have hcoupled := ((representation site).simulation (b := 16) rfl []).alloc c held
  obtain ⟨a, t, m', n', hx, hy, hrep⟩ | ⟨f, m', n', -, hy, -⟩ :=
    hcoupled.cases (s := m) (t := ⟨g, {}⟩) h
  · cases hgrove.symm.trans hy
    refine ⟨a, m', hx, ?_⟩
    rw [← Closure.kind_map Prod.snd]
    exact hrep
  · cases hgrove.symm.trans hy

theorem represents_retain (h : (representation site).Represents [] w g held) (hp : p ∈ held) :
    (representation site).Represents [] (retain p.1 w) g (p ::ₘ held) :=
  ((representation site).simulation rfl []).retain h hp

theorem represents_release (h : (representation site).Represents [] w g (p ::ₘ held)) :
    (representation site).Represents [] (release p.1 w) g held :=
  ((representation site).simulation rfl []).release h

theorem represents_retainAll (l : List (PoolRef × Tree)) (hl : ∀ p ∈ l, p ∈ held)
    (h : (representation site).Represents [] w g held) :
    (representation site).Represents [] ((l.map Prod.fst).foldl (fun w h => retain h w) w) g
      (l + held) := by
  induction l generalizing w held with
  | nil => rwa [Multiset.coe_nil, Multiset.zero_add]
  | cons p l ih =>
    have hp := represents_retain h (hl p (List.mem_cons_self ..))
    have hrest := ih (fun q hq => Multiset.mem_cons_of_mem (hl q (List.mem_cons_of_mem _ hq))) hp
    rwa [Multiset.add_cons, ← Multiset.cons_add, Multiset.cons_coe] at hrest

theorem within_retainAll (l : List PoolRef) (hl : ∀ x ∈ l, x.pool = site) :
    Within site (l.foldl (fun w h => retain h w) w) w := by
  induction l generalizing w with
  | nil => exact .rfl
  | cons x l ih =>
    have hx := hl x (List.mem_cons_self ..)
    subst hx
    exact (ih fun y hy => hl y (List.mem_cons_of_mem _ hy)).trans (within_modify_self _)

theorem pool_eq_of_mem_captures {c : Closure (PoolRef × Tree)}
    (hc : ∀ p ∈ c.captures, p.1.pool = site) : ∀ x ∈ (c.map Prod.fst).captures, x.pool = site := by
  intro x hx
  rw [Closure.captures_map] at hx
  obtain ⟨p, hp, rfl⟩ := List.mem_map.1 hx
  exact hc p hp

/-- The handles of one pool among those of a list. -/
def ofPool (site : Site) (l : List (PoolRef × Tree)) : Multiset (PoolRef × Tree) :=
  (l.filter fun p => p.1.pool = site : List (PoolRef × Tree))

theorem mem_ofPool {l : List (PoolRef × Tree)} (hp : p ∈ l) : p ∈ ofPool p.1.pool l :=
  Multiset.mem_coe.2 (List.mem_filter.2 ⟨hp, decide_eq_true rfl⟩)

theorem ofPool_append_of_eq {l l' : List (PoolRef × Tree)} (h : ∀ p ∈ l, p.1.pool = site) :
    ofPool site (l ++ l') = l + ofPool site l' := by
  rw [ofPool, List.filter_append, List.filter_eq_self.2 fun p hp => decide_eq_true (h p hp)]
  rfl

theorem ofPool_append_of_ne {l l' : List (PoolRef × Tree)} (h : ∀ p ∈ l, p.1.pool ≠ site) :
    ofPool site (l ++ l') = ofPool site l' := by
  rw [ofPool, List.filter_append, List.filter_eq_nil_iff.2 fun p hp => by simpa using h p hp]
  rfl

theorem ofPool_congr {l l' : List (PoolRef × Tree)} (h : l.Perm l') :
    ofPool site l = ofPool site l' :=
  Multiset.coe_eq_coe.2 (h.filter _)

/-! ### Custody -/

/-- Several pools, beside each of them a grove in which the same is done, and the handles that are
held, each with its tree. -/
structure Custody where
  machine : Machine Pools := { store := {} }
  groves : Site → Grove 16 := fun _ => {}
  held : List (PoolRef × Tree) := []

/-- One of the things that can be done with several pools. Handles are named by their places in the
list of those that are held. -/
inductive Move where
  | new (limits : Limits)
  | alloc (site : Site) (c : Closure Nat)
  | clone (place : Nat)
  | drop (place : Nat)
  | resolve (site : Site) (place : Nat)
  deriving Repr

namespace Custody

/-- The closure over the handles at the given places, if there are all of them. -/
def closure? (s : Custody) (c : Closure Nat) : Option (Closure (PoolRef × Tree)) :=
  if ∀ place ∈ c.captures, place < s.held.length then
    some (c.map fun place => s.held[place]?.getD default)
  else none

theorem mem_of_closure? {s : Custody} {c : Closure Nat} {c' : Closure (PoolRef × Tree)}
    (hc : s.closure? c = some c') : ∀ p ∈ c'.captures, p ∈ s.held := by
  rw [closure?] at hc
  split at hc
  · rename_i hlt
    cases hc
    intro p hp
    rw [Closure.captures_map] at hp
    obtain ⟨place, hplace, rfl⟩ := List.mem_map.1 hp
    rw [List.getElem?_eq_getElem (hlt place hplace)]
    exact List.getElem_mem _
  · cases hc

/-- A pool is opened, and an empty grove beside it. -/
def new (s : Custody) (limits : Limits) : Custody :=
  match openPool limits s.machine with
  | .ok e m =>
    { machine := m
      groves := Function.update s.groves e.site withBuiltins
      held := Builtin.all.map (fun b => (e.singletons.get b, (Grove.builtins 0).get b)) ++ s.held }
  | .error _ m => { s with machine := m }

/-- A pool stores a closure over duplicates of handles. -/
def alloc (s : Custody) (site : Site) (c : Closure (PoolRef × Tree)) : Custody :=
  let m := { s.machine with
    store := (c.map Prod.fst).captures.foldl (fun w h => retain h w) s.machine.store }
  match Pools.alloc site (c.map Prod.fst) m with
  | .ok h m =>
    { machine := m
      groves := Function.update s.groves site ((s.groves site).grow c.kind)
      held := (h, .node (s.groves site).made.length (c.map Prod.snd)) :: s.held }
  | .error _ m => { s with machine := m }

/-- A pool is asked for the closure behind a handle. -/
def resolve (s : Custody) (site : Site) (p : PoolRef × Tree) : Custody :=
  match Pools.resolve site p.1 s.machine with
  | .ok c m => { s with machine := m, held := c.captures.zip p.2.closure.captures ++ s.held }
  | .error _ m => { s with machine := m }

/-- One more thing is done. It is passed over if what is named does not exist, or if a pool would
have to store handles of another pool. -/
def play (s : Custody) : Move → Custody
  | .new limits => s.new limits
  | .alloc site c =>
    match s.closure? c with
    | none => s
    | some c =>
      if site < s.machine.store.toArray.size ∧ ∀ p ∈ c.captures, p.1.pool = site then
        s.alloc site c
      else s
  | .clone place =>
    match s.held[place]? with
    | none => s
    | some p =>
      { s with
        machine := { s.machine with store := retain p.1 s.machine.store }
        held := p :: s.held }
  | .drop place =>
    match s.held[place]? with
    | none => s
    | some p =>
      { s with
        machine := { s.machine with store := release p.1 s.machine.store }
        held := s.held.eraseIdx place }
  | .resolve site place =>
    match s.held[place]? with
    | none => s
    | some p => s.resolve site p

/-- All that is done, in order. -/
def after (s : Custody) (moves : List Move) : Custody := moves.foldl play s

/-- The pool that something done may change. -/
def site? (s : Custody) : Move → Option Site
  | .new _ => s.machine.store.toArray.size
  | .alloc site _ | .resolve site _ => site
  | .clone place | .drop place => s.held[place]?.map (·.1.pool)

/-- Each pool represents its grove, with its own handles. -/
structure Sound (s : Custody) : Prop where
  represents {site : Site} : site < s.machine.store.toArray.size →
    (representation site).Represents [] s.machine.store (s.groves site) (ofPool site s.held)
  groves_eq {site : Site} : s.machine.store.toArray.size ≤ site → s.groves site = {}
  lt_size {p : PoolRef × Tree} : p ∈ s.held → p.1.pool < s.machine.store.toArray.size

namespace Sound

variable {s : Custody}

/-- A pool changes while handles of it are issued and lost, and represents its grove again. -/
theorem change_pool (hs : s.Sound) (hlt : site < s.machine.store.toArray.size) {m : Machine Pools}
    {g : Grove 16} {l rest : List (PoolRef × Tree)} (hw : Within site m.store s.machine.store)
    (hsub : rest ⊆ s.held) (hrest : ∀ site' ≠ site, ofPool site' rest = ofPool site' s.held)
    (hrep : (representation site).Represents [] m.store g (l + ofPool site rest)) :
    Sound { machine := m, groves := Function.update s.groves site g, held := l ++ rest } := by
  have hown : ∀ p ∈ l, p.1.pool = site := by
    intro p hp
    obtain ⟨-, _, _, hm⟩ := hrep
    exact hm.sound.pool_eq p.1
      (Multiset.mem_map_of_mem Prod.fst (Multiset.mem_add.2 (.inl (Multiset.mem_coe.2 hp))))
  constructor
  case represents =>
    intro site' hlt'
    change (representation site').Represents [] m.store (Function.update s.groves site g site')
      (ofPool site' (l ++ rest))
    by_cases hne : site' = site
    · subst hne
      rwa [ofPool_append_of_eq hown, Function.update_self]
    · rw [ofPool_append_of_ne fun p hp heq => hne (heq.symm.trans (hown p hp)), hrest site' hne,
        Function.update_of_ne hne]
      exact represents_of_pool_eq (hs.represents (hw.size_eq ▸ hlt')) hlt' (hw.pool_eq hne)
  case groves_eq =>
    intro site' hle
    have hle := hw.size_eq ▸ hle
    have hne : site' ≠ site := Nat.ne_of_gt (Nat.lt_of_lt_of_le hlt hle)
    exact (Function.update_of_ne hne ..).trans (hs.groves_eq hle)
  case lt_size =>
    intro p hp
    change p.1.pool < m.store.toArray.size
    rw [hw.size_eq]
    rcases List.mem_append.1 hp with hp | hp
    · rwa [hown p hp]
    · exact hs.lt_size (hsub hp)

/-- A pool changes while handles of it are issued. -/
theorem issue (hs : s.Sound) (hlt : site < s.machine.store.toArray.size) {m : Machine Pools}
    {g : Grove 16} {l : List (PoolRef × Tree)} (hw : Within site m.store s.machine.store)
    (hrep : (representation site).Represents [] m.store g (l + ofPool site s.held)) :
    Sound { machine := m, groves := Function.update s.groves site g, held := l ++ s.held } :=
  hs.change_pool hlt hw (fun _ h => h) (fun _ _ => rfl) hrep

theorem of_store_eq (hs : s.Sound) {m : Machine Pools} (hm : m.store = s.machine.store) :
    Sound { s with machine := m } where
  represents hlt := by
    simp only [hm] at hlt ⊢
    exact hs.represents hlt
  groves_eq hle := hs.groves_eq (hm ▸ hle)
  lt_size hp := hm ▸ hs.lt_size hp

theorem clone (hs : s.Sound) {p : PoolRef × Tree} (hp : p ∈ s.held) :
    Sound { s with
      machine := { s.machine with store := retain p.1 s.machine.store }
      held := p :: s.held } := by
  have hlt := hs.lt_size hp
  have hrep := represents_retain (hs.represents hlt) (mem_ofPool hp)
  have h := hs.issue (l := [p]) hlt (m := ⟨_, s.machine.journal⟩) (within_modify_self _) hrep
  rwa [Function.update_eq_self] at h

theorem drop (hs : s.Sound) {p : PoolRef × Tree} {place : Nat} (hp : s.held[place]? = some p) :
    Sound { s with
      machine := { s.machine with store := release p.1 s.machine.store }
      held := s.held.eraseIdx place } := by
  have hlt := hs.lt_size (List.mem_of_getElem? hp)
  obtain ⟨hplace, rfl⟩ := List.getElem?_eq_some_iff.1 hp
  have hperm : ([s.held[place]] ++ s.held.eraseIdx place).Perm s.held :=
    List.getElem_cons_eraseIdx_perm hplace
  have hrep := hs.represents hlt
  rw [← ofPool_congr hperm, ofPool_append_of_eq (by simp), Multiset.coe_singleton,
    Multiset.singleton_add] at hrep
  have hother (site' : Site) (hne : site' ≠ s.held[place].1.pool) :
      ofPool site' (s.held.eraseIdx place) = ofPool site' s.held := by
    rw [← ofPool_congr hperm, ofPool_append_of_ne (by simpa using hne.symm)]
  have hreleased := represents_release hrep
  rw [← Multiset.zero_add (ofPool _ _), ← Multiset.coe_nil] at hreleased
  have h := hs.change_pool hlt (m := ⟨_, s.machine.journal⟩) (within_release rfl)
    (List.eraseIdx_subset ..) hother hreleased
  rwa [Function.update_eq_self] at h

theorem alloc (hs : s.Sound) (hlt : site < s.machine.store.toArray.size)
    {c : Closure (PoolRef × Tree)} (hheld : ∀ p ∈ c.captures, p ∈ s.held)
    (hc : ∀ p ∈ c.captures, p.1.pool = site) : (s.alloc site c).Sound := by
  have hcaptures := pool_eq_of_mem_captures hc
  have hretained := represents_retainAll c.captures
    (fun p hp => hc p hp ▸ mem_ofPool (hheld p hp)) (hs.represents hlt)
  rw [← Closure.captures_map] at hretained
  obtain ⟨a, m', hrun, hrep⟩ := exists_alloc (m := ⟨_, s.machine.journal⟩) hretained
  rw [Custody.alloc, hrun]
  exact hs.issue (l := [_]) hlt
    (((confined_alloc hcaptures).of_ok hrun).trans (within_retainAll _ hcaptures)) hrep

theorem resolve (hs : s.Sound) (site : Site) {p : PoolRef × Tree} (hp : p ∈ s.held) :
    (s.resolve site p).Sound := by
  by_cases hsite : p.1.pool = site
  · subst hsite
    obtain ⟨c, m', hrun, hclosure, hrep⟩ :=
      exists_resolve (hs.represents (hs.lt_size hp)) (mem_ofPool hp)
    have hzip : (c.map Prod.fst).captures.zip p.2.closure.captures = c.captures := by
      rw [hclosure, Closure.captures_map, Closure.captures_map, List.zip_map', List.map_id']
    have h := hs.issue (hs.lt_size hp) (Confined.of_ok (confined_resolve _ _) hrun) hrep
    rw [Function.update_eq_self] at h
    rw [Custody.resolve, hrun]
    simpa only [hzip] using h
  · obtain ⟨j, hrun⟩ := resolve_of_foreign hsite s.machine
    rw [Custody.resolve, hrun]
    exact hs.of_store_eq rfl

theorem ofPool_size (hs : s.Sound) : ofPool s.machine.store.toArray.size s.held = 0 := by
  rw [ofPool, List.filter_eq_nil_iff.2 fun p hp => by simpa using Nat.ne_of_lt (hs.lt_size hp)]
  rfl

/-- One more pool, in which nothing is stored yet. -/
theorem push (hs : s.Sound) :
    Sound { s with machine := ⟨⟨s.machine.store.toArray.push {}⟩, s.machine.journal⟩ } where
  represents {site} hlt := by
    have hlt : site < (s.machine.store.toArray.push {}).size := hlt
    by_cases hsite : site = s.machine.store.toArray.size
    · subst hsite
      rw [hs.groves_eq (Nat.le_refl _), hs.ofPool_size]
      exact represents_opened
    · have hold : site < s.machine.store.toArray.size := by
        rw [Array.size_push] at hlt
        exact Nat.lt_of_le_of_ne (Nat.le_of_lt_succ hlt) hsite
      exact represents_of_pool_eq (hs.represents hold) hlt (pool_push_of_ne hsite _)
  groves_eq {site} hle := by
    have hle : (s.machine.store.toArray.push {}).size ≤ site := hle
    rw [Array.size_push] at hle
    exact hs.groves_eq (Nat.le_of_succ_le hle)
  lt_size {p} hp := by
    change p.1.pool < (s.machine.store.toArray.push {}).size
    rw [Array.size_push]
    exact Nat.lt_succ_of_lt (hs.lt_size hp)

theorem new (hs : s.Sound) (limits : Limits) : (s.new limits).Sound := by
  obtain ⟨t, m', hrun, hw, hrep⟩ := exists_openPool limits s.machine
  rw [← Multiset.add_zero (Multiset.ofList _), ← hs.ofPool_size] at hrep
  have hlt : s.machine.store.toArray.size < (s.machine.store.toArray.push {}).size := by
    rw [Array.size_push]
    exact Nat.lt_succ_self _
  rw [Custody.new, hrun]
  exact hs.push.issue hlt hw hrep

theorem play (hs : s.Sound) (move : Move) : (s.play move).Sound := by
  cases move with
  | new limits => exact hs.new limits
  | alloc site c =>
    rw [Custody.play]
    split
    · exact hs
    · rename_i c' hc'
      split
      · rename_i hown
        exact hs.alloc hown.1 (mem_of_closure? hc') hown.2
      · exact hs
  | clone place =>
    rw [Custody.play]
    split
    · exact hs
    · exact hs.clone (List.mem_of_getElem? ‹_›)
  | drop place =>
    rw [Custody.play]
    split
    · exact hs
    · exact hs.drop ‹_›
  | resolve site place =>
    rw [Custody.play]
    split
    · exact hs
    · exact hs.resolve site (List.mem_of_getElem? ‹_›)

theorem after (hs : s.Sound) (moves : List Move) : (s.after moves).Sound := by
  induction moves generalizing s with
  | nil => exact hs
  | cons move moves ih => exact ih (hs.play move)

theorem start (filter : Log.Filter) :
    Sound { machine := { store := {}, journal := { filter } } } where
  represents hlt := absurd hlt (Nat.not_lt_zero _)
  groves_eq _ := rfl
  lt_size hp := nomatch hp

end Sound

/-- What can be relied on when handles of several pools are about. -/
structure Isolated (s : Custody) : Prop where
  /-- The counts of each pool are right for its own handles. -/
  balanced {site : Site} : site < s.machine.store.toArray.size →
    Balanced site s.machine.store ((ofPool site s.held).map Prod.fst)
  /-- A handle reads the closure of its tree from its own pool, with captures that stand for those
  of the tree. -/
  own {p : PoolRef × Tree} : p ∈ s.held → ∃ (c : Closure (PoolRef × Tree)) (m' : Machine Pools),
    Pools.resolve p.1.pool p.1 s.machine = .ok (c.map Prod.fst) m' ∧ p.2.closure = c.map Prod.snd
  /-- A handle is refused by every other pool, and nothing changes. -/
  foreign {p : PoolRef × Tree} {site : Site} : p ∈ s.held → site ≠ p.1.pool →
    ∃ j, Pools.resolve site p.1 s.machine =
      .error (.violation (.foreignHandle .pooled)) ⟨s.machine.store, j⟩
  /-- Handles are the same if they are of one pool and their trees were made at once. -/
  same_iff {p q : PoolRef × Tree} : p ∈ s.held → q ∈ s.held →
    (Backend.same Pools p.1 q.1 ↔ p.1.pool = q.1.pool ∧ p.2.number = q.2.number)

theorem Sound.isolated {s : Custody} (hs : s.Sound) : s.Isolated where
  balanced hlt := balanced_of_represents (hs.represents hlt)
  own hp := by
    obtain ⟨c, m', hrun, hclosure, -⟩ :=
      exists_resolve (hs.represents (hs.lt_size hp)) (mem_ofPool hp)
    exact ⟨c, m', hrun, hclosure⟩
  foreign _ hne := resolve_of_foreign hne.symm _
  same_iff {p q} hp hq := by
    by_cases hpool : p.1.pool = q.1.pool
    · rw [(hs.represents (hs.lt_size hp)).same_eq (mem_ofPool hp) (hpool ▸ mem_ofPool hq)]
      simp [hpool]
    · refine ⟨fun hsame => absurd ?_ hpool, fun h => absurd h.1 hpool⟩
      rw [beq_iff_eq.1 hsame]

theorem within_alloc (s : Custody) {c : Closure (PoolRef × Tree)}
    (hc : ∀ p ∈ c.captures, p.1.pool = site) :
    Within site (s.alloc site c).machine.store s.machine.store := by
  have hcaptures := pool_eq_of_mem_captures hc
  rw [Custody.alloc]
  split
  · rename_i h m hrun
    exact ((confined_alloc hcaptures).of_ok hrun).trans (within_retainAll _ hcaptures)
  · rename_i f m hrun
    exact ((confined_alloc hcaptures).of_error hrun).trans (within_retainAll _ hcaptures)

theorem within_resolve (s : Custody) (site : Site) (p : PoolRef × Tree) :
    Within site (s.resolve site p).machine.store s.machine.store := by
  rw [Custody.resolve]
  split
  · exact Confined.of_ok (confined_resolve _ _) ‹_›
  · exact Confined.of_error (confined_resolve _ _) ‹_›

/-- No pool changes but the one that something is done in. -/
theorem pool_play (s : Custody) {move : Move} (hsite : s.site? move ≠ some site) :
    (s.play move).machine.store.pool site = s.machine.store.pool site := by
  cases move with
  | new limits =>
    have hne : site ≠ s.machine.store.toArray.size := fun heq => hsite (congrArg some heq.symm)
    obtain ⟨t, m', hrun, hw, -⟩ := exists_openPool limits s.machine
    rw [play, new, hrun]
    exact (hw.pool_eq hne).trans (pool_push_of_ne hne _)
  | alloc site' c =>
    have hne : site ≠ site' := fun heq => hsite (congrArg some heq.symm)
    rw [play]
    split
    · rfl
    · split
      · rename_i hown
        exact (s.within_alloc hown.2).pool_eq hne
      · rfl
  | clone place | drop place =>
    rw [play]
    split
    · rfl
    · rename_i p hp
      refine pool_modify_of_ne (fun heq => hsite ?_) _
      rw [site?, hp]
      exact congrArg some heq
  | resolve site' place =>
    have hne : site ≠ site' := fun heq => hsite (congrArg some heq.symm)
    rw [play]
    split
    · rfl
    · exact (s.within_resolve site' _).pool_eq hne

end Custody

end Pools

open Pools in
/-- Whatever is done with several pools, each of them keeps its counts, answers for its own handles
and refuses all others, and changes by what is done in it only. This is as long as each pool is
given handles of its own to store. -/
theorem pools_stay_isolated (filter : Log.Filter) (moves : List Move) :
    let s := Custody.after { machine := { store := {}, journal := { filter } } } moves
    s.Isolated ∧ ∀ move site, s.site? move ≠ some site →
      (s.play move).machine.store.pool site = s.machine.store.pool site :=
  ⟨((Custody.Sound.start filter).after moves).isolated, fun _ _ => Custody.pool_play _⟩

open Pools in
/-- A pool that is given a handle of another pool to store reads another closure behind it later: a
five that is captured becomes the seven that is at the same position. -/
theorem foreign_capture_is_misread :
    ending ((do
      let e ← openPool {}
      let d ← openPool {}
      let five ← alloc e.site (.intLiteral 5)
      let seven ← alloc d.site (.intLiteral 7)
      let captor ← alloc d.site (.succPartial five)
      return (five, seven, ← resolve d.site captor)) { store := {} }) =
        .ok (⟨0, 4⟩, ⟨1, 4⟩, .succPartial ⟨1, 4⟩) := by
  decide +kernel

end ChurchStore
