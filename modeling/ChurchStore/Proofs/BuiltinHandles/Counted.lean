import ChurchStore.Proofs.Balance
import ChurchStore.Proofs.BuiltinHandles
import ChurchStore.Proofs.Pools.Tidy
import ChurchStore.Proofs.SharedHandles
import ChurchStore.Proofs.Upholding.Counted

/-!
# The builtin functions on the stores that count owners

The nodes of the shared heap and the slots of pools are cells, in which a closure with more owners
than captures stays. Both stores therefore look after the builtin functions of their evaluators:
whatever else is counted wrong, as it may be where pools adopt handles of each other, no operation
gives up an owner for whom there is still a handle.
-/

namespace ChurchStore

namespace SharedHeap

variable {w : SharedHeap} {site : Site} {h x : NodeRef} {c : Closure NodeRef} {k : Nat}

/-- The builtin functions in the nodes of a heap, which are at home with their evaluators. -/
def care : Care SharedHeap NodeRef where
  Sound w := w.nodes.Closed ∧ w.homes.size = w.nodes.size
  Known w h := h.node < w.nodes.size
  Stands w h b := w.nodes.Stands h.node b.closure
  Seated w e := e.site < w.ledgers.size ∧
    ∀ b, w.homes[(e.singletons.get b).node]? = some e.site

theorem count_map_node (l : List NodeRef) (x : NodeRef) :
    (l.map (·.node)).count x.node = l.count x := by
  refine List.count_map_of_injective _ _ (fun a b hab => ?_) x
  cases a
  cases b
  exact congrArg NodeRef.mk hab

theorem passes_retain (hw : care.Sound w) (hh : h.node < w.nodes.size) :
    care.Passes w (retain h w) 0 {h} where
  sound := ⟨hw.1.acquire h.node, hw.2.trans (Cells.size_acquire ..).symm⟩
  known hx := by
    change _ < (w.nodes.acquire h.node).size
    rwa [Cells.size_acquire]
  known_given hx := by
    rw [Multiset.mem_singleton.1 hx]
    change _ < (w.nodes.acquire h.node).size
    rwa [Cells.size_acquire]
  stands {x b k} _ hs := by
    have hstands := Cells.Stands.acquire hs h.node
    have hcount := count_map_node [h] x
    rw [Multiset.count_zero, Nat.zero_add] at hstands
    rw [← Multiset.coe_singleton, Multiset.coe_count, ← hcount, Nat.add_comm]
    exact hstands
  seated := id

theorem passes_release (hw : care.Sound w) (h : NodeRef) :
    care.Passes w (release h w) {h} 0 := by
  obtain ⟨hnodes, hhomes⟩ := nodes_release h w
  have hsize : (release h w).nodes.size = w.nodes.size := by
    rw [hnodes]
    exact (w.nodes.freeing_release h.node).size_eq
  constructor
  case sound =>
    refine ⟨?_, by rw [hhomes, hsize, hw.2]⟩
    rw [hnodes]
    exact hw.1.release h.node
  case known =>
    intro x hx
    change _ < (release h w).nodes.size
    rwa [hsize]
  case known_given => exact fun hx => absurd hx (Multiset.notMem_zero _)
  case stands =>
    intro x b k hk hs
    have hcount := count_map_node [h] x
    rw [← Multiset.coe_singleton, Multiset.coe_count, ← hcount, Nat.add_comm] at hs
    change (release h w).nodes.Stands _ _ _
    rw [hnodes, Multiset.count_zero, Nat.zero_add]
    exact Cells.Stands.release hs hk
  case seated =>
    intro e he
    refine ⟨?_, fun b => by rw [hhomes, he.2 b]⟩
    rw [release_eq, size_ledgers_foldl_bury]
    exact he.1

/-- Nodes stay at home where they were made. -/
theorem home_insert {i : Nat} {j : Site} (site : Site) (c : Closure NodeRef)
    (hi : w.homes[i]? = some j) : (w.insert site c).homes[i]? = some j := by
  obtain ⟨hlt, -⟩ := Array.getElem?_eq_some_iff.1 hi
  rw [insert, Array.getElem?_push, if_neg (Nat.ne_of_lt hlt), hi]

theorem home_insert_self (hw : care.Sound w) (site : Site) (c : Closure NodeRef) :
    (w.insert site c).homes[w.nodes.size]? = some site := by
  rw [insert, ← hw.2, Array.getElem?_push_size]

theorem passes_insert (hw : care.Sound w) (site : Site)
    (hc : ∀ x ∈ c.captures, x.node < w.nodes.size) :
    care.Passes w (w.insert site c) c.captures {⟨w.nodes.size⟩} := by
  have hsize : (w.insert site c).nodes.size = w.nodes.size + 1 := Cells.size_push
  constructor
  case sound =>
    refine ⟨Cells.Closed.of_closure?_new (i := w.nodes.size) (x := c.map NodeRef.node) hw.1
      (fun j hj => ?_) ?_ fun j => Cells.closure?_push, ?_⟩
    · rw [Closure.captures_map] at hj
      obtain ⟨x, hx, rfl⟩ := List.mem_map.1 hj
      exact hc x hx
    · rw [hsize]
      exact Nat.le_succ _
    · rw [hsize, insert, Array.size_push, hw.2]
  case known =>
    intro x hx
    change _ < (w.insert site c).nodes.size
    rw [hsize]
    exact Nat.lt_succ_of_lt hx
  case known_given =>
    intro x hx
    rw [Multiset.mem_singleton.1 hx]
    change _ < (w.insert site c).nodes.size
    rw [hsize]
    exact Nat.lt_succ_self _
  case stands =>
    intro x b k _ hs
    have hne : ({⟨w.nodes.size⟩} : Multiset NodeRef).count x = 0 := by
      rw [Multiset.count_eq_zero, Multiset.mem_singleton]
      rintro rfl
      exact Nat.lt_irrefl _ hs.lt_size
    rw [Multiset.coe_count, ← count_map_node, ← Closure.captures_map, Nat.add_comm] at hs
    rw [hne, Nat.zero_add]
    exact Cells.Stands.push hs
  case seated =>
    intro e he
    refine ⟨?_, fun b => ?_⟩
    · rw [insert, Array.size_modify]
      exact he.1
    · exact home_insert site c (he.2 b)

/-- A builtin function that is added stands behind a handle of its own. -/
theorem makes_insert (hw : care.Sound w) (site : Site) (b : Builtin) :
    care.Makes w (w.insert site b.closure) ⟨w.nodes.size⟩ b where
  passes := by
    have hpasses := passes_insert (c := b.closure) hw site (by simp [Builtin.captures_closure])
    rwa [Builtin.captures_closure, Multiset.coe_nil] at hpasses
  fresh := Nat.lt_irrefl _
  stands := by
    change (w.nodes.push ⟨1, some (b.closure.map _)⟩).Stands _ _ _
    rw [Builtin.map_closure]
    exact .push_self hw.1 b.captures_closure

theorem foldl_retain (l : List Nat) (w : SharedHeap) :
    (l.map NodeRef.mk).foldl (fun w h => Backend.retain h w) w =
      { w with nodes := l.foldl Cells.acquire w.nodes } := by
  induction l generalizing w with
  | nil => rfl
  | cons i l ih => exact ih (retain ⟨i⟩ w)

/-- A heap looks after the builtin functions of all its evaluators. -/
theorem lawful_care : care.Lawful where
  quiet := quiet
  reset_eq := rfl
  initial := ⟨.empty, rfl⟩
  deed deed m hw _ hknown := by
    cases deed with
    | alloc c => exact passes_insert hw _ hknown
    | resolve h =>
      change care.Passes _ ((resolve h).leaves m) 0 _
      simp only [Deed.given, Backend.resolve, resolve, Act.leaves, Bind.bind, EStateM.bind,
        Act.read]
      cases hc : m.store.nodes.closure? h.node with
      | none => exact .rfl hw
      | some c =>
        have hall := Care.Passes.retainAll passes_retain hw (c.captures.map NodeRef.mk)
          fun x hx => by
            obtain ⟨j, hj, rfl⟩ := List.mem_map.1 hx
            exact Cells.Closed.lt_size hw.1 hc hj
        rw [foldl_retain, ← Closure.captures_map] at hall
        exact hall
    | retain h => exact passes_retain hw (hknown h (List.mem_singleton_self h))
    | release h => exact passes_release hw h
    | describe h =>
      change care.Passes _ ((describe h).leaves m) 0 0
      rw [leaves_describe]
      exact .rfl hw
  openWith_ok {limits m m' e} hw hrun := by
    cases hrun
    have hpush : care.Passes m.store { m.store with ledgers := m.store.ledgers.push {} } 0 0 :=
      { Care.Passes.rfl (C := care) hw with
        seated := fun he => by
          refine ⟨?_, he.2⟩
          change _ < (m.store.ledgers.push {}).size
          rw [Array.size_push]
          exact Nat.lt_succ_of_lt he.1 }
    have hzero := makes_insert hpush.sound m.store.ledgers.size .zero
    have hzeroInner := makes_insert hzero.passes.sound m.store.ledgers.size .zeroInner
    have hsucc := makes_insert hzeroInner.passes.sound m.store.ledgers.size .succ
    have hinc := makes_insert hsucc.passes.sound m.store.ledgers.size .inc
    have hissues := Care.Issues.cons hzero (.cons hzeroInner (.cons hsucc (.cons hinc
      (.nil hinc.passes.sound))))
    refine .of_issues hpush hissues ⟨by simp [insert], fun b => ?_⟩
    have hhome {v : SharedHeap} {i : Nat} (c : Closure NodeRef) :=
      @home_insert v i m.store.ledgers.size m.store.ledgers.size c
    cases b with
    | zero => exact hhome _ (hhome _ (hhome _ (home_insert_self hpush.sound _ _)))
    | zeroInner => exact hhome _ (hhome _ (home_insert_self hzero.passes.sound _ _))
    | succ => exact hhome _ (home_insert_self hzeroInner.passes.sound _ _)
    | inc => exact home_insert_self hsucc.passes.sound _ _
  openWith_error {limits m m' f} hw hrun := by cases hrun

end SharedHeap

namespace Pools

variable {w : Pools} {site : Site} {h : PoolRef} {m : Machine Pools}

/-- The builtin functions in the slots of pools. -/
def care : Care Pools PoolRef where
  Sound w := ∀ site, (w.pool site).Tidy
  Known w h := h.slot < (w.pool h.pool).cells.size
  Stands w h b := (w.pool h.pool).cells.Stands h.slot b.closure
  Seated w e := e.site < w.toArray.size ∧ ∀ b, (e.singletons.get b).pool = e.site

theorem count_mk (site : Site) (l : List Nat) (x : PoolRef) :
    (l.map (PoolRef.mk site)).count x = if x.pool = site then l.count x.slot else 0 := by
  obtain ⟨j, i⟩ := x
  split
  · subst_vars
    exact List.count_map_of_injective _ _ (fun a b hab => (PoolRef.mk.inj hab).2) i
  · rw [List.count_eq_zero]
    intro hmem
    obtain ⟨i', -, heq⟩ := List.mem_map.1 hmem
    exact absurd (PoolRef.mk.inj heq).1.symm ‹_›

theorem count_singleton (h x : PoolRef) :
    [h].count x = if x.pool = h.pool then [h.slot].count x.slot else 0 :=
  count_mk h.pool [h.slot] x

theorem pool_modify_eq (hs : site < w.toArray.size) (f : Pool → Pool) (j : Site) :
    (w.modify site f).pool j = if j = site then f (w.pool j) else w.pool j := by
  split
  · subst_vars
    exact pool_modify hs f
  · exact pool_modify_of_ne (Ne.symm ‹_›) f

/-- There are slots only in the pools of evaluators. -/
theorem lt_size_of_known (hh : care.Known w h) : h.pool < w.toArray.size := by
  by_contra hge
  have hpool : w.pool h.pool = {} := by
    rw [pool, Array.getElem?_eq_none (Nat.le_of_not_lt hge)]
    rfl
  change h.slot < (w.pool h.pool).cells.size at hh
  rw [hpool] at hh
  exact Nat.not_lt_zero _ hh

/-- What is done to one pool, if no slot of it gets lost. -/
theorem passes_modify {f : Pool → Pool} (used given : List Nat)
    (hs : site < w.toArray.size) (hw : care.Sound w) (hf : (f (w.pool site)).Tidy)
    (hsize : (w.pool site).cells.size ≤ (f (w.pool site)).cells.size)
    (hgiven : ∀ i ∈ given, i < (f (w.pool site)).cells.size)
    (hstands : ∀ {i c k}, 0 < k → (w.pool site).cells.Stands i c (k + used.count i) →
      (f (w.pool site)).cells.Stands i c (k + given.count i)) :
    care.Passes w (w.modify site f) (used.map (PoolRef.mk site) : List PoolRef)
      (given.map (PoolRef.mk site) : List PoolRef) where
  sound j := by
    rw [pool_modify_eq hs]
    split
    · subst_vars
      exact hf
    · exact hw j
  known {x} hx := by
    change x.slot < (w.pool x.pool).cells.size at hx
    change x.slot < ((w.modify site f).pool x.pool).cells.size
    rw [pool_modify_eq hs]
    split
    · subst_vars
      exact Nat.lt_of_lt_of_le hx hsize
    · exact hx
  known_given {x} hx := by
    obtain ⟨i, hi, rfl⟩ := List.mem_map.1 hx
    change i < ((w.modify site f).pool site).cells.size
    rw [pool_modify hs]
    exact hgiven i hi
  stands {x b k} hk hx := by
    change (w.pool x.pool).cells.Stands _ _ _ at hx
    change ((w.modify site f).pool x.pool).cells.Stands _ _ _
    rw [Multiset.coe_count, count_mk, Nat.add_comm] at hx
    rw [Multiset.coe_count, count_mk, Nat.add_comm, pool_modify_eq hs]
    split
    · rename_i heq
      rw [if_pos heq, heq] at hx
      rw [heq]
      exact hstands hk hx
    · rw [if_neg ‹_›] at hx
      exact hx
  seated he := ⟨by rw [size_modify]; exact he.1, he.2⟩

theorem lt_size_of_passes {w' : Pools} {used given : Multiset PoolRef}
    (h : care.Passes w w' used given) (hs : site < w.toArray.size) : site < w'.toArray.size :=
  (h.seated (e := ⟨site, ⟨⟨site, 0⟩, ⟨site, 0⟩, ⟨site, 0⟩, ⟨site, 0⟩⟩, 0⟩)
    ⟨hs, fun b => by cases b <;> rfl⟩).1

theorem passes_retain (hw : care.Sound w) (hh : care.Known w h) :
    care.Passes w (retain h w) 0 {h} := by
  refine passes_modify [] [h.slot] (lt_size_of_known hh) hw
    ((hw h.pool).acquire h.slot) (Nat.le_of_eq (Cells.size_acquire ..).symm) (fun i hi => ?_)
    fun _ hs => Cells.Stands.acquire hs h.slot
  rw [List.mem_singleton.1 hi]
  change _ < ((w.pool h.pool).cells.acquire h.slot).size
  rw [Cells.size_acquire]
  exact hh

theorem cells_release (p : Pool) (slot : Nat) :
    (p.release slot).cells = (p.cells.release slot).1 := by
  simp only [Pool.release, Pool.foldl_reclaim]

theorem passes_release (hw : care.Sound w) (hh : care.Known w h) :
    care.Passes w (release h w) {h} 0 := by
  refine passes_modify [h.slot] [] (lt_size_of_known hh) hw
    ((hw h.pool).release h.slot) ?_ (fun i hi => by cases hi) fun hk hs => ?_
  · rw [cells_release, (Cells.freeing_release ..).size_eq]
  · rw [cells_release]
    exact hs.release hk

theorem passes_insert {c : Closure Nat} (hs : site < w.toArray.size) (hw : care.Sound w)
    (hc : ∀ j ∈ c.captures, j < (w.pool site).cells.size) :
    care.Passes w (w.modify site (·.insert c)) (c.captures.map (PoolRef.mk site) : List PoolRef)
      {⟨site, (w.pool site).nextSlot⟩} := by
  have hsize := (hw site).size_insert c
  refine passes_modify c.captures [(w.pool site).nextSlot] hs hw ((hw site).insert hc) hsize.1
    (fun i hi => ?_) fun {i x k} _ hx => ?_
  · rw [List.mem_singleton.1 hi]
    exact hsize.2
  · have hne : (w.pool site).nextSlot ≠ i := by
      rintro rfl
      have hsome := hx.closure?_eq
      rw [(hw site).closure?_nextSlot] at hsome
      cases hsome
    rw [List.count_eq_zero.2 (by simpa using hne.symm), Nat.add_zero]
    exact (hw site).stands_insert hx

/-- An owner too many does no harm. -/
theorem passes_of_leak {w' : Pools} {used given leaked : Multiset PoolRef}
    (h : care.Passes w w' used (given + leaked)) : care.Passes w w' used given :=
  { h with
    known_given := fun hx => h.known_given (Multiset.mem_add.2 (.inl hx))
    stands := fun {x b k} hk hs => by
      have hstands := h.stands hk hs
      rw [Multiset.count_add] at hstands
      exact Cells.Stands.mono hstands (by omega) }

/-- What an operation that is handed handles leaves, if it answers with slots of a pool. -/
def Adopts (site : Site) {α : Type} (w : Pools) (used : Multiset PoolRef) (slots : α → List Nat) :
    EStateM.Result Fault (Machine Pools) α → Prop
  | .ok a m => care.Passes w m.store used ((slots a).map (PoolRef.mk site) : List PoolRef)
  | .error _ m => care.Passes w m.store used 0

/-- The handle is exchanged for an owner, if there is such a slot. -/
theorem adopts_adopt (site : Site) (hw : care.Sound m.store) (hh : care.Known m.store h) :
    Adopts site m.store {h} (fun i => [i]) (adopt site h m) := by
  simp only [adopt, Bind.bind, EStateM.bind, Act.read]
  split
  · rename_i hslot
    have hretain := passes_retain (h := ⟨site, h.slot⟩) hw hslot
    have hframed := hretain.frame {h} fun x hx => by
      rwa [Multiset.mem_singleton.1 hx]
    have hrelease := (passes_release hretain.sound (hretain.known hh)).frame
      {⟨site, h.slot⟩} fun x hx => hretain.known_given hx
    rw [Multiset.zero_add] at hframed hrelease
    rw [Multiset.add_comm] at hrelease
    exact hframed.trans hrelease
  · exact passes_release hw hh

theorem adopts_adoptCaptures (site : Site) {c : Closure PoolRef} (hw : care.Sound m.store)
    (hc : ∀ h ∈ c.captures, care.Known m.store h) :
    Adopts site m.store c.captures Closure.captures (adoptCaptures site c m) := by
  cases c with
  | zero | zeroInner | succ | intLiteral | inc => exact Care.Passes.rfl hw
  | succPartial n =>
    have hn := adopts_adopt site hw (hc n (by simp [Closure.captures]))
    simp only [adoptCaptures, Bind.bind, EStateM.bind]
    cases hrun : adopt site n m with
    | ok i m₁ =>
      rw [hrun] at hn
      exact hn
    | error f m₁ =>
      rw [hrun] at hn
      exact hn
  | succInner n s =>
    have hknown := hc s (by simp [Closure.captures])
    have hn := adopts_adopt site hw (hc n (by simp [Closure.captures]))
    simp only [adoptCaptures, Bind.bind, EStateM.bind, Act.onFault]
    have hframed {given : Multiset PoolRef} {w' : Pools}
        (h : care.Passes m.store w' {n} given) :
        care.Passes m.store w' ([n, s] : List PoolRef) (given + {s}) :=
      h.frame {s} fun x hx => by rwa [Multiset.mem_singleton.1 hx]
    cases hrun : adopt site n m with
    | ok i m₁ =>
      rw [hrun] at hn
      have hs := adopts_adopt site hn.sound (hn.known hknown)
      have hfirst := hframed hn
      have hsecond {given : Multiset PoolRef} {w' : Pools}
          (h : care.Passes m₁.store w' {s} given) :
          care.Passes m.store w' ([n, s] : List PoolRef) (given + {⟨site, i⟩}) := by
        have hrest := h.frame {⟨site, i⟩} fun x hx => hn.known_given hx
        rw [Multiset.add_comm] at hrest
        exact hfirst.trans hrest
      cases hrun' : adopt site s m₁ with
      | ok j m₂ =>
        rw [hrun'] at hs
        have hboth := hsecond hs
        rw [Multiset.add_comm] at hboth
        simp only [hrun']
        exact hboth
      | error f m₂ =>
        rw [hrun'] at hs
        simp only [hrun']
        exact passes_of_leak (hsecond hs)
    | error f m₁ =>
      rw [hrun] at hn
      have hfirst := hframed hn
      rw [Multiset.zero_add] at hfirst
      exact hfirst.trans (passes_release hn.sound (hn.known hknown))

theorem store_inserted (site : Site) (c : Closure Nat) (m : Machine Pools) :
    (inserted site c m).store = m.store.modify site (·.insert c) := by
  unfold inserted
  split <;> rfl

/-- The captures are adopted, and then the closure goes to the next slot. -/
theorem passes_alloc {c : Closure PoolRef} (hs : site < m.store.toArray.size)
    (hw : care.Sound m.store) (hc : ∀ h ∈ c.captures, care.Known m.store h) :
    care.Passes m.store ((alloc site c).leaves m) c.captures
      ((Deed.alloc c).given site m : List PoolRef) := by
  have hadopts := adopts_adoptCaptures site hw hc
  simp only [Deed.given, Backend.alloc, Act.leaves, alloc_eq, Bind.bind, EStateM.bind]
  cases hrun : adoptCaptures site c m with
  | ok x m₁ =>
    rw [hrun] at hadopts
    have hs₁ : site < m₁.store.toArray.size := lt_size_of_passes hadopts hs
    simp only [store_inserted]
    refine hadopts.trans (passes_insert hs₁ hadopts.sound fun j hj => ?_)
    exact hadopts.known_given (Multiset.mem_coe.2 (List.mem_map_of_mem hj))
  | error f m₁ =>
    rw [hrun] at hadopts
    exact hadopts

theorem foldl_retain (site : Site) (l : List Nat) (w : Pools) :
    (l.map (PoolRef.mk site)).foldl (fun w h => Backend.retain h w) w =
      w.modify site fun p => l.foldl Pool.acquire p := by
  induction l generalizing w with
  | nil => exact (modify_eq_self rfl).symm
  | cons i l ih => exact (ih _).trans (modify_modify ..)

/-- The captures of the closure are held then, too. -/
theorem passes_resolve (hw : care.Sound m.store) :
    care.Passes m.store ((resolve site h).leaves m) 0
      ((Deed.resolve h).given site m : List PoolRef) := by
  simp only [Deed.given, Backend.resolve, Act.leaves, resolve]
  by_cases hp : h.pool ≠ site
  · simp only [if_pos hp]
    exact .rfl hw
  · simp only [if_neg hp, Bind.bind, EStateM.bind, Act.read]
    cases hc : (m.store.pool site).cells.closure? h.slot with
    | none => exact .rfl hw
    | some c =>
      have hall := Care.Passes.retainAll passes_retain hw (c.captures.map (PoolRef.mk site))
        fun x hx => by
          obtain ⟨j, hj, rfl⟩ := List.mem_map.1 hx
          exact (hw site).closed.lt_size hc hj
      rw [foldl_retain, ← Closure.captures_map] at hall
      exact hall

theorem leaves_describe (h : PoolRef) (m : Machine Pools) : (describe h).leaves m = m.store := by
  simp only [Act.leaves, describe, Bind.bind, EStateM.bind, Act.read]
  cases (m.store.pool h.pool).cells.closure? h.slot <;> rfl

/-- A builtin function that goes to the end of a pool stands behind a handle of its own. -/
theorem makes_insert (hs : site < w.toArray.size) (hw : care.Sound w)
    (hfree : (w.pool site).free = []) (b : Builtin) :
    care.Makes w (w.modify site (·.insert b.closure)) ⟨site, (w.pool site).nextSlot⟩ b ∧
      ((w.modify site (·.insert b.closure)).pool site).free = [] := by
  obtain ⟨-, hnext, hcells, hfree'⟩ | ⟨-, -, hcons⟩ := (hw site).insert_cases b.closure
  · have hpasses := passes_insert (c := b.closure) hs hw (by simp [Builtin.captures_closure])
    rw [Builtin.captures_closure, List.map_nil, Multiset.coe_nil] at hpasses
    refine ⟨⟨hpasses, fun hlt => ?_, ?_⟩, ?_⟩
    · rw [hnext] at hlt
      exact Nat.lt_irrefl _ hlt
    · change ((w.modify site _).pool site).cells.Stands _ _ _
      rw [pool_modify hs, hcells, hnext]
      exact .push_self (hw site).closed b.captures_closure
    · rw [pool_modify hs, hfree']
  · rw [hfree] at hcons
    cases hcons

/-- Without captures there is nothing to adopt. -/
theorem alloc_closure (site : Site) (b : Builtin) (m : Machine Pools) :
    alloc site b.closure m =
      .ok ⟨site, (m.store.pool site).nextSlot⟩ (inserted site b.closure m) := by
  rw [alloc_eq]
  cases b <;> rfl

/-- A new evaluator has a new pool, in which the builtin functions are stored. -/
theorem opens_openPool {limits : Limits} {m m' : Machine Pools} {e : Evaluator PoolRef}
    (hw : care.Sound m.store) (hrun : openPool limits m = .ok e m') :
    care.Opens m.store m'.store e := by
  let site := m.store.toArray.size
  let w : Pools := ⟨m.store.toArray.push {}⟩
  have hpool (j : Site) : w.pool j = m.store.pool j := by
    simp only [w, pool, Array.getElem?_push]
    split
    · subst_vars
      rw [Array.getElem?_eq_none (Nat.le_refl _)]
      rfl
    · rfl
  have hempty : w.pool site = {} := by
    rw [hpool, pool, Array.getElem?_eq_none (Nat.le_refl _)]
    rfl
  have hs : site < w.toArray.size := by simp [site, w]
  have hpush : care.Passes m.store w 0 0 := by
    refine ⟨fun j => ?_, fun hx => ?_, fun hx => absurd hx (Multiset.notMem_zero _), fun _ hx => ?_,
      fun he => ?_⟩
    · rw [hpool]
      exact hw j
    · change _ < (w.pool _).cells.size
      rwa [hpool]
    · change (w.pool _).cells.Stands _ _ _
      rwa [hpool]
    · refine ⟨?_, he.2⟩
      change _ < (m.store.toArray.push {}).size
      rw [Array.size_push]
      exact Nat.lt_succ_of_lt he.1
  have hsize {v : Pools} (hv : site < v.toArray.size) (b : Builtin) :
      site < (v.modify site (·.insert b.closure)).toArray.size := by
    rwa [size_modify]
  obtain ⟨hzero, hfree⟩ := makes_insert hs hpush.sound (by rw [hempty]) .zero
  obtain ⟨hzeroInner, hfree⟩ := makes_insert (hsize hs _) hzero.passes.sound hfree .zeroInner
  obtain ⟨hsucc, hfree⟩ :=
    makes_insert (hsize (hsize hs _) _) hzeroInner.passes.sound hfree .succ
  obtain ⟨hinc, -⟩ :=
    makes_insert (hsize (hsize (hsize hs _) _) _) hsucc.passes.sound hfree .inc
  have hissues := Care.Issues.cons hzero (.cons hzeroInner (.cons hsucc (.cons hinc
    (.nil hinc.passes.sound))))
  have hseated := lt_size_of_passes hissues.passes hs
  simp only [openPool, Singletons.build, Bind.bind, EStateM.bind, Act.read, Act.update,
    alloc_closure] at hrun
  cases hrun
  simp only [store_inserted]
  exact .of_issues hpush hissues ⟨hseated, fun b => by cases b <;> rfl⟩

/-- Pools look after the builtin functions of their evaluators. -/
theorem lawful_care : care.Lawful where
  quiet := quiet
  reset_eq := rfl
  initial _ := .empty
  deed deed m hw hs hknown := by
    cases deed with
    | alloc c => exact passes_alloc hs.1 hw hknown
    | resolve h => exact passes_resolve hw
    | retain h => exact passes_retain hw (hknown h (List.mem_singleton_self h))
    | release h => exact passes_release hw (hknown h (List.mem_singleton_self h))
    | describe h =>
      change care.Passes _ ((describe h).leaves m) 0 0
      rw [leaves_describe]
      exact .rfl hw
  openWith_ok hw hrun := opens_openPool hw hrun
  openWith_error {limits m m' f} hw hrun := by
    change openPool limits m = _ at hrun
    simp only [openPool, Singletons.build, Bind.bind, EStateM.bind, Act.read, Act.update,
      alloc_closure] at hrun
    cases hrun

end Pools

end ChurchStore
