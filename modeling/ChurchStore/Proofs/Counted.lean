import ChurchStore.Proofs.Pools
import ChurchStore.Proofs.SharedHeap
import Mathlib.Data.Set.Card
import Mathlib.Data.Set.Finite.Lattice

/-!
# Stores that count owners

A pool and the shared heap keep closures in cells that count their owners, and handles name cells by
their positions. So what is known of sound cells is known of both stores: every closure has an
owner, there are finitely many of them, and the counters tell how many there are of each kind.
-/

namespace ChurchStore

/-- As many positions of a list hold an element with a property as there are such elements. -/
theorem finite_and_ncard_getElem? {α : Type} (l : List α) (p : α → Bool) :
    {i : Nat | ∃ a, l[i]? = some a ∧ p a = true}.Finite ∧
      {i : Nat | ∃ a, l[i]? = some a ∧ p a = true}.ncard = l.countP p := by
  induction l with
  | nil => simp
  | cons a l ih =>
    obtain ⟨hfin, hcard⟩ := ih
    have hinj : Set.InjOn Nat.succ {i : Nat | ∃ x, l[i]? = some x ∧ p x = true} :=
      fun _ _ _ _ h => Nat.succ.inj h
    cases ha : p a with
    | false =>
      have hset : {i : Nat | ∃ x, (a :: l)[i]? = some x ∧ p x = true} =
          Nat.succ '' {i | ∃ x, l[i]? = some x ∧ p x = true} := by
        ext i
        cases i <;> simp [ha]
      rw [hset, List.countP_cons_of_neg (by simp [ha]), ← hcard]
      exact ⟨hfin.image _, hinj.ncard_image⟩
    | true =>
      have hset : {i : Nat | ∃ x, (a :: l)[i]? = some x ∧ p x = true} =
          insert 0 (Nat.succ '' {i | ∃ x, l[i]? = some x ∧ p x = true}) := by
        ext i
        cases i <;> simp [ha]
      have hzero : 0 ∉ Nat.succ '' {i | ∃ x, l[i]? = some x ∧ p x = true} := by simp
      rw [hset, List.countP_cons_of_pos ha, ← hcard]
      refine ⟨(hfin.image _).insert 0, ?_⟩
      rw [Set.ncard_insert_of_notMem hzero (hfin.image _), hinj.ncard_image]

/-- As many elements as a list without repetitions is long. -/
theorem ncard_mem_of_nodup {α : Type} {l : List α} (hl : l.Nodup) :
    {a | a ∈ l}.ncard = l.length := by
  classical
  have hset : {a | a ∈ l} = (l.toFinset : Set α) := by
    ext a
    simp
  rw [hset, Set.ncard_coe_finset, List.toFinset_card_of_nodup hl]

/-- The number of closures of a kind is the number of cells that hold one. -/
theorem Cells.census_eq_ncard (cs : Cells) (k : Kind) :
    cs.census k = {i | ∃ c, cs.closure? i = some c ∧ c.kind = k}.ncard := by
  have hset : {i | ∃ c, cs.closure? i = some c ∧ c.kind = k} =
      {i : Nat | ∃ cell, cs.toArray.toList[i]? = some cell ∧ cell.holds k = true} := by
    ext i
    simp only [Set.mem_ofPred_eq, Array.getElem?_toList, closure?]
    cases cs.toArray[i]? with
    | none => simp
    | some cell => cases h : cell.closure <;> simp [Cell.holds, h]
  rw [hset, (finite_and_ncard_getElem? _ _).2, census]

theorem Cells.finite_closure? (cs : Cells) : {i | (cs.closure? i).isSome}.Finite :=
  (Set.finite_lt_nat cs.size).subset fun _ hi => Cells.lt_size_of_isSome hi

variable {W H : Type}

/-- The closures of a kind that are in a store. -/
def View.live (v : View W H) (w : W) (k : Kind) : Set H :=
  {h | ∃ c, v.look w h = some c ∧ c.kind = k}

/-- The closures of a store are in cells, which handles name by their positions, and the counters
differ by the closures that are there. -/
structure Representation.Counted [Host W H] (R : Representation W) (cells : W → Cells)
    (ledger : W → Ledger) (handle : Nat → H) (position : H → Nat) : Prop where
  position_handle (i : Nat) : position (handle i) = i
  look_handle (w : W) (i : Nat) : R.look w (handle i) = ((cells w).closure? i).map (·.map handle)
  handle_position_of_look {w : W} {h : H} : (R.look w h).isSome → handle (position h) = h
  handle_position_of_mem {w : W} {held : Multiset H} {h : H} :
    R.Sound w held → h ∈ held → handle (position h) = h
  sound {w : W} {held : Multiset H} : R.Sound w held → (cells w).Sound (held.map position)
  ledger_eq (w : W) : Host.ledger? R.site w = some (ledger w)
  allocated_eq (w : W) (k : Kind) : R.allocated w k = (ledger w).alloc.get k
  alloc_eq {w : W} {held : Multiset H} (k : Kind) : R.Sound w held →
    (ledger w).alloc.get k = (ledger w).free.get k + (cells w).census k

namespace Representation.Counted

variable [Host W H] {R : Representation W} {cells : W → Cells} {ledger : W → Ledger}
  {handle : Nat → H} {position : H → Nat} {w : W} {held : Multiset H} {h : H} {c : Closure H}

theorem look_eq_some (hR : R.Counted cells ledger handle position) (hc : R.look w h = some c) :
    ∃ x, (cells w).closure? (position h) = some x ∧ c = x.map handle := by
  have hback := hR.handle_position_of_look (w := w) (h := h) (by rw [hc]; rfl)
  rw [← hback, hR.look_handle] at hc
  obtain ⟨x, hx, rfl⟩ := Option.map_eq_some_iff.1 hc
  exact ⟨x, hx, rfl⟩

theorem finite (hR : R.Counted cells ledger handle position) (w : W) :
    {h | (R.look w h).isSome}.Finite := by
  refine ((cells w).finite_closure?.image handle).subset fun h hh => ?_
  obtain ⟨c, hc⟩ := Option.isSome_iff_exists.1 hh
  obtain ⟨x, hx, -⟩ := hR.look_eq_some hc
  exact ⟨position h, by rw [Set.mem_ofPred_eq, hx]; rfl, hR.handle_position_of_look hh⟩

/-- Every closure has an owner. -/
theorem owned (hR : R.Counted cells ledger handle position) (hw : R.Sound w held)
    (hh : (R.look w h).isSome) : h ∈ held ∨ ∃ k c, R.look w k = some c ∧ h ∈ c.captures := by
  have hback := hR.handle_position_of_look hh
  obtain ⟨c, hc⟩ := Option.isSome_iff_exists.1 hh
  obtain ⟨x, hx, -⟩ := hR.look_eq_some hc
  rcases (hR.sound hw).mem_or_captured (by rw [hx]; rfl) with hmem | ⟨j, y, hy, hmem⟩
  · obtain ⟨k, hk, hposition⟩ := Multiset.mem_map.1 hmem
    left
    rwa [← hback, ← hposition, hR.handle_position_of_mem hw hk]
  · right
    refine ⟨handle j, y.map handle, by rw [hR.look_handle, hy]; rfl, ?_⟩
    rw [Closure.captures_map, ← hback]
    exact List.mem_map_of_mem hmem

/-- The closures of a kind are in the cells that hold one. -/
theorem ncard_live (hR : R.Counted cells ledger handle position) (w : W) (k : Kind) :
    (R.live w k).ncard = (cells w).census k := by
  have hset : R.live w k = handle '' {i | ∃ c, (cells w).closure? i = some c ∧ c.kind = k} := by
    ext h
    constructor
    · rintro ⟨c, hc, hk⟩
      obtain ⟨x, hx, rfl⟩ := hR.look_eq_some hc
      rw [Closure.kind_map] at hk
      exact ⟨position h, ⟨x, hx, hk⟩, hR.handle_position_of_look (by rw [hc]; rfl)⟩
    · rintro ⟨i, ⟨x, hx, hk⟩, rfl⟩
      exact ⟨x.map handle, by rw [hR.look_handle, hx]; rfl, by rw [Closure.kind_map, hk]⟩
  rw [hset, Set.ncard_image_of_injective _ (Function.LeftInverse.injective hR.position_handle),
    ← Cells.census_eq_ncard]

end Representation.Counted

theorem Pools.counted (site : Site) : (representation site).Counted
    (fun w => (w.pool site).cells) (fun w => (w.pool site).ledger) (⟨site, ·⟩) (·.slot) where
  position_handle _ := rfl
  look_handle _ _ := if_pos rfl
  handle_position_of_look {w h} hh := by
    obtain ⟨c, hc⟩ := Option.isSome_iff_exists.1 hh
    rw [← (look_eq_some hc).1]
  handle_position_of_mem hw hh := by rw [← hw.pool_eq _ hh]
  sound hw := hw.pool.cells
  ledger_eq _ := rfl
  allocated_eq _ _ := rfl
  alloc_eq k hw := hw.pool.alloc_eq k

theorem SharedHeap.counted (site : Site) : (representation site).Counted
    (·.nodes) (·.ledger site) (⟨·⟩) (·.node) where
  position_handle _ := rfl
  look_handle _ _ := rfl
  handle_position_of_look _ := rfl
  handle_position_of_mem _ _ := rfl
  sound hw := hw.nodes
  ledger_eq _ := rfl
  allocated_eq _ _ := rfl
  alloc_eq k hw := hw.alloc_eq k

end ChurchStore
