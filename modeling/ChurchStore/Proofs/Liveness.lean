import ChurchStore.Proofs.Agreement
import ChurchStore.Proofs.Counted

/-!
# Live closures

A closure of a store that counts owners is there if and only if it can be reached from a handle.
That what can be reached is there holds of every store that keeps its laws. For the converse, a
closure that is there is owned by a handle or captured by another one; going up from capture to
captor comes to an end because trees have a height, so no circle of captures keeps itself alive.
-/

namespace ChurchStore

open Session

/-- The numbers of the allocations of a kind. -/
theorem Grove.ncard_kindOf {b : Nat} (g : Grove b) (k : Kind) :
    {n | g.kindOf n = some k}.Finite ∧ {n | g.kindOf n = some k}.ncard = g.made.count k := by
  have hset : {n | g.kindOf n = some k} =
      {i : Nat | ∃ l, g.made.reverse[i]? = some l ∧ (l == k) = true} := by
    ext n
    simp [Grove.kindOf]
  rw [hset, ← List.count_reverse]
  exact finite_and_ncard_getElem? _ _

variable {W H : Type}

/-- What can be reached from the given handles through captures. -/
inductive Reachable (look : H → Option (Closure H)) (roots : List H) : H → Prop where
  | root {h : H} : h ∈ roots → Reachable look roots h
  | capture {h x : H} {c : Closure H} : Reachable look roots h → look h = some c →
    x ∈ c.captures → Reachable look roots x

namespace Labels

variable {look : H → Option (Closure H)} {roots : List H} {tree : H → Tree} {h : H}

theorem isSome_of_reachable (hl : Labels look roots tree) (hr : Reachable look roots h) :
    (look h).isSome := by
  induction hr with
  | root hmem => exact hl.isSome_look _ hmem
  | capture _ hc hx _ => exact hl.isSome_look_captured hc _ hx

/-- A captor is higher than what it captures. -/
theorem height_lt (hl : Labels look roots tree) {k : H} {c : Closure H} (hc : look k = some c)
    (hh : h ∈ c.captures) : (tree h).height < (tree k).height :=
  Tree.height_lt_of_closure_eq (hl.closure_eq hc) hh

/-- Where everything has an owner, everything can be reached: by induction on how much higher than a
closure the highest one is. -/
theorem reachable_of_isSome (hl : Labels look roots tree) (hfin : {h | (look h).isSome}.Finite)
    (howned : ∀ h, (look h).isSome → h ∈ roots ∨ ∃ k c, look k = some c ∧ h ∈ c.captures)
    (hh : (look h).isSome) : Reachable look roots h := by
  obtain ⟨bound, hbound⟩ : ∃ bound, ∀ k, (look k).isSome → (tree k).height ≤ bound := by
    obtain ⟨bound, hbound⟩ := (hfin.image fun k => (tree k).height).bddAbove
    exact ⟨bound, fun k hk => hbound (Set.mem_image_of_mem _ hk)⟩
  induction hgap : bound - (tree h).height using Nat.strong_induction_on generalizing h with
  | _ gap ih =>
    rcases howned h hh with hmem | ⟨k, c, hc, hmem⟩
    · exact .root hmem
    · have hlt := hl.height_lt hc hmem
      have hk : (look k).isSome := by rw [hc]; rfl
      have hle := hbound k hk
      exact .capture (ih (bound - (tree k).height) (by omega) hk rfl) hc hmem

theorem occurs_of_reachable (hl : Labels look roots tree) (hr : Reachable look roots h) :
    ∃ r ∈ roots.map tree, (tree h).Occurs r := by
  induction hr with
  | root hmem => exact ⟨_, List.mem_map_of_mem hmem, .root⟩
  | capture _ hc hx ih =>
    obtain ⟨r, hr, hocc⟩ := ih
    refine ⟨r, hr, hocc.of_mem_captures ?_⟩
    rw [hl.closure_eq hc, Closure.captures_map]
    exact List.mem_map_of_mem hx

/-- Whatever occurs in the tree of a closure is the tree of a closure. -/
theorem exists_of_occurs (hl : Labels look roots tree) {u r : Tree} (hu : u.Occurs r)
    (hh : (look h).isSome) (hr : tree h = r) : ∃ k, (look k).isSome ∧ tree k = u := by
  induction hu generalizing h with
  | root => exact ⟨h, hh, hr⟩
  | @capture n c s' hmem _ ih =>
    obtain ⟨x, hx⟩ := Option.isSome_iff_exists.1 hh
    have hclosure := hl.closure_eq hx
    rw [hr] at hclosure
    change c = x.map tree at hclosure
    rw [hclosure, Closure.captures_map] at hmem
    obtain ⟨k, hk, rfl⟩ := List.mem_map.1 hmem
    exact ih (hl.isSome_look_captured hx k hk) rfl

/-- The allocations whose closures occur in the trees of what is held are those whose closures are
there. -/
theorem exists_occurs_iff (hl : Labels look roots tree)
    (hreach : ∀ h, (look h).isSome → Reachable look roots h) (number : Nat) :
    (∃ r ∈ roots.map tree, ∃ u : Tree, u.Occurs r ∧ u.number = number) ↔
      ∃ h, (look h).isSome ∧ (tree h).number = number := by
  constructor
  · intro ⟨r, hr, u, hu, hnumber⟩
    obtain ⟨h, hh, rfl⟩ := List.mem_map.1 hr
    obtain ⟨k, hk, rfl⟩ := hl.exists_of_occurs hu (hl.isSome_look h hh) rfl
    exact ⟨k, hk, hnumber⟩
  · intro ⟨h, hh, hnumber⟩
    obtain ⟨r, hr, hocc⟩ := hl.occurs_of_reachable (hreach h hh)
    exact ⟨r, hr, tree h, hocc, hnumber⟩

end Labels

namespace Session

variable {b : Nat}

/-- An allocation is alive in a session on a grove while its closure occurs in a held tree. -/
def Alive (t : Session (Grove b) Tree) (number : Nat) : Prop :=
  ∃ r ∈ t.handles, ∃ u : Tree, u.Occurs r ∧ u.number = number

namespace Depicts

variable {v : View W H} {s : Session W H} {t : Session (Grove b) Tree} {tree : H → Tree} {h : H}

theorem labels (hd : Depicts v s t tree) : Labels (v.look s.machine.store) s.handles tree :=
  ⟨hd.closure_eq, hd.number_injective, hd.isSome_look_captured, hd.isSome_look⟩

theorem isSome_of_reachable (hd : Depicts v s t tree)
    (hr : Reachable (v.look s.machine.store) s.handles h) :
    (v.look s.machine.store h).isSome :=
  hd.labels.isSome_of_reachable hr

theorem occurs_of_reachable (hd : Depicts v s t tree)
    (hr : Reachable (v.look s.machine.store) s.handles h) :
    ∃ r ∈ t.handles, (tree h).Occurs r := by
  rw [hd.handles_eq]
  exact hd.labels.occurs_of_reachable hr

/-- The allocations that are alive are those whose closures are there. -/
theorem alive_iff (hd : Depicts v s t tree)
    (hreach : ∀ h, (v.look s.machine.store h).isSome →
      Reachable (v.look s.machine.store) s.handles h) (number : Nat) :
    t.Alive number ↔ ∃ h, (v.look s.machine.store h).isSome ∧ (tree h).number = number := by
  rw [Alive, hd.handles_eq]
  exact hd.labels.exists_occurs_iff hreach number

/-- As many closures of a kind are there as allocations of that kind are alive. -/
theorem ncard_live (hd : Depicts v s t tree)
    (hreach : ∀ h, (v.look s.machine.store h).isSome →
      Reachable (v.look s.machine.store) s.handles h) (k : Kind) :
    (v.live s.machine.store k).ncard =
      {n | t.machine.store.kindOf n = some k ∧ t.Alive n}.ncard := by
  have hset : {n | t.machine.store.kindOf n = some k ∧ t.Alive n} =
      (fun h => (tree h).number) '' v.live s.machine.store k := by
    ext n
    constructor
    · intro ⟨hkind, halive⟩
      obtain ⟨h, hh, rfl⟩ := (hd.alive_iff hreach n).1 halive
      obtain ⟨c, hc⟩ := Option.isSome_iff_exists.1 hh
      rw [hd.kindOf_eq hc] at hkind
      exact ⟨h, ⟨c, hc, Option.some.inj hkind⟩, rfl⟩
    · rintro ⟨h, ⟨c, hc, rfl⟩, rfl⟩
      exact ⟨hd.kindOf_eq hc, (hd.alive_iff hreach _).2 ⟨h, by rw [hc]; rfl, rfl⟩⟩
  rw [hset, Set.InjOn.ncard_image]
  intro x ⟨c, hc, _⟩ y ⟨c', hc', _⟩ heq
  exact hd.number_injective (by rw [hc]; rfl) (by rw [hc']; rfl) heq

end Depicts

end Session

/-! ### What held trees keep alive -/

namespace Tree

theorem Occurs.trans {s t u : Tree} (h : s.Occurs t) (h' : t.Occurs u) : s.Occurs u := by
  induction h' with
  | root => exact h
  | capture ht _ ih => exact .capture ht ih

theorem finite_occurs (t : Tree) : {u : Tree | u.Occurs t}.Finite := by
  induction t with
  | node n c ih =>
    refine ((c.captures.finite_toSet.biUnion ih).insert (.node n c)).subset fun u hu => ?_
    cases hu with
    | root => exact Set.mem_insert ..
    | capture ht hu => exact Set.mem_insert_of_mem _ (Set.mem_biUnion ht hu)

end Tree

namespace Representation

variable {held held' extra : Multiset (H × Tree)} {p : H × Tree} {t : Tree}

/-- A tree that occurs in a held one. -/
def Covered (held : Multiset (H × Tree)) (t : Tree) : Prop := ∃ p ∈ held, t.Occurs p.2

theorem covered_of_mem (hp : p ∈ held) : Covered held p.2 := ⟨p, hp, .root⟩

theorem Covered.of_mem_captures {u : Tree} (h : Covered held u) (ht : t ∈ u.closure.captures) :
    Covered held t := by
  obtain ⟨p, hp, hu⟩ := h
  exact ⟨p, hp, hu.of_mem_captures ht⟩

theorem Covered.mono (h : Covered held t) (hsub : held ⊆ held') : Covered held' t := by
  obtain ⟨p, hp, hu⟩ := h
  exact ⟨p, hsub hp, hu⟩

/-- The allocations whose closures occur in held trees. -/
def alive (held : Multiset (H × Tree)) : Set Nat := Tree.number '' {t | Covered held t}

theorem alive_mono (h : held ⊆ held') : alive held ⊆ alive held' :=
  Set.image_mono fun _ ht => ht.mono h

theorem finite_alive (held : Multiset (H × Tree)) : (alive held).Finite := by
  have hfin : (⋃ p ∈ {p | p ∈ held}, {t : Tree | t.Occurs p.2}).Finite :=
    held.finite_toSet.biUnion fun p _ => p.2.finite_occurs
  refine Set.Finite.image _ (hfin.subset ?_)
  rintro t ⟨p, hp, ht⟩
  exact Set.mem_biUnion hp ht

/-- Handles for trees that occur in held ones keep nothing else alive. -/
theorem alive_add (h : ∀ p ∈ extra, Covered held p.2) : alive (extra + held) = alive held := by
  refine congrArg (Tree.number '' ·) (Set.ext fun t => ⟨?_, fun ht => ht.mono ?_⟩)
  · rintro ⟨p, hp, ht⟩
    rcases Multiset.mem_add.1 hp with hp | hp
    · obtain ⟨q, hq, hocc⟩ := h p hp
      exact ⟨q, hq, ht.trans hocc⟩
    · exact ⟨p, hp, ht⟩
  · exact Multiset.subset_of_le (Multiset.le_add_left ..)

theorem alive_cons {a : H} (h : Covered held t) : alive ((a, t) ::ₘ held) = alive held := by
  rw [← Multiset.singleton_add]
  refine alive_add fun q hq => ?_
  rwa [Multiset.mem_singleton.1 hq]

/-- A new closure keeps itself alive besides. -/
theorem alive_node {a : H} {number : Nat} {c : Closure Tree}
    (hc : ∀ t ∈ c.captures, Covered held t) :
    alive ((a, .node number c) ::ₘ held) = insert number (alive held) := by
  have hset : {t | Covered ((a, .node number c) ::ₘ held) t} =
      insert (.node number c) {t | Covered held t} := by
    ext t
    constructor
    · rintro ⟨p, hp, ht⟩
      rcases Multiset.mem_cons.1 hp with rfl | hp
      · cases ht with
        | root => exact .inl rfl
        | capture hu ht =>
          obtain ⟨q, hq, hocc⟩ := hc _ hu
          exact .inr ⟨q, hq, ht.trans hocc⟩
      · exact .inr ⟨p, hp, ht⟩
    · rintro (rfl | ht)
      · exact covered_of_mem (p := (a, .node number c)) (Multiset.mem_cons_self ..)
      · exact ht.mono (Multiset.subset_cons ..)
  rw [alive, hset, Set.image_insert_eq]
  rfl

variable [Host W H] {R : Representation W} {cells : W → Cells} {ledger : W → Ledger}
  {handle : Nat → H} {position : H → Nat} {b : Nat} {w : W} {g : Grove b}

theorem Counted.reachable_of_labels (hR : R.Counted cells ledger handle position) {roots : List H}
    {tree : H → Tree} (hl : Labels (R.look w) roots tree) (hs : R.Sound w roots) (h : H)
    (hh : (R.look w h).isSome) : Reachable (R.look w) roots h :=
  hl.reachable_of_isSome (hR.finite w) (fun _ hx => hR.owned hs hx) hh

/-- What is alive are the closures in the store, by their numbers. -/
theorem Counted.exists_alive_eq (hR : R.Counted cells ledger handle position)
    (h : R.Represents [] w g held) :
    ∃ tree : H → Tree, alive held = (fun x => (tree x).number) '' {x | (R.look w x).isSome} ∧
      Set.InjOn (fun x => (tree x).number) {x | (R.look w x).isSome} ∧
      ∀ x, (R.look w x).isSome → (tree x).number < g.made.length := by
  obtain ⟨hresets, known, tree, hm⟩ := h
  obtain ⟨l, rfl⟩ : ∃ l : List (H × Tree), held = l := ⟨held.toList, held.coe_toList.symm⟩
  have hl := hm.labels hresets
  have hsound := hm.sound
  rw [Multiset.map_coe] at hsound
  refine ⟨tree, ?_, fun x hx y hy => hl.number_injective hx hy, fun x hx => ?_⟩
  · ext number
    refine Iff.trans ?_ (hl.exists_occurs_iff (hR.reachable_of_labels hl hsound) number)
    rw [List.map_map]
    constructor
    · rintro ⟨t, ⟨p, hp, ht⟩, hnumber⟩
      rw [(hm.of_mem hp).2] at ht
      exact ⟨_, List.mem_map_of_mem (f := tree ∘ Prod.fst) hp, t, ht, hnumber⟩
    · rintro ⟨r, hr, t, ht, hnumber⟩
      obtain ⟨p, hp, rfl⟩ := List.mem_map.1 hr
      refine ⟨t, ⟨p, hp, ?_⟩, hnumber⟩
      rw [(hm.of_mem hp).2]
      exact ht
  · obtain ⟨c, hc⟩ := Option.isSome_iff_exists.1 hx
    exact Grove.lt_of_kindOf (hm.kindOf_eq (hm.of_look hc).1)

/-- Everything alive was made. -/
theorem Counted.lt_of_mem_alive (hR : R.Counted cells ledger handle position)
    (h : R.Represents [] w g held) {number : Nat} (hn : number ∈ alive held) :
    number < g.made.length := by
  obtain ⟨tree, heq, -, hlt⟩ := hR.exists_alive_eq h
  rw [heq] at hn
  obtain ⟨x, hx, rfl⟩ := hn
  exact hlt x hx

/-- As many cells are occupied as allocations are alive. -/
theorem Counted.occupied_eq_ncard (hR : R.Counted cells ledger handle position)
    (h : R.Represents [] w g held) : (cells w).occupied = (alive held).ncard := by
  obtain ⟨tree, heq, hinj, -⟩ := hR.exists_alive_eq h
  have hset : {x | (R.look w x).isSome} = handle '' {i | ((cells w).closure? i).isSome} := by
    ext x
    constructor
    · intro hx
      obtain ⟨c, hc⟩ := Option.isSome_iff_exists.1 hx
      obtain ⟨y, hy, -⟩ := hR.look_eq_some hc
      exact ⟨position x, by rw [Set.mem_ofPred_eq, hy]; rfl, hR.handle_position_of_look hx⟩
    · rintro ⟨i, hi, rfl⟩
      rw [Set.mem_ofPred_eq, hR.look_handle, Option.isSome_map]
      exact hi
  have hcells : {i | ((cells w).closure? i).isSome} =
      {i | ∃ cell, (cells w).toArray.toList[i]? = some cell ∧ cell.isOccupied = true} := by
    ext i
    simp only [Set.mem_ofPred_eq, Cells.closure?, Array.getElem?_toList, Cell.isOccupied]
    cases (cells w).toArray[i]? <;> simp
  rw [heq, hinj.ncard_image, hset,
    Set.ncard_image_of_injective _ (Function.LeftInverse.injective hR.position_handle), hcells,
    (finite_and_ncard_getElem? _ _).2, Cells.occupied]

end Representation

end ChurchStore
