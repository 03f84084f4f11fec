import ChurchStore.Proofs.Reclamation

/-!
# Owners

The owners of a closure are the handles for it that are held, and the captures of it in closures
that are there. On a grove both can be told from the held trees alone, so a store that counts owners
counts those that the grove has.
-/

namespace ChurchStore

open Session

/-- Where elements with a property stand in the lists that are made of the elements of a list. -/
def placesIn {α β : Type} (l : List α) (f : α → List β) (p : β → Bool) : Set (Nat × Nat) :=
  {e | ∃ a b, l[e.1]? = some a ∧ (f a)[e.2]? = some b ∧ p b = true}

theorem placesIn_cons {α β : Type} (a : α) (l : List α) (f : α → List β) (p : β → Bool) :
    placesIn (a :: l) f p = Prod.mk 0 '' {k | ∃ b, (f a)[k]? = some b ∧ p b = true} ∪
      Prod.map Nat.succ id '' placesIn l f p := by
  ext ⟨i, k⟩
  cases i <;> simp [placesIn]

/-- As many places hold an element with a property as all the lists together have such elements. -/
theorem finite_and_ncard_placesIn {α β : Type} (l : List α) (f : α → List β) (p : β → Bool) :
    (placesIn l f p).Finite ∧ (placesIn l f p).ncard = (l.flatMap f).countP p := by
  induction l with
  | nil => simp [placesIn]
  | cons a l ih =>
    obtain ⟨hfin, hcard⟩ := ih
    obtain ⟨hfin', hcard'⟩ := finite_and_ncard_getElem? (f a) p
    have hhead := hfin'.image (Prod.mk (α := Nat) 0)
    have htail := hfin.image (Prod.map Nat.succ id)
    have hdisjoint : Disjoint (Prod.mk 0 '' {k | ∃ b, (f a)[k]? = some b ∧ p b = true})
        (Prod.map Nat.succ id '' placesIn l f p) := by
      rw [Set.disjoint_left]
      rintro _ ⟨k, -, rfl⟩ ⟨e, -, he⟩
      cases he
    rw [placesIn_cons]
    refine ⟨hhead.union htail, ?_⟩
    rw [Set.ncard_union_eq hdisjoint hhead htail,
      Set.ncard_image_of_injective _ (Prod.mk_right_injective 0),
      Set.ncard_image_of_injective _ (Nat.succ_injective.prodMap Function.injective_id),
      List.flatMap_cons, List.countP_append, hcard, hcard']

/-- A position is captured as often as there are places in the closures that hold it. -/
theorem Cells.count_captured_eq_ncard (cs : Cells) (i : Nat) : cs.captured.count i =
    {e : Nat × Nat | ∃ c, cs.closure? e.1 = some c ∧ c.captures[e.2]? = some i}.ncard := by
  have hset : {e : Nat × Nat | ∃ c, cs.closure? e.1 = some c ∧ c.captures[e.2]? = some i} =
      placesIn cs.toArray.toList Cell.captures (· == i) := by
    ext ⟨j, k⟩
    simp only [placesIn, Set.mem_ofPred_eq, Array.getElem?_toList, closure?]
    cases cs.toArray[j]? with
    | none => simp
    | some cell => cases h : cell.closure <;> simp [Cell.captures, h]
  rw [hset, (finite_and_ncard_placesIn _ _ _).2]
  rfl

variable {b : Nat}

/-- The owners of an allocation in a session on a grove: the handles for it that are held, and the
places that capture it in the trees that occur in held ones. -/
noncomputable def Session.ownersOf (t : Session (Grove b) Tree) (number : Nat) : Nat :=
  t.handles.countP (·.number == number) +
    {e : Tree × Nat | (∃ r ∈ t.handles, e.1.Occurs r) ∧
      e.1.closure.captures[e.2]?.map Tree.number = some number}.ncard

variable {W H : Type}

/-- What the counters of a session `s` tell, where it answers as the session `t` on a grove. -/
structure Session.Tallies (ledger : W → Ledger) (owners : W → H → Nat) (s : Session W H)
    (t : Session (Grove b) Tree) : Prop where
  alloc_eq (k : Kind) : (ledger s.machine.store).alloc.get k = t.machine.store.made.count k
  free_eq (k : Kind) : (ledger s.machine.store).free.get k =
    {number | t.machine.store.kindOf number = some k ∧ ¬ t.Alive number}.ncard
  map_owners : s.handles.map (owners s.machine.store) = t.handles.map (t.ownersOf ·.number)
  map_owners_getElem? (name : Name) :
    s.bindings[name]?.map (owners s.machine.store) = t.bindings[name]?.map (t.ownersOf ·.number)

namespace Representation.Counted

variable [Host W H] {R : Representation W} {cells : W → Cells} {ledger : W → Ledger}
  {handle : Nat → H} {position : H → Nat} {s : Session W H} {t : Session (Grove b) Tree}
  {tree : H → Tree} {h : H}

/-- The handles for a closure are those whose trees bear its number. -/
theorem count_handles (hR : R.Counted cells ledger handle position)
    (hd : Depicts R.toView s t tree) (hh : (R.look s.machine.store h).isSome) :
    (s.handles.map position).count (position h) =
      t.handles.countP (·.number == (tree h).number) := by
  rw [hd.handles_eq, List.countP_map, List.count, List.countP_map]
  refine List.countP_congr fun x hx => ?_
  have hlook := hd.isSome_look x hx
  simp only [Function.comp_apply, beq_iff_eq]
  constructor
  · intro heq
    rw [← hR.handle_position_of_look hlook, heq, hR.handle_position_of_look hh]
  · intro heq
    rw [hd.number_injective hlook hh heq]

theorem look_handle_of_some (hR : R.Counted cells ledger handle position) {w : W} {i : Nat}
    {x : Closure Nat} (hx : (cells w).closure? i = some x) :
    R.look w (handle i) = some (x.map handle) := by
  rw [hR.look_handle, hx]
  rfl

/-- The captures of a cell's closure stand for those of its tree, in the same order. -/
theorem captures_getElem? (hR : R.Counted cells ledger handle position)
    (hd : Depicts R.toView s t tree) {i : Nat} {x : Closure Nat}
    (hx : (cells s.machine.store).closure? i = some x) (k : Nat) :
    (tree (handle i)).closure.captures[k]? = x.captures[k]?.map fun j => tree (handle j) := by
  rw [hd.closure_eq (hR.look_handle_of_some hx), Closure.captures_map, Closure.captures_map,
    List.getElem?_map, List.getElem?_map, Option.map_map]
  rfl

/-- Where the tree of a closure is captured, the closure is. -/
theorem captures_getElem?_eq (hR : R.Counted cells ledger handle position)
    (hd : Depicts R.toView s t tree) (hh : (R.look s.machine.store h).isSome) {i : Nat}
    {x : Closure Nat} (hx : (cells s.machine.store).closure? i = some x) {k : Nat}
    (hk : (tree (handle i)).closure.captures[k]?.map Tree.number = some (tree h).number) :
    x.captures[k]? = some (position h) := by
  rw [hR.captures_getElem? hd hx, Option.map_map] at hk
  obtain ⟨j, hj, hnumber⟩ := Option.map_eq_some_iff.1 hk
  have hmem : handle j ∈ (x.map handle).captures := by
    rw [Closure.captures_map]
    exact List.mem_map_of_mem (List.mem_of_getElem? hj)
  have hsome := hd.isSome_look_captured (hR.look_handle_of_some hx) _ hmem
  rw [hj, ← hd.number_injective hsome hh hnumber, hR.position_handle]

/-- The places in the cells that capture a closure are those in the trees that capture its tree. -/
theorem image_captures (hR : R.Counted cells ledger handle position)
    (hd : Depicts R.toView s t tree) (hs : R.Sound s.machine.store s.handles)
    (hh : (R.look s.machine.store h).isSome) :
    Prod.map (fun i => tree (handle i)) id '' {e : Nat × Nat | ∃ c,
        (cells s.machine.store).closure? e.1 = some c ∧ c.captures[e.2]? = some (position h)} =
      {e : Tree × Nat | (∃ r ∈ t.handles, e.1.Occurs r) ∧
        e.1.closure.captures[e.2]?.map Tree.number = some (tree h).number} := by
  ext ⟨u, k⟩
  constructor
  · rintro ⟨⟨i, _⟩, ⟨x, hx, hk⟩, hpair⟩
    obtain ⟨rfl, rfl⟩ := Prod.mk.inj hpair
    have hsome : (R.look s.machine.store (handle i)).isSome := by
      rw [hR.look_handle_of_some hx]
      rfl
    refine ⟨hd.occurs_of_reachable (hR.reachable hd hs _ hsome), ?_⟩
    simp only [id_eq] at hk ⊢
    rw [hR.captures_getElem? hd hx, hk, Option.map_some, Option.map_some,
      hR.handle_position_of_look hh]
  · rintro ⟨⟨r, hr, hu⟩, hk⟩
    rw [hd.handles_eq] at hr
    obtain ⟨y, hy, rfl⟩ := List.mem_map.1 hr
    -- What occurs in a held tree is the tree of a closure, whose cell has the place.
    obtain ⟨x, hx, rfl⟩ := hd.labels.exists_of_occurs hu (hd.isSome_look y hy) rfl
    obtain ⟨c, hc⟩ := Option.isSome_iff_exists.1 hx
    obtain ⟨z, hz, -⟩ := hR.look_eq_some hc
    have hback := hR.handle_position_of_look hx
    refine ⟨(position x, k), ⟨z, hz, hR.captures_getElem?_eq hd hh hz ?_⟩,
      Prod.ext (congrArg tree hback) rfl⟩
    rw [hback]
    exact hk

theorem ncard_captures (hR : R.Counted cells ledger handle position)
    (hd : Depicts R.toView s t tree) (hs : R.Sound s.machine.store s.handles)
    (hh : (R.look s.machine.store h).isSome) :
    {e : Nat × Nat | ∃ c, (cells s.machine.store).closure? e.1 = some c ∧
        c.captures[e.2]? = some (position h)}.ncard =
      {e : Tree × Nat | (∃ r ∈ t.handles, e.1.Occurs r) ∧
        e.1.closure.captures[e.2]?.map Tree.number = some (tree h).number}.ncard := by
  rw [← hR.image_captures hd hs hh, Set.InjOn.ncard_image]
  rintro ⟨i, k⟩ ⟨x, hx, -⟩ ⟨j, l⟩ ⟨y, hy, -⟩ heq
  obtain ⟨htree, hkl⟩ := Prod.mk.inj heq
  have hij : handle i = handle j := by
    refine hd.number_injective ?_ ?_ (congrArg Tree.number htree)
    · rw [hR.look_handle_of_some hx]
      rfl
    · rw [hR.look_handle_of_some hy]
      rfl
  rw [← hR.position_handle i, hij, hR.position_handle]
  exact congrArg (Prod.mk j) hkl

/-- A closure has as many owners as its tree. -/
theorem owners_eq (hR : R.Counted cells ledger handle position) (hd : Depicts R.toView s t tree)
    (hs : R.Sound s.machine.store s.handles) (hh : (R.look s.machine.store h).isSome) :
    (cells s.machine.store).owners (position h) = t.ownersOf (tree h).number := by
  have howners := (hR.sound hs).owners_eq (position h)
  rw [Multiset.map_coe, Multiset.coe_count, hR.count_handles hd hh,
    Cells.count_captured_eq_ncard, hR.ncard_captures hd hs hh] at howners
  exact howners

/-- The counters tell what can be told from the grove. -/
theorem tallies (hR : R.Counted cells ledger handle position) (owners : W → H → Nat)
    (howners : ∀ w i, owners w (handle i) = (cells w).owners i)
    {hb : Backend.handleBytes W = b} {e : Evaluator H} {d : Evaluator Tree}
    {c : Simulation.Pairing H Tree} (h : (R.simulation hb []).Paired e d c 0 s t) :
    Tallies ledger owners s t := by
  obtain ⟨tree, hd, hs, hcount⟩ := exists_depicts h
  have howners {x : H} (hx : x ∈ s.handles) :
      owners s.machine.store x = t.ownersOf (tree x).number := by
    have hlook := hd.isSome_look x hx
    rw [← hR.owners_eq hd hs hlook, ← howners, hR.handle_position_of_look hlook]
  constructor
  case alloc_eq => exact fun k => by rw [← hR.allocated_eq, hcount]
  case free_eq => exact (hR.reclaims h).free_eq
  case map_owners =>
    rw [hd.handles_eq, List.map_map]
    exact List.map_congr_left fun x hx => howners hx
  case map_owners_getElem? =>
    intro name
    rw [hd.bindings_eq, Option.map_map]
    cases hname : s.bindings[name]? with
    | none => rfl
    | some x =>
      have hmem := List.mem_append_right (s.seats.toList.flatMap Seat.handles)
        (Multiset.mem_coe.1 (mem_values_of_getElem? hname))
      exact congrArg some (howners hmem)

end Representation.Counted

end ChurchStore
