import ChurchStore.Proofs.Cells.Standing
import ChurchStore.Proofs.Simulation
import Mathlib.Algebra.BigOperators.Group.Finset.Basic
import Mathlib.Algebra.Order.Group.Multiset

/-!
# Masked cells

Some cells are not to be reached any more by what follows. A mask leaves nothing in them but a
closure without captures, so that the other cells can be sound although the hidden ones are not.
What is done to the cells that the mask does not hide is done to the masked cells in the same way.
-/

namespace ChurchStore

/-- What a mask leaves of a cell: nothing in particular of a hidden one, and no owners of an empty
one. -/
def Cell.mask (hidden : Bool) (c : Cell) : Cell :=
  if hidden then ⟨1, some .zero⟩ else if c.isOccupied then c else .empty

namespace Cell

theorem mask_occupied (n : Nat) (c : Closure Nat) :
    mask false ⟨n, some c⟩ = ⟨n, some c⟩ := rfl

theorem closure_mask_false (c : Cell) : (c.mask false).closure = c.closure := by
  obtain ⟨n, _ | c⟩ := c <;> rfl

/-- What is there to be seen of a cell is there. -/
theorem eq_of_mask_false {c : Cell} {n : Nat} {x : Closure Nat}
    (h : c.mask false = ⟨n, some x⟩) : c = ⟨n, some x⟩ := by
  obtain ⟨m, _ | y⟩ := c
  · cases h
  · exact h

end Cell

namespace Cells

/-- The cells with a mask over the hidden ones. -/
def mask (hidden : Nat → Bool) (cs : Cells) : Cells :=
  ⟨cs.toArray.mapIdx fun i c => c.mask (hidden i)⟩

variable {hidden : Nat → Bool} {cs ds : Cells} {refs : Multiset Nat} {i j n : Nat}
  {c : Closure Nat}

theorem getElem?_mask (hidden : Nat → Bool) (cs : Cells) (i : Nat) :
    (cs.mask hidden).toArray[i]? = cs.toArray[i]?.map (·.mask (hidden i)) :=
  Array.getElem?_mapIdx

@[simp]
theorem size_mask (hidden : Nat → Bool) (cs : Cells) : (cs.mask hidden).size = cs.size := by
  simp [size, mask]

theorem ext_getElem? (h : ∀ i : Nat, cs.toArray[i]? = ds.toArray[i]?) : cs = ds :=
  congrArg mk (Array.ext_getElem? h)

theorem closure?_mask (hi : hidden i = false) : (cs.mask hidden).closure? i = cs.closure? i := by
  rw [closure?, closure?, getElem?_mask, hi]
  cases cs.toArray[i]? with
  | none => rfl
  | some c => exact c.closure_mask_false

theorem closure?_mask_of_hidden (hi : hidden i = true) (hlt : i < cs.size) :
    (cs.mask hidden).closure? i = some .zero := by
  obtain ⟨cell, hcell⟩ := exists_cell_of_lt hlt
  rw [closure?, getElem?_mask, hi, hcell]
  rfl

theorem getElem?_of_mask (hi : hidden i = false)
    (h : (cs.mask hidden).toArray[i]? = some ⟨n, some c⟩) :
    cs.toArray[i]? = some ⟨n, some c⟩ := by
  rw [getElem?_mask, hi] at h
  obtain ⟨cell, hcell, hmask⟩ := Option.map_eq_some_iff.1 h
  rw [hcell, Cell.eq_of_mask_false hmask]

/-- A cell that is owned and not hidden is just as it seems. -/
theorem Sound.exists_unmasked (h : (cs.mask hidden).Sound refs) (hi : hidden i = false)
    (hpos : 0 < (cs.mask hidden).owners i) : ∃ n c, cs.toArray[i]? = some ⟨n + 1, some c⟩ ∧
      (cs.mask hidden).toArray[i]? = some ⟨n + 1, some c⟩ := by
  obtain ⟨n, c, hcell⟩ := h.exists_cell hpos
  exact ⟨n, c, getElem?_of_mask hi hcell, hcell⟩

/-! ### Changes of cells that are not hidden -/

theorem mask_put (hi : hidden i = false) (c : Cell) :
    (cs.put i c).mask hidden = (cs.mask hidden).put i (c.mask false) := by
  by_cases hlt : i < cs.size
  · refine ext_getElem? fun j => ?_
    rw [getElem?_mask, getElem?_put hlt, getElem?_put (by rwa [size_mask]), getElem?_mask]
    split
    · subst_vars
      rw [hi]
      rfl
    · rfl
  · have hle : cs.size ≤ i := Nat.le_of_not_lt hlt
    rw [put, put, Array.setIfInBounds_eq_of_size_le hle,
      Array.setIfInBounds_eq_of_size_le (by change (cs.mask hidden).size ≤ i; rwa [size_mask])]

theorem mask_push (hi : hidden cs.size = false) (c : Cell) :
    (cs.push c).mask hidden = (cs.mask hidden).push (c.mask false) := by
  refine ext_getElem? fun j => ?_
  have hsize : (cs.mask hidden).toArray.size = cs.toArray.size := size_mask hidden cs
  rw [getElem?_mask, push, push, Array.getElem?_push, Array.getElem?_push, hsize, getElem?_mask]
  split
  · subst_vars
    change some (c.mask (hidden cs.size)) = _
    rw [hi]
  · rfl

/-- Owners are added to cells that have one. -/
theorem mask_acquire (h : (cs.mask hidden).Sound refs) (hi : hidden i = false)
    (hpos : 0 < (cs.mask hidden).owners i) :
    (cs.acquire i).mask hidden = (cs.mask hidden).acquire i := by
  obtain ⟨n, c, hcell, hmask⟩ := h.exists_unmasked hi hpos
  rw [acquire_eq_put hcell, acquire_eq_put hmask, mask_put hi]
  rfl

theorem mask_foldl_acquire (h : (cs.mask hidden).Sound refs) (l : List Nat)
    (hl : ∀ i ∈ l, hidden i = false ∧ 0 < (cs.mask hidden).owners i) :
    (l.foldl Cells.acquire cs).mask hidden = l.foldl Cells.acquire (cs.mask hidden) := by
  induction l generalizing cs refs with
  | nil => rfl
  | cons i l ih =>
    obtain ⟨hi, hpos⟩ := hl i (List.mem_cons_self ..)
    have hacquire := mask_acquire h hi hpos
    obtain ⟨hsound, -, hclosure, -⟩ := h.acquire hpos
    rw [← hacquire] at hsound
    rw [List.foldl_cons, List.foldl_cons, ← hacquire]
    refine ih hsound fun j hj => ?_
    obtain ⟨hhidden, hjpos⟩ := hl j (List.mem_cons_of_mem i hj)
    refine ⟨hhidden, ?_⟩
    rwa [← hsound.isSome_iff, hacquire, hclosure, h.isSome_iff]

theorem letGo_mask (h : (cs.mask hidden).Sound (i ::ₘ refs)) (hi : hidden i = false) :
    (cs.mask hidden).letGo i = ((cs.letGo i).1, (cs.letGo i).2.mask hidden) := by
  obtain ⟨n, c, hcell, hmask⟩ :=
    h.exists_unmasked hi (h.owners_pos_of_mem (Multiset.mem_cons_self i refs))
  cases n with
  | zero =>
    rw [letGo_of_one hcell, letGo_of_one hmask, mask_put hi]
    rfl
  | succ n =>
    rw [letGo_of_more hcell, letGo_of_more hmask, mask_put hi]
    rfl

/-- The captures in masked cells are not hidden. -/
def Discloses (hidden : Nat → Bool) (cs : Cells) : Prop :=
  ∀ j ∈ (cs.mask hidden).captured, hidden j = false

theorem Discloses.of_closure?_some (h : Discloses hidden cs)
    (hclosure : ∀ i c, (ds.mask hidden).closure? i = some c →
      (cs.mask hidden).closure? i = some c) : Discloses hidden ds := by
  intro j hj
  obtain ⟨i, c, hc, hjc⟩ := mem_captured.1 hj
  exact h j (mem_captured.2 ⟨i, c, hclosure i c hc, hjc⟩)

/-- Induction along the release: what is left to give up is never hidden. -/
theorem releaseList_mask (work : List Nat) (freed : List Freed)
    (h : (cs.mask hidden).Sound (work + refs)) (hwork : ∀ i ∈ work, hidden i = false)
    (hcaptured : Discloses hidden cs) : (cs.mask hidden).releaseList work freed =
      ((cs.releaseList work freed).1.mask hidden, (cs.releaseList work freed).2) := by
  fun_induction Cells.releaseList cs work freed with
  | case1 cs freed => rw [releaseList]
  | case2 cs freed i rest ds hl ih =>
    rw [← Multiset.cons_coe, Multiset.cons_add] at h
    have hmask := letGo_mask h (hwork i (List.mem_cons_self ..))
    rw [hl] at hmask
    obtain ⟨hsound, hfree⟩ := h.letGo_none hmask
    rw [releaseList_of_none hmask]
    exact ih hsound (fun j hj => hwork j (List.mem_cons_of_mem i hj))
      (hcaptured.of_closure?_some fun _ _ => hfree.closure?_some)
  | case3 cs freed i rest c ds hl ih =>
    rw [← Multiset.cons_coe, Multiset.cons_add] at h
    have hmask := letGo_mask h (hwork i (List.mem_cons_self ..))
    rw [hl] at hmask
    obtain ⟨hsound, hfree⟩ := h.letGo_some hmask
    rw [← Multiset.add_assoc, Multiset.coe_add] at hsound
    have hc := closure?_of_letGo hmask
    rw [releaseList_of_some hmask]
    refine ih hsound (fun j hj => ?_)
      (hcaptured.of_closure?_some fun _ _ => hfree.closure?_some)
    rcases List.mem_append.1 hj with hj | hj
    · exact hcaptured j (mem_captured.2 ⟨i, c, hc, hj⟩)
    · exact hwork j (List.mem_cons_of_mem i hj)

theorem release_mask (h : (cs.mask hidden).Sound (i ::ₘ refs)) (hi : hidden i = false)
    (hcaptured : Discloses hidden cs) :
    (cs.mask hidden).release i = ((cs.release i).1.mask hidden, (cs.release i).2) := by
  rw [← Multiset.singleton_add] at h
  have hlist := releaseList_mask [i] [] h (fun j hj => by rwa [List.mem_singleton.1 hj]) hcaptured
  rw [release, hlist]
  rfl

/-! ### Cells that nothing captures -/

/-- Where nothing is captured every owner is a reference, and some of them may be kept apart. -/
theorem exists_sound_add (hcaptures : ∀ i c, cs.closure? i = some c → c.captures = [])
    (hsome : ∀ i, (cs.closure? i).isSome ↔ 0 < cs.owners i)
    (hle : ∀ i, refs.count i ≤ cs.owners i) :
    ∃ others, cs.Sound (refs + others) ∧ ∀ i, refs.count i < cs.owners i → i ∈ others := by
  let others := ∑ i ∈ Finset.range cs.size, (cs.owners i - refs.count i) • ({i} : Multiset Nat)
  have hcount (i : Nat) : others.count i = cs.owners i - refs.count i := by
    simp only [others, Multiset.count_sum', Multiset.count_nsmul, Multiset.count_singleton]
    by_cases hi : i < cs.size
    · rw [Finset.sum_eq_single_of_mem i (Finset.mem_range.2 hi) (by simp +contextual [eq_comm])]
      simp
    · rw [owners_of_size_le (Nat.le_of_not_lt hi), Nat.zero_sub]
      refine Finset.sum_eq_zero fun j hj => ?_
      have hne : i ≠ j := by
        rintro rfl
        exact hi (Finset.mem_range.1 hj)
      simp [hne]
  refine ⟨others, ⟨fun i => ?_, hsome⟩, fun i hi => Multiset.count_pos.1 ?_⟩
  · have hcaptured : cs.captured.count i = 0 := by
      refine List.count_eq_zero.2 fun hi => ?_
      obtain ⟨j, c, hc, hmem⟩ := mem_captured.1 hi
      rw [hcaptures j c hc] at hmem
      cases hmem
    have hi := hle i
    rw [hcaptured, Multiset.count_add, hcount]
    omega
  · rw [hcount]
    omega

/-! ### Masks over all but the builtin functions -/

/-- A mask that leaves the builtin functions and otherwise only empty cells. -/
structure Isolates (hidden : Nat → Bool) (cs : Cells) (cell : Builtin → Nat) : Prop where
  stands (b : Builtin) : ∃ k, 0 < k ∧ cs.Stands (cell b) b.closure k
  hidden_cell (b : Builtin) : hidden (cell b) = false
  lt_size {i : Nat} : hidden i = true → i < cs.size
  of_closure? {i : Nat} {c : Closure Nat} : hidden i = false → cs.closure? i = some c →
    ∃ b, cell b = i

namespace Isolates

variable {cell : Builtin → Nat}

theorem closure?_cell (h : Isolates hidden cs cell) (b : Builtin) :
    (cs.mask hidden).closure? (cell b) = some b.closure := by
  obtain ⟨k, -, hstands⟩ := h.stands b
  rw [closure?_mask (h.hidden_cell b), hstands.closure?_eq]

theorem cell_injective (h : Isolates hidden cs cell) : Function.Injective cell := by
  intro b b' heq
  have hclosure := (h.closure?_cell b).symm.trans (heq ▸ h.closure?_cell b')
  cases b <;> cases b' <;> first | rfl | cases hclosure

theorem captures_eq_nil (h : Isolates hidden cs cell)
    (hc : (cs.mask hidden).closure? i = some c) : c.captures = [] := by
  cases hi : hidden i with
  | true =>
    rw [closure?_mask_of_hidden hi (h.lt_size hi)] at hc
    cases hc
    rfl
  | false =>
    have hreal := hc
    rw [closure?_mask hi] at hreal
    obtain ⟨b, rfl⟩ := h.of_closure? hi hreal
    cases (h.closure?_cell b).symm.trans hc
    exact b.captures_closure

theorem owners_of_hidden (h : Isolates hidden cs cell) (hi : hidden i = true) :
    (cs.mask hidden).owners i = 1 := by
  obtain ⟨x, hx⟩ := exists_cell_of_lt (h.lt_size hi)
  rw [owners, getElem?_mask, hi, hx]
  rfl

theorem isSome_iff (h : Isolates hidden cs cell) (i : Nat) :
    ((cs.mask hidden).closure? i).isSome ↔ 0 < (cs.mask hidden).owners i := by
  cases hi : hidden i with
  | true => simp [closure?_mask_of_hidden hi (h.lt_size hi), h.owners_of_hidden hi]
  | false =>
    rw [closure?, owners, getElem?_mask, hi]
    cases hx : cs.toArray[i]? with
    | none => simp
    | some x =>
      obtain ⟨n, _ | c⟩ := x
      · simp [Cell.mask, Cell.isOccupied, Cell.empty]
      · obtain ⟨b, rfl⟩ := h.of_closure? hi (closure?_eq hx)
        obtain ⟨k, hk, hstands⟩ := h.stands b
        have hle := hstands.le_owners
        rw [owners_eq hx] at hle
        simp only at hle
        simp [Cell.mask_occupied]
        omega

theorem count_le (h : Isolates hidden cs cell) (i : Nat) :
    (Builtin.all.map cell : Multiset Nat).count i ≤ (cs.mask hidden).owners i := by
  have hnodup : (Builtin.all.map cell).Nodup := List.Nodup.map h.cell_injective (by decide)
  by_cases hi : i ∈ Builtin.all.map cell
  · obtain ⟨b, -, rfl⟩ := List.mem_map.1 hi
    rw [Multiset.coe_count]
    refine Nat.le_trans (List.nodup_iff_count_le_one.1 hnodup _) ((h.isSome_iff _).1 ?_)
    rw [h.closure?_cell]
    rfl
  · rw [Multiset.coe_count, List.count_eq_zero.2 hi]
    exact Nat.zero_le _

/-- The mask leaves sound cells, as long as what it hides is held by others. -/
theorem exists_sound (h : Isolates hidden cs cell) :
    ∃ others, (cs.mask hidden).Sound (Builtin.all.map cell + others) ∧
      ∀ i, hidden i = true → i ∈ others := by
  obtain ⟨others, hsound, hmem⟩ :=
    exists_sound_add (fun _ _ => h.captures_eq_nil) h.isSome_iff h.count_le
  refine ⟨others, hsound, fun i hi => hmem i ?_⟩
  have hnot : i ∉ Builtin.all.map cell := by
    intro hmem
    obtain ⟨b, -, rfl⟩ := List.mem_map.1 hmem
    rw [h.hidden_cell] at hi
    cases hi
  rw [Multiset.coe_count, List.count_eq_zero.2 hnot, h.owners_of_hidden hi]
  exact Nat.one_pos

end Isolates

end Cells

end ChurchStore
