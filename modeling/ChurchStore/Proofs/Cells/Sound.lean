import ChurchStore.Proofs.Cells.Update
import Mathlib.Data.Multiset.AddSub
import Mathlib.Data.Multiset.Count

/-!
# Sound cells

Cells are sound for a multiset of references from outside if every cell counts exactly its owners,
the references and the captures in occupied cells, and is occupied as long as it has one. Adding an
owner, giving up a reference and filling an empty cell keep this.
-/

namespace ChurchStore.Cells

/-- Every cell counts its owners, and is occupied if and only if it has one. -/
structure Sound (cs : Cells) (refs : Multiset Nat) : Prop where
  owners_eq (i : Nat) : cs.owners i = refs.count i + cs.captured.count i
  isSome_iff (i : Nat) : (cs.closure? i).isSome ↔ 0 < cs.owners i

namespace Sound

variable {cs : Cells} {refs : Multiset Nat} {i j n : Nat} {c : Closure Nat}

theorem empty : Sound {} 0 where
  owners_eq i := by
    rw [Cells.owners_of_size_le (Nat.zero_le i)]
    rfl
  isSome_iff i := by
    rw [Cells.owners_of_size_le (Nat.zero_le i), Cells.closure?_of_size_le (Nat.zero_le i)]
    simp

theorem exists_cell (h : cs.Sound refs) (hi : 0 < cs.owners i) :
    ∃ n c, cs.toArray[i]? = some ⟨n + 1, some c⟩ := by
  obtain ⟨c, hc⟩ := Option.isSome_iff_exists.1 ((h.isSome_iff i).2 hi)
  obtain ⟨n, hcell⟩ := exists_cell_of_closure? hc
  rw [Cells.owners_eq hcell] at hi
  exact ⟨n - 1, c, by rwa [Nat.sub_add_cancel hi]⟩

theorem owners_pos_of_mem (h : cs.Sound refs) (hi : i ∈ refs) : 0 < cs.owners i := by
  have hcount := Multiset.count_pos.2 hi
  rw [h.owners_eq]
  omega

theorem owners_pos_of_captured (h : cs.Sound refs) (hc : cs.closure? i = some c)
    (hj : j ∈ c.captures) : 0 < cs.owners j := by
  have hcount := List.count_pos_iff.2 (mem_captured.2 ⟨i, c, hc, hj⟩)
  rw [h.owners_eq]
  omega

theorem isSome_of_mem (h : cs.Sound refs) (hi : i ∈ refs) : (cs.closure? i).isSome :=
  (h.isSome_iff i).2 (h.owners_pos_of_mem hi)

theorem isSome_of_captured (h : cs.Sound refs) (hc : cs.closure? i = some c)
    (hj : j ∈ c.captures) : (cs.closure? j).isSome :=
  (h.isSome_iff j).2 (h.owners_pos_of_captured hc hj)

/-- An occupied cell is referred to or captured. -/
theorem mem_or_captured (h : cs.Sound refs) (hi : (cs.closure? i).isSome) :
    i ∈ refs ∨ ∃ j c, cs.closure? j = some c ∧ i ∈ c.captures := by
  have hpos := (h.isSome_iff i).1 hi
  rw [h.owners_eq] at hpos
  by_cases hmem : i ∈ refs
  · exact .inl hmem
  · rw [Multiset.count_eq_zero_of_notMem hmem, Nat.zero_add] at hpos
    exact .inr (mem_captured.1 (List.count_pos_iff.1 hpos))

theorem closure?_eq_none_iff (h : cs.Sound refs) (i : Nat) :
    cs.closure? i = none ↔ cs.owners i = 0 := by
  have hiff := h.isSome_iff i
  rw [← Option.not_isSome_iff_eq_none, hiff]
  omega

/-- A cell without a closure has no owners. -/
theorem cell_of_none (h : cs.Sound refs) (hi : i < cs.size) (hfree : cs.closure? i = none) :
    cs.toArray[i]? = some ⟨0, none⟩ := by
  obtain ⟨⟨n, o⟩, hcell⟩ := exists_cell_of_lt hi
  have hn := (h.closure?_eq_none_iff i).1 hfree
  rw [Cells.owners_eq hcell] at hn
  rw [Cells.closure?_eq hcell] at hfree
  simp only at hn hfree
  rw [hcell, hn, hfree]

/-- The number of owners of an occupied cell changes with the references to it. -/
theorem recount (h : cs.Sound refs) (hcell : cs.toArray[i]? = some ⟨n, some c⟩) {m : Nat}
    {refs' : Multiset Nat} (hm : 0 < m) (hi : m + refs.count i = n + refs'.count i)
    (hne : ∀ j, j ≠ i → refs'.count j = refs.count j) : (cs.put i ⟨m, some c⟩).Sound refs' where
  owners_eq j := by
    have hj := h.owners_eq j
    rw [owners_put (lt_size hcell), count_captured_recount hcell]
    split
    · subst_vars
      rw [Cells.owners_eq hcell] at hj
      simp only at hj ⊢
      omega
    · rw [hj, hne j ‹_›]
  isSome_iff j := by
    rw [owners_put (lt_size hcell), closure?_recount hcell]
    split
    · subst_vars
      rw [Cells.closure?_eq hcell]
      simpa using hm
    · exact h.isSome_iff j

/-- A cell that is already owned gets one more reference. -/
theorem acquire (h : cs.Sound refs) (hi : 0 < cs.owners i) :
    (cs.acquire i).Sound (i ::ₘ refs) ∧ (cs.acquire i).size = cs.size ∧
      (∀ j, (cs.acquire i).closure? j = cs.closure? j) ∧
      ∀ k, (cs.acquire i).census k = cs.census k := by
  obtain ⟨n, c, hcell⟩ := h.exists_cell hi
  rw [acquire_eq_put hcell]
  refine ⟨h.recount hcell (Nat.succ_pos _) ?_ fun j hj => Multiset.count_cons_of_ne hj _, size_put,
    fun j => closure?_recount hcell, census_recount hcell _⟩
  rw [Multiset.count_cons_self]
  simp only
  omega

/-- Every capture of a closure gets one more reference. -/
theorem acquireAll (h : cs.Sound refs) (l : List Nat) (hl : ∀ i ∈ l, 0 < cs.owners i) :
    (l.foldl Cells.acquire cs).Sound (l + refs) ∧ (l.foldl Cells.acquire cs).size = cs.size ∧
      (∀ j, (l.foldl Cells.acquire cs).closure? j = cs.closure? j) ∧
      ∀ k, (l.foldl Cells.acquire cs).census k = cs.census k := by
  induction l generalizing cs refs with
  | nil => exact ⟨by simpa using h, rfl, fun _ => rfl, fun _ => rfl⟩
  | cons i l ih =>
    obtain ⟨hsound, hsize, hclosure, hcensus⟩ := h.acquire (hl i (List.mem_cons_self ..))
    have hl' : ∀ j ∈ l, 0 < (cs.acquire i).owners j := by
      intro j hj
      rw [← hsound.isSome_iff, hclosure, h.isSome_iff]
      exact hl j (List.mem_cons_of_mem i hj)
    obtain ⟨hsound', hsize', hclosure', hcensus'⟩ := ih hsound hl'
    rw [Multiset.add_cons] at hsound'
    refine ⟨by rwa [← Multiset.cons_coe, Multiset.cons_add], hsize'.trans hsize, fun j => ?_,
      fun k => ?_⟩
    · exact (hclosure' j).trans (hclosure j)
    · exact (hcensus' k).trans (hcensus k)

/-- A closure with one owner is put into an empty cell, which owns its captures. -/
theorem fill (h : cs.Sound (c.captures + refs)) (hi : i < cs.size) (hfree : cs.closure? i = none) :
    (cs.put i ⟨1, some c⟩).Sound (i ::ₘ refs) := by
  have hcell := h.cell_of_none hi hfree
  have hzero := h.owners_eq i
  rw [Cells.owners_eq hcell] at hzero
  constructor
  · intro j
    have hj := h.owners_eq j
    have hcap := count_captured_put hcell ⟨1, some c⟩ j
    simp only [Cell.captures_some, Multiset.count_add, Multiset.coe_count] at hj hcap hzero
    have hnone : Cell.captures ⟨0, none⟩ = [] := rfl
    rw [hnone, List.count_nil] at hcap
    rw [owners_put hi]
    split
    · subst_vars
      rw [Multiset.count_cons_self]
      simp only
      omega
    · rw [Multiset.count_cons_of_ne ‹_›]
      omega
  · intro j
    rw [owners_put hi, closure?_put hi]
    split
    · simp
    · exact h.isSome_iff j

/-- A closure with one owner is added in a new cell, which owns its captures. -/
theorem push (h : cs.Sound (c.captures + refs)) :
    (cs.push ⟨1, some c⟩).Sound (cs.size ::ₘ refs) := by
  have hzero := h.owners_eq cs.size
  rw [owners_of_size_le (Nat.le_refl _)] at hzero
  constructor
  · intro j
    have hj := h.owners_eq j
    simp only [Multiset.count_add, Multiset.coe_count] at hj hzero
    rw [owners_push, count_captured_push, Cell.captures_some]
    split
    · subst_vars
      rw [Multiset.count_cons_self]
      simp only
      omega
    · rw [Multiset.count_cons_of_ne ‹_›]
      omega
  · intro j
    rw [owners_push, closure?_push]
    split
    · simp
    · exact h.isSome_iff j

/-- The last reference to a cell is given up, and its captures become references. -/
theorem vacate (h : cs.Sound (i ::ₘ refs)) (hcell : cs.toArray[i]? = some ⟨1, some c⟩) :
    (cs.put i Cell.empty).Sound (c.captures + refs) := by
  have hi := lt_size hcell
  have hone := h.owners_eq i
  rw [Cells.owners_eq hcell, Multiset.count_cons_self] at hone
  simp only at hone
  constructor
  · intro j
    have hj := h.owners_eq j
    have hcap := count_captured_put hcell Cell.empty j
    rw [Cell.captures_empty, List.count_nil, Cell.captures_some] at hcap
    rw [owners_put hi, Multiset.count_add, Multiset.coe_count]
    split
    · subst_vars
      rw [Multiset.count_cons_self] at hj
      change 0 = _
      omega
    · rw [Multiset.count_cons_of_ne ‹_›] at hj
      omega
  · intro j
    rw [owners_put hi, closure?_put hi]
    split
    · simp [Cell.empty]
    · exact h.isSome_iff j

end Sound

end ChurchStore.Cells
