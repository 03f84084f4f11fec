import ChurchStore.Proofs.Cells.Release

/-!
# Orderly releases

The release of references goes from cell to cell. It is orderly if each cell that it comes to has an
owner to give up, and each cell that it empties is not referred to any more: not by the references
that are kept, not by those that are still to be released, and not by a capture in an occupied
cell. Sound cells are released in an orderly way, and the derivation of this is finite.
-/

namespace ChurchStore.Cells

/-- The listed references are given up in an orderly way while those of `kept` are kept. -/
inductive Orderly (kept : Multiset Nat) : Cells → List Nat → Prop where
  | done {cs : Cells} : Orderly kept cs []
  /-- A cell has other owners, which it keeps. -/
  | keep {cs ds : Cells} {i : Nat} {rest : List Nat} : 1 < cs.owners i → cs.letGo i = (none, ds) →
    Orderly kept ds rest → Orderly kept cs (i :: rest)
  /-- A cell is emptied, and what it captured is released before the rest. -/
  | empty {cs ds : Cells} {i : Nat} {c : Closure Nat} {rest : List Nat} : cs.owners i = 1 →
    i ∉ kept → i ∉ rest → i ∉ cs.captured → cs.letGo i = (some c, ds) →
    Orderly kept ds (c.captures ++ rest) → Orderly kept cs (i :: rest)

/-- Sound cells are released in an orderly way, by induction along the release. -/
theorem Sound.orderly {cs : Cells} {kept : Multiset Nat} (work : List Nat)
    (h : cs.Sound (work + kept)) : Orderly kept cs work := by
  have hrun (freed : List Freed) : Orderly kept cs work := by
    fun_induction Cells.releaseList cs work freed with
    | case1 cs freed => exact .done
    | case2 cs freed i rest ds hl ih =>
      rw [← Multiset.cons_coe, Multiset.cons_add] at h
      obtain ⟨n, c, hcell⟩ := h.exists_cell (h.owners_pos_of_mem (Multiset.mem_cons_self i _))
      have hmore : 1 < cs.owners i := by
        rw [Cells.owners_eq hcell]
        cases n with
        | zero =>
          rw [letGo_of_one hcell] at hl
          cases hl
        | succ n =>
          simp only
          omega
      exact .keep hmore hl (ih (h.letGo_none hl).1)
    | case3 cs freed i rest c ds hl ih =>
      rw [← Multiset.cons_coe, Multiset.cons_add] at h
      obtain ⟨n, x, hcell⟩ := h.exists_cell (h.owners_pos_of_mem (Multiset.mem_cons_self i _))
      have hone : cs.owners i = 1 := by
        rw [Cells.owners_eq hcell]
        cases n with
        | zero => rfl
        | succ n =>
          rw [letGo_of_more hcell] at hl
          cases hl
      -- The only owner is the reference at the head of the list.
      have hcount := h.owners_eq i
      rw [hone, Multiset.count_cons_self, Multiset.count_add, Multiset.coe_count] at hcount
      have hsound := (h.letGo_some hl).1
      rw [← Multiset.add_assoc, Multiset.coe_add] at hsound
      refine .empty hone ?_ ?_ ?_ hl (ih hsound)
      · exact Multiset.count_eq_zero.1 (by omega)
      · exact List.count_eq_zero.1 (by omega)
      · exact List.count_eq_zero.1 (by omega)
  exact hrun []

end ChurchStore.Cells
