import ChurchStore.Proofs.Cells.Sound

/-!
# Releasing references

Giving up any number of references to sound cells leaves sound cells. Each cell is emptied at most
once, when nothing owns it any more, and closures in the other cells stay what they were.
-/

namespace ChurchStore.Cells

/-- What giving references up does: the listed cells, and no others, are emptied, once each. -/
structure Freeing (cs ds : Cells) (freed : List Freed) : Prop where
  size_eq : ds.size = cs.size
  closure?_eq {i : Nat} : i ∉ freed.map (·.cell) → ds.closure? i = cs.closure? i
  emptied {f : Freed} : f ∈ freed → ds.closure? f.cell = none ∧
    (cs.closure? f.cell).map Closure.kind = some f.kind
  nodup : (freed.map (·.cell)).Nodup
  census_eq (k : Kind) : cs.census k = ds.census k + freed.countP (·.kind = k)

/-- What is returned when a cell is emptied is the closure that it held. -/
theorem closure?_of_letGo {cs ds : Cells} {i : Nat} {c : Closure Nat}
    (h : cs.letGo i = (some c, ds)) : cs.closure? i = some c := by
  unfold letGo at h
  split at h
  · exact (Prod.mk.inj h).1
  · cases h

theorem releaseList_of_none {cs ds : Cells} {i : Nat} (h : cs.letGo i = (none, ds))
    (rest : List Nat) (freed : List Freed) :
    cs.releaseList (i :: rest) freed = ds.releaseList rest freed := by
  rw [releaseList]
  split
  · rename_i hlet
    rw [h] at hlet
    cases hlet
    rfl
  · rename_i hlet
    rw [h] at hlet
    cases hlet

theorem releaseList_of_some {cs ds : Cells} {i : Nat} {c : Closure Nat}
    (h : cs.letGo i = (some c, ds)) (rest : List Nat) (freed : List Freed) :
    cs.releaseList (i :: rest) freed =
      ds.releaseList (c.captures ++ rest) (⟨i, c.kind⟩ :: freed) := by
  rw [releaseList]
  split
  · rename_i hlet
    rw [h] at hlet
    cases hlet
  · rename_i hlet
    rw [h] at hlet
    cases hlet
    rfl

namespace Freeing

variable {cs ds es : Cells} {freed more : List Freed} {i : Nat}

theorem closure?_some (h : Freeing cs ds freed) {c : Closure Nat} (hc : ds.closure? i = some c) :
    cs.closure? i = some c := by
  by_cases hi : i ∈ freed.map (·.cell)
  · obtain ⟨f, hf, rfl⟩ := List.mem_map.1 hi
    rw [(h.emptied hf).1] at hc
    cases hc
  · rwa [← h.closure?_eq hi]

/-- The emptied cells are those that held a closure before and hold none afterwards. -/
theorem mem_iff (h : Freeing cs ds freed) :
    i ∈ freed.map (·.cell) ↔ ds.closure? i = none ∧ (cs.closure? i).isSome := by
  constructor
  · intro hi
    obtain ⟨f, hf, rfl⟩ := List.mem_map.1 hi
    obtain ⟨hnone, hkind⟩ := h.emptied hf
    rw [Option.map_eq_some_iff] at hkind
    obtain ⟨c, hc, -⟩ := hkind
    exact ⟨hnone, by rw [hc]; rfl⟩
  · intro ⟨hnone, hsome⟩
    by_contra hi
    rw [← h.closure?_eq hi, hnone] at hsome
    cases hsome

theorem cell_lt {f : Freed} (h : Freeing cs ds freed) (hf : f ∈ freed) : f.cell < cs.size :=
  lt_size_of_isSome (h.mem_iff.1 (List.mem_map_of_mem hf)).2

/-- Nothing is emptied. -/
theorem of_closure?_eq (hsize : ds.size = cs.size) (hclosure : ∀ i, ds.closure? i = cs.closure? i)
    (hcensus : ∀ k, ds.census k = cs.census k) : Freeing cs ds [] where
  size_eq := hsize
  closure?_eq _ := hclosure _
  emptied hf := by cases hf
  nodup := List.nodup_nil
  census_eq k := (hcensus k).symm

/-- One cell is emptied. -/
theorem single {n : Nat} {c : Closure Nat} (hcell : cs.toArray[i]? = some ⟨n, some c⟩) :
    Freeing cs (cs.put i Cell.empty) [⟨i, c.kind⟩] where
  size_eq := size_put
  closure?_eq {j} hj := by
    rw [List.map_singleton, List.mem_singleton] at hj
    rw [closure?_put (lt_size hcell), if_neg hj]
  emptied {f} hf := by
    obtain rfl := List.mem_singleton.1 hf
    rw [closure?_put (lt_size hcell), if_pos rfl, Cells.closure?_eq hcell]
    exact ⟨rfl, rfl⟩
  nodup := List.nodup_singleton _
  census_eq k := by
    have hput := census_put hcell Cell.empty k
    rw [Cell.holds_empty, Cell.holds_some] at hput
    rw [List.countP_singleton]
    simpa using hput.symm

theorem trans (h : Freeing cs ds freed) (h' : Freeing ds es more) :
    Freeing cs es (more ++ freed) where
  size_eq := h'.size_eq.trans h.size_eq
  closure?_eq {i} hi := by
    rw [List.map_append, List.mem_append, not_or] at hi
    rw [h'.closure?_eq hi.1, h.closure?_eq hi.2]
  emptied {f} hf := by
    rcases List.mem_append.1 hf with hf | hf
    · obtain ⟨hnone, hkind⟩ := h'.emptied hf
      obtain ⟨c, hc, hk⟩ := Option.map_eq_some_iff.1 hkind
      exact ⟨hnone, by rw [h.closure?_some hc, Option.map_some, hk]⟩
    · obtain ⟨hnone, hkind⟩ := h.emptied hf
      refine ⟨?_, hkind⟩
      by_contra hsome
      obtain ⟨c, hc⟩ := Option.ne_none_iff_exists'.1 hsome
      rw [h'.closure?_some hc] at hnone
      cases hnone
  nodup := by
    rw [List.map_append, List.nodup_append']
    refine ⟨h'.nodup, h.nodup, fun i hi hi' => ?_⟩
    have hnone := (h.mem_iff.1 hi').1
    have hsome := (h'.mem_iff.1 hi).2
    rw [hnone] at hsome
    cases hsome
  census_eq k := by
    have h₁ := h.census_eq k
    have h₂ := h'.census_eq k
    rw [List.countP_append]
    omega

theorem reverse (h : Freeing cs ds freed) : Freeing cs ds freed.reverse where
  size_eq := h.size_eq
  closure?_eq hi := h.closure?_eq (by simpa using hi)
  emptied hf := h.emptied (List.mem_reverse.1 hf)
  nodup := by
    rw [List.map_reverse, List.nodup_reverse]
    exact h.nodup
  census_eq k := by
    rw [List.countP_reverse]
    exact h.census_eq k

end Freeing

namespace Sound

variable {cs ds : Cells} {refs : Multiset Nat} {i : Nat} {c : Closure Nat}

/-- A reference to a cell that stays occupied is given up. -/
theorem letGo_none (h : cs.Sound (i ::ₘ refs)) (hl : cs.letGo i = (none, ds)) :
    ds.Sound refs ∧ Freeing cs ds [] := by
  obtain ⟨n, c, hcell⟩ := h.exists_cell (h.owners_pos_of_mem (Multiset.mem_cons_self i refs))
  cases n with
  | zero =>
    rw [letGo_of_one hcell] at hl
    cases hl
  | succ n =>
    rw [letGo_of_more hcell] at hl
    cases hl
    refine ⟨h.recount hcell (Nat.succ_pos n) ?_ fun j hj => (Multiset.count_cons_of_ne hj _).symm,
      .of_closure?_eq size_put (fun j => closure?_recount hcell) (census_recount hcell _)⟩
    rw [Multiset.count_cons_self]
    omega

/-- The last reference to a cell is given up, which empties it. -/
theorem letGo_some (h : cs.Sound (i ::ₘ refs)) (hl : cs.letGo i = (some c, ds)) :
    ds.Sound (c.captures + refs) ∧ Freeing cs ds [⟨i, c.kind⟩] := by
  obtain ⟨n, x, hcell⟩ := h.exists_cell (h.owners_pos_of_mem (Multiset.mem_cons_self i refs))
  cases n with
  | zero =>
    rw [letGo_of_one hcell] at hl
    cases hl
    exact ⟨h.vacate hcell, .single hcell⟩
  | succ n =>
    rw [letGo_of_more hcell] at hl
    cases hl

/-- Induction along the release: what is left to give up are references all the time. -/
theorem releaseList (work : List Nat) (freed : List Freed) (h : cs.Sound (work + refs)) :
    ∃ fresh, (cs.releaseList work freed).2 = fresh ++ freed ∧
      (cs.releaseList work freed).1.Sound refs ∧
      Freeing cs (cs.releaseList work freed).1 fresh := by
  fun_induction Cells.releaseList cs work freed with
  | case1 cs freed =>
    refine ⟨[], rfl, by simpa using h, ?_⟩
    exact .of_closure?_eq rfl (fun _ => rfl) fun _ => rfl
  | case2 cs freed i rest ds hl ih =>
    rw [← Multiset.cons_coe, Multiset.cons_add] at h
    obtain ⟨hsound, hfree⟩ := h.letGo_none hl
    obtain ⟨fresh, heq, hsound', hfree'⟩ := ih hsound
    refine ⟨fresh, heq, hsound', ?_⟩
    simpa using hfree.trans hfree'
  | case3 cs freed i rest c ds hl ih =>
    rw [← Multiset.cons_coe, Multiset.cons_add] at h
    obtain ⟨hsound, hfree⟩ := h.letGo_some hl
    rw [← Multiset.add_assoc, Multiset.coe_add] at hsound
    obtain ⟨fresh, heq, hsound', hfree'⟩ := ih hsound
    refine ⟨fresh ++ [⟨i, c.kind⟩], ?_, hsound', hfree.trans hfree'⟩
    rw [heq, List.append_assoc]
    rfl

/-- One reference is given up. -/
theorem release (h : cs.Sound (i ::ₘ refs)) :
    (cs.release i).1.Sound refs ∧ Freeing cs (cs.release i).1 (cs.release i).2 := by
  rw [← Multiset.singleton_add] at h
  obtain ⟨fresh, heq, hsound, hfree⟩ := h.releaseList [i] []
  rw [List.append_nil] at heq
  refine ⟨hsound, ?_⟩
  have hrev := hfree.reverse
  rwa [← heq] at hrev

end Sound

end ChurchStore.Cells
