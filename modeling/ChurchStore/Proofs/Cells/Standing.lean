import ChurchStore.Proofs.Cells.Release

/-!
# Cells that stay occupied

The counts of cells are right as long as handles are used as they should be. Of cells that may have
been miscounted less is known, but it is known of all of them: what is captured exists, and a
closure that has more owners than captures stays where it is. Here this is shown of every operation
on cells, and of releases in particular.
-/

namespace ChurchStore.Cells

variable {cs ds : Cells} {i j n k : Nat} {o : Option (Closure Nat)} {c : Closure Nat}

/-! ### Giving up one owner -/

theorem letGo_of_cell (h : cs.toArray[i]? = some ⟨n, o⟩) :
    cs.letGo i = if n ≤ 1 then (o, cs.put i Cell.empty) else (none, cs.put i ⟨n - 1, o⟩) := by
  unfold letGo
  rw [owners_eq h, closure?_eq h, put, put, Modify.modify_eq_set h]

theorem letGo_of_size_le (h : cs.size ≤ i) : cs.letGo i = (none, cs) := by
  have hput : cs.put i Cell.empty = cs := by
    unfold put
    rw [Array.setIfInBounds_eq_of_size_le h]
  rw [letGo, owners_of_size_le h, if_pos (Nat.zero_le 1), closure?_of_size_le h, hput]

/-- Other owners of a cell are all that changes. -/
theorem freeing_recount (h : cs.toArray[i]? = some ⟨n, o⟩) (m : Nat) :
    Freeing cs (cs.put i ⟨m, o⟩) [] := by
  refine .of_closure?_eq size_put (fun j => ?_) fun k => ?_
  · rw [closure?_put (lt_size h)]
    split
    · subst_vars
      rw [closure?_eq h]
    · rfl
  · exact Nat.add_right_cancel (census_put h ⟨m, o⟩ k)

theorem freeing_letGo (h : cs.letGo i = (o, ds)) :
    Freeing cs ds (o.toList.map fun c => ⟨i, c.kind⟩) := by
  by_cases hi : i < cs.size
  · obtain ⟨⟨n, o'⟩, hcell⟩ := exists_cell_of_lt hi
    rw [letGo_of_cell hcell] at h
    split at h
    · cases h
      cases o with
      | none => exact freeing_recount hcell 0
      | some c => exact .single hcell
    · cases h
      exact freeing_recount hcell _
  · rw [letGo_of_size_le (Nat.le_of_not_lt hi)] at h
    cases h
    exact .of_closure?_eq rfl (fun _ => rfl) fun _ => rfl

theorem owners_letGo (h : cs.letGo i = (o, ds)) (j : Nat) :
    ds.owners j = cs.owners j - [i].count j := by
  by_cases hi : i < cs.size
  · obtain ⟨⟨n, o'⟩, hcell⟩ := exists_cell_of_lt hi
    rw [letGo_of_cell hcell] at h
    have hput (x : Cell) : (cs.put i x).owners j = if j = i then x.owners else cs.owners j :=
      owners_put hi
    by_cases hj : j = i
    · subst hj
      split at h <;> cases h <;> simp [hput, owners_eq hcell, Cell.empty]
      omega
    · have hcount : [i].count j = 0 := by simp [Ne.symm hj]
      split at h <;> cases h <;> rw [hput, if_neg hj, hcount, Nat.sub_zero]
  · have hle := Nat.le_of_not_lt hi
    rw [letGo_of_size_le hle] at h
    cases h
    by_cases hj : j = i
    · rw [hj, owners_of_size_le hle, Nat.zero_sub]
    · simp [Ne.symm hj]

/-- What the emptied cell has captured is not captured any more. -/
theorem count_captured_letGo (h : cs.letGo i = (o, ds)) (j : Nat) :
    cs.captured.count j = ds.captured.count j + (o.toList.flatMap Closure.captures).count j := by
  by_cases hi : i < cs.size
  · obtain ⟨⟨n, o'⟩, hcell⟩ := exists_cell_of_lt hi
    rw [letGo_of_cell hcell] at h
    split at h
    · cases h
      have hput := count_captured_put hcell Cell.empty j
      cases o <;> simpa [Cell.captures, Cell.empty] using hput.symm
    · cases h
      have hput := count_captured_put hcell ⟨n - 1, o'⟩ j
      have hsame : (Cell.mk n o').captures = (Cell.mk (n - 1) o').captures := rfl
      rw [hsame] at hput
      simpa using (Nat.add_right_cancel hput).symm
  · rw [letGo_of_size_le (Nat.le_of_not_lt hi)] at h
    cases h
    simp

/-- A cell is emptied if its last owner is gone. -/
theorem owners_le_of_letGo (h : cs.letGo i = (some c, ds)) : cs.owners i ≤ 1 := by
  unfold letGo at h
  split at h
  · assumption
  · cases h

/-! ### Further owners -/

@[simp]
theorem size_acquire (cs : Cells) (i : Nat) : (cs.acquire i).size = cs.size := by
  simp [size, acquire]

theorem owners_acquire (hi : i < cs.size) (j : Nat) :
    (cs.acquire i).owners j = cs.owners j + [i].count j := by
  obtain ⟨old, hcell⟩ := exists_cell_of_lt hi
  rw [acquire_eq_put hcell, owners_put hi]
  by_cases hj : j = i
  · subst hj
    simp [owners_eq hcell]
  · simp [hj, Ne.symm hj]

theorem acquire_of_size_le (h : cs.size ≤ i) : cs.acquire i = cs := by
  unfold acquire
  rw [Modify.modify_eq_self fun c hc => absurd (lt_size hc) (Nat.not_lt.2 h)]

/-! ### Captures that exist -/

/-- All captures are positions of cells. -/
def Closed (cs : Cells) : Prop := ∀ j ∈ cs.captured, j < cs.size

namespace Closed

theorem empty : Closed {} := fun _ h => by cases h

/-- Where closures only go, all captures still exist. -/
theorem of_closure?_some (h : cs.Closed) (hsize : ds.size = cs.size)
    (hclosure : ∀ i c, ds.closure? i = some c → cs.closure? i = some c) : ds.Closed := by
  intro j hj
  obtain ⟨i, c, hc, hjc⟩ := mem_captured.1 hj
  rw [hsize]
  exact h j (mem_captured.2 ⟨i, c, hclosure i c hc, hjc⟩)

theorem lt_size (h : cs.Closed) (hc : cs.closure? i = some c) (hj : j ∈ c.captures) : j < cs.size :=
  h j (mem_captured.2 ⟨i, c, hc, hj⟩)

theorem acquire (h : cs.Closed) (i : Nat) : (cs.acquire i).Closed :=
  h.of_closure?_some (cs.size_acquire i) fun j c hc => by rwa [closure?_acquire] at hc

/-- A closure over cells that exist may be added. -/
theorem of_closure?_new {x : Closure Nat} (h : cs.Closed) (hx : ∀ j ∈ x.captures, j < cs.size)
    (hsize : cs.size ≤ ds.size)
    (hclosure : ∀ j, ds.closure? j = if j = i then some x else cs.closure? j) : ds.Closed := by
  intro j hj
  obtain ⟨k, c, hc, hjc⟩ := mem_captured.1 hj
  rw [hclosure] at hc
  split at hc
  · cases hc
    exact Nat.lt_of_lt_of_le (hx j hjc) hsize
  · exact Nat.lt_of_lt_of_le (h.lt_size hc hjc) hsize

end Closed

/-! ### Closures that are owned stay -/

/-- The cell holds this closure, and it has at least `k` owners besides the closures that capture
it. -/
structure Stands (cs : Cells) (i : Nat) (c : Closure Nat) (k : Nat) : Prop where
  closure?_eq : cs.closure? i = some c
  le_owners : k + cs.captured.count i ≤ cs.owners i

namespace Stands

theorem lt_size (h : cs.Stands i c k) : i < cs.size :=
  lt_size_of_isSome (Option.isSome_of_eq_some h.closure?_eq)

theorem mono {l : Nat} (h : cs.Stands i c k) (hle : l ≤ k) : cs.Stands i c l :=
  ⟨h.closure?_eq, Nat.le_trans (Nat.add_le_add_right hle _) h.le_owners⟩

theorem acquire (h : cs.Stands i c k) (j : Nat) : (cs.acquire j).Stands i c (k + [j].count i) where
  closure?_eq := by rw [closure?_acquire, h.closure?_eq]
  le_owners := by
    by_cases hj : j < cs.size
    case neg =>
      have hij : j ≠ i := fun hji => hj (hji ▸ h.lt_size)
      simpa [acquire_of_size_le (Nat.le_of_not_lt hj), hij] using h.le_owners
    have hle := h.le_owners
    obtain ⟨old, hcell⟩ := exists_cell_of_lt hj
    have hcaptured := count_captured_put hcell { old with owners := old.owners + 1 } i
    rw [← acquire_eq_put hcell] at hcaptured
    have hsame : ({ old with owners := old.owners + 1 } : Cell).captures = old.captures := rfl
    rw [hsame] at hcaptured
    rw [owners_acquire hj]
    omega

/-- A new closure stands by itself. -/
theorem push_self (h : cs.Closed) (hc : c.captures = []) :
    (cs.push ⟨1, some c⟩).Stands cs.size c 1 where
  closure?_eq := by rw [closure?_push, if_pos rfl]
  le_owners := by
    have hnone : cs.captured.count cs.size = 0 :=
      List.count_eq_zero.2 fun hmem => Nat.lt_irrefl _ (h _ hmem)
    rw [count_captured_push, owners_push, if_pos rfl, hnone, Cell.captures_some, hc]
    rfl

/-- What a new closure captures it owns. -/
theorem push {x : Closure Nat} (h : cs.Stands i c (k + x.captures.count i)) :
    (cs.push ⟨1, some x⟩).Stands i c k where
  closure?_eq := by rw [closure?_push, if_neg (Nat.ne_of_lt h.lt_size), h.closure?_eq]
  le_owners := by
    have hle := h.le_owners
    rw [count_captured_push, owners_push, if_neg (Nat.ne_of_lt h.lt_size), Cell.captures_some]
    omega

theorem fill {x : Closure Nat} (h : cs.Stands i c (k + x.captures.count i)) (hj : j < cs.size)
    (hnone : cs.closure? j = none) : (cs.put j ⟨1, some x⟩).Stands i c k := by
  have hij : i ≠ j := by
    rintro rfl
    rw [h.closure?_eq] at hnone
    cases hnone
  obtain ⟨⟨n, o⟩, hcell⟩ := exists_cell_of_lt hj
  rw [Cells.closure?_eq hcell] at hnone
  cases hnone
  have hcaptured := count_captured_put hcell ⟨1, some x⟩ i
  refine ⟨by rw [closure?_put hj, if_neg hij, h.closure?_eq], ?_⟩
  have hle := h.le_owners
  have hempty : (Cell.mk n none).captures.count i = 0 := rfl
  rw [Cell.captures_some, hempty] at hcaptured
  rw [owners_put hj, if_neg hij]
  omega

/-- As long as an owner is left, an owner that is given up changes nothing but the count. -/
theorem letGo (h : cs.Stands i c (k + [j].count i)) (hk : 0 < k) (hl : cs.letGo j = (o, ds)) :
    ds.Stands i c (k + (o.toList.flatMap Closure.captures).count i) where
  closure?_eq := by
    rw [← h.closure?_eq]
    refine (freeing_letGo hl).closure?_eq fun hi => ?_
    cases o with
    | none => cases hi
    | some x =>
      obtain rfl : i = j := by simpa using hi
      have hle := h.le_owners
      have hone := owners_le_of_letGo hl
      rw [List.count_singleton_self] at hle
      omega
  le_owners := by
    have hle := h.le_owners
    have hcaptured := count_captured_letGo hl i
    rw [owners_letGo hl]
    omega

/-- Induction along the release: what is left to give up are owners all the time. -/
theorem releaseList (work : List Nat) (freed : List Freed) (h : cs.Stands i c (k + work.count i))
    (hk : 0 < k) : (cs.releaseList work freed).1.Stands i c k := by
  have hcons (j : Nat) (l : List Nat) : k + (j :: l).count i = k + l.count i + [j].count i := by
    rw [Nat.add_assoc, Nat.add_comm (l.count i), ← List.count_append, List.singleton_append]
  fun_induction Cells.releaseList cs work freed with
  | case1 cs freed => exact h
  | case2 cs freed j rest ds hl ih =>
    rw [hcons] at h
    exact ih (by simpa using h.letGo (by omega) hl)
  | case3 cs freed j rest x ds hl ih =>
    rw [hcons] at h
    have hrest := h.letGo (by omega) hl
    refine ih ?_
    rw [List.count_append]
    simp only [Option.toList_some, List.flatMap_singleton] at hrest
    rwa [Nat.add_assoc, Nat.add_comm (rest.count i)] at hrest

end Stands

/-- Whatever is given up, the cells that it empties are listed, once each. -/
theorem freeing_releaseList (cs : Cells) (work : List Nat) (freed : List Freed) :
    ∃ fresh, (cs.releaseList work freed).2 = fresh ++ freed ∧
      Freeing cs (cs.releaseList work freed).1 fresh := by
  fun_induction Cells.releaseList cs work freed with
  | case1 cs freed => exact ⟨[], rfl, .of_closure?_eq rfl (fun _ => rfl) fun _ => rfl⟩
  | case2 cs freed i rest ds hl ih =>
    obtain ⟨fresh, heq, hfree⟩ := ih
    exact ⟨fresh, heq, by simpa using (freeing_letGo hl).trans hfree⟩
  | case3 cs freed i rest c ds hl ih =>
    obtain ⟨fresh, heq, hfree⟩ := ih
    refine ⟨fresh ++ [⟨i, c.kind⟩], ?_, (freeing_letGo hl).trans hfree⟩
    rw [heq, List.append_assoc]
    rfl

theorem freeing_release (cs : Cells) (i : Nat) : Freeing cs (cs.release i).1 (cs.release i).2 := by
  obtain ⟨fresh, heq, hfree⟩ := cs.freeing_releaseList [i] []
  rw [List.append_nil] at heq
  have hrev := hfree.reverse
  rwa [← heq] at hrev

theorem Closed.release (h : cs.Closed) (i : Nat) : (cs.release i).1.Closed :=
  h.of_closure?_some (cs.freeing_release i).size_eq fun _ _ => (cs.freeing_release i).closure?_some

theorem Stands.release (h : cs.Stands i c (k + [j].count i)) (hk : 0 < k) :
    (cs.release j).1.Stands i c k :=
  h.releaseList [j] [] hk

/-- A cell with further owners only loses one of them. -/
theorem release_of_lt (h : 1 < cs.owners i) : ∃ ds, cs.release i = (ds, []) ∧
    Freeing cs ds [] ∧ ∀ j, ds.owners j = cs.owners j - [i].count j := by
  have hl : cs.letGo i = (none, (cs.letGo i).2) := by
    unfold letGo
    rw [if_neg (by omega)]
  refine ⟨(cs.letGo i).2, ?_, freeing_letGo hl, owners_letGo hl⟩
  rw [release, releaseList_of_none hl, releaseList]
  rfl

end ChurchStore.Cells
