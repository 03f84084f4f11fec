import ChurchStore.Cells
import ChurchStore.Proofs.Modify

/-!
# Changes of single cells

Every operation on counted cells replaces one cell or adds one at the end. For both this module
says what becomes of the closures, of the owners, of the captures of all cells together and of the
number of closures of each kind.
-/

namespace ChurchStore

namespace Cell

/-- The positions that the closure of a cell captures. -/
def captures (c : Cell) : List Nat := (c.closure.map Closure.captures).getD []

/-- Whether a cell holds a closure of this kind. -/
def holds (k : Kind) (c : Cell) : Bool := c.closure.map Closure.kind = some k

@[simp]
theorem captures_empty : empty.captures = [] := rfl

@[simp]
theorem captures_some (n : Nat) (c : Closure Nat) : (Cell.mk n (some c)).captures = c.captures :=
  rfl

@[simp]
theorem holds_empty (k : Kind) : empty.holds k = false := by simp [holds, empty]

@[simp]
theorem holds_some (k : Kind) (n : Nat) (c : Closure Nat) :
    (Cell.mk n (some c)).holds k = decide (c.kind = k) := by simp [holds]

end Cell

namespace Cells

/-- The positions that closures in the cells capture, as often as they are captured. -/
def captured (cs : Cells) : List Nat := cs.toArray.toList.flatMap Cell.captures

/-- The number of closures of a kind. -/
def census (cs : Cells) (k : Kind) : Nat := cs.toArray.toList.countP (Cell.holds k)

variable {cs : Cells} {i j : Nat} {old c : Cell}

theorem lt_size (h : cs.toArray[i]? = some old) : i < cs.size :=
  (Array.getElem?_eq_some_iff.1 h).1

theorem exists_cell_of_lt (h : i < cs.size) : ∃ cell, cs.toArray[i]? = some cell :=
  ⟨_, Array.getElem?_eq_getElem h⟩

theorem closure?_eq (h : cs.toArray[i]? = some old) : cs.closure? i = old.closure := by
  rw [closure?, h]
  rfl

theorem owners_eq (h : cs.toArray[i]? = some old) : cs.owners i = old.owners := by
  rw [owners, h]
  rfl

theorem exists_cell_of_closure? {c : Closure Nat} (h : cs.closure? i = some c) :
    ∃ n, cs.toArray[i]? = some ⟨n, some c⟩ := by
  obtain ⟨⟨n, o⟩, hcell, rfl⟩ := Option.bind_eq_some_iff.1 h
  exact ⟨n, hcell⟩

theorem closure?_of_size_le (h : cs.size ≤ i) : cs.closure? i = none := by
  rw [closure?, Array.getElem?_eq_none h]
  rfl

/-- Only cells that exist hold closures. -/
theorem lt_size_of_isSome (h : (cs.closure? i).isSome) : i < cs.size := by
  refine Nat.lt_of_not_le fun hle => ?_
  rw [closure?_of_size_le hle] at h
  cases h

theorem owners_of_size_le (h : cs.size ≤ i) : cs.owners i = 0 := by
  rw [owners, Array.getElem?_eq_none h]
  rfl

theorem mem_captured : j ∈ cs.captured ↔ ∃ i c, cs.closure? i = some c ∧ j ∈ c.captures := by
  constructor
  · intro h
    obtain ⟨⟨n, o⟩, hcell, hj⟩ := List.mem_flatMap.1 h
    obtain ⟨i, hi⟩ := List.mem_iff_getElem?.1 hcell
    cases o with
    | none => cases hj
    | some c => exact ⟨i, c, closure?_eq (by simpa using hi), hj⟩
  · rintro ⟨i, c, hc, hj⟩
    obtain ⟨n, hcell⟩ := exists_cell_of_closure? hc
    exact List.mem_flatMap.2 ⟨_, Array.mem_toList_iff.2 (Array.mem_of_getElem? hcell), hj⟩

/-! ### Replacing a cell -/

@[simp]
theorem size_put : (cs.put i c).size = cs.size := by simp [size, put]

theorem getElem?_put (h : i < cs.size) :
    (cs.put i c).toArray[j]? = if j = i then some c else cs.toArray[j]? := by
  rw [put, Array.getElem?_setIfInBounds]
  by_cases hij : i = j
  · subst hij
    simp [show i < cs.toArray.size from h]
  · simp [hij, Ne.symm hij]

theorem closure?_put (h : i < cs.size) :
    (cs.put i c).closure? j = if j = i then c.closure else cs.closure? j := by
  rw [closure?, getElem?_put h]
  split <;> rfl

theorem owners_put (h : i < cs.size) :
    (cs.put i c).owners j = if j = i then c.owners else cs.owners j := by
  rw [owners, getElem?_put h]
  split <;> rfl

theorem toList_put (h : cs.toArray[i]? = some old) (c : Cell) : ∃ before after,
    cs.toArray.toList = before ++ old :: after ∧
      (cs.put i c).toArray.toList = before ++ c :: after := by
  obtain ⟨hi, hget⟩ := Array.getElem?_eq_some_iff.1 h
  obtain ⟨before, after, hl, -, hset⟩ :=
    @List.exists_of_set _ i c cs.toArray.toList (by simpa using hi)
  rw [Array.getElem_toList, hget] at hl
  exact ⟨before, after, hl, by rw [put, Array.toList_setIfInBounds, hset]⟩

theorem count_captured_put (h : cs.toArray[i]? = some old) (c : Cell) (j : Nat) :
    (cs.put i c).captured.count j + old.captures.count j =
      cs.captured.count j + c.captures.count j := by
  obtain ⟨before, after, hl, hset⟩ := toList_put h c
  simp only [captured, hl, hset, List.flatMap_append, List.flatMap_cons, List.count_append]
  omega

theorem census_put (h : cs.toArray[i]? = some old) (c : Cell) (k : Kind) :
    (cs.put i c).census k + (if old.holds k then 1 else 0) =
      cs.census k + if c.holds k then 1 else 0 := by
  obtain ⟨before, after, hl, hset⟩ := toList_put h c
  simp only [census, hl, hset, List.countP_append, List.countP_cons]
  omega

/-! ### Adding a cell -/

@[simp]
theorem size_push : (cs.push c).size = cs.size + 1 := by simp [size, push]

theorem closure?_push :
    (cs.push c).closure? j = if j = cs.size then c.closure else cs.closure? j := by
  rw [closure?, push, Array.getElem?_push, size]
  split <;> rfl

theorem owners_push : (cs.push c).owners j = if j = cs.size then c.owners else cs.owners j := by
  rw [owners, push, Array.getElem?_push, size]
  split <;> rfl

theorem count_captured_push (c : Cell) (j : Nat) :
    (cs.push c).captured.count j = cs.captured.count j + c.captures.count j := by
  simp [captured, push, List.count_append]

theorem census_push (c : Cell) (k : Kind) :
    (cs.push c).census k = cs.census k + if c.holds k then 1 else 0 := by
  simp [census, push, List.countP_append, List.countP_cons]

/-! ### Changing only the number of owners -/

variable {m n : Nat} {x : Closure Nat}

theorem closure?_acquire (cs : Cells) (i j : Nat) : (cs.acquire i).closure? j = cs.closure? j := by
  rw [closure?, closure?, acquire, Array.getElem?_modify]
  split
  · cases cs.toArray[j]? <;> rfl
  · rfl

/-- Further owners change nothing about the closures. -/
theorem foldl_acquire (cs : Cells) (l : List Nat) : (l.foldl acquire cs).size = cs.size ∧
    ∀ j, (l.foldl acquire cs).closure? j = cs.closure? j := by
  induction l generalizing cs with
  | nil => exact ⟨rfl, fun _ => rfl⟩
  | cons i l ih =>
    obtain ⟨hsize, hclosure⟩ := ih (cs.acquire i)
    have hacquire : (cs.acquire i).size = cs.size := by simp [size, acquire]
    exact ⟨hsize.trans hacquire, fun j => (hclosure j).trans (closure?_acquire cs i j)⟩

theorem acquire_eq_put (h : cs.toArray[i]? = some old) :
    cs.acquire i = cs.put i { old with owners := old.owners + 1 } := by
  rw [acquire, put, Modify.modify_eq_set h]

theorem letGo_of_one (h : cs.toArray[i]? = some ⟨1, some x⟩) :
    cs.letGo i = (some x, cs.put i Cell.empty) := by
  rw [letGo, owners_eq h, if_pos (Nat.le_refl 1), closure?_eq h]

theorem letGo_of_more (h : cs.toArray[i]? = some ⟨n + 2, some x⟩) :
    cs.letGo i = (none, cs.put i ⟨n + 1, some x⟩) := by
  have hmore : ¬ n + 2 ≤ 1 := by omega
  rw [letGo, owners_eq h, if_neg hmore, put, Modify.modify_eq_set h]
  rfl

theorem closure?_recount (h : cs.toArray[i]? = some ⟨n, some x⟩) :
    (cs.put i ⟨m, some x⟩).closure? j = cs.closure? j := by
  rw [closure?_put (lt_size h)]
  split
  · subst_vars
    rw [closure?_eq h]
  · rfl

theorem count_captured_recount (h : cs.toArray[i]? = some ⟨n, some x⟩) (m j : Nat) :
    (cs.put i ⟨m, some x⟩).captured.count j = cs.captured.count j :=
  Nat.add_right_cancel (count_captured_put h ⟨m, some x⟩ j)

theorem census_recount (h : cs.toArray[i]? = some ⟨n, some x⟩) (m : Nat) (k : Kind) :
    (cs.put i ⟨m, some x⟩).census k = cs.census k :=
  Nat.add_right_cancel (census_put h ⟨m, some x⟩ k)

end Cells

end ChurchStore
