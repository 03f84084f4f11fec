import ChurchStore.Closure

/-!
# Counted cells

The memory of the stores that count owners. A cell holds a closure, whose captures are positions
of other cells, and the number of its owners: handles, and captures in occupied cells. Releasing
the last owner empties the cell and then releases what its closure had captured, in order and
depth first. This ends because each emptied cell adds at most two captures to release.
-/

namespace ChurchStore

/-- A place for one closure, with the number of its owners (`Slot` of a pool, `Node` of a heap). -/
structure Cell where
  owners : Nat
  /-- The closure, unless the cell is empty. -/
  closure : Option (Closure Nat)
  deriving DecidableEq, Repr, Inhabited

namespace Cell

/-- The cell that holds nothing. -/
def empty : Cell := ⟨0, none⟩

def isOccupied (c : Cell) : Bool := c.closure.isSome

end Cell

/-- A sequence of cells. -/
structure Cells where
  toArray : Array Cell := #[]
  deriving DecidableEq, Repr, Inhabited

namespace Cells

def size (cs : Cells) : Nat := cs.toArray.size

/-- The closure in a cell, if there is one. -/
def closure? (cs : Cells) (i : Nat) : Option (Closure Nat) := cs.toArray[i]?.bind (·.closure)

/-- The number of owners of a cell. -/
def owners (cs : Cells) (i : Nat) : Nat := (cs.toArray[i]?.map (·.owners)).getD 0

/-- The number of cells that hold a closure. -/
def occupied (cs : Cells) : Nat := cs.toArray.toList.countP Cell.isOccupied

/-- Adds a cell at the end. -/
def push (cs : Cells) (c : Cell) : Cells := ⟨cs.toArray.push c⟩

/-- Replaces a cell. -/
def put (cs : Cells) (i : Nat) (c : Cell) : Cells := ⟨cs.toArray.setIfInBounds i c⟩

/-- Adds an owner. -/
def acquire (cs : Cells) (i : Nat) : Cells :=
  ⟨cs.toArray.modify i fun c => { c with owners := c.owners + 1 }⟩

/-- Removes an owner. If it was the last one, the cell is emptied and its closure returned. -/
def letGo (cs : Cells) (i : Nat) : Option (Closure Nat) × Cells :=
  if cs.owners i ≤ 1 then
    (cs.closure? i, cs.put i Cell.empty)
  else
    (none, ⟨cs.toArray.modify i fun c => { c with owners := c.owners - 1 }⟩)

theorem occupied_modify (cs : Cells) (i : Nat) (f : Cell → Cell)
    (hf : ∀ c, (f c).isOccupied = c.isOccupied) :
    occupied ⟨cs.toArray.modify i f⟩ = cs.occupied := by
  simp only [occupied, Array.toList_modify]
  by_cases hi : i < cs.toArray.toList.length
  · obtain ⟨before, c, after, h, -, hm⟩ := List.exists_of_modify f hi
    rw [hm, h]
    simp [List.countP_cons, hf]
  · rw [List.modify_eq_self (by omega)]

/-- Emptying an occupied cell leaves one occupied cell less. -/
theorem occupied_put_empty {cs : Cells} {i : Nat} {c : Closure Nat} (h : cs.closure? i = some c) :
    (cs.put i Cell.empty).occupied + 1 = cs.occupied := by
  obtain ⟨cell, hcell, hc⟩ := Option.bind_eq_some_iff.1 h
  obtain ⟨hi, hget⟩ := Array.getElem?_eq_some_iff.1 hcell
  obtain ⟨before, after, hl, -, hset⟩ :=
    @List.exists_of_set _ i Cell.empty cs.toArray.toList (by simpa using hi)
  have hget' : cs.toArray.toList[i] = cell := by simpa using hget
  rw [hget'] at hl
  simp only [occupied, put, Array.toList_setIfInBounds, hset]
  rw [hl]
  simp [Cell.isOccupied, Cell.empty, hc]
  omega

theorem occupied_letGo_some {cs ds : Cells} {i : Nat} {c : Closure Nat}
    (h : cs.letGo i = (some c, ds)) : ds.occupied + 1 = cs.occupied := by
  unfold letGo at h
  split at h
  · obtain ⟨hc, rfl⟩ := Prod.mk.inj h
    exact occupied_put_empty hc
  · cases h

theorem occupied_letGo_none {cs ds : Cells} {i : Nat} (h : cs.letGo i = (none, ds)) :
    ds.occupied ≤ cs.occupied := by
  unfold letGo at h
  split at h
  · obtain ⟨-, rfl⟩ := Prod.mk.inj h
    by_cases hi : i < cs.toArray.toList.length
    · obtain ⟨before, after, hl, -, hset⟩ := @List.exists_of_set _ i Cell.empty _ hi
      simp only [occupied, put, Array.toList_setIfInBounds, hset]
      rw [hl]
      simp [Cell.isOccupied, Cell.empty, List.countP_cons]
    · simp only [occupied, put, Array.toList_setIfInBounds]
      exact Nat.le_of_eq (by rw [List.set_eq_of_length_le (by omega)])
  · obtain ⟨-, rfl⟩ := Prod.mk.inj h
    exact Nat.le_of_eq (occupied_modify cs i _ fun _ => rfl)

/-- A cell that was emptied, with the kind of the closure that it held. -/
structure Freed where
  cell : Nat
  kind : Kind
  deriving DecidableEq, Repr, Inhabited

/-- Removes one owner from each listed cell in turn, and the captures of what that empties before
the rest of the list. The emptied cells are put in front of `freed`, the last one first. -/
def releaseList (cs : Cells) (work : List Nat) (freed : List Freed) : Cells × List Freed :=
  match work with
  | [] => (cs, freed)
  | i :: rest =>
    match _h : cs.letGo i with
    | (none, ds) => releaseList ds rest freed
    | (some c, ds) => releaseList ds (c.captures ++ rest) (⟨i, c.kind⟩ :: freed)
termination_by 2 * cs.occupied + work.length
decreasing_by
  · have := occupied_letGo_none ‹_›
    simp only [List.length_cons]
    omega
  · have := occupied_letGo_some ‹_›
    have := c.length_captures_le
    simp only [List.length_append, List.length_cons]
    omega

/-- Removes an owner of a cell, and returns the cells that this emptied in the order in which they
were emptied. -/
def release (cs : Cells) (i : Nat) : Cells × List Freed :=
  let (ds, freed) := cs.releaseList [i] []
  (ds, freed.reverse)

end Cells

end ChurchStore
