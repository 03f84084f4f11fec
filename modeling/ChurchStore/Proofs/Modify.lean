import Mathlib.Logic.Basic

/-!
# Changing one entry of an array

Stores keep what belongs to each of their evaluators in one entry of an array, and closures in the
entries of another one. These lemmas say when two ways of changing an entry come to the same.
-/

namespace ChurchStore.Modify

variable {α : Type} {xs : Array α} {i : Nat} {f g : α → α} {a : α}

theorem getD_modify (h : i < xs.size) (f : α → α) (d : α) :
    ((xs.modify i f)[i]?).getD d = f ((xs[i]?).getD d) := by
  rw [Array.getElem?_modify, if_pos rfl, Array.getElem?_eq_getElem h]
  rfl

/-- What matters of a change is what it does to the entry that is there. -/
theorem modify_congr (h : ∀ a, xs[i]? = some a → f a = g a) : xs.modify i f = xs.modify i g := by
  refine Array.ext_getElem? fun j => ?_
  rw [Array.getElem?_modify, Array.getElem?_modify]
  by_cases hij : i = j
  · subst hij
    rw [if_pos rfl, if_pos rfl]
    exact Option.map_congr fun a ha => h a ha
  · rw [if_neg hij, if_neg hij]

theorem modify_id (xs : Array α) (i : Nat) : xs.modify i id = xs := by
  refine Array.ext_getElem? fun j => ?_
  rw [Array.getElem?_modify]
  split
  · rw [Option.map_id_fun, id]
  · rfl

theorem modify_eq_self (h : ∀ a, xs[i]? = some a → f a = a) : xs.modify i f = xs := by
  rw [modify_congr (g := id) h, modify_id]

theorem modify_modify (xs : Array α) (i : Nat) (f g : α → α) :
    (xs.modify i f).modify i g = xs.modify i fun a => g (f a) := by
  refine Array.ext_getElem? fun j => ?_
  simp only [Array.getElem?_modify]
  by_cases hij : i = j
  · subst hij
    simp only [if_pos, Option.map_map]
    rfl
  · simp only [if_neg hij]

/-- To change the last entry is to put another one there. -/
theorem modify_push_size (xs : Array α) (a : α) (f : α → α) :
    (xs.push a).modify xs.size f = xs.push (f a) := by
  refine Array.ext_getElem? fun j => ?_
  rw [Array.getElem?_modify, Array.getElem?_push, Array.getElem?_push]
  by_cases hj : xs.size = j
  · rw [if_pos hj, if_pos hj.symm, if_pos hj.symm]
    rfl
  · rw [if_neg hj, if_neg (Ne.symm hj), if_neg (Ne.symm hj)]

/-- To change an entry is to set it to what becomes of it. -/
theorem modify_eq_set (h : xs[i]? = some a) (f : α → α) :
    xs.modify i f = xs.setIfInBounds i (f a) := by
  obtain ⟨hi, -⟩ := Array.getElem?_eq_some_iff.1 h
  refine Array.ext_getElem? fun j => ?_
  rw [Array.getElem?_modify, Array.getElem?_setIfInBounds]
  by_cases hij : i = j
  · subst hij
    rw [if_pos rfl, if_pos rfl, if_pos hi, h]
    rfl
  · rw [if_neg hij, if_neg hij]

/-- To set an entry to what it is changes nothing. -/
theorem set_eq_self (h : xs[i]? = some a) : xs.setIfInBounds i a = xs := by
  rw [← modify_eq_set h fun _ => a]
  refine modify_eq_self fun b hb => ?_
  rw [h] at hb
  exact Option.some.inj hb

end ChurchStore.Modify
