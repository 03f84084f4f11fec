import ChurchStore.Session
import Mathlib.Data.Multiset.MapFold

/-!
# Variables of a session

What a map of variables holds, as a multiset: a variable that is set takes the place of what it
held before, and a variable that is removed gives back what it held.
-/

namespace ChurchStore.Session

variable {α β : Type}

theorem nodup_toList (t : Std.TreeMap Name α) : t.toList.Nodup := by
  refine t.distinct_keys_toList.imp ?_
  rintro a b hab rfl
  exact hab Std.ReflCmp.compare_self

theorem perm_toList_of_getElem? {t : Std.TreeMap Name α} {l : List (Name × α)} (hl : l.Nodup)
    (h : ∀ k a, t[k]? = some a ↔ (k, a) ∈ l) : t.toList.Perm l := by
  rw [List.perm_ext_iff_of_nodup (nodup_toList t) hl]
  rintro ⟨k, a⟩
  rw [Std.TreeMap.mem_toList_iff_getElem?_eq_some, h]

theorem values_eq_map_toList (t : Std.TreeMap Name α) : t.values = t.toList.map Prod.snd := by
  change t.inner.inner.values = (Std.DTreeMap.Internal.Impl.Const.toList _).map _
  rw [Std.DTreeMap.Internal.Impl.values_eq_map_snd,
    Std.DTreeMap.Internal.Impl.Const.toList_eq_toListModel_map]
  simp [Function.comp_def]

theorem notMem_toList_erase (t : Std.TreeMap Name α) (k : Name) (a : α) :
    (k, a) ∉ (t.erase k).toList := by
  simp [Std.TreeMap.mem_toList_iff_getElem?_eq_some]

theorem mem_toList_erase {t : Std.TreeMap Name α} {k l : Name} {a : α} :
    (l, a) ∈ (t.erase k).toList ↔ k ≠ l ∧ t[l]? = some a := by
  rw [Std.TreeMap.mem_toList_iff_getElem?_eq_some, Std.TreeMap.getElem?_erase]
  by_cases h : k = l <;> simp [h]

/-- A variable that is set holds the new value beside those of the others. -/
theorem values_insert (t : Std.TreeMap Name α) (k : Name) (a : α) :
    ((t.insert k a).values : Multiset α) = a ::ₘ (t.erase k).values := by
  have hperm : (t.insert k a).toList.Perm ((k, a) :: (t.erase k).toList) := by
    refine perm_toList_of_getElem?
      (List.nodup_cons.2 ⟨notMem_toList_erase t k a, nodup_toList _⟩) fun l b => ?_
    rw [List.mem_cons, mem_toList_erase, Std.TreeMap.getElem?_insert]
    by_cases h : k = l
    · subst h
      simp [eq_comm]
    · simp [h, Ne.symm h]
  rw [values_eq_map_toList, values_eq_map_toList, Multiset.cons_coe, Multiset.coe_eq_coe]
  exact hperm.map Prod.snd

/-- What a variable holds is among the values of all variables. -/
theorem values_eq_cons {t : Std.TreeMap Name α} {k : Name} {a : α} (h : t[k]? = some a) :
    (t.values : Multiset α) = a ::ₘ (t.erase k).values := by
  have hperm : t.toList.Perm ((k, a) :: (t.erase k).toList) := by
    refine perm_toList_of_getElem?
      (List.nodup_cons.2 ⟨notMem_toList_erase t k a, nodup_toList _⟩) fun l b => ?_
    rw [List.mem_cons, mem_toList_erase]
    by_cases hl : k = l
    · subst hl
      simp [h, eq_comm]
    · simp [hl, Ne.symm hl]
  rw [values_eq_map_toList, values_eq_map_toList, Multiset.cons_coe, Multiset.coe_eq_coe]
  exact hperm.map Prod.snd

theorem values_erase_of_none {t : Std.TreeMap Name α} {k : Name} (h : t[k]? = none) :
    (t.values : Multiset α) = (t.erase k).values := by
  have hperm : t.toList.Perm (t.erase k).toList := by
    refine perm_toList_of_getElem? (nodup_toList _) fun l b => ?_
    rw [mem_toList_erase]
    by_cases hl : k = l
    · subst hl
      simp [h]
    · simp [hl]
  rw [values_eq_map_toList, values_eq_map_toList, Multiset.coe_eq_coe]
  exact hperm.map Prod.snd

theorem mem_values_of_getElem? {t : Std.TreeMap Name α} {k : Name} {a : α} (h : t[k]? = some a) :
    a ∈ (t.values : Multiset α) := by
  rw [values_eq_cons h]
  exact Multiset.mem_cons_self ..

/-- Variables that hold the images of what other variables hold. -/
theorem values_of_getElem?_map {t : Std.TreeMap Name α} {u : Std.TreeMap Name β} {f : α → β}
    (h : ∀ k : Name, u[k]? = t[k]?.map f) : u.values = t.values.map f := by
  have hequiv : u.Equiv (t.map fun _ => f) :=
    Std.TreeMap.Equiv.of_forall_constGet?_eq fun k => by rw [Std.TreeMap.getElem?_map, h]
  rw [values_eq_map_toList, values_eq_map_toList, hequiv.toList_eq, Std.TreeMap.toList_map]
  simp [Function.comp_def]

end ChurchStore.Session
