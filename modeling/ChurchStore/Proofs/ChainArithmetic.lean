import ChurchStore.Proofs.Church

/-!
# Arithmetic on chains

The numerals that evaluators build are chains of successors of zero, and so are the sums and
products of such chains. With enough room for nesting an evaluator of the bare store reckons
correctly with all chains up to a given length.
-/

namespace ChurchStore

/-- The chain of `k` successors of zero. -/
def Value.church : Nat → Value
  | 0 => .node .zero
  | k + 1 => .node (.succPartial (church k))

namespace Bare

open Value

variable {w : Bare}

theorem counts_church (w : Bare) (k : Nat) : Counts w k (church k) := by
  induction k with
  | zero => exact .zero w
  | succ k ih => exact ih.succPartial

theorem iterates_succ (w : Bare) (n k : Nat) :
    Iterates w (.node .succ) k (church n) (.ok (church (n + k))) := by
  induction k generalizing n with
  | zero => exact .done _
  | succ k ih =>
    have h := ih (n + 1)
    rw [Nat.succ_add] at h
    exact .step (applies_succ w _) h

theorem comes_successor (w : Bare) (k : Nat) :
    Comes w (fun depth => (evaluator depth).successor (church k)) (.ok (church (k + 1))) := by
  simp only [Evaluator.successor, builtin_eq, pure_bind, holding_eq]
  exact applies_succ w (church k)

theorem comes_numeral (w : Bare) (k : Nat) :
    Comes w (fun depth => (evaluator depth).numeral k) (.ok (church k)) := by
  have h := iterates_succ w 0 k
  rw [Nat.zero_add] at h
  simp only [Evaluator.numeral, builtin_eq, pure_bind,
    Counts.successors_eq_replace (evaluator _) rfl]
  exact h.comes

theorem comes_plus (w : Bare) (a b : Nat) :
    Comes w (fun depth => (evaluator depth).plus (church a) (church b)) (.ok (church (a + b))) := by
  rw [Nat.add_comm]
  exact (counts_church w a).comes_plus (iterates_succ w b a)

/-- Iterating the function that adds `n`. -/
theorem iterates_add {add : Value} {n : Nat} (hadd : Acts w n (.node .succ) add) (a k : Nat) :
    Iterates w add k (church a) (.ok (church (a + k * n))) := by
  induction k generalizing a with
  | zero =>
    rw [Nat.zero_mul]
    exact .done _
  | succ k ih =>
    have h := ih (a + n)
    rw [Nat.add_assoc, Nat.add_comm n, ← Nat.succ_mul] at h
    exact .step (hadd _ _ (iterates_succ w a n)) h

theorem comes_mul (w : Bare) (a b : Nat) :
    Comes w (fun depth => (evaluator depth).mul (church a) (church b)) (.ok (church (a * b))) := by
  obtain ⟨add, hadd, hacts⟩ := counts_church w b (.node .succ)
  have hproduct := iterates_add hacts 0 a
  rw [Nat.zero_add] at hproduct
  exact (counts_church w a).comes_mul hadd hproduct

/-- The table of the first numerals. -/
def table (count : Nat) : Array Value := ((List.range count).map church).toArray

theorem table_toList (count : Nat) : (table count).toList = (List.range count).map church := rfl

theorem table_push (k : Nat) : (table k).push (church k) = table (k + 1) := by
  simp [table, List.range_succ]

theorem onFault_releaseAll_eq {α : Type} (vs : List Value) (op : Act Bare α) :
    Act.onFault (fun w => Backend.releaseAll vs w) op = op := by
  have hnone (w : Bare) : Backend.releaseAll vs w = w := by
    induction vs with
    | nil => rfl
    | cons v vs ih => exact ih
  funext m
  simp only [Act.onFault, hnone]
  cases op m <;> rfl

/-- Each entry of a table is the successor of the one before it. -/
theorem comes_extendTable (w : Bare) (start k : Nat) :
    Comes w (fun depth => (evaluator depth).extendTable k (table start))
      (.ok (table (start + k))) := by
  induction k generalizing start with
  | zero => exact .pure _
  | succ k ih =>
    have h := ih (start + 1)
    rw [Nat.succ_add] at h
    simp only [Evaluator.extendTable, onFault_releaseAll_eq]
    refine Comes.bind (a := church start) ?_ ?_
    · cases start with
      | zero => exact .pure (church 0)
      | succ start =>
        simp only [table, List.back?_toArray, List.range_succ, List.map_append, List.map_cons,
          List.map_nil, List.getLast?_concat]
        exact comes_successor w start
    · simp only [table_push]
      exact h

/-- With the given bound on nesting, reckoning with chains up to a length gives the chains and
numbers that it should. -/
structure Reckons (w : Bare) (length depth : Nat) : Prop where
  numeral {k : Nat} : k ≤ length → Concludes w ((evaluator depth).numeral k) (.ok (church k))
  extendTable {k : Nat} : k ≤ length →
    Concludes w ((evaluator depth).extendTable k #[]) (.ok (table k))
  fold {k : Nat} : k ≤ length → Concludes w ((evaluator depth).fold (church k)) (counted 0 k)
  pow {a b : Nat} : a ≤ length → b ≤ length →
    Concludes w ((evaluator depth).pow (church a) (church b)) (counted 0 (a ^ b))
  plus {a b : Nat} : a ≤ length → b ≤ length →
    Concludes w ((evaluator depth).plus (church a) (church b)) (.ok (church (a + b)))
  mul {a b : Nat} : a ≤ length → b ≤ length →
    Concludes w ((evaluator depth).mul (church a) (church b)) (.ok (church (a * b)))

/-- What comes for each number comes for all numbers up to a bound together. -/
theorem eventually_forall_le {P : Nat → Nat → Prop} (h : ∀ k, ∀ᶠ depth in Filter.atTop, P depth k)
    (length : Nat) : ∀ᶠ depth in Filter.atTop, ∀ k, k ≤ length → P depth k := by
  have hall := eventually_forall_mem (l := List.range (length + 1)) fun k _ => h k
  filter_upwards [hall] with depth hdepth k hk
  exact hdepth k (List.mem_range.2 (Nat.lt_succ_of_le hk))

theorem eventually_reckons (w : Bare) (length : Nat) :
    ∀ᶠ depth in Filter.atTop, Reckons w length depth := by
  have htable (k : Nat) := comes_extendTable w 0 k
  simp only [Nat.zero_add] at htable
  filter_upwards [eventually_forall_le (comes_numeral w) length,
    eventually_forall_le htable length,
    eventually_forall_le (fun k => (counts_church w k).comes_countFrom 0) length,
    eventually_forall_le (fun a => eventually_forall_le
      (fun b => (counts_church w b).comes_pow (counts_church w a)) length) length,
    eventually_forall_le (fun a => eventually_forall_le (comes_plus w a) length) length,
    eventually_forall_le (fun a => eventually_forall_le (comes_mul w a) length) length]
    with depth hnumeral htable hfold hpow hplus hmul
  exact ⟨fun hk => hnumeral _ hk, fun hk => htable _ hk, fun hk => hfold _ hk,
    fun ha hb => hpow _ ha _ hb, fun ha hb => hplus _ ha _ hb, fun ha hb => hmul _ ha _ hb⟩

end Bare

end ChurchStore
