import ChurchStore.Proofs.Simulation
import Mathlib.Data.List.Induction

/-!
# Evaluation on related stores

Application and the arithmetic of numerals agree on two stores whose primitive operations agree.
Application is treated by induction on how deep it may still be nested; everything above it follows
the way in which it is put together from applications.
-/

namespace ChurchStore

open Backend

/-- The integer that a numeral counts up to, from `start` by increments; `fold` starts at zero. -/
def Evaluator.countFrom {W H : Type} [Backend W H] (e : Evaluator H) (start : Int64) (n : H) :
    Act W Int64 := do
  let inc ← e.builtin .inc
  let applied ← holding inc (e.apply n inc)
  holding applied do
    let start ← e.int start
    let counted ← holding start (e.apply applied start)
    holding counted (e.toInt counted)

namespace Simulation.Serves

variable {W V H G : Type} [Host W H] [Host V G] {S : Simulation W V} {e : Evaluator H}
  {d : Evaluator G} {lent : Multiset (H × G)} {f x a b n : H × G}

theorem agree_applyWithin (depth : Nat) (hS : S.Serves e d lent) (hf : f ∈ lent) (hx : x ∈ lent) :
    S.Agree 0 lent (e.applyWithin depth f.1 x.1) (d.applyWithin depth f.2 x.2) Handed := by
  induction depth generalizing lent f x with
  | zero => exact Agree.throw .nestingLimit rfl
  | succ depth ih =>
    refine Agree.bind (hS.agree_resolve hf) ?_
    rintro _ _ _ ⟨c, rfl, rfl, rfl⟩
    cases c with
    | zero => exact hS.agree_builtin .zeroInner
    | zeroInner => exact Agree.clone_lent hx
    | succ =>
      refine Agree.bind (Agree.clone (Multiset.mem_add.2 (.inr hx))) ?_
      rintro _ _ _ ⟨rfl, rfl⟩
      exact hS.agree_alloc (.succPartial _) rfl
    | succPartial n =>
      refine Agree.bind (Agree.clone (Multiset.mem_add.2 (.inr hx))) ?_
      rintro _ _ _ ⟨rfl, rfl⟩
      exact hS.agree_alloc (.succInner n _) (Multiset.coe_eq_coe.2 (.swap ..))
    | succInner n s =>
      -- The captures `n` and `s` are lent to the three applications, and so is each result.
      change S.Agree (n ::ₘ s ::ₘ 0) lent _ _ _
      refine Agree.holding n (Agree.holding s ?_)
      have hS' := (hS.cons n).cons s
      refine Agree.bind (ih hS' (by simp) (by simp)) ?_
      rintro ns₁ ns₂ _ rfl
      refine Agree.holding (ns₁, ns₂) ?_
      refine Agree.bind (ih (hS'.cons _) (Multiset.mem_cons_self ..) (by simp [hx])) ?_
      rintro nsx₁ nsx₂ _ rfl
      exact Agree.holding (nsx₁, nsx₂)
        (ih ((hS'.cons _).cons _) (by simp) (Multiset.mem_cons_self ..))
    | intLiteral value => exact Agree.violate _ rfl
    | inc =>
      refine Agree.bind (hS.agree_toInt hx) ?_
      rintro value _ _ ⟨rfl, rfl⟩
      split
      · exact Agree.violate _ rfl
      · exact hS.agree_int _

theorem agree_apply (hS : S.Serves e d lent) (hf : f ∈ lent) (hx : x ∈ lent) :
    S.Agree 0 lent (e.apply f.1 x.1) (d.apply f.2 x.2) Handed := by
  rw [Evaluator.apply, Evaluator.apply, hS.nesting]
  exact hS.agree_applyWithin _ hf hx

theorem agree_successor (hS : S.Serves e d lent) (hn : n ∈ lent) :
    S.Agree 0 lent (e.successor n.1) (d.successor n.2) Handed := by
  refine Agree.bind (hS.agree_builtin .succ) ?_
  rintro s₁ s₂ _ rfl
  exact Agree.holding (s₁, s₂)
    ((hS.cons _).agree_apply (Multiset.mem_cons_self ..) (Multiset.mem_cons_of_mem hn))

theorem agree_successors (hS : S.Serves e d lent) (k : Nat) (n : H × G) :
    S.Agree {n} lent (e.successors k n.1) (d.successors k n.2) Handed := by
  induction k generalizing n with
  | zero => exact Agree.pure rfl
  | succ k ih =>
    have hnext := (hS.cons n).agree_successor (Multiset.mem_cons_self n lent)
    refine Agree.bind (Agree.holding n hnext) ?_
    rintro next₁ next₂ _ rfl
    exact ih (next₁, next₂)

theorem agree_numeral (hS : S.Serves e d lent) (k : Nat) :
    S.Agree 0 lent (e.numeral k) (d.numeral k) Handed := by
  refine Agree.bind (hS.agree_builtin .zero) ?_
  rintro zero₁ zero₂ _ rfl
  exact hS.agree_successors k (zero₁, zero₂)

/-- The next entry of a table, the first one if there is none yet. -/
theorem agree_nextEntry (l : List (H × G)) (hS : S.Serves e d (l + lent)) :
    S.Agree 0 (l + lent)
      (match (l.map Prod.fst).toArray.back? with
        | some last => e.successor last
        | none => e.builtin .zero)
      (match (l.map Prod.snd).toArray.back? with
        | some last => d.successor last
        | none => d.builtin .zero) Handed := by
  induction l using List.reverseRecOn with
  | nil => exact hS.agree_builtin .zero
  | append_singleton l last _ =>
    simp only [List.map_append, List.map_cons, List.map_nil, List.back?_toArray,
      List.getLast?_concat]
    exact hS.agree_successor (by simp)

/-- The table that is being extended is owned, and given back entry by entry after a fault. -/
theorem agree_extendTable (hS : S.Serves e d lent) (k : Nat) (l : List (H × G)) :
    S.Agree l lent (e.extendTable k (l.map Prod.fst).toArray)
      (d.extendTable k (l.map Prod.snd).toArray) Tabled := by
  induction k generalizing l with
  | zero => exact Agree.pure ⟨l, rfl, rfl, rfl⟩
  | succ k ih =>
    have hnext := Agree.onFault_releaseAll l
      (agree_nextEntry l (hS.mono (Multiset.subset_of_le (Multiset.le_add_left lent l))))
    rw [Multiset.add_zero] at hnext
    refine Agree.bind hnext ?_
    rintro a b _ ⟨_, rfl, rfl⟩
    simpa [← Multiset.coe_add] using ih (l ++ [(a, b)])

theorem agree_numerals (hS : S.Serves e d lent) (count : Nat) :
    S.Agree 0 lent (e.numerals count) (d.numerals count) Tabled := by
  unfold Evaluator.numerals
  rw [S.handleBytes_eq]
  split
  · exact hS.agree_extendTable count []
  · exact Agree.throw .capacityOverflow rfl

theorem agree_countFrom (hS : S.Serves e d lent) (start : Int64) (hn : n ∈ lent) :
    S.Agree 0 lent (e.countFrom start n.1) (d.countFrom start n.2) Shown := by
  refine Agree.bind (hS.agree_builtin .inc) ?_
  rintro inc₁ inc₂ _ rfl
  refine Agree.bind (Agree.holding (inc₁, inc₂)
    ((hS.cons _).agree_apply (Multiset.mem_cons_of_mem hn) (Multiset.mem_cons_self ..))) ?_
  rintro applied₁ applied₂ _ rfl
  refine Agree.holding (applied₁, applied₂) ?_
  have hS' := hS.cons (applied₁, applied₂)
  refine Agree.bind (hS'.agree_int start) ?_
  rintro start₁ start₂ _ rfl
  have happlied : (applied₁, applied₂) ∈ (start₁, start₂) ::ₘ (applied₁, applied₂) ::ₘ lent := by
    simp
  refine Agree.bind (Agree.holding (start₁, start₂)
    ((hS'.cons _).agree_apply happlied (Multiset.mem_cons_self ..))) ?_
  rintro counted₁ counted₂ _ rfl
  exact Agree.holding (counted₁, counted₂)
    ((hS'.cons _).agree_toInt (Multiset.mem_cons_self ..))

theorem agree_fold (hS : S.Serves e d lent) (hn : n ∈ lent) :
    S.Agree 0 lent (e.fold n.1) (d.fold n.2) Shown :=
  hS.agree_countFrom 0 hn

theorem agree_pow (hS : S.Serves e d lent) (ha : a ∈ lent) (hb : b ∈ lent) :
    S.Agree 0 lent (e.pow a.1 b.1) (d.pow a.2 b.2) Shown := by
  refine Agree.bind (hS.agree_apply hb ha) ?_
  rintro power₁ power₂ _ rfl
  exact Agree.holding (power₁, power₂) ((hS.cons _).agree_fold (Multiset.mem_cons_self ..))

theorem agree_plus (hS : S.Serves e d lent) (ha : a ∈ lent) (hb : b ∈ lent) :
    S.Agree 0 lent (e.plus a.1 b.1) (d.plus a.2 b.2) Handed := by
  refine Agree.bind (hS.agree_builtin .succ) ?_
  rintro succ₁ succ₂ _ rfl
  refine Agree.holding (succ₁, succ₂) ?_
  have hS' := hS.cons (succ₁, succ₂)
  refine Agree.bind (hS'.agree_apply (Multiset.mem_cons_of_mem ha) (Multiset.mem_cons_self ..)) ?_
  rintro add₁ add₂ _ rfl
  exact Agree.holding (add₁, add₂)
    ((hS'.cons _).agree_apply (Multiset.mem_cons_self ..) (by simp [hb]))

/-- The function that adds `b` is owned between the two applications of it, the first of which
gives it back only after a fault. -/
theorem agree_mul (hS : S.Serves e d lent) (ha : a ∈ lent) (hb : b ∈ lent) :
    S.Agree 0 lent (e.mul a.1 b.1) (d.mul a.2 b.2) Handed := by
  refine Agree.bind (hS.agree_builtin .succ) ?_
  rintro succ₁ succ₂ _ rfl
  refine Agree.bind (Agree.holding (succ₁, succ₂)
    ((hS.cons _).agree_apply (Multiset.mem_cons_of_mem hb) (Multiset.mem_cons_self ..))) ?_
  rintro addB₁ addB₂ _ rfl
  refine Agree.bind (Agree.onFault (addB₁, addB₂)
    ((hS.cons _).agree_apply (Multiset.mem_cons_of_mem ha) (Multiset.mem_cons_self ..))) ?_
  rintro iterated₁ iterated₂ _ ⟨_, rfl, rfl⟩
  have howned : (addB₁, addB₂) ::ₘ {(iterated₁, iterated₂)} =
      (iterated₁, iterated₂) ::ₘ (addB₁, addB₂) ::ₘ 0 := Multiset.cons_swap ..
  rw [howned]
  refine Agree.holding (iterated₁, iterated₂) ?_
  have hS' := hS.cons (iterated₁, iterated₂)
  refine Agree.bind (Agree.clone (Multiset.mem_add.2 (.inr (hS'.builtin .zero)))) ?_
  rintro zero₁ zero₂ _ ⟨hzero, rfl⟩
  rw [← hzero]
  refine Agree.holding (zero₁, zero₂) (Agree.holding (addB₁, addB₂) ?_)
  have hiterated : (iterated₁, iterated₂) ∈
      (addB₁, addB₂) ::ₘ (zero₁, zero₂) ::ₘ (iterated₁, iterated₂) ::ₘ lent := by
    simp
  have hzeroMem : (zero₁, zero₂) ∈
      (addB₁, addB₂) ::ₘ (zero₁, zero₂) ::ₘ (iterated₁, iterated₂) ::ₘ lent := by
    simp
  exact ((hS'.cons _).cons _).agree_apply hiterated hzeroMem

end Simulation.Serves

end ChurchStore
