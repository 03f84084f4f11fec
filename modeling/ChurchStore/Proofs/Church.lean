import ChurchStore.Proofs.ValueStore
import Mathlib.Algebra.Group.Nat.Defs

/-!
# Numerals count

A value counts to `n` if its application to any function `s` answers, with a value whose application
to any `z` has the outcome of applying `s` to `z` exactly `n` times. So it says what a numeral does,
whatever closure it is: the powers of numerals are not made of successors. Sums, products and powers
of values that count are such values again, and hence so is what an arithmetic term is built into.
-/

namespace ChurchStore

/-- The number that a term stands for, if it is put together from zero and numerals by successors,
sums, products and powers. A power is the application of its exponent to its base. -/
def Term.number? : Term → Option Nat
  | builtin .zero => some 0
  | numeral k => some k
  | successor t => return (← number? t) + 1
  | plus a b => return (← number? a) + (← number? b)
  | mul a b => return (← number? a) * (← number? b)
  | app f x => return (← number? x) ^ (← number? f)
  | _ => none

/-- What holds of zero and of numerals, and of successors, sums, products and powers if it holds of
their parts, holds of all terms that stand for a number. -/
theorem Term.number?_induction {motive : Term → Nat → Prop} (zero : motive (.builtin .zero) 0)
    (numeral : ∀ k, motive (.numeral k) k)
    (successor : ∀ {t : Term} {n : Nat}, motive t n → motive (.successor t) (n + 1))
    (plus : ∀ {f x : Term} {a b : Nat}, motive f a → motive x b → motive (.plus f x) (a + b))
    (mul : ∀ {f x : Term} {a b : Nat}, motive f a → motive x b → motive (.mul f x) (a * b))
    (power : ∀ {f x : Term} {a b : Nat}, motive f a → motive x b → motive (.app f x) (b ^ a))
    {t : Term} {n : Nat} (h : t.number? = some n) : motive t n := by
  induction t generalizing n with
  | int value => cases h
  | builtin b =>
    cases b with
    | zero =>
      cases h
      exact zero
    | zeroInner | succ | inc => cases h
  | numeral k =>
    cases h
    exact numeral k
  | successor t ih =>
    obtain ⟨k, hk, rfl⟩ : ∃ k, t.number? = some k ∧ k + 1 = n := by
      simpa [number?, Option.bind_eq_some_iff] using h
    exact successor (ih hk)
  | app f x ihf ihx =>
    obtain ⟨b, hb, a, ha, rfl⟩ : ∃ b, x.number? = some b ∧ ∃ a, f.number? = some a ∧ b ^ a = n := by
      simpa [number?, Option.bind_eq_some_iff] using h
    exact power (ihf ha) (ihx hb)
  | plus f x ihf ihx =>
    obtain ⟨a, ha, b, hb, rfl⟩ : ∃ a, f.number? = some a ∧ ∃ b, x.number? = some b ∧ a + b = n := by
      simpa [number?, Option.bind_eq_some_iff] using h
    exact plus (ihf ha) (ihx hb)
  | mul f x ihf ihx =>
    obtain ⟨a, ha, b, hb, rfl⟩ : ∃ a, f.number? = some a ∧ ∃ b, x.number? = some b ∧ a * b = n := by
      simpa [number?, Option.bind_eq_some_iff] using h
    exact mul (ihf ha) (ihx hb)

/-- What comes of counting `n` increments from `start`. -/
def counted (start : Int64) (n : Nat) : Except Violation Int64 :=
  if start.toInt + n ≤ Int64.maxValue.toInt then .ok (.ofInt (start.toInt + n))
  else .error (.integerOverflow .maxValue)

theorem counted_zero (start : Int64) : counted start 0 = .ok start := by
  have h : start.toInt ≤ Int64.maxValue.toInt := Int64.toInt_le start
  rw [counted, Int.natCast_zero, Int.add_zero, if_pos h, Int64.ofInt_toInt]

theorem toInt_add_one {a : Int64} (h : a ≠ Int64.maxValue) : (a + 1).toInt = a.toInt + 1 := by
  have hne : a.toInt ≠ Int64.maxValue.toInt := fun he => h (Int64.toInt_inj.1 he)
  have hle := Int64.toInt_le a
  have hge := Int64.le_toInt a
  have hmax : Int64.maxValue.toInt = 2 ^ 63 - 1 := by decide
  rw [Int64.toInt_add, show (1 : Int64).toInt = 1 by decide]
  exact Int.bmod_eq_of_le (by omega) (by omega)

theorem counted_succ {start : Int64} (n : Nat) (h : start ≠ Int64.maxValue) :
    counted start (n + 1) = counted (start + 1) n := by
  have hcast : ((n + 1 : Nat) : Int) = n + 1 := rfl
  rw [counted, counted, toInt_add_one h, hcast, Int.add_assoc, Int.add_comm 1]

theorem counted_max (n : Nat) :
    counted Int64.maxValue (n + 1) = .error (.integerOverflow .maxValue) := by
  rw [counted, if_neg (by omega)]

namespace Bare

variable {w : Bare} {s z t u : Value} {a b k n : Nat} {r : Except Violation Value}

/-- The outcome of applying `s` to `z` and then to what comes of it, as often as the number says. -/
inductive Iterates (w : Bare) (s : Value) :
    Nat → Value → Except Violation Value → Prop where
  | done (z : Value) : Iterates w s 0 z (.ok z)
  | step {k : Nat} {z y : Value} {r : Except Violation Value} : Applies w s z (.ok y) →
    Iterates w s k y r → Iterates w s (k + 1) z r
  | stop {k : Nat} {z : Value} {v : Violation} : Applies w s z (.error v) →
    Iterates w s (k + 1) z (.error v)

namespace Iterates

/-- The outcome is that of the program. -/
theorem comes (h : Iterates w s k z r) :
    Comes w (fun depth => (evaluator depth).iterate s k z) r := by
  simp only [Evaluator.iterate, clone_eq, pure_bind]
  induction h with
  | done z => exact .pure z
  | step hs _ ih =>
    simp only [Evaluator.replace, holding_eq]
    exact Comes.bind hs ih
  | stop hs =>
    simp only [Evaluator.replace, holding_eq]
    exact Comes.bind_error hs

theorem of_zero (h : Iterates w s 0 z r) : r = .ok z := by
  cases h
  rfl

theorem applies_of_one (h : Iterates w s 1 z r) : Applies w s z r := by
  cases h with
  | step hs h =>
    rw [h.of_zero]
    exact hs
  | stop hs => exact hs

/-- An iteration stops in its first part, or goes on with what comes of that. -/
theorem split (h : Iterates w s (a + b) z r) :
    (∃ y, Iterates w s a z (.ok y) ∧ Iterates w s b y r) ∨
      ∃ v, Iterates w s a z (.error v) ∧ r = .error v := by
  induction a generalizing z with
  | zero => exact .inl ⟨z, .done z, by rwa [Nat.zero_add] at h⟩
  | succ a ih =>
    rw [Nat.succ_add] at h
    cases h with
    | step hs h =>
      obtain ⟨y, hy, hb⟩ | ⟨v, hv, hr⟩ := ih h
      · exact .inl ⟨y, .step hs hy, hb⟩
      · exact .inr ⟨v, .step hs hv, hr⟩
    | stop hs => exact .inr ⟨_, .stop hs, rfl⟩

end Iterates

/-- Applying `u` is applying `s` as often as the number says. -/
def Acts (w : Bare) (n : Nat) (s u : Value) : Prop :=
  ∀ z r, Iterates w s n z r → Applies w u z r

/-- Applied to any `s`, the value answers with one that acts as the iteration of `s`. -/
def Counts (w : Bare) (n : Nat) (t : Value) : Prop :=
  ∀ s, ∃ u, Applies w t s (.ok u) ∧ Acts w n s u

/-- Iterating a value that acts as an iteration is iterating longer. -/
theorem Acts.iterates (h : Acts w n s u) (hr : Iterates w s (n * k) z r) :
    Iterates w u k z r := by
  induction k generalizing z with
  | zero =>
    rw [Nat.mul_zero] at hr
    rw [hr.of_zero]
    exact .done z
  | succ k ih =>
    rw [Nat.mul_succ, Nat.add_comm] at hr
    obtain ⟨y, hy, hr⟩ | ⟨v, hv, rfl⟩ := hr.split
    · exact .step (h z _ hy) (ih hr)
    · exact .stop (h z _ hv)

namespace Counts

theorem zero (w : Bare) : Counts w 0 (.node .zero) := by
  refine fun s => ⟨_, applies_zero w s, fun z r h => ?_⟩
  rw [h.of_zero]
  exact applies_zeroInner w z

theorem succPartial (h : Counts w n t) : Counts w (n + 1) (.node (.succPartial t)) := by
  intro s
  obtain ⟨u, hu, hacts⟩ := h s
  refine ⟨_, applies_succPartial w t s, fun z r hr => applies_succInner (hu.bind ?_)⟩
  obtain ⟨y, hy, hr⟩ | ⟨v, hv, rfl⟩ := hr.split
  · exact Comes.bind (hacts z _ hy) hr.applies_of_one
  · exact Comes.bind_error (hacts z _ hv)

/-- Iterating the successor. -/
theorem exists_iterates_succ (h : Counts w n t) (k : Nat) :
    ∃ u, Iterates w (.node .succ) k t (.ok u) ∧ Counts w (n + k) u := by
  induction k generalizing n t with
  | zero => exact ⟨t, .done t, h⟩
  | succ k ih =>
    obtain ⟨u, hu, hcounts⟩ := ih h.succPartial
    exact ⟨u, .step (applies_succ w t) hu, by rwa [Nat.succ_add] at hcounts⟩

/-- Iterating the function that adds `n`. -/
theorem exists_iterates_add {add : Value} (hadd : Acts w n (.node .succ) add) (h : Counts w a t)
    (k : Nat) : ∃ u, Iterates w add k t (.ok u) ∧ Counts w (a + k * n) u := by
  induction k generalizing a t with
  | zero => exact ⟨t, .done t, by rwa [Nat.zero_mul]⟩
  | succ k ih =>
    obtain ⟨v, hv, hcounts⟩ := h.exists_iterates_succ n
    obtain ⟨u, hu, hcounts⟩ := ih hcounts
    refine ⟨u, .step (hadd t _ hv) hu, ?_⟩
    rwa [Nat.add_assoc, Nat.add_comm n, ← Nat.succ_mul] at hcounts

/-- Iterating a value that counts raises what it is applied to to a power. -/
theorem exists_iterates (h : Counts w b t) (k : Nat) (s : Value) :
    ∃ u, Iterates w t k s (.ok u) ∧ Acts w (b ^ k) s u := by
  induction k generalizing s with
  | zero => exact ⟨s, .done s, fun z r hr => hr.applies_of_one⟩
  | succ k ih =>
    obtain ⟨v, hv, hacts⟩ := h s
    obtain ⟨u, hu, hpow⟩ := ih v
    refine ⟨u, .step hv hu, fun z r hr => hpow z r (hacts.iterates ?_)⟩
    rwa [Nat.pow_succ'] at hr

variable {f x : Value}

/-- The successor program. -/
theorem successor (h : Counts w n x) :
    ∃ u, Comes w (fun depth => (evaluator depth).successor x) (.ok u) ∧ Counts w (n + 1) u := by
  refine ⟨.node (.succPartial x), ?_, h.succPartial⟩
  simp only [Evaluator.successor, builtin_eq, pure_bind, holding_eq]
  exact applies_succ w x

theorem successors_eq_replace (e : Evaluator Value) (he : e.singletons = builtins) (k : Nat)
    (x : Value) : (e.successors k x : Act Bare Value) = e.replace (.node .succ) k x := by
  induction k generalizing x with
  | zero => rfl
  | succ k ih =>
    simp only [Evaluator.successors, Evaluator.replace, ih, Evaluator.successor,
      Evaluator.builtin, he, clone_eq, pure_bind, holding_eq]
    rfl

theorem numeral (w : Bare) (k : Nat) :
    ∃ u, Comes w (fun depth => (evaluator depth).numeral k) (.ok u) ∧ Counts w k u := by
  obtain ⟨u, hu, hcounts⟩ := (zero w).exists_iterates_succ k
  refine ⟨u, ?_, by rwa [Nat.zero_add] at hcounts⟩
  simp only [Evaluator.numeral, builtin_eq, pure_bind, successors_eq_replace (evaluator _) rfl]
  exact hu.comes

/-- A sum iterates the successor. -/
theorem comes_plus (ha : Counts w a f) (hr : Iterates w (.node .succ) a x r) :
    Comes w (fun depth => (evaluator depth).plus f x) r := by
  obtain ⟨add, hadd, hacts⟩ := ha (.node .succ)
  simp only [Evaluator.plus, builtin_eq, pure_bind, holding_eq]
  exact Comes.bind hadd (hacts x _ hr)

theorem plus (ha : Counts w a f) (hb : Counts w b x) :
    ∃ u, Comes w (fun depth => (evaluator depth).plus f x) (.ok u) ∧ Counts w (a + b) u := by
  obtain ⟨u, hu, hcounts⟩ := hb.exists_iterates_succ a
  exact ⟨u, ha.comes_plus hu, by rwa [Nat.add_comm] at hcounts⟩

/-- A product iterates the function that adds, from zero on. -/
theorem comes_mul {add : Value} (ha : Counts w a f) (hadd : Applies w x (.node .succ) (.ok add))
    (hr : Iterates w add a (.node .zero) r) :
    Comes w (fun depth => (evaluator depth).mul f x) r := by
  obtain ⟨iterated, hiterated, hacts⟩ := ha add
  simp only [Evaluator.mul, builtin_eq, pure_bind, holding_eq, onFault_release_eq]
  exact Comes.bind hadd (Comes.bind hiterated (hacts _ _ hr))

theorem mul (ha : Counts w a f) (hb : Counts w b x) :
    ∃ u, Comes w (fun depth => (evaluator depth).mul f x) (.ok u) ∧ Counts w (a * b) u := by
  obtain ⟨add, hadd, hacts⟩ := hb (.node .succ)
  obtain ⟨u, hu, hcounts⟩ := exists_iterates_add hacts (zero w) a
  exact ⟨u, ha.comes_mul hadd hu, by rwa [Nat.zero_add] at hcounts⟩

theorem power (ha : Counts w a f) (hb : Counts w b x) :
    ∃ u, Applies w f x (.ok u) ∧ Counts w (b ^ a) u := by
  obtain ⟨u, hu, hacts⟩ := ha x
  refine ⟨u, hu, fun s => ?_⟩
  obtain ⟨v, hv, hpow⟩ := hb.exists_iterates a s
  exact ⟨v, hacts s _ hv, hpow⟩

/-- An operation on two terms that count. -/
theorem operate {x y : Nat → Act Bare Value} {op : Nat → Value → Value → Act Bare Value}
    (hx : ∃ u, Comes w x (.ok u) ∧ Counts w a u) (hy : ∃ u, Comes w y (.ok u) ∧ Counts w b u)
    (hop : ∀ {f x : Value}, Counts w a f → Counts w b x →
      ∃ u, Comes w (fun depth => op depth f x) (.ok u) ∧ Counts w n u) :
    ∃ u, Comes w (fun depth => Term.operate (op depth) (x depth) (y depth)) (.ok u) ∧
      Counts w n u := by
  obtain ⟨f, hf, ha⟩ := hx
  obtain ⟨x, hx, hb⟩ := hy
  obtain ⟨u, hu, hn⟩ := hop ha hb
  refine ⟨u, ?_, hn⟩
  simp only [Term.operate, holding_eq]
  exact hf.bind (hx.bind hu)

/-- An arithmetic term is built into a value that counts to its number. -/
theorem build (w : Bare) {t : Term} (h : t.number? = some n) :
    ∃ u, Comes w (fun depth => t.build (evaluator depth)) (.ok u) ∧ Counts w n u := by
  refine Term.number?_induction (motive := fun t n =>
    ∃ u, Comes w (fun depth => t.build (evaluator depth)) (.ok u) ∧ Counts w n u)
    ?_ (numeral w) (fun ih => ?_) (fun ihf ihx => operate ihf ihx plus)
    (fun ihf ihx => operate ihf ihx mul) (fun ihf ihx => operate ihf ihx power) h
  · refine ⟨.node .zero, ?_, zero w⟩
    simp only [Term.build, builtin_eq]
    exact .pure _
  · obtain ⟨x, hx, hcounts⟩ := ih
    obtain ⟨u, hu, hcounts⟩ := hcounts.successor
    refine ⟨u, ?_, hcounts⟩
    simp only [Term.build, holding_eq]
    exact hx.bind hu

/-- Applied to two arguments, a value that counts has the outcome of the iteration. -/
theorem comes_applyTwice (h : Counts w n t) (hr : Iterates w s n z r) :
    Comes w (fun depth => (evaluator depth).applyTwice t s z) r := by
  obtain ⟨u, hu, hacts⟩ := h s
  simp only [Evaluator.applyTwice, holding_eq]
  exact Comes.bind hu (hacts z r hr)

end Counts

/-- Incrementing an integer. -/
theorem iterates_inc (w : Bare) (start : Int64) (n : Nat) :
    Iterates w (.node .inc) n (.node (.intLiteral start))
      ((counted start n).map fun i => .node (.intLiteral i)) := by
  induction n generalizing start with
  | zero =>
    rw [counted_zero]
    exact .done _
  | succ n ih =>
    by_cases h : start = Int64.maxValue
    · rw [h, counted_max]
      exact .stop (applies_inc_max w)
    · rw [counted_succ n h]
      exact .step (applies_inc w h) (ih (start + 1))

/-- A value that counts to `n` adds `n` to integers, as far as they go. -/
theorem Counts.comes_countFrom (h : Counts w n t) (start : Int64) :
    Comes w (fun depth => (evaluator depth).countFrom start t) (counted start n) := by
  obtain ⟨u, hu, hacts⟩ := h (.node .inc)
  have happlied := hacts _ _ (iterates_inc w start n)
  simp only [Evaluator.countFrom, builtin_eq, int_eq, pure_bind, holding_eq]
  refine Comes.bind hu ?_
  cases hc : counted start n with
  | ok i =>
    rw [hc] at happlied
    refine Comes.bind happlied ?_
    simp only [toInt_intLiteral]
    exact .pure i
  | error v =>
    rw [hc] at happlied
    exact Comes.bind_error happlied

theorem Counts.comes_pow {f x : Value} (ha : Counts w a f) (hb : Counts w b x) :
    Comes w (fun depth => (evaluator depth).pow x f) (counted 0 (b ^ a)) := by
  obtain ⟨u, hu, hcounts⟩ := ha.power hb
  simp only [Evaluator.pow, holding_eq]
  exact Comes.bind hu (hcounts.comes_countFrom 0)

end Bare

end ChurchStore
