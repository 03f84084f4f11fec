import ChurchStore.Proofs.Arithmetic
import ChurchStore.Proofs.Demo.Reporting
import ChurchStore.Proofs.Reachable
import ChurchStore.Proofs.ChainArithmetic

/-!
# What a demo writes

On every store a demo writes the numbers that it should. The operations of its evaluator yield what
the bare store reckons with chains; from these the scenes of the demo are followed one by one. An
operand stands for the same chain whether it is taken from the table or built for the occasion.
-/

namespace ChurchStore

open Report Simulation

theorem counted_of_le {n : Nat} (h : n ≤ Int64.maxValue.toInt) :
    counted 0 n = .ok (.ofInt n) := by
  have hzero : (0 : Int64).toInt = 0 := rfl
  rw [counted, hzero, Int.zero_add, if_pos h]

theorem counted_of_gt {n : Nat} (h : Int64.maxValue.toInt < n) :
    counted 0 n = .error (.integerOverflow .maxValue) := by
  have hzero : (0 : Int64).toInt = 0 := rfl
  rw [counted, hzero, Int.zero_add, if_neg (by omega)]

/-- A natural number that fits into an integer is written in decimal. -/
theorem toString_toInt_ofInt {n : Nat} (h : n ≤ Int64.maxValue.toInt) :
    toString (Int64.ofInt n).toInt = toString n := by
  have hmax : Int64.maxValue.toInt = 2 ^ 63 - 1 := by decide
  rw [Int64.toInt_ofInt_of_le (by omega) (by omega)]
  rfl

namespace Demo

/-- The lines of the powers, sums and products. -/
def arithmeticLines : List Line :=
  [.result "N2^N3" (toString 8), .result "N3^N2" (toString 9), .result "N5^N2" (toString 25),
    .result "N2^N5" (toString 32), .result "N9+N5" (toString 14), .result "N9*N5" (toString 45)]

/-- The lines of the folding demo. -/
def foldLines (count : Nat) : List Line :=
  (List.range count).map (fun i => .result s!"(num#{i} inc 0)" (toString i)) ++ arithmeticLines

/-- The lines of `n` attempts, the first of which has the given number. -/
def attemptLines (clock : Nat → Nat) (k repeatCount n first : Nat) : List Line :=
  (List.range' first n).flatMap fun i =>
    [.result (attemptLabel k repeatCount i) (toString (k ^ k)), .timing (clock i)]

end Demo

namespace Representation

variable {W H : Type} [Host W H] {b : Nat} {R : Representation W} {hb : Backend.handleBytes W = b}
  {resets : List Nat} {e : Evaluator H} {d : Evaluator Tree} {lent : Multiset (H × Tree)}
  {length depth : Nat} {p q : H × Tree}

/-- The answer is a handle for a tree with the given value, which the caller owns. -/
def Stands (resets : List Nat) (u : Value) (a : H) (given : Multiset (H × Tree)) : Prop :=
  ∃ t, Grove.value resets t = u ∧ given = {(a, t)}

/-- With this bound on nesting, an evaluator whose closures all fit reckons with chains up to a
length. -/
structure Reckons (R : Representation W) (resets : List Nat) (d : Evaluator Tree)
    (length depth : Nat) : Prop where
  fits (c : Closure H) : R.capacity.filter (· < c.footprint) = none
  ready : Grove.Ready resets d
  bare : Bare.Reckons ⟨.ofNat resets.length⟩ length depth

/-- Handles of a table that stand for the first numerals. -/
structure Lists (resets : List Nat) (count : Nat) (table : Array H) (l : List (H × Tree)) :
    Prop where
  handles : table.toList = l.map Prod.fst
  values : l.map (fun p => Grove.value resets p.2) = (List.range count).map .church

/-- The entries of a table one by one. -/
theorem Lists.value_getElem? {count k : Nat} {table : Array H} {l : List (H × Tree)}
    (hl : Lists resets count table l) {p : H × Tree} (hp : l[k]? = some p) :
    k < count ∧ Grove.value resets p.2 = .church k := by
  have hk := congrArg (·[k]?) hl.values
  simp only [List.getElem?_map, hp, Option.map_some] at hk
  obtain ⟨i, hi, hvalue⟩ := Option.map_eq_some_iff.1 hk.symm
  obtain ⟨hlt, rfl⟩ := List.getElem?_eq_some_iff.1 hi
  rw [List.length_range] at hlt
  rw [List.getElem_range] at hvalue
  exact ⟨hlt, hvalue.symm⟩

namespace Reckons

variable (h : R.Reckons resets d length depth) (hS : (R.simulation hb resets).Serves e d lent)

include h hS

/-- An operation that hands over what the bare store concludes with. -/
theorem yields_handed {x : Act W H} {y : Act (Grove b) Tree} {z : Act Bare Value} {u : Value}
    (hx : (R.simulation hb resets).Agree 0 lent x y Handed)
    (hy : (∀ b, d.singletons.get b ∈ lent.map Prod.snd) →
      (Grove.erasure b resets).Agree 0 (Grove.values resets (lent.map Prod.snd)) y z Handed)
    (hz : Bare.Concludes ⟨.ofNat resets.length⟩ z (.ok u)) :
    (R.simulation hb resets).Yields 0 lent x (Stands resets u) := by
  intro m n hmn
  rw [Multiset.zero_add] at hmn
  obtain ⟨a, t, m', n', hx, ht, hholds⟩ := ok_of_concludes h.fits e.singletons.zero hmn hx
    (hy fun b => Multiset.mem_map_of_mem Prod.snd (hS.builtin b)) hz
  exact ⟨a, m', n', _, hx, ⟨t, ht.symm, rfl⟩, hholds⟩

/-- An operation that tells what the bare store concludes with. -/
theorem yields_shown {α : Type} {x : Act W α} {y : Act (Grove b) α} {z : Act Bare α} {i : α}
    (hx : (R.simulation hb resets).Agree 0 lent x y Shown)
    (hy : (∀ b, d.singletons.get b ∈ lent.map Prod.snd) →
      (Grove.erasure b resets).Agree 0 (Grove.values resets (lent.map Prod.snd)) y z Shown)
    (hz : Bare.Concludes ⟨.ofNat resets.length⟩ z (.ok i)) :
    (R.simulation hb resets).Yields 0 lent x fun a given => a = i ∧ given = 0 := by
  intro m n hmn
  rw [Multiset.zero_add] at hmn
  obtain ⟨a, t, m', n', _, _, hx, ⟨rfl, rfl⟩, hholds, ⟨rfl, -⟩, -⟩ :=
    of_concludes h.fits e.singletons.zero hmn hx
      (hy fun b => Multiset.mem_map_of_mem Prod.snd (hS.builtin b)) hz
  exact ⟨_, m', n', 0, hx, ⟨rfl, rfl⟩, hholds⟩

theorem yields_numeral {k : Nat} (hk : k ≤ length) :
    (R.simulation hb resets).Yields 0 lent ((e.nestedTo depth).numeral k)
      (Stands resets (.church k)) :=
  h.yields_handed hS ((hS.nestedTo depth).agree_numeral k)
    (fun hheld => Grove.agree_numeral h.ready hS.right hheld depth k) (h.bare.numeral hk)

section Operands

variable (hp : p ∈ lent) (hq : q ∈ lent) {j k : Nat} (hpv : Grove.value resets p.2 = .church j)
  (hqv : Grove.value resets q.2 = .church k) (hj : j ≤ length) (hk : k ≤ length)

include hp hq hpv hqv hj hk

theorem yields_plus : (R.simulation hb resets).Yields 0 lent ((e.nestedTo depth).plus p.1 q.1)
    (Stands resets (.church (j + k))) := by
  refine h.yields_handed hS ((hS.nestedTo depth).agree_plus hp hq) (fun hheld => ?_)
    (h.bare.plus hj hk)
  rw [← hpv, ← hqv]
  exact Grove.agree_plus h.ready hS.right hheld depth (Multiset.mem_map_of_mem Prod.snd hp)
    (Multiset.mem_map_of_mem Prod.snd hq)

theorem yields_mul : (R.simulation hb resets).Yields 0 lent ((e.nestedTo depth).mul p.1 q.1)
    (Stands resets (.church (j * k))) := by
  refine h.yields_handed hS ((hS.nestedTo depth).agree_mul hp hq) (fun hheld => ?_)
    (h.bare.mul hj hk)
  rw [← hpv, ← hqv]
  exact Grove.agree_mul h.ready hS.right hheld depth (Multiset.mem_map_of_mem Prod.snd hp)
    (Multiset.mem_map_of_mem Prod.snd hq)

theorem yields_pow (hmax : ↑(j ^ k) ≤ Int64.maxValue.toInt) :
    (R.simulation hb resets).Yields 0 lent ((e.nestedTo depth).pow p.1 q.1)
      fun i given => i = .ofInt ↑(j ^ k) ∧ given = 0 := by
  have hz := h.bare.pow hj hk
  rw [counted_of_le hmax] at hz
  refine h.yields_shown hS ((hS.nestedTo depth).agree_pow hp hq) (fun hheld => ?_) hz
  rw [← hpv, ← hqv]
  exact Grove.agree_pow h.ready hS.right hheld depth (Multiset.mem_map_of_mem Prod.snd hp)
    (Multiset.mem_map_of_mem Prod.snd hq)

/-- A power that does not fit into an integer. -/
theorem exists_pow_overflows (hmax : Int64.maxValue.toInt < ↑(j ^ k)) {m : Machine W}
    {n : Machine (Grove b)} (hmn : (R.simulation hb resets).Holds lent m n) :
    ∃ m', (e.nestedTo depth).pow p.1 q.1 m =
      .error (.violation (.integerOverflow .maxValue)) m' := by
  have hheld (b : Builtin) : d.singletons.get b ∈ lent.map Prod.snd :=
    Multiset.mem_map_of_mem Prod.snd (hS.builtin b)
  have hy := Grove.agree_pow (b := b) h.ready hS.right hheld depth
    (Multiset.mem_map_of_mem Prod.snd hp) (Multiset.mem_map_of_mem Prod.snd hq)
  rw [hpv, hqv] at hy
  have hz := h.bare.pow hj hk
  rw [counted_of_gt hmax] at hz
  exact of_concludes h.fits e.singletons.zero hmn ((hS.nestedTo depth).agree_pow hp hq) hy hz

end Operands

theorem yields_fold (hp : p ∈ lent) {k : Nat} (hpv : Grove.value resets p.2 = .church k)
    (hk : k ≤ length) (hmax : k ≤ Int64.maxValue.toInt) :
    (R.simulation hb resets).Yields 0 lent ((e.nestedTo depth).fold p.1)
      fun i given => i = .ofInt k ∧ given = 0 := by
  have hz := h.bare.fold hk
  rw [counted_of_le hmax] at hz
  refine h.yields_shown hS ((hS.nestedTo depth).agree_countFrom 0 hp) (fun hheld => ?_) hz
  rw [← hpv]
  exact Grove.agree_countFrom h.ready hS.right hheld depth 0 (Multiset.mem_map_of_mem Prod.snd hp)

theorem yields_numerals {count : Nat} (hcount : count ≤ length)
    (hbytes : count * Backend.handleBytes W < reservationBound) :
    (R.simulation hb resets).Yields 0 lent ((e.nestedTo depth).numerals count)
      fun table given => ∃ l, Lists resets count table l ∧ given = l := by
  intro m n hmn
  rw [Multiset.zero_add] at hmn
  have hheld (b : Builtin) : d.singletons.get b ∈ lent.map Prod.snd :=
    Multiset.mem_map_of_mem Prod.snd (hS.builtin b)
  have hx := (hS.nestedTo depth).agree_extendTable count []
  obtain ⟨table, trees, m', n', _, _, hx, ⟨l, htable, htrees, rfl⟩, hholds,
      ⟨l', htrees', hvalues, rfl⟩, hvalue⟩ :=
    of_concludes h.fits e.singletons.zero hmn hx
      (Grove.agree_extendTable (b := b) h.ready hS.right hheld depth count)
      (h.bare.extendTable hcount)
  refine ⟨table, m', n', l, ?_, ⟨l, ⟨htable, ?_⟩, rfl⟩, hholds⟩
  · rw [Evaluator.numerals, if_pos hbytes]
    exact hx
  · have hsnd :
        l.map (fun p => Grove.value resets p.2) = (l.map Prod.snd).map (Grove.value resets) := by
      rw [List.map_map]
      rfl
    rw [hsnd, ← htrees, htrees', List.map_map, ← Bare.table_toList, hvalues]
    exact List.map_congr_left fun p hp => (hvalue p (Multiset.mem_coe.2 hp)).symm

/-! ### Scenes -/

section Table

variable {count : Nat} {table : Array H} {l : List (H × Tree)} (hl : Lists resets count table l)
  (hsub : ∀ p ∈ l, p ∈ lent)

include hl hsub

/-- Operands stand for the same chain, from wherever they come. -/
theorem reports_operand {k : Nat} (hk : k ≤ length) :
    (R.simulation hb resets).Reports 0 lent (Demo.operand (e.nestedTo depth) table k) []
      (Stands resets (.church k)) := by
  have htable : table[k]? = l[k]?.map Prod.fst := by
    rw [← Array.getElem?_toList, hl.handles, List.getElem?_map]
  refine .act ?_
  rw [htable]
  cases hp : l[k]? with
  | none => exact h.yields_numeral hS hk
  | some p =>
    refine (Yields.clone_lent (hsub p (List.mem_of_getElem? hp))).weaken ?_
    rintro _ _ ⟨rfl, rfl⟩
    exact ⟨p.2, (hl.value_getElem? hp).2, rfl⟩

theorem reports_binary {label : String} {i j n : Nat} {op : H → H → Act W Int64}
    (hi : i ≤ length) (hj : j ≤ length) (hn : n ≤ Int64.maxValue.toInt)
    (hop : ∀ {lent : Multiset (H × Tree)} {p q : H × Tree},
      (R.simulation hb resets).Serves e d lent → p ∈ lent → q ∈ lent →
      Grove.value resets p.2 = .church i → Grove.value resets q.2 = .church j →
      (R.simulation hb resets).Yields 0 lent (op p.1 q.1)
        fun a given => a = .ofInt n ∧ given = 0) :
    (R.simulation hb resets).Reports 0 lent
      (Demo.binary (e.nestedTo depth) table label i j op) [.result label (toString n)]
      fun _ given => given = 0 := by
  refine Reports.silent_bind (h.reports_operand hS hl hsub hi) ?_
  rintro x _ ⟨t, ht, rfl⟩
  refine Reports.holding (x, t) ?_
  refine Reports.silent_bind
    (h.reports_operand (hS.cons _) hl (fun p hp => Multiset.mem_cons_of_mem (hsub p hp)) hj) ?_
  rintro y _ ⟨u, hu, rfl⟩
  refine Reports.holding (y, u) ?_
  refine Reports.act_bind (hop (p := (x, t)) (q := (y, u)) ((hS.cons _).cons _) (by simp)
    (by simp) ht hu) ?_
  rintro _ _ ⟨rfl, rfl⟩
  rw [toString_toInt_ofInt hn]
  exact Reports.print (.result label (toString n))

theorem reports_combined {label : String} {n : Nat} {op : H → H → Act W H}
    (hlength : 9 ≤ length) (hn : n ≤ length) (hmax : n ≤ Int64.maxValue.toInt)
    (hop : ∀ {lent : Multiset (H × Tree)} {p q : H × Tree},
      (R.simulation hb resets).Serves e d lent → p ∈ lent → q ∈ lent →
      Grove.value resets p.2 = .church 9 → Grove.value resets q.2 = .church 5 →
      (R.simulation hb resets).Yields 0 lent (op p.1 q.1) (Stands resets (.church n))) :
    (R.simulation hb resets).Reports 0 lent
      (Demo.arithmetic.combined (e.nestedTo depth) table label op) [.result label (toString n)]
      fun _ given => given = 0 := by
  refine Reports.silent_bind (h.reports_operand hS hl hsub hlength) ?_
  rintro x _ ⟨t, ht, rfl⟩
  refine Reports.holding (x, t) (Reports.silent_bind (h.reports_operand (hS.cons _) hl
    (fun p hp => Multiset.mem_cons_of_mem (hsub p hp)) (Nat.le_trans (by decide) hlength)) ?_)
  rintro y _ ⟨u, hu, rfl⟩
  refine Reports.holding (y, u) (Reports.act_bind (hop (p := (x, t)) (q := (y, u))
    ((hS.cons _).cons _) (by simp) (by simp) ht hu) ?_)
  rintro z _ ⟨v, hv, rfl⟩
  refine Reports.holding (z, v) (Reports.act_bind (h.yields_fold (p := (z, v))
    (((hS.cons _).cons _).cons _) (Multiset.mem_cons_self ..) hv hn hmax) ?_)
  rintro _ _ ⟨rfl, rfl⟩
  rw [toString_toInt_ofInt hmax]
  exact Reports.print (.result label (toString n))

theorem reports_arithmetic (hlength : 45 ≤ length) :
    (R.simulation hb resets).Reports 0 lent (Demo.arithmetic (e.nestedTo depth) table)
      Demo.arithmeticLines fun _ given => given = 0 := by
  have hmax : ((45 : Nat) : Int) ≤ Int64.maxValue.toInt := by decide
  have hpow {label : String} {i j n : Nat} (hn : i ^ j = n) (hi : i ≤ 45) (hj : j ≤ 45)
      (hle : n ≤ 45) : (R.simulation hb resets).Reports 0 lent
        (Demo.binary (e.nestedTo depth) table label i j (e.nestedTo depth).pow)
        [.result label (toString n)] fun _ given => given = 0 := by
    have hi' := Nat.le_trans hi hlength
    have hj' := Nat.le_trans hj hlength
    refine h.reports_binary hS hl hsub hi' hj' (by omega) fun hS' hp hq hpv hqv => ?_
    rw [← hn]
    exact h.yields_pow hS' hp hq hpv hqv hi' hj' (by omega)
  unfold Demo.arithmetic Demo.arithmeticLines
  refine Reports.line_bind (hpow (n := 8) rfl (by decide) (by decide) (by decide)) ?_
  rintro _ _ rfl
  refine Reports.line_bind (hpow (n := 9) rfl (by decide) (by decide) (by decide)) ?_
  rintro _ _ rfl
  refine Reports.line_bind (hpow (n := 25) rfl (by decide) (by decide) (by decide)) ?_
  rintro _ _ rfl
  refine Reports.line_bind (hpow (n := 32) rfl (by decide) (by decide) (by decide)) ?_
  rintro _ _ rfl
  have h9 : 9 ≤ length := by omega
  have h5 : 5 ≤ length := by omega
  refine Reports.line_bind (h.reports_combined hS hl hsub (n := 14) h9 (by omega) (by omega)
    fun hS' hp hq hpv hqv => h.yields_plus hS' hp hq hpv hqv h9 h5) ?_
  rintro _ _ rfl
  exact h.reports_combined hS hl hsub (n := 45) h9 (by omega) (by omega)
    fun hS' hp hq hpv hqv => h.yields_mul hS' hp hq hpv hqv h9 h5

end Table

/-- Every entry of a table is folded into its index. -/
theorem reports_entries {count : Nat} {table : Array H} {l : List (H × Tree)}
    (hl : Lists resets count table l) (hsub : ∀ p ∈ l, p ∈ lent) (hcount : count ≤ length)
    (hmax : count ≤ Int64.maxValue.toInt) :
    (R.simulation hb resets).Reports 0 lent
      (table.toList.zipIdx.forM fun (n, i) => do
        let value ← Scene.act ((e.nestedTo depth).fold n)
        Scene.print (.result s!"(num#{i} inc 0)" (toString value.toInt)))
      ((List.range count).map fun i => .result s!"(num#{i} inc 0)" (toString i))
      fun _ given => given = 0 := by
  have hlength : table.toList.length = count := by
    have := congrArg List.length hl.values
    simpa [hl.handles] using this
  have hindices : table.toList.zipIdx.map Prod.snd = List.range count := by
    rw [List.zipIdx_map_snd, hlength, List.range_eq_range']
  rw [← hindices, List.map_map, List.map_eq_flatMap]
  refine Reports.forM fun (n, i) hn => ?_
  rw [List.mk_mem_zipIdx_iff_getElem?, hl.handles, List.getElem?_map] at hn
  obtain ⟨p, hp, rfl⟩ := Option.map_eq_some_iff.1 hn
  obtain ⟨hi, hvalue⟩ := hl.value_getElem? hp
  refine Reports.act_bind (h.yields_fold hS (hsub p (List.mem_of_getElem? hp)) hvalue (by omega)
    (by omega)) ?_
  rintro _ _ ⟨rfl, rfl⟩
  rw [toString_toInt_ofInt (by omega)]
  exact Reports.print (.result _ (toString i))

theorem reports_folds {count : Nat} (hcount : count ≤ length) (hlength : 45 ≤ length)
    (hbytes : count * Backend.handleBytes W < reservationBound)
    (hmax : count ≤ Int64.maxValue.toInt) :
    (R.simulation hb resets).Reports 0 lent (Demo.folds (e.nestedTo depth) count)
      (Demo.foldLines count) fun _ given => given = 0 := by
  refine Reports.act_bind (h.yields_numerals hS hcount hbytes) ?_
  rintro table _ ⟨l, hl, rfl⟩
  have hS' := hS.mono (Multiset.subset_of_le (Multiset.le_add_left lent l))
  have hsub (p : H × Tree) (hp : p ∈ l) : p ∈ l + lent :=
    Multiset.mem_add.2 (.inl (Multiset.mem_coe.2 hp))
  rw [← Multiset.add_zero (l : Multiset (H × Tree))]
  simp only [congrArg Backend.releaseAll hl.handles]
  refine Reports.releasing l (Reports.act_bind (Yields.of_still fun m => ⟨(), _, rfl⟩) ?_)
  rintro _ _ rfl
  refine Reports.bind (h.reports_entries hS' hl hsub hcount hmax) ?_
  rintro _ _ rfl
  exact h.reports_arithmetic hS' hl hsub hlength

section SelfPower

variable (clock : Nat → Nat) (k repeatCount : Nat)

omit h hS in
theorem reports_reportAttempt (attempt : Nat) {i : Int64}
    (hi : toString i.toInt = toString (k ^ k)) :
    (R.simulation hb resets).Reports 0 lent
      (Demo.reportAttempt (e.nestedTo depth) k repeatCount attempt i (clock attempt))
      [.result (Demo.attemptLabel k repeatCount attempt) (toString (k ^ k)),
        .timing (clock attempt)] fun _ given => given = 0 := by
  unfold Demo.reportAttempt
  refine Reports.act_bind (Yields.of_still fun m => ⟨_, m.journal, rfl⟩) ?_
  rintro live _ rfl
  refine Reports.act_bind (Yields.of_still fun m => ⟨(), _, rfl⟩) ?_
  rintro _ _ rfl
  rw [hi]
  refine Reports.line_bind (Reports.print (.result _ (toString (k ^ k)))) ?_
  rintro _ _ rfl
  exact Reports.print (.timing (clock attempt))

theorem reports_attempts (hp : p ∈ lent) (hpv : Grove.value resets p.2 = .church k)
    (hk : k ≤ length) (hmax : ↑(k ^ k) ≤ Int64.maxValue.toInt) (remaining attempt : Nat) :
    (R.simulation hb resets).Reports 0 lent
      (Demo.attempts (e.nestedTo depth) clock k repeatCount p.1 remaining attempt)
      (Demo.attemptLines clock k repeatCount remaining attempt) fun _ given => given = 0 := by
  induction remaining generalizing attempt with
  | zero => exact Reports.pure rfl
  | succ remaining ih =>
    refine Reports.act_bind (h.yields_pow hS hp hp hpv hpv hk hk hmax) ?_
    rintro _ _ ⟨rfl, rfl⟩
    rw [Demo.attemptLines, List.range'_succ, List.flatMap_cons]
    refine Reports.bind (reports_reportAttempt clock k repeatCount attempt
      (toString_toInt_ofInt hmax)) ?_
    rintro _ _ rfl
    exact ih (attempt + 1)

theorem reports_selfPower (hk : k ≤ length) (hmax : ↑(k ^ k) ≤ Int64.maxValue.toInt) :
    (R.simulation hb resets).Reports 0 lent
      (Demo.selfPower (e.nestedTo depth) clock k repeatCount)
      (Demo.attemptLines clock k repeatCount repeatCount 0) fun _ given => given = 0 := by
  refine Reports.act_bind (h.yields_numeral hS hk) ?_
  rintro x _ ⟨t, ht, rfl⟩
  exact Reports.holding (x, t) (h.reports_attempts (hS.cons (x, t)) clock k repeatCount
    (Multiset.mem_cons_self ..) ht hk hmax repeatCount 0)

theorem breaks_selfPower (hk : k ≤ length) (hmax : Int64.maxValue.toInt < ↑(k ^ k))
    (hrepeat : 1 ≤ repeatCount) :
    (R.simulation hb resets).Breaks 0 lent (Demo.selfPower (e.nestedTo depth) clock k repeatCount)
      [] (.violation (.integerOverflow .maxValue)) := by
  refine Breaks.act_bind (h.yields_numeral hS hk) ?_
  rintro x _ ⟨t, ht, rfl⟩
  refine Breaks.holding (x, t) ?_
  obtain ⟨remaining, rfl⟩ := Nat.exists_eq_add_of_le' hrepeat
  refine Breaks.bind (Breaks.act fun m n hmn => ?_)
  rw [Multiset.zero_add] at hmn
  exact h.exists_pow_overflows (p := (x, t)) (q := (x, t)) (hS.cons _)
    (Multiset.mem_cons_self ..) (Multiset.mem_cons_self ..) ht ht hk hk hmax hmn

end SelfPower

end Reckons

end Representation

end ChurchStore
