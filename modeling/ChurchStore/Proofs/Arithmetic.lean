import ChurchStore.Proofs.Erasure
import ChurchStore.Proofs.Resumption

/-!
# The law of iteration

On every store an arithmetic term is built into a numeral: applied to any held handle it answers,
and applied to two of them it has the outcome of applying the first to the second as often as the
number of the term says, whatever the handles stand for. So counting, folding and powers give the
numbers that they should, or the overflow. On a store this follows from what numerals do on the bare
store, by way of the trees that the handles stand for.
-/

namespace ChurchStore

open Filter Session

variable {W H : Type}

namespace View

/-- A handle shows the value that is read off the closures behind it and behind its captures. -/
inductive Shows (v : View W H) (w : W) : H → Value → Prop where
  | node {h : H} {c : Closure H} {u : H → Value} : v.look w h = some c →
    (∀ x ∈ c.captures, Shows v w x (u x)) → Shows v w h (.node (c.map u))
  | stale {h : H} : v.epoch h ≠ v.now w → Shows v w h (.stale (v.epoch h))

/-- Two operations both answer with handles that show the same value, or stop with the same
violation. -/
def SameOutcome (v : View W H) (r r' : EStateM.Result Fault (Machine W) H) : Prop :=
  (∃ a m a' m' u, r = .ok a m ∧ r' = .ok a' m' ∧ v.Shows m.store a u ∧ v.Shows m'.store a' u) ∨
    ∃ x m m', r = .error (.violation x) m ∧ r' = .error (.violation x) m'

end View

variable [Host W H] {b : Nat}

/-- Applied to held handles, `f` answers, and what it answers acts as the iteration of them. -/
structure Evaluator.Iterates (v : View W H) (e : Evaluator H) (m : Machine W) (held : List H)
    (n : Nat) (f : H) : Prop where
  answers {s : H} : s ∈ held → ∃ a m', e.apply f s m = .ok a m'
  sameOutcome {s z : H} : s ∈ held → z ∈ held →
    v.SameOutcome (e.applyTwice f s z m) (e.iterate s n z m)

/-- The law of iteration: with every large enough bound on nesting, an arithmetic term is built into
a handle that iterates all held handles, itself included, and that counts and folds and raises to
powers as its number does. -/
def Session.ObeysIteration (v : View W H) (s : Session W H) : Prop :=
  ∀ e, s.seats[0]? = some ⟨e, true⟩ → ∀ (t t' : Term) (n n' : Nat) (start : Int64),
    t.number? = some n → t'.number? = some n' →
    ∃ depth, ∀ d, depth ≤ d → ∃ f m, t.build (e.nestedTo d) s.machine = .ok f m ∧
      (e.nestedTo d).Iterates v m (f :: s.handles) n f ∧
      ending ((e.nestedTo d).countFrom start f m) = (counted start n).mapError .violation ∧
      ending ((e.nestedTo d).fold f m) = (counted 0 n).mapError .violation ∧
      ∃ g m', t'.build (e.nestedTo d) m = .ok g m' ∧
        ending ((e.nestedTo d).pow f g m') = (counted 0 (n ^ n')).mapError .violation

namespace Bare

/-- What is seen on the bare store of two terms that are built into `u` and `u'`, where one may nest
to the given depth and only the listed values are held. -/
structure Measured (w : Bare) (t t' : Term) (n n' : Nat) (start : Int64) (u u' : Value)
    (vs : List Value) (depth : Nat) : Prop where
  build : Concludes w (t.build (evaluator depth)) (.ok u)
  answers {x : Value} : x ∈ vs → ∃ y, Concludes w ((evaluator depth).apply u x) (.ok y)
  sameOutcome {x z : Value} : x ∈ vs → z ∈ vs →
    ∃ r, Concludes w ((evaluator depth).applyTwice u x z) r ∧
      Concludes w ((evaluator depth).iterate x n z) r
  count : Concludes w ((evaluator depth).countFrom start u) (counted start n)
  fold : Concludes w ((evaluator depth).countFrom 0 u) (counted 0 n)
  build' : Concludes w (t'.build (evaluator depth)) (.ok u')
  pow : Concludes w ((evaluator depth).pow u u') (counted 0 (n ^ n'))

theorem eventually_measured {w : Bare} {t t' : Term} {n n' : Nat} {u u' : Value} {vs : List Value}
    (hu : Comes w (fun depth => t.build (evaluator depth)) (.ok u)) (hn : Counts w n u)
    (hu' : Comes w (fun depth => t'.build (evaluator depth)) (.ok u')) (hn' : Counts w n' u')
    (hends : ∀ x ∈ vs, ∀ z ∈ vs, ∃ r, Iterates w x n z r) (start : Int64) :
    ∀ᶠ depth in atTop, Measured w t t' n n' start u u' vs depth := by
  have hanswers : ∀ᶠ depth in atTop, ∀ x ∈ vs,
      ∃ y, Concludes w ((evaluator depth).apply u x) (.ok y) := by
    refine eventually_forall_mem fun x _ => ?_
    obtain ⟨y, hy, -⟩ := hn x
    exact hy.mono fun depth hdepth => ⟨y, hdepth⟩
  have hsame : ∀ᶠ depth in atTop, ∀ x ∈ vs, ∀ z ∈ vs,
      ∃ r, Concludes w ((evaluator depth).applyTwice u x z) r ∧
        Concludes w ((evaluator depth).iterate x n z) r := by
    refine eventually_forall_mem fun x hx => eventually_forall_mem fun z hz => ?_
    obtain ⟨r, hr⟩ := hends x hx z hz
    filter_upwards [hn.comes_applyTwice hr, hr.comes] with depth htwice hiterate
    exact ⟨r, htwice, hiterate⟩
  filter_upwards [hu, hanswers, hsame, hn.comes_countFrom start, hn.comes_countFrom 0, hu',
    hn'.comes_pow hn] with depth hbuild hanswers hsame hcount hfold hbuild' hpow
  exact ⟨hbuild, fun hx => hanswers _ hx, fun hx hz => hsame _ hx _ hz, hcount, hfold, hbuild',
    hpow⟩

end Bare

namespace Representation

variable {R : Representation W} {hb : Backend.handleBytes W = b} {resets : List Nat}
  {held : Multiset (H × Tree)} {m : Machine W} {n : Machine (Grove b)}

/-- Handles show the values of their trees. -/
theorem Mirrors.shows {w : W} {g : Grove b} {known : H → Prop} {tree : H → Tree}
    (hm : R.Mirrors w g held known tree) {h : H} (hk : known h) :
    R.Shows w h (Grove.value g.resets (tree h)) := by
  induction ht : tree h generalizing h with
  | node number c ih =>
    rw [← ht]
    by_cases he : R.epoch h = R.now w
    · obtain ⟨x, hx⟩ := Option.isSome_iff_exists.1 (hm.look_isSome hk he)
      obtain ⟨-, hclosure, hcaptures⟩ := hm.of_look hx
      rw [Grove.value_of_current ((hm.epoch_eq_now_iff hk).1 he), hclosure, Closure.map_map]
      refine .node hx fun y hy => ih (tree y) ?_ (hcaptures y hy) rfl
      have hmem : tree y ∈ (tree h).closure.captures := by
        rw [hclosure, Closure.captures_map]
        exact List.mem_map_of_mem hy
      rwa [ht] at hmem
    · rw [Grove.value_of_stale fun hcur => he ((hm.epoch_eq_now_iff hk).2 hcur), ← hm.epoch_eq hk]
      exact .stale he

/-- And no others. -/
theorem Mirrors.value_eq_of_shows {w : W} {g : Grove b} {known : H → Prop} {tree : H → Tree}
    (hm : R.Mirrors w g held known tree) {h : H} {u : Value} (hs : R.Shows w h u) (hk : known h) :
    u = Grove.value g.resets (tree h) := by
  induction hs with
  | node hx _ ih =>
    have hcurrent := (hm.epoch_eq_now_iff hk).1 (R.epoch_of_look hm.sound hx)
    obtain ⟨-, hclosure, hcaptures⟩ := hm.of_look hx
    rw [Grove.value_of_current hcurrent, hclosure, Closure.map_map]
    exact congrArg Value.node (Closure.map_congr fun y hy => ih y hy (hcaptures y hy))
  | stale he =>
    rw [Grove.value_of_stale fun hcur => he ((hm.epoch_eq_now_iff hk).2 hcur), hm.epoch_eq hk]

theorem shows_of_holds (h : (R.simulation hb resets).Holds held m n) {p : H × Tree}
    (hp : p ∈ held) : R.Shows m.store p.1 (Grove.value resets p.2) := by
  obtain ⟨rfl, known, tree, hm⟩ := h
  obtain ⟨hk, htree⟩ := hm.of_mem hp
  rw [htree]
  exact hm.shows hk

theorem value_eq_of_holds (h : (R.simulation hb resets).Holds held m n) {p : H × Tree}
    (hp : p ∈ held) {u : Value} (hs : R.Shows m.store p.1 u) : u = Grove.value resets p.2 := by
  obtain ⟨rfl, known, tree, hm⟩ := h
  obtain ⟨hk, htree⟩ := hm.of_mem hp
  rw [htree]
  exact hm.value_eq_of_shows hs hk

variable {v : View W H}

/-- What handles show in a view is shown where more can be seen. -/
theorem SeenAs.shows (hv : R.SeenAs v) {w : W} {held : Multiset H} (hw : R.Sound w held) {h : H}
    {u : Value} (hs : R.Shows w h u) : v.Shows w h u := by
  induction hs with
  | node hc _ ih => exact .node (hv.look_eq hw hc) ih
  | stale he =>
    rw [← hv.epoch_eq] at he ⊢
    rw [← hv.now_eq] at he
    exact .stale he

/-- There may be more to be seen, but not behind handles that are valid. -/
theorem SeenAs.shows_of_valid (hv : R.SeenAs v) {w : W} {held : Multiset H} (hw : R.Sound w held)
    {h : H} {u : Value} (hs : v.Shows w h u)
    (hh : R.epoch h = R.now w → (R.look w h).isSome) : R.Shows w h u := by
  induction hs with
  | @node h c u hc _ ih =>
    have he := hv.epoch_of_look hw hc
    rw [hv.epoch_eq, hv.now_eq] at he
    obtain ⟨x, hx⟩ := Option.isSome_iff_exists.1 (hh he)
    cases (hv.look_eq hw hx).symm.trans hc
    exact .node hx fun y hy => ih y hy (R.look_of_captured hw hx hy)
  | stale he =>
    rw [hv.epoch_eq, hv.now_eq] at he
    rw [hv.epoch_eq]
    exact .stale he

theorem SeenAs.shows_of_holds (hv : R.SeenAs v) (h : (R.simulation hb resets).Holds held m n)
    {p : H × Tree} (hp : p ∈ held) : v.Shows m.store p.1 (Grove.value resets p.2) := by
  obtain ⟨-, known, tree, hm⟩ := id h
  exact hv.shows hm.sound (Representation.shows_of_holds h hp)

theorem SeenAs.value_eq_of_holds (hv : R.SeenAs v) (h : (R.simulation hb resets).Holds held m n)
    {p : H × Tree} (hp : p ∈ held) {u : Value} (hs : v.Shows m.store p.1 u) :
    u = Grove.value resets p.2 := by
  obtain ⟨-, known, tree, hm⟩ := id h
  exact Representation.value_eq_of_holds h hp (hv.shows_of_valid hm.sound hs
    (R.look_of_mem hm.sound (Multiset.mem_map_of_mem Prod.fst hp)))

/-- A store that refuses no closure for its size is related to a grove that refuses none. -/
theorem erases_of_holds (hfits : ∀ c : Closure H, R.capacity.filter (· < c.footprint) = none)
    (h₀ : H) (h : (R.simulation hb resets).Holds held m n) (trees : Multiset Tree) :
    Grove.Erases resets n.store ⟨.ofNat resets.length⟩ (Grove.values resets trees) := by
  obtain ⟨rfl, known, tree, hm⟩ := h
  refine ⟨rfl, hm.resets_le, fun c => ?_, rfl, Grove.value_eq_of_mem_values⟩
  have hfoot : (c.map fun _ => h₀).footprint = c.footprint := by simp [Closure.footprint]
  rw [← hfoot, hm.capacity_eq]
  exact hfits _

section Outcomes

variable (hfits : ∀ c : Closure H, R.capacity.filter (· < c.footprint) = none) (h₀ : H)
  (hm : (R.simulation hb resets).Holds held m n)

include hfits h₀ hm

/-- What the bare store concludes with, by way of a grove, is what the store comes to. -/
theorem of_concludes {α β γ : Type} {x : Act W α} {y : Act (Grove b) β} {z : Act Bare γ}
    {result : α → β → Multiset (H × Tree) → Prop}
    {result' : β → γ → Multiset (Tree × Value) → Prop} {r : Except Violation γ}
    (hx : (R.simulation hb resets).Agree 0 held x y result)
    (hy : (Grove.erasure b resets).Agree 0 (Grove.values resets (held.map Prod.snd)) y z result')
    (hz : Bare.Concludes ⟨.ofNat resets.length⟩ z r) :
    match r with
    | .ok u => ∃ a t m' n' given given', x m = .ok a m' ∧ result a t given ∧
      (R.simulation hb resets).Holds (given + held) m' n' ∧ result' t u given' ∧
      ∀ p ∈ given', p.2 = Grove.value resets p.1
    | .error v => ∃ m', x m = .error (.violation v) m' := by
  have hgrove := Grove.of_concludes hy (erases_of_holds hfits h₀ hm _) hz
  have hcases := hx.cases hm
  cases r with
  | ok u =>
    obtain ⟨t, n', given', hy, hr', herases⟩ := hgrove
    obtain ⟨a, t', m', n'', given, hx, hy', hr, hholds⟩ | ⟨f, m', n'', -, hy', -⟩ := hcases
    · rw [hy] at hy'
      cases hy'
      exact ⟨a, t, m', n', given, given', hx, hr, hholds, hr',
        fun p hp => herases.value_eq (Multiset.mem_add.2 (.inl hp))⟩
    · rw [hy] at hy'
      cases hy'
  | error v =>
    obtain ⟨n', hy⟩ := hgrove
    obtain ⟨a, t', m', n'', -, -, hy', -⟩ | ⟨f, m', n'', hx, hy', -⟩ := hcases
    · rw [hy] at hy'
      cases hy'
    · rw [hy] at hy'
      cases hy'
      exact ⟨m', hx⟩

theorem ok_of_concludes {x : Act W H} {y : Act (Grove b) Tree} {z : Act Bare Value} {u : Value}
    (hx : (R.simulation hb resets).Agree 0 held x y Simulation.Handed)
    (hy : (Grove.erasure b resets).Agree 0 (Grove.values resets (held.map Prod.snd)) y z
      Simulation.Handed)
    (hz : Bare.Concludes ⟨.ofNat resets.length⟩ z (.ok u)) :
    ∃ a t m' n', x m = .ok a m' ∧ u = Grove.value resets t ∧
      (R.simulation hb resets).Holds ((a, t) ::ₘ held) m' n' := by
  obtain ⟨a, t, m', n', _, _, hx, rfl, hholds, rfl, hvalue⟩ := of_concludes hfits h₀ hm hx hy hz
  exact ⟨a, t, m', n', hx, hvalue (t, u) (Multiset.mem_singleton_self _), hholds⟩

theorem ending_of_concludes {α : Type} {x : Act W α} {y : Act (Grove b) α} {z : Act Bare α}
    {r : Except Violation α} (hx : (R.simulation hb resets).Agree 0 held x y Simulation.Shown)
    (hy : (Grove.erasure b resets).Agree 0 (Grove.values resets (held.map Prod.snd)) y z
      Simulation.Shown)
    (hz : Bare.Concludes ⟨.ofNat resets.length⟩ z r) :
    ending (x m) = r.mapError .violation := by
  have h := of_concludes hfits h₀ hm hx hy hz
  cases r with
  | ok u =>
    obtain ⟨a, t, m', n', _, _, hx, ⟨rfl, -⟩, -, ⟨rfl, -⟩, -⟩ := h
    rw [hx]
    rfl
  | error v =>
    obtain ⟨m', hx⟩ := h
    rw [hx]
    rfl

/-- Operations with which the bare store concludes alike have the same outcome on the store. -/
theorem sameOutcome_of_concludes {x x' : Act W H} {y y' : Act (Grove b) Tree}
    {z z' : Act Bare Value} {r : Except Violation Value}
    (hx : (R.simulation hb resets).Agree 0 held x y Simulation.Handed)
    (hy : (Grove.erasure b resets).Agree 0 (Grove.values resets (held.map Prod.snd)) y z
      Simulation.Handed)
    (hz : Bare.Concludes ⟨.ofNat resets.length⟩ z r)
    (hx' : (R.simulation hb resets).Agree 0 held x' y' Simulation.Handed)
    (hy' : (Grove.erasure b resets).Agree 0 (Grove.values resets (held.map Prod.snd)) y' z'
      Simulation.Handed)
    (hz' : Bare.Concludes ⟨.ofNat resets.length⟩ z' r) (hv : R.SeenAs v) :
    v.SameOutcome (x m) (x' m) := by
  cases r with
  | ok u =>
    obtain ⟨a, t, m₁, n₁, h₁, ht, hm₁⟩ := ok_of_concludes hfits h₀ hm hx hy hz
    obtain ⟨a', t', m₂, n₂, h₂, ht', hm₂⟩ := ok_of_concludes hfits h₀ hm hx' hy' hz'
    refine .inl ⟨a, m₁, a', m₂, u, h₁, h₂, ?_, ?_⟩
    · rw [ht]
      exact hv.shows_of_holds hm₁ (Multiset.mem_cons_self ..)
    · rw [ht']
      exact hv.shows_of_holds hm₂ (Multiset.mem_cons_self ..)
  | error v =>
    obtain ⟨m₁, h₁⟩ := of_concludes hfits h₀ hm hx hy hz
    obtain ⟨m₂, h₂⟩ := of_concludes hfits h₀ hm hx' hy' hz'
    exact .inr ⟨v, m₁, m₂, h₁, h₂⟩

variable {e : Evaluator H} {d : Evaluator Tree}

/-- A held handle iterates the held handles if its value does so on the bare store. -/
theorem iterates (hv : R.SeenAs v) (hS : (R.simulation hb resets).Serves e d held)
    (hd : Grove.Ready resets d) {l : List (H × Tree)} (hl : held = l) {f : H × Tree} (hf : f ∈ l)
    {depth k : Nat}
    (hanswers : ∀ p ∈ l, ∃ u, Bare.Concludes ⟨.ofNat resets.length⟩
      ((Bare.evaluator depth).apply (Grove.value resets f.2) (Grove.value resets p.2)) (.ok u))
    (hsame : ∀ p ∈ l, ∀ q ∈ l, ∃ r,
      Bare.Concludes ⟨.ofNat resets.length⟩ ((Bare.evaluator depth).applyTwice
          (Grove.value resets f.2) (Grove.value resets p.2) (Grove.value resets q.2)) r ∧
        Bare.Concludes ⟨.ofNat resets.length⟩ ((Bare.evaluator depth).iterate
          (Grove.value resets p.2) k (Grove.value resets q.2)) r) :
    (e.nestedTo depth).Iterates v m (l.map Prod.fst) k f.1 := by
  have hS' := hS.nestedTo depth
  have hmem {p : H × Tree} (hp : p ∈ l) : p ∈ held := by rwa [hl, Multiset.mem_coe]
  have hsnd {p : H × Tree} (hp : p ∈ l) : p.2 ∈ held.map Prod.snd :=
    Multiset.mem_map_of_mem Prod.snd (hmem hp)
  have hheld (b : Builtin) : d.singletons.get b ∈ held.map Prod.snd :=
    Multiset.mem_map_of_mem Prod.snd (hS.builtin b)
  constructor
  case answers =>
    intro s hs
    obtain ⟨p, hp, rfl⟩ := List.mem_map.1 hs
    obtain ⟨u, hu⟩ := hanswers p hp
    obtain ⟨a, -, m', -, hx, -⟩ := ok_of_concludes hfits h₀ hm (hS'.agree_apply (hmem hf) (hmem hp))
      (Grove.agree_apply hd hS.right hheld depth (hsnd hf) (hsnd hp)) hu
    exact ⟨a, m', hx⟩
  case sameOutcome =>
    intro s z hs hz
    obtain ⟨p, hp, rfl⟩ := List.mem_map.1 hs
    obtain ⟨q, hq, rfl⟩ := List.mem_map.1 hz
    obtain ⟨r, htwice, hiterate⟩ := hsame p hp q hq
    exact sameOutcome_of_concludes hfits h₀ hm
      (hS'.agree_applyTwice (hmem hf) (hmem hp) (hmem hq))
      (Grove.agree_applyTwice hd hS.right hheld depth (hsnd hf) (hsnd hp) (hsnd hq)) htwice
      (hS'.agree_iterate (hmem hp) k (hmem hq))
      (Grove.agree_iterate hd hS.right hheld depth (hsnd hp) k (hsnd hq)) hiterate hv

end Outcomes

variable {e : Evaluator H} {d : Evaluator Tree} {c : Simulation.Pairing H Tree}
  {s : Session W H} {t : Session (Grove b) Tree}

/-- A session that is related to one on a grove obeys the law of iteration if no closure is too
large for the store. -/
theorem obeysIteration (hfits : ∀ c : Closure H, R.capacity.filter (· < c.footprint) = none)
    (hv : R.SeenAs v) (hd : Grove.Ready resets d)
    (h : (R.simulation hb resets).Paired e d c 0 s t) : s.ObeysIteration v := by
  intro e' he term term' k k' start hk hk'
  obtain ⟨rfl, l, hs, hholds, hserves⟩ := h.exists_serves he
  have h₀ := e'.singletons.zero
  have hsite := hserves.right
  have hheld (b : Builtin) : d.singletons.get b ∈ (l : Multiset (H × Tree)).map Prod.snd :=
    Multiset.mem_map_of_mem Prod.snd (hserves.builtin b)
  -- What the terms are on the bare store, and that they are the values of trees.
  obtain ⟨u, hu, hcounts⟩ := Bare.Counts.build ⟨.ofNat resets.length⟩ hk
  obtain ⟨u', hu', hcounts'⟩ := Bare.Counts.build ⟨.ofNat resets.length⟩ hk'
  have herases := erases_of_holds hfits h₀ hholds ((l : Multiset (H × Tree)).map Prod.snd)
  obtain ⟨tree, rfl⟩ : ∃ tree, u = Grove.value resets tree := by
    obtain ⟨depth, hdepth⟩ := hu.exists
    obtain ⟨a, tree, -, -, -, htree, -⟩ := ok_of_concludes hfits h₀ hholds
      ((hserves.nestedTo depth).agree_build term)
      (Grove.agree_build hd hsite hheld depth term) hdepth
    exact ⟨tree, htree⟩
  let vs := (tree :: l.map Prod.snd).map (Grove.value resets)
  have hends : ∀ x ∈ vs, ∀ z ∈ vs, ∃ r, Bare.Iterates ⟨.ofNat resets.length⟩ x k z r := by
    intro x hx z hz
    obtain ⟨x, -, rfl⟩ := List.mem_map.1 hx
    obtain ⟨z, -, rfl⟩ := List.mem_map.1 hz
    exact Grove.exists_iterates hd hsite herases x k z
  obtain ⟨depth, hdepth⟩ := eventually_atTop.1
    (Bare.eventually_measured hu hcounts hu' hcounts' hends start)
  refine ⟨depth, fun i hi => ?_⟩
  have hmeasured := hdepth i hi
  -- The handle that the first term is built into is held from now on.
  obtain ⟨f, f', m, n, hf, hvalue, hm⟩ := ok_of_concludes hfits h₀ hholds
    ((hserves.nestedTo i).agree_build term) (Grove.agree_build hd hsite hheld i term)
    hmeasured.build
  have hserves₁ := hserves.cons (f, f')
  have hheld₁ (b : Builtin) :
      d.singletons.get b ∈ ((f, f') ::ₘ (l : Multiset (H × Tree))).map Prod.snd :=
    Multiset.mem_map_of_mem Prod.snd (hserves₁.builtin b)
  have hmem : ∀ p ∈ (f, f') :: l, Grove.value resets p.2 ∈ vs := by
    intro p hp
    rcases List.mem_cons.1 hp with rfl | hp
    · rw [← hvalue]
      exact List.mem_map_of_mem (List.mem_cons_self ..)
    · exact List.mem_map_of_mem (List.mem_cons_of_mem _ (List.mem_map_of_mem hp))
  rw [hvalue] at hmeasured
  have hself : (f, f') ∈ (f, f') ::ₘ (l : Multiset (H × Tree)) := Multiset.mem_cons_self ..
  have hself' : f' ∈ ((f, f') ::ₘ (l : Multiset (H × Tree))).map Prod.snd :=
    Multiset.mem_map_of_mem Prod.snd hself
  refine ⟨f, m, hf, ?_, ?_, ?_, ?_⟩
  · rw [hs, ← List.map_cons (f := Prod.fst) (a := (f, f'))]
    exact iterates hfits h₀ hm hv hserves₁ hd (Multiset.cons_coe (f, f') l) (List.mem_cons_self ..)
      (fun p hp => hmeasured.answers (hmem p hp))
      fun p hp q hq => hmeasured.sameOutcome (hmem p hp) (hmem q hq)
  · exact ending_of_concludes hfits h₀ hm ((hserves₁.nestedTo i).agree_countFrom start hself)
      (Grove.agree_countFrom hd hsite hheld₁ i start hself') hmeasured.count
  · exact ending_of_concludes hfits h₀ hm ((hserves₁.nestedTo i).agree_countFrom 0 hself)
      (Grove.agree_countFrom hd hsite hheld₁ i 0 hself') hmeasured.fold
  · obtain ⟨g, g', m', n', hg, hvalue', hm'⟩ := ok_of_concludes hfits h₀ hm
      ((hserves₁.nestedTo i).agree_build term') (Grove.agree_build hd hsite hheld₁ i term')
      hmeasured.build'
    have hpow := hmeasured.pow
    rw [hvalue'] at hpow
    have hserves₂ := hserves₁.cons (g, g')
    have hheld₂ (b : Builtin) :
        d.singletons.get b ∈ ((g, g') ::ₘ (f, f') ::ₘ (l : Multiset (H × Tree))).map Prod.snd :=
      Multiset.mem_map_of_mem Prod.snd (hserves₂.builtin b)
    refine ⟨g, m', hg, ending_of_concludes hfits h₀ hm'
      ((hserves₂.nestedTo i).agree_pow (a := (f, f')) (b := (g, g')) (by simp) (by simp))
      (Grove.agree_pow hd hsite hheld₂ i (by simp) (by simp)) hpow⟩

/-- On a store that is never reset, the law holds after every run of operations. -/
theorem obeysIteration_after {limits : Limits} {w : W} {g : Grove b}
    (hopens : (R.simulation hb []).Opens limits w g) (hmade : g.made = [])
    (hcap : g.capacity.filter (· < Closure.headerWord) = none)
    (hfits : ∀ c : Closure H, R.capacity.filter (· < c.footprint) = none) (filter : Log.Filter)
    {commands : List Command} (hc : ∀ command ∈ commands, command.isOperation = true) :
    ((openedOn w filter limits).after commands).ObeysIteration R.toView := by
  obtain ⟨e, c, hafter⟩ := hopens.paired_after filter (Grove.openGrove_of_fits limits hcap hmade) hc
  exact obeysIteration hfits .rfl (Grove.ready_evaluator limits) hafter

end Representation

/-- Without an evaluator there is nothing to show. -/
theorem Session.obeysIteration_of_unopened {v : View W H} {s : Session W H} (h : s.seats = #[]) :
    s.ObeysIteration v := by
  intro e he
  rw [h] at he
  cases he

theorem Arenas.obeysIteration (filter : Log.Filter) {limits : Limits}
    (hcap : Closure.maxFootprint ≤ limits.blockCapacity) {commands : List Command}
    (hc : ∀ command ∈ commands, command.isOperation = true ∨ command.isReset = true)
    (hlt : commands.countP (·.isReset) < UInt32.size) :
    ((opened Arenas filter limits).after commands).ObeysIteration
      (Arenas.view 0 limits.blockCapacity) := by
  obtain hnone | ⟨resets, e, d, c, t, hd, hpaired⟩ := unopened_or_paired filter limits hc hlt
  · exact Session.obeysIteration_of_unopened hnone
  · exact Representation.obeysIteration (Closure.filter_footprint_eq_none hcap) .rfl hd hpaired

/-- So it does after every run of an evaluator that goes on alone, whatever has been done before. -/
theorem Representation.Begins.obeysIteration_after {R : Representation W} {v : View W H}
    {e : Evaluator H} {m : Machine W} (hR : R.Begins v e m.store) {commands : List Command}
    (hc : ∀ command ∈ commands, command.isOperation = true) :
    ((resume e m).after commands).ObeysIteration v := by
  obtain ⟨resets, t, hd, hpaired⟩ := hR.exists_paired rfl
  obtain ⟨⟨c, hafter⟩, -⟩ := hpaired.after commands hc
  exact obeysIteration hR.capacity_eq hR.seen hd hafter

/-- Arithmetic terms obey the law of iteration after every run of operations on any of the stores,
which for arenas have to have room for every closure and may also be reset less often than there are
epochs. Wherever evaluators go on alone they obey it, too, whatever sessions have done before. -/
theorem terms_iterate (filter : Log.Filter) (limits : Limits) (commands : List Command) :
    (Closure.maxFootprint ≤ limits.blockCapacity →
        (∀ command ∈ commands, command.isOperation = true ∨ command.isReset = true) →
        commands.countP (·.isReset) < UInt32.size →
        ((opened Arenas filter limits).after commands).ObeysIteration
          (Arenas.view 0 limits.blockCapacity)) ∧
      ((∀ command ∈ commands, command.isOperation = true) →
        ((opened SharedHeap filter limits).after commands).ObeysIteration (SharedHeap.view 0) ∧
          ((opened Pools filter limits).after commands).ObeysIteration (Pools.view 0) ∧
          Resumed filter commands fun v s => s.ObeysIteration v) := by
  refine ⟨fun hcap hc hlt => Arenas.obeysIteration filter hcap hc hlt, fun hc => ⟨?_, ?_,
    resumed_of_begins fun _ hR => hR.obeysIteration_after hc⟩⟩
  · exact Representation.obeysIteration_after (SharedHeap.opens limits) rfl rfl (fun _ => rfl)
      filter hc
  · exact Representation.obeysIteration_after (Pools.opens limits) rfl rfl (fun _ => rfl) filter hc

/-- Two to the third, on an arena in which a numeral and an integer have become stale, the law on
the other stores, and for the second of two arenas, which has been given a handle of the first. -/
theorem terms_iterate_stale :
    (∃ e, ((opened Arenas .off { blockCapacity := 24 }).after
          [.numeral 2 "n", .int 5 "i", .reset]).seats[0]? = some ⟨e, true⟩ ∧
        ∃ depth, ∀ d, depth ≤ d → ∃ f m,
          (Term.app (.numeral 3) (.numeral 2)).build (e.nestedTo d) ((opened Arenas .off
            { blockCapacity := 24 }).after [.numeral 2 "n", .int 5 "i", .reset]).machine =
              .ok f m ∧
          ending ((e.nestedTo d).fold f m) = .ok 8) ∧
      ((opened SharedHeap .off {}).after [.numeral 2 "n", .int 5 "i"]).ObeysIteration
        (SharedHeap.view 0) ∧
      ((opened Pools .off {}).after [.numeral 2 "n", .int 5 "i"]).ObeysIteration
        (Pools.view 0) ∧
      let turns : List (Nat × Command) := [(0, .new {}), (0, .new {}), (0, .int 5 "a"),
        (1, .successor "a" "p"), (1, .reset)]
      let s : Session Arenas ArenaRef := (start .off).afterTurns turns
      ∃ e, s.seats[1]? = some ⟨e, true⟩ ∧
        ((resume e s.machine).after [.numeral 2 "n", .int 5 "i"]).ObeysIteration
          (Arenas.view e.site (s.machine.store.arena e.site).capacity) := by
  obtain ⟨hheap, hpool, hresumed⟩ :=
    (terms_iterate .off {} [.numeral 2 "n", .int 5 "i"]).2 (by decide)
  refine ⟨?_, hheap, hpool, ?_⟩
  swap
  · intro turns s
    have hseat : s.seats[1]?.map (fun seat => (seat.isOpen,
        decide (Closure.maxFootprint ≤ (s.machine.store.arena seat.evaluator.site).capacity))) =
        some (true, true) := by
      decide +kernel
    clear_value turns
    obtain ⟨⟨e, o⟩, he, hseat⟩ := Option.map_eq_some_iff.1 hseat
    obtain ⟨rfl, hcap⟩ := Prod.mk.inj hseat
    exact ⟨e, he, (hresumed turns 1).1 e he (of_decide_eq_true hcap)⟩
  have hopen : (((opened Arenas .off { blockCapacity := 24 }).after
      [.numeral 2 "n", .int 5 "i", .reset]).seats[0]?).map (·.isOpen) = some true := by
    decide +kernel
  obtain ⟨⟨e, o⟩, he, rfl⟩ := Option.map_eq_some_iff.1 hopen
  have h := (terms_iterate .off { blockCapacity := 24 } [.numeral 2 "n", .int 5 "i", .reset]).1
    (by decide) (by decide) (by decide) e he
  have height : (counted 0 8).mapError Fault.violation = .ok 8 := by decide +kernel
  obtain ⟨depth, hdepth⟩ := h (.app (.numeral 3) (.numeral 2)) (.numeral 0) 8 0 0 rfl rfl
  refine ⟨e, he, depth, fun d hd => ?_⟩
  obtain ⟨f, m, hbuild, -, -, hfold, -⟩ := hdepth d hd
  exact ⟨f, m, hbuild, hfold.trans height⟩

end ChurchStore
