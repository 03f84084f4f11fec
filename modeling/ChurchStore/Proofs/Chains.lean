import ChurchStore.Proofs.Addition
import ChurchStore.Proofs.CountingCosts
import ChurchStore.Proofs.Restoration

/-!
# Sums and products are chains

The sum of a numeral and any closure is a chain of new successors that leads down to that closure
itself, and a product of numerals is one that leads down to the function that all zeros share. Each
successor is made once, and besides the chain only closures that collect the arguments of numerals.
A store that counts owners has nothing but the chain left of all this, and everything else is where
it was.
-/

namespace ChurchStore

open Filter Session

open Value (church)

variable {W H : Type}

/-- From `h` down to `x` leads a chain of successors, which are behind the handles of the list. -/
inductive Chain (look : H → Option (Closure H)) (x : H) : List H → H → Prop where
  | base : Chain look x [] x
  | succ {h n : H} {l : List H} : look h = some (.succPartial n) → Chain look x l n →
    Chain look x (h :: l) h

theorem Chain.exists_look {look : H → Option (Closure H)} {x h : H} {l : List H}
    (hc : Chain look x l h) : ∀ z ∈ l, ∃ n, look z = some (.succPartial n) := by
  induction hc with
  | base => exact fun z hz => nomatch hz
  | succ hlook _ ih => exact List.forall_mem_cons.2 ⟨⟨_, hlook⟩, ih⟩

theorem Chain.mono {look look' : H → Option (Closure H)} {x h : H} {l : List H}
    (hlook : ∀ {h c}, look h = some c → look' h = some c) (hc : Chain look x l h) :
    Chain look' x l h := by
  induction hc with
  | base => exact .base
  | succ hsucc _ ih => exact .succ (hlook hsucc) ih

/-! ### Chains of labelled closures -/

namespace Labels

variable {look look' : H → Option (Closure H)} {roots roots' : List H} {tree tree' : H → Tree}
  {h x : H} {l : List H} {first k : Nat}

theorem occurs_of_chain (hl : Labels look roots tree) (hc : Chain look x l h) {u : Tree}
    (hu : u.Occurs (tree h)) : u.Occurs (tree x) ∨ ∃ z ∈ l, tree z = u := by
  induction hc with
  | base => exact .inl hu
  | @succ h n l hlook _ ih =>
    have hclosure := hl.closure_eq hlook
    generalize htree : tree h = t at hu hclosure
    cases hu with
    | root => exact .inr ⟨h, List.mem_cons_self .., htree⟩
    | @capture number c t ht hu =>
      change c = .succPartial (tree n) at hclosure
      subst hclosure
      obtain rfl := List.mem_singleton.1 ht
      rcases ih hu with hocc | ⟨z, hz, hzu⟩
      · exact .inl hocc
      · exact .inr ⟨z, List.mem_cons_of_mem _ hz, hzu⟩

/-- A chain only goes down. -/
theorem nodup_of_chain (hl : Labels look roots tree) (hc : Chain look x l h) :
    l.Nodup ∧ ∀ z ∈ l, (tree z).height ≤ (tree h).height := by
  induction hc with
  | base => exact ⟨List.nodup_nil, fun z hz => nomatch hz⟩
  | @succ h n l hlook _ ih =>
    have hlt : (tree n).height < (tree h).height := hl.height_lt hlook (List.mem_singleton_self n)
    refine ⟨List.nodup_cons.2 ⟨fun hmem => ?_, ih.1⟩, fun z hz => ?_⟩
    · have hle := ih.2 h hmem
      omega
    · rcases List.mem_cons.1 hz with rfl | hz
      · exact Nat.le_refl _
      · have hle := ih.2 z hz
        omega

theorem le_number_of_chain (hl : Labels look roots tree) (hc : Chain look x l h)
    (ht : Tree.Climbs first (tree x) l.length (tree h)) : ∀ z ∈ l, first ≤ (tree z).number := by
  induction hc with
  | base => exact fun z hz => nomatch hz
  | @succ h n l hlook _ ih =>
    have hclosure := hl.closure_eq hlook
    generalize htree : tree h = t at ht hclosure
    cases ht with
    | @succ _ number t hle ht =>
      cases hclosure
      intro z hz
      rcases List.mem_cons.1 hz with rfl | hz
      · rwa [htree]
      · exact ih ht z hz

/-- What is there, and does not move to other handles, is kept as long as it is held. -/
theorem look_eq_of_kept (hl : Labels look roots tree) (hl' : Labels look' roots' tree')
    (hroots : ∀ r ∈ roots, r ∈ roots' ∧ tree' r = tree r)
    (hunmoved : ∀ {y z : H}, (look' y).isSome → (look z).isSome →
      (tree' y).number = (tree z).number → y = z ∧ tree' y = tree z)
    (hr : Reachable look roots h) : look' h = look h ∧ tree' h = tree h := by
  -- A closure is the same if its handle stands for the same tree.
  have hstep {y : H} (hy : (look y).isSome) (hy' : (look' y).isSome) (htree : tree' y = tree y) :
      look' y = look y := by
    obtain ⟨c, hc⟩ := Option.isSome_iff_exists.1 hy
    obtain ⟨c', hc'⟩ := Option.isSome_iff_exists.1 hy'
    have hmap : c'.map tree' = c.map tree := by
      rw [← hl.closure_eq hc, ← hl'.closure_eq hc', htree]
    have hsame (z : H) (hz : z ∈ c'.captures) : (look z).isSome ∧ tree' z = tree z := by
      have hmem : tree' z ∈ c.captures.map tree := by
        rw [← Closure.captures_map, ← hmap, Closure.captures_map]
        exact List.mem_map_of_mem hz
      obtain ⟨z', hz', heq⟩ := List.mem_map.1 hmem
      have hlook := hl.isSome_look_captured hc z' hz'
      obtain ⟨rfl, htree⟩ := hunmoved (hl'.isSome_look_captured hc' z hz) hlook
        (congrArg Tree.number heq.symm)
      exact ⟨hlook, htree⟩
    rw [Closure.map_congr fun z hz => (hsame z hz).2] at hmap
    rw [hc, hc', Closure.eq_of_map_eq (fun z hz z' hz' heq => ?_) hmap]
    exact hl.number_injective (hsame z hz).1 (hl.isSome_look_captured hc z' hz')
      (congrArg Tree.number heq)
  induction hr with
  | @root h hmem =>
    obtain ⟨hmem', htree⟩ := hroots h hmem
    exact ⟨hstep (hl.isSome_look h hmem) (hl'.isSome_look h hmem') htree, htree⟩
  | @capture h x c _ hc hx ih =>
    have hc' : look' h = some c := ih.1.trans hc
    have hmap : c.captures.map tree' = c.captures.map tree := by
      rw [← Closure.captures_map, ← Closure.captures_map, ← hl.closure_eq hc,
        ← hl'.closure_eq hc', ih.2]
    have htree := List.map_inj_left.1 hmap x hx
    exact ⟨hstep (hl.isSome_look_captured hc x hx) (hl'.isSome_look_captured hc' x hx) htree,
      htree⟩

end Labels

/-- Of all that has been made from one store to another, there are only the closures behind the
handles of the list, and everything else is where it was. -/
structure Leaves (look look' : H → Option (Closure H)) (l : List H) : Prop where
  nodup : l.Nodup
  fresh : ∀ h ∈ l, look h = none
  look_eq {h : H} : h ∉ l → look' h = look h

/-- Where everything can be reached, a climb from something that is held leaves its chain. -/
theorem Labels.leaves {look look' : H → Option (Closure H)} {roots l : List H}
    {tree tree' : H → Tree} {h x : H} {first : Nat} (hl : Labels look roots tree)
    (hl' : Labels look' (h :: roots) tree')
    (hreach : ∀ z, (look z).isSome → Reachable look roots z)
    (hreach' : ∀ z, (look' z).isSome → Reachable look' (h :: roots) z)
    (hroots : ∀ r ∈ roots, tree' r = tree r)
    (hunmoved : ∀ {y z : H}, (look' y).isSome → (look z).isSome →
      (tree' y).number = (tree z).number → y = z ∧ tree' y = tree z)
    (hlt : ∀ z, (look z).isSome → (tree z).number < first) (hx : x ∈ roots)
    (hc : Chain look' x l h) (ht : Tree.Climbs first (tree' x) l.length (tree' h)) :
    Leaves look look' l := by
  have hkept {z : H} (hz : (look z).isSome) : look' z = look z ∧ tree' z = tree z :=
    hl.look_eq_of_kept hl' (fun r hr => ⟨List.mem_cons_of_mem h hr, hroots r hr⟩) hunmoved
      (hreach z hz)
  have hfresh : ∀ z ∈ l, look z = none := by
    intro z hz
    have hle := hl'.le_number_of_chain hc ht z hz
    by_contra hsome
    rw [← ne_eq, Option.ne_none_iff_isSome] at hsome
    have hltz := hlt z hsome
    rw [(hkept hsome).2] at hle
    omega
  refine ⟨(hl'.nodup_of_chain hc).1, hfresh, fun {z} hz => ?_⟩
  by_cases hsome : (look z).isSome
  · exact (hkept hsome).1
  · rw [Bool.not_eq_true, Option.isSome_eq_false_iff, Option.isNone_iff_eq_none] at hsome
    rw [hsome, ← Option.not_isSome_iff_eq_none]
    intro hz'
    -- A closure that is new and held below something old would have been there before.
    have hold {r : H} (hr : r ∈ roots) (hocc : (tree' z).Occurs (tree' r)) : False := by
      rw [hroots r hr] at hocc
      obtain ⟨k, hk, heq⟩ := hl.exists_of_occurs hocc (hl.isSome_look r hr) rfl
      obtain ⟨rfl, -⟩ := hunmoved hz' hk (congrArg Tree.number heq.symm)
      rw [hsome] at hk
      cases hk
    obtain ⟨_, hmem, hocc⟩ := hl'.occurs_of_reachable (hreach' z hz')
    obtain ⟨r, hr, rfl⟩ := List.mem_map.1 hmem
    rcases List.mem_cons.1 hr with rfl | hr
    · rcases hl'.occurs_of_chain hc hocc with hocc | ⟨y, hy, heq⟩
      · exact hold hx hocc
      · obtain ⟨n, hn⟩ := hc.exists_look y hy
        have hyz := hl'.number_injective (by rw [hn]; rfl) hz' (congrArg Tree.number heq)
        exact hz (hyz ▸ hy)
    · exact hold hr hocc

/-- A chain that is left counts for the kind of its closures. -/
theorem Leaves.ncard_live {v : View W H} {w w' : W} {l : List H} {x h : H}
    (hleaves : Leaves (v.look w) (v.look w') l) (hc : Chain (v.look w') x l h) {k : Kind}
    (hfin : (v.live w k).Finite) :
    (v.live w' k).ncard = (v.live w k).ncard + if k = .succPartial then l.length else 0 := by
  have hmem (z : H) : z ∈ v.live w' k ↔ z ∈ v.live w k ∨ z ∈ l ∧ k = .succPartial := by
    by_cases hz : z ∈ l
    · obtain ⟨n, hn⟩ := hc.exists_look z hz
      simp [View.live, hn, hz, hleaves.fresh z hz, Closure.kind, eq_comm]
    · simp [View.live, hz, hleaves.look_eq hz]
  split
  · subst k
    have hunion : v.live w' .succPartial = v.live w .succPartial ∪ {z | z ∈ l} := by
      ext z
      simp [hmem]
    have hdisjoint : Disjoint (v.live w .succPartial) {z | z ∈ l} := by
      rw [Set.disjoint_left]
      rintro z ⟨c, hc, -⟩ hz
      rw [hleaves.fresh z hz] at hc
      cases hc
    rw [hunion, Set.ncard_union_eq hdisjoint hfin l.finite_toSet,
      ncard_mem_of_nodup hleaves.nodup]
  · rename_i hk
    have hsame : v.live w' k = v.live w k := by
      ext z
      simp [hmem, hk]
    rw [hsame, Nat.add_zero]

/-! ### Climbing on stores -/

/-- How many closures of each kind it takes to climb `k` successors up, where `inner` closures
collect the arguments of numerals. -/
def climbCost (inner k : Nat) : Kind → Nat
  | .succInner => inner
  | .succPartial => k
  | .zero | .zeroInner | .succ | .intLiteral | .inc => 0

/-- How many closures collect arguments where the numerals `j` and `k` are multiplied. -/
def mulInner (j k : Nat) : Nat := if k = 0 then j else j * k + 1

theorem count_climbCost_plus (k : Nat) (kind : Kind) :
    (k • {.succInner} + k • {.succPartial} : Multiset Kind).count kind = climbCost k k kind := by
  cases kind <;> simp [climbCost]

theorem count_climbCost_mul (j k : Nat) (kind : Kind) :
    (min k 1 • {.succInner} + (min j 1 • {.succInner} + ((j - 1) • {.succInner} +
      j • ((k - 1) • {.succInner} + k • {.succPartial}))) : Multiset Kind).count kind =
        climbCost (mulInner j k) (j * k) kind := by
  cases kind with
  | succInner =>
    have hsum : min k 1 + (min j 1 + (j - 1 + j * (k - 1))) = mulInner j k := by
      cases k with
      | zero =>
        simp only [mulInner, if_pos, Nat.zero_min, Nat.zero_sub, Nat.mul_zero]
        omega
      | succ k =>
        simp only [mulInner, if_neg (Nat.succ_ne_zero k), Nat.add_sub_cancel, Nat.mul_succ]
        omega
    simpa [climbCost] using hsum
  | succPartial => simp [climbCost]
  | zero | zeroInner | succ | intLiteral | inc => simp [climbCost]

variable [Host W H]

/-- What comes of a call that climbs `k` successors up from `x`, where `inner` closures collect the
arguments of numerals: a chain from `y` down to `x`, and nothing else is allocated. What `left` says
holds of the stores before and after the call and of the chain. -/
def Evaluator.Climbs (e : Evaluator H) (v : View W H) (left : W → W → List H → Nat → Prop)
    (m m' : Machine W) (x y : H) (inner k : Nat) : Prop :=
  ∃ l, Chain (v.look m'.store) x l y ∧ l.length = k ∧ e.Allocates m m' (climbCost inner k) ∧
    left m.store m'.store l inner

/-- Sums and products of the numerals that are held, as soon as the evaluator may nest deep
enough. -/
structure Evaluator.Sums (v : View W H) (left : W → W → List H → Nat → Prop) (e : Evaluator H)
    (held : List H) (m : Machine W) : Prop where
  plus {a x : H} {k : Nat} : a ∈ held → x ∈ held → v.Shows m.store a (church k) →
    ∃ depth, ∀ i, depth ≤ i → ∃ y m', (e.nestedTo i).plus a x m = .ok y m' ∧
      e.Climbs v left m m' x y k k
  mul {a c : H} {j k : Nat} : a ∈ held → c ∈ held → v.Shows m.store a (church j) →
    v.Shows m.store c (church k) → ∃ depth, ∀ i, depth ≤ i → ∃ y m',
      (e.nestedTo i).mul a c m = .ok y m' ∧ v.Shows m'.store y (church (j * k)) ∧
        e.Climbs v left m m' e.singletons.zero y (mulInner j k) (j * k)

/-- Sums and products of numerals that are held already or built beforehand, and products of
arithmetic terms. -/
structure Evaluator.BuildsChains (v : View W H) (left : W → W → List H → Nat → Prop)
    (e : Evaluator H) (held : List H) (m : Machine W) : Prop where
  sums : e.Sums v left held m
  numerals (j k : Nat) : ∃ depth, ∀ i, depth ≤ i → ∃ a m₁ c m₂,
    (e.nestedTo i).numeral j m = .ok a m₁ ∧ (e.nestedTo i).numeral k m₁ = .ok c m₂ ∧
      v.Shows m₂.store a (church j) ∧ v.Shows m₂.store c (church k) ∧
      e.Sums v left (c :: a :: held) m₂
  mul_terms {t t' : Term} {j k : Nat} : t.number? = some j → t'.number? = some k →
    ∃ depth, ∀ i, depth ≤ i → ∃ y m', (Term.mul t t').build (e.nestedTo i) m = .ok y m' ∧
      v.Shows m'.store y (church (j * k))

namespace Representation

variable {b : Nat} {R : Representation W} {w w' : W} {g g' : Grove b}
  {held held' : Multiset (H × Tree)} {known known' : H → Prop} {tree tree' : H → Tree}

/-- A climb is a chain of closures. -/
theorem Mirrors.exists_chain (hm : R.Mirrors w g held known tree) {first k : Nat} {t : Tree}
    {h x : H} (hfirst : ∀ r ∈ g.resets, r ≤ first) (ht : Tree.Climbs first (tree x) k t)
    (hx : known x) (hh : known h) (htree : tree h = t) :
    ∃ l, Chain (R.look w) x l h ∧ l.length = k := by
  induction ht generalizing h with
  | base => exact ⟨[], hm.number_injective hh hx (by rw [htree]) ▸ .base, rfl⟩
  | @succ k number t hle _ ih =>
    have hcurrent : g.epochOf (tree h).number = g.resets.length := by
      rw [htree]
      exact List.countP_eq_length.2 fun r hr => decide_eq_true ((hfirst r hr).trans hle)
    obtain ⟨c, hc⟩ := Option.isSome_iff_exists.1
      (hm.look_isSome hh ((hm.epoch_eq_now_iff hh).2 hcurrent))
    obtain ⟨-, hclosure, hcaptures⟩ := hm.of_look hc
    rw [htree] at hclosure
    change .succPartial t = c.map tree at hclosure
    cases c with
    | succPartial n =>
      obtain ⟨l, hchain, hlength⟩ := ih (hcaptures n (List.mem_singleton_self n))
        (Closure.succPartial.inj hclosure).symm
      exact ⟨h :: l, .succ hc hchain, by rw [List.length_cons, hlength]⟩
    | zero | zeroInner | succ | succInner | intLiteral | inc => cases hclosure

/-- Two moments between which nothing that had been made has moved to another handle. -/
structure Since (R : Representation W) (w w' : W) (g g' : Grove b)
    (held held' : Multiset (H × Tree)) (known known' : H → Prop) (tree tree' : H → Tree) :
    Prop where
  before : R.Mirrors w g held known tree
  after : R.Mirrors w' g' held' known' tree'
  continues : Labelling.Continues ⟨known', tree', g'.made⟩ ⟨known, tree, g.made⟩

variable {hb : Backend.handleBytes W = b} {resets : List Nat} {e : Evaluator H}
  {d : Evaluator Tree} {m : Machine W} {n : Machine (Grove b)}

namespace AtWork

/-- What the grove spends on a tree, the store allocates, and nothing moves. -/
theorem hands_since {x : Act W H} {y : Act (Grove b) Tree} {P : Tree → Prop} {κ : Multiset Kind}
    {cost : Kind → Nat} (h : R.AtWork hb resets e d held m n)
    (hagree : ∀ {S : Simulation W (Grove b)}, S.Serves e d held →
      S.Agree 0 held x y Simulation.Handed)
    (hspends : Grove.Spends resets n.store.made.length y P κ) (hcost : ∀ k, κ.count k = cost k) :
    ∃ p m' n' known tree known' tree', x m = .ok p.1 m' ∧ P p.2 ∧
      R.AtWork hb resets e d (p ::ₘ held) m' n' ∧
      R.Since m.store m'.store n.store n'.store held (p ::ₘ held) known known' tree tree' ∧
      e.Allocates m m' cost := by
  obtain ⟨hresets, known, tree, hm⟩ := h.holds
  have hserves : (R.simulationSince hb resets ⟨known, tree, n.store.made⟩).Serves e d held :=
    ⟨h.serves.left, h.serves.right, h.serves.nesting, h.serves.builtin⟩
  obtain ⟨t, l, hy, hP, rfl⟩ := hspends n (h.roomy (Nat.le_refl _))
  obtain ⟨a, u, m', n', given, hx, hy', rfl, hholds⟩ | ⟨f, m', n', -, hy', -⟩ :=
    (hagree hserves).cases (m := m) (n := n) ⟨hresets, known, tree, hm, .rfl⟩
  · cases hy.symm.trans hy'
    obtain ⟨hresets', known', tree', hm', hl⟩ := hholds
    refine ⟨(a, t), m', { n with store := n.store.growAll l }, known, tree, known', tree', hx, hP,
      ?_, ⟨hm, hm', hl⟩, h.allocates hm' fun k => by rw [← hcost, Multiset.coe_count]⟩
    exact { h with
      serves := h.serves.cons _
      holds := ⟨hresets', known', tree', hm'⟩ }
  · cases hy.symm.trans hy'

end AtWork

/-- What is said to be left of climbs is left of every climb of an evaluator at work. -/
def Leaving (R : Representation W) (hb : Backend.handleBytes W = b) (resets : List Nat)
    (e : Evaluator H) (d : Evaluator Tree) (left : W → W → List H → Nat → Prop) : Prop :=
  ∀ {held : List (H × Tree)} {p q : H × Tree} {m m' : Machine W} {n n' : Machine (Grove b)}
    {known known' : H → Prop} {tree tree' : H → Tree} {l : List H} {inner : Nat},
    R.AtWork hb resets e d held m n →
    R.Since m.store m'.store n.store n'.store held ((p :: held : List (H × Tree))) known known'
      tree tree' →
    n'.store.resets = resets → q ∈ held →
    Tree.Climbs n.store.made.length q.2 l.length p.2 → Chain (R.look m'.store) q.1 l p.1 →
    (∀ k, R.allocated m'.store k = R.allocated m.store k + climbCost inner l.length k) →
    left m.store m'.store l inner

namespace AtWork

variable {v : View W H} {left : W → W → List H → Nat → Prop} {l : List (H × Tree)}

theorem climbs {x : Act W H} {y : Act (Grove b) Tree} {κ : Multiset Kind} {q : H × Tree}
    {inner k : Nat} (h : R.AtWork hb resets e d l m n) (hv : R.SeenAs v)
    (hleft : R.Leaving hb resets e d left)
    (hagree : ∀ {S : Simulation W (Grove b)}, S.Serves e d l →
      S.Agree 0 l x y Simulation.Handed)
    (hspends : Grove.Spends resets n.store.made.length y
      (Tree.Climbs n.store.made.length q.2 k) κ)
    (hq : q ∈ l) (hcost : ∀ kind, κ.count kind = climbCost inner k kind) :
    ∃ p m' n', x m = .ok p.1 m' ∧ Tree.Climbs n.store.made.length q.2 k p.2 ∧
      R.AtWork hb resets e d (p :: l : List (H × Tree)) m' n' ∧
      e.Climbs v left m m' q.1 p.1 inner k := by
  obtain ⟨p, m', n', known, tree, known', tree', hx, hp, hwork, hsince, hallocates⟩ :=
    h.hands_since hagree hspends hcost
  rw [Multiset.cons_coe] at hwork hsince
  have hroomy := h.roomy (Nat.zero_le _)
  have hresets := (hwork.roomy (Nat.zero_le _)).resets_eq
  obtain ⟨hkp, hp'⟩ := hsince.after.of_mem (p := p) (by simp)
  obtain ⟨hkq, hq'⟩ := hsince.after.of_mem (p := q) (by simp [hq])
  have hclimbs := hp
  rw [hp', hq'] at hclimbs
  obtain ⟨z, hchain, rfl⟩ := hsince.after.exists_chain
    (fun r hr => hroomy.resets_le r (hresets ▸ hr)) hclimbs hkq hkp rfl
  refine ⟨p, m', n', hx, hp, hwork, z, hchain.mono (hv.look_eq hsince.after.sound), rfl,
    hallocates, ?_⟩
  exact hleft h hsince hresets hq hp hchain fun kind => h.allocations_eq_iff.1 (hallocates kind)

theorem value_eq (h : R.AtWork hb resets e d l m n) (hv : R.SeenAs v) {p : H × Tree} {u : Value}
    (hp : p ∈ l) (hs : v.Shows m.store p.1 u) : Grove.value resets p.2 = u :=
  (hv.value_eq_of_holds h.holds hp hs).symm

theorem sums (h : R.AtWork hb resets e d l m n) (hv : R.SeenAs v)
    (hleft : R.Leaving hb resets e d left) : e.Sums v left (l.map Prod.fst) m := by
  constructor
  case plus =>
    intro a x k ha hx hs
    obtain ⟨p, hp, rfl⟩ := List.mem_map.1 ha
    obtain ⟨q, hq, rfl⟩ := List.mem_map.1 hx
    refine ⟨k + 2, fun i hi => ?_⟩
    obtain ⟨y, m', n', hplus, -, -, hclimbs⟩ := h.climbs hv hleft
      (fun hS => (hS.nestedTo i).agree_plus hp hq)
      (Grove.spends_plus_church h.ready (h.value_eq hv hp hs) hi) hq (count_climbCost_plus k)
    exact ⟨y.1, m', hplus, hclimbs⟩
  case mul =>
    intro a c j k ha hc hs hs'
    obtain ⟨p, hp, rfl⟩ := List.mem_map.1 ha
    obtain ⟨q, hq, rfl⟩ := List.mem_map.1 hc
    refine ⟨k + j + 3, fun i hi => ?_⟩
    obtain ⟨y, m', n', hmul, hy, hwork, hclimbs⟩ := h.climbs hv hleft
      (fun hS => (hS.nestedTo i).agree_mul hp hq)
      (Grove.spends_mul_church h.ready (h.value_eq hv hp hs) (h.value_eq hv hq hs') hi)
      (h.serves.builtin .zero) (count_climbCost_mul j k)
    refine ⟨y.1, m', hmul, ?_, hclimbs⟩
    have hvalue := Grove.value_of_climbs (h.roomy (Nat.zero_le _)).resets_le hy
      (j := 0) (h.ready.value_get .zero)
    rw [Nat.add_zero] at hvalue
    rw [← hvalue]
    exact hv.shows_of_holds hwork.holds (by simp)

theorem buildsChains (h : R.AtWork hb resets e d l m n) (hv : R.SeenAs v)
    (hleft : R.Leaving hb resets e d left) : e.BuildsChains v left (l.map Prod.fst) m := by
  refine ⟨h.sums hv hleft, fun j k => ?_, fun {t t' j k} ht ht' => ?_⟩
  · obtain ⟨depth, hdepth⟩ := eventually_atTop.1
      ((Grove.eventually_spends_numeral (b := b) 0 h.ready j).and
        (Grove.eventually_spends_numeral (b := b) 0 h.ready k))
    refine ⟨depth, fun i hi => ?_⟩
    obtain ⟨hj, hk⟩ := hdepth i hi
    obtain ⟨p, m₁, n₁, hp, hpj, h₁⟩ := h.numeral hj
    obtain ⟨q, m₂, n₂, hq, hqk, h₂⟩ := h₁.numeral hk
    refine ⟨p.1, m₁, q.1, m₂, hp, hq, ?_, ?_, ?_⟩
    · rw [← hpj]
      exact hv.shows_of_holds h₂.holds (by simp)
    · rw [← hqk]
      exact hv.shows_of_holds h₂.holds (by simp)
    · rw [Multiset.cons_coe, Multiset.cons_coe] at h₂
      exact h₂.sums hv hleft
  · obtain ⟨u, κ, rfl, -, hbuilds⟩ := Grove.builds_mul (b := b) 0 h.ready ht ht'
    obtain ⟨depth, hdepth⟩ := eventually_atTop.1 hbuilds
    refine ⟨depth, fun i hi => ?_⟩
    obtain ⟨p, m', n', hp, hvalue, hwork, -⟩ := h.hands
      ((h.serves.nestedTo i).agree_build (.mul t t')) (hdepth i hi) fun _ => rfl
    refine ⟨p.1, m', hp, ?_⟩
    rw [← hvalue]
    exact hv.shows_of_holds hwork.holds (by simp)

end AtWork

end Representation

/-- Of all that a climb has made only the chain is there, everything else is where it was, and the
closures that collected arguments have been freed. -/
structure View.LeavesChain (v : View W H) (ledger : W → Ledger) (w w' : W) (l : List H)
    (inner : Nat) : Prop where
  leaves : Leaves (v.look w) (v.look w') l
  free_eq (k : Kind) :
    (ledger w').free.get k = (ledger w).free.get k + if k = .succInner then inner else 0

namespace Representation.Counted

variable {b : Nat} {R : Representation W} {hb : Backend.handleBytes W = b} {e : Evaluator H}
  {d : Evaluator Tree} {cells : W → Cells} {ledger : W → Ledger} {handle : Nat → H}
  {position : H → Nat}

/-- A store that counts owners has nothing but the chain left of a climb. -/
theorem leaving (hR : R.Counted cells ledger handle position) :
    R.Leaving hb [] e d (R.toView.LeavesChain ledger) := by
  intro held p q m m' n n' known known' tree tree' l inner h hsince hresets' hq hclimbs hchain
    halloc
  have hl := hsince.before.labels (h.roomy (Nat.zero_le _)).resets_eq
  have hl' := hsince.after.labels hresets'
  have hsound := hsince.before.sound
  have hsound' := hsince.after.sound
  rw [Multiset.map_coe] at hsound hsound'
  have htree {r : H × Tree} (hr : r ∈ held) : r.2 = tree' r.1 :=
    (hsince.after.of_mem (Multiset.mem_coe.2 (List.mem_cons_of_mem p hr))).2
  have hlt {z : H} (hz : (R.look m.store z).isSome) :
      known z ∧ (tree z).number < n.store.made.length := by
    obtain ⟨c, hc⟩ := Option.isSome_iff_exists.1 hz
    have hk := (hsince.before.of_look hc).1
    exact ⟨hk, Grove.lt_of_kindOf (hsince.before.kindOf_eq hk)⟩
  have hleaves : Leaves (R.look m.store) (R.look m'.store) l := by
    refine hl.leaves hl' (hR.reachable_of_labels hl hsound) (hR.reachable_of_labels hl' hsound')
      ?roots ?unmoved (fun z hz => (hlt hz).2) (List.mem_map_of_mem hq) hchain ?climbs
    case roots =>
      intro x hx
      obtain ⟨r, hr, rfl⟩ := List.mem_map.1 hx
      rw [← htree hr, (hsince.before.of_mem (Multiset.mem_coe.2 hr)).2]
    case unmoved =>
      intro y z hy hz hnumber
      obtain ⟨c, hc⟩ := Option.isSome_iff_exists.1 hy
      obtain ⟨hkz, hz⟩ := hlt hz
      rw [← hnumber] at hz
      obtain ⟨hky, heq⟩ : known y ∧ tree' y = tree y :=
        hsince.continues.of_number_lt (hsince.after.of_look hc).1 hz
      rw [heq] at hnumber
      obtain rfl := hsince.before.number_injective hky hkz hnumber
      exact ⟨rfl, heq⟩
    case climbs =>
      rwa [← htree hq, ← (hsince.after.of_mem (p := p) (by simp)).2]
  refine ⟨hleaves, fun k => ?_⟩
  have hlive := hleaves.ncard_live hchain ((hR.finite m.store).subset fun z ⟨c, hc, _⟩ => by
    rw [Set.mem_ofPred_eq, hc]
    rfl : (R.live m.store k).Finite)
  have hbalance := hR.balance hsound k
  have hbalance' := hR.balance hsound' k
  have halloc := halloc k
  rw [hR.allocated_eq, hR.allocated_eq] at halloc
  rw [hlive] at hbalance'
  cases k <;> simp only [climbCost, reduceCtorEq, if_false, if_true] at * <;> omega

end Representation.Counted

/-- Sums and products of numerals are chains on all stores after every run: on arenas as long as
their blocks have room for every closure, also if they are reset less often than there are epochs.
On the heap and in a pool nothing else is left of them. They are chains wherever evaluators go on
alone, too, whatever sessions have done before. -/
theorem sums_and_products_are_chains (filter : Log.Filter) (limits : Limits)
    (commands : List Command) :
    (Closure.maxFootprint ≤ limits.blockCapacity →
        (∀ command ∈ commands, command.isOperation = true ∨ command.isReset = true) →
        commands.countP (·.isReset) < UInt32.size →
        ((opened Arenas filter limits).after commands).HasHeld
          (Evaluator.BuildsChains (Arenas.view 0 limits.blockCapacity) fun _ _ _ _ => True)) ∧
      ((∀ command ∈ commands, command.isOperation = true) →
        ((opened SharedHeap filter limits).after commands).HasHeld
            (Evaluator.BuildsChains (SharedHeap.view 0)
              ((SharedHeap.view 0).LeavesChain (·.ledger 0))) ∧
          ((opened Pools filter limits).after commands).HasHeld
            (Evaluator.BuildsChains (Pools.view 0)
              ((Pools.view 0).LeavesChain fun w => (w.pool 0).ledger)) ∧
          Resumed filter commands fun v s =>
            s.HasHeld (Evaluator.BuildsChains v fun _ _ _ _ => True)) := by
  refine ⟨fun hcap hc hlt => ?_, fun hc => ⟨?_, ?_, ?_⟩⟩
  · exact Arenas.hasHeld_after
      (fun h => h.buildsChains .rfl fun _ _ _ _ _ _ _ => trivial) hcap filter hc hlt
  · exact Representation.hasHeld_after (R := SharedHeap.representation 0)
      (fun h => h.buildsChains .rfl (SharedHeap.counted 0).leaving) (SharedHeap.opens limits)
      rfl rfl (by decide) (fun _ => rfl)
      (fun w k => congrArg AllocFree.alloc ((w.ledger 0).kind_snapshot k)) filter hc
  · exact Representation.hasHeld_after (R := Pools.representation 0)
      (fun h => h.buildsChains .rfl (Pools.counted 0).leaving) (Pools.opens limits) rfl rfl
      (by decide) (fun _ => rfl)
      (fun w k => congrArg AllocFree.alloc ((w.pool 0).ledger.kind_snapshot k)) filter hc
  · exact resumed_hasHeld (fun v => Evaluator.BuildsChains v fun _ _ _ _ => True)
      (fun hv h => h.buildsChains hv fun _ _ _ _ _ _ _ => trivial) hc

/-- An arena in which a closure has become stale that can still be added to, the other stores after
a run that fails, and an evaluator whose pool holds a closure that captured itself. -/
theorem sums_and_products_are_chains_stale :
    (∃ e, ((opened Arenas .off { blockCapacity := 24 }).after
          [.int 5 "x", .reset, .numeral 2 "n"]).seats[0]? = some ⟨e, true⟩ ∧
        e.BuildsChains (Arenas.view 0 24) (fun _ _ _ _ => True)
          ((opened Arenas .off { blockCapacity := 24 }).after
            [.int 5 "x", .reset, .numeral 2 "n"]).handles
          ((opened Arenas .off { blockCapacity := 24 }).after
            [.int 5 "x", .reset, .numeral 2 "n"]).machine) ∧
      ((opened SharedHeap .off {}).after [.int 5 "i", .apply "i" "i" "x"]).HasHeld
        (Evaluator.BuildsChains (SharedHeap.view 0)
          ((SharedHeap.view 0).LeavesChain (·.ledger 0))) ∧
      ((opened Pools .off {}).after [.int 5 "i", .apply "i" "i" "x"]).HasHeld
        (Evaluator.BuildsChains (Pools.view 0)
          ((Pools.view 0).LeavesChain fun w => (w.pool 0).ledger)) ∧
      let turns : List (Nat × Command) := [(0, .new {}), (0, .new {}), (0, .int 5 "a"),
        (1, .int 1 "b"), (1, .drop "b"), (1, .successor "a" "p")]
      let s : Session Pools PoolRef := (start .off).afterTurns turns
      ∃ e, s.seats[1]? = some ⟨e, true⟩ ∧
        ((resume e s.machine).after [.int 5 "i", .apply "i" "i" "x"]).HasHeld
          (Evaluator.BuildsChains (Pools.view e.site) fun _ _ _ _ => True) := by
  obtain ⟨hheap, hpool, hresumed⟩ :=
    (sums_and_products_are_chains .off {} [.int 5 "i", .apply "i" "i" "x"]).2 (by decide)
  refine ⟨?_, hheap, hpool, ?_⟩
  swap
  · intro turns s
    have hopen : s.seats[1]?.map (·.isOpen) = some true := by decide +kernel
    clear_value turns
    obtain ⟨⟨e, o⟩, he, rfl⟩ := Option.map_eq_some_iff.1 hopen
    exact ⟨e, he, (hresumed turns 1).2.2 e he⟩
  have hopen : (((opened Arenas .off { blockCapacity := 24 }).after
      [.int 5 "x", .reset, .numeral 2 "n"]).seats[0]?).map (·.isOpen) = some true := by
    decide +kernel
  obtain ⟨⟨e, o⟩, he, rfl⟩ := Option.map_eq_some_iff.1 hopen
  exact ⟨e, he, (sums_and_products_are_chains .off { blockCapacity := 24 }
    [.int 5 "x", .reset, .numeral 2 "n"]).1 (by decide) (by decide) (by decide) e he⟩

end ChurchStore
