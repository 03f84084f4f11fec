import ChurchStore.Proofs.Grove
import ChurchStore.Proofs.Simulation
import Mathlib.Data.Multiset.MapFold
import Mathlib.Logic.Function.Basic

/-!
# Stores that represent groves

What a store has to do so that it cannot be told from a grove. A `View` is what can be seen of a
store: the closures behind handles, and how many closures were allocated. A `Representation` is a
view with the laws of the primitive operations: which handles they leave valid, and that closures
are added one at a time, never change, and are there as long as something holds them.

A labelling of the handles by trees then makes every such store related to a grove: the labels of
held handles are the handles of the grove, and distinct handles bear distinct numbers.
-/

namespace ChurchStore

/-- What an evaluator can see of a store. Handles of another epoch than the present one are refused
as stale. -/
structure View (W H : Type) where
  site : Site
  /-- Closures that take more bytes than this are refused. -/
  capacity : Option Nat := none
  look : W → H → Option (Closure H)
  epoch : H → UInt32 := fun _ => 0
  now : W → UInt32 := fun _ => 0
  /-- How many closures of a kind were allocated in the present epoch. -/
  allocated : W → Kind → Nat

namespace View

variable {W H : Type}

/-- Closures may have gone from `w`, and nothing else has changed. -/
structure Within (v : View W H) (w' w : W) : Prop where
  look_eq {h : H} {c : Closure H} : v.look w' h = some c → v.look w h = some c
  now_eq : v.now w' = v.now w
  allocated_eq (k : Kind) : v.allocated w' k = v.allocated w k

/-- The closure `c` has been added to `w` behind the new handle `a`. -/
structure Extends (v : View W H) (w w' : W) (a : H) (c : Closure H) : Prop where
  fresh : v.look w a = none
  epoch_eq : v.epoch a = v.now w
  look_eq {h : H} {x : Closure H} : v.look w' h = some x → h = a ∧ x = c ∨ v.look w h = some x
  now_eq : v.now w' = v.now w
  allocated_eq (k : Kind) : v.allocated w' k = v.allocated w k + if c.kind = k then 1 else 0

theorem Within.rfl {v : View W H} {w : W} : v.Within w w := ⟨id, Eq.refl _, fun _ => Eq.refl _⟩

end View

/-- The laws of a store: `Sound w held` says that the store `w` is as it has to be while exactly
the handles of `held` are held. -/
structure Representation (W : Type) {H : Type} [Host W H] extends View W H where
  Sound : W → Multiset H → Prop
  look_of_mem {w : W} {held : Multiset H} {h : H} :
    Sound w held → h ∈ held → epoch h = now w → (look w h).isSome
  look_of_captured {w : W} {held : Multiset H} {h x : H} {c : Closure H} :
    Sound w held → look w h = some c → x ∈ c.captures → epoch x = now w → (look w x).isSome
  epoch_of_look {w : W} {held : Multiset H} {h : H} {c : Closure H} :
    Sound w held → look w h = some c → epoch h = now w
  retain {w : W} {held : Multiset H} {h : H} : Sound w held → h ∈ held →
    Sound (Backend.retain h w) (h ::ₘ held) ∧ toView.Within (Backend.retain h w) w
  release {w : W} {held : Multiset H} {h : H} : Sound w (h ::ₘ held) →
    Sound (Backend.release h w) held ∧ toView.Within (Backend.release h w) w
  alloc_fits {m : Machine W} {c : Closure H} {lent : Multiset H} :
    Sound m.store (c.captures + lent) → capacity.filter (· < c.footprint) = none →
    ∃ a m', Backend.alloc site c m = .ok a m' ∧ Sound m'.store (a ::ₘ lent) ∧
      toView.Extends m.store m'.store a c
  alloc_oversize {m : Machine W} {c : Closure H} {lent : Multiset H} {size : Nat} :
    Sound m.store (c.captures + lent) → capacity.filter (· < c.footprint) = some size →
    ∃ m', Backend.alloc site c m =
        .error (.violation (.oversizeAllocation c.footprint size)) m' ∧
      Sound m'.store lent ∧ toView.Within m'.store m.store
  resolve_current {m : Machine W} {held : Multiset H} {h : H} :
    Sound m.store held → h ∈ held → epoch h = now m.store →
    ∃ c m', Backend.resolve site h m = .ok c m' ∧ look m.store h = some c ∧
      Sound m'.store (c.captures + held) ∧ toView.Within m'.store m.store
  resolve_stale {m : Machine W} {held : Multiset H} {h : H} :
    Sound m.store held → h ∈ held → epoch h ≠ now m.store →
    ∃ m', Backend.resolve site h m =
        .error (.violation (.staleHandle (epoch h) (now m.store))) m' ∧
      Sound m'.store held ∧ toView.Within m'.store m.store
  same_iff {a b : H} : Backend.same W a b = true ↔ a = b
  describe {m : Machine W} {held : Multiset H} {h : H} : Sound m.store held → h ∈ held →
    ∃ p m', Host.describe h m = .ok p m' ∧ Sound m'.store held ∧
      toView.Within m'.store m.store

/-- A labelling of handles by trees, when closures of certain kinds have been made. -/
structure Labelling (H : Type) where
  /-- The handles that were issued and have not been lost. -/
  known : H → Prop
  tree : H → Tree
  /-- The kinds of all closures made so far, the last one first. -/
  made : List Kind

namespace Labelling

variable {H : Type} {l l' l'' : Labelling H}

/-- Nothing is known. -/
def nothing : Labelling H := ⟨fun _ => False, default, []⟩

/-- Further closures may have been made and handles may have been lost, but what was made before is
known by the same handles if at all. -/
structure Continues (l' l : Labelling H) : Prop where
  suffix : l.made <:+ l'.made
  of_number_lt {h : H} : l'.known h → (l'.tree h).number < l.made.length →
    l.known h ∧ l'.tree h = l.tree h

theorem Continues.rfl : l.Continues l := ⟨List.suffix_rfl, fun hk _ => ⟨hk, Eq.refl _⟩⟩

theorem Continues.trans (h : l''.Continues l') (h' : l'.Continues l) : l''.Continues l where
  suffix := h'.suffix.trans h.suffix
  of_number_lt hk hlt := by
    obtain ⟨hk', heq⟩ := h.of_number_lt hk (Nat.lt_of_lt_of_le hlt h'.suffix.length_le)
    rw [heq] at hlt ⊢
    exact h'.of_number_lt hk' hlt

theorem continues_nothing : l.Continues nothing :=
  ⟨List.nil_suffix, fun _ hlt => absurd hlt (Nat.not_lt_zero _)⟩

end Labelling

/-- The kinds of the builtin functions, the last one made first. -/
def Builtin.kinds : List Kind := [.inc, .succ, .zeroInner, .zero]

namespace Representation

variable {W H : Type} [Host W H] {b : Nat}

/-- A store mirrors a grove while the pairs of `held` are held: every handle that was issued and
not yet lost (`known`) has a tree, which agrees with the closure behind it. -/
structure Mirrors (R : Representation W) (w : W) (g : Grove b) (held : Multiset (H × Tree))
    (known : H → Prop) (tree : H → Tree) : Prop where
  sound : R.Sound w (held.map Prod.fst)
  of_mem {p : H × Tree} : p ∈ held → known p.1 ∧ p.2 = tree p.1
  of_look {h : H} {c : Closure H} : R.look w h = some c →
    known h ∧ (tree h).closure = c.map tree ∧ ∀ x ∈ c.captures, known x
  look_isSome {h : H} : known h → R.epoch h = R.now w → (R.look w h).isSome
  number_injective {h k : H} : known h → known k → (tree h).number = (tree k).number → h = k
  kindOf_eq {h : H} : known h → g.kindOf (tree h).number = some (tree h).closure.kind
  epoch_eq {h : H} : known h → R.epoch h = UInt32.ofNat (g.epochOf (tree h).number)
  now_eq : R.now w = UInt32.ofNat g.resets.length
  resets_lt : g.resets.length < UInt32.size
  resets_le : ∀ r ∈ g.resets, r ≤ g.made.length
  capacity_eq (c : Closure H) :
    g.capacity.filter (· < c.footprint) = R.capacity.filter (· < c.footprint)
  allocated_eq (k : Kind) : R.allocated w k = g.recent.count k

namespace Mirrors

variable {R : Representation W} {w w' : W} {g : Grove b} {held lent : Multiset (H × Tree)}
  {known : H → Prop} {tree : H → Tree} {h a : H} {c : Closure (H × Tree)}

/-- A handle is of the present epoch if and only if its tree is. -/
theorem epoch_eq_now_iff (hm : R.Mirrors w g held known tree) (hk : known h) :
    R.epoch h = R.now w ↔ g.epochOf (tree h).number = g.resets.length := by
  rw [hm.epoch_eq hk, hm.now_eq]
  constructor
  · intro he
    have hle := g.epochOf_le (tree h).number
    have hlt := hm.resets_lt
    have := congrArg UInt32.toNat he
    rwa [UInt32.toNat_ofNat_of_lt' (by omega), UInt32.toNat_ofNat_of_lt' hlt] at this
  · intro he
    rw [he]

/-- No handle is known of the epoch that a reset would start. -/
theorem epoch_ne_next (hm : R.Mirrors w g held known tree) (hk : known h)
    (hlt : g.resets.length + 1 < UInt32.size) :
    R.epoch h ≠ UInt32.ofNat (g.resets.length + 1) := by
  intro he
  have hle := g.epochOf_le (tree h).number
  rw [hm.epoch_eq hk] at he
  have hnat := congrArg UInt32.toNat he
  rw [UInt32.toNat_ofNat_of_lt' (by omega), UInt32.toNat_ofNat_of_lt' hlt] at hnat
  omega

/-- Closures may go, and then their handles are lost. -/
theorem within (hm : R.Mirrors w g held known tree) (hw : R.Within w' w)
    {held' : Multiset (H × Tree)} (hsound : R.Sound w' (held'.map Prod.fst))
    (hheld : ∀ p ∈ held', known p.1 ∧ p.2 = tree p.1) :
    ∃ known', R.Mirrors w' g held' known' tree ∧
      Labelling.Continues ⟨known', tree, g.made⟩ ⟨known, tree, g.made⟩ := by
  refine ⟨fun h => known h ∧ (R.epoch h = R.now w' → (R.look w' h).isSome), ?_,
    List.suffix_rfl, fun hk _ => ⟨hk.1, rfl⟩⟩
  refine { hm with
    sound := hsound
    of_mem := fun {p} hp => ?_
    of_look := fun {h c} hc => ?_
    look_isSome := fun hk => hk.2
    number_injective := fun hk hl => hm.number_injective hk.1 hl.1
    kindOf_eq := fun hk => hm.kindOf_eq hk.1
    epoch_eq := fun hk => hm.epoch_eq hk.1
    now_eq := hw.now_eq.trans hm.now_eq
    allocated_eq := fun k => (hw.allocated_eq k).trans (hm.allocated_eq k) }
  · obtain ⟨hk, hp'⟩ := hheld p hp
    exact ⟨⟨hk, R.look_of_mem hsound (Multiset.mem_map_of_mem Prod.fst hp)⟩, hp'⟩
  · obtain ⟨hk, htree, hcaptures⟩ := hm.of_look (hw.look_eq hc)
    refine ⟨⟨hk, fun _ => by rw [hc]; rfl⟩, htree, fun x hx => ⟨hcaptures x hx, ?_⟩⟩
    exact R.look_of_captured hsound hc hx

/-- A closure over held handles is the closure over their trees. -/
theorem map_snd_eq (hm : R.Mirrors w g (c.captures + lent) known tree) :
    c.map Prod.snd = (c.map Prod.fst).map tree := by
  rw [Closure.map_map]
  exact Closure.map_congr fun p hp => (hm.of_mem (Multiset.mem_add.2 (.inl hp))).2

/-- The captures of a closure over held handles are known. -/
theorem known_of_mem_captures (hm : R.Mirrors w g (c.captures + lent) known tree) :
    ∀ h ∈ (c.map Prod.fst).captures, known h := by
  intro h hh
  rw [Closure.captures_map] at hh
  obtain ⟨p, hp, rfl⟩ := List.mem_map.1 hh
  exact (hm.of_mem (Multiset.mem_add.2 (.inl hp))).1

theorem number_lt (hm : R.Mirrors w g held known tree) (hk : known h) :
    (tree h).number < g.made.length :=
  Grove.lt_of_kindOf (hm.kindOf_eq hk)

/-- The handle of a closure that was added was not known. -/
theorem not_known {x : Closure H} (hm : R.Mirrors w g held known tree)
    (hx : R.Extends w w' a x) : ¬ known a := by
  intro hk
  have hsome := hm.look_isSome hk hx.epoch_eq
  rw [hx.fresh] at hsome
  cases hsome

section Extended

/-! A closure `x` has been added behind the handle `a`, and this handle is given the tree `t`. -/

variable [DecidableEq H] {x y : Closure H} {t : Tree} {k : H}

/-- Handles that were known keep their trees. -/
theorem update_of_known (hm : R.Mirrors w g held known tree) (hx : R.Extends w w' a x)
    (hk : known h) (t : Tree) : Function.update tree a t h = tree h := by
  refine Function.update_of_ne ?_ _ _
  rintro rfl
  exact hm.not_known hx hk

theorem map_update (hm : R.Mirrors w g held known tree) (hx : R.Extends w w' a x)
    (hy : ∀ h ∈ y.captures, known h) (t : Tree) :
    y.map (Function.update tree a t) = y.map tree :=
  Closure.map_congr fun h hh => hm.update_of_known hx (hy h hh) t

/-- Closures that can be seen are those of the trees. -/
theorem of_look_update (hm : R.Mirrors w g held known tree) (hx : R.Extends w w' a x)
    (hcaptures : ∀ h ∈ x.captures, known h) (ht : t.closure = x.map tree)
    (hlook : R.look w' h = some y) :
    (known h ∨ h = a) ∧ (Function.update tree a t h).closure = y.map (Function.update tree a t) ∧
      ∀ k ∈ y.captures, known k := by
  rcases hx.look_eq hlook with ⟨rfl, rfl⟩ | hold
  · refine ⟨.inr rfl, ?_, hcaptures⟩
    rw [Function.update_self, hm.map_update hx hcaptures, ht]
  · obtain ⟨hk, htree, hcaps⟩ := hm.of_look hold
    refine ⟨.inl hk, ?_, hcaps⟩
    rw [hm.update_of_known hx hk, hm.map_update hx hcaps, htree]

/-- The new tree bears a number that no other one has. -/
theorem number_injective_update (hm : R.Mirrors w g held known tree) (hx : R.Extends w w' a x)
    (ht : t.number = g.made.length) (hh : known h ∨ h = a) (hk : known k ∨ k = a)
    (heq : (Function.update tree a t h).number = (Function.update tree a t k).number) : h = k := by
  rcases hh with hh | rfl <;> rcases hk with hk | rfl
  · rw [hm.update_of_known hx hh, hm.update_of_known hx hk] at heq
    exact hm.number_injective hh hk heq
  · rw [hm.update_of_known hx hh, Function.update_self, ht] at heq
    exact absurd heq (Nat.ne_of_lt (hm.number_lt hh))
  · rw [hm.update_of_known hx hk, Function.update_self, ht] at heq
    exact absurd heq.symm (Nat.ne_of_lt (hm.number_lt hk))
  · rfl

end Extended

/-- A new closure is labelled by the next tree of the grove. -/
theorem alloc (hm : R.Mirrors w g (c.captures + lent) known tree)
    (hx : R.Extends w w' a (c.map Prod.fst))
    (hsound : R.Sound w' (a ::ₘ lent.map Prod.fst)) :
    ∃ known' tree', R.Mirrors w' (g.grow c.kind)
        ((a, .node g.made.length (c.map Prod.snd)) ::ₘ lent) known' tree' ∧
      Labelling.Continues ⟨known', tree', (g.grow c.kind).made⟩ ⟨known, tree, g.made⟩ := by
  classical
  rw [← Multiset.map_cons Prod.fst (a, Tree.node g.made.length (c.map Prod.snd))] at hsound
  refine ⟨fun h => (known h ∨ h = a) ∧ (R.epoch h = R.now w' → (R.look w' h).isSome),
    Function.update tree a (.node g.made.length (c.map Prod.snd)), ?_, List.suffix_cons .., ?_⟩
  swap
  · rintro h ⟨hk | rfl, -⟩ hlt
    · exact ⟨hk, hm.update_of_known hx hk _⟩
    · simp only [Function.update_self] at hlt
      exact absurd hlt (Nat.lt_irrefl _)
  constructor
  case sound => exact hsound
  case of_mem =>
    intro p hp
    have hcur := R.look_of_mem hsound (Multiset.mem_map_of_mem Prod.fst hp)
    rcases Multiset.mem_cons.1 hp with rfl | hp
    · refine ⟨⟨.inr rfl, hcur⟩, ?_⟩
      rw [Function.update_self]
    · obtain ⟨hk, hp'⟩ := hm.of_mem (Multiset.mem_add.2 (.inr hp))
      exact ⟨⟨.inl hk, hcur⟩, hp'.trans (hm.update_of_known hx hk _).symm⟩
  case of_look =>
    intro h y hlook
    obtain ⟨hk, htree, hcaps⟩ :=
      hm.of_look_update hx hm.known_of_mem_captures (t := .node _ (c.map Prod.snd)) hm.map_snd_eq
        hlook
    refine ⟨⟨hk, fun _ => by rw [hlook]; rfl⟩, htree, fun k hk => ⟨.inl (hcaps k hk), ?_⟩⟩
    exact R.look_of_captured hsound hlook hk
  case look_isSome => exact fun hk => hk.2
  case number_injective =>
    intro h k hh hk heq
    exact hm.number_injective_update hx rfl hh.1 hk.1 heq
  case kindOf_eq =>
    rintro h ⟨hh | rfl, -⟩
    · rw [hm.update_of_known hx hh]
      exact Grove.kindOf_grow_of_kindOf (hm.kindOf_eq hh) _
    · rw [Function.update_self]
      simpa [Tree.closure, Tree.number] using Grove.kindOf_grow_length g c.kind
  case epoch_eq =>
    rintro h ⟨hh | rfl, -⟩
    · rw [hm.update_of_known hx hh]
      exact hm.epoch_eq hh
    · rw [Function.update_self, hx.epoch_eq, hm.now_eq, ← Grove.epochOf_length hm.resets_le]
      rfl
  case now_eq => exact hx.now_eq.trans hm.now_eq
  case resets_lt => exact hm.resets_lt
  case resets_le => exact fun r hr => Nat.le_succ_of_le (hm.resets_le r hr)
  case capacity_eq => exact hm.capacity_eq
  case allocated_eq =>
    intro k
    rw [hx.allocated_eq, hm.allocated_eq, Grove.count_recent_grow hm.resets_le, Closure.kind_map]

end Mirrors

/-- A store mirrors a grove under some labelling. The resets of the grove are fixed, since they are
not what an evaluator does. -/
def Represents (R : Representation W) (resets : List Nat) (w : W) (g : Grove b)
    (held : Multiset (H × Tree)) : Prop :=
  g.resets = resets ∧ ∃ known tree, R.Mirrors w g held known tree

/-- A store mirrors a grove under a labelling that continues an earlier one. -/
def RepresentsSince (R : Representation W) (l : Labelling H) (resets : List Nat) (w : W)
    (g : Grove b) (held : Multiset (H × Tree)) : Prop :=
  g.resets = resets ∧ ∃ known tree, R.Mirrors w g held known tree ∧
    Labelling.Continues ⟨known, tree, g.made⟩ l

variable {R : Representation W} {l : Labelling H} {resets : List Nat} {w w' : W} {g : Grove b}
  {held lent : Multiset (H × Tree)} {p : H × Tree}

theorem represents_iff :
    R.Represents resets w g held ↔ R.RepresentsSince .nothing resets w g held := by
  refine and_congr_right fun _ => exists_congr fun known => exists_congr fun tree => ?_
  exact (and_iff_left Labelling.continues_nothing).symm

theorem RepresentsSince.represents (h : R.RepresentsSince l resets w g held) :
    R.Represents resets w g held := by
  obtain ⟨hresets, known, tree, hm, -⟩ := h
  exact ⟨hresets, known, tree, hm⟩

/-- The faults of the primitive operations. -/
inductive Faulty (R : Representation W) : Fault → Prop where
  | oversize {c : Closure H} {size : Nat} : R.capacity.filter (· < c.footprint) = some size →
    Faulty R (.violation (.oversizeAllocation c.footprint size))
  | stale {w : W} {h : H} : R.epoch h ≠ R.now w →
    Faulty R (.violation (.staleHandle (R.epoch h) (R.now w)))

/-- A new closure is refused by both stores, or added to both. -/
theorem coupled_alloc (l : Labelling H) (c : Closure (H × Tree)) (lent : Multiset (H × Tree)) :
    Coupled (fun m (n : Machine (Grove b)) =>
        R.RepresentsSince l resets m.store n.store (c.captures + lent))
      (Backend.alloc R.site (c.map Prod.fst)) (Backend.alloc 0 (c.map Prod.snd))
      (fun a t m n => R.RepresentsSince l resets m.store n.store ((a, t) ::ₘ lent))
      (fun f m n => R.Faulty f ∧ R.RepresentsSince l resets m.store n.store lent) := by
  intro m n ⟨hresets, known, tree, hm, hl⟩
  have hsound := hm.sound
  rw [Multiset.map_add, Multiset.map_coe, ← Closure.captures_map] at hsound
  have hfoot : (c.map Prod.snd).footprint = (c.map Prod.fst).footprint := by
    simp [Closure.footprint]
  have hcap := hm.capacity_eq (c.map Prod.fst)
  rw [← hfoot] at hcap
  cases hsize : R.capacity.filter (· < (c.map Prod.snd).footprint) with
  | none =>
    rw [hsize] at hcap
    rw [hfoot] at hsize
    obtain ⟨a, m', hx, hsound', hext⟩ := R.alloc_fits hsound hsize
    have hy : Backend.alloc 0 (c.map Prod.snd) n = _ := Grove.alloc_of_fits hcap
    rw [hx, hy, Closure.kind_map]
    obtain ⟨known', tree', hm', hl'⟩ := hm.alloc hext hsound'
    exact ⟨hresets, known', tree', hm', hl'.trans hl⟩
  | some size =>
    rw [hsize] at hcap
    rw [hfoot] at hsize
    obtain ⟨m', hx, hsound', hw⟩ := R.alloc_oversize hsound hsize
    have hy : Backend.alloc 0 (c.map Prod.snd) n = _ := Grove.alloc_of_oversize hcap
    rw [hx, hy, hfoot]
    obtain ⟨known', hm', hl'⟩ := hm.within hw hsound' fun q hq =>
      hm.of_mem (Multiset.mem_add.2 (.inr hq))
    exact ⟨rfl, .oversize hsize, hresets, known', tree, hm', hl'.trans hl⟩

/-- A held handle is stale in both stores, or shows the same closure. -/
theorem coupled_resolve (l : Labelling H) (hp : p ∈ lent) :
    Coupled (fun m (n : Machine (Grove b)) => R.RepresentsSince l resets m.store n.store lent)
      (Backend.resolve R.site p.1) (Backend.resolve 0 p.2)
      (fun x y m n => ∃ c : Closure (H × Tree), x = c.map Prod.fst ∧ y = c.map Prod.snd ∧
        R.RepresentsSince l resets m.store n.store (c.captures + lent))
      (fun f m n => R.Faulty f ∧ R.RepresentsSince l resets m.store n.store lent) := by
  intro m n ⟨hresets, known, tree, hm, hl⟩
  have hmem : p.1 ∈ lent.map Prod.fst := Multiset.mem_map_of_mem Prod.fst hp
  obtain ⟨hk, htree⟩ := hm.of_mem hp
  rw [htree]
  by_cases he : R.epoch p.1 = R.now m.store
  · obtain ⟨x, m', hx, hlook, hsound, hw⟩ := R.resolve_current hm.sound hmem he
    have hy : Backend.resolve 0 (tree p.1) n = _ :=
      Grove.resolve_of_current ((hm.epoch_eq_now_iff hk).1 he)
    obtain ⟨-, hclosure, hcaptures⟩ := hm.of_look hlook
    have hfst : (x.map fun h => (h, tree h)).map Prod.fst = x := by
      rw [Closure.map_map]
      exact Closure.map_eq_self fun h _ => rfl
    have hsnd : (x.map fun h => (h, tree h)).map Prod.snd = x.map tree := Closure.map_map ..
    rw [hx, hy, hclosure]
    refine ⟨x.map fun h => (h, tree h), hfst.symm, hsnd.symm, ?_⟩
    rw [← hfst, Closure.captures_map, ← Multiset.map_coe, ← Multiset.map_add] at hsound
    obtain ⟨known', hm', hl'⟩ := hm.within hw hsound fun q hq => by
      rcases Multiset.mem_add.1 hq with hq | hq
      · rw [Multiset.mem_coe, Closure.captures_map] at hq
        obtain ⟨h, hh, rfl⟩ := List.mem_map.1 hq
        exact ⟨hcaptures h hh, rfl⟩
      · exact hm.of_mem hq
    exact ⟨hresets, known', tree, hm', hl'.trans hl⟩
  · obtain ⟨m', hx, hsound, hw⟩ := R.resolve_stale hm.sound hmem he
    have hy : Backend.resolve 0 (tree p.1) n = _ :=
      Grove.resolve_of_stale fun h => he ((hm.epoch_eq_now_iff hk).2 h)
    have hstale := Faulty.stale (R := R) he
    rw [hm.epoch_eq hk, hm.now_eq] at hstale
    rw [hx, hy, hm.epoch_eq hk, hm.now_eq]
    obtain ⟨known', hm', hl'⟩ := hm.within hw hsound fun q hq => hm.of_mem hq
    exact ⟨rfl, hstale, hresets, known', tree, hm', hl'.trans hl⟩

theorem coupled_describe (l : Labelling H) (hp : p ∈ lent) :
    Coupled (fun m (n : Machine (Grove b)) => R.RepresentsSince l resets m.store n.store lent)
      (Host.describe p.1 : Act W Placement) (Host.describe p.2 : Act (Grove b) Placement)
      (fun _ _ m n => R.RepresentsSince l resets m.store n.store lent)
      (fun f m n => R.Faulty f ∧ R.RepresentsSince l resets m.store n.store lent) := by
  refine Coupled.of_ok fun m n ⟨hresets, known, tree, hm, hl⟩ => ?_
  obtain ⟨place, m', hx, hsound, hw⟩ :=
    R.describe hm.sound (Multiset.mem_map_of_mem Prod.fst hp)
  obtain ⟨known', hm', hl'⟩ := hm.within hw hsound fun q hq => hm.of_mem hq
  exact ⟨place, _, m', n, hx, rfl, hresets, known', tree, hm', hl'.trans hl⟩

/-- A store without closures represents the grove in which none were made. -/
theorem represents_empty {w : W} {capacity : Option Nat} (hsound : R.Sound w 0)
    (hlook : ∀ h, R.look w h = none) (hnow : R.now w = 0) (hcount : ∀ k, R.allocated w k = 0)
    (hcap : ∀ c : Closure H,
      capacity.filter (· < c.footprint) = R.capacity.filter (· < c.footprint)) :
    R.Represents [] w ({ capacity } : Grove b) 0 := by
  refine ⟨rfl, fun _ => False, default, ?_⟩
  constructor
  case sound => exact hsound
  case of_mem => exact fun hp => absurd hp (Multiset.notMem_zero _)
  case of_look =>
    intro h c hc
    rw [hlook] at hc
    cases hc
  case look_isSome => exact False.elim
  case number_injective => exact False.elim
  case kindOf_eq => exact False.elim
  case epoch_eq => exact False.elim
  case now_eq => exact hnow
  case resets_lt => exact (by decide : 0 < UInt32.size)
  case resets_le => exact fun r hr => nomatch hr
  case capacity_eq => exact hcap
  case allocated_eq => exact hcount

section Builtins

/-! ### A store in which nothing but the builtin functions can be seen -/

/-- A view that shows what the representation shows, and perhaps more. -/
structure SeenAs (R : Representation W) (v : View W H) : Prop where
  epoch_eq : v.epoch = R.epoch
  now_eq : v.now = R.now
  look_eq {w : W} {held : Multiset H} {h : H} {c : Closure H} :
    R.Sound w held → R.look w h = some c → v.look w h = some c
  epoch_of_look {w : W} {held : Multiset H} {h : H} {c : Closure H} :
    R.Sound w held → v.look w h = some c → v.epoch h = v.now w

theorem SeenAs.rfl : R.SeenAs R.toView :=
  ⟨Eq.refl _, Eq.refl _, fun _ hc => hc, fun hs hc => R.epoch_of_look hs hc⟩

/-- Of a store only the builtin functions of an evaluator are shown, and the evaluator holds nothing
else. There is room for every closure, and those of the builtin functions are counted once more than
the evaluator counts them. -/
structure Begins (R : Representation W) (v : View W H) (e : Evaluator H) (w : W) : Prop where
  seen : R.SeenAs v
  site_eq : e.site = R.site
  sound : R.Sound w (Builtin.all.map e.singletons.get : List H)
  look_builtin (b : Builtin) : R.look w (e.singletons.get b) = some b.closure
  exists_builtin {h : H} {c : Closure H} : R.look w h = some c → ∃ b, e.singletons.get b = h
  capacity_eq (c : Closure H) : R.capacity.filter (· < c.footprint) = none
  allocated_eq (w : W) (k : Kind) :
    R.allocated w k = ((Backend.stats R.site w).kind k).alloc + Builtin.kinds.count k

variable {e : Evaluator H} {d : Evaluator Tree} {w : W} {v : View W H}

/-- Any numbers of closures of the kinds may have been made. -/
theorem exists_count_eq (f : Kind → Nat) : ∃ made : List Kind, ∀ k, made.count k = f k := by
  refine ⟨Kind.all.flatMap fun k => .replicate (f k) k, fun k => ?_⟩
  cases k <;> simp [Kind.all, List.count_replicate]

/-- The trees of the builtin functions of an evaluator, each behind its handle. -/
noncomputable def builtinTree (e : Evaluator H) : H → Tree :=
  Function.extend e.singletons.get (Grove.builtins 0).get default

theorem Begins.builtinTree_get (h : R.Begins v e w) (b : Builtin) :
    builtinTree e (e.singletons.get b) = (Grove.builtins 0).get b := by
  refine Function.Injective.extend_apply (fun b b' heq => ?_) _ _ b
  have hclosure := (h.look_builtin b).symm.trans (heq ▸ h.look_builtin b')
  cases b <;> cases b' <;> first | rfl | cases hclosure

/-- The builtin functions are what was made first in a grove in which many other closures have been
made since. -/
theorem Begins.represents (hR : R.Begins v e w) (hd : d.singletons = Grove.builtins 0) :
    ∃ g : Grove b, R.Represents (.replicate (R.now w).toNat 0) w g
      (Simulation.builtinPairs e d) := by
  obtain ⟨made, hcount⟩ := exists_count_eq fun k => ((Backend.stats R.site w).kind k).alloc
  have htree := hR.builtinTree_get
  have hepoch (n : Nat) : (List.replicate (R.now w).toNat 0).countP (· ≤ n) = (R.now w).toNat := by
    simp [List.countP_replicate]
  refine ⟨{ made := made ++ Builtin.kinds, resets := .replicate (R.now w).toNat 0 }, rfl,
    fun h => ∃ b, e.singletons.get b = h, builtinTree e, ?_⟩
  constructor
  case sound => exact hR.sound
  case of_mem =>
    intro p hp
    obtain ⟨b, -, rfl⟩ := List.mem_map.1 hp
    exact ⟨⟨b, rfl⟩, by rw [htree, hd]⟩
  case of_look =>
    intro h c hc
    obtain ⟨b, rfl⟩ := hR.exists_builtin hc
    cases (hR.look_builtin b).symm.trans hc
    refine ⟨⟨b, rfl⟩, ?_, fun x hx => ?_⟩
    · rw [htree, Builtin.map_closure]
      cases b <;> rfl
    · rw [Builtin.captures_closure] at hx
      cases hx
  case look_isSome =>
    rintro h ⟨b, rfl⟩ -
    rw [hR.look_builtin]
    rfl
  case number_injective =>
    rintro h k ⟨b, rfl⟩ ⟨b', rfl⟩ hnumber
    rw [htree, htree] at hnumber
    cases b <;> cases b' <;> first | rfl | cases hnumber
  case kindOf_eq =>
    rintro h ⟨b, rfl⟩
    rw [htree, Grove.kindOf, List.reverse_append]
    cases b <;> rfl
  case epoch_eq =>
    rintro h ⟨b, rfl⟩
    rw [R.epoch_of_look hR.sound (hR.look_builtin b), Grove.epochOf, hepoch, UInt32.ofNat_toNat]
  case now_eq => rw [List.length_replicate, UInt32.ofNat_toNat]
  case resets_lt =>
    rw [List.length_replicate]
    exact (R.now w).toNat_lt
  case resets_le =>
    intro r hr
    rw [(List.mem_replicate.1 hr).2]
    exact Nat.zero_le _
  case capacity_eq => exact fun c => (hR.capacity_eq c).symm
  case allocated_eq =>
    intro k
    have hfirst : (List.replicate (R.now w).toNat 0).headD 0 = 0 := by
      cases (R.now w).toNat <;> rfl
    rw [Grove.recent, hfirst, Nat.sub_zero, List.take_length, List.count_append, hcount,
      hR.allocated_eq]

end Builtins

/-- Handles are the same if and only if their trees bear the same number. -/
theorem Represents.same_eq {w : W} {g : Grove b} {held : Multiset (H × Tree)} {p q : H × Tree}
    (h : R.Represents resets w g held) (hp : p ∈ held) (hq : q ∈ held) :
    Backend.same W p.1 q.1 = (p.2.number == q.2.number) := by
  obtain ⟨-, known, tree, hm⟩ := h
  obtain ⟨hkp, hp'⟩ := hm.of_mem hp
  obtain ⟨hkq, hq'⟩ := hm.of_mem hq
  rw [Bool.eq_iff_iff, R.same_iff, beq_iff_eq, hp', hq']
  constructor
  · intro heq
    rw [heq]
  · exact hm.number_injective hkp hkq

/-- A store that keeps the laws cannot be told from a grove, and no closure that was made before
moves to another handle. -/
def simulationSince (R : Representation W) (hb : Backend.handleBytes W = b) (resets : List Nat)
    (l : Labelling H) : Simulation W (Grove b) where
  left := R.site
  right := 0
  Rel w g held := R.RepresentsSince l resets w g held
  Faulty := R.Faulty
  retain := by
    intro w g held p ⟨hresets, known, tree, hm, hl⟩ hp
    obtain ⟨hsound, hw⟩ := R.retain hm.sound (Multiset.mem_map_of_mem Prod.fst hp)
    rw [← Multiset.map_cons] at hsound
    obtain ⟨known', hm', hl'⟩ := hm.within hw hsound fun q hq => by
      rcases Multiset.mem_cons.1 hq with rfl | hq
      · exact hm.of_mem hp
      · exact hm.of_mem hq
    exact ⟨hresets, known', tree, hm', hl'.trans hl⟩
  release := by
    intro w g held p ⟨hresets, known, tree, hm, hl⟩
    have hsound := hm.sound
    rw [Multiset.map_cons] at hsound
    obtain ⟨hsound, hw⟩ := R.release hsound
    obtain ⟨known', hm', hl'⟩ := hm.within hw hsound fun q hq =>
      hm.of_mem (Multiset.mem_cons_of_mem hq)
    exact ⟨hresets, known', tree, hm', hl'.trans hl⟩
  alloc := coupled_alloc l
  resolve := coupled_resolve l
  same h hp hq := h.represents.same_eq hp hq
  describe := coupled_describe l
  handleBytes_eq := hb

/-- A store that keeps the laws cannot be told from a grove. -/
def simulation (R : Representation W) (hb : Backend.handleBytes W = b) (resets : List Nat) :
    Simulation W (Grove b) where
  left := R.site
  right := 0
  Rel w g held := R.Represents resets w g held
  Faulty := R.Faulty
  retain {w g held p} h hp := by
    simp only [represents_iff] at h ⊢
    exact (R.simulationSince hb resets .nothing).retain h hp
  release {w g held p} h := by
    simp only [represents_iff] at h ⊢
    exact (R.simulationSince hb resets .nothing).release h
  alloc := by
    simp only [represents_iff]
    exact coupled_alloc .nothing
  resolve := by
    simp only [represents_iff]
    exact coupled_resolve .nothing
  same h hp hq := h.same_eq hp hq
  describe := by
    simp only [represents_iff]
    exact coupled_describe .nothing
  handleBytes_eq := hb

end Representation

end ChurchStore
