import ChurchStore.Proofs.Arenas.Evaluators

/-!
# Masked arenas

An arena never gives up a closure before it is reset. An evaluator that goes on with the builtin
functions only needs the closures that are stored from then on, so that all others can be hidden,
together with all handles of other arenas and epochs.
-/

namespace ChurchStore.Arenas

/-- What can be seen of an arena when some handles are hidden, which does not depend on the
capacity. All closures fit, and the builtin functions count as allocated once more. -/
def maskedView (site : Site) (hidden : ArenaRef → Bool) : View Arenas ArenaRef where
  site := site
  look w h := if hidden h then none else (view site 0).look w h
  epoch h := h.epoch
  now w := (w.arena site).epoch
  allocated w k := (w.arena site).ledger.alloc.get k + Builtin.kinds.count k

variable {site : Site} {capacity : Nat} {hidden : ArenaRef → Bool} {w w' : Arenas}
  {held held' : Multiset ArenaRef} {m : Machine Arenas} {a h : ArenaRef} {c : Closure ArenaRef}

theorem look_of_shown (capacity : Nat) (hh : hidden h = false) :
    (maskedView site hidden).look w h = (view site capacity).look w h := by
  simp only [maskedView]
  rw [hh, if_neg Bool.false_ne_true]
  rfl

theorem shown_of_look (capacity : Nat) (hc : (maskedView site hidden).look w h = some c) :
    hidden h = false ∧ (view site capacity).look w h = some c := by
  simp only [maskedView] at hc
  split at hc
  · cases hc
  · rename_i hh
    exact ⟨by simpa using hh, hc⟩

/-- The handles that are held and those that closures capture are not hidden, unless the closures
are; and there are closures behind all of them. -/
structure MaskedSound (site : Site) (capacity : Nat) (hidden : ArenaRef → Bool) (w : Arenas)
    (held : Multiset ArenaRef) : Prop where
  opened : Opened w site capacity
  look_of_mem {h : ArenaRef} : h ∈ held → ((maskedView site hidden).look w h).isSome
  look_of_captured {h x : ArenaRef} {c : Closure ArenaRef} :
    (maskedView site hidden).look w h = some c → x ∈ c.captures →
      ((maskedView site hidden).look w x).isSome
  stored_of_hidden {h : ArenaRef} : hidden h = true →
    ((w.arena site).closure? h.block h.slot).isSome

namespace MaskedSound

theorem of_subset (hw : MaskedSound site capacity hidden w held) (hsub : held' ⊆ held) :
    MaskedSound site capacity hidden w held' :=
  { hw with look_of_mem := fun hh => hw.look_of_mem (hsub hh) }

/-- A new place is never hidden. -/
theorem shown_of_places (hw : MaskedSound site capacity hidden w held)
    (hp : Places w w' site c a) : hidden a = false := by
  by_contra hne
  obtain ⟨x, hx⟩ := Option.isSome_iff_exists.1 (hw.stored_of_hidden (by simpa using hne))
  have hbefore := hp.before hx
  omega

theorem isSome_kept (hp : Places w w' site c a)
    (hh : ((maskedView site hidden).look w h).isSome) :
    ((maskedView site hidden).look w' h).isSome := by
  obtain ⟨x, hx⟩ := Option.isSome_iff_exists.1 hh
  obtain ⟨hshown, hx⟩ := shown_of_look 0 hx
  rw [look_of_shown 0 hshown, hp.look_kept hx]
  rfl

theorem extends_maskedView (hw : MaskedSound site capacity hidden w held)
    (hp : Places w w' site c a) : (maskedView site hidden).Extends w w' a c := by
  have hextends : (view site 0).Extends w w' a c := hp.extends_view
  constructor
  case fresh =>
    rw [look_of_shown 0 (hw.shown_of_places hp), hextends.fresh]
  case epoch_eq => exact hextends.epoch_eq
  case look_eq =>
    intro h x hx
    obtain ⟨hh, hx⟩ := shown_of_look 0 hx
    rw [look_of_shown 0 hh]
    exact hextends.look_eq hx
  case now_eq => exact hextends.now_eq
  case allocated_eq =>
    intro k
    have hadded := hextends.allocated_eq k
    simp only [view, maskedView] at hadded ⊢
    omega

theorem alloc (hw : MaskedSound site capacity hidden m.store (c.captures + held))
    (hcap : Closure.maxFootprint ≤ capacity) :
    ∃ a m', Arenas.alloc site c m = .ok a m' ∧
      MaskedSound site capacity hidden m'.store (a ::ₘ held) ∧
      (maskedView site hidden).Extends m.store m'.store a c := by
  obtain ⟨m', hrun, -⟩ := alloc_of_fits (c := c) hw.opened.lt_size
    (hw.opened.capacity_eq ▸ c.footprint_le_maxFootprint.trans hcap)
    (.inr hw.opened.reservation_lt)
  have hp := places_of_alloc hrun
  have hextends := hw.extends_maskedView hp
  refine ⟨_, m', hrun, ?_, hextends⟩
  constructor
  case opened => exact hw.opened.of_changes (changes_of_alloc hrun)
  case look_of_mem =>
    intro h hh
    rcases Multiset.mem_cons.1 hh with rfl | hh
    · rw [look_of_shown 0 (hw.shown_of_places hp), hp.look_self]
      rfl
    · exact isSome_kept hp (hw.look_of_mem (Multiset.mem_add.2 (.inr hh)))
  case look_of_captured =>
    intro h x y hy hx
    rcases hextends.look_eq hy with ⟨-, rfl⟩ | hy
    · exact isSome_kept hp (hw.look_of_mem (Multiset.mem_add.2 (.inl hx)))
    · exact isSome_kept hp (hw.look_of_captured hy hx)
  case stored_of_hidden =>
    intro h hh
    rw [hp.closure?_eq]
    split
    · rfl
    · exact hw.stored_of_hidden hh

theorem resolve (hw : MaskedSound site capacity hidden m.store held) (hh : h ∈ held) :
    ∃ c, Arenas.resolve site h m = .ok c m ∧
      (maskedView site hidden).look m.store h = some c := by
  obtain ⟨c, hc⟩ := Option.isSome_iff_exists.1 (hw.look_of_mem hh)
  obtain ⟨-, hlook⟩ := shown_of_look 0 hc
  obtain ⟨⟨ha, he⟩, hclosure⟩ := look_eq_some hlook
  exact ⟨c, resolve_of_current ha he hclosure, hc⟩

end MaskedSound

/-- What is left of an arena under a mask represents a grove. -/
def maskedRepresentation (site : Site) (hidden : ArenaRef → Bool)
    (hcap : Closure.maxFootprint ≤ capacity) : Representation Arenas where
  toView := maskedView site hidden
  Sound := MaskedSound site capacity hidden
  look_of_mem hw hh _ := hw.look_of_mem hh
  look_of_captured hw hc hx _ := hw.look_of_captured hc hx
  epoch_of_look _ hc := (look_eq_some (shown_of_look 0 hc).2).1.2
  retain hw hh := by
    refine ⟨hw.of_subset fun x hx => ?_, .rfl⟩
    rcases Multiset.mem_cons.1 hx with rfl | hx
    · exact hh
    · exact hx
  release hw := ⟨hw.of_subset (Multiset.subset_cons _ _), .rfl⟩
  alloc_fits hw _ := hw.alloc hcap
  alloc_oversize _ h := nomatch h
  resolve_current {m held h} hw hh _ := by
    obtain ⟨c, hrun, hlook⟩ := hw.resolve hh
    refine ⟨c, m, hrun, hlook, { hw with look_of_mem := fun {x} hx => ?_ }, .rfl⟩
    rcases Multiset.mem_add.1 hx with hx | hx
    · exact hw.look_of_captured hlook hx
    · exact hw.look_of_mem hx
  resolve_stale {m held h} hw hh he := by
    obtain ⟨c, hc⟩ := Option.isSome_iff_exists.1 (hw.look_of_mem hh)
    exact absurd (look_eq_some (shown_of_look 0 hc).2).1.2 he
  same_iff := (representation site capacity).same_iff
  describe hw _ := ⟨_, _, rfl, hw, .rfl⟩

/-! ### The beginning -/

/-- The places of all closures but the builtin functions. -/
def olderPlaces (w : Arenas) (e : Evaluator ArenaRef) (h : ArenaRef) : Bool :=
  ((w.arena e.site).closure? h.block h.slot).isSome &&
    !Builtin.all.any (e.singletons.get · == h)

theorem olderPlaces_eq_true {e : Evaluator ArenaRef} : olderPlaces w e h = true ↔
    ((w.arena e.site).closure? h.block h.slot).isSome ∧ ∀ b, e.singletons.get b ≠ h := by
  have hall (b : Builtin) : b ∈ Builtin.all := by cases b <;> decide
  simp [olderPlaces, hall]

/-- Whatever has been done before, an evaluator can go on with the builtin functions in its
arena. -/
theorem Houses.exists_begins {e : Evaluator ArenaRef} (he : Houses w e)
    (hcap : Closure.maxFootprint ≤ (w.arena e.site).capacity) :
    ∃ R : Representation Arenas, R.Begins (view e.site (w.arena e.site).capacity) e w := by
  have hlook (b : Builtin) : (maskedView e.site (olderPlaces w e)).look w (e.singletons.get b) =
      some b.closure := by
    rw [look_of_shown 0, he.look 0 b]
    rw [← Bool.not_eq_true, olderPlaces_eq_true]
    exact fun h => h.2 b rfl
  have hexists {h : ArenaRef} {c : Closure ArenaRef}
      (hc : (maskedView e.site (olderPlaces w e)).look w h = some c) :
      ∃ b, e.singletons.get b = h := by
    obtain ⟨hh, hc⟩ := shown_of_look 0 hc
    rw [← Bool.not_eq_true, olderPlaces_eq_true] at hh
    by_contra hnone
    exact hh ⟨Option.isSome_of_eq_some (look_eq_some hc).2, fun b hb => hnone ⟨b, hb⟩⟩
  refine ⟨maskedRepresentation e.site (olderPlaces w e) hcap, ?_⟩
  constructor
  case seen =>
    exact ⟨rfl, rfl, fun _ hc => (shown_of_look _ hc).2, fun _ hc => (look_eq_some hc).1.2⟩
  case site_eq => rfl
  case sound =>
    refine ⟨he.opened, fun hh => ?_, fun hc hx => ?_, fun hh => (olderPlaces_eq_true.1 hh).1⟩
    · obtain ⟨b, -, rfl⟩ := List.mem_map.1 hh
      rw [hlook]
      rfl
    · obtain ⟨b, rfl⟩ := hexists hc
      cases (hlook b).symm.trans hc
      rw [b.captures_closure] at hx
      cases hx
  case look_builtin => exact hlook
  case exists_builtin => exact hexists
  case capacity_eq => exact fun c => rfl
  case allocated_eq =>
    intro w k
    exact congrArg (· + _) (congrArg AllocFree.alloc ((w.arena e.site).ledger.kind_snapshot k)).symm

end ChurchStore.Arenas
