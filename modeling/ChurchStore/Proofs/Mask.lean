import ChurchStore.Proofs.Representation

/-!
# Masked stores

A store in which handles have been misused may hold closures that are not what they should be. An
evaluator that only goes on with handles of its own does not reach them, so that the store works for
it like one in which they are not there. A mask hides them: what is left under it represents a
grove, and the primitive operations on what is not hidden are those of the store.
-/

namespace ChurchStore

/-- A mask for a store. -/
structure Mask (W H : Type) where
  /-- The handles for what is hidden. -/
  hidden : H → Bool
  /-- The store with the mask over it. -/
  cover : W → W
  /-- What is held besides the handles that an evaluator goes on with. -/
  others : Multiset H
  /-- What has to be known of the store itself. -/
  Fits : W → Prop

namespace Mask

variable {W H : Type} {M : Mask W H} {h : H} {c : Closure H}

/-- What can be seen under the mask. The builtin functions count as allocated once more. -/
def view (M : Mask W H) (v : View W H) : View W H where
  site := v.site
  look w h := if M.hidden h then none else v.look (M.cover w) h
  epoch := v.epoch
  now := v.now
  allocated w k := v.allocated w k + Builtin.kinds.count k

theorem look_of_shown {v : View W H} (hh : M.hidden h = false) (w : W) :
    (M.view v).look w h = v.look (M.cover w) h := by
  simp only [view]
  rw [hh, if_neg Bool.false_ne_true]

theorem look_eq_some {v : View W H} {w : W} (hc : (M.view v).look w h = some c) :
    M.hidden h = false ∧ v.look (M.cover w) h = some c := by
  simp only [view] at hc
  split at hc
  · cases hc
  · rename_i hh
    exact ⟨by simpa using hh, hc⟩

variable [Host W H] {R : Representation W} {w w' : W} {held held' : Multiset H}

/-- The masked store is sound, and handles that are held or captured under the mask are not
hidden. -/
structure Sound (M : Mask W H) (R : Representation W) (w : W) (held : Multiset H) : Prop where
  fits : M.Fits w
  sound : R.Sound (M.cover w) (held + M.others)
  shown_of_mem {h : H} : h ∈ held → M.hidden h = false
  shown_of_captured {h x : H} {c : Closure H} :
    R.look (M.cover w) h = some c → x ∈ c.captures → M.hidden x = false

/-- What is done under the mask is done in the store. Handles are never stale, and all closures
fit. -/
structure Lawful (M : Mask W H) (R : Representation W) : Prop where
  epoch_eq (w : W) (h : H) : R.epoch h = R.now w
  now_cover (w : W) : R.now (M.cover w) = R.now w
  capacity_eq (c : Closure H) : R.capacity.filter (· < c.footprint) = none
  allocated_cover (k : Kind) : ∃ more, ∀ w, M.Fits w →
    R.allocated (M.cover w) k = R.allocated w k + more
  look_cover {w : W} {held : Multiset H} {h : H} {c : Closure H} : M.Sound R w held →
    M.hidden h = false → R.look (M.cover w) h = some c → R.look w h = some c
  retain {w : W} {held : Multiset H} {h : H} : M.Sound R w held → h ∈ held →
    M.Fits (Backend.retain h w) ∧ M.cover (Backend.retain h w) = Backend.retain h (M.cover w)
  release {w : W} {held : Multiset H} {h : H} : M.Sound R w (h ::ₘ held) →
    M.Fits (Backend.release h w) ∧ M.cover (Backend.release h w) = Backend.release h (M.cover w)
  alloc {m : Machine W} {c : Closure H} {held : Multiset H} {a : H} {n : Machine W} :
    M.Sound R m.store (c.captures + held) →
    Backend.alloc R.site c ⟨M.cover m.store, m.journal⟩ = .ok a n →
    M.hidden a = false ∧ ∃ m', Backend.alloc R.site c m = .ok a m' ∧ M.Fits m'.store ∧
      M.cover m'.store = n.store
  resolve {m : Machine W} {held : Multiset H} {h : H} {c : Closure H} {n : Machine W} :
    M.Sound R m.store held → h ∈ held →
    Backend.resolve R.site h ⟨M.cover m.store, m.journal⟩ = .ok c n →
    ∃ m', Backend.resolve R.site h m = .ok c m' ∧ M.Fits m'.store ∧ M.cover m'.store = n.store
  describe {m : Machine W} {held : Multiset H} {h : H} : M.Sound R m.store held → h ∈ held →
    ∃ p m', Host.describe h m = .ok p m' ∧ m'.store = m.store

namespace Lawful

variable (hM : M.Lawful R)

include hM

theorem now_eq (h : R.now (M.cover w') = R.now (M.cover w)) : R.now w' = R.now w := by
  rw [← hM.now_cover, h, hM.now_cover]

/-- What is added under the mask is added to the store. -/
theorem allocated_eq {k : Kind} {n : Nat} (hw : M.Fits w) (hw' : M.Fits w')
    (h : R.allocated (M.cover w') k = R.allocated (M.cover w) k + n) :
    (M.view R.toView).allocated w' k = (M.view R.toView).allocated w k + n := by
  obtain ⟨more, hmore⟩ := hM.allocated_cover k
  rw [hmore w hw, hmore w' hw'] at h
  simp only [view]
  omega

/-- Closures may go. -/
theorem within (hs : M.Sound R w held) (hfits : M.Fits w')
    (hsound : R.Sound (M.cover w') (held' + M.others)) (hw : R.Within (M.cover w') (M.cover w))
    (hheld : ∀ h ∈ held', M.hidden h = false) :
    M.Sound R w' held' ∧ (M.view R.toView).Within w' w := by
  refine ⟨⟨hfits, hsound, fun hh => hheld _ hh,
    fun hc hx => hs.shown_of_captured (hw.look_eq hc) hx⟩, ?_⟩
  constructor
  case look_eq =>
    intro h c hc
    obtain ⟨hh, hc⟩ := look_eq_some hc
    rw [look_of_shown hh, hw.look_eq hc]
  case now_eq => exact hM.now_eq hw.now_eq
  case allocated_eq => exact fun k => hM.allocated_eq (n := 0) hs.fits hfits (hw.allocated_eq k)

theorem isSome_look (hs : M.Sound R w held) (hh : h ∈ held) :
    ((M.view R.toView).look w h).isSome := by
  rw [look_of_shown (hs.shown_of_mem hh)]
  exact R.look_of_mem hs.sound (Multiset.mem_add.2 (.inl hh)) (hM.epoch_eq _ _)

/-- A closure is added that captures nothing hidden. -/
theorem exists_alloc {m : Machine W} (hs : M.Sound R m.store (c.captures + held)) :
    ∃ a m', Backend.alloc R.site c m = .ok a m' ∧ M.Sound R m'.store (a ::ₘ held) ∧
      (M.view R.toView).Extends m.store m'.store a c := by
  have hsound := hs.sound
  rw [Multiset.add_assoc] at hsound
  obtain ⟨a, n, hrun, hsound', hx⟩ :=
    R.alloc_fits (m := ⟨M.cover m.store, m.journal⟩) hsound (hM.capacity_eq c)
  obtain ⟨hshown, m', hrun', hfits, hcover⟩ := hM.alloc hs hrun
  rw [← hcover] at hsound' hx
  refine ⟨a, m', hrun', ⟨hfits, ?_, fun {h} hh => ?_, fun {h x y} hy hmem => ?_⟩, ?_⟩
  · rwa [Multiset.cons_add]
  · rcases Multiset.mem_cons.1 hh with rfl | hh
    · exact hshown
    · exact hs.shown_of_mem (Multiset.mem_add.2 (.inr hh))
  · rcases hx.look_eq hy with ⟨-, rfl⟩ | hy
    · exact hs.shown_of_mem (Multiset.mem_add.2 (.inl hmem))
    · exact hs.shown_of_captured hy hmem
  · constructor
    case fresh => rw [look_of_shown hshown, hx.fresh]
    case epoch_eq => exact hM.epoch_eq _ a
    case look_eq =>
      intro h x hlook
      obtain ⟨hh, hlook⟩ := look_eq_some hlook
      rcases hx.look_eq hlook with hnew | hold
      · exact .inl hnew
      · exact .inr (by rw [look_of_shown hh, hold])
    case now_eq => exact hM.now_eq hx.now_eq
    case allocated_eq => exact fun k => hM.allocated_eq hs.fits hfits (hx.allocated_eq k)

theorem exists_resolve {m : Machine W} (hs : M.Sound R m.store held) (hh : h ∈ held) :
    ∃ c m', Backend.resolve R.site h m = .ok c m' ∧ (M.view R.toView).look m.store h = some c ∧
      M.Sound R m'.store (c.captures + held) ∧ (M.view R.toView).Within m'.store m.store := by
  obtain ⟨c, n, hrun, hlook, hsound, hw⟩ := R.resolve_current
    (m := ⟨M.cover m.store, m.journal⟩) hs.sound (Multiset.mem_add.2 (.inl hh)) (hM.epoch_eq _ h)
  obtain ⟨m', hrun', hfits, hcover⟩ := hM.resolve hs hh hrun
  rw [← hcover, ← Multiset.add_assoc] at hsound
  rw [← hcover] at hw
  refine ⟨c, m', hrun', by rw [look_of_shown (hs.shown_of_mem hh), hlook],
    hM.within hs hfits hsound hw fun x hx => ?_⟩
  rcases Multiset.mem_add.1 hx with hx | hx
  · exact hs.shown_of_captured hlook hx
  · exact hs.shown_of_mem hx

/-- Under a mask a store represents a grove. -/
def representation : Representation W where
  toView := M.view R.toView
  Sound := M.Sound R
  look_of_mem hs hh _ := hM.isSome_look hs hh
  look_of_captured hs hc hx _ := by
    obtain ⟨-, hc⟩ := look_eq_some hc
    rw [look_of_shown (hs.shown_of_captured hc hx)]
    exact R.look_of_captured hs.sound hc hx (hM.epoch_eq _ _)
  epoch_of_look _ _ := hM.epoch_eq _ _
  retain {w held h} hs hh := by
    obtain ⟨hfits, hcover⟩ := hM.retain hs hh
    obtain ⟨hsound, hw⟩ := R.retain hs.sound (Multiset.mem_add.2 (.inl hh))
    rw [← hcover, ← Multiset.cons_add] at hsound
    rw [← hcover] at hw
    refine hM.within hs hfits hsound hw fun x hx => ?_
    rcases Multiset.mem_cons.1 hx with rfl | hx
    · exact hs.shown_of_mem hh
    · exact hs.shown_of_mem hx
  release {w held h} hs := by
    obtain ⟨hfits, hcover⟩ := hM.release hs
    have hsound := hs.sound
    rw [Multiset.cons_add] at hsound
    obtain ⟨hsound, hw⟩ := R.release hsound
    rw [← hcover] at hsound hw
    exact hM.within hs hfits hsound hw fun x hx => hs.shown_of_mem (Multiset.mem_cons_of_mem hx)
  alloc_fits hs _ := hM.exists_alloc hs
  alloc_oversize _ h := nomatch h
  resolve_current hs hh _ := hM.exists_resolve hs hh
  resolve_stale _ _ h := absurd (hM.epoch_eq _ _) h
  same_iff := R.same_iff
  describe {m held h} hs hh := by
    obtain ⟨p, m', hrun, hstore⟩ := hM.describe hs hh
    rw [← hstore] at hs
    exact ⟨p, m', hrun, hs, by rw [hstore]; exact .rfl⟩

/-- All that is to be seen under the mask is to be seen without it. -/
theorem seenAs : hM.representation.SeenAs R.toView where
  epoch_eq := rfl
  now_eq := rfl
  look_eq hs hc := by
    obtain ⟨hh, hc⟩ := look_eq_some hc
    exact hM.look_cover hs hh hc
  epoch_of_look _ _ := hM.epoch_eq _ _

/-- An evaluator may go on with the builtin functions if they are all that is not hidden. -/
theorem begins {e : Evaluator H} (hsite : e.site = R.site)
    (hs : M.Sound R w (Builtin.all.map e.singletons.get : List H))
    (hbuiltin : ∀ b, R.look (M.cover w) (e.singletons.get b) = some b.closure)
    (hlook : ∀ {h c}, M.hidden h = false → R.look (M.cover w) h = some c →
      ∃ b, e.singletons.get b = h)
    (halloc : ∀ w k, R.allocated w k = ((Backend.stats R.site w).kind k).alloc) :
    hM.representation.Begins R.toView e w where
  seen := hM.seenAs
  site_eq := hsite
  sound := hs
  look_builtin b := by
    have hmem : e.singletons.get b ∈ Builtin.all.map e.singletons.get :=
      List.mem_map_of_mem (by cases b <;> simp [Builtin.all])
    exact (look_of_shown (hs.shown_of_mem hmem) w).trans (hbuiltin b)
  exists_builtin hc := by
    obtain ⟨hh, hc⟩ := look_eq_some hc
    exact hlook hh hc
  capacity_eq _ := rfl
  allocated_eq w k := congrArg (· + Builtin.kinds.count k) (halloc w k)

end Lawful

end Mask

end ChurchStore
