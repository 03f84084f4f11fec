import ChurchStore.Proofs.Arenas.Relocation
import ChurchStore.Proofs.Session.Upholding

/-!
# Resets

A reset makes an arena as good as new, since the new arena moved to its place and epoch cannot be
told from it. The handles from before it are refused in the new epoch: no operation changes the
epoch, whatever handles it is given.
-/

namespace ChurchStore

namespace Arenas

open Session

/-- What every allocation keeps is kept by all operations. -/
theorem operates_of_alloc {J : Arenas → Prop} (hJ : ∀ {site c h m m'},
    alloc site c m = .ok h m' → J m.store → J m'.store) :
    Host.Operates (W := Arenas) (fun m => J m.store) (fun _ m => J m.store) fun _ => True where
  alloc _ _ := .of_runs (fun _ _ _ hm hrun => ⟨trivial, hJ hrun hm⟩)
    fun _ _ _ hm hrun => store_of_alloc_error hrun ▸ hm
  resolve _ _ := .of_runs (fun _ _ _ hm hrun => ⟨trivial, store_of_resolve hrun ▸ hm⟩)
    fun _ _ _ hm hrun => store_of_resolve_error hrun ▸ hm
  retain _ _ hm := hm
  release _ _ hm := hm
  release_failed _ _ _ hm := hm
  describe _ := .pure trivial

/-- A reset counts the epoch on, and no other arena changes. -/
theorem arena_of_reset {e e' : Evaluator ArenaRef} {m m' : Machine Arenas}
    (hsite : e.site < m.store.toArray.size) (hrun : reset e m = .ok e' m') :
    (m'.store.arena e.site).epoch = (m.store.arena e.site).epoch + 1 ∧
      ∀ site, e.site ≠ site → m'.store.arena site = m.store.arena site := by
  rw [reset_eq] at hrun
  obtain ⟨t, m₀, hbuild, hrun⟩ := Act.of_bind_eq_ok hrun
  cases hrun
  refine build_induction (J := fun w => (w.arena e.site).epoch = (m.store.arena e.site).epoch + 1 ∧
    ∀ site, e.site ≠ site → w.arena site = m.store.arena site) hbuild ?_ ⟨?_, ?_⟩
  · rintro c h n n' halloc ⟨hepoch, hother⟩
    have hp := places_of_alloc halloc
    exact ⟨(hp.epoch_kept _).trans hepoch,
      fun site hne => (hp.arena_of_ne hne).trans (hother site hne)⟩
  · rw [arena_modify hsite]
    rfl
  · exact fun site hne => arena_modify_of_ne hne _

end Arenas

open Arenas Session

end ChurchStore
