import ChurchStore.Proofs.Grove
import ChurchStore.Proofs.Record

/-!
# Stronger simulations

A property of the stores that every primitive operation keeps can be added to a simulation, and then
holds all along a run. What is kept may depend on the stores being related, and on the operation
being given held handles only. And handles that are held throughout may be left out of a
simulation.
-/

namespace ChurchStore

variable {W V H G α : Type}

/-- The store that an operation leaves, whether it answers or stops. -/
def Act.leaves (op : Act W α) (m : Machine W) : W :=
  match op m with
  | .ok _ m' | .error _ m' => m'.store

namespace Act

variable {op : Act W α} {m m' : Machine W}

theorem leaves_of_ok {a : α} (h : op m = .ok a m') : op.leaves m = m'.store := by
  rw [leaves, h]

theorem leaves_of_error {f : Fault} (h : op m = .error f m') : op.leaves m = m'.store := by
  rw [leaves, h]

/-- A relation of what two coupled operations leave can be added to their coupling. -/
theorem coupled_leaves {β : Type} {J : W → V → Prop} {pre : Machine W → Machine V → Prop}
    {x : Act W α} {y : Act V β} {post : α → β → Machine W → Machine V → Prop}
    {stopped : Fault → Machine W → Machine V → Prop} (h : Coupled pre x y post stopped)
    (hJ : ∀ m n, pre m n → J m.store n.store → J (x.leaves m) (y.leaves n)) :
    Coupled (fun m n => pre m n ∧ J m.store n.store) x y
      (fun a b m n => post a b m n ∧ J m.store n.store)
      (fun f m n => stopped f m n ∧ J m.store n.store) := by
  intro m n ⟨hpre, hmn⟩
  have hkept := hJ m n hpre hmn
  obtain ⟨a, b, m', n', hx, hy, hpost⟩ | ⟨f, m', n', hx, hy, hstopped⟩ := h.cases hpre
  · rw [leaves_of_ok hx, leaves_of_ok hy] at hkept
    rw [hx, hy]
    exact ⟨hpost, hkept⟩
  · rw [leaves_of_error hx, leaves_of_error hy] at hkept
    rw [hx, hy]
    exact ⟨rfl, hstopped, hkept⟩

end Act

/-- A grove is left as it was by a look at a tree. -/
theorem Grove.leaves_resolve {b : Nat} (t : Tree) (n : Machine (Grove b)) :
    (Grove.resolve t).leaves n = n.store := by
  by_cases h : n.store.epochOf t.number = n.store.resets.length
  · rw [Act.leaves_of_ok (resolve_of_current h)]
  · rw [Act.leaves_of_error (resolve_of_stale h)]

variable [Host W H] [Host V G]

/-- The store that a primitive operation of an evaluator leaves. -/
def Deed.leaves (site : Site) (m : Machine W) : Deed H → W
  | .alloc c => (Backend.alloc site c : Act W H).leaves m
  | .resolve h => (Backend.resolve site h : Act W (Closure H)).leaves m
  | .retain h => Backend.retain h m.store
  | .release h => Backend.release h m.store
  | .describe h => (Host.describe h : Act W Placement).leaves m

namespace Simulation

/-- Every primitive operation on held handles keeps a property of the stores. -/
def Keeps (S : Simulation W V) (J : W → V → Prop) : Prop :=
  ∀ ⦃m : Machine W⦄ ⦃n : Machine V⦄ ⦃held : Multiset (H × G)⦄ (deed : Deed (H × G)),
    S.Rel m.store n.store held → (deed.handles : Multiset (H × G)) ≤ held → J m.store n.store →
      J ((deed.map Prod.fst).leaves S.left m) ((deed.map Prod.snd).leaves S.right n)

variable {S : Simulation W V} {J J' : W → V → Prop}

theorem Keeps.and (h : S.Keeps J) (h' : S.Keeps J') : S.Keeps fun w v => J w v ∧ J' w v :=
  fun _ _ _ deed hrel hle hJ => ⟨h deed hrel hle hJ.1, h' deed hrel hle hJ.2⟩

/-- A property that is kept holds wherever the stores are related. -/
def keeping (S : Simulation W V) (hJ : S.Keeps J) : Simulation W V where
  left := S.left
  right := S.right
  Rel w v held := S.Rel w v held ∧ J w v
  Faulty := S.Faulty
  retain {w v held p} h hp := by
    have hkept := hJ (m := ⟨w, {}⟩) (n := ⟨v, {}⟩) (.retain p) h.1 (Multiset.singleton_le.2 hp) h.2
    exact ⟨S.retain h.1 hp, hkept⟩
  release {w v held p} h := by
    have hp := Multiset.singleton_le.2 (Multiset.mem_cons_self p held)
    have hkept := hJ (m := ⟨w, {}⟩) (n := ⟨v, {}⟩) (.release p) h.1 hp h.2
    exact ⟨S.release h.1, hkept⟩
  alloc c lent := by
    refine (Act.coupled_leaves (J := J) (S.alloc c lent) fun m n hrel => ?_).weaken
      (fun _ _ h => h) (fun _ _ _ _ h => h) fun _ _ _ ⟨⟨hf, hrel⟩, hmn⟩ => ⟨hf, hrel, hmn⟩
    exact hJ (.alloc c) hrel (Multiset.le_add_right ..)
  resolve {p lent} hp := by
    refine (Act.coupled_leaves (J := J) (S.resolve hp) fun m n hrel => ?_).weaken
      (fun _ _ h => h) (fun _ _ _ _ ⟨⟨c, ha, hb, hrel⟩, hmn⟩ => ⟨c, ha, hb, hrel, hmn⟩)
      fun _ _ _ ⟨⟨hf, hrel⟩, hmn⟩ => ⟨hf, hrel, hmn⟩
    exact hJ (.resolve p) hrel (Multiset.singleton_le.2 hp)
  same h hp hq := S.same h.1 hp hq
  describe {p lent} hp := by
    refine (Act.coupled_leaves (J := J) (S.describe hp) fun m n hrel => ?_).weaken
      (fun _ _ h => h) (fun _ _ _ _ h => h) fun _ _ _ ⟨⟨hf, hrel⟩, hmn⟩ => ⟨hf, hrel, hmn⟩
    exact hJ (.describe p) hrel (Multiset.singleton_le.2 hp)
  handleBytes_eq := S.handleBytes_eq

theorem add_swap {α : Type} (s t u : Multiset α) : s + (t + u) = t + (s + u) := by
  rw [← Multiset.add_assoc, ← Multiset.add_assoc, Multiset.add_comm s]

/-- Handles that are held all the time can be left out of account. -/
def framed (S : Simulation W V) (frame : Multiset (H × G)) : Simulation W V where
  left := S.left
  right := S.right
  Rel w v held := S.Rel w v (frame + held)
  Faulty := S.Faulty
  retain h hp := by
    rw [Multiset.add_cons]
    exact S.retain h (Multiset.mem_add.2 (.inr hp))
  release h := by
    rw [Multiset.add_cons] at h
    exact S.release h
  alloc c lent := by
    have halloc := S.alloc c (frame + lent)
    simp only [Multiset.add_cons, add_swap frame] at halloc ⊢
    exact halloc
  resolve {p lent} hp := by
    have hresolve := S.resolve (Multiset.mem_add.2 (.inr hp) : p ∈ frame + lent)
    simp only [add_swap frame] at hresolve ⊢
    exact hresolve
  same h hp hq := S.same h (Multiset.mem_add.2 (.inr hp)) (Multiset.mem_add.2 (.inr hq))
  describe {p lent} hp := S.describe (Multiset.mem_add.2 (.inr hp))
  handleBytes_eq := S.handleBytes_eq

variable {e : Evaluator H} {d : Evaluator G} {c : Pairing H G} {owned : Multiset (H × G)}
  {s : Session W H} {t : Session V G}

theorem Paired.keeping (h : S.Paired e d c owned s t) (hJ : S.Keeps J)
    (hst : J s.machine.store t.machine.store) : (S.keeping hJ).Paired e d c owned s t where
  seats_left := h.seats_left
  seats_right := h.seats_right
  bindings_left := h.bindings_left
  bindings_right := h.bindings_right
  serves := ⟨h.serves.left, h.serves.right, h.serves.nesting, h.serves.builtin⟩
  holds := ⟨h.holds, hst⟩

theorem Paired.of_keeping {hJ : S.Keeps J} (h : (S.keeping hJ).Paired e d c owned s t) :
    S.Paired e d c owned s t ∧ J s.machine.store t.machine.store :=
  ⟨{ seats_left := h.seats_left
     seats_right := h.seats_right
     bindings_left := h.bindings_left
     bindings_right := h.bindings_right
     serves := ⟨h.serves.left, h.serves.right, h.serves.nesting, h.serves.builtin⟩
     holds := h.holds.1 }, h.holds.2⟩

end Simulation

end ChurchStore
