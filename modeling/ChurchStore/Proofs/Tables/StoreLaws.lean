import ChurchStore.Proofs.CountingCosts
import ChurchStore.Proofs.Upholding

/-!
# What tables of numerals need of a store

On a shelf, as such a store is called here, closures are laid on each other: what is there stays,
and a closure that is added goes to a new place. Taking hold of a closure and letting it go again
only changes the number of its owners, as long as there is another owner. So it can be said of any
store what the successor of a numeral does: it adds one closure, which captures that numeral.
-/

namespace ChurchStore

open Value (church)

variable {W H : Type}

theorem View.Shows.mono {v : View W H} {w w' : W} {h : H} {u : Value} (hs : v.Shows w h u)
    (hlook : ∀ {h : H} {c : Closure H}, v.look w h = some c → v.look w' h = some c)
    (hnow : v.now w' = v.now w) : v.Shows w' h u := by
  induction hs with
  | node hc _ ih => exact .node (hlook hc) ih
  | stale he => exact .stale (by rwa [hnow])

theorem View.Shows.zero {v : View W H} {w : W} {h : H} (hc : v.look w h = some .zero) :
    v.Shows w h (church 0) :=
  .node (u := fun _ => church 0) hc nofun

theorem View.Shows.succPartial {v : View W H} {w : W} {h n : H} {k : Nat}
    (hc : v.look w h = some (.succPartial n)) (hn : v.Shows w n (church k)) :
    v.Shows w h (church (k + 1)) :=
  .node (u := fun _ => church k) hc fun x hx => by
    rwa [List.mem_singleton.1 hx]

theorem View.Shows.isSome {v : View W H} {w : W} {h : H} {k : Nat} (hs : v.Shows w h (church k)) :
    (v.look w h).isSome := by
  generalize hu : church k = u at hs
  cases hs with
  | node hc _ => exact Option.isSome_of_eq_some hc
  | stale _ => cases k <;> cases hu

namespace View

/-- Only the owners of closures have changed, whose numbers are given by `f`, as far as they are
known. -/
structure Rests (v : View W H) (Owns : W → H → Nat → Prop) (w w' : W) (f : H → Nat → Nat) :
    Prop where
  look_eq (h : H) : v.look w' h = v.look w h
  now_eq : v.now w' = v.now w
  allocated_eq (k : Kind) : v.allocated w' k = v.allocated w k
  owns {h : H} {n : Nat} : Owns w h n → Owns w' h (f h n)

/-- Behind the new handle `a` there is a closure that captures `n`, and of the others only the
owners have changed. -/
structure Lays (v : View W H) (Owns : W → H → Nat → Prop) (w w' : W) (a n : H)
    (f : H → Nat → Nat) : Prop where
  fresh : v.look w a = none
  look_self : v.look w' a = some (.succPartial n)
  look_of_ne {h : H} : h ≠ a → v.look w' h = v.look w h
  now_eq : v.now w' = v.now w
  allocated_eq (k : Kind) :
    v.allocated w' k = v.allocated w k + if k = .succPartial then 1 else 0
  owns_self : Owns w' a 1
  owns {h : H} {n : Nat} : (v.look w h).isSome → Owns w h n → Owns w' h (f h n)

variable {v : View W H} {Owns : W → H → Nat → Prop} {w w' w'' : W} {a n : H} {f g : H → Nat → Nat}

theorem Rests.lays (h : v.Rests Owns w w' f) (h' : v.Lays Owns w' w'' a n g) :
    v.Lays Owns w w'' a n fun x j => g x (f x j) where
  fresh := by rw [← h.look_eq, h'.fresh]
  look_self := h'.look_self
  look_of_ne hx := (h'.look_of_ne hx).trans (h.look_eq _)
  now_eq := h'.now_eq.trans h.now_eq
  allocated_eq k := by rw [h'.allocated_eq, h.allocated_eq]
  owns_self := h'.owns_self
  owns hx hj := h'.owns (by rwa [h.look_eq]) (h.owns hj)

theorem Lays.rests (h : v.Lays Owns w w' a n f) (h' : v.Rests Owns w' w'' g) (ha : g a 1 = 1) :
    v.Lays Owns w w'' a n fun x j => g x (f x j) where
  fresh := h.fresh
  look_self := by rw [h'.look_eq, h.look_self]
  look_of_ne hx := (h'.look_eq _).trans (h.look_of_ne hx)
  now_eq := h'.now_eq.trans h.now_eq
  allocated_eq k := by rw [h'.allocated_eq, h.allocated_eq]
  owns_self := by
    have howns := h'.owns h.owns_self
    rwa [ha] at howns
  owns hx hj := h'.owns (h.owns hx hj)

theorem Lays.ne (h : v.Lays Owns w w' a n f) {x : H} (hx : (v.look w x).isSome) : x ≠ a := by
  rintro rfl
  rw [h.fresh] at hx
  cases hx

theorem Lays.look_eq (h : v.Lays Owns w w' a n f) {x : H} {c : Closure H}
    (hc : v.look w x = some c) : v.look w' x = some c := by
  rw [h.look_of_ne (h.ne (Option.isSome_of_eq_some hc)), hc]

end View

/-- A store that keeps what it has been given. `Owns w h n` says that the closure behind a handle
has so many owners, if the store counts them, and `Sound` that closures can be added. -/
structure Shelf (W : Type) {H : Type} [DecidableEq H] [Backend W H] extends View W H where
  Owns : W → H → Nat → Prop
  Sound : W → Prop
  stats_eq (w : W) (k : Kind) : ((Backend.stats site w).kind k).alloc = allocated w k
  same_self (h : H) : Backend.same W h h = true
  resolve {m : Machine W} {h : H} {c : Closure H} : look m.store h = some c →
    ∃ m', Backend.resolve site h m = .ok c m' ∧ (c.captures = [] → m' = m)
  retain {w : W} {h : H} {c : Closure H} : Sound w → look w h = some c →
    Sound (Backend.retain h w) ∧
      toView.Rests Owns w (Backend.retain h w) fun x j => j + [h].count x
  release {w : W} {h : H} {n : Nat} : Sound w → Owns w h n → 2 ≤ n →
    Sound (Backend.release h w) ∧
      toView.Rests Owns w (Backend.release h w) fun x j => j - [h].count x
  alloc {m : Machine W} {n : H} {c : Closure H} {j : Nat} : Sound m.store →
    look m.store n = some c → Owns m.store n j → 0 < j →
    ∃ a m', Backend.alloc site (.succPartial n) m = .ok a m' ∧ Sound m'.store ∧
      toView.Lays Owns m.store m'.store a n fun _ j => j

namespace Shelf

variable [DecidableEq H] [Backend W H] {S : Shelf W} {e : Evaluator H} {m : Machine W} {w w' : W}
  {a n : H} {c : Closure H} {j k : Nat}

/-- On the shelf there is what an evaluator needs for numerals. -/
structure Serves (S : Shelf W) (e : Evaluator H) (w : W) : Prop where
  site_eq : S.site = e.site
  nesting_pos : 0 < e.nesting
  sound : S.Sound w
  look_zero : S.look w e.singletons.zero = some .zero
  look_succ : S.look w e.singletons.succ = some .succ
  owns_zero : ∃ j, 0 < j ∧ S.Owns w e.singletons.zero j
  owns_succ : ∃ j, 0 < j ∧ S.Owns w e.singletons.succ j

/-- A handle of which there is one: it is looked at, and its closure has an owner. -/
def Holds (S : Shelf W) (w : W) (h : H) : Prop :=
  (∃ c, S.look w h = some c) ∧ ∃ j, 0 < j ∧ S.Owns w h j

theorem Serves.lays {f : H → Nat → Nat} (h : S.Serves e w) (hsound : S.Sound w')
    (hl : S.Lays S.Owns w w' a n f) (hf : ∀ x j, 0 < j → 0 < f x j) : S.Serves e w' where
  site_eq := h.site_eq
  nesting_pos := h.nesting_pos
  sound := hsound
  look_zero := hl.look_eq h.look_zero
  look_succ := hl.look_eq h.look_succ
  owns_zero := by
    obtain ⟨j, hj, howns⟩ := h.owns_zero
    exact ⟨_, hf _ j hj, hl.owns (Option.isSome_of_eq_some h.look_zero) howns⟩
  owns_succ := by
    obtain ⟨j, hj, howns⟩ := h.owns_succ
    exact ⟨_, hf _ j hj, hl.owns (Option.isSome_of_eq_some h.look_succ) howns⟩

theorem Serves.rests {f : H → Nat → Nat} (h : S.Serves e w) (hsound : S.Sound w')
    (hr : S.Rests S.Owns w w' f) (hf : ∀ x j, 0 < j → 0 < f x j) : S.Serves e w' where
  site_eq := h.site_eq
  nesting_pos := h.nesting_pos
  sound := hsound
  look_zero := (hr.look_eq _).trans h.look_zero
  look_succ := (hr.look_eq _).trans h.look_succ
  owns_zero := by
    obtain ⟨j, hj, howns⟩ := h.owns_zero
    exact ⟨_, hf _ j hj, hr.owns howns⟩
  owns_succ := by
    obtain ⟨j, hj, howns⟩ := h.owns_succ
    exact ⟨_, hf _ j hj, hr.owns howns⟩

theorem Holds.rests {f : H → Nat → Nat} (h : S.Holds w n) (hr : S.Rests S.Owns w w' f)
    (hf : ∀ x j, 0 < j → 0 < f x j) : S.Holds w' n := by
  obtain ⟨⟨c, hc⟩, j, hj, howns⟩ := h
  exact ⟨⟨c, (hr.look_eq n).trans hc⟩, _, hf _ j hj, hr.owns howns⟩

/-- Applied to a numeral, the successor function is a closure that captures it. -/
theorem apply_succ (h : S.Serves e m.store) (hn : S.Holds m.store n) :
    ∃ a m', e.apply e.singletons.succ n m = .ok a m' ∧ S.Sound m'.store ∧
      S.Lays S.Owns m.store m'.store a n fun x j => j + [n].count x := by
  obtain ⟨⟨c, hc⟩, j, hj, howns⟩ := hn
  obtain ⟨m₁, hresolve, hsame⟩ := S.resolve h.look_succ
  obtain rfl := hsame rfl
  rw [h.site_eq] at hresolve
  obtain ⟨hsound, hrests⟩ := S.retain h.sound hc
  have hc' : S.look (m₁.change (Backend.retain n)).store n = some c := (hrests.look_eq n).trans hc
  obtain ⟨a, m₂, halloc, hsound', hlays⟩ :=
    S.alloc (m := m₁.change (Backend.retain n)) hsound hc' (hrests.owns howns)
      (Nat.add_pos_left hj _)
  rw [h.site_eq] at halloc
  refine ⟨a, m₂, ?_, hsound', hrests.lays hlays⟩
  obtain ⟨depth, hdepth⟩ := Nat.exists_eq_add_one_of_ne_zero (Nat.pos_iff_ne_zero.1 h.nesting_pos)
  unfold Evaluator.apply
  rw [hdepth]
  simp only [Evaluator.applyWithin, Bind.bind, EStateM.bind, hresolve]
  exact halloc

/-- The successor of a numeral is a closure that captures it, so it has one owner more. -/
theorem successor (h : S.Serves e m.store) (hn : S.Holds m.store n) :
    ∃ a m', e.successor n m = .ok a m' ∧ S.Sound m'.store ∧
      S.Lays S.Owns m.store m'.store a n fun x j => j + [n].count x := by
  obtain ⟨hsound, hrests⟩ := S.retain h.sound h.look_succ
  have hmore (x : H) (j : Nat) (hj : 0 < j) : 0 < j + [e.singletons.succ].count x :=
    Nat.add_pos_left hj _
  obtain ⟨a, m₁, hrun, hsound₁, hlays⟩ := apply_succ
    (m := m.change (Backend.retain e.singletons.succ)) (h.rests hsound hrests hmore)
    (hn.rests hrests hmore)
  obtain ⟨j, hj, howns⟩ := h.owns_succ
  have hlook := (hrests.look_eq _).trans h.look_succ
  have howns₁ := hlays.owns (Option.isSome_of_eq_some hlook) (hrests.owns howns)
  rw [List.count_singleton_self] at howns₁
  obtain ⟨hsound₂, hrests₂⟩ := S.release hsound₁ howns₁ (by omega)
  have hne : e.singletons.succ ≠ a :=
    (hrests.lays hlays).ne (Option.isSome_of_eq_some h.look_succ)
  have hall := (hrests.lays hlays).rests hrests₂ (by simp [hne])
  simp only [Nat.add_right_comm, Nat.add_sub_cancel] at hall
  have hheld : Backend.holding e.singletons.succ (e.apply e.singletons.succ n)
      (m.change (Backend.retain e.singletons.succ)) =
        .ok a (m₁.change (Backend.release e.singletons.succ)) := by
    unfold Backend.holding Act.ensuring
    rw [hrun]
    rfl
  exact ⟨a, m₁.change (Backend.release e.singletons.succ), hheld, hsound₂, hall⟩

/-- If the numeral itself is given back then all other owners are as before. -/
theorem holding_successor (h : S.Serves e m.store) (hn : S.Holds m.store n) :
    ∃ a m', Backend.holding n (e.successor n) m = .ok a m' ∧ S.Sound m'.store ∧
      S.Lays S.Owns m.store m'.store a n fun _ j => j := by
  obtain ⟨a, m₁, hrun, hsound, hlays⟩ := successor h hn
  obtain ⟨⟨c, hc⟩, j, hj, howns⟩ := hn
  have howns₁ := hlays.owns (Option.isSome_of_eq_some hc) howns
  rw [List.count_singleton_self] at howns₁
  obtain ⟨hsound₁, hrests⟩ := S.release hsound howns₁ (by omega)
  have hne : n ≠ a := hlays.ne (Option.isSome_of_eq_some hc)
  have hall := hlays.rests hrests (by simp [hne])
  simp only [Nat.add_sub_cancel] at hall
  refine ⟨a, m₁.change (Backend.release n), ?_, hsound₁, hall⟩
  unfold Backend.holding Act.ensuring
  rw [hrun]
  rfl

end Shelf

end ChurchStore
