import ChurchStore.Proofs.Arenas.Renewal
import ChurchStore.Proofs.Session.Evaluators

/-!
# Evaluators and their arenas

Whatever a session does, with good handles or bad ones, each of its evaluators has an arena of its
own, which can store closures, and the closures of the builtin functions are where the evaluator has
its handles. A reset takes them away and puts new ones there; since the arena could store them once,
it does not fail.
-/

namespace ChurchStore

namespace Arenas

variable {w : Arenas} {site : Site} {m m' : Machine Arenas} {e e' d : Evaluator ArenaRef}
  {es : Array (Evaluator ArenaRef)}

/-- The builtin functions are where they have been stored. -/
theorem look_of_build {capacity : Nat} {t : Singletons ArenaRef}
    (hrun : Singletons.build (alloc site) m = .ok t m') (b : Builtin) :
    (view site capacity).look m'.store (t.get b) = some b.closure := by
  obtain ⟨zero, m₁, h₁, hrun⟩ := Act.of_bind_eq_ok hrun
  obtain ⟨inner, m₂, h₂, hrun⟩ := Act.of_bind_eq_ok hrun
  obtain ⟨succ, m₃, h₃, hrun⟩ := Act.of_bind_eq_ok hrun
  obtain ⟨inc, m₄, h₄, hrun⟩ := Act.of_bind_eq_ok hrun
  cases hrun
  have p₂ := places_of_alloc h₂
  have p₃ := places_of_alloc h₃
  have p₄ := places_of_alloc h₄
  cases b with
  | zero => exact p₄.look_kept (p₃.look_kept (p₂.look_kept (places_of_alloc h₁).look_self))
  | zeroInner => exact p₄.look_kept (p₃.look_kept p₂.look_self)
  | succ => exact p₄.look_kept p₃.look_self
  | inc => exact p₄.look_self

/-- The arena of an evaluator can store closures, and the builtin functions are there. -/
structure Houses (w : Arenas) (e : Evaluator ArenaRef) : Prop where
  opened : Opened w e.site (w.arena e.site).capacity
  look (capacity : Nat) (b : Builtin) :
    (view e.site capacity).look w (e.singletons.get b) = some b.closure

namespace Houses

theorem of_alloc {c : Closure ArenaRef} {h : ArenaRef} (hrun : alloc site c m = .ok h m')
    (he : Houses m.store e) : Houses m'.store e where
  opened := by
    rw [(places_of_alloc hrun).capacity_kept]
    exact he.opened.of_changes (changes_of_alloc hrun)
  look capacity b := (places_of_alloc hrun).look_kept (he.look capacity b)

/-- What happens to other arenas does not matter. -/
theorem of_arena_eq {w' : Arenas} (hw : Changes w w') (harena : w'.arena e.site = w.arena e.site)
    (he : Houses w e) : Houses w' e where
  opened := by
    rw [harena]
    exact he.opened.of_changes hw
  look capacity b := by
    have hlook := he.look capacity b
    simp only [view] at hlook ⊢
    rwa [harena]

theorem withArena (he : Houses w e) (capacity : Nat) : Houses (w.withArena capacity) e := by
  refine he.of_arena_eq (.single (.opened capacity)) ?_
  rw [Arenas.withArena, arena, Array.getElem?_push, if_neg (Nat.ne_of_lt he.opened.lt_size)]
  rfl

theorem of_openArena {limits : Limits} (hrun : openArena limits m = .ok e m') :
    Houses m'.store e := by
  have hopened := Opened.of_openArena hrun
  obtain ⟨t, n, hbuild, hok⟩ | ⟨f, j, herror⟩ := openArena_cases limits m
  · rw [hok] at hrun
    cases hrun
    exact ⟨hopened.capacity_eq.symm ▸ hopened, fun _ b => look_of_build hbuild b⟩
  · rw [herror] at hrun
    cases hrun

/-- A reset of the arena does not fail. -/
theorem exists_reset (he : Houses m.store e) :
    ∃ t m', reset e m = .ok { e with singletons := t } m' ∧
      Houses m'.store { e with singletons := t } := by
  have hlt := he.opened.lt_size
  have hcleared : (m.store.modify e.site Arena.cleared).arena e.site =
      (m.store.arena e.site).cleared := arena_modify hlt _
  have hhold : CanHold (m.store.modify e.site Arena.cleared) e.site Closure.headerWord := by
    rw [CanHold, size_modify, hcleared]
    exact ⟨hlt, he.opened.word_le, .inr he.opened.reservation_lt⟩
  obtain ⟨t, m', hbuild⟩ := build_of_canHold
    (m := ⟨m.store.modify e.site Arena.cleared, m.journal.record
      (.arenaReset (m.store.arena e.site).epoch (m.store.arena e.site).bytes)⟩)
    (by rw [hcleared]; rfl) hhold
  have hrun : reset e m = .ok { e with singletons := t } m' := by
    simp only [reset_eq, Bind.bind, EStateM.bind, hbuild]
    rfl
  have hopened := he.opened.of_changes (changes_of_reset hlt hrun)
  exact ⟨t, m', hrun, hopened.capacity_eq.symm ▸ hopened, fun _ b => look_of_build hbuild b⟩

end Houses

/-- Each of the evaluators has an arena of its own. -/
structure HousesAll (w : Arenas) (es : Array (Evaluator ArenaRef)) : Prop where
  houses {number : Nat} {e : Evaluator ArenaRef} : es[number]? = some e → Houses w e
  site_injective {i j : Nat} {e d : Evaluator ArenaRef} : es[i]? = some e → es[j]? = some d →
    e.site = d.site → i = j

namespace HousesAll

theorem of_alloc {c : Closure ArenaRef} {h : ArenaRef} (hrun : alloc site c m = .ok h m')
    (hes : HousesAll m.store es) : HousesAll m'.store es where
  houses he := (hes.houses he).of_alloc hrun
  site_injective := hes.site_injective

theorem operates (es : Array (Evaluator ArenaRef)) : Host.Operates (W := Arenas)
    (fun m => HousesAll m.store es) (fun _ m => HousesAll m.store es) fun _ => True :=
  operates_of_alloc (J := (HousesAll · es)) of_alloc

theorem withArena (hes : HousesAll w es) (capacity : Nat) :
    HousesAll (w.withArena capacity) es where
  houses he := (hes.houses he).withArena capacity
  site_injective := hes.site_injective

/-- One more evaluator is opened. -/
theorem push {limits : Limits} (hes : HousesAll m.store es) (hrun : openArena limits m = .ok e m') :
    HousesAll m'.store (es.push e) := by
  obtain ⟨t, n, hbuild, hok⟩ | ⟨f, j, herror⟩ := openArena_cases limits m
  swap
  · rw [herror] at hrun
    cases hrun
  have hnew := Houses.of_openArena hrun
  rw [hok] at hrun
  cases hrun
  have hold : HousesAll m'.store es := build_induction (J := (HousesAll · es)) hbuild of_alloc
    (hes.withArena limits.blockCapacity)
  have hlt {i : Nat} {d : Evaluator ArenaRef} (hd : es[i]? = some d) :
      d.site < m.store.toArray.size :=
    (hes.houses hd).opened.lt_size
  constructor
  case houses =>
    intro i d hd
    rw [Array.getElem?_push] at hd
    split at hd
    · cases hd
      exact hnew
    · exact hold.houses hd
  case site_injective =>
    intro i j d d' hd hd' hsite
    rw [Array.getElem?_push] at hd hd'
    split at hd <;> split at hd'
    · omega
    · cases hd
      exact absurd hsite (Nat.ne_of_gt (hlt hd'))
    · cases hd'
      exact absurd hsite (Nat.ne_of_lt (hlt hd))
    · exact hes.site_injective hd hd' hsite

/-- A reset gives the evaluator new builtin functions, and touches no other arena. -/
theorem exists_reset {number : Nat} (hes : HousesAll m.store es) (he : es[number]? = some e) :
    ∃ e' m', reset e m = .ok e' m' ∧ HousesAll m'.store (es.setIfInBounds number e') := by
  obtain ⟨t, m', hrun, hnew⟩ := (hes.houses he).exists_reset
  have hlt := (hes.houses he).opened.lt_size
  have hset {i : Nat} {d : Evaluator ArenaRef}
      (hd : (es.setIfInBounds number { e with singletons := t })[i]? = some d) :
      (number = i ∧ d = { e with singletons := t }) ∨ (number ≠ i ∧ es[i]? = some d) := by
    rw [Array.getElem?_setIfInBounds] at hd
    split at hd
    · split at hd
      · cases hd
        exact .inl ⟨‹_›, rfl⟩
      · cases hd
    · exact .inr ⟨‹_›, hd⟩
  refine ⟨_, m', hrun, ⟨fun {i d} hd => ?_, fun {i j d d'} hd hd' hsite => ?_⟩⟩
  · obtain ⟨-, rfl⟩ | ⟨hne, hd⟩ := hset hd
    · exact hnew
    · have hsite : e.site ≠ d.site := fun hsite => hne (hes.site_injective he hd hsite)
      exact (hes.houses hd).of_arena_eq (changes_of_reset hlt hrun)
        ((arena_of_reset hlt hrun).2 _ hsite)
  · obtain ⟨rfl, rfl⟩ | ⟨-, hd⟩ := hset hd <;> obtain ⟨rfl, rfl⟩ | ⟨-, hd'⟩ := hset hd'
    · rfl
    · exact hes.site_injective he hd' hsite
    · exact hes.site_injective hd he hsite
    · exact hes.site_injective hd hd' hsite

end HousesAll

end Arenas

namespace Session

open Arenas

variable {α : Type} {s : Session Arenas ArenaRef}

/-- The evaluators of the session have their arenas. -/
def Housed (s : Session Arenas ArenaRef) : Prop := HousesAll s.machine.store s.evaluators

/-- The part of a command leaves the evaluators their arenas. -/
abbrev KeepsHoused (x : Play Arenas ArenaRef α) : Prop :=
  ChurchStore.Upholds Housed (fun _ => Housed) (fun _ => True) x

theorem keepsHoused_new (number : Nat) (limits : Limits) :
    KeepsHoused (perform number (.new limits)) := by
  intro s hs
  have hopen : (Host.openWith limits : Act Arenas (Evaluator ArenaRef)) s.machine =
    openArena limits s.machine := rfl
  simp only [perform, Bind.bind, EStateM.bind, act, hopen]
  cases hrun : openArena limits s.machine with
  | ok e m =>
    have hpush := HousesAll.push hs hrun
    refine ⟨trivial, ?_⟩
    change HousesAll m.store ((s.seats.push ⟨e, true⟩).map (·.evaluator))
    rwa [Array.map_push]
  | error f m =>
    obtain ⟨t, n, -, hok⟩ | ⟨f', j, herror⟩ := openArena_cases limits s.machine
    · rw [hok] at hrun
      cases hrun
    · rw [herror] at hrun
      cases hrun
      exact HousesAll.withArena hs limits.blockCapacity

theorem keepsHoused_reset (number : Nat) : KeepsHoused (perform number .reset) := by
  intro s hs
  cases hseat : s.seats[number]? with
  | none =>
    simp only [perform, Bind.bind, EStateM.bind, evaluator_of_none hseat]
    exact hs
  | some seat =>
    obtain ⟨e, _ | _⟩ := seat
    · simp only [perform, Bind.bind, EStateM.bind, evaluator_of_ended hseat]
      exact hs
    · obtain ⟨e', m', hrun, hes⟩ := HousesAll.exists_reset hs (mem_evaluators hseat)
      have hreset : (Host.reset? : Option (Evaluator ArenaRef → Act Arenas _)) = some reset := rfl
      simp only [perform, Bind.bind, EStateM.bind, evaluator_of_open hseat, hreset, act, hrun]
      refine ⟨trivial, ?_⟩
      change HousesAll m'.store ((s.seats.setIfInBounds number ⟨e', true⟩).map (·.evaluator))
      rwa [Array.map_setIfInBounds]

theorem keepsHoused_operation (number : Nat) {command : Command}
    (hc : command.isOperation = true) : KeepsHoused (perform number command) := by
  intro s hs
  have hstore := upholds_operation (HousesAll.operates s.evaluators)
    (.of_allowed fun f m hm => m.store_failed f ▸ hm) number hc s ⟨hs, fun _ _ => trivial⟩
  have hseats := Tenured.perform number hc s rfl
  cases hrun : perform number command s with
  | ok a s' =>
    rw [hrun] at hstore hseats
    refine ⟨trivial, ?_⟩
    change HousesAll s'.machine.store s'.evaluators
    rw [hseats.2]
    exact hstore.2.machine
  | error r s' =>
    rw [hrun] at hstore hseats
    change HousesAll s'.machine.store s'.evaluators
    rw [hseats]
    cases r with
    | unknown => exact hstore.machine
    | fault f => exact hstore.machine

/-- A demo does nothing to the evaluators. -/
theorem keepsHoused_playDemo (e : Evaluator ArenaRef) (options : DemoOptions)
    (palette : Report.Palette) (limit : Option Nat) :
    KeepsHoused (playDemo e options palette limit) := by
  intro s hs
  change HousesAll s.machine.store s.evaluators at hs
  have hdemo := Demo.upholds_run (e := e) ((HousesAll.operates s.evaluators).backend trivial)
    (.of_allowed fun f m hm => m.store_failed f ▸ hm)
    (fun _ _ hm => hm) options (fun _ => 0) ⟨s.machine, { palette, sink := { limit } }⟩ hs
  simp only [playDemo]
  cases hrun : Demo.run e options (fun _ => 0) ⟨s.machine, { palette, sink := { limit } }⟩ with
  | ok a stage =>
    rw [hrun] at hdemo
    exact hdemo
  | error halt stage =>
    rw [hrun] at hdemo
    cases halt with
    | write e => exact ⟨trivial, hdemo⟩
    | fault f => exact hdemo

theorem keepsHoused_perform (number : Nat) (command : Command) :
    KeepsHoused (perform number command) := by
  cases command with
  | new limits => exact keepsHoused_new number limits
  | reset => exact keepsHoused_reset number
  | stats | extent | ledger => exact keeps_report number rfl
  | demo options palette limit =>
    exact (keeps_evaluator (P := fun _ => True) number fun _ _ _ _ => trivial).bind fun e _ =>
      keepsHoused_playDemo e options palette limit
  | _ => exact keepsHoused_operation number rfl

/-- Whatever is done in turn, the evaluators keep their arenas. -/
theorem Housed.afterTurns (hs : s.Housed) (turns : List (Nat × Command)) :
    (s.afterTurns turns).Housed := by
  induction turns generalizing s with
  | nil => exact hs
  | cons turn turns ih =>
    obtain ⟨s', hs', hstep⟩ := exists_step_of_keeps (keepsHoused_perform turn.1 turn.2) hs
    refine ih (s := (s.step turn.1 (some turn.2)).2) ?_
    rw [hstep]
    exact hs'

theorem housed_start (filter : Log.Filter) : (start filter : Session Arenas ArenaRef).Housed where
  houses he := by simp [evaluators, start] at he
  site_injective he := by simp [evaluators, start] at he

end Session

end ChurchStore
