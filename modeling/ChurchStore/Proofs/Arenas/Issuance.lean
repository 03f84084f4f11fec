import ChurchStore.Proofs.Arena
import ChurchStore.Proofs.Arenas.Opening

/-!
# Handles of several arenas

A chronicle is what happens to any number of arenas: evaluators are opened and reset, closures are
stored that capture handles of whatever arena and epoch, and handles are resolved by whatever arena.
It remembers each allocation that was answered. Along every chronicle an issued handle reads the
closure that it was issued for, as long as its arena has not been reset, and is refused otherwise;
no two allocations share a handle, and within an arena and an epoch captures lead to places before
that of their captor. All this holds of the numbers of resets, of which handles keep only the last
32 bits, so it holds of handles as long as no arena was reset as often as there are epochs.
-/

namespace ChurchStore

namespace Act

variable {W α β : Type}

/-- An operation that answers has answered step by step. -/
theorem of_bind_eq_ok {x : Act W α} {k : α → Act W β} {m m'' : Machine W} {b : β}
    (h : (x >>= k) m = .ok b m'') : ∃ a m', x m = .ok a m' ∧ k a m' = .ok b m'' := by
  simp only [Bind.bind, EStateM.bind] at h
  cases hx : x m with
  | ok a m' => exact ⟨a, m', rfl, by rwa [hx] at h⟩
  | error f m' =>
    rw [hx] at h
    cases h

end Act

namespace Arenas

/-- Where the builtin functions were stored in an arena without blocks, blocks can be reserved. -/
theorem reservation_lt_of_build {site : Site} {t : Singletons ArenaRef} {m m' : Machine Arenas}
    (hblocks : (m.store.arena site).blocks = #[])
    (hrun : Singletons.build (alloc site) m = .ok t m') :
    (m'.store.arena site).blockReservation < reservationBound := by
  obtain ⟨zero, m₁, h₁, hrun⟩ := Act.of_bind_eq_ok hrun
  obtain ⟨inner, m₂, h₂, hrun⟩ := Act.of_bind_eq_ok hrun
  obtain ⟨succ, m₃, h₃, hrun⟩ := Act.of_bind_eq_ok hrun
  obtain ⟨inc, m₄, h₄, hrun⟩ := Act.of_bind_eq_ok hrun
  cases hrun
  have hcapacity := ((places_of_alloc h₄).capacity_kept site).trans <|
    ((places_of_alloc h₃).capacity_kept site).trans <|
      ((places_of_alloc h₂).capacity_kept site).trans ((places_of_alloc h₁).capacity_kept site)
  have hzero : CanHold m.store site Closure.headerWord := by
    by_contra hnot
    obtain ⟨f, j, herror⟩ := alloc_of_not_canHold (c := .zero) hnot
    cases herror.symm.trans h₁
  have hroom : ¬ (m.store.arena site).hasRoom Closure.headerWord = true := by
    rw [Arena.hasRoom, hblocks]
    exact Bool.false_ne_true
  rw [Arena.blockReservation, hcapacity]
  exact hzero.2.2.resolve_left hroom

/-- An allocation that was answered: the arena and how often it had been reset by then, the closure
and the handle that was issued for it. -/
structure Issue where
  site : Site
  resets : Nat
  closure : Closure ArenaRef
  handle : ArenaRef
  deriving DecidableEq, Repr

/-- Two allocations in one arena between the same resets. -/
def Issue.Peers (i j : Issue) : Prop := i.site = j.site ∧ i.resets = j.resets

/-- What happened to arenas. -/
structure Chronicle where
  machine : Machine Arenas := { store := {} }
  evaluators : Array (Evaluator ArenaRef) := #[]
  /-- The allocations that were answered, the last one first. -/
  issues : List Issue := []
  /-- How often each arena was reset. -/
  resets : Site → Nat := fun _ => 0

/-- One of the things that can happen. Handles are named by the number of the allocation that they
were issued for, and evaluators by the order in which they were opened. -/
inductive Move where
  | new (limits : Limits)
  | alloc (site : Site) (c : Closure Nat)
  | resolve (site : Site) (number : Nat)
  | reset (number : Nat)
  deriving Repr

namespace Chronicle

/-- Remembers an allocation. -/
def issue (s : Chronicle) (site : Site) (c : Closure ArenaRef) (h : ArenaRef) : Chronicle :=
  { s with issues := ⟨site, s.resets site, c, h⟩ :: s.issues }

/-- Whether a handle was issued. -/
def Issued (s : Chronicle) (h : ArenaRef) : Prop := ∃ i ∈ s.issues, i.handle = h

/-- Whether a handle was issued for this closure. -/
def IssuedFor (s : Chronicle) (c : Closure ArenaRef) (h : ArenaRef) : Prop :=
  ∃ i ∈ s.issues, i.closure = c ∧ i.handle = h

theorem IssuedFor.issued {s : Chronicle} {c : Closure ArenaRef} {h : ArenaRef}
    (hh : s.IssuedFor c h) : s.Issued h := by
  obtain ⟨i, hi, -, rfl⟩ := hh
  exact ⟨i, hi, rfl⟩

theorem IssuedFor.issue {s : Chronicle} {c : Closure ArenaRef} {h : ArenaRef}
    (hh : s.IssuedFor c h) (site : Site) (x : Closure ArenaRef) (new : ArenaRef) :
    (s.issue site x new).IssuedFor c h := by
  obtain ⟨i, hi, hissue⟩ := hh
  exact ⟨i, List.mem_cons_of_mem _ hi, hissue⟩

theorem Issued.issue {s : Chronicle} {h : ArenaRef} (hh : s.Issued h) (site : Site)
    (c : Closure ArenaRef) (new : ArenaRef) : (s.issue site c new).Issued h := by
  obtain ⟨i, hi, rfl⟩ := hh
  exact ⟨i, List.mem_cons_of_mem _ hi, rfl⟩

/-- Remembers the allocations of an evaluator's builtin functions. -/
def issueBuiltins (s : Chronicle) (site : Site) (t : Singletons ArenaRef) : Chronicle :=
  Builtin.all.foldl (fun s b => s.issue site b.closure (t.get b)) s

theorem Issued.issueBuiltins {s : Chronicle} {h : ArenaRef} (hh : s.Issued h) (site : Site)
    (t : Singletons ArenaRef) : (s.issueBuiltins site t).Issued h :=
  ((((hh.issue ..).issue ..).issue ..).issue ..)

theorem issuedFor_issueBuiltins (s : Chronicle) (site : Site) (t : Singletons ArenaRef)
    (b : Builtin) : (s.issueBuiltins site t).IssuedFor b.closure (t.get b) := by
  refine ⟨⟨site, s.resets site, b.closure, t.get b⟩, ?_, rfl, rfl⟩
  cases b <;> simp [issueBuiltins, issue, Builtin.all]

/-- The chronicle in which an arena has been cleared. -/
def cleared (s : Chronicle) (site : Site) (j : Journal) : Chronicle :=
  { s with
    machine := ⟨s.machine.store.modify site Arena.cleared, j⟩
    resets := Function.update s.resets site (s.resets site + 1) }

section Cleared

variable {s : Chronicle} {site site' : Site}

theorem arena_cleared (h : site < s.machine.store.toArray.size) (j : Journal) :
    (s.cleared site j).machine.store.arena site = (s.machine.store.arena site).cleared :=
  arena_modify h Arena.cleared

theorem arena_cleared_of_ne (s : Chronicle) (h : site ≠ site') (j : Journal) :
    (s.cleared site j).machine.store.arena site' = s.machine.store.arena site' :=
  arena_modify_of_ne h Arena.cleared

theorem resets_cleared (s : Chronicle) (site : Site) (j : Journal) :
    (s.cleared site j).resets site = s.resets site + 1 := Function.update_self ..

theorem resets_cleared_of_ne (s : Chronicle) (h : site ≠ site') (j : Journal) :
    (s.cleared site j).resets site' = s.resets site' := Function.update_of_ne (Ne.symm h) ..

theorem le_resets_cleared (s : Chronicle) (site site' : Site) (j : Journal) :
    s.resets site' ≤ (s.cleared site j).resets site' := by
  by_cases hne : site = site'
  · subst hne
    rw [resets_cleared]
    exact Nat.le_succ _
  · rw [resets_cleared_of_ne s hne]

end Cleared

/-- The handle that was issued for the allocation with the given number. -/
def handle? (s : Chronicle) (number : Nat) : Option ArenaRef :=
  s.issues.reverse[number]?.map (·.handle)

/-- The closure over the handles of the given allocations, if there are all of them. -/
def closure? (s : Chronicle) (c : Closure Nat) : Option (Closure ArenaRef) :=
  if ∀ number ∈ c.captures, (s.handle? number).isSome then
    some (c.map fun number => (s.handle? number).getD default)
  else none

theorem issued_of_handle? {s : Chronicle} {number : Nat} {h : ArenaRef}
    (hh : s.handle? number = some h) : s.Issued h := by
  obtain ⟨i, hi, rfl⟩ := Option.map_eq_some_iff.1 hh
  exact ⟨i, List.mem_reverse.1 (List.mem_of_getElem? hi), rfl⟩

theorem issued_of_closure? {s : Chronicle} {c : Closure Nat} {c' : Closure ArenaRef}
    (hc : s.closure? c = some c') : ∀ x ∈ c'.captures, s.Issued x := by
  rw [closure?] at hc
  split at hc
  · rename_i hsome
    cases hc
    intro x hx
    rw [Closure.captures_map] at hx
    obtain ⟨number, hnumber, rfl⟩ := List.mem_map.1 hx
    obtain ⟨h, hh⟩ := Option.isSome_iff_exists.1 (hsome number hnumber)
    rw [hh]
    exact issued_of_handle? hh
  · cases hc

/-- Goes on with what an operation led to; a fault is not remembered. -/
def goOn {α : Type} (s : Chronicle) (op : Act Arenas α) (answered : α → Chronicle → Chronicle) :
    Chronicle :=
  match op s.machine with
  | .ok a m => answered a { s with machine := m }
  | .error _ m => { s with machine := m }

theorem resets_goOn_le {α : Type} {s : Chronicle} {site : Site} {n : Nat}
    (hs : s.resets site ≤ n) {op : Act Arenas α} {answered : α → Chronicle → Chronicle}
    (h : ∀ a (s : Chronicle), (answered a s).resets = s.resets) :
    (s.goOn op answered).resets site ≤ n := by
  rw [goOn]
  split
  · rwa [h]
  · exact hs

/-- One more thing happens. What is named and does not exist is passed over. -/
def play (s : Chronicle) : Move → Chronicle
  | .new limits =>
    s.goOn (openArena limits) fun e s =>
      { s with evaluators := s.evaluators.push e }.issueBuiltins e.site e.singletons
  | .alloc site c =>
    match s.closure? c with
    | none => s
    | some c => s.goOn (Arenas.alloc site c) fun h s => s.issue site c h
  | .resolve site number =>
    match s.handle? number with
    | none => s
    | some h => s.goOn (Arenas.resolve site h) fun _ s => s
  | .reset number =>
    match s.evaluators[number]? with
    | none => s
    | some e =>
      { s with resets := Function.update s.resets e.site (s.resets e.site + 1) }.goOn
        (Arenas.reset e) fun e s =>
          { s with evaluators := s.evaluators.setIfInBounds number e }.issueBuiltins e.site
            e.singletons

/-- All that happens, in order. -/
def after (s : Chronicle) (moves : List Move) : Chronicle := moves.foldl play s

/-- Each thing that happens resets an arena at most once. -/
theorem resets_play_le (s : Chronicle) (move : Move) (site : Site) :
    (s.play move).resets site ≤ s.resets site + 1 := by
  have hkept : s.resets site ≤ s.resets site + 1 := Nat.le_succ _
  cases move with
  | new limits => exact resets_goOn_le hkept fun _ _ => rfl
  | alloc site c =>
    rw [play]
    split
    · exact hkept
    · exact resets_goOn_le hkept fun _ _ => rfl
  | resolve site number =>
    rw [play]
    split
    · exact hkept
    · exact resets_goOn_le hkept fun _ _ => rfl
  | reset number =>
    rw [play]
    split
    · exact hkept
    · rename_i e _
      refine resets_goOn_le ?_ fun _ _ => rfl
      change Function.update s.resets e.site (s.resets e.site + 1) site ≤ _
      by_cases hsite : site = e.site
      · rw [hsite, Function.update_self]
      · rw [Function.update_of_ne hsite]
        exact hkept

theorem resets_after_le (s : Chronicle) (moves : List Move) (site : Site) :
    (s.after moves).resets site ≤ s.resets site + moves.length := by
  induction moves generalizing s with
  | nil => exact Nat.le_refl _
  | cons move moves ih =>
    have hmoves := ih (s.play move)
    have hmove := s.resets_play_le move site
    rw [List.length_cons]
    change ((s.play move).after moves).resets site ≤ _
    omega

/-- Captures were issued earlier, and those among peers lie before their captor. -/
def Grounded : List Issue → Prop
  | [] => True
  | i :: issues =>
    (∀ h ∈ i.closure.captures, ∃ j ∈ issues, j.handle = h ∧ (j.Peers i → h.Before i.handle)) ∧
      Grounded issues

theorem Grounded.of_mem {issues : List Issue} (h : Grounded issues) {i : Issue}
    (hi : i ∈ issues) : ∀ x ∈ i.closure.captures, ∃ j ∈ issues, j.handle = x ∧
      (j.Peers i → x.Before i.handle) := by
  induction issues with
  | nil => cases hi
  | cons first issues ih =>
    intro x hx
    obtain ⟨j, hj, hissue⟩ : ∃ j ∈ issues, j.handle = x ∧ (j.Peers i → x.Before i.handle) := by
      rcases List.mem_cons.1 hi with rfl | hi
      · exact h.1 x hx
      · exact ih h.2 hi x hx
    exact ⟨j, List.mem_cons_of_mem _ hj, hissue⟩

/-- The arenas are as they were left by the allocations since their last reset, and the numbers of
resets are told by the epochs. -/
structure Sound (s : Chronicle) : Prop where
  epoch_eq {site : Site} : site < s.machine.store.toArray.size →
    (s.machine.store.arena site).epoch = .ofNat (s.resets site)
  resets_eq_zero {site : Site} : s.machine.store.toArray.size ≤ site → s.resets site = 0
  evaluator_lt_size {e : Evaluator ArenaRef} : e ∈ s.evaluators →
    e.site < s.machine.store.toArray.size
  reservation_lt {e : Evaluator ArenaRef} : e ∈ s.evaluators →
    (s.machine.store.arena e.site).blockReservation < reservationBound
  issued_builtin {e : Evaluator ArenaRef} : e ∈ s.evaluators →
    ∀ b, s.IssuedFor b.closure (e.singletons.get b)
  lt_size {i : Issue} : i ∈ s.issues → i.site < s.machine.store.toArray.size
  arena_eq {i : Issue} : i ∈ s.issues → i.handle.arena = i.site
  epoch_of_issue {i : Issue} : i ∈ s.issues → i.handle.epoch = .ofNat i.resets
  resets_le {i : Issue} : i ∈ s.issues → i.resets ≤ s.resets i.site
  closure_eq {i : Issue} : i ∈ s.issues → i.resets = s.resets i.site →
    (s.machine.store.arena i.site).closure? i.handle.block i.handle.slot = some i.closure
  exists_issue {site : Site} {block slot : Nat} {c : Closure ArenaRef} :
    (s.machine.store.arena site).closure? block slot = some c →
    ∃ i ∈ s.issues, i.site = site ∧ i.resets = s.resets site ∧ i.handle.block = block ∧
      i.handle.slot = slot ∧ i.closure = c
  distinct : s.issues.Pairwise fun i j => i.Peers j →
    i.handle.block ≠ j.handle.block ∨ i.handle.slot ≠ j.handle.slot
  grounded : Grounded s.issues

namespace Sound

variable {s : Chronicle} {site : Site} {c : Closure ArenaRef} {h : ArenaRef}

theorem start (filter : Log.Filter) :
    Sound { machine := { store := {}, journal := { filter } } } where
  epoch_eq hs := absurd hs (Nat.not_lt_zero _)
  resets_eq_zero _ := rfl
  evaluator_lt_size he := by simp at he
  reservation_lt he := by simp at he
  issued_builtin he := by simp at he
  lt_size hi := nomatch hi
  arena_eq hi := nomatch hi
  epoch_of_issue hi := nomatch hi
  resets_le hi := nomatch hi
  closure_eq hi := nomatch hi
  exists_issue hc := nomatch hc
  distinct := .nil
  grounded := trivial

/-- The log plays no part. -/
theorem of_store_eq (hs : s.Sound) {m : Machine Arenas} (hm : m.store = s.machine.store) :
    Sound { s with machine := m } := by
  obtain ⟨h₁, h₂, h₃, h₄, h₅, h₆, h₇, h₈, h₉, h₁₀, h₁₁, h₁₂, h₁₃⟩ := hs
  constructor <;> simp only [hm] <;> assumption

/-- A new closure comes after its peers. -/
theorem before (hs : s.Sound) {w : Arenas} (hp : Places s.machine.store w site c h) {j : Issue}
    (hj : j ∈ s.issues) (hsite : j.site = site) (hresets : j.resets = s.resets site) :
    j.handle.Before h := by
  subst hsite
  exact hp.before (hs.closure_eq hj hresets)

/-- An allocation that is answered is remembered. -/
theorem issue (hs : s.Sound) {m : Machine Arenas} (hp : Places s.machine.store m.store site c h)
    (hcaptures : ∀ x ∈ c.captures, s.Issued x) :
    Sound ({ s with machine := m }.issue site c h) where
  epoch_eq {site'} hsite := (hp.epoch_kept site').trans (hs.epoch_eq (hp.size_eq ▸ hsite))
  resets_eq_zero hsite := hs.resets_eq_zero (hp.size_eq ▸ hsite)
  evaluator_lt_size he := hp.size_eq ▸ hs.evaluator_lt_size he
  reservation_lt {e} he := by
    change (m.store.arena e.site).blockReservation < reservationBound
    rw [Arena.blockReservation, hp.capacity_kept]
    exact hs.reservation_lt he
  issued_builtin he b := (hs.issued_builtin he b).issue ..
  lt_size {i} hi := by
    change i.site < m.store.toArray.size
    rw [hp.size_eq]
    rcases List.mem_cons.1 hi with rfl | hi
    · exact hp.lt_size
    · exact hs.lt_size hi
  arena_eq hi := by
    rcases List.mem_cons.1 hi with rfl | hi
    · exact hp.arena_eq
    · exact hs.arena_eq hi
  epoch_of_issue hi := by
    rcases List.mem_cons.1 hi with rfl | hi
    · exact hp.epoch_eq.trans (hs.epoch_eq hp.lt_size)
    · exact hs.epoch_of_issue hi
  resets_le hi := by
    rcases List.mem_cons.1 hi with rfl | hi
    · exact Nat.le_refl _
    · exact hs.resets_le hi
  closure_eq {i} hi hresets := by
    change (m.store.arena i.site).closure? _ _ = _
    rcases List.mem_cons.1 hi with rfl | hi
    · rw [hp.closure?_eq, if_pos ⟨rfl, rfl⟩]
    · have hold := hs.closure_eq hi hresets
      by_cases hsite : site = i.site
      · subst hsite
        rw [hp.closure?_eq, if_neg, hold]
        rintro ⟨hblock, hslot⟩
        rcases hp.before hold with hlt | ⟨-, hlt⟩
        · exact Nat.ne_of_lt hlt hblock
        · exact Nat.ne_of_lt hlt hslot
      · rw [hp.arena_of_ne hsite, hold]
  exists_issue {site' block slot x} hx := by
    change (m.store.arena site').closure? block slot = some x at hx
    by_cases hnew : site = site' ∧ block = h.block ∧ slot = h.slot
    · obtain ⟨rfl, rfl, rfl⟩ := hnew
      rw [hp.closure?_eq, if_pos ⟨rfl, rfl⟩] at hx
      cases hx
      exact ⟨_, List.mem_cons_self .., rfl, rfl, rfl, rfl, rfl⟩
    · have hold : (s.machine.store.arena site').closure? block slot = some x := by
        by_cases hsite : site = site'
        · subst hsite
          rwa [hp.closure?_eq, if_neg fun hplace => hnew ⟨rfl, hplace⟩] at hx
        · rwa [hp.arena_of_ne hsite] at hx
      obtain ⟨i, hi, hissue⟩ := hs.exists_issue hold
      exact ⟨i, List.mem_cons_of_mem _ hi, hissue⟩
  distinct := by
    refine List.pairwise_cons.2 ⟨fun j hj hpeers => ?_, hs.distinct⟩
    rcases hs.before hp hj hpeers.1.symm hpeers.2.symm with hlt | ⟨-, hlt⟩
    · exact .inl (Nat.ne_of_gt hlt)
    · exact .inr (Nat.ne_of_gt hlt)
  grounded := by
    refine ⟨fun x hx => ?_, hs.grounded⟩
    obtain ⟨j, hj, rfl⟩ := hcaptures x hx
    exact ⟨j, hj, rfl, fun hpeers => hs.before hp hj hpeers.1 hpeers.2⟩

/-- The builtin functions of an evaluator are remembered. -/
theorem issueBuiltins (hs : s.Sound) {t : Singletons ArenaRef} {m : Machine Arenas}
    (hrun : Singletons.build (Arenas.alloc site) s.machine = .ok t m) :
    Sound ({ s with machine := m }.issueBuiltins site t) := by
  obtain ⟨zero, m₁, h₁, hrun⟩ := Act.of_bind_eq_ok hrun
  obtain ⟨inner, m₂, h₂, hrun⟩ := Act.of_bind_eq_ok hrun
  obtain ⟨succ, m₃, h₃, hrun⟩ := Act.of_bind_eq_ok hrun
  obtain ⟨inc, m₄, h₄, hrun⟩ := Act.of_bind_eq_ok hrun
  cases hrun
  have hnone (b : Builtin) {s : Chronicle} :
      ∀ x ∈ (b.closure : Closure ArenaRef).captures, s.Issued x := by
    cases b <;> exact fun x hx => nomatch hx
  have hs₁ := hs.issue (places_of_alloc h₁) (hnone .zero)
  have hs₂ := hs₁.issue (places_of_alloc h₂) (hnone .zeroInner)
  have hs₃ := hs₂.issue (places_of_alloc h₃) (hnone .succ)
  exact hs₃.issue (places_of_alloc h₄) (hnone .inc)

/-- An evaluator whose builtin functions are remembered may take any seat. -/
theorem seat (hs : s.Sound) {e : Evaluator ArenaRef} {m : Machine Arenas}
    (hrun : Singletons.build (Arenas.alloc e.site) s.machine = .ok e.singletons m)
    (hblocks : (s.machine.store.arena e.site).blocks = #[])
    {es : Array (Evaluator ArenaRef)} (hes : ∀ x ∈ es, x ∈ s.evaluators ∨ x = e) :
    Sound ({ s with machine := m, evaluators := es }.issueBuiltins e.site e.singletons) := by
  have hs' := hs.issueBuiltins hrun
  refine { hs' with
    evaluator_lt_size := fun {x} hx => ?_
    reservation_lt := fun {x} hx => ?_
    issued_builtin := fun {x} hx b => ?_ }
  · rcases hes x hx with hx | rfl
    · exact hs'.evaluator_lt_size hx
    · exact hs'.lt_size (List.mem_cons_self ..)
  · rcases hes x hx with hx | rfl
    · exact hs'.reservation_lt hx
    · exact reservation_lt_of_build hblocks hrun
  · rcases hes x hx with hx | rfl
    · exact hs'.issued_builtin hx b
    · exact issuedFor_issueBuiltins ..

/-- Opening an arena. -/
theorem push (hs : s.Sound) (capacity : Nat) (j : Journal) :
    Sound { s with machine := ⟨s.machine.store.withArena capacity, j⟩ } := by
  have hepoch (site : Site) : ((s.machine.store.withArena capacity).arena site).epoch =
      (s.machine.store.arena site).epoch := (arena_withArena ..).1
  have hclosure (site : Site) := (arena_withArena s.machine.store capacity site).2
  have hsize := s.machine.store.size_withArena capacity
  constructor
  case epoch_eq =>
    intro site hlt
    rw [hepoch]
    rcases Nat.lt_succ_iff_lt_or_eq.1 (hsize ▸ hlt) with hlt | rfl
    · exact hs.epoch_eq hlt
    · rw [arena_of_size_le (Nat.le_refl _)]
      exact (congrArg UInt32.ofNat (hs.resets_eq_zero (Nat.le_refl _))).symm
  case resets_eq_zero =>
    intro site hle
    have hle : s.machine.store.toArray.size + 1 ≤ site := hsize ▸ hle
    exact hs.resets_eq_zero (Nat.le_of_succ_le hle)
  case evaluator_lt_size =>
    intro e he
    exact hsize ▸ Nat.lt_succ_of_lt (hs.evaluator_lt_size he)
  case reservation_lt =>
    intro e he
    change (Arenas.arena (s.machine.store.withArena capacity) e.site).blockReservation < _
    rw [withArena, arena, Array.getElem?_push, if_neg (Nat.ne_of_lt (hs.evaluator_lt_size he))]
    exact hs.reservation_lt he
  case issued_builtin => exact hs.issued_builtin
  case lt_size =>
    intro i hi
    exact hsize ▸ Nat.lt_succ_of_lt (hs.lt_size hi)
  case arena_eq => exact hs.arena_eq
  case epoch_of_issue => exact hs.epoch_of_issue
  case resets_le => exact hs.resets_le
  case closure_eq =>
    intro i hi hresets
    exact (hclosure ..).trans (hs.closure_eq hi hresets)
  case exists_issue =>
    intro site block slot c hc
    exact hs.exists_issue ((hclosure ..).symm.trans hc)
  case distinct => exact hs.distinct
  case grounded => exact hs.grounded

/-- Resetting an arena. -/
theorem clear (hs : s.Sound) (hsite : site < s.machine.store.toArray.size) (j : Journal) :
    (s.cleared site j).Sound := by
  have hsize : (s.cleared site j).machine.store.toArray.size = s.machine.store.toArray.size :=
    size_modify s.machine.store site Arena.cleared
  have hcleared := arena_cleared hsite j
  have hother {site' : Site} (hne : site ≠ site') := arena_cleared_of_ne s hne j
  have hresets {site' : Site} (hne : site ≠ site') := resets_cleared_of_ne s hne j
  constructor
  case epoch_eq =>
    intro site' hlt
    by_cases hne : site = site'
    · subst hne
      rw [hcleared, resets_cleared, UInt32.ofNat_add, ← hs.epoch_eq hsite]
      rfl
    · rw [hother hne, hresets hne]
      exact hs.epoch_eq (hsize ▸ hlt)
  case resets_eq_zero =>
    intro site' hle
    have hle := hsize ▸ hle
    rw [hresets fun heq => Nat.not_le_of_lt hsite (heq ▸ hle)]
    exact hs.resets_eq_zero hle
  case evaluator_lt_size => exact fun he => hsize ▸ hs.evaluator_lt_size he
  case reservation_lt =>
    intro e he
    by_cases hne : site = e.site
    · subst hne
      rw [hcleared]
      exact hs.reservation_lt he
    · rw [hother hne]
      exact hs.reservation_lt he
  case issued_builtin => exact hs.issued_builtin
  case lt_size => exact fun hi => hsize ▸ hs.lt_size hi
  case arena_eq => exact hs.arena_eq
  case epoch_of_issue => exact hs.epoch_of_issue
  case resets_le => exact fun hi => (hs.resets_le hi).trans (le_resets_cleared s site _ j)
  case closure_eq =>
    intro i hi heq
    by_cases hne : site = i.site
    · subst hne
      rw [resets_cleared] at heq
      exact absurd (hs.resets_le hi) (by omega)
    · rw [hother hne]
      exact hs.closure_eq hi (heq.trans (hresets hne))
  case exists_issue =>
    intro site' block slot c hc
    by_cases hne : site = site'
    · subst hne
      rw [hcleared] at hc
      cases hc
    · rw [hresets hne]
      rw [hother hne] at hc
      exact hs.exists_issue hc
  case distinct => exact hs.distinct
  case grounded => exact hs.grounded

theorem goOn {α : Type} {op : Act Arenas α} {answered : α → Chronicle → Chronicle}
    (hok : ∀ a m, op s.machine = .ok a m → (answered a { s with machine := m }).Sound)
    (herror : ∀ f m, op s.machine = .error f m → Sound { s with machine := m }) :
    (s.goOn op answered).Sound := by
  rw [Chronicle.goOn]
  split
  · exact hok _ _ ‹_›
  · exact herror _ _ ‹_›

theorem playNew (hs : s.Sound) (limits : Limits) : (s.play (.new limits)).Sound := by
  obtain ⟨t, m', hbuild, hrun⟩ | ⟨f, j, hrun⟩ := openArena_cases limits s.machine
  · rw [Chronicle.play, Chronicle.goOn, hrun]
    exact (hs.push limits.blockCapacity s.machine.journal).seat
      (e := ⟨s.machine.store.toArray.size, t, limits.nesting⟩) hbuild
      (by rw [arena_withArena_self]) fun _ => Array.mem_push.1
  · rw [Chronicle.play, Chronicle.goOn, hrun]
    exact hs.push limits.blockCapacity j

theorem playAlloc (hs : s.Sound) (site : Site) (c : Closure Nat) :
    (s.play (.alloc site c)).Sound := by
  rw [Chronicle.play]
  split
  · exact hs
  · rename_i c' hc
    refine goOn (fun h m hrun => hs.issue (places_of_alloc hrun) (issued_of_closure? hc))
      fun f m hrun => ?_
    by_cases hhold : CanHold s.machine.store site c'.footprint
    · obtain ⟨m', hok, -⟩ := alloc_of_fits hhold.1 hhold.2.1 hhold.2.2
      rw [hok] at hrun
      cases hrun
    · obtain ⟨f', j, herror⟩ := alloc_of_not_canHold hhold
      rw [herror] at hrun
      cases hrun
      exact hs.of_store_eq rfl

theorem playReset (hs : s.Sound) (number : Nat) : (s.play (.reset number)).Sound := by
  rw [Chronicle.play]
  split
  · exact hs
  · rename_i e he
    have hsite := hs.evaluator_lt_size (Array.mem_of_getElem? he)
    obtain ⟨j, t, m', hbuild, hrun⟩ | ⟨f, j, hrun⟩ := reset_cases e hsite
    · rw [Chronicle.goOn, hrun]
      exact (hs.clear hsite j).seat (e := { e with singletons := t }) hbuild
        (by rw [arena_cleared hsite]; rfl) fun _ => Array.mem_or_eq_of_mem_setIfInBounds
    · rw [Chronicle.goOn, hrun]
      exact hs.clear hsite j

/-- What happens keeps a chronicle sound. -/
theorem play (hs : s.Sound) (move : Move) : (s.play move).Sound := by
  cases move with
  | new limits => exact hs.playNew limits
  | alloc site c => exact hs.playAlloc site c
  | resolve site number =>
    rw [Chronicle.play]
    split
    · exact hs
    · rename_i h hh
      rw [Chronicle.goOn]
      obtain ⟨c, hrun, -⟩ | ⟨f, j, hrun⟩ := resolve_cases site h s.machine
      · rw [hrun]
        exact hs
      · rw [hrun]
        exact hs.of_store_eq rfl
  | reset number => exact hs.playReset number

theorem after (hs : s.Sound) (moves : List Move) : (s.after moves).Sound := by
  induction moves generalizing s with
  | nil => exact hs
  | cons move moves ih => exact ih (hs.play move)

end Sound

/-! ### What handles mean -/

/-- What can be relied on when handles of several arenas are about. -/
structure Reliable (s : Chronicle) : Prop where
  /-- No two allocations share a handle. -/
  nodup : (s.issues.map Issue.handle).Nodup
  /-- An arena refuses a handle of another one. -/
  foreign {i : Issue} {site : Site} : i ∈ s.issues → site ≠ i.site →
    ∃ j, Arenas.resolve site i.handle s.machine =
      .error (.violation (.foreignHandle .arena)) ⟨s.machine.store, j⟩
  /-- An arena refuses a handle from before its last reset. -/
  stale {i : Issue} : i ∈ s.issues → i.resets ≠ s.resets i.site →
    ∃ j, Arenas.resolve i.site i.handle s.machine =
      .error (.violation (.staleHandle (.ofNat i.resets) (.ofNat (s.resets i.site))))
        ⟨s.machine.store, j⟩
  /-- Any other handle reads the closure that it was issued for. -/
  current {i : Issue} : i ∈ s.issues → i.resets = s.resets i.site →
    Arenas.resolve i.site i.handle s.machine = .ok i.closure s.machine
  /-- What closures capture was issued, in whatever arena and epoch. -/
  captured {i : Issue} : i ∈ s.issues → ∀ h ∈ i.closure.captures, s.Issued h
  /-- Nothing is stored but what was allocated since the last reset. -/
  stored {site : Site} {block slot : Nat} {c : Closure ArenaRef} :
    (s.machine.store.arena site).closure? block slot = some c →
    ∃ i ∈ s.issues, i.closure = c ∧ i.resets = s.resets site ∧
      i.handle = ⟨site, (s.machine.store.arena site).epoch, block, slot⟩
  /-- Captures from the arena and the epoch of their captor lie before it. -/
  before {i : Issue} : i ∈ s.issues → ∀ h ∈ i.closure.captures, h.arena = i.handle.arena →
    h.epoch = i.handle.epoch → h.Before i.handle

namespace Sound

variable {s : Chronicle}

/-- Epochs tell the numbers of resets apart. -/
theorem resets_eq_of_epoch (hs : s.Sound) (hlt : ∀ site, s.resets site < UInt32.size)
    {i : Issue} (hi : i ∈ s.issues) {resets : Nat} (hle : resets ≤ s.resets i.site)
    (h : i.handle.epoch = .ofNat resets) : i.resets = resets := by
  rw [hs.epoch_of_issue hi] at h
  have hnat := congrArg UInt32.toNat h
  rwa [UInt32.toNat_ofNat_of_lt' (Nat.lt_of_le_of_lt (hs.resets_le hi) (hlt _)),
    UInt32.toNat_ofNat_of_lt' (Nat.lt_of_le_of_lt hle (hlt _))] at hnat

theorem peers_of_handle (hs : s.Sound) (hlt : ∀ site, s.resets site < UInt32.size) {i j : Issue}
    (hi : i ∈ s.issues) (hj : j ∈ s.issues) (harena : i.handle.arena = j.handle.arena)
    (hepoch : i.handle.epoch = j.handle.epoch) : i.Peers j := by
  rw [hs.arena_eq hi, hs.arena_eq hj] at harena
  rw [hs.epoch_of_issue hj] at hepoch
  exact ⟨harena, hs.resets_eq_of_epoch hlt hi (harena ▸ hs.resets_le hj) hepoch⟩

/-- Handles are reliable as long as no arena was reset as often as there are epochs. -/
theorem reliable (hs : s.Sound) (hlt : ∀ site, s.resets site < UInt32.size) : s.Reliable where
  nodup := by
    refine (List.pairwise_map).2 (List.Pairwise.imp_of_mem (fun {i j} hi hj hne heq => ?_)
      hs.distinct)
    have hpeers := hs.peers_of_handle hlt hi hj (congrArg ArenaRef.arena heq)
      (congrArg ArenaRef.epoch heq)
    rcases hne hpeers with hblock | hslot
    · exact hblock (congrArg ArenaRef.block heq)
    · exact hslot (congrArg ArenaRef.slot heq)
  foreign hi hne := resolve_of_foreign (fun heq => hne (heq.symm.trans (hs.arena_eq hi))) _
  stale {i} hi hne := by
    have hepoch := hs.epoch_eq (hs.lt_size hi)
    rw [← hs.epoch_of_issue hi, ← hepoch]
    refine resolve_of_stale (hs.arena_eq hi) fun heq => hne ?_
    exact hs.resets_eq_of_epoch hlt hi (Nat.le_refl _) (heq.trans hepoch)
  current {i} hi heq := by
    refine resolve_of_current (hs.arena_eq hi) ?_ (hs.closure_eq hi heq)
    rw [hs.epoch_of_issue hi, heq, hs.epoch_eq (hs.lt_size hi)]
  captured hi x hx := by
    obtain ⟨j, hj, hissue, -⟩ := hs.grounded.of_mem hi x hx
    exact ⟨j, hj, hissue⟩
  stored {site block slot c} hc := by
    obtain ⟨i, hi, rfl, hresets, rfl, rfl, hclosure⟩ := hs.exists_issue hc
    refine ⟨i, hi, hclosure, hresets, ?_⟩
    rw [hs.epoch_eq (hs.lt_size hi), ← hresets, ← hs.epoch_of_issue hi, ← hs.arena_eq hi]
  before hi x hx harena hepoch := by
    obtain ⟨j, hj, rfl, hbefore⟩ := hs.grounded.of_mem hi x hx
    exact hbefore (hs.peers_of_handle hlt hj hi harena hepoch)

end Sound

end Chronicle

end Arenas

open Arenas in
/-- After whatever happened to any number of arenas, an issued handle reads the closure that it was
issued for or is refused, as long as no arena was reset as often as there are epochs. -/
theorem handles_stay_reliable (filter : Log.Filter) (moves : List Move)
    (hlt : ∀ site, (Chronicle.after { machine := { store := {}, journal := { filter } } }
      moves).resets site < UInt32.size) :
    (Chronicle.after { machine := { store := {}, journal := { filter } } } moves).Reliable :=
  ((Chronicle.Sound.start filter).after moves).reliable hlt

open Arenas in
/-- Two arenas, of which the second one captures an integer of the first one and has no room for a
pair; then the first one is reset and captures its own stale handle. -/
theorem handles_stay_reliable_crossing :
    let s := Chronicle.after {} [.new { blockCapacity := 24 }, .new { blockCapacity := 16 },
      .alloc 0 (.intLiteral 5), .alloc 1 (.succPartial 8), .alloc 1 (.succInner 8 9), .reset 0,
      .alloc 0 (.succPartial 8)]
    (∀ site, s.resets site < UInt32.size) ∧ s.issues.length = 15 ∧
      (∃ j, resolve 0 ⟨0, 0, 1, 1⟩ s.machine =
        .error (.violation (.staleHandle 0 1)) ⟨s.machine.store, j⟩) ∧
      (∃ j, resolve 1 ⟨0, 0, 1, 1⟩ s.machine =
        .error (.violation (.foreignHandle .arena)) ⟨s.machine.store, j⟩) ∧
      resolve 1 ⟨1, 0, 2, 0⟩ s.machine = .ok (.succPartial ⟨0, 0, 1, 1⟩) s.machine ∧
      resolve 0 ⟨0, 1, 1, 1⟩ s.machine = .ok (.succPartial ⟨0, 0, 1, 1⟩) s.machine := by
  intro s
  have hlt (site : Site) : s.resets site < UInt32.size :=
    Nat.lt_of_le_of_lt (Chronicle.resets_after_le ..) (show 0 + 7 < UInt32.size by decide)
  have h : s.Reliable := handles_stay_reliable .off _ hlt
  have hresets : s.resets 0 = 1 ∧ s.resets 1 = 0 := by decide +kernel
  have hfive : (⟨0, 0, .intLiteral 5, ⟨0, 0, 1, 1⟩⟩ : Issue) ∈ s.issues := by decide +kernel
  have hcaptor : (⟨1, 0, .succPartial ⟨0, 0, 1, 1⟩, ⟨1, 0, 2, 0⟩⟩ : Issue) ∈ s.issues := by
    decide +kernel
  have hlast : (⟨0, 1, .succPartial ⟨0, 0, 1, 1⟩, ⟨0, 1, 1, 1⟩⟩ : Issue) ∈ s.issues := by
    decide +kernel
  refine ⟨hlt, by decide +kernel, ?_, h.foreign hfive (by decide), h.current hcaptor hresets.2.symm,
    h.current hlast hresets.1.symm⟩
  have hstale := h.stale hfive (by rw [hresets.1]; decide)
  rwa [hresets.1] at hstale

end ChurchStore
