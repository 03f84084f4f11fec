import ChurchStore.Proofs.SharedHeap.Ledgers
import ChurchStore.Proofs.Reclamation
import ChurchStore.Proofs.Session.Turns
import ChurchStore.Proofs.Simulation.Company

/-!
# Handles shared between evaluators

Any number of evaluators work on one heap and pass handles to each other. They answer as on a grove,
and what each of them has counted can be told from the grove alone: the closures that it made, and
those of them that are not alive any more. So it does not matter who gives the last handle for a
closure back, when, or in the course of what: its destruction is counted by the evaluator that made
it, and by no other one.
-/

namespace ChurchStore

open Session Simulation

namespace SharedHeap

variable {w : SharedHeap} {g : Grove 8} {held : Multiset (NodeRef × Tree)} {n : Nat} {site : Site}

theorem quiet_alloc (site : Site) (c : Closure NodeRef) : (alloc site c).Quiet :=
  (Act.Quiet.read _).bind fun _ => (Act.Quiet.update _).bind fun _ => .pure _

theorem quiet_resolve (h : NodeRef) : (resolve h).Quiet := by
  refine (Act.Quiet.read _).bind fun o => ?_
  cases o with
  | none => exact (Act.Quiet.read _).bind fun _ => .throw _
  | some c => exact (Act.Quiet.update _).bind fun _ => .pure _

theorem quiet_describe (h : NodeRef) : (describe h).Quiet := by
  refine (Act.Quiet.read _).bind fun o => ?_
  cases o with
  | none => exact (Act.Quiet.read _).bind fun _ => .throw _
  | some c => exact (Act.Quiet.read _).bind fun _ => .pure _

theorem quiet_openLedger (limits : Limits) : (openLedger limits).Quiet := by
  refine (Act.Quiet.read _).bind fun site => (Act.Quiet.update _).bind fun _ => ?_
  refine Act.Quiet.bind ?_ fun _ => (Act.Quiet.emit _).bind fun _ => .pure _
  refine (quiet_alloc site _).bind fun _ => (quiet_alloc site _).bind fun _ => ?_
  exact (quiet_alloc site _).bind fun _ => (quiet_alloc site _).bind fun _ => .pure _

/-- Nothing in a heap depends on the log. -/
theorem quiet (site : Site) : Host.Quiet SharedHeap site :=
  ⟨quiet_alloc site, quiet_resolve, quiet_describe, quiet_openLedger⟩

/-- A further evaluator can be opened at any time. It has the next number, and nothing is freed. -/
theorem exists_open {m : Machine SharedHeap} {u : Machine (Grove 8)}
    (hp : m.store.Pictures u.store held) (ha : Accounts n m.store u.store) (limits : Limits) :
    ∃ e d m' u', (Host.openWith limits : Act SharedHeap (Evaluator NodeRef)) m = .ok e m' ∧
      (Host.openWith limits : Act (Grove 8) (Evaluator Tree)) u = .ok d u' ∧
      e.site = n ∧ d.site = 0 ∧ e.nesting = d.nesting ∧
      m'.store.Pictures u'.store (builtinPairs e d + held) ∧ Accounts (n + 1) m'.store u'.store ∧
      m.store.Follows n m'.store ∧ ∀ j, (m'.store.ledger j).free = (m.store.ledger j).free := by
  let w : SharedHeap := ⟨m.store.nodes, m.store.homes, m.store.ledgers.push {}⟩
  let S := (sharing n).keeping ((keeps_accounts (Nat.lt_succ_self n)).and (keeps_follows m.store n))
  have hstart : S.Holds held ⟨w, m.journal⟩ u :=
    ⟨hp, ha.push, ⟨0, by simp [w]⟩, Nat.le_refl _, fun _ h => h⟩
  obtain ⟨a, b, m', u', hx, hy, hrel, haccounts, hfollows⟩ | ⟨f, m', u', -, hy, -⟩ :=
    Coupled.cases (S.coupled_build held) hstart
  · refine ⟨⟨n, a, limits.nesting⟩, ⟨0, b, limits.nesting⟩,
      ⟨m'.store, m'.journal.record .singletonsAllocated⟩, u', ?_, ?_, rfl, rfl, rfl, hrel,
      haccounts, hfollows, ?_⟩
    · change openLedger limits m = _
      change Singletons.build (alloc n) ⟨w, m.journal⟩ = _ at hx
      simp only [openLedger, Bind.bind, EStateM.bind, Act.read, Act.update, ha.ledgers_size]
      simp only [w] at hx
      rw [hx]
      rfl
    · change Grove.openGrove limits u = _
      change Singletons.build Grove.alloc u = _ at hy
      simp only [Grove.openGrove, Bind.bind, EStateM.bind, hy]
      rfl
    · intro j
      have hstore : m'.store =
          (((w.insert n .zero).insert n .zeroInner).insert n .succ).insert n .inc := by
        cases hx
        rfl
      simp only [hstore, free_insert]
      exact congrArg Ledger.free (ledger_push m.store j)
  · have hbuild := Grove.build_of_fits (hp.fits .zero)
    change Singletons.build Grove.alloc u = _ at hy
    rw [hbuild] at hy
    cases hy

variable {partners : List (Partners NodeRef Tree)} {bindings : Std.TreeMap Name (NodeRef × Tree)}
  {s : Session SharedHeap NodeRef} {t : Session (Grove 8) Tree}

/-- A closure is alive if and only if it is in the node with its number. -/
theorem alive_iff (h : Company Pictures partners bindings s t) (i : Nat) :
    t.Alive i ↔ (s.machine.store.nodes.closure? i).isSome := by
  obtain ⟨l, hs, ht, hl⟩ := h.exists_handles
  obtain ⟨-, hresets, ledger, known, tree, hm, hnumber⟩ := h.holds
  have hmem (p : NodeRef × Tree) (hp : p ∈ bindings.values) : p ∈ l := by
    rw [← Multiset.mem_coe, ← hl]
    exact Multiset.mem_add.2 (.inl hp)
  rw [hl] at hm
  obtain ⟨hd, hsound, -⟩ := Representation.depicts_of_handles
    (s := ⟨⟨s.machine.store.solo ledger, s.machine.journal⟩, s.seats, s.bindings⟩) hs ht
    h.bindings_left h.bindings_right hmem hresets hm
  have hlook (x : NodeRef) : ((view 0).look (s.machine.store.solo ledger) x).isSome =
      (s.machine.store.nodes.closure? x.node).isSome := isSome_look
  rw [hd.alive_iff ((counted 0).reachable hd hsound)]
  constructor
  · intro ⟨x, hx, htree⟩
    obtain ⟨c, hc⟩ := Option.isSome_iff_exists.1 hx
    rw [hnumber x (hm.of_look hc).1] at htree
    rw [← htree, ← hlook]
    exact hx
  · intro hi
    rw [← hlook ⟨i⟩] at hi
    obtain ⟨c, hc⟩ := Option.isSome_iff_exists.1 hi
    exact ⟨⟨i⟩, hi, hnumber _ (hm.of_look hc).1⟩

/-- Where no handle is held, everything has been freed. -/
theorem Accounts.balance (ha : Accounts n w g) (hp : w.Pictures g 0) (site : Site) (k : Kind) :
    (w.ledger site).free.get k = (w.ledger site).alloc.get k := by
  have hcompany : Company Pictures [] {} (⟨⟨w, {}⟩, #[], {}⟩ : Session SharedHeap NodeRef)
      (⟨⟨g, {}⟩, #[], {}⟩ : Session (Grove 8) Tree) :=
    ⟨rfl, rfl, fun _ => by simp, fun _ => by simp, hp⟩
  have hnone (i : Nat) : w.nodes.closure? i = none := by
    rw [← Option.not_isSome_iff_eq_none]
    intro hi
    obtain ⟨r, hr, -⟩ := (alive_iff hcompany i).2 hi
    cases hr
  rw [ha.free_eq, ha.alloc_eq]
  congr 1
  ext i
  exact and_iff_left (hnone i)

end SharedHeap

namespace Session

/-- Two sessions, the first one on a heap and the other one on a grove, after the same turns. The
evaluators of the heap are numbered as they were opened, and their ledgers are right. -/
structure Attuned (partners : List (Partners NodeRef Tree))
    (bindings : Std.TreeMap Name (NodeRef × Tree)) (s : Session SharedHeap NodeRef)
    (t : Session (Grove 8) Tree) : Prop where
  company : Company (fun w g held => w.Pictures g held ∧ w.Accounts partners.length g) partners
    bindings s t
  site_eq {i : Nat} {p : Partners NodeRef Tree} : partners[i]? = some p → p.left.site = i
  right {p : Partners NodeRef Tree} : p ∈ partners →
    p.right.site = 0 ∧ p.left.nesting = p.right.nesting
  bindings_of_nil : partners = [] → ∀ name : Name, bindings[name]? = none

variable {partners : List (Partners NodeRef Tree)} {bindings : Std.TreeMap Name (NodeRef × Tree)}
  {s : Session SharedHeap NodeRef} {t : Session (Grove 8) Tree} {number : Nat} {command : Command}

namespace Attuned

theorem pictures (h : Attuned partners bindings s t) :
    Company SharedHeap.Pictures partners bindings s t :=
  { h.company with holds := h.company.holds.1 }

theorem size_eq (h : Attuned partners bindings s t) :
    s.machine.store.homes.size = t.machine.store.made.length :=
  h.company.holds.2.homes_size.trans h.company.holds.1.1

/-- The partners that a command is for are those with its number. -/
theorem site_of_sits (h : Attuned partners bindings s t) {p : Partners NodeRef Tree}
    (hp : Partners.Sits partners number p) (hlt : number < partners.length) :
    p.left.site = number := by
  refine h.site_eq ?_
  rw [← hp.1, List.getElem?_set_self hlt]

theorem exists_sits (h : Attuned partners bindings s t) (hne : partners ≠ []) (number : Nat) :
    ∃ p, Partners.Sits partners number p ∧ p.left.site < partners.length ∧ p.right.site = 0 ∧
      p.left.nesting = p.right.nesting := by
  obtain ⟨p₀, hp₀⟩ := List.exists_mem_of_ne_nil partners hne
  obtain ⟨p, hp, isOpen, hsits⟩ := Partners.exists_sits hp₀ number
  obtain ⟨i, hi⟩ := List.getElem?_of_mem hp
  have hright := h.right hp
  refine ⟨_, hsits, ?_, hright⟩
  rw [h.site_eq hi]
  exact (List.getElem?_eq_some_iff.1 hi).1

/-- A session without evaluators is left as it is. -/
theorem step_of_nil (h : Attuned [] bindings s t) (number : Nat) (hc : command.isOperation = true) :
    (s.step number (some command)).1.answer = .error .unknown ∧
      (s.step number (some command)).2 = { s with machine.journal.events := #[] } ∧
      (t.step number (some command)).1.answer = .error .unknown ∧
      (t.step number (some command)).2 = { t with machine.journal.events := #[] } := by
  have hs := step_of_unopened h.company.seats_left
    (fun name => by rw [h.company.bindings_left, h.bindings_of_nil rfl]; rfl) number (.inl hc)
  have ht := step_of_unopened h.company.seats_right
    (fun name => by rw [h.company.bindings_right, h.bindings_of_nil rfl]; rfl) number (.inl hc)
  exact ⟨hs.1, hs.2, ht⟩

/-- An operation for any evaluator. -/
theorem step (h : Attuned partners bindings s t) (number : Nat)
    (hc : command.isOperation = true) :
    (∃ partners' bindings', Attuned partners' bindings' (s.step number (some command)).2
        (t.step number (some command)).2) ∧
      (s.step number (some command)).1.answer.map Answer.unplaced =
        (t.step number (some command)).1.answer.map Answer.unplaced ∧
      s.machine.store.Follows number (s.step number (some command)).2.machine.store := by
  by_cases hne : partners = []
  · subst hne
    obtain ⟨hanswer, hs, hanswer', ht⟩ := h.step_of_nil number hc
    rw [hanswer, hs, hanswer', ht]
    exact ⟨⟨[], bindings, { h with company := { h.company with } }⟩, rfl, .rfl⟩
  obtain ⟨p, hp, hlt, hright, hnesting⟩ := h.exists_sits hne number
  let S := (SharedHeap.sharing p.left.site).keeping ((SharedHeap.keeps_accounts hlt).and
    (SharedHeap.keeps_follows s.machine.store p.left.site))
  have hcompany : Company S.Rel partners bindings s t :=
    { h.company with holds := ⟨h.company.holds.1, h.company.holds.2, .rfl⟩ }
  obtain ⟨⟨isOpen, bindings', hstep⟩, hanswer⟩ := hcompany.step hp ⟨rfl, hright, hnesting⟩ hc
  obtain ⟨hpictures, haccounts, hfollows⟩ := hstep.holds
  have hafter : Attuned (partners.set number { p with isOpen }) bindings'
      (s.step number (some command)).2 (t.step number (some command)).2 := by
    constructor
    case company =>
      rw [List.length_set]
      exact { hstep with holds := ⟨hpictures, haccounts⟩ }
    case site_eq =>
      intro i q hq
      rw [List.getElem?_set] at hq
      split at hq
      · rename_i hi
        split at hq
        · cases hq
          have hsite := h.site_of_sits hp ‹_›
          rw [← hi]
          exact hsite
        · cases hq
      · exact h.site_eq hq
    case right =>
      intro q hq
      rcases List.mem_or_eq_of_mem_set hq with hq | rfl
      · exact h.right hq
      · exact ⟨hright, hnesting⟩
    case bindings_of_nil => exact fun hnil => absurd ((List.set_eq_nil_iff _ _).1 hnil) hne
  refine ⟨⟨_, _, hafter⟩, hanswer, ?_⟩
  by_cases hn : number < partners.length
  · rwa [h.site_of_sits hp hn] at hfollows
  · refine hfollows.of_size_eq ?_
    have habsent : t.seats.size ≤ number := by simpa [h.company.seats_right] using hn
    rw [hafter.size_eq, store_step_of_absent habsent hc, h.size_eq]

/-- Whenever an operation is carried out, the ledgers are in order at every moment of it. -/
theorem moments (h : Attuned partners bindings s t) (number : Nat)
    (hc : command.isOperation = true) :
    let r := (s.recorded.step number (some command)).2
    r.machine.store.store = (s.step number (some command)).2.machine.store ∧
      ∀ m ∈ r.machine.store.past, ∀ site k,
        (m.store.ledger site).free.get k ≤ (m.store.ledger site).alloc.get k := by
  intro r
  by_cases hne : partners = []
  · subst hne
    have hr := step_of_unopened (s := s.recorded) h.company.seats_left
      (fun name => (h.company.bindings_left name).trans (by rw [h.bindings_of_nil rfl]; rfl)) number
      (.inl hc)
    simp only [r]
    rw [hr.2, (h.step_of_nil number hc).2.1]
    exact ⟨rfl, fun m hm => by cases hm⟩
  obtain ⟨p, hp, hlt, hright, hnesting⟩ := h.exists_sits hne number
  let S := (SharedHeap.sharing p.left.site).keeping (SharedHeap.keeps_accounts hlt)
  have hcompany : Company S.Rel partners bindings s t := h.company
  obtain ⟨hstore, hupheld⟩ :=
    hcompany.upheld (SharedHeap.quiet p.left.site) hp ⟨rfl, hright, hnesting⟩ hc
  refine ⟨hstore, fun m hm => ?_⟩
  obtain ⟨g, held, hrel, -⟩ := hupheld m hm
  exact hrel.2.free_le_alloc

/-- A further evaluator is opened. -/
theorem step_new (h : Attuned partners bindings s t) (number : Nat) (limits : Limits) :
    (∃ partners' bindings', Attuned partners' bindings' (s.step number (some (.new limits))).2
        (t.step number (some (.new limits))).2) ∧
      (s.step number (some (.new limits))).1.answer.map Answer.unplaced =
        (t.step number (some (.new limits))).1.answer.map Answer.unplaced ∧
      s.machine.store.Follows t.seats.size (s.step number (some (.new limits))).2.machine.store ∧
      ∀ site, ((s.step number (some (.new limits))).2.machine.store.ledger site).free =
        (s.machine.store.ledger site).free := by
  obtain ⟨e, d, m, u, hx, hy, hsite, hsite', hnesting, hpictures, haccounts, hfollows, hfree⟩ :=
    SharedHeap.exists_open h.company.holds.1 h.company.holds.2 limits
  have hs := step_new_of_ok hx number
  have ht := step_new_of_ok hy number
  have hsize : s.seats.size = partners.length := by simp [h.company.seats_left]
  have hsize' : t.seats.size = partners.length := by simp [h.company.seats_right]
  rw [hs.1, hs.2, ht.1, ht.2, hsize, hsize']
  refine ⟨⟨partners ++ [⟨e, d, true⟩], bindings, ?_⟩, rfl, hfollows, hfree⟩
  constructor
  case company =>
    refine ⟨?_, ?_, h.company.bindings_left, h.company.bindings_right, ?_, ?_⟩
    · simp [h.company.seats_left, Partners.seatLeft]
    · simp [h.company.seats_right, Partners.seatRight]
    · rw [List.flatMap_append, ← Multiset.coe_add, List.flatMap_singleton, ← Multiset.add_assoc,
        Multiset.add_comm]
      exact hpictures
    · rw [List.length_append, List.length_singleton]
      exact haccounts
  case site_eq =>
    intro i p hp
    rw [List.getElem?_append] at hp
    split at hp
    · exact h.site_eq hp
    · obtain ⟨hlt, rfl⟩ := List.getElem?_eq_some_iff.1 hp
      rw [List.length_singleton] at hlt
      rw [List.getElem_singleton, hsite]
      exact Nat.le_antisymm (Nat.le_of_not_lt ‹_›) (by omega)
  case right =>
    intro p hp
    rcases List.mem_append.1 hp with hp | hp
    · exact h.right hp
    · rw [List.mem_singleton.1 hp]
      exact ⟨hsite', hnesting⟩
  case bindings_of_nil => exact fun hnil => by simp at hnil

theorem turn (h : Attuned partners bindings s t) {turn : Nat × Command}
    (hturn : turn.2.isTurn = true) :
    (∃ partners' bindings', Attuned partners' bindings' (s.step turn.1 (some turn.2)).2
        (t.step turn.1 (some turn.2)).2) ∧
      (s.step turn.1 (some turn.2)).1.answer.map Answer.unplaced =
        (t.step turn.1 (some turn.2)).1.answer.map Answer.unplaced ∧
      s.machine.store.Follows (t.worker turn) (s.step turn.1 (some turn.2)).2.machine.store := by
  obtain ⟨number, command⟩ := turn
  cases command with
  | new limits =>
    obtain ⟨hafter, hanswer, hfollows, -⟩ := h.step_new number limits
    exact ⟨hafter, hanswer, hfollows⟩
  | _ => exact h.step number hturn

/-- Any number of turns. The closures that are made in them are at home with their makers, and what
has been destroyed before stays so. -/
theorem afterTurns (h : Attuned partners bindings s t) {turns : List (Nat × Command)}
    (hturns : ∀ turn ∈ turns, turn.2.isTurn = true) :
    (∃ partners' bindings', Attuned partners' bindings' (s.afterTurns turns)
        (t.afterTurns turns)) ∧
      (s.turnAnswers turns).map (·.map Answer.unplaced) =
        (t.turnAnswers turns).map (·.map Answer.unplaced) ∧
      (s.afterTurns turns).machine.store.homes.toList =
        s.machine.store.homes.toList ++ t.makers turns ∧
      ∀ i < s.machine.store.nodes.size, s.machine.store.nodes.closure? i = none →
        (s.afterTurns turns).machine.store.nodes.closure? i = none := by
  induction turns generalizing partners bindings s t with
  | nil => exact ⟨⟨partners, bindings, h⟩, rfl, (List.append_nil _).symm, fun i _ hnone => hnone⟩
  | cons turn turns ih =>
    obtain ⟨⟨partners', bindings', hstep⟩, hanswer, hfollows⟩ :=
      h.turn (hturns turn (List.mem_cons_self ..))
    obtain ⟨hafter, hanswers, hhomes, hnone⟩ :=
      ih hstep fun x hx => hturns x (List.mem_cons_of_mem turn hx)
    refine ⟨hafter, ?_, ?_, fun i hi hi' => ?_⟩
    · simp only [turnAnswers, List.map_cons]
      rw [hanswer, hanswers]
    · obtain ⟨count, hcount⟩ := hfollows.homes_eq
      have hlength := congrArg List.length hcount
      rw [List.length_append, List.length_replicate, Array.length_toList, Array.length_toList,
        h.size_eq, hstep.size_eq] at hlength
      have hmade : (t.step turn.1 (some turn.2)).2.machine.store.made.length -
          t.machine.store.made.length = count := by omega
      rw [makers, hmade, ← List.append_assoc, ← hcount]
      exact hhomes
    · exact hnone i (Nat.lt_of_lt_of_le hi hfollows.size_le) (hfollows.closure?_eq_none hi hi')

theorem start (filter : Log.Filter) :
    Attuned [] {} (Session.start filter) (Session.start filter) where
  company := ⟨rfl, rfl, fun _ => by simp [Session.start], fun _ => by simp [Session.start],
    SharedHeap.Pictures.initial, SharedHeap.Accounts.initial⟩
  site_eq h := nomatch h
  right h := nomatch h
  bindings_of_nil _ _ := by simp

/-- When the last handles are given back at the end, everything has been freed. -/
theorem finish (h : Attuned partners bindings s t) : s.finish.length = s.seats.size ∧
    ∀ o ∈ s.finish, ∃ l : Ledger, o = some l ∧ ∀ k, l.free.get k = l.alloc.get k := by
  rw [finish_eq, List.length_map, Array.length_toList]
  refine ⟨rfl, fun o ho => ?_⟩
  obtain ⟨seat, hseat, rfl⟩ := List.mem_map.1 ho
  refine ⟨_, rfl, fun k => ?_⟩
  have hne : partners ≠ [] := by
    rintro rfl
    rw [h.company.seats_left] at hseat
    cases hseat
  obtain ⟨p, -, hlt, -⟩ := h.exists_sits hne 0
  obtain ⟨l, hl, -, hstanding⟩ := h.company.exists_handles
  have hrel := h.company.holds
  rw [hstanding, ← Multiset.add_zero (l : Multiset (NodeRef × Tree))] at hrel
  obtain ⟨hpictures, haccounts⟩ := rel_releaseAll (S := (SharedHeap.sharing p.left.site).keeping
    (SharedHeap.keeps_accounts hlt)) l hrel
  rw [← hl] at hpictures haccounts
  exact haccounts.balance hpictures seat.evaluator.site k

end Attuned

/-- Evaluators of a heap share handles safely: what a session `s` on a heap has come to, by what a
session `t` on a grove has come to in the same turns, and who made the closures of the grove. -/
structure Shares (s : Session SharedHeap NodeRef) (t : Session (Grove 8) Tree)
    (makers : List Nat) : Prop where
  /-- Each evaluator has the ledger with its number. -/
  site_eq {i : Nat} {seat : Seat NodeRef} : s.seats[i]? = some seat → seat.evaluator.site = i
  length_makers : makers.length = t.machine.store.made.length
  alloc_eq (site : Site) (k : Kind) : (s.machine.store.ledger site).alloc.get k =
    {i | makers[i]? = some site ∧ t.machine.store.kindOf i = some k}.ncard
  /-- What is not alive any more has been counted by the evaluator that made it, once each. -/
  free_eq (site : Site) (k : Kind) : (s.machine.store.ledger site).free.get k =
    {i | makers[i]? = some site ∧ t.machine.store.kindOf i = some k ∧ ¬ t.Alive i}.ncard
  /-- What is not alive any more stays so. -/
  not_alive_afterTurns {i : Nat} : i < t.machine.store.made.length → ¬ t.Alive i →
    ∀ turns : List (Nat × Command), (∀ turn ∈ turns, turn.2.isTurn = true) →
      ¬ (t.afterTurns turns).Alive i
  free_le_alloc (site : Site) (k : Kind) :
    (s.machine.store.ledger site).free.get k ≤ (s.machine.store.ledger site).alloc.get k
  /-- At every moment of whatever operation comes next no ledger has more frees than allocations. -/
  moments (number : Nat) {command : Command} : command.isOperation = true →
    let r := (s.recorded.step number (some command)).2
    r.machine.store.store = (s.step number (some command)).2.machine.store ∧
      ∀ m ∈ r.machine.store.past, ∀ site k,
        (m.store.ledger site).free.get k ≤ (m.store.ledger site).alloc.get k
  /-- Nothing is freed while a further evaluator is opened. -/
  free_step_new (number : Nat) (limits : Limits) (site : Site) :
    ((s.step number (some (.new limits))).2.machine.store.ledger site).free =
      (s.machine.store.ledger site).free
  /-- When all evaluators and handles are gone, everything has been freed. -/
  balance_of_no_handles : s.handles = [] → ∀ site k,
    (s.machine.store.ledger site).free.get k = (s.machine.store.ledger site).alloc.get k
  /-- Giving all handles back frees everything. -/
  finish : s.finish.length = s.seats.size ∧
    ∀ o ∈ s.finish, ∃ l : Ledger, o = some l ∧ ∀ k, l.free.get k = l.alloc.get k

theorem Attuned.shares (h : Attuned partners bindings s t) :
    Shares s t s.machine.store.homes.toList := by
  obtain ⟨hpictures, haccounts⟩ := h.company.holds
  have hdead (i : Nat) : ¬ t.Alive i ↔ s.machine.store.nodes.closure? i = none := by
    rw [SharedHeap.alive_iff h.pictures, Option.not_isSome_iff_eq_none]
  constructor
  case site_eq =>
    intro i seat hseat
    rw [h.company.seats_left, List.getElem?_toArray, List.getElem?_map] at hseat
    obtain ⟨p, hp, rfl⟩ := Option.map_eq_some_iff.1 hseat
    exact h.site_eq hp
  case length_makers => rw [Array.length_toList, h.size_eq]
  case alloc_eq =>
    intro site k
    simp only [haccounts.alloc_eq, SharedHeap.allocatedAt, Array.getElem?_toList]
  case free_eq =>
    intro site k
    simp only [haccounts.free_eq, SharedHeap.destroyedAt, SharedHeap.allocatedAt, hdead,
      Array.getElem?_toList, Set.mem_ofPred_eq, and_assoc]
  case not_alive_afterTurns =>
    intro i hi halive turns hturns
    obtain ⟨⟨partners', bindings', hafter⟩, -, -, hnone⟩ := h.afterTurns hturns
    rw [SharedHeap.alive_iff hafter.pictures, Option.not_isSome_iff_eq_none]
    exact hnone i (hpictures.1.symm ▸ hi) ((hdead i).1 halive)
  case free_le_alloc => exact haccounts.free_le_alloc
  case moments => exact fun number _ hc => h.moments number hc
  case free_step_new => exact fun number limits => (h.step_new number limits).2.2.2
  case balance_of_no_handles =>
    intro hnone
    obtain ⟨l, hl, -, hstanding⟩ := h.company.exists_handles
    rw [hnone, eq_comm, List.map_eq_nil_iff] at hl
    rw [hstanding, hl] at hpictures
    exact haccounts.balance hpictures
  case finish => exact h.finish

end Session

/-- Any number of evaluators work on one heap, in any order, and pass handles to each other; they
and the handles are dropped in any order. What they answer is what they answer on a grove, where
nothing is shared; and what the ledger of each of them says can be told from the grove. -/
theorem evaluators_share_handles (filter : Log.Filter) (turns : List (Nat × Command))
    (hturns : ∀ turn ∈ turns, turn.2.isTurn = true) :
    let s : Session SharedHeap NodeRef := start filter
    let t : Session (Grove 8) Tree := start filter
    (s.turnAnswers turns).map (·.map Answer.unplaced) =
        (t.turnAnswers turns).map (·.map Answer.unplaced) ∧
      Shares (s.afterTurns turns) (t.afterTurns turns) (t.makers turns) := by
  intro s t
  obtain ⟨⟨partners, bindings, hafter⟩, hanswers, hhomes, -⟩ :=
    (Attuned.start filter).afterTurns hturns
  have hshares := hafter.shares
  rw [hhomes] at hshares
  exact ⟨hanswers, hshares⟩

/-- A run in which the first evaluator is gone when the second one gives back the last handle for a
closure of the second, which has captured a closure of the first. -/
theorem evaluators_share_handles_crossing :
    let turns : List (Nat × Command) := [(0, .new {}), (0, .new {}), (0, .int 5 "i"),
      (1, .alloc (.succPartial "i") "p"), (0, .drop "i"), (0, .close), (1, .toInt "p"),
      (1, .drop "p"), (1, .close)]
    let s : Session SharedHeap NodeRef := start .off
    let t : Session (Grove 8) Tree := start .off
    (s.turnAnswers turns).map (·.map Answer.unplaced) =
        (t.turnAnswers turns).map (·.map Answer.unplaced) ∧
      Shares (s.afterTurns turns) (t.afterTurns turns) (t.makers turns) :=
  evaluators_share_handles .off [(0, .new {}), (0, .new {}), (0, .int 5 "i"),
    (1, .alloc (.succPartial "i") "p"), (0, .drop "i"), (0, .close), (1, .toInt "p"),
    (1, .drop "p"), (1, .close)] (by decide)

example : ((((start .off : Session SharedHeap NodeRef).afterTurns [(0, .new {}), (0, .new {}),
    (0, .int 5 "i"), (1, .alloc (.succPartial "i") "p"), (0, .drop "i"), (0, .close),
    (1, .drop "p")]).machine.store.ledgers.map fun l => l.free.get .intLiteral)) = #[1, 0] := by
  decide +kernel

end ChurchStore
