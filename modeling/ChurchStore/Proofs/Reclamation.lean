import ChurchStore.Proofs.DeadClosures

/-!
# Exact reclamation

A pool and the shared heap hold exactly the closures that can be reached from a held handle, after
every run of operations. Each allocation is alive until it is freed, once and for all, and the
counters tell exactly how many closures of each kind there are; when no handle is left, everything
that was allocated has been freed.
-/

namespace ChurchStore

open Session

variable {W H : Type} [Host W H] {b : Nat}

/-- What exact reclamation means for a session `s`, which answers as the session `t` on a grove. -/
structure Session.Reclaims (v : View W H) (ledger : W → Ledger) (s : Session W H)
    (t : Session (Grove b) Tree) : Prop where
  /-- A closure is there if and only if a held handle reaches it. -/
  isSome_iff (h : H) : (v.look s.machine.store h).isSome ↔
    Reachable (v.look s.machine.store) s.handles h
  /-- An allocation is alive if and only if its closure is there. -/
  alive_iff : ∃ tree, Depicts v s t tree ∧ ∀ number,
    t.Alive number ↔ ∃ h, (v.look s.machine.store h).isSome ∧ (tree h).number = number
  /-- An allocation that is not alive any more stays so. -/
  not_alive_after (number : Nat) : number < t.machine.store.made.length → ¬ t.Alive number →
    ∀ commands : List Command, (∀ command ∈ commands, command.isOperation = true) →
      ¬ (t.after commands).Alive number
  alloc_eq (k : Kind) : (ledger s.machine.store).alloc.get k =
    {number | t.machine.store.kindOf number = some k}.ncard
  /-- As many frees were counted as there are allocations that are not alive any more. -/
  free_eq (k : Kind) : (ledger s.machine.store).free.get k =
    {number | t.machine.store.kindOf number = some k ∧ ¬ t.Alive number}.ncard
  finite_live (k : Kind) : (v.live s.machine.store k).Finite
  balance (k : Kind) : (ledger s.machine.store).alloc.get k =
    (ledger s.machine.store).free.get k + (v.live s.machine.store k).ncard
  /-- When no handle is left, everything has been freed. -/
  balance_of_no_handles : s.handles = [] →
    (∀ k, (ledger s.machine.store).alloc.get k = (ledger s.machine.store).free.get k) ∧
      (ledger s.machine.store).live = 0
  /-- Giving all handles back frees everything. -/
  finish : ∃ l, s.finish = [some l] ∧ (∀ k, l.alloc.get k = l.free.get k) ∧ l.live = 0

namespace Representation.Counted

variable {R : Representation W} {cells : W → Cells} {ledger : W → Ledger} {handle : Nat → H}
  {position : H → Nat} {hb : Backend.handleBytes W = b} {e : Evaluator H} {d : Evaluator Tree}
  {c : Simulation.Pairing H Tree} {s : Session W H} {t : Session (Grove b) Tree}

theorem reachable (hR : R.Counted cells ledger handle position) {tree : H → Tree}
    (hd : Depicts R.toView s t tree) (hs : R.Sound s.machine.store s.handles) (h : H)
    (hh : (R.look s.machine.store h).isSome) : Reachable (R.look s.machine.store) s.handles h :=
  hR.reachable_of_labels hd.labels hs h hh

theorem balance (hR : R.Counted cells ledger handle position) {w : W} {held : Multiset H}
    (hw : R.Sound w held) (k : Kind) :
    (ledger w).alloc.get k = (ledger w).free.get k + (R.live w k).ncard := by
  rw [hR.ncard_live]
  exact hR.alloc_eq k hw

/-- Without handles there are no closures. -/
theorem balance_of_no_handles (hR : R.Counted cells ledger handle position)
    (h : (R.simulation hb []).Paired e d c 0 s t) (hnone : s.handles = []) :
    (∀ k, (ledger s.machine.store).alloc.get k = (ledger s.machine.store).free.get k) ∧
      (ledger s.machine.store).live = 0 := by
  obtain ⟨tree, hd, hs, -⟩ := exists_depicts h
  have hall (k : Kind) : (ledger s.machine.store).alloc.get k =
      (ledger s.machine.store).free.get k := by
    have hempty : R.live s.machine.store k = ∅ := by
      rw [Set.eq_empty_iff_forall_notMem]
      intro x ⟨y, hy, _⟩
      have hr := hR.reachable hd hs x (by rw [hy]; rfl)
      rw [hnone] at hr
      clear hy
      induction hr with
      | root hmem => cases hmem
      | capture _ _ _ ih => exact ih
    rw [hR.balance hs, hempty, Set.ncard_empty, Nat.add_zero]
  exact ⟨hall, Ledger.live_eq_zero hall⟩

/-- The session in which all handles have been given back. -/
theorem finish (hR : R.Counted cells ledger handle position)
    (h : (R.simulation hb []).Paired e d c 0 s t) :
    ∃ l, s.finish = [some l] ∧ (∀ k, l.alloc.get k = l.free.get k) ∧ l.live = 0 := by
  obtain ⟨l, hl, -, hstanding⟩ := h.exists_handles
  have hrel := h.holds
  rw [Multiset.zero_add, hstanding, ← Multiset.add_zero (l : Multiset (H × Tree))] at hrel
  have hrel' := Simulation.rel_releaseAll l hrel
  rw [← hl] at hrel'
  have hpaired : (R.simulation hb []).Paired e d ⟨false, {}⟩ 0
      ⟨{ store := Backend.releaseAll s.handles s.machine.store }, #[⟨e, false⟩], {}⟩
      ⟨{ store := Backend.releaseAll (l.map Prod.snd) t.machine.store }, #[⟨d, false⟩], {}⟩ :=
    ⟨rfl, rfl, fun name => by simp, fun name => by simp, h.serves, hrel'⟩
  have hvalues : ({} : Std.TreeMap Name H).values = [] := rfl
  obtain ⟨hall, hlive⟩ := hR.balance_of_no_handles hpaired (by
    simp [handles, Seat.handles, hvalues])
  refine ⟨_, ?_, hall, hlive⟩
  have hhandles : s.handles = ((s.seats.toList.filter (·.isOpen)).flatMap fun seat =>
      Builtin.all.map seat.evaluator.singletons.get) ++ s.bindings.values := by
    rw [handles, h.seats_left]
    cases hopen : c.isOpen <;> simp [Seat.handles]
  have hsite : e.site = R.site := h.serves.left
  rw [Session.finish, ← hhandles, h.seats_left]
  simp only [List.map_cons, List.map_nil, hsite, hR.ledger_eq]

/-- Reclamation is exact in a session that is related to one on a grove. -/
theorem reclaims (hR : R.Counted cells ledger handle position)
    (h : (R.simulation hb []).Paired e d c 0 s t) : Reclaims R.toView ledger s t := by
  obtain ⟨tree, hd, hs, hcount⟩ := exists_depicts h
  have hreach := hR.reachable hd hs
  have halloc (k : Kind) : (ledger s.machine.store).alloc.get k =
      {number | t.machine.store.kindOf number = some k}.ncard := by
    rw [← hR.allocated_eq, hcount, (Grove.ncard_kindOf _ k).2]
  have hbalance (k : Kind) := hR.balance hs k
  constructor
  case isSome_iff => exact fun x => ⟨hreach x, hd.isSome_of_reachable⟩
  case alive_iff => exact ⟨tree, hd, hd.alive_iff hreach⟩
  case not_alive_after =>
    intro number hlt hdead commands hc
    exact not_alive_after h.seats_right h.serves.right hlt hdead hc
  case alloc_eq => exact halloc
  case free_eq =>
    intro k
    have hfin := (Grove.ncard_kindOf t.machine.store k).1
    have hsplit : {number | t.machine.store.kindOf number = some k} =
        {number | t.machine.store.kindOf number = some k ∧ t.Alive number} ∪
          {number | t.machine.store.kindOf number = some k ∧ ¬ t.Alive number} := by
      ext number
      by_cases halive : t.Alive number <;> simp [halive]
    have hdisjoint : Disjoint
        {number | t.machine.store.kindOf number = some k ∧ t.Alive number}
        {number | t.machine.store.kindOf number = some k ∧ ¬ t.Alive number} :=
      Set.disjoint_left.2 fun number hx hy => hy.2 hx.2
    have hunion := Set.ncard_union_eq hdisjoint (hfin.subset fun _ hx => hx.1)
      (hfin.subset fun _ hx => hx.1)
    have hlive := hd.ncard_live hreach k
    have halloc := halloc k
    have hbalance := hbalance k
    rw [hsplit, hunion] at halloc
    omega
  case finite_live =>
    refine fun k => (hR.finite s.machine.store).subset fun x hx => ?_
    obtain ⟨y, hy, -⟩ := hx
    change (R.look _ x).isSome = true
    rw [hy]
    rfl
  case balance => exact hbalance
  case balance_of_no_handles => exact hR.balance_of_no_handles h
  case finish => exact hR.finish h

/-- Stores that count owners reclaim exactly along every run. -/
theorem reclaims_after (hR : R.Counted cells ledger handle position) {limits : Limits} {w : W}
    {g : Grove b} (hopens : (R.simulation hb []).Opens limits w g) (hmade : g.made = [])
    (hfits : g.capacity.filter (· < Closure.headerWord) = none) (filter : Log.Filter)
    {commands : List Command} (hc : ∀ command ∈ commands, command.isOperation = true) :
    Reclaims R.toView ledger ((openedOn w filter limits).after commands)
      ((openedOn g filter limits).after commands) := by
  obtain ⟨e, c, hafter⟩ :=
    hopens.paired_after filter (Grove.openGrove_of_fits limits hfits hmade) hc
  exact hR.reclaims hafter

end Representation.Counted

/-- After every run of operations, refused ones and such that stop with a fault included, and
wherever in the run the evaluator is ended, the shared heap and a pool hold exactly what the held
handles reach, and their counters tell how much that is. -/
theorem stores_reclaim_exactly (filter : Log.Filter) (limits : Limits) (commands : List Command)
    (hc : ∀ command ∈ commands, command.isOperation = true) :
    Reclaims (SharedHeap.view 0) (·.ledger 0) ((opened SharedHeap filter limits).after commands)
        ((opened (Grove 8) filter limits).after commands) ∧
      Reclaims (Pools.view 0) (fun w => (w.pool 0).ledger)
        ((opened Pools filter limits).after commands)
        ((opened (Grove 16) filter limits).after commands) :=
  ⟨(SharedHeap.counted 0).reclaims_after (SharedHeap.opens limits) rfl rfl filter hc,
    (Pools.counted 0).reclaims_after (Pools.opens limits) rfl rfl filter hc⟩

/-- A run in which the evaluator is ended while a variable captures one of its functions. -/
theorem stores_reclaim_exactly_outliving :
    Reclaims (SharedHeap.view 0) (·.ledger 0)
        ((opened SharedHeap .off {}).after [.numeral 2 "n", .close, .clone "n" "m", .drop "n"])
        ((opened (Grove 8) .off {}).after [.numeral 2 "n", .close, .clone "n" "m", .drop "n"]) ∧
      Reclaims (Pools.view 0) (fun w => (w.pool 0).ledger)
        ((opened Pools .off {}).after [.numeral 2 "n", .close, .clone "n" "m", .drop "n"])
        ((opened (Grove 16) .off {}).after [.numeral 2 "n", .close, .clone "n" "m", .drop "n"]) :=
  stores_reclaim_exactly .off {} [.numeral 2 "n", .close, .clone "n" "m", .drop "n"] (by decide)

end ChurchStore
