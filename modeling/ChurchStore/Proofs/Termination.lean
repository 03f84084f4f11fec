import ChurchStore.Proofs.Arenas.Evaluation
import ChurchStore.Proofs.Arenas.Sessions
import ChurchStore.Proofs.BuiltinHandles.Counted
import ChurchStore.Proofs.Isolation
import ChurchStore.Proofs.SharedHandles

/-!
# Every application ends

Whatever two held handles stand for, the application of one to the other ends: from some depth on
the bound on nesting plays no part, and the application answers or is stopped by a violation. On a
store this follows from the same fact about the trees that the handles stand for, so it holds as far
as handles stand for trees. On a heap they always do, whoever made them. A pool has to be given
handles of its own only, since a closure that is stored over a handle of another pool could capture
itself. An arena may be given all handles, and refuses those of other arenas and of earlier epochs;
but it may not be reset as often as there are epochs, since then a handle from before is taken for
one to a new closure.
-/

namespace ChurchStore

open Session

variable {W H : Type} [Host W H]

/-- Every application of held handles ends, whichever evaluator is asked for it. -/
def Session.ApplicationsEnd (s : Session W H) : Prop :=
  ∀ (number : Nat) (e : Evaluator H), s.seats[number]? = some ⟨e, true⟩ →
    ∀ f ∈ s.handles, ∀ x ∈ s.handles, e.Ends f x s.machine

namespace Simulation

variable {b : Nat} {S : Simulation W (Grove b)} {e : Evaluator H} {d : Evaluator Tree}

/-- Handles that are related to trees are applied like these. -/
theorem Serves.ends {held : Multiset (H × Tree)} {m : Machine W} {n : Machine (Grove b)}
    (hS : S.Serves e d held) (hd : d.singletons.zeroInner.closure = .zeroInner)
    (h : S.Holds held m n) {p q : H × Tree} (hp : p ∈ held) (hq : q ∈ held) :
    e.Ends p.1 q.1 m := by
  obtain ⟨depth, r, hr, hsettled⟩ := Grove.ends_apply hd p.2 q.2 n
  suffices hrun : Settled (e.applyWithin depth p.1 q.1 m) from Evaluator.ends_of_settled hrun
  obtain ⟨a, a', m', n', -, hx, -⟩ | ⟨fault, m', n', hx, hy, -⟩ :=
    (hS.agree_applyWithin depth hp hq).cases h
  · rw [hx]
    trivial
  · have hend : d.applyWithin depth p.2 q.2 n = r := hr depth (Nat.le_refl _)
    rw [← hend, hy] at hsettled
    rw [hx]
    exact hsettled

/-- A session that is related to one on a grove has the ends of the grove. -/
theorem Paired.applicationsEnd {c : Pairing H Tree} {s : Session W H}
    {t : Session (Grove b) Tree} (h : S.Paired e d c 0 s t)
    (hd : d.singletons.zeroInner.closure = .zeroInner) : s.ApplicationsEnd := by
  intro number e' he' f hf x hx
  obtain rfl : number = 0 := by
    obtain ⟨hlt, -⟩ := Array.getElem?_eq_some_iff.1 he'
    rw [h.seats_left] at hlt
    exact Nat.lt_one_iff.1 hlt
  obtain ⟨rfl, l, hs, hholds, hserves⟩ := h.exists_serves he'
  rw [hs] at hf hx
  obtain ⟨p, hp, rfl⟩ := List.mem_map.1 hf
  obtain ⟨q, hq, rfl⟩ := List.mem_map.1 hx
  exact hserves.ends hd hholds hp hq

end Simulation

namespace SharedHeap

/-- However many evaluators share a heap, and whosever handles they apply. -/
theorem applicationsEnd (filter : Log.Filter) {turns : List (Nat × Command)}
    (hturns : ∀ turn ∈ turns, turn.2.isTurn = true) :
    ((start filter : Session SharedHeap NodeRef).afterTurns turns).ApplicationsEnd := by
  intro number e he f hf x hx
  obtain ⟨⟨partners, bindings, hafter⟩, -⟩ := (Attuned.start filter).afterTurns hturns
  obtain ⟨l, hs, -, hl⟩ := hafter.company.exists_handles
  have hholds := hafter.pictures.holds
  rw [hl] at hholds
  rw [hs] at hf hx
  obtain ⟨p, hp, rfl⟩ := List.mem_map.1 hf
  obtain ⟨q, hq, rfl⟩ := List.mem_map.1 hx
  -- The partner of the evaluator on the grove holds the trees of the builtin functions.
  obtain ⟨partner, hpartner, hseat⟩ : ∃ partner ∈ partners, partner.seatLeft = ⟨e, true⟩ := by
    rw [hafter.company.seats_left, List.getElem?_toArray] at he
    exact List.mem_map.1 (List.mem_of_getElem? he)
  obtain ⟨left, d, isOpen⟩ := partner
  obtain ⟨hleft, rfl⟩ : left = e ∧ isOpen = true := by
    simpa [Simulation.Partners.seatLeft] using hseat
  subst left
  have hbuiltin (b : Builtin) : (e.singletons.get b, d.singletons.get b) ∈ l := by
    rw [← Multiset.mem_coe, ← hl]
    refine Multiset.mem_add.2 (.inr (Multiset.mem_coe.2 (List.mem_flatMap.2 ⟨_, hpartner, ?_⟩)))
    exact Simulation.mem_builtinPairs e d b
  have hserves : (sharing e.site).Serves e d l :=
    ⟨rfl, (hafter.right hpartner).1, (hafter.right hpartner).2, hbuiltin⟩
  refine hserves.ends ?_ hholds (Multiset.mem_coe.2 hp) (Multiset.mem_coe.2 hq)
  obtain ⟨-, -, hstands⟩ := lawful_care.afterTurns filter he
  obtain ⟨k, -, hinner⟩ := hstands .zeroInner
  obtain ⟨-, -, ledger, known, tree, hm, -⟩ := hholds
  have hlook : (view 0).look
      (solo ((start filter).afterTurns turns).machine.store ledger) e.singletons.zeroInner =
        some .zeroInner := congrArg (Option.map _) (Cells.Stands.closure?_eq hinner)
  have htree := (hm.of_mem (Multiset.mem_coe.2 (hbuiltin .zeroInner))).2
  exact (congrArg Tree.closure htree).trans (hm.of_look hlook).2.1

end SharedHeap

namespace Pools

/-- The functions that an evaluator needs are among the handles that are held. -/
structure Custody.Equips (s : Custody) (e : Evaluator PoolRef) : Prop where
  pool_eq (b : Builtin) : (e.singletons.get b).pool = e.site
  exists_mem (b : Builtin) : ∃ t, (e.singletons.get b, t) ∈ s.held ∧ t.closure = b.closure

/-- A pool that is given handles of its own only applies them to each other. -/
theorem Custody.Sound.ends {s : Custody} (hs : s.Sound) {e : Evaluator PoolRef} (he : s.Equips e)
    {p q : PoolRef × Tree} (hp : p ∈ ofPool e.site s.held) (hq : q ∈ ofPool e.site s.held) :
    e.Ends p.1 q.1 s.machine := by
  choose tree hmem htree using he.exists_mem
  have hlt : e.site < s.machine.store.toArray.size := he.pool_eq .zero ▸ hs.lt_size (hmem .zero)
  let d : Evaluator Tree :=
    ⟨0, ⟨tree .zero, tree .zeroInner, tree .succ, tree .inc⟩, e.nesting⟩
  have hserves : ((representation e.site).simulation (b := 16) rfl []).Serves e d
      (ofPool e.site s.held) := by
    refine ⟨rfl, rfl, rfl, fun b => ?_⟩
    have hown := mem_ofPool (hmem b)
    rw [he.pool_eq b] at hown
    cases b <;> exact hown
  exact hserves.ends (n := ⟨s.groves e.site, {}⟩) (htree .zeroInner) (hs.represents hlt) hp hq

/-- The pool of a single evaluator is given no other handles than its own. -/
theorem applicationsEnd (filter : Log.Filter) (limits : Limits) {commands : List Command}
    (hc : ∀ command ∈ commands, command.isOperation = true) :
    ((opened Pools filter limits).after commands).ApplicationsEnd := by
  obtain ⟨e, c, hafter⟩ :=
    (Pools.opens limits).paired_after filter (Grove.openGrove_of_fits limits rfl rfl) hc
  exact hafter.applicationsEnd rfl

end Pools

theorem Arenas.applicationsEnd (filter : Log.Filter) (limits : Limits) {commands : List Command}
    (hc : ∀ command ∈ commands, command.isOperation = true ∨ command.isReset = true)
    (hlt : commands.countP (·.isReset) < UInt32.size) :
    ((opened Arenas filter limits).after commands).ApplicationsEnd := by
  obtain hnone | ⟨resets, e, d, c, t, hd, hpaired⟩ := unopened_or_paired filter limits hc hlt
  · intro number e he
    rw [hnone] at he
    cases he
  · exact hpaired.applicationsEnd hd.closure_zeroInner

open Pools Arenas in
/-- The application of any trees to each other ends, whatever the builtin functions are as long as
the second one is `λ z. z`. So does the application of any handles on a heap that is shared by any
number of evaluators; of handles of one pool to each other, as long as every pool is given handles
of its own to store; and of handles that were issued by any arenas in any epochs, as long as no
arena is reset as often as there are epochs. A single evaluator meets the conditions by itself, if
it does not reset its arena too often. -/
theorem applications_end (filter : Log.Filter) :
    (∀ (b : Nat) (e : Evaluator Tree), e.singletons.zeroInner.closure = .zeroInner →
      ∀ (f x : Tree) (m : Machine (Grove b)), e.Ends f x m) ∧
    (∀ turns : List (Nat × Command), (∀ turn ∈ turns, turn.2.isTurn = true) →
      ((start filter : Session SharedHeap NodeRef).afterTurns turns).ApplicationsEnd) ∧
    (∀ (moves : List Pools.Move) (e : Evaluator PoolRef),
      let s := Custody.after { machine := { store := {}, journal := { filter } } } moves
      s.Equips e → ∀ p ∈ ofPool e.site s.held, ∀ q ∈ ofPool e.site s.held,
        e.Ends p.1 q.1 s.machine) ∧
    (∀ moves : List Arenas.Move,
      let s := Chronicle.after { machine := { store := {}, journal := { filter } } } moves
      (∀ site, s.resets site < UInt32.size) → ∀ e ∈ s.evaluators, ∀ f x, s.Issued f →
        s.Issued x → e.Ends f x s.machine) ∧
    ∀ (limits : Limits) (commands : List Command),
      ((∀ command ∈ commands, command.isOperation = true) →
        ((opened Pools filter limits).after commands).ApplicationsEnd) ∧
      ((∀ command ∈ commands, command.isOperation = true ∨ command.isReset = true) →
        commands.countP (·.isReset) < UInt32.size →
        ((opened Arenas filter limits).after commands).ApplicationsEnd) := by
  refine ⟨fun b e he => Grove.ends_apply he, fun turns => SharedHeap.applicationsEnd filter,
    fun moves e he p hp q hq => ?_, fun moves hlt e he f x hf hx => ?_, fun limits commands =>
      ⟨Pools.applicationsEnd filter limits, Arenas.applicationsEnd filter limits⟩⟩
  · exact ((Custody.Sound.start filter).after moves).ends he hp hq
  · exact ((Chronicle.Sound.start filter).after moves).ends hlt he hf hx

open Pools Arenas in
/-- The successor applied to itself; by another evaluator of the heap than it was made by; in the
second of two pools, a closure that captured it; and in an arena, a closure that captured that of
another arena, which was reset since. -/
theorem applications_end_self :
    (Grove.evaluator {}).Ends (.node 2 .succ) (.node 2 .succ)
      ({ store := {} } : Machine (Grove 16)) ∧
    ((start .off : Session SharedHeap NodeRef).afterTurns [(0, .new {}), (0, .new {}),
      (0, .builtin .succ "s"), (1, .apply "s" "s" "t"), (0, .close)]).ApplicationsEnd ∧
    (let s := Custody.after {} [.new {}, .new {}, .alloc 1 (.succPartial 2)]
      let e : Evaluator PoolRef := ⟨1, ⟨⟨1, 0⟩, ⟨1, 1⟩, ⟨1, 2⟩, ⟨1, 3⟩⟩, nestingLimit⟩
      e.Ends ⟨1, 4⟩ ⟨1, 4⟩ s.machine) ∧
    (let s := Chronicle.after {} [.new {}, .new {}, .alloc 1 (.succPartial 2), .reset 0]
      ∃ e ∈ s.evaluators, e.site = 1 ∧ e.Ends ⟨1, 0, 0, 4⟩ ⟨0, 0, 0, 2⟩ s.machine) ∧
    ((opened Pools .off {}).after
      [.builtin .succ "s", .apply "s" "s" "t", .drop "s"]).ApplicationsEnd ∧
    ((opened Arenas .off {}).after [.builtin .succ "s", .apply "s" "s" "t", .reset,
      .builtin .succ "u", .apply "u" "u" "v"]).ApplicationsEnd := by
  obtain ⟨htrees, hheap, hpools, harenas, hsingle⟩ := applications_end .off
  refine ⟨htrees 16 _ rfl _ _ _, hheap _ (by decide), ?_, ?_, (hsingle {} _).1 (by decide),
    (hsingle {} _).2 (by decide) (by decide)⟩
  · intro s e
    have hheld : s.held.map (fun p => (p.1, p.2.closure.map fun _ => ())) =
        [(⟨1, 4⟩, .succPartial ()), (⟨1, 0⟩, .zero), (⟨1, 1⟩, .zeroInner), (⟨1, 2⟩, .succ),
          (⟨1, 3⟩, .inc), (⟨0, 0⟩, .zero), (⟨0, 1⟩, .zeroInner), (⟨0, 2⟩, .succ),
          (⟨0, 3⟩, .inc)] := by
      decide +kernel
    have hbuiltin (b : Builtin) : (e.singletons.get b, (b.closure : Closure Unit)) ∈
        s.held.map (fun p => (p.1, p.2.closure.map fun _ => ())) := by
      rw [hheld]
      cases b <;> decide
    obtain ⟨⟨h, t⟩, hmem, hcaptor⟩ := List.mem_map.1 (hheld ▸ List.mem_cons_self ..)
    obtain ⟨rfl, -⟩ := Prod.mk.inj hcaptor
    refine hpools [.new {}, .new {}, .alloc 1 (.succPartial 2)] e ⟨fun b => ?_, fun b => ?_⟩ _
      (mem_ofPool hmem) _ (mem_ofPool hmem)
    · cases b <;> rfl
    · obtain ⟨⟨h, t⟩, hmem, heq⟩ := List.mem_map.1 (hbuiltin b)
      obtain ⟨rfl, hclosure⟩ := Prod.mk.inj heq
      refine ⟨t, hmem, ?_⟩
      revert hclosure
      cases b <;> cases t.closure <;> simp [Closure.map, Builtin.closure]
  · intro s
    have hlt (site : Site) : s.resets site < UInt32.size :=
      Nat.lt_of_le_of_lt (Chronicle.resets_after_le ..) (show 0 + 4 < UInt32.size by decide)
    have hsites : s.evaluators.toList.map (·.site) = [0, 1] := by decide +kernel
    obtain ⟨e, he, hsite⟩ : ∃ e ∈ s.evaluators.toList, e.site = 1 :=
      List.mem_map.1 (by rw [hsites]; simp)
    have hcaptor : s.Issued ⟨1, 0, 0, 4⟩ := by unfold Chronicle.Issued; decide +kernel
    have hstale : s.Issued ⟨0, 0, 0, 2⟩ := by unfold Chronicle.Issued; decide +kernel
    exact ⟨e, Array.mem_toList_iff.1 he, hsite,
      harenas _ hlt e (Array.mem_toList_iff.1 he) _ _ hcaptor hstale⟩

end ChurchStore
