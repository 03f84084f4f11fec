import ChurchStore.Proofs.Arenas.Cutting

/-!
# Blocks of different sizes

The size of its blocks is of no consequence for what a program comes to on an arena, as long as the
blocks have room for every closure: two arenas go along with the same grove, on which there are no
blocks. Both have stored closures of the kinds that were made on the grove since the last reset, in
that order, and so the one with larger blocks has no more of them.
-/

namespace ChurchStore

open Session

/-- What an answer says apart from the places of handles and the number of blocks. -/
def Session.Answer.unsized : Answer → Answer
  | .extent (.arena epoch _ bytes) => .extent (.arena epoch 0 bytes)
  | a => a.unplaced

theorem Session.Answer.unsized_unplaced (a : Answer) : a.unplaced.unsized = a.unsized := by
  cases a with
  | closure c => exact congrArg Answer.closure (Closure.map_map _ _ c)
  | extent x => cases x <;> rfl
  | _ => rfl

theorem Session.Answer.map_unsized {r r' : Except Refusal Answer}
    (h : r.map Answer.unplaced = r'.map Answer.unplaced) :
    r.map Answer.unsized = r'.map Answer.unsized := by
  have hmap (r : Except Refusal Answer) :
      r.map Answer.unsized = (r.map Answer.unplaced).map Answer.unsized := by
    cases r with
    | ok a => exact congrArg Except.ok a.unsized_unplaced.symm
    | error e => rfl
  rw [hmap, h, ← hmap]

/-- The second arena holds what the first one holds, in no more blocks. -/
structure Arena.Condensed (a b : Arena) : Prop where
  epoch_eq : b.epoch = a.epoch
  stats_eq : b.stats = { a.stats with blocks := b.blocks.size }
  size_le : b.blocks.size ≤ a.blocks.size

/-- A grove has no blocks. -/
theorem Grove.opened_eq {b : Nat} (filter : Log.Filter) {limits limits' : Limits}
    (h : limits'.nesting = limits.nesting) :
    opened (Grove b) filter limits' = opened (Grove b) filter limits := by
  have hopen : (Host.openWith limits' : Act (Grove b) (Evaluator Tree)) = Host.openWith limits := by
    change openGrove limits' = openGrove limits
    rw [openGrove, h]
    rfl
  simp only [opened, openedOn, step, perform, Option.elim_some, hopen]

namespace Arenas

/-- The first arena has stored closures of the kinds that were made on a grove since the last reset,
in that order. -/
structure Stocks (w : Arenas) (g : Grove 16) : Prop where
  packed : (w.arena 0).Packed
  kinds_eq : (w.arena 0).contents.map Closure.kind = g.recent.reverse

variable {w w' : Arenas} {g : Grove 16} {capacity capacity' : Nat} {resets resets' : List Nat}

namespace Stocks

theorem grow (h : Stocks w g) (hs : 0 < w.toArray.size)
    (hresets : ∀ r ∈ g.resets, r ≤ g.made.length) {c : Closure ArenaRef}
    (hfits : c.footprint ≤ (w.arena 0).capacity) :
    Stocks (w.modify 0 (·.store c)) (g.grow c.kind) := by
  constructor <;> rw [arena_modify hs]
  · exact h.packed.store hfits
  · rw [Arena.contents_store, List.map_append, h.kinds_eq, Grove.recent_grow hresets,
      List.reverse_cons]
    rfl

/-- The counters of two arenas that go along with the same grove differ in the blocks only. -/
theorem stats_eq (h : Stocks w g) (h' : Stocks w' g) :
    (w'.arena 0).stats = { (w.arena 0).stats with blocks := (w'.arena 0).blocks.size } := by
  have hkinds : (w'.arena 0).contents.map Closure.kind = (w.arena 0).contents.map Closure.kind :=
    h'.kinds_eq.trans h.kinds_eq.symm
  have hledger : (w'.arena 0).ledger = (w.arena 0).ledger := by
    have halloc : (w'.arena 0).ledger.alloc = (w.arena 0).ledger.alloc := by
      ext k
      have hcount := congrArg (List.countP (decide <| · = k)) hkinds
      rw [List.countP_map, List.countP_map] at hcount
      rw [h.packed.alloc_eq, h'.packed.alloc_eq]
      exact hcount
    have hfree : (w'.arena 0).ledger.free = (w.arena 0).ledger.free := by
      ext k
      rw [h.packed.free_eq, h'.packed.free_eq]
    exact congrArg₂ Ledger.mk halloc hfree
  have hbytes : (w'.arena 0).bytes = (w.arena 0).bytes := by
    rw [h.packed.bytes_eq_sum, h'.packed.bytes_eq_sum, hledger]
  rw [Arena.stats, Arena.stats, hledger, hbytes]

theorem size_le (h : Stocks w g) (h' : Stocks w' g)
    (hcap : (w.arena 0).capacity ≤ (w'.arena 0).capacity) :
    (w'.arena 0).blocks.size ≤ (w.arena 0).blocks.size :=
  h.packed.size_le h'.packed hcap (h'.kinds_eq.trans h.kinds_eq.symm)

end Stocks

/-- Only allocations change what an arena has stored and what was made on a grove, and they are
answered by both or by none. -/
theorem keeps_stocks (capacity : Nat) (resets : List Nat) :
    (simulation capacity resets).Keeps Stocks := by
  intro m n held deed hrel hle hmn
  cases deed with
  | alloc c =>
    have hle : (c.captures : Multiset (ArenaRef × Tree)) ≤ held := hle
    obtain ⟨lent, rfl⟩ := Multiset.le_iff_exists_add.1 hle
    have hresets : ∀ r ∈ n.store.resets, r ≤ n.store.made.length := by
      obtain ⟨-, known, tree, hm⟩ := hrel
      exact hm.resets_le
    change Stocks ((alloc 0 (c.map Prod.fst)).leaves m) ((Grove.alloc (c.map Prod.snd)).leaves n)
    obtain ⟨a, t, m', n', hx, hy, -⟩ | ⟨f, m', n', hx, hy, -⟩ :=
      ((simulation capacity resets).alloc c lent).cases hrel
    · have hx : alloc 0 (c.map Prod.fst) m = .ok a m' := hx
      have hy : Grove.alloc (c.map Prod.snd) n = .ok t n' := hy
      obtain ⟨⟨hs, hfits, -⟩, hm'⟩ := store_of_alloc hx
      rw [Act.leaves_of_ok hx, Act.leaves_of_ok hy, hm', Grove.store_of_alloc hy]
      have hgrow := hmn.grow hs hresets hfits
      rw [Closure.kind_map] at hgrow ⊢
      exact hgrow
    · have hx : alloc 0 (c.map Prod.fst) m = .error f m' := hx
      have hy : Grove.alloc (c.map Prod.snd) n = .error f n' := hy
      rw [Act.leaves_of_error hx, Act.leaves_of_error hy, store_of_alloc_error hx,
        Grove.store_of_alloc_error hy]
      exact hmn
  | resolve p =>
    have hleft : (resolve 0 p.1).leaves m = m.store := by
      obtain ⟨c, hx, -⟩ | ⟨f, j, hx⟩ := resolve_cases 0 p.1 m
      · rw [Act.leaves_of_ok hx]
      · rw [Act.leaves_of_error hx]
    have hright : (Grove.resolve p.2).leaves n = n.store := Grove.leaves_resolve p.2 n
    change Stocks ((resolve 0 p.1).leaves m) ((Grove.resolve p.2).leaves n)
    rwa [hleft, hright]
  | retain p => exact hmn
  | release p => exact hmn
  | describe p => exact hmn

theorem persists_stocks (capacity : Nat) : Persists capacity Stocks where
  keeps := keeps_stocks capacity
  clear hs _ := by
    constructor <;> rw [arena_modify hs]
    · exact Arena.packed_empty _ _
    · rw [Grove.recent_nextEpoch]
      rfl

/-- A session on arenas goes along with one on a grove, after the given resets. -/
def Accompanies (capacity : Nat) (resets : List Nat) (s : Session Arenas ArenaRef)
    (t : Session (Grove 16) Tree) : Prop :=
  ∃ e d c, Grove.Ready resets d ∧ (simulation capacity resets).Paired e d c 0 s t ∧
    Stocks s.machine.store t.machine.store

namespace Accompanies

variable {s s' : Session Arenas ArenaRef} {t : Session (Grove 16) Tree} {command : Command}

theorem step (h : Accompanies capacity resets s t) (hfits : Closure.headerWord ≤ capacity)
    (hc : command.isOperation = true ∨ command.isReset = true)
    (hlt : resets.length + [command].countP (·.isReset) < UInt32.size) :
    ∃ resets', resets'.length ≤ resets.length + [command].countP (·.isReset) ∧
      Accompanies capacity resets' (s.step 0 (some command)).2 (t.step 0 (some command)).2 := by
  obtain ⟨e, d, c, hd, hpaired, hst⟩ := h
  obtain ⟨resets', e', d', c', hlen, hd', hpaired', hst'⟩ :=
    paired_step (persists_stocks capacity) hfits hd hc hlt hpaired hst
  exact ⟨resets', hlen, e', d', c', hd', hpaired', hst'⟩

theorem condensed (h : Accompanies capacity resets s t) (h' : Accompanies capacity' resets' s' t)
    (hcap : capacity ≤ capacity') :
    (s.machine.store.arena 0).Condensed (s'.machine.store.arena 0) := by
  obtain ⟨e, d, c, -, hpaired, hst⟩ := h
  obtain ⟨e', d', c', -, hpaired', hst'⟩ := h'
  obtain ⟨-, known, tree, hm⟩ := hpaired.holds
  obtain ⟨-, known', tree', hm'⟩ := hpaired'.holds
  have hcapacity : (s.machine.store.arena 0).capacity = capacity := hm.sound.capacity_eq
  have hcapacity' : (s'.machine.store.arena 0).capacity = capacity' := hm'.sound.capacity_eq
  exact ⟨hm'.now_eq.trans hm.now_eq.symm, hst.stats_eq hst',
    hst.size_le hst' (by rwa [hcapacity, hcapacity'])⟩

/-- A reset is answered unless the evaluator has been ended. -/
theorem exists_answer_reset (h : Accompanies capacity resets s t)
    (hfits : Closure.headerWord ≤ capacity) (hlt : resets.length + 1 < UInt32.size) :
    ∃ d isOpen, t.seats = #[⟨d, isOpen⟩] ∧ (s.step 0 (some .reset)).1.answer =
      if isOpen then .ok (.extent (Host.extent 0 (s.step 0 (some .reset)).2.machine.store))
      else .error .unknown := by
  obtain ⟨e, d, c, -, hpaired, hst⟩ := h
  have hs : s.seats[0]? = some ⟨e, c.isOpen⟩ := by rw [hpaired.seats_left]; rfl
  refine ⟨d, c.isOpen, hpaired.seats_right, ?_⟩
  cases hopen : c.isOpen with
  | false =>
    rw [hopen] at hs
    exact answer_reset_of_ended hs
  | true =>
    rw [hopen] at hs
    obtain ⟨a, m', n', hx, -⟩ := reset_apply (d := d) (persists_stocks capacity) hfits hlt
      hpaired.serves.left hpaired.holds hst
    have hsite : e.site = 0 := hpaired.serves.left
    rw [answer_reset_of_open rfl hs hx, step_reset_of_open rfl hs hx, hsite]
    rfl

theorem answer_eq (h : Accompanies capacity resets s t) (h' : Accompanies capacity' resets' s' t)
    (hfits : Closure.headerWord ≤ capacity) (hcap : capacity ≤ capacity')
    (hc : command.isOperation = true ∨ command.isReset = true)
    (hlt : resets.length + [command].countP (·.isReset) < UInt32.size)
    (hlt' : resets'.length + [command].countP (·.isReset) < UInt32.size) :
    (s.step 0 (some command)).1.answer.map Answer.unsized =
      (s'.step 0 (some command)).1.answer.map Answer.unsized := by
  rcases hc with hop | hreset
  · obtain ⟨e, d, c, -, hpaired, -⟩ := h
    obtain ⟨e', d', c', -, hpaired', -⟩ := h'
    exact Answer.map_unsized ((hpaired.step hop).2.1.trans (hpaired'.step hop).2.1.symm)
  · obtain rfl : command = .reset := by
      cases command <;> first | rfl | cases hreset
    obtain ⟨d, isOpen, hseats, hanswer⟩ := h.exists_answer_reset hfits hlt
    obtain ⟨d', isOpen', hseats', hanswer'⟩ := h'.exists_answer_reset (hfits.trans hcap) hlt'
    obtain ⟨-, rfl⟩ : d = d' ∧ isOpen = isOpen' := by simpa [hseats] using hseats'
    rw [hanswer, hanswer']
    cases isOpen with
    | false => rfl
    | true =>
      obtain ⟨resets₁, -, hnext⟩ := h.step hfits (.inr rfl) hlt
      obtain ⟨resets₂, -, hnext'⟩ := h'.step (hfits.trans hcap) (.inr rfl) hlt'
      have hcondensed := hnext.condensed hnext' hcap
      have hbytes := congrArg AllocStats.bytes hcondensed.stats_eq
      exact congrArg (fun x => Except.ok (Answer.extent x))
        (congrArg₂ (Extent.arena · 0) hcondensed.epoch_eq.symm hbytes.symm)

/-- Along a run the sessions with blocks of two sizes give the same answers, and stay alike. -/
theorem after (h : Accompanies capacity resets s t) (h' : Accompanies capacity' resets' s' t)
    (hfits : Closure.headerWord ≤ capacity) (hcap : capacity ≤ capacity') {commands : List Command}
    (hc : ∀ command ∈ commands, command.isOperation = true ∨ command.isReset = true)
    (hlt : resets.length + commands.countP (·.isReset) < UInt32.size)
    (hlt' : resets'.length + commands.countP (·.isReset) < UInt32.size) :
    (s.answers commands).map (·.map Answer.unsized) =
        (s'.answers commands).map (·.map Answer.unsized) ∧
      ((s.after commands).machine.store.arena 0).Condensed
        ((s'.after commands).machine.store.arena 0) := by
  induction commands generalizing resets resets' s s' t with
  | nil => exact ⟨rfl, h.condensed h' hcap⟩
  | cons command commands ih =>
    have hcommand := hc command (List.mem_cons_self ..)
    rw [← List.singleton_append, List.countP_append] at hlt hlt'
    obtain ⟨resets₁, hlen, hnext⟩ := h.step hfits hcommand (by omega)
    obtain ⟨resets₂, hlen', hnext'⟩ := h'.step (hfits.trans hcap) hcommand (by omega)
    obtain ⟨hanswers, hcondensed⟩ := ih hnext hnext'
      (fun x hx => hc x (List.mem_cons_of_mem command hx)) (by omega) (by omega)
    have hanswer := h.answer_eq h' hfits hcap hcommand (by omega) (by omega)
    refine ⟨?_, hcondensed⟩
    simp only [answers, List.map_cons]
    rw [hanswer, hanswers]

end Accompanies

/-- Arenas that can be opened, with blocks that have room for every closure, go along with a grove
that refuses none. -/
theorem accompanies_opened (filter : Log.Filter) {limits : Limits}
    (hcap : Closure.maxFootprint ≤ limits.blockCapacity)
    (hopen : 0 < (opened Arenas filter limits).seats.size) :
    Accompanies limits.blockCapacity [] (opened Arenas filter limits)
      (opened (Grove 16) filter limits) := by
  have hbytes := reservation_lt_of_opened hopen
  have hopens := Arenas.opens none hbytes fun c => (Closure.filter_footprint_eq_none hcap c).symm
  obtain ⟨e, hpaired⟩ := hopens.paired filter (Grove.openGrove_of_fits limits rfl rfl)
  refine ⟨e, _, _, Grove.ready_evaluator limits, hpaired, ?_⟩
  obtain ⟨e, m, hrun⟩ := openArena_of_fits ⟨Host.initial, { filter }⟩
    ((by decide : Closure.headerWord ≤ Closure.maxFootprint).trans hcap) hbytes
  obtain ⟨hsite, -⟩ := canHold_of_openArena hrun
  obtain ⟨hstore, -⟩ := Simulation.openedOn_of_ok (W := Arenas) hrun
  have harena := arena_of_openArena hrun
  rw [hsite, ← hstore] at harena
  have harena : (opened Arenas filter limits).machine.store.arena 0 = _ := harena
  constructor <;> rw [harena]
  · exact (Arena.packed_empty limits.blockCapacity 0).storeAll hcap _
  · rw [Arena.contents_storeAll]
    rfl

end Arenas

open Arenas in
/-- Whatever is stored in a new arena, it needs as few blocks as any cut of what it stores, the
builtin functions first, into consecutive parts that fit. Larger blocks change neither the answers
to operations and resets, apart from places and the number of blocks, nor the counters and bytes
afterwards, and they are not more. -/
theorem arenas_need_fewest_blocks :
    (∀ (m m' : Machine Arenas) (limits : Limits) (e : Evaluator ArenaRef),
        Closure.maxFootprint ≤ limits.blockCapacity → openArena limits m = .ok e m' →
        ∀ cs : List (Closure ArenaRef), ∃ hs n, cs.mapM (alloc e.site) m' = .ok hs n ∧
          IsLeast {k | ∃ parts, parts.length = k ∧ Cuts Closure.footprint limits.blockCapacity
            (Builtin.all.map Builtin.closure ++ cs) parts} (n.store.arena e.site).blocks.size) ∧
      ∀ (filter : Log.Filter) (limits larger : Limits) (commands : List Command),
        Closure.maxFootprint ≤ limits.blockCapacity →
        limits.blockCapacity ≤ larger.blockCapacity → larger.nesting = limits.nesting →
        let s := opened Arenas filter limits
        let t := opened Arenas filter larger
        0 < s.seats.size → 0 < t.seats.size →
        (∀ command ∈ commands, command.isOperation = true ∨ command.isReset = true) →
        commands.countP (·.isReset) < UInt32.size →
        (s.answers commands).map (·.map Answer.unsized) =
            (t.answers commands).map (·.map Answer.unsized) ∧
          ((s.after commands).machine.store.arena 0).Condensed
            ((t.after commands).machine.store.arena 0) := by
  refine ⟨fun m m' limits e hcap hopen cs => exists_isLeast_of_openArena hopen hcap cs, ?_⟩
  intro filter limits larger commands hcap hle hnesting s t hs ht hc hlt
  have hs := accompanies_opened filter hcap hs
  have ht := accompanies_opened filter (hcap.trans hle) ht
  rw [Grove.opened_eq filter hnesting] at ht
  exact hs.after ht ((by decide : Closure.headerWord ≤ Closure.maxFootprint).trans hcap) hle hc
    (by simpa using hlt) (by simpa using hlt)

open Arenas in
/-- A new arena in which a literal and a pair of captures are stored, and a run that makes a
variable stale by a reset, with blocks of 28 and of 40 bytes. -/
theorem arenas_need_fewest_blocks_resetting :
    (∃ e m, openArena { blockCapacity := 28 } { store := {} } = .ok e m ∧
        ∃ hs n, List.mapM (alloc e.site) [.intLiteral 5, .succInner default default] m =
            .ok hs n ∧
          IsLeast {k | ∃ parts, parts.length = k ∧ Cuts Closure.footprint 28
            (Builtin.all.map Builtin.closure ++
              [.intLiteral 5, .succInner (default : ArenaRef) default]) parts}
            (n.store.arena e.site).blocks.size) ∧
      (((opened Arenas .off { blockCapacity := 28 }).answers
            [.numeral 3 "n", .reset, .toInt "n", .numeral 4 "m"]).map (·.map Answer.unsized) =
          ((opened Arenas .off { blockCapacity := 40 }).answers
            [.numeral 3 "n", .reset, .toInt "n", .numeral 4 "m"]).map (·.map Answer.unsized) ∧
        (((opened Arenas .off { blockCapacity := 28 }).after
            [.numeral 3 "n", .reset, .toInt "n", .numeral 4 "m"]).machine.store.arena 0).Condensed
          (((opened Arenas .off { blockCapacity := 40 }).after
            [.numeral 3 "n", .reset, .toInt "n", .numeral 4 "m"]).machine.store.arena 0)) ∧
      (((opened Arenas .off { blockCapacity := 28 }).after
          [.numeral 3 "n", .reset, .toInt "n", .numeral 4 "m"]).machine.store.arena 0).blocks.size =
        5 ∧
      (((opened Arenas .off { blockCapacity := 40 }).after
          [.numeral 3 "n", .reset, .toInt "n", .numeral 4 "m"]).machine.store.arena 0).blocks.size =
        3 := by
  obtain ⟨e, m, h⟩ : ∃ e m, openArena { blockCapacity := 28 } { store := {} } = .ok e m :=
    ⟨_, _, rfl⟩
  exact ⟨⟨e, m, h, arenas_need_fewest_blocks.1 _ m _ e (by decide) h _⟩,
    arenas_need_fewest_blocks.2 .off { blockCapacity := 28 } { blockCapacity := 40 } _ (by decide)
      (by decide) rfl (by decide +kernel) (by decide +kernel) (by decide) (by decide),
    by decide +kernel, by decide +kernel⟩

end ChurchStore
