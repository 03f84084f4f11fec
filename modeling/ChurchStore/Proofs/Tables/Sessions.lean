import ChurchStore.Proofs.Arenas.Evaluators
import ChurchStore.Proofs.BuiltinHandles.Counted
import ChurchStore.Proofs.Tables.Stores

/-!
# Tables in sessions

An evaluator needs its functions for zero and the successor to build numerals, and no session can
take them away: an arena keeps all its closures until it is reset, and where owners are counted the
evaluator itself owns them. So tables of numerals are built whatever has been done before.
-/

namespace ChurchStore

open Session

theorem Arenas.Houses.serves {w : Arenas} {e : Evaluator ArenaRef} (h : Houses w e)
    (hfits : Kind.succPartial.footprint ≤ (w.arena e.site).capacity) (hn : 0 < e.nesting) :
    (Arenas.shelf e.site hfits).Serves e w where
  site_eq := rfl
  nesting_pos := hn
  sound := h.opened
  look_zero := h.look _ .zero
  look_succ := h.look _ .succ
  owns_zero := ⟨1, Nat.one_pos, trivial⟩
  owns_succ := ⟨1, Nat.one_pos, trivial⟩

theorem SharedHeap.serves {w : SharedHeap} {e : Evaluator NodeRef} (hs : e.site < w.ledgers.size)
    (h : ∀ b, ∃ k, 0 < k ∧ care.Stands w (e.singletons.get b) b k) (hn : 0 < e.nesting) :
    (shelf e.site).Serves e w := by
  have hlook (b : Builtin) : (view e.site).look w (e.singletons.get b) = some b.closure := by
    obtain ⟨k, -, hstands⟩ := h b
    simp only [view]
    rw [Cells.Stands.closure?_eq hstands, Option.map_some, Builtin.map_closure]
  have howns (b : Builtin) : ∃ j, 0 < j ∧ w.owners (e.singletons.get b) = j := by
    obtain ⟨k, hk, hstands⟩ := h b
    have hle := Cells.Stands.le_owners hstands
    exact ⟨_, by unfold owners; omega, rfl⟩
  exact ⟨rfl, hn, hs, hlook .zero, hlook .succ, howns .zero, howns .succ⟩

theorem Pools.serves {w : Pools} {e : Evaluator PoolRef} (htidy : care.Sound w)
    (hs : care.Seated w e) (h : ∀ b, ∃ k, 0 < k ∧ care.Stands w (e.singletons.get b) b k)
    (hn : 0 < e.nesting) : (shelf e.site).Serves e w := by
  have hlook (b : Builtin) : (view e.site).look w (e.singletons.get b) = some b.closure := by
    obtain ⟨k, -, hstands⟩ := h b
    have hclosure := Cells.Stands.closure?_eq hstands
    rw [hs.2 b] at hclosure
    simp only [view]
    rw [if_pos (hs.2 b), hclosure, Option.map_some, Builtin.map_closure]
  have howns (b : Builtin) : ∃ j, 0 < j ∧ w.owners (e.singletons.get b) = j := by
    obtain ⟨k, hk, hstands⟩ := h b
    have hle := Cells.Stands.le_owners hstands
    exact ⟨_, by unfold owners; omega, rfl⟩
  exact ⟨rfl, hn, ⟨hs.1, htidy e.site⟩, hlook .zero, hlook .succ, howns .zero, howns .succ⟩

theorem exists_evaluator {W H : Type} {s : Session W H} {number : Nat} {site : Site} {n : Nat}
    (h : s.seats[number]?.map (fun seat => (seat.isOpen, seat.evaluator.site,
      seat.evaluator.nesting)) = some (true, site, n)) :
    ∃ e, s.seats[number]? = some ⟨e, true⟩ ∧ e.site = site ∧ e.nesting = n := by
  obtain ⟨⟨e, isOpen⟩, hseat, hx⟩ := Option.map_eq_some_iff.1 h
  cases hx
  exact ⟨e, hseat, rfl, rfl⟩

/-- Whatever sessions have done before, each of their evaluators builds tables in which all numerals
up to a number are shared: in an arena if a closure with one capture fits in a block, and on the
shared heap and in pools, where each entry but the first has an owner for its handle and another one
for the entry that captures it. -/
theorem sessions_build_tables (filter : Log.Filter) (turns : List (Nat × Command)) (number : Nat) :
    (let s : Session Arenas ArenaRef := (start filter).afterTurns turns
      ∀ e, s.seats[number]? = some ⟨e, true⟩ → 0 < e.nesting →
        Kind.succPartial.footprint ≤ (s.machine.store.arena e.site).capacity →
        e.BuildsTables (Arenas.view e.site (s.machine.store.arena e.site).capacity) s.machine) ∧
    (let s : Session SharedHeap NodeRef := (start filter).afterTurns turns
      ∀ e, s.seats[number]? = some ⟨e, true⟩ → 0 < e.nesting →
        e.BuildsTables (SharedHeap.view e.site) s.machine ∧
          e.SharesTables SharedHeap.owners s.machine) ∧
    (let s : Session Pools PoolRef := (start filter).afterTurns turns
      ∀ e, s.seats[number]? = some ⟨e, true⟩ → 0 < e.nesting →
        e.BuildsTables (Pools.view e.site) s.machine ∧
          e.SharesTables Pools.owners s.machine) := by
  refine ⟨fun e he hn hfits => ?_, fun e he hn => ?_, fun e he hn => ?_⟩
  · have hhoused := (housed_start filter).afterTurns turns
    exact ((hhoused.houses (mem_evaluators he)).serves hfits hn).buildsTables
  · obtain ⟨-, hs, hstands⟩ := SharedHeap.lawful_care.afterTurns filter he
    have hserves := SharedHeap.serves hs.1 hstands hn
    exact ⟨hserves.buildsTables, hserves.sharesTables id⟩
  · obtain ⟨htidy, hs, hstands⟩ := Pools.lawful_care.afterTurns filter he
    have hserves := Pools.serves htidy hs hstands hn
    exact ⟨hserves.buildsTables, hserves.sharesTables id⟩

/-- The second of two evaluators builds a table, although the handle of its numeral was captured by
the first one and given away, and the first one has ended. In blocks of 16 bytes this takes three
closures; where owners are counted the middle entries have two and the last one has one. -/
theorem sessions_build_tables_sharing :
    let turns : List (Nat × Command) := [(0, .new { blockCapacity := 16 }),
      (0, .new { blockCapacity := 16 }), (1, .numeral 2 "n"), (0, .alloc (.succPartial "n") "p"),
      (0, .drop "n"), (0, .close)]
    let s : Session Arenas ArenaRef := (start .off).afterTurns turns
    let t : Session SharedHeap NodeRef := (start .off).afterTurns turns
    let u : Session Pools PoolRef := (start .off).afterTurns turns
    (∃ e table m, s.seats[1]? = some ⟨e, true⟩ ∧ e.numerals 4 s.machine = .ok table m ∧
      e.Lists (Arenas.view 1 16) m table ∧ e.Allocates s.machine m (partialCost 3)) ∧
    (∃ e table m, t.seats[1]? = some ⟨e, true⟩ ∧ e.numerals 4 t.machine = .ok table m ∧
      ∀ h, (table[2]? = some h → m.store.owners h = 2) ∧
        (table[3]? = some h → m.store.owners h = 1)) ∧
    ∃ e table m, u.seats[1]? = some ⟨e, true⟩ ∧ e.numerals 4 u.machine = .ok table m ∧
      ∀ h, (table[2]? = some h → m.store.owners h = 2) ∧
        (table[3]? = some h → m.store.owners h = 1) := by
  intro turns s t u
  have hcapacity : (s.machine.store.arena 1).capacity = 16 := by decide +kernel
  have hs : ∃ e, s.seats[1]? = some ⟨e, true⟩ ∧ e.site = 1 ∧ e.nesting = nestingLimit :=
    exists_evaluator (by decide +kernel)
  have ht : ∃ e, t.seats[1]? = some ⟨e, true⟩ ∧ e.site = 1 ∧ e.nesting = nestingLimit :=
    exists_evaluator (by decide +kernel)
  have hu : ∃ e, u.seats[1]? = some ⟨e, true⟩ ∧ e.site = 1 ∧ e.nesting = nestingLimit :=
    exists_evaluator (by decide +kernel)
  have hpos : 0 < nestingLimit := by decide
  clear_value turns
  obtain ⟨harena, hheap, hpool⟩ := sessions_build_tables .off turns 1
  refine ⟨?_, ?_, ?_⟩
  · obtain ⟨e, he, hsite, hn⟩ := hs
    rw [← hn] at hpos
    have hbuilds : e.BuildsTables (Arenas.view e.site (s.machine.store.arena e.site).capacity)
        s.machine :=
      harena e he hpos (by rw [hsite, hcapacity]; decide)
    rw [hsite, hcapacity] at hbuilds
    obtain ⟨table, m, hrun, -, hlists, hcost⟩ := hbuilds.numerals 4 (by decide)
    exact ⟨e, table, m, he, hrun, hlists, hcost⟩
  · obtain ⟨e, he, -, hn⟩ := ht
    rw [← hn] at hpos
    obtain ⟨hbuilds, hshares⟩ := hheap e he hpos
    obtain ⟨table, m, hrun, -⟩ := hbuilds.numerals 4 (by decide)
    exact ⟨e, table, m, he, hrun, fun h =>
      ⟨fun hh => hshares hrun hh (by decide), fun hh => hshares hrun hh (by decide)⟩⟩
  · obtain ⟨e, he, -, hn⟩ := hu
    rw [← hn] at hpos
    obtain ⟨hbuilds, hshares⟩ := hpool e he hpos
    obtain ⟨table, m, hrun, -⟩ := hbuilds.numerals 4 (by decide)
    exact ⟨e, table, m, he, hrun, fun h =>
      ⟨fun hh => hshares hrun hh (by decide), fun hh => hshares hrun hh (by decide)⟩⟩

end ChurchStore
