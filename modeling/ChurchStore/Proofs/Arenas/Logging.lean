import ChurchStore.Proofs.Arenas.Packing
import ChurchStore.Proofs.Session.Logging
import Mathlib.Data.List.DropRight

/-!
# What arenas log

Of the blocks of an arena, each one is logged when it is started. So between two resets the log
lists the blocks that there are, in their order, and each record tells the bytes in the blocks
before.
-/

namespace ChurchStore

/-- What is logged of blocks that are filled to the given sizes: the number of each block, and the
bytes in those before it. -/
def Log.blocks (used : List Nat) : List Log.Event :=
  (List.range used.length).map fun i => .blockAllocated (i + 1) (used.take i).sum

theorem Log.blocks_concat (used : List Nat) (n : Nat) :
    Log.blocks (used ++ [n]) = Log.blocks used ++ [.blockAllocated (used.length + 1) used.sum] := by
  rw [blocks, List.length_append, List.length_singleton, List.range_succ, List.map_append,
    List.map_singleton, List.take_left]
  congr 1
  refine List.map_congr_left fun i hi => ?_
  rw [List.take_append_of_le_length (Nat.le_of_lt (List.mem_range.1 hi))]

/-- What has been logged of the blocks of an arena since it was opened or reset. -/
def Arena.blockRecords (a : Arena) : List Log.Event :=
  Log.blocks (a.blocks.toList.map Block.used)

namespace Arena

variable {a : Arena} {c : Closure ArenaRef}

theorem blockRecords_of_blocks {full : Array Block} {head : Block}
    (h : a.blocks = full.push head) : a.blockRecords =
      Log.blocks (full.toList.map Block.used) ++
        [.blockAllocated (full.size + 1) (full.toList.map Block.used).sum] := by
  rw [blockRecords, h, Array.toList_push, List.map_append, List.map_singleton, Log.blocks_concat,
    List.length_map, Array.length_toList]

/-- A closure for which there is room starts no block. -/
theorem blockRecords_store_of_room (h : a.hasRoom c.footprint = true) :
    (a.store c).blockRecords = a.blockRecords := by
  obtain ⟨full, head, hblocks, -, hstore⟩ | ⟨hfull, -⟩ := blocks_store a c
  · -- No record tells what is in the last block, which is the only one that changes.
    rw [blockRecords_of_blocks hblocks, blockRecords_of_blocks hstore]
  · rw [hasRoom] at h
    split at h
    · exact absurd (hfull _ ‹_›) (Nat.not_lt.2 (of_decide_eq_true h))
    · cases h

/-- A closure for which there is none starts the block that is logged. -/
theorem Packed.blockRecords_store_of_full (ha : a.Packed) (h : a.hasRoom c.footprint = false) :
    (a.store c).blockRecords =
      a.blockRecords ++ [.blockAllocated (a.blocks.size + 1) a.bytes] := by
  obtain ⟨full, head, hblocks, hroom, -⟩ | ⟨-, hstore⟩ := blocks_store a c
  · have hback : a.blocks.back? = some head := by rw [hblocks, Array.back?_push]
    rw [hasRoom, hback] at h
    exact absurd hroom (of_decide_eq_false h)
  · rw [blockRecords_of_blocks hstore, blockRecords, ha.bytes_eq]

end Arena

namespace Arenas

/-- One thing that evaluators do to an arena, and what they log: a closure is stored, and the log
tells if that starts a new block. -/
inductive Logs (site : Site) : List Log.Event → Arenas → Arenas → Prop
  | stored {w : Arenas} {c : Closure ArenaRef} : CanHold w site c.footprint →
    (w.arena site).hasRoom c.footprint = true →
    Logs site [] w (w.modify site (·.store c))
  | grown {w : Arenas} {c : Closure ArenaRef} : CanHold w site c.footprint →
    (w.arena site).hasRoom c.footprint = false →
    Logs site [.blockAllocated ((w.arena site).blocks.size + 1) (w.arena site).bytes] w
      (w.modify site (·.store c))

variable {site : Site} {c : Closure ArenaRef} {m m' : Machine Arenas}

/-- Of a closure that is stored, the block that it starts is logged, if it starts one. -/
theorem logs_alloc (site : Site) (c : Closure ArenaRef) :
    Act.Logs (Logs site) (alloc site c) := by
  intro m
  -- What becomes of the arenas is known from `store_of_alloc`; the runs are computed for their log.
  by_cases hcap : (m.store.arena site).capacity < c.footprint
  · have hrun : alloc site c m = .error
        (.violation (.oversizeAllocation c.footprint (m.store.arena site).capacity))
        (m.failed (.violation
          (.oversizeAllocation c.footprint (m.store.arena site).capacity))) := by
      simp only [alloc, Bind.bind, EStateM.bind, Act.read, if_pos hcap]
      rfl
    rw [hrun]
    exact ⟨m, .refl m, rfl⟩
  cases hroom : (m.store.arena site).hasRoom c.footprint with
  | true =>
    have hrun : alloc site c m = .ok ((m.store.arena site).nextRef site)
        ⟨m.store.modify site (·.place c), m.journal⟩ := by
      simp only [alloc, Bind.bind, EStateM.bind, Act.read, if_neg hcap, hroom]
      rfl
    obtain ⟨hhold, hstore⟩ := store_of_alloc hrun
    rw [hrun]
    refine ⟨[], ?_, rfl⟩
    rw [hstore]
    exact .single (.stored hhold hroom)
  | false =>
    by_cases hres : (m.store.arena site).blockReservation < reservationBound
    · have hrun : alloc site c m = .ok
          (((m.store.modify site Arena.addBlock).arena site).nextRef site)
          ⟨(m.store.modify site Arena.addBlock).modify site (·.place c), m.journal.record
            (.blockAllocated ((m.store.arena site).blocks.size + 1)
              (m.store.arena site).bytes)⟩ := by
        simp only [alloc, Bind.bind, EStateM.bind, Act.read, if_neg hcap, hroom,
          Bool.false_eq_true, if_false, grow_of_reservation hres]
        rfl
      obtain ⟨hhold, hstore⟩ := store_of_alloc hrun
      rw [hrun]
      refine ⟨[_], ?_, rfl⟩
      rw [hstore]
      exact .single (.grown hhold hroom)
    · rw [alloc_of_overflow (Nat.not_lt.1 hcap) hroom hres]
      exact ⟨m, .refl m, rfl⟩

/-- Looking at a closure logs nothing but the violation by which it may stop. -/
theorem upholds_resolve_logs (site : Site) (h : ArenaRef) (m : Machine Arenas) :
    Act.Upholds (m.Reaches (Logs site)) (m.Halts (Logs site)) (fun _ => True) (resolve site h) := by
  rw [resolve]
  split
  · exact Act.upholds_violate (Fault.allowed_reaches m _)
  · refine (Act.upholds_read _).bind fun epoch _ => ?_
    split
    · exact Act.upholds_violate (Fault.allowed_reaches m _)
    · refine (Act.upholds_read _).bind fun c _ => ?_
      cases c with
      | some c => exact .pure trivial
      | none => exact Act.upholds_violate (Fault.allowed_reaches m _)

theorem level_of_logs (es : List Log.Event) (w w' : Arenas) (h : Logs site es w w') :
    ∀ e ∈ es, e.level = .debug := by
  cases h with
  | stored => exact fun e he => absurd he List.not_mem_nil
  | grown =>
    intro e he
    rw [List.mem_singleton.1 he]
    rfl

/-- What an evaluator does leaves a trace in its arena. -/
theorem logs (site : Site) : Host.Logs (W := Arenas) (Logs site) (· = site) where
  operates m :=
    { alloc := fun c hs => hs ▸ (logs_alloc _ c).upholds m
      resolve := fun h hs => hs ▸ upholds_resolve_logs _ h m
      retain := fun _ _ hn => hn
      release := fun _ _ hn => hn
      release_failed := fun _ _ _ hn => hn
      describe := fun _ => .pure trivial }
  level_ne es w w' hstep e he := by
    rw [level_of_logs es w w' hstep e he]
    decide

/-- There is an arena, whose blocks are filled one after another. -/
def Ready (site : Site) (w : Arenas) : Prop := site < w.toArray.size ∧ (w.arena site).Packed

theorem ready_of_logs (es : List Log.Event) (w w' : Arenas) (hw : Ready site w)
    (h : Logs site es w w') : Ready site w' ∧ Logs site es w w' := by
  refine ⟨?_, h⟩
  cases h with
  | stored hhold | grown hhold =>
    refine ⟨(size_modify ..).symm ▸ hw.1, ?_⟩
    rw [arena_modify hw.1]
    exact hw.2.store hhold.2.1

/-- A new arena. -/
theorem ready_withArena (capacity : Nat) : Ready 0 (withArena {} capacity) :=
  ⟨Nat.zero_lt_one, Arena.packed_empty capacity 0⟩

/-- What a trace logs are the blocks that it adds. -/
theorem blockRecords_of_trace {es : List Log.Event} {w w' : Arenas} (hw : Ready site w)
    (h : Trace (Logs site) w es w') : Ready site w' ∧
      (w'.arena site).blockRecords = (w.arena site).blockRecords ++ es := by
  induction h with
  | refl => exact ⟨hw, (List.append_nil _).symm⟩
  | tail _ hstep ih =>
    obtain ⟨hready, hrecords⟩ := ih
    refine ⟨(ready_of_logs _ _ _ hready hstep).1, ?_⟩
    cases hstep with
    | stored _ hroom =>
      rw [arena_modify hready.1, Arena.blockRecords_store_of_room hroom, hrecords, List.append_nil]
    | grown _ hroom =>
      rw [arena_modify hready.1, hready.2.blockRecords_store_of_full hroom, hrecords,
        List.append_assoc]

/-! ### Sessions -/

open Session

/-- What is logged when an arena is opened are its first blocks. -/
theorem accounts_open (limits : Limits) :
    (∃ es, Trace (Logs 0) (withArena {} limits.blockCapacity) es
        (opened Arenas .all limits).machine.store ∧
      ((start .all : Session Arenas ArenaRef).step 0 (some (.new limits))).1.Accounts es) ∧
      (opened Arenas .all limits).Logging (Ready 0) (· = 0) := by
  have hbuild (m : Machine Arenas) : Act.Upholds (m.Reaches (Logs 0)) (m.Halts (Logs 0))
      (fun e : Evaluator ArenaRef => e.site = 0) (Singletons.build (alloc 0) >>= fun singletons =>
        pure { site := 0, singletons, nesting := limits.nesting }) :=
    (((logs 0).operates m).backend rfl).build.bind fun _ _ => .pure rfl
  obtain ⟨⟨es, htrace, haccounts⟩, hlogs, hseats⟩ := Session.accounts_open (A := (· = 0))
    (logs 0).level_ne limits (openArena_eq limits _) hbuild
  exact ⟨⟨es, htrace, haccounts⟩, hlogs, hseats,
    (blockRecords_of_trace (ready_withArena limits.blockCapacity) htrace).1⟩

variable {s : Session Arenas ArenaRef}

end Arenas
end ChurchStore
