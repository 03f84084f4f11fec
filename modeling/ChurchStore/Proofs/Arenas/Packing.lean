import ChurchStore.Proofs.Arenas.Issuance
import Mathlib.Algebra.GroupWithZero.Nat
import Mathlib.Algebra.Order.BigOperators.Group.List
import Mathlib.Algebra.Order.Group.Nat

/-!
# How arenas fill their blocks

A closure goes into the last block if it fits there and starts a new block otherwise. So no block is
empty or holds more than its capacity, and the first closure of a block would not have fitted in the
block before. What the counters of an arena say can be read off its blocks at any time. All this is
kept by every change that something can make to the arenas, of which there are three kinds: an arena
is opened, one is cleared, or a closure is stored that fits.
-/

namespace ChurchStore

/-- The footprints of closures add up kind by kind. -/
theorem Closure.sum_footprint {H : Type} (cs : List (Closure H)) :
    (cs.map footprint).sum = (Kind.all.map fun k => cs.countP (·.kind = k) * k.footprint).sum := by
  induction cs with
  | nil => rfl
  | cons c cs ih =>
    have hcount (k : Kind) : (c :: cs).countP (·.kind = k) * k.footprint =
        (if c.kind = k then k.footprint else 0) + cs.countP (·.kind = k) * k.footprint := by
      rw [List.countP_cons, Nat.add_mul, Nat.add_comm, ite_mul]
      simp
    have hone :
        (Kind.all.map fun k => if c.kind = k then k.footprint else 0).sum = c.footprint := by
      have h : ∀ j ∈ Kind.all, (Kind.all.map fun k => if j = k then k.footprint else 0).sum =
          j.footprint := by decide
      exact h c.kind (Kind.mem_all _)
    simp only [hcount, List.sum_map_add, hone, ← ih, List.map_cons, List.sum_cons]

theorem Closure.headerWord_le_footprint {H : Type} (c : Closure H) : headerWord ≤ c.footprint := by
  have h : ∀ k ∈ Kind.all, headerWord ≤ k.footprint := by decide
  exact h c.kind (Kind.mem_all _)

/-- A closure more in a block. -/
def Block.add (b : Block) (c : Closure ArenaRef) : Block where
  closures := b.closures.push c
  used := b.used + c.footprint

/-- What a block holds is what it says, and is not more than there is room for. -/
structure Block.Filled (capacity : Nat) (b : Block) : Prop where
  nonempty : b.closures ≠ #[]
  used_eq : b.used = (b.closures.toList.map Closure.footprint).sum
  used_le : b.used ≤ capacity

namespace Block

variable {b : Block} {capacity : Nat} {c : Closure ArenaRef}

/-- The memory that is reserved for a block is enough. -/
theorem Filled.size_le (hb : b.Filled capacity) :
    b.closures.size ≤ capacity / Closure.headerWord := by
  have hsum : b.closures.size * Closure.headerWord ≤
      (b.closures.toList.map Closure.footprint).sum := by
    have h := List.card_nsmul_le_sum (b.closures.toList.map Closure.footprint) Closure.headerWord
      (fun n hn => by
        obtain ⟨c, -, rfl⟩ := List.mem_map.1 hn
        exact c.headerWord_le_footprint)
    simpa using h
  rw [Nat.le_div_iff_mul_le (by decide)]
  exact (hsum.trans hb.used_eq.ge).trans hb.used_le

theorem filled_add (hused : b.used = (b.closures.toList.map Closure.footprint).sum)
    (hle : b.used + c.footprint ≤ capacity) : (b.add c).Filled capacity where
  nonempty := Array.push_ne_empty
  used_eq := by
    simp only [add, Array.toList_push, List.map_append, List.sum_append, hused]
    rfl
  used_le := hle

theorem first_add (hb : b.closures ≠ #[]) (c : Closure ArenaRef) :
    (b.add c).closures[0]? = b.closures[0]? := by
  rw [add, Array.getElem?_push, if_neg]
  exact fun h => hb (Array.size_eq_zero_iff.1 h.symm)

end Block

namespace Arena

/-- The closures of an arena in the order in which they were stored. -/
def contents (a : Arena) : List (Closure ArenaRef) := a.blocks.toList.flatMap (·.closures.toList)

/-- The blocks of an arena are filled one after another, and its counters say what they hold. -/
structure Packed (a : Arena) : Prop where
  filled : ∀ b ∈ a.blocks, b.Filled a.capacity
  /-- The first closure of a block would not have fitted in the block before. -/
  overfull {i : Nat} {b next : Block} {c : Closure ArenaRef} : a.blocks[i]? = some b →
    a.blocks[i + 1]? = some next → next.closures[0]? = some c → a.capacity < b.used + c.footprint
  bytes_eq : a.bytes = (a.blocks.toList.map Block.used).sum
  alloc_eq (k : Kind) : a.ledger.alloc.get k = a.contents.countP (·.kind = k)
  free_eq (k : Kind) : a.ledger.free.get k = 0

/-- An arena with a closure more. -/
def store (a : Arena) (c : Closure ArenaRef) : Arena := (a.withRoom c.footprint).place c

variable {a : Arena} {c : Closure ArenaRef}

@[simp]
theorem capacity_store (a : Arena) (c : Closure ArenaRef) : (a.store c).capacity = a.capacity := by
  rw [store, withRoom]
  split <;> rfl

@[simp]
theorem bytes_store (a : Arena) (c : Closure ArenaRef) :
    (a.store c).bytes = a.bytes + c.footprint := by
  rw [store, withRoom]
  split <;> rfl

@[simp]
theorem ledger_store (a : Arena) (c : Closure ArenaRef) :
    (a.store c).ledger = a.ledger.recordAlloc c.kind := by
  rw [store, withRoom]
  split <;> rfl

/-- A closure goes into the last block if it fits there, and starts a block of its own otherwise. -/
theorem blocks_store (a : Arena) (c : Closure ArenaRef) :
    (∃ (full : Array Block) (head : Block), a.blocks = full.push head ∧
        head.used + c.footprint ≤ a.capacity ∧ (a.store c).blocks = full.push (head.add c)) ∨
      (∀ head, a.blocks.back? = some head → a.capacity < head.used + c.footprint) ∧
        (a.store c).blocks = a.blocks.push (Block.add {} c) := by
  have hlast (full : Array Block) (b : Block) :
      (full.push b).modify ((full.push b).size - 1) (·.add c) = full.push (b.add c) := by
    rw [Array.size_push, Nat.add_sub_cancel, Modify.modify_push_size]
  cases hroom : a.hasRoom c.footprint with
  | true =>
    left
    have hstore : a.store c = a.place c := by rw [store, withRoom, if_pos hroom]
    rw [hasRoom] at hroom
    split at hroom
    · rename_i head hback
      obtain ⟨full, hblocks⟩ := Array.back?_eq_some_iff.1 hback
      refine ⟨full, head, hblocks, of_decide_eq_true hroom, ?_⟩
      rw [hstore, place, hblocks]
      exact hlast full head
    · cases hroom
  | false =>
    right
    have hstore : a.store c = a.addBlock.place c := by
      rw [store, withRoom, hroom, if_neg Bool.false_ne_true]
    refine ⟨fun head hback => ?_, ?_⟩
    · rw [hasRoom, hback] at hroom
      exact Nat.not_le.1 (of_decide_eq_false hroom)
    · rw [hstore]
      exact hlast a.blocks {}

theorem contents_store (a : Arena) (c : Closure ArenaRef) :
    (a.store c).contents = a.contents ++ [c] := by
  rw [contents, contents]
  obtain ⟨full, head, hblocks, -, hstore⟩ | ⟨-, hstore⟩ := blocks_store a c
  · rw [hstore, hblocks]
    simp [Block.add]
  · rw [hstore]
    simp [Block.add]

/-- The closures of an arena take as many bytes as their kinds say. -/
theorem Packed.bytes_eq_sum (ha : a.Packed) :
    a.bytes = (Kind.all.map fun k => a.ledger.alloc.get k * k.footprint).sum := by
  have hcontents : a.bytes = (a.contents.map Closure.footprint).sum := by
    rw [ha.bytes_eq, contents, List.map_flatMap, List.flatMap, List.sum_flatten, List.map_map]
    refine congrArg List.sum (List.map_congr_left fun b hb => ?_)
    exact (ha.filled b (Array.mem_toList_iff.1 hb)).used_eq
  simp only [hcontents, Closure.sum_footprint, ha.alloc_eq]

/-- Fewer bytes than the largest closure takes are left unused in a block that is not the last. -/
theorem Packed.wasted_lt (ha : a.Packed) {i : Nat} {b : Block} (hi : i + 1 < a.blocks.size)
    (hb : a.blocks[i]? = some b) : a.capacity < b.used + Closure.maxFootprint := by
  have hnext := Array.getElem?_eq_getElem hi
  obtain ⟨hne, -⟩ := ha.filled _ (Array.mem_of_getElem? hnext)
  have hfirst := Array.getElem?_eq_getElem (Array.size_pos_iff.2 hne)
  exact (ha.overfull hb hnext hfirst).trans_le
    (Nat.add_le_add_left (Closure.footprint_le_maxFootprint _) _)

/-- An arena without blocks. -/
theorem packed_empty (capacity : Nat) (epoch : UInt32) : Packed { capacity, epoch } where
  filled _ hb := absurd hb (Array.not_mem_empty _)
  overfull hb := nomatch hb
  bytes_eq := rfl
  alloc_eq _ := PerKind.get_const ..
  free_eq _ := PerKind.get_const ..

/-- Storing a closure that fits. -/
theorem Packed.store (ha : a.Packed) (hfits : c.footprint ≤ a.capacity) : (a.store c).Packed where
  filled b hb := by
    rw [capacity_store]
    obtain ⟨full, head, hblocks, hroom, hstore⟩ | ⟨-, hstore⟩ := blocks_store a c
    · rw [hstore] at hb
      have hold (b : Block) (hb : b ∈ full.push head) := ha.filled b (hblocks ▸ hb)
      rcases Array.mem_push.1 hb with hb | rfl
      · exact hold b (Array.mem_push.2 (.inl hb))
      · exact Block.filled_add (hold head (Array.mem_push.2 (.inr rfl))).used_eq hroom
    · rw [hstore] at hb
      rcases Array.mem_push.1 hb with hb | rfl
      · exact ha.filled b hb
      · exact Block.filled_add rfl (by rwa [Nat.zero_add])
  overfull {i b next first} hb hnext hfirst := by
    rw [capacity_store]
    obtain ⟨full, head, hblocks, hroom, hstore⟩ | ⟨hfull, hstore⟩ := blocks_store a c
    · rw [hstore, Array.getElem?_push] at hb hnext
      have hold (j : Nat) : a.blocks[j]? = if j = full.size then some head else full[j]? := by
        rw [hblocks, Array.getElem?_push]
      by_cases hlast : i + 1 = full.size
      · rw [if_neg (by omega)] at hb
        rw [if_pos hlast] at hnext
        cases hnext
        have hhead : a.blocks[i + 1]? = some head := by rw [hold, if_pos hlast]
        rw [Block.first_add (ha.filled head (Array.mem_of_getElem? hhead)).nonempty] at hfirst
        exact ha.overfull (by rwa [hold, if_neg (by omega)]) hhead hfirst
      · rw [if_neg hlast] at hnext
        obtain ⟨hlt, -⟩ := Array.getElem?_eq_some_iff.1 hnext
        rw [if_neg (by omega)] at hb
        refine ha.overfull (i := i) ?_ ?_ hfirst
        · rwa [hold, if_neg (by omega)]
        · rwa [hold, if_neg hlast]
    · rw [hstore, Array.getElem?_push] at hb hnext
      by_cases hlast : i + 1 = a.blocks.size
      · rw [if_neg (by omega)] at hb
        rw [if_pos hlast] at hnext
        cases hnext
        cases hfirst
        exact hfull b (by rwa [Array.back?, ← hlast, Nat.add_sub_cancel])
      · rw [if_neg hlast] at hnext
        obtain ⟨hlt, -⟩ := Array.getElem?_eq_some_iff.1 hnext
        rw [if_neg (by omega)] at hb
        exact ha.overfull hb hnext hfirst
  bytes_eq := by
    rw [bytes_store, ha.bytes_eq]
    obtain ⟨full, head, hblocks, -, hstore⟩ | ⟨-, hstore⟩ := blocks_store a c
    · rw [hstore, hblocks]
      simp [Block.add, Nat.add_assoc]
    · rw [hstore]
      simp [Block.add]
  alloc_eq k := by
    rw [ledger_store, Ledger.alloc_get_recordAlloc, ha.alloc_eq, contents_store, List.countP_append,
      List.countP_singleton]
    simp
  free_eq k := by
    rw [ledger_store]
    exact ha.free_eq k

end Arena

namespace Arenas

/-- One thing that can become of the arenas. -/
inductive Change (w : Arenas) : Arenas → Prop
  | opened (capacity : Nat) : Change w (w.withArena capacity)
  | stored {site : Site} {c : Closure ArenaRef} : CanHold w site c.footprint →
    Change w (w.modify site (·.store c))
  | cleared {site : Site} : site < w.toArray.size → Change w (w.modify site Arena.cleared)

/-- What can become of the arenas. -/
abbrev Changes : Arenas → Arenas → Prop := Relation.ReflTransGen Change

variable {w w' : Arenas} {site : Site} {c : Closure ArenaRef} {m m' : Machine Arenas}

theorem size_le_of_change (h : Change w w') : w.toArray.size ≤ w'.toArray.size := by
  cases h with
  | opened capacity => rw [size_withArena]; exact Nat.le_succ _
  | stored _ => exact (size_modify ..).ge
  | cleared _ => exact (size_modify ..).ge

theorem capacity_of_change (h : Change w w') (hs : site < w.toArray.size) :
    (w'.arena site).capacity = (w.arena site).capacity := by
  cases h with
  | opened capacity =>
    rw [withArena, arena, Array.getElem?_push, if_neg (Nat.ne_of_lt hs), arena]
  | @stored site' c hhold =>
    by_cases hsite : site' = site
    · subst hsite
      rw [arena_modify hs, Arena.capacity_store]
    · rw [arena_modify_of_ne hsite]
  | @cleared site' hs' =>
    by_cases hsite : site' = site
    · subst hsite
      rw [arena_modify hs, Arena.cleared]
    · rw [arena_modify_of_ne hsite]

/-- Every change keeps the blocks of all arenas filled one after another. -/
theorem packed_of_change (h : Change w w') (hw : ∀ site, (w.arena site).Packed) (site : Site) :
    (w'.arena site).Packed := by
  cases h with
  | opened capacity =>
    by_cases hsite : site = w.toArray.size
    · rw [withArena, arena, Array.getElem?_push, if_pos hsite]
      exact Arena.packed_empty capacity 0
    · rw [withArena, arena, Array.getElem?_push, if_neg hsite]
      exact hw site
  | @stored site' c hhold =>
    by_cases hsite : site' = site
    · subst hsite
      rw [arena_modify hhold.1]
      exact (hw site').store hhold.2.1
    · rw [arena_modify_of_ne hsite]
      exact hw site
  | @cleared site' hs =>
    by_cases hsite : site' = site
    · subst hsite
      rw [arena_modify hs]
      exact Arena.packed_empty _ _
    · rw [arena_modify_of_ne hsite]
      exact hw site

theorem size_le_of_changes (h : Changes w w') : w.toArray.size ≤ w'.toArray.size := by
  induction h with
  | refl => exact Nat.le_refl _
  | tail _ hstep ih => exact ih.trans (size_le_of_change hstep)

theorem capacity_of_changes (h : Changes w w') (hs : site < w.toArray.size) :
    (w'.arena site).capacity = (w.arena site).capacity := by
  induction h with
  | refl => rfl
  | tail hsteps hstep ih =>
    have hsize := hs.trans_le (size_le_of_changes hsteps)
    exact (capacity_of_change hstep hsize).trans ih

theorem packed_of_changes (h : Changes w w') (hw : ∀ site, (w.arena site).Packed) (site : Site) :
    (w'.arena site).Packed := by
  induction h generalizing site with
  | refl => exact hw site
  | tail _ hstep ih => exact packed_of_change hstep ih site

/-! ### What operations change -/

/-- A closure is stored if there can be room for it, and nothing changes otherwise. -/
theorem alloc_cases (site : Site) (c : Closure ArenaRef) (m : Machine Arenas) :
    (CanHold m.store site c.footprint ∧
        ∃ h j, alloc site c m = .ok h ⟨m.store.modify site (·.store c), j⟩) ∨
      ¬ CanHold m.store site c.footprint ∧ ∃ f j, alloc site c m = .error f ⟨m.store, j⟩ := by
  by_cases hhold : CanHold m.store site c.footprint
  · obtain ⟨⟨w, j⟩, hok, rfl⟩ := alloc_of_fits hhold.1 hhold.2.1 hhold.2.2
    exact .inl ⟨hhold, _, j, hok⟩
  · exact .inr ⟨hhold, alloc_of_not_canHold hhold⟩

theorem store_of_alloc {h : ArenaRef} (hrun : alloc site c m = .ok h m') :
    CanHold m.store site c.footprint ∧ m'.store = m.store.modify site (·.store c) := by
  obtain ⟨hhold, h, j, hok⟩ | ⟨-, f, j, herror⟩ := alloc_cases site c m
  · rw [hok] at hrun
    cases hrun
    exact ⟨hhold, rfl⟩
  · rw [herror] at hrun
    cases hrun

theorem store_of_alloc_error {f : Fault} (hrun : alloc site c m = .error f m') :
    m'.store = m.store := by
  obtain ⟨-, h, j, hok⟩ | ⟨-, f, j, herror⟩ := alloc_cases site c m
  · rw [hok] at hrun
    cases hrun
  · rw [herror] at hrun
    cases hrun
    rfl

theorem store_of_resolve {h : ArenaRef} (hrun : resolve site h m = .ok c m') :
    m'.store = m.store := by
  obtain ⟨x, hok, -⟩ | ⟨f, j, herror⟩ := resolve_cases site h m
  · rw [hok] at hrun
    cases hrun
    rfl
  · rw [herror] at hrun
    cases hrun

theorem store_of_resolve_error {h : ArenaRef} {f : Fault}
    (hrun : resolve site h m = .error f m') : m'.store = m.store := by
  obtain ⟨x, hok, -⟩ | ⟨f, j, herror⟩ := resolve_cases site h m
  · rw [hok] at hrun
    cases hrun
  · rw [herror] at hrun
    cases hrun
    rfl

theorem changes_of_alloc {h : ArenaRef} (hrun : alloc site c m = .ok h m') :
    Changes m.store m'.store := by
  obtain ⟨hhold, hstore⟩ := store_of_alloc hrun
  rw [hstore]
  exact .single (.stored hhold)

/-- What every allocation keeps is kept when the builtin functions are stored. -/
theorem build_induction {J : Arenas → Prop} {t : Singletons ArenaRef}
    (hrun : Singletons.build (alloc site) m = .ok t m')
    (hstep : ∀ {c h n n'}, alloc site c n = .ok h n' → J n.store → J n'.store) (hm : J m.store) :
    J m'.store := by
  obtain ⟨zero, m₁, h₁, hrun⟩ := Act.of_bind_eq_ok hrun
  obtain ⟨inner, m₂, h₂, hrun⟩ := Act.of_bind_eq_ok hrun
  obtain ⟨succ, m₃, h₃, hrun⟩ := Act.of_bind_eq_ok hrun
  obtain ⟨inc, m₄, h₄, hrun⟩ := Act.of_bind_eq_ok hrun
  cases hrun
  exact hstep h₄ (hstep h₃ (hstep h₂ (hstep h₁ hm)))

theorem changes_of_build {t : Singletons ArenaRef}
    (hrun : Singletons.build (alloc site) m = .ok t m') : Changes m.store m'.store :=
  build_induction hrun (fun halloc h => h.trans (changes_of_alloc halloc)) .refl

theorem changes_of_reset {e e' : Evaluator ArenaRef}
    (hsite : e.site < m.store.toArray.size) (hrun : reset e m = .ok e' m') :
    Changes m.store m'.store := by
  rw [reset_eq] at hrun
  obtain ⟨t, m₀, hbuild, hrun⟩ := Act.of_bind_eq_ok hrun
  cases hrun
  exact .head (.cleared hsite) (changes_of_build hbuild)

namespace Chronicle

variable {s : Chronicle}

theorem changes_play (hs : s.Sound) (move : Move) :
    Changes s.machine.store (s.play move).machine.store := by
  cases move with
  | new limits =>
    have hopened := Change.opened (w := s.machine.store) limits.blockCapacity
    obtain ⟨t, m', hbuild, hrun⟩ | ⟨f, j, hrun⟩ := openArena_cases limits s.machine
    · rw [play, goOn, hrun]
      exact .head hopened (changes_of_build hbuild)
    · rw [play, goOn, hrun]
      exact .single hopened
  | alloc site c =>
    rw [play]
    split
    · exact .refl
    · rename_i c' _
      rw [goOn]
      obtain ⟨hhold, h, j, hrun⟩ | ⟨-, f, j, hrun⟩ := alloc_cases site c' s.machine
      · rw [hrun]
        exact .single (.stored hhold)
      · rw [hrun]
  | resolve site number =>
    rw [play]
    split
    · exact .refl
    · rename_i h _
      rw [goOn]
      obtain ⟨c, hrun, -⟩ | ⟨f, j, hrun⟩ := resolve_cases site h s.machine
      · rw [hrun]
      · rw [hrun]
  | reset number =>
    rw [play]
    split
    · exact .refl
    · rename_i e he
      have hsite := hs.evaluator_lt_size (Array.mem_of_getElem? he)
      obtain ⟨j, t, m', hbuild, hrun⟩ | ⟨f, j, hrun⟩ := reset_cases e hsite
      · rw [goOn, hrun]
        exact .head (.cleared hsite) (changes_of_build hbuild)
      · rw [goOn, hrun]
        exact .single (.cleared hsite)

theorem changes_after (hs : s.Sound) (moves : List Move) :
    Changes s.machine.store (s.after moves).machine.store := by
  induction moves generalizing s with
  | nil => exact .refl
  | cons move moves ih => exact (changes_play hs move).trans (ih (hs.play move))

end Chronicle

/-- An arena is opened only if its blocks have room for a word and can be reserved. -/
theorem canHold_of_openArena {limits : Limits} {e : Evaluator ArenaRef}
    (h : openArena limits m = .ok e m') :
    e.site = m.store.toArray.size ∧ Changes (m.store.withArena limits.blockCapacity) m'.store ∧
      CanHold (m.store.withArena limits.blockCapacity) e.site Closure.headerWord := by
  obtain ⟨t, n, hbuild, hrun⟩ | ⟨f, j, hrun⟩ := openArena_cases limits m
  · rw [hrun] at h
    cases h
    refine ⟨rfl, changes_of_build hbuild, ?_⟩
    obtain ⟨zero, m₁, hzero, -⟩ := Act.of_bind_eq_ok hbuild
    obtain ⟨hhold, -⟩ | ⟨-, f, j, herror⟩ := alloc_cases m.store.toArray.size Builtin.zero.closure
      ⟨m.store.withArena limits.blockCapacity, m.journal⟩
    · exact hhold
    · rw [herror] at hzero
      cases hzero
  · rw [hrun] at h
    cases h

/-- What remains true of an arena after it was opened. -/
structure Opened (w : Arenas) (site : Site) (capacity : Nat) : Prop where
  lt_size : site < w.toArray.size
  capacity_eq : (w.arena site).capacity = capacity
  word_le : Closure.headerWord ≤ capacity
  reservation_lt : (w.arena site).blockReservation < reservationBound

theorem Opened.of_changes {capacity : Nat} (hw : Opened w site capacity) (h : Changes w w') :
    Opened w' site capacity where
  lt_size := hw.lt_size.trans_le (size_le_of_changes h)
  capacity_eq := (capacity_of_changes h hw.lt_size).trans hw.capacity_eq
  word_le := hw.word_le
  reservation_lt := by
    rw [Arena.blockReservation, capacity_of_changes h hw.lt_size]
    exact hw.reservation_lt

theorem Opened.of_openArena {limits : Limits} {e : Evaluator ArenaRef}
    (h : openArena limits m = .ok e m') : Opened m'.store e.site limits.blockCapacity := by
  obtain ⟨hsite, hchanges, hlt, hword, hroom⟩ := canHold_of_openArena h
  have harena : (m.store.withArena limits.blockCapacity).arena e.site =
      { capacity := limits.blockCapacity } := by
    rw [withArena, arena, Array.getElem?_push, if_pos hsite]
    rfl
  rw [harena] at hword hroom
  refine Opened.of_changes ⟨hlt, by rw [harena], hword, ?_⟩ hchanges
  rw [harena]
  exact hroom.resolve_left Bool.false_ne_true

end Arenas

open Arenas in
/-- After whatever happened to an arena that was opened with blocks of some capacity, its blocks are
filled one after another, its counters say what they hold, and it refuses exactly the closures that
are larger than a block. -/
theorem arenas_stay_packed (filter : Log.Filter) (before moves : List Move) (limits : Limits)
    {e : Evaluator ArenaRef} {m : Machine Arenas}
    (h : openArena limits
      (Chronicle.after { machine := { store := {}, journal := { filter } } } before).machine =
        .ok e m) :
    let s := ((Chronicle.after { machine := { store := {}, journal := { filter } } } before).play
      (.new limits)).after moves
    let a := s.machine.store.arena e.site
    Closure.headerWord ≤ limits.blockCapacity ∧ a.capacity = limits.blockCapacity ∧ a.Packed ∧
      (∀ b ∈ a.blocks, b.closures.size ≤ limits.blockCapacity / Closure.headerWord) ∧
      (∀ i b, i + 1 < a.blocks.size → a.blocks[i]? = some b → limits.blockCapacity < b.used + 24) ∧
      a.bytes = (Kind.all.map fun k => a.ledger.alloc.get k * k.footprint).sum ∧
      ∀ c : Closure ArenaRef,
        if limits.blockCapacity < c.footprint then
          ∃ j, alloc e.site c s.machine =
            .error (.violation (.oversizeAllocation c.footprint limits.blockCapacity))
              ⟨s.machine.store, j⟩
        else ∃ h m, alloc e.site c s.machine = .ok h m := by
  intro s a
  have hstart := Chronicle.Sound.start filter
  have hplay := (hstart.after before).play (.new limits)
  have hopened : Opened s.machine.store e.site limits.blockCapacity := by
    refine Opened.of_changes ?_ (Chronicle.changes_after hplay moves)
    rw [Chronicle.play, Chronicle.goOn, h]
    exact .of_openArena h
  have hempty (site : Site) : (arena {} site).Packed := by
    rw [arena_of_size_le (Nat.zero_le site)]
    exact Arena.packed_empty 0 0
  have hpacked : a.Packed := packed_of_changes (((Chronicle.changes_after hstart before).trans
    (Chronicle.changes_play (hstart.after before) _)).trans (Chronicle.changes_after hplay moves))
      hempty e.site
  have hcapacity : a.capacity = limits.blockCapacity := hopened.capacity_eq
  refine ⟨hopened.word_le, hcapacity, hpacked, fun b hb => ?_, fun i b hi hb => ?_,
    hpacked.bytes_eq_sum, fun c => ?_⟩
  · exact hcapacity ▸ (hpacked.filled b hb).size_le
  · exact hcapacity ▸ hpacked.wasted_lt hi hb
  · split
    · rename_i hlt
      simp only [alloc, Bind.bind, EStateM.bind, Act.read, hopened.capacity_eq, if_pos hlt,
        Act.violate]
      exact ⟨_, rfl⟩
    · rename_i hle
      obtain ⟨-, h, j, hok⟩ | ⟨hnot, -⟩ := alloc_cases e.site c s.machine
      · exact ⟨h, _, hok⟩
      · exact absurd ⟨hopened.lt_size, hcapacity ▸ Nat.not_lt.1 hle, .inr hopened.reservation_lt⟩
          hnot

open Arenas in
/-- Blocks of 20 bytes have room for two words and waste four bytes each; a pair of captures is
refused, and after a reset the arena is filled anew. -/
theorem arenas_stay_packed_resetting :
    let s := ((Chronicle.after {} [.new { blockCapacity := 24 }]).play
      (.new { blockCapacity := 20 })).after [.alloc 1 (.intLiteral 5), .alloc 1 (.succInner 0 8),
        .reset 1, .alloc 1 .inc, .alloc 1 (.succPartial 0), .alloc 1 (.succInner 0 8)]
    let a := s.machine.store.arena 1
    (∃ e m, openArena { blockCapacity := 20 }
        (Chronicle.after {} [.new { blockCapacity := 24 }]).machine = .ok e m ∧ e.site = 1) ∧
      a.Packed ∧ a.epoch = 1 ∧ a.bytes = 56 ∧
      a.blocks.toList.map (fun b => (b.closures.size, b.used)) =
        [(2, 16), (2, 16), (1, 8), (1, 16)] ∧
      ∃ j, alloc 1 (.succInner ⟨0, 0, 0, 0⟩ ⟨0, 0, 0, 1⟩) s.machine =
        .error (.violation (.oversizeAllocation 24 20)) ⟨s.machine.store, j⟩ := by
  intro s a
  obtain ⟨e, m, h, hsite⟩ : ∃ e m, openArena { blockCapacity := 20 }
      (Chronicle.after {} [.new { blockCapacity := 24 }]).machine = .ok e m ∧ e.site = 1 :=
    ⟨_, _, rfl, rfl⟩
  obtain ⟨-, -, hpacked, -, -, -, hrefused⟩ := arenas_stay_packed .off
    [.new { blockCapacity := 24 }] [.alloc 1 (.intLiteral 5), .alloc 1 (.succInner 0 8),
      .reset 1, .alloc 1 .inc, .alloc 1 (.succPartial 0), .alloc 1 (.succInner 0 8)] _ h
  rw [hsite] at hpacked hrefused
  have hpair := hrefused (.succInner ⟨0, 0, 0, 0⟩ ⟨0, 0, 0, 1⟩)
  rw [if_pos (by decide)] at hpair
  exact ⟨⟨e, m, h, hsite⟩, hpacked, by decide +kernel, by decide +kernel, by decide +kernel, hpair⟩

end ChurchStore
