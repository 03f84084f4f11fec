import ChurchStore.Proofs.Simulation.Run

/-!
# Recorded stores

A store that also keeps a record of what was done with it: for each primitive operation the store
and the held handles as they were just before it. An evaluator on a recorded store does what it
does on the store alone, and the record reaches into all that it does: every application within an
application is there, and what was done before a fault. So what holds of all entries of the record
holds at every moment of a run.
-/

namespace ChurchStore

open Session

/-- A primitive operation. -/
inductive Deed (H : Type) where
  | alloc (c : Closure H)
  | resolve (h : H)
  | retain (h : H)
  | release (h : H)
  | describe (h : H)

namespace Deed

variable {H K : Type}

def map (f : H → K) : Deed H → Deed K
  | alloc c => alloc (c.map f)
  | resolve h => resolve (f h)
  | retain h => retain (f h)
  | release h => release (f h)
  | describe h => describe (f h)

/-- The handles that the operation is given. -/
def handles : Deed H → List H
  | alloc c => c.captures
  | resolve h | retain h | release h | describe h => [h]

/-- The handles that the operation uses up. -/
def used : Deed H → List H
  | alloc c => c.captures
  | release h => [h]
  | resolve _ | retain _ | describe _ => []

end Deed

/-- A primitive operation, and the store and the held handles just before it. -/
structure Moment (W H : Type) where
  store : W
  held : Multiset H
  deed : Deed H

/-- A store with a record of its past. -/
structure Recorded (W H : Type) where
  store : W
  /-- The handles that are held. -/
  held : Multiset H := 0
  /-- The moments so far, the last one first. -/
  past : List (Moment W H) := []

namespace Recorded

variable {W V H G α : Type}

theorem singleton_le_map {held : Multiset (H × G)} {p : H × G} (hp : p ∈ held) :
    (([p.1] : List H) : Multiset H) ≤ held.map Prod.fst :=
  Multiset.singleton_le.2 (Multiset.mem_map_of_mem Prod.fst hp)

variable [DecidableEq H]

/-- An operation leads to the store `v` and hands over the handles of `given`. -/
def next (w : Recorded W H) (deed : Deed H) (v : W) (given : Multiset H) : Recorded W H where
  store := v
  held := given + (w.held - deed.used)
  past := ⟨w.store, w.held, deed⟩ :: w.past

/-- Carries out an operation, whose answer hands over handles, and records it. -/
def carryOut (deed : Deed H) (given : α → Multiset H) (op : Act W α) : Act (Recorded W H) α :=
  fun ⟨w, journal⟩ =>
    match op ⟨w.store, journal⟩ with
    | .ok a m => .ok a ⟨w.next deed m.store (given a), m.journal⟩
    | .error f m => .error f ⟨w.next deed m.store 0, m.journal⟩

variable [Host W H] [Host V G]

/-- Opens an evaluator, which holds its builtin functions. -/
def openRecorded (limits : Limits) : Act (Recorded W H) (Evaluator H) := fun ⟨w, journal⟩ =>
  match Host.openWith limits ⟨w.store, journal⟩ with
  | .ok e m =>
    let builtins : Multiset H := Builtin.all.map e.singletons.get
    .ok e ⟨⟨m.store, builtins + w.held, w.past⟩, m.journal⟩
  | .error f m => .error f ⟨⟨m.store, w.held, w.past⟩, m.journal⟩

/-- A recorded store does what the store does; only resets are left out. -/
instance : Host (Recorded W H) H where
  kind := Backend.kind W
  alloc site c := carryOut (.alloc c) ({·}) (Backend.alloc site c)
  resolve site h := carryOut (.resolve h) (·.captures) (Backend.resolve site h)
  retain h w := w.next (.retain h) (Backend.retain h w.store) {h}
  release h w := w.next (.release h) (Backend.release h w.store) 0
  same := Backend.same W
  stats site w := Backend.stats site w.store
  handleBytes := Backend.handleBytes W
  initial := ⟨Host.initial, 0, []⟩
  openWith := openRecorded
  reset? := none
  describe h := carryOut (.describe h) (fun _ => 0) (Host.describe h)
  extent site w := Host.extent site w.store
  ledger? site w := Host.ledger? site w.store

/-- The store of a moment is related to another one, and the operation is given held handles. -/
def Upheld (S : Simulation W V) (m : Moment W H) : Prop :=
  ∃ v held, S.Rel m.store v held ∧ m.held = held.map Prod.fst ∧
    (m.deed.handles : Multiset H) ≤ m.held

/-- The record is true, and its moments were upheld. -/
structure Faithful (S : Simulation W V) (w : Recorded W H) (v : V) (held : Multiset (H × G)) :
    Prop where
  rel : S.Rel w.store v held
  held_eq : w.held = held.map Prod.fst
  upheld : ∀ m ∈ w.past, Upheld S m

variable {S : Simulation W V} {w : Recorded W H} {u : W} {v v' : V}
  {held held' lent : Multiset (H × G)}

/-- One more operation keeps the record true. -/
theorem Faithful.next (h : Faithful S w v held) (deed : Deed H) (used given : Multiset (H × G))
    (hheld : held = used + lent) (hheld' : held' = given + lent)
    (hused : (deed.used : Multiset H) = used.map Prod.fst)
    (hhandles : (deed.handles : Multiset H) ≤ held.map Prod.fst) (hrel : S.Rel u v' held') :
    Faithful S (w.next deed u (given.map Prod.fst)) v' held' where
  rel := hrel
  held_eq := by
    rw [Recorded.next, h.held_eq, hused, hheld, hheld', Multiset.map_add, Multiset.map_add]
    simp only
    rw [Multiset.add_comm (used.map Prod.fst), Multiset.add_sub_cancel_right]
  upheld := by
    intro m hm
    rcases List.mem_cons.1 hm with rfl | hm
    · refine ⟨v, held, h.rel, h.held_eq, ?_⟩
      rw [h.held_eq]
      exact hhandles
    · exact h.upheld m hm

/-- A simulation of the store is one of the recorded store. -/
def simulation (S : Simulation W V) : Simulation (Recorded W H) V where
  left := S.left
  right := S.right
  Rel := Faithful S
  Faulty := S.Faulty
  retain := by
    intro w v held p h hp
    exact h.next (.retain p.1) 0 {p} (Multiset.zero_add held).symm
      (Multiset.singleton_add p held).symm rfl (singleton_le_map hp) (S.retain h.rel hp)
  release := by
    intro w v held p h
    exact h.next (.release p.1) {p} 0 (Multiset.singleton_add p held).symm
      (Multiset.zero_add held).symm rfl (singleton_le_map (Multiset.mem_cons_self p held))
      (S.release h.rel)
  alloc := by
    intro c lent ⟨w, j⟩ n h
    have hcaptures : ((c.map Prod.fst).captures : Multiset H) =
        (c.captures : Multiset (H × G)).map Prod.fst := by
      rw [Closure.captures_map, Multiset.map_coe]
    have hle : ((c.map Prod.fst).captures : Multiset H) ≤ (c.captures + lent).map Prod.fst := by
      rw [Multiset.map_add, hcaptures]
      exact Multiset.le_add_right ..
    have hnone : lent = 0 + lent := (Multiset.zero_add lent).symm
    simp only [Backend.alloc, carryOut]
    obtain ⟨a, b, m', n', hx, hy, hrel⟩ | ⟨f, m', n', hx, hy, hf, hrel⟩ :=
      Coupled.cases (S.alloc c lent) (s := ⟨w.store, j⟩) (t := n) h.rel
    · simp only [hx, hy]
      exact h.next (.alloc _) c.captures {(a, b)} rfl (Multiset.singleton_add ..).symm hcaptures
        hle hrel
    · simp only [hx, hy]
      exact ⟨trivial, hf, h.next (.alloc _) c.captures 0 rfl hnone hcaptures hle hrel⟩
  resolve := by
    intro p lent hp ⟨w, j⟩ n h
    have hnone : lent = 0 + lent := (Multiset.zero_add lent).symm
    simp only [Backend.resolve, carryOut]
    obtain ⟨_, _, m', n', hx, hy, c, rfl, rfl, hrel⟩ | ⟨f, m', n', hx, hy, hf, hrel⟩ :=
      Coupled.cases (S.resolve hp) (s := ⟨w.store, j⟩) (t := n) h.rel
    · simp only [hx, hy]
      refine ⟨c, rfl, rfl, ?_⟩
      rw [Closure.captures_map, ← Multiset.map_coe]
      exact h.next (.resolve p.1) 0 c.captures hnone rfl rfl (singleton_le_map hp) hrel
    · simp only [hx, hy]
      exact ⟨trivial, hf, h.next (.resolve p.1) 0 0 hnone hnone rfl (singleton_le_map hp) hrel⟩
  same h hp hq := S.same h.rel hp hq
  describe := by
    intro p lent hp ⟨w, j⟩ n h
    have hnone : lent = 0 + lent := (Multiset.zero_add lent).symm
    simp only [Host.describe, carryOut]
    obtain ⟨a, b, m', n', hx, hy, hrel⟩ | ⟨f, m', n', hx, hy, hf, hrel⟩ :=
      Coupled.cases (S.describe hp) (s := ⟨w.store, j⟩) (t := n) h.rel
    · simp only [hx, hy]
      exact h.next (.describe p.1) 0 0 hnone hnone rfl (singleton_le_map hp) hrel
    · simp only [hx, hy]
      exact ⟨trivial, hf, h.next (.describe p.1) 0 0 hnone hnone rfl (singleton_le_map hp) hrel⟩
  handleBytes_eq := S.handleBytes_eq

/-- An evaluator that can be opened on a store can be opened on the recorded store. -/
theorem opens {limits : Limits} {x : W} {y : V} (h : S.Opens limits x y) :
    (simulation S).Opens limits ⟨x, 0, []⟩ y := by
  intro ⟨w, j⟩ n ⟨hw, hn⟩
  simp only at hw
  subst hw
  simp only [Host.openWith, openRecorded]
  obtain ⟨e, d, m', n', hx, hy, hleft, hright, hnesting, hholds⟩ | ⟨f, m', n', hx, hy, -⟩ :=
    Coupled.cases h (s := ⟨x, j⟩) (t := n) ⟨rfl, hn⟩
  · simp only [hx, hy]
    refine ⟨hleft, hright, hnesting, hholds, ?_, fun m hm => by cases hm⟩
    simp only [Simulation.builtinPairs, Multiset.map_coe, List.map_map, Multiset.add_zero]
    rfl
  · simp only [hx, hy]
    exact ⟨trivial, trivial⟩

end Recorded

/-- An operation whose answer and whose effect on the store do not depend on the log. -/
def Act.Quiet {W α : Type} (x : Act W α) : Prop :=
  Coupled (fun m n => m.store = n.store) x x (fun a b m n => a = b ∧ m.store = n.store)
    fun _ m n => m.store = n.store

namespace Act.Quiet

variable {W α β : Type} {x : Act W α}

theorem pure (a : α) : (Pure.pure a : Act W α).Quiet := Coupled.pure fun _ _ h => ⟨rfl, h⟩

theorem throw (f : Fault) : (MonadExcept.throw f : Act W α).Quiet := Coupled.throw fun _ _ h => h

theorem violate (v : Violation) : (Act.violate v : Act W α).Quiet :=
  Coupled.of_error fun _ _ h => ⟨_, _, _, rfl, rfl, h⟩

theorem emit (e : Log.Event) : (Act.emit e : Act W Unit).Quiet :=
  Coupled.of_ok fun _ _ h => ⟨_, _, _, _, rfl, rfl, rfl, h⟩

theorem read (f : W → α) : (Act.read f : Act W α).Quiet :=
  Coupled.of_ok fun _ _ h => ⟨_, _, _, _, rfl, rfl, congrArg f h, h⟩

theorem update (f : W → W) : (Act.update f : Act W Unit).Quiet :=
  Coupled.of_ok fun _ _ h => ⟨_, _, _, _, rfl, rfl, rfl, congrArg f h⟩

theorem bind {k : α → Act W β} (hx : x.Quiet) (hk : ∀ a, (k a).Quiet) : (x >>= k).Quiet := by
  refine Coupled.bind hx fun a b m n => ?_
  rintro ⟨rfl, h⟩
  exact hk a m n h

theorem onFault (f : W → W) (hx : x.Quiet) : (x.onFault f).Quiet := by
  intro m n hmn
  obtain ⟨a, b, m', n', hx', hy', rfl, h⟩ | ⟨e, m', n', hx', hy', h⟩ := Coupled.cases hx hmn
  · simp only [Act.onFault, hx', hy']
    exact ⟨trivial, h⟩
  · simp only [Act.onFault, hx', hy']
    exact ⟨trivial, congrArg f h⟩

end Act.Quiet

/-- A store in which nothing depends on the log. -/
structure Host.Quiet (W : Type) {H : Type} [Host W H] (site : Site) : Prop where
  alloc (c : Closure H) : (Backend.alloc site c : Act W H).Quiet
  resolve (h : H) : (Backend.resolve site h : Act W (Closure H)).Quiet
  describe (h : H) : (Host.describe h : Act W Placement).Quiet
  openWith (limits : Limits) : (Host.openWith limits : Act W (Evaluator H)).Quiet

namespace Recorded

variable {W V H G α : Type} [DecidableEq H] [Host W H] [Host V G]

/-- The record can be left out. -/
def unrecorded {site : Site} (hq : Host.Quiet W site) : Simulation (Recorded W H) W where
  left := site
  right := site
  Rel w v held := w.store = v ∧ ∀ p ∈ held, p.1 = p.2
  Faulty _ := True
  retain := by
    intro w v held p ⟨hw, hheld⟩ hp
    subst hw
    refine ⟨?_, fun q hq => ?_⟩
    · rw [← hheld p hp]
      rfl
    · rcases Multiset.mem_cons.1 hq with rfl | hq
      · exact hheld q hp
      · exact hheld q hq
  release := by
    intro w v held p ⟨hw, hheld⟩
    subst hw
    refine ⟨?_, fun q hq => hheld q (Multiset.mem_cons_of_mem hq)⟩
    rw [← hheld p (Multiset.mem_cons_self p held)]
    rfl
  alloc := by
    intro c lent ⟨w, j⟩ n ⟨hw, hheld⟩
    have hmap : c.map Prod.snd = c.map Prod.fst :=
      Closure.map_congr fun p hp => (hheld p (Multiset.mem_add.2 (.inl hp))).symm
    have hlent (p : H × H) (hp : p ∈ lent) := hheld p (Multiset.mem_add.2 (.inr hp))
    rw [hmap]
    simp only [Backend.alloc, carryOut]
    obtain ⟨a, b, m', n', hx, hy, rfl, hstore⟩ | ⟨f, m', n', hx, hy, hstore⟩ :=
      Coupled.cases (hq.alloc (c.map Prod.fst)) (s := ⟨w.store, j⟩) (t := n) hw
    · simp only [hx, hy]
      refine ⟨hstore, fun p hp => ?_⟩
      rcases Multiset.mem_cons.1 hp with rfl | hp
      · rfl
      · exact hlent p hp
    · simp only [hx, hy]
      exact ⟨trivial, trivial, hstore, hlent⟩
  resolve := by
    intro p lent hp ⟨w, j⟩ n ⟨hw, hheld⟩
    rw [← hheld p hp]
    simp only [Backend.resolve, carryOut]
    obtain ⟨c, _, m', n', hx, hy, rfl, hstore⟩ | ⟨f, m', n', hx, hy, hstore⟩ :=
      Coupled.cases (hq.resolve p.1) (s := ⟨w.store, j⟩) (t := n) hw
    · simp only [hx, hy]
      refine ⟨c.map fun h => (h, h), (Closure.map_diag (fun _ => rfl) c).symm,
        (Closure.map_diag (fun _ => rfl) c).symm, hstore, fun q hq => ?_⟩
      rcases Multiset.mem_add.1 hq with hq | hq
      · rw [Multiset.mem_coe, Closure.captures_map] at hq
        obtain ⟨h, -, rfl⟩ := List.mem_map.1 hq
        rfl
      · exact hheld q hq
    · simp only [hx, hy]
      exact ⟨trivial, trivial, hstore, hheld⟩
  same := by
    intro w v held p q ⟨_, hheld⟩ hp hq
    rw [← hheld p hp, ← hheld q hq]
    rfl
  describe := by
    intro p lent hp ⟨w, j⟩ n ⟨hw, hheld⟩
    rw [← hheld p hp]
    simp only [Host.describe, carryOut]
    obtain ⟨a, _, m', n', hx, hy, rfl, hstore⟩ | ⟨f, m', n', hx, hy, hstore⟩ :=
      Coupled.cases (hq.describe p.1) (s := ⟨w.store, j⟩) (t := n) hw
    · simp only [hx, hy]
      exact ⟨hstore, hheld⟩
    · simp only [hx, hy]
      exact ⟨trivial, trivial, hstore, hheld⟩
  handleBytes_eq := rfl

variable {S : Simulation W V} {limits : Limits} {x : W} {y : V}

theorem opens_unrecorded (h : S.Opens limits x y) (hq : Host.Quiet W S.left) :
    (unrecorded hq).Opens limits ⟨x, 0, []⟩ x := by
  intro ⟨w, j⟩ n ⟨hw, hn⟩
  simp only at hw
  subst hw
  simp only [Host.openWith, openRecorded]
  obtain ⟨e, _, m', n', hx, hy, rfl, hstore⟩ | ⟨f, m', n', hx, hy, -⟩ :=
    Coupled.cases (hq.openWith limits) (s := ⟨x, j⟩) (t := n) hn.symm
  · have hsite : e.site = S.left := by
      obtain ⟨e', d, m'', n'', hx', -, hleft, -⟩ | ⟨f, m'', n'', hx', -⟩ :=
        Coupled.cases h (s := ⟨x, j⟩) (t := ⟨y, {}⟩) ⟨rfl, rfl⟩
      · rw [hx] at hx'
        cases hx'
        exact hleft
      · rw [hx] at hx'
        cases hx'
    simp only [hx, hy]
    refine ⟨hsite, hsite, trivial, hstore, fun p hp => ?_⟩
    obtain ⟨b, -, rfl⟩ := List.mem_map.1 hp
    rfl
  · simp only [hx, hy]
    exact ⟨trivial, trivial⟩

/-- A recorded run ends in the same store as the run without a record, with the same handles, and
all its moments were upheld. -/
theorem of_opens (h : S.Opens limits x y) (hq : Host.Quiet W S.left) (filter : Log.Filter)
    {d : Evaluator G} (hd : ∃ n, Host.openWith limits ⟨y, { filter }⟩ = .ok d n)
    {commands : List Command} (hc : ∀ command ∈ commands, command.isOperation = true) :
    let t := (openedOn (⟨x, 0, []⟩ : Recorded W H) filter limits).after commands
    let s := (openedOn x filter limits).after commands
    t.machine.store.store = s.machine.store ∧ t.machine.store.held = s.handles ∧
      ∀ m ∈ t.machine.store.past, Upheld S m := by
  obtain ⟨e, hpaired⟩ := (opens h).paired filter hd
  obtain ⟨⟨c, hafter⟩, -⟩ := hpaired.after commands hc
  have hopen : ∃ e n, Host.openWith limits ⟨x, { filter }⟩ = .ok e n := by
    obtain ⟨n, hn⟩ := hd
    obtain ⟨e, _, m', _, hx, -⟩ | ⟨f, _, _, -, hy, -⟩ :=
      Coupled.cases h (s := ⟨x, { filter }⟩) (t := ⟨y, { filter }⟩) ⟨rfl, rfl⟩
    · exact ⟨e, m', hx⟩
    · rw [hn] at hy
      cases hy
  obtain ⟨e', hopen⟩ := hopen
  obtain ⟨_, hpaired'⟩ := (opens_unrecorded h hq).paired filter hopen
  obtain ⟨⟨c', hafter'⟩, -⟩ := hpaired'.after commands hc
  obtain ⟨l, ht, -, hl⟩ := hafter.exists_handles
  obtain ⟨l', ht', hs', hl'⟩ := hafter'.exists_handles
  have hfaithful := hafter.holds
  obtain ⟨hstore, hdiag⟩ := hafter'.holds
  rw [Multiset.zero_add, hl] at hfaithful
  rw [Multiset.zero_add, hl'] at hdiag
  refine ⟨hstore, ?_, hfaithful.upheld⟩
  rw [hfaithful.held_eq, Multiset.map_coe, ← ht, ht', hs']
  exact congrArg _ (List.map_congr_left fun p hp => hdiag p hp)

end Recorded

/-- The session on a recorded store, where nothing is on record yet. -/
def Session.recorded {W H : Type} (s : Session W H) : Session (Recorded W H) H :=
  ⟨⟨⟨s.machine.store, s.handles, []⟩, s.machine.journal⟩, s.seats, s.bindings⟩

end ChurchStore
