import ChurchStore.Proofs.Totals

/-!
# The two counters agree

A report can count on its own, with an entry for each kind from the first time that it is seen. A
ledger counts in fixed tables and is turned into a report on demand. Told the same allocations and
frees they say the same: a snapshot commutes with each record, so also with all of them. What they
say depends on how often each record was made only, and counting what is live stops at zero.
-/

namespace ChurchStore

/-- What a counter is told: a closure of some kind was allocated, or one was freed. -/
inductive Tally where
  | alloc (k : Kind)
  | free (k : Kind)
  deriving DecidableEq, Repr

namespace Tally

def kind : Tally → Kind
  | alloc k => k
  | free k => k

def isAlloc : Tally → Bool
  | alloc _ => true
  | free _ => false

def isFree : Tally → Bool
  | alloc _ => false
  | free _ => true

/-- The counters of its kind after one more record. -/
def bump : Tally → AllocFree → AllocFree
  | alloc _, af => { af with alloc := af.alloc + 1 }
  | free _, af => { af with free := af.free + 1 }

theorem bump_ne_empty (t : Tally) (af : AllocFree) : t.bump af ≠ {} := by
  cases t <;> simp [bump]

theorem countP_isAlloc_add_countP_isFree (ts : List Tally) :
    ts.countP isAlloc + ts.countP isFree = ts.length := by
  induction ts with
  | nil => rfl
  | cons t ts ih =>
    cases t <;> simp [List.countP_cons, isAlloc, isFree] <;> omega

/-- Every record of an allocation is of one kind. -/
theorem sum_count_alloc (ts : List Tally) :
    (Kind.all.map fun k => ts.count (alloc k)).sum = ts.countP isAlloc := by
  induction ts with
  | nil => rfl
  | cons t ts ih =>
    cases t with
    | alloc k =>
      have hone := k.sum_indicator
      simp only [List.count_cons, List.sum_map_add, ih, List.countP_cons, isAlloc]
      simpa using hone
    | free k => simp [ih, isAlloc]

theorem sum_count_free (ts : List Tally) :
    (Kind.all.map fun k => ts.count (free k)).sum = ts.countP isFree := by
  induction ts with
  | nil => rfl
  | cons t ts ih =>
    cases t with
    | alloc k => simp [ih, isFree]
    | free k =>
      have hone := k.sum_indicator
      simp only [List.count_cons, List.sum_map_add, ih, List.countP_cons, isFree]
      simpa using hone

end Tally

namespace AllocStats

def record (s : AllocStats) : Tally → AllocStats
  | .alloc k => s.recordAlloc k
  | .free k => s.recordFree k

def recordAll (s : AllocStats) (ts : List Tally) : AllocStats := ts.foldl record s

theorem record_eq (s : AllocStats) (t : Tally) :
    s.record t = { s with perKind := s.perKind.set t.kind (some (t.bump (s.kind t.kind))) } := by
  cases t <;> rfl

end AllocStats

namespace Ledger

def record (l : Ledger) : Tally → Ledger
  | .alloc k => l.recordAlloc k
  | .free k => l.recordFree k

def recordAll (l : Ledger) (ts : List Tally) : Ledger := ts.foldl record l

/-! ## One record -/

theorem kind_record_self (l : Ledger) (t : Tally) :
    (l.record t).kind t.kind = t.bump (l.kind t.kind) := by
  cases t <;> simp [record, recordAlloc, recordFree, kind, Tally.kind, Tally.bump]

theorem kind_record_of_ne (l : Ledger) {t : Tally} {k : Kind} (h : t.kind ≠ k) :
    (l.record t).kind k = l.kind k := by
  cases t <;> simp [record, recordAlloc, recordFree, kind, Tally.kind] at h ⊢ <;> simp [h]

theorem snapshot_empty : ({} : Ledger).snapshot = {} := rfl

/-- One record changes a ledger's report as it changes a report that counts on its own. -/
theorem snapshot_record (l : Ledger) (t : Tally) : (l.record t).snapshot = l.snapshot.record t := by
  rw [AllocStats.record_eq, kind_snapshot]
  unfold snapshot
  congr 1
  ext k : 1
  by_cases h : t.kind = k
  · subst h
    rw [PerKind.get_set_self, PerKind.get_ofFn, kind_record_self, if_neg (t.bump_ne_empty _)]
  · rw [PerKind.get_set_of_ne _ _ h, PerKind.get_ofFn, PerKind.get_ofFn, kind_record_of_ne l h]

/-! ## All records -/

theorem snapshot_recordAll (l : Ledger) (ts : List Tally) :
    (l.recordAll ts).snapshot = l.snapshot.recordAll ts := by
  induction ts generalizing l with
  | nil => rfl
  | cons t ts ih =>
    show ((l.record t).recordAll ts).snapshot = (l.snapshot.record t).recordAll ts
    rw [ih, snapshot_record]

theorem alloc_get_recordAll (l : Ledger) (ts : List Tally) (k : Kind) :
    (l.recordAll ts).alloc.get k = l.alloc.get k + ts.count (.alloc k) := by
  induction ts generalizing l with
  | nil => rfl
  | cons t ts ih =>
    show ((l.record t).recordAll ts).alloc.get k = _
    rw [ih, List.count_cons]
    cases t with
    | alloc j =>
      rw [record, alloc_get_recordAlloc]
      simp
      omega
    | free j => simp [record, recordFree]

theorem free_get_recordAll (l : Ledger) (ts : List Tally) (k : Kind) :
    (l.recordAll ts).free.get k = l.free.get k + ts.count (.free k) := by
  induction ts generalizing l with
  | nil => rfl
  | cons t ts ih =>
    show ((l.record t).recordAll ts).free.get k = _
    rw [ih, List.count_cons]
    cases t with
    | alloc j => simp [record, recordAlloc]
    | free j =>
      rw [record, free_get_recordFree]
      simp
      omega

theorem ext {l m : Ledger} (ha : ∀ k, l.alloc.get k = m.alloc.get k)
    (hf : ∀ k, l.free.get k = m.free.get k) : l = m := by
  cases l
  cases m
  congr 1
  · exact PerKind.ext ha
  · exact PerKind.ext hf

/-- The order of the records does not matter. -/
theorem recordAll_eq_of_count_eq (l : Ledger) {ts us : List Tally}
    (h : ∀ t, us.count t = ts.count t) : l.recordAll us = l.recordAll ts :=
  ext (fun k => by rw [alloc_get_recordAll, alloc_get_recordAll, h])
    fun k => by rw [free_get_recordAll, free_get_recordAll, h]

variable (ts : List Tally)

theorem kind_recordAll_empty (k : Kind) :
    (({} : Ledger).recordAll ts).kind k = ⟨ts.count (.alloc k), ts.count (.free k)⟩ := by
  unfold kind
  rw [alloc_get_recordAll, free_get_recordAll, alloc_get_empty, Nat.zero_add]
  simp

theorem total_alloc_recordAll_empty :
    (({} : Ledger).recordAll ts).alloc.total = ts.countP Tally.isAlloc := by
  rw [PerKind.total_eq_add (alloc_get_recordAll {} ts), Tally.sum_count_alloc]
  exact Nat.zero_add _

theorem total_free_recordAll_empty :
    (({} : Ledger).recordAll ts).free.total = ts.countP Tally.isFree := by
  rw [PerKind.total_eq_add (free_get_recordAll {} ts), Tally.sum_count_free]
  exact Nat.zero_add _

end Ledger

/-! ## The report of all records -/

namespace AllocStats

variable (ts : List Tally)

theorem recordAll_empty :
    ({} : AllocStats).recordAll ts = (({} : Ledger).recordAll ts).snapshot := by
  rw [Ledger.snapshot_recordAll, Ledger.snapshot_empty]

theorem allocated_recordAll_empty :
    (({} : AllocStats).recordAll ts).allocated = ts.countP Tally.isAlloc := by
  rw [recordAll_empty, Ledger.allocated_snapshot, Ledger.total_alloc_recordAll_empty]

theorem freed_recordAll_empty :
    (({} : AllocStats).recordAll ts).freed = ts.countP Tally.isFree := by
  rw [recordAll_empty, Ledger.freed_snapshot, Ledger.total_free_recordAll_empty]

theorem perKind_recordAll_empty (k : Kind) :
    (({} : AllocStats).recordAll ts).perKind.get k =
      if ts.count (.alloc k) = 0 ∧ ts.count (.free k) = 0 then none
      else some ⟨ts.count (.alloc k), ts.count (.free k)⟩ := by
  rw [recordAll_empty, Ledger.snapshot, PerKind.get_ofFn, Ledger.kind_recordAll_empty]
  simp

end AllocStats

/-- A report that counts on its own and a ledger's report are the same after any records, with the
same entries. What is live by either is the excess of allocations over frees, which is zero when
frees prevail; the totals are the numbers of records, so they exceed no word that can hold the
number of records. Only how often each record was made matters. -/
theorem counters_agree (ts : List Tally) :
    let stats := ({} : AllocStats).recordAll ts
    let ledger := ({} : Ledger).recordAll ts
    stats = ledger.snapshot ∧
      (∀ k, stats.perKind.get k =
        if ts.count (.alloc k) = 0 ∧ ts.count (.free k) = 0 then none
        else some ⟨ts.count (.alloc k), ts.count (.free k)⟩) ∧
      (stats.blocks = 0 ∧ stats.bytes = 0 ∧ stats.slots = 0 ∧ stats.reused = 0) ∧
      stats.live = ledger.live ∧
      (stats.live : Int) = max 0 ((ts.countP Tally.isAlloc : Int) - ts.countP Tally.isFree) ∧
      stats.allocated = ts.countP Tally.isAlloc ∧ stats.freed = ts.countP Tally.isFree ∧
      stats.allocated + stats.freed = ts.length ∧
      ∀ us : List Tally, (∀ t, us.count t = ts.count t) →
        ({} : AllocStats).recordAll us = stats ∧ ({} : Ledger).recordAll us = ledger := by
  intro stats ledger
  have hsnap : stats = ledger.snapshot := AllocStats.recordAll_empty ts
  have halloc : stats.allocated = ts.countP Tally.isAlloc := AllocStats.allocated_recordAll_empty ts
  have hfree : stats.freed = ts.countP Tally.isFree := AllocStats.freed_recordAll_empty ts
  have hlive : stats.live = ledger.live := by
    rw [hsnap, AllocStats.live, Ledger.allocated_snapshot, Ledger.freed_snapshot, Ledger.live]
  refine ⟨hsnap, AllocStats.perKind_recordAll_empty ts, by rw [hsnap]; exact ⟨rfl, rfl, rfl, rfl⟩,
    hlive, ?_, halloc, hfree, ?_, ?_⟩
  · rw [AllocStats.live, halloc, hfree]
    omega
  · rw [halloc, hfree, Tally.countP_isAlloc_add_countP_isFree]
  · intro us hus
    have hledger : ({} : Ledger).recordAll us = ledger := Ledger.recordAll_eq_of_count_eq {} hus
    exact ⟨by rw [AllocStats.recordAll_empty, hledger, hsnap], hledger⟩

/-- More frees than allocations of one kind, which hide a live closure of another. -/
theorem counters_agree_more_frees :
    let ts : List Tally := [.free .zero, .alloc .inc, .free .zero, .alloc .zero]
    let us : List Tally := [.alloc .zero, .free .zero, .free .zero, .alloc .inc]
    (∀ t, us.count t = ts.count t) ∧
      ({} : AllocStats).recordAll us = ({} : AllocStats).recordAll ts ∧
      (({} : Ledger).recordAll us).live = 0 ∧
      (({} : AllocStats).recordAll ts).perKind.get .inc = some ⟨1, 0⟩ := by
  intro ts us
  have hcount : ∀ t, us.count t = ts.count t := (show us.Perm ts by decide).count_eq
  have ⟨_, hentries, _, _, _, _, _, _, horder⟩ := counters_agree ts
  have ⟨hstats, hledger⟩ := horder us hcount
  exact ⟨hcount, hstats, by rw [hledger]; decide, by rw [hentries]; decide⟩

end ChurchStore
