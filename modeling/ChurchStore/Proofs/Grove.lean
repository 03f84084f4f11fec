import ChurchStore.Host

/-!
# Groves

The ideal store, by which the others are judged. A handle is the value itself: a finite tree of
closures, each of which bears the number of the allocation that made it. Nothing is shared by
reference, nothing is counted and nothing is reclaimed, so what a handle stands for can never
change. A grove only remembers the kinds of the closures that were made, and how many there were at
each reset, after which the older ones are refused. It is unbounded, unless it was given a bound on
the bytes of a closure.
-/

namespace ChurchStore

/-- A closure written out with all that it captures, and the numbers of the allocations. -/
inductive Tree where
  | node (number : Nat) (closure : Closure Tree)

namespace Tree

instance : Inhabited Tree := ⟨node 0 .zero⟩

def number : Tree → Nat
  | node n _ => n

def closure : Tree → Closure Tree
  | node _ c => c

/-- Induction on trees: what holds of a closure if it holds of its captures holds of all trees. -/
@[induction_eliminator]
theorem induct {motive : Tree → Prop}
    (node : ∀ n c, (∀ t ∈ c.captures, motive t) → motive (node n c)) : ∀ t, motive t
  | .node n .zero => node n _ fun _ ht => by cases ht
  | .node n .zeroInner => node n _ fun _ ht => by cases ht
  | .node n .succ => node n _ fun _ ht => by cases ht
  | .node n (.succPartial a) => node n _ fun t ht => by
    rw [List.mem_singleton.1 ht]
    exact induct node a
  | .node n (.succInner a b) => node n _ fun t ht => by
    rcases List.mem_cons.1 ht with h | h
    · rw [h]
      exact induct node a
    · rw [List.mem_singleton.1 h]
      exact induct node b
  | .node n (.intLiteral _) => node n _ fun _ ht => by cases ht
  | .node n .inc => node n _ fun _ ht => by cases ht

/-- How many captures lead from a tree down to the lowest one below it. -/
def height : Tree → Nat
  | node _ (.succPartial n) => n.height + 1
  | node _ (.succInner n s) => max n.height s.height + 1
  | node _ _ => 0

theorem height_lt_of_mem_captures {s t : Tree} (h : s ∈ t.closure.captures) :
    s.height < t.height := by
  obtain ⟨n, c⟩ := t
  cases c with
  | succPartial a =>
    obtain rfl := List.mem_singleton.1 h
    simp [height]
  | succInner a b =>
    simp only [height]
    rcases List.mem_cons.1 h with h | h
    · subst h
      omega
    · obtain rfl := List.mem_singleton.1 h
      omega
  | zero | zeroInner | succ | intLiteral | inc => cases h

/-- Where handles stand for trees, a captor stands for a higher one than what it captures. -/
theorem height_lt_of_closure_eq {H : Type} {tree : H → Tree} {h k : H} {c : Closure H}
    (hc : (tree k).closure = c.map tree) (hh : h ∈ c.captures) :
    (tree h).height < (tree k).height := by
  refine height_lt_of_mem_captures ?_
  rw [hc, Closure.captures_map]
  exact List.mem_map_of_mem hh

/-- The tree `s` is `t` or occurs below it. -/
inductive Occurs (s : Tree) : Tree → Prop where
  | root : Occurs s s
  | capture {n : Nat} {c : Closure Tree} {t : Tree} : t ∈ c.captures → Occurs s t →
    Occurs s (node n c)

/-- The captures of a tree that occurs somewhere occur there too. -/
theorem Occurs.of_mem_captures {s t u : Tree} (h : Occurs s t) (hu : u ∈ s.closure.captures) :
    Occurs u t := by
  induction h with
  | root =>
    obtain ⟨n, c⟩ := s
    exact .capture hu .root
  | capture ht _ ih => exact .capture ht ih

theorem Occurs.of_closure {s t u : Tree} (ht : t ∈ u.closure.captures) (h : Occurs s t) :
    Occurs s u := by
  obtain ⟨n, c⟩ := u
  exact .capture ht h

end Tree

/-- The ideal store, whose handles count for `bytes` bytes each where a table is reserved. -/
structure Grove (bytes : Nat) where
  /-- The kinds of all closures made so far, the last one first. -/
  made : List Kind := []
  /-- How many closures had been made at each reset, the last reset first. -/
  resets : List Nat := []
  /-- Closures that take more bytes than this are refused. -/
  capacity : Option Nat := none
  deriving DecidableEq, Repr, Inhabited

namespace Grove

variable {b : Nat}

/-- Remembers one more closure. -/
def grow (g : Grove b) (k : Kind) : Grove b := { g with made := k :: g.made }

/-- Starts the next epoch, in which all closures made so far are refused. -/
def nextEpoch (g : Grove b) : Grove b := { g with resets := g.made.length :: g.resets }

/-- The kind of the closure with the given number. -/
def kindOf (g : Grove b) (number : Nat) : Option Kind := g.made.reverse[number]?

/-- How many resets there had been when a closure was made. -/
def epochOf (g : Grove b) (number : Nat) : Nat := g.resets.countP (· ≤ number)

/-- The kinds of the closures made since the last reset, the last one first. -/
def recent (g : Grove b) : List Kind := g.made.take (g.made.length - g.resets.headD 0)

/-- The counters of all allocations; nothing is ever freed. -/
def ledger (g : Grove b) : Ledger := g.made.foldr (fun k l => l.recordAlloc k) {}

def stats (g : Grove b) : AllocStats :=
  { g.ledger.snapshot with
    blocks := 1
    bytes := g.made.foldr (fun k bytes => k.footprint + bytes) 0 }

/-- Makes a closure, unless it is too large. -/
def alloc (c : Closure Tree) : Act (Grove b) Tree := do
  match ← Act.read (·.capacity.filter (· < c.footprint)) with
  | some capacity => Act.violate (.oversizeAllocation c.footprint capacity)
  | none =>
    let number ← Act.read (·.made.length)
    Act.update (·.grow c.kind)
    return .node number c

/-- The closure of a tree, unless it is older than the last reset. -/
def resolve (t : Tree) : Act (Grove b) (Closure Tree) := do
  let (made, now) ← Act.read fun g => (g.epochOf t.number, g.resets.length)
  if made = now then
    return t.closure
  else
    Act.violate (.staleHandle (.ofNat made) (.ofNat now))

def openGrove (limits : Limits) : Act (Grove b) (Evaluator Tree) := do
  let singletons ← Singletons.build alloc
  return { site := 0, singletons, nesting := limits.nesting }

def reset (e : Evaluator Tree) : Act (Grove b) (Evaluator Tree) := do
  Act.update nextEpoch
  let singletons ← Singletons.build alloc
  return { e with singletons }

/-- The builtin functions, made one after the other. -/
def builtins (first : Nat) : Singletons Tree where
  zero := .node first .zero
  zeroInner := .node (first + 1) .zeroInner
  succ := .node (first + 2) .succ
  inc := .node (first + 3) .inc

/-- A grove reports itself as an arena with a single block that is never full, in which the number
of a closure is its place. -/
instance : Host (Grove b) Tree where
  kind := .arena
  alloc _ := alloc
  resolve _ := resolve
  retain _ g := g
  release _ g := g
  same s t := s.number == t.number
  stats _ g := g.stats
  handleBytes := b
  initial := {}
  openWith := openGrove
  reset? := some reset
  describe t := return .arena 0 t.number
  extent _ g := .arena (.ofNat g.resets.length) 1 g.stats.bytes
  ledger? _ _ := none

theorem alloc_of_fits {c : Closure Tree} {m : Machine (Grove b)}
    (h : m.store.capacity.filter (· < c.footprint) = none) :
    alloc c m = .ok (.node m.store.made.length c) { m with store := m.store.grow c.kind } := by
  simp only [alloc, Bind.bind, EStateM.bind, Act.read, h]
  rfl

theorem alloc_of_oversize {c : Closure Tree} {m : Machine (Grove b)} {capacity : Nat}
    (h : m.store.capacity.filter (· < c.footprint) = some capacity) :
    alloc c m = Act.violate (.oversizeAllocation c.footprint capacity) m := by
  simp only [alloc, Bind.bind, EStateM.bind, Act.read, h]

theorem store_of_alloc {c : Closure Tree} {t : Tree} {m m' : Machine (Grove b)}
    (hrun : alloc c m = .ok t m') : m'.store = m.store.grow c.kind := by
  cases h : m.store.capacity.filter (· < c.footprint) with
  | none =>
    rw [alloc_of_fits h] at hrun
    cases hrun
    rfl
  | some capacity =>
    rw [alloc_of_oversize h] at hrun
    cases hrun

theorem store_of_alloc_error {c : Closure Tree} {f : Fault} {m m' : Machine (Grove b)}
    (hrun : alloc c m = .error f m') : m'.store = m.store := by
  cases h : m.store.capacity.filter (· < c.footprint) with
  | none =>
    rw [alloc_of_fits h] at hrun
    cases hrun
  | some capacity =>
    rw [alloc_of_oversize h] at hrun
    cases hrun
    rfl

theorem build_of_fits {m : Machine (Grove b)}
    (h : m.store.capacity.filter (· < Closure.headerWord) = none) :
    Singletons.build alloc m = .ok (builtins m.store.made.length)
      { m with store := (((m.store.grow .zero).grow .zeroInner).grow .succ).grow .inc } := by
  have hzero := alloc_of_fits (c := .zero) (m := m) h
  have hinner := alloc_of_fits (c := .zeroInner) (m := { m with store := m.store.grow .zero }) h
  have hsucc := alloc_of_fits (c := .succ)
    (m := { m with store := (m.store.grow .zero).grow .zeroInner }) h
  have hinc := alloc_of_fits (c := .inc)
    (m := { m with store := ((m.store.grow .zero).grow .zeroInner).grow .succ }) h
  simp only [Closure.kind] at hzero hinner hsucc hinc
  simp only [Singletons.build, Bind.bind, EStateM.bind, Builtin.closure, hzero, hinner, hsucc, hinc]
  rfl

/-- The evaluator that is opened first. -/
def evaluator (limits : Limits) : Evaluator Tree :=
  { site := 0, singletons := builtins 0, nesting := limits.nesting }

/-- The builtin functions of an evaluator were made one after the other, since the last of the given
resets. -/
def Ready (resets : List Nat) (d : Evaluator Tree) : Prop :=
  ∃ first, d.singletons = builtins first ∧ ∀ r ∈ resets, r ≤ first

theorem ready_evaluator (limits : Limits) : Ready [] (evaluator limits) :=
  ⟨0, rfl, fun _ hr => nomatch hr⟩

theorem Ready.closure_zeroInner {resets : List Nat} {d : Evaluator Tree} (h : Ready resets d) :
    d.singletons.zeroInner.closure = .zeroInner := by
  obtain ⟨first, hd, -⟩ := h
  rw [hd]
  rfl

theorem openGrove_of_fits {m : Machine (Grove b)} (limits : Limits)
    (h : m.store.capacity.filter (· < Closure.headerWord) = none) (hmade : m.store.made = []) :
    ∃ n, openGrove limits m = .ok (evaluator limits) n := by
  simp only [openGrove, Bind.bind, EStateM.bind, build_of_fits h, hmade]
  exact ⟨_, rfl⟩

theorem resolve_of_current {t : Tree} {m : Machine (Grove b)}
    (h : m.store.epochOf t.number = m.store.resets.length) : resolve t m = .ok t.closure m := by
  simp only [resolve, Bind.bind, EStateM.bind, Act.read, if_pos h]
  rfl

theorem resolve_of_stale {t : Tree} {m : Machine (Grove b)}
    (h : m.store.epochOf t.number ≠ m.store.resets.length) :
    resolve t m = Act.violate (.staleHandle (.ofNat (m.store.epochOf t.number))
      (.ofNat m.store.resets.length)) m := by
  simp only [resolve, Bind.bind, EStateM.bind, Act.read, if_neg h]

theorem lt_of_kindOf {g : Grove b} {number : Nat} {k : Kind} (h : g.kindOf number = some k) :
    number < g.made.length := by
  rw [kindOf, List.getElem?_eq_some_iff] at h
  obtain ⟨hlt, -⟩ := h
  rwa [List.length_reverse] at hlt

theorem kindOf_grow (g : Grove b) (k : Kind) (number : Nat) : (g.grow k).kindOf number =
    if number = g.made.length then some k else g.kindOf number := by
  rw [kindOf, kindOf, grow, List.reverse_cons]
  split
  · subst_vars
    simp
  · by_cases hlt : number < g.made.length
    · rw [List.getElem?_append_left (by simpa using hlt)]
    · rw [List.getElem?_eq_none (by simp; omega), List.getElem?_eq_none (by simp; omega)]

theorem kindOf_grow_of_kindOf {g : Grove b} {number : Nat} {k : Kind}
    (h : g.kindOf number = some k) (l : Kind) : (g.grow l).kindOf number = some k := by
  rw [kindOf_grow, if_neg (Nat.ne_of_lt (lt_of_kindOf h)), h]

theorem kindOf_grow_length (g : Grove b) (k : Kind) :
    (g.grow k).kindOf g.made.length = some k := by
  rw [kindOf_grow, if_pos rfl]

theorem epochOf_le (g : Grove b) (number : Nat) : g.epochOf number ≤ g.resets.length :=
  List.countP_le_length

/-- Closures that are made now belong to the time since the last reset. -/
theorem epochOf_length {g : Grove b} (h : ∀ r ∈ g.resets, r ≤ g.made.length) :
    g.epochOf g.made.length = g.resets.length :=
  List.countP_eq_length.2 fun r hr => decide_eq_true (h r hr)

theorem headD_resets_le {g : Grove b} (h : ∀ r ∈ g.resets, r ≤ g.made.length) :
    g.resets.headD 0 ≤ g.made.length := by
  cases hr : g.resets with
  | nil => exact Nat.zero_le _
  | cons r rs => exact h r (by rw [hr]; exact List.mem_cons_self ..)

theorem recent_grow {g : Grove b} (h : ∀ r ∈ g.resets, r ≤ g.made.length) (k : Kind) :
    (g.grow k).recent = k :: g.recent := by
  rw [recent, recent, grow, List.length_cons, Nat.succ_sub (headD_resets_le h),
    List.take_succ_cons]

theorem count_recent_grow {g : Grove b} (h : ∀ r ∈ g.resets, r ≤ g.made.length) (k l : Kind) :
    (g.grow k).recent.count l = g.recent.count l + if k = l then 1 else 0 := by
  rw [recent_grow h, List.count_cons]
  simp

/-- Closures that were made before a reset stay in the epoch that they were made in. -/
theorem epochOf_nextEpoch {g : Grove b} {number : Nat} (h : number < g.made.length) :
    g.nextEpoch.epochOf number = g.epochOf number := by
  rw [epochOf, nextEpoch, List.countP_cons_of_neg (by simpa using h)]
  rfl

theorem recent_nextEpoch (g : Grove b) : g.nextEpoch.recent = [] := by
  rw [recent, nextEpoch, List.headD_cons, Nat.sub_self, List.take_zero]

/-! ### Evaluation on a grove -/

theorem holding_eq {α : Type} (t : Tree) (op : Act (Grove b) α) : Backend.holding t op = op := by
  funext m
  simp only [Backend.holding, Act.ensuring]
  cases op m <;> rfl

/-- What comes of applying a closure to a tree, by the kind of the closure. -/
def applied (e : Evaluator Tree) (depth : Nat) (x : Tree) : Closure Tree → Act (Grove b) Tree
  | .zero => pure e.singletons.zeroInner
  | .zeroInner => pure x
  | .succ => alloc (.succPartial x)
  | .succPartial n => alloc (.succInner n x)
  | .succInner n s => do
    let ns ← e.applyWithin depth n s
    let nsx ← e.applyWithin depth ns x
    e.applyWithin depth s nsx
  | .intLiteral _ => Act.violate (.notApplicable .intLiteral)
  | .inc => do
    let value ← e.toInt x
    if value = Int64.maxValue then
      Act.violate (.integerOverflow value)
    else
      alloc (.intLiteral (value + 1))

theorem applyWithin_succ (e : Evaluator Tree) (depth : Nat) (f x : Tree) :
    (e.applyWithin (depth + 1) f x : Act (Grove b) Tree) = resolve f >>= applied e depth x := by
  rw [Evaluator.applyWithin]
  congr 1
  funext c
  cases c with
  | zero | zeroInner | succ | succPartial | intLiteral | inc => rfl
  | succInner n s => simp only [applied, holding_eq]

end Grove

end ChurchStore
