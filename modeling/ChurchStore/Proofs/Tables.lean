import ChurchStore.Proofs.Tables.StoreLaws

/-!
# Tables of numerals

A numeral is built on its own, as a chain of new closures. In a table each numeral captures the
entry before it, so that all numerals up to a number are there for the price of the largest of them.
Both come about by the successor, one at a time, and show the same.
-/

namespace ChurchStore

open Value (church)

variable {W H : Type}

/-- Closures of no kind but this one are allocated, and `k` of those. -/
def partialCost (k : Nat) : Kind → Nat
  | .succPartial => k
  | .zero | .zeroInner | .succ | .succInner | .intLiteral | .inc => 0

theorem partialCost_add (j k : Nat) (kind : Kind) :
    partialCost (j + k) kind = partialCost j kind + partialCost k kind := by
  cases kind <;> rfl

namespace Evaluator

variable [Host W H]

/-- The entries of a table of numerals. The first one is the evaluator's own handle for zero, each
of the others captures the one before it, and all of them show what the numerals show that are built
on their own. -/
structure Lists (v : View W H) (e : Evaluator H) (m : Machine W) (table : Array H) : Prop where
  zero {h : H} : table[0]? = some h → Backend.same W h e.singletons.zero = true
  succPartial {i : Nat} {a b : H} : table[i]? = some a → table[i + 1]? = some b →
    ∃ n m', Backend.resolve e.site b m = .ok (.succPartial n) m' ∧ Backend.same W n a = true
  sameTree {i : Nat} {a : H} : table[i]? = some a → ∃ n m', e.numeral i m = .ok n m' ∧
    v.Shows m'.store n (church i) ∧ v.Shows m'.store a (church i)

/-- What an evaluator builds with a machine: numerals, which take a closure for each number, and
tables, which take a closure for each entry but the first. -/
structure BuildsTables (v : View W H) (e : Evaluator H) (m : Machine W) : Prop where
  numeral (k : Nat) : ∃ n m', e.numeral k m = .ok n m' ∧ v.Shows m'.store n (church k) ∧
    e.Allocates m m' (partialCost k)
  numerals (count : Nat) : count * Backend.handleBytes W < reservationBound →
    ∃ table m', e.numerals count m = .ok table m' ∧ table.size = count ∧ e.Lists v m' table ∧
      e.Allocates m m' (partialCost (count - 1))

/-- In a new table each entry but the first has an owner for its handle and another one for the
entry after it, if there is one. -/
def SharesTables (owners : W → H → Nat) (e : Evaluator H) (m : Machine W) : Prop :=
  ∀ {count : Nat} {table : Array H} {m' : Machine W}, e.numerals count m = .ok table m' →
    ∀ {i : Nat} {h : H}, table[i]? = some h → 0 < i →
      owners m'.store h = if i + 1 < count then 2 else 1

end Evaluator

namespace Shelf

variable [DecidableEq H]

section Steps

variable [Backend W H] {S : Shelf W} {e : Evaluator H} {m : Machine W} {w w' w'' : W} {a n : H}
  {f : H → Nat → Nat} {j k : Nat}

/-- What is on the shelf stays there, and `k` closures that capture a numeral have been added. -/
structure Grows (S : Shelf W) (w w' : W) (k : Nat) : Prop where
  look_eq {h : H} {c : Closure H} : S.look w h = some c → S.look w' h = some c
  now_eq : S.now w' = S.now w
  allocated_eq (kind : Kind) : S.allocated w' kind = S.allocated w kind + partialCost k kind

namespace Grows

theorem trans (h : S.Grows w w' j) (h' : S.Grows w' w'' k) : S.Grows w w'' (j + k) where
  look_eq hc := h'.look_eq (h.look_eq hc)
  now_eq := h'.now_eq.trans h.now_eq
  allocated_eq kind := by
    rw [h'.allocated_eq, h.allocated_eq, partialCost_add, Nat.add_assoc]

theorem of_rests (h : S.Rests S.Owns w w' f) : S.Grows w w' 0 where
  look_eq hc := (h.look_eq _).trans hc
  now_eq := h.now_eq
  allocated_eq kind := by
    rw [h.allocated_eq]
    cases kind <;> rfl

theorem of_lays (h : S.Lays S.Owns w w' a n f) : S.Grows w w' 1 where
  look_eq := h.look_eq
  now_eq := h.now_eq
  allocated_eq kind := by
    rw [h.allocated_eq]
    cases kind <;> rfl

theorem shows {u : Value} (h : S.Grows w w' k) (hs : S.Shows w a u) : S.Shows w' a u :=
  hs.mono h.look_eq h.now_eq

end Grows

theorem holds_of_lays (h : S.Lays S.Owns w w' a n f) : S.Holds w' a :=
  ⟨⟨_, h.look_self⟩, 1, Nat.one_pos, h.owns_self⟩

/-- A further handle for zero. -/
theorem builtin_zero (h : S.Serves e m.store) :
    ∃ m', e.builtin .zero m = .ok e.singletons.zero m' ∧ S.Serves e m'.store ∧
      S.Grows m.store m'.store 0 := by
  obtain ⟨hsound, hrests⟩ := S.retain h.sound h.look_zero
  exact ⟨m.change (Backend.retain e.singletons.zero), rfl,
    h.rests hsound hrests fun _ _ hj => Nat.add_pos_left hj _, .of_rests hrests⟩

/-- Each successor is another closure, and the numeral before it is given back. -/
theorem successors (k : Nat) (h : S.Serves e m.store) (hn : S.Holds m.store n)
    (hs : S.Shows m.store n (church j)) :
    ∃ a m', e.successors k n m = .ok a m' ∧ S.Shows m'.store a (church (j + k)) ∧
      S.Grows m.store m'.store k := by
  induction k generalizing m n j with
  | zero => exact ⟨n, m, rfl, hs, .of_rests ⟨fun _ => rfl, rfl, fun _ => rfl, id⟩⟩
  | succ k ih =>
    obtain ⟨b, m₁, hrun, hsound, hlays⟩ := holding_successor h hn
    have hgrows := Grows.of_lays hlays
    obtain ⟨a, m', hrest, hshows, hgrows'⟩ := ih (h.lays hsound hlays fun _ _ hj => hj)
      (holds_of_lays hlays) (.succPartial hlays.look_self (hgrows.shows hs))
    have hall := hgrows.trans hgrows'
    rw [Nat.add_comm 1] at hall
    rw [Nat.add_right_comm, Nat.add_assoc] at hshows
    refine ⟨a, m', ?_, hshows, hall⟩
    simp only [Evaluator.successors, Bind.bind, EStateM.bind, hrun]
    exact hrest

theorem numeral (k : Nat) (h : S.Serves e m.store) :
    ∃ a m', e.numeral k m = .ok a m' ∧ S.Shows m'.store a (church k) ∧
      S.Grows m.store m'.store k := by
  obtain ⟨m₁, hzero, hserves, hgrows⟩ := builtin_zero h
  obtain ⟨a, m', hrun, hshows, hgrows'⟩ := successors k hserves
    ⟨⟨_, hserves.look_zero⟩, hserves.owns_zero⟩ (.zero hserves.look_zero)
  have hall := hgrows.trans hgrows'
  rw [Nat.zero_add] at hshows hall
  refine ⟨a, m', ?_, hshows, hall⟩
  simp only [Evaluator.numeral, Bind.bind, EStateM.bind, hzero]
  exact hrun

/-! ### The entries of a table -/

/-- The table is one of numerals, and besides its handles only the captures in it own them. -/
structure Lines (S : Shelf W) (e : Evaluator H) (w : W) (table : Array H) : Prop where
  serves : S.Serves e w
  zero {a : H} : table[0]? = some a → a = e.singletons.zero
  look_eq {i : Nat} {a b : H} : table[i]? = some a → table[i + 1]? = some b →
    S.look w b = some (.succPartial a)
  shows {i : Nat} {a : H} : table[i]? = some a → S.Shows w a (church i)
  nodup {i j : Nat} {a : H} : table[i]? = some a → table[j]? = some a → i = j
  owns {i : Nat} {a : H} : table[i]? = some a → 0 < i →
    S.Owns w a (if i + 1 < table.size then 2 else 1)

namespace Lines

variable {table : Array H} {last : H}

theorem empty (h : S.Serves e w) : S.Lines e w #[] := by
  constructor <;> simp [h]

/-- The first entry is a further handle for zero. -/
theorem singleton (h : S.Serves e w) : S.Lines e w #[e.singletons.zero] := by
  have hentry {i : Nat} {a : H} (ha : #[e.singletons.zero][i]? = some a) :
      i = 0 ∧ e.singletons.zero = a := by
    obtain ⟨hi, heq⟩ := Array.getElem?_eq_some_iff.1 ha
    obtain rfl : i = 0 := by simpa using hi
    exact ⟨rfl, heq⟩
  constructor
  case serves => exact h
  case zero => exact fun ha => (hentry ha).2.symm
  case look_eq => exact fun _ hb => absurd (hentry hb).1 (Nat.succ_ne_zero _)
  case shows =>
    intro i a ha
    obtain ⟨rfl, rfl⟩ := hentry ha
    exact .zero h.look_zero
  case nodup => exact fun ha hb => (hentry ha).1.trans (hentry hb).1.symm
  case owns => exact fun ha hi => absurd (hentry ha).1 (Nat.ne_of_gt hi)

theorem isSome (h : S.Lines e w table) {i : Nat} {x : H} (hx : table[i]? = some x) :
    (S.look w x).isSome :=
  (h.shows hx).isSome

/-- An entry has an owner for its handle. -/
theorem holds (h : S.Lines e w table) {i : Nat} {x : H} (hx : table[i]? = some x) :
    S.Holds w x := by
  refine ⟨Option.isSome_iff_exists.1 (h.isSome hx), ?_⟩
  rcases Nat.eq_zero_or_pos i with rfl | hi
  · rw [h.zero hx]
    exact h.serves.owns_zero
  · refine ⟨_, ?_, h.owns hx hi⟩
    split <;> omega

/-- A further entry captures the last one, which gets its second owner by that. -/
theorem push (h : S.Lines e w table) (hlast : table.back? = some last) (hsound : S.Sound w')
    (hl : S.Lays S.Owns w w' a last fun x j => j + [last].count x) :
    S.Lines e w' (table.push a) := by
  rw [Array.back?_eq_getElem?] at hlast
  obtain ⟨hlt, -⟩ := Array.getElem?_eq_some_iff.1 hlast
  have hentry {i : Nat} {x : H} (hx : (table.push a)[i]? = some x) :
      i = table.size ∧ x = a ∨ i < table.size ∧ table[i]? = some x := by
    rw [Array.getElem?_push] at hx
    split at hx
    · cases hx
      exact .inl ⟨‹_›, rfl⟩
    · exact .inr ⟨(Array.getElem?_eq_some_iff.1 hx).1, hx⟩
  have hnew {i : Nat} (hx : table[i]? = some a) : False := by
    have hsome := h.isSome hx
    rw [hl.fresh] at hsome
    cases hsome
  have hgrows := Grows.of_lays hl
  constructor
  case serves => exact h.serves.lays hsound hl fun _ _ hj => Nat.add_pos_left hj _
  case zero =>
    intro x hx
    rcases hentry hx with ⟨hi, -⟩ | ⟨-, hx⟩
    · omega
    · exact h.zero hx
  case look_eq =>
    intro i x y hx hy
    rcases hentry hy with ⟨hi, rfl⟩ | ⟨hi, hy⟩
    · rcases hentry hx with ⟨hi', -⟩ | ⟨-, hx⟩
      · omega
      · have hindex : i = table.size - 1 := by omega
        rw [hindex, hlast] at hx
        cases hx
        exact hl.look_self
    · rcases hentry hx with ⟨hi', -⟩ | ⟨-, hx⟩
      · omega
      · exact hl.look_eq (h.look_eq hx hy)
  case shows =>
    intro i x hx
    rcases hentry hx with ⟨rfl, rfl⟩ | ⟨-, hx⟩
    · have hshows := View.Shows.succPartial hl.look_self (hgrows.shows (h.shows hlast))
      rwa [Nat.sub_add_cancel (by omega)] at hshows
    · exact hgrows.shows (h.shows hx)
  case nodup =>
    intro i j x hx hy
    rcases hentry hx with ⟨hi, rfl⟩ | ⟨-, hx'⟩
    · rcases hentry hy with ⟨hj, -⟩ | ⟨-, hy'⟩
      · rw [hi, hj]
      · exact absurd hy' hnew
    · rcases hentry hy with ⟨-, rfl⟩ | ⟨-, hy'⟩
      · exact absurd hx' hnew
      · exact h.nodup hx' hy'
  case owns =>
    intro i x hx hi
    rw [Array.size_push]
    rcases hentry hx with ⟨hi', rfl⟩ | ⟨hi', hx⟩
    · rw [if_neg (by omega)]
      exact hl.owns_self
    · rw [if_pos (by omega)]
      have howns := hl.owns (h.isSome hx) (h.owns hx hi)
      by_cases hlast' : i + 1 < table.size
      · have hne : last ≠ x := by
          rintro rfl
          have heq := h.nodup hx hlast
          omega
        rwa [if_pos hlast', List.count_eq_zero.2 (by simpa using hne.symm)] at howns
      · obtain rfl : i = table.size - 1 := by omega
        rw [hlast] at hx
        cases hx
        rwa [if_neg hlast', List.count_singleton_self] at howns

end Lines

/-- The loop that fills a table, with one closure for each entry but the first. -/
theorem extendTable (k : Nat) {table : Array H} (h : S.Lines e m.store table) :
    ∃ table' m', e.extendTable k table m = .ok table' m' ∧ table'.size = table.size + k ∧
      S.Lines e m'.store table' ∧
      S.Grows m.store m'.store (table.size + k - 1 - (table.size - 1)) := by
  induction k generalizing table m with
  | zero =>
    refine ⟨table, m, rfl, rfl, h, ?_⟩
    rw [Nat.add_zero, Nat.sub_self]
    exact .of_rests ⟨fun _ => rfl, rfl, fun _ => rfl, id⟩
  | succ k ih =>
    have hrest (next : H) (m₁ : Machine W) {l : Nat}
        (hrun : e.extendTable (k + 1) table m = e.extendTable k (table.push next) m₁)
        (hlines : S.Lines e m₁.store (table.push next)) (hgrows : S.Grows m.store m₁.store l)
        (hl : l = table.size - (table.size - 1)) :
        ∃ table' m', e.extendTable (k + 1) table m = .ok table' m' ∧
          table'.size = table.size + (k + 1) ∧ S.Lines e m'.store table' ∧
          S.Grows m.store m'.store (table.size + (k + 1) - 1 - (table.size - 1)) := by
      obtain ⟨table', m', hextend, hsize, hlines', hgrows'⟩ := ih hlines
      rw [Array.size_push] at hsize hgrows'
      have hall := hgrows.trans hgrows'
      have hcount : l + (table.size + 1 + k - 1 - (table.size + 1 - 1)) =
          table.size + (k + 1) - 1 - (table.size - 1) := by
        omega
      rw [hcount] at hall
      exact ⟨table', m', hrun.trans hextend, by omega, hlines', hall⟩
    cases hback : table.back? with
    | none =>
      obtain ⟨m₁, hrun, hserves, hgrows⟩ := builtin_zero h.serves
      have hempty := Array.back?_eq_none_iff.1 hback
      refine hrest e.singletons.zero m₁ ?_ ?_ hgrows (by rw [hempty]; rfl)
      · simp only [Evaluator.extendTable, hback, Act.onFault, Bind.bind, EStateM.bind, hrun]
      · rw [hempty]
        exact .singleton hserves
    | some last =>
      have hlast := hback
      rw [Array.back?_eq_getElem?] at hlast
      obtain ⟨hlt, -⟩ := Array.getElem?_eq_some_iff.1 hlast
      obtain ⟨a, m₁, hrun, hsound, hlays⟩ := successor h.serves (h.holds hlast)
      refine hrest a m₁ ?_ (h.push hback hsound hlays) (.of_lays hlays) (by omega)
      simp only [Evaluator.extendTable, hback, Act.onFault, Bind.bind, EStateM.bind, hrun]

theorem numerals {count : Nat} (h : S.Serves e m.store)
    (hcount : count * Backend.handleBytes W < reservationBound) :
    ∃ table m', e.numerals count m = .ok table m' ∧ table.size = count ∧
      S.Lines e m'.store table ∧ S.Grows m.store m'.store (count - 1) := by
  obtain ⟨table, m', hrun, hsize, hlines, hgrows⟩ := extendTable count (.empty h)
  rw [Array.size_empty, Nat.zero_add] at hsize hgrows
  refine ⟨table, m', ?_, hsize, hlines, hgrows⟩
  unfold Evaluator.numerals
  rw [if_pos hcount, hrun]

end Steps

section Hosts

variable [Host W H] {S : Shelf W} {e : Evaluator H} {m m' : Machine W} {table : Array H} {k : Nat}

theorem Grows.allocates (h : S.Grows m.store m'.store k) (hsite : S.site = e.site) :
    e.Allocates m m' (partialCost k) := by
  intro kind
  unfold Evaluator.allocations
  rw [← hsite, S.stats_eq, S.stats_eq, h.allocated_eq]

theorem Lines.lists (h : S.Lines e m.store table) : e.Lists S.toView m table where
  zero hh := by
    rw [h.zero hh]
    exact S.same_self _
  succPartial {i a b} ha hb := by
    obtain ⟨m', hresolve, -⟩ := S.resolve (h.look_eq ha hb)
    rw [h.serves.site_eq] at hresolve
    exact ⟨a, m', hresolve, S.same_self a⟩
  sameTree {i a} ha := by
    obtain ⟨n, m', hrun, hshows, hgrows⟩ := numeral i h.serves
    exact ⟨n, m', hrun, hshows, hgrows.shows (h.shows ha)⟩

/-- On every shelf tables of numerals are built. -/
theorem Serves.buildsTables (h : S.Serves e m.store) : e.BuildsTables S.toView m where
  numeral k := by
    obtain ⟨n, m', hrun, hshows, hgrows⟩ := Shelf.numeral k h
    exact ⟨n, m', hrun, hshows, hgrows.allocates h.site_eq⟩
  numerals count hcount := by
    obtain ⟨table, m', hrun, hsize, hlines, hgrows⟩ := Shelf.numerals h hcount
    exact ⟨table, m', hrun, hsize, hlines.lists, hgrows.allocates h.site_eq⟩

/-- Where owners are counted, the entries are shared. -/
theorem Serves.sharesTables (h : S.Serves e m.store) {owners : W → H → Nat}
    (howners : ∀ {w : W} {h : H} {n : Nat}, S.Owns w h n → owners w h = n) :
    e.SharesTables owners m := by
  intro count table m' hrun i x hx hi
  have hcount : count * Backend.handleBytes W < reservationBound := by
    by_contra hge
    unfold Evaluator.numerals at hrun
    rw [if_neg hge] at hrun
    cases hrun
  obtain ⟨table', m₁, hrun', hsize, hlines, -⟩ := Shelf.numerals h hcount
  cases hrun'.symm.trans hrun
  rw [← hsize]
  exact howners (hlines.owns hx hi)

end Hosts

end Shelf

end ChurchStore
