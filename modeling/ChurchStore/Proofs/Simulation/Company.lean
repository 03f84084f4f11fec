import ChurchStore.Proofs.Session.Focus
import ChurchStore.Proofs.Simulation.Run
import ChurchStore.Proofs.Simulation.Strengthening
import Mathlib.Data.List.Perm.Basic

/-!
# Sessions with several evaluators on related stores

Any number of evaluators share the stores of two sessions, and pass handles to each other by way of
the variables. A command for one of them is carried out as if it were alone, while the others hold
their handles for the builtin functions all the time. So whatever simulates the evaluator at work
simulates the whole company.
-/

namespace ChurchStore.Simulation

open Session

variable {W V H G : Type}

/-- Two evaluators that have the same number in two sessions. -/
structure Partners (H G : Type) where
  left : Evaluator H
  right : Evaluator G
  isOpen : Bool := true

namespace Partners

variable {partners : List (Partners H G)} {number : Nat} {p q : Partners H G}

def seatLeft (p : Partners H G) : Seat H := ⟨p.left, p.isOpen⟩

def seatRight (p : Partners H G) : Seat G := ⟨p.right, p.isOpen⟩

/-- The pairs of handles for the builtin functions that they hold. -/
def handles (p : Partners H G) : List (H × G) :=
  if p.isOpen then builtinPairs p.left p.right else []

theorem coe_handles (p : Partners H G) : (p.handles : Multiset (H × G)) =
    if p.isOpen then (builtinPairs p.left p.right : Multiset (H × G)) else 0 := by
  rw [handles]
  split <;> rfl

/-- What the partners with a number can be taken for: ended ones if there are none. -/
def Sits (partners : List (Partners H G)) (number : Nat) (p : Partners H G) : Prop :=
  partners.set number p = partners ∧ (partners.length ≤ number → p.isOpen = false)

theorem exists_sits (hp : p ∈ partners) (number : Nat) :
    ∃ q ∈ partners, ∃ isOpen, Sits partners number { q with isOpen } := by
  by_cases hlt : number < partners.length
  · refine ⟨partners[number], List.getElem_mem hlt, partners[number].isOpen, ?_, fun hle => ?_⟩
    · exact List.set_getElem_self hlt
    · omega
  · exact ⟨p, hp, false, List.set_eq_of_length_le (Nat.le_of_not_lt hlt), fun _ => rfl⟩

/-- The handles of all partners are those of one pair and those of the others. -/
theorem flatMap_handles_set (hq : partners.length ≤ number → q.isOpen = false) :
    (((partners.set number q).flatMap handles : List (H × G)) : Multiset (H × G)) =
      ((partners.eraseIdx number).flatMap handles : List (H × G)) +
        (q.handles : Multiset (H × G)) := by
  by_cases hlt : number < partners.length
  · have hperm := (List.set_perm_cons_eraseIdx hlt q).flatMap_right handles
    rw [Multiset.coe_eq_coe.2 hperm, List.flatMap_cons, ← Multiset.coe_add, Multiset.add_comm]
  · have hle := Nat.le_of_not_lt hlt
    rw [List.set_eq_of_length_le hle, List.eraseIdx_of_length_le hle, handles, hq hle]
    simp

end Partners

/-- The partners are evaluators of related stores with the same bound on nesting. -/
structure Partners.Serve [Host W H] [Host V G] (p : Partners H G) (S : Simulation W V) : Prop where
  left : p.left.site = S.left
  right : p.right.site = S.right
  nesting : p.left.nesting = p.right.nesting

/-- Two sessions with the same number of evaluators, whose variables hold pairs of handles. -/
structure Company (Rel : W → V → Multiset (H × G) → Prop) (partners : List (Partners H G))
    (bindings : Std.TreeMap Name (H × G)) (s : Session W H) (t : Session V G) : Prop where
  seats_left : s.seats = (partners.map Partners.seatLeft).toArray
  seats_right : t.seats = (partners.map Partners.seatRight).toArray
  bindings_left (name : Name) : s.bindings[name]? = bindings[name]?.map Prod.fst
  bindings_right (name : Name) : t.bindings[name]? = bindings[name]?.map Prod.snd
  holds : Rel s.machine.store t.machine.store
    ((bindings.values : Multiset (H × G)) + (partners.flatMap Partners.handles : List (H × G)))

namespace Company

variable {Rel : W → V → Multiset (H × G) → Prop} {partners : List (Partners H G)}
  {bindings : Std.TreeMap Name (H × G)} {s : Session W H} {t : Session V G} {number : Nat}
  {p : Partners H G}

theorem hasSeat (h : Company Rel partners bindings s t) (hp : Partners.Sits partners number p) :
    HasSeat s.seats number p.seatLeft ∧ HasSeat t.seats number p.seatRight := by
  refine ⟨⟨?_, fun hle => hp.2 ?_⟩, ?_, fun hle => hp.2 ?_⟩
  · rw [h.seats_left, List.setIfInBounds_toArray, ← List.map_set, hp.1]
  · simpa [h.seats_left] using hle
  · rw [h.seats_right, List.setIfInBounds_toArray, ← List.map_set, hp.1]
  · simpa [h.seats_right] using hle

/-- The handles that are held in the sessions are the pairs that stand in them. -/
theorem exists_handles (h : Company Rel partners bindings s t) : ∃ l : List (H × G),
    s.handles = l.map Prod.fst ∧ t.handles = l.map Prod.snd ∧
      (bindings.values : Multiset (H × G)) + (partners.flatMap Partners.handles : List (H × G)) =
        l := by
  refine ⟨partners.flatMap Partners.handles ++ bindings.values, ?_, ?_, ?_⟩
  · rw [handles, h.seats_left, values_of_getElem?_map h.bindings_left, List.map_append,
      List.map_flatMap, List.flatMap_map]
    congr 2
    funext p
    cases hp : p.isOpen <;>
      simp [Seat.handles, Partners.seatLeft, Partners.handles, builtinPairs, hp]
  · rw [handles, h.seats_right, values_of_getElem?_map h.bindings_right, List.map_append,
      List.map_flatMap, List.flatMap_map]
    congr 2
    funext p
    cases hp : p.isOpen <;>
      simp [Seat.handles, Partners.seatRight, Partners.handles, builtinPairs, hp]
  · rw [Multiset.add_comm, Multiset.coe_add]

variable [Host W H]

/-- A session goes along with itself, where the first one is put on record. -/
theorem twice [DecidableEq H] (h : Company Rel partners bindings s t) {site : Site}
    (hq : Host.Quiet W site) :
    Company (Recorded.unrecorded hq).Rel (partners.map fun p => ⟨p.left, p.left, p.isOpen⟩)
      (bindings.map fun _ p => (p.1, p.1)) s.recorded s where
  seats_left := by
    rw [List.map_map]
    exact h.seats_left
  seats_right := by
    rw [List.map_map]
    exact h.seats_left
  bindings_left name := by
    rw [Std.TreeMap.getElem?_map, Option.map_map]
    exact h.bindings_left name
  bindings_right name := by
    rw [Std.TreeMap.getElem?_map, Option.map_map]
    exact h.bindings_left name
  holds := by
    refine ⟨rfl, fun p hp => ?_⟩
    rw [values_of_getElem?_map fun name => Std.TreeMap.getElem?_map] at hp
    rcases Multiset.mem_add.1 hp with hp | hp
    · obtain ⟨q, -, rfl⟩ := List.mem_map.1 hp
      rfl
    · obtain ⟨q, hq, hp⟩ := List.mem_flatMap.1 (Multiset.mem_coe.1 hp)
      obtain ⟨r, -, rfl⟩ := List.mem_map.1 hq
      cases hopen : r.isOpen with
      | false => simp [Partners.handles, hopen] at hp
      | true =>
        simp only [Partners.handles, hopen, if_pos, builtinPairs] at hp
        obtain ⟨b, -, rfl⟩ := List.mem_map.1 hp
        rfl

variable [Host V G] {S : Simulation W V}

/-- The evaluators with one number are related as if they were alone. -/
theorem paired (h : Company S.Rel partners bindings s t) (hp : Partners.Sits partners number p)
    (hserve : p.Serve S) :
    (S.framed ((partners.eraseIdx number).flatMap Partners.handles : List (H × G))).Paired p.left
      p.right ⟨p.isOpen, bindings⟩ 0 (s.alone p.seatLeft) (t.alone p.seatRight) where
  seats_left := rfl
  seats_right := rfl
  bindings_left := h.bindings_left
  bindings_right := h.bindings_right
  serves := ⟨hserve.left, hserve.right, hserve.nesting, mem_builtinPairs p.left p.right⟩
  holds := by
    have hmn := h.holds
    rw [← hp.1, Partners.flatMap_handles_set hp.2, add_swap, Partners.coe_handles] at hmn
    rw [Multiset.zero_add]
    exact hmn

/-- What the two evaluators have done alone they have done among the others. -/
theorem of_paired {c : Pairing H G} {s₀ : Session W H} {t₀ : Session V G} {s' : Session W H}
    {t' : Session V G} (h : Company S.Rel partners bindings s t)
    (hpaired : (S.framed ((partners.eraseIdx number).flatMap Partners.handles :
      List (H × G))).Paired p.left p.right c 0 s₀ t₀)
    (hs : Seats number s.seats s' s₀) (ht : Seats number t.seats t' t₀) :
    Company S.Rel (partners.set number { p with isOpen := c.isOpen }) c.bindings s' t' := by
  obtain ⟨seat, hseats, rfl, hended⟩ := hs
  obtain ⟨seat', hseats', rfl, -⟩ := ht
  rw [hpaired.seats_left] at hseats
  rw [hpaired.seats_right] at hseats'
  cases hseats
  cases hseats'
  refine ⟨?_, ?_, hpaired.bindings_left, hpaired.bindings_right, ?_⟩
  · rw [h.seats_left, List.setIfInBounds_toArray, List.map_set]
    rfl
  · rw [h.seats_right, List.setIfInBounds_toArray, List.map_set]
    rfl
  · have hmn := hpaired.holds
    have hle (hle : partners.length ≤ number) : c.isOpen = false :=
      hended (by simpa [h.seats_left] using hle)
    rw [Multiset.zero_add] at hmn
    rw [Partners.flatMap_handles_set hle, add_swap, Partners.coe_handles]
    exact hmn

/-- An operation for any evaluator keeps the company together and is answered alike. -/
theorem step (h : Company S.Rel partners bindings s t) (hp : Partners.Sits partners number p)
    (hserve : p.Serve S) {command : Command} (hc : command.isOperation = true) :
    (∃ isOpen bindings', Company S.Rel (partners.set number { p with isOpen }) bindings'
        (s.step number (some command)).2 (t.step number (some command)).2) ∧
      (s.step number (some command)).1.answer.map Answer.unplaced =
        (t.step number (some command)).1.answer.map Answer.unplaced := by
  obtain ⟨hsl, hsr⟩ := h.hasSeat hp
  obtain ⟨hanswer, hs⟩ := step_eq_alone hsl hc
  obtain ⟨hanswer', ht⟩ := step_eq_alone hsr hc
  obtain ⟨⟨c, hpaired⟩, hsame, -⟩ := (h.paired hp hserve).step hc
  rw [hanswer, hanswer']
  exact ⟨⟨c.isOpen, c.bindings, h.of_paired hpaired hs ht⟩, hsame⟩

/-! ### What happens in the course of an operation -/

variable [DecidableEq H]

/-- A company on a recorded store, where nothing is on record yet. -/
theorem recorded (h : Company S.Rel partners bindings s t) :
    Company (Recorded.simulation S).Rel partners bindings s.recorded t := by
  obtain ⟨l, hs, -, hl⟩ := h.exists_handles
  refine { h with holds := ⟨h.holds, ?_, fun m hm => by cases hm⟩ }
  rw [hl, Multiset.map_coe, ← hs]
  rfl

/-- All primitive operations in the course of an operation find the stores related. -/
theorem upheld (h : Company S.Rel partners bindings s t) (hq : Host.Quiet W S.left)
    (hp : Partners.Sits partners number p) (hserve : p.Serve S) {command : Command}
    (hc : command.isOperation = true) :
    let r := (s.recorded.step number (some command)).2
    r.machine.store.store = (s.step number (some command)).2.machine.store ∧
      ∀ m ∈ r.machine.store.past, Recorded.Upheld S m := by
  have hsits : Partners.Sits (partners.map fun p => (⟨p.left, p.left, p.isOpen⟩ : Partners H H))
      number ⟨p.left, p.left, p.isOpen⟩ := by
    refine ⟨?_, fun hle => hp.2 (by simpa using hle)⟩
    conv_rhs => rw [← hp.1, List.map_set]
  obtain ⟨⟨_, _, hrecorded⟩, -⟩ := h.recorded.step hp ⟨hserve.left, hserve.right, hserve.nesting⟩ hc
  obtain ⟨⟨_, _, htwice⟩, -⟩ := (h.twice hq).step hsits ⟨hserve.left, hserve.left, rfl⟩ hc
  exact ⟨htwice.holds.1, hrecorded.holds.upheld⟩

end Company

end ChurchStore.Simulation
