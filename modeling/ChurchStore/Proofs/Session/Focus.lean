import ChurchStore.Proofs.Coupling
import ChurchStore.Proofs.Session.Run

/-!
# One of several evaluators

An operation for one evaluator of a session neither reads nor changes the others: the session does
what it would do if the evaluator were alone in it. A number that no evaluator has is as good as
that of one that has been ended.
-/

namespace ChurchStore.Session

variable {W H α β : Type}

/-- The session with one evaluator only. -/
def alone (s : Session W H) (seat : Seat H) : Session W H := ⟨s.machine, #[seat], s.bindings⟩

/-- What the seat with a number can be taken for: an ended one if there is none. -/
def HasSeat (seats : Array (Seat H)) (number : Nat) (seat : Seat H) : Prop :=
  seats.setIfInBounds number seat = seats ∧ (seats.size ≤ number → seat.isOpen = false)

/-- A session that has come from one evaluator alone, seated among those of `seats`. -/
def Seats (number : Nat) (seats : Array (Seat H)) (s s₀ : Session W H) : Prop :=
  ∃ seat, s₀.seats = #[seat] ∧ s = ⟨s₀.machine, seats.setIfInBounds number seat, s₀.bindings⟩ ∧
    (seats.size ≤ number → seat.isOpen = false)

/-- A part of a command does the same in a session as in the session with one evaluator only. -/
def Focuses (number : Nat) (seats : Array (Seat H)) (x y : Play W H α) : Prop :=
  Coupled (Seats number seats) x y (fun a b s s₀ => a = b ∧ Seats number seats s s₀)
    fun _ => Seats number seats

namespace Focuses

variable {number : Nat} {seats : Array (Seat H)} {x y : Play W H α}

theorem pure (a : α) : Focuses number seats (Pure.pure a : Play W H α) (Pure.pure a) :=
  Coupled.pure fun _ _ h => ⟨rfl, h⟩

theorem bind {k l : α → Play W H β} (h : Focuses number seats x y)
    (hk : ∀ a, Focuses number seats (k a) (l a)) : Focuses number seats (x >>= k) (y >>= l) := by
  refine Coupled.bind h fun a b s s₀ => ?_
  rintro ⟨rfl, hs⟩
  exact hk a s s₀ hs

theorem act (op : Act W α) : Focuses number seats (Session.act op) (Session.act op) := by
  rintro _ ⟨m, _, bindings⟩ ⟨seat, rfl, rfl, hended⟩
  simp only [Session.act]
  cases op m with
  | ok a m' => exact ⟨rfl, seat, rfl, rfl, hended⟩
  | error f m' => exact ⟨rfl, seat, rfl, rfl, hended⟩

theorem handle (name : Name) :
    Focuses number seats (Session.handle name : Play W H H) (Session.handle name) := by
  rintro _ ⟨m, _, bindings⟩ ⟨seat, rfl, rfl, hended⟩
  cases hb : bindings[name]? with
  | none =>
    rw [handle_of_none hb, handle_of_none hb]
    exact ⟨rfl, seat, rfl, rfl, hended⟩
  | some h =>
    rw [handle_of_some hb, handle_of_some hb]
    exact ⟨rfl, seat, rfl, rfl, hended⟩

theorem evaluator : Focuses number seats
    (Session.evaluator number : Play W H (Evaluator H)) (Session.evaluator 0) := by
  rintro _ ⟨m, _, bindings⟩ ⟨⟨e, isOpen⟩, rfl, rfl, hended⟩
  have hseat₀ : (#[⟨e, isOpen⟩] : Array (Seat H))[0]? = some ⟨e, isOpen⟩ := rfl
  by_cases hn : number < seats.size
  · have hseat : (seats.setIfInBounds number ⟨e, isOpen⟩)[number]? = some ⟨e, isOpen⟩ := by
      rw [Array.getElem?_setIfInBounds_self_of_lt hn]
    cases isOpen with
    | true =>
      rw [evaluator_of_open hseat, evaluator_of_open hseat₀]
      exact ⟨rfl, _, rfl, rfl, hended⟩
    | false =>
      rw [evaluator_of_ended hseat, evaluator_of_ended hseat₀]
      exact ⟨rfl, _, rfl, rfl, hended⟩
  · obtain rfl : isOpen = false := hended (Nat.le_of_not_lt hn)
    have hnone : (seats.setIfInBounds number ⟨e, false⟩)[number]? = none := by
      simpa using hn
    rw [evaluator_of_none hnone, evaluator_of_ended hseat₀]
    exact ⟨rfl, _, rfl, rfl, hended⟩

theorem endSeat (e : Evaluator H) : Focuses number seats
    (Session.seat number ⟨e, false⟩ : Play W H Unit) (Session.seat 0 ⟨e, false⟩) := by
  rintro _ ⟨m, _, bindings⟩ ⟨old, rfl, rfl, -⟩
  exact ⟨rfl, ⟨e, false⟩, rfl, by simp, fun _ => rfl⟩

theorem erase (name : Name) : Focuses number seats
    (modify fun ⟨machine, seats, bindings⟩ => ⟨machine, seats, bindings.erase name⟩ :
      Play W H Unit)
    (modify fun ⟨machine, seats, bindings⟩ => ⟨machine, seats, bindings.erase name⟩) := by
  rintro _ ⟨m, _, bindings⟩ ⟨seat, rfl, rfl, hended⟩
  exact ⟨rfl, seat, rfl, rfl, hended⟩

end Focuses

variable [Host W H] {number : Nat} {seats : Array (Seat H)}

theorem Seats.giveBack {s s₀ : Session W H} (h : Seats number seats s s₀) (x : H) :
    Seats number seats (Session.giveBack x s) (Session.giveBack x s₀) := by
  obtain ⟨m, _, bindings⟩ := s₀
  obtain ⟨seat, rfl, rfl, hended⟩ := h
  exact ⟨seat, rfl, rfl, hended⟩

namespace Focuses

theorem giveBack (h : H) : Focuses number seats (modify (Session.giveBack h) : Play W H Unit)
    (modify (Session.giveBack h)) :=
  fun _ _ hs => ⟨rfl, hs.giveBack h⟩

variable {x y : Play W H α}

theorem holding (h : H) (hxy : Focuses number seats x y) :
    Focuses number seats (Session.holding h x) (Session.holding h y) := by
  intro s s₀ hs
  simp only [Session.holding]
  obtain ⟨a, b, s', s₀', hx, hy, rfl, hs'⟩ | ⟨r, s', s₀', hx, hy, hs'⟩ := Coupled.cases hxy hs
  · rw [hx, hy]
    exact ⟨rfl, hs'.giveBack h⟩
  · rw [hx, hy]
    exact ⟨rfl, hs'.giveBack h⟩

theorem onRefusal (h : H) (hxy : Focuses number seats x y) :
    Focuses number seats (Session.onRefusal h x) (Session.onRefusal h y) := by
  intro s s₀ hs
  simp only [Session.onRefusal]
  obtain ⟨a, b, s', s₀', hx, hy, rfl, hs'⟩ | ⟨r, s', s₀', hx, hy, hs'⟩ := Coupled.cases hxy hs
  · rw [hx, hy]
    exact ⟨rfl, hs'⟩
  · rw [hx, hy]
    exact ⟨rfl, hs'.giveBack h⟩

theorem assign (name : Name) (h : H) : Focuses number seats
    (Session.assign name h : Play W H Unit) (Session.assign name h) := by
  rintro _ ⟨m, _, bindings⟩ ⟨seat, rfl, rfl, hended⟩
  rw [assign_apply, assign_apply]
  refine ⟨rfl, ?_⟩
  have hset : Seats number seats
      ⟨m, seats.setIfInBounds number seat, bindings.insert name h⟩
      (⟨m, #[seat], bindings.insert name h⟩ : Session W H) := ⟨seat, rfl, rfl, hended⟩
  cases hb : bindings[name]? with
  | none => exact hset
  | some old => exact hset.giveBack old

theorem store (dest : Name) (h : H) : Focuses number seats
    (Session.store dest h : Play W H Answer) (Session.store dest h) :=
  (assign dest h).bind fun _ => (act _).bind fun _ => pure _

theorem keep (dest : Option Name) (h : H) : Focuses number seats
    (Session.keep dest h : Play W H Placement) (Session.keep dest h) := by
  refine holding h ?_
  cases dest with
  | none => exact act _
  | some dest => exact (act _).bind fun h' => (assign dest h').bind fun _ => act _

theorem keepCaptures (toN toS : Option Name) (c : Closure H) : Focuses number seats
    (Session.keepCaptures toN toS c : Play W H (Closure Placement))
    (Session.keepCaptures toN toS c) := by
  cases c with
  | zero | zeroInner | succ | intLiteral | inc => exact pure _
  | succPartial n => exact (keep toN n).bind fun _ => pure _
  | succInner n s =>
    exact (onRefusal s (keep toN n)).bind fun _ => (keep toS s).bind fun _ => pure _

theorem capture (c : Closure Name) : Focuses number seats
    (Session.capture c : Play W H (Closure H)) (Session.capture c) := by
  cases c with
  | zero | zeroInner | succ | intLiteral | inc => exact pure _
  | succPartial n => exact (handle n).bind fun n => (act _).bind fun _ => pure _
  | succInner n s =>
    refine (handle n).bind fun n => (handle s).bind fun s => ?_
    exact (act _).bind fun _ => (act _).bind fun _ => pure _

theorem assignAll (dest : Name) (table : List H) : Focuses number seats
    (Session.assignAll dest table : Play W H Unit) (Session.assignAll dest table) := by
  rw [Session.assignAll]
  induction table.zipIdx with
  | nil => exact pure _
  | cons entry entries ih => exact (assign _ _).bind fun _ => ih

/-- Operations for one evaluator focus on it. -/
theorem perform {command : Command} (hc : command.isOperation = true) :
    Focuses number seats (Session.perform number command : Play W H Answer)
      (Session.perform 0 command) := by
  have hstored (op : Act W H) (dest : Name) : Focuses number seats
      (Session.act op >>= Session.store dest : Play W H Answer)
      (Session.act op >>= Session.store dest) :=
    (act op).bind fun h => store dest h
  cases command with
  | new | stats | extent | ledger | reset | demo => cases hc
  | builtin b dest => exact evaluator.bind fun e => hstored _ dest
  | int value dest => exact evaluator.bind fun e => hstored _ dest
  | numeral k dest => exact evaluator.bind fun e => hstored _ dest
  | apply f x dest | plus f x dest | mul f x dest =>
    refine evaluator.bind fun e => ?_
    exact (handle f).bind fun f => (handle x).bind fun x => hstored _ dest
  | successor n dest => exact evaluator.bind fun e => (handle n).bind fun n => hstored _ dest
  | alloc c dest => exact evaluator.bind fun e => (capture c).bind fun c => hstored _ dest
  | clone a dest => exact (handle a).bind fun a => hstored _ dest
  | numerals count dest =>
    refine evaluator.bind fun e => (act _).bind fun table => ?_
    exact (assignAll dest table.toList).bind fun _ => pure _
  | resolve a toN toS =>
    refine evaluator.bind fun e => (handle a).bind fun a => (act _).bind fun c => ?_
    exact (keepCaptures toN toS c).bind fun _ => pure _
  | toInt a | kind a | fold a =>
    exact evaluator.bind fun e => (handle a).bind fun a => (act _).bind fun _ => pure _
  | pow a b =>
    refine evaluator.bind fun e => (handle a).bind fun a => (handle b).bind fun b => ?_
    exact (act _).bind fun _ => pure _
  | same a b =>
    exact evaluator.bind fun e => (handle a).bind fun a => (handle b).bind fun b => pure _
  | describe a => exact (handle a).bind fun a => (act _).bind fun _ => pure _
  | drop a =>
    exact (handle a).bind fun h => (erase a).bind fun _ => (giveBack h).bind fun _ => pure _
  | close =>
    exact evaluator.bind fun e => (act _).bind fun _ => (endSeat _).bind fun _ => pure _

end Focuses

/-- A session does what one of its evaluators would do alone, and keeps the others. -/
theorem step_eq_alone {s : Session W H} {seat : Seat H} (hs : HasSeat s.seats number seat)
    {command : Command} (hc : command.isOperation = true) :
    (s.step number (some command)).1.answer =
        ((s.alone seat).step 0 (some command)).1.answer ∧
      Seats number s.seats (s.step number (some command)).2
        ((s.alone seat).step 0 (some command)).2 := by
  have hstart : Seats number s.seats s (s.alone seat) := by
    refine ⟨seat, rfl, ?_, hs.2⟩
    rw [hs.1]
    rfl
  obtain ⟨a, _, s', s₀', hx, hy, rfl, hs'⟩ | ⟨r, s', s₀', hx, hy, hs'⟩ :=
    Coupled.cases (Focuses.perform hc) hstart
  · simp only [step, Option.elim_some, hx, hy]
    obtain ⟨seat', hseats, heq, hended⟩ := hs'
    exact ⟨trivial, seat', hseats, by rw [heq], hended⟩
  · simp only [step, Option.elim_some, hx, hy]
    obtain ⟨seat', hseats, heq, hended⟩ := hs'
    exact ⟨trivial, seat', hseats, by rw [heq], hended⟩

end ChurchStore.Session
