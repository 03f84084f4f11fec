import ChurchStore.Proofs.Session.Run
import ChurchStore.Proofs.Upholding

/-!
# The evaluators of a session

An operation neither opens nor replaces an evaluator. At most it ends one, which keeps its seat.
Reports do not change anything.
-/

namespace ChurchStore.Session

variable {W H α : Type}

/-- The evaluators of a session, also those that have been ended. -/
def evaluators (s : Session W H) : Array (Evaluator H) := s.seats.map (·.evaluator)

theorem mem_evaluators {s : Session W H} {number : Nat} {seat : Seat H}
    (h : s.seats[number]? = some seat) : s.evaluators[number]? = some seat.evaluator := by
  rw [evaluators, Array.getElem?_map, h]
  rfl

section Keeping

variable {I : Session W H → Prop}

theorem keeps_evaluator {P : Evaluator H → Prop} (number : Nat)
    (hP : ∀ s e, I s → s.seats[number]? = some ⟨e, true⟩ → P e) :
    ChurchStore.Upholds I (fun _ => I) P (evaluator number : Play W H (Evaluator H)) := by
  intro s hs
  cases hseat : s.seats[number]? with
  | none =>
    rw [evaluator_of_none hseat]
    exact hs
  | some seat =>
    obtain ⟨e, _ | _⟩ := seat
    · rw [evaluator_of_ended hseat]
      exact hs
    · rw [evaluator_of_open hseat]
      exact ⟨hP s e hs hseat, hs⟩

theorem keeps_read (f : W → α) :
    ChurchStore.Upholds I (fun _ => I) (fun _ => True) (act (.read f) : Play W H α) :=
  fun _ hs => ⟨trivial, hs⟩

variable [Host W H]

/-- Whatever is true of a session is still true after a report. -/
theorem keeps_report (number : Nat) {command : Command} (hc : command.isReport = true) :
    ChurchStore.Upholds I (fun _ => I) (fun _ => True)
      (perform number command : Play W H Answer) := by
  cases command with
  | stats | extent =>
    refine (keeps_evaluator (P := fun _ => True) number fun _ _ _ _ => trivial).bind fun e _ => ?_
    exact (keeps_read _).bind fun _ _ => .pure trivial
  | ledger =>
    refine Upholds.get.bind fun s _ => ?_
    split
    · exact .throw fun _ hs => hs
    · refine (keeps_read _).bind fun l _ => ?_
      split
      · exact .pure trivial
      · exact .throw fun _ hs => hs
  | _ => cases hc

/-- A store that cannot be reset stays as it is. -/
theorem keeps_reset_of_none
    (hreset : (Host.reset? : Option (Evaluator H → Act W (Evaluator H))) = none) (number : Nat) :
    ChurchStore.Upholds I (fun _ => I) (fun _ => True)
      (perform number .reset : Play W H Answer) := by
  refine (keeps_evaluator (P := fun _ => True) number fun _ _ _ _ => trivial).bind fun e _ => ?_
  rw [hreset]
  exact .throw fun _ hs => hs

/-- A step ends where the command ends, and forgets the log. -/
theorem exists_step_of_keeps {P : Answer → Prop} {number : Nat} {command : Command}
    (h : ChurchStore.Upholds I (fun _ => I) P (perform number command : Play W H Answer))
    {s : Session W H} (hs : I s) :
    ∃ s', I s' ∧ (s.step number (some command)).2 = { s' with machine.journal.events := #[] } := by
  simp only [step, Option.elim_some]
  cases hrun : perform number command s with
  | ok a s' => exact ⟨s', (h.of_ok hs hrun).2, rfl⟩
  | error r s' => exact ⟨s', h.of_error hs hrun, rfl⟩

end Keeping

/-- A part of a command leaves all evaluators in their seats. -/
abbrev Tenured (es : Array (Evaluator H)) (P : α → Prop) (x : Play W H α) : Prop :=
  ChurchStore.Upholds (fun s => s.evaluators = es) (fun _ s => s.evaluators = es) P x

namespace Tenured

variable {es : Array (Evaluator H)} {P : α → Prop}

theorem act (op : Act W α) : Tenured es (fun _ => True) (Session.act op : Play W H α) := by
  intro s hs
  simp only [Session.act]
  cases op s.machine with
  | ok a m => exact ⟨trivial, hs⟩
  | error f m => exact hs

theorem evaluator (number : Nat) : Tenured es (fun e => es[number]? = some e)
    (Session.evaluator number : Play W H (Evaluator H)) :=
  keeps_evaluator number fun _ _ hs hseat => hs ▸ mem_evaluators hseat

theorem handle (name : Name) : Tenured es (fun _ => True) (Session.handle name : Play W H H) := by
  intro s hs
  cases hvar : s.bindings[name]? with
  | none =>
    rw [handle_of_none hvar]
    exact hs
  | some h =>
    rw [handle_of_some hvar]
    exact ⟨trivial, hs⟩

/-- Ending the evaluator with a number does not take its seat away. -/
theorem endSeat {number : Nat} {e : Evaluator H} (he : es[number]? = some e) :
    Tenured es (fun _ => True) (seat number ⟨e, false⟩ : Play W H Unit) := by
  refine .modify fun s hs => ?_
  rw [← hs] at he ⊢
  rw [evaluators, Array.getElem?_map, Option.map_eq_some_iff] at he
  obtain ⟨old, hold, rfl⟩ := he
  obtain ⟨hi, hget⟩ := Array.getElem?_eq_some_iff.1 hold
  refine Array.ext_getElem? fun i => ?_
  simp only [evaluators, Array.getElem?_map, Array.getElem?_setIfInBounds]
  split
  · subst_vars
    rw [hold]
    rfl
  · rfl

theorem erase (a : Name) : Tenured es (fun _ => True)
    (modify (fun s => { s with bindings := s.bindings.erase a }) : Play W H Unit) :=
  .modify fun _ hs => hs

variable [Host W H]

theorem giveBack (h : H) :
    Tenured es (fun _ => True) (modify (Session.giveBack h) : Play W H Unit) :=
  .modify fun _ hs => hs

theorem holding (h : H) {x : Play W H α} (hx : Tenured es P x) :
    Tenured es P (Session.holding h x) := by
  intro s hs
  rw [Session.holding]
  cases hrun : x s with
  | ok a s' =>
    obtain ⟨hP, hs'⟩ := hx.of_ok hs hrun
    exact ⟨hP, hs'⟩
  | error r s' =>
    have hs' := hx.of_error hs hrun
    exact hs'

theorem onRefusal (h : H) {x : Play W H α} (hx : Tenured es P x) :
    Tenured es P (Session.onRefusal h x) := by
  intro s hs
  rw [Session.onRefusal]
  cases hrun : x s with
  | ok a s' => exact hx.of_ok hs hrun
  | error r s' =>
    have hs' := hx.of_error hs hrun
    exact hs'

theorem assign (dest : Name) (h : H) :
    Tenured es (fun _ => True) (Session.assign dest h : Play W H Unit) := by
  intro s hs
  rw [assign_apply]
  cases s.bindings[dest]? with
  | none => exact ⟨trivial, hs⟩
  | some old => exact ⟨trivial, hs⟩

theorem stored (op : Act W H) (dest : Name) :
    Tenured es (fun _ => True) (Session.act op >>= store dest : Play W H Answer) :=
  (act op).bind fun h _ => (assign dest h).bind fun _ _ => (act _).bind fun _ _ => .pure trivial

theorem keep (dest : Option Name) (h : H) :
    Tenured es (fun _ => True) (Session.keep dest h : Play W H Placement) := by
  refine holding h ?_
  cases dest with
  | none => exact act _
  | some dest => exact (act _).bind fun x _ => (assign dest x).bind fun _ _ => act _

theorem keepCaptures (toN toS : Option Name) (c : Closure H) : Tenured es (fun _ => True)
    (Session.keepCaptures toN toS c : Play W H (Closure Placement)) := by
  cases c with
  | zero | zeroInner | succ | intLiteral | inc => exact .pure trivial
  | succPartial n => exact (keep toN n).bind fun _ _ => .pure trivial
  | succInner n s =>
    exact (onRefusal s (keep toN n)).bind fun _ _ => (keep toS s).bind fun _ _ => .pure trivial

theorem capture (c : Closure Name) :
    Tenured es (fun _ => True) (Session.capture c : Play W H (Closure H)) := by
  cases c with
  | zero | zeroInner | succ | intLiteral | inc => exact .pure trivial
  | succPartial n => exact (handle n).bind fun _ _ => (act _).bind fun _ _ => .pure trivial
  | succInner n s =>
    refine (handle n).bind fun _ _ => (handle s).bind fun _ _ => ?_
    exact (act _).bind fun _ _ => (act _).bind fun _ _ => .pure trivial

theorem assignAll (dest : Name) (table : List H) :
    Tenured es (fun _ => True) (Session.assignAll dest table : Play W H Unit) :=
  .forM fun _ _ => assign _ _

/-- After an operation all evaluators are still there. -/
theorem perform (number : Nat) {command : Command} (hc : command.isOperation = true) :
    Tenured es (fun _ => True) (Session.perform number command : Play W H Answer) := by
  cases command with
  | new | stats | extent | ledger | reset | demo => cases hc
  | builtin | int | numeral => exact (evaluator number).bind fun _ _ => stored _ _
  | apply f x | plus f x | mul f x =>
    refine (evaluator number).bind fun _ _ => ?_
    exact (handle f).bind fun _ _ => (handle x).bind fun _ _ => stored _ _
  | successor n =>
    exact (evaluator number).bind fun _ _ => (handle n).bind fun _ _ => stored _ _
  | alloc c => exact (evaluator number).bind fun _ _ => (capture c).bind fun _ _ => stored _ _
  | clone a => exact (handle a).bind fun _ _ => stored _ _
  | numerals count dest =>
    refine (evaluator number).bind fun _ _ => (act _).bind fun _ _ => ?_
    exact (assignAll _ _).bind fun _ _ => .pure trivial
  | resolve a toN toS =>
    refine (evaluator number).bind fun _ _ => (handle a).bind fun _ _ => (act _).bind fun c _ => ?_
    exact (keepCaptures toN toS c).bind fun _ _ => .pure trivial
  | toInt a | kind a | fold a =>
    refine (evaluator number).bind fun _ _ => (handle a).bind fun _ _ => ?_
    exact (act _).bind fun _ _ => .pure trivial
  | pow a b =>
    refine (evaluator number).bind fun _ _ => (handle a).bind fun _ _ => ?_
    exact (handle b).bind fun _ _ => (act _).bind fun _ _ => .pure trivial
  | same a b =>
    refine (evaluator number).bind fun _ _ => (handle a).bind fun _ _ => ?_
    exact (handle b).bind fun _ _ => .pure trivial
  | describe a => exact (handle a).bind fun _ _ => (act _).bind fun _ _ => .pure trivial
  | drop a =>
    refine (handle a).bind fun h _ => (erase a).bind fun _ _ => ?_
    exact (giveBack h).bind fun _ _ => .pure trivial
  | close =>
    refine (evaluator number).bind fun e he => (act _).bind fun _ _ => ?_
    exact (endSeat he).bind fun _ _ => .pure trivial

end Tenured

end ChurchStore.Session
