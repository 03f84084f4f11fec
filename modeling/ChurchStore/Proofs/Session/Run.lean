import ChurchStore.Session

/-!
# Runs of one evaluator

A run opens one evaluator in a new session and then carries out commands for it, one after the
other, whether they answer or are refused. The handles held at a moment of a run are those of the
builtin functions, while the evaluator has not been ended, and those in variables.
-/

namespace ChurchStore.Session

/-- The commands that work on closures and numerals by the handles in variables, and the one that
ends the evaluator. Others open evaluators, reset them, run demos or report sizes and counters. -/
def Command.isOperation : Command → Bool
  | .new _ | .stats | .extent | .ledger | .reset | .demo .. => false
  | _ => true

/-- The command that resets an evaluator. -/
def Command.isReset : Command → Bool
  | .reset => true
  | _ => false

/-- The commands that only report sizes and counters. -/
def Command.isReport : Command → Bool
  | .stats | .extent | .ledger => true
  | _ => false

variable {W H : Type}

theorem get_apply (s : Session W H) : (get : Play W H (Session W H)) s = .ok s s := rfl

theorem evaluator_of_none {s : Session W H} {number : Nat} (h : s.seats[number]? = none) :
    evaluator number s = .error .unknown s := by
  simp only [evaluator, Bind.bind, EStateM.bind, get_apply, h]
  rfl

theorem evaluator_of_open {s : Session W H} {number : Nat} {e : Evaluator H}
    (h : s.seats[number]? = some ⟨e, true⟩) : evaluator number s = .ok e s := by
  simp only [evaluator, Bind.bind, EStateM.bind, get_apply, h]
  rfl

theorem evaluator_of_ended {s : Session W H} {number : Nat} {e : Evaluator H}
    (h : s.seats[number]? = some ⟨e, false⟩) : evaluator number s = .error .unknown s := by
  simp only [evaluator, Bind.bind, EStateM.bind, get_apply, h]
  rfl

theorem handle_of_some {s : Session W H} {name : Name} {h : H} (hs : s.bindings[name]? = some h) :
    handle name s = .ok h s := by
  simp only [handle, Bind.bind, EStateM.bind, get_apply, hs]
  rfl

theorem handle_of_none {s : Session W H} {name : Name} (hs : s.bindings[name]? = none) :
    handle name s = .error .unknown s := by
  simp only [handle, Bind.bind, EStateM.bind, get_apply, hs]
  rfl

variable [Host W H]

/-- A session on the given store in which one evaluator has been opened. -/
def openedOn (w : W) (filter : Log.Filter) (limits : Limits) : Session W H :=
  (step { machine := { store := w, journal := { filter } } } 0 (some (.new limits))).2

/-- A session in which one evaluator has been opened. -/
def opened (W : Type) {H : Type} [Host W H] (filter : Log.Filter) (limits : Limits) :
    Session W H :=
  openedOn Host.initial filter limits

/-- The session after commands for its first evaluator. -/
def after (s : Session W H) (commands : List Command) : Session W H :=
  commands.foldl (fun s c => (s.step 0 (some c)).2) s

/-- What a session answers to commands for its first evaluator. -/
def answers (s : Session W H) : List Command → List (Except Refusal Answer)
  | [] => []
  | c :: commands => (s.step 0 (some c)).1.answer :: (s.step 0 (some c)).2.answers commands

theorem after_cons (s : Session W H) (c : Command) (commands : List Command) :
    s.after (c :: commands) = (s.step 0 (some c)).2.after commands := rfl

/-- A session without evaluators and variables refuses what is asked of it. -/
theorem step_of_unopened {s : Session W H} {command : Command} (hseats : s.seats = #[])
    (hbindings : ∀ name : Name, s.bindings[name]? = none) (number : Nat)
    (hc : command.isOperation = true ∨ command.isReset = true) :
    (s.step number (some command)).1.answer = .error .unknown ∧
      (s.step number (some command)).2 = { s with machine.journal.events := #[] } := by
  have he : evaluator number s = .error .unknown s := evaluator_of_none (by rw [hseats]; rfl)
  have hh (name : Name) : handle name s = .error .unknown s := handle_of_none (hbindings name)
  have hperform : perform number command s = .error .unknown s := by
    cases command with
    | new | stats | extent | ledger | demo => simp [Command.isOperation, Command.isReset] at hc
    | clone | describe | drop => simp only [perform, Bind.bind, EStateM.bind, hh]
    | _ => simp only [perform, Bind.bind, EStateM.bind, he]
  simp only [step, Option.elim_some, hperform, and_self]

theorem seats_after_of_unopened {s : Session W H} (hseats : s.seats = #[])
    (hbindings : ∀ name : Name, s.bindings[name]? = none) (commands : List Command)
    (hc : ∀ command ∈ commands, command.isOperation = true ∨ command.isReset = true) :
    (s.after commands).seats = #[] := by
  induction commands generalizing s with
  | nil => exact hseats
  | cons command commands ih =>
    obtain ⟨-, hstep⟩ := step_of_unopened hseats hbindings 0
      (hc command (List.mem_cons_self ..))
    rw [after_cons, hstep]
    exact ih hseats hbindings fun x hx => hc x (List.mem_cons_of_mem command hx)

/-- Where no evaluator can be opened, there is none. -/
theorem openedOn_of_error {w : W} {filter : Log.Filter} {limits : Limits} {f : Fault}
    {m : Machine W} (h : Host.openWith limits ⟨w, { filter }⟩ = .error f m) :
    (openedOn w filter limits).seats = #[] ∧ (openedOn w filter limits).bindings = {} := by
  simp only [openedOn, step, Option.elim_some, perform, Bind.bind, EStateM.bind, act, h, and_self]

theorem step_reset_of_open {s : Session W H} {e e' : Evaluator H} {m : Machine W}
    {reset : Evaluator H → Act W (Evaluator H)} (hreset : Host.reset? = some reset)
    (hs : s.seats[0]? = some ⟨e, true⟩) (hx : reset e s.machine = .ok e' m) :
    (s.step 0 (some .reset)).2 =
      ⟨{ m with journal.events := #[] }, s.seats.setIfInBounds 0 ⟨e', true⟩, s.bindings⟩ := by
  simp only [step, Option.elim_some, perform, Bind.bind, EStateM.bind, evaluator_of_open hs,
    hreset, act, hx]
  rfl

/-- A reset is answered with the size of the store afterwards. -/
theorem answer_reset_of_open {s : Session W H} {e e' : Evaluator H} {m : Machine W}
    {reset : Evaluator H → Act W (Evaluator H)} (hreset : Host.reset? = some reset)
    (hs : s.seats[0]? = some ⟨e, true⟩) (hx : reset e s.machine = .ok e' m) :
    (s.step 0 (some .reset)).1.answer = .ok (.extent (Host.extent e'.site m.store)) := by
  simp only [step, Option.elim_some, perform, Bind.bind, EStateM.bind, evaluator_of_open hs,
    hreset, act, hx]
  rfl

theorem answer_reset_of_ended {s : Session W H} {e : Evaluator H}
    (hs : s.seats[0]? = some ⟨e, false⟩) :
    (s.step 0 (some .reset)).1.answer = .error .unknown := by
  simp only [step, Option.elim_some, perform, Bind.bind, EStateM.bind, evaluator_of_ended hs]

theorem step_reset_of_ended {s : Session W H} {e : Evaluator H}
    (hs : s.seats[0]? = some ⟨e, false⟩) :
    (s.step 0 (some .reset)).2 = { s with machine.journal.events := #[] } := by
  simp only [step, Option.elim_some, perform, Bind.bind, EStateM.bind, evaluator_of_ended hs]

/-- The handles for the builtin functions that a seat holds. -/
def Seat.handles (s : Seat H) : List H :=
  if s.isOpen then Builtin.all.map s.evaluator.singletons.get else []

/-- All handles that are held: those of evaluators that have not been ended, and variables. -/
def handles (s : Session W H) : List H := s.seats.toList.flatMap Seat.handles ++ s.bindings.values

/-- What an answer says of values: the places of handles, which each store has its own way of
describing, are left out. -/
def Answer.unplaced : Answer → Answer
  | .place _ => .nothing
  | .closure c => .closure (c.map fun _ => .arena 0 0)
  | a => a

/-- An answer in which the places of handles are seen through `f`. -/
def Answer.seen (f : Placement → Placement) : Answer → Answer
  | .place p => .place (f p)
  | .closure c => .closure (c.map f)
  | a => a

theorem Answer.unplaced_seen (f : Placement → Placement) (a : Answer) :
    (a.seen f).unplaced = a.unplaced := by
  cases a with
  | closure c => cases c <;> rfl
  | _ => rfl

/-- Setting a variable gives back what it held. -/
theorem assign_apply (name : Name) (h : H) (s : Session W H) :
    assign name h s = .ok () (s.bindings[name]?.elim id giveBack
      { s with bindings := s.bindings.insert name h }) := by
  obtain ⟨m, seats, bindings⟩ := s
  simp only [assign, Bind.bind, EStateM.bind, get_apply]
  cases bindings[name]? <;> rfl

end ChurchStore.Session
