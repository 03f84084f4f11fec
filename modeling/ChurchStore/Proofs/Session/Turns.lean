import ChurchStore.Proofs.Grove
import ChurchStore.Proofs.Session.Run

/-!
# Runs of several evaluators

A run of a session with any number of evaluators is a sequence of turns. In each turn one of them
carries out an operation, or a further one is opened.
-/

namespace ChurchStore.Session

/-- Operations, and opening an evaluator. -/
def Command.isTurn : Command → Bool
  | .new _ => true
  | command => command.isOperation

variable {W H : Type}

/-- The evaluator at work in a turn: the one that the command is for, or the one that it opens. -/
def worker (s : Session W H) : Nat × Command → Nat
  | (_, .new _) => s.seats.size
  | (number, _) => number

variable [Host W H]

/-- The session after some turns. -/
def afterTurns (s : Session W H) (turns : List (Nat × Command)) : Session W H :=
  turns.foldl (fun s turn => (s.step turn.1 (some turn.2)).2) s

/-- What a session answers in some turns. -/
def turnAnswers (s : Session W H) : List (Nat × Command) → List (Except Refusal Answer)
  | [] => []
  | turn :: turns =>
    (s.step turn.1 (some turn.2)).1.answer :: (s.step turn.1 (some turn.2)).2.turnAnswers turns

/-- For each closure that is made in some turns the evaluator that makes it. -/
def makers {b : Nat} (t : Session (Grove b) Tree) : List (Nat × Command) → List Nat
  | [] => []
  | turn :: turns =>
    let t' := (t.step turn.1 (some turn.2)).2
    List.replicate (t'.machine.store.made.length - t.machine.store.made.length) (t.worker turn) ++
      t'.makers turns

/-- At the end all handles that are held are given back. -/
theorem finish_eq (s : Session W H) : s.finish = s.seats.toList.map fun seat =>
    Host.ledger? seat.evaluator.site (Backend.releaseAll s.handles s.machine.store) := by
  have hseats (l : List (Seat H)) : ((l.filter (·.isOpen)).flatMap fun seat =>
      Builtin.all.map seat.evaluator.singletons.get) = l.flatMap Seat.handles := by
    induction l with
    | nil => rfl
    | cons seat l ih => cases hopen : seat.isOpen <;> simp [Seat.handles, hopen, ih]
  rw [finish, handles, hseats]

theorem step_new_of_ok {s : Session W H} {limits : Limits} {e : Evaluator H} {m : Machine W}
    (h : Host.openWith limits s.machine = .ok e m) (number : Nat) :
    (s.step number (some (.new limits))).1.answer = .ok (.count s.seats.size) ∧
      (s.step number (some (.new limits))).2 =
        ⟨{ m with journal.events := #[] }, s.seats.push ⟨e, true⟩, s.bindings⟩ := by
  have hperform : perform number (.new limits) s =
      .ok (.count s.seats.size) ⟨m, s.seats.push ⟨e, true⟩, s.bindings⟩ := by
    simp only [perform, Bind.bind, EStateM.bind, act, h]
    rfl
  simp only [step, Option.elim_some, hperform, and_self]

/-- Where there is no evaluator, no tree is made. -/
theorem store_step_of_absent {b : Nat} {t : Session (Grove b) Tree} {number : Nat}
    (hn : t.seats.size ≤ number) {command : Command} (hc : command.isOperation = true) :
    (t.step number (some command)).2.machine.store = t.machine.store := by
  have he : evaluator number t = .error .unknown t := evaluator_of_none (by simpa using hn)
  -- A command that only takes the handle in a variable needs no evaluator.
  have hhandle (name : Name) : handle name t = .error .unknown t ∨
      ∃ u, handle name t = .ok u t := by
    cases hu : t.bindings[name]? with
    | none => exact .inl (handle_of_none hu)
    | some u => exact .inr ⟨u, handle_of_some hu⟩
  have hstored (dest : Name) (u : Tree) : ∃ a bindings,
      (act (Backend.clone u) >>= store dest) t = .ok a ⟨t.machine, t.seats, bindings⟩ := by
    have hclone : act (Backend.clone u) t = .ok u t := rfl
    simp only [store, Bind.bind, EStateM.bind, hclone, assign_apply]
    cases t.bindings[dest]? <;> exact ⟨_, _, rfl⟩
  simp only [Bind.bind, EStateM.bind] at hstored
  cases command with
  | new | stats | extent | ledger | reset | demo => cases hc
  | clone a dest =>
    simp only [step, Option.elim_some, perform, Bind.bind, EStateM.bind]
    obtain hu | ⟨u, hu⟩ := hhandle a
    · simp only [hu]
    · obtain ⟨answer, bindings, hstored⟩ := hstored dest u
      simp only [hu, hstored]
  | describe a | drop a =>
    simp only [step, Option.elim_some, perform, Bind.bind, EStateM.bind]
    obtain hu | ⟨u, hu⟩ := hhandle a
    · simp only [hu]
    · simp only [hu]
      rfl
  | _ => simp only [step, Option.elim_some, perform, Bind.bind, EStateM.bind, he]

end ChurchStore.Session
