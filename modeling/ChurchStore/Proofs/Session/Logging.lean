import ChurchStore.Proofs.Session.Upholding

/-!
# What sessions log

A store changes step by step, and each step may log events. A trace is a sequence of such steps with
all that they log. If the primitive operations of a store leave traces, then so does every operation
of a session: what it logs are the events of its trace, and after them, if it stops with a
violation, the record of that.
-/

namespace ChurchStore

variable {W H α : Type}

/-- What becomes of a store step by step, and all that is logged meanwhile. Each step of the trace
does `R` to the store and logs the events that `R` says. -/
inductive Trace (R : List Log.Event → W → W → Prop) (w : W) : List Log.Event → W → Prop
  | refl : Trace R w [] w
  | tail {es es' : List Log.Event} {w' w'' : W} :
    Trace R w es w' → R es' w' w'' → Trace R w (es ++ es') w''

namespace Trace

variable {R R' : List Log.Event → W → W → Prop} {w w' w'' : W} {es es' : List Log.Event}

theorem single (h : R es w w') : Trace R w es w' := .tail .refl h

theorem trans (h : Trace R w es w') (h' : Trace R w' es' w'') : Trace R w (es ++ es') w'' := by
  induction h' with
  | refl => rwa [List.append_nil]
  | tail _ hstep ih =>
    rw [← List.append_assoc]
    exact .tail ih hstep

/-- What each step keeps is kept by the trace, and may be used to say more of the steps. -/
theorem refine {J : W → Prop} (hstep : ∀ es w w', J w → R es w w' → J w' ∧ R' es w w')
    (hw : J w) (h : Trace R w es w') : J w' ∧ Trace R' w es w' := by
  induction h with
  | refl => exact ⟨hw, .refl⟩
  | tail _ hlast ih =>
    obtain ⟨hJ, hR⟩ := hstep _ _ _ ih.1 hlast
    exact ⟨hJ, .tail ih.2 hR⟩

theorem forall_mem {P : Log.Event → Prop} (hR : ∀ es w w', R es w w' → ∀ e ∈ es, P e)
    (h : Trace R w es w') : ∀ e ∈ es, P e := by
  induction h with
  | refl => exact fun e he => absurd he List.not_mem_nil
  | tail _ hstep ih =>
    intro e he
    rcases List.mem_append.1 he with he | he
    · exact ih e he
    · exact hR _ _ _ hstep e he

end Trace

variable {R : List Log.Event → W → W → Prop} {A : Site → Prop}

/-- The second machine is what becomes of the first one by a trace that is logged. -/
def Machine.Reaches (R : List Log.Event → W → W → Prop) (m m' : Machine W) : Prop :=
  ∃ es, Trace R m.store es m'.store ∧ m'.journal = es.foldl Journal.record m.journal

/-- The second machine is what becomes of the first one by a trace that is logged and ends with a
fault. -/
def Machine.Halts (R : List Log.Event → W → W → Prop) (m : Machine W) (f : Fault)
    (m' : Machine W) : Prop :=
  ∃ n, m.Reaches R n ∧ m' = n.failed f

theorem Machine.Reaches.refl (m : Machine W) : m.Reaches R m := ⟨[], .refl, rfl⟩

theorem Machine.Reaches.trans {m m' m'' : Machine W} (h : m.Reaches R m')
    (h' : m'.Reaches R m'') : m.Reaches R m'' := by
  obtain ⟨es, htrace, hjournal⟩ := h
  obtain ⟨es', htrace', hjournal'⟩ := h'
  exact ⟨es ++ es', htrace.trans htrace', by rw [hjournal', hjournal, List.foldl_append]⟩

/-- A change that logs nothing. -/
theorem Machine.Reaches.change {m n : Machine W} {f : W → W} (h : m.Reaches R n)
    (hf : Trace R n.store [] (f n.store)) : m.Reaches R (n.change f) :=
  h.trans ⟨[], hf, rfl⟩

theorem Machine.Halts.change {m n : Machine W} {fault : Fault} {f : W → W}
    (h : m.Halts R fault n) (hf : ∀ w, Trace R w [] (f w)) : m.Halts R fault (n.change f) := by
  obtain ⟨n, hreach, rfl⟩ := h
  exact ⟨n.change f, hreach.change (hf _), n.change_failed fault f⟩

/-- What is logged of a fault. -/
def Fault.records : Fault → List Log.Event
  | .violation v => [.violation v]
  | _ => []

theorem Machine.journal_failed (m : Machine W) (f : Fault) :
    (m.failed f).journal = f.records.foldl Journal.record m.journal := by
  cases f <;> rfl

/-- A log that keeps everything keeps events behind the others. -/
theorem Journal.toList_events_foldl (es : List Log.Event) {j : Journal} (hj : j.filter = .all) :
    (es.foldl record j).filter = .all ∧
      (es.foldl record j).events.toList = j.events.toList ++ es := by
  induction es generalizing j with
  | nil => exact ⟨hj, (List.append_nil _).symm⟩
  | cons e es ih =>
    have hrecord : j.record e = { j with events := j.events.push e } := by
      rw [record, hj, Log.Filter.admits_all, if_pos rfl]
    have hkept : (j.record e).filter = .all := by rw [hrecord]; exact hj
    obtain ⟨hfilter, hevents⟩ := ih hkept
    refine ⟨hfilter, ?_⟩
    rw [List.foldl_cons, hevents, hrecord, Array.toList_push, List.append_assoc]
    rfl

theorem Machine.Reaches.events {m m' : Machine W} (h : m.Reaches R m')
    (hj : m.journal.filter = .all) : ∃ es, Trace R m.store es m'.store ∧
      m'.journal.filter = .all ∧ m'.journal.events.toList = m.journal.events.toList ++ es := by
  obtain ⟨es, htrace, hjournal⟩ := h
  obtain ⟨hfilter, hevents⟩ := Journal.toList_events_foldl es hj
  rw [← hjournal] at hfilter hevents
  exact ⟨es, htrace, hfilter, hevents⟩

theorem Machine.Halts.events {m m' : Machine W} {f : Fault} (h : m.Halts R f m')
    (hj : m.journal.filter = .all) : ∃ es, Trace R m.store es m'.store ∧
      m'.journal.filter = .all ∧
      m'.journal.events.toList = m.journal.events.toList ++ (es ++ f.records) := by
  obtain ⟨n, hreach, rfl⟩ := h
  obtain ⟨es, htrace, hfilter, hevents⟩ := hreach.events hj
  obtain ⟨hfilter', hevents'⟩ := Journal.toList_events_foldl f.records hfilter
  rw [← n.journal_failed] at hfilter' hevents'
  refine ⟨es, n.store_failed f ▸ htrace, hfilter', ?_⟩
  rw [hevents', hevents, List.append_assoc]

/-- The operation leaves a trace that is logged, whether it answers or stops. -/
def Act.Logs (R : List Log.Event → W → W → Prop) (op : Act W α) : Prop :=
  ∀ m, match op m with
    | .ok _ m' => m.Reaches R m'
    | .error f m' => m.Halts R f m'

theorem Act.Logs.upholds {op : Act W α} (h : Act.Logs R op) (m : Machine W) :
    Act.Upholds (m.Reaches R) (m.Halts R) (fun _ => True) op := by
  intro n hn
  have hop := h n
  cases hrun : op n with
  | ok a n' =>
    rw [hrun] at hop
    exact ⟨trivial, hn.trans hop⟩
  | error f n' =>
    rw [hrun] at hop
    obtain ⟨n₁, hreach, rfl⟩ := hop
    exact ⟨n₁, hn.trans hreach, rfl⟩

/-- A fault may come after any trace. -/
theorem Fault.allowed_reaches (m : Machine W) (f : Fault) :
    f.Allowed (m.Reaches R) (m.Halts R) := fun n hn => ⟨n, hn, rfl⟩

/-- The operations of a store leave traces, as far as they are for evaluators in one of the given
places or for none. No step of a trace logs an error. -/
structure Host.Logs [Host W H] (R : List Log.Event → W → W → Prop) (A : Site → Prop) : Prop where
  operates (m : Machine W) : Host.Operates (m.Reaches R) (m.Halts R) A
  level_ne (es : List Log.Event) (w w' : W) : R es w w' → ∀ e ∈ es, e.level ≠ .error

namespace Session

/-- What a command logs: some events that are no errors, and, if it stops with a violation, one
error after them, whose text is the message of the violation. -/
def Outcome.Accounts (o : Outcome) (es : List Log.Event) : Prop :=
  (∀ e ∈ es, e.level ≠ .error) ∧
    match o.answer with
    | .error (.fault (.violation v)) =>
      ∃ e : Log.Event, o.events = es ++ [e] ∧ e.level = .error ∧ e.message = v.message
    | _ => o.events = es

theorem Outcome.accounts_of_fault {o : Outcome} {es : List Log.Event} {f : Fault}
    (hes : ∀ e ∈ es, e.level ≠ .error) (ha : o.answer = .error (.fault f))
    (he : o.events = es ++ f.records) : o.Accounts es := by
  refine ⟨hes, ?_⟩
  rw [ha]
  cases f with
  | violation v => exact ⟨.violation v, he, rfl, rfl⟩
  | capacityOverflow | indexOutOfBounds | nestingLimit => simpa [Fault.records] using he

theorem Outcome.accounts_of_ok {o : Outcome} {es : List Log.Event} {a : Answer}
    (hes : ∀ e ∈ es, e.level ≠ .error) (ha : o.answer = .ok a) (he : o.events = es) :
    o.Accounts es := by
  refine ⟨hes, ?_⟩
  rw [ha]
  exact he

theorem Outcome.accounts_of_unknown {o : Outcome} {es : List Log.Event}
    (hes : ∀ e ∈ es, e.level ≠ .error) (ha : o.answer = .error .unknown) (he : o.events = es) :
    o.Accounts es := by
  refine ⟨hes, ?_⟩
  rw [ha]
  exact he

/-- The log keeps every event and is empty, as it is between commands. -/
def LogsAll (s : Session W H) : Prop := s.machine.journal = { filter := .all }

/-- All that a session logs while it carries out commands for its first evaluator. -/
def records [Host W H] (s : Session W H) : List Command → List Log.Event
  | [] => []
  | c :: commands => (s.step 0 (some c)).1.events ++ (s.step 0 (some c)).2.records commands

/-- Seats an evaluator at the next number. -/
def enroll (e : Evaluator H) : Play W H Answer := do
  let count := (← get).seats.size
  modify fun ⟨machine, seats, bindings⟩ => ⟨machine, seats.push ⟨e, true⟩, bindings⟩
  return .count count

theorem upholds_enroll {I : Machine W → Prop} {Q : Fault → Machine W → Prop} {e : Evaluator H}
    (he : A e.site) : Upholds I Q A (fun _ => True) (enroll e : Play W H Answer) := by
  refine Upholds.get.bind fun _ _ =>
    (Upholds.modify fun s hs => ⟨hs.machine, fun seat hseat => ?_⟩).bind fun _ _ => .pure trivial
  rcases Array.mem_push.1 hseat with hseat | rfl
  · exact hs.site_mem seat hseat
  · exact he

variable [Host W H] {s t : Session W H} {number : Nat} {command : Command}

/-- A command that goes on from a session like a play that leaves traces: it logs what the session
had logged, and then the events of a trace. -/
theorem accounts_of_upholds (hR : ∀ es w w', R es w w' → ∀ e ∈ es, e.level ≠ .error)
    {play : Play W H Answer} {P : Answer → Prop} (hrun : perform number command s = play t)
    (hplay : Upholds (t.machine.Reaches R) (t.machine.Halts R) A P play)
    (hfilter : t.machine.journal.filter = .all)
    (hlogged : ∀ e ∈ t.machine.journal.events.toList, e.level ≠ .error)
    (hseats : ∀ seat ∈ t.seats, A seat.evaluator.site) :
    (∃ es, Trace R t.machine.store es (s.step number (some command)).2.machine.store ∧
      (s.step number (some command)).1.Accounts (t.machine.journal.events.toList ++ es)) ∧
      (s.step number (some command)).2.LogsAll ∧
      ∀ seat ∈ (s.step number (some command)).2.seats, A seat.evaluator.site := by
  have hlevel {es : List Log.Event} {w : W} (htrace : Trace R t.machine.store es w) :
      ∀ e ∈ t.machine.journal.events.toList ++ es, e.level ≠ .error := by
    intro e he
    rcases List.mem_append.1 he with he | he
    · exact hlogged e he
    · exact htrace.forall_mem hR e he
  simp only [Session.step, Option.elim_some, hrun]
  -- Only a fault adds to the events of the trace; a refused name ends it as an answer does.
  cases hend : play t with
  | ok a s' =>
    obtain ⟨-, hreach, hseats⟩ := hplay.of_ok ⟨.refl _, hseats⟩ hend
    obtain ⟨es, htrace, hfilter, hevents⟩ := hreach.events hfilter
    exact ⟨⟨es, htrace, Outcome.accounts_of_ok (hlevel htrace) rfl hevents⟩,
      congrArg (Journal.mk · #[]) hfilter, hseats⟩
  | error r s' =>
    have hstop := hplay.of_error ⟨.refl _, hseats⟩ hend
    cases r with
    | unknown =>
      obtain ⟨hreach, hseats⟩ := hstop
      obtain ⟨es, htrace, hfilter, hevents⟩ := hreach.events hfilter
      exact ⟨⟨es, htrace, Outcome.accounts_of_unknown (hlevel htrace) rfl hevents⟩,
        congrArg (Journal.mk · #[]) hfilter, hseats⟩
    | fault f =>
      obtain ⟨hhalt, hseats⟩ := hstop
      obtain ⟨es, htrace, hfilter, hevents⟩ := hhalt.events hfilter
      rw [← List.append_assoc] at hevents
      exact ⟨⟨es, htrace, Outcome.accounts_of_fault (hlevel htrace) rfl hevents⟩,
        congrArg (Journal.mk · #[]) hfilter, hseats⟩

/-- An operation leaves a trace and accounts for it. -/
theorem accounts_step (hW : Host.Logs R A) (hj : s.LogsAll)
    (hs : ∀ seat ∈ s.seats, A seat.evaluator.site) (hc : command.isOperation = true) :
    (∃ es, Trace R s.machine.store es (s.step number (some command)).2.machine.store ∧
      (s.step number (some command)).1.Accounts es) ∧
      (s.step number (some command)).2.LogsAll ∧
      ∀ seat ∈ (s.step number (some command)).2.seats, A seat.evaluator.site := by
  have hevents : s.machine.journal.events.toList = [] := by rw [hj]
  have hlogged : ∀ e ∈ s.machine.journal.events.toList, e.level ≠ .error := by
    rw [hevents]
    exact fun e he => absurd he List.not_mem_nil
  have hstep := accounts_of_upholds hW.level_ne rfl (upholds_operation (hW.operates s.machine)
    (.of_allowed (Fault.allowed_reaches s.machine)) number hc) (congrArg Journal.filter hj) hlogged
    hs
  rwa [hevents] at hstep

/-- Opening an evaluator goes on from the store with an empty place for it. -/
theorem accounts_open (hR : ∀ es w w', R es w w' → ∀ e ∈ es, e.level ≠ .error) (limits : Limits)
    {op : Act W (Evaluator H)} {w : W}
    (hopen : Host.openWith limits { store := Host.initial, journal := { filter := .all } } =
      op { store := w, journal := { filter := .all } })
    (hop : ∀ m : Machine W, Act.Upholds (m.Reaches R) (m.Halts R) (fun e => A e.site) op) :
    (∃ es, Trace R w es (opened W .all limits).machine.store ∧
      ((start .all : Session W H).step 0 (some (.new limits))).1.Accounts es) ∧
      (opened W .all limits).LogsAll ∧
      ∀ seat ∈ (opened W .all limits).seats, A seat.evaluator.site := by
  let t : Session W H := { machine := { store := w, journal := { filter := .all } } }
  have hrun : perform 0 (.new limits) (start .all : Session W H) = (act op >>= enroll) t := by
    simp only [perform, enroll, Bind.bind, EStateM.bind, act, start, hopen, t]
  exact accounts_of_upholds hR hrun ((upholds_act (hop t.machine)).bind fun e he =>
    upholds_enroll he) rfl (fun e he => absurd he List.not_mem_nil)
    fun seat hseat => absurd hseat (Array.not_mem_empty _)

/-- Between commands the log is empty, all evaluators are in the given places, and the store has the
property. -/
structure Logging (J : W → Prop) (A : Site → Prop) (s : Session W H) : Prop where
  logsAll : s.LogsAll
  site_mem (seat : Seat H) : seat ∈ s.seats → A seat.evaluator.site
  holds : J s.machine.store

section Logging

variable {J : W → Prop} {R' : List Log.Event → W → W → Prop} (hW : Host.Logs R A)
  (hJ : ∀ es w w', J w → R es w w' → J w' ∧ R' es w w')

include hW hJ

theorem Logging.step (hs : s.Logging J A) (number : Nat) (hc : command.isOperation = true) :
    (∃ es, Trace R' s.machine.store es (s.step number (some command)).2.machine.store ∧
      (s.step number (some command)).1.Accounts es) ∧
      (s.step number (some command)).2.Logging J A := by
  obtain ⟨⟨es, htrace, haccounts⟩, hlogs, hseats⟩ := accounts_step hW hs.logsAll hs.site_mem hc
  obtain ⟨hend, htrace⟩ := htrace.refine hJ hs.holds
  exact ⟨⟨es, htrace, haccounts⟩, hlogs, hseats, hend⟩

/-- A run of operations leaves the session ready for the next one. -/
theorem Logging.after (hs : s.Logging J A) {commands : List Command}
    (hc : ∀ command ∈ commands, command.isOperation = true) : (s.after commands).Logging J A := by
  induction commands generalizing s with
  | nil => exact hs
  | cons command commands ih =>
    have hstep := (hs.step hW hJ 0 (hc command (List.mem_cons_self ..))).2
    exact ih hstep fun x hx => hc x (List.mem_cons_of_mem command hx)

end Logging

end Session

end ChurchStore
