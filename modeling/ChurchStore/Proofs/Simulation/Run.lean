import ChurchStore.Proofs.Simulation.Session

/-!
# Runs on related stores

Two sessions that start from related stores stay related along every run of operations, and give
the same answers, apart from the places of handles.
-/

namespace ChurchStore.Simulation

open Session

variable {W V H G : Type} [Host W H] [Host V G] {S : Simulation W V} {e : Evaluator H}
  {d : Evaluator G} {c : Pairing H G} {s : Session W H} {t : Session V G}

/-- Opening evaluators on two stores makes them the evaluators of related stores, in which their
handles for the builtin functions are held. -/
def Opens (S : Simulation W V) (limits : Limits) (w : W) (v : V) : Prop :=
  Coupled (fun m n => m.store = w ∧ n.store = v) (Host.openWith limits : Act W (Evaluator H))
    (Host.openWith limits : Act V (Evaluator G))
    (fun e d m n => e.site = S.left ∧ d.site = S.right ∧ e.nesting = d.nesting ∧
      S.Holds (builtinPairs e d) m n) fun _ _ _ => True

theorem openedOn_of_ok {w : W} {filter : Log.Filter} {limits : Limits} {m : Machine W}
    (h : Host.openWith limits ⟨w, { filter }⟩ = .ok e m) :
    (openedOn w filter limits).machine.store = m.store ∧
      (openedOn w filter limits).seats = #[⟨e, true⟩] ∧
      (openedOn w filter limits).bindings = {} := by
  have hperform : perform 0 (.new limits) { machine := ⟨w, { filter }⟩ } =
      .ok (.count 0) ⟨m, #[⟨e, true⟩], {}⟩ := by
    simp only [perform, Bind.bind, EStateM.bind, act, h]
    rfl
  simp only [openedOn, step, Option.elim_some, hperform, and_self]

/-- As long as no variable is set, the handles for the builtin functions are all there are. -/
theorem Pairing.standing_start (e : Evaluator H) (d : Evaluator G) :
    Pairing.standing e d {} = builtinPairs e d := by
  have hvalues : ((({} : Std.TreeMap Name (H × G)).values) : Multiset (H × G)) = 0 := rfl
  simp [Pairing.standing, hvalues]

/-- The second evaluator can be opened, and hence the first one. -/
theorem Opens.paired {limits : Limits} {w : W} {v : V} (h : S.Opens limits w v)
    (filter : Log.Filter)
    (hv : ∃ n, Host.openWith limits ⟨v, { filter }⟩ = .ok d n) :
    ∃ e, S.Paired e d {} 0 (openedOn w filter limits) (openedOn v filter limits) := by
  obtain ⟨n, hn⟩ := hv
  have hpre : (⟨w, { filter }⟩ : Machine W).store = w ∧ (⟨v, { filter }⟩ : Machine V).store = v :=
    ⟨rfl, rfl⟩
  obtain ⟨e, d', m, n', hx, hy, hleft, hright, hnesting, hholds⟩ | ⟨f, m, n', -, hy, -⟩ :=
    Coupled.cases h hpre
  · obtain ⟨rfl, rfl⟩ : d' = d ∧ n' = n := by
      rw [hn] at hy
      cases hy
      exact ⟨rfl, rfl⟩
    obtain ⟨hstore, hseats, hbindings⟩ := openedOn_of_ok hx
    obtain ⟨hstore', hseats', hbindings'⟩ := openedOn_of_ok hy
    refine ⟨e, ⟨hseats, hseats', fun name => ?_, fun name => ?_,
      ⟨hleft, hright, hnesting, mem_builtinPairs e d'⟩, ?_⟩⟩
    · rw [hbindings]
      simp
    · rw [hbindings']
      simp
    · rw [Multiset.zero_add, Pairing.standing_start, Holds, hstore, hstore']
      exact hholds
  · rw [hn] at hy
    cases hy

/-- The handles that are held in two related sessions are the pairs that stand in them. -/
theorem Paired.exists_handles (h : S.Paired e d c 0 s t) : ∃ l : List (H × G),
    s.handles = l.map Prod.fst ∧ t.handles = l.map Prod.snd ∧ c.standing e d = l := by
  have hs : s.handles = Seat.handles ⟨e, c.isOpen⟩ ++ s.bindings.values := by
    rw [handles, h.seats_left]
    simp
  have ht : t.handles = Seat.handles ⟨d, c.isOpen⟩ ++ t.bindings.values := by
    rw [handles, h.seats_right]
    simp
  rw [hs, ht, values_of_getElem?_map h.bindings_left, values_of_getElem?_map h.bindings_right,
    Pairing.standing, Multiset.add_comm]
  cases c.isOpen with
  | true =>
    refine ⟨builtinPairs e d ++ c.bindings.values, ?_, ?_, ?_⟩
    · simp [Seat.handles, builtinPairs]
    · simp [Seat.handles, builtinPairs]
    · rw [if_pos rfl, Multiset.coe_add]
  | false =>
    refine ⟨c.bindings.values, ?_, ?_, ?_⟩
    · simp [Seat.handles]
    · simp [Seat.handles]
    · rw [if_neg Bool.false_ne_true, Multiset.zero_add]

/-- As long as the evaluators have not been ended, they are served by all that is held. -/
theorem Paired.exists_serves (h : S.Paired e d c 0 s t) {e' : Evaluator H}
    (he : s.seats[0]? = some ⟨e', true⟩) :
    e' = e ∧ ∃ l : List (H × G), s.handles = l.map Prod.fst ∧ S.Holds l s.machine t.machine ∧
      S.Serves e d l := by
  obtain ⟨rfl, hopen⟩ : e = e' ∧ c.isOpen = true := by
    rw [h.seats_left] at he
    simpa using he
  obtain ⟨l, hs, -, hl⟩ := h.exists_handles
  refine ⟨rfl, l, hs, ?_, ?_⟩
  · rw [← hl, ← Multiset.zero_add (c.standing e d)]
    exact h.holds
  · rw [← hl]
    refine h.serves.mono fun r hr => ?_
    rw [Pairing.standing_of_open hopen]
    exact Multiset.mem_add.2 (.inr hr)

/-- A command for both sessions keeps them related, and is answered alike as far as `f` sees. -/
theorem Paired.step_seen {f : Placement → Placement} (hf : S.Shows f) (h : S.Paired e d c 0 s t)
    {command : Command} (hc : command.isOperation = true) :
    (∃ c', S.Paired e d c' 0 (s.step 0 (some command)).2 (t.step 0 (some command)).2) ∧
      (s.step 0 (some command)).1.answer.map (Answer.seen f) =
        (t.step 0 (some command)).1.answer.map (Answer.seen f) ∧
      ∀ r, (s.step 0 (some command)).1.answer = .error r → S.Refuses r := by
  have hplay := plays_perform (e := e) (d := d) (c := c) hf hc
  rw [Plays, Multiset.zero_add] at hplay
  obtain ⟨a, b, s', t', hx, hy, c', _, ⟨hab, rfl⟩, hst⟩ | ⟨r, s', t', hx, hy, hr, c', hst⟩ :=
    Coupled.cases hplay h
  · simp only [Session.step, Option.elim_some, hx, hy]
    rw [Multiset.zero_add] at hst
    exact ⟨⟨c', { hst with }⟩, congrArg Except.ok hab, fun r hr => by cases hr⟩
  · simp only [Session.step, Option.elim_some, hx, hy]
    exact ⟨⟨c', { hst with }⟩, trivial, fun r' hr' => by rwa [← Except.error.inj hr']⟩

/-- What an answer says of values can be told from what is seen of it. -/
theorem map_unplaced_map_seen (f : Placement → Placement) (a : Except Refusal Answer) :
    (a.map (Answer.seen f)).map Answer.unplaced = a.map Answer.unplaced := by
  cases a with
  | ok a => exact congrArg Except.ok (a.unplaced_seen f)
  | error r => rfl

/-- A command for both sessions keeps them related. -/
theorem Paired.step (h : S.Paired e d c 0 s t) {command : Command}
    (hc : command.isOperation = true) :
    (∃ c', S.Paired e d c' 0 (s.step 0 (some command)).2 (t.step 0 (some command)).2) ∧
      (s.step 0 (some command)).1.answer.map Answer.unplaced =
        (t.step 0 (some command)).1.answer.map Answer.unplaced ∧
      ∀ r, (s.step 0 (some command)).1.answer = .error r → S.Refuses r := by
  obtain ⟨hstep, hanswer, hrefusal⟩ := h.step_seen (S.shows_const (.arena 0 0)) hc
  rw [← map_unplaced_map_seen, hanswer, map_unplaced_map_seen]
  exact ⟨hstep, rfl, hrefusal⟩

/-- Runs of operations keep two sessions related and are answered alike as far as `f` sees, and what
is refused is refused for one of the reasons that there may be. -/
theorem Paired.after_seen {f : Placement → Placement} (hf : S.Shows f) (h : S.Paired e d c 0 s t)
    (commands : List Command) (hc : ∀ command ∈ commands, command.isOperation = true) :
    (∃ c', S.Paired e d c' 0 (s.after commands) (t.after commands)) ∧
      (s.answers commands).map (·.map (Answer.seen f)) =
        (t.answers commands).map (·.map (Answer.seen f)) ∧
      ∀ r, .error r ∈ s.answers commands → S.Refuses r := by
  induction commands generalizing s t c with
  | nil => exact ⟨⟨c, h⟩, rfl, fun r hr => by cases hr⟩
  | cons command commands ih =>
    obtain ⟨⟨c', hstep⟩, hanswer, hrefusal⟩ := h.step_seen hf (hc command (List.mem_cons_self ..))
    obtain ⟨hafter, hanswers, hrefusals⟩ :=
      ih hstep fun x hx => hc x (List.mem_cons_of_mem command hx)
    refine ⟨hafter, ?_, fun r hr => ?_⟩
    · simp only [answers, List.map_cons]
      rw [hanswer, hanswers]
    · rcases List.mem_cons.1 hr with hr | hr
      · exact hrefusal r hr.symm
      · exact hrefusals r hr

/-- Runs of operations keep two sessions related and are answered alike, and what is refused is
refused for one of the reasons that there may be. -/
theorem Paired.after (h : S.Paired e d c 0 s t) (commands : List Command)
    (hc : ∀ command ∈ commands, command.isOperation = true) :
    (∃ c', S.Paired e d c' 0 (s.after commands) (t.after commands)) ∧
      (s.answers commands).map (·.map Answer.unplaced) =
        (t.answers commands).map (·.map Answer.unplaced) ∧
      ∀ r, .error r ∈ s.answers commands → S.Refuses r := by
  obtain ⟨hafter, hanswers, hrefusals⟩ := h.after_seen (S.shows_const (.arena 0 0)) commands hc
  refine ⟨hafter, ?_, hrefusals⟩
  have hmap := congrArg (List.map (·.map Answer.unplaced)) hanswers
  simpa only [List.map_map, Function.comp_def, map_unplaced_map_seen] using hmap

/-- Evaluators that can be opened stay related along every run. -/
theorem Opens.paired_after {limits : Limits} {w : W} {v : V} (h : S.Opens limits w v)
    (filter : Log.Filter) (hv : ∃ n, Host.openWith limits ⟨v, { filter }⟩ = .ok d n)
    {commands : List Command} (hc : ∀ command ∈ commands, command.isOperation = true) :
    ∃ e c, S.Paired e d c 0 ((openedOn w filter limits).after commands)
      ((openedOn v filter limits).after commands) := by
  obtain ⟨e, hpaired⟩ := h.paired filter hv
  obtain ⟨⟨c, hafter⟩, -⟩ := hpaired.after commands hc
  exact ⟨e, c, hafter⟩

end ChurchStore.Simulation
