import ChurchStore.Proofs.Session.Bindings
import ChurchStore.Proofs.Session.Run
import ChurchStore.Proofs.Simulation.Evaluation

/-!
# Sessions on related stores

Two sessions with one evaluator each, whose variables have the same names and hold related handles,
answer every operation alike and stay so. Commands that only pass handles to the evaluator agree
because the evaluator does; the rest is the bookkeeping of variables, which changes the multiset of
the handles that stand in the session.
-/

namespace ChurchStore.Simulation

open Session

variable {W V H G : Type} [Host W H] [Host V G]

/-- What two sessions have in common: variables that hold pairs of handles, and whether their
evaluators have been ended. -/
structure Pairing (H G : Type) where
  isOpen : Bool := true
  bindings : Std.TreeMap Name (H × G) := {}

namespace Pairing

variable {e : Evaluator H} {d : Evaluator G}

/-- The pairs of handles that stand in the sessions, of which `e` and `d` are the evaluators. -/
def standing (e : Evaluator H) (d : Evaluator G) (c : Pairing H G) : Multiset (H × G) :=
  (c.bindings.values : Multiset (H × G)) +
    if c.isOpen then (builtinPairs e d : Multiset (H × G)) else 0

/-- A variable is set. -/
def assign (c : Pairing H G) (name : Name) (p : H × G) : Pairing H G :=
  { c with bindings := c.bindings.insert name p }

/-- A variable is removed. -/
def erase (c : Pairing H G) (name : Name) : Pairing H G :=
  { c with bindings := c.bindings.erase name }

/-- The evaluators are ended. -/
def close (c : Pairing H G) : Pairing H G := { c with isOpen := false }

theorem standing_of_open {c : Pairing H G} (h : c.isOpen = true) :
    c.standing e d = c.close.standing e d + builtinPairs e d := by
  simp [standing, close, h]

theorem mem_standing {c : Pairing H G} {name : Name} {p : H × G} (h : c.bindings[name]? = some p) :
    p ∈ c.standing e d :=
  Multiset.mem_add.2 (.inl (mem_values_of_getElem? h))

theorem standing_of_some {c : Pairing H G} {name : Name} {p : H × G}
    (h : c.bindings[name]? = some p) : c.standing e d = p ::ₘ (c.erase name).standing e d := by
  rw [standing, values_eq_cons h, Multiset.cons_add]
  rfl

theorem standing_of_none {c : Pairing H G} {name : Name} (h : c.bindings[name]? = none) :
    c.standing e d = (c.erase name).standing e d := by
  rw [standing, values_erase_of_none h]
  rfl

theorem standing_assign (c : Pairing H G) (name : Name) (p : H × G) :
    (c.assign name p).standing e d = p ::ₘ (c.erase name).standing e d := by
  rw [standing, assign, values_insert, Multiset.cons_add]
  rfl

end Pairing

/-- Two sessions with the evaluators `e` and `d`, which have `c` in common and in which also the
handles of `owned` are held. -/
structure Paired (S : Simulation W V) (e : Evaluator H) (d : Evaluator G) (c : Pairing H G)
    (owned : Multiset (H × G)) (s : Session W H) (t : Session V G) : Prop where
  seats_left : s.seats = #[⟨e, c.isOpen⟩]
  seats_right : t.seats = #[⟨d, c.isOpen⟩]
  bindings_left (name : Name) : s.bindings[name]? = c.bindings[name]?.map Prod.fst
  bindings_right (name : Name) : t.bindings[name]? = c.bindings[name]?.map Prod.snd
  serves : S.Serves e d (builtinPairs e d)
  holds : S.Holds (owned + c.standing e d) s.machine t.machine

namespace Paired

variable {S : Simulation W V} {e : Evaluator H} {d : Evaluator G} {c : Pairing H G}
  {owned : Multiset (H × G)} {p : H × G} {s : Session W H} {t : Session V G}

theorem giveBack (h : S.Paired e d c (p ::ₘ owned) s t) :
    S.Paired e d c owned (Session.giveBack p.1 s) (Session.giveBack p.2 t) := by
  obtain ⟨m, seats, bindings⟩ := s
  obtain ⟨n, seats', bindings'⟩ := t
  have hmn := h.holds
  rw [Multiset.cons_add] at hmn
  exact { h with holds := S.release hmn }

/-- A variable is set and gives back what it held before. -/
theorem assign (name : Name) (h : S.Paired e d c (p ::ₘ owned) s t) :
    S.Paired e d (c.assign name p) owned
      (s.bindings[name]?.elim id Session.giveBack
        { s with bindings := s.bindings.insert name p.1 })
      (t.bindings[name]?.elim id Session.giveBack
        { t with bindings := t.bindings.insert name p.2 }) := by
  have hset (q : Option (H × G)) (hq : c.bindings[name]? = q) :
      S.Paired e d (c.assign name p) (q.elim 0 ({·}) + owned)
        { s with bindings := s.bindings.insert name p.1 }
        { t with bindings := t.bindings.insert name p.2 } := by
    refine { h with bindings_left := fun l => ?_, bindings_right := fun l => ?_, holds := ?_ }
    · simp only [Pairing.assign, Std.TreeMap.getElem?_insert, h.bindings_left]
      split <;> rfl
    · simp only [Pairing.assign, Std.TreeMap.getElem?_insert, h.bindings_right]
      split <;> rfl
    · have hmn := h.holds
      rw [Pairing.standing_assign]
      cases q with
      | none =>
        rw [Pairing.standing_of_none hq] at hmn
        simpa using hmn
      | some q =>
        rw [Pairing.standing_of_some hq] at hmn
        simpa [Multiset.cons_swap] using hmn
  rw [h.bindings_left, h.bindings_right]
  cases hq : c.bindings[name]? with
  | none => simpa using hset none hq
  | some q => exact giveBack (by simpa using hset (some q) hq)

/-- A variable is removed, and its handle is in hand. -/
theorem erase {name : Name} {owned : Multiset (H × G)} (hp : c.bindings[name]? = some p)
    (h : S.Paired e d c owned s t) :
    S.Paired e d (c.erase name) (p ::ₘ owned) { s with bindings := s.bindings.erase name }
      { t with bindings := t.bindings.erase name } := by
  refine { h with bindings_left := fun l => ?_, bindings_right := fun l => ?_, holds := ?_ }
  · simp only [Pairing.erase, Std.TreeMap.getElem?_erase, h.bindings_left]
    split <;> rfl
  · simp only [Pairing.erase, Std.TreeMap.getElem?_erase, h.bindings_right]
    split <;> rfl
  · have hmn := h.holds
    rw [Pairing.standing_of_some hp, Multiset.add_cons, ← Multiset.cons_add] at hmn
    exact hmn

/-- Both evaluators are ended. -/
theorem close (hopen : c.isOpen = true) (h : S.Paired e d c owned s t) :
    S.Paired e d c.close owned
      ⟨⟨Backend.releaseAll (Builtin.all.map e.singletons.get) s.machine.store,
        s.machine.journal⟩, s.seats.setIfInBounds 0 ⟨e, false⟩, s.bindings⟩
      ⟨⟨Backend.releaseAll (Builtin.all.map d.singletons.get) t.machine.store,
        t.machine.journal⟩, t.seats.setIfInBounds 0 ⟨d, false⟩, t.bindings⟩ := by
  have hmn := h.holds
  rw [Pairing.standing_of_open hopen, Multiset.add_comm (c.close.standing e d),
    ← Multiset.add_assoc,
    Multiset.add_comm owned, Multiset.add_assoc] at hmn
  have hrel := rel_releaseAll (builtinPairs e d) hmn
  rw [builtinPairs, List.map_map, List.map_map] at hrel
  refine { h with seats_left := ?_, seats_right := ?_, holds := hrel }
  · rw [h.seats_left]
    rfl
  · rw [h.seats_right]
    rfl

end Paired

/-- The places of held handles look the same through `f`. -/
def Shows (S : Simulation W V) (f : Placement → Placement) : Prop :=
  ∀ {p : H × G} {lent : Multiset (H × G)}, p ∈ lent →
    Coupled (S.Holds lent) (Host.describe p.1 : Act W Placement)
      (Host.describe p.2 : Act V Placement)
      (fun a b m n => f a = f b ∧ S.Holds lent m n)
      (fun f m n => S.Faulty f ∧ S.Holds lent m n)

/-- All places look the same if nothing of them is seen. -/
theorem shows_const (S : Simulation W V) (place : Placement) : S.Shows fun _ => place := fun hp =>
  Coupled.weaken (S.describe hp) (fun _ _ h => h) (fun _ _ _ _ h => ⟨rfl, h⟩) fun _ _ _ h => h

/-- The refusals of commands: what does not exist, and the faults of evaluators. -/
def Refuses (S : Simulation W V) : Refusal → Prop
  | .unknown => True
  | .fault f => S.Raises f

/-- Two parts of commands agree: as `Agree`, beside the handles that stand in the sessions. -/
def Plays {α β : Type} (S : Simulation W V) (e : Evaluator H) (d : Evaluator G) (c : Pairing H G)
    (owned lent : Multiset (H × G)) (x : Play W H α) (y : Play V G β)
    (result : α → β → Multiset (H × G) → Prop) : Prop :=
  Coupled (S.Paired e d c (owned + lent)) x y
    (fun a b s t => ∃ c' held, result a b held ∧ S.Paired e d c' (held + lent) s t)
    fun r s t => S.Refuses r ∧ ∃ c', S.Paired e d c' lent s t

namespace Plays

variable {α β γ δ : Type} {S : Simulation W V} {e : Evaluator H} {d : Evaluator G}
  {c : Pairing H G} {owned lent : Multiset (H × G)}
  {x : Play W H α} {y : Play V G β} {result : α → β → Multiset (H × G) → Prop}
  {k : α → Play W H γ} {l : β → Play V G δ} {result' : γ → δ → Multiset (H × G) → Prop}
  {p : H × G}

theorem pure {a : α} {b : β} (h : result a b owned) :
    S.Plays e d c owned lent (Pure.pure a) (Pure.pure b) result :=
  Coupled.pure fun _ _ hst => ⟨c, owned, h, hst⟩

theorem bind (h : S.Plays e d c owned lent x y result)
    (hk : ∀ c a b held, result a b held → S.Plays e d c held lent (k a) (l b) result') :
    S.Plays e d c owned lent (x >>= k) (y >>= l) result' := by
  refine Coupled.bind h fun a b s t => ?_
  rintro ⟨c', held, hr, hst⟩
  exact hk c' a b held hr s t hst

/-- An operation of the evaluators leaves variables alone. -/
theorem coupled_act {x : Act W α} {y : Act V β}
    (h : S.Agree owned (lent + c.standing e d) x y result) :
    Coupled (S.Paired e d c (owned + lent)) (Session.act x) (Session.act y)
      (fun a b s t => ∃ held, result a b held ∧ S.Paired e d c (held + lent) s t)
      (fun r s t => S.Refuses r ∧ S.Paired e d c lent s t) := by
  rintro ⟨m, seats, bindings⟩ ⟨n, seats', bindings'⟩ hst
  have hmn := hst.holds
  rw [Multiset.add_assoc] at hmn
  obtain ⟨a, b, m', n', hx, hy, held, hr, hmn'⟩ | ⟨f, m', n', hx, hy, hf, hmn'⟩ :=
    Coupled.cases h hmn
  · simp only [Session.act, hx, hy]
    rw [← Multiset.add_assoc] at hmn'
    exact ⟨held, hr, { hst with holds := hmn' }⟩
  · simp only [Session.act, hx, hy]
    exact ⟨trivial, hf, { hst with holds := hmn' }⟩

theorem act {x : Act W α} {y : Act V β} (h : S.Agree owned (lent + c.standing e d) x y result) :
    S.Plays e d c owned lent (Session.act x) (Session.act y) result :=
  Coupled.weaken (coupled_act h) (fun _ _ h => h) (fun _ _ _ _ h => ⟨c, h⟩)
    fun _ _ _ ⟨hf, h⟩ => ⟨hf, c, h⟩

/-- What follows an operation of the evaluators starts from the same pairing. -/
theorem act_bind {x : Act W α} {y : Act V β}
    (h : S.Agree owned (lent + c.standing e d) x y result)
    (hk : ∀ a b held, result a b held → S.Plays e d c held lent (k a) (l b) result') :
    S.Plays e d c owned lent (Session.act x >>= k) (Session.act y >>= l) result' := by
  refine Coupled.bind (Coupled.weaken (coupled_act h) (fun _ _ h => h) (fun _ _ _ _ h => h)
    fun _ _ _ ⟨hf, h⟩ => ⟨hf, c, h⟩) fun a b s t => ?_
  rintro ⟨held, hr, hst⟩
  exact hk a b held hr s t hst

/-- The evaluator is looked up, which is refused once it has been ended. -/
theorem open_bind {k : Evaluator H → Play W H γ} {l : Evaluator G → Play V G δ}
    (hk : c.isOpen = true → S.Serves e d (lent + c.standing e d) →
      S.Plays e d c 0 lent (k e) (l d) result') :
    S.Plays e d c 0 lent (evaluator 0 >>= k) (evaluator 0 >>= l) result' := by
  intro s t hst
  have hs : s.seats[0]? = some ⟨e, c.isOpen⟩ := by rw [hst.seats_left]; rfl
  have ht : t.seats[0]? = some ⟨d, c.isOpen⟩ := by rw [hst.seats_right]; rfl
  simp only [Bind.bind, EStateM.bind]
  cases hopen : c.isOpen with
  | true =>
    rw [hopen] at hs ht
    rw [evaluator_of_open hs, evaluator_of_open ht]
    refine hk hopen (hst.serves.mono fun q hq => ?_) s t hst
    rw [Pairing.standing_of_open hopen]
    simp [Multiset.mem_coe.1 hq]
  | false =>
    rw [hopen] at hs ht
    rw [evaluator_of_ended hs, evaluator_of_ended ht]
    exact ⟨rfl, trivial, c, by rwa [Multiset.zero_add] at hst⟩

theorem evaluator_bind {k : Evaluator H → Play W H γ} {l : Evaluator G → Play V G δ}
    (hk : S.Serves e d (lent + c.standing e d) →
      S.Plays e d c 0 lent (k e) (l d) result') :
    S.Plays e d c 0 lent (evaluator 0 >>= k) (evaluator 0 >>= l) result' :=
  open_bind fun _ => hk

/-- A variable is looked up, which is refused if it is not set. -/
theorem lookup_bind {name : Name} {k : H → Play W H γ} {l : G → Play V G δ}
    (hk : ∀ p, c.bindings[name]? = some p → S.Plays e d c 0 lent (k p.1) (l p.2) result') :
    S.Plays e d c 0 lent (handle name >>= k) (handle name >>= l) result' := by
  intro s t hst
  have hs := hst.bindings_left name
  have ht := hst.bindings_right name
  simp only [Bind.bind, EStateM.bind]
  cases hp : c.bindings[name]? with
  | some p =>
    rw [hp] at hs ht
    rw [handle_of_some hs, handle_of_some ht]
    exact hk p hp s t hst
  | none =>
    rw [hp] at hs ht
    rw [handle_of_none hs, handle_of_none ht]
    exact ⟨rfl, trivial, c, by rwa [Multiset.zero_add] at hst⟩

/-- The handle in a variable is one of those that stand in the sessions. -/
theorem handle_bind {name : Name} {k : H → Play W H γ} {l : G → Play V G δ}
    (hk : ∀ p ∈ lent + c.standing e d, S.Plays e d c 0 lent (k p.1) (l p.2) result') :
    S.Plays e d c 0 lent (handle name >>= k) (handle name >>= l) result' :=
  lookup_bind fun p hp => hk p (Multiset.mem_add.2 (.inr (Pairing.mem_standing hp)))

/-- A handle that is given back at the end is lent meanwhile. -/
theorem holding (p : H × G) (h : S.Plays e d c owned (p ::ₘ lent) x y result) :
    S.Plays e d c (p ::ₘ owned) lent (Session.holding p.1 x) (Session.holding p.2 y) result := by
  intro s t hst
  rw [Multiset.cons_add, ← Multiset.add_cons] at hst
  obtain ⟨a, b, s', t', hx, hy, c', held, hr, hst'⟩ | ⟨f, s', t', hx, hy, hf, c', hst'⟩ :=
    Coupled.cases h hst
  · simp only [Session.holding, hx, hy]
    rw [Multiset.add_cons] at hst'
    exact ⟨c', held, hr, hst'.giveBack⟩
  · simp only [Session.holding, hx, hy]
    exact ⟨trivial, hf, c', hst'.giveBack⟩

/-- A handle that is given back after a refusal only is lent meanwhile and owned afterwards. -/
theorem onRefusal (p : H × G) (h : S.Plays e d c owned (p ::ₘ lent) x y result) :
    S.Plays e d c (p ::ₘ owned) lent (Session.onRefusal p.1 x) (Session.onRefusal p.2 y)
      fun a b held => ∃ rest, result a b rest ∧ held = p ::ₘ rest := by
  intro s t hst
  rw [Multiset.cons_add, ← Multiset.add_cons] at hst
  obtain ⟨a, b, s', t', hx, hy, c', held, hr, hst'⟩ | ⟨f, s', t', hx, hy, hf, c', hst'⟩ :=
    Coupled.cases h hst
  · simp only [Session.onRefusal, hx, hy]
    refine ⟨c', p ::ₘ held, ⟨held, hr, rfl⟩, ?_⟩
    rwa [Multiset.add_cons, ← Multiset.cons_add] at hst'
  · simp only [Session.onRefusal, hx, hy]
    exact ⟨trivial, hf, c', hst'.giveBack⟩

/-- A variable is set, and then gives back what it held before. -/
theorem assign_bind {name : Name} {k : Unit → Play W H γ} {l : Unit → Play V G δ} (p : H × G)
    (hk : S.Plays e d (c.assign name p) owned lent (k ()) (l ()) result') :
    S.Plays e d c (p ::ₘ owned) lent (assign name p.1 >>= k) (assign name p.2 >>= l) result' := by
  intro s t hst
  simp only [Bind.bind, EStateM.bind]
  rw [assign_apply, assign_apply]
  rw [Multiset.cons_add] at hst
  exact hk _ _ (hst.assign name)

theorem describe {f : Placement → Placement} (hf : S.Shows f) (h : p ∈ lent + c.standing e d) :
    S.Plays e d c 0 lent (Session.act (Host.describe p.1)) (Session.act (Host.describe p.2))
      fun a b held => f a = f b ∧ held = 0 :=
  act (Coupled.weaken (hf h) (fun _ _ hmn => by simpa [Holds] using hmn)
    (fun _ _ _ _ ⟨hab, hmn⟩ => ⟨0, ⟨hab, rfl⟩, by simpa [Holds] using hmn⟩)
    fun _ _ _ ⟨hf, hmn⟩ => ⟨.inr hf, hmn⟩)

end Plays

/-- Answers that look the same through `f`, after which the caller owns nothing. -/
def Alike (f : Placement → Placement) (a b : Answer) (held : Multiset (H × G)) : Prop :=
  a.seen f = b.seen f ∧ held = 0

variable {S : Simulation W V} {e : Evaluator H} {d : Evaluator G} {c : Pairing H G}
  {lent : Multiset (H × G)} {p : H × G} {f : Placement → Placement}

theorem plays_store (hf : S.Shows f) (dest : Name) (p : H × G) :
    S.Plays e d c {p} lent (store dest p.1) (store dest p.2) (Alike f) := by
  refine Plays.assign_bind p ?_
  have hp : p ∈ lent + (c.assign dest p).standing e d := by
    rw [Pairing.standing_assign]
    simp
  refine Plays.bind (Plays.describe hf hp) ?_
  rintro c' a b _ ⟨hab, rfl⟩
  exact Plays.pure ⟨congrArg Answer.place hab, rfl⟩

/-- The result of an operation is put into a variable. -/
theorem plays_act_store (hf : S.Shows f) {x : Act W H} {y : Act V G} (dest : Name)
    (h : S.Agree 0 (lent + c.standing e d) x y Handed) :
    S.Plays e d c 0 lent (act x >>= store dest) (act y >>= store dest) (Alike f) := by
  refine Plays.act_bind h ?_
  rintro a b _ rfl
  exact plays_store hf dest (a, b)

theorem plays_keep (hf : S.Shows f) (dest : Option Name) (p : H × G) :
    S.Plays e d c {p} lent (keep dest p.1) (keep dest p.2)
      fun a b held => f a = f b ∧ held = 0 := by
  change S.Plays e d c (p ::ₘ 0) lent _ _ _
  refine Plays.holding p ?_
  cases dest with
  | none => exact Plays.describe hf (by simp)
  | some dest =>
    refine Plays.act_bind (Agree.clone_lent (p := p) (by simp)) ?_
    rintro a b _ rfl
    exact Plays.assign_bind (a, b) (Plays.describe hf (by simp))

/-- Closures whose captures look the same through `f`, after which the caller owns nothing. -/
def Shaped (f : Placement → Placement) (a b : Closure Placement) (held : Multiset (H × G)) :
    Prop :=
  a.map f = b.map f ∧ held = 0

theorem plays_keepCaptures (hf : S.Shows f) (toN toS : Option Name) (x : Closure (H × G)) :
    S.Plays e d c x.captures lent (keepCaptures toN toS (x.map Prod.fst))
      (keepCaptures toN toS (x.map Prod.snd)) (Shaped f) := by
  cases x with
  | zero | zeroInner | succ | inc | intLiteral => exact Plays.pure ⟨rfl, rfl⟩
  | succPartial n =>
    refine Plays.bind (plays_keep hf toN n) ?_
    rintro c' a b _ ⟨hab, rfl⟩
    exact Plays.pure ⟨congrArg Closure.succPartial hab, rfl⟩
  | succInner n s =>
    change S.Plays e d c (n ::ₘ s ::ₘ 0) lent _ _ _
    rw [Multiset.cons_swap]
    refine Plays.bind (Plays.onRefusal s (plays_keep hf toN n)) ?_
    rintro c' a b _ ⟨_, ⟨hab, rfl⟩, rfl⟩
    refine Plays.bind (plays_keep hf toS s) ?_
    rintro c'' a' b' _ ⟨hab', rfl⟩
    exact Plays.pure ⟨congrArg₂ Closure.succInner hab hab', rfl⟩

/-- The captures of a new closure are second handles of variables. -/
theorem plays_capture (x : Closure Name) :
    S.Plays e d c 0 lent (capture x) (capture x) Opened := by
  cases x with
  | zero => exact Plays.pure ⟨.zero, rfl, rfl, rfl⟩
  | zeroInner => exact Plays.pure ⟨.zeroInner, rfl, rfl, rfl⟩
  | succ => exact Plays.pure ⟨.succ, rfl, rfl, rfl⟩
  | inc => exact Plays.pure ⟨.inc, rfl, rfl, rfl⟩
  | intLiteral value => exact Plays.pure ⟨.intLiteral value, rfl, rfl, rfl⟩
  | succPartial n =>
    refine Plays.handle_bind fun n hn => ?_
    refine Plays.act_bind (Agree.clone_lent hn) ?_
    rintro a b _ rfl
    exact Plays.pure ⟨.succPartial (a, b), rfl, rfl, rfl⟩
  | succInner n s =>
    refine Plays.handle_bind fun n hn => Plays.handle_bind fun s hs => ?_
    refine Plays.act_bind (Agree.clone_lent hn) ?_
    rintro a b _ rfl
    refine Plays.act_bind (Agree.clone (p := s) (by simp [hs])) ?_
    rintro a' b' _ ⟨rfl, rfl⟩
    exact Plays.pure ⟨.succInner (a, b) (a', b'), rfl, rfl, Multiset.cons_swap ..⟩

/-- The entries of a table are put into variables whose names end in numbers. -/
theorem plays_assignAll (dest : Name) (l : List (H × G)) (start : Nat) :
    S.Plays e d c l lent
      (((l.map Prod.fst).zipIdx start).forM fun (h, i) => assign (dest ++ toString i) h)
      (((l.map Prod.snd).zipIdx start).forM fun (h, i) => assign (dest ++ toString i) h)
      fun _ _ held => held = 0 := by
  induction l generalizing c start with
  | nil => exact Plays.pure rfl
  | cons p l ih =>
    change S.Plays e d c (p ::ₘ (l : Multiset (H × G))) lent
      (assign (dest ++ toString start) p.1 >>= fun _ => _)
      (assign (dest ++ toString start) p.2 >>= fun _ => _) _
    exact Plays.assign_bind p (ih (start + 1))

/-- The sessions answer an operation alike. -/
theorem plays_perform (hf : S.Shows f) {command : Command} (h : command.isOperation = true) :
    S.Plays e d c 0 0 (perform 0 command) (perform 0 command) (Alike f) := by
  cases command with
  | new | stats | extent | ledger | reset | demo => cases h
  | builtin b dest =>
    refine Plays.evaluator_bind fun hS => ?_
    exact plays_act_store hf dest (hS.agree_builtin b)
  | int value dest =>
    refine Plays.evaluator_bind fun hS => ?_
    exact plays_act_store hf dest (hS.agree_int value)
  | apply g x dest =>
    refine Plays.evaluator_bind fun hS => ?_
    refine Plays.handle_bind fun g hg => Plays.handle_bind fun x hx => ?_
    exact plays_act_store hf dest (hS.agree_apply hg hx)
  | successor n dest =>
    refine Plays.evaluator_bind fun hS => Plays.handle_bind fun n hn => ?_
    exact plays_act_store hf dest (hS.agree_successor hn)
  | numeral k dest =>
    refine Plays.evaluator_bind fun hS => ?_
    exact plays_act_store hf dest (hS.agree_numeral k)
  | plus a b dest =>
    refine Plays.evaluator_bind fun hS => ?_
    refine Plays.handle_bind fun a ha => Plays.handle_bind fun b hb => ?_
    exact plays_act_store hf dest (hS.agree_plus ha hb)
  | mul a b dest =>
    refine Plays.evaluator_bind fun hS => ?_
    refine Plays.handle_bind fun a ha => Plays.handle_bind fun b hb => ?_
    exact plays_act_store hf dest (hS.agree_mul ha hb)
  | alloc x dest =>
    refine Plays.evaluator_bind fun hS => Plays.bind (plays_capture x) ?_
    rintro c' _ _ _ ⟨y, rfl, rfl, rfl⟩
    rw [hS.left, hS.right]
    refine Plays.act_bind (Agree.alloc y rfl) ?_
    rintro a b _ rfl
    exact plays_store hf dest (a, b)
  | clone a dest =>
    refine Plays.handle_bind fun a ha => ?_
    exact plays_act_store hf dest (Agree.clone_lent (by simpa using ha))
  | numerals count dest =>
    refine Plays.evaluator_bind fun hS => Plays.act_bind (hS.agree_numerals count) ?_
    rintro table₁ table₂ _ ⟨l, hl₁, hl₂, rfl⟩
    rw [hl₁, hl₂]
    refine Plays.bind (plays_assignAll dest l 0) ?_
    rintro c' _ _ _ rfl
    have hsize : table₁.size = table₂.size := by
      rw [← Array.length_toList, ← Array.length_toList, hl₁, hl₂, List.length_map,
        List.length_map]
    exact Plays.pure ⟨by rw [hsize], rfl⟩
  | resolve a toN toS =>
    refine Plays.evaluator_bind fun hS => Plays.handle_bind fun a ha => ?_
    refine Plays.act_bind (hS.agree_resolve ha) ?_
    rintro _ _ _ ⟨y, rfl, rfl, rfl⟩
    refine Plays.bind (plays_keepCaptures hf toN toS y) ?_
    rintro c' x₁ x₂ _ ⟨hx, rfl⟩
    exact Plays.pure ⟨congrArg Answer.closure hx, rfl⟩
  | toInt a =>
    refine Plays.evaluator_bind fun hS => Plays.handle_bind fun a ha => ?_
    refine Plays.act_bind (hS.agree_toInt ha) ?_
    rintro value _ _ ⟨rfl, rfl⟩
    exact Plays.pure ⟨rfl, rfl⟩
  | kind a =>
    refine Plays.evaluator_bind fun hS => Plays.handle_bind fun a ha => ?_
    refine Plays.act_bind (hS.agree_kind ha) ?_
    rintro kind _ _ ⟨rfl, rfl⟩
    exact Plays.pure ⟨rfl, rfl⟩
  | fold n =>
    refine Plays.evaluator_bind fun hS => Plays.handle_bind fun n hn => ?_
    refine Plays.act_bind (hS.agree_fold hn) ?_
    rintro value _ _ ⟨rfl, rfl⟩
    exact Plays.pure ⟨rfl, rfl⟩
  | pow a b =>
    refine Plays.evaluator_bind fun hS => ?_
    refine Plays.handle_bind fun a ha => Plays.handle_bind fun b hb => ?_
    refine Plays.act_bind (hS.agree_pow ha hb) ?_
    rintro value _ _ ⟨rfl, rfl⟩
    exact Plays.pure ⟨rfl, rfl⟩
  | same a b =>
    refine Plays.evaluator_bind fun hS => ?_
    refine Plays.handle_bind fun a ha => Plays.handle_bind fun b hb => ?_
    intro s t hst
    rw [Multiset.zero_add] at ha hb
    have hheld : c.standing e d ⊆ 0 + 0 + c.standing e d := by simp
    exact ⟨c, 0, ⟨congrArg Answer.truth (S.same hst.holds (hheld ha) (hheld hb)), rfl⟩, hst⟩
  | describe a =>
    refine Plays.handle_bind fun a ha => ?_
    refine Plays.bind (Plays.describe hf (by simpa using ha)) ?_
    rintro c' _ _ _ ⟨hab, rfl⟩
    exact Plays.pure ⟨congrArg Answer.place hab, rfl⟩
  | drop a =>
    refine Plays.lookup_bind fun p hp => ?_
    intro s t hst
    exact ⟨c.erase a, 0, ⟨rfl, rfl⟩, (hst.erase hp).giveBack⟩
  | close =>
    refine Plays.open_bind fun hopen _ => ?_
    intro s t hst
    exact ⟨c.close, 0, ⟨rfl, rfl⟩, hst.close hopen⟩

end ChurchStore.Simulation
