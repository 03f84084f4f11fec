import ChurchStore.Proofs.Session.Run

/-!
# Commands that hand nothing back

A command that is refused, stops with a fault or answers an integer, a kind or a truth value leaves
all evaluators and variables as they were. For variables are set last of all, when nothing can stop
the command any more, where describing a handle never fails.
-/

namespace ChurchStore.Session

/-- Answers that tell of a value but hand no closure back. -/
def Answer.isPlain : Answer → Bool
  | .integer _ | .kind _ | .truth _ => true
  | _ => false

/-- A command has handed no closure back: it was refused, stopped with a fault, or gave a plain
answer. -/
def isPlain : Except Refusal Answer → Bool
  | .error _ => true
  | .ok a => a.isPlain

variable {W H α β : Type}

/-- A part of a command leaves evaluators and variables alone whenever it stops, or answers
something of `P`. -/
def Spares (P : α → Prop) (x : Play W H α) : Prop := ∀ s : Session W H,
  match x s with
  | .ok a s' => P a → s'.seats = s.seats ∧ s'.bindings = s.bindings
  | .error _ s' => s'.seats = s.seats ∧ s'.bindings = s.bindings

/-- A part of a command always gives an answer, of `Q`. -/
def Gives (Q : α → Prop) (x : Play W H α) : Prop :=
  ∀ s : Session W H, ∃ a s', x s = .ok a s' ∧ Q a

namespace Spares

variable {P : α → Prop} {Q : β → Prop} {x : Play W H α} {k : α → Play W H β}

theorem pure (a : α) : Spares P (Pure.pure a : Play W H α) := fun _ _ => ⟨rfl, rfl⟩

theorem bind (hx : Spares (fun _ => True) x) (hk : ∀ a, Spares Q (k a)) : Spares Q (x >>= k) := by
  intro s
  have hs := hx s
  simp only [Bind.bind, EStateM.bind]
  cases hxs : x s with
  | error r s' =>
    rw [hxs] at hs
    exact hs
  | ok a s' =>
    rw [hxs] at hs
    obtain ⟨hseats, hbindings⟩ := hs trivial
    have hs' := hk a s'
    rw [hseats, hbindings] at hs'
    exact hs'

theorem act (op : Act W α) : Spares P (Session.act op : Play W H α) := by
  intro s
  simp only [Session.act]
  cases op s.machine with
  | ok a m => exact fun _ => ⟨rfl, rfl⟩
  | error f m => exact ⟨rfl, rfl⟩

theorem evaluator {P : Evaluator H → Prop} (number : Nat) :
    Spares P (Session.evaluator number : Play W H (Evaluator H)) := by
  intro s
  cases hs : s.seats[number]? with
  | none =>
    rw [evaluator_of_none hs]
    exact ⟨rfl, rfl⟩
  | some seat =>
    obtain ⟨e, isOpen⟩ := seat
    cases isOpen with
    | true =>
      rw [evaluator_of_open hs]
      exact fun _ => ⟨rfl, rfl⟩
    | false =>
      rw [evaluator_of_ended hs]
      exact ⟨rfl, rfl⟩

theorem handle {P : H → Prop} (name : Name) : Spares P (Session.handle name : Play W H H) := by
  intro s
  cases hs : s.bindings[name]? with
  | none =>
    rw [handle_of_none hs]
    exact ⟨rfl, rfl⟩
  | some h =>
    rw [handle_of_some hs]
    exact fun _ => ⟨rfl, rfl⟩

/-- Nothing has to be spared by what gives other answers. -/
theorem of_gives {Q : α → Prop} (hx : Gives Q x) (hQ : ∀ a, Q a → ¬ P a) : Spares P x := by
  intro s
  obtain ⟨a, s', hxs, ha⟩ := hx s
  rw [hxs]
  exact fun hP => absurd hP (hQ a ha)

end Spares

namespace Gives

variable {P : α → Prop} {Q : β → Prop} {x : Play W H α} {k : α → Play W H β}

theorem pure {a : α} (h : P a) : Gives P (Pure.pure a : Play W H α) := fun s => ⟨a, s, rfl, h⟩

theorem bind (hx : Gives P x) (hk : ∀ a, P a → Gives Q (k a)) : Gives Q (x >>= k) := by
  intro s
  obtain ⟨a, s', hxs, ha⟩ := hx s
  obtain ⟨b, s'', hks, hb⟩ := hk a ha s'
  refine ⟨b, s'', ?_, hb⟩
  simp only [Bind.bind, EStateM.bind, hxs, hks]

theorem modify (f : Session W H → Session W H) :
    Gives (fun _ => True) (modify f : Play W H Unit) := fun s => ⟨(), f s, rfl, trivial⟩

variable [Host W H]

theorem assign (name : Name) (h : H) :
    Gives (fun _ => True) (Session.assign name h : Play W H Unit) :=
  fun s => ⟨(), _, assign_apply name h s, trivial⟩

theorem holding (h : H) (hx : Gives P x) : Gives P (Session.holding h x) := by
  intro s
  obtain ⟨a, s', hxs, ha⟩ := hx s
  exact ⟨a, giveBack h s', by simp only [Session.holding, hxs], ha⟩

theorem onRefusal (h : H) (hx : Gives P x) : Gives P (Session.onRefusal h x) := by
  intro s
  obtain ⟨a, s', hxs, ha⟩ := hx s
  exact ⟨a, s', by simp only [Session.onRefusal, hxs], ha⟩

theorem assignAll (dest : Name) (table : List H) :
    Gives (fun _ => True) (Session.assignAll dest table : Play W H Unit) := by
  rw [Session.assignAll]
  induction table.zipIdx with
  | nil => exact pure trivial
  | cons entry entries ih => exact bind (assign _ _) fun _ _ => ih

end Gives

variable [Host W H]

/-- Every handle can be described. -/
def Describable (W : Type) {H : Type} [Host W H] : Prop :=
  ∀ (h : H) (m : Machine W), ∃ p m', Host.describe h m = .ok p m'

theorem gives_describe (hd : Describable W) (h : H) :
    Gives (fun _ => True) (act (Host.describe h) : Play W H Placement) := by
  intro s
  obtain ⟨p, m', hx⟩ := hd h s.machine
  exact ⟨p, ⟨m', s.seats, s.bindings⟩, by simp only [act, hx], trivial⟩

theorem gives_store (hd : Describable W) (dest : Name) (h : H) :
    Gives (fun a => a.isPlain = false) (store dest h : Play W H Answer) :=
  (Gives.assign dest h).bind fun _ _ => (gives_describe hd h).bind fun _ _ => .pure rfl

theorem gives_keep (hd : Describable W) (dest : Option Name) (h : H) :
    Gives (fun _ => True) (keep dest h : Play W H Placement) := by
  refine Gives.holding h ?_
  cases dest with
  | none => exact gives_describe hd h
  | some dest =>
    refine Gives.bind (P := fun _ => True) (fun s => ⟨_, _, rfl, trivial⟩) fun h' _ => ?_
    exact (Gives.assign dest h').bind fun _ _ => gives_describe hd h

theorem gives_keepCaptures (hd : Describable W) (toN toS : Option Name) (c : Closure H) :
    Gives (fun _ => True) (keepCaptures toN toS c : Play W H (Closure Placement)) := by
  cases c with
  | zero | zeroInner | succ | intLiteral | inc => exact .pure trivial
  | succPartial n => exact (gives_keep hd toN n).bind fun _ _ => .pure trivial
  | succInner n s =>
    refine (Gives.onRefusal s (gives_keep hd toN n)).bind fun _ _ => ?_
    exact (gives_keep hd toS s).bind fun _ _ => .pure trivial

theorem spares_capture (c : Closure Name) :
    Spares (fun _ => True) (capture c : Play W H (Closure H)) := by
  cases c with
  | zero | zeroInner | succ | intLiteral | inc => exact .pure _
  | succPartial n =>
    refine (Spares.handle n).bind fun n => ?_
    exact (Spares.act _).bind fun _ => .pure _
  | succInner n s =>
    refine (Spares.handle n).bind fun n => (Spares.handle s).bind fun s => ?_
    exact (Spares.act _).bind fun _ => (Spares.act _).bind fun _ => .pure _

theorem spares_store (hd : Describable W) (dest : Name) (h : H) :
    Spares (fun a => a.isPlain = true) (store dest h : Play W H Answer) :=
  .of_gives (gives_store hd dest h) fun a ha => by simp [ha]

/-- An operation leaves evaluators and variables alone unless it hands something back. -/
theorem spares_perform (hd : Describable W) (number : Nat) {command : Command}
    (hc : command.isOperation = true) :
    Spares (fun a => a.isPlain = true) (perform number command : Play W H Answer) := by
  have hstored (op : Act W H) (dest : Name) :
      Spares (fun a => a.isPlain = true) (act op >>= store dest : Play W H Answer) :=
    (Spares.act op).bind (spares_store hd dest)
  have hmodified (f : Session W H → Session W H) (k : Unit → Play W H Answer)
      (hk : Gives (fun a => a.isPlain = false) (k ())) :
      Spares (fun a => a.isPlain = true) (modify f >>= k) :=
    .of_gives ((Gives.modify f).bind fun _ _ => hk) fun a ha => by simp [ha]
  cases command with
  | new | stats | extent | ledger | reset | demo => cases hc
  | builtin b dest => exact (Spares.evaluator number).bind fun e => hstored _ dest
  | int value dest => exact (Spares.evaluator number).bind fun e => hstored _ dest
  | numeral k dest => exact (Spares.evaluator number).bind fun e => hstored _ dest
  | apply f x dest | plus f x dest | mul f x dest =>
    refine (Spares.evaluator number).bind fun e => ?_
    exact (Spares.handle f).bind fun f => (Spares.handle x).bind fun x => hstored _ dest
  | successor n dest =>
    exact (Spares.evaluator number).bind fun e => (Spares.handle n).bind fun n => hstored _ dest
  | alloc c dest =>
    refine (Spares.evaluator number).bind fun e => ?_
    exact (spares_capture c).bind fun c => hstored _ dest
  | clone a dest => exact (Spares.handle a).bind fun a => hstored _ dest
  | numerals count dest =>
    refine (Spares.evaluator number).bind fun e => (Spares.act _).bind fun table => ?_
    refine .of_gives (Q := fun a => a.isPlain = false) ?_ fun a ha => by simp [ha]
    exact (Gives.assignAll dest table.toList).bind fun _ _ => .pure rfl
  | resolve a toN toS =>
    refine (Spares.evaluator number).bind fun e => (Spares.handle a).bind fun a => ?_
    refine (Spares.act _).bind fun c => ?_
    refine .of_gives (Q := fun a => a.isPlain = false) ?_ fun a ha => by simp [ha]
    exact (gives_keepCaptures hd toN toS c).bind fun _ _ => .pure rfl
  | toInt a | kind a | fold a =>
    refine (Spares.evaluator number).bind fun e => (Spares.handle a).bind fun a => ?_
    exact (Spares.act _).bind fun _ => .pure _
  | pow a b =>
    refine (Spares.evaluator number).bind fun e => ?_
    refine (Spares.handle a).bind fun a => (Spares.handle b).bind fun b => ?_
    exact (Spares.act _).bind fun _ => .pure _
  | same a b =>
    refine (Spares.evaluator number).bind fun e => ?_
    exact (Spares.handle a).bind fun a => (Spares.handle b).bind fun b => .pure _
  | describe a =>
    exact (Spares.handle a).bind fun a => (Spares.act _).bind fun _ => .pure _
  | drop a => exact (Spares.handle a).bind fun h => hmodified _ _ ((Gives.modify _).bind
      fun _ _ => .pure rfl)
  | close =>
    refine (Spares.evaluator number).bind fun e => (Spares.act _).bind fun _ => ?_
    exact hmodified _ _ (.pure rfl)

/-- After a command that handed nothing back all evaluators and variables are as before. -/
theorem spares_step (hd : Describable W) (s : Session W H) (number : Nat) {command : Command}
    (hc : command.isOperation = true)
    (hplain : isPlain (s.step number (some command)).1.answer = true) :
    (s.step number (some command)).2.seats = s.seats ∧
      (s.step number (some command)).2.bindings = s.bindings := by
  have hspares := spares_perform hd number hc s
  simp only [step, Option.elim_some] at hplain ⊢
  cases hx : perform number command s with
  | ok a s' =>
    rw [hx] at hspares hplain
    exact hspares hplain
  | error r s' =>
    rw [hx] at hspares
    exact hspares

end ChurchStore.Session
