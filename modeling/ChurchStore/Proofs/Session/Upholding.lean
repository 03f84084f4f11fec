import ChurchStore.Proofs.Session.Turns
import ChurchStore.Proofs.Upholding

/-!
# What sessions uphold

If a store upholds a property with each of its operations, for the evaluators of a session, then so
does every operation of the session. Other commands open and reset evaluators or write into the log,
for which the store has to uphold the property as well; it may then depend on the number of
evaluators, for which their places are known to the store.
-/

namespace ChurchStore

variable {W H α : Type} {P : α → Prop}

/-- The operations of a store uphold the property, as far as they are for evaluators in one of the
given places or for none. -/
structure Host.Operates [Host W H] (I : Machine W → Prop) (Q : Fault → Machine W → Prop)
    (A : Site → Prop) : Prop where
  alloc {site : Site} (c : Closure H) :
    A site → Act.Upholds I Q (fun _ => True) (Backend.alloc site c)
  resolve {site : Site} (h : H) :
    A site → Act.Upholds I Q (fun _ => True) (Backend.resolve site h)
  retain (h : H) (m : Machine W) : I m → I (m.change (Backend.retain h))
  release (h : H) (m : Machine W) : I m → I (m.change (Backend.release h))
  release_failed (h : H) (f : Fault) (m : Machine W) : Q f m → Q f (m.change (Backend.release h))
  describe (h : H) : Act.Upholds I Q (fun _ => True) (describe h)

theorem Host.Operates.backend [Host W H] {I : Machine W → Prop} {Q : Fault → Machine W → Prop}
    {A : Site → Prop} (hW : Host.Operates I Q A) {site : Site} (hs : A site) :
    Backend.Upholds I Q site where
  alloc c := hW.alloc c hs
  resolve h := hW.resolve h hs
  retain := hW.retain
  release := hW.release
  release_failed := hW.release_failed

/-- A store upholds a property of it, which may depend on how many evaluators there are, with
whatever a session asks of it. Evaluators may only be opened within limits that are allowed. -/
structure Host.Upholds [Host W H] (I : Nat → W → Prop) (Q : Fault → Prop) (L : Limits → Prop) :
    Prop where
  operates (n : Nat) :
    Host.Operates (fun m : Machine W => I n m.store) (fun f m => Q f ∧ I n m.store) (· < n)
  openWith_ok {n : Nat} {limits : Limits} {m m' : Machine W} {e : Evaluator H} : L limits →
    I n m.store → openWith limits m = .ok e m' → ∃ n', n ≤ n' ∧ e.site < n' ∧ I n' m'.store
  openWith_error {n : Nat} {limits : Limits} {m m' : Machine W} {f : Fault} : L limits →
    I n m.store → openWith limits m = .error f m' → Q f ∧ ∃ n', n ≤ n' ∧ I n' m'.store
  reset {n : Nat} {e : Evaluator H} {op : Evaluator H → Act W (Evaluator H)} :
    reset? = some op → e.site < n → Act.Maintains (I n) Q (fun e' => e'.site < n) (op e)

namespace Session

variable {I : Machine W → Prop} {Q : Fault → Machine W → Prop} {A : Site → Prop}

/-- The command does not open an evaluator, or it does so within limits that are allowed. -/
def Command.Within (L : Limits → Prop) (command : Command) : Prop :=
  ∀ limits, command = .new limits → L limits

/-- The machine of the session has the property, and all evaluators are in the given places. -/
structure Upheld (I : Machine W → Prop) (A : Site → Prop) (s : Session W H) : Prop where
  machine : I s.machine
  site_mem (seat : Seat H) : seat ∈ s.seats → A seat.evaluator.site

/-- Where a command may be refused: the faults are those of operations, and nothing has changed
where something does not exist. -/
def Stopped (I : Machine W → Prop) (Q : Fault → Machine W → Prop) (A : Site → Prop) :
    Refusal → Session W H → Prop
  | .unknown => Upheld I A
  | .fault f => Upheld (Q f) A

/-- A part of a command upholds a property of the machine. -/
abbrev Upholds (I : Machine W → Prop) (Q : Fault → Machine W → Prop) (A : Site → Prop)
    (P : α → Prop) (x : Play W H α) : Prop :=
  ChurchStore.Upholds (Upheld I A) (Stopped I Q A) P x

theorem upholds_act {op : Act W α} (h : Act.Upholds I Q P op) :
    Upholds I Q A P (act op : Play W H α) := by
  intro s hs
  simp only [act]
  cases hrun : op s.machine with
  | ok a m => exact (h.of_ok hs.machine hrun).imp_right fun hm => ⟨hm, hs.site_mem⟩
  | error f m => exact ⟨h.of_error hs.machine hrun, hs.site_mem⟩

theorem upholds_throw_unknown :
    Upholds I Q A P (MonadExcept.throw .unknown : Play W H α) := .throw fun _ hs => hs

theorem upholds_evaluator (number : Nat) :
    Upholds I Q A (fun e => A e.site) (evaluator number : Play W H (Evaluator H)) := by
  intro s hs
  cases hseat : s.seats[number]? with
  | none =>
    rw [evaluator_of_none hseat]
    exact hs
  | some seat =>
    obtain ⟨e, isOpen⟩ := seat
    cases isOpen with
    | true =>
      rw [evaluator_of_open hseat]
      exact ⟨hs.site_mem _ (Array.mem_of_getElem? hseat), hs⟩
    | false =>
      rw [evaluator_of_ended hseat]
      exact hs

theorem upholds_handle (name : Name) :
    Upholds I Q A (fun _ => True) (handle name : Play W H H) := by
  intro s hs
  cases hvar : s.bindings[name]? with
  | none =>
    rw [handle_of_none hvar]
    exact hs
  | some h =>
    rw [handle_of_some hvar]
    exact ⟨trivial, hs⟩

theorem upholds_erase {name : Name} : Upholds I Q A (fun _ => True)
    (modify fun ⟨machine, seats, bindings⟩ => ⟨machine, seats, bindings.erase name⟩ :
      Play W H Unit) := fun _ hs => ⟨trivial, hs.machine, hs.site_mem⟩

theorem upholds_seat (number : Nat) {seat : Seat H} (hseat : A seat.evaluator.site) :
    Upholds I Q A (fun _ => True) (Session.seat number seat : Play W H Unit) := by
  refine fun s hs => ⟨trivial, hs.machine, fun x hx => ?_⟩
  rcases Array.mem_or_eq_of_mem_setIfInBounds hx with hx | rfl
  · exact hs.site_mem x hx
  · exact hseat

section Operations

variable [Host W H] (hW : Host.Operates (W := W) I Q A)

include hW

theorem Upheld.giveBack {s : Session W H} (hs : Upheld I A s) (h : H) :
    Upheld I A (s.giveBack h) := ⟨hW.release h s.machine hs.machine, hs.site_mem⟩

theorem Stopped.giveBack {s : Session W H} {r : Refusal} (hs : Stopped I Q A r s) (h : H) :
    Stopped I Q A r (s.giveBack h) := by
  cases r with
  | unknown => exact Upheld.giveBack hW hs h
  | fault f => exact ⟨hW.release_failed h f s.machine hs.machine, hs.site_mem⟩

theorem upholds_giveBack (h : H) :
    Upholds I Q A (fun _ => True) (modify (giveBack h) : Play W H Unit) :=
  .modify fun _ hs => hs.giveBack hW h

theorem upholds_holding (h : H) {x : Play W H α} (hx : Upholds I Q A P x) :
    Upholds I Q A P (holding h x) := by
  intro s hs
  rw [holding]
  cases hrun : x s with
  | ok a s' => exact (hx.of_ok hs hrun).imp_right fun hs' => hs'.giveBack hW h
  | error r s' => exact Stopped.giveBack hW (hx.of_error hs hrun) h

theorem upholds_onRefusal (h : H) {x : Play W H α} (hx : Upholds I Q A P x) :
    Upholds I Q A P (onRefusal h x) := by
  intro s hs
  rw [onRefusal]
  cases hrun : x s with
  | ok a s' => exact hx.of_ok hs hrun
  | error r s' => exact Stopped.giveBack hW (hx.of_error hs hrun) h

theorem upholds_clone (h : H) : Act.Upholds I Q (fun _ => True) (Backend.clone h) :=
  (Act.upholds_update (hW.retain h)).bind fun _ _ => .pure trivial

theorem upholds_assign (dest : Name) (h : H) :
    Upholds I Q A (fun _ => True) (assign dest h : Play W H Unit) := by
  intro s hs
  rw [assign_apply]
  cases s.bindings[dest]? with
  | none => exact ⟨trivial, hs.machine, hs.site_mem⟩
  | some old => exact ⟨trivial, hW.release old _ hs.machine, hs.site_mem⟩

theorem upholds_store (dest : Name) (h : H) :
    Upholds I Q A (fun _ => True) (store dest h : Play W H Answer) :=
  (upholds_assign hW dest h).bind fun _ _ => (upholds_act (hW.describe h)).bind fun _ _ =>
    .pure trivial

theorem upholds_act_store (dest : Name) {op : Act W H}
    (h : Act.Upholds I Q (fun _ => True) op) :
    Upholds I Q A (fun _ => True) (act op >>= store dest : Play W H Answer) :=
  (upholds_act h).bind fun h _ => upholds_store hW dest h

theorem upholds_keep (dest : Option Name) (h : H) :
    Upholds I Q A (fun _ => True) (keep dest h : Play W H Placement) := by
  refine upholds_holding hW h ?_
  cases dest with
  | none => exact upholds_act (hW.describe h)
  | some dest =>
    exact (upholds_act (upholds_clone hW h)).bind fun x _ => (upholds_assign hW dest x).bind
      fun _ _ => upholds_act (hW.describe h)

theorem upholds_keepCaptures (toN toS : Option Name) (c : Closure H) :
    Upholds I Q A (fun _ => True)
      (keepCaptures toN toS c : Play W H (Closure Placement)) := by
  cases c with
  | zero | zeroInner | succ | intLiteral | inc => exact .pure trivial
  | succPartial n => exact (upholds_keep hW toN n).bind fun _ _ => .pure trivial
  | succInner n s =>
    exact (upholds_onRefusal hW s (upholds_keep hW toN n)).bind fun _ _ =>
      (upholds_keep hW toS s).bind fun _ _ => .pure trivial

theorem upholds_capture (c : Closure Name) :
    Upholds I Q A (fun _ => True) (capture c : Play W H (Closure H)) := by
  cases c with
  | zero | zeroInner | succ | intLiteral | inc => exact .pure trivial
  | succPartial n =>
    exact (upholds_handle n).bind fun n _ => (upholds_act (upholds_clone hW n)).bind fun _ _ =>
      .pure trivial
  | succInner n s =>
    refine (upholds_handle n).bind fun n _ => (upholds_handle s).bind fun s _ => ?_
    exact (upholds_act (upholds_clone hW n)).bind fun _ _ =>
      (upholds_act (upholds_clone hW s)).bind fun _ _ => .pure trivial

theorem upholds_assignAll (dest : Name) (table : List H) :
    Upholds I Q A (fun _ => True) (assignAll dest table : Play W H Unit) :=
  .forM fun _ _ => upholds_assign hW _ _

/-- An operation upholds the property. -/
theorem upholds_operation (hQ : Fault.EvaluationAllowed I Q) (number : Nat) {command : Command}
    (hc : command.isOperation = true) :
    Upholds I Q A (fun _ => True) (perform number command : Play W H Answer) := by
  cases command with
  | new | stats | extent | ledger | reset | demo => cases hc
  | builtin b dest =>
    refine (upholds_evaluator number).bind fun e he => ?_
    exact upholds_act_store hW dest (e.upholds_builtin (hW.backend he) b)
  | int value dest =>
    refine (upholds_evaluator number).bind fun e he => ?_
    exact upholds_act_store hW dest (e.upholds_int (hW.backend he) value)
  | apply f x dest =>
    refine (upholds_evaluator number).bind fun e he => ?_
    refine (upholds_handle f).bind fun f _ => (upholds_handle x).bind fun x _ => ?_
    exact upholds_act_store hW dest (e.upholds_apply (hW.backend he) hQ f x)
  | successor n dest =>
    refine (upholds_evaluator number).bind fun e he => (upholds_handle n).bind fun n _ => ?_
    exact upholds_act_store hW dest (e.upholds_successor (hW.backend he) hQ n)
  | numeral k dest =>
    refine (upholds_evaluator number).bind fun e he => ?_
    exact upholds_act_store hW dest (e.upholds_numeral (hW.backend he) hQ k)
  | plus a b dest =>
    refine (upholds_evaluator number).bind fun e he => ?_
    refine (upholds_handle a).bind fun a _ => (upholds_handle b).bind fun b _ => ?_
    exact upholds_act_store hW dest (e.upholds_plus (hW.backend he) hQ a b)
  | mul a b dest =>
    refine (upholds_evaluator number).bind fun e he => ?_
    refine (upholds_handle a).bind fun a _ => (upholds_handle b).bind fun b _ => ?_
    exact upholds_act_store hW dest (e.upholds_mul (hW.backend he) hQ a b)
  | alloc c dest =>
    refine (upholds_evaluator number).bind fun e he => (upholds_capture hW c).bind fun c _ => ?_
    exact upholds_act_store hW dest (hW.alloc c he)
  | clone a dest =>
    exact (upholds_handle a).bind fun a _ => upholds_act_store hW dest (upholds_clone hW a)
  | numerals count dest =>
    refine (upholds_evaluator number).bind fun e he => ?_
    refine (upholds_act (e.upholds_numerals (hW.backend he) hQ count)).bind fun table _ => ?_
    exact (upholds_assignAll hW dest table.toList).bind fun _ _ => .pure trivial
  | resolve a toN toS =>
    refine (upholds_evaluator number).bind fun e he => (upholds_handle a).bind fun a _ => ?_
    refine (upholds_act (hW.resolve a he)).bind fun c _ => ?_
    exact (upholds_keepCaptures hW toN toS c).bind fun _ _ => .pure trivial
  | toInt a =>
    refine (upholds_evaluator number).bind fun e he => (upholds_handle a).bind fun a _ => ?_
    exact (upholds_act (e.upholds_toInt (hW.backend he) hQ a)).bind fun _ _ => .pure trivial
  | kind a =>
    refine (upholds_evaluator number).bind fun e he => (upholds_handle a).bind fun a _ => ?_
    exact (upholds_act (e.upholds_kind (hW.backend he) a)).bind fun _ _ => .pure trivial
  | fold n =>
    refine (upholds_evaluator number).bind fun e he => (upholds_handle n).bind fun n _ => ?_
    exact (upholds_act (e.upholds_fold (hW.backend he) hQ n)).bind fun _ _ => .pure trivial
  | same a b =>
    refine (upholds_evaluator number).bind fun e _ => (upholds_handle a).bind fun a _ => ?_
    exact (upholds_handle b).bind fun b _ => .pure trivial
  | pow base exponent =>
    refine (upholds_evaluator number).bind fun e he => (upholds_handle base).bind fun base _ => ?_
    refine (upholds_handle exponent).bind fun exponent _ => ?_
    exact (upholds_act (e.upholds_pow (hW.backend he) hQ base exponent)).bind fun _ _ =>
      .pure trivial
  | describe a =>
    exact (upholds_handle a).bind fun a _ => (upholds_act (hW.describe a)).bind fun _ _ =>
      .pure trivial
  | drop a =>
    refine (upholds_handle a).bind fun h _ => upholds_erase.bind fun _ _ => ?_
    exact (upholds_giveBack hW h).bind fun _ _ => .pure trivial
  | close =>
    refine (upholds_evaluator number).bind fun e he => ?_
    refine (upholds_act (e.upholds_close (hW.backend he))).bind fun _ _ => ?_
    exact (upholds_seat number he).bind fun _ _ => .pure trivial

/-- A run of operations upholds a property in which the log plays no part. -/
theorem Upheld.after (hQ : Fault.EvaluationAllowed I Q) (hfailed : ∀ f m, Q f m → I m)
    (hlog : ∀ (m : Machine W) (j : Journal), I m → I { m with journal := j }) {s : Session W H}
    (hs : Upheld I A s) {commands : List Command}
    (hc : ∀ command ∈ commands, command.isOperation = true) : Upheld I A (s.after commands) := by
  induction commands generalizing s with
  | nil => exact hs
  | cons command commands ih =>
    refine ih (s := (s.step 0 (some command)).2) ?_ fun x hx => hc x (List.mem_cons_of_mem _ hx)
    have hplay := upholds_operation hW hQ 0 (hc command (List.mem_cons_self ..))
    simp only [Session.step, Option.elim_some]
    cases hrun : perform 0 command s with
    | ok a s' =>
      obtain ⟨-, hs'⟩ := hplay.of_ok hs hrun
      exact ⟨hlog _ _ hs'.machine, hs'.site_mem⟩
    | error r s' =>
      have hstop := hplay.of_error hs hrun
      cases r with
      | unknown => exact ⟨hlog _ _ hstop.machine, hstop.site_mem⟩
      | fault f => exact ⟨hlog _ _ (hfailed f _ hstop.machine), hstop.site_mem⟩

end Operations

section Commands

variable {J : Nat → W → Prop} {F : Fault → Prop} {L : Limits → Prop} {n : Nat} [Host W H]
  (hW : Host.Upholds (W := W) J F L)
  (hF : ∀ n, Fault.EvaluationAllowed (fun m : Machine W => J n m.store)
    fun f m => F f ∧ J n m.store)

include hW hF

theorem upholds_playDemo {e : Evaluator H} (he : e.site < n) (options : DemoOptions)
    (palette : Report.Palette) (limit : Option Nat) :
    Upholds (fun m => J n m.store) (fun f m => F f ∧ J n m.store) (· < n) (fun _ => True)
      (playDemo e options palette limit : Play W H Answer) := by
  intro s hs
  have hplay := Demo.upholds_run ((hW.operates n).backend he) (hF n) (fun _ _ hm => hm) options
    (fun _ => 0)
  simp only [playDemo]
  cases hrun : Demo.run e options (fun _ => 0) ⟨s.machine, { palette, sink := { limit } }⟩ with
  | ok a stage => exact ⟨trivial, (hplay.of_ok hs.machine hrun).2, hs.site_mem⟩
  | error halt stage =>
    have hstop := hplay.of_error hs.machine hrun
    cases halt with
    | write e => exact ⟨trivial, hstop, hs.site_mem⟩
    | fault f => exact ⟨hstop, hs.site_mem⟩

/-- Opening an evaluator is told apart, since there is one more afterwards. -/
theorem upholds_perform (number : Nat) {command : Command}
    (hc : ∀ limits, command ≠ .new limits) :
    Upholds (fun m => J n m.store) (fun f m => F f ∧ J n m.store) (· < n) (fun _ => True)
      (perform number command : Play W H Answer) := by
  by_cases hop : command.isOperation = true
  · exact upholds_operation (hW.operates n) (hF n) number hop
  cases command with
  | new limits => exact absurd rfl (hc limits)
  | stats | extent =>
    refine (upholds_evaluator number).bind fun e _ => ?_
    exact (upholds_act (Act.upholds_read _)).bind fun _ _ => .pure trivial
  | ledger =>
    refine Upholds.get.bind fun s _ => ?_
    split
    · exact upholds_throw_unknown
    · refine (upholds_act (Act.upholds_read _)).bind fun l _ => ?_
      split
      · exact .pure trivial
      · exact upholds_throw_unknown
  | reset =>
    refine (upholds_evaluator number).bind fun e he => ?_
    split
    · exact upholds_throw_unknown
    · rename_i reset hreset
      refine (upholds_act (hW.reset hreset he)).bind fun e he => ?_
      refine (upholds_seat number he).bind fun _ _ => ?_
      exact (upholds_act (Act.upholds_read _)).bind fun _ _ => .pure trivial
  | demo options palette limit =>
    exact (upholds_evaluator number).bind fun e he =>
      upholds_playDemo hW hF he options palette limit
  | _ => exact absurd rfl hop

/-- A command leaves the session in such a state, in which there may be one evaluator more, and
stops with a fault only if that has the property. -/
theorem Upheld.step {s : Session W H} (hs : Upheld (fun m => J n m.store) (· < n) s)
    (number : Nat) {command : Command} (hc : command.Within L) :
    (∃ n', Upheld (fun m => J n' m.store) (· < n') (s.step number (some command)).2) ∧
      ∀ f, (s.step number (some command)).1.answer = .error (.fault f) → F f := by
  by_cases hnew : ∃ limits, command = .new limits
  · obtain ⟨limits, rfl⟩ := hnew
    have hL := hc limits rfl
    have hold {n' : Nat} (hle : n ≤ n') (seat : Seat H) (hseat : seat ∈ s.seats) :
        seat.evaluator.site < n' := Nat.lt_of_lt_of_le (hs.site_mem seat hseat) hle
    simp only [Session.step, Option.elim_some, perform, Bind.bind, EStateM.bind, act]
    cases hrun : Host.openWith limits s.machine with
    | ok e m =>
      obtain ⟨n', hle, he, hm⟩ := hW.openWith_ok hL hs.machine hrun
      refine ⟨⟨n', hm, fun seat hseat => ?_⟩, fun f hf => by cases hf⟩
      rcases Array.mem_push.1 hseat with hseat | rfl
      · exact hold hle seat hseat
      · exact he
    | error f m =>
      obtain ⟨hf, n', hle, hm⟩ := hW.openWith_error hL hs.machine hrun
      refine ⟨⟨n', hm, hold hle⟩, ?_⟩
      rintro _ ⟨⟩
      exact hf
  · have hplay := upholds_perform (n := n) hW hF number fun limits h => hnew ⟨limits, h⟩
    simp only [Session.step, Option.elim_some]
    cases hrun : perform number command s with
    | ok a s' =>
      obtain ⟨-, hs'⟩ := hplay.of_ok hs hrun
      exact ⟨⟨n, hs'.machine, hs'.site_mem⟩, fun f hf => by cases hf⟩
    | error r s' =>
      have hstop := hplay.of_error hs hrun
      cases r with
      | unknown => exact ⟨⟨n, hstop.machine, hstop.site_mem⟩, fun f hf => by cases hf⟩
      | fault f =>
        refine ⟨⟨n, hstop.machine.2, hstop.site_mem⟩, ?_⟩
        rintro _ ⟨⟩
        exact hstop.machine.1

/-- Whatever is done in turn, no command stops with a fault that does not have the property. -/
theorem Upheld.fault_of_mem_turnAnswers {s : Session W H}
    (hs : Upheld (fun m => J n m.store) (· < n) s) {turns : List (Nat × Command)}
    (hturns : ∀ turn ∈ turns, turn.2.Within L) {f : Fault}
    (hf : .error (.fault f) ∈ s.turnAnswers turns) : F f := by
  induction turns generalizing s n with
  | nil => cases hf
  | cons turn turns ih =>
    obtain ⟨⟨n', hs'⟩, hanswer⟩ := hs.step hW hF turn.1 (hturns turn (List.mem_cons_self ..))
    rw [turnAnswers, List.mem_cons] at hf
    rcases hf with hf | hf
    · exact hanswer f hf.symm
    · exact ih hs' (fun t ht => hturns t (List.mem_cons_of_mem turn ht)) hf

end Commands

end Session

end ChurchStore
