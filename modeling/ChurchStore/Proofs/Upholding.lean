import ChurchStore.Demo

/-!
# What computations uphold

A property of states that holds after every computation if it held before. Beside it there is a
property that all answers have, and one of errors and the states in which they stop. The rules
follow the ways in which operations, scenes and commands are put together; so for a store that
upholds a property with each of its own operations, every command does.
-/

namespace ChurchStore

section

variable {σ ε α β : Type}

/-- From a state with the property `I` the computation ends in such a state with an answer that has
the property `P`, or it stops with an error and in a state that have the property `Q`. -/
def Upholds (I : σ → Prop) (Q : ε → σ → Prop) (P : α → Prop) (x : EStateM ε σ α) : Prop :=
  ∀ s, I s → match x s with
    | .ok a s' => P a ∧ I s'
    | .error e s' => Q e s'

namespace Upholds

variable {I : σ → Prop} {Q : ε → σ → Prop} {P : α → Prop} {R : β → Prop} {x : EStateM ε σ α}
  {k : α → EStateM ε σ β}

theorem of_ok {s s' : σ} {a : α} (h : Upholds I Q P x) (hs : I s) (hx : x s = .ok a s') :
    P a ∧ I s' := by
  have hend := h s hs
  rwa [hx] at hend

theorem of_error {s s' : σ} {e : ε} (h : Upholds I Q P x) (hs : I s) (hx : x s = .error e s') :
    Q e s' := by
  have hend := h s hs
  rwa [hx] at hend

/-- What is known of each way in which the computation can end. -/
theorem of_runs (hok : ∀ s a s', I s → x s = .ok a s' → P a ∧ I s')
    (herror : ∀ s e s', I s → x s = .error e s' → Q e s') : Upholds I Q P x := by
  intro s hs
  cases hrun : x s with
  | ok a s' => exact hok s a s' hs hrun
  | error e s' => exact herror s e s' hs hrun

theorem pure {a : α} (h : P a) : Upholds I Q P (Pure.pure a : EStateM ε σ α) := fun _ hs => ⟨h, hs⟩

theorem throw {e : ε} (h : ∀ s, I s → Q e s) :
    Upholds I Q P (MonadExcept.throw e : EStateM ε σ α) := h

theorem get : Upholds I Q I (MonadState.get : EStateM ε σ σ) := fun _ hs => ⟨hs, hs⟩

theorem modify {f : σ → σ} (h : ∀ s, I s → I (f s)) :
    Upholds I Q (fun _ => True) (modify f : EStateM ε σ Unit) := fun s hs => ⟨trivial, h s hs⟩

theorem bind (hx : Upholds I Q P x) (hk : ∀ a, P a → Upholds I Q R (k a)) :
    Upholds I Q R (x >>= k) := by
  intro s hs
  simp only [Bind.bind, EStateM.bind]
  cases hrun : x s with
  | ok a s' =>
    obtain ⟨ha, hs'⟩ := hx.of_ok hs hrun
    exact hk a ha s' hs'
  | error e s' => exact hx.of_error hs hrun

/-- What is done for each entry of a list is done for all. -/
theorem forM {γ : Type} {f : γ → EStateM ε σ PUnit} {l : List γ}
    (h : ∀ c ∈ l, Upholds I Q (fun _ => True) (f c)) : Upholds I Q (fun _ => True) (l.forM f) := by
  induction l with
  | nil => exact pure trivial
  | cons c l ih =>
    exact (h c (List.mem_cons_self ..)).bind fun _ _ =>
      ih fun d hd => h d (List.mem_cons_of_mem c hd)

end Upholds

end

namespace Machine

variable {W : Type}

/-- The machine with its store changed. -/
def change (m : Machine W) (f : W → W) : Machine W := { m with store := f m.store }

/-- The machine with an event more in its log. -/
def logged (m : Machine W) (e : Log.Event) : Machine W :=
  { m with journal := m.journal.record e }

/-- The machine once an operation has stopped with a fault, which is logged if it is a violation. -/
def failed (m : Machine W) : Fault → Machine W
  | .violation v => m.logged (.violation v)
  | _ => m

theorem store_failed (m : Machine W) (f : Fault) : (m.failed f).store = m.store := by
  cases f <;> rfl

theorem change_failed (m : Machine W) (f : Fault) (g : W → W) :
    (m.failed f).change g = (m.change g).failed f := by
  cases f <;> rfl

end Machine

variable {W H α β : Type} {I : Machine W → Prop} {Q : Fault → Machine W → Prop} {P : α → Prop}
  {R : β → Prop}

/-! ## Operations -/

/-- The fault may stop an operation at any time. -/
def Fault.Allowed (I : Machine W → Prop) (Q : Fault → Machine W → Prop) (f : Fault) : Prop :=
  ∀ m, I m → Q f (m.failed f)

/-- The faults of evaluation itself, and of a table that is too large. -/
structure Fault.EvaluationAllowed (I : Machine W → Prop) (Q : Fault → Machine W → Prop) :
    Prop where
  nestingLimit : Allowed I Q .nestingLimit
  capacityOverflow : Allowed I Q .capacityOverflow
  notApplicable (k : Kind) : Allowed I Q (.violation (.notApplicable k))
  notNumeric (k : Kind) : Allowed I Q (.violation (.notNumeric k))
  integerOverflow (value : Int64) : Allowed I Q (.violation (.integerOverflow value))

theorem Fault.EvaluationAllowed.of_allowed (h : ∀ f : Fault, f.Allowed I Q) :
    EvaluationAllowed I Q :=
  ⟨h _, h _, fun _ => h _, fun _ => h _, fun _ => h _⟩

namespace Act

/-- The operation upholds a property of the machine. -/
abbrev Upholds (I : Machine W → Prop) (Q : Fault → Machine W → Prop) (P : α → Prop)
    (op : Act W α) : Prop :=
  ChurchStore.Upholds I Q P op

/-- The operation upholds a property of the store, whether it answers or stops, and stops only with
faults that have a property of their own. -/
abbrev Maintains (I : W → Prop) (Q : Fault → Prop) (P : α → Prop) (op : Act W α) : Prop :=
  Upholds (fun m => I m.store) (fun f m => Q f ∧ I m.store) P op

theorem upholds_read (f : W → α) : Upholds I Q (fun _ => True) (read f) := fun _ hm => ⟨trivial, hm⟩

/-- What is read of a machine with the property. -/
theorem upholds_read_of {f : W → α} (h : ∀ m, I m → P (f m.store)) : Upholds I Q P (read f) :=
  fun m hm => ⟨h m hm, hm⟩

theorem upholds_emit {e : Log.Event} (h : ∀ m, I m → I (m.logged e)) :
    Upholds I Q (fun _ => True) (emit e) := fun m hm => ⟨trivial, h m hm⟩

theorem upholds_update {f : W → W} (h : ∀ m, I m → I (m.change f)) :
    Upholds I Q (fun _ => True) (update f) := fun m hm => ⟨trivial, h m hm⟩

theorem upholds_violate {v : Violation} (h : (Fault.violation v).Allowed I Q) :
    Upholds I Q P (violate v : Act W α) := h

theorem upholds_ensuring {op : Act W α} {finish : W → W} (hfinish : ∀ m, I m → I (m.change finish))
    (hfailed : ∀ f m, Q f m → Q f (m.change finish)) (h : Upholds I Q P op) :
    Upholds I Q P (ensuring finish op) := by
  intro m hm
  rw [ensuring]
  cases hrun : op m with
  | ok a m' => exact (h.of_ok hm hrun).imp_right (hfinish m')
  | error f m' => exact hfailed f m' (h.of_error hm hrun)

theorem upholds_onFault {op : Act W α} {finish : W → W}
    (hfailed : ∀ f m, Q f m → Q f (m.change finish)) (h : Upholds I Q P op) :
    Upholds I Q P (onFault finish op) := by
  intro m hm
  rw [onFault]
  cases hrun : op m with
  | ok a m' => exact h.of_ok hm hrun
  | error f m' => exact hfailed f m' (h.of_error hm hrun)

end Act

/-- The operations of a store uphold the property, as far as they are for one of its evaluators. -/
structure Backend.Upholds [Backend W H] (I : Machine W → Prop) (Q : Fault → Machine W → Prop)
    (site : Site) : Prop where
  alloc (c : Closure H) : Act.Upholds I Q (fun _ => True) (alloc site c)
  resolve (h : H) : Act.Upholds I Q (fun _ => True) (resolve site h)
  retain (h : H) (m : Machine W) : I m → I (m.change (retain h))
  release (h : H) (m : Machine W) : I m → I (m.change (release h))
  /-- Handles are given back also after a fault. -/
  release_failed (h : H) (f : Fault) (m : Machine W) : Q f m → Q f (m.change (Backend.release h))

namespace Backend.Upholds

variable [Backend W H] {site : Site}

theorem clone (hB : Backend.Upholds I Q site) (h : H) :
    Act.Upholds I Q (fun _ => True) (clone h) :=
  (Act.upholds_update (hB.retain h)).bind fun _ _ => .pure trivial

theorem holding {op : Act W α} (hB : Backend.Upholds I Q site) (h : H)
    (hop : Act.Upholds I Q P op) : Act.Upholds I Q P (holding h op) :=
  Act.upholds_ensuring (hB.release h) (hB.release_failed h) hop

theorem releaseAll (hB : Backend.Upholds I Q site) (hs : List H) (m : Machine W) (hm : I m) :
    I (m.change (releaseAll hs)) := by
  induction hs generalizing m with
  | nil => exact hm
  | cons h hs ih => exact ih _ (hB.release h m hm)

theorem releaseAll_failed (hB : Backend.Upholds I Q site) (hs : List H) (f : Fault)
    (m : Machine W) (hm : Q f m) : Q f (m.change (Backend.releaseAll hs)) := by
  induction hs generalizing m with
  | nil => exact hm
  | cons h hs ih => exact ih _ (hB.release_failed h f m hm)

theorem build (hB : Backend.Upholds I Q site) :
    Act.Upholds I Q (fun _ => True) (Singletons.build (Backend.alloc site)) := by
  unfold Singletons.build
  iterate 4 refine (hB.alloc _).bind fun _ _ => ?_
  exact .pure trivial

end Backend.Upholds

namespace Evaluator

variable [Backend W H] {e : Evaluator H}

theorem upholds_builtin (hB : Backend.Upholds I Q e.site) (b : Builtin) :
    Act.Upholds I Q (fun _ => True) (e.builtin b) := hB.clone _

theorem upholds_int (hB : Backend.Upholds I Q e.site) (value : Int64) :
    Act.Upholds I Q (fun _ => True) (e.int value) := hB.alloc _

theorem upholds_inspect (hB : Backend.Upholds I Q e.site) (h : H) :
    Act.Upholds I Q (fun _ => True) (e.inspect h) :=
  (hB.resolve h).bind fun c _ =>
    (Act.upholds_update (hB.releaseAll c.captures)).bind fun _ _ => .pure trivial

theorem upholds_kind (hB : Backend.Upholds I Q e.site) (h : H) :
    Act.Upholds I Q (fun _ => True) (e.kind h) :=
  (upholds_inspect hB h).bind fun _ _ => .pure trivial

theorem upholds_close (hB : Backend.Upholds I Q e.site) :
    Act.Upholds I Q (fun _ => True) e.close := Act.upholds_update (hB.releaseAll _)

variable (hB : Backend.Upholds I Q e.site) (hQ : Fault.EvaluationAllowed I Q)

include hB hQ

theorem upholds_toInt (h : H) : Act.Upholds I Q (fun _ => True) (e.toInt h) := by
  refine (upholds_inspect hB h).bind fun c _ => ?_
  cases c.asInt? with
  | some value => exact .pure trivial
  | none => exact Act.upholds_violate (hQ.notNumeric c.kind)

theorem upholds_applyWithin (depth : Nat) (f x : H) :
    Act.Upholds I Q (fun _ => True) (e.applyWithin depth f x) := by
  induction depth generalizing f x with
  | zero => exact .throw hQ.nestingLimit
  | succ depth ih =>
    refine (hB.resolve f).bind fun c _ => ?_
    cases c with
    | zero => exact upholds_builtin hB .zeroInner
    | zeroInner => exact hB.clone x
    | succ => exact (hB.clone x).bind fun _ _ => hB.alloc _
    | succPartial n => exact (hB.clone x).bind fun _ _ => hB.alloc _
    | succInner n s =>
      refine hB.holding n (hB.holding s ?_)
      refine (ih n s).bind fun ns _ => hB.holding ns ?_
      exact (ih ns x).bind fun nsx _ => hB.holding nsx (ih s nsx)
    | intLiteral value => exact Act.upholds_violate (hQ.notApplicable .intLiteral)
    | inc =>
      refine (upholds_toInt hB hQ x).bind fun value _ => ?_
      split
      · exact Act.upholds_violate (hQ.integerOverflow value)
      · exact upholds_int hB _

theorem upholds_apply (f x : H) : Act.Upholds I Q (fun _ => True) (e.apply f x) :=
  upholds_applyWithin hB hQ e.nesting f x

theorem upholds_successor (n : H) : Act.Upholds I Q (fun _ => True) (e.successor n) :=
  (upholds_builtin hB .succ).bind fun s _ => hB.holding s (upholds_apply hB hQ s n)

theorem upholds_successors (k : Nat) (n : H) :
    Act.Upholds I Q (fun _ => True) (e.successors k n) := by
  induction k generalizing n with
  | zero => exact .pure trivial
  | succ k ih => exact (hB.holding n (upholds_successor hB hQ n)).bind fun next _ => ih next

theorem upholds_numeral (k : Nat) : Act.Upholds I Q (fun _ => True) (e.numeral k) :=
  (upholds_builtin hB .zero).bind fun n _ => upholds_successors hB hQ k n

theorem upholds_extendTable (k : Nat) (table : Array H) :
    Act.Upholds I Q (fun _ => True) (e.extendTable k table) := by
  induction k generalizing table with
  | zero => exact .pure trivial
  | succ k ih =>
    refine .bind (P := fun _ => True) ?_ fun next _ => ih _
    refine Act.upholds_onFault (hB.releaseAll_failed table.toList) ?_
    split
    · exact upholds_successor hB hQ _
    · exact upholds_builtin hB .zero

theorem upholds_numerals (count : Nat) :
    Act.Upholds I Q (fun _ => True) (e.numerals count) := by
  rw [numerals]
  split
  · exact upholds_extendTable hB hQ count #[]
  · exact .throw hQ.capacityOverflow

theorem upholds_fold (n : H) : Act.Upholds I Q (fun _ => True) (e.fold n) := by
  refine (upholds_builtin hB .inc).bind fun inc _ => ?_
  refine (hB.holding inc (upholds_apply hB hQ n inc)).bind fun applied _ => hB.holding applied ?_
  refine (upholds_int hB 0).bind fun start _ => ?_
  refine (hB.holding start (upholds_apply hB hQ applied start)).bind fun counted _ => ?_
  exact hB.holding counted (upholds_toInt hB hQ counted)

theorem upholds_pow (base exponent : H) :
    Act.Upholds I Q (fun _ => True) (e.pow base exponent) :=
  (upholds_apply hB hQ exponent base).bind fun power _ =>
    hB.holding power (upholds_fold hB hQ power)

theorem upholds_plus (a b : H) : Act.Upholds I Q (fun _ => True) (e.plus a b) := by
  refine (upholds_builtin hB .succ).bind fun s _ => hB.holding s ?_
  exact (upholds_apply hB hQ a s).bind fun add _ => hB.holding add (upholds_apply hB hQ add b)

theorem upholds_mul (a b : H) : Act.Upholds I Q (fun _ => True) (e.mul a b) := by
  refine (upholds_builtin hB .succ).bind fun s _ => ?_
  refine (hB.holding s (upholds_apply hB hQ b s)).bind fun addB _ => ?_
  refine (Act.upholds_onFault (hB.release_failed addB) (upholds_apply hB hQ a addB)).bind
    fun iterated _ => hB.holding iterated ?_
  refine (upholds_builtin hB .zero).bind fun zero _ => hB.holding zero (hB.holding addB ?_)
  exact upholds_apply hB hQ iterated zero

end Evaluator

/-! ## Scenes -/

namespace Scene

/-- Where a scene may stop: the faults are those of operations, and an error in writing changes
nothing. -/
def Stops (I : Machine W → Prop) (Q : Fault → Machine W → Prop) : Halt → Stage W → Prop
  | .write _, stage => I stage.machine
  | .fault f, stage => Q f stage.machine

/-- The scene upholds a property of the machine. -/
abbrev Upholds (I : Machine W → Prop) (Q : Fault → Machine W → Prop) (scene : Scene W α) : Prop :=
  ChurchStore.Upholds (fun stage : Stage W => I stage.machine) (Stops I Q) (fun _ => True) scene

theorem upholds_act {op : Act W α} (h : Act.Upholds I Q P op) : Upholds I Q (act op) := by
  intro stage hstage
  simp only [act]
  cases hrun : op stage.machine with
  | ok a m => exact ⟨trivial, (h.of_ok hstage hrun).2⟩
  | error f m => exact h.of_error hstage hrun

theorem upholds_print (op : Report.Print α) : Upholds I Q (print op : Scene W α) := by
  intro stage hstage
  simp only [print]
  cases op stage.reporter with
  | ok a reporter => exact ⟨trivial, hstage⟩
  | error e reporter => exact hstage

theorem upholds_ensuring {scene : Scene W α} {finish : W → W}
    (hfinish : ∀ m, I m → I (m.change finish)) (hfailed : ∀ f m, Q f m → Q f (m.change finish))
    (h : Upholds I Q scene) : Upholds I Q (scene.ensuring finish) := by
  intro stage hstage
  rw [ensuring]
  cases hrun : scene stage with
  | ok a stage' => exact (h.of_ok hstage hrun).imp_right (hfinish stage'.machine)
  | error halt stage' =>
    have hstop := h.of_error hstage hrun
    cases halt with
    | write e => exact hfinish stage'.machine hstop
    | fault f => exact hfailed f stage'.machine hstop

theorem upholds_holding [Backend W H] {site : Site} {scene : Scene W α}
    (hB : Backend.Upholds I Q site) (h : H) (hscene : Upholds I Q scene) :
    Upholds I Q (holding h scene) :=
  upholds_ensuring (hB.release h) (hB.release_failed h) hscene

end Scene

namespace Demo

open Scene

variable [Backend W H] {e : Evaluator H} (hB : Backend.Upholds I Q e.site)
  (hQ : Fault.EvaluationAllowed I Q)

include hB hQ

theorem upholds_operand (table : Array H) (k : Nat) : Scene.Upholds I Q (operand e table k) := by
  refine upholds_act (P := fun _ => True) ?_
  split
  · exact hB.clone _
  · exact Evaluator.upholds_numeral hB hQ k

theorem upholds_binary (table : Array H) (label : String) (a b : Nat) {op : H → H → Act W Int64}
    (hop : ∀ x y, Act.Upholds I Q (fun _ => True) (op x y)) :
    Scene.Upholds I Q (binary e table label a b op) := by
  refine (upholds_operand hB hQ table a).bind fun x _ => upholds_holding hB x ?_
  refine (upholds_operand hB hQ table b).bind fun y _ => upholds_holding hB y ?_
  exact (upholds_act (hop x y)).bind fun value _ => upholds_print _

theorem upholds_combined (table : Array H) (label : String) {op : H → H → Act W H}
    (hop : ∀ x y, Act.Upholds I Q (fun _ => True) (op x y)) :
    Scene.Upholds I Q (arithmetic.combined e table label op) := by
  refine (upholds_operand hB hQ table 9).bind fun x _ => upholds_holding hB x ?_
  refine (upholds_operand hB hQ table 5).bind fun y _ => upholds_holding hB y ?_
  refine (upholds_act (hop x y)).bind fun combination _ => upholds_holding hB combination ?_
  exact (upholds_act (Evaluator.upholds_fold hB hQ combination)).bind fun _ _ => upholds_print _

theorem upholds_arithmetic (table : Array H) : Scene.Upholds I Q (arithmetic e table) := by
  unfold arithmetic
  iterate 4
    refine (upholds_binary hB hQ table _ _ _ (Evaluator.upholds_pow hB hQ)).bind fun _ _ => ?_
  exact (upholds_combined hB hQ table _ (Evaluator.upholds_plus hB hQ)).bind fun _ _ =>
    upholds_combined hB hQ table _ (Evaluator.upholds_mul hB hQ)

variable (hlog : ∀ (event : Log.Event) (m : Machine W), I m → I (m.logged event))

include hlog

theorem upholds_folds (count : Nat) : Scene.Upholds I Q (folds e count) := by
  refine (upholds_act (Evaluator.upholds_numerals hB hQ count)).bind fun table _ =>
    upholds_ensuring (hB.releaseAll table.toList) (hB.releaseAll_failed table.toList) ?_
  refine (upholds_act (Act.upholds_emit (hlog _))).bind fun _ _ =>
    .bind (P := fun _ => True) ?_ fun _ _ => upholds_arithmetic hB hQ table
  refine ChurchStore.Upholds.forM fun entry _ => ?_
  exact (upholds_act (Evaluator.upholds_fold hB hQ entry.1)).bind fun _ _ => upholds_print _

theorem upholds_attempts (clock : Nat → Nat) (k repeatCount : Nat) (n : H)
    (remaining attempt : Nat) :
    Scene.Upholds I Q (attempts e clock k repeatCount n remaining attempt) := by
  induction remaining generalizing attempt with
  | zero => exact .pure trivial
  | succ remaining ih =>
    refine (upholds_act (Evaluator.upholds_pow hB hQ n n)).bind fun value _ => ?_
    refine .bind (P := fun _ => True) ?_ fun _ _ => ih (attempt + 1)
    refine (upholds_act (Act.upholds_read _)).bind fun live _ => ?_
    refine (upholds_act (Act.upholds_emit (hlog _))).bind fun _ _ => ?_
    exact (upholds_print _).bind fun _ _ => upholds_print _

theorem upholds_selfPower (clock : Nat → Nat) (k repeatCount : Nat) :
    Scene.Upholds I Q (selfPower e clock k repeatCount) :=
  (upholds_act (Evaluator.upholds_numeral hB hQ k)).bind fun n _ =>
    upholds_holding hB n (upholds_attempts hB hQ hlog clock k repeatCount n _ _)

omit hB hQ hlog in
theorem upholds_closing (options : DemoOptions) : Scene.Upholds I Q (closing e options) := by
  unfold closing
  split
  · refine (upholds_act (Act.upholds_read _)).bind fun stats _ => ?_
    exact (upholds_print _).bind fun _ _ => upholds_print _
  · exact upholds_print _

theorem upholds_run (options : DemoOptions) (clock : Nat → Nat) :
    Scene.Upholds I Q (run e options clock) := by
  refine (upholds_print _).bind fun _ _ => ?_
  cases options.workload with
  | fold =>
    exact (upholds_folds hB hQ hlog options.numeralCount).bind fun _ _ => upholds_closing options
  | selfPower k =>
    exact (upholds_selfPower hB hQ hlog clock k options.repeatCount).bind fun _ _ =>
      upholds_closing options

end Demo

end ChurchStore
