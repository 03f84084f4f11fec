import ChurchStore.Demo
import ChurchStore.Proofs.Report.Coloring

/-!
# How demos are put together

A demo is made of operations on the machine and operations of the reporter, one after the other,
with handles that are given back at the end. What holds of these and is kept by putting them
together holds of every demo. All texts that a demo writes are its own and begin no control
sequence.
-/

namespace ChurchStore

open Report

/-- A property of scenes that holds of their steps and is kept by putting them together. -/
structure Scene.Composes {W : Type} (P : ∀ {α : Type}, Scene W α → Prop) : Prop where
  pure {α : Type} (a : α) : P (Pure.pure a : Scene W α)
  act {α : Type} (op : Act W α) : P (Scene.act op)
  print (op : Operation) : op.Clear → P (Scene.print op.perform : Scene W Unit)
  bind {α β : Type} {scene : Scene W α} {rest : α → Scene W β} :
    P scene → (∀ a, P (rest a)) → P (scene >>= rest)
  ensuring {α : Type} (finish : W → W) {scene : Scene W α} : P scene → P (scene.ensuring finish)

theorem Demo.clear_attemptLabel (k repeatCount attempt : Nat) :
    Clear (attemptLabel k repeatCount attempt) := by
  have hlabel : Clear s!"N{k}^N{k}" :=
    (((show Clear "N" by decide).append (.toString_nat k)).append (by decide)).append
      (.toString_nat k)
  have hattempt : Clear s!"Attempt #{attempt} " :=
    ((show Clear "Attempt #" by decide).append (.toString_nat attempt)).append (by decide)
  unfold attemptLabel
  split
  · exact hattempt.append hlabel
  · exact hlabel

namespace Scene.Composes

variable {W H α β : Type} {P : ∀ {α : Type}, Scene W α → Prop} (h : Composes P)

include h

theorem holding [Backend W H] (held : H) {scene : Scene W α} (hs : P scene) :
    P (scene.holding held) := h.ensuring _ hs

theorem forM {f : β → Scene W Unit} (hf : ∀ b, P (f b)) (bs : List β) : P (bs.forM f) := by
  induction bs with
  | nil => exact h.pure ()
  | cons b bs ih => exact h.bind (hf b) fun _ => ih

variable [Backend W H]

theorem operand (e : Evaluator H) (table : Array H) (k : Nat) :
    P (Demo.operand e table k : Scene W H) := h.act _

theorem binary (e : Evaluator H) (table : Array H) {label : String} (hl : Clear label) (a b : Nat)
    (op : H → H → Act W Int64) : P (Demo.binary e table label a b op) := by
  refine h.bind (h.operand e table a) fun x => h.holding x ?_
  refine h.bind (h.operand e table b) fun y => h.holding y ?_
  exact h.bind (h.act _) fun value => h.print (.result _ _) ⟨hl, .toString_int _⟩

theorem combined (e : Evaluator H) (table : Array H) {label : String} (hl : Clear label)
    (op : H → H → Act W H) : P (Demo.arithmetic.combined e table label op) := by
  refine h.bind (h.operand e table 9) fun x => h.holding x ?_
  refine h.bind (h.operand e table 5) fun y => h.holding y ?_
  refine h.bind (h.act _) fun combination => h.holding combination ?_
  exact h.bind (h.act _) fun value => h.print (.result _ _) ⟨hl, .toString_int _⟩

theorem arithmetic (e : Evaluator H) (table : Array H) :
    P (Demo.arithmetic e table : Scene W Unit) := by
  unfold Demo.arithmetic
  iterate 4 refine h.bind (h.binary e table (by decide) _ _ _) fun _ => ?_
  exact h.bind (h.combined e table (by decide) _) fun _ => h.combined e table (by decide) _

theorem folds (e : Evaluator H) (count : Nat) : P (Demo.folds e count : Scene W Unit) := by
  refine h.bind (h.act _) fun table => h.ensuring _ ?_
  refine h.bind (h.act _) fun _ => h.bind (h.forM ?_ _) fun _ => h.arithmetic e table
  intro entry
  have hl : Clear s!"(num#{entry.2} inc 0)" :=
    ((show Clear "(num#" by decide).append (.toString_nat _)).append (by decide)
  exact h.bind (h.act _) fun value => h.print (.result _ _) ⟨hl, .toString_int _⟩

theorem attempts (e : Evaluator H) (clock : Nat → Nat) (k repeatCount : Nat) (n : H)
    (remaining attempt : Nat) :
    P (Demo.attempts e clock k repeatCount n remaining attempt : Scene W Unit) := by
  induction remaining generalizing attempt with
  | zero => exact h.pure ()
  | succ remaining ih =>
    refine h.bind (h.act _) fun value => h.bind ?_ fun _ => ih (attempt + 1)
    refine h.bind (h.act _) fun live => h.bind (h.act _) fun _ => h.bind ?_ fun _ => ?_
    · exact h.print (.result _ _) ⟨Demo.clear_attemptLabel k repeatCount attempt, .toString_int _⟩
    · exact h.print (.timing _) trivial

theorem selfPower (e : Evaluator H) (clock : Nat → Nat) (k repeatCount : Nat) :
    P (Demo.selfPower e clock k repeatCount : Scene W Unit) :=
  h.bind (h.act _) fun n => h.holding n (h.attempts e clock k repeatCount n _ _)

theorem opening : P (Demo.opening : Scene W Unit) := by
  have hname : Clear (Backend.kind W).name := by
    cases Backend.kind W <;> decide
  exact h.print (.heading _)
    (((show Clear "Lambda Calc Demo (backend: " by decide).append hname).append (by decide))

theorem closing (e : Evaluator H) (options : DemoOptions) :
    P (Demo.closing e options : Scene W Unit) := by
  have hflush : P (Scene.print (Operation.flush).perform : Scene W Unit) := h.print _ trivial
  unfold Demo.closing
  split
  · refine h.bind (h.act _) fun stats => h.bind ?_ fun _ => hflush
    exact h.print (.stats stats) trivial
  · exact hflush

theorem run (e : Evaluator H) (options : DemoOptions) (clock : Nat → Nat) :
    P (Demo.run e options clock : Scene W Unit) := by
  refine h.bind h.opening fun _ => ?_
  cases options.workload with
  | fold => exact h.bind (h.folds e options.numeralCount) fun _ => h.closing e options
  | selfPower k =>
    exact h.bind (h.selfPower e clock k options.repeatCount) fun _ => h.closing e options

end Scene.Composes

end ChurchStore
