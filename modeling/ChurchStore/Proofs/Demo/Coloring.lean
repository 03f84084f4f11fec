import ChurchStore.Proofs.Demo.Composition

/-!
# Colours in demos

How styles are shown changes nothing but what is written: a demo on the same machine ends in the
same way and writes the same lines. As with the operations of a reporter, the report without its
control sequences is the report without styles.
-/

namespace ChurchStore

open Report

variable {W H α β : Type}

/-- An end of a scene: the outcome on the machine together with a reporter. -/
def Scene.ended (outcome : EStateM.Result Halt (Machine W) α) (r : Reporter) :
    EStateM.Result Halt (Stage W) α :=
  match outcome with
  | .ok a machine => .ok a ⟨machine, r⟩
  | .error f machine => .error f ⟨machine, r⟩

/-- With a sink without a limit the scene ends in the same way on every palette and has written the
same lines, which begin no control sequence of their own. -/
def Decorates (scene : Scene W α) : Prop :=
  ∀ machine, ∃ outcome ls, (∀ l ∈ ls, Line.Clear l) ∧ ∀ palette taken,
    scene ⟨machine, .unlimited palette taken⟩ =
      Scene.ended outcome (.unlimited palette (taken ++ Line.bytes palette ls))

namespace Decorates

variable {scene : Scene W α} {rest : α → Scene W β}

/-- What writes nothing shows no style. -/
theorem of_silent (h : ∀ machine, ∃ outcome, ∀ r, scene ⟨machine, r⟩ = Scene.ended outcome r) :
    Decorates scene := by
  intro machine
  obtain ⟨outcome, hscene⟩ := h machine
  refine ⟨outcome, [], by simp, fun palette taken => ?_⟩
  rw [hscene, Line.bytes, List.foldr_nil, ByteArray.append_empty]

theorem pure (a : α) : Decorates (Pure.pure a : Scene W α) :=
  of_silent fun machine => ⟨.ok a machine, fun _ => rfl⟩

theorem act (op : Act W α) : Decorates (Scene.act op) := by
  refine of_silent fun machine => ?_
  cases hop : op machine with
  | ok a machine' => exact ⟨.ok a machine', fun r => by simp only [Scene.act, hop, Scene.ended]⟩
  | error f machine' =>
    exact ⟨.error (.fault f) machine', fun r => by simp only [Scene.act, hop, Scene.ended]⟩

theorem print (op : Operation) (h : op.Clear) :
    Decorates (Scene.print op.perform : Scene W Unit) := by
  intro machine
  refine ⟨.ok () machine, op.lines, h.lines, fun palette taken => ?_⟩
  simp only [Scene.print, op.perform_eq, Print.lines_unlimited, Scene.ended]

theorem bind (hx : Decorates scene) (hk : ∀ a, Decorates (rest a)) :
    Decorates (scene >>= rest) := by
  intro machine
  show ∃ outcome ls, _ ∧ ∀ palette taken, EStateM.bind scene rest _ = _
  obtain ⟨outcome, ls, hls, hscene⟩ := hx machine
  cases outcome with
  | error f machine' =>
    refine ⟨.error f machine', ls, hls, fun palette taken => ?_⟩
    simp only [EStateM.bind, hscene, Scene.ended]
  | ok a machine' =>
    obtain ⟨outcome, ls', hls', hrest⟩ := hk a machine'
    refine ⟨outcome, ls ++ ls', List.forall_mem_append.2 ⟨hls, hls'⟩, fun palette taken => ?_⟩
    simp only [EStateM.bind, hscene, Scene.ended]
    rw [hrest, Line.bytes_append, ByteArray.append_assoc]
    rfl

theorem ensuring (finish : W → W) (hx : Decorates scene) : Decorates (scene.ensuring finish) := by
  intro machine
  obtain ⟨outcome, ls, hls, hscene⟩ := hx machine
  cases outcome with
  | ok a machine' =>
    refine ⟨.ok a { machine' with store := finish machine'.store }, ls, hls,
      fun palette taken => ?_⟩
    simp only [Scene.ensuring, hscene, Scene.ended]
  | error f machine' =>
    refine ⟨.error f { machine' with store := finish machine'.store }, ls, hls,
      fun palette taken => ?_⟩
    simp only [Scene.ensuring, hscene, Scene.ended]

theorem composes : Scene.Composes (W := W) Decorates where
  pure := pure
  act := act
  print := print
  bind := bind
  ensuring := fun finish _ h => h.ensuring finish

end Decorates

/-- Deleting the control sequences of a report leaves the report without styles, in which there are
none: after any operations of a reporter whose texts begin none of their own, and after any demo,
which ends in the same way whatever the styles look like. -/
theorem colors_only_decorate (palette : Palette) :
    (∀ ops : List Operation, (∀ op ∈ ops, op.Clear) → ∃ text : String,
      (performed ops (.fresh palette none)).sink.written = text.toUTF8 ∧
        (performed ops (.fresh .plain none)).sink.written = (uncolored text).toUTF8 ∧
        Clear (uncolored text)) ∧
    ∀ {W H : Type} [Backend W H] (e : Evaluator H) (options : DemoOptions) (clock : Nat → Nat)
      (machine : Machine W), ∃ outcome text,
      Demo.run e options clock ⟨machine, .fresh palette none⟩ =
          Scene.ended outcome (.unlimited palette text.toUTF8) ∧
        Demo.run e options clock ⟨machine, .fresh .plain none⟩ =
          Scene.ended outcome (.unlimited .plain (uncolored text).toUTF8) ∧
        Clear (uncolored text) := by
  refine ⟨fun ops h => performed_colored h palette, ?_⟩
  intro W H _ e options clock machine
  obtain ⟨outcome, ls, hls, hrun⟩ := Decorates.composes.run e options clock machine
  obtain ⟨text, hcolored, hplain, hclear⟩ := Line.exists_text palette hls
  refine ⟨outcome, text, ?_, ?_, hclear⟩
  · rw [Reporter.fresh_none, hrun, ByteArray.empty_append, hcolored]
  · rw [Reporter.fresh_none, hrun, ByteArray.empty_append, hplain]

/-- Brackets and the letter `m` in a label or a value begin and end nothing. -/
theorem colors_only_decorate_brackets :
    let ops : List Operation := [.result "[38;5;14m" "[0m", .timing 1500]
    (∀ op ∈ ops, op.Clear) ∧ ∃ text : String,
      (performed ops (.fresh .colored none)).sink.written = text.toUTF8 ∧
        uncolored text = "[38;5;14m = [0m\nnano_time = 0 sec 000001 500 msec\n" := by
  intro ops
  have hops : ∀ op ∈ ops, op.Clear := by decide
  obtain ⟨text, hcolored, hplain, -⟩ := (colors_only_decorate .colored).1 ops hops
  have hwritten : (performed ops (.fresh .plain none)).sink.written =
      "[38;5;14m = [0m\nnano_time = 0 sec 000001 500 msec\n".toUTF8 := by
    decide +kernel
  exact ⟨hops, text, hcolored, String.toByteArray_inj.1 (hplain.symm.trans hwritten)⟩

end ChurchStore
