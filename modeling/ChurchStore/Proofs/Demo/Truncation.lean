import ChurchStore.Pool
import ChurchStore.Proofs.Demo.Composition
import ChurchStore.Proofs.Session.Run

/-!
# Truncated demos

A demo whose output does not fit into its sink stops at the line that does not fit, and up to
there does what it would have done with a sink without a limit. So the sink is left with a beginning
of the whole output, and the demo fails exactly if the output is longer than that.
-/

namespace ChurchStore

open Report

variable {W H α β : Type}

/-- Whenever the scene finishes with a sink without a limit, it has written some bytes; with a
limited sink it does the same if these fit, and otherwise stops because the sink is full. -/
def Truncates (limit : Nat) (scene : Scene W α) : Prop :=
  ∀ machine palette offered a stage,
    scene ⟨machine, .unlimited palette offered⟩ = .ok a stage →
      ∃ bytes, stage.reporter = .unlimited palette (offered ++ bytes) ∧
        (Sink.Fits limit offered bytes →
          scene ⟨machine, .capped limit palette offered⟩ =
            .ok a ⟨stage.machine, .capped limit palette (offered ++ bytes)⟩) ∧
        (¬ Sink.Fits limit offered bytes → ∃ machine',
          scene ⟨machine, .capped limit palette offered⟩ =
            .error (.write .full) ⟨machine', .capped limit palette (offered ++ bytes)⟩)

namespace Truncates

variable {limit : Nat} {scene : Scene W α} {rest : α → Scene W β}

/-- What writes nothing does not depend on the limit. -/
theorem of_silent (h : ∀ machine reporter a stage, scene ⟨machine, reporter⟩ = .ok a stage →
    ∀ other, stage.reporter = reporter ∧
      scene ⟨machine, other⟩ = .ok a ⟨stage.machine, other⟩) : Truncates limit scene := by
  intro machine palette offered a stage hs
  refine ⟨.empty, ?_, ?_, ?_⟩
  · rw [ByteArray.append_empty]
    exact (h _ _ _ _ hs (.unlimited palette offered)).1
  · intro _
    rw [ByteArray.append_empty]
    exact (h _ _ _ _ hs _).2
  · intro hfull
    exact absurd (Sink.fits_empty limit offered) hfull

theorem pure (a : α) : Truncates limit (Pure.pure a : Scene W α) := by
  apply of_silent
  intro machine reporter a' stage hs other
  cases hs
  exact ⟨rfl, rfl⟩

theorem act (op : Act W α) : Truncates limit (Scene.act op) := by
  apply of_silent
  intro machine reporter a stage hs other
  simp only [Scene.act] at hs ⊢
  cases hop : op machine with
  | ok b machine' =>
    rw [hop] at hs
    cases hs
    exact ⟨rfl, rfl⟩
  | error f machine' =>
    rw [hop] at hs
    cases hs

theorem lines (ls : List Line) : Truncates limit (Scene.print (Print.lines ls) : Scene W Unit) := by
  intro machine palette offered a stage hs
  simp only [Scene.print, Print.lines_unlimited] at hs
  cases hs
  refine ⟨Line.bytes palette ls, rfl, ?_, ?_⟩
  · intro hfits
    simp only [Scene.print, Print.lines_capped, if_pos hfits]
  · intro hfull
    exact ⟨machine, by simp only [Scene.print, Print.lines_capped, if_neg hfull]⟩

/-- Every operation of a reporter writes lines. -/
theorem print (op : Operation) : Truncates limit (Scene.print op.perform : Scene W Unit) := by
  rw [op.perform_eq]
  exact lines op.lines

theorem bind (hx : Truncates limit scene) (hk : ∀ a, Truncates limit (rest a)) :
    Truncates limit (scene >>= rest) := by
  intro machine palette offered b stage hs
  show ∃ bytes, _ ∧ (_ → EStateM.bind scene rest _ = _) ∧ (_ → ∃ _, EStateM.bind scene rest _ = _)
  replace hs : EStateM.bind scene rest _ = _ := hs
  simp only [EStateM.bind] at hs ⊢
  cases hscene : scene ⟨machine, .unlimited palette offered⟩ with
  | error f s =>
    rw [hscene] at hs
    cases hs
  | ok a middle =>
    rw [hscene] at hs
    obtain ⟨x, hmiddle, hfits, hfull⟩ := hx _ _ _ _ _ hscene
    obtain ⟨machine₁, reporter₁⟩ := middle
    subst hmiddle
    obtain ⟨y, hstage, hfits', hfull'⟩ := hk a _ _ _ _ _ hs
    refine ⟨x ++ y, by rw [hstage, ByteArray.append_assoc], ?_, ?_⟩
    · intro h
      by_cases hfx : Sink.Fits limit offered x
      · rw [hfits hfx]
        have hfy : Sink.Fits limit (offered ++ x) y := by
          by_contra hfy
          exact Sink.not_fits_append_of_right hfy h
        rw [← ByteArray.append_assoc]
        exact hfits' hfy
      · exact absurd h (Sink.not_fits_append hfx)
    · intro h
      by_cases hfx : Sink.Fits limit offered x
      · rw [hfits hfx, ← ByteArray.append_assoc]
        exact hfull' fun hfy => h (hfx.append hfy)
      · -- the second scene is not played any more
        obtain ⟨machine', he⟩ := hfull hfx
        refine ⟨machine', ?_⟩
        rw [he]
        simp only [Reporter.capped, Sink.capped_append hfx]

theorem ensuring (finish : W → W) (hx : Truncates limit scene) :
    Truncates limit (scene.ensuring finish) := by
  intro machine palette offered a stage hs
  simp only [Scene.ensuring] at hs ⊢
  cases hscene : scene ⟨machine, .unlimited palette offered⟩ with
  | error f s =>
    rw [hscene] at hs
    cases hs
  | ok b middle =>
    rw [hscene] at hs
    cases hs
    obtain ⟨bytes, hmiddle, hfits, hfull⟩ := hx _ _ _ _ _ hscene
    refine ⟨bytes, hmiddle, ?_, ?_⟩
    · intro h
      rw [hfits h]
    · intro h
      obtain ⟨machine', he⟩ := hfull h
      exact ⟨_, by rw [he]⟩

theorem composes : Scene.Composes (W := W) (Truncates limit) where
  pure := pure
  act := act
  print := fun op _ => print op
  bind := bind
  ensuring := fun finish _ h => h.ensuring finish

end Truncates

/-! ## The law -/

/-- A sink that takes `limit` bytes is left with the first ones of what a sink without a limit would
hold: after operations of a reporter in turn, of which those fail that do not fit any more, and
after a demo, which fails if its output does not fit. -/
theorem failing_writers_truncate (limit : Nat) (palette : Palette) :
    (∀ ops : List Operation,
      let whole := (performed ops (.fresh palette none)).sink.written
      (performed ops (.fresh palette (some limit))).sink.written =
          whole.extract 0 (min limit whole.size) ∧
        ∀ op : Operation, op.Fails (performed ops (.fresh palette (some limit))) ↔
          op ≠ .flush ∧ limit < (performed (ops ++ [op]) (.fresh palette none)).sink.written.size) ∧
    ∀ {W H : Type} [Backend W H] (e : Evaluator H) (options : DemoOptions) (clock : Nat → Nat)
      (machine : Machine W) (stage : Stage W),
      Demo.run e options clock ⟨machine, .fresh palette none⟩ = .ok () stage →
      let whole := stage.reporter.sink.written
      ∃ stage', stage'.reporter.sink.written = whole.extract 0 (min limit whole.size) ∧
        Demo.run e options clock ⟨machine, .fresh palette (some limit)⟩ =
          if limit < whole.size then .error (.write .full) stage' else .ok () stage' := by
  refine ⟨fun ops => ⟨written_performed ops limit palette, fun op => ?_⟩, ?_⟩
  · exact fails_performed_iff ops op limit palette
  intro W H _ e options clock machine stage hrun
  rw [Reporter.fresh_none] at hrun
  obtain ⟨whole, hstage, hfits, hfull⟩ := Truncates.composes.run e options clock _ _ _ _ _ hrun
  rw [ByteArray.empty_append] at hstage hfits hfull
  have hwritten : stage.reporter.sink.written = whole := by
    rw [hstage]
    rfl
  have hcut : (Reporter.capped limit palette whole).sink.written =
      whole.extract 0 (min limit whole.size) := (Sink.extract_min_size _ _).symm
  have hle : Sink.Fits limit .empty whole ↔ whole.size ≤ limit := by
    simp only [Sink.Fits, ByteArray.empty_append]
    omega
  show ∃ stage', _ ∧ _
  rw [Reporter.fresh_some, hwritten]
  by_cases h : limit < whole.size
  · obtain ⟨machine', hfails⟩ := hfull (by rw [hle]; omega)
    exact ⟨⟨machine', .capped limit palette whole⟩, hcut, hfails.trans (if_pos h).symm⟩
  · have hfinishes := hfits (by rw [hle]; omega)
    exact ⟨⟨stage.machine, .capped limit palette whole⟩, hcut, hfinishes.trans (if_neg h).symm⟩

/-- The limit may be within a control sequence of the second attempt. -/
theorem failing_writers_truncate_cutting :
    let options : DemoOptions := { workload := .selfPower 2, repeatCount := 2, stats := true }
    let machine := (Session.opened Pools .off {}).machine
    ∃ e isOpen stage, (Session.opened Pools .off {}).seats[0]? = some ⟨e, isOpen⟩ ∧
      Demo.run e options (fun _ => 1500) ⟨machine, .fresh .colored none⟩ = .ok () stage ∧
      ∃ stage', stage'.reporter.sink.written = stage.reporter.sink.written.extract 0 174 ∧
        Demo.run e options (fun _ => 1500) ⟨machine, .fresh .colored (some 174)⟩ =
          .error (.write .full) stage' := by
  intro options machine
  have hsize : ((Session.opened Pools .off {}).seats[0]?.bind fun seat =>
      match Demo.run seat.evaluator options (fun _ => 1500) ⟨machine, .fresh .colored none⟩ with
      | .ok () stage => some stage.reporter.sink.written.size
      | .error _ _ => none) = some 512 := by
    decide +kernel
  obtain ⟨⟨e, isOpen⟩, hseat, hrun⟩ := Option.bind_eq_some_iff.1 hsize
  split at hrun
  · rename_i stage hdemo
    have h :=
      (failing_writers_truncate 174 .colored).2 e options (fun _ => 1500) machine stage hdemo
    simp only [Option.some_inj.1 hrun] at h
    exact ⟨e, isOpen, stage, hseat, hdemo, h⟩
  · cases hrun

end ChurchStore
