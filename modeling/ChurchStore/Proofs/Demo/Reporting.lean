import ChurchStore.Demo
import ChurchStore.Proofs.Report.Truncation
import ChurchStore.Proofs.Simulation

/-!
# Scenes that report

A scene of a demo on a store that is related to another one: it answers and writes certain lines, or
it writes certain lines and stops with a fault. Handles are accounted for as in the agreement of
operations, but what the second store does is left out: only that the stores stay related. The rules
below follow the ways in which scenes are put together.
-/

namespace ChurchStore.Simulation

open Report

variable {W V H G α β γ : Type} [Host W H] [Host V G]

/-- From related stores the operation answers. It uses up the handles that it owns and leaves those
that it was lent, and `result` says which handles the caller owns with the answer. -/
def Yields (S : Simulation W V) (owned lent : Multiset (H × G)) (op : Act W α)
    (result : α → Multiset (H × G) → Prop) : Prop :=
  ∀ m n, S.Holds (owned + lent) m n →
    ∃ a m' n' given, op m = .ok a m' ∧ result a given ∧ S.Holds (given + lent) m' n'

/-- The scene answers like this and writes the lines to a sink without a limit. -/
def Reports (S : Simulation W V) (owned lent : Multiset (H × G)) (scene : Scene W α)
    (lines : List Line) (result : α → Multiset (H × G) → Prop) : Prop :=
  ∀ m n palette taken, S.Holds (owned + lent) m n →
    ∃ a m' n' given, scene ⟨m, .unlimited palette taken⟩ =
        .ok a ⟨m', .unlimited palette (taken ++ Line.bytes palette lines)⟩ ∧
      result a given ∧ S.Holds (given + lent) m' n'

/-- The scene writes the lines and then stops with the fault. -/
def Breaks (S : Simulation W V) (owned lent : Multiset (H × G)) (scene : Scene W α)
    (lines : List Line) (f : Fault) : Prop :=
  ∀ m n palette taken, S.Holds (owned + lent) m n →
    ∃ m', scene ⟨m, .unlimited palette taken⟩ =
      .error (.fault f) ⟨m', .unlimited palette (taken ++ Line.bytes palette lines)⟩

variable {S : Simulation W V} {owned lent : Multiset (H × G)} {scene : Scene W α}
  {ls ls' : List Line} {result : α → Multiset (H × G) → Prop}

namespace Yields

theorem weaken {op : Act W α} {result' : α → Multiset (H × G) → Prop}
    (h : S.Yields owned lent op result) (hr : ∀ a given, result a given → result' a given) :
    S.Yields owned lent op result' := by
  intro m n hmn
  obtain ⟨a, m', n', given, hop, hra, hgiven⟩ := h m n hmn
  exact ⟨a, m', n', given, hop, hr a given hra, hgiven⟩

theorem clone_lent {p : H × G} (hp : p ∈ lent) :
    S.Yields 0 lent (Backend.clone p.1) fun a given => a = p.1 ∧ given = {p} := by
  intro m n hmn
  rw [Multiset.zero_add] at hmn
  refine ⟨p.1, { m with store := Backend.retain p.1 m.store },
    { n with store := Backend.retain p.2 n.store }, {p}, rfl, ⟨rfl, rfl⟩, ?_⟩
  rw [Multiset.singleton_add]
  exact S.retain hmn hp

/-- What does not change the store and answers hands nothing over. -/
theorem of_still {op : Act W α} (h : ∀ m, ∃ a j, op m = .ok a { m with journal := j }) :
    S.Yields owned lent op fun _ given => given = owned := by
  intro m n hmn
  obtain ⟨a, j, hop⟩ := h m
  exact ⟨a, _, n, owned, hop, rfl, hmn⟩

end Yields

namespace Reports

theorem act {op : Act W α} (h : S.Yields owned lent op result) :
    S.Reports owned lent (Scene.act op) [] result := by
  intro m n palette taken hmn
  obtain ⟨a, m', n', given, hop, hr, hgiven⟩ := h m n hmn
  refine ⟨a, m', n', given, ?_, hr, hgiven⟩
  simp only [Scene.act, hop, Line.bytes, List.foldr_nil, ByteArray.append_empty]

theorem print (op : Operation) :
    S.Reports owned lent (Scene.print op.perform) op.lines fun _ given => given = owned := by
  intro m n palette taken hmn
  refine ⟨(), m, n, owned, ?_, rfl, hmn⟩
  simp only [Scene.print, op.perform_eq, Print.lines_unlimited]

theorem pure {a : α} (h : result a owned) :
    S.Reports owned lent (Pure.pure a : Scene W α) [] result := by
  intro m n palette taken hmn
  refine ⟨a, m, n, owned, ?_, h, hmn⟩
  rw [Line.bytes, List.foldr_nil, ByteArray.append_empty]
  rfl

theorem bind {rest : α → Scene W β} {result' : β → Multiset (H × G) → Prop}
    (hx : S.Reports owned lent scene ls result)
    (hk : ∀ a given, result a given → S.Reports given lent (rest a) ls' result') :
    S.Reports owned lent (scene >>= rest) (ls ++ ls') result' := by
  intro m n palette taken hmn
  obtain ⟨a, m', n', given, hscene, hr, hgiven⟩ := hx m n palette taken hmn
  obtain ⟨b, m'', n'', given', hrest, hr', hgiven'⟩ := hk a given hr m' n' palette _ hgiven
  refine ⟨b, m'', n'', given', ?_, hr', hgiven'⟩
  rw [Line.bytes_append, ← ByteArray.append_assoc, ← hrest]
  simp only [Bind.bind, EStateM.bind, hscene]

/-- A scene that writes nothing comes first. -/
theorem silent_bind {rest : α → Scene W β} {result' : β → Multiset (H × G) → Prop}
    (hx : S.Reports owned lent scene [] result)
    (hk : ∀ a given, result a given → S.Reports given lent (rest a) ls result') :
    S.Reports owned lent (scene >>= rest) ls result' := bind hx hk

theorem act_bind {op : Act W α} {rest : α → Scene W β} {result' : β → Multiset (H × G) → Prop}
    (hop : S.Yields owned lent op result)
    (hk : ∀ a given, result a given → S.Reports given lent (rest a) ls result') :
    S.Reports owned lent (Scene.act op >>= rest) ls result' := silent_bind (act hop) hk

/-- A scene that writes one line comes first. -/
theorem line_bind {l : Line} {rest : α → Scene W β} {result' : β → Multiset (H × G) → Prop}
    (hx : S.Reports owned lent scene [l] result)
    (hk : ∀ a given, result a given → S.Reports given lent (rest a) ls result') :
    S.Reports owned lent (scene >>= rest) (l :: ls) result' := bind hx hk

/-- A handle that is given back at the end is lent meanwhile. -/
theorem holding (p : H × G) (h : S.Reports owned (p ::ₘ lent) scene ls result) :
    S.Reports (p ::ₘ owned) lent (Scene.holding p.1 scene) ls result := by
  intro m n palette taken hmn
  rw [Multiset.cons_add, ← Multiset.add_cons] at hmn
  obtain ⟨a, m', n', given, hscene, hr, hgiven⟩ := h m n palette taken hmn
  rw [Multiset.add_cons] at hgiven
  refine ⟨a, { m' with store := Backend.release p.1 m'.store },
    { n' with store := Backend.release p.2 n'.store }, given, ?_, hr, S.release hgiven⟩
  simp only [Scene.holding, Scene.ensuring, hscene]

theorem releasing (l : List (H × G)) (h : S.Reports owned (l + lent) scene ls result) :
    S.Reports (l + owned) lent
      (scene.ensuring fun w => Backend.releaseAll (l.map Prod.fst) w) ls result := by
  intro m n palette taken hmn
  rw [Multiset.add_comm (l : Multiset (H × G)), Multiset.add_assoc] at hmn
  obtain ⟨a, m', n', given, hscene, hr, hgiven⟩ := h m n palette taken hmn
  rw [← Multiset.add_assoc, Multiset.add_comm given, Multiset.add_assoc] at hgiven
  refine ⟨a, { m' with store := Backend.releaseAll (l.map Prod.fst) m'.store },
    { n' with store := Backend.releaseAll (l.map Prod.snd) n'.store }, given, ?_, hr,
    rel_releaseAll l hgiven⟩
  simp only [Scene.ensuring, hscene]

theorem forM {f : β → Scene W Unit} {lines : β → List Line} {bs : List β}
    (h : ∀ b ∈ bs, S.Reports 0 lent (f b) (lines b) fun _ given => given = 0) :
    S.Reports 0 lent (bs.forM f) (bs.flatMap lines) fun _ given => given = 0 := by
  induction bs with
  | nil => exact pure rfl
  | cons b bs ih =>
    rw [List.flatMap_cons]
    refine bind (h b (List.mem_cons_self ..)) ?_
    rintro _ _ rfl
    exact ih fun b' hb => h b' (List.mem_cons_of_mem b hb)

end Reports

namespace Breaks

variable {f : Fault}

theorem act {op : Act W α} (h : ∀ m n, S.Holds (owned + lent) m n → ∃ m', op m = .error f m') :
    S.Breaks owned lent (Scene.act op) [] f := by
  intro m n palette taken hmn
  obtain ⟨m', hop⟩ := h m n hmn
  refine ⟨m', ?_⟩
  simp only [Scene.act, hop, Line.bytes, List.foldr_nil, ByteArray.append_empty]

theorem bind {rest : α → Scene W β} (hx : S.Breaks owned lent scene ls f) :
    S.Breaks owned lent (scene >>= rest) ls f := by
  intro m n palette taken hmn
  obtain ⟨m', hscene⟩ := hx m n palette taken hmn
  refine ⟨m', ?_⟩
  simp only [Bind.bind, EStateM.bind, hscene]

theorem of_reports {rest : α → Scene W β} (hx : S.Reports owned lent scene ls result)
    (hk : ∀ a given, result a given → S.Breaks given lent (rest a) ls' f) :
    S.Breaks owned lent (scene >>= rest) (ls ++ ls') f := by
  intro m n palette taken hmn
  obtain ⟨a, m', n', given, hscene, hr, hgiven⟩ := hx m n palette taken hmn
  obtain ⟨m'', hrest⟩ := hk a given hr m' n' palette _ hgiven
  refine ⟨m'', ?_⟩
  rw [Line.bytes_append, ← ByteArray.append_assoc, ← hrest]
  simp only [Bind.bind, EStateM.bind, hscene]

theorem act_bind {op : Act W α} {rest : α → Scene W β} (hop : S.Yields owned lent op result)
    (hk : ∀ a given, result a given → S.Breaks given lent (rest a) ls f) :
    S.Breaks owned lent (Scene.act op >>= rest) ls f :=
  of_reports (.act hop) hk

theorem holding (p : H × G) (h : S.Breaks owned (p ::ₘ lent) scene ls f) :
    S.Breaks (p ::ₘ owned) lent (Scene.holding p.1 scene) ls f := by
  intro m n palette taken hmn
  rw [Multiset.cons_add, ← Multiset.add_cons] at hmn
  obtain ⟨m', hscene⟩ := h m n palette taken hmn
  exact ⟨{ m' with store := Backend.release p.1 m'.store },
    by simp only [Scene.holding, Scene.ensuring, hscene]⟩

end Breaks

end ChurchStore.Simulation
