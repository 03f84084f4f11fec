import ChurchStore.Demo
import ChurchStore.Proofs.Simulation.Evaluation

/-!
# Demos on related stores

A demo is not an operation, since it writes and may stop when it cannot. But it is made of
operations, and gives all its handles back wherever it stops. So whatever a demo does on the second
of two related stores, the first one can follow: there is a store that is related to what is left.
-/

namespace ChurchStore.Simulation

variable {W V H G α β : Type} [Host W H] [Host V G]

/-- From related stores the first one can follow the scene. The scene uses up the handles that it
owns and leaves those that it was lent, and `result` says which handles the caller owns with the
answer; if the scene stops then it leaves none. -/
def Tracks (S : Simulation W V) (owned lent : Multiset (H × G)) (scene : Scene V α)
    (result : α → Multiset (H × G) → Prop) : Prop :=
  ∀ w stage, S.Rel w stage.machine.store (owned + lent) →
    match scene stage with
    | .ok a stage' => ∃ w' given, result a given ∧ S.Rel w' stage'.machine.store (given + lent)
    | .error _ stage' => ∃ w', S.Rel w' stage'.machine.store lent

/-- The answer is a handle, which the caller owns. -/
def Given (b : G) (given : Multiset (H × G)) : Prop := ∃ a, given = {(a, b)}

/-- The answer is a table of handles, which the caller owns. -/
def Entries (table : Array G) (given : Multiset (H × G)) : Prop :=
  ∃ l : List (H × G), table.toList = l.map Prod.snd ∧ given = l

/-- Nothing is handed over with the answer. -/
def Nothing (_ : α) (given : Multiset (H × G)) : Prop := given = 0

variable {S : Simulation W V} {e : Evaluator H} {d : Evaluator G} {owned lent : Multiset (H × G)}
  {result : α → Multiset (H × G) → Prop} {p q : H × G}

namespace Tracks

theorem act {x : Act W β} {y : Act V α} {agreed : β → α → Multiset (H × G) → Prop}
    (h : S.Agree owned lent x y agreed) (hr : ∀ b a given, agreed b a given → result a given) :
    S.Tracks owned lent (Scene.act y) result := by
  intro w stage hrel
  obtain ⟨b, a, m, n, -, hy, given, hagreed, hmn⟩ | ⟨f, m, n, -, hy, -, hmn⟩ :=
    Coupled.cases h (s := ⟨w, {}⟩) (t := stage.machine) hrel
  · simp only [Scene.act, hy]
    exact ⟨m.store, given, hr b a given hagreed, hmn⟩
  · simp only [Scene.act, hy]
    exact ⟨m.store, hmn⟩

/-- An operation that only looks at the store or writes into the log. -/
theorem still {y : Act V α} (h : ∀ m, ∃ a j, y m = .ok a ⟨m.store, j⟩) :
    S.Tracks 0 lent (Scene.act y) Nothing := by
  intro w stage hrel
  obtain ⟨a, j, hy⟩ := h stage.machine
  simp only [Scene.act, hy]
  exact ⟨w, 0, rfl, hrel⟩

theorem print (op : Report.Print α) : S.Tracks 0 lent (Scene.print op) Nothing := by
  intro w stage hrel
  rw [Multiset.zero_add] at hrel
  simp only [Scene.print]
  cases op stage.reporter with
  | ok a reporter =>
    refine ⟨w, 0, rfl, ?_⟩
    rwa [Multiset.zero_add]
  | error f reporter => exact ⟨w, hrel⟩

theorem pure {a : α} (h : result a owned) : S.Tracks owned lent (Pure.pure a) result :=
  fun w _ hrel => ⟨w, owned, h, hrel⟩

theorem bind {scene : Scene V α} {rest : α → Scene V β} {result' : β → Multiset (H × G) → Prop}
    (hx : S.Tracks owned lent scene result)
    (hk : ∀ a given, result a given → S.Tracks given lent (rest a) result') :
    S.Tracks owned lent (scene >>= rest) result' := by
  intro w stage hrel
  have hscene := hx w stage hrel
  simp only [Bind.bind, EStateM.bind]
  cases hrun : scene stage with
  | ok a stage' =>
    rw [hrun] at hscene
    obtain ⟨w', given, hr, hgiven⟩ := hscene
    exact hk a given hr w' stage' hgiven
  | error halt stage' =>
    rw [hrun] at hscene
    exact hscene

/-- A scene that hands nothing over comes first. -/
theorem nothing_bind {scene : Scene V α} {rest : α → Scene V β}
    {result' : β → Multiset (H × G) → Prop} (hx : S.Tracks owned lent scene Nothing)
    (hk : ∀ a, S.Tracks 0 lent (rest a) result') : S.Tracks owned lent (scene >>= rest) result' :=
  bind hx fun a given hgiven => by
    cases hgiven
    exact hk a

/-- Handles that are given back at the end are lent meanwhile. -/
theorem releasing (l : List (H × G)) {scene : Scene V α}
    (h : S.Tracks 0 (l + lent) scene Nothing) :
    S.Tracks l lent (scene.ensuring (Backend.releaseAll (l.map Prod.snd))) Nothing := by
  intro w stage hrel
  rw [← Multiset.zero_add (_ + _)] at hrel
  have hscene := h w stage hrel
  simp only [Scene.ensuring]
  cases hrun : scene stage with
  | ok a stage' =>
    rw [hrun] at hscene
    obtain ⟨w', _, rfl, hrel'⟩ := hscene
    rw [Multiset.zero_add] at hrel'
    refine ⟨Backend.releaseAll (l.map Prod.fst) w', 0, rfl, ?_⟩
    rw [Multiset.zero_add]
    exact rel_releaseAll l hrel'
  | error halt stage' =>
    rw [hrun] at hscene
    obtain ⟨w', hrel'⟩ := hscene
    exact ⟨_, rel_releaseAll l hrel'⟩

theorem holding (p : H × G) {scene : Scene V α} (h : S.Tracks 0 (p ::ₘ lent) scene Nothing) :
    S.Tracks {p} lent (scene.holding p.2) Nothing := by
  have hsingle : (([p] : List (H × G)) : Multiset (H × G)) + lent = p ::ₘ lent := rfl
  rw [← hsingle] at h
  exact releasing [p] h

theorem forM {γ : Type} {f : γ → Scene V Unit} {cs : List γ}
    (h : ∀ c ∈ cs, S.Tracks 0 lent (f c) Nothing) : S.Tracks 0 lent (cs.forM f) Nothing := by
  induction cs with
  | nil => exact pure rfl
  | cons c cs ih =>
    exact nothing_bind (h c (List.mem_cons_self ..)) fun _ =>
      ih fun d hd => h d (List.mem_cons_of_mem c hd)

end Tracks

namespace Serves

section Table

variable {table : Array G} {l : List (H × G)} (hS : S.Serves e d lent)
  (hl : table.toList = l.map Prod.snd) (hsub : ∀ p ∈ l, p ∈ lent)

include hS hl hsub

theorem tracks_operand (k : Nat) : S.Tracks 0 lent (Demo.operand d table k) Given := by
  have htable : table[k]? = l[k]?.map Prod.snd := by
    rw [← Array.getElem?_toList, hl, List.getElem?_map]
  unfold Demo.operand
  rw [htable]
  cases hp : l[k]? with
  | none => exact .act (hS.agree_numeral k) fun a _ _ hgiven => ⟨a, hgiven⟩
  | some p =>
    exact .act (Agree.clone_lent (hsub p (List.mem_of_getElem? hp))) fun a _ _ hgiven =>
      ⟨a, hgiven⟩

theorem tracks_binary {op : G → G → Act V Int64} (label : String) (i j : Nat)
    (hop : ∀ {lent : Multiset (H × G)} {p q : H × G}, S.Serves e d lent → p ∈ lent → q ∈ lent →
      ∃ x : Act W Int64, S.Agree 0 lent x (op p.2 q.2) Shown) :
    S.Tracks 0 lent (Demo.binary d table label i j op) Nothing := by
  refine .bind (hS.tracks_operand hl hsub i) ?_
  rintro x _ ⟨a, rfl⟩
  refine .holding (a, x) (.bind ((hS.cons _).tracks_operand hl
    (fun p hp => Multiset.mem_cons_of_mem (hsub p hp)) j) ?_)
  rintro y _ ⟨b, rfl⟩
  obtain ⟨z, hz⟩ := hop (p := (a, x)) (q := (b, y)) ((hS.cons (a, x)).cons (b, y)) (by simp)
    (by simp)
  exact .holding (b, y) (.nothing_bind (.act hz fun _ _ _ hgiven => hgiven.2) fun _ => .print _)

theorem tracks_combined {op : G → G → Act V G} (label : String)
    (hop : ∀ {lent : Multiset (H × G)} {p q : H × G}, S.Serves e d lent → p ∈ lent → q ∈ lent →
      ∃ x : Act W H, S.Agree 0 lent x (op p.2 q.2) Handed) :
    S.Tracks 0 lent (Demo.arithmetic.combined d table label op) Nothing := by
  refine .bind (hS.tracks_operand hl hsub 9) ?_
  rintro x _ ⟨a, rfl⟩
  refine .holding (a, x) (.bind ((hS.cons _).tracks_operand hl
    (fun p hp => Multiset.mem_cons_of_mem (hsub p hp)) 5) ?_)
  rintro y _ ⟨b, rfl⟩
  obtain ⟨z, hz⟩ := hop (p := (a, x)) (q := (b, y)) ((hS.cons (a, x)).cons (b, y)) (by simp)
    (by simp)
  have hcombination : S.Tracks 0 ((b, y) ::ₘ (a, x) ::ₘ lent) (Scene.act (op x y)) Given :=
    .act hz fun c _ _ hgiven => ⟨c, hgiven⟩
  refine .holding (b, y) (.bind hcombination ?_)
  rintro z _ ⟨c, rfl⟩
  have hfold := (((hS.cons (a, x)).cons (b, y)).cons (c, z)).agree_fold (Multiset.mem_cons_self ..)
  exact .holding (c, z) (.nothing_bind (.act hfold fun _ _ _ hgiven => hgiven.2) fun _ => .print _)

theorem tracks_arithmetic : S.Tracks 0 lent (Demo.arithmetic d table) Nothing := by
  have hpow (label : String) (i j : Nat) :
      S.Tracks 0 lent (Demo.binary d table label i j d.pow) Nothing :=
    hS.tracks_binary hl hsub label i j fun hS hp hq => ⟨_, hS.agree_pow hp hq⟩
  unfold Demo.arithmetic
  iterate 4 refine .nothing_bind (hpow _ _ _) fun _ => ?_
  refine .nothing_bind (hS.tracks_combined hl hsub _ fun hS hp hq => ⟨_, hS.agree_plus hp hq⟩)
    fun _ => ?_
  exact hS.tracks_combined hl hsub _ fun hS hp hq => ⟨_, hS.agree_mul hp hq⟩

end Table

variable (hS : S.Serves e d lent)

include hS

theorem tracks_folds (count : Nat) : S.Tracks 0 lent (Demo.folds d count) Nothing := by
  have htable : S.Tracks 0 lent (Scene.act (d.numerals count)) Entries :=
    .act (hS.agree_numerals count) fun _ _ _ ⟨l, _, hl, hgiven⟩ => ⟨l, hl, hgiven⟩
  refine .bind htable ?_
  rintro table _ ⟨l, hl, rfl⟩
  have hS' := hS.mono (Multiset.subset_of_le (Multiset.le_add_left lent l))
  have hsub (p : H × G) (hp : p ∈ l) : p ∈ (l : Multiset (H × G)) + lent :=
    Multiset.mem_add.2 (.inl hp)
  simp only [hl]
  refine .releasing l (.nothing_bind (.still fun m => ⟨_, _, rfl⟩) fun _ =>
    .nothing_bind (.forM fun entry hentry => ?_) fun _ => hS'.tracks_arithmetic hl hsub)
  have hmem : entry.1 ∈ l.map Prod.snd := (List.mem_zipIdx hentry).2.2 ▸ List.getElem_mem _
  obtain ⟨p, hp, hfst⟩ := List.mem_map.1 hmem
  rw [← hfst]
  exact .nothing_bind (.act (hS'.agree_fold (hsub p hp)) fun _ _ _ hgiven => hgiven.2) fun _ =>
    .print _

theorem tracks_attempts (hp : p ∈ lent) (clock : Nat → Nat)
    (k repeatCount remaining attempt : Nat) :
    S.Tracks 0 lent (Demo.attempts d clock k repeatCount p.2 remaining attempt) Nothing := by
  induction remaining generalizing attempt with
  | zero => exact .pure rfl
  | succ remaining ih =>
    refine .nothing_bind (.act (hS.agree_pow hp hp) fun _ _ _ hgiven => hgiven.2) fun value =>
      .nothing_bind ?_ fun _ => ih (attempt + 1)
    unfold Demo.reportAttempt
    refine .nothing_bind (.still fun m => ⟨_, m.journal, rfl⟩) fun live => ?_
    refine .nothing_bind (.still fun m => ⟨_, _, rfl⟩) fun _ => ?_
    exact .nothing_bind (.print _) fun _ => .print _

theorem tracks_selfPower (clock : Nat → Nat) (k repeatCount : Nat) :
    S.Tracks 0 lent (Demo.selfPower d clock k repeatCount) Nothing := by
  have hnumeral : S.Tracks 0 lent (Scene.act (d.numeral k)) Given :=
    .act (hS.agree_numeral k) fun a _ _ hgiven => ⟨a, hgiven⟩
  refine .bind hnumeral ?_
  rintro n _ ⟨a, rfl⟩
  exact .holding (a, n) ((hS.cons (a, n)).tracks_attempts (Multiset.mem_cons_self ..) clock k
    repeatCount repeatCount 0)

/-- A demo leaves no handles behind, whether it ends or stops. -/
theorem tracks_demo (options : DemoOptions) (clock : Nat → Nat) :
    S.Tracks 0 lent (Demo.run d options clock) Nothing := by
  have hclosing : S.Tracks 0 lent (Demo.closing d options) Nothing := by
    unfold Demo.closing
    split
    · refine .nothing_bind (.still fun m => ⟨_, m.journal, rfl⟩) fun _ => ?_
      exact .nothing_bind (.print _) fun _ => .print _
    · exact .print _
  refine .nothing_bind (.print _) fun _ => ?_
  cases options.workload with
  | fold => exact .nothing_bind (hS.tracks_folds _) fun _ => hclosing
  | selfPower k => exact .nothing_bind (hS.tracks_selfPower clock k _) fun _ => hclosing

end Serves

end ChurchStore.Simulation
