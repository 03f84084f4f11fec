import ChurchStore.Proofs.Arenas.Issuance
import ChurchStore.Proofs.Normalization

/-!
# Evaluation on several arenas

Whatever an evaluator does to arenas is made of allocations and of looks at issued handles, so what
is known of the handles of a chronicle is known as well after applications, wherever the handles
that were applied come from.

Every issued handle stands for a tree, which is built from those of the captures that it was issued
for, and a grove does with the trees what the arenas do with the handles. An arena may be stopped
by a violation where the grove goes on: by a handle of another arena or of an earlier epoch, or by a
closure that does not fit. In everything else the two agree, so applications end on arenas since
they end on groves.
-/

namespace ChurchStore

namespace Arenas

/-- A move that resets an arena. -/
def Move.isReset : Move → Bool
  | .reset _ => true
  | _ => false

namespace Chronicle

variable {α β γ δ : Type} {s : Chronicle} {site : Site} {h : ArenaRef} {c : Closure ArenaRef}

theorem after_append (s : Chronicle) (moves moves' : List Move) :
    s.after (moves ++ moves') = (s.after moves).after moves' :=
  List.foldl_append

theorem Issued.goOn {op : Act Arenas α} {answered : α → Chronicle → Chronicle} (hh : s.Issued h)
    (hanswered : ∀ a {s : Chronicle}, s.Issued h → (answered a s).Issued h) :
    (s.goOn op answered).Issued h := by
  rw [Chronicle.goOn]
  split
  · exact hanswered _ hh
  · exact hh

/-- What was issued stays so. -/
theorem Issued.play (hh : s.Issued h) (move : Move) : (s.play move).Issued h := by
  cases move with
  | new limits =>
    refine hh.goOn fun e s hh => ?_
    exact Issued.issueBuiltins (show Issued { s with evaluators := _ } h from hh) ..
  | alloc site c =>
    rw [Chronicle.play]
    split
    · exact hh
    · exact hh.goOn fun _ _ hh => hh.issue ..
  | resolve site number =>
    rw [Chronicle.play]
    split
    · exact hh
    · exact hh.goOn fun _ _ hh => hh
  | reset number =>
    rw [Chronicle.play]
    split
    · exact hh
    · refine Issued.goOn (show Issued { s with resets := _ } h from hh) fun e s hh => ?_
      exact Issued.issueBuiltins (show Issued { s with evaluators := _ } h from hh) ..

theorem Issued.after (hh : s.Issued h) (moves : List Move) : (s.after moves).Issued h := by
  induction moves generalizing s with
  | nil => exact hh
  | cons move moves ih => exact ih (hh.play move)

theorem exists_handle?_eq (hh : s.Issued h) : ∃ number, s.handle? number = some h := by
  obtain ⟨i, hi, rfl⟩ := hh
  obtain ⟨number, hnumber⟩ := List.mem_iff_getElem?.1 (List.mem_reverse.2 hi)
  exact ⟨number, by rw [handle?, hnumber]; rfl⟩

theorem exists_closure?_eq (hc : ∀ x ∈ c.captures, s.Issued x) : ∃ c', s.closure? c' = some c := by
  have hnumber (x : ArenaRef) : ∃ number, x ∈ c.captures → s.handle? number = some x := by
    by_cases hx : x ∈ c.captures
    · exact (exists_handle?_eq (hc x hx)).imp fun _ h _ => h
    · exact ⟨0, fun h => absurd h hx⟩
  choose number hnumber using hnumber
  refine ⟨c.map number, ?_⟩
  rw [closure?, if_pos, Closure.map_map, Closure.map_eq_self]
  · intro x hx
    rw [Function.comp, hnumber x hx]
    rfl
  · intro n hn
    rw [Closure.captures_map] at hn
    obtain ⟨x, hx, rfl⟩ := List.mem_map.1 hn
    rw [hnumber x hx]
    rfl

/-! ### Trees for handles -/

/-- The tree of each handle is built from those of the captures that it was issued for. -/
def Labels (issues : List Issue) (tree : ArenaRef → Tree) : Prop :=
  ∀ i ∈ issues, (tree i.handle).closure = i.closure.map tree

/-- A handle that is issued for captured handles can be given any number. -/
theorem Labels.cons {issues : List Issue} {tree : ArenaRef → Tree} (ht : Labels issues tree)
    (hg : Grounded issues) {i : Issue} (hfresh : ∀ j ∈ issues, j.handle ≠ i.handle)
    (hi : ∀ x ∈ i.closure.captures, ∃ j ∈ issues, j.handle = x) (number : Nat) :
    Labels (i :: issues)
      (Function.update tree i.handle (.node number (i.closure.map tree))) := by
  have hold : ∀ j ∈ issues, Function.update tree i.handle (.node number (i.closure.map tree))
      j.handle = tree j.handle := fun j hj => Function.update_of_ne (hfresh j hj) ..
  have hmap {c : Closure ArenaRef} (hc : ∀ x ∈ c.captures, ∃ j ∈ issues, j.handle = x) :
      c.map (Function.update tree i.handle (.node number (i.closure.map tree))) = c.map tree := by
    refine Closure.map_congr fun x hx => ?_
    obtain ⟨j, hj, rfl⟩ := hc x hx
    exact hold j hj
  intro j hj
  rcases List.mem_cons.1 hj with rfl | hj
  · rw [Function.update_self, hmap hi]
    rfl
  · rw [hold j hj, ht j hj, hmap fun x hx => ?_]
    obtain ⟨k, hk, hissue, -⟩ := hg.of_mem hj x hx
    exact ⟨k, hk, hissue⟩

/-- Captures are issued before their captors, so there are trees for all handles. -/
theorem exists_labels {issues : List Issue} (hg : Grounded issues)
    (hnodup : (issues.map Issue.handle).Nodup) : ∃ tree, Labels issues tree := by
  induction issues with
  | nil => exact ⟨default, fun i hi => nomatch hi⟩
  | cons i issues ih =>
    obtain ⟨hfresh, hnodup⟩ := List.nodup_cons.1 hnodup
    obtain ⟨tree, ht⟩ := ih hg.2 hnodup
    refine ⟨_, ht.cons hg.2 (fun j hj heq => hfresh ?_) (fun x hx => ?_) 0⟩
    · rw [← heq]
      exact List.mem_map_of_mem hj
    · obtain ⟨j, hj, hissue, -⟩ := hg.1 x hx
      exact ⟨j, hj, hissue⟩

end Chronicle

/-- A chronicle with fewer resets of each arena than there are epochs, and trees for its handles. -/
structure Labelled where
  chronicle : Chronicle
  tree : ArenaRef → Tree
  sound : chronicle.Sound
  resets_lt (site : Site) : chronicle.resets site < UInt32.size
  labels : Chronicle.Labels chronicle.issues tree

/-- Trees can be given to the handles of every chronicle with few resets. -/
theorem Chronicle.Sound.exists_labelled {s : Chronicle} (hs : s.Sound)
    (hlt : ∀ site, s.resets site < UInt32.size) : ∃ l : Labelled, l.chronicle = s := by
  obtain ⟨tree, htree⟩ := exists_labels hs.grounded (hs.reliable hlt).nodup
  exact ⟨⟨s, tree, hs, hlt, htree⟩, rfl⟩

namespace Labelled

variable {α β γ δ : Type} {l l' l'' : Labelled} {site : Site} {h : ArenaRef} {t : Tree}
  {c : Closure ArenaRef}

/-- Allocations and looks have led from one chronicle to another, in which the handles that were
issued before have kept their trees. -/
structure Reaches (l l' : Labelled) : Prop where
  exists_moves : ∃ moves, l'.chronicle = l.chronicle.after moves
  resets_eq : l'.chronicle.resets = l.chronicle.resets
  evaluators_eq : l'.chronicle.evaluators = l.chronicle.evaluators
  tree_eq {h : ArenaRef} : l.chronicle.Issued h → l'.tree h = l.tree h

theorem Reaches.rfl : l.Reaches l := ⟨⟨[], Eq.refl _⟩, Eq.refl _, Eq.refl _, fun _ => Eq.refl _⟩

theorem Reaches.issued (hl : l.Reaches l') (hh : l.chronicle.Issued h) : l'.chronicle.Issued h := by
  obtain ⟨moves, hmoves⟩ := hl.exists_moves
  rw [hmoves]
  exact hh.after moves

theorem Reaches.trans (hl : l.Reaches l') (hl' : l'.Reaches l'') : l.Reaches l'' where
  exists_moves := by
    obtain ⟨moves, hmoves⟩ := hl.exists_moves
    obtain ⟨moves', hmoves'⟩ := hl'.exists_moves
    exact ⟨moves ++ moves', by rw [hmoves', hmoves, Chronicle.after_append]⟩
  resets_eq := hl'.resets_eq.trans hl.resets_eq
  evaluators_eq := hl'.evaluators_eq.trans hl.evaluators_eq
  tree_eq hh := (hl'.tree_eq (hl.issued hh)).trans (hl.tree_eq hh)

/-- The handle was issued, and stands for the tree. -/
def Stands (l : Labelled) (h : ArenaRef) (t : Tree) : Prop := l.chronicle.Issued h ∧ l.tree h = t

theorem Stands.of_reaches (hh : l.Stands h t) (hl : l.Reaches l') : l'.Stands h t :=
  ⟨hl.issued hh.1, (hl.tree_eq hh.1).trans hh.2⟩

/-- A grove that makes closures of any size and was never reset. -/
def Boundless (g : Grove 16) : Prop := g.resets = [] ∧ g.capacity = none

/-- The operation `op` on arenas could as well be made of moves, and beside a grove on which
`shadow` is carried out it does the same as far as `known` tells, unless it is stopped by a
violation. -/
def Performs (l : Labelled) (op : Act Arenas α) (shadow : Act (Grove 16) β)
    (known : Labelled → α → β → Prop) : Prop :=
  ∀ n : Machine (Grove 16), Boundless n.store → ∃ l', l.Reaches l' ∧
    ((∃ a b n', op l.chronicle.machine = .ok a l'.chronicle.machine ∧ shadow n = .ok b n' ∧
        Boundless n'.store ∧ known l' a b) ∨
      ∃ f j, op l.chronicle.machine = .error f ⟨l'.chronicle.machine.store, j⟩ ∧
        ((∃ v, f = .violation v) ∨ ∃ n', shadow n = .error f n'))

namespace Performs

theorem pure {known : Labelled → α → β → Prop} {a : α} {b : β} (h : known l a b) :
    l.Performs (Pure.pure a) (Pure.pure b) known :=
  fun n hn => ⟨l, .rfl, .inl ⟨a, b, n, rfl, rfl, hn, h⟩⟩

/-- A violation stops the arenas, whatever the grove does. -/
theorem stop {known : Labelled → α → β → Prop} {v : Violation} {op : Act Arenas α}
    {shadow : Act (Grove 16) β}
    (h : ∃ j, op l.chronicle.machine = .error (.violation v) ⟨l.chronicle.machine.store, j⟩) :
    l.Performs op shadow known := by
  obtain ⟨j, hrun⟩ := h
  exact fun n _ => ⟨l, .rfl, .inr ⟨_, j, hrun, .inl ⟨v, rfl⟩⟩⟩

theorem violate {known : Labelled → α → β → Prop} (v : Violation) {shadow : Act (Grove 16) β} :
    l.Performs (Act.violate v) shadow known :=
  stop ⟨_, rfl⟩

theorem throw {known : Labelled → α → β → Prop} (f : Fault) :
    l.Performs (MonadExcept.throw f : Act Arenas α) (MonadExcept.throw f : Act (Grove 16) β)
      known :=
  fun n _ => ⟨l, .rfl, .inr ⟨f, _, rfl, .inr ⟨n, rfl⟩⟩⟩

theorem bind {op : Act Arenas α} {shadow : Act (Grove 16) β} {k : α → Act Arenas γ}
    {k' : β → Act (Grove 16) δ} {known : Labelled → α → β → Prop}
    {known' : Labelled → γ → δ → Prop} (hop : l.Performs op shadow known)
    (hk : ∀ {l'} a b, l.Reaches l' → known l' a b → l'.Performs (k a) (k' b) known') :
    l.Performs (op >>= k) (shadow >>= k') known' := by
  intro n hn
  simp only [Bind.bind, EStateM.bind]
  obtain ⟨l', hl, ⟨a, b, n', hrun, hshadow, hn', hknown⟩ | ⟨f, j, hrun, hf⟩⟩ := hop n hn
  · obtain ⟨l'', hl', hrest⟩ := hk a b hl hknown n' hn'
    simp only [hrun, hshadow]
    exact ⟨l'', hl.trans hl', hrest⟩
  · refine ⟨l', hl, .inr ⟨f, j, by simp only [hrun], hf.imp_right fun ⟨n', hshadow⟩ => ?_⟩⟩
    exact ⟨n', by simp only [hshadow]⟩

/-- To give a handle back does nothing on either side. -/
theorem holding {op : Act Arenas α} {shadow : Act (Grove 16) β} {known : Labelled → α → β → Prop}
    (hop : l.Performs op shadow known) (x : ArenaRef) (t : Tree) :
    l.Performs (Backend.holding x op) (Backend.holding t shadow) known := by
  rw [Grove.holding_eq]
  intro n hn
  obtain ⟨l', hl, ⟨a, b, n', hrun, hrest⟩ | ⟨f, j, hrun, hf⟩⟩ := hop n hn
  · refine ⟨l', hl, .inl ⟨a, b, n', ?_, hrest⟩⟩
    rw [Backend.holding, Act.ensuring, hrun]
    rfl
  · refine ⟨l', hl, .inr ⟨f, j, ?_, hf⟩⟩
    rw [Backend.holding, Act.ensuring, hrun]
    rfl

theorem clone (hh : l.Stands h t) : l.Performs (Backend.clone h) (Backend.clone t) Stands :=
  .pure hh

end Performs

/-- A handle that is issued for captured handles gets the next tree of the grove. -/
theorem exists_reaches_issue {m : Machine Arenas}
    (hrun : Arenas.alloc site c l.chronicle.machine = .ok h m)
    (hc : ∀ x ∈ c.captures, l.chronicle.Issued x) (number : Nat) :
    ∃ l', l.Reaches l' ∧ l'.chronicle.machine = m ∧ l'.Stands h (.node number (c.map l.tree)) := by
  obtain ⟨c', hc'⟩ := Chronicle.exists_closure?_eq hc
  have hplay : l.chronicle.play (.alloc site c') =
      { l.chronicle with machine := m }.issue site c h := by
    simp only [Chronicle.play, hc', Chronicle.goOn, hrun]
  have hsound := l.sound.issue (places_of_alloc hrun) hc
  have hfresh : ∀ j ∈ l.chronicle.issues, j.handle ≠ h := by
    have hnodup := (hsound.reliable l.resets_lt).nodup
    intro j hj heq
    have hmem : j.handle ∈ l.chronicle.issues.map Issue.handle := List.mem_map_of_mem hj
    rw [heq] at hmem
    exact (List.nodup_cons.1 hnodup).1 hmem
  have hlabels := l.labels.cons l.sound.grounded
    (i := ⟨site, l.chronicle.resets site, c, h⟩) hfresh hc number
  refine ⟨⟨_, _, hsound, l.resets_lt, hlabels⟩, ⟨⟨[.alloc site c'], hplay.symm⟩, rfl, rfl, ?_⟩, rfl,
    ⟨_, List.mem_cons_self .., rfl⟩, Function.update_self ..⟩
  rintro x ⟨j, hj, rfl⟩
  exact Function.update_of_ne (hfresh j hj) ..

/-- A closure over issued handles is stored by an evaluator, unless it is too large. -/
theorem performs_alloc {c : Closure (ArenaRef × Tree)} (hc : ∀ p ∈ c.captures, l.Stands p.1 p.2)
    {e : Evaluator ArenaRef} (he : e ∈ l.chronicle.evaluators) :
    l.Performs (Arenas.alloc e.site (c.map Prod.fst)) (Grove.alloc (c.map Prod.snd)) Stands := by
  have hcaptures : ∀ x ∈ (c.map Prod.fst).captures, l.chronicle.Issued x := by
    intro x hx
    rw [Closure.captures_map] at hx
    obtain ⟨p, hp, rfl⟩ := List.mem_map.1 hx
    exact (hc p hp).1
  have htree : (c.map Prod.fst).map l.tree = c.map Prod.snd := by
    rw [Closure.map_map]
    exact Closure.map_congr fun p hp => (hc p hp).2
  by_cases hcap : (l.chronicle.machine.store.arena e.site).capacity < (c.map Prod.fst).footprint
  · exact .stop (alloc_of_oversize hcap)
  intro n hn
  obtain ⟨m, hrun, -⟩ := alloc_of_fits (c := c.map Prod.fst) (m := l.chronicle.machine)
    (l.sound.evaluator_lt_size he) (Nat.not_lt.1 hcap) (.inr (l.sound.reservation_lt he))
  obtain ⟨l', hl, rfl, hstands⟩ := exists_reaches_issue hrun hcaptures n.store.made.length
  rw [htree] at hstands
  have hfits : n.store.capacity.filter (· < (c.map Prod.snd).footprint) = none := by rw [hn.2]; rfl
  exact ⟨l', hl, .inl ⟨_, _, _, hrun, Grove.alloc_of_fits hfits, hn, hstands⟩⟩

/-- An issued handle reads the closure of its tree, or is refused. -/
theorem performs_resolve (hh : l.Stands h t) (site : Site) :
    l.Performs (Arenas.resolve site h) (Grove.resolve t) fun l' c d =>
      ∃ x : Closure (ArenaRef × Tree), c = x.map Prod.fst ∧ d = x.map Prod.snd ∧
        ∀ p ∈ x.captures, l'.Stands p.1 p.2 := by
  obtain ⟨⟨i, hi, rfl⟩, rfl⟩ := hh
  have hreliable := l.sound.reliable l.resets_lt
  by_cases hsite : site = i.site
  · subst hsite
    by_cases hresets : i.resets = l.chronicle.resets i.site
    · intro n hn
      have hcurrent : n.store.epochOf (l.tree i.handle).number = n.store.resets.length := by
        rw [Grove.epochOf, hn.1]
        rfl
      refine ⟨l, .rfl, .inl ⟨_, _, n, hreliable.current hi hresets,
        Grove.resolve_of_current hcurrent, hn, i.closure.map fun x => (x, l.tree x), ?_, ?_, ?_⟩⟩
      · rw [Closure.map_map]
        exact (Closure.map_eq_self fun _ _ => rfl).symm
      · rw [l.labels i hi, Closure.map_map]
        rfl
      · intro p hp
        rw [Closure.captures_map] at hp
        obtain ⟨x, hx, rfl⟩ := List.mem_map.1 hp
        exact ⟨hreliable.captured hi x hx, rfl⟩
    · exact .stop (hreliable.stale hi hresets)
  · exact .stop (hreliable.foreign hi hsite)

/-! ### Applications -/

variable {e : Evaluator ArenaRef} {d : Evaluator Tree} {f x : ArenaRef} {u : Tree}

/-- Giving handles back does nothing to arenas. -/
theorem releaseAll_eq (hs : List ArenaRef) (w : Arenas) : Backend.releaseAll hs w = w := by
  induction hs with
  | nil => rfl
  | cons h hs ih => exact ih

theorem performs_toInt (hx : l.Stands x u) :
    l.Performs (e.toInt x) (d.toInt u) fun _ a b => a = b := by
  have hinspect : l.Performs (e.inspect x) (d.inspect u) fun _ c c' => c.asInt? = c'.asInt? := by
    refine (performs_resolve hx e.site).bind ?_
    rintro l' _ _ - ⟨c, rfl, rfl, -⟩ n hn
    refine ⟨l', .rfl, .inl ⟨c.map Prod.fst, c.map Prod.snd, n, ?_, ?_, hn, ?_⟩⟩
    · simp only [Bind.bind, EStateM.bind, Act.update, releaseAll_eq]
      rfl
    · cases c <;> rfl
    · cases c <;> rfl
  refine hinspect.bind fun c c' _ hc => ?_
  rw [hc]
  cases c'.asInt? with
  | some value => exact .pure rfl
  | none => exact .violate _

/-- The two evaluators have builtin functions that stand for each other. -/
structure Serves (l : Labelled) (e : Evaluator ArenaRef) (d : Evaluator Tree) : Prop where
  mem : e ∈ l.chronicle.evaluators
  builtin (b : Builtin) : l.Stands (e.singletons.get b) (d.singletons.get b)

theorem Serves.of_reaches (hS : l.Serves e d) (hl : l.Reaches l') : l'.Serves e d :=
  ⟨hl.evaluators_eq ▸ hS.mem, fun b => (hS.builtin b).of_reaches hl⟩

/-- Applying issued handles is made of moves, and answers with a handle that stands for the answer
of the grove. -/
theorem Serves.performs_applyWithin (hS : l.Serves e d) (hf : l.Stands f t) (hx : l.Stands x u)
    (depth : Nat) : l.Performs (e.applyWithin depth f x) (d.applyWithin depth t u) Stands := by
  induction depth generalizing l f x t u with
  | zero => exact .throw _
  | succ depth ih =>
    refine (performs_resolve hf e.site).bind ?_
    rintro l' _ _ hl ⟨c, rfl, rfl, hc⟩
    have hS := hS.of_reaches hl
    have hx := hx.of_reaches hl
    cases c with
    | zero => exact .clone (hS.builtin .zeroInner)
    | zeroInner => exact .clone hx
    | succ => exact performs_alloc (c := .succPartial (x, u)) (by simpa [Closure.captures]) hS.mem
    | succPartial p =>
      have hp := hc p (List.mem_singleton_self _)
      exact performs_alloc (c := .succInner p (x, u)) (by simpa [Closure.captures] using ⟨hp, hx⟩)
        hS.mem
    | succInner p q =>
      have hp := hc p (List.mem_cons_self ..)
      have hq := hc q (List.mem_cons_of_mem _ (List.mem_singleton_self _))
      refine Performs.holding (Performs.holding ?_ q.1 q.2) p.1 p.2
      refine (ih hS hp hq).bind fun pq tq hl hpq => Performs.holding ?_ pq tq
      have hS := hS.of_reaches hl
      refine (ih hS hpq (hx.of_reaches hl)).bind fun pqx tqx hl' hpqx =>
        Performs.holding ?_ pqx tqx
      exact ih (hS.of_reaches hl') ((hq.of_reaches hl).of_reaches hl') hpqx
    | intLiteral value => exact .violate _
    | inc =>
      refine (performs_toInt hx).bind ?_
      rintro l'' value _ hl' rfl
      split
      · exact .violate _
      · exact performs_alloc (c := .intLiteral _) (by simp [Closure.captures])
          (hS.of_reaches hl').mem

/-- The evaluator of a grove with the trees of the builtin functions. -/
theorem exists_serves (l : Labelled) (he : e ∈ l.chronicle.evaluators) :
    ∃ d : Evaluator Tree, l.Serves e d ∧ d.singletons.zeroInner.closure = .zeroInner := by
  have hb := l.sound.issued_builtin he
  let t : Singletons Tree := ⟨l.tree e.singletons.zero, l.tree e.singletons.zeroInner,
    l.tree e.singletons.succ, l.tree e.singletons.inc⟩
  refine ⟨⟨0, t, e.nesting⟩, ⟨he, fun b => ⟨(hb b).issued, ?_⟩⟩, ?_⟩
  · cases b <;> rfl
  · obtain ⟨i, hi, hclosure, hhandle⟩ := hb .zeroInner
    have hlabel := l.labels i hi
    rw [hhandle, hclosure] at hlabel
    exact hlabel

end Labelled

namespace Chronicle.Sound

variable {s : Chronicle} {e : Evaluator ArenaRef} {f x : ArenaRef}

/-- Handles stay reliable while an evaluator applies them: whatever it applies and however that
ends, what was issued before can be relied on as before, and so can the answer. -/
theorem reliable_after_apply (hs : s.Sound) (hlt : ∀ site, s.resets site < UInt32.size)
    (he : e ∈ s.evaluators) (hf : s.Issued f) (hx : s.Issued x) :
    ∃ s' : Chronicle, s'.Reliable ∧ s'.resets = s.resets ∧ (∀ h, s.Issued h → s'.Issued h) ∧
      ((∃ a, e.apply f x s.machine = .ok a s'.machine ∧ s'.Issued a) ∨
        ∃ f' j, e.apply f x s.machine = .error f' ⟨s'.machine.store, j⟩) := by
  obtain ⟨l, rfl⟩ := hs.exists_labelled hlt
  obtain ⟨d, hS, -⟩ := l.exists_serves he
  obtain ⟨l', hl, hrun⟩ :=
    hS.performs_applyWithin ⟨hf, rfl⟩ ⟨hx, rfl⟩ e.nesting ⟨{}, {}⟩ ⟨rfl, rfl⟩
  refine ⟨l'.chronicle, l'.sound.reliable l'.resets_lt, hl.resets_eq, fun h => hl.issued, ?_⟩
  obtain ⟨a, t, n', ha, -, -, hstands⟩ | ⟨f', j, hf', -⟩ := hrun
  · exact .inl ⟨a, ha, hstands.1⟩
  · exact .inr ⟨f', j, hf'⟩

/-- Applications of issued handles end, of whatever arenas and epochs they are. -/
theorem ends (hs : s.Sound) (hlt : ∀ site, s.resets site < UInt32.size) (he : e ∈ s.evaluators)
    (hf : s.Issued f) (hx : s.Issued x) : e.Ends f x s.machine := by
  obtain ⟨l, rfl⟩ := hs.exists_labelled hlt
  obtain ⟨d, hS, hd⟩ := l.exists_serves he
  obtain ⟨depth, r, hr, hsettled⟩ := Grove.ends_apply hd (l.tree f) (l.tree x) ⟨{}, {}⟩
  suffices hrun : Settled (e.applyWithin depth f x l.chronicle.machine) from
    Evaluator.ends_of_settled hrun
  obtain ⟨l', -, ⟨a, t, n', hrun, -⟩ | ⟨f', j, hrun, hf'⟩⟩ :=
    hS.performs_applyWithin ⟨hf, rfl⟩ ⟨hx, rfl⟩ depth ⟨{}, {}⟩ ⟨rfl, rfl⟩
  · rw [hrun]
    trivial
  · rw [hrun]
    rcases hf' with hf' | ⟨n', hshadow⟩
    · exact hf'
    · rw [← hr depth (Nat.le_refl _), hshadow] at hsettled
      exact hsettled

end Chronicle.Sound

end Arenas

end ChurchStore
