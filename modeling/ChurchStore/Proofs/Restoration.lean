import ChurchStore.Proofs.Lockstep
import ChurchStore.Proofs.Session.Plain

/-!
# Operations that leave nothing behind

An operation that hands back no closure leaves the store as it was, whether it stops with a fault in
the middle of an application or answers. On a grove it changes no variable, so what is alive before
is alive afterwards and nothing else is; and the closure of an allocation that stays alive stays
behind its handle. Whatever was allocated on the way has been freed.
-/

namespace ChurchStore

open Session

theorem Session.isPlain_map_unplaced (a : Except Refusal Answer) :
    isPlain (a.map Answer.unplaced) = isPlain a := by
  cases a with
  | error r => rfl
  | ok a => cases a <;> rfl

theorem Grove.describable (b : Nat) : Describable (Grove b) := fun _ m => ⟨_, m, rfl⟩

/-- Closures with the same image are the same if their captures can be told apart. -/
theorem Closure.eq_of_map_eq {H K : Type} {f : H → K} {c d : Closure H}
    (hf : ∀ x ∈ c.captures, ∀ y ∈ d.captures, f x = f y → x = y) (h : c.map f = d.map f) :
    c = d := by
  cases c <;> cases d <;> simp_all [map, captures]

namespace Session

variable {W H : Type} {b : Nat} {v : View W H} {s s' : Session W H} {t t' : Session (Grove b) Tree}
  {tree tree' : H → Tree} {h : H}

/-- Two moments of a run at which the same trees are held on a grove, and between which no closure
has moved to another handle. -/
structure Resumes (v : View W H) (s s' : Session W H) (t t' : Session (Grove b) Tree)
    (tree tree' : H → Tree) : Prop where
  before : Depicts v s t tree
  after : Depicts v s' t' tree'
  seats_eq : s'.seats = s.seats
  trees_eq : t'.handles = t.handles
  getElem?_eq (name : Name) : t'.bindings[name]? = t.bindings[name]?
  unmoved {h k : H} : (v.look s'.machine.store h).isSome → (v.look s.machine.store k).isSome →
    (tree' h).number = (tree k).number → h = k ∧ tree' h = tree k
  reachable {h : H} : (v.look s.machine.store h).isSome →
    Reachable (v.look s.machine.store) s.handles h
  reachable' {h : H} : (v.look s'.machine.store h).isSome →
    Reachable (v.look s'.machine.store) s'.handles h

namespace Resumes

variable (hr : Resumes v s s' t t' tree tree')
include hr

/-- What is there afterwards was there before, and stands for the same tree. -/
theorem isSome_of_after (hh : (v.look s'.machine.store h).isSome) :
    (v.look s.machine.store h).isSome ∧ tree' h = tree h := by
  obtain ⟨r, hmem, hocc⟩ := hr.after.occurs_of_reachable (hr.reachable' hh)
  rw [hr.trees_eq, hr.before.handles_eq] at hmem
  obtain ⟨x, hx, rfl⟩ := List.mem_map.1 hmem
  obtain ⟨k, hk, htree⟩ := hr.before.labels.exists_of_occurs hocc (hr.before.isSome_look x hx) rfl
  obtain ⟨rfl, heq⟩ := hr.unmoved hh hk (congrArg Tree.number htree.symm)
  exact ⟨hk, heq⟩

/-- Every variable holds the handle that it held. -/
theorem bindings_eq (name : Name) : s'.bindings[name]? = s.bindings[name]? := by
  have hafter := hr.after.bindings_eq name
  rw [hr.getElem?_eq, hr.before.bindings_eq] at hafter
  have hmem {s : Session W H} {x : H} (hx : s.bindings[name]? = some x) : x ∈ s.handles :=
    List.mem_append_right _ (Multiset.mem_coe.1 (mem_values_of_getElem? hx))
  cases hx : s.bindings[name]? with
  | none =>
    rw [hx] at hafter
    exact Option.map_eq_none_iff.1 hafter.symm
  | some x =>
    rw [hx, Option.map_some] at hafter
    obtain ⟨y, hy, htree⟩ := Option.map_eq_some_iff.1 hafter.symm
    have hlook := hr.after.isSome_look y (hmem hy)
    obtain ⟨rfl, -⟩ := hr.unmoved hlook (hr.before.isSome_look x (hmem hx))
      (congrArg Tree.number htree)
    exact hy

theorem handles_eq : s'.handles = s.handles := by
  have hvalues : s'.bindings.values = s.bindings.values.map id :=
    values_of_getElem?_map fun name => by rw [hr.bindings_eq name, Option.map_id, id]
  rw [handles, handles, hr.seats_eq, hvalues, List.map_id]

/-- A closure that is there afterwards is what it was. -/
theorem look_eq_of_after (hh : (v.look s'.machine.store h).isSome) :
    v.look s'.machine.store h = v.look s.machine.store h := by
  obtain ⟨hbefore, htree⟩ := hr.isSome_of_after hh
  obtain ⟨c', hc'⟩ := Option.isSome_iff_exists.1 hh
  obtain ⟨c, hc⟩ := Option.isSome_iff_exists.1 hbefore
  have hcaptured (x : H) (hx : x ∈ c'.captures) :=
    hr.isSome_of_after (hr.after.isSome_look_captured hc' x hx)
  have hmap : c'.map tree = c.map tree := by
    rw [← hr.before.closure_eq hc, ← htree, hr.after.closure_eq hc']
    exact Closure.map_congr fun x hx => (hcaptured x hx).2.symm
  rw [hc', hc, Closure.eq_of_map_eq (fun x hx y hy heq => ?_) hmap]
  exact hr.before.number_injective (hcaptured x hx).1
    (hr.before.isSome_look_captured hc y hy) (congrArg Tree.number heq)

/-- What could be reached before is there afterwards. -/
theorem isSome_of_reachable (hh : Reachable (v.look s.machine.store) s.handles h) :
    (v.look s'.machine.store h).isSome := by
  induction hh with
  | root hmem => exact hr.after.isSome_look _ (hr.handles_eq ▸ hmem)
  | capture _ hc hx ih =>
    rw [← hr.look_eq_of_after ih] at hc
    exact hr.after.isSome_look_captured hc _ hx

/-- The same closures are there, with the same captures. -/
theorem look_eq (h : H) : v.look s'.machine.store h = v.look s.machine.store h := by
  cases hh : v.look s'.machine.store h with
  | some c => rw [← hh, hr.look_eq_of_after (by rw [hh]; rfl)]
  | none =>
    refine (Option.eq_none_iff_forall_ne_some.2 fun c hc => ?_).symm
    have hsome := hr.isSome_of_reachable (hr.reachable (by rw [hc]; rfl))
    rw [hh] at hsome
    cases hsome

/-- One labelling tells before and afterwards which allocation a closure is of. -/
theorem depicts : Depicts v s' t' tree := by
  have htree {x : H} (hx : (v.look s'.machine.store x).isSome) : tree' x = tree x :=
    (hr.isSome_of_after hx).2
  have hsome {x : H} {c : Closure H} (hc : v.look s'.machine.store x = some c) :
      (v.look s'.machine.store x).isSome := by rw [hc]; rfl
  constructor
  case closure_eq =>
    intro x c hc
    rw [← htree (hsome hc), hr.after.closure_eq hc]
    exact Closure.map_congr fun y hy => htree (hr.after.isSome_look_captured hc y hy)
  case number_injective =>
    intro x y hx hy
    rw [← htree hx, ← htree hy]
    exact hr.after.number_injective hx hy
  case kindOf_eq =>
    intro x c hc
    rw [← htree (hsome hc)]
    exact hr.after.kindOf_eq hc
  case isSome_look_captured => exact hr.after.isSome_look_captured
  case isSome_look => exact hr.after.isSome_look
  case handles_eq => rw [hr.trees_eq, hr.before.handles_eq, hr.handles_eq]
  case bindings_eq =>
    intro name
    rw [hr.getElem?_eq, hr.before.bindings_eq, hr.bindings_eq]

end Resumes

/-- A session `s'` has everything as it was in the session `s`, where they answer as the sessions
`t'` and `t` on a grove. -/
structure Restores (v : View W H) (ledger : W → Ledger) (owners : W → H → Nat)
    (s s' : Session W H) (t t' : Session (Grove b) Tree) : Prop where
  handles_eq : s'.handles = s.handles
  bindings_eq (name : Name) : s'.bindings[name]? = s.bindings[name]?
  /-- The same closures are there, each with its captures. -/
  look_eq (h : H) : v.look s'.machine.store h = v.look s.machine.store h
  /-- None of them has taken the place of another one. -/
  depicts : ∃ tree, Depicts v s t tree ∧ Depicts v s' t' tree
  owners_eq {h : H} : (v.look s.machine.store h).isSome →
    owners s'.machine.store h = owners s.machine.store h
  /-- Of each kind as many closures were allocated as were freed. -/
  counters (k : Kind) : ∃ n,
    (ledger s'.machine.store).alloc.get k = (ledger s.machine.store).alloc.get k + n ∧
      (ledger s'.machine.store).free.get k = (ledger s.machine.store).free.get k + n

end Session

namespace Representation

variable {W H : Type} [Host W H] {b : Nat} {R : Representation W}
  {hb : Backend.handleBytes W = b} {e : Evaluator H} {d : Evaluator Tree}
  {c : Simulation.Pairing H Tree} {s : Session W H} {t : Session (Grove b) Tree}

/-- From any moment of a run on the labelling can be continued. -/
theorem exists_paired_since (h : (R.simulation hb []).Paired e d c 0 s t) :
    ∃ known tree, R.Mirrors s.machine.store t.machine.store (c.standing e d) known tree ∧
      t.machine.store.resets = [] ∧
      (R.simulationSince hb [] ⟨known, tree, t.machine.store.made⟩).Paired e d c 0 s t := by
  have hholds := h.holds
  rw [Multiset.zero_add] at hholds
  obtain ⟨hresets, known, tree, hm⟩ := hholds
  refine ⟨known, tree, hm, hresets, ?_⟩
  constructor
  case seats_left => exact h.seats_left
  case seats_right => exact h.seats_right
  case bindings_left => exact h.bindings_left
  case bindings_right => exact h.bindings_right
  case serves => exact ⟨h.serves.left, h.serves.right, h.serves.nesting, h.serves.builtin⟩
  case holds =>
    rw [Multiset.zero_add]
    exact ⟨hresets, known, tree, hm, .rfl⟩

namespace Counted

variable {cells : W → Cells} {ledger : W → Ledger} {handle : Nat → H} {position : H → Nat}

/-- An operation that hands back no closure resumes what there was. -/
theorem exists_resumes (hR : R.Counted cells ledger handle position)
    (h : (R.simulation hb []).Paired e d c 0 s t) {command : Command}
    (hc : command.isOperation = true)
    (hplain : isPlain (s.step 0 (some command)).1.answer = true) :
    let s' := (s.step 0 (some command)).2
    let t' := (t.step 0 (some command)).2
    ∃ tree tree', Resumes R.toView s s' t t' tree tree' ∧ R.Sound s.machine.store s.handles ∧
      R.Sound s'.machine.store s'.handles ∧
      t.machine.store.made <:+ t'.machine.store.made ∧
      (∀ k, R.allocated s.machine.store k = t.machine.store.made.count k) ∧
      ∀ k, R.allocated s'.machine.store k = t'.machine.store.made.count k := by
  intro s' t'
  obtain ⟨known, tree, hm, hresets, hsince⟩ := exists_paired_since h
  obtain ⟨hd, hs, hcount⟩ := depicts_of_mirrors h hresets hm
  obtain ⟨⟨c', hafter⟩, hanswer, -⟩ := hsince.step hc
  have hholds := hafter.holds
  rw [Multiset.zero_add] at hholds
  obtain ⟨hresets', known', tree', hm', hl⟩ := hholds
  obtain ⟨hd', hs', hcount'⟩ := depicts_of_mirrors hafter hresets' hm'
  have hspares : t'.seats = t.seats ∧ t'.bindings = t.bindings := by
    refine spares_step (Grove.describable b) t 0 hc ?_
    rw [← isPlain_map_unplaced, ← hanswer, isPlain_map_unplaced]
    exact hplain
  refine ⟨tree, tree', ?_, hs, hs', hl.suffix, hcount, hcount'⟩
  constructor
  case before => exact hd
  case after => exact hd'
  case seats_eq =>
    have hopen := hspares.1
    rw [hafter.seats_right, h.seats_right] at hopen
    rw [hafter.seats_left, h.seats_left]
    simpa using hopen
  case trees_eq => rw [handles, handles, hspares.1, hspares.2]
  case getElem?_eq => exact fun name => by rw [hspares.2]
  case unmoved =>
    intro x k hx hk hnumber
    obtain ⟨y, hy⟩ := Option.isSome_iff_exists.1 hx
    obtain ⟨z, hz⟩ := Option.isSome_iff_exists.1 hk
    have hlt := Grove.lt_of_kindOf (hd.kindOf_eq hz)
    rw [← hnumber] at hlt
    obtain ⟨hknown, htree⟩ : known x ∧ tree' x = tree x :=
      hl.of_number_lt (hm'.of_look hy).1 hlt
    have hxk : x = k := hm.number_injective hknown (hm.of_look hz).1 (by rw [← htree, hnumber])
    exact ⟨hxk, by rw [htree, hxk]⟩
  case reachable => exact fun hx => hR.reachable hd hs _ hx
  case reachable' => exact fun hx => hR.reachable hd' hs' _ hx

theorem restores (hR : R.Counted cells ledger handle position) (owners : W → H → Nat)
    (howners : ∀ w i, owners w (handle i) = (cells w).owners i)
    (h : (R.simulation hb []).Paired e d c 0 s t) {command : Command}
    (hc : command.isOperation = true)
    (hplain : isPlain (s.step 0 (some command)).1.answer = true) :
    Restores R.toView ledger owners s (s.step 0 (some command)).2 t
      (t.step 0 (some command)).2 := by
  obtain ⟨tree, tree', hr, hs, hs', hsuffix, hcount, hcount'⟩ := hR.exists_resumes h hc hplain
  constructor
  case handles_eq => exact hr.handles_eq
  case bindings_eq => exact hr.bindings_eq
  case look_eq => exact hr.look_eq
  case depicts => exact ⟨tree, hr.before, hr.depicts⟩
  case owners_eq =>
    intro x hx
    have hx' := hx
    rw [← hr.look_eq] at hx'
    have hback := hR.handle_position_of_look hx
    rw [← hback, howners, howners, hR.owners_eq hr.depicts hs' hx', hR.owners_eq hr.before hs hx,
      ownersOf, ownersOf, hr.trees_eq]
  case counters =>
    intro k
    have hlive : R.live (s.step 0 (some command)).2.machine.store k = R.live s.machine.store k := by
      simp only [View.live, hr.look_eq]
    have hbalance := hR.balance hs k
    have hbalance' := hR.balance hs' k
    have hle := hsuffix.sublist.count_le k
    rw [← hcount, ← hcount', hR.allocated_eq, hR.allocated_eq] at hle
    obtain ⟨n, hn⟩ := Nat.exists_eq_add_of_le hle
    refine ⟨n, hn, ?_⟩
    rw [hlive] at hbalance'
    omega

/-- Along every run of a store that counts owners, an operation that hands back no closure restores
everything. -/
theorem restores_after (hR : R.Counted cells ledger handle position) (owners : W → H → Nat)
    (howners : ∀ w i, owners w (handle i) = (cells w).owners i) {limits : Limits} {w : W}
    {g : Grove b} (hopens : (R.simulation hb []).Opens limits w g) (hmade : g.made = [])
    (hfits : g.capacity.filter (· < Closure.headerWord) = none) (filter : Log.Filter)
    {commands : List Command} (hcs : ∀ command ∈ commands, command.isOperation = true)
    {command : Command} (hc : command.isOperation = true) :
    let s := (openedOn w filter limits).after commands
    let t := (openedOn g filter limits).after commands
    isPlain (s.step 0 (some command)).1.answer = true →
      Restores R.toView ledger owners s (s.step 0 (some command)).2 t
        (t.step 0 (some command)).2 := by
  intro s t hplain
  obtain ⟨e, c, hafter⟩ :=
    hopens.paired_after filter (Grove.openGrove_of_fits limits hfits hmade) hcs
  exact hR.restores owners howners hafter hc hplain

end Counted

end Representation

/-- On the shared heap and in a pool, wherever a run of operations has led, an operation that is
refused, stops with a fault at whatever depth, or answers an integer, a kind or a truth value leaves
all closures as they were: which ones there are and in which slots, what each of them captures, and
how many owners it has. What was allocated and what was freed meanwhile are as many closures of each
kind. -/
theorem plain_operations_restore (filter : Log.Filter) (limits : Limits) (commands : List Command)
    (hcs : ∀ command ∈ commands, command.isOperation = true) (command : Command)
    (hc : command.isOperation = true) :
    (let s := (opened SharedHeap filter limits).after commands
      let t := (opened (Grove 8) filter limits).after commands
      isPlain (s.step 0 (some command)).1.answer = true →
        Restores (SharedHeap.view 0) (·.ledger 0) SharedHeap.owners s
          (s.step 0 (some command)).2 t (t.step 0 (some command)).2) ∧
      (let s := (opened Pools filter limits).after commands
      let t := (opened (Grove 16) filter limits).after commands
      isPlain (s.step 0 (some command)).1.answer = true →
        Restores (Pools.view 0) (fun w => (w.pool 0).ledger) Pools.owners s
          (s.step 0 (some command)).2 t (t.step 0 (some command)).2) :=
  ⟨(SharedHeap.counted 0).restores_after SharedHeap.owners (fun _ _ => rfl)
      (SharedHeap.opens limits) rfl rfl filter hcs hc,
    (Pools.counted 0).restores_after Pools.owners (fun _ _ => rfl) (Pools.opens limits) rfl rfl
      filter hcs hc⟩

/-- A run after which an integer is applied in the middle of an application. -/
theorem plain_operations_restore_failing :
    let commands : List Command := [.numeral 2 "n", .int 5 "i", .apply "n" "i" "f", .drop "n"]
    let command := Command.apply "f" "i" "x"
    let s := (opened SharedHeap .off {}).after commands
    let s' := (opened Pools .off {}).after commands
    (isPlain (s.step 0 (some command)).1.answer = true ∧
      Restores (SharedHeap.view 0) (·.ledger 0) SharedHeap.owners s
        (s.step 0 (some command)).2 ((opened (Grove 8) .off {}).after commands)
        (((opened (Grove 8) .off {}).after commands).step 0 (some command)).2) ∧
      isPlain (s'.step 0 (some command)).1.answer = true ∧
      Restores (Pools.view 0) (fun w => (w.pool 0).ledger) Pools.owners s'
        (s'.step 0 (some command)).2 ((opened (Grove 16) .off {}).after commands)
        (((opened (Grove 16) .off {}).after commands).step 0 (some command)).2 := by
  intro commands command s s'
  obtain ⟨hheap, hpool⟩ := plain_operations_restore .off {} commands (by decide) command rfl
  have hplain : isPlain (s.step 0 (some command)).1.answer = true := by decide +kernel
  have hplain' : isPlain (s'.step 0 (some command)).1.answer = true := by decide +kernel
  exact ⟨⟨hplain, hheap hplain⟩, hplain', hpool hplain'⟩

end ChurchStore
