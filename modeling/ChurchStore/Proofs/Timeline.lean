import ChurchStore.Proofs.Simulation.Strengthening

/-!
# Records without gaps

The moments of a record are those of a run: each operation was given the store that the one before
had left, and the last one left the present store. So what changes along a run is what the primitive
operations change, one after the other.
-/

namespace ChurchStore.Recorded

open Session

variable {W V H G α : Type}

theorem leaves_carryOut [DecidableEq H] (deed : Deed H) (given : α → Multiset H) (op : Act W α)
    (m : Machine (Recorded W H)) :
    ((carryOut deed given op).leaves m).store = op.leaves ⟨m.store.store, m.journal⟩ ∧
      ((carryOut deed given op).leaves m).past =
        ⟨m.store.store, m.store.held, deed⟩ :: m.store.past := by
  obtain ⟨w, j⟩ := m
  simp only [Act.leaves, carryOut]
  cases op ⟨w.store, j⟩ with
  | ok a m' => exact ⟨rfl, rfl⟩
  | error f m' => exact ⟨rfl, rfl⟩

/-- The stores of all moments, the present one first. -/
def stores (w : Recorded W H) : List W := w.store :: w.past.map (·.store)

variable [Host W H] [Host V G]

/-- Each operation of a record left the store of the next moment, the last one the store `w`. -/
def Linked (site : Site) (first : W) (w : W) : List (Moment W H) → Prop
  | [] => w = first
  | m :: past =>
    (∃ journal, w = m.deed.leaves site ⟨m.store, journal⟩) ∧ Linked site first m.store past

section Linked

variable {site : Site} {first w : W} {past : List (Moment W H)}

/-- What each operation of a record without gaps did to its store holds of neighbouring stores. -/
theorem Linked.isChain {R : W → W → Prop} (h : Linked site first w past)
    (hstep : ∀ m ∈ past, ∀ journal, R (m.deed.leaves site ⟨m.store, journal⟩) m.store) :
    (w :: past.map (·.store)).IsChain R := by
  induction past generalizing w with
  | nil => exact .singleton w
  | cons m past ih =>
    obtain ⟨⟨journal, rfl⟩, hpast⟩ := h
    exact .cons_cons (hstep m (List.mem_cons_self ..) journal)
      (ih hpast fun n hn => hstep n (List.mem_cons_of_mem m hn))

theorem Linked.getLast? (h : Linked site first w past) :
    (w :: past.map (·.store)).getLast? = some first := by
  induction past generalizing w with
  | nil => exact congrArg some h
  | cons m past ih =>
    rw [List.map_cons, List.getLast?_cons_cons]
    exact ih h.2

end Linked

variable [DecidableEq H]

/-- An operation on a recorded store is carried out on the store and put on record. -/
theorem leaves_eq (site : Site) (deed : Deed H) (m : Machine (Recorded W H)) :
    (deed.leaves site m).store = deed.leaves site ⟨m.store.store, m.journal⟩ ∧
      (deed.leaves site m).past = ⟨m.store.store, m.store.held, deed⟩ :: m.store.past := by
  cases deed with
  | alloc c => exact leaves_carryOut (.alloc c) ({·}) (Backend.alloc site c) m
  | resolve h => exact leaves_carryOut (.resolve h) (·.captures) (Backend.resolve site h) m
  | describe h => exact leaves_carryOut (.describe h) (fun _ => 0) (Host.describe h) m
  | retain h | release h => exact ⟨rfl, rfl⟩

/-- Every operation goes on the record behind the others. -/
theorem keeps_linked (S : Simulation (Recorded W H) V) (first : W) :
    S.Keeps fun w _ => Linked S.left first w.store w.past := by
  intro m n held deed _ _ hlinked
  obtain ⟨hstore, hpast⟩ := leaves_eq S.left (deed.map Prod.fst) m
  rw [hstore, hpast]
  exact ⟨⟨m.journal, rfl⟩, hlinked⟩

theorem past_openedOn (w : W) (filter : Log.Filter) (limits : Limits) :
    (openedOn (⟨w, 0, []⟩ : Recorded W H) filter limits).machine.store.past = [] := by
  simp only [openedOn, step, Option.elim_some, perform, Bind.bind, EStateM.bind, act,
    Host.openWith, openRecorded]
  cases (Host.openWith limits ⟨w, { filter }⟩ : EStateM.Result Fault (Machine W) (Evaluator H)) with
  | ok e m => rfl
  | error f m => rfl

/-- The record of a run has no gaps. -/
theorem linked_after {S : Simulation W V} {limits : Limits} {x : W} {y : V}
    (h : S.Opens limits x y) (filter : Log.Filter) {d : Evaluator G}
    (hd : ∃ n, Host.openWith limits ⟨y, { filter }⟩ = .ok d n) {commands : List Command}
    (hc : ∀ command ∈ commands, command.isOperation = true) :
    let t := openedOn (⟨x, 0, []⟩ : Recorded W H) filter limits
    let t' := t.after commands
    Linked S.left t.machine.store.store t'.machine.store.store t'.machine.store.past := by
  intro t t'
  obtain ⟨e, hpaired⟩ := (opens h).paired filter hd
  have hstart : Linked S.left t.machine.store.store t.machine.store.store t.machine.store.past := by
    rw [past_openedOn]
    rfl
  obtain ⟨⟨c, hafter⟩, -⟩ :=
    (hpaired.keeping (keeps_linked (simulation S) t.machine.store.store) hstart).after commands hc
  exact hafter.holds.2

end ChurchStore.Recorded
