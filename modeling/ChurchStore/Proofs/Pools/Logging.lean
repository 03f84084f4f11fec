import ChurchStore.Proofs.Session.Logging
import ChurchStore.Proofs.Upholding.Counted

/-!
# What pools log

Each use of a free slot is logged and counted. The log tells the slot and the kind of the closure
that goes there; whatever handles a pool is given, its free slots are slots that exist, so the
closure can then be found in the slot.
-/

namespace ChurchStore

namespace Cells

variable {cs ds : Cells} {i : Nat} {o : Option (Closure Nat)}

/-- Letting an owner go keeps the number of cells, and a closure comes from one of them. -/
theorem of_letGo (h : cs.letGo i = (o, ds)) : ds.size = cs.size ∧ (o.isSome → i < cs.size) := by
  unfold letGo at h
  split at h
  · obtain ⟨rfl, rfl⟩ := Prod.mk.inj h
    exact ⟨size_put, lt_size_of_isSome⟩
  · obtain ⟨rfl, rfl⟩ := Prod.mk.inj h
    exact ⟨Array.size_modify, fun hsome => by cases hsome⟩

/-- Whatever is given up, only cells that exist are emptied. -/
theorem releaseList_bounded (cs : Cells) (work : List Nat) (freed : List Freed)
    (hfreed : ∀ f ∈ freed, f.cell < cs.size) : (cs.releaseList work freed).1.size = cs.size ∧
      ∀ f ∈ (cs.releaseList work freed).2, f.cell < cs.size := by
  fun_induction Cells.releaseList cs work freed with
  | case1 cs freed => exact ⟨rfl, hfreed⟩
  | case2 cs freed i rest ds hl ih =>
    obtain ⟨hsize, -⟩ := of_letGo hl
    rw [hsize] at ih
    exact ih hfreed
  | case3 cs freed i rest c ds hl ih =>
    obtain ⟨hsize, hlt⟩ := of_letGo hl
    rw [hsize] at ih
    refine ih fun f hf => ?_
    rcases List.mem_cons.1 hf with rfl | hf
    · exact hlt rfl
    · exact hfreed f hf

end Cells

/-- The free slots of a pool exist. -/
def Pool.FreeInBounds (p : Pool) : Prop := ∀ slot ∈ p.free, slot < p.cells.size

namespace Pool

variable {p : Pool}

theorem FreeInBounds.acquire (hp : p.FreeInBounds) (slot : Nat) :
    (p.acquire slot).FreeInBounds := by
  intro i hi
  have hsize : (p.acquire slot).cells.size = p.cells.size := Array.size_modify
  rw [hsize]
  exact hp i hi

theorem FreeInBounds.release (hp : p.FreeInBounds) (slot : Nat) :
    (p.release slot).FreeInBounds := by
  obtain ⟨hsize, hlt⟩ := p.cells.releaseList_bounded [slot] [] fun f hf =>
    absurd hf List.not_mem_nil
  simp only [Pool.release, Cells.release, foldl_reclaim]
  intro i hi
  rw [hsize]
  rcases List.mem_append.1 hi with hi | hi
  · obtain ⟨f, hf, rfl⟩ := List.mem_map.1 (List.mem_reverse.1 hi)
    exact hlt f (List.mem_reverse.1 hf)
  · exact hp i hi

theorem FreeInBounds.insert (hp : p.FreeInBounds) (c : Closure Nat) :
    (p.insert c).FreeInBounds := by
  rw [Pool.insert]
  split
  · rename_i hfree
    intro i hi
    rw [hfree] at hi
    cases hi
  · rename_i slot rest hfree
    intro i hi
    rw [Cells.size_put]
    exact hp i (by rw [hfree]; exact List.mem_cons_of_mem slot hi)

end Pool

namespace Pools

/-- One thing that is done to pools, and what is logged of it: an owner is added or removed, or a
closure goes to the next slot of a pool, which is logged if that slot was free. -/
inductive Logs (site : Site) : List Log.Event → Pools → Pools → Prop
  | retained {w : Pools} (h : PoolRef) : Logs site [] w (retain h w)
  | released {w : Pools} (h : PoolRef) : Logs site [] w (release h w)
  | added {w : Pools} (c : Closure Nat) : (w.pool site).free = [] →
    Logs site [] w (w.modify site (·.insert c))
  | reused {w : Pools} {slot : Nat} {rest : List Nat} (c : Closure Nat) :
    (w.pool site).free = slot :: rest →
      Logs site [.slotReused slot c.kind] w (w.modify site (·.insert c))

variable {site : Site} {es : List Log.Event} {w w' : Pools}

theorem reaches_inserted (c : Closure Nat) (m : Machine Pools) :
    m.Reaches (Logs site) (inserted site c m) := by
  rw [inserted]
  cases hfree : (m.store.pool site).free with
  | nil => exact ⟨[], .single (.added c hfree), rfl⟩
  | cons slot rest =>
    refine ⟨[.slotReused slot c.kind], .single (.reused c hfree), ?_⟩
    rw [Pool.nextSlot, hfree]
    rfl

theorem changes_logs (m : Machine Pools) :
    Changes (m.Reaches (Logs site)) (m.Halts (Logs site)) (· = site) where
  retain h _ hn := hn.change (.single (.retained h))
  release h _ hn := hn.change (.single (.released h))
  release_failed h _ _ hn := hn.change fun _ => .single (.released h)
  insert c n hs hn := hn.trans (hs ▸ reaches_inserted c n)
  foreignHandle := Fault.allowed_reaches m _
  freedSlot _ := Fault.allowed_reaches m _
  indexOutOfBounds _ _ := Fault.allowed_reaches m _

theorem level_of_logs (es : List Log.Event) (w w' : Pools) (h : Logs site es w w') :
    ∀ e ∈ es, e.level = .trace := by
  cases h with
  | retained | released | added => exact fun e he => absurd he List.not_mem_nil
  | reused =>
    intro e he
    rw [List.mem_singleton.1 he]
    rfl

/-- What evaluators do leaves a trace in the pools. -/
theorem logs (site : Site) : Host.Logs (W := Pools) (Logs site) (· = site) where
  operates m := (changes_logs m).operates
  level_ne es w w' hstep e he := by
    rw [level_of_logs es w w' hstep e he]
    decide

/-- What a step comes to for one of the pools: it logs nothing and uses no slot again, or it logs
the free slot that it uses again and the kind of the closure that is there afterwards. -/
inductive Reuses (site : Site) : List Log.Event → Pools → Pools → Prop
  | none {w w' : Pools} : (w'.pool site).reused = (w.pool site).reused → Reuses site [] w w'
  | one {w w' : Pools} {slot : Nat} {c : Closure Nat} : slot ∈ (w.pool site).free →
    (w'.pool site).cells.closure? slot = some c →
    (w'.pool site).reused = (w.pool site).reused + 1 →
    Reuses site [.slotReused slot c.kind] w w'

/-- There is a pool, and its free slots exist. -/
def Ready (site : Site) (w : Pools) : Prop :=
  site < w.toArray.size ∧ (w.pool site).FreeInBounds

theorem Ready.modify (hw : Ready site w) {site' : Site} {f : Pool → Pool}
    (hf : ∀ p : Pool, p.FreeInBounds → (f p).FreeInBounds) : Ready site (w.modify site' f) := by
  refine ⟨(size_modify ..).symm ▸ hw.1, ?_⟩
  by_cases hsite : site' = site
  · subst hsite
    rw [pool_modify hw.1]
    exact hf _ hw.2
  · rw [pool_modify_of_ne hsite]
    exact hw.2

theorem reused_modify (hw : Ready site w) {site' : Site} {f : Pool → Pool}
    (hf : ∀ p : Pool, (f p).reused = p.reused) :
    ((w.modify site' f).pool site).reused = (w.pool site).reused := by
  by_cases hsite : site' = site
  · subst hsite
    rw [pool_modify hw.1, hf]
  · rw [pool_modify_of_ne hsite]

theorem reuses_of_logs (es : List Log.Event) (w w' : Pools) (hw : Ready site w)
    (h : Logs site es w w') : Ready site w' ∧ Reuses site es w w' := by
  cases h with
  | retained h =>
    exact ⟨hw.modify fun p hp => hp.acquire h.slot, .none (reused_modify hw fun _ => rfl)⟩
  | released h =>
    refine ⟨hw.modify fun p hp => hp.release h.slot, .none (reused_modify hw fun p => ?_)⟩
    simp only [Pool.release, Pool.foldl_reclaim]
  | added c hfree =>
    refine ⟨hw.modify fun p hp => hp.insert c, .none ?_⟩
    rw [pool_modify hw.1, Pool.insert, hfree]
  | @reused _ slot rest c hfree =>
    have hslot : slot ∈ (w.pool site).free := by
      rw [hfree]
      exact List.mem_cons_self ..
    -- The slot exists, or the closure would be lost.
    refine ⟨hw.modify fun p hp => hp.insert c, .one hslot ?_ ?_⟩
    · rw [pool_modify hw.1, Pool.insert, hfree, Cells.closure?_put (hw.2 slot hslot), if_pos rfl]
    · rw [pool_modify hw.1, Pool.insert, hfree]

open Session

/-- Nothing is logged when a pool is opened, since no slot is free then. -/
theorem accounts_open (limits : Limits) :
    (∃ es, Trace (Reuses 0) ⟨#[{}]⟩ es (opened Pools .all limits).machine.store ∧
      ((start .all : Session Pools PoolRef).step 0 (some (.new limits))).1.Accounts es) ∧
      (opened Pools .all limits).Logging (Ready 0) (· = 0) := by
  have hbuild (m : Machine Pools) : Act.Upholds (m.Reaches (Logs 0)) (m.Halts (Logs 0))
      (fun e : Evaluator PoolRef => e.site = 0) (Singletons.build (alloc 0) >>= fun singletons =>
        pure { site := 0, singletons, nesting := limits.nesting }) :=
    (((logs 0).operates m).backend rfl).build.bind fun _ _ => .pure rfl
  have hrun : Host.openWith limits (start .all : Session Pools PoolRef).machine =
      (Singletons.build (alloc 0) >>= fun singletons =>
        pure { site := 0, singletons, nesting := limits.nesting })
          { store := ⟨#[{}]⟩, journal := { filter := .all } } := rfl
  obtain ⟨⟨es, htrace, haccounts⟩, hlogs, hseats⟩ := Session.accounts_open (A := (· = 0))
    (logs 0).level_ne limits hrun hbuild
  have hready : Ready 0 ⟨#[{}]⟩ :=
    ⟨Nat.zero_lt_one, fun slot hslot => absurd hslot List.not_mem_nil⟩
  obtain ⟨hend, htrace⟩ := htrace.refine reuses_of_logs hready
  exact ⟨⟨es, htrace, haccounts⟩, hlogs, hseats, hend⟩

variable {s : Session Pools PoolRef}

end Pools

end ChurchStore
