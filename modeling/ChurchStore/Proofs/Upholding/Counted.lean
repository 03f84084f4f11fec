import ChurchStore.Proofs.Pools
import ChurchStore.Proofs.Session.Upholding
import ChurchStore.SharedHeap

/-!
# What the stores that count owners uphold

The operations of the shared heap and of pools are put together from a few changes, and stop with a
few faults of their own. So what these changes keep is upheld by every operation, whatever handles
it is given.
-/

namespace ChurchStore

namespace SharedHeap

variable {I : Machine SharedHeap → Prop} {Q : Fault → Machine SharedHeap → Prop}
  (hI : ∀ (f : SharedHeap → SharedHeap) (m : Machine SharedHeap), I m → I (m.change f))
  (hQ : ∀ length index, (Fault.indexOutOfBounds length index).Allowed I Q)

include hI in
theorem upholds_alloc (site : Site) (c : Closure NodeRef) :
    Act.Upholds I Q (fun _ => True) (alloc site c) :=
  (Act.upholds_read _).bind fun _ _ => (Act.upholds_update (hI _)).bind fun _ _ => .pure trivial

include hI hQ in
theorem upholds_resolve (h : NodeRef) : Act.Upholds I Q (fun _ => True) (resolve h) := by
  refine (Act.upholds_read _).bind fun c _ => ?_
  cases c with
  | none => exact (Act.upholds_read _).bind fun _ _ => .throw (hQ _ _)
  | some c => exact (Act.upholds_update (hI _)).bind fun _ _ => .pure trivial

include hQ in
theorem upholds_describe (h : NodeRef) : Act.Upholds I Q (fun _ => True) (describe h) := by
  refine (Act.upholds_read _).bind fun c _ => ?_
  cases c with
  | none => exact (Act.upholds_read _).bind fun _ _ => .throw (hQ _ _)
  | some c => exact (Act.upholds_read _).bind fun _ _ => .pure trivial

include hI hQ in
/-- What no change of the heap can break is upheld by all operations on it. -/
theorem operates (hfailed : ∀ (f : Fault) (g : SharedHeap → SharedHeap) (m : Machine SharedHeap),
    Q f m → Q f (m.change g)) : Host.Operates I Q fun _ => True where
  alloc {site} c _ := upholds_alloc hI site c
  resolve h _ := upholds_resolve hI hQ h
  retain _ := hI _
  release _ := hI _
  release_failed _ f := hfailed f _
  describe := upholds_describe hQ

include hI hQ in
theorem upholds_openLedger
    (hfailed : ∀ (f : Fault) (g : SharedHeap → SharedHeap) (m : Machine SharedHeap),
      Q f m → Q f (m.change g))
    (hlog : ∀ m, I m → I (m.logged .singletonsAllocated)) (limits : Limits) :
    Act.Upholds I Q (fun _ => True) (openLedger limits) := by
  refine (Act.upholds_read _).bind fun site _ => (Act.upholds_update (hI _)).bind fun _ _ => ?_
  refine ((operates hI hQ hfailed).backend trivial).build.bind fun _ _ => ?_
  exact (Act.upholds_emit hlog).bind fun _ _ => .pure trivial

end SharedHeap

namespace Pools

/-- The machine once a closure has gone to the next slot of a pool, which is logged if the slot was
free. -/
def inserted (site : Site) (c : Closure Nat) (m : Machine Pools) : Machine Pools :=
  if (m.store.pool site).free.isEmpty then m.change (·.modify site (·.insert c))
  else (m.change (·.modify site (·.insert c))).logged
    (.slotReused (m.store.pool site).nextSlot c.kind)

/-- To allocate is to adopt the captures and then to fill the next slot. -/
theorem alloc_eq (site : Site) (c : Closure PoolRef) : alloc site c =
    adoptCaptures site c >>= fun c m =>
      .ok ⟨site, (m.store.pool site).nextSlot⟩ (inserted site c m) := by
  refine congrArg (adoptCaptures site c >>= ·) (funext fun c => funext fun m => ?_)
  simp only [Bind.bind, EStateM.bind, Act.read, Act.update, inserted]
  cases (m.store.pool site).free.isEmpty with
  | true => rfl
  | false => rfl

/-- What the changes of pools keep, if closures are stored in some of them only. -/
structure Changes (I : Machine Pools → Prop) (Q : Fault → Machine Pools → Prop)
    (A : Site → Prop) : Prop where
  retain (h : PoolRef) (m : Machine Pools) : I m → I (m.change (retain h))
  release (h : PoolRef) (m : Machine Pools) : I m → I (m.change (release h))
  release_failed (h : PoolRef) (f : Fault) (m : Machine Pools) :
    Q f m → Q f (m.change (Pools.release h))
  insert {site : Site} (c : Closure Nat) (m : Machine Pools) : A site → I m → I (inserted site c m)
  foreignHandle : (Fault.violation (.foreignHandle .pooled)).Allowed I Q
  freedSlot (slot : Nat) : (Fault.violation (.freedSlot slot)).Allowed I Q
  indexOutOfBounds (length index : Nat) : (Fault.indexOutOfBounds length index).Allowed I Q

namespace Changes

variable {I : Machine Pools → Prop} {Q : Fault → Machine Pools → Prop} {A : Site → Prop}
  {site : Site}

/-- Captures are retained one after another. -/
theorem acquireAll (hI : Changes I Q A) (site : Site) (l : List Nat) (m : Machine Pools)
    (hm : I m) : I (m.change (·.modify site fun p => l.foldl Pool.acquire p)) := by
  induction l generalizing m with
  | nil =>
    have hnone : m.change (·.modify site fun p => [].foldl Pool.acquire p) = m :=
      congrArg (Machine.mk · m.journal) (modify_eq_self rfl)
    rwa [hnone]
  | cons slot l ih =>
    have hrest := ih _ (hI.retain ⟨site, slot⟩ m hm)
    have hsteps : (m.change (Pools.retain ⟨site, slot⟩)).change
        (·.modify site fun p => l.foldl Pool.acquire p) =
          m.change (·.modify site fun p => (slot :: l).foldl Pool.acquire p) :=
      congrArg (Machine.mk · m.journal) (modify_modify ..)
    rwa [hsteps] at hrest

theorem adopt (hI : Changes I Q A) (site : Site) (h : PoolRef) :
    Act.Upholds I Q (fun _ => True) (adopt site h) := by
  refine (Act.upholds_read _).bind fun size _ => ?_
  split
  · refine (Act.upholds_update fun m hm => ?_).bind fun _ _ => .pure trivial
    exact hI.release h _ (hI.retain ⟨site, h.slot⟩ m hm)
  · exact (Act.upholds_update (hI.release h)).bind fun _ _ => .throw (hI.indexOutOfBounds _ _)

theorem adoptCaptures (hI : Changes I Q A) (site : Site) (c : Closure PoolRef) :
    Act.Upholds I Q (fun _ => True) (adoptCaptures site c) := by
  cases c with
  | zero | zeroInner | succ | intLiteral | inc => exact .pure trivial
  | succPartial n => exact (hI.adopt site n).bind fun _ _ => .pure trivial
  | succInner n s =>
    refine Upholds.bind (Act.upholds_onFault (hI.release_failed s) (hI.adopt site n)) fun _ _ => ?_
    exact (hI.adopt site s).bind fun _ _ => .pure trivial

theorem alloc (hI : Changes I Q A) (hs : A site) (c : Closure PoolRef) :
    Act.Upholds I Q (fun _ => True) (alloc site c) := by
  rw [alloc_eq]
  exact (hI.adoptCaptures site c).bind fun c _ m hm => ⟨trivial, hI.insert c m hs hm⟩

theorem resolve (hI : Changes I Q A) (site : Site) (h : PoolRef) :
    Act.Upholds I Q (fun _ => True) (resolve site h) := by
  rw [Pools.resolve]
  split
  · exact Act.upholds_violate hI.foreignHandle
  · refine (Act.upholds_read _).bind fun c _ => ?_
    cases c with
    | none => exact Act.upholds_violate (hI.freedSlot h.slot)
    | some c =>
      exact (Act.upholds_update (hI.acquireAll site c.captures)).bind fun _ _ => .pure trivial

theorem describe (hI : Changes I Q A) (h : PoolRef) :
    Act.Upholds I Q (fun _ => True) (describe h) := by
  refine (Act.upholds_read _).bind fun c _ => ?_
  cases c with
  | none => exact Act.upholds_violate (hI.freedSlot h.slot)
  | some c => exact (Act.upholds_read _).bind fun _ _ => .pure trivial

/-- What the changes of pools keep is upheld by all operations on them. -/
theorem operates (hI : Changes I Q A) : Host.Operates I Q A where
  alloc c hs := hI.alloc hs c
  resolve {site} h _ := hI.resolve site h
  retain := hI.retain
  release := hI.release
  release_failed := hI.release_failed
  describe := hI.describe

end Changes

end Pools

end ChurchStore
