import ChurchStore.Proofs.Liveness

/-!
# Closures that are gone stay gone

New trees are made of held ones, and a new node bears a new number. So an allocation that occurs in
no held tree will never occur in one again: a grove simulates itself without it.
-/

namespace ChurchStore

open Session

variable {b : Nat}

namespace Grove

/-- No held tree has a node that was made by the given allocation. -/
def Without (number : Nat) (g g' : Grove b) (held : Multiset (Tree × Tree)) : Prop :=
  g = g' ∧ number < g.made.length ∧
    ∀ p ∈ held, p.1 = p.2 ∧ ∀ u : Tree, u.Occurs p.1 → u.number ≠ number

variable {number : Nat} {g g' : Grove b} {held lent : Multiset (Tree × Tree)}

theorem Without.of_subset {held' : Multiset (Tree × Tree)} (h : Without number g g' held)
    (hsub : held' ⊆ held) : Without number g g' held' :=
  ⟨h.1, h.2.1, fun p hp => h.2.2 p (hsub hp)⟩

theorem coupled_alloc_without (c : Closure (Tree × Tree)) (lent : Multiset (Tree × Tree)) :
    Coupled (fun m n => Without (b := b) number m.store n.store (c.captures + lent))
      (Grove.alloc (c.map Prod.fst)) (Grove.alloc (c.map Prod.snd))
      (fun t u m n => Without number m.store n.store ((t, u) ::ₘ lent))
      (fun _ m n => True ∧ Without number m.store n.store lent) := by
  intro m n hmn
  obtain ⟨hstore, hlt, hheld⟩ := hmn
  have hsub : lent ⊆ c.captures + lent := Multiset.subset_of_le (Multiset.le_add_left _ _)
  have hcaptures (p : Tree × Tree) (hp : p ∈ c.captures) :=
    hheld p (Multiset.mem_add.2 (.inl hp))
  have hmap : c.map Prod.snd = c.map Prod.fst :=
    Closure.map_congr fun p hp => (hcaptures p hp).1.symm
  rw [hmap]
  cases hsize : m.store.capacity.filter (· < (c.map Prod.fst).footprint) with
  | some size =>
    rw [alloc_of_oversize hsize, alloc_of_oversize (hstore ▸ hsize)]
    exact ⟨rfl, trivial, hstore, hlt, fun p hp => hheld p (hsub hp)⟩
  | none =>
    rw [alloc_of_fits hsize, alloc_of_fits (hstore ▸ hsize)]
    refine ⟨by rw [hstore], Nat.lt_succ_of_lt hlt, fun p hp => ?_⟩
    rcases Multiset.mem_cons.1 hp with rfl | hp
    · refine ⟨by rw [hstore], fun u hu => ?_⟩
      cases hu with
      | root => exact (Nat.ne_of_lt hlt).symm
      | capture ht hu =>
        rw [Closure.captures_map] at ht
        obtain ⟨q, hq, rfl⟩ := List.mem_map.1 ht
        exact (hcaptures q hq).2 u hu
    · exact hheld p (hsub hp)

theorem coupled_resolve_without {p : Tree × Tree} (hp : p ∈ lent) :
    Coupled (fun m n => Without (b := b) number m.store n.store lent)
      (Grove.resolve p.1) (Grove.resolve p.2)
      (fun x y m n => ∃ c : Closure (Tree × Tree), x = c.map Prod.fst ∧ y = c.map Prod.snd ∧
        Without number m.store n.store (c.captures + lent))
      (fun _ m n => True ∧ Without number m.store n.store lent) := by
  intro m n hmn
  obtain ⟨hstore, hlt, hheld⟩ := hmn
  obtain ⟨hp', hnone⟩ := hheld p hp
  rw [← hp']
  by_cases hcur : m.store.epochOf p.1.number = m.store.resets.length
  · rw [resolve_of_current hcur, resolve_of_current (hstore ▸ hcur)]
    refine ⟨p.1.closure.map fun u => (u, u), (Closure.map_diag (fun _ => rfl) _).symm,
      (Closure.map_diag (fun _ => rfl) _).symm, hstore, hlt, fun q hq => ?_⟩
    rcases Multiset.mem_add.1 hq with hq | hq
    · rw [Multiset.mem_coe, Closure.captures_map] at hq
      obtain ⟨t, ht, rfl⟩ := List.mem_map.1 hq
      exact ⟨rfl, fun u hu => hnone u (Tree.Occurs.of_closure ht hu)⟩
    · exact hheld q hq
  · rw [resolve_of_stale hcur, resolve_of_stale (hstore ▸ hcur)]
    exact ⟨by rw [hstore], trivial, hstore, hlt, hheld⟩

/-- A grove simulates itself without an allocation that does not occur any more. -/
def without (number : Nat) : Simulation (Grove b) (Grove b) where
  left := 0
  right := 0
  Rel := Without number
  Faulty _ := True
  retain h hp := by
    refine h.of_subset fun q hq => ?_
    rcases Multiset.mem_cons.1 hq with rfl | hq
    · exact hp
    · exact hq
  release h := h.of_subset (Multiset.subset_cons _ _)
  alloc := coupled_alloc_without
  resolve := coupled_resolve_without
  same {w v held p q} h hp hq := by
    rw [(h.2.2 p hp).1, (h.2.2 q hq).1]
  describe hp := Coupled.of_ok fun m n hmn => ⟨_, _, _, _, rfl, rfl, hmn⟩
  handleBytes_eq := rfl

end Grove

/-- A session on a grove is related to itself. -/
theorem Session.paired_without {t : Session (Grove b) Tree} {d : Evaluator Tree} {isOpen : Bool}
    {number : Nat} (hseats : t.seats = #[⟨d, isOpen⟩]) (hsite : d.site = 0)
    (hlt : number < t.machine.store.made.length) (hdead : ¬ t.Alive number) :
    ∃ c, (Grove.without number).Paired d d c 0 t t := by
  let c : Simulation.Pairing Tree Tree := ⟨isOpen, t.bindings.map fun _ x => (x, x)⟩
  have hvalues : c.bindings.values = t.bindings.values.map fun x => (x, x) := by
    refine values_of_getElem?_map fun name => ?_
    exact Std.TreeMap.getElem?_map
  have hbind (f : Tree × Tree → Tree) (hf : ∀ u, f (u, u) = u) (name : Name) :
      t.bindings[name]? = c.bindings[name]?.map f := by
    change _ = ((t.bindings.map fun _ x => (x, x))[name]?).map f
    rw [Std.TreeMap.getElem?_map]
    cases t.bindings[name]? <;> simp [hf]
  refine ⟨c, hseats, hseats, hbind _ fun _ => rfl, hbind _ fun _ => rfl,
    ⟨hsite, hsite, rfl, Simulation.mem_builtinPairs d d⟩, rfl, hlt, fun p hp => ?_⟩
  have hmem : p.1 = p.2 ∧ p.1 ∈ t.handles := by
    rw [Multiset.zero_add, Simulation.Pairing.standing, hvalues] at hp
    have hhandles : t.handles = Seat.handles ⟨d, isOpen⟩ ++ t.bindings.values := by
      rw [handles, hseats]
      simp
    rw [hhandles]
    rcases Multiset.mem_add.1 hp with hp | hp
    · obtain ⟨x, hx, rfl⟩ := List.mem_map.1 hp
      exact ⟨rfl, List.mem_append_right _ hx⟩
    · cases isOpen with
      | false => cases hp
      | true =>
        obtain ⟨x, hx, rfl⟩ := List.mem_map.1 hp
        exact ⟨rfl, List.mem_append_left _ (List.mem_map_of_mem hx)⟩
  exact ⟨hmem.1, fun u hu hnumber => hdead ⟨p.1, hmem.2, u, hu, hnumber⟩⟩

/-- An allocation that is not alive is not alive after any further operations. -/
theorem Session.not_alive_after {t : Session (Grove b) Tree} {d : Evaluator Tree} {isOpen : Bool}
    {number : Nat} (hseats : t.seats = #[⟨d, isOpen⟩]) (hsite : d.site = 0)
    (hlt : number < t.machine.store.made.length) (hdead : ¬ t.Alive number)
    {commands : List Command} (hc : ∀ command ∈ commands, command.isOperation = true) :
    ¬ (t.after commands).Alive number := by
  obtain ⟨c, hpaired⟩ := paired_without hseats hsite hlt hdead
  obtain ⟨⟨c', hafter⟩, -⟩ := hpaired.after commands hc
  obtain ⟨l, hl, -, hstanding⟩ := hafter.exists_handles
  obtain ⟨-, -, hheld⟩ := hafter.holds
  rw [Multiset.zero_add, hstanding] at hheld
  intro ⟨r, hr, u, hu, hnumber⟩
  rw [hl] at hr
  obtain ⟨p, hp, rfl⟩ := List.mem_map.1 hr
  exact (hheld p hp).2 u hu hnumber

end ChurchStore
