import ChurchStore.Proofs.Arenas.Packing
import ChurchStore.Proofs.Simulation.Strengthening
import ChurchStore.Proofs.Arenas.Sessions
import Mathlib.Data.List.Chain
import Mathlib.Order.Bounds.Basic

/-!
# Arenas need as few blocks as they can

An arena cuts the sequence of its closures into blocks, and starts a new one only where the next
closure does not fit. No other way of cutting the sequence into consecutive parts that fit into
blocks needs fewer parts. So an arena with larger blocks never needs more of them; besides, the size
of the blocks is of no consequence for what a program comes to.
-/

namespace ChurchStore

/-! ### Cutting a list -/

/-- The list is cut into consecutive parts, none of which has a larger size than the capacity. -/
structure Cuts {α : Type} (size : α → Nat) (capacity : Nat) (l : List α) (parts : List (List α)) :
    Prop where
  flatten_eq : parts.flatten = l
  sum_le : ∀ p ∈ parts, (p.map size).sum ≤ capacity

/-- The first element of each part would not have fitted into the part before. -/
structure Overfull {α : Type} (size : α → Nat) (capacity : Nat) (parts : List (List α)) : Prop where
  ne_nil : ∀ p ∈ parts, p ≠ []
  isChain : parts.IsChain fun p q => ∀ a ∈ q.head?, capacity < (p.map size).sum + size a

variable {α β : Type} {size : α → Nat} {size' : β → Nat} {capacity : Nat}

/-- Cutting depends on the sizes alone. -/
theorem Cuts.map {l : List α} {parts : List (List α)} (h : Cuts size capacity l parts) (f : α → β)
    (hf : ∀ a, size' (f a) = size a) : Cuts size' capacity (l.map f) (parts.map (·.map f)) where
  flatten_eq := by rw [← List.map_flatten, h.flatten_eq]
  sum_le p hp := by
    obtain ⟨q, hq, rfl⟩ := List.mem_map.1 hp
    rw [List.map_map]
    simpa only [Function.comp_def, hf] using h.sum_le q hq

namespace Overfull

variable {gs ps : List (List α)} {g : List α}

theorem map (h : Overfull size capacity gs) (f : α → β) (hf : ∀ a, size' (f a) = size a) :
    Overfull size' capacity (gs.map (·.map f)) where
  ne_nil p hp := by
    obtain ⟨q, hq, rfl⟩ := List.mem_map.1 hp
    simpa using h.ne_nil q hq
  isChain := by
    refine (List.isChain_map _).2 (h.isChain.imp fun p q hpq b hb => ?_)
    rw [List.head?_map] at hb
    obtain ⟨a, ha, rfl⟩ := Option.map_eq_some_iff.1 hb
    have hlt := hpq a ha
    rw [List.map_map]
    simpa only [Function.comp_def, hf] using hlt

theorem tail (h : Overfull size capacity (g :: gs)) : Overfull size capacity gs :=
  ⟨fun p hp => h.ne_nil p (List.mem_cons_of_mem g hp), h.isChain.of_cons⟩

/-- The element that follows a part would not have fitted into it. -/
theorem lt_of_flatten (h : Overfull size capacity (g :: gs)) {a : α} {u : List α}
    (hgs : gs.flatten = a :: u) : capacity < (g.map size).sum + size a := by
  cases gs with
  | nil => cases hgs
  | cons q gs =>
    cases q with
    | nil => exact absurd rfl (h.ne_nil [] (by simp))
    | cons b q =>
      obtain rfl : b = a := (List.cons.inj hgs).1
      exact (List.isChain_cons_cons.1 h.isChain).1 b rfl

/-- A part that fits cannot hold a part of an overfull cut and what comes after it. -/
theorem flatten_suffix {p t : List α} (h : Overfull size capacity (g :: gs))
    (hp : (p.map size).sum ≤ capacity) (heq : t ++ (g ++ gs.flatten) = p ++ ps.flatten) :
    gs.flatten <:+ ps.flatten := by
  have hgs : gs.flatten <:+ p ++ ps.flatten := ⟨t ++ g, by rw [List.append_assoc, heq]⟩
  rcases Nat.le_total gs.flatten.length ps.flatten.length with hle | hle
  · exact List.suffix_of_suffix_length_le hgs (List.suffix_append ..) hle
  · obtain ⟨u, hu⟩ := List.suffix_of_suffix_length_le (List.suffix_append p _) hgs hle
    cases u with
    | nil => exact ⟨[], hu.symm⟩
    | cons a u =>
      -- The part `p` would hold all of `g` and also `a`, which does not fit there.
      have hsum : p = t ++ (g ++ a :: u) := by
        rw [← hu, ← List.append_assoc, ← List.append_assoc] at heq
        rw [← List.append_cancel_right heq, List.append_assoc]
      have hlt := h.lt_of_flatten hu.symm
      rw [hsum] at hp
      simp only [List.map_append, List.map_cons, List.sum_append, List.sum_cons] at hp
      omega

/-- No cut has fewer parts than one that is overfull, by induction on the other cut. -/
theorem length_le (h : Overfull size capacity gs) (hps : ∀ p ∈ ps, (p.map size).sum ≤ capacity)
    (hsuffix : gs.flatten <:+ ps.flatten) : gs.length ≤ ps.length := by
  induction ps generalizing gs with
  | nil =>
    cases gs with
    | nil => exact Nat.le_refl _
    | cons g gs =>
      have hnil : (g :: gs).flatten = [] := List.eq_nil_of_suffix_nil hsuffix
      exact absurd (List.flatten_eq_nil_iff.1 hnil g (List.mem_cons_self ..))
        (h.ne_nil g (List.mem_cons_self ..))
  | cons p ps ih =>
    cases gs with
    | nil => exact Nat.zero_le _
    | cons g gs =>
      obtain ⟨t, heq⟩ := hsuffix
      rw [List.flatten_cons, List.flatten_cons] at heq
      have hrest := h.flatten_suffix (hps p (List.mem_cons_self ..)) heq
      exact Nat.succ_le_succ (ih h.tail (fun q hq => hps q (List.mem_cons_of_mem p hq)) hrest)

end Overfull

/-- Larger parts that are overfull are not more than smaller ones. -/
theorem Cuts.length_le {l : List α} {gs ps : List (List α)} {smaller : Nat}
    (hgs : Cuts size capacity l gs) (h : Overfull size capacity gs) (hps : Cuts size smaller l ps)
    (hle : smaller ≤ capacity) : gs.length ≤ ps.length := by
  have hflatten : gs.flatten = ps.flatten := hgs.flatten_eq.trans hps.flatten_eq.symm
  exact h.length_le (fun p hp => (hps.sum_le p hp).trans hle) (hflatten ▸ List.suffix_rfl)

/-! ### The blocks of an arena -/

namespace Arena

/-- The closures of an arena, block by block. -/
def parts (a : Arena) : List (List (Closure ArenaRef)) := a.blocks.toList.map (·.closures.toList)

variable {a b : Arena}

theorem length_parts (a : Arena) : a.parts.length = a.blocks.size := by
  rw [parts, List.length_map, Array.length_toList]

theorem Packed.cuts (ha : a.Packed) : Cuts Closure.footprint a.capacity a.contents a.parts where
  flatten_eq := List.flatMap_def.symm
  sum_le p hp := by
    obtain ⟨b, hb, rfl⟩ := List.mem_map.1 hp
    have hb := ha.filled b (Array.mem_toList_iff.1 hb)
    rw [← hb.used_eq]
    exact hb.used_le

theorem Packed.overfull_parts (ha : a.Packed) : Overfull Closure.footprint a.capacity a.parts where
  ne_nil p hp := by
    obtain ⟨b, hb, rfl⟩ := List.mem_map.1 hp
    simpa using (ha.filled b (Array.mem_toList_iff.1 hb)).nonempty
  isChain := by
    rw [parts, List.isChain_map, List.isChain_iff_getElem]
    intro i hi c hc
    have hnext : a.blocks[i + 1]? = some a.blocks.toList[i + 1] := by
      rw [← Array.getElem?_toList, List.getElem?_eq_getElem hi]
    have hblock : a.blocks[i]? = some a.blocks.toList[i] := by
      rw [← Array.getElem?_toList, List.getElem?_eq_getElem (by omega)]
    rw [← (ha.filled _ (Array.mem_of_getElem? hblock)).used_eq]
    refine ha.overfull hblock hnext ?_
    rwa [Option.mem_def, List.head?_eq_getElem?, Array.getElem?_toList] at hc

/-- The blocks of an arena are as few as the parts of any cut of its closures. -/
theorem Packed.isLeast (ha : a.Packed) :
    IsLeast {k | ∃ parts, parts.length = k ∧ Cuts Closure.footprint a.capacity a.contents parts}
      a.blocks.size := by
  refine ⟨⟨a.parts, a.length_parts, ha.cuts⟩, ?_⟩
  rintro _ ⟨parts, rfl, hparts⟩
  rw [← a.length_parts]
  exact ha.cuts.length_le ha.overfull_parts hparts (Nat.le_refl _)

/-- Of two arenas that have stored closures of the same kinds, the one with the larger blocks has no
more of them. -/
theorem Packed.size_le (ha : a.Packed) (hb : b.Packed) (hcap : a.capacity ≤ b.capacity)
    (hkinds : b.contents.map Closure.kind = a.contents.map Closure.kind) :
    b.blocks.size ≤ a.blocks.size := by
  have hcuts : Cuts Kind.footprint a.capacity (a.contents.map Closure.kind)
      (a.parts.map (·.map Closure.kind)) := ha.cuts.map Closure.kind fun _ => rfl
  have hcuts' : Cuts Kind.footprint b.capacity (b.contents.map Closure.kind)
      (b.parts.map (·.map Closure.kind)) := hb.cuts.map Closure.kind fun _ => rfl
  have hoverfull : Overfull Kind.footprint b.capacity (b.parts.map (·.map Closure.kind)) :=
    hb.overfull_parts.map Closure.kind fun _ => rfl
  rw [hkinds] at hcuts'
  have hle := hcuts'.length_le hoverfull hcuts hcap
  rwa [List.length_map, List.length_map, length_parts, length_parts] at hle

/-- An arena with several closures more, which are stored one after the other. -/
def storeAll (a : Arena) (cs : List (Closure ArenaRef)) : Arena := cs.foldl store a

theorem contents_storeAll (a : Arena) (cs : List (Closure ArenaRef)) :
    (a.storeAll cs).contents = a.contents ++ cs := by
  induction cs generalizing a with
  | nil => exact (List.append_nil _).symm
  | cons c cs ih =>
    rw [storeAll, List.foldl_cons, ← storeAll, ih, contents_store, List.append_assoc,
      List.singleton_append]

theorem capacity_storeAll (a : Arena) (cs : List (Closure ArenaRef)) :
    (a.storeAll cs).capacity = a.capacity := by
  induction cs generalizing a with
  | nil => rfl
  | cons c cs ih => exact (ih _).trans (capacity_store a c)

theorem Packed.storeAll (ha : a.Packed) (hcap : Closure.maxFootprint ≤ a.capacity)
    (cs : List (Closure ArenaRef)) : (a.storeAll cs).Packed := by
  induction cs generalizing a with
  | nil => exact ha
  | cons c cs ih =>
    have hcap' : Closure.maxFootprint ≤ (a.store c).capacity := by rwa [capacity_store]
    exact ih (ha.store (c.footprint_le_maxFootprint.trans hcap)) hcap'

end Arena

namespace Arenas

variable {m m' : Machine Arenas} {site : Site}

theorem arena_of_alloc {c : Closure ArenaRef} {h : ArenaRef} (hrun : alloc site c m = .ok h m') :
    m'.store.arena site = (m.store.arena site).store c := by
  obtain ⟨hhold, hstore⟩ := store_of_alloc hrun
  rw [hstore, arena_modify hhold.1]

/-- The builtin functions are stored in their order. -/
theorem arena_of_build {t : Singletons ArenaRef}
    (hrun : Singletons.build (alloc site) m = .ok t m') :
    m'.store.arena site = (m.store.arena site).storeAll (Builtin.all.map Builtin.closure) := by
  obtain ⟨zero, m₁, h₁, hrun⟩ := Act.of_bind_eq_ok hrun
  obtain ⟨inner, m₂, h₂, hrun⟩ := Act.of_bind_eq_ok hrun
  obtain ⟨succ, m₃, h₃, hrun⟩ := Act.of_bind_eq_ok hrun
  obtain ⟨inc, m₄, h₄, hrun⟩ := Act.of_bind_eq_ok hrun
  cases hrun
  rw [arena_of_alloc h₄, arena_of_alloc h₃, arena_of_alloc h₂, arena_of_alloc h₁]
  rfl

/-- Closures can be stored without end in an arena whose blocks have room for all of them. -/
theorem exists_mapM_alloc {capacity : Nat} (h : Opened m.store site capacity)
    (hcap : Closure.maxFootprint ≤ capacity) (cs : List (Closure ArenaRef)) :
    ∃ hs m', cs.mapM (alloc site) m = .ok hs m' ∧
      m'.store.arena site = (m.store.arena site).storeAll cs := by
  induction cs generalizing m with
  | nil => exact ⟨[], m, rfl, rfl⟩
  | cons c cs ih =>
    have hhold : CanHold m.store site c.footprint :=
      ⟨h.lt_size, h.capacity_eq ▸ c.footprint_le_maxFootprint.trans hcap, .inr h.reservation_lt⟩
    obtain ⟨-, x, j, hx⟩ | ⟨hnot, -⟩ := alloc_cases site c m
    · obtain ⟨hs, m', hrun, harena⟩ := ih (h.of_changes (changes_of_alloc hx))
      refine ⟨x :: hs, m', ?_, ?_⟩
      · simp only [List.mapM_cons, Bind.bind, EStateM.bind, hx, hrun]
        rfl
      · rw [harena, arena_of_alloc hx]
        rfl
    · exact absurd hhold hnot

/-- A new arena holds the builtin functions. -/
theorem arena_of_openArena {limits : Limits} {e : Evaluator ArenaRef}
    (h : openArena limits m = .ok e m') : m'.store.arena e.site =
      ({ capacity := limits.blockCapacity } : Arena).storeAll
        (Builtin.all.map Builtin.closure) := by
  obtain ⟨t, m₁, hbuild, hopen⟩ | ⟨f, j, hopen⟩ := openArena_cases limits m
  · rw [hopen] at h
    cases h
    rw [arena_of_build hbuild, arena_withArena_self]
  · rw [hopen] at h
    cases h

/-- Whatever is stored in a new arena, its blocks are as few as the parts of any cut of the builtin
functions and of what is stored after them. -/
theorem exists_isLeast_of_openArena {limits : Limits} {e : Evaluator ArenaRef}
    (h : openArena limits m = .ok e m') (hcap : Closure.maxFootprint ≤ limits.blockCapacity)
    (cs : List (Closure ArenaRef)) : ∃ hs n, cs.mapM (alloc e.site) m' = .ok hs n ∧
      IsLeast {k | ∃ parts, parts.length = k ∧
        Cuts Closure.footprint limits.blockCapacity (Builtin.all.map Builtin.closure ++ cs) parts}
        (n.store.arena e.site).blocks.size := by
  obtain ⟨hs, n, hrun, harena⟩ := exists_mapM_alloc (.of_openArena h) hcap cs
  have hnew := Arena.packed_empty limits.blockCapacity 0
  have hbuiltins := hnew.storeAll hcap (Builtin.all.map Builtin.closure)
  have hpacked := hbuiltins.storeAll (by rwa [Arena.capacity_storeAll]) cs
  have hleast := hpacked.isLeast
  rw [Arena.contents_storeAll, Arena.contents_storeAll, Arena.capacity_storeAll,
    Arena.capacity_storeAll] at hleast
  refine ⟨hs, n, hrun, ?_⟩
  rw [harena, arena_of_openArena h]
  exact hleast

end Arenas

end ChurchStore
