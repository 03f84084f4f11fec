import ChurchStore.Proofs.Demo.Tracking
import ChurchStore.Proofs.Session.Evaluators
import ChurchStore.Proofs.Session.Turns
import ChurchStore.Proofs.Simulation.Company

/-!
# Handles for the builtin functions

An evaluator holds its handles for the builtin functions until it is ended, so these functions stay
where they are, whatever becomes of other closures when handles are misused. For this the handles
that evaluators were opened with have to be told from others for the same places. A store therefore
goes along with itself, where these handles are marked. What the primitive operations keep of the
closure behind a marked handle, as long as one is held, is kept in every run of a session.
-/

namespace ChurchStore

open Session Simulation

variable {W H : Type}

theorem Builtin.mem_all (b : Builtin) : b ∈ all := by
  cases b <;> decide

/-- A store whose handles may bear a mark: it names the builtin function for which an evaluator was
opened with the handle. -/
def Marked (W : Type) : Type := W

/-- The evaluator with marks on its handles. -/
def Evaluator.marked (e : Evaluator H) : Evaluator (H × Option Builtin) where
  site := e.site
  singletons := ⟨(e.singletons.zero, some .zero), (e.singletons.zeroInner, some .zeroInner),
    (e.singletons.succ, some .succ), (e.singletons.inc, some .inc)⟩
  nesting := e.nesting

theorem Evaluator.get_marked (e : Evaluator H) (b : Builtin) :
    e.marked.singletons.get b = (e.singletons.get b, some b) := by
  cases b <;> rfl

/-- A store with marks does what the store does, and makes handles without marks; only resets are
left out. -/
instance [Host W H] : Host (Marked W) (H × Option Builtin) where
  kind := Backend.kind W
  alloc site c := (fun h => (h, none)) <$> (Backend.alloc site (c.map Prod.fst) : Act W H)
  resolve site p := (·.map fun h => (h, none)) <$> (Backend.resolve site p.1 : Act W (Closure H))
  retain p w := Backend.retain (W := W) p.1 w
  release p w := Backend.release (W := W) p.1 w
  same p q := Backend.same W p.1 q.1
  stats site w := Backend.stats (W := W) site w
  handleBytes := Backend.handleBytes W
  initial := (Host.initial : W)
  openWith limits := Evaluator.marked <$> (Host.openWith limits : Act W (Evaluator H))
  reset? := none
  describe p := (Host.describe p.1 : Act W Placement)
  extent site w := Host.extent (W := W) site w
  ledger? site w := Host.ledger? (W := W) site w

/-- The handles that an operation hands over. -/
def Deed.given [Host W H] (site : Site) (m : Machine W) : Deed H → List H
  | .alloc c =>
    match (Backend.alloc site c m : EStateM.Result Fault (Machine W) H) with
    | .ok h _ => [h]
    | .error _ _ => []
  | .resolve h =>
    match (Backend.resolve site h m : EStateM.Result Fault (Machine W) (Closure H)) with
    | .ok c _ => c.captures
    | .error _ _ => []
  | .retain h => [h]
  | .release _ | .describe _ => []

/-- What is looked after in a store. -/
structure Care (W H : Type) where
  Sound : W → Prop
  /-- Handles that may have been made already. -/
  Known : W → H → Prop
  /-- Behind the handle is the builtin function, for which there are at least so many handles. -/
  Stands : W → H → Builtin → Nat → Prop
  /-- What else is to be known of the evaluators. -/
  Seated : W → Evaluator H → Prop

namespace Care

variable [DecidableEq H]

/-- What becomes of a store that takes the handles of `used` and hands over those of `given`. -/
structure Passes (C : Care W H) (w w' : W) (used given : Multiset H) : Prop where
  sound : C.Sound w'
  known {h : H} : C.Known w h → C.Known w' h
  known_given {h : H} : h ∈ given → C.Known w' h
  /-- As long as another handle is held, the closure stays. -/
  stands {h : H} {b : Builtin} {k : Nat} : 0 < k → C.Stands w h b (used.count h + k) →
    C.Stands w' h b (given.count h + k)
  seated {e : Evaluator H} : C.Seated w e → C.Seated w' e

/-- The handles of an evaluator for the builtin functions. -/
def builtins (e : Evaluator H) : Multiset H := Builtin.all.map e.singletons.get

omit [DecidableEq H] in
theorem get_mem_builtins (e : Evaluator H) (b : Builtin) : e.singletons.get b ∈ builtins e :=
  List.mem_map_of_mem b.mem_all

/-- An evaluator has been opened, with new handles. -/
structure Opens (C : Care W H) (w w' : W) (e : Evaluator H) : Prop where
  passes : C.Passes w w' 0 (builtins e)
  fresh {h : H} : h ∈ builtins e → ¬ C.Known w h
  stands (b : Builtin) : C.Stands w' (e.singletons.get b) b
    ((builtins e).count (e.singletons.get b))
  seated : C.Seated w' e

/-- The store looks after the builtin functions with each of its operations. -/
structure Lawful [Host W H] (C : Care W H) : Prop where
  quiet (site : Site) : Host.Quiet W site
  reset_eq : (Host.reset? : Option (Evaluator H → Act W (Evaluator H))) = none
  initial : C.Sound Host.initial
  deed {e : Evaluator H} (deed : Deed H) {m : Machine W} : C.Sound m.store → C.Seated m.store e →
    (∀ h ∈ deed.handles, C.Known m.store h) →
      C.Passes m.store (deed.leaves e.site m) deed.used (deed.given e.site m)
  openWith_ok {limits : Limits} {m m' : Machine W} {e : Evaluator H} : C.Sound m.store →
    Host.openWith limits m = .ok e m' → C.Opens m.store m'.store e
  openWith_error {limits : Limits} {m m' : Machine W} {f : Fault} : C.Sound m.store →
    Host.openWith limits m = .error f m' → C.Passes m.store m'.store 0 0

/-! ### One step after another -/

section Steps

variable {C : Care W H} {w w' w'' : W} {used given given' : Multiset H}

protected theorem Passes.rfl (h : C.Sound w) : C.Passes w w 0 0 where
  sound := h
  known := id
  known_given hh := absurd hh (Multiset.notMem_zero _)
  stands _ hs := hs
  seated := id

theorem Passes.trans (h : C.Passes w w' used given) (h' : C.Passes w' w'' given given') :
    C.Passes w w'' used given' where
  sound := h'.sound
  known hk := h'.known (h.known hk)
  known_given := h'.known_given
  stands hk hs := h'.stands hk (h.stands hk hs)
  seated hs := h'.seated (h.seated hs)

/-- Further handles are held meanwhile. -/
theorem Passes.frame (h : C.Passes w w' used given) (others : Multiset H)
    (hothers : ∀ x ∈ others, C.Known w x) : C.Passes w w' (used + others) (given + others) where
  sound := h.sound
  known := h.known
  known_given hx := by
    rcases Multiset.mem_add.1 hx with hx | hx
    · exact h.known_given hx
    · exact h.known (hothers _ hx)
  stands hk hs := by
    rw [Multiset.count_add, Nat.add_assoc] at hs ⊢
    exact h.stands (Nat.add_pos_right _ hk) hs
  seated := h.seated

/-- A handle is handed over, and further ones after it. -/
theorem Passes.cons {h : H} {l : List H} (hw : C.Passes w w' 0 {h}) (hl : C.Passes w' w'' 0 l) :
    C.Passes w w'' 0 (h :: l : List H) := by
  have hframed := hl.frame {h} fun x hx => hw.known_given hx
  rw [Multiset.zero_add, Multiset.add_comm, Multiset.singleton_add, Multiset.cons_coe] at hframed
  exact hw.trans hframed

/-- Handles are retained one after another. -/
theorem Passes.retainAll [Backend W H]
    (hretain : ∀ {w : W} {h : H}, C.Sound w → C.Known w h → C.Passes w (Backend.retain h w) 0 {h})
    (hw : C.Sound w) (l : List H) (hl : ∀ h ∈ l, C.Known w h) :
    C.Passes w (l.foldl (fun w h => Backend.retain h w) w) 0 l := by
  induction l generalizing w with
  | nil => exact .rfl hw
  | cons h l ih =>
    have hfirst := hretain hw (hl h (List.mem_cons_self ..))
    exact hfirst.cons (ih hfirst.sound fun x hx => hfirst.known (hl x (List.mem_cons_of_mem h hx)))

/-- A builtin function has been stored, behind a new handle. -/
structure Makes (C : Care W H) (w w' : W) (h : H) (b : Builtin) : Prop where
  passes : C.Passes w w' 0 {h}
  fresh : ¬ C.Known w h
  stands : C.Stands w' h b 1

/-- Builtin functions have been stored, one after another. -/
inductive Issues (C : Care W H) : W → List (H × Builtin) → W → Prop where
  | nil {w : W} : C.Sound w → Issues C w [] w
  | cons {w w' w'' : W} {h : H} {b : Builtin} {l : List (H × Builtin)} : C.Makes w w' h b →
    Issues C w' l w'' → Issues C w ((h, b) :: l) w''

namespace Issues

variable {l : List (H × Builtin)}

theorem passes (h : C.Issues w l w') : C.Passes w w' 0 (l.map Prod.fst : List H) := by
  induction h with
  | nil hw => exact .rfl hw
  | cons hmakes _ ih => exact hmakes.passes.cons ih

theorem fresh (h : C.Issues w l w') : ∀ p ∈ l, ¬ C.Known w p.1 := by
  induction h with
  | nil _ => exact fun p hp => by cases hp
  | cons hmakes _ ih =>
    intro p hp
    rcases List.mem_cons.1 hp with rfl | hp
    · exact hmakes.fresh
    · exact fun hk => ih p hp (hmakes.passes.known hk)

/-- The handles are different, since each of them is new. -/
theorem stands (h : C.Issues w l w') :
    ∀ p ∈ l, C.Stands w' p.1 p.2 ((l.map Prod.fst).count p.1) := by
  induction h with
  | nil _ => exact fun p hp => by cases hp
  | cons hmakes hrest ih =>
    intro p hp
    rw [List.map_cons]
    rcases List.mem_cons.1 hp with rfl | hp
    · have hstands := hmakes.stands
      rw [← Nat.zero_add 1] at hstands
      have hafter := hrest.passes.stands Nat.one_pos hstands
      rw [Multiset.coe_count] at hafter
      rwa [List.count_cons_self]
    · have hne : _ ≠ p.1 := fun heq => hrest.fresh p hp
        (heq ▸ hmakes.passes.known_given (Multiset.mem_singleton_self _))
      rw [List.count_cons_of_ne hne]
      exact ih p hp

end Issues

/-- An evaluator is opened by storing the builtin functions where nothing has been stored. -/
theorem Opens.of_issues {e : Evaluator H} (hw : C.Passes w w' 0 0)
    (hi : C.Issues w' (Builtin.all.map fun b => (e.singletons.get b, b)) w'')
    (hs : C.Seated w'' e) : C.Opens w w'' e := by
  have hmap : (Builtin.all.map fun b => (e.singletons.get b, b)).map Prod.fst =
      Builtin.all.map e.singletons.get := by
    rw [List.map_map]
    rfl
  have hpasses := hi.passes
  have hstands := hi.stands
  rw [hmap] at hpasses
  simp only [hmap] at hstands
  refine ⟨hw.trans hpasses, fun hh hk => ?_, fun b => ?_, hs⟩
  · obtain ⟨b, hb, rfl⟩ := List.mem_map.1 hh
    exact hi.fresh _ (List.mem_map_of_mem hb) (hw.known hk)
  · rw [builtins, Multiset.coe_count]
    exact hstands (e.singletons.get b, b) (List.mem_map_of_mem b.mem_all)

end Steps

/-! ### A store and the store with marks -/

/-- A store with marks goes along with the store. All marked handles that are held stand for their
functions, and there are no more handles for these than that. -/
structure Keeps (C : Care W H) (seats : List (Evaluator H)) (w : Marked W) (v : W)
    (held : Multiset ((H × Option Builtin) × H)) : Prop where
  store_eq : w = v
  sound : C.Sound v
  eq_of_mem {p : (H × Option Builtin) × H} : p ∈ held → p.1.1 = p.2
  known {p : (H × Option Builtin) × H} : p ∈ held → C.Known v p.2
  stands {p : (H × Option Builtin) × H} {b : Builtin} : p ∈ held → p.1.2 = some b →
    C.Stands v p.2 b ((held.map Prod.snd).count p.2)
  seated {e : Evaluator H} : e ∈ seats → C.Seated v e

variable {C : Care W H} {seats : List (Evaluator H)} {w : Marked W} {v v' : W}
  {used lent : Multiset ((H × Option Builtin) × H)}

/-- Handles without marks are used up and handed over, or further ones for those that are held. -/
theorem Keeps.pass (h : C.Keeps seats w v (used + lent))
    (given : Multiset ((H × Option Builtin) × H))
    (hp : C.Passes v v' (used.map Prod.snd) (given.map Prod.snd))
    (hgiven : ∀ p ∈ given, p.1.1 = p.2 ∧ (p.1.2.isSome → p ∈ lent)) :
    C.Keeps seats v' v' (given + lent) where
  store_eq := rfl
  sound := hp.sound
  eq_of_mem {p} hmem := by
    rcases Multiset.mem_add.1 hmem with hmem | hmem
    · exact (hgiven p hmem).1
    · exact h.eq_of_mem (Multiset.mem_add.2 (.inr hmem))
  known {p} hmem := by
    rcases Multiset.mem_add.1 hmem with hmem | hmem
    · exact hp.known_given (Multiset.mem_map_of_mem _ hmem)
    · exact hp.known (h.known (Multiset.mem_add.2 (.inr hmem)))
  stands {p b} hmem hb := by
    have hlent : p ∈ lent := by
      rcases Multiset.mem_add.1 hmem with hmem | hmem
      · exact (hgiven p hmem).2 (by rw [hb]; rfl)
      · exact hmem
    have hstands := h.stands (Multiset.mem_add.2 (.inr hlent)) hb
    rw [Multiset.map_add, Multiset.count_add] at hstands ⊢
    exact hp.stands (Multiset.count_pos.2 (Multiset.mem_map_of_mem _ hlent)) hstands
  seated he := hp.seated (h.seated he)

/-- Handles are used up, and none are handed over. -/
theorem Keeps.pass_zero (h : C.Keeps seats w v (used + lent))
    (hp : C.Passes v v' (used.map Prod.snd) 0) : C.Keeps seats v' v' lent := by
  have hkept := h.pass 0 hp fun p hmem => absurd hmem (Multiset.notMem_zero p)
  rwa [Multiset.zero_add] at hkept

namespace Lawful

variable [Host W H] (hC : C.Lawful) {e : Evaluator H} (he : e ∈ seats)

include hC he

/-- Further handles may be held for those that are held already. -/
theorem keeps_retain {p : (H × Option Builtin) × H} (h : C.Keeps seats w v lent) (hp : p ∈ lent) :
    C.Keeps seats (Backend.retain p.1 w) (Backend.retain p.2 v) (p ::ₘ lent) := by
  have hpass := hC.deed (.retain p.2) (m := ⟨v, {}⟩) h.sound (h.seated he) fun x hx => by
    rw [List.mem_singleton.1 hx]
    exact h.known hp
  rw [← Multiset.zero_add lent] at h
  have hkept := h.pass {p} hpass fun q hq => by
    rw [Multiset.mem_singleton.1 hq]
    exact ⟨h.eq_of_mem (Multiset.mem_add.2 (.inr hp)), fun _ => hp⟩
  have hstore : (Backend.retain p.1 w : Marked W) = Backend.retain p.2 v := by
    rw [← h.eq_of_mem (Multiset.mem_add.2 (.inr hp)), ← h.store_eq]
    rfl
  rw [Multiset.singleton_add] at hkept
  exact { hkept with store_eq := hstore }

theorem keeps_release {p : (H × Option Builtin) × H} (h : C.Keeps seats w v (p ::ₘ lent)) :
    C.Keeps seats (Backend.release p.1 w) (Backend.release p.2 v) lent := by
  have hmem := Multiset.mem_cons_self p lent
  have hpass := hC.deed (.release p.2) (m := ⟨v, {}⟩) h.sound (h.seated he) fun x hx => by
    rw [List.mem_singleton.1 hx]
    exact h.known hmem
  have hstore : (Backend.release p.1 w : Marked W) = Backend.release p.2 v := by
    rw [← h.eq_of_mem hmem, ← h.store_eq]
    rfl
  rw [← Multiset.singleton_add] at h
  exact { h.pass_zero hpass with store_eq := hstore }

/-- The captures of a closure are used up, and a handle without a mark is handed over. -/
theorem coupled_alloc (c : Closure ((H × Option Builtin) × H))
    (lent : Multiset ((H × Option Builtin) × H)) :
    Coupled (fun m n => C.Keeps seats m.store n.store (c.captures + lent))
      (Backend.alloc e.site (c.map Prod.fst) : Act (Marked W) (H × Option Builtin))
      (Backend.alloc e.site (c.map Prod.snd) : Act W H)
      (fun a b m n => C.Keeps seats m.store n.store ((a, b) ::ₘ lent))
      (fun _ m n => True ∧ C.Keeps seats m.store n.store lent) := by
  intro m n h
  have hmap : (c.map Prod.fst).map Prod.fst = c.map Prod.snd := by
    rw [Closure.map_map]
    exact Closure.map_congr fun p hp => h.eq_of_mem (Multiset.mem_add.2 (.inl hp))
  have hused : ((c.captures : Multiset ((H × Option Builtin) × H)).map Prod.snd) =
      ((c.map Prod.snd).captures : Multiset H) := by
    rw [Closure.captures_map, Multiset.map_coe]
  have hpass := hC.deed (.alloc (c.map Prod.snd)) (m := n) h.sound (h.seated he) fun x hx => by
    rw [Deed.handles, Closure.captures_map] at hx
    obtain ⟨p, hp, rfl⟩ := List.mem_map.1 hx
    exact h.known (Multiset.mem_add.2 (.inl hp))
  simp only [Deed.used, ← hused, Deed.leaves, Deed.given] at hpass
  simp only [Backend.alloc, Functor.map, EStateM.map, hmap]
  obtain ⟨a, b, m', n', hx, hy, rfl, hstore⟩ | ⟨f, m', n', hx, hy, hstore⟩ :=
    Coupled.cases ((hC.quiet e.site).alloc (c.map Prod.snd)) (s := m) (t := n) h.store_eq
  · rw [Act.leaves_of_ok hy] at hpass
    simp only [hx, hy] at hpass ⊢
    have hkept := h.pass {((a, none), a)} hpass fun p hp => by
      rw [Multiset.mem_singleton.1 hp]
      exact ⟨rfl, fun hnone => by cases hnone⟩
    rw [Multiset.singleton_add] at hkept
    exact { hkept with store_eq := hstore }
  · rw [Act.leaves_of_error hy] at hpass
    simp only [hx, hy] at hpass ⊢
    exact ⟨trivial, trivial, { h.pass_zero hpass with store_eq := hstore }⟩

/-- The captures of a closure that is looked at are handed over, without marks. -/
theorem coupled_resolve {p : (H × Option Builtin) × H}
    {lent : Multiset ((H × Option Builtin) × H)} (hp : p ∈ lent) :
    Coupled (fun m n => C.Keeps seats m.store n.store lent)
      (Backend.resolve e.site p.1 : Act (Marked W) (Closure (H × Option Builtin)))
      (Backend.resolve e.site p.2 : Act W (Closure H))
      (fun a b m n => ∃ c : Closure ((H × Option Builtin) × H), a = c.map Prod.fst ∧
        b = c.map Prod.snd ∧ C.Keeps seats m.store n.store (c.captures + lent))
      (fun _ m n => True ∧ C.Keeps seats m.store n.store lent) := by
  intro m n h
  have heq := h.eq_of_mem hp
  have hpass := hC.deed (.resolve p.2) (m := n) h.sound (h.seated he) fun x hx => by
    rw [List.mem_singleton.1 hx]
    exact h.known hp
  simp only [Deed.used, Deed.leaves, Deed.given] at hpass
  simp only [Backend.resolve, Functor.map, EStateM.map, heq]
  rw [← Multiset.zero_add lent] at h
  obtain ⟨c, _, m', n', hx, hy, rfl, hstore⟩ | ⟨f, m', n', hx, hy, hstore⟩ :=
    Coupled.cases ((hC.quiet e.site).resolve p.2) (s := m) (t := n) h.store_eq
  · rw [Act.leaves_of_ok hy] at hpass
    simp only [hx, hy] at hpass ⊢
    let pairs := c.map fun x => ((x, (none : Option Builtin)), x)
    have hgiven : ((pairs.captures : Multiset ((H × Option Builtin) × H)).map Prod.snd) =
        (c.captures : Multiset H) := by
      rw [Multiset.map_coe, Closure.captures_map, List.map_map]
      exact congrArg _ (List.map_id _)
    rw [← hgiven] at hpass
    have hkept := h.pass _ hpass fun q hq => by
      rw [Multiset.mem_coe, Closure.captures_map] at hq
      obtain ⟨x, -, rfl⟩ := List.mem_map.1 hq
      exact ⟨rfl, fun hnone => by cases hnone⟩
    refine ⟨pairs, ?_, ?_, { hkept with store_eq := hstore }⟩
    · rw [Closure.map_map]
      rfl
    · rw [Closure.map_map]
      exact (Closure.map_eq_self fun _ _ => rfl).symm
  · rw [Act.leaves_of_error hy] at hpass
    simp only [hx, hy] at hpass ⊢
    exact ⟨trivial, trivial, { h.pass_zero hpass with store_eq := hstore }⟩

theorem coupled_describe {p : (H × Option Builtin) × H}
    {lent : Multiset ((H × Option Builtin) × H)} (hp : p ∈ lent) :
    Coupled (fun m n => C.Keeps seats m.store n.store lent)
      (Host.describe p.1 : Act (Marked W) Placement) (Host.describe p.2 : Act W Placement)
      (fun _ _ m n => C.Keeps seats m.store n.store lent)
      (fun _ m n => True ∧ C.Keeps seats m.store n.store lent) := by
  intro m n h
  have heq := h.eq_of_mem hp
  have hpass := hC.deed (.describe p.2) (m := n) h.sound (h.seated he) fun x hx => by
    rw [List.mem_singleton.1 hx]
    exact h.known hp
  simp only [Deed.used, Deed.leaves, Deed.given] at hpass
  simp only [Host.describe, heq]
  rw [← Multiset.zero_add lent] at h
  have hkept := h.pass_zero hpass
  obtain ⟨a, _, m', n', hx, hy, -, hstore⟩ | ⟨f, m', n', hx, hy, hstore⟩ :=
    Coupled.cases ((hC.quiet e.site).describe p.2) (s := m) (t := n) h.store_eq
  · rw [Act.leaves_of_ok hy] at hkept
    simp only [hx, hy]
    exact { hkept with store_eq := hstore }
  · rw [Act.leaves_of_error hy] at hkept
    simp only [hx, hy]
    exact ⟨trivial, trivial, { hkept with store_eq := hstore }⟩

end Lawful

/-- A store goes along with itself, whichever evaluator is at work. -/
def simulation [Host W H] (hC : C.Lawful) {e : Evaluator H} (he : e ∈ seats) :
    Simulation (Marked W) W where
  left := e.site
  right := e.site
  Rel := C.Keeps seats
  Faulty _ := True
  retain := hC.keeps_retain he
  release := hC.keeps_release he
  alloc := hC.coupled_alloc he
  resolve := hC.coupled_resolve he
  same h hp hq := by
    rw [← h.eq_of_mem hp, ← h.eq_of_mem hq]
    rfl
  describe := hC.coupled_describe he
  handleBytes_eq := rfl

/-- The handles of a new evaluator are new, so there are no others for its functions. -/
theorem Keeps.opens {e : Evaluator H} (h : C.Keeps seats w v lent) (ho : C.Opens v v' e) :
    C.Keeps (seats ++ [e]) v' v' (lent + (builtinPairs e.marked e : List _)) := by
  have hpairs {p : (H × Option Builtin) × H} (hp : p ∈ builtinPairs e.marked e) :
      ∃ b, p = ((e.singletons.get b, some b), e.singletons.get b) := by
    obtain ⟨b, -, rfl⟩ := List.mem_map.1 hp
    exact ⟨b, by rw [Evaluator.get_marked]⟩
  have hmap : ((builtinPairs e.marked e : List _) :
      Multiset ((H × Option Builtin) × H)).map Prod.snd = builtins e := rfl
  constructor
  case store_eq => rfl
  case sound => exact ho.passes.sound
  case eq_of_mem =>
    intro p hp
    rcases Multiset.mem_add.1 hp with hp | hp
    · exact h.eq_of_mem hp
    · obtain ⟨b, rfl⟩ := hpairs hp
      rfl
  case known =>
    intro p hp
    rcases Multiset.mem_add.1 hp with hp | hp
    · exact ho.passes.known (h.known hp)
    · obtain ⟨b, rfl⟩ := hpairs hp
      exact ho.passes.known_given (get_mem_builtins e b)
  case stands =>
    intro p b hp hb
    rw [Multiset.map_add, Multiset.count_add, hmap]
    rcases Multiset.mem_add.1 hp with hp | hp
    · have hstands := h.stands hp hb
      rw [← Nat.zero_add (Multiset.count _ _), ← Multiset.count_zero p.2] at hstands
      rw [Nat.add_comm]
      exact ho.passes.stands (Multiset.count_pos.2 (Multiset.mem_map_of_mem _ hp)) hstands
    · obtain ⟨b', rfl⟩ := hpairs hp
      cases hb
      have hnone : (lent.map Prod.snd).count (e.singletons.get b) = 0 := by
        refine Multiset.count_eq_zero.2 fun hmem => ?_
        obtain ⟨q, hq, heq⟩ := Multiset.mem_map.1 hmem
        exact ho.fresh (get_mem_builtins e b) (heq ▸ h.known hq)
      rw [hnone, Nat.zero_add]
      exact ho.stands b
  case seated =>
    intro d hd
    rcases List.mem_append.1 hd with hd | hd
    · exact ho.passes.seated (h.seated hd)
    · rw [List.mem_singleton.1 hd]
      exact ho.seated

/-! ### Sessions -/

variable {partners : List (Partners (H × Option Builtin) H)}
  {bindings : Std.TreeMap Name ((H × Option Builtin) × H)}
  {s : Session (Marked W) (H × Option Builtin)} {t : Session W H}

/-- A session goes along with one in which the handles of the evaluators are marked. -/
structure Attends (C : Care W H) (partners : List (Partners (H × Option Builtin) H))
    (bindings : Std.TreeMap Name ((H × Option Builtin) × H))
    (s : Session (Marked W) (H × Option Builtin)) (t : Session W H) : Prop where
  company : Company (C.Keeps (partners.map Partners.right)) partners bindings s t
  left_eq {p : Partners (H × Option Builtin) H} : p ∈ partners → p.left = p.right.marked
  bindings_of_nil : partners = [] → ∀ name : Name, bindings[name]? = none

/-- The session may have changed in its store, as long as that goes along with a store with
marks. -/
theorem Attends.of_keeps (h : C.Attends partners bindings s t) {t' : Session W H}
    (hseats : t'.seats = t.seats) (hbindings : t'.bindings = t.bindings)
    (hkeeps : C.Keeps (partners.map Partners.right) w t'.machine.store
      ((bindings.values : Multiset ((H × Option Builtin) × H)) +
        (partners.flatMap Partners.handles : List ((H × Option Builtin) × H)))) :
    C.Attends partners bindings ⟨⟨w, {}⟩, s.seats, s.bindings⟩ t' where
  company :=
    { h.company with
      seats_right := hseats.trans h.company.seats_right
      bindings_right := by
        rw [hbindings]
        exact h.company.bindings_right
      holds := hkeeps }
  left_eq := h.left_eq
  bindings_of_nil := h.bindings_of_nil

theorem Attends.mem_partners (h : C.Attends partners bindings s t) {number : Nat} {e : Evaluator H}
    (he : t.seats[number]? = some ⟨e, true⟩) : ⟨e.marked, e, true⟩ ∈ partners := by
  rw [h.company.seats_right, List.getElem?_toArray, List.getElem?_map] at he
  obtain ⟨⟨d, e, isOpen⟩, hp, hseat⟩ := Option.map_eq_some_iff.1 he
  cases hseat
  have hmem := List.mem_of_getElem? hp
  obtain rfl : d = e.marked := h.left_eq hmem
  exact hmem

omit [DecidableEq H] in
/-- An evaluator that has not been ended holds its handles for the builtin functions. -/
theorem mem_held (bindings : Std.TreeMap Name ((H × Option Builtin) × H)) {e : Evaluator H}
    (he : (⟨e.marked, e, true⟩ : Partners _ _) ∈ partners) (b : Builtin) :
    (e.marked.singletons.get b, e.singletons.get b) ∈
      (bindings.values : Multiset ((H × Option Builtin) × H)) +
        (partners.flatMap Partners.handles : List ((H × Option Builtin) × H)) :=
  Multiset.mem_add.2 (.inr (List.mem_flatMap.2 ⟨_, he, mem_builtinPairs e.marked e b⟩))

variable [Host W H]

/-- What changes neither evaluators nor variables. -/
theorem Attends.step_of_keeps (h : C.Attends partners bindings s t) {number : Nat}
    {command : Command} (hplay : ChurchStore.Upholds
      (fun t : Session W H => ∃ s, C.Attends partners bindings s t)
      (fun _ t => ∃ s, C.Attends partners bindings s t) (fun _ => True)
      (perform number command)) : ∃ partners' bindings' s',
      C.Attends partners' bindings' s' (t.step number (some command)).2 := by
  obtain ⟨t', ⟨s', h'⟩, hstep⟩ := exists_step_of_keeps hplay ⟨s, h⟩
  rw [hstep]
  exact ⟨partners, bindings, _, h'.of_keeps rfl rfl h'.company.holds⟩

variable (hC : C.Lawful)

include hC

/-- An operation for any evaluator. -/
theorem Attends.step (h : C.Attends partners bindings s t) (number : Nat) {command : Command}
    (hc : command.isOperation = true) : ∃ partners' bindings' s',
      C.Attends partners' bindings' s' (t.step number (some command)).2 := by
  by_cases hne : partners = []
  · subst hne
    have ht := step_of_unopened h.company.seats_right
      (fun name => by rw [h.company.bindings_right, h.bindings_of_nil rfl]; rfl) number (.inl hc)
    rw [ht.2]
    exact ⟨[], bindings, s, { h with company := { h.company with } }⟩
  obtain ⟨p₀, hp₀⟩ := List.exists_mem_of_ne_nil partners hne
  obtain ⟨p, hp, isOpen, hsits⟩ := Partners.exists_sits hp₀ number
  have hleft := h.left_eq hp
  obtain ⟨⟨isOpen', bindings', hstep⟩, -⟩ :=
    Company.step (S := simulation hC (List.mem_map_of_mem hp)) h.company hsits
      ⟨by rw [hleft]; rfl, rfl, by rw [hleft]; rfl⟩ hc
  refine ⟨partners.set number { p with isOpen := isOpen' }, bindings',
    (s.step number (some command)).2, ?_, fun hq => ?_, fun hnil => ?_⟩
  · have hright : (partners.set number { p with isOpen := isOpen' }).map Partners.right =
        partners.map Partners.right := by
      rw [List.map_set, ← hsits.1, List.map_set, List.set_set]
    rw [hright]
    exact hstep
  · rcases List.mem_or_eq_of_mem_set hq with hq | rfl
    · exact h.left_eq hq
    · exact hleft
  · exact absurd ((List.set_eq_nil_iff _ _).1 hnil) hne

/-- A further evaluator is opened, or cannot be opened. -/
theorem Attends.step_new (h : C.Attends partners bindings s t) (number : Nat) (limits : Limits) :
    ∃ partners' bindings' s',
      C.Attends partners' bindings' s' (t.step number (some (.new limits))).2 := by
  have hkeeps := h.company.holds
  cases hrun : Host.openWith limits t.machine with
  | ok e m =>
    have hopened := hkeeps.opens (hC.openWith_ok hkeeps.sound hrun)
    rw [(step_new_of_ok hrun number).2]
    refine ⟨partners ++ [⟨e.marked, e, true⟩], bindings,
      ⟨⟨m.store, {}⟩, s.seats.push ⟨e.marked, true⟩, s.bindings⟩, ?_, fun hp => ?_, fun hnil => ?_⟩
    · refine ⟨?_, ?_, h.company.bindings_left, h.company.bindings_right, ?_⟩
      · simp [h.company.seats_left, Partners.seatLeft]
      · simp [h.company.seats_right, Partners.seatRight]
      · rw [List.flatMap_append, ← Multiset.coe_add, List.flatMap_singleton, ← Multiset.add_assoc,
          List.map_append]
        exact hopened
    · rcases List.mem_append.1 hp with hp | hp
      · exact h.left_eq hp
      · rw [List.mem_singleton.1 hp]
    · simp at hnil
  | error f m =>
    have hpass := hC.openWith_error hkeeps.sound hrun
    rw [← Multiset.zero_add (_ + _)] at hkeeps
    have hkept := hkeeps.pass_zero hpass
    have hstep : (t.step number (some (.new limits))).2 =
        ⟨{ m with journal.events := #[] }, t.seats, t.bindings⟩ := by
      simp only [Session.step, Option.elim_some, perform, Bind.bind, EStateM.bind, act, hrun]
    rw [hstep]
    exact ⟨partners, bindings, _, h.of_keeps rfl rfl hkept⟩

/-- A demo gives back whatever it was handed, also where it stops. -/
theorem keeps_demo (partners : List (Partners (H × Option Builtin) H))
    (bindings : Std.TreeMap Name ((H × Option Builtin) × H)) (number : Nat) (options : DemoOptions)
    (palette : Report.Palette) (limit : Option Nat) :
    ChurchStore.Upholds (fun t : Session W H => ∃ s, C.Attends partners bindings s t)
      (fun _ t => ∃ s, C.Attends partners bindings s t) (fun _ => True)
      (perform number (.demo options palette limit)) := by
  refine (keeps_evaluator (P := fun e => (⟨e.marked, e, true⟩ : Partners _ _) ∈ partners) number
    fun t e ⟨s, h⟩ he => h.mem_partners he).bind fun e he t ⟨s, h⟩ => ?_
  have hseat : e ∈ partners.map Partners.right := List.mem_map_of_mem he
  have hserves : (simulation hC hseat).Serves e.marked e
      ((bindings.values : Multiset ((H × Option Builtin) × H)) +
        (partners.flatMap Partners.handles : List ((H × Option Builtin) × H))) :=
    ⟨rfl, rfl, rfl, mem_held bindings he⟩
  have hkeeps := h.company.holds
  rw [← Multiset.zero_add (_ + _)] at hkeeps
  have hdemo := hserves.tracks_demo options (fun _ => 0) s.machine.store
    ⟨t.machine, { palette, sink := { limit } }⟩ hkeeps
  simp only [playDemo]
  cases hrun : Demo.run e options (fun _ => 0) ⟨t.machine, { palette, sink := { limit } }⟩ with
  | ok a stage =>
    rw [hrun] at hdemo
    obtain ⟨w', _, rfl, hkeeps'⟩ := hdemo
    rw [Multiset.zero_add] at hkeeps'
    exact ⟨trivial, _, h.of_keeps rfl rfl hkeeps'⟩
  | error halt stage =>
    rw [hrun] at hdemo
    obtain ⟨w', hkeeps'⟩ := hdemo
    cases halt with
    | write e => exact ⟨trivial, _, h.of_keeps rfl rfl hkeeps'⟩
    | fault f => exact ⟨_, h.of_keeps rfl rfl hkeeps'⟩

theorem Attends.afterTurns (h : C.Attends partners bindings s t) (turns : List (Nat × Command)) :
    ∃ partners' bindings' s', C.Attends partners' bindings' s' (t.afterTurns turns) := by
  induction turns generalizing partners bindings s t with
  | nil => exact ⟨partners, bindings, s, h⟩
  | cons turn turns ih =>
    have hstep : ∃ partners' bindings' s',
        C.Attends partners' bindings' s' (t.step turn.1 (some turn.2)).2 := by
      obtain ⟨number, command⟩ := turn
      cases command with
      | new limits => exact h.step_new hC number limits
      | stats | extent | ledger => exact h.step_of_keeps (keeps_report number rfl)
      | reset => exact h.step_of_keeps (keeps_reset_of_none hC.reset_eq number)
      | demo options palette limit =>
        exact h.step_of_keeps (keeps_demo hC partners bindings number options palette limit)
      | _ => exact h.step hC number rfl
    obtain ⟨_, _, _, hstep⟩ := hstep
    exact ih hstep

/-- Whatever is done in turn, the builtin functions of an evaluator that has not been ended stand
behind its handles. -/
theorem Lawful.afterTurns (filter : Log.Filter) {turns : List (Nat × Command)} {number : Nat}
    {e : Evaluator H}
    (he : ((start filter : Session W H).afterTurns turns).seats[number]? = some ⟨e, true⟩) :
    let w := ((start filter : Session W H).afterTurns turns).machine.store
    C.Sound w ∧ C.Seated w e ∧ ∀ b, ∃ k, 0 < k ∧ C.Stands w (e.singletons.get b) b k := by
  intro w
  have hstart : C.Attends [] {} (start filter) (start filter) := by
    refine ⟨⟨rfl, rfl, fun _ => by simp [start], fun _ => by simp [start], ?_⟩, nofun,
      fun _ _ => by simp⟩
    exact ⟨rfl, hC.initial, nofun, nofun, nofun, nofun⟩
  obtain ⟨partners, bindings, s, h⟩ := hstart.afterTurns hC turns
  have hmem := h.mem_partners he
  refine ⟨h.company.holds.sound, h.company.holds.seated (List.mem_map_of_mem hmem), fun b => ?_⟩
  have hheld := mem_held bindings hmem b
  have hmark : (e.marked.singletons.get b).2 = some b := by rw [Evaluator.get_marked]
  exact ⟨_, Multiset.count_pos.2 (Multiset.mem_map_of_mem Prod.snd hheld),
    h.company.holds.stands hheld hmark⟩

end Care

end ChurchStore
