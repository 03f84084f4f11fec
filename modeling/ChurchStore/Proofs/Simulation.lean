import ChurchStore.Numeral
import ChurchStore.Proofs.Coupling
import Mathlib.Data.Multiset.AddSub

/-!
# Simulation between stores

A simulation relates two stores together with the multiset of all pairs of handles that are held
for the same values. Handles are owners, so the multiset changes exactly as handles are duplicated,
given back, put into a new closure or taken out of one. A handle that is held belongs to the caller
(`owned`) or is only lent to the operation (`lent`): what an operation owns is used up, also where
it stops, and what it was lent is there afterwards.

If the primitive operations of two stores agree in this sense then so do all operations of the
evaluator, which raise no faults but those of the primitive operations and of evaluation itself.
-/

namespace ChurchStore

/-- The faults that evaluation raises by itself, on whatever store. -/
def Fault.isEvaluation : Fault → Bool
  | .violation (.notApplicable _) | .violation (.notNumeric _) | .violation (.integerOverflow _)
  | .capacityOverflow | .nestingLimit => true
  | _ => false

namespace Closure

variable {H K L : Type}

theorem map_congr {f g : H → K} {c : Closure H} (h : ∀ x ∈ c.captures, f x = g x) :
    c.map f = c.map g := by
  cases c with
  | succPartial n => simp [map, h n (by simp [captures])]
  | succInner n s => simp [map, h n (by simp [captures]), h s (by simp [captures])]
  | zero | zeroInner | succ | intLiteral | inc => rfl

theorem map_eq_self {f : H → H} {c : Closure H} (h : ∀ x ∈ c.captures, f x = x) : c.map f = c := by
  cases c with
  | succPartial n => simp [map, h n (by simp [captures])]
  | succInner n s => simp [map, h n (by simp [captures]), h s (by simp [captures])]
  | zero | zeroInner | succ | intLiteral | inc => rfl

theorem footprint_map (f : H → K) (c : Closure H) : (c.map f).footprint = c.footprint :=
  congrArg Kind.footprint (kind_map f c)

theorem map_map (f : H → K) (g : K → L) (c : Closure H) : (c.map f).map g = c.map (g ∘ f) := by
  cases c <;> rfl

/-- Pairs of equal captures. -/
theorem map_diag {f : H × H → H} (hf : ∀ x, f (x, x) = x) (c : Closure H) :
    (c.map fun x => (x, x)).map f = c := by
  rw [map_map]
  exact map_eq_self fun x _ => hf x

end Closure

theorem Builtin.captures_closure {H : Type} (b : Builtin) :
    (b.closure : Closure H).captures = [] := by
  cases b <;> rfl

theorem Builtin.map_closure {H K : Type} (f : H → K) (b : Builtin) :
    (b.closure : Closure H).map f = b.closure := by
  cases b <;> rfl

/-- Two stores in which the primitive operations of one evaluator of each agree. -/
structure Simulation (W V : Type) {H G : Type} [Host W H] [Host V G] where
  /-- The evaluator of the first store. -/
  left : Site
  /-- The evaluator of the second store. -/
  right : Site
  /-- Two stores, and all pairs of handles that are held for the same values. -/
  Rel : W → V → Multiset (H × G) → Prop
  /-- The faults that the primitive operations raise. -/
  Faulty : Fault → Prop
  retain {w : W} {v : V} {held : Multiset (H × G)} {p : H × G} :
    Rel w v held → p ∈ held → Rel (Backend.retain p.1 w) (Backend.retain p.2 v) (p ::ₘ held)
  release {w : W} {v : V} {held : Multiset (H × G)} {p : H × G} :
    Rel w v (p ::ₘ held) → Rel (Backend.release p.1 w) (Backend.release p.2 v) held
  alloc (c : Closure (H × G)) (lent : Multiset (H × G)) :
    Coupled (fun m n => Rel m.store n.store (c.captures + lent))
      (Backend.alloc left (c.map Prod.fst)) (Backend.alloc right (c.map Prod.snd))
      (fun a b m n => Rel m.store n.store ((a, b) ::ₘ lent))
      (fun f m n => Faulty f ∧ Rel m.store n.store lent)
  resolve {p : H × G} {lent : Multiset (H × G)} : p ∈ lent →
    Coupled (fun m n => Rel m.store n.store lent)
      (Backend.resolve left p.1) (Backend.resolve right p.2)
      (fun a b m n => ∃ c : Closure (H × G), a = c.map Prod.fst ∧ b = c.map Prod.snd ∧
        Rel m.store n.store (c.captures + lent))
      (fun f m n => Faulty f ∧ Rel m.store n.store lent)
  same {w : W} {v : V} {held : Multiset (H × G)} {p q : H × G} :
    Rel w v held → p ∈ held → q ∈ held → Backend.same W p.1 q.1 = Backend.same V p.2 q.2
  describe {p : H × G} {lent : Multiset (H × G)} : p ∈ lent →
    Coupled (fun m n => Rel m.store n.store lent)
      (Host.describe p.1 : Act W Placement) (Host.describe p.2 : Act V Placement)
      (fun _ _ m n => Rel m.store n.store lent)
      (fun f m n => Faulty f ∧ Rel m.store n.store lent)
  handleBytes_eq : Backend.handleBytes W = Backend.handleBytes V

namespace Simulation

variable {W V H G : Type} [Host W H] [Host V G]

/-- Two machines whose stores are related. -/
def Holds (S : Simulation W V) (held : Multiset (H × G)) (m : Machine W) (n : Machine V) : Prop :=
  S.Rel m.store n.store held

/-- The faults that operations of the evaluators raise. -/
def Raises (S : Simulation W V) (f : Fault) : Prop := f.isEvaluation = true ∨ S.Faulty f

/-- Two operations agree: they use up the handles that they own, they leave those that they were
lent, and `result` says which handles the caller owns with the answers. -/
def Agree {α β : Type} (S : Simulation W V) (owned lent : Multiset (H × G)) (x : Act W α)
    (y : Act V β) (result : α → β → Multiset (H × G) → Prop) : Prop :=
  Coupled (S.Holds (owned + lent)) x y
    (fun a b m n => ∃ held, result a b held ∧ S.Holds (held + lent) m n)
    (fun f m n => S.Raises f ∧ S.Holds lent m n)

/-- The answers are handles, which the caller owns. -/
def Handed (a : H) (b : G) (held : Multiset (H × G)) : Prop := held = {(a, b)}

/-- The answers are equal and hand nothing over. -/
def Shown {α : Type} (a b : α) (held : Multiset (H × G)) : Prop := a = b ∧ held = 0

/-- The answers are closures whose captures the caller owns. -/
def Opened (a : Closure H) (b : Closure G) (held : Multiset (H × G)) : Prop :=
  ∃ c : Closure (H × G), a = c.map Prod.fst ∧ b = c.map Prod.snd ∧ held = c.captures

/-- The answers are closures of one shape and hand nothing over. -/
def Outlined (a : Closure H) (b : Closure G) (held : Multiset (H × G)) : Prop :=
  ∃ c : Closure (H × G), a = c.map Prod.fst ∧ b = c.map Prod.snd ∧ held = 0

/-- The answers are tables of handles, which the caller owns. -/
def Tabled (a : Array H) (b : Array G) (held : Multiset (H × G)) : Prop :=
  ∃ l : List (H × G), a.toList = l.map Prod.fst ∧ b.toList = l.map Prod.snd ∧ held = l

namespace Agree

variable {α β γ δ : Type} {S : Simulation W V} {owned lent : Multiset (H × G)}
  {x : Act W α} {y : Act V β} {result : α → β → Multiset (H × G) → Prop} {p : H × G}

theorem weaken {result' : α → β → Multiset (H × G) → Prop} (h : S.Agree owned lent x y result)
    (hr : ∀ a b held, result a b held → result' a b held) : S.Agree owned lent x y result' :=
  Coupled.weaken h (fun _ _ h => h)
    (fun _ _ _ _ ⟨held, h, hh⟩ => ⟨held, hr _ _ held h, hh⟩) fun _ _ _ h => h

/-- What two operations that are only lent something come to. -/
theorem cases (h : S.Agree 0 lent x y result) {m : Machine W} {n : Machine V}
    (hmn : S.Holds lent m n) :
    (∃ a b m' n' given, x m = .ok a m' ∧ y n = .ok b n' ∧ result a b given ∧
      S.Holds (given + lent) m' n') ∨
      ∃ f m' n', x m = .error f m' ∧ y n = .error f n' ∧ S.Raises f ∧ S.Holds lent m' n' := by
  have hpre : S.Holds (0 + lent) m n := by rwa [Multiset.zero_add]
  obtain ⟨a, b, m', n', hx, hy, given, hr, hmn'⟩ | herror := Coupled.cases h hpre
  · exact .inl ⟨a, b, m', n', given, hx, hy, hr, hmn'⟩
  · exact .inr herror

theorem pure {a : α} {b : β} (h : result a b owned) :
    S.Agree owned lent (Pure.pure a) (Pure.pure b) result :=
  Coupled.pure fun _ _ hmn => ⟨owned, h, hmn⟩

theorem throw (f : Fault) (hf : f.isEvaluation = true) :
    S.Agree 0 lent (MonadExcept.throw f : Act W α) (MonadExcept.throw f : Act V β) result :=
  Coupled.throw fun m n hmn => ⟨.inl hf, by simpa using hmn⟩

theorem violate (v : Violation) (hv : (Fault.violation v).isEvaluation = true) :
    S.Agree 0 lent (Act.violate v : Act W α) (Act.violate v : Act V β) result :=
  Coupled.of_error fun m n hmn => ⟨_, _, _, rfl, rfl, .inl hv, by simpa [Holds] using hmn⟩

theorem bind {result' : γ → δ → Multiset (H × G) → Prop} {k : α → Act W γ} {l : β → Act V δ}
    (h : S.Agree owned lent x y result)
    (hk : ∀ a b held, result a b held → S.Agree held lent (k a) (l b) result') :
    S.Agree owned lent (x >>= k) (y >>= l) result' := by
  refine Coupled.bind h fun a b m n => ?_
  rintro ⟨held, hr, hmn⟩
  exact hk a b held hr m n hmn

/-- A handle that is given back at the end is lent meanwhile. -/
theorem holding (p : H × G) (h : S.Agree owned (p ::ₘ lent) x y result) :
    S.Agree (p ::ₘ owned) lent (Backend.holding p.1 x) (Backend.holding p.2 y) result := by
  intro m n hmn
  rw [Multiset.cons_add, ← Multiset.add_cons] at hmn
  obtain ⟨a, b, m', n', hx, hy, held, hr, hmn'⟩ | ⟨f, m', n', hx, hy, hf, hmn'⟩ :=
    Coupled.cases h hmn
  · simp only [Backend.holding, Act.ensuring, hx, hy]
    rw [Multiset.add_cons] at hmn'
    exact ⟨held, hr, S.release hmn'⟩
  · simp only [Backend.holding, Act.ensuring, hx, hy]
    exact ⟨trivial, hf, S.release hmn'⟩

/-- A handle that is given back after a fault only is lent meanwhile and owned afterwards. -/
theorem onFault (p : H × G) (h : S.Agree owned (p ::ₘ lent) x y result) :
    S.Agree (p ::ₘ owned) lent (Act.onFault (Backend.release p.1) x)
      (Act.onFault (Backend.release p.2) y)
      fun a b held => ∃ rest, result a b rest ∧ held = p ::ₘ rest := by
  intro m n hmn
  rw [Multiset.cons_add, ← Multiset.add_cons] at hmn
  obtain ⟨a, b, m', n', hx, hy, held, hr, hmn'⟩ | ⟨f, m', n', hx, hy, hf, hmn'⟩ :=
    Coupled.cases h hmn
  · simp only [Act.onFault, hx, hy]
    refine ⟨p ::ₘ held, ⟨held, hr, rfl⟩, ?_⟩
    rwa [Multiset.add_cons, ← Multiset.cons_add] at hmn'
  · simp only [Act.onFault, hx, hy]
    exact ⟨trivial, hf, S.release hmn'⟩

theorem clone (h : p ∈ owned + lent) :
    S.Agree owned lent (Backend.clone p.1) (Backend.clone p.2)
      fun a b held => (a, b) = p ∧ held = p ::ₘ owned := by
  refine Coupled.of_ok fun m n hmn => ⟨_, _, _, _, rfl, rfl, p ::ₘ owned, ⟨rfl, rfl⟩, ?_⟩
  rw [Multiset.cons_add]
  exact S.retain hmn h

/-- A lent handle is duplicated for the caller. -/
theorem clone_lent (h : p ∈ lent) :
    S.Agree 0 lent (Backend.clone p.1) (Backend.clone p.2) Handed :=
  weaken (clone (by simpa using h)) fun _ _ _ ⟨hp, hh⟩ => by rw [Handed, hh, hp]; rfl

theorem alloc (c : Closure (H × G)) (h : owned = c.captures) :
    S.Agree owned lent (Backend.alloc S.left (c.map Prod.fst))
      (Backend.alloc S.right (c.map Prod.snd)) Handed :=
  Coupled.weaken (S.alloc c lent) (fun _ _ hmn => by rwa [h] at hmn)
    (fun a b _ _ hmn => ⟨{(a, b)}, rfl, by rwa [Holds, Multiset.singleton_add]⟩)
    fun _ _ _ ⟨hf, hmn⟩ => ⟨.inr hf, hmn⟩

theorem resolve (h : p ∈ lent) :
    S.Agree 0 lent (Backend.resolve S.left p.1) (Backend.resolve S.right p.2) Opened :=
  Coupled.weaken (S.resolve h) (fun _ _ hmn => by simpa [Holds] using hmn)
    (fun _ _ _ _ ⟨c, ha, hb, hmn⟩ => ⟨c.captures, ⟨c, ha, hb, rfl⟩, hmn⟩)
    fun _ _ _ ⟨hf, hmn⟩ => ⟨.inr hf, hmn⟩

end Agree

variable {S : Simulation W V} {lent : Multiset (H × G)} {p : H × G}

theorem rel_releaseAll {w : W} {v : V} (l : List (H × G)) (h : S.Rel w v (l + lent)) :
    S.Rel (Backend.releaseAll (l.map Prod.fst) w) (Backend.releaseAll (l.map Prod.snd) v) lent := by
  induction l generalizing w v with
  | nil => simpa [Backend.releaseAll] using h
  | cons p l ih =>
    rw [← Multiset.cons_coe, Multiset.cons_add] at h
    exact ih (S.release h)

/-- Handles that are given back after a fault only are lent meanwhile and owned afterwards. -/
theorem Agree.onFault_releaseAll {α β : Type} {owned : Multiset (H × G)} {x : Act W α}
    {y : Act V β} {result : α → β → Multiset (H × G) → Prop} (l : List (H × G))
    (h : S.Agree owned (l + lent) x y result) :
    S.Agree (l + owned) lent (Act.onFault (Backend.releaseAll (l.map Prod.fst)) x)
      (Act.onFault (Backend.releaseAll (l.map Prod.snd)) y)
      fun a b held => ∃ rest, result a b rest ∧ held = l + rest := by
  intro m n hmn
  rw [Multiset.add_comm (l : Multiset (H × G)), Multiset.add_assoc] at hmn
  obtain ⟨a, b, m', n', hx, hy, held, hr, hmn'⟩ | ⟨f, m', n', hx, hy, hf, hmn'⟩ :=
    Coupled.cases h hmn
  · simp only [Act.onFault, hx, hy]
    refine ⟨l + held, ⟨held, hr, rfl⟩, ?_⟩
    rwa [Multiset.add_comm (l : Multiset (H × G)), Multiset.add_assoc]
  · simp only [Act.onFault, hx, hy]
    exact ⟨trivial, hf, rel_releaseAll l hmn'⟩

theorem agree_releaseAll (l : List (H × G)) :
    S.Agree l lent (Act.update (Backend.releaseAll (l.map Prod.fst)))
      (Act.update (Backend.releaseAll (l.map Prod.snd))) Shown :=
  Coupled.of_ok fun _ _ hmn =>
    ⟨_, _, _, _, rfl, rfl, 0, ⟨rfl, rfl⟩, by simpa [Holds] using rel_releaseAll l hmn⟩

/-- The handles of two evaluators for the builtin functions. -/
def builtinPairs (e : Evaluator H) (d : Evaluator G) : List (H × G) :=
  Builtin.all.map fun b => (e.singletons.get b, d.singletons.get b)

theorem mem_builtinPairs (e : Evaluator H) (d : Evaluator G) (b : Builtin) :
    (e.singletons.get b, d.singletons.get b) ∈ builtinPairs e d :=
  List.mem_map_of_mem (by cases b <;> simp [Builtin.all])

/-- Allocating the builtin functions, one after the other. Nothing is said of the stores if one of
them cannot be allocated. -/
theorem coupled_build (S : Simulation W V) (lent : Multiset (H × G)) :
    Coupled (S.Holds lent) (Singletons.build (Backend.alloc S.left) : Act W (Singletons H))
      (Singletons.build (Backend.alloc S.right) : Act V (Singletons G))
      (fun a b => S.Holds (Builtin.all.map (fun x => (a.get x, b.get x)) + lent))
      (fun _ _ _ => True) := by
  have hstep (x : Builtin) (lent : Multiset (H × G)) :
      Coupled (S.Holds lent) (Backend.alloc S.left x.closure : Act W H)
        (Backend.alloc S.right x.closure : Act V G) (fun a b => S.Holds ((a, b) ::ₘ lent))
        (fun _ _ _ => True) := by
    have h := S.alloc x.closure lent
    rw [Builtin.captures_closure, Builtin.map_closure, Builtin.map_closure] at h
    simp only [Multiset.coe_nil, Multiset.zero_add] at h
    exact h.weaken (fun _ _ h => h) (fun _ _ _ _ h => h) fun _ _ _ _ => trivial
  refine Coupled.bind (hstep .zero lent) fun zero₁ zero₂ => ?_
  refine Coupled.bind (hstep .zeroInner _) fun inner₁ inner₂ => ?_
  refine Coupled.bind (hstep .succ _) fun succ₁ succ₂ => ?_
  refine Coupled.bind (hstep .inc _) fun inc₁ inc₂ => ?_
  refine Coupled.pure fun m n hmn => ?_
  have hperm := List.reverse_perm
    [(zero₁, zero₂), (inner₁, inner₂), (succ₁, succ₂), (inc₁, inc₂)]
  simp only [Builtin.all, List.map_cons, List.map_nil, Singletons.get]
  rw [← Multiset.coe_eq_coe.2 hperm]
  simpa only [List.reverse_cons, List.reverse_nil, List.nil_append, List.cons_append,
    ← Multiset.cons_coe, Multiset.cons_add, Multiset.coe_nil, Multiset.zero_add] using hmn

/-- Two evaluators of the related stores with the same bound on nesting, whose handles for the
builtin functions are among those held. -/
structure Serves (S : Simulation W V) (e : Evaluator H) (d : Evaluator G)
    (held : Multiset (H × G)) : Prop where
  left : e.site = S.left
  right : d.site = S.right
  nesting : e.nesting = d.nesting
  builtin (b : Builtin) : (e.singletons.get b, d.singletons.get b) ∈ held

theorem Serves.mono {e : Evaluator H} {d : Evaluator G} {held held' : Multiset (H × G)}
    (h : S.Serves e d held) (hle : held ⊆ held') : S.Serves e d held' :=
  ⟨h.left, h.right, h.nesting, fun b => hle (h.builtin b)⟩

theorem Serves.cons {e : Evaluator H} {d : Evaluator G} {held : Multiset (H × G)}
    (h : S.Serves e d held) (p : H × G) : S.Serves e d (p ::ₘ held) :=
  h.mono (Multiset.subset_cons held p)

variable {e : Evaluator H} {d : Evaluator G}

namespace Serves

theorem agree_builtin (hS : S.Serves e d lent) (b : Builtin) :
    S.Agree 0 lent (e.builtin b) (d.builtin b) Handed :=
  Agree.clone_lent (hS.builtin b)

theorem agree_alloc (hS : S.Serves e d lent) {owned : Multiset (H × G)} (c : Closure (H × G))
    (h : owned = c.captures) :
    S.Agree owned lent (Backend.alloc e.site (c.map Prod.fst))
      (Backend.alloc d.site (c.map Prod.snd)) Handed := by
  rw [hS.left, hS.right]
  exact Agree.alloc c h

theorem agree_resolve (hS : S.Serves e d lent) (hp : p ∈ lent) :
    S.Agree 0 lent (Backend.resolve e.site p.1) (Backend.resolve d.site p.2) Opened := by
  rw [hS.left, hS.right]
  exact Agree.resolve hp

theorem agree_int (hS : S.Serves e d lent) (value : Int64) :
    S.Agree 0 lent (e.int value) (d.int value) Handed :=
  hS.agree_alloc (.intLiteral value) rfl

theorem agree_inspect (hS : S.Serves e d lent) (hp : p ∈ lent) :
    S.Agree 0 lent (e.inspect p.1) (d.inspect p.2) Outlined := by
  refine Agree.bind (hS.agree_resolve hp) ?_
  rintro _ _ _ ⟨c, rfl, rfl, rfl⟩
  rw [Closure.captures_map, Closure.captures_map]
  refine Agree.bind (agree_releaseAll c.captures) ?_
  rintro _ _ _ ⟨-, rfl⟩
  exact Agree.pure ⟨c, rfl, rfl, rfl⟩

theorem agree_kind (hS : S.Serves e d lent) (hp : p ∈ lent) :
    S.Agree 0 lent (e.kind p.1) (d.kind p.2) Shown := by
  refine Agree.bind (hS.agree_inspect hp) ?_
  rintro _ _ _ ⟨c, rfl, rfl, rfl⟩
  exact Agree.pure ⟨by simp, rfl⟩

theorem agree_toInt (hS : S.Serves e d lent) (hp : p ∈ lent) :
    S.Agree 0 lent (e.toInt p.1) (d.toInt p.2) Shown := by
  refine Agree.bind (hS.agree_inspect hp) ?_
  rintro _ _ _ ⟨c, rfl, rfl, rfl⟩
  cases c with
  | intLiteral value => exact Agree.pure ⟨rfl, rfl⟩
  | zero | zeroInner | succ | succPartial | succInner | inc => exact Agree.violate _ rfl

end Serves

end Simulation

end ChurchStore
