import ChurchStore.Proofs.Cost
import ChurchStore.Proofs.Erasure

/-!
# What groves spend

An operation spends closures if it answers whatever was made before and makes closures of known
kinds. Where nothing is too large, a grove spends on an application what the values of its trees
cost, as soon as it may nest deep enough, and on a program what its applications cost together.
-/

namespace ChurchStore.Grove

open Filter Value

variable {b : Nat} {resets : List Nat} {first : Nat} {α β : Type}

/-- A grove on which nothing is too large, after the given resets, when at least `first` closures
have been made. -/
structure Roomy (resets : List Nat) (first : Nat) (g : Grove b) : Prop where
  resets_eq : g.resets = resets
  resets_le : ∀ r ∈ resets, r ≤ g.made.length
  first_le : first ≤ g.made.length
  fits (c : Closure Tree) : g.capacity.filter (· < c.footprint) = none

/-- Remembers several more closures, the last one first. -/
def growAll (g : Grove b) (l : List Kind) : Grove b := { g with made := l ++ g.made }

theorem growAll_growAll (g : Grove b) (l l' : List Kind) :
    (g.growAll l).growAll l' = g.growAll (l' ++ l) := by
  simp [growAll]

theorem length_le_growAll (g : Grove b) (l : List Kind) :
    g.made.length ≤ (g.growAll l).made.length := by
  simp [growAll]

theorem Roomy.growAll {g : Grove b} (h : Roomy resets first g) (l : List Kind) :
    Roomy resets first (g.growAll l) where
  resets_eq := h.resets_eq
  resets_le r hr := (h.resets_le r hr).trans (g.length_le_growAll l)
  first_le := h.first_le.trans (g.length_le_growAll l)
  fits := h.fits

/-- What is made now is counted after the last reset. -/
theorem Roomy.recent_growAll {g : Grove b} (h : Roomy resets first g) (l : List Kind) :
    (g.growAll l).recent = l ++ g.recent := by
  have hle := headD_resets_le fun r hr => h.resets_le r (h.resets_eq ▸ hr)
  simp only [recent, Grove.growAll, List.length_append]
  rw [Nat.add_sub_assoc hle, List.take_length_add_append]

/-- The operation answers with something that has the property, and makes closures of the kinds `κ`,
whatever has been made before, as long as these are at least `first` closures. -/
def Spends (resets : List Nat) (first : Nat) (x : Act (Grove b) α) (P : α → Prop)
    (κ : Multiset Kind) : Prop :=
  ∀ m : Machine (Grove b), Roomy resets first m.store →
    ∃ a l, x m = .ok a { m with store := m.store.growAll l } ∧ P a ∧ (l : Multiset Kind) = κ

namespace Spends

variable {x : Act (Grove b) α} {k : α → Act (Grove b) β} {P : α → Prop} {Q : β → Prop}
  {κ κ' : Multiset Kind}

theorem pure {a : α} (h : P a) : Spends (b := b) resets first (Pure.pure a) P 0 :=
  fun _ _ => ⟨a, [], rfl, h, rfl⟩

theorem imp {P' : α → Prop} (h : Spends resets first x P κ) (himp : ∀ a, P a → P' a) :
    Spends resets first x P' κ := by
  intro m hm
  obtain ⟨a, l, hx, ha, hl⟩ := h m hm
  exact ⟨a, l, hx, himp a ha, hl⟩

/-- What is spent adds up. -/
theorem bind (h : Spends resets first x P κ) (hk : ∀ a, P a → Spends resets first (k a) Q κ') :
    Spends resets first (x >>= k) Q (κ + κ') := by
  intro m hm
  obtain ⟨a, l, hx, ha, rfl⟩ := h m hm
  obtain ⟨c, l', hy, hc, rfl⟩ := hk a ha { m with store := m.store.growAll l } (hm.growAll l)
  refine ⟨c, l' ++ l, ?_, hc, ?_⟩
  · simp only [Bind.bind, EStateM.bind, hx, hy, growAll_growAll]
  · rw [← Multiset.coe_add, add_comm]

/-- An operation before which nothing is spent. -/
theorem bind_free (h : Spends resets first x P 0) (hk : ∀ a, P a → Spends resets first (k a) Q κ) :
    Spends resets first (x >>= k) Q κ := by
  have hbind := bind h hk
  rwa [zero_add] at hbind

end Spends

/-! ### Primitive operations -/

theorem map_of_value_eq {t : Tree} {c : Closure Value} (h : value resets t = .node c) :
    resets.countP (· ≤ t.number) = resets.length ∧ t.closure.map (value resets) = c := by
  obtain ⟨number, x⟩ := t
  rw [value_node, shown] at h
  split at h
  · exact ⟨‹_›, Value.node.inj h⟩
  · cases h

/-- A tree that was made after the resets shows its closure. -/
theorem spends_resolve_of_current {t : Tree}
    (h : resets.countP (· ≤ t.number) = resets.length) :
    Spends (b := b) resets first (resolve t) (· = t.closure) 0 := by
  intro m hm
  rw [← hm.resets_eq] at h
  exact ⟨t.closure, [], resolve_of_current h, rfl, rfl⟩

theorem spends_resolve {t : Tree} {c : Closure Value} (h : value resets t = .node c) :
    Spends (b := b) resets first (resolve t) (fun x => x.map (value resets) = c) 0 := by
  obtain ⟨hcurrent, hc⟩ := map_of_value_eq h
  refine (spends_resolve_of_current hcurrent).imp fun x hx => ?_
  rwa [hx]

/-- A closure is made after all others. -/
theorem spends_make (c : Closure Tree) : Spends (b := b) resets first (alloc c)
    (fun t => ∃ number, t = .node number c ∧ first ≤ number ∧ ∀ r ∈ resets, r ≤ number)
    {c.kind} :=
  fun m hm => ⟨.node m.store.made.length c, [c.kind], alloc_of_fits (hm.fits c),
    ⟨_, rfl, hm.first_le, hm.resets_le⟩, rfl⟩

theorem spends_alloc (c : Closure Tree) : Spends (b := b) resets first (alloc c)
    (value resets · = .node (c.map (value resets))) {c.kind} := by
  refine (spends_make c).imp ?_
  rintro _ ⟨number, rfl, -, hle⟩
  exact value_of_le hle

variable {d : Evaluator Tree} {i : Int64}

theorem spends_builtin (hd : Ready resets d) (f : Builtin) :
    Spends (b := b) resets first (d.builtin f) (value resets · = .node f.closure) 0 := by
  refine Spends.pure (a := d.singletons.get f) ?_
  rw [hd.value_get]
  cases f <;> rfl

theorem releaseAll_eq (l : List Tree) (g : Grove b) : Backend.releaseAll l g = g := by
  induction l with
  | nil => rfl
  | cons t l ih => exact ih

theorem spends_inspect {t : Tree} {c : Closure Value} (h : value resets t = .node c) :
    Spends (b := b) resets first (d.inspect t) (fun x => x.map (value resets) = c) 0 := by
  refine Spends.bind_free (spends_resolve h) fun x hx => ?_
  refine Spends.bind_free (P := fun _ => True) (fun m _ => ?_) fun _ _ => Spends.pure hx
  exact ⟨(), [], by simp only [Act.update, releaseAll_eq]; rfl, trivial, rfl⟩

theorem spends_toInt {t : Tree} (h : value resets t = .node (.intLiteral i)) :
    Spends (b := b) resets first (d.toInt t) (· = i) 0 := by
  refine Spends.bind_free (spends_inspect h) fun c hc => ?_
  cases c with
  | intLiteral j =>
    cases hc
    exact Spends.pure rfl
  | zero | zeroInner | succ | succPartial | succInner | inc => cases hc

/-! ### Application -/

/-- With a bound on nesting, applying any tree of value `f` to any of value `x` answers with one of
value `y` and spends `κ`. -/
def Performs (b : Nat) (resets : List Nat) (first : Nat) (d : Evaluator Tree) (f x y : Value)
    (κ : Multiset Kind) : Prop :=
  ∀ {s t : Tree}, value resets s = f → value resets t = x →
    Spends (b := b) resets first (d.apply s t) (value resets · = y) κ

/-- One more level of nesting. -/
theorem eventually_of_succ {P : Nat → Prop} (h : ∀ᶠ depth in atTop, P (depth + 1)) :
    ∀ᶠ depth in atTop, P depth := by
  rw [← map_add_atTop_eq_nat 1]
  exact h

variable {f s t u x y z : Value} {κ κ' κ₁ κ₂ κ₃ : Multiset Kind}

theorem spends_applyWithin {depth : Nat} {tree arg : Tree} {c : Closure Value}
    (ht : value resets tree = .node c)
    (h : ∀ c', c'.map (value resets) = c →
      Spends (b := b) resets first (applied d depth arg c') (value resets · = y) κ) :
    Spends (b := b) resets first (d.applyWithin (depth + 1) tree arg) (value resets · = y) κ := by
  rw [applyWithin_succ]
  exact Spends.bind_free (spends_resolve ht) h

/-- An application costs what it costs on values. -/
theorem eventually_performs (hd : Ready resets d) (h : Yields f x y κ) :
    ∀ᶠ depth in atTop, Performs b resets first (d.nestedTo depth) f x y κ := by
  have hwithin : ∀ᶠ depth in atTop, ∀ s t : Tree, value resets s = f → value resets t = x →
      Spends (b := b) resets first (d.applyWithin depth s t) (value resets · = y) κ := by
    induction h with
    | zero x =>
      refine eventually_of_succ (.of_forall fun depth s t hs ht => spends_applyWithin hs ?_)
      intro c hc
      cases c <;> cases hc
      exact spends_builtin hd .zeroInner
    | zeroInner x =>
      refine eventually_of_succ (.of_forall fun depth s t hs ht => spends_applyWithin hs ?_)
      intro c hc
      cases c <;> cases hc
      exact Spends.pure ht
    | succ x =>
      refine eventually_of_succ (.of_forall fun depth s t hs ht => spends_applyWithin hs ?_)
      intro c hc
      cases c <;> cases hc
      rw [← ht]
      exact spends_alloc (.succPartial t)
    | succPartial n x =>
      refine eventually_of_succ (.of_forall fun depth s t hs ht => spends_applyWithin hs ?_)
      intro c hc
      cases c <;> cases hc
      rw [← ht]
      exact spends_alloc (.succInner _ t)
    | succInner _ _ _ ihn ihns ihs =>
      refine eventually_of_succ ?_
      filter_upwards [ihn, ihns, ihs] with depth hn hns hs' s t hs ht
      refine spends_applyWithin hs fun c hc => ?_
      cases c <;> cases hc
      rw [add_assoc]
      exact (hn _ _ rfl rfl).bind fun ns hns' => (hns _ _ hns' ht).bind fun nsx hnsx =>
        hs' _ _ rfl hnsx
    | inc hi =>
      refine eventually_of_succ (.of_forall fun depth s t hs ht => spends_applyWithin hs ?_)
      intro c hc
      cases c <;> cases hc
      refine Spends.bind_free (spends_toInt ht) ?_
      rintro _ rfl
      rw [if_neg hi]
      exact spends_alloc (.intLiteral _)
  filter_upwards [hwithin] with depth hdepth s t hs ht
  rw [Evaluator.apply_nestedTo]
  exact hdepth s t hs ht

/-! ### Programs -/

theorem onFault_release_eq (t : Tree) (op : Act (Grove b) α) :
    Act.onFault (Backend.release t) op = op := by
  funext m
  simp only [Act.onFault]
  cases op m <;> rfl

theorem spends_int (i : Int64) :
    Spends (b := b) resets first (d.int i) (value resets · = .node (.intLiteral i)) {.intLiteral} :=
  spends_alloc (.intLiteral i)

variable {m n : Tree}

theorem spends_successor (hd : Ready resets d)
    (h : Performs b resets first d (.node .succ) x y κ) (hn : value resets n = x) :
    Spends (b := b) resets first (d.successor n) (value resets · = y) κ := by
  simp only [Evaluator.successor, holding_eq]
  exact Spends.bind_free (spends_builtin hd .succ) fun succ hsucc => h hsucc hn

theorem eventually_spends_successors (hd : Ready resets d) {k : Nat}
    (h : Repeats (.node .succ) k x y κ) :
    ∀ᶠ depth in atTop, ∀ n, value resets n = x →
      Spends (b := b) resets first ((d.nestedTo depth).successors k n) (value resets · = y) κ := by
  induction h with
  | done z => exact .of_forall fun depth n hn => Spends.pure hn
  | step hs _ ih =>
    filter_upwards [ih, eventually_performs hd hs] with depth hrest hsucc n hn
    simp only [Evaluator.successors, holding_eq]
    exact Spends.bind (spends_successor hd hsucc hn) hrest

theorem eventually_spends_numeral (first : Nat) (hd : Ready resets d) (k : Nat) :
    ∀ᶠ depth in atTop, Spends (b := b) resets first ((d.nestedTo depth).numeral k)
      (value resets · = church k) (k • {.succPartial}) := by
  have hrepeats := repeats_succ_church 0 k
  rw [Nat.zero_add] at hrepeats
  filter_upwards [eventually_spends_successors hd hrepeats] with depth hdepth
  exact Spends.bind_free (spends_builtin (d := d.nestedTo depth) hd .zero) hdepth

theorem spends_plus (hd : Ready resets d) (hf : Performs b resets first d f (.node .succ) u κ₁)
    (hu : Performs b resets first d u x y κ₂) (hm : value resets m = f) (hn : value resets n = x) :
    Spends (b := b) resets first (d.plus m n) (value resets · = y) (κ₁ + κ₂) := by
  simp only [Evaluator.plus, holding_eq]
  refine Spends.bind_free (spends_builtin hd .succ) fun succ hsucc => ?_
  exact Spends.bind (hf hm hsucc) fun add hadd => hu hadd hn

theorem spends_mul (hd : Ready resets d) (hx : Performs b resets first d x (.node .succ) u κ₁)
    (hf : Performs b resets first d f u t κ₂) (ht : Performs b resets first d t (.node .zero) y κ₃)
    (hm : value resets m = f) (hn : value resets n = x) :
    Spends (b := b) resets first (d.mul m n) (value resets · = y) (κ₁ + (κ₂ + κ₃)) := by
  simp only [Evaluator.mul, holding_eq, onFault_release_eq]
  refine Spends.bind_free (spends_builtin hd .succ) fun succ hsucc => ?_
  refine Spends.bind (hx hn hsucc) fun add hadd => Spends.bind (hf hm hadd) fun iterated hi => ?_
  exact Spends.bind_free (spends_builtin hd .zero) fun zero hzero => ht hi hzero

theorem spends_fold (hd : Ready resets d) (ht : Performs b resets first d t (.node .inc) u κ₁)
    (hu : Performs b resets first d u (.node (.intLiteral 0)) (.node (.intLiteral i)) κ₂)
    (hn : value resets n = t) :
    Spends (b := b) resets first (d.fold n) (· = i) (κ₁ + ({.intLiteral} + κ₂)) := by
  simp only [Evaluator.fold, holding_eq]
  refine Spends.bind_free (spends_builtin hd .inc) fun inc hinc => ?_
  refine Spends.bind (ht hn hinc) fun applied happlied => ?_
  refine Spends.bind (spends_int 0) fun start hstart => ?_
  rw [← add_zero κ₂]
  exact Spends.bind (hu happlied hstart) fun _ hcounted => spends_toInt hcounted

/-- To fold a value that counts costs an integer more than its number, besides what it costs to
count at all. -/
theorem eventually_spends_fold (first : Nat) (hd : Ready resets d) {k : Nat} {α β : Multiset Kind}
    (h : CountsAt k t α β) (hk : k ≤ Int64.maxValue.toInt) :
    ∀ᶠ depth in atTop, ∀ n, value resets n = t →
      Spends (b := b) resets first ((d.nestedTo depth).fold n) (· = .ofInt k)
        (α + β + (k + 1) • {.intLiteral}) := by
  obtain ⟨u, hu, hcount⟩ := h.exists_yields_inc hk
  filter_upwards [eventually_performs hd hu, eventually_performs hd hcount]
    with depth htu hui n hn
  have hsum : α + β + (k + 1) • {Kind.intLiteral} =
      α + ({.intLiteral} + (β + k • {.intLiteral})) := by
    rw [succ_nsmul]
    abel
  rw [hsum]
  exact spends_fold hd htu hui hn

theorem eventually_spends_pow (first : Nat) (hd : Ready resets d) {k l : Nat}
    {α β α' β' : Multiset Kind}
    (hf : CountsAt k f α β) (hx : CountsAt l x α' β')
    (hmax : (l ^ k : Nat) ≤ Int64.maxValue.toInt) :
    ∀ᶠ depth in atTop, ∀ m n, value resets m = x → value resets n = f →
      Spends (b := b) resets first ((d.nestedTo depth).pow m n) (· = .ofInt (l ^ k : Nat))
        (α + (β + k • α' + (∑ i ∈ Finset.range k, l ^ i) • β' + (l ^ k + 1) • {.intLiteral})) := by
  obtain ⟨u, hu, hpow⟩ := hf.power hx
  filter_upwards [eventually_performs hd hu, eventually_spends_fold first hd hpow hmax]
    with depth hfu hfold m n hm hn
  simp only [Evaluator.pow, holding_eq]
  exact Spends.bind (hfu hn hm) hfold

/-! ### Terms -/

/-- With enough room for nesting, the operation makes a value that has the property, and no
integers. -/
def Builds (b : Nat) (resets : List Nat) (first : Nat) (Q : Value → Prop)
    (x : Nat → Act (Grove b) Tree) : Prop :=
  ∃ u κ, Q u ∧ .intLiteral ∉ κ ∧
    ∀ᶠ depth in atTop, Spends resets first (x depth) (value resets · = u) κ

namespace Builds

variable {v w : Nat → Act (Grove b) Tree} {Q Q' Q'' : Value → Prop} {j k : Nat}

theorem imp (h : Builds b resets first Q v) (himp : ∀ u, Q u → Q' u) :
    Builds b resets first Q' v := by
  obtain ⟨u, κ, hu, hκ, hv⟩ := h
  exact ⟨u, κ, himp u hu, hκ, hv⟩

/-- An operation on two operands. -/
theorem operate {op : Nat → Tree → Tree → Act (Grove b) Tree} (hv : Builds b resets first Q v)
    (hw : Builds b resets first Q' w)
    (hop : ∀ {f x : Value}, Q f → Q' x → ∃ y κ, Q'' y ∧ .intLiteral ∉ κ ∧
      ∀ᶠ depth in atTop, ∀ m n, value resets m = f → value resets n = x →
        Spends resets first (op depth m n) (value resets · = y) κ) :
    Builds b resets first Q'' fun depth => Term.operate (op depth) (v depth) (w depth) := by
  obtain ⟨f, κ₁, hf, hκ₁, hv⟩ := hv
  obtain ⟨x, κ₂, hx, hκ₂, hw⟩ := hw
  obtain ⟨y, κ₃, hy, hκ₃, hop⟩ := hop hf hx
  refine ⟨y, κ₁ + (κ₂ + κ₃), hy, by simp [hκ₁, hκ₂, hκ₃], ?_⟩
  filter_upwards [hv, hw, hop] with depth hv hw hop
  simp only [Term.operate, holding_eq]
  exact Spends.bind hv fun m hm => Spends.bind hw fun n hn => hop m n hm hn

/-- A product is a chain of successors. -/
theorem mul (hd : Ready resets d) (hv : Builds b resets first (CountsFreely j) v)
    (hw : Builds b resets first (CountsFreely k) w) :
    Builds b resets first (· = church (j * k)) fun depth =>
      Term.operate (d.nestedTo depth).mul (v depth) (w depth) := by
  refine operate hv hw fun hf hx => ?_
  obtain ⟨add, iterated, κ₁, κ₂, κ₃, hadd, hiterated, hy, hfree⟩ := hf.mul hx
  refine ⟨_, _, rfl, hfree, ?_⟩
  filter_upwards [eventually_performs hd hadd, eventually_performs hd hiterated,
    eventually_performs hd hy] with depth h₁ h₂ h₃ m n
  exact spends_mul hd h₁ h₂ h₃

end Builds

/-- No integers are made where an arithmetic term is built. -/
theorem builds_of_number? (first : Nat) (hd : Ready resets d) {t : Term} {n : Nat}
    (h : t.number? = some n) :
    Builds b resets first (CountsFreely n) fun depth => t.build (d.nestedTo depth) := by
  refine Term.number?_induction (motive := fun t n =>
    Builds b resets first (CountsFreely n) fun depth => t.build (d.nestedTo depth)) ?zero
    (fun k => ?numeral) (fun ih => ?successor) (fun ihf ihx => ?plus) (fun ihf ihx => ?mul)
    (fun ihf ihx => ?power) h
  case zero =>
    refine ⟨_, 0, .church 0, by simp, .of_forall fun depth => ?_⟩
    exact spends_builtin (d := d.nestedTo depth) hd .zero
  case numeral => exact ⟨_, _, .church k, by simp, eventually_spends_numeral first hd k⟩
  case successor =>
    obtain ⟨x, κ, hx, hκ, hbuild⟩ := ih
    refine ⟨_, κ + {.succPartial}, hx.succPartial, by simp [hκ], ?_⟩
    filter_upwards [hbuild, eventually_performs hd (.succ x)] with depth hbuild hsucc
    simp only [Term.build, holding_eq]
    exact Spends.bind hbuild fun n hn => spends_successor hd hsucc hn
  case plus =>
    refine Builds.operate ihf ihx fun hf hx => ?_
    obtain ⟨add, y, κ, κ', hadd, hy, hfree, hcounts⟩ := hf.plus hx
    refine ⟨y, _, hcounts, hfree, ?_⟩
    filter_upwards [eventually_performs hd hadd, eventually_performs hd hy] with depth h₁ h₂ m n
    exact spends_plus hd h₁ h₂
  case mul =>
    refine (Builds.mul hd ihf ihx).imp ?_
    rintro _ rfl
    exact .church _
  case power =>
    refine Builds.operate ihf ihx fun hf hx => ?_
    obtain ⟨u, κ, hu, hfree, hcounts⟩ := hf.power hx
    refine ⟨u, κ, hcounts, hfree, ?_⟩
    filter_upwards [eventually_performs hd hu] with depth hdepth m n
    exact hdepth

/-- The product of two arithmetic terms is the chain of their product. -/
theorem builds_mul (first : Nat) (hd : Ready resets d) {t t' : Term} {j k : Nat}
    (h : t.number? = some j) (h' : t'.number? = some k) :
    Builds b resets first (· = church (j * k)) fun depth =>
      (Term.mul t t').build (d.nestedTo depth) :=
  .mul hd (builds_of_number? first hd h) (builds_of_number? first hd h')

end ChurchStore.Grove
