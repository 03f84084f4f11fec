import ChurchStore.Host

/-!
# Coupled operations

Two operations on two kinds of state are coupled if they answer together or stop together. A
precondition relates the states before, a postcondition relates the answers and the states
afterwards, and a relation of its own holds of the reason and the states where both stopped. The
rules below follow the ways in which operations are put together, so that a coupling of two
programs is built from couplings of their parts.
-/

namespace ChurchStore

/-- How an operation ended, without the machine that it left. -/
def ending {W α : Type} : EStateM.Result Fault (Machine W) α → Except Fault α
  | .ok a _ => .ok a
  | .error f _ => .error f

/-- From states related by `pre`, both operations answer and `post` relates the answers and the
states afterwards, or both stop for the same reason, of which and of the states `stopped` holds. -/
def Coupled {ε σ τ α β : Type} (pre : σ → τ → Prop) (x : EStateM ε σ α) (y : EStateM ε τ β)
    (post : α → β → σ → τ → Prop) (stopped : ε → σ → τ → Prop) : Prop :=
  ∀ s t, pre s t →
    match x s, y t with
    | .ok a s', .ok b t' => post a b s' t'
    | .error e s', .error f t' => e = f ∧ stopped e s' t'
    | _, _ => False

namespace Coupled

variable {ε σ τ α β γ δ : Type} {pre pre' : σ → τ → Prop} {stopped stopped' : ε → σ → τ → Prop}
  {x : EStateM ε σ α} {y : EStateM ε τ β} {post post' : α → β → σ → τ → Prop}

/-- A coupling of two operations that answer. -/
theorem of_ok (h : ∀ s t, pre s t → ∃ a b s' t', x s = .ok a s' ∧ y t = .ok b t' ∧
    post a b s' t') : Coupled pre x y post stopped := by
  intro s t hst
  obtain ⟨a, b, s', t', hx, hy, hp⟩ := h s t hst
  rw [hx, hy]
  exact hp

/-- A coupling of two operations that stop. -/
theorem of_error (h : ∀ s t, pre s t → ∃ e s' t', x s = .error e s' ∧ y t = .error e t' ∧
    stopped e s' t') : Coupled pre x y post stopped := by
  intro s t hst
  obtain ⟨e, s', t', hx, hy, hp⟩ := h s t hst
  rw [hx, hy]
  exact ⟨rfl, hp⟩

/-- What a coupling says about a pair of states. -/
theorem cases (h : Coupled pre x y post stopped) {s : σ} {t : τ} (hst : pre s t) :
    (∃ a b s' t', x s = .ok a s' ∧ y t = .ok b t' ∧ post a b s' t') ∨
      ∃ e s' t', x s = .error e s' ∧ y t = .error e t' ∧ stopped e s' t' := by
  have h := h s t hst
  cases hx : x s with
  | ok a s' =>
    cases hy : y t with
    | ok b t' => exact .inl ⟨a, b, s', t', rfl, rfl, by simpa only [hx, hy] using h⟩
    | error f t' => simp only [hx, hy] at h
  | error e s' =>
    cases hy : y t with
    | ok b t' => simp only [hx, hy] at h
    | error f t' =>
      simp only [hx, hy] at h
      obtain ⟨rfl, h⟩ := h
      exact .inr ⟨e, s', t', rfl, rfl, h⟩

theorem weaken (h : Coupled pre x y post stopped) (hpre : ∀ s t, pre' s t → pre s t)
    (hpost : ∀ a b s t, post a b s t → post' a b s t)
    (hstop : ∀ e s t, stopped e s t → stopped' e s t) : Coupled pre' x y post' stopped' := by
  intro s t hst
  obtain ⟨a, b, s', t', hx, hy, hp⟩ | ⟨e, s', t', hx, hy, hp⟩ := h.cases (hpre s t hst)
  · rw [hx, hy]
    exact hpost a b s' t' hp
  · rw [hx, hy]
    exact ⟨rfl, hstop e s' t' hp⟩

theorem pure {a : α} {b : β} (h : ∀ s t, pre s t → post a b s t) :
    Coupled pre (Pure.pure a : EStateM ε σ α) (Pure.pure b : EStateM ε τ β) post stopped :=
  of_ok fun s t hst => ⟨a, b, s, t, rfl, rfl, h s t hst⟩

theorem throw {e : ε} (h : ∀ s t, pre s t → stopped e s t) :
    Coupled pre (MonadExcept.throw e : EStateM ε σ α) (MonadExcept.throw e : EStateM ε τ β) post
      stopped :=
  of_error fun s t hst => ⟨e, s, t, rfl, rfl, h s t hst⟩

theorem bind {mid : α → β → σ → τ → Prop} {k : α → EStateM ε σ γ} {l : β → EStateM ε τ δ}
    {post : γ → δ → σ → τ → Prop} (h : Coupled pre x y mid stopped)
    (hk : ∀ a b, Coupled (mid a b) (k a) (l b) post stopped) :
    Coupled pre (x >>= k) (y >>= l) post stopped := by
  intro s t hst
  simp only [Bind.bind, EStateM.bind]
  obtain ⟨a, b, s', t', hx, hy, hp⟩ | ⟨e, s', t', hx, hy, hp⟩ := h.cases hst
  · rw [hx, hy]
    exact hk a b s' t' hp
  · rw [hx, hy]
    exact ⟨rfl, hp⟩

end Coupled

end ChurchStore
