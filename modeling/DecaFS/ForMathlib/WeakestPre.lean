import Mathlib.Logic.Basic

/-!
# Weakest preconditions of stateful code that may stop

Imperative code over a state `σ` that may stop with an `ε` is `StateT σ (Except ε)`.
`wp m Q E s` says that `m`, run from `s`, either returns a value and a state that satisfy `Q`
or stops with an error that satisfies `E`. The `simp` lemmas compute it through the monad's
primitives; `wp_bind` and `wp_mono` are the two rules a proof about a longer piece of code
needs, and `zoom` runs code of a component on the state that contains it.
-/

namespace DecaFS

universe u

variable {σ τ ε : Type u} {α β : Type u}

/-- Imperative code over the state `σ` that may stop with an `ε`. -/
abbrev Code (ε σ α : Type u) : Type u := StateT σ (Except ε) α

namespace Code

/-- The weakest precondition of `m` for the postcondition `Q` and the stops `E`. -/
def wp (m : Code ε σ α) (Q : α → σ → Prop) (E : ε → Prop) (s : σ) : Prop :=
  match m s with
  | .ok (a, s') => Q a s'
  | .error e => E e

variable {Q Q' : α → σ → Prop} {E E' : ε → Prop} {s : σ}

theorem wp_ok {m : Code ε σ α} {a : α} {s' : σ} (h : m s = .ok (a, s')) :
    wp m Q E s ↔ Q a s' := by
  rw [wp, h]

theorem wp_error {m : Code ε σ α} {e : ε} (h : m s = .error e) : wp m Q E s ↔ E e := by
  rw [wp, h]

@[simp]
theorem wp_pure (a : α) : wp (pure a : Code ε σ α) Q E s ↔ Q a s := Iff.rfl

@[simp]
theorem wp_throw (e : ε) : wp (throw e : Code ε σ α) Q E s ↔ E e := Iff.rfl

@[simp]
theorem wp_get {Q : σ → σ → Prop} : wp (get : Code ε σ σ) Q E s ↔ Q s s := Iff.rfl

@[simp]
theorem wp_set {Q : PUnit → σ → Prop} (t : σ) : wp (set t : Code ε σ PUnit) Q E s ↔ Q ⟨⟩ t :=
  Iff.rfl

@[simp]
theorem wp_modify {Q : PUnit → σ → Prop} (f : σ → σ) :
    wp (modify f : Code ε σ PUnit) Q E s ↔ Q ⟨⟩ (f s) := Iff.rfl

/-- The sequencing rule. -/
@[simp]
theorem wp_bind (m : Code ε σ α) (f : α → Code ε σ β) {Q : β → σ → Prop} :
    wp (m >>= f) Q E s ↔ wp m (fun a => wp (f a) Q E) E s := by
  have hbind : (m >>= f) s = (m s).bind fun p => f p.1 p.2 := rfl
  unfold wp
  rw [hbind]
  cases m s <;> rfl

@[simp]
theorem wp_map (f : α → β) (m : Code ε σ α) {Q : β → σ → Prop} :
    wp (f <$> m) Q E s ↔ wp m (fun a => Q (f a)) E s := by
  have hmap : (f <$> m) s = (m s).map fun p => (f p.1, p.2) := rfl
  unfold wp
  rw [hmap]
  cases m s <;> rfl

theorem wp_ite {c : Prop} [Decidable c] (m₁ m₂ : Code ε σ α) :
    wp (if c then m₁ else m₂) Q E s ↔ if c then wp m₁ Q E s else wp m₂ Q E s := by
  split <;> rfl

/-- The rule of consequence. -/
theorem wp_mono {m : Code ε σ α} (h : wp m Q E s) (hQ : ∀ a s', Q a s' → Q' a s')
    (hE : ∀ e, E e → E' e) : wp m Q' E' s := by
  unfold wp at *
  cases hm : m s with
  | ok p => rw [hm] at h; exact hQ _ _ h
  | error e => rw [hm] at h; exact hE _ h

theorem wp_and {m : Code ε σ α} (h₁ : wp m Q E s) (h₂ : wp m Q' E' s) :
    wp m (fun a s' => Q a s' ∧ Q' a s') (fun e => E e ∧ E' e) s := by
  unfold wp at *
  cases hm : m s with
  | ok p => rw [hm] at h₁ h₂; exact ⟨h₁, h₂⟩
  | error e => rw [hm] at h₁ h₂; exact ⟨h₁, h₂⟩

/-- A returning run satisfies the postcondition. -/
theorem wp.of_ok {m : Code ε σ α} (h : wp m Q E s) {a : α} {s' : σ} (hm : m s = .ok (a, s')) :
    Q a s' :=
  (wp_ok hm).mp h

/-- A run with no admissible stop returns. -/
theorem wp.exists_ok {m : Code ε σ α} (h : wp m Q (fun _ => False) s) :
    ∃ a s', m s = .ok (a, s') ∧ Q a s' := by
  unfold wp at h
  cases hm : m s with
  | ok p => rw [hm] at h; exact ⟨p.1, p.2, rfl, h⟩
  | error e => rw [hm] at h; exact h.elim

/-- A run with no admissible result stops. -/
theorem wp.exists_error {m : Code ε σ α} (h : wp m (fun _ _ => False) E s) :
    ∃ e, m s = .error e ∧ E e := by
  unfold wp at h
  cases hm : m s with
  | ok p => rw [hm] at h; exact h.elim
  | error e => rw [hm] at h; exact ⟨e, rfl, h⟩

/-- What a run returns, as a weakest precondition. -/
theorem eq_ok_iff_wp {m : Code ε σ α} {a : α} {s' : σ} :
    m s = .ok (a, s') ↔ wp m (fun b t => b = a ∧ t = s') (fun _ => False) s := by
  constructor
  · intro hm
    exact (wp_ok hm).mpr ⟨rfl, rfl⟩
  · intro h
    obtain ⟨b, t, hm, rfl, rfl⟩ := h.exists_ok
    exact hm

/-- Run the code of a component on the state that contains it. -/
def zoom (get : σ → τ) (put : τ → σ → σ) (m : Code ε τ α) : Code ε σ α := fun s =>
  (m (get s)).map fun p => (p.1, put p.2 s)

@[simp]
theorem wp_zoom (get : σ → τ) (put : τ → σ → σ) (m : Code ε τ α) :
    wp (zoom get put m) Q E s ↔ wp m (fun a t => Q a (put t s)) E (get s) := by
  unfold wp zoom
  cases m (get s) <;> rfl

attribute [irreducible] wp

end Code

end DecaFS
