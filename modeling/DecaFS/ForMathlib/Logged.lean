import DecaFS.ForMathlib.WeakestPre

/-!
# Code that notes what it does

To say something about the steps that code takes on its way, the code is written once more over a state
with a log. `Erases m m'` says that `m`, its log forgotten, is `m'`; so what is shown of the results of
`m'` holds of those of `m`.
-/

namespace DecaFS

universe u

/-- A state with a log of what was done, the last thing first. -/
structure Logged (σ τ : Type u) : Type u where
  state : σ
  log : List τ

namespace Code

variable {σ τ ε : Type u} {α β : Type u}

/-- Code that notes nothing. -/
def quietly (m : Code ε σ α) : Code ε (Logged σ τ) α :=
  zoom Logged.state (fun s u => { u with state := s }) m

/-- Note `t`. -/
def note (t : τ) : Code ε (Logged σ τ) PUnit := modify fun u => { u with log := t :: u.log }

/-- Without its log, `m` is `m'`. -/
def Erases (m : Code ε (Logged σ τ) α) (m' : Code ε σ α) : Prop :=
  ∀ u, (m u).map (fun p => (p.1, p.2.state)) = m' u.state

variable {m : Code ε (Logged σ τ) α} {m' : Code ε σ α} {u : Logged σ τ}

@[simp]
theorem wp_quietly {Q : α → Logged σ τ → Prop} {E : ε → Prop} :
    wp (quietly m' : Code ε (Logged σ τ) α) Q E u ↔
      wp m' (fun a s => Q a { u with state := s }) E u.state := wp_zoom _ _ _

@[simp]
theorem wp_note {Q : PUnit → Logged σ τ → Prop} {E : ε → Prop} (t : τ) :
    wp (note t : Code ε (Logged σ τ) PUnit) Q E u ↔ Q ⟨⟩ { u with log := t :: u.log } := wp_modify _

/-- What holds of the results of `m'` holds of those of `m`. -/
theorem Erases.wp_iff (h : Erases m m') {Q : α → σ → Prop} {E : ε → Prop} :
    wp m (fun a v => Q a v.state) E u ↔ wp m' Q E u.state := by
  unfold wp
  rw [← h u]
  cases m u <;> rfl

theorem erases_pure (a : α) : Erases (pure a : Code ε (Logged σ τ) α) (pure a) := fun _ => rfl

theorem erases_throw (e : ε) : Erases (throw e : Code ε (Logged σ τ) α) (throw e) := fun _ => rfl

theorem erases_quietly (m : Code ε σ α) : Erases (quietly m : Code ε (Logged σ τ) α) m := by
  intro u
  unfold quietly zoom
  cases m u.state <;> rfl

theorem Erases.bind {f : α → Code ε (Logged σ τ) β} {f' : α → Code ε σ β} (h : Erases m m')
    (hf : ∀ a, Erases (f a) (f' a)) : Erases (m >>= f) (m' >>= f') := by
  intro u
  have hm := h u
  change ((m u).bind fun p => f p.1 p.2).map _ = (m' u.state).bind fun p => f' p.1 p.2
  rw [← hm]
  cases m u with
  | error e => rfl
  | ok p => exact hf p.1 p.2

theorem erases_get_bind {f : Logged σ τ → Code ε (Logged σ τ) β} {f' : σ → Code ε σ β}
    (hf : ∀ u, Erases (f u) (f' u.state)) : Erases (get >>= f) (get >>= f') := fun u => hf u u

theorem Erases.note_bind {f : PUnit → Code ε (Logged σ τ) α} (t : τ) (hf : Erases (f ⟨⟩) m') :
    Erases (note t >>= f) m' := fun u => hf { u with log := t :: u.log }

theorem Erases.ite {c : Prop} [Decidable c] {n : Code ε (Logged σ τ) α} {n' : Code ε σ α}
    (h : Erases m m') (hn : Erases n n') : Erases (if c then m else n) (if c then m' else n') := by
  split
  · exact h
  · exact hn

end Code

end DecaFS
