import DecaFS.ForMathlib.Keeps

/-!
# The steps that touch a component

`put b s` is the state `s` with `b` in one of its components. Code is `Apart` from the component if it
does the same whatever is in there, and leaves it. `m.Through put P s` says that `m`, run from `s`,
comes to the component only in steps that `P` admits where they are taken, up to the point where `m`
returns or stops.

`Orderly` adds an invariant of the states between the steps. Its rules follow the code from call to
call, as those of `Keeps` do.
-/

namespace DecaFS

universe u

namespace Code

variable {σ τ ε β : Type u} {α γ : Type u}

/-- `m` does the same whatever is in the component, which it leaves as it is. -/
def Apart (put : β → σ → σ) (m : Code ε σ α) : Prop :=
  ∀ b s, m (put b s) = (m s).map fun p => (p.1, put b p.2)

/-- Run from the state, `m` comes to the component only in steps that `P` admits. -/
inductive Through (put : β → σ → σ) (P : ∀ ⦃α : Type u⦄, Code ε σ α → σ → Prop) :
    ∀ {α : Type u}, Code ε σ α → σ → Prop
  | apart {α : Type u} {m : Code ε σ α} {s : σ} (h : m.Apart put) : Through put P m s
  | admitted {α : Type u} {m : Code ε σ α} {s : σ} (h : P m s) : Through put P m s
  | read {α : Type u} {f : σ → Code ε σ α} {s : σ} (h : ∀ b s, f (put b s) = f s)
      (hf : Through put P (f s) s) : Through put P (get >>= f) s
  | bind {α γ : Type u} {m : Code ε σ α} {f : α → Code ε σ γ} {s : σ} (h : Through put P m s)
      (hf : ∀ a s', m s = .ok (a, s') → Through put P (f a) s') : Through put P (m >>= f) s

section

variable {put : β → σ → σ} {P : ∀ ⦃α : Type u⦄, Code ε σ α → σ → Prop} {m : Code ε σ α}
  {f : α → Code ε σ γ} {I : σ → Prop} {s : σ}

/-! ### Apart from the component -/

theorem apart_pure (a : α) : (pure a : Code ε σ α).Apart put := by
  intro b s
  rfl

theorem apart_throw (e : ε) : (throw e : Code ε σ α).Apart put := by
  intro b s
  rfl

/-- Code of another component. -/
theorem apart_zoom {get : σ → τ} {set : τ → σ → σ} {m : Code ε τ α}
    (hget : ∀ b s, get (put b s) = get s) (hset : ∀ b t s, set t (put b s) = put b (set t s)) :
    (zoom get set m).Apart put := by
  intro b s
  simp only [zoom, hget]
  cases m (get s) with
  | ok p => simp only [Except.map, hset]
  | error e => rfl

/-! ### Sequencing -/

theorem bind_of_ok {a : α} {s' : σ} (h : m s = .ok (a, s')) : (m >>= f) s = f a s' := by
  have hbind : (m >>= f) s = (m s).bind fun p => f p.1 p.2 := rfl
  rw [hbind, h]
  rfl

theorem bind_of_error {e : ε} (h : m s = .error e) : (m >>= f) s = .error e := by
  have hbind : (m >>= f) s = (m s).bind fun p => f p.1 p.2 := rfl
  rw [hbind, h]
  rfl

/-! ### Orderly code -/

/-- Run from the state, `m` comes to the component only in steps that `P` admits, and keeps `I`. -/
structure OrderlyAt (put : β → σ → σ) (P : ∀ ⦃α : Type u⦄, Code ε σ α → σ → Prop) (I : σ → Prop)
    (m : Code ε σ α) (s : σ) : Prop where
  through : m.Through put P s
  kept : ∀ a s', m s = .ok (a, s') → I s'

/-- `m` comes to the component only in steps that `P` admits, wherever it is run in a state of `I`,
which it keeps. -/
def Orderly (put : β → σ → σ) (P : ∀ ⦃α : Type u⦄, Code ε σ α → σ → Prop) (I : σ → Prop)
    (m : Code ε σ α) : Prop :=
  ∀ s, I s → m.OrderlyAt put P I s

/-- Code apart from the component that keeps the invariant. -/
theorem orderlyAt_of_apart (h : m.Apart put) (hI : ∀ a s', m s = .ok (a, s') → I s') :
    m.OrderlyAt put P I s :=
  ⟨.apart h, hI⟩

theorem orderly_of_keeps (h : m.Apart put) (hI : m.Keeps I) : m.Orderly put P I := fun _ hs =>
  orderlyAt_of_apart h fun _ _ hm => hI.of_ok hm hs

theorem orderly_pure (a : α) : (pure a : Code ε σ α).Orderly put P I :=
  orderly_of_keeps (apart_pure a) (keeps_pure a)

theorem orderly_throw (e : ε) : (throw e : Code ε σ α).Orderly put P I :=
  orderly_of_keeps (apart_throw e) (keeps_throw e)

/-- The sequencing rule. -/
theorem OrderlyAt.bind (h : m.OrderlyAt put P I s)
    (hf : ∀ a s', m s = .ok (a, s') → I s' → (f a).OrderlyAt put P I s') :
    (m >>= f).OrderlyAt put P I s := by
  have hrest : ∀ a s', m s = .ok (a, s') → (f a).OrderlyAt put P I s' :=
    fun a s' hm => hf a s' hm (h.kept a s' hm)
  refine ⟨.bind h.through fun a s' hm => (hrest a s' hm).through, fun c s'' hok => ?_⟩
  cases hm : m s with
  | ok p =>
    rw [bind_of_ok hm] at hok
    exact (hrest p.1 p.2 hm).kept c s'' hok
  | error e =>
    rw [bind_of_error hm] at hok
    exact nomatch hok

theorem Orderly.bind (h : m.Orderly put P I) (hf : ∀ a, (f a).Orderly put P I) :
    (m >>= f).Orderly put P I :=
  fun s hs => (h s hs).bind fun a s' _ hs' => hf a s' hs'

/-- Code that looks at the state first, past the component. -/
theorem OrderlyAt.read {f : σ → Code ε σ α} (h : ∀ b s, f (put b s) = f s)
    (hf : (f s).OrderlyAt put P I s) : ((get : Code ε σ σ) >>= f).OrderlyAt put P I s :=
  ⟨.read h hf.through, hf.kept⟩

theorem Orderly.read {f : σ → Code ε σ α} (h : ∀ b s, f (put b s) = f s)
    (hf : ∀ t, (f t).Orderly put P I) : ((get : Code ε σ σ) >>= f).Orderly put P I :=
  fun s hs => .read h (hf s s hs)

theorem Orderly.ite {c : Prop} [Decidable c] {m' : Code ε σ α} (h : m.Orderly put P I)
    (h' : m'.Orderly put P I) : (if c then m else m').Orderly put P I := by
  split
  · exact h
  · exact h'

/-- Code of another component, whose values the invariant does not look at. -/
theorem orderly_zoom {get : σ → τ} {set : τ → σ → σ} {m : Code ε τ α}
    (hget : ∀ b s, get (put b s) = get s) (hset : ∀ b t s, set t (put b s) = put b (set t s))
    (hI : ∀ s t, I s → I (set t s)) : (zoom get set m).Orderly put P I :=
  orderly_of_keeps (apart_zoom hget hset) (keeps_zoom hI)

end

end Code

end DecaFS
