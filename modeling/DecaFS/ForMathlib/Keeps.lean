import DecaFS.ForMathlib.WeakestPre

/-!
# Invariants of stateful code

`m.Keeps I` says that `m`, wherever it is run, keeps the invariant `I` of the state if it returns;
where it stops is of no concern. The rules follow the code from call to call, so that a proof about
a long function names the calls that matter and passes over the others. `wp_bind_keeps` is for a call
whose value is needed as well.
-/

namespace DecaFS

universe u

namespace Code

variable {σ τ ε : Type u} {α β : Type u}

/-- `m` keeps `I`, wherever it is run. -/
def Keeps (m : Code ε σ α) (I : σ → Prop) : Prop :=
  ∀ s, I s → wp m (fun _ s' => I s') (fun _ => True) s

variable {m : Code ε σ α} {f : α → Code ε σ β} {I : σ → Prop} {s s' : σ} {a : α}

theorem Keeps.of_ok (h : m.Keeps I) (hm : m s = .ok (a, s')) (hs : I s) : I s' :=
  (h s hs).of_ok hm

theorem keeps_pure (a : α) : (pure a : Code ε σ α).Keeps I := fun _ hs => (wp_pure a).mpr hs

theorem keeps_throw (e : ε) : (throw e : Code ε σ α).Keeps I :=
  fun _ _ => (wp_throw e).mpr trivial

theorem keeps_get : (get : Code ε σ σ).Keeps I := fun _ hs => wp_get.mpr hs

theorem keeps_modify {f : σ → σ} (h : ∀ s, I s → I (f s)) :
    (modify f : Code ε σ PUnit).Keeps I :=
  fun s hs => (wp_modify f).mpr (h s hs)

theorem Keeps.bind (h : m.Keeps I) (hf : ∀ a, (f a).Keeps I) : (m >>= f).Keeps I :=
  fun s hs => (wp_bind m f).mpr (wp_mono (h s hs) (fun a s' hs' => hf a s' hs') fun _ _ => trivial)

/-- Code that goes on with a value of which something is known. -/
theorem wp_bind_keeps {Q : α → Prop} (h : wp m (fun a s' => Q a ∧ I s') (fun _ => True) s)
    (hf : ∀ a, Q a → (f a).Keeps I) : wp (m >>= f) (fun _ s' => I s') (fun _ => True) s :=
  (wp_bind m f).mpr (wp_mono h (fun a s' hs' => hf a hs'.1 s' hs'.2) fun _ _ => trivial)

/-- Code that looks at the state first. -/
theorem keeps_get_bind {f : σ → Code ε σ β}
    (h : ∀ s, I s → wp (f s) (fun _ s' => I s') (fun _ => True) s) :
    ((get : Code ε σ σ) >>= f).Keeps I :=
  fun s hs => (wp_bind get f).mpr (wp_get.mpr (h s hs))

theorem Keeps.ite {c : Prop} [Decidable c] {m' : Code ε σ α} (h : m.Keeps I) (h' : m'.Keeps I) :
    (if c then m else m').Keeps I := by
  split
  · exact h
  · exact h'

/-- Code of a component that `I` does not look at. -/
theorem keeps_zoom {get : σ → τ} {put : τ → σ → σ} {m : Code ε τ α}
    (h : ∀ s t, I s → I (put t s)) : (zoom get put m).Keeps I := fun s hs =>
  (wp_zoom get put m).mpr (by
    unfold wp
    cases hm : m (get s) with
    | ok p => exact h s p.2 hs
    | error e => trivial)

theorem keeps_zoom_modify {get : σ → τ} {put : τ → σ → σ} {f : τ → τ}
    (h : ∀ s, I s → I (put (f (get s)) s)) : (zoom get put (modify f : Code ε τ PUnit)).Keeps I :=
  fun s hs => (wp_zoom get put _).mpr ((wp_modify f).mpr (h s hs))

/-- Code of a component with an invariant of its own. -/
theorem Keeps.zoom {get : σ → τ} {put : τ → σ → σ} {m : Code ε τ α} {J : τ → Prop} (h : m.Keeps J)
    (hget : ∀ s, I s → J (get s)) (hput : ∀ s t, I s → J t → I (put t s)) :
    (zoom get put m).Keeps I := fun s hs =>
  (wp_zoom get put m).mpr
    (wp_mono (h (get s) (hget s hs)) (fun _ t ht => hput s t hs ht) fun _ _ => trivial)

end Code

end DecaFS
