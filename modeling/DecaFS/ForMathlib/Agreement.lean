import DecaFS.ForMathlib.Keeps

/-!
# Code that agrees with other code

`Agrees N P m m'` compares two programs over the same states: what the first returns in a state that
satisfies `P`, the second returns as well. The programs may differ where a state is passed that does
not satisfy `P`, as long as `P` cannot come back: the relation `N` between the states before and after
(a `Narrowing`) takes `P` from the end of a run to all of its states. `N s s` says that a program may
run in `s`.
-/

namespace DecaFS

universe u

namespace Code

variable {σ ε : Type u} {α β : Type u}

/-- Where `P` holds at the end, it held all along. -/
structure Narrowing (N : σ → σ → Prop) (P : σ → Prop) : Prop where
  right : ∀ s t, N s t → N t t
  back : ∀ s t, N s t → P t → P s

/-- What `m` returns in a state with `P`, `m'` returns as well. -/
structure Agrees (N : σ → σ → Prop) (P : σ → Prop) (m m' : Code ε σ α) : Prop where
  narrows : ∀ s, m.Keeps (N s)
  agree : ∀ s a s', N s s → m s = .ok (a, s') → P s' → m' s = .ok (a, s')

variable {N : σ → σ → Prop} {P : σ → Prop} {m m' : Code ε σ α} {f f' : α → Code ε σ β} {s s' : σ}
  {b : β}

theorem bind_eq_ok :
    (m >>= f) s = .ok (b, s') ↔ ∃ a t, m s = .ok (a, t) ∧ f a t = .ok (b, s') := by
  have hbind : (m >>= f) s = (m s).bind fun p => f p.1 p.2 := rfl
  rw [hbind]
  cases hm : m s with
  | error e => simp [Except.bind]
  | ok p =>
    refine ⟨fun h => ⟨p.1, p.2, rfl, h⟩, fun ⟨a, t, heq, hf⟩ => ?_⟩
    obtain rfl := Except.ok.inj heq
    exact hf

theorem Agrees.of_keeps (h : ∀ s, m.Keeps (N s)) : Agrees N P m m :=
  ⟨h, fun _ _ _ _ hrun _ => hrun⟩

theorem Agrees.bind (hN : Narrowing N P) (h : Agrees N P m m') (hf : ∀ a, Agrees N P (f a) (f' a)) :
    Agrees N P (m >>= f) (m' >>= f') where
  narrows s := (h.narrows s).bind fun a => (hf a).narrows s
  agree s b s' hs hrun hP := by
    obtain ⟨a, t, hm, hrest⟩ := bind_eq_ok.mp hrun
    have ht := (h.narrows s).of_ok hm hs
    have hback := hN.back t s' (((hf a).narrows t).of_ok hrest (hN.right s t ht)) hP
    exact bind_eq_ok.mpr ⟨a, t, h.agree s a t hs hm hback,
      (hf a).agree t b s' (hN.right s t ht) hrest hP⟩

/-- The programs begin alike. -/
theorem Agrees.after (hN : Narrowing N P) (h : ∀ s, m.Keeps (N s))
    (hf : ∀ a, Agrees N P (f a) (f' a)) : Agrees N P (m >>= f) (m >>= f') :=
  .bind hN (.of_keeps h) hf

theorem Agrees.ite {c : Prop} [Decidable c] {m₁ m₁' : Code ε σ α} (h : Agrees N P m m')
    (h₁ : Agrees N P m₁ m₁') : Agrees N P (if c then m else m₁) (if c then m' else m₁') := by
  split
  · exact h
  · exact h₁

end Code

end DecaFS
