import Mathlib.Data.List.Basic

/-!
# Runs of labelled transition relations

A system is a relation `step : σ → ι → σ → Prop`; a run is the list of labels it takes from
one state to another. A label may carry the result of the step as well as its input, so that
"the results are those of the abstract machine" is trace inclusion.

* `Steps.invariant`: what holds at the start and is kept by every step holds at the end of
  every run.
* `Steps.simulation`: forward simulation, a run of the concrete system is a run of the
  abstract one.
* `Steps.guarded_iff_accepted`: simulation under a condition `C` on single steps. When the
  abstract system refuses exactly the steps outside `C`, a concrete run is an abstract run
  if and only if all its steps meet `C`.
* `Inevitably`: steps of one kind come to a state with a property, in whatever order they are taken;
  by a measure (`Inevitably.of_measure`).
-/

namespace DecaFS

variable {σ τ ι : Type*}

/-- `Steps step s is t`: the labels `is` lead from `s` to `t`. -/
inductive Steps (step : σ → ι → σ → Prop) : σ → List ι → σ → Prop
  | refl (s : σ) : Steps step s [] s
  | cons {s t u : σ} {i : ι} {is : List ι} (head : step s i t) (tail : Steps step t is u) :
      Steps step s (i :: is) u

/-- The steps of `step` that meet the condition `C` on the state before and the label. -/
def Guarded (C : σ → ι → Prop) (step : σ → ι → σ → Prop) : σ → ι → σ → Prop :=
  fun s i t => C s i ∧ step s i t

namespace Steps

variable {step : σ → ι → σ → Prop} {spec : τ → ι → τ → Prop} {C : σ → ι → Prop}
  {s t u : σ} {is js : List ι}

@[simp]
theorem nil_iff : Steps step s [] t ↔ s = t :=
  ⟨fun h => by cases h; rfl, fun h => h ▸ .refl s⟩

theorem cons_iff {i : ι} : Steps step s (i :: is) u ↔ ∃ t, step s i t ∧ Steps step t is u :=
  ⟨fun h => by cases h with | cons h₁ h₂ => exact ⟨_, h₁, h₂⟩, fun ⟨_, h₁, h₂⟩ => .cons h₁ h₂⟩

theorem single {i : ι} (h : step s i t) : Steps step s [i] t :=
  .cons h (.refl t)

theorem trans (h₁ : Steps step s is t) (h₂ : Steps step t js u) : Steps step s (is ++ js) u := by
  induction h₁ with
  | refl _ => exact h₂
  | cons head _ ih => exact .cons head (ih h₂)

theorem mono {step' : σ → ι → σ → Prop} (hle : ∀ s i t, step s i t → step' s i t)
    (h : Steps step s is t) : Steps step' s is t := by
  induction h with
  | refl s => exact .refl s
  | cons head _ ih => exact .cons (hle _ _ _ head) ih

theorem of_guarded (h : Steps (Guarded C step) s is t) : Steps step s is t :=
  h.mono fun _ _ _ hst => hst.2

theorem guarded_of_forall {P : ι → Prop} (h : Steps step s is t) (hP : ∀ i ∈ is, P i) :
    Steps (Guarded (fun _ => P) step) s is t := by
  induction h with
  | refl s => exact .refl s
  | cons head _ ih =>
    exact .cons ⟨hP _ List.mem_cons_self, head⟩ (ih fun i hi => hP i (List.mem_cons_of_mem _ hi))

/-- **The invariant rule.** -/
theorem invariant {I : σ → Prop} (hstep : ∀ s i t, I s → step s i t → I t)
    (h : Steps step s is t) (hs : I s) : I t := by
  induction h with
  | refl _ => exact hs
  | cons head _ ih => exact ih (hstep _ _ _ hs head)

/-- What every step keeps holds at both ends of every step of the run. -/
theorem along {I : σ → Prop} (hstep : ∀ s i t, I s → step s i t → I t)
    (h : Steps step s is t) (hs : I s) :
    Steps (fun s i t => step s i t ∧ I s ∧ I t) s is t := by
  induction h with
  | refl s => exact .refl s
  | cons head _ ih =>
    have ht := hstep _ _ _ hs head
    exact .cons ⟨head, hs, ht⟩ (ih ht)

/-- **Forward simulation.** -/
theorem simulation {R : σ → τ → Prop}
    (hstep : ∀ s a i t, R s a → step s i t → ∃ b, spec a i b ∧ R t b)
    (h : Steps step s is t) {a : τ} (ha : R s a) : ∃ b, Steps spec a is b ∧ R t b := by
  induction h generalizing a with
  | refl _ => exact ⟨a, .refl a, ha⟩
  | cons head _ ih =>
    obtain ⟨b, hb, hR⟩ := hstep _ _ _ _ ha head
    obtain ⟨c, hc, hR'⟩ := ih hR
    exact ⟨c, .cons hb hc, hR'⟩

/-- **Simulation under a condition, exactly.** The abstract system follows the steps that
meet `C` and refuses the others, so a concrete run is an abstract one if and only if all its
steps meet `C`. -/
theorem guarded_iff_accepted {R : σ → τ → Prop}
    (hsim : ∀ s a i t, R s a → C s i → step s i t → ∃ b, spec a i b ∧ R t b)
    (hrefuse : ∀ s a i t b, R s a → step s i t → spec a i b → C s i)
    (hdet : ∀ a i b b', spec a i b → spec a i b' → b = b')
    (h : Steps step s is t) {a : τ} (ha : R s a) :
    Steps (Guarded C step) s is t ↔ ∃ b, Steps spec a is b := by
  constructor
  · intro hg
    obtain ⟨b, hb, -⟩ := hg.simulation (fun s a i t hR hst => hsim s a i t hR hst.1 hst.2) ha
    exact ⟨b, hb⟩
  · rintro ⟨b, hb⟩
    induction h generalizing a with
    | refl s => exact .refl s
    | cons head _ ih =>
      obtain ⟨c, hc, hcb⟩ := cons_iff.mp hb
      have hC := hrefuse _ _ _ _ _ ha head hc
      obtain ⟨c', hc', hR⟩ := hsim _ _ _ _ ha hC head
      obtain rfl := hdet _ _ _ _ hc hc'
      exact .cons ⟨hC, head⟩ (ih hR hcb)

/-! ### Runs, computed -/

section Computed

variable {next : σ → ι → Option σ}

/-- A run of a function that computes steps. -/
theorem of_foldlM (hnext : ∀ s i t, next s i = some t → step s i t) (h : is.foldlM next s = some t) :
    Steps step s is t := by
  induction is generalizing s with
  | nil =>
    obtain rfl : s = t := Option.some.inj h
    exact .refl s
  | cons i is ih =>
    rw [List.foldlM_cons] at h
    obtain ⟨u, hu, h⟩ := Option.bind_eq_some_iff.mp h
    exact .cons (hnext s i u hu) (ih h)

/-- A run is found by computing it. -/
theorem exists_of_foldlM (hnext : ∀ s i t, next s i = some t → step s i t) (s : σ) (is : List ι)
    {p : σ → Bool} (h : (is.foldlM next s).any p = true) : ∃ t, Steps step s is t ∧ p t = true := by
  obtain ⟨t, ht, hp⟩ := (Option.any_eq_true _ _).mp h
  exact ⟨t, of_foldlM hnext ht, hp⟩

end Computed

end Steps

/-! ### What cannot be avoided -/

/-- Whatever steps with labels of `A` the system takes from `s`, they come to a state with `P`, and until
then there is a next one. -/
inductive Inevitably (step : σ → ι → σ → Prop) (A : ι → Prop) (P : σ → Prop) : σ → Prop
  | now {s : σ} (holds : P s) : Inevitably step A P s
  | later {s : σ} (enabled : ∃ i t, A i ∧ step s i t)
      (rest : ∀ i t, A i → step s i t → Inevitably step A P t) : Inevitably step A P s

theorem Inevitably.imp {step : σ → ι → σ → Prop} {A : ι → Prop} {P Q : σ → Prop} {s : σ}
    (h : Inevitably step A P s) (himp : ∀ t, P t → Q t) : Inevitably step A Q s := by
  induction h with
  | now holds => exact .now (himp _ holds)
  | later enabled _ ih => exact .later enabled ih

/-- While `I` holds each step makes `μ` smaller, and where `P` does not hold there is a step. -/
theorem Inevitably.of_measure {step : σ → ι → σ → Prop} {A : ι → Prop} {P I : σ → Prop} (μ : σ → ℕ)
    (hstep : ∀ s i t, I s → A i → step s i t → I t ∧ μ t < μ s)
    (henabled : ∀ s, I s → P s ∨ ∃ i t, A i ∧ step s i t) {s : σ} (hs : I s) :
    Inevitably step A P s := by
  induction hn : μ s using Nat.strongRecOn generalizing s with
  | ind n ih =>
    rcases henabled s hs with hP | hsome
    · exact .now hP
    · refine .later hsome fun i t hi hst => ?_
      obtain ⟨ht, hlt⟩ := hstep s i t hs hi hst
      exact ih (μ t) (hn ▸ hlt) ht rfl

end DecaFS
