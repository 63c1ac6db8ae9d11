import DecaFS.ForMathlib.Transition
import Mathlib.Data.List.Forall2
import Mathlib.Logic.Function.Basic
import Mathlib.Logic.Relation

/-!
# Servers that answer their callers

A server takes calls and answers them, at once or later. What its callers see of it is a `Front`: the
requests that it is still working on, each with the caller that it is from, and the answers that it has
given. Serving a call gives it an answer or makes it a request (`Serves`), and while it is served, as at
any other time, requests end with an answer (`Finish`).

* `Matched`: the calls of a caller are those that it has the answers of, and those that it waits for.
  Every run keeps it (`Matched.run`), in whatever order the requests end.
* `InOrder`: a caller waits for one call at most, and has its answers in the order of its calls. Every
  run keeps it in which the caller only calls when it has as many answers as it made calls
  (`InOrder.run`).

Callers can be taken together by what is known of them: who serves them, serves what is seen then
(`Serves.map`).
-/

namespace DecaFS

/-- What callers in `γ` see of a server: its requests, known by keys in `κ`, and the answers that it
has given, newest first. -/
structure Front (κ γ ρ : Type*) where
  active : κ → Option γ
  answers : List (γ × ρ)

/-- Which calls in `ι` are from whom, what requests they become, with which answers requests end, and
which answers calls wait for. -/
structure CallProtocol (ι κ γ ρ : Type*) where
  caller : ι → Option γ
  opens : ι → κ → Prop
  ends : κ → ρ → Prop
  awaits : ι → ρ → Prop
  awaits_of_ends : ∀ i k r, opens i k → ends k r → awaits i r

/-- The protocol, where only `g` is known of the callers. -/
def CallProtocol.map {ι κ γ ρ δ : Type*} (g : γ → δ) (P : CallProtocol ι κ γ ρ) :
    CallProtocol ι κ δ ρ where
  caller i := (P.caller i).map g
  opens := P.opens
  ends := P.ends
  awaits := P.awaits
  awaits_of_ends := P.awaits_of_ends

namespace Front

variable {ι κ γ ρ σ : Type*} [DecidableEq γ] {P : CallProtocol ι κ γ ρ}
  {s t u : Front κ γ ρ} {c : γ} {i : ι} {is calls : List ι} {view : σ → Front κ γ ρ}
  {step : σ → ι → σ → Prop} {x y : σ}

/-- The answers that `c` was given, newest first. -/
def answersTo (c : γ) (s : Front κ γ ρ) : List ρ := (s.answers.filter (·.1 = c)).map Prod.snd

/-- The calls of `c`. -/
def callsOf (P : CallProtocol ι κ γ ρ) (c : γ) (is : List ι) : List ι :=
  is.filter fun i => P.caller i = some c

/-- The calls `answered` have the answers that `c` was given, each its own, newest first, and it waits
for the calls `waiting`. -/
structure Accounts (P : CallProtocol ι κ γ ρ) (c : γ) (answered : List ι) (waiting : List (ι × κ))
    (s : Front κ γ ρ) : Prop where
  answers : List.Forall₂ P.awaits answered (s.answersTo c)
  nodup : (waiting.map Prod.snd).Nodup
  active : ∀ k, s.active k = some c ↔ k ∈ waiting.map Prod.snd
  opens : ∀ p ∈ waiting, P.opens p.1 p.2

/-- The calls of `c` are those that it has the answers of, and those that it waits for. -/
def Matched (P : CallProtocol ι κ γ ρ) (c : γ) (calls : List ι) (s : Front κ γ ρ) : Prop :=
  ∃ (answered : List ι) (waiting : List (ι × κ)), Accounts P c answered waiting s ∧
    calls.Perm (waiting.map Prod.fst ++ answered)

/-- The calls of `c`, newest first, have their answers in that order, but for one at most that it waits
for. -/
def InOrder (P : CallProtocol ι κ γ ρ) (c : γ) (calls : List ι) (s : Front κ γ ρ) : Prop :=
  ∃ (answered : List ι) (waiting : List (ι × κ)), Accounts P c answered waiting s ∧
    calls = waiting.map Prod.fst ++ answered ∧ waiting.length ≤ 1

/-! ### Accounts -/

theorem callsOf_reverse_cons :
    callsOf P c is.reverse ++ (callsOf P c [i] ++ calls) = callsOf P c (i :: is).reverse ++ calls := by
  rw [← List.append_assoc, callsOf, callsOf, ← List.filter_append, ← List.reverse_cons, ← callsOf]

theorem answersTo_cons_self (active : κ → Option γ) (r : ρ) :
    answersTo c ⟨active, (c, r) :: s.answers⟩ = r :: s.answersTo c := by
  simp [answersTo]

theorem answersTo_cons_of_ne {c' : γ} (h : c' ≠ c) (active : κ → Option γ) (r : ρ) :
    answersTo c ⟨active, (c', r) :: s.answers⟩ = s.answersTo c := by
  simp [answersTo, h]

namespace Accounts

variable {answered : List ι} {waiting : List (ι × κ)}

theorem nil (hactive : ∀ k, s.active k ≠ some c) (hanswers : s.answersTo c = []) :
    Accounts P c [] [] s := by
  refine ⟨?_, List.nodup_nil, fun k => ?_, by simp⟩
  · rw [hanswers]
    exact .nil
  · simpa using hactive k

/-- An answer to `c`. -/
theorem answer (h : Accounts P c answered waiting s) {r : ρ} (hr : P.awaits i r)
    (hactive : ∀ k, t.active k = some c ↔ k ∈ waiting.map Prod.snd)
    (hanswers : t.answersTo c = r :: s.answersTo c) : Accounts P c (i :: answered) waiting t := by
  refine ⟨?_, h.nodup, hactive, h.opens⟩
  rw [hanswers]
  exact .cons hr h.answers

/-- Nothing that `c` sees. -/
theorem same (h : Accounts P c answered waiting s)
    (hactive : ∀ k, t.active k = some c ↔ s.active k = some c)
    (hanswers : t.answersTo c = s.answersTo c) : Accounts P c answered waiting t :=
  ⟨hanswers ▸ h.answers, h.nodup, fun k => (hactive k).trans (h.active k), h.opens⟩

end Accounts

/-- The answers are to the first calls. -/
theorem InOrder.answered (h : InOrder P c calls s) :
    ∃ answered, answered <:+ calls ∧ List.Forall₂ P.awaits answered (s.answersTo c) := by
  obtain ⟨answered, waiting, haccounts, rfl, -⟩ := h
  exact ⟨answered, List.suffix_append _ _, haccounts.answers⟩

/-! ### Calls and requests -/

variable [DecidableEq κ]

/-- A request ends with an answer. -/
inductive Finish (P : CallProtocol ι κ γ ρ) : Front κ γ ρ → Front κ γ ρ → Prop
  | intro {s : Front κ γ ρ} {k : κ} {c : γ} {r : ρ} (active : s.active k = some c) (ends : P.ends k r) :
    Finish P s ⟨Function.update s.active k none, (c, r) :: s.answers⟩

/-- Any requests end, one after the other. -/
abbrev Finishes (P : CallProtocol ι κ γ ρ) : Front κ γ ρ → Front κ γ ρ → Prop :=
  Relation.ReflTransGen (Finish P)

/-- The server takes `i` from the world around it. -/
inductive Serves (P : CallProtocol ι κ γ ρ) : Front κ γ ρ → ι → Front κ γ ρ → Prop
  | answer {s : Front κ γ ρ} {i : ι} {c : γ} {r : ρ} (caller : P.caller i = some c) (kind : P.awaits i r) :
    Serves P s i { s with answers := (c, r) :: s.answers }
  | request {s t : Front κ γ ρ} {i : ι} {c : γ} {k : κ} (caller : P.caller i = some c) (kind : P.opens i k)
      (new : s.active k = none)
      (rest : Finishes P { s with active := Function.update s.active k (some c) } t) : Serves P s i t
  | other {s t : Front κ γ ρ} {i : ι} (caller : P.caller i = none) (rest : Finishes P s t) : Serves P s i t

namespace Accounts

variable {answered : List ι} {waiting : List (ι × κ)}

/-- A request that ends is not waited for, or its call is answered. -/
theorem finish (h : Accounts P c answered waiting s) (hst : Finish P s t) :
    Accounts P c answered waiting t ∨ ∃ i k before behind, waiting = before ++ (i, k) :: behind ∧
      Accounts P c (i :: answered) (before ++ behind) t := by
  cases hst with
  | @intro k c' r active ends =>
    by_cases hc : c' = c
    · subst hc
      obtain ⟨⟨i, k'⟩, hmem, hk⟩ := List.mem_map.mp ((h.active k).mp active)
      obtain rfl : k' = k := hk
      obtain ⟨before, behind, rfl⟩ := List.append_of_mem hmem
      have hnodup := h.nodup
      simp only [List.map_append, List.map_cons] at hnodup
      obtain ⟨hnot, hrest⟩ := List.nodup_cons.mp (List.perm_middle.nodup_iff.mp hnodup)
      refine .inr ⟨i, k', before, behind, rfl, ?_⟩
      have hleft : Accounts P c' answered (before ++ behind)
          ⟨Function.update s.active k' none, s.answers⟩ := by
        refine ⟨h.answers, by simpa using hrest, fun k => ?_, fun p hp => h.opens p ?_⟩
        · simp only [List.map_append]
          rcases eq_or_ne k k' with rfl | hne
          · simpa only [Function.update_self, reduceCtorEq, false_iff] using hnot
          · simp only [Function.update_of_ne hne, h.active k, List.map_append, List.map_cons,
              List.mem_append, List.mem_cons, hne, false_or]
        · rcases List.mem_append.mp hp with hp | hp
          · exact List.mem_append_left _ hp
          · exact List.mem_append_right _ (List.mem_cons_of_mem _ hp)
      refine hleft.answer (P.awaits_of_ends i k' r (h.opens _ hmem) ends) hleft.active ?_
      exact answersTo_cons_self _ r
    · refine .inl (h.same (fun k' => ?_) (answersTo_cons_of_ne hc _ r))
      rcases eq_or_ne k' k with rfl | hne
      · simp [active, hc]
      · simp only [Function.update_of_ne hne]

/-- A call of `c` that becomes a request. -/
theorem request (h : Accounts P c answered waiting s) {k : κ} (hk : P.opens i k)
    (hnew : s.active k = none) : Accounts P c answered ((i, k) :: waiting)
      { s with active := Function.update s.active k (some c) } := by
  have hnot : k ∉ waiting.map Prod.snd := by
    rw [← h.active k, hnew]
    simp
  refine ⟨h.answers, List.nodup_cons.mpr ⟨hnot, h.nodup⟩, fun k' => ?_, ?_⟩
  · rcases eq_or_ne k' k with rfl | hne
    · simp
    · simp only [Function.update_of_ne hne, h.active k', List.map_cons, List.mem_cons, hne, false_or]
  · rintro p (_ | ⟨_, hp⟩)
    · exact hk
    · exact h.opens p hp

/-- What serving a call does to the accounts of `c`, before requests end. -/
theorem serves (h : Accounts P c answered waiting s) (hst : Serves P s i t) :
    (P.caller i = some c ∧ Accounts P c (i :: answered) waiting t) ∨
    (∃ k u, P.caller i = some c ∧ Accounts P c answered ((i, k) :: waiting) u ∧ Finishes P u t) ∨
    ∃ u, P.caller i ≠ some c ∧ Accounts P c answered waiting u ∧ Finishes P u t := by
  cases hst with
  | @answer _ c' r caller kind =>
    by_cases hc : c' = c
    · subst hc
      exact .inl ⟨caller, h.answer kind h.active (answersTo_cons_self _ r)⟩
    · have hsame : Accounts P c answered waiting ⟨s.active, (c', r) :: s.answers⟩ :=
        h.same (fun _ => .rfl) (answersTo_cons_of_ne hc _ r)
      exact .inr (.inr ⟨_, by simpa [caller] using hc, hsame, .refl⟩)
  | @request _ _ c' k caller kind new rest =>
    by_cases hc : c' = c
    · subst hc
      exact .inr (.inl ⟨k, _, caller, h.request kind new, rest⟩)
    · have hactive : ∀ k', Function.update s.active k (some c') k' = some c ↔ s.active k' = some c := by
        intro k'
        rcases eq_or_ne k' k with rfl | hne
        · simp [new, hc]
        · rw [Function.update_of_ne hne]
      have hsame : Accounts P c answered waiting ⟨Function.update s.active k (some c'), s.answers⟩ :=
        h.same hactive rfl
      exact .inr (.inr ⟨_, by simpa [caller] using hc, hsame, rest⟩)
  | other caller rest => exact .inr (.inr ⟨s, by simp [caller], h, rest⟩)

end Accounts

/-! ### Any callers -/

theorem Matched.finishes (h : Matched P c calls s) (hst : Finishes P s t) : Matched P c calls t := by
  induction hst with
  | refl => exact h
  | tail _ hstep ih =>
    obtain ⟨answered, waiting, haccounts, hperm⟩ := ih
    rcases haccounts.finish hstep with hsame | ⟨i, k, before, behind, rfl, hended⟩
    · exact ⟨answered, waiting, hsame, hperm⟩
    · refine ⟨i :: answered, before ++ behind, hended, hperm.trans ?_⟩
      simp only [List.map_append, List.map_cons, List.append_assoc, List.cons_append]
      exact List.Perm.append_left _ List.perm_middle.symm

/-- **The step lemma.** -/
theorem Matched.serves (h : Matched P c calls s) (hst : Serves P s i t) :
    Matched P c (callsOf P c [i] ++ calls) t := by
  obtain ⟨answered, waiting, haccounts, hperm⟩ := h
  rcases haccounts.serves hst with ⟨hcaller, hnow⟩ | ⟨k, u, hcaller, hthen, hrest⟩ | ⟨u, hother, hthen, hrest⟩
  · refine ⟨i :: answered, waiting, hnow, ?_⟩
    simpa [callsOf, hcaller] using (hperm.cons i).trans List.perm_middle.symm
  · refine Matched.finishes ⟨answered, (i, k) :: waiting, hthen, ?_⟩ hrest
    simpa [callsOf, hcaller] using hperm
  · refine Matched.finishes ⟨answered, waiting, hthen, ?_⟩ hrest
    simpa [callsOf, hother] using hperm

/-- The steps of a system that serve what they take, as the callers see it. -/
def Viewed (P : CallProtocol ι κ γ ρ) (view : σ → Front κ γ ρ) (step : σ → ι → σ → Prop) :
    σ → ι → σ → Prop :=
  fun x i y => step x i y ∧ Serves P (view x) i (view y)

/-- **The run lemma.** -/
theorem Matched.run (h : Matched P c calls (view x)) (hrun : Steps (Viewed P view step) x is y) :
    Matched P c (callsOf P c is.reverse ++ calls) (view y) := by
  induction hrun generalizing calls with
  | refl x => exact h
  | cons head _ ih =>
    rw [← callsOf_reverse_cons]
    exact ih (h.serves head.2)

/-! ### Callers that wait for each answer -/

theorem InOrder.finishes (h : InOrder P c calls s) (hst : Finishes P s t) : InOrder P c calls t := by
  induction hst with
  | refl => exact h
  | tail _ hstep ih =>
    obtain ⟨answered, waiting, haccounts, hcalls, hone⟩ := ih
    rcases haccounts.finish hstep with hsame | ⟨i, k, before, behind, rfl, hended⟩
    · exact ⟨answered, waiting, hsame, hcalls, hone⟩
    · -- the call that ends is the only one waited for
      have hlength : before.length + behind.length = 0 := by
        simp only [List.length_append, List.length_cons] at hone
        omega
      obtain ⟨rfl, rfl⟩ : before = [] ∧ behind = [] := by
        constructor <;> refine List.length_eq_zero_iff.mp ?_ <;> omega
      exact ⟨i :: answered, [], hended, hcalls, Nat.zero_le _⟩

/-- **The step lemma.** The caller has an answer to each of its calls when it makes another. -/
theorem InOrder.serves (h : InOrder P c calls s) (hst : Serves P s i t)
    (hwaits : P.caller i = some c → (s.answersTo c).length = calls.length) :
    InOrder P c (callsOf P c [i] ++ calls) t := by
  obtain ⟨answered, waiting, haccounts, rfl, hone⟩ := h
  have hnone : P.caller i = some c → waiting = [] := by
    intro hcaller
    have hcount := hwaits hcaller
    rw [← haccounts.answers.length_eq, List.length_append, List.length_map] at hcount
    exact List.length_eq_zero_iff.mp (by omega)
  rcases haccounts.serves hst with ⟨hcaller, hnow⟩ | ⟨k, u, hcaller, hthen, hrest⟩ | ⟨u, hother, hthen, hrest⟩
  · obtain rfl := hnone hcaller
    exact ⟨i :: answered, [], hnow, by simp [callsOf, hcaller], Nat.zero_le _⟩
  · obtain rfl := hnone hcaller
    exact InOrder.finishes ⟨answered, [(i, k)], hthen, by simp [callsOf, hcaller], Nat.le_refl _⟩ hrest
  · exact InOrder.finishes ⟨answered, waiting, hthen, by simp [callsOf, hother], hone⟩ hrest

/-- The caller `c` makes a call only when it has as many answers as it made calls, `n` of them before
the run. -/
def WaitsFor (P : CallProtocol ι κ γ ρ) (view : σ → Front κ γ ρ) (step : σ → ι → σ → Prop) (c : γ) (n : ℕ)
    (x : σ) (is : List ι) : Prop :=
  ∀ before i behind y, is = before ++ i :: behind → P.caller i = some c → Steps step x before y →
    ((view y).answersTo c).length = n + (callsOf P c before).length

/-- **The run lemma.** -/
theorem InOrder.run (h : InOrder P c calls (view x)) (hrun : Steps (Viewed P view step) x is y)
    (hwaits : WaitsFor P view step c calls.length x is) :
    InOrder P c (callsOf P c is.reverse ++ calls) (view y) := by
  induction hrun generalizing calls with
  | refl x => exact h
  | @cons x z y i is head _ ih =>
    have hfirst := h.serves head.2 fun hcaller => hwaits [] i is x rfl hcaller (.refl x)
    rw [← callsOf_reverse_cons]
    refine ih hfirst fun before i' behind z' hsplit hcaller hbefore => ?_
    rw [hwaits (i :: before) i' behind z' (by rw [hsplit]; rfl) hcaller (.cons head.1 hbefore)]
    simp only [callsOf, List.length_append, List.filter_cons, List.filter_nil]
    split
    · simp
      omega
    · simp

/-! ### Callers that are told apart by less -/

section Map

variable {ι κ γ ρ δ : Type*} [DecidableEq κ] {P : CallProtocol ι κ γ ρ} {s t : Front κ γ ρ} {i : ι}

/-- Answers are only added. -/
theorem Finishes.answers_suffix (h : Finishes P s t) : s.answers <:+ t.answers := by
  induction h with
  | refl => exact List.suffix_refl _
  | tail _ hstep ih =>
    cases hstep
    exact ih.trans (List.suffix_cons _ _)

theorem Serves.answers_suffix (h : Serves P s i t) : s.answers <:+ t.answers := by
  cases h with
  | answer => exact List.suffix_cons _ _
  | request _ _ _ rest =>
    have hrest : _ <:+ t.answers := Finishes.answers_suffix rest
    exact hrest
  | other _ rest => exact Finishes.answers_suffix rest

/-- What is no call only lets requests end. -/
theorem Serves.finishes (h : Serves P s i t) (hi : P.caller i = none) : Finishes P s t := by
  cases h with
  | answer caller => exact absurd (hi.symm.trans caller) (by simp)
  | request caller => exact absurd (hi.symm.trans caller) (by simp)
  | other _ rest => exact rest

/-- What is seen where only `g` is known of the callers. -/
def map (g : γ → δ) (s : Front κ γ ρ) : Front κ δ ρ :=
  ⟨fun k => (s.active k).map g, s.answers.map fun p => (g p.1, p.2)⟩

theorem map_update (g : γ → δ) (active : κ → Option γ) (k : κ) (c : Option γ) (answers : List (γ × ρ)) :
    map g ⟨Function.update active k c, answers⟩ =
      ⟨Function.update (fun k' => (active k').map g) k (c.map g), answers.map fun p => (g p.1, p.2)⟩ := by
  have hactive : (fun k' => (Function.update active k c k').map g) =
      Function.update (fun k' => (active k').map g) k (c.map g) := by
    funext k'
    rcases eq_or_ne k' k with rfl | hne
    · rw [Function.update_self, Function.update_self]
    · rw [Function.update_of_ne hne, Function.update_of_ne hne]
  rw [map, hactive]

theorem Finish.map (g : γ → δ) (h : Finish P s t) : Finish (P.map g) (s.map g) (t.map g) := by
  cases h with
  | @intro k c r active ends =>
    have hactive : (s.map g).active k = some (g c) := congrArg (Option.map g) active
    rw [map_update]
    exact .intro (P := P.map g) hactive ends

theorem Finishes.map (g : γ → δ) (h : Finishes P s t) : Finishes (P.map g) (s.map g) (t.map g) :=
  Relation.ReflTransGen.lift (p := Finish (P.map g)) (Front.map g) (fun _ _ hst => Finish.map g hst) _ _ h

/-- **Serving, seen by less.** -/
theorem Serves.map (g : γ → δ) (h : Serves P s i t) : Serves (P.map g) (s.map g) i (t.map g) := by
  have hcaller : ∀ c, P.caller i = c → (P.map g).caller i = c.map g := by
    rintro _ rfl
    rfl
  cases h with
  | answer caller kind => exact .answer (P := P.map g) (s := s.map g) (hcaller _ caller) kind
  | request caller kind new rest =>
    have hrest := Finishes.map g rest
    rw [map_update] at hrest
    exact .request (P := P.map g) (s := s.map g) (hcaller _ caller) kind (congrArg (Option.map g) new) hrest
  | other caller rest => exact .other (P := P.map g) (hcaller _ caller) (Finishes.map g rest)

end Map

end Front

end DecaFS
