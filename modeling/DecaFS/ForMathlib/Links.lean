import DecaFS.ForMathlib.Transition
import Mathlib.Data.Finset.Insert
import Mathlib.Logic.Function.Basic

/-!
# Servers behind ordered links

A client posts requests to servers, the nodes, over links that keep the order: a node serves the
requests to it in the order they were posted, and its answers come back in that order. Nothing is said
about one node relative to another, or about when any of it happens. A link may close; what is under way
on it then stays so for good.

* `Fifo`: however the steps are interleaved, a node has done what the requests posted to it say, in that
  order and up to some point, and the client has the answers up to some earlier point (`Fifo.run`). So an
  answer that comes late is the one that would have come at once.
* `load`: with each request served and each answer taken the links have less to do
  (`Links.Step.load_serve`, `Links.Step.load_take`), and while a link is open what is under way on it can
  go on (`Links.exists_ready`).
-/

namespace DecaFS

/-- A request under way to a node, or its answer on the way back. -/
structure Parcel (ν ρ α : Type*) where
  node : ν
  request : ρ
  answer : Option α
  deriving DecidableEq

/-- The links between the client and the nodes, with what is under way on them in the order it was
posted, and the states of the nodes. -/
structure Links (ν ρ α σ : Type*) where
  transit : List (Parcel ν ρ α)
  stores : ν → σ
  closed : Finset ν

/-- What happens on the links. A taken answer is known by its place among all that is under way. -/
inductive Signal (ν ρ α : Type*)
  | post (rs : List (ν × ρ))
  | serve (n : ν) (r : ρ) (a : α)
  | take (k : ℕ) (n : ν) (r : ρ) (a : α)
  | close (n : ν)

/-- The requests that are posted. -/
def Signal.posts {ν ρ α : Type*} : Signal ν ρ α → List (ν × ρ)
  | .post rs => rs
  | _ => []

/-- The answer that is taken, with its node and its request. -/
def Signal.takes {ν ρ α : Type*} : Signal ν ρ α → List (ν × ρ × α)
  | .take _ n r a => [(n, r, a)]
  | _ => []

namespace Links

variable {ν ρ α σ : Type*} {n : ν} {r : ρ} {a : α}

/-- A queue is cut where the requests begin that are not served yet. -/
theorem cut_unique {answers : List (ρ × α)} {waiting : List ρ} {front back : List (Parcel ν ρ α)}
    (h : answers.map (fun p => (⟨n, p.1, some p.2⟩ : Parcel ν ρ α)) ++
      waiting.map (fun r => ⟨n, r, none⟩) = front ++ ⟨n, r, none⟩ :: back)
    (hfront : ∀ p ∈ front, p.answer ≠ none) :
    front = answers.map (fun p => ⟨n, p.1, some p.2⟩) ∧
      ∃ rest, waiting = r :: rest ∧ back = rest.map (fun r => ⟨n, r, none⟩) := by
  induction answers generalizing front with
  | nil =>
    cases front with
    | nil =>
      cases waiting with
      | nil => exact absurd h (by simp)
      | cons r' rest =>
        obtain ⟨hhead, hback⟩ := List.cons.inj h
        obtain rfl : r' = r := (Parcel.mk.inj hhead).2.1
        exact ⟨rfl, rest, rfl, hback.symm⟩
    | cons p front =>
      have hp : p ∈ waiting.map fun r => (⟨n, r, none⟩ : Parcel ν ρ α) := by
        rw [← List.nil_append (waiting.map _)]
        exact h ▸ List.mem_cons_self
      obtain ⟨r', -, rfl⟩ := List.mem_map.mp hp
      exact absurd rfl (hfront _ List.mem_cons_self)
  | cons p answers ih =>
    cases front with
    | nil => exact absurd (List.cons.inj h).1 (by simp)
    | cons p' front =>
      obtain ⟨rfl, hrest⟩ := List.cons.inj h
      obtain ⟨rfl, hwaiting⟩ := ih hrest fun p hp => hfront p (List.mem_cons_of_mem _ hp)
      exact ⟨rfl, hwaiting⟩

variable [DecidableEq ν] {serve : σ → ρ × α → σ → Prop} {s t : Links ν ρ α σ} {l : Signal ν ρ α}
  {ls : List (Signal ν ρ α)}

/-- A step of the links, with nodes that serve requests as `serve` says. -/
inductive Step (serve : σ → ρ × α → σ → Prop) : Links ν ρ α σ → Signal ν ρ α → Links ν ρ α σ → Prop
  | post {s : Links ν ρ α σ} (rs : List (ν × ρ)) :
    Step serve s (.post rs) { s with transit := s.transit ++ rs.map fun p => ⟨p.1, p.2, none⟩ }
  | serve {s : Links ν ρ α σ} {before behind : List (Parcel ν ρ α)} {n : ν} {r : ρ} {a : α} {store : σ}
      (transit : s.transit = before ++ ⟨n, r, none⟩ :: behind)
      (first : ∀ p ∈ before, p.node = n → p.answer ≠ none) (opened : n ∉ s.closed)
      (served : serve (s.stores n) (r, a) store) :
    Step serve s (.serve n r a)
      ⟨before ++ ⟨n, r, some a⟩ :: behind, Function.update s.stores n store, s.closed⟩
  | take {s : Links ν ρ α σ} {before behind : List (Parcel ν ρ α)} {n : ν} {r : ρ} {a : α}
      (transit : s.transit = before ++ ⟨n, r, some a⟩ :: behind) (first : ∀ p ∈ before, p.node ≠ n)
      (opened : n ∉ s.closed) :
    Step serve s (.take before.length n r a) { s with transit := before ++ behind }
  | close {s : Links ν ρ α σ} (n : ν) : Step serve s (.close n) { s with closed := insert n s.closed }

/-! ### The order on a link -/

/-- The part of a list that is about `n`. -/
def about {β : Type*} (n : ν) (l : List (ν × β)) : List β := (l.filter (·.1 = n)).map Prod.snd

@[simp]
theorem about_nil {β : Type*} (n : ν) : about n ([] : List (ν × β)) = [] := rfl

theorem about_append {β : Type*} (n : ν) (l l' : List (ν × β)) :
    about n (l ++ l') = about n l ++ about n l' := by
  simp [about]

theorem about_cons {β : Type*} (n : ν) (p : ν × β) (l : List (ν × β)) :
    about n (p :: l) = (if p.1 = n then [p.2] else []) ++ about n l := by
  unfold about
  rw [List.filter_cons]
  split_ifs <;> simp_all

/-- What is under way between the client and `n`. -/
def queue (n : ν) (s : Links ν ρ α σ) : List (Parcel ν ρ α) := s.transit.filter (·.node = n)

/-- The node has served the requests that were `posted` to it from the first one on, beginning in the
state `init`; the client has `taken` the first of its answers, the others are on their way. -/
def Fifo (serve : σ → ρ × α → σ → Prop) (n : ν) (init : σ) (posted : List ρ) (taken : List (ρ × α))
    (s : Links ν ρ α σ) : Prop :=
  ∃ (answers : List (ρ × α)) (waiting : List ρ),
    s.queue n = answers.map (fun p => ⟨n, p.1, some p.2⟩) ++ waiting.map (fun r => ⟨n, r, none⟩) ∧
    posted = (taken ++ answers).map Prod.fst ++ waiting ∧
    Steps serve init (taken ++ answers) (s.stores n)

theorem queue_of_transit {before behind : List (Parcel ν ρ α)} {p : Parcel ν ρ α}
    (h : s.transit = before ++ p :: behind) : s.queue n =
      before.filter (·.node = n) ++ ((if p.node = n then [p] else []) ++ behind.filter (·.node = n)) := by
  unfold queue
  rw [h, List.filter_append, List.filter_cons]
  by_cases hp : p.node = n
  · simp [hp]
  · simp [hp]

/-- **The step lemma.** -/
theorem Fifo.step {init : σ} {posted : List ρ} {taken : List (ρ × α)} (h : Fifo serve n init posted taken s)
    (hstep : Step serve s l t) :
    Fifo serve n init (posted ++ about n l.posts) (taken ++ about n l.takes) t := by
  obtain ⟨answers, waiting, hqueue, hposted, hrun⟩ := h
  cases hstep with
  | post rs =>
    refine ⟨answers, waiting ++ about n rs, ?_, ?_, ?_⟩
    · have hnew : (rs.map fun p => (⟨p.1, p.2, none⟩ : Parcel ν ρ α)).filter (·.node = n) =
          (about n rs).map fun r => ⟨n, r, none⟩ := by
        unfold about
        rw [List.filter_map, List.map_map]
        refine List.map_congr_left fun p hp => ?_
        obtain rfl : p.1 = n := by simpa using (List.mem_filter.mp hp).2
        rfl
      unfold queue at hqueue ⊢
      rw [List.filter_append, hqueue, hnew]
      simp
    · simp [hposted, Signal.posts, Signal.takes]
    · simpa [Signal.takes] using hrun
  | @serve before behind n' r a store transit first opened served =>
    by_cases hn : n' = n
    · subst hn
      have hfront : ∀ p ∈ before.filter (·.node = n'), p.answer ≠ none := by
        intro p hp
        obtain ⟨hmem, hnode⟩ := List.mem_filter.mp hp
        exact first p hmem (by simpa using hnode)
      rw [queue_of_transit transit, if_pos rfl, List.singleton_append] at hqueue
      obtain ⟨hbefore, rest, rfl, hbehind⟩ := cut_unique hqueue.symm hfront
      refine ⟨answers ++ [(r, a)], rest, ?_, ?_, ?_⟩
      · rw [queue_of_transit rfl, if_pos rfl, hbefore, hbehind]
        simp
      · simp [hposted, Signal.posts, Signal.takes]
      · have hnext := hrun.trans (.single served)
        simpa [Signal.takes, about_cons] using hnext
    · refine ⟨answers, waiting, ?_, ?_, ?_⟩
      · rw [queue_of_transit transit, if_neg hn] at hqueue
        rw [queue_of_transit rfl, if_neg hn]
        exact hqueue
      · simpa [Signal.posts, Signal.takes, about_cons] using hposted
      · simpa [Signal.takes, about_cons, Function.update_of_ne (Ne.symm hn)] using hrun
  | @take before behind n' r a transit first opened =>
    by_cases hn : n' = n
    · subst hn
      have hnone : before.filter (·.node = n') = [] := by
        rw [List.filter_eq_nil_iff]
        intro p hp
        simpa using first p hp
      rw [queue_of_transit transit, if_pos rfl, hnone, List.nil_append, List.singleton_append] at hqueue
      -- the answer that is taken is the first of those on their way
      cases answers with
      | nil =>
        cases waiting with
        | nil => exact absurd hqueue (by simp)
        | cons r' rest => exact absurd (List.cons.inj hqueue).1 (by simp)
      | cons p answers =>
        obtain ⟨hhead, hrest⟩ := List.cons.inj hqueue
        obtain ⟨-, hr, ha⟩ := Parcel.mk.inj hhead
        obtain rfl : (r, a) = p := Prod.ext hr (Option.some.inj ha)
        refine ⟨answers, waiting, ?_, ?_, ?_⟩
        · unfold queue
          rw [List.filter_append, hnone, List.nil_append]
          exact hrest
        · simp [hposted, Signal.posts, Signal.takes, about_cons]
        · simpa [Signal.takes, about_cons] using hrun
    · refine ⟨answers, waiting, ?_, ?_, ?_⟩
      · rw [queue_of_transit transit, if_neg hn, List.nil_append, ← List.filter_append] at hqueue
        exact hqueue
      · simpa [Signal.posts, Signal.takes, about_cons, hn] using hposted
      · simpa [Signal.takes, about_cons, hn] using hrun
  | close n' =>
    refine ⟨answers, waiting, hqueue, ?_, ?_⟩
    · simpa [Signal.posts, Signal.takes, about_cons] using hposted
    · simpa [Signal.takes, about_cons] using hrun

/-- **The run lemma.** -/
theorem Fifo.run {init : σ} {posted : List ρ} {taken : List (ρ × α)} (h : Fifo serve n init posted taken s)
    (hrun : Steps (Step serve) s ls t) : Fifo serve n init (posted ++ about n (ls.flatMap Signal.posts))
      (taken ++ about n (ls.flatMap Signal.takes)) t := by
  induction hrun generalizing posted taken with
  | refl s => simpa using h
  | cons head _ ih =>
    rw [List.flatMap_cons, List.flatMap_cons, about_append, about_append, ← List.append_assoc,
      ← List.append_assoc]
    exact ih (h.step head)

theorem fifo_of_empty (h : s.transit = []) : Fifo serve n (s.stores n) [] [] s :=
  ⟨[], [], by simp [queue, h], rfl, .refl _⟩

/-! ### What is under way -/

/-- The requests that are under way, or their answers. -/
def requests (s : Links ν ρ α σ) : List ρ := s.transit.map Parcel.request

/-- What a step does to the requests under way. -/
theorem Step.requests_eq (h : Step serve s l t) :
    match l with
    | .post rs => t.requests = s.requests ++ rs.map Prod.snd
    | .serve _ _ _ | .close _ => t.requests = s.requests
    | .take k _ r _ => s.requests[k]? = some r ∧ t.requests = s.requests.eraseIdx k := by
  cases h with
  | post rs => simp [requests]
  | serve transit _ _ _ => simp [requests, transit]
  | @take before behind n r a transit first opened =>
    simp [requests, transit, List.eraseIdx_append_of_length_le]
  | close n => rfl

/-- What there is left to do: a request is to be served, and its answer to be taken. -/
def load (s : Links ν ρ α σ) : ℕ := s.transit.length + s.transit.countP fun p => p.answer.isNone

theorem Step.load_serve (h : Step serve s (.serve n r a) t) : t.load + 1 = s.load := by
  cases h with
  | serve transit _ _ _ =>
    simp [load, transit]
    omega

theorem Step.load_take {k : ℕ} (h : Step serve s (.take k n r a) t) : t.load + 1 = s.load := by
  cases h with
  | take transit _ _ =>
    simp [load, transit]
    omega

/-- While its link is open, what is under way between the client and a node can go on: the oldest of it
can be served, or its answer taken. -/
theorem exists_ready (hopen : n ∉ s.closed) (hqueue : s.queue n ≠ []) :
    ∃ r, (∃ before behind, s.transit = before ++ ⟨n, r, none⟩ :: behind ∧ (∀ p ∈ before, p.node ≠ n)) ∨
      ∃ k a t, Step serve s (.take k n r a) t := by
  have hex : ∃ p ∈ s.transit, p.node = n := by
    obtain ⟨p, hp⟩ := List.exists_mem_of_ne_nil _ hqueue
    obtain ⟨hmem, hnode⟩ := List.mem_filter.mp hp
    exact ⟨p, hmem, by simpa using hnode⟩
  obtain ⟨p, before, behind, hnode, hfirst, htransit⟩ :
      ∃ p before behind, p.node = n ∧ (∀ q ∈ before, q.node ≠ n) ∧
        s.transit = before ++ p :: behind := by
    obtain ⟨p, l₁, l₂, hl, hp, hsplit, -⟩ := List.exists_of_eraseP (p := fun p => decide (p.node = n))
      hex.choose_spec.1 (by simpa using hex.choose_spec.2)
    exact ⟨p, l₁, l₂, by simpa using hp, fun q hq => by simpa using hl q hq, hsplit⟩
  obtain ⟨_, r, answer⟩ := p
  subst hnode
  refine ⟨r, ?_⟩
  cases answer with
  | none => exact .inl ⟨before, behind, htransit, hfirst⟩
  | some a => exact .inr ⟨before.length, a, _, .take htransit hfirst hopen⟩

end Links

end DecaFS
