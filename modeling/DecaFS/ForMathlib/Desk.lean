import Mathlib.Data.Set.Insert
import DecaFS.ForMathlib.Transition

/-!
# Requests that are answered in parts

A desk takes requests `op : ρ`. The `current` request is sent out in parts, each under one of its
tags `t : τ`; the parts are answered one by one, in any order and at any time, also while others
are still being sent. For each tag the desk counts the answers it received and keeps the number
it expects, which is 0 until all parts are sent. It replies to a request, and closes it, when
these numbers agree for all tags of the request and that of its first tag is not 0.

`Step` is one move of such a desk and `Inv` its invariant: parts in flight belong to open
requests, a request gets at most one reply, and none before its parts are answered
(`Inv.reply_last`). `Steps.closed_iff` says which requests do get their reply once nothing of
them is in flight: those that expect what was sent for each tag, and something for the first.

The log is kept newest first.
-/

namespace DecaFS

/-- What a desk writes to its log. -/
inductive Entry (τ ρ : Type*) : Type _
  | opened (op : ρ)
  | sent (t : τ)
  | answered (t : τ)
  | replied (op : ρ)
  deriving DecidableEq

/-- The state of a desk. -/
@[ext]
structure Desk (τ ρ : Type*) where
  current : Option ρ
  active : Set ρ
  expected : τ → ℕ
  received : τ → ℕ
  inFlight : τ → ℕ
  log : List (Entry τ ρ)

namespace Desk

variable {τ ρ κ : Type*}

/-- A move of a desk. -/
inductive Label (τ ρ : Type*) : Type _
  | refuse (op : ρ)
  | openOp (op : ρ)
  | send (t : τ)
  | answer (t : τ)
  | expect (op : ρ) (n : τ → ℕ)

variable (tags : ρ → List τ) (key : τ → κ)

/-- No tag of one request has the key of a tag of the other. -/
def Apart (op op' : ρ) : Prop := ∀ t ∈ tags op, ∀ t' ∈ tags op', key t ≠ key t'

/-- The log has a request under `op`. -/
def Mentions (log : List (Entry τ ρ)) (op : ρ) : Prop := .opened op ∈ log ∨ .replied op ∈ log

/-- The keys of `op` were not used before. -/
def Fresh (d : Desk τ ρ) (op : ρ) : Prop :=
  tags op ≠ [] ∧ (tags op).Nodup ∧ ∀ op', Mentions d.log op' → Apart tags key op op'

/-- The numbers for `op` agree. -/
def Complete (d : Desk τ ρ) (op : ρ) : Prop :=
  (∀ t ∈ (tags op).head?, d.expected t ≠ 0) ∧ ∀ t ∈ tags op, d.expected t = d.received t

theorem Apart.not_mem {tags : ρ → List τ} {key : τ → κ} {op op' : ρ} {t : τ}
    (h : Apart tags key op op') (ht : t ∈ tags op) : t ∉ tags op' :=
  fun ht' => h t ht t ht' rfl

theorem Apart.symm {tags : ρ → List τ} {key : τ → κ} {op op' : ρ} (h : Apart tags key op op') :
    Apart tags key op' op :=
  fun t ht t' ht' => (h t' ht' t ht).symm

variable [DecidableEq τ] [DecidableEq ρ]

/-- Reply to `op` and forget it. -/
def close (d : Desk τ ρ) (op : ρ) : Desk τ ρ where
  current := d.current
  active := d.active \ {op}
  expected t := if t ∈ tags op then 0 else d.expected t
  received t := if t ∈ tags op then 0 else d.received t
  inFlight := d.inFlight
  log := .replied op :: d.log

/-- One part less in flight, one more received. -/
def take (d : Desk τ ρ) (t : τ) : Desk τ ρ where
  current := d.current
  active := d.active
  expected := d.expected
  received := Function.update d.received t (d.received t + 1)
  inFlight := Function.update d.inFlight t (d.inFlight t - 1)
  log := .answered t :: d.log

/-- All parts of `op` are sent: the numbers `n` are expected for it. -/
def expects (d : Desk τ ρ) (op : ρ) (n : τ → ℕ) : Desk τ ρ where
  current := none
  active := d.active
  expected t := if t ∈ tags op then n t else d.expected t
  received := d.received
  inFlight := d.inFlight
  log := d.log

/-- One part more in flight. -/
def put (d : Desk τ ρ) (t : τ) : Desk τ ρ where
  current := d.current
  active := d.active
  expected := d.expected
  received := d.received
  inFlight := Function.update d.inFlight t (d.inFlight t + 1)
  log := .sent t :: d.log

/-- The moves of a desk. -/
inductive Step : Desk τ ρ → Label τ ρ → Desk τ ρ → Prop
  | refuse {d : Desk τ ρ} {op : ρ} (fresh : Fresh tags key d op) :
      Step d (.refuse op) { d with log := .replied op :: d.log }
  | openOp {d : Desk τ ρ} {op : ρ} (current : d.current = none) (fresh : Fresh tags key d op) :
      Step d (.openOp op)
        { d with current := some op, active := insert op d.active, log := .opened op :: d.log }
  | send {d : Desk τ ρ} {op : ρ} {t : τ} (current : d.current = some op) (mem : t ∈ tags op) :
      Step d (.send t) (d.put t)
  | answer {d : Desk τ ρ} {op : ρ} {t : τ} (active : op ∈ d.active) (mem : t ∈ tags op)
      (pos : 0 < d.inFlight t) (incomplete : ¬ Complete tags (d.take t) op) :
      Step d (.answer t) (d.take t)
  | answerLast {d : Desk τ ρ} {op : ρ} {t : τ} (active : op ∈ d.active) (mem : t ∈ tags op)
      (pos : 0 < d.inFlight t) (complete : Complete tags (d.take t) op) :
      Step d (.answer t) (close tags (d.take t) op)
  | expect {d : Desk τ ρ} {op : ρ} {n : τ → ℕ} (current : d.current = some op)
      (le : ∀ t ∈ tags op, d.log.count (.sent t) ≤ n t)
      (incomplete : ¬ Complete tags (expects tags d op n) op) :
      Step d (.expect op n) (expects tags d op n)
  | expectLast {d : Desk τ ρ} {op : ρ} {n : τ → ℕ} (current : d.current = some op)
      (le : ∀ t ∈ tags op, d.log.count (.sent t) ≤ n t)
      (complete : Complete tags (expects tags d op n) op) :
      Step d (.expect op n) (close tags (expects tags d op n) op)

/-- Replies come after the answers to what was sent, and nothing is sent after them. -/
def RepliesLast : List (Entry τ ρ) → Prop
  | [] => True
  | .replied op :: log =>
    (∀ t ∈ tags op, log.count (.sent t) = log.count (.answered t)) ∧ RepliesLast log
  | .sent t :: log => (∀ op, .replied op ∈ log → t ∉ tags op) ∧ RepliesLast log
  | _ :: log => RepliesLast log

/-- The invariant of a desk, except that a request may be complete. -/
structure Sound (d : Desk τ ρ) : Prop where
  apart : ∀ op op', Mentions d.log op → Mentions d.log op' → op = op' ∨ Apart tags key op op'
  nonempty : ∀ op ∈ d.active, tags op ≠ []
  dispatching : ∀ op, d.current = some op → op ∈ d.active ∧ ∀ t ∈ tags op, d.expected t = 0
  opened_of_active : ∀ op ∈ d.active, .opened op ∈ d.log
  not_replied_of_active : ∀ op ∈ d.active, .replied op ∉ d.log
  active_or_replied : ∀ op, .opened op ∈ d.log → op ∈ d.active ∨ .replied op ∈ d.log
  replied_once : ∀ op, d.log.count (.replied op) ≤ 1
  opened_of_sent : ∀ t, .sent t ∈ d.log → ∃ op, .opened op ∈ d.log ∧ t ∈ tags op
  balance : ∀ t, d.log.count (.sent t) = d.log.count (.answered t) + d.inFlight t
  inFlight_of_replied : ∀ op t, .replied op ∈ d.log → t ∈ tags op → d.inFlight t = 0
  idle : ∀ t, (∀ op ∈ d.active, t ∉ tags op) → d.expected t = 0 ∧ d.received t = 0
  received_eq : ∀ op ∈ d.active, ∀ t ∈ tags op, d.received t = d.log.count (.answered t)
  sent_le : ∀ op ∈ d.active, (∀ t ∈ tags op, d.expected t = 0) ∨
    ∀ t ∈ tags op, d.log.count (.sent t) ≤ d.expected t
  repliesLast : RepliesLast tags d.log

/-- The invariant of a desk. -/
structure Inv (d : Desk τ ρ) : Prop extends Sound tags key d where
  incomplete : ∀ op ∈ d.active, ¬ Complete tags d op

variable {tags key} {d d' : Desk τ ρ} {op op' : ρ} {t : τ} {n : τ → ℕ}

namespace Sound

variable (h : Sound tags key d)

include h

theorem mentions_of_active (hop : op ∈ d.active) : Mentions d.log op :=
  .inl (h.opened_of_active op hop)

/-- A tag belongs to one request only. -/
theorem eq_of_mem (hop : Mentions d.log op) (hop' : Mentions d.log op') (ht : t ∈ tags op)
    (ht' : t ∈ tags op') : op = op' :=
  (h.apart op op' hop hop').resolve_right fun hap => hap.not_mem ht ht'

theorem eq_of_active (hop : op ∈ d.active) (hop' : op' ∈ d.active) (ht : t ∈ tags op)
    (ht' : t ∈ tags op') : op = op' :=
  h.eq_of_mem (h.mentions_of_active hop) (h.mentions_of_active hop') ht ht'

/-- Parts in flight belong to an open request. -/
theorem exists_active (ht : 0 < d.inFlight t) : ∃ op ∈ d.active, t ∈ tags op := by
  have hsent : .sent t ∈ d.log := List.count_pos_iff.mp (by rw [h.balance t]; omega)
  obtain ⟨op, hop, hmem⟩ := h.opened_of_sent t hsent
  refine ⟨op, (h.active_or_replied op hop).resolve_right fun hrep => ?_, hmem⟩
  have := h.inFlight_of_replied op t hrep hmem
  omega

theorem sent_eq (hop : op ∈ d.active) (ht : t ∈ tags op) :
    d.log.count (.sent t) = d.received t + d.inFlight t := by
  rw [h.received_eq op hop t ht, h.balance t]

/-- Nothing was sent or answered under the tags of a fresh request. -/
theorem count_of_fresh (hf : Fresh tags key d op) (ht : t ∈ tags op) :
    d.log.count (.sent t) = 0 ∧ d.log.count (.answered t) = 0 ∧ d.inFlight t = 0 := by
  have hsent : d.log.count (.sent t) = 0 := by
    rw [List.count_eq_zero]
    intro hmem
    obtain ⟨op', hop', ht'⟩ := h.opened_of_sent t hmem
    exact (hf.2.2 op' (.inl hop')).not_mem ht ht'
  have := h.balance t
  omega

/-- All parts of a complete request are answered. -/
theorem inFlight_of_complete (hop : op ∈ d.active) (hc : Complete tags d op) (ht : t ∈ tags op) :
    d.inFlight t = 0 := by
  have hle : ∀ t ∈ tags op, d.log.count (.sent t) ≤ d.expected t := by
    refine (h.sent_le op hop).resolve_left fun hzero => ?_
    obtain ⟨t₀, rest, htags⟩ := List.exists_cons_of_ne_nil (List.ne_nil_of_mem ht)
    exact hc.1 t₀ (by simp [htags]) (hzero t₀ (by simp [htags]))
  have hsent := h.sent_eq hop ht
  have := hle t ht
  have := hc.2 t ht
  omega

end Sound

omit [DecidableEq τ] [DecidableEq ρ] in
theorem not_mentions_of_fresh (hf : Fresh tags key d op) : ¬ Mentions d.log op := by
  intro hm
  obtain ⟨t, ht⟩ := List.exists_mem_of_ne_nil _ hf.1
  exact (hf.2.2 op hm).not_mem ht ht

/-! ### The moves keep the invariant -/

omit [DecidableEq τ] [DecidableEq ρ] in
theorem complete_congr (he : ∀ t ∈ tags op, d'.expected t = d.expected t)
    (hr : ∀ t ∈ tags op, d'.received t = d.received t) :
    Complete tags d' op ↔ Complete tags d op := by
  unfold Complete
  refine and_congr ?_ (forall₂_congr fun t ht => by rw [he t ht, hr t ht])
  exact forall₂_congr fun t ht => by rw [he t (List.mem_of_mem_head? ht)]

theorem Sound.refuse (h : Sound tags key d) (hf : Fresh tags key d op) :
    Sound tags key { d with log := .replied op :: d.log } where
  apart op₁ op₂ h₁ h₂ := by
    have := h.apart op₁ op₂
    have := hf.2.2
    have : ∀ op', Mentions d.log op' → Apart tags key op' op := fun op' hm => (hf.2.2 op' hm).symm
    simp only [Mentions, List.mem_cons] at *
    grind
  nonempty := h.nonempty
  dispatching := h.dispatching
  opened_of_active op' hop' := by simp [h.opened_of_active op' hop']
  not_replied_of_active op' hop' := by
    have hne : op' ≠ op := by
      rintro rfl
      exact not_mentions_of_fresh hf (h.mentions_of_active hop')
    simp [hne, h.not_replied_of_active op' hop']
  active_or_replied op' hop' := by
    have := h.active_or_replied op'
    simp at *
    tauto
  replied_once op' := by
    have hnot : d.log.count (.replied op) = 0 :=
      List.count_eq_zero.mpr fun hm => not_mentions_of_fresh hf (.inr hm)
    have := h.replied_once op'
    rcases eq_or_ne op op' with rfl | hne
    · simp [hnot]
    · simpa [List.count_cons, hne] using this
  opened_of_sent t ht := by
    obtain ⟨op', hop', hmem⟩ := h.opened_of_sent t (by simpa using ht)
    exact ⟨op', by simp [hop'], hmem⟩
  balance t := by simpa [List.count_cons] using h.balance t
  inFlight_of_replied op' t hop' ht := by
    rcases List.mem_cons.mp hop' with heq | hop'
    · obtain rfl : op' = op := by simpa using heq
      exact (h.count_of_fresh hf ht).2.2
    · exact h.inFlight_of_replied op' t hop' ht
  idle := h.idle
  received_eq op' hop' t ht := by simpa [List.count_cons] using h.received_eq op' hop' t ht
  sent_le op' hop' := by simpa [List.count_cons] using h.sent_le op' hop'
  repliesLast := by
    refine ⟨fun t ht => ?_, h.repliesLast⟩
    have := h.count_of_fresh hf ht
    omega

theorem Sound.openOp (h : Sound tags key d) (hf : Fresh tags key d op) :
    Sound tags key
      { d with current := some op, active := insert op d.active, log := .opened op :: d.log } where
  apart op₁ op₂ h₁ h₂ := by
    have := h.apart op₁ op₂
    have := hf.2.2
    have : ∀ op', Mentions d.log op' → Apart tags key op' op := fun op' hm => (hf.2.2 op' hm).symm
    simp only [Mentions, List.mem_cons] at *
    grind
  nonempty op' hop' := by
    rcases hop' with rfl | hop'
    · exact hf.1
    · exact h.nonempty op' hop'
  dispatching op' hop' := by
    obtain rfl : op = op' := by simpa using hop'
    refine ⟨.inl rfl, fun t ht => (h.idle t fun op'' hop'' ht' => ?_).1⟩
    exact (hf.2.2 op'' (h.mentions_of_active hop'')).not_mem ht ht'
  opened_of_active op' hop' := by
    rcases hop' with rfl | hop'
    · simp
    · simp [h.opened_of_active op' hop']
  not_replied_of_active op' hop' := by
    rcases hop' with rfl | hop'
    · simpa using fun hm => not_mentions_of_fresh hf (.inr hm)
    · simpa using h.not_replied_of_active op' hop'
  active_or_replied op' hop' := by
    have := h.active_or_replied op'
    simp at *
    tauto
  replied_once op' := by simpa [List.count_cons] using h.replied_once op'
  opened_of_sent t ht := by
    obtain ⟨op', hop', hmem⟩ := h.opened_of_sent t (by simpa using ht)
    exact ⟨op', by simp [hop'], hmem⟩
  balance t := by simpa [List.count_cons] using h.balance t
  inFlight_of_replied op' t hop' ht := h.inFlight_of_replied op' t (by simpa using hop') ht
  idle t ht := h.idle t fun op' hop' => ht op' (.inr hop')
  received_eq op' hop' t ht := by
    simp only [List.count_cons]
    rcases hop' with rfl | hop'
    · have hidle := h.idle t fun op'' hop'' ht' =>
        (hf.2.2 op'' (h.mentions_of_active hop'')).not_mem ht ht'
      simp [hidle.2, (h.count_of_fresh hf ht).2.1]
    · simpa using h.received_eq op' hop' t ht
  sent_le op' hop' := by
    rcases hop' with rfl | hop'
    · refine .inl fun t ht => (h.idle t fun op'' hop'' ht' => ?_).1
      exact (hf.2.2 op'' (h.mentions_of_active hop'')).not_mem ht ht'
    · simpa [List.count_cons] using h.sent_le op' hop'
  repliesLast := h.repliesLast

theorem Sound.put (h : Sound tags key d) (hcur : d.current = some op) (ht : t ∈ tags op) :
    Sound tags key (d.put t) where
  nonempty := h.nonempty
  dispatching := h.dispatching
  apart op₁ op₂ h₁ h₂ := h.apart op₁ op₂ (by simpa [Desk.put, Mentions] using h₁)
    (by simpa [Desk.put, Mentions] using h₂)
  opened_of_active op' hop' := by simpa [Desk.put] using h.opened_of_active op' hop'
  not_replied_of_active op' hop' := by simpa [Desk.put] using h.not_replied_of_active op' hop'
  active_or_replied op' hop' := by
    simpa [Desk.put] using h.active_or_replied op' (by simpa [Desk.put] using hop')
  replied_once op' := by simpa [Desk.put, List.count_cons] using h.replied_once op'
  opened_of_sent t' ht' := by
    rcases List.mem_cons.mp ht' with heq | ht'
    · obtain rfl : t' = t := by simpa using heq
      exact ⟨op, by simp [Desk.put, h.opened_of_active op (h.dispatching op hcur).1], ht⟩
    · obtain ⟨op', hop', hmem⟩ := h.opened_of_sent t' ht'
      exact ⟨op', by simp [Desk.put, hop'], hmem⟩
  balance t' := by
    have := h.balance t'
    rcases eq_or_ne t t' with rfl | hne
    · simp [Desk.put]
      omega
    · simpa [Desk.put, List.count_cons, hne, hne.symm] using this
  inFlight_of_replied op' t' hop' ht' := by
    have hrep : .replied op' ∈ d.log := by simpa [Desk.put] using hop'
    have hne : t' ≠ t := by
      rintro rfl
      obtain rfl := h.eq_of_mem (h.mentions_of_active (h.dispatching op hcur).1) (.inr hrep) ht ht'
      exact h.not_replied_of_active op (h.dispatching op hcur).1 hrep
    simpa [Desk.put, hne] using h.inFlight_of_replied op' t' hrep ht'
  idle := h.idle
  received_eq op' hop' t' ht' := by
    simpa [Desk.put, List.count_cons] using h.received_eq op' hop' t' ht'
  sent_le op' hop' := by
    rcases h.sent_le op' hop' with hz | hle
    · exact .inl hz
    · rcases eq_or_ne op' op with rfl | hne
      · exact .inl (h.dispatching op' hcur).2
      · refine .inr fun t' ht' => ?_
        have htne : t ≠ t' := by
          rintro rfl
          exact hne (h.eq_of_active hop' (h.dispatching op hcur).1 ht' ht)
        simpa [Desk.put, List.count_cons, htne] using hle t' ht'
  repliesLast := by
    refine ⟨fun op' hop' ht' => ?_, h.repliesLast⟩
    obtain rfl := h.eq_of_mem (h.mentions_of_active (h.dispatching op hcur).1) (.inr hop') ht ht'
    exact h.not_replied_of_active op (h.dispatching op hcur).1 hop'

theorem Sound.take (h : Sound tags key d) (hop : op ∈ d.active) (ht : t ∈ tags op)
    (hpos : 0 < d.inFlight t) : Sound tags key (d.take t) where
  nonempty := h.nonempty
  dispatching := h.dispatching
  apart op₁ op₂ h₁ h₂ := h.apart op₁ op₂ (by simpa [Desk.take, Mentions] using h₁)
    (by simpa [Desk.take, Mentions] using h₂)
  opened_of_active op' hop' := by simpa [Desk.take] using h.opened_of_active op' hop'
  not_replied_of_active op' hop' := by simpa [Desk.take] using h.not_replied_of_active op' hop'
  active_or_replied op' hop' := by
    simpa [Desk.take] using h.active_or_replied op' (by simpa [Desk.take] using hop')
  replied_once op' := by simpa [Desk.take, List.count_cons] using h.replied_once op'
  opened_of_sent t' ht' := by
    obtain ⟨op', hop', hmem⟩ := h.opened_of_sent t' (by simpa [Desk.take] using ht')
    exact ⟨op', by simp [Desk.take, hop'], hmem⟩
  balance t' := by
    have := h.balance t'
    rcases eq_or_ne t t' with rfl | hne
    · simp [Desk.take]
      omega
    · simpa [Desk.take, List.count_cons, hne, hne.symm] using this
  inFlight_of_replied op' t' hop' ht' := by
    have hrep : .replied op' ∈ d.log := by simpa [Desk.take] using hop'
    have := h.inFlight_of_replied op' t' hrep ht'
    rcases eq_or_ne t' t with rfl | hne
    · omega
    · simpa [Desk.take, hne] using this
  idle t' ht' := by
    have hne : t' ≠ t := by
      rintro rfl
      exact ht' op hop ht
    simpa [Desk.take, hne] using h.idle t' ht'
  received_eq op' hop' t' ht' := by
    have := h.received_eq op' hop' t' ht'
    rcases eq_or_ne t t' with rfl | hne
    · simpa [Desk.take, List.count_cons] using this
    · simpa [Desk.take, List.count_cons, hne, hne.symm] using this
  sent_le op' hop' := by simpa [Desk.take, List.count_cons] using h.sent_le op' hop'
  repliesLast := h.repliesLast

theorem Sound.expects (h : Sound tags key d) (hop : op ∈ d.active)
    (hle : ∀ t ∈ tags op, d.log.count (.sent t) ≤ n t) : Sound tags key (expects tags d op n) where
  apart := h.apart
  nonempty := h.nonempty
  dispatching op' hop' := by simp [Desk.expects] at hop'
  opened_of_active := h.opened_of_active
  not_replied_of_active := h.not_replied_of_active
  active_or_replied := h.active_or_replied
  replied_once := h.replied_once
  opened_of_sent := h.opened_of_sent
  balance := h.balance
  inFlight_of_replied := h.inFlight_of_replied
  idle t ht := by simpa [Desk.expects, ht op hop] using h.idle t ht
  received_eq := h.received_eq
  sent_le op' hop' := by
    rcases eq_or_ne op' op with rfl | hne
    · exact .inr fun t ht => by simpa [Desk.expects, ht] using hle t ht
    · have hnot : ∀ t ∈ tags op', t ∉ tags op := fun t ht ht' => hne (h.eq_of_active hop' hop ht ht')
      refine (h.sent_le op' hop').imp (fun hz t ht => ?_) fun hle t ht => ?_
      · simpa [Desk.expects, hnot t ht] using hz t ht
      · simpa [Desk.expects, hnot t ht] using hle t ht
  repliesLast := h.repliesLast

theorem Sound.close (h : Sound tags key d) (hop : op ∈ d.active) (hc : Complete tags d op) :
    Sound tags key (close tags d op) where
  nonempty op' hop' := h.nonempty op' hop'.1
  dispatching op' hop' := by
    obtain ⟨hact, hzero⟩ := h.dispatching op' hop'
    refine ⟨⟨hact, ?_⟩, fun t ht => by simp [Desk.close, hzero t ht]⟩
    rintro rfl
    obtain ⟨t, rest, htags⟩ := List.exists_cons_of_ne_nil (h.nonempty op' hop)
    exact hc.1 t (by simp [htags]) (hzero t (by simp [htags]))
  apart op₁ op₂ h₁ h₂ := by
    have hm : ∀ op', Mentions (Desk.close tags d op).log op' → Mentions d.log op' := by
      intro op' hm
      rcases hm with hm | hm
      · exact .inl (by simpa [Desk.close] using hm)
      · rcases List.mem_cons.mp hm with heq | hm
        · obtain rfl : op' = op := by simpa using heq
          exact h.mentions_of_active hop
        · exact .inr hm
    exact h.apart op₁ op₂ (hm op₁ h₁) (hm op₂ h₂)
  opened_of_active op' hop' := by simpa [Desk.close] using h.opened_of_active op' hop'.1
  not_replied_of_active op' hop' := by
    have hne : op' ≠ op := by simpa using hop'.2
    simpa [Desk.close, hne] using h.not_replied_of_active op' hop'.1
  active_or_replied op' hop' := by
    have := h.active_or_replied op' (by simpa [Desk.close] using hop')
    simp only [Desk.close, Set.mem_sdiff, Set.mem_singleton_iff, List.mem_cons,
      Entry.replied.injEq]
    tauto
  replied_once op' := by
    have hnot : d.log.count (.replied op) = 0 :=
      List.count_eq_zero.mpr (h.not_replied_of_active op hop)
    have := h.replied_once op'
    rcases eq_or_ne op op' with rfl | hne
    · simp [Desk.close, hnot]
    · simpa [Desk.close, List.count_cons, hne] using this
  opened_of_sent t' ht' := by
    obtain ⟨op', hop', hmem⟩ := h.opened_of_sent t' (by simpa [Desk.close] using ht')
    exact ⟨op', by simp [Desk.close, hop'], hmem⟩
  balance t' := by simpa [Desk.close, List.count_cons] using h.balance t'
  inFlight_of_replied op' t' hop' ht' := by
    rcases List.mem_cons.mp hop' with heq | hop'
    · obtain rfl : op' = op := by simpa using heq
      exact h.inFlight_of_complete hop hc ht'
    · exact h.inFlight_of_replied op' t' hop' ht'
  idle t' ht' := by
    by_cases hmem : t' ∈ tags op
    · simp [Desk.close, hmem]
    · have := h.idle t' fun op' hop' => by
        rcases eq_or_ne op' op with rfl | hne
        · exact hmem
        · exact ht' op' ⟨hop', by simpa using hne⟩
      simpa [Desk.close, hmem] using this
  received_eq op' hop' t' ht' := by
    have hnot : t' ∉ tags op := fun hmem => hop'.2 (h.eq_of_active hop'.1 hop ht' hmem)
    simpa [Desk.close, List.count_cons, hnot] using h.received_eq op' hop'.1 t' ht'
  sent_le op' hop' := by
    have hnot : ∀ t ∈ tags op', t ∉ tags op := fun t ht ht' =>
      hop'.2 (h.eq_of_active hop'.1 hop ht ht')
    refine (h.sent_le op' hop'.1).imp (fun hz t ht => ?_) fun hle t ht => ?_
    · simpa [Desk.close, hnot t ht] using hz t ht
    · simpa [Desk.close, List.count_cons, hnot t ht] using hle t ht
  repliesLast := by
    refine ⟨fun t ht => ?_, h.repliesLast⟩
    have := h.balance t
    rw [h.inFlight_of_complete hop hc ht] at this
    omega

/-- A move on the tags of `op` leaves the other requests incomplete. -/
theorem Inv.incomplete_of_ne (h : Inv tags key d) (hop : op ∈ d.active) (hop' : op' ∈ d.active)
    (hne : op' ≠ op) (he : ∀ t, t ∉ tags op → d'.expected t = d.expected t)
    (hr : ∀ t, t ∉ tags op → d'.received t = d.received t) : ¬ Complete tags d' op' := by
  have hnot : ∀ t ∈ tags op', t ∉ tags op := fun t ht ht' => hne (h.eq_of_active hop' hop ht ht')
  rw [complete_congr (fun t ht => he t (hnot t ht)) (fun t ht => hr t (hnot t ht))]
  exact h.incomplete op' hop'

/-- **Every move keeps the invariant.** -/
theorem Inv.step {l : Label τ ρ} (h : Inv tags key d) (hs : Step tags key d l d') :
    Inv tags key d' := by
  cases hs with
  | refuse fresh => exact ⟨h.toSound.refuse fresh, h.incomplete⟩
  | @openOp op current fresh =>
    have hsound := h.toSound.openOp fresh
    refine ⟨hsound, ?_⟩
    rintro op' (rfl | hop')
    · intro hc
      obtain ⟨t, rest, htags⟩ := List.exists_cons_of_ne_nil fresh.1
      exact hc.1 t (by simp [htags]) ((hsound.dispatching op' rfl).2 t (by simp [htags]))
    · exact h.incomplete op' hop'
  | send current mem => exact ⟨h.toSound.put current mem, h.incomplete⟩
  | @answer op t active mem pos incomplete =>
    refine ⟨h.toSound.take active mem pos, fun op' hop' => ?_⟩
    rcases eq_or_ne op' op with rfl | hne
    · exact incomplete
    · refine h.incomplete_of_ne active hop' hne (fun _ _ => rfl) fun t' ht' => ?_
      exact Function.update_of_ne (by rintro rfl; exact ht' mem) _ _
  | @answerLast op t active mem pos complete =>
    refine ⟨(h.toSound.take active mem pos).close active complete, fun op' hop' => ?_⟩
    refine h.incomplete_of_ne active hop'.1 hop'.2 (fun t' ht' => by simp [close, ht', take])
      fun t' ht' => ?_
    have hne : t' ≠ t := by rintro rfl; exact ht' mem
    simp [close, ht', take, hne]
  | @expect op n current le incomplete =>
    have hact := (h.dispatching op current).1
    refine ⟨h.toSound.expects hact le, fun op' hop' => ?_⟩
    rcases eq_or_ne op' op with rfl | hne
    · exact incomplete
    · exact h.incomplete_of_ne hact hop' hne (fun t ht => by simp [expects, ht]) fun _ _ => rfl
  | @expectLast op n current le complete =>
    have hact := (h.dispatching op current).1
    refine ⟨(h.toSound.expects hact le).close hact complete, fun op' hop' => ?_⟩
    exact h.incomplete_of_ne hact hop'.1 hop'.2
      (fun t ht => by simp [close, expects, ht]) fun t ht => by simp [close, expects, ht]

/-- Only the moves that take a request mention a new one. -/
theorem Inv.mentions_of_step {l : Label τ ρ} (hd : Inv tags key d) (hs : Step tags key d l d')
    (hm : Mentions d'.log op) : Mentions d.log op ∨ l = .refuse op ∨ l = .openOp op := by
  cases hs with
  | refuse fresh => simp only [Mentions, List.mem_cons] at hm ⊢; grind
  | openOp current fresh => simp only [Mentions, List.mem_cons] at hm ⊢; grind
  | send current mem => exact .inl (by simpa [Mentions, put] using hm)
  | answer active mem pos incomplete => exact .inl (by simpa [Mentions, take] using hm)
  | @answerLast op' t active mem pos complete =>
    have := hd.mentions_of_active active
    simp only [Mentions, close, take, List.mem_cons] at *
    grind
  | expect current le incomplete => exact .inl hm
  | @expectLast op' n current le complete =>
    have := hd.mentions_of_active (hd.dispatching op' current).1
    simp only [Mentions, close, expects, List.mem_cons] at *
    grind

/-! ### Runs -/

/-- Some moves lead from `d` to `d'`. -/
def Reaches (tags : ρ → List τ) (key : τ → κ) (d d' : Desk τ ρ) : Prop :=
  ∃ ls, Steps (Step tags key) d ls d'

theorem Reaches.refl : Reaches tags key d d := ⟨[], .refl d⟩

theorem Reaches.single {l : Label τ ρ} (h : Step tags key d l d') : Reaches tags key d d' :=
  ⟨[l], .single h⟩

theorem Reaches.trans {d'' : Desk τ ρ} (h : Reaches tags key d d') (h' : Reaches tags key d' d'') :
    Reaches tags key d d'' := by
  obtain ⟨ls, hls⟩ := h
  obtain ⟨ls', hls'⟩ := h'
  exact ⟨ls ++ ls', hls.trans hls'⟩

theorem Reaches.preserves {P : Desk τ ρ → Prop}
    (hstep : ∀ d l d', Inv tags key d → Step tags key d l d' → P d → P d')
    (h : Reaches tags key d d') (hd : Inv tags key d) (hP : P d) : P d' := by
  obtain ⟨ls, hls⟩ := h
  have hand := hls.invariant (I := fun d => Inv tags key d ∧ P d)
    (fun _ _ _ hi hs => ⟨hi.1.step hs, hstep _ _ _ hi.1 hs hi.2⟩) ⟨hd, hP⟩
  exact hand.2

theorem Inv.reaches (hd : Inv tags key d) (h : Reaches tags key d d') : Inv tags key d' :=
  h.preserves (fun _ _ _ hi hs _ => hi.step hs) hd hd

/-- A desk without requests. -/
theorem Inv.of_empty (hcur : d.current = none) (hact : d.active = ∅)
    (hcount : ∀ t, d.expected t = 0 ∧ d.received t = 0 ∧ d.inFlight t = 0) (hlog : d.log = []) :
    Inv tags key d := by
  constructor
  · constructor <;> simp [hcur, hact, hcount, hlog, Mentions, RepliesLast]
  · simp [hact]

/-- **What a reply comes after.** When the desk replied, all that was sent for the request had
been answered, and nothing was sent for it afterwards. -/
theorem RepliesLast.append {pre : List (Entry τ ρ)} :
    ∀ post : List (Entry τ ρ), RepliesLast tags (post ++ .replied op :: pre) →
      (∀ t ∈ tags op, pre.count (.sent t) = pre.count (.answered t)) ∧
        ∀ t ∈ tags op, .sent t ∉ post
  | [], h => ⟨h.1, by simp⟩
  | .opened _ :: post, h | .answered _ :: post, h => by
    have ih := RepliesLast.append post h
    exact ⟨ih.1, fun t ht => by simpa using ih.2 t ht⟩
  | .replied _ :: post, h => by
    have ih := RepliesLast.append post h.2
    exact ⟨ih.1, fun t ht => by simpa using ih.2 t ht⟩
  | .sent t' :: post, h => by
    have ih := RepliesLast.append post h.2
    refine ⟨ih.1, fun t ht => ?_⟩
    have hne : t ≠ t' := by
      rintro rfl
      exact h.1 op (by simp) ht
    simpa [hne] using ih.2 t ht

/-- All parts of `op` are sent, `m t` of them under the tag `t`, where `n t` are expected. -/
def Expecting (tags : ρ → List τ) (op : ρ) (n m : τ → ℕ) (d : Desk τ ρ) : Prop :=
  d.current ≠ some op ∧ .opened op ∈ d.log ∧ (∀ t ∈ tags op, d.log.count (.sent t) = m t) ∧
    (op ∈ d.active ∧ (∀ t ∈ tags op, d.expected t = n t) ∨
      op ∉ d.active ∧ (∀ t ∈ (tags op).head?, n t ≠ 0) ∧ ∀ t ∈ tags op, n t = m t)

/-- Closing a request that expects `n` and got as much. -/
private theorem Sound.closed_counts (hd : Sound tags key d) (hop : op ∈ d.active)
    (hn : ∀ t ∈ tags op, d.expected t = n t) (hc : Complete tags d op) :
    (∀ t ∈ (tags op).head?, n t ≠ 0) ∧ ∀ t ∈ tags op, n t = d.log.count (.sent t) := by
  refine ⟨fun t ht => hn t (List.mem_of_mem_head? ht) ▸ hc.1 t ht, fun t ht => ?_⟩
  rw [hd.sent_eq hop ht, hd.inFlight_of_complete hop hc ht, ← hn t ht, hc.2 t ht, Nat.add_zero]

theorem Inv.expecting (hd : Inv tags key d) (h : Step tags key d (.expect op n) d') :
    Expecting tags op n (fun t => d.log.count (.sent t)) d' := by
  cases h with
  | expect current le incomplete =>
    have hact := (hd.dispatching op current).1
    refine ⟨by simp [expects], hd.opened_of_active op hact, fun _ _ => rfl, .inl ⟨hact, ?_⟩⟩
    exact fun t ht => by simp [expects, ht]
  | expectLast current le complete =>
    have hact := (hd.dispatching op current).1
    refine ⟨by simp [close, expects], by simp [close, expects, hd.opened_of_active op hact],
      fun t ht => by simp [close, expects], .inr ⟨by simp [close], ?_⟩⟩
    have hcounts := (hd.toSound.expects hact le).closed_counts (n := n) hact
      (fun t ht => by simp [expects, ht]) complete
    exact hcounts

/-- Once all parts of `op` are sent, no move changes what it comes to. -/
theorem Expecting.step {m : τ → ℕ} {l : Label τ ρ} (hd : Inv tags key d)
    (hs : Step tags key d l d') (h : Expecting tags op n m d) : Expecting tags op n m d' := by
  obtain ⟨hcur, hopened, hm, hor⟩ := h
  cases hs with
  | refuse fresh => exact ⟨hcur, by simp [hopened], by simpa [List.count_cons] using hm, hor⟩
  | @openOp op' current fresh =>
    have hne : op ≠ op' := by
      rintro rfl
      exact not_mentions_of_fresh fresh (.inl hopened)
    refine ⟨by simp [hne.symm], by simp [hopened], by simpa [List.count_cons] using hm, ?_⟩
    simpa [hne] using hor
  | @send op' t' current mem =>
    have hne : ∀ t ∈ tags op, t' ≠ t := by
      rintro t ht rfl
      have hact := (hd.dispatching op' current).1
      obtain rfl := hd.eq_of_mem (.inl hopened) (hd.mentions_of_active hact) ht mem
      exact hcur current
    exact ⟨hcur, by simp [put, hopened], fun t ht => by
      simpa [put, List.count_cons, hne t ht] using hm t ht, hor⟩
  | answer active mem pos incomplete =>
    exact ⟨hcur, by simp [take, hopened], by simpa [take, List.count_cons] using hm, hor⟩
  | @answerLast op' t' active mem pos complete =>
    refine ⟨hcur, by simp [close, take, hopened], by simpa [close, take, List.count_cons] using hm,
      ?_⟩
    rcases hor with ⟨hact, hn⟩ | ⟨hact, hn⟩
    · rcases eq_or_ne op op' with rfl | hne
      · refine .inr ⟨by simp [close], ?_⟩
        have hcounts := (hd.toSound.take active mem pos).closed_counts active hn complete
        exact ⟨hcounts.1, fun t ht => by
          simpa [take, List.count_cons, hm t ht] using hcounts.2 t ht⟩
      · refine .inl ⟨⟨hact, by simpa using hne⟩, fun t ht => ?_⟩
        have hnot : t ∉ tags op' := fun ht' => hne (hd.eq_of_active hact active ht ht')
        simpa [close, take, hnot] using hn t ht
    · exact .inr ⟨fun hmem => hact hmem.1, hn⟩
  | @expect op' n' current le incomplete =>
    refine ⟨by simp [expects], hopened, hm, hor.imp_left fun ⟨hact, hn⟩ => ⟨hact, fun t ht => ?_⟩⟩
    have hnot : t ∉ tags op' := fun ht' => by
      obtain rfl := hd.eq_of_active hact (hd.dispatching op' current).1 ht ht'
      exact hcur current
    simpa [expects, hnot] using hn t ht
  | @expectLast op' n' current le complete =>
    have hne : op ≠ op' := by
      rintro rfl
      exact hcur current
    refine ⟨by simp [close, expects], by simp [close, expects, hopened],
      by simpa [close, expects, List.count_cons] using hm, ?_⟩
    rcases hor with ⟨hact, hn⟩ | ⟨hact, hn⟩
    · refine .inl ⟨⟨hact, by simpa using hne⟩, fun t ht => ?_⟩
      have hnot : t ∉ tags op' := fun ht' =>
        hne (hd.eq_of_active hact (hd.dispatching op' current).1 ht ht')
      simpa [close, expects, hnot] using hn t ht
    · exact .inr ⟨fun hmem => hact hmem.1, hn⟩

/-- **Which requests are replied to.** Once nothing of a request is in flight, it is closed with
a single reply if what it expects is what was sent, and something for the first tag; otherwise
it stays open forever. -/
theorem Expecting.closed_iff {m : τ → ℕ} (hd : Inv tags key d) (h : Expecting tags op n m d)
    (hflight : ∀ t ∈ tags op, d.inFlight t = 0) :
    (op ∉ d.active ∧ d.log.count (.replied op) = 1) ↔
      (∀ t ∈ (tags op).head?, n t ≠ 0) ∧ ∀ t ∈ tags op, n t = m t := by
  obtain ⟨-, hopened, hm, ⟨hact, hn⟩ | ⟨hact, hn⟩⟩ := h
  · refine ⟨fun hnot => absurd hact hnot.1, fun hgood => absurd ?_ (hd.incomplete op hact)⟩
    refine ⟨fun t ht => hn t (List.mem_of_mem_head? ht) ▸ hgood.1 t ht, fun t ht => ?_⟩
    rw [hn t ht, hgood.2 t ht, ← hm t ht, hd.sent_eq hact ht, hflight t ht, Nat.add_zero]
  · refine ⟨fun _ => hn, fun _ => ⟨hact, ?_⟩⟩
    have hrep := (hd.active_or_replied op hopened).resolve_left hact
    have hpos := List.count_pos_iff.mpr hrep
    have := hd.replied_once op
    omega

end Desk

end DecaFS
