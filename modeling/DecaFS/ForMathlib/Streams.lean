import Mathlib.Data.List.Forall2

/-!
# Messages in a stream

A stream carries messages if it is what is written for each, one after the other (`Carries`). What may be
written for a message is a relation, since a writer can leave some of it open. Writing more messages
appends them (`Carries.append`), and a stream that carries any begins with what was written for the first
(`carries_cons_iff`).
-/

namespace DecaFS

variable {β μ ν : Type*} {writes : μ → List β → Prop} {m : μ} {ms ms' : List μ} {s s' : List β}

/-- The stream is what is written for the messages, one after the other. -/
def Carries (writes : μ → List β → Prop) (ms : List μ) (stream : List β) : Prop :=
  ∃ packets, List.Forall₂ writes ms packets ∧ stream = packets.flatten

@[simp]
theorem carries_nil_iff : Carries writes [] s ↔ s = [] := by
  constructor
  · rintro ⟨packets, hpackets, rfl⟩
    cases hpackets
    rfl
  · rintro rfl
    exact ⟨[], .nil, rfl⟩

theorem carries_cons_iff : Carries writes (m :: ms) s ↔
    ∃ p rest, writes m p ∧ s = p ++ rest ∧ Carries writes ms rest := by
  constructor
  · rintro ⟨packets, hpackets, rfl⟩
    cases hpackets with
    | cons hp hrest => exact ⟨_, _, hp, rfl, _, hrest, rfl⟩
  · rintro ⟨p, rest, hp, rfl, packets, hpackets, rfl⟩
    exact ⟨p :: packets, .cons hp hpackets, rfl⟩

theorem carries_singleton {p : List β} (h : writes m p) : Carries writes [m] p :=
  carries_cons_iff.mpr ⟨p, [], h, (List.append_nil p).symm, carries_nil_iff.mpr rfl⟩

/-- **Writing more.** -/
theorem Carries.append (h : Carries writes ms s) (h' : Carries writes ms' s') :
    Carries writes (ms ++ ms') (s ++ s') := by
  obtain ⟨packets, hpackets, rfl⟩ := h
  obtain ⟨packets', hpackets', rfl⟩ := h'
  exact ⟨packets ++ packets', List.rel_append hpackets hpackets', by rw [List.flatten_append]⟩

/-- The stream carries nothing only if it is empty. -/
theorem Carries.exists_cons (h : Carries writes ms s) (hs : s ≠ []) : ∃ m ms', ms = m :: ms' := by
  cases ms with
  | nil => exact absurd (carries_nil_iff.mp h) hs
  | cons m ms' => exact ⟨m, ms', rfl⟩

end DecaFS
