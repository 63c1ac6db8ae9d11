import Mathlib.Data.Finset.Basic

/-!
# Reader-writer locks

A lock over owners `O` and their processes `P` is free, held exclusively by one process, or
held in shared mode by a non-empty set of processes of one owner. The type has no state with
both kinds of holders, so mutual exclusion needs no invariant; the operations return `none`
when they refuse.
-/

namespace DecaFS

/-- The state of a reader-writer lock. -/
inductive RWLock (O P : Type*)
  | free
  | exclusive (o : O) (p : P)
  | shared (o : O) (ps : Finset P) (nonempty : ps.Nonempty)

namespace RWLock

variable {O P : Type*}

/-- Process `p` of `o` holds the lock exclusively. -/
def HoldsExclusive (o : O) (p : P) : RWLock O P → Prop
  | exclusive o' p' => o' = o ∧ p' = p
  | _ => False

/-- Process `p` of `o` is one of the shared holders. -/
def HoldsShared (o : O) (p : P) : RWLock O P → Prop
  | shared o' ps _ => o' = o ∧ p ∈ ps
  | _ => False

/-- The two modes exclude each other, whoever the holders are. -/
theorem HoldsExclusive.not_holdsShared {o o' : O} {p p' : P} {l : RWLock O P}
    (h : HoldsExclusive o p l) : ¬ HoldsShared o' p' l := by
  cases l with
  | free => exact h.elim
  | exclusive _ _ => exact id
  | shared _ _ _ => exact h.elim

/-- The shared holders `ps`, or nobody. -/
def sharedOrFree (o : O) (ps : Finset P) [Decidable ps.Nonempty] : RWLock O P :=
  if h : ps.Nonempty then shared o ps h else free

theorem holdsShared_sharedOrFree {o o' : O} {p : P} {ps : Finset P} [Decidable ps.Nonempty] :
    HoldsShared o p (sharedOrFree o' ps) ↔ o' = o ∧ p ∈ ps := by
  unfold sharedOrFree
  split_ifs with h
  · rfl
  · rw [Finset.not_nonempty_iff_eq_empty] at h
    simp [HoldsShared, h]

variable [DecidableEq O] [DecidableEq P]

instance (o : O) (p : P) : DecidablePred (HoldsExclusive o p)
  | free => inferInstanceAs (Decidable False)
  | exclusive _ _ => inferInstanceAs (Decidable (_ ∧ _))
  | shared _ _ _ => inferInstanceAs (Decidable False)

instance (o : O) (p : P) : DecidablePred (HoldsShared o p)
  | free => inferInstanceAs (Decidable False)
  | exclusive _ _ => inferInstanceAs (Decidable False)
  | shared _ _ _ => inferInstanceAs (Decidable (_ ∧ _))

/-- Exclusive mode is granted on a free lock only. -/
def acquireExclusive (o : O) (p : P) : RWLock O P → Option (RWLock O P)
  | free => some (exclusive o p)
  | _ => none

/-- Shared mode is granted on a free lock, or next to other processes of the same owner. -/
def acquireShared (o : O) (p : P) : RWLock O P → Option (RWLock O P)
  | free => some (shared o {p} (Finset.singleton_nonempty p))
  | exclusive _ _ => none
  | shared o' ps _ =>
    if o' = o ∧ p ∉ ps then some (shared o' (insert p ps) (Finset.insert_nonempty p ps)) else none

/-- A holder gives up what it holds. -/
def release (o : O) (p : P) : RWLock O P → Option (RWLock O P)
  | free => none
  | exclusive o' p' => if o' = o ∧ p' = p then some free else none
  | shared o' ps _ => if o' = o ∧ p ∈ ps then some (sharedOrFree o' (ps.erase p)) else none

variable {o o' : O} {p p' : P} {l l' : RWLock O P}

/-- Releasing leaves every other process's exclusive hold alone. -/
theorem holdsExclusive_of_release (h : release o p l = some l') (hne : (o', p') ≠ (o, p)) :
    HoldsExclusive o' p' l' ↔ HoldsExclusive o' p' l := by
  cases l with
  | free => simp [release] at h
  | exclusive o₁ p₁ =>
    simp only [release, Option.ite_none_right_eq_some, Option.some.injEq] at h
    obtain ⟨⟨rfl, rfl⟩, rfl⟩ := h
    refine iff_of_false id ?_
    rintro ⟨rfl, rfl⟩
    exact hne rfl
  | shared o₁ ps hps =>
    simp only [release, Option.ite_none_right_eq_some, Option.some.injEq] at h
    obtain ⟨-, rfl⟩ := h
    unfold sharedOrFree
    split_ifs <;> simp [HoldsExclusive]

/-- Releasing leaves every other process's shared hold alone. -/
theorem holdsShared_of_release (h : release o p l = some l') (hne : (o', p') ≠ (o, p)) :
    HoldsShared o' p' l' ↔ HoldsShared o' p' l := by
  cases l with
  | free => simp [release] at h
  | exclusive o₁ p₁ =>
    simp only [release, Option.ite_none_right_eq_some, Option.some.injEq] at h
    obtain ⟨-, rfl⟩ := h
    exact Iff.rfl
  | shared o₁ ps hps =>
    simp only [release, Option.ite_none_right_eq_some, Option.some.injEq] at h
    obtain ⟨⟨rfl, hp⟩, rfl⟩ := h
    rw [holdsShared_sharedOrFree, Finset.mem_erase]
    refine and_congr_right fun ho => ⟨And.right, fun hp' => ⟨?_, hp'⟩⟩
    rintro rfl
    exact hne (by rw [ho])

end RWLock

end DecaFS
