import Mathlib.Logic.Function.Basic
import DecaFS.Locking.FileLocks

/-!
# The lock table record by record

A refused call may create a record that nobody owns, so the table is looked at through `record`,
which does not tell such a record from a missing one. A call then changes the record of its file
or nothing: `FileLock.withExclusive`, `withShared` and `released` are the new records.
-/

namespace DecaFS

open Code

namespace FileLock

/-- The record once `client` has been given the exclusive lock. -/
def withExclusive (lock : FileLock) (client : Client) : FileLock :=
  { lock with ownerUid := client.userId, ownerIp := client.ip, exProc := client.ctc }

/-- The record once `client` has been given a shared lock. -/
def withShared (lock : FileLock) (client : Client) : FileLock :=
  { lock with
    ownerUid := client.userId, ownerIp := client.ip, shProcs := insert client.ctc lock.shProcs }

/-- The record after a release by `client`. -/
def released (lock : FileLock) (client : Client) : FileLock :=
  if ¬ FileLocks.ownedBy lock client then lock
  else if lock.exProc = client.ctc then {}
  else if client.ctc ∉ lock.shProcs then lock
  else if lock.shProcs.erase client.ctc = ∅ then {}
  else { lock with shProcs := lock.shProcs.erase client.ctc }

end FileLock

namespace FileLocks

variable {locks : FileLocks} {lock : FileLock} {f : ℕ} {client : Client}

theorem record_insert : record (locks.insert f lock) f = lock := by
  simp [record]

theorem record_insert_of_ne {f' : ℕ} (h : f' ≠ f) :
    record (locks.insert f lock) f' = locks.record f' := by
  simp [record, Finmap.lookup_insert_of_ne _ h]

theorem record_erase : record (locks.erase f) f = {} := by
  simp [record]

theorem record_erase_of_ne {f' : ℕ} (h : f' ≠ f) :
    record (locks.erase f) f' = locks.record f' := by
  simp [record, Finmap.lookup_erase_ne h]

theorem record_insert_eq : record (locks.insert f lock) = Function.update locks.record f lock := by
  funext f'
  rcases eq_or_ne f' f with rfl | hne
  · rw [record_insert, Function.update_self]
  · rw [record_insert_of_ne hne, Function.update_of_ne hne]

theorem record_erase_eq : record (locks.erase f) = Function.update locks.record f {} := by
  funext f'
  rcases eq_or_ne f' f with rfl | hne
  · rw [record_erase, Function.update_self]
  · rw [record_erase_of_ne hne, Function.update_of_ne hne]

/-- A record that somebody owns is in the table. -/
theorem mem_of_ownerUid_ne (h : (locks.record f).ownerUid ≠ 0) : f ∈ locks := by
  by_contra hf
  rw [record, Finmap.lookup_eq_none.mpr hf] at h
  exact h rfl

/-- Writing a record back. -/
theorem insert_record (hf : f ∈ locks) : locks.insert f (locks.record f) = locks := by
  obtain ⟨lock, hlock⟩ := Finmap.mem_iff.mp hf
  refine Finmap.ext_lookup fun f' => ?_
  rcases eq_or_ne f' f with rfl | hne
  · rw [Finmap.lookup_insert, record, hlock]
    rfl
  · exact Finmap.lookup_insert_of_ne _ hne

/-- `client` has the file to itself. -/
def HoldsExclusive (lock : FileLock) (client : Client) : Prop :=
  lock.ownerUid ≠ 0 ∧ ownedBy lock client ∧ lock.exProc = client.ctc

/-- `client` is one of those that share the file. -/
def HoldsShared (lock : FileLock) (client : Client) : Prop :=
  lock.ownerUid ≠ 0 ∧ ownedBy lock client ∧ client.ctc ∈ lock.shProcs

end FileLocks

open FileLocks

section Calls

variable {client : Client} {f : ℕ} {locks : FileLocks} {Q : ℤ → FileLocks → Prop}
  {E : Halt Site → Prop}

theorem wp_getExclusiveLock_record (huser : client.userId = 0 → E (.assertion .lockUser))
    (hrefuse : (locks.record f).ownerUid ≠ 0 → Q lockError locks)
    (hgrant : client.userId ≠ 0 → (locks.record f).ownerUid = 0 → ∀ t : FileLocks,
      t.record = Function.update locks.record f ((locks.record f).withExclusive client) →
        Q lockSuccess t) :
    wp (getExclusiveLock client f) Q E locks := by
  simp only [getExclusiveLock, wp_bind, wp_assert, wp_get, decide_eq_true_eq, decide_eq_false_iff_not,
    not_not]
  refine ⟨fun h₀ => ?_, huser⟩
  split <;> simp only [wp_bind, wp_modify, wp_pure]
  · next hown => exact (insert_record (mem_of_ownerUid_ne hown)).symm ▸ hrefuse hown
  · next hown => exact hgrant h₀ (not_not.mp hown) _ record_insert_eq

theorem wp_getSharedLock_record (huser : client.userId = 0 → E (.assertion .lockUser))
    (hempty : (locks.record f).ownerUid = 0 → (locks.record f).shProcs = ∅)
    (hrefuse : ¬ (((locks.record f).ownerUid = 0 ∨ ownedBy (locks.record f) client) ∧
      client.ctc ∉ (locks.record f).shProcs) → Q lockError locks)
    (hgrant : client.userId ≠ 0 →
      ((locks.record f).ownerUid = 0 ∨ ownedBy (locks.record f) client) →
      client.ctc ∉ (locks.record f).shProcs → ∀ t : FileLocks,
        t.record = Function.update locks.record f ((locks.record f).withShared client) →
          Q lockSuccess t) :
    wp (getSharedLock client f) Q E locks := by
  simp only [getSharedLock, wp_bind, wp_assert, wp_get, decide_eq_true_eq, decide_eq_false_iff_not,
    not_not]
  refine ⟨fun h₀ => ?_, huser⟩
  split
  · next hother =>
    simp only [wp_bind, wp_modify, wp_pure]
    rw [insert_record (mem_of_ownerUid_ne hother.1)]
    exact hrefuse fun h => h.1.elim hother.1 hother.2
  · next hlock =>
    have hown : (locks.record f).ownerUid = 0 ∨ ownedBy (locks.record f) client := by tauto
    by_cases hfree : (locks.record f).ownerUid = 0
    · have hshared : client.ctc ∉ (locks.record f).shProcs := by
        rw [hempty hfree]
        exact Finset.notMem_empty _
      simp only [hfree, if_true, wp_bind, wp_modify, wp_pure, hshared, if_false]
      exact hgrant h₀ hown hshared _ record_insert_eq
    · obtain ⟨huid, hip⟩ := hown.resolve_left hfree
      have hrecord : (locks.record f).withShared client =
          { locks.record f with shProcs := insert client.ctc (locks.record f).shProcs } := by
        rw [FileLock.withShared, ← huid, ← hip]
      simp only [hfree, if_false, wp_bind, wp_modify, wp_pure]
      split_ifs with hshared
      · rw [Finset.insert_eq_of_mem hshared, insert_record (mem_of_ownerUid_ne hfree)]
        exact hrefuse fun h => h.2 hshared
      · refine hgrant h₀ hown hshared _ ?_
        rw [hrecord, record_insert_eq]

theorem wp_releaseLock_record (huser : client.userId = 0 → E (.assertion .lockUser))
    (hQ : client.userId ≠ 0 → ∀ r, ∀ t : FileLocks,
      t.record = Function.update locks.record f ((locks.record f).released client) → Q r t) :
    wp (releaseLock client f) Q E locks := by
  simp only [releaseLock, wp_bind, wp_assert, wp_get, decide_eq_true_eq, decide_eq_false_iff_not,
    not_not]
  refine ⟨fun h₀ => ?_, huser⟩
  have hQ := hQ h₀
  unfold FileLock.released at hQ
  by_cases hown : ownedBy (locks.record f) client
  · simp only [hown, not_true, if_false, Finset.card_eq_zero] at hQ ⊢
    split_ifs at hQ ⊢ with hproc hshared hlast <;> simp only [wp_bind, wp_modify, wp_pure]
    · exact hQ _ _ record_erase_eq
    · exact hQ _ _ record_erase_eq
    · exact hQ _ _ record_insert_eq
    · exact hQ _ _ record_insert_eq
  · simp only [hown, not_false_eq_true, if_true, wp_bind, wp_modify, wp_pure] at hQ ⊢
    exact hQ _ _ record_insert_eq

theorem wp_hasExclusiveLock_record (huser : client.userId = 0 → E (.assertion .lockUser))
    (hQ : client.userId ≠ 0 → ∀ r : ℤ, (r > 0 ↔ HoldsExclusive (locks.record f) client) →
      Q r locks) :
    wp (hasExclusiveLock client f) Q E locks := by
  simp only [hasExclusiveLock, wp_bind, wp_assert, wp_get, decide_eq_true_eq, decide_eq_false_iff_not,
    not_not]
  refine ⟨fun h₀ => ?_, huser⟩
  have hQ := hQ h₀
  cases hl : locks.lookup f <;> simp only [wp_pure]
  case none => exact hQ 0 (by simp [HoldsExclusive, record, hl])
  case some lock =>
    refine hQ _ ?_
    have hrecord : locks.record f = lock := by simp [record, hl]
    have hne : ownedBy lock client → lock.ownerUid ≠ 0 := fun hown => hown.1 ▸ h₀
    rw [hrecord, HoldsExclusive]
    split_ifs with hheld
    · exact iff_of_true (by decide) ⟨hne hheld.1, hheld⟩
    · exact iff_of_false (by decide) fun h => hheld h.2

theorem wp_hasSharedLock_record (huser : client.userId = 0 → E (.assertion .lockUser))
    (hQ : client.userId ≠ 0 → ∀ r : ℤ, (r > 0 ↔ HoldsShared (locks.record f) client) → Q r locks) :
    wp (hasSharedLock client f) Q E locks := by
  simp only [hasSharedLock, wp_bind, wp_assert, wp_get, decide_eq_true_eq, decide_eq_false_iff_not,
    not_not]
  refine ⟨fun h₀ => ?_, huser⟩
  have hQ := hQ h₀
  cases hl : locks.lookup f <;> simp only [wp_pure]
  case none => exact hQ 0 (by simp [HoldsShared, record, hl])
  case some lock =>
    refine hQ _ ?_
    have hrecord : locks.record f = lock := by simp [record, hl]
    have hne : ownedBy lock client → lock.ownerUid ≠ 0 := fun hown => hown.1 ▸ h₀
    rw [hrecord, HoldsShared]
    split_ifs with hheld
    · exact iff_of_true (by decide) ⟨hne hheld.1, hheld⟩
    · exact iff_of_false (by decide) fun h => hheld h.2

end Calls

end DecaFS
