import DecaFS.Locking.Records

/-!
# Who holds a lock

What `withExclusive`, `withShared` and `released` do to those that hold the lock of a file. A
record is `Sorted` if it does not name an exclusive process and shared ones at the same time, and
a client is connected if its connection is not `NULL`.
-/

namespace DecaFS

namespace FileLocks

/-- The client holds the lock in some way. -/
def Holds (lock : FileLock) (client : Client) : Prop :=
  HoldsExclusive lock client ∨ HoldsShared lock client

/-- No process is exclusive next to shared ones, and shared ones have an owner. -/
structure Sorted (lock : FileLock) : Prop where
  exclusive : lock.exProc ≠ none → lock.shProcs = ∅
  owned : lock.ownerUid = 0 → lock.shProcs = ∅

variable {lock : FileLock} {c client : Client}

theorem ownedBy.ext (h : ownedBy lock c) (h' : ownedBy lock client) (hctc : c.ctc = client.ctc) :
    c = client := by
  obtain ⟨⟨cip⟩, cuser, cctc⟩ := c
  obtain ⟨⟨ip⟩, user, ctc⟩ := client
  simp only [ownedBy] at h h' hctc
  simp only [Client.mk.injEq]
  exact ⟨h.2.symm.trans h'.2, h.1.symm.trans h'.1, hctc⟩

theorem Holds.ownedBy (h : Holds lock c) : FileLocks.ownedBy lock c :=
  h.elim (fun h => h.2.1) fun h => h.2.1

theorem Holds.ownerUid_ne (h : Holds lock c) : lock.ownerUid ≠ 0 := h.elim And.left And.left

theorem HoldsExclusive.eq (h : HoldsExclusive lock c) (h' : HoldsExclusive lock client) :
    c = client :=
  h.2.1.ext h'.2.1 (h.2.2.symm.trans h'.2.2)

/-- Next to an exclusive holder there is nobody else. -/
theorem HoldsExclusive.eq_of_holds (h : HoldsExclusive lock c) (hs : Sorted lock)
    (hctc : c.ctc ≠ none) (h' : Holds lock client) : c = client := by
  rcases h' with h' | h'
  · exact h.eq h'
  · have hnone : lock.shProcs = ∅ := hs.exclusive (by rw [h.2.2]; exact hctc)
    exact absurd h'.2.2 (by simp [hnone])

theorem not_holds_empty : ¬ Holds {} c := fun h => h.ownerUid_ne rfl

theorem sorted_empty : Sorted {} := ⟨fun _ => rfl, fun _ => rfl⟩

/-! ### Taking the exclusive lock -/

theorem holdsExclusive_withExclusive (huser : client.userId ≠ 0) :
    HoldsExclusive (lock.withExclusive client) client :=
  ⟨huser, ⟨rfl, rfl⟩, rfl⟩

theorem sorted_withExclusive (huser : client.userId ≠ 0) (hs : Sorted lock)
    (hfree : lock.ownerUid = 0) : Sorted (lock.withExclusive client) :=
  ⟨fun _ => hs.owned hfree, fun h₀ => absurd h₀ huser⟩

theorem Holds.of_withExclusive (h : Holds (lock.withExclusive client) c) (hs : Sorted lock)
    (hfree : lock.ownerUid = 0) : c = client := by
  rcases h with h | h
  · exact ownedBy.ext h.2.1 ⟨rfl, rfl⟩ h.2.2.symm
  · have hnone : c.ctc ∈ lock.shProcs := h.2.2
    exact absurd hnone (by simp [hs.owned hfree])

/-! ### Taking a shared lock -/

theorem holdsShared_withShared (huser : client.userId ≠ 0) :
    HoldsShared (lock.withShared client) client :=
  ⟨huser, ⟨rfl, rfl⟩, Finset.mem_insert_self _ _⟩

theorem sorted_withShared (huser : client.userId ≠ 0) (hex : lock.exProc = none) :
    Sorted (lock.withShared client) :=
  ⟨fun h => absurd hex h, fun h₀ => absurd h₀ huser⟩

/-- Those that share the file go on to share it. -/
theorem Holds.withShared (h : Holds lock c) (hctc : c.ctc ≠ none) (hex : lock.exProc = none)
    (hgrant : lock.ownerUid = 0 ∨ FileLocks.ownedBy lock client) :
    Holds (lock.withShared client) c := by
  have hown := hgrant.resolve_left h.ownerUid_ne
  rcases h with h | h
  · exact absurd (h.2.2.symm.trans hex) hctc
  · refine .inr ⟨fun h₀ => h.1 (hown.1.trans h₀), ⟨?_, ?_⟩, Finset.mem_insert_of_mem h.2.2⟩
    · exact hown.1.symm.trans h.2.1.1
    · exact hown.2.symm.trans h.2.1.2

theorem Holds.of_withShared (h : Holds (lock.withShared client) c) (hctc : c.ctc ≠ none)
    (hs : Sorted lock) (hex : lock.exProc = none)
    (hgrant : lock.ownerUid = 0 ∨ FileLocks.ownedBy lock client) :
    c = client ∨ Holds lock c := by
  rcases h with h | h
  · exact absurd (h.2.2.symm.trans hex) hctc
  · rcases Finset.mem_insert.mp h.2.2 with heq | hmem
    · exact .inl (ownedBy.ext h.2.1 ⟨rfl, rfl⟩ heq)
    · have hne : lock.ownerUid ≠ 0 := by
        intro hfree
        simp [hs.owned hfree] at hmem
      have hown := hgrant.resolve_left hne
      exact .inr (.inr ⟨hne, ⟨hown.1.trans h.2.1.1, hown.2.trans h.2.1.2⟩, hmem⟩)

/-! ### Releasing -/

/-- A release gives nobody the exclusive lock. -/
theorem HoldsExclusive.of_released (h : HoldsExclusive (lock.released client) c) :
    HoldsExclusive lock c := by
  unfold FileLock.released at h
  split_ifs at h
  -- the record is as it was, has lost a shared holder or is empty
  all_goals first | exact h | exact absurd rfl h.1

/-- A release gives nobody a shared lock. -/
theorem HoldsShared.of_released (h : HoldsShared (lock.released client) c) :
    HoldsShared lock c := by
  unfold FileLock.released at h
  split_ifs at h
  · exact absurd rfl h.1
  · exact absurd rfl h.1
  · exact ⟨h.1, h.2.1, Finset.mem_of_mem_erase h.2.2⟩
  all_goals exact h

theorem not_holdsExclusive_released : ¬ HoldsExclusive (lock.released client) client := by
  intro h
  obtain ⟨-, hown, hproc⟩ := h.of_released
  refine h.1 ?_
  simp [FileLock.released, hown, hproc]

theorem not_holdsShared_released : ¬ HoldsShared (lock.released client) client := by
  intro h
  obtain ⟨-, hown, hproc⟩ := h.of_released
  unfold FileLock.released at h
  simp only [hown, not_true_eq_false, if_false] at h
  split_ifs at h
  · exact h.1 rfl
  · exact h.1 rfl
  · exact Finset.notMem_erase _ _ h.2.2

theorem sorted_released (hs : Sorted lock) : Sorted (lock.released client) := by
  unfold FileLock.released
  split_ifs
  · exact sorted_empty
  · exact sorted_empty
  · refine ⟨fun hex => ?_, fun h₀ => ?_⟩
    · simp [hs.exclusive hex]
    · simp [hs.owned h₀]
  · exact hs
  · exact hs

theorem Holds.of_released (h : Holds (lock.released client) c) : Holds lock c ∧ c ≠ client := by
  refine ⟨h.imp HoldsExclusive.of_released HoldsShared.of_released, ?_⟩
  rintro rfl
  exact h.elim not_holdsExclusive_released not_holdsShared_released

/-- The others keep what they hold. -/
theorem Holds.released (h : Holds lock c) (hne : c ≠ client) (hctc : c.ctc ≠ none)
    (hctc' : client.ctc ≠ none) (hs : Sorted lock) : Holds (lock.released client) c := by
  by_cases hown : FileLocks.ownedBy lock client
  · have hproc : c.ctc ≠ client.ctc := fun heq => hne (h.ownedBy.ext hown heq)
    have hex : lock.exProc ≠ client.ctc := by
      intro hex
      have hheld : HoldsExclusive lock client := ⟨h.ownerUid_ne, hown, hex⟩
      exact hne (hheld.eq_of_holds hs hctc' h).symm
    by_cases hmem : client.ctc ∈ lock.shProcs
    · rcases h with h | h
      · have hnone := hs.exclusive (by rw [h.2.2]; exact hctc)
        simp [hnone] at hmem
      · have hleft : c.ctc ∈ lock.shProcs.erase client.ctc := Finset.mem_erase.mpr ⟨hproc, h.2.2⟩
        have hne' : lock.shProcs.erase client.ctc ≠ ∅ := by
          intro hempty
          simp [hempty] at hleft
        simp only [FileLock.released, hown, not_true_eq_false, if_false, hex, hmem, hne']
        exact .inr ⟨h.1, h.2.1, hleft⟩
    · simpa only [FileLock.released, hown, not_true_eq_false, if_false, hex, hmem, not_false_eq_true,
        if_true] using h
  · simpa only [FileLock.released, hown, not_false_eq_true, if_true] using h

/-- An exclusive holder that does not release its lock keeps it. -/
theorem HoldsExclusive.released (h : HoldsExclusive lock c) (hne : c ≠ client) (hctc : c.ctc ≠ none)
    (hctc' : client.ctc ≠ none) (hs : Sorted lock) : HoldsExclusive (lock.released client) c := by
  have hnone := hs.exclusive (by rw [h.2.2]; exact hctc)
  rcases Holds.released (.inl h) hne hctc hctc' hs with hex | hsh
  · exact hex
  · exact absurd hsh.of_released.2.2 (by simp [hnone])

end FileLocks

end DecaFS
