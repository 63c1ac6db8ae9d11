import DecaFS.BaristaCore.LockTable

/-!
# The owners of the descriptors

A descriptor belongs to the client whose `open_file` gave it out, whatever is read, written or sought
through it, until it is closed. So what holds of all clients that open files holds of all owners
(`Owners.step`).
-/

namespace DecaFS

open Code Barista

/-- The metadata lock is free, and every descriptor has an owner of whom `P` holds. -/
structure Owners (P : Client → Prop) (w : World) : Prop where
  unlocked : w.metaLock = none
  owner : ∀ fd file, w.volatile.fileCursors.lookup fd = some file → P file.clientId

namespace Owners

variable {R : Runtime} {P : Client → Prop} {w w' : World} {i : Input} {client : Client}

theorem filed : Filed (Owners P) where
  unlocked _ h := h.unlocked
  view _ _ hlock _ hcursors h := ⟨hlock.trans h.unlocked, hcursors ▸ h.owner⟩
  deleted _ _ h := ⟨h.unlocked, h.owner⟩

variable (R client) in
theorem moved (h : Owners P w) (fd offset : ℤ) : Owners P (DecaFS.moved R fd offset client w) := by
  refine ⟨h.unlocked, fun fd' file hfile => ?_⟩
  have hkept : ((moveCursor R w.persistent fd offset client w.volatile.fileCursors).lookup fd').map
      (fun file => (file.clientId, file.fileId)) = _ := lookup_moveCursor fd'
  have hmoved : (moveCursor R w.persistent fd offset client w.volatile.fileCursors).lookup fd' =
      some file := hfile
  rw [hmoved] at hkept
  obtain ⟨old, hold, heq⟩ := Option.map_eq_some_iff.mp hkept.symm
  have howner : old.clientId = file.clientId := congrArg Prod.fst heq
  exact howner ▸ h.owner fd' old hold

theorem withoutFd (h : Owners P w) (fd : ℕ) (locks : FileLocks) :
    Owners P (DecaFS.withoutFd fd locks w) := by
  refine ⟨h.unlocked, fun fd' file hfile => ?_⟩
  change (w.volatile.fileCursors.erase fd).lookup fd' = some file at hfile
  have hne : fd' ≠ fd := by
    rintro rfl
    simp at hfile
  rw [Finmap.lookup_erase_ne hne] at hfile
  exact h.owner fd' file hfile

theorem withNewFd (h : Owners P w) (hclient : P client) (f : ℕ) (locks : FileLocks) :
    Owners P (DecaFS.withNewFd f client locks w) := by
  refine ⟨h.unlocked, fun fd file hfile => ?_⟩
  change (w.volatile.fileCursors.insert w.volatile.nextFd ⟨client, f, 0⟩).lookup fd = some file at hfile
  rcases eq_or_ne fd w.volatile.nextFd with rfl | hne
  · rw [Finmap.lookup_insert] at hfile
    obtain rfl := Option.some.inj hfile
    exact hclient
  · rw [Finmap.lookup_insert_of_ne _ hne] at hfile
    exact h.owner fd file hfile

/-- **The step lemma.** -/
theorem step (h : Owners P w) (hrested : Rested w)
    (hopener : ∀ path flags client, i = .openFile path flags client → client.userId ≠ 0 → P client)
    (hstep : Barista.step R w i w') : Owners P w' := by
  have hopenId : ∀ f size flags client p, (client.userId ≠ 0 → P client) →
      wp (openFileId R f size flags client) (fun _ w' => Owners P w') (fun _ => True)
        { w with persistent := p } := by
    intro f size flags client p hclient
    refine wp_openFileId (w := { w with persistent := p }) hrested.unlocked hrested.clear
      (fun _ => trivial) (fun _ => ?_) fun hgrants locks _ => ?_
    · exact ⟨h.unlocked, h.owner⟩
    · have hnew := Owners.withNewFd (w := { w with persistent := p }) ⟨h.unlocked, h.owner⟩
        (hclient hgrants.1) f locks
      split_ifs
      · have hmoved := Owners.moved R client hnew (toInt32 w.volatile.nextFd) size
        exact ⟨hmoved.unlocked, hmoved.owner⟩
      · exact ⟨hnew.unlocked, hnew.owner⟩
  refine filed.step (fun _ fd offset client hw => hw.moved R client fd offset)
    (fun w f delta hw => ⟨hw.unlocked, hw.owner⟩) (fun _ fd locks hw => hw.withoutFd fd locks)
    (fun path flags client hi => ?_) h hstep
  have hclient := hopener path flags client hi
  refine wp_openFile_fileId hrested.unlocked (fun _ => trivial) (fun info _ => ?_)
    (fun _ _ _ _ time => ?_) (fun _ _ e _ => ?_) fun _ _ => ?_
  · exact hopenId _ _ _ _ _ hclient
  · exact hopenId _ _ _ _ _ hclient
  · exact hopenId _ _ _ _ _ hclient
  · exact ⟨h.unlocked, h.owner⟩

end Owners

end DecaFS
