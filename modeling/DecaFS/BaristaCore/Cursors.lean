import DecaFS.BaristaCore.Calls
import DecaFS.IoManager.Sending

/-!
# Cursors and sizes

`set_file_cursor` and `update_file_size` as functions on the server's state: `moved` and `sized`.
Neither is seen by the request tables, the packets or the locks.
-/

namespace DecaFS

open Code Barista

/-- The size of the file, or what an unfilled `stat` holds in its place. -/
def PersistentMetadata.sizeOf (R : Runtime) (p : PersistentMetadata) (fileId : ℕ) : ℕ :=
  ((p.metadata.lookup fileId).map PersistentMetadataInfo.size).getD R.indeterminate

/-- `get_file_cursor` -/
def cursorOf (cursors : Finmap fun _ : ℕ => FileInstance) (fd : ℕ) : ℤ :=
  match cursors.lookup fd with
  | some file => toInt32 file.offset
  | none => instanceNotFound

/-- The descriptors after `set_file_cursor`. -/
def moveCursor (R : Runtime) (p : PersistentMetadata) (fd offset : ℤ) (client : Client)
    (cursors : Finmap fun _ : ℕ => FileInstance) : Finmap fun _ : ℕ => FileInstance :=
  match cursors.lookup (fdKey fd) with
  | some file =>
    if file.clientId = client then
      cursors.insert (fdKey fd) { file with
        offset := min (toUInt32 offset).toNat (p.sizeOf R file.fileId) }
    else cursors
  | none => cursors

/-- The state after `set_file_cursor`. -/
def moved (R : Runtime) (fd offset : ℤ) (client : Client) (w : World) : World :=
  { w with volatile := { w.volatile with
      fileCursors := moveCursor R w.persistent fd offset client w.volatile.fileCursors } }

/-- The state after `update_file_size`. -/
def sized (fileId : ℕ) (delta : ℤ) (w : World) : World :=
  { w with persistent := w.persistent.resized fileId delta }

section

variable {R : Runtime} {w : World} {fd offset delta : ℤ} {client : Client} {fileId : ℕ}
  {E : Halt Site → Prop}

theorem wp_decafsFileStat {Q : Except ℤ DecafsFileStat → World → Prop}
    (hlock : w.metaLock = none) :
    wp (decafsFileStat fileId client) Q E w ↔
      if client.userId = 0 then E (.assertion .lockUser)
      else Q (match w.persistent.metadata.lookup fileId with
        | some info => .ok (PersistentMetadata.toStat info)
        | none => .error fileNotFound) w := by
  refine (wp_withMetadataLock hlock _ _).trans (iff_of_eq (congrArg (ite _ _) (propext ?_)))
  refine PersistentMetadata.wp_decafsFileStat.trans ?_
  cases w.persistent.metadata.lookup fileId <;> exact Iff.rfl

theorem wp_decafsFileSstat {path : String} {Q : Except ℤ DecafsFileStat → World → Prop}
    (hlock : w.metaLock = none) :
    wp (decafsFileSstat path client) Q E w ↔
      if client.userId = 0 then E (.assertion .lockUser)
      else Q (match (w.persistent.pathnameToFileId.lookup path).bind w.persistent.metadata.lookup with
        | some info => .ok (PersistentMetadata.toStat info)
        | none => .error fileNotFound) w := by
  refine (wp_withMetadataLock hlock _ _).trans (iff_of_eq (congrArg (ite _ _) (propext ?_)))
  refine PersistentMetadata.wp_decafsFileSstat.trans ?_
  cases (w.persistent.pathnameToFileId.lookup path).bind w.persistent.metadata.lookup <;>
    exact Iff.rfl

theorem wp_setFileCursor {Q : ℤ → World → Prop} (hlock : w.metaLock = none)
    (huser : client.userId = 0 → E (.assertion .lockUser))
    (hQ : ∀ res, Q res (moved R fd offset client w)) :
    wp (setFileCursor R fd offset client) Q E w := by
  unfold setFileCursor
  unfold moved moveCursor at hQ
  cases hl : w.volatile.fileCursors.lookup (fdKey fd) with
  | none => simpa [hl] using hQ instanceNotFound
  | some file =>
    simp only [wp_bind, wp_get, hl] at hQ ⊢
    by_cases hclient : file.clientId = client
    · simp only [hclient, if_true, wp_bind, wp_decafsFileStat hlock] at hQ ⊢
      split_ifs with hzero
      · exact huser hzero
      · simp only [volatile, wp_zoom, wp_modify, wp_pure]
        cases hm : w.persistent.metadata.lookup file.fileId with
        | none => simpa [PersistentMetadata.sizeOf, hm] using hQ _
        | some info =>
          simpa [PersistentMetadata.sizeOf, hm, PersistentMetadata.toStat] using hQ _
    · simp only [hclient, if_false, wp_pure] at hQ ⊢
      exact hQ _

theorem wp_updateFileSize {Q : ℤ → World → Prop} (hlock : w.metaLock = none)
    (huser : client.userId = 0 → E (.assertion .lockUser))
    (hQ : ∀ res, Q res (sized fileId delta w)) :
    wp (updateFileSize fileId delta client) Q E w := by
  rw [updateFileSize, wp_withMetadataLock hlock]
  split_ifs with hzero
  · exact huser hzero
  · exact PersistentMetadata.wp_updateFileSize hQ

theorem unseen_moved : Unseen w (moved R fd offset client w) := ⟨rfl, rfl, rfl, rfl⟩

theorem deleting_moved : Deleting w (moved R fd offset client w) := .of_eq rfl rfl rfl

/-- A cursor that moves stays with its owner and its file. -/
theorem lookup_moveCursor {p : PersistentMetadata}
    {cursors : Finmap fun _ : ℕ => FileInstance} (fd' : ℕ) :
    ((moveCursor R p fd offset client cursors).lookup fd').map
        (fun file => (file.clientId, file.fileId)) =
      (cursors.lookup fd').map fun file => (file.clientId, file.fileId) := by
  unfold moveCursor
  split
  · next file hfile =>
    split_ifs
    · rcases eq_or_ne fd' (fdKey fd) with rfl | hne
      · simp [hfile]
      · rw [Finmap.lookup_insert_of_ne _ hne]
    · rfl
  · rfl

theorem custody_moved : custody (moved R fd offset client w) = custody w := by
  refine Custody.ext rfl rfl rfl ?_
  funext fd'
  exact lookup_moveCursor fd'

/-- Only the owner of a descriptor moves its cursor. -/
theorem moveCursor_of_ne {p : PersistentMetadata} {cursors : Finmap fun _ : ℕ => FileInstance}
    {file : FileInstance} (hfile : cursors.lookup (fdKey fd) = some file)
    (hne : file.clientId ≠ client) : moveCursor R p fd offset client cursors = cursors := by
  simp only [moveCursor, hfile, hne, if_false]

theorem unseen_sized : Unseen w (sized fileId delta w) := ⟨rfl, rfl, rfl, rfl⟩

theorem deleting_sized : Deleting w (sized fileId delta w) where
  consistent hc := hc.resized
  lastFileId := PersistentMetadata.lastFileId_resized.le
  gone c f hg := by
    obtain ⟨g, hsize⟩ := PersistentMetadata.lookup_resized w.persistent fileId delta f
    refine ⟨?_, fun path => ?_, hg.released⟩
    · simp only [sized, hsize, hg.metadata, Option.map_none]
    · simpa only [sized, PersistentMetadata.pathnameToFileId_resized] using hg.pathname path
  kept _ id a ha := .inl ⟨a, ha, rfl, rfl⟩

theorem custody_sized : custody (sized fileId delta w) = custody w := by
  refine Custody.ext rfl rfl ?_ rfl
  ext f
  exact PersistentMetadata.mem_resized

end

end DecaFS
