import DecaFS.Metadata.Persistent

/-!
# The tables of the files agree

A name leads to the file that has it, and as long as fewer than `2^32` ids are given out a new
file gets a new one. `without` and `resized` are the tables after `delete_file_contents` and
`update_file_size`.
-/

namespace DecaFS

open Code

namespace PersistentMetadata

variable {S C : Type}

/-- The tables after `delete_file_contents`. -/
def without (p : PersistentMetadata S C) (fileId : ℕ) : PersistentMetadata S C :=
  match p.metadata.lookup fileId with
  | some info => { p with
      pathnameToFileId := p.pathnameToFileId.erase info.pathname
      metadata := p.metadata.erase fileId }
  | none => p

/-- The tables after `update_file_size`. -/
def resized (p : PersistentMetadata S C) (fileId : ℕ) (sizeDelta : ℤ) : PersistentMetadata S C :=
  match p.metadata.lookup fileId with
  | some info =>
    { p with metadata := p.metadata.insert fileId { info with size := newSize info.size sizeDelta } }
  | none => p

/-- The size of a file that grows, within the range of `int`. -/
theorem newSize_add {size len : ℕ} (h : (size + len : ℤ) ≤ intMax) : newSize size len = size + len := by
  unfold newSize toInt32 toUInt32 intMax at *
  rw [if_neg (by omega)]
  omega

theorem newSize_lt (size : ℕ) (delta : ℤ) : newSize size delta < 4294967296 := by
  unfold newSize toUInt32
  split_ifs
  · decide
  · omega

/-- The last id given out, or the largest one in use. -/
def lastFileId (p : PersistentMetadata S C) : ℕ :=
  if p.nextFileId = idNotSet then p.metadata.keys.sup id else p.nextFileId

/-- Names lead to files, and files are stored under their own ids. -/
structure Consistent (p : PersistentMetadata S C) : Prop where
  fileId_eq : ∀ f info, p.metadata.lookup f = some info → info.fileId = f
  named : ∀ path f, p.pathnameToFileId.lookup path = some f →
    ∃ info, p.metadata.lookup f = some info ∧ info.pathname = path
  le_lastFileId : ∀ f ∈ p.metadata, f ≤ p.lastFileId

variable {p : PersistentMetadata S C} {f : ℕ} {E : Halt Site → Prop}

theorem wp_deleteFileContents {Q : ℤ → PersistentMetadata S C → Prop}
    (hQ : ∀ res, res ≠ noMetadataLock → Q res (p.without f)) :
    wp (deleteFileContents f) Q E p := by
  simp only [without] at hQ
  simp only [deleteFileContents, wp_bind, wp_get]
  cases hl : p.metadata.lookup f with
  | some info =>
    rw [hl] at hQ
    simpa only [wp_bind, wp_modify, wp_pure] using hQ pMetaSuccess (by decide)
  | none =>
    rw [hl] at hQ
    simpa only [wp_pure] using hQ fileNotFound (by decide)

theorem wp_updateFileSize {Q : ℤ → PersistentMetadata S C → Prop} {delta : ℤ}
    (hQ : ∀ res, Q res (p.resized f delta)) : wp (updateFileSize f delta) Q E p := by
  simp only [resized] at hQ
  simp only [updateFileSize, wp_bind, wp_get]
  cases hl : p.metadata.lookup f with
  | some info =>
    rw [hl] at hQ
    simpa only [wp_bind, wp_modify, wp_pure] using hQ _
  | none =>
    rw [hl] at hQ
    simpa only [wp_pure] using hQ fileNotFound

theorem wp_decafsFileStat {Q : Except ℤ (DecafsFileStat S C) → PersistentMetadata S C → Prop} :
    wp (decafsFileStat f) Q E p ↔ Q (match p.metadata.lookup f with
      | some info => .ok (toStat info)
      | none => .error fileNotFound) p := by
  unfold decafsFileStat
  cases hl : p.metadata.lookup f <;> simp [hl]

theorem wp_decafsFileSstat {path : String}
    {Q : Except ℤ (DecafsFileStat S C) → PersistentMetadata S C → Prop} :
    wp (decafsFileSstat path) Q E p ↔
      Q (match (p.pathnameToFileId.lookup path).bind p.metadata.lookup with
        | some info => .ok (toStat info)
        | none => .error fileNotFound) p := by
  unfold decafsFileSstat
  cases hl : p.pathnameToFileId.lookup path with
  | none => simp [hl]
  | some f => simp [hl, wp_decafsFileStat]

/-! ### Deleting a file -/

@[simp]
theorem lookup_without_self : (p.without f).metadata.lookup f = none := by
  unfold without
  cases hl : p.metadata.lookup f <;> simp [hl]

theorem lookup_without_of_ne {f' : ℕ} (h : f' ≠ f) :
    (p.without f).metadata.lookup f' = p.metadata.lookup f' := by
  unfold without
  cases hl : p.metadata.lookup f <;> simp [Finmap.lookup_erase_ne h]

theorem nextFileId_without : (p.without f).nextFileId = p.nextFileId := by
  unfold without
  cases p.metadata.lookup f <;> rfl

/-- Deleting a file adds no file. -/
theorem mem_of_mem_without {f' : ℕ} (h : f' ∈ (p.without f).metadata) : f' ∈ p.metadata := by
  obtain ⟨info, hinfo⟩ := Finmap.mem_iff.mp h
  have hne : f' ≠ f := by
    rintro rfl
    simp at hinfo
  exact Finmap.mem_of_lookup_eq_some (lookup_without_of_ne hne ▸ hinfo)

/-- Deleting a file adds no name. -/
theorem pathname_of_without {path : String} {f' : ℕ}
    (h : (p.without f).pathnameToFileId.lookup path = some f') :
    p.pathnameToFileId.lookup path = some f' := by
  unfold without at h
  cases hl : p.metadata.lookup f with
  | none => simpa [hl] using h
  | some info =>
    rw [hl] at h
    have hne : path ≠ info.pathname := by
      rintro rfl
      simp at h
    simpa [Finmap.lookup_erase_ne hne] using h

/-- No name leads to a deleted file. -/
theorem Consistent.pathname_without (h : p.Consistent) (path : String) :
    (p.without f).pathnameToFileId.lookup path ≠ some f := by
  intro hpath
  obtain ⟨info, hinfo, rfl⟩ := h.named path f (pathname_of_without hpath)
  simp [without, hinfo] at hpath

theorem Consistent.without (h : p.Consistent) : (p.without f).Consistent where
  fileId_eq f' info hl := by
    have hne : f' ≠ f := by
      rintro rfl
      simp at hl
    exact h.fileId_eq f' info (lookup_without_of_ne hne ▸ hl)
  named path f' hl := by
    have hne : f' ≠ f := by
      rintro rfl
      exact h.pathname_without path hl
    rw [lookup_without_of_ne hne]
    exact h.named path f' (pathname_of_without hl)
  le_lastFileId f' hf' := by
    have hle := h.le_lastFileId f' (mem_of_mem_without hf')
    unfold lastFileId at hle ⊢
    rw [nextFileId_without]
    split_ifs at hle ⊢
    · exact Finset.le_sup (f := id) (Finmap.mem_keys.mpr hf')
    · exact hle

theorem lastFileId_without_le : (p.without f).lastFileId ≤ p.lastFileId := by
  unfold lastFileId without
  cases hl : p.metadata.lookup f with
  | none => exact le_rfl
  | some info =>
    simp only
    split_ifs
    · refine Finset.sup_mono fun f' hf' => ?_
      exact Finmap.mem_keys.mpr (Finmap.mem_erase.mp (Finmap.mem_keys.mp hf')).2
    · exact le_rfl

/-! ### Resizing a file -/

section Resized

variable {delta : ℤ}

@[simp]
theorem pathnameToFileId_resized :
    (p.resized f delta).pathnameToFileId = p.pathnameToFileId := by
  unfold resized
  cases p.metadata.lookup f <;> rfl

theorem nextFileId_resized : (p.resized f delta).nextFileId = p.nextFileId := by
  unfold resized
  cases p.metadata.lookup f <;> rfl

theorem lookup_resized_of_ne {f' : ℕ} (h : f' ≠ f) :
    (p.resized f delta).metadata.lookup f' = p.metadata.lookup f' := by
  unfold resized
  cases p.metadata.lookup f <;> simp [Finmap.lookup_insert_of_ne _ h]

theorem lookup_resized (p : PersistentMetadata S C) (f : ℕ) (delta : ℤ) (f' : ℕ) : ∃ g : PersistentMetadataInfo S C → ℕ,
    (p.resized f delta).metadata.lookup f' =
      (p.metadata.lookup f').map fun info => { info with size := g info } := by
  rcases eq_or_ne f' f with rfl | hne
  · unfold resized
    cases hl : p.metadata.lookup f' with
    | none => exact ⟨fun _ => 0, by simp [hl]⟩
    | some info =>
      exact ⟨fun _ => newSize info.size delta, by simp⟩
  · refine ⟨PersistentMetadataInfo.size, ?_⟩
    rw [lookup_resized_of_ne hne]
    simp

theorem mem_resized {f' : ℕ} : f' ∈ (p.resized f delta).metadata ↔ f' ∈ p.metadata := by
  obtain ⟨g, hg⟩ := lookup_resized p f delta f'
  simp only [← Finmap.lookup_isSome, hg, Option.isSome_map]

@[simp]
theorem lastFileId_resized : (p.resized f delta).lastFileId = p.lastFileId := by
  have hkeys : (p.resized f delta).metadata.keys = p.metadata.keys := by
    ext f'
    rw [Finmap.mem_keys, Finmap.mem_keys, mem_resized]
  rw [lastFileId, hkeys, nextFileId_resized, lastFileId]

theorem Consistent.resized (h : p.Consistent) : (p.resized f delta).Consistent where
  fileId_eq f' info hl := by
    obtain ⟨g, hg⟩ := lookup_resized p f delta f'
    obtain ⟨info', hinfo', rfl⟩ := Option.map_eq_some_iff.mp (hg.symm.trans hl)
    exact h.fileId_eq f' info' hinfo'
  named path f' hl := by
    obtain ⟨info, hinfo, rfl⟩ := h.named path f' (by simpa using hl)
    obtain ⟨g, hg⟩ := lookup_resized p f delta f'
    exact ⟨{ info with size := g info }, by rw [hg, hinfo]; rfl, rfl⟩
  le_lastFileId f' hf' := by
    rw [lastFileId_resized]
    exact h.le_lastFileId f' (mem_resized.mp hf')

end Resized

/-! ### Adding a file -/

/-- The id of the next new file. -/
def newFileId (p : PersistentMetadata S C) : ℕ := (toUInt32 ((p.lastFileId : ℤ) + 1)).toNat

/-- The tables once `add_file` has entered a file. -/
def added (p : PersistentMetadata S C) (path : String) (stripeSize : S) (chunkSize : C)
    (replicaSize : ℕ) (time : Timeval) : PersistentMetadata S C where
  pathnameToFileId := p.pathnameToFileId.insert path p.newFileId
  metadata := p.metadata.insert p.newFileId
    ⟨p.newFileId, 0, stripeSize, chunkSize, replicaSize, path, time⟩
  nextFileId := p.newFileId

/-- `add_file` refuses the name with the error `e`. -/
def AddRefused (p : PersistentMetadata S C) (path : String) (e : ℤ) : Prop :=
  e = fileExists ∧ path ∈ p.pathnameToFileId ∨
    e = filenameInvalid ∧ path ∉ p.pathnameToFileId ∧ maxFilenameLength < path.utf8ByteSize

theorem AddRefused.unique {path : String} {e e' : ℤ} (h : p.AddRefused path e)
    (h' : p.AddRefused path e') : e = e' := by
  rcases h with ⟨rfl, hmem⟩ | ⟨rfl, hnew, -⟩ <;> rcases h' with ⟨rfl, hmem'⟩ | ⟨rfl, hnew', -⟩
  · rfl
  · exact absurd hmem hnew'
  · exact absurd hmem' hnew
  · rfl

theorem wp_addFile {Q : ℤ → PersistentMetadata S C → Prop} (path : String) (stripeSize : S)
    (chunkSize : C) (replicaSize : ℕ) (time : Timeval) (hrefuse : ∀ e, p.AddRefused path e → Q e p)
    (hadd : path ∉ p.pathnameToFileId → path.utf8ByteSize ≤ maxFilenameLength →
      Q (toInt32 p.newFileId) (p.added path stripeSize chunkSize replicaSize time)) :
    wp (addFile path stripeSize chunkSize replicaSize time) Q E p := by
  unfold addFile getNewFileId
  by_cases hpath : path ∈ p.pathnameToFileId
  · simp only [wp_bind, wp_get, hpath, if_true, wp_pure]
    exact hrefuse _ (.inl ⟨rfl, hpath⟩)
  · by_cases hlong : path.utf8ByteSize > maxFilenameLength
    · simp only [wp_bind, wp_get, hpath, if_false, hlong, if_true, wp_pure]
      exact hrefuse _ (.inr ⟨rfl, hpath, hlong⟩)
    · simp only [wp_bind, wp_get, hpath, if_false, hlong, wp_set, wp_pure, wp_modify]
      exact hadd hpath (not_lt.mp hlong)

theorem newFileId_lt (p : PersistentMetadata S C) : p.newFileId < 4294967296 := by
  unfold newFileId toUInt32
  omega

theorem newFileId_eq (hlast : p.lastFileId + 1 < 4294967296) : p.newFileId = p.lastFileId + 1 := by
  unfold newFileId
  rw [toUInt32_eq] <;> omega

theorem Consistent.newFileId_notMem (h : p.Consistent) (hlast : p.lastFileId + 1 < 4294967296) :
    p.newFileId ∉ p.metadata := by
  intro hmem
  have hle := h.le_lastFileId _ hmem
  rw [newFileId_eq hlast] at hle
  omega

/-- A new file gets an id no other file has. -/
theorem Consistent.added (h : p.Consistent) (hlast : p.lastFileId + 1 < 4294967296) (path : String)
    (stripeSize : S) (chunkSize : C) (replicaSize : ℕ) (time : Timeval) :
    (p.added path stripeSize chunkSize replicaSize time).Consistent ∧
      (p.added path stripeSize chunkSize replicaSize time).lastFileId = p.lastFileId + 1 := by
  have hid := newFileId_eq hlast
  have hfresh := h.newFileId_notMem hlast
  have hlast' : (p.added path stripeSize chunkSize replicaSize time).lastFileId =
      p.lastFileId + 1 := by
    simp [lastFileId, idNotSet, PersistentMetadata.added, hid]
  refine ⟨⟨fun f info hl => ?_, fun path' f hl => ?_, fun f hf => ?_⟩, hlast'⟩
  · unfold PersistentMetadata.added at hl
    rcases eq_or_ne f p.newFileId with rfl | hne
    · obtain rfl : _ = info := by simpa using hl
      rfl
    · exact h.fileId_eq f info (by simpa [Finmap.lookup_insert_of_ne _ hne] using hl)
  · unfold PersistentMetadata.added at hl ⊢
    rcases eq_or_ne path' path with rfl | hne
    · obtain rfl : p.newFileId = f := by simpa using hl
      exact ⟨_, Finmap.lookup_insert _, rfl⟩
    · obtain ⟨info, hinfo, hname⟩ := h.named path' f
        (by simpa [Finmap.lookup_insert_of_ne _ hne] using hl)
      have hf : f ≠ p.newFileId := by
        rintro rfl
        exact hfresh (Finmap.mem_of_lookup_eq_some hinfo)
      exact ⟨info, by simpa [Finmap.lookup_insert_of_ne _ hf] using hinfo, hname⟩
  · rw [hlast']
    rcases Finmap.mem_insert.mp hf with rfl | hf
    · exact hid.le
    · exact (h.le_lastFileId f hf).trans (Nat.le_succ _)

end PersistentMetadata

end DecaFS
