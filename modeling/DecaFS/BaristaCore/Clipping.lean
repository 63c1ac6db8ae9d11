import DecaFS.BaristaCore.OpenFiles
import DecaFS.BaristaCore.Runs

/-!
# Cursors stay inside their files

`set_file_cursor` clips a cursor at the size that it finds for the file. The file is there, as nobody
deletes it while it is open (`Anchored`), and no file shrinks while its size stays in the range of an
`int`. So no cursor is past the end of its file: `Tended` is kept by every sound message.
-/

namespace DecaFS

open Code Barista FileLocks Custody

/-- No cursor is past the end of its file, where the file is there. -/
structure Clipped (w : World) : Prop where
  unlocked : w.metaLock = none
  le_size : ∀ fd file info, w.volatile.fileCursors.lookup fd = some file →
    w.persistent.metadata.lookup file.fileId = some info → file.offset ≤ info.size

/-- The cursors are clipped, and the size of the file `f` is at most `s`. -/
structure ClippedTo (f s : ℕ) (w : World) : Prop extends Clipped w where
  size_le : ∀ info, w.persistent.metadata.lookup f = some info → info.size ≤ s

/-- Every descriptor is open on a file that is there, with its cursor inside. -/
def Inside (w : World) : Prop := ∀ fd file, w.volatile.fileCursors.lookup fd = some file →
  ∃ info, w.persistent.metadata.lookup file.fileId = some info ∧ file.offset ≤ info.size

/-- What holds in every state of a run of sound messages. -/
structure Tended (w : World) : Prop extends Running w, Anchored (custody w), Clipped w where
  consistent : w.persistent.Consistent

section

variable {R : Runtime} {w w' : World} {i : Input} {fd offset : ℤ} {client : Client} {f s len : ℕ}

theorem Clipped.without (h : Clipped w) (f : ℕ) :
    Clipped { w with persistent := w.persistent.without f } := by
  refine ⟨h.unlocked, fun fd file info hfile hinfo => ?_⟩
  have hne : file.fileId ≠ f := by
    intro heq
    rw [heq] at hinfo
    simp at hinfo
  exact h.le_size fd file info hfile (PersistentMetadata.lookup_without_of_ne hne ▸ hinfo)

theorem filed_clipped : Filed Clipped where
  unlocked _ h := h.unlocked
  view w w' hlock hpersistent hcursors h := by
    refine ⟨hlock.trans h.unlocked, ?_⟩
    rw [hpersistent, hcursors]
    exact h.le_size
  deleted _ f h := h.without f

theorem filed_clippedTo : Filed (ClippedTo f s) where
  unlocked _ h := h.unlocked
  view w w' hlock hpersistent hcursors h := by
    refine ⟨filed_clipped.view w w' hlock hpersistent hcursors h.toClipped, ?_⟩
    rw [hpersistent]
    exact h.size_le
  deleted w f' h := by
    refine ⟨h.without f', fun info hinfo => h.size_le info ?_⟩
    have hne : f ≠ f' := by
      rintro rfl
      simp at hinfo
    rwa [PersistentMetadata.lookup_without_of_ne hne] at hinfo

/-! ### Moving and growing -/

theorem Clipped.moved (h : Clipped w) : Clipped (moved R fd offset client w) := by
  refine ⟨h.unlocked, fun fd' file info hfile hinfo => ?_⟩
  change (moveCursor R w.persistent fd offset client w.volatile.fileCursors).lookup fd' = some file
    at hfile
  change w.persistent.metadata.lookup file.fileId = some info at hinfo
  unfold moveCursor at hfile
  split at hfile
  · next old hold =>
    by_cases howner : old.clientId = client
    · rw [if_pos howner] at hfile
      rcases eq_or_ne fd' (fdKey fd) with rfl | hne
      · rw [Finmap.lookup_insert] at hfile
        obtain rfl := Option.some.inj hfile
        have hsize : w.persistent.sizeOf R old.fileId = info.size := by
          rw [PersistentMetadata.sizeOf, hinfo]
          rfl
        exact hsize ▸ min_le_right _ _
      · rw [Finmap.lookup_insert_of_ne _ hne] at hfile
        exact h.le_size fd' file info hfile hinfo
    · rw [if_neg howner] at hfile
      exact h.le_size fd' file info hfile hinfo
  · exact h.le_size fd' file info hfile hinfo

theorem ClippedTo.moved (h : ClippedTo f s w) : ClippedTo f s (moved R fd offset client w) :=
  ⟨h.toClipped.moved, h.size_le⟩

/-- The size of a file that grows. -/
theorem size_resized {p : PersistentMetadata} {info info' : PersistentMetadataInfo}
    (hold : p.metadata.lookup f = some info) (hle : (info.size + len : ℤ) ≤ intMax)
    (hnew : (p.resized f len).metadata.lookup f = some info') : info'.size = info.size + len := by
  simp only [PersistentMetadata.resized, hold, Finmap.lookup_insert] at hnew
  obtain rfl := Option.some.inj hnew
  dsimp only
  exact PersistentMetadata.newSize_add hle

/-- **A file grows.** -/
theorem ClippedTo.sized (h : ClippedTo f s w) (hle : (s + len : ℤ) ≤ intMax) :
    ClippedTo f (s + len) (sized f len w) := by
  have hgrown : ∀ info, (w.persistent.resized f len).metadata.lookup f = some info →
      ∃ old, w.persistent.metadata.lookup f = some old ∧ info.size = old.size + len := by
    intro info hinfo
    have hmem := PersistentMetadata.mem_resized.mp (Finmap.mem_of_lookup_eq_some hinfo)
    obtain ⟨old, hold⟩ := Finmap.mem_iff.mp hmem
    have hsize := h.size_le old hold
    exact ⟨old, hold, size_resized hold (by omega) hinfo⟩
  refine ⟨⟨h.unlocked, fun fd file info hfile hinfo => ?_⟩, fun info hinfo => ?_⟩
  · rcases eq_or_ne file.fileId f with heq | hne
    · rw [heq] at hinfo
      obtain ⟨old, hold, hsize⟩ := hgrown info hinfo
      have hoffset := h.le_size fd file old hfile (heq.symm ▸ hold)
      omega
    · refine h.le_size fd file info hfile ?_
      exact PersistentMetadata.lookup_resized_of_ne hne ▸ hinfo
  · obtain ⟨old, hold, hsize⟩ := hgrown info hinfo
    have hbound := h.size_le old hold
    omega

/-! ### Messages -/

/-- A new cursor is at the start of its file. -/
theorem Clipped.withNewFd (h : Clipped w) (f : ℕ) (client : Client) (locks : FileLocks) :
    Clipped (withNewFd f client locks w) := by
  refine ⟨h.unlocked, fun fd file info hfile hinfo => ?_⟩
  change (w.volatile.fileCursors.insert w.volatile.nextFd ⟨client, f, 0⟩).lookup fd = some file at hfile
  rcases eq_or_ne fd w.volatile.nextFd with rfl | hne
  · rw [Finmap.lookup_insert] at hfile
    obtain rfl := Option.some.inj hfile
    exact Nat.zero_le _
  · rw [Finmap.lookup_insert_of_ne _ hne] at hfile
    exact h.le_size fd file info hfile hinfo

theorem Clipped.openFileId (h : Clipped w) (hclear : (custody w).Clear) (f size flags : ℕ)
    (client : Client) :
    wp (openFileId R f size flags client) (fun _ w' => Clipped w') (fun _ => True) w := by
  refine wp_openFileId h.unlocked hclear (fun _ => trivial) (fun _ => ?_) fun _ locks _ => ?_
  · exact ⟨h.unlocked, h.le_size⟩
  · have hnew := h.withNewFd f client locks
    split_ifs
    · have hmoved : Clipped (DecaFS.moved R (toInt32 w.volatile.nextFd) size client
          (DecaFS.withNewFd f client locks w)) := hnew.moved
      exact ⟨hmoved.unlocked, hmoved.le_size⟩
    · exact ⟨hnew.unlocked, hnew.le_size⟩

/-- A new file is nobody's yet. -/
theorem Tended.filesWith (h : Tended w) (hlast : w.persistent.lastFileId + 1 < 4294967296)
    (path : String) (time : Timeval) :
    Clipped { w with persistent := filesWith path time w } := by
  refine ⟨h.unlocked, fun fd file info hfile hinfo => ?_⟩
  have hmem : file.fileId ∈ w.persistent.metadata :=
    h.present fd file.clientId file.fileId (by simp [custody, hfile])
  have hne : file.fileId ≠ w.persistent.newFileId := by
    intro heq
    exact h.consistent.newFileId_notMem hlast (heq ▸ hmem)
  refine h.le_size fd file info hfile ?_
  exact (Finmap.lookup_insert_of_ne _ hne).symm.trans hinfo

theorem Tended.inside (h : Tended w) : Inside w := by
  intro fd file hfile
  have hmem : file.fileId ∈ w.persistent.metadata :=
    h.present fd file.clientId file.fileId (by simp [custody, hfile])
  obtain ⟨info, hinfo⟩ := Finmap.mem_iff.mp hmem
  exact ⟨info, hinfo, h.le_size fd file info hfile hinfo⟩

/-- What the messages do to the cursors, calls that open a file apart. -/
theorem Clipped.step (h : Clipped w) (hi : ∀ path flags client, i ≠ .openFile path flags client)
    (hsound : i.Sound w) (hstep : step R w i w') : Clipped w' := by
  cases i with
  | openFile path flags client => exact absurd rfl (hi path flags client)
  | closeFile fd client =>
    have hclose : wp (closeFile fd client) (fun _ w' => Clipped w') (fun _ => True) w := by
      refine wp_closeFile (fun _ _ _ _ => trivial) (fun _ _ _ _ => ?_) fun file hfile _ _ locks _ => ?_
      · exact ⟨h.unlocked, h.le_size⟩
      · refine ⟨h.unlocked, fun fd' file' info hfile' hinfo => ?_⟩
        change (w.volatile.fileCursors.erase (fdKey fd)).lookup fd' = some file' at hfile'
        have hne : fd' ≠ fdKey fd := by
          rintro rfl
          simp at hfile'
        rw [Finmap.lookup_erase_ne hne] at hfile'
        exact h.le_size fd' file' info hfile' hinfo
    exact hclose.of_ok hstep
  | fileSeek fd offset whence client =>
    have hseek : wp (fileSeek R fd offset whence client) (fun _ w' => Clipped w') (fun _ => True) w := by
      refine wp_fileSeek h.unlocked (fun _ => trivial) ?_
      have hsought : Clipped (sought R fd offset whence client w) :=
        sought_induction h fun w offset hw => hw.moved
      exact ⟨hsought.unlocked, hsought.le_size⟩
    exact hseek.of_ok hstep
  | response d => exact (filed_clipped.enduring.receive d).of_ok hstep h
  | nodeUp node =>
    exact ((filed_clipped.setNodeUp node).bind fun _ => keeps_pure _).of_ok hstep h
  | nodeDown node =>
    exact ((filed_clipped.setNodeDown node).bind fun _ => keeps_pure _).of_ok hstep h
  | readFile fd count client script =>
    have hstart : Clipped (withScript script w) := ⟨h.unlocked, h.le_size⟩
    have hread := filed_clipped.enduring.readFile (R := R) hstart fd (sizeArgument count)
      fun id info w₁ _ hw₁ _ offset _ => filed_clipped.dispatchRead
        (fun _ _ _ _ hw => hw.moved) id fd _ _ offset count client w₁ hw₁
    exact (wp_scripted.mpr hread).of_ok hstep
  | deleteFile path client script =>
    have hstart : Clipped (withScript script w) := ⟨h.unlocked, h.le_size⟩
    have hdelete := filed_clipped.enduring.deleteFile (R := R) hstart path
      fun id info w₁ _ hw₁ _ => filed_clipped.dispatchDelete id info.fileId client w₁ hw₁
    exact (wp_scripted.mpr hdelete).of_ok hstep
  | writeFile fd buf count client script =>
    have hstart : Clipped (withScript script w) := ⟨h.unlocked, h.le_size⟩
    have hunmoved : ∀ {w₁}, Unmoved (withScript script w) w₁ → Clipped w₁ := fun hw₁ =>
      filed_clipped.enduring.unmoved hw₁ hstart
    have hwrite : wp (writeFile R fd buf (sizeArgument count) client) (fun _ w' => Clipped w')
        (fun _ => True) (withScript script w) := by
      refine Enduring.wp_writeFile_unmoved (w := withScript script w) h.unlocked fd buf
        (sizeArgument count) (fun _ _ w₁ hw₁ => hunmoved hw₁) ?_
      intro q info w₁ hw₁ hpass hinfo offset _
      have hheld : HoldsExclusive (w.fileLocks.record (w.fileAt fd)) client := by
        by_contra hnot
        have hrefused : writeRefusal fd (sizeArgument count) client (withScript script w) =
            some (.writeResult 0 fileNotOpenForWrite) := if_pos hnot
        exact Option.some_ne_none _ (hrefused.symm.trans hpass)
      have hto : ClippedTo (w.fileAt fd) (info.size + 0) w₁ := by
        refine ⟨hunmoved hw₁, fun info' hinfo' => ?_⟩
        rw [hw₁.persistent] at hinfo'
        exact (congrArg PersistentMetadataInfo.size (Option.some.inj (hinfo'.symm.trans hinfo))).le
      have hrun : wp (dispatchWrite R q fd (w.fileAt fd) (PersistentMetadata.toStat info) offset buf
          (sizeArgument count) client)
          (fun _ w' => ClippedTo (w.fileAt fd) (info.size + (toInt32 count).toNat) w')
          (fun _ => True) w₁ := by
        refine Filed.dispatchWrite (J := fun done => ClippedTo (w.fileAt fd) (info.size + done))
          (fun _ => filed_clippedTo) ?_ buf hto
        intro done len w₂ hlt hle hw₂
        have htotal := hsound hheld (by omega) info hinfo
        rw [← Nat.add_assoc]
        exact (hw₂.sized (by push_cast; omega)).moved
      exact wp_mono hrun (fun _ _ hw' => hw'.toClipped) fun _ _ => trivial
    exact (wp_scripted.mpr hwrite).of_ok hstep

/-- What a call that opens a file does to them. -/
theorem Tended.openFile (h : Tended w) (hlast : w.persistent.lastFileId + 1 < 4294967296)
    (path : String) (flags : ℕ) (client : Client) :
    wp (openFile R path flags client) (fun _ w' => Clipped w') (fun _ => True) w := by
  refine wp_openFile_fileId h.unlocked (fun _ => trivial) (fun info _ => ?_) (fun _ _ _ _ time => ?_)
    (fun _ _ e _ => ?_) fun _ _ => ?_
  · exact h.toClipped.openFileId h.clear _ _ _ _
  · exact (h.filesWith hlast path time).openFileId (fun f => h.clear f) _ _ _ _
  · exact h.toClipped.openFileId h.clear _ _ _ _
  · exact ⟨h.unlocked, h.le_size⟩

/-- **The step lemma.** -/
theorem Tended.step (h : Tended w) (hi : i.Sound w) (hids : w.volatile.requestId + i.ids < 4294967296)
    (hfiles : w.persistent.lastFileId + i.files < 4294967296) (hstep : step R w i w') : Tended w' := by
  have hhandled := h.toRunning.handled hids hstep
  obtain ⟨ms, ends, hbegins, hsteps, hends⟩ := hhandled.moves
  have hguarded := hbegins.anchoring hi h.consistent hfiles h.unlocked hstep hends hsteps
  have hclipped : Clipped w' := by
    by_cases hopen : ∃ path flags client, i = .openFile path flags client
    · obtain ⟨path, flags, client, rfl⟩ := hopen
      exact (h.openFile hfiles path flags client).of_ok hstep
    · push Not at hopen
      exact h.toClipped.step hopen hi hstep
  exact ⟨hhandled.running h.toRunning,
    hguarded.invariant (fun _ _ _ hs hmove => hs.step hmove) h.toAnchored, hclipped,
    (hhandled.deletes h.consistent hfiles).1⟩

/-- **The run lemma.** -/
theorem Tended.run {is : List Input} (h : Tended w)
    (hrun : Steps (Guarded (fun w i => i.Sound w) (Barista.step R)) w is w')
    (hids : w.volatile.requestId + idsOf is < 4294967296)
    (hfiles : w.persistent.lastFileId + filesOf is < 4294967296) : Tended w' ∧
      Steps (fun w i w' => (i.Sound w ∧ Barista.step R w i w') ∧ Tended w ∧ Tended w') w is w' := by
  induction hrun with
  | refl w => exact ⟨h, .refl w⟩
  | @cons w w₁ w' i is head _ ih =>
    rw [idsOf_cons, ← Nat.add_assoc] at hids
    rw [filesOf_cons, ← Nat.add_assoc] at hfiles
    have h₁ := h.step head.1 (by omega) (by omega) head.2
    have hhandled := h.toRunning.handled (by omega) head.2
    have hlast := (hhandled.deletes h.consistent (by omega)).2.1
    obtain ⟨h', hrun'⟩ := ih h₁ (by rwa [hhandled.requestId]) (by omega)
    exact ⟨h', .cons ⟨head, h, h₁⟩ hrun'⟩

/-- A server that was just started has no descriptors. -/
theorem Started.tended (h : Started w) (hfiles : w.persistent.lastFileId < 4294967296) : Tended w where
  toRunning := h.running
  toAnchored := by
    refine ⟨h.paired.owned, fun fd c f hfd => ?_, fun f hf => ?_⟩
    · simp [custody, h.fileCursors] at hfd
    · exact (h.persistent.le_lastFileId f hf).trans_lt hfiles
  toClipped := ⟨h.metaLock, by simp [h.fileCursors]⟩
  consistent := h.persistent

end

end DecaFS
