import DecaFS.BaristaCore.Opening
import DecaFS.BaristaCore.Upkeep

/-!
# What calls do to the files

Invariants of the files and the cursors. Unlike the placement of chunks (`Routing`) they do not care
which packets go where, so that all of `process_read_stripe`, `process_write_stripe` and
`process_delete_file` keeps them: what these loops do to the files, they do through the responses that
come in during their sends. `Filed` says what an invariant has to survive for that.
-/

namespace DecaFS

open Code Barista

/-- The metadata lock is free and otherwise `I` depends on the files and the cursors only; it survives
a file being deleted. -/
structure Filed (I : World → Prop) : Prop where
  unlocked : ∀ w, I w → w.metaLock = none
  view : ∀ w w', w'.metaLock = w.metaLock → w'.persistent = w.persistent →
    w'.volatile.fileCursors = w.volatile.fileCursors → I w → I w'
  deleted : ∀ w f, I w → I { w with persistent := w.persistent.without f }

namespace Filed

variable {R : Runtime} {I : World → Prop} {α : Type}

theorem enduring (h : Filed I) : Enduring I where
  unlocked := h.unlocked
  view w w' hlock _ := h.view w w' hlock
  deleted := h.deleted

theorem network (h : Filed I) (m : Code (Halt Site) Network α) : (Barista.network m).Keeps I :=
  keeps_zoom fun w _ => h.view w _ rfl rfl rfl

theorem chunks (h : Filed I) (m : Code (Halt Site) ChunkMaps α) : (Barista.chunks m).Keeps I :=
  keeps_zoom fun w _ => h.view w _ rfl rfl rfl

theorem setNodeDown (h : Filed I) (node : ℤ) :
    (volatile (VolatileMetadata.setNodeDown node)).Keeps I := by
  intro w hw
  simp only [volatile, wp_zoom]
  exact VolatileMetadata.wp_setNodeDown fun _ => h.view w _ rfl rfl rfl hw

theorem setNodeUp (h : Filed I) (node : ℤ) :
    (volatile (VolatileMetadata.setNodeUp node)).Keeps I := by
  intro w hw
  simp only [volatile, wp_zoom]
  exact VolatileMetadata.wp_setNodeUp fun _ =>
    h.view w _ rfl rfl (VolatileMetadata.up_keeps w.volatile node).2 hw

/-! ### Sends -/

theorem sendToEspresso (h : Filed I) (node : ℤ) (r : ChunkRequest) :
    (Barista.sendToEspresso R node r).Keeps I := by
  refine .bind keeps_get fun w => ?_
  cases w.network.script with
  | nil => exact keeps_throw _
  | cons outcome script =>
    exact .ite (.bind (h.network _) fun _ => .bind (h.enduring.receiveAll _) fun _ => keeps_pure _)
      (.bind (h.network _) fun _ => .bind (h.enduring.receiveAll _) fun _ => keeps_pure _)

theorem readNode (chunk : FileChunk) : (Barista.readNode R chunk).Keeps I :=
  .bind keeps_get fun _ => .ite (keeps_pure _) (.bind (Enduring.assert _ _) fun _ => keeps_pure _)

theorem readChunks (h : Filed I) (id fileId stripeId chunkSize : ℕ) (count : ℤ) :
    ∀ (fuel chunkId : ℕ) (chunkOffset bytesRead : ℤ) (numChunks : ℕ), (Barista.readChunks R id fileId
      stripeId chunkSize count fuel chunkId chunkOffset bytesRead numChunks).Keeps I
  | 0, _, _, _, _ => keeps_throw _
  | fuel + 1, _, _, _, _ => .ite
    (.bind keeps_get fun _ => .ite (.bind (readNode _) fun node => .bind (h.enduring.emit rfl) fun _ =>
      .bind (h.sendToEspresso node _) fun _ => .ite
        (.bind (h.setNodeDown _) fun _ => h.readChunks id fileId stripeId chunkSize count fuel _ _ _ _)
        (h.readChunks id fileId stripeId chunkSize count fuel _ _ _ _)) (keeps_pure _))
    (keeps_pure _)

theorem processReadStripe (h : Filed I) (id fileId stripeId stripeSize chunkSize : ℕ)
    (offset count : ℤ) :
    (Barista.processReadStripe R id fileId stripeId stripeSize chunkSize offset count).Keeps I :=
  .bind (h.enduring.emit rfl) fun _ => .bind (Enduring.assert _ _) fun _ => .bind keeps_get fun _ =>
    h.readChunks _ _ _ _ _ _ _ _ _ _

theorem writeNodes (h : Filed I) (chunk : FileChunk) : (Barista.writeNodes R chunk).Keeps I :=
  .bind keeps_get fun _ => .bind (h.chunks _) fun _ => .bind (h.chunks _) fun _ =>
    .bind keeps_get fun _ => keeps_pure _

theorem writeReplica (h : Filed I) (id : ℕ) (chunk : FileChunk) (node offset : ℤ) (buf : List UInt8)
    (n : ℤ) : (Barista.writeReplica R id chunk node offset buf n).Keeps I :=
  .bind (h.sendToEspresso _ _) fun _ => .ite (.bind (h.setNodeDown _) fun _ => .bind keeps_get fun _ =>
    .bind (h.sendToEspresso _ _) fun _ => keeps_pure _) (keeps_pure _)

theorem writeChunks (h : Filed I) (q : WriteRequest) (fileId stripeId chunkSize : ℕ)
    (buf : List UInt8) (count : ℤ) : ∀ (fuel chunkId : ℕ) (chunkOffset bytesWritten : ℤ)
      (written : ℕ × ℕ), (Barista.writeChunks R q fileId stripeId chunkSize buf count fuel chunkId
        chunkOffset bytesWritten written).Keeps I
  | 0, _, _, _, _ => keeps_throw _
  | fuel + 1, _, _, _, _ => .ite
    (.bind (h.writeNodes _) fun nodes => .bind (h.enduring.emit rfl) fun _ =>
      .bind (h.sendToEspresso nodes.1 _) fun _ => .ite
        (.bind (h.setNodeDown _) fun _ => h.writeChunks q fileId stripeId chunkSize buf count fuel _ _ _ _)
        (.bind (h.writeReplica _ _ _ _ _ _) fun _ =>
          h.writeChunks q fileId stripeId chunkSize buf count fuel _ _ _ _))
    (keeps_pure _)

theorem processWriteStripe (h : Filed I) (q : WriteRequest) (fileId stripeId stripeSize chunkSize : ℕ)
    (buf : List UInt8) (offset count : ℤ) :
    (Barista.processWriteStripe R q fileId stripeId stripeSize chunkSize buf offset count).Keeps I :=
  .bind (h.enduring.emit rfl) fun _ => .bind (Enduring.assert _ _) fun _ => .bind keeps_get fun _ =>
    h.writeChunks _ _ _ _ _ _ _ _ _ _ _

theorem deleteCopy (h : Filed I) (copies : ChunkMaps → List (FileChunk × ℤ))
    (put : List (FileChunk × ℤ) → ChunkMaps → ChunkMaps) (id : ℕ) (chunk : FileChunk) (n : ℕ) :
    (Barista.deleteCopy R copies put id chunk n).Keeps I :=
  .bind keeps_get fun _ => .ite (.bind (h.sendToEspresso _ _) fun _ => .bind (h.chunks _) fun _ =>
    keeps_pure _) (keeps_pure _)

theorem deleteChunks (h : Filed I) (id : ℕ) : ∀ (l : List FileChunk) (n : ℕ),
    (Barista.deleteChunks R id l n).Keeps I
  | [], _ => keeps_pure _
  | _ :: l, _ => .bind (h.deleteCopy _ _ _ _ _) fun _ => .bind (h.deleteCopy _ _ _ _ _) fun _ =>
    h.deleteChunks id l _

/-! ### Calls -/

variable {w : World} {client : Client}

theorem dispatchRead (h : Filed I) (hmoved : ∀ w fd offset client, I w → I (moved R fd offset client w))
    (id : ℕ) (fd : ℤ) (fileId : ℕ) (stat : DecafsFileStat) (offset : ℕ) (count : ℤ) (client : Client) :
    (Barista.dispatchRead R id fd fileId stat offset (sizeArgument count) client).Keeps I :=
  Upkeep.dispatchRead ⟨h.enduring, hmoved⟩ (fun _ _ => h.processReadStripe _ _ _ _ _ _ _) fd client

/-- A write whose bytes, `done` of them after some stripes, are recorded as `J` says. -/
theorem dispatchWrite {J : ℕ → World → Prop} (h : ∀ done, Filed (J done)) {q : WriteRequest}
    {fileId offset : ℕ} {stat : DecafsFileStat} {count fd : ℤ} {client : Client}
    (hgrown : ∀ done len w, done < (toInt32 count).toNat → done + len ≤ (toInt32 count).toNat →
      J done w → J (done + len)
        (moved R fd (w.volatile.getFileCursor (fdKey fd) + len) client (sized fileId len w)))
    (buf : List UInt8) {w : World} (hw : J 0 w) :
    wp (Barista.dispatchWrite R q fd fileId stat offset buf (sizeArgument count) client)
      (fun _ w' => J (toInt32 count).toNat w') (fun _ => True) w :=
  Enduring.dispatchWrite (fun done => (h done).enduring)
    (fun _ _ done buf => (h done).processWriteStripe _ _ _ _ _ buf _ _) hgrown buf hw

theorem dispatchDelete (h : Filed I) (id fileId : ℕ) (client : Client) :
    (Barista.dispatchDelete R id fileId client).Keeps I :=
  .bind (h.enduring.requests _) fun _ => .bind (h.enduring.emit rfl) fun _ =>
    .bind (.bind keeps_get fun _ => h.deleteChunks _ _ _) fun _ => .bind keeps_get fun _ =>
      .bind (Enduring.assert _ _) fun _ => .bind (h.enduring.requests _) fun _ =>
        h.enduring.checkDeleteComplete _

end Filed

/-! ### The tables of the files -/

/-- The metadata lock is free and `P` holds of the tables of the files. -/
def Filing (P : PersistentMetadata → Prop) (w : World) : Prop :=
  w.metaLock = none ∧ P w.persistent

/-- The call creates a file. -/
def Creates (w : World) : Input → Prop
  | .openFile path flags _ => flags &&& oRdwr ≠ 0 ∧ path ∉ w.persistent.pathnameToFileId ∧
    path.utf8ByteSize ≤ maxFilenameLength
  | _ => False

section

variable {R : Runtime} {P : PersistentMetadata → Prop} {w w' : World} {path : String} {flags : ℕ}
  {client : Client}

theorem filed_filing (hP : ∀ p f, P p → P (p.without f)) : Filed (Filing P) where
  unlocked _ h := h.1
  view _ _ hlock hpersistent _ h := ⟨hlock.trans h.1, hpersistent ▸ h.2⟩
  deleted w f h := ⟨h.1, hP w.persistent f h.2⟩

theorem keeps_setFileCursor_filing (fd offset : ℤ) (client : Client) :
    (setFileCursor R fd offset client).Keeps (Filing P) := fun _ h =>
  wp_setFileCursor h.1 (fun _ => trivial) fun _ => h

theorem keeps_emit_filing (e : Event) : (emit e).Keeps (Filing P) := by
  unfold emit network
  exact keeps_zoom fun _ _ h => h

theorem keeps_openFileId_filing (fileId size flags : ℕ) (client : Client) :
    (openFileId R fileId size flags client).Keeps (Filing P) := by
  have hnew : (volatile (VolatileMetadata.newFileCursor fileId client)).Keeps (Filing P) :=
    keeps_zoom fun _ _ h => h
  refine .bind (keeps_zoom fun _ _ h => h) fun _ => .ite (keeps_emit_filing _)
    (.bind hnew fun cursor => ?_)
  exact .ite (.bind (keeps_setFileCursor_filing _ _ _) fun _ => keeps_emit_filing _)
    (keeps_emit_filing _)

/-- **What `open_file` does to the tables of the files.** -/
theorem step_openFile_filing (hlock : w.metaLock = none)
    (hstep : step R w (.openFile path flags client) w') : w'.metaLock = none ∧
      (Creates w (.openFile path flags client) → ∃ time, w'.persistent = filesWith path time w) ∧
      (¬ Creates w (.openFile path flags client) → w'.persistent = w.persistent) := by
  let P (p : PersistentMetadata) : Prop :=
    (Creates w (.openFile path flags client) → ∃ time, p = filesWith path time w) ∧
      (¬ Creates w (.openFile path flags client) → p = w.persistent)
  have hopen : wp (openFile R path flags client) (fun _ w' => Filing P w') (fun _ => True) w := by
    refine wp_openFile_fileId hlock (fun _ => trivial) (fun info hfile => ?_)
      (fun _ hwrites hpath hshort time => ?_) (fun _ _ e he => ?_) fun _ hwrites => ?_
    · refine keeps_openFileId_filing _ _ _ _ w ⟨hlock, fun hcreates => ?_, fun _ => rfl⟩
      obtain ⟨f, hf, -⟩ := Option.bind_eq_some_iff.mp hfile
      exact absurd (Finmap.mem_of_lookup_eq_some hf) hcreates.2.1
    · refine keeps_openFileId_filing _ _ _ _ _ ⟨hlock, fun _ => ⟨_, rfl⟩, fun hnot => ?_⟩
      exact absurd ⟨hwrites, hpath, hshort⟩ hnot
    · refine keeps_openFileId_filing _ _ _ _ w ⟨hlock, fun hcreates => ?_, fun _ => rfl⟩
      rcases he with ⟨-, hmem⟩ | ⟨-, -, hlong⟩
      · exact absurd hmem hcreates.2.1
      · exact absurd hcreates.2.2 (not_le.mpr hlong)
    · exact ⟨hlock, fun hcreates => absurd hcreates.1 hwrites, fun _ => rfl⟩
  exact hopen.of_ok hstep

/-- **What the messages do to the files and the cursors.** -/
theorem Filed.step {I : World → Prop} {i : Input} (h : Filed I)
    (hmoved : ∀ w fd offset client, I w → I (moved R fd offset client w))
    (hsized : ∀ w f delta, I w → I (sized f delta w))
    (hclosed : ∀ w fd locks, I w → I (withoutFd fd locks w))
    (hopened : ∀ path flags client, i = .openFile path flags client →
      wp (openFile R path flags client) (fun _ w' => I w') (fun _ => True) w)
    (hw : I w) (hstep : step R w i w') : I w' := by
  have hlogged : ∀ e w, I w → I (logged e w) := fun _ w => h.view w _ rfl rfl rfl
  cases i with
  | openFile path flags client => exact (hopened path flags client rfl).of_ok hstep
  | closeFile fd client =>
    have hclose : wp (closeFile fd client) (fun _ w' => I w') (fun _ => True) w :=
      wp_closeFile (fun _ _ _ _ => trivial) (fun _ _ _ _ => hlogged _ _ hw) fun _ _ _ _ locks _ =>
        hlogged _ _ (hclosed w _ locks hw)
    exact hclose.of_ok hstep
  | fileSeek fd offset whence client =>
    have hseek : wp (fileSeek R fd offset whence client) (fun _ w' => I w') (fun _ => True) w :=
      wp_fileSeek (h.unlocked w hw) (fun _ => trivial)
        (hlogged _ _ (sought_induction hw fun w offset => hmoved w fd offset client))
    exact hseek.of_ok hstep
  | response d => exact (h.enduring.receive d).of_ok hstep hw
  | nodeUp node => exact ((h.setNodeUp node).bind fun _ => keeps_pure _).of_ok hstep hw
  | nodeDown node => exact ((h.setNodeDown node).bind fun _ => keeps_pure _).of_ok hstep hw
  | readFile fd count client script =>
    have hstart : I (withScript script w) := h.view w _ rfl rfl rfl hw
    have hread := h.enduring.readFile (R := R) hstart fd (sizeArgument count)
      fun id info w₁ _ hw₁ _ offset _ => h.dispatchRead hmoved id fd _ _ offset count client w₁ hw₁
    exact (wp_scripted.mpr hread).of_ok hstep
  | writeFile fd buf count client script =>
    have hstart : I (withScript script w) := h.view w _ rfl rfl rfl hw
    have hwrite : wp (writeFile R fd buf (sizeArgument count) client) (fun _ w' => I w')
        (fun _ => True) (withScript script w) := by
      refine h.enduring.writeFile hstart fd buf (sizeArgument count) fun q info w₁ _ hw₁ _ offset _ => ?_
      exact Filed.dispatchWrite (J := fun _ => I) (fun _ => h)
        (fun _ _ _ _ _ hw₂ => hmoved _ _ _ _ (hsized _ _ _ hw₂)) buf hw₁
    exact (wp_scripted.mpr hwrite).of_ok hstep
  | deleteFile path client script =>
    have hstart : I (withScript script w) := h.view w _ rfl rfl rfl hw
    have hdelete := h.enduring.deleteFile (R := R) hstart path
      fun id info w₁ _ hw₁ _ => h.dispatchDelete id info.fileId client w₁ hw₁
    exact (wp_scripted.mpr hdelete).of_ok hstep

/-- **What the messages other than `open_file` do to the tables of the files**: files are resized and
deleted. -/
theorem step_filing {i : Input} (hP : ∀ p f, P p → P (p.without f))
    (hsized : ∀ p f delta, P p → P (p.resized f delta)) (hw : Filing P w)
    (hi : ∀ path flags client, i ≠ .openFile path flags client) (hstep : step R w i w') :
    Filing P w' :=
  (filed_filing hP).step (fun _ _ _ _ h => h) (fun _ f delta h => ⟨h.1, hsized _ f delta h.2⟩)
    (fun _ _ _ h => h) (fun path flags client heq => absurd heq (hi path flags client)) hw hstep

end

end DecaFS
