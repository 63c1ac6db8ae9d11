import DecaFS.BaristaCore.Clipping
import DecaFS.ForMathlib.Agreement

/-!
# The unfilled stat

`set_file_cursor` reads a size that its stat has not filled in if the file is gone. `Runtime.holding n`
is a machine on which that memory holds `n`: where no descriptor has lost its file at the end of a
message, all these machines handle the message alike (`step_holding`), so that its value is never used.
-/

namespace DecaFS

open Code Barista FileLocks Custody

/-- The machine on which memory that is not initialised holds `n`. -/
def Runtime.holding (R : Runtime) (n : ℕ) : Runtime := { R with indeterminate := n }

/-- No descriptor has lost its file. -/
def Present (w : World) : Prop := ∀ fd file, w.volatile.fileCursors.lookup fd = some file →
  file.fileId ∈ w.persistent.metadata

/-- The descriptors are those of `w₀`, and the files are among those of `w₀`. -/
structure Within (w₀ w : World) : Prop where
  unlocked : w.metaLock = none
  opened : ∀ fd, (w.volatile.fileCursors.lookup fd).map FileInstance.fileId =
    (w₀.volatile.fileCursors.lookup fd).map FileInstance.fileId
  files : ∀ f ∈ w.persistent.metadata, f ∈ w₀.persistent.metadata

section

variable {R : Runtime} {w₀ w w' : World} {i : Input} {fd offset : ℤ} {client : Client} {n : ℕ}
theorem narrowing_within : Narrowing Within Present where
  right _ w h := ⟨h.unlocked, fun _ => rfl, fun _ hf => hf⟩
  back w₀ w h hw fd file hfile := by
    have hopened := h.opened fd
    rw [hfile] at hopened
    obtain ⟨file', hfile', heq⟩ := Option.map_eq_some_iff.mp hopened
    exact h.files _ (heq ▸ hw fd file' hfile')

theorem filed_within : Filed (Within w₀) where
  unlocked _ h := h.unlocked
  view w w' hlock hpersistent hcursors h := by
    refine ⟨hlock.trans h.unlocked, ?_, ?_⟩
    · rw [hcursors]
      exact h.opened
    · rw [hpersistent]
      exact h.files
  deleted w f h := ⟨h.unlocked, h.opened, fun f' hf' =>
    h.files f' (PersistentMetadata.mem_of_mem_without hf')⟩

theorem Within.moved (h : Within w₀ w) : Within w₀ (moved R fd offset client w) := by
  refine ⟨h.unlocked, fun fd' => ?_, h.files⟩
  have hkept : ((moveCursor R w.persistent fd offset client w.volatile.fileCursors).lookup fd').map
      (fun file => (file.clientId, file.fileId)) =
        (w.volatile.fileCursors.lookup fd').map fun file => (file.clientId, file.fileId) :=
    lookup_moveCursor fd'
  have hboth := congrArg (Option.map Prod.snd) hkept
  simp only [Option.map_map] at hboth
  exact hboth.trans (h.opened fd')

theorem upkeep_within : Upkeep R (Within w₀) :=
  ⟨filed_within.enduring, fun _ _ _ _ h => h.moved⟩

/-! ### Code that does not look -/

theorem keeps_decafsFileStat_within (f : ℕ) (client : Client) :
    (decafsFileStat f client).Keeps (Within w₀) := by
  intro w hw
  rw [wp_decafsFileStat hw.unlocked]
  split
  · trivial
  · exact hw

theorem keeps_updateFileSize_within (f : ℕ) (delta : ℤ) (client : Client) :
    (updateFileSize f delta client).Keeps (Within w₀) := fun _ hw =>
  wp_updateFileSize hw.unlocked (fun _ => trivial) fun _ =>
    ⟨hw.unlocked, hw.opened, fun f hf => hw.files f (PersistentMetadata.mem_resized.mp hf)⟩

/-- **`set_file_cursor`** on a file that is there. -/
theorem setFileCursor_holding {offset' result : ℤ} (hlock : w.metaLock = none)
    (hoffset : ∀ file info, w.volatile.fileCursors.lookup (fdKey fd) = some file →
      w.persistent.metadata.lookup file.fileId = some info →
      min (toUInt32 offset').toNat info.size = min (toUInt32 offset).toNat info.size)
    (hrun : setFileCursor R fd offset client w = .ok (result, w')) (hpresent : Present w') :
    setFileCursor (R.holding n) fd offset' client w = .ok (result, w') := by
  rw [eq_ok_iff_wp] at hrun ⊢
  unfold setFileCursor at hrun ⊢
  rw [wp_bind, wp_get] at hrun ⊢
  cases hl : w.volatile.fileCursors.lookup (fdKey fd) with
  | none =>
    rw [hl] at hrun
    exact hrun
  | some file =>
    rw [hl] at hrun
    by_cases howner : file.clientId = client
    · simp only [howner, if_true, wp_bind, wp_decafsFileStat hlock] at hrun ⊢
      by_cases hzero : client.userId = 0
      · rw [if_pos hzero] at hrun
        exact hrun.elim
      · rw [if_neg hzero] at hrun ⊢
        simp only [volatile, wp_zoom, wp_modify, wp_pure] at hrun ⊢
        cases hm : w.persistent.metadata.lookup file.fileId with
        | none =>
          -- the descriptor is still open in the end
          obtain ⟨-, rfl⟩ := hrun
          have hmem := hpresent (fdKey fd) _ (Finmap.lookup_insert _)
          exact absurd (Finmap.mem_iff.mp hmem) (by simp [hm])
        | some info =>
          rw [hm] at hrun
          simp only [PersistentMetadata.toStat, hoffset file info hl hm] at hrun ⊢
          exact hrun
    · simp only [howner, if_false] at hrun ⊢
      exact hrun

theorem agrees_setFileCursor (fd offset : ℤ) (client : Client) : Agrees Within Present
    (setFileCursor R fd offset client) (setFileCursor (R.holding n) fd offset client) where
  narrows _ := upkeep_within.setFileCursor fd offset client
  agree _ _ _ hw hrun hpresent := setFileCursor_holding hw.unlocked (fun _ _ _ _ => rfl) hrun hpresent

theorem receive_holding (d : Delivery) : receive (R.holding n) d = receive R d := rfl

theorem receiveAll_holding : ∀ ds, receiveAll (R.holding n) ds = receiveAll R ds
  | [] => rfl
  | d :: ds => by
    unfold receiveAll
    rw [receive_holding, receiveAll_holding ds]

theorem sendToEspresso_holding (node : ℤ) (r : ChunkRequest) :
    sendToEspresso (R.holding n) node r = sendToEspresso R node r := by
  unfold sendToEspresso
  simp only [receiveAll_holding]

theorem readChunks_holding (id fileId stripeId chunkSize : ℕ) (count : ℤ) : ∀ fuel,
    readChunks (R.holding n) id fileId stripeId chunkSize count fuel =
      readChunks R id fileId stripeId chunkSize count fuel
  | 0 => rfl
  | fuel + 1 => by
    funext chunkId chunkOffset bytesRead numChunks
    unfold readChunks
    rw [readChunks_holding id fileId stripeId chunkSize count fuel]
    simp only [processReadChunk, sendToEspresso_holding]
    rfl

theorem writeChunks_holding (q : WriteRequest) (fileId stripeId chunkSize : ℕ) (buf : List UInt8)
    (count : ℤ) : ∀ fuel, writeChunks (R.holding n) q fileId stripeId chunkSize buf count fuel =
      writeChunks R q fileId stripeId chunkSize buf count fuel
  | 0 => rfl
  | fuel + 1 => by
    funext chunkId chunkOffset bytesWritten written
    unfold writeChunks
    rw [writeChunks_holding q fileId stripeId chunkSize buf count fuel]
    simp only [processWriteChunk, writeReplica, sendToEspresso_holding]
    rfl

theorem deleteChunks_holding (id : ℕ) : ∀ l, deleteChunks (R.holding n) id l = deleteChunks R id l
  | [] => rfl
  | chunk :: l => by
    funext numChunks
    unfold deleteChunks
    rw [deleteChunks_holding id l]
    simp only [deleteCopy, processDeleteChunk, sendToEspresso_holding]
    rfl

theorem processReadStripe_holding (id fileId stripeId stripeSize chunkSize : ℕ) (offset count : ℤ) :
    processReadStripe (R.holding n) id fileId stripeId stripeSize chunkSize offset count =
      processReadStripe R id fileId stripeId stripeSize chunkSize offset count := by
  unfold processReadStripe
  simp only [readChunks_holding]

theorem processWriteStripe_holding (q : WriteRequest) (fileId stripeId stripeSize chunkSize : ℕ)
    (buf : List UInt8) (offset count : ℤ) :
    processWriteStripe (R.holding n) q fileId stripeId stripeSize chunkSize buf offset count =
      processWriteStripe R q fileId stripeId stripeSize chunkSize buf offset count := by
  unfold processWriteStripe
  simp only [writeChunks_holding]

/-! ### Calls -/

theorem keeps_getNewRequestId_within :
    (volatile VolatileMetadata.getNewRequestId).Keeps (Within w₀) := by
  intro w hw
  simp only [volatile, VolatileMetadata.getNewRequestId, wp_zoom, wp_bind, wp_modify, wp_get, wp_pure]
  exact ⟨hw.unlocked, hw.opened, hw.files⟩

theorem keeps_mayRead_within (client : Client) (f : ℕ) : (mayRead client f).Keeps (Within w₀) :=
  .bind (filed_within.enduring.locking _) fun _ =>
    .ite (.bind (filed_within.enduring.locking _) fun _ => keeps_pure _) (keeps_pure _)

theorem agrees_readStripes (id : ℕ) (fd : ℤ) (f : ℕ) (stat : DecafsFileStat) (count : ℤ)
    (client : Client) : ∀ (fuel stripeId : ℕ) (offset done : ℤ) (numChunks : ℕ), Agrees Within Present
      (readStripes R id fd f stat count client fuel stripeId offset done numChunks)
      (readStripes (R.holding n) id fd f stat count client fuel stripeId offset done numChunks)
  | 0, _, _, _, _ => .of_keeps fun _ => keeps_throw _
  | fuel + 1, stripeId, offset, done, numChunks => by
    unfold readStripes
    simp only [processReadStripe_holding]
    refine .ite ?_ (.of_keeps fun _ => keeps_pure _)
    refine .after narrowing_within (fun _ => filed_within.enduring.emit rfl) fun _ => ?_
    refine .after narrowing_within (fun _ => filed_within.processReadStripe _ _ _ _ _ _ _) fun _ => ?_
    refine .after narrowing_within (fun _ => keeps_get) fun _ => ?_
    exact .bind narrowing_within (agrees_setFileCursor _ _ _) fun _ =>
      agrees_readStripes id fd f stat count client fuel _ _ _ _

theorem agrees_dispatchRead (id : ℕ) (fd : ℤ) (f : ℕ) (stat : DecafsFileStat) (offset count : ℤ)
    (client : Client) : Agrees Within Present (dispatchRead R id fd f stat offset count client)
      (dispatchRead (R.holding n) id fd f stat offset count client) := by
  unfold dispatchRead
  refine .after narrowing_within (fun _ => filed_within.enduring.requests _) fun _ => ?_
  refine .after narrowing_within (fun _ => filed_within.enduring.emit rfl) fun _ => ?_
  refine .bind narrowing_within (agrees_readStripes _ _ _ _ _ _ _ _ _ _ _) fun _ => .of_keeps fun _ => ?_
  exact .bind keeps_get fun _ => .bind (Enduring.assert _ _) fun _ =>
    .bind (filed_within.enduring.requests _) fun _ => filed_within.enduring.checkReadComplete _

theorem agrees_readFile (fd count : ℤ) (client : Client) :
    Agrees Within Present (readFile R fd count client) (readFile (R.holding n) fd count client) := by
  unfold readFile
  refine .after narrowing_within (fun _ => keeps_getNewRequestId_within) fun _ => ?_
  refine .after narrowing_within (fun _ => Enduring.assert _ _) fun _ => ?_
  refine .after narrowing_within (fun _ => keeps_get) fun _ => ?_
  refine .after narrowing_within (fun _ => keeps_mayRead_within _ _) fun _ => ?_
  refine .ite (.of_keeps fun _ => filed_within.enduring.emit rfl) ?_
  refine .after narrowing_within (fun _ => keeps_decafsFileStat_within _ _) fun stat => ?_
  cases stat with
  | error e => exact .of_keeps fun _ => filed_within.enduring.emit rfl
  | ok stat =>
    refine .after narrowing_within (fun _ => keeps_get) fun _ => ?_
    refine .ite (.of_keeps fun _ => filed_within.enduring.emit rfl) ?_
    exact .ite (.of_keeps fun _ => filed_within.enduring.emit rfl) (agrees_dispatchRead _ _ _ _ _ _ _)

theorem agrees_writeStripes (q : WriteRequest) (fd : ℤ) (f : ℕ) (stat : DecafsFileStat)
    (buf : List UInt8) (count : ℤ) (client : Client) : ∀ (fuel stripeId : ℕ) (offset done : ℤ)
      (sent : ℕ × ℕ), Agrees Within Present
      (writeStripes R q fd f stat buf count client fuel stripeId offset done sent)
      (writeStripes (R.holding n) q fd f stat buf count client fuel stripeId offset done sent)
  | 0, _, _, _, _ => .of_keeps fun _ => keeps_throw _
  | fuel + 1, stripeId, offset, done, sent => by
    unfold writeStripes
    simp only [processWriteStripe_holding]
    refine .ite ?_ (.of_keeps fun _ => keeps_pure _)
    refine .after narrowing_within (fun _ => filed_within.enduring.emit rfl) fun _ => ?_
    refine .after narrowing_within (fun _ => filed_within.processWriteStripe _ _ _ _ _ _ _ _) fun _ => ?_
    refine .after narrowing_within (fun _ => keeps_updateFileSize_within _ _ _) fun _ => ?_
    refine .after narrowing_within (fun _ => keeps_get) fun _ => ?_
    exact .bind narrowing_within (agrees_setFileCursor _ _ _) fun _ =>
      agrees_writeStripes q fd f stat buf count client fuel _ _ _ _

theorem agrees_dispatchWrite (q : WriteRequest) (fd : ℤ) (f : ℕ) (stat : DecafsFileStat) (offset : ℤ)
    (buf : List UInt8) (count : ℤ) (client : Client) :
    Agrees Within Present (dispatchWrite R q fd f stat offset buf count client)
      (dispatchWrite (R.holding n) q fd f stat offset buf count client) := by
  unfold dispatchWrite
  refine .after narrowing_within (fun _ => filed_within.enduring.requests _) fun _ => ?_
  refine .after narrowing_within (fun _ => filed_within.enduring.emit rfl) fun _ => ?_
  refine .bind narrowing_within (agrees_writeStripes _ _ _ _ _ _ _ _ _ _ _ _) fun _ =>
    .of_keeps fun _ => ?_
  exact .bind keeps_get fun _ => .bind (Enduring.assert _ _) fun _ =>
    .bind (filed_within.enduring.requests _) fun _ => filed_within.enduring.checkWriteComplete _

theorem agrees_writeFile (fd : ℤ) (buf : List UInt8) (count : ℤ) (client : Client) : Agrees Within
    Present (writeFile R fd buf count client) (writeFile (R.holding n) fd buf count client) := by
  unfold writeFile
  refine .after narrowing_within (fun _ => keeps_getNewRequestId_within) fun _ => ?_
  refine .after narrowing_within (fun _ => keeps_getNewRequestId_within) fun _ => ?_
  refine .after narrowing_within (fun _ => Enduring.assert _ _) fun _ => ?_
  refine .after narrowing_within (fun _ => keeps_get) fun _ => ?_
  refine .after narrowing_within (fun _ => filed_within.enduring.locking _) fun _ => ?_
  refine .ite (.of_keeps fun _ => filed_within.enduring.emit rfl) ?_
  refine .after narrowing_within (fun _ => keeps_decafsFileStat_within _ _) fun stat => ?_
  cases stat with
  | error e => exact .of_keeps fun _ => filed_within.enduring.emit rfl
  | ok stat =>
    refine .after narrowing_within (fun _ => keeps_get) fun _ => ?_
    refine .ite (.of_keeps fun _ => filed_within.enduring.emit rfl) ?_
    exact .ite (.of_keeps fun _ => filed_within.enduring.emit rfl)
      (agrees_dispatchWrite _ _ _ _ _ _ _ _)

theorem deleteFile_holding (path : String) (client : Client) :
    deleteFile (R.holding n) path client = deleteFile R path client := by
  unfold deleteFile dispatchDelete processDeleteFile
  simp only [deleteChunks_holding]

theorem agrees_fileSeek (fd : ℤ) (offset : ℕ) (whence : Whence) (client : Client) :
    Agrees Within Present (fileSeek R fd offset whence client)
      (fileSeek (R.holding n) fd offset whence client) := by
  have htell : Agrees Within Present
      (do emit (.told client (.seekResult ((← get).volatile.getFileCursor (fdKey fd)))))
      (do emit (.told client (.seekResult ((← get).volatile.getFileCursor (fdKey fd))))) :=
    .of_keeps fun _ => .bind keeps_get fun _ => filed_within.enduring.emit rfl
  have hset : ∀ offset, Agrees Within Present
      (do
        let _ ← setFileCursor R fd offset client
        emit (.told client (.seekResult ((← get).volatile.getFileCursor (fdKey fd)))))
      (do
        let _ ← setFileCursor (R.holding n) fd offset client
        emit (.told client (.seekResult ((← get).volatile.getFileCursor (fdKey fd))))) :=
    fun offset => .bind narrowing_within (agrees_setFileCursor fd offset client) fun _ => htell
  unfold fileSeek
  refine .ite (hset _) (.ite ?_ ?_)
  · refine .bind narrowing_within (agrees_setFileCursor _ _ _) fun _ => ?_
    exact .after narrowing_within (fun _ => keeps_get) fun _ => .ite (hset _) htell
  · exact .after narrowing_within (fun _ => keeps_get) fun _ => .ite (hset _) htell

/-- **The end of `open_file`.** The size only matters for a file that has one. -/
theorem openFileId_holding {f size size' flags : ℕ} (hlock : w.metaLock = none)
    (hsize : ∀ info, w.persistent.metadata.lookup f = some info →
      min (toUInt32 size').toNat info.size = min (toUInt32 size).toNat info.size)
    (hrun : openFileId R f size flags client w = .ok (⟨⟩, w')) (hpresent : Present w') :
    openFileId (R.holding n) f size' flags client w = .ok (⟨⟩, w') := by
  rw [eq_ok_iff_wp] at hrun ⊢
  simp only [openFileId, wp_bind, locking, wp_zoom] at hrun ⊢
  refine wp_mono hrun (fun lock locks h => ?_) fun _ he => he
  by_cases hlocked : lock < 0
  · rw [if_pos hlocked] at h ⊢
    exact h
  · rw [if_neg hlocked] at h ⊢
    simp only [volatile, VolatileMetadata.newFileCursor, VolatileMetadata.getNewFd, wp_bind, wp_zoom,
      wp_get, wp_set, wp_pure, wp_modify] at h ⊢
    by_cases happend : flags &&& oAppend ≠ 0
    · rw [if_pos happend, wp_bind] at h ⊢
      obtain ⟨result, w₁, hset, hemit⟩ := h.exists_ok
      have hlast : w' = logged (.told client (.openResult (toInt32 w.volatile.nextFd))) w₁ :=
        (wp_emit.mp hemit).2.symm
      have hpresent₁ : Present w₁ := by
        rw [hlast] at hpresent
        exact hpresent
      change setFileCursor R (toInt32 w.volatile.nextFd) size client (withNewFd f client locks w) = _
        at hset
      have hset' : setFileCursor (R.holding n) (toInt32 w.volatile.nextFd) size' client
          (withNewFd f client locks w) = .ok (result, w₁) := by
        refine setFileCursor_holding hlock (fun file info hfile hinfo => ?_) hset hpresent₁
        rw [fdKey_nextFd] at hfile
        obtain rfl := Option.some.inj ((Finmap.lookup_insert _).symm.trans hfile)
        exact hsize info hinfo
      exact (wp_ok hset').mpr hemit
    · rw [if_neg happend] at h ⊢
      exact h

/-- **`open_file`** of a name that can be entered if it is not there. -/
theorem openFile_holding {path : String} {flags : ℕ} (hlock : w.metaLock = none)
    (hfree : w.persistent.fileOf path = none → flags &&& oRdwr ≠ 0 →
      path ∉ w.persistent.pathnameToFileId ∧ path.utf8ByteSize ≤ maxFilenameLength)
    (hrun : openFile R path flags client w = .ok (⟨⟩, w')) (hpresent : Present w') :
    openFile (R.holding n) path flags client w = .ok (⟨⟩, w') := by
  rw [eq_ok_iff_wp] at hrun ⊢
  unfold openFile at hrun ⊢
  rw [wp_bind, wp_decafsFileSstat hlock] at hrun ⊢
  by_cases h₀ : client.userId = 0
  · rw [if_pos h₀] at hrun
    exact hrun.elim
  · rw [if_neg h₀] at hrun ⊢
    unfold PersistentMetadata.fileOf at hfree
    cases hl : (w.persistent.pathnameToFileId.lookup path).bind w.persistent.metadata.lookup with
    | some info =>
      rw [hl] at hrun
      exact eq_ok_iff_wp.mp (openFileId_holding hlock (fun _ _ => rfl) (eq_ok_iff_wp.mpr hrun) hpresent)
    | none =>
      rw [hl] at hrun
      have hfound : ¬ fileNotFound ≠ fileNotFound := by simp
      dsimp only at hrun ⊢
      rw [if_neg hfound] at hrun ⊢
      by_cases hwrites : flags &&& oRdwr ≠ 0
      · obtain ⟨hpath, hshort⟩ := hfree hl hwrites
        rw [if_pos hwrites, wp_bind, wp_get, wp_bind, wp_get, wp_bind, addFile,
          wp_withMetadataLock hlock, if_neg h₀] at hrun ⊢
        have hadded : wp (PersistentMetadata.addFile path w.volatile.stripeSize w.volatile.chunkSize
            w.volatile.chunkSize.val (R.gettimeofday w)) (fun result p =>
              result = toInt32 w.persistent.newFileId ∧ p = filesWith path (R.gettimeofday w) w)
            (fun _ => True) w.persistent := by
          refine PersistentMetadata.wp_addFile path _ _ _ _ (fun e he => ?_) fun _ _ => ⟨rfl, rfl⟩
          rcases he with ⟨-, hmem⟩ | ⟨-, hlong⟩
          · exact absurd hmem hpath
          · exact absurd hlong.2 (not_lt.mpr hshort)
        refine wp_mono (wp_and hrun hadded) (fun result p h => ?_) fun _ he => he.1
        obtain ⟨h, hresult, hp⟩ := h
        rw [hresult, hp, toNat_toUInt32_newFileId] at h
        rw [hresult, hp, toNat_toUInt32_newFileId]
        have hopen : openFileId R w.persistent.newFileId R.indeterminate flags client
            { w with persistent := filesWith path (R.gettimeofday w) w } = .ok (⟨⟩, w') :=
          eq_ok_iff_wp.mpr h
        refine eq_ok_iff_wp.mp (openFileId_holding (by exact hlock) (fun info hinfo => ?_) hopen hpresent)
        -- the new file is empty
        obtain rfl := Option.some.inj ((Finmap.lookup_insert _).symm.trans hinfo)
        exact (Nat.min_zero _).trans (Nat.min_zero _).symm
      · rw [if_neg hwrites] at hrun ⊢
        exact hrun

/-! ### Runs -/

theorem Inside.present (h : Inside w) : Present w := by
  intro fd file hfile
  obtain ⟨info, hinfo, -⟩ := h fd file hfile
  exact Finmap.mem_of_lookup_eq_some hinfo

/-- **One message.** -/
theorem step_holding (n : ℕ) (hlock : w.metaLock = none) (hc : w.persistent.Consistent)
    (hi : i.Sound w) (hpresent : Present w') (hstep : step R w i w') : step (R.holding n) w i w' := by
  have hw : Within w w := ⟨hlock, fun _ => rfl, fun _ hf => hf⟩
  have hscript : ∀ script, Within (withScript script w) (withScript script w) :=
    fun _ => ⟨hw.unlocked, hw.opened, hw.files⟩
  unfold step at hstep ⊢
  cases i with
  | openFile path flags client =>
    refine openFile_holding hlock (fun hnone hwrites => ?_) hstep hpresent
    have hshort := hi.2
    rw [hnone] at hshort
    exact ⟨hc.notMem_of_fileOf hnone, hshort hwrites⟩
  | closeFile fd client => exact hstep
  | fileSeek fd offset whence client =>
    exact (agrees_fileSeek fd offset whence client).agree w _ w' hw hstep hpresent
  | readFile fd count client script =>
    exact (agrees_readFile fd _ client).agree (withScript script w) _ w' (hscript _) hstep hpresent
  | writeFile fd buf count client script =>
    exact (agrees_writeFile fd buf _ client).agree (withScript script w) _ w' (hscript _) hstep hpresent
  | deleteFile path client script =>
    rw [handle, deleteFile_holding]
    exact hstep
  | response d => exact hstep
  | nodeUp node => exact hstep
  | nodeDown node => exact hstep

/-- **Cursors stay inside their files.** In every run of sound messages that does not run out of
request ids or file ids every descriptor is open on a file that is there, with its cursor inside; and the
run is the same whatever memory holds that is not initialised. -/
theorem cursors_inside {is : List Input} (hstart : Started w₀)
    (hrun : Steps (Guarded (fun w i => i.Sound w) (step R)) w₀ is w) (hids : idsOf is < 4294967296)
    (hfiles : w₀.persistent.lastFileId + filesOf is < 4294967296) :
    Inside w ∧ ∀ n, Steps (step (R.holding n)) w₀ is w := by
  have htended := hstart.tended (by omega)
  obtain ⟨hw, hall⟩ := htended.run hrun (by rwa [hstart.requestId, Nat.zero_add]) hfiles
  refine ⟨hw.inside, fun n => hall.mono fun w i w' h => ?_⟩
  exact step_holding n h.2.1.unlocked h.2.1.consistent h.1.1 h.2.2.inside.present h.1.2

/-- The client of connection 1 has written a file and deletes it; the one of connection 2 opens it before
the chunks are gone. -/
def sampleDangling : List Input := [.openFile "a" oRdwr (sampleClient 1),
  .writeFile 1 [1, 2, 3] 3 (sampleClient 1) [⟨true, []⟩, ⟨true, []⟩], .response ⟨0, 3, []⟩,
  .response ⟨0, 3, []⟩, .closeFile 1 (sampleClient 1),
  .deleteFile "a" (sampleClient 1) [⟨true, []⟩, ⟨true, []⟩], .openFile "a" 0 (sampleClient 2),
  .response ⟨0, 0, []⟩, .response ⟨0, 0, []⟩]

/-- The descriptor outlives its file, and its cursor goes where memory says. -/
theorem dangling_descriptor : ∃ w, Steps (step sampleRuntime) sampleServer sampleDangling w ∧
    ¬ Inside w ∧ ∃ w', step (sampleRuntime.holding 7) w (.fileSeek 2 0 .seekEnd (sampleClient 2)) w' ∧
      w'.volatile.getFileCursor 2 = 7 := by
  obtain ⟨w, hrun, hend⟩ := exists_steps (R := sampleRuntime) (w := sampleServer) sampleDangling
    (p := fun w => w.volatile.fileCursors.lookup 2 = some ⟨sampleClient 2, 1, 0⟩ ∧
      w.persistent.metadata.lookup 1 = none ∧
      (run (sampleRuntime.holding 7) w [.fileSeek 2 0 .seekEnd (sampleClient 2)]).toOption.any
        fun w' => w'.volatile.getFileCursor 2 = 7)
    (by decide +kernel)
  obtain ⟨hcursor, hgone, hseek⟩ := of_decide_eq_true hend
  obtain ⟨w', hrun', hend'⟩ := exists_steps _ hseek
  obtain ⟨w₁, hstep, hnil⟩ := Steps.cons_iff.mp hrun'
  obtain rfl := Steps.nil_iff.mp hnil
  refine ⟨w, hrun, fun hinside => ?_, w₁, hstep, of_decide_eq_true hend'⟩
  obtain ⟨info, hinfo, -⟩ := hinside 2 _ hcursor
  exact absurd (hinfo.symm.trans hgone) (Option.some_ne_none info)

theorem cursors_inside_sampleOpen : ∃ w, Steps (Guarded (fun w i => i.Sound w) (step sampleRuntime))
    sampleServer [.openFile "a" oRdwr (sampleClient 1)] w ∧
    w.volatile.fileCursors.lookup 1 = some ⟨sampleClient 1, 1, 0⟩ ∧ Inside w := by
  obtain ⟨w, hrun, hend⟩ := exists_steps (R := sampleRuntime) (w := sampleServer)
    [.openFile "a" oRdwr (sampleClient 1)]
    (p := fun w => w.volatile.fileCursors.lookup 1 = some ⟨sampleClient 1, 1, 0⟩) (by decide +kernel)
  obtain ⟨w₁, hstep, hnil⟩ := Steps.cons_iff.mp hrun
  obtain rfl := Steps.nil_iff.mp hnil
  have hsound : Input.Sound sampleServer (.openFile "a" oRdwr (sampleClient 1)) := by
    refine ⟨by decide, ?_⟩
    have hnone : sampleServer.persistent.fileOf "a" = none := by decide
    rw [hnone]
    exact fun _ => by decide
  have hguarded : Steps (Guarded (fun w i => i.Sound w) (step sampleRuntime)) sampleServer
      [.openFile "a" oRdwr (sampleClient 1)] w₁ := .single ⟨hsound, hstep⟩
  exact ⟨w₁, hguarded, of_decide_eq_true hend,
    (cursors_inside started_sampleServer hguarded (by decide) (by decide)).1⟩

end

end DecaFS
