import DecaFS.BaristaCore.Serving

/-!
# Opening, closing and seeking

The calls that send no packets. They leave the request tables and what is in flight alone and
answer with one packet (`Told`); their moves on the locks, the files and the descriptors are
those of `Custody`.
-/

namespace DecaFS

open Desk Code Barista FileLocks Custody

/-- A call that only answers. -/
structure Told (client : Client) (w w' : World) : Prop where
  requests : w'.requests = w.requests
  inFlight : w'.network.inFlight = w.network.inFlight
  log : ∃ reply, w'.network.log = .told client reply :: w.network.log
  metaLock : w'.metaLock = w.metaLock
  requestId : w'.volatile.requestId = w.volatile.requestId

/-- `get_new_fd` -/
def VolatileMetadata.nextFd (v : VolatileMetadata) : ℕ :=
  (toUInt32 ((if v.lastFd = fdNotSet then v.fileCursors.keys.sup id else v.lastFd : ℕ) + 1)).toNat

theorem fdKey_nextFd (v : VolatileMetadata) : fdKey (toInt32 v.nextFd) = v.nextFd := by
  unfold VolatileMetadata.nextFd fdKey toUInt32 toInt32
  omega

section

variable {R : Runtime} {w w' : World} {E : Halt Site → Prop} {fd : ℤ} {client : Client} {f : ℕ}
  {Q : PUnit → World → Prop}

/-- The state once the file is locked and has a new descriptor. -/
def withNewFd (f : ℕ) (client : Client) (locks : FileLocks) (w : World) : World :=
  { w with
    fileLocks := locks
    volatile := { w.volatile with
      lastFd := w.volatile.nextFd
      fileCursors := w.volatile.fileCursors.insert w.volatile.nextFd ⟨client, f, 0⟩ } }

theorem wp_openFileId {size flags : ℕ} (hlock : w.metaLock = none) (hclear : (custody w).Clear)
    (huser : client.userId = 0 → E (.assertion .lockUser))
    (hrefuse : ¬ Grants (w.fileLocks.record f) client (flags &&& oRdwr ≠ 0) →
      Q ⟨⟩ (logged (.told client (.openResult fileInUse)) w))
    (hgrant : Grants (w.fileLocks.record f) client (flags &&& oRdwr ≠ 0) →
      ∀ locks : FileLocks, locks.record = Function.update w.fileLocks.record f
        (granted (w.fileLocks.record f) client (flags &&& oRdwr ≠ 0)) →
      Q ⟨⟩ (logged (.told client (.openResult (toInt32 w.volatile.nextFd)))
        (if flags &&& oAppend ≠ 0 then
          moved R (toInt32 w.volatile.nextFd) size client (withNewFd f client locks w)
        else withNewFd f client locks w))) :
    wp (openFileId R f size flags client) Q E w := by
  -- what follows once the lock is granted
  have hopen : ∀ locks : FileLocks, client.userId ≠ 0 →
      Q ⟨⟩ (logged (.told client (.openResult (toInt32 w.volatile.nextFd)))
        (if flags &&& oAppend ≠ 0 then
          moved R (toInt32 w.volatile.nextFd) size client (withNewFd f client locks w)
        else withNewFd f client locks w)) →
      wp (do
        let cursor ← volatile (VolatileMetadata.newFileCursor f client)
        if flags &&& oAppend ≠ 0 then
          let _ ← setFileCursor R cursor size client
        emit (.told client (.openResult cursor))) Q E { w with fileLocks := locks } := by
    intro locks h₀ hQ
    simp only [volatile, VolatileMetadata.newFileCursor, VolatileMetadata.getNewFd, wp_bind, wp_zoom,
      wp_get, wp_set, wp_pure, wp_modify]
    by_cases happend : flags &&& oAppend ≠ 0
    · rw [if_pos happend] at hQ ⊢
      rw [wp_bind]
      refine wp_setFileCursor hlock (fun h => absurd h h₀) fun _ => ?_
      exact wp_emit.mpr hQ
    · rw [if_neg happend] at hQ ⊢
      exact wp_emit.mpr hQ
  have hneg : lockError < 0 := by decide
  have hpos : ¬ lockSuccess < 0 := by decide
  simp only [openFileId, wp_bind, locking, wp_zoom]
  by_cases hex : flags &&& oRdwr ≠ 0
  · simp only [hex, not_false_eq_true, if_true, ne_eq, decide_true] at hgrant hrefuse ⊢
    refine wp_getExclusiveLock_record huser (fun hown => ?_) fun h₀ hfree locks hlocks => ?_
    · simp only [hneg, if_true, wp_emit]
      exact hrefuse fun hgrants => hown hgrants.2
    · simp only [hpos, if_false]
      exact hopen locks h₀ (hgrant ⟨h₀, hfree⟩ locks hlocks)
  · simp only [hex, if_false, ne_eq, decide_false] at hgrant hrefuse ⊢
    refine wp_getSharedLock_record huser (hclear f) (fun hnot => ?_)
      fun h₀ hown hnew locks hlocks => ?_
    · simp only [hneg, if_true, wp_emit]
      exact hrefuse fun hgrants => hnot hgrants.2
    · simp only [hpos, if_false]
      exact hopen locks h₀ (hgrant ⟨h₀, hown, hnew⟩ locks hlocks)

/-- The moves of `open_file`: the file is created if need be, and its descriptor opened if the lock
is granted. A name that `add_file` does not take leaves its error code as the file id. -/
inductive Opens (w : World) (path : String) (flags : ℕ) (client : Client) : List Move → Prop
  | refused : Opens w path flags client []
  | existing {info : PersistentMetadataInfo} (file : w.persistent.fileOf path = some info) :
    Opens w path flags client
      [.openFd (flags &&& oRdwr ≠ 0) w.volatile.nextFd client info.fileId]
  | created (file : w.persistent.fileOf path = none) (writes : flags &&& oRdwr ≠ 0) :
    Opens w path flags client [.create w.persistent.newFileId]
  | createdOpened (file : w.persistent.fileOf path = none) (writes : flags &&& oRdwr ≠ 0) :
    Opens w path flags client [.create w.persistent.newFileId,
      .openFd true w.volatile.nextFd client w.persistent.newFileId]
  | bogus {e : ℤ} (file : w.persistent.fileOf path = none) (writes : flags &&& oRdwr ≠ 0)
    (error : e = fileExists ∨ e = filenameInvalid) :
    Opens w path flags client [.openFd true w.volatile.nextFd client (toUInt32 e).toNat]

/-- The files once `open_file` has created one at `time`. -/
def filesWith (path : String) (time : Timeval) (w : World) : PersistentMetadata :=
  w.persistent.added path w.volatile.stripeSize w.volatile.chunkSize w.volatile.chunkSize.val time

/-- What `open_file` does to the names and the files. -/
def FilesOpened (path : String) (w w' : World) : Prop :=
  w'.persistent = w.persistent ∨
    path ∉ w.persistent.pathnameToFileId ∧ ∃ time, w'.persistent = filesWith path time w

theorem custody_withNewFd {locks : FileLocks} {exclusive : Bool}
    (hlocks : locks.record = Function.update w.fileLocks.record f
      (granted (w.fileLocks.record f) client exclusive)) :
    custody (withNewFd f client locks w) = { custody w with
      lock := Function.update (custody w).lock f (granted ((custody w).lock f) client exclusive)
      opened := Function.update (custody w).opened w.volatile.nextFd (some (client, f)) } := by
  refine Custody.ext rfl hlocks rfl ?_
  funext fd
  rcases eq_or_ne fd w.volatile.nextFd with rfl | hne
  · simp [custody, withNewFd]
  · simp [custody, withNewFd, Finmap.lookup_insert_of_ne _ hne, Function.update_of_ne hne]

/-- **The end of `open_file`**: the descriptor is opened or the call is refused. -/
theorem wp_openFileId_moves {size flags : ℕ} (hlock : w.metaLock = none)
    (hclear : (custody w).Clear) (huser : client.userId = 0 → E (.assertion .lockUser)) :
    wp (openFileId R f size flags client) (fun _ w' => Told client w w' ∧
      w'.persistent = w.persistent ∧ (custody w' = custody w ∨
        Custody.Step (custody w)
          (.openFd (flags &&& oRdwr ≠ 0) w.volatile.nextFd client f) (custody w'))) E w := by
  refine wp_openFileId hlock hclear huser (fun _ => ?_) fun hgrants locks hlocks => ?_
  · exact ⟨⟨rfl, rfl, ⟨_, rfl⟩, rfl, rfl⟩, rfl, .inl rfl⟩
  · have hstep : Custody.Step (custody w)
        (.openFd (flags &&& oRdwr ≠ 0) w.volatile.nextFd client f) _ := .openFd hgrants
    rw [← custody_withNewFd hlocks] at hstep
    split_ifs
    · refine ⟨⟨rfl, rfl, ⟨_, rfl⟩, rfl, rfl⟩, rfl, .inr ?_⟩
      have hmoved : custody (moved R (toInt32 w.volatile.nextFd) size client
          (withNewFd f client locks w)) = custody (withNewFd f client locks w) := custody_moved
      exact hmoved ▸ hstep
    · exact ⟨⟨rfl, rfl, ⟨_, rfl⟩, rfl, rfl⟩, rfl, .inr hstep⟩

theorem toNat_toUInt32_newFileId (p : PersistentMetadata) :
    (toUInt32 (toInt32 p.newFileId)).toNat = p.newFileId := by
  unfold PersistentMetadata.newFileId toUInt32 toInt32
  omega

/-- `open_file` up to the point where the file id is known. -/
theorem wp_openFile_fileId {path : String} {flags : ℕ} (hlock : w.metaLock = none)
    (huser : client.userId = 0 → E (.assertion .lockUser))
    (hexisting : ∀ info, w.persistent.fileOf path = some info →
      wp (openFileId R info.fileId info.size flags client) Q E w)
    (hcreated : w.persistent.fileOf path = none → flags &&& oRdwr ≠ 0 →
      path ∉ w.persistent.pathnameToFileId → path.utf8ByteSize ≤ maxFilenameLength → ∀ time,
      wp (openFileId R w.persistent.newFileId R.indeterminate flags client) Q E
        { w with persistent := filesWith path time w })
    (htaken : w.persistent.fileOf path = none → flags &&& oRdwr ≠ 0 → ∀ e,
      w.persistent.AddRefused path e →
      wp (openFileId R (toUInt32 e).toNat R.indeterminate flags client) Q E w)
    (hrefused : w.persistent.fileOf path = none → ¬ flags &&& oRdwr ≠ 0 →
      Q ⟨⟩ (logged (.told client (.openResult fileNotFoundForReading)) w)) :
    wp (openFile R path flags client) Q E w := by
  unfold openFile
  rw [wp_bind, wp_decafsFileSstat hlock]
  by_cases h₀ : client.userId = 0
  · rw [if_pos h₀]
    exact huser h₀
  · rw [if_neg h₀]
    unfold PersistentMetadata.fileOf at hexisting hcreated htaken hrefused
    cases hl : (w.persistent.pathnameToFileId.lookup path).bind w.persistent.metadata.lookup with
    | some info => exact hexisting info hl
    | none =>
      have hfound : ¬ fileNotFound ≠ fileNotFound := by simp
      simp only [hfound, if_false]
      by_cases hwrites : flags &&& oRdwr ≠ 0
      · rw [if_pos hwrites, wp_bind, wp_get, wp_bind, wp_get, wp_bind]
        unfold addFile
        rw [wp_withMetadataLock hlock, if_neg h₀]
        refine PersistentMetadata.wp_addFile path _ _ _ _ (fun e he => ?_) fun hpath hshort => ?_
        · exact htaken hl hwrites e he
        · rw [toNat_toUInt32_newFileId]
          exact hcreated hl hwrites hpath hshort _
      · rw [if_neg hwrites, wp_emit]
        exact hrefused hl hwrites

/-- **`open_file`** -/
theorem wp_openFile {path : String} {flags : ℕ} (hlock : w.metaLock = none)
    (hclear : (custody w).Clear) (huser : client.userId = 0 → E (.assertion .lockUser)) :
    wp (openFile R path flags client) (fun _ w' => Told client w w' ∧ FilesOpened path w w' ∧
      ∃ ms, Opens w path flags client ms ∧ Steps Custody.Step (custody w) ms (custody w')) E w := by
  refine wp_openFile_fileId hlock huser (fun info hfile => ?_) (fun hfile hwrites hpath _ time => ?_)
    (fun hfile hwrites e he => ?_) fun hfile _ => ?_
  · refine wp_mono (wp_openFileId_moves hlock hclear huser) (fun _ w' hw' => ?_) fun _ he => he
    obtain ⟨htold, hp, heq | hstep⟩ := hw'
    · exact ⟨htold, .inl hp, [], .refused, heq ▸ .refl _⟩
    · exact ⟨htold, .inl hp, _, .existing hfile, .single hstep⟩
  · let w₁ : World := { w with persistent := filesWith path time w }
    have hcreate : Custody.Step (custody w) (.create w.persistent.newFileId) (custody w₁) := by
      have hfiles : custody w₁ = { custody w with
          files := insert w.persistent.newFileId (custody w).files } := by
        refine Custody.ext rfl rfl ?_ rfl
        ext f
        simp [w₁, custody, filesWith, PersistentMetadata.added]
      rw [hfiles]
      exact .create
    refine wp_mono (wp_openFileId_moves (w := w₁) hlock (hcreate.clear hclear) huser)
      (fun _ w' hw' => ?_) fun _ he => he
    obtain ⟨htold, hp, heq | hstep⟩ := hw'
    · refine ⟨⟨htold.requests, htold.inFlight, htold.log, htold.metaLock, htold.requestId⟩,
        .inr ⟨hpath, _, hp⟩, _, .created hfile hwrites, heq ▸ .single hcreate⟩
    · rw [decide_eq_true hwrites] at hstep
      exact ⟨⟨htold.requests, htold.inFlight, htold.log, htold.metaLock, htold.requestId⟩,
        .inr ⟨hpath, _, hp⟩, _, .createdOpened hfile hwrites, .cons hcreate (.single hstep)⟩
  · -- the file is not created, but its descriptor is opened all the same
    have herror : e = fileExists ∨ e = filenameInvalid := he.imp And.left And.left
    refine wp_mono (wp_openFileId_moves hlock hclear huser) (fun _ w' hw' => ?_) fun _ he => he
    obtain ⟨htold, hp, heq | hstep⟩ := hw'
    · exact ⟨htold, .inl hp, [], .refused, heq ▸ .refl _⟩
    · rw [decide_eq_true hwrites] at hstep
      exact ⟨htold, .inl hp, _, .bogus hfile hwrites herror, .single hstep⟩
  · exact ⟨⟨rfl, rfl, ⟨_, rfl⟩, rfl, rfl⟩, .inl rfl, [], .refused, .refl _⟩

/-! ### Closing -/

/-- The state after `close_file` by the owner of the descriptor. -/
def withoutFd (fd : ℕ) (locks : FileLocks) (w : World) : World :=
  { w with
    fileLocks := locks
    volatile := { w.volatile with fileCursors := w.volatile.fileCursors.erase fd } }

/-- **`close_file`**: the owner of the descriptor closes it and releases the lock, anybody else is
refused. -/
theorem wp_closeFile (huser : ∀ file, w.volatile.fileCursors.lookup (fdKey fd) = some file →
      file.clientId = client → client.userId = 0 → E (.assertion .lockUser))
    (hrefuse : ∀ result : ℤ, result < 0 →
      (result = if fdKey fd ∈ w.volatile.fileCursors then wrongClient else instanceNotFound) → (∀ file,
      w.volatile.fileCursors.lookup (fdKey fd) = some file → file.clientId ≠ client) →
      Q ⟨⟩ (logged (.told client (.closeResult result)) w))
    (hclose : ∀ file, w.volatile.fileCursors.lookup (fdKey fd) = some file →
      file.clientId = client → (0 < toInt32 file.fileId → client.userId ≠ 0) →
      ∀ locks : FileLocks, (locks.record = if 0 < toInt32 file.fileId then
        Function.update w.fileLocks.record (toInt32 file.fileId).toNat
          ((w.fileLocks.record (toInt32 file.fileId).toNat).released client)
        else w.fileLocks.record) →
      Q ⟨⟩ (logged (.told client (.closeResult (toInt32 file.fileId)))
        (withoutFd (fdKey fd) locks w))) :
    wp (closeFile fd client) Q E w := by
  simp only [closeFile, volatile, VolatileMetadata.closeFileCursor, wp_bind, wp_zoom, wp_get]
  cases hl : w.volatile.fileCursors.lookup (fdKey fd) with
  | none =>
    have hneg : ¬ instanceNotFound > 0 := by decide
    simp only [wp_pure, hneg, if_false, wp_emit]
    exact hrefuse _ (by decide) (by simp [Finmap.mem_iff, hl]) (by simp [hl])
  | some file =>
    by_cases hclient : file.clientId = client
    · simp only [hclient, if_true, wp_bind, wp_modify, wp_pure]
      have hclose := hclose file hl hclient
      split_ifs at hclose ⊢ with hpos
      · rw [wp_bind, locking, wp_zoom]
        refine wp_releaseLock_record (huser file hl hclient) fun h₀ _ locks hlocks => ?_
        exact wp_emit.mpr (hclose (fun _ => h₀) locks hlocks)
      · exact wp_emit.mpr (hclose (fun h => absurd h hpos) w.fileLocks rfl)
    · have hneg : ¬ wrongClient > 0 := by decide
      simp only [hclient, if_false, wp_pure, hneg, wp_emit]
      exact hrefuse _ (by decide) (by simp [Finmap.mem_iff, hl]) (by simp [hl, hclient])

theorem custody_withoutFd {locks : FileLocks} {file : FileInstance}
    (hfile : w.volatile.fileCursors.lookup (fdKey fd) = some file)
    (huser : 0 < toInt32 file.fileId → file.clientId.userId ≠ 0)
    (hlocks : locks.record = if 0 < toInt32 file.fileId then
      Function.update w.fileLocks.record (toInt32 file.fileId).toNat
        ((w.fileLocks.record (toInt32 file.fileId).toNat).released file.clientId)
      else w.fileLocks.record) :
    Custody.Step (custody w) (.closeFd (fdKey fd)) (custody (withoutFd (fdKey fd) locks w)) := by
  have hopened : (custody w).opened (fdKey fd) = some (file.clientId, file.fileId) := by
    simp [custody, hfile]
  have heq : custody (withoutFd (fdKey fd) locks w) = { custody w with
      lock := if 0 < toInt32 file.fileId then
        Function.update (custody w).lock (toInt32 file.fileId).toNat
          (((custody w).lock (toInt32 file.fileId).toNat).released file.clientId)
        else (custody w).lock
      opened := Function.update (custody w).opened (fdKey fd) none } := by
    have hlock : (custody (withoutFd (fdKey fd) locks w)).lock = locks.record := rfl
    have hsame : (custody w).lock = w.fileLocks.record := rfl
    refine Custody.ext rfl (by rw [hlock, hsame, hlocks]) rfl ?_
    funext fd'
    rcases eq_or_ne fd' (fdKey fd) with rfl | hne
    · simp [custody, withoutFd]
    · simp [custody, withoutFd, Finmap.lookup_erase_ne hne, Function.update_of_ne hne]
  rw [heq]
  exact .closeFd hopened huser

/-! ### Seeking -/

/-- The state after the moves of `file_seek`. -/
def sought (R : Runtime) (fd : ℤ) (offset : ℕ) (whence : Whence) (client : Client) (w : World) :
    World :=
  if whence = .seekEnd then moved R fd 4294967295 client w
  else
    let w := if whence = .seekSet then moved R fd 0 client w else w
    if w.volatile.getFileCursor (fdKey fd) ≥ 0 then
      moved R fd (w.volatile.getFileCursor (fdKey fd) + offset) client w
    else w

/-- What every move of the cursor keeps. -/
theorem sought_induction {P : World → Prop} {offset : ℕ} {whence : Whence} (hw : P w)
    (hmoved : ∀ w (offset : ℤ), P w → P (moved R fd offset client w)) :
    P (sought R fd offset whence client w) := by
  unfold sought
  split_ifs
  · exact hmoved w _ hw
  · have hset := hmoved w 0 hw
    simp only
    split_ifs
    · exact hmoved _ _ hset
    · exact hset
  · simp only
    split_ifs
    · exact hmoved w _ hw
    · exact hw

/-- **`file_seek`** answers with the cursor of the descriptor, whoever its owner is. -/
theorem wp_fileSeek {offset : ℕ} {whence : Whence} (hlock : w.metaLock = none)
    (huser : client.userId = 0 → E (.assertion .lockUser))
    (hQ : Q ⟨⟩ (logged (.told client (.seekResult
      ((sought R fd offset whence client w).volatile.getFileCursor (fdKey fd))))
      (sought R fd offset whence client w))) :
    wp (fileSeek R fd offset whence client) Q E w := by
  have htell : ∀ w, Q ⟨⟩ (logged (.told client (.seekResult
      (w.volatile.getFileCursor (fdKey fd)))) w) →
      wp (do emit (.told client (.seekResult ((← get).volatile.getFileCursor (fdKey fd))))) Q E w := by
    intro w hw
    rw [wp_bind, wp_get, wp_emit]
    exact hw
  -- the move by `offset` from where the cursor is
  have hmove : ∀ w : World, w.metaLock = none →
      (Q ⟨⟩ (logged (.told client (.seekResult ((if w.volatile.getFileCursor (fdKey fd) ≥ 0 then
          moved R fd (w.volatile.getFileCursor (fdKey fd) + offset) client w
        else w).volatile.getFileCursor (fdKey fd)))) (if w.volatile.getFileCursor (fdKey fd) ≥ 0 then
          moved R fd (w.volatile.getFileCursor (fdKey fd) + offset) client w
        else w))) →
      wp (do
        let cursor := (← get).volatile.getFileCursor (fdKey fd)
        if cursor ≥ 0 then
          let _ ← setFileCursor R fd (cursor + offset) client
        emit (.told client (.seekResult ((← get).volatile.getFileCursor (fdKey fd))))) Q E w := by
    intro w hlock hw
    rw [wp_bind, wp_get]
    by_cases hpos : w.volatile.getFileCursor (fdKey fd) ≥ 0
    · simp only [hpos, if_true, wp_bind] at hw ⊢
      exact wp_setFileCursor hlock huser fun _ => htell _ hw
    · simp only [hpos, if_false] at hw ⊢
      exact htell w hw
  unfold fileSeek
  cases whence with
  | seekEnd =>
    simp only [sought, if_true] at hQ
    simp only [if_true, wp_bind]
    exact wp_setFileCursor hlock huser fun _ => htell _ hQ
  | seekSet =>
    simp only [sought, if_true, reduceCtorEq, if_false] at hQ
    simp only [reduceCtorEq, if_false, if_true, wp_bind]
    exact wp_setFileCursor hlock huser fun _ => hmove _ hlock hQ
  | seekCur =>
    simp only [sought, reduceCtorEq, if_false] at hQ
    simp only [reduceCtorEq, if_false]
    exact hmove w hlock hQ

end

end DecaFS
