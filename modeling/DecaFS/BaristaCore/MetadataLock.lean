import DecaFS.BaristaCore.LockTable
import DecaFS.ForMathlib.Calls

/-!
# The metadata lock between the calls

The nine call-throughs to `Persistent_Metadata` of `barista_core/barista_core.cpp` take the metadata
lock and return `NO_METADATA_LOCK` if it is held. The server handles one message at a time, so that
it never is: every call-through that a message comes to, also in a response handled during a send,
finds the lock free and leaves it free (`Granted`), and no other code of the server looks at the lock.
So the loop around `delete_file_contents` in `check_delete_complete` takes one round.

`NO_METADATA_LOCK` is -4, and so is the file id `4294967292` as an `int`: the call of `add_file` that
gives it out reports a lock that was not refused (`Misread`).
-/

namespace DecaFS

open Code Barista

/-! ### The call-throughs -/

/-- A call of `Persistent_Metadata` by a client. -/
inductive MetadataCall : Type → Type
  | getNumFiles : MetadataCall ℤ
  | getFilenames (size : ℤ) : MetadataCall (ℤ × List String)
  | decafsFileSstat (pathname : String) : MetadataCall (Except ℤ DecafsFileStat)
  | decafsFileStat (fileId : ℕ) : MetadataCall (Except ℤ DecafsFileStat)
  | decafsStat (pathname : String) : MetadataCall ℤ
  | setAccessTime (inst : FileInstance) (time : Timeval) : MetadataCall ℤ
  | addFile (pathname : String) (stripeSize : StripeSize) (chunkSize : ChunkSize)
      (replicaSize : ℕ) (time : Timeval) : MetadataCall ℤ
  | deleteFileContents (fileId : ℕ) : MetadataCall ℤ
  | updateFileSize (fileId : ℕ) (sizeDelta : ℤ) : MetadataCall ℤ

/-- The file id that is `NO_METADATA_LOCK` as an `int`. -/
def refusedFileId : ℕ := 4294967292

namespace MetadataCall

variable {α : Type}

/-- What the call does under the lock; `decafs_stat` is left to do in the source. -/
def perform : MetadataCall α → Code (Halt Site) PersistentMetadata α
  | .getNumFiles => do return toInt32 (PersistentMetadata.getNumFiles (← get))
  | .getFilenames size => PersistentMetadata.getFilenames size
  | .decafsFileSstat pathname => PersistentMetadata.decafsFileSstat pathname
  | .decafsFileStat fileId => PersistentMetadata.decafsFileStat fileId
  | .decafsStat _ => return 0
  | .setAccessTime inst time => PersistentMetadata.setAccessTime inst time
  | .addFile pathname stripeSize chunkSize replicaSize time =>
    PersistentMetadata.addFile pathname stripeSize chunkSize replicaSize time
  | .deleteFileContents fileId => PersistentMetadata.deleteFileContents fileId
  | .updateFileSize fileId sizeDelta => PersistentMetadata.updateFileSize fileId sizeDelta

/-- The result without the lock. -/
def refusal : MetadataCall α → α
  | .getNumFiles => noMetadataLock
  | .getFilenames _ => (noMetadataLock, [])
  | .decafsFileSstat _ => .error noMetadataLock
  | .decafsFileStat _ => .error noMetadataLock
  | .decafsStat _ => noMetadataLock
  | .setAccessTime _ _ => noMetadataLock
  | .addFile _ _ _ _ _ => noMetadataLock
  | .deleteFileContents _ => noMetadataLock
  | .updateFileSize _ _ => noMetadataLock

/-- The `int` among the results. -/
def code : MetadataCall α → α → ℤ
  | .getNumFiles, res => res
  | .getFilenames _, res => res.1
  | .decafsFileSstat _, .ok _ => pMetaSuccess
  | .decafsFileSstat _, .error e => e
  | .decafsFileStat _, .ok _ => pMetaSuccess
  | .decafsFileStat _, .error e => e
  | .decafsStat _, res => res
  | .setAccessTime _ _, res => res
  | .addFile _ _ _ _ _, res => res
  | .deleteFileContents _, res => res
  | .updateFileSize _ _, res => res

/-- The call-through. -/
def wrapper (c : MetadataCall α) (client : Client) : Barista α :=
  withMetadataLock client c.refusal c.perform

/-- The call has the lock, and its result reads as `NO_METADATA_LOCK`: a file id, or a number of
files. -/
def Misread : MetadataCall α → PersistentMetadata → Prop
  | .getNumFiles, p => p.getNumFiles % 4294967296 = refusedFileId
  | .addFile pathname _ _ _ _, p => pathname ∉ p.pathnameToFileId ∧
    pathname.utf8ByteSize ≤ maxFilenameLength ∧ p.newFileId = refusedFileId
  | _, _ => False

/-- The call-through finds the metadata lock free, returns with the lock free what the call does under
it, and that is not `NO_METADATA_LOCK`. -/
structure Granted (c : MetadataCall α) (client : Client) (w : World) : Prop where
  unlocked : w.metaLock = none
  returns : ∃ res p, c.perform w.persistent = .ok (res, p) ∧
    c.wrapper client w = .ok (res, { w with persistent := p }) ∧ c.code res ≠ noMetadataLock

section

variable {c : MetadataCall α} {client : Client} {w : World} {p : PersistentMetadata}

theorem toInt32_eq_noMetadataLock_iff (n : ℕ) :
    toInt32 n = noMetadataLock ↔ n % 4294967296 = refusedFileId := by
  unfold toInt32 noMetadataLock refusedFileId
  omega

theorem toInt32_newSize_ne (size : ℕ) (delta : ℤ) :
    toInt32 (PersistentMetadata.newSize size delta) ≠ noMetadataLock := by
  unfold PersistentMetadata.newSize
  split_ifs with hneg
  · decide
  · -- the size that is stored is the sum that was compared with 0
    have hsum : toInt32 ((toUInt32 (size + delta)).toNat : ℤ) = toInt32 (toInt32 size + delta) := by
      unfold toInt32 toUInt32
      omega
    have hrefused : noMetadataLock < 0 := by decide
    omega

theorem fileNotFound_ne : fileNotFound ≠ noMetadataLock := by decide

theorem pMetaSuccess_ne : pMetaSuccess ≠ noMetadataLock := by decide

theorem exists_perform_of_wp (hnot : ¬ c.Misread p)
    (hwp : wp c.perform (fun res _ => c.code res ≠ noMetadataLock) (fun _ => False) p) :
    ∃ res p', c.perform p = .ok (res, p') ∧ (c.code res = noMetadataLock ↔ c.Misread p) := by
  obtain ⟨res, p', hres, hcode⟩ := hwp.exists_ok
  exact ⟨res, p', hres, iff_of_false hcode hnot⟩

/-- What a call returns under the lock. -/
theorem exists_perform (c : MetadataCall α) (p : PersistentMetadata) :
    ∃ res p', c.perform p = .ok (res, p') ∧ (c.code res = noMetadataLock ↔ c.Misread p) := by
  cases c with
  | getNumFiles =>
    have hwp : wp (perform .getNumFiles) (fun res _ => res = noMetadataLock ↔
        p.getNumFiles % 4294967296 = refusedFileId) (fun _ => False) p := by
      simp only [perform, wp_bind, wp_get, wp_pure]
      exact toInt32_eq_noMetadataLock_iff _
    exact hwp.exists_ok
  | getFilenames size =>
    refine exists_perform_of_wp id ?_
    have hlength : (0 : ℤ) ≤ (PersistentMetadata.copyNames size 0 p.pathnameToFileId.keys.sort).length :=
      Int.natCast_nonneg _
    have hrefused : noMetadataLock < 0 := by decide
    simp only [perform, PersistentMetadata.getFilenames, wp_bind, wp_get, wp_pure, code]
    exact (lt_of_lt_of_le hrefused hlength).ne'
  | decafsFileSstat pathname =>
    refine exists_perform_of_wp id (PersistentMetadata.wp_decafsFileSstat.mpr ?_)
    split
    · exact pMetaSuccess_ne
    · exact fileNotFound_ne
  | decafsFileStat fileId =>
    refine exists_perform_of_wp id (PersistentMetadata.wp_decafsFileStat.mpr ?_)
    split
    · exact pMetaSuccess_ne
    · exact fileNotFound_ne
  | decafsStat pathname => exact exists_perform_of_wp id ((wp_pure _).mpr pMetaSuccess_ne)
  | setAccessTime inst time =>
    refine exists_perform_of_wp id ?_
    simp only [perform, PersistentMetadata.setAccessTime, wp_bind, wp_get]
    cases p.metadata.lookup inst.fileId with
    | some info =>
      simp only [wp_bind, wp_modify, wp_pure]
      exact pMetaSuccess_ne
    | none => exact (wp_pure _).mpr fileNotFound_ne
  | addFile pathname stripeSize chunkSize replicaSize time =>
    have hwp : wp (PersistentMetadata.addFile pathname stripeSize chunkSize replicaSize time)
        (fun res _ => res = noMetadataLock ↔ pathname ∉ p.pathnameToFileId ∧
          pathname.utf8ByteSize ≤ maxFilenameLength ∧ p.newFileId = refusedFileId)
        (fun _ => False) p := by
      refine PersistentMetadata.wp_addFile _ _ _ _ _ (fun e he => ?_) fun hnew hshort => ?_
      · rcases he with ⟨rfl, hmem⟩ | ⟨rfl, -, hlong⟩
        · exact iff_of_false (by decide) fun h => h.1 hmem
        · exact iff_of_false (by decide) fun h => absurd h.2.1 (not_le.mpr hlong)
      · rw [toInt32_eq_noMetadataLock_iff, Nat.mod_eq_of_lt p.newFileId_lt]
        exact ⟨fun h => ⟨hnew, hshort, h⟩, fun h => h.2.2⟩
    exact hwp.exists_ok
  | deleteFileContents fileId =>
    exact exists_perform_of_wp id (PersistentMetadata.wp_deleteFileContents fun res hres => hres)
  | updateFileSize fileId sizeDelta =>
    refine exists_perform_of_wp id ?_
    simp only [perform, PersistentMetadata.updateFileSize, wp_bind, wp_get]
    cases p.metadata.lookup fileId with
    | some info =>
      simp only [wp_bind, wp_modify, wp_pure, code]
      exact toInt32_newSize_ne _ _
    | none => exact (wp_pure _).mpr fileNotFound_ne

/-- A call-through that finds the lock free. -/
theorem wrapper_eq (hlock : w.metaLock = none) (huser : client.userId ≠ 0) {res : α}
    (hres : c.perform w.persistent = .ok (res, p)) :
    c.wrapper client w = .ok (res, { w with persistent := p }) := by
  refine eq_ok_iff_wp.mpr ((wp_withMetadataLock hlock _ _).mpr ?_)
  rw [if_neg huser, wp_ok hres]
  exact ⟨rfl, rfl⟩

/-- A call-through that finds the lock held. -/
theorem wrapper_refused (hlock : w.metaLock ≠ none) (huser : client.userId ≠ 0) :
    c.wrapper client w = .ok (c.refusal, w) := by
  refine eq_ok_iff_wp.mpr ?_
  simp [wrapper, withMetadataLock, getMetadataLock, huser, hlock, lockError]

theorem granted_iff (hlock : w.metaLock = none) (huser : client.userId ≠ 0) :
    c.Granted client w ↔ ¬ c.Misread w.persistent := by
  obtain ⟨res, p, hres, hcode⟩ := c.exists_perform w.persistent
  constructor
  · rintro ⟨-, res', p', hres', -, hne⟩ hmisread
    rw [hres] at hres'
    cases hres'
    exact hne (hcode.mpr hmisread)
  · intro hnot
    exact ⟨hlock, res, p, hres, wrapper_eq hlock huser hres, fun h => hnot (hcode.mp h)⟩

end

end MetadataCall

/-! ### The loop around `delete_file_contents` -/

/-- The loop of `check_delete_complete`, for so many rounds. -/
def retryDeletion (fileId : ℕ) (client : Client) : ℕ → Barista PUnit
  | 0 => throw .noReturn
  | rounds + 1 => do
    if (← deleteFileContents fileId client) = noMetadataLock then
      retryDeletion fileId client rounds
    else
      return

section

variable {f : ℕ} {client : Client} {w : World}

/-- Where the call gets the lock, the loop ends after one round. -/
theorem retryDeletion_of_granted (h : (MetadataCall.deleteFileContents f).Granted client w)
    (rounds : ℕ) : retryDeletion f client (rounds + 1) w =
      .ok (⟨⟩, { w with persistent := w.persistent.without f }) := by
  obtain ⟨-, res, p, hperform, hres, hne⟩ := h
  have hcall : deleteFileContents f client w = .ok (res, { w with persistent := p }) := hres
  have hdeleted : wp (PersistentMetadata.deleteFileContents f)
      (fun _ p => p = w.persistent.without f) (fun _ => False) w.persistent :=
    PersistentMetadata.wp_deleteFileContents fun _ _ => rfl
  obtain rfl : p = w.persistent.without f := hdeleted.of_ok hperform
  rw [retryDeletion, bind_of_ok hcall, if_neg (by exact hne)]
  rfl

/-- Where the lock is held, the loop does not end. -/
theorem retryDeletion_of_held (hlock : w.metaLock ≠ none) (huser : client.userId ≠ 0) (rounds : ℕ) :
    retryDeletion f client rounds w = .error .noReturn := by
  have hcall : deleteFileContents f client w = .ok (noMetadataLock, w) :=
    MetadataCall.wrapper_refused (c := .deleteFileContents f) hlock huser
  induction rounds with
  | zero => rfl
  | succ rounds ih =>
    rw [retryDeletion, bind_of_ok hcall, if_pos rfl]
    exact ih

/-- The loop in one round, as `checkDeleteComplete` has it. -/
theorem retryDeletion_succ (rounds : ℕ) : retryDeletion f client (rounds + 1) = (do
    if (← deleteFileContents f client) = noMetadataLock then
      throw .noReturn : Barista PUnit) := by
  funext w
  by_cases huser : client.userId = 0
  · have hcall : deleteFileContents f client w = .error (.assertion .lockUser) := by
      simp [deleteFileContents, withMetadataLock, getMetadataLock, huser, assert]
      rfl
    rw [retryDeletion, bind_of_error hcall, bind_of_error hcall]
  · by_cases hlock : w.metaLock = none
    · obtain ⟨-, res, p, -, hres, hne⟩ :=
        (MetadataCall.granted_iff (c := .deleteFileContents f) hlock huser).mpr id
      have hcall : deleteFileContents f client w = .ok (res, { w with persistent := p }) := hres
      rw [retryDeletion, bind_of_ok hcall, bind_of_ok hcall, if_neg (by exact hne),
        if_neg (by exact hne)]
    · have hcall : deleteFileContents f client w = .ok (noMetadataLock, w) :=
        MetadataCall.wrapper_refused (c := .deleteFileContents f) hlock huser
      rw [retryDeletion_of_held hlock huser, bind_of_ok hcall, if_pos rfl]
      rfl

end

/-- `check_delete_complete` with its loop, for any number of rounds. -/
theorem checkDeleteComplete_eq (id rounds : ℕ) : checkDeleteComplete id = (do
    assert .checkDelete ((← get).requests.deleteRequestExists id)
    let request := (← get).requests.deleteRequest id
    if request.chunksExpected = 0 then
      return
    else if request.chunksExpected = request.chunksReceived then
      emit (.replied (.delete id) request.client (.removeResult 0))
      retryDeletion request.fileId request.client (rounds + 1)
      let _ ← locking (releaseLock request.client request.fileId)
      requests (modify fun r => r.eraseDelete id)
    else
      return) := by
  simp only [checkDeleteComplete, retryDeletion_succ, bind_assoc]
  congr! 8
  -- what stands after the `throw` is not run
  refine congrArg _ (funext fun _ => congrArg _ (funext fun res => ?_))
  split
  · rfl
  · rfl

/-! ### Between the calls -/

/-- `w` with `lock` as the metadata lock. -/
def withLock (lock : Option Client) (w : World) : World := { w with metaLock := lock }

/-- The steps that may come to the metadata lock: a call-through that is granted, and a look at the
clock, which may depend on anything. -/
inductive Admitted (R : Runtime) : ∀ ⦃α : Type⦄, Barista α → World → Prop
  | call {α : Type} {c : MetadataCall α} {client : Client} {w : World} (h : c.Granted client w) :
      Admitted R (c.wrapper client) w
  | clock {w : World} : Admitted R (do return R.gettimeofday (← get)) w

/-- Nobody holds the metadata lock, and the active deletes can take it. -/
structure Unheld (w : World) : Prop where
  unlocked : w.metaLock = none
  named : w.requests.DeletersNamed

/-- Run from `w`, the code comes to the metadata lock in granted call-throughs only. -/
abbrev InTurnAt (R : Runtime) {α : Type} (m : Barista α) (w : World) : Prop :=
  m.OrderlyAt withLock (Admitted R) Unheld w

/-- The code comes to the metadata lock in granted call-throughs only, from wherever nobody holds
it. -/
abbrev InTurn (R : Runtime) {α : Type} (m : Barista α) : Prop :=
  m.Orderly withLock (Admitted R) Unheld

section

variable {R : Runtime} {α : Type} {client : Client} {w : World}

theorem inTurn_network (m : Code (Halt Site) Network α) : InTurn R (network m) :=
  orderly_zoom (fun _ _ => rfl) (fun _ _ _ => rfl) fun _ _ h => ⟨h.unlocked, h.named⟩

theorem inTurn_volatile (m : Code (Halt Site) VolatileMetadata α) : InTurn R (volatile m) :=
  orderly_zoom (fun _ _ => rfl) (fun _ _ _ => rfl) fun _ _ h => ⟨h.unlocked, h.named⟩

theorem inTurn_locking (m : Code (Halt Site) FileLocks α) : InTurn R (locking m) :=
  orderly_zoom (fun _ _ => rfl) (fun _ _ _ => rfl) fun _ _ h => ⟨h.unlocked, h.named⟩

theorem inTurn_chunks (m : Code (Halt Site) ChunkMaps α) : InTurn R (chunks m) :=
  orderly_zoom (fun _ _ => rfl) (fun _ _ _ => rfl) fun _ _ h => ⟨h.unlocked, h.named⟩

theorem inTurnAt_requests {g : Requests → Requests} (hw : Unheld w)
    (h : (g w.requests).DeletersNamed) : InTurnAt R (requests (modify g)) w :=
  orderlyAt_of_apart (apart_zoom (fun _ _ => rfl) fun _ _ _ => rfl) fun _ _ hok => by
    cases hok
    exact ⟨hw.unlocked, h⟩

theorem inTurn_requests {g : Requests → Requests}
    (h : ∀ r : Requests, r.DeletersNamed → (g r).DeletersNamed) : InTurn R (requests (modify g)) :=
  fun _ hw => inTurnAt_requests hw (h _ hw.named)

theorem inTurn_emit (e : Event) : InTurn R (emit e) := inTurn_network _

theorem inTurn_assert (site : Site) (c : Bool) :
    InTurn R (DecaFS.assert site c : Barista PUnit) :=
  .ite (orderly_pure _) (orderly_throw _)

/-- Code that goes on after an `assert`. -/
theorem inTurnAt_assert {site : Site} {c : Bool} {f : PUnit → Barista α} (hw : Unheld w)
    (h : c = true → InTurnAt R (f ⟨⟩) w) :
    InTurnAt R ((DecaFS.assert site c : Barista PUnit) >>= f) w := by
  refine (inTurn_assert site c w hw).bind fun a w' hok hw' => ?_
  cases c with
  | true =>
    cases hok
    exact h rfl
  | false => exact nomatch hok

theorem inTurnAt_call {c : MetadataCall α} (hw : Unheld w) (h : c.Granted client w) :
    InTurnAt R (c.wrapper client) w := by
  refine ⟨.admitted (.call h), fun a w' hok => ?_⟩
  obtain ⟨-, res, p, -, hres, -⟩ := h
  rw [hres] at hok
  cases hok
  exact ⟨hw.unlocked, hw.named⟩

/-- A call-through whose result is no id. -/
theorem inTurn_call (c : MetadataCall α) (huser : client.userId ≠ 0)
    (h : ∀ p, ¬ c.Misread p) : InTurn R (c.wrapper client) := fun w hw =>
  inTurnAt_call hw ((MetadataCall.granted_iff hw.unlocked huser).mpr (h w.persistent))

theorem inTurn_decafsFileSstat (path : String) (huser : client.userId ≠ 0) :
    InTurn R (decafsFileSstat path client) :=
  inTurn_call (.decafsFileSstat path) huser fun _ => id

theorem inTurn_decafsFileStat (fileId : ℕ) (huser : client.userId ≠ 0) :
    InTurn R (decafsFileStat fileId client) :=
  inTurn_call (.decafsFileStat fileId) huser fun _ => id

theorem inTurn_deleteFileContents (fileId : ℕ) (huser : client.userId ≠ 0) :
    InTurn R (deleteFileContents fileId client) :=
  inTurn_call (.deleteFileContents fileId) huser fun _ => id

theorem inTurn_updateFileSize (fileId : ℕ) (delta : ℤ) (huser : client.userId ≠ 0) :
    InTurn R (updateFileSize fileId delta client) :=
  inTurn_call (.updateFileSize fileId delta) huser fun _ => id

theorem inTurnAt_addFile {path : String} (stripeSize : StripeSize) (chunkSize : ChunkSize)
    (replicaSize : ℕ) (time : Timeval) (hw : Unheld w) (huser : client.userId ≠ 0)
    (hid : path ∉ w.persistent.pathnameToFileId → path.utf8ByteSize ≤ maxFilenameLength →
      w.persistent.newFileId ≠ refusedFileId) :
    InTurnAt R (addFile path stripeSize chunkSize replicaSize time client) w := by
  have hnot : ¬ (MetadataCall.addFile path stripeSize chunkSize replicaSize time).Misread
      w.persistent := by
    rintro ⟨hnew, hshort, hrefused⟩
    exact hid hnew hshort hrefused
  exact inTurnAt_call hw ((MetadataCall.granted_iff hw.unlocked huser).mpr hnot)

theorem inTurn_setFileCursor (fd offset : ℤ) (huser : client.userId ≠ 0) :
    InTurn R (setFileCursor R fd offset client) := by
  refine .read (fun _ _ => rfl) fun w => ?_
  cases w.volatile.fileCursors.lookup (fdKey fd) with
  | none => exact orderly_pure _
  | some file =>
    exact .ite (.bind (inTurn_decafsFileStat _ huser) fun _ =>
      .bind (inTurn_volatile _) fun _ => orderly_pure _) (orderly_pure _)

/-! ### Responses -/

theorem inTurn_checkReadComplete (id : ℕ) : InTurn R (checkReadComplete id) :=
  .read (fun _ _ => rfl) fun _ => .bind (inTurn_assert _ _) fun _ => .read (fun _ _ => rfl) fun _ =>
    .ite (orderly_pure _) (.ite (.bind (inTurn_emit _) fun _ => inTurn_requests fun _ h => h)
      (orderly_pure _))

theorem inTurn_checkWriteComplete (id : ℕ) : InTurn R (checkWriteComplete id) :=
  .read (fun _ _ => rfl) fun _ => .bind (inTurn_assert _ _) fun _ => .read (fun _ _ => rfl) fun _ =>
    .read (fun _ _ => rfl) fun _ => .ite (orderly_pure _)
      (.ite (.bind (inTurn_emit _) fun _ => inTurn_requests fun _ h => h) (orderly_pure _))

theorem Requests.DeletersNamed.deleteRequest {r : Requests} {id : ℕ} (h : r.DeletersNamed)
    (hexists : r.deleteRequestExists id = true) : (r.deleteRequest id).client.userId ≠ 0 := by
  obtain ⟨info, hinfo⟩ := Finmap.mem_iff.mp (of_decide_eq_true hexists)
  rw [Requests.deleteRequest, hinfo]
  exact h id info hinfo

theorem inTurn_checkDeleteComplete (id : ℕ) : InTurn R (checkDeleteComplete id) := by
  intro w hw
  refine .read (fun _ _ => rfl) (inTurnAt_assert hw fun hexists => .read (fun _ _ => rfl) ?_)
  -- the request is there, and its client has a user id
  have huser := hw.named.deleteRequest hexists
  have hrest : ∀ request : RequestInfo, InTurn R (do
      let _ ← locking (releaseLock request.client request.fileId)
      requests (modify fun r => r.eraseDelete id) : Barista PUnit) := fun _ =>
    .bind (inTurn_locking _) fun _ => inTurn_requests fun _ h => h.close (.delete id)
  refine Orderly.ite (orderly_pure _) (.ite (.bind (inTurn_emit _) fun _ => ?_) (orderly_pure _)) w hw
  exact .bind (inTurn_deleteFileContents _ huser) fun _ =>
    .ite (.bind (orderly_throw _) fun _ => hrest _) (hrest _)

theorem inTurn_deleteResponseHandler (id : ℕ) : InTurn R (deleteResponseHandler id) := by
  intro w hw
  refine .read (fun _ _ => rfl) (inTurnAt_assert hw fun hexists => ?_)
  exact .bind (inTurnAt_requests hw (hw.named.setDelete (hw.named.deleteRequest hexists)))
    fun _ w' _ hw' => inTurn_checkDeleteComplete id w' hw'

theorem inTurn_receive (d : Delivery) : InTurn R (receive R d) := by
  refine .read (fun _ _ => rfl) fun w => ?_
  cases w.network.inFlight[d.index]? with
  | none => exact orderly_pure _
  | some r =>
    refine .bind (inTurn_network _) fun _ => ?_
    cases r.flag with
    | readChunk =>
      exact .read (fun _ _ => rfl) fun _ => .bind (inTurn_assert _ _) fun _ =>
        .bind (inTurn_requests fun _ h => h) fun _ => inTurn_checkReadComplete _
    | writeChunk =>
      refine .read (fun _ _ => rfl) fun _ => .bind (inTurn_assert _ _) fun _ =>
        .bind (inTurn_requests fun r h => ?_) fun _ => inTurn_checkWriteComplete _
      dsimp only
      split
      · exact h
      · exact h
    | deleteChunk => exact inTurn_deleteResponseHandler _

theorem inTurn_receiveAll : ∀ ds : List Delivery, InTurn R (receiveAll R ds)
  | [] => orderly_pure _
  | d :: ds => .bind (inTurn_receive d) fun _ => inTurn_receiveAll ds

/-! ### Stripes -/

theorem inTurn_sendToEspresso (node : ℤ) (r : ChunkRequest) :
    InTurn R (sendToEspresso R node r) := by
  refine .read (fun _ _ => rfl) fun w => ?_
  cases w.network.script with
  | nil => exact orderly_throw _
  | cons outcome script =>
    exact .ite
      (.bind (inTurn_network _) fun _ => .bind (inTurn_receiveAll _) fun _ => orderly_pure _)
      (.bind (inTurn_network _) fun _ => .bind (inTurn_receiveAll _) fun _ => orderly_pure _)

theorem inTurn_readNode (chunk : FileChunk) : InTurn R (readNode R chunk) :=
  .read (fun _ _ => rfl) fun _ =>
    .ite (orderly_pure _) (.bind (inTurn_assert _ _) fun _ => orderly_pure _)

theorem inTurn_readChunks (id fileId stripeId chunkSize : ℕ) (count : ℤ) :
    ∀ (fuel chunkId : ℕ) (chunkOffset bytesRead : ℤ) (numChunks : ℕ), InTurn R (readChunks R id fileId
      stripeId chunkSize count fuel chunkId chunkOffset bytesRead numChunks)
  | 0, _, _, _, _ => orderly_throw _
  | fuel + 1, _, _, _, _ => .ite
    (.read (fun _ _ => rfl) fun _ => .ite (.bind (inTurn_readNode _) fun node =>
      .bind (inTurn_emit _) fun _ => .bind (inTurn_sendToEspresso node _) fun _ => .ite
        (.bind (inTurn_volatile _) fun _ =>
          inTurn_readChunks id fileId stripeId chunkSize count fuel _ _ _ _)
        (inTurn_readChunks id fileId stripeId chunkSize count fuel _ _ _ _)) (orderly_pure _))
    (orderly_pure _)

theorem inTurn_writeNodes (chunk : FileChunk) : InTurn R (writeNodes R chunk) :=
  .read (fun _ _ => rfl) fun _ => .bind (inTurn_chunks _) fun _ => .bind (inTurn_chunks _) fun _ =>
    .read (fun _ _ => rfl) fun _ => orderly_pure _

theorem inTurn_writeReplica (id : ℕ) (chunk : FileChunk) (node offset : ℤ) (buf : List UInt8)
    (n : ℤ) : InTurn R (writeReplica R id chunk node offset buf n) :=
  .bind (inTurn_sendToEspresso _ _) fun _ => .ite (.bind (inTurn_volatile _) fun _ =>
    .read (fun _ _ => rfl) fun _ => .bind (inTurn_sendToEspresso _ _) fun _ => orderly_pure _)
    (orderly_pure _)

theorem inTurn_writeChunks (q : WriteRequest) (fileId stripeId chunkSize : ℕ) (buf : List UInt8)
    (count : ℤ) : ∀ (fuel chunkId : ℕ) (chunkOffset bytesWritten : ℤ) (written : ℕ × ℕ),
      InTurn R (writeChunks R q fileId stripeId chunkSize buf count fuel chunkId chunkOffset
        bytesWritten written)
  | 0, _, _, _, _ => orderly_throw _
  | fuel + 1, _, _, _, _ => .ite
    (.bind (inTurn_writeNodes _) fun nodes => .bind (inTurn_emit _) fun _ =>
      .bind (inTurn_sendToEspresso nodes.1 _) fun _ => .ite
        (.bind (inTurn_volatile _) fun _ =>
          inTurn_writeChunks q fileId stripeId chunkSize buf count fuel _ _ _ _)
        (.bind (inTurn_writeReplica _ _ _ _ _ _) fun _ =>
          inTurn_writeChunks q fileId stripeId chunkSize buf count fuel _ _ _ _))
    (orderly_pure _)

theorem inTurn_deleteCopy (copies : ChunkMaps → List (FileChunk × ℤ))
    (put : List (FileChunk × ℤ) → ChunkMaps → ChunkMaps) (id : ℕ) (chunk : FileChunk) (n : ℕ) :
    InTurn R (deleteCopy R copies put id chunk n) :=
  .read (fun _ _ => rfl) fun _ => .ite (.bind (inTurn_sendToEspresso _ _) fun _ =>
    .bind (inTurn_chunks _) fun _ => orderly_pure _) (orderly_pure _)

theorem inTurn_deleteChunks (id : ℕ) : ∀ (l : List FileChunk) (n : ℕ),
    InTurn R (deleteChunks R id l n)
  | [], _ => orderly_pure _
  | _ :: l, _ => .bind (inTurn_deleteCopy _ _ _ _ _) fun _ =>
    .bind (inTurn_deleteCopy _ _ _ _ _) fun _ => inTurn_deleteChunks id l _

/-! ### Calls -/

theorem inTurn_readStripes (id : ℕ) (fd : ℤ) (fileId : ℕ) (stat : DecafsFileStat) (count : ℤ)
    (huser : client.userId ≠ 0) : ∀ (fuel stripeId : ℕ) (offset done : ℤ) (numChunks : ℕ),
      InTurn R (readStripes R id fd fileId stat count client fuel stripeId offset done numChunks)
  | 0, _, _, _, _ => orderly_throw _
  | fuel + 1, _, _, _, _ => by
    have hstripe : ∀ offset n stripeId, InTurn R (processReadStripe R id fileId stripeId
        stat.stripeSize.val stat.chunkSize.val offset n) := fun _ _ _ =>
      .bind (inTurn_emit _) fun _ => .bind (inTurn_assert _ _) fun _ => .read (fun _ _ => rfl) fun _ =>
        inTurn_readChunks _ _ _ _ _ _ _ _ _ _
    exact .ite (.bind (inTurn_emit _) fun _ => .bind (hstripe _ _ _) fun _ =>
      .read (fun _ _ => rfl) fun _ => .bind (inTurn_setFileCursor _ _ huser) fun _ =>
        inTurn_readStripes id fd fileId stat count huser fuel _ _ _ _) (orderly_pure _)

theorem inTurn_writeStripes (q : WriteRequest) (fd : ℤ) (fileId : ℕ) (stat : DecafsFileStat)
    (buf : List UInt8) (count : ℤ) (huser : client.userId ≠ 0) :
    ∀ (fuel stripeId : ℕ) (offset done : ℤ) (sent : ℕ × ℕ), InTurn R (writeStripes R q fd fileId stat
      buf count client fuel stripeId offset done sent)
  | 0, _, _, _, _ => orderly_throw _
  | fuel + 1, _, _, _, _ => by
    have hstripe : ∀ buf offset n stripeId, InTurn R (processWriteStripe R q fileId stripeId
        stat.stripeSize.val stat.chunkSize.val buf offset n) := fun _ _ _ _ =>
      .bind (inTurn_emit _) fun _ => .bind (inTurn_assert _ _) fun _ => .read (fun _ _ => rfl) fun _ =>
        inTurn_writeChunks _ _ _ _ _ _ _ _ _ _ _
    exact .ite (.bind (inTurn_emit _) fun _ => .bind (hstripe _ _ _ _) fun _ =>
      .bind (inTurn_updateFileSize _ _ huser) fun _ => .read (fun _ _ => rfl) fun _ =>
      .bind (inTurn_setFileCursor _ _ huser) fun _ =>
        inTurn_writeStripes q fd fileId stat buf count huser fuel _ _ _ _) (orderly_pure _)

theorem inTurn_readFile (fd count : ℤ) (huser : client.userId ≠ 0) :
    InTurn R (readFile R fd count client) := by
  have hdispatch : ∀ id f stat (offset : ℤ),
      InTurn R (dispatchRead R id fd f stat offset count client) := fun _ _ _ _ =>
    .bind (inTurn_requests fun _ h => h) fun _ => .bind (inTurn_emit _) fun _ =>
      .bind (inTurn_readStripes _ _ _ _ _ huser _ _ _ _ _) fun _ => .read (fun _ _ => rfl) fun _ =>
        .bind (inTurn_assert _ _) fun _ => .bind (inTurn_requests fun _ h => h) fun _ =>
          inTurn_checkReadComplete _
  have hmay : ∀ f, InTurn R (mayRead client f) := fun _ => .bind (inTurn_locking _) fun _ =>
    .ite (.bind (inTurn_locking _) fun _ => orderly_pure _) (orderly_pure _)
  refine .bind (inTurn_volatile _) fun id => .bind (inTurn_assert _ _) fun _ =>
    .read (fun _ _ => rfl) fun _ => .bind (hmay _) fun _ => .ite (inTurn_emit _) ?_
  refine .bind (inTurn_decafsFileStat _ huser) fun stat => ?_
  cases stat with
  | error e => exact inTurn_emit _
  | ok stat =>
    exact .read (fun _ _ => rfl) fun _ => .ite (inTurn_emit _)
      (.ite (inTurn_emit _) (hdispatch _ _ _ _))

theorem inTurn_writeFile (fd : ℤ) (buf : List UInt8) (count : ℤ) (huser : client.userId ≠ 0) :
    InTurn R (writeFile R fd buf count client) := by
  have hdispatch : ∀ q f stat (offset : ℤ),
      InTurn R (dispatchWrite R q fd f stat offset buf count client) := fun _ _ _ _ =>
    .bind (inTurn_requests fun _ h => h) fun _ => .bind (inTurn_emit _) fun _ =>
      .bind (inTurn_writeStripes _ _ _ _ _ _ huser _ _ _ _ _) fun _ => .read (fun _ _ => rfl) fun _ =>
        .bind (inTurn_assert _ _) fun _ => .bind (inTurn_requests fun _ h => h) fun _ =>
          inTurn_checkWriteComplete _
  refine .bind (inTurn_volatile _) fun id => .bind (inTurn_volatile _) fun id' =>
    .bind (inTurn_assert _ _) fun _ => .read (fun _ _ => rfl) fun _ =>
      .bind (inTurn_locking _) fun _ => .ite (inTurn_emit _) ?_
  refine .bind (inTurn_decafsFileStat _ huser) fun stat => ?_
  cases stat with
  | error e => exact inTurn_emit _
  | ok stat =>
    exact .read (fun _ _ => rfl) fun _ => .ite (inTurn_emit _)
      (.ite (inTurn_emit _) (hdispatch _ _ _ _))

theorem inTurn_deleteFile (path : String) (huser : client.userId ≠ 0) :
    InTurn R (deleteFile R path client) := by
  have hfinish : ∀ id n, InTurn R (finishDelete id n) := by
    intro id n w hw
    refine .read (fun _ _ => rfl) (inTurnAt_assert hw fun hexists => ?_)
    exact .bind (inTurnAt_requests hw (hw.named.setDelete (hw.named.deleteRequest hexists)))
      fun _ w' _ hw' => inTurn_checkDeleteComplete id w' hw'
  have hdispatch : ∀ id f, InTurn R (dispatchDelete R id f client) := fun _ _ =>
    .bind (inTurn_requests fun _ h => h.setDelete huser) fun _ => .bind (inTurn_emit _) fun _ =>
      .bind (.read (fun _ _ => rfl) fun _ => inTurn_deleteChunks _ _ _) fun _ => hfinish _ _
  refine .bind (inTurn_volatile _) fun id =>
    .bind (inTurn_decafsFileSstat _ huser) fun stat => ?_
  cases stat with
  | error e => exact inTurn_emit _
  | ok stat => exact .bind (inTurn_locking _) fun _ => .ite (inTurn_emit _) (hdispatch _ _)

theorem inTurn_openFileId (fileId size flags : ℕ) (huser : client.userId ≠ 0) :
    InTurn R (openFileId R fileId size flags client) :=
  .bind (inTurn_locking _) fun _ => .ite (inTurn_emit _) (.bind (inTurn_volatile _) fun _ => .ite
    (.bind (inTurn_setFileCursor _ _ huser) fun _ => inTurn_emit _) (inTurn_emit _))

theorem inTurn_fileSeek (fd : ℤ) (offset : ℕ) (whence : Whence) (huser : client.userId ≠ 0) :
    InTurn R (fileSeek R fd offset whence client) := by
  have hlast : InTurn R (do
      emit (.told client (.seekResult ((← get).volatile.getFileCursor (fdKey fd)))) : Barista PUnit) :=
    .read (fun _ _ => rfl) fun _ => inTurn_emit _
  have hmove : InTurn R (do
      let cursor := (← get).volatile.getFileCursor (fdKey fd)
      if cursor ≥ 0 then
        let _ ← setFileCursor R fd (cursor + offset) client
      emit (.told client (.seekResult ((← get).volatile.getFileCursor (fdKey fd)))) :
        Barista PUnit) :=
    .read (fun _ _ => rfl) fun _ => .ite (.bind (inTurn_setFileCursor _ _ huser) fun _ => hlast) hlast
  refine .ite (.bind (inTurn_setFileCursor _ _ huser) fun _ => hlast) ?_
  exact .ite (.bind (inTurn_setFileCursor _ _ huser) fun _ => hmove) hmove

/-- Code that goes on with the time of day. -/
theorem inTurnAt_clock {f : Timeval → Barista α} (hw : Unheld w)
    (h : InTurnAt R (f (R.gettimeofday w)) w) :
    InTurnAt R (do f (R.gettimeofday (← get))) w := by
  have hclock : InTurnAt R (do return R.gettimeofday (← get)) w := by
    refine ⟨.admitted .clock, fun _ _ hok => ?_⟩
    cases hok
    exact hw
  refine OrderlyAt.bind (f := f) hclock fun time w' hok _ => ?_
  cases hok
  exact h

/-- `open_file`, which gives out a file id. -/
theorem inTurnAt_openFile {path : String} {flags : ℕ} (hw : Unheld w) (huser : client.userId ≠ 0)
    (hid : Creates w (.openFile path flags client) → w.persistent.newFileId ≠ refusedFileId) :
    InTurnAt R (openFile R path flags client) w := by
  have hopen : ∀ f size, InTurn R (openFileId R f size flags client) := fun _ _ =>
    inTurn_openFileId _ _ _ huser
  refine .bind (inTurn_decafsFileSstat path huser w hw) fun stat w' hok hw' => ?_
  have hsame : wp (decafsFileSstat path client) (fun _ w' => w' = w) (fun _ => True) w := by
    rw [wp_decafsFileSstat hw.unlocked, if_neg huser]
  obtain rfl : w' = w := hsame.of_ok hok
  cases stat with
  | ok stat => exact hopen _ _ w' hw'
  | error e =>
    dsimp only
    split
    · exact hopen _ _ w' hw'
    · split
      · rename_i hwrites
        refine .read (fun _ _ => rfl) ?_
        refine inTurnAt_clock (f := fun time => do
          openFileId R (toUInt32 (← addFile path w'.volatile.stripeSize w'.volatile.chunkSize
            w'.volatile.chunkSize.val time client)).toNat R.indeterminate flags client) hw' ?_
        exact .bind (inTurnAt_addFile _ _ _ _ hw' huser fun hnew hshort => hid ⟨hwrites, hnew, hshort⟩)
          fun f w₂ _ hw₂ => hopen _ _ w₂ hw₂
      · exact inTurn_emit _ w' hw'

/-! ### Runs -/

/-- The message is from no client, or from one with a user id. -/
def Named : Input → Prop
  | .openFile _ _ client => client.userId ≠ 0
  | .readFile _ _ client _ => client.userId ≠ 0
  | .writeFile _ _ _ client _ => client.userId ≠ 0
  | .closeFile _ client => client.userId ≠ 0
  | .deleteFile _ client _ => client.userId ≠ 0
  | .fileSeek _ _ _ client => client.userId ≠ 0
  | .response _ => True
  | .nodeUp _ => True
  | .nodeDown _ => True

/-- The message creates a file, whose id reads as `NO_METADATA_LOCK`. -/
def CreatesRefused (w : World) (i : Input) : Prop :=
  Creates w i ∧ w.persistent.newFileId = refusedFileId

theorem inTurnAt_handle {i : Input} (hw : Unheld w) (hnamed : Named i) (hid : ¬ CreatesRefused w i) :
    InTurnAt R (handle R i) w := by
  have hscript : ∀ script (m : Barista PUnit), InTurn R m → InTurn R (scripted script m) :=
    fun _ _ hm => .bind (inTurn_network _) fun _ => hm
  cases i with
  | openFile path flags client =>
    exact inTurnAt_openFile hw hnamed fun hcreates hrefused => hid ⟨hcreates, hrefused⟩
  | readFile fd count client script => exact hscript _ _ (inTurn_readFile _ _ hnamed) w hw
  | writeFile fd buf count client script => exact hscript _ _ (inTurn_writeFile _ _ _ hnamed) w hw
  | deleteFile path client script => exact hscript _ _ (inTurn_deleteFile _ hnamed) w hw
  | closeFile fd client =>
    exact Orderly.bind (inTurn_volatile _) (fun _ => .ite (.bind (inTurn_locking _) fun _ =>
      inTurn_emit _) (inTurn_emit _)) w hw
  | fileSeek fd offset whence client => exact inTurn_fileSeek fd offset whence hnamed w hw
  | response d => exact inTurn_receive d w hw
  | nodeUp node => exact Orderly.bind (inTurn_volatile _) (fun _ => orderly_pure _) w hw
  | nodeDown node => exact Orderly.bind (inTurn_volatile _) (fun _ => orderly_pure _) w hw

theorem Started.unheld (h : Started w) : Unheld w where
  unlocked := h.metaLock
  named id info hl := by simp [h.requests] at hl

/-- **The run lemma.** -/
theorem Unheld.run {w' : World} {is : List Input} (h : Unheld w)
    (hrun : Steps (Guarded (fun w i => Named i ∧ ¬ CreatesRefused w i) (step R)) w is w') :
    Unheld w' :=
  hrun.invariant (fun _ _ _ hs hstep =>
    (inTurnAt_handle hs hstep.1.1 hstep.1.2).kept _ _ hstep.2) h

end

/-! ### The file id that reads as a refusal -/

/-- The tables with one file. -/
def PersistentMetadata.only (info : PersistentMetadataInfo) : PersistentMetadata where
  pathnameToFileId := (∅ : Finmap fun _ : String => ℕ).insert info.pathname info.fileId
  metadata := (∅ : Finmap fun _ : ℕ => PersistentMetadataInfo).insert info.fileId info

namespace PersistentMetadata

variable {info : PersistentMetadataInfo}

theorem lookup_metadata_only {f : ℕ} {info' : PersistentMetadataInfo}
    (h : (only info).metadata.lookup f = some info') : f = info.fileId ∧ info' = info := by
  rcases eq_or_ne f info.fileId with rfl | hne
  · exact ⟨rfl, (Option.some.inj ((Finmap.lookup_insert _).symm.trans h)).symm⟩
  · rw [only, Finmap.lookup_insert_of_ne _ hne] at h
    exact absurd h (by simp)

theorem lookup_pathname_only {path : String} {f : ℕ}
    (h : (only info).pathnameToFileId.lookup path = some f) :
    path = info.pathname ∧ f = info.fileId := by
  rcases eq_or_ne path info.pathname with rfl | hne
  · exact ⟨rfl, (Option.some.inj ((Finmap.lookup_insert _).symm.trans h)).symm⟩
  · rw [only, Finmap.lookup_insert_of_ne _ hne] at h
    exact absurd h (by simp)

theorem lastFileId_only : (only info).lastFileId = info.fileId := by
  have hkeys : (only info).metadata.keys = {info.fileId} := by
    ext f
    rw [Finmap.mem_keys, only, Finmap.mem_insert, Finset.mem_singleton]
    exact or_iff_left Finmap.notMem_empty
  have hnone : (only info).nextFileId = idNotSet := rfl
  rw [lastFileId, if_pos hnone, hkeys, Finset.sup_singleton]
  rfl

theorem consistent_only : (only info).Consistent where
  fileId_eq f info' hl := by
    obtain ⟨rfl, rfl⟩ := lookup_metadata_only hl
    rfl
  named path f hl := by
    obtain ⟨rfl, rfl⟩ := lookup_pathname_only hl
    exact ⟨info, Finmap.lookup_insert _, rfl⟩
  le_lastFileId f hf := by
    obtain ⟨info', hinfo'⟩ := Finmap.mem_iff.mp hf
    rw [lastFileId_only]
    exact (lookup_metadata_only hinfo').1.le

end PersistentMetadata

/-- A file that a call is about to create: `add_file` is called. -/
theorem openFile_of_creates {R : Runtime} {w : World} {path : String} {flags : ℕ} {client : Client}
    (hlock : w.metaLock = none) (huser : client.userId ≠ 0)
    (hcreates : Creates w (.openFile path flags client)) :
    openFile R path flags client w = (do
      let fileId ← addFile path w.volatile.stripeSize w.volatile.chunkSize w.volatile.chunkSize.val
        (R.gettimeofday w) client
      openFileId R (toUInt32 fileId).toNat R.indeterminate flags client : Barista PUnit) w := by
  have hstat : decafsFileSstat path client w = .ok (.error fileNotFound, w) := by
    refine eq_ok_iff_wp.mpr ((wp_decafsFileSstat hlock).mpr ?_)
    rw [if_neg huser, Finmap.lookup_eq_none.mpr hcreates.2.1]
    exact ⟨rfl, rfl⟩
  rw [openFile, bind_of_ok hstat]
  simp only [ne_eq, not_true_eq_false, if_false, hcreates.1]
  rfl

/-- A server that finds a file whose id is the last before `refusedFileId`. -/
def sampleCrowded : World :=
  { sampleServer with
    persistent := .only ⟨4294967291, 0, sampleServer.volatile.stripeSize,
      sampleServer.volatile.chunkSize, 0, "a", {}⟩ }

theorem started_sampleCrowded : Started sampleCrowded :=
  { started_sampleServer with persistent := PersistentMetadata.consistent_only }

theorem newFileId_sampleCrowded : sampleCrowded.persistent.newFileId = refusedFileId := by
  have hlast : sampleCrowded.persistent.lastFileId = 4294967291 := PersistentMetadata.lastFileId_only
  rw [PersistentMetadata.newFileId_eq (by rw [hlast]; decide), hlast]
  rfl

theorem creates_sampleCrowded : Creates sampleCrowded (.openFile "b" oRdwr (sampleClient 1)) := by
  refine ⟨by decide, fun hmem => ?_, by decide⟩
  obtain ⟨f, hf⟩ := Finmap.mem_iff.mp hmem
  exact absurd (PersistentMetadata.lookup_pathname_only hf).1 (by decide)

end DecaFS
