import DecaFS.BaristaCore.Files
import DecaFS.BaristaCore.Loops
import DecaFS.BaristaCore.Runs

/-!
# What the messages do to the lock table

The lock table changes in the calls of the locking strategy only, so an invariant that these keep is
kept by every message (`step_locks`), however many ids the run has given out. One such is that a record
nobody owns has no shared holders. Together with the free metadata lock this is what a call finds in
every state of a run (`Rested`).
-/

namespace DecaFS

open Code Barista FileLocks

/-- No record without an owner has shared holders. -/
def FileLocks.Clear (locks : FileLocks) : Prop :=
  ∀ f, (locks.record f).ownerUid = 0 → (locks.record f).shProcs = ∅

/-- No call is under way. -/
structure Rested (w : World) : Prop where
  unlocked : w.metaLock = none
  clear : w.fileLocks.Clear

/-- The calls of the locking strategy that change the table keep `K`. -/
structure LockKept (K : FileLocks → Prop) : Prop where
  exclusive : ∀ client f, (getExclusiveLock client f).Keeps K
  shared : ∀ client f, (getSharedLock client f).Keeps K
  release : ∀ client f, (releaseLock client f).Keeps K

/-- Whoever releases a lock keeps `K`. -/
def ReleaseKept (K : FileLocks → Prop) : Prop := ∀ client f, (releaseLock client f).Keeps K

/-- The calls with which `client` takes a lock keep `K`. -/
structure LockKeptFor (client : Client) (K : FileLocks → Prop) : Prop where
  exclusive : ∀ f, (getExclusiveLock client f).Keeps K
  shared : ∀ f, (getSharedLock client f).Keeps K

/-- The client whose call takes a lock. -/
def Barista.Input.taker : Input → Option Client
  | .openFile _ _ client | .deleteFile _ client _ => some client
  | _ => none

section

variable {R : Runtime} {K : FileLocks → Prop} {α : Type} {w w' : World} {i : Input} {is : List Input}
  {client : Client}

/-- The lock table is as `K` says. -/
def Locked (K : FileLocks → Prop) (w : World) : Prop := K w.fileLocks

theorem keeps_locking_locked {m : Code (Halt Site) FileLocks α} (h : m.Keeps K) :
    (locking m).Keeps (Locked K) :=
  h.zoom (fun _ hw => hw) fun _ _ _ ht => ht

theorem keeps_network_locked (m : Code (Halt Site) Network α) : (network m).Keeps (Locked K) :=
  keeps_zoom fun _ _ hw => hw

theorem keeps_requests_locked (m : Code (Halt Site) Requests α) : (requests m).Keeps (Locked K) :=
  keeps_zoom fun _ _ hw => hw

theorem keeps_chunks_locked (m : Code (Halt Site) ChunkMaps α) : (chunks m).Keeps (Locked K) :=
  keeps_zoom fun _ _ hw => hw

theorem keeps_volatile_locked (m : Code (Halt Site) VolatileMetadata α) :
    (volatile m).Keeps (Locked K) :=
  keeps_zoom fun _ _ hw => hw

theorem keeps_emit_locked (e : Event) : (emit e).Keeps (Locked K) := keeps_network_locked _

theorem keeps_withMetadataLock_locked (client : Client) (refused : α)
    (m : Code (Halt Site) PersistentMetadata α) :
    (withMetadataLock client refused m).Keeps (Locked K) := by
  have hget : (getMetadataLock client).Keeps (Locked K) :=
    .bind (keeps_assert _ _) fun _ => .bind keeps_get fun _ =>
      .ite (.bind (keeps_modify fun _ hw => hw) fun _ => keeps_pure _) (keeps_pure _)
  have hrelease : (releaseMetadataLock client).Keeps (Locked K) :=
    .bind (keeps_assert _ _) fun _ => .bind keeps_get fun _ =>
      .ite (.bind (keeps_modify fun _ hw => hw) fun _ => keeps_pure _) (keeps_pure _)
  exact .bind hget fun _ => .ite (keeps_pure _)
    (.bind (keeps_zoom fun _ _ hw => hw) fun _ => .bind hrelease fun _ => keeps_pure _)

theorem keeps_setFileCursor_locked (fd offset : ℤ) (client : Client) :
    (setFileCursor R fd offset client).Keeps (Locked K) := by
  refine .bind keeps_get fun w => ?_
  cases w.volatile.fileCursors.lookup (fdKey fd) with
  | none => exact keeps_pure _
  | some file =>
    exact .ite (.bind (keeps_withMetadataLock_locked _ _ _) fun _ =>
      .bind (keeps_volatile_locked _) fun _ => keeps_pure _) (keeps_pure _)

/-! ### Responses -/

theorem keeps_checkReadComplete_locked (id : ℕ) : (checkReadComplete id).Keeps (Locked K) :=
  .bind keeps_get fun _ => .bind (keeps_assert _ _) fun _ => .bind keeps_get fun _ =>
    .ite (keeps_pure _)
      (.ite (.bind (keeps_emit_locked _) fun _ => keeps_requests_locked _) (keeps_pure _))

theorem keeps_checkWriteComplete_locked (id : ℕ) : (checkWriteComplete id).Keeps (Locked K) :=
  .bind keeps_get fun _ => .bind (keeps_assert _ _) fun _ => .bind keeps_get fun _ =>
    .bind keeps_get fun _ => .ite (keeps_pure _)
      (.ite (.bind (keeps_emit_locked _) fun _ => keeps_requests_locked _) (keeps_pure _))

theorem keeps_checkDeleteComplete_locked (h : ReleaseKept K) (id : ℕ) :
    (checkDeleteComplete id).Keeps (Locked K) := by
  have hrest : ∀ request : RequestInfo, (do
      let _ ← locking (releaseLock request.client request.fileId)
      requests (modify fun r => r.eraseDelete id) : Barista PUnit).Keeps (Locked K) :=
    fun _ => .bind (keeps_locking_locked (h _ _)) fun _ => keeps_requests_locked _
  refine .bind keeps_get fun _ => .bind (keeps_assert _ _) fun _ => .bind keeps_get fun _ =>
    .ite (keeps_pure _) (.ite ?_ (keeps_pure _))
  refine .bind (keeps_emit_locked _) fun _ => .bind (keeps_withMetadataLock_locked _ _ _) fun _ => ?_
  exact .ite (.bind (keeps_throw _) fun _ => hrest _) (hrest _)

theorem keeps_receive_locked (h : ReleaseKept K) (d : Delivery) : (receive R d).Keeps (Locked K) := by
  refine .bind keeps_get fun w => ?_
  cases w.network.inFlight[d.index]? with
  | none => exact keeps_pure _
  | some r =>
    refine .bind (keeps_network_locked _) fun _ => ?_
    cases r.flag with
    | readChunk =>
      exact .bind keeps_get fun _ => .bind (keeps_assert _ _) fun _ =>
        .bind (keeps_requests_locked _) fun _ => keeps_checkReadComplete_locked _
    | writeChunk =>
      exact .bind keeps_get fun _ => .bind (keeps_assert _ _) fun _ =>
        .bind (keeps_requests_locked _) fun _ => keeps_checkWriteComplete_locked _
    | deleteChunk =>
      exact .bind keeps_get fun _ => .bind (keeps_assert _ _) fun _ =>
        .bind (keeps_requests_locked _) fun _ => keeps_checkDeleteComplete_locked h _

theorem keeps_receiveAll_locked (h : ReleaseKept K) :
    ∀ ds : List Delivery, (receiveAll R ds).Keeps (Locked K)
  | [] => keeps_pure _
  | d :: ds => .bind (keeps_receive_locked h d) fun _ => keeps_receiveAll_locked h ds

/-! ### Stripes -/

theorem keeps_sendToEspresso_locked (h : ReleaseKept K) (node : ℤ) (r : ChunkRequest) :
    (sendToEspresso R node r).Keeps (Locked K) := by
  refine .bind keeps_get fun w => ?_
  cases w.network.script with
  | nil => exact keeps_throw _
  | cons outcome script =>
    exact .ite
      (.bind (keeps_network_locked _) fun _ => .bind (keeps_receiveAll_locked h _) fun _ => keeps_pure _)
      (.bind (keeps_network_locked _) fun _ => .bind (keeps_receiveAll_locked h _) fun _ => keeps_pure _)

theorem stripeLoops_locked (h : ReleaseKept K) : StripeLoops R (Locked K) where
  stripe _ _ _ _ _ := keeps_emit_locked _
  compared _ _ _ _ := keeps_emit_locked _
  writeNodes := keeps_writeNodes fun _ => keeps_chunks_locked _
  eraseNode _ := keeps_chunks_locked _
  eraseReplica _ := keeps_chunks_locked _
  setNodeDown _ := keeps_volatile_locked _
  send := keeps_sendToEspresso_locked h
  setFileCursor := keeps_setFileCursor_locked
  updateFileSize _ _ _ := keeps_withMetadataLock_locked _ _ _

/-! ### Calls -/

theorem keeps_hasExclusiveLock (client : Client) (f : ℕ) : (hasExclusiveLock client f).Keeps K :=
  fun _ hK => wp_hasExclusiveLock_record (fun _ => trivial) fun _ _ _ => hK

theorem keeps_hasSharedLock (client : Client) (f : ℕ) : (hasSharedLock client f).Keeps K :=
  fun _ hK => wp_hasSharedLock_record (fun _ => trivial) fun _ _ _ => hK

theorem keeps_readFile_locked (h : ReleaseKept K) (fd count : ℤ) (client : Client) :
    (readFile R fd count client).Keeps (Locked K) := by
  have hdispatch : ∀ id f stat (offset : ℤ),
      (dispatchRead R id fd f stat offset count client).Keeps (Locked K) := fun _ _ _ _ =>
    .bind (keeps_requests_locked _) fun _ => .bind (keeps_emit_locked _) fun _ =>
      .bind ((stripeLoops_locked h).readStripes _ _ _ _ _ _ _ _ _ _ _) fun _ => .bind keeps_get fun _ =>
        .bind (keeps_assert _ _) fun _ => .bind (keeps_requests_locked _) fun _ =>
          keeps_checkReadComplete_locked _
  have hmay : ∀ f, (mayRead client f).Keeps (Locked K) := fun _ =>
    .bind (keeps_locking_locked (keeps_hasExclusiveLock _ _)) fun _ =>
      .ite (.bind (keeps_locking_locked (keeps_hasSharedLock _ _)) fun _ => keeps_pure _) (keeps_pure _)
  refine .bind (keeps_volatile_locked _) fun id => .bind (keeps_assert _ _) fun _ =>
    .bind keeps_get fun _ => .bind (hmay _) fun _ => .ite (keeps_emit_locked _) ?_
  refine .bind (keeps_withMetadataLock_locked _ _ _) fun stat => ?_
  cases stat with
  | error e => exact keeps_emit_locked _
  | ok stat =>
    exact .bind keeps_get fun _ => .ite (keeps_emit_locked _)
      (.ite (keeps_emit_locked _) (hdispatch _ _ _ _))

theorem keeps_writeFile_locked (h : ReleaseKept K) (fd : ℤ) (buf : List UInt8) (count : ℤ)
    (client : Client) : (writeFile R fd buf count client).Keeps (Locked K) := by
  have hdispatch : ∀ q f stat (offset : ℤ),
      (dispatchWrite R q fd f stat offset buf count client).Keeps (Locked K) := fun _ _ _ _ =>
    .bind (keeps_requests_locked _) fun _ => .bind (keeps_emit_locked _) fun _ =>
      .bind ((stripeLoops_locked h).writeStripes _ _ _ _ _ _ _ _ _ _ _ _) fun _ => .bind keeps_get fun _ =>
        .bind (keeps_assert _ _) fun _ => .bind (keeps_requests_locked _) fun _ =>
          keeps_checkWriteComplete_locked _
  refine .bind (keeps_volatile_locked _) fun id => .bind (keeps_volatile_locked _) fun id' =>
    .bind (keeps_assert _ _) fun _ => .bind keeps_get fun _ =>
      .bind (keeps_locking_locked (keeps_hasExclusiveLock _ _)) fun _ => .ite (keeps_emit_locked _) ?_
  refine .bind (keeps_withMetadataLock_locked _ _ _) fun stat => ?_
  cases stat with
  | error e => exact keeps_emit_locked _
  | ok stat =>
    exact .bind keeps_get fun _ => .ite (keeps_emit_locked _)
      (.ite (keeps_emit_locked _) (hdispatch _ _ _ _))

theorem keeps_deleteFile_locked (h : ReleaseKept K) (htake : LockKeptFor client K) (path : String) :
    (deleteFile R path client).Keeps (Locked K) := by
  have hdispatch : ∀ id f, (dispatchDelete R id f client).Keeps (Locked K) := fun _ _ =>
    .bind (keeps_requests_locked _) fun _ => .bind (keeps_emit_locked _) fun _ =>
      .bind ((stripeLoops_locked h).processDeleteFile _ _) fun _ => .bind keeps_get fun _ =>
        .bind (keeps_assert _ _) fun _ => .bind (keeps_requests_locked _) fun _ =>
          keeps_checkDeleteComplete_locked h _
  refine .bind (keeps_volatile_locked _) fun id => .bind (keeps_withMetadataLock_locked _ _ _) fun stat => ?_
  cases stat with
  | error e => exact keeps_emit_locked _
  | ok stat =>
    exact .bind (keeps_locking_locked (htake.exclusive _)) fun _ =>
      .ite (keeps_emit_locked _) (hdispatch _ _)

theorem keeps_openFile_locked (htake : LockKeptFor client K) (path : String) (flags : ℕ) :
    (openFile R path flags client).Keeps (Locked K) := by
  have hopen : ∀ f size, (openFileId R f size flags client).Keeps (Locked K) := by
    intro f size
    have hlock : (if flags &&& oRdwr ≠ 0 then getExclusiveLock client f
        else getSharedLock client f).Keeps K := .ite (htake.exclusive _) (htake.shared _)
    refine .bind (keeps_locking_locked hlock) fun _ => .ite (keeps_emit_locked _) ?_
    exact .bind (keeps_volatile_locked _) fun _ => .ite
      (.bind (keeps_setFileCursor_locked _ _ _) fun _ => keeps_emit_locked _) (keeps_emit_locked _)
  refine .bind (keeps_withMetadataLock_locked _ _ _) fun stat => ?_
  cases stat with
  | ok stat => exact hopen _ _
  | error e =>
    exact .ite (hopen _ _) (.ite (.bind keeps_get fun _ => .bind keeps_get fun _ =>
      .bind (keeps_withMetadataLock_locked _ _ _) fun _ => hopen _ _) (keeps_emit_locked _))

theorem keeps_fileSeek_locked (fd : ℤ) (offset : ℕ) (whence : Whence) (client : Client) :
    (fileSeek R fd offset whence client).Keeps (Locked K) := by
  have hlast : (do emit (.told client (.seekResult ((← get).volatile.getFileCursor (fdKey fd)))) :
      Barista PUnit).Keeps (Locked K) := .bind keeps_get fun _ => keeps_emit_locked _
  have hmove : (do
      let cursor := (← get).volatile.getFileCursor (fdKey fd)
      if cursor ≥ 0 then
        let _ ← setFileCursor R fd (cursor + offset) client
      emit (.told client (.seekResult ((← get).volatile.getFileCursor (fdKey fd)))) :
        Barista PUnit).Keeps (Locked K) :=
    .bind keeps_get fun _ => .ite (.bind (keeps_setFileCursor_locked _ _ _) fun _ => hlast) hlast
  refine .ite (.bind (keeps_setFileCursor_locked _ _ _) fun _ => hlast) ?_
  exact .ite (.bind (keeps_setFileCursor_locked _ _ _) fun _ => hmove) hmove

/-- **The step lemma**: a message changes the lock table through the locking strategy only, and takes
locks for the client that it is from. -/
theorem step_locks_taken (h : ReleaseKept K) (htake : ∀ client, i.taker = some client → LockKeptFor client K)
    (hw : K w.fileLocks) (hstep : step R w i w') : K w'.fileLocks := by
  have hscript : ∀ script (m : Barista PUnit), m.Keeps (Locked K) →
      (scripted script m).Keeps (Locked K) := fun _ _ hm => .bind (keeps_network_locked _) fun _ => hm
  have hhandle : (handle R i).Keeps (Locked K) := by
    cases i with
    | openFile path flags client => exact keeps_openFile_locked (htake client rfl) path flags
    | readFile fd count client script => exact hscript _ _ (keeps_readFile_locked h _ _ _)
    | writeFile fd buf count client script => exact hscript _ _ (keeps_writeFile_locked h _ _ _ _)
    | deleteFile path client script => exact hscript _ _ (keeps_deleteFile_locked h (htake client rfl) _)
    | closeFile fd client =>
      exact .bind (keeps_volatile_locked _) fun _ => .ite
        (.bind (keeps_locking_locked (h _ _)) fun _ => keeps_emit_locked _) (keeps_emit_locked _)
    | fileSeek fd offset whence client => exact keeps_fileSeek_locked fd offset whence client
    | response d => exact keeps_receive_locked h d
    | nodeUp node => exact .bind (keeps_volatile_locked _) fun _ => keeps_pure _
    | nodeDown node => exact .bind (keeps_volatile_locked _) fun _ => keeps_pure _
  exact hhandle.of_ok hstep hw

theorem step_locks (h : LockKept K) (hw : K w.fileLocks) (hstep : step R w i w') : K w'.fileLocks :=
  step_locks_taken h.release (fun client _ => ⟨h.exclusive client, h.shared client⟩) hw hstep

/-! ### Records without an owner -/

theorem FileLocks.Clear.update {locks locks' : FileLocks} {f : ℕ} {l : FileLock} (h : locks.Clear)
    (hlocks : locks'.record = Function.update locks.record f l) (hl : l.ownerUid = 0 → l.shProcs = ∅) :
    locks'.Clear :=
  Custody.clear_update (s := ⟨fun _ => none, locks.record, ∅, fun _ => none⟩) h hlocks hl

theorem lockKept_clear : LockKept FileLocks.Clear where
  exclusive client f locks h := by
    refine wp_getExclusiveLock_record (fun _ => trivial) (fun _ => ?_) fun h₀ _ t ht => ?_
    · exact h
    · exact h.update ht fun hzero => absurd hzero h₀
  shared client f locks h := by
    refine wp_getSharedLock_record (fun _ => trivial) (h f) (fun _ => ?_) fun h₀ _ _ t ht => ?_
    · exact h
    · exact h.update ht fun hzero => absurd hzero h₀
  release client f locks h :=
    wp_releaseLock_record (fun _ => trivial) fun _ _ _ ht => h.update ht (Custody.clear_released (h f))

/-! ### Between the messages -/

theorem Rested.step (h : Rested w) (hstep : Barista.step R w i w') : Rested w' := by
  refine ⟨?_, step_locks lockKept_clear h.clear hstep⟩
  by_cases hopen : ∃ path flags client, i = .openFile path flags client
  · obtain ⟨path, flags, client, rfl⟩ := hopen
    exact (step_openFile_filing h.unlocked hstep).1
  · push Not at hopen
    have hfiling : Filing (fun _ => True) w := ⟨h.unlocked, trivial⟩
    exact (step_filing (fun _ _ h => h) (fun _ _ _ h => h) hfiling hopen hstep).1

theorem Started.rested (h : Started w) : Rested w := by
  refine ⟨h.metaLock, fun f _ => ?_⟩
  simp [h.fileLocks, record]

/-- **The run lemma.** -/
theorem Rested.run (h : Rested w) (hrun : Steps (Barista.step R) w is w') : Rested w' :=
  hrun.invariant (fun _ _ _ hs hstep => hs.step hstep) h

end

end DecaFS
