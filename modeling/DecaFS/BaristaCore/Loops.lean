import DecaFS.BaristaCore.Calls
import DecaFS.ForMathlib.Keeps

/-!
# Invariants through the loops and the calls

The loops of `process_read_stripe`, `process_write_stripe` and `process_delete_file`, and those of
`read_file` and `write_file` around them, are made of few parts: sends, which is where responses come in,
the chunk maps, the nodes that go down, and the cursor and the size of the file. What these parts keep,
the loops keep (`ChunkLoops`, `StripeLoops`), and the calls keep what their other parts keep as well
(`CallParts`).
-/

namespace DecaFS

open Code Barista

/-- The parts of the loops over chunks keep `I`. -/
structure ChunkLoops (R : Runtime) (I : World → Prop) : Prop where
  stripe : ∀ flag stripeId stripeSize offset count,
    (emit (.stripe flag stripeId stripeSize offset count)).Keeps I
  compared : ∀ count done size offset, (emit (.compared count done size offset)).Keeps I
  writeNodes : ∀ chunk, (writeNodes R chunk).Keeps I
  eraseNode : ∀ chunk, (chunks (modify fun m =>
    { m with chunkToNode := R.search.erase chunk m.chunkToNode })).Keeps I
  eraseReplica : ∀ chunk, (chunks (modify fun m =>
    { m with chunkToReplicaNode := R.search.erase chunk m.chunkToReplicaNode })).Keeps I
  setNodeDown : ∀ node, (volatile (VolatileMetadata.setNodeDown node)).Keeps I
  send : ∀ node r, (sendToEspresso R node r).Keeps I

/-- The parts of the loops over stripes keep `I`. -/
structure StripeLoops (R : Runtime) (I : World → Prop) : Prop extends ChunkLoops R I where
  setFileCursor : ∀ fd offset client, (setFileCursor R fd offset client).Keeps I
  updateFileSize : ∀ fileId delta client, (updateFileSize fileId delta client).Keeps I

variable {R : Runtime} {I : World → Prop}

/-- Code on the chunk maps of which `I` says nothing. -/
theorem keeps_writeNodes (h : ∀ f : ChunkMaps → ChunkMaps, (chunks (modify f)).Keeps I)
    (chunk : FileChunk) : (writeNodes R chunk).Keeps I :=
  .bind keeps_get fun _ => .bind (h _) fun _ => .bind (h _) fun _ => .bind keeps_get fun _ => keeps_pure _

theorem keeps_assert (site : Site) (c : Bool) : (DecaFS.assert site c : Barista PUnit).Keeps I :=
  .ite (keeps_pure _) (keeps_throw _)

namespace ChunkLoops

theorem readNode (chunk : FileChunk) : (Barista.readNode R chunk).Keeps I :=
  .bind keeps_get fun _ => .ite (keeps_pure _) (.bind (keeps_assert _ _) fun _ => keeps_pure _)

theorem readChunks (h : ChunkLoops R I) (id fileId stripeId chunkSize : ℕ) (count : ℤ) :
    ∀ (fuel chunkId : ℕ) (chunkOffset bytesRead : ℤ) (numChunks : ℕ), (Barista.readChunks R id fileId
      stripeId chunkSize count fuel chunkId chunkOffset bytesRead numChunks).Keeps I
  | 0, _, _, _, _ => keeps_throw _
  | fuel + 1, _, _, _, _ => .ite
    (.bind keeps_get fun _ => .ite (.bind (readNode _) fun node => .bind (h.compared _ _ _ _) fun _ =>
      .bind (h.send node _) fun _ => .ite
        (.bind (h.setNodeDown _) fun _ => h.readChunks id fileId stripeId chunkSize count fuel _ _ _ _)
        (h.readChunks id fileId stripeId chunkSize count fuel _ _ _ _)) (keeps_pure _))
    (keeps_pure _)

theorem processReadStripe (h : ChunkLoops R I) (id fileId stripeId stripeSize chunkSize : ℕ)
    (offset count : ℤ) :
    (Barista.processReadStripe R id fileId stripeId stripeSize chunkSize offset count).Keeps I :=
  .bind (h.stripe _ _ _ _ _) fun _ => .bind (keeps_assert _ _) fun _ => .bind keeps_get fun _ =>
    h.readChunks _ _ _ _ _ _ _ _ _ _

theorem writeReplica (h : ChunkLoops R I) (id : ℕ) (chunk : FileChunk) (node offset : ℤ)
    (buf : List UInt8) (n : ℤ) : (Barista.writeReplica R id chunk node offset buf n).Keeps I :=
  .bind (h.send _ _) fun _ => .ite (.bind (h.setNodeDown _) fun _ => .bind keeps_get fun _ =>
    .bind (h.send _ _) fun _ => keeps_pure _) (keeps_pure _)

theorem writeChunks (h : ChunkLoops R I) (q : WriteRequest) (fileId stripeId chunkSize : ℕ)
    (buf : List UInt8) (count : ℤ) : ∀ (fuel chunkId : ℕ) (chunkOffset bytesWritten : ℤ)
      (written : ℕ × ℕ), (Barista.writeChunks R q fileId stripeId chunkSize buf count fuel chunkId
        chunkOffset bytesWritten written).Keeps I
  | 0, _, _, _, _ => keeps_throw _
  | fuel + 1, _, _, _, _ => .ite
    (.bind (h.writeNodes _) fun nodes => .bind (h.compared _ _ _ _) fun _ =>
      .bind (h.send nodes.1 _) fun _ => .ite
        (.bind (h.setNodeDown _) fun _ => h.writeChunks q fileId stripeId chunkSize buf count fuel _ _ _ _)
        (.bind (h.writeReplica _ _ _ _ _ _) fun _ =>
          h.writeChunks q fileId stripeId chunkSize buf count fuel _ _ _ _))
    (keeps_pure _)

theorem processWriteStripe (h : ChunkLoops R I) (q : WriteRequest)
    (fileId stripeId stripeSize chunkSize : ℕ) (buf : List UInt8) (offset count : ℤ) :
    (Barista.processWriteStripe R q fileId stripeId stripeSize chunkSize buf offset count).Keeps I :=
  .bind (h.stripe _ _ _ _ _) fun _ => .bind (keeps_assert _ _) fun _ => .bind keeps_get fun _ =>
    h.writeChunks _ _ _ _ _ _ _ _ _ _ _

theorem deleteCopy (h : ChunkLoops R I) {copies : ChunkMaps → List (FileChunk × ℤ)}
    {put : List (FileChunk × ℤ) → ChunkMaps → ChunkMaps} {chunk : FileChunk}
    (herase : (chunks (modify fun m => put (R.search.erase chunk (copies m)) m)).Keeps I) (id n : ℕ) :
    (Barista.deleteCopy R copies put id chunk n).Keeps I :=
  .bind keeps_get fun _ => .ite (.bind (h.send _ _) fun _ => .bind herase fun _ => keeps_pure _)
    (keeps_pure _)

theorem deleteChunks (h : ChunkLoops R I) (id : ℕ) : ∀ (l : List FileChunk) (n : ℕ),
    (Barista.deleteChunks R id l n).Keeps I
  | [], _ => keeps_pure _
  | chunk :: l, _ => .bind (h.deleteCopy (h.eraseNode chunk) _ _) fun _ =>
    .bind (h.deleteCopy (h.eraseReplica chunk) _ _) fun _ => h.deleteChunks id l _

theorem processDeleteFile (h : ChunkLoops R I) (id fileId : ℕ) :
    (Barista.processDeleteFile R id fileId).Keeps I :=
  .bind keeps_get fun _ => h.deleteChunks _ _ _

end ChunkLoops

namespace StripeLoops

theorem readStripes (h : StripeLoops R I) (id : ℕ) (fd : ℤ) (fileId : ℕ) (stat : DecafsFileStat)
    (count : ℤ) (client : Client) : ∀ (fuel stripeId : ℕ) (offset done : ℤ) (numChunks : ℕ),
      (Barista.readStripes R id fd fileId stat count client fuel stripeId offset done numChunks).Keeps I
  | 0, _, _, _, _ => keeps_throw _
  | fuel + 1, _, _, _, _ => .ite
    (.bind (h.compared _ _ _ _) fun _ => .bind (h.processReadStripe _ _ _ _ _ _ _) fun _ =>
      .bind keeps_get fun _ => .bind (h.setFileCursor _ _ _) fun _ =>
        h.readStripes id fd fileId stat count client fuel _ _ _ _)
    (keeps_pure _)

theorem writeStripes (h : StripeLoops R I) (q : WriteRequest) (fd : ℤ) (fileId : ℕ)
    (stat : DecafsFileStat) (buf : List UInt8) (count : ℤ) (client : Client) :
    ∀ (fuel stripeId : ℕ) (offset done : ℤ) (sent : ℕ × ℕ), (Barista.writeStripes R q fd fileId stat
      buf count client fuel stripeId offset done sent).Keeps I
  | 0, _, _, _, _ => keeps_throw _
  | fuel + 1, _, _, _, _ => .ite
    (.bind (h.compared _ _ _ _) fun _ => .bind (h.processWriteStripe _ _ _ _ _ _ _ _) fun _ =>
      .bind (h.updateFileSize _ _ _) fun _ => .bind keeps_get fun _ =>
        .bind (h.setFileCursor _ _ _) fun _ =>
          h.writeStripes q fd fileId stat buf count client fuel _ _ _ _)
    (keeps_pure _)

end StripeLoops

/-! ### Calls -/

/-- An event that is neither sent nor answered. -/
def Event.isSpoken : Event → Bool
  | .registered _ | .replied .. | .told .. => true
  | _ => false

/-- The outcomes of the sends of a call. -/
def Barista.Input.script : Input → Option (List SendOutcome)
  | .readFile _ _ _ script | .writeFile _ _ _ _ script | .deleteFile _ _ script => some script
  | _ => none

/-- The parts of the calls keep `I`. -/
structure CallParts (R : Runtime) (I : World → Prop) : Prop extends ChunkLoops R I where
  volatile : ∀ {α : Type} (m : Code (Halt Site) VolatileMetadata α), (volatile m).Keeps I
  locking : ∀ {α : Type} (m : Code (Halt Site) FileLocks α), (locking m).Keeps I
  metadata : ∀ {α : Type} (client : Client) (refused : α) (m : Code (Halt Site) PersistentMetadata α),
    (withMetadataLock client refused m).Keeps I
  requests : ∀ f : Requests → Requests, (requests (modify f)).Keeps I
  emit : ∀ e : Event, e.isSpoken = true → (emit e).Keeps I

namespace CallParts

theorem setFileCursor (h : CallParts R I) (fd offset : ℤ) (client : Client) :
    (Barista.setFileCursor R fd offset client).Keeps I := by
  refine .bind keeps_get fun w => ?_
  cases w.volatile.fileCursors.lookup (fdKey fd) with
  | none => exact keeps_pure _
  | some file =>
    exact .ite (.bind (h.metadata _ _ _) fun _ => .bind (h.volatile _) fun _ => keeps_pure _) (keeps_pure _)

theorem stripeLoops (h : CallParts R I) : StripeLoops R I where
  toChunkLoops := h.toChunkLoops
  setFileCursor := h.setFileCursor
  updateFileSize _ _ _ := h.metadata _ _ _

/-! #### Completion -/

theorem checkReadComplete (h : CallParts R I) (id : ℕ) : (Barista.checkReadComplete id).Keeps I :=
  .bind keeps_get fun _ => .bind (keeps_assert _ _) fun _ => .bind keeps_get fun _ =>
    .ite (keeps_pure _) (.ite (.bind (h.emit _ rfl) fun _ => h.requests _) (keeps_pure _))

theorem checkWriteComplete (h : CallParts R I) (id : ℕ) : (Barista.checkWriteComplete id).Keeps I :=
  .bind keeps_get fun _ => .bind (keeps_assert _ _) fun _ => .bind keeps_get fun _ =>
    .bind keeps_get fun _ => .ite (keeps_pure _)
      (.ite (.bind (h.emit _ rfl) fun _ => h.requests _) (keeps_pure _))

theorem checkDeleteComplete (h : CallParts R I) (id : ℕ) : (Barista.checkDeleteComplete id).Keeps I := by
  have hrest : ∀ request : RequestInfo, (do
      let _ ← Barista.locking (releaseLock request.client request.fileId)
      Barista.requests (modify fun r => r.eraseDelete id) : Barista PUnit).Keeps I :=
    fun _ => .bind (h.locking _) fun _ => h.requests _
  refine .bind keeps_get fun _ => .bind (keeps_assert _ _) fun _ => .bind keeps_get fun _ =>
    .ite (keeps_pure _) (.ite ?_ (keeps_pure _))
  refine .bind (h.emit _ rfl) fun _ => .bind (h.metadata _ _ _) fun _ => ?_
  exact .ite (.bind (keeps_throw _) fun _ => hrest _) (hrest _)

theorem readResponseHandler (h : CallParts R I) (id : ℕ) (chunk : FileChunk) (count : ℤ)
    (data : List UInt8) : (Barista.readResponseHandler R id chunk count data).Keeps I :=
  .bind keeps_get fun _ => .bind (keeps_assert _ _) fun _ => .bind (h.requests _) fun _ =>
    h.checkReadComplete _

theorem writeResponseHandler (h : CallParts R I) (id : ℕ) (count : ℤ) :
    (Barista.writeResponseHandler id count).Keeps I :=
  .bind keeps_get fun _ => .bind (keeps_assert _ _) fun _ => .bind (h.requests _) fun _ =>
    h.checkWriteComplete _

theorem deleteResponseHandler (h : CallParts R I) (id : ℕ) :
    (Barista.deleteResponseHandler id).Keeps I :=
  .bind keeps_get fun _ => .bind (keeps_assert _ _) fun _ => .bind (h.requests _) fun _ =>
    h.checkDeleteComplete _

/-- A response, if `I` survives that its packet is answered. -/
theorem receive (h : CallParts R I) {d : Delivery} (hanswer : ∀ r, (network (modify fun n =>
      { n with inFlight := n.inFlight.eraseIdx d.index, log := .answered r d.count d.data :: n.log })).Keeps I) :
    (Barista.receive R d).Keeps I := by
  refine .bind keeps_get fun w => ?_
  cases w.network.inFlight[d.index]? with
  | none => exact keeps_pure _
  | some r =>
    refine .bind (hanswer r) fun _ => ?_
    cases r.flag with
    | readChunk => exact h.readResponseHandler _ _ _ _
    | writeChunk => exact h.writeResponseHandler _ _
    | deleteChunk => exact h.deleteResponseHandler _

/-! #### The core functions -/

theorem readFile (h : CallParts R I) (fd count : ℤ) (client : Client) :
    (Barista.readFile R fd count client).Keeps I := by
  have hdispatch : ∀ id f stat (offset : ℤ), (dispatchRead R id fd f stat offset count client).Keeps I :=
    fun _ _ _ _ => .bind (h.requests _) fun _ => .bind (h.emit _ rfl) fun _ =>
      .bind (h.stripeLoops.readStripes _ _ _ _ _ _ _ _ _ _ _) fun _ => .bind keeps_get fun _ =>
        .bind (keeps_assert _ _) fun _ => .bind (h.requests _) fun _ => h.checkReadComplete _
  have hmay : ∀ f, (mayRead client f).Keeps I := fun _ => .bind (h.locking _) fun _ =>
    .ite (.bind (h.locking _) fun _ => keeps_pure _) (keeps_pure _)
  refine .bind (h.volatile _) fun id => .bind (keeps_assert _ _) fun _ => .bind keeps_get fun _ =>
    .bind (hmay _) fun _ => .ite (h.emit _ rfl) (.bind (h.metadata _ _ _) fun stat => ?_)
  cases stat with
  | error e => exact h.emit _ rfl
  | ok stat =>
    exact .bind keeps_get fun _ => .ite (h.emit _ rfl) (.ite (h.emit _ rfl) (hdispatch _ _ _ _))

theorem writeFile (h : CallParts R I) (fd : ℤ) (buf : List UInt8) (count : ℤ) (client : Client) :
    (Barista.writeFile R fd buf count client).Keeps I := by
  have hdispatch : ∀ q f stat (offset : ℤ), (dispatchWrite R q fd f stat offset buf count client).Keeps I :=
    fun _ _ _ _ => .bind (h.requests _) fun _ => .bind (h.emit _ rfl) fun _ =>
      .bind (h.stripeLoops.writeStripes _ _ _ _ _ _ _ _ _ _ _ _) fun _ => .bind keeps_get fun _ =>
        .bind (keeps_assert _ _) fun _ => .bind (h.requests _) fun _ => h.checkWriteComplete _
  refine .bind (h.volatile _) fun id => .bind (h.volatile _) fun id' => .bind (keeps_assert _ _) fun _ =>
    .bind keeps_get fun _ => .bind (h.locking _) fun _ => .ite (h.emit _ rfl)
      (.bind (h.metadata _ _ _) fun stat => ?_)
  cases stat with
  | error e => exact h.emit _ rfl
  | ok stat =>
    exact .bind keeps_get fun _ => .ite (h.emit _ rfl) (.ite (h.emit _ rfl) (hdispatch _ _ _ _))

theorem deleteFile (h : CallParts R I) (path : String) (client : Client) :
    (Barista.deleteFile R path client).Keeps I := by
  have hdispatch : ∀ id f, (dispatchDelete R id f client).Keeps I := fun _ _ =>
    .bind (h.requests _) fun _ => .bind (h.emit _ rfl) fun _ => .bind (h.processDeleteFile _ _) fun _ =>
      .bind keeps_get fun _ => .bind (keeps_assert _ _) fun _ => .bind (h.requests _) fun _ =>
        h.checkDeleteComplete _
  refine .bind (h.volatile _) fun id => .bind (h.metadata _ _ _) fun stat => ?_
  cases stat with
  | error e => exact h.emit _ rfl
  | ok stat => exact .bind (h.locking _) fun _ => .ite (h.emit _ rfl) (hdispatch _ _)

theorem openFile (h : CallParts R I) (path : String) (flags : ℕ) (client : Client) :
    (Barista.openFile R path flags client).Keeps I := by
  have hopen : ∀ f size, (openFileId R f size flags client).Keeps I := fun _ _ =>
    .bind (h.locking _) fun _ => .ite (h.emit _ rfl) (.bind (h.volatile _) fun _ =>
      .ite (.bind (h.setFileCursor _ _ _) fun _ => h.emit _ rfl) (h.emit _ rfl))
  refine .bind (h.metadata _ _ _) fun stat => ?_
  cases stat with
  | ok stat => exact hopen _ _
  | error e =>
    exact .ite (hopen _ _) (.ite (.bind keeps_get fun _ => .bind keeps_get fun _ =>
      .bind (h.metadata _ _ _) fun _ => hopen _ _) (h.emit _ rfl))

theorem closeFile (h : CallParts R I) (fd : ℤ) (client : Client) :
    (Barista.closeFile fd client).Keeps I :=
  .bind (h.volatile _) fun _ => .ite (.bind (h.locking _) fun _ => h.emit _ rfl) (h.emit _ rfl)

theorem fileSeek (h : CallParts R I) (fd : ℤ) (offset : ℕ) (whence : Whence) (client : Client) :
    (Barista.fileSeek R fd offset whence client).Keeps I := by
  have hlast : (do Barista.emit (.told client (.seekResult ((← get).volatile.getFileCursor (fdKey fd)))) :
      Barista PUnit).Keeps I := .bind keeps_get fun _ => h.emit _ rfl
  have hmove : (do
      let cursor := (← get).volatile.getFileCursor (fdKey fd)
      if cursor ≥ 0 then
        let _ ← Barista.setFileCursor R fd (cursor + offset) client
      Barista.emit (.told client (.seekResult ((← get).volatile.getFileCursor (fdKey fd)))) :
        Barista PUnit).Keeps I :=
    .bind keeps_get fun _ => .ite (.bind (h.setFileCursor _ _ _) fun _ => hlast) hlast
  refine .ite (.bind (h.setFileCursor _ _ _) fun _ => hlast) ?_
  exact .ite (.bind (h.setFileCursor _ _ _) fun _ => hmove) hmove

/-- **Any message.** What is left to show is that `I` survives the script of a call and the answer to a
packet. -/
theorem handle (h : CallParts R I) {i : Input}
    (hscript : ∀ script, i.script = some script →
      (network (modify fun n => { n with script := script })).Keeps I)
    (hresponse : ∀ d, i = .response d → (Barista.receive R d).Keeps I) : (Barista.handle R i).Keeps I := by
  cases i with
  | openFile path flags client => exact h.openFile path flags client
  | readFile fd count client script => exact .bind (hscript script rfl) fun _ => h.readFile _ _ _
  | writeFile fd buf count client script => exact .bind (hscript script rfl) fun _ => h.writeFile _ _ _ _
  | deleteFile path client script => exact .bind (hscript script rfl) fun _ => h.deleteFile _ _
  | closeFile fd client => exact h.closeFile fd client
  | fileSeek fd offset whence client => exact h.fileSeek fd offset whence client
  | response d => exact hresponse d rfl
  | nodeUp node => exact .bind (h.volatile _) fun _ => keeps_pure _
  | nodeDown node => exact .bind (h.volatile _) fun _ => keeps_pure _

end CallParts

end DecaFS
