import DecaFS.BaristaCore.Runs
import DecaFS.ForMathlib.Keeps
import Mathlib.Logic.Relation

/-!
# Packets and results, one at a time

Whatever the server handles, it does one `Exchange` after the other to the request tables, the packets
in flight and the log (`exchanges_of_run`): a packet is sent or answered, a request is registered, gets
the number of responses it expects, and gets its result. What each exchange preserves is preserved in
every run; that no packet is lost or answered twice (`Accounted`) is the first such fact.
-/

namespace DecaFS

open Relation Code Barista

/-- The event is no packet and no result of a numbered request. -/
def Event.isPlain : Event → Bool
  | .sent .. | .answered .. | .replied .. => false
  | _ => true

/-- The entry of a read with one more response. -/
def ReadRequestInfo.heard (R : Runtime) (a : ReadRequestInfo) (chunk : FileChunk) (buf : List UInt8) :
    ReadRequestInfo :=
  { a with
    info := { a.info with chunksReceived := a.info.chunksReceived + 1 }
    responsePackets := R.search.set chunk buf a.responsePackets }

/-- The entry of a write with one more response, to a packet of the primaries or of the replicas. -/
def WriteRequestInfo.heard (a : WriteRequestInfo) (primary : Bool) (count : ℤ) : WriteRequestInfo :=
  if primary then
    { a with
      info := { a.info with chunksReceived := a.info.chunksReceived + 1 }
      count := toInt32 (a.count + count) }
  else
    { a with
      replicaInfo := { a.replicaInfo with chunksReceived := a.replicaInfo.chunksReceived + 1 } }

/-- The request tables, the packets in flight and the log. -/
def traffic (w : World) : Requests × List ChunkRequest × List Event :=
  (w.requests, w.network.inFlight, w.network.log)

/-- One thing that the server does about packets and results. -/
inductive Exchange (R : Runtime) (w w' : World) : Prop
  | idle (h : traffic w' = traffic w)
  | note (e : Event) (plain : e.isPlain = true)
      (h : traffic w' = (w.requests, w.network.inFlight, e :: w.network.log))
  | refuse (op : Operation) (client : Client) (reply : Reply)
      (h : traffic w' = (w.requests, w.network.inFlight, .replied op client reply :: w.network.log))
  | send (node : ℤ) (r : ChunkRequest)
      (h : traffic w' = (w.requests, w.network.inFlight ++ [r], .sent node r :: w.network.log))
  | answerRead (i : ℕ) (r : ChunkRequest) (count : ℤ) (data : List UInt8) (a : ReadRequestInfo)
      (packet : w.network.inFlight[i]? = some r) (flag : r.flag = .readChunk)
      (entry : w.requests.activeReadRequests.lookup r.id = some a)
      (h : traffic w' = (w.requests.setRead r.id (a.heard R r.chunk (readBuffer count data)),
        w.network.inFlight.eraseIdx i, .answered r count data :: w.network.log))
  | answerWrite (i : ℕ) (r : ChunkRequest) (count : ℤ) (data : List UInt8) (q : WriteRequest)
      (a : WriteRequestInfo) (packet : w.network.inFlight[i]? = some r) (flag : r.flag = .writeChunk)
      (request : w.requests.writeRequestLookups.lookup r.id = some q)
      (entry : w.requests.activeWriteRequests.lookup q = some a)
      (h : traffic w' = (w.requests.setWrite q (a.heard (r.id = q.requestId) count),
        w.network.inFlight.eraseIdx i, .answered r count data :: w.network.log))
  | answerDelete (i : ℕ) (r : ChunkRequest) (count : ℤ) (data : List UInt8) (a : RequestInfo)
      (packet : w.network.inFlight[i]? = some r) (flag : r.flag = .deleteChunk)
      (entry : w.requests.activeDeleteRequests.lookup r.id = some a)
      (h : traffic w' = (w.requests.setDelete r.id { a with chunksReceived := a.chunksReceived + 1 },
        w.network.inFlight.eraseIdx i, .answered r count data :: w.network.log))
  | expectRead (id n : ℕ) (a : ReadRequestInfo) (entry : w.requests.activeReadRequests.lookup id = some a)
      (h : traffic w' = (w.requests.setRead id { a with info := { a.info with chunksExpected := n } },
        w.network.inFlight, w.network.log))
  | expectWrite (q : WriteRequest) (n m : ℕ) (a : WriteRequestInfo)
      (entry : w.requests.activeWriteRequests.lookup q = some a)
      (h : traffic w' = (w.requests.setWrite q { a with
        info := { a.info with chunksExpected := n }
        replicaInfo := { a.replicaInfo with chunksExpected := m } }, w.network.inFlight, w.network.log))
  | expectDelete (id n : ℕ) (a : RequestInfo)
      (entry : w.requests.activeDeleteRequests.lookup id = some a)
      (h : traffic w' = (w.requests.setDelete id { a with chunksExpected := n }, w.network.inFlight,
        w.network.log))
  | replyRead (id : ℕ) (a : ReadRequestInfo) (entry : w.requests.activeReadRequests.lookup id = some a)
      (h : traffic w' = (w.requests.eraseRead id, w.network.inFlight,
        readReply id a a.responsePackets :: w.network.log))
  | replyWrite (q : WriteRequest) (a : WriteRequestInfo)
      (entry : w.requests.activeWriteRequests.lookup q = some a)
      (h : traffic w' = (w.requests.eraseWrite q, w.network.inFlight,
        .replied (.write q) a.info.client (.writeResult a.fd a.count) :: w.network.log))
  | replyDelete (id : ℕ) (a : RequestInfo) (entry : w.requests.activeDeleteRequests.lookup id = some a)
      (h : traffic w' = (w.requests.eraseDelete id, w.network.inFlight,
        .replied (.delete id) a.client (.removeResult 0) :: w.network.log))
  | registerRead (id : ℕ) (a : ReadRequestInfo)
      (new : w.requests.activeReadRequests.lookup id = none)
      (h : traffic w' = (w.requests.setRead id a, w.network.inFlight, w.network.log))
  | registerWrite (q : WriteRequest) (a : WriteRequestInfo) (ne : q.requestId ≠ q.replicaRequestId)
      (newId : q.requestId ∉ w.requests.writeRequestLookups)
      (newReplica : q.replicaRequestId ∉ w.requests.writeRequestLookups)
      (h : traffic w' = (w.requests.addWrite q a, w.network.inFlight, w.network.log))
  | registerDelete (id : ℕ) (a : RequestInfo)
      (new : w.requests.activeDeleteRequests.lookup id = none)
      (h : traffic w' = (w.requests.setDelete id a, w.network.inFlight, w.network.log))

/-- The state was reached from `w₀` by exchanges, and the metadata lock is free. -/
def Reached (R : Runtime) (w₀ w : World) : Prop :=
  w.metaLock = none ∧ ReflTransGen (Exchange R) w₀ w

section Reached

variable {R : Runtime} {w₀ w w' : World} {α : Type}

theorem Reached.step (h : Reached R w₀ w) (hlock : w'.metaLock = w.metaLock) (he : Exchange R w w') :
    Reached R w₀ w' :=
  ⟨hlock.trans h.1, h.2.tail he⟩

theorem Reached.idle (h : Reached R w₀ w) (hlock : w'.metaLock = w.metaLock)
    (ht : traffic w' = traffic w) : Reached R w₀ w' := h.step hlock (.idle ht)

/-! ### Responses -/

theorem keeps_reached_locking (m : Code (Halt Site) FileLocks α) : (locking m).Keeps (Reached R w₀) :=
  keeps_zoom fun _ _ h => h.idle rfl rfl

theorem keeps_reached_volatile (m : Code (Halt Site) VolatileMetadata α) :
    (volatile m).Keeps (Reached R w₀) :=
  keeps_zoom fun _ _ h => h.idle rfl rfl

theorem keeps_reached_chunks (m : Code (Halt Site) ChunkMaps α) : (chunks m).Keeps (Reached R w₀) :=
  keeps_zoom fun _ _ h => h.idle rfl rfl

theorem keeps_reached_assert (site : Site) (c : Bool) :
    (DecaFS.assert site c : Barista PUnit).Keeps (Reached R w₀) :=
  fun _ hw => wp_assert.mpr ⟨fun _ => hw, fun _ => trivial⟩

theorem keeps_reached_emit {e : Event} (he : e.isPlain = true) : (emit e).Keeps (Reached R w₀) :=
  fun _ hw => wp_emit.mpr (hw.step rfl (.note e he rfl))

/-- A read is in its table, or no assertion about it holds. -/
theorem readRequestExists_cases (r : Requests) (id : ℕ) : r.readRequestExists id = false ∨
    ∃ a, r.activeReadRequests.lookup id = some a ∧ r.readRequest id = a := by
  cases ha : r.activeReadRequests.lookup id with
  | none => exact .inl (by simp [Requests.readRequestExists, ← Finmap.lookup_isSome, ha])
  | some a => exact .inr ⟨a, rfl, by simp [Requests.readRequest, ha]⟩

theorem writeRequestExists_cases (r : Requests) (id : ℕ) : r.writeRequestExists id = false ∨
    ∃ q a, r.writeRequestLookups.lookup id = some q ∧ r.activeWriteRequests.lookup q = some a ∧
      r.writeLookup id = q ∧ r.writeRequest q = a := by
  cases hq : r.writeRequestLookups.lookup id with
  | none => exact .inl (by simp [Requests.writeRequestExists, ← Finmap.lookup_isSome, hq])
  | some q =>
    have hlookup : r.writeLookup id = q := by simp [Requests.writeLookup, hq]
    cases ha : r.activeWriteRequests.lookup q with
    | none =>
      exact .inl (by simp [Requests.writeRequestExists, hlookup, ← Finmap.lookup_isSome, ha])
    | some a => exact .inr ⟨q, a, rfl, ha, hlookup, by simp [Requests.writeRequest, ha]⟩

theorem deleteRequestExists_cases (r : Requests) (id : ℕ) : r.deleteRequestExists id = false ∨
    ∃ a, r.activeDeleteRequests.lookup id = some a ∧ r.deleteRequest id = a := by
  cases ha : r.activeDeleteRequests.lookup id with
  | none => exact .inl (by simp [Requests.deleteRequestExists, ← Finmap.lookup_isSome, ha])
  | some a => exact .inr ⟨a, rfl, by simp [Requests.deleteRequest, ha]⟩

theorem keeps_reached_checkReadComplete (id : ℕ) : (checkReadComplete id).Keeps (Reached R w₀) := by
  intro w hw
  rcases readRequestExists_cases w.requests id with hexists | ⟨a, ha, -⟩
  · simp [checkReadComplete, hexists]
  · refine (wp_checkReadComplete ha).mpr ?_
    split_ifs
    · exact hw.step rfl (.replyRead id a ha rfl)
    · exact hw

theorem keeps_reached_checkWriteComplete (id : ℕ) :
    (checkWriteComplete id).Keeps (Reached R w₀) := by
  intro w hw
  rcases writeRequestExists_cases w.requests id with hexists | ⟨q, a, hq, ha, -, -⟩
  · simp [checkWriteComplete, hexists]
  · refine (wp_checkWriteComplete hq ha).mpr ?_
    split_ifs
    · exact hw.step rfl (.replyWrite q a ha rfl)
    · exact hw

theorem keeps_reached_checkDeleteComplete (id : ℕ) :
    (checkDeleteComplete id).Keeps (Reached R w₀) := by
  intro w hw
  rcases deleteRequestExists_cases w.requests id with hexists | ⟨a, ha, -⟩
  · simp [checkDeleteComplete, hexists]
  · refine wp_checkDeleteComplete hw.1 ha (fun _ => hw) fun _ _ => ?_
    split_ifs
    exact wp_releaseLock_record (fun _ => trivial) fun _ _ _ _ =>
      hw.step rfl (.replyDelete id a ha rfl)

/-- The packet is answered, and the entry of its request counts the response. -/
theorem keeps_reached_receive (d : Delivery) : (receive R d).Keeps (Reached R w₀) := by
  intro w hw
  unfold receive
  rw [wp_bind, wp_get]
  cases hr : w.network.inFlight[d.index]? with
  | none => exact (wp_pure _).mpr hw
  | some r =>
    simp only [network, wp_bind, wp_zoom, wp_modify]
    cases hflag : r.flag with
    | readChunk =>
      simp only [readResponseHandler, wp_bind, wp_get, wp_assert, requests, wp_zoom, wp_modify]
      rcases readRequestExists_cases w.requests r.id with hexists | ⟨a, ha, hread⟩
      · simp [hexists]
      · rw [hread]
        exact ⟨fun _ => keeps_reached_checkReadComplete _ _
          (hw.step rfl (.answerRead d.index r d.count d.data a hr hflag ha rfl)), fun _ => trivial⟩
    | writeChunk =>
      simp only [writeResponseHandler, wp_bind, wp_get, wp_assert, requests, wp_zoom, wp_modify]
      rcases writeRequestExists_cases w.requests r.id with hexists | ⟨q, a, hq, ha, hlookup, hwrite⟩
      · simp [hexists]
      · rw [hlookup, hwrite]
        refine ⟨fun _ => keeps_reached_checkWriteComplete _ _
          (hw.step rfl (.answerWrite d.index r d.count d.data q a hr hflag hq ha ?_)), fun _ => trivial⟩
        unfold traffic WriteRequestInfo.heard
        simp only [decide_eq_true_eq]
        split_ifs
        · rfl
        · rfl
    | deleteChunk =>
      simp only [deleteResponseHandler, wp_bind, wp_get, wp_assert, requests, wp_zoom, wp_modify]
      rcases deleteRequestExists_cases w.requests r.id with hexists | ⟨a, ha, hdelete⟩
      · simp [hexists]
      · rw [hdelete]
        exact ⟨fun _ => keeps_reached_checkDeleteComplete _ _
          (hw.step rfl (.answerDelete d.index r d.count d.data a hr hflag ha rfl)), fun _ => trivial⟩

theorem keeps_reached_receiveAll : ∀ ds : List Delivery, (receiveAll R ds).Keeps (Reached R w₀)
  | [] => keeps_pure _
  | d :: ds => .bind (keeps_reached_receive d) fun _ => keeps_reached_receiveAll ds

/-! ### Sends -/

theorem keeps_reached_sendToEspresso (node : ℤ) (r : ChunkRequest) :
    (sendToEspresso R node r).Keeps (Reached R w₀) := by
  intro w hw
  unfold sendToEspresso
  rw [wp_bind, wp_get]
  cases w.network.script with
  | nil => exact (wp_throw _).mpr trivial
  | cons o script =>
    by_cases ho : o.accepted = true
    · simp only [ho, if_true, network, wp_bind, wp_zoom, wp_modify]
      exact wp_mono (keeps_reached_receiveAll o.deliveries _ (hw.step rfl (.send node r rfl)))
        (fun _ _ hw' => (wp_pure _).mpr hw') fun _ _ => trivial
    · simp only [ho, Bool.false_eq_true, if_false, network, wp_bind, wp_zoom, wp_modify]
      exact wp_mono (keeps_reached_receiveAll o.deliveries _ (hw.step rfl (.note (.failed node r) rfl rfl)))
        (fun _ _ hw' => (wp_pure _).mpr hw') fun _ _ => trivial

theorem keeps_reached_readNode (chunk : FileChunk) : (readNode R chunk).Keeps (Reached R w₀) :=
  .bind keeps_get fun _ => .ite (keeps_pure _) (.bind (keeps_reached_assert _ _) fun _ => keeps_pure _)

theorem keeps_reached_readChunks (requestId fileId stripeId chunkSize : ℕ) (count : ℤ) :
    ∀ (fuel chunkId : ℕ) (offset bytesRead : ℤ) (numChunks : ℕ), (readChunks R requestId fileId stripeId
      chunkSize count fuel chunkId offset bytesRead numChunks).Keeps (Reached R w₀)
  | 0, _, _, _, _ => keeps_throw _
  | fuel + 1, _, _, _, _ =>
    .ite (.bind keeps_get fun _ => .ite (.bind (keeps_reached_readNode _) fun _ =>
      .bind (keeps_reached_emit rfl) fun _ => .bind (keeps_reached_sendToEspresso _ _) fun _ =>
        .ite (.bind (keeps_reached_volatile _) fun _ => keeps_reached_readChunks _ _ _ _ _ fuel _ _ _ _)
          (keeps_reached_readChunks _ _ _ _ _ fuel _ _ _ _)) (keeps_pure _)) (keeps_pure _)

theorem keeps_reached_processReadStripe (requestId fileId stripeId stripeSize chunkSize : ℕ)
    (offset count : ℤ) : (processReadStripe R requestId fileId stripeId stripeSize chunkSize offset
      count).Keeps (Reached R w₀) :=
  .bind (keeps_reached_emit rfl) fun _ => .bind (keeps_reached_assert _ _) fun _ =>
    .bind keeps_get fun _ => keeps_reached_readChunks _ _ _ _ _ _ _ _ _ _

theorem keeps_reached_writeNodes (chunk : FileChunk) : (writeNodes R chunk).Keeps (Reached R w₀) :=
  .bind keeps_get fun _ => .bind (keeps_reached_chunks _) fun _ => .bind (keeps_reached_chunks _) fun _ =>
    .bind keeps_get fun _ => keeps_pure _

theorem keeps_reached_writeReplica (id : ℕ) (chunk : FileChunk) (node offset : ℤ) (buf : List UInt8)
    (size : ℤ) : (writeReplica R id chunk node offset buf size).Keeps (Reached R w₀) :=
  .bind (keeps_reached_sendToEspresso _ _) fun _ => .ite (.bind (keeps_reached_volatile _) fun _ =>
    .bind keeps_get fun _ => .bind (keeps_reached_sendToEspresso _ _) fun _ => keeps_pure _) (keeps_pure _)

theorem keeps_reached_writeChunks (q : WriteRequest) (fileId stripeId chunkSize : ℕ) (buf : List UInt8)
    (count : ℤ) : ∀ (fuel chunkId : ℕ) (offset bytesWritten : ℤ) (written : ℕ × ℕ),
      (writeChunks R q fileId stripeId chunkSize buf count fuel chunkId offset bytesWritten
        written).Keeps (Reached R w₀)
  | 0, _, _, _, _ => keeps_throw _
  | fuel + 1, _, _, _, _ =>
    .ite (.bind (keeps_reached_writeNodes _) fun _ => .bind (keeps_reached_emit rfl) fun _ =>
      .bind (keeps_reached_sendToEspresso _ _) fun _ => .ite
        (.bind (keeps_reached_volatile _) fun _ => keeps_reached_writeChunks _ _ _ _ _ _ fuel _ _ _ _)
        (.bind (keeps_reached_writeReplica _ _ _ _ _ _) fun _ =>
          keeps_reached_writeChunks _ _ _ _ _ _ fuel _ _ _ _)) (keeps_pure _)

theorem keeps_reached_processWriteStripe (q : WriteRequest) (fileId stripeId stripeSize chunkSize : ℕ)
    (buf : List UInt8) (offset count : ℤ) : (processWriteStripe R q fileId stripeId stripeSize chunkSize
      buf offset count).Keeps (Reached R w₀) :=
  .bind (keeps_reached_emit rfl) fun _ => .bind (keeps_reached_assert _ _) fun _ =>
    .bind keeps_get fun _ => keeps_reached_writeChunks _ _ _ _ _ _ _ _ _ _ _

theorem keeps_reached_deleteCopy (copies : ChunkMaps → List (FileChunk × ℤ))
    (put : List (FileChunk × ℤ) → ChunkMaps → ChunkMaps) (id : ℕ) (chunk : FileChunk) (n : ℕ) :
    (deleteCopy R copies put id chunk n).Keeps (Reached R w₀) :=
  .bind keeps_get fun _ => .ite (.bind (keeps_reached_sendToEspresso _ _) fun _ =>
    .bind (keeps_reached_chunks _) fun _ => keeps_pure _) (keeps_pure _)

theorem keeps_reached_deleteChunks (id : ℕ) : ∀ (l : List FileChunk) (n : ℕ),
    (deleteChunks R id l n).Keeps (Reached R w₀)
  | [], _ => keeps_pure _
  | _ :: l, _ => .bind (keeps_reached_deleteCopy _ _ _ _ _) fun _ =>
    .bind (keeps_reached_deleteCopy _ _ _ _ _) fun _ => keeps_reached_deleteChunks id l _

/-! ### Calls -/

variable {fd : ℤ} {client : Client}

theorem keeps_reached_setFileCursor (offset : ℤ) :
    (setFileCursor R fd offset client).Keeps (Reached R w₀) := fun _ hw =>
  wp_setFileCursor hw.1 (fun _ => trivial) fun _ => hw.idle rfl rfl

theorem keeps_reached_updateFileSize (fileId : ℕ) (delta : ℤ) :
    (updateFileSize fileId delta client).Keeps (Reached R w₀) := fun _ hw =>
  wp_updateFileSize hw.1 (fun _ => trivial) fun _ => hw.idle rfl rfl

theorem keeps_reached_readStripes (id fileId : ℕ) (stat : DecafsFileStat) (count : ℤ) :
    ∀ (fuel stripeId : ℕ) (offset bytesRead : ℤ) (numChunks : ℕ), (readStripes R id fd fileId stat count
      client fuel stripeId offset bytesRead numChunks).Keeps (Reached R w₀)
  | 0, _, _, _, _ => keeps_throw _
  | fuel + 1, _, _, _, _ =>
    .ite (.bind (keeps_reached_emit rfl) fun _ => .bind (keeps_reached_processReadStripe _ _ _ _ _ _ _)
      fun _ => .bind keeps_get fun _ => .bind (keeps_reached_setFileCursor _) fun _ =>
        keeps_reached_readStripes _ _ _ _ fuel _ _ _ _) (keeps_pure _)

theorem keeps_reached_writeStripes (q : WriteRequest) (fileId : ℕ) (stat : DecafsFileStat)
    (buf : List UInt8) (count : ℤ) : ∀ (fuel stripeId : ℕ) (offset bytesWritten : ℤ) (sent : ℕ × ℕ),
      (writeStripes R q fd fileId stat buf count client fuel stripeId offset bytesWritten sent).Keeps
        (Reached R w₀)
  | 0, _, _, _, _ => keeps_throw _
  | fuel + 1, _, _, _, _ =>
    .ite (.bind (keeps_reached_emit rfl) fun _ => .bind (keeps_reached_processWriteStripe _ _ _ _ _ _ _ _)
      fun _ => .bind (keeps_reached_updateFileSize _ _) fun _ => .bind keeps_get fun _ =>
        .bind (keeps_reached_setFileCursor _) fun _ => keeps_reached_writeStripes _ _ _ _ _ fuel _ _ _ _)
      (keeps_pure _)

theorem keeps_reached_finishRead (id n : ℕ) : (finishRead id n).Keeps (Reached R w₀) := by
  intro w hw
  simp only [finishRead, wp_bind, wp_get, wp_assert, requests, wp_zoom, wp_modify]
  rcases readRequestExists_cases w.requests id with hexists | ⟨a, ha, hread⟩
  · simp [hexists]
  · rw [hread]
    exact ⟨fun _ => keeps_reached_checkReadComplete _ _ (hw.step rfl (.expectRead id n a ha rfl)),
      fun _ => trivial⟩

/-- The end of `write_file`; the write is in its table. -/
theorem wp_finishWrite_reached {q : WriteRequest} (hw : Reached R w₀ w) (h : Booked (some (.write q)) w)
    (n : ℕ × ℕ) : wp (finishWrite q n) (fun _ w' => Reached R w₀ w') (fun _ => True) w := by
  have hop : w.requests.Active (.write q) := (h.inv.dispatching (.write q) rfl).1
  obtain ⟨a, ha⟩ := Finmap.mem_iff.mp hop
  have hwrite : w.requests.writeRequest q = a := by simp [Requests.writeRequest, ha]
  simp only [finishWrite, wp_bind, wp_get, wp_assert, requests, wp_zoom, wp_modify]
  rw [hwrite]
  exact ⟨fun _ => keeps_reached_checkWriteComplete _ _
    (hw.step rfl (.expectWrite q n.1 n.2 a ha rfl)), fun _ => trivial⟩

theorem keeps_reached_finishDelete (id n : ℕ) : (finishDelete id n).Keeps (Reached R w₀) := by
  intro w hw
  simp only [finishDelete, wp_bind, wp_get, wp_assert, requests, wp_zoom, wp_modify]
  rcases deleteRequestExists_cases w.requests id with hexists | ⟨a, ha, hdelete⟩
  · simp [hexists]
  · rw [hdelete]
    exact ⟨fun _ => keeps_reached_checkDeleteComplete _ _ (hw.step rfl (.expectDelete id n a ha rfl)),
      fun _ => trivial⟩

theorem keeps_reached_closeFile (fd : ℤ) (client : Client) :
    (closeFile fd client).Keeps (Reached R w₀) :=
  .bind (keeps_reached_volatile _) fun _ => .ite
    (.bind (keeps_reached_locking _) fun _ => keeps_reached_emit rfl) (keeps_reached_emit rfl)

theorem keeps_reached_fileSeek (offset : ℕ) (whence : Whence) :
    (fileSeek R fd offset whence client).Keeps (Reached R w₀) := by
  have hend : (do emit (.told client (.seekResult ((← get).volatile.getFileCursor (fdKey fd)))) :
      Barista PUnit).Keeps (Reached R w₀) := .bind keeps_get fun _ => keeps_reached_emit rfl
  have hmove : (do
      let cursor := (← get).volatile.getFileCursor (fdKey fd)
      if cursor ≥ 0 then
        let _ ← setFileCursor R fd (cursor + offset) client
      emit (.told client (.seekResult ((← get).volatile.getFileCursor (fdKey fd)))) :
      Barista PUnit).Keeps (Reached R w₀) := .bind keeps_get fun _ => .ite
        (.bind (keeps_reached_setFileCursor _) fun _ => hend) hend
  exact .ite (.bind (keeps_reached_setFileCursor _) fun _ => hend)
    (.ite (.bind (keeps_reached_setFileCursor _) fun _ => hmove) hmove)

/-- `read_file` from the registration of the request on. -/
theorem wp_dispatchRead_reached (h : Booked none w) (fd : ℤ) (client : Client) (f : ℕ)
    (stat : DecafsFileStat) (offset count : ℤ) :
    wp (dispatchRead R (w.volatile.requestId + 1) fd f stat offset count client)
      (fun _ w' => Reached R (readRegistered fd f client w) w') (fun _ => True)
      (issuedUpTo (w.volatile.requestId + 1) w) := by
  simp only [dispatchRead, wp_bind, requests, wp_zoom, wp_modify, wp_emit]
  exact wp_mono (keeps_reached_readStripes _ _ _ _ _ _ _ _ _ _ ⟨h.unlocked, .refl⟩)
    (fun n w₂ hw₂ => keeps_reached_finishRead _ n w₂ hw₂) fun _ _ => trivial

theorem Booked.registers_read (h : Booked none w) (fd : ℤ) (client : Client) (f : ℕ) :
    Reached R w (readRegistered fd f client w) := by
  have hnew : w.requests.activeReadRequests.lookup (w.volatile.requestId + 1) = none := by
    have hnone : w.requests.holder (.read (w.volatile.requestId + 1)) = none :=
      h.holder_eq_none (by simp [Operation.tags])
    simpa [Requests.holder] using hnone
  let w₁ : World := { issuedUpTo (w.volatile.requestId + 1) w with
    requests := w.requests.setRead (w.volatile.requestId + 1) { info := ⟨0, 0, f, client⟩, fd := fd } }
  have hself : Reached R w w := ⟨h.unlocked, .refl⟩
  have hw₁ : Reached R w w₁ := hself.step rfl (.registerRead _ _ hnew rfl)
  exact hw₁.step rfl (.note (.registered (.read (w.volatile.requestId + 1))) rfl rfl)

/-- `write_file` from the registration of the request on. -/
theorem wp_dispatchWrite_reached (h : Booked none w) (huser : client.userId ≠ 0) (fd : ℤ) (f : ℕ)
    (stat : DecafsFileStat) (offset : ℕ) (buf : List UInt8) (c : ℤ) :
    wp (dispatchWrite R (nextWrite w) fd f stat offset buf (sizeArgument c) client)
      (fun _ w' => Reached R (writeRegistered fd f client w) w') (fun _ => True)
      (issuedUpTo (w.volatile.requestId + 2) w) := by
  simp only [dispatchWrite, wp_bind, requests, wp_zoom, wp_modify, wp_emit, getFirstStripe_eq]
  refine wp_mono (wp_and (wp_writeStripes_registered (R := R) (f := f) fd h huser stat offset buf c)
    (keeps_reached_writeStripes _ _ _ _ _ _ _ _ _ _ _ ⟨h.unlocked, .refl⟩))
    (fun n w₂ hw₂ => ?_) fun _ _ => trivial
  obtain ⟨⟨used, sent, hstored, -⟩, hreached⟩ := hw₂
  exact wp_finishWrite_reached hreached hstored.booked n

theorem Booked.registers_write (h : Booked none w) (fd : ℤ) (client : Client) (f : ℕ) :
    Reached R w (writeRegistered fd f client w) := by
  let w₁ : World := { issuedUpTo (w.volatile.requestId + 2) w with
    requests := w.requests.addWrite (nextWrite w)
      { info := ⟨0, 0, f, client⟩, replicaInfo := ⟨0, 0, f, client⟩, fd := fd } }
  have hself : Reached R w w := ⟨h.unlocked, .refl⟩
  have hw₁ : Reached R w w₁ := hself.step rfl (.registerWrite _ _ (by simp [nextWrite])
    (h.notMem_lookups (Nat.lt_succ_self _)) (h.notMem_lookups (by simp [nextWrite])) rfl)
  exact hw₁.step rfl (.note (.registered (.write (nextWrite w))) rfl rfl)

theorem Reached.trans {w'' : World} (h : Reached R w₀ w) (h' : Reached R w w'') : Reached R w₀ w'' :=
  ⟨h'.1, h.2.trans h'.2⟩

/-- Handling a message is a run of exchanges. -/
theorem wp_handle_reached (i : Input) (h : Running w)
    (hids : w.volatile.requestId + i.ids < 4294967296) :
    wp (handle R i) (fun _ w' => Reached R w w') (fun _ => True) w := by
  have hlock := h.booked.unlocked
  have hself : Reached R w w := ⟨hlock, .refl⟩
  have hscripted : ∀ script, Reached R w (withScript script w) := fun _ => hself.idle rfl rfl
  cases i with
  | openFile path flags client =>
    refine wp_mono (wp_openFile (E := fun _ => True) hlock h.clear fun _ => trivial)
      (fun _ w' hw' => ?_) fun _ he => he
    obtain ⟨htold, -⟩ := hw'
    obtain ⟨reply, hlog⟩ := htold.log
    refine hself.step htold.metaLock (.note (.told client reply) rfl ?_)
    unfold traffic
    rw [htold.requests, htold.inFlight, hlog]
  | readFile fd count client script =>
    have hbooked := h.booked.withScript script
    refine wp_scripted.mpr (wp_readFile hlock hids (fun _ => trivial) (fun _ => trivial)
      (fun _ _ reply _ => (hscripted script).step rfl (.refuse _ client reply rfl)) ?_)
    intro _ _ info _ _ _
    refine wp_mono (wp_dispatchRead_reached hbooked fd client _ _ _ _) (fun _ w' hw' => ?_) fun _ he => he
    exact ((hscripted script).trans (hbooked.registers_read fd client _)).trans hw'
  | writeFile fd buf count client script =>
    have hbooked := h.booked.withScript script
    refine wp_scripted.mpr (wp_writeFile hlock hids (fun _ => trivial) (fun _ => trivial)
      (fun _ _ reply _ => (hscripted script).step rfl (.refuse _ client reply rfl)) ?_)
    intro huser _ info _ _ hcursor
    rw [← Int.toNat_of_nonneg hcursor]
    refine wp_mono (wp_dispatchWrite_reached hbooked huser fd _ _ _ buf count) (fun _ w' hw' => ?_)
      fun _ he => he
    exact ((hscripted script).trans (hbooked.registers_write fd client _)).trans hw'
  | closeFile fd client => exact keeps_reached_closeFile fd client w hself
  | deleteFile path client script =>
    refine wp_scripted.mpr (wp_deleteFile hlock hids (fun _ => trivial)
      (fun _ result locks _ _ => (hscripted script).step rfl
        (.refuse (.delete (w.volatile.requestId + 1)) client (.removeResult result) rfl)) ?_)
    intro huser info _ _ locks _
    have hnew : w.requests.activeDeleteRequests.lookup (w.volatile.requestId + 1) = none := by
      have hnone : w.requests.holder (.delete (w.volatile.requestId + 1)) = none :=
        h.booked.holder_eq_none (by simp [Operation.tags])
      simpa [Requests.holder] using hnone
    let w₁ : World := { issuedUpTo (w.volatile.requestId + 1) (withScript script w) with
      fileLocks := locks
      requests := w.requests.setDelete (w.volatile.requestId + 1) ⟨0, 0, info.fileId, client⟩ }
    have hw₁ : Reached R w w₁ := (hscripted script).step rfl (.registerDelete _ _ hnew rfl)
    have hregistered : Reached R w (deleteRegistered info.fileId client locks (withScript script w)) :=
      hw₁.step rfl (.note (.registered (.delete (w.volatile.requestId + 1))) rfl rfl)
    simp only [dispatchDelete, wp_bind, requests, wp_zoom, wp_modify, wp_emit, processDeleteFile, wp_get]
    exact wp_mono (keeps_reached_deleteChunks _ _ _ _ hregistered)
      (fun n w₂ hw₂ => keeps_reached_finishDelete _ n w₂ hw₂) fun _ _ => trivial
  | fileSeek fd offset whence client => exact keeps_reached_fileSeek offset whence w hself
  | response d => exact keeps_reached_receive d w hself
  | nodeUp node => exact Keeps.bind (keeps_reached_volatile _) (fun _ => keeps_pure _) w hself
  | nodeDown node => exact Keeps.bind (keeps_reached_volatile _) (fun _ => keeps_pure _) w hself

/-- **A run of the server is a run of exchanges.** -/
theorem exchanges_of_run {is : List Input} (hw : Running w) (hrun : Steps (Barista.step R) w is w')
    (hids : w.volatile.requestId + idsOf is < 4294967296) : ReflTransGen (Exchange R) w w' :=
  (Running.induct (P := ReflTransGen (Exchange R) w) hrun hw hids .refl
    fun _ i _ hw₁ hids₁ hstep _ hP => hP.trans (((wp_handle_reached i hw₁ hids₁).of_ok hstep).2)).2.2

end Reached

end DecaFS
