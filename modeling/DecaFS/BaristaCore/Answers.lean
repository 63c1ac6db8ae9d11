import DecaFS.BaristaCore.Loops
import DecaFS.BaristaCore.PartialReads
import DecaFS.ForMathlib.Callers

/-!
# The answers to the clients

Every call has one answer: at once, or when the request that it became ends. The handlers send it to the
client that made the call, it is of the kind of the call, and it brings the bytes that it counts. So a
client that waits for each answer, like `DecafsClient`, never takes a packet for the answer to another
call, although it does not look at the flag of what it receives.
-/

namespace DecaFS

open Code Barista Front

/-- The calls of a client. -/
inductive CallKind : Type
  | openFile
  | readFile
  | writeFile
  | closeFile
  | deleteFile
  | fileSeek
  deriving DecidableEq, Repr

/-- The call that a message is. -/
def Barista.Input.kind : Input → Option CallKind
  | .openFile .. => some .openFile
  | .readFile .. => some .readFile
  | .writeFile .. => some .writeFile
  | .closeFile .. => some .closeFile
  | .deleteFile .. => some .deleteFile
  | .fileSeek .. => some .fileSeek
  | .response _ | .nodeUp _ | .nodeDown _ => none

/-- The client that makes the call. -/
def Barista.Input.caller : Input → Option Client
  | .openFile _ _ client | .readFile _ _ client _ | .writeFile _ _ _ client _ | .closeFile _ client
  | .deleteFile _ client _ | .fileSeek _ _ _ client => some client
  | .response _ | .nodeUp _ | .nodeDown _ => none

/-- The call that a packet answers, by its flag. -/
def Reply.kind : Reply → CallKind
  | .readResult .. => .readFile
  | .writeResult .. => .writeFile
  | .removeResult _ => .deleteFile
  | .openResult _ => .openFile
  | .closeResult _ => .closeFile
  | .seekResult _ => .fileSeek

/-- The call that becomes the request. -/
def Operation.kind : Operation → CallKind
  | .read _ => .readFile
  | .write _ => .writeFile
  | .delete _ => .deleteFile

/-- The result of a read has the bytes that it counts. -/
def Reply.Full : Reply → Prop
  | .readResult _ count buf => toInt32 count ≤ buf.length
  | _ => True

theorem Reply.Ends.kind_eq {reply : Reply} {op : Operation} (h : reply.Ends op) : reply.kind = op.kind := by
  cases op with
  | read id =>
    obtain ⟨fd, count, buf, rfl⟩ := h
    rfl
  | write q =>
    obtain ⟨fd, count, rfl⟩ := h
    rfl
  | delete id =>
    obtain rfl : reply = .removeResult 0 := h
    rfl

/-- The protocol between the clients and the server. -/
def callProtocol : CallProtocol Input Operation Client Reply where
  caller := Input.caller
  opens i op := i.kind = some op.kind
  ends op reply := reply.Ends op ∧ reply.Full
  awaits i reply := i.kind = some reply.kind ∧ reply.Full
  awaits_of_ends i op reply hopens hends := ⟨by rw [hopens, hends.1.kind_eq], hends.2⟩

/-- The packet that a client gets. -/
def Event.answer : Event → Option (Client × Reply)
  | .replied _ client reply | .told client reply => some (client, reply)
  | _ => none

/-- The server as its clients see it. -/
def front (w : World) : Front Operation Client Reply where
  active op := (w.requests.holder op).map Prod.fst
  answers := w.network.log.filterMap Event.answer

/-- The metadata lock is free, and `J` holds of what the clients see. -/
def Fronted (J : Front Operation Client Reply → Prop) (w : World) : Prop :=
  w.metaLock = none ∧ J (front w)

/-- `J` survives requests that end. -/
def Ending (J : Front Operation Client Reply → Prop) : Prop :=
  ∀ s t, J s → Finish callProtocol s t → J t

section

variable {R : Runtime} {J : Front Operation Client Reply → Prop} {α : Type} {w w' w₀ : World}
  {client : Client} {op : Operation} {i : Input} {is : List Input}

/-! ### Responses -/

theorem front_congr (hr : w'.requests.holder = w.requests.holder)
    (hlog : w'.network.log.filterMap Event.answer = w.network.log.filterMap Event.answer) :
    front w' = front w := by
  simp only [front, hr, hlog]

theorem front_logged {e : Event} (he : e.answer = none) : front (logged e w) = front w := by
  refine front_congr rfl ?_
  exact List.filterMap_cons_none he

/-- The client of an active request gets its result. -/
theorem finish_reply {result : Reply} {r : Requests} {f : ℕ} (hop : w.requests.holder op = some (client, f))
    (hr : r.holder = Function.update w.requests.holder op none) (hends : result.Ends op)
    (hfull : result.Full) : Finish callProtocol (front w) (front (reply op client result r w)) := by
  have heq : front (reply op client result r w) =
      ⟨Function.update (front w).active op none, (client, result) :: (front w).answers⟩ := by
    have hactive : (fun op' => (r.holder op').map Prod.fst) =
        Function.update (front w).active op none := by
      funext op'
      rw [hr]
      rcases eq_or_ne op' op with rfl | hne
      · simp
      · simp [hne, front]
    simp only [front, reply, hactive]
    rfl
  rw [heq]
  refine .intro ?_ ⟨hends, hfull⟩
  simp [front, hop]

theorem keeps_emit_fronted {e : Event} (he : e.answer = none) : (emit e).Keeps (Fronted J) := by
  intro w hw
  refine wp_emit.mpr ⟨hw.1, ?_⟩
  rw [front_logged he]
  exact hw.2

theorem keeps_volatile_fronted (m : Code (Halt Site) VolatileMetadata α) :
    (volatile m).Keeps (Fronted J) :=
  keeps_zoom fun _ _ hw => hw

theorem keeps_locking_fronted (m : Code (Halt Site) FileLocks α) : (locking m).Keeps (Fronted J) :=
  keeps_zoom fun _ _ hw => hw

theorem keeps_network_fronted {f : Network → Network}
    (hf : ∀ n, (f n).log.filterMap Event.answer = n.log.filterMap Event.answer) :
    (network (modify f)).Keeps (Fronted J) := by
  intro w hw
  rw [network, wp_zoom, wp_modify]
  refine ⟨hw.1, ?_⟩
  have heq : front { w with network := f w.network } = front w := front_congr rfl (hf w.network)
  rw [heq]
  exact hw.2

theorem keeps_withMetadataLock_fronted (client : Client) (refused : α)
    (m : Code (Halt Site) PersistentMetadata α) :
    (withMetadataLock client refused m).Keeps (Fronted J) := by
  intro w hw
  rw [wp_withMetadataLock hw.1]
  by_cases huser : client.userId = 0
  · rw [if_pos huser]
    trivial
  · rw [if_neg huser]
    cases hm : m w.persistent with
    | ok p => exact (wp_ok hm).mpr hw
    | error e => exact (wp_error hm).mpr trivial

theorem keeps_setFileCursor_fronted (fd offset : ℤ) (client : Client) :
    (setFileCursor R fd offset client).Keeps (Fronted J) := by
  refine .bind keeps_get fun w => ?_
  cases w.volatile.fileCursors.lookup (fdKey fd) with
  | none => exact keeps_pure _
  | some file =>
    exact .ite (.bind (keeps_withMetadataLock_fronted _ _ _) fun _ =>
      .bind (keeps_volatile_fronted _) fun _ => keeps_pure _) (keeps_pure _)

/-- The sum of the sizes wraps around, but is never too large. -/
theorem full_packets (fd : ℤ) (packets : List (FileChunk × List UInt8)) :
    (Reply.readResult fd (packetCount packets) (packets.flatMap Prod.snd)).Full := by
  have hlength : (packets.flatMap Prod.snd).length = (packets.map fun p => p.2.length).sum :=
    List.length_flatMap
  change toInt32 (packetCount packets) ≤ _
  rw [packetCount_eq, toInt32_toInt32, hlength]
  unfold toInt32
  omega

theorem keeps_checkReadComplete_fronted (hJ : Ending J) (id : ℕ) :
    (checkReadComplete id).Keeps (Fronted J) := by
  intro w hw
  by_cases hmem : id ∈ w.requests.activeReadRequests
  · obtain ⟨a, ha⟩ := Finmap.mem_iff.mp hmem
    rw [wp_checkReadComplete ha]
    split_ifs
    · refine ⟨hw.1, hJ _ _ hw.2 (finish_reply (Requests.holder_read ha) Requests.holder_eraseRead ?_
        (full_packets _ _))⟩
      exact ⟨_, _, _, rfl⟩
    · exact hw
  · unfold checkReadComplete
    simp [Requests.readRequestExists, hmem]

theorem keeps_checkWriteComplete_fronted (hJ : Ending J) (id : ℕ) :
    (checkWriteComplete id).Keeps (Fronted J) := by
  intro w hw
  by_cases hexists : w.requests.writeRequestExists id = true
  · have hboth := hexists
    unfold Requests.writeRequestExists at hboth
    obtain ⟨hmem, hactive⟩ := of_decide_eq_true hboth
    obtain ⟨q, hq⟩ := Finmap.mem_iff.mp hmem
    have hlookup : w.requests.writeLookup id = q := by simp [Requests.writeLookup, hq]
    rw [hlookup] at hactive
    obtain ⟨a, ha⟩ := Finmap.mem_iff.mp hactive
    rw [wp_checkWriteComplete hq ha]
    split_ifs
    · refine ⟨hw.1, hJ _ _ hw.2 (finish_reply (Requests.holder_write ha) Requests.holder_eraseWrite ?_
        trivial)⟩
      exact ⟨_, _, rfl⟩
    · exact hw
  · unfold checkWriteComplete
    simp [hexists]

theorem keeps_checkDeleteComplete_fronted (hJ : Ending J) (id : ℕ) :
    (checkDeleteComplete id).Keeps (Fronted J) := by
  intro w hw
  by_cases hmem : id ∈ w.requests.activeDeleteRequests
  · obtain ⟨a, ha⟩ := Finmap.mem_iff.mp hmem
    refine wp_checkDeleteComplete hw.1 ha (fun _ => hw) fun _ _ => ?_
    by_cases huser : a.client.userId = 0
    · rw [if_pos huser]
      trivial
    · rw [if_neg huser]
      have hdone := finish_reply (w := w) (Requests.holder_delete ha) Requests.holder_eraseDelete
        (show Reply.Ends (.removeResult 0) (.delete id) from rfl) trivial
      refine wp_releaseLock_record (fun h => absurd h huser) fun _ _ locks _ => ?_
      exact ⟨hw.1, hJ _ _ hw.2 hdone⟩
  · unfold checkDeleteComplete
    simp [Requests.deleteRequestExists, hmem]

/-- Counting for a request, and the check whether it is done. -/
theorem keeps_counted_fronted {site : Site} (known : Requests → Bool) {f : Requests → Requests}
    {check : Barista PUnit} (hf : ∀ r, known r = true → (f r).holder = r.holder)
    (hcheck : check.Keeps (Fronted J)) : (do
      DecaFS.assert site (known (← get).requests)
      requests (modify f)
      check : Barista PUnit).Keeps (Fronted J) := by
  intro w hw
  simp only [wp_bind, wp_get, wp_assert, requests, wp_zoom, wp_modify]
  refine ⟨fun hknown => hcheck _ ⟨hw.1, ?_⟩, fun _ => trivial⟩
  have heq : front { w with requests := f w.requests } = front w :=
    front_congr (hf w.requests (by simpa using hknown)) rfl
  rw [heq]
  exact hw.2

theorem holder_countRead {id : ℕ} {r : Requests} {g : ReadRequestInfo → ReadRequestInfo}
    (hclient : ∀ a, (g a).info.client = a.info.client) (hfile : ∀ a, (g a).info.fileId = a.info.fileId)
    (hexists : r.readRequestExists id = true) :
    (r.setRead id (g (r.readRequest id))).holder = r.holder := by
  obtain ⟨a, ha⟩ := Finmap.mem_iff.mp (of_decide_eq_true hexists)
  have hrequest : r.readRequest id = a := by simp [Requests.readRequest, ha]
  rw [hrequest]
  exact Requests.holder_setRead_of_eq ha (hclient a) (hfile a)

theorem holder_countWrite {id : ℕ} {r : Requests} {g : WriteRequestInfo → WriteRequestInfo}
    (hclient : ∀ a, (g a).info.client = a.info.client) (hfile : ∀ a, (g a).info.fileId = a.info.fileId)
    (hexists : r.writeRequestExists id = true) :
    (r.setWrite (r.writeLookup id) (g (r.writeRequest (r.writeLookup id)))).holder = r.holder := by
  have hboth := hexists
  unfold Requests.writeRequestExists at hboth
  obtain ⟨a, ha⟩ := Finmap.mem_iff.mp (of_decide_eq_true hboth).2
  have hrequest : r.writeRequest (r.writeLookup id) = a := by simp [Requests.writeRequest, ha]
  rw [hrequest]
  exact Requests.holder_setWrite_of_eq ha (hclient a) (hfile a)

theorem holder_countDelete {id : ℕ} {r : Requests} {g : RequestInfo → RequestInfo}
    (hclient : ∀ a, (g a).client = a.client) (hfile : ∀ a, (g a).fileId = a.fileId)
    (hexists : r.deleteRequestExists id = true) :
    (r.setDelete id (g (r.deleteRequest id))).holder = r.holder := by
  obtain ⟨a, ha⟩ := Finmap.mem_iff.mp (of_decide_eq_true hexists)
  have hrequest : r.deleteRequest id = a := by simp [Requests.deleteRequest, ha]
  rw [hrequest]
  exact Requests.holder_setDelete_of_eq ha (hclient a) (hfile a)

theorem keeps_readResponseHandler_fronted (hJ : Ending J) (id : ℕ) (chunk : FileChunk) (count : ℤ)
    (data : List UInt8) : (readResponseHandler R id chunk count data).Keeps (Fronted J) := by
  refine keeps_counted_fronted (fun r => r.readRequestExists id) (fun rs hexists => ?_)
    (keeps_checkReadComplete_fronted hJ id)
  exact holder_countRead (g := fun a => { a with
    info := { a.info with chunksReceived := a.info.chunksReceived + 1 }
    responsePackets := R.search.set chunk (readBuffer count data) a.responsePackets })
    (fun _ => rfl) (fun _ => rfl) hexists

theorem keeps_writeResponseHandler_fronted (hJ : Ending J) (id : ℕ) (count : ℤ) :
    (writeResponseHandler id count).Keeps (Fronted J) := by
  refine keeps_counted_fronted (fun r => r.writeRequestExists id) (fun rs hexists => ?_)
    (keeps_checkWriteComplete_fronted hJ id)
  have hcount := holder_countWrite (countWrite_client (rs.writeLookup id) id count)
    (countWrite_fileId (rs.writeLookup id) id count) hexists
  unfold countWrite at hcount
  dsimp only at hcount ⊢
  split_ifs at hcount ⊢ <;> exact hcount

theorem keeps_deleteResponseHandler_fronted (hJ : Ending J) (id : ℕ) :
    (deleteResponseHandler id).Keeps (Fronted J) := by
  refine keeps_counted_fronted (fun r => r.deleteRequestExists id) (fun rs hexists => ?_)
    (keeps_checkDeleteComplete_fronted hJ id)
  exact holder_countDelete (g := fun a => { a with chunksReceived := a.chunksReceived + 1 })
    (fun _ => rfl) (fun _ => rfl) hexists

theorem keeps_receive_fronted (hJ : Ending J) (d : Delivery) : (receive R d).Keeps (Fronted J) := by
  refine .bind keeps_get fun w => ?_
  cases w.network.inFlight[d.index]? with
  | none => exact keeps_pure _
  | some r =>
    refine .bind (keeps_network_fronted fun _ => rfl) fun _ => ?_
    cases r.flag with
    | readChunk => exact keeps_readResponseHandler_fronted hJ _ _ _ _
    | writeChunk => exact keeps_writeResponseHandler_fronted hJ _ _
    | deleteChunk => exact keeps_deleteResponseHandler_fronted hJ _

theorem keeps_receiveAll_fronted (hJ : Ending J) :
    ∀ ds : List Delivery, (receiveAll R ds).Keeps (Fronted J)
  | [] => keeps_pure _
  | d :: ds => .bind (keeps_receive_fronted hJ d) fun _ => keeps_receiveAll_fronted hJ ds

/-! ### Stripes -/

theorem keeps_sendToEspresso_fronted (hJ : Ending J) (node : ℤ) (r : ChunkRequest) :
    (sendToEspresso R node r).Keeps (Fronted J) := by
  refine .bind keeps_get fun w => ?_
  cases w.network.script with
  | nil => exact keeps_throw _
  | cons outcome script =>
    have hrest : (do
        receiveAll R outcome.deliveries
        return if outcome.accepted then 1 else nodeFailure : Barista ℤ).Keeps (Fronted J) :=
      .bind (keeps_receiveAll_fronted hJ _) fun _ => keeps_pure _
    exact .ite (.bind (keeps_network_fronted fun _ => rfl) fun _ => hrest)
      (.bind (keeps_network_fronted fun _ => rfl) fun _ => hrest)

theorem stripeLoops_fronted (hJ : Ending J) : StripeLoops R (Fronted J) where
  stripe _ _ _ _ _ := keeps_emit_fronted rfl
  compared _ _ _ _ := keeps_emit_fronted rfl
  writeNodes := keeps_writeNodes fun _ => keeps_zoom fun _ _ hw => hw
  eraseNode _ := keeps_zoom fun _ _ hw => hw
  eraseReplica _ := keeps_zoom fun _ _ hw => hw
  setNodeDown _ := keeps_volatile_fronted _
  send := keeps_sendToEspresso_fronted hJ
  setFileCursor := keeps_setFileCursor_fronted
  updateFileSize _ _ _ := keeps_withMetadataLock_fronted _ _ _

theorem keeps_finishRead_fronted (hJ : Ending J) (id n : ℕ) : (finishRead id n).Keeps (Fronted J) := by
  refine keeps_counted_fronted (fun r => r.readRequestExists id) (fun rs hexists => ?_)
    (keeps_checkReadComplete_fronted hJ id)
  exact holder_countRead (g := fun a => { a with info := { a.info with chunksExpected := n } })
    (fun _ => rfl) (fun _ => rfl) hexists

theorem keeps_finishDelete_fronted (hJ : Ending J) (id n : ℕ) :
    (finishDelete id n).Keeps (Fronted J) := by
  refine keeps_counted_fronted (fun r => r.deleteRequestExists id) (fun rs hexists => ?_)
    (keeps_checkDeleteComplete_fronted hJ id)
  exact holder_countDelete (g := fun a => { a with chunksExpected := n }) (fun _ => rfl) (fun _ => rfl)
    hexists

/-! ### Calls -/

theorem ending_finishes (s : Front Operation Client Reply) :
    Ending fun t => Finishes callProtocol s t := fun _ _ h hstep => h.tail hstep

/-- Code that keeps every invariant that requests may end in leads to a state in which some have
ended. -/
theorem wp_finishes {m : Barista PUnit} (hm : ∀ J, Ending J → m.Keeps (Fronted J)) (hw : w.metaLock = none) :
    wp m (fun _ w' => Finishes callProtocol (front w) (front w')) (fun _ => True) w :=
  wp_mono (hm _ (ending_finishes (front w)) w ⟨hw, .refl⟩) (fun _ _ hw' => hw'.2) fun _ _ => trivial

/-- A call that is answered at once. -/
theorem serves_answer (result : Reply) (hi : i.caller = some client) (hk : i.kind = some result.kind)
    (hfull : result.Full) (hr : w'.requests.holder = w.requests.holder)
    (hlog : w'.network.log.filterMap Event.answer =
      (client, result) :: w.network.log.filterMap Event.answer) :
    Serves callProtocol (front w) i (front w') := by
  have heq : front w' = { front w with answers := (client, result) :: (front w).answers } := by
    simp only [front, hr, hlog]
  rw [heq]
  exact .answer hi ⟨hk, hfull⟩

/-- A call that becomes a request. -/
theorem serves_request {w₁ : World} {f : ℕ} (hi : i.caller = some client) (hk : i.kind = some op.kind)
    (hnew : w.requests.holder op = none)
    (hrest : Finishes callProtocol (front w₁) (front w'))
    (hr : w₁.requests.holder = Function.update w.requests.holder op (some (client, f)))
    (hlog : w₁.network.log.filterMap Event.answer = w.network.log.filterMap Event.answer) :
    Serves callProtocol (front w) i (front w') := by
  have heq : front w₁ = { front w with
      active := Function.update (front w).active op (some client) } := by
    have hactive : (fun op' => (w₁.requests.holder op').map Prod.fst) =
        Function.update (front w).active op (some client) := by
      funext op'
      rw [hr]
      rcases eq_or_ne op' op with rfl | hne
      · simp
      · simp [hne, front]
    simp only [front, hlog, hactive]
  rw [heq] at hrest
  exact .request hi hk (by simp [front, hnew]) hrest

theorem readRefusal_full {fd count : ℤ} {result : Reply} (h : readRefusal fd count client w = some result) :
    result.kind = .readFile ∧ result.Full := by
  have hrefused : ∀ cnt fd', toInt32 cnt ≤ 0 → .readResult fd' cnt [] = result →
      result.kind = .readFile ∧ result.Full := by
    rintro cnt fd' hcnt rfl
    exact ⟨rfl, hcnt⟩
  have hopen : toInt32 fileNotOpenForRead ≤ 0 := by decide
  have hstat : toInt32 unableToStatFile ≤ 0 := by decide
  have hzero : toInt32 0 ≤ 0 := by decide
  rw [readRefusal] at h
  by_cases hmay : MayRead w client (w.volatile.getFileInfo (fdKey fd)).fileId
  · rw [if_neg (not_not.mpr hmay)] at h
    split at h
    · exact hrefused _ _ hstat (Option.some.inj h)
    · dsimp only at h
      split_ifs at h
      · exact hrefused _ _ hopen (Option.some.inj h)
      · exact hrefused _ _ hzero (Option.some.inj h)
  · rw [if_pos hmay] at h
    exact hrefused _ _ hopen (Option.some.inj h)

theorem writeRefusal_full {fd count : ℤ} {result : Reply} (h : writeRefusal fd count client w = some result) :
    result.kind = .writeFile ∧ result.Full := by
  rw [writeRefusal] at h
  by_cases hheld : FileLocks.HoldsExclusive
      (w.fileLocks.record (w.volatile.getFileInfo (fdKey fd)).fileId) client
  · rw [if_neg (not_not.mpr hheld)] at h
    split at h
    · exact Option.some.inj h ▸ ⟨rfl, trivial⟩
    · split_ifs at h
      · exact Option.some.inj h ▸ ⟨rfl, trivial⟩
      · exact Option.some.inj h ▸ ⟨rfl, trivial⟩
  · rw [if_pos hheld] at h
    exact Option.some.inj h ▸ ⟨rfl, trivial⟩

theorem keeps_dispatchRead_rest (hJ : Ending J) (id : ℕ) (fd : ℤ) (f : ℕ) (stat : DecafsFileStat)
    (offset count : ℤ) (client : Client) : (do
      let numChunks ← readStripes R id fd f stat count client ((toInt32 count).toNat + 2)
        (getFirstStripe stat.stripeSize.val offset).1 (getFirstStripe stat.stripeSize.val offset).2 0 0
      finishRead id numChunks : Barista PUnit).Keeps (Fronted J) :=
  .bind ((stripeLoops_fronted hJ).readStripes _ _ _ _ _ _ _ _ _ _ _) fun _ =>
    keeps_finishRead_fronted hJ _ _

theorem serves_readFile {fd count : ℤ} {script : List SendOutcome} (hw : Booked none w)
    (hid : w.volatile.requestId + 1 < 4294967296) (hi : i = .readFile fd count client script) :
    wp (readFile R fd (sizeArgument count) client)
      (fun _ w' => Serves callProtocol (front w) i (front w')) (fun _ => True) w := by
  subst hi
  refine wp_readFile hw.unlocked hid (fun _ => trivial) (fun _ => trivial) (fun _ _ result hresult => ?_)
    fun _ _ info _ _ _ => ?_
  · exact serves_answer _ rfl (by rw [(readRefusal_full hresult).1]; rfl) (readRefusal_full hresult).2 rfl rfl
  · have hnew : w.requests.holder (.read (w.volatile.requestId + 1)) = none :=
      hw.holder_eq_none (by simp [Operation.tags])
    unfold dispatchRead
    rw [wp_bind, requests, wp_zoom, wp_modify, wp_bind, wp_emit]
    refine wp_mono (wp_finishes (fun J hJ => keeps_dispatchRead_rest hJ _ _ _ _ _ _ _) hw.unlocked)
      (fun _ w' hw' => ?_) fun _ he => he
    exact serves_request rfl rfl hnew hw' (Requests.holder_setRead _) rfl

/-- The end of `write_file`: the write is still there, so it is the one that is counted for. -/
theorem wp_finishWrite_fronted {q : WriteRequest} (hJ : Ending J) (hq : Booked (some (.write q)) w)
    (hw : Fronted J w) (n : ℕ × ℕ) :
    wp (finishWrite q n) (fun _ w' => Fronted J w') (fun _ => True) w := by
  obtain ⟨a, ha⟩ := Finmap.mem_iff.mp (hq.inv.dispatching (.write q) rfl).1
  have hrequest : w.requests.writeRequest q = a := by simp [Requests.writeRequest, ha]
  simp only [finishWrite, wp_bind, wp_get, wp_assert, requests, wp_zoom, wp_modify, hrequest]
  refine ⟨fun _ => keeps_checkWriteComplete_fronted hJ _ _ ⟨hw.1, ?_⟩, fun _ => trivial⟩
  have heq : front { w with requests := w.requests.setWrite q { a with
      info := { a.info with chunksExpected := n.1 }
      replicaInfo := { a.replicaInfo with chunksExpected := n.2 } } } = front w :=
    front_congr (Requests.holder_setWrite_of_eq ha rfl rfl) rfl
  rw [heq]
  exact hw.2

theorem serves_writeFile {fd count : ℤ} {buf : List UInt8} {script : List SendOutcome} (hw : Booked none w)
    (hid : w.volatile.requestId + 2 < 4294967296) (hi : i = .writeFile fd buf count client script) :
    wp (writeFile R fd buf (sizeArgument count) client)
      (fun _ w' => Serves callProtocol (front w) i (front w')) (fun _ => True) w := by
  subst hi
  refine wp_writeFile hw.unlocked hid (fun _ => trivial) (fun _ => trivial) (fun _ _ result hresult => ?_)
    fun h₀ _ info _ _ hcursor => ?_
  · exact serves_answer _ rfl (by rw [(writeRefusal_full hresult).1]; rfl) (writeRefusal_full hresult).2 rfl rfl
  · have hnew : w.requests.holder (.write (nextWrite w)) = none :=
      hw.holder_eq_none (by simp [Operation.tags, nextWrite])
    obtain ⟨offset, hoffset⟩ := Int.eq_ofNat_of_zero_le hcursor
    rw [hoffset]
    unfold dispatchWrite
    rw [wp_bind, requests, wp_zoom, wp_modify, wp_bind, wp_emit, getFirstStripe_eq, wp_bind]
    have hstripes := wp_writeStripes_registered (R := R) (f := w.fileAt fd) fd hw h₀
      (PersistentMetadata.toStat info) offset buf count
    have hkeeps := (stripeLoops_fronted (R := R) (ending_finishes
      (front (writeRegistered fd (w.fileAt fd) client w)))).writeStripes (nextWrite w) fd (w.fileAt fd)
      (PersistentMetadata.toStat info) buf (sizeArgument count) client
      ((toInt32 (sizeArgument count)).toNat + 2)
      (firstBlock (PersistentMetadata.toStat info).stripeSize.val offset)
      (firstOffset (PersistentMetadata.toStat info).stripeSize.val offset) 0 (0, 0)
      (writeRegistered fd (w.fileAt fd) client w) ⟨hw.unlocked, .refl⟩
    refine wp_mono (wp_and hstripes hkeeps) (fun n w₂ hw₂ => ?_) fun _ _ => trivial
    obtain ⟨⟨used, sent, hstored, -, -⟩, hfronted⟩ := hw₂
    refine wp_mono (wp_finishWrite_fronted (ending_finishes _) hstored.booked hfronted n)
      (fun _ w' hw' => ?_) fun _ he => he
    exact serves_request rfl rfl hnew hw'.2
      ((Requests.holder_addWrite _).trans (Requests.holder_setWrite _)) rfl

theorem serves_deleteFile {path : String} {script : List SendOutcome} (hw : Booked none w)
    (hid : w.volatile.requestId + 1 < 4294967296) (hi : i = .deleteFile path client script) :
    wp (deleteFile R path client)
      (fun _ w' => Serves callProtocol (front w) i (front w')) (fun _ => True) w := by
  subst hi
  refine wp_deleteFile hw.unlocked hid (fun _ => trivial) (fun _ result locks _ _ => ?_)
    fun _ info _ _ locks _ => ?_
  · exact serves_answer (.removeResult result) rfl rfl trivial rfl rfl
  · have hnew : w.requests.holder (.delete (w.volatile.requestId + 1)) = none :=
      hw.holder_eq_none (by simp [Operation.tags])
    unfold dispatchDelete
    rw [wp_bind, requests, wp_zoom, wp_modify, wp_bind, wp_emit]
    have hrest : ∀ J, Ending J → (do
        let numChunks ← processDeleteFile R (w.volatile.requestId + 1) info.fileId
        finishDelete (w.volatile.requestId + 1) numChunks : Barista PUnit).Keeps (Fronted J) :=
      fun J hJ => .bind ((stripeLoops_fronted hJ).processDeleteFile _ _) fun _ =>
        keeps_finishDelete_fronted hJ _ _
    refine wp_mono (wp_finishes hrest hw.unlocked) (fun _ w' hw' => ?_) fun _ he => he
    exact serves_request rfl rfl hnew hw' (Requests.holder_setDelete _) rfl

theorem serves_openFileId {size flags f : ℕ} {path : String} (hw : w.metaLock = none)
    (hclear : (custody w).Clear) (hfront : front w = front w₀) :
    wp (openFileId R f size flags client)
      (fun _ w' => Serves callProtocol (front w₀) (.openFile path flags client) (front w'))
      (fun _ => True) w := by
  refine wp_openFileId hw hclear (fun _ => trivial) (fun _ => ?_) fun _ locks _ => ?_
  · rw [← hfront]
    exact serves_answer (.openResult fileInUse) rfl rfl trivial rfl rfl
  · rw [← hfront]
    refine serves_answer (.openResult (toInt32 w.volatile.nextFd)) rfl rfl trivial ?_ ?_
    · split_ifs <;> rfl
    · split_ifs <;> rfl

theorem serves_openFile {path : String} {flags : ℕ} (hw : w.metaLock = none) (hclear : (custody w).Clear) :
    wp (openFile R path flags client)
      (fun _ w' => Serves callProtocol (front w) (.openFile path flags client) (front w'))
      (fun _ => True) w := by
  refine wp_openFile_fileId hw (fun _ => trivial) (fun info _ => ?_) (fun _ _ _ _ time => ?_)
    (fun _ _ e _ => ?_) fun _ _ => ?_
  · exact serves_openFileId hw hclear rfl
  · exact serves_openFileId hw hclear rfl
  · exact serves_openFileId hw hclear rfl
  · exact serves_answer (.openResult fileNotFoundForReading) rfl rfl trivial rfl rfl

/-- **The step lemma.** -/
theorem Running.serves (hw : Running w) (hids : w.volatile.requestId + i.ids < 4294967296)
    (hstep : step R w i w') : Serves callProtocol (front w) i (front w') := by
  have hbooked := hw.booked
  refine (?_ : wp (handle R i) (fun _ w' => Serves callProtocol (front w) i (front w'))
    (fun _ => True) w).of_ok hstep
  cases i with
  | openFile path flags client => exact serves_openFile hbooked.unlocked hw.clear
  | readFile fd count client script =>
    exact wp_scripted.mpr (serves_readFile (hbooked.withScript script) hids rfl)
  | writeFile fd buf count client script =>
    exact wp_scripted.mpr (serves_writeFile (hbooked.withScript script) hids rfl)
  | closeFile fd client =>
    refine wp_closeFile (fun _ _ _ _ => trivial) (fun result _ _ _ => ?_) fun file _ _ _ locks _ => ?_
    · exact serves_answer (.closeResult result) rfl rfl trivial rfl rfl
    · exact serves_answer (.closeResult (toInt32 file.fileId)) rfl rfl trivial rfl rfl
  | deleteFile path client script =>
    exact wp_scripted.mpr (serves_deleteFile (hbooked.withScript script) hids rfl)
  | fileSeek fd offset whence client =>
    refine wp_fileSeek hbooked.unlocked (fun _ => trivial) ?_
    have hsought : (sought R fd offset whence client w).requests = w.requests ∧
        (sought R fd offset whence client w).network = w.network :=
      sought_induction (P := fun w' => w'.requests = w.requests ∧ w'.network = w.network) ⟨rfl, rfl⟩
        fun _ _ h => h
    refine serves_answer (.seekResult
      ((sought R fd offset whence client w).volatile.getFileCursor (fdKey fd))) rfl rfl trivial ?_ ?_
    · exact congrArg Requests.holder hsought.1
    · rw [← hsought.2]
      rfl
  | response d =>
    refine wp_mono (wp_finishes (fun J hJ => keeps_receive_fronted hJ d) hbooked.unlocked)
      (fun _ _ hw' => ?_) fun _ he => he
    exact .other rfl hw'
  | nodeUp node =>
    refine wp_mono (wp_finishes (fun J hJ => ?_) hbooked.unlocked) (fun _ _ hw' => ?_) fun _ he => he
    · exact .bind (keeps_volatile_fronted _) fun _ => keeps_pure _
    · exact .other rfl hw'
  | nodeDown node =>
    refine wp_mono (wp_finishes (fun J hJ => ?_) hbooked.unlocked) (fun _ _ hw' => ?_) fun _ he => he
    · exact .bind (keeps_volatile_fronted _) fun _ => keeps_pure _
    · exact .other rfl hw'

/-! ### Runs -/

theorem Running.viewed (hw : Running w) (hrun : Steps (step R) w is w')
    (hids : w.volatile.requestId + idsOf is < 4294967296) :
    Steps (Viewed callProtocol front (step R)) w is w' := by
  induction hrun with
  | refl w => exact .refl w
  | @cons w w₁ w' i is head _ ih =>
    rw [idsOf_cons, ← Nat.add_assoc] at hids
    have hhandled := hw.handled (by omega) head
    have hrest := ih (hhandled.running hw) (by rwa [hhandled.requestId])
    exact .cons ⟨head, hw.serves (by omega) head⟩ hrest

theorem Started.accounts (h : Started w) (client : Client) :
    Accounts callProtocol client [] [] (front w) := by
  refine .nil (fun op => ?_) ?_
  · cases op <;> simp [front, h.requests, Requests.holder]
  · simp [front, answersTo, h.log]

/-- **Every call has its answer.** In every run, whatever the clients send before they have their answers
and in whatever order the responses come, the calls of a client are those that it was given an answer to,
each one of the kind of the call, and those that the server is still working on, each one a request of
its own. -/
theorem calls_matched (hstart : Started w₀) (hrun : Steps (step R) w₀ is w) (hids : idsOf is < 4294967296)
    (client : Client) :
    Matched callProtocol client (callsOf callProtocol client is.reverse) (front w) := by
  have hviewed := hstart.running.viewed hrun (by rwa [hstart.requestId, Nat.zero_add])
  have hfirst : Matched callProtocol client [] (front w₀) :=
    ⟨[], [], hstart.accounts client, by simp⟩
  have hlast := hfirst.run hviewed
  rwa [List.append_nil] at hlast

theorem calls_matched_sample : ∃ w, Steps (step sampleRuntime) sampleServer
    [.openFile "a" oRdwr (sampleClient 1), .closeFile 1 (sampleClient 1)] w ∧
    Matched callProtocol (sampleClient 1)
      [.closeFile 1 (sampleClient 1), .openFile "a" oRdwr (sampleClient 1)] (front w) := by
  obtain ⟨w, hrun, -⟩ := exists_steps (R := sampleRuntime) (w := sampleServer)
    [.openFile "a" oRdwr (sampleClient 1), .closeFile 1 (sampleClient 1)] (p := fun _ => true)
    (by decide +kernel)
  exact ⟨w, hrun, calls_matched started_sampleServer hrun (by decide) (sampleClient 1)⟩

/-- **A client that waits for each answer has its answers in order.** The packet that it takes next is
the answer to the call that it made last. -/
theorem answers_inOrder (hstart : Started w₀) (hrun : Steps (step R) w₀ is w)
    (hids : idsOf is < 4294967296) (hwaits : WaitsFor callProtocol front (step R) client 0 w₀ is) :
    InOrder callProtocol client (callsOf callProtocol client is.reverse) (front w) := by
  have hviewed := hstart.running.viewed hrun (by rwa [hstart.requestId, Nat.zero_add])
  have hfirst : InOrder callProtocol client [] (front w₀) :=
    ⟨[], [], hstart.accounts client, by simp, Nat.zero_le _⟩
  have hlast := hfirst.run hviewed hwaits
  rwa [List.append_nil] at hlast

theorem answers_inOrder_sample : ∃ w, Steps (step sampleRuntime) sampleServer
    [.openFile "a" oRdwr (sampleClient 1), .closeFile 1 (sampleClient 1)] w ∧
    InOrder callProtocol (sampleClient 1)
      [.closeFile 1 (sampleClient 1), .openFile "a" oRdwr (sampleClient 1)] (front w) := by
  obtain ⟨w₁, hopen, hanswered⟩ := exists_steps (R := sampleRuntime) (w := sampleServer)
    [.openFile "a" oRdwr (sampleClient 1)]
    (p := fun w => ((front w).answersTo (sampleClient 1)).length = 1 ∧
      (run sampleRuntime w [.closeFile 1 (sampleClient 1)]).toOption.isSome) (by decide +kernel)
  obtain ⟨hcount, hcloses⟩ := of_decide_eq_true hanswered
  obtain ⟨w, hclose, -⟩ := exists_steps (R := sampleRuntime) (w := w₁) [.closeFile 1 (sampleClient 1)]
    (p := fun _ => true) (by simpa using hcloses)
  have hrun := hopen.trans hclose
  refine ⟨w, hrun, answers_inOrder started_sampleServer
    hrun (by decide) ?_⟩
  intro before i behind y hsplit _ hbefore
  match before, hsplit with
  | [], _ =>
    obtain rfl := Steps.nil_iff.mp hbefore
    rfl
  | [_], hsplit =>
    obtain ⟨rfl, -⟩ := List.cons.inj hsplit
    obtain ⟨_, hfirst, hnil⟩ := Steps.cons_iff.mp hbefore
    obtain ⟨_, hfirst', hnil'⟩ := Steps.cons_iff.mp hopen
    obtain rfl := Steps.nil_iff.mp hnil
    obtain rfl := Steps.nil_iff.mp hnil'
    obtain rfl := (Prod.mk.inj (Except.ok.inj (hfirst.symm.trans hfirst'))).2
    exact hcount
  | _ :: _ :: before, hsplit => exact absurd (congrArg List.length hsplit) (by simp)

end

end DecaFS
