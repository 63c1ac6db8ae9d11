import DecaFS.BaristaCore.Progress

/-!
# The response handlers keep the books

Handling a response is the desk's move `answer`, and the check the handlers end with is its
reply. `Heard` collects what the server's state keeps while responses come in.
-/

namespace DecaFS

open Desk Code

/-! ### The ledger -/

section Ledger

variable {log : List Event} {t : Tag} {node : ℤ} {r : ChunkRequest} {op : Operation}

@[simp]
theorem ledger_sent : ledger (.sent node r :: log) = .sent r.tag :: ledger log := rfl

@[simp]
theorem ledger_failed : ledger (.failed node r :: log) = ledger log := rfl

@[simp]
theorem ledger_answered {count : ℤ} {data : List UInt8} :
    ledger (.answered r count data :: log) = .answered r.tag :: ledger log := rfl

@[simp]
theorem ledger_registered : ledger (.registered op :: log) = .opened op :: ledger log := rfl

@[simp]
theorem ledger_replied {client : Client} {reply : Reply} :
    ledger (.replied op client reply :: log) = .replied op :: ledger log := rfl

@[simp]
theorem ledger_told {client : Client} {reply : Reply} :
    ledger (.told client reply :: log) = ledger log := rfl

@[simp]
theorem ledger_stripe {flag : Flag} {stripeId stripeSize : ℕ} {offset count : ℤ} :
    ledger (.stripe flag stripeId stripeSize offset count :: log) = ledger log := rfl

@[simp]
theorem ledger_compared {count done size offset : ℤ} :
    ledger (.compared count done size offset :: log) = ledger log := rfl

theorem length_under_sends (t : Tag) : ∀ log, (under t (sends log)).length = (ledger log).count (.sent t)
  | [] => rfl
  | .sent node r :: log => by
    have ih := length_under_sends t log
    rcases eq_or_ne r.tag t with heq | hne
    · simpa [sends, under, heq] using ih
    · simpa [sends, under, hne] using ih
  | .stripe .. :: log | .compared .. :: log | .failed .. :: log | .answered .. :: log
  | .registered .. :: log | .replied .. :: log | .told .. :: log => by
    simpa [sends, List.count_cons] using length_under_sends t log

end Ledger

/-! ### The moves of the desk -/

section Moves

variable {current : Option Operation} {w w' : World} {op : Operation} {t : Tag}

/-- The counters of an active request. -/
theorem Requests.LookupsPaired.exists_counter {r : Requests} (h : r.LookupsPaired)
    (hop : r.Active op) (ht : t ∈ op.tags) : ∃ c, r.counter t = some c := by
  cases op with
  | read id =>
    obtain rfl : t = ⟨.readChunk, id⟩ := by simpa [Operation.tags] using ht
    obtain ⟨a, ha⟩ := Finmap.mem_iff.mp hop
    exact ⟨a.info, by simp [counter, ha]⟩
  | write q =>
    obtain ⟨a, ha⟩ := Finmap.mem_iff.mp hop
    have ht' : t = ⟨.writeChunk, q.requestId⟩ ∨ t = ⟨.writeChunk, q.replicaRequestId⟩ := by
      simpa [Operation.tags] using ht
    rcases ht' with rfl | rfl
    · exact ⟨_, counter_write q a (h.lookup_id q hop) ha⟩
    · exact ⟨_, counter_write q a (h.lookup_replica q hop) ha⟩
  | delete id =>
    obtain rfl : t = ⟨.deleteChunk, id⟩ := by simpa [Operation.tags] using ht
    exact Finmap.mem_iff.mp hop

theorem desk_put {r : ChunkRequest} (node : ℤ) (hreq : w'.requests = w.requests)
    (hfl : w'.network.inFlight = w.network.inFlight ++ [r])
    (hlog : w'.network.log = .sent node r :: w.network.log) :
    desk current w' = (desk current w).put r.tag := by
  refine Desk.ext rfl (by simp [desk, put, hreq]) (by simp [desk, put, hreq])
    (by simp [desk, put, hreq]) ?_ (by simp [desk, put, hlog])
  funext t
  rcases eq_or_ne t r.tag with rfl | hne
  · simp [desk, put, hfl]
  · simp [desk, put, hfl, hne, hne.symm]

theorem desk_take {r : ChunkRequest} {c : RequestInfo} {i : ℕ}
    (hr : w.network.inFlight[i]? = some r) (hc : w.requests.counter r.tag = some c)
    (hcounter : ∀ t, w'.requests.counter t =
      if t = r.tag then some { c with chunksReceived := c.chunksReceived + 1 }
      else w.requests.counter t)
    (hactive : ∀ op, w'.requests.Active op ↔ w.requests.Active op)
    (hfl : w'.network.inFlight = w.network.inFlight.eraseIdx i)
    {count : ℤ} {data : List UInt8}
    (hlog : w'.network.log = .answered r count data :: w.network.log) :
    desk current w' = (desk current w).take r.tag := by
  obtain ⟨hi, rfl⟩ := List.getElem?_eq_some_iff.mp hr
  refine Desk.ext rfl (by simp [desk, take, hactive]) ?_ ?_ ?_ (by simp [desk, take, hlog])
  · funext t
    rcases eq_or_ne t w.network.inFlight[i].tag with rfl | hne
    · simp [desk, take, hcounter, hc]
    · simp [desk, take, hcounter, hne]
  · funext t
    rcases eq_or_ne t w.network.inFlight[i].tag with rfl | hne
    · simp [desk, take, hcounter, hc]
    · simp [desk, take, hcounter, hne]
  · funext t
    have hperm := (List.getElem_cons_eraseIdx_perm hi).countP_eq (fun q => decide (q.tag = t))
    rw [List.countP_cons] at hperm
    simp only [desk, take, hfl]
    rcases eq_or_ne t w.network.inFlight[i].tag with rfl | hne
    · simp only [decide_true, if_true] at hperm
      simp [← hperm]
    · simpa [hne, hne.symm] using hperm

theorem desk_close {client : Client} {result : Reply} (h : w.requests.LookupsPaired)
    (hreq : w'.requests = w.requests.close op)
    (hfl : w'.network.inFlight = w.network.inFlight)
    (hlog : w'.network.log = .replied op client result :: w.network.log) :
    desk current w' = close Operation.tags (desk current w) op := by
  have hcounter := Requests.counter_close h op
  refine Desk.ext rfl ?_ ?_ ?_ (by simp [desk, close, hfl]) (by simp [desk, close, hlog])
  · ext op'
    simp [desk, close, hreq, Requests.active_close]
  · funext t
    by_cases ht : t ∈ op.tags <;> simp [desk, close, hreq, hcounter, ht]
  · funext t
    by_cases ht : t ∈ op.tags <;> simp [desk, close, hreq, hcounter, ht]

theorem desk_expects {n : Tag → ℕ}
    (hcounter : ∀ t, w'.requests.counter t =
      if t ∈ op.tags then (w.requests.counter t).map fun c => { c with chunksExpected := n t }
      else w.requests.counter t)
    (hsome : ∀ t ∈ op.tags, ∃ c, w.requests.counter t = some c)
    (hactive : ∀ op, w'.requests.Active op ↔ w.requests.Active op)
    (hfl : w'.network.inFlight = w.network.inFlight)
    (hlog : w'.network.log = w.network.log) :
    desk none w' = expects Operation.tags (desk current w) op n := by
  refine Desk.ext rfl (by simp [desk, expects, hactive]) ?_ ?_ (by simp [desk, expects, hfl])
    (by simp [desk, expects, hlog])
  · funext t
    by_cases ht : t ∈ op.tags
    · obtain ⟨c, hc⟩ := hsome t ht
      simp [desk, expects, hcounter, ht, hc]
    · simp [desk, expects, hcounter, ht]
  · funext t
    by_cases ht : t ∈ op.tags
    · obtain ⟨c, hc⟩ := hsome t ht
      simp [desk, expects, hcounter, ht, hc]
    · simp [desk, expects, hcounter, ht]

end Moves

/-! ### The metadata lock -/

namespace Barista

variable {α : Type} {w : World} {E : Halt Site → Prop} {client : Client}

/-- The lock is free when a metadata call begins and free again when it returns. -/
theorem wp_withMetadataLock {Q : α → World → Prop} (hlock : w.metaLock = none) (refused : α)
    (m : Code (Halt Site) PersistentMetadata α) :
    wp (withMetadataLock client refused m) Q E w ↔
      if client.userId = 0 then E (.assertion .lockUser)
      else wp m (fun a p => Q a { w with persistent := p }) E w.persistent := by
  have hback : ∀ p : PersistentMetadata,
      ({ w with metaLock := none, persistent := p } : World) = { w with persistent := p } := by
    intro p
    rw [← hlock]
  by_cases huser : client.userId = 0
  · simp [withMetadataLock, getMetadataLock, huser]
  · simp [withMetadataLock, getMetadataLock, releaseMetadataLock, huser, hlock, lockSuccess, hback]

/-! ### The checks -/

/-- The state in which `e` is logged. -/
def logged (e : Event) (w : World) : World :=
  { w with network := { w.network with log := e :: w.network.log } }

theorem wp_emit {e : Event} {Q : PUnit → World → Prop} :
    wp (emit e) Q E w ↔ Q ⟨⟩ (logged e w) := by
  rw [emit, network, wp_zoom, wp_modify]
  rfl

/-- The result of a request goes to the client, and the tables are `r` now. -/
def reply (op : Operation) (client : Client) (result : Reply) (r : Requests) (w : World) : World :=
  { w with
    requests := r
    network := { w.network with log := .replied op client result :: w.network.log } }

variable {Q : PUnit → World → Prop} {id : ℕ}

theorem wp_checkReadComplete {a : ReadRequestInfo}
    (ha : w.requests.activeReadRequests.lookup id = some a) :
    wp (checkReadComplete id) Q E w ↔
      if a.info.chunksExpected ≠ 0 ∧ a.info.chunksExpected = a.info.chunksReceived then
        Q ⟨⟩ (reply (.read id) a.info.client (.readResult a.fd (packetCount a.responsePackets)
          (a.responsePackets.flatMap Prod.snd)) (w.requests.eraseRead id) w)
      else Q ⟨⟩ w := by
  have hexists : w.requests.readRequestExists id = true := by
    simp [Requests.readRequestExists, Finmap.mem_of_lookup_eq_some ha]
  have hread : w.requests.readRequest id = a := by simp [Requests.readRequest, ha]
  unfold checkReadComplete
  by_cases h₀ : a.info.chunksExpected = 0
  · simp [hexists, hread, h₀]
  · by_cases h₁ : a.info.chunksExpected = a.info.chunksReceived
    · simp [hexists, hread, h₁, emit, network, requests, reply, h₁ ▸ h₀]
    · simp [hexists, hread, h₀, h₁]

theorem wp_checkWriteComplete {q : WriteRequest} {a : WriteRequestInfo}
    (hq : w.requests.writeRequestLookups.lookup id = some q)
    (ha : w.requests.activeWriteRequests.lookup q = some a) :
    wp (checkWriteComplete id) Q E w ↔
      if a.info.chunksExpected ≠ 0 ∧ a.info.chunksExpected = a.info.chunksReceived ∧
          a.replicaInfo.chunksExpected = a.replicaInfo.chunksReceived then
        Q ⟨⟩ (reply (.write q) a.info.client (.writeResult a.fd a.count) (w.requests.eraseWrite q) w)
      else Q ⟨⟩ w := by
  have hlookup : w.requests.writeLookup id = q := by simp [Requests.writeLookup, hq]
  have hwrite : w.requests.writeRequest q = a := by simp [Requests.writeRequest, ha]
  have hexists : w.requests.writeRequestExists id = true := by
    simp [Requests.writeRequestExists, hlookup, Finmap.mem_of_lookup_eq_some ha,
      Finmap.mem_of_lookup_eq_some hq]
  unfold checkWriteComplete
  by_cases h₀ : a.info.chunksExpected = 0
  · simp [hexists, hlookup, hwrite, h₀]
  · by_cases h₁ : a.info.chunksExpected = a.info.chunksReceived ∧
        a.replicaInfo.chunksExpected = a.replicaInfo.chunksReceived
    · simp [hexists, hlookup, hwrite, h₁, emit, network, requests, reply, h₁.1 ▸ h₀]
    · simp [hexists, hlookup, hwrite, h₀, h₁]

/-- The reply to a delete, the metadata of its file removed and the file's lock released. -/
theorem wp_checkDeleteComplete {a : RequestInfo} (hlock : w.metaLock = none)
    (ha : w.requests.activeDeleteRequests.lookup id = some a)
    (hQ : (a.chunksExpected = 0 ∨ a.chunksExpected ≠ a.chunksReceived) → Q ⟨⟩ w)
    (hcomplete : a.chunksExpected ≠ 0 → a.chunksExpected = a.chunksReceived →
      if a.client.userId = 0 then E (.assertion .lockUser)
      else wp (releaseLock a.client a.fileId) (fun _ locks => Q ⟨⟩
        { reply (.delete id) a.client (.removeResult 0) (w.requests.eraseDelete id) w with
          fileLocks := locks, persistent := w.persistent.without a.fileId }) E w.fileLocks) :
    wp (checkDeleteComplete id) Q E w := by
  have hexists : w.requests.deleteRequestExists id = true := by
    simp [Requests.deleteRequestExists, Finmap.mem_of_lookup_eq_some ha]
  have hdelete : w.requests.deleteRequest id = a := by simp [Requests.deleteRequest, ha]
  unfold checkDeleteComplete
  by_cases h₀ : a.chunksExpected = 0
  · simpa [hexists, hdelete, h₀] using hQ (.inl h₀)
  · by_cases h₁ : a.chunksExpected = a.chunksReceived
    · have hdone := hcomplete h₀ h₁
      simp only [wp_bind, wp_get, wp_assert, hexists, hdelete, h₁ ▸ h₀, h₁, if_false, if_true,
        emit, network, wp_zoom, wp_modify, deleteFileContents, true_implies, reduceCtorEq,
        false_implies, and_true]
      rw [wp_withMetadataLock (by exact hlock)]
      by_cases huser : a.client.userId = 0
      · simpa [huser] using hdone
      · simp only [huser, if_false] at hdone ⊢
        refine PersistentMetadata.wp_deleteFileContents fun res hres => ?_
        simp only [hres, if_false, wp_bind, locking, requests, wp_zoom, wp_modify]
        exact hdone
    · simpa [hexists, hdelete, h₀, h₁] using hQ (.inr h₁)

end Barista

/-! ### Handling a response -/

/-- The assertions about the request tables. -/
def Site.OfTables : Site → Prop
  | .readFileEnd | .writeFileEnd | .deleteFileEnd | .checkRead | .checkWrite | .checkDelete
  | .readResponse | .writeResponse | .deleteResponse => True
  | _ => False

/-- A stop that no assertion about the request tables causes. -/
def Halt.Harmless : Halt Site → Prop
  | .assertion site => ¬ site.OfTables
  | .noReturn => True

/-- The event is a call of the stripe layer or a comparison of sizes. -/
def Event.isCall : Event → Bool
  | .stripe .. | .compared .. => true
  | _ => false

/-- The files and their locks are left alone while no delete is active. -/
def Undisturbed (w w' : World) : Prop :=
  w.requests.activeDeleteRequests = ∅ → w'.requests.activeDeleteRequests = ∅ ∧
    w'.persistent = w.persistent ∧ w'.fileLocks = w.fileLocks

theorem Undisturbed.refl {w : World} : Undisturbed w w := fun h => ⟨h, rfl, rfl⟩

theorem Undisturbed.trans {w w' w'' : World} (h : Undisturbed w w') (h' : Undisturbed w' w'') :
    Undisturbed w w'' := by
  intro hidle
  obtain ⟨h₁, h₂, h₃⟩ := h hidle
  obtain ⟨h₁', h₂', h₃'⟩ := h' h₁
  exact ⟨h₁', h₂'.trans h₂, h₃'.trans h₃⟩

/-- What the server's state keeps while responses come in. -/
structure Kept (R : Runtime) (w w' : World) : Prop where
  volatile : w'.volatile = w.volatile
  chunks : w'.chunks = w.chunks
  script : w'.network.script = w.network.script
  metaLock : w'.metaLock = w.metaLock
  sends : sends w'.network.log = sends w.network.log
  calls : w'.network.log.filter Event.isCall = w.network.log.filter Event.isCall
  deletes : Deleting w w'
  reads : Assembling R w w'
  custody : Custody.Ending (custody w) (custody w')
  answers : Answering w w'
  idle : Undisturbed w w'

theorem Kept.refl (R : Runtime) (w : World) : Kept R w w :=
  ⟨rfl, rfl, rfl, rfl, rfl, rfl, .refl, .refl, .refl, .refl, .refl⟩

theorem Kept.trans {R : Runtime} {w w' w'' : World} (h : Kept R w w') (h' : Kept R w' w'') :
    Kept R w w'' where
  volatile := h'.volatile.trans h.volatile
  chunks := h'.chunks.trans h.chunks
  script := h'.script.trans h.script
  metaLock := h'.metaLock.trans h.metaLock
  sends := h'.sends.trans h.sends
  calls := h'.calls.trans h.calls
  deletes := h.deletes.trans h'.deletes
  reads := h.reads.trans h'.reads
  custody := h.custody.trans h'.custody
  answers := h.answers.trans h'.answers
  idle := h.idle.trans h'.idle

/-- What handling responses does to the books. -/
structure Heard (R : Runtime) (current : Option Operation) (w w' : World) : Prop
    extends Kept R w w' where
  booked : Booked current w'
  reaches : Reaches Operation.tags Tag.id (desk current w) (desk current w')

section Heard

variable {R : Runtime} {current current' : Option Operation} {w w' w'' : World} {op : Operation}
  {t : Tag} {c : RequestInfo}

theorem Heard.refl (h : Booked current w) : Heard R current w w := ⟨.refl R w, h, .refl⟩

theorem Heard.trans (h : Heard R current w w') (h' : Heard R current w' w'') :
    Heard R current w w'' :=
  ⟨h.toKept.trans h'.toKept, h'.booked, h.reaches.trans h'.reaches⟩

theorem Booked.step {l : Label Tag Operation} (h : Booked current w)
    (hs : Step Operation.tags Tag.id (desk current w) l (desk current' w'))
    (hpaired : w'.requests.LookupsPaired) (hnamed : w'.requests.DeletersNamed)
    (hlock : w'.metaLock = none) (hid : w.volatile.requestId ≤ w'.volatile.requestId)
    (hnew : ∀ op, l = .refuse op ∨ l = .openOp op → ∀ t ∈ op.tags, t.id ≤ w'.volatile.requestId) :
    Booked current' w' where
  inv := h.inv.step hs
  paired := hpaired
  named := hnamed
  issued op hop t ht := by
    rcases h.inv.mentions_of_step hs hop with hold | hl
    · exact (h.issued op hold t ht).trans hid
    · exact hnew op hl t ht
  unlocked := hlock

/-- A move without a new request, in a state that is otherwise kept. -/
theorem Booked.heard {l : Label Tag Operation} (h : Booked current w)
    (hs : Step Operation.tags Tag.id (desk current w) l (desk current w'))
    (hl : ∀ op, l ≠ .refuse op ∧ l ≠ .openOp op) (hpaired : w'.requests.LookupsPaired)
    (hnamed : w'.requests.DeletersNamed) (hkept : Kept R w w') : Heard R current w w' :=
  ⟨hkept, h.step hs hpaired hnamed (hkept.metaLock.trans h.unlocked) (by rw [hkept.volatile])
    fun op hop => absurd hop (by simp [hl op]), .single hs⟩

theorem desk_expected (hc : w.requests.counter t = some c) :
    (desk current w).expected t = c.chunksExpected := by
  simp [desk, hc]

theorem desk_received (hc : w.requests.counter t = some c) :
    (desk current w).received t = c.chunksReceived := by
  simp [desk, hc]

/-- The response to a packet in flight: the desk takes the answer, and replies if it was the
last one. `w₁` is the state in which the handler checks for that. -/
theorem Booked.answered {r : ChunkRequest} {i : ℕ} {w₁ : World} (h : Booked current w)
    (hr : w.network.inFlight[i]? = some r) (hop : w.requests.Active op) (ht : r.tag ∈ op.tags)
    (hdesk : desk current w₁ = (desk current w).take r.tag)
    (hlast : Complete Operation.tags (desk current w₁) op →
      desk current w' = close Operation.tags (desk current w₁) op)
    (hmore : ¬ Complete Operation.tags (desk current w₁) op → w' = w₁)
    (hpaired : w'.requests.LookupsPaired) (hnamed : w'.requests.DeletersNamed)
    (hkept : Kept R w w') : Heard R current w w' := by
  have hpos : 0 < (desk current w).inFlight r.tag := by
    refine List.countP_pos_iff.mpr ⟨r, ?_, by simp⟩
    exact List.mem_of_getElem? hr
  by_cases hc : Complete Operation.tags (desk current w₁) op
  · refine h.heard (l := .answer r.tag) ?_ (by simp) hpaired hnamed hkept
    rw [hlast hc, hdesk]
    exact .answerLast hop ht hpos (hdesk ▸ hc)
  · obtain rfl := hmore hc
    refine h.heard (l := .answer r.tag) ?_ (by simp) hpaired hnamed hkept
    rw [hdesk]
    exact .answer hop ht hpos (hdesk ▸ hc)

open Barista

/-- The state in which the handler of the response to `inFlight[i]` begins. -/
def received (w : World) (i : ℕ) (r : ChunkRequest) (count : ℤ) (data : List UInt8) : World :=
  { w with network := { w.network with
      inFlight := w.network.inFlight.eraseIdx i, log := .answered r count data :: w.network.log } }

variable {i : ℕ} {r : ChunkRequest}

theorem wp_readResponse (h : Booked current w) (hr : w.network.inFlight[i]? = some r)
    (hop : w.requests.Active (.read r.id)) (hflag : r.flag = .readChunk) (count : ℤ)
    (data : List UInt8) :
    wp (readResponseHandler R r.id r.chunk count data) (fun _ w' => Heard R current w w')
      (fun _ => False) (received w i r count data) := by
  obtain ⟨a, ha⟩ := Finmap.mem_iff.mp hop
  have htag : r.tag = ⟨.readChunk, r.id⟩ := by simp [ChunkRequest.tag, hflag]
  have ht : r.tag ∈ (Operation.read r.id).tags := by simp [Operation.tags, htag]
  have hcounter : w.requests.counter r.tag = some a.info := by simp [htag, Requests.counter, ha]
  have hread : w.requests.readRequest r.id = a := by simp [Requests.readRequest, ha]
  have hexists : w.requests.readRequestExists r.id = true := decide_eq_true hop
  let a' : ReadRequestInfo := { a with
    info := { a.info with chunksReceived := a.info.chunksReceived + 1 }
    responsePackets := R.search.set r.chunk (readBuffer count data) a.responsePackets }
  let w₁ : World := { received w i r count data with requests := w.requests.setRead r.id a' }
  have hcounter₁ : w₁.requests.counter ⟨.readChunk, r.id⟩ = some a'.info := by
    simp [w₁, Requests.counter_setRead]
  have hpaired₁ : w₁.requests.LookupsPaired := h.paired.congr rfl fun _ => Iff.rfl
  have hdesk : desk current w₁ = (desk current w).take r.tag := by
    refine desk_take hr hcounter (fun t => ?_) (fun _ => Requests.active_setRead hop a') rfl rfl
    rw [htag]
    exact Requests.counter_setRead a'
  have hcomplete : Complete Operation.tags (desk current w₁) (.read r.id) ↔
      a'.info.chunksExpected ≠ 0 ∧ a'.info.chunksExpected = a'.info.chunksReceived := by
    simp [Complete, Operation.tags, desk_expected hcounter₁, desk_received hcounter₁]
  have hkept₁ : Kept R w w₁ :=
    ⟨rfl, rfl, rfl, rfl, rfl, rfl, .of_eq rfl rfl rfl, .answer rfl htag ha rfl rfl rfl rfl,
      .of_eq (custody_congr (Requests.holder_setRead_of_eq ha rfl rfl) rfl rfl rfl),
      .of_eq [_] rfl (Requests.holder_setRead_of_eq ha rfl rfl),
      fun hidle => ⟨hidle, rfl, rfl⟩⟩
  suffices hcheck : wp (checkReadComplete r.id) (fun _ w' => Heard R current w w')
      (fun _ => False) w₁ by
    simp only [readResponseHandler, wp_bind, wp_get, wp_assert, requests, wp_zoom, wp_modify,
      received, hexists, hread, true_implies, reduceCtorEq, false_implies, and_true]
    exact hcheck
  rw [wp_checkReadComplete (w := w₁) (Finmap.lookup_insert _)]
  split_ifs with hdone
  · exact h.answered hr hop ht hdesk (fun _ => desk_close hpaired₁ rfl rfl rfl)
      (fun hc => absurd (hcomplete.mpr hdone) hc)
      (hpaired₁.close ((Requests.active_setRead hop a').mpr hop)) h.named
      (hkept₁.trans ⟨rfl, rfl, rfl, rfl, rfl, rfl, .of_eq rfl rfl rfl,
        .finish (Finmap.lookup_insert _) rfl rfl,
        .finish (by simp) Requests.holder_eraseRead rfl rfl rfl,
        .finish rfl (Requests.holder_read (Finmap.lookup_insert _)) ⟨_, _, _, rfl⟩
          Requests.holder_eraseRead, fun hidle => ⟨hidle, rfl, rfl⟩⟩)
  · exact h.answered hr hop ht hdesk (fun hc => absurd (hcomplete.mp hc) hdone) (fun _ => rfl)
      hpaired₁ h.named hkept₁

theorem wp_deleteResponse (h : Booked current w) (hr : w.network.inFlight[i]? = some r)
    (hop : w.requests.Active (.delete r.id)) (hflag : r.flag = .deleteChunk) (count : ℤ)
    (data : List UInt8) :
    wp (deleteResponseHandler r.id) (fun _ w' => Heard R current w w')
      (fun _ => False) (received w i r count data) := by
  obtain ⟨a, ha⟩ := Finmap.mem_iff.mp hop
  have htag : r.tag = ⟨.deleteChunk, r.id⟩ := by simp [ChunkRequest.tag, hflag]
  have ht : r.tag ∈ (Operation.delete r.id).tags := by simp [Operation.tags, htag]
  have hcounter : w.requests.counter r.tag = some a := by simp [htag, Requests.counter, ha]
  have hdelete : w.requests.deleteRequest r.id = a := by simp [Requests.deleteRequest, ha]
  have hexists : w.requests.deleteRequestExists r.id = true := decide_eq_true hop
  let a' : RequestInfo := { a with chunksReceived := a.chunksReceived + 1 }
  let w₁ : World := { received w i r count data with requests := w.requests.setDelete r.id a' }
  have hcounter₁ : w₁.requests.counter ⟨.deleteChunk, r.id⟩ = some a' := by
    simp [w₁, Requests.counter_setDelete]
  have hpaired₁ : w₁.requests.LookupsPaired := h.paired.congr rfl fun _ => Iff.rfl
  have hdesk : desk current w₁ = (desk current w).take r.tag := by
    refine desk_take hr hcounter (fun t => ?_) (fun _ => Requests.active_setDelete hop a') rfl rfl
    rw [htag]
    exact Requests.counter_setDelete a'
  have hcomplete : Complete Operation.tags (desk current w₁) (.delete r.id) ↔
      a'.chunksExpected ≠ 0 ∧ a'.chunksExpected = a'.chunksReceived := by
    simp [Complete, Operation.tags, desk_expected hcounter₁, desk_received hcounter₁]
  have hnonempty : w.requests.activeDeleteRequests ≠ ∅ := by
    intro hempty
    simp [hempty] at ha
  have hkept₁ : Kept R w w₁ :=
    ⟨rfl, rfl, rfl, rfl, rfl, rfl, .set rfl rfl ha rfl rfl rfl,
      .emit rfl rfl (by rintro _ _ _ ⟨⟩; simp [hflag]),
      .of_eq (custody_congr (Requests.holder_setDelete_of_eq ha rfl rfl) rfl rfl rfl),
      .of_eq [_] rfl (Requests.holder_setDelete_of_eq ha rfl rfl),
      fun hidle => absurd hidle hnonempty⟩
  have hnonempty₁ : w₁.requests.activeDeleteRequests ≠ ∅ := by
    intro hempty
    have hmem : r.id ∈ w₁.requests.activeDeleteRequests := Finmap.mem_insert.mpr (.inl rfl)
    exact Finmap.notMem_empty (hempty ▸ hmem)
  suffices hcheck : wp (checkDeleteComplete r.id) (fun _ w' => Heard R current w w')
      (fun _ => False) w₁ by
    simp only [deleteResponseHandler, wp_bind, wp_get, wp_assert, requests, wp_zoom, wp_modify,
      received, hexists, hdelete, true_implies, reduceCtorEq, false_implies, and_true]
    exact hcheck
  have hnamed₁ : w₁.requests.DeletersNamed := h.named.setDelete (h.named r.id a ha)
  refine wp_checkDeleteComplete (w := w₁) h.unlocked (Finmap.lookup_insert _)
    (fun hmore => ?_) fun h₀ h₁ => ?_
  · refine h.answered hr hop ht hdesk (fun hc => ?_) (fun _ => rfl) hpaired₁ hnamed₁ hkept₁
    obtain ⟨h₀, h₁⟩ := hcomplete.mp hc
    exact absurd h₁ (hmore.resolve_left h₀)
  · have huser : a'.client.userId ≠ 0 := h.named r.id a ha
    rw [if_neg huser]
    refine wp_releaseLock_record (fun h₀ => absurd h₀ huser) fun _ _ locks hlocks => ?_
    exact h.answered hr hop ht hdesk (fun _ => desk_close hpaired₁ rfl rfl rfl)
      (fun hc => absurd (hcomplete.mpr ⟨h₀, h₁⟩) hc)
      (hpaired₁.close ((Requests.active_setDelete hop a').mpr hop)) (hnamed₁.close (.delete r.id))
      (hkept₁.trans ⟨rfl, rfl, rfl, rfl, rfl, rfl, .finish (Finmap.lookup_insert _) rfl hlocks rfl,
        .emit rfl rfl (by simp), .finishDelete (Finmap.lookup_insert _) rfl hlocks rfl rfl,
        .finish rfl (Requests.holder_delete (Finmap.lookup_insert _)) rfl
          Requests.holder_eraseDelete,
        fun hidle => absurd hidle hnonempty₁⟩)

/-- The entry of a write after a response under `id`. -/
def countWrite (q : WriteRequest) (id : ℕ) (count : ℤ) (a : WriteRequestInfo) : WriteRequestInfo :=
  if id = q.requestId then
    { a with
      info := { a.info with chunksReceived := a.info.chunksReceived + 1 }
      count := toInt32 (a.count + count) }
  else
    { a with
      replicaInfo := { a.replicaInfo with chunksReceived := a.replicaInfo.chunksReceived + 1 } }

theorem countWrite_client (q : WriteRequest) (id : ℕ) (count : ℤ) (a : WriteRequestInfo) :
    (countWrite q id count a).info.client = a.info.client := by
  unfold countWrite
  split <;> rfl

theorem countWrite_fileId (q : WriteRequest) (id : ℕ) (count : ℤ) (a : WriteRequestInfo) :
    (countWrite q id count a).info.fileId = a.info.fileId := by
  unfold countWrite
  split <;> rfl

theorem counter_countWrite {rs : Requests} {q : WriteRequest} {a : WriteRequestInfo} {id : ℕ}
    (h : rs.LookupsPaired) (ha : rs.activeWriteRequests.lookup q = some a)
    (hid : id = q.requestId ∨ id = q.replicaRequestId)
    (hc : rs.counter ⟨.writeChunk, id⟩ = some c) (count : ℤ) (t : Tag) :
    (rs.setWrite q (countWrite q id count a)).counter t =
      if t = ⟨.writeChunk, id⟩ then some { c with chunksReceived := c.chunksReceived + 1 }
      else rs.counter t := by
  have hq : q ∈ rs.activeWriteRequests := Finmap.mem_of_lookup_eq_some ha
  have hne := h.ids_ne q hq
  have h₁ := Requests.counter_write q a (h.lookup_id q hq) ha
  have h₂ := Requests.counter_write q a (h.lookup_replica q hq) ha
  simp only [hne.symm, if_true, if_false] at h₁ h₂
  rw [Requests.counter_setWrite h hq]
  rcases hid with rfl | rfl
  · obtain rfl : a.info = c := by simpa [h₁] using hc
    rcases eq_or_ne t ⟨.writeChunk, q.replicaRequestId⟩ with rfl | ht
    · simp [countWrite, h₂, hne.symm]
    · simp [countWrite, ht]
  · obtain rfl : a.replicaInfo = c := by simpa [h₂] using hc
    rcases eq_or_ne t ⟨.writeChunk, q.requestId⟩ with rfl | ht
    · simp [countWrite, h₁, hne, hne.symm]
    · simp [countWrite, ht, hne.symm]

theorem wp_writeResponse {q : WriteRequest} (h : Booked current w)
    (hr : w.network.inFlight[i]? = some r) (hop : w.requests.Active (.write q))
    (ht : r.tag ∈ (Operation.write q).tags) (count : ℤ) (data : List UInt8) :
    wp (writeResponseHandler r.id count) (fun _ w' => Heard R current w w')
      (fun _ => False) (received w i r count data) := by
  obtain ⟨a, ha⟩ := Finmap.mem_iff.mp hop
  have htag : r.tag = ⟨.writeChunk, r.id⟩ ∧ (r.id = q.requestId ∨ r.id = q.replicaRequestId) := by
    have ht' : r.tag = ⟨.writeChunk, q.requestId⟩ ∨ r.tag = ⟨.writeChunk, q.replicaRequestId⟩ := by
      simpa [Operation.tags] using ht
    simp only [ChunkRequest.tag, Tag.mk.injEq] at ht' ⊢
    tauto
  obtain ⟨htag, hid⟩ := htag
  have hne := h.paired.ids_ne q hop
  have hlookup : w.requests.writeRequestLookups.lookup r.id = some q := by
    rcases hid with hid | hid <;> rw [hid]
    · exact h.paired.lookup_id q hop
    · exact h.paired.lookup_replica q hop
  have hcounter := Requests.counter_write q a hlookup ha
  have hq : w.requests.writeLookup r.id = q := by simp [Requests.writeLookup, hlookup]
  have hwrite : w.requests.writeRequest q = a := by simp [Requests.writeRequest, ha]
  have hexists : w.requests.writeRequestExists r.id = true := by
    simp [Requests.writeRequestExists, hq, Finmap.mem_of_lookup_eq_some hlookup,
      Finmap.mem_of_lookup_eq_some ha]
  let a' := countWrite q r.id count a
  let w₁ : World := { received w i r count data with requests := w.requests.setWrite q a' }
  have hpaired₁ : w₁.requests.LookupsPaired := h.paired.setWrite hop a'
  have hdesk : desk current w₁ = (desk current w).take r.tag := by
    refine desk_take hr (htag ▸ hcounter) (fun t => ?_)
      (fun _ => Requests.active_setWrite hop a') rfl rfl
    rw [htag]
    exact counter_countWrite h.paired ha hid hcounter count t
  have hcounter₁ : w₁.requests.counter ⟨.writeChunk, q.requestId⟩ = some a'.info := by
    simp [w₁, Requests.counter_setWrite h.paired hop]
  have hreplica₁ : w₁.requests.counter ⟨.writeChunk, q.replicaRequestId⟩ = some a'.replicaInfo := by
    simp [w₁, Requests.counter_setWrite h.paired hop, hne.symm]
  have hcomplete : Complete Operation.tags (desk current w₁) (.write q) ↔
      a'.info.chunksExpected ≠ 0 ∧ a'.info.chunksExpected = a'.info.chunksReceived ∧
        a'.replicaInfo.chunksExpected = a'.replicaInfo.chunksReceived := by
    simp [Complete, Operation.tags, desk_expected hcounter₁, desk_received hcounter₁,
      desk_expected hreplica₁, desk_received hreplica₁]
  have hflag : r.flag ≠ .readChunk := by
    have := congrArg Tag.flag htag
    simp_all [ChunkRequest.tag]
  have hholder : w₁.requests.holder = w.requests.holder :=
    Requests.holder_setWrite_of_eq ha (countWrite_client ..) (countWrite_fileId ..)
  have hkept₁ : Kept R w w₁ :=
    ⟨rfl, rfl, rfl, rfl, rfl, rfl, .of_eq rfl rfl rfl,
      .emit rfl rfl (by rintro _ _ _ ⟨⟩; exact hflag),
      .of_eq (custody_congr hholder rfl rfl rfl), .of_eq [_] rfl hholder,
      fun hidle => ⟨hidle, rfl, rfl⟩⟩
  suffices hcheck : wp (checkWriteComplete r.id) (fun _ w' => Heard R current w w')
      (fun _ => False) w₁ by
    simp only [writeResponseHandler, wp_bind, wp_get, wp_assert, requests, wp_zoom, wp_modify,
      received, hexists, hq, hwrite, true_implies, reduceCtorEq, false_implies, and_true]
    simp only [w₁, a', countWrite, received] at hcheck
    split_ifs at hcheck ⊢ <;> exact hcheck
  rw [wp_checkWriteComplete (w := w₁) hlookup (Finmap.lookup_insert _)]
  split_ifs with hdone
  · exact h.answered hr hop ht hdesk (fun _ => desk_close hpaired₁ rfl rfl rfl)
      (fun hc => absurd (hcomplete.mpr hdone) hc)
      (hpaired₁.close ((Requests.active_setWrite hop a').mpr hop)) h.named
      (hkept₁.trans ⟨rfl, rfl, rfl, rfl, rfl, rfl, .of_eq rfl rfl rfl,
        .emit rfl rfl (by simp), .finish (by simp) Requests.holder_eraseWrite rfl rfl rfl,
        .finish rfl (Requests.holder_write (Finmap.lookup_insert _)) ⟨_, _, rfl⟩
          Requests.holder_eraseWrite,
        fun hidle => ⟨hidle, rfl, rfl⟩⟩)
  · exact h.answered hr hop ht hdesk (fun hc => absurd (hcomplete.mp hc) hdone) (fun _ => rfl)
      hpaired₁ h.named hkept₁

/-- **A response keeps the books.** The request it answers is registered, whatever the response
says and whenever it comes, so no assertion fails. -/
theorem wp_receive (h : Booked current w) (d : Delivery) :
    wp (receive R d) (fun _ w' => Heard R current w w') (fun _ => False) w := by
  unfold receive
  cases hr : w.network.inFlight[d.index]? with
  | none => simpa [hr] using Heard.refl h
  | some r =>
    simp only [wp_bind, wp_get, hr, network, wp_zoom, wp_modify]
    have hpos : 0 < (desk current w).inFlight r.tag :=
      List.countP_pos_iff.mpr ⟨r, List.mem_of_getElem? hr, by simp⟩
    obtain ⟨op, hop, ht⟩ := h.inv.exists_active hpos
    cases op with
    | read id =>
      obtain ⟨hflag, rfl⟩ : r.flag = .readChunk ∧ r.id = id := by
        simpa [Operation.tags, ChunkRequest.tag] using ht
      simp only [hflag]
      exact wp_readResponse h hr hop hflag d.count d.data
    | write q =>
      have hflag : r.flag = .writeChunk := by
        simp only [Operation.tags, ChunkRequest.tag, List.mem_cons, Tag.mk.injEq,
          List.not_mem_nil, or_false] at ht
        tauto
      simp only [hflag]
      exact wp_writeResponse h hr hop ht d.count d.data
    | delete id =>
      obtain ⟨hflag, rfl⟩ : r.flag = .deleteChunk ∧ r.id = id := by
        simpa [Operation.tags, ChunkRequest.tag] using ht
      simp only [hflag]
      exact wp_deleteResponse h hr hop hflag d.count d.data

theorem wp_receiveAll (h : Booked current w) (ds : List Delivery) :
    wp (receiveAll R ds) (fun _ w' => Heard R current w w') (fun _ => False) w := by
  induction ds generalizing w with
  | nil => exact (wp_pure _).mpr (Heard.refl h)
  | cons d ds ih =>
    simp only [receiveAll, wp_bind]
    refine wp_mono (wp_receive h d) (fun _ w₁ h₁ => ?_) fun _ => id
    exact wp_mono (ih h₁.booked) (fun _ _ h₂ => h₁.trans h₂) fun _ => id

end Heard

end DecaFS
