import DecaFS.BaristaCore.World

/-!
# Responses and completion

The response handlers of `barista_core/barista_core.cpp`, the checks they end with, and the
sends of `network_core/barista_network_helper.cpp`, which is where responses may come in.

A request counts its responses in `chunks_received`; `chunks_expected` is 0 until all its chunk
packets are sent. The check that finds the two equal sends the result and drops the request.
-/

namespace DecaFS

/-- `NODE_FAILURE` -/
def nodeFailure : ℤ := -1

/-- The bytes a `read_buffer` copies. -/
def readBuffer (size : ℤ) (buf : List UInt8) : List UInt8 := if size > 0 then buf.take size.toNat else []

namespace Requests

variable (r : Requests)

/-- `active_read_requests[id]` -/
def readRequest (id : ℕ) : ReadRequestInfo := (r.activeReadRequests.lookup id).getD {}

/-- `write_request_lookups[id]` -/
def writeLookup (id : ℕ) : WriteRequest := (r.writeRequestLookups.lookup id).getD ⟨0, 0⟩

/-- `active_write_requests[request]` -/
def writeRequest (request : WriteRequest) : WriteRequestInfo :=
  (r.activeWriteRequests.lookup request).getD {}

/-- `active_delete_requests[id]` -/
def deleteRequest (id : ℕ) : RequestInfo := (r.activeDeleteRequests.lookup id).getD {}

/-- `read_request_exists` -/
def readRequestExists (id : ℕ) : Bool := id ∈ r.activeReadRequests

/-- `write_request_exists` -/
def writeRequestExists (id : ℕ) : Bool :=
  id ∈ r.writeRequestLookups ∧ r.writeLookup id ∈ r.activeWriteRequests

/-- `delete_request_exists` -/
def deleteRequestExists (id : ℕ) : Bool := id ∈ r.activeDeleteRequests

/-- The table entry of a read is `info`. -/
def setRead (id : ℕ) (info : ReadRequestInfo) : Requests :=
  { r with activeReadRequests := r.activeReadRequests.insert id info }

/-- The table entry of a write is `info`. -/
def setWrite (request : WriteRequest) (info : WriteRequestInfo) : Requests :=
  { r with activeWriteRequests := r.activeWriteRequests.insert request info }

/-- A new write enters its table, and the lookups under both of its ids. -/
def addWrite (request : WriteRequest) (info : WriteRequestInfo) : Requests :=
  { r with
    writeRequestLookups := (r.writeRequestLookups.insert request.requestId request).insert
      request.replicaRequestId request
    activeWriteRequests := r.activeWriteRequests.insert request info }

/-- The table entry of a delete is `info`. -/
def setDelete (id : ℕ) (info : RequestInfo) : Requests :=
  { r with activeDeleteRequests := r.activeDeleteRequests.insert id info }

/-- A finished read leaves its table. -/
def eraseRead (id : ℕ) : Requests :=
  { r with activeReadRequests := r.activeReadRequests.erase id }

/-- A finished write leaves both tables. -/
def eraseWrite (request : WriteRequest) : Requests :=
  { r with
    activeWriteRequests := r.activeWriteRequests.erase request
    writeRequestLookups :=
      (r.writeRequestLookups.erase request.requestId).erase request.replicaRequestId }

/-- A finished delete leaves its table. -/
def eraseDelete (id : ℕ) : Requests :=
  { r with activeDeleteRequests := r.activeDeleteRequests.erase id }

end Requests

/-- The sum of the sizes of the packets, as an `int` adds them up. -/
def packetCount (packets : List (FileChunk × List UInt8)) : ℤ :=
  packets.foldl (fun count packet => toInt32 (count + packet.2.length)) 0

namespace Barista

variable (R : Runtime)

/-- `check_read_complete` -/
def checkReadComplete (id : ℕ) : Barista PUnit := do
  assert .checkRead ((← get).requests.readRequestExists id)
  let request := (← get).requests.readRequest id
  if request.info.chunksExpected = 0 then
    return
  else if request.info.chunksExpected = request.info.chunksReceived then
    emit (.replied (.read id) request.info.client (.readResult request.fd
      (packetCount request.responsePackets) (request.responsePackets.flatMap Prod.snd)))
    requests (modify fun r => r.eraseRead id)
  else
    return

/-- `check_write_complete` -/
def checkWriteComplete (id : ℕ) : Barista PUnit := do
  assert .checkWrite ((← get).requests.writeRequestExists id)
  let request := (← get).requests.writeLookup id
  let active := (← get).requests.writeRequest request
  if active.info.chunksExpected = 0 then
    return
  else if active.info.chunksExpected = active.info.chunksReceived ∧
      active.replicaInfo.chunksExpected = active.replicaInfo.chunksReceived then
    emit (.replied (.write request) active.info.client (.writeResult active.fd active.count))
    requests (modify fun r => r.eraseWrite request)
  else
    return

/-- `check_delete_complete`. While the metadata lock is refused the loop around
`delete_file_contents` does not end. -/
def checkDeleteComplete (id : ℕ) : Barista PUnit := do
  assert .checkDelete ((← get).requests.deleteRequestExists id)
  let request := (← get).requests.deleteRequest id
  if request.chunksExpected = 0 then
    return
  else if request.chunksExpected = request.chunksReceived then
    emit (.replied (.delete id) request.client (.removeResult 0))
    if (← deleteFileContents request.fileId request.client) = noMetadataLock then
      throw .noReturn
    let _ ← locking (releaseLock request.client request.fileId)
    requests (modify fun r => r.eraseDelete id)
  else
    return

/-- `read_response_handler` -/
def readResponseHandler (id : ℕ) (chunk : FileChunk) (count : ℤ) (data : List UInt8) :
    Barista PUnit := do
  assert .readResponse ((← get).requests.readRequestExists id)
  requests <| modify fun r =>
    let request := r.readRequest id
    r.setRead id { request with
      info := { request.info with chunksReceived := request.info.chunksReceived + 1 }
      responsePackets := R.search.set chunk (readBuffer count data) request.responsePackets }
  checkReadComplete id

/-- `write_response_handler` -/
def writeResponseHandler (id : ℕ) (count : ℤ) : Barista PUnit := do
  assert .writeResponse ((← get).requests.writeRequestExists id)
  requests <| modify fun r =>
    let request := r.writeLookup id
    let active := r.writeRequest request
    if id = request.requestId then
      r.setWrite request { active with
        info := { active.info with chunksReceived := active.info.chunksReceived + 1 }
        count := toInt32 (active.count + count) }
    else
      r.setWrite request { active with
        replicaInfo :=
          { active.replicaInfo with chunksReceived := active.replicaInfo.chunksReceived + 1 } }
  checkWriteComplete id

/-- `delete_response_handler` -/
def deleteResponseHandler (id : ℕ) : Barista PUnit := do
  assert .deleteResponse ((← get).requests.deleteRequestExists id)
  requests <| modify fun r =>
    let request := r.deleteRequest id
    r.setDelete id { request with chunksReceived := request.chunksReceived + 1 }
  checkDeleteComplete id

/-- Handle the response to a request in flight. -/
def receive (d : Delivery) : Barista PUnit := do
  match (← get).network.inFlight[d.index]? with
  | some r =>
    network (modify fun n =>
      { n with inFlight := n.inFlight.eraseIdx d.index, log := .answered r d.count d.data :: n.log })
    match r.flag with
    | .readChunk => readResponseHandler R r.id r.chunk d.count d.data
    | .writeChunk => writeResponseHandler r.id d.count
    | .deleteChunk => deleteResponseHandler r.id
  | none => return

/-- Handle the responses that come in during a send. -/
def receiveAll : List Delivery → Barista PUnit
  | [] => return
  | d :: ds => do
    receive R d
    receiveAll ds

/-- Send `r` to an Espresso. -/
def sendToEspresso (node : ℤ) (r : ChunkRequest) : Barista ℤ := do
  match (← get).network.script with
  | outcome :: script =>
    if outcome.accepted then
      network (modify fun n => { n with
        script := script, inFlight := n.inFlight ++ [r], log := .sent node r :: n.log })
    else
      network (modify fun n => { n with script := script, log := .failed node r :: n.log })
    receiveAll R outcome.deliveries
    return if outcome.accepted then 1 else nodeFailure
  | [] => throw .noReturn

/-- `process_read_chunk` -/
def processReadChunk (requestId : ℕ) (chunk : FileChunk) (node offset count : ℤ) : Barista ℤ :=
  sendToEspresso R node ⟨.readChunk, requestId, chunk, offset, count, []⟩

/-- `process_write_chunk` -/
def processWriteChunk (requestId : ℕ) (chunk : FileChunk) (node offset : ℤ) (buf : List UInt8)
    (count : ℤ) : Barista ℤ :=
  sendToEspresso R node ⟨.writeChunk, requestId, chunk, offset, count, buf.take count.toNat⟩

/-- `process_delete_chunk` -/
def processDeleteChunk (requestId : ℕ) (chunk : FileChunk) (node : ℤ) : Barista ℤ :=
  sendToEspresso R node ⟨.deleteChunk, requestId, chunk, -1, -1, []⟩

end Barista

end DecaFS
