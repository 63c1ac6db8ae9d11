import DecaFS.Locking.FileLocks
import DecaFS.Metadata.Persistent
import DecaFS.Metadata.Volatile

/-!
# The state of the Barista

The modules of the server, the tables of the requests it is working on and its end of the
network. A chunk request is the packet sent to an Espresso; it stays `inFlight` until its
response is handled. The `log` records, newest first, the packets that were sent and answered
and the results that went to the clients, each with the request it belongs to.

The server handles one message at a time. What happens outside of it is an input: at each send
the `script` says whether the send succeeds and which responses are handled while it runs (the
Espressos of the tests answer inside the send). A run that outlasts its script does not return.

`Runtime` is what the source leaves open: the shape of the search trees, which matters once
`operator<` is not an order, the value of an uninitialised variable, and the time of day.
-/

namespace DecaFS

/-! ### Requests -/

/-- `struct request_info`. -/
structure RequestInfo where
  chunksExpected : ℕ := 0
  chunksReceived : ℕ := 0
  fileId : ℕ := 0
  client : Client := ⟨{}, 0, none⟩
  deriving DecidableEq

/-- `struct read_request_info`; each response packet is the bytes it brought. -/
structure ReadRequestInfo where
  info : RequestInfo := {}
  fd : ℤ := 0
  responsePackets : List (FileChunk × List UInt8) := []
  deriving DecidableEq

/-- `struct write_request`. -/
structure WriteRequest where
  requestId : ℕ
  replicaRequestId : ℕ
  deriving DecidableEq, Repr

/-- `struct write_request_info`. -/
structure WriteRequestInfo where
  info : RequestInfo := {}
  replicaInfo : RequestInfo := {}
  fd : ℤ := 0
  count : ℤ := 0
  deriving DecidableEq

/-- The tables of the active requests. -/
structure Requests where
  activeReadRequests : Finmap (fun _ : ℕ => ReadRequestInfo) := ∅
  writeRequestLookups : Finmap (fun _ : ℕ => WriteRequest) := ∅
  activeWriteRequests : Finmap (fun _ : WriteRequest => WriteRequestInfo) := ∅
  activeDeleteRequests : Finmap (fun _ : ℕ => RequestInfo) := ∅

/-- `chunk_to_node` and `chunk_to_replica_node` of `IO_Manager`. -/
structure ChunkMaps where
  chunkToNode : List (FileChunk × ℤ) := []
  chunkToReplicaNode : List (FileChunk × ℤ) := []
  deriving DecidableEq

/-! ### Network -/

/-- What a chunk packet asks for. -/
inductive Flag : Type
  | readChunk
  | writeChunk
  | deleteChunk
  deriving DecidableEq, Repr

/-- A chunk packet sent to an Espresso. -/
structure ChunkRequest where
  flag : Flag
  id : ℕ
  chunk : FileChunk
  offset : ℤ
  count : ℤ
  data : List UInt8 := []
  deriving DecidableEq, Repr

/-- A client's request, under the ids it was given. -/
inductive Operation : Type
  | read (id : ℕ)
  | write (request : WriteRequest)
  | delete (id : ℕ)
  deriving DecidableEq, Repr

/-- A packet sent to a client. -/
inductive Reply : Type
  | readResult (fd count : ℤ) (buf : List UInt8)
  | writeResult (fd count : ℤ)
  | removeResult (result : ℤ)
  | openResult (result : ℤ)
  | closeResult (result : ℤ)
  | seekResult (result : ℤ)
  deriving DecidableEq, Repr

/-- What the server did. -/
inductive Event : Type
  /-- a call of `process_read_stripe` or `process_write_stripe` -/
  | stripe (flag : Flag) (stripeId stripeSize : ℕ) (offset count : ℤ)
  /-- a comparison `count - done > size - offset` of unsigned differences -/
  | compared (count done size offset : ℤ)
  | sent (node : ℤ) (r : ChunkRequest)
  | failed (node : ℤ) (r : ChunkRequest)
  | answered (r : ChunkRequest) (count : ℤ) (data : List UInt8)
  /-- a numbered request past its checks -/
  | registered (op : Operation)
  /-- the result of a numbered request -/
  | replied (op : Operation) (client : Client) (reply : Reply)
  /-- any other result -/
  | told (client : Client) (reply : Reply)
  deriving DecidableEq, Repr

/-- The response to the request at `index` among those in flight. -/
structure Delivery where
  index : ℕ
  count : ℤ
  data : List UInt8 := []
  deriving DecidableEq, Repr

/-- The outcome of a send and the responses handled while it runs. -/
structure SendOutcome where
  accepted : Bool
  deliveries : List Delivery := []
  deriving DecidableEq, Repr

/-- The Barista's end of the network. -/
structure Network where
  script : List SendOutcome := []
  inFlight : List ChunkRequest := []
  log : List Event := []

/-! ### The server -/

/-- The state of the server. -/
structure World where
  fileLocks : FileLocks := ∅
  metaLock : Option Client := none
  persistent : PersistentMetadata := {}
  volatile : VolatileMetadata
  chunks : ChunkMaps := {}
  requests : Requests := {}
  network : Network := {}

/-- The choices of the implementation of C++, and the clock. -/
structure Runtime where
  search : Search FileChunk.less
  indeterminate : ℕ
  gettimeofday : World → Timeval

/-- Code of the server. -/
abbrev Barista (α : Type) : Type := Code (Halt Site) World α

namespace Barista

variable {α : Type}

/-- Code of the locking strategy. -/
def locking (m : Code (Halt Site) FileLocks α) : Barista α :=
  Code.zoom World.fileLocks (fun t w => { w with fileLocks := t }) m

/-- Code of `Volatile_Metadata`. -/
def volatile (m : Code (Halt Site) VolatileMetadata α) : Barista α :=
  Code.zoom World.volatile (fun t w => { w with volatile := t }) m

/-- Code on the chunk maps of `IO_Manager`. -/
def chunks (m : Code (Halt Site) ChunkMaps α) : Barista α :=
  Code.zoom World.chunks (fun t w => { w with chunks := t }) m

/-- Code on the request tables. -/
def requests (m : Code (Halt Site) Requests α) : Barista α :=
  Code.zoom World.requests (fun t w => { w with requests := t }) m

/-- Code on the network. -/
def network (m : Code (Halt Site) Network α) : Barista α :=
  Code.zoom World.network (fun t w => { w with network := t }) m

/-- Write `e` to the log. -/
def emit (e : Event) : Barista PUnit :=
  network (modify fun n => { n with log := e :: n.log })

/-! ### Persistent metadata call-throughs -/

/-- `get_metadata_lock`; the lock has an owner exactly if `owner_uid` is not 0. -/
def getMetadataLock (client : Client) : Barista ℤ := do
  assert .lockUser (client.userId ≠ 0)
  if (← get).metaLock = none then
    modify fun w => { w with metaLock := some client }
    return lockSuccess
  else
    return lockError

/-- `release_metadata_lock` -/
def releaseMetadataLock (client : Client) : Barista ℤ := do
  assert .lockUser (client.userId ≠ 0)
  if (← get).metaLock = some client then
    modify fun w => { w with metaLock := none }
    return lockSuccess
  else
    return lockError

/-- A call of `Persistent_Metadata` under the metadata lock; `refused` is the result without. -/
def withMetadataLock (client : Client) (refused : α)
    (m : Code (Halt Site) PersistentMetadata α) : Barista α := do
  if (← getMetadataLock client) < 0 then
    return refused
  else
    let res ← Code.zoom World.persistent (fun t w => { w with persistent := t }) m
    let _ ← releaseMetadataLock client
    return res

/-- `decafs_file_sstat` -/
def decafsFileSstat (pathname : String) (client : Client) : Barista (Except ℤ DecafsFileStat) :=
  withMetadataLock client (.error noMetadataLock) (PersistentMetadata.decafsFileSstat pathname)

/-- `decafs_file_stat` -/
def decafsFileStat (fileId : ℕ) (client : Client) : Barista (Except ℤ DecafsFileStat) :=
  withMetadataLock client (.error noMetadataLock) (PersistentMetadata.decafsFileStat fileId)

/-- `add_file` -/
def addFile (pathname : String) (stripeSize : StripeSize) (chunkSize : ChunkSize)
    (replicaSize : ℕ) (time : Timeval) (client : Client) : Barista ℤ :=
  withMetadataLock client noMetadataLock
    (PersistentMetadata.addFile pathname stripeSize chunkSize replicaSize time)

/-- `delete_file_contents` -/
def deleteFileContents (fileId : ℕ) (client : Client) : Barista ℤ :=
  withMetadataLock client noMetadataLock (PersistentMetadata.deleteFileContents fileId)

/-- `update_file_size` -/
def updateFileSize (fileId : ℕ) (sizeDelta : ℤ) (client : Client) : Barista ℤ :=
  withMetadataLock client noMetadataLock (PersistentMetadata.updateFileSize fileId sizeDelta)

end Barista

end DecaFS
