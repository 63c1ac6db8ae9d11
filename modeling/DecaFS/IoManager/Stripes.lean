import DecaFS.BaristaCore.Completion

/-!
# From stripes to chunks

`io_manager/io_manager.cpp`, with the strategies of `distribution_strategy` and
`replication_strategy` that choose the nodes of a new chunk.

The loops run for as long as the source's do: each round of a chunk loop sends at least one
packet, so the length of the script bounds them, and `splitSize` is the comparison of unsigned
differences by which all four loops cut a request.
-/

namespace DecaFS

/-- `STRIPE_ID_INIT` and `CHUNK_ID_INIT` -/
def idInit : ℕ := 1

/-- The loop that counts whole stripes, or chunks, off an offset. -/
def countOff (size : ℕ) : ℕ → ℕ → ℤ → ℕ × ℤ
  | 0, id, offset => (id, offset)
  | fuel + 1, id, offset =>
    if offset > toInt32 size then countOff size fuel (id + 1) (offset - size) else (id, offset)

/-- `get_first_stripe` -/
def getFirstStripe (stripeSize : ℕ) (offset : ℤ) : ℕ × ℤ :=
  countOff stripeSize offset.toNat idInit offset

/-- `get_first_chunk` -/
def getFirstChunk (chunkSize : ℕ) (offset : ℤ) : ℕ × ℤ :=
  countOff chunkSize offset.toNat idInit offset

/-- The smaller of `count - done` and `size - offset`, as unsigned differences. -/
def splitSize (count done size offset : ℤ) : ℤ :=
  if toUInt64 (count - done) > toUInt32 (size - offset) then toUInt32 (size - offset)
  else toUInt64 (count - done)

/-- The choice of both strategies: the node of the chunk's parity, or the other one. -/
def place (v : VolatileMetadata) (odd even : ℤ) (chunkNum : ℕ) : ℤ :=
  let node := if chunkNum % 2 = 1 then odd else even
  if v.isNodeUp node then node else if node = odd then even else odd

/-- `put_chunk`, between `FIRST` and `SECOND` -/
def putChunk (v : VolatileMetadata) (chunkNum : ℕ) : ℤ := place v 1 2 chunkNum

/-- `put_replica`, between `FIRST_REPLICA` and `SECOND_REPLICA` -/
def putReplica (v : VolatileMetadata) (chunkNum : ℕ) : ℤ := place v 3 4 chunkNum

namespace Barista

variable (R : Runtime)

/-- `chunk_exists` and `chunk_replica_exists` -/
def chunkExists (map : List (FileChunk × ℤ)) (chunk : FileChunk) : Bool :=
  (R.search.find? chunk map).isSome

/-- The node `map` has for `chunk`. -/
def nodeOf (map : List (FileChunk × ℤ)) (chunk : FileChunk) : ℤ :=
  ((R.search.find? chunk map).map Prod.snd).getD 0

/-- The node a chunk is read from. -/
def readNode (chunk : FileChunk) : Barista ℤ := do
  let w ← get
  let node := nodeOf R w.chunks.chunkToNode chunk
  if w.volatile.isNodeUp node then
    return node
  else
    assert .readReplicaExists (chunkExists R w.chunks.chunkToReplicaNode chunk)
    return nodeOf R w.chunks.chunkToReplicaNode chunk

/-- The loop of `process_read_stripe`. -/
def readChunks (requestId fileId stripeId chunkSize : ℕ) (count : ℤ) :
    ℕ → ℕ → ℤ → ℤ → ℕ → Barista ℕ
  | 0, _, _, _, _ => throw .noReturn
  | fuel + 1, chunkId, chunkOffset, bytesRead, numChunks => do
    if bytesRead < count then
      let curChunk : FileChunk := ⟨fileId, stripeId, chunkId⟩
      if chunkExists R (← get).chunks.chunkToNode curChunk then
        let node ← readNode R curChunk
        emit (.compared count bytesRead chunkSize chunkOffset)
        let readSize := toUInt32 (splitSize count bytesRead chunkSize chunkOffset)
        let chunkResult ← processReadChunk R requestId curChunk node chunkOffset readSize
        if chunkResult = nodeFailure then
          let _ ← volatile (VolatileMetadata.setNodeDown node)
          readChunks requestId fileId stripeId chunkSize count fuel chunkId chunkOffset bytesRead
            numChunks
        else
          readChunks requestId fileId stripeId chunkSize count fuel (chunkId + 1) 0
            (bytesRead + readSize) (numChunks + 1)
      else
        return numChunks
    else
      return numChunks

/-- `process_read_stripe` -/
def processReadStripe (requestId fileId stripeId stripeSize chunkSize : ℕ) (offset count : ℤ) :
    Barista ℕ := do
  emit (.stripe .readChunk stripeId stripeSize offset count)
  assert .readStripeBound (toInt32 count - offset ≤ toInt32 stripeSize)
  let (chunkId, chunkOffset) := getFirstChunk chunkSize offset
  readChunks R requestId fileId stripeId chunkSize count ((← get).network.script.length + 1)
    chunkId chunkOffset 0 0

/-- The nodes of a chunk that is about to be written, chosen now where it has none. -/
def writeNodes (chunk : FileChunk) : Barista (ℤ × ℤ) := do
  let v := (← get).volatile
  chunks <| modify fun m =>
    if chunkExists R m.chunkToNode chunk then m
    else { m with chunkToNode := R.search.set chunk (putChunk v chunk.chunkNum) m.chunkToNode }
  chunks <| modify fun m =>
    if chunkExists R m.chunkToReplicaNode chunk then m
    else { m with
      chunkToReplicaNode := R.search.set chunk (putReplica v chunk.chunkNum) m.chunkToReplicaNode }
  let m := (← get).chunks
  return (nodeOf R m.chunkToNode chunk, nodeOf R m.chunkToReplicaNode chunk)

/-- Send the replica of a chunk, once more to another node if the first send fails. -/
def writeReplica (replicaRequestId : ℕ) (chunk : FileChunk) (replicaNode chunkOffset : ℤ)
    (buf : List UInt8) (writeSize : ℤ) : Barista PUnit := do
  if (← processWriteChunk R replicaRequestId chunk replicaNode chunkOffset buf writeSize) =
      nodeFailure then
    let _ ← volatile (VolatileMetadata.setNodeDown replicaNode)
    let other := putReplica (← get).volatile chunk.chunkNum
    let _ ← processWriteChunk R replicaRequestId chunk other chunkOffset buf writeSize
  else
    return

/-- The loop of `process_write_stripe`. -/
def writeChunks (request : WriteRequest) (fileId stripeId chunkSize : ℕ) (buf : List UInt8)
    (count : ℤ) : ℕ → ℕ → ℤ → ℤ → ℕ × ℕ → Barista (ℕ × ℕ)
  | 0, _, _, _, _ => throw .noReturn
  | fuel + 1, chunkId, chunkOffset, bytesWritten, written => do
    if bytesWritten < count then
      let curChunk : FileChunk := ⟨fileId, stripeId, chunkId⟩
      let (node, replicaNode) ← writeNodes R curChunk
      emit (.compared count bytesWritten chunkSize chunkOffset)
      let writeSize := toUInt32 (splitSize count bytesWritten chunkSize chunkOffset)
      let rest := buf.drop bytesWritten.toNat
      if (← processWriteChunk R request.requestId curChunk node chunkOffset rest writeSize) =
          nodeFailure then
        let _ ← volatile (VolatileMetadata.setNodeDown node)
        writeChunks request fileId stripeId chunkSize buf count fuel chunkId chunkOffset
          bytesWritten written
      else
        writeReplica R request.replicaRequestId curChunk replicaNode chunkOffset rest writeSize
        writeChunks request fileId stripeId chunkSize buf count fuel (chunkId + 1) 0
          (bytesWritten + writeSize) (written.1 + 1, written.2 + 1)
    else
      return written

/-- `process_write_stripe`: the numbers of chunks and replicas written. -/
def processWriteStripe (request : WriteRequest) (fileId stripeId stripeSize chunkSize : ℕ)
    (buf : List UInt8) (offset count : ℤ) : Barista (ℕ × ℕ) := do
  emit (.stripe .writeChunk stripeId stripeSize offset count)
  assert .writeStripeBound (toInt32 count - offset ≤ toInt32 stripeSize)
  let (chunkId, chunkOffset) := getFirstChunk chunkSize offset
  writeChunks R request fileId stripeId chunkSize buf count ((← get).network.script.length + 1)
    chunkId chunkOffset 0 (0, 0)

/-- `get_all_chunks` -/
def getAllChunks (m : ChunkMaps) (fileId : ℕ) : List FileChunk :=
  (m.chunkToNode.map Prod.fst).filter fun chunk => chunk.fileId = fileId

/-- One of the two copies of a chunk in `process_delete_file`: `copies` is its chunk map, which
`put` writes back. -/
def deleteCopy (copies : ChunkMaps → List (FileChunk × ℤ))
    (put : List (FileChunk × ℤ) → ChunkMaps → ChunkMaps) (requestId : ℕ) (chunk : FileChunk)
    (numChunks : ℕ) : Barista ℕ := do
  let w ← get
  let map := copies w.chunks
  if chunkExists R map chunk ∧ w.volatile.isNodeUp (nodeOf R map chunk) then
    let _ ← processDeleteChunk R requestId chunk (nodeOf R map chunk)
    chunks (modify fun m => put (R.search.erase chunk (copies m)) m)
    return numChunks + 1
  else
    return numChunks

/-- The loop of `process_delete_file`. -/
def deleteChunks (requestId : ℕ) : List FileChunk → ℕ → Barista ℕ
  | [], numChunks => return numChunks
  | chunk :: rest, numChunks => do
    let numChunks ← deleteCopy R ChunkMaps.chunkToNode
      (fun map m => { m with chunkToNode := map }) requestId chunk numChunks
    let numChunks ← deleteCopy R ChunkMaps.chunkToReplicaNode
      (fun map m => { m with chunkToReplicaNode := map }) requestId chunk numChunks
    deleteChunks requestId rest numChunks

/-- `process_delete_file` -/
def processDeleteFile (requestId fileId : ℕ) : Barista ℕ := do
  deleteChunks R requestId (getAllChunks (← get).chunks fileId) 0

end Barista

end DecaFS
