import DecaFS.ForMathlib.Transition
import DecaFS.IoManager.Stripes

/-!
# The calls of the clients

The core functions of `barista_core/barista_core.cpp` and the messages the server handles. A
result a client gets for a request that was given an id is logged under that id.

`int` arithmetic that cannot leave its range for a count that fits one is left unwrapped.
-/

namespace DecaFS

/-- `FILE_IN_USE` -/
def fileInUse : ℤ := -1

/-- `FILE_NOT_OPEN_FOR_WRITE` -/
def fileNotOpenForWrite : ℤ := -2

/-- `FILE_NOT_OPEN_FOR_READ` -/
def fileNotOpenForRead : ℤ := -3

/-- `UNABLE_TO_STAT_FILE` -/
def unableToStatFile : ℤ := -4

/-- `FILE_NOT_FOUND_FOR_READING` -/
def fileNotFoundForReading : ℤ := -5

/-- `O_RDWR` -/
def oRdwr : ℕ := 0o2

/-- `O_APPEND` -/
def oAppend : ℕ := 0o2000

/-- The descriptor as the key of `file_cursors`. -/
def fdKey (fd : ℤ) : ℕ := (toUInt32 fd).toNat

namespace Barista

variable (R : Runtime)

/-- `set_file_cursor`. The size is read even if the stat has not filled it in. -/
def setFileCursor (fd offset : ℤ) (client : Client) : Barista ℤ := do
  match (← get).volatile.fileCursors.lookup (fdKey fd) with
  | some file =>
    if file.clientId = client then
      let info ← decafsFileStat file.fileId client
      let size := match info with
        | .ok stat => stat.size
        | .error _ => R.indeterminate
      let offset := min (toUInt32 offset).toNat size
      volatile <| modify fun v => { v with
        fileCursors := v.fileCursors.insert (fdKey fd) { file with offset := offset } }
      return toInt32 offset
    else
      return wrongClient
  | none => return instanceNotFound

/-! ### Reading -/

/-- The loop of `read_file` over the stripes. -/
def readStripes (requestId : ℕ) (fd : ℤ) (fileId : ℕ) (stat : DecafsFileStat) (count : ℤ)
    (client : Client) : ℕ → ℕ → ℤ → ℤ → ℕ → Barista ℕ
  | 0, _, _, _, _ => throw .noReturn
  | fuel + 1, stripeId, stripeOffset, bytesRead, numChunks => do
    if bytesRead < toInt32 count then
      emit (.compared count bytesRead stat.stripeSize.val stripeOffset)
      let readSize := toInt32 (splitSize count bytesRead stat.stripeSize.val stripeOffset)
      let chunksSent ← processReadStripe R requestId fileId stripeId stat.stripeSize.val
        stat.chunkSize.val stripeOffset (toUInt64 readSize)
      let _ ← setFileCursor R fd ((← get).volatile.getFileCursor (fdKey fd) + readSize) client
      readStripes requestId fd fileId stat count client fuel (stripeId + 1) 0
        (bytesRead + readSize) (numChunks + chunksSent)
    else
      return numChunks

/-- The end of `read_file`: all chunk packets are sent. -/
def finishRead (requestId numChunks : ℕ) : Barista PUnit := do
  assert .readFileEnd ((← get).requests.readRequestExists requestId)
  requests <| modify fun r =>
    let request := r.readRequest requestId
    r.setRead requestId
      { request with info := { request.info with chunksExpected := numChunks } }
  checkReadComplete requestId

/-- `read_file` past its checks: the request is registered and its chunks are sent for. -/
def dispatchRead (requestId : ℕ) (fd : ℤ) (fileId : ℕ) (stat : DecafsFileStat)
    (fileOffset count : ℤ) (client : Client) : Barista PUnit := do
  requests (modify fun r => r.setRead requestId { info := ⟨0, 0, fileId, client⟩, fd := fd })
  emit (.registered (.read requestId))
  let (stripeId, stripeOffset) := getFirstStripe stat.stripeSize.val fileOffset
  let numChunks ← readStripes R requestId fd fileId stat count client
    ((toInt32 count).toNat + 2) stripeId stripeOffset 0 0
  finishRead requestId numChunks

/-- The lock that `read_file` asks for, exclusive or shared. -/
def mayRead (client : Client) (fileId : ℕ) : Barista Bool := do
  if (← locking (hasExclusiveLock client fileId)) ≤ 0 then
    return (← locking (hasSharedLock client fileId)) > 0
  else
    return true

/-- `read_file` -/
def readFile (fd count : ℤ) (client : Client) : Barista PUnit := do
  let requestId ← volatile VolatileMetadata.getNewRequestId
  assert .readFd (fd > 0)
  let inst := (← get).volatile.getFileInfo (fdKey fd)
  if ¬ (← mayRead client inst.fileId) then
    emit (.replied (.read requestId) client (.readResult 0 fileNotOpenForRead []))
  else
    match ← decafsFileStat inst.fileId client with
    | .error _ => emit (.replied (.read requestId) client (.readResult 0 unableToStatFile []))
    | .ok stat =>
      let fileOffset := (← get).volatile.getFileCursor (fdKey fd)
      if fileOffset < 0 then
        emit (.replied (.read requestId) client (.readResult 0 fileNotOpenForRead []))
      else if fileOffset ≥ toInt32 stat.size ∨ count = 0 then
        emit (.replied (.read requestId) client (.readResult fd 0 []))
      else
        dispatchRead R requestId fd inst.fileId stat fileOffset count client

/-! ### Writing -/

/-- The loop of `write_file` over the stripes. -/
def writeStripes (request : WriteRequest) (fd : ℤ) (fileId : ℕ) (stat : DecafsFileStat)
    (buf : List UInt8) (count : ℤ) (client : Client) :
    ℕ → ℕ → ℤ → ℤ → ℕ × ℕ → Barista (ℕ × ℕ)
  | 0, _, _, _, _ => throw .noReturn
  | fuel + 1, stripeId, stripeOffset, bytesWritten, chunksSent => do
    if bytesWritten < toInt32 count then
      emit (.compared count bytesWritten stat.stripeSize.val stripeOffset)
      let writeSize := toInt32 (splitSize count bytesWritten stat.stripeSize.val stripeOffset)
      let written ← processWriteStripe R request fileId stripeId stat.stripeSize.val
        stat.chunkSize.val (buf.drop bytesWritten.toNat) stripeOffset (toUInt64 writeSize)
      let _ ← updateFileSize fileId writeSize client
      let _ ← setFileCursor R fd ((← get).volatile.getFileCursor (fdKey fd) + writeSize) client
      writeStripes request fd fileId stat buf count client fuel (stripeId + 1) 0
        (bytesWritten + writeSize) (chunksSent.1 + written.1, chunksSent.2 + written.2)
    else
      return chunksSent

/-- The end of `write_file`: all chunk packets are sent. -/
def finishWrite (request : WriteRequest) (numChunks : ℕ × ℕ) : Barista PUnit := do
  assert .writeFileEnd ((← get).requests.writeRequestExists request.requestId)
  requests <| modify fun r =>
    let active := r.writeRequest request
    r.setWrite request { active with
      info := { active.info with chunksExpected := numChunks.1 }
      replicaInfo := { active.replicaInfo with chunksExpected := numChunks.2 } }
  checkWriteComplete request.requestId

/-- `write_file` past its checks: the request is registered and its chunks are sent. -/
def dispatchWrite (request : WriteRequest) (fd : ℤ) (fileId : ℕ) (stat : DecafsFileStat)
    (fileOffset : ℤ) (buf : List UInt8) (count : ℤ) (client : Client) : Barista PUnit := do
  requests <| modify fun r => r.addWrite request
    { info := ⟨0, 0, fileId, client⟩, replicaInfo := ⟨0, 0, fileId, client⟩, fd := fd }
  emit (.registered (.write request))
  let (stripeId, stripeOffset) := getFirstStripe stat.stripeSize.val fileOffset
  let numChunks ← writeStripes R request fd fileId stat buf count client
    ((toInt32 count).toNat + 2) stripeId stripeOffset 0 (0, 0)
  finishWrite request numChunks

/-- `write_file` -/
def writeFile (fd : ℤ) (buf : List UInt8) (count : ℤ) (client : Client) : Barista PUnit := do
  let requestId ← volatile VolatileMetadata.getNewRequestId
  let replicaRequestId ← volatile VolatileMetadata.getNewRequestId
  let request : WriteRequest := ⟨requestId, replicaRequestId⟩
  assert .writeFd (fd > 0)
  let inst := (← get).volatile.getFileInfo (fdKey fd)
  if (← locking (hasExclusiveLock client inst.fileId)) ≤ 0 then
    emit (.replied (.write request) client (.writeResult 0 fileNotOpenForWrite))
  else
    match ← decafsFileStat inst.fileId client with
    | .error _ => emit (.replied (.write request) client (.writeResult 0 unableToStatFile))
    | .ok stat =>
      let fileOffset := (← get).volatile.getFileCursor (fdKey fd)
      if fileOffset < 0 then
        emit (.replied (.write request) client (.writeResult 0 fileNotOpenForWrite))
      else if count = 0 then
        emit (.replied (.write request) client (.writeResult 0 0))
      else
        dispatchWrite R request fd inst.fileId stat fileOffset buf count client

/-! ### Deleting -/

/-- The end of `delete_file`: all chunk packets are sent. -/
def finishDelete (requestId numChunks : ℕ) : Barista PUnit := do
  assert .deleteFileEnd ((← get).requests.deleteRequestExists requestId)
  requests <| modify fun r =>
    r.setDelete requestId { r.deleteRequest requestId with chunksExpected := numChunks }
  checkDeleteComplete requestId

/-- `delete_file` past its checks: the request is registered and the deletes are sent. -/
def dispatchDelete (requestId fileId : ℕ) (client : Client) : Barista PUnit := do
  requests (modify fun r => r.setDelete requestId ⟨0, 0, fileId, client⟩)
  emit (.registered (.delete requestId))
  let numChunks ← processDeleteFile R requestId fileId
  finishDelete requestId numChunks

/-- `delete_file` -/
def deleteFile (pathname : String) (client : Client) : Barista PUnit := do
  let requestId ← volatile VolatileMetadata.getNewRequestId
  match ← decafsFileSstat pathname client with
  | .error _ => emit (.replied (.delete requestId) client (.removeResult fileNotFound))
  | .ok fileInfo =>
    if (← locking (getExclusiveLock client fileInfo.fileId)) < 0 then
      emit (.replied (.delete requestId) client (.removeResult fileInUse))
    else
      dispatchDelete R requestId fileInfo.fileId client

/-! ### Opening, closing and seeking -/

/-- `open_file` once the file id is known; `size` is what the stat left in `stat.size`. -/
def openFileId (fileId size flags : ℕ) (client : Client) : Barista PUnit := do
  let lock ← locking (if flags &&& oRdwr ≠ 0 then getExclusiveLock client fileId
    else getSharedLock client fileId)
  if lock < 0 then
    emit (.told client (.openResult fileInUse))
  else
    let cursor ← volatile (VolatileMetadata.newFileCursor fileId client)
    if flags &&& oAppend ≠ 0 then
      let _ ← setFileCursor R cursor size client
    emit (.told client (.openResult cursor))

/-- `open_file` -/
def openFile (pathname : String) (flags : ℕ) (client : Client) : Barista PUnit := do
  match ← decafsFileSstat pathname client with
  | .ok stat => openFileId R stat.fileId stat.size flags client
  | .error e =>
    if e ≠ fileNotFound then
      openFileId R R.indeterminate R.indeterminate flags client
    else if flags &&& oRdwr ≠ 0 then
      let v := (← get).volatile
      let time := R.gettimeofday (← get)
      let fileId ← addFile pathname v.stripeSize v.chunkSize v.chunkSize.val time client
      openFileId R (toUInt32 fileId).toNat R.indeterminate flags client
    else
      emit (.told client (.openResult fileNotFoundForReading))

/-- `close_file` -/
def closeFile (fd : ℤ) (client : Client) : Barista PUnit := do
  let fileId ← volatile (VolatileMetadata.closeFileCursor (fdKey fd) client)
  if fileId > 0 then
    let _ ← locking (releaseLock client fileId.toNat)
  emit (.told client (.closeResult fileId))

/-- The `whence` of `file_seek`. -/
inductive Whence : Type
  | seekSet
  | seekCur
  | seekEnd
  deriving DecidableEq, Repr

/-- `file_seek` -/
def fileSeek (fd : ℤ) (offset : ℕ) (whence : Whence) (client : Client) : Barista PUnit := do
  if whence = .seekEnd then
    let _ ← setFileCursor R fd 4294967295 client
  else
    if whence = .seekSet then
      let _ ← setFileCursor R fd 0 client
    let cursor := (← get).volatile.getFileCursor (fdKey fd)
    if cursor ≥ 0 then
      let _ ← setFileCursor R fd (cursor + offset) client
  emit (.told client (.seekResult ((← get).volatile.getFileCursor (fdKey fd))))

/-! ### Messages -/

/-- What the server handles: the calls, with the `script` of their sends, chunk responses, and
Espressos that connect and disconnect. A client's `count` arrives as a 32-bit integer. -/
inductive Input : Type
  | openFile (pathname : String) (flags : ℕ) (client : Client)
  | readFile (fd count : ℤ) (client : Client) (script : List SendOutcome)
  | writeFile (fd : ℤ) (buf : List UInt8) (count : ℤ) (client : Client)
      (script : List SendOutcome)
  | closeFile (fd : ℤ) (client : Client)
  | deleteFile (pathname : String) (client : Client) (script : List SendOutcome)
  | fileSeek (fd : ℤ) (offset : ℕ) (whence : Whence) (client : Client)
  | response (d : Delivery)
  | nodeUp (node : ℤ)
  | nodeDown (node : ℤ)
  deriving DecidableEq, Repr

/-- Run `m` with the network behaving as `script`. -/
def scripted (script : List SendOutcome) (m : Barista PUnit) : Barista PUnit := do
  network (modify fun n => { n with script := script })
  m

/-- A client's count as the `size_t` argument of the call. -/
def sizeArgument (count : ℤ) : ℤ := toUInt64 (toInt32 count)

/-- Handle a message. -/
def handle : Input → Barista PUnit
  | .openFile pathname flags client => openFile R pathname flags client
  | .readFile fd count client script =>
    scripted script (readFile R fd (sizeArgument count) client)
  | .writeFile fd buf count client script =>
    scripted script (writeFile R fd buf (sizeArgument count) client)
  | .closeFile fd client => closeFile fd client
  | .deleteFile pathname client script => scripted script (deleteFile R pathname client)
  | .fileSeek fd offset whence client => fileSeek R fd offset whence client
  | .response d => receive R d
  | .nodeUp node => do let _ ← volatile (VolatileMetadata.setNodeUp node)
  | .nodeDown node => do let _ ← volatile (VolatileMetadata.setNodeDown node)

/-- The server handles `i` and returns. -/
def step (w : World) (i : Input) (w' : World) : Prop := handle R i w = .ok (⟨⟩, w')

end Barista

end DecaFS
