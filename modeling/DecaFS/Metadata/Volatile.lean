import Mathlib.Data.Finmap
import Mathlib.Data.Finset.Lattice.Fold
import Mathlib.Order.Lattice.Nat
import Mathlib.Order.Nat
import DecaFS.Types.FileTypes

/-!
# Volatile metadata

`volatile_metadata/volatile_metadata.cpp`: the sizes the server was started with, the nodes
that are up, the open files and the counters for descriptors and request ids. The handlers
that a change of a node's state runs only print.
-/

namespace DecaFS

/-- `V_META_SUCCESS` -/
def vMetaSuccess : ℤ := 0

/-- `NODE_NUMBER_NOT_FOUND` -/
def nodeNumberNotFound : ℤ := -1

/-- `NODE_ALREADY_UP` -/
def nodeAlreadyUp : ℤ := 1

/-- `INSTANCE_NOT_FOUND` -/
def instanceNotFound : ℤ := -1

/-- `WRONG_CLIENT` -/
def wrongClient : ℤ := -2

/-- `FD_NOT_SET` -/
def fdNotSet : ℕ := 0

/-- `Volatile_Metadata`, after `barista_core_init` has set the sizes. -/
structure VolatileMetadata where
  stripeSize : StripeSize
  chunkSize : ChunkSize
  upNodes : List ℤ := []
  fileCursors : Finmap (fun _ : ℕ => FileInstance) := ∅
  lastFd : ℕ := fdNotSet
  requestId : ℕ := 0

namespace VolatileMetadata

/-- `is_node_up` -/
def isNodeUp (v : VolatileMetadata) (node : ℤ) : Bool := toUInt32 node ∈ v.upNodes

/-- `set_node_down` -/
def setNodeDown (node : ℤ) : Code (Halt Site) VolatileMetadata ℤ := do
  if (← get).isNodeUp node then
    modify fun v => { v with upNodes := v.upNodes.filter (· ≠ toUInt32 node) }
    return vMetaSuccess
  else
    return toUInt32 nodeNumberNotFound

/-- `set_node_up` -/
def setNodeUp (node : ℤ) : Code (Halt Site) VolatileMetadata ℤ := do
  if (← get).isNodeUp node then
    return nodeAlreadyUp
  else
    modify fun v => { v with upNodes := v.upNodes ++ [toUInt32 node] }
    return vMetaSuccess

/-- `get_new_fd` -/
def getNewFd : Code (Halt Site) VolatileMetadata ℕ := do
  let v ← get
  let last := if v.lastFd = fdNotSet then v.fileCursors.keys.sup id else v.lastFd
  let fd := (toUInt32 (last + 1)).toNat
  set { v with lastFd := fd }
  return fd

/-- `new_file_cursor` -/
def newFileCursor (fileId : ℕ) (client : Client) : Code (Halt Site) VolatileMetadata ℤ := do
  let fd ← getNewFd
  modify fun v => { v with fileCursors := v.fileCursors.insert fd ⟨client, fileId, 0⟩ }
  return toInt32 fd

/-- `close_file_cursor` -/
def closeFileCursor (fd : ℕ) (client : Client) : Code (Halt Site) VolatileMetadata ℤ := do
  match (← get).fileCursors.lookup fd with
  | some file =>
    if file.clientId = client then
      modify fun v => { v with fileCursors := v.fileCursors.erase fd }
      return toInt32 file.fileId
    else
      return wrongClient
  | none => return instanceNotFound

/-- `get_file_cursor` -/
def getFileCursor (v : VolatileMetadata) (fd : ℕ) : ℤ :=
  match v.fileCursors.lookup fd with
  | some file => toInt32 file.offset
  | none => instanceNotFound

/-- `get_file_info` -/
def getFileInfo (v : VolatileMetadata) (fd : ℕ) : FileInstance := (v.fileCursors.lookup fd).getD {}

/-- `get_new_request_id` -/
def getNewRequestId : Code (Halt Site) VolatileMetadata ℕ := do
  modify fun v => { v with requestId := (toUInt32 (v.requestId + 1)).toNat }
  return (← get).requestId

/-- A server that has just started. -/
def justStarted : VolatileMetadata where
  stripeSize := ⟨1024, by decide, by decide⟩
  chunkSize := ⟨512, by decide, by decide⟩

end VolatileMetadata

end DecaFS
