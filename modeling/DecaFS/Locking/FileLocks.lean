import Mathlib.Data.Finmap
import DecaFS.Types.Client

/-!
# The file lock table

`locking_strategy/locking_strategy.cc`. One record per file holds the owner's user id and
address, the process with the exclusive lock and the set of processes with a shared lock;
`owner_uid == 0` marks a record nobody owns. The functions are the source's, with the mutex
left out: the server handles one message at a time.

`file_locks[file_id]` creates the record when it is missing, so even a refused call leaves
one behind; `record` is its value and `FileLocks.insert` the write through the reference.
-/

namespace DecaFS

/-- `LOCK_SUCCESS` -/
def lockSuccess : ℤ := 0

/-- `LOCK_ERROR` -/
def lockError : ℤ := -1

/-- `struct file_lock`. -/
structure FileLock where
  ownerUid : ℕ := 0
  ownerIp : IpAddress := {}
  exProc : ConnectionPtr := none
  shProcs : Finset ConnectionPtr := ∅
  deriving DecidableEq

/-- `file_locks`. -/
abbrev FileLocks : Type := Finmap fun _ : ℕ => FileLock

namespace FileLocks

/-- `file_locks[file_id]`, with the record the subscript creates when there is none. -/
def record (locks : FileLocks) (fileId : ℕ) : FileLock := (locks.lookup fileId).getD {}

/-- The owner recorded in `lock` is the user at the address of `client`. -/
def ownedBy (lock : FileLock) (client : Client) : Prop :=
  lock.ownerUid = client.userId ∧ lock.ownerIp = client.ip

instance (lock : FileLock) (client : Client) : Decidable (ownedBy lock client) :=
  inferInstanceAs (Decidable (_ ∧ _))

end FileLocks

open FileLocks

/-- `get_exclusive_lock` -/
def getExclusiveLock (client : Client) (fileId : ℕ) : Code (Halt Site) FileLocks ℤ := do
  assert .lockUser (client.userId ≠ 0)
  let lock := (← get).record fileId
  if lock.ownerUid ≠ 0 then
    modify fun locks => locks.insert fileId lock
    return lockError
  else
    modify fun locks => locks.insert fileId
      { lock with ownerUid := client.userId, ownerIp := client.ip, exProc := client.ctc }
    return lockSuccess

/-- `get_shared_lock` -/
def getSharedLock (client : Client) (fileId : ℕ) : Code (Halt Site) FileLocks ℤ := do
  assert .lockUser (client.userId ≠ 0)
  let lock := (← get).record fileId
  if lock.ownerUid ≠ 0 ∧ ¬ ownedBy lock client then
    modify fun locks => locks.insert fileId lock
    return lockError
  else
    let lock := if lock.ownerUid = 0 then
      { lock with ownerUid := client.userId, ownerIp := client.ip } else lock
    modify fun locks => locks.insert fileId
      { lock with shProcs := insert client.ctc lock.shProcs }
    return if client.ctc ∈ lock.shProcs then lockError else lockSuccess

/-- `release_lock` -/
def releaseLock (client : Client) (fileId : ℕ) : Code (Halt Site) FileLocks ℤ := do
  assert .lockUser (client.userId ≠ 0)
  let lock := (← get).record fileId
  if ¬ ownedBy lock client then
    modify fun locks => locks.insert fileId lock
    return lockError
  else if lock.exProc = client.ctc then
    modify fun locks => locks.erase fileId
    return lockSuccess
  else if client.ctc ∉ lock.shProcs then
    modify fun locks => locks.insert fileId lock
    return lockError
  else
    let shProcs := lock.shProcs.erase client.ctc
    if shProcs.card = 0 then
      modify fun locks => locks.erase fileId
    else
      modify fun locks => locks.insert fileId { lock with shProcs := shProcs }
    return lockSuccess

/-- `has_exclusive_lock` -/
def hasExclusiveLock (client : Client) (fileId : ℕ) : Code (Halt Site) FileLocks ℤ := do
  assert .lockUser (client.userId ≠ 0)
  match (← get).lookup fileId with
  | none => return 0
  | some lock => return if ownedBy lock client ∧ lock.exProc = client.ctc then 1 else 0

/-- `has_shared_lock` -/
def hasSharedLock (client : Client) (fileId : ℕ) : Code (Halt Site) FileLocks ℤ := do
  assert .lockUser (client.userId ≠ 0)
  match (← get).lookup fileId with
  | none => return 0
  | some lock => return if ownedBy lock client ∧ client.ctc ∈ lock.shProcs then 1 else 0

end DecaFS
