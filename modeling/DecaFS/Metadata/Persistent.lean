import Mathlib.Data.Finmap
import Mathlib.Data.Finset.Lattice.Fold
import Mathlib.Data.Finset.Sort
import Mathlib.Data.String.Basic
import Mathlib.Order.Lattice.Nat
import Mathlib.Order.Nat
import DecaFS.Types.FileTypes

/-!
# Persistent metadata

`persistent_metadata/persistent_metadata.cpp`: the table of the files by id and the table of
their names. A stat comes back with its result, as the source fills the caller's structure
only when it returns `P_META_SUCCESS`.
-/

namespace DecaFS

/-- `FILE_NOT_FOUND` -/
def fileNotFound : ℤ := -1

/-- `FILE_EXISTS` -/
def fileExists : ℤ := -2

/-- `FILENAME_INVALID` -/
def filenameInvalid : ℤ := -3

/-- `NO_METADATA_LOCK` -/
def noMetadataLock : ℤ := -4

/-- `P_META_SUCCESS` -/
def pMetaSuccess : ℤ := 0

/-- `ID_NOT_SET` -/
def idNotSet : ℕ := 0

/-- `Persistent_Metadata_Impl`. -/
structure PersistentMetadata (S : Type := StripeSize) (C : Type := ChunkSize) where
  pathnameToFileId : Finmap (fun _ : String => ℕ) := ∅
  metadata : Finmap (fun _ : ℕ => PersistentMetadataInfo S C) := ∅
  nextFileId : ℕ := idNotSet

namespace PersistentMetadata

variable {S C : Type}

/-- The stat of the file described by `info`. -/
def toStat (info : PersistentMetadataInfo S C) : DecafsFileStat S C where
  fileId := info.fileId
  size := info.size
  stripeSize := info.stripeSize
  chunkSize := info.chunkSize
  replicaSize := info.replicaSize
  lastAccessTime := info.lastAccessTime

/-- `decafs_file_stat` -/
def decafsFileStat (fileId : ℕ) :
    Code (Halt Site) (PersistentMetadata S C) (Except ℤ (DecafsFileStat S C)) := do
  match (← get).metadata.lookup fileId with
  | some info => return .ok (toStat info)
  | none => return .error fileNotFound

/-- `decafs_file_sstat` -/
def decafsFileSstat (pathname : String) :
    Code (Halt Site) (PersistentMetadata S C) (Except ℤ (DecafsFileStat S C)) := do
  match (← get).pathnameToFileId.lookup pathname with
  | some fileId => decafsFileStat fileId
  | none => return .error fileNotFound

/-- `set_access_time` -/
def setAccessTime (inst : FileInstance) (time : Timeval) :
    Code (Halt Site) (PersistentMetadata S C) ℤ := do
  match (← get).metadata.lookup inst.fileId with
  | some info =>
    modify fun p => { p with
      metadata := p.metadata.insert inst.fileId { info with lastAccessTime := time } }
    return pMetaSuccess
  | none => return fileNotFound

/-- The loop of `get_filenames` from the name at `it` on, with `current` names copied. -/
def copyNames (size : ℤ) (current : ℕ) : List String → List String
  | [] => []
  | name :: it => if (current : ℤ) < size then name :: copyNames size (current + 1) it else []

/-- `get_filenames`: the result and the names copied. The bytes of strings in UTF-8 compare as
their characters do, so the map lists its keys in the order of `String`. -/
def getFilenames (size : ℤ) : Code (Halt Site) (PersistentMetadata S C) (ℤ × List String) := do
  let filenames := copyNames size 0 (← get).pathnameToFileId.keys.sort
  return (filenames.length, filenames)

/-- `get_num_files` -/
def getNumFiles (p : PersistentMetadata S C) : ℕ := p.metadata.keys.card

/-- `get_new_file_id` -/
def getNewFileId : Code (Halt Site) (PersistentMetadata S C) ℕ := do
  let p ← get
  let last := if p.nextFileId = idNotSet then p.metadata.keys.sup id else p.nextFileId
  let fileId := (toUInt32 (last + 1)).toNat
  set { p with nextFileId := fileId }
  return fileId

/-- `add_file` -/
def addFile (pathname : String) (stripeSize : S) (chunkSize : C)
    (replicaSize : ℕ) (time : Timeval) : Code (Halt Site) (PersistentMetadata S C) ℤ := do
  if pathname ∈ (← get).pathnameToFileId then
    return fileExists
  else if pathname.utf8ByteSize > maxFilenameLength then
    return filenameInvalid
  else
    let fileId ← getNewFileId
    modify fun p => { p with
      metadata := p.metadata.insert fileId
        ⟨fileId, 0, stripeSize, chunkSize, replicaSize, pathname, time⟩
      pathnameToFileId := p.pathnameToFileId.insert pathname fileId }
    return toInt32 fileId

/-- `delete_file_contents` -/
def deleteFileContents (fileId : ℕ) : Code (Halt Site) (PersistentMetadata S C) ℤ := do
  match (← get).metadata.lookup fileId with
  | some info =>
    modify fun p => { p with
      pathnameToFileId := p.pathnameToFileId.erase info.pathname
      metadata := p.metadata.erase fileId }
    return pMetaSuccess
  | none => return fileNotFound

/-- The size that `update_file_size` stores: an `int` decides whether it is cut off at 0. -/
def newSize (size : ℕ) (sizeDelta : ℤ) : ℕ :=
  if toInt32 (toInt32 size + sizeDelta) < 0 then 0 else (toUInt32 (size + sizeDelta)).toNat

/-- `update_file_size` -/
def updateFileSize (fileId : ℕ) (sizeDelta : ℤ) :
    Code (Halt Site) (PersistentMetadata S C) ℤ := do
  match (← get).metadata.lookup fileId with
  | some info =>
    let size := newSize info.size sizeDelta
    modify fun p => { p with metadata := p.metadata.insert fileId { info with size := size } }
    return toInt32 size
  | none => return fileNotFound

end PersistentMetadata

end DecaFS
