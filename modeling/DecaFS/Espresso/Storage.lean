import Mathlib.Data.Finmap
import DecaFS.ForMathlib.OrderedList
import DecaFS.ForMathlib.Patch
import DecaFS.ForMathlib.WeakestPre
import DecaFS.Types.Machine

/-!
# The Espresso chunk store

`espresso_storage.cc` and `espresso_data.cc`. Chunks live in one data file; `metadata` gives
each chunk its extent and `free_extents` is the ordered set of the extents of no chunk. Both
are used as the map and the set they are, within one session.

The data file is a list of bytes on which `lseek`, `read` and `write` succeed in full. A
growing `write_chunk` copies the chunk back with its new, larger size out of a buffer of the
old size: `overread` stands for the bytes it finds behind the buffer.
-/

namespace DecaFS

open OrderedList

/-- `struct data_descriptor`. -/
structure DataDescriptor where
  fileId : ℤ
  stripeId : ℤ
  chunkNum : ℤ
  deriving DecidableEq, Repr

/-- `struct data_address`: an extent of the data file. -/
structure DataAddress where
  offset : ℤ
  size : ℤ
  deriving DecidableEq, Repr

/-- `struct espresso_global_data_t`, with the contents of the data file. -/
structure EspressoData where
  file : List UInt8
  metadata : Finmap fun _ : DataDescriptor => DataAddress
  freeExtents : List DataAddress

/-- `espresso_global_data_init` on empty files, with a data file of `maxSize` bytes. -/
def espressoGlobalDataInit (maxSize : ℕ) : EspressoData where
  file := List.replicate maxSize 0
  metadata := ∅
  freeExtents := [⟨0, maxSize⟩]

/-- The assertions of `reallocate_chunk`, its step to the predecessor of `begin()`, and the array of
`write_chunk`. -/
inductive EspressoSite : Type
  /-- `assert(it->size > a->size)` -/
  | mergedBeforeSize
  /-- `--it` when no extent is before `it` -/
  | noExtentBefore
  /-- `assert(it->offset == a->offset)` after a merge -/
  | mergedAfterOffset
  /-- `assert(it->offset == a->offset)` without a merge -/
  | exactOffset
  /-- `assert(it->size == a->size)` -/
  | exactSize
  /-- `new uint8_t[a->second.size]` with a negative size -/
  | badArrayNewLength
  deriving DecidableEq, Repr

/-- Code of the chunk store. -/
abbrev Espresso (α : Type) : Type := Code EspressoSite EspressoData α

namespace Espresso

/-- `free_extents.insert` -/
def insertExtent (a : DataAddress) : Espresso PUnit :=
  modify fun s => { s with freeExtents := insertKey DataAddress.offset a s.freeExtents }

/-- `free_extents.erase` -/
def eraseExtent (a : DataAddress) : Espresso PUnit :=
  modify fun s => { s with freeExtents := eraseKey DataAddress.offset a.offset s.freeExtents }

/-- The extent `lower_bound(a)` points to. -/
def lowerBound (a : DataAddress) : Espresso (Option DataAddress) :=
  return (atLeast DataAddress.offset a.offset (← get).freeExtents).head?

/-- The extent before `lower_bound(a)`. -/
def beforeLowerBound (a : DataAddress) : Espresso (Option DataAddress) :=
  return (below DataAddress.offset a.offset (← get).freeExtents).getLast?

/-- `allocate_chunk`: the first extent of at least `size` bytes. -/
def allocateChunk (size : ℤ) : Espresso (Option DataAddress) := do
  match (← get).freeExtents.find? fun it => size ≤ it.size with
  | none => return none
  | some it =>
    if size < it.size then
      insertExtent ⟨it.offset + size, it.size - size⟩
    eraseExtent it
    return some ⟨it.offset, size⟩

/-- Join `a` with the extent `after` it. -/
def joinAfter (after : Option DataAddress) (a : DataAddress) : Espresso DataAddress := do
  match after with
  | none => return a
  | some it =>
    if it.offset = a.offset + a.size then
      eraseExtent it
      return { a with size := a.size + it.size }
    else return a

/-- Join `a` with the extent `before` it. -/
def joinBefore (before : Option DataAddress) (a : DataAddress) : Espresso DataAddress := do
  match before with
  | none => return a
  | some it =>
    if it.offset + it.size = a.offset then
      eraseExtent it
      return ⟨it.offset, a.size + it.size⟩
    else return a

/-- `deallocate_chunk` -/
def deallocateChunk (a : DataAddress) : Espresso PUnit := do
  let after ← lowerBound a
  let before ← beforeLowerBound a
  let a ← joinAfter after a
  let a ← joinBefore before a
  insertExtent a

/-- An `assert` of the chunk store. -/
def assert (site : EspressoSite) (c : Bool) : Espresso PUnit :=
  if c then pure ⟨⟩ else throw site

/-- The cleaning up in `reallocate_chunk`, after the allocation has failed. -/
def undoDeallocate (a : DataAddress) : Espresso PUnit := do
  match (← lowerBound a).filter fun it => it.offset ≤ a.offset with
  | none =>
    -- the deallocation merged before, and the lower bound skipped it
    match ← beforeLowerBound a with
    | none => throw .noExtentBefore
    | some it =>
      assert .mergedBeforeSize (it.size > a.size)
      let freeBefore := a.offset - it.offset
      if it.size > freeBefore + a.size then
        insertExtent ⟨a.offset + a.size, it.size - a.size - freeBefore⟩
      eraseExtent it
      insertExtent ⟨it.offset, freeBefore⟩
  | some it =>
    if it.size > a.size then
      assert .mergedAfterOffset (it.offset = a.offset)
      insertExtent ⟨a.offset + a.size, it.size - a.size⟩
      eraseExtent it
    else
      assert .exactOffset (it.offset = a.offset)
      assert .exactSize (it.size = a.size)
      eraseExtent it

/-- `reallocate_chunk`, on the address of the chunk `d`. -/
def reallocateChunk (d : DataDescriptor) (a : DataAddress) (size : ℤ) : Espresso ℤ := do
  deallocateChunk a
  match ← allocateChunk size with
  | none =>
    undoDeallocate a
    return -1
  | some a' =>
    modify fun s => { s with metadata := s.metadata.insert d a' }
    return 0

/-- `read_data`: the result and the bytes stored in the buffer. -/
def readData (d : DataDescriptor) (offset count : ℤ) : Espresso (ℤ × List UInt8) := do
  let s ← get
  if count < 0 then return (-1, []) else
  match s.metadata.lookup d with
  | none => return (-1, [])
  | some a =>
    let left := toInt32 (a.size - offset)
    let count := if count > left then left else count
    let pos := toInt32 (a.offset + offset)
    -- a negative position fails in `lseek`, a negative count in `read`
    if pos < 0 ∨ count < 0 then return (-1, []) else
    let bytes := slice s.file pos.toNat count.toNat
    return (bytes.length, bytes)

/-- `write_data` -/
def writeData (d : DataDescriptor) (offset : ℤ) (buf : List UInt8) (count : ℤ) : Espresso ℤ := do
  let s ← get
  if count < 0 then return -1 else
  match s.metadata.lookup d with
  | none => return -1
  | some a =>
    if count > toInt32 (a.size - offset) then return -1 else
    let pos := toInt32 (a.offset + offset)
    if pos < 0 then return -1 else
    set { s with file := patch s.file pos.toNat (buf.take count.toNat) }
    return count

/-- `read_chunk` -/
def readChunk (d : DataDescriptor) (offset count : ℤ) : Espresso (ℤ × List UInt8) :=
  readData d offset count

/-- `write_chunk`. `overread` are the bytes behind the copy of a growing chunk. -/
def writeChunk (d : DataDescriptor) (offset : ℤ) (buf : List UInt8) (count : ℤ)
    (overread : ℕ → UInt8) : Espresso ℤ := do
  if count < 0 then return -1 else
  let size := toInt32 (offset + count)
  match (← get).metadata.lookup d with
  | none =>
    match ← allocateChunk size with
    | none => return -1
    | some newA =>
      modify fun s => { s with metadata := s.metadata.insert d newA }
      writeData d offset buf count
  | some a =>
    if size > a.size then
      if a.size < 0 then throw .badArrayNewLength else
      let (r, oldChunk) ← readData d 0 a.size
      if r = -1 then return -1 else
      if (← reallocateChunk d a size) = -1 then return -1 else
      let newSize := ((← get).metadata.lookup d).elim 0 DataAddress.size
      let behind := (List.range (newSize - a.size).toNat).map overread
      if (← writeData d 0 (oldChunk ++ behind) newSize) = -1 then return -1 else
      writeData d offset buf count
    else
      writeData d offset buf count

/-- `delete_chunk` -/
def deleteChunk (d : DataDescriptor) : Espresso ℤ := do
  match (← get).metadata.lookup d with
  | none => return -1
  | some a =>
    deallocateChunk a
    modify fun s => { s with metadata := s.metadata.erase d }
    return 0

end Espresso

end DecaFS
