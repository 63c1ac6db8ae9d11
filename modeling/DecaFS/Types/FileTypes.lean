import Mathlib.Data.Prod.Lex
import DecaFS.ForMathlib.SearchMap
import DecaFS.Types.Client

/-!
# File types and limits

`decafs_types/file_types.h` and `decafs_types/limits.h`. `StripeSize` and `ChunkSize` are the
sizes `set_stripe_size` and `set_chunk_size` accept; a file keeps the sizes it was created
with, and its metadata takes them as they come.

`FileChunk.less` is the `operator<` of the source, which compares the file id of its left
argument with the stripe id of its right one when the stripes differ. `FileChunk` itself is
ordered lexicographically; `less_iff_of_stripes` says where the two agree.
-/

namespace DecaFS

/-- A stripe size within `MIN_STRIPE` and `MAX_STRIPE`. -/
structure StripeSize where
  val : ℕ
  min_le : 256 ≤ val
  le_max : val ≤ 65536
  deriving DecidableEq

/-- A chunk size within `MIN_CHUNK` and `MAX_CHUNK`. -/
structure ChunkSize where
  val : ℕ
  min_le : 128 ≤ val
  le_max : val ≤ 65536
  deriving DecidableEq

/-- `set_stripe_size`, when no size is set yet. -/
def StripeSize.ofSize? (size : ℕ) : Option StripeSize :=
  if h : 256 ≤ size ∧ size ≤ 65536 then some ⟨size, h.1, h.2⟩ else none

/-- `set_chunk_size`, when no size is set yet. -/
def ChunkSize.ofSize? (size : ℕ) : Option ChunkSize :=
  if h : 128 ≤ size ∧ size ≤ 65536 then some ⟨size, h.1, h.2⟩ else none

/-- `MAX_FILENAME_LENGTH` -/
def maxFilenameLength : ℕ := 100

/-- `struct timeval`. -/
structure Timeval where
  sec : ℤ := 0
  usec : ℤ := 0
  deriving DecidableEq

/-- `struct persistent_metadata_info`, for the stripe and chunk sizes of the types `S` and `C`. -/
structure PersistentMetadataInfo (S : Type := StripeSize) (C : Type := ChunkSize) where
  fileId : ℕ
  size : ℕ
  stripeSize : S
  chunkSize : C
  replicaSize : ℕ
  pathname : String
  lastAccessTime : Timeval
  deriving DecidableEq

/-- `struct decafs_file_stat`. -/
structure DecafsFileStat (S : Type := StripeSize) (C : Type := ChunkSize) where
  fileId : ℕ
  size : ℕ
  stripeSize : S
  chunkSize : C
  replicaSize : ℕ
  lastAccessTime : Timeval
  deriving DecidableEq

/-- `struct file_instance`. -/
structure FileInstance where
  clientId : Client := ⟨{}, 0, none⟩
  fileId : ℕ := 0
  offset : ℕ := 0
  deriving DecidableEq

/-- `struct file_chunk`. -/
@[ext]
structure FileChunk where
  fileId : ℕ
  stripeId : ℕ
  chunkNum : ℕ
  deriving DecidableEq, Repr

namespace FileChunk

/-- `operator<` -/
def less (left right : FileChunk) : Bool :=
  if left.fileId ≠ right.fileId then left.fileId < right.fileId
  else if left.stripeId ≠ right.stripeId then left.fileId < right.stripeId
  else left.chunkNum < right.chunkNum

/-- The fields in the order in which they are compared. -/
def rank (c : FileChunk) : ℕ ×ₗ ℕ ×ₗ ℕ := toLex (c.fileId, toLex (c.stripeId, c.chunkNum))

variable {a b : FileChunk}

theorem rank_lt_iff : a.rank < b.rank ↔ a.fileId < b.fileId ∨
    a.fileId = b.fileId ∧ (a.stripeId < b.stripeId ∨
      a.stripeId = b.stripeId ∧ a.chunkNum < b.chunkNum) := by
  simp [rank, Prod.Lex.toLex_lt_toLex]

theorem rank_injective : Function.Injective rank := by
  intro a b h
  simp only [rank, EmbeddingLike.apply_eq_iff_eq, Prod.mk.injEq] at h
  exact FileChunk.ext h.1 h.2.1 h.2.2

/-- The comparison tells the files apart. -/
theorem fileId_eq_of_not_less (h : a.less b = false) (h' : b.less a = false) :
    a.fileId = b.fileId := by
  unfold less at h h'
  grind

/-- The comparison tells the stripes of `a` and `b` apart when `a`'s comes first: `operator<`
looks at the file id where it should look at the stripe of its left argument. -/
def StripesApart (a b : FileChunk) : Prop :=
  a.fileId = b.fileId → a.stripeId < b.stripeId → a.stripeId ≤ a.fileId ∧ a.fileId < b.stripeId

/-- Where it tells the stripes apart, `operator<` is the lexicographic order. -/
theorem less_iff_rank_lt (hab : StripesApart a b) (hba : StripesApart b a) :
    a.less b = true ↔ a.rank < b.rank := by
  rw [rank_lt_iff]
  unfold less StripesApart at *
  grind

end FileChunk

end DecaFS
