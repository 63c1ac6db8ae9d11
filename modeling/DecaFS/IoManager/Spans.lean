import DecaFS.IoManager.Sending
import Mathlib.Data.List.TakeWhile

/-!
# The spans of a request

A `Span` is the part of a request that lies in one chunk. A stripe call works on `stripeSpans`, the
pieces of its segment, and a whole request on `spans`, those of all its stripe calls; a read stops
in each stripe at the first chunk that does not exist (`readableSpans`).
-/

namespace DecaFS

open Code Barista

/-- A part of a chunk. -/
structure Span where
  stripeId : ℕ
  chunkNum : ℕ
  offset : ℕ
  length : ℕ
  deriving DecidableEq, Repr

/-- The chunk of a file in which the span lies. -/
def Span.chunk (s : Span) (fileId : ℕ) : FileChunk := ⟨fileId, s.stripeId, s.chunkNum⟩

/-- A piece of a stripe as a span. -/
def Piece.span (stripeId : ℕ) (p : Piece) : Span := ⟨stripeId, p.id, p.offset, p.length⟩

/-- The spans of a stripe call. -/
def stripeSpans (chunkSize stripeId offset n : ℕ) : List Span :=
  (pieces chunkSize (firstBlock chunkSize offset) (firstOffset chunkSize offset) n).map
    (Piece.span stripeId)

/-- The spans of the stripe calls for the pieces `ps`. -/
def callSpans (chunkSize : ℕ) (ps : List Piece) : List Span :=
  ps.flatMap fun p => stripeSpans chunkSize p.id p.offset p.length

/-- The spans of the `n` bytes from `position` on. -/
def spans (stripeSize chunkSize position n : ℕ) : List Span :=
  callSpans chunkSize (pieces stripeSize (firstBlock stripeSize position)
    (firstOffset stripeSize position) n)

/-- The spans of the stripe calls lie in the order of their chunks. -/
theorem pairwise_rank_callSpans (chunkSize f : ℕ) {ps : List Piece}
    (hps : ps.Pairwise fun p p' => p.id < p'.id) : (callSpans chunkSize ps).Pairwise
      fun s s' => (s.chunk f).rank < (s'.chunk f).rank := by
  refine List.pairwise_flatMap.mpr ⟨fun p _ => ?_, hps.imp fun {p p'} hlt s hs s' hs' => ?_⟩
  · refine List.pairwise_map.mpr (pairwise_id_pieces.imp fun {q q'} hlt => ?_)
    exact FileChunk.rank_lt_iff.mpr (.inr ⟨rfl, .inr ⟨rfl, hlt⟩⟩)
  · obtain ⟨q, -, rfl⟩ := List.mem_map.mp hs
    obtain ⟨q', -, rfl⟩ := List.mem_map.mp hs'
    exact FileChunk.rank_lt_iff.mpr (.inr ⟨rfl, .inl hlt⟩)

/-- The spans up to the first chunk that does not exist. -/
def existing (R : Runtime) (m : ChunkMaps) (fileId : ℕ) (l : List Span) : List Span :=
  l.takeWhile fun s => chunkExists R m.chunkToNode (s.chunk fileId)

theorem existing_cons {R : Runtime} {m : ChunkMaps} {fileId : ℕ} {s : Span} {l : List Span} :
    existing R m fileId (s :: l) =
      if chunkExists R m.chunkToNode (s.chunk fileId) = true then s :: existing R m fileId l
      else [] := by
  unfold existing
  split_ifs with h
  · exact List.takeWhile_cons_of_pos h
  · exact List.takeWhile_cons_of_neg h

theorem chunkExists_of_mem {R : Runtime} {m : ChunkMaps} {fileId : ℕ} {s : Span} {l : List Span}
    (h : s ∈ existing R m fileId l) : chunkExists R m.chunkToNode (s.chunk fileId) = true :=
  List.mem_takeWhile_imp (p := fun s : Span => chunkExists R m.chunkToNode (s.chunk fileId)) h

/-- The spans a read sends for. -/
def readableSpans (R : Runtime) (m : ChunkMaps) (fileId chunkSize : ℕ) (ps : List Piece) :
    List Span :=
  ps.flatMap fun p => existing R m fileId (stripeSpans chunkSize p.id p.offset p.length)

/-- The packet that reads a span. -/
def readPacket (requestId fileId : ℕ) (s : Span) : ChunkRequest :=
  ⟨.readChunk, requestId, s.chunk fileId, s.offset, s.length, []⟩

/-- The packet that writes `data` to a span. -/
def writePacket (requestId fileId : ℕ) (s : Span) (data : List UInt8) : ChunkRequest :=
  ⟨.writeChunk, requestId, s.chunk fileId, s.offset, s.length, data⟩

/-- The spans with the bytes of `buf` they take. -/
def portions : List Span → List UInt8 → List (Span × List UInt8)
  | [], _ => []
  | s :: l, buf => (s, buf.take s.length) :: portions l (buf.drop s.length)

theorem portions_append (l' : List Span) : ∀ (l : List Span) (buf : List UInt8),
    portions (l ++ l') buf =
      portions l buf ++ portions l' (buf.drop (l.map Span.length).sum)
  | [], buf => by simp [portions]
  | s :: l, buf => by
    simp [portions, portions_append l' l, List.drop_drop]

theorem map_fst_portions : ∀ (l : List Span) (buf : List UInt8), (portions l buf).map Prod.fst = l
  | [], _ => rfl
  | s :: l, buf => by rw [portions, List.map_cons, map_fst_portions l]

theorem sum_length_stripeSpans {chunkSize : ℕ} (hmin : 0 < chunkSize) (stripeId offset n : ℕ) :
    ((stripeSpans chunkSize stripeId offset n).map Span.length).sum = n := by
  rw [stripeSpans, List.map_map]
  exact sum_length_pieces hmin (firstOffset_le hmin)

theorem sum_length_callSpans (chunkSize : ℕ) (hmin : 0 < chunkSize) (ps : List Piece) :
    ((callSpans chunkSize ps).map Span.length).sum = (ps.map Piece.length).sum := by
  induction ps with
  | nil => rfl
  | cons p ps ih =>
    rw [callSpans, List.flatMap_cons, List.map_append, List.sum_append,
      sum_length_stripeSpans hmin, List.map_cons, List.sum_cons, ← ih, callSpans]

namespace VolatileMetadata

/-- The node is marked as down. -/
def down (v : VolatileMetadata) (node : ℤ) : VolatileMetadata :=
  { v with upNodes := v.upNodes.filter (· ≠ toUInt32 node) }

theorem wp_setNodeDown {v : VolatileMetadata} {node : ℤ} {Q : ℤ → VolatileMetadata → Prop}
    {E : Halt Site → Prop} (hQ : ∀ res, Q res (v.down node)) : wp (setNodeDown node) Q E v := by
  unfold setNodeDown
  by_cases hup : v.isNodeUp node = true
  · simpa [hup, down] using hQ vMetaSuccess
  · have hself : v.down node = v := by
      have hnot : toUInt32 node ∉ v.upNodes := by simpa [isNodeUp] using hup
      rw [down, List.filter_eq_self.mpr]
      intro n hn
      simpa using ne_of_mem_of_not_mem hn hnot
    rw [hself] at hQ
    simpa [hup] using hQ _

/-- The node is marked as up. -/
def up (v : VolatileMetadata) (node : ℤ) : VolatileMetadata :=
  if v.isNodeUp node then v else { v with upNodes := v.upNodes ++ [toUInt32 node] }

theorem up_keeps (v : VolatileMetadata) (node : ℤ) :
    (v.up node).requestId = v.requestId ∧ (v.up node).fileCursors = v.fileCursors := by
  unfold up
  split_ifs <;> exact ⟨rfl, rfl⟩

theorem wp_setNodeUp {v : VolatileMetadata} {node : ℤ} {Q : ℤ → VolatileMetadata → Prop}
    {E : Halt Site → Prop} (hQ : ∀ res, Q res (v.up node)) : wp (setNodeUp node) Q E v := by
  unfold setNodeUp
  unfold up at hQ
  by_cases hup : v.isNodeUp node = true
  · simpa [hup] using hQ nodeAlreadyUp
  · simpa [hup] using hQ vMetaSuccess

end VolatileMetadata

/-! ### Where a chunk is read from -/

variable {R : Runtime} {w : World} {chunk : FileChunk}

/-- The primary node while it is up, else the replica's. -/
theorem wp_readNode : wp (readNode R chunk)
    (fun node w' => w' = w ∧
      if w.volatile.isNodeUp (nodeOf R w.chunks.chunkToNode chunk) then
        node = nodeOf R w.chunks.chunkToNode chunk
      else chunkExists R w.chunks.chunkToReplicaNode chunk = true ∧
        node = nodeOf R w.chunks.chunkToReplicaNode chunk)
    (fun e => e = .assertion .readReplicaExists ∧
      w.volatile.isNodeUp (nodeOf R w.chunks.chunkToNode chunk) = false ∧
      chunkExists R w.chunks.chunkToReplicaNode chunk = false) w := by
  unfold readNode
  by_cases hup : w.volatile.isNodeUp (nodeOf R w.chunks.chunkToNode chunk) = true
  · simp [hup]
  · by_cases hexists : chunkExists R w.chunks.chunkToReplicaNode chunk = true
    · simp [hup, hexists]
    · simp [hup, hexists]

end DecaFS
