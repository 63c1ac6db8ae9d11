import DecaFS.BaristaCore.Runs
import DecaFS.IoManager.Placement

/-!
# The placement maps

What the chunk maps say once `process_write_stripe` has returned (`WriteLocated`), in terms of the
sends that succeeded. The chunks of one stripe differ in their number only, so `operator<` tells
them apart; the maps work for them (`MapsReadBack`) if it tells them apart from the other chunks
in the maps as well.
-/

namespace DecaFS

open Code Barista FileLocks Search

/-- The chunks of a stripe. -/
def stripeChunks (fileId stripeId : ℕ) : Set FileChunk :=
  {k | k.fileId = fileId ∧ k.stripeId = stripeId}

/-- The packets sent between the two states put both copies of every chunk that the spans lie in on
the nodes that the maps name for them. -/
def WriteLocated (R : Runtime) (q : WriteRequest) (fileId : ℕ) (l : List (Span × List UInt8))
    (w w' : World) : Prop :=
  ∃ sent, sends w'.network.log = sends w.network.log ++ sent ∧
    ∀ e ∈ l, 0 < e.1.length → Located R q fileId w'.chunks sent e.1 e.2

section

variable {R : Runtime} {w w' : World} {q : WriteRequest} {fileId stripeId offset n : ℕ}
  {stripeSize : StripeSize} {chunkSize : ChunkSize} {buf : List UInt8} {res : ℕ × ℕ}

theorem apart_of_stripe {k k' : FileChunk} (h : k.stripeId = k'.stripeId) : k.StripesApart k' := by
  intro _ hlt
  omega

/-- Where the keys of a map are in order and told apart from the chunks of the stripe, the map works
for these. -/
theorem readsBack_stripe {map : List (FileChunk × ℤ)} (h : SortedBy FileChunk.rank map)
    (hmap : ∀ e ∈ map, ∀ k ∈ stripeChunks fileId stripeId, e.1.StripesApart k ∧ k.StripesApart e.1) :
    R.search.ReadsBack (stripeChunks fileId stripeId) map := by
  refine readsBack_of_ranked h (fun k hk e he => ?_) (fun k hk k' hk' => ?_) fun k _ k' _ hrank => ?_
  · obtain ⟨hek, hke⟩ := hmap e he k hk
    exact ⟨FileChunk.less_iff_rank_lt hek hke, FileChunk.less_iff_rank_lt hke hek⟩
  · exact FileChunk.less_iff_rank_lt (apart_of_stripe (hk.2.trans hk'.2.symm))
      (apart_of_stripe (hk'.2.trans hk.2.symm))
  · exact FileChunk.rank_injective hrank

/-- The spans of a stripe call lie in different chunks. -/
theorem pairwise_chunk_portions (chunkSize : ℕ) : (portions (stripeSpans chunkSize stripeId offset n)
    buf).Pairwise fun e e' => e.1.chunk fileId ≠ e'.1.chunk fileId := by
  have hpieces : (stripeSpans chunkSize stripeId offset n).Pairwise
      fun s s' => s.chunk fileId ≠ s'.chunk fileId := by
    refine List.pairwise_map.mpr (pairwise_id_pieces.imp fun {p p'} hlt heq => ?_)
    exact hlt.ne (congrArg FileChunk.chunkNum heq)
  rw [← map_fst_portions (stripeSpans chunkSize stripeId offset n) buf] at hpieces
  exact (List.pairwise_map (f := Prod.fst)).mp hpieces

theorem mem_stripeChunks {e : Span × List UInt8}
    (he : e ∈ portions (stripeSpans chunkSize.val stripeId offset n) buf) :
    e.1.chunk fileId ∈ stripeChunks fileId stripeId := by
  have hmem : e.1 ∈ stripeSpans chunkSize.val stripeId offset n := by
    rw [← map_fst_portions (stripeSpans chunkSize.val stripeId offset n) buf]
    exact List.mem_map_of_mem he
  obtain ⟨p, -, hp⟩ := List.mem_map.mp hmem
  rw [← hp]
  exact ⟨rfl, rfl⟩

/-- The state in which `sampleServer` begins to write to file 1, the sends to come having these
outcomes. -/
def sampleWriting (flags : List Bool) : World :=
  withScript (flags.map fun accepted => ⟨accepted, []⟩)
    (writeRegistered 1 1 (sampleClient 1) sampleServer)

theorem booked_sampleWriting (flags : List Bool) :
    Booked (some (.write ⟨1, 2⟩)) (sampleWriting flags) := by
  obtain ⟨h, -⟩ := started_sampleServer.running.booked.registerWrite 1 (sampleClient 1) 1
  exact ⟨h.inv, h.paired, h.named, h.issued, h.unlocked⟩

theorem stripeSpans_sample : stripeSpans 128 1 0 3 = [⟨1, 1, 0, 3⟩] := by
  have hnil : 3 - min 3 (128 - firstOffset 128 0) = 0 := by decide
  rw [stripeSpans, pieces_of_pos (by decide) (by decide), hnil, pieces_zero]
  decide

theorem mapsReadBack_sampleWriting (flags : List Bool) :
    MapsReadBack sampleRuntime (stripeChunks 1 1) (sampleWriting flags).chunks :=
  ⟨readsBack_stripe .nil (List.forall_mem_nil _), readsBack_stripe .nil (List.forall_mem_nil _)⟩

end

end DecaFS
