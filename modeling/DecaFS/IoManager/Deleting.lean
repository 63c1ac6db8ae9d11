import DecaFS.IoManager.Spans

/-!
# The deletes of a file

`process_delete_file` goes through the chunks of the file and sends a packet for each copy that is
recorded at a node that is up. It counts the copies it tried, also those whose send fails.
-/

namespace DecaFS

open Code Barista

/-- The packet that deletes a chunk. -/
def deletePacket (requestId : ℕ) (chunk : FileChunk) : ChunkRequest :=
  ⟨.deleteChunk, requestId, chunk, -1, -1, []⟩

/-- A copy of the chunk is recorded at a node that is up. -/
def AtUpNode (R : Runtime) (map : List (FileChunk × ℤ)) (v : VolatileMetadata) (chunk : FileChunk) :
    Prop :=
  chunkExists R map chunk ∧ v.isNodeUp (nodeOf R map chunk)

instance (R : Runtime) (map : List (FileChunk × ℤ)) (v : VolatileMetadata) (chunk : FileChunk) :
    Decidable (AtUpNode R map v chunk) :=
  inferInstanceAs (Decidable (_ ∧ _))

/-- The chunk has a copy that can be deleted. -/
def Deletable (R : Runtime) (w : World) (chunk : FileChunk) : Prop :=
  AtUpNode R w.chunks.chunkToNode w.volatile chunk ∨
    AtUpNode R w.chunks.chunkToReplicaNode w.volatile chunk

/-- Between two moments of a delete loop at which `used.length` copies are tried. Where none is,
`nothing` tells why. -/
structure Removed (R : Runtime) (id : ℕ) (nothing : Prop) (used : List SendOutcome)
    (sent : List (ℤ × ChunkRequest)) (w w' : World) : Prop
    extends Sending R (.delete id) used sent w w' where
  volatile : w'.volatile = w.volatile
  idle_iff : used = [] ↔ nothing
  chunks : used = [] → w'.chunks = w.chunks

section Removed

variable {R : Runtime} {id : ℕ} {nothing nothing' : Prop} {used used' : List SendOutcome}
  {sent sent' : List (ℤ × ChunkRequest)} {w w' w'' : World} {chunk : FileChunk}

theorem Removed.refl (h : Booked (some (.delete id)) w) (hnothing : nothing) :
    Removed R id nothing [] [] w w :=
  ⟨.refl h, rfl, iff_of_true rfl hnothing, fun _ => rfl⟩

theorem Removed.trans (h : Removed R id nothing used sent w w')
    (h' : Removed R id nothing' used' sent' w' w'') :
    Removed R id (nothing ∧ nothing') (used ++ used') (sent ++ sent') w w'' where
  toSending := h.toSending.trans h'.toSending
  volatile := h'.volatile.trans h.volatile
  idle_iff := by rw [List.append_eq_nil_iff, h.idle_iff, h'.idle_iff]
  chunks hnil := by
    obtain ⟨hnil, hnil'⟩ := List.append_eq_nil_iff.mp hnil
    exact (h'.chunks hnil').trans (h.chunks hnil)

theorem Removed.congr (h : Removed R id nothing used sent w w')
    (hiff : nothing ↔ nothing') : Removed R id nothing' used sent w w' :=
  ⟨h.toSending, h.volatile, h.idle_iff.trans hiff, h.chunks⟩

theorem wp_deleteCopy (copies : ChunkMaps → List (FileChunk × ℤ))
    (put : List (FileChunk × ℤ) → ChunkMaps → ChunkMaps) (chunk : FileChunk) (numChunks : ℕ)
    (h : Booked (some (.delete id)) w) :
    wp (deleteCopy R copies put id chunk numChunks)
      (fun res w' => ∃ used sent,
        Removed R id (¬ AtUpNode R (copies w.chunks) w.volatile chunk) used sent w w' ∧
        res = numChunks + used.length)
      (fun e => e = .noReturn) w := by
  unfold deleteCopy
  by_cases hup : AtUpNode R (copies w.chunks) w.volatile chunk
  · have hup' := hup
    unfold AtUpNode at hup'
    simp only [wp_bind, wp_get, hup', and_self, if_true]
    refine wp_mono (wp_sendToEspresso _ _ h ?_) (fun _ w₁ hw₁ => ?_) fun _ he => he.1
    · simp [Operation.tags, ChunkRequest.tag]
    · obtain ⟨o, h₁, hv, -⟩ := hw₁
      let w₂ : World := { w₁ with
        chunks := put (R.search.erase chunk (copies w₁.chunks)) w₁.chunks }
      have hunseen : Unseen w₁ w₂ := ⟨rfl, rfl, rfl, rfl⟩
      have h₂ := h₁.trans (hunseen.sending h₁.booked (.of_eq rfl rfl rfl) rfl)
      simp only [wp_bind, chunks, wp_zoom, wp_modify, wp_pure]
      exact ⟨_, _, ⟨h₂, hv, by simp [hup], by simp⟩, by simp⟩
  · have hup' := hup
    unfold AtUpNode at hup'
    simp only [wp_bind, wp_get, hup', if_false, wp_pure]
    exact ⟨[], [], .refl h hup, rfl⟩

/-- **The loop of `process_delete_file`.** -/
theorem wp_deleteChunks (l : List FileChunk) (numChunks : ℕ) (h : Booked (some (.delete id)) w) :
    wp (deleteChunks R id l numChunks)
      (fun res w' => ∃ used sent,
        Removed R id (∀ chunk ∈ l, ¬ Deletable R w chunk) used sent w w' ∧
        res = numChunks + used.length)
      (fun e => e = .noReturn) w := by
  induction l generalizing numChunks w with
  | nil =>
    simp only [deleteChunks, wp_pure]
    exact ⟨[], [], .refl h (by simp), rfl⟩
  | cons chunk l ih =>
    simp only [deleteChunks, wp_bind]
    refine wp_mono (wp_deleteCopy _ _ chunk numChunks h) (fun _ w₁ hw₁ => ?_) fun _ he => he
    obtain ⟨used₁, sent₁, h₁, rfl⟩ := hw₁
    rw [wp_bind]
    refine wp_mono (wp_deleteCopy _ _ chunk _ h₁.booked) (fun _ w₂ hw₂ => ?_) fun _ he => he
    obtain ⟨used₂, sent₂, h₂, rfl⟩ := hw₂
    refine wp_mono (ih _ h₂.booked) (fun res w' hw' => ?_) fun _ he => he
    obtain ⟨used₃, sent₃, h₃, rfl⟩ := hw'
    refine ⟨_, _, (h₁.trans (h₂.trans h₃)).congr ?_, by simp only [List.length_append]; omega⟩
    -- while nothing is tried, the maps and the nodes stay as they are
    rw [List.forall_mem_cons, Deletable, not_or, and_assoc]
    refine and_congr_right fun hnone => ?_
    have hchunks₁ := h₁.chunks (h₁.idle_iff.mpr hnone)
    rw [hchunks₁, h₁.volatile]
    refine and_congr_right fun hnone' => ?_
    have hchunks₂ := h₂.chunks (h₂.idle_iff.mpr (by rwa [hchunks₁, h₁.volatile]))
    simp only [Deletable, hchunks₂, hchunks₁, h₂.volatile, h₁.volatile]

/-- **`process_delete_file`** tries a copy exactly if there is one that can be deleted. -/
theorem wp_processDeleteFile (fileId : ℕ) (h : Booked (some (.delete id)) w) :
    wp (processDeleteFile R id fileId)
      (fun res w' => ∃ used sent,
        Removed R id (∀ chunk ∈ getAllChunks w.chunks fileId, ¬ Deletable R w chunk) used sent
          w w' ∧ res = used.length)
      (fun e => e = .noReturn) w := by
  simp only [processDeleteFile, wp_bind, wp_get]
  refine wp_mono (wp_deleteChunks _ 0 h) (fun res w' hw' => ?_) fun _ he => he
  obtain ⟨used, sent, hremoved, rfl⟩ := hw'
  exact ⟨used, sent, hremoved, Nat.zero_add _⟩

end Removed

end DecaFS
