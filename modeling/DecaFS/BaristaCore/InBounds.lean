import DecaFS.BaristaCore.Upkeep

/-!
# The loops stay in bounds

`read_file` and `write_file` cut a request at the stripes, `process_read_stripe` and
`process_write_stripe` cut the parts at the chunks. Whatever comes in during the sends, each stripe
call lies in its stripe and none of the unsigned differences that the four loops compare wraps
(`keeps_readFile_inBounds`, `keeps_writeFile_inBounds`): this depends on the sizes and the counts
only, not on the nodes, the tables or the ids.
-/

namespace DecaFS

open Code Barista

/-- Only events that fit were logged since `w₀`. -/
def InBounds (w₀ w : World) : Prop :=
  ∃ new, w.network.log = new ++ w₀.network.log ∧ ∀ e ∈ new, e.Fits

section

variable {R : Runtime} {w₀ w : World} {α : Type}

theorem InBounds.refl (w : World) : InBounds w w := ⟨[], rfl, List.forall_mem_nil _⟩

/-- An event that fits is logged. -/
theorem InBounds.cons {e : Event} (h : InBounds w₀ w) (he : e.Fits) {w' : World}
    (hlog : w'.network.log = e :: w.network.log) : InBounds w₀ w' := by
  obtain ⟨new, hnew, hfits⟩ := h
  exact ⟨e :: new, by rw [hlog, hnew, List.cons_append], List.forall_mem_cons.mpr ⟨he, hfits⟩⟩

theorem keeps_emit_inBounds {e : Event} (he : e.Fits) : (emit e).Keeps (InBounds w₀) :=
  fun _ h => wp_emit.mpr (h.cons he rfl)

/-! ### Code that logs nothing -/

theorem keeps_locking_inBounds (m : Code (Halt Site) FileLocks α) :
    (locking m).Keeps (InBounds w₀) := keeps_zoom fun _ _ h => h

theorem keeps_requests_inBounds (m : Code (Halt Site) Requests α) :
    (requests m).Keeps (InBounds w₀) := keeps_zoom fun _ _ h => h

theorem keeps_volatile_inBounds (m : Code (Halt Site) VolatileMetadata α) :
    (volatile m).Keeps (InBounds w₀) := keeps_zoom fun _ _ h => h

theorem keeps_chunks_inBounds (m : Code (Halt Site) ChunkMaps α) :
    (chunks m).Keeps (InBounds w₀) := keeps_zoom fun _ _ h => h

theorem keeps_withMetadataLock_inBounds (client : Client) (refused : α)
    (m : Code (Halt Site) PersistentMetadata α) :
    (withMetadataLock client refused m).Keeps (InBounds w₀) := by
  have hget : (getMetadataLock client).Keeps (InBounds w₀) :=
    .bind (Enduring.assert _ _) fun _ => .bind keeps_get fun _ =>
      .ite (.bind (keeps_modify fun _ h => h) fun _ => keeps_pure _) (keeps_pure _)
  have hrelease : (releaseMetadataLock client).Keeps (InBounds w₀) :=
    .bind (Enduring.assert _ _) fun _ => .bind keeps_get fun _ =>
      .ite (.bind (keeps_modify fun _ h => h) fun _ => keeps_pure _) (keeps_pure _)
  exact .bind hget fun _ => .ite (keeps_pure _) (.bind (keeps_zoom fun _ _ h => h) fun _ =>
    .bind hrelease fun _ => keeps_pure _)

theorem keeps_setFileCursor_inBounds (fd offset : ℤ) (client : Client) :
    (setFileCursor R fd offset client).Keeps (InBounds w₀) := by
  refine .bind keeps_get fun w => ?_
  cases w.volatile.fileCursors.lookup (fdKey fd) with
  | none => exact keeps_pure _
  | some file =>
    exact .ite (.bind (keeps_withMetadataLock_inBounds _ _ _) fun _ =>
      .bind (keeps_volatile_inBounds _) fun _ => keeps_pure _) (keeps_pure _)

/-! ### Responses -/

theorem keeps_checkReadComplete_inBounds (id : ℕ) : (checkReadComplete id).Keeps (InBounds w₀) :=
  .bind keeps_get fun _ => .bind (Enduring.assert _ _) fun _ => .bind keeps_get fun _ =>
    .ite (keeps_pure _) (.ite (.bind (keeps_emit_inBounds trivial) fun _ =>
      keeps_requests_inBounds _) (keeps_pure _))

theorem keeps_checkWriteComplete_inBounds (id : ℕ) : (checkWriteComplete id).Keeps (InBounds w₀) :=
  .bind keeps_get fun _ => .bind (Enduring.assert _ _) fun _ => .bind keeps_get fun _ =>
    .bind keeps_get fun _ => .ite (keeps_pure _) (.ite (.bind (keeps_emit_inBounds trivial) fun _ =>
      keeps_requests_inBounds _) (keeps_pure _))

theorem keeps_checkDeleteComplete_inBounds (id : ℕ) :
    (checkDeleteComplete id).Keeps (InBounds w₀) := by
  have hrest : ∀ request : RequestInfo, (do
      let _ ← locking (releaseLock request.client request.fileId)
      requests (modify fun r => r.eraseDelete id) : Barista PUnit).Keeps (InBounds w₀) :=
    fun _ => .bind (keeps_locking_inBounds _) fun _ => keeps_requests_inBounds _
  refine .bind keeps_get fun _ => .bind (Enduring.assert _ _) fun _ => .bind keeps_get fun _ =>
    .ite (keeps_pure _) (.ite ?_ (keeps_pure _))
  exact .bind (keeps_emit_inBounds trivial) fun _ =>
    .bind (keeps_withMetadataLock_inBounds _ _ _) fun _ =>
      .ite (.bind (keeps_throw _) fun _ => hrest _) (hrest _)

theorem keeps_receive_inBounds (d : Delivery) : (receive R d).Keeps (InBounds w₀) := by
  refine .bind keeps_get fun w => ?_
  cases w.network.inFlight[d.index]? with
  | none => exact keeps_pure _
  | some r =>
    refine .bind (fun w h => ?_) fun _ => ?_
    · -- the response itself is logged
      simp only [network, wp_zoom, wp_modify]
      exact h.cons (e := .answered r d.count d.data) trivial rfl
    · cases r.flag with
      | readChunk =>
        exact .bind keeps_get fun _ => .bind (Enduring.assert _ _) fun _ =>
          .bind (keeps_requests_inBounds _) fun _ => keeps_checkReadComplete_inBounds _
      | writeChunk =>
        exact .bind keeps_get fun _ => .bind (Enduring.assert _ _) fun _ =>
          .bind (keeps_requests_inBounds _) fun _ => keeps_checkWriteComplete_inBounds _
      | deleteChunk =>
        exact .bind keeps_get fun _ => .bind (Enduring.assert _ _) fun _ =>
          .bind (keeps_requests_inBounds _) fun _ => keeps_checkDeleteComplete_inBounds _

theorem keeps_receiveAll_inBounds : ∀ ds : List Delivery, (receiveAll R ds).Keeps (InBounds w₀)
  | [] => keeps_pure _
  | d :: ds => .bind (keeps_receive_inBounds d) fun _ => keeps_receiveAll_inBounds ds

/-! ### The loops -/

theorem keeps_sendToEspresso_inBounds (node : ℤ) (r : ChunkRequest) :
    (sendToEspresso R node r).Keeps (InBounds w₀) := by
  refine keeps_get_bind fun w h => ?_
  cases hs : w.network.script with
  | nil => exact (wp_throw _).mpr trivial
  | cons o script =>
    have hrest : (do
        receiveAll R o.deliveries
        return if o.accepted then 1 else nodeFailure : Barista ℤ).Keeps (InBounds w₀) :=
      .bind (keeps_receiveAll_inBounds _) fun _ => keeps_pure _
    cases ho : o.accepted
    · simpa [network, ho] using hrest _ (h.cons (e := .failed node r) trivial rfl)
    · simpa [network, ho] using hrest _ (h.cons (e := .sent node r) trivial rfl)

theorem keeps_readNode_inBounds (chunk : FileChunk) : (readNode R chunk).Keeps (InBounds w₀) :=
  .bind keeps_get fun _ => .ite (keeps_pure _) (.bind (Enduring.assert _ _) fun _ => keeps_pure _)

/-- The loop of `process_read_stripe`. -/
theorem keeps_readChunks_inBounds (id f stripeId : ℕ) {chunkSize n : ℕ} (hmax : chunkSize ≤ 65536)
    (hn : n ≤ intMax) (fuel : ℕ) :
    ∀ chunkId offset done numChunks : ℕ, offset ≤ chunkSize → done ≤ n →
      (readChunks R id f stripeId chunkSize n fuel chunkId offset done numChunks).Keeps
        (InBounds w₀) := by
  induction fuel with
  | zero => exact fun _ _ _ _ _ _ => keeps_throw _
  | succ fuel ih =>
    intro chunkId offset done numChunks hoffset hdone
    unfold readChunks
    generalize hlen : min (n - done) (chunkSize - offset) = len
    have hsize : toUInt32 (splitSize n done chunkSize offset) = len := by
      rw [splitSize_eq hdone hn hoffset hmax, hlen, toUInt32_eq] <;> unfold intMax at hn <;> omega
    have hfits : (Event.compared n done chunkSize offset).Fits := ⟨by omega, by omega⟩
    simp only [hsize]
    refine .ite (.bind keeps_get fun _ => .ite ?_ (keeps_pure _)) (keeps_pure _)
    refine .bind (keeps_readNode_inBounds _) fun _ => .bind (keeps_emit_inBounds hfits) fun _ =>
      .bind (keeps_sendToEspresso_inBounds _ _) fun _ => .ite ?_ ?_
    · exact .bind (keeps_volatile_inBounds _) fun _ => ih chunkId offset done numChunks hoffset hdone
    · exact ih (chunkId + 1) 0 (done + len) (numChunks + 1) (Nat.zero_le _) (by omega)

theorem keeps_writeNodes_inBounds (chunk : FileChunk) : (writeNodes R chunk).Keeps (InBounds w₀) :=
  .bind keeps_get fun _ => .bind (keeps_chunks_inBounds _) fun _ =>
    .bind (keeps_chunks_inBounds _) fun _ => .bind keeps_get fun _ => keeps_pure _

theorem keeps_writeReplica_inBounds (id : ℕ) (chunk : FileChunk) (node offset : ℤ)
    (buf : List UInt8) (n : ℤ) : (writeReplica R id chunk node offset buf n).Keeps (InBounds w₀) :=
  .bind (keeps_sendToEspresso_inBounds _ _) fun _ => .ite (.bind (keeps_volatile_inBounds _)
    fun _ => .bind keeps_get fun _ => .bind (keeps_sendToEspresso_inBounds _ _) fun _ =>
      keeps_pure _) (keeps_pure _)

/-- The loop of `process_write_stripe`. -/
theorem keeps_writeChunks_inBounds (q : WriteRequest) (f stripeId : ℕ) {chunkSize n : ℕ}
    (hmax : chunkSize ≤ 65536) (hn : n ≤ intMax) (buf : List UInt8) (fuel : ℕ) : ∀ (chunkId offset done : ℕ) (written : ℕ × ℕ), offset ≤ chunkSize → done ≤ n →
      (writeChunks R q f stripeId chunkSize buf n fuel chunkId offset done written).Keeps
        (InBounds w₀) := by
  induction fuel with
  | zero => exact fun _ _ _ _ _ _ => keeps_throw _
  | succ fuel ih =>
    intro chunkId offset done written hoffset hdone
    unfold writeChunks
    generalize hlen : min (n - done) (chunkSize - offset) = len
    have hsize : toUInt32 (splitSize n done chunkSize offset) = len := by
      rw [splitSize_eq hdone hn hoffset hmax, hlen, toUInt32_eq] <;> unfold intMax at hn <;> omega
    have hfits : (Event.compared n done chunkSize offset).Fits := ⟨by omega, by omega⟩
    simp only [hsize]
    refine .ite (.bind (keeps_writeNodes_inBounds _) fun _ => ?_) (keeps_pure _)
    refine .bind (keeps_emit_inBounds hfits) fun _ => .bind (keeps_sendToEspresso_inBounds _ _)
      fun _ => .ite ?_ ?_
    · exact .bind (keeps_volatile_inBounds _) fun _ => ih chunkId offset done written hoffset hdone
    · exact .bind (keeps_writeReplica_inBounds _ _ _ _ _ _) fun _ =>
        ih (chunkId + 1) 0 (done + len) _ (Nat.zero_le _) (by omega)

section Stripes

variable {stripeId stripeSize offset n : ℕ} {chunkSize : ChunkSize}

/-- `process_read_stripe` within a stripe. -/
theorem keeps_processReadStripe_inBounds (id f : ℕ) (hn : n ≤ intMax)
    (hfits : offset + n ≤ stripeSize) :
    (processReadStripe R id f stripeId stripeSize chunkSize.val offset n).Keeps (InBounds w₀) := by
  have hmin := chunkSize.min_le
  have hstripe : (Event.stripe .readChunk stripeId stripeSize offset n).Fits := by
    have hcast : ((offset + n : ℕ) : ℤ) ≤ stripeSize := Int.ofNat_le.mpr hfits
    simpa [Event.Fits] using hcast
  refine .bind (keeps_emit_inBounds hstripe) fun _ => .bind (Enduring.assert _ _) fun _ => ?_
  rw [getFirstChunk_eq]
  exact .bind keeps_get fun _ => keeps_readChunks_inBounds id f stripeId
    chunkSize.le_max hn _ _ _ 0 0 (firstOffset_le (by omega)) (Nat.zero_le _)

/-- `process_write_stripe` within a stripe. -/
theorem keeps_processWriteStripe_inBounds (q : WriteRequest) (f : ℕ) (hn : n ≤ intMax)
    (buf : List UInt8) (hfits : offset + n ≤ stripeSize) :
    (processWriteStripe R q f stripeId stripeSize chunkSize.val buf offset n).Keeps
      (InBounds w₀) := by
  have hmin := chunkSize.min_le
  have hstripe : (Event.stripe .writeChunk stripeId stripeSize offset n).Fits := by
    have hcast : ((offset + n : ℕ) : ℤ) ≤ stripeSize := Int.ofNat_le.mpr hfits
    simpa [Event.Fits] using hcast
  refine .bind (keeps_emit_inBounds hstripe) fun _ => .bind (Enduring.assert _ _) fun _ => ?_
  rw [getFirstChunk_eq]
  exact .bind keeps_get fun _ => keeps_writeChunks_inBounds q f stripeId
    chunkSize.le_max hn buf _ _ _ 0 (0, 0) (firstOffset_le (by omega)) (Nat.zero_le _)

end Stripes

/-! ### Calls -/

section Calls

variable {stat : DecafsFileStat} {n : ℕ}

/-- What the loops over the stripes take from the split. -/
theorem splitSize_stripe {done offset len : ℕ} (hn : n ≤ intMax)
    (hoffset : offset ≤ stat.stripeSize.val) (hdone : done ≤ n)
    (hlen : min (n - done) (stat.stripeSize.val - offset) = len) :
    toInt32 (splitSize n done stat.stripeSize.val offset) = len ∧ toUInt64 len = len := by
  have hmax := stat.stripeSize.le_max
  constructor
  · rw [splitSize_eq hdone hn hoffset hmax, hlen, toInt32_eq] <;> unfold intMax at * <;> omega
  · rw [toUInt64_eq] <;> unfold intMax at hn <;> omega

/-- The loop of `read_file`. -/
theorem keeps_readStripes_inBounds (id : ℕ) (fd : ℤ) (f : ℕ) (client : Client) (hn : n ≤ intMax)
    (fuel : ℕ) : ∀ stripeId offset done numChunks : ℕ, offset ≤ stat.stripeSize.val → done ≤ n →
      (readStripes R id fd f stat n client fuel stripeId offset done numChunks).Keeps
        (InBounds w₀) := by
  have hint : toInt32 n = n := toInt32_eq (by omega) hn
  induction fuel with
  | zero => exact fun _ _ _ _ _ _ => keeps_throw _
  | succ fuel ih =>
    intro stripeId offset done numChunks hoffset hdone
    unfold readStripes
    generalize hlen : min (n - done) (stat.stripeSize.val - offset) = len
    obtain ⟨hsize, hsize'⟩ := splitSize_stripe hn hoffset hdone hlen
    have hfits : (Event.compared n done stat.stripeSize.val offset).Fits := ⟨by omega, by omega⟩
    have hle : (len : ℤ) ≤ intMax := by omega
    simp only [hint, hsize, hsize']
    refine .ite (.bind (keeps_emit_inBounds hfits) fun _ => ?_) (keeps_pure _)
    refine .bind (keeps_processReadStripe_inBounds id f hle (by omega)) fun _ => .bind keeps_get
      fun _ => .bind (keeps_setFileCursor_inBounds _ _ _) fun _ => ?_
    exact ih (stripeId + 1) 0 (done + len) _ (Nat.zero_le _) (by omega)

/-- The loop of `write_file`. -/
theorem keeps_writeStripes_inBounds (q : WriteRequest) (fd : ℤ) (f : ℕ) (buf : List UInt8)
    (client : Client) (hn : n ≤ intMax) (fuel : ℕ) :
    ∀ (stripeId offset done : ℕ) (sent : ℕ × ℕ), offset ≤ stat.stripeSize.val → done ≤ n →
      (writeStripes R q fd f stat buf n client fuel stripeId offset done sent).Keeps
        (InBounds w₀) := by
  have hint : toInt32 n = n := toInt32_eq (by omega) hn
  induction fuel with
  | zero => exact fun _ _ _ _ _ _ => keeps_throw _
  | succ fuel ih =>
    intro stripeId offset done sent hoffset hdone
    unfold writeStripes
    generalize hlen : min (n - done) (stat.stripeSize.val - offset) = len
    obtain ⟨hsize, hsize'⟩ := splitSize_stripe hn hoffset hdone hlen
    have hfits : (Event.compared n done stat.stripeSize.val offset).Fits := ⟨by omega, by omega⟩
    have hle : (len : ℤ) ≤ intMax := by omega
    simp only [hint, hsize, hsize']
    refine .ite (.bind (keeps_emit_inBounds hfits) fun _ => ?_) (keeps_pure _)
    refine .bind (keeps_processWriteStripe_inBounds q f hle _ (by omega)) fun _ =>
      .bind (keeps_withMetadataLock_inBounds _ _ _) fun _ => .bind keeps_get fun _ =>
        .bind (keeps_setFileCursor_inBounds _ _ _) fun _ => ?_
    exact ih (stripeId + 1) 0 (done + len) _ (Nat.zero_le _) (by omega)

theorem keeps_dispatchRead_inBounds (id : ℕ) (fd : ℤ) (f offset : ℕ) (c : ℤ) (client : Client) :
    (dispatchRead R id fd f stat offset (sizeArgument c) client).Keeps (InBounds w₀) := by
  have hmin := stat.stripeSize.min_le
  have hloop : (readStripes R id fd f stat (sizeArgument c) client
      ((toInt32 (sizeArgument c)).toNat + 2) (firstBlock stat.stripeSize.val offset)
      (firstOffset stat.stripeSize.val offset) 0 0).Keeps (InBounds w₀) := by
    rw [toInt32_sizeArgument]
    by_cases hpos : 0 < toInt32 c
    · obtain ⟨hcount, hn⟩ := sizeArgument_eq hpos
      rw [hcount]
      exact keeps_readStripes_inBounds id fd f client hn _ _ _ 0 0 (firstOffset_le (by omega))
        (Nat.zero_le _)
    · have hstop : ¬ ((0 : ℤ) < toInt32 (sizeArgument c)) := by rwa [toInt32_sizeArgument]
      rw [readStripes, if_neg hstop]
      exact keeps_pure _
  refine .bind (keeps_requests_inBounds _) fun _ => .bind (keeps_emit_inBounds trivial) fun _ => ?_
  rw [getFirstStripe_eq]
  exact .bind hloop fun _ => .bind keeps_get fun _ => .bind (Enduring.assert _ _) fun _ =>
    .bind (keeps_requests_inBounds _) fun _ => keeps_checkReadComplete_inBounds _

theorem keeps_dispatchWrite_inBounds (q : WriteRequest) (fd : ℤ) (f offset : ℕ) (buf : List UInt8)
    (c : ℤ) (client : Client) :
    (dispatchWrite R q fd f stat offset buf (sizeArgument c) client).Keeps (InBounds w₀) := by
  have hmin := stat.stripeSize.min_le
  have hloop : (writeStripes R q fd f stat buf (sizeArgument c) client
      ((toInt32 (sizeArgument c)).toNat + 2) (firstBlock stat.stripeSize.val offset)
      (firstOffset stat.stripeSize.val offset) 0 (0, 0)).Keeps (InBounds w₀) := by
    rw [toInt32_sizeArgument]
    by_cases hpos : 0 < toInt32 c
    · obtain ⟨hcount, hn⟩ := sizeArgument_eq hpos
      rw [hcount]
      exact keeps_writeStripes_inBounds q fd f buf client hn _ _ _ 0 (0, 0)
        (firstOffset_le (by omega)) (Nat.zero_le _)
    · have hstop : ¬ ((0 : ℤ) < toInt32 (sizeArgument c)) := by rwa [toInt32_sizeArgument]
      rw [writeStripes, if_neg hstop]
      exact keeps_pure _
  refine .bind (keeps_requests_inBounds _) fun _ => .bind (keeps_emit_inBounds trivial) fun _ => ?_
  rw [getFirstStripe_eq]
  exact .bind hloop fun _ => .bind keeps_get fun _ => .bind (Enduring.assert _ _) fun _ =>
    .bind (keeps_requests_inBounds _) fun _ => keeps_checkWriteComplete_inBounds _

end Calls

/-- **`read_file`** stays in bounds, whatever it is asked for. -/
theorem keeps_readFile_inBounds (fd c : ℤ) (client : Client) :
    (readFile R fd (sizeArgument c) client).Keeps (InBounds w₀) := by
  have hmay : ∀ f, (mayRead client f).Keeps (InBounds w₀) := fun _ =>
    .bind (keeps_locking_inBounds _) fun _ =>
      .ite (.bind (keeps_locking_inBounds _) fun _ => keeps_pure _) (keeps_pure _)
  refine .bind (keeps_volatile_inBounds _) fun _ => .bind (Enduring.assert _ _) fun _ =>
    .bind keeps_get fun _ => .bind (hmay _) fun _ => .ite (keeps_emit_inBounds trivial) ?_
  refine .bind (keeps_withMetadataLock_inBounds _ _ _) fun stat => ?_
  cases stat with
  | error _ => exact keeps_emit_inBounds trivial
  | ok stat =>
    refine .bind keeps_get fun w => ?_
    by_cases hneg : w.volatile.getFileCursor (fdKey fd) < 0
    · rw [if_pos hneg]
      exact keeps_emit_inBounds trivial
    · obtain ⟨offset, hoffset⟩ := Int.eq_ofNat_of_zero_le (not_lt.mp hneg)
      rw [if_neg hneg, hoffset]
      exact .ite (keeps_emit_inBounds trivial) (keeps_dispatchRead_inBounds _ _ _ _ _ _)

/-- **`write_file`** stays in bounds, whatever it is asked for. -/
theorem keeps_writeFile_inBounds (fd : ℤ) (buf : List UInt8) (c : ℤ) (client : Client) :
    (writeFile R fd buf (sizeArgument c) client).Keeps (InBounds w₀) := by
  refine .bind (keeps_volatile_inBounds _) fun _ => .bind (keeps_volatile_inBounds _) fun _ =>
    .bind (Enduring.assert _ _) fun _ => .bind keeps_get fun _ =>
      .bind (keeps_locking_inBounds _) fun _ => .ite (keeps_emit_inBounds trivial) ?_
  refine .bind (keeps_withMetadataLock_inBounds _ _ _) fun stat => ?_
  cases stat with
  | error _ => exact keeps_emit_inBounds trivial
  | ok stat =>
    refine .bind keeps_get fun w => ?_
    by_cases hneg : w.volatile.getFileCursor (fdKey fd) < 0
    · rw [if_pos hneg]
      exact keeps_emit_inBounds trivial
    · obtain ⟨offset, hoffset⟩ := Int.eq_ofNat_of_zero_le (not_lt.mp hneg)
      rw [if_neg hneg, hoffset]
      exact .ite (keeps_emit_inBounds trivial) (keeps_dispatchWrite_inBounds _ _ _ _ _ _ _)

end

end DecaFS
