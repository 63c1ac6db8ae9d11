import DecaFS.BaristaCore.Striping

/-!
# What the chunk packets ask for

The packets that a message leads to, whatever responses come in while they are sent (`Issues`,
`issued_of_step`), and from that over whole runs: every packet that goes to a node is about a part of one
chunk, no longer than the buffer of `process_read_packet` and within the positions that `write_chunk` can
make a chunk of (`Started.packets_inChunk`).

The offset of a packet may be the size of its chunk, because `get_first_chunk` leaves a multiple of the
size at the end of the chunk before it; such a packet counts no bytes.
-/

namespace DecaFS

open Code Barista

/-! ### The spans of a request -/

section Spans

variable {size id offset n chunkSize : ℕ} {p : Piece} {s : Span} {l : List Span} {buf : List UInt8}

/-- No piece ends where its block begins. -/
theorem Piece.end_pos (hsize : 0 < size) (hp : p ∈ pieces size id offset n) : 0 < p.offset + p.length := by
  induction id, offset, n using pieces.induct size with
  | case1 id offset n h =>
    rw [pieces, if_pos h] at hp
    exact absurd hp List.not_mem_nil
  | case2 id offset n h ih =>
    rw [pieces, if_neg h] at hp
    rcases List.mem_cons.mp hp with rfl | hp
    · simp only
      omega
    · exact ih hp

/-- The span is a part of its chunk, and does not end where the chunk begins. -/
theorem span_inside (hchunk : 0 < chunkSize) {ps : List Piece} (hs : s ∈ callSpans chunkSize ps) :
    s.offset + s.length ≤ chunkSize ∧ 0 < s.offset + s.length := by
  obtain ⟨p, -, hp⟩ := List.mem_flatMap.mp hs
  obtain ⟨q, hq, rfl⟩ := List.mem_map.mp hp
  exact ⟨(offset_add_length_le (firstOffset_le hchunk) hq).1, Piece.end_pos hchunk hq⟩

/-- A portion has all the bytes of its span. -/
theorem length_of_mem_portions (h : (l.map Span.length).sum ≤ buf.length) {e : Span × List UInt8}
    (he : e ∈ portions l buf) : e.2.length = e.1.length := by
  induction l generalizing buf with
  | nil => exact absurd he List.not_mem_nil
  | cons s l ih =>
    rw [List.map_cons, List.sum_cons] at h
    rcases List.mem_cons.mp he with rfl | he
    · exact List.length_take_of_le (by omega)
    · refine ih ?_ he
      rw [List.length_drop]
      omega

theorem fst_mem_of_mem_portions {e : Span × List UInt8} (he : e ∈ portions l buf) : e.1 ∈ l :=
  map_fst_portions l buf ▸ List.mem_map_of_mem he

theorem readSpans_subset {R : Runtime} {info : PersistentMetadataInfo} {fd count : ℤ} {w : World} :
    ∀ s ∈ readSpans R info fd count w, s ∈ writeSpans info fd count w := by
  intro s hs
  obtain ⟨p, hp, hmem⟩ := List.mem_flatMap.mp hs
  exact List.mem_flatMap.mpr ⟨p, hp, (List.takeWhile_sublist _).subset hmem⟩

theorem sum_length_writeSpans (info : PersistentMetadataInfo) (fd count : ℤ) (w : World) :
    ((writeSpans info fd count w).map Span.length).sum = (toInt32 count).toNat :=
  sum_length_of_tiles (tiles_spans info.stripeSize info.chunkSize _ _)

end Spans

/-! ### The packets of a message -/

/-- A packet to which the message may lead in the state `w`. -/
inductive Issues (w : World) : Input → ChunkRequest → Prop
  | read {fd count : ℤ} {client : Client} {script : List SendOutcome} {info : PersistentMetadataInfo}
      {s : Span} (file : w.persistent.metadata.lookup (w.fileAt fd) = some info)
      (mem : s ∈ writeSpans info fd count w) : Issues w (.readFile fd count client script)
        (readPacket (w.volatile.requestId + 1) (w.fileAt fd) s)
  | write {fd count : ℤ} {buf : List UInt8} {client : Client} {script : List SendOutcome}
      {info : PersistentMetadataInfo} {s : Span} {data : List UInt8} {id : ℕ}
      (file : w.persistent.metadata.lookup (w.fileAt fd) = some info)
      (mem : (s, data) ∈ portions (writeSpans info fd count w) buf)
      (named : id = (nextWrite w).requestId ∨ id = (nextWrite w).replicaRequestId) :
      Issues w (.writeFile fd buf count client script) (writePacket id (w.fileAt fd) s data)
  | delete {path : String} {client : Client} {script : List SendOutcome} {r : ChunkRequest}
      (flag : r.flag = .deleteChunk) (named : r.id = w.volatile.requestId + 1) :
      Issues w (.deleteFile path client script) r

section

variable {R : Runtime} {q : WriteRequest} {fileId : ℕ} {l : List (Span × List UInt8)}
  {v v' : VolatileMetadata} {m m' : ChunkMaps} {used : List SendOutcome} {sent : List (ℤ × ChunkRequest)}
  {w w' w₀ : World} {i : Input} {is : List Input}

theorem ReplicaSent.packet {node : ℤ} {chunkNum : ℕ} {r : ChunkRequest}
    (h : ReplicaSent node chunkNum r v used sent v') : ∀ e ∈ sent, e.2 = r := by
  cases h with
  | first _ => simp
  | second _ => split_ifs <;> simp

/-- Each packet of a write is one of its spans with its data. -/
theorem WriteRounds.packets (h : WriteRounds R q fileId l v m used sent v' m') :
    ∀ e ∈ sent, ∃ p ∈ l, e.2 = writePacket q.requestId fileId p.1 p.2 ∨
      e.2 = writePacket q.replicaRequestId fileId p.1 p.2 := by
  induction h with
  | done => exact fun e he => absurd he List.not_mem_nil
  | pass _ _ ih => exact ih
  | retry _ _ ih => exact ih
  | sent _ replica _ ih =>
    intro e he
    rcases List.mem_cons.mp he with rfl | he
    · exact ⟨_, List.mem_cons_self, .inl rfl⟩
    · rcases List.mem_append.mp he with he | he
      · exact ⟨_, List.mem_cons_self, .inr (replica.packet e he)⟩
      · obtain ⟨p, hp, hpacket⟩ := ih e he
        exact ⟨p, List.mem_cons_of_mem _ hp, hpacket⟩

/-- The other messages send nothing. -/
theorem sends_of_told (hlock : w.metaLock = none) (hstep : step R w i w')
    (hother : ∀ flag f K, ¬ Concerns w i flag f K) : sends w'.network.log = sends w.network.log := by
  obtain ⟨-, hrouting⟩ := step_routed hlock hstep
  have htold := hrouting.resolve_right fun ⟨flag, f, K, hconcerns, _⟩ => hother flag f K hconcerns
  have htried : (routing w').tried = (routing w).tried := by
    rw [htold]
    cases i <;> rfl
  rw [sends_eq_attempts, sends_eq_attempts]
  exact congrArg (fun tried => (tried.reverse.filter Attempt.accepted).map fun t : Attempt =>
    (t.node, t.request)) htried

/-- **The step lemma.** A message leads to packets about its spans, and to no others. -/
theorem issued_of_step (hw : Running w) (hids : w.volatile.requestId + i.ids < 4294967296)
    (hstep : step R w i w') :
    ∃ sent, sends w'.network.log = sends w.network.log ++ sent ∧ ∀ e ∈ sent, Issues w i e.2 := by
  have hother : (∀ flag f K, ¬ Concerns w i flag f K) →
      ∃ sent, sends w'.network.log = sends w.network.log ++ sent ∧ ∀ e ∈ sent, Issues w i e.2 := by
    intro h
    exact ⟨[], by rw [sends_of_told hw.booked.unlocked hstep h, List.append_nil], by simp⟩
  cases i with
  | readFile fd count client script =>
    have hbooked := hw.booked.withScript script
    have hserved := (wp_scripted.mpr (wp_readFile_served (R := R) fd count client hbooked hids)).of_ok hstep
    rcases hserved with ⟨-, -, reply, -, rfl⟩ | ⟨-, info, used, sent, w₂, hserved⟩
    · exact ⟨[], by simp [logged, issuedUpTo, sends, withScript], by simp⟩
    · refine ⟨sent, hserved.finished.sends.trans hserved.fetched.sends, fun e he => ?_⟩
      have hpacket : e.2 ∈ (readSpans R info fd count (withScript script w)).map
          (readPacket (w.volatile.requestId + 1) (w.fileAt fd)) :=
        hserved.fetched.packets ▸ List.mem_map_of_mem he
      obtain ⟨s, hs, heq⟩ := List.mem_map.mp hpacket
      rw [← heq]
      exact .read hserved.file (readSpans_subset s hs)
  | writeFile fd buf count client script =>
    have hbooked := hw.booked.withScript script
    have hserved :=
      (wp_scripted.mpr (wp_writeFile_served (R := R) fd count buf client hbooked hids)).of_ok hstep
    rcases hserved with ⟨-, -, reply, -, rfl⟩ | ⟨-, info, used, sent, w₂, hserved⟩
    · exact ⟨[], by simp [logged, issuedUpTo, sends, withScript], by simp⟩
    · refine ⟨sent, hserved.finished.sends.trans hserved.stored.sends, fun e he => ?_⟩
      obtain ⟨⟨s, data⟩, hmem, heq | heq⟩ := hserved.stored.rounds.packets e he
      · rw [heq]
        exact .write hserved.file hmem (.inl rfl)
      · rw [heq]
        exact .write hserved.file hmem (.inr rfl)
  | deleteFile path client script =>
    have hbooked := hw.booked.withScript script
    have hserved := (wp_scripted.mpr (wp_deleteFile_served (R := R) path client hbooked hids)).of_ok hstep
    rcases hserved with ⟨-, -, result, locks, -, rfl⟩ | ⟨info, locks, used, sent, w₂, hserved⟩
    · exact ⟨[], by simp [logged, issuedUpTo, sends, withScript], by simp⟩
    · refine ⟨sent, hserved.finished.sends.trans hserved.removed.sends, fun e he => ?_⟩
      have htag : e.2.tag = ⟨.deleteChunk, w.volatile.requestId + 1⟩ := by
        simpa [Operation.tags, withScript] using hserved.removed.tagged e he
      exact .delete (congrArg Tag.flag htag) (congrArg Tag.id htag)
  | _ => exact hother fun flag f K h => by cases h

/-! ### Packets and chunks -/

/-- The packet is about a part of one chunk, and brings the bytes it counts. -/
structure ChunkRequest.InChunk (r : ChunkRequest) : Prop where
  part : r.flag ≠ .deleteChunk →
    0 ≤ r.offset ∧ 0 ≤ r.count ∧ 1 ≤ r.offset + r.count ∧ r.offset + r.count ≤ 65536
  data : r.flag = .writeChunk → (r.data.length : ℤ) = r.count

/-- A write brings at least the bytes that it counts. -/
def Barista.Input.Whole : Input → Prop
  | .writeFile _ buf count _ _ => toInt32 count ≤ buf.length
  | _ => True

theorem Issues.inChunk {r : ChunkRequest} (h : Issues w i r) (hwhole : i.Whole) : r.InChunk := by
  have hspan : ∀ (info : PersistentMetadataInfo) (fd count : ℤ), ∀ s ∈ writeSpans info fd count w,
      (0 : ℤ) ≤ s.offset ∧ (0 : ℤ) ≤ s.length ∧ (1 : ℤ) ≤ s.offset + s.length ∧
        (s.offset : ℤ) + s.length ≤ 65536 := by
    intro info fd count s hs
    have hmin := info.chunkSize.min_le
    have hmax := info.chunkSize.le_max
    obtain ⟨hle, hpos⟩ := span_inside (by omega) hs
    omega
  cases h with
  | read file mem => exact ⟨fun _ => hspan _ _ _ _ mem, fun h => absurd h (by simp [readPacket])⟩
  | @write fd count buf client script info s data id file mem named =>
    refine ⟨fun _ => hspan _ _ _ _ (fst_mem_of_mem_portions mem), fun _ => ?_⟩
    have hle : (toInt32 count).toNat ≤ buf.length := Int.toNat_le.mpr hwhole
    rw [← sum_length_writeSpans info fd count w] at hle
    exact congrArg Nat.cast (length_of_mem_portions hle mem)
  | delete flag named => exact ⟨fun h => absurd flag h, fun h => absurd (flag.symm.trans h) (by simp)⟩

/-- **The run lemma.** -/
theorem Running.packets_inChunk (hw : Running w) (hrun : Steps (step R) w is w')
    (hids : w.volatile.requestId + idsOf is < 4294967296) (hwhole : ∀ i ∈ is, i.Whole) :
    ∃ sent, sends w'.network.log = sends w.network.log ++ sent ∧ ∀ e ∈ sent, e.2.InChunk := by
  induction hrun with
  | refl w => exact ⟨[], by simp, by simp⟩
  | @cons w w₁ w' i is head _ ih =>
    rw [idsOf_cons, ← Nat.add_assoc] at hids
    have hhandled := hw.handled (by omega) head
    obtain ⟨sent, hsent, hissues⟩ := issued_of_step hw (by omega) head
    obtain ⟨sent', hsent', hin⟩ := ih (hhandled.running hw) (by rwa [hhandled.requestId])
      fun i hi => hwhole i (List.mem_cons_of_mem _ hi)
    refine ⟨sent ++ sent', by rw [hsent', hsent, List.append_assoc], fun e he => ?_⟩
    rcases List.mem_append.mp he with he | he
    · exact (hissues e he).inChunk (hwhole i List.mem_cons_self)
    · exact hin e he

/-- **No packet reaches over its chunk.** In every run, whatever the cursors, the counts, the sizes of
stripes and chunks, the failures of nodes and the responses in between, every packet that goes to a node
is about positions of one chunk below `65536`, the length of the buffer a node reads into, and a write
brings exactly the bytes it counts. -/
theorem Started.packets_inChunk (hstart : Started w₀) (hrun : Steps (step R) w₀ is w)
    (hids : idsOf is < 4294967296) (hwhole : ∀ i ∈ is, i.Whole) :
    ∀ e ∈ sends w.network.log, e.2.InChunk := by
  obtain ⟨sent, hsent, hin⟩ := hstart.running.packets_inChunk hrun
    (by rwa [hstart.requestId, Nat.zero_add]) hwhole
  rw [hsent, hstart.log]
  exact hin

end

end DecaFS
