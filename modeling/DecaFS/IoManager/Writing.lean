import DecaFS.IoManager.Spans

/-!
# The writes of a stripe

The loop of `process_write_stripe` sends the primary packet of each span until a send succeeds,
then its replica, once more to another node if that send fails. `WriteRounds` is this in terms of
the script alone: which outcomes were used, which packets were sent where, and what became of the
chunk maps and the nodes that are up. The responses in between have no part in it.
-/

namespace DecaFS

open Code Barista

/-- The chunk maps once the chunk has its nodes. -/
def placed (R : Runtime) (v : VolatileMetadata) (chunk : FileChunk) (m : ChunkMaps) : ChunkMaps :=
  let m := if chunkExists R m.chunkToNode chunk then m
    else { m with chunkToNode := R.search.set chunk (putChunk v chunk.chunkNum) m.chunkToNode }
  if chunkExists R m.chunkToReplicaNode chunk then m
  else { m with
    chunkToReplicaNode := R.search.set chunk (putReplica v chunk.chunkNum) m.chunkToReplicaNode }

/-- The sends of a replica `r`, meant for `node`. -/
inductive ReplicaSent (node : ℤ) (chunkNum : ℕ) (r : ChunkRequest) (v : VolatileMetadata) :
    List SendOutcome → List (ℤ × ChunkRequest) → VolatileMetadata → Prop
  | first {o : SendOutcome} (accepted : o.accepted = true) :
      ReplicaSent node chunkNum r v [o] [(node, r)] v
  | second {o o' : SendOutcome} (failed : o.accepted = false) :
      ReplicaSent node chunkNum r v [o, o']
        (if o'.accepted then [(putReplica (v.down node) chunkNum, r)] else []) (v.down node)

theorem ReplicaSent.length_le {node : ℤ} {chunkNum : ℕ} {r : ChunkRequest}
    {v v' : VolatileMetadata} {used : List SendOutcome} {sent : List (ℤ × ChunkRequest)}
    (h : ReplicaSent node chunkNum r v used sent v') : sent.length ≤ 1 := by
  cases h with
  | first _ => exact le_rfl
  | second _ => split_ifs <;> simp

theorem ReplicaSent.under_of_ne {node : ℤ} {chunkNum : ℕ} {r : ChunkRequest} {t : Tag}
    {v v' : VolatileMetadata} {used : List SendOutcome} {sent : List (ℤ × ChunkRequest)}
    (h : ReplicaSent node chunkNum r v used sent v') (hne : r.tag ≠ t) : under t sent = [] := by
  cases h with
  | first _ => simp [under, hne]
  | second _ => split_ifs <;> simp [under, hne]

/-- The sends for the spans with their data, from the nodes `v` and the maps `m` to `v'` and `m'`.
Between the sends the server may change what else there is in `v`. -/
inductive WriteRounds (R : Runtime) (q : WriteRequest) (fileId : ℕ) :
    List (Span × List UInt8) → VolatileMetadata → ChunkMaps → List SendOutcome →
      List (ℤ × ChunkRequest) → VolatileMetadata → ChunkMaps → Prop
  | done {v : VolatileMetadata} {m : ChunkMaps} : WriteRounds R q fileId [] v m [] [] v m
  | pass {l : List (Span × List UInt8)} {v v₁ v' : VolatileMetadata} {m m' : ChunkMaps}
      {used : List SendOutcome} {sent : List (ℤ × ChunkRequest)}
      (upNodes : v₁.upNodes = v.upNodes) (rest : WriteRounds R q fileId l v₁ m used sent v' m') :
      WriteRounds R q fileId l v m used sent v' m'
  | retry {s : Span} {data : List UInt8} {l : List (Span × List UInt8)} {v v' : VolatileMetadata}
      {m m' : ChunkMaps} {o : SendOutcome} {used : List SendOutcome}
      {sent : List (ℤ × ChunkRequest)} (failed : o.accepted = false)
      (rest : WriteRounds R q fileId ((s, data) :: l)
        (v.down (nodeOf R (placed R v (s.chunk fileId) m).chunkToNode (s.chunk fileId)))
        (placed R v (s.chunk fileId) m) used sent v' m') :
      WriteRounds R q fileId ((s, data) :: l) v m (o :: used) sent v' m'
  | sent {s : Span} {data : List UInt8} {l : List (Span × List UInt8)} {v v₁ v' : VolatileMetadata}
      {m m' : ChunkMaps} {o : SendOutcome} {used used' : List SendOutcome}
      {sent sent' : List (ℤ × ChunkRequest)} (accepted : o.accepted = true)
      (replica : ReplicaSent
        (nodeOf R (placed R v (s.chunk fileId) m).chunkToReplicaNode (s.chunk fileId)) s.chunkNum
        (writePacket q.replicaRequestId fileId s data) v used sent v₁)
      (rest : WriteRounds R q fileId l v₁ (placed R v (s.chunk fileId) m) used' sent' v' m') :
      WriteRounds R q fileId ((s, data) :: l) v m (o :: (used ++ used'))
        ((nodeOf R (placed R v (s.chunk fileId) m).chunkToNode (s.chunk fileId),
          writePacket q.requestId fileId s data) :: (sent ++ sent')) v' m'

theorem WriteRounds.append {R : Runtime} {q : WriteRequest} {fileId : ℕ}
    {l l' : List (Span × List UInt8)} {v v' v'' : VolatileMetadata} {m m' m'' : ChunkMaps}
    {used used' : List SendOutcome} {sent sent' : List (ℤ × ChunkRequest)}
    (h : WriteRounds R q fileId l v m used sent v' m')
    (h' : WriteRounds R q fileId l' v' m' used' sent' v'' m'') :
    WriteRounds R q fileId (l ++ l') v m (used ++ used') (sent ++ sent') v'' m'' := by
  induction h with
  | done => exact h'
  | pass upNodes _ ih => exact .pass upNodes (ih h')
  | retry failed _ ih => exact .retry failed (ih h')
  | sent accepted replica _ ih =>
    rw [List.cons_append, List.cons_append, List.append_assoc, List.cons_append, List.append_assoc]
    exact .sent accepted replica (ih h')

variable {R : Runtime} {w : World} {q : WriteRequest} {fileId : ℕ}

theorem wp_writeNodes {chunk : FileChunk} {Q : ℤ × ℤ → World → Prop} {E : Halt Site → Prop} :
    wp (writeNodes R chunk) Q E w ↔
      let m := placed R w.volatile chunk w.chunks
      Q (nodeOf R m.chunkToNode chunk, nodeOf R m.chunkToReplicaNode chunk)
        { w with chunks := m } := by
  simp only [writeNodes, wp_bind, wp_get, chunks, wp_zoom, wp_modify, wp_pure]
  rfl

/-- The replica is sent, at the first try, at the second or not at all. -/
theorem wp_writeReplica (fileId : ℕ) (s : Span) (node : ℤ) (buf : List UInt8)
    (h : Booked (some (.write q)) w) :
    wp (writeReplica R q.replicaRequestId (s.chunk fileId) node s.offset buf s.length)
      (fun _ w' => ∃ used sent, Sending R (.write q) used sent w w' ∧
        ReplicaSent node s.chunkNum (writePacket q.replicaRequestId fileId s (buf.take s.length))
          w.volatile used sent w'.volatile ∧ w'.chunks = w.chunks ∧ Quiet w w')
      (fun e => e = .noReturn ∧ w.network.script.countP (·.accepted) = 0) w := by
  have htag : (writePacket q.replicaRequestId fileId s (buf.take s.length)).tag ∈
      (Operation.write q).tags := by
    simp [Operation.tags, ChunkRequest.tag, writePacket]
  unfold writeReplica
  rw [wp_bind]
  refine wp_mono (wp_sendToEspresso _ _ h htag) (fun res w₁ hw₁ => ?_) fun e he => ?_
  · obtain ⟨o, h₁, hv, hchunks, hidle, rfl⟩ := hw₁
    have hq₁ : Quiet w w₁ := ⟨by rw [hv], hidle⟩
    by_cases ho : o.accepted = true
    · have hres : ¬ (1 : ℤ) = nodeFailure := by decide
      simp only [ho, if_true, hres, if_false, wp_pure] at h₁ ⊢
      exact ⟨[o], _, h₁, hv ▸ .first ho, hchunks, hq₁⟩
    · simp only [ho, Bool.false_eq_true, if_false, if_true, volatile, wp_bind, wp_zoom] at h₁ ⊢
      refine VolatileMetadata.wp_setNodeDown fun _ => ?_
      let w₂ : World := { w₁ with volatile := w₁.volatile.down node }
      have h₂ : Sending R (.write q) [o] [] w w₂ := by
        have hunseen : Unseen w₁ w₂ := ⟨rfl, rfl, rfl, rfl⟩
        simpa using h₁.trans (hunseen.sending h₁.booked (.of_eq rfl rfl rfl) rfl)
      have hq₂ : Quiet w w₂ := ⟨hq₁.fileCursors, hq₁.undisturbed⟩
      have hv₂ : w₂.volatile = w.volatile.down node := by simp [w₂, hv]
      rw [wp_get, wp_bind]
      refine wp_mono (wp_sendToEspresso (w := w₂) _ _ h₂.booked htag) (fun res w₃ hw₃ => ?_) fun e he => ?_
      · obtain ⟨o', h₃, hv', hchunks', hidle', rfl⟩ := hw₃
        rw [wp_pure]
        refine ⟨[o, o'], _, h₂.trans h₃, ?_, hchunks'.trans hchunks, hq₂.trans ⟨by rw [hv'], hidle'⟩⟩
        rw [hv', hv₂]
        exact .second (by simpa using ho)
      · obtain ⟨rfl, hnil⟩ := he
        refine ⟨rfl, ?_⟩
        rw [h₂.script, hnil]
        simpa using ho
  · obtain ⟨rfl, hnil⟩ := he
    exact ⟨rfl, by simp [hnil]⟩

/-- Between two moments of a write loop at which the packets for `l` are sent. -/
structure Stored (R : Runtime) (q : WriteRequest) (fileId : ℕ) (l : List (Span × List UInt8))
    (used : List SendOutcome) (sent : List (ℤ × ChunkRequest)) (w w' : World) : Prop
    extends Sending R (.write q) used sent w w' where
  rounds : WriteRounds R q fileId l w.volatile w.chunks used sent w'.volatile w'.chunks

/-- Why a write loop over `l` does not return. -/
def WriteStops (l : List (Span × List UInt8)) (w : World) (e : Halt Site) : Prop :=
  e = .noReturn ∧ w.network.script.countP (·.accepted) < 2 * l.length

section Stored

variable {l l' : List (Span × List UInt8)} {used used' : List SendOutcome}
  {sent sent' : List (ℤ × ChunkRequest)} {w' w'' : World}

theorem Stored.refl (h : Booked (some (.write q)) w) : Stored R q fileId [] [] [] w w :=
  ⟨.refl h, .done⟩

theorem Stored.trans (h : Stored R q fileId l used sent w w')
    (h' : Stored R q fileId l' used' sent' w' w'') :
    Stored R q fileId (l ++ l') (used ++ used') (sent ++ sent') w w'' :=
  ⟨h.toSending.trans h'.toSending, h.rounds.append h'.rounds⟩

/-- A call is logged. -/
theorem Booked.stored_emit (h : Booked (some (.write q)) w) {e : Event} (hcall : e.isCall = true)
    (hfits : e.Fits) : Stored R q fileId [] [] [] w (logged e w) :=
  ⟨h.sending_emit hcall hfits, .done⟩

@[simp]
theorem length_portions : ∀ (l : List Span) (buf : List UInt8), (portions l buf).length = l.length
  | [], _ => rfl
  | _ :: l, buf => by simp [portions, length_portions l]

/-- At most two sends for each span are accepted. -/
theorem WriteRounds.length_le {v v' : VolatileMetadata} {m m' : ChunkMaps}
    (h : WriteRounds R q fileId l v m used sent v' m') : sent.length ≤ 2 * l.length := by
  induction h with
  | done => exact le_rfl
  | pass _ _ ih => exact ih
  | retry _ _ ih => exact ih
  | sent _ replica _ ih =>
    have := replica.length_le
    simp only [List.length_cons, List.length_append]
    omega

/-- The packets of the primaries, one for each span. -/
theorem WriteRounds.under_primary {v v' : VolatileMetadata} {m m' : ChunkMaps}
    (h : WriteRounds R q fileId l v m used sent v' m') (hne : q.requestId ≠ q.replicaRequestId) :
    under ⟨.writeChunk, q.requestId⟩ sent =
      l.map fun e => writePacket q.requestId fileId e.1 e.2 := by
  induction h with
  | done => rfl
  | pass _ _ ih => exact ih
  | retry _ _ ih => exact ih
  | sent _ replica _ ih =>
    have hnone := replica.under_of_ne (t := ⟨.writeChunk, q.requestId⟩)
      (by simpa [ChunkRequest.tag, writePacket] using hne.symm)
    rw [List.map_cons, ← ih, ← List.singleton_append, under_append, under_append, hnone]
    simp [under, ChunkRequest.tag, writePacket]

/-- Under no tag more packets are sent than there are spans. -/
theorem WriteRounds.length_under_le {v v' : VolatileMetadata} {m m' : ChunkMaps}
    (h : WriteRounds R q fileId l v m used sent v' m') (hne : q.requestId ≠ q.replicaRequestId)
    (t : Tag) : (under t sent).length ≤ l.length := by
  by_cases ht : t = ⟨.writeChunk, q.requestId⟩
  · rw [ht, h.under_primary hne, List.length_map]
  · -- what is left are the replicas, at most one for each span
    induction h with
    | done => exact le_rfl
    | pass _ _ ih => exact ih
    | retry _ _ ih => exact ih
    | @sent s data _ _ _ _ _ _ _ _ _ sent₁ sent₂ _ replica _ ih =>
      have hlen := replica.length_le
      have hunder : (under t sent₁).length ≤ sent₁.length :=
        (List.length_filter_le _ _).trans (List.length_map _).le
      have hprimary : (writePacket q.requestId fileId s data).tag ≠ t := fun heq => ht heq.symm
      have hcons : ∀ node rest, under t ((node, writePacket q.requestId fileId s data) :: rest) =
          under t rest := by
        intro node rest
        simp [under, hprimary]
      rw [hcons, under_append, List.length_append, List.length_cons]
      omega

/-- What remains to be explained once `l` is sent. -/
theorem Stored.stops {e : Halt Site} (h : Stored R q fileId l used sent w w')
    (hstops : WriteStops l' w' e) : WriteStops (l ++ l') w e := by
  obtain ⟨he, hcount⟩ := hstops
  have := h.rounds.length_le
  refine ⟨he, ?_⟩
  rw [h.countP_script, List.length_append]
  omega

end Stored

/-- **The loop of `process_write_stripe`.** -/
theorem wp_writeChunks (fileId stripeId : ℕ) (buf : List UInt8) {chunkSize n : ℕ}
    (hmin : 0 < chunkSize) (hmax : chunkSize ≤ 65536) (hn : n ≤ intMax) (fuel : ℕ) :
    ∀ (chunkId offset done : ℕ) (written : ℕ × ℕ) (w : World), offset ≤ chunkSize → done ≤ n →
      Booked (some (.write q)) w → w.network.script.length < fuel →
    wp (writeChunks R q fileId stripeId chunkSize buf n fuel chunkId offset done written)
      (fun res w' => ∃ used sent, Stored R q fileId (portions
        ((pieces chunkSize chunkId offset (n - done)).map (Piece.span stripeId)) (buf.drop done))
          used sent w w' ∧ Quiet w w' ∧
        res = (written.1 + (pieces chunkSize chunkId offset (n - done)).length,
          written.2 + (pieces chunkSize chunkId offset (n - done)).length))
      (WriteStops (portions ((pieces chunkSize chunkId offset (n - done)).map
        (Piece.span stripeId)) (buf.drop done)) w) w := by
  induction fuel with
  | zero => intro _ _ _ _ w _ _ _ hfuel; omega
  | succ fuel ih =>
    intro chunkId offset done written w hoffset hdone h hfuel
    unfold writeChunks
    by_cases hlt : (done : ℤ) < n
    · generalize hlen : min (n - done) (chunkSize - offset) = len
      let s : Span := ⟨stripeId, chunkId, offset, len⟩
      have hpieces : pieces chunkSize chunkId offset (n - done) =
          ⟨chunkId, offset, len⟩ :: pieces chunkSize (chunkId + 1) 0 (n - (done + len)) := by
        rw [pieces_of_pos hmin (by omega), hlen, Nat.sub_sub]
      have hsize : toUInt32 (splitSize n done chunkSize offset) = len := by
        rw [splitSize_eq hdone hn hoffset hmax, hlen, toUInt32_eq] <;> unfold intMax at hn <;> omega
      have hcons : portions ((pieces chunkSize chunkId offset (n - done)).map (Piece.span stripeId))
          (buf.drop done) = (s, (buf.drop done).take len) ::
            portions ((pieces chunkSize (chunkId + 1) 0 (n - (done + len))).map
              (Piece.span stripeId)) (buf.drop (done + len)) := by
        rw [hpieces, List.map_cons, portions, Nat.add_comm, ← List.drop_drop]
        rfl
      let m := placed R w.volatile (s.chunk fileId) w.chunks
      simp only [hlt, if_true, wp_bind, hsize, wp_writeNodes, wp_emit, Int.toNat_natCast]
      let w₁ : World := logged (.compared n done chunkSize offset) { w with chunks := m }
      have h₁ : Sending R (.write q) [] [] w w₁ := by
        have hunseen : Unseen w { w with chunks := m } := ⟨rfl, rfl, rfl, rfl⟩
        have hplaced := hunseen.sending (R := R) h (.of_eq rfl rfl rfl) rfl
        exact hplaced.trans (hplaced.booked.sending_emit rfl ⟨by omega, by omega⟩)
      have hsend := wp_sendToEspresso (R := R) (nodeOf R m.chunkToNode (s.chunk fileId))
        (writePacket q.requestId fileId s ((buf.drop done).take len)) h₁.booked
        (by simp [Operation.tags, ChunkRequest.tag, writePacket])
      refine wp_mono hsend (fun res w₂ hw₂ => ?_) fun e he => ?_
      · obtain ⟨o, hsending, hv, hchunks, hidle, rfl⟩ := hw₂
        have h₂ := h₁.trans hsending
        have hq₂ : Quiet w w₂ := ⟨by rw [hv]; rfl, hidle⟩
        have hscript : w₂.network.script.length < fuel := by
          have := congrArg List.length h₂.script
          simp only [List.nil_append, List.length_append, List.length_singleton] at this
          omega
        by_cases ho : o.accepted = true
        · -- the primary is sent, its replica is next
          have hres : ¬ (1 : ℤ) = nodeFailure := by decide
          simp only [ho, if_true, hres, if_false, wp_bind] at h₂ ⊢
          have hreplica := wp_writeReplica (R := R) fileId s
            (nodeOf R m.chunkToReplicaNode (s.chunk fileId)) (buf.drop done) h₂.booked
          refine wp_mono hreplica (fun _ w₃ hw₃ => ?_) fun e he => ?_
          · obtain ⟨used, sent, h₃, hsent, hchunks', hq₃⟩ := hw₃
            have hscript₃ : w₃.network.script.length < fuel := by
              have := congrArg List.length h₃.script
              rw [List.length_append] at this
              omega
            have hrec := ih (chunkId + 1) 0 (done + len) (written.1 + 1, written.2 + 1) w₃
              (Nat.zero_le _) (by omega) h₃.booked hscript₃
            push_cast at hrec
            rw [hcons]
            refine wp_mono hrec (fun res w' hw' => ?_) fun e he => ?_
            · obtain ⟨used', sent', h₄, hquiet, rfl⟩ := hw'
              refine ⟨_, _, ⟨(h₂.trans h₃).trans h₄.toSending, ?_⟩, (hq₂.trans hq₃).trans hquiet, ?_⟩
              · simp only [List.nil_append, List.singleton_append]
                rw [hv] at hsent
                have hm : w₃.chunks = placed R w.volatile (s.chunk fileId) w.chunks :=
                  hchunks'.trans hchunks
                exact .sent ho hsent (hm ▸ h₄.rounds)
              · simp only [hpieces, List.length_cons, Prod.mk.injEq]
                omega
            · obtain ⟨rfl, hcount⟩ := he
              refine ⟨rfl, ?_⟩
              have hlen := hsent.length_le
              rw [(h₂.trans h₃).countP_script, List.length_cons]
              simp only [List.nil_append, List.length_append, List.length_singleton]
              omega
          · obtain ⟨rfl, hcount⟩ := he
            refine ⟨rfl, ?_⟩
            rw [h₂.countP_script, hcount, hcons, List.length_cons]
            simp only [List.nil_append, List.length_singleton]
            omega
        · -- the chunk once more, with the node marked as down
          simp only [ho, Bool.false_eq_true, if_false, if_true, volatile, wp_bind, wp_zoom] at h₂ ⊢
          refine VolatileMetadata.wp_setNodeDown fun _ => ?_
          let w₃ : World := { w₂ with
            volatile := w₂.volatile.down (nodeOf R m.chunkToNode (s.chunk fileId)) }
          have h₃ : Sending R (.write q) [o] [] w w₃ := by
            have hunseen : Unseen w₂ w₃ := ⟨rfl, rfl, rfl, rfl⟩
            simpa using h₂.trans (hunseen.sending h₂.booked (.of_eq rfl rfl rfl) rfl)
          have hrec := ih chunkId offset done written w₃ hoffset hdone h₃.booked hscript
          refine wp_mono hrec (fun res w' hw' => ?_) fun e he => ?_
          · obtain ⟨used, sent, h₄, hquiet, rfl⟩ := hw'
            have hq₃ : Quiet w w₃ := ⟨hq₂.fileCursors, hq₂.undisturbed⟩
            refine ⟨_, _, ⟨h₃.trans h₄.toSending, ?_⟩, hq₃.trans hquiet, rfl⟩
            have hrounds := h₄.rounds
            rw [hcons] at hrounds ⊢
            have hm : w₃.chunks = placed R w.volatile (s.chunk fileId) w.chunks := hchunks
            have hdown : w₃.volatile = w.volatile.down (nodeOf R
                (placed R w.volatile (s.chunk fileId) w.chunks).chunkToNode (s.chunk fileId)) := by
              simp only [w₃, hv]
              rfl
            exact .retry (by simpa using ho) (hdown ▸ hm ▸ hrounds)
          · obtain ⟨rfl, hcount⟩ := he
            refine ⟨rfl, ?_⟩
            rw [h₃.countP_script]
            simpa using hcount
      · obtain ⟨rfl, hscript⟩ := he
        have hnil : w.network.script = [] := hscript
        exact ⟨rfl, by simp [hnil, hcons]⟩
    · have hzero : n - done = 0 := by omega
      simp only [hlt, if_false, wp_pure, hzero, pieces_zero]
      exact ⟨[], [], .refl h, .refl, rfl⟩

/-- **`process_write_stripe`** sends both copies of the spans of its segment. -/
theorem wp_processWriteStripe (fileId stripeId stripeSize offset n : ℕ) (buf : List UInt8)
    (chunkSize : ChunkSize) (hstripe : stripeSize ≤ 65536) (hfits : offset + n ≤ stripeSize)
    (h : Booked (some (.write q)) w) :
    wp (processWriteStripe R q fileId stripeId stripeSize chunkSize.val buf offset n)
      (fun res w' => ∃ used sent, Stored R q fileId
        (portions (stripeSpans chunkSize.val stripeId offset n) buf) used sent w w' ∧ Quiet w w' ∧
        res = ((stripeSpans chunkSize.val stripeId offset n).length,
          (stripeSpans chunkSize.val stripeId offset n).length))
      (WriteStops (portions (stripeSpans chunkSize.val stripeId offset n) buf) w) w := by
  have hmin := chunkSize.min_le
  have hint : toInt32 n = n ∧ toInt32 stripeSize = stripeSize := by
    constructor <;> refine toInt32_eq (by omega) ?_ <;> unfold intMax <;> omega
  have hbound : (toInt32 n - offset ≤ toInt32 stripeSize : Bool) = true := by
    rw [hint.1, hint.2]
    exact decide_eq_true (by omega)
  have h₁ : Stored R q fileId [] [] [] w (logged _ w) := h.stored_emit
    (e := .stripe .writeChunk stripeId stripeSize offset n) rfl (by simp only [Event.Fits]; omega)
  simp only [processWriteStripe, wp_bind, wp_emit, wp_assert, hbound, true_implies, reduceCtorEq,
    false_implies, and_true, getFirstChunk_eq, wp_get]
  have hloop := wp_writeChunks (R := R) (q := q) (n := n) fileId stripeId buf (by omega)
    chunkSize.le_max (by unfold intMax; omega)
    ((logged (.stripe .writeChunk stripeId stripeSize offset n) w).network.script.length + 1)
    (firstBlock chunkSize.val offset) (firstOffset chunkSize.val offset) 0 (0, 0) (logged _ w)
    (firstOffset_le (by omega)) (Nat.zero_le _) h₁.booked (Nat.lt_succ_self _)
  refine wp_mono hloop (fun res w' hw' => ?_) fun e he => h₁.stops he
  obtain ⟨used, sent, hrest, hquiet, rfl⟩ := hw'
  refine ⟨used, sent, h₁.trans hrest, ⟨hquiet.fileCursors, hquiet.undisturbed⟩, ?_⟩
  simp only [stripeSpans, List.length_map, Nat.zero_add, Nat.sub_zero]

end DecaFS
