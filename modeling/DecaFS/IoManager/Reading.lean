import DecaFS.IoManager.Spans

/-!
# The reads of a stripe

The loop of `process_read_stripe` sends for the spans of its segment up to the first chunk that
does not exist, once each, to the primary node of the chunk or to that of its replica. It stops
for a failed assertion or when the sends of the script do not suffice.
-/

namespace DecaFS

open Code Barista

/-- Between two moments of a read loop at which the packets for `l` are sent. -/
structure Fetched (R : Runtime) (id fileId : ℕ) (l : List Span) (used : List SendOutcome)
    (sent : List (ℤ × ChunkRequest)) (w w' : World) : Prop
    extends Sending R (.read id) used sent w w' where
  packets : sent.map Prod.snd = l.map (readPacket id fileId)
  nodes : ∀ e ∈ sent, e.1 = nodeOf R w.chunks.chunkToNode e.2.chunk ∨
    chunkExists R w.chunks.chunkToReplicaNode e.2.chunk = true ∧
      e.1 = nodeOf R w.chunks.chunkToReplicaNode e.2.chunk
  chunks : w'.chunks = w.chunks
  reliable : (∀ o ∈ used, o.accepted = true) → w'.volatile.upNodes = w.volatile.upNodes ∧
    ∀ e ∈ sent, w.volatile.isNodeUp (nodeOf R w.chunks.chunkToNode e.2.chunk) = true →
      e.1 = nodeOf R w.chunks.chunkToNode e.2.chunk

/-- Why a read loop over `l` does not return. -/
def ReadStops (R : Runtime) (fileId : ℕ) (l : List Span) (w : World) (e : Halt Site) : Prop :=
  e = .assertion .readReplicaExists ∧ (∃ s ∈ l,
      chunkExists R w.chunks.chunkToReplicaNode (s.chunk fileId) = false) ∨
    e = .noReturn ∧ w.network.script.countP (·.accepted) < l.length

section Fetched

variable {R : Runtime} {id fileId : ℕ} {l l' : List Span} {used used' : List SendOutcome}
  {sent sent' : List (ℤ × ChunkRequest)} {w w' w'' : World}

theorem Fetched.refl (h : Booked (some (.read id)) w) :
    Fetched R id fileId [] [] [] w w where
  toSending := .refl h
  packets := rfl
  nodes := by simp
  chunks := rfl
  reliable := by simp

theorem Fetched.trans (h : Fetched R id fileId l used sent w w')
    (h' : Fetched R id fileId l' used' sent' w' w'') :
    Fetched R id fileId (l ++ l') (used ++ used') (sent ++ sent') w w'' where
  toSending := h.toSending.trans h'.toSending
  packets := by rw [List.map_append, List.map_append, h.packets, h'.packets]
  nodes e he := (List.mem_append.mp he).elim (h.nodes e) (h.chunks ▸ h'.nodes e)
  chunks := h'.chunks.trans h.chunks
  reliable hused := by
    obtain ⟨hv, hnodes⟩ := h.reliable fun o ho => hused o (List.mem_append_left _ ho)
    obtain ⟨hv', hnodes'⟩ := h'.reliable fun o ho => hused o (List.mem_append_right _ ho)
    simp only [VolatileMetadata.isNodeUp, hv, h.chunks] at hnodes'
    exact ⟨hv'.trans hv, fun e he => (List.mem_append.mp he).elim (hnodes e) (hnodes' e)⟩

/-- A call is logged. -/
theorem Booked.fetched_emit (h : Booked (some (.read id)) w) {e : Event}
    (hcall : e.isCall = true) (hfits : e.Fits) :
    Fetched R id fileId [] [] [] w (logged e w) where
  toSending := h.sending_emit hcall hfits
  packets := rfl
  nodes := by simp
  chunks := rfl
  reliable _ := ⟨rfl, by simp⟩

/-- What remains to be explained once `l` is sent for. -/
theorem Fetched.stops {e : Halt Site} (h : Fetched R id fileId l used sent w w')
    (hstops : ReadStops R fileId l' w' e) : ReadStops R fileId (l ++ l') w e := by
  rcases hstops with ⟨he, s, hs, hexists⟩ | ⟨he, hcount⟩
  · exact .inl ⟨he, s, List.mem_append_right _ hs, h.chunks ▸ hexists⟩
  · refine .inr ⟨he, ?_⟩
    have hlen : sent.length = l.length := by
      rw [← List.length_map (f := Prod.snd), h.packets, List.length_map]
    rw [h.countP_script, List.length_append, hlen]
    omega

/-- One send of a read loop. -/
theorem Sending.fetched {s : Span} {node : ℤ} {o : SendOutcome}
    (h : Sending R (.read id) [o] (if o.accepted then [(node, readPacket id fileId s)] else []) w w')
    (hv : w'.volatile = w.volatile) (hchunks : w'.chunks = w.chunks)
    (hnode : if w.volatile.isNodeUp (nodeOf R w.chunks.chunkToNode (s.chunk fileId)) then
        node = nodeOf R w.chunks.chunkToNode (s.chunk fileId)
      else chunkExists R w.chunks.chunkToReplicaNode (s.chunk fileId) = true ∧
        node = nodeOf R w.chunks.chunkToReplicaNode (s.chunk fileId)) :
    Fetched R id fileId (if o.accepted then [s] else []) [o]
      (if o.accepted then [(node, readPacket id fileId s)] else []) w w' where
  toSending := h
  packets := by split <;> rfl
  nodes e he := by
    split at he
    · obtain rfl := List.mem_singleton.mp he
      split at hnode
      · exact .inl hnode
      · exact .inr hnode
    · exact absurd he List.not_mem_nil
  chunks := hchunks
  reliable hused := by
    refine ⟨by rw [hv], fun e he hup => ?_⟩
    split at he
    · obtain rfl := List.mem_singleton.mp he
      rw [if_pos (by exact hup)] at hnode
      exact hnode
    · exact absurd he List.not_mem_nil

/-- A node is marked as down after a failed send. -/
theorem Fetched.setDown (h : Fetched R id fileId l used sent w w') (node : ℤ)
    (hfailed : ∃ o ∈ used, o.accepted = false) :
    Fetched R id fileId l used sent w { w' with volatile := w'.volatile.down node } where
  toSending := by
    have hunseen : Unseen w' { w' with volatile := w'.volatile.down node } := ⟨rfl, rfl, rfl, rfl⟩
    simpa using h.toSending.trans (hunseen.sending h.booked (.of_eq rfl rfl rfl) rfl)
  packets := h.packets
  nodes := h.nodes
  chunks := h.chunks
  reliable hused := by
    obtain ⟨o, ho, hnot⟩ := hfailed
    exact absurd (hused o ho) (by simp [hnot])

/-- **The loop of `process_read_stripe`.** -/
theorem wp_readChunks (R : Runtime) (id fileId stripeId : ℕ) (m : ChunkMaps) {chunkSize n : ℕ}
    (hmin : 0 < chunkSize) (hmax : chunkSize ≤ 65536)
    (hn : n ≤ intMax) (fuel : ℕ) : ∀ (chunkId offset done numChunks : ℕ) (w : World),
    offset ≤ chunkSize → done ≤ n → w.chunks = m → Booked (some (.read id)) w →
      w.network.script.length < fuel →
    wp (readChunks R id fileId stripeId chunkSize n fuel chunkId offset done numChunks)
      (fun res w' => ∃ used sent, Fetched R id fileId (existing R m fileId
        ((pieces chunkSize chunkId offset (n - done)).map (Piece.span stripeId))) used sent w w' ∧ Quiet w w' ∧
        res = numChunks + sent.length)
      (ReadStops R fileId (existing R m fileId
        ((pieces chunkSize chunkId offset (n - done)).map (Piece.span stripeId))) w) w := by
  induction fuel with
  | zero => intro _ _ _ _ w _ _ _ _ hfuel; omega
  | succ fuel ih =>
    intro chunkId offset done numChunks w hoffset hdone hm h hfuel
    unfold readChunks
    by_cases hlt : (done : ℤ) < n
    · generalize hlen : min (n - done) (chunkSize - offset) = len
      let s : Span := ⟨stripeId, chunkId, offset, len⟩
      have hpieces : (pieces chunkSize chunkId offset (n - done)).map (Piece.span stripeId) =
          s :: (pieces chunkSize (chunkId + 1) 0 (n - (done + len))).map (Piece.span stripeId) := by
        rw [pieces_of_pos hmin (by omega), hlen, Nat.sub_sub]
        rfl
      by_cases hexists : chunkExists R m.chunkToNode (s.chunk fileId) = true
      · have hsize : toUInt32 (splitSize n done chunkSize offset) = len := by
          rw [splitSize_eq hdone hn hoffset hmax, hlen, toUInt32_eq] <;> unfold intMax at hn <;> omega
        have hcons : existing R m fileId ((pieces chunkSize chunkId offset (n - done)).map
            (Piece.span stripeId)) = s :: existing R m fileId
              ((pieces chunkSize (chunkId + 1) 0 (n - (done + len))).map (Piece.span stripeId)) := by
          rw [hpieces, existing_cons, if_pos hexists]
        have hexists' : chunkExists R m.chunkToNode ⟨fileId, stripeId, chunkId⟩ = true := hexists
        simp only [hlt, if_true, wp_bind, wp_get, hm, hexists', hsize]
        refine wp_mono wp_readNode (fun node w₀ hw₀ => ?_) fun e he => ?_
        · obtain ⟨rfl, hnode⟩ := hw₀
          rw [wp_bind, wp_emit, wp_bind]
          have h₁ : Fetched R id fileId [] [] [] w₀ (logged _ w₀) := h.fetched_emit
            (e := .compared n done chunkSize offset) rfl ⟨by omega, by omega⟩
          have hsend := wp_sendToEspresso (R := R) node (readPacket id fileId s) h₁.booked
            (by simp [Operation.tags, ChunkRequest.tag, readPacket])
          refine wp_mono hsend (fun res w₂ hw₂ => ?_) fun e he => ?_
          · obtain ⟨o, hsending, hv, hchunks, hidle, rfl⟩ := hw₂
            have h₂ := h₁.trans (hsending.fetched hv hchunks hnode)
            have hq₂ : Quiet w₀ w₂ := ⟨by rw [hv]; rfl, hidle⟩
            simp only [List.nil_append] at h₂
            have hscript : w₂.network.script.length < fuel := by
              have := congrArg List.length h₂.script
              simp only [List.length_append, List.length_singleton] at this
              omega
            by_cases ho : o.accepted = true
            · -- on to the next chunk
              have hres : ¬ (1 : ℤ) = nodeFailure := by decide
              simp only [ho, if_true, hres, if_false] at h₂ ⊢
              have hrec := ih (chunkId + 1) 0 (done + len) (numChunks + 1) w₂ (Nat.zero_le _)
                (by omega) (h₂.chunks.trans hm) h₂.booked hscript
              rw [hcons]
              push_cast at hrec
              refine wp_mono hrec (fun res w' hw' => ?_) fun e he => h₂.stops he
              obtain ⟨used, sent, hrest, hquiet, rfl⟩ := hw'
              refine ⟨_, _, h₂.trans hrest, hq₂.trans hquiet, ?_⟩
              simp only [List.length_append, List.length_singleton]
              omega
            · -- the same chunk once more, from the replica
              simp only [ho, Bool.false_eq_true, if_false, if_true, volatile, wp_bind, wp_zoom] at h₂ ⊢
              refine VolatileMetadata.wp_setNodeDown fun _ => ?_
              have h₃ := h₂.setDown node ⟨o, by simp, by simpa using ho⟩
              have hrec := ih chunkId offset done numChunks _ hoffset hdone (h₃.chunks.trans hm) h₃.booked
                hscript
              refine wp_mono hrec (fun res w' hw' => ?_) fun e he => h₃.stops he
              obtain ⟨used, sent, hrest, hquiet, rfl⟩ := hw'
              have hq₃ : Quiet w₀ { w₂ with volatile := w₂.volatile.down node } :=
                ⟨hq₂.fileCursors, hq₂.undisturbed⟩
              exact ⟨_, _, h₃.trans hrest, hq₃.trans hquiet, rfl⟩
          · obtain ⟨rfl, hscript⟩ := he
            refine .inr ⟨rfl, ?_⟩
            have hnil : w₀.network.script = [] := hscript
            simp [hnil, hcons]
        · obtain ⟨rfl, -, hreplica⟩ := he
          exact .inl ⟨rfl, s, by simp [hcons], hreplica⟩
      · have hnil : existing R m fileId ((pieces chunkSize chunkId offset (n - done)).map
            (Piece.span stripeId)) = [] := by
          rw [hpieces, existing_cons, if_neg hexists]
        have hexists' : chunkExists R m.chunkToNode ⟨fileId, stripeId, chunkId⟩ = false := by
          simpa [s, Span.chunk] using hexists
        simp only [hlt, if_true, wp_bind, wp_get, hm, hexists', Bool.false_eq_true, if_false, wp_pure, hnil]
        exact ⟨[], [], .refl h, .refl, rfl⟩
    · have hzero : n - done = 0 := by omega
      simp only [hlt, if_false, wp_pure, hzero, pieces_zero]
      exact ⟨[], [], .refl h, .refl, rfl⟩

/-- **`process_read_stripe`** sends for the spans of its segment, as far as the chunks exist. -/
theorem wp_processReadStripe (fileId stripeId stripeSize offset n : ℕ) (chunkSize : ChunkSize)
    (hstripe : stripeSize ≤ 65536) (hfits : offset + n ≤ stripeSize) (h : Booked (some (.read id)) w) :
    wp (processReadStripe R id fileId stripeId stripeSize chunkSize.val offset n)
      (fun res w' => ∃ used sent, Fetched R id fileId (existing R w.chunks fileId
        (stripeSpans chunkSize.val stripeId offset n)) used sent w w' ∧ Quiet w w' ∧
        res = sent.length)
      (ReadStops R fileId (existing R w.chunks fileId
        (stripeSpans chunkSize.val stripeId offset n)) w) w := by
  have hmin := chunkSize.min_le
  have hint : toInt32 n = n ∧ toInt32 stripeSize = stripeSize := by
    constructor <;> refine toInt32_eq (by omega) ?_ <;> unfold intMax <;> omega
  have hbound : (toInt32 n - offset ≤ toInt32 stripeSize : Bool) = true := by
    rw [hint.1, hint.2]
    exact decide_eq_true (by omega)
  have h₁ : Fetched R id fileId [] [] [] w (logged _ w) := h.fetched_emit
    (e := .stripe .readChunk stripeId stripeSize offset n) rfl (by simp only [Event.Fits]; omega)
  simp only [processReadStripe, wp_bind, wp_emit, wp_assert, hbound, true_implies, reduceCtorEq,
    false_implies, and_true, getFirstChunk_eq, wp_get]
  have hloop := wp_readChunks R id fileId stripeId w.chunks (n := n) (by omega) chunkSize.le_max
    (by unfold intMax; omega)
    ((logged (.stripe .readChunk stripeId stripeSize offset n) w).network.script.length + 1)
    (firstBlock chunkSize.val offset) (firstOffset chunkSize.val offset) 0 0 (logged _ w)
    (firstOffset_le (by omega)) (Nat.zero_le _) rfl h₁.booked (Nat.lt_succ_self _)
  refine wp_mono hloop (fun res w' hw' => ?_) fun e he => h₁.stops he
  obtain ⟨used, sent, hrest, hquiet, rfl⟩ := hw'
  exact ⟨used, sent, h₁.trans hrest, ⟨hquiet.fileCursors, hquiet.undisturbed⟩,
    Nat.zero_add _⟩

end Fetched

end DecaFS
