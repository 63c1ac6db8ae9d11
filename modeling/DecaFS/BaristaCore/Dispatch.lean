import DecaFS.BaristaCore.Cursors
import DecaFS.IoManager.Deleting
import DecaFS.IoManager.Reading
import DecaFS.IoManager.Writing

/-!
# The stripes of a request

The loops of `read_file` and `write_file` over the stripes: what they send (`Fetched`, `Stored`)
and, as long as no delete interferes, what they do to the cursor and the size of the file
(`Swept`).
-/

namespace DecaFS

open Code Barista

/-- The metadata and the descriptors after the stripe calls for `l`: each moves the cursor by the
bytes it is about, and one of a write adds them to the size of the file first. -/
def swept (R : Runtime) (grows : Bool) (fd : ℤ) (fileId : ℕ) (client : Client) :
    List Piece → PersistentMetadata × (Finmap fun _ : ℕ => FileInstance) →
      PersistentMetadata × (Finmap fun _ : ℕ => FileInstance)
  | [], s => s
  | piece :: l, (p, cursors) =>
    let p := if grows then p.resized fileId piece.length else p
    swept R grows fd fileId client l
      (p, moveCursor R p fd (cursorOf cursors (fdKey fd) + piece.length) client cursors)

/-- What the stripe calls for `l` leave behind, unless a delete is active. -/
def Swept (R : Runtime) (grows : Bool) (fd : ℤ) (fileId : ℕ) (client : Client) (l : List Piece)
    (w w' : World) : Prop :=
  w.requests.activeDeleteRequests = ∅ → w'.requests.activeDeleteRequests = ∅ ∧
    w'.fileLocks = w.fileLocks ∧ (w'.persistent, w'.volatile.fileCursors) =
      swept R grows fd fileId client l (w.persistent, w.volatile.fileCursors)

section Loops

variable {R : Runtime} {grows : Bool} {fd : ℤ} {fileId id : ℕ} {q : WriteRequest} {client : Client}
  {w w₁ w' : World} {l : List Piece} {piece : Piece}

theorem Swept.nil : Swept R grows fd fileId client [] w w := fun hidle => ⟨hidle, rfl, rfl⟩

/-- A stripe call of a read and the move of the cursor that follows it. -/
theorem Quiet.swept_read (h : Quiet w w₁)
    (hrest : Swept R false fd fileId client l (moved R fd
      (cursorOf w₁.volatile.fileCursors (fdKey fd) + piece.length) client w₁) w') :
    Swept R false fd fileId client (piece :: l) w w' := by
  intro hidle
  obtain ⟨hidle₁, hp, hlocks⟩ := h.undisturbed hidle
  obtain ⟨hidle', hlocks', hend⟩ := hrest hidle₁
  refine ⟨hidle', hlocks'.trans hlocks, hend.trans ?_⟩
  simp only [moved, swept, hp, h.fileCursors, Bool.false_eq_true, if_false]

/-- A stripe call of a write, the growth of the file and the move of the cursor. -/
theorem Quiet.swept_write (h : Quiet w w₁)
    (hrest : Swept R true fd fileId client l (moved R fd
      (cursorOf w₁.volatile.fileCursors (fdKey fd) + piece.length) client
        (sized fileId piece.length w₁)) w') :
    Swept R true fd fileId client (piece :: l) w w' := by
  intro hidle
  obtain ⟨hidle₁, hp, hlocks⟩ := h.undisturbed hidle
  obtain ⟨hidle', hlocks', hend⟩ := hrest hidle₁
  refine ⟨hidle', hlocks'.trans hlocks, hend.trans ?_⟩
  simp only [moved, sized, swept, hp, h.fileCursors, if_true]

/-- The cursor moves after the packets of a stripe call are sent. -/
theorem Fetched.moved {l : List Span} {used : List SendOutcome} {sent : List (ℤ × ChunkRequest)}
    (h : Fetched R id fileId l used sent w w₁) (fd : ℤ) (client : Client) (offset : ℤ) :
    Fetched R id fileId l used sent w (moved R fd offset client w₁) where
  toSending := by
    have hmoved : Sending R (.read id) [] [] w₁ (DecaFS.moved R fd offset client w₁) :=
      unseen_moved.sending h.booked deleting_moved custody_moved
    simpa using h.toSending.trans hmoved
  packets := h.packets
  nodes := h.nodes
  chunks := h.chunks
  reliable := h.reliable

/-- **The loop of `read_file` over the stripes.** -/
theorem wp_readStripes (R : Runtime) (id fileId : ℕ) (fd : ℤ) (m : ChunkMaps) (stat : DecafsFileStat)
    {n : ℕ} (hn : n ≤ intMax) (huser : client.userId ≠ 0) (fuel : ℕ) :
    ∀ (stripeId offset done numChunks : ℕ) (w : World), offset ≤ stat.stripeSize.val → done ≤ n →
      w.chunks = m → Booked (some (.read id)) w →
      (pieces stat.stripeSize.val stripeId offset (n - done)).length < fuel →
    wp (readStripes R id fd fileId stat n client fuel stripeId offset done numChunks)
      (fun res w' => ∃ used sent, Fetched R id fileId (readableSpans R m fileId
        stat.chunkSize.val (pieces stat.stripeSize.val stripeId offset (n - done))) used sent w w' ∧
        Swept R false fd fileId client (pieces stat.stripeSize.val stripeId offset (n - done)) w w' ∧
        res = numChunks + sent.length)
      (ReadStops R fileId (readableSpans R m fileId stat.chunkSize.val
        (pieces stat.stripeSize.val stripeId offset (n - done))) w) w := by
  have hmin := stat.stripeSize.min_le
  have hint : toInt32 n = n := toInt32_eq (by omega) hn
  induction fuel with
  | zero => intro _ _ _ _ w _ _ _ _ hfuel; omega
  | succ fuel ih =>
    intro stripeId offset done numChunks w hoffset hdone hm h hfuel
    unfold readStripes
    rw [hint]
    by_cases hlt : (done : ℤ) < n
    · generalize hlen : min (n - done) (stat.stripeSize.val - offset) = len
      have hpieces : pieces stat.stripeSize.val stripeId offset (n - done) =
          ⟨stripeId, offset, len⟩ ::
            pieces stat.stripeSize.val (stripeId + 1) 0 (n - (done + len)) := by
        rw [pieces_of_pos (by omega) (by omega), hlen, Nat.sub_sub]
      have hsize : toInt32 (splitSize n done stat.stripeSize.val offset) = len := by
        rw [splitSize_eq hdone hn hoffset stat.stripeSize.le_max, hlen, toInt32_eq] <;>
          unfold intMax at * <;> omega
      have hsize' : toUInt64 len = len := by
        rw [toUInt64_eq] <;> unfold intMax at hn <;> omega
      simp only [hlt, if_true, wp_bind, wp_emit, hsize, hsize']
      have h₁ : Fetched R id fileId [] [] [] w (logged _ w) := h.fetched_emit
        (e := .compared n done stat.stripeSize.val offset) rfl ⟨by omega, by omega⟩
      have hspans : readableSpans R m fileId stat.chunkSize.val
          (pieces stat.stripeSize.val stripeId offset (n - done)) =
          existing R m fileId (stripeSpans stat.chunkSize.val stripeId offset len) ++
            readableSpans R m fileId stat.chunkSize.val
              (pieces stat.stripeSize.val (stripeId + 1) 0 (n - (done + len))) := by
        rw [hpieces, readableSpans, List.flatMap_cons]
        rfl
      have hstripe := wp_processReadStripe (R := R) fileId stripeId stat.stripeSize.val offset len
        stat.chunkSize stat.stripeSize.le_max (by omega) h₁.booked
      refine wp_mono hstripe (fun _ w₂ hw₂ => ?_) fun e he => ?_
      · obtain ⟨used, sent, hfetched, hquiet, rfl⟩ := hw₂
        have h₂ := h₁.trans hfetched
        rw [wp_bind, wp_get, wp_bind]
        refine wp_setFileCursor h₂.booked.unlocked (fun h₀ => absurd h₀ huser) fun _ => ?_
        have h₃ := h₂.moved fd client
          (w₂.volatile.getFileCursor (fdKey fd) + len)
        rw [hpieces, List.length_cons] at hfuel
        have hrec := ih (stripeId + 1) 0 (done + len) (numChunks + sent.length) _ (Nat.zero_le _)
          (by omega) (h₃.chunks.trans hm) h₃.booked (by omega)
        push_cast at hrec
        rw [hspans]
        have hm' : (logged (.compared n done stat.stripeSize.val offset) w).chunks = m := hm
        rw [hm'] at h₃
        refine wp_mono hrec (fun res w' hw' => ?_) fun e he => h₃.stops he
        obtain ⟨used', sent', hrest, hswept, rfl⟩ := hw'
        refine ⟨_, _, h₃.trans hrest, ?_, ?_⟩
        · rw [hpieces]
          have hquiet' : Quiet w w₂ := ⟨hquiet.fileCursors, hquiet.undisturbed⟩
          exact hquiet'.swept_read hswept
        · simp only [List.length_append, List.length_nil]
          omega
      · rw [hspans]
        have hm' : (logged (.compared n done stat.stripeSize.val offset) w).chunks = m := hm
        rw [hm'] at he
        rcases he with ⟨he, s, hs, hexists⟩ | ⟨he, hcount⟩
        · exact .inl ⟨he, s, List.mem_append_left _ hs, hexists⟩
        · refine .inr ⟨he, ?_⟩
          rw [List.length_append]
          exact Nat.lt_of_lt_of_le hcount (Nat.le_add_right _ _)
    · have hzero : n - done = 0 := by omega
      simp only [hlt, if_false, wp_pure, hzero, pieces_zero]
      exact ⟨[], [], .refl h, .nil, rfl⟩

/-- The file grows and the cursor moves after the packets of a stripe call are sent. -/
theorem Stored.grown {l : List (Span × List UInt8)} {used : List SendOutcome}
    {sent : List (ℤ × ChunkRequest)} (h : Stored R q fileId l used sent w w₁)
    (fd : ℤ) (client : Client) (delta offset : ℤ) :
    Stored R q fileId l used sent w (DecaFS.moved R fd offset client (sized fileId delta w₁)) where
  toSending := by
    have hsized : Sending R (.write q) [] [] w₁ (sized fileId delta w₁) :=
      unseen_sized.sending h.booked deleting_sized custody_sized
    have hmoved : Sending R (.write q) [] [] (sized fileId delta w₁) (DecaFS.moved R fd offset client
        (sized fileId delta w₁)) :=
      unseen_moved.sending hsized.booked deleting_moved custody_moved
    simpa using h.toSending.trans (hsized.trans hmoved)
  rounds := by
    have hup : (DecaFS.moved R fd offset client (sized fileId delta w₁)).volatile.upNodes =
        w₁.volatile.upNodes := rfl
    have hpass : WriteRounds R q fileId [] w₁.volatile w₁.chunks [] []
        (DecaFS.moved R fd offset client (sized fileId delta w₁)).volatile w₁.chunks :=
      .pass hup .done
    have happend := h.rounds.append hpass
    simp only [List.append_nil] at happend
    exact happend

/-- **The loop of `write_file` over the stripes.** -/
theorem wp_writeStripes (R : Runtime) (q : WriteRequest) (fileId : ℕ) (fd : ℤ) (stat : DecafsFileStat)
    (buf : List UInt8) {n : ℕ} (hn : n ≤ intMax) (huser : client.userId ≠ 0) (fuel : ℕ) :
    ∀ (stripeId offset done : ℕ) (chunksSent : ℕ × ℕ) (w : World), offset ≤ stat.stripeSize.val →
      done ≤ n → Booked (some (.write q)) w →
      (pieces stat.stripeSize.val stripeId offset (n - done)).length < fuel →
    wp (writeStripes R q fd fileId stat buf n client fuel stripeId offset done chunksSent)
      (fun res w' => ∃ used sent, Stored R q fileId (portions (callSpans
        stat.chunkSize.val (pieces stat.stripeSize.val stripeId offset (n - done)))
          (buf.drop done)) used sent w w' ∧
        Swept R true fd fileId client (pieces stat.stripeSize.val stripeId offset (n - done)) w w' ∧
        res = (chunksSent.1 + (callSpans stat.chunkSize.val
            (pieces stat.stripeSize.val stripeId offset (n - done))).length,
          chunksSent.2 + (callSpans stat.chunkSize.val
            (pieces stat.stripeSize.val stripeId offset (n - done))).length))
      (WriteStops (portions (callSpans stat.chunkSize.val
        (pieces stat.stripeSize.val stripeId offset (n - done))) (buf.drop done)) w) w := by
  have hmin := stat.stripeSize.min_le
  have hint : toInt32 n = n := toInt32_eq (by omega) hn
  induction fuel with
  | zero => intro _ _ _ _ w _ _ _ hfuel; omega
  | succ fuel ih =>
    intro stripeId offset done chunksSent w hoffset hdone h hfuel
    unfold writeStripes
    rw [hint]
    by_cases hlt : (done : ℤ) < n
    · generalize hlen : min (n - done) (stat.stripeSize.val - offset) = len
      have hpieces : pieces stat.stripeSize.val stripeId offset (n - done) =
          ⟨stripeId, offset, len⟩ ::
            pieces stat.stripeSize.val (stripeId + 1) 0 (n - (done + len)) := by
        rw [pieces_of_pos (by omega) (by omega), hlen, Nat.sub_sub]
      have hsize : toInt32 (splitSize n done stat.stripeSize.val offset) = len := by
        rw [splitSize_eq hdone hn hoffset stat.stripeSize.le_max, hlen, toInt32_eq] <;>
          unfold intMax at * <;> omega
      have hsize' : toUInt64 len = len := by
        rw [toUInt64_eq] <;> unfold intMax at hn <;> omega
      simp only [hlt, if_true, wp_bind, wp_emit, hsize, hsize', Int.toNat_natCast]
      have h₁ : Stored R q fileId [] [] [] w (logged _ w) := h.stored_emit
        (e := .compared n done stat.stripeSize.val offset) rfl ⟨by omega, by omega⟩
      have hspans : callSpans stat.chunkSize.val
          (pieces stat.stripeSize.val stripeId offset (n - done)) =
          stripeSpans stat.chunkSize.val stripeId offset len ++ callSpans stat.chunkSize.val
            (pieces stat.stripeSize.val (stripeId + 1) 0 (n - (done + len))) := by
        rw [hpieces, callSpans, List.flatMap_cons]
        rfl
      have hportions : portions (callSpans stat.chunkSize.val
          (pieces stat.stripeSize.val stripeId offset (n - done))) (buf.drop done) =
          portions (stripeSpans stat.chunkSize.val stripeId offset len) (buf.drop done) ++
            portions (callSpans stat.chunkSize.val
              (pieces stat.stripeSize.val (stripeId + 1) 0 (n - (done + len))))
              (buf.drop (done + len)) := by
        have hpos := stat.chunkSize.min_le
        rw [hspans, portions_append, sum_length_stripeSpans (by omega), List.drop_drop]
      have hstripe := wp_processWriteStripe (R := R) fileId stripeId stat.stripeSize.val offset len
        (buf.drop done) stat.chunkSize stat.stripeSize.le_max (by omega) h₁.booked
      rw [hportions]
      refine wp_mono hstripe (fun _ w₂ hw₂ => ?_) fun e he => ?_
      · obtain ⟨used, sent, hstored, hquiet, rfl⟩ := hw₂
        have h₂ := h₁.trans hstored
        rw [wp_bind]
        refine wp_updateFileSize h₂.booked.unlocked (fun h₀ => absurd h₀ huser) fun _ => ?_
        rw [wp_bind, wp_get, wp_bind]
        refine wp_setFileCursor h₂.booked.unlocked (fun h₀ => absurd h₀ huser) fun _ => ?_
        have h₃ := h₂.grown fd client len
          (w₂.volatile.getFileCursor (fdKey fd) + len)
        rw [hpieces, List.length_cons] at hfuel
        have hrec := ih (stripeId + 1) 0 (done + len)
          (chunksSent.1 + (stripeSpans stat.chunkSize.val stripeId offset len).length,
            chunksSent.2 + (stripeSpans stat.chunkSize.val stripeId offset len).length) _
          (Nat.zero_le _) (by omega) h₃.booked (by omega)
        push_cast at hrec
        refine wp_mono hrec (fun res w' hw' => ?_) fun e he => h₃.stops he
        obtain ⟨used', sent', hrest, hswept, rfl⟩ := hw'
        refine ⟨_, _, h₃.trans hrest, ?_, ?_⟩
        · rw [hpieces]
          have hquiet' : Quiet w w₂ := ⟨hquiet.fileCursors, hquiet.undisturbed⟩
          exact hquiet'.swept_write hswept
        · simp only [hspans, List.length_append, Nat.add_assoc]
      · obtain ⟨he, hcount⟩ := he
        refine ⟨he, ?_⟩
        rw [List.length_append, Nat.mul_add]
        exact Nat.lt_of_lt_of_le hcount (Nat.le_add_right _ _)
    · have hzero : n - done = 0 := by omega
      simp only [hlt, if_false, wp_pure, hzero, pieces_zero]
      exact ⟨[], [], .refl h, .nil, rfl⟩

end Loops

end DecaFS
