import DecaFS.BaristaCore.Dispatch
import DecaFS.BaristaCore.Finishing

/-!
# The calls of the clients, one by one

`read_file`, `write_file` and `delete_file` either refuse a request (`readRefusal`,
`writeRefusal`, `deleteRefusal`) or register it, send its packets and set the number of responses
they expect. The lemmas here say what each of these stages does.
-/

namespace DecaFS

open Desk Code Barista FileLocks

section

variable {R : Runtime} {w : World} {E : Halt Site → Prop} {fd count : ℤ} {client : Client} {f : ℕ}

/-! ### Counts and cursors -/

theorem toInt32_sizeArgument (c : ℤ) : toInt32 (sizeArgument c) = toInt32 c := by
  unfold sizeArgument toInt32 toUInt64
  omega

theorem sizeArgument_eq {c : ℤ} (h : 0 < toInt32 c) :
    sizeArgument c = ((toInt32 c).toNat : ℤ) ∧ ((toInt32 c).toNat : ℤ) ≤ intMax := by
  unfold sizeArgument toInt32 toUInt64 intMax at *
  omega

/-! ### Reading -/

/-- `client` holds a lock that lets it read the file. -/
def MayRead (w : World) (client : Client) (f : ℕ) : Prop :=
  HoldsExclusive (w.fileLocks.record f) client ∨ HoldsShared (w.fileLocks.record f) client

instance (lock : FileLock) (client : Client) : Decidable (HoldsExclusive lock client) :=
  inferInstanceAs (Decidable (_ ∧ _))

instance (lock : FileLock) (client : Client) : Decidable (HoldsShared lock client) :=
  inferInstanceAs (Decidable (_ ∧ _))

instance (w : World) (client : Client) (f : ℕ) : Decidable (MayRead w client f) :=
  inferInstanceAs (Decidable (_ ∨ _))

theorem wp_mayRead {Q : Bool → World → Prop} (huser : client.userId = 0 → E (.assertion .lockUser))
    (hQ : client.userId ≠ 0 → ∀ b, (b = true ↔ MayRead w client f) → Q b w) :
    wp (mayRead client f) Q E w := by
  simp only [mayRead, locking, wp_bind, wp_zoom]
  refine wp_hasExclusiveLock_record huser fun h₀ r hr => ?_
  by_cases hheld : r > 0
  · rw [if_neg (by omega), wp_pure]
    exact hQ h₀ true (by simp [MayRead, hr.mp hheld])
  · rw [if_pos (by omega)]
    simp only [wp_bind, wp_zoom, wp_pure]
    refine wp_hasSharedLock_record huser fun _ r' hr' => ?_
    refine hQ h₀ _ ?_
    rw [decide_eq_true_iff, hr', MayRead, or_iff_right fun hex => hheld (hr.mpr hex)]

/-- What `read_file` answers when it sends no packets. -/
def readRefusal (fd count : ℤ) (client : Client) (w : World) : Option Reply :=
  let fileId := (w.volatile.getFileInfo (fdKey fd)).fileId
  if ¬ MayRead w client fileId then some (.readResult 0 fileNotOpenForRead [])
  else match w.persistent.metadata.lookup fileId with
    | none => some (.readResult 0 unableToStatFile [])
    | some info =>
      let fileOffset := w.volatile.getFileCursor (fdKey fd)
      if fileOffset < 0 then some (.readResult 0 fileNotOpenForRead [])
      else if fileOffset ≥ toInt32 info.size ∨ count = 0 then some (.readResult fd 0 [])
      else none

theorem wp_readFile {Q : PUnit → World → Prop} (hlock : w.metaLock = none)
    (hid : w.volatile.requestId + 1 < 4294967296)
    (hfd : ¬ fd > 0 → E (.assertion .readFd))
    (huser : client.userId = 0 → E (.assertion .lockUser))
    (hrefuse : fd > 0 → client.userId ≠ 0 → ∀ reply, readRefusal fd count client w = some reply →
      Q ⟨⟩ (logged (.replied (.read (w.volatile.requestId + 1)) client reply)
        (issuedUpTo (w.volatile.requestId + 1) w)))
    (hdispatch : client.userId ≠ 0 → readRefusal fd count client w = none → ∀ info,
      w.persistent.metadata.lookup (w.volatile.getFileInfo (fdKey fd)).fileId = some info →
      MayRead w client (w.volatile.getFileInfo (fdKey fd)).fileId →
      0 ≤ w.volatile.getFileCursor (fdKey fd) →
      wp (dispatchRead R (w.volatile.requestId + 1) fd (w.volatile.getFileInfo (fdKey fd)).fileId
        (PersistentMetadata.toStat info) (w.volatile.getFileCursor (fdKey fd)) count client) Q E
        (issuedUpTo (w.volatile.requestId + 1) w)) :
    wp (readFile R fd count client) Q E w := by
  unfold readFile
  rw [wp_bind, wp_getNewRequestId hid, wp_bind, wp_assert]
  refine ⟨fun hpos => ?_, fun hneg => hfd (by simpa using hneg)⟩
  rw [wp_bind, wp_get, wp_bind]
  refine wp_mayRead huser fun h₀ b hb => ?_
  have hrefuse := hrefuse (by simpa using hpos) h₀
  have hdispatch := hdispatch h₀
  unfold readRefusal at hrefuse hdispatch
  by_cases hmay : MayRead w client (w.volatile.getFileInfo (fdKey fd)).fileId
  · obtain rfl : b = true := hb.mpr hmay
    simp only [not_true_eq_false, if_false, hmay, wp_bind] at hrefuse hdispatch ⊢
    rw [wp_decafsFileStat (by exact hlock), if_neg h₀]
    cases hl : w.persistent.metadata.lookup (w.volatile.getFileInfo (fdKey fd)).fileId with
    | none =>
      simp only [hl, getFileInfo_issuedUpTo, persistent_issuedUpTo, wp_emit] at hrefuse ⊢
      exact hrefuse _ rfl
    | some info =>
      simp only [hl, getFileInfo_issuedUpTo, persistent_issuedUpTo, wp_bind, wp_get]
        at hrefuse hdispatch ⊢
      change wp (ite (w.volatile.getFileCursor (fdKey fd) < 0) _ (ite
        (w.volatile.getFileCursor (fdKey fd) ≥ toInt32 info.size ∨ count = 0) _ _)) Q E _
      by_cases hneg : w.volatile.getFileCursor (fdKey fd) < 0
      · rw [if_pos hneg] at hrefuse ⊢
        exact wp_emit.mpr (hrefuse _ rfl)
      · by_cases hend : w.volatile.getFileCursor (fdKey fd) ≥ toInt32 info.size ∨ count = 0
        · rw [if_neg hneg, if_pos hend] at hrefuse ⊢
          exact wp_emit.mpr (hrefuse _ rfl)
        · rw [if_neg hneg, if_neg hend] at hdispatch ⊢
          exact hdispatch rfl info rfl trivial (by omega)
  · obtain rfl : b = false := by
      simpa using mt hb.mp hmay
    simp only [hmay, not_false_eq_true, if_true, Bool.false_eq_true, wp_emit] at hrefuse ⊢
    exact hrefuse _ rfl

/-- The state in which the packets of a read are about to be sent. -/
def readRegistered (fd : ℤ) (f : ℕ) (client : Client) (w : World) : World :=
  let id := w.volatile.requestId + 1
  logged (.registered (.read id)) { issuedUpTo id w with
    requests := w.requests.setRead id { info := ⟨0, 0, f, client⟩, fd := fd } }

/-- The stripe calls for `n` bytes from `offset` on. -/
def segment (stat : DecafsFileStat) (offset n : ℕ) : List Piece :=
  pieces stat.stripeSize.val (firstBlock stat.stripeSize.val offset)
    (firstOffset stat.stripeSize.val offset) n

theorem length_segment_lt (stat : DecafsFileStat) (offset n : ℕ) :
    (segment stat offset n).length < n + 2 := by
  have hmin := stat.stripeSize.min_le
  have hle := @length_pieces_le stat.stripeSize.val (firstBlock stat.stripeSize.val offset)
    (firstOffset stat.stripeSize.val offset) n (by omega) (firstOffset_le (by omega))
  unfold segment
  split_ifs at hle <;> omega

theorem Booked.registerRead (h : Booked none w) (fd : ℤ) (client : Client) (f : ℕ) :
    Booked (some (.read (w.volatile.requestId + 1))) (readRegistered fd f client w) ∧
      Step Operation.tags Tag.id (desk none w) (.openOp (.read (w.volatile.requestId + 1)))
        (desk (some (.read (w.volatile.requestId + 1))) (readRegistered fd f client w)) := by
  have hfresh := h.fresh (.read (w.volatile.requestId + 1)) (by simp [Operation.tags])
    (by simp [Operation.tags])
  refine h.register (c := ⟨0, 0, f, client⟩) hfresh (fun t => ?_) ⟨rfl, rfl⟩ (fun op => ?_) rfl rfl
    (h.paired.congr rfl fun _ => Iff.rfl) h.named rfl (Nat.le_succ _)
    (by simp [Operation.tags, readRegistered, logged, issuedUpTo])
  · simp only [Operation.tags, List.mem_singleton]
    exact Requests.counter_setRead _
  · cases op <;> simp [readRegistered, logged, Requests.Active, Requests.setRead]

/-- **`read_file` past its checks.** -/
theorem wp_dispatchRead (fd : ℤ) (h : Booked none w) (huser : client.userId ≠ 0) (stat : DecafsFileStat)
    (offset : ℕ) (c : ℤ) :
    wp (dispatchRead R (w.volatile.requestId + 1) fd f stat offset (sizeArgument c) client)
      (fun _ w' => ∃ w₂ used sent,
        Fetched R (w.volatile.requestId + 1) f (readableSpans R w.chunks f stat.chunkSize.val
          (segment stat offset (toInt32 c).toNat)) used sent (readRegistered fd f client w) w₂ ∧
        Swept R false fd f client (segment stat offset (toInt32 c).toNat)
          (readRegistered fd f client w) w₂ ∧
        Finished R (.read (w.volatile.requestId + 1)) sent.length w₂ w')
      (ReadStops R f (readableSpans R w.chunks f stat.chunkSize.val
        (segment stat offset (toInt32 c).toNat)) (readRegistered fd f client w))
      (issuedUpTo (w.volatile.requestId + 1) w) := by
  have hmin := stat.stripeSize.min_le
  obtain ⟨hbooked, hstep⟩ := h.registerRead fd client f
  simp only [dispatchRead, wp_bind, requests, wp_zoom, wp_modify, wp_emit, getFirstStripe_eq]
  have hloop : wp (readStripes R (w.volatile.requestId + 1) fd f stat (sizeArgument c) client
      ((toInt32 (sizeArgument c)).toNat + 2) (firstBlock stat.stripeSize.val offset)
      (firstOffset stat.stripeSize.val offset) 0 0)
      (fun res w₂ => ∃ used sent,
        Fetched R (w.volatile.requestId + 1) f (readableSpans R w.chunks f stat.chunkSize.val
          (segment stat offset (toInt32 c).toNat)) used sent (readRegistered fd f client w) w₂ ∧
        Swept R false fd f client (segment stat offset (toInt32 c).toNat)
          (readRegistered fd f client w) w₂ ∧ res = sent.length)
      (ReadStops R f (readableSpans R w.chunks f stat.chunkSize.val
        (segment stat offset (toInt32 c).toNat)) (readRegistered fd f client w))
      (readRegistered fd f client w) := by
    rw [toInt32_sizeArgument]
    by_cases hpos : 0 < toInt32 c
    · obtain ⟨hcount, hn⟩ := sizeArgument_eq hpos
      rw [hcount]
      have hrun := wp_readStripes R (w.volatile.requestId + 1) f fd w.chunks stat hn huser
        ((toInt32 c).toNat + 2) (firstBlock stat.stripeSize.val offset)
        (firstOffset stat.stripeSize.val offset) 0 0 (readRegistered fd f client w)
        (firstOffset_le (by omega)) (Nat.zero_le _) rfl hbooked
        (length_segment_lt stat offset (toInt32 c).toNat)
      simp only [Nat.sub_zero, Nat.zero_add] at hrun
      exact hrun
    · have hzero : (toInt32 c).toNat = 0 := by omega
      have hstop : ¬ ((0 : ℤ) < toInt32 (sizeArgument c)) := by rwa [toInt32_sizeArgument]
      rw [readStripes, if_neg hstop, wp_pure]
      simp only [hzero, segment, pieces_zero]
      exact ⟨[], [], .refl hbooked, .nil, rfl⟩
  refine wp_mono hloop (fun res w₂ hw₂ => ?_) fun _ he => he
  obtain ⟨used, sent, hfetched, hswept, rfl⟩ := hw₂
  have hle : (ledger w₂.network.log).count (.sent ⟨.readChunk, w.volatile.requestId + 1⟩) ≤
      sent.length := by
    rw [hfetched.count_sent (h.unsent_of_openOp hstep (by simp [Operation.tags]))]
    exact (List.length_filter_le _ _).trans (List.length_map _).le
  exact wp_mono (wp_finishRead hfetched.booked hle) (fun _ w' hw' =>
    ⟨w₂, used, sent, hfetched, hswept, hw'⟩) fun _ => False.elim

/-! ### Writing -/

/-- What `write_file` answers when it sends no packets. -/
def writeRefusal (fd count : ℤ) (client : Client) (w : World) : Option Reply :=
  let fileId := (w.volatile.getFileInfo (fdKey fd)).fileId
  if ¬ HoldsExclusive (w.fileLocks.record fileId) client then
    some (.writeResult 0 fileNotOpenForWrite)
  else match w.persistent.metadata.lookup fileId with
    | none => some (.writeResult 0 unableToStatFile)
    | some _ =>
      if w.volatile.getFileCursor (fdKey fd) < 0 then some (.writeResult 0 fileNotOpenForWrite)
      else if count = 0 then some (.writeResult 0 0)
      else none

/-- The ids of the next write. -/
def nextWrite (w : World) : WriteRequest := ⟨w.volatile.requestId + 1, w.volatile.requestId + 2⟩

theorem wp_writeFile {Q : PUnit → World → Prop} {buf : List UInt8} (hlock : w.metaLock = none)
    (hid : w.volatile.requestId + 2 < 4294967296)
    (hfd : ¬ fd > 0 → E (.assertion .writeFd))
    (huser : client.userId = 0 → E (.assertion .lockUser))
    (hrefuse : fd > 0 → client.userId ≠ 0 → ∀ reply, writeRefusal fd count client w = some reply →
      Q ⟨⟩ (logged (.replied (.write (nextWrite w)) client reply)
        (issuedUpTo (w.volatile.requestId + 2) w)))
    (hdispatch : client.userId ≠ 0 → writeRefusal fd count client w = none → ∀ info,
      w.persistent.metadata.lookup (w.volatile.getFileInfo (fdKey fd)).fileId = some info →
      HoldsExclusive (w.fileLocks.record (w.volatile.getFileInfo (fdKey fd)).fileId) client →
      0 ≤ w.volatile.getFileCursor (fdKey fd) →
      wp (dispatchWrite R (nextWrite w) fd (w.volatile.getFileInfo (fdKey fd)).fileId
        (PersistentMetadata.toStat info) (w.volatile.getFileCursor (fdKey fd)) buf count client) Q E
        (issuedUpTo (w.volatile.requestId + 2) w)) :
    wp (writeFile R fd buf count client) Q E w := by
  unfold writeFile
  rw [wp_bind, wp_getNewRequestId (by omega), wp_bind, wp_getNewRequestId (by exact hid)]
  change wp _ Q E (issuedUpTo (w.volatile.requestId + 2) w)
  rw [wp_bind, wp_assert]
  refine ⟨fun hpos => ?_, fun hneg => hfd (by simpa using hneg)⟩
  rw [wp_bind, wp_get, wp_bind, locking, wp_zoom]
  refine wp_hasExclusiveLock_record huser fun h₀ r hr => ?_
  have hrefuse := hrefuse (by simpa using hpos) h₀
  have hdispatch := hdispatch h₀
  unfold writeRefusal at hrefuse hdispatch
  by_cases hheld : HoldsExclusive
      (w.fileLocks.record (w.volatile.getFileInfo (fdKey fd)).fileId) client
  · have hpos : ¬ r ≤ 0 := not_le.mpr (hr.mpr hheld)
    simp only [not_true_eq_false, if_false, hheld, hpos, wp_bind] at hrefuse hdispatch ⊢
    rw [wp_decafsFileStat (by exact hlock), if_neg h₀]
    cases hl : w.persistent.metadata.lookup (w.volatile.getFileInfo (fdKey fd)).fileId with
    | none =>
      simp only [hl, getFileInfo_issuedUpTo, persistent_issuedUpTo, wp_emit] at hrefuse ⊢
      exact hrefuse _ rfl
    | some info =>
      simp only [hl, getFileInfo_issuedUpTo, persistent_issuedUpTo, wp_bind, wp_get]
        at hrefuse hdispatch ⊢
      change wp (ite (w.volatile.getFileCursor (fdKey fd) < 0) _ (ite (count = 0) _ _)) Q E _
      by_cases hneg : w.volatile.getFileCursor (fdKey fd) < 0
      · rw [if_pos hneg] at hrefuse ⊢
        exact wp_emit.mpr (hrefuse _ rfl)
      · by_cases hzero : count = 0
        · rw [if_neg hneg, if_pos hzero] at hrefuse ⊢
          exact wp_emit.mpr (hrefuse _ rfl)
        · rw [if_neg hneg, if_neg hzero] at hdispatch ⊢
          exact hdispatch rfl info rfl trivial (by omega)
  · have hneg : r ≤ 0 := not_lt.mp fun hpos => hheld (hr.mp hpos)
    simp only [hheld, not_false_eq_true, if_true, hneg, wp_emit] at hrefuse ⊢
    exact hrefuse _ rfl

/-- The state in which the packets of a write are about to be sent. -/
def writeRegistered (fd : ℤ) (f : ℕ) (client : Client) (w : World) : World :=
  logged (.registered (.write (nextWrite w))) { issuedUpTo (w.volatile.requestId + 2) w with
    requests := w.requests.addWrite (nextWrite w)
      { info := ⟨0, 0, f, client⟩, replicaInfo := ⟨0, 0, f, client⟩, fd := fd } }

/-- No entry of the lookups has an id that was not given out yet. -/
theorem Booked.notMem_lookups (h : Booked none w) {id : ℕ} (hid : w.volatile.requestId < id) :
    id ∉ w.requests.writeRequestLookups := by
  intro hmem
  obtain ⟨q, hq⟩ := Finmap.mem_iff.mp hmem
  obtain ⟨hact, hor⟩ := h.paired.of_lookup id q hq
  have hissued := h.issued (.write q) (h.inv.mentions_of_active hact) ⟨.writeChunk, id⟩ (by
    rcases hor with rfl | rfl <;> simp [Operation.tags])
  exact absurd hissued (not_le.mpr hid)

theorem Booked.registerWrite (h : Booked none w) (fd : ℤ) (client : Client) (f : ℕ) :
    Booked (some (.write (nextWrite w))) (writeRegistered fd f client w) ∧
      Step Operation.tags Tag.id (desk none w) (.openOp (.write (nextWrite w)))
        (desk (some (.write (nextWrite w))) (writeRegistered fd f client w)) := by
  have hfresh := h.fresh (.write (nextWrite w)) (by simp [Operation.tags, nextWrite])
    (by simp [Operation.tags, nextWrite])
  have hinactive : nextWrite w ∉ w.requests.activeWriteRequests := fun hmem =>
    h.notMem_lookups (Nat.lt_succ_self _) (Finmap.mem_of_lookup_eq_some (h.paired.lookup_id _ hmem))
  have hne : (nextWrite w).requestId ≠ (nextWrite w).replicaRequestId := by simp [nextWrite]
  refine h.register (c := ⟨0, 0, f, client⟩) hfresh (fun t => ?_) ⟨rfl, rfl⟩ (fun op => ?_) rfl rfl
    (h.paired.addWrite hne (h.notMem_lookups (Nat.lt_succ_self _))
      (h.notMem_lookups (by simp [nextWrite])) _) h.named
    rfl (by simp [writeRegistered, logged, issuedUpTo])
    (by simp [Operation.tags, writeRegistered, logged, issuedUpTo, nextWrite])
  · have hcounter := Requests.counter_addWrite (t := t) h.paired hinactive hne
      { info := ⟨0, 0, f, client⟩, replicaInfo := ⟨0, 0, f, client⟩, fd := fd }
    simp only [Operation.tags, List.mem_cons, List.not_mem_nil, or_false]
    refine hcounter.trans ?_
    split_ifs <;> tauto
  · cases op <;> simp [writeRegistered, logged, Requests.Active, Requests.addWrite]

/-- The loop of `write_file`, from the registration of the request on. -/
theorem wp_writeStripes_registered (fd : ℤ) (h : Booked none w) (huser : client.userId ≠ 0)
    (stat : DecafsFileStat) (offset : ℕ) (buf : List UInt8) (c : ℤ) :
    wp (writeStripes R (nextWrite w) fd f stat buf (sizeArgument c) client
      ((toInt32 (sizeArgument c)).toNat + 2) (firstBlock stat.stripeSize.val offset)
      (firstOffset stat.stripeSize.val offset) 0 (0, 0))
      (fun res w₂ => ∃ used sent,
        Stored R (nextWrite w) f (portions (callSpans stat.chunkSize.val
          (segment stat offset (toInt32 c).toNat)) buf) used sent (writeRegistered fd f client w) w₂ ∧
        Swept R true fd f client (segment stat offset (toInt32 c).toNat)
          (writeRegistered fd f client w) w₂ ∧
        res = ((callSpans stat.chunkSize.val (segment stat offset (toInt32 c).toNat)).length,
          (callSpans stat.chunkSize.val (segment stat offset (toInt32 c).toNat)).length))
      (WriteStops (portions (callSpans stat.chunkSize.val
        (segment stat offset (toInt32 c).toNat)) buf) (writeRegistered fd f client w))
      (writeRegistered fd f client w) := by
  have hmin := stat.stripeSize.min_le
  have hbooked := (h.registerWrite fd client f).1
  rw [toInt32_sizeArgument]
  by_cases hpos : 0 < toInt32 c
  · obtain ⟨hcount, hn⟩ := sizeArgument_eq hpos
    rw [hcount]
    have hrun := wp_writeStripes R (nextWrite w) f fd stat buf hn huser
      ((toInt32 c).toNat + 2) (firstBlock stat.stripeSize.val offset)
      (firstOffset stat.stripeSize.val offset) 0 (0, 0) (writeRegistered fd f client w)
      (firstOffset_le (by omega)) (Nat.zero_le _) hbooked
      (length_segment_lt stat offset (toInt32 c).toNat)
    simp only [Nat.sub_zero, Nat.zero_add, List.drop_zero] at hrun
    exact hrun
  · have hzero : (toInt32 c).toNat = 0 := by omega
    have hstop : ¬ ((0 : ℤ) < toInt32 (sizeArgument c)) := by rwa [toInt32_sizeArgument]
    rw [writeStripes, if_neg hstop, wp_pure]
    simp only [hzero, segment, pieces_zero]
    exact ⟨[], [], .refl hbooked, .nil, rfl⟩

/-- **`write_file` past its checks.** -/
theorem wp_dispatchWrite (fd : ℤ) (h : Booked none w) (huser : client.userId ≠ 0) (stat : DecafsFileStat)
    (offset : ℕ) (buf : List UInt8) (c : ℤ) :
    wp (dispatchWrite R (nextWrite w) fd f stat offset buf (sizeArgument c) client)
      (fun _ w' => ∃ w₂ used sent,
        Stored R (nextWrite w) f (portions (callSpans stat.chunkSize.val
          (segment stat offset (toInt32 c).toNat)) buf) used sent (writeRegistered fd f client w) w₂ ∧
        Swept R true fd f client (segment stat offset (toInt32 c).toNat)
          (writeRegistered fd f client w) w₂ ∧
        Finished R (.write (nextWrite w)) (callSpans stat.chunkSize.val
          (segment stat offset (toInt32 c).toNat)).length w₂ w')
      (WriteStops (portions (callSpans stat.chunkSize.val
        (segment stat offset (toInt32 c).toNat)) buf) (writeRegistered fd f client w))
      (issuedUpTo (w.volatile.requestId + 2) w) := by
  have hstep := (h.registerWrite fd client f).2
  simp only [dispatchWrite, wp_bind, requests, wp_zoom, wp_modify, wp_emit, getFirstStripe_eq]
  refine wp_mono (wp_writeStripes_registered fd h huser stat offset buf c) (fun res w₂ hw₂ => ?_)
    fun _ he => he
  obtain ⟨used, sent, hstored, hswept, rfl⟩ := hw₂
  have hle : ∀ t ∈ (Operation.write (nextWrite w)).tags,
      (ledger w₂.network.log).count (.sent t) ≤
        (callSpans stat.chunkSize.val (segment stat offset (toInt32 c).toNat)).length := by
    intro t ht
    rw [hstored.count_sent (h.unsent_of_openOp hstep ht)]
    have hunder := hstored.rounds.length_under_le (by simp [nextWrite]) t
    rwa [length_portions] at hunder
  exact wp_mono (wp_finishWrite hstored.booked hle) (fun _ w' hw' =>
    ⟨w₂, used, sent, hstored, hswept, hw'⟩) fun _ => False.elim

/-! ### Deleting -/

/-- The file a path leads to. -/
def PersistentMetadata.fileOf (p : PersistentMetadata) (path : String) :
    Option PersistentMetadataInfo :=
  (p.pathnameToFileId.lookup path).bind p.metadata.lookup

/-- The state in which the packets of a delete are about to be sent. -/
def deleteRegistered (f : ℕ) (client : Client) (locks : FileLocks) (w : World) : World :=
  let id := w.volatile.requestId + 1
  logged (.registered (.delete id)) { issuedUpTo id w with
    fileLocks := locks, requests := w.requests.setDelete id ⟨0, 0, f, client⟩ }

theorem wp_deleteFile {Q : PUnit → World → Prop} {path : String} (hlock : w.metaLock = none)
    (hid : w.volatile.requestId + 1 < 4294967296)
    (huser : client.userId = 0 → E (.assertion .lockUser))
    (hrefuse : client.userId ≠ 0 → ∀ result, ∀ locks : FileLocks,
      locks.record = w.fileLocks.record → (∀ info, w.persistent.fileOf path = some info →
        (w.fileLocks.record info.fileId).ownerUid ≠ 0) →
      Q ⟨⟩ (logged (.replied (.delete (w.volatile.requestId + 1)) client (.removeResult result))
        { issuedUpTo (w.volatile.requestId + 1) w with fileLocks := locks }))
    (hdispatch : client.userId ≠ 0 → ∀ info, w.persistent.fileOf path = some info →
      (w.fileLocks.record info.fileId).ownerUid = 0 → ∀ locks : FileLocks,
      locks.record = Function.update w.fileLocks.record info.fileId
        ((w.fileLocks.record info.fileId).withExclusive client) →
      wp (dispatchDelete R (w.volatile.requestId + 1) info.fileId client) Q E
        { issuedUpTo (w.volatile.requestId + 1) w with fileLocks := locks }) :
    wp (deleteFile R path client) Q E w := by
  unfold deleteFile
  rw [wp_bind, wp_getNewRequestId hid, wp_bind, wp_decafsFileSstat (by exact hlock)]
  split_ifs with h₀
  · exact huser h₀
  · have hrefuse := hrefuse h₀
    have hdispatch := hdispatch h₀
    unfold PersistentMetadata.fileOf at hrefuse hdispatch
    rw [persistent_issuedUpTo]
    cases hl : (w.persistent.pathnameToFileId.lookup path).bind w.persistent.metadata.lookup with
    | none =>
      simp only [hl, wp_emit] at hrefuse ⊢
      exact hrefuse fileNotFound w.fileLocks rfl (by simp)
    | some info =>
      simp only [hl, Option.some.injEq, forall_eq', wp_bind, locking, wp_zoom] at hrefuse hdispatch ⊢
      refine wp_getExclusiveLock_record huser (fun hown => ?_) fun _ hfree locks hlocks => ?_
      · have hneg : lockError < 0 := by decide
        simp only [hneg, if_true, wp_emit]
        exact hrefuse fileInUse w.fileLocks rfl hown
      · have hpos : ¬ lockSuccess < 0 := by decide
        simp only [hpos, if_false]
        exact hdispatch hfree locks hlocks

theorem Booked.registerDelete (h : Booked none w) (huser : client.userId ≠ 0) (f : ℕ)
    (locks : FileLocks) :
    Booked (some (.delete (w.volatile.requestId + 1))) (deleteRegistered f client locks w) ∧
      Step Operation.tags Tag.id (desk none w) (.openOp (.delete (w.volatile.requestId + 1)))
        (desk (some (.delete (w.volatile.requestId + 1))) (deleteRegistered f client locks w)) := by
  have hfresh := h.fresh (.delete (w.volatile.requestId + 1)) (by simp [Operation.tags])
    (by simp [Operation.tags])
  refine h.register (c := ⟨0, 0, f, client⟩) hfresh (fun t => ?_) ⟨rfl, rfl⟩ (fun op => ?_) rfl rfl
    (h.paired.congr rfl fun _ => Iff.rfl) (h.named.setDelete huser) rfl (Nat.le_succ _)
    (by simp [Operation.tags, deleteRegistered, logged, issuedUpTo])
  · simp only [Operation.tags, List.mem_singleton]
    exact Requests.counter_setDelete _
  · cases op <;> simp [deleteRegistered, logged, Requests.Active, Requests.setDelete]

/-- **`delete_file` past its checks.** -/
theorem wp_dispatchDelete (h : Booked none w) (huser : client.userId ≠ 0) (locks : FileLocks) :
    wp (dispatchDelete R (w.volatile.requestId + 1) f client)
      (fun _ w' => ∃ w₂ used sent,
        Removed R (w.volatile.requestId + 1)
          (∀ chunk ∈ getAllChunks w.chunks f, ¬ Deletable R w chunk) used sent
          (deleteRegistered f client locks w) w₂ ∧
        Finished R (.delete (w.volatile.requestId + 1)) used.length w₂ w')
      (fun e => e = .noReturn)
      { issuedUpTo (w.volatile.requestId + 1) w with fileLocks := locks } := by
  obtain ⟨hbooked, hstep⟩ := h.registerDelete huser f locks
  simp only [dispatchDelete, wp_bind, requests, wp_zoom, wp_modify, wp_emit]
  have hloop : wp (processDeleteFile R (w.volatile.requestId + 1) f) _ _
    (deleteRegistered f client locks w) := wp_processDeleteFile f hbooked
  refine wp_mono hloop (fun res w₂ hw₂ => ?_) fun _ he => he
  obtain ⟨used, sent, hremoved, rfl⟩ := hw₂
  have hle : (ledger w₂.network.log).count (.sent ⟨.deleteChunk, w.volatile.requestId + 1⟩) ≤
      used.length := by
    rw [hremoved.count_sent (h.unsent_of_openOp hstep (by simp [Operation.tags]))]
    refine (List.length_filter_le _ _).trans ((List.length_map _).le.trans ?_)
    rw [← hremoved.accepted]
    exact List.countP_le_length
  exact wp_mono (wp_finishDelete hremoved.booked hle) (fun _ w' hw' =>
    ⟨w₂, used, sent, hremoved, hw'⟩) fun _ => False.elim

end

end DecaFS
