import DecaFS.BaristaCore.Handling
import DecaFS.ForMathlib.Keeps

/-!
# What the server keeps up

An invariant of the placement maps, the nodes, the packets tried, the files and the cursors survives
the handling of responses if it survives a file being deleted (`Enduring.receive`), and the loops of
`read_file` and `write_file` if it survives the stripe calls, the cursor moving and the file growing
(`Upkeep.dispatchRead`, `Enduring.dispatchWrite`). The locks, the request tables and the counters do
not matter for it.
-/

namespace DecaFS

open Code Barista FileLocks

/-- A send, whether it succeeded or not. -/
structure Attempt where
  accepted : Bool
  node : ℤ
  request : ChunkRequest
  deriving DecidableEq

/-- The send that the event reports. -/
def Event.attempt : Event → Option Attempt
  | .sent node r => some ⟨true, node, r⟩
  | .failed node r => some ⟨false, node, r⟩
  | _ => none

/-- What decides where chunk packets go, with the outcomes of the sends to come, and where they went,
newest first. -/
structure Routing where
  chunks : ChunkMaps
  upNodes : List ℤ
  outcomes : List Bool
  tried : List Attempt

/-- The routing of a state. -/
def routing (w : World) : Routing where
  chunks := w.chunks
  upNodes := w.volatile.upNodes
  outcomes := w.network.script.map SendOutcome.accepted
  tried := w.network.log.filterMap Event.attempt

/-- The metadata lock is free and otherwise `I` depends on the routing, the files and the cursors only;
it survives a file being deleted. -/
structure Enduring (I : World → Prop) : Prop where
  unlocked : ∀ w, I w → w.metaLock = none
  view : ∀ w w', w'.metaLock = w.metaLock → routing w' = routing w → w'.persistent = w.persistent →
    w'.volatile.fileCursors = w.volatile.fileCursors → I w → I w'
  deleted : ∀ w f, I w → I { w with persistent := w.persistent.without f }

/-- `I` also survives a cursor moving. -/
structure Upkeep (R : Runtime) (I : World → Prop) : Prop extends Enduring I where
  moved : ∀ w fd offset client, I w → I (moved R fd offset client w)

/-- Nothing that an upkeep looks at differs. -/
structure Unmoved (w w' : World) : Prop where
  metaLock : w'.metaLock = w.metaLock
  routing : routing w' = routing w
  persistent : w'.persistent = w.persistent
  fileCursors : w'.volatile.fileCursors = w.volatile.fileCursors

theorem Unmoved.fileAt {w w' : World} (h : Unmoved w w') (fd : ℤ) : w'.fileAt fd = w.fileAt fd := by
  unfold World.fileAt VolatileMetadata.getFileInfo
  rw [h.fileCursors]

theorem Unmoved.getFileCursor {w w' : World} (h : Unmoved w w') (fd : ℕ) :
    w'.volatile.getFileCursor fd = w.volatile.getFileCursor fd := by
  unfold VolatileMetadata.getFileCursor
  rw [h.fileCursors]

namespace Enduring

variable {R : Runtime} {I : World → Prop} {α : Type}

theorem unmoved (h : Enduring I) {w w' : World} (hunmoved : Unmoved w w') (hw : I w) : I w' :=
  h.view w w' hunmoved.metaLock hunmoved.routing hunmoved.persistent hunmoved.fileCursors hw

theorem locking (h : Enduring I) (m : Code (Halt Site) FileLocks α) : (Barista.locking m).Keeps I :=
  keeps_zoom fun w _ => h.view w _ rfl rfl rfl rfl

theorem requests (h : Enduring I) (m : Code (Halt Site) Requests α) : (Barista.requests m).Keeps I :=
  keeps_zoom fun w _ => h.view w _ rfl rfl rfl rfl

theorem assert (site : Site) (c : Bool) : (DecaFS.assert site c : Barista PUnit).Keeps I :=
  fun _ hw => wp_assert.mpr ⟨fun _ => hw, fun _ => trivial⟩

theorem emit (h : Enduring I) {e : Event} (he : e.attempt = none) : (Barista.emit e).Keeps I := by
  intro w hw
  simp only [Barista.emit, network, wp_zoom, wp_modify]
  refine h.view w _ rfl ?_ rfl rfl hw
  unfold routing
  rw [List.filterMap_cons_none he]

/-! ### Responses -/

theorem checkReadComplete (h : Enduring I) (id : ℕ) : (Barista.checkReadComplete id).Keeps I :=
  .bind keeps_get fun _ => .bind (assert _ _) fun _ => .bind keeps_get fun _ =>
    .ite (keeps_pure _) (.ite (.bind (h.emit rfl) fun _ => h.requests _) (keeps_pure _))

theorem checkWriteComplete (h : Enduring I) (id : ℕ) : (Barista.checkWriteComplete id).Keeps I :=
  .bind keeps_get fun _ => .bind (assert _ _) fun _ => .bind keeps_get fun _ =>
    .bind keeps_get fun _ => .ite (keeps_pure _)
      (.ite (.bind (h.emit rfl) fun _ => h.requests _) (keeps_pure _))

theorem checkDeleteComplete (h : Enduring I) (id : ℕ) : (Barista.checkDeleteComplete id).Keeps I := by
  refine .bind keeps_get fun _ => .bind (assert _ _) fun _ => .bind keeps_get fun _ =>
    .ite (keeps_pure _) (.ite ?_ (keeps_pure _))
  have hrest : ∀ request : RequestInfo, (do
      let _ ← Barista.locking (releaseLock request.client request.fileId)
      Barista.requests (modify fun r => r.eraseDelete id) : Barista PUnit).Keeps I :=
    fun _ => .bind (h.locking _) fun _ => h.requests _
  have hdelete : ∀ (f : ℕ) (client : Client), (deleteFileContents f client).Keeps I := by
    intro f client w hw
    refine (wp_withMetadataLock (h.unlocked w hw) _ _).mpr ?_
    by_cases huser : client.userId = 0
    · rw [if_pos huser]
      trivial
    · rw [if_neg huser]
      exact PersistentMetadata.wp_deleteFileContents fun _ _ => h.deleted w f hw
  refine .bind (h.emit rfl) fun _ => .bind (hdelete _ _) fun _ => ?_
  exact .ite (.bind (keeps_throw _) fun _ => hrest _) (hrest _)

theorem receive (h : Enduring I) (d : Delivery) : (Barista.receive R d).Keeps I := by
  refine .bind keeps_get fun w => ?_
  cases w.network.inFlight[d.index]? with
  | none => exact keeps_pure _
  | some r =>
    refine .bind (fun w hw => ?_) fun _ => ?_
    · simp only [network, wp_zoom, wp_modify]
      exact h.view w _ rfl rfl rfl rfl hw
    · cases r.flag with
      | readChunk =>
        exact .bind keeps_get fun _ => .bind (assert _ _) fun _ =>
          .bind (h.requests _) fun _ => h.checkReadComplete _
      | writeChunk =>
        exact .bind keeps_get fun _ => .bind (assert _ _) fun _ =>
          .bind (h.requests _) fun _ => h.checkWriteComplete _
      | deleteChunk =>
        exact .bind keeps_get fun _ => .bind (assert _ _) fun _ =>
          .bind (h.requests _) fun _ => h.checkDeleteComplete _

theorem receiveAll (h : Enduring I) : ∀ ds : List Delivery, (Barista.receiveAll R ds).Keeps I
  | [] => keeps_pure _
  | d :: ds => .bind (h.receive d) fun _ => h.receiveAll ds

/-! ### Stripes -/

/-- The loop of `write_file`. `J` also says how many bytes are written. -/
theorem writeStripes {J : ℕ → World → Prop} (h : ∀ done, Enduring (J done)) {q : WriteRequest}
    {fileId n : ℕ} {stat : DecafsFileStat} (hn : n ≤ intMax)
    {fd : ℤ} {client : Client} (hgrown : ∀ done len w, done < n → done + len ≤ n → J done w → J (done + len)
      (moved R fd (w.volatile.getFileCursor (fdKey fd) + len) client (sized fileId len w)))
    (buf : List UInt8) (fuel : ℕ) :
    ∀ (stripeId offset done : ℕ) (sent : ℕ × ℕ) (w : World), offset ≤ stat.stripeSize.val →
      done ≤ n → (∀ p ∈ pieces stat.stripeSize.val stripeId offset (n - done), ∀ done buf,
        (processWriteStripe R q fileId p.id stat.stripeSize.val stat.chunkSize.val buf p.offset
          p.length).Keeps (J done)) → J done w →
      wp (Barista.writeStripes R q fd fileId stat buf n client fuel stripeId offset done sent)
        (fun _ w' => J n w') (fun _ => True) w := by
  have hmin := stat.stripeSize.min_le
  have hint : toInt32 n = n := toInt32_eq (by omega) hn
  induction fuel with
  | zero => exact fun _ _ _ _ _ _ _ _ _ => (wp_throw _).mpr trivial
  | succ fuel ih =>
    intro stripeId offset done sent w hoffset hdone hstripe hw
    unfold Barista.writeStripes
    rw [hint]
    by_cases hlt : (done : ℤ) < n
    · generalize hlen : min (n - done) (stat.stripeSize.val - offset) = len
      rw [pieces_of_pos (by omega) (by omega), hlen, Nat.sub_sub, List.forall_mem_cons] at hstripe
      have hsize : toInt32 (splitSize n done stat.stripeSize.val offset) = len := by
        rw [splitSize_eq hdone hn hoffset stat.stripeSize.le_max, hlen, toInt32_eq] <;>
          unfold intMax at * <;> omega
      have hsize' : toUInt64 len = len := by
        rw [toUInt64_eq] <;> unfold intMax at hn <;> omega
      rw [if_pos hlt]
      simp only [hsize, hsize']
      rw [wp_bind]
      refine wp_mono ((h done).emit rfl w hw) (fun _ w₁ hw₁ => ?_) fun _ _ => trivial
      rw [wp_bind]
      refine wp_mono (hstripe.1 done _ w₁ hw₁) (fun _ w₂ hw₂ => ?_) fun _ _ => trivial
      rw [wp_bind]
      refine wp_updateFileSize ((h done).unlocked w₂ hw₂) (fun _ => trivial) fun _ => ?_
      rw [wp_bind, wp_get, wp_bind]
      have hlock : (sized fileId len w₂).metaLock = none := (h done).unlocked w₂ hw₂
      refine wp_setFileCursor hlock (fun _ => trivial) fun _ => ?_
      exact ih (stripeId + 1) 0 (done + len) _ _ (Nat.zero_le _) (by omega) hstripe.2
        (hgrown done len w₂ (by omega) (by omega) hw₂)
    · obtain rfl : done = n := by omega
      rw [if_neg hlt, wp_pure]
      exact hw

theorem dispatchWrite {J : ℕ → World → Prop} (h : ∀ done, Enduring (J done)) {q : WriteRequest}
    {fileId offset : ℕ} {stat : DecafsFileStat} {c : ℤ}
    (hstripe : ∀ p ∈ segment stat offset (toInt32 c).toNat, ∀ done buf, (processWriteStripe R q fileId
      p.id stat.stripeSize.val stat.chunkSize.val buf p.offset p.length).Keeps (J done))
    {fd : ℤ} {client : Client} (hgrown : ∀ done len w, done < (toInt32 c).toNat →
      done + len ≤ (toInt32 c).toNat → J done w → J (done + len)
        (moved R fd (w.volatile.getFileCursor (fdKey fd) + len) client (sized fileId len w)))
    (buf : List UInt8) {w : World} (hw : J 0 w) :
    wp (Barista.dispatchWrite R q fd fileId stat offset buf (sizeArgument c) client)
      (fun _ w' => J (toInt32 c).toNat w') (fun _ => True) w := by
  have hmin := stat.stripeSize.min_le
  have hloop : ∀ w, J 0 w → wp (Barista.writeStripes R q fd fileId stat buf (sizeArgument c) client
      ((toInt32 (sizeArgument c)).toNat + 2) (firstBlock stat.stripeSize.val offset)
      (firstOffset stat.stripeSize.val offset) 0 (0, 0))
      (fun _ w' => J (toInt32 c).toNat w') (fun _ => True) w := by
    intro w hw
    rw [toInt32_sizeArgument]
    by_cases hpos : 0 < toInt32 c
    · obtain ⟨hcount, hn⟩ := sizeArgument_eq hpos
      rw [hcount]
      exact writeStripes h hn hgrown buf _ _ _ 0 _ w (firstOffset_le (by omega))
        (Nat.zero_le _) hstripe hw
    · have hstop : ¬ ((0 : ℤ) < toInt32 (sizeArgument c)) := by rwa [toInt32_sizeArgument]
      have hzero : (toInt32 c).toNat = 0 := by omega
      rw [Barista.writeStripes, if_neg hstop, wp_pure, hzero]
      exact hw
  have hfinish : ∀ numChunks, (finishWrite q numChunks).Keeps (J (toInt32 c).toNat) := fun _ =>
    .bind keeps_get fun _ => .bind (assert _ _) fun _ => .bind ((h _).requests _) fun _ =>
      (h _).checkWriteComplete _
  refine (wp_bind _ _).mpr (wp_mono ((h 0).requests _ w hw) (fun _ w₁ hw₁ => ?_) fun _ _ => trivial)
  refine (wp_bind _ _).mpr (wp_mono ((h 0).emit rfl w₁ hw₁) (fun _ w₂ hw₂ => ?_) fun _ _ => trivial)
  rw [getFirstStripe_eq]
  exact (wp_bind _ _).mpr (wp_mono (hloop w₂ hw₂) (fun _ w₃ hw₃ => hfinish _ w₃ hw₃)
    fun _ _ => trivial)

/-! ### Calls -/

section Calls

variable {w : World} {client : Client}

/-- A call that changes nothing the upkeep looks at comes first. -/
theorem wp_bind_unmoved {m : Barista α} {β : Type} {k : α → Barista β} {Q : β → World → Prop} {w' : World}
    (hm : m.Keeps (Unmoved w)) (hw : Unmoved w w')
    (hk : ∀ a w', Unmoved w w' → wp (k a) Q (fun _ => True) w') :
    wp (m >>= k) Q (fun _ => True) w' :=
  (wp_bind m k).mpr (wp_mono (hm w' hw) hk fun _ _ => trivial)

theorem keeps_unmoved_locking (m : Code (Halt Site) FileLocks α) : (Barista.locking m).Keeps (Unmoved w) :=
  keeps_zoom fun _ _ h => ⟨h.metaLock, h.routing, h.persistent, h.fileCursors⟩

theorem keeps_unmoved_getNewRequestId :
    (volatile VolatileMetadata.getNewRequestId).Keeps (Unmoved w) := by
  intro w' h
  simp only [volatile, VolatileMetadata.getNewRequestId, wp_zoom, wp_bind, wp_modify, wp_get, wp_pure]
  exact ⟨h.metaLock, h.routing, h.persistent, h.fileCursors⟩

theorem keeps_unmoved_mayRead (client : Client) (f : ℕ) : (mayRead client f).Keeps (Unmoved w) :=
  .bind (keeps_unmoved_locking _) fun _ => .ite (.bind (keeps_unmoved_locking _) fun _ => keeps_pure _)
    (keeps_pure _)

theorem keeps_unmoved_locks_getNewRequestId : (volatile VolatileMetadata.getNewRequestId).Keeps
    fun w' => Unmoved w w' ∧ w'.fileLocks = w.fileLocks := by
  intro w' h
  simp only [volatile, VolatileMetadata.getNewRequestId, wp_zoom, wp_bind, wp_modify, wp_get, wp_pure]
  exact ⟨⟨h.1.metaLock, h.1.routing, h.1.persistent, h.1.fileCursors⟩, h.2⟩

/-- **`read_file`** answers, or goes on to send. -/
theorem wp_readFile_unmoved {Q : World → Prop} (hlock : w.metaLock = none) (fd count : ℤ)
    (hrefuse : ∀ reply, readRefusal fd count client w = some reply → ∀ w', Unmoved w w' → Q w')
    (hdispatch : ∀ id info w', Unmoved w w' → readRefusal fd count client w = none →
      w.persistent.metadata.lookup (w.fileAt fd) = some info → ∀ offset : ℕ,
      w.volatile.getFileCursor (fdKey fd) = offset →
      wp (Barista.dispatchRead R id fd (w.fileAt fd) (PersistentMetadata.toStat info) offset count
        client) (fun _ w' => Q w') (fun _ => True) w') :
    wp (Barista.readFile R fd count client) (fun _ w' => Q w') (fun _ => True) w := by
  have hemit : ∀ w₁ id reply, Unmoved w w₁ → readRefusal fd count client w = some reply →
      wp (Barista.emit (.replied (.read id) client reply)) (fun _ w' => Q w') (fun _ => True) w₁ :=
    fun w₁ id reply hw₁ hreply => wp_emit.mpr (hrefuse reply hreply _
      ⟨hw₁.metaLock, hw₁.routing, hw₁.persistent, hw₁.fileCursors⟩)
  refine (wp_bind _ _).mpr (wp_mono (keeps_unmoved_locks_getNewRequestId w ⟨⟨rfl, rfl, rfl, rfl⟩, rfl⟩)
    (fun id w₁ hw₁ => ?_) fun _ _ => trivial)
  obtain ⟨hw₁, hlocks⟩ := hw₁
  rw [wp_bind, wp_assert]
  refine ⟨fun _ => ?_, fun _ => trivial⟩
  have hfile : (w₁.volatile.getFileInfo (fdKey fd)).fileId = w.fileAt fd := hw₁.fileAt fd
  have hstat : w.persistent.metadata.lookup (w.volatile.getFileInfo (fdKey fd)).fileId =
      w.persistent.metadata.lookup (w.fileAt fd) := rfl
  rw [wp_bind, wp_get, wp_bind, hfile]
  refine wp_mayRead (fun _ => trivial) fun h₀ b hb => ?_
  have hmay₁ : MayRead w₁ client (w.fileAt fd) ↔
      MayRead w client (w.volatile.getFileInfo (fdKey fd)).fileId := by
    rw [MayRead, hlocks]
    rfl
  unfold readRefusal at hemit hdispatch
  by_cases hmay : MayRead w client (w.volatile.getFileInfo (fdKey fd)).fileId
  · obtain rfl : b = true := hb.mpr (hmay₁.mpr hmay)
    simp only [not_true_eq_false, if_false, hmay, hstat] at hemit hdispatch ⊢
    rw [wp_bind, wp_decafsFileStat (hw₁.metaLock.trans hlock), if_neg h₀, hw₁.persistent]
    cases hinfo : w.persistent.metadata.lookup (w.fileAt fd) with
    | none =>
      simp only [hinfo] at hemit
      exact hemit _ _ _ hw₁ rfl
    | some info =>
      simp only [hinfo] at hemit hdispatch
      simp only [wp_bind, wp_get, hw₁.getFileCursor]
      by_cases hneg : w.volatile.getFileCursor (fdKey fd) < 0
      · rw [if_pos hneg] at hemit ⊢
        exact hemit _ _ _ hw₁ rfl
      · obtain ⟨offset, hoffset⟩ := Int.eq_ofNat_of_zero_le (not_lt.mp hneg)
        by_cases hend : w.volatile.getFileCursor (fdKey fd) ≥ toInt32 info.size ∨ count = 0
        · have hend' : w.volatile.getFileCursor (fdKey fd) ≥
              toInt32 (PersistentMetadata.toStat info).size ∨ count = 0 := hend
          rw [if_neg hneg, if_pos hend] at hemit
          rw [if_neg hneg, if_pos hend']
          exact hemit _ _ _ hw₁ rfl
        · have hend' : ¬ (w.volatile.getFileCursor (fdKey fd) ≥
              toInt32 (PersistentMetadata.toStat info).size ∨ count = 0) := hend
          rw [if_neg hneg, if_neg hend] at hdispatch
          rw [if_neg hneg, if_neg hend', hoffset]
          exact hdispatch id info _ hw₁ rfl rfl offset hoffset
  · obtain rfl : b = false := Bool.eq_false_iff.mpr fun htrue => hmay (hmay₁.mp (hb.mp htrue))
    simp only [hmay, not_false_eq_true, if_true] at hemit ⊢
    exact hemit _ _ _ hw₁ rfl

/-- **`read_file`** keeps what its dispatch keeps. -/
theorem readFile (h : Enduring I) (hw : I w) (fd count : ℤ)
    (hdispatch : ∀ id info w', Unmoved w w' → I w' →
      w.persistent.metadata.lookup (w.fileAt fd) = some info → ∀ offset : ℕ,
      w.volatile.getFileCursor (fdKey fd) = offset →
      wp (Barista.dispatchRead R id fd (w.fileAt fd) (PersistentMetadata.toStat info) offset count
        client) (fun _ w' => I w') (fun _ => True) w') :
    wp (Barista.readFile R fd count client) (fun _ w' => I w') (fun _ => True) w :=
  wp_readFile_unmoved (h.unlocked w hw) fd count (fun _ _ _ hw' => h.unmoved hw' hw)
    fun id info w' hw' _ hinfo => hdispatch id info w' hw' (h.unmoved hw' hw) hinfo

/-- **`write_file`** answers, or goes on to send. -/
theorem wp_writeFile_unmoved {Q : World → Prop} (hlock : w.metaLock = none) (fd : ℤ) (buf : List UInt8)
    (count : ℤ) (hrefuse : ∀ reply, writeRefusal fd count client w = some reply →
      ∀ w', Unmoved w w' → Q w')
    (hdispatch : ∀ q info w', Unmoved w w' → writeRefusal fd count client w = none →
      w.persistent.metadata.lookup (w.fileAt fd) = some info → ∀ offset : ℕ,
      w.volatile.getFileCursor (fdKey fd) = offset →
      wp (Barista.dispatchWrite R q fd (w.fileAt fd) (PersistentMetadata.toStat info) offset buf count
        client) (fun _ w' => Q w') (fun _ => True) w') :
    wp (Barista.writeFile R fd buf count client) (fun _ w' => Q w') (fun _ => True) w := by
  have hemit : ∀ w₁ q reply, Unmoved w w₁ → writeRefusal fd count client w = some reply →
      wp (Barista.emit (.replied (.write q) client reply)) (fun _ w' => Q w') (fun _ => True) w₁ :=
    fun w₁ q reply hw₁ hreply => wp_emit.mpr (hrefuse reply hreply _
      ⟨hw₁.metaLock, hw₁.routing, hw₁.persistent, hw₁.fileCursors⟩)
  refine (wp_bind _ _).mpr (wp_mono (keeps_unmoved_locks_getNewRequestId w ⟨⟨rfl, rfl, rfl, rfl⟩, rfl⟩)
    (fun id w₀ hw₀ => ?_) fun _ _ => trivial)
  refine (wp_bind _ _).mpr (wp_mono (keeps_unmoved_locks_getNewRequestId w₀ hw₀)
    (fun id' w₁ hw₁ => ?_) fun _ _ => trivial)
  obtain ⟨hw₁, hlocks⟩ := hw₁
  rw [wp_bind, wp_assert]
  refine ⟨fun _ => ?_, fun _ => trivial⟩
  have hfile : (w₁.volatile.getFileInfo (fdKey fd)).fileId = w.fileAt fd := hw₁.fileAt fd
  have hheld : HoldsExclusive (w.fileLocks.record (w.fileAt fd)) client ↔
      HoldsExclusive (w.fileLocks.record (w.volatile.getFileInfo (fdKey fd)).fileId) client := Iff.rfl
  rw [wp_bind, wp_get, wp_bind, Barista.locking, wp_zoom, hfile, hlocks]
  refine wp_hasExclusiveLock_record (fun _ => trivial) fun h₀ r hr => ?_
  rw [hheld] at hr
  have hw₂ : Unmoved w { w₁ with fileLocks := w.fileLocks } :=
    ⟨hw₁.metaLock, hw₁.routing, hw₁.persistent, hw₁.fileCursors⟩
  generalize ({ w₁ with fileLocks := w.fileLocks } : World) = w₂ at hw₂ ⊢
  have hstat : w.persistent.metadata.lookup (w.volatile.getFileInfo (fdKey fd)).fileId =
      w.persistent.metadata.lookup (w.fileAt fd) := rfl
  unfold writeRefusal at hemit hdispatch
  by_cases hmay : HoldsExclusive (w.fileLocks.record (w.volatile.getFileInfo (fdKey fd)).fileId) client
  · have hpos : ¬ r ≤ 0 := not_le.mpr (hr.mpr hmay)
    simp only [not_true_eq_false, if_false, hmay, hpos, hstat] at hemit hdispatch ⊢
    rw [wp_bind, wp_decafsFileStat (hw₂.metaLock.trans hlock), if_neg h₀, hw₂.persistent]
    cases hinfo : w.persistent.metadata.lookup (w.fileAt fd) with
    | none =>
      rw [hinfo] at hemit
      exact hemit _ _ _ hw₂ rfl
    | some info =>
      rw [hinfo] at hemit hdispatch
      simp only [wp_bind, wp_get, hw₂.getFileCursor]
      by_cases hneg : w.volatile.getFileCursor (fdKey fd) < 0
      · rw [if_pos hneg] at hemit ⊢
        exact hemit _ _ _ hw₂ rfl
      · obtain ⟨offset, hoffset⟩ := Int.eq_ofNat_of_zero_le (not_lt.mp hneg)
        by_cases hzero : count = 0
        · rw [if_neg hneg, if_pos hzero] at hemit ⊢
          exact hemit _ _ _ hw₂ rfl
        · rw [if_neg hneg, if_neg hzero] at hdispatch ⊢
          rw [hoffset]
          exact hdispatch ⟨id, id'⟩ info _ hw₂ rfl rfl offset hoffset
  · have hneg : r ≤ 0 := not_lt.mp fun hpos => hmay (hr.mp hpos)
    simp only [hmay, not_false_eq_true, if_true, hneg] at hemit ⊢
    exact hemit _ _ _ hw₂ rfl

/-- **`write_file`** keeps what its dispatch keeps. -/
theorem writeFile (h : Enduring I) (hw : I w) (fd : ℤ) (buf : List UInt8) (count : ℤ)
    (hdispatch : ∀ q info w', Unmoved w w' → I w' →
      w.persistent.metadata.lookup (w.fileAt fd) = some info → ∀ offset : ℕ,
      w.volatile.getFileCursor (fdKey fd) = offset →
      wp (Barista.dispatchWrite R q fd (w.fileAt fd) (PersistentMetadata.toStat info) offset buf count
        client) (fun _ w' => I w') (fun _ => True) w') :
    wp (Barista.writeFile R fd buf count client) (fun _ w' => I w') (fun _ => True) w :=
  wp_writeFile_unmoved (h.unlocked w hw) fd buf count (fun _ _ _ hw' => h.unmoved hw' hw)
    fun q info w' hw' _ hinfo => hdispatch q info w' hw' (h.unmoved hw' hw) hinfo

/-- **`delete_file`** keeps what its dispatch keeps. -/
theorem deleteFile (h : Enduring I) (hw : I w) (path : String)
    (hdispatch : ∀ id info w', Unmoved w w' → I w' → w.persistent.fileOf path = some info →
      wp (Barista.dispatchDelete R id info.fileId client) (fun _ w' => I w') (fun _ => True) w') :
    wp (Barista.deleteFile R path client) (fun _ w' => I w') (fun _ => True) w := by
  have hlock := h.unlocked w hw
  refine wp_bind_unmoved keeps_unmoved_getNewRequestId ⟨rfl, rfl, rfl, rfl⟩ fun id w₁ hw₁ => ?_
  rw [wp_bind, wp_decafsFileSstat (hw₁.metaLock.trans hlock)]
  split
  · trivial
  · unfold PersistentMetadata.fileOf at hdispatch
    rw [hw₁.persistent]
    cases hinfo : (w.persistent.pathnameToFileId.lookup path).bind w.persistent.metadata.lookup with
    | none => exact h.emit rfl w₁ (h.unmoved hw₁ hw)
    | some info =>
      refine wp_bind_unmoved (keeps_unmoved_locking _) hw₁ fun lock w₂ hw₂ => ?_
      split
      · exact h.emit rfl w₂ (h.unmoved hw₂ hw)
      · exact hdispatch id info w₂ hw₂ (h.unmoved hw₂ hw) hinfo

end Calls

end Enduring

namespace Upkeep

variable {R : Runtime} {I : World → Prop} {α : Type}

theorem setFileCursor (h : Upkeep R I) (fd offset : ℤ) (client : Client) :
    (Barista.setFileCursor R fd offset client).Keeps I := fun w hw =>
  wp_setFileCursor (h.unlocked w hw) (fun _ => trivial) fun _ => h.moved w fd offset client hw

/-- The loop of `read_file`. -/
theorem readStripes (h : Upkeep R I) {id fileId n : ℕ} {stat : DecafsFileStat} (hn : n ≤ intMax)
    (fd : ℤ) (client : Client) (fuel : ℕ) :
    ∀ (stripeId offset done numChunks : ℕ), offset ≤ stat.stripeSize.val → done ≤ n →
      (∀ p ∈ pieces stat.stripeSize.val stripeId offset (n - done), (processReadStripe R id fileId p.id
        stat.stripeSize.val stat.chunkSize.val p.offset p.length).Keeps I) →
      (Barista.readStripes R id fd fileId stat n client fuel stripeId offset done numChunks).Keeps I := by
  have hmin := stat.stripeSize.min_le
  have hint : toInt32 n = n := toInt32_eq (by omega) hn
  induction fuel with
  | zero => exact fun _ _ _ _ _ _ _ => keeps_throw _
  | succ fuel ih =>
    intro stripeId offset done numChunks hoffset hdone hstripe
    unfold Barista.readStripes
    rw [hint]
    by_cases hlt : (done : ℤ) < n
    · generalize hlen : min (n - done) (stat.stripeSize.val - offset) = len
      rw [pieces_of_pos (by omega) (by omega), hlen, Nat.sub_sub, List.forall_mem_cons] at hstripe
      have hsize : toInt32 (splitSize n done stat.stripeSize.val offset) = len := by
        rw [splitSize_eq hdone hn hoffset stat.stripeSize.le_max, hlen, toInt32_eq] <;>
          unfold intMax at * <;> omega
      have hsize' : toUInt64 len = len := by
        rw [toUInt64_eq] <;> unfold intMax at hn <;> omega
      rw [if_pos hlt]
      simp only [hsize, hsize']
      exact .bind (h.emit rfl) fun _ => .bind hstripe.1 fun sent => .bind keeps_get fun _ =>
        .bind (h.setFileCursor _ _ _) fun _ =>
        ih (stripeId + 1) 0 (done + len) (numChunks + sent) (Nat.zero_le _) (by omega) hstripe.2
    · rw [if_neg hlt]
      exact keeps_pure _

theorem dispatchRead (h : Upkeep R I) {id fileId offset : ℕ} {stat : DecafsFileStat} {c : ℤ}
    (hstripe : ∀ p ∈ segment stat offset (toInt32 c).toNat, (processReadStripe R id fileId p.id
      stat.stripeSize.val stat.chunkSize.val p.offset p.length).Keeps I) (fd : ℤ) (client : Client) :
    (Barista.dispatchRead R id fd fileId stat offset (sizeArgument c) client).Keeps I := by
  have hmin := stat.stripeSize.min_le
  have hloop : (Barista.readStripes R id fd fileId stat (sizeArgument c) client
      ((toInt32 (sizeArgument c)).toNat + 2) (firstBlock stat.stripeSize.val offset)
      (firstOffset stat.stripeSize.val offset) 0 0).Keeps I := by
    rw [toInt32_sizeArgument]
    by_cases hpos : 0 < toInt32 c
    · obtain ⟨hcount, hn⟩ := sizeArgument_eq hpos
      rw [hcount]
      exact h.readStripes hn fd client _ _ _ 0 0 (firstOffset_le (by omega)) (Nat.zero_le _) hstripe
    · have hstop : ¬ ((0 : ℤ) < toInt32 (sizeArgument c)) := by rwa [toInt32_sizeArgument]
      rw [Barista.readStripes, if_neg hstop]
      exact keeps_pure _
  refine .bind (h.requests _) fun _ => .bind (h.emit rfl) fun _ => ?_
  rw [getFirstStripe_eq]
  exact .bind hloop fun _ => .bind keeps_get fun _ => .bind (Enduring.assert _ _) fun _ =>
    .bind (h.requests _) fun _ => h.checkReadComplete _

end Upkeep

end DecaFS
