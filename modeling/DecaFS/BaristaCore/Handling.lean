import DecaFS.BaristaCore.Opening

/-!
# What the server does with a message

`read_file`, `write_file` and `delete_file` put together from their stages (`ReadServed`,
`WriteServed`, `DeleteServed`), and `Handled`, what any message does to the books, to who holds
what and to the requests that are active.
-/

namespace DecaFS

open Desk Code Barista FileLocks Custody

/-- The file of a descriptor. -/
def World.fileAt (w : World) (fd : ℤ) : ℕ := (w.volatile.getFileInfo (fdKey fd)).fileId

/-- The stripe calls for a request of `count` bytes at the cursor of `fd`. -/
def segmentAt (info : PersistentMetadataInfo) (fd count : ℤ) (w : World) : List Piece :=
  segment (PersistentMetadata.toStat info) (w.volatile.getFileCursor (fdKey fd)).toNat
    (toInt32 count).toNat

/-- The spans that a read sends for. -/
def readSpans (R : Runtime) (info : PersistentMetadataInfo) (fd count : ℤ) (w : World) : List Span :=
  readableSpans R w.chunks (w.fileAt fd) info.chunkSize.val (segmentAt info fd count w)

/-- The spans that a write sends. -/
def writeSpans (info : PersistentMetadataInfo) (fd count : ℤ) (w : World) : List Span :=
  callSpans info.chunkSize.val (segmentAt info fd count w)

/-- A read that passes its checks. -/
structure ReadServed (R : Runtime) (fd count : ℤ) (client : Client) (info : PersistentMetadataInfo)
    (used : List SendOutcome) (sent : List (ℤ × ChunkRequest)) (w w₂ w' : World) : Prop where
  file : w.persistent.metadata.lookup (w.fileAt fd) = some info
  may : MayRead w client (w.fileAt fd)
  fetched : Fetched R (w.volatile.requestId + 1) (w.fileAt fd) (readSpans R info fd count w) used sent
    (readRegistered fd (w.fileAt fd) client w) w₂
  swept : Swept R false fd (w.fileAt fd) client (segmentAt info fd count w)
    (readRegistered fd (w.fileAt fd) client w) w₂
  finished : Finished R (.read (w.volatile.requestId + 1)) sent.length w₂ w'

/-- Why a read does not return. -/
def ReadHalts (R : Runtime) (fd count : ℤ) (client : Client) (w : World) (e : Halt Site) : Prop :=
  e = .assertion .readFd ∧ ¬ fd > 0 ∨ e = .assertion .lockUser ∧ client.userId = 0 ∨
    ∃ info, w.persistent.metadata.lookup (w.fileAt fd) = some info ∧
      ReadStops R (w.fileAt fd) (readSpans R info fd count w) w e

/-- A write that passes its checks. -/
structure WriteServed (R : Runtime) (fd : ℤ) (buf : List UInt8) (count : ℤ) (client : Client)
    (info : PersistentMetadataInfo) (used : List SendOutcome) (sent : List (ℤ × ChunkRequest))
    (w w₂ w' : World) : Prop where
  file : w.persistent.metadata.lookup (w.fileAt fd) = some info
  may : HoldsExclusive (w.fileLocks.record (w.fileAt fd)) client
  stored : Stored R (nextWrite w) (w.fileAt fd) (portions (writeSpans info fd count w) buf) used sent
    (writeRegistered fd (w.fileAt fd) client w) w₂
  swept : Swept R true fd (w.fileAt fd) client (segmentAt info fd count w)
    (writeRegistered fd (w.fileAt fd) client w) w₂
  finished : Finished R (.write (nextWrite w)) (writeSpans info fd count w).length w₂ w'

/-- Why a write does not return. -/
def WriteHalts (fd : ℤ) (buf : List UInt8) (count : ℤ) (client : Client) (w : World)
    (e : Halt Site) : Prop :=
  e = .assertion .writeFd ∧ ¬ fd > 0 ∨ e = .assertion .lockUser ∧ client.userId = 0 ∨
    ∃ info, w.persistent.metadata.lookup (w.fileAt fd) = some info ∧
      WriteStops (portions (writeSpans info fd count w) buf) w e

/-- A delete that passes its checks. -/
structure DeleteServed (R : Runtime) (path : String) (client : Client) (info : PersistentMetadataInfo)
    (locks : FileLocks) (used : List SendOutcome) (sent : List (ℤ × ChunkRequest))
    (w w₂ w' : World) : Prop where
  user : client.userId ≠ 0
  file : w.persistent.fileOf path = some info
  free : (w.fileLocks.record info.fileId).ownerUid = 0
  locks_eq : locks.record = Function.update w.fileLocks.record info.fileId
    ((w.fileLocks.record info.fileId).withExclusive client)
  removed : Removed R (w.volatile.requestId + 1)
    (∀ chunk ∈ getAllChunks w.chunks info.fileId, ¬ Deletable R w chunk) used sent
    (deleteRegistered info.fileId client locks w) w₂
  finished : Finished R (.delete (w.volatile.requestId + 1)) used.length w₂ w'

section Served

variable {R : Runtime} {w w' : World} {fd count : ℤ} {client : Client} {buf : List UInt8}
  {path : String}

/-- **`read_file`** -/
theorem wp_readFile_served (fd count : ℤ) (client : Client) (h : Booked none w)
    (hid : w.volatile.requestId + 1 < 4294967296) :
    wp (readFile R fd (sizeArgument count) client)
      (fun _ w' => (fd > 0 ∧ client.userId ≠ 0 ∧ ∃ reply,
          readRefusal fd (sizeArgument count) client w = some reply ∧ w' = logged (.replied (.read (w.volatile.requestId + 1)) client reply)
            (issuedUpTo (w.volatile.requestId + 1) w)) ∨
        readRefusal fd (sizeArgument count) client w = none ∧
          ∃ info used sent w₂, ReadServed R fd count client info used sent w w₂ w')
      (ReadHalts R fd count client w) w := by
  refine wp_readFile h.unlocked hid (fun hfd => .inl ⟨rfl, hfd⟩) (fun h₀ => .inr (.inl ⟨rfl, h₀⟩))
    (fun hpos h₀ reply hreply => .inl ⟨hpos, h₀, reply, hreply, rfl⟩) ?_
  intro h₀ hpass info hinfo hmay hcursor
  have hoffset := Int.toNat_of_nonneg hcursor
  have hdispatch := wp_dispatchRead (R := R) (f := w.fileAt fd) fd h h₀
    (PersistentMetadata.toStat info) (w.volatile.getFileCursor (fdKey fd)).toNat count
  rw [hoffset] at hdispatch
  refine wp_mono hdispatch (fun _ w' hw' => ?_) fun e he => .inr (.inr ⟨info, hinfo, he⟩)
  obtain ⟨w₂, used, sent, hfetched, hswept, hfinished⟩ := hw'
  exact .inr ⟨hpass, info, used, sent, w₂, hinfo, hmay, hfetched, hswept, hfinished⟩

/-- **`write_file`** -/
theorem wp_writeFile_served (fd count : ℤ) (buf : List UInt8) (client : Client)
    (h : Booked none w) (hid : w.volatile.requestId + 2 < 4294967296) :
    wp (writeFile R fd buf (sizeArgument count) client)
      (fun _ w' => (fd > 0 ∧ client.userId ≠ 0 ∧ ∃ reply,
          writeRefusal fd (sizeArgument count) client w = some reply ∧ w' = logged (.replied (.write (nextWrite w)) client reply)
            (issuedUpTo (w.volatile.requestId + 2) w)) ∨
        writeRefusal fd (sizeArgument count) client w = none ∧
          ∃ info used sent w₂, WriteServed R fd buf count client info used sent w w₂ w')
      (WriteHalts fd buf count client w) w := by
  refine wp_writeFile h.unlocked hid (fun hfd => .inl ⟨rfl, hfd⟩) (fun h₀ => .inr (.inl ⟨rfl, h₀⟩))
    (fun hpos h₀ reply hreply => .inl ⟨hpos, h₀, reply, hreply, rfl⟩) ?_
  intro h₀ hpass info hinfo hmay hcursor
  have hoffset := Int.toNat_of_nonneg hcursor
  have hdispatch := wp_dispatchWrite (R := R) (f := w.fileAt fd) fd h h₀
    (PersistentMetadata.toStat info) (w.volatile.getFileCursor (fdKey fd)).toNat buf count
  rw [hoffset] at hdispatch
  refine wp_mono hdispatch (fun _ w' hw' => ?_) fun e he => .inr (.inr ⟨info, hinfo, he⟩)
  obtain ⟨w₂, used, sent, hstored, hswept, hfinished⟩ := hw'
  exact .inr ⟨hpass, info, used, sent, w₂, hinfo, hmay, hstored, hswept, hfinished⟩

/-- **`delete_file`** -/
theorem wp_deleteFile_served (path : String) (client : Client) (h : Booked none w)
    (hid : w.volatile.requestId + 1 < 4294967296) :
    wp (deleteFile R path client)
      (fun _ w' => (client.userId ≠ 0 ∧ (∀ info, w.persistent.fileOf path = some info →
          (w.fileLocks.record info.fileId).ownerUid ≠ 0) ∧ ∃ result, ∃ locks : FileLocks,
          locks.record = w.fileLocks.record ∧
          w' = logged (.replied (.delete (w.volatile.requestId + 1)) client (.removeResult result))
            { issuedUpTo (w.volatile.requestId + 1) w with fileLocks := locks }) ∨
        ∃ info locks used sent w₂, DeleteServed R path client info locks used sent w w₂ w')
      (fun e => e = .assertion .lockUser ∧ client.userId = 0 ∨ e = .noReturn) w := by
  refine wp_deleteFile h.unlocked hid (fun h₀ => .inl ⟨rfl, h₀⟩)
    (fun h₀ result locks hlocks hnone => .inl ⟨h₀, hnone, result, locks, hlocks, rfl⟩) ?_
  intro h₀ info hinfo hfree locks hlocks
  refine wp_mono (wp_dispatchDelete (f := info.fileId) h h₀ locks) (fun _ w' hw' => ?_) fun _ => .inr
  obtain ⟨w₂, used, sent, hremoved, hfinished⟩ := hw'
  exact .inr ⟨info, locks, used, sent, w₂, h₀, hinfo, hfree, hlocks, hremoved, hfinished⟩

end Served

/-! ### Any message -/

/-- How many request ids a message takes. -/
def Barista.Input.ids : Input → ℕ
  | .readFile .. | .deleteFile .. => 1
  | .writeFile .. => 2
  | _ => 0

/-- How many file ids a message takes at most. -/
def Barista.Input.files : Input → ℕ
  | .openFile .. => 1
  | _ => 0

/-- With which moves the handling of a message begins. -/
inductive Begins (w : World) : Input → List Move → Prop
  | nothing {i : Input} : Begins w i []
  | openFile {path : String} {flags : ℕ} {client : Client} {ms : List Move}
      (opens : Opens w path flags client ms) : Begins w (.openFile path flags client) ms
  | readFile {fd count : ℤ} {client : Client} {script : List SendOutcome} :
      Begins w (.readFile fd count client script)
        [.accept (.read (w.volatile.requestId + 1)) client (w.fileAt fd)]
  | writeFile {fd count : ℤ} {buf : List UInt8} {client : Client} {script : List SendOutcome} :
      Begins w (.writeFile fd buf count client script)
        [.accept (.write (nextWrite w)) client (w.fileAt fd)]
  | closeFile {fd : ℤ} {client : Client} {inst : FileInstance}
      (file : w.volatile.fileCursors.lookup (fdKey fd) = some inst) (owner : inst.clientId = client) :
      Begins w (.closeFile fd client) [.closeFd (fdKey fd)]
  | deleteFile {path : String} {client : Client} {script : List SendOutcome}
      {info : PersistentMetadataInfo} (file : w.persistent.fileOf path = some info) :
      Begins w (.deleteFile path client script)
        [.acceptDelete (w.volatile.requestId + 1) client info.fileId]

/-- The deletes stay as they are or are done with their files. -/
def DeletesKept (w w' : World) : Prop :=
  ∀ id a, w.requests.activeDeleteRequests.lookup id = some a →
    (∃ a', w'.requests.activeDeleteRequests.lookup id = some a' ∧ a'.client = a.client ∧
      a'.fileId = a.fileId) ∨ Gone a.client a.fileId w'

/-- What handling a message does. -/
structure Handled (i : Input) (w w' : World) : Prop where
  booked : Booked none w'
  reaches : Reaches Operation.tags Tag.id (desk none w) (desk none w')
  requestId : w'.volatile.requestId = w.volatile.requestId + i.ids
  moves : ∃ ms ends, Begins w i ms ∧ Steps Custody.Step (custody w) (ms ++ ends) (custody w') ∧
    ∀ m ∈ ends, m.Ends
  answers : Answering w w'
  deletes : w.persistent.Consistent → w.persistent.lastFileId + i.files < 4294967296 →
    w'.persistent.Consistent ∧ w'.persistent.lastFileId ≤ w.persistent.lastFileId + i.files ∧
      DeletesKept w w'

section Handled

variable {R : Runtime} {w w₁ w₂ w' : World} {i : Input} {op : Operation} {client : Client} {f : ℕ}

theorem Requests.holder_eq_none_iff {r : Requests} : r.holder op = none ↔ ¬ r.Active op := by
  cases op <;> simp [holder, Active, ← Finmap.lookup_isSome]

/-- A request whose ids were not given out yet is not active. -/
theorem Booked.holder_eq_none (h : Booked none w)
    (hids : ∀ t ∈ op.tags, w.volatile.requestId < t.id) : w.requests.holder op = none := by
  rw [Requests.holder_eq_none_iff]
  intro hop
  obtain ⟨t, ht⟩ : ∃ t, t ∈ op.tags := by cases op <;> simp [Operation.tags]
  have hissued := h.issued op (h.inv.mentions_of_active hop) t ht
  exact absurd (hids t ht) (not_lt.mpr hissued)

theorem Answering.register (hnone : w.requests.holder op = none)
    (hlog : w'.network.log = .registered op :: w.network.log)
    (hr : w'.requests.holder = Function.update w.requests.holder op (some (client, f))) :
    Answering w w' := by
  refine ⟨[.registered op], hlog, fun op' c f' hop' => .inl ?_⟩
  have hne : op' ≠ op := by
    rintro rfl
    simp [hnone] at hop'
  rw [hr, Function.update_of_ne hne, hop']

theorem DeletesKept.of_eq
    (hd : w'.requests.activeDeleteRequests = w.requests.activeDeleteRequests) : DeletesKept w w' :=
  fun _ a ha => .inl ⟨a, hd ▸ ha, rfl, rfl⟩

/-- A message that is about no active delete. -/
theorem Deleting.handled (h : Deleting w w') (hc : w.persistent.Consistent) (n : ℕ) :
    w'.persistent.Consistent ∧ w'.persistent.lastFileId ≤ w.persistent.lastFileId + n ∧
      DeletesKept w w' :=
  ⟨h.consistent hc, h.lastFileId.trans (Nat.le_add_right _ _), h.kept hc⟩

/-- A request that is refused. -/
theorem Handled.refuse {reply : Reply} (locks : FileLocks) {n : ℕ} (h : Booked none w)
    (hfresh : Fresh Operation.tags Tag.id (desk none w) op)
    (hids : ∀ t ∈ op.tags, t.id ≤ n) (hn : n = w.volatile.requestId + i.ids)
    (hlocks : locks.record = w.fileLocks.record) :
    Handled i w (logged (.replied op client reply) { issuedUpTo n w with fileLocks := locks }) := by
  obtain ⟨hbooked, hstep⟩ := h.refuse (logged (.replied op client reply)
    { issuedUpTo n w with fileLocks := locks }) hfresh rfl rfl rfl rfl
    (by simp [logged, issuedUpTo, hn]) hids
  refine ⟨hbooked, .single hstep, hn, ⟨[], [], .nothing, ?_, by simp⟩, .of_eq [_] rfl rfl, ?_⟩
  · rw [List.append_nil, Steps.nil_iff]
    exact Custody.ext rfl hlocks.symm rfl rfl
  · intro hc _
    exact ⟨hc, Nat.le_add_right _ _, .of_eq rfl⟩

/-- A request that is taken and its packets sent. -/
theorem Handled.serve {m : Move} {used : List SendOutcome} {sent : List (ℤ × ChunkRequest)} {n : ℕ}
    (hopen : Desk.Step Operation.tags Tag.id (desk none w) (.openOp op) (desk (some op) w₁))
    (hnone : w.requests.holder op = none)
    (hholder : w₁.requests.holder = Function.update w.requests.holder op (some (client, f)))
    (hlog : w₁.network.log = .registered op :: w.network.log)
    (hid : w₁.volatile.requestId = w.volatile.requestId + i.ids)
    (hbegins : Begins w i [m]) (hmove : Custody.Step (custody w) m (custody w₁))
    (hp : w₁.persistent = w.persistent)
    (hkept : ∀ id a, w.requests.activeDeleteRequests.lookup id = some a →
      w₁.requests.activeDeleteRequests.lookup id = some a)
    (hsending : Sending R op used sent w₁ w₂) (hfinished : Finished R op n w₂ w') :
    Handled i w w' := by
  have hdeleting := hsending.deletes.trans hfinished.deletes
  refine ⟨hfinished.booked, ?_, ?_, ?_, ?_, fun hc _ => ?_⟩
  · exact (Reaches.single hopen).trans (hsending.reaches.trans (.single hfinished.step))
  · rw [hfinished.volatile, hsending.requestId, hid]
  · obtain ⟨ends, hends, hall⟩ := hsending.custody.trans hfinished.custody
    exact ⟨[m], ends, hbegins, .cons hmove hends, hall⟩
  · exact (Answering.register hnone hlog hholder).trans (hsending.answers.trans hfinished.answers)
  · obtain ⟨hc', hle, hkept'⟩ := hdeleting.handled (hp ▸ hc) i.files
    exact ⟨hc', hp ▸ hle, fun id a ha => hkept' id a (hkept id a ha)⟩

/-- A message that only answers its sender. -/
theorem Told.handled {ms : List Move} (h : Booked none w) (htold : Told client w w')
    (hi : i.ids = 0) (hbegins : Begins w i ms)
    (hmoves : Steps Custody.Step (custody w) ms (custody w'))
    (hdeletes : w.persistent.Consistent → w.persistent.lastFileId + i.files < 4294967296 →
      w'.persistent.Consistent ∧ w'.persistent.lastFileId ≤ w.persistent.lastFileId + i.files) :
    Handled i w w' := by
  obtain ⟨reply, hlog⟩ := htold.log
  have hdesk : desk none w' = desk none w := by
    simp only [desk, htold.requests, htold.inFlight, hlog, ledger_told]
  refine ⟨⟨hdesk ▸ h.inv, htold.requests ▸ h.paired, htold.requests ▸ h.named, ?_,
    htold.metaLock.trans h.unlocked⟩, hdesk ▸ .refl, by rw [htold.requestId, hi, Nat.add_zero],
    ⟨ms, [], hbegins, by rwa [List.append_nil], by simp⟩, .of_eq [_] hlog (by rw [htold.requests]),
    fun hc hroom => ?_⟩
  · rw [hlog, ledger_told, htold.requestId]
    exact h.issued
  · obtain ⟨hc', hle⟩ := hdeletes hc hroom
    exact ⟨hc', hle, .of_eq (by rw [htold.requests])⟩

/-- A message that the request tables do not see. -/
theorem Handled.of_unseen (h : Booked none w) (hs : Unseen w w') (hi : i.ids = 0)
    (hcustody : custody w' = custody w) (hp : w'.persistent = w.persistent) : Handled i w w' := by
  have hdesk : desk none w' = desk none w := by
    simp only [desk, hs.requests, hs.network]
  refine ⟨⟨hdesk ▸ h.inv, hs.requests ▸ h.paired, hs.requests ▸ h.named, ?_,
    hs.metaLock.trans h.unlocked⟩, hdesk ▸ .refl, by rw [hs.requestId, hi, Nat.add_zero],
    ⟨[], [], .nothing, Steps.nil_iff.mpr hcustody.symm, by simp⟩,
    .of_eq [] (by rw [hs.network, List.nil_append]) (by rw [hs.requests]),
    fun hc _ => ⟨hp ▸ hc, hp ▸ Nat.le_add_right _ _, .of_eq (by rw [hs.requests])⟩⟩
  rw [hs.network, hs.requestId]
  exact h.issued

/-! ### Message by message -/

/-- The state in which the network behaves as `script`. -/
def withScript (script : List SendOutcome) (w : World) : World :=
  { w with network := { w.network with script := script } }

theorem wp_scripted {script : List SendOutcome} {m : Barista PUnit} {Q : PUnit → World → Prop}
    {E : Halt Site → Prop} : wp (scripted script m) Q E w ↔ wp m Q E (withScript script w) := by
  simp only [scripted, network, wp_bind, wp_zoom, wp_modify]
  rfl

theorem Booked.withScript (h : Booked none w) (script : List SendOutcome) :
    Booked none (withScript script w) :=
  ⟨h.inv, h.paired, h.named, h.issued, h.unlocked⟩

theorem Begins.of_withScript {script : List SendOutcome} {ms : List Move}
    (h : Begins (DecaFS.withScript script w) i ms) : Begins w i ms := by
  cases h with
  | nothing => exact .nothing
  | openFile opens =>
    refine .openFile ?_
    cases opens with
    | refused => exact .refused
    | existing file => exact .existing file
    | created file writes => exact .created file writes
    | createdOpened file writes => exact .createdOpened file writes
    | bogus file writes error => exact .bogus file writes error
  | readFile => exact .readFile
  | writeFile => exact .writeFile
  | closeFile file owner => exact .closeFile file owner
  | deleteFile file => exact .deleteFile file

theorem Handled.of_withScript (script : List SendOutcome)
    (h : Handled i (DecaFS.withScript script w) w') : Handled i w w' := by
  obtain ⟨ms, ends, hbegins, hmoves⟩ := h.moves
  exact ⟨h.booked, h.reaches, h.requestId, ⟨ms, ends, hbegins.of_withScript, hmoves⟩, h.answers,
    h.deletes⟩

theorem ReadServed.handled {fd count : ℤ} {script : List SendOutcome} {info : PersistentMetadataInfo}
    {used : List SendOutcome} {sent : List (ℤ × ChunkRequest)} (h : Booked none w)
    (hs : ReadServed R fd count client info used sent w w₂ w') :
    Handled (.readFile fd count client script) w w' := by
  have hnone : w.requests.holder (.read (w.volatile.requestId + 1)) = none :=
    h.holder_eq_none (by simp [Operation.tags])
  have hcustody : custody (readRegistered fd (w.fileAt fd) client w) = { custody w with
      active := Function.update (custody w).active (.read (w.volatile.requestId + 1))
        (some (client, w.fileAt fd)) } :=
    Custody.ext (Requests.holder_setRead _) rfl rfl rfl
  have hmove : Custody.Step (custody w)
    (.accept (.read (w.volatile.requestId + 1)) client (w.fileAt fd)) _ := .accept
    (Finmap.mem_of_lookup_eq_some hs.file) hs.may hnone
  rw [← hcustody] at hmove
  exact Handled.serve (h.registerRead _ _ _).2 hnone (Requests.holder_setRead _) rfl rfl .readFile hmove
    rfl (fun _ _ ha => ha) hs.fetched.toSending hs.finished

theorem WriteServed.handled {fd count : ℤ} {buf : List UInt8} {script : List SendOutcome}
    {info : PersistentMetadataInfo} {used : List SendOutcome} {sent : List (ℤ × ChunkRequest)}
    (h : Booked none w) (hs : WriteServed R fd buf count client info used sent w w₂ w') :
    Handled (.writeFile fd buf count client script) w w' := by
  have hnone : w.requests.holder (.write (nextWrite w)) = none :=
    h.holder_eq_none (by simp [Operation.tags, nextWrite])
  have hholder : (writeRegistered fd (w.fileAt fd) client w).requests.holder =
      Function.update w.requests.holder (.write (nextWrite w)) (some (client, w.fileAt fd)) :=
    (Requests.holder_addWrite _).trans (Requests.holder_setWrite _)
  have hcustody : custody (writeRegistered fd (w.fileAt fd) client w) = { custody w with
      active := Function.update (custody w).active (.write (nextWrite w))
        (some (client, w.fileAt fd)) } :=
    Custody.ext hholder rfl rfl rfl
  have hmove : Custody.Step (custody w) (.accept (.write (nextWrite w)) client (w.fileAt fd)) _ := .accept
    (Finmap.mem_of_lookup_eq_some hs.file) hs.may hnone
  rw [← hcustody] at hmove
  exact Handled.serve (h.registerWrite _ _ _).2 hnone hholder rfl rfl .writeFile hmove
    rfl (fun _ _ ha => ha) hs.stored.toSending hs.finished

theorem DeleteServed.handled {path : String} {script : List SendOutcome}
    {info : PersistentMetadataInfo} {locks : FileLocks} {used : List SendOutcome}
    {sent : List (ℤ × ChunkRequest)} (h : Booked none w)
    (hs : DeleteServed R path client info locks used sent w w₂ w') :
    Handled (.deleteFile path client script) w w' := by
  have hnone : w.requests.holder (.delete (w.volatile.requestId + 1)) = none :=
    h.holder_eq_none (by simp [Operation.tags])
  have hcustody : custody (deleteRegistered info.fileId client locks w) = { custody w with
      active := Function.update (custody w).active (.delete (w.volatile.requestId + 1))
        (some (client, info.fileId))
      lock := Function.update (custody w).lock info.fileId
        (((custody w).lock info.fileId).withExclusive client) } :=
    Custody.ext (Requests.holder_setDelete _) hs.locks_eq rfl rfl
  have hmove : Custody.Step (custody w)
    (.acceptDelete (w.volatile.requestId + 1) client info.fileId) _ := .acceptDelete hs.user hs.free hnone
  rw [← hcustody] at hmove
  refine Handled.serve (h.registerDelete hs.user _ locks).2 hnone (Requests.holder_setDelete _) rfl
    rfl (.deleteFile hs.file) hmove rfl (fun id a ha => ?_) hs.removed.toSending hs.finished
  have hne : id ≠ w.volatile.requestId + 1 := by
    rintro rfl
    simp [Requests.holder, ha] at hnone
  simp only [deleteRegistered, logged, Requests.setDelete, Finmap.lookup_insert_of_ne _ hne, ha]

/-- **Whatever the server is sent**, the books are kept and no assertion about them fails. -/
theorem wp_handle (i : Input) (h : Booked none w) (hclear : (custody w).Clear)
    (hid : w.volatile.requestId + i.ids < 4294967296) :
    wp (handle R i) (fun _ w' => Handled i w w') Halt.Harmless w := by
  cases i with
  | openFile path flags client =>
    refine wp_mono (wp_openFile (E := Halt.Harmless) h.unlocked hclear fun _ => id)
      (fun _ w' hw' => ?_) fun _ he => he
    obtain ⟨htold, hfiles, ms, hopens, hmoves⟩ := hw'
    refine htold.handled h rfl (.openFile hopens) hmoves fun hc hroom => ?_
    rcases hfiles with hp | ⟨-, time, hp⟩
    · rw [hp]
      exact ⟨hc, Nat.le_add_right _ _⟩
    · rw [hp]
      obtain ⟨hc', hlast⟩ := hc.added hroom path w.volatile.stripeSize w.volatile.chunkSize
        w.volatile.chunkSize.val time
      exact ⟨hc', hlast.le⟩
  | readFile fd count client script =>
    have hw := h.withScript script
    refine wp_scripted.mpr (wp_mono (wp_readFile_served _ _ _ hw hid) (fun _ w' hw' => ?_) fun e he => ?_)
    · rcases hw' with ⟨-, -, reply, -, rfl⟩ | ⟨-, info, used, sent, w₂, hs⟩
      · exact .of_withScript script (.refuse w.fileLocks hw
          (hw.fresh _ (by simp [Operation.tags]) (by simp [Operation.tags]))
          (by simp [Operation.tags, Barista.Input.ids]) rfl rfl)
      · exact (hs.handled hw).of_withScript script
    · rcases he with ⟨rfl, -⟩ | ⟨rfl, -⟩ | ⟨info, -, ⟨rfl, -⟩ | ⟨rfl, -⟩⟩
      all_goals simp [Halt.Harmless, Site.OfTables]
  | writeFile fd buf count client script =>
    have hw := h.withScript script
    refine wp_scripted.mpr (wp_mono (wp_writeFile_served _ _ _ _ hw hid) (fun _ w' hw' => ?_) fun e he => ?_)
    · rcases hw' with ⟨-, -, reply, -, rfl⟩ | ⟨-, info, used, sent, w₂, hs⟩
      · exact .of_withScript script (.refuse w.fileLocks hw
          (hw.fresh _ (by simp [Operation.tags, nextWrite]) (by simp [Operation.tags, nextWrite]))
          (by simp [Operation.tags, nextWrite, Barista.Input.ids]) rfl rfl)
      · exact (hs.handled hw).of_withScript script
    · rcases he with ⟨rfl, -⟩ | ⟨rfl, -⟩ | ⟨info, -, ⟨rfl, -⟩⟩
      all_goals simp [Halt.Harmless, Site.OfTables]
  | closeFile fd client =>
    have htold : ∀ (w' : World) (reply : Reply), w'.requests = w.requests →
        w'.network = w.network → w'.metaLock = w.metaLock →
        w'.volatile.requestId = w.volatile.requestId → Told client w (logged (.told client reply) w') :=
      fun _ reply hr hn hm hi => ⟨hr, by simp [logged, hn], ⟨reply, by simp [logged, hn]⟩, hm, hi⟩
    refine wp_closeFile (fun _ _ _ _ => id) (fun result _ _ _ => ?_) fun file hfile howner huser locks hlocks => ?_
    · exact (htold w _ rfl rfl rfl rfl).handled h rfl .nothing (.refl _)
        fun hc _ => ⟨hc, Nat.le_add_right _ _⟩
    · subst howner
      have hclosed := htold (withoutFd (fdKey fd) locks w) (.closeResult (toInt32 file.fileId)) rfl rfl
        rfl rfl
      exact hclosed.handled h rfl (.closeFile hfile rfl)
        (.single (custody_withoutFd hfile huser hlocks)) fun hc _ => ⟨hc, Nat.le_add_right _ _⟩
  | deleteFile path client script =>
    have hw := h.withScript script
    refine wp_scripted.mpr (wp_mono (wp_deleteFile_served _ _ hw hid) (fun _ w' hw' => ?_) fun e he => ?_)
    · rcases hw' with ⟨-, -, result, locks, hlocks, rfl⟩ | ⟨info, locks, used, sent, w₂, hs⟩
      · exact .of_withScript script (.refuse locks hw
          (hw.fresh _ (by simp [Operation.tags]) (by simp [Operation.tags])) (by simp [Operation.tags])
          rfl hlocks)
      · exact (hs.handled hw).of_withScript script
    · rcases he with ⟨rfl, -⟩ | rfl
      all_goals simp [Halt.Harmless, Site.OfTables]
  | fileSeek fd offset whence client =>
    have hunseen : Unseen w (sought R fd offset whence client w) :=
      sought_induction ⟨rfl, rfl, rfl, rfl⟩ fun _ _ h => ⟨h.requests, h.network, h.metaLock, h.requestId⟩
    have hcustody : custody (sought R fd offset whence client w) = custody w :=
      sought_induction (P := fun w' => custody w' = custody w) rfl fun _ _ h => custody_moved.trans h
    have hp : (sought R fd offset whence client w).persistent = w.persistent :=
      sought_induction (P := fun w' => w'.persistent = w.persistent) rfl fun _ _ h => h
    refine wp_fileSeek h.unlocked (fun _ => id) ?_
    have htold : Told client w (logged (.told client (.seekResult ((sought R fd offset whence client
        w).volatile.getFileCursor (fdKey fd)))) (sought R fd offset whence client w)) :=
      ⟨hunseen.requests, by simp only [logged, hunseen.network],
        ⟨_, congrArg (List.cons _) (congrArg Network.log hunseen.network)⟩, hunseen.metaLock, hunseen.requestId⟩
    refine htold.handled h rfl .nothing ?_ fun hc _ => ?_
    · exact Steps.nil_iff.mpr hcustody.symm
    · exact ⟨hp ▸ hc, hp ▸ Nat.le_add_right _ _⟩
  | response d =>
    refine wp_mono (wp_receive h d) (fun _ w' hw' => ?_) fun _ => False.elim
    obtain ⟨ends, hends, hall⟩ := hw'.custody
    exact ⟨hw'.booked, hw'.reaches, by rw [hw'.volatile]; rfl, ⟨[], ends, .nothing, hends, hall⟩,
      hw'.answers, fun hc _ => hw'.deletes.handled hc _⟩
  | nodeUp node =>
    simp only [handle, wp_bind, volatile, wp_zoom]
    refine VolatileMetadata.wp_setNodeUp fun _ => ?_
    obtain ⟨hid, hcursors⟩ := VolatileMetadata.up_keeps w.volatile node
    exact (wp_pure _).mpr (Handled.of_unseen h ⟨rfl, rfl, rfl, hid⟩ rfl
      (by simp only [custody, hcursors]) rfl)
  | nodeDown node =>
    simp only [handle, wp_bind, volatile, wp_zoom]
    refine VolatileMetadata.wp_setNodeDown fun _ => ?_
    exact (wp_pure _).mpr (Handled.of_unseen h ⟨rfl, rfl, rfl, rfl⟩ rfl rfl rfl)

end Handled

end DecaFS
