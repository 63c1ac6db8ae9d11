import DecaFS.BaristaCore.Runs

/-!
# Descriptors of other clients

What a call does with a descriptor that belongs to somebody else. The owner is compared with the
caller in `close_file_cursor` and `set_file_cursor`, but not in `get_file_cursor` and
`get_file_info`. `Denies` says that the caller gets an error, the same wherever the cursor of the
owner stands, and that nothing else happens.
-/

namespace DecaFS

open Code Barista FileLocks

/-- The result is an error, and comes without data. -/
def Reply.Negative : Reply → Prop
  | .readResult _ count buf => count < 0 ∧ buf = []
  | .writeResult _ count => count < 0
  | .removeResult result | .openResult result | .closeResult result | .seekResult result => result < 0

/-- The client gets an error. -/
def Event.Denies (client : Client) : Event → Prop
  | .replied _ c reply | .told c reply => c = client ∧ reply.Negative
  | _ => False

/-- The state with the cursor of `fd` at `offset`. -/
def World.withCursor (fd offset : ℕ) (w : World) : World :=
  { w with volatile := { w.volatile with
      fileCursors := match w.volatile.fileCursors.lookup fd with
        | some file => w.volatile.fileCursors.insert fd { file with offset := offset }
        | none => w.volatile.fileCursors } }

/-- The event is all that happens: nothing else is sent, and the cursors, the files and the locks
are as they were. -/
structure Untouched (event : Event) (w w' : World) : Prop where
  log : w'.network.log = event :: w.network.log
  inFlight : w'.network.inFlight = w.network.inFlight
  fileCursors : w'.volatile.fileCursors = w.volatile.fileCursors
  persistent : w'.persistent = w.persistent
  locks : w'.fileLocks.record = w.fileLocks.record

/-- The call is denied: its client gets an error and nothing else happens, and that is so, with the
same error, wherever the cursor of `fd` stands. -/
def Denies (R : Runtime) (i : Input) (fd : ℕ) (client : Client) (w : World) : Prop :=
  ∃ event, Event.Denies client event ∧ ∀ offset, ∃ w',
    step R (w.withCursor fd offset) i w' ∧ Untouched event (w.withCursor fd offset) w'

section

variable {R : Runtime} {w₀ w w' : World} {is : List Input} {fd count : ℤ} {client : Client}
  {file : FileInstance} {script : List SendOutcome} {offset : ℕ}

/-- Where the cursor stands is one of the places it may stand at. -/
theorem withCursor_self {fd : ℕ} (hfile : w.volatile.fileCursors.lookup fd = some file) :
    w.withCursor fd file.offset = w := by
  have hsame : w.volatile.fileCursors.insert fd file = w.volatile.fileCursors := by
    refine Finmap.ext_lookup fun fd' => ?_
    rcases eq_or_ne fd' fd with rfl | hne
    · rw [Finmap.lookup_insert, hfile]
    · rw [Finmap.lookup_insert_of_ne _ hne]
  simp only [World.withCursor, hfile, hsame]

theorem lookup_withCursor (offset : ℕ) {fd : ℕ} (hfile : w.volatile.fileCursors.lookup fd = some file) :
    (w.withCursor fd offset).volatile.fileCursors.lookup fd = some { file with offset := offset } := by
  simp only [World.withCursor, hfile, Finmap.lookup_insert]

theorem fileAt_withCursor (script : List SendOutcome) (offset : ℕ)
    (hfile : w.volatile.fileCursors.lookup (fdKey fd) = some file) :
    (withScript script (w.withCursor (fdKey fd) offset)).fileAt fd = file.fileId := by
  simp only [World.fileAt, withScript, VolatileMetadata.getFileInfo, lookup_withCursor _ hfile,
    Option.getD_some]

theorem getFileCursor_withCursor (hfile : w.volatile.fileCursors.lookup (fdKey fd) = some file) :
    (withScript script (w.withCursor (fdKey fd) offset)).volatile.getFileCursor (fdKey fd) =
      toInt32 offset := by
  simp only [withScript, VolatileMetadata.getFileCursor, lookup_withCursor _ hfile]

theorem Booked.withCursor (h : Booked none w) (fd offset : ℕ) : Booked none (w.withCursor fd offset) :=
  ⟨h.inv, h.paired, h.named, h.issued, h.unlocked⟩

/-- A call that registers its request is not denied. -/
theorem not_untouched_of_registered {op : Operation} {event : Event} (hdeny : event.Denies client)
    (hlog : ∃ new, w'.network.log = new ++ .registered op :: w.network.log) :
    ¬ Untouched event w w' := by
  intro h
  obtain ⟨new, hnew⟩ := hlog
  have hsame : [event] ++ w.network.log = new ++ [.registered op] ++ w.network.log := by
    rw [List.append_assoc]
    exact h.log.symm.trans hnew
  have hlast := List.append_cancel_right hsame
  obtain rfl : event = .registered op := by
    simpa using congrArg List.getLast? hlast
  exact hdeny

theorem denies_of_wp {event : Event} {i : Input} {fd : ℕ} (hdeny : event.Denies client)
    (hwp : ∀ offset, wp (handle R i) (fun _ w' => Untouched event (w.withCursor fd offset) w')
      (fun _ => False) (w.withCursor fd offset)) : Denies R i fd client w := by
  refine ⟨event, hdeny, fun offset => ?_⟩
  obtain ⟨_, w', hstep, huntouched⟩ := (hwp offset).exists_ok
  exact ⟨w', hstep, huntouched⟩

/-! ### Reading -/

theorem ReadServed.log {info : PersistentMetadataInfo} {used : List SendOutcome}
    {sent : List (ℤ × ChunkRequest)} {w₂ : World}
    (hs : ReadServed R fd count client info used sent w w₂ w') :
    ∃ new, w'.network.log = new ++ .registered (.read (w.volatile.requestId + 1)) :: w.network.log := by
  obtain ⟨new, hnew, -⟩ := (hs.fetched.answers.trans hs.finished.answers)
  exact ⟨new, hnew⟩

/-- What is answered to a reader that may not read the file. -/
theorem readRefusal_of_not (h : ¬ (MayRead w client (w.fileAt fd) ∧
    w.fileAt fd ∈ w.persistent.metadata)) : readRefusal fd count client w =
      some (.readResult 0 (if MayRead w client (w.fileAt fd) then unableToStatFile
        else fileNotOpenForRead) []) := by
  by_cases hmay : MayRead w client (w.fileAt fd)
  · have hnone : w.persistent.metadata.lookup (w.fileAt fd) = none :=
      Finmap.lookup_eq_none.mpr fun hmem => h ⟨hmay, hmem⟩
    unfold World.fileAt at hmay hnone
    simp only [readRefusal, hmay, not_true_eq_false, if_false, hnone, World.fileAt, if_true]
  · unfold World.fileAt at hmay
    simp only [readRefusal, hmay, not_false_eq_true, if_true, World.fileAt, if_false]

/-- A reader that may read the file gets no error at the start of the file. -/
theorem not_negative_of_readRefusal {reply : Reply} (hmay : MayRead w client (w.fileAt fd))
    (hmem : w.fileAt fd ∈ w.persistent.metadata) (hcursor : w.volatile.getFileCursor (fdKey fd) = 0)
    (h : readRefusal fd count client w = some reply) : ¬ reply.Negative := by
  obtain ⟨info, hinfo⟩ := Finmap.mem_iff.mp hmem
  unfold World.fileAt at hmay hinfo
  simp only [readRefusal, hmay, not_true_eq_false, if_false, hinfo, hcursor, lt_irrefl] at h
  split_ifs at h
  obtain rfl := Option.some.inj h
  exact fun hneg => absurd hneg.1 (lt_irrefl _)

theorem denies_readFile_iff (h : Booked none w) (hid : w.volatile.requestId + 1 < 4294967296)
    (hfile : w.volatile.fileCursors.lookup (fdKey fd) = some file) :
    Denies R (.readFile fd count client script) (fdKey fd) client w ↔
      fd > 0 ∧ client.userId ≠ 0 ∧
        ¬ (MayRead w client file.fileId ∧ file.fileId ∈ w.persistent.metadata) := by
  constructor
  · rintro ⟨event, hdeny, hall⟩
    obtain ⟨w', hstep, huntouched⟩ := hall 0
    have hbooked := (h.withCursor (fdKey fd) 0).withScript script
    have hserved := (wp_scripted.mpr (wp_readFile_served (R := R) fd count client hbooked
      hid)).of_ok hstep
    rcases hserved with ⟨hpos, h₀, reply, hreply, rfl⟩ | ⟨-, info, used, sent, w₂, hs⟩
    · obtain rfl := (List.cons.inj huntouched.log).1
      refine ⟨hpos, h₀, fun hboth => ?_⟩
      rw [← fileAt_withCursor script 0 hfile] at hboth
      exact not_negative_of_readRefusal hboth.1 hboth.2 (getFileCursor_withCursor hfile) hreply hdeny.2
    · exact absurd huntouched (not_untouched_of_registered hdeny hs.log)
  · rintro ⟨hpos, h₀, hnot⟩
    let reply : Reply := .readResult 0 (if MayRead w client file.fileId then unableToStatFile
        else fileNotOpenForRead) []
    have hdeny : Event.Denies client (.replied (.read (w.volatile.requestId + 1)) client reply) := by
      refine ⟨rfl, ?_, rfl⟩
      split_ifs <;> decide
    refine denies_of_wp hdeny fun offset => ?_
    have hrefusal : ∀ count, readRefusal fd count client
        (withScript script (w.withCursor (fdKey fd) offset)) = some reply := by
      intro count
      rw [readRefusal_of_not]
      · rw [fileAt_withCursor _ _ hfile]
        rfl
      · rw [fileAt_withCursor _ _ hfile]
        exact hnot
    refine wp_scripted.mpr (wp_readFile (by exact h.unlocked) hid (fun hneg => hneg hpos) h₀
      (fun _ _ reply' hreply' => ?_) fun _ hnone => ?_)
    · obtain rfl := Option.some.inj (hreply'.symm.trans (hrefusal _))
      exact ⟨rfl, rfl, rfl, rfl, rfl⟩
    · rw [hrefusal] at hnone
      exact absurd hnone (by simp)

/-! ### Writing -/

theorem WriteServed.log {buf : List UInt8} {info : PersistentMetadataInfo} {used : List SendOutcome}
    {sent : List (ℤ × ChunkRequest)} {w₂ : World}
    (hs : WriteServed R fd buf count client info used sent w w₂ w') :
    ∃ new, w'.network.log = new ++ .registered (.write (nextWrite w)) :: w.network.log := by
  obtain ⟨new, hnew, -⟩ := (hs.stored.answers.trans hs.finished.answers)
  exact ⟨new, hnew⟩

/-- What is answered to a writer that does not have the file locked. -/
theorem writeRefusal_of_not (h : ¬ (HoldsExclusive (w.fileLocks.record (w.fileAt fd)) client ∧
    w.fileAt fd ∈ w.persistent.metadata)) : writeRefusal fd count client w =
      some (.writeResult 0 (if HoldsExclusive (w.fileLocks.record (w.fileAt fd)) client then
        unableToStatFile else fileNotOpenForWrite)) := by
  by_cases hmay : HoldsExclusive (w.fileLocks.record (w.fileAt fd)) client
  · have hnone : w.persistent.metadata.lookup (w.fileAt fd) = none :=
      Finmap.lookup_eq_none.mpr fun hmem => h ⟨hmay, hmem⟩
    unfold World.fileAt at hmay hnone
    simp only [writeRefusal, hmay, not_true_eq_false, if_false, hnone, World.fileAt, if_true]
  · unfold World.fileAt at hmay
    simp only [writeRefusal, hmay, not_false_eq_true, if_true, World.fileAt, if_false]

/-- A writer that has the file locked gets no error at the start of the file. -/
theorem not_negative_of_writeRefusal {reply : Reply}
    (hmay : HoldsExclusive (w.fileLocks.record (w.fileAt fd)) client)
    (hmem : w.fileAt fd ∈ w.persistent.metadata) (hcursor : w.volatile.getFileCursor (fdKey fd) = 0)
    (h : writeRefusal fd count client w = some reply) : ¬ reply.Negative := by
  obtain ⟨info, hinfo⟩ := Finmap.mem_iff.mp hmem
  unfold World.fileAt at hmay hinfo
  simp only [writeRefusal, hmay, not_true_eq_false, if_false, hinfo, hcursor, lt_irrefl] at h
  split_ifs at h
  obtain rfl := Option.some.inj h
  exact lt_irrefl _

theorem denies_writeFile_iff {buf : List UInt8} (h : Booked none w)
    (hid : w.volatile.requestId + 2 < 4294967296)
    (hfile : w.volatile.fileCursors.lookup (fdKey fd) = some file) :
    Denies R (.writeFile fd buf count client script) (fdKey fd) client w ↔
      fd > 0 ∧ client.userId ≠ 0 ∧ ¬ (HoldsExclusive (w.fileLocks.record file.fileId) client ∧
        file.fileId ∈ w.persistent.metadata) := by
  constructor
  · rintro ⟨event, hdeny, hall⟩
    obtain ⟨w', hstep, huntouched⟩ := hall 0
    have hbooked := (h.withCursor (fdKey fd) 0).withScript script
    have hserved := (wp_scripted.mpr (wp_writeFile_served (R := R) fd count buf client hbooked
      hid)).of_ok hstep
    rcases hserved with ⟨hpos, h₀, reply, hreply, rfl⟩ | ⟨-, info, used, sent, w₂, hs⟩
    · obtain rfl := (List.cons.inj huntouched.log).1
      refine ⟨hpos, h₀, fun hboth => ?_⟩
      rw [← fileAt_withCursor script 0 hfile] at hboth
      exact not_negative_of_writeRefusal hboth.1 hboth.2 (getFileCursor_withCursor hfile) hreply
        hdeny.2
    · exact absurd huntouched (not_untouched_of_registered hdeny hs.log)
  · rintro ⟨hpos, h₀, hnot⟩
    let reply : Reply := .writeResult 0 (if HoldsExclusive (w.fileLocks.record file.fileId) client then
      unableToStatFile else fileNotOpenForWrite)
    have hdeny : Event.Denies client (.replied (.write (nextWrite w)) client reply) := by
      have hneg : (if HoldsExclusive (w.fileLocks.record file.fileId) client then unableToStatFile
          else fileNotOpenForWrite) < 0 := by
        split_ifs <;> decide
      exact ⟨rfl, hneg⟩
    refine denies_of_wp hdeny fun offset => ?_
    have hrefusal : ∀ count, writeRefusal fd count client
        (withScript script (w.withCursor (fdKey fd) offset)) = some reply := by
      intro count
      rw [writeRefusal_of_not]
      · rw [fileAt_withCursor _ _ hfile]
        rfl
      · rw [fileAt_withCursor _ _ hfile]
        exact hnot
    refine wp_scripted.mpr (wp_writeFile (by exact h.unlocked) hid (fun hneg => hneg hpos) h₀
      (fun _ _ reply' hreply' => ?_) fun _ hnone => ?_)
    · obtain rfl := Option.some.inj (hreply'.symm.trans (hrefusal _))
      exact ⟨rfl, rfl, rfl, rfl, rfl⟩
    · rw [hrefusal] at hnone
      exact absurd hnone (by simp)

/-! ### Seeking and closing -/

/-- Nobody moves the cursor of another client. -/
theorem moved_of_ne {offset : ℤ} (hfile : w.volatile.fileCursors.lookup (fdKey fd) = some file)
    (hother : file.clientId ≠ client) : moved R fd offset client w = w := by
  rw [moved, moveCursor_of_ne hfile hother]

/-- Whoever seeks is told where the cursor stands. -/
theorem not_denies_fileSeek {whence : Whence} (hlock : w.metaLock = none)
    (hfile : w.volatile.fileCursors.lookup (fdKey fd) = some file) (hother : file.clientId ≠ client) :
    ¬ Denies R (.fileSeek fd offset whence client) (fdKey fd) client w := by
  rintro ⟨event, hdeny, hall⟩
  obtain ⟨w', hstep, huntouched⟩ := hall 0
  have hsought : sought R fd offset whence client (w.withCursor (fdKey fd) 0) =
      w.withCursor (fdKey fd) 0 := by
    refine sought_induction (P := fun w' => w' = w.withCursor (fdKey fd) 0) rfl ?_
    rintro _ offset rfl
    exact moved_of_ne (lookup_withCursor _ hfile) hother
  have hwp : wp (handle R (.fileSeek fd offset whence client)) (fun _ w' => w'.network.log =
      .told client (.seekResult 0) :: w.network.log) (fun _ => True) (w.withCursor (fdKey fd) 0) := by
    refine wp_fileSeek (by exact hlock) (fun _ => trivial) ?_
    have hcursor : (w.withCursor (fdKey fd) 0).volatile.getFileCursor (fdKey fd) = 0 := by
      simp only [VolatileMetadata.getFileCursor, lookup_withCursor _ hfile]
      decide
    rw [hsought, hcursor]
    rfl
  obtain rfl := (List.cons.inj ((hwp.of_ok hstep).symm.trans huntouched.log)).1
  exact lt_irrefl _ hdeny.2

/-- Only the owner closes a descriptor. -/
theorem denies_closeFile (hfile : w.volatile.fileCursors.lookup (fdKey fd) = some file)
    (hother : file.clientId ≠ client) : Denies R (.closeFile fd client) (fdKey fd) client w := by
  have hdeny : Event.Denies client (.told client (.closeResult wrongClient)) := ⟨rfl, show wrongClient < 0 by decide⟩
  refine denies_of_wp hdeny fun offset => ?_
  have hlookup := lookup_withCursor offset hfile
  refine wp_closeFile (fun file' hfile' howner _ => ?_) (fun result _ hresult _ => ?_)
    fun file' hfile' howner _ _ _ => ?_
  · obtain rfl := Option.some.inj (hlookup.symm.trans hfile')
    exact hother howner
  · rw [if_pos (Finmap.mem_of_lookup_eq_some hlookup)] at hresult
    subst hresult
    exact ⟨rfl, rfl, rfl, rfl, rfl⟩
  · obtain rfl := Option.some.inj (hlookup.symm.trans hfile')
    exact absurd howner hother

/-- **Which calls are denied the descriptors of others.** In every state of every run, a client that
uses the descriptor of another is denied in `close_file`; in `read_file` exactly if it holds no lock
on the file, or the file is gone; in `write_file` likewise with the exclusive lock; and in
`file_seek` never. -/
theorem foreignDescriptor_denied_iff (hstart : Started w₀) (hrun : Steps (step R) w₀ is w)
    (hids : idsOf is + 2 < 4294967296)
    (hfile : w.volatile.fileCursors.lookup (fdKey fd) = some file) (hother : file.clientId ≠ client) :
    (∀ count script, Denies R (.readFile fd count client script) (fdKey fd) client w ↔
      fd > 0 ∧ client.userId ≠ 0 ∧
        ¬ (MayRead w client file.fileId ∧ file.fileId ∈ w.persistent.metadata)) ∧
    (∀ buf count script, Denies R (.writeFile fd buf count client script) (fdKey fd) client w ↔
      fd > 0 ∧ client.userId ≠ 0 ∧ ¬ (HoldsExclusive (w.fileLocks.record file.fileId) client ∧
        file.fileId ∈ w.persistent.metadata)) ∧
    (∀ offset whence, ¬ Denies R (.fileSeek fd offset whence client) (fdKey fd) client w) ∧
    Denies R (.closeFile fd client) (fdKey fd) client w := by
  obtain ⟨hw, hid⟩ := hstart.run hrun (by omega)
  exact ⟨fun _ _ => denies_readFile_iff hw.booked (by omega) hfile,
    fun _ _ _ => denies_writeFile_iff hw.booked (by omega) hfile,
    fun _ _ => not_denies_fileSeek hw.booked.unlocked hfile hother, denies_closeFile hfile hother⟩

theorem foreignDescriptor_denied_iff_sampleOpen : ∃ w,
    Steps (step sampleRuntime) sampleServer [.openFile "a" oRdwr (sampleClient 1)] w ∧
      Denies sampleRuntime (.closeFile 1 (sampleClient 2)) 1 (sampleClient 2) w := by
  obtain ⟨w, hrun, hend⟩ := exists_steps (R := sampleRuntime) (w := sampleServer)
    [.openFile "a" oRdwr (sampleClient 1)]
    (p := fun w => w.volatile.fileCursors.lookup (fdKey 1) = some ⟨sampleClient 1, 1, 0⟩)
    (by decide +kernel)
  exact ⟨w, hrun, (foreignDescriptor_denied_iff started_sampleServer hrun (by decide)
    (of_decide_eq_true hend) (by decide)).2.2.2⟩

/-- One process of a user is told where the cursor of another stands. -/
theorem foreignSeek_notDenied : ∃ w w',
    Steps (step sampleRuntime) sampleServer [.openFile "a" oRdwr (sampleClient 1)] w ∧
      step sampleRuntime w (.fileSeek 1 0 .seekCur (sampleClient 2)) w' ∧
      w'.network.log = .told (sampleClient 2) (.seekResult 0) :: w.network.log ∧
      ¬ Denies sampleRuntime (.fileSeek 1 0 .seekCur (sampleClient 2)) 1 (sampleClient 2) w := by
  obtain ⟨w, hrun, hend⟩ := exists_steps (R := sampleRuntime) (w := sampleServer)
    [.openFile "a" oRdwr (sampleClient 1)]
    (p := fun w => w.volatile.fileCursors.lookup (fdKey 1) = some ⟨sampleClient 1, 1, 0⟩ ∧
      w.metaLock = none ∧
      (run sampleRuntime w [.fileSeek 1 0 .seekCur (sampleClient 2)]).toOption.any fun w' =>
        w'.network.log = .told (sampleClient 2) (.seekResult 0) :: w.network.log) (by decide +kernel)
  obtain ⟨hfile, hlock, hseeks⟩ := of_decide_eq_true hend
  obtain ⟨w', hseek, hlog⟩ := exists_steps _ hseeks
  obtain ⟨w₁, hstep, hnil⟩ := Steps.cons_iff.mp hseek
  obtain rfl : w₁ = w' := Steps.nil_iff.mp hnil
  exact ⟨w, w₁, hrun, hstep, of_decide_eq_true hlog, not_denies_fileSeek hlock hfile (by decide)⟩

end

end DecaFS
