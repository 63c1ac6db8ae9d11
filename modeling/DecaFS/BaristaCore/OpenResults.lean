import DecaFS.BaristaCore.LockTable

/-!
# What `open_file` promises with its result

A positive result stands for a descriptor on the file of that name, with the lock that was asked for;
a negative one says that nothing was locked or opened. `open_file` keeps to this exactly if, in case the
lock is granted, there is a file to open and an `int` for its descriptor (`openFile_whole_iff`). It does
not look at the result of `add_file`: for a name that is not taken, the error code is the id of the file
that it locks and opens.
-/

namespace DecaFS

open Code Barista FileLocks Custody

/-- The client has the file of that name open with the descriptor `fd`. -/
structure HasOpen (path : String) (flags : ℕ) (client : Client) (fd : ℤ) (w : World) : Prop where
  pos : 0 < fd
  file : ∃ info, w.persistent.fileOf path = some info ∧ info.pathname = path ∧
    w.volatile.fileCursors.lookup (fdKey fd) =
      some ⟨client, info.fileId, if flags &&& oAppend ≠ 0 then info.size else 0⟩ ∧
    if flags &&& oRdwr ≠ 0 then HoldsExclusive (w.fileLocks.record info.fileId) client
    else HoldsShared (w.fileLocks.record info.fileId) client

/-- The result is an error, and no lock or cursor is different. -/
structure LeftAlone (result : ℤ) (w w' : World) : Prop where
  neg : result < 0
  fileLocks : w'.fileLocks = w.fileLocks
  fileCursors : w'.volatile.fileCursors = w.volatile.fileCursors

/-- `open_file` is all or nothing. -/
def OpensWhole (R : Runtime) (w : World) (path : String) (flags : ℕ) (client : Client) : Prop :=
  ∃ w' result, step R w (.openFile path flags client) w' ∧
    w'.network.log = .told client (.openResult result) :: w.network.log ∧
    (HasOpen path flags client result w' ∨ LeftAlone result w w')

/-- The next descriptor is a positive `int`. -/
def FdLeft (w : World) : Prop := 0 < toInt32 w.volatile.nextFd

/-- If the lock that `open_file` asks for is granted, there is a file of that name or one can be created,
and there is a descriptor for it. -/
def OpensCleanly (w : World) (path : String) (flags : ℕ) (client : Client) : Prop :=
  match w.persistent.fileOf path with
  | some info => Grants (w.fileLocks.record info.fileId) client (flags &&& oRdwr ≠ 0) →
      info.pathname = path ∧ FdLeft w
  | none => flags &&& oRdwr ≠ 0 →
      (∀ e, w.persistent.AddRefused path e →
        ¬ Grants (w.fileLocks.record (toUInt32 e).toNat) client true) ∧
      ((∀ e, ¬ w.persistent.AddRefused path e) →
        Grants (w.fileLocks.record w.persistent.newFileId) client true → FdLeft w)

/-- Files are stored under their own ids, and their sizes are `uint32_t`s. -/
structure StoredWell (p : PersistentMetadata) : Prop where
  fileId_eq : ∀ f info, p.metadata.lookup f = some info → info.fileId = f
  size_lt : ∀ f info, p.metadata.lookup f = some info → info.size < 4294967296

section

variable {R : Runtime} {w₀ w w' : World} {is : List Input} {i : Input} {path : String} {flags size : ℕ}
  {client : Client} {f : ℕ} {locks : FileLocks} {p : PersistentMetadata}

/-! ### The files -/

theorem StoredWell.without (h : StoredWell p) (f : ℕ) : StoredWell (p.without f) := by
  have hkept : ∀ f' info, (p.without f).metadata.lookup f' = some info →
      p.metadata.lookup f' = some info := by
    intro f' info hinfo
    have hne : f' ≠ f := by
      rintro rfl
      simp at hinfo
    rwa [PersistentMetadata.lookup_without_of_ne hne] at hinfo
  exact ⟨fun f' info hinfo => h.fileId_eq f' info (hkept f' info hinfo),
    fun f' info hinfo => h.size_lt f' info (hkept f' info hinfo)⟩

theorem StoredWell.insert (h : StoredWell p) (info : PersistentMetadataInfo)
    (hsize : info.size < 4294967296) (names : Finmap fun _ : String => ℕ) (last : ℕ) :
    StoredWell ⟨names, p.metadata.insert info.fileId info, last⟩ := by
  refine ⟨fun f' info' hinfo => ?_, fun f' info' hinfo => ?_⟩
  all_goals
    change (p.metadata.insert info.fileId info).lookup f' = some info' at hinfo
    rcases eq_or_ne f' info.fileId with rfl | hne
  · rw [Finmap.lookup_insert] at hinfo
    obtain rfl := Option.some.inj hinfo
    rfl
  · rw [Finmap.lookup_insert_of_ne _ hne] at hinfo
    exact h.fileId_eq f' info' hinfo
  · rw [Finmap.lookup_insert] at hinfo
    obtain rfl := Option.some.inj hinfo
    exact hsize
  · rw [Finmap.lookup_insert_of_ne _ hne] at hinfo
    exact h.size_lt f' info' hinfo

theorem StoredWell.resized (h : StoredWell p) (f : ℕ) (delta : ℤ) : StoredWell (p.resized f delta) := by
  cases hold : p.metadata.lookup f with
  | none =>
    rw [PersistentMetadata.resized, hold]
    exact h
  | some info =>
    obtain ⟨size, hsize, hresized⟩ : ∃ size, size < 4294967296 ∧ p.resized f delta =
        ⟨p.pathnameToFileId, p.metadata.insert f { info with size := size }, p.nextFileId⟩ := by
      refine ⟨PersistentMetadata.newSize info.size delta, PersistentMetadata.newSize_lt _ _, ?_⟩
      simp only [PersistentMetadata.resized, hold]
    obtain rfl := h.fileId_eq f info hold
    rw [hresized]
    exact h.insert { info with size := size } hsize _ _

/-- **The step lemma.** -/
theorem StoredWell.step (h : StoredWell w.persistent) (hrested : Rested w)
    (hstep : Barista.step R w i w') : StoredWell w'.persistent := by
  by_cases hopen : ∃ path flags client, i = .openFile path flags client
  · obtain ⟨path, flags, client, rfl⟩ := hopen
    obtain ⟨-, hcreates, hkeeps⟩ := step_openFile_filing hrested.unlocked hstep
    by_cases hnew : Creates w (.openFile path flags client)
    · obtain ⟨time, hp⟩ := hcreates hnew
      rw [hp]
      exact h.insert ⟨_, 0, _, _, _, path, time⟩ (show 0 < 4294967296 by decide) _ _
    · rw [hkeeps hnew]
      exact h
  · push Not at hopen
    have hfiling : Filing StoredWell w := ⟨hrested.unlocked, h⟩
    exact (step_filing (fun _ f h => h.without f) (fun _ f delta h => h.resized f delta) hfiling hopen
      hstep).2

/-- **The run lemma.** -/
theorem StoredWell.run (h : StoredWell w.persistent) (hrested : Rested w)
    (hrun : Steps (Barista.step R) w is w') : StoredWell w'.persistent := by
  have hboth : StoredWell w'.persistent ∧ Rested w' :=
    hrun.invariant (I := fun w => StoredWell w.persistent ∧ Rested w)
      (fun _ _ _ hs hstep => ⟨hs.1.step hs.2 hstep, hs.2.step hstep⟩) ⟨h, hrested⟩
  exact hboth.1

/-! ### The lock is granted -/

theorem Custody.Grants.holds {lock : FileLock} (h : Grants lock client (flags &&& oRdwr ≠ 0)) :
    if flags &&& oRdwr ≠ 0 then
      HoldsExclusive (granted lock client (flags &&& oRdwr ≠ 0)) client
    else HoldsShared (granted lock client (flags &&& oRdwr ≠ 0)) client := by
  by_cases hex : flags &&& oRdwr ≠ 0
  · rw [if_pos hex, granted, if_pos (decide_eq_true hex)]
    exact ⟨h.1, ⟨rfl, rfl⟩, rfl⟩
  · rw [if_neg hex, granted, if_neg (by simpa using hex)]
    exact ⟨h.1, ⟨rfl, rfl⟩, Finset.mem_insert_self _ _⟩

theorem Custody.Grants.granted_ne {lock : FileLock} {exclusive : Bool}
    (h : Grants lock client exclusive) : granted lock client exclusive ≠ lock := by
  intro heq
  obtain ⟨huser, hlock⟩ := h
  unfold granted at heq
  split_ifs at heq hlock with hex
  · exact huser ((congrArg FileLock.ownerUid heq).trans hlock)
  · exact hlock.2 (congrArg FileLock.shProcs heq ▸ Finset.mem_insert_self _ _)

/-- The state once the descriptor is opened, at the end of the file under `O_APPEND`. -/
def opened (R : Runtime) (f size flags : ℕ) (client : Client) (locks : FileLocks) (w : World) : World :=
  if flags &&& oAppend ≠ 0 then
    moved R (toInt32 w.volatile.nextFd) size client (withNewFd f client locks w)
  else withNewFd f client locks w

theorem lookup_opened : (opened R f size flags client locks w).volatile.fileCursors.lookup
    w.volatile.nextFd = some ⟨client, f, if flags &&& oAppend ≠ 0 then
      min (toUInt32 size).toNat (w.persistent.sizeOf R f) else 0⟩ := by
  have hnew : (withNewFd f client locks w).volatile.fileCursors.lookup w.volatile.nextFd =
      some ⟨client, f, 0⟩ := Finmap.lookup_insert _
  unfold opened
  split_ifs
  · have hkey := fdKey_nextFd w.volatile
    change (moveCursor R w.persistent (toInt32 w.volatile.nextFd) size client
      (withNewFd f client locks w).volatile.fileCursors).lookup w.volatile.nextFd = _
    rw [moveCursor, hkey, hnew]
    simp only [if_true, Finmap.lookup_insert]
  · exact hnew

theorem opened_view : (opened R f size flags client locks w).fileLocks = locks ∧
    (opened R f size flags client locks w).persistent = w.persistent ∧
    (opened R f size flags client locks w).network = w.network := by
  unfold opened
  split_ifs <;> exact ⟨rfl, rfl, rfl⟩

/-- What holds of the descriptor that `open_file` answers with. -/
theorem hasOpen_opened_iff (hstored : StoredWell w.persistent)
    (hsize : ∀ info, w.persistent.fileOf path = some info → info.fileId = f →
      min (toUInt32 size).toNat info.size = info.size)
    (hgrants : Grants (w.fileLocks.record f) client (flags &&& oRdwr ≠ 0))
    (hlocks : locks.record = Function.update w.fileLocks.record f
      (granted (w.fileLocks.record f) client (flags &&& oRdwr ≠ 0))) :
    HasOpen path flags client (toInt32 w.volatile.nextFd) (opened R f size flags client locks w) ↔
      (∃ info, w.persistent.fileOf path = some info ∧ info.pathname = path ∧ info.fileId = f) ∧
        FdLeft w := by
  obtain ⟨hlocked, hp, -⟩ := @opened_view R w flags size client f locks
  have hcursor := @lookup_opened R w flags size client f locks
  constructor
  · rintro ⟨hpos, info, hfile, hname, hopen, -⟩
    rw [fdKey_nextFd, hcursor] at hopen
    have hid : f = info.fileId := congrArg FileInstance.fileId (Option.some.inj hopen)
    exact ⟨⟨info, hp ▸ hfile, hname, hid.symm⟩, hpos⟩
  · rintro ⟨⟨info, hfile, hname, rfl⟩, hpos⟩
    refine ⟨hpos, info, by rwa [hp], hname, ?_, ?_⟩
    · obtain ⟨f, -, hinfo⟩ := Option.bind_eq_some_iff.mp hfile
      have hlookup : w.persistent.metadata.lookup info.fileId = some info :=
        (hstored.fileId_eq f info hinfo).symm ▸ hinfo
      have hsizeOf : w.persistent.sizeOf R info.fileId = info.size := by
        rw [PersistentMetadata.sizeOf, hlookup]
        rfl
      rw [fdKey_nextFd, hcursor, hsizeOf, hsize info hfile rfl]
    · rw [hlocked, hlocks, Function.update_self]
      exact hgrants.holds

variable (path) in
/-- **The end of `open_file`**, all or nothing. -/
theorem wp_openFileId_whole (hrested : Rested w) (hstored : StoredWell w.persistent)
    (hclient : client.userId ≠ 0)
    (hsize : ∀ info, w.persistent.fileOf path = some info → info.fileId = f →
      min (toUInt32 size).toNat info.size = info.size) :
    wp (openFileId R f size flags client) (fun _ w' => ∃ result,
      w'.network.log = .told client (.openResult result) :: w.network.log ∧
      (HasOpen path flags client result w' ∨ LeftAlone result w w' ↔
        (Grants (w.fileLocks.record f) client (flags &&& oRdwr ≠ 0) →
          (∃ info, w.persistent.fileOf path = some info ∧ info.pathname = path ∧ info.fileId = f) ∧
            FdLeft w))) (fun _ => False) w := by
  refine wp_openFileId hrested.unlocked hrested.clear (fun h₀ => hclient h₀) (fun hnot => ?_)
    fun hgrants locks hlocks => ?_
  · exact ⟨fileInUse, rfl, iff_of_true (.inr ⟨show fileInUse < 0 by decide, rfl, rfl⟩)
      fun hgrants => absurd hgrants hnot⟩
  · change ∃ result, (logged _ (opened R f size flags client locks w)).network.log = _ ∧
      (HasOpen path flags client result (logged _ (opened R f size flags client locks w)) ∨
        LeftAlone result w (logged _ (opened R f size flags client locks w)) ↔ _)
    obtain ⟨hlocked, -, hnetwork⟩ := @opened_view R w flags size client f locks
    refine ⟨toInt32 w.volatile.nextFd, ?_, ?_⟩
    · exact congrArg (fun n => _ :: Network.log n) hnetwork
    · have hiff := hasOpen_opened_iff (R := R) hstored hsize hgrants hlocks
      have hopen : HasOpen path flags client (toInt32 w.volatile.nextFd)
          (logged (.told client (.openResult (toInt32 w.volatile.nextFd)))
            (opened R f size flags client locks w)) ↔
          HasOpen path flags client (toInt32 w.volatile.nextFd) (opened R f size flags client locks w) :=
        ⟨fun h => ⟨h.pos, h.file⟩, fun h => ⟨h.pos, h.file⟩⟩
      rw [hopen, hiff]
      refine ⟨fun h _ => h.resolve_right fun halone => ?_, fun h => .inl (h hgrants)⟩
      -- the record of the file is not what it was
      have hsame : locks.record f = w.fileLocks.record f :=
        congrArg (fun t => FileLocks.record t f) (hlocked.symm.trans halone.fileLocks)
      rw [hlocks, Function.update_self] at hsame
      exact hgrants.granted_ne hsame

variable (R path flags) in
/-- **What `open_file` does**, all or nothing. -/
theorem wp_openFile_whole (hrested : Rested w) (hstored : StoredWell w.persistent)
    (hclient : client.userId ≠ 0) :
    wp (openFile R path flags client) (fun _ w' => ∃ result,
      w'.network.log = .told client (.openResult result) :: w.network.log ∧
      (HasOpen path flags client result w' ∨ LeftAlone result w w' ↔ OpensCleanly w path flags client))
      (fun _ => False) w := by
  unfold OpensCleanly
  refine wp_openFile_fileId hrested.unlocked (fun h₀ => hclient h₀) (fun info hfile => ?_)
    (fun hnone hwrites hpath hshort time => ?_) (fun hnone hwrites e he => ?_) fun hnone hreads => ?_
  · rw [hfile]
    obtain ⟨f, -, hinfo⟩ := Option.bind_eq_some_iff.mp hfile
    have hlt := hstored.size_lt f info hinfo
    have hsize : ∀ info', w.persistent.fileOf path = some info' → info'.fileId = info.fileId →
        min (toUInt32 info.size).toNat info'.size = info'.size := by
      intro info' hfile' _
      obtain rfl := Option.some.inj (hfile'.symm.trans hfile)
      rw [toUInt32_eq (by omega) (by omega)]
      omega
    refine wp_mono (wp_openFileId_whole path hrested hstored hclient hsize) (fun _ w' hw' => ?_) fun _ he => he
    obtain ⟨result, hlog, hiff⟩ := hw'
    refine ⟨result, hlog, hiff.trans (forall_congr' fun _ => and_congr_left' ?_)⟩
    exact ⟨fun ⟨info', hfile', hname, _⟩ => Option.some.inj (hfile'.symm.trans hfile) ▸ hname,
      fun hname => ⟨info, hfile, hname, rfl⟩⟩
  · let w₁ : World := { w with persistent := filesWith path time w }
    have hstored₁ : StoredWell w₁.persistent :=
      hstored.insert ⟨_, 0, _, _, _, path, time⟩ (show 0 < 4294967296 by decide) _ _
    have hfile : ∃ info, w₁.persistent.fileOf path = some info ∧ info.pathname = path ∧
        info.fileId = w.persistent.newFileId ∧ info.size = 0 := by
      refine ⟨⟨w.persistent.newFileId, 0, w.volatile.stripeSize, w.volatile.chunkSize,
        w.volatile.chunkSize.val, path, time⟩, ?_, rfl, rfl, rfl⟩
      refine Option.bind_eq_some_iff.mpr ⟨w.persistent.newFileId, ?_, ?_⟩
      · exact Finmap.lookup_insert _
      · exact Finmap.lookup_insert _
    obtain ⟨info, hfile, hname, hid, hzero⟩ := hfile
    have hsize : ∀ info', w₁.persistent.fileOf path = some info' → info'.fileId = w.persistent.newFileId →
        min (toUInt32 R.indeterminate).toNat info'.size = info'.size := by
      intro info' hfile' _
      obtain rfl := Option.some.inj (hfile'.symm.trans hfile)
      rw [hzero]
      exact Nat.min_zero _
    refine wp_mono (wp_openFileId_whole path (w := w₁) ⟨hrested.unlocked, hrested.clear⟩ hstored₁ hclient hsize)
      (fun _ w' hw' => ?_) fun _ he => he
    obtain ⟨result, hlog, hiff⟩ := hw'
    have halone : LeftAlone result w₁ w' ↔ LeftAlone result w w' :=
      ⟨fun h => ⟨h.neg, h.fileLocks, h.fileCursors⟩, fun h => ⟨h.neg, h.fileLocks, h.fileCursors⟩⟩
    have hnew : ∀ e, ¬ w.persistent.AddRefused path e := by
      rintro e (⟨-, hmem⟩ | ⟨-, -, hlong⟩)
      · exact hpath hmem
      · exact absurd hlong (not_lt.mpr hshort)
    rw [decide_eq_true hwrites, halone] at hiff
    refine ⟨result, hlog, hiff.trans ?_⟩
    rw [hnone]
    constructor
    · exact fun h _ => ⟨fun e he => absurd he (hnew e), fun _ hgrants => (h hgrants).2⟩
    · exact fun h hgrants => ⟨⟨info, hfile, hname, hid⟩, (h hwrites).2 hnew hgrants⟩
  · refine wp_mono (wp_openFileId_whole path hrested hstored hclient
      fun info hfile => absurd (hnone.symm.trans hfile) (by simp)) (fun _ w' hw' => ?_) fun _ he => he
    obtain ⟨result, hlog, hiff⟩ := hw'
    rw [decide_eq_true hwrites] at hiff
    refine ⟨result, hlog, hiff.trans ?_⟩
    rw [hnone]
    constructor
    · intro h _
      refine ⟨fun e' he' hgrants => ?_, fun hnew => absurd he (hnew e)⟩
      obtain rfl : e' = e := he'.unique he
      obtain ⟨⟨info, hfile, -⟩, -⟩ := h hgrants
      exact absurd hfile (by simp)
    · exact fun h hgrants => absurd hgrants ((h hwrites).1 e he)
  · rw [hnone]
    exact ⟨fileNotFoundForReading, rfl, iff_of_true
      (.inr ⟨show fileNotFoundForReading < 0 by decide, rfl, rfl⟩) fun hwrites => absurd hwrites hreads⟩

theorem opensWhole_iff (hrested : Rested w) (hstored : StoredWell w.persistent)
    (hclient : client.userId ≠ 0) : OpensWhole R w path flags client ↔ OpensCleanly w path flags client := by
  obtain ⟨_, w', hstep, result, hlog, hiff⟩ :=
    (wp_openFile_whole R path flags hrested hstored hclient).exists_ok
  rw [← hiff]
  refine ⟨?_, fun h => ⟨w', result, hstep, hlog, h⟩⟩
  rintro ⟨w'', result', hstep', hlog', h⟩
  obtain rfl : w'' = w' := congrArg Prod.snd (Except.ok.inj (hstep'.symm.trans hstep))
  have hresult := (List.cons.inj (hlog'.symm.trans hlog)).1
  simp only [Event.told.injEq, Reply.openResult.injEq, true_and] at hresult
  exact hresult ▸ h

/-- **`open_file` is all or nothing, if it opens cleanly.** In every state of every run, of every name
and with every flags: either the client is told a descriptor and has the file open with it, or it is
told an error and nothing is locked or opened, exactly if the lock it asks for is not granted or there is
a file of that name to open, at most 100 bytes long if it is new, and an `int` for the descriptor. -/
theorem openFile_whole_iff (hstart : Started w₀)
    (hsizes : ∀ f info, w₀.persistent.metadata.lookup f = some info → info.size < 4294967296)
    (hrun : Steps (step R) w₀ is w) (hclient : client.userId ≠ 0) :
    OpensWhole R w path flags client ↔ OpensCleanly w path flags client := by
  have hstored : StoredWell w₀.persistent := ⟨hstart.persistent.fileId_eq, hsizes⟩
  exact opensWhole_iff (hstart.rested.run hrun) (hstored.run hstart.rested hrun) hclient

theorem openFile_whole_iff_sampleServer :
    OpensWhole sampleRuntime sampleServer "a" oRdwr (sampleClient 1) := by
  refine (openFile_whole_iff started_sampleServer (by simp [sampleServer]) (.refl _) (by decide)).mpr ?_
  refine fun _ => ⟨fun e he => ?_, fun _ _ => show 0 < toInt32 _ by decide⟩
  obtain ⟨-, hmem⟩ | ⟨-, -, hlong⟩ := he
  · exact absurd hmem Finmap.notMem_empty
  · exact absurd hlong (by decide)

/-- A name of 101 bytes. -/
def longName : String := String.ofList (List.replicate 101 'a')

/-- The client that opens a new file with a name that is too long is given a descriptor, for no file. -/
theorem longName_opened : ¬ OpensWhole sampleRuntime sampleServer longName oRdwr (sampleClient 1) := by
  have hrested := started_sampleServer.rested
  have hstored : StoredWell sampleServer.persistent :=
    ⟨started_sampleServer.persistent.fileId_eq, by simp [sampleServer]⟩
  rw [opensWhole_iff hrested hstored (by decide)]
  intro h
  refine (h (by decide)).1 filenameInvalid (.inr ⟨rfl, Finmap.notMem_empty, ?_⟩) ⟨by decide, ?_⟩
  · decide
  · decide

end

end DecaFS
