import DecaFS.Cluster.Copies

/-!
# The copies of a file

The chunks of a file are, at both of their nodes, what the writes to the file make of them (`FileCopies`).
Every message keeps this, as long as the chunks are told apart, the sends of writes succeed and the file
is not deleted (`FileCopies.step`), so it holds after every such run of the server (`FileCopies.run`).
-/

namespace DecaFS

open Code Barista Links Search

/-! ### The writes of a run -/

/-- The writes to the file `f`, after one more message. -/
def recordCall (f : ℕ) (w : World) (ws : List ChunkWrite) : Input → List ChunkWrite
  | .writeFile fd buf count client _ =>
    if w.fileAt fd = f ∧ writeRefusal fd (sizeArgument count) client w = none then
      ⟨w.volatile.getFileCursor (fdKey fd), buf.take (toInt32 count).toNat⟩ :: ws
    else ws
  | _ => ws

/-- The writes to the file `f` when the server handles the messages, after the writes `ws`. -/
def writesTo (R : Runtime) (f : ℕ) : World → List Input → List ChunkWrite → List ChunkWrite
  | _, [], ws => ws
  | w, i :: is, ws =>
    match handle R i w with
    | .ok p => writesTo R f p.2 is (recordCall f w ws i)
    | .error _ => ws

/-- The message does not delete the file `f`. -/
def Spares (f : ℕ) (w : World) : Input → Prop
  | .deleteFile path _ _ => ∀ info, w.persistent.fileOf path = some info → info.fileId ≠ f
  | _ => True

/-- The packets of a write are accepted. -/
def Barista.Input.Accepted : Input → Prop
  | .writeFile _ _ _ _ script => ∀ o ∈ script, o.accepted = true
  | _ => True

/-- The stripes and the chunks of the file `f` have these sizes. -/
def SizesAre (f : ℕ) (stripeSize : StripeSize) (chunkSize : ChunkSize) (p : PersistentMetadata) : Prop :=
  ∀ info, p.metadata.lookup f = some info → info.stripeSize = stripeSize ∧ info.chunkSize = chunkSize

/-- No delete of the file `f` is under way. -/
def Custody.Spared (f : ℕ) (s : Custody) : Prop := ∀ id client, s.active (.delete id) ≠ some (client, f)

section

variable {R : Runtime} {K : Set FileChunk} {f : ℕ} {stripeSize : StripeSize} {chunkSize : ChunkSize}
  {ws : List ChunkWrite} {w w' : World} {i : Input} {is : List Input} {p : PersistentMetadata}
  {s s' : Custody} {m : Custody.Move} {ms : List Custody.Move}

theorem writesTo_cons (hstep : step R w i w') :
    writesTo R f w (i :: is) ws = writesTo R f w' is (recordCall f w ws i) := by
  have hhandle : handle R i w = .ok (⟨⟩, w') := hstep
  rw [writesTo, hhandle]

/-! ### The file -/

/-- A file that is not deleted stays. -/
theorem Custody.Step.spared (h : Custody.Step s m s') (hm : ∀ id client, m ≠ .acceptDelete id client f)
    (hs : s.Spared f) : s'.Spared f ∧ (f ∈ s.files → f ∈ s'.files) := by
  have hupdate : ∀ (op : Operation) (x : Option (Client × ℕ)), (∀ client, x ≠ some (client, f)) →
      ∀ id client, Function.update s.active op x (.delete id) ≠ some (client, f) := by
    intro op x hx id client
    rcases eq_or_ne (.delete id) op with rfl | hne
    · rw [Function.update_self]
      exact hx client
    · rw [Function.update_of_ne hne]
      exact hs id client
  cases h with
  | finish => exact ⟨hupdate _ none fun _ => by simp, fun hf => hf⟩
  | @finishDelete id client g active =>
    refine ⟨hupdate _ none fun _ => by simp, fun hf => ⟨hf, ?_⟩⟩
    rintro rfl
    exact hs id client active
  | @accept op client g _ lock _ =>
    refine ⟨fun id client' => ?_, fun hf => hf⟩
    rcases eq_or_ne (.delete id) op with rfl | hne
    · exact False.elim lock
    · change Function.update s.active op _ (.delete id) ≠ _
      rw [Function.update_of_ne hne]
      exact hs id client'
  | @acceptDelete id client g _ _ _ =>
    refine ⟨hupdate _ _ fun client' heq => hm id client ?_, fun hf => hf⟩
    obtain ⟨-, rfl⟩ := Prod.mk.inj (Option.some.inj heq)
    rfl
  | create => exact ⟨hs, fun hf => Set.mem_insert_of_mem _ hf⟩
  | openFd _ => exact ⟨hs, fun hf => hf⟩
  | closeFd _ _ => exact ⟨fun id client => hs id client, id⟩

/-- **The file stays** while no message deletes it. -/
theorem Custody.spared_of_steps (h : Steps Custody.Step s ms s')
    (hms : ∀ m ∈ ms, ∀ id client, m ≠ .acceptDelete id client f) (hs : s.Spared f) :
    s'.Spared f ∧ (f ∈ s.files → f ∈ s'.files) := by
  induction h with
  | refl s => exact ⟨hs, id⟩
  | cons head _ ih =>
    obtain ⟨hm, hms⟩ := List.forall_mem_cons.mp hms
    obtain ⟨h₁, hkept⟩ := head.spared hm hs
    obtain ⟨h', hkept'⟩ := ih hms h₁
    exact ⟨h', fun hf => hkept' (hkept hf)⟩

theorem Handled.spared (h : Handled i w w') (hspares : Spares f w i) (hs : (custody w).Spared f) :
    (custody w').Spared f ∧ (f ∈ w.persistent.metadata → f ∈ w'.persistent.metadata) := by
  obtain ⟨ms, ends, hbegins, hsteps, hends⟩ := h.moves
  refine Custody.spared_of_steps hsteps (fun m hm id client heq => ?_) hs
  subst heq
  rcases List.mem_append.mp hm with hm | hm
  · cases hbegins with
    | nothing => exact absurd hm List.not_mem_nil
    | openFile opens =>
      cases opens <;> simp at hm
    | readFile => simp at hm
    | writeFile => simp at hm
    | closeFile _ _ => simp at hm
    | deleteFile file =>
      obtain ⟨-, -, hf⟩ := Custody.Move.acceptDelete.inj (List.mem_singleton.mp hm)
      exact hspares _ file hf.symm
  · exact hends _ hm

theorem SizesAre.without (h : SizesAre f stripeSize chunkSize p) (g : ℕ) :
    SizesAre f stripeSize chunkSize (p.without g) := by
  intro info hinfo
  have hne : f ≠ g := by
    rintro rfl
    simp at hinfo
  rw [PersistentMetadata.lookup_without_of_ne hne] at hinfo
  exact h info hinfo

theorem SizesAre.insert (h : SizesAre f stripeSize chunkSize p) {g : ℕ} {info : PersistentMetadataInfo}
    (hg : g = f → info.stripeSize = stripeSize ∧ info.chunkSize = chunkSize)
    (names : Finmap fun _ : String => ℕ) (last : ℕ) :
    SizesAre f stripeSize chunkSize ⟨names, p.metadata.insert g info, last⟩ := by
  intro info' hinfo
  change (p.metadata.insert g info).lookup f = some info' at hinfo
  rcases eq_or_ne f g with rfl | hne
  · rw [Finmap.lookup_insert] at hinfo
    exact Option.some.inj hinfo ▸ hg rfl
  · rw [Finmap.lookup_insert_of_ne _ hne] at hinfo
    exact h info' hinfo

theorem SizesAre.resized (h : SizesAre f stripeSize chunkSize p) (g : ℕ) (delta : ℤ) :
    SizesAre f stripeSize chunkSize (p.resized g delta) := by
  unfold PersistentMetadata.resized
  cases hg : p.metadata.lookup g with
  | none => exact h
  | some info =>
    refine h.insert (fun heq => ?_) _ _
    exact h info (heq ▸ hg)

/-- A file that is there keeps the sizes of its stripes and chunks. -/
theorem SizesAre.step (h : SizesAre f stripeSize chunkSize w.persistent) (hlock : w.metaLock = none)
    (hp : w.persistent.Consistent) (hfiles : w.persistent.lastFileId + i.files < 4294967296)
    (hstep : step R w i w') : SizesAre f stripeSize chunkSize w'.persistent ∨
      f ∉ w.persistent.metadata ∧ ∃ stripeSize' chunkSize', SizesAre f stripeSize' chunkSize' w'.persistent := by
  by_cases hopen : ∃ path flags client, i = .openFile path flags client
  · obtain ⟨path, flags, client, rfl⟩ := hopen
    obtain ⟨-, hcreates, hkeeps⟩ := step_openFile_filing hlock hstep
    by_cases hnew : Creates w (.openFile path flags client)
    · obtain ⟨time, hfile⟩ := hcreates hnew
      have hfresh : w.persistent.newFileId ∉ w.persistent.metadata :=
        hp.newFileId_notMem (by simpa [Input.files] using hfiles)
      rw [hfile]
      by_cases hf : w.persistent.newFileId = f
      · -- the new file is `f`
        refine .inr ⟨hf ▸ hfresh, w.volatile.stripeSize, w.volatile.chunkSize, fun info hinfo => ?_⟩
        change (w.persistent.metadata.insert _ _).lookup f = some info at hinfo
        rw [hf, Finmap.lookup_insert] at hinfo
        exact Option.some.inj hinfo ▸ ⟨rfl, rfl⟩
      · exact .inl (h.insert (fun heq => absurd heq hf) _ _)
    · rw [hkeeps hnew]
      exact .inl h
  · push Not at hopen
    exact .inl (step_filing (fun _ g h => h.without g) (fun _ g delta h => h.resized g delta)
      ⟨hlock, h⟩ hopen hstep).2

end

/-! ### The packets of the messages -/

section

variable {R : Runtime} {K : Set FileChunk} {w w' : World} {i : Input} {a b : Routing} {flag : Flag} {g : ℕ}

theorem sends_eq_posted (w : World) : sends w.network.log = (routing w).posted := sends_eq_attempts _

theorem Routing.told_keeps (a : Routing) (i : Input) :
    (a.told i).chunks = a.chunks ∧ (a.told i).posted = a.posted := by
  cases i <;> exact ⟨rfl, rfl⟩

theorem Routing.Round.nonempty (h : Routing.Round R K flag a b) : K.Nonempty := by
  cases h <;> exact ⟨_, by assumption⟩

theorem Routing.Rounds.eq_of_empty (h : Routing.Rounds R ∅ flag a b) : b = a := by
  induction h with
  | refl => rfl
  | tail _ hround _ => exact absurd hround.nonempty Set.not_nonempty_empty

/-- Reading leaves the maps alone. -/
theorem Routing.Rounds.chunks_eq (h : Routing.Rounds R K .readChunk a b) : b.chunks = a.chunks := by
  induction h with
  | refl => rfl
  | tail _ hround ih =>
    rw [← ih]
    cases hround <;> rfl

/-- The packets of some rounds are about their chunks. -/
theorem Routing.Rounds.posted (h : Routing.Rounds R K flag a b) :
    ∃ sent, b.posted = a.posted ++ sent ∧ ∀ e ∈ sent, e.2.chunk ∈ K := by
  obtain ⟨new, hnew, hmem⟩ := h.exists_tried
  refine ⟨(new.reverse.filter Attempt.accepted).map fun t => (t.node, t.request), ?_, fun e he => ?_⟩
  · rw [Routing.posted, Routing.posted, hnew.tried, List.reverse_append, List.filter_append, List.map_append]
  · obtain ⟨t, ht, rfl⟩ := List.mem_map.mp he
    exact hmem t (List.mem_reverse.mp (List.mem_of_mem_filter ht))

/-- Erasing a chunk of another file. -/
theorem valueOf_erase_of_ne {map : List (FileChunk × ℤ)} {k k' : FileChunk} (hK : ToldApart K)
    (hm : OrderedIn FileChunk.rank K map) (hk : k ∈ K) (hne : k.fileId ≠ k'.fileId) :
    R.search.valueOf (R.search.erase k' map) k = R.search.valueOf map k := by
  refine hm.valueOf_erase hK.less_iff hk fun e _ hlt hgt hrank => hne ?_
  rw [← FileChunk.rank_injective hrank]
  exact FileChunk.fileId_eq_of_not_less hlt hgt

/-- Deleting a file leaves what the maps have for the chunks of the others alone. -/
theorem Routing.Rounds.deleted (hK : ToldApart K)
    (h : Routing.Rounds R {chunk | chunk.fileId = g} .deleteChunk a b) (hm : MapsInOrder K a.chunks) :
    MapsInOrder K b.chunks ∧ ∀ k ∈ K, k.fileId ≠ g →
      R.search.valueOf b.chunks.chunkToNode k = R.search.valueOf a.chunks.chunkToNode k ∧
        R.search.valueOf b.chunks.chunkToReplicaNode k =
          R.search.valueOf a.chunks.chunkToReplicaNode k := by
  induction h with
  | refl => exact ⟨hm, fun _ _ _ => ⟨rfl, rfl⟩⟩
  | tail _ hround ih =>
    obtain ⟨hm', hvalue⟩ := ih
    cases hround with
    | deleted mem _ _ _ =>
      refine ⟨⟨hm'.primary.erase, hm'.replica⟩, fun k hk hne => ?_⟩
      have hother : k.fileId ≠ _ := fun heq => hne (heq.trans mem)
      exact ⟨(valueOf_erase_of_ne hK hm'.primary hk hother).trans (hvalue k hk hne).1, (hvalue k hk hne).2⟩
    | deletedReplica mem _ _ _ =>
      refine ⟨⟨hm'.primary, hm'.replica.erase⟩, fun k hk hne => ?_⟩
      have hother : k.fileId ≠ _ := fun heq => hne (heq.trans mem)
      exact ⟨(hvalue k hk hne).1, (valueOf_erase_of_ne hK hm'.replica hk hother).trans (hvalue k hk hne).2⟩

/-- **A write sends its portions**, unless it is refused. -/
theorem step_writeFile_tries {fd count : ℤ} {buf : List UInt8} {client : Client}
    {script : List SendOutcome} (hlock : w.metaLock = none)
    (hstep : step R w (.writeFile fd buf count client script) w') :
    writeRefusal fd (sizeArgument count) client w ≠ none ∧
        routing w' = (routing w).told (.writeFile fd buf count client script) ∨
      writeRefusal fd (sizeArgument count) client w = none ∧
        ∃ info q, w.persistent.metadata.lookup (w.fileAt fd) = some info ∧
          0 ≤ w.volatile.getFileCursor (fdKey fd) ∧
          Routing.WriteTries R w.volatile q (w.fileAt fd) (portions (writeSpans info fd count w) buf)
            ((routing w).told (.writeFile fd buf count client script)) (routing w') := by
  let s := (routing w).told (.writeFile fd buf count client script)
  let P : Routing → Prop := fun s' => writeRefusal fd (sizeArgument count) client w ≠ none ∧ s' = s ∨
    writeRefusal fd (sizeArgument count) client w = none ∧
      ∃ info q, w.persistent.metadata.lookup (w.fileAt fd) = some info ∧
        0 ≤ w.volatile.getFileCursor (fdKey fd) ∧
        Routing.WriteTries R w.volatile q (w.fileAt fd) (portions (writeSpans info fd count w) buf) s s'
  have hwrite : wp (handle R (.writeFile fd buf count client script)) (fun _ w' => Routed P w')
      (fun _ => True) w := by
    refine wp_scripted.mpr (Enduring.wp_writeFile_unmoved (w := withScript script w) hlock fd buf _
      (fun reply hreply w₁ hw₁ => ⟨hw₁.metaLock.trans hlock, .inl ⟨?_, hw₁.routing⟩⟩) ?_)
    · intro hnone
      have hsome : writeRefusal fd (sizeArgument count) client w = some reply := hreply
      exact absurd (hnone.symm.trans hsome) (by simp)
    · intro q info w₁ hw₁ hpass hinfo offset hoffset
      have hrouting : routing w₁ = s := hw₁.routing
      have hcursor : w.volatile.getFileCursor (fdKey fd) = offset := hoffset
      have hlock₁ : w₁.metaLock = none := hw₁.metaLock.trans hlock
      have hdone : ∀ w₂, Routed (Routing.WriteTries R w.volatile q (w.fileAt fd)
          (portions (writeSpans info fd count w) buf) s) w₂ → Routed P w₂ := fun w₂ hw₂ =>
        ⟨hw₂.1, .inr ⟨hpass, info, q, hinfo, hcursor ▸ Int.natCast_nonneg offset, hw₂.2⟩⟩
      rw [writeSpans_eq w info count hcursor] at hdone
      by_cases hpos : 0 < toInt32 count
      · obtain ⟨hsize, hle⟩ := sizeArgument_eq hpos
        rw [hsize]
        refine wp_mono (wp_dispatchWrite_tries w.volatile q fd (PersistentMetadata.toStat info) offset buf
          client hle hlock₁) (fun _ w₂ hw₂ => hdone w₂ ?_) fun _ _ => trivial
        rw [← hrouting]
        exact hw₂
      · -- nothing to send
        have hzero : (toInt32 count).toNat = 0 := by omega
        have hnone : callSpans info.chunkSize.val (segment (PersistentMetadata.toStat info) offset
            (toInt32 count).toNat) = [] := by
          rw [hzero, segment, pieces_zero]
          rfl
        have hempty : chunksOf (w.fileAt fd) (callSpans (PersistentMetadata.toStat info).chunkSize.val
            (segment (PersistentMetadata.toStat info) offset (toInt32 count).toNat)) = ∅ := by
          refine Set.eq_empty_iff_forall_notMem.mpr fun k hk => ?_
          obtain ⟨l, hl, -⟩ := hk
          exact absurd (hnone ▸ hl : l ∈ []) List.not_mem_nil
        have hrounds := keeps_dispatchWrite (R := R) (f := w.fileAt fd) (s := s) q fd
          (PersistentMetadata.toStat info) offset buf count client w₁ ⟨hlock₁, hrouting ▸ .refl⟩
        rw [hempty] at hrounds
        refine wp_mono hrounds (fun _ w₂ hw₂ => hdone w₂ ⟨hw₂.1, ?_⟩) fun _ _ => trivial
        rw [hnone, hw₂.2.eq_of_empty]
        exact .done
  exact (hwrite.of_ok hstep).2

end

/-! ### The copies of a file -/

/-- Both nodes of each chunk of the file `f` have what the writes `ws` to the file make of it. -/
structure FileCopies (R : Runtime) (K : Set FileChunk) (f : ℕ) (stripeSize : StripeSize)
    (chunkSize : ChunkSize) (ws : List ChunkWrite) (w : World) : Prop where
  maps : MapsInOrder K w.chunks
  copies : ∀ k ∈ K, k.fileId = f → CopiesOf R k
    (chunkWrites stripeSize.val chunkSize.val (k.stripeId, k.chunkNum) ws) w.chunks (sends w.network.log)
  sizes : SizesAre f stripeSize chunkSize w.persistent
  unwritten : f ∉ w.persistent.metadata → ws = []
  spared : (custody w).Spared f

section

variable {R : Runtime} {K : Set FileChunk} {f : ℕ} {stripeSize : StripeSize} {chunkSize : ChunkSize}
  {ws : List ChunkWrite} {w w' : World} {i : Input} {is : List Input}

theorem portions_take : ∀ (l : List Span) (buf : List UInt8),
    portions l (buf.take (l.map Span.length).sum) = portions l buf
  | [], _ => rfl
  | s :: l, buf => by
    rw [portions, portions, List.map_cons, List.sum_cons, List.take_take, Nat.min_eq_left (Nat.le_add_right _ _),
      List.drop_take, Nat.add_sub_cancel_left, portions_take l]

/-- Every portion is sent. -/
theorem Routing.WriteTries.exists_posted {v : VolatileMetadata} {q : WriteRequest} {g : ℕ}
    {l : List (Span × List UInt8)} {a b : Routing} (h : Routing.WriteTries R v q g l a b)
    (hall : a.AllAccepted) {e : Span × List UInt8} (he : e ∈ l) :
    ∃ p ∈ b.posted, p.2.chunk = e.1.chunk g := by
  obtain ⟨new, hnew, haccepted, hrequests⟩ := h.sends hall
  have hmem : writePacket q.requestId g e.1 e.2 ∈ new.reverse.map Attempt.request := by
    rw [hrequests]
    exact List.mem_flatMap.mpr ⟨e, he, List.mem_cons_self⟩
  obtain ⟨t, ht, hrequest⟩ := List.mem_map.mp hmem
  have ht := List.mem_reverse.mp ht
  refine ⟨(t.node, t.request), List.mem_map.mpr ⟨t, List.mem_filter.mpr ⟨?_, haccepted t ht⟩, rfl⟩, ?_⟩
  · rw [hnew, List.mem_reverse]
    exact List.mem_append_left _ ht
  · exact congrArg ChunkRequest.chunk hrequest

theorem recordCall_of_notMem (hf : f ∉ w.persistent.metadata) : recordCall f w ws i = ws := by
  cases i with
  | writeFile fd buf count client script =>
    refine if_neg fun h => hf ?_
    obtain ⟨rfl, hpass⟩ := h
    unfold writeRefusal at hpass
    by_contra hnot
    have hnone : w.persistent.metadata.lookup (w.volatile.getFileInfo (fdKey fd)).fileId = none :=
      Finmap.lookup_eq_none.mpr hnot
    simp only [hnone] at hpass
    split_ifs at hpass
  | _ => rfl

theorem CopiesOf.read {k : FileChunk} {m : ChunkMaps} {sent sent' : List (ℤ × ChunkRequest)}
    (h : CopiesOf R k ws m sent) (hsent : ∀ e ∈ sent', e.2.flag = .readChunk) :
    CopiesOf R k ws m (sent ++ sent') := h.congr rfl rfl fun e he => .inl (hsent e he)

/-- What is known of the packets and the maps after a message. -/
theorem FileCopies.sent (hK : ToldApart K) (h : FileCopies R K f stripeSize chunkSize ws w)
    (hw : Running w) (hids : w.volatile.requestId + i.ids < 4294967296) (hspares : Spares f w i)
    (hconsistent : w.persistent.Consistent) (hfiles : w.persistent.lastFileId < 4294967296)
    (hwhole : i.Whole) (haccepted : i.Accepted) (hsent : ∀ e ∈ sends w'.network.log, e.2.chunk ∈ K)
    (hstep : step R w i w') : MapsInOrder K w'.chunks ∧ ∀ k ∈ K, k.fileId = f → CopiesOf R k
      (chunkWrites stripeSize.val chunkSize.val (k.stripeId, k.chunkNum) (recordCall f w ws i)) w'.chunks
        (sends w'.network.log) := by
  have hlock := hw.booked.unlocked
  have htold : routing w' = (routing w).told i → recordCall f w ws i = ws → MapsInOrder K w'.chunks ∧
      ∀ k ∈ K, k.fileId = f → CopiesOf R k (chunkWrites stripeSize.val chunkSize.val
        (k.stripeId, k.chunkNum) (recordCall f w ws i)) w'.chunks (sends w'.network.log) := by
    intro hrouting hsame
    obtain ⟨hchunks, hposted⟩ := (routing w).told_keeps i
    rw [← hrouting] at hchunks hposted
    have hchunks : w'.chunks = w.chunks := hchunks
    rw [hchunks, sends_eq_posted, hposted, ← sends_eq_posted, hsame]
    exact ⟨h.maps, h.copies⟩
  cases i with
  | writeFile fd buf count client script =>
    rcases step_writeFile_tries hlock hstep with ⟨hrefused, hrouting⟩ | ⟨hpass, info, q, hinfo, h₀, htries⟩
    · exact htold hrouting (if_neg fun hcond => hrefused hcond.2)
    · have hall : ((routing w).told (.writeFile fd buf count client script)).AllAccepted :=
        allAccepted_withScript (w := w) haccepted
      have hl : ∀ e ∈ portions (writeSpans info fd count w) buf, e.1.chunk (w.fileAt fd) ∈ K := by
        intro e he
        obtain ⟨p, hp, hchunk⟩ := htries.exists_posted hall he
        rw [← sends_eq_posted] at hp
        exact hchunk ▸ hsent p hp
      refine ⟨h.maps.writeTries hK hl htries, fun k hk hf => ?_⟩
      have hcopies := h.copies k hk hf
      rw [sends_eq_posted] at hcopies
      have hcopies := hcopies.writeTries hK hk hl htries hall h.maps
      rw [sends_eq_posted]
      by_cases hfile : w.fileAt fd = f
      · -- the write is cut into the portions
        obtain ⟨o, ho⟩ := Int.eq_ofNat_of_zero_le h₀
        obtain ⟨hstripe, hchunk⟩ := h.sizes info (hfile ▸ hinfo)
        have hlength : (buf.take (toInt32 count).toNat).length = (toInt32 count).toNat := by
          rw [List.length_take]
          exact Nat.min_eq_left (Int.toNat_le.mpr hwhole)
        have hspans : writeSpans info fd count w = spans stripeSize.val chunkSize.val o
            (toInt32 count).toNat := by
          rw [writeSpans_eq w info count ho, ← hstripe, ← hchunk]
          rfl
        have hsum : ((spans stripeSize.val chunkSize.val o (toInt32 count).toNat).map Span.length).sum =
            (toInt32 count).toNat := sum_length_of_tiles (tiles_spans stripeSize chunkSize o _)
        have hrecord : recordCall f w ws (.writeFile fd buf count client script) =
            ⟨(o : ℤ), buf.take (toInt32 count).toNat⟩ :: ws := by
          rw [recordCall, if_pos ⟨hfile, hpass⟩, ho]
        have hrecordChunk : recordChunk f k = recordPortion (k.stripeId, k.chunkNum) := by
          subst hf
          exact recordChunk_eq_recordPortion k.fileId (k.stripeId, k.chunkNum)
        have hportions : portions (writeSpans info fd count w) buf = portions
            (spans stripeSize.val chunkSize.val o (toInt32 count).toNat)
              (buf.take (toInt32 count).toNat) := by
          rw [hspans, ← portions_take _ buf, hsum]
        rw [hrecord, chunkWrites, hlength, Int.toNat_natCast, ← hportions, ← hrecordChunk]
        rw [hfile] at hcopies
        exact hcopies
      · have hrecord : recordCall f w ws (.writeFile fd buf count client script) = ws :=
          if_neg fun hcond => hfile hcond.1
        have hne : k.fileId ≠ w.fileAt fd := fun heq => hfile (heq.symm.trans hf)
        rw [foldl_recordChunk_of_ne hne] at hcopies
        rw [hrecord]
        exact hcopies
  | readFile fd count client script =>
    obtain ⟨sent, hsends, hissues⟩ := issued_of_step hw hids hstep
    have hchunks : w'.chunks = w.chunks := by
      obtain ⟨-, hrouting⟩ := step_routed hlock hstep
      rcases hrouting with hrouting | ⟨flag, g, K', hconcerns, hrounds⟩
      · exact congrArg Routing.chunks hrouting
      · cases hconcerns
        exact hrounds.chunks_eq
    rw [hchunks, hsends]
    refine ⟨h.maps, fun k hk hf => (h.copies k hk hf).read fun e he => ?_⟩
    have hissue := hissues e he
    generalize e.2 = r at hissue ⊢
    cases hissue
    rfl
  | deleteFile path client script =>
    obtain ⟨-, hrouting⟩ := step_routed hlock hstep
    rcases hrouting with hrouting | ⟨flag, g, K', hconcerns, hrounds⟩
    · exact htold hrouting rfl
    · cases hconcerns with
      | @deleteFile _ _ _ info file =>
        obtain ⟨hmaps, hvalue⟩ := Routing.Rounds.deleted hK hrounds h.maps
        obtain ⟨sent, hposted, hchunk⟩ := hrounds.posted
        refine ⟨hmaps, fun k hk hf => ?_⟩
        have hother : k.fileId ≠ info.fileId := fun heq => hspares info file (heq.symm.trans hf)
        obtain ⟨hp, hr⟩ := hvalue k hk hother
        have hsends : sends w'.network.log = sends w.network.log ++ sent := by
          rw [sends_eq_posted, hposted, sends_eq_posted]
          rfl
        rw [hsends]
        refine (h.copies k hk hf).congr hp hr fun e he => .inr fun heq => hother ?_
        have hid : e.2.chunk.fileId = info.fileId := hchunk e he
        have hsmall : info.fileId < 4294967296 := by
          obtain ⟨g, -, hg⟩ := Option.bind_eq_some_iff.mp file
          have hle := hconsistent.le_lastFileId g (Finmap.mem_of_lookup_eq_some hg)
          rw [hconsistent.fileId_eq g info hg]
          omega
        have hdescriptor := (DataDescriptor.mk.inj heq).1
        rw [hid] at hdescriptor
        exact (toInt32_injOn hsmall (hK.ids k hk).1 hdescriptor).symm
  | _ =>
    obtain ⟨-, hrouting⟩ := step_routed hlock hstep
    rcases hrouting with hrouting | ⟨flag, g, K', hconcerns, -⟩
    · exact htold hrouting rfl
    · cases hconcerns

/-- **The step lemma.** -/
theorem FileCopies.step (hK : ToldApart K) (h : FileCopies R K f stripeSize chunkSize ws w)
    (hw : Running w) (hids : w.volatile.requestId + i.ids < 4294967296) (hspares : Spares f w i)
    (hconsistent : w.persistent.Consistent) (hfiles : w.persistent.lastFileId + i.files < 4294967296)
    (hwhole : i.Whole) (haccepted : i.Accepted) (hsent : ∀ e ∈ sends w'.network.log, e.2.chunk ∈ K)
    (hstep : Barista.step R w i w') :
    ∃ stripeSize' chunkSize', FileCopies R K f stripeSize' chunkSize' (recordCall f w ws i) w' := by
  obtain ⟨hmaps, hcopies⟩ := h.sent hK hw hids hspares hconsistent (by omega) hwhole haccepted hsent hstep
  obtain ⟨hspared, hstays⟩ := (hw.handled hids hstep).spared hspares h.spared
  have hunwritten : f ∉ w'.persistent.metadata → recordCall f w ws i = [] := by
    intro hf
    have hnot : f ∉ w.persistent.metadata := fun hmem => hf (hstays hmem)
    rw [recordCall_of_notMem hnot, h.unwritten hnot]
  rcases h.sizes.step hw.booked.unlocked hconsistent hfiles hstep with hsizes | ⟨hf, stripeSize', chunkSize', hsizes⟩
  · exact ⟨_, _, hmaps, hcopies, hsizes, hunwritten, hspared⟩
  · -- the file is new, and nothing was written to it
    refine ⟨stripeSize', chunkSize', hmaps, ?_, hsizes, hunwritten, hspared⟩
    rw [recordCall_of_notMem hf, h.unwritten hf] at hcopies ⊢
    exact hcopies

/-- **The run lemma.** -/
theorem FileCopies.run (hK : ToldApart K) (h : FileCopies R K f stripeSize chunkSize ws w)
    (hw : Running w) (hconsistent : w.persistent.Consistent)
    (hrun : Steps (Guarded (Spares f) (Barista.step R)) w is w')
    (hids : w.volatile.requestId + idsOf is < 4294967296)
    (hfiles : w.persistent.lastFileId + filesOf is < 4294967296) (hwhole : ∀ i ∈ is, i.Whole)
    (haccepted : ∀ i ∈ is, i.Accepted) (hsent : ∀ e ∈ sends w'.network.log, e.2.chunk ∈ K) :
    ∃ stripeSize' chunkSize', FileCopies R K f stripeSize' chunkSize' (writesTo R f w is ws) w' := by
  induction hrun generalizing ws stripeSize chunkSize with
  | refl w => exact ⟨_, _, h⟩
  | @cons w w₁ w' i is head tail ih =>
    obtain ⟨hspares, hstep⟩ := head
    rw [idsOf_cons, ← Nat.add_assoc] at hids
    rw [filesOf_cons, ← Nat.add_assoc] at hfiles
    obtain ⟨hwhole₁, hwhole⟩ := List.forall_mem_cons.mp hwhole
    obtain ⟨haccepted₁, haccepted⟩ := List.forall_mem_cons.mp haccepted
    have hhandled := hw.handled (by omega) hstep
    have hw₁ := hhandled.running hw
    have hids₁ : w₁.volatile.requestId + idsOf is < 4294967296 := by rwa [hhandled.requestId]
    obtain ⟨hconsistent₁, hle, -⟩ := hhandled.deletes hconsistent (by omega)
    obtain ⟨sent, hsends, -⟩ := hw₁.packets_inChunk tail.of_guarded hids₁ hwhole
    obtain ⟨stripeSize₁, chunkSize₁, h₁⟩ := h.step hK hw (by omega) hspares hconsistent (by omega) hwhole₁
      haccepted₁ (fun e he => hsent e (hsends ▸ List.mem_append_left _ he)) hstep
    rw [writesTo_cons hstep]
    exact ih h₁ hw₁ hconsistent₁ hids₁ (by omega) hwhole haccepted hsent

/-- Nothing was written to a file of a server that was just started and knows of no chunks. -/
theorem Started.fileCopies (hstart : Started w) (hchunks : w.chunks = {}) (f : ℕ) :
    ∃ stripeSize chunkSize, FileCopies R K f stripeSize chunkSize [] w := by
  have hcopies : ∀ k, CopiesOf R k [] w.chunks (sends w.network.log) := by
    intro k
    have hnone : ∀ node, about node (sends w.network.log) = [] := fun node => by
      rw [hstart.log]
      rfl
    have hnot : ¬ chunkExists R [] k = true := by simp [chunkExists, find?, behind]
    refine ⟨?_, ?_, fun node _ => ?_⟩
    · rw [hchunks]
      exact iff_of_false hnot (not_not.mpr rfl)
    · rw [hchunks]
      exact iff_of_false hnot (not_not.mpr rfl)
    · rw [hnone]
      exact .refl _
  have hspared : (custody w).Spared f := by
    intro id client hactive
    simp [custody, hstart.requests, Requests.holder] at hactive
  have hmaps : MapsInOrder K w.chunks := hchunks ▸ ⟨orderedIn_nil, orderedIn_nil⟩
  cases hfile : w.persistent.metadata.lookup f with
  | none =>
    refine ⟨w.volatile.stripeSize, w.volatile.chunkSize, hmaps, fun k _ _ => hcopies k, ?_, fun _ => rfl,
      hspared⟩
    intro info hinfo
    rw [hfile] at hinfo
    exact absurd hinfo (by simp)
  | some info =>
    refine ⟨info.stripeSize, info.chunkSize, hmaps, fun k _ _ => hcopies k, ?_, fun _ => rfl, hspared⟩
    intro info' hinfo
    rw [hfile] at hinfo
    exact Option.some.inj hinfo ▸ ⟨rfl, rfl⟩

end

end DecaFS
