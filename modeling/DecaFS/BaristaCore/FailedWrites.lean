import DecaFS.BaristaCore.Replies
import DecaFS.BaristaCore.Sizes
import DecaFS.BaristaCore.Striping

/-!
# What a write reports

The result of a write is the sum of the counts that came for its primaries, `-1` for a failed one
included; of the replicas only the number of responses counts (`WriteDone.result_eq`). The size and the
cursor are those after a write that succeeded. So what the client is told, and what the metadata says, is
right if and only if every response has the length that was asked for (`failedWrite_iff`).
-/

namespace DecaFS

open Relation Desk Code Barista FileLocks

section

variable {R : Runtime} {w w₀ w₁ w₂ w' w'' : World} {q : WriteRequest} {new new' : List Event}

/-! ### The sum of the counts -/

/-- The counts that came under an id of a write, in the order in which they came. -/
def countsOf (id : ℕ) (log : List Event) : List ℤ :=
  (responses ⟨.writeChunk, id⟩ (fun count _ => [count]) log).flatMap Prod.snd

/-- Counts added up in an `int`. -/
def tally (count : ℤ) (counts : List ℤ) : ℤ := counts.foldl (fun c x => toInt32 (c + x)) count

theorem countsOf_append (id : ℕ) (log log' : List Event) :
    countsOf id (log' ++ log) = countsOf id log ++ countsOf id log' := by
  rw [countsOf, responses_append, List.flatMap_append]
  rfl

theorem tally_append (count : ℤ) (l l' : List ℤ) : tally count (l ++ l') = tally (tally count l) l' :=
  List.foldl_append

/-- Lengths that came in any order add up. -/
theorem tally_of_perm {counts : List ℤ} {lengths : List ℕ}
    (h : counts.Perm (lengths.map fun n : ℕ => (n : ℤ))) : tally 0 counts = toInt32 (lengths.sum : ℕ) := by
  have hsum : ∀ (counts : List ℤ) (x : ℤ), tally (toInt32 x) counts = toInt32 (x + counts.sum) := by
    intro counts
    induction counts with
    | nil => intro x; rw [List.sum_nil, add_zero]; rfl
    | cons c counts ih =>
      intro x
      have hcons : tally (toInt32 x) (c :: counts) = tally (toInt32 (toInt32 x + c)) counts := rfl
      rw [hcons, toInt32_add, ih, List.sum_cons, add_assoc]
  have hzero : toInt32 0 = 0 := by decide
  have htally := hsum counts 0
  rw [hzero, zero_add, h.sum_eq] at htally
  rw [htally]
  clear h htally
  refine congrArg toInt32 ?_
  induction lengths with
  | nil => rfl
  | cons n lengths ih => rw [List.map_cons, List.sum_cons, List.sum_cons, ih, Int.natCast_add]

/-- The result that goes to the client of a write. -/
def writeReply (q : WriteRequest) (a : WriteRequestInfo) (count : ℤ) : Event :=
  .replied (.write q) a.info.client (.writeResult a.fd count)

/-- How the write `q`, once `a`, gets on while `new` is logged. -/
def WriteOn (q : WriteRequest) (a : WriteRequestInfo) (new : List Event) (w' : World) : Prop :=
  (∃ a', w'.requests.activeWriteRequests.lookup q = some a' ∧ a'.fd = a.fd ∧
      a'.info.client = a.info.client ∧ a'.count = tally a.count (countsOf q.requestId new)) ∨
    ∃ pre post, new = post ++ writeReply q a (tally a.count (countsOf q.requestId pre)) :: pre

/-- How the writes get on. -/
def Tallying (w w' : World) : Prop :=
  w.requests.LookupsPaired → w'.requests.LookupsPaired ∧
    ∃ new, w'.network.log = new ++ w.network.log ∧
      ∀ q a, w.requests.activeWriteRequests.lookup q = some a → WriteOn q a new w'

theorem WriteOn.append {a : WriteRequestInfo} (h : WriteOn q a new w')
    (h' : ∀ a', w'.requests.activeWriteRequests.lookup q = some a' → WriteOn q a' new' w'') :
    WriteOn q a (new' ++ new) w'' := by
  rcases h with ⟨a', ha', hfd, hclient, hcount⟩ | ⟨pre, post, rfl⟩
  · rcases h' a' ha' with ⟨a'', ha'', hfd', hclient', hcount'⟩ | ⟨pre, post, rfl⟩
    · refine .inl ⟨a'', ha'', hfd'.trans hfd, hclient'.trans hclient, ?_⟩
      rw [hcount', hcount, countsOf_append, tally_append]
    · refine .inr ⟨pre ++ new, post, ?_⟩
      rw [countsOf_append, tally_append, ← hcount, List.append_assoc, List.cons_append, writeReply,
        writeReply, hfd, hclient]
  · exact .inr ⟨pre, new' ++ post, by rw [List.append_assoc]⟩

theorem Tallying.refl : Tallying w w := fun hpaired =>
  ⟨hpaired, [], rfl, fun _ a ha => .inl ⟨a, ha, rfl, rfl, rfl⟩⟩

theorem Tallying.trans (h : Tallying w w') (h' : Tallying w' w'') : Tallying w w'' := by
  intro hpaired
  obtain ⟨hpaired', new, hlog, hwrite⟩ := h hpaired
  obtain ⟨hpaired'', new', hlog', hwrite'⟩ := h' hpaired'
  exact ⟨hpaired'', new' ++ new, by rw [hlog', hlog, List.append_assoc],
    fun q a ha => (hwrite q a ha).append fun a' ha' => hwrite' q a' ha'⟩

/-- The writes stay as they are while none is answered. -/
theorem Tallying.of_eq (new : List Event) (hlog : w'.network.log = new ++ w.network.log)
    (hwrites : w'.requests.activeWriteRequests = w.requests.activeWriteRequests)
    (hlookups : w'.requests.writeRequestLookups = w.requests.writeRequestLookups)
    (hnew : ∀ r ∈ answeredPackets new, r.flag ≠ .writeChunk) : Tallying w w' := by
  refine fun hpaired => ⟨hpaired.congr hlookups fun q => by rw [hwrites], new, hlog, fun q a ha =>
    .inl ⟨a, hwrites ▸ ha, rfl, rfl, ?_⟩⟩
  have hnone : countsOf q.requestId new = [] := by
    rw [countsOf, responses_eq_nil fun r hr htag => hnew r hr (congrArg Tag.flag htag : r.tag.flag = Flag.writeChunk)]
    rfl
  rw [hnone]
  rfl

/-- The entry of the write `q` changes from `a` to `a'`, and `new` is logged. -/
theorem Tallying.set {a a' : WriteRequestInfo} (new : List Event)
    (hlog : w'.network.log = new ++ w.network.log)
    (ha : w.requests.activeWriteRequests.lookup q = some a)
    (hwrites : w'.requests = w.requests.setWrite q a') (hfd : a'.fd = a.fd)
    (hclient : a'.info.client = a.info.client)
    (hcount : a'.count = tally a.count (countsOf q.requestId new))
    (hother : ∀ q' ∈ w.requests.activeWriteRequests, w.requests.LookupsPaired → q' ≠ q →
      countsOf q'.requestId new = []) : Tallying w w' := by
  intro hpaired
  rw [hwrites]
  refine ⟨hpaired.setWrite (Finmap.mem_of_lookup_eq_some ha) _, new, hlog, fun q' b hb => .inl ?_⟩
  rw [hwrites]
  rcases eq_or_ne q' q with rfl | hne
  · obtain rfl : a = b := Option.some.inj (ha.symm.trans hb)
    exact ⟨a', Finmap.lookup_insert _, hfd, hclient, hcount⟩
  · refine ⟨b, (Finmap.lookup_insert_of_ne _ hne).trans hb, rfl, rfl, ?_⟩
    rw [hother q' (Finmap.mem_of_lookup_eq_some hb) hpaired hne]
    rfl

/-- **What an exchange does to the writes.** -/
theorem Exchange.tallying (h : Exchange R w w') : Tallying w w' := by
  cases h with
  | idle h =>
    obtain ⟨hr, -, hlog⟩ := traffic_eq h
    exact .of_eq [] hlog (by rw [hr]) (by rw [hr]) (List.forall_mem_nil _)
  | note e plain h =>
    obtain ⟨hr, -, hlog⟩ := traffic_eq h
    refine .of_eq [e] hlog (by rw [hr]) (by rw [hr]) ?_
    cases e <;> simp [Event.isPlain, answeredPackets, Event.answeredPacket] at plain ⊢
  | refuse op client reply h =>
    obtain ⟨hr, -, hlog⟩ := traffic_eq h
    exact .of_eq [_] hlog (by rw [hr]) (by rw [hr]) (List.forall_mem_nil _)
  | send node r h =>
    obtain ⟨hr, -, hlog⟩ := traffic_eq h
    exact .of_eq [_] hlog (by rw [hr]) (by rw [hr]) (List.forall_mem_nil _)
  | answerRead i r count data a packet flag entry h =>
    obtain ⟨hr, -, hlog⟩ := traffic_eq h
    refine .of_eq [_] hlog (by rw [hr]; rfl) (by rw [hr]; rfl) ?_
    simp [answeredPackets, Event.answeredPacket, flag]
  | answerDelete i r count data a packet flag entry h =>
    obtain ⟨hr, -, hlog⟩ := traffic_eq h
    refine .of_eq [_] hlog (by rw [hr]; rfl) (by rw [hr]; rfl) ?_
    simp [answeredPackets, Event.answeredPacket, flag]
  | answerWrite i r count data q a packet flag request entry h =>
    obtain ⟨hr, -, hlog⟩ := traffic_eq h
    have hcounts : ∀ id, countsOf id [.answered r count data] = if r.id = id then [count] else [] := by
      intro id
      by_cases hid : r.id = id
      · simp [countsOf, responses, Event.response, ChunkRequest.tag, flag, hid]
      · simp [countsOf, responses, Event.response, ChunkRequest.tag, flag, hid]
    refine .set [_] hlog entry hr ?_ ?_ ?_ fun q' hq' hpaired hne => ?_
    · unfold WriteRequestInfo.heard
      split_ifs <;> rfl
    · unfold WriteRequestInfo.heard
      split_ifs <;> rfl
    · rw [hcounts, WriteRequestInfo.heard]
      by_cases hid : r.id = q.requestId
      · rw [if_pos (decide_eq_true hid), if_pos hid]
        rfl
      · rw [if_neg (by simpa using hid), if_neg hid]
        rfl
    · -- an id belongs to one write
      rw [hcounts, if_neg]
      intro hid
      have hlookup := hpaired.lookup_id q' hq'
      rw [← hid, request] at hlookup
      exact hne (Option.some.inj hlookup).symm
  | expectRead id n a entry h =>
    obtain ⟨hr, -, hlog⟩ := traffic_eq h
    exact .of_eq [] hlog (by rw [hr]; rfl) (by rw [hr]; rfl) (List.forall_mem_nil _)
  | expectDelete id n a entry h =>
    obtain ⟨hr, -, hlog⟩ := traffic_eq h
    exact .of_eq [] hlog (by rw [hr]; rfl) (by rw [hr]; rfl) (List.forall_mem_nil _)
  | expectWrite q n m a entry h =>
    obtain ⟨hr, -, hlog⟩ := traffic_eq h
    exact .set [] hlog entry hr rfl rfl rfl fun _ _ _ _ => rfl
  | replyRead id a entry h =>
    obtain ⟨hr, -, hlog⟩ := traffic_eq h
    exact .of_eq [_] hlog (by rw [hr]; rfl) (by rw [hr]; rfl) (List.forall_mem_nil _)
  | replyDelete id a entry h =>
    obtain ⟨hr, -, hlog⟩ := traffic_eq h
    exact .of_eq [_] hlog (by rw [hr]; rfl) (by rw [hr]; rfl) (List.forall_mem_nil _)
  | replyWrite q a entry h =>
    obtain ⟨hr, -, hlog⟩ := traffic_eq h
    intro hpaired
    rw [hr]
    refine ⟨hpaired.eraseWrite (Finmap.mem_of_lookup_eq_some entry), [_], hlog, fun q' b hb => ?_⟩
    rcases eq_or_ne q' q with rfl | hne
    · obtain rfl : a = b := Option.some.inj (entry.symm.trans hb)
      exact .inr ⟨[], [], rfl⟩
    · refine .inl ⟨b, ?_, rfl, rfl, rfl⟩
      rw [hr]
      exact (Finmap.lookup_erase_ne hne).trans hb
  | registerRead id a new h =>
    obtain ⟨hr, -, hlog⟩ := traffic_eq h
    exact .of_eq [] hlog (by rw [hr]; rfl) (by rw [hr]; rfl) (List.forall_mem_nil _)
  | registerDelete id a new h =>
    obtain ⟨hr, -, hlog⟩ := traffic_eq h
    exact .of_eq [] hlog (by rw [hr]; rfl) (by rw [hr]; rfl) (List.forall_mem_nil _)
  | registerWrite q a ne newId newReplica h =>
    obtain ⟨hr, -, hlog⟩ := traffic_eq h
    intro hpaired
    rw [hr]
    refine ⟨hpaired.addWrite ne newId newReplica a, [], hlog, fun q' b hb => .inl ⟨b, ?_, rfl, rfl, rfl⟩⟩
    rw [hr]
    refine (Finmap.lookup_insert_of_ne _ ?_).trans hb
    rintro rfl
    exact newId (Finmap.mem_of_lookup_eq_some (hpaired.lookup_id q' (Finmap.mem_of_lookup_eq_some hb)))

theorem tallying_of_exchanges (h : ReflTransGen (Exchange R) w w') : Tallying w w' := by
  induction h with
  | refl => exact .refl
  | tail _ h ih => exact ih.trans h.tallying

/-! ### The result of a write -/

variable {fd count : ℤ} {client : Client} {buf : List UInt8} {info : PersistentMetadataInfo}
  {used : List SendOutcome} {sent : List (ℤ × ChunkRequest)}

/-- A write that is not refused is a run of exchanges from its registration on. -/
theorem wp_writeFile_reached (fd count : ℤ) (buf : List UInt8) (client : Client) (h : Booked none w)
    (hid : w.volatile.requestId + 2 < 4294967296) :
    wp (writeFile R fd buf (sizeArgument count) client)
      (fun _ w' => writeRefusal fd (sizeArgument count) client w = none →
        Reached R (writeRegistered fd (w.fileAt fd) client w) w') (fun _ => True) w := by
  refine wp_writeFile h.unlocked hid (fun _ => trivial) (fun _ => trivial)
    (fun _ _ reply hreply hpass => absurd (hpass.symm.trans hreply) (by simp)) ?_
  intro huser _ info _ _ hcursor
  rw [← Int.toNat_of_nonneg hcursor]
  exact wp_mono (wp_dispatchWrite_reached h huser fd _ _ _ buf count) (fun _ _ hw' _ => hw') fun _ he => he

/-- A write that was taken, up to a state in which it has its result. -/
structure WriteDone (R : Runtime) (fd : ℤ) (buf : List UInt8) (count : ℤ) (client : Client)
    (info : PersistentMetadataInfo) (used : List SendOutcome) (sent : List (ℤ × ChunkRequest))
    (w w₂ w₁ w' : World) (reply : Reply) : Prop
    extends WriteServed R fd buf count client info used sent w w₂ w₁ where
  booked : Booked none w
  running : Running w'
  accounted : Accounted w'
  reaches : Reaches Operation.tags Tag.id (desk none w₁) (desk none w')
  tallying : Tallying (writeRegistered fd (w.fileAt fd) client w) w'
  logged : ∃ new, w'.network.log = new ++ w₂.network.log
  replied : ∃ c, .replied (.write (nextWrite w)) c reply ∈ w'.network.log

namespace WriteDone

variable {reply : Reply} (h : WriteDone R fd buf count client info used sent w w₂ w₁ w' reply)

include h

/-- Nothing is sent for the write before. -/
theorem unsent {t : Tag} (ht : t ∈ (Operation.write (nextWrite w)).tags) :
    (ledger (writeRegistered fd (w.fileAt fd) client w).network.log).count (.sent t) = 0 :=
  h.booked.unsent_of_openOp (h.booked.registerWrite fd client (w.fileAt fd)).2 ht

/-- **The primary of each chunk is answered once** by the time of the result. -/
theorem primaries_perm : ((responses ⟨.writeChunk, (nextWrite w).requestId⟩ (fun count _ => [count])
    w'.network.log).map Prod.fst).Perm ((writeSpans info fd count w).map (·.chunk (w.fileAt fd))) := by
  have ht : (⟨.writeChunk, (nextWrite w).requestId⟩ : Tag) ∈ (Operation.write (nextWrite w)).tags :=
    List.mem_cons_self
  obtain ⟨c, hmem⟩ := h.replied
  have hperm := h.running.responses_perm (v := fun count _ => [count]) h.accounted ht hmem
  rw [h.finished.under_sends ht (h.unsent ht) h.stored.toSending h.reaches h.logged,
    h.stored.rounds.under_primary (by simp [nextWrite]), List.map_map] at hperm
  have hchunks : (portions (writeSpans info fd count w) buf).map
      (ChunkRequest.chunk ∘ fun e => writePacket (nextWrite w).requestId (w.fileAt fd) e.1 e.2) =
        (writeSpans info fd count w).map (·.chunk (w.fileAt fd)) := by
    conv_rhs => rw [← map_fst_portions (writeSpans info fd count w) buf, List.map_map]
    rfl
  rwa [hchunks] at hperm

/-- **The result** is the sum of what came for the primaries. -/
theorem result_eq : reply =
    .writeResult fd (tally 0 (countsOf (nextWrite w).requestId w'.network.log)) := by
  generalize hq : nextWrite w = q
  obtain ⟨c, hmem⟩ := h.replied
  rw [hq] at hmem
  let w₀ := writeRegistered fd (w.fileAt fd) client w
  let a : WriteRequestInfo :=
    { info := ⟨0, 0, w.fileAt fd, client⟩, replicaInfo := ⟨0, 0, w.fileAt fd, client⟩, fd := fd }
  have ha : w₀.requests.activeWriteRequests.lookup q = some a := by
    rw [← hq]
    exact Finmap.lookup_insert _
  have ht : (⟨.writeChunk, q.requestId⟩ : Tag) ∈ (Operation.write q).tags := List.mem_cons_self
  have hbooked := (h.booked.registerWrite fd client (w.fileAt fd)).1
  obtain ⟨-, new, hnew, hwrite⟩ := h.tallying hbooked.paired
  rcases hwrite q a ha with ⟨a', ha', -⟩ | ⟨pre, post, rfl⟩
  · -- a write that is still active has no result
    have hactive : w'.requests.Active (.write q) := Finmap.mem_of_lookup_eq_some ha'
    have hledger : .replied (.write q) ∈ ledger w'.network.log := List.mem_filterMap.mpr ⟨_, hmem, rfl⟩
    exact absurd hledger (h.running.booked.inv.not_replied_of_active (.write q) hactive)
  · have hlog : w'.network.log = post ++ writeReply q a (tally a.count (countsOf q.requestId pre)) ::
        (pre ++ w₀.network.log) := by
      rw [hnew, List.append_assoc]
      rfl
    have hmem' : writeReply q a (tally a.count (countsOf q.requestId pre)) ∈ w'.network.log := by
      rw [hlog]
      exact List.mem_append_right _ List.mem_cons_self
    have hearly : responses ⟨.writeChunk, q.requestId⟩ (fun count _ => [count]) w₀.network.log = [] :=
      hbooked.responses_eq_nil (hq ▸ h.unsent (hq ▸ ht))
    have hcounts : countsOf q.requestId w'.network.log = countsOf q.requestId pre := by
      rw [countsOf, h.running.responses_eq h.accounted ht hlog, responses_append, hearly,
        List.nil_append]
      rfl
    obtain ⟨-, rfl⟩ := h.running.booked.replied_unique hmem hmem'
    rw [hcounts]

/-- If the primaries are written, the result is the number of bytes. -/
theorem result_of_stored (hstored : ∀ s ∈ writeSpans info fd count w,
    came ⟨.writeChunk, (nextWrite w).requestId⟩ (fun count _ => [count]) w'.network.log
      (s.chunk (w.fileAt fd)) = [(s.length : ℤ)]) :
    reply = .writeResult fd (toInt32 (((writeSpans info fd count w).map Span.length).sum : ℕ)) := by
  have hsorted : (writeSpans info fd count w).Pairwise
      fun s s' => (s.chunk (w.fileAt fd)).rank < (s'.chunk (w.fileAt fd)).rank :=
    pairwise_rank_callSpans _ _ pairwise_id_pieces
  have honce : ((writeSpans info fd count w).map (·.chunk (w.fileAt fd))).Nodup :=
    List.pairwise_map.mpr (hsorted.imp fun hlt heq => hlt.ne (congrArg FileChunk.rank heq))
  have hperm := (perm_of_map_fst h.primaries_perm honce).flatMap_right Prod.snd
  rw [List.map_map, List.flatMap_map] at hperm
  have hlengths : (writeSpans info fd count w).flatMap (fun s =>
      ((responses ⟨.writeChunk, (nextWrite w).requestId⟩ (fun count _ => [count]) w'.network.log).filter
        (·.1 = s.chunk (w.fileAt fd))).flatMap Prod.snd) =
          ((writeSpans info fd count w).map Span.length).map fun n : ℕ => (n : ℤ) := by
    rw [List.map_map, List.map_eq_flatMap]
    exact List.flatMap_congr hstored
  rw [h.result_eq, countsOf, tally_of_perm (hperm.trans (.of_eq hlengths))]

end WriteDone

/-! ### What the client is told -/

/-- Both copies of the span are stored: one response came for each, with the length of the span. -/
def StoredWhole (q : WriteRequest) (f : ℕ) (log : List Event) (span : Span) : Prop :=
  ∀ id ∈ [q.requestId, q.replicaRequestId],
    came ⟨.writeChunk, id⟩ (fun count _ => [count]) log (span.chunk f) = [(span.length : ℤ)]

/-- All bytes are reported only if all are stored, otherwise a failure or no more than a stored beginning;
and neither the size, `s` before, nor the cursor, `c` before, counts more than what is reported. -/
structure ReportsStored (fd : ℤ) (f n s c : ℕ) (l : List Span) (stored : Span → Prop) (result : ℤ)
    (w : World) : Prop where
  whole : result = n → ∀ span ∈ l, stored span
  part : (¬ ∀ span ∈ l, stored span) → result < 0 ∨ ∃ front back, l = front ++ back ∧
    (∀ span ∈ front, stored span) ∧ 0 ≤ result ∧ result ≤ (front.map Span.length).sum
  size : ∀ info, w.persistent.metadata.lookup f = some info → info.size ≤ s + result.toNat
  cursor : w.volatile.getFileCursor (fdKey fd) ≤ (c + result.toNat : ℕ)

/-- **What a result has to do with the size and the cursor.** They count all bytes, so all of them have to
be stored. -/
theorem reportsStored_iff {f n s c : ℕ} {l : List Span} {stored : Span → Prop} {result : ℤ}
    (hn : 0 < n) (hlength : (l.map Span.length).sum = n) (hmeasures : Measures fd f (s + n) (c + n) w)
    (hresult : (∀ span ∈ l, stored span) → result = n) :
    ReportsStored fd f n s c l stored result w ↔ ∀ span ∈ l, stored span := by
  obtain ⟨info, hinfo, hsize⟩ := Option.map_eq_some_iff.mp hmeasures.size
  constructor
  · intro h
    by_contra hnot
    have hle := h.size info hinfo
    rcases h.part hnot with hneg | ⟨front, back, rfl, -, h₀, hfront⟩
    · omega
    · rw [List.map_append, List.sum_append] at hlength
      exact hnot (h.whole (by omega))
  · intro hall
    obtain rfl := hresult hall
    refine ⟨fun _ => hall, fun hnot => absurd hall hnot, fun info' hinfo' => ?_, ?_⟩
    · obtain rfl := Option.some.inj (hinfo.symm.trans hinfo')
      omega
    · rw [hmeasures.cursor, Int.toNat_natCast]

/-- **When a write reports what is stored.** In every run the result of a write that stays below 2 GiB,
and the size and the cursor it leaves, count no more than what is stored, exactly if each response to a
packet of a primary or a replica has the length that was asked for. -/
theorem failedWrite_iff {is : List Input} {ds : List Delivery} {f s c : ℕ} {script : List SendOutcome}
    {client' : Client} {fd' result : ℤ} (hstart : Started w₀) (hrun : Steps (step R) w₀ is w)
    (hat : WritesAt fd count client f s c w) (hinfo : w.persistent.metadata.lookup f = some info)
    (hwrite : step R w (.writeFile fd buf count client script) w₁)
    (hrun' : Steps (step R) w₁ (ds.map .response) w') (hids : idsOf is + 2 < 4294967296)
    (hreplied : .replied (.write (nextWrite w)) client' (.writeResult fd' result) ∈ w'.network.log)
    (hstays : f ∈ w'.persistent.metadata) :
    ReportsStored fd f count.toNat s c
        (spans info.stripeSize.val info.chunkSize.val c count.toNat)
        (StoredWhole (nextWrite w) f w'.network.log) result w' ↔
      ∀ span ∈ spans info.stripeSize.val info.chunkSize.val c count.toNat,
        StoredWhole (nextWrite w) f w'.network.log span := by
  obtain ⟨hw, hid⟩ := hstart.run hrun (by omega)
  have hroom : w.volatile.requestId + 2 < 4294967296 := by omega
  have hhandled := hw.handled (i := .writeFile fd buf count client script) hroom hwrite
  have hid₁ : w₁.volatile.requestId = w.volatile.requestId + 2 := hhandled.requestId
  have hw₁ := hhandled.running hw
  have hnone : idsOf (ds.map .response) = 0 := by
    simp [idsOf, Input.ids, Function.comp_def]
  obtain ⟨hw', hreaches, -⟩ := hw₁.onwards hrun' (by omega)
  have hexchanges := exchanges_of_run hw₁ hrun' (by omega)
  have haccounted : Accounted w' := by
    refine hstart.accounted_of_run ((hrun.trans (.single hwrite)).trans hrun') ?_
    rw [idsOf_append, idsOf_append, idsOf_cons, idsOf_nil, hnone]
    exact hids
  have hbooked := hw.booked.withScript script
  have hfile : (withScript script w).fileAt fd = f := hat.fileAt_eq
  have hpass : writeRefusal fd (sizeArgument count) client (withScript script w) = none := hat.passes
  obtain ⟨hserved, hreached⟩ := (wp_scripted.mpr (wp_and
    (wp_writeFile_served (R := R) fd count buf client hbooked hroom)
    (wp_writeFile_reached (R := R) fd count buf client hbooked hroom))).of_ok hwrite
  rcases hserved with ⟨-, -, reply, hrefused, -⟩ | ⟨-, info', used, sent, w₂, hs⟩
  · exact absurd (hpass.symm.trans hrefused) (by simp)
  have hsame : (withScript script w).persistent.metadata.lookup f = some info' := by
    rw [← hfile]
    exact hs.file
  obtain rfl : info = info' := Option.some.inj (hinfo.symm.trans hsame)
  obtain ⟨new, hnew, -⟩ := hs.finished.reads.trans (assembling_of_exchanges hexchanges)
  have hdone : WriteDone R fd buf count client info used sent (withScript script w) w₂ w₁ w'
      (.writeResult fd' result) := ⟨hs, hbooked, hw', haccounted, hreaches,
    tallying_of_exchanges ((hreached hpass).2.trans hexchanges), ⟨new, hnew⟩, client', hreplied⟩
  have hpos := hat.pos
  have htotal := hat.total
  have hle := hat.le
  have hspans : writeSpans info fd count (withScript script w) =
      spans info.stripeSize.val info.chunkSize.val c count.toNat := by
    have hcursor : (withScript script w).volatile.getFileCursor (fdKey fd) = c := hat.getFileCursor_eq
    rw [writeSpans_eq _ info count hcursor, hat.toInt32_eq]
    rfl
  have hlength := sum_length_of_tiles (tiles_spans info.stripeSize info.chunkSize c count.toNat)
  have hwritten : HalfWritten fd client f s c count.toNat w' := by
    have hresponses := hrun'.guarded_of_forall (P := fun i => ∃ d, i = .response d) fun i hi => by
      obtain ⟨d, -, rfl⟩ := List.mem_map.mp hi
      exact ⟨d, rfl⟩
    refine hresponses.invariant (fun w i w' h hstep => ?_) (hat.halfWritten hw.booked.unlocked hwrite)
    obtain ⟨⟨d, rfl⟩, hstep⟩ := hstep
    exact (filed_halfWritten.enduring.receive d).of_ok hstep h
  refine reportsStored_iff (by omega) hlength (hwritten.measures (by omega) hstays) fun hall => ?_
  have hresult := hdone.result_of_stored fun span hspan => by
    rw [hspans] at hspan
    rw [hfile]
    exact hall span hspan _ List.mem_cons_self
  rw [hspans, hlength] at hresult
  have hint : toInt32 (count.toNat : ℕ) = count := by
    rw [Int.toNat_of_nonneg hpos.le, hat.toInt32_eq]
  rw [hint] at hresult
  rw [(Reply.writeResult.inj hresult).2, Int.toNat_of_nonneg hpos.le]

/-! ### A write of three bytes -/

theorem spans_sampleAppend : spans 256 128 0 3 = [⟨1, 1, 0, 3⟩] := by
  have hpieces : ∀ size id, 3 < size → pieces size id 0 3 = [⟨id, 0, 3⟩] := by
    intro size id hsize
    have hmin : min 3 (size - 0) = 3 := by omega
    rw [pieces_of_pos (by omega) (by decide), hmin, Nat.sub_self, pieces_zero]
  have hfirst : ∀ size, firstBlock size 0 = 1 ∧ firstOffset size 0 = 0 := by
    intro size
    simp [firstBlock, firstOffset]
  obtain ⟨h₁, h₂⟩ := hfirst 256
  obtain ⟨h₃, h₄⟩ := hfirst 128
  rw [spans, h₁, h₂, hpieces _ _ (by decide), callSpans, List.flatMap_singleton, stripeSpans, h₃, h₄,
    hpieces _ _ (by decide)]
  rfl

/-- The file that is written. -/
def sampleAppendInfo : PersistentMetadataInfo :=
  ⟨1, 0, sampleServer.volatile.stripeSize, sampleServer.volatile.chunkSize, 128, "a", {}⟩

/-- The write to the new file and two responses. -/
theorem exists_sampleAppend (ds : List Delivery) {q : World → Bool}
    (h : (Barista.run sampleRuntime sampleServer [sampleNew]).toOption.any (fun w =>
      (w.volatile.requestId = 0 ∧ w.volatile.fileCursors.lookup 1 = some ⟨sampleClient 1, 1, 0⟩ ∧
        w.persistent.metadata.lookup 1 = some sampleAppendInfo ∧
        HoldsExclusive (w.fileLocks.record 1) (sampleClient 1)) ∧
        (Barista.run sampleRuntime w [sampleAppend]).toOption.any fun w₁ =>
          (Barista.run sampleRuntime w₁ (ds.map .response)).toOption.any q) = true) :
    ∃ w w₁ w', Steps (step sampleRuntime) sampleServer [sampleNew] w ∧
      step sampleRuntime w sampleAppend w₁ ∧ Steps (step sampleRuntime) w₁ (ds.map .response) w' ∧
      (w.volatile.requestId = 0 ∧ w.volatile.fileCursors.lookup 1 = some ⟨sampleClient 1, 1, 0⟩ ∧
        w.persistent.metadata.lookup 1 = some sampleAppendInfo ∧
        HoldsExclusive (w.fileLocks.record 1) (sampleClient 1)) ∧ q w' = true := by
  obtain ⟨w, hrun, hend⟩ := exists_steps [sampleNew] h
  obtain ⟨hfacts, hwrite⟩ := of_decide_eq_true hend
  obtain ⟨w₁, hwrite, hend⟩ := exists_steps _ hwrite
  obtain ⟨w', hrun', hq⟩ := exists_steps _ hend
  obtain ⟨w₂, hstep, hnil⟩ := Steps.cons_iff.mp hwrite
  obtain rfl : w₂ = w₁ := Steps.nil_iff.mp hnil
  exact ⟨w, w₂, w', hrun, hstep, hrun', hfacts, hq⟩

/-- Both copies are stored. -/
theorem failedWrite_sample : ∃ w' : World,
    .replied (.write ⟨1, 2⟩) (sampleClient 1) (.writeResult 1 3) ∈ w'.network.log ∧
      ReportsStored 1 1 3 0 0 (spans 256 128 0 3) (StoredWhole ⟨1, 2⟩ 1 w'.network.log) 3 w' := by
  obtain ⟨w, w₁, w', hrun, hwrite, hrun', ⟨hid, hcursor, hinfo, hheld⟩, hq⟩ :=
    exists_sampleAppend [⟨1, 3, []⟩, ⟨0, 3, []⟩]
      (q := fun w' => .replied (.write ⟨1, 2⟩) (sampleClient 1) (.writeResult 1 3) ∈ w'.network.log ∧
        came ⟨.writeChunk, 1⟩ (fun count _ => [count]) w'.network.log ⟨1, 1, 1⟩ = [3] ∧
        came ⟨.writeChunk, 2⟩ (fun count _ => [count]) w'.network.log ⟨1, 1, 1⟩ = [3] ∧
        1 ∈ w'.persistent.metadata) (by decide +kernel)
  obtain ⟨hmem, hone, htwo, hstays⟩ := of_decide_eq_true hq
  have hat : WritesAt 1 3 (sampleClient 1) 1 0 0 w :=
    ⟨hcursor, by rw [hinfo]; rfl, le_rfl, hheld, by decide, by decide⟩
  have hnext : nextWrite w = ⟨1, 2⟩ := by rw [nextWrite, hid]
  have hcount : Int.toNat 3 = 3 := rfl
  have hiff := failedWrite_iff started_sampleServer hrun hat hinfo hwrite hrun' (by decide)
    (by rw [hnext]; exact hmem) hstays
  rw [hnext, hcount] at hiff
  refine ⟨w', hmem, hiff.mpr ?_⟩
  intro span hspan id hid'
  have hspan' : span ∈ spans 256 128 0 3 := hspan
  rw [spans_sampleAppend, List.mem_singleton] at hspan'
  subst hspan'
  rw [List.mem_cons, List.mem_singleton] at hid'
  rcases hid' with rfl | rfl
  · exact hone
  · exact htwo

/-- The replica is not stored, and three bytes are reported. -/
theorem failedReplica_reported : ∃ w w₁ w', Steps (step sampleRuntime) sampleServer [sampleNew] w ∧
    step sampleRuntime w sampleAppend w₁ ∧
    Steps (step sampleRuntime) w₁ [.response ⟨0, 3, []⟩, .response ⟨0, -1, []⟩] w' ∧
    .replied (.write ⟨1, 2⟩) (sampleClient 1) (.writeResult 1 3) ∈ w'.network.log ∧
    ¬ ReportsStored 1 1 3 0 0 (spans 256 128 0 3) (StoredWhole ⟨1, 2⟩ 1 w'.network.log) 3 w' := by
  obtain ⟨w, w₁, w', hrun, hwrite, hrun', -, hq⟩ := exists_sampleAppend [⟨0, 3, []⟩, ⟨0, -1, []⟩]
    (q := fun w' => .replied (.write ⟨1, 2⟩) (sampleClient 1) (.writeResult 1 3) ∈ w'.network.log ∧
      came ⟨.writeChunk, 2⟩ (fun count _ => [count]) w'.network.log ⟨1, 1, 1⟩ = [-1]) (by decide +kernel)
  obtain ⟨hmem, hfailed⟩ := of_decide_eq_true hq
  refine ⟨w, w₁, w', hrun, hwrite, hrun', hmem, fun h => ?_⟩
  have hstored := h.whole rfl ⟨1, 1, 0, 3⟩ (by rw [spans_sampleAppend]; exact List.mem_cons_self) 2
    (List.mem_cons_of_mem _ List.mem_cons_self)
  exact absurd (hfailed.symm.trans hstored) (by decide)

end

end DecaFS
