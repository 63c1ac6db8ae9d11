import DecaFS.BaristaCore.Runs

/-!
# Which requests get a result

What is in flight can be answered at any time (`Running.exists_drained`), so a request that is
taken gets its result in every run if and only if it expects the packets that were sent for it,
and at least one. `replicaLost` says from the outcomes of the sends alone that a write expects more
replicas than it sent.
-/

namespace DecaFS

open Desk Code Barista FileLocks Custody

section

variable {R : Runtime} {w₀ w w₁ w₂ w' w'' : World} {is : List Input} {i : Input} {op : Operation}
  {client : Client} {f : ℕ} {l : List ChunkRequest}

/-! ### What is in flight can be answered -/

theorem wp_checkReadComplete_inFlight (id : ℕ) (hl : w.network.inFlight = l) :
    wp (checkReadComplete id) (fun _ w' => w'.network.inFlight = l) (fun _ => True) w := by
  simp only [checkReadComplete, wp_bind, wp_get, wp_assert, wp_ite, wp_pure, wp_emit, requests,
    wp_zoom, wp_modify]
  refine ⟨fun _ => ?_, fun _ => trivial⟩
  split_ifs
  all_goals exact hl

theorem wp_checkWriteComplete_inFlight (id : ℕ) (hl : w.network.inFlight = l) :
    wp (checkWriteComplete id) (fun _ w' => w'.network.inFlight = l) (fun _ => True) w := by
  simp only [checkWriteComplete, wp_bind, wp_get, wp_assert, wp_ite, wp_pure, wp_emit, requests,
    wp_zoom, wp_modify]
  refine ⟨fun _ => ?_, fun _ => trivial⟩
  split_ifs
  all_goals exact hl

theorem wp_checkDeleteComplete_inFlight (hlock : w.metaLock = none) (id : ℕ)
    (hl : w.network.inFlight = l) :
    wp (checkDeleteComplete id) (fun _ w' => w'.network.inFlight = l) (fun _ => True) w := by
  cases ha : w.requests.activeDeleteRequests.lookup id with
  | none =>
    have hexists : w.requests.deleteRequestExists id = false := by
      simp [Requests.deleteRequestExists, ← Finmap.lookup_isSome, ha]
    simp [checkDeleteComplete, hexists]
  | some a =>
    refine wp_checkDeleteComplete hlock ha (fun _ => hl) fun _ _ => ?_
    by_cases huser : a.client.userId = 0
    · rw [if_pos huser]
      trivial
    · rw [if_neg huser]
      exact wp_releaseLock_record (fun _ => trivial) fun _ _ _ _ => hl

/-- A response takes the packet it answers from what is in flight. -/
theorem wp_receive_inFlight (hlock : w.metaLock = none) (d : Delivery) :
    wp (receive R d)
      (fun _ w' => w'.network.inFlight = w.network.inFlight.eraseIdx d.index) (fun _ => True) w := by
  unfold receive
  rw [wp_bind, wp_get]
  cases hr : w.network.inFlight[d.index]? with
  | none =>
    rw [wp_pure, List.eraseIdx_of_length_le (List.getElem?_eq_none_iff.mp hr)]
  | some r =>
    simp only [network, wp_bind, wp_zoom, wp_modify]
    cases r.flag with
    | readChunk =>
      simp only [readResponseHandler, wp_bind, wp_get, wp_assert, requests, wp_zoom, wp_modify]
      exact ⟨fun _ => wp_checkReadComplete_inFlight _ rfl, fun _ => trivial⟩
    | writeChunk =>
      simp only [writeResponseHandler, wp_bind, wp_get, wp_assert, requests, wp_zoom, wp_modify]
      refine ⟨fun _ => wp_checkWriteComplete_inFlight _ rfl, fun _ => trivial⟩
    | deleteChunk =>
      simp only [deleteResponseHandler, wp_bind, wp_get, wp_assert, requests, wp_zoom, wp_modify]
      exact ⟨fun _ => wp_checkDeleteComplete_inFlight (by exact hlock) _ rfl, fun _ => trivial⟩

/-- **Everything in flight can be answered**, one packet after the other. -/
theorem Running.exists_drained (hw : Running w) : ∃ is w', Steps (step R) w is w' ∧
    idsOf is = 0 ∧ filesOf is = 0 ∧ w'.network.inFlight = [] := by
  generalize hn : w.network.inFlight.length = n
  induction n generalizing w with
  | zero => exact ⟨[], w, .refl w, rfl, rfl, List.eq_nil_of_length_eq_zero hn⟩
  | succ n ih =>
    let d : Delivery := ⟨0, 0, []⟩
    have hreceive := wp_and (wp_receive (R := R) hw.booked d) (wp_receive_inFlight hw.booked.unlocked d)
    have hreturns : wp (receive R d) _ (fun _ => False) w :=
      wp_mono hreceive (fun _ _ h => h) fun _ he => he.1
    obtain ⟨_, w₁, hstep, hheard, hflight⟩ := hreturns.exists_ok
    have hw₁ : Running w₁ := by
      refine ⟨hheard.booked, ?_⟩
      obtain ⟨ms, hms, -⟩ := hheard.custody
      exact Custody.clear_of_steps hms hw.clear
    have hlen : w₁.network.inFlight.length = n := by
      rw [hflight, List.length_eraseIdx, hn, if_pos (Nat.succ_pos n), Nat.add_sub_cancel]
    obtain ⟨is, w', hrun, hids, hfiles, hnil⟩ := ih hw₁ hlen
    exact ⟨.response d :: is, w', .cons hstep hrun, by rw [idsOf_cons, hids]; rfl,
      by rw [filesOf_cons, hfiles]; rfl, hnil⟩

/-! ### A request and its result -/

/-- The result of `op` goes to its client. -/
def Event.concludes (op : Operation) : Event → Bool
  | .replied op' _ _ => op' = op
  | _ => false

/-- The request is done: it is in no table any more, and it had one result, which went to its
client. -/
structure Settled (op : Operation) (client : Client) (w : World) : Prop where
  inactive : ¬ w.requests.Active op
  once : w.network.log.countP (Event.concludes op) = 1
  told : ∃ reply, .replied op client reply ∈ w.network.log

/-- In every run the request is done once nothing that was sent for it is in flight any more. -/
def SettlesWhenAnswered (R : Runtime) (op : Operation) (client : Client) (w : World) : Prop :=
  ∀ is w', w.volatile.requestId + idsOf is < 4294967296 → Steps (step R) w is w' →
    (∀ r ∈ w'.network.inFlight, r.tag ∉ op.tags) → Settled op client w'

theorem count_replied_ledger (log : List Event) (op : Operation) :
    (ledger log).count (.replied op) = log.countP (Event.concludes op) := by
  refine count_ledger fun event => ?_
  cases event <;> simp [Event.concludes, Event.entry]

/-- What a run does to the desk and to those who wait for results. -/
theorem Running.onwards (hw : Running w) (hrun : Steps (step R) w is w')
    (hids : w.volatile.requestId + idsOf is < 4294967296) :
    Running w' ∧ Reaches Operation.tags Tag.id (desk none w) (desk none w') ∧ Answering w w' := by
  obtain ⟨hw', -, hreaches⟩ := Running.induct (P := fun w' =>
    Reaches Operation.tags Tag.id (desk none w) (desk none w') ∧ Answering w w') hrun hw hids
    ⟨.refl, .refl⟩ fun _ _ _ _ _ _ hh hP => ⟨hP.1.trans hh.reaches, hP.2.trans hh.answers⟩
  exact ⟨hw', hreaches⟩

theorem inFlight_desk_eq_zero {current : Option Operation} {t : Tag} :
    (desk current w).inFlight t = 0 ↔ ∀ r ∈ w.network.inFlight, r.tag ≠ t := by
  simp [desk, List.countP_eq_zero]

/-- A request that has its result keeps it. -/
theorem Running.settles_of_replied {reply : Reply} (hw : Running w)
    (hreply : .replied op client reply ∈ w.network.log) : SettlesWhenAnswered R op client w := by
  intro is w' hids hrun _
  obtain ⟨hw', -, new, hlog, -⟩ := hw.onwards hrun hids
  have hmem : .replied op client reply ∈ w'.network.log := by
    rw [hlog]
    exact List.mem_append_right _ hreply
  have hledger : .replied op ∈ ledger w'.network.log := List.mem_filterMap.mpr ⟨_, hmem, rfl⟩
  refine ⟨fun hop => hw'.booked.inv.not_replied_of_active op hop hledger, ?_, reply, hmem⟩
  have hpos := List.count_pos_iff.mpr hledger
  have hone := hw'.booked.inv.replied_once op
  rw [← count_replied_ledger]
  exact le_antisymm hone hpos

/-- What became of a request that was taken, once nothing of it is in flight any more. `w₁` is the
state in which it is registered, `w₂` the one in which all its packets are sent. -/
theorem Finished.settled_iff (w'' : World) {used : List SendOutcome} {sent : List (ℤ × ChunkRequest)} {n : ℕ}
    (hnew : ∀ t ∈ op.tags, (ledger w₁.network.log).count (.sent t) = 0)
    (hholder : w₁.requests.holder op = some (client, f))
    (hsending : Sending R op used sent w₁ w₂) (hfinished : Finished R op n w₂ w')
    (hreaches : Reaches Operation.tags Tag.id (desk none w') (desk none w''))
    (hanswers : Answering w' w'') (hflight : ∀ r ∈ w''.network.inFlight, r.tag ∉ op.tags) :
    Settled op client w'' ↔ n ≠ 0 ∧ ∀ t ∈ op.tags, (under t sent).length = n := by
  have hexpecting := hsending.booked.inv.expecting hfinished.step
  have hend := hreaches.preserves (fun _ _ _ hd hs h => Expecting.step hd hs h)
    hfinished.booked.inv hexpecting
  have hiff := hend.closed_iff (hfinished.booked.inv.reaches hreaches)
    fun t ht => inFlight_desk_eq_zero.mpr fun r hr heq => hflight r hr (heq ▸ ht)
  have hclosed : (¬ w''.requests.Active op ∧ w''.network.log.countP (Event.concludes op) = 1) ↔
      n ≠ 0 ∧ ∀ t ∈ op.tags, (under t sent).length = n := by
    rw [← count_replied_ledger]
    refine hiff.trans (and_congr ?_ (forall₂_congr fun t ht => ?_))
    · cases op <;> simp [Operation.tags]
    · have hsent : (desk (some op) w₂).log.count (.sent t) = (under t sent).length :=
        hsending.count_sent (hnew t ht)
      rw [hsent, eq_comm]
  refine ⟨fun hdone => hclosed.mp ⟨hdone.inactive, hdone.once⟩, fun hgood => ?_⟩
  obtain ⟨hinactive, honce⟩ := hclosed.mpr hgood
  refine ⟨hinactive, honce, ?_⟩
  -- the client waits from the moment at which the request is registered
  obtain ⟨new, hlog, hkept⟩ := (hsending.answers.trans hfinished.answers).trans hanswers
  rcases hkept op client f hholder with hstill | ⟨reply, hmem, -⟩
  · exact absurd (Requests.holder_eq_none_iff.mpr hinactive) (by simp [hstill])
  · exact ⟨reply, by rw [hlog]; exact List.mem_append_left _ hmem⟩

/-- **When a request that is taken gets its result.** -/
theorem Finished.settles_iff {used : List SendOutcome} {sent : List (ℤ × ChunkRequest)} {n : ℕ}
    (hnew : ∀ t ∈ op.tags, (ledger w₁.network.log).count (.sent t) = 0)
    (hholder : w₁.requests.holder op = some (client, f))
    (hsending : Sending R op used sent w₁ w₂) (hfinished : Finished R op n w₂ w')
    (hw' : Running w') (hroom : w'.volatile.requestId < 4294967296) :
    SettlesWhenAnswered R op client w' ↔ n ≠ 0 ∧ ∀ t ∈ op.tags, (under t sent).length = n := by
  constructor
  · intro hsettles
    obtain ⟨is, w'', hrun, hids, -, hnil⟩ := hw'.exists_drained (R := R)
    obtain ⟨-, hreaches, hanswers⟩ := hw'.onwards hrun (by omega)
    exact (hfinished.settled_iff _ hnew hholder hsending hreaches hanswers (by simp [hnil])).mp
      (hsettles is w'' (by omega) hrun (by simp [hnil]))
  · intro hgood is w'' hids hrun hflight
    obtain ⟨-, hreaches, hanswers⟩ := hw'.onwards hrun hids
    exact (hfinished.settled_iff _ hnew hholder hsending hreaches hanswers hflight).mpr hgood

/-! ### Reads and writes -/

/-- The sends of a write of `n` spans, in this order, lose a replica: two in a row after the one of
its primary fail. -/
def replicaLost : ℕ → List Bool → Bool
  | 0, _ => false
  | _ + 1, [] => false
  | n + 1, false :: l => replicaLost (n + 1) l
  | n + 1, true :: true :: l => replicaLost n l
  | n + 1, true :: false :: true :: l => replicaLost n l
  | _ + 1, true :: false :: false :: _ => true
  | _ + 1, _ => false

theorem ReplicaSent.under_eq {node : ℤ} {chunkNum : ℕ} {r : ChunkRequest}
    {v v' : VolatileMetadata} {used : List SendOutcome} {sent : List (ℤ × ChunkRequest)}
    (h : ReplicaSent node chunkNum r v used sent v') : (under r.tag sent).length = sent.length := by
  cases h with
  | first _ => simp [under]
  | second _ => split_ifs <;> simp [under]

/-- **A write sends the replicas of all its spans** unless its sends lose one. -/
theorem WriteRounds.length_replicas_iff {q : WriteRequest} {l : List (Span × List UInt8)}
    {v v' : VolatileMetadata} {m m' : ChunkMaps} {used : List SendOutcome}
    {sent : List (ℤ × ChunkRequest)} (h : WriteRounds R q f l v m used sent v' m')
    (hne : q.requestId ≠ q.replicaRequestId) (rest : List SendOutcome) :
    (under ⟨.writeChunk, q.replicaRequestId⟩ sent).length = l.length ↔
      replicaLost l.length ((used ++ rest).map (·.accepted)) = false := by
  induction h with
  | done => simp [under, replicaLost]
  | pass _ _ ih => exact ih
  | retry failed _ ih =>
    rw [ih]
    simp [replicaLost, failed]
  | @sent s data l _ _ _ _ _ o _ used' sent₁ sent' accepted replica hrest ih =>
    have hunder : ∀ node, under ⟨.writeChunk, q.replicaRequestId⟩
        ((node, writePacket q.requestId f s data) :: (sent₁ ++ sent')) =
        under ⟨.writeChunk, q.replicaRequestId⟩ sent₁ ++
          under ⟨.writeChunk, q.replicaRequestId⟩ sent' := by
      intro node
      rw [← under_append]
      simp [under, ChunkRequest.tag, writePacket, hne]
    have hreplica : (under ⟨.writeChunk, q.replicaRequestId⟩ sent₁).length = sent₁.length :=
      replica.under_eq
    have hle := hrest.length_under_le hne ⟨.writeChunk, q.replicaRequestId⟩
    rw [hunder, List.length_append, hreplica, List.length_cons]
    cases replica with
    | first accepted' => simpa [replicaLost, accepted, accepted', Nat.add_comm 1] using ih
    | @second _ o' failed =>
      cases ho : o'.accepted with
      | true => simpa [replicaLost, accepted, failed, ho, Nat.add_comm 1] using ih
      | false =>
        refine iff_of_false ?_ (by simp [replicaLost, accepted, failed, ho])
        simp only [Bool.false_eq_true, if_false, List.length_nil]
        omega

/-- A call of `read_file` that gets a result: it is refused or there is a chunk to send for. -/
def ReadConcludes (R : Runtime) (fd count : ℤ) (client : Client) (w : World) : Prop :=
  readRefusal fd (sizeArgument count) client w ≠ none ∨
    ∃ info, w.persistent.metadata.lookup (w.fileAt fd) = some info ∧ readSpans R info fd count w ≠ []

/-- A call of `write_file` that gets a result: it is refused, or its count is positive as an `int`
and its sends lose no replica. -/
def WriteConcludes (fd count : ℤ) (client : Client) (script : List SendOutcome) (w : World) : Prop :=
  writeRefusal fd (sizeArgument count) client w ≠ none ∨ 0 < toInt32 count ∧
    ∃ info, w.persistent.metadata.lookup (w.fileAt fd) = some info ∧
      replicaLost (writeSpans info fd count w).length (script.map (·.accepted)) = false

/-- A write sends something exactly if its count is positive. -/
theorem writeSpans_ne_nil_iff {info : PersistentMetadataInfo} {fd count : ℤ} :
    writeSpans info fd count w ≠ [] ↔ 0 < toInt32 count := by
  have hchunk := info.chunkSize.min_le
  have hstripe := info.stripeSize.min_le
  have hpieces : ((segmentAt info fd count w).map Piece.length).sum = (toInt32 count).toNat :=
    sum_length_pieces (by exact Nat.lt_of_lt_of_le (by decide) hstripe)
      (firstOffset_le (Nat.lt_of_lt_of_le (by decide) hstripe))
  have hsum := sum_length_callSpans info.chunkSize.val (by omega)
    (segmentAt info fd count w)
  rw [hpieces] at hsum
  constructor
  · intro hne
    by_contra hneg
    have hnone : (toInt32 count).toNat = 0 := by omega
    exact hne (by simp [writeSpans, segmentAt, segment, hnone, pieces_zero, callSpans])
  · intro hpos hnil
    rw [writeSpans] at hnil
    rw [hnil, List.map_nil, List.sum_nil] at hsum
    omega

theorem ReadServed.settles_iff {fd count : ℤ} {info : PersistentMetadataInfo}
    {used : List SendOutcome} {sent : List (ℤ × ChunkRequest)} (h : Booked none w)
    (hs : ReadServed R fd count client info used sent w w₂ w') (hw' : Running w')
    (hroom : w'.volatile.requestId < 4294967296) :
    SettlesWhenAnswered R (.read (w.volatile.requestId + 1)) client w' ↔
      readSpans R info fd count w ≠ [] := by
  have hopen := (h.registerRead fd client (w.fileAt fd)).2
  have hholder : (readRegistered fd (w.fileAt fd) client w).requests.holder
      (.read (w.volatile.requestId + 1)) = some (client, w.fileAt fd) := by
    simp [readRegistered, logged, Requests.holder_setRead]
  have hsettles := Finished.settles_iff (fun t ht => h.unsent_of_openOp hopen ht) hholder
    hs.fetched.toSending hs.finished hw' hroom
  have hall : ∀ t ∈ (Operation.read (w.volatile.requestId + 1)).tags,
      (under t sent).length = sent.length := by
    intro t ht
    have hlen : (sent.map Prod.snd).filter (·.tag = t) = sent.map Prod.snd := by
      rw [List.filter_eq_self]
      intro r hr
      obtain ⟨e, he, rfl⟩ := List.mem_map.mp hr
      have htag := hs.fetched.tagged e he
      simp only [Operation.tags, List.mem_singleton] at ht htag
      rw [ht, htag, decide_eq_true rfl]
    rw [under, hlen, List.length_map]
  have hlength : sent.length = (readSpans R info fd count w).length := by
    have hmap : (sent.map Prod.snd).length = sent.length := List.length_map _
    rw [← hmap, hs.fetched.packets, List.length_map]
  rw [hsettles, and_iff_left hall, hlength, Ne, List.length_eq_zero_iff]

theorem WriteServed.settles_iff {fd count : ℤ} {buf : List UInt8} {info : PersistentMetadataInfo}
    {used : List SendOutcome} {sent : List (ℤ × ChunkRequest)} (h : Booked none w)
    (hs : WriteServed R fd buf count client info used sent w w₂ w') (hw' : Running w')
    (hroom : w'.volatile.requestId < 4294967296) :
    SettlesWhenAnswered R (.write (nextWrite w)) client w' ↔ 0 < toInt32 count ∧
      replicaLost (writeSpans info fd count w).length (w.network.script.map (·.accepted)) = false := by
  have hopen := (h.registerWrite fd client (w.fileAt fd)).2
  have hne : (nextWrite w).requestId ≠ (nextWrite w).replicaRequestId := by simp [nextWrite]
  have hholder : (writeRegistered fd (w.fileAt fd) client w).requests.holder
      (.write (nextWrite w)) = some (client, w.fileAt fd) := by
    simp [writeRegistered, logged, Requests.holder_addWrite, Requests.holder_setWrite]
  have hsettles := Finished.settles_iff (fun t ht => h.unsent_of_openOp hopen ht) hholder
    hs.stored.toSending hs.finished hw' hroom
  have hprimary : (under ⟨.writeChunk, (nextWrite w).requestId⟩ sent).length =
      (writeSpans info fd count w).length := by
    rw [hs.stored.rounds.under_primary hne, List.length_map, length_portions]
  have hreplica := hs.stored.rounds.length_replicas_iff hne w₂.network.script
  have hscript : w.network.script = used ++ w₂.network.script := hs.stored.script
  rw [← hscript, length_portions] at hreplica
  simp only [Operation.tags, List.forall_mem_cons, hprimary, true_and, List.not_mem_nil,
    false_implies, implies_true, and_true, hreplica] at hsettles
  have hpos : (writeSpans info fd count w).length ≠ 0 ↔ 0 < toInt32 count := by
    rw [Ne, List.length_eq_zero_iff]
    exact writeSpans_ne_nil_iff
  rw [hsettles, hpos]

/-- A delete of the file `f` is done: its success went to the client, once, nothing is left of the
file and its lock, and the request is in no table any more. -/
structure DeleteDone (id : ℕ) (client : Client) (f : ℕ) (w : World) : Prop where
  gone : Gone client f w
  inactive : w.requests.activeDeleteRequests.lookup id = none
  once : w.network.log.countP (Event.concludes (.delete id)) = 1
  told : .replied (.delete id) client (.removeResult 0) ∈ w.network.log

/-- Every run in which all packets of the delete are answered comes through a state in which it is
done. -/
def DeleteFinishes (R : Runtime) (id : ℕ) (client : Client) (f : ℕ) (w : World) : Prop :=
  ∀ is w', w.volatile.requestId + idsOf is < 4294967296 →
    w.persistent.lastFileId + filesOf is < 4294967296 → Steps (step R) w is w' →
    (∀ r ∈ w'.network.inFlight, r.tag ≠ ⟨.deleteChunk, id⟩) →
    ∃ is₁ is₂ w₁, is = is₁ ++ is₂ ∧ Steps (step R) w is₁ w₁ ∧ Steps (step R) w₁ is₂ w' ∧
      DeleteDone id client f w₁

/-- A delete that is still active has no result yet, so it is still that of its client. -/
theorem Answering.delete_eq {id : ℕ} {a a' : RequestInfo} (h : Answering w w') (hw' : Booked none w')
    (ha : w.requests.activeDeleteRequests.lookup id = some a)
    (ha' : w'.requests.activeDeleteRequests.lookup id = some a') :
    a'.client = a.client ∧ a'.fileId = a.fileId := by
  obtain ⟨new, hlog, hkept⟩ := h
  rcases hkept (.delete id) a.client a.fileId (Requests.holder_delete ha) with hsame | ⟨reply, hmem, -⟩
  · simpa [Requests.holder_delete ha'] using hsame
  · have hledger : .replied (.delete id) ∈ ledger w'.network.log := by
      refine List.mem_filterMap.mpr ⟨.replied (.delete id) a.client reply, ?_, rfl⟩
      rw [hlog]
      exact List.mem_append_left _ hmem
    have hactive : w'.requests.Active (.delete id) := Finmap.mem_of_lookup_eq_some ha'
    exact absurd hledger (hw'.inv.not_replied_of_active _ hactive)

/-- A delete that leaves its table on the way leaves nothing of its file behind. -/
theorem Running.exists_gone {id : ℕ} {a : RequestInfo} (hw : Running w)
    (hrun : Steps (step R) w is w') (hids : w.volatile.requestId + idsOf is < 4294967296)
    (hc : w.persistent.Consistent) (hfiles : w.persistent.lastFileId + filesOf is < 4294967296)
    (ha : w.requests.activeDeleteRequests.lookup id = some a)
    (hend : w'.requests.activeDeleteRequests.lookup id = none) :
    ∃ is₁ is₂ w₁, is = is₁ ++ is₂ ∧ Steps (step R) w is₁ w₁ ∧ Steps (step R) w₁ is₂ w' ∧
      Gone a.client a.fileId w₁ ∧ w₁.requests.activeDeleteRequests.lookup id = none := by
  induction hrun generalizing a with
  | refl w => simp [ha] at hend
  | @cons w w₁ w' i is head tail ih =>
    rw [idsOf_cons, ← Nat.add_assoc] at hids
    rw [filesOf_cons, ← Nat.add_assoc] at hfiles
    have hhandled := hw.handled (by omega) head
    obtain ⟨hc₁, hle₁, hkept⟩ := hhandled.deletes hc (by omega)
    cases hl : w₁.requests.activeDeleteRequests.lookup id with
    | none =>
      refine ⟨[i], is, w₁, rfl, .single head, tail, ?_, hl⟩
      rcases hkept id a ha with ⟨a', ha', -⟩ | hgone
      · simp [hl] at ha'
      · exact hgone
    | some a₁ =>
      obtain ⟨is₁, is₂, w₂, rfl, hrun₁, hrun₂, hgone, hnone⟩ :=
        ih (hhandled.running hw) (by rwa [hhandled.requestId]) hc₁ (by omega) hl hend
      refine ⟨i :: is₁, is₂, w₂, rfl, .cons head hrun₁, hrun₂, ?_, hnone⟩
      obtain ⟨hclient, hfile⟩ := hhandled.answers.delete_eq hhandled.booked ha hl
      rwa [← hclient, ← hfile]

/-- A delete that was taken in `w₁` and is in its table no more has had its result. -/
theorem Gone.deleteDone {id : ℕ} {a : RequestInfo} (hgone : Gone a.client a.fileId w)
    (hw : Running w) (ha : w₁.requests.activeDeleteRequests.lookup id = some a)
    (hanswers : Answering w₁ w) (hnone : w.requests.activeDeleteRequests.lookup id = none) :
    DeleteDone id a.client a.fileId w := by
  obtain ⟨new, hlog, hkept⟩ := hanswers
  rcases hkept (.delete id) a.client a.fileId (Requests.holder_delete ha) with
    hstill | ⟨reply, hmem, rfl⟩
  · simp [Requests.holder, hnone] at hstill
  · have hreply : .replied (.delete id) a.client (.removeResult 0) ∈ w.network.log := by
      rw [hlog]
      exact List.mem_append_left _ hmem
    have hledger : .replied (.delete id) ∈ ledger w.network.log :=
      List.mem_filterMap.mpr ⟨_, hreply, rfl⟩
    refine ⟨hgone, hnone, ?_, hreply⟩
    rw [← count_replied_ledger]
    exact le_antisymm (hw.booked.inv.replied_once _) (List.count_pos_iff.mpr hledger)

/-- A call of `delete_file` that is done in every run: a copy of a chunk of the file is recorded at
a node that is up, and all of its sends succeed. -/
def DeleteConcludes (R : Runtime) (f : ℕ) (script : List SendOutcome) (w w' : World) : Prop :=
  (∃ chunk ∈ getAllChunks w.chunks f, Deletable R w chunk) ∧
    ∀ used, script = used ++ w'.network.script → ∀ o ∈ used, o.accepted = true

/-- **Which deletes are done.** -/
theorem deletes_finish_iff {path : String} {script : List SendOutcome}
    {info : PersistentMetadataInfo} (hstart : Started w₀) (hrun : Steps (step R) w₀ is w)
    (hids : idsOf is + 1 < 4294967296)
    (hfiles : w₀.persistent.lastFileId + filesOf is < 4294967296)
    (hfile : w.persistent.fileOf path = some info)
    (hfree : (w.fileLocks.record info.fileId).ownerUid = 0)
    (hstep : step R w (.deleteFile path client script) w') :
    DeleteFinishes R (w.volatile.requestId + 1) client info.fileId w' ↔
      DeleteConcludes R info.fileId script w w' := by
  obtain ⟨hw, hid⟩ := hstart.run hrun (by omega)
  have hroom : w.volatile.requestId + 1 < 4294967296 := by omega
  have hhandled := hw.handled (i := .deleteFile path client script) hroom hstep
  have hw' := hhandled.running hw
  have hroom' : w'.volatile.requestId < 4294967296 := by
    rw [hhandled.requestId]
    exact hroom
  have hbooked := hw.booked.withScript script
  have hserved := (wp_scripted.mpr (wp_deleteFile_served (R := R) path client hbooked
    hroom)).of_ok hstep
  rcases hserved with ⟨-, hnone, -⟩ | ⟨info', locks, used, sent, w₂, hs⟩
  · exact absurd hfree (hnone info hfile)
  · obtain rfl : info = info' := Option.some.inj (hfile.symm.trans hs.file)
    obtain ⟨hc, hle⟩ := hstart.running.consistent hrun (by rw [hstart.requestId]; omega)
      hstart.persistent hfiles
    let id := w.volatile.requestId + 1
    let w₁ := deleteRegistered info.fileId client locks (withScript script w)
    have hopen := (hbooked.registerDelete hs.user info.fileId locks).2
    have hentry : w₁.requests.activeDeleteRequests.lookup id = some ⟨0, 0, info.fileId, client⟩ :=
      Finmap.lookup_insert _
    have hsettled := fun (w'' : World) hreaches hanswers hflight => Finished.settled_iff w''
      (fun t ht => hbooked.unsent_of_openOp hopen ht) (Requests.holder_delete hentry)
      hs.removed.toSending hs.finished hreaches hanswers hflight
    have hscript : script = used ++ w'.network.script := by
      rw [hs.finished.script]
      exact hs.removed.script
    -- all packets that are expected are sent exactly if all sends succeed, and one is tried
    have hcond : (used.length ≠ 0 ∧ ∀ t ∈ (Operation.delete id).tags,
        (under t sent).length = used.length) ↔ DeleteConcludes R info.fileId script w w' := by
      have hunder : ∀ t ∈ (Operation.delete id).tags, (under t sent).length = sent.length := by
        intro t ht
        have hall : (sent.map Prod.snd).filter (·.tag = t) = sent.map Prod.snd := by
          rw [List.filter_eq_self]
          intro r hr
          obtain ⟨e, he, rfl⟩ := List.mem_map.mp hr
          have htag := hs.removed.tagged e he
          simp only [Operation.tags, List.mem_singleton] at ht htag
          rw [ht, decide_eq_true_iff]
          exact htag
        rw [under, hall, List.length_map]
      have hidle := hs.removed.idle_iff
      refine and_congr ?_ ⟨fun h used' hused' o ho => ?_, fun h t ht => ?_⟩
      · rw [Ne, List.length_eq_zero_iff, hidle]
        simp only [not_forall, not_not, exists_prop]
        rfl
      · obtain rfl : used' = used := List.append_cancel_right (hused'.symm.trans hscript)
        have hlen := hunder ⟨.deleteChunk, id⟩ (by simp [Operation.tags])
        rw [h _ (by simp [Operation.tags]), ← hs.removed.accepted] at hlen
        exact List.countP_eq_length.mp hlen.symm o ho
      · rw [hunder t ht, ← hs.removed.accepted]
        exact List.countP_eq_length.mpr (h used hscript)
    have htags : ∀ {w'' : World}, (∀ r ∈ w''.network.inFlight, r.tag ≠ ⟨.deleteChunk, id⟩) →
        ∀ r ∈ w''.network.inFlight, r.tag ∉ (Operation.delete id).tags := by
      intro w'' hflight r hr
      simpa [Operation.tags] using hflight r hr
    have hsent := hs.removed.answers.trans hs.finished.answers
    rw [← hcond]
    constructor
    · intro hfinishes
      obtain ⟨is', w'', hrun', hids', hfiles', hnil⟩ := hw'.exists_drained (R := R)
      obtain ⟨-, hreaches, hanswers⟩ := hw'.onwards hrun' (by omega)
      obtain ⟨-, hle', -⟩ := hhandled.deletes hc (by simp only [Barista.Input.files]; omega)
      have hroom'' : w'.persistent.lastFileId + filesOf is' < 4294967296 := by
        simp only [Barista.Input.files] at hle'
        omega
      obtain ⟨is₁, is₂, w₃, rfl, hrun₁, hrun₂, hdone⟩ :=
        hfinishes is' w'' (by omega) hroom'' hrun' (by simp [hnil])
      rw [idsOf_append] at hids'
      obtain ⟨hw₃, hid₃, -⟩ := Running.induct (P := fun _ => True) hrun₁ hw' (by omega) trivial
        fun _ _ _ _ _ _ _ _ => trivial
      refine (hsettled w'' hreaches hanswers (by simp [hnil])).mp ?_
      exact hw₃.settles_of_replied hdone.told is₂ w'' (by omega) hrun₂ (by simp [hnil])
    · intro hgood is' w'' hids' hfiles' hrun' hflight
      obtain ⟨hw'', hreaches, hanswers⟩ := hw'.onwards hrun' hids'
      have hdone := (hsettled w'' hreaches hanswers (htags hflight)).mpr hgood
      have hnone : w''.requests.activeDeleteRequests.lookup id = none := by
        rw [Finmap.lookup_eq_none]
        exact hdone.inactive
      obtain ⟨hc', -, -⟩ := hhandled.deletes hc (by simp only [Barista.Input.files]; omega)
      cases hl : w'.requests.activeDeleteRequests.lookup id with
      | none =>
        -- the responses came while the packets were sent
        have hkept := (hs.removed.deletes.trans hs.finished.deletes).kept hc id _ hentry
        rcases hkept with ⟨a', ha', -⟩ | hgone
        · simp [hl] at ha'
        · exact ⟨[], is', w', rfl, .refl w', hrun', hgone.deleteDone hw' hentry hsent hl⟩
      | some a =>
        obtain ⟨is₁, is₂, w₃, rfl, hrun₁, hrun₂, hgone, hnone₃⟩ :=
          hw'.exists_gone hrun' hids' hc' hfiles' hl hnone
        obtain ⟨hclient, hfile⟩ := hsent.delete_eq hhandled.booked hentry hl
        rw [hclient, hfile] at hgone
        rw [idsOf_append] at hids'
        obtain ⟨hw₃, -, hanswers₃⟩ := hw'.onwards hrun₁ (by omega)
        exact ⟨is₁, is₂, w₃, rfl, hrun₁, hrun₂,
          hgone.deleteDone hw₃ hentry (hsent.trans hanswers₃) hnone₃⟩

/-- The messages of a client that creates a file and closes it. -/
def sampleCreate : List Input :=
  [.openFile "a" oRdwr (sampleClient 1), .closeFile 1 (sampleClient 1)]

/-- A file that was never written is not deleted: its delete is taken, sends nothing and is never
answered. -/
theorem emptyFile_undeleted : ∃ (w w' : World) (info : PersistentMetadataInfo),
    Steps (step sampleRuntime) sampleServer sampleCreate w ∧
    w.persistent.fileOf "a" = some info ∧ (w.fileLocks.record info.fileId).ownerUid = 0 ∧
    step sampleRuntime w (.deleteFile "a" (sampleClient 1) []) w' ∧
    ¬ DeleteFinishes sampleRuntime (w.volatile.requestId + 1) (sampleClient 1) info.fileId w' := by
  obtain ⟨w, hrun, hend⟩ := exists_steps (R := sampleRuntime) (w := sampleServer)
    sampleCreate (p := fun w => w.volatile.requestId = 0 ∧
      (w.persistent.fileOf "a").any (fun info => (w.fileLocks.record info.fileId).ownerUid = 0) ∧
      (run sampleRuntime w [.deleteFile "a" (sampleClient 1) []]).toOption.any fun w' =>
        w'.network.inFlight = [] ∧ w'.volatile.requestId = 1 ∧ w'.persistent.lastFileId = 1 ∧
          1 ∈ w'.requests.activeDeleteRequests) (by decide +kernel)
  obtain ⟨hid, hinfo, hdelete⟩ := of_decide_eq_true hend
  obtain ⟨info, hfile, hfree⟩ := (Option.any_eq_true _ _).mp hinfo
  obtain ⟨w', hrun', hend'⟩ := exists_steps _ hdelete
  obtain ⟨w₁, hstep, hnil⟩ := Steps.cons_iff.mp hrun'
  obtain rfl : w₁ = w' := Steps.nil_iff.mp hnil
  obtain ⟨hflight, hid', hlast, hactive⟩ := of_decide_eq_true hend'
  refine ⟨w, w₁, info, hrun, hfile, of_decide_eq_true hfree, hstep, fun hfinishes => ?_⟩
  obtain ⟨is₁, is₂, w₂, hsplit, hrun₁, -, hdone⟩ := hfinishes [] w₁ (by rw [hid']; decide)
    (by rw [hlast]; decide) (.refl w₁) (by simp [hflight])
  obtain ⟨rfl, rfl⟩ := List.append_eq_nil_iff.mp hsplit.symm
  obtain rfl : w₁ = w₂ := Steps.nil_iff.mp hrun₁
  have hnone := hdone.inactive
  rw [hid, Finmap.lookup_eq_none] at hnone
  exact hnone hactive

theorem deletes_finish_iff_sampleCreate : ∃ (w w' : World) (info : PersistentMetadataInfo),
    Steps (step sampleRuntime) sampleServer sampleCreate w ∧
    step sampleRuntime w (.deleteFile "a" (sampleClient 1) []) w' ∧
    (DeleteFinishes sampleRuntime (w.volatile.requestId + 1) (sampleClient 1) info.fileId w' ↔
      DeleteConcludes sampleRuntime info.fileId [] w w') := by
  obtain ⟨w, hrun, hend⟩ := exists_steps (R := sampleRuntime) (w := sampleServer)
    sampleCreate (p := fun w =>
      (w.persistent.fileOf "a").any (fun info => (w.fileLocks.record info.fileId).ownerUid = 0) ∧
      (run sampleRuntime w [.deleteFile "a" (sampleClient 1) []]).toOption.any fun _ => true)
    (by decide +kernel)
  obtain ⟨hinfo, hdelete⟩ := of_decide_eq_true hend
  obtain ⟨info, hfile, hfree⟩ := (Option.any_eq_true _ _).mp hinfo
  obtain ⟨w', hrun', -⟩ := exists_steps _ hdelete
  obtain ⟨w₁, hstep, hnil⟩ := Steps.cons_iff.mp hrun'
  obtain rfl : w₁ = w' := Steps.nil_iff.mp hnil
  exact ⟨w, w₁, info, hrun, hstep, deletes_finish_iff started_sampleServer hrun (by decide)
    (by decide) hfile (of_decide_eq_true hfree) hstep⟩

end

end DecaFS
