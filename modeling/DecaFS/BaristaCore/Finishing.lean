import DecaFS.BaristaCore.Cursors

/-!
# The beginning and the end of a request

Taking a request is the desk's move `openOp`, or `refuse` if it fails its checks, and setting
`chunks_expected` once its packets are sent is the move `expect`. `Finished` is what the ends of
`read_file`, `write_file` and `delete_file` do.
-/

namespace DecaFS

open Desk Code Barista

section Taking

variable {w w₁ : World} {op : Operation} {id f : ℕ} {q : WriteRequest} {client : Client}

/-- The last request id given out is `n`. -/
def issuedUpTo (n : ℕ) (w : World) : World :=
  { w with volatile := { w.volatile with requestId := n } }

@[simp]
theorem persistent_issuedUpTo (n : ℕ) : (issuedUpTo n w).persistent = w.persistent := rfl

@[simp]
theorem getFileInfo_issuedUpTo (n fd : ℕ) :
    (issuedUpTo n w).volatile.getFileInfo fd = w.volatile.getFileInfo fd := rfl

@[simp]
theorem getFileCursor_issuedUpTo (n fd : ℕ) :
    (issuedUpTo n w).volatile.getFileCursor fd = w.volatile.getFileCursor fd := rfl

theorem wp_getNewRequestId {Q : ℕ → World → Prop} {E : Halt Site → Prop}
    (hid : w.volatile.requestId + 1 < 4294967296) :
    wp (volatile VolatileMetadata.getNewRequestId) Q E w ↔
      Q (w.volatile.requestId + 1) (issuedUpTo (w.volatile.requestId + 1) w) := by
  have hnext : (toUInt32 ((w.volatile.requestId : ℤ) + 1)).toNat = w.volatile.requestId + 1 := by
    rw [toUInt32_eq] <;> omega
  simp only [volatile, VolatileMetadata.getNewRequestId, wp_zoom, wp_bind, wp_modify, wp_get,
    wp_pure, hnext]
  rfl

/-- Ids that were not given out yet are those of a new request. -/
theorem Booked.fresh (h : Booked none w) (op : Operation) (htags : op.tags.Nodup)
    (hids : ∀ t ∈ op.tags, w.volatile.requestId < t.id) :
    Fresh Operation.tags Tag.id (desk none w) op := by
  refine ⟨by cases op <;> simp [Operation.tags], htags, fun op' hm t ht t' ht' heq => ?_⟩
  have hold := h.issued op' hm t' ht'
  have hnew := hids t ht
  omega

/-- A request that fails its checks is answered at once. -/
theorem Booked.refuse {result : Reply} (h : Booked none w) (w₁ : World)
    (hfresh : Fresh Operation.tags Tag.id (desk none w) op) (hreq : w₁.requests = w.requests)
    (hfl : w₁.network.inFlight = w.network.inFlight)
    (hlog : w₁.network.log = .replied op client result :: w.network.log)
    (hlock : w₁.metaLock = w.metaLock) (hid : w.volatile.requestId ≤ w₁.volatile.requestId)
    (hids : ∀ t ∈ op.tags, t.id ≤ w₁.volatile.requestId) :
    Booked none w₁ ∧ Step Operation.tags Tag.id (desk none w) (.refuse op) (desk none w₁) := by
  have hdesk : desk none w₁ = { desk none w with log := .replied op :: (desk none w).log } := by
    simp only [desk, hreq, hfl, hlog, ledger_replied]
  have hstep : Step Operation.tags Tag.id (desk none w) (.refuse op) (desk none w₁) :=
    hdesk ▸ .refuse hfresh
  exact ⟨h.step hstep (hreq ▸ h.paired) (hreq ▸ h.named) (hlock.trans h.unlocked) hid
    (by simpa using hids), hstep⟩

/-- A request that passes its checks enters its table. -/
theorem Booked.register {c : RequestInfo} (h : Booked none w)
    (hfresh : Fresh Operation.tags Tag.id (desk none w) op)
    (hcounter : ∀ t, w₁.requests.counter t =
      if t ∈ op.tags then some c else w.requests.counter t)
    (hc : c.chunksExpected = 0 ∧ c.chunksReceived = 0)
    (hactive : ∀ op', w₁.requests.Active op' ↔ op' = op ∨ w.requests.Active op')
    (hfl : w₁.network.inFlight = w.network.inFlight)
    (hlog : w₁.network.log = .registered op :: w.network.log)
    (hpaired : w₁.requests.LookupsPaired) (hnamed : w₁.requests.DeletersNamed)
    (hlock : w₁.metaLock = w.metaLock) (hid : w.volatile.requestId ≤ w₁.volatile.requestId)
    (hids : ∀ t ∈ op.tags, t.id ≤ w₁.volatile.requestId) :
    Booked (some op) w₁ ∧
      Step Operation.tags Tag.id (desk none w) (.openOp op) (desk (some op) w₁) := by
  -- nothing is counted under the tags of a new request
  have hidle : ∀ t ∈ op.tags, (desk none w).expected t = 0 ∧ (desk none w).received t = 0 := by
    refine fun t ht => h.inv.idle t fun op' hop' ht' => ?_
    exact (hfresh.2.2 op' (h.inv.mentions_of_active hop')).not_mem ht ht'
  have hdesk : desk (some op) w₁ = { desk none w with
      current := some op, active := insert op (desk none w).active,
      log := .opened op :: (desk none w).log } := by
    refine Desk.ext rfl ?_ ?_ ?_ (by simp only [desk, hfl])
      (by simp only [desk, hlog, ledger_registered])
    · ext op'
      simp [desk, hactive]
    · funext t
      by_cases ht : t ∈ op.tags
      · simpa [desk, hcounter, ht, hc] using (hidle t ht).1.symm
      · simp [desk, hcounter, ht]
    · funext t
      by_cases ht : t ∈ op.tags
      · simpa [desk, hcounter, ht, hc] using (hidle t ht).2.symm
      · simp [desk, hcounter, ht]
  have hstep : Step Operation.tags Tag.id (desk none w) (.openOp op) (desk (some op) w₁) :=
    hdesk ▸ .openOp rfl hfresh
  exact ⟨h.step hstep hpaired hnamed (hlock.trans h.unlocked) hid (by simpa using hids), hstep⟩

/-- Nothing was sent yet under the tags of a request that is taken. -/
theorem Booked.unsent_of_openOp {t : Tag} (h : Booked none w)
    (hstep : Step Operation.tags Tag.id (desk none w) (.openOp op) (desk (some op) w₁))
    (ht : t ∈ op.tags) : (ledger w₁.network.log).count (.sent t) = 0 := by
  generalize hd : desk (some op) w₁ = d at hstep
  have hlog : ledger w₁.network.log = d.log := by rw [← hd]; rfl
  cases hstep with
  | openOp _ fresh =>
    rw [hlog]
    simpa [List.count_cons] using (h.inv.count_of_fresh fresh ht).1

end Taking

/-- All packets of `op` are sent, and `n` responses are expected under each of its tags. -/
structure Finished (R : Runtime) (op : Operation) (n : ℕ) (w w' : World) : Prop
    extends Kept R w w' where
  booked : Booked none w'
  step : Step Operation.tags Tag.id (desk (some op) w) (.expect op fun _ => n) (desk none w')

section Finished

variable {R : Runtime} {w w' w₁ : World} {op : Operation} {id n : ℕ} {q : WriteRequest}

/-- The desk expects `n` answers, and replies if it has them already. `w₁` is the state in which
the request is checked for that. -/
theorem Booked.finished (h : Booked (some op) w)
    (hle : ∀ t ∈ op.tags, (ledger w.network.log).count (.sent t) ≤ n)
    (hdesk : desk none w₁ = expects Operation.tags (desk (some op) w) op fun _ => n)
    (hlast : Complete Operation.tags (desk none w₁) op →
      desk none w' = close Operation.tags (desk none w₁) op)
    (hmore : ¬ Complete Operation.tags (desk none w₁) op → w' = w₁)
    (hpaired : w'.requests.LookupsPaired) (hnamed : w'.requests.DeletersNamed)
    (hkept : Kept R w w') : Finished R op n w w' := by
  have hstep : Step Operation.tags Tag.id (desk (some op) w) (.expect op fun _ => n)
      (desk none w') := by
    by_cases hc : Complete Operation.tags (desk none w₁) op
    · rw [hlast hc, hdesk]
      exact .expectLast rfl hle (hdesk ▸ hc)
    · rw [hmore hc, hdesk]
      exact .expect rfl hle (hdesk ▸ hc)
  exact ⟨hkept, h.step hstep hpaired hnamed (hkept.metaLock.trans h.unlocked)
    (by rw [hkept.volatile]) (by simp), hstep⟩

theorem wp_finishRead (h : Booked (some (.read id)) w)
    (hle : (ledger w.network.log).count (.sent ⟨.readChunk, id⟩) ≤ n) :
    wp (finishRead id n) (fun _ w' => Finished R (.read id) n w w') (fun _ => False) w := by
  have hop : w.requests.Active (.read id) := (h.inv.dispatching (.read id) rfl).1
  obtain ⟨a, ha⟩ := Finmap.mem_iff.mp hop
  have hcounter : w.requests.counter ⟨.readChunk, id⟩ = some a.info := by
    simp [Requests.counter, ha]
  have hread : w.requests.readRequest id = a := by simp [Requests.readRequest, ha]
  have hexists : w.requests.readRequestExists id = true := decide_eq_true hop
  let a' : ReadRequestInfo := { a with info := { a.info with chunksExpected := n } }
  let w₁ : World := { w with requests := w.requests.setRead id a' }
  have hcounter₁ : w₁.requests.counter ⟨.readChunk, id⟩ = some a'.info := by
    simp [w₁, Requests.counter_setRead]
  have hpaired₁ : w₁.requests.LookupsPaired := h.paired.congr rfl fun _ => Iff.rfl
  have hdesk : desk none w₁ = expects Operation.tags (desk (some (.read id)) w) (.read id)
      fun _ => n := by
    refine desk_expects (fun t => ?_) (fun t ht => h.paired.exists_counter hop ht)
      (fun _ => Requests.active_setRead hop a') rfl rfl
    rw [Requests.counter_setRead]
    by_cases ht : t = ⟨.readChunk, id⟩
    · simp [Operation.tags, ht, hcounter, a']
    · simp [Operation.tags, ht]
  have hcomplete : Complete Operation.tags (desk none w₁) (.read id) ↔
      a'.info.chunksExpected ≠ 0 ∧ a'.info.chunksExpected = a'.info.chunksReceived := by
    simp [Complete, Operation.tags, desk_expected hcounter₁, desk_received hcounter₁]
  have hkept₁ : Kept R w w₁ :=
    ⟨rfl, rfl, rfl, rfl, rfl, rfl, .of_eq rfl rfl rfl, .set rfl ha rfl rfl rfl rfl,
      .of_eq (custody_congr (Requests.holder_setRead_of_eq ha rfl rfl) rfl rfl rfl),
      .of_eq [] rfl (Requests.holder_setRead_of_eq ha rfl rfl),
      fun hidle => ⟨hidle, rfl, rfl⟩⟩
  have hle' : ∀ t ∈ (Operation.read id).tags, (ledger w.network.log).count (.sent t) ≤ n := by
    simpa [Operation.tags] using hle
  suffices hcheck : wp (checkReadComplete id) (fun _ w' => Finished R (.read id) n w w')
      (fun _ => False) w₁ by
    simp only [finishRead, wp_bind, wp_get, wp_assert, requests, wp_zoom, wp_modify, hexists, hread,
      true_implies, reduceCtorEq, false_implies, and_true]
    exact hcheck
  rw [wp_checkReadComplete (w := w₁) (Finmap.lookup_insert _)]
  split_ifs with hdone
  · exact h.finished hle' hdesk (fun _ => desk_close hpaired₁ rfl rfl rfl)
      (fun hc => absurd (hcomplete.mpr hdone) hc)
      (hpaired₁.close ((Requests.active_setRead hop a').mpr hop)) h.named
      (hkept₁.trans ⟨rfl, rfl, rfl, rfl, rfl, rfl, .of_eq rfl rfl rfl,
        .finish (Finmap.lookup_insert _) rfl rfl,
        .finish (by simp) Requests.holder_eraseRead rfl rfl rfl,
        .finish rfl (Requests.holder_read (Finmap.lookup_insert _)) ⟨_, _, _, rfl⟩
          Requests.holder_eraseRead, fun hidle => ⟨hidle, rfl, rfl⟩⟩)
  · exact h.finished hle' hdesk (fun hc => absurd (hcomplete.mp hc) hdone) (fun _ => rfl) hpaired₁
      h.named hkept₁

theorem wp_finishWrite (h : Booked (some (.write q)) w)
    (hle : ∀ t ∈ (Operation.write q).tags, (ledger w.network.log).count (.sent t) ≤ n) :
    wp (finishWrite q (n, n)) (fun _ w' => Finished R (.write q) n w w') (fun _ => False) w := by
  have hop : w.requests.Active (.write q) := (h.inv.dispatching (.write q) rfl).1
  obtain ⟨a, ha⟩ := Finmap.mem_iff.mp hop
  have hne := h.paired.ids_ne q hop
  have hlookup := h.paired.lookup_id q hop
  have hcounter := Requests.counter_write q a hlookup ha
  have hreplica := Requests.counter_write q a (h.paired.lookup_replica q hop) ha
  simp only [hne.symm, if_true, if_false] at hcounter hreplica
  have hwrite : w.requests.writeRequest q = a := by simp [Requests.writeRequest, ha]
  have hexists : w.requests.writeRequestExists q.requestId = true := by
    simp [Requests.writeRequestExists, Requests.writeLookup, hlookup,
      Finmap.mem_of_lookup_eq_some hlookup, Finmap.mem_of_lookup_eq_some ha]
  let a' : WriteRequestInfo := { a with
    info := { a.info with chunksExpected := n }
    replicaInfo := { a.replicaInfo with chunksExpected := n } }
  let w₁ : World := { w with requests := w.requests.setWrite q a' }
  have hpaired₁ : w₁.requests.LookupsPaired := h.paired.setWrite hop a'
  have hcounter₁ : w₁.requests.counter ⟨.writeChunk, q.requestId⟩ = some a'.info := by
    simp [w₁, Requests.counter_setWrite h.paired hop]
  have hreplica₁ : w₁.requests.counter ⟨.writeChunk, q.replicaRequestId⟩ = some a'.replicaInfo := by
    simp [w₁, Requests.counter_setWrite h.paired hop, hne.symm]
  have hdesk : desk none w₁ = expects Operation.tags (desk (some (.write q)) w) (.write q)
      fun _ => n := by
    refine desk_expects (fun t => ?_) (fun t ht => h.paired.exists_counter hop ht)
      (fun _ => Requests.active_setWrite hop a') rfl rfl
    rw [Requests.counter_setWrite h.paired hop]
    by_cases ht : t = ⟨.writeChunk, q.requestId⟩
    · simp [Operation.tags, ht, hcounter, a']
    · by_cases ht' : t = ⟨.writeChunk, q.replicaRequestId⟩
      · simp [Operation.tags, ht', hreplica, a', hne.symm]
      · simp [Operation.tags, ht, ht']
  have hcomplete : Complete Operation.tags (desk none w₁) (.write q) ↔
      a'.info.chunksExpected ≠ 0 ∧ a'.info.chunksExpected = a'.info.chunksReceived ∧
        a'.replicaInfo.chunksExpected = a'.replicaInfo.chunksReceived := by
    simp [Complete, Operation.tags, desk_expected hcounter₁, desk_received hcounter₁,
      desk_expected hreplica₁, desk_received hreplica₁]
  have hkept₁ : Kept R w w₁ :=
    ⟨rfl, rfl, rfl, rfl, rfl, rfl, .of_eq rfl rfl rfl,
      .of_eq [] rfl rfl (by simp),
      .of_eq (custody_congr (Requests.holder_setWrite_of_eq ha rfl rfl) rfl rfl rfl),
      .of_eq [] rfl (Requests.holder_setWrite_of_eq ha rfl rfl),
      fun hidle => ⟨hidle, rfl, rfl⟩⟩
  suffices hcheck : wp (checkWriteComplete q.requestId) (fun _ w' => Finished R (.write q) n w w')
      (fun _ => False) w₁ by
    simp only [finishWrite, wp_bind, wp_get, wp_assert, requests, wp_zoom, wp_modify, hexists,
      hwrite, true_implies, reduceCtorEq, false_implies, and_true]
    exact hcheck
  rw [wp_checkWriteComplete (w := w₁) hlookup (Finmap.lookup_insert _)]
  split_ifs with hdone
  · exact h.finished hle hdesk (fun _ => desk_close hpaired₁ rfl rfl rfl)
      (fun hc => absurd (hcomplete.mpr hdone) hc)
      (hpaired₁.close ((Requests.active_setWrite hop a').mpr hop)) h.named
      (hkept₁.trans ⟨rfl, rfl, rfl, rfl, rfl, rfl, .of_eq rfl rfl rfl, .emit rfl rfl (by simp),
        .finish (by simp) Requests.holder_eraseWrite rfl rfl rfl,
        .finish rfl (Requests.holder_write (Finmap.lookup_insert _)) ⟨_, _, rfl⟩
          Requests.holder_eraseWrite,
        fun hidle => ⟨hidle, rfl, rfl⟩⟩)
  · exact h.finished hle hdesk (fun hc => absurd (hcomplete.mp hc) hdone) (fun _ => rfl) hpaired₁
      h.named hkept₁

theorem wp_finishDelete (h : Booked (some (.delete id)) w)
    (hle : (ledger w.network.log).count (.sent ⟨.deleteChunk, id⟩) ≤ n) :
    wp (finishDelete id n) (fun _ w' => Finished R (.delete id) n w w') (fun _ => False) w := by
  have hop : w.requests.Active (.delete id) := (h.inv.dispatching (.delete id) rfl).1
  obtain ⟨a, ha⟩ := Finmap.mem_iff.mp hop
  have hcounter : w.requests.counter ⟨.deleteChunk, id⟩ = some a := by
    simp [Requests.counter, ha]
  have hdelete : w.requests.deleteRequest id = a := by simp [Requests.deleteRequest, ha]
  have hexists : w.requests.deleteRequestExists id = true := decide_eq_true hop
  let a' : RequestInfo := { a with chunksExpected := n }
  let w₁ : World := { w with requests := w.requests.setDelete id a' }
  have hcounter₁ : w₁.requests.counter ⟨.deleteChunk, id⟩ = some a' := by
    simp [w₁, Requests.counter_setDelete]
  have hpaired₁ : w₁.requests.LookupsPaired := h.paired.congr rfl fun _ => Iff.rfl
  have hdesk : desk none w₁ = expects Operation.tags (desk (some (.delete id)) w) (.delete id)
      fun _ => n := by
    refine desk_expects (fun t => ?_) (fun t ht => h.paired.exists_counter hop ht)
      (fun _ => Requests.active_setDelete hop a') rfl rfl
    rw [Requests.counter_setDelete]
    by_cases ht : t = ⟨.deleteChunk, id⟩
    · simp [Operation.tags, ht, hcounter, a']
    · simp [Operation.tags, ht]
  have hcomplete : Complete Operation.tags (desk none w₁) (.delete id) ↔
      a'.chunksExpected ≠ 0 ∧ a'.chunksExpected = a'.chunksReceived := by
    simp [Complete, Operation.tags, desk_expected hcounter₁, desk_received hcounter₁]
  have hnonempty : w.requests.activeDeleteRequests ≠ ∅ := by
    intro hempty
    simp [hempty] at ha
  have hkept₁ : Kept R w w₁ :=
    ⟨rfl, rfl, rfl, rfl, rfl, rfl, .set rfl rfl ha rfl rfl rfl, .of_eq [] rfl rfl (by simp),
      .of_eq (custody_congr (Requests.holder_setDelete_of_eq ha rfl rfl) rfl rfl rfl),
      .of_eq [] rfl (Requests.holder_setDelete_of_eq ha rfl rfl),
      fun hidle => absurd hidle hnonempty⟩
  have hle' : ∀ t ∈ (Operation.delete id).tags, (ledger w.network.log).count (.sent t) ≤ n := by
    simpa [Operation.tags] using hle
  have hnonempty₁ : w₁.requests.activeDeleteRequests ≠ ∅ := by
    intro hempty
    have hmem : id ∈ w₁.requests.activeDeleteRequests := Finmap.mem_insert.mpr (.inl rfl)
    exact Finmap.notMem_empty (hempty ▸ hmem)
  suffices hcheck : wp (checkDeleteComplete id) (fun _ w' => Finished R (.delete id) n w w')
      (fun _ => False) w₁ by
    simp only [finishDelete, wp_bind, wp_get, wp_assert, requests, wp_zoom, wp_modify, hexists,
      hdelete, true_implies, reduceCtorEq, false_implies, and_true]
    exact hcheck
  have huser : a'.client.userId ≠ 0 := h.named id a ha
  have hnamed₁ : w₁.requests.DeletersNamed := h.named.setDelete huser
  refine wp_checkDeleteComplete (w := w₁) h.unlocked (Finmap.lookup_insert _)
    (fun hmore => ?_) fun h₀ h₁ => ?_
  · refine h.finished hle' hdesk (fun hc => ?_) (fun _ => rfl) hpaired₁ hnamed₁ hkept₁
    obtain ⟨h₀, h₁⟩ := hcomplete.mp hc
    exact absurd h₁ (hmore.resolve_left h₀)
  · rw [if_neg huser]
    refine wp_releaseLock_record (fun h₀ => absurd h₀ huser) fun _ _ locks hlocks => ?_
    exact h.finished hle' hdesk (fun _ => desk_close hpaired₁ rfl rfl rfl)
      (fun hc => absurd (hcomplete.mpr ⟨h₀, h₁⟩) hc)
      (hpaired₁.close ((Requests.active_setDelete hop a').mpr hop)) (hnamed₁.close (.delete id))
      (hkept₁.trans ⟨rfl, rfl, rfl, rfl, rfl, rfl, .finish (Finmap.lookup_insert _) rfl hlocks rfl,
        .emit rfl rfl (by simp), .finishDelete (Finmap.lookup_insert _) rfl hlocks rfl rfl,
        .finish rfl (Requests.holder_delete (Finmap.lookup_insert _)) rfl
          Requests.holder_eraseDelete,
        fun hidle => absurd hidle hnonempty₁⟩)

end Finished

end DecaFS
