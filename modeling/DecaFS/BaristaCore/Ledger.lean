import DecaFS.ForMathlib.Desk
import DecaFS.BaristaCore.Calls

/-!
# The request tables as a desk

A read, a write and a delete are requests answered in parts: the chunk packets, under one tag
for a read or a delete and under two, one for each id, for a write. `counter` is the
`request_info` in which the tables count the responses of a tag, `ledger` the part of the log
that is about parts and replies, and `desk` the state of the desk they make up.

`LookupsPaired` is what ties `write_request_lookups` to the active writes.
-/

namespace DecaFS

open Desk

/-- The packets that count together: those of one kind with one request id. -/
structure Tag where
  flag : Flag
  id : ℕ
  deriving DecidableEq

/-- The tag of a packet. -/
def ChunkRequest.tag (r : ChunkRequest) : Tag := ⟨r.flag, r.id⟩

/-- The tags of a request's packets. -/
def Operation.tags : Operation → List Tag
  | .read id => [⟨.readChunk, id⟩]
  | .write request => [⟨.writeChunk, request.requestId⟩, ⟨.writeChunk, request.replicaRequestId⟩]
  | .delete id => [⟨.deleteChunk, id⟩]

/-- An event as one of the desk. -/
def Event.entry : Event → Option (Entry Tag Operation)
  | .sent _ r => some (.sent r.tag)
  | .answered r _ _ => some (.answered r.tag)
  | .registered op => some (.opened op)
  | .replied op _ _ => some (.replied op)
  | _ => none

/-- The log as the desk's. -/
def ledger (log : List Event) : List (Entry Tag Operation) := log.filterMap Event.entry

/-- The packets sent with the nodes they went to, in the order they were sent. -/
def sends : List Event → List (ℤ × ChunkRequest)
  | [] => []
  | .sent node r :: log => sends log ++ [(node, r)]
  | _ :: log => sends log

/-- The packets of `sent` under a tag. -/
def under (t : Tag) (sent : List (ℤ × ChunkRequest)) : List ChunkRequest :=
  (sent.map Prod.snd).filter (·.tag = t)

namespace Requests

/-- The `request_info` that counts the responses under a tag. -/
def counter (r : Requests) : Tag → Option RequestInfo
  | ⟨.readChunk, id⟩ => (r.activeReadRequests.lookup id).map ReadRequestInfo.info
  | ⟨.writeChunk, id⟩ => (r.writeRequestLookups.lookup id).bind fun request =>
      (r.activeWriteRequests.lookup request).map fun active =>
        if id = request.requestId then active.info else active.replicaInfo
  | ⟨.deleteChunk, id⟩ => r.activeDeleteRequests.lookup id

/-- The request is in its table. -/
def Active (r : Requests) : Operation → Prop
  | .read id => id ∈ r.activeReadRequests
  | .write request => request ∈ r.activeWriteRequests
  | .delete id => id ∈ r.activeDeleteRequests

/-- Every active write has its two lookups, and every lookup is one of an active write. -/
structure LookupsPaired (r : Requests) : Prop where
  ids_ne : ∀ q ∈ r.activeWriteRequests, q.requestId ≠ q.replicaRequestId
  lookup_id : ∀ q ∈ r.activeWriteRequests, r.writeRequestLookups.lookup q.requestId = some q
  lookup_replica : ∀ q ∈ r.activeWriteRequests,
    r.writeRequestLookups.lookup q.replicaRequestId = some q
  of_lookup : ∀ id q, r.writeRequestLookups.lookup id = some q →
    q ∈ r.activeWriteRequests ∧ (id = q.requestId ∨ id = q.replicaRequestId)

end Requests

/-- The state of the desk; `current` is the request whose packets are being sent. -/
def desk (current : Option Operation) (w : World) : Desk Tag Operation where
  current := current
  active := {op | w.requests.Active op}
  expected t := ((w.requests.counter t).map RequestInfo.chunksExpected).getD 0
  received t := ((w.requests.counter t).map RequestInfo.chunksReceived).getD 0
  inFlight t := w.network.inFlight.countP (·.tag = t)
  log := ledger w.network.log

/-- The clients of the active deletes have user ids. -/
def Requests.DeletersNamed (r : Requests) : Prop :=
  ∀ id info, r.activeDeleteRequests.lookup id = some info → info.client.userId ≠ 0

/-- The request tables keep books: they are a desk in a sound state, and the ids in use were
issued. The metadata lock is free. -/
structure Booked (current : Option Operation) (w : World) : Prop where
  inv : Inv Operation.tags Tag.id (desk current w)
  paired : w.requests.LookupsPaired
  named : w.requests.DeletersNamed
  issued : ∀ op, Mentions (ledger w.network.log) op → ∀ t ∈ op.tags, t.id ≤ w.volatile.requestId
  unlocked : w.metaLock = none

/-! ### Counters -/

namespace Requests

variable {r : Requests} {id : ℕ} {q : WriteRequest} {t : Tag}

theorem counter_setRead (info : ReadRequestInfo) :
    (r.setRead id info).counter t = if t = ⟨.readChunk, id⟩ then some info.info else r.counter t := by
  obtain ⟨flag, id'⟩ := t
  cases flag
  case readChunk =>
    rcases eq_or_ne id' id with rfl | hne
    · simp [counter, setRead]
    · simp [counter, setRead, Finmap.lookup_insert_of_ne _ hne, hne]
  all_goals simp [counter, setRead]

theorem counter_eraseRead :
    (r.eraseRead id).counter t = if t = ⟨.readChunk, id⟩ then none else r.counter t := by
  obtain ⟨flag, id'⟩ := t
  cases flag
  case readChunk =>
    rcases eq_or_ne id' id with rfl | hne
    · simp [counter, eraseRead]
    · simp [counter, eraseRead, Finmap.lookup_erase_ne hne, hne]
  all_goals simp [counter, eraseRead]

theorem counter_setDelete (info : RequestInfo) :
    (r.setDelete id info).counter t =
      if t = ⟨.deleteChunk, id⟩ then some info else r.counter t := by
  obtain ⟨flag, id'⟩ := t
  cases flag
  case deleteChunk =>
    rcases eq_or_ne id' id with rfl | hne
    · simp [counter, setDelete]
    · simp [counter, setDelete, Finmap.lookup_insert_of_ne _ hne, hne]
  all_goals simp [counter, setDelete]

theorem counter_eraseDelete :
    (r.eraseDelete id).counter t = if t = ⟨.deleteChunk, id⟩ then none else r.counter t := by
  obtain ⟨flag, id'⟩ := t
  cases flag
  case deleteChunk =>
    rcases eq_or_ne id' id with rfl | hne
    · simp [counter, eraseDelete]
    · simp [counter, eraseDelete, Finmap.lookup_erase_ne hne, hne]
  all_goals simp [counter, eraseDelete]

/-- A lookup of an active write leads to its entry. -/
theorem counter_write (request : WriteRequest) (active : WriteRequestInfo)
    (hlookup : r.writeRequestLookups.lookup id = some request)
    (hactive : r.activeWriteRequests.lookup request = some active) :
    r.counter ⟨.writeChunk, id⟩ =
      some (if id = request.requestId then active.info else active.replicaInfo) := by
  simp [counter, hlookup, hactive]

theorem counter_setWrite (h : r.LookupsPaired) (hq : q ∈ r.activeWriteRequests)
    (info : WriteRequestInfo) : (r.setWrite q info).counter t =
      if t = ⟨.writeChunk, q.requestId⟩ then some info.info
      else if t = ⟨.writeChunk, q.replicaRequestId⟩ then some info.replicaInfo
      else r.counter t := by
  obtain ⟨flag, id⟩ := t
  cases flag
  case writeChunk =>
    have hne := h.ids_ne q hq
    have hid := h.lookup_id q hq
    have hreplica := h.lookup_replica q hq
    cases hl : r.writeRequestLookups.lookup id with
    | none =>
      have h₁ : id ≠ q.requestId := by rintro rfl; simp [hid] at hl
      have h₂ : id ≠ q.replicaRequestId := by rintro rfl; simp [hreplica] at hl
      simp [counter, setWrite, hl, h₁, h₂]
    | some q' =>
      rcases eq_or_ne q' q with rfl | hq'
      · rcases (h.of_lookup id q' hl).2 with rfl | rfl
        · simp [counter, setWrite, hl]
        · simp [counter, setWrite, hl, hne.symm]
      · have h₁ : id ≠ q.requestId := by rintro rfl; exact hq' (by simpa [hid] using hl.symm)
        have h₂ : id ≠ q.replicaRequestId := by
          rintro rfl
          exact hq' (by simpa [hreplica] using hl.symm)
        simp [counter, setWrite, hl, h₁, h₂, Finmap.lookup_insert_of_ne _ hq']
  all_goals simp [counter, setWrite]

theorem counter_addWrite (h : r.LookupsPaired) (hq : q ∉ r.activeWriteRequests)
    (hne : q.requestId ≠ q.replicaRequestId) (info : WriteRequestInfo) :
    (r.addWrite q info).counter t =
      if t = ⟨.writeChunk, q.requestId⟩ then some info.info
      else if t = ⟨.writeChunk, q.replicaRequestId⟩ then some info.replicaInfo
      else r.counter t := by
  obtain ⟨flag, id⟩ := t
  cases flag
  case writeChunk =>
    rcases eq_or_ne id q.requestId with rfl | h₁
    · simp [counter, addWrite, Finmap.lookup_insert_of_ne _ hne]
    · rcases eq_or_ne id q.replicaRequestId with rfl | h₂
      · simp [counter, addWrite, hne.symm]
      · cases hl : r.writeRequestLookups.lookup id with
        | none => simp [counter, addWrite, Finmap.lookup_insert_of_ne, h₁, h₂, hl]
        | some q' =>
          have hq' : q' ≠ q := by
            rintro rfl
            exact hq (h.of_lookup id q' hl).1
          simp [counter, addWrite, Finmap.lookup_insert_of_ne, h₁, h₂, hl, hq']
  all_goals simp [counter, addWrite]

theorem counter_eraseWrite (h : r.LookupsPaired) :
    (r.eraseWrite q).counter t =
      if t = ⟨.writeChunk, q.requestId⟩ then none
      else if t = ⟨.writeChunk, q.replicaRequestId⟩ then none
      else r.counter t := by
  obtain ⟨flag, id⟩ := t
  cases flag
  case writeChunk =>
    rcases eq_or_ne id q.replicaRequestId with rfl | h₂
    · simp [counter, eraseWrite]
    · rcases eq_or_ne id q.requestId with rfl | h₁
      · simp [counter, eraseWrite, Finmap.lookup_erase_ne h₂]
      · cases hl : r.writeRequestLookups.lookup id with
        | none => simp [counter, eraseWrite, Finmap.lookup_erase_ne, h₁, h₂, hl]
        | some q' =>
          have hq' : q' ≠ q := by
            rintro rfl
            rcases (h.of_lookup id q' hl).2 with heq | heq
            · exact h₁ heq
            · exact h₂ heq
          simp [counter, eraseWrite, Finmap.lookup_erase_ne, h₁, h₂, hl, hq']
  all_goals simp [counter, eraseWrite]

/-- What a read or a delete does to its table leaves the writes alone. -/
theorem LookupsPaired.congr {r' : Requests} (h : r.LookupsPaired)
    (hlookups : r'.writeRequestLookups = r.writeRequestLookups)
    (hactive : ∀ q, q ∈ r'.activeWriteRequests ↔ q ∈ r.activeWriteRequests) : r'.LookupsPaired where
  ids_ne q hq := h.ids_ne q ((hactive q).mp hq)
  lookup_id q hq := hlookups ▸ h.lookup_id q ((hactive q).mp hq)
  lookup_replica q hq := hlookups ▸ h.lookup_replica q ((hactive q).mp hq)
  of_lookup id q hl := by
    rw [hactive]
    exact h.of_lookup id q (hlookups ▸ hl)

theorem LookupsPaired.setWrite (h : r.LookupsPaired) (hq : q ∈ r.activeWriteRequests)
    (info : WriteRequestInfo) : (r.setWrite q info).LookupsPaired := by
  refine h.congr rfl fun q' => ?_
  simp only [Requests.setWrite, Finmap.mem_insert, or_iff_right_iff_imp]
  rintro rfl
  exact hq

theorem LookupsPaired.addWrite (h : r.LookupsPaired) (hne : q.requestId ≠ q.replicaRequestId)
    (hid : q.requestId ∉ r.writeRequestLookups) (hreplica : q.replicaRequestId ∉ r.writeRequestLookups)
    (info : WriteRequestInfo) : (r.addWrite q info).LookupsPaired := by
  have hother : ∀ q' ∈ r.activeWriteRequests, q'.requestId ≠ q.requestId ∧
      q'.requestId ≠ q.replicaRequestId ∧ q'.replicaRequestId ≠ q.requestId ∧
      q'.replicaRequestId ≠ q.replicaRequestId := by
    intro q' hq'
    have h₁ := Finmap.mem_of_lookup_eq_some (h.lookup_id q' hq')
    have h₂ := Finmap.mem_of_lookup_eq_some (h.lookup_replica q' hq')
    refine ⟨?_, ?_, ?_, ?_⟩ <;> intro heq <;> simp_all
  constructor
  · intro q' hq'
    rcases Finmap.mem_insert.mp hq' with rfl | hq'
    · exact hne
    · exact h.ids_ne q' hq'
  · intro q' hq'
    rcases Finmap.mem_insert.mp hq' with rfl | hq'
    · simp [Requests.addWrite, Finmap.lookup_insert_of_ne _ hne]
    · obtain ⟨h₁, h₂, -, -⟩ := hother q' hq'
      simp [Requests.addWrite, Finmap.lookup_insert_of_ne, h₁, h₂, h.lookup_id q' hq']
  · intro q' hq'
    rcases Finmap.mem_insert.mp hq' with rfl | hq'
    · simp [Requests.addWrite]
    · obtain ⟨-, -, h₃, h₄⟩ := hother q' hq'
      simp [Requests.addWrite, Finmap.lookup_insert_of_ne, h₃, h₄, h.lookup_replica q' hq']
  · intro id q' hl
    simp only [Requests.addWrite, Finmap.mem_insert] at hl ⊢
    rcases eq_or_ne id q.replicaRequestId with rfl | h₂
    · obtain rfl : q = q' := by simpa using hl
      exact ⟨.inl rfl, .inr rfl⟩
    · rw [Finmap.lookup_insert_of_ne _ h₂] at hl
      rcases eq_or_ne id q.requestId with rfl | h₁
      · obtain rfl : q = q' := by simpa using hl
        exact ⟨.inl rfl, .inl rfl⟩
      · rw [Finmap.lookup_insert_of_ne _ h₁] at hl
        exact ⟨.inr (h.of_lookup id q' hl).1, (h.of_lookup id q' hl).2⟩

theorem LookupsPaired.eraseWrite (h : r.LookupsPaired) (hq : q ∈ r.activeWriteRequests) :
    (r.eraseWrite q).LookupsPaired := by
  have hother : ∀ q' ∈ r.activeWriteRequests, q' ≠ q → q'.requestId ≠ q.requestId ∧
      q'.requestId ≠ q.replicaRequestId ∧ q'.replicaRequestId ≠ q.requestId ∧
      q'.replicaRequestId ≠ q.replicaRequestId := by
    intro q' hq' hne
    have h₁ := h.lookup_id q hq
    have h₂ := h.lookup_replica q hq
    have h₃ := h.lookup_id q' hq'
    have h₄ := h.lookup_replica q' hq'
    have hinj : ∀ id id', r.writeRequestLookups.lookup id = some q' →
        r.writeRequestLookups.lookup id' = some q → id ≠ id' := by
      rintro id _ hl hl' rfl
      exact hne (Option.some.inj (hl.symm.trans hl'))
    exact ⟨hinj _ _ h₃ h₁, hinj _ _ h₃ h₂, hinj _ _ h₄ h₁, hinj _ _ h₄ h₂⟩
  constructor
  · intro q' hq'
    exact h.ids_ne q' (Finmap.mem_erase.mp hq').2
  · intro q' hq'
    obtain ⟨hne, hmem⟩ := Finmap.mem_erase.mp hq'
    obtain ⟨h₁, h₂, -, -⟩ := hother q' hmem hne
    simp [Requests.eraseWrite, Finmap.lookup_erase_ne, h₁, h₂, h.lookup_id q' hmem]
  · intro q' hq'
    obtain ⟨hne, hmem⟩ := Finmap.mem_erase.mp hq'
    obtain ⟨-, -, h₃, h₄⟩ := hother q' hmem hne
    simp [Requests.eraseWrite, Finmap.lookup_erase_ne, h₃, h₄, h.lookup_replica q' hmem]
  · intro id q' hl
    simp only [Requests.eraseWrite, Finmap.mem_erase] at hl ⊢
    have h₂ : id ≠ q.replicaRequestId := by rintro rfl; simp at hl
    rw [Finmap.lookup_erase_ne h₂] at hl
    have h₁ : id ≠ q.requestId := by rintro rfl; simp at hl
    rw [Finmap.lookup_erase_ne h₁] at hl
    obtain ⟨hmem, hid⟩ := h.of_lookup id q' hl
    refine ⟨⟨?_, hmem⟩, hid⟩
    rintro rfl
    exact hid.elim h₁ h₂

/-! ### Active requests -/

variable {op op' : Operation}

/-- A finished request leaves its table. -/
def close (r : Requests) : Operation → Requests
  | .read id => r.eraseRead id
  | .write request => r.eraseWrite request
  | .delete id => r.eraseDelete id

theorem counter_close (h : r.LookupsPaired) (op : Operation) (t : Tag) :
    (r.close op).counter t = if t ∈ op.tags then none else r.counter t := by
  cases op with
  | read id => simp [close, counter_eraseRead, Operation.tags]
  | write q =>
    simp only [close, counter_eraseWrite h, Operation.tags, List.mem_cons, List.not_mem_nil,
      or_false]
    split_ifs <;> simp_all
  | delete id => simp [close, counter_eraseDelete, Operation.tags]

theorem active_close : (r.close op).Active op' ↔ r.Active op' ∧ op' ≠ op := by
  cases op <;> cases op' <;>
    simp [close, Active, eraseRead, eraseWrite, eraseDelete, Finmap.mem_erase, and_comm]

theorem LookupsPaired.close (h : r.LookupsPaired) (hop : r.Active op) :
    (r.close op).LookupsPaired := by
  cases op with
  | read id => exact h.congr rfl fun _ => Iff.rfl
  | write q => exact h.eraseWrite hop
  | delete id => exact h.congr rfl fun _ => Iff.rfl

theorem active_setRead (h : r.Active (.read id)) (info : ReadRequestInfo) :
    (r.setRead id info).Active op ↔ r.Active op := by
  cases op with
  | read id' =>
    simp only [Active, setRead, Finmap.mem_insert, or_iff_right_iff_imp]
    rintro rfl
    exact h
  | write q => rfl
  | delete id' => rfl

theorem active_setWrite (h : r.Active (.write q)) (info : WriteRequestInfo) :
    (r.setWrite q info).Active op ↔ r.Active op := by
  cases op with
  | read id => rfl
  | write q' =>
    simp only [Active, setWrite, Finmap.mem_insert, or_iff_right_iff_imp]
    rintro rfl
    exact h
  | delete id => rfl

theorem active_setDelete (h : r.Active (.delete id)) (info : RequestInfo) :
    (r.setDelete id info).Active op ↔ r.Active op := by
  cases op with
  | read id' => rfl
  | write q => rfl
  | delete id' =>
    simp only [Active, setDelete, Finmap.mem_insert, or_iff_right_iff_imp]
    rintro rfl
    exact h

theorem DeletersNamed.close (h : r.DeletersNamed) (op : Operation) : (r.close op).DeletersNamed := by
  cases op with
  | read id => exact h
  | write q => exact h
  | delete id =>
    intro id' info hl
    have hne : id' ≠ id := by
      rintro rfl
      simp [Requests.close, eraseDelete] at hl
    exact h id' info (by simpa [Requests.close, eraseDelete, Finmap.lookup_erase_ne hne] using hl)

theorem DeletersNamed.setDelete (h : r.DeletersNamed) {info : RequestInfo}
    (huser : info.client.userId ≠ 0) : (r.setDelete id info).DeletersNamed := by
  intro id' info' hl
  rcases eq_or_ne id' id with rfl | hne
  · obtain rfl : info = info' := by simpa [Requests.setDelete] using hl
    exact huser
  · exact h id' info' (by simpa [Requests.setDelete, Finmap.lookup_insert_of_ne _ hne] using hl)

end Requests

end DecaFS
