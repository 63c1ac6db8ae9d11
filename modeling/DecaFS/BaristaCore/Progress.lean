import DecaFS.BaristaCore.Custody
import DecaFS.BaristaCore.Ledger
import DecaFS.Locking.Holding

/-!
# How the active requests get on

Two relations between a state of the server and a later one. A delete keeps its client and its
file until nothing is left of the file (`Deleting`). A read keeps its client and its descriptor
and gathers the packets it is answered with until its result is sent, which is what those
packets make up (`Assembling`).
-/

namespace DecaFS

open Code FileLocks

/-! ### Deletes -/

/-- Nothing is left of a file that `client` deleted. -/
structure Gone (client : Client) (fileId : ℕ) (w : World) : Prop where
  metadata : w.persistent.metadata.lookup fileId = none
  pathname : ∀ path, w.persistent.pathnameToFileId.lookup path ≠ some fileId
  released : ¬ HoldsExclusive (w.fileLocks.record fileId) client ∧
    ¬ HoldsShared (w.fileLocks.record fileId) client

/-- How the deletes get on. -/
structure Deleting (w w' : World) : Prop where
  consistent : w.persistent.Consistent → w'.persistent.Consistent
  lastFileId : w'.persistent.lastFileId ≤ w.persistent.lastFileId
  gone : ∀ client fileId, Gone client fileId w → Gone client fileId w'
  kept : w.persistent.Consistent → ∀ id a, w.requests.activeDeleteRequests.lookup id = some a →
    (∃ a', w'.requests.activeDeleteRequests.lookup id = some a' ∧ a'.client = a.client ∧
      a'.fileId = a.fileId) ∨ Gone a.client a.fileId w'

section Deleting

variable {w w' w'' : World}

theorem Deleting.trans (h : Deleting w w') (h' : Deleting w' w'') : Deleting w w'' where
  consistent hc := h'.consistent (h.consistent hc)
  lastFileId := h'.lastFileId.trans h.lastFileId
  gone c f hg := h'.gone c f (h.gone c f hg)
  kept hc id a ha := by
    rcases h.kept hc id a ha with ⟨a', ha', hclient, hfile⟩ | hg
    · rw [← hclient, ← hfile]
      exact h'.kept (h.consistent hc) id a' ha'
    · exact .inr (h'.gone _ _ hg)

/-- The requests get on where the files stay as they are. -/
theorem Deleting.of_eq (hp : w'.persistent = w.persistent) (hl : w'.fileLocks = w.fileLocks)
    (hd : w'.requests.activeDeleteRequests = w.requests.activeDeleteRequests) : Deleting w w' where
  consistent hc := hp ▸ hc
  lastFileId := hp ▸ le_rfl
  gone _ _ hg := ⟨hp ▸ hg.metadata, hp ▸ hg.pathname, hl ▸ hg.released⟩
  kept _ _ a ha := .inl ⟨a, hd ▸ ha, rfl, rfl⟩

theorem Deleting.refl : Deleting w w := .of_eq rfl rfl rfl

variable {id : ℕ} {a : RequestInfo}

/-- The entry of a delete changes, but neither its client nor its file. -/
theorem Deleting.set {a' : RequestInfo} (hp : w'.persistent = w.persistent)
    (hl : w'.fileLocks = w.fileLocks) (ha : w.requests.activeDeleteRequests.lookup id = some a)
    (hd : w'.requests.activeDeleteRequests = w.requests.activeDeleteRequests.insert id a')
    (hclient : a'.client = a.client) (hfile : a'.fileId = a.fileId) : Deleting w w' where
  consistent hc := hp ▸ hc
  lastFileId := hp ▸ le_rfl
  gone _ _ hg := ⟨hp ▸ hg.metadata, hp ▸ hg.pathname, hl ▸ hg.released⟩
  kept _ id' b hb := by
    refine .inl ?_
    rcases eq_or_ne id' id with rfl | hne
    · obtain rfl : a = b := Option.some.inj (ha.symm.trans hb)
      exact ⟨a', by rw [hd, Finmap.lookup_insert], hclient, hfile⟩
    · exact ⟨b, by rw [hd, Finmap.lookup_insert_of_ne _ hne, hb], rfl, rfl⟩

/-- A delete is done with its file. -/
theorem Deleting.finish (ha : w.requests.activeDeleteRequests.lookup id = some a)
    (hp : w'.persistent = w.persistent.without a.fileId)
    (hl : w'.fileLocks.record = Function.update w.fileLocks.record a.fileId
      ((w.fileLocks.record a.fileId).released a.client))
    (hd : w'.requests.activeDeleteRequests = w.requests.activeDeleteRequests.erase id) :
    Deleting w w' where
  consistent hc := hp ▸ hc.without
  lastFileId := hp ▸ PersistentMetadata.lastFileId_without_le
  gone c f hg := by
    refine ⟨?_, fun path hpath => ?_, ?_⟩
    · rw [hp]
      rcases eq_or_ne f a.fileId with rfl | hne
      · exact PersistentMetadata.lookup_without_self
      · exact (PersistentMetadata.lookup_without_of_ne hne).trans hg.metadata
    · rw [hp] at hpath
      exact hg.pathname path (PersistentMetadata.pathname_of_without hpath)
    · rw [hl]
      rcases eq_or_ne f a.fileId with rfl | hne
      · rw [Function.update_self]
        exact hg.released.imp (mt HoldsExclusive.of_released) (mt HoldsShared.of_released)
      · rw [Function.update_of_ne hne]
        exact hg.released
  kept hc id' b hb := by
    rcases eq_or_ne id' id with rfl | hne
    · obtain rfl : a = b := Option.some.inj (ha.symm.trans hb)
      refine .inr ⟨?_, ?_, ?_⟩
      · rw [hp]
        exact PersistentMetadata.lookup_without_self
      · rw [hp]
        exact hc.pathname_without
      · rw [hl, Function.update_self]
        exact ⟨not_holdsExclusive_released, not_holdsShared_released⟩
    · exact .inl ⟨b, by rw [hd, Finmap.lookup_erase_ne hne, hb], rfl, rfl⟩

end Deleting

/-! ### Reads -/

variable {R : Runtime}

/-- The response packets of a read after the events `new`. -/
def assemble (R : Runtime) (id : ℕ) (packets : List (FileChunk × List UInt8)) :
    List Event → List (FileChunk × List UInt8)
  | [] => packets
  | .answered r count data :: new =>
    if r.tag = ⟨.readChunk, id⟩ then
      R.search.set r.chunk (readBuffer count data) (assemble R id packets new)
    else assemble R id packets new
  | _ :: new => assemble R id packets new

/-- The result that goes to the client of a read. -/
def readReply (id : ℕ) (a : ReadRequestInfo) (packets : List (FileChunk × List UInt8)) : Event :=
  .replied (.read id) a.info.client
    (.readResult a.fd (packetCount packets) (packets.flatMap Prod.snd))

/-- How the read `id`, once `a`, gets on while `new` is logged. -/
def ReadOn (R : Runtime) (id : ℕ) (a : ReadRequestInfo) (new : List Event) (w' : World) : Prop :=
  (∃ a', w'.requests.activeReadRequests.lookup id = some a' ∧ a'.fd = a.fd ∧
      a'.info.client = a.info.client ∧ a'.responsePackets = assemble R id a.responsePackets new) ∨
    ∃ pre post, new = post ++ readReply id a (assemble R id a.responsePackets pre) :: pre

/-- How the reads get on. -/
def Assembling (R : Runtime) (w w' : World) : Prop :=
  ∃ new, w'.network.log = new ++ w.network.log ∧
    ∀ id a, w.requests.activeReadRequests.lookup id = some a → ReadOn R id a new w'

section Assembling

variable {w w' w'' : World} {id : ℕ} {packets : List (FileChunk × List UInt8)} {new : List Event}

theorem assemble_append (new' : List Event) :
    assemble R id packets (new' ++ new) = assemble R id (assemble R id packets new) new' := by
  induction new' with
  | nil => rfl
  | cons e new' ih => cases e <;> simp [assemble, ih]

theorem assemble_of_forall (h : ∀ r count data, .answered r count data ∈ new → r.flag ≠ .readChunk) :
    assemble R id packets new = packets := by
  induction new with
  | nil => rfl
  | cons e new ih =>
    have ih := ih fun r count data hmem => h r count data (List.mem_cons_of_mem _ hmem)
    cases e with
    | answered r count data =>
      have hne : r.tag ≠ ⟨.readChunk, id⟩ := fun htag =>
        h r count data (by simp) (congrArg Tag.flag htag)
      rw [assemble, if_neg hne, ih]
    | _ => rw [assemble, ih]; simp

theorem ReadOn.append {a : ReadRequestInfo} {new' : List Event} (h : ReadOn R id a new w')
    (h' : ∀ a', w'.requests.activeReadRequests.lookup id = some a' → ReadOn R id a' new' w'') :
    ReadOn R id a (new' ++ new) w'' := by
  rcases h with ⟨a', ha', hfd, hclient, hpackets⟩ | ⟨pre, post, rfl⟩
  · rcases h' a' ha' with ⟨a'', ha'', hfd', hclient', hpackets'⟩ | ⟨pre, post, rfl⟩
    · refine .inl ⟨a'', ha'', hfd'.trans hfd, hclient'.trans hclient, ?_⟩
      rw [hpackets', hpackets, assemble_append]
    · refine .inr ⟨pre ++ new, post, ?_⟩
      rw [assemble_append, ← hpackets, List.append_assoc, List.cons_append, readReply, hfd, hclient]
      rfl
  · exact .inr ⟨pre, new' ++ post, by rw [List.append_assoc]⟩

theorem Assembling.trans (h : Assembling R w w') (h' : Assembling R w' w'') :
    Assembling R w w'' := by
  obtain ⟨new, hlog, hread⟩ := h
  obtain ⟨new', hlog', hread'⟩ := h'
  exact ⟨new' ++ new, by rw [hlog', hlog, List.append_assoc],
    fun id a ha => (hread id a ha).append fun a' ha' => hread' id a' ha'⟩

/-- The reads stay as they are while none is answered. -/
theorem Assembling.of_eq (new : List Event) (hlog : w'.network.log = new ++ w.network.log)
    (hreads : w'.requests.activeReadRequests = w.requests.activeReadRequests)
    (hnew : ∀ r count data, .answered r count data ∈ new → r.flag ≠ .readChunk) :
    Assembling R w w' :=
  ⟨new, hlog, fun _ a ha =>
    .inl ⟨a, hreads ▸ ha, rfl, rfl, (assemble_of_forall hnew).symm⟩⟩

/-- The reads stay as they are when `e` is logged. -/
theorem Assembling.emit {e : Event} (hlog : w'.network.log = e :: w.network.log)
    (hreads : w'.requests.activeReadRequests = w.requests.activeReadRequests)
    (he : ∀ r count data, e = .answered r count data → r.flag ≠ .readChunk) : Assembling R w w' := by
  refine .of_eq [e] hlog hreads fun r count data hmem => he r count data ?_
  exact (List.mem_singleton.mp hmem).symm

theorem Assembling.refl : Assembling R w w := by
  refine .of_eq [] (List.nil_append _).symm rfl ?_
  simp

variable {a : ReadRequestInfo}

/-- The read `id` takes a response. -/
theorem Assembling.answer {a' : ReadRequestInfo} {r : ChunkRequest} {count : ℤ}
    {data : List UInt8} (hlog : w'.network.log = .answered r count data :: w.network.log)
    (htag : r.tag = ⟨.readChunk, id⟩) (ha : w.requests.activeReadRequests.lookup id = some a)
    (hreads : w'.requests.activeReadRequests = w.requests.activeReadRequests.insert id a')
    (hfd : a'.fd = a.fd) (hclient : a'.info.client = a.info.client)
    (hpackets : a'.responsePackets =
      R.search.set r.chunk (readBuffer count data) a.responsePackets) : Assembling R w w' := by
  refine ⟨[.answered r count data], hlog, fun id' b hb => .inl ?_⟩
  rcases eq_or_ne id' id with rfl | hne
  · obtain rfl : a = b := Option.some.inj (ha.symm.trans hb)
    exact ⟨a', by rw [hreads, Finmap.lookup_insert], hfd, hclient, by simp [assemble, htag, hpackets]⟩
  · have hnot : r.tag ≠ ⟨.readChunk, id'⟩ := by simpa [htag] using hne.symm
    exact ⟨b, by rw [hreads, Finmap.lookup_insert_of_ne _ hne, hb], rfl, rfl, by simp [assemble, hnot]⟩

/-- The entry of the read `id` changes, but not what its result is made of. -/
theorem Assembling.set {a' : ReadRequestInfo} (hlog : w'.network.log = w.network.log)
    (ha : w.requests.activeReadRequests.lookup id = some a)
    (hreads : w'.requests.activeReadRequests = w.requests.activeReadRequests.insert id a')
    (hfd : a'.fd = a.fd) (hclient : a'.info.client = a.info.client)
    (hpackets : a'.responsePackets = a.responsePackets) : Assembling R w w' := by
  refine ⟨[], hlog, fun id' b hb => .inl ?_⟩
  rcases eq_or_ne id' id with rfl | hne
  · obtain rfl : a = b := Option.some.inj (ha.symm.trans hb)
    exact ⟨a', by rw [hreads, Finmap.lookup_insert], hfd, hclient, hpackets⟩
  · exact ⟨b, by rw [hreads, Finmap.lookup_insert_of_ne _ hne, hb], rfl, rfl, rfl⟩

/-- The result of the read `id` is sent. -/
theorem Assembling.finish (ha : w.requests.activeReadRequests.lookup id = some a)
    (hlog : w'.network.log = readReply id a a.responsePackets :: w.network.log)
    (hreads : w'.requests.activeReadRequests = w.requests.activeReadRequests.erase id) :
    Assembling R w w' := by
  refine ⟨[readReply id a a.responsePackets], hlog, fun id' b hb => ?_⟩
  rcases eq_or_ne id' id with rfl | hne
  · obtain rfl : a = b := Option.some.inj (ha.symm.trans hb)
    exact .inr ⟨[], [], rfl⟩
  · exact .inl ⟨b, by rw [hreads, Finmap.lookup_erase_ne hne, hb], rfl, rfl, rfl⟩

end Assembling

end DecaFS
