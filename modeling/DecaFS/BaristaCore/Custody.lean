import DecaFS.BaristaCore.Completion
import DecaFS.ForMathlib.Transition
import DecaFS.Locking.Records
import DecaFS.Metadata.Tables

/-!
# Who holds what

The view of the server that the locks are about: the requests that are active, each with its
client and file, the lock records, the files there are and the descriptors that are open, each
with its owner and file. `Custody.Step` lists what the server does to it. Handling a message is a
run of such moves, because responses come in, and requests end, while another is dispatched.
-/

namespace DecaFS

open Code FileLocks

/-- The requests, the locks, the files and the descriptors. -/
@[ext]
structure Custody where
  active : Operation → Option (Client × ℕ)
  lock : ℕ → FileLock
  files : Set ℕ
  opened : ℕ → Option (Client × ℕ)

namespace Custody

/-- A move of the server. -/
inductive Move : Type
  /-- the result of a read or a write goes to its client -/
  | finish (op : Operation)
  | finishDelete (id : ℕ)
  /-- a read or a write passes its checks -/
  | accept (op : Operation) (client : Client) (fileId : ℕ)
  | acceptDelete (id : ℕ) (client : Client) (fileId : ℕ)
  | create (fileId : ℕ)
  | openFd (exclusive : Bool) (fd : ℕ) (client : Client) (fileId : ℕ)
  | closeFd (fd : ℕ)

/-- The lock with which a request is admitted. -/
def Admits (lock : FileLock) (client : Client) : Operation → Prop
  | .read _ => HoldsExclusive lock client ∨ HoldsShared lock client
  | .write _ => HoldsExclusive lock client
  | .delete _ => False

/-- The lock with which a file is opened. -/
def Grants (lock : FileLock) (client : Client) (exclusive : Bool) : Prop :=
  client.userId ≠ 0 ∧ if exclusive then lock.ownerUid = 0
    else (lock.ownerUid = 0 ∨ ownedBy lock client) ∧ client.ctc ∉ lock.shProcs

/-- The record once a file is opened. -/
def granted (lock : FileLock) (client : Client) (exclusive : Bool) : FileLock :=
  if exclusive then lock.withExclusive client else lock.withShared client

/-- What the server does. -/
inductive Step : Custody → Move → Custody → Prop
  | finish {s : Custody} {op : Operation} : Step s (.finish op) { s with
      active := Function.update s.active op none }
  | finishDelete {s : Custody} {id : ℕ} {client : Client} {f : ℕ}
      (active : s.active (.delete id) = some (client, f)) :
      Step s (.finishDelete id) { s with
        active := Function.update s.active (.delete id) none
        lock := Function.update s.lock f ((s.lock f).released client)
        files := s.files \ {f} }
  | accept {s : Custody} {op : Operation} {client : Client} {f : ℕ} (file : f ∈ s.files)
      (lock : Admits (s.lock f) client op) (new : s.active op = none) :
      Step s (.accept op client f) { s with
        active := Function.update s.active op (some (client, f)) }
  | acceptDelete {s : Custody} {id : ℕ} {client : Client} {f : ℕ} (user : client.userId ≠ 0)
      (free : (s.lock f).ownerUid = 0)
      (new : s.active (.delete id) = none) :
      Step s (.acceptDelete id client f) { s with
        active := Function.update s.active (.delete id) (some (client, f))
        lock := Function.update s.lock f ((s.lock f).withExclusive client) }
  | create {s : Custody} {f : ℕ} : Step s (.create f) { s with files := insert f s.files }
  | openFd {s : Custody} {exclusive : Bool} {fd : ℕ} {client : Client} {f : ℕ}
      (lock : Grants (s.lock f) client exclusive) :
      Step s (.openFd exclusive fd client f) { s with
        lock := Function.update s.lock f (granted (s.lock f) client exclusive)
        opened := Function.update s.opened fd (some (client, f)) }
  | closeFd {s : Custody} {fd : ℕ} {client : Client} {f : ℕ}
      (owner : s.opened fd = some (client, f)) (user : 0 < toInt32 f → client.userId ≠ 0) :
      Step s (.closeFd fd) { s with
        lock := if 0 < toInt32 f then Function.update s.lock (toInt32 f).toNat
          ((s.lock (toInt32 f).toNat).released client) else s.lock
        opened := Function.update s.opened fd none }

/-- A record that nobody owns has no shared holders. -/
def Clear (s : Custody) : Prop := ∀ f, (s.lock f).ownerUid = 0 → (s.lock f).shProcs = ∅

theorem clear_released {lock : FileLock} {client : Client}
    (h : lock.ownerUid = 0 → lock.shProcs = ∅) :
    (lock.released client).ownerUid = 0 → (lock.released client).shProcs = ∅ := by
  unfold FileLock.released
  split_ifs
  · exact fun _ => rfl
  · exact fun _ => rfl
  · intro h₀
    simp [h h₀]
  · exact h
  · exact h

theorem clear_update {s : Custody} {lock : ℕ → FileLock} {f : ℕ} {l : FileLock} (h : s.Clear)
    (hlock : lock = Function.update s.lock f l) (hl : l.ownerUid = 0 → l.shProcs = ∅) (f' : ℕ) :
    (lock f').ownerUid = 0 → (lock f').shProcs = ∅ := by
  rw [hlock]
  rcases eq_or_ne f' f with rfl | hne
  · rwa [Function.update_self]
  · rw [Function.update_of_ne hne]
    exact h f'

theorem Step.clear {s s' : Custody} {m : Move} (h : Step s m s') (hs : s.Clear) : s'.Clear := by
  cases h with
  | finish => exact hs
  | finishDelete _ => exact clear_update hs rfl (clear_released (hs _))
  | accept _ _ _ => exact hs
  | acceptDelete user _ _ => exact clear_update hs rfl fun h₀ => absurd h₀ user
  | create => exact hs
  | @openFd exclusive _ _ _ lock =>
    refine clear_update hs rfl fun h₀ => absurd h₀ ?_
    unfold granted
    split_ifs <;> exact lock.1
  | @closeFd _ _ f _ _ =>
    by_cases hf : 0 < toInt32 f
    · simp only [Clear, hf, if_true]
      exact clear_update hs rfl (clear_released (hs _))
    · simp only [Clear, hf, if_false]
      exact hs

/-- The move ends a request. -/
def Move.Ends : Move → Prop
  | .finish op => ∀ id, op ≠ .delete id
  | .finishDelete _ => True
  | _ => False

/-- Some requests end. -/
def Ending (s s' : Custody) : Prop := ∃ ms, Steps Step s ms s' ∧ ∀ m ∈ ms, m.Ends

variable {s s' s'' : Custody}

theorem Ending.refl : Ending s s := ⟨[], .refl s, by simp⟩

theorem Ending.of_eq (h : s' = s) : Ending s s' := h ▸ .refl

theorem Ending.single {m : Move} (h : Step s m s') (hm : m.Ends) : Ending s s' :=
  ⟨[m], .single h, by simpa using hm⟩

theorem Ending.trans (h : Ending s s') (h' : Ending s' s'') : Ending s s'' := by
  obtain ⟨ms, hms, hends⟩ := h
  obtain ⟨ms', hms', hends'⟩ := h'
  exact ⟨ms ++ ms', hms.trans hms', fun m hm => (List.mem_append.mp hm).elim (hends m) (hends' m)⟩

end Custody

/-! ### The custody of a state -/

/-- The client and the file of an active request. -/
def Requests.holder (r : Requests) : Operation → Option (Client × ℕ)
  | .read id => (r.activeReadRequests.lookup id).map fun a => (a.info.client, a.info.fileId)
  | .write q => (r.activeWriteRequests.lookup q).map fun a => (a.info.client, a.info.fileId)
  | .delete id => (r.activeDeleteRequests.lookup id).map fun a => (a.client, a.fileId)

/-- What the server's state says about the holders. -/
def custody (w : World) : Custody where
  active := w.requests.holder
  lock := w.fileLocks.record
  files := {f | f ∈ w.persistent.metadata}
  opened fd := (w.volatile.fileCursors.lookup fd).map fun file => (file.clientId, file.fileId)

namespace Requests

variable {r : Requests} {id : ℕ} {q : WriteRequest} {op : Operation}

theorem holder_read {a : ReadRequestInfo} (ha : r.activeReadRequests.lookup id = some a) :
    r.holder (.read id) = some (a.info.client, a.info.fileId) := by
  simp [holder, ha]

theorem holder_write {a : WriteRequestInfo} (ha : r.activeWriteRequests.lookup q = some a) :
    r.holder (.write q) = some (a.info.client, a.info.fileId) := by
  simp [holder, ha]

theorem holder_delete {a : RequestInfo} (ha : r.activeDeleteRequests.lookup id = some a) :
    r.holder (.delete id) = some (a.client, a.fileId) := by
  simp [holder, ha]

theorem holder_setRead (a : ReadRequestInfo) : (r.setRead id a).holder =
    Function.update r.holder (.read id) (some (a.info.client, a.info.fileId)) := by
  funext op
  rcases eq_or_ne op (.read id) with rfl | hne
  · simp [holder, setRead]
  · rw [Function.update_of_ne hne]
    cases op with
    | read id' =>
      have hid : id' ≠ id := fun h => hne (h ▸ rfl)
      simp [holder, setRead, Finmap.lookup_insert_of_ne _ hid]
    | _ => rfl

theorem holder_setWrite (a : WriteRequestInfo) : (r.setWrite q a).holder =
    Function.update r.holder (.write q) (some (a.info.client, a.info.fileId)) := by
  funext op
  rcases eq_or_ne op (.write q) with rfl | hne
  · simp [holder, setWrite]
  · rw [Function.update_of_ne hne]
    cases op with
    | write q' =>
      have hq : q' ≠ q := fun h => hne (h ▸ rfl)
      simp [holder, setWrite, Finmap.lookup_insert_of_ne _ hq]
    | _ => rfl

theorem holder_addWrite (a : WriteRequestInfo) :
    (r.addWrite q a).holder = (r.setWrite q a).holder := by
  funext op
  cases op <;> rfl

theorem holder_setDelete (a : RequestInfo) : (r.setDelete id a).holder =
    Function.update r.holder (.delete id) (some (a.client, a.fileId)) := by
  funext op
  rcases eq_or_ne op (.delete id) with rfl | hne
  · simp [holder, setDelete]
  · rw [Function.update_of_ne hne]
    cases op with
    | delete id' =>
      have hid : id' ≠ id := fun h => hne (h ▸ rfl)
      simp [holder, setDelete, Finmap.lookup_insert_of_ne _ hid]
    | _ => rfl

theorem holder_eraseRead :
    (r.eraseRead id).holder = Function.update r.holder (.read id) none := by
  funext op
  rcases eq_or_ne op (.read id) with rfl | hne
  · simp [holder, eraseRead]
  · rw [Function.update_of_ne hne]
    cases op with
    | read id' =>
      have hid : id' ≠ id := fun h => hne (h ▸ rfl)
      simp [holder, eraseRead, Finmap.lookup_erase_ne hid]
    | _ => rfl

theorem holder_eraseWrite :
    (r.eraseWrite q).holder = Function.update r.holder (.write q) none := by
  funext op
  rcases eq_or_ne op (.write q) with rfl | hne
  · simp [holder, eraseWrite]
  · rw [Function.update_of_ne hne]
    cases op with
    | write q' =>
      have hq : q' ≠ q := fun h => hne (h ▸ rfl)
      simp [holder, eraseWrite, Finmap.lookup_erase_ne hq]
    | _ => rfl

theorem holder_eraseDelete :
    (r.eraseDelete id).holder = Function.update r.holder (.delete id) none := by
  funext op
  rcases eq_or_ne op (.delete id) with rfl | hne
  · simp [holder, eraseDelete]
  · rw [Function.update_of_ne hne]
    cases op with
    | delete id' =>
      have hid : id' ≠ id := fun h => hne (h ▸ rfl)
      simp [holder, eraseDelete, Finmap.lookup_erase_ne hid]
    | _ => rfl

end Requests

section

variable {w w' : World} {id : ℕ} {q : WriteRequest}

theorem custody_congr (hr : w'.requests.holder = w.requests.holder)
    (hl : w'.fileLocks = w.fileLocks) (hp : w'.persistent = w.persistent)
    (hv : w'.volatile = w.volatile) : custody w' = custody w := by
  simp only [custody, hr, hl, hp, hv]

/-- Counting a response does not change who a request is from and what it is about. -/
theorem Requests.holder_setRead_of_eq {r : Requests} {a a' : ReadRequestInfo}
    (ha : r.activeReadRequests.lookup id = some a) (hclient : a'.info.client = a.info.client)
    (hfile : a'.info.fileId = a.info.fileId) : (r.setRead id a').holder = r.holder := by
  rw [holder_setRead, hclient, hfile, Function.update_eq_self_iff, holder, ha]
  rfl

theorem Requests.holder_setWrite_of_eq {r : Requests} {a a' : WriteRequestInfo}
    (ha : r.activeWriteRequests.lookup q = some a) (hclient : a'.info.client = a.info.client)
    (hfile : a'.info.fileId = a.info.fileId) : (r.setWrite q a').holder = r.holder := by
  rw [holder_setWrite, hclient, hfile, Function.update_eq_self_iff, holder, ha]
  rfl

theorem Requests.holder_setDelete_of_eq {r : Requests} {a a' : RequestInfo}
    (ha : r.activeDeleteRequests.lookup id = some a) (hclient : a'.client = a.client)
    (hfile : a'.fileId = a.fileId) : (r.setDelete id a').holder = r.holder := by
  rw [holder_setDelete, hclient, hfile, Function.update_eq_self_iff, holder, ha]
  rfl

/-- The result of a read or a write. -/
theorem Custody.Ending.finish {op : Operation} (hop : ∀ id, op ≠ .delete id)
    (hr : w'.requests.holder = Function.update w.requests.holder op none)
    (hl : w'.fileLocks = w.fileLocks) (hp : w'.persistent = w.persistent)
    (hv : w'.volatile = w.volatile) : Ending (custody w) (custody w') := by
  have heq : custody w' =
      { custody w with active := Function.update (custody w).active op none } := by
    simp only [custody, hr, hl, hp, hv]
  exact heq ▸ .single .finish hop

/-- The end of a delete. -/
theorem Custody.Ending.finishDelete {a : RequestInfo}
    (ha : w.requests.activeDeleteRequests.lookup id = some a)
    (hr : w'.requests = w.requests.eraseDelete id)
    (hl : w'.fileLocks.record = Function.update w.fileLocks.record a.fileId
      ((w.fileLocks.record a.fileId).released a.client))
    (hp : w'.persistent = w.persistent.without a.fileId) (hv : w'.volatile = w.volatile) :
    Ending (custody w) (custody w') := by
  have hactive : (custody w).active (.delete id) = some (a.client, a.fileId) := by
    simp [custody, Requests.holder, ha]
  have hfiles : {f | f ∈ (w.persistent.without a.fileId).metadata} =
      {f | f ∈ w.persistent.metadata} \ {a.fileId} := by
    ext f
    simp only [Set.mem_ofPred_eq, Set.mem_sdiff, Set.mem_singleton_iff]
    rcases eq_or_ne f a.fileId with rfl | hne
    · simp [Finmap.mem_iff, PersistentMetadata.lookup_without_self]
    · simp [Finmap.mem_iff, PersistentMetadata.lookup_without_of_ne hne, hne]
  have heq : custody w' = { custody w with
      active := Function.update (custody w).active (.delete id) none
      lock := Function.update (custody w).lock a.fileId
        (((custody w).lock a.fileId).released a.client)
      files := (custody w).files \ {a.fileId} } := by
    simp only [custody, hr, hl, hp, hv, Requests.holder_eraseDelete, hfiles]
  exact heq ▸ .single (.finishDelete hactive) trivial

/-- The results with which a registered request can end. -/
def Reply.Ends (reply : Reply) : Operation → Prop
  | .read _ => ∃ fd count buf, reply = .readResult fd count buf
  | .write _ => ∃ fd count, reply = .writeResult fd count
  | .delete _ => reply = .removeResult 0

/-- Requests stay with their clients until these get a result. -/
def Answering (w w' : World) : Prop :=
  ∃ new, w'.network.log = new ++ w.network.log ∧ ∀ op c f, w.requests.holder op = some (c, f) →
    w'.requests.holder op = some (c, f) ∨ ∃ reply, .replied op c reply ∈ new ∧ reply.Ends op

theorem Answering.of_eq (new : List Event) (hlog : w'.network.log = new ++ w.network.log)
    (hr : w'.requests.holder = w.requests.holder) : Answering w w' :=
  ⟨new, hlog, fun _ _ _ hop => .inl (hr ▸ hop)⟩

theorem Answering.refl : Answering w w := .of_eq [] (List.nil_append _).symm rfl

theorem Answering.trans {w'' : World} (h : Answering w w') (h' : Answering w' w'') :
    Answering w w'' := by
  obtain ⟨new, hlog, hkept⟩ := h
  obtain ⟨new', hlog', hkept'⟩ := h'
  refine ⟨new' ++ new, by rw [hlog', hlog, List.append_assoc], fun op c f hop => ?_⟩
  rcases hkept op c f hop with hop | ⟨reply, hmem, hends⟩
  · exact (hkept' op c f hop).imp_right fun ⟨reply, hmem, hends⟩ =>
      ⟨reply, List.mem_append_left _ hmem, hends⟩
  · exact .inr ⟨reply, List.mem_append_right _ hmem, hends⟩

/-- The client of a request gets its result. -/
theorem Answering.finish {op : Operation} {client : Client} {f : ℕ} {reply : Reply}
    (hlog : w'.network.log = .replied op client reply :: w.network.log)
    (hop : w.requests.holder op = some (client, f)) (hends : reply.Ends op)
    (hr : w'.requests.holder = Function.update w.requests.holder op none) : Answering w w' := by
  refine ⟨[.replied op client reply], hlog, fun op' c f' hop' => ?_⟩
  rcases eq_or_ne op' op with rfl | hne
  · obtain ⟨rfl, rfl⟩ : client = c ∧ f = f' := by simpa [hop] using hop'
    exact .inr ⟨reply, by simp, hends⟩
  · exact .inl (by rw [hr, Function.update_of_ne hne, hop'])

end

end DecaFS
