import DecaFS.BaristaCore.Upkeep
import DecaFS.IoManager.Placement
import Mathlib.Logic.Relation

/-!
# Where the chunk packets go

The view of the server that decides where chunk packets go: the placement maps, the nodes that are
up and the sends that were tried. `Round` lists what one round of the loops of `process_read_stripe`,
`process_write_stripe` and `process_delete_file` does to it; nothing else that a message makes the
server do touches it (`step_routed`). Responses that come in during a send do not either.
-/

namespace DecaFS

open Code Barista

namespace Routing

/-- The next send has this outcome. -/
def Next (s : Routing) (accepted : Bool) : Prop := s.outcomes.head? = some accepted

/-- A packet is tried. -/
def tries (s : Routing) (accepted : Bool) (node : ℤ) (r : ChunkRequest) : Routing :=
  { s with outcomes := s.outcomes.tail, tried := ⟨accepted, node, r⟩ :: s.tried }

/-- A node is marked as down. -/
def down (s : Routing) (node : ℤ) : Routing :=
  { s with upNodes := s.upNodes.filter (· ≠ toUInt32 node) }

/-- The node a chunk is read from. -/
def ReadsFrom (R : Runtime) (s : Routing) (chunk : FileChunk) (node : ℤ) : Prop :=
  toUInt32 (nodeOf R s.chunks.chunkToNode chunk) ∈ s.upNodes ∧
      node = nodeOf R s.chunks.chunkToNode chunk ∨
    toUInt32 (nodeOf R s.chunks.chunkToNode chunk) ∉ s.upNodes ∧
      chunkExists R s.chunks.chunkToReplicaNode chunk = true ∧
      node = nodeOf R s.chunks.chunkToReplicaNode chunk

/-- A round of one of the loops, about one of the chunks `K`. A chunk that is written gets its nodes
first, according to the nodes `v` that are up. -/
inductive Round (R : Runtime) (K : Set FileChunk) : Flag → Routing → Routing → Prop
  | read {s : Routing} {node : ℤ} {r : ChunkRequest} (mem : r.chunk ∈ K)
      (found : chunkExists R s.chunks.chunkToNode r.chunk = true)
      (from' : ReadsFrom R s r.chunk node) (next : s.Next true) : Round R K .readChunk s (s.tries true node r)
  | readFailed {s : Routing} {node : ℤ} {r : ChunkRequest} (mem : r.chunk ∈ K)
      (found : chunkExists R s.chunks.chunkToNode r.chunk = true)
      (from' : ReadsFrom R s r.chunk node) (next : s.Next false) :
      Round R K .readChunk s ((s.tries false node r).down node)
  | writeFailed {s : Routing} {v : VolatileMetadata} {r : ChunkRequest} {m : ChunkMaps}
      (mem : r.chunk ∈ K) (up : v.upNodes = s.upNodes) (hm : m = placed R v r.chunk s.chunks)
      (next : s.Next false) :
      Round R K .writeChunk s (({ s with chunks := m }.tries false (nodeOf R m.chunkToNode r.chunk)
        r).down (nodeOf R m.chunkToNode r.chunk))
  | written {s : Routing} {v : VolatileMetadata} {r r' : ChunkRequest} {m : ChunkMaps}
      (mem : r.chunk ∈ K) (same : r'.chunk = r.chunk) (up : v.upNodes = s.upNodes)
      (hm : m = placed R v r.chunk s.chunks) (next : s.Next true)
      (next' : ({ s with chunks := m }.tries true (nodeOf R m.chunkToNode r.chunk) r).Next true) :
      Round R K .writeChunk s (({ s with chunks := m }.tries true (nodeOf R m.chunkToNode r.chunk)
        r).tries true (nodeOf R m.chunkToReplicaNode r.chunk) r')
  | rewritten {s s' : Routing} {v v' : VolatileMetadata} {r r' : ChunkRequest} {m : ChunkMaps}
      {o : Bool} (mem : r.chunk ∈ K) (same : r'.chunk = r.chunk) (up : v.upNodes = s.upNodes)
      (hm : m = placed R v r.chunk s.chunks) (next : s.Next true)
      (next' : ({ s with chunks := m }.tries true (nodeOf R m.chunkToNode r.chunk) r).Next false)
      (hs' : s' = (({ s with chunks := m }.tries true (nodeOf R m.chunkToNode r.chunk) r).tries false
        (nodeOf R m.chunkToReplicaNode r.chunk) r').down (nodeOf R m.chunkToReplicaNode r.chunk))
      (up' : v'.upNodes = s'.upNodes) (again : s'.Next o) :
      Round R K .writeChunk s (s'.tries o (putReplica v' r.chunk.chunkNum) r')
  | deleted {s : Routing} {r : ChunkRequest} {o : Bool} (mem : r.chunk ∈ K)
      (found : chunkExists R s.chunks.chunkToNode r.chunk = true)
      (up : toUInt32 (nodeOf R s.chunks.chunkToNode r.chunk) ∈ s.upNodes) (next : s.Next o) :
      Round R K .deleteChunk s { s.tries o (nodeOf R s.chunks.chunkToNode r.chunk) r with
        chunks := { s.chunks with chunkToNode := R.search.erase r.chunk s.chunks.chunkToNode } }
  | deletedReplica {s : Routing} {r : ChunkRequest} {o : Bool} (mem : r.chunk ∈ K)
      (found : chunkExists R s.chunks.chunkToReplicaNode r.chunk = true)
      (up : toUInt32 (nodeOf R s.chunks.chunkToReplicaNode r.chunk) ∈ s.upNodes) (next : s.Next o) :
      Round R K .deleteChunk s { s.tries o (nodeOf R s.chunks.chunkToReplicaNode r.chunk) r with
        chunks := { s.chunks with
          chunkToReplicaNode := R.search.erase r.chunk s.chunks.chunkToReplicaNode } }

/-- Rounds of a loop, one after the other. -/
def Rounds (R : Runtime) (K : Set FileChunk) (flag : Flag) : Routing → Routing → Prop :=
  Relation.ReflTransGen (Round R K flag)

/-- The tries for the spans `l`, all of whose chunks exist, in their order. -/
inductive ReadTries (R : Runtime) (id fileId : ℕ) : List Span → Routing → Routing → Prop
  | done {a : Routing} : ReadTries R id fileId [] a a
  | failed {s : Span} {l : List Span} {a b : Routing} {node : ℤ}
      (from' : ReadsFrom R a (s.chunk fileId) node) (next : a.Next false)
      (rest : ReadTries R id fileId (s :: l) ((a.tries false node (readPacket id fileId s)).down node)
        b) : ReadTries R id fileId (s :: l) a b
  | read {s : Span} {l : List Span} {a b : Routing} {node : ℤ}
      (from' : ReadsFrom R a (s.chunk fileId) node) (next : a.Next true)
      (rest : ReadTries R id fileId l (a.tries true node (readPacket id fileId s)) b) :
      ReadTries R id fileId (s :: l) a b

/-- The nodes that are up, for the placement strategies. -/
def nodes (s : Routing) (v : VolatileMetadata) : VolatileMetadata := { v with upNodes := s.upNodes }

/-- The tries for the spans with their data, in their order. Of `v` the placement strategies see
nothing. -/
inductive WriteTries (R : Runtime) (v : VolatileMetadata) (q : WriteRequest) (fileId : ℕ) :
    List (Span × List UInt8) → Routing → Routing → Prop
  | done {a : Routing} : WriteTries R v q fileId [] a a
  | retry {s : Span} {data : List UInt8} {l : List (Span × List UInt8)} {a b : Routing}
      {m : ChunkMaps} (hm : m = placed R (a.nodes v) (s.chunk fileId) a.chunks) (next : a.Next false)
      (rest : WriteTries R v q fileId ((s, data) :: l)
        (({ a with chunks := m }.tries false (nodeOf R m.chunkToNode (s.chunk fileId))
          (writePacket q.requestId fileId s data)).down (nodeOf R m.chunkToNode (s.chunk fileId))) b) :
      WriteTries R v q fileId ((s, data) :: l) a b
  | sent {s : Span} {data : List UInt8} {l : List (Span × List UInt8)} {a a₁ b : Routing}
      {m : ChunkMaps} (hm : m = placed R (a.nodes v) (s.chunk fileId) a.chunks) (next : a.Next true)
      (ha₁ : a₁ = { a with chunks := m }.tries true (nodeOf R m.chunkToNode (s.chunk fileId))
        (writePacket q.requestId fileId s data)) (next' : a₁.Next true)
      (rest : WriteTries R v q fileId l (a₁.tries true
        (nodeOf R m.chunkToReplicaNode (s.chunk fileId)) (writePacket q.replicaRequestId fileId s data))
        b) : WriteTries R v q fileId ((s, data) :: l) a b
  | resent {s : Span} {data : List UInt8} {l : List (Span × List UInt8)} {a a₁ a₂ b : Routing}
      {m : ChunkMaps} {o : Bool} (hm : m = placed R (a.nodes v) (s.chunk fileId) a.chunks)
      (next : a.Next true)
      (ha₁ : a₁ = { a with chunks := m }.tries true (nodeOf R m.chunkToNode (s.chunk fileId))
        (writePacket q.requestId fileId s data)) (next' : a₁.Next false)
      (ha₂ : a₂ = (a₁.tries false (nodeOf R m.chunkToReplicaNode (s.chunk fileId))
        (writePacket q.replicaRequestId fileId s data)).down
          (nodeOf R m.chunkToReplicaNode (s.chunk fileId))) (again : a₂.Next o)
      (rest : WriteTries R v q fileId l (a₂.tries o (putReplica (a₂.nodes v) s.chunkNum)
        (writePacket q.replicaRequestId fileId s data)) b) :
      WriteTries R v q fileId ((s, data) :: l) a b

/-- Packets were tried with the outcomes that were to come, and a node is down afterwards only if one
of them failed. -/
structure Tried (s s' : Routing) (new : List Attempt) : Prop where
  tried : s'.tried = new ++ s.tried
  outcomes : s.outcomes = (new.map Attempt.accepted).reverse ++ s'.outcomes
  subset : s'.upNodes ⊆ s.upNodes
  upNodes_eq : (∀ a ∈ new, a.accepted = true) → s'.upNodes = s.upNodes

theorem Tried.refl (s : Routing) : Tried s s [] := ⟨rfl, rfl, List.Subset.refl _, fun _ => rfl⟩

theorem Tried.trans {s s' s'' : Routing} {new new' : List Attempt} (h : Tried s s' new)
    (h' : Tried s' s'' new') : Tried s s'' (new' ++ new) where
  tried := by rw [h'.tried, h.tried, List.append_assoc]
  outcomes := by rw [h.outcomes, h'.outcomes, List.map_append, List.reverse_append, List.append_assoc]
  subset := List.Subset.trans h'.subset h.subset
  upNodes_eq hall := by
    obtain ⟨hall', hall⟩ := List.forall_mem_append.mp hall
    rw [h'.upNodes_eq hall', h.upNodes_eq hall]

/-- One send. -/
theorem tried_tries {s : Routing} {o : Bool} (h : s.Next o) (node : ℤ) (r : ChunkRequest) :
    Tried s (s.tries o node r) [⟨o, node, r⟩] where
  tried := rfl
  outcomes := by
    obtain ⟨rest, hrest⟩ := List.head?_eq_some_iff.mp h
    simp [tries, hrest]
  subset := List.Subset.refl _
  upNodes_eq _ := rfl

/-- One send that failed. -/
theorem tried_down {s : Routing} (h : s.Next false) (node : ℤ) (r : ChunkRequest) :
    Tried s ((s.tries false node r).down node) [⟨false, node, r⟩] where
  tried := rfl
  outcomes := (tried_tries h node r).outcomes
  subset := List.filter_subset_self _
  upNodes_eq hall := absurd (hall _ List.mem_cons_self) Bool.false_ne_true

variable {R : Runtime} {K : Set FileChunk} {flag : Flag} {s s' : Routing}

/-- A round tries packets about its chunk. -/
theorem Round.exists_tried (h : Round R K flag s s') :
    ∃ new, Tried s s' new ∧ ∀ a ∈ new, a.request.chunk ∈ K := by
  cases h with
  | read mem _ _ next => exact ⟨_, tried_tries next _ _, by simpa using mem⟩
  | readFailed mem _ _ next => exact ⟨_, tried_down next _ _, by simpa using mem⟩
  | @writeFailed _ _ r m mem _ _ next =>
    have hsend := tried_down (s := { s with chunks := m }) next (nodeOf R m.chunkToNode r.chunk) r
    exact ⟨_, ⟨hsend.tried, hsend.outcomes, hsend.subset, hsend.upNodes_eq⟩, by simpa using mem⟩
  | @written _ _ r r' m mem same _ _ next next' =>
    have hsend := (tried_tries (s := { s with chunks := m }) next (nodeOf R m.chunkToNode r.chunk)
      r).trans (tried_tries next' (nodeOf R m.chunkToReplicaNode r.chunk) r')
    exact ⟨_, ⟨hsend.tried, hsend.outcomes, hsend.subset, hsend.upNodes_eq⟩, by simp [mem, same]⟩
  | @rewritten _ s₁ _ v' r r' m o mem same _ _ next next' hs₁ _ again =>
    subst hs₁
    have hsend := ((tried_tries (s := { s with chunks := m }) next (nodeOf R m.chunkToNode r.chunk)
      r).trans (tried_down next' (nodeOf R m.chunkToReplicaNode r.chunk) r')).trans
      (tried_tries again (putReplica v' r.chunk.chunkNum) r')
    exact ⟨_, ⟨hsend.tried, hsend.outcomes, hsend.subset, hsend.upNodes_eq⟩, by simp [mem, same]⟩
  | @deleted _ r o mem _ _ next =>
    have hsend := tried_tries next (nodeOf R s.chunks.chunkToNode r.chunk) r
    exact ⟨_, ⟨hsend.tried, hsend.outcomes, hsend.subset, hsend.upNodes_eq⟩, by simpa using mem⟩
  | @deletedReplica _ r o mem _ _ next =>
    have hsend := tried_tries next (nodeOf R s.chunks.chunkToReplicaNode r.chunk) r
    exact ⟨_, ⟨hsend.tried, hsend.outcomes, hsend.subset, hsend.upNodes_eq⟩, by simpa using mem⟩

theorem Rounds.exists_tried (h : Rounds R K flag s s') :
    ∃ new, Tried s s' new ∧ ∀ a ∈ new, a.request.chunk ∈ K := by
  induction h with
  | refl => exact ⟨[], .refl s, by simp⟩
  | tail _ hround ih =>
    obtain ⟨new, hnew, hmem⟩ := ih
    obtain ⟨new', hnew', hmem'⟩ := hround.exists_tried
    exact ⟨_, hnew.trans hnew', List.forall_mem_append.mpr ⟨hmem', hmem⟩⟩

/-- The tries of a read are rounds about its chunks. -/
theorem ReadTries.rounds {id fileId : ℕ} {l : List Span} {a b : Routing}
    (h : ReadTries R id fileId l a b) (hK : ∀ s ∈ l, s.chunk fileId ∈ K)
    (hexists : ∀ s ∈ l, chunkExists R a.chunks.chunkToNode (s.chunk fileId) = true) :
    Rounds R K .readChunk a b := by
  induction h with
  | done => exact .refl
  | failed from' next _ ih =>
    exact .head (.readFailed (hK _ List.mem_cons_self) (hexists _ List.mem_cons_self) from' next)
      (ih hK hexists)
  | read from' next _ ih =>
    exact .head (.read (hK _ List.mem_cons_self) (hexists _ List.mem_cons_self) from' next)
      (ih (fun s hs => hK s (List.mem_cons_of_mem _ hs))
        fun s hs => hexists s (List.mem_cons_of_mem _ hs))

/-- The tries of a write are rounds about its chunks. -/
theorem WriteTries.rounds {v : VolatileMetadata} {q : WriteRequest} {fileId : ℕ}
    {l : List (Span × List UInt8)} {a b : Routing} (h : WriteTries R v q fileId l a b)
    (hK : ∀ e ∈ l, e.1.chunk fileId ∈ K) : Rounds R K .writeChunk a b := by
  induction h with
  | done => exact .refl
  | @retry s data l a b m hm next _ ih =>
    have hround : Round R K .writeChunk a _ := .writeFailed (v := a.nodes v) (m := m)
      (r := writePacket q.requestId fileId s data) (hK _ List.mem_cons_self) rfl hm next
    exact .head hround (ih hK)
  | @sent s data l a a₁ b m hm next ha₁ next' _ ih =>
    subst ha₁
    have hsame : (writePacket q.replicaRequestId fileId s data).chunk =
        (writePacket q.requestId fileId s data).chunk := rfl
    have hround : Round R K .writeChunk a _ := .written (v := a.nodes v) (m := m)
      (hK _ List.mem_cons_self) hsame rfl hm next next'
    exact .head hround (ih fun e he => hK e (List.mem_cons_of_mem _ he))
  | @resent s data l a a₁ a₂ b m o hm next ha₁ next' ha₂ again _ ih =>
    subst ha₁
    have hsame : (writePacket q.replicaRequestId fileId s data).chunk =
        (writePacket q.requestId fileId s data).chunk := rfl
    have hup : (a₂.nodes v).upNodes = a₂.upNodes := rfl
    have hround : Round R K .writeChunk a _ := .rewritten (v := a.nodes v) (m := m)
      (hK _ List.mem_cons_self) hsame rfl hm next next' ha₂ hup again
    exact .head hround (ih fun e he => hK e (List.mem_cons_of_mem _ he))

end Routing

/-- The metadata lock is free and `K` holds of the routing. -/
def Routed (K : Routing → Prop) (w : World) : Prop :=
  w.metaLock = none ∧ K (routing w)

section

variable {R : Runtime} {K : Routing → Prop} {w w' : World} {α : Type}

theorem upkeep_routed (R : Runtime) (K : Routing → Prop) : Upkeep R (Routed K) where
  unlocked := fun _ h => h.1
  view := fun _ _ hlock hrouting _ _ h => ⟨hlock ▸ h.1, hrouting ▸ h.2⟩
  moved := fun _ _ _ _ h => h
  deleted := fun _ _ h => h

theorem keeps_withMetadataLock (client : Client) (refused : α)
    (m : Code (Halt Site) PersistentMetadata α) :
    (withMetadataLock client refused m).Keeps (Routed K) := by
  intro w h
  refine (wp_withMetadataLock h.1 _ _).mpr ?_
  by_cases huser : client.userId = 0
  · rw [if_pos huser]
    trivial
  · rw [if_neg huser]
    unfold wp
    cases m w.persistent with
    | ok p => exact h
    | error e => trivial

/-! ### Sends -/

/-- **A send.** -/
theorem wp_sendToEspresso_routed (hlock : w.metaLock = none) (node : ℤ) (r : ChunkRequest) :
    wp (sendToEspresso R node r) (fun res w' => ∃ o : Bool, (routing w).Next o ∧
      Routed (· = (routing w).tries o node r) w' ∧ res = if o then 1 else nodeFailure)
      (fun _ => True) w := by
  unfold sendToEspresso
  cases hs : w.network.script with
  | nil => simp [hs]
  | cons o script =>
    have hnext : (routing w).Next o.accepted := by
      simp [Routing.Next, routing, hs]
    have htail : (routing w).outcomes.tail = script.map SendOutcome.accepted := by
      simp [routing, hs]
    have hrest : ∀ w₁ : World, Routed (· = (routing w).tries o.accepted node r) w₁ →
        wp (receiveAll R o.deliveries) (fun _ w' => ∃ o' : Bool, (routing w).Next o' ∧
          Routed (· = (routing w).tries o' node r) w' ∧
            (if o.accepted = true then 1 else nodeFailure) = if o' then 1 else nodeFailure)
          (fun _ => True) w₁ := fun w₁ h₁ =>
      wp_mono ((upkeep_routed R _).receiveAll o.deliveries w₁ h₁)
        (fun _ w' hw' => ⟨o.accepted, hnext, hw', rfl⟩) fun _ _ => trivial
    simp only [wp_bind, wp_get, hs, network]
    cases ho : o.accepted
    · simpa [ho] using hrest { w with network := { w.network with
        script := script, log := .failed node r :: w.network.log } }
        ⟨hlock, by rw [ho, Routing.tries, htail]; rfl⟩
    · simpa [ho] using hrest { w with network := { w.network with
        script := script, inFlight := w.network.inFlight ++ [r]
        log := .sent node r :: w.network.log } }
        ⟨hlock, by rw [ho, Routing.tries, htail]; rfl⟩

theorem wp_setNodeDown_routed (hlock : w.metaLock = none) (node : ℤ) :
    wp (volatile (VolatileMetadata.setNodeDown node))
      (fun _ w' => Routed (· = (routing w).down node) w') (fun _ => True) w := by
  simp only [volatile, wp_zoom]
  exact VolatileMetadata.wp_setNodeDown fun _ => ⟨hlock, rfl⟩

/-- A call that leaves the routing alone comes first. -/
theorem wp_bind_quiet {m : Barista α} {β : Type} {k : α → Barista β} {Q : β → World → Prop}
    (hlock : w.metaLock = none) (hm : ∀ K : Routing → Prop, m.Keeps (Routed K))
    (hk : ∀ a w', Routed (· = routing w) w' → wp (k a) Q (fun _ => True) w') :
    wp (m >>= k) Q (fun _ => True) w :=
  (wp_bind m k).mpr (wp_mono (hm (· = routing w) w ⟨hlock, rfl⟩) hk fun _ _ => trivial)

/-- A send comes first. -/
theorem wp_bind_send {β : Type} {node : ℤ} {r : ChunkRequest} {k : ℤ → Barista β}
    {Q : β → World → Prop} (hlock : w.metaLock = none)
    (hk : ∀ (o : Bool) (w' : World), (routing w).Next o → Routed (· = (routing w).tries o node r) w' →
      wp (k (if o then 1 else nodeFailure)) Q (fun _ => True) w') :
    wp (sendToEspresso R node r >>= k) Q (fun _ => True) w := by
  refine (wp_bind _ _).mpr (wp_mono (wp_sendToEspresso_routed hlock node r) (fun res w' hw' => ?_)
    fun _ _ => trivial)
  obtain ⟨o, hnext, ho, rfl⟩ := hw'
  exact hk o w' hnext ho

/-- A node is marked as down first. -/
theorem wp_bind_down {β : Type} {node : ℤ} {k : ℤ → Barista β} {Q : β → World → Prop}
    (hlock : w.metaLock = none)
    (hk : ∀ res (w' : World), Routed (· = (routing w).down node) w' →
      wp (k res) Q (fun _ => True) w') :
    wp (volatile (VolatileMetadata.setNodeDown node) >>= k) Q (fun _ => True) w :=
  (wp_bind _ _).mpr (wp_mono (wp_setNodeDown_routed hlock node) hk fun _ _ => trivial)

/-! ### Stripes -/

section Stripes

variable {f : ℕ} {K : Set FileChunk} {s : Routing}

open Routing

theorem readsFrom_routing {chunk : FileChunk} {node : ℤ}
    (h : if w.volatile.isNodeUp (nodeOf R w.chunks.chunkToNode chunk) then
        node = nodeOf R w.chunks.chunkToNode chunk
      else chunkExists R w.chunks.chunkToReplicaNode chunk = true ∧
        node = nodeOf R w.chunks.chunkToReplicaNode chunk) : ReadsFrom R (routing w) chunk node := by
  simp only [VolatileMetadata.isNodeUp, decide_eq_true_eq] at h
  split_ifs at h with hup
  · exact .inl ⟨hup, h⟩
  · exact .inr ⟨hup, h⟩

/-- **The loop of `process_read_stripe`**, as tries. -/
theorem wp_readChunks_tries (id stripeId : ℕ) (m : ChunkMaps) {chunkSize n : ℕ} (hmin : 0 < chunkSize)
    (hmax : chunkSize ≤ 65536) (hn : n ≤ intMax) (fuel : ℕ) :
    ∀ (chunkId offset done numChunks : ℕ) (w : World), offset ≤ chunkSize → done ≤ n →
      w.metaLock = none → w.chunks = m →
      wp (readChunks R id f stripeId chunkSize n fuel chunkId offset done numChunks)
        (fun _ w' => Routed (ReadTries R id f (existing R m f
          ((pieces chunkSize chunkId offset (n - done)).map (Piece.span stripeId))) (routing w)) w')
        (fun _ => True) w := by
  induction fuel with
  | zero => exact fun _ _ _ _ w _ _ _ _ => by simp [readChunks]
  | succ fuel ih =>
    intro chunkId offset done numChunks w hoffset hdone hlock hm
    unfold readChunks
    by_cases hlt : (done : ℤ) < n
    · generalize hlen : min (n - done) (chunkSize - offset) = len
      let s : Span := ⟨stripeId, chunkId, offset, len⟩
      have hsize : toUInt32 (splitSize n done chunkSize offset) = len := by
        rw [splitSize_eq hdone hn hoffset hmax, hlen, toUInt32_eq] <;> unfold intMax at hn <;> omega
      have hspans : (pieces chunkSize chunkId offset (n - done)).map (Piece.span stripeId) =
          s :: (pieces chunkSize (chunkId + 1) 0 (n - (done + len))).map (Piece.span stripeId) := by
        rw [pieces_of_pos hmin (by omega), hlen, Nat.sub_sub]
        rfl
      rw [if_pos hlt, wp_bind, wp_get]
      simp only [hsize]
      by_cases hexists : chunkExists R m.chunkToNode (s.chunk f) = true
      · have hexists' : chunkExists R w.chunks.chunkToNode ⟨f, stripeId, chunkId⟩ = true :=
          hm ▸ hexists
        have hcons : existing R m f ((pieces chunkSize chunkId offset (n - done)).map
            (Piece.span stripeId)) = s :: existing R m f
              ((pieces chunkSize (chunkId + 1) 0 (n - (done + len))).map (Piece.span stripeId)) := by
          rw [hspans, existing_cons, if_pos hexists]
        rw [if_pos hexists', hcons]
        refine (wp_bind _ _).mpr (wp_mono wp_readNode (fun node w₁ hw₁ => ?_) fun _ _ => trivial)
        obtain ⟨rfl, hnode⟩ := hw₁
        have hfrom : ReadsFrom R (routing w₁) (s.chunk f) node := readsFrom_routing hnode
        refine wp_bind_quiet hlock (fun _ => (upkeep_routed R _).emit rfl) fun _ w₂ hw₂ =>
          wp_bind_send hw₂.1 fun o w₃ hnext hw₃ => ?_
        rw [hw₂.2] at hw₃ hnext
        have hmaps : w₃.chunks = m := (congrArg Routing.chunks hw₃.2).trans hm
        cases o with
        | true =>
          refine wp_mono (ih (chunkId + 1) 0 (done + len) _ w₃ (Nat.zero_le _) (by omega) hw₃.1 hmaps)
            (fun _ w' htries => htries.imp_right fun htries => ?_) fun _ _ => trivial
          exact .read hfrom hnext (hw₃.2 ▸ htries)
        | false =>
          refine wp_bind_down hw₃.1 fun _ w₄ hw₄ => ?_
          have hmaps' : w₄.chunks = m := (congrArg Routing.chunks hw₄.2).trans hmaps
          refine wp_mono (ih chunkId offset done _ w₄ hoffset hdone hw₄.1 hmaps')
            (fun _ w' htries => htries.imp_right fun htries => ?_) fun _ _ => trivial
          rw [hcons, hw₄.2, hw₃.2] at htries
          exact .failed hfrom hnext htries
      · have hexists' : ¬ chunkExists R w.chunks.chunkToNode ⟨f, stripeId, chunkId⟩ = true :=
          hm ▸ hexists
        rw [if_neg hexists', hspans, existing_cons, if_neg hexists, wp_pure]
        exact ⟨hlock, .done⟩
    · have hzero : n - done = 0 := by omega
      rw [if_neg hlt, hzero, pieces_zero, wp_pure]
      exact ⟨hlock, .done⟩

/-- **`process_read_stripe`**, as tries. -/
theorem wp_processReadStripe_tries (id stripeId stripeSize offset n : ℕ) (chunkSize : ChunkSize)
    (hn : n ≤ intMax) (hlock : w.metaLock = none) :
    wp (processReadStripe R id f stripeId stripeSize chunkSize.val offset n)
      (fun _ w' => Routed (ReadTries R id f (existing R w.chunks f
        (stripeSpans chunkSize.val stripeId offset n)) (routing w)) w') (fun _ => True) w := by
  have hmin := chunkSize.min_le
  refine wp_bind_quiet hlock (fun _ => (upkeep_routed R _).emit rfl) fun _ w₁ hw₁ => ?_
  refine wp_bind_quiet hw₁.1 (fun _ => Enduring.assert _ _) fun _ w₂ hw₂ => ?_
  have hmaps : w₂.chunks = w.chunks := congrArg Routing.chunks (hw₂.2.trans hw₁.2)
  rw [getFirstChunk_eq]
  simp only [wp_bind, wp_get]
  have hloop := wp_readChunks_tries (R := R) (f := f) id stripeId w.chunks (by omega)
    chunkSize.le_max hn (w₂.network.script.length + 1) (firstBlock chunkSize.val offset)
    (firstOffset chunkSize.val offset) 0 0 w₂ (firstOffset_le (by omega)) (Nat.zero_le _) hw₂.1 hmaps
  rw [hw₂.2, hw₁.2] at hloop
  exact hloop

theorem keeps_processReadStripe (id stripeId stripeSize offset n : ℕ) (chunkSize : ChunkSize)
    (hn : n ≤ intMax) (hK : ∀ l ∈ stripeSpans chunkSize.val stripeId offset n, l.chunk f ∈ K) :
    (processReadStripe R id f stripeId stripeSize chunkSize.val offset n).Keeps
      (Routed (Rounds R K .readChunk s)) := by
  intro w h
  refine wp_mono (wp_processReadStripe_tries id stripeId stripeSize offset n chunkSize hn h.1)
    (fun _ w' htries => htries.imp_right fun htries => h.2.trans (htries.rounds ?_ ?_))
    fun _ _ => trivial
  · exact fun l hl => hK l ((List.takeWhile_prefix _).subset hl)
  · exact fun l hl => chunkExists_of_mem hl

/-- The replica is tried at its node and, if that fails, at the one then chosen. -/
theorem wp_writeReplica_tries (hlock : w.metaLock = none) (v : VolatileMetadata) (id : ℕ) (s : Span)
    (node : ℤ) (buf : List UInt8) :
    wp (writeReplica R id (s.chunk f) node s.offset buf s.length) (fun _ w' => w'.metaLock = none ∧
      ((routing w).Next true ∧
          routing w' = (routing w).tries true node (writePacket id f s (buf.take s.length)) ∨
        ∃ (a : Routing) (o : Bool), (routing w).Next false ∧
          a = ((routing w).tries false node (writePacket id f s (buf.take s.length))).down node ∧
          a.Next o ∧ routing w' = a.tries o (putReplica (a.nodes v) s.chunkNum)
            (writePacket id f s (buf.take s.length)))) (fun _ => True) w := by
  refine wp_bind_send hlock fun o w₁ hnext hw₁ => ?_
  cases o with
  | true => exact (wp_pure _).mpr ⟨hw₁.1, .inl ⟨hnext, hw₁.2⟩⟩
  | false =>
    refine wp_bind_down hw₁.1 fun _ w₂ hw₂ => ?_
    rw [wp_bind, wp_get]
    refine wp_bind_send hw₂.1 fun o w₃ hnext' hw₃ =>
      (wp_pure _).mpr ⟨hw₃.1, .inr ⟨routing w₂, o, hnext, by rw [hw₂.2, hw₁.2]; rfl, hnext', ?_⟩⟩
    have hput : putReplica w₂.volatile s.chunkNum = putReplica ((routing w₂).nodes v) s.chunkNum :=
      place_congr rfl _ _ _
    rw [hw₃.2, ← hput]
    rfl

/-- **The loop of `process_write_stripe`**, as tries. -/
theorem wp_writeChunks_tries (v : VolatileMetadata) (q : WriteRequest) (stripeId : ℕ) {chunkSize n : ℕ}
    (hmin : 0 < chunkSize) (hmax : chunkSize ≤ 65536) (hn : n ≤ intMax) (buf : List UInt8)
    (fuel : ℕ) : ∀ (chunkId offset done : ℕ) (written : ℕ × ℕ) (w : World), offset ≤ chunkSize →
      done ≤ n → w.metaLock = none →
      wp (writeChunks R q f stripeId chunkSize buf n fuel chunkId offset done written)
        (fun _ w' => Routed (WriteTries R v q f (portions
          ((pieces chunkSize chunkId offset (n - done)).map (Piece.span stripeId)) (buf.drop done))
          (routing w)) w') (fun _ => True) w := by
  induction fuel with
  | zero => exact fun _ _ _ _ w _ _ _ => by simp [writeChunks]
  | succ fuel ih =>
    intro chunkId offset done written w hoffset hdone hlock
    unfold writeChunks
    by_cases hlt : (done : ℤ) < n
    · generalize hlen : min (n - done) (chunkSize - offset) = len
      let s : Span := ⟨stripeId, chunkId, offset, len⟩
      have hsize : toUInt32 (splitSize n done chunkSize offset) = len := by
        rw [splitSize_eq hdone hn hoffset hmax, hlen, toUInt32_eq] <;> unfold intMax at hn <;> omega
      have hcons : portions ((pieces chunkSize chunkId offset (n - done)).map (Piece.span stripeId))
          (buf.drop done) = (s, (buf.drop done).take len) ::
            portions ((pieces chunkSize (chunkId + 1) 0 (n - (done + len))).map
              (Piece.span stripeId)) (buf.drop (done + len)) := by
        rw [pieces_of_pos hmin (by omega), hlen, Nat.sub_sub, List.map_cons, portions, Nat.add_comm,
          ← List.drop_drop]
        rfl
      rw [if_pos hlt, wp_bind, wp_writeNodes]
      simp only [hsize, Int.toNat_natCast]
      -- the chunk has its nodes; both are read off the maps before the first send
      have hm : placed R w.volatile (s.chunk f) w.chunks =
          placed R ((routing w).nodes v) (s.chunk f) (routing w).chunks := placed_congr rfl _ _
      have hchunk : (⟨f, stripeId, chunkId⟩ : FileChunk) = s.chunk f := rfl
      rw [hchunk]
      generalize placed R w.volatile (s.chunk f) w.chunks = m at hm
      have hplaced : routing { w with chunks := m } = { routing w with chunks := m } := rfl
      refine wp_bind_quiet hlock (fun _ => (upkeep_routed R _).emit rfl) fun _ w₂ hw₂ =>
        wp_bind_send hw₂.1 fun o w₃ hnext hw₃ => ?_
      rw [hw₂.2, hplaced] at hw₃ hnext
      rw [hcons]
      cases o with
      | false =>
        refine wp_bind_down hw₃.1 fun _ w₄ hw₄ => ?_
        refine wp_mono (ih chunkId offset done _ w₄ hoffset hdone hw₄.1)
          (fun _ w' htries => htries.imp_right fun htries => ?_) fun _ _ => trivial
        rw [hcons, hw₄.2, hw₃.2] at htries
        exact .retry hm hnext htries
      | true =>
        refine (wp_bind _ _).mpr (wp_mono (wp_writeReplica_tries hw₃.1 v q.replicaRequestId s _ _)
          (fun _ w₄ hw₄ => ?_) fun _ _ => trivial)
        obtain ⟨hlock₄, hw₄⟩ := hw₄
        refine wp_mono (ih (chunkId + 1) 0 (done + len) _ w₄ (Nat.zero_le _) (by omega) hlock₄)
          (fun _ w' htries => htries.imp_right fun htries => ?_) fun _ _ => trivial
        rcases hw₄ with ⟨hnext', hw₄⟩ | ⟨a, o, hnext', ha, hagain, hw₄⟩
        · exact .sent hm hnext hw₃.2 hnext' (hw₄ ▸ htries)
        · exact .resent hm hnext hw₃.2 hnext' ha hagain (hw₄ ▸ htries)
    · have hzero : n - done = 0 := by omega
      rw [if_neg hlt, hzero, pieces_zero, wp_pure]
      exact ⟨hlock, .done⟩

/-- **`process_write_stripe`**, as tries. -/
theorem wp_processWriteStripe_tries (v : VolatileMetadata) (q : WriteRequest)
    (stripeId stripeSize offset n : ℕ) (chunkSize : ChunkSize) (buf : List UInt8) (hn : n ≤ intMax)
    (hlock : w.metaLock = none) :
    wp (processWriteStripe R q f stripeId stripeSize chunkSize.val buf offset n)
      (fun _ w' => Routed (WriteTries R v q f
        (portions (stripeSpans chunkSize.val stripeId offset n) buf) (routing w)) w')
      (fun _ => True) w := by
  have hmin := chunkSize.min_le
  refine wp_bind_quiet hlock (fun _ => (upkeep_routed R _).emit rfl) fun _ w₁ hw₁ => ?_
  refine wp_bind_quiet hw₁.1 (fun _ => Enduring.assert _ _) fun _ w₂ hw₂ => ?_
  rw [getFirstChunk_eq]
  simp only [wp_bind, wp_get]
  have hloop := wp_writeChunks_tries (R := R) (f := f) v q stripeId (by omega) chunkSize.le_max hn buf
    (w₂.network.script.length + 1) (firstBlock chunkSize.val offset)
    (firstOffset chunkSize.val offset) 0 (0, 0) w₂ (firstOffset_le (by omega)) (Nat.zero_le _) hw₂.1
  rw [hw₂.2, hw₁.2] at hloop
  exact hloop

theorem keeps_processWriteStripe (q : WriteRequest) (stripeId stripeSize offset n : ℕ)
    (chunkSize : ChunkSize) (buf : List UInt8) (hn : n ≤ intMax)
    (hK : ∀ l ∈ stripeSpans chunkSize.val stripeId offset n, l.chunk f ∈ K) :
    (processWriteStripe R q f stripeId stripeSize chunkSize.val buf offset n).Keeps
      (Routed (Rounds R K .writeChunk s)) := by
  intro w h
  refine wp_mono (wp_processWriteStripe_tries w.volatile q stripeId stripeSize offset n chunkSize buf hn
    h.1) (fun _ w' htries => htries.imp_right fun htries => h.2.trans (htries.rounds fun e he => ?_))
    fun _ _ => trivial
  refine hK _ ?_
  rw [← map_fst_portions (stripeSpans chunkSize.val stripeId offset n) buf]
  exact List.mem_map_of_mem he

/-- A copy that is recorded at a node that is up is tried and erased. -/
theorem wp_deleteCopy_routed {copies : ChunkMaps → List (FileChunk × ℤ)}
    {put : List (FileChunk × ℤ) → ChunkMaps → ChunkMaps} (hlock : w.metaLock = none) (id : ℕ)
    (chunk : FileChunk) (n : ℕ) :
    wp (deleteCopy R copies put id chunk n) (fun _ w' => w'.metaLock = none ∧
      (AtUpNode R (copies w.chunks) w.volatile chunk ∧ (∃ o, (routing w).Next o ∧ routing w' =
          { (routing w).tries o (nodeOf R (copies w.chunks) chunk) (deletePacket id chunk) with
            chunks := put (R.search.erase chunk (copies w.chunks)) w.chunks }) ∨
        ¬ AtUpNode R (copies w.chunks) w.volatile chunk ∧ routing w' = routing w))
      (fun _ => True) w := by
  unfold deleteCopy
  rw [wp_bind, wp_get]
  by_cases hup : AtUpNode R (copies w.chunks) w.volatile chunk
  · have hcond : chunkExists R (copies w.chunks) chunk = true ∧
        w.volatile.isNodeUp (nodeOf R (copies w.chunks) chunk) = true := hup
    rw [if_pos hcond]
    refine wp_bind_send hlock fun o w₁ hnext hw₁ => ?_
    have hchunks : w₁.chunks = w.chunks := congrArg Routing.chunks hw₁.2
    simp only [Barista.chunks, wp_bind, wp_zoom, wp_modify, wp_pure]
    refine ⟨hw₁.1, .inl ⟨hup, o, hnext, ?_⟩⟩
    have hrouting : routing { w₁ with
        chunks := put (R.search.erase chunk (copies w₁.chunks)) w₁.chunks } =
        { routing w₁ with chunks := put (R.search.erase chunk (copies w₁.chunks)) w₁.chunks } := rfl
    rw [hrouting, hw₁.2, hchunks]
    rfl
  · have hcond : ¬ (chunkExists R (copies w.chunks) chunk = true ∧
        w.volatile.isNodeUp (nodeOf R (copies w.chunks) chunk) = true) := hup
    rw [if_neg hcond, wp_pure]
    exact ⟨hlock, .inr ⟨hup, rfl⟩⟩

theorem keeps_deleteCopy {copies : ChunkMaps → List (FileChunk × ℤ)}
    {put : List (FileChunk × ℤ) → ChunkMaps → ChunkMaps} (id : ℕ) (chunk : FileChunk) (n : ℕ)
    (hround : ∀ (s : Routing) (o : Bool) (r : ChunkRequest), r.chunk = chunk → s.Next o →
      chunkExists R (copies s.chunks) chunk = true →
      toUInt32 (nodeOf R (copies s.chunks) chunk) ∈ s.upNodes →
      Round R K .deleteChunk s { s.tries o (nodeOf R (copies s.chunks) chunk) r with
        chunks := put (R.search.erase chunk (copies s.chunks)) s.chunks }) :
    (deleteCopy R copies put id chunk n).Keeps (Routed (Rounds R K .deleteChunk s)) := by
  intro w h
  refine wp_mono (wp_deleteCopy_routed h.1 id chunk n) (fun _ w' hw' => hw'.imp_right fun hor => ?_)
    fun _ _ => trivial
  rcases hor with ⟨hup, o, hnext, heq⟩ | ⟨-, heq⟩
  · rw [heq]
    exact .tail h.2 (hround _ o _ rfl hnext hup.1 (of_decide_eq_true hup.2))
  · rw [heq]
    exact h.2

/-- **The loop of `process_delete_file`.** -/
theorem keeps_deleteChunks (id : ℕ) : ∀ (l : List FileChunk) (n : ℕ), (∀ chunk ∈ l, chunk ∈ K) →
    (deleteChunks R id l n).Keeps (Routed (Rounds R K .deleteChunk s))
  | [], _, _ => keeps_pure _
  | chunk :: l, n, hl => by
    obtain ⟨hchunk, hl⟩ := List.forall_mem_cons.mp hl
    refine .bind (keeps_deleteCopy id chunk n fun s o r hr hnext hfound hup => ?_) fun _ =>
      .bind (keeps_deleteCopy id chunk _ fun s o r hr hnext hfound hup => ?_) fun _ =>
        keeps_deleteChunks id l _ hl
    · subst hr
      exact .deleted hchunk hfound hup hnext
    · subst hr
      exact .deletedReplica hchunk hfound hup hnext

theorem keeps_processDeleteFile (id : ℕ) : (processDeleteFile R id f).Keeps
    (Routed (Rounds R {chunk | chunk.fileId = f} .deleteChunk s)) := by
  refine .bind keeps_get fun w => keeps_deleteChunks id _ _ fun chunk hchunk => ?_
  simpa using (List.mem_filter.mp hchunk).2

/-! ### Calls -/

/-- The chunks that the spans lie in. -/
def chunksOf (f : ℕ) (l : List Span) : Set FileChunk := {chunk | ∃ s ∈ l, s.chunk f = chunk}

theorem length_le_intMax {stat : DecafsFileStat} {offset n : ℕ} {p : Piece}
    (hp : p ∈ segment stat offset n) : (p.length : ℤ) ≤ intMax := by
  have hmin := stat.stripeSize.min_le
  have hmax := stat.stripeSize.le_max
  have hle := (offset_add_length_le (firstOffset_le (by omega)) hp).1
  unfold intMax
  omega

theorem chunk_mem_chunksOf {stat : DecafsFileStat} {ps : List Piece} {p : Piece} (hp : p ∈ ps) :
    ∀ l ∈ stripeSpans stat.chunkSize.val p.id p.offset p.length,
      l.chunk f ∈ chunksOf f (callSpans stat.chunkSize.val ps) :=
  fun l hl => ⟨l, List.mem_flatMap.mpr ⟨p, hp, hl⟩, rfl⟩

theorem keeps_dispatchRead (id : ℕ) (fd : ℤ) (stat : DecafsFileStat) (offset : ℕ) (c : ℤ)
    (client : Client) : (dispatchRead R id fd f stat offset (sizeArgument c) client).Keeps (Routed
      (Rounds R (chunksOf f (callSpans stat.chunkSize.val (segment stat offset (toInt32 c).toNat)))
        .readChunk s)) :=
  (upkeep_routed R _).dispatchRead (fun _ hp => keeps_processReadStripe _ _ _ _ _ _
    (length_le_intMax hp) (chunk_mem_chunksOf hp)) _ _

theorem keeps_dispatchWrite (q : WriteRequest) (fd : ℤ) (stat : DecafsFileStat) (offset : ℕ)
    (buf : List UInt8) (c : ℤ) (client : Client) :
    (dispatchWrite R q fd f stat offset buf (sizeArgument c) client).Keeps (Routed
      (Rounds R (chunksOf f (callSpans stat.chunkSize.val (segment stat offset (toInt32 c).toNat)))
        .writeChunk s)) := fun _ hw =>
  Enduring.dispatchWrite (J := fun _ => Routed (Rounds R (chunksOf f (callSpans stat.chunkSize.val
    (segment stat offset (toInt32 c).toNat))) .writeChunk s)) (fun _ => (upkeep_routed R _).toEnduring)
    (fun _ hp _ _ => keeps_processWriteStripe _ _ _ _ _ _ _ (length_le_intMax hp)
      (chunk_mem_chunksOf hp)) (fun _ _ _ _ _ h => h) _ hw

theorem keeps_dispatchDelete (id : ℕ) (client : Client) : (dispatchDelete R id f client).Keeps
    (Routed (Rounds R {chunk | chunk.fileId = f} .deleteChunk s)) :=
  .bind ((upkeep_routed R _).requests _) fun _ => .bind ((upkeep_routed R _).emit rfl) fun _ =>
    .bind (keeps_processDeleteFile _) fun _ => .bind keeps_get fun _ => .bind (Enduring.assert _ _)
    fun _ => .bind ((upkeep_routed R _).requests _) fun _ =>
    (upkeep_routed R _).checkDeleteComplete _

end Stripes

theorem keeps_openFileId (fileId size flags : ℕ) (client : Client) :
    (openFileId R fileId size flags client).Keeps (Routed K) := by
  have hnew : (volatile (VolatileMetadata.newFileCursor fileId client)).Keeps
      (Routed K) := by
    intro w h
    simp only [volatile, VolatileMetadata.newFileCursor, VolatileMetadata.getNewFd, wp_zoom, wp_bind,
      wp_get, wp_set, wp_modify, wp_pure]
    exact h
  have hlock : (locking (if flags &&& oRdwr ≠ 0 then getExclusiveLock client fileId
      else getSharedLock client fileId)).Keeps (Routed K) := (upkeep_routed R _).locking _
  refine .bind hlock fun _ => .ite ((upkeep_routed R _).emit rfl) (.bind hnew fun cursor => ?_)
  exact .ite (.bind ((upkeep_routed R _).setFileCursor _ _ _) fun _ => (upkeep_routed R _).emit rfl) ((upkeep_routed R _).emit rfl)

theorem keeps_openFile (path : String) (flags : ℕ) (client : Client) :
    (openFile R path flags client).Keeps (Routed K) := by
  refine .bind (keeps_withMetadataLock _ _ _) fun stat => ?_
  cases stat with
  | ok stat => exact keeps_openFileId _ _ _ _
  | error e =>
    exact .ite (keeps_openFileId _ _ _ _) (.ite (.bind keeps_get fun _ => .bind keeps_get fun _ =>
      .bind (keeps_withMetadataLock _ _ _) fun _ => keeps_openFileId _ _ _ _) ((upkeep_routed R _).emit rfl))

theorem keeps_closeFile (R : Runtime) (fd : ℤ) (client : Client) :
    (closeFile fd client).Keeps (Routed K) := by
  have hclose : (volatile (VolatileMetadata.closeFileCursor (fdKey fd) client)).Keeps
      (Routed K) := by
    intro w h
    simp only [volatile, VolatileMetadata.closeFileCursor, wp_zoom, wp_bind, wp_get]
    cases w.volatile.fileCursors.lookup (fdKey fd) with
    | none => exact (wp_pure _).mpr h
    | some file =>
      simp only
      split_ifs
      · simp only [wp_bind, wp_modify, wp_pure]
        exact h
      · exact (wp_pure _).mpr h
  exact .bind hclose fun _ => .ite (.bind ((upkeep_routed R _).locking _) fun _ => (upkeep_routed R _).emit rfl) ((upkeep_routed R _).emit rfl)

theorem keeps_fileSeek (fd : ℤ) (offset : ℕ) (whence : Whence) (client : Client) :
    (fileSeek R fd offset whence client).Keeps (Routed K) := by
  have hlast : (do emit (.told client (.seekResult ((← get).volatile.getFileCursor (fdKey fd)))) :
      Barista PUnit).Keeps (Routed K) := .bind keeps_get fun _ => (upkeep_routed R _).emit rfl
  have hmove : (do
      let cursor := (← get).volatile.getFileCursor (fdKey fd)
      if cursor ≥ 0 then
        let _ ← setFileCursor R fd (cursor + offset) client
      emit (.told client (.seekResult ((← get).volatile.getFileCursor (fdKey fd)))) :
        Barista PUnit).Keeps (Routed K) :=
    .bind keeps_get fun _ => .ite (.bind ((upkeep_routed R _).setFileCursor _ _ _) fun _ => hlast) hlast
  refine .ite (.bind ((upkeep_routed R _).setFileCursor _ _ _) fun _ => hlast) ?_
  exact .ite (.bind ((upkeep_routed R _).setFileCursor _ _ _) fun _ => hmove) hmove

/-! ### Messages -/

theorem writeSpans_eq (w : World) (info : PersistentMetadataInfo) {fd : ℤ} (count : ℤ) {offset : ℕ}
    (h : w.volatile.getFileCursor (fdKey fd) = offset) : writeSpans info fd count w =
      callSpans info.chunkSize.val (segment (PersistentMetadata.toStat info) offset
        (toInt32 count).toNat) := by
  rw [writeSpans, segmentAt, h, Int.toNat_natCast]

/-- What the packets of a message ask for, and the chunks of a file they are about. -/
inductive Concerns (w : World) : Input → Flag → ℕ → Set FileChunk → Prop
  | readFile {fd count : ℤ} {client : Client} {script : List SendOutcome}
      {info : PersistentMetadataInfo}
      (file : w.persistent.metadata.lookup (w.fileAt fd) = some info) :
      Concerns w (.readFile fd count client script) .readChunk (w.fileAt fd)
        (chunksOf (w.fileAt fd) (writeSpans info fd count w))
  | writeFile {fd count : ℤ} {buf : List UInt8} {client : Client} {script : List SendOutcome}
      {info : PersistentMetadataInfo}
      (file : w.persistent.metadata.lookup (w.fileAt fd) = some info) :
      Concerns w (.writeFile fd buf count client script) .writeChunk (w.fileAt fd)
        (chunksOf (w.fileAt fd) (writeSpans info fd count w))
  | deleteFile {path : String} {client : Client} {script : List SendOutcome}
      {info : PersistentMetadataInfo} (file : w.persistent.fileOf path = some info) :
      Concerns w (.deleteFile path client script) .deleteChunk info.fileId
        {chunk | chunk.fileId = info.fileId}

theorem Concerns.fileId_eq {i : Input} {flag : Flag} {f : ℕ} {K : Set FileChunk}
    (h : Concerns w i flag f K) : ∀ chunk ∈ K, chunk.fileId = f := by
  cases h with
  | readFile _ =>
    rintro _ ⟨l, -, rfl⟩
    rfl
  | writeFile _ =>
    rintro _ ⟨l, -, rfl⟩
    rfl
  | deleteFile _ => exact fun _ h => h

/-- What a message does to the routing before its packets are sent, if any are. -/
def Routing.told (s : Routing) : Input → Routing
  | .readFile _ _ _ script | .writeFile _ _ _ _ script | .deleteFile _ _ script =>
    { s with outcomes := script.map SendOutcome.accepted }
  | .nodeUp node => { s with
      upNodes := if toUInt32 node ∈ s.upNodes then s.upNodes else s.upNodes ++ [toUInt32 node] }
  | .nodeDown node => s.down node
  | _ => s

/-- **What a message does to the routing**: its packets go out in rounds about its chunks. -/
theorem step_routed {i : Input} (hlock : w.metaLock = none) (hstep : step R w i w') :
    w'.metaLock = none ∧ (routing w' = (routing w).told i ∨
      ∃ flag f K, Concerns w i flag f K ∧
        Routing.Rounds R K flag ((routing w).told i) (routing w')) := by
  cases i with
  | openFile path flags client =>
    exact ((keeps_openFile (K := (· = routing w)) path flags client).of_ok hstep ⟨hlock, rfl⟩).imp_right
      .inl
  | closeFile fd client =>
    exact ((keeps_closeFile (K := (· = routing w)) R fd client).of_ok hstep ⟨hlock, rfl⟩).imp_right .inl
  | fileSeek fd offset whence client =>
    exact ((keeps_fileSeek (K := (· = routing w)) fd offset whence client).of_ok hstep
      ⟨hlock, rfl⟩).imp_right .inl
  | response d =>
    exact (((upkeep_routed R (· = routing w)).receive d).of_ok hstep ⟨hlock, rfl⟩).imp_right .inl
  | nodeUp node =>
    have hup : wp (handle R (.nodeUp node)) (fun _ w' =>
        Routed (· = (routing w).told (.nodeUp node)) w') (fun _ => True) w := by
      simp only [handle, volatile, wp_bind, wp_zoom]
      refine VolatileMetadata.wp_setNodeUp fun _ => (wp_pure _).mpr ⟨hlock, ?_⟩
      unfold VolatileMetadata.up VolatileMetadata.isNodeUp Routing.told
      by_cases hmem : toUInt32 node ∈ w.volatile.upNodes
      · simp [routing, hmem]
      · simp [routing, hmem]
    exact (hup.of_ok hstep).imp_right .inl
  | nodeDown node =>
    have hdown : wp (handle R (.nodeDown node)) (fun _ w' => Routed (· = (routing w).down node) w')
        (fun _ => True) w := wp_bind_down hlock fun _ _ h => (wp_pure _).mpr h
    exact (hdown.of_ok hstep).imp_right .inl
  | readFile fd count client script =>
    let s := (routing w).told (.readFile fd count client script)
    let K : Routing → Prop := fun s' => s' = s ∨ ∃ info,
      w.persistent.metadata.lookup (w.fileAt fd) = some info ∧
      Routing.Rounds R (chunksOf (w.fileAt fd) (writeSpans info fd count w)) .readChunk s s'
    have hread : wp (handle R (.readFile fd count client script)) (fun _ w' => Routed K w')
        (fun _ => True) w := by
      refine wp_scripted.mpr ((upkeep_routed R K).readFile (w := withScript script w)
        ⟨hlock, .inl rfl⟩ _ _ ?_)
      intro id info w₁ hunmoved _ hinfo offset hoffset
      have hrouting : routing w₁ = s := hunmoved.routing
      have hspans := writeSpans_eq w info count hoffset
      refine wp_mono (keeps_dispatchRead _ _ _ _ _ _ _ ⟨hunmoved.metaLock.trans hlock, .refl⟩)
        (fun _ w₂ hw₂ => ⟨hw₂.1, .inr ⟨info, hinfo, ?_⟩⟩) fun _ _ => trivial
      rw [hspans]
      exact hrouting ▸ hw₂.2
    refine (hread.of_ok hstep).imp_right fun h => h.imp_right ?_
    rintro ⟨info, hinfo, hrounds⟩
    exact ⟨_, _, _, .readFile hinfo, hrounds⟩
  | writeFile fd buf count client script =>
    let s := (routing w).told (.writeFile fd buf count client script)
    let K : Routing → Prop := fun s' => s' = s ∨ ∃ info,
      w.persistent.metadata.lookup (w.fileAt fd) = some info ∧
      Routing.Rounds R (chunksOf (w.fileAt fd) (writeSpans info fd count w)) .writeChunk s s'
    have hwrite : wp (handle R (.writeFile fd buf count client script)) (fun _ w' => Routed K w')
        (fun _ => True) w := by
      refine wp_scripted.mpr ((upkeep_routed R K).writeFile (w := withScript script w)
        ⟨hlock, .inl rfl⟩ _ _ _ ?_)
      intro q info w₁ hunmoved _ hinfo offset hoffset
      have hrouting : routing w₁ = s := hunmoved.routing
      have hspans := writeSpans_eq w info count hoffset
      refine wp_mono (keeps_dispatchWrite _ _ _ _ _ _ _ _ ⟨hunmoved.metaLock.trans hlock, .refl⟩)
        (fun _ w₂ hw₂ => ⟨hw₂.1, .inr ⟨info, hinfo, ?_⟩⟩) fun _ _ => trivial
      rw [hspans]
      exact hrouting ▸ hw₂.2
    refine (hwrite.of_ok hstep).imp_right fun h => h.imp_right ?_
    rintro ⟨info, hinfo, hrounds⟩
    exact ⟨_, _, _, .writeFile hinfo, hrounds⟩
  | deleteFile path client script =>
    let s := (routing w).told (.deleteFile path client script)
    let K : Routing → Prop := fun s' => s' = s ∨ ∃ info, w.persistent.fileOf path = some info ∧
      Routing.Rounds R {chunk | chunk.fileId = info.fileId} .deleteChunk s s'
    have hdelete : wp (handle R (.deleteFile path client script)) (fun _ w' => Routed K w')
        (fun _ => True) w := by
      refine wp_scripted.mpr ((upkeep_routed R K).deleteFile (w := withScript script w)
        ⟨hlock, .inl rfl⟩ _ ?_)
      intro id info w₁ hunmoved _ hinfo
      have hrouting : routing w₁ = s := hunmoved.routing
      refine wp_mono (keeps_dispatchDelete _ _ _ ⟨hunmoved.metaLock.trans hlock, .refl⟩)
        (fun _ w₂ hw₂ => ⟨hw₂.1, .inr ⟨info, hinfo, ?_⟩⟩) fun _ _ => trivial
      exact hrouting ▸ hw₂.2
    refine (hdelete.of_ok hstep).imp_right fun h => h.imp_right ?_
    rintro ⟨info, hinfo, hrounds⟩
    exact ⟨_, _, _, .deleteFile hinfo, hrounds⟩

end

end DecaFS
