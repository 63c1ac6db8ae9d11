import DecaFS.BaristaCore.Placement
import DecaFS.NetworkCore.Connections

/-!
# Which nodes packets go to

`sendToEspresso` looks its node up in `m_espresso_nodes` and takes the connection it finds there. The
callers consult the list of the nodes that are up in some branches only: `process_read_stripe` falls
back to the replica's node unasked, `put_chunk` and `put_replica` to the other node of their pair, and
a chunk is written to the nodes on record. `Deliverable` says of a message what these branches need,
and `sends_live` that it is enough for a whole run.
-/

namespace DecaFS

open Code Barista Search

/-! ### Rounds -/

namespace Routing

/-- The node on record for a chunk, or the one that `put` chooses. -/
def chosen (R : Runtime) (map : List (FileChunk × ℤ)) (put : ℕ → ℤ) (k : FileChunk) : ℤ :=
  (R.search.valueOf map k).getD (put k.chunkNum)

/-- The nodes of the chunks `K` are all of the kind `L`, those that `put` chooses included. -/
structure Ready (R : Runtime) (K : Set FileChunk) (L : ℤ → Prop) (put : ℕ → ℤ)
    (map : List (FileChunk × ℤ)) : Prop where
  readsBack : R.search.ReadsBack K map
  chosen : ∀ k ∈ K, L (chosen R map put k)

/-- The packets tried from one state to the other went to nodes of the kind `L`. -/
def SendsTo (L : ℤ → Prop) (s s' : Routing) : Prop :=
  ∃ new, s'.tried = new ++ s.tried ∧ ∀ a ∈ new, L a.node

section

variable {R : Runtime} {K : Set FileChunk} {L : ℤ → Prop} {put put' : ℕ → ℤ} {k k₀ : FileChunk}
  {map : List (FileChunk × ℤ)} {s s' s'' : Routing}

theorem SendsTo.refl (s : Routing) : SendsTo L s s := ⟨[], rfl, by simp⟩

theorem SendsTo.trans (h : SendsTo L s s') (h' : SendsTo L s' s'') : SendsTo L s s'' := by
  obtain ⟨new, hnew, hL⟩ := h
  obtain ⟨new', hnew', hL'⟩ := h'
  exact ⟨new' ++ new, by rw [hnew', hnew, List.append_assoc], List.forall_mem_append.mpr ⟨hL', hL⟩⟩

theorem nodeOf_eq_getD : nodeOf R map k = (R.search.valueOf map k).getD 0 := rfl

theorem valueOf_ite (h : R.search.ReadsBack K map) (hk₀ : k₀ ∈ K) (hk : k ∈ K) (put : ℕ → ℤ) :
    R.search.valueOf (if chunkExists R map k₀ then map else R.search.set k₀ (put k₀.chunkNum) map) k =
      if k = k₀ then some (chosen R map put k₀) else R.search.valueOf map k := by
  by_cases hexists : chunkExists R map k₀ = true
  · rw [if_pos hexists]
    split_ifs with heq
    · obtain ⟨e, he⟩ := Option.isSome_iff_exists.mp hexists
      rw [heq, chosen, valueOf, he]
      rfl
    · rfl
  · have hnone := chunkExists_eq_false_iff.mp hexists
    obtain ⟨hset, hother⟩ := h map k₀ (put k₀.chunkNum) .refl hk₀ hnone
    rw [if_neg hexists]
    split_ifs with heq
    · rw [heq, hset, chosen, hnone]
      rfl
    · exact hother k hk heq

/-- **A chunk gets its node**, and the choices for the others may change to nodes of the kind `L`. -/
theorem Ready.ite (h : Ready R K L put map) (h' : Ready R K L put' map) (hk₀ : k₀ ∈ K) :
    Ready R K L put'
      (if chunkExists R map k₀ then map else R.search.set k₀ (put k₀.chunkNum) map) where
  readsBack := h.readsBack.of_grows (grows_ite hk₀ map _)
  chosen k hk := by
    unfold Routing.chosen
    rw [valueOf_ite h.readsBack hk₀ hk put]
    split_ifs with heq
    · exact heq ▸ h.chosen k hk
    · exact h'.chosen k hk

theorem Ready.nodeOf_ite (h : Ready R K L put map) (hk₀ : k₀ ∈ K) : L (nodeOf R
    (if chunkExists R map k₀ then map else R.search.set k₀ (put k₀.chunkNum) map) k₀) := by
  rw [nodeOf_eq_getD, valueOf_ite h.readsBack hk₀ hk₀, if_pos rfl]
  exact h.chosen k₀ hk₀

end

/-- These nodes can be those that are up from `s` on: nodes go down as sends fail. -/
structure CanBeUp (s : Routing) (up : List ℤ) : Prop where
  subset : up ⊆ s.upNodes
  eq : (∀ o ∈ s.outcomes, o = true) → up = s.upNodes

/-- What the loop of `process_write_stripe` needs. -/
structure WriteReady (R : Runtime) (K : Set FileChunk) (L : ℤ → Prop) (s : Routing) : Prop where
  primary : ∀ v : VolatileMetadata, CanBeUp s v.upNodes → Ready R K L (putChunk v) s.chunks.chunkToNode
  replica : ∀ v : VolatileMetadata, CanBeUp s v.upNodes → Ready R K L (putReplica v) s.chunks.chunkToReplicaNode
  again : false ∈ s.outcomes → ∀ v : VolatileMetadata, CanBeUp s v.upNodes →
    ∀ k ∈ K, L (putReplica v k.chunkNum)

/-- What the loop of `process_read_stripe` needs where it falls back to the replica. -/
def ReadReady (R : Runtime) (K : Set FileChunk) (L : ℤ → Prop) (s : Routing) : Prop :=
  ∀ up, CanBeUp s up → ∀ k ∈ K, chunkExists R s.chunks.chunkToNode k = true →
    toUInt32 (nodeOf R s.chunks.chunkToNode k) ∉ up →
    chunkExists R s.chunks.chunkToReplicaNode k = true → L (nodeOf R s.chunks.chunkToReplicaNode k)

/-- The nodes that are up are of the kind `L`. -/
def UpAre (L : ℤ → Prop) (s : Routing) : Prop := ∀ node, toUInt32 node ∈ s.upNodes → L node

section

variable {R : Runtime} {K : Set FileChunk} {L : ℤ → Prop} {s s' : Routing} {v : VolatileMetadata}
  {new : List Attempt}

theorem Next.mem {o : Bool} (h : s.Next o) : o ∈ s.outcomes := List.mem_of_mem_head? h

theorem canBeUp_of_eq {up : List ℤ} (h : up = s.upNodes) : CanBeUp s up :=
  ⟨by rw [h]; exact List.Subset.refl _, fun _ => h⟩

theorem Tried.canBeUp {up : List ℤ} (h : Tried s s' new) (hup : CanBeUp s' up) : CanBeUp s up where
  subset := List.Subset.trans hup.subset h.subset
  eq hall := by
    rw [h.outcomes, List.forall_mem_append] at hall
    rw [hup.eq hall.2]
    exact h.upNodes_eq fun a ha => hall.1 _ (List.mem_reverse.mpr (List.mem_map_of_mem ha))

theorem Tried.mem_outcomes (h : Tried s s' new) {o : Bool} (ho : o ∈ s'.outcomes) : o ∈ s.outcomes := by
  rw [h.outcomes]
  exact List.mem_append_right _ ho

theorem place_mem (v : VolatileMetadata) (p p' : ℤ) (c : ℕ) : place v p p' c = p ∨ place v p p' c = p' := by
  unfold place
  grind

/-- It is enough that the nodes 1 to 4 are of the kind `L`, and those on record. -/
theorem WriteReady.of_nodes (hmaps : MapsReadBack R K s.chunks)
    (hnodes : ∀ node, 1 ≤ node → node ≤ 4 → L node)
    (hprimary : ∀ k ∈ K, ∀ node, R.search.valueOf s.chunks.chunkToNode k = some node → L node)
    (hreplica : ∀ k ∈ K, ∀ node, R.search.valueOf s.chunks.chunkToReplicaNode k = some node → L node) :
    WriteReady R K L s := by
  have hput : ∀ (v : VolatileMetadata) c, L (putChunk v c) ∧ L (putReplica v c) := by
    intro v c
    have hmem := place_mem v 1 2 c
    have hmem' := place_mem v 3 4 c
    exact ⟨hnodes _ (by unfold putChunk; omega) (by unfold putChunk; omega),
      hnodes _ (by unfold putReplica; omega) (by unfold putReplica; omega)⟩
  refine ⟨fun v _ => ⟨hmaps.primary, fun k hk => ?_⟩, fun v _ => ⟨hmaps.replica, fun k hk => ?_⟩,
    fun _ v _ k _ => (hput v k.chunkNum).2⟩
  · cases hvalue : R.search.valueOf s.chunks.chunkToNode k with
    | some node => simpa [Routing.chosen, hvalue] using hprimary k hk node hvalue
    | none => simpa [Routing.chosen, hvalue] using (hput v k.chunkNum).1
  · cases hvalue : R.search.valueOf s.chunks.chunkToReplicaNode k with
    | some node => simpa [Routing.chosen, hvalue] using hreplica k hk node hvalue
    | none => simpa [Routing.chosen, hvalue] using (hput v k.chunkNum).2

/-- The chunk `k₀` gets its nodes. -/
theorem WriteReady.placed (h : WriteReady R K L s) {k₀ : FileChunk} (hk₀ : k₀ ∈ K)
    (hv : v.upNodes = s.upNodes) (htried : Tried s s' new)
    (hchunks : s'.chunks = DecaFS.placed R v k₀ s.chunks) : WriteReady R K L s' where
  primary v' hv' := by
    rw [hchunks, chunkToNode_placed]
    exact (h.primary v (canBeUp_of_eq hv)).ite (h.primary v' (htried.canBeUp hv')) hk₀
  replica v' hv' := by
    rw [hchunks, chunkToReplicaNode_placed]
    exact (h.replica v (canBeUp_of_eq hv)).ite (h.replica v' (htried.canBeUp hv')) hk₀
  again hfalse v' hv' := h.again (htried.mem_outcomes hfalse) v' (htried.canBeUp hv')

theorem WriteReady.nodes (h : WriteReady R K L s) {k₀ : FileChunk} (hk₀ : k₀ ∈ K)
    (hv : v.upNodes = s.upNodes) : L (nodeOf R (DecaFS.placed R v k₀ s.chunks).chunkToNode k₀) ∧
      L (nodeOf R (DecaFS.placed R v k₀ s.chunks).chunkToReplicaNode k₀) := by
  rw [chunkToNode_placed, chunkToReplicaNode_placed]
  exact ⟨(h.primary v (canBeUp_of_eq hv)).nodeOf_ite hk₀, (h.replica v (canBeUp_of_eq hv)).nodeOf_ite hk₀⟩

/-- **A round of a write.** -/
theorem Round.write (h : Round R K .writeChunk s s') (hs : WriteReady R K L s) :
    WriteReady R K L s' ∧ SendsTo L s s' := by
  obtain ⟨new, htried, -⟩ := h.exists_tried
  cases h with
  | writeFailed mem hv hm next =>
    subst hm
    refine ⟨hs.placed mem hv htried rfl, [_], rfl, ?_⟩
    simpa using (hs.nodes mem hv).1
  | written mem _ hv hm next next' =>
    subst hm
    refine ⟨hs.placed mem hv htried rfl, [_, _], rfl, ?_⟩
    simpa using (hs.nodes mem hv).symm
  | @rewritten _ s₁ _ v' r r' m o mem _ hv hm next next' hs₁ hv' again =>
    subst hm
    subst hs₁
    -- the nodes of the second attempt are chosen with the first replica's node down
    have hup : CanBeUp s v'.upNodes := by
      refine ⟨by rw [hv']; exact List.filter_subset_self _, fun hall => ?_⟩
      exact absurd (hall false (List.mem_of_mem_tail next'.mem)) Bool.false_ne_true
    have hput := hs.again (List.mem_of_mem_tail next'.mem) v' hup r.chunk mem
    refine ⟨hs.placed mem hv htried rfl, [_, _, _], rfl, ?_⟩
    simpa using ⟨hput, (hs.nodes mem hv).symm⟩

theorem ReadReady.tried (hs : ReadReady R K L s) (h : Tried s s' new) (hchunks : s'.chunks = s.chunks) :
    ReadReady R K L s' := by
  intro v hv
  rw [hchunks]
  exact hs v (h.canBeUp hv)

theorem UpAre.tried (hup : UpAre L s) (h : Tried s s' new) : UpAre L s' :=
  fun node hnode => hup node (h.subset hnode)

/-- **A round of a read.** -/
theorem Round.fetch (h : Round R K .readChunk s s') (hs : UpAre L s ∧ ReadReady R K L s) :
    (UpAre L s' ∧ ReadReady R K L s') ∧ SendsTo L s s' := by
  have hnode : ∀ {node : ℤ} {k : FileChunk}, k ∈ K → chunkExists R s.chunks.chunkToNode k = true →
      ReadsFrom R s k node → L node := by
    intro node k hk hfound hfrom
    rcases hfrom with ⟨hmem, rfl⟩ | ⟨hdown, hreplica, rfl⟩
    · exact hs.1 _ hmem
    · exact hs.2 s.upNodes (canBeUp_of_eq rfl) k hk hfound hdown hreplica
  obtain ⟨new, htried, -⟩ := h.exists_tried
  cases h with
  | read mem hfound hfrom next =>
    refine ⟨⟨hs.1.tried htried, hs.2.tried htried rfl⟩, [_], rfl, ?_⟩
    simpa using hnode mem hfound hfrom
  | readFailed mem hfound hfrom next =>
    refine ⟨⟨hs.1.tried htried, hs.2.tried htried rfl⟩, [_], rfl, ?_⟩
    simpa using hnode mem hfound hfrom

/-- **A round of a delete**, which asks for each node whether it is up. -/
theorem Round.delete (h : Round R K .deleteChunk s s') (hs : UpAre L s) :
    UpAre L s' ∧ SendsTo L s s' := by
  cases h with
  | deleted _ _ mem => exact ⟨hs, [_], rfl, by simpa using hs _ mem⟩
  | deletedReplica _ _ mem => exact ⟨hs, [_], rfl, by simpa using hs _ mem⟩

/-- What each round keeps while it sends to nodes of the kind `L`, the rounds keep. -/
theorem Rounds.sendsTo {flag : Flag} {I : Routing → Prop}
    (hround : ∀ s s', Round R K flag s s' → I s → I s' ∧ SendsTo L s s')
    (h : Rounds R K flag s s') (hs : I s) : SendsTo L s s' := by
  have hboth : I s' ∧ SendsTo L s s' := by
    induction h with
    | refl => exact ⟨hs, .refl s⟩
    | tail _ hlast ih =>
      obtain ⟨hI, hsent⟩ := hround _ _ hlast ih.1
      exact ⟨hI, ih.2.trans hsent⟩
  exact hboth.2

end

end Routing

/-! ### Runs -/

theorem Concerns.of_calledBy {w : World} {i : Input} {c : Client} {flag : Flag} {f : ℕ}
    {K : Set FileChunk} (h : Concerns w (i.calledBy c) flag f K) : Concerns w i flag f K := by
  cases i with
  | readFile => cases h with | readFile file => exact .readFile file
  | writeFile => cases h with | writeFile file => exact .writeFile file
  | deleteFile => cases h with | deleteFile file => exact .deleteFile file
  | openFile | closeFile | fileSeek | response | nodeUp | nodeDown => cases h

theorem told_calledBy (s : Routing) (i : Input) (c : Client) :
    s.told (i.calledBy c) = s.told i := by
  cases i <;> rfl

namespace BaristaServer

/-- A node to which `sendToEspresso` can send. -/
def Live (s : BaristaServer) (node : ℤ) : Prop :=
  ∃ c ∈ s.clients, s.espressoNodes.lookup (toInt32 node) = some c

/-- The nodes that the call can send to are live, as far as its handler does not ask for that. -/
def Deliverable (R : Runtime) (s : BaristaServer) : ServerEvent → Prop
  | .message _ i => ∀ flag f K, Concerns s.world i flag f K →
    match flag with
    | .readChunk => Routing.ReadReady R K s.Live ((routing s.world).told i)
    | .writeChunk => Routing.WriteReady R K s.Live ((routing s.world).told i)
    | .deleteChunk => True
  | _ => True

/-- Every packet that was tried in the step went to a live node. -/
def SentLive (s s' : BaristaServer) : Prop := Routing.SendsTo s.Live (routing s.world) (routing s'.world)

section

variable {R : Runtime} {s s' : BaristaServer} {e : ServerEvent}

theorem Wired.upAre (h : s.Wired) : Routing.UpAre s.Live (routing s.world) := by
  intro node hnode
  obtain ⟨c, hc⟩ := Finmap.mem_iff.mp (h.up node (decide_eq_true hnode))
  exact ⟨c, h.connected c (.inr (.inr (Finmap.mem_of_lookup_eq_some (h.rev _ c hc)))), hc⟩

/-- **One event.** -/
theorem Wired.sentLive (h : s.Wired) (hd : s.Deliverable R e) (hs : BaristaServer.serves R s e s') :
    s.SentLive s' := by
  have hhappens := hs.happens h
  obtain ⟨hfrom, hstep⟩ := hs
  cases e with
  | message client i =>
    obtain ⟨i', w', hserved, rfl, hi⟩ := step_message hstep hfrom
    obtain ⟨-, hrouted⟩ := step_routed h.unlocked hserved
    -- a response sends nothing, and whom a call comes from says nothing about its chunks
    have htold : (((routing s.world).told i').tried = (routing s.world).tried ∧
        ((routing s.world).told i').upNodes = (routing s.world).upNodes) := by
      rcases hi with ⟨c, -, rfl, hcall⟩ | ⟨d, rfl⟩
      · cases i <;> first | exact ⟨rfl, rfl⟩ | exact absurd hcall Bool.false_ne_true
      · exact ⟨rfl, rfl⟩
    have hup : Routing.UpAre s.Live ((routing s.world).told i') := by
      intro node hnode
      exact h.upAre node (htold.2 ▸ hnode)
    have hsent : Routing.SendsTo s.Live ((routing s.world).told i') (routing w') := by
      rcases hrouted with heq | ⟨flag, f, K, hK, hrounds⟩
      · exact heq ▸ .refl _
      · rcases hi with ⟨c, -, rfl, -⟩ | ⟨d, rfl⟩
        · have hready := hd flag f K hK.of_calledBy
          rw [told_calledBy] at hrounds hup ⊢
          cases flag with
          | readChunk => exact hrounds.sendsTo (fun _ _ => Routing.Round.fetch) ⟨hup, hready⟩
          | writeChunk => exact hrounds.sendsTo (fun _ _ => Routing.Round.write) hready
          | deleteChunk => exact hrounds.sendsTo (fun _ _ => Routing.Round.delete) hup
        · cases hK
    unfold Routing.SendsTo at hsent
    rwa [htold.1] at hsent
  | clientConnected | clientDisconnected | espressoInit | decafsClientInit =>
    cases hhappens <;> exact ⟨[], rfl, List.forall_mem_nil _⟩

end

/-- A client connects and opens file 1. -/
def clientOpens (client : ℕ) : List ServerEvent :=
  [.clientConnected client, .decafsClientInit client "10.0.0.1" 1,
    .message client (.openFile "a" oRdwr (sampleClient client))]

/-- It writes one byte to file 1, and both sends are accepted. -/
def sampleWrite (client : ℕ) : ServerEvent :=
  .message client (.writeFile 1 [7] 1 (sampleClient client) [⟨true, []⟩, ⟨true, []⟩])

/-- Four Espressos connect, the nodes 1 to 4. -/
def fourEspressos : List ServerEvent :=
  espressoConnects 11 1 ++ espressoConnects 12 2 ++ espressoConnects 13 3 ++ espressoConnects 14 4

end BaristaServer

end DecaFS
