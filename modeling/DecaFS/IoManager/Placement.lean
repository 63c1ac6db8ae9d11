import DecaFS.IoManager.Writing

/-!
# Where the copies of a chunk are

`Located` says that the chunk maps tell the truth about a span: both of its packets were sent, to
the two different nodes that the maps name. The map of the replicas is not updated when the replica
is sent to another node at the second try, so this depends on the sends (`Placing`).
-/

namespace DecaFS

open Code Barista Search

/-- The two copies of the span were sent to the nodes that the maps name, which differ. -/
structure Located (R : Runtime) (q : WriteRequest) (fileId : ℕ) (m : ChunkMaps)
    (sent : List (ℤ × ChunkRequest)) (s : Span) (data : List UInt8) : Prop where
  primary : (nodeOf R m.chunkToNode (s.chunk fileId), writePacket q.requestId fileId s data) ∈ sent
  replica : (nodeOf R m.chunkToReplicaNode (s.chunk fileId),
    writePacket q.replicaRequestId fileId s data) ∈ sent
  apart : nodeOf R m.chunkToNode (s.chunk fileId) ≠ nodeOf R m.chunkToReplicaNode (s.chunk fileId)

/-- The nodes of a chunk differ, and its replica is accepted by the node that the map has for it: at
the first try or, where `put_replica` chooses the same node again, at the second. The flags say
which sends are accepted, from the nodes `v` and the maps `m` on. -/
def Placing (R : Runtime) (fileId : ℕ) : List Bool → List Span → VolatileMetadata → ChunkMaps → Prop
  | false :: flags, s :: l, v, m =>
    Placing R fileId flags (s :: l)
      (v.down (nodeOf R (placed R v (s.chunk fileId) m).chunkToNode (s.chunk fileId)))
      (placed R v (s.chunk fileId) m)
  | true :: true :: flags, s :: l, v, m =>
    (0 < s.length → nodeOf R (placed R v (s.chunk fileId) m).chunkToNode (s.chunk fileId) ≠
      nodeOf R (placed R v (s.chunk fileId) m).chunkToReplicaNode (s.chunk fileId)) ∧
      Placing R fileId flags l v (placed R v (s.chunk fileId) m)
  | true :: false :: again :: flags, s :: l, v, m =>
    let node := nodeOf R (placed R v (s.chunk fileId) m).chunkToReplicaNode (s.chunk fileId)
    (0 < s.length → nodeOf R (placed R v (s.chunk fileId) m).chunkToNode (s.chunk fileId) ≠ node ∧
      again = true ∧ putReplica (v.down node) s.chunkNum = node) ∧
      Placing R fileId flags l (v.down node) (placed R v (s.chunk fileId) m)
  | _, _, _, _ => True

section

variable {R : Runtime} {q : WriteRequest} {fileId : ℕ} {v v' v₁ : VolatileMetadata} {m m' : ChunkMaps}
  {l : List (Span × List UInt8)} {used : List SendOutcome} {sent sent' : List (ℤ × ChunkRequest)}
  {K : Set FileChunk} {k : FileChunk}

theorem place_congr (h : v₁.upNodes = v.upNodes) (odd even : ℤ) (c : ℕ) :
    place v₁ odd even c = place v odd even c := by
  have hup : v₁.isNodeUp = v.isNodeUp := by
    funext node
    rw [VolatileMetadata.isNodeUp, VolatileMetadata.isNodeUp, h]
  rw [place, place, hup]

theorem placed_congr (h : v₁.upNodes = v.upNodes) (k : FileChunk) (m : ChunkMaps) :
    placed R v₁ k m = placed R v k m := by
  rw [placed, placed, putChunk, putReplica, place_congr h, place_congr h]
  rfl

theorem upNodes_down (h : v₁.upNodes = v.upNodes) (node : ℤ) :
    (v₁.down node).upNodes = (v.down node).upNodes := by
  rw [VolatileMetadata.down, VolatileMetadata.down, h]

/-- Nothing but the nodes that are up matters. -/
theorem placing_congr {flags : List Bool} {l : List Span} (h : v₁.upNodes = v.upNodes) :
    Placing R fileId flags l v₁ m ↔ Placing R fileId flags l v m := by
  induction flags, l, v, m using Placing.induct R fileId generalizing v₁ with
  | case1 flags s l v m ih =>
    rw [Placing, Placing, placed_congr h]
    exact ih (upNodes_down h _)
  | case2 flags s l v m ih =>
    rw [Placing, Placing, placed_congr h, ih h]
  | case3 again flags s l v m _ =>
    rename_i ih
    have hput : ∀ node, putReplica (v₁.down node) s.chunkNum = putReplica (v.down node) s.chunkNum :=
      fun node => place_congr (upNodes_down h node) _ _ _
    have hrest := ih (upNodes_down h _)
    rw [Placing, Placing, placed_congr h]
    simp only [hput]
    exact and_congr_right fun _ => hrest
  | case4 => simp only [Placing]

/-! ### The maps while chunks are written -/

theorem chunkExists_eq_false_iff {map : List (FileChunk × ℤ)} :
    ¬ chunkExists R map k = true ↔ R.search.valueOf map k = none := by
  simp [chunkExists, valueOf]

theorem chunkToNode_placed : (placed R v k m).chunkToNode =
    if chunkExists R m.chunkToNode k then m.chunkToNode
    else R.search.set k (putChunk v k.chunkNum) m.chunkToNode := by
  unfold placed
  by_cases hp : chunkExists R m.chunkToNode k = true
  · simp only [hp, if_true]
    split_ifs <;> rfl
  · simp only [hp]
    split_ifs <;> rfl

theorem chunkToReplicaNode_placed : (placed R v k m).chunkToReplicaNode =
    if chunkExists R m.chunkToReplicaNode k then m.chunkToReplicaNode
    else R.search.set k (putReplica v k.chunkNum) m.chunkToReplicaNode := by
  unfold placed
  by_cases hp : chunkExists R m.chunkToNode k = true
  · simp only [hp, if_true]
    split_ifs <;> rfl
  · simp only [hp]
    split_ifs <;> rfl

/-- Setting a chunk where it is missing. -/
theorem grows_ite (hk : k ∈ K) (map : List (FileChunk × ℤ)) (node : ℤ) : R.search.Grows K map
    (if chunkExists R map k then map else R.search.set k node map) := by
  split_ifs with h
  · exact .refl
  · exact .set .refl hk (chunkExists_eq_false_iff.mp h) node

/-- The maps grow while chunks are placed. -/
structure MapsGrow (R : Runtime) (K : Set FileChunk) (m m' : ChunkMaps) : Prop where
  primary : R.search.Grows K m.chunkToNode m'.chunkToNode
  replica : R.search.Grows K m.chunkToReplicaNode m'.chunkToReplicaNode

theorem mapsGrow_placed (hk : k ∈ K) : MapsGrow R K m (placed R v k m) where
  primary := chunkToNode_placed ▸ grows_ite hk _ _
  replica := chunkToReplicaNode_placed ▸ grows_ite hk _ _

theorem WriteRounds.mapsGrow (h : WriteRounds R q fileId l v m used sent v' m')
    (hK : ∀ e ∈ l, e.1.chunk fileId ∈ K) : MapsGrow R K m m' := by
  induction h with
  | done => exact ⟨.refl, .refl⟩
  | pass _ _ ih => exact ih hK
  | @retry s data l v _ m _ _ _ _ _ _ ih =>
    have hplaced := mapsGrow_placed (R := R) (v := v) (m := m) (hK _ List.mem_cons_self)
    exact ⟨hplaced.primary.trans (ih hK).primary, hplaced.replica.trans (ih hK).replica⟩
  | @sent s data l v _ _ m _ _ _ _ _ _ _ _ _ ih =>
    have hplaced := mapsGrow_placed (R := R) (v := v) (m := m) (hK _ List.mem_cons_self)
    have hrest := ih fun e he => hK e (List.mem_cons_of_mem _ he)
    exact ⟨hplaced.primary.trans hrest.primary, hplaced.replica.trans hrest.replica⟩

/-- The maps work as maps for the chunks of `K`. -/
structure MapsReadBack (R : Runtime) (K : Set FileChunk) (m : ChunkMaps) : Prop where
  primary : R.search.ReadsBack K m.chunkToNode
  replica : R.search.ReadsBack K m.chunkToReplicaNode

theorem MapsReadBack.of_grows (h : MapsReadBack R K m) (hm : MapsGrow R K m m') :
    MapsReadBack R K m' :=
  ⟨h.primary.of_grows hm.primary, h.replica.of_grows hm.replica⟩

/-- A chunk that has its nodes keeps them. -/
theorem MapsReadBack.nodeOf_eq (h : MapsReadBack R K m) (hk : k ∈ K)
    (hm : MapsGrow R K (placed R v k m) m') :
    nodeOf R m'.chunkToNode k = nodeOf R (placed R v k m).chunkToNode k ∧
      nodeOf R m'.chunkToReplicaNode k = nodeOf R (placed R v k m).chunkToReplicaNode k := by
  -- what is found in a map in which the chunk was set where it was missing
  have hkept : ∀ (map map' : List (FileChunk × ℤ)) (node : ℤ), R.search.ReadsBack K map →
      R.search.Grows K (if chunkExists R map k then map else R.search.set k node map) map' →
        nodeOf R map' k =
          nodeOf R (if chunkExists R map k then map else R.search.set k node map) k := by
    intro map map' node hmap hgrows
    obtain ⟨node', hnode'⟩ : ∃ node', R.search.valueOf
        (if chunkExists R map k then map else R.search.set k node map) k = some node' := by
      split_ifs with hexists
      · obtain ⟨e, he⟩ := Option.isSome_iff_exists.mp hexists
        exact ⟨e.2, by simp [valueOf, he]⟩
      · exact ⟨node, (hmap map k node .refl hk (chunkExists_eq_false_iff.mp hexists)).1⟩
    have hvalue := (hmap.of_grows (grows_ite hk map node)).valueOf_eq hgrows hk hnode'
    unfold valueOf at hvalue hnode'
    rw [nodeOf, nodeOf, hvalue, hnode']
  refine ⟨?_, ?_⟩
  · rw [chunkToNode_placed]
    exact hkept _ _ _ h.primary (chunkToNode_placed ▸ hm.primary)
  · rw [chunkToReplicaNode_placed]
    exact hkept _ _ _ h.replica (chunkToReplicaNode_placed ▸ hm.replica)

/-! ### Which packets are sent where -/

theorem ReplicaSent.chunk_eq {node : ℤ} {c : ℕ} {r : ChunkRequest}
    (h : ReplicaSent node c r v used sent v') : ∀ x ∈ sent, x.2 = r := by
  intro x hx
  cases h with
  | first _ =>
    obtain rfl := List.mem_singleton.mp hx
    rfl
  | second _ =>
    split_ifs at hx
    · obtain rfl := List.mem_singleton.mp hx
      rfl
    · simp at hx

/-- The packets are about the chunks of the spans. -/
theorem WriteRounds.chunk_mem (h : WriteRounds R q fileId l v m used sent v' m') :
    ∀ x ∈ sent, ∃ e ∈ l, x.2.chunk = e.1.chunk fileId := by
  induction h with
  | done => simp
  | pass _ _ ih => exact ih
  | retry _ _ ih => exact ih
  | @sent s data _ _ _ _ _ _ _ _ _ sent sent' _ hreplica _ ih =>
    intro x hx
    have hor : x.2.chunk = s.chunk fileId ∨ x ∈ sent' := by
      rcases List.mem_cons.mp hx with rfl | hx
      · exact .inl rfl
      · exact (List.mem_append.mp hx).imp_left fun hx => by rw [hreplica.chunk_eq x hx]; rfl
    rcases hor with heq | hx
    · exact ⟨_, List.mem_cons_self, heq⟩
    · obtain ⟨e, he, heq⟩ := ih x hx
      exact ⟨e, List.mem_cons_of_mem _ he, heq⟩

/-- Only the packets about its chunk matter for a span. -/
theorem located_congr {s : Span} {data : List UInt8}
    (h : ∀ x : ℤ × ChunkRequest, x.2.chunk = s.chunk fileId → (x ∈ sent ↔ x ∈ sent')) :
    Located R q fileId m sent s data ↔ Located R q fileId m sent' s data :=
  ⟨fun hl => ⟨(h _ rfl).mp hl.primary, (h _ rfl).mp hl.replica, hl.apart⟩,
    fun hl => ⟨(h _ rfl).mpr hl.primary, (h _ rfl).mpr hl.replica, hl.apart⟩⟩

/-- **When the maps tell the truth**, after the sends for the spans. -/
theorem WriteRounds.located_iff (h : WriteRounds R q fileId l v m used sent v' m')
    (hne : q.requestId ≠ q.replicaRequestId)
    (hapart : l.Pairwise fun e e' => e.1.chunk fileId ≠ e'.1.chunk fileId)
    (hK : ∀ e ∈ l, e.1.chunk fileId ∈ K) (hm : MapsReadBack R K m) (flags : List Bool) :
    (∀ e ∈ l, 0 < e.1.length → Located R q fileId m' sent e.1 e.2) ↔
      Placing R fileId (used.map (·.accepted) ++ flags) (l.map Prod.fst) v m := by
  induction h with
  | done => simp [Placing]
  | pass hup _ ih => rw [← placing_congr hup, ih hapart hK hm]
  | @retry s data l v v' m m' o used sent hfailed _ ih =>
    have hplaced := mapsGrow_placed (R := R) (v := v) (m := m) (hK _ List.mem_cons_self)
    rw [ih hapart hK (hm.of_grows hplaced), List.map_cons, List.map_cons, List.cons_append, hfailed,
      Placing]
  | @sent s data l v v₁ v' m m' o used used' sent sent' haccepted hreplica hrest ih =>
    let p := nodeOf R (placed R v (s.chunk fileId) m).chunkToNode (s.chunk fileId)
    let r := nodeOf R (placed R v (s.chunk fileId) m).chunkToReplicaNode (s.chunk fileId)
    let packets := (p, writePacket q.requestId fileId s data) :: (sent ++ sent')
    obtain ⟨hother, hapart'⟩ := List.pairwise_cons.mp hapart
    have hkmem := hK _ List.mem_cons_self
    have hK' : ∀ e ∈ l, e.1.chunk fileId ∈ K := fun e he => hK e (List.mem_cons_of_mem _ he)
    have hih := ih hapart' hK' (hm.of_grows (mapsGrow_placed hkmem))
    obtain ⟨hp, hr⟩ := hm.nodeOf_eq hkmem (hrest.mapsGrow hK')
    have hlater : ∀ x ∈ sent', x.2.chunk ≠ s.chunk fileId := by
      intro x hx heq
      obtain ⟨e, he, hchunk⟩ := hrest.chunk_mem x hx
      exact hother e he (heq.symm.trans hchunk)
    -- what the first sends say about the other spans, and the later ones about this one: nothing
    have htail : ∀ e ∈ l, Located R q fileId m' packets e.1 e.2 ↔
        Located R q fileId m' sent' e.1 e.2 := by
      intro e he
      refine located_congr fun x hx => ⟨fun hmem => ?_, fun hmem => ?_⟩
      · have hne' : x.2.chunk ≠ s.chunk fileId := fun heq => hother e he (heq.symm.trans hx)
        rcases List.mem_cons.mp hmem with rfl | hmem
        · exact absurd rfl hne'
        · refine (List.mem_append.mp hmem).resolve_left fun hmem => hne' ?_
          rw [hreplica.chunk_eq x hmem]
          rfl
      · exact List.mem_cons_of_mem _ (List.mem_append_right _ hmem)
    have hhead : Located R q fileId m' packets s data ↔
        p ≠ r ∧ (r, writePacket q.replicaRequestId fileId s data) ∈ sent := by
      have hids : (r, writePacket q.replicaRequestId fileId s data) ≠
          (p, writePacket q.requestId fileId s data) := by
        intro heq
        exact hne (congrArg (fun x => x.2.id) heq).symm
      constructor
      · rintro ⟨-, hmem, hpr⟩
        rw [hp, hr] at hpr
        rw [hr] at hmem
        have hmem' := (List.mem_cons.mp hmem).resolve_left hids
        exact ⟨hpr, (List.mem_append.mp hmem').resolve_right fun hmem => hlater _ hmem rfl⟩
      · rintro ⟨hpr, hmem⟩
        refine ⟨?_, ?_, ?_⟩
        · rw [hp]
          exact List.mem_cons_self
        · rw [hr]
          exact List.mem_cons_of_mem _ (List.mem_append_left _ hmem)
        · rw [hp, hr]
          exact hpr
    rw [List.forall_mem_cons, hhead]
    have hrest' : (∀ e ∈ l, 0 < e.1.length → Located R q fileId m' packets e.1 e.2) ↔ _ :=
      (forall₂_congr fun e he => imp_congr_right fun _ => htail e he).trans hih
    rw [hrest']
    cases hreplica with
    | first hfirst =>
      simp only [List.map_cons, List.cons_append, List.nil_append, haccepted, hfirst, Placing,
        List.mem_singleton]
      exact and_congr_left fun _ => imp_congr_right fun _ => and_iff_left rfl
    | @second o₁ o₂ hfailed =>
      simp only [List.map_cons, List.cons_append, List.nil_append, haccepted, hfailed, Placing]
      refine and_congr_left fun _ => imp_congr_right fun _ => and_congr_right fun _ => ?_
      cases o₂.accepted with
      | true => simp [r, eq_comm]
      | false => simp

end

end DecaFS
