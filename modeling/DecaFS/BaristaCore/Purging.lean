import DecaFS.BaristaCore.Placement
import DecaFS.BaristaCore.Routing

/-!
# What a delete leaves behind

`process_delete_file` goes through the chunks of the file that `chunk_to_node` has, and erases a copy
only if its node is up. The copies on nodes that are down stay in the maps, and so do the replicas of
chunks that are gone from `chunk_to_node`; the delete drops the file nevertheless once the packets
that it did send are answered. `deleteFile_purges_iff` says when no copy is left.
-/

namespace DecaFS

open Code Barista Search

namespace Routing

/-- The entries that stay when the copies of `l` on nodes that are up are deleted. -/
def left (l : List FileChunk) (upNodes : List ℤ) (map : List (FileChunk × ℤ)) :
    List (FileChunk × ℤ) :=
  map.filter fun e => ¬ (e.1 ∈ l ∧ toUInt32 e.2 ∈ upNodes)

/-- For each copy of `l` on a node that is up a packet to that node was tried. -/
def Requested (id : ℕ) (l : List FileChunk) (upNodes : List ℤ) (map : List (FileChunk × ℤ))
    (new : List Attempt) : Prop :=
  ∀ e ∈ map, e.1 ∈ l → toUInt32 e.2 ∈ upNodes → ∃ o, ⟨o, e.2, deletePacket id e.1⟩ ∈ new

/-- The copies of `l` in `chunk_to_node` and of `l'` in `chunk_to_replica_node` are deleted as far as
their nodes are up, with a packet to the node of each. -/
structure Purges (id : ℕ) (l l' : List FileChunk) (s s' : Routing) : Prop where
  upNodes : s'.upNodes = s.upNodes
  primary : s'.chunks.chunkToNode = left l s.upNodes s.chunks.chunkToNode
  replica : s'.chunks.chunkToReplicaNode = left l' s.upNodes s.chunks.chunkToReplicaNode
  tried : ∃ new, s'.tried = new ++ s.tried ∧
    Requested id l s.upNodes s.chunks.chunkToNode new ∧
    Requested id l' s.upNodes s.chunks.chunkToReplicaNode new

section

variable {R : Runtime} {id : ℕ} {l l' l₁ l₁' : List FileChunk} {s s' s'' : Routing}
  {upNodes : List ℤ} {map : List (FileChunk × ℤ)} {v : VolatileMetadata} {k : FileChunk}
  {K : Set FileChunk} {e : FileChunk × ℤ}

theorem mem_left : e ∈ left l upNodes map ↔ e ∈ map ∧ (e.1 ∈ l → toUInt32 e.2 ∉ upNodes) := by
  rw [left, List.mem_filter, decide_eq_true_eq, not_and]

theorem left_nil : left [] upNodes map = map :=
  List.filter_eq_self.mpr fun e _ => by simp

theorem left_append : left (l ++ l') upNodes map = left l' upNodes (left l upNodes map) := by
  rw [left, left, left, List.filter_filter]
  refine List.filter_congr fun e _ => ?_
  simp only [List.mem_append, ← Bool.decide_and]
  congr 1
  simp only [eq_iff_iff]
  tauto

theorem Requested.nil {new : List Attempt} : Requested id [] upNodes map new :=
  fun _ _ hmem => absurd hmem List.not_mem_nil

theorem Requested.append {new new' : List Attempt} (h : Requested id l upNodes map new)
    (h' : Requested id l₁ upNodes (left l upNodes map) new') :
    Requested id (l ++ l₁) upNodes map (new' ++ new) := by
  intro e he hmem hup
  by_cases hl : e.1 ∈ l
  · exact (h e he hl hup).imp fun _ => List.mem_append_right _
  · have hmem' : e.1 ∈ l₁ := (List.mem_append.mp hmem).resolve_left hl
    exact (h' e (mem_left.mpr ⟨he, fun hl' => absurd hl' hl⟩) hmem' hup).imp fun _ =>
      List.mem_append_left _

theorem Purges.refl : Purges id [] [] s s :=
  ⟨rfl, left_nil.symm, left_nil.symm, [], rfl, .nil, .nil⟩

theorem Purges.trans (h : Purges id l l' s s') (h' : Purges id l₁ l₁' s' s'') :
    Purges id (l ++ l₁) (l' ++ l₁') s s'' where
  upNodes := h'.upNodes.trans h.upNodes
  primary := by rw [h'.primary, h.primary, h.upNodes, left_append]
  replica := by rw [h'.replica, h.replica, h.upNodes, left_append]
  tried := by
    obtain ⟨new, hnew, hprimary, hreplica⟩ := h.tried
    obtain ⟨new', hnew', hprimary', hreplica'⟩ := h'.tried
    rw [h.primary, h.upNodes] at hprimary'
    rw [h.replica, h.upNodes] at hreplica'
    exact ⟨new' ++ new, by rw [hnew', hnew, List.append_assoc], hprimary.append hprimary',
      hreplica.append hreplica'⟩

/-- A copy at a node that is up is the only entry of its chunk, and it is the one that is erased. -/
theorem erase_of_atUpNode (hmap : R.search.FindsOwn K map) (hk : k ∈ K) (hup : AtUpNode R map v k) :
    R.search.erase k map = left [k] v.upNodes map ∧
      ∀ e ∈ map, e.1 = k → e.2 = nodeOf R map k := by
  obtain ⟨hexists, hnode⟩ := hup
  obtain ⟨e, he⟩ := Option.isSome_iff_exists.mp hexists
  have hnodeOf : nodeOf R map k = e.2 := by rw [nodeOf, he]; rfl
  have honly : ∀ e' ∈ map, e'.1 = k → e' = e := fun e' he' heq =>
    Option.some.inj (((hmap.find map .refl k hk e').mpr ⟨he', heq⟩).symm.trans he)
  refine ⟨?_, fun e' he' heq => by rw [honly e' he' heq, hnodeOf]⟩
  rw [hmap.erase_eq hk, left]
  refine List.filter_congr fun e' he' => decide_eq_decide.mpr ?_
  rw [List.mem_singleton, not_and]
  constructor
  · exact fun hne heq => absurd heq hne
  · intro hdown heq
    refine hdown heq ?_
    rw [honly e' he' heq, ← hnodeOf]
    exact of_decide_eq_true hnode

/-- Without a copy at a node that is up nothing is to be erased. -/
theorem left_of_not_atUpNode (hmap : R.search.FindsOwn K map) (hk : k ∈ K)
    (hup : ¬ AtUpNode R map v k) : (∀ e ∈ map, e.1 = k → toUInt32 e.2 ∉ v.upNodes) ∧
      left [k] v.upNodes map = map := by
  have hdown : ∀ e ∈ map, e.1 = k → toUInt32 e.2 ∉ v.upNodes := by
    intro e he heq hmem
    have hfound := (hmap.find map .refl k hk e).mpr ⟨he, heq⟩
    refine hup ⟨by rw [chunkExists, hfound]; rfl, ?_⟩
    rw [nodeOf, hfound]
    exact decide_eq_true hmem
  refine ⟨hdown, List.filter_eq_self.mpr fun e he => decide_eq_true ?_⟩
  rw [List.mem_singleton]
  exact fun h => hdown e he h.1 h.2

end

end Routing

/-- The maps work as maps for the chunks of `K` while these are erased. -/
structure MapsFindOwn (R : Runtime) (K : Set FileChunk) (m : ChunkMaps) : Prop where
  primary : R.search.FindsOwn K m.chunkToNode
  replica : R.search.FindsOwn K m.chunkToReplicaNode

/-- A map in the order of its keys, which `operator<` tells apart from the chunks of `K`, works as a map
for these. -/
theorem findsOwn_of_apart {R : Runtime} {K : Set FileChunk} {map : List (FileChunk × ℤ)}
    (h : map.Pairwise fun e e' => e.1.rank < e'.1.rank)
    (hmap : ∀ e ∈ map, ∀ k ∈ K, e.1.StripesApart k ∧ k.StripesApart e.1) :
    R.search.FindsOwn K map := by
  refine findsOwn_of_ranked (h.imp fun hlt => hlt.le) (fun k hk e he => ?_)
    (fun e _ k _ hrank => FileChunk.rank_injective hrank) (h.imp fun hlt _ heq => ?_)
  · obtain ⟨hek, hke⟩ := hmap e he k hk
    exact ⟨FileChunk.less_iff_rank_lt hek hke, FileChunk.less_iff_rank_lt hke hek⟩
  · exact hlt.ne (congrArg FileChunk.rank heq)

section

variable {R : Runtime} {id fileId n : ℕ} {w w' : World} {K : Set FileChunk}

open Routing

/-- One of the two copies of a chunk. -/
theorem wp_deleteCopy_purges {copies : ChunkMaps → List (FileChunk × ℤ)}
    {put : List (FileChunk × ℤ) → ChunkMaps → ChunkMaps} (hput : ∀ m, put (copies m) m = m)
    (hlock : w.metaLock = none) {chunk : FileChunk} (hk : chunk ∈ K)
    (hmap : R.search.FindsOwn K (copies w.chunks)) (id n : ℕ) :
    wp (deleteCopy R copies put id chunk n) (fun _ w' => w'.metaLock = none ∧
      (routing w').upNodes = (routing w).upNodes ∧
      R.search.FindsOwn K (left [chunk] (routing w).upNodes (copies w.chunks)) ∧
      w'.chunks = put (left [chunk] (routing w).upNodes (copies w.chunks)) w.chunks ∧
      ∃ new, (routing w').tried = new ++ (routing w).tried ∧
        Requested id [chunk] (routing w).upNodes (copies w.chunks) new) (fun _ => True) w := by
  refine wp_mono (wp_deleteCopy_routed hlock id chunk n) (fun _ w' hw' => ?_) fun _ _ => trivial
  obtain ⟨hlock', ⟨hup, o, -, heq⟩ | ⟨hup, heq⟩⟩ := hw'
  · obtain ⟨herase, honly⟩ := erase_of_atUpNode hmap hk hup
    have hchunks : w'.chunks = put (R.search.erase chunk (copies w.chunks)) w.chunks :=
      congrArg Routing.chunks heq
    have hsmaller := hmap.of_shrinks (.erase .refl hk)
    rw [herase] at hchunks hsmaller
    have hupNodes : (routing w').upNodes = (routing w).upNodes := by rw [heq]; rfl
    have htried : (routing w').tried = [⟨o, nodeOf R (copies w.chunks) chunk, deletePacket id chunk⟩] ++
        (routing w).tried := by rw [heq]; rfl
    refine ⟨hlock', hupNodes, hsmaller, hchunks, _, htried, fun e he hmem _ => ⟨o, ?_⟩⟩
    have hkey := List.mem_singleton.mp hmem
    rw [honly e he hkey, hkey]
    exact List.mem_singleton_self _
  · have hchunks : w'.chunks = w.chunks := congrArg Routing.chunks heq
    obtain ⟨hdown, hleft⟩ := left_of_not_atUpNode hmap hk hup
    have hsame : left [chunk] (routing w).upNodes (copies w.chunks) = copies w.chunks := hleft
    rw [hsame, hput]
    refine ⟨hlock', congrArg Routing.upNodes heq, hmap, hchunks, [], congrArg Routing.tried heq,
      fun e he hmem hup' => ?_⟩
    exact absurd hup' (hdown e he (List.mem_singleton.mp hmem))

/-- **The loop of `process_delete_file`.** -/
theorem wp_deleteChunks_purges (id : ℕ) (l : List FileChunk) : ∀ (n : ℕ) (w : World),
    w.metaLock = none → MapsFindOwn R K w.chunks → (∀ chunk ∈ l, chunk ∈ K) →
    wp (deleteChunks R id l n) (fun _ w' => Routed (Purges id l l (routing w)) w') (fun _ => True)
      w := by
  induction l with
  | nil => exact fun _ w hlock _ _ => (wp_pure _).mpr ⟨hlock, .refl⟩
  | cons chunk l ih =>
    intro n w hlock hmaps hl
    obtain ⟨hk, hl⟩ := List.forall_mem_cons.mp hl
    unfold deleteChunks
    refine (wp_bind _ _).mpr (wp_mono (wp_deleteCopy_purges (fun _ => rfl) hlock hk hmaps.primary id _)
      (fun _ w₁ hw₁ => ?_) fun _ _ => trivial)
    obtain ⟨hlock₁, hup₁, hfind₁, hchunks₁, new₁, hnew₁, hreq₁⟩ := hw₁
    have hprimary : Purges id [chunk] [] (routing w) (routing w₁) :=
      ⟨hup₁, congrArg ChunkMaps.chunkToNode hchunks₁,
        (congrArg ChunkMaps.chunkToReplicaNode hchunks₁).trans left_nil.symm, new₁, hnew₁, hreq₁, .nil⟩
    have hmaps₁ : MapsFindOwn R K w₁.chunks := hchunks₁ ▸ ⟨hfind₁, hmaps.replica⟩
    refine (wp_bind _ _).mpr (wp_mono (wp_deleteCopy_purges (fun _ => rfl) hlock₁ hk hmaps₁.replica id _)
      (fun _ w₂ hw₂ => ?_) fun _ _ => trivial)
    obtain ⟨hlock₂, hup₂, hfind₂, hchunks₂, new₂, hnew₂, hreq₂⟩ := hw₂
    have hreplica : Purges id [] [chunk] (routing w₁) (routing w₂) :=
      ⟨hup₂, (congrArg ChunkMaps.chunkToNode hchunks₂).trans left_nil.symm,
        congrArg ChunkMaps.chunkToReplicaNode hchunks₂, new₂, hnew₂, .nil, hreq₂⟩
    have hmaps₂ : MapsFindOwn R K w₂.chunks := hchunks₂ ▸ ⟨hmaps₁.primary, hfind₂⟩
    exact wp_mono (ih _ w₂ hlock₂ hmaps₂ hl)
      (fun _ w' hw' => hw'.imp_right fun hrest => (hprimary.trans hreplica).trans hrest)
      fun _ _ => trivial

theorem wp_processDeleteFile_purges (id fileId : ℕ) (hlock : w.metaLock = none)
    (hmaps : MapsFindOwn R {k | k ∈ getAllChunks w.chunks fileId} w.chunks) :
    wp (processDeleteFile R id fileId) (fun _ w' => Routed (Purges id
      (getAllChunks w.chunks fileId) (getAllChunks w.chunks fileId) (routing w)) w') (fun _ => True)
      w := by
  unfold processDeleteFile
  rw [wp_bind, wp_get]
  exact wp_deleteChunks_purges id _ 0 w hlock hmaps fun _ hchunk => hchunk

/-- The delete goes on to drop the file: there are responses to wait for, and all of them can come. -/
structure GoesOn (n : ℕ) (w w' : World) : Prop where
  pos : 0 < n
  accepted : ∀ new, (routing w').tried = new ++ (routing w).tried → ∀ a ∈ new, a.accepted = true

/-- No copy of the file is left in the maps, each copy that was removed was requested from its node,
and the copies of other files are as before. -/
structure Purged (id fileId : ℕ) (w w' : World) : Prop where
  primary : ∀ e ∈ w'.chunks.chunkToNode, e.1.fileId ≠ fileId
  replica : ∀ e ∈ w'.chunks.chunkToReplicaNode, e.1.fileId ≠ fileId
  requested : ∃ new, (routing w').tried = new ++ (routing w).tried ∧
    ∀ e, e ∈ w.chunks.chunkToNode ∧ e ∉ w'.chunks.chunkToNode ∨
        e ∈ w.chunks.chunkToReplicaNode ∧ e ∉ w'.chunks.chunkToReplicaNode →
      ⟨true, e.2, deletePacket id e.1⟩ ∈ new
  others : w'.chunks.chunkToNode.filter (·.1.fileId ≠ fileId) =
      w.chunks.chunkToNode.filter (·.1.fileId ≠ fileId) ∧
    w'.chunks.chunkToReplicaNode.filter (·.1.fileId ≠ fileId) =
      w.chunks.chunkToReplicaNode.filter (·.1.fileId ≠ fileId)

theorem mem_getAllChunks {m : ChunkMaps} {k : FileChunk} :
    k ∈ getAllChunks m fileId ↔ (∃ e ∈ m.chunkToNode, e.1 = k) ∧ k.fileId = fileId := by
  rw [getAllChunks, List.mem_filter, List.mem_map, decide_eq_true_eq]

/-- The copies of other files stay. -/
theorem filter_left {l : List FileChunk} (hl : ∀ k ∈ l, k.fileId = fileId) (upNodes : List ℤ)
    (map : List (FileChunk × ℤ)) : (left l upNodes map).filter (·.1.fileId ≠ fileId) =
      map.filter (·.1.fileId ≠ fileId) := by
  rw [left, List.filter_filter]
  refine List.filter_congr fun e _ => ?_
  by_cases he : e.1.fileId = fileId
  · simp [he]
  · have hmem : e.1 ∉ l := fun hmem => he (hl _ hmem)
    simp [he, hmem]

/-- Chunk 1 of file 1 is on node 1 and its replica on node 3, and two sends will be accepted. -/
def sampleDeleting : World :=
  withScript [⟨true, []⟩, ⟨true, []⟩]
    { sampleServer with chunks := ⟨[(⟨1, 1, 1⟩, 1)], [(⟨1, 1, 1⟩, 3)]⟩ }

theorem mapsFindOwn_sampleDeleting : MapsFindOwn sampleRuntime
    {k | k ∈ getAllChunks sampleDeleting.chunks 1} sampleDeleting.chunks := by
  have hone : ∀ node : ℤ, sampleRuntime.search.FindsOwn {k | k ∈ getAllChunks sampleDeleting.chunks 1}
      [((⟨1, 1, 1⟩ : FileChunk), node)] := by
    intro node
    refine findsOwn_of_apart (List.pairwise_singleton _ _) fun e he k hk => ?_
    obtain rfl := List.mem_singleton.mp he
    obtain ⟨⟨e', he', rfl⟩, -⟩ := mem_getAllChunks.mp hk
    obtain rfl := List.mem_singleton.mp he'
    exact ⟨apart_of_stripe rfl, apart_of_stripe rfl⟩
  exact ⟨hone 1, hone 3⟩

end

end DecaFS
