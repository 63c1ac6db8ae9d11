import DecaFS.Cluster.Contents
import DecaFS.Cluster.Serving

/-!
# The copies of a chunk

Both nodes of a chunk get the same writes to it, in the order in which they are sent (`CopiesOf`), and the
sends of a write keep this while the chunks are told apart and the sends succeed
(`CopiesOf.writeTries`). What packets of other chunks and reads come in between makes no difference.
-/

namespace DecaFS

open Code Barista Links Search

/-! ### Chunks that are the same -/

/-- Nothing tells the chunks that the writes make apart. -/
structure SameChunk (ws ws' : List ChunkWrite) : Prop where
  nil : ws = [] ↔ ws' = []
  size : chunkSize ws = chunkSize ws'
  bytes : ∀ i, lastByte ws i = lastByte ws' i

section

variable {ws ws' ws'' : List ChunkWrite} {w : ChunkWrite} {offset count : ℤ} {a : Answer}

theorem SameChunk.refl (ws : List ChunkWrite) : SameChunk ws ws := ⟨Iff.rfl, rfl, fun _ => rfl⟩

theorem SameChunk.trans (h : SameChunk ws ws') (h' : SameChunk ws' ws'') : SameChunk ws ws'' :=
  ⟨h.nil.trans h'.nil, h.size.trans h'.size, fun i => (h.bytes i).trans (h'.bytes i)⟩

theorem SameChunk.cons (h : SameChunk ws ws') (w : ChunkWrite) : SameChunk (w :: ws) (w :: ws') where
  nil := by simp
  size := by rw [chunkSize, chunkSize, h.size]
  bytes i := by rw [lastByte, lastByte, h.bytes]

/-- A write that is made twice. -/
theorem SameChunk.twice (w : ChunkWrite) (ws : List ChunkWrite) : SameChunk (w :: w :: ws) (w :: ws) where
  nil := by simp
  size := by
    rw [chunkSize]
    exact max_eq_right (le_max_left _ _)
  bytes i := by
    rw [lastByte]
    split_ifs with hin
    · rw [lastByte, if_pos hin]
    · rfl

theorem SameChunk.readAnswer (h : SameChunk ws ws') (ha : ReadAnswer ws offset count a) :
    ReadAnswer ws' offset count a := by
  unfold ReadAnswer at ha ⊢
  rw [← h.size]
  simp only [← h.nil, ← h.bytes]
  exact ha

end

/-! ### What packets make of a chunk -/

/-- The writes to the chunk `d` after one more packet, if it does not fail. -/
def recordSent (d : DataDescriptor) (ws : List ChunkWrite) (r : ChunkRequest) : List ChunkWrite :=
  recordPacket d ws (r, (0, []))

/-- The writes that make the chunk `d` after the packets, if none of them fails. -/
def chunkSent (d : DataDescriptor) (rs : List ChunkRequest) : List ChunkWrite :=
  rs.foldl (recordSent d) []

section

variable {d : DataDescriptor} {rs rs' : List ChunkRequest} {served : List (ChunkRequest × Answer)}

theorem chunkSent_append : chunkSent d (rs ++ rs') = rs'.foldl (recordSent d) (chunkSent d rs) :=
  List.foldl_append

theorem recordSent_of_write {r : ChunkRequest} {ws : List ChunkWrite} (hflag : r.flag = .writeChunk)
    (hd : r.descriptor = d) : recordSent d ws r = ⟨r.offset, r.data⟩ :: ws := by
  simp [recordSent, recordPacket, hflag, hd]

/-- Where no write failed the answers do not matter. -/
theorem chunkAfter_eq_chunkSent (h : ∀ p ∈ served, p.1.flag = .writeChunk → p.2.1 ≠ -1) :
    chunkAfter d served = chunkSent d (served.map Prod.fst) := by
  unfold chunkAfter chunkSent
  rw [List.foldl_map]
  refine List.foldl_ext _ _ _ fun ws p hp => ?_
  unfold recordSent recordPacket
  cases hflag : p.1.flag with
  | writeChunk => simp [h p hp hflag]
  | readChunk => rfl
  | deleteChunk => rfl

/-- Packets that do not touch the chunk. -/
theorem chunkSent_append_of_forall (h : ∀ r ∈ rs', r.flag = .readChunk ∨ r.descriptor ≠ d) :
    chunkSent d (rs ++ rs') = chunkSent d rs := by
  rw [chunkSent_append]
  generalize chunkSent d rs = ws
  induction rs' with
  | nil => rfl
  | cons r rs' ih =>
    obtain ⟨hr, hrest⟩ := List.forall_mem_cons.mp h
    have hsame : recordSent d ws r = ws := by
      unfold recordSent recordPacket
      cases hflag : r.flag with
      | readChunk => rfl
      | writeChunk =>
        have hd : r.descriptor ≠ d := hr.resolve_left (by simp [hflag])
        simp [hd]
      | deleteChunk =>
        have hd : r.descriptor ≠ d := hr.resolve_left (by simp [hflag])
        simp [hd]
    rw [List.foldl_cons, hsame]
    exact ih hrest

end

/-- No write that a node answered failed. -/
def WritesSucceed (w : World) : Prop :=
  ∀ r count data, .answered r count data ∈ w.network.log → r.flag = .writeChunk → count ≠ -1

section

variable {takes : List (ℤ × ChunkRequest × Answer)} {w : World}

/-- What was taken from the nodes is what the server has heard. -/
theorem mem_takes_iff (h : takes.map Prod.snd = (w.network.log.filterMap Event.heard).reverse)
    (p : ChunkRequest × Answer) :
    p ∈ takes.map Prod.snd ↔ .answered p.1 p.2.1 p.2.2 ∈ w.network.log := by
  rw [h, List.mem_reverse, List.mem_filterMap]
  constructor
  · rintro ⟨event, hevent, heq⟩
    cases event with
    | answered r n data => exact Option.some.inj heq ▸ hevent
    | _ => exact absurd heq (by simp [Event.heard])
  · exact fun h => ⟨_, h, rfl⟩

theorem WritesSucceed.of_taken {node : ℤ} (hwrites : WritesSucceed w)
    (h : takes.map Prod.snd = (w.network.log.filterMap Event.heard).reverse) :
    ∀ p ∈ about node takes, p.1.flag = .writeChunk → p.2.1 ≠ -1 := by
  intro p hp hflag
  obtain ⟨e, he, rfl⟩ := List.mem_map.mp hp
  have hmem : e.2 ∈ takes.map Prod.snd := List.mem_map_of_mem (List.mem_of_mem_filter he)
  exact hwrites _ _ _ ((mem_takes_iff h e.2).mp hmem) hflag

end

/-! ### Chunks that are told apart -/

/-- The descriptor of the chunk that the nodes get. -/
def FileChunk.descriptor (k : FileChunk) : DataDescriptor :=
  ⟨toInt32 k.fileId, toInt32 k.stripeId, toInt32 k.chunkNum⟩

/-- Chunks with the ids of a `file_chunk` that `operator<` tells apart. -/
structure ToldApart (K : Set FileChunk) : Prop where
  apart : ∀ k ∈ K, ∀ k' ∈ K, k.StripesApart k'
  ids : ∀ k ∈ K, k.fileId < 4294967296 ∧ k.stripeId < 4294967296 ∧ k.chunkNum < 4294967296

theorem toInt32_injOn {m n : ℕ} (hm : m < 4294967296) (hn : n < 4294967296)
    (h : toInt32 (m : ℤ) = toInt32 (n : ℤ)) : m = n := by
  unfold toInt32 at h
  omega

/-- The maps have chunks of `K` in their order. -/
structure MapsInOrder (K : Set FileChunk) (m : ChunkMaps) : Prop where
  primary : OrderedIn FileChunk.rank K m.chunkToNode
  replica : OrderedIn FileChunk.rank K m.chunkToReplicaNode

section

variable {R : Runtime} {K : Set FileChunk} {k k' : FileChunk} {m : ChunkMaps} {v : VolatileMetadata}
  {f : ℕ}

theorem ToldApart.less_iff (hK : ToldApart K) :
    ∀ k ∈ K, ∀ k' ∈ K, k.less k' = true ↔ k.rank < k'.rank := fun k hk k' hk' =>
  FileChunk.less_iff_rank_lt (hK.apart k hk k' hk') (hK.apart k' hk' k hk)

theorem ToldApart.descriptor_ne (hK : ToldApart K) (hk : k ∈ K) (hk' : k' ∈ K) (hne : k ≠ k') :
    k.descriptor ≠ k'.descriptor := by
  obtain ⟨hf, hs, hc⟩ := hK.ids k hk
  obtain ⟨hf', hs', hc'⟩ := hK.ids k' hk'
  intro heq
  obtain ⟨h₁, h₂, h₃⟩ := DataDescriptor.mk.inj heq
  exact hne (FileChunk.ext (toInt32_injOn hf hf' h₁) (toInt32_injOn hs hs' h₂) (toInt32_injOn hc hc' h₃))

theorem MapsInOrder.readBack (hK : ToldApart K) (h : MapsInOrder K m) : MapsReadBack R K m where
  primary := h.primary.readsBack hK.less_iff FileChunk.rank_injective
  replica := h.replica.readsBack hK.less_iff FileChunk.rank_injective

theorem MapsInOrder.placed (hK : ToldApart K) (h : MapsInOrder K m) (hk : k ∈ K) :
    MapsInOrder K (placed R v k m) where
  primary := by
    rw [chunkToNode_placed]
    split_ifs
    · exact h.primary
    · exact h.primary.set hK.less_iff hk _
  replica := by
    rw [chunkToReplicaNode_placed]
    split_ifs
    · exact h.replica
    · exact h.replica.set hK.less_iff hk _

/-- What the maps have for a chunk once another one has its nodes. -/
theorem MapsInOrder.valueOf_placed (hK : ToldApart K) (h : MapsInOrder K m) (hk : k ∈ K) (hk' : k' ∈ K)
    (hne : k ≠ k') :
    R.search.valueOf (DecaFS.placed R v k' m).chunkToNode k = R.search.valueOf m.chunkToNode k ∧
      R.search.valueOf (DecaFS.placed R v k' m).chunkToReplicaNode k =
        R.search.valueOf m.chunkToReplicaNode k := by
  have hback := h.readBack (R := R) hK
  rw [chunkToNode_placed, chunkToReplicaNode_placed]
  refine ⟨?_, ?_⟩
  · split_ifs with hexists
    · rfl
    · exact (hback.primary _ _ _ .refl hk' (chunkExists_eq_false_iff.mp hexists)).2 k hk hne
  · split_ifs with hexists
    · rfl
    · exact (hback.replica _ _ _ .refl hk' (chunkExists_eq_false_iff.mp hexists)).2 k hk hne

theorem chunkExists_iff {map : List (FileChunk × ℤ)} :
    chunkExists R map k = true ↔ R.search.valueOf map k ≠ none := by
  rw [← not_iff_not, chunkExists_eq_false_iff, not_not]

theorem nodeOf_eq_valueOf {map : List (FileChunk × ℤ)} :
    nodeOf R map k = (R.search.valueOf map k).getD 0 := rfl

/-- Placed chunks are there. -/
theorem chunkExists_placed (hK : ToldApart K) (h : MapsInOrder K m) (hk : k ∈ K) :
    chunkExists R (DecaFS.placed R v k m).chunkToNode k = true ∧
      chunkExists R (DecaFS.placed R v k m).chunkToReplicaNode k = true := by
  have hback := h.readBack (R := R) hK
  rw [chunkToNode_placed, chunkToReplicaNode_placed]
  refine ⟨?_, ?_⟩
  · split_ifs with hexists
    · exact hexists
    · rw [chunkExists_iff, (hback.primary _ _ _ .refl hk (chunkExists_eq_false_iff.mp hexists)).1]
      simp
  · split_ifs with hexists
    · exact hexists
    · rw [chunkExists_iff, (hback.replica _ _ _ .refl hk (chunkExists_eq_false_iff.mp hexists)).1]
      simp

end

/-! ### The copies of a chunk -/

/-- The packets that were sent. -/
def Routing.posted (s : Routing) : List (ℤ × ChunkRequest) :=
  (s.tried.reverse.filter Attempt.accepted).map fun t => (t.node, t.request)

/-- The writes `ws` make the chunk `k`: it has nodes once it was written, and the packets sent to either of
them make it there. -/
structure CopiesOf (R : Runtime) (k : FileChunk) (ws : List ChunkWrite) (m : ChunkMaps)
    (sent : List (ℤ × ChunkRequest)) : Prop where
  primary : chunkExists R m.chunkToNode k = true ↔ ws ≠ []
  replica : chunkExists R m.chunkToReplicaNode k = true ↔ ws ≠ []
  held : ∀ node, ws = [] ∨ node = nodeOf R m.chunkToNode k ∨ node = nodeOf R m.chunkToReplicaNode k →
    SameChunk (chunkSent k.descriptor (about node sent)) ws

section

variable {R : Runtime} {K : Set FileChunk} {k k' : FileChunk} {m m' : ChunkMaps} {v : VolatileMetadata}
  {q : WriteRequest} {g : ℕ} {ws : List ChunkWrite} {sent sent' : List (ℤ × ChunkRequest)}
  {s : Span} {data : List UInt8} {a b : Routing} {l : List (Span × List UInt8)}

/-- The copies depend on what the maps have for the chunk, and on the packets that write or delete it. -/
theorem CopiesOf.congr (h : CopiesOf R k ws m sent)
    (hprimary : R.search.valueOf m'.chunkToNode k = R.search.valueOf m.chunkToNode k)
    (hreplica : R.search.valueOf m'.chunkToReplicaNode k = R.search.valueOf m.chunkToReplicaNode k)
    (hsent : ∀ e ∈ sent', e.2.flag = .readChunk ∨ e.2.chunk.descriptor ≠ k.descriptor) :
    CopiesOf R k ws m' (sent ++ sent') where
  primary := by
    rw [chunkExists_iff, hprimary, ← chunkExists_iff]
    exact h.primary
  replica := by
    rw [chunkExists_iff, hreplica, ← chunkExists_iff]
    exact h.replica
  held node hnode := by
    rw [nodeOf_eq_valueOf, nodeOf_eq_valueOf, hprimary, hreplica] at hnode
    rw [about_append, chunkSent_append_of_forall]
    · exact h.held node hnode
    · intro r hr
      obtain ⟨e, he, rfl⟩ := List.mem_map.mp hr
      exact hsent e (List.mem_of_mem_filter he)

/-- A chunk that is written to gets the write at both of its nodes. -/
theorem CopiesOf.write (hK : ToldApart K) (hm : MapsInOrder K m) (hk : k ∈ K)
    (h : CopiesOf R k ws m sent) (hchunk : s.chunk g = k) :
    CopiesOf R k (⟨s.offset, data⟩ :: ws) (placed R v k m) (sent ++
      [(nodeOf R (placed R v k m).chunkToNode k, writePacket q.requestId g s data),
        (nodeOf R (placed R v k m).chunkToReplicaNode k, writePacket q.replicaRequestId g s data)]) where
  primary := iff_of_true (chunkExists_placed hK hm hk).1 (List.cons_ne_nil _ _)
  replica := iff_of_true (chunkExists_placed hK hm hk).2 (List.cons_ne_nil _ _)
  held node hnode := by
    have hnode := hnode.resolve_left (List.cons_ne_nil _ _)
    -- the packets so far make the chunk at this node
    have hbefore : SameChunk (chunkSent k.descriptor (about node sent)) ws := by
      refine h.held node ?_
      by_cases hws : ws = []
      · exact .inl hws
      · have hp : chunkExists R m.chunkToNode k = true := h.primary.mpr hws
        have hr : chunkExists R m.chunkToReplicaNode k = true := h.replica.mpr hws
        rw [chunkToNode_placed, chunkToReplicaNode_placed, if_pos hp, if_pos hr] at hnode
        exact .inr hnode
    have hrecord : ∀ ws' id, recordSent k.descriptor ws' (writePacket id g s data) =
        ⟨s.offset, data⟩ :: ws' := fun ws' id => recordSent_of_write rfl (hchunk ▸ rfl)
    rw [about_append, chunkSent_append]
    generalize hprimary : nodeOf R (placed R v k m).chunkToNode k = node₁ at hnode ⊢
    generalize hreplica : nodeOf R (placed R v k m).chunkToReplicaNode k = node₂ at hnode ⊢
    by_cases h₁ : node₁ = node
    · by_cases h₂ : node₂ = node
      · simp only [about_cons, h₁, h₂, if_true, about_nil, List.append_nil, List.singleton_append,
          List.foldl_cons, List.foldl_nil, hrecord]
        exact (SameChunk.twice _ _).trans (hbefore.cons _)
      · simp only [about_cons, h₁, h₂, if_true, if_false, about_nil, List.append_nil, List.foldl_cons,
          List.foldl_nil, hrecord]
        exact hbefore.cons _
    · have h₂ : node₂ = node := (hnode.resolve_left (Ne.symm h₁)).symm
      simp only [about_cons, h₁, h₂, if_true, if_false, about_nil, List.append_nil, List.nil_append,
        List.foldl_cons, List.foldl_nil, hrecord]
      exact hbefore.cons _

/-- The writes to the chunk `k`, after a portion of a write to the file `g`. -/
def recordChunk (g : ℕ) (k : FileChunk) (ws : List ChunkWrite) (e : Span × List UInt8) :
    List ChunkWrite :=
  if e.1.chunk g = k then ⟨e.1.offset, e.2⟩ :: ws else ws

theorem Routing.posted_tries (s : Routing) (node : ℤ) (r : ChunkRequest) :
    (s.tries true node r).posted = s.posted ++ [(node, r)] := by
  simp [Routing.posted, Routing.tries]

theorem MapsInOrder.writeTries (hK : ToldApart K) (hl : ∀ e ∈ l, e.1.chunk g ∈ K)
    (h : Routing.WriteTries R v q g l a b) (hm : MapsInOrder K a.chunks) : MapsInOrder K b.chunks := by
  induction h with
  | done => exact hm
  | retry hplaced _ _ ih => exact ih hl (hplaced ▸ hm.placed hK (hl _ List.mem_cons_self))
  | sent hplaced _ ha _ _ ih =>
    subst ha
    exact ih (fun e he => hl e (List.mem_cons_of_mem _ he))
      (hplaced ▸ hm.placed hK (hl _ List.mem_cons_self))
  | resent hplaced _ ha _ ha' _ _ ih =>
    subst ha ha'
    exact ih (fun e he => hl e (List.mem_cons_of_mem _ he))
      (hplaced ▸ hm.placed hK (hl _ List.mem_cons_self))

/-- **The sends of a write.** -/
theorem CopiesOf.writeTries (hK : ToldApart K) (hk : k ∈ K) (hl : ∀ e ∈ l, e.1.chunk g ∈ K)
    (h : Routing.WriteTries R v q g l a b) (hall : a.AllAccepted) (hm : MapsInOrder K a.chunks)
    (hcopies : CopiesOf R k ws a.chunks a.posted) :
    CopiesOf R k (l.foldl (recordChunk g k) ws) b.chunks b.posted := by
  induction h generalizing ws with
  | done => exact hcopies
  | retry _ next _ _ => exact absurd (hall.next_eq next) Bool.false_ne_true
  | @sent s data l a a₁ b m hplaced _ ha _ _ ih =>
    obtain ⟨hmem, hl⟩ := List.forall_mem_cons.mp hl
    have hfirst : a₁.AllAccepted := by
      have hsame : ({ a with chunks := m } : Routing).AllAccepted := hall
      exact ha ▸ hsame.tries true _ _
    have hchunks : a₁.chunks = m := by rw [ha]; rfl
    have hposted : a₁.posted = a.posted ++ [(nodeOf R m.chunkToNode (s.chunk g),
        writePacket q.requestId g s data)] := by
      rw [ha, Routing.posted_tries]
      rfl
    have hm' : MapsInOrder K m := hplaced ▸ hm.placed hK hmem
    rw [List.foldl_cons]
    refine ih hl (hfirst.tries _ _ _) (by exact hchunks ▸ hm') ?_
    rw [Routing.posted_tries, hposted, List.append_assoc, List.singleton_append]
    change CopiesOf R k _ a₁.chunks _
    rw [hchunks, hplaced, recordChunk]
    split_ifs with hsame
    · subst hsame
      exact hcopies.write hK hm hk rfl
    · obtain ⟨hp, hr⟩ := hm.valueOf_placed (R := R) (v := a.nodes v) hK hk hmem (Ne.symm hsame)
      refine hcopies.congr hp hr fun e he => .inr ?_
      have hd : (s.chunk g).descriptor ≠ k.descriptor := hK.descriptor_ne hmem hk hsame
      rcases List.mem_cons.mp he with rfl | he
      · exact hd
      · obtain rfl := List.mem_singleton.mp he
        exact hd
  | @resent s data l a a₁ a₂ b m o _ _ ha next' _ _ _ _ =>
    have hfirst : a₁.AllAccepted := by
      have hsame : ({ a with chunks := m } : Routing).AllAccepted := hall
      exact ha ▸ hsame.tries true _ _
    exact absurd (hfirst.next_eq next') Bool.false_ne_true

/-- A portion of a write to the file of the chunk. -/
theorem recordChunk_eq_recordPortion (f : ℕ) (place : ℕ × ℕ) :
    recordChunk f ⟨f, place.1, place.2⟩ = recordPortion place := by
  funext ws e
  have hiff : e.1.chunk f = ⟨f, place.1, place.2⟩ ↔ e.1.place = place := by
    simp [Span.chunk, Span.place, FileChunk.ext_iff, Prod.ext_iff]
  rw [recordChunk, recordPortion, if_congr hiff rfl rfl]

/-- Writes to other files leave the chunk alone. -/
theorem foldl_recordChunk_of_ne (hne : k.fileId ≠ g) : l.foldl (recordChunk g k) ws = ws := by
  induction l with
  | nil => rfl
  | cons e l ih =>
    have hnot : e.1.chunk g ≠ k := fun h => hne (h ▸ rfl)
    rw [List.foldl_cons, recordChunk, if_neg hnot]
    exact ih

end

end DecaFS
