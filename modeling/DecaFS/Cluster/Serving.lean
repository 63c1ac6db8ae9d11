import DecaFS.BaristaCore.Issues
import DecaFS.BaristaCore.Placement
import DecaFS.Cluster.Nodes

/-!
# What the nodes hold

A node handles the packets in the order they were sent to it, and each of them is about a part of one
chunk (`Started.packets_inChunk`). So its store holds, at any time, the chunks that the packets served so far make
(`chunkAfter`), and an answer says what the packets before it made, however late the node serves and
however late the answer arrives (`Cluster.nodes_hold`).
-/

namespace DecaFS

open Code Barista Links

/-! ### Packets as calls of the chunk store -/

namespace ChunkRequest

/-- The call of the chunk store that handles the packet. -/
def call (r : ChunkRequest) (overread : ℕ → UInt8) : EspressoCall :=
  match r.flag with
  | .readChunk => .readChunk r.descriptor r.offset r.count
  | .writeChunk => .writeChunk r.descriptor ⟨r.offset, r.data⟩ overread
  | .deleteChunk => .deleteChunk r.descriptor

/-- The response with the result of the call. -/
def answer (r : ChunkRequest) (res : ℤ × List UInt8) : Answer :=
  match r.flag with
  | .readChunk => res
  | .writeChunk => (res.1, [])
  | .deleteChunk => (-1, [])

end ChunkRequest

/-- The writes to the chunk `d` since it was last deleted, the last one first, after one more packet. -/
def recordPacket (d : DataDescriptor) (ws : List ChunkWrite) (p : ChunkRequest × Answer) :
    List ChunkWrite :=
  match p.1.flag with
  | .readChunk => ws
  | .writeChunk => if p.1.descriptor = d ∧ p.2.1 ≠ -1 then ⟨p.1.offset, p.1.data⟩ :: ws else ws
  | .deleteChunk => if p.1.descriptor = d then [] else ws

/-- The writes that make the chunk `d` after the packets that were served, the first one first. -/
def chunkAfter (d : DataDescriptor) (served : List (ChunkRequest × Answer)) : List ChunkWrite :=
  served.foldl (recordPacket d) []

/-- What a read of `count` bytes at `offset` says of a chunk that the writes `ws` make. -/
def ReadAnswer (ws : List ChunkWrite) (offset count : ℤ) (a : Answer) : Prop :=
  if ws = [] ∨ chunkSize ws < offset then a = (-1, []) else
    a.1 = a.2.length ∧ (a.2.length : ℤ) = min count (chunkSize ws - offset) ∧
      ∀ (i : ℕ) b, i < a.2.length → lastByte ws (offset + i) = some b → a.2[i]? = some b

section

variable {maxSize : ℕ} {s t : EspressoData} {r : ChunkRequest} {a : Answer}
  {chunks : DataDescriptor → List ChunkWrite} {served : List (ChunkRequest × Answer)}

theorem ChunkRequest.InChunk.valid (h : r.InChunk) (overread : ℕ → UInt8) : (r.call overread).Valid := by
  unfold ChunkRequest.call
  cases hflag : r.flag with
  | writeChunk =>
    obtain ⟨h₀, h₁, h₂, h₃⟩ := h.part (by simp [hflag])
    have hdata := h.data hflag
    change 0 ≤ r.offset ∧ 1 ≤ r.offset + (r.data.length : ℤ) ∧ r.offset + (r.data.length : ℤ) ≤ intMax
    rw [hdata]
    unfold intMax
    omega
  | readChunk => trivial
  | deleteChunk => trivial

/-- A node handles a packet by its call. -/
theorem handle_eq_call (h : r.InChunk) (overread : ℕ → UInt8) :
    Espresso.handleMessageFromServer r overread = r.answer <$> (r.call overread).code := by
  unfold Espresso.handleMessageFromServer ChunkRequest.call
  cases hflag : r.flag with
  | readChunk =>
    have hid : r.answer = id := by
      funext res
      simp [ChunkRequest.answer, hflag]
    simp only [hid, id_map]
    rfl
  | writeChunk =>
    have hanswer : r.answer = fun res => (res.1, []) := by
      funext res
      simp [ChunkRequest.answer, hflag]
    simp only [Espresso.processWritePacket, EspressoCall.code, h.data hflag, hanswer, Functor.map_map,
      bind_pure_comp]
  | deleteChunk =>
    have hanswer : r.answer = fun _ => (-1, []) := by
      funext res
      simp [ChunkRequest.answer, hflag]
    simp only [Espresso.processDeletePacket, EspressoCall.code, hanswer, Functor.map_map, bind_pure_comp]

theorem serves_iff (h : r.InChunk) : Espresso.Serves s (r, a) t ↔
    ∃ overread res, espressoStep s (r.call overread, res) t ∧ a = r.answer res := by
  constructor
  · rintro ⟨overread, hrun⟩
    rw [handle_eq_call h, eq_ok_iff_wp, wp_map] at hrun
    obtain ⟨res, t', hcall, heq, rfl⟩ := hrun.exists_ok
    exact ⟨overread, res, hcall, heq.symm⟩
  · rintro ⟨overread, res, hcall, rfl⟩
    refine ⟨overread, ?_⟩
    rw [handle_eq_call h, eq_ok_iff_wp, wp_map]
    exact (wp_ok hcall).mpr ⟨rfl, rfl⟩

/-- What a packet does to the chunks is what its call does. -/
theorem recordPacket_eq (d : DataDescriptor) (ws : List ChunkWrite) (overread : ℕ → UInt8)
    (res : ℤ × List UInt8) : recordPacket d ws (r, r.answer res) = recordWrite d ws (r.call overread, res) := by
  unfold recordPacket ChunkRequest.call ChunkRequest.answer
  cases hflag : r.flag <;> rfl

/-- **A node can handle every packet.** -/
theorem StoresChunks.exists_serves (hs : StoresChunks maxSize s chunks) (hmax : (maxSize : ℤ) ≤ intMax)
    (h : r.InChunk) : ∃ a t, Espresso.Serves s (r, a) t := by
  obtain ⟨res, t, hcall, -⟩ := hs.step hmax (h.valid fun _ => 0)
  exact ⟨r.answer res, t, (serves_iff h).mpr ⟨_, res, hcall, rfl⟩⟩

/-- **A packet does to the chunks what its answer says.** -/
theorem StoresChunks.serves (hs : StoresChunks maxSize s chunks) (hmax : (maxSize : ℤ) ≤ intMax)
    (h : r.InChunk) (hserves : Espresso.Serves s (r, a) t) :
    StoresChunks maxSize t fun d => recordPacket d (chunks d) (r, a) := by
  obtain ⟨overread, res, hcall, rfl⟩ := (serves_iff h).mp hserves
  obtain ⟨res', t', hcall', ht, -⟩ := hs.step hmax (h.valid overread)
  have hsame : (.ok (res, t) : Except _ _) = .ok (res', t') := hcall.symm.trans hcall'
  obtain ⟨rfl, rfl⟩ := Prod.mk.inj (Except.ok.inj hsame)
  have hrecord : (fun d => recordPacket d (chunks d) (r, r.answer res)) =
      fun d => recordWrite d (chunks d) (r.call overread, res) :=
    funext fun d => recordPacket_eq d (chunks d) overread res
  rw [hrecord]
  exact ht

/-- A read behind the end of the chunk fails. -/
theorem readChunk_behind {d : DataDescriptor} {address : DataAddress} {offset count : ℤ}
    (hd : s.metadata.lookup d = some address) (hsize : 0 ≤ address.size) (hlt : address.size < offset)
    (hle : offset ≤ intMax) (hcount : 0 ≤ count) :
    Espresso.readChunk d offset count s = .ok ((-1, []), s) := by
  have hleft : toInt32 (address.size - offset) = address.size - offset := by
    refine toInt32_eq ?_ ?_ <;> unfold intMax at * <;> omega
  have hcut : (if count > address.size - offset then address.size - offset else count) < 0 := by
    rw [if_pos (by omega)]
    omega
  have hnot : ¬ count < 0 := by omega
  rw [eq_ok_iff_wp]
  simp only [Espresso.readChunk, Espresso.readData, wp_bind, wp_get, hd, hleft, hnot, hcut, or_true,
    if_true, if_false, wp_pure, and_self]

/-- **The answer to a read is what the writes make it.** -/
theorem StoresChunks.answers (hs : StoresChunks maxSize s chunks) (hmax : (maxSize : ℤ) ≤ intMax)
    (h : r.InChunk) (hflag : r.flag = .readChunk) (hserves : Espresso.Serves s (r, a) t) :
    ReadAnswer (chunks r.descriptor) r.offset r.count a := by
  obtain ⟨h₀, hcount, h₁, hle⟩ := h.part (by simp [hflag])
  obtain ⟨overread, hrun⟩ := hserves
  have hread : Espresso.readChunk r.descriptor r.offset r.count s = .ok (a, t) := by
    simpa only [Espresso.handleMessageFromServer, hflag, Espresso.processReadPacket] using hrun
  have hanswer : ∀ a' t', Espresso.readChunk r.descriptor r.offset r.count s = .ok (a', t') → a = a' := by
    intro a' t' h'
    exact (Prod.mk.inj (Except.ok.inj (hread.symm.trans h'))).1
  unfold ReadAnswer
  by_cases hbehind : chunkSize (chunks r.descriptor) < r.offset
  · rw [if_pos (.inr hbehind)]
    have hholds := hs.2 r.descriptor
    cases hlook : s.metadata.lookup r.descriptor with
    | none =>
      obtain ⟨res, t', hrun', rfl, rfl⟩ := (Espresso.wp_readData_none (E := fun _ => False) r.offset
        r.count hlook).exists_ok
      exact hanswer _ _ hrun'
    | some address =>
      simp only [EspressoData.Holds, hlook] at hholds
      obtain ⟨-, hsize, -⟩ := hholds
      have hpos := (hs.1.bounds _ _ hlook).1
      refine hanswer _ _ (readChunk_behind hlook hpos.le (by omega) ?_ hcount)
      unfold intMax
      omega
  · have hreads := hs.readsAs hmax r.descriptor r.offset r.count h₀ (by omega) hcount
    by_cases hnil : chunks r.descriptor = []
    · rw [if_pos hnil] at hreads
      rw [if_pos (.inl hnil)]
      exact hanswer _ _ hreads
    · rw [if_neg hnil] at hreads
      obtain ⟨bytes, hrun', hlength, hbytes⟩ := hreads
      rw [if_neg (not_or.mpr ⟨hnil, hbehind⟩), hanswer _ _ hrun']
      exact ⟨rfl, hlength, hbytes⟩

/-! ### The packets of a node -/

/-- What is known of a node that served packets. -/
structure ServedWell (maxSize : ℕ) (served : List (ChunkRequest × Answer)) (s : EspressoData) : Prop where
  stores : StoresChunks maxSize s fun d => chunkAfter d served
  answers : ∀ pre r a post, served = pre ++ (r, a) :: post → r.flag = .readChunk →
    ReadAnswer (chunkAfter r.descriptor pre) r.offset r.count a

theorem chunkAfter_append_singleton (d : DataDescriptor) (served : List (ChunkRequest × Answer))
    (p : ChunkRequest × Answer) :
    chunkAfter d (served ++ [p]) = recordPacket d (chunkAfter d served) p := by
  unfold chunkAfter
  rw [List.foldl_append]
  rfl

/-- **The step lemma.** -/
theorem ServedWell.step (hs : ServedWell maxSize served s) (hmax : (maxSize : ℤ) ≤ intMax)
    (h : r.InChunk) (hserves : Espresso.Serves s (r, a) t) : ServedWell maxSize (served ++ [(r, a)]) t where
  stores := by
    simp only [chunkAfter_append_singleton]
    exact hs.stores.serves hmax h hserves
  answers pre r' a' post hsplit hflag := by
    rcases List.eq_nil_or_concat post with rfl | ⟨post, p, rfl⟩
    · obtain ⟨rfl, hlast⟩ := List.append_inj' hsplit rfl
      obtain ⟨rfl, rfl⟩ := Prod.mk.inj (List.cons.inj hlast).1
      exact hs.stores.answers hmax h hflag hserves
    · rw [List.concat_eq_append, ← List.cons_append, ← List.append_assoc] at hsplit
      exact hs.answers pre r' a' post (List.append_inj' hsplit rfl).1 hflag

/-- **The run lemma.** -/
theorem servedWell_of_steps {s₀ : EspressoData} (hs : ServedWell maxSize served s₀)
    (hmax : (maxSize : ℤ) ≤ intMax) {more : List (ChunkRequest × Answer)} (h : ∀ p ∈ more, p.1.InChunk)
    (hrun : Steps Espresso.Serves s₀ more s) : ServedWell maxSize (served ++ more) s := by
  induction hrun generalizing served with
  | refl s => simpa using hs
  | @cons s₀ s₁ s p more head _ ih =>
    rw [← List.singleton_append, ← List.append_assoc]
    exact ih (hs.step hmax (h p List.mem_cons_self) head) fun p' hp' => h p' (List.mem_cons_of_mem _ hp')

theorem servedWell_init (hpos : 0 < maxSize) : ServedWell maxSize [] (espressoGlobalDataInit maxSize) where
  stores := storesChunks_init hpos
  answers pre r a post hsplit := absurd hsplit (by simp)

end

/-! ### The nodes of a cluster -/

namespace Cluster

variable {R : Runtime} {c₀ c c' : Cluster} {as : List Action} {maxSize : ℕ}

/-- The packets sent to a node so far: it served the first ones, and the server has `taken` the answers to
the first of these; the other `answers` and the packets `waiting` to be served are under way. -/
structure Serving (maxSize : ℕ) (node : ℤ) (c : Cluster) (taken answers : List (ChunkRequest × Answer))
    (waiting : List ChunkRequest) : Prop where
  sent : about node (sends c.barista.network.log) = (taken ++ answers).map Prod.fst ++ waiting
  queue : c.links.queue node = answers.map (fun p => ⟨node, p.1, some p.2⟩) ++
    waiting.map fun r => ⟨node, r, none⟩
  well : ServedWell maxSize (taken ++ answers) (c.links.stores node)

/-- The packets of every node, in every run of the cluster. -/
theorem Started.serving (hstart : Started maxSize c₀) (hpos : 0 < maxSize) (hmax : (maxSize : ℤ) ≤ intMax)
    (hrun : Steps (Step R) c₀ as c) (hids : idsOf (inputs as) < 4294967296)
    (hwhole : ∀ i ∈ inputs as, i.Whole) :
    ∃ takes : List (ℤ × ChunkRequest × Answer),
      takes.map Prod.snd = (c.barista.network.log.filterMap Event.heard).reverse ∧
      ∀ node, ∃ answers waiting, Serving maxSize node c (about node takes) answers waiting := by
  have hroom : c₀.barista.volatile.requestId + idsOf (inputs as) < 4294967296 := by
    rwa [hstart.barista.requestId, Nat.zero_add]
  obtain ⟨-, -, hsteps, ls, hlinked⟩ := hstart.sound.run hroom hrun
  have hin := hstart.barista.packets_inChunk hsteps hids hwhole
  have hsends : sends c.barista.network.log = ls.flatMap Signal.posts := by
    rw [hlinked.sends, hstart.barista.log]
    rfl
  refine ⟨ls.flatMap Signal.takes, ?_, fun node => ?_⟩
  · rw [hlinked.heard, hstart.barista.log]
    rfl
  · have hnone : Links.Fifo Espresso.Serves node (c₀.links.stores node) [] [] c₀.links :=
      Links.fifo_of_empty hstart.transit
    have hfifo := hnone.run hlinked.steps
    rw [List.nil_append, List.nil_append, hstart.stores] at hfifo
    obtain ⟨answers, waiting, hqueue, hposted, hserves⟩ := hfifo
    refine ⟨answers, waiting, by rw [hsends, hposted], hqueue, ?_⟩
    · refine servedWell_of_steps (servedWell_init hpos) hmax (fun p hp => ?_) hserves
      have hmem : p.1 ∈ about node (sends c.barista.network.log) := by
        rw [hsends, hposted]
        exact List.mem_append_left _ (List.mem_map_of_mem hp)
      obtain ⟨e, he, heq⟩ := List.mem_map.mp hmem
      exact heq ▸ hin e (List.mem_of_mem_filter he)

/-- **Transfers fit.** In every run of the cluster, whatever the cursors, the counts, the sizes of stripes
and chunks and the failures of nodes: every packet that goes to a node is about a part of one chunk, with
the bytes it counts if it is a write, and every answer to a read fails or brings no more than the part that
was asked for, which the buffer of `process_read_packet` has room for. -/
theorem transfers_fit (hstart : Started maxSize c₀) (hpos : 0 < maxSize) (hmax : (maxSize : ℤ) ≤ intMax)
    (hrun : Steps (Step R) c₀ as c) (hids : idsOf (inputs as) < 4294967296)
    (hwhole : ∀ i ∈ inputs as, i.Whole) :
    (∀ e ∈ sends c.barista.network.log, e.2.InChunk) ∧
    ∀ r (count : ℤ) data, .answered r count data ∈ c.barista.network.log → r.flag = .readChunk →
      (count = -1 ∧ data = []) ∨
        count = data.length ∧ count ≤ r.count ∧ r.offset + count ≤ 65536 := by
  have hroom : c₀.barista.volatile.requestId + idsOf (inputs as) < 4294967296 := by
    rwa [hstart.barista.requestId, Nat.zero_add]
  obtain ⟨-, -, hsteps, -⟩ := hstart.sound.run hroom hrun
  have hin := hstart.barista.packets_inChunk hsteps hids hwhole
  refine ⟨hin, fun r count data hanswered hflag => ?_⟩
  obtain ⟨takes, htakes, hserving⟩ := hstart.serving hpos hmax hrun hids hwhole
  have hheard : (r, count, data) ∈ takes.map Prod.snd := by
    rw [htakes, List.mem_reverse]
    exact List.mem_filterMap.mpr ⟨_, hanswered, rfl⟩
  obtain ⟨⟨node, p⟩, hp, rfl⟩ := List.mem_map.mp hheard
  obtain ⟨answers, waiting, hnode⟩ := hserving node
  have htaken : (r, count, data) ∈ about node takes ++ answers :=
    List.mem_append_left _ (List.mem_map.mpr ⟨_, List.mem_filter.mpr ⟨hp, by simp⟩, rfl⟩)
  have hsent : r ∈ about node (sends c.barista.network.log) := by
    rw [hnode.sent]
    exact List.mem_append_left _ (List.mem_map.mpr ⟨_, htaken, rfl⟩)
  obtain ⟨e, he, rfl⟩ := List.mem_map.mp hsent
  obtain ⟨-, -, -, hle⟩ := (hin e (List.mem_of_mem_filter he)).part (by simp [hflag])
  obtain ⟨pre, post, hsplit⟩ := List.append_of_mem htaken
  have hanswer := hnode.well.answers pre _ _ post hsplit hflag
  unfold ReadAnswer at hanswer
  split_ifs at hanswer
  · exact .inl (Prod.mk.inj hanswer)
  · obtain ⟨hcount, hlength, -⟩ := hanswer
    refine .inr ⟨hcount, ?_⟩
    simp only at hcount hlength
    omega

/-- Calls that the server handles one after the other are a run of the cluster. -/
theorem exists_calls {is : List Input} {w : World} (hrun : Steps (Barista.step R) c.barista is w)
    (hquiet : ∀ i ∈ is, i.Quiet) (hnodes : ∀ i ∈ is, ∀ node, i ≠ .nodeDown node ∧ i ≠ .nodeUp node) :
    ∃ c', Steps (Step R) c (is.map .call) c' ∧ c'.barista = w ∧ c'.links.closed = c.links.closed := by
  generalize hc : c.barista = v at hrun
  induction hrun generalizing c with
  | refl v => exact ⟨c, .refl c, hc, rfl⟩
  | @cons v v₁ w i is head _ ih =>
    subst hc
    let posted := (sentSince c.barista v₁).map fun p => (⟨p.1, p.2, none⟩ : Parcel ℤ ChunkRequest Answer)
    let c₁ : Cluster := ⟨v₁, { c.links with transit := c.links.transit ++ posted }⟩
    have hstep : Step R c (.call i) c₁ := .call (hquiet i List.mem_cons_self)
      (fun node => (hnodes i List.mem_cons_self node).1)
      (fun node h => absurd h (hnodes i List.mem_cons_self node).2) head (.post _)
    obtain ⟨c', hrest, hend, hclosed⟩ := ih (c := c₁) (fun i hi => hquiet i (List.mem_cons_of_mem _ hi))
      (fun i hi => hnodes i (List.mem_cons_of_mem _ hi)) rfl
    exact ⟨c', .cons hstep hrest, hend, hclosed⟩

end Cluster

/-- `sampleServer`, with nodes that have room for 1000 bytes. -/
def sampleCluster : Cluster := ⟨sampleServer, [], fun _ => espressoGlobalDataInit 1000, ∅⟩

theorem started_sampleCluster : Cluster.Started 1000 sampleCluster where
  barista := started_sampleServer
  transit := rfl
  stores _ := rfl
  closed := rfl
  script := rfl

/-- A file is created and three bytes are written to it. -/
def sampleMessages : List Input :=
  [.openFile "a" oRdwr (sampleClient 1),
    .writeFile 1 [4, 5, 6] 3 (sampleClient 1) [⟨true, []⟩, ⟨true, []⟩]]

/-- The first three bytes of a file lie in one chunk. -/
theorem spans_sample : spans 256 128 0 3 = [⟨1, 1, 0, 3⟩] := by
  have hfirst : firstBlock 256 0 = 1 ∧ firstOffset 256 0 = 0 := by decide
  have hpieces : pieces 256 1 0 3 = [⟨1, 0, 3⟩] := by
    rw [pieces_of_pos (by decide) (by decide)]
    exact congrArg _ pieces_zero
  rw [spans, hfirst.1, hfirst.2, hpieces, callSpans, List.flatMap_singleton, stripeSpans_sample]

theorem writeSpans_sampleServer {w : World} (info : PersistentMetadataInfo)
    (hstripe : info.stripeSize = sampleServer.volatile.stripeSize)
    (hchunk : info.chunkSize = sampleServer.volatile.chunkSize)
    (hcursor : w.volatile.getFileCursor (fdKey 1) = 0) : writeSpans info 1 3 w = [⟨1, 1, 0, 3⟩] := by
  have hcount : (toInt32 3).toNat = 3 := by decide
  rw [writeSpans_eq w info 3 hcursor, hcount]
  change spans info.stripeSize.val info.chunkSize.val 0 3 = _
  rw [hstripe, hchunk]
  exact spans_sample

theorem inputs_map_call (is : List Input) : inputs (is.map .call) = is := by
  induction is with
  | nil => rfl
  | cons i is ih => exact congrArg (i :: ·) ih

theorem quiet_sampleMessages : ∀ i ∈ sampleMessages, i.Quiet ∧ i.Whole ∧
    ∀ node, i ≠ .nodeDown node ∧ i ≠ .nodeUp node := by
  intro i hi
  simp only [sampleMessages, List.mem_cons, List.not_mem_nil, or_false] at hi
  rcases hi with rfl | rfl
  · exact ⟨⟨fun _ => by simp, fun _ h => absurd h (by simp [Input.script])⟩, trivial, by simp⟩
  · refine ⟨⟨fun _ => by simp, fun script h => ?_⟩, ?_, by simp⟩
    · obtain rfl : [⟨true, []⟩, ⟨true, []⟩] = script := Option.some.inj h
      simp
    · change toInt32 3 ≤ 3
      decide

theorem exists_sampleMessages : ∃ c, Steps (Cluster.Step sampleRuntime) sampleCluster
    (sampleMessages.map .call) c ∧ (sends c.barista.network.log).length = 2 := by
  obtain ⟨w, hrun, hend⟩ := exists_steps (R := sampleRuntime) (w := sampleServer) sampleMessages
    (p := fun w => (sends w.network.log).length = 2) (by decide +kernel)
  obtain ⟨c, hsteps, rfl, -⟩ := Cluster.exists_calls (c := sampleCluster) hrun
    (fun i hi => (quiet_sampleMessages i hi).1) fun i hi => (quiet_sampleMessages i hi).2.2
  exact ⟨c, hsteps, of_decide_eq_true hend⟩

theorem transfers_fit_sampleMessages : ∃ c, Steps (Cluster.Step sampleRuntime) sampleCluster
      (sampleMessages.map .call) c ∧ (sends c.barista.network.log).length = 2 ∧
    ∀ e ∈ sends c.barista.network.log, e.2.InChunk := by
  obtain ⟨c, hsteps, htwo⟩ := exists_sampleMessages
  have hinputs := inputs_map_call sampleMessages
  exact ⟨c, hsteps, htwo, (Cluster.transfers_fit started_sampleCluster (by decide) (by decide) hsteps
    (by rw [hinputs]; decide) (by rw [hinputs]; exact fun i hi => (quiet_sampleMessages i hi).2.1)).1⟩

end DecaFS
