import DecaFS.Cluster.FileCopies

/-!
# Reads return what was written

A read is served at the nodes behind the packets of the calls before it and before those of the calls
behind it. So its result is what the writes before it made of the file, whatever else the server and the
nodes do until the last answer has come, and whichever copies of the chunks the server reads
(`Cluster.reads_written`).
-/

namespace DecaFS

open Code Barista Links

/-! ### Lists -/

/-- The values that are there are the first ones. -/
theorem filterMap_range {α : Type} {g : ℕ → Option α} {l : List α} {n : ℕ} (hle : l.length ≤ n)
    (hsome : ∀ i (hi : i < l.length), g i = some l[i]) (hnone : ∀ i, l.length ≤ i → i < n → g i = none) :
    (List.range n).filterMap g = l := by
  have hfirst : (List.range l.length).filterMap g = l := by
    have hcongr : (List.range l.length).filterMap g = (List.range l.length).filterMap (l[·]?) := by
      refine List.filterMap_congr fun i hi => ?_
      have hi := List.mem_range.mp hi
      rw [hsome i hi, List.getElem?_eq_getElem hi]
    rw [hcongr]
    clear hcongr hsome hnone hle
    induction l with
    | nil => rfl
    | cons a l ih =>
      have hzero : (a :: l)[0]? = some a := rfl
      rw [List.length_cons, List.range_succ_eq_map, List.filterMap_cons, hzero, List.filterMap_map]
      exact congrArg (a :: ·) ih
  have hrest : ((List.range (n - l.length)).map (l.length + ·)).filterMap g = [] := by
    refine List.filterMap_eq_nil_iff.mpr fun i hi => ?_
    obtain ⟨j, hj, rfl⟩ := List.mem_map.mp hi
    have hj := List.mem_range.mp hj
    exact hnone _ (Nat.le_add_right _ _) (by omega)
  rw [← Nat.add_sub_cancel' hle, List.range_add, List.filterMap_append, hfirst, hrest, List.append_nil]

/-- What is not taken is not before something that fails. -/
theorem exists_of_notMem_takeWhile {α : Type} {q : α → Bool} {r : α → α → Prop} {x : α} {l : List α}
    (hl : l.Pairwise r) (hx : x ∈ l) (hnot : x ∉ l.takeWhile q) :
    ∃ y ∈ l, q y = false ∧ (y = x ∨ r y x) := by
  induction l with
  | nil => exact absurd hx List.not_mem_nil
  | cons z l ih =>
    obtain ⟨hz, hl⟩ := List.pairwise_cons.mp hl
    by_cases hq : q z = true
    · rw [List.takeWhile_cons_of_pos hq, List.mem_cons, not_or] at hnot
      obtain ⟨y, hy, hfails, hor⟩ := ih hl ((List.mem_cons.mp hx).resolve_left hnot.1) hnot.2
      exact ⟨y, List.mem_cons_of_mem _ hy, hfails, hor⟩
    · refine ⟨z, List.mem_cons_self, Bool.eq_false_iff.mpr hq, ?_⟩
      exact (List.mem_cons.mp hx).imp Eq.symm (hz x)

/-! ### The bytes of a span -/

section

variable {stripeSize : StripeSize} {chunkSize : ChunkSize} {ws : List ChunkWrite} {s : Span} {a : Answer}
  {R : Runtime} {m : ChunkMaps} {f o n : ℕ}

theorem filterMap_bytes (s : Span) (ws : List ChunkWrite) :
    s.bytes.filterMap (storedAt stripeSize.val chunkSize.val ws) =
      (List.range s.length).filterMap fun i : ℕ =>
        lastByte (chunkWrites stripeSize.val chunkSize.val s.place ws) ((s.offset : ℤ) + (i : ℤ)) := by
  rw [Span.bytes, List.filterMap_map]
  refine List.filterMap_congr fun i _ => ?_
  rw [Function.comp_apply, storedAt, Nat.cast_add]
  rfl

/-- **An answer that says what the chunk holds** brings the bytes of the file. -/
theorem ReadAnswer.readBuffer_eq (hws : Contiguous ws)
    (h : ReadAnswer (chunkWrites stripeSize.val chunkSize.val s.place ws) s.offset s.length a) :
    readBuffer a.1 a.2 = s.bytes.filterMap (storedAt stripeSize.val chunkSize.val ws) := by
  rw [filterMap_bytes]
  generalize hcs : chunkWrites stripeSize.val chunkSize.val s.place ws = cs at h ⊢
  have hnone : ∀ i : ℕ, DecaFS.chunkSize cs ≤ (s.offset : ℤ) + i → lastByte cs ((s.offset : ℤ) + i) = none := by
    intro i hle
    by_contra hnot
    obtain ⟨b, hb⟩ := Option.ne_none_iff_exists'.mp hnot
    exact absurd (lt_chunkSize_of_lastByte hb) (not_lt.mpr hle)
  unfold ReadAnswer at h
  split_ifs at h with hempty
  · subst h
    have hle : DecaFS.chunkSize cs ≤ s.offset := by
      rcases hempty with rfl | hlt
      · exact Int.natCast_nonneg _
      · exact hlt.le
    symm
    refine filterMap_range (l := []) (Nat.zero_le _) (fun i hi => absurd hi (Nat.not_lt_zero i)) ?_
    exact fun i _ _ => hnone i (by omega)
  · obtain ⟨hcount, hlength, hbytes⟩ := h
    have hbuffer : readBuffer a.1 a.2 = a.2 := by
      unfold readBuffer
      split_ifs with hpos
      · rw [hcount, Int.toNat_natCast, List.take_length]
      · exact (List.length_eq_zero_iff.mp (by omega)).symm
    rw [hbuffer]
    symm
    refine filterMap_range (l := a.2) (by omega) (fun i hi => ?_) fun i hi hlt => hnone i (by omega)
    -- the byte is there because the file has no gaps
    have hlt : (((s.offset + i : ℕ) : ℤ)) < DecaFS.chunkSize cs := by omega
    rw [← hcs] at hlt
    obtain ⟨p, hp, hloc⟩ := (lt_chunkSize_chunkWrites hws).mp hlt
    have hsome := hws.lastByte_isSome (Int.natCast_nonneg p) hp
    rw [← lastByte_chunkWrites hws.nonneg hloc, hcs] at hsome
    obtain ⟨b, hb⟩ := Option.isSome_iff_exists.mp hsome
    have hbyte := hbytes i b hi (by exact_mod_cast hb)
    rw [List.getElem?_eq_getElem hi] at hbyte
    rw [Option.some.inj hbyte]
    exact_mod_cast hb

/-- A file without gaps has a byte at every position up to its end. -/
theorem length_filterMap_lastByte (hws : Contiguous ws) (o n : ℕ) :
    ((List.range n).filterMap fun i => lastByte ws ((o + i : ℕ) : ℤ)).length =
      min n ((DecaFS.chunkSize ws).toNat - o) := by
  have hle : min n ((DecaFS.chunkSize ws).toNat - o) ≤ n := min_le_left _ _
  generalize hm : min n ((DecaFS.chunkSize ws).toNat - o) = m at hle
  have hlist := filterMap_range (g := fun i => lastByte ws ((o + i : ℕ) : ℤ)) (n := n)
    (l := (List.range m).map fun i => (lastByte ws ((o + i : ℕ) : ℤ)).getD 0)
    (by rwa [List.length_map, List.length_range]) (fun i hi => ?_) fun i hi hlt => ?_
  · rw [hlist, List.length_map, List.length_range]
  · rw [List.length_map, List.length_range] at hi
    obtain ⟨b, hb⟩ := Option.isSome_iff_exists.mp
      (hws.lastByte_isSome (Int.natCast_nonneg (o + i)) (by omega))
    rw [List.getElem_map, List.getElem_range, hb]
    rfl
  · rw [List.length_map, List.length_range] at hi
    by_contra hsome
    obtain ⟨b, hb⟩ := Option.ne_none_iff_exists'.mp hsome
    have hbound := lt_chunkSize_of_lastByte hb
    omega

theorem le_id_of_mem_pieces {size id offset n : ℕ} {p : Piece} (hp : p ∈ pieces size id offset n) :
    id ≤ p.id := by
  induction id, offset, n using pieces.induct size with
  | case1 id offset n h => simp [pieces, h] at hp
  | case2 id offset n h ih =>
    rw [pieces, if_neg h] at hp
    rcases List.mem_cons.mp hp with rfl | hp
    · exact le_rfl
    · exact Nat.le_of_succ_le (ih hp)

/-- **A span that a read does not send for** has no bytes of the file. -/
theorem filterMap_bytes_of_unread {ps : List Piece} (hws : Contiguous ws)
    (hexists : ∀ s ∈ callSpans chunkSize.val ps, chunkExists R m.chunkToNode (s.chunk f) = true ↔
      chunkWrites stripeSize.val chunkSize.val s.place ws ≠ [])
    (hs : s ∈ callSpans chunkSize.val ps) (hunread : s ∉ readableSpans R m f chunkSize.val ps) :
    s.bytes.filterMap (storedAt stripeSize.val chunkSize.val ws) = [] := by
  obtain ⟨P, hP, hmem⟩ := List.mem_flatMap.mp hs
  have hnot : s ∉ existing R m f (stripeSpans chunkSize.val P.id P.offset P.length) := fun h =>
    hunread (List.mem_flatMap.mpr ⟨P, hP, h⟩)
  have hsorted : (stripeSpans chunkSize.val P.id P.offset P.length).Pairwise
      fun s s' => s.chunkNum < s'.chunkNum := List.pairwise_map.mpr pairwise_id_pieces
  obtain ⟨s₀, hs₀, hmissing, hor⟩ := exists_of_notMem_takeWhile hsorted hmem hnot
  have hnil : chunkWrites stripeSize.val chunkSize.val s₀.place ws = [] := by
    by_contra hne
    have hthere := (hexists s₀ (List.mem_flatMap.mpr ⟨P, hP, hs₀⟩)).mpr hne
    exact absurd (hthere.symm.trans hmissing) (by decide)
  have hstripe : s₀.stripeId = s.stripeId := by
    obtain ⟨q, -, rfl⟩ := List.mem_map.mp hs₀
    obtain ⟨q', -, rfl⟩ := List.mem_map.mp hmem
    rfl
  have hfirst : 1 ≤ s₀.chunkNum := by
    obtain ⟨q, hq, rfl⟩ := List.mem_map.mp hs₀
    exact (Nat.succ_le_succ (Nat.zero_le _)).trans (le_id_of_mem_pieces hq)
  have hle : s₀.chunkNum ≤ s.chunkNum := hor.elim (fun heq => heq ▸ le_rfl) Nat.le_of_lt
  refine List.filterMap_eq_nil_iff.mpr fun loc hloc => ?_
  obtain ⟨i, -, rfl⟩ := List.mem_map.mp hloc
  by_contra hsome
  obtain ⟨b, hb⟩ := Option.ne_none_iff_exists'.mp hsome
  refine chunkWrites_ne_nil hws hb hfirst hle ?_
  rw [← hstripe]
  exact hnil

end

/-! ### The answers to a read -/

section

variable {R : Runtime} {fd count : ℤ} {client : Client} {info : PersistentMetadataInfo}
  {used : List SendOutcome} {sent : List (ℤ × ChunkRequest)} {w w₂ w₁ w' : World} {reply : Reply}

theorem sends_append (new log : List Event) : sends (new ++ log) = sends log ++ sends new := by
  induction new with
  | nil => exact (List.append_nil _).symm
  | cons e new ih => cases e <;> simp [sends, ih]

/-- What was sent to a node before a packet that was sent once. -/
theorem eq_about_of_split {node : ℤ} {r : ChunkRequest} {before behind : List (ℤ × ChunkRequest)}
    {front back : List ChunkRequest} (h : about node (before ++ (node, r) :: behind) = front ++ r :: back)
    (hbefore : ∀ e ∈ before, e.2 ≠ r) (hbehind : ∀ e ∈ behind, e.2 ≠ r) : front = about node before := by
  have hnotMem : ∀ l : List (ℤ × ChunkRequest), (∀ e ∈ l, e.2 ≠ r) → r ∉ about node l := by
    intro l hl hmem
    obtain ⟨e, he, heq⟩ := List.mem_map.mp hmem
    exact hl e (List.mem_of_mem_filter he) heq
  rw [about_append, about_cons, if_pos rfl, List.singleton_append] at h
  exact ((List.append_cons_inj_of_notMem (hnotMem _ hbefore) (hnotMem _ hbehind)).mp h).1.symm

/-- The packets of a read are sent one after the other, and nothing else is sent under its id. -/
theorem ReadDone.sends_eq (h : ReadDone R fd count client info used sent w w₂ w₁ w' reply) :
    ∃ later, sends w'.network.log = sends w.network.log ++ sent ++ later ∧
      ∀ e ∈ sends w.network.log ++ later, e.2.tag ≠ ⟨.readChunk, w.volatile.requestId + 1⟩ := by
  obtain ⟨new, hnew, -⟩ := h.reads
  have hsends : sends w'.network.log = sends w.network.log ++ sent ++ sends new := by
    rw [hnew, sends_append, h.finished.sends, h.fetched.sends]
    rfl
  refine ⟨sends new, hsends, fun e he htag => ?_⟩
  have hunder := h.under_sends
  have hsent : under ⟨.readChunk, w.volatile.requestId + 1⟩ sent = (readSpans R info fd count w).map
      (readPacket (w.volatile.requestId + 1) (w.fileAt fd)) := by
    rw [under, h.fetched.packets, List.filter_eq_self]
    intro r hr
    obtain ⟨s, -, rfl⟩ := List.mem_map.mp hr
    exact decide_eq_true rfl
  have hmem : e.2 ∈ under ⟨.readChunk, w.volatile.requestId + 1⟩ (sends w.network.log ++ sends new) :=
    List.mem_filter.mpr ⟨List.mem_map_of_mem he, decide_eq_true htag⟩
  -- the packets of the read are all there are under its tag
  have hlength := congrArg List.length hunder
  rw [hsends, under_append, under_append, hsent, List.length_append, List.length_append] at hlength
  have hpos := List.length_pos_of_mem hmem
  rw [under_append, List.length_append] at hpos
  omega

/-- The packet of a span is sent once, to a node that has a copy of the chunk, and behind the packets of
the calls before the read. -/
theorem ReadDone.exists_sent (h : ReadDone R fd count client info used sent w w₂ w₁ w' reply) {s : Span}
    (hs : s ∈ readSpans R info fd count w) :
    ∃ node before behind, sends w'.network.log = (sends w.network.log ++ before) ++
        (node, readPacket (w.volatile.requestId + 1) (w.fileAt fd) s) :: behind ∧
      (node = nodeOf R w.chunks.chunkToNode (s.chunk (w.fileAt fd)) ∨
        node = nodeOf R w.chunks.chunkToReplicaNode (s.chunk (w.fileAt fd))) ∧
      (∀ e ∈ before, e.2.flag = .readChunk) ∧ ∀ e ∈ (sends w.network.log ++ before) ++ behind,
        e.2 ≠ readPacket (w.volatile.requestId + 1) (w.fileAt fd) s := by
  have hpackets := h.fetched.packets
  change sent.map Prod.snd = (readSpans R info fd count w).map
    (readPacket (w.volatile.requestId + 1) (w.fileAt fd)) at hpackets
  generalize hr : readPacket (w.volatile.requestId + 1) (w.fileAt fd) s = r
  have htag : r.tag = ⟨.readChunk, w.volatile.requestId + 1⟩ := hr ▸ rfl
  have hmem : r ∈ sent.map Prod.snd := by
    rw [hpackets, ← hr]
    exact List.mem_map_of_mem hs
  obtain ⟨⟨node, p⟩, hp, rfl⟩ := List.mem_map.mp hmem
  obtain ⟨before, behind, hcut⟩ := List.append_of_mem hp
  obtain ⟨later, hsends, hother⟩ := h.sends_eq
  have hnode := (h.fetched.nodes _ hp).imp_right And.right
  -- each packet of the read is sent once
  have honce : (sent.map Prod.snd).Nodup := by
    rw [hpackets]
    refine List.pairwise_map.mpr (pairwise_rank_readSpans.imp fun hlt heq => hlt.ne ?_)
    exact congrArg (fun r : ChunkRequest => r.chunk.rank) heq
  rw [hcut, List.map_append, List.map_cons, List.nodup_middle, List.nodup_cons, List.mem_append,
    not_or] at honce
  obtain ⟨⟨hbefore, hbehind⟩, -⟩ := honce
  refine ⟨node, before, behind ++ later, ?_, ?_, fun e he => ?_, fun e he heq => ?_⟩
  · rw [hsends, hcut]
    simp
  · rw [← hr] at hnode
    exact hnode
  · have hread : e.2 ∈ sent.map Prod.snd := List.mem_map_of_mem (hcut ▸ List.mem_append_left _ he)
    obtain ⟨s', -, heq⟩ := List.mem_map.mp (hpackets ▸ hread)
    exact heq ▸ rfl
  · rcases List.mem_append.mp he with he | he <;> rcases List.mem_append.mp he with he | he
    · exact hother e (List.mem_append_left _ he) (heq ▸ htag)
    · exact hbefore (heq ▸ List.mem_map_of_mem he)
    · exact hbehind (heq ▸ List.mem_map_of_mem he)
    · exact hother e (List.mem_append_right _ he) (heq ▸ htag)

/-- The packet of a span was answered, once. -/
theorem ReadDone.exists_answered (h : ReadDone R fd count client info used sent w w₂ w₁ w' reply) {s : Span}
    (hs : s ∈ readSpans R info fd count w) :
    ∃ n data, .answered (readPacket (w.volatile.requestId + 1) (w.fileAt fd) s) n data ∈ w'.network.log ∧
      bytesOf (w.volatile.requestId + 1) w'.network.log (s.chunk (w.fileAt fd)) = readBuffer n data := by
  have hchunks := h.chunks_perm
  have hunder := h.under_sends
  generalize w.fileAt fd = f at hchunks hunder ⊢
  generalize w.volatile.requestId + 1 = id at hchunks hunder ⊢
  have honce : ((readSpans R info fd count w).map (·.chunk f)).Nodup := by
    refine List.pairwise_map.mpr ((pairwise_rank_callSpans _ f pairwise_id_pieces).sublist
      (readableSpans_sublist _ _ _ _) |>.imp fun hlt heq => hlt.ne (congrArg FileChunk.rank heq))
  obtain ⟨e, he, hchunk⟩ := List.mem_map.mp (hchunks.symm.subset (List.mem_map_of_mem hs))
  have hbytes : bytesOf id w'.network.log (s.chunk f) = e.2 := by
    rw [bytesOf, came, ← hchunk, ← arrivals, filter_fst_eq (hchunks.nodup_iff.mpr honce) he,
      List.flatMap_singleton]
  obtain ⟨event, hevent, hresponse⟩ := List.mem_filterMap.mp (List.mem_reverse.mp he)
  cases event with
  | answered r n data =>
    rw [Event.response] at hresponse
    split_ifs at hresponse with htag
    obtain rfl := Option.some.inj hresponse
    -- it answers a packet that was sent under the id
    have hanswered : r ∈ answeredPackets w'.network.log := List.mem_filterMap.mpr ⟨_, hevent, rfl⟩
    have hsent : r ∈ under ⟨.readChunk, id⟩ (sends w'.network.log) :=
      List.mem_filter.mpr ⟨h.accounted.symm.subset (List.mem_append_right _ hanswered), decide_eq_true htag⟩
    rw [hunder] at hsent
    obtain ⟨s', hs', rfl⟩ := List.mem_map.mp hsent
    obtain rfl : s' = s := List.inj_on_of_nodup_map honce hs' hs hchunk
    exact ⟨n, data, hevent, hbytes⟩
  | _ => exact absurd hresponse (by simp [Event.response])

/-- A read that passes its checks, up to a state in which it has its result. -/
theorem exists_readDone {w₀ : World} {is is' : List Input} {client' : Client} {script : List SendOutcome}
    (hstart : Started w₀) (hrun : Steps (step R) w₀ is w)
    (hread : step R w (.readFile fd count client script) w₁) (hrun' : Steps (step R) w₁ is' w')
    (hids : idsOf is + 1 + idsOf is' < 4294967296)
    (hfile : w.persistent.metadata.lookup (w.fileAt fd) = some info)
    (hpass : readRefusal fd (sizeArgument count) client w = none)
    (hreplied : .replied (.read (w.volatile.requestId + 1)) client' reply ∈ w'.network.log) :
    ∃ used sent w₂, ReadDone R fd count client info used sent (withScript script w) w₂ w₁ w' reply := by
  obtain ⟨hw, hid⟩ := hstart.run hrun (by omega)
  have hroom : w.volatile.requestId + 1 < 4294967296 := by omega
  have hhandled := hw.handled (i := .readFile fd count client script) hroom hread
  have hid₁ : w₁.volatile.requestId = w.volatile.requestId + 1 := hhandled.requestId
  have hw₁ := hhandled.running hw
  obtain ⟨hw', hreaches, -⟩ := hw₁.onwards hrun' (by omega)
  have haccounted : Accounted w' := by
    refine hstart.accounted_of_run ((hrun.trans (.single hread)).trans hrun') ?_
    rw [idsOf_append, idsOf_append, idsOf_cons, idsOf_nil]
    exact hids
  have hbooked := hw.booked.withScript script
  have hserved := (wp_scripted.mpr (wp_readFile_served (R := R) fd count client hbooked hroom)).of_ok hread
  rcases hserved with ⟨-, -, reply, hrefused, -⟩ | ⟨-, info', used, sent, w₂, hs⟩
  · have hnone : readRefusal fd (sizeArgument count) client (withScript script w) = none := hpass
    exact absurd (hnone.symm.trans hrefused) (by simp)
  · obtain rfl : info = info' := Option.some.inj (hfile.symm.trans hs.file)
    exact ⟨used, sent, w₂, hs, hbooked, hw', haccounted, hreaches,
      assembling_of_exchanges (exchanges_of_run hw₁ hrun' (by omega)), client', hreplied⟩

end

namespace Cluster

variable {R : Runtime} {c₀ c' : Cluster} {as : List Action} {maxSize : ℕ} {fd count : ℤ} {client : Client}
  {info : PersistentMetadataInfo} {used : List SendOutcome} {sent : List (ℤ × ChunkRequest)} {w w₂ w₁ : World}
  {reply : Reply}

/-- **What comes for a chunk of a read** is the answer of a node that has a copy, which says what the
packets made that were sent to the node before those of the read. -/
theorem exists_answer (hstart : Started maxSize c₀) (hpos : 0 < maxSize) (hmax : (maxSize : ℤ) ≤ intMax)
    (hrun : Steps (Step R) c₀ as c') (hids : idsOf (inputs as) < 4294967296)
    (hwhole : ∀ i ∈ inputs as, i.Whole) (hwrites : WritesSucceed c'.barista)
    (hdone : ReadDone R fd count client info used sent w w₂ w₁ c'.barista reply)
    {s : Span} (hs : s ∈ readSpans R info fd count w) :
    ∃ node a, (node = nodeOf R w.chunks.chunkToNode (s.chunk (w.fileAt fd)) ∨
        node = nodeOf R w.chunks.chunkToReplicaNode (s.chunk (w.fileAt fd))) ∧
      ReadAnswer (chunkSent (s.chunk (w.fileAt fd)).descriptor (about node (sends w.network.log)))
        s.offset s.length a ∧
      bytesOf (w.volatile.requestId + 1) c'.barista.network.log (s.chunk (w.fileAt fd)) =
        readBuffer a.1 a.2 := by
  obtain ⟨n, data, hevent, hbytes⟩ := hdone.exists_answered hs
  obtain ⟨node, before, behind, hsends, hnode, hreads, hother⟩ := hdone.exists_sent hs
  generalize hr : readPacket (w.volatile.requestId + 1) (w.fileAt fd) s = r at hevent hsends hother
  obtain ⟨takes, htakes, hserving⟩ := hstart.serving hpos hmax hrun hids hwhole
  obtain ⟨⟨node', p⟩, hp, rfl⟩ := List.mem_map.mp ((mem_takes_iff htakes (r, n, data)).mpr hevent)
  have htaken : (r, n, data) ∈ about node' takes :=
    List.mem_map.mpr ⟨_, List.mem_filter.mpr ⟨hp, by simp⟩, rfl⟩
  obtain ⟨answers, waiting, hserved⟩ := hserving node'
  -- the answer came from the node that the packet was sent to
  obtain rfl : node' = node := by
    have hmem : r ∈ about node' (sends c'.barista.network.log) := by
      rw [hserved.sent]
      exact List.mem_append_left _ (List.mem_map.mpr ⟨_, List.mem_append_left _ htaken, rfl⟩)
    obtain ⟨e, he, heq⟩ := List.mem_map.mp hmem
    obtain ⟨hmem, hn⟩ := List.mem_filter.mp he
    rw [hsends, List.mem_append, List.mem_cons] at hmem
    rcases hmem with hmem | rfl | hmem
    · exact absurd heq (hother e (List.mem_append_left _ hmem))
    · exact (of_decide_eq_true hn).symm
    · exact absurd heq (hother e (List.mem_append_right _ hmem))
  obtain ⟨pre, post, hsplit⟩ := List.append_of_mem htaken
  have hpre : pre.map Prod.fst = about node' (sends w.network.log ++ before) := by
    have hall : about node' ((sends w.network.log ++ before) ++ (node', r) :: behind) =
        pre.map Prod.fst ++ r :: ((post ++ answers).map Prod.fst ++ waiting) := by
      rw [← hsends, hserved.sent, hsplit]
      simp
    exact eq_about_of_split hall (fun e he => hother e (List.mem_append_left _ he)) fun e he =>
      hother e (List.mem_append_right _ he)
  have hanswer := hserved.well.answers pre r (n, data) (post ++ answers)
    (by rw [hsplit, List.append_assoc]; rfl) (hr ▸ rfl)
  have hwell : ∀ p ∈ pre, p.1.flag = .writeChunk → p.2.1 ≠ -1 := fun p hp =>
    hwrites.of_taken htakes p (hsplit ▸ List.mem_append_left _ hp)
  rw [chunkAfter_eq_chunkSent hwell, hpre, about_append, chunkSent_append_of_forall] at hanswer
  · subst hr
    exact ⟨node', (n, data), hnode, hanswer, hbytes⟩
  · -- the packets of the read change nothing
    intro r hr
    obtain ⟨e, he, rfl⟩ := List.mem_map.mp hr
    exact .inl (hreads e (List.mem_of_mem_filter he))

/-- The copies after a run in which the file was not deleted. -/
theorem Started.fileCopies_of_run {K : Set FileChunk} {f : ℕ} {c : Cluster} (hstart : Started maxSize c₀)
    (hchunks : c₀.barista.chunks = {}) (hrun : Steps (Guarded (Handling (Spares f)) (Step R)) c₀ as c)
    (hids : idsOf (inputs as) < 4294967296)
    (hfiles : c₀.barista.persistent.lastFileId + filesOf (inputs as) < 4294967296)
    (hwhole : ∀ i ∈ inputs as, i.Whole) (haccepted : ∀ i ∈ inputs as, i.Accepted) (hK : ToldApart K)
    (hsent : ∀ e ∈ sends c.barista.network.log, e.2.chunk ∈ K) :
    ∃ stripeSize chunkSize, FileCopies R K f stripeSize chunkSize
      (writesTo R f c₀.barista (inputs as) []) c.barista := by
  obtain ⟨_, _, hcopies⟩ := hstart.barista.fileCopies (R := R) (K := K) hchunks f
  have hroom : c₀.barista.volatile.requestId + idsOf (inputs as) < 4294967296 := by
    rwa [hstart.barista.requestId, Nat.zero_add]
  exact hcopies.run hK hstart.barista.running hstart.barista.persistent (hstart.sound.run_guarded hroom hrun)
    hroom hfiles hwhole haccepted hsent

/-- **What comes for a span** is what the writes put there, also if nothing is sent for it. -/
theorem bytesOf_eq_written {K : Set FileChunk} {ws : List ChunkWrite} {fd' cnt : ℤ} {buf : List UInt8}
    (hstart : Started maxSize c₀) (hpos : 0 < maxSize) (hmax : (maxSize : ℤ) ≤ intMax) (hrun : Steps (Step R) c₀ as c')
    (hids : idsOf (inputs as) < 4294967296) (hwhole : ∀ i ∈ inputs as, i.Whole)
    (hwrites : WritesSucceed c'.barista)
    (hdone : ReadDone R fd count client info used sent w w₂ w₁ c'.barista
      (.readResult fd' cnt buf))
    (hcopies : FileCopies R K (w.fileAt fd) info.stripeSize info.chunkSize ws w)
    (hspans : ∀ s ∈ writeSpans info fd count w, s.chunk (w.fileAt fd) ∈ K) (hws : Contiguous ws) {s : Span}
    (hs : s ∈ writeSpans info fd count w) :
    bytesOf (w.volatile.requestId + 1) c'.barista.network.log (s.chunk (w.fileAt fd)) =
      s.bytes.filterMap (storedAt info.stripeSize.val info.chunkSize.val ws) := by
  by_cases hread : s ∈ readSpans R info fd count w
  · obtain ⟨node, a, hnode, hanswer, hbytes⟩ := exists_answer hstart hpos hmax hrun hids hwhole hwrites
      hdone hread
    have hsame := (hcopies.copies _ (hspans s hs) rfl).held node (.inr hnode)
    rw [hbytes]
    exact (hsame.readAnswer hanswer).readBuffer_eq hws
  · rw [hdone.bytesOf_eq_nil hs hread]
    refine (filterMap_bytes_of_unread hws (fun s' hs' => ?_) hs hread).symm
    exact (hcopies.copies _ (hspans s' hs') rfl).primary

/-- Calls of a server without a script are a run of the cluster, with their packets under way. -/
theorem exists_posted {c : Cluster} {is : List Input} {w : World}
    (hrun : Steps (Barista.step R) c.barista is w) (hquiet : QuietScript c.barista)
    (hi : ∀ i ∈ is, i.Quiet) (hnodes : ∀ i ∈ is, ∀ node, i ≠ .nodeDown node ∧ i ≠ .nodeUp node) :
    QuietScript w ∧ ∃ new, sends w.network.log = sends c.barista.network.log ++ new ∧
      Steps (Step R) c (is.map .call)
        ⟨w, { c.links with transit := c.links.transit ++ new.map fun p => ⟨p.1, p.2, none⟩ }⟩ := by
  generalize hc : c.barista = v at hrun
  induction hrun generalizing c with
  | refl v =>
    subst hc
    exact ⟨hquiet, [], by simp, by simp⟩
  | @cons v v₁ w i is head _ ih =>
    subst hc
    obtain ⟨hi₁, hi⟩ := List.forall_mem_cons.mp hi
    obtain ⟨hnodes₁, hnodes⟩ := List.forall_mem_cons.mp hnodes
    have hposting := posting_of_step hquiet hi₁ head
    obtain ⟨hquiet', new, hsends, hrest⟩ := ih (c := ⟨v₁, { c.links with
      transit := c.links.transit ++ (sentSince c.barista v₁).map fun p => ⟨p.1, p.2, none⟩ }⟩)
      hposting.quiet hi hnodes rfl
    refine ⟨hquiet', sentSince c.barista v₁ ++ new, ?_, ?_⟩
    · rw [hsends, hposting.sends_eq.1, List.append_assoc]
    · rw [List.map_append, ← List.append_assoc]
      exact .cons (.call hi₁ (fun node => (hnodes₁ node).1) (fun node h => absurd h (hnodes₁ node).2) head
        (.post _)) hrest

/-- The first packet under way is served, and its answer is taken. -/
theorem exists_taken {c : Cluster} {node : ℤ} {r : ChunkRequest} {a : Answer} {store : EspressoData}
    {behind : List (Parcel ℤ ChunkRequest Answer)} {w : World}
    (htransit : c.links.transit = ⟨node, r, none⟩ :: behind) (hopen : node ∉ c.links.closed)
    (hserves : Espresso.Serves (c.links.stores node) (r, a) store)
    (hstep : Barista.step R c.barista (.response ⟨0, a.1, a.2⟩) w) :
    Steps (Step R) c [.serve node r a, .deliver 0 node r a]
      ⟨w, behind, Function.update c.links.stores node store, c.links.closed⟩ := by
  let links : Links ℤ ChunkRequest Answer EspressoData :=
    ⟨⟨node, r, some a⟩ :: behind, Function.update c.links.stores node store, c.links.closed⟩
  have hfirst : c.links.transit = [] ++ ⟨node, r, none⟩ :: behind := htransit
  have hserve : Links.Step Espresso.Serves c.links (.serve node r a) links :=
    .serve hfirst (List.forall_mem_nil _) hopen hserves
  have hanswered : links.transit = [] ++ ⟨node, r, some a⟩ :: behind := rfl
  have htake : Links.Step Espresso.Serves links (.take 0 node r a) { links with transit := behind } :=
    .take hanswered (List.forall_mem_nil _) hopen
  exact .cons (.serve hserve) (.single (.deliver htake hstep))

end Cluster

/-- Three bytes are written to a new file, and the cursor goes back to the first. -/
def sampleStored : List Input := sampleMessages ++ [.fileSeek 1 0 .seekSet (sampleClient 1)]

/-- The three bytes are read. -/
def sampleRead : Input := .readFile 1 3 (sampleClient 1) [⟨true, []⟩]

theorem quiet_sampleStored : ∀ i ∈ sampleStored ++ [sampleRead], i.Quiet ∧ i.Whole ∧
    ∀ node, i ≠ .nodeDown node ∧ i ≠ .nodeUp node := by
  intro i hi
  rw [sampleStored, List.append_assoc, List.mem_append] at hi
  rcases hi with hi | hi
  · exact quiet_sampleMessages i hi
  · simp only [List.mem_append, List.mem_singleton] at hi
    rcases hi with rfl | rfl
    · exact ⟨⟨fun _ => by simp, fun _ h => absurd h (by simp [Input.script])⟩, trivial, by simp⟩
    · refine ⟨⟨fun _ => by simp [sampleRead], fun script h => ?_⟩, trivial, by simp [sampleRead]⟩
      obtain rfl : [⟨true, []⟩] = script := Option.some.inj h
      simp

theorem exists_serves {s : EspressoData} {r : ChunkRequest} {q : Answer × EspressoData → Bool}
    (h : (Espresso.handleMessageFromServer r (fun _ => 0) s).toOption.any q = true) :
    ∃ p, Espresso.Serves s (r, p.1) p.2 ∧ q p = true := by
  cases hrun : Espresso.handleMessageFromServer r (fun _ => 0) s with
  | error e => simp [hrun, Except.toOption] at h
  | ok p => exact ⟨p, ⟨_, hrun⟩, by simpa [hrun, Except.toOption] using h⟩

/-- A node that stores the three bytes has them. -/
theorem exists_sampleStores : ∃ s t u,
    Espresso.Serves (espressoGlobalDataInit 1000) (writePacket 1 1 ⟨1, 1, 0, 3⟩ [4, 5, 6], 3, []) s ∧
    Espresso.Serves (espressoGlobalDataInit 1000) (writePacket 2 1 ⟨1, 1, 0, 3⟩ [4, 5, 6], 3, []) t ∧
    Espresso.Serves s (readPacket 3 1 ⟨1, 1, 0, 3⟩, 3, [4, 5, 6]) u := by
  obtain ⟨⟨a, s⟩, hs, hq⟩ := exists_serves (s := espressoGlobalDataInit 1000)
    (r := writePacket 1 1 ⟨1, 1, 0, 3⟩ [4, 5, 6]) (q := fun p => p.1 = (3, []) ∧
      (Espresso.handleMessageFromServer (readPacket 3 1 ⟨1, 1, 0, 3⟩) (fun _ => 0) p.2).toOption.any
        fun p => p.1 = (3, [4, 5, 6])) (by decide +kernel)
  obtain ⟨ha, hread⟩ := of_decide_eq_true hq
  obtain ⟨⟨a', t⟩, ht, hq'⟩ := exists_serves (s := espressoGlobalDataInit 1000)
    (r := writePacket 2 1 ⟨1, 1, 0, 3⟩ [4, 5, 6]) (q := fun p => p.1 = (3, [])) (by decide +kernel)
  obtain ⟨⟨a'', u⟩, hu, hq''⟩ := exists_serves hread
  obtain rfl : a = (3, []) := ha
  obtain rfl : a' = (3, []) := of_decide_eq_true hq'
  obtain rfl : a'' = (3, [4, 5, 6]) := of_decide_eq_true hq''
  exact ⟨s, t, u, hs, ht, hu⟩

/-- The responses to the packets of the write and the read. -/
def sampleAnswers : List Input := [.response ⟨0, 3, []⟩, .response ⟨0, 3, []⟩, .response ⟨0, 3, [4, 5, 6]⟩]

/-- The messages of the sample delete no file and write with every packet accepted. -/
theorem accepted_sampleStored {i : Input} (hi : i ∈ sampleStored ++ sampleRead :: sampleAnswers) :
    i.Whole ∧ i.Accepted ∧ ∀ w, Spares 1 w i := by
  have hcount : toInt32 3 = 3 := by decide
  simp only [sampleStored, sampleMessages, sampleRead, sampleAnswers, List.mem_append, List.mem_cons,
    List.not_mem_nil, or_false, or_assoc] at hi
  rcases hi with rfl | rfl | rfl | rfl | rfl | rfl | rfl <;>
    simp [Input.Whole, Input.Accepted, Spares, hcount]

/-- The packets of the write. -/
def samplePackets : List (ℤ × ChunkRequest) :=
  [(1, writePacket 1 1 ⟨1, 1, 0, 3⟩ [4, 5, 6]), (3, writePacket 2 1 ⟨1, 1, 0, 3⟩ [4, 5, 6])]

/-- The file that was written. -/
def sampleStoredInfo : PersistentMetadataInfo :=
  ⟨1, 3, sampleServer.volatile.stripeSize, sampleServer.volatile.chunkSize, 128, "a", {}⟩

/-- What is under way is served, and the answers are taken. -/
theorem exists_sampleRead : ∃ c c₁ c' bs,
    Steps (Cluster.Step sampleRuntime) sampleCluster (sampleStored.map .call) c ∧
    Cluster.Step sampleRuntime c (.call sampleRead) c₁ ∧ Steps (Cluster.Step sampleRuntime) c₁ bs c' ∧
    inputs bs = sampleAnswers ∧
    (c.barista.fileAt 1 = 1 ∧ c.barista.persistent.metadata.lookup 1 = some sampleStoredInfo ∧
      c.barista.volatile.getFileCursor (fdKey 1) = 0 ∧ c.barista.volatile.requestId = 2) ∧
    (readRefusal 1 (sizeArgument 3) (sampleClient 1) c.barista = none ∧
      sends c.barista.network.log = samplePackets) ∧
    c'.links.transit = [] ∧
    .replied (.read 3) (sampleClient 1) (.readResult 1 3 [4, 5, 6]) ∈ c'.barista.network.log ∧
    (∀ p ∈ c'.barista.network.log.filterMap Event.heard, p.2.1 = 3) ∧
    c'.barista.persistent.metadata.lookup 1 = some sampleStoredInfo ∧
    ∀ e ∈ sends c'.barista.network.log, e.2.chunk = ⟨1, 1, 1⟩ := by
  obtain ⟨w, hrun, hend⟩ := exists_steps (R := sampleRuntime) (w := sampleServer) sampleStored
    (p := fun w => ((w.fileAt 1 = 1 ∧ w.persistent.metadata.lookup 1 = some sampleStoredInfo ∧
        w.volatile.getFileCursor (fdKey 1) = 0 ∧ w.volatile.requestId = 2) ∧
        readRefusal 1 (sizeArgument 3) (sampleClient 1) w = none ∧
          sends w.network.log = samplePackets) ∧
      (Barista.run sampleRuntime w [sampleRead]).toOption.any fun w₁ =>
        sends w₁.network.log = samplePackets ++ [(1, readPacket 3 1 ⟨1, 1, 0, 3⟩)] ∧
          (Barista.run sampleRuntime w₁ sampleAnswers).toOption.any fun w' =>
            .replied (.read 3) (sampleClient 1) (.readResult 1 3 [4, 5, 6]) ∈ w'.network.log ∧
              (∀ p ∈ w'.network.log.filterMap Event.heard, p.2.1 = 3) ∧
              w'.persistent.metadata.lookup 1 = some sampleStoredInfo ∧
              ∀ e ∈ sends w'.network.log, e.2.chunk = ⟨1, 1, 1⟩) (by decide +kernel)
  obtain ⟨⟨hfile, hpass, hsends⟩, hread⟩ := of_decide_eq_true hend
  obtain ⟨w₁, hread, hend⟩ := exists_steps _ hread
  obtain ⟨hsends₁, hanswers⟩ := of_decide_eq_true hend
  obtain ⟨w₄, hanswers, hend⟩ := exists_steps _ hanswers
  obtain ⟨w₂, hfirst, hanswers⟩ := Steps.cons_iff.mp hanswers
  obtain ⟨w₃, hsecond, hlast⟩ := Steps.cons_iff.mp hanswers
  obtain ⟨w', hthird, hnil⟩ := Steps.cons_iff.mp hlast
  obtain rfl : w' = w₄ := Steps.nil_iff.mp hnil
  -- the calls
  have hquiet : ∀ i ∈ sampleStored, i.Quiet ∧ i.Whole ∧ ∀ node, i ≠ .nodeDown node ∧ i ≠ .nodeUp node :=
    fun i hi => quiet_sampleStored i (List.mem_append_left _ hi)
  have hquiet₁ : sampleRead.Quiet ∧ sampleRead.Whole ∧ ∀ node, sampleRead ≠ .nodeDown node ∧
      sampleRead ≠ .nodeUp node := quiet_sampleStored _ (by simp)
  obtain ⟨hscript, new, hnew, hcalls⟩ := Cluster.exists_posted (c := sampleCluster) hrun
    (fun o ho => absurd ho List.not_mem_nil) (fun i hi => (hquiet i hi).1) fun i hi => (hquiet i hi).2.2
  obtain rfl : new = samplePackets := by
    rw [hsends] at hnew
    exact hnew.symm
  let links : Links ℤ ChunkRequest Answer EspressoData :=
    ⟨samplePackets.map fun p => ⟨p.1, p.2, none⟩, fun _ => espressoGlobalDataInit 1000, ∅⟩
  obtain ⟨-, new, hnew, hcall⟩ := Cluster.exists_posted (c := ⟨w, links⟩) hread hscript
    (fun i hi => List.mem_singleton.mp hi ▸ hquiet₁.1) fun i hi => List.mem_singleton.mp hi ▸ hquiet₁.2.2
  obtain rfl : new = [(1, readPacket 3 1 ⟨1, 1, 0, 3⟩)] := by
    rw [hsends₁, hsends] at hnew
    exact (List.append_cancel_left hnew).symm
  obtain ⟨c₁, hcall, hnil⟩ := Steps.cons_iff.mp hcall
  obtain rfl := Steps.nil_iff.mp hnil
  -- the packets
  obtain ⟨s, t, u, hs, ht, hu⟩ := exists_sampleStores
  let stores : ℤ → EspressoData := Function.update (fun _ => espressoGlobalDataInit 1000) 1 s
  have hstore : stores 3 = espressoGlobalDataInit 1000 := Function.update_of_ne (by decide) _ _
  have hstore' : Function.update stores 3 t 1 = s :=
    (Function.update_of_ne (by decide) _ _).trans (Function.update_self _ _ _)
  rw [← hstore] at ht
  rw [← hstore'] at hu
  let read : Parcel ℤ ChunkRequest Answer := ⟨1, readPacket 3 1 ⟨1, 1, 0, 3⟩, none⟩
  have hserved₁ := Cluster.exists_taken (R := sampleRuntime) (c := ⟨w₁, links.transit ++ [read],
    fun _ => espressoGlobalDataInit 1000, ∅⟩) rfl (Finset.notMem_empty _) hs hfirst
  have hserved₂ := Cluster.exists_taken (R := sampleRuntime) (c := ⟨w₂,
    [⟨3, writePacket 2 1 ⟨1, 1, 0, 3⟩ [4, 5, 6], none⟩, read], stores, ∅⟩) rfl (Finset.notMem_empty _)
    ht hsecond
  have hserved₃ := Cluster.exists_taken (R := sampleRuntime) (c := ⟨w₃, [read], Function.update stores 3 t, ∅⟩)
    rfl (Finset.notMem_empty _) hu hthird
  exact ⟨⟨w, links⟩, _, _, _, hcalls, hcall, (hserved₁.trans hserved₂).trans hserved₃, rfl, hfile,
    ⟨hpass, hsends⟩, rfl, of_decide_eq_true hend⟩

end DecaFS
