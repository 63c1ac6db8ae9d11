import DecaFS.BaristaCore.Reassembly
import DecaFS.BaristaCore.Replies
import DecaFS.BaristaCore.Striping
import DecaFS.ForMathlib.Gaps

/-!
# What a read delivers

The result of a read is made of the bytes that came for its chunks, one chunk after the other, as far as
`operator<` tells the stripes apart (`ReadServed.result_eq`). It knows nothing about chunks that came
short or not at all: it is a prefix of the file from the cursor on if and only if nothing came for a chunk
behind such a one (`partialRead_iff`).
-/

namespace DecaFS

open Relation Desk Code Barista Search

section

variable {R : Runtime} {w w₀ w₁ w₂ w' : World} {fd count : ℤ} {client : Client}
  {info : PersistentMetadataInfo} {used : List SendOutcome} {sent : List (ℤ × ChunkRequest)}
  {is is' : List Input} {id : ℕ}

/-! ### What came for a read -/

/-- The responses to the read `id`, in the order in which they came. -/
def arrivals (id : ℕ) (log : List Event) : List (FileChunk × List UInt8) :=
  responses ⟨.readChunk, id⟩ readBuffer log

/-- The bytes that came for a chunk. -/
def bytesOf (id : ℕ) (log : List Event) (chunk : FileChunk) : List UInt8 :=
  came ⟨.readChunk, id⟩ readBuffer log chunk

/-- The map of the responses is filled in the order in which they come. -/
theorem assemble_eq_fill (packets : List (FileChunk × List UInt8)) (log : List Event) :
    assemble R id packets log = R.search.fill (arrivals id log) packets := by
  induction log with
  | nil => rfl
  | cons e log ih =>
    rw [arrivals, responses_cons, fill_append, ← arrivals, ← ih]
    cases e with
    | answered r count data =>
      by_cases htag : r.tag = ⟨.readChunk, id⟩
      · simp [assemble, Event.response, htag]
      · simp [assemble, Event.response, htag]
    | _ => rfl

/-! ### The packets of a read and its result -/

/-- A read that was taken, up to a state in which it has its result. -/
structure ReadDone (R : Runtime) (fd count : ℤ) (client : Client) (info : PersistentMetadataInfo)
    (used : List SendOutcome) (sent : List (ℤ × ChunkRequest)) (w w₂ w₁ w' : World)
    (reply : Reply) : Prop
    extends ReadServed R fd count client info used sent w w₂ w₁ where
  booked : Booked none w
  running : Running w'
  accounted : Accounted w'
  reaches : Reaches Operation.tags Tag.id (desk none w₁) (desk none w')
  reads : Assembling R w₁ w'
  replied : ∃ c, .replied (.read (w.volatile.requestId + 1)) c reply ∈ w'.network.log

namespace ReadDone

variable {reply : Reply} (h : ReadDone R fd count client info used sent w w₂ w₁ w' reply)

include h

/-- Nothing is sent under the id of the read before. -/
theorem unsent : (ledger (readRegistered fd (w.fileAt fd) client w).network.log).count
    (.sent ⟨.readChunk, w.volatile.requestId + 1⟩) = 0 :=
  h.booked.unsent_of_openOp (h.booked.registerRead fd client (w.fileAt fd)).2 (by simp [Operation.tags])

/-- The packets of the read. -/
theorem under_sends : under ⟨.readChunk, w.volatile.requestId + 1⟩ (sends w'.network.log) =
    (readSpans R info fd count w).map (readPacket (w.volatile.requestId + 1) (w.fileAt fd)) := by
  obtain ⟨new, hnew, -⟩ := h.finished.reads.trans h.reads
  rw [h.finished.under_sends (by simp [Operation.tags]) h.unsent h.fetched.toSending h.reaches ⟨new, hnew⟩,
    under, h.fetched.packets, List.filter_eq_self]
  intro r hr
  obtain ⟨s, -, rfl⟩ := List.mem_map.mp hr
  exact decide_eq_true rfl

/-- **Each chunk is answered once** by the time of the result. -/
theorem chunks_perm : ((arrivals (w.volatile.requestId + 1) w'.network.log).map Prod.fst).Perm
    ((readSpans R info fd count w).map (·.chunk (w.fileAt fd))) := by
  obtain ⟨c, hmem⟩ := h.replied
  have hperm := h.running.responses_perm (v := readBuffer) h.accounted
    (t := ⟨.readChunk, w.volatile.requestId + 1⟩) (by simp [Operation.tags]) hmem
  rwa [h.under_sends, List.map_map] at hperm

/-- **The result** is what the map of all responses makes up. -/
theorem result_eq : ∃ a, .replied (.read (w.volatile.requestId + 1)) a.info.client reply =
    readReply (w.volatile.requestId + 1) a
      (R.search.fill (arrivals (w.volatile.requestId + 1) w'.network.log) []) := by
  generalize hid : w.volatile.requestId + 1 = id
  obtain ⟨c, hmem⟩ := h.replied
  rw [hid] at hmem
  let w₀ := readRegistered fd (w.fileAt fd) client w
  let a : ReadRequestInfo := { info := ⟨0, 0, w.fileAt fd, client⟩, fd := fd }
  have ha : w₀.requests.activeReadRequests.lookup id = some a := by
    rw [← hid]
    exact Finmap.lookup_insert _
  have hassembling : Assembling R w₀ w' := (h.fetched.reads.trans h.finished.reads).trans h.reads
  obtain ⟨new, hnew, hread⟩ := hassembling
  rcases hread id a ha with ⟨a', ha', -⟩ | ⟨pre, post, rfl⟩
  · -- a read that is still active has no result
    have hactive : w'.requests.Active (.read id) := Finmap.mem_of_lookup_eq_some ha'
    have hledger : .replied (.read id) ∈ ledger w'.network.log := List.mem_filterMap.mpr ⟨_, hmem, rfl⟩
    exact absurd hledger (h.running.booked.inv.not_replied_of_active (.read id) hactive)
  · have hlog : w'.network.log = post ++ readReply id a (assemble R id a.responsePackets pre) ::
        (pre ++ w₀.network.log) := by
      rw [hnew, List.append_assoc]
      rfl
    have hmem' : readReply id a (assemble R id a.responsePackets pre) ∈ w'.network.log := by
      rw [hlog]
      exact List.mem_append_right _ List.mem_cons_self
    have hearly : responses ⟨.readChunk, id⟩ readBuffer w₀.network.log = [] :=
      (h.booked.registerRead fd client (w.fileAt fd)).1.responses_eq_nil (hid ▸ h.unsent)
    have harrivals : arrivals id w'.network.log = arrivals id pre := by
      rw [arrivals, h.running.responses_eq h.accounted (by simp [Operation.tags]) hlog, responses_append,
        hearly, List.nil_append]
      rfl
    refine ⟨a, ?_⟩
    obtain ⟨rfl, rfl⟩ := h.running.booked.replied_unique hmem hmem'
    rw [harrivals, ← assemble_eq_fill]
    rfl

end ReadDone

/-! ### The chunks in order -/

theorem readableSpans_sublist (m : ChunkMaps) (f chunkSize : ℕ) (ps : List Piece) :
    (readableSpans R m f chunkSize ps).Sublist (callSpans chunkSize ps) := by
  induction ps with
  | nil => exact .refl _
  | cons p ps ih =>
    rw [readableSpans, callSpans, List.flatMap_cons, List.flatMap_cons]
    exact (List.takeWhile_sublist _).append ih

/-- The chunks of a read whose stripes are told apart. -/
def ReadApart (R : Runtime) (info : PersistentMetadataInfo) (fd count : ℤ) (w : World) : Prop :=
  ∀ s ∈ readSpans R info fd count w, ∀ s' ∈ readSpans R info fd count w,
    (s.chunk (w.fileAt fd)).StripesApart (s'.chunk (w.fileAt fd))

theorem pairwise_rank_readSpans : (readSpans R info fd count w).Pairwise
    fun s s' => (s.chunk (w.fileAt fd)).rank < (s'.chunk (w.fileAt fd)).rank :=
  (pairwise_rank_callSpans _ _ pairwise_id_pieces).sublist (readableSpans_sublist _ _ _ _)

/-- **Where the stripes are told apart** the map lists the chunks in order. -/
theorem ReadDone.fill_eq {reply : Reply} (h : ReadDone R fd count client info used sent w w₂ w₁ w' reply)
    (hapart : ReadApart R info fd count w) :
    R.search.fill (arrivals (w.volatile.requestId + 1) w'.network.log) [] =
      (readSpans R info fd count w).map fun s => (s.chunk (w.fileAt fd),
        bytesOf (w.volatile.requestId + 1) w'.network.log (s.chunk (w.fileAt fd))) := by
  have hsorted : (readSpans R info fd count w).Pairwise
      fun s s' => (s.chunk (w.fileAt fd)).rank < (s'.chunk (w.fileAt fd)).rank := pairwise_rank_readSpans
  have honce : ((readSpans R info fd count w).map (·.chunk (w.fileAt fd))).Nodup :=
    List.pairwise_map.mpr (hsorted.imp fun hlt heq => hlt.ne (congrArg FileChunk.rank heq))
  have hperm := perm_of_map_fst h.chunks_perm honce
  rw [List.map_map] at hperm
  rw [fill_eq_insertionSort (ρ := FileChunk.rank) hperm]
  · refine List.Pairwise.insertionSort_eq ?_
    exact List.pairwise_map.mpr (hsorted.imp fun hlt => hlt.le)
  · intro e he e' he'
    obtain ⟨s, hs, rfl⟩ := List.mem_map.mp he
    obtain ⟨s', hs', rfl⟩ := List.mem_map.mp he'
    exact FileChunk.less_iff_rank_lt (hapart s hs s' hs') (hapart s' hs' s hs)
  · exact List.pairwise_map.mpr (hsorted.imp fun hlt => hlt.ne)

theorem flatMap_eq_of_sublist {α β : Type} {g : α → List β} {l l' : List α} (h : l'.Sublist l)
    (honce : l.Nodup) (hnil : ∀ x ∈ l, x ∉ l' → g x = []) : l.flatMap g = l'.flatMap g := by
  induction h with
  | slnil => rfl
  | @cons l' l x h ih =>
    obtain ⟨hx, honce⟩ := List.nodup_cons.mp honce
    rw [List.flatMap_cons, hnil x List.mem_cons_self fun hmem => hx (h.subset hmem), List.nil_append]
    exact ih honce fun y hy => hnil y (List.mem_cons_of_mem _ hy)
  | @cons_cons l' l x h ih =>
    obtain ⟨hx, honce⟩ := List.nodup_cons.mp honce
    rw [List.flatMap_cons, List.flatMap_cons, ih honce fun y hy hy' => ?_]
    refine hnil y (List.mem_cons_of_mem _ hy) fun hmem => (List.mem_cons.mp hmem).elim ?_ hy'
    rintro rfl
    exact hx hy

/-! ### Results and the file -/

/-- The places of each span and the bytes that came for it. -/
def delivered (id f : ℕ) (log : List Event) (l : List Span) : List (List (ℕ × ℕ × ℕ) × List UInt8) :=
  l.map fun s => (s.bytes, bytesOf id log (s.chunk f))

/-- Whatever the file holds, as far as it agrees with what came for its chunks, the result has the first
of the `n` bytes from `o` on; and it has nothing if nothing came for the first chunk. -/
structure DeliversFirst (stripeSize : StripeSize) (chunkSize : ChunkSize) (o n : ℕ)
    (parts : List (List (ℕ × ℕ × ℕ) × List UInt8)) (count : ℤ) (buf : List UInt8) : Prop where
  first : ∀ stored : ℕ × ℕ × ℕ → UInt8, Fills stored parts →
    buf <+: (List.range n).map fun i => stored (location stripeSize.val chunkSize.val (o + i))
  failed : (∀ e ∈ (parts.filter fun e => !e.1.isEmpty).head?, e.2 = []) → count ≤ 0 ∧ buf = []

theorem location_injective (stripeSize chunkSize : ℕ) :
    Function.Injective (location stripeSize chunkSize) := by
  intro p p' h
  simp only [location, Prod.mk.injEq, Nat.add_right_cancel_iff] at h
  obtain ⟨hstripe, hchunk, hoffset⟩ := h
  have hmod : p % stripeSize = p' % stripeSize := by
    rw [← Nat.div_add_mod (p % stripeSize) chunkSize, hchunk, hoffset, Nat.div_add_mod]
  rw [← Nat.div_add_mod p stripeSize, hstripe, hmod, Nat.div_add_mod]

theorem spans_eq_callSpans {o : ℕ} (hcursor : w.volatile.getFileCursor (fdKey fd) = o) :
    spans info.stripeSize.val info.chunkSize.val o (toInt32 count).toNat =
      callSpans info.chunkSize.val (segmentAt info fd count w) := by
  rw [segmentAt, hcursor, Int.toNat_natCast]
  rfl

theorem mem_spans_of_mem_readSpans {o : ℕ} (hcursor : w.volatile.getFileCursor (fdKey fd) = o)
    {s : Span} (hs : s ∈ readSpans R info fd count w) :
    s ∈ spans info.stripeSize.val info.chunkSize.val o (toInt32 count).toNat := by
  rw [spans_eq_callSpans hcursor]
  exact (readableSpans_sublist _ _ _ _).subset hs

section ReadDone

variable {o : ℕ} {fd' cnt : ℤ} {buf : List UInt8}
  (h : ReadDone R fd count client info used sent w w₂ w₁ w' (.readResult fd' cnt buf))

include h

/-- Nothing comes for a chunk that the read does not send for. -/
theorem ReadDone.bytesOf_eq_nil {s : Span}
    (hmem : s ∈ callSpans info.chunkSize.val (segmentAt info fd count w))
    (hs : s ∉ readSpans R info fd count w) :
    bytesOf (w.volatile.requestId + 1) w'.network.log (s.chunk (w.fileAt fd)) = [] := by
  have honce : ((callSpans info.chunkSize.val (segmentAt info fd count w)).map
      (·.chunk (w.fileAt fd))).Nodup := List.pairwise_map.mpr
    ((pairwise_rank_callSpans _ _ pairwise_id_pieces).imp fun hlt heq => hlt.ne (congrArg _ heq))
  have hnone : (arrivals (w.volatile.requestId + 1) w'.network.log).filter
      (·.1 = s.chunk (w.fileAt fd)) = [] := by
    refine List.filter_eq_nil_iff.mpr fun e he heq => hs ?_
    obtain ⟨s', hs', hchunk⟩ := List.mem_map.mp (h.chunks_perm.subset (List.mem_map_of_mem he))
    obtain rfl : s' = s := List.inj_on_of_nodup_map honce
      ((readableSpans_sublist _ _ _ _).subset hs') hmem (hchunk.trans (of_decide_eq_true heq))
    exact hs'
  rw [bytesOf, came, ← arrivals, hnone, List.flatMap_nil]

/-- **The result of a read** has the bytes that came for its chunks, one chunk after the other. -/
theorem ReadDone.result_eq_delivered (hapart : ReadApart R info fd count w)
    (hcursor : w.volatile.getFileCursor (fdKey fd) = o) :
    buf = (delivered (w.volatile.requestId + 1) (w.fileAt fd) w'.network.log
        (spans info.stripeSize.val info.chunkSize.val o (toInt32 count).toNat)).flatMap Prod.snd ∧
      cnt = toInt32 buf.length := by
  have hnodup : (callSpans info.chunkSize.val (segmentAt info fd count w)).Nodup :=
    (pairwise_rank_callSpans _ (w.fileAt fd) pairwise_id_pieces).imp fun {s s'} hlt heq =>
      hlt.ne (congrArg (fun s : Span => (s.chunk (w.fileAt fd)).rank) heq)
  obtain ⟨a, ha⟩ := h.result_eq
  rw [h.fill_eq hapart, readReply] at ha
  obtain ⟨-, rfl, rfl⟩ := Reply.readResult.inj (Event.replied.inj ha).2.2
  refine ⟨?_, ?_⟩
  · rw [delivered, spans_eq_callSpans hcursor, List.flatMap_map, List.flatMap_map]
    exact (flatMap_eq_of_sublist (readableSpans_sublist _ _ _ _) hnodup fun s hs hs' =>
      h.bytesOf_eq_nil hs hs').symm
  · rw [packetCount_eq, List.length_flatMap]

/-- **When a result is a prefix.** -/
theorem ReadDone.deliversFirst_iff (hapart : ReadApart R info fd count w)
    (hcursor : w.volatile.getFileCursor (fdKey fd) = o)
    (hlen : ∀ s ∈ spans info.stripeSize.val info.chunkSize.val o (toInt32 count).toNat,
      (bytesOf (w.volatile.requestId + 1) w'.network.log (s.chunk (w.fileAt fd))).length ≤ s.length) :
    DeliversFirst info.stripeSize info.chunkSize o (toInt32 count).toNat
        (delivered (w.volatile.requestId + 1) (w.fileAt fd) w'.network.log
          (spans info.stripeSize.val info.chunkSize.val o (toInt32 count).toNat)) cnt buf ↔
      Gapless (delivered (w.volatile.requestId + 1) (w.fileAt fd) w'.network.log
        (spans info.stripeSize.val info.chunkSize.val o (toInt32 count).toNat)) := by
  obtain ⟨hbuf, hcnt⟩ := h.result_eq_delivered hapart hcursor
  generalize hl : spans info.stripeSize.val info.chunkSize.val o (toInt32 count).toNat = l at hlen hbuf ⊢
  have htiles : Tiles info.stripeSize info.chunkSize o (toInt32 count).toNat l :=
    hl ▸ tiles_spans info.stripeSize info.chunkSize o _
  have hplaces : (delivered (w.volatile.requestId + 1) (w.fileAt fd) w'.network.log l).flatMap Prod.fst =
      (List.range (toInt32 count).toNat).map fun i =>
        location info.stripeSize.val info.chunkSize.val (o + i) := by
    rw [delivered, List.flatMap_map]
    exact htiles.bytes
  generalize hparts : delivered (w.volatile.requestId + 1) (w.fileAt fd) w'.network.log l = parts
    at hbuf hplaces ⊢
  have hlens : ∀ e ∈ parts, e.2.length ≤ e.1.length := by
    intro e he
    rw [← hparts] at he
    obtain ⟨s, hs, rfl⟩ := List.mem_map.mp he
    simpa [Span.bytes] using hlen s hs
  have honce : (parts.flatMap Prod.fst).Nodup := by
    rw [hplaces]
    refine List.nodup_range.map fun i j hij => ?_
    exact Nat.add_left_cancel (location_injective _ _ hij)
  have hbytes : Nontrivial UInt8 := ⟨0, 1, by decide⟩
  have hfirst := isPrefix_iff_gapless hlens honce
  simp only [hplaces, ← hbuf, List.map_map] at hfirst
  refine ⟨fun hdelivers => hfirst.mp hdelivers.first, fun hgapless => ⟨hfirst.mpr hgapless, fun hfail => ?_⟩⟩
  have hnil : buf = [] := hbuf.trans (List.flatMap_eq_nil_iff.mpr (hgapless.forall_nil hlens hfail))
  refine ⟨?_, hnil⟩
  rw [hcnt, hnil]
  decide

end ReadDone

/-- A read that is refused delivers nothing. -/
theorem readRefusal_result {reply : Reply} (h : readRefusal fd count client w = some reply) :
    ∃ fd' cnt, cnt ≤ 0 ∧ reply = .readResult fd' cnt [] := by
  have hopen : fileNotOpenForRead ≤ 0 := by decide
  have hstat : unableToStatFile ≤ 0 := by decide
  rw [readRefusal] at h
  by_cases hmay : MayRead w client (w.volatile.getFileInfo (fdKey fd)).fileId
  · rw [if_neg (not_not.mpr hmay)] at h
    split at h
    · exact ⟨_, _, hstat, (Option.some.inj h).symm⟩
    · dsimp only at h
      split_ifs at h
      · exact ⟨_, _, hopen, (Option.some.inj h).symm⟩
      · exact ⟨_, _, le_rfl, (Option.some.inj h).symm⟩
  · rw [if_pos hmay] at h
    exact ⟨_, _, hopen, (Option.some.inj h).symm⟩

/-- **When a partial read is a prefix.** In every run the result of a read at the cursor `o` of a file,
if `operator<` tells the stripes of the chunks apart that are there, has the first bytes from the cursor
on, whatever the file holds where nothing came, exactly if nothing came for a chunk behind one that came
short or not at all. -/
theorem partialRead_iff {client' : Client} {o : ℕ} {fd' cnt : ℤ} {buf : List UInt8}
    {script : List SendOutcome} (hstart : Started w₀)
    (hrun : Steps (step R) w₀ is w) (hread : step R w (.readFile fd count client script) w₁)
    (hrun' : Steps (step R) w₁ is' w') (hids : idsOf is + 1 + idsOf is' < 4294967296)
    (hfile : w.persistent.metadata.lookup (w.fileAt fd) = some info)
    (hcursor : w.volatile.getFileCursor (fdKey fd) = o) (hapart : ReadApart R info fd count w)
    (hreplied : .replied (.read (w.volatile.requestId + 1)) client' (.readResult fd' cnt buf) ∈
      w'.network.log)
    (hlen : ∀ s ∈ spans info.stripeSize.val info.chunkSize.val o (toInt32 count).toNat,
      (bytesOf (w.volatile.requestId + 1) w'.network.log (s.chunk (w.fileAt fd))).length ≤ s.length) :
    DeliversFirst info.stripeSize info.chunkSize o (toInt32 count).toNat
        (delivered (w.volatile.requestId + 1) (w.fileAt fd) w'.network.log
          (spans info.stripeSize.val info.chunkSize.val o (toInt32 count).toNat)) cnt buf ↔
      Gapless (delivered (w.volatile.requestId + 1) (w.fileAt fd) w'.network.log
        (spans info.stripeSize.val info.chunkSize.val o (toInt32 count).toNat)) := by
  obtain ⟨hw, hid⟩ := hstart.run hrun (by omega)
  have hroom : w.volatile.requestId + 1 < 4294967296 := by omega
  have hhandled := hw.handled (i := .readFile fd count client script) hroom hread
  have hid₁ : w₁.volatile.requestId = w.volatile.requestId + 1 := hhandled.requestId
  have hw₁ := hhandled.running hw
  obtain ⟨hw', hreaches, -⟩ := hw₁.onwards hrun' (by omega)
  have hassembling := assembling_of_exchanges (exchanges_of_run hw₁ hrun' (by omega))
  have haccounted : Accounted w' := by
    refine hstart.accounted_of_run ((hrun.trans (.single hread)).trans hrun') ?_
    rw [idsOf_append, idsOf_append, idsOf_cons, idsOf_nil]
    exact hids
  have hbooked := hw.booked.withScript script
  have hserved := (wp_scripted.mpr (wp_readFile_served (R := R) fd count client hbooked hroom)).of_ok hread
  rcases hserved with ⟨-, -, reply, hrefused, rfl⟩ | ⟨-, info', used, sent, w₂, hs⟩
  · -- a refused read sends for nothing
    obtain ⟨new, hlog, -⟩ := hassembling
    have hlog' : w'.network.log = new ++ .replied (.read (w.volatile.requestId + 1)) client reply ::
        w.network.log := hlog
    have hmem : .replied (.read (w.volatile.requestId + 1)) client reply ∈ w'.network.log := by
      rw [hlog']
      exact List.mem_append_right _ List.mem_cons_self
    obtain ⟨rfl, rfl⟩ := hw'.booked.replied_unique hreplied hmem
    obtain ⟨_, _, hneg, hresult⟩ := readRefusal_result hrefused
    obtain ⟨rfl, rfl, rfl⟩ := Reply.readResult.inj hresult
    have hfresh := hw.booked.fresh (.read (w.volatile.requestId + 1)) (by simp [Operation.tags])
      (by simp [Operation.tags])
    have hearly := hw.booked.responses_eq_nil (v := readBuffer)
      (hw.booked.inv.count_of_fresh hfresh (t := ⟨.readChunk, w.volatile.requestId + 1⟩)
        (by simp [Operation.tags])).1
    have hnone : responses ⟨.readChunk, w.volatile.requestId + 1⟩ readBuffer w'.network.log = [] :=
      (hw'.responses_eq haccounted (by simp [Operation.tags]) hlog').trans hearly
    refine iff_of_true ⟨fun _ _ => List.nil_prefix, fun _ => ⟨hneg, rfl⟩⟩ ?_
    refine gapless_of_forall_nil fun e he => ?_
    obtain ⟨s, -, rfl⟩ := List.mem_map.mp he
    rw [bytesOf, came, hnone]
    rfl
  · obtain rfl : info = info' := Option.some.inj (hfile.symm.trans hs.file)
    have hdone : ReadDone R fd count client info used sent (withScript script w) w₂ w₁ w'
        (.readResult fd' cnt buf) := ⟨hs, hbooked, hw', haccounted, hreaches, hassembling, client', hreplied⟩
    exact hdone.deliversFirst_iff hapart hcursor hlen

/-! ### A file of two chunks -/

/-- Client 1 writes 130 bytes, and goes back to the first. -/
def sampleRewound : List Input :=
  [.openFile "a" oRdwr (sampleClient 1),
    .writeFile 1 (List.replicate 130 7) 130 (sampleClient 1) (List.replicate 4 ⟨true, []⟩),
    .fileSeek 1 0 .seekSet (sampleClient 1)]

/-- The file that client 1 writes. -/
def sampleReadInfo : PersistentMetadataInfo :=
  ⟨1, 130, sampleServer.volatile.stripeSize, sampleServer.volatile.chunkSize, 128, "a", {}⟩

theorem spans_sampleRewound : spans 256 128 0 130 = [⟨1, 1, 0, 128⟩, ⟨1, 2, 0, 2⟩] := by
  have hstripe : pieces 256 1 0 130 = [⟨1, 0, 130⟩] := by
    have hnil : 130 - min 130 (256 - 0) = 0 := by decide
    rw [pieces_of_pos (by decide) (by decide), hnil, pieces_zero]
    rfl
  have hfirst : firstBlock 256 0 = 1 ∧ firstOffset 256 0 = 0 ∧ firstBlock 128 0 = 1 ∧
      firstOffset 128 0 = 0 := by decide
  have hchunks : pieces 128 1 0 130 = [⟨1, 0, 128⟩, ⟨2, 0, 2⟩] := by
    have hrest : 130 - min 130 (128 - 0) = 2 := by decide
    have hnil : 2 - min 2 (128 - 0) = 0 := by decide
    rw [pieces_of_pos (by decide) (by decide), hrest, pieces_of_pos (by decide) (by decide), hnil,
      pieces_zero]
    rfl
  obtain ⟨h₁, h₂, h₃, h₄⟩ := hfirst
  rw [spans, h₁, h₂, hstripe, callSpans, List.flatMap_singleton, stripeSpans, h₃, h₄, hchunks]
  rfl

/-- The second read of the file, and two responses. -/
theorem exists_sampleRewound (ds : List Delivery) {q : World → Bool}
    (h : (Barista.run sampleRuntime sampleServer sampleRewound).toOption.any (fun w =>
      (w.volatile.requestId = 2 ∧ w.fileAt 1 = 1 ∧
        w.persistent.metadata.lookup (w.fileAt 1) = some sampleReadInfo ∧
        w.volatile.getFileCursor (fdKey 1) = 0) ∧
        (Barista.run sampleRuntime w [.readFile 1 130 (sampleClient 1)
          (List.replicate 2 ⟨true, []⟩)]).toOption.any fun w₁ =>
            (Barista.run sampleRuntime w₁ (ds.map .response)).toOption.any q) = true) :
    ∃ w w₁ w', Steps (step sampleRuntime) sampleServer sampleRewound w ∧
      step sampleRuntime w (.readFile 1 130 (sampleClient 1) (List.replicate 2 ⟨true, []⟩)) w₁ ∧
      Steps (step sampleRuntime) w₁ (ds.map .response) w' ∧
      (w.volatile.requestId = 2 ∧ w.fileAt 1 = 1 ∧
        w.persistent.metadata.lookup (w.fileAt 1) = some sampleReadInfo ∧
        w.volatile.getFileCursor (fdKey 1) = 0) ∧ q w' = true := by
  obtain ⟨w, hrun, hend⟩ := exists_steps sampleRewound h
  obtain ⟨hfacts, hread⟩ := of_decide_eq_true hend
  obtain ⟨w₁, hread, hend⟩ := exists_steps _ hread
  obtain ⟨w', hrun', hq⟩ := exists_steps _ hend
  obtain ⟨w₂, hstep, hnil⟩ := Steps.cons_iff.mp hread
  obtain rfl : w₂ = w₁ := Steps.nil_iff.mp hnil
  exact ⟨w, w₂, w', hrun, hstep, hrun', hfacts, hq⟩

/-- Three bytes come for the first chunk, and `-1` for the second. -/
theorem partialRead_sample : ∃ (w' : World) (cnt : ℤ) (buf : List UInt8),
    .replied (.read 3) (sampleClient 1) (.readResult 1 cnt buf) ∈ w'.network.log ∧
      DeliversFirst sampleReadInfo.stripeSize sampleReadInfo.chunkSize 0 130
        (delivered 3 1 w'.network.log (spans 256 128 0 130)) cnt buf := by
  obtain ⟨w, w₁, w', hrun, hread, hrun', ⟨hid, hat, hfile, hcursor⟩, hq⟩ :=
    exists_sampleRewound [⟨5, -1, []⟩, ⟨4, 3, [7, 7, 7]⟩]
      (q := fun w' => .replied (.read 3) (sampleClient 1) (.readResult 1 3 [7, 7, 7]) ∈ w'.network.log ∧
        bytesOf 3 w'.network.log ⟨1, 1, 1⟩ = [7, 7, 7] ∧ bytesOf 3 w'.network.log ⟨1, 1, 2⟩ = [])
      (by decide +kernel)
  obtain ⟨hmem, hone, htwo⟩ := of_decide_eq_true hq
  have hcount : (toInt32 130).toNat = 130 := by decide
  have hspans : spans sampleReadInfo.stripeSize.val sampleReadInfo.chunkSize.val 0 (toInt32 130).toNat =
      [⟨1, 1, 0, 128⟩, ⟨1, 2, 0, 2⟩] := by
    rw [hcount]
    exact spans_sampleRewound
  have hapart : ReadApart sampleRuntime sampleReadInfo 1 130 w := by
    have hstripe : ∀ s ∈ readSpans sampleRuntime sampleReadInfo 1 130 w, s.stripeId = 1 := by
      intro s hs
      have hmem := mem_spans_of_mem_readSpans (o := 0) hcursor hs
      rw [hspans, List.mem_cons, List.mem_singleton] at hmem
      rcases hmem with rfl | rfl
      · rfl
      · rfl
    intro s hs s' hs' _ hlt
    exact absurd ((hstripe s hs).trans (hstripe s' hs').symm) (Nat.ne_of_lt hlt)
  have hthree : w.volatile.requestId + 1 = 3 := by rw [hid]
  have hiff := partialRead_iff (o := 0) started_sampleServer hrun hread hrun' (by decide) hfile hcursor
    hapart (by rw [hthree]; exact hmem) (by rw [hspans, hthree, hat]; simp [hone, htwo, Span.chunk])
  rw [hspans, hthree, hat, hcount] at hiff
  refine ⟨w', 3, [7, 7, 7], hmem, ?_⟩
  rw [spans_sampleRewound]
  refine hiff.mpr ?_
  simp [Gapless, delivered, Span.chunk, hone, htwo]

/-- `-1` comes for the first chunk: the client gets the second one as if it were the first. -/
theorem secondChunk_delivered_first : ∃ (w w₁ w' : World) (stored : ℕ × ℕ × ℕ → UInt8),
    Steps (step sampleRuntime) sampleServer sampleRewound w ∧
    step sampleRuntime w (.readFile 1 130 (sampleClient 1) (List.replicate 2 ⟨true, []⟩)) w₁ ∧
    Steps (step sampleRuntime) w₁ [.response ⟨4, -1, []⟩, .response ⟨4, 2, [7, 7]⟩] w' ∧
    .replied (.read 3) (sampleClient 1) (.readResult 1 2 [7, 7]) ∈ w'.network.log ∧
    Fills stored (delivered 3 1 w'.network.log (spans 256 128 0 130)) ∧
    ¬ [7, 7] <+: (List.range 130).map fun i => stored (location 256 128 i) := by
  obtain ⟨w, w₁, w', hrun, hread, hrun', -, hq⟩ :=
    exists_sampleRewound [⟨4, -1, []⟩, ⟨4, 2, [7, 7]⟩]
      (q := fun w' => .replied (.read 3) (sampleClient 1) (.readResult 1 2 [7, 7]) ∈ w'.network.log ∧
        bytesOf 3 w'.network.log ⟨1, 1, 1⟩ = [] ∧ bytesOf 3 w'.network.log ⟨1, 1, 2⟩ = [7, 7])
      (by decide +kernel)
  obtain ⟨hmem, hone, htwo⟩ := of_decide_eq_true hq
  -- the first chunk holds zeros
  refine ⟨w, w₁, w', fun p => if p.2.1 = 1 then 0 else 7, hrun, hread, hrun', hmem, ?_, by decide⟩
  rw [spans_sampleRewound]
  simp [Fills, delivered, Span.chunk, hone, htwo, Span.bytes, List.range_succ]

end

end DecaFS
