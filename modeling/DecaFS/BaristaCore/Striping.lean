import DecaFS.BaristaCore.InBounds
import DecaFS.BaristaCore.LockTable
import DecaFS.BaristaCore.Routing
import DecaFS.BaristaCore.Runs

/-!
# Striping

Reads and writes cut the bytes from the cursor on in the same way: the spans of a request, those of
length 0 aside, cover its bytes once and in order, each in the stripe, in the chunk and at the offset
that division with remainder gives (`Tiles`). While the sends succeed, these spans are what the chunk
packets of `write_file` and `read_file` ask for (`striping`).
-/

namespace DecaFS

open Code Barista FileLocks

/-- The bytes of the span, each as its stripe, its chunk and the offset in that. -/
def Span.bytes (s : Span) : List (ℕ × ℕ × ℕ) :=
  (List.range s.length).map fun i => (s.stripeId, s.chunkNum, s.offset + i)

/-- Where the byte at `p` of a file lies: its stripe, its chunk and the offset in that. -/
def location (stripeSize chunkSize p : ℕ) : ℕ × ℕ × ℕ :=
  (p / stripeSize + 1, p % stripeSize / chunkSize + 1, p % stripeSize % chunkSize)

/-- The spans cover the `n` bytes from `o` on once and in order, and each lies in its chunk. -/
structure Tiles (stripeSize : StripeSize) (chunkSize : ChunkSize) (o n : ℕ) (l : List Span) :
    Prop where
  bytes : l.flatMap Span.bytes =
    (List.range n).map fun i => location stripeSize.val chunkSize.val (o + i)
  fits : ∀ s ∈ l, s.offset + s.length ≤ chunkSize.val ∧ chunkSize.val ≤ 65536

/-! ### The spans of a segment -/

section Spans

variable {chunkSize n offset : ℕ}

theorem flatMap_bytes_stripeSpans (hmin : 0 < chunkSize) (stripeId offset n : ℕ) :
    (stripeSpans chunkSize stripeId offset n).flatMap Span.bytes = (List.range n).map fun i =>
      (stripeId, (offset + i) / chunkSize + 1, (offset + i) % chunkSize) := by
  have hbytes : ∀ p : Piece, (p.span stripeId).bytes = p.bytes.map (Prod.mk stripeId) := by
    intro p
    simp [Span.bytes, Piece.span, Piece.bytes]
  rw [stripeSpans, List.flatMap_map]
  simp only [hbytes]
  rw [← List.map_flatMap, flatMap_bytes_pieces hmin (firstOffset_le hmin), List.map_map]
  refine List.map_congr_left fun i _ => ?_
  rw [Function.comp_apply, firstBlock_add hmin]

theorem flatMap_bytes_callSpans (hmin : 0 < chunkSize) (ps : List Piece) :
    (callSpans chunkSize ps).flatMap Span.bytes = (ps.flatMap Piece.bytes).map fun b =>
      (b.1, b.2 / chunkSize + 1, b.2 % chunkSize) := by
  rw [callSpans, List.flatMap_assoc, List.map_flatMap]
  congr 1
  funext p
  rw [flatMap_bytes_stripeSpans hmin, Piece.bytes, List.map_map]
  rfl

/-- **The spans tile the segment.** -/
theorem tiles_spans (stripeSize : StripeSize) (chunkSize : ChunkSize) (o n : ℕ) :
    Tiles stripeSize chunkSize o n (spans stripeSize.val chunkSize.val o n) := by
  have hstripe := stripeSize.min_le
  have hchunk := chunkSize.min_le
  constructor
  · rw [spans, flatMap_bytes_callSpans (by omega),
      flatMap_bytes_pieces (by omega) (firstOffset_le (by omega)), List.map_map]
    refine List.map_congr_left fun i _ => ?_
    rw [Function.comp_apply, firstBlock_add (by omega)]
    rfl
  · intro s hs
    obtain ⟨p, -, hp⟩ := List.mem_flatMap.mp hs
    obtain ⟨q, hq, rfl⟩ := List.mem_map.mp hp
    exact ⟨(offset_add_length_le (firstOffset_le (by omega)) hq).1, chunkSize.le_max⟩

theorem zip_append_eq {α β : Type} (l' : List α) : ∀ (l : List α) (buf : List β),
    (l ++ l').zip buf = l.zip (buf.take l.length) ++ l'.zip (buf.drop l.length)
  | [], _ => rfl
  | _ :: _, [] => by simp
  | _ :: l, _ :: buf => by simp [zip_append_eq l' l buf]

/-- Each byte of the buffer goes to its place. -/
theorem flatMap_zip_portions : ∀ (l : List Span) (buf : List UInt8),
    ((portions l buf).flatMap fun e => e.1.bytes.zip e.2) = (l.flatMap Span.bytes).zip buf
  | [], _ => rfl
  | s :: l, buf => by
    have hlength : s.bytes.length = s.length := by simp [Span.bytes]
    rw [portions, List.flatMap_cons, flatMap_zip_portions l, List.flatMap_cons, zip_append_eq, hlength]

theorem flatMap_snd_portions : ∀ (l : List Span) (buf : List UInt8),
    (portions l buf).flatMap Prod.snd = buf.take (l.map Span.length).sum
  | [], _ => rfl
  | s :: l, buf => by
    rw [portions, List.flatMap_cons, flatMap_snd_portions l, List.map_cons, List.sum_cons]
    exact List.take_add.symm

theorem sum_length_of_tiles {stripeSize : StripeSize} {chunkSize : ChunkSize} {o n : ℕ}
    {l : List Span} (h : Tiles stripeSize chunkSize o n l) : (l.map Span.length).sum = n := by
  have hlength := congrArg List.length h.bytes
  rw [List.length_flatMap] at hlength
  simpa [Span.bytes] using hlength

end Spans

/-! ### The loops over the stripes -/

namespace Routing

variable {R : Runtime} {v : VolatileMetadata} {q : WriteRequest} {id f : ℕ} {a b c : Routing}

theorem ReadTries.append {l l' : List Span} (h : ReadTries R id f l a b)
    (h' : ReadTries R id f l' b c) : ReadTries R id f (l ++ l') a c := by
  induction h with
  | done => exact h'
  | failed from' next _ ih => exact .failed from' next (ih h')
  | read from' next _ ih => exact .read from' next (ih h')

theorem ReadTries.chunks_eq {l : List Span} (h : ReadTries R id f l a b) : b.chunks = a.chunks := by
  induction h with
  | done => rfl
  | failed _ _ _ ih => exact ih
  | read _ _ _ ih => exact ih

theorem WriteTries.append {l l' : List (Span × List UInt8)} (h : WriteTries R v q f l a b)
    (h' : WriteTries R v q f l' b c) : WriteTries R v q f (l ++ l') a c := by
  induction h with
  | done => exact h'
  | retry hm next _ ih => exact .retry hm next (ih h')
  | sent hm next ha next' _ ih => exact .sent hm next ha next' (ih h')
  | resent hm next ha next' ha' again _ ih => exact .resent hm next ha next' ha' again (ih h')

/-- All sends to come succeed. -/
def AllAccepted (s : Routing) : Prop := ∀ o ∈ s.outcomes, o = true

theorem AllAccepted.next_eq {o : Bool} (h : a.AllAccepted) (hnext : a.Next o) : o = true :=
  h o (List.mem_of_head? hnext)

theorem AllAccepted.tries (h : a.AllAccepted) (o : Bool) (node : ℤ) (r : ChunkRequest) :
    (a.tries o node r).AllAccepted := fun o' ho' => h o' (List.mem_of_mem_tail ho')

/-- The packets `rs` were sent, in this order. -/
def Sends (a b : Routing) (rs : List ChunkRequest) : Prop :=
  ∃ new, b.tried = new ++ a.tried ∧ (∀ t ∈ new, t.accepted = true) ∧
    new.reverse.map Attempt.request = rs

theorem Sends.refl (a : Routing) : a.Sends a [] := ⟨[], rfl, List.forall_mem_nil _, rfl⟩

/-- A packet is sent first. -/
theorem Sends.cons {node : ℤ} {r : ChunkRequest} {rs : List ChunkRequest}
    (h : (a.tries true node r).Sends b rs) : a.Sends b (r :: rs) := by
  obtain ⟨new, hnew, hall, hrs⟩ := h
  refine ⟨new ++ [⟨true, node, r⟩], hnew.trans (List.append_assoc new [_] _).symm, ?_, ?_⟩
  · exact List.forall_mem_append.mpr ⟨hall, by simp⟩
  · simp [hrs]

/-- While the sends succeed a read sends one packet for each span. -/
theorem ReadTries.sends {l : List Span} (h : ReadTries R id f l a b) (hall : a.AllAccepted) :
    a.Sends b (l.map (readPacket id f)) := by
  induction h with
  | done => exact .refl _
  | failed _ next _ _ => exact absurd (hall.next_eq next) Bool.false_ne_true
  | read _ _ _ ih => exact .cons (ih (hall.tries _ _ _))

/-- While the sends succeed a write sends two packets for each span. -/
theorem WriteTries.sends {l : List (Span × List UInt8)} (h : WriteTries R v q f l a b)
    (hall : a.AllAccepted) : a.Sends b (l.flatMap fun e =>
      [writePacket q.requestId f e.1 e.2, writePacket q.replicaRequestId f e.1 e.2]) := by
  induction h with
  | done => exact .refl _
  | retry _ next _ _ => exact absurd (hall.next_eq next) Bool.false_ne_true
  | @sent s data l a a₁ b m _ _ ha _ _ ih =>
    subst ha
    have hplaced : ({ a with chunks := m } : Routing).AllAccepted := hall
    have hfirst := hplaced.tries true (nodeOf R m.chunkToNode (s.chunk f))
      (writePacket q.requestId f s data)
    exact Sends.cons (a := { a with chunks := m }) (.cons (ih (hfirst.tries _ _ _)))
  | @resent s data l a a₁ a₂ b m o _ _ ha next' _ _ _ _ =>
    subst ha
    have hplaced : ({ a with chunks := m } : Routing).AllAccepted := hall
    exact absurd ((hplaced.tries _ _ _).next_eq next') Bool.false_ne_true

end Routing

section

variable {R : Runtime} {w w' : World} {f : ℕ}

open Routing

/-- The loop of `read_file`, as tries. -/
theorem wp_readStripes_tries (id : ℕ) (fd : ℤ) (stat : DecafsFileStat) {n : ℕ} (client : Client)
    (m : ChunkMaps) (hn : n ≤ intMax) (fuel : ℕ) :
    ∀ (stripeId offset done numChunks : ℕ) (w : World), offset ≤ stat.stripeSize.val → done ≤ n →
      w.metaLock = none → w.chunks = m →
      wp (readStripes R id fd f stat n client fuel stripeId offset done numChunks)
        (fun _ w' => Routed (ReadTries R id f (readableSpans R m f stat.chunkSize.val
          (pieces stat.stripeSize.val stripeId offset (n - done))) (routing w)) w')
        (fun _ => True) w := by
  have hmin := stat.stripeSize.min_le
  have hint : toInt32 n = n := toInt32_eq (by omega) hn
  induction fuel with
  | zero => exact fun _ _ _ _ _ _ _ _ _ => (wp_throw _).mpr trivial
  | succ fuel ih =>
    intro stripeId offset done numChunks w hoffset hdone hlock hm
    unfold readStripes
    rw [hint]
    by_cases hlt : (done : ℤ) < n
    · generalize hlen : min (n - done) (stat.stripeSize.val - offset) = len
      obtain ⟨hsize, hsize'⟩ := splitSize_stripe hn hoffset hdone hlen
      have hle : (len : ℤ) ≤ intMax := by omega
      rw [pieces_of_pos (by omega) (by omega), hlen, Nat.sub_sub, readableSpans, List.flatMap_cons,
        if_pos hlt]
      simp only [hsize, hsize']
      refine wp_bind_quiet hlock (fun _ => (upkeep_routed R _).emit rfl) fun _ w₁ hw₁ => ?_
      refine (wp_bind _ _).mpr (wp_mono (wp_processReadStripe_tries id stripeId _ offset len
        stat.chunkSize hle hw₁.1) (fun sent w₂ hw₂ => ?_) fun _ _ => trivial)
      rw [wp_bind, wp_get]
      refine wp_bind_quiet hw₂.1 (fun _ => (upkeep_routed R _).setFileCursor _ _ _) fun _ w₃ hw₃ => ?_
      have hmaps : w₁.chunks = m := (congrArg Routing.chunks hw₁.2).trans hm
      have hstripe := hw₂.2
      rw [hmaps, hw₁.2, ← hw₃.2] at hstripe
      have hmaps₃ : w₃.chunks = m := hstripe.chunks_eq.trans hm
      exact wp_mono (ih (stripeId + 1) 0 (done + len) (numChunks + sent) w₃ (Nat.zero_le _) (by omega)
        hw₃.1 hmaps₃) (fun _ w' hw' => hw'.imp_right hstripe.append) fun _ _ => trivial
    · have hzero : n - done = 0 := by omega
      rw [if_neg hlt, hzero, pieces_zero, wp_pure]
      exact ⟨hlock, .done⟩

/-- The loop of `write_file`, as tries. -/
theorem wp_writeStripes_tries (v : VolatileMetadata) (q : WriteRequest) (fd : ℤ)
    (stat : DecafsFileStat) {n : ℕ} (buf : List UInt8) (client : Client) (hn : n ≤ intMax)
    (fuel : ℕ) : ∀ (stripeId offset done : ℕ) (sent : ℕ × ℕ) (w : World),
      offset ≤ stat.stripeSize.val → done ≤ n → w.metaLock = none →
      wp (writeStripes R q fd f stat buf n client fuel stripeId offset done sent)
        (fun _ w' => Routed (WriteTries R v q f (portions (callSpans stat.chunkSize.val
          (pieces stat.stripeSize.val stripeId offset (n - done))) (buf.drop done)) (routing w)) w')
        (fun _ => True) w := by
  have hmin := stat.stripeSize.min_le
  have hchunk := stat.chunkSize.min_le
  have hint : toInt32 n = n := toInt32_eq (by omega) hn
  induction fuel with
  | zero => exact fun _ _ _ _ _ _ _ _ => (wp_throw _).mpr trivial
  | succ fuel ih =>
    intro stripeId offset done sent w hoffset hdone hlock
    unfold writeStripes
    rw [hint]
    by_cases hlt : (done : ℤ) < n
    · generalize hlen : min (n - done) (stat.stripeSize.val - offset) = len
      obtain ⟨hsize, hsize'⟩ := splitSize_stripe hn hoffset hdone hlen
      have hle : (len : ℤ) ≤ intMax := by omega
      rw [pieces_of_pos (by omega) (by omega), hlen, Nat.sub_sub, callSpans, List.flatMap_cons,
        portions_append, sum_length_stripeSpans (by omega), List.drop_drop, if_pos hlt]
      simp only [hsize, hsize', Int.toNat_natCast]
      refine wp_bind_quiet hlock (fun _ => (upkeep_routed R _).emit rfl) fun _ w₁ hw₁ => ?_
      refine (wp_bind _ _).mpr (wp_mono (wp_processWriteStripe_tries v q stripeId _ offset len
        stat.chunkSize (buf.drop done) hle hw₁.1) (fun sent w₂ hw₂ => ?_) fun _ _ => trivial)
      refine wp_bind_quiet hw₂.1 (fun _ => keeps_withMetadataLock _ _ _) fun _ w₃ hw₃ => ?_
      rw [wp_bind, wp_get]
      refine wp_bind_quiet hw₃.1 (fun _ => (upkeep_routed R _).setFileCursor _ _ _) fun _ w₄ hw₄ => ?_
      have hstripe := hw₂.2
      rw [hw₁.2, ← hw₃.2, ← hw₄.2] at hstripe
      exact wp_mono (ih (stripeId + 1) 0 (done + len) _ w₄ (Nat.zero_le _) (by omega) hw₄.1)
        (fun _ w' hw' => hw'.imp_right hstripe.append) fun _ _ => trivial
    · have hzero : n - done = 0 := by omega
      rw [if_neg hlt, hzero, pieces_zero, wp_pure]
      exact ⟨hlock, .done⟩

/-! ### Calls -/

/-- A count that an `int` holds. -/
theorem sizeArgument_natCast {n : ℕ} (hn : n ≤ intMax) : sizeArgument n = n := by
  have hint : toInt32 n = n := toInt32_eq (by omega) hn
  rw [sizeArgument, hint, toUInt64_eq] <;> unfold intMax at hn <;> omega

theorem wp_dispatchRead_tries (id : ℕ) (fd : ℤ) (stat : DecafsFileStat) (offset : ℕ) {n : ℕ}
    (client : Client) (hn : n ≤ intMax) (hlock : w.metaLock = none) :
    wp (dispatchRead R id fd f stat offset n client) (fun _ w' => Routed (ReadTries R id f
      (readableSpans R w.chunks f stat.chunkSize.val (segment stat offset n)) (routing w)) w')
      (fun _ => True) w := by
  have hmin := stat.stripeSize.min_le
  have hfinish : ∀ numChunks, (finishRead id numChunks).Keeps (Routed (ReadTries R id f
      (readableSpans R w.chunks f stat.chunkSize.val (segment stat offset n)) (routing w))) :=
    fun _ => .bind keeps_get fun _ => .bind (Enduring.assert _ _) fun _ =>
      .bind ((upkeep_routed R _).requests _) fun _ => (upkeep_routed R _).checkReadComplete _
  refine wp_bind_quiet hlock (fun _ => (upkeep_routed R _).requests _) fun _ w₁ hw₁ => ?_
  refine wp_bind_quiet hw₁.1 (fun _ => (upkeep_routed R _).emit rfl) fun _ w₂ hw₂ => ?_
  have hmaps : w₂.chunks = w.chunks := congrArg Routing.chunks (hw₂.2.trans hw₁.2)
  rw [getFirstStripe_eq]
  have hloop := wp_readStripes_tries (R := R) (f := f) id fd stat client w.chunks hn
    ((toInt32 n).toNat + 2) (firstBlock stat.stripeSize.val offset)
    (firstOffset stat.stripeSize.val offset) 0 0 w₂ (firstOffset_le (by omega)) (Nat.zero_le _)
    hw₂.1 hmaps
  rw [hw₂.2, hw₁.2] at hloop
  exact (wp_bind _ _).mpr (wp_mono hloop (fun _ w₃ hw₃ => hfinish _ w₃ hw₃) fun _ _ => trivial)

theorem wp_dispatchWrite_tries (v : VolatileMetadata) (q : WriteRequest) (fd : ℤ)
    (stat : DecafsFileStat) (offset : ℕ) {n : ℕ} (buf : List UInt8) (client : Client)
    (hn : n ≤ intMax) (hlock : w.metaLock = none) :
    wp (dispatchWrite R q fd f stat offset buf n client) (fun _ w' => Routed (WriteTries R v q f
      (portions (callSpans stat.chunkSize.val (segment stat offset n)) buf) (routing w)) w')
      (fun _ => True) w := by
  have hmin := stat.stripeSize.min_le
  have hfinish : ∀ numChunks, (finishWrite q numChunks).Keeps (Routed (WriteTries R v q f
      (portions (callSpans stat.chunkSize.val (segment stat offset n)) buf) (routing w))) :=
    fun _ => .bind keeps_get fun _ => .bind (Enduring.assert _ _) fun _ =>
      .bind ((upkeep_routed R _).requests _) fun _ => (upkeep_routed R _).checkWriteComplete _
  refine wp_bind_quiet hlock (fun _ => (upkeep_routed R _).requests _) fun _ w₁ hw₁ => ?_
  refine wp_bind_quiet hw₁.1 (fun _ => (upkeep_routed R _).emit rfl) fun _ w₂ hw₂ => ?_
  rw [getFirstStripe_eq]
  have hloop := wp_writeStripes_tries (R := R) (f := f) v q fd stat buf client hn
    ((toInt32 n).toNat + 2) (firstBlock stat.stripeSize.val offset)
    (firstOffset stat.stripeSize.val offset) 0 (0, 0) w₂ (firstOffset_le (by omega)) (Nat.zero_le _)
    hw₂.1
  rw [hw₂.2, hw₁.2] at hloop
  exact (wp_bind _ _).mpr (wp_mono hloop (fun _ w₃ hw₃ => hfinish _ w₃ hw₃) fun _ _ => trivial)

/-- Where chunks exist, a read sends for all spans. -/
theorem readableSpans_eq {chunkSize : ℕ} {ps : List Piece}
    (h : ∀ s ∈ callSpans chunkSize ps, chunkExists R w.chunks.chunkToNode (s.chunk f) = true) :
    readableSpans R w.chunks f chunkSize ps = callSpans chunkSize ps := by
  refine List.flatMap_congr fun p hp => List.takeWhile_eq_self_iff.mpr fun s hs => ?_
  exact h s (List.mem_flatMap.mpr ⟨p, hp, hs⟩)

/-! ### The packets of a call -/

/-- The chunk packets `rs` were sent between the two states, in this order. -/
def Asked (w w' : World) (rs : List ChunkRequest) : Prop :=
  ∃ sent, sends w'.network.log = sends w.network.log ++ sent ∧ sent.map Prod.snd = rs

theorem sends_eq_attempts (log : List Event) : sends log =
    ((log.filterMap Event.attempt).reverse.filter Attempt.accepted).map fun t =>
      (t.node, t.request) := by
  induction log with
  | nil => rfl
  | cons e log ih => cases e <;> simp [sends, List.filterMap_cons, Event.attempt, ih]

theorem Routing.Sends.asked {rs : List ChunkRequest} (h : (routing w).Sends (routing w') rs) :
    Asked w w' rs := by
  obtain ⟨new, hnew, hall, hrs⟩ := h
  have hfilter : new.reverse.filter Attempt.accepted = new.reverse :=
    List.filter_eq_self.mpr fun t ht => hall t (List.mem_reverse.mp ht)
  have hnew' : w'.network.log.filterMap Event.attempt =
      new ++ w.network.log.filterMap Event.attempt := hnew
  refine ⟨new.reverse.map fun t => (t.node, t.request), ?_, ?_⟩
  · rw [sends_eq_attempts, sends_eq_attempts, hnew', List.reverse_append, List.filter_append,
      List.map_append, hfilter]
  · rw [List.map_map, ← hrs]
    rfl

/-- The descriptor `fd` is at `o` in the file that `info` describes, and nobody holds the metadata
lock. -/
structure Positioned (info : PersistentMetadataInfo) (o : ℕ) (fd : ℤ) (w : World) : Prop where
  unlocked : w.metaLock = none
  file : w.persistent.metadata.lookup (w.fileAt fd) = some info
  cursor : w.volatile.getFileCursor (fdKey fd) = o

end

/-! ### The sizes of the files -/

/-- The sizes of the files are nonnegative `int`s, as `read_file` takes them. -/
def IntSizes (p : PersistentMetadata) : Prop :=
  ∀ f info, p.metadata.lookup f = some info → info.size ≤ intMax

section

variable {R : Runtime} {p : PersistentMetadata} {w w' : World} {is : List Input}

theorem IntSizes.without (h : IntSizes p) (f : ℕ) : IntSizes (p.without f) := by
  intro f' info hinfo
  have hne : f' ≠ f := by
    rintro rfl
    simp at hinfo
  rw [PersistentMetadata.lookup_without_of_ne hne] at hinfo
  exact h f' info hinfo

theorem IntSizes.insert (h : IntSizes p) (f : ℕ) (info : PersistentMetadataInfo)
    (hsize : info.size ≤ intMax) (names : Finmap fun _ : String => ℕ) (last : ℕ) :
    IntSizes ⟨names, p.metadata.insert f info, last⟩ := by
  intro f' info' hinfo
  change (p.metadata.insert f info).lookup f' = some info' at hinfo
  rcases eq_or_ne f' f with rfl | hne
  · rw [Finmap.lookup_insert] at hinfo
    exact Option.some.inj hinfo ▸ hsize
  · rw [Finmap.lookup_insert_of_ne _ hne] at hinfo
    exact h f' info' hinfo

theorem newSize_le_intMax (size : ℕ) (delta : ℤ) :
    PersistentMetadata.newSize size delta ≤ intMax := by
  unfold PersistentMetadata.newSize toInt32 toUInt32 intMax
  split_ifs <;> omega

theorem IntSizes.resized (h : IntSizes p) (f : ℕ) (delta : ℤ) : IntSizes (p.resized f delta) := by
  unfold PersistentMetadata.resized
  cases p.metadata.lookup f with
  | none => exact h
  | some info =>
    refine h.insert f _ ?_ _ _
    simpa only using newSize_le_intMax info.size delta

/-- **The step lemma.** -/
theorem IntSizes.step {i : Input} (h : IntSizes w.persistent) (hrested : Rested w)
    (hstep : Barista.step R w i w') : IntSizes w'.persistent := by
  by_cases hopen : ∃ path flags client, i = .openFile path flags client
  · obtain ⟨path, flags, client, rfl⟩ := hopen
    obtain ⟨-, hcreates, hkeeps⟩ := step_openFile_filing hrested.unlocked hstep
    by_cases hnew : Creates w (.openFile path flags client)
    · obtain ⟨time, hp⟩ := hcreates hnew
      rw [hp]
      have hzero : ((0 : ℕ) : ℤ) ≤ intMax := by decide
      exact h.insert _ ⟨_, 0, _, _, _, path, time⟩ hzero _ _
    · rw [hkeeps hnew]
      exact h
  · push Not at hopen
    exact (step_filing (fun _ f h => h.without f) (fun _ f delta h => h.resized f delta)
      ⟨hrested.unlocked, h⟩ hopen hstep).2

/-- **The run lemma**: what files are read and written in a run have such sizes. -/
theorem IntSizes.run (h : IntSizes w.persistent) (hrested : Rested w)
    (hrun : Steps (Barista.step R) w is w') : IntSizes w'.persistent := by
  have hboth : IntSizes w'.persistent ∧ Rested w' :=
    hrun.invariant (I := fun w => IntSizes w.persistent ∧ Rested w)
      (fun _ _ _ hs hstep => ⟨hs.1.step hs.2 hstep, hs.2.step hstep⟩) ⟨h, hrested⟩
  exact hboth.1

end

/-! ### Reads and writes -/

/-- A write of `n` bytes sends each of the spans `l` with its bytes of `buf`, once to a primary and once
to a replica. It returns unless the sends run out. -/
structure WritesSpans (R : Runtime) (n : ℕ) (l : List Span) (fd : ℤ) (buf : List UInt8)
    (client : Client) (script : List SendOutcome) (w : World) : Prop where
  sends : ∀ w', step R w (.writeFile fd buf n client script) w' → InBounds w w' ∧
    ∃ (q : WriteRequest) (parts : List (Span × List UInt8)), parts.map Prod.fst = l ∧
      parts.flatMap Prod.snd = buf.take n ∧
      (parts.flatMap fun e => e.1.bytes.zip e.2) = (l.flatMap Span.bytes).zip buf ∧
      Asked w w' (parts.flatMap fun e => [writePacket q.requestId (w.fileAt fd) e.1 e.2,
        writePacket q.replicaRequestId (w.fileAt fd) e.1 e.2])
  returns : Running w → w.volatile.requestId + 2 < 4294967296 → 0 < fd → client.userId ≠ 0 →
    2 * l.length ≤ script.length → ∃ w', step R w (.writeFile fd buf n client script) w'

/-- A read of `n` bytes asks for each of the spans `l`. It returns unless the sends run out or a chunk
has neither its node nor a replica. -/
structure ReadsSpans (R : Runtime) (n : ℕ) (l : List Span) (fd : ℤ) (client : Client)
    (script : List SendOutcome) (w : World) : Prop where
  sends : ∀ w', step R w (.readFile fd n client script) w' → InBounds w w' ∧
    ∃ id, Asked w w' (l.map (readPacket id (w.fileAt fd)))
  returns : Running w → w.volatile.requestId + 1 < 4294967296 → 0 < fd → client.userId ≠ 0 →
    (∀ s ∈ l, chunkExists R w.chunks.chunkToReplicaNode (s.chunk (w.fileAt fd)) = true) →
    l.length ≤ script.length → ∃ w', step R w (.readFile fd n client script) w'

section

variable {R : Runtime} {w : World} {info : PersistentMetadataInfo} {o n : ℕ} {fd : ℤ}
  {client : Client} {script : List SendOutcome}

theorem allAccepted_withScript (haccepted : ∀ s ∈ script, s.accepted = true) :
    (routing (withScript script w)).AllAccepted := by
  intro o ho
  obtain ⟨s, hs, rfl⟩ := List.mem_map.mp ho
  exact haccepted s hs

theorem countP_accepted (haccepted : ∀ s ∈ script, s.accepted = true) :
    script.countP (·.accepted) = script.length :=
  List.countP_eq_length.mpr haccepted

/-- **A write sends its spans.** -/
theorem Positioned.writesSpans (h : Positioned info o fd w) (hn : 0 < n) (hle : n ≤ intMax)
    (haccepted : ∀ s ∈ script, s.accepted = true)
    (hheld : HoldsExclusive (w.fileLocks.record (w.fileAt fd)) client) (buf : List UInt8) :
    WritesSpans R n (callSpans info.chunkSize.val
      (segment (PersistentMetadata.toStat info) o n)) fd buf client script w := by
  have hint : toInt32 n = n := toInt32_eq (by omega) hle
  have hpass : writeRefusal fd (sizeArgument n) client w = none := by
    have hfile : (w.volatile.getFileInfo (fdKey fd)).fileId = w.fileAt fd := rfl
    have hstat : w.persistent.metadata.lookup (w.volatile.getFileInfo (fdKey fd)).fileId = some info :=
      h.file
    have hzero : ¬ sizeArgument n = 0 := by
      rw [sizeArgument_natCast hle]
      omega
    have hneg : ¬ w.volatile.getFileCursor (fdKey fd) < 0 := by
      rw [h.cursor]
      omega
    simp only [writeRefusal, hstat, hfile, hheld, hneg, hzero, not_true_eq_false, if_false]
  have htiles : Tiles info.stripeSize info.chunkSize o n (callSpans info.chunkSize.val
      (segment (PersistentMetadata.toStat info) o n)) :=
    tiles_spans info.stripeSize info.chunkSize o n
  refine ⟨fun w' hstep => ?_, fun hrun hids hfd huser hlong => ?_⟩
  · have hbounds : InBounds w w' :=
      (wp_scripted.mpr (keeps_writeFile_inBounds (R := R) fd buf n client (withScript script w)
        (InBounds.refl _))).of_ok hstep
    refine ⟨hbounds, ?_⟩
    have hwrite : wp (writeFile R fd buf (sizeArgument n) client) (fun _ w' => ∃ q : WriteRequest, Asked w w'
        ((portions (callSpans info.chunkSize.val (segment (PersistentMetadata.toStat info) o n))
          buf).flatMap fun e => [writePacket q.requestId (w.fileAt fd) e.1 e.2,
            writePacket q.replicaRequestId (w.fileAt fd) e.1 e.2]))
        (fun _ => True) (withScript script w) := by
      refine Enduring.wp_writeFile_unmoved (w := withScript script w) h.unlocked fd buf _
        (fun reply hreply => absurd (hpass.symm.trans hreply) (by simp)) ?_
      intro q info' w₁ hw₁ _ hinfo' offset hoffset
      obtain rfl : info = info' := Option.some.inj (h.file.symm.trans hinfo')
      obtain rfl : o = offset := Int.ofNat_inj.mp (h.cursor.symm.trans hoffset)
      rw [sizeArgument_natCast hle]
      refine wp_mono (wp_dispatchWrite_tries w.volatile q fd _ o buf client hle
        (hw₁.metaLock.trans h.unlocked)) (fun _ w₂ hw₂ => ⟨q, ?_⟩) fun _ _ => trivial
      have hall := allAccepted_withScript (w := w) haccepted
      rw [← hw₁.routing] at hall
      have hsent := hw₂.2.sends hall
      rw [hw₁.routing] at hsent
      exact hsent.asked
    obtain ⟨q, hq⟩ := (wp_scripted.mpr hwrite).of_ok hstep
    refine ⟨q, _, map_fst_portions _ buf, ?_, flatMap_zip_portions _ buf, hq⟩
    rw [flatMap_snd_portions, sum_length_of_tiles htiles]
  · have hserved := wp_writeFile_served (R := R) fd n buf client (hrun.booked.withScript script) hids
    have htotal : wp (handle R (.writeFile fd buf n client script)) (fun _ _ => True)
        (fun _ => False) w := by
      refine wp_scripted.mpr (wp_mono hserved (fun _ _ _ => trivial) fun e he => ?_)
      rcases he with ⟨-, hneg⟩ | ⟨-, h₀⟩ | ⟨info', hinfo', -, hshort⟩
      · exact hneg hfd
      · exact huser h₀
      · obtain rfl : info = info' := Option.some.inj (h.file.symm.trans hinfo')
        have hspans : writeSpans info fd n (withScript script w) =
            callSpans info.chunkSize.val (segment (PersistentMetadata.toStat info) o n) := by
          have hcursor : (withScript script w).volatile.getFileCursor (fdKey fd) = o := h.cursor
          rw [writeSpans_eq _ info n hcursor, hint]
          rfl
        rw [hspans, length_portions] at hshort
        have hall : (withScript script w).network.script.countP (·.accepted) = script.length :=
          countP_accepted haccepted
        omega
    obtain ⟨_, w', hstep, -⟩ := htotal.exists_ok
    exact ⟨w', hstep⟩

/-- **A read sends for its spans.** -/
theorem Positioned.readsSpans (h : Positioned info o fd w) (hn : 0 < n) (hle : n ≤ intMax)
    (haccepted : ∀ s ∈ script, s.accepted = true) (hmay : MayRead w client (w.fileAt fd))
    (hlt : o < info.size) (hsize : info.size ≤ intMax)
    (hexists : ∀ s ∈ callSpans info.chunkSize.val (segment (PersistentMetadata.toStat info) o n),
      chunkExists R w.chunks.chunkToNode (s.chunk (w.fileAt fd)) = true) :
    ReadsSpans R n (callSpans info.chunkSize.val
      (segment (PersistentMetadata.toStat info) o n)) fd client script w := by
  have hint : toInt32 n = n := toInt32_eq (by omega) hle
  have hpass : readRefusal fd (sizeArgument n) client w = none := by
    have hfile : (w.volatile.getFileInfo (fdKey fd)).fileId = w.fileAt fd := rfl
    have hstat : w.persistent.metadata.lookup (w.volatile.getFileInfo (fdKey fd)).fileId = some info :=
      h.file
    have hneg : ¬ w.volatile.getFileCursor (fdKey fd) < 0 := by
      rw [h.cursor]
      omega
    have hend : ¬ (w.volatile.getFileCursor (fdKey fd) ≥ toInt32 info.size ∨ sizeArgument n = 0) := by
      rw [h.cursor, sizeArgument_natCast hle, toInt32_eq (by omega) hsize]
      omega
    simp only [readRefusal, hstat, hfile, hmay, hneg, hend, not_true_eq_false, if_false]
  have hspans : readableSpans R w.chunks (w.fileAt fd) info.chunkSize.val
      (segment (PersistentMetadata.toStat info) o n) =
        callSpans info.chunkSize.val (segment (PersistentMetadata.toStat info) o n) :=
    readableSpans_eq hexists
  refine ⟨fun w' hstep => ?_, fun hrun hids hfd huser hreplica hlong => ?_⟩
  · have hbounds : InBounds w w' :=
      (wp_scripted.mpr (keeps_readFile_inBounds (R := R) fd n client (withScript script w)
        (InBounds.refl _))).of_ok hstep
    refine ⟨hbounds, ?_⟩
    have hread : wp (readFile R fd (sizeArgument n) client) (fun _ w' => ∃ id, Asked w w'
        ((callSpans info.chunkSize.val (segment (PersistentMetadata.toStat info) o n)).map
          (readPacket id (w.fileAt fd)))) (fun _ => True) (withScript script w) := by
      refine Enduring.wp_readFile_unmoved (w := withScript script w) h.unlocked fd _
        (fun reply hreply => absurd (hpass.symm.trans hreply) (by simp)) ?_
      intro id info' w₁ hw₁ _ hinfo' offset hoffset
      obtain rfl : info = info' := Option.some.inj (h.file.symm.trans hinfo')
      obtain rfl : o = offset := Int.ofNat_inj.mp (h.cursor.symm.trans hoffset)
      rw [sizeArgument_natCast hle]
      refine wp_mono (wp_dispatchRead_tries id fd _ o client hle
        (hw₁.metaLock.trans h.unlocked)) (fun _ w₂ hw₂ => ⟨id, ?_⟩) fun _ _ => trivial
      have hmaps : w₁.chunks = w.chunks := congrArg Routing.chunks hw₁.routing
      have hall := allAccepted_withScript (w := w) haccepted
      rw [← hw₁.routing] at hall
      have hsent := hw₂.2.sends hall
      rw [hmaps, hw₁.routing] at hsent
      rw [← hspans]
      exact hsent.asked
    exact (wp_scripted.mpr hread).of_ok hstep
  · have hserved := wp_readFile_served (R := R) fd n client (hrun.booked.withScript script) hids
    have htotal : wp (handle R (.readFile fd n client script)) (fun _ _ => True)
        (fun _ => False) w := by
      refine wp_scripted.mpr (wp_mono hserved (fun _ _ _ => trivial) fun e he => ?_)
      rcases he with ⟨-, hneg⟩ | ⟨-, h₀⟩ | ⟨info', hinfo', hstops⟩
      · exact hneg hfd
      · exact huser h₀
      · obtain rfl : info = info' := Option.some.inj (h.file.symm.trans hinfo')
        have hread : readSpans R info fd n (withScript script w) =
            callSpans info.chunkSize.val (segment (PersistentMetadata.toStat info) o n) := by
          have hcursor : (withScript script w).volatile.getFileCursor (fdKey fd) = o := h.cursor
          rw [readSpans, segmentAt, hcursor, hint, Int.toNat_natCast, Int.toNat_natCast, ← hspans]
          rfl
        rw [hread] at hstops
        rcases hstops with ⟨-, s, hs, hnone⟩ | ⟨-, hshort⟩
        · exact Bool.false_ne_true (hnone.symm.trans (hreplica s hs))
        · have hall : (withScript script w).network.script.countP (·.accepted) = script.length :=
            countP_accepted haccepted
          omega
    obtain ⟨_, w', hstep, -⟩ := htotal.exists_ok
    exact ⟨w', hstep⟩

/-- **Striping is a tiling, the same for reads and writes.** At a cursor `o`, for a count `n` and any
sizes, there are spans that cover the `n` bytes once and in order, each byte at its place. A write sends
them, a read below the end of a file whose chunks exist asks for them, and both stay in bounds. -/
theorem striping (R : Runtime) (stripeSize : StripeSize) (chunkSize : ChunkSize) {o n : ℕ}
    (hn : 0 < n) (hle : ((o + n : ℕ) : ℤ) ≤ intMax) :
    ∃ l, Tiles stripeSize chunkSize o n l ∧
      ∀ (w : World) (info : PersistentMetadataInfo) (fd : ℤ) (client : Client)
        (script : List SendOutcome), info.stripeSize = stripeSize → info.chunkSize = chunkSize →
        Positioned info o fd w → (∀ s ∈ script, s.accepted = true) →
        (HoldsExclusive (w.fileLocks.record (w.fileAt fd)) client → ∀ buf,
          WritesSpans R n l fd buf client script w) ∧
        (MayRead w client (w.fileAt fd) → o < info.size → IntSizes w.persistent →
          (∀ s ∈ l, chunkExists R w.chunks.chunkToNode (s.chunk (w.fileAt fd)) = true) →
          ReadsSpans R n l fd client script w) := by
  have hle' : (n : ℤ) ≤ intMax := by omega
  refine ⟨spans stripeSize.val chunkSize.val o n, tiles_spans stripeSize chunkSize o n, ?_⟩
  rintro w info fd client script rfl rfl hat haccepted
  exact ⟨fun hheld buf => hat.writesSpans hn hle' haccepted hheld buf,
    fun hmay hlt hsizes hexists => hat.readsSpans hn hle' haccepted hmay hlt (hsizes _ _ hat.file) hexists⟩

/-- Three bytes at the beginning of a new file. -/
theorem striping_sample : ∃ (w w' : World) (l : List Span) (q : WriteRequest)
    (parts : List (Span × List UInt8)), Steps (step sampleRuntime) sampleServer
      [.openFile "a" oRdwr (sampleClient 1)] w ∧
    step sampleRuntime w (.writeFile 1 [4, 5, 6] 3 (sampleClient 1) [⟨true, []⟩, ⟨true, []⟩]) w' ∧
    Tiles sampleServer.volatile.stripeSize sampleServer.volatile.chunkSize 0 3 l ∧
    parts.map Prod.fst = l ∧ Asked w w' (parts.flatMap fun e =>
      [writePacket q.requestId (w.fileAt 1) e.1 e.2,
        writePacket q.replicaRequestId (w.fileAt 1) e.1 e.2]) := by
  let info : PersistentMetadataInfo := ⟨1, 0, sampleServer.volatile.stripeSize,
    sampleServer.volatile.chunkSize, 128, "a", {}⟩
  let write : Input := .writeFile 1 [4, 5, 6] 3 (sampleClient 1) [⟨true, []⟩, ⟨true, []⟩]
  obtain ⟨w, hrun, hend⟩ := exists_steps (R := sampleRuntime) (w := sampleServer)
    [.openFile "a" oRdwr (sampleClient 1)]
    (p := fun w => (w.metaLock = none ∧ w.persistent.metadata.lookup (w.fileAt 1) = some info ∧
      w.volatile.getFileCursor (fdKey 1) = 0) ∧
        HoldsExclusive (w.fileLocks.record (w.fileAt 1)) (sampleClient 1) ∧
          (handle sampleRuntime write w).toOption.isSome) (by decide +kernel)
  obtain ⟨⟨hlock, hfile, hcursor⟩, hheld, hsome⟩ := of_decide_eq_true hend
  obtain ⟨w', hw'⟩ : ∃ w', step sampleRuntime w write w' := by
    cases hhandle : handle sampleRuntime write w with
    | ok p => exact ⟨p.2, hhandle⟩
    | error e => simp [hhandle, Except.toOption] at hsome
  have hpos : (0 : ℕ) < 3 := by decide
  have hle : ((0 + 3 : ℕ) : ℤ) ≤ intMax := by decide
  obtain ⟨l, htiles, hcalls⟩ := striping sampleRuntime info.stripeSize info.chunkSize hpos hle
  have haccepted : ∀ s ∈ ([⟨true, []⟩, ⟨true, []⟩] : List SendOutcome), s.accepted = true := by
    decide
  obtain ⟨-, q, parts, hparts, -, -, hasked⟩ := ((hcalls w info 1 (sampleClient 1) _ rfl rfl
    ⟨hlock, hfile, hcursor⟩ haccepted).1 hheld [4, 5, 6]).sends w' hw'
  exact ⟨w, w', l, q, parts, hrun, hw', htiles, hparts, hasked⟩

end

end DecaFS
