import DecaFS.NetworkCore.RoundTrip

/-!
# Packets out of a byte stream

`BaristaServer::handleMessageFromClient` and `EspressoClient::handleMessageFromServer` begin in
the same way: a `recv` with `MSG_PEEK` for the size, a `malloc` of that size, one `recv` for the
packet, and the flag out of its third word. Neither call is repeated when it returns less than
it was asked for. `Cut` is what the two calls of one message return, with what was in the memory
they write to.

`framing_iff` says when the packets that were written come out again: each packet was there as a
whole when it was read. `splitClose` is one that was not.
-/

namespace DecaFS

/-- How one message meets the stream. -/
structure Cut where
  /-- The memory of `packet_size`, which is not initialised. -/
  stack : ℕ → UInt8
  /-- The memory that `malloc` finds. -/
  heap : ℕ → UInt8
  /-- The result of the `recv` with `MSG_PEEK`. -/
  peeked : ℕ
  /-- The result of the other `recv`. -/
  taken : ℕ

/-- A packet as a receiver passes it on: the case of its `switch`, and the bytes. -/
abbrev Dispatched := Option PacketFlag × List UInt8

/-- The cases of the `switch` in `BaristaServer::handleMessageFromClient`. -/
def BaristaServer.cases : List PacketFlag :=
  [.fileStorageStat, .mkdir, .remove, .opendir, .open, .read, .write, .close, .espressoInit,
    .decafsClientInit, .readChunkResponse, .writeChunkResponse, .deleteChunkResponse, .lseek]

/-- The cases of the `switch` in `EspressoClient::handleMessageFromServer`. -/
def EspressoClient.cases : List PacketFlag := [.readChunk, .writeChunk, .deleteChunk]

/-- `flag = ((uint32_t *)buffer_ptr)[2]`, and the case it selects. -/
def dispatched (cases : List PacketFlag) (buffer : List UInt8) : Dispatched :=
  (cases.find? fun flag => flag.ctorIdx = getWord buffer 8, buffer)

namespace Cut

variable (c : Cut) (stream : List UInt8)

/-- `packet_size` after the first `recv`. -/
def packetSize : ℤ := toInt32 (getWord (patch (malloc c.stack 4) 0 (stream.take c.peeked)) 0)

/-- What `buffer_ptr` points at after the second `recv`. -/
def buffer : List UInt8 :=
  patch (malloc c.heap (c.packetSize stream).toNat) 0 (stream.take c.taken)

/-- Each `recv` returns some of what it was asked for, and not more than there is. -/
def Fits : Prop :=
  (0 < c.peeked ∧ c.peeked ≤ 4 ∧ c.peeked ≤ stream.length) ∧
    (0 < c.packetSize stream →
      0 < c.taken ∧ c.taken ≤ c.packetSize stream ∧ c.taken ≤ stream.length)

instance : Decidable (c.Fits stream) := inferInstanceAs (Decidable (_ ∧ (_ → _)))

end Cut

/-- One message: the packet that is passed on and the rest of the stream. With less than twelve
bytes the flag is read from outside of them, or through the null pointer; nothing is known from
there on. -/
def handleMessage (cases : List PacketFlag) (c : Cut) (stream : List UInt8) :
    Option (Dispatched × List UInt8) :=
  if c.packetSize stream < Packet.headerSize then none
  else some (dispatched cases (c.buffer stream), stream.drop c.taken)

/-- `BaristaServer::handleMessageFromClient` -/
def handleMessageFromClient := handleMessage BaristaServer.cases

/-- `EspressoClient::handleMessageFromServer` -/
def handleMessageFromServer := handleMessage EspressoClient.cases

/-- The packets passed on while there is something in the stream. -/
def passedOn (handle : Cut → List UInt8 → Option (Dispatched × List UInt8)) :
    List Cut → List UInt8 → List (Option Dispatched)
  | [], _ => []
  | c :: cs, stream =>
    match handle c stream with
    | none => [none]
    | some (p, rest) => some p :: passedOn handle cs rest

/-- `cs` cuts the whole stream. -/
def Delivers : List Cut → List UInt8 → Prop
  | [], stream => stream = []
  | c :: cs, stream => c.Fits stream ∧ (c.packetSize stream < Packet.headerSize → cs = []) ∧
    (Packet.headerSize ≤ c.packetSize stream → Delivers cs (stream.drop c.taken))

/-- The bytes of a packet begin with their number, and there are enough for a header. -/
def WellFormed (p : List UInt8) : Prop :=
  Packet.headerSize ≤ p.length ∧ p.length ≤ intMax ∧ getWord p 0 = p.length

instance {p : List UInt8} : Decidable (WellFormed p) := inferInstanceAs (Decidable (_ ∧ _ ∧ _))

/-- The second `recv` takes the whole packet, and the first one got its size, or found what it
did not get in memory already. -/
def Cut.Whole (c : Cut) (p : List UInt8) : Prop :=
  c.taken = p.length ∧ ∀ i, c.peeked ≤ i → i < 4 → p[i]? = some (c.stack i)

/-! ### One message -/

variable {cases : List PacketFlag} {c : Cut} {cuts : List Cut} {p s stream : List UInt8}
  {packets : List (List UInt8)} {i : ℕ}

theorem getElem?_malloc {junk : ℕ → UInt8} {n : ℕ} (h : i < n) :
    (malloc junk n)[i]? = some (junk i) := by
  simp [malloc, h]

/-- The packets that the library builds are well formed. -/
theorem Packet.Laid.wellFormed {p : Packet} {id flag : ℤ} {fields : List ℤ} {tail : List UInt8}
    (h : p.Laid id flag fields tail) (hmax : p.packetSize ≤ intMax) : WellFormed p.packet := by
  have hsize := h.packetSize_eq
  have hword : DecaFS.getWord p.packet 0 = toUInt32 p.packetSize := by
    rw [h.packet_eq]
    exact getWord_words (i := 0) rfl
  have hlen := h.length_eq
  refine ⟨?_, hlen ▸ hmax, ?_⟩
  · simp only [Packet.headerSize]
    omega
  · rw [hword, h.packetSize_range, hlen]

theorem WellFormed.four_le (h : WellFormed p) : 4 ≤ p.length :=
  le_trans (by decide) h.1

/-- The first `recv` looks at the packet in front only. -/
theorem Cut.packetSize_append (hc : c.peeked ≤ 4) (hp : WellFormed p) :
    c.packetSize (p ++ s) = c.packetSize p := by
  rw [packetSize, List.take_append_of_le_length (hc.trans hp.four_le), packetSize]

/-- The size is read correctly if and only if the bytes that were not peeked are in memory. -/
theorem Cut.packetSize_eq_iff (hc : c.peeked ≤ 4) (hp : WellFormed p) :
    c.packetSize p = p.length ↔ ∀ i, c.peeked ≤ i → i < 4 → p[i]? = some (c.stack i) := by
  have htake : (p.take c.peeked).length = c.peeked :=
    List.length_take_of_le (hc.trans hp.four_le)
  set mem := patch (malloc c.stack 4) 0 (p.take c.peeked) with hmem
  have hlen : mem.length = 4 := by
    rw [hmem, length_patch (by rw [htake, length_malloc]; omega), length_malloc]
  have hget (i : ℕ) (hi : i < 4) :
      mem[i]? = if i < c.peeked then p[i]? else some (c.stack i) := by
    rw [hmem, getElem?_patch (Nat.zero_le _), htake, getElem?_malloc hi]
    split_ifs with h₁ h₂ h₂
    · exact List.getElem?_take_of_lt h₂
    · omega
    · omega
    · rfl
  constructor
  · intro h i hi hi'
    have hsame : mem = p.take 4 := by
      refine eq_of_getWord_eq hlen (List.length_take_of_le hp.four_le) ?_
      have hword : 0 ≤ getWord mem 0 ∧ getWord mem 0 < 4294967296 := getWord_mem
      have hsize : toInt32 (getWord mem 0) = p.length := h
      rw [getWord_take, hp.2.2]
      unfold toInt32 at hsize
      omega
    have := hget i hi'
    rw [hsame, List.getElem?_take_of_lt hi', if_neg (by omega)] at this
    exact this
  · intro h
    have hsame : mem = p.take 4 := by
      refine List.ext_getElem? fun i => ?_
      rcases Nat.lt_or_ge i 4 with hi | hi
      · rw [hget i hi, List.getElem?_take_of_lt hi]
        split_ifs with hlt
        · rfl
        · exact (h i (not_lt.mp hlt) hi).symm
      · rw [List.getElem?_eq_none (by omega), List.getElem?_eq_none (by simp; omega)]
    rw [packetSize, ← hmem, hsame, getWord_take, hp.2.2]
    exact toInt32_eq (by omega) hp.2.1

theorem Cut.Fits.length_buffer (h : c.Fits stream) (hsize : 0 < c.packetSize stream) :
    ((c.buffer stream).length : ℤ) = c.packetSize stream := by
  obtain ⟨-, htaken, hstream⟩ := h.2 hsize
  have hroom : 0 + (stream.take c.taken).length ≤
      (malloc c.heap (c.packetSize stream).toNat).length := by
    rw [List.length_take_of_le hstream, length_malloc]
    omega
  rw [Cut.buffer, length_patch hroom, length_malloc]
  omega

/-- A packet that is read as a whole is passed on as it is. -/
theorem handleMessage_whole (hp : WellFormed p) (hfits : c.Fits (p ++ s)) (hc : c.Whole p) :
    handleMessage cases c (p ++ s) = some (dispatched cases p, s) := by
  have hsize : c.packetSize (p ++ s) = p.length :=
    (Cut.packetSize_append hfits.1.2.1 hp).trans ((Cut.packetSize_eq_iff hfits.1.2.1 hp).mpr hc.2)
  have hheader : (Packet.headerSize : ℤ) ≤ p.length := by exact_mod_cast hp.1
  have hbuffer : c.buffer (p ++ s) = p := by
    rw [Cut.buffer, hsize, Int.toNat_natCast, hc.1, List.take_left, patch, Nat.zero_add,
      List.take_zero, List.nil_append, List.drop_eq_nil_of_le length_malloc.le, List.append_nil]
  rw [handleMessage, if_neg (by omega), hbuffer, hc.1, List.drop_left]

/-! ### The whole stream -/

section

variable {handle : Cut → List UInt8 → Option (Dispatched × List UInt8)} {d : Dispatched}
  {rest : List UInt8}

theorem passedOn_cons_some (h : handle c stream = some (d, rest)) :
    passedOn handle (c :: cuts) stream = some d :: passedOn handle cuts rest := by
  rw [passedOn, h]

theorem passedOn_cons_none (h : handle c stream = none) :
    passedOn handle (c :: cuts) stream = [none] := by
  rw [passedOn, h]

end

/-- If the packets came out, then so did the first, out of what is at least as long. -/
theorem Delivers.of_cons (h : Delivers (c :: cuts) stream)
    (hgot : passedOn (handleMessage cases) (c :: cuts) stream =
      packets.map (some ∘ dispatched cases)) :
    ∃ p ps, packets = p :: ps ∧ c.Fits stream ∧ Delivers cuts (stream.drop c.taken) ∧
      passedOn (handleMessage cases) cuts (stream.drop c.taken) =
        ps.map (some ∘ dispatched cases) ∧
      c.packetSize stream = p.length ∧ c.taken ≤ p.length ∧ c.taken ≤ stream.length := by
  obtain ⟨hfits, -, hrest⟩ := h
  by_cases hsize : c.packetSize stream < Packet.headerSize
  · rw [passedOn_cons_none (if_pos hsize)] at hgot
    cases packets with
    | nil => exact absurd hgot (List.cons_ne_nil _ _)
    | cons p ps => exact absurd (List.cons.inj hgot).1.symm (Option.some_ne_none _)
  · rw [passedOn_cons_some (if_neg hsize)] at hgot
    cases packets with
    | nil => exact absurd hgot (List.cons_ne_nil _ _)
    | cons p ps =>
      obtain ⟨hhead, htail⟩ := List.cons.inj hgot
      have hbuffer : c.buffer stream = p := congrArg Prod.snd (Option.some.inj hhead)
      have hpos : 0 < c.packetSize stream := by
        simp only [Packet.headerSize] at hsize
        omega
      have hlen := hfits.length_buffer hpos
      obtain ⟨-, htaken, hstream⟩ := hfits.2 hpos
      rw [hbuffer] at hlen
      exact ⟨p, ps, rfl, hfits, hrest (not_lt.mp hsize), htail, hlen.symm, by omega, hstream⟩

/-- No byte is lost: what comes out is at least as long as the stream. -/
theorem Delivers.length_le (h : Delivers cuts stream)
    (hgot : passedOn (handleMessage cases) cuts stream =
      packets.map (some ∘ dispatched cases)) :
    stream.length ≤ packets.flatten.length := by
  induction cuts generalizing stream packets with
  | nil =>
    have hnil : stream = [] := h
    rw [hnil]
    exact Nat.zero_le _
  | cons c cuts ih =>
    obtain ⟨p, ps, rfl, -, hrest, htail, -, htaken, hstream⟩ := h.of_cons hgot
    have hle := ih hrest htail
    rw [List.length_drop] at hle
    rw [List.flatten_cons, List.length_append]
    omega

/-- The packets come out as they were written if and only if each was there as a whole. -/
theorem passedOn_handleMessage_iff (hwf : ∀ p ∈ packets, WellFormed p) (h : Delivers cuts packets.flatten) :
    passedOn (handleMessage cases) cuts packets.flatten = packets.map (some ∘ dispatched cases) ↔
      List.Forall₂ Cut.Whole cuts packets := by
  induction cuts generalizing packets with
  | nil =>
    cases packets with
    | nil => exact iff_of_true rfl List.Forall₂.nil
    | cons p ps =>
      have hnil : p ++ ps.flatten = [] := h
      have := (hwf p List.mem_cons_self).four_le
      rw [(List.append_eq_nil_iff.mp hnil).1] at this
      exact absurd this (by decide)
  | cons c cuts ih =>
    constructor
    · intro hgot
      obtain ⟨p, ps, rfl, hfits, hrest, htail, hsize, htaken, -⟩ := h.of_cons hgot
      have hp := hwf p List.mem_cons_self
      rw [List.flatten_cons] at hfits hrest htail hsize
      have hlen := hrest.length_le htail
      rw [List.length_drop, List.length_append] at hlen
      -- the bytes that were not taken would have to come out of later messages
      have hwhole : c.taken = p.length := by omega
      rw [hwhole, List.drop_left] at hrest htail
      refine List.Forall₂.cons ⟨hwhole, ?_⟩
        ((ih (fun q hq => hwf q (List.mem_cons_of_mem p hq)) hrest).mp htail)
      rw [Cut.packetSize_append hfits.1.2.1 hp] at hsize
      exact (Cut.packetSize_eq_iff hfits.1.2.1 hp).mp hsize
    · intro hall
      obtain _ | @⟨_, p, _, ps, hwhole, hrest⟩ := hall
      have hp := hwf p List.mem_cons_self
      rw [List.flatten_cons] at h ⊢
      obtain ⟨hfits, -, hdelivers⟩ := h
      have hstep : handleMessage cases c _ = _ := handleMessage_whole hp hfits hwhole
      have hsize : ¬c.packetSize (p ++ ps.flatten) < Packet.headerSize := by
        intro hlt
        rw [handleMessage, if_pos hlt] at hstep
        exact Option.some_ne_none _ hstep.symm
      have hrest' := hdelivers (not_lt.mp hsize)
      rw [hwhole.1, List.drop_left] at hrest'
      have htail := (ih (fun q hq => hwf q (List.mem_cons_of_mem p hq)) hrest').mpr hrest
      rw [passedOn_cons_some hstep, htail, List.map_cons, Function.comp_apply]

/-- **At either end the packets are passed on as they were written if and only if each was there
as a whole.** -/
theorem framing_iff (hwf : ∀ p ∈ packets, WellFormed p) (h : Delivers cuts packets.flatten) :
    (passedOn handleMessageFromClient cuts packets.flatten =
        packets.map (some ∘ dispatched BaristaServer.cases) ↔ List.Forall₂ Cut.Whole cuts packets) ∧
      (passedOn handleMessageFromServer cuts packets.flatten =
        packets.map (some ∘ dispatched EspressoClient.cases) ↔
          List.Forall₂ Cut.Whole cuts packets) :=
  ⟨passedOn_handleMessage_iff hwf h, passedOn_handleMessage_iff hwf h⟩

/-- A client closes descriptor 5. -/
def sampleClose : List UInt8 := (ClosePacket.create (fun _ => 0) 5).packet

/-- A `recv` of `n` bytes, behind a complete look at the size. -/
def sampleCut (n : ℕ) : Cut where
  stack := fun _ => 0
  heap := fun _ => 0
  peeked := 4
  taken := n

theorem framing_sampleClose :
    (passedOn handleMessageFromClient [sampleCut 16, sampleCut 16]
        [sampleClose, sampleClose].flatten =
          [sampleClose, sampleClose].map (some ∘ dispatched BaristaServer.cases) ↔
        List.Forall₂ Cut.Whole [sampleCut 16, sampleCut 16] [sampleClose, sampleClose]) ∧
      (passedOn handleMessageFromServer [sampleCut 16, sampleCut 16]
        [sampleClose, sampleClose].flatten =
          [sampleClose, sampleClose].map (some ∘ dispatched EspressoClient.cases) ↔
        List.Forall₂ Cut.Whole [sampleCut 16, sampleCut 16] [sampleClose, sampleClose]) := by
  have hwf : ∀ p ∈ [sampleClose, sampleClose], WellFormed p := by decide +kernel
  refine framing_iff hwf ⟨by decide +kernel, fun hlt => ?_, fun _ => ⟨by decide +kernel,
    fun _ => rfl, fun _ => ?_⟩⟩
  · exact absurd hlt (by decide +kernel)
  · change List.drop 16 (List.drop 16 [sampleClose, sampleClose].flatten) = []
    decide +kernel

/-- The second segment of the stream begins behind the header: the client's `close` is taken for
one of the descriptor that is in memory, and the descriptor for the size of the next packet. -/
theorem splitClose : ∃ (packets : List (List UInt8)) (cuts : List Cut),
    (∀ p ∈ packets, WellFormed p) ∧ Delivers cuts packets.flatten ∧
      passedOn handleMessageFromClient cuts packets.flatten ≠
        packets.map (some ∘ dispatched BaristaServer.cases) := by
  refine ⟨[sampleClose], [sampleCut 12, sampleCut 4], by decide +kernel,
    ⟨by decide +kernel, fun hlt => ?_, fun _ => ⟨by decide +kernel, fun _ => rfl, fun hle => ?_⟩⟩,
    by decide +kernel⟩
  · exact absurd hlt (by decide +kernel)
  · exact absurd hle (by decide +kernel)

end DecaFS
