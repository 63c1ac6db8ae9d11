import DecaFS.NetworkCore.Packets

/-!
# Packets are read back

`Packet.Laid` describes the bytes of a packet: the words of its header, the words of its members,
then the bytes of its data or its string. Each piece a field constructor stores extends the
description (`Laid.words`, `Laid.bytes`), and the buffer constructor reads the header and the
members back (`Laid.ofBuffer`, `Laid.getWord`).

`packets_roundTrip` states the round trip of every class. A packet size is a `uint32_t`, so a
string has to leave room for it: `longPath_overflows` is a path that does not.
-/

namespace DecaFS

/-- Storing a word converts it. -/
theorem wordBytes_toUInt32 (v : ℤ) : wordBytes (toUInt32 v) = wordBytes v := by
  simp only [wordBytes, toUInt32, Int.emod_emod_of_dvd v (dvd_refl _)]

theorem wordBytes_toInt32 (v : ℤ) : wordBytes (toInt32 v) = wordBytes v := by
  rw [← wordBytes_toUInt32, toUInt32_toInt32, wordBytes_toUInt32]

@[simp]
theorem length_malloc {junk : ℕ → UInt8} {n : ℕ} : (malloc junk n).length = n := by
  simp [malloc]

theorem PacketFlag.toUInt32_ctorIdx (flag : PacketFlag) :
    toUInt32 (flag.ctorIdx : ℤ) = flag.ctorIdx := by
  cases flag <;> rfl

/-! ### The bytes of a packet -/

/-- The bytes of `p`: the header with `id` and `flag`, the words of the members `fields`, then
`tail`. -/
structure Packet.Laid (p : Packet) (id flag : ℤ) (fields : List ℤ) (tail : List UInt8) :
    Prop where
  packet_eq : p.packet = words (p.packetSize :: id :: flag :: fields) ++ tail
  length_eq : (p.packet.length : ℤ) = p.packetSize
  packetSize_range : toUInt32 p.packetSize = p.packetSize
  id_eq : p.id = toUInt32 id
  flag_eq : p.flag = toUInt32 flag

namespace Packet

variable {p : Packet} {fields vs : List ℤ} {tail bs : List UInt8} {d v : ℤ}
  {id k : ℤ} {flag : PacketFlag} {junk : ℕ → UInt8} {pos i n : ℕ}

/-- The base class lays out the header; `n` bytes are left to the derived class. -/
theorem create_laid (junk : ℕ → UInt8) (id : ℤ) (flag : PacketFlag)
    (h : toUInt32 (d + 12) = 12 + n) :
    ∃ j, j.length = n ∧ (create junk id flag d).Laid id flag.ctorIdx [] j := by
  have hsize : (create junk id flag d).packetSize = 12 + n := h
  have htoNat : (12 + (n : ℤ)).toNat = 12 + n := by omega
  refine ⟨(malloc junk (12 + n)).drop 12, by simp, ?_, ?_, ?_, rfl, flag.toUInt32_ctorIdx.symm⟩
  · calc (create junk id flag d).packet
        = patch (malloc junk (12 + n)) 0 (words [12 + n, id, flag.ctorIdx]) := by
          simp only [create, headerSize, Nat.cast_ofNat, h, htoNat]
      _ = words [12 + n, id, flag.ctorIdx] ++ (malloc junk (12 + n)).drop 12 := rfl
      _ = _ := by rw [hsize]
  · have hlen : (create junk id flag d).packet.length = 12 + n := by
      simp only [create, headerSize, Nat.cast_ofNat, h, htoNat]
      rw [length_patch (by simp), length_malloc]
    omega
  · rw [hsize, ← h, toUInt32_toUInt32]

/-- Words stored behind the ones that are there. -/
theorem Laid.words (h : p.Laid id k fields tail) (vs : List ℤ) (hpos : pos = 12 + 4 * fields.length)
    (hvs : 4 * vs.length ≤ tail.length) :
    { p with packet := patch p.packet pos (words vs) }.Laid id k (fields ++ vs)
      (tail.drop (4 * vs.length)) := by
  have hlen : (DecaFS.words (p.packetSize :: id :: k :: fields)).length = pos := by
    simp only [length_words, List.length_cons]
    omega
  refine ⟨?_, ?_, h.packetSize_range, h.id_eq, h.flag_eq⟩
  · calc patch p.packet pos (DecaFS.words vs)
        = DecaFS.words (p.packetSize :: id :: k :: fields) ++ DecaFS.words vs ++
            tail.drop (4 * vs.length) := by
          rw [h.packet_eq, patch_append hlen, length_words]
      _ = _ := by rw [← words_append]; rfl
  · have hroom : pos + (DecaFS.words vs).length ≤ p.packet.length := by
      rw [h.packet_eq, List.length_append, hlen, length_words]
      omega
    exact (congrArg Nat.cast (length_patch hroom)).trans h.length_eq

/-- Bytes stored behind the words and the bytes `a`. -/
theorem Laid.bytes {a : List UInt8} (h : p.Laid id k fields (a ++ tail)) (bs : List UInt8)
    (hpos : pos = 12 + 4 * fields.length + a.length) (hbs : bs.length ≤ tail.length) :
    { p with packet := patch p.packet pos bs }.Laid id k fields
      (a ++ bs ++ tail.drop bs.length) := by
  have hlen : (DecaFS.words (p.packetSize :: id :: k :: fields) ++ a).length = pos := by
    simp only [List.length_append, length_words, List.length_cons]
    omega
  have heq : p.packet = DecaFS.words (p.packetSize :: id :: k :: fields) ++ a ++ tail :=
    h.packet_eq.trans (List.append_assoc _ _ _).symm
  refine ⟨?_, ?_, h.packetSize_range, h.id_eq, h.flag_eq⟩
  · rw [heq, patch_append hlen]
    simp only [List.append_assoc]
  · have hroom : pos + bs.length ≤ p.packet.length := by
      rw [heq, List.length_append, hlen]
      omega
    exact (congrArg Nat.cast (length_patch hroom)).trans h.length_eq

/-- The members are stored in their converted form. -/
theorem Laid.congr (h : p.Laid id k fields tail)
    (hvs : vs.map toUInt32 = fields.map toUInt32) : p.Laid id k vs tail := by
  have hwords (ws : List ℤ) : DecaFS.words ws = DecaFS.words (ws.map toUInt32) := by
    rw [DecaFS.words, DecaFS.words, List.flatMap_map]
    simp only [wordBytes_toUInt32]
  have heq : DecaFS.words vs = DecaFS.words fields := by rw [hwords, hvs, ← hwords]
  refine ⟨?_, h.length_eq, h.packetSize_range, h.id_eq, h.flag_eq⟩
  rw [h.packet_eq, ← List.nil_append fields, ← List.nil_append vs]
  simp only [← List.cons_append, words_append, heq]

/-- The size is that of the members and the tail. -/
theorem Laid.packetSize_eq (h : p.Laid id k fields tail) :
    p.packetSize = 12 + 4 * fields.length + tail.length := by
  have hlen := congrArg List.length h.packet_eq
  simp only [List.length_append, length_words, List.length_cons] at hlen
  have := h.length_eq
  omega

/-- No byte is left to what was in the memory. -/
theorem Laid.packet_congr {q : Packet} (hp : p.Laid id k fields tail) (hq : q.Laid id k fields tail) :
    p.packet = q.packet := by
  rw [hp.packet_eq, hq.packet_eq, hp.packetSize_eq, hq.packetSize_eq]

/-- The buffer constructor of the base class. -/
theorem Laid.ofBuffer (h : p.Laid id k fields tail) : Packet.ofBuffer p.packet = p := by
  have hsize : getWord p.packet 0 = p.packetSize := by
    rw [h.packet_eq]
    exact (getWord_words (i := 0) rfl).trans h.packetSize_range
  have hid : getWord p.packet 4 = p.id := by
    rw [h.packet_eq]
    exact (getWord_words (i := 1) rfl).trans h.id_eq.symm
  have hflag : getWord p.packet 8 = p.flag := by
    rw [h.packet_eq]
    exact (getWord_words (i := 2) rfl).trans h.flag_eq.symm
  have hid' : toUInt32 (toInt32 p.id) = p.id := by
    rw [toUInt32_toInt32, h.id_eq, toUInt32_toUInt32]
  simp only [Packet.ofBuffer, hsize, hid, hflag, hid']

/-- The word of a member. -/
theorem Laid.getWord (h : p.Laid id k fields tail) (hv : fields[i]? = some v) :
    getWord p.packet (12 + 4 * i) = toUInt32 v := by
  have hget : (p.packetSize :: id :: k :: fields)[i + 3]? = some v := by simpa using hv
  rw [h.packet_eq, show 12 + 4 * i = 4 * (i + 3) by omega]
  exact getWord_words hget

/-- The bytes behind the members. -/
theorem Laid.drop (h : p.Laid id k fields tail) (hpos : pos = 12 + 4 * fields.length) :
    p.packet.drop pos = tail := by
  rw [h.packet_eq]
  refine List.drop_left' ?_
  simp only [length_words, List.length_cons]
  omega

/-- The string behind the members. -/
theorem Laid.cString (h : p.Laid id k fields (bs ++ [0])) (hpos : pos = 12 + 4 * fields.length)
    (hnul : 0 ∉ bs) : cString p.packet pos = bs := by
  rw [DecaFS.cString, h.drop hpos]
  refine (List.takeWhile_append_of_pos fun c hc => ?_).trans ?_
  · exact decide_eq_true fun h₀ => hnul (h₀ ▸ hc)
  · simp

end Packet

/-! ### Round trips -/

/-- What a class promises, whatever the memory held: the buffer constructor reads the object that
wrote the bytes, these are `packetSize` many, and all of them were written. -/
structure RoundTrips {α : Type} (toPacket : α → Packet) (create : (ℕ → UInt8) → α)
    (ofBuffer : List UInt8 → α) : Prop where
  ofBuffer_eq : ∀ junk, ofBuffer (toPacket (create junk)).packet = create junk
  length_eq : ∀ junk,
    ((toPacket (create junk)).packet.length : ℤ) = (toPacket (create junk)).packetSize
  written : ∀ junk junk', (toPacket (create junk)).packet = (toPacket (create junk')).packet

section

variable {junk : ℕ → UInt8} {flag : PacketFlag} {convert : ℤ → ℤ} {name buf : List UInt8}
  {id fd fileId stripeId chunkNum offset count value : ℤ}

theorem WordPacket.create_laid (convert : ℤ → ℤ) (flag : PacketFlag) (junk : ℕ → UInt8)
    (value : ℤ) :
    (create convert flag junk value).Laid 0 flag.ctorIdx [convert value] [] := by
  obtain ⟨j, hj, hbase⟩ := Packet.create_laid junk 0 flag (n := 4)
    (show toUInt32 (4 + 12) = 12 + (4 : ℕ) from rfl)
  have h := hbase.words [convert value] rfl (by simp [hj])
  rwa [List.drop_of_length_le (by simp [hj])] at h

/-- The classes with one word. -/
theorem WordPacket.roundTrips (hconv : ∀ v, convert (toUInt32 (convert v)) = convert v) :
    RoundTrips WordPacket.toPacket (create convert flag · value) (ofBuffer convert) where
  ofBuffer_eq junk := by
    have h := create_laid convert flag junk value
    have hword : getWord (create convert flag junk value).packet 12 = toUInt32 (convert value) :=
      h.getWord (i := 0) rfl
    rw [ofBuffer, h.ofBuffer, Packet.headerSize, hword, hconv]
    rfl
  length_eq junk := (create_laid convert flag junk value).length_eq
  written junk junk' :=
    (create_laid convert flag junk value).packet_congr (create_laid convert flag junk' value)

/-- The members of a `FilePacket`; `n` bytes are left to the derived class. -/
theorem FilePacket.create_laid (junk : ℕ → UInt8) (id : ℤ) (flag : PacketFlag)
    (fd fileId stripeId chunkNum offset count : ℤ) {n : ℕ}
    (h : toUInt32 (value + 36) = 36 + n) :
    ∃ j, j.length = n ∧
      (create junk id flag value fd fileId stripeId chunkNum offset count).Laid id flag.ctorIdx
        [toUInt32 fd, toUInt32 fileId, toUInt32 stripeId, toUInt32 chunkNum, toUInt32 offset,
          toInt32 count] j := by
  have hsize : toUInt32 (value + 24 + 12) = 12 + ((24 + n : ℕ) : ℤ) := by
    rw [show value + 24 + 12 = value + 36 by omega, h]
    omega
  obtain ⟨j, hj, hbase⟩ := Packet.create_laid junk id flag hsize
  have hlaid := hbase.words [fd, fileId, stripeId, chunkNum, offset, count] rfl
    (by simp only [List.length_cons, List.length_nil]; omega)
  refine ⟨j.drop 24, by rw [List.length_drop]; omega, hlaid.congr ?_⟩
  simp only [List.nil_append, List.map_cons, List.map_nil, toUInt32_toUInt32, toUInt32_toInt32]

/-- The buffer constructor reads the members back, whatever stands behind them. -/
theorem FilePacket.ofBuffer_of_laid {p : FilePacket} {tail : List UInt8} {k : ℤ}
    (h : p.Laid id k [toUInt32 fd, toUInt32 fileId, toUInt32 stripeId, toUInt32 chunkNum,
      toUInt32 offset, toInt32 count] tail) :
    ofBuffer p.packet = ⟨p.toPacket, toUInt32 fd, toUInt32 fileId, toUInt32 stripeId,
      toUInt32 chunkNum, toUInt32 offset, toInt32 count⟩ := by
  have h₀ : getWord p.packet 12 = _ := h.getWord (i := 0) rfl
  have h₁ : getWord p.packet 16 = _ := h.getWord (i := 1) rfl
  have h₂ : getWord p.packet 20 = _ := h.getWord (i := 2) rfl
  have h₃ : getWord p.packet 24 = _ := h.getWord (i := 3) rfl
  have h₄ : getWord p.packet 28 = _ := h.getWord (i := 4) rfl
  have h₅ : getWord p.packet 32 = _ := h.getWord (i := 5) rfl
  simp only [ofBuffer, Packet.headerSize, h.ofBuffer, Nat.reduceAdd, h₀, h₁, h₂, h₃, h₄, h₅,
    toUInt32_toUInt32, toUInt32_toInt32, toInt32_toUInt32]

/-- The classes about a part of a file, without data. -/
theorem FilePacket.roundTrips :
    RoundTrips FilePacket.toPacket
      (create · id flag 0 fd fileId stripeId chunkNum offset count) ofBuffer := by
  have hlaid (junk : ℕ → UInt8) :
      (create junk id flag 0 fd fileId stripeId chunkNum offset count).Laid id flag.ctorIdx
        [toUInt32 fd, toUInt32 fileId, toUInt32 stripeId, toUInt32 chunkNum, toUInt32 offset,
          toInt32 count] [] := by
    obtain ⟨j, hj, h⟩ := create_laid junk id flag fd fileId stripeId chunkNum offset count
      (show toUInt32 (0 + 36) = 36 + (0 : ℕ) from rfl)
    rwa [List.eq_nil_of_length_eq_zero hj] at h
  exact ⟨fun junk => ofBuffer_of_laid (hlaid junk), fun junk => (hlaid junk).length_eq,
    fun junk junk' => (hlaid junk).packet_congr (hlaid junk')⟩

/-- Copying nothing leaves the bytes alone, so the copy may as well be unconditional. -/
theorem FileDataPacket.toPacket_create :
    (create junk id flag fd fileId stripeId chunkNum offset count buf).toPacket =
      let base := FilePacket.create junk id flag (max 0 (toInt32 count)) fd fileId stripeId
        chunkNum offset (toInt32 count)
      { base.toPacket with packet := patch base.packet 36 (buf.take (toInt32 count).toNat) } := by
  simp only [create, dataPos, Packet.headerSize, FilePacket.dataSize, Nat.reduceAdd]
  split
  · rfl
  · rename_i hcount
    rw [Int.toNat_of_nonpos (by omega), List.take_zero, patch_nil]

/-- The bytes of a data packet. -/
theorem FileDataPacket.create_laid (junk : ℕ → UInt8) (id : ℤ) (flag : PacketFlag)
    (fd fileId stripeId chunkNum offset : ℤ) (hsize : toInt32 count + 36 ≤ intMax)
    (hbuf : toInt32 count ≤ buf.length) :
    (create junk id flag fd fileId stripeId chunkNum offset count buf).Laid id flag.ctorIdx
      [toUInt32 fd, toUInt32 fileId, toUInt32 stripeId, toUInt32 chunkNum, toUInt32 offset,
        toInt32 count]
      (buf.take (toInt32 count).toNat) := by
  have hn : toUInt32 (max 0 (toInt32 count) + 36) = 36 + ((toInt32 count).toNat : ℤ) := by
    rw [toUInt32_eq (by omega) (by unfold intMax at hsize; omega)]
    omega
  obtain ⟨j, hj, hbase⟩ := FilePacket.create_laid junk id flag fd fileId stripeId chunkNum
    offset (toInt32 count) hn
  have htake : (buf.take (toInt32 count).toNat).length = (toInt32 count).toNat :=
    List.length_take_of_le (by omega)
  have h := Packet.Laid.bytes (a := []) hbase (buf.take (toInt32 count).toNat)
    (show 36 = _ from rfl) (by omega)
  rw [List.drop_of_length_le (by omega), List.append_nil, toInt32_toInt32] at h
  rwa [toPacket_create]

/-- What a class with data promises: the round trip of a `FilePacket`, and for a positive count
the whole object and the bytes `data` of its buffer. -/
structure RoundTripsWith (data : List UInt8) (create : (ℕ → UInt8) → FileDataPacket)
    (ofBuffer : List UInt8 → FileDataPacket) : Prop where
  file : RoundTrips FilePacket.toPacket (fun junk => (create junk).toFilePacket)
    fun buf => (ofBuffer buf).toFilePacket
  ofBuffer_eq : ∀ junk, 0 < (create junk).count → ofBuffer (create junk).packet = create junk
  data_eq : ∀ junk, 0 < (create junk).count → (ofBuffer (create junk).packet).data = data

/-- The classes with data. -/
theorem FileDataPacket.roundTrips (hsize : toInt32 count + 36 ≤ intMax)
    (hbuf : toInt32 count ≤ buf.length) :
    RoundTripsWith (buf.take (toInt32 count).toNat)
      (create · id flag fd fileId stripeId chunkNum offset count buf) ofBuffer := by
  have hlaid (junk : ℕ → UInt8) := create_laid junk id flag fd fileId stripeId chunkNum offset hsize hbuf
  have hfile (junk : ℕ → UInt8) := FilePacket.ofBuffer_of_laid (hlaid junk)
  have hcount (junk : ℕ → UInt8) :
      (create junk id flag fd fileId stripeId chunkNum offset count buf).count = toInt32 count :=
    toInt32_toInt32 count
  have hwhole (junk : ℕ → UInt8) (hpos : 0 < toInt32 count) :
      ofBuffer (create junk id flag fd fileId stripeId chunkNum offset count buf).packet =
        create junk id flag fd fileId stripeId chunkNum offset count buf := by
    rw [ofBuffer, hfile, if_pos hpos]
    exact FileDataPacket.ext rfl rfl rfl rfl rfl rfl rfl rfl rfl (hcount junk).symm rfl
  refine ⟨⟨fun junk => ?_, fun junk => (hlaid junk).length_eq,
    fun junk junk' => (hlaid junk).packet_congr (hlaid junk')⟩,
    fun junk hpos => hwhole junk (hcount junk ▸ hpos), fun junk hpos => ?_⟩
  · exact (hfile junk).trans (FilePacket.ext rfl rfl rfl rfl rfl rfl rfl rfl rfl (hcount junk).symm)
  · rw [hwhole junk (hcount junk ▸ hpos)]
    calc slice (create junk id flag fd fileId stripeId chunkNum offset count buf).packet 36 _
        = (buf.take (toInt32 count).toNat).take (toInt32 count).toNat := by
          rw [slice, (hlaid junk).drop (show 36 = _ from rfl), hcount]
      _ = buf.take (toInt32 count).toNat := by rw [List.take_take, Nat.min_self]

/-- What a class with a string promises: the round trip, and the string is read back. -/
structure RoundTripsText {α : Type} (toPacket : α → Packet) (text : α → List UInt8)
    (name : List UInt8) (create : (ℕ → UInt8) → α) (ofBuffer : List UInt8 → α) : Prop where
  object : RoundTrips toPacket create ofBuffer
  text_eq : ∀ junk, text (ofBuffer (toPacket (create junk)).packet) = name

theorem toUInt32_toInt32_add (v w : ℤ) : toUInt32 (toInt32 v + w) = toUInt32 (v + w) := by
  unfold toUInt32 toInt32
  omega

theorem StringPacket.create_laid (flag : PacketFlag) (junk : ℕ → UInt8)
    (hsize : name.length + 13 < 4294967296) :
    (create flag junk name).Laid 0 flag.ctorIdx [] (name ++ [0]) := by
  have hn : toUInt32 (toInt32 (name.length + 1) + 12) = 12 + ((name.length + 1 : ℕ) : ℤ) := by
    rw [toUInt32_toInt32_add, toUInt32_eq (by omega) (by omega)]
    omega
  obtain ⟨j, hj, hbase⟩ := Packet.create_laid junk 0 flag hn
  have h := Packet.Laid.bytes (a := []) hbase (name ++ [0]) (show 12 = _ from rfl) (by simp [hj])
  rwa [List.drop_of_length_le (by simp [hj]), List.append_nil] at h

/-- A string that leaves no room for its size in a `uint32_t` is written past the memory the
packet has. -/
theorem StringPacket.not_roundTrips (hsize : 4294967296 ≤ name.length + 13) :
    ¬ RoundTripsText StringPacket.toPacket text name (create flag · name) ofBuffer := by
  intro h
  have hlen := h.object.length_eq fun _ => 0
  have hbytes : (create flag (fun _ => 0) name).packet.length ≥
      min 12 (create flag (fun _ => 0) name).packetSize.toNat + (name.length + 1) := by
    simp only [create, patch, Packet.headerSize, List.length_append, List.length_take,
      List.length_singleton, List.length_drop]
    have hbase : (Packet.create (fun _ => 0) 0 flag (toInt32 (name.length + 1))).packet.length ≥
        (Packet.create (fun _ => 0) 0 flag (toInt32 (name.length + 1))).packetSize.toNat := by
      simp only [Packet.create, patch, List.length_append, List.length_take, List.length_drop,
        length_malloc]
      omega
    omega
  have hrange : 0 ≤ (create flag (fun _ => 0) name).packetSize ∧
      (create flag (fun _ => 0) name).packetSize < 4294967296 :=
    ⟨Int.emod_nonneg _ (by decide), Int.emod_lt_of_pos _ (by decide)⟩
  omega

/-- The classes with a string behind the header. -/
theorem StringPacket.roundTrips (hnul : 0 ∉ name) (hsize : name.length + 13 < 4294967296) :
    RoundTripsText StringPacket.toPacket text name (create flag · name) ofBuffer := by
  have hlaid (junk : ℕ → UInt8) := create_laid flag junk hsize
  have hobject (junk : ℕ → UInt8) : ofBuffer (create flag junk name).packet = create flag junk name := by
    rw [ofBuffer, (hlaid junk).ofBuffer]
    rfl
  refine ⟨⟨hobject, fun junk => (hlaid junk).length_eq,
    fun junk junk' => (hlaid junk).packet_congr (hlaid junk')⟩, fun junk => ?_⟩
  rw [hobject junk]
  exact (hlaid junk).cString (show Packet.headerSize = _ from rfl) hnul

/-- The size of a packet with a word and a string. -/
theorem toUInt32_wordStringSize (hsize : name.length + 17 < 4294967296) :
    toUInt32 (toInt32 (name.length + 1 + 4) + 12) = 12 + ((name.length + 5 : ℕ) : ℤ) := by
  rw [toUInt32_toInt32_add, toUInt32_eq (by omega) (by omega)]
  omega

theorem OpenPacket.create_laid (junk : ℕ → UInt8) (flags : ℤ)
    (hsize : name.length + 17 < 4294967296) :
    (OpenPacket.create junk flags name).Laid 0 PacketFlag.open.ctorIdx [toInt32 flags]
      (name ++ [0]) := by
  obtain ⟨j, hj, hbase⟩ := Packet.create_laid junk 0 .open (toUInt32_wordStringSize hsize)
  have hflags := hbase.words [toInt32 flags] (show 12 = _ from rfl) (by simp [hj])
  have hname := Packet.Laid.bytes (a := []) hflags name (show 16 = _ from rfl) (by simp [hj])
  have hnul := hname.bytes [0] (show 16 + name.length = _ from rfl) (by simp [hj]; omega)
  rwa [List.drop_drop, List.drop_drop, List.drop_of_length_le (by simp [hj]; omega),
    List.append_nil] at hnul

theorem MkdirPacket.create_laid (junk : ℕ → UInt8) (mode : ℤ)
    (hsize : name.length + 17 < 4294967296) :
    (MkdirPacket.create junk name mode).Laid 0 PacketFlag.mkdir.ctorIdx [toUInt32 mode]
      (name ++ [0]) := by
  obtain ⟨j, hj, hbase⟩ := Packet.create_laid junk 0 .mkdir (toUInt32_wordStringSize hsize)
  have hmode := hbase.words [toUInt32 mode] (show 12 = _ from rfl) (by simp [hj])
  have hname := Packet.Laid.bytes (a := []) hmode (name ++ [0]) (show 16 = _ from rfl)
    (by simp [hj])
  rwa [List.drop_drop, List.drop_of_length_le (by simp [hj]; omega), List.append_nil] at hname

/-- The classes with a word and a string behind it. -/
theorem WordStringPacket.roundTrips {create : (ℕ → UInt8) → WordStringPacket}
    {ofBuffer : List UInt8 → WordStringPacket} {k : ℤ}
    (hlaid : ∀ junk, (create junk).Laid 0 k [convert value] (name ++ [0]))
    (hcreate : ∀ junk, create junk = ⟨(create junk).toPacket, convert value, 16⟩)
    (hofBuffer : ∀ buf, ofBuffer buf = ⟨Packet.ofBuffer buf, convert (getWord buf 12), 16⟩)
    (hconv : ∀ v, convert (toUInt32 (convert v)) = convert v) (hnul : 0 ∉ name) :
    RoundTripsText WordStringPacket.toPacket text name create ofBuffer := by
  have hobject (junk : ℕ → UInt8) : ofBuffer (create junk).packet = create junk := by
    have hword : getWord (create junk).packet 12 = toUInt32 (convert value) :=
      (hlaid junk).getWord (i := 0) rfl
    rw [hofBuffer, (hlaid junk).ofBuffer, hword, hconv, ← hcreate]
  refine ⟨⟨hobject, fun junk => (hlaid junk).length_eq,
    fun junk junk' => (hlaid junk).packet_congr (hlaid junk')⟩, fun junk => ?_⟩
  rw [hobject junk, text, hcreate junk]
  exact (hlaid junk).cString (show 16 = _ from rfl) hnul

theorem LseekPacket.roundTrips :
    RoundTrips LseekPacket.toPacket (create · fd offset value) ofBuffer := by
  have hlaid (junk : ℕ → UInt8) : (create junk fd offset value).Laid 0 PacketFlag.lseek.ctorIdx
      [fd, offset, value] [] := by
    obtain ⟨j, hj, hbase⟩ := Packet.create_laid junk 0 .lseek (n := 12)
      (show toUInt32 (12 + 12) = 12 + (12 : ℕ) from rfl)
    have h := hbase.words [fd, offset, value] (show 12 = _ from rfl) (by simp [hj])
    rwa [List.drop_of_length_le (by simp [hj])] at h
  refine ⟨fun junk => ?_, fun junk => (hlaid junk).length_eq,
    fun junk junk' => (hlaid junk).packet_congr (hlaid junk')⟩
  have h₀ : getWord (create junk fd offset value).packet 12 = _ := (hlaid junk).getWord (i := 0) rfl
  have h₁ : getWord (create junk fd offset value).packet 16 = _ := (hlaid junk).getWord (i := 1) rfl
  have h₂ : getWord (create junk fd offset value).packet 20 = _ := (hlaid junk).getWord (i := 2) rfl
  simp only [ofBuffer, Packet.headerSize, (hlaid junk).ofBuffer, Nat.reduceAdd, h₀, h₁, h₂,
    toInt32_toUInt32]
  rfl

end

/-- **The wire format.** Every class reads back what it wrote, with the packet size the number of
bytes it laid out: the classes with one word, those about a part of a file, those with data (of
which the packet size is an `int32_t`), those with a string (of which it is a `uint32_t`), and
the seek request. -/
theorem packets_roundTrip :
    (∀ node_id, RoundTrips WordPacket.toPacket (EspressoInit.create · node_id)
      EspressoInit.ofBuffer) ∧
    (∀ user_id, RoundTrips WordPacket.toPacket (DecafsClientInit.create · user_id)
      DecafsClientInit.ofBuffer) ∧
    (∀ response, RoundTrips WordPacket.toPacket (OpenPacketResponse.create · response)
      OpenPacketResponse.ofBuffer) ∧
    (∀ fd, RoundTrips WordPacket.toPacket (ClosePacket.create · fd) ClosePacket.ofBuffer) ∧
    (∀ result, RoundTrips WordPacket.toPacket (CloseResponsePacket.create · result)
      CloseResponsePacket.ofBuffer) ∧
    (∀ result, RoundTrips WordPacket.toPacket (LseekResponsePacket.create · result)
      LseekResponsePacket.ofBuffer) ∧
    (∀ result, RoundTrips WordPacket.toPacket (RemoveResponsePacket.create · result)
      RemoveResponsePacket.ofBuffer) ∧
    (∀ result, RoundTrips WordPacket.toPacket (MkdirResponsePacket.create · result)
      MkdirResponsePacket.ofBuffer) ∧
    (∀ id fd fileId stripeId chunkNum offset count, RoundTrips FilePacket.toPacket
      (ReadChunkRequest.create · id fd fileId stripeId chunkNum offset count)
      ReadChunkRequest.ofBuffer) ∧
    (∀ id fd fileId stripeId chunkNum offset count, RoundTrips FilePacket.toPacket
      (WriteChunkResponse.create · id fd fileId stripeId chunkNum offset count)
      WriteChunkResponse.ofBuffer) ∧
    (∀ fd id fileId stripeId chunkNum, RoundTrips FilePacket.toPacket
      (DeleteChunkRequest.create · fd id fileId stripeId chunkNum)
      DeleteChunkRequest.ofBuffer) ∧
    (∀ fd id fileId stripeId chunkNum, RoundTrips FilePacket.toPacket
      (DeleteChunkResponse.create · fd id fileId stripeId chunkNum)
      DeleteChunkResponse.ofBuffer) ∧
    (∀ fd count, RoundTrips FilePacket.toPacket (ReadRequest.create · fd count)
      ReadRequest.ofBuffer) ∧
    (∀ fd count, RoundTrips FilePacket.toPacket (WriteResponsePacket.create · fd count)
      WriteResponsePacket.ofBuffer) ∧
    (∀ id fd fileId stripeId chunkNum offset count, ∀ buf : List UInt8,
      toInt32 count + 36 ≤ intMax → toInt32 count ≤ buf.length →
        RoundTripsWith (buf.take (toInt32 count).toNat)
          (WriteChunkRequest.create · id fd fileId stripeId chunkNum offset count buf)
          WriteChunkRequest.ofBuffer) ∧
    (∀ id fd fileId stripeId chunkNum offset count, ∀ buf : List UInt8,
      toInt32 count + 36 ≤ intMax → toInt32 count ≤ buf.length →
        RoundTripsWith (buf.take (toInt32 count).toNat)
          (ReadChunkResponse.create · id fd fileId stripeId chunkNum offset count buf)
          ReadChunkResponse.ofBuffer) ∧
    (∀ fd count, ∀ buf : List UInt8, toInt32 count + 36 ≤ intMax → toInt32 count ≤ buf.length →
      RoundTripsWith (buf.take (toInt32 count).toNat)
        (ReadResponsePacket.create · fd count buf) ReadResponsePacket.ofBuffer) ∧
    (∀ fd count, ∀ buf : List UInt8, toInt32 count + 36 ≤ intMax → toInt32 count ≤ buf.length →
      RoundTripsWith (buf.take (toInt32 count).toNat)
        (WritePacket.create · fd count buf) WritePacket.ofBuffer) ∧
    (∀ name : List UInt8, 0 ∉ name → name.length + 13 < 4294967296 →
      RoundTripsText StringPacket.toPacket StringPacket.text name
        (RemovePacket.create · name) RemovePacket.ofBuffer) ∧
    (∀ name : List UInt8, 0 ∉ name → name.length + 13 < 4294967296 →
      RoundTripsText StringPacket.toPacket StringPacket.text name
        (OpendirPacket.create · name) OpendirPacket.ofBuffer) ∧
    (∀ name : List UInt8, 0 ∉ name → name.length + 13 < 4294967296 →
      RoundTripsText StringPacket.toPacket StringPacket.text name
        (FileStorageStatPacket.create · name) FileStorageStatPacket.ofBuffer) ∧
    (∀ name : List UInt8, 0 ∉ name → name.length + 13 < 4294967296 →
      RoundTripsText StringPacket.toPacket StringPacket.text name
        (FileStorageStatResponsePacket.create · name) FileStorageStatResponsePacket.ofBuffer) ∧
    (∀ flags, ∀ name : List UInt8, 0 ∉ name → name.length + 17 < 4294967296 →
      RoundTripsText WordStringPacket.toPacket WordStringPacket.text name
        (OpenPacket.create · flags name) OpenPacket.ofBuffer) ∧
    (∀ mode, ∀ name : List UInt8, 0 ∉ name → name.length + 17 < 4294967296 →
      RoundTripsText WordStringPacket.toPacket WordStringPacket.text name
        (MkdirPacket.create · name mode) MkdirPacket.ofBuffer) ∧
    ∀ fd offset whence, RoundTrips LseekPacket.toPacket
      (LseekPacket.create · fd offset whence) LseekPacket.ofBuffer := by
  have hunsigned (v : ℤ) : toUInt32 (toUInt32 (toUInt32 v)) = toUInt32 v := by
    rw [toUInt32_toUInt32, toUInt32_toUInt32]
  have hsigned (v : ℤ) : toInt32 (toUInt32 (toInt32 v)) = toInt32 v := by
    rw [toInt32_toUInt32, toInt32_toInt32]
  refine ⟨fun _ => ?_, fun _ => ?_, fun _ => ?_, fun _ => ?_, fun _ => ?_, fun _ => ?_,
    fun _ => ?_, fun _ => ?_, fun _ _ _ _ _ _ _ => ?_, fun _ _ _ _ _ _ _ => ?_,
    fun _ _ _ _ _ => ?_, fun _ _ _ _ _ => ?_, fun _ _ => ?_, fun _ _ => ?_,
    fun _ _ _ _ _ _ _ buf => ?_, fun _ _ _ _ _ _ _ buf => ?_, fun _ _ buf => ?_,
    fun _ _ buf => ?_, fun name => ?_, fun name => ?_, fun name => ?_, fun name => ?_,
    fun flags name hnul hsize => ?_, fun mode name hnul hsize => ?_, fun _ _ _ => ?_⟩
  iterate 4 exact WordPacket.roundTrips hunsigned
  iterate 4 exact WordPacket.roundTrips hsigned
  iterate 6 exact FilePacket.roundTrips
  iterate 4 exact FileDataPacket.roundTrips
  iterate 4 exact StringPacket.roundTrips
  · exact WordStringPacket.roundTrips (fun junk => OpenPacket.create_laid junk flags hsize)
      (fun _ => rfl) (fun _ => rfl) hsigned hnul
  · exact WordStringPacket.roundTrips (fun junk => MkdirPacket.create_laid junk mode hsize)
      (fun _ => rfl) (fun _ => rfl) hunsigned hnul
  · exact LseekPacket.roundTrips

theorem packets_roundTrip_samplePath :
    RoundTripsText StringPacket.toPacket StringPacket.text [47, 97]
      (RemovePacket.create · [47, 97]) RemovePacket.ofBuffer := by
  obtain ⟨-, -, -, -, -, -, -, -, -, -, -, -, -, -, -, -, -, -, h, -⟩ := packets_roundTrip
  exact h [47, 97] (by decide) (by decide)

/-- A path of `2 ^ 32` characters does not fit the size of its packet. -/
theorem longPath_overflows : 0 ∉ List.replicate 4294967296 (97 : UInt8) ∧
    ¬ RoundTripsText StringPacket.toPacket StringPacket.text (List.replicate 4294967296 97)
      (RemovePacket.create · (List.replicate 4294967296 97)) RemovePacket.ofBuffer := by
  refine ⟨fun h => absurd (List.eq_of_mem_replicate h) (by decide), ?_⟩
  refine StringPacket.not_roundTrips ?_
  rw [List.length_replicate]
  decide

end DecaFS
