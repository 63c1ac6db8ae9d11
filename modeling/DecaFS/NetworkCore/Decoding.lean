import DecaFS.ForMathlib.Accesses
import DecaFS.NetworkCore.Framing

/-!
# What decoding a packet reads

The `switch` over the flag, the buffer constructors, `print` and the handlers read the packet
through pointers and never ask for its size. `caseReads` lists what the code of each case reads;
`Cut.memory` is the memory behind `buffer_ptr`, which holds the packet and goes on behind it.

`decoding_iff` says for which packets all of it is read from the packet: an `Intact` packet has
room for the members of its class, a `'\0'` in its string, and the data that it counts. Every
other packet is decoded all the same (`unterminated_remove`).
-/

namespace DecaFS

/-- The word at `pos`. -/
def wordAt (mem : ℕ → UInt8) (pos : ℕ) : ℤ := getWord (malloc mem (pos + 4)) pos

/-- The memory from `buffer_ptr` on, after the second `recv`. -/
def Cut.memory (c : Cut) (stream : List UInt8) (i : ℕ) : UInt8 :=
  (stream.take c.taken)[i]?.getD (c.heap i)

/-- The case of the `switch` that is taken; without one the packet is dropped. -/
def chosen (cases : List PacketFlag) (mem : ℕ → UInt8) : Option PacketFlag :=
  cases.find? fun flag => flag.ctorIdx = wordAt mem 8

/-! ### The classes -/

/-- `Packet(void *buf, ssize_t size)` -/
def Packet.reads : List Access := [.word 0, .word 4, .word 8]

/-- A class with one word, like `ClosePacket(void *buf, ssize_t size)`. -/
def WordPacket.reads : List Access := Packet.reads ++ [.word 12]

/-- `LseekPacket(void *buf, ssize_t length)` -/
def LseekPacket.reads : List Access := Packet.reads ++ [.word 12, .word 16, .word 20]

/-- `FilePacket(void *buf, ssize_t size)` -/
def FilePacket.reads : List Access :=
  Packet.reads ++ [.word 12, .word 16, .word 20, .word 24, .word 28, .word 32]

/-- The member `count` of a `FilePacket`. -/
def FilePacket.countAt (mem : ℕ → UInt8) : ℤ := toInt32 (wordAt mem 32)

/-- `FileDataPacket(void *buf, ssize_t size)`; `print` writes the `count` bytes of `data_buffer`
unless it is `NULL`, and the handlers copy them. -/
def FileDataPacket.reads (mem : ℕ → UInt8) : List Access :=
  FilePacket.reads ++
    if 0 < FilePacket.countAt mem then [.bytes 36 (FilePacket.countAt mem).toNat] else []

/-- A class with a string, like `RemovePacket(void *buf, ssize_t length)`; `print` and the handler
look for its end. -/
def StringPacket.reads : List Access := Packet.reads ++ [.string 12]

/-- `MkdirPacket(void *buf, ssize_t length)`, and its string. -/
def MkdirPacket.reads : List Access := Packet.reads ++ [.word 12, .string 16]

/-- `packet_size - Packet::dataSize() - 5` in `OpenPacket::print`, with the `packet_size` of the
header. -/
def OpenPacket.length (mem : ℕ → UInt8) : ℤ := toInt32 (toUInt32 (wordAt mem 0 - 12 - 5))

/-- `OpenPacket(void *buf, ssize_t length)`, and its string, of which `print` also writes `length`
characters. -/
def OpenPacket.reads (mem : ℕ → UInt8) : List Access :=
  Packet.reads ++ [.word 12, .string 16, .bytes 16 (OpenPacket.length mem).toNat]

/-- What the case of a flag reads: the constructor, `print` and the handler. -/
def caseReads (mem : ℕ → UInt8) : PacketFlag → List Access
  | .espressoInit | .decafsClientInit | .close => WordPacket.reads
  | .lseek => LseekPacket.reads
  | .read | .writeChunkResponse | .deleteChunkResponse | .readChunk | .deleteChunk =>
    FilePacket.reads
  | .write | .readChunkResponse | .writeChunk => FileDataPacket.reads mem
  | .fileStorageStat | .remove | .opendir => StringPacket.reads
  | .mkdir => MkdirPacket.reads
  | .open => OpenPacket.reads mem
  | _ => []

/-- What one message reads: the flag, and what its case does. -/
def reads (cases : List PacketFlag) (mem : ℕ → UInt8) : List Access :=
  .word 8 :: (chosen cases mem).elim [] (caseReads mem)

/-! ### Intact packets -/

/-- What is behind the members of a class. -/
inductive PacketTail : Type
  | none | string | data

/-- The number of words behind the header, and what follows them. -/
def PacketFlag.layout : PacketFlag → ℕ × PacketTail
  | .espressoInit | .decafsClientInit | .close => (1, .none)
  | .lseek => (3, .none)
  | .read | .writeChunkResponse | .deleteChunkResponse | .readChunk | .deleteChunk => (6, .none)
  | .write | .readChunkResponse | .writeChunk => (6, .data)
  | .fileStorageStat | .remove | .opendir => (0, .string)
  | .mkdir | .open => (1, .string)
  | _ => (0, .none)

/-- The first `size` bytes hold the tail that begins at `pos`. -/
def PacketTail.Fits (mem : ℕ → UInt8) (size : ℤ) (pos : ℕ) : PacketTail → Prop
  | .none => True
  | .string => ∃ i, pos ≤ i ∧ (i : ℤ) < size ∧ mem i = 0
  | .data => 0 < FilePacket.countAt mem → pos + FilePacket.countAt mem ≤ size

/-- The packet is long enough for its header and its members, its string is terminated and its
data is there. -/
def Intact (cases : List PacketFlag) (mem : ℕ → UInt8) (size : ℤ) : Prop :=
  Packet.headerSize ≤ size ∧ ∀ flag ∈ chosen cases mem,
    ((Packet.headerSize + 4 * flag.layout.1 : ℕ) : ℤ) ≤ size ∧
      flag.layout.2.Fits mem size (Packet.headerSize + 4 * flag.layout.1)

variable {cases : List PacketFlag} {mem : ℕ → UInt8} {size : ℤ} {flag : PacketFlag} {c : Cut}
  {stream : List UInt8}

/-! ### What a class reads -/

@[simp]
theorem forall_packetReads : (∀ a ∈ Packet.reads, a.Within mem size) ↔ 12 ≤ size := by
  simp [Packet.reads]
  omega

theorem forall_wordPacketReads : (∀ a ∈ WordPacket.reads, a.Within mem size) ↔ 16 ≤ size := by
  simp only [WordPacket.reads, List.forall_mem_append, List.forall_mem_cons, forall_packetReads,
    Access.within_word, List.not_mem_nil, false_implies, implies_true, and_true]
  omega

theorem forall_lseekPacketReads : (∀ a ∈ LseekPacket.reads, a.Within mem size) ↔ 24 ≤ size := by
  simp only [LseekPacket.reads, List.forall_mem_append, List.forall_mem_cons, forall_packetReads,
    Access.within_word, List.not_mem_nil, false_implies, implies_true, and_true]
  omega

theorem forall_filePacketReads : (∀ a ∈ FilePacket.reads, a.Within mem size) ↔ 36 ≤ size := by
  simp only [FilePacket.reads, List.forall_mem_append, List.forall_mem_cons, forall_packetReads,
    Access.within_word, List.not_mem_nil, false_implies, implies_true, and_true]
  omega

theorem forall_fileDataPacketReads : (∀ a ∈ FileDataPacket.reads mem, a.Within mem size) ↔
    36 ≤ size ∧ PacketTail.data.Fits mem size 36 := by
  have hdata (n : ℤ) : (∀ a ∈ if 0 < n then [Access.bytes 36 n.toNat] else [],
      a.Within mem size) ↔ (0 < n → ((36 : ℕ) : ℤ) + n ≤ size) := by
    by_cases hn : 0 < n
    · rw [if_pos hn, List.forall_mem_singleton, Access.within_bytes, Int.toNat_of_nonneg hn.le]
      omega
    · rw [if_neg hn]
      exact iff_of_true (List.forall_mem_nil _) fun h => absurd h hn
  rw [FileDataPacket.reads, List.forall_mem_append, forall_filePacketReads, hdata,
    PacketTail.Fits]

theorem forall_stringPacketReads : (∀ a ∈ StringPacket.reads, a.Within mem size) ↔
    12 ≤ size ∧ PacketTail.string.Fits mem size 12 := by
  simp only [StringPacket.reads, List.forall_mem_append, List.forall_mem_singleton,
    forall_packetReads, Access.within_string, PacketTail.Fits]

theorem forall_mkdirPacketReads : (∀ a ∈ MkdirPacket.reads, a.Within mem size) ↔
    16 ≤ size ∧ PacketTail.string.Fits mem size 16 := by
  simp only [MkdirPacket.reads, List.forall_mem_append, List.forall_mem_cons, forall_packetReads,
    Access.within_word, Access.within_string, PacketTail.Fits]
  constructor
  · rintro ⟨-, hmember, hstring, -⟩
    exact ⟨by omega, hstring⟩
  · rintro ⟨h, hstring⟩
    exact ⟨by omega, by omega, hstring, List.forall_mem_nil _⟩

/-- With its size in the header, `print` does not write more characters than there are. -/
theorem forall_openPacketReads (hword : toInt32 (wordAt mem 0) = size) :
    (∀ a ∈ OpenPacket.reads mem, a.Within mem size) ↔
      16 ≤ size ∧ PacketTail.string.Fits mem size 16 := by
  have hlength : 16 ≤ size → OpenPacket.length mem = size - 17 := by
    have hmem : 0 ≤ wordAt mem 0 ∧ wordAt mem 0 < 4294967296 := getWord_mem
    unfold OpenPacket.length
    unfold toInt32 toUInt32 at *
    omega
  have hprint : 16 ≤ size →
      (Access.bytes 16 (OpenPacket.length mem).toNat).Within mem size := by
    intro h
    rw [Access.within_bytes, hlength h]
    omega
  simp only [OpenPacket.reads, List.forall_mem_append, List.forall_mem_cons, forall_packetReads,
    Access.within_word, Access.within_string, PacketTail.Fits]
  constructor
  · rintro ⟨-, hmember, hstring, -⟩
    exact ⟨by omega, hstring⟩
  · rintro ⟨h, hstring⟩
    exact ⟨by omega, by omega, hstring, hprint h, List.forall_mem_nil _⟩

/-- One case of the `switch`, for a packet whose header is there and says its size. -/
theorem forall_caseReads (hsize : 12 ≤ size) (hword : toInt32 (wordAt mem 0) = size) :
    (∀ a ∈ caseReads mem flag, a.Within mem size) ↔
      ((12 + 4 * flag.layout.1 : ℕ) : ℤ) ≤ size ∧
        flag.layout.2.Fits mem size (12 + 4 * flag.layout.1) := by
  cases flag
  case espressoInit | decafsClientInit | close =>
    exact forall_wordPacketReads.trans (and_iff_left trivial).symm
  case lseek => exact forall_lseekPacketReads.trans (and_iff_left trivial).symm
  case read | writeChunkResponse | deleteChunkResponse | readChunk | deleteChunk =>
    exact forall_filePacketReads.trans (and_iff_left trivial).symm
  case write | readChunkResponse | writeChunk => exact forall_fileDataPacketReads
  case fileStorageStat | remove | opendir => exact forall_stringPacketReads
  case mkdir => exact forall_mkdirPacketReads
  case «open» => exact forall_openPacketReads hword
  all_goals exact iff_of_true (List.forall_mem_nil _) ⟨hsize, trivial⟩

/-! ### One message -/

/-- The `size` bytes that the stream begins with are received as one packet; its first four bytes
give the size. -/
structure Cut.Received (c : Cut) (stream : List UInt8) : Prop where
  four_le : 4 ≤ stream.length
  packetSize_eq : c.packetSize stream = toInt32 (getWord stream 0)
  taken_eq : c.taken = (c.packetSize stream).toNat

theorem Cut.Received.wordAt_memory (h : c.Received stream) (hsize : 12 ≤ c.packetSize stream) :
    toInt32 (wordAt (c.memory stream) 0) = c.packetSize stream := by
  have htaken : 4 ≤ c.taken := by
    rw [h.taken_eq]
    exact (Int.le_toNat (le_trans (by decide) hsize)).mpr (le_trans (by decide) hsize)
  have hsame : malloc (c.memory stream) 4 = stream.take 4 := by
    refine List.ext_getElem? fun i => ?_
    rcases Nat.lt_or_ge i 4 with hi | hi
    · obtain ⟨b, hget⟩ : ∃ b, stream[i]? = some b :=
        ⟨_, List.getElem?_eq_getElem (lt_of_lt_of_le hi h.four_le)⟩
      rw [getElem?_malloc hi, List.getElem?_take_of_lt hi, Cut.memory,
        List.getElem?_take_of_lt (lt_of_lt_of_le hi htaken), hget, Option.getD_some]
    · rw [List.getElem?_eq_none (by simpa using hi), List.getElem?_eq_none (by simp; omega)]
  rw [h.packetSize_eq, wordAt, hsame, getWord_take]

/-- The buffer is the beginning of the memory. -/
theorem Cut.buffer_eq_malloc (hsize : c.taken ≤ c.packetSize stream)
    (hstream : c.taken ≤ stream.length) :
    c.buffer stream = malloc (c.memory stream) (c.packetSize stream).toNat := by
  have htake : (stream.take c.taken).length = c.taken := List.length_take_of_le hstream
  refine List.ext_getElem? fun i => ?_
  rw [Cut.buffer, getElem?_patch (Nat.zero_le _), htake]
  rcases Nat.lt_or_ge i (c.packetSize stream).toNat with hi | hi
  · rw [getElem?_malloc hi, getElem?_malloc hi, Cut.memory]
    split_ifs with hlt
    · rw [Nat.sub_zero, List.getElem?_eq_getElem (by omega), Option.getD_some]
    · rw [List.getElem?_eq_none (by omega), Option.getD_none]
  · rw [if_neg (by omega), List.getElem?_eq_none (by simpa using hi),
      List.getElem?_eq_none (by simpa using hi)]

/-- What is passed on is the packet of the case that its flag selects. -/
theorem handleMessage_case {d : Dispatched} {rest : List UInt8} (hfits : c.Fits stream)
    (h : handleMessage cases c stream = some (d, rest)) :
    d.1 = chosen cases (c.memory stream) := by
  rw [handleMessage] at h
  split_ifs at h with hsize
  rw [← (Prod.mk.inj (Option.some.inj h)).1, dispatched, chosen]
  simp only [Packet.headerSize] at hsize
  obtain ⟨-, htaken, hstream⟩ := hfits.2 (by omega)
  have hword : getWord (c.buffer stream) 8 = wordAt (c.memory stream) 8 := by
    rw [Cut.buffer_eq_malloc htaken hstream]
    refine getWord_congr fun i hi => ?_
    rw [getElem?_malloc (by omega), getElem?_malloc (by omega)]
  rw [hword]

theorem reads_within_iff (h : c.Received stream) :
    (∀ a ∈ reads cases (c.memory stream), a.Within (c.memory stream) (c.packetSize stream)) ↔
      Intact cases (c.memory stream) (c.packetSize stream) := by
  rw [reads, List.forall_mem_cons, Access.within_word]
  refine and_congr_right fun hsize => ?_
  have hword := h.wordAt_memory hsize
  cases hcase : chosen cases (c.memory stream) with
  | none => exact iff_of_true (List.forall_mem_nil _) fun flag hflag => by simp at hflag
  | some flag =>
    rw [Option.elim_some, forall_caseReads hsize hword]
    constructor
    · intro h _ hflag
      rw [← Option.some.inj hflag]
      exact h
    · intro h
      exact h flag rfl

/-- **A message is decoded inside of its packet, or else rejected, if and only if it is intact**:
no case asks for more than its flag. -/
theorem decoding_iff (h : c.Received stream) :
    ((∀ a ∈ reads BaristaServer.cases (c.memory stream),
        a.Within (c.memory stream) (c.packetSize stream)) ∧
      (¬Intact BaristaServer.cases (c.memory stream) (c.packetSize stream) →
        chosen BaristaServer.cases (c.memory stream) = none)) ↔
      Intact BaristaServer.cases (c.memory stream) (c.packetSize stream) := by
  rw [reads_within_iff h]
  constructor
  · intro hall
    exact hall.1
  · intro hintact
    exact ⟨hintact, fun hnot => absurd hintact hnot⟩

theorem decoding_sampleClose :
    ((∀ a ∈ reads BaristaServer.cases ((sampleCut 16).memory sampleClose),
        a.Within ((sampleCut 16).memory sampleClose) ((sampleCut 16).packetSize sampleClose)) ∧
      (¬Intact BaristaServer.cases ((sampleCut 16).memory sampleClose)
          ((sampleCut 16).packetSize sampleClose) →
        chosen BaristaServer.cases ((sampleCut 16).memory sampleClose) = none)) ↔
      Intact BaristaServer.cases ((sampleCut 16).memory sampleClose)
        ((sampleCut 16).packetSize sampleClose) :=
  decoding_iff ⟨by decide +kernel, by decide +kernel, by decide +kernel⟩

/-- A `RemovePacket` of sixteen bytes with the path `"abcd"` and no `'\0'`. -/
def unterminatedRemove : List UInt8 :=
  words [16, 0, PacketFlag.remove.ctorIdx] ++ [97, 98, 99, 100]

/-- The path is read on behind the packet, and the packet is not rejected. -/
theorem unterminated_remove : ∃ (c : Cut) (stream : List UInt8),
    WellFormed stream ∧ c.Whole stream ∧ c.Received stream ∧
      ¬((∀ a ∈ reads BaristaServer.cases (c.memory stream),
          a.Within (c.memory stream) (c.packetSize stream)) ∧
        (¬Intact BaristaServer.cases (c.memory stream) (c.packetSize stream) →
          chosen BaristaServer.cases (c.memory stream) = none)) := by
  refine ⟨sampleCut 16, unterminatedRemove, by decide +kernel, ⟨by decide +kernel, ?_⟩,
    ⟨by decide +kernel, by decide +kernel, by decide +kernel⟩, ?_⟩
  · intro i hi hi'
    have : 4 ≤ i := hi
    omega
  · rintro ⟨hinside, -⟩
    have hstring : Access.string 12 ∈
        reads BaristaServer.cases ((sampleCut 16).memory unterminatedRemove) := by
      decide +kernel
    have hpath : ∀ j < 16, 12 ≤ j → (sampleCut 16).memory unterminatedRemove j ≠ 0 := by
      decide +kernel
    -- the first byte behind the packet
    have hbehind := hinside _ hstring 16 ⟨by decide, fun j hj hlt => hpath j hlt hj⟩
    exact absurd hbehind (by decide +kernel)

end DecaFS
