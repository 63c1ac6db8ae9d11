import DecaFS.BaristaCore.Answers
import DecaFS.NetworkCore.BaristaServer
import DecaFS.NetworkCore.Decoding

/-!
# Calls as packets

`network_core/decafs_client.cpp` at one end of a connection, the `switch` of `handleMessageFromClient` and
the senders of `barista_network_helper.cpp` at the other. A call of `DecafsClient` sends a packet and takes
the next packet that comes for its answer; the server makes the packet a call of the Barista, and each
result a packet.

The packet of a call is read back as that call (`received_packet`), and the packet of a result as that
result (`result_packet`), provided that the call is one that has such results: `DecafsClient` does not look
at the flag.

A `char *` is the string of its characters. `opendir`, `mkdir` and `file_storage_stat` are left out, which
the Barista does not answer or answers with a report.
-/

namespace DecaFS

open Barista

/-! ### The client -/

/-- A C string that leaves its packet a size. -/
structure CString where
  chars : List UInt8
  nul : 0 ∉ chars
  short : chars.length + 17 < 4294967296

/-- A call of `DecafsClient` that waits for its answer. -/
inductive ClientCall : Type
  | open (path : CString) (flags : ℤ)
  | read (fd count : ℤ)
  /-- `buf` has `count` bytes at least. -/
  | write (fd : ℤ) (buf : List UInt8) (count : ℤ) (full : toInt32 count ≤ buf.length)
  | close (fd : ℤ)
  | lseek (fd offset whence : ℤ)
  | remove (path : CString)

/-- What a call returns, and what it copies into the buffer of its caller. -/
structure ClientResult where
  value : ℤ
  data : List UInt8 := []
  deriving DecidableEq, Repr

namespace ClientCall

/-- The packet that is sent. -/
def packet (junk : ℕ → UInt8) : ClientCall → List UInt8
  | .open path flags => (OpenPacket.create junk flags path.chars).packet
  | .read fd count => (ReadRequest.create junk fd count).packet
  | .write fd buf count _ => (WritePacket.create junk fd count buf).packet
  | .close fd => (ClosePacket.create junk fd).packet
  | .lseek fd offset whence => (LseekPacket.create junk fd offset whence).packet
  | .remove path => (RemovePacket.create junk path.chars).packet

/-- What is made of the packet that comes next. -/
def result (buffer : List UInt8) : ClientCall → ClientResult
  | .open .. => { value := toInt32 (OpenPacketResponse.ofBuffer buffer).value }
  | .read .. =>
    let rrp := ReadResponsePacket.ofBuffer buffer
    { value := rrp.count, data := if rrp.count > 0 then rrp.data else [] }
  | .write .. => { value := (WriteResponsePacket.ofBuffer buffer).count }
  | .close _ => { value := (CloseResponsePacket.ofBuffer buffer).value }
  | .lseek .. => { value := (LseekResponsePacket.ofBuffer buffer).value }
  | .remove _ => { value := (RemoveResponsePacket.ofBuffer buffer).value }

/-- The flag of the packet. -/
def flag : ClientCall → PacketFlag
  | .open .. => .open
  | .read .. => .read
  | .write .. => .write
  | .close _ => .close
  | .lseek .. => .lseek
  | .remove _ => .remove

/-- The call of the Barista. -/
def kind : ClientCall → CallKind
  | .open .. => .openFile
  | .read .. => .readFile
  | .write .. => .writeFile
  | .close _ => .closeFile
  | .lseek .. => .fileSeek
  | .remove _ => .deleteFile

end ClientCall

/-! ### The server -/

/-- The characters as a path. -/
def pathname (chars : List UInt8) : String := String.ofList (chars.map fun c => Char.ofNat c.toNat)

/-- The `whence` of `file_seek`: what is neither `SEEK_END` nor `SEEK_SET` seeks from the cursor. -/
def whenceOf (whence : ℤ) : Whence :=
  if whence = 2 then .seekEnd else if whence = 0 then .seekSet else .seekCur

/-- The client that a message names until the server finds that of its connection. -/
def noClient : Client := ⟨{}, 0, none⟩

/-- The `switch` of `handleMessageFromClient`, on the cases of the two INIT packets and of the calls.
`addr` is the address of the connection, and the sends of the call go by `script`. -/
def BaristaServer.received (client : ℕ) (addr : String) (script : List SendOutcome) (buffer : List UInt8) :
    PacketFlag → Option ServerEvent
  | .remove =>
    let rp := RemovePacket.ofBuffer buffer
    some (.message client (.deleteFile (pathname rp.text) noClient script))
  | .open =>
    let op := OpenPacket.ofBuffer buffer
    some (.message client (.openFile (pathname op.text) (toUInt32 op.value).toNat noClient))
  | .read =>
    let rp := ReadRequest.ofBuffer buffer
    some (.message client (.readFile (toInt32 rp.fd) rp.count noClient script))
  | .write =>
    let wp := WritePacket.ofBuffer buffer
    some (.message client (.writeFile (toInt32 wp.fd) wp.data wp.count noClient script))
  | .close => some (.message client (.closeFile (toInt32 (ClosePacket.ofBuffer buffer).value) noClient))
  | .espressoInit => some (.espressoInit client (EspressoInit.ofBuffer buffer).value)
  | .decafsClientInit => some (.decafsClientInit client addr (DecafsClientInit.ofBuffer buffer).value)
  | .lseek =>
    let seek := LseekPacket.ofBuffer buffer
    some (.message client (.fileSeek seek.fd (toUInt32 seek.offset).toNat (whenceOf seek.whence) noClient))
  | _ => none

/-- The packet of a result, as its sender makes it. -/
def Reply.packet (junk : ℕ → UInt8) : Reply → List UInt8
  | .openResult result => (OpenPacketResponse.create junk result).packet
  | .readResult fd count buf => (ReadResponsePacket.create junk fd count buf).packet
  | .writeResult fd count => (WriteResponsePacket.create junk fd count).packet
  | .closeResult result => (CloseResponsePacket.create junk result).packet
  | .seekResult result => (LseekResponsePacket.create junk result).packet
  | .removeResult result => (RemoveResponsePacket.create junk result).packet

/-! ### What calls and results stand for -/

/-- What the call asks the Barista for. -/
def ClientCall.input (script : List SendOutcome) : ClientCall → Input
  | .open path flags => .openFile (pathname path.chars) (toUInt32 flags).toNat noClient
  | .read fd count => .readFile (toInt32 fd) (toInt32 count) noClient script
  | .write fd buf count _ =>
    .writeFile (toInt32 fd) (buf.take (toInt32 count).toNat) (toInt32 count) noClient script
  | .close fd => .closeFile (toInt32 fd) noClient
  | .lseek fd offset whence =>
    .fileSeek (toInt32 fd) (toUInt32 offset).toNat (whenceOf (toInt32 whence)) noClient
  | .remove path => .deleteFile (pathname path.chars) noClient script

/-- What the caller gets of a result. -/
def Reply.result : Reply → ClientResult
  | .readResult _ count buf => ⟨toInt32 count, buf.take (toInt32 count).toNat⟩
  | .writeResult _ count => ⟨toInt32 count, []⟩
  | .openResult result | .closeResult result | .seekResult result | .removeResult result =>
    ⟨toInt32 result, []⟩

section

variable {p s rest buf : List UInt8} {c : Cut} {cases : List PacketFlag} {d : Dispatched} {junk : ℕ → UInt8}
  {id fd fileId stripeId chunkNum offset count k : ℤ} {fields : List ℤ} {tail : List UInt8} {flag : PacketFlag}

/-! ### Packets that say their size -/

/-- The bytes begin with their number, whether or not it is an `int32_t`. -/
def Sized (p : List UInt8) : Prop := Packet.headerSize ≤ p.length ∧ getWord p 0 = p.length

theorem Packet.Laid.sized {p : Packet} (h : p.Laid id k fields tail) : Sized p.packet := by
  have hsize := h.packetSize_eq
  have hlength := h.length_eq
  have hword : DecaFS.getWord p.packet 0 = toUInt32 p.packetSize := by
    rw [h.packet_eq]
    exact getWord_words (i := 0) rfl
  refine ⟨?_, by rw [hword, h.packetSize_range, hlength]⟩
  simp only [Packet.headerSize]
  omega

/-- The case that the flag of a packet selects. -/
theorem Packet.Laid.dispatched {p : Packet} (h : p.Laid id flag.ctorIdx fields tail) :
    dispatched cases p.packet = (cases.find? fun flag' => (flag'.ctorIdx : ℤ) = flag.ctorIdx, p.packet) := by
  have hword : DecaFS.getWord p.packet 8 = toUInt32 flag.ctorIdx := by
    rw [h.packet_eq]
    exact getWord_words (i := 2) rfl
  rw [DecaFS.dispatched, hword, flag.toUInt32_ctorIdx]

/-- **What is received is the packet in front.** A packet that is there as a whole is passed on, unless
its size is no `int32_t`. -/
theorem handleMessage_received (hp : Sized p) (hfits : c.Fits (p ++ s)) (hc : c.Received (p ++ s))
    (h : handleMessage cases c (p ++ s) = some (d, rest)) :
    WellFormed p ∧ d = dispatched cases p ∧ rest = s := by
  have hfour : 4 ≤ p.length := le_trans (by decide) hp.1
  have hword : getWord (p ++ s) 0 = p.length := by
    rw [← hp.2, ← getWord_take, List.take_append_of_le_length hfour, getWord_take]
  have hsize := hc.packetSize_eq
  rw [hword] at hsize
  have hheader : ¬ c.packetSize (p ++ s) < Packet.headerSize := by
    intro hlt
    rw [handleMessage, if_pos hlt] at h
    exact absurd h (by simp)
  have hmax : (p.length : ℤ) ≤ intMax := by
    have hrange : 0 ≤ getWord p 0 ∧ getWord p 0 < 4294967296 := getWord_mem
    rw [hp.2] at hrange
    simp only [hsize, Packet.headerSize] at hheader
    unfold toInt32 at hheader
    unfold intMax
    omega
  have hwf : WellFormed p := ⟨hp.1, hmax, hp.2⟩
  rw [toInt32_eq (by omega) hmax] at hsize
  have hwhole : c.Whole p := by
    refine ⟨?_, (Cut.packetSize_eq_iff hfits.1.2.1 hwf).mp ?_⟩
    · rw [hc.taken_eq, hsize, Int.toNat_natCast]
    · rw [← Cut.packetSize_append hfits.1.2.1 hwf, hsize]
  rw [handleMessage_whole hwf hfits hwhole] at h
  obtain ⟨hd, hrest⟩ := Prod.mk.inj (Option.some.inj h)
  exact ⟨hwf, hd.symm, hrest.symm⟩

/-- The size of a packet with data is that of its data, of any size. -/
theorem FileDataPacket.laid_of_le (junk : ℕ → UInt8) (id : ℤ) (flag : PacketFlag)
    (fd fileId stripeId chunkNum offset : ℤ) (hbuf : toInt32 count ≤ buf.length) : ∃ fields tail,
    (create junk id flag fd fileId stripeId chunkNum offset count buf).Laid id flag.ctorIdx fields tail ∧
      ((create junk id flag fd fileId stripeId chunkNum offset count buf).packet.length : ℤ) =
        36 + (toInt32 count).toNat := by
  have hmax : toInt32 count ≤ 2147483647 := (toInt32_mem count).2
  have hn : toUInt32 (max 0 (toInt32 count) + 36) = 36 + ((toInt32 count).toNat : ℤ) := by
    rw [toUInt32_eq (by omega) (by omega)]
    omega
  obtain ⟨j, hj, hbase⟩ := FilePacket.create_laid junk id flag fd fileId stripeId chunkNum
    offset (toInt32 count) hn
  have htake : (buf.take (toInt32 count).toNat).length = (toInt32 count).toNat :=
    List.length_take_of_le (by omega)
  have h := Packet.Laid.bytes (a := []) hbase (buf.take (toInt32 count).toNat)
    (show 36 = _ from rfl) (by omega)
  rw [← toPacket_create] at h
  refine ⟨_, _, h, ?_⟩
  rw [h.length_eq, h.packetSize_eq]
  simp [hj, htake]

/-- A packet with data whose size is an `int32_t` is read back. -/
theorem FileDataPacket.ofBuffer_create (hbuf : toInt32 count ≤ buf.length)
    (hmax : ((create junk id flag fd fileId stripeId chunkNum offset count buf).packet.length : ℤ) ≤ intMax) :
    (ofBuffer (create junk id flag fd fileId stripeId chunkNum offset count buf).packet).toFilePacket =
        (create junk id flag fd fileId stripeId chunkNum offset count buf).toFilePacket ∧
      (ofBuffer (create junk id flag fd fileId stripeId chunkNum offset count buf).packet).data =
        buf.take (toInt32 count).toNat := by
  obtain ⟨fields, tail, -, hlength⟩ := laid_of_le junk id flag fd fileId stripeId chunkNum offset hbuf
  rw [hlength] at hmax
  have htrip : RoundTripsWith (buf.take (toInt32 count).toNat)
      (create · id flag fd fileId stripeId chunkNum offset count buf) ofBuffer :=
    FileDataPacket.roundTrips (by unfold intMax at hmax ⊢; omega) hbuf
  have hfile := htrip.file.ofBuffer_eq junk
  refine ⟨hfile, ?_⟩
  by_cases hpos : 0 < toInt32 count
  · refine htrip.data_eq junk ?_
    change 0 < toInt32 (toInt32 count)
    rwa [toInt32_toInt32]
  · -- nothing was copied, and `data_buffer` is `NULL`
    have hcount : (FilePacket.ofBuffer
        (create junk id flag fd fileId stripeId chunkNum offset count buf).packet).count =
          toInt32 (toInt32 count) := congrArg FilePacket.count hfile
    have hzero : (toInt32 count).toNat = 0 := Int.toNat_of_nonpos (not_lt.mp hpos)
    rw [toInt32_toInt32] at hcount
    have hnone : (ofBuffer
        (create junk id flag fd fileId stripeId chunkNum offset count buf).packet).dataBuffer = none := by
      rw [ofBuffer, hcount, if_neg hpos]
    rw [data, hnone, hzero, List.take_zero]

theorem LseekPacket.create_laid (junk : ℕ → UInt8) (fd offset whence : ℤ) :
    (LseekPacket.create junk fd offset whence).Laid 0 PacketFlag.lseek.ctorIdx [fd, offset, whence] [] := by
  obtain ⟨j, hj, hbase⟩ := Packet.create_laid junk 0 .lseek (n := 12)
    (show toUInt32 (12 + 12) = 12 + (12 : ℕ) from rfl)
  have h := hbase.words [fd, offset, whence] (show 12 = _ from rfl) (by simp [hj])
  rwa [List.drop_of_length_le (by simp [hj])] at h

/-! ### Calls and results are read back -/

/-- The packet of a call has the flag of the call. -/
theorem ClientCall.exists_laid (junk : ℕ → UInt8) (call : ClientCall) : ∃ (p : Packet) (fields : List ℤ)
    (tail : List UInt8), p.packet = call.packet junk ∧ p.Laid 0 call.flag.ctorIdx fields tail := by
  cases call with
  | «open» path flags => exact ⟨_, _, _, rfl, OpenPacket.create_laid junk flags path.short⟩
  | read fd count =>
    obtain ⟨j, -, h⟩ := FilePacket.create_laid junk 0 .read fd 0 0 0 0 count
      (show toUInt32 (0 + 36) = 36 + (0 : ℕ) from rfl)
    exact ⟨_, _, _, rfl, h⟩
  | write fd buf count full =>
    obtain ⟨fields, tail, h, -⟩ := FileDataPacket.laid_of_le junk 0 .write fd 0 0 0 0 full
    exact ⟨_, _, _, rfl, h⟩
  | close fd => exact ⟨_, _, _, rfl, WordPacket.create_laid toUInt32 .close junk fd⟩
  | lseek fd offset whence => exact ⟨_, _, _, rfl, LseekPacket.create_laid junk fd offset whence⟩
  | remove path =>
    have hshort := path.short
    exact ⟨_, _, _, rfl, StringPacket.create_laid .remove junk (by omega)⟩

theorem Reply.exists_laid (junk : ℕ → UInt8) {reply : Reply} (hfull : reply.Full) : ∃ (p : Packet) (k : ℤ)
    (fields : List ℤ) (tail : List UInt8), p.packet = reply.packet junk ∧ p.Laid 0 k fields tail := by
  cases reply with
  | openResult result => exact ⟨_, _, _, _, rfl, WordPacket.create_laid toUInt32 .openResponse junk result⟩
  | readResult fd count buf =>
    obtain ⟨fields, tail, h, -⟩ := FileDataPacket.laid_of_le junk 0 .readResponse fd 0 0 0 0 hfull
    exact ⟨_, _, _, _, rfl, h⟩
  | writeResult fd count =>
    obtain ⟨j, -, h⟩ := FilePacket.create_laid junk 0 .writeResponse fd 0 0 0 0 count
      (show toUInt32 (0 + 36) = 36 + (0 : ℕ) from rfl)
    exact ⟨_, _, _, _, rfl, h⟩
  | closeResult result => exact ⟨_, _, _, _, rfl, WordPacket.create_laid toInt32 .closeResponse junk result⟩
  | seekResult result => exact ⟨_, _, _, _, rfl, WordPacket.create_laid toInt32 .lseekResponse junk result⟩
  | removeResult result =>
    exact ⟨_, _, _, _, rfl, WordPacket.create_laid toInt32 .removeResponse junk result⟩

theorem ClientCall.dispatched_packet (junk : ℕ → UInt8) (call : ClientCall) :
    dispatched BaristaServer.cases (call.packet junk) = (some call.flag, call.packet junk) := by
  obtain ⟨p, fields, tail, hp, hlaid⟩ := call.exists_laid junk
  rw [← hp, hlaid.dispatched]
  cases call <;> rfl

/-- **The server reads the call.** -/
theorem received_packet {client : ℕ} {addr : String} {script : List SendOutcome} {call : ClientCall}
    (hwf : WellFormed (call.packet junk)) :
    BaristaServer.received client addr script (call.packet junk) call.flag =
      some (.message client (call.input script)) := by
  cases call with
  | «open» path flags =>
    have htrip : RoundTripsText WordStringPacket.toPacket WordStringPacket.text path.chars
        (OpenPacket.create · flags path.chars) OpenPacket.ofBuffer :=
      WordStringPacket.roundTrips (fun junk => OpenPacket.create_laid junk flags path.short)
        (fun _ => rfl) (fun _ => rfl) (fun v => by rw [toInt32_toUInt32, toInt32_toInt32]) path.nul
    have hobject := htrip.object.ofBuffer_eq junk
    have htext := htrip.text_eq junk
    have hvalue : toUInt32 (OpenPacket.ofBuffer (OpenPacket.create junk flags path.chars).packet).value =
        toUInt32 flags := by
      rw [hobject]
      exact toUInt32_toInt32 flags
    simp only [BaristaServer.received, ClientCall.flag, ClientCall.packet, ClientCall.input, htext, hvalue]
  | read fd count =>
    have hobject : ReadRequest.ofBuffer (ReadRequest.create junk fd count).packet =
        ReadRequest.create junk fd count := FilePacket.roundTrips.ofBuffer_eq junk
    simp only [BaristaServer.received, ClientCall.flag, ClientCall.packet, ClientCall.input, hobject]
    simp only [ReadRequest.create, FilePacket.create, toInt32_toUInt32]
  | write fd buf count full =>
    obtain ⟨hobject, hdata⟩ := FileDataPacket.ofBuffer_create full hwf.2.1
    have hfd : (WritePacket.ofBuffer (WritePacket.create junk fd count buf).packet).fd = toUInt32 fd :=
      congrArg FilePacket.fd hobject
    have hcount : (WritePacket.ofBuffer (WritePacket.create junk fd count buf).packet).count =
        toInt32 (toInt32 count) := congrArg FilePacket.count hobject
    have hdata : (WritePacket.ofBuffer (WritePacket.create junk fd count buf).packet).data =
        buf.take (toInt32 count).toNat := hdata
    simp only [BaristaServer.received, ClientCall.flag, ClientCall.packet, ClientCall.input, hfd, hcount, hdata,
      toInt32_toUInt32, toInt32_toInt32]
  | close fd =>
    have hobject : ClosePacket.ofBuffer (ClosePacket.create junk fd).packet = ClosePacket.create junk fd :=
      (WordPacket.roundTrips fun v => by rw [toUInt32_toUInt32, toUInt32_toUInt32]).ofBuffer_eq junk
    simp only [BaristaServer.received, ClientCall.flag, ClientCall.packet, ClientCall.input, hobject]
    simp only [ClosePacket.create, WordPacket.create, toInt32_toUInt32]
  | lseek fd offset whence =>
    have hobject : LseekPacket.ofBuffer (LseekPacket.create junk fd offset whence).packet =
        LseekPacket.create junk fd offset whence := LseekPacket.roundTrips.ofBuffer_eq junk
    simp only [BaristaServer.received, ClientCall.flag, ClientCall.packet, ClientCall.input, hobject]
    simp only [LseekPacket.create, toUInt32_toInt32]
  | remove path =>
    have hshort := path.short
    have htext : (RemovePacket.ofBuffer (RemovePacket.create junk path.chars).packet).text = path.chars :=
      (StringPacket.roundTrips path.nul (by omega)).text_eq junk
    simp only [BaristaServer.received, ClientCall.flag, ClientCall.packet, ClientCall.input, htext]

/-- **The client reads the result**, if it is one of its call. -/
theorem result_packet {reply : Reply} {call : ClientCall} (hkind : reply.kind = call.kind)
    (hfull : reply.Full) (hwf : WellFormed (reply.packet junk)) :
    call.result (reply.packet junk) = reply.result := by
  have hunsigned : ∀ v, toUInt32 (toUInt32 (toUInt32 v)) = toUInt32 v := fun v => by
    rw [toUInt32_toUInt32, toUInt32_toUInt32]
  have hsigned : ∀ v, toInt32 (toUInt32 (toInt32 v)) = toInt32 v := fun v => by
    rw [toInt32_toUInt32, toInt32_toInt32]
  cases reply with
  | openResult result =>
    have hobject : OpenPacketResponse.ofBuffer (OpenPacketResponse.create junk result).packet =
        OpenPacketResponse.create junk result := (WordPacket.roundTrips hunsigned).ofBuffer_eq junk
    cases call <;> cases hkind
    simp only [ClientCall.result, Reply.packet, Reply.result, hobject]
    simp only [OpenPacketResponse.create, WordPacket.create, toInt32_toUInt32]
  | readResult fd count buf =>
    obtain ⟨hobject, hdata⟩ := FileDataPacket.ofBuffer_create hfull hwf.2.1
    have hcount : (ReadResponsePacket.ofBuffer (ReadResponsePacket.create junk fd count buf).packet).count =
        toInt32 (toInt32 count) := congrArg FilePacket.count hobject
    have hdata : (ReadResponsePacket.ofBuffer (ReadResponsePacket.create junk fd count buf).packet).data =
        buf.take (toInt32 count).toNat := hdata
    cases call <;> cases hkind
    simp only [ClientCall.result, Reply.packet, Reply.result, hcount, hdata, toInt32_toInt32]
    split_ifs with hpos
    · rfl
    · rw [Int.toNat_of_nonpos (not_lt.mp hpos), List.take_zero]
  | writeResult fd count =>
    have hobject : WriteResponsePacket.ofBuffer (WriteResponsePacket.create junk fd count).packet =
        WriteResponsePacket.create junk fd count := FilePacket.roundTrips.ofBuffer_eq junk
    cases call <;> cases hkind
    simp only [ClientCall.result, Reply.packet, Reply.result, hobject]
    rfl
  | closeResult result =>
    have hobject : CloseResponsePacket.ofBuffer (CloseResponsePacket.create junk result).packet =
        CloseResponsePacket.create junk result := (WordPacket.roundTrips hsigned).ofBuffer_eq junk
    cases call <;> cases hkind
    simp only [ClientCall.result, Reply.packet, Reply.result, hobject]
    rfl
  | seekResult result =>
    have hobject : LseekResponsePacket.ofBuffer (LseekResponsePacket.create junk result).packet =
        LseekResponsePacket.create junk result := (WordPacket.roundTrips hsigned).ofBuffer_eq junk
    cases call <;> cases hkind
    simp only [ClientCall.result, Reply.packet, Reply.result, hobject]
    rfl
  | removeResult result =>
    have hobject : RemoveResponsePacket.ofBuffer (RemoveResponsePacket.create junk result).packet =
        RemoveResponsePacket.create junk result := (WordPacket.roundTrips hsigned).ofBuffer_eq junk
    cases call <;> cases hkind
    simp only [ClientCall.result, Reply.packet, Reply.result, hobject]
    rfl

end

end DecaFS
