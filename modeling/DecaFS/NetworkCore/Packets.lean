import DecaFS.ForMathlib.Words
import DecaFS.Types.Machine

/-!
# Packets

`network_packets.cpp` and the packet classes beside it. Every class has two constructors: one
takes the fields and writes the bytes of `packet`, one takes the bytes and reads the fields.
They are `create` and `ofBuffer` here.

A pointer into `packet` is the position it points at. `malloc` leaves whatever was in the
memory, so `create` takes that as an argument; a string is the list of its characters without
the final `'\0'`. An addition of `int`s wraps around.
-/

namespace DecaFS

/-- `enum packet_flags` -/
inductive PacketFlag : Type
  | espressoInit | decafsClientInit
  -- client to barista
  | open | read | write | close | lseek | remove | sync | statFs | mkdir | opendir | readdir
  | fileStorageStat
  -- barista to client
  | openResponse | readResponse | writeResponse | closeResponse | lseekResponse
  | removeResponse | syncResponse | statFsResponse | mkdirResponse | opendirResponse
  | readdirResponse | fileStorageStatResponse
  -- barista to espresso
  | readChunk | writeChunk | deleteChunk
  -- espresso to barista
  | readChunkResponse | writeChunkResponse | deleteChunkResponse
  deriving DecidableEq, Repr

/-- `n` bytes of memory, with the contents they happened to have. -/
def malloc (junk : ℕ → UInt8) (n : ℕ) : List UInt8 := (List.range n).map junk

/-- The characters from `pos` up to the next `'\0'`. -/
def cString (buf : List UInt8) (pos : ℕ) : List UInt8 := (buf.drop pos).takeWhile (· ≠ 0)

/-! ### The base class -/

/-- `class Packet` -/
@[ext]
structure Packet where
  packet : List UInt8
  id : ℤ
  flag : ℤ
  packetSize : ℤ
  deriving DecidableEq, Repr

/-- `header_size` -/
def Packet.headerSize : ℕ := 12

/-- `Packet(int32_t id, uint32_t flag, int derived_size)` -/
def Packet.create (junk : ℕ → UInt8) (id : ℤ) (flag : PacketFlag) (derivedSize : ℤ) : Packet :=
  let packetSize := toUInt32 (derivedSize + headerSize)
  { packet := patch (malloc junk packetSize.toNat) 0 (words [packetSize, id, flag.ctorIdx])
    id := toUInt32 id
    flag := flag.ctorIdx
    packetSize := packetSize }

/-- `Packet(void *buf, ssize_t size)`; the size is read from the header. -/
def Packet.ofBuffer (buf : List UInt8) : Packet where
  packet := buf
  packetSize := getWord buf 0
  id := toUInt32 (toInt32 (getWord buf 4))
  flag := getWord buf 8

/-! ### Classes with one word -/

/-- The classes whose only member is a `uint32_t` or an `int32_t`. -/
@[ext]
structure WordPacket extends Packet where
  value : ℤ
  deriving DecidableEq, Repr

/-- The field constructor, with the conversion to the type of the member. -/
def WordPacket.create (convert : ℤ → ℤ) (flag : PacketFlag) (junk : ℕ → UInt8) (value : ℤ) :
    WordPacket :=
  let base := Packet.create junk 0 flag 4
  let member := convert value
  { base with packet := patch base.packet Packet.headerSize (words [member]), value := member }

/-- The buffer constructor. -/
def WordPacket.ofBuffer (convert : ℤ → ℤ) (buf : List UInt8) : WordPacket :=
  { Packet.ofBuffer buf with value := convert (getWord buf Packet.headerSize) }

/-- `EspressoInit(int node_id)` -/
def EspressoInit.create := WordPacket.create toUInt32 .espressoInit

def EspressoInit.ofBuffer := WordPacket.ofBuffer toUInt32

/-- `DecafsClientInit(int user_id)` -/
def DecafsClientInit.create := WordPacket.create toUInt32 .decafsClientInit

def DecafsClientInit.ofBuffer := WordPacket.ofBuffer toUInt32

/-- `OpenPacketResponse(int response)` -/
def OpenPacketResponse.create := WordPacket.create toUInt32 .openResponse

def OpenPacketResponse.ofBuffer := WordPacket.ofBuffer toUInt32

/-- `ClosePacket(int fd)` -/
def ClosePacket.create := WordPacket.create toUInt32 .close

def ClosePacket.ofBuffer := WordPacket.ofBuffer toUInt32

/-- `CloseResponsePacket(int result)` -/
def CloseResponsePacket.create := WordPacket.create toInt32 .closeResponse

def CloseResponsePacket.ofBuffer := WordPacket.ofBuffer toInt32

/-- `LseekResponsePacket(int result)` -/
def LseekResponsePacket.create := WordPacket.create toInt32 .lseekResponse

def LseekResponsePacket.ofBuffer := WordPacket.ofBuffer toInt32

/-- `RemoveResponsePacket(int result)` -/
def RemoveResponsePacket.create := WordPacket.create toInt32 .removeResponse

def RemoveResponsePacket.ofBuffer := WordPacket.ofBuffer toInt32

/-- `MkdirResponsePacket(int result)` -/
def MkdirResponsePacket.create := WordPacket.create toInt32 .mkdirResponse

def MkdirResponsePacket.ofBuffer := WordPacket.ofBuffer toInt32

/-! ### Classes about a part of a file -/

/-- `class FilePacket` -/
@[ext]
structure FilePacket extends Packet where
  fd : ℤ
  fileId : ℤ
  stripeId : ℤ
  chunkNum : ℤ
  offset : ℤ
  count : ℤ
  deriving DecidableEq, Repr

/-- The `data_size` of a `FilePacket`. -/
def FilePacket.dataSize : ℕ := 24

/-- `FilePacket(id, flag, derived_size, fd, …, count)` -/
def FilePacket.create (junk : ℕ → UInt8) (id : ℤ) (flag : PacketFlag)
    (derivedSize fd fileId stripeId chunkNum offset count : ℤ) : FilePacket :=
  let base := Packet.create junk id flag (derivedSize + dataSize)
  let fields := [fd, fileId, stripeId, chunkNum, offset, count]
  { base with
    packet := patch base.packet Packet.headerSize (words fields)
    fd := toUInt32 fd
    fileId := toUInt32 fileId
    stripeId := toUInt32 stripeId
    chunkNum := toUInt32 chunkNum
    offset := toUInt32 offset
    count := toInt32 count }

/-- `FilePacket(void *buf, ssize_t size)` -/
def FilePacket.ofBuffer (buf : List UInt8) : FilePacket :=
  let base := Packet.headerSize
  { Packet.ofBuffer buf with
    fd := getWord buf base
    fileId := getWord buf (base + 4)
    stripeId := getWord buf (base + 8)
    chunkNum := getWord buf (base + 12)
    offset := getWord buf (base + 16)
    count := toInt32 (getWord buf (base + 20)) }

/-- `ReadChunkRequest(id, fd, …, count)` -/
def ReadChunkRequest.create (junk : ℕ → UInt8)
    (id fd fileId stripeId chunkNum offset count : ℤ) : FilePacket :=
  .create junk id .readChunk 0 fd fileId stripeId chunkNum offset count

def ReadChunkRequest.ofBuffer := FilePacket.ofBuffer

/-- `WriteChunkResponse(id, fd, …, count)` -/
def WriteChunkResponse.create (junk : ℕ → UInt8)
    (id fd fileId stripeId chunkNum offset count : ℤ) : FilePacket :=
  .create junk id .writeChunkResponse 0 fd fileId stripeId chunkNum offset count

def WriteChunkResponse.ofBuffer := FilePacket.ofBuffer

/-- `DeleteChunkRequest(id, file_id, stripe_id, chunk_num)`. The member `fd` is passed on
before it is set: it is whatever is there. -/
def DeleteChunkRequest.create (junk : ℕ → UInt8) (fd id fileId stripeId chunkNum : ℤ) :
    FilePacket :=
  .create junk id .deleteChunk 0 fd fileId stripeId chunkNum (-1) (-1)

def DeleteChunkRequest.ofBuffer := FilePacket.ofBuffer

/-- `DeleteChunkResponse(id, file_id, stripe_id, chunk_num)`, with `fd` as in the request. -/
def DeleteChunkResponse.create (junk : ℕ → UInt8) (fd id fileId stripeId chunkNum : ℤ) :
    FilePacket :=
  .create junk id .deleteChunkResponse 0 fd fileId stripeId chunkNum (-1) (-1)

def DeleteChunkResponse.ofBuffer := FilePacket.ofBuffer

/-- `ReadRequest(fd, count)` -/
def ReadRequest.create (junk : ℕ → UInt8) (fd count : ℤ) : FilePacket :=
  .create junk 0 .read 0 fd 0 0 0 0 count

def ReadRequest.ofBuffer := FilePacket.ofBuffer

/-- `WriteResponsePacket(fd, count)` -/
def WriteResponsePacket.create (junk : ℕ → UInt8) (fd count : ℤ) : FilePacket :=
  .create junk 0 .writeResponse 0 fd 0 0 0 0 count

def WriteResponsePacket.ofBuffer := FilePacket.ofBuffer

/-! ### Classes with data -/

/-- `class FileDataPacket`; `none` is the `NULL` pointer. -/
@[ext]
structure FileDataPacket extends FilePacket where
  dataBuffer : Option ℕ
  deriving DecidableEq, Repr

/-- `FilePacket::dataSize()` -/
def FileDataPacket.dataPos : ℕ := Packet.headerSize + FilePacket.dataSize

/-- `FileDataPacket(id, flag, derived_size, fd, …, count, buf)`, which does not use the size it
is given. -/
def FileDataPacket.create (junk : ℕ → UInt8) (id : ℤ) (flag : PacketFlag)
    (fd fileId stripeId chunkNum offset count : ℤ) (buf : List UInt8) : FileDataPacket :=
  let base := FilePacket.create junk id flag (max 0 (toInt32 count)) fd fileId stripeId chunkNum
    offset (toInt32 count)
  { base with
    packet := if 0 < toInt32 count then patch base.packet dataPos (buf.take (toInt32 count).toNat)
      else base.packet
    dataBuffer := some dataPos }

/-- `FileDataPacket(void *buf, ssize_t size)` -/
def FileDataPacket.ofBuffer (buf : List UInt8) : FileDataPacket :=
  let base := FilePacket.ofBuffer buf
  { base with dataBuffer := if 0 < base.count then some dataPos else none }

/-- The `count` bytes `data_buffer` points at. -/
def FileDataPacket.data (p : FileDataPacket) : List UInt8 :=
  match p.dataBuffer with
  | some pos => slice p.packet pos p.count.toNat
  | none => []

/-- `WriteChunkRequest(id, fd, …, count, buf)` -/
def WriteChunkRequest.create (junk : ℕ → UInt8)
    (id fd fileId stripeId chunkNum offset count : ℤ) (buf : List UInt8) : FileDataPacket :=
  .create junk id .writeChunk fd fileId stripeId chunkNum offset count buf

def WriteChunkRequest.ofBuffer := FileDataPacket.ofBuffer

/-- `ReadChunkResponse(id, fd, …, count, buf)` -/
def ReadChunkResponse.create (junk : ℕ → UInt8)
    (id fd fileId stripeId chunkNum offset count : ℤ) (buf : List UInt8) : FileDataPacket :=
  .create junk id .readChunkResponse fd fileId stripeId chunkNum offset count buf

def ReadChunkResponse.ofBuffer := FileDataPacket.ofBuffer

/-- `ReadResponsePacket(fd, count, buf)` -/
def ReadResponsePacket.create (junk : ℕ → UInt8) (fd count : ℤ) (buf : List UInt8) :
    FileDataPacket :=
  .create junk 0 .readResponse fd 0 0 0 0 count buf

def ReadResponsePacket.ofBuffer := FileDataPacket.ofBuffer

/-- `WritePacket(fd, count, buf)` -/
def WritePacket.create (junk : ℕ → UInt8) (fd count : ℤ) (buf : List UInt8) : FileDataPacket :=
  .create junk 0 .write fd 0 0 0 0 count buf

def WritePacket.ofBuffer := FileDataPacket.ofBuffer

/-! ### Classes with a string -/

/-- The classes whose only member is a string, behind the header. -/
@[ext]
structure StringPacket extends Packet where
  filepath : ℕ
  deriving DecidableEq, Repr

/-- The string the member points at. -/
def StringPacket.text (p : StringPacket) : List UInt8 := cString p.packet p.filepath

/-- The field constructor; `strlen + 1` bytes are copied. -/
def StringPacket.create (flag : PacketFlag) (junk : ℕ → UInt8) (filename : List UInt8) :
    StringPacket :=
  let base := Packet.create junk 0 flag (toInt32 (filename.length + 1))
  { base with
    packet := patch base.packet Packet.headerSize (filename ++ [0])
    filepath := Packet.headerSize }

/-- The buffer constructor. -/
def StringPacket.ofBuffer (buf : List UInt8) : StringPacket :=
  { Packet.ofBuffer buf with filepath := Packet.headerSize }

/-- `RemovePacket(const char *filename)` -/
def RemovePacket.create := StringPacket.create .remove

def RemovePacket.ofBuffer := StringPacket.ofBuffer

/-- `OpendirPacket(const char *filename)` -/
def OpendirPacket.create := StringPacket.create .opendir

def OpendirPacket.ofBuffer := StringPacket.ofBuffer

/-- `FileStorageStatPacket(const char *filepath)` -/
def FileStorageStatPacket.create := StringPacket.create .fileStorageStat

def FileStorageStatPacket.ofBuffer := StringPacket.ofBuffer

/-- `FileStorageStatResponsePacket(const char *data)` -/
def FileStorageStatResponsePacket.create := StringPacket.create .fileStorageStatResponse

def FileStorageStatResponsePacket.ofBuffer := StringPacket.ofBuffer

/-- `OpenPacket` and `MkdirPacket`: a word and a string behind it. -/
@[ext]
structure WordStringPacket extends Packet where
  value : ℤ
  filepath : ℕ
  deriving DecidableEq, Repr

/-- The string the member points at. -/
def WordStringPacket.text (p : WordStringPacket) : List UInt8 := cString p.packet p.filepath

/-- `OpenPacket(int flags, const char *filename)`, which copies the characters first and writes
the `'\0'` behind them. -/
def OpenPacket.create (junk : ℕ → UInt8) (flags : ℤ) (filename : List UInt8) :
    WordStringPacket :=
  let base := Packet.create junk 0 .open (toInt32 (filename.length + 1 + 4))
  let filepath := Packet.headerSize + 4
  { base with
    packet := patch (patch (patch base.packet Packet.headerSize (words [toInt32 flags]))
      filepath filename) (filepath + filename.length) [0]
    value := toInt32 flags
    filepath := filepath }

/-- `OpenPacket(void *buf, ssize_t length)` -/
def OpenPacket.ofBuffer (buf : List UInt8) : WordStringPacket :=
  { Packet.ofBuffer buf with
    value := toInt32 (getWord buf Packet.headerSize)
    filepath := Packet.headerSize + 4 }

/-- `MkdirPacket(const char *filename, mode_t mode)` -/
def MkdirPacket.create (junk : ℕ → UInt8) (filename : List UInt8) (mode : ℤ) :
    WordStringPacket :=
  let base := Packet.create junk 0 .mkdir (toInt32 (filename.length + 1 + 4))
  let filepath := Packet.headerSize + 4
  { base with
    packet := patch (patch base.packet Packet.headerSize (words [toUInt32 mode]))
      filepath (filename ++ [0])
    value := toUInt32 mode
    filepath := filepath }

/-- `MkdirPacket(void *buf, ssize_t length)` -/
def MkdirPacket.ofBuffer (buf : List UInt8) : WordStringPacket :=
  { Packet.ofBuffer buf with
    value := toUInt32 (getWord buf Packet.headerSize)
    filepath := Packet.headerSize + 4 }

/-! ### The seek request -/

/-- `class LseekPacket` -/
@[ext]
structure LseekPacket extends Packet where
  fd : ℤ
  offset : ℤ
  whence : ℤ
  deriving DecidableEq, Repr

/-- `LseekPacket(int32_t fd, int32_t offset, int32_t whence)` -/
def LseekPacket.create (junk : ℕ → UInt8) (fd offset whence : ℤ) : LseekPacket :=
  let base := Packet.create junk 0 .lseek 12
  { base with
    packet := patch base.packet Packet.headerSize (words [fd, offset, whence])
    fd := toInt32 fd
    offset := toInt32 offset
    whence := toInt32 whence }

/-- `LseekPacket(void *buf, ssize_t length)` -/
def LseekPacket.ofBuffer (buf : List UInt8) : LseekPacket :=
  { Packet.ofBuffer buf with
    fd := toInt32 (getWord buf Packet.headerSize)
    offset := toInt32 (getWord buf (Packet.headerSize + 4))
    whence := toInt32 (getWord buf (Packet.headerSize + 8)) }

end DecaFS
