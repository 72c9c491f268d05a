import MultiportNetwork.Lib.ByteOrder
import MultiportNetwork.Lib.Memory
import Mathlib.Data.List.GetD
import Mathlib.Tactic.Simps.Basic

/-!
# MultiportNetwork.Define

The data of the server: `settings.h`, `server_define.h` and the table of
`assoc.h`.

Conventions. `int` counters that can be compared or subtracted at the wrong sign
are `Int`; lengths and offsets that only ever grow from zero are `Nat`; the
fixed-width protocol fields keep their widths. `std::string` is a list of bytes,
an allocation a flat `Memory`, a pointer into one an offset. Response buffers are
as large as what is stored in them: that nothing is stored past their declared
sizes is a property of runs, not of the types.
-/

namespace MultiportNetwork

open ByteOrder

/-! ### `settings.h` -/

def initReadBufSize : Nat := 1000
def initRetBufSize : Nat := 1000
def batchBufSize : Nat := 1000000
def roundNum : Nat := 20

/-! ### The wire header -/

/-- The contents of a `std::string` or of a byte range. -/
abbrev Bytes := List UInt8

/-- `protocol_binary_request_header`. -/
structure RequestHeader where
  magic : UInt8 := 0
  opcode : UInt8 := 0
  keylen : UInt16 := 0
  batchnum : UInt16 := 0
  prehash : UInt8 := 0
  reserved : UInt8 := 0
  totalbodylen : UInt32 := 0
  deriving Repr, DecidableEq

/-- `sizeof(protocol_binary_request_header)`. -/
def headerSize : Nat := 12

/-- The bytes of a header as the (little-endian) host stores it. -/
def RequestHeader.toBytes (h : RequestHeader) : Bytes :=
  [h.magic, h.opcode] ++ toLE 2 h.keylen.toNat ++ toLE 2 h.batchnum.toNat ++
    [h.prehash, h.reserved] ++ toLE 4 h.totalbodylen.toNat

/-- The header a host reads from the first twelve bytes of `bs`. -/
def RequestHeader.ofBytes (bs : Bytes) : RequestHeader where
  magic := bs.getD 0 0
  opcode := bs.getD 1 0
  keylen := le16 (bs.getD 2 0) (bs.getD 3 0)
  batchnum := le16 (bs.getD 4 0) (bs.getD 5 0)
  prehash := bs.getD 6 0
  reserved := bs.getD 7 0
  totalbodylen := le32 (bs.getD 8 0) (bs.getD 9 0) (bs.getD 10 0) (bs.getD 11 0)

/-- `PROTOCOL_BINARY_REQ` and `PROTOCOL_BINARY_RES`. -/
def protocolBinaryReq : UInt8 := 0x80
def protocolBinaryRes : UInt8 := 0x81

/-- `protocol_binary_command`. -/
def cmdGet : Nat := 0x01
def cmdGetbatchHead : Nat := 0x03
def cmdSet : Nat := 0x04

@[simp] theorem RequestHeader.length_toBytes (h : RequestHeader) :
    h.toBytes.length = headerSize := by
  simp [toBytes, headerSize]

theorem RequestHeader.ofBytes_append {bs : Bytes} (h : headerSize ≤ bs.length) (ys : Bytes) :
    ofBytes (bs ++ ys) = ofBytes bs := by
  have hget : ∀ i, i < 12 → (bs ++ ys).getD i 0 = bs.getD i 0 := fun i hi => by
    rw [List.getD_append _ _ _ _ (Nat.lt_of_lt_of_le hi h)]
  simp only [ofBytes, hget, Nat.reduceLT]

/-- Reading back a stored header gives the header stored. -/
@[simp] theorem RequestHeader.ofBytes_toBytes (h : RequestHeader) :
    ofBytes h.toBytes = h := by
  simp [ofBytes, toBytes, toLE, le16_toLE, le32_toLE]

/-! ### States -/

/-- `conn_states`. -/
inductive ConnState
  | connParseCmd | connCount | connDealWith | connNewCmd | connWaiting | connRead
  | connWrite | connNread | connSwallow | connClosing | connMwrite | connClosed
  | connWatch | connMaxState
  deriving Repr, DecidableEq

/-- `work_states`. -/
inductive WorkState
  | parseHead | readKeyValue | storeKvobj | queryKey | writeBcak
  deriving Repr, DecidableEq

/-- `try_read_result`. -/
inductive TryReadResult
  | readDataReceived | readNoDataReceived | readError | readMemoryError
  deriving Repr, DecidableEq

/-! ### Connections -/

/-- `batchbuf`: an allocation of `BATCH_BUF_SIZE` bytes, of which `datalen` are
filled and `offset` already sent. -/
structure Batchbuf where
  buf : Memory UInt8
  datalen : Nat
  offset : Nat

/-- A buffer as `malloc` and the two assignments behind it leave it. No byte of it
is read before it is stored, so the fresh contents do not matter. -/
def Batchbuf.fresh : Batchbuf := ⟨fun _ => 0, 0, 0⟩

/-- `struct CONNECTION`. `workingBuf` is `working_buf - read_buf`, and `eventAdded`
says that `event` is registered with the event base. -/
structure Connection where
  sfd : Nat
  threadIndex : Nat
  readBufSize : Int
  readBuf : Memory UInt8
  recvBytes : Int
  totalBytes : Int
  workingBuf : Nat
  workedBytes : Int
  remainingBytes : Int
  retBufSize : Int
  retBuf : Memory UInt8
  retBufOffset : Nat
  retBytes : Nat
  batchRetVector : List Batchbuf
  bytesProcessedInThisConnection : Nat
  bytesWroteBackInThisConnection : Nat
  eventAdded : Bool
  connState : ConnState
  workState : WorkState
  binaryHeader : RequestHeader
  cmd : Nat
  key : Bytes
  value : Bytes
  queryHit : Bool
  batchNum : UInt16
  batchCount : UInt16
  inBatchGet : Bool

/-- `conn_new`: a new `CONNECTION` with its two `malloc`ed buffers, whose contents
are whatever the allocator hands out. `conns[sfd]` is never assigned, so the
branch that would reuse an old object is never taken. -/
def connNew (sfd threadIndex : Nat) (readBuf retBuf : Memory UInt8) : Connection where
  sfd := sfd
  threadIndex := threadIndex
  readBufSize := initReadBufSize
  readBuf := readBuf
  recvBytes := 0
  totalBytes := 0
  workingBuf := 0
  workedBytes := 0
  remainingBytes := 0
  retBufSize := initRetBufSize
  retBuf := retBuf
  retBufOffset := 0
  retBytes := 0
  batchRetVector := []
  bytesProcessedInThisConnection := 0
  bytesWroteBackInThisConnection := 0
  eventAdded := true
  connState := .connRead
  workState := .parseHead
  binaryHeader := {}
  cmd := 0
  key := []
  value := []
  queryHit := false
  batchNum := 0
  batchCount := 0
  inBatchGet := false

/-- `conn_state_jump`. -/
@[simps] def Connection.connStateJump (c : Connection) (t : ConnState) : Connection :=
  { c with connState := t }

/-- `work_state_jump`. -/
@[simps] def Connection.workStateJump (c : Connection) (t : WorkState) : Connection :=
  { c with workState := t }

/-! ### System calls -/

/-- The `errno` values the server tells apart. -/
inductive Errno
  | EAGAIN | EWOULDBLOCK | SIGPIPE | other
  deriving Repr, DecidableEq

/-- What a system call leaves behind: its return value and `errno`. -/
structure SysRet where
  ret : Int
  errno : Errno
  deriving Repr, DecidableEq

/-- `errno == EAGAIN || errno == EWOULDBLOCK`. -/
def SysRet.wouldBlock (r : SysRet) : Bool := r.errno == .EAGAIN || r.errno == .EWOULDBLOCK

/-! ### The table -/

/-- The cuckoo hash map, each of whose operations is one atomic step that succeeds. That they
take many steps, and that `insert_or_assign` may throw, which ends the process, is the subject of
`MultiportNetwork.Server.Table` and of `MultiportNetwork.Isolation`. -/
abbrev HashTable := Bytes → Option Bytes

def HashTable.insertOrAssign (t : HashTable) (key value : Bytes) : HashTable :=
  fun k => if k = key then some value else t k

/-- On a miss the caller's value argument is left alone, hence `Option`. -/
def HashTable.find (t : HashTable) (key : Bytes) : Option Bytes := t key

/-! ### Events -/

/-- What one pass of `process_func`'s loop does besides changing the connection. -/
inductive Event
  /-- Bytes received from the socket. -/
  | read (bytes : Bytes)
  /-- A header handed to `dispatch_bin_command`, inside a batch or not. -/
  | dispatch (h : RequestHeader) (inBatch : Bool)
  /-- `hashTable.insert_or_assign`. -/
  | insertOrAssign (key value : Bytes)
  /-- `hashTable.find` and what it found. -/
  | find (key : Bytes) (found : Option Bytes)
  /-- A packet built by `con_ret_buf`, inside a batch or not. -/
  | reply (inBatch : Bool) (packet : Bytes)
  /-- Bytes the socket accepted. -/
  | write (bytes : Bytes)
  /-- `conn_close`. -/
  | close
  /-- `exit`. -/
  | exit
  deriving Repr, DecidableEq

end MultiportNetwork
