import MultiportNetwork.Define

/-!
# MultiportNetwork.Server.Parse

Receiving and parsing: `try_read_network`, `try_read_head_binary`,
`dispatch_bin_command` and `try_read_key_value`.

The receive window is the `remaining_bytes` bytes at `working_buf`. A read first
moves the window to the front of `read_buf` and then receives behind it.
-/

namespace MultiportNetwork

open ByteOrder

/-- An `int` in a comparison with a `uint32_t`. -/
def toU32 (x : Int) : Nat := (x % 2 ^ 32).toNat

/-- An `int` in a comparison with a `size_t`. -/
def toU64 (x : Int) : Nat := (x % 2 ^ 64).toNat

/-! ### `try_read_network` -/

/-- Move the unread bytes to the front of `read_buf`, unless they are there. -/
@[simps] def compact (c : Connection) : Connection :=
  { c with
    readBuf :=
      if c.workingBuf ≠ 0 ∧ c.remainingBytes ≠ 0 then
        c.readBuf.move c.workingBuf 0 c.remainingBytes.toNat
      else c.readBuf
    workingBuf := 0 }

/-- `avail`, the length handed to `read`. -/
def Connection.avail (c : Connection) : Int := c.readBufSize - c.remainingBytes

/-- `read` has put `bytes` behind the unread ones and returned `res`. -/
@[simps] def Connection.receive (c : Connection) (bytes : Bytes) (res : Int) : Connection :=
  { c with
    readBuf := c.readBuf.store c.remainingBytes.toNat bytes
    recvBytes := res
    totalBytes := c.remainingBytes + res
    remainingBytes := c.remainingBytes + res
    workedBytes := 0 }

/-- `try_read_network`, given what `read` returns; the bytes received are taken
from `inbox`, what the peer has sent and the server not yet read. -/
def tryReadNetwork (c : Connection) (inbox : Bytes) (r : SysRet) :
    TryReadResult × Connection × Bytes :=
  let gotdata := TryReadResult.readNoDataReceived
  let c := compact c
  if r.ret > 0 then
    (.readDataReceived, c.receive (inbox.take r.ret.toNat) r.ret, inbox.drop r.ret.toNat)
  else if r.ret = 0 then (.readError, c, inbox)
  -- any other failure ends like "would block", with the same result
  else if r.ret = -1 ∧ r.wouldBlock then (gotdata, c, inbox)
  else (gotdata, c, inbox)

/-! ### Headers -/

/-- Copy the header at `working_buf` to `binary_header`, in host order. The
`reserved` byte is not copied. -/
@[simps readBufSize readBuf workingBuf remainingBytes retBuf retBufOffset retBytes
  batchRetVector eventAdded connState workState key value queryHit batchNum batchCount
  inBatchGet]
def loadHeader (c : Connection) : Connection :=
  let req := RequestHeader.ofBytes (c.readBuf.load c.workingBuf headerSize)
  { c with
    binaryHeader :=
      { c.binaryHeader with
        magic := req.magic
        opcode := req.opcode
        keylen := ntohs req.keylen
        batchnum := ntohs req.batchnum
        prehash := req.prehash
        totalbodylen := ntohl req.totalbodylen }
    cmd := req.opcode.toNat }

/-- `case PROTOCOL_BINARY_CMD_GETBATCH_HEAD`. -/
@[simps] def openBatch (c : Connection) : Connection :=
  { c with
    batchNum := c.binaryHeader.batchnum
    batchCount := 0
    inBatchGet := true
    batchRetVector := c.batchRetVector ++ [.fresh]
    workState := .parseHead }

/-- `dispatch_bin_command`. -/
def dispatchBinCommand (c : Connection) : Connection :=
  let keylen := c.binaryHeader.keylen.toNat
  let bodylen := c.binaryHeader.totalbodylen.toNat
  if keylen > bodylen then c.connStateJump .connClosing
  else if c.cmd = cmdSet then
    if keylen ≠ 0 ∧ bodylen ≥ keylen + 8 then c.workStateJump .readKeyValue else c
  else if c.cmd = cmdGetbatchHead then openBatch c
  else if c.cmd = cmdGet then
    if keylen ≠ 0 ∧ bodylen = keylen then c.workStateJump .readKeyValue else c
  else c

/-- Move the window past `n` parsed bytes. -/
@[simps] def Connection.advance (c : Connection) (n : Nat) : Connection :=
  { c with
    remainingBytes := c.remainingBytes - n
    workedBytes := c.workedBytes + n
    workingBuf := c.workingBuf + n }

/-- `try_read_head_binary`; `none` is `exit(-1)`. -/
def tryReadHeadBinary (c : Connection) : Option (Int × Connection) :=
  if toU64 c.remainingBytes < headerSize then some (0, c)
  else
    let c := loadHeader c
    if c.inBatchGet ∧ c.batchCount ≠ c.binaryHeader.batchnum then none
    else some (1, (dispatchBinCommand c).advance headerSize)

/-! ### Bodies -/

/-- A SET has been read and is to be stored. -/
@[simps] def Connection.setRead (c : Connection) (key value : Bytes) : Connection :=
  { c with key := key, value := value, workState := .storeKvobj }

/-- A GET has been read and is to be looked up. -/
@[simps] def Connection.getRead (c : Connection) (key : Bytes) : Connection :=
  { c with key := key, workState := .queryKey }

/-- `try_read_key_value`. -/
def tryReadKeyValue (c : Connection) : Int × Connection :=
  let keylen := c.binaryHeader.keylen
  if c.cmd = cmdSet then
    let kvbytes := c.binaryHeader.totalbodylen
    if toU32 c.remainingBytes < kvbytes.toNat then (0, c)
    else
      let key := c.readBuf.load c.workingBuf keylen.toNat
      let value :=
        c.readBuf.load (c.workingBuf + keylen.toNat) (kvbytes - keylen.toUInt32).toNat
      (1, (c.setRead key value).advance kvbytes.toNat)
  else if c.cmd = cmdGet then
    let keybytes : Int := keylen.toNat
    if c.remainingBytes < keybytes then (0, c)
    else
      let key := c.readBuf.load c.workingBuf keylen.toNat
      (1, (c.getRead key).advance keylen.toNat)
  else (-1, c)

end MultiportNetwork
