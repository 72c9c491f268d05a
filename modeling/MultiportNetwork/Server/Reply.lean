import MultiportNetwork.Define

/-!
# MultiportNetwork.Server.Reply

Building and sending responses: `con_ret_buf` and `send_batch`.

A response is one header followed by the key and either the stored value or the
eight bytes `NOTFOUND`. A single GET's response goes to `ret_buf`, a batch's
responses are appended to the last buffer of `batch_ret_vector`.
-/

namespace MultiportNetwork

open ByteOrder

/-- `notfound_ans`, without the terminating zero that is never sent. -/
def notfoundAns : Bytes := [78, 79, 84, 70, 79, 85, 78, 68]

@[simp] theorem length_notfoundAns : notfoundAns.length = 8 := rfl

namespace Connection

/-- `batch_ret_vector.back()`. -/
def back (c : Connection) : Batchbuf := c.batchRetVector.getLastD .fresh

/-- `valuelen` of `con_ret_buf`. -/
def valuelen (c : Connection) : Nat := if c.queryHit then c.value.length else 8

/-- The response header. Its body length is computed from the `value` field, hit
or miss, and inside a batch its number is stored in host order. -/
def respHead (c : Connection) : RequestHeader where
  magic := protocolBinaryRes
  opcode := 0x01
  keylen := htons (UInt16.ofNat c.key.length)
  batchnum := if c.inBatchGet then c.batchCount else htons 1
  prehash := 0
  reserved := 0
  totalbodylen := htonl (UInt32.ofNat (c.key.length + c.value.length))

/-- What follows the key in a response. -/
def respAns (c : Connection) : Bytes := if c.queryHit then c.value else notfoundAns

/-- The bytes `con_ret_buf` stores: header, key and answer, one behind the other. -/
def respPacket (c : Connection) : Bytes := c.respHead.toBytes ++ c.key ++ c.respAns

theorem length_respAns (c : Connection) : c.respAns.length = c.valuelen := by
  unfold respAns valuelen
  split <;> simp

theorem length_respPacket (c : Connection) :
    c.respPacket.length = headerSize + c.key.length + c.valuelen := by
  simp [respPacket, length_respAns]
  omega

/-- Is there, by `con_ret_buf`'s own test, too little room in the last buffer? -/
def needNewBuf (c : Connection) : Bool :=
  batchBufSize < c.back.datalen + headerSize + c.key.length + c.value.length

/-- The buffers with room made for the next response. -/
def openBuf (c : Connection) : List Batchbuf :=
  if c.needNewBuf then c.batchRetVector ++ [.fresh] else c.batchRetVector

end Connection

/-- Append `packet` to a buffer, counting it as `len` bytes. -/
def Batchbuf.append (b : Batchbuf) (packet : Bytes) (len : Nat) : Batchbuf :=
  { b with buf := b.buf.store b.datalen packet, datalen := b.datalen + len }

/-- `con_ret_buf`. On a miss `ret_bytes` grows in either mode, and outside a batch
a second time below. -/
def conRetBuf (c : Connection) : Connection :=
  let headlen := headerSize
  let keylen := c.key.length
  let missed := if c.queryHit then 0 else headlen + keylen + 8
  if c.inBatchGet then
    let buffers := c.openBuf
    let last := (buffers.getLastD .fresh).append c.respPacket (headlen + keylen + c.valuelen)
    { c with
      batchRetVector := buffers.dropLast ++ [last]
      batchCount := c.batchCount + 1
      retBytes := c.retBytes + missed
      workState := .writeBcak }
  else
    { c with
      retBuf := c.retBuf.store c.retBufOffset c.respPacket
      retBytes := c.retBytes + missed + (headlen + keylen + c.valuelen)
      workState := .writeBcak }

/-- In a batch `con_ret_buf` appends to the last buffer. -/
theorem conRetBuf_batch {c : Connection} (h : c.inBatchGet = true) :
    conRetBuf c =
      { c with
        batchRetVector := c.openBuf.dropLast ++
          [(c.openBuf.getLastD .fresh).append c.respPacket (headerSize + c.key.length + c.valuelen)]
        batchCount := c.batchCount + 1
        retBytes := c.retBytes + if c.queryHit then 0 else headerSize + c.key.length + 8
        workState := .writeBcak } := by
  simp only [conRetBuf, h, if_true]

/-- Outside a batch it fills `ret_buf`. -/
theorem conRetBuf_single {c : Connection} (h : c.inBatchGet = false) :
    conRetBuf c =
      { c with
        retBuf := c.retBuf.store c.retBufOffset c.respPacket
        retBytes := c.retBytes + (if c.queryHit then 0 else headerSize + c.key.length + 8) +
          (headerSize + c.key.length + c.valuelen)
        workState := .writeBcak } := by
  simp only [conRetBuf, h, if_false, Bool.false_eq_true]

section
variable (c : Connection)

@[simp] theorem conRetBuf_readBufSize : (conRetBuf c).readBufSize = c.readBufSize := by
  cases h : c.inBatchGet <;> simp [conRetBuf, h]
@[simp] theorem conRetBuf_readBuf : (conRetBuf c).readBuf = c.readBuf := by
  cases h : c.inBatchGet <;> simp [conRetBuf, h]
@[simp] theorem conRetBuf_workingBuf : (conRetBuf c).workingBuf = c.workingBuf := by
  cases h : c.inBatchGet <;> simp [conRetBuf, h]
@[simp] theorem conRetBuf_remainingBytes :
    (conRetBuf c).remainingBytes = c.remainingBytes := by
  cases h : c.inBatchGet <;> simp [conRetBuf, h]
@[simp] theorem conRetBuf_retBufSize : (conRetBuf c).retBufSize = c.retBufSize := by
  cases h : c.inBatchGet <;> simp [conRetBuf, h]
@[simp] theorem conRetBuf_retBufOffset : (conRetBuf c).retBufOffset = c.retBufOffset := by
  cases h : c.inBatchGet <;> simp [conRetBuf, h]
@[simp] theorem conRetBuf_eventAdded : (conRetBuf c).eventAdded = c.eventAdded := by
  cases h : c.inBatchGet <;> simp [conRetBuf, h]
@[simp] theorem conRetBuf_connState : (conRetBuf c).connState = c.connState := by
  cases h : c.inBatchGet <;> simp [conRetBuf, h]
@[simp] theorem conRetBuf_workState : (conRetBuf c).workState = .writeBcak := by
  cases h : c.inBatchGet <;> simp [conRetBuf, h]
@[simp] theorem conRetBuf_binaryHeader : (conRetBuf c).binaryHeader = c.binaryHeader := by
  cases h : c.inBatchGet <;> simp [conRetBuf, h]
@[simp] theorem conRetBuf_key : (conRetBuf c).key = c.key := by
  cases h : c.inBatchGet <;> simp [conRetBuf, h]
@[simp] theorem conRetBuf_value : (conRetBuf c).value = c.value := by
  cases h : c.inBatchGet <;> simp [conRetBuf, h]
@[simp] theorem conRetBuf_batchNum : (conRetBuf c).batchNum = c.batchNum := by
  cases h : c.inBatchGet <;> simp [conRetBuf, h]
@[simp] theorem conRetBuf_inBatchGet : (conRetBuf c).inBatchGet = c.inBatchGet := by
  cases h : c.inBatchGet <;> simp [conRetBuf, h]

end

namespace Connection

/-- Count `n` bytes as processed. -/
@[simps] def processed (c : Connection) (n : Nat) : Connection :=
  { c with bytesProcessedInThisConnection := c.bytesProcessedInThisConnection + n }

/-- Count `n` bytes as written back. -/
@[simps] def wrote (c : Connection) (n : Nat) : Connection :=
  { c with bytesWroteBackInThisConnection := c.bytesWroteBackInThisConnection + n }

/-- The buffers of a batch after some of their bytes have been sent. -/
@[simps] def setBuffers (c : Connection) (buffers : List Batchbuf) : Connection :=
  { c with batchRetVector := buffers }

/-- The last buffer of a batch has been sent and erased. -/
@[simps] def endBatch (c : Connection) : Connection :=
  { c with
    batchRetVector := []
    inBatchGet := false
    batchNum := 0
    batchCount := 0
    workState := .parseHead
    connState := .connNewCmd }

/-- The response of a single GET has been sent. -/
@[simps] def endSingle (c : Connection) : Connection :=
  { c with
    retBufOffset := 0
    retBytes := 0
    workState := .parseHead
    connState := .connNewCmd }

/-- The first `n` of the bytes left in `ret_buf` have been sent. -/
@[simps] def skipSingle (c : Connection) (n : Nat) : Connection :=
  { c with retBufOffset := c.retBufOffset + n, retBytes := c.retBytes - n }

end Connection

/-- The bytes of a buffer that are still to be sent, as a number. -/
def Batchbuf.left (b : Batchbuf) : Nat := b.datalen - b.offset

/-- The first `n` of the bytes left in a buffer have been sent. -/
def Batchbuf.skip (b : Batchbuf) (n : Nat) : Batchbuf := { b with offset := b.offset + n }

/-- `send_batch`, given what `write` returns if it is called. -/
def sendBatch (c : Connection) (r : SysRet) : Connection × List Event :=
  let c := c.processed (headerSize + c.binaryHeader.keylen.toNat)
  if c.batchCount < c.batchNum then
    ((c.workStateJump .parseHead).connStateJump .connNewCmd, [])
  else if c.batchCount = c.batchNum then
    match c.batchRetVector with
    | [] => (c, [])
    | it :: rest =>
      if r.ret ≤ 0 then
        if r.wouldBlock then (c.connStateJump .connWaiting, [])
        else if r.errno = .SIGPIPE then (c.connStateJump .connClosing, [])
        else (c.connStateJump .connClosing, [])
      else
        let n := r.ret.toNat
        let sent := it.buf.load it.offset n
        let c := c.wrote n
        if r.ret = it.left then
          if rest = [] then (c.endBatch, [.write sent])
          else ((c.setBuffers rest).connStateJump .connWaiting, [.write sent])
        else if r.ret < it.left then
          ((c.setBuffers (it.skip n :: rest)).connStateJump .connWaiting, [.write sent])
        else (c, [.write sent])
  -- more answers than the batch asked for: nothing changes, and the caller's loop
  -- comes straight back here
  else (c, [])

/-- The `write_bcak` case outside a batch, given what `write` returns. -/
def sendSingle (c : Connection) (r : SysRet) : Connection × List Event :=
  if r.ret ≤ 0 then
    if r.wouldBlock then (c.connStateJump .connWaiting, [])
    else (c.connStateJump .connClosing, [])
  else
    let n := r.ret.toNat
    let sent := c.retBuf.load c.retBufOffset n
    let c := c.wrote n
    if r.ret = c.retBytes then (c.endSingle, [.write sent])
    else if r.ret < c.retBytes then ((c.skipSingle n).connStateJump .connWaiting, [.write sent])
    else (c, [.write sent])

end MultiportNetwork
