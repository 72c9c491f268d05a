import MultiportNetwork.Server.Parse
import MultiportNetwork.Server.Reply
import MultiportNetwork.Lib.Run

/-!
# MultiportNetwork.Server.Process

The state machine: `process_func`, one pass of its loop at a time.

A `State` is one connection with what surrounds it while `process_func` runs:
the bytes its client has sent and the server has not read, the shared table, and
the function's two locals. A pass makes at most one system call, so it takes one
`SysRet` and ignores it where it makes none.

`Step` is the transition system all results about runs are about. Between calls
(`stop = true`) the event loop may call `process_func` again, as long as the
event is registered; inside a call the loop body runs; and at any time the other
connections may change the table. An `Env` says which results of system calls are
possible.
-/

namespace MultiportNetwork

/-- A connection under `process_func`. -/
structure State where
  c : Connection
  /-- What the client has sent and the server has not read. -/
  inbox : Bytes
  table : HashTable
  /-- `inst_count`. -/
  instCount : Nat
  stop : Bool
  /-- The process has called `exit`. -/
  exited : Bool

/-- `reset_cmd_handler`. -/
def resetCmdHandler (c : Connection) : Connection :=
  if c.remainingBytes > 0 then c.connStateJump .connDealWith else c.connStateJump .connWaiting

/-- `conn_close`: delete the event and close the socket. -/
@[simps] def connClose (c : Connection) : Connection := { c with eventAdded := false }

/-! ### The cases of the loop body -/

/-- `case conn_read`. -/
def onConnRead (s : State) (r : SysRet) : State × List Event :=
  match tryReadNetwork s.c s.inbox r with
  | (.readNoDataReceived, c, inbox) =>
    ({ s with c := c.connStateJump .connWaiting, inbox := inbox }, [])
  | (.readDataReceived, c, inbox) =>
    ({ s with c := c.connStateJump .connDealWith, inbox := inbox },
      [.read (s.inbox.take r.ret.toNat)])
  | (.readError, c, inbox) =>
    ({ s with c := c.connStateJump .connClosing, inbox := inbox }, [])
  | (.readMemoryError, c, inbox) =>
    ({ s with c := c, inbox := inbox, exited := true }, [.exit])

/-- `case conn_new_cmd`. -/
def onConnNewCmd (s : State) : State × List Event :=
  let n := s.instCount + 1
  if n < roundNum then ({ s with c := resetCmdHandler s.c, instCount := n }, [])
  else ({ s with instCount := n, stop := true }, [])

/-- `case parse_head`. -/
def onParseHead (s : State) : State × List Event :=
  if s.c.remainingBytes < 1 then ({ s with c := s.c.connStateJump .connWaiting }, [])
  else if s.c.readBuf s.c.workingBuf = protocolBinaryReq then
    match tryReadHeadBinary s.c with
    | none => ({ s with exited := true }, [.exit])
    | some (ret, c) =>
      if ret = 0 then ({ s with c := c.connStateJump .connWaiting }, [])
      else ({ s with c := c }, [.dispatch c.binaryHeader s.c.inBatchGet])
  else ({ s with exited := true }, [.exit])

/-- `case read_key_value`. -/
def onReadKeyValue (s : State) : State × List Event :=
  match tryReadKeyValue s.c with
  | (re, c) =>
    if re = 0 then ({ s with c := c.connStateJump .connWaiting }, [])
    else if re = -1 then ({ s with c := c.connStateJump .connClosing }, [])
    else ({ s with c := c }, [])

/-- `case store_kvobj`. -/
def onStoreKvobj (s : State) : State × List Event :=
  let c := s.c.processed (headerSize + s.c.binaryHeader.totalbodylen.toNat)
  let c := (c.workStateJump .parseHead).connStateJump .connNewCmd
  ({ s with c := c, table := s.table.insertOrAssign s.c.key s.c.value },
    [.insertOrAssign s.c.key s.c.value])

/-- The first half of `case query_key`: what `hashTable.find` leaves in the
connection. -/
def queryResult (c : Connection) (found : Option Bytes) : Connection :=
  match found with
  | some v => { c with value := v, queryHit := true }
  | none => { c with queryHit := false }

section
variable (c : Connection) (found : Option Bytes)

@[simp] theorem queryResult_readBufSize :
    (queryResult c found).readBufSize = c.readBufSize := by cases found <;> rfl
@[simp] theorem queryResult_readBuf : (queryResult c found).readBuf = c.readBuf := by
  cases found <;> rfl
@[simp] theorem queryResult_workingBuf : (queryResult c found).workingBuf = c.workingBuf := by
  cases found <;> rfl
@[simp] theorem queryResult_remainingBytes :
    (queryResult c found).remainingBytes = c.remainingBytes := by cases found <;> rfl
@[simp] theorem queryResult_retBufSize :
    (queryResult c found).retBufSize = c.retBufSize := by cases found <;> rfl
@[simp] theorem queryResult_retBuf : (queryResult c found).retBuf = c.retBuf := by
  cases found <;> rfl
@[simp] theorem queryResult_retBufOffset :
    (queryResult c found).retBufOffset = c.retBufOffset := by cases found <;> rfl
@[simp] theorem queryResult_retBytes : (queryResult c found).retBytes = c.retBytes := by
  cases found <;> rfl
@[simp] theorem queryResult_batchRetVector :
    (queryResult c found).batchRetVector = c.batchRetVector := by cases found <;> rfl
@[simp] theorem queryResult_eventAdded : (queryResult c found).eventAdded = c.eventAdded := by
  cases found <;> rfl
@[simp] theorem queryResult_connState : (queryResult c found).connState = c.connState := by
  cases found <;> rfl
@[simp] theorem queryResult_workState : (queryResult c found).workState = c.workState := by
  cases found <;> rfl
@[simp] theorem queryResult_binaryHeader :
    (queryResult c found).binaryHeader = c.binaryHeader := by cases found <;> rfl
@[simp] theorem queryResult_key : (queryResult c found).key = c.key := by cases found <;> rfl
@[simp] theorem queryResult_value :
    (queryResult c found).value = found.getD c.value := by cases found <;> rfl
@[simp] theorem queryResult_queryHit :
    (queryResult c found).queryHit = found.isSome := by cases found <;> rfl
@[simp] theorem queryResult_batchNum : (queryResult c found).batchNum = c.batchNum := by
  cases found <;> rfl
@[simp] theorem queryResult_batchCount :
    (queryResult c found).batchCount = c.batchCount := by cases found <;> rfl
@[simp] theorem queryResult_inBatchGet :
    (queryResult c found).inBatchGet = c.inBatchGet := by cases found <;> rfl

end

/-- `case query_key`. -/
def onQueryKey (s : State) : State × List Event :=
  let found := s.table.find s.c.key
  let c := queryResult s.c found
  ({ s with c := conRetBuf c }, [.find s.c.key found, .reply c.inBatchGet c.respPacket])

/-- `case write_bcak`. -/
def onWriteBcak (s : State) (r : SysRet) : State × List Event :=
  let res := if s.c.inBatchGet then sendBatch s.c r else sendSingle s.c r
  ({ s with c := res.1 }, res.2)

/-- `case conn_deal_with`. -/
def onConnDealWith (s : State) (r : SysRet) : State × List Event :=
  match s.c.workState with
  | .parseHead => onParseHead s
  | .readKeyValue => onReadKeyValue s
  | .storeKvobj => onStoreKvobj s
  | .queryKey => onQueryKey s
  | .writeBcak => onWriteBcak s r

/-- `case conn_waiting`. -/
def onConnWaiting (s : State) : State × List Event :=
  let c :=
    if s.c.workState = .writeBcak then s.c.connStateJump .connDealWith
    else if s.c.workState = .parseHead ∨ s.c.workState = .readKeyValue then
      s.c.connStateJump .connRead
    else s.c.connStateJump .connClosing
  ({ s with c := c, stop := true }, [])

/-- `case conn_closing`. -/
def onConnClosing (s : State) : State × List Event :=
  ({ s with c := connClose s.c, stop := true }, [.close])

/-- One pass of `while (!stop)`. The outer `switch` has no `default`. -/
def pass (s : State) (r : SysRet) : State × List Event :=
  match s.c.connState with
  | .connRead => onConnRead s r
  | .connNewCmd => onConnNewCmd s
  | .connDealWith => onConnDealWith s r
  | .connWaiting => onConnWaiting s
  | .connClosing => onConnClosing s
  | _ => (s, [])

/-- Enter `process_func`. -/
def enter (s : State) : State := { s with instCount := 0, stop := false }

/-! ### System calls -/

/-- A system call with the length it is offered. -/
inductive Syscall
  | read (count : Int)
  | write (count : Nat)
  deriving Repr, DecidableEq

/-- The system call the next pass makes. -/
def State.syscall (s : State) : Option Syscall :=
  match s.c.connState, s.c.workState with
  | .connRead, _ => some (.read s.c.avail)
  | .connDealWith, .writeBcak =>
    if s.c.inBatchGet then
      if s.c.batchCount = s.c.batchNum then
        s.c.batchRetVector.head?.map fun it => .write it.left
      else none
    else some (.write s.c.retBytes)
  | _, _ => none

/-- What a call may return on a non-blocking socket: a failure, the end of the
stream, or a count within the length offered and, for `read`, within what has
been sent. A call with nothing to transfer returns 0. -/
def Syscall.Returns (inbox : Bytes) : Syscall → SysRet → Prop
  | .read n, r =>
    if n ≤ 0 then r.ret = 0
    else r.ret = -1 ∨ (0 ≤ r.ret ∧ r.ret ≤ n ∧ r.ret ≤ inbox.length)
  | .write n, r => r.ret = -1 ∨ (0 ≤ r.ret ∧ r.ret ≤ n ∧ (r.ret = 0 → n = 0))

/-- The results that are no failure of the connection: data, or "would block". A
`read` is told the stream has ended only when it is offered no room. -/
def Syscall.Benign (inbox : Bytes) (call : Syscall) (r : SysRet) : Prop :=
  call.Returns inbox r ∧ (r.ret = -1 → r.wouldBlock) ∧
    (r.ret = 0 → match call with | .read n => n ≤ 0 | .write n => n = 0)

/-- The results of a socket that takes everything it is given. -/
def Syscall.WritesAll : Syscall → SysRet → Prop
  | .read _, _ => True
  | .write n, r => r.ret = n

/-! ### Runs -/

/-- Any result the next call may return. -/
def State.returns (s : State) (r : SysRet) : Prop :=
  ∀ call, s.syscall = some call → call.Returns s.inbox r

/-- Any result but a failure. -/
def State.benign (s : State) (r : SysRet) : Prop :=
  ∀ call, s.syscall = some call → call.Benign s.inbox r

/-- A table no value of which is larger than a receive buffer. A SET's value has
been through one, so the server's table is always one of these. -/
def HashTable.Bounded (t : HashTable) : Prop :=
  ∀ k v, t k = some v → v.length ≤ initReadBufSize

/-- Which results of system calls are possible in which states. -/
structure Env where
  answer : State → SysRet → Prop
  returns : ∀ {s r}, answer s r → s.returns r

/-- Anything the kernel may do. -/
def Env.any : Env := ⟨State.returns, id⟩

/-- A connection that does not fail. -/
def Env.benign : Env := ⟨State.benign, fun h call hc => (h call hc).1⟩

/-- `E`, where only the passes `p` allows are possible. -/
def Env.restrict (E : Env) (p : State → SysRet → Prop) : Env :=
  ⟨fun s r => E.answer s r ∧ p s r, fun h => E.returns h.1⟩

inductive Step (E : Env) : State → List Event → State → Prop
  /-- The event loop calls `process_func`. -/
  | call {s : State} (hstop : s.stop = true) (halive : s.exited = false)
      (hevent : s.c.eventAdded = true) : Step E s [] (enter s)
  /-- One pass of the loop. -/
  | pass {s : State} {r : SysRet} (hrun : s.stop = false) (halive : s.exited = false)
      (hans : E.answer s r) : Step E s (pass s r).2 (pass s r).1
  /-- Other connections use the table. -/
  | others {s : State} {t : HashTable} (halive : s.exited = false) (ht : t.Bounded) :
      Step E s [] { s with table := t }

/-- A connection just accepted, whose client will send `stream`. -/
structure Init (stream : Bytes) (s : State) : Prop where
  conn : ∃ sfd threadIndex readBuf retBuf, s.c = connNew sfd threadIndex readBuf retBuf
  inbox : s.inbox = stream
  table : s.table.Bounded
  stop : s.stop = true
  exited : s.exited = false

end MultiportNetwork
