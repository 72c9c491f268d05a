import MultiportNetwork.Server.Window

/-!
# MultiportNetwork.Server.Cases

Everything one pass of the loop can do, said once. `Pass` lists the branches of
`process_func` and of the functions it calls, each with the guards it runs under
and the connection it leaves; `pass_cases` shows that in a state that meets
`ControlOk` a pass is one of them. The branches that are missing from the list
(`binary instruction error`, `work state error`, a state the outer `switch` does
not know, a write of more than was offered) are the ones that cannot be reached.

Every invariant of a run is proved by going through `Pass`, never by unfolding
`pass`.
-/

namespace MultiportNetwork

/-! ### The control invariant -/

/-- The window does not hold what the work state waits for. -/
def Connection.Starved (c : Connection) : Prop :=
  (c.workState = .parseHead ∧ c.window.length < headerSize ∧
      ∀ x ∈ c.window.head?, x = protocolBinaryReq) ∨
    (c.workState = .readKeyValue ∧
      c.window.length < c.binaryHeader.totalbodylen.toNat)

/-- A response is complete and waits for the socket. -/
def Connection.Unsent (c : Connection) : Prop :=
  c.workState = .writeBcak ∧ (c.inBatchGet = true → c.batchCount = c.batchNum)

/-- What the work state can be in each connection state, inside a call and between
two calls. A call begins in one of the states it can end in: `conn_waiting`, or
`conn_closing` with the event removed. The states of the header file that
`process_func` never sets are ruled out. -/
def State.ControlAt (s : State) : Prop :=
  match s.c.connState with
  | .connRead => s.c.Starved
  | .connWaiting => s.stop = false ∧ (s.c.Starved ∨ s.c.Unsent)
  | .connNewCmd => s.c.workState = .parseHead
  | .connDealWith => s.stop = true → s.c.Unsent
  | .connClosing => s.stop = true → s.c.eventAdded = false
  | _ => False

/-- What makes the list of branches complete. Each field is why some branch of the source
is never taken: without `control` the outer `switch` could fall through, without `body`
a length could wrap, without `buffers` `send_batch` would read the head of an empty
vector. -/
structure ControlOk (s : State) : Prop where
  /-- The parser reads inside the receive buffer, and compares what it means to. -/
  window : WindowOk s.c
  /-- The two state machines move together. -/
  control : s.ControlAt
  /-- A body is only waited for after a header that announced a good one. -/
  body : s.c.workState = .readKeyValue →
    s.c.cmd = s.c.binaryHeader.opcode.toNat ∧ s.c.binaryHeader.request.verdict = .body
  /-- There is a buffer exactly while there is a batch. -/
  buffers : s.c.inBatchGet = true ↔ s.c.batchRetVector ≠ []
  /-- Only a closed connection has lost its event. -/
  event : s.c.eventAdded = false → s.stop = true ∧ s.c.connState = .connClosing

/-! ### The branches -/

/-- A whole header with the right magic byte is next, and its number is in turn. -/
structure State.AtHead (s : State) : Prop where
  conn : s.c.connState = .connDealWith
  work : s.c.workState = .parseHead
  length : headerSize ≤ s.c.window.length
  magic : s.c.window.head? = some protocolBinaryReq
  /-- Any other number ends the process. It is compared whatever the opcode is, that of
  a SET or of another batch head included. -/
  turn : s.c.inBatchGet = true → s.c.batchCount = (Request.decode s.c.window).batchnum

/-- The whole body of the request at hand is in the window. -/
structure State.AtBody (s : State) : Prop where
  conn : s.c.connState = .connDealWith
  work : s.c.workState = .readKeyValue
  /-- It is a SET or a GET, and its lengths have passed the checks of the header. -/
  verdict : s.c.binaryHeader.request.verdict = .body
  length : s.c.binaryHeader.totalbodylen.toNat ≤ s.c.window.length

/-- A finished batch is about to write `it`, with `rest` behind it. -/
structure State.AtSend (s : State) (it : Batchbuf) (rest : List Batchbuf) : Prop where
  conn : s.c.connState = .connDealWith
  work : s.c.workState = .writeBcak
  inBatch : s.c.inBatchGet = true
  /-- `send_batch` writes at this count only; below it, it goes back to parsing. -/
  count : s.c.batchCount = s.c.batchNum
  /-- The buffer at the front is the one that is written. -/
  buffers : s.c.batchRetVector = it :: rest

/-- The response of a single GET is about to be written. -/
structure State.AtSingle (s : State) : Prop where
  conn : s.c.connState = .connDealWith
  work : s.c.workState = .writeBcak
  inBatch : s.c.inBatchGet = false

/-- What `send_batch` counts before it looks at the batch. It does so at every entry, a
second try to write the same batch included. -/
abbrev State.batchConn (s : State) : Connection :=
  s.c.processed (headerSize + s.c.binaryHeader.keylen.toNat)

/-- The branches of one pass. A constructor is named for the function that decides and for
what it finds there; its hypotheses are all that the source has tested on the way, and its
conclusion is the state the pass leaves and what can be seen of it from outside. -/
inductive Pass (s : State) (r : SysRet) : State → List Event → Prop
  -- `conn_read`: whatever was left of the window has been moved to the front first
  | readData (hc : s.c.connState = .connRead) (hw : s.c.Starved) (hpos : 0 < r.ret)
      (havail : r.ret ≤ s.c.avail) (hinbox : r.ret ≤ s.inbox.length) :
      Pass s r
        { s with
          c := ((compact s.c).receive (s.inbox.take r.ret.toNat) r.ret).connStateJump .connDealWith
          inbox := s.inbox.drop r.ret.toNat }
        [.read (s.inbox.take r.ret.toNat)]
  | readEof (hc : s.c.connState = .connRead) (hw : s.c.Starved) (hr : r.ret = 0) :
      Pass s r { s with c := (compact s.c).connStateJump .connClosing } []
  | readNone (hc : s.c.connState = .connRead) (hw : s.c.Starved) (hr : r.ret = -1) :
      Pass s r { s with c := (compact s.c).connStateJump .connWaiting } []
  -- `conn_new_cmd`: the round is counted before it is known whether there is another
  | newCmdMore (hc : s.c.connState = .connNewCmd) (hw : s.c.workState = .parseHead)
      (hn : s.instCount + 1 < roundNum) (hwin : s.c.window ≠ []) :
      Pass s r
        { s with c := s.c.connStateJump .connDealWith, instCount := s.instCount + 1 } []
  | newCmdIdle (hc : s.c.connState = .connNewCmd) (hw : s.c.workState = .parseHead)
      (hn : s.instCount + 1 < roundNum) (hwin : s.c.window = []) :
      Pass s r
        { s with c := s.c.connStateJump .connWaiting, instCount := s.instCount + 1 } []
  -- the call ends whatever the window still holds
  | newCmdStop (hc : s.c.connState = .connNewCmd) (hw : s.c.workState = .parseHead)
      (hn : roundNum ≤ s.instCount + 1) :
      Pass s r { s with instCount := s.instCount + 1, stop := true } []
  -- `parse_head`: the header is incomplete, or it ends the process
  | headNone (hc : s.c.connState = .connDealWith) (hw : s.c.workState = .parseHead)
      (hwin : s.c.window = []) :
      Pass s r { s with c := s.c.connStateJump .connWaiting } []
  | headShort (hc : s.c.connState = .connDealWith) (hw : s.c.workState = .parseHead)
      (hmagic : s.c.window.head? = some protocolBinaryReq)
      (hlen : s.c.window.length < headerSize) :
      Pass s r { s with c := s.c.connStateJump .connWaiting } []
  | headMagic (hc : s.c.connState = .connDealWith) (hw : s.c.workState = .parseHead)
      {x : UInt8} (hhead : s.c.window.head? = some x) (hx : x ≠ protocolBinaryReq) :
      Pass s r { s with exited := true } [.exit]
  | headTurn (hc : s.c.connState = .connDealWith) (hw : s.c.workState = .parseHead)
      (hmagic : s.c.window.head? = some protocolBinaryReq)
      (hlen : headerSize ≤ s.c.window.length) (hin : s.c.inBatchGet = true)
      (hne : s.c.batchCount ≠ (Request.decode s.c.window).batchnum) :
      Pass s r { s with exited := true } [.exit]
  -- `dispatch_bin_command`: the header is taken from the window whatever becomes of it
  | headClosed (h : s.AtHead) (hv : (Request.decode s.c.window).verdict = .closed) :
      Pass s r
        { s with c := ((loadHeader s.c).connStateJump .connClosing).advance headerSize }
        [.dispatch (loadHeader s.c).binaryHeader s.c.inBatchGet]
  -- no state is changed and nothing is said: what was to be the body is parsed next
  | headRefused (h : s.AtHead) (hv : (Request.decode s.c.window).verdict = .refused) :
      Pass s r { s with c := (loadHeader s.c).advance headerSize }
        [.dispatch (loadHeader s.c).binaryHeader s.c.inBatchGet]
  -- the buffers of a batch in progress are kept, and one more is opened behind them
  | headBatch (h : s.AtHead) (hv : (Request.decode s.c.window).verdict = .batchHead) :
      Pass s r { s with c := (openBatch (loadHeader s.c)).advance headerSize }
        [.dispatch (loadHeader s.c).binaryHeader s.c.inBatchGet]
  | headBody (h : s.AtHead) (hv : (Request.decode s.c.window).verdict = .body) :
      Pass s r
        { s with c := ((loadHeader s.c).workStateJump .readKeyValue).advance headerSize }
        [.dispatch (loadHeader s.c).binaryHeader s.c.inBatchGet]
  -- `read_key_value`
  | bodyShort (hc : s.c.connState = .connDealWith) (hw : s.c.workState = .readKeyValue)
      (hlen : s.c.window.length < s.c.binaryHeader.totalbodylen.toNat) :
      Pass s r { s with c := s.c.connStateJump .connWaiting } []
  | bodySet (h : s.AtBody) (hop : s.c.binaryHeader.opcode.toNat = cmdSet) :
      Pass s r
        { s with
          c := (s.c.setRead (s.c.window.take s.c.binaryHeader.keylen.toNat)
            ((s.c.window.drop s.c.binaryHeader.keylen.toNat).take
              (s.c.binaryHeader.totalbodylen.toNat - s.c.binaryHeader.keylen.toNat))).advance
              s.c.binaryHeader.totalbodylen.toNat } []
  -- a GET has no value, so its key is its body
  | bodyGet (h : s.AtBody) (hop : s.c.binaryHeader.opcode.toNat = cmdGet) :
      Pass s r
        { s with
          c := (s.c.getRead (s.c.window.take s.c.binaryHeader.keylen.toNat)).advance
            s.c.binaryHeader.keylen.toNat } []
  -- the table
  | store (hc : s.c.connState = .connDealWith) (hw : s.c.workState = .storeKvobj) :
      Pass s r
        { s with
          c := ((s.c.processed (headerSize + s.c.binaryHeader.totalbodylen.toNat)).workStateJump
            .parseHead).connStateJump .connNewCmd
          table := s.table.insertOrAssign s.c.key s.c.value }
        [.insertOrAssign s.c.key s.c.value]
  | query (hc : s.c.connState = .connDealWith) (hw : s.c.workState = .queryKey) :
      Pass s r { s with c := conRetBuf (queryResult s.c (s.table.find s.c.key)) }
        [.find s.c.key (s.table.find s.c.key),
          .reply s.c.inBatchGet (queryResult s.c (s.table.find s.c.key)).respPacket]
  -- `send_batch`: more is wanted, or nothing will ever be
  | batchMore (hc : s.c.connState = .connDealWith) (hw : s.c.workState = .writeBcak)
      (hin : s.c.inBatchGet = true) (hlt : s.c.batchCount < s.c.batchNum) :
      Pass s r
        { s with c := (s.batchConn.workStateJump .parseHead).connStateJump .connNewCmd } []
  -- a count beyond the number: nothing is written and no state changes, so that the next
  -- pass is this one again
  | batchSpin (hc : s.c.connState = .connDealWith) (hw : s.c.workState = .writeBcak)
      (hin : s.c.inBatchGet = true) (hgt : s.c.batchNum < s.c.batchCount) :
      Pass s r { s with c := s.batchConn } []
  -- the front buffer is offered to the socket
  | batchBlocked {it : Batchbuf} {rest : List Batchbuf} (h : s.AtSend it rest)
      (hr : r.ret ≤ 0) (hb : r.wouldBlock = true) :
      Pass s r { s with c := s.batchConn.connStateJump .connWaiting } []
  | batchFailed {it : Batchbuf} {rest : List Batchbuf} (h : s.AtSend it rest)
      (hr : r.ret ≤ 0) (hb : r.wouldBlock = false) :
      Pass s r { s with c := s.batchConn.connStateJump .connClosing } []
  | batchDone {it : Batchbuf} (h : s.AtSend it []) (hpos : 0 < r.ret)
      (hall : r.ret = it.left) :
      Pass s r { s with c := (s.batchConn.wrote r.ret.toNat).endBatch }
        [.write (it.buf.load it.offset r.ret.toNat)]
  -- another buffer is left, and yet the connection waits as if it had been refused
  | batchNext {it : Batchbuf} {rest : List Batchbuf} (h : s.AtSend it rest)
      (hrest : rest ≠ []) (hpos : 0 < r.ret) (hall : r.ret = it.left) :
      Pass s r
        { s with
          c := ((s.batchConn.wrote r.ret.toNat).setBuffers rest).connStateJump .connWaiting }
        [.write (it.buf.load it.offset r.ret.toNat)]
  | batchPart {it : Batchbuf} {rest : List Batchbuf} (h : s.AtSend it rest)
      (hpos : 0 < r.ret) (hpart : r.ret < it.left) :
      Pass s r
        { s with
          c := ((s.batchConn.wrote r.ret.toNat).setBuffers
            (it.skip r.ret.toNat :: rest)).connStateJump .connWaiting }
        [.write (it.buf.load it.offset r.ret.toNat)]
  -- `send_single`
  | singleBlocked (h : s.AtSingle) (hr : r.ret ≤ 0) (hb : r.wouldBlock = true) :
      Pass s r { s with c := s.c.connStateJump .connWaiting } []
  | singleFailed (h : s.AtSingle) (hr : r.ret ≤ 0) (hb : r.wouldBlock = false) :
      Pass s r { s with c := s.c.connStateJump .connClosing } []
  | singleDone (h : s.AtSingle) (hpos : 0 < r.ret) (hall : r.ret = s.c.retBytes) :
      Pass s r { s with c := (s.c.wrote r.ret.toNat).endSingle }
        [.write (s.c.retBuf.load s.c.retBufOffset r.ret.toNat)]
  | singlePart (h : s.AtSingle) (hpos : 0 < r.ret) (hpart : r.ret < s.c.retBytes) :
      Pass s r
        { s with
          c := ((s.c.wrote r.ret.toNat).skipSingle r.ret.toNat).connStateJump .connWaiting }
        [.write (s.c.retBuf.load s.c.retBufOffset r.ret.toNat)]
  -- `conn_waiting` and `conn_closing` end the call
  | waitWrite (hc : s.c.connState = .connWaiting) (hw : s.c.Unsent) :
      Pass s r { s with c := s.c.connStateJump .connDealWith, stop := true } []
  | waitRead (hc : s.c.connState = .connWaiting) (hw : s.c.Starved) :
      Pass s r { s with c := s.c.connStateJump .connRead, stop := true } []
  | closing (hc : s.c.connState = .connClosing) :
      Pass s r { s with c := connClose s.c, stop := true } [.close]

/-! ### A pass is one of its branches -/

variable {s : State} {r : SysRet}

/-- A connection that reads has too little to go on. -/
theorem ControlOk.starved (h : ControlOk s) (hc : s.c.connState = .connRead) : s.c.Starved := by
  have hctl := h.control
  simpa only [State.ControlAt, hc] using hctl

/-- `read` returns at most what it was given room for, so a pass that reads either moves
some bytes of the client into the window, or learns that there will be none (0) or that
there are none now (-1). -/
theorem onConnRead_cases (h : ControlOk s) (hc : s.c.connState = .connRead)
    (hr : s.returns r) : Pass s r (onConnRead s r).1 (onConnRead s r).2 := by
  have hw := h.starved hc
  have hret : (Syscall.read s.c.avail).Returns s.inbox r :=
    hr _ (by simp [State.syscall, hc])
  simp only [Syscall.Returns] at hret
  unfold onConnRead tryReadNetwork
  by_cases hpos : r.ret > 0
  · simp only [hpos, if_true]
    split at hret
    · omega
    · rcases hret with hret | ⟨-, havail, hinbox⟩
      · omega
      · exact .readData hc hw hpos havail hinbox
  simp only [hpos, if_false]
  by_cases hzero : r.ret = 0
  · simp only [hzero, if_true]
    exact .readEof hc hw hzero
  -- nothing else is left: with no room at all `read` can only have returned 0
  have hneg : r.ret = -1 := by
    split at hret
    · omega
    · rcases hret with hret | hret
      · exact hret
      · omega
  simp only [hzero, if_false, ite_self]
  exact .readNone hc hw hneg

/-- `reset_cmd_handler` decides by `remaining_bytes`, which is positive exactly if the window
holds something. -/
theorem onConnNewCmd_cases (h : ControlOk s) (hc : s.c.connState = .connNewCmd) :
    Pass s r (onConnNewCmd s).1 (onConnNewCmd s).2 := by
  have hw : s.c.workState = .parseHead := by
    have := h.control
    simpa only [State.ControlAt, hc] using this
  have hnonneg := h.window.nonneg
  unfold onConnNewCmd
  by_cases hn : s.instCount + 1 < roundNum
  · simp only [hn, if_true, resetCmdHandler]
    by_cases hrem : s.c.remainingBytes > 0
    · rw [if_pos hrem]
      refine .newCmdMore hc hw hn (fun hnil => ?_)
      have := congrArg List.length hnil
      rw [length_window, List.length_nil] at this
      omega
    · rw [if_neg hrem]
      refine .newCmdIdle hc hw hn (List.eq_nil_of_length_eq_zero ?_)
      rw [length_window]
      omega
  · simp only [hn, if_false]
    exact .newCmdStop hc hw (Nat.le_of_not_lt hn)

/-- The byte `process_func` looks at is the first of the window. -/
theorem head?_window (hpos : ¬ s.c.remainingBytes < 1) :
    s.c.window.head? = some (s.c.readBuf s.c.workingBuf) := by
  obtain ⟨n, hn⟩ : ∃ n, s.c.remainingBytes.toNat = n + 1 :=
    ⟨s.c.remainingBytes.toNat - 1, by omega⟩
  simp [Connection.window, hn, Memory.load]

/-- The tests are taken in the source's order: a first byte, the right magic byte, a whole
header, a number in turn. Each failure is a branch, and what passes them all is `AtHead`,
where the verdict on the header says which branch it is. -/
theorem onParseHead_cases (h : ControlOk s) (hc : s.c.connState = .connDealWith)
    (hw : s.c.workState = .parseHead) : Pass s r (onParseHead s).1 (onParseHead s).2 := by
  unfold onParseHead
  by_cases hrem : s.c.remainingBytes < 1
  · rw [if_pos hrem]
    refine .headNone hc hw (List.eq_nil_of_length_eq_zero ?_)
    rw [length_window]
    omega
  rw [if_neg hrem]
  have hhead := head?_window hrem
  by_cases hmagic : s.c.readBuf s.c.workingBuf = protocolBinaryReq
  swap
  · rw [if_neg hmagic]
    exact .headMagic hc hw hhead hmagic
  rw [if_pos hmagic]
  rw [hmagic] at hhead
  unfold tryReadHeadBinary
  rw [toU64_of_window h.window]
  by_cases hlen : s.c.window.length < headerSize
  · simp only [hlen, if_true]
    exact .headShort hc hw hhead hlen
  have hlen' : headerSize ≤ s.c.window.length := Nat.le_of_not_lt hlen
  have hnum := loadHeader_batchnum hlen'
  simp only [hlen, if_false]
  -- the number is compared in the header just loaded, which is the one in the window
  by_cases hturn : (loadHeader s.c).inBatchGet = true ∧
      (loadHeader s.c).batchCount ≠ (loadHeader s.c).binaryHeader.batchnum
  · rw [if_pos hturn]
    exact .headTurn hc hw hhead hlen' hturn.1 (hnum ▸ hturn.2)
  rw [if_neg hturn, dispatch_loadHeader hlen']
  have hat : s.AtHead :=
    ⟨hc, hw, hlen', hhead, fun hin => by
      by_contra hne
      exact hturn ⟨hin, fun he => hne (hnum ▸ he)⟩⟩
  cases hv : (Request.decode s.c.window).verdict with
  | closed => exact .headClosed hat hv
  | refused => exact .headRefused hat hv
  | batchHead => exact .headBatch hat hv
  | body => exact .headBody hat hv

/-- The length of a value, an unsigned difference, does not wrap. -/
theorem ControlOk.sub_keylen (h : ControlOk s) (hw : s.c.workState = .readKeyValue) :
    (s.c.binaryHeader.totalbodylen - s.c.binaryHeader.keylen.toUInt32).toNat =
      s.c.binaryHeader.totalbodylen.toNat - s.c.binaryHeader.keylen.toNat := by
  have hk : s.c.binaryHeader.keylen.toUInt32.toNat = s.c.binaryHeader.keylen.toNat := by simp
  have hle : s.c.binaryHeader.keylen.toUInt32 ≤ s.c.binaryHeader.totalbodylen := by
    rw [UInt32.le_iff_toNat_le, hk]
    exact (Request.keylen_le_of_body (h.body hw).2).2
  rw [UInt32.toNat_sub_of_le _ _ hle, hk]

/-- `try_read_key_value` looks at the command again, which `body` says is the one the header
was dispatched by. So it is a SET or a GET, and the copies it makes are of bytes in the
window. -/
theorem onReadKeyValue_cases (h : ControlOk s) (hc : s.c.connState = .connDealWith)
    (hw : s.c.workState = .readKeyValue) :
    Pass s r (onReadKeyValue s).1 (onReadKeyValue s).2 := by
  obtain ⟨hcmd, hv⟩ := h.body hw
  obtain ⟨hpos, hkind⟩ := Request.verdict_body hv
  have hkb := Request.keylen_le_of_body hv
  simp only [RequestHeader.request_keylen, RequestHeader.request_totalbodylen,
    RequestHeader.request_opcode] at hpos hkind hkb
  have hcopy : s.c.binaryHeader.keylen.toNat ≤ s.c.window.length →
      s.c.readBuf.load s.c.workingBuf s.c.binaryHeader.keylen.toNat =
        s.c.window.take s.c.binaryHeader.keylen.toNat := fun hle => by
    simpa using load_window (c := s.c) (k := 0) (by rw [Nat.zero_add]; exact hle)
  unfold onReadKeyValue tryReadKeyValue
  rcases hkind with ⟨hset, hle⟩ | ⟨hget, heq⟩
  · -- a SET waits for key and value together
    have hcset : s.c.cmd = cmdSet := hcmd.trans hset
    simp only [hcset, if_true, toU32_of_window h.window]
    by_cases hlen : s.c.window.length < s.c.binaryHeader.totalbodylen.toNat
    · simp only [hlen, if_true]
      exact .bodyShort hc hw hlen
    have hvalue := load_window (c := s.c) (k := s.c.binaryHeader.keylen.toNat)
      (n := s.c.binaryHeader.totalbodylen.toNat - s.c.binaryHeader.keylen.toNat) (by omega)
    simp only [hlen, if_false, h.sub_keylen hw, hvalue, hcopy (by omega)]
    exact .bodySet ⟨hc, hw, hv, Nat.le_of_not_lt hlen⟩ hset
  · -- a GET waits for its key only, which is the same by `heq`
    have hcget : s.c.cmd = cmdGet := hcmd.trans hget
    have hne : cmdGet ≠ cmdSet := by decide
    have hnonneg := h.window.nonneg
    have hrem : s.c.remainingBytes < (s.c.binaryHeader.keylen.toNat : Int) ↔
        s.c.window.length < s.c.binaryHeader.totalbodylen.toNat := by
      rw [length_window, heq]
      omega
    simp only [hcget, hne, if_false, if_true, hrem]
    by_cases hlen : s.c.window.length < s.c.binaryHeader.totalbodylen.toNat
    · simp only [hlen, if_true]
      exact .bodyShort hc hw hlen
    simp only [hlen, if_false, hcopy (by omega)]
    exact .bodyGet ⟨hc, hw, hv, Nat.le_of_not_lt hlen⟩ hget

/-- By the count first, which may be below the number, beyond it, or just right. In the last
case there is a buffer to write, by `buffers`, and the branch depends on what `write`
returned: nothing, all that was offered, or a part of it. -/
theorem sendBatch_cases (h : ControlOk s) (hc : s.c.connState = .connDealWith)
    (hw : s.c.workState = .writeBcak) (hin : s.c.inBatchGet = true) (hr : s.returns r) :
    Pass s r { s with c := (sendBatch s.c r).1 } (sendBatch s.c r).2 := by
  unfold sendBatch
  by_cases hlt : s.c.batchCount < s.c.batchNum
  · rw [if_pos (show (s.c.processed _).batchCount < (s.c.processed _).batchNum from hlt)]
    exact .batchMore hc hw hin hlt
  rw [if_neg (show ¬ (s.c.processed _).batchCount < (s.c.processed _).batchNum from hlt)]
  by_cases heq : s.c.batchCount = s.c.batchNum
  swap
  · rw [if_neg (show ¬ (s.c.processed _).batchCount = (s.c.processed _).batchNum from heq)]
    refine .batchSpin hc hw hin ?_
    rw [UInt16.lt_iff_toNat_lt] at hlt ⊢
    have := mt UInt16.toNat_inj.mp heq
    omega
  rw [if_pos (show (s.c.processed _).batchCount = (s.c.processed _).batchNum from heq)]
  obtain ⟨it, rest, hbuf⟩ := List.exists_cons_of_ne_nil (h.buffers.mp hin)
  have hbuf' : (s.c.processed (headerSize + s.c.binaryHeader.keylen.toNat)).batchRetVector =
      it :: rest := hbuf
  have hat : s.AtSend it rest := ⟨hc, hw, hin, heq, hbuf⟩
  have hret : (Syscall.write it.left).Returns s.inbox r :=
    hr _ (by simp [State.syscall, hc, hw, hin, heq, hbuf])
  simp only [Syscall.Returns] at hret
  simp only [hbuf']
  by_cases hle : r.ret ≤ 0
  · rw [if_pos hle]
    by_cases hb : r.wouldBlock = true
    · rw [if_pos hb]
      exact .batchBlocked hat hle hb
    · rw [if_neg hb, ite_self]
      exact .batchFailed hat hle (Bool.eq_false_iff.mpr hb)
  rw [if_neg hle]
  have hpos : 0 < r.ret := Int.lt_of_not_ge hle
  by_cases hall : r.ret = it.left
  · rw [if_pos hall]
    by_cases hrest : rest = []
    · rw [if_pos hrest]
      exact .batchDone (hrest ▸ hat) hpos hall
    · rw [if_neg hrest]
      exact .batchNext hat hrest hpos hall
  -- `write` does not return more than it was offered
  rw [if_neg hall, if_pos (by omega)]
  exact .batchPart hat hpos (by omega)

/-- As for the front buffer of a batch, with `ret_bytes` as what is offered. -/
theorem sendSingle_cases (hc : s.c.connState = .connDealWith)
    (hw : s.c.workState = .writeBcak) (hin : s.c.inBatchGet = false) (hr : s.returns r) :
    Pass s r { s with c := (sendSingle s.c r).1 } (sendSingle s.c r).2 := by
  have hat : s.AtSingle := ⟨hc, hw, hin⟩
  have hret : (Syscall.write s.c.retBytes).Returns s.inbox r :=
    hr _ (by simp [State.syscall, hc, hw, hin])
  simp only [Syscall.Returns] at hret
  unfold sendSingle
  by_cases hle : r.ret ≤ 0
  · rw [if_pos hle]
    by_cases hb : r.wouldBlock = true
    · rw [if_pos hb]
      exact .singleBlocked hat hle hb
    · rw [if_neg hb]
      exact .singleFailed hat hle (Bool.eq_false_iff.mpr hb)
  rw [if_neg hle]
  have hpos : 0 < r.ret := Int.lt_of_not_ge hle
  have hbytes : (s.c.wrote r.ret.toNat).retBytes = s.c.retBytes := rfl
  by_cases hall : r.ret = s.c.retBytes
  · simp only [hbytes, if_pos hall]
    exact .singleDone hat hpos hall
  · have hpart : r.ret < s.c.retBytes := by omega
    simp only [hbytes, if_neg hall, if_pos hpart]
    exact .singlePart hat hpos hpart

/-- **A pass is one of its branches.** The connection state selects the function, and inside
`conn_deal_with` the work state does. -/
theorem pass_cases (h : ControlOk s) (hr : s.returns r) :
    Pass s r (pass s r).1 (pass s r).2 := by
  have hcontrol := h.control
  cases hc : s.c.connState with
  | connRead =>
      simp only [pass, hc]
      exact onConnRead_cases h hc hr
  | connNewCmd =>
      simp only [pass, hc]
      exact onConnNewCmd_cases h hc
  | connDealWith =>
      simp only [pass, hc, onConnDealWith]
      cases hw : s.c.workState with
      | parseHead => exact onParseHead_cases h hc hw
      | readKeyValue => exact onReadKeyValue_cases h hc hw
      | storeKvobj => exact .store hc hw
      | queryKey =>
          have hin : (queryResult s.c (s.table.find s.c.key)).inBatchGet = s.c.inBatchGet := by
            unfold queryResult
            split <;> rfl
          simp only [onQueryKey, hin]
          exact .query hc hw
      | writeBcak =>
          simp only [onWriteBcak]
          cases hin : s.c.inBatchGet with
          | true => exact sendBatch_cases h hc hw hin hr
          | false => exact sendSingle_cases hc hw hin hr
  | connWaiting =>
      simp only [State.ControlAt, hc] at hcontrol
      simp only [pass, hc, onConnWaiting]
      -- an answer waits for the socket, or the window for more bytes; not both
      rcases hcontrol.2 with hst | hun
      · have hne : s.c.workState ≠ .writeBcak := by
          rcases hst with ⟨hw, -⟩ | ⟨hw, -⟩ <;> simp [hw]
        have hor : s.c.workState = .parseHead ∨ s.c.workState = .readKeyValue := by
          rcases hst with ⟨hw, -⟩ | ⟨hw, -⟩ <;> simp [hw]
        rw [if_neg hne, if_pos hor]
        exact .waitRead hc hst
      · rw [if_pos hun.1]
        exact .waitWrite hc hun
  | connClosing =>
      simp only [pass, hc]
      exact .closing hc
  | _ => simp only [State.ControlAt, hc] at hcontrol

/-- What a pass makes of a header that is complete and in turn. -/
theorem State.AtHead.pass_eq (ha : s.AtHead) (h : ControlOk s) :
    pass s r = ({ s with c := (dispatchBinCommand (loadHeader s.c)).advance headerSize },
      [.dispatch (dispatchBinCommand (loadHeader s.c)).binaryHeader s.c.inBatchGet]) := by
  have hlen := ha.length
  have hrem : ¬ s.c.remainingBytes < 1 := by
    rw [length_window] at hlen
    simp only [headerSize] at hlen
    omega
  have hmagic : s.c.readBuf s.c.workingBuf = protocolBinaryReq := by
    have := (head?_window hrem).symm.trans ha.magic
    exact Option.some.inj this
  have hnum := loadHeader_batchnum hlen
  have hturn : ¬ ((loadHeader s.c).inBatchGet = true ∧
      (loadHeader s.c).batchCount ≠ (loadHeader s.c).binaryHeader.batchnum) := by
    rintro ⟨hin, hne⟩
    exact hne ((ha.turn hin).trans hnum.symm)
  simp only [pass, ha.conn, onConnDealWith, ha.work, onParseHead, hrem, hmagic, if_false, if_true,
    tryReadHeadBinary, toU64_of_window h.window, if_neg (Nat.not_lt.mpr hlen), if_neg hturn]
  rfl

end MultiportNetwork
