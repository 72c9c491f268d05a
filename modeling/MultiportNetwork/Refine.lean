import MultiportNetwork.Server.Inv

/-!
# MultiportNetwork.Refine

The server refines the protocol. `State.session` forgets everything about a
connection but the protocol state it stands for, `State.forecast` is what the
bytes it holds and the bytes still in the socket make it do, and every pass takes
what it executes off the front of the forecast (`Conserves`). Along a run nothing
else can happen (`StateOk.conserves_run`): what has been executed, followed by the
forecast, is always the command sequence of the stream.
-/

namespace MultiportNetwork

variable {E : Env} {s s' t t' : State} {r : SysRet} {ev tr : List Event} {stream : Bytes}

/-! ### The protocol state of a connection -/

def Connection.batch (c : Connection) : Option Batch :=
  if c.inBatchGet then some ⟨c.batchNum, c.batchCount⟩ else none

/-- The session once the answer at hand has been sent. -/
def settle : Option Batch → Session
  | none => .head none
  | some b => b.settle

theorem afterGet_eq (b : Option Batch) :
    afterGet b = settle (b.map fun x => ⟨x.num, x.count + 1⟩) := by
  cases b <;> rfl

/-- The session of a connection that is neither closed nor dead. -/
def Connection.session (c : Connection) : Session :=
  match c.workState with
  | .parseHead => .head c.batch
  | .readKeyValue =>
    if hq : c.binaryHeader.request.verdict = .body then .body c.binaryHeader.request hq c.batch
    else .closed
  | .storeKvobj => .head c.batch
  | .queryKey => afterGet c.batch
  | .writeBcak => settle c.batch

def State.session (s : State) : Session :=
  if s.exited then .exited
  else if s.c.connState = .connClosing then .closed
  else s.c.session

/-- The command that has been read and not yet executed. -/
def State.pending (s : State) : List Command :=
  if s.exited = false ∧ s.c.connState = .connDealWith then
    match s.c.workState with
    | .storeKvobj => [.set s.c.key s.c.value]
    | .queryKey => [.get s.c.key]
    | _ => []
  else []

/-- What the client has sent and the server not yet parsed. -/
def State.unparsed (s : State) : Bytes := s.c.window ++ s.inbox

/-- The commands the connection will still execute. -/
def State.forecast (s : State) : List Command :=
  s.pending ++ commandsIn s.session s.unparsed

/-- The session once it has done so. -/
def State.final (s : State) : Session := sessionAfter s.session s.unparsed

/-- The commands an event executes. -/
def Event.commands : Event → List Command
  | .dispatch h _ =>
    match h.request.verdict with
    | .closed | .refused => [.refused h.request]
    | .batchHead => [.batchHead h.batchnum]
    | .body => []
  | .insertOrAssign k v => [.set k v]
  | .find k _ => [.get k]
  | _ => []

/-- The commands a trace executes. -/
def executed (tr : List Event) : List Command := tr.flatMap Event.commands

@[simp] theorem executed_nil : executed [] = [] := rfl
@[simp] theorem executed_append (a b : List Event) :
    executed (a ++ b) = executed a ++ executed b := by simp [executed]

/-- Without a refused command, every header has been accepted. -/
theorem accepted_of_executed {hd : RequestHeader} {b : Bool} (h : ∀ q, .refused q ∉ executed tr)
    (he : .dispatch hd b ∈ tr) : hd.request.verdict = .batchHead ∨ hd.request.verdict = .body := by
  by_contra hne
  refine h hd.request (List.mem_flatMap.mpr ⟨_, he, ?_⟩)
  cases hv : hd.request.verdict <;> simp [hv, Event.commands] at hne ⊢

/-- What happens is what was to happen next. -/
structure Conserves (s : State) (ev : List Event) (s' : State) : Prop where
  forecast : executed ev ++ s'.forecast = s.forecast
  final : s'.final = s.final

/-- A step that parses nothing. -/
theorem Conserves.quiet (hsession : s'.session = s.session) (hunparsed : s'.unparsed = s.unparsed)
    (hpending : executed ev ++ s'.pending = s.pending) : Conserves s ev s' := by
  constructor
  · rw [State.forecast, State.forecast, hsession, hunparsed, ← hpending, List.append_assoc]
  · rw [State.final, State.final, hsession, hunparsed]

/-- A step that parses what the protocol parses. -/
theorem Conserves.frame {n : Nat} {o : List Command}
    (hframe : s.session.frame s.unparsed = some (n, o, s'.session))
    (hunparsed : s'.unparsed = s.unparsed.drop n) (hnone : s.pending = [])
    (hpending : executed ev ++ s'.pending = o) : Conserves s ev s' := by
  constructor
  · rw [State.forecast, State.forecast, commandsIn_some hframe, hunparsed, hnone, ← hpending,
      List.nil_append, List.append_assoc]
  · rw [State.final, State.final, sessionAfter_some hframe, hunparsed]

/-- A step that ends the session where the protocol ends it. -/
theorem Conserves.ended {n : Nat} (hend : ∀ bs, s'.session.frame bs = none)
    (hframe : s.session.frame s.unparsed = some (n, [], s'.session))
    (hnone : s.pending = []) (hnone' : s'.pending = []) (hev : executed ev = []) :
    Conserves s ev s' := by
  constructor
  · rw [State.forecast, State.forecast, commandsIn_some hframe, commandsIn_none (hend _),
      commandsIn_none (hend _), hnone, hnone', hev]
  · rw [State.final, State.final, sessionAfter_some hframe, sessionAfter_none (hend _),
      sessionAfter_none (hend _)]

/-! ### Sessions of the states of a run -/

theorem State.session_open (halive : s.exited = false) (hc : s.c.connState ≠ .connClosing) :
    s.session = s.c.session := by
  simp [State.session, halive, hc]

theorem Connection.session_head {c : Connection} (h : c.workState = .parseHead) :
    c.session = .head c.batch := by
  simp [Connection.session, h]

theorem Connection.session_body {c : Connection} (h : c.workState = .readKeyValue)
    {q : Request} (hq : c.binaryHeader.request = q) (hv : q.verdict = .body) :
    c.session = .body q hv c.batch := by
  subst hq
  simp [Connection.session, h, hv]

theorem Connection.session_write {c : Connection} (h : c.workState = .writeBcak) :
    c.session = settle c.batch := by
  simp [Connection.session, h]

theorem State.pending_nil (h : s.c.workState ≠ .storeKvobj) (h' : s.c.workState ≠ .queryKey) :
    s.pending = [] := by
  unfold State.pending
  split
  · split
    · exact absurd ‹_› h
    · exact absurd ‹_› h'
    · rfl
  · rfl

/-! ### One pass -/

/-- A parsed header, in the terms of the protocol. -/
theorem State.AtHead.frame (h : s.AtHead) (halive : s.exited = false) :
    s.session.frame s.unparsed =
      some (headerSize, onRequest s.c.batch (.decode s.c.window)) := by
  have hs : s.session = .head s.c.batch := by
    rw [State.session_open halive (by simp [h.conn]), Connection.session_head h.work]
  rw [hs]
  exact frameHead_window h.magic h.length

theorem State.AtHead.inTurn (h : s.AtHead) :
    ∀ x ∈ s.c.batch, x.count = (Request.decode s.c.window).batchnum := by
  intro x hx
  unfold Connection.batch at hx
  split at hx
  next hin =>
    obtain rfl := Option.some.inj hx
    exact h.turn hin
  next => cases hx

/-- A parsed body, in the terms of the protocol. -/
theorem State.AtBody.frame (h : s.AtBody) (hwin : WindowOk s.c) (halive : s.exited = false) :
    s.session.frame s.unparsed =
      some (s.c.binaryHeader.totalbodylen.toNat,
        [bodyCommand s.c.binaryHeader.request s.c.window],
        afterBody s.c.binaryHeader.request s.c.batch) := by
  have hs : s.session = .body s.c.binaryHeader.request h.verdict s.c.batch := by
    rw [State.session_open halive (by simp [h.conn]),
      Connection.session_body h.work rfl h.verdict]
  rw [hs]
  exact frameBody_window h.verdict h.length hwin.length_le

/-- A read moves bytes from the socket to the buffer, and parses none of them. -/
theorem unparsed_read (h : WindowOk s.c) (hpos : 0 < r.ret)
    (hle : r.ret ≤ s.inbox.length) :
    ((compact s.c).receive (s.inbox.take r.ret.toNat) r.ret).window ++ s.inbox.drop r.ret.toNat =
      s.unparsed := by
  have hlen : r.ret = (s.inbox.take r.ret.toNat).length := by
    rw [List.length_take]
    omega
  rw [window_receive h.compact rfl hlen, window_compact, List.append_assoc,
    List.take_append_drop, State.unparsed]

/-- What is parsed off the window is parsed off what is unparsed. -/
theorem drop_unparsed {n : Nat} (h : n ≤ s.c.window.length) :
    s.c.window.drop n ++ s.inbox = s.unparsed.drop n :=
  (List.drop_append_of_le_length h).symm

/-- A header leaves the connection where it leaves the protocol. -/
theorem State.AtHead.conserves (h : s.AtHead) (halive : s.exited = false)
    (hunparsed : s'.unparsed = s.c.window.drop headerSize ++ s.inbox)
    (hpending : s'.pending = [])
    (hsession : (executed ev, s'.session) = onRequest s.c.batch (.decode s.c.window)) :
    Conserves s ev s' := by
  refine .frame (n := headerSize) (o := executed ev) ?_ ?_ ?_ ?_
  · rw [h.frame halive, ← hsession]
  · rw [hunparsed, drop_unparsed h.length]
  · exact State.pending_nil (by simp [h.work]) (by simp [h.work])
  · rw [hpending, List.append_nil]

/-- So does a body. -/
theorem State.AtBody.conserves (h : s.AtBody) (hwin : WindowOk s.c) (halive : s.exited = false)
    (hunparsed : s'.unparsed =
      s.c.window.drop s.c.binaryHeader.totalbodylen.toNat ++ s.inbox)
    (hsession : s'.session = afterBody s.c.binaryHeader.request s.c.batch)
    (hpending : executed ev ++ s'.pending = [bodyCommand s.c.binaryHeader.request s.c.window]) :
    Conserves s ev s' := by
  refine .frame (hsession ▸ h.frame hwin halive) ?_ ?_ hpending
  · rw [hunparsed, drop_unparsed h.length]
  · exact State.pending_nil (by simp [h.work]) (by simp [h.work])

/-- A step between two open states with the same protocol state. -/
theorem Conserves.moved (halive : s.exited = false) (halive' : s'.exited = false)
    (hc : s.c.connState ≠ .connClosing) (hc' : s'.c.connState ≠ .connClosing)
    (hsession : s'.c.session = s.c.session) (hunparsed : s'.unparsed = s.unparsed)
    (hpending : executed ev ++ s'.pending = s.pending) : Conserves s ev s' :=
  .quiet (by rw [State.session_open halive hc, State.session_open halive' hc', hsession])
    hunparsed hpending

/-- Such a step that executes nothing. -/
theorem Conserves.stay (halive : s.exited = false) (halive' : s'.exited = false)
    (hc : s.c.connState ≠ .connClosing) (hc' : s'.c.connState ≠ .connClosing)
    (hsession : s'.c.session = s.c.session) (hunparsed : s'.unparsed = s.unparsed)
    (hev : executed ev = []) (hpending : s'.pending = s.pending) : Conserves s ev s' :=
  .moved halive halive' hc hc' hsession hunparsed (by rw [hev, hpending, List.nil_append])

theorem Connection.Starved.work {c : Connection} (h : c.Starved) :
    c.workState ≠ .storeKvobj ∧ c.workState ≠ .queryKey := by
  rcases h with ⟨hw, -⟩ | ⟨hw, -⟩ <;> simp [hw]

/-- A starved connection has nothing to execute, and neither has one that differs
from it in other fields than the work state. -/
theorem Connection.Starved.pending_eq (h : s.c.Starved) (hw : s'.c.workState = s.c.workState) :
    s'.pending = s.pending := by
  rw [State.pending_nil h.work.1 h.work.2, State.pending_nil (hw ▸ h.work.1) (hw ▸ h.work.2)]

/-- What is waited for is more than there is room for only if it is a body. -/
theorem StateOk.full (h : StateOk s) (hw : s.c.Starved) (hfull : s.c.avail ≤ 0) :
    s.c.workState = .readKeyValue ∧ s.c.window.length = initReadBufSize ∧
      initReadBufSize < s.c.binaryHeader.totalbodylen.toNat := by
  have hle := h.control.window.length_le
  have hsize := h.control.window.size
  have hnonneg := h.control.window.nonneg
  simp only [Connection.avail, hsize] at hfull
  have hlen : s.c.window.length = initReadBufSize := by
    rw [length_window] at hle ⊢
    omega
  rcases hw with ⟨-, hshort, -⟩ | ⟨hw, hshort⟩
  · rw [hlen] at hshort
    exact absurd hshort (by decide)
  · exact ⟨hw, hlen, hlen ▸ hshort⟩

/-- A write that offers something and is not a failure takes something or would
block. -/
theorem Syscall.Benign.write {n : Nat} {inbox : Bytes} (hn : 0 < n)
    (h : (Syscall.write n).Benign inbox r) (hle : r.ret ≤ 0) : r.wouldBlock = true := by
  obtain ⟨hret, hneg, hzero⟩ := h
  rcases hret with hret | ⟨hge, -⟩
  · exact hneg hret
  · have := hzero (Int.le_antisymm hle hge)
    omega

theorem Connection.batch_eq {c : Connection} (h : c.inBatchGet = true) :
    c.batch = some ⟨c.batchNum, c.batchCount⟩ := by
  simp [Connection.batch, h]

theorem Connection.batch_conRetBuf (c : Connection) :
    (conRetBuf c).batch = c.batch.map fun x => ⟨x.num, x.count + 1⟩ := by
  cases hin : c.inBatchGet with
  | false => simp [conRetBuf_single hin, Connection.batch, hin]
  | true => simp [conRetBuf_batch hin, Connection.batch, hin]

@[simp] theorem Connection.batch_queryResult (c : Connection) (found : Option Bytes) :
    (queryResult c found).batch = c.batch := by
  simp [Connection.batch]

/-- **A pass executes what comes next**, unless it gives up the connection because of a
failure of the socket. -/
theorem StateOk.conserves (h : StateOk s) (halive : s.exited = false)
    (hr : s'.c.connState = .connClosing → s.benign r) (hp : Pass s r s' ev) :
    Conserves s ev s' := by
  cases hp with
  | readData hc hw hpos havail hinbox =>
      exact .stay halive halive (by simp [hc]) (by simp) rfl
        (unparsed_read h.control.window hpos hinbox) rfl (hw.pending_eq rfl)
  | readEof hc hw hret =>
      -- no room was offered: the body at hand is larger than the buffer
      have hbenign := hr rfl (.read s.c.avail) (by simp [State.syscall, hc])
      obtain ⟨hwork, hlen, hbig⟩ := h.full hw (hbenign.2.2 hret)
      have hv := (h.control.body hwork).2
      refine .ended (n := initReadBufSize) ?_ ?_ ?_ ?_ rfl
      · simp [State.session, halive, Session.frame]
      · rw [State.session_open halive (by simp [hc]), Connection.session_body hwork rfl hv]
        have hlen' : initReadBufSize ≤ s.unparsed.length := by
          rw [State.unparsed, List.length_append]
          omega
        refine (frameBody_full hbig hlen').trans ?_
        simp [State.session, halive]
      · exact State.pending_nil hw.work.1 hw.work.2
      · exact State.pending_nil hw.work.1 hw.work.2
  | readNone hc hw hret =>
      exact .stay halive halive (by simp [hc]) (by simp) rfl (by simp [State.unparsed])
        rfl (hw.pending_eq rfl)
  | newCmdMore hc hw | newCmdIdle hc hw | headNone hc hw | headShort hc hw | bodyShort hc hw =>
      -- only the connection state moves
      exact .stay halive halive (by simp [hc]) (by simp) rfl rfl rfl (by simp [State.pending, hw])
  | newCmdStop hc hw hn => exact .quiet rfl rfl rfl
  | headMagic hc hw hhead hx =>
      refine .ended (n := 1) ?_ ?_ (by simp [State.pending, hw]) (by simp [State.pending]) rfl
      · simp [State.session, Session.frame]
      · rw [State.session_open halive (by simp [hc]), Connection.session_head hw]
        exact frameHead_magic hhead hx
  | headTurn hc hw hmagic hlen hin hne =>
      refine .ended (n := headerSize) ?_ ?_ (by simp [State.pending, hw])
        (by simp [State.pending]) rfl
      · simp [State.session, Session.frame]
      · rw [State.session_open halive (by simp [hc]), Connection.session_head hw]
        refine (frameHead_window hmagic hlen).trans ?_
        rw [onRequest_late (Connection.batch_eq hin) hne]
        rfl
  | headClosed ha hv =>
      have hreq := loadHeader_request ha.length
      refine ha.conserves halive (by simp [State.unparsed]) (by simp [State.pending]) ?_
      simp [onRequest_turn ha.inTurn hv, executed, Event.commands, hreq, hv, State.session, halive]
  | headRefused ha hv =>
      have hreq := loadHeader_request ha.length
      refine ha.conserves halive (by simp [State.unparsed])
        (by simp [State.pending, ha.work]) ?_
      rw [onRequest_turn ha.inTurn hv]
      simp [executed, Event.commands, hreq, hv, State.session, halive, ha.conn,
        Connection.session, ha.work, Connection.batch]
  | headBatch ha hv =>
      have hreq := loadHeader_request ha.length
      refine ha.conserves halive (by simp [State.unparsed]) (by simp [State.pending]) ?_
      rw [onRequest_turn ha.inTurn hv, ← loadHeader_batchnum ha.length]
      simp [executed, Event.commands, hreq, hv, State.session, halive, ha.conn,
        Connection.session, Connection.batch]
  | headBody ha hv =>
      have hreq := loadHeader_request ha.length
      refine ha.conserves halive (by simp [State.unparsed]) (by simp [State.pending]) ?_
      rw [onRequest_turn ha.inTurn hv]
      simp [executed, Event.commands, hreq, hv, State.session, halive, ha.conn,
        Connection.session, Connection.batch]
  | bodySet hb hop =>
      refine hb.conserves h.control.window halive (by simp [State.unparsed]) ?_ ?_
      · simp [State.session, halive, hb.conn, Connection.session, afterBody, hop, Connection.batch]
      · simp [State.pending, halive, hb.conn, bodyCommand, hop]
  | bodyGet hb hop =>
      obtain ⟨-, ⟨hset, -⟩ | ⟨-, hbody⟩⟩ := Request.verdict_body hb.verdict
      · exact absurd (hop.symm.trans hset) (by decide)
      have hbody' : s.c.binaryHeader.totalbodylen.toNat = s.c.binaryHeader.keylen.toNat := hbody
      have hne : cmdGet ≠ cmdSet := by decide
      refine hb.conserves h.control.window halive (by simp [State.unparsed, hbody']) ?_ ?_
      · simp [State.session, halive, hb.conn, Connection.session, afterBody, hop, hne,
          Connection.batch]
      · simp [State.pending, halive, hb.conn, bodyCommand, hop, hne]
  | store hc hw =>
      refine .moved halive halive (by simp [hc]) (by simp) ?_ rfl ?_
      · simp [Connection.session, hw, Connection.batch]
      · simp [State.pending, halive, hc, hw, executed, Event.commands]
  | query hc hw =>
      refine .moved halive halive (by simp [hc]) (by simp [hc]) ?_ (by simp [State.unparsed]) ?_
      · simp [Connection.session, hw, afterGet_eq, Connection.batch_conRetBuf]
      · simp [State.pending, halive, hc, hw, executed, Event.commands]
  | batchMore hc hw hin hlt =>
      refine .moved halive halive (by simp [hc]) (by simp) ?_ rfl (by simp [State.pending, hw])
      rw [Connection.session_write hw, Connection.batch_eq hin]
      simp [Connection.session, Connection.batch, hin, settle, Batch.settle, hlt]
  | batchSpin hc hw hin hgt =>
      exact .stay halive halive (by simp [hc]) (by simp [hc]) rfl rfl rfl rfl
  | batchBlocked ha | singleBlocked ha | singlePart ha =>
      exact .stay halive halive (by simp [ha.conn]) (by simp) rfl rfl rfl
        (by simp [State.pending, ha.work])
  | batchFailed ha hle hb =>
      -- the write was offered something, so this is a failure of the socket
      have hbenign := hr rfl (.write _) (by
        simp only [State.syscall, ha.conn, ha.work, ha.inBatch, ha.count, ha.buffers]
        rfl)
      simp [hbenign.write (h.batch.left_pos ha _ List.mem_cons_self) hle] at hb
  | batchDone ha hpos hall =>
      refine .moved halive halive (by simp [ha.conn]) (by simp) ?_ rfl
        (by simp [State.pending, ha.work, executed, Event.commands])
      rw [Connection.session_write ha.work, Connection.batch_eq ha.inBatch]
      simp [Connection.session, Connection.batch, settle, Batch.settle, ha.count]
  | batchNext ha | batchPart ha =>
      exact .stay halive halive (by simp [ha.conn]) (by simp)
        (by simp [Connection.session, Connection.batch])
        (by simp [State.unparsed]) rfl
        (by simp [State.pending, ha.work])
  | singleFailed ha hle hb =>
      have hbenign := hr rfl (.write _) (by
        simp only [State.syscall, ha.conn, ha.work, ha.inBatch]
        rfl)
      simp [hbenign.write (h.batch.single ha.work ha.inBatch) hle] at hb
  | singleDone ha hpos hall =>
      refine .moved halive halive (by simp [ha.conn]) (by simp) ?_ rfl
        (by simp [State.pending, ha.work, executed, Event.commands])
      rw [Connection.session_write ha.work]
      simp [Connection.session, Connection.batch, ha.inBatch, settle]
  | waitWrite hc hw =>
      exact .stay halive halive (by simp [hc]) (by simp) rfl rfl rfl (by simp [State.pending, hw.1])
  | waitRead hc hw =>
      exact .stay halive halive (by simp [hc]) (by simp) rfl rfl rfl (hw.pending_eq rfl)
  | closing hc => exact .quiet rfl rfl rfl

/-! ### Waiting -/

/-- A connection that is over executes nothing more. -/
theorem State.forecast_over (h : s.exited = true ∨ s.c.connState = .connClosing) :
    s.forecast = [] ∧ s.final = s.session := by
  have hframe : s.session.frame s.unparsed = none := by
    unfold State.session
    rcases h with h | h
    · simp [h, Session.frame]
    · rw [h]
      split <;> rfl
  have hpending : s.pending = [] := by
    rcases h with h | h <;> simp [State.pending, h]
  constructor
  · rw [State.forecast, hpending, commandsIn_none hframe, List.nil_append]
  · exact sessionAfter_none hframe

/-- What a connection with room for more waits for, the protocol waits for. -/
theorem Connection.Starved.frame (hw : s.c.Starved) (h : StateOk s) (hroom : ¬ s.c.avail ≤ 0) :
    s.c.session.frame s.c.window = none := by
  have hsize := h.control.window.size
  have hnonneg := h.control.window.nonneg
  have hlen' : s.c.window.length < initReadBufSize := by
    rw [Connection.avail, hsize] at hroom
    rw [length_window]
    omega
  rcases hw with ⟨hwork, hlen, hmagic⟩ | ⟨hwork, hlen⟩
  · rw [Connection.session_head hwork]
    exact frameHead_wait hlen hmagic
  · rw [Connection.session_body hwork rfl (h.control.body hwork).2]
    exact frameBody_wait hlen hlen'

/-- A connection that waits for input, with none to come, executes nothing more. -/
theorem StateOk.forecast_starved (h : StateOk s) (halive : s.exited = false)
    (hc : s.c.connState ≠ .connClosing) (hw : s.c.Starved) (hinbox : s.inbox = []) :
    s.forecast = [] ∧ (0 < s.c.avail → s.final = s.session) := by
  have hpending : s.pending = [] := State.pending_nil hw.work.1 hw.work.2
  have hunparsed : s.unparsed = s.c.window := by rw [State.unparsed, hinbox, List.append_nil]
  have hsession := State.session_open halive hc
  by_cases hfull : s.c.avail ≤ 0
  · -- the buffer is full, and the next read closes the connection
    obtain ⟨hwork, hlen, hbig⟩ := h.full hw hfull
    have hv := (h.control.body hwork).2
    have hframe : s.session.frame s.unparsed = some (initReadBufSize, [], .closed) := by
      rw [hsession, Connection.session_body hwork rfl hv, hunparsed]
      exact frameBody_full hbig hlen.ge
    refine ⟨?_, fun hpos => absurd hfull (Int.not_le.mpr hpos)⟩
    rw [State.forecast, hpending, commandsIn_some hframe, commandsIn_none rfl]
    rfl
  · have hframe : s.session.frame s.unparsed = none := by
      rw [hsession, hunparsed]
      exact hw.frame h hfull
    refine ⟨?_, fun _ => sessionAfter_none hframe⟩
    rw [State.forecast, hpending, commandsIn_none hframe, List.nil_append]

/-! ### Runs -/

theorem Conserves.refl (s : State) : Conserves s [] s := ⟨rfl, rfl⟩

theorem Conserves.trans {s'' : State} {ev' : List Event} (h : Conserves s ev s')
    (h' : Conserves s' ev' s'') : Conserves s (ev ++ ev') s'' where
  forecast := by
    rw [executed_append, List.append_assoc, h'.forecast, h.forecast]
  final := h'.final.trans h.final

theorem StateOk.conserves_step (h : StateOk s) (hs : Step Env.benign s ev s') :
    Conserves s ev s' := by
  cases hs with
  | call hstop halive hevent => exact .quiet rfl rfl rfl
  | pass hrun halive hans =>
      exact h.conserves halive (fun _ => hans) (pass_cases h.control (Env.benign.returns hans))
  | others halive ht => exact .quiet rfl rfl rfl

/-- **Conservation.** What a run executes, followed by what is then still to be
executed, is what was to be executed at its start. -/
theorem StateOk.conserves_run (h : StateOk s) (hr : Run (Step Env.benign) s tr s') :
    Conserves s tr s' := by
  have hrel : StateOk s' ∧ Conserves s tr s' :=
    hr.relate (R := fun tr t => StateOk t ∧ Conserves s tr t) ⟨h, .refl s⟩
      fun _ _ _ _ ⟨hok, hcons⟩ hs => ⟨hok.step hs, hcons.trans (hok.conserves_step hs)⟩
  exact hrel.2

/-- From a connection that is given up there is no way back. -/
theorem Pass.closing_stays (hp : Pass s r s' ev) (hc : s.c.connState = .connClosing) :
    s'.c.connState = .connClosing ∧ executed ev = [] := by
  cases hp with
  | closing _ => exact ⟨by simpa using hc, rfl⟩
  | readData hc' | readEof hc' | readNone hc' | newCmdMore hc' | newCmdIdle hc' | newCmdStop hc'
  | headNone hc' | headShort hc' | headMagic hc' | headTurn hc' | bodyShort hc' | store hc'
  | query hc' | batchMore hc' | batchSpin hc' | waitWrite hc' | waitRead hc' =>
      exact absurd (hc.symm.trans hc') (by decide)
  | headClosed ha | headRefused ha | headBatch ha | headBody ha | bodySet ha | bodyGet ha
  | batchBlocked ha | batchFailed ha | batchDone ha | batchNext ha | batchPart ha
  | singleBlocked ha | singleFailed ha | singleDone ha | singlePart ha =>
      exact absurd (hc.symm.trans ha.conn) (by decide)

/-- A pass that makes a system call executes nothing. -/
theorem Pass.executed_syscall (hp : Pass s r s' ev) (hcall : s.syscall ≠ none) :
    executed ev = [] := by
  cases hp with
  | headClosed ha _ | headRefused ha _ | headBatch ha _ | headBody ha _ =>
      exact absurd (by simp [State.syscall, ha.conn, ha.work]) hcall
  | store hc hw | query hc hw => exact absurd (by simp [State.syscall, hc, hw]) hcall
  | _ => rfl

/-- A pass that gives up the connection, or finds it given up, does not exit. -/
theorem Pass.closing_alive (hp : Pass s r s' ev) (hc : s'.c.connState = .connClosing) :
    s'.exited = s.exited := by
  cases hp with
  | headMagic hd | headTurn hd => exact absurd (hd.symm.trans hc) (by decide)
  | _ => rfl

/-- Whatever the socket does, a run conserves what there is to execute until it gives up
the connection. -/
def ConservesOrOver (s : State) (tr : List Event) (t : State) : Prop :=
  Conserves s tr t ∨
    t.c.connState = .connClosing ∧ t.exited = false ∧ executed tr <+: s.forecast

theorem StateOk.conservesOrOver_pass (h : StateOk t) (halive : t.exited = false)
    (hc : ConservesOrOver s tr t) (hp : Pass t r t' ev) : ConservesOrOver s (tr ++ ev) t' := by
  rcases hc with hc | ⟨hc, -, hpre⟩
  · by_cases hb : t'.c.connState = .connClosing → t.benign r
    · exact .inl (hc.trans (h.conserves halive hb hp))
    · -- a failure of the socket, in a pass that executes nothing
      rw [Classical.not_imp] at hb
      have hcall : t.syscall ≠ none := fun hnone =>
        hb.2 fun call hcall => by simp [hnone] at hcall
      refine .inr ⟨hb.1, (hp.closing_alive hb.1).trans halive, ?_⟩
      rw [executed_append, hp.executed_syscall hcall, List.append_nil]
      exact ⟨_, hc.forecast⟩
  · obtain ⟨hc', hev⟩ := hp.closing_stays hc
    refine .inr ⟨hc', (hp.closing_alive hc').trans halive, ?_⟩
    rwa [executed_append, hev, List.append_nil]

theorem Init.forecast (h : Init stream s) : s.forecast = commandsIn (.head none) stream := by
  obtain ⟨sfd, threadIndex, readBuf, retBuf, hc⟩ := h.conn
  simp [State.forecast, State.pending, State.session, State.unparsed, h.exited, hc, h.inbox,
    Connection.session, Connection.batch, connNew, Connection.window]

theorem Init.final (h : Init stream s) : s.final = sessionAfter (.head none) stream := by
  obtain ⟨sfd, threadIndex, readBuf, retBuf, hc⟩ := h.conn
  simp [State.final, State.session, State.unparsed, h.exited, hc, h.inbox,
    Connection.session, Connection.batch, connNew, Connection.window]

/-- **Whatever the socket does**, a run executes a beginning of what there is to execute,
and as long as it does not give up the connection the rest is still to come. -/
theorem StateOk.conservesOrOver_run (h : StateOk s) (hr : Run (Step E) s tr t) :
    ConservesOrOver s tr t := by
  refine h.along hr (.inl (.refl s)) ?_ ?_ fun hok halive _ => hok.conservesOrOver_pass halive
  · rintro tr a (hc | hc)
    · exact .inl ⟨hc.forecast, hc.final⟩
    · exact .inr hc
  · rintro tr a table (hc | hc)
    · exact .inl ⟨hc.forecast, hc.final⟩
    · exact .inr hc

/-- **Refinement.** In every run of a connection that does not fail, what has been
executed is the beginning of the command sequence of its stream, and the session
it stands for is on its way to the session the stream ends in. -/
theorem Init.refines (h : Init stream s) (hr : Run (Step Env.benign) s tr s') :
    executed tr ++ s'.forecast = commandsIn (.head none) stream ∧
      s'.final = sessionAfter (.head none) stream := by
  have hcons := h.ok.conserves_run hr
  exact ⟨hcons.forecast.trans h.forecast, hcons.final.trans h.final⟩

/-- Where the socket may fail, what has been executed is still a beginning of the command
sequence, and the process only exits where the protocol does. -/
theorem Init.executes (h : Init stream s) (hr : Run (Step E) s tr t) :
    executed tr <+: commandsIn (.head none) stream ∧
      (t.exited = true → sessionAfter (.head none) stream = .exited) := by
  have hcons := h.ok.conservesOrOver_run hr
  rw [ConservesOrOver, h.forecast] at hcons
  rcases hcons with hcons | ⟨-, halive, hpre⟩
  · refine ⟨⟨_, hcons.forecast.trans h.forecast⟩, fun hexit => ?_⟩
    rw [← h.final, ← hcons.final, (State.forecast_over (.inl hexit)).2, State.session, if_pos hexit]
  · exact ⟨hpre, fun hexit => by simp [halive] at hexit⟩

end MultiportNetwork
