import MultiportNetwork.Server.Exec
import MultiportNetwork.Spec.Stream

/-!
# MultiportNetwork.Receive

The receive buffer and the two state variables of the parser, in every reachable state.

`read_buf` is filled behind the window and read inside it (`window_run`): the window is
what has been received and not yet consumed, and every access of a pass, with its length
as the code computes it, lies within the bounds it should. The branches of `process_func`
that are only there for states that should not occur are never taken
(`parser_state_run`).
-/

namespace MultiportNetwork

variable {E : Env} {s s' t : State} {r : SysRet} {ev tr : List Event} {stream : Bytes}

/-! ### Received and consumed -/

/-- The bytes an event receives. -/
def Event.received : Event → Bytes
  | .read bytes => bytes
  | _ => []

/-- The bytes received so far. -/
def received (tr : List Event) : Bytes := tr.flatMap Event.received

/-- The bytes of the stream an event says are done with: a header, or the body of a
command that is executed. -/
def Event.consumed : Event → Nat
  | .dispatch .. => headerSize
  | .insertOrAssign k v => k.length + v.length
  | .find k _ => k.length
  | _ => 0

/-- The length of a command's body. -/
def Command.bodylen : Command → Nat
  | .set k v => k.length + v.length
  | .get k => k.length
  | _ => 0

/-- The bytes consumed so far: all headers and bodies parsed, the body of a command that
is still to be executed among them. -/
def consumed (tr : List Event) (t : State) : Nat :=
  (tr.map Event.consumed).sum + (t.pending.map Command.bodylen).sum

@[simp] theorem received_append (a b : List Event) :
    received (a ++ b) = received a ++ received b := by
  simp [received]

theorem consumed_append :
    consumed (tr ++ ev) s = (tr.map Event.consumed).sum +
      ((ev.map Event.consumed).sum + (s.pending.map Command.bodylen).sum) := by
  simp [consumed, Nat.add_assoc]

/-- The window is the part of the stream between what has been consumed and what has been
received, and what has not been received is still in the socket. -/
structure Tracks (stream : Bytes) (tr : List Event) (t : State) : Prop where
  delivered : received tr ++ t.inbox = stream
  window : ∃ done, done.length = consumed tr t ∧ received tr = done ++ t.c.window

theorem Init.tracks (h : Init stream s) : Tracks stream [] s := by
  obtain ⟨sfd, threadIndex, readBuf, retBuf, hc⟩ := h.conn
  refine ⟨by simp [received, h.inbox], [], ?_, ?_⟩
  · simp [consumed, State.pending, hc, connNew]
  · simp [received, hc, connNew, Connection.window]

/-- A step that neither receives nor parses. -/
theorem Tracks.silent (h : Tracks stream tr s) (hev : received ev = [])
    (hconsumed : (ev.map Event.consumed).sum + (s'.pending.map Command.bodylen).sum =
      (s.pending.map Command.bodylen).sum)
    (hinbox : s'.inbox = s.inbox := by rfl) (hwin : s'.c.window = s.c.window := by simp) :
    Tracks stream (tr ++ ev) s' := by
  obtain ⟨done, hlen, hreceived⟩ := h.window
  refine ⟨by rw [received_append, hev, List.append_nil, hinbox, h.delivered], done, ?_, ?_⟩
  · rw [hlen, consumed_append, hconsumed, consumed]
  · rw [received_append, hev, List.append_nil, hwin, hreceived]

/-- A step that moves the window past `n` bytes. -/
theorem Tracks.advance {n : Nat} (h : Tracks stream tr s) (hn : n ≤ s.c.window.length)
    (hev : received ev = [])
    (hconsumed : (ev.map Event.consumed).sum + (s'.pending.map Command.bodylen).sum =
      (s.pending.map Command.bodylen).sum + n)
    (hinbox : s'.inbox = s.inbox := by rfl)
    (hwin : s'.c.window = s.c.window.drop n := by simp) : Tracks stream (tr ++ ev) s' := by
  obtain ⟨done, hlen, hreceived⟩ := h.window
  refine ⟨by rw [received_append, hev, List.append_nil, hinbox, h.delivered],
    done ++ s.c.window.take n, ?_, ?_⟩
  · rw [List.length_append, List.length_take, Nat.min_eq_left hn, hlen, consumed_append, hconsumed,
      consumed, Nat.add_assoc]
  · rw [received_append, hev, List.append_nil, hwin, hreceived, List.append_assoc,
      List.take_append_drop]

/-- **A pass tracks the stream.** -/
theorem StateOk.tracks_pass (hok : StateOk s) (halive : s.exited = false) (h : Tracks stream tr s)
    (hp : Pass s r s' ev) : Tracks stream (tr ++ ev) s' := by
  have hwin := hok.control.window
  cases hp with
  | readData hc hw hpos havail hinbox =>
      obtain ⟨done, hlen, hreceived⟩ := h.window
      have hres : r.ret = (s.inbox.take r.ret.toNat).length := by
        rw [List.length_take]
        omega
      refine ⟨?_, done, ?_, ?_⟩
      · rw [received_append, ← h.delivered]
        simp [received, Event.received]
      · simp [hlen, consumed, Event.consumed, State.pending, hw.work, hc]
      · rw [received_append, hreceived, window_connStateJump, window_receive hwin.compact rfl hres]
        simp [received, Event.received]
  | headClosed ha hv | headRefused ha hv | headBatch ha hv | headBody ha hv =>
      exact h.advance ha.length rfl (by simp [Event.consumed, State.pending, ha.work])
  | bodySet hb hop =>
      -- the body is consumed as the command that is now pending
      have hkey := (Request.keylen_le_of_body hb.verdict).2
      have hlen := hb.length
      refine h.advance hb.length rfl ?_
      simp only [RequestHeader.request_keylen, RequestHeader.request_totalbodylen,
        length_window] at hkey hlen
      simp [State.pending, hb.conn, hb.work, halive, Command.bodylen]
      omega
  | bodyGet hb hop =>
      have hkey := (Request.keylen_le_of_body hb.verdict).2
      have hlen : s.c.binaryHeader.keylen.toNat ≤ s.c.window.length := hkey.trans hb.length
      refine h.advance hlen rfl ?_
      simpa [State.pending, hb.conn, hb.work, halive, Command.bodylen] using hlen
  | store hc hw | query hc hw =>
      exact h.silent rfl (by
        simp [State.pending, hc, hw, halive, Event.consumed, Command.bodylen])
  | newCmdStop => exact h.silent rfl (by simp [State.pending])
  | readEof hc | readNone hc | waitRead hc | closing hc =>
      exact h.silent rfl (by simp [State.pending, hc, Event.consumed])
  | waitWrite hc hw => exact h.silent rfl (by simp [State.pending, hw.1])
  | newCmdMore hc hw | newCmdIdle hc hw | headNone hc hw | headShort hc hw | headMagic hc hw
  | headTurn hc hw | bodyShort hc hw | batchMore hc hw | batchSpin hc hw =>
      exact h.silent rfl (by simp [State.pending, hw, Event.consumed])
  | batchBlocked ha | batchFailed ha | batchDone ha | batchNext ha | batchPart ha
  | singleBlocked ha | singleFailed ha | singleDone ha | singlePart ha =>
      exact h.silent rfl (by simp [State.pending, ha.work, Event.consumed])

/-- **Every run tracks the stream.** -/
theorem Init.tracks_run (h : Init stream s) (hr : Run (Step E) s tr t) : Tracks stream tr t :=
  h.ok.along hr h.tracks (fun hR => ⟨hR.delivered, hR.window⟩)
    (fun _ hR => ⟨hR.delivered, hR.window⟩) fun hok halive _ hR hp => hok.tracks_pass halive hR hp

/-! ### Accesses to `read_buf` -/

/-- A range of `read_buf`: where it starts, and the length the code computes for it. -/
structure BufRange where
  off : Int
  len : Nat
  deriving Repr, DecidableEq

def BufRange.Within (a : BufRange) (lo hi : Int) : Prop := lo ≤ a.off ∧ a.off + a.len ≤ hi

def BufRange.Mem (i : Nat) (a : BufRange) : Prop := a.off ≤ i ∧ i < a.off + a.len

/-- Does `try_read_network` call `memmove`? -/
def Connection.moves (c : Connection) : Prop := c.workingBuf ≠ 0 ∧ c.remainingBytes ≠ 0

instance (c : Connection) : Decidable c.moves := inferInstanceAs (Decidable (_ ∧ _))

/-- What `memmove` reads. -/
def Connection.moveLoads (c : Connection) : List BufRange :=
  if c.moves then [⟨c.workingBuf, toU64 c.remainingBytes⟩] else []

/-- What `parse_head` reads: `working_buf[0]`, and the header behind a right one. -/
def Connection.headLoads (c : Connection) : List BufRange :=
  if c.remainingBytes < 1 then []
  else if c.readBuf c.workingBuf = protocolBinaryReq ∧
      ¬ toU64 c.remainingBytes < headerSize then
    [⟨c.workingBuf, 1⟩, ⟨c.workingBuf, headerSize⟩]
  else [⟨c.workingBuf, 1⟩]

/-- What `try_read_key_value` reads: the key, and the value behind it. -/
def Connection.bodyLoads (c : Connection) : List BufRange :=
  if c.cmd = cmdSet then
    if toU32 c.remainingBytes < c.binaryHeader.totalbodylen.toNat then []
    else [⟨c.workingBuf, c.binaryHeader.keylen.toNat⟩,
      ⟨c.workingBuf + c.binaryHeader.keylen.toNat,
        (c.binaryHeader.totalbodylen - c.binaryHeader.keylen.toUInt32).toNat⟩]
  else if c.cmd = cmdGet then
    if c.remainingBytes < c.binaryHeader.keylen.toNat then []
    else [⟨c.workingBuf, c.binaryHeader.keylen.toNat⟩]
  else []

/-- What a pass reads of `read_buf`. -/
def State.loads (s : State) : List BufRange :=
  match s.c.connState, s.c.workState with
  | .connRead, _ => s.c.moveLoads
  | .connDealWith, .parseHead => s.c.headLoads
  | .connDealWith, .readKeyValue => s.c.bodyLoads
  | _, _ => []

/-- What a pass may write to `read_buf`: what `memmove` writes, and all that is offered to
`read`. -/
def State.stores (s : State) : List BufRange :=
  match s.c.connState with
  | .connRead =>
    (if s.c.moves then [⟨0, toU64 s.c.remainingBytes⟩] else []) ++
      [⟨s.c.remainingBytes, toU64 s.c.avail⟩]
  | _ => []

theorem WindowOk.remaining {c : Connection} (h : WindowOk c) :
    (toU64 c.remainingBytes : Int) = c.remainingBytes := by
  rw [toU64_of_window h, length_window, Int.toNat_of_nonneg h.nonneg]

theorem WindowOk.avail {c : Connection} (h : WindowOk c) :
    (toU64 c.avail : Int) = initReadBufSize - c.remainingBytes := by
  have hnonneg := h.nonneg
  have hfits := h.fits
  simp only [initReadBufSize] at hfits
  rw [toU64, Connection.avail, h.size, Int.emod_eq_of_lt] <;> simp only [initReadBufSize] <;> omega

/-- The unread bytes, as a range. -/
def BufRange.InWindow (a : BufRange) (c : Connection) : Prop :=
  a.Within c.workingBuf (c.workingBuf + c.remainingBytes)

/-- A range from the front of the window on. -/
theorem BufRange.inWindow_front {c : Connection} {n : Nat} (h : (n : Int) ≤ c.remainingBytes) :
    (⟨c.workingBuf, n⟩ : BufRange).InWindow c :=
  ⟨Int.le_refl _, Int.add_le_add_left h _⟩

theorem WindowOk.moveLoads {c : Connection} (h : WindowOk c) :
    ∀ a ∈ c.moveLoads, a.InWindow c := by
  intro a ha
  unfold Connection.moveLoads at ha
  split at ha
  · obtain rfl := List.mem_singleton.mp ha
    exact BufRange.inWindow_front h.remaining.le
  · cases ha

theorem WindowOk.headLoads {c : Connection} (h : WindowOk c) :
    ∀ a ∈ c.headLoads, a.InWindow c := by
  intro a ha
  unfold Connection.headLoads at ha
  split at ha
  · cases ha
  next hpos =>
    have hfirst : (⟨c.workingBuf, 1⟩ : BufRange).InWindow c :=
      BufRange.inWindow_front (Int.not_lt.mp hpos)
    split at ha
    next hhead =>
      have hle := Int.ofNat_le.mpr (Nat.le_of_not_lt hhead.2)
      rcases List.mem_pair.mp ha with rfl | rfl
      · exact hfirst
      · exact BufRange.inWindow_front (h.remaining ▸ hle)
    next =>
      obtain rfl := List.mem_singleton.mp ha
      exact hfirst

theorem ControlOk.bodyLoads (h : ControlOk s) (hw : s.c.workState = .readKeyValue) :
    ∀ a ∈ s.c.bodyLoads, a.InWindow s.c := by
  have hnonneg := h.window.nonneg
  have hkey := (Request.keylen_le_of_body (h.body hw).2).2
  simp only [RequestHeader.request_keylen, RequestHeader.request_totalbodylen] at hkey
  intro a ha
  unfold Connection.bodyLoads at ha
  split at ha
  · rw [toU32_of_window h.window, length_window] at ha
    split at ha
    · cases ha
    next hlen =>
      have hsub := h.sub_keylen hw
      rcases List.mem_pair.mp ha with rfl | rfl
      · exact BufRange.inWindow_front (by omega)
      · constructor <;> simp only <;> omega
  split at ha
  · split at ha
    · cases ha
    next hlen =>
      obtain rfl := List.mem_singleton.mp ha
      exact BufRange.inWindow_front (Int.not_lt.mp hlen)
  · cases ha

/-- **A pass reads** of `read_buf` nothing but unread bytes. -/
theorem ControlOk.loads_inWindow (h : ControlOk s) : ∀ a ∈ s.loads, a.InWindow s.c := by
  unfold State.loads
  split
  · exact h.window.moveLoads
  · exact h.window.headLoads
  next hw => exact h.bodyLoads hw
  · simp

/-- **A pass writes** nothing beyond `read_buf`. -/
theorem ControlOk.stores_within (h : ControlOk s) :
    ∀ a ∈ s.stores, a.Within 0 s.c.readBufSize := by
  have hwin := h.window
  have hnonneg := hwin.nonneg
  have hfits := hwin.fits
  intro a ha
  unfold State.stores at ha
  split at ha
  · rcases List.mem_append.mp ha with ha | ha
    · split at ha
      · obtain rfl := List.mem_singleton.mp ha
        rw [hwin.size]
        exact ⟨Int.le_refl _, by simp only [hwin.remaining]; omega⟩
      · cases ha
    · obtain rfl := List.mem_singleton.mp ha
      rw [hwin.size]
      exact ⟨hnonneg, by simp only [hwin.avail]; omega⟩
  · cases ha

/-! ### The accesses are those of a pass -/

/-- `try_read_network` leaves `read_buf` as it is outside the ranges it writes. -/
theorem untouched_compact {c : Connection} (h : WindowOk c) {i : Nat}
    (hi : c.moves → ¬ (⟨0, toU64 c.remainingBytes⟩ : BufRange).Mem i) :
    (compact c).readBuf i = c.readBuf i := by
  have hlen := h.remaining
  simp only [compact]
  split
  next hmoves =>
    have hout := hi hmoves
    simp only [BufRange.Mem] at hout
    exact Memory.store_of_le (by rw [Memory.length_load]; omega)
  next => rfl

/-- **`stores` is all a pass writes.** -/
theorem ControlOk.untouched (h : ControlOk s) (hr : s.returns r) {i : Nat}
    (hi : ∀ a ∈ s.stores, ¬ a.Mem i) : (pass s r).1.c.readBuf i = s.c.readBuf i := by
  have hwin := h.window
  have hcompact : s.c.connState = .connRead → (compact s.c).readBuf i = s.c.readBuf i :=
    fun hc => untouched_compact hwin fun hmoves =>
      hi _ (by simp [State.stores, hc, hmoves])
  have hp := pass_cases h hr
  generalize (pass s r).1 = s', (pass s r).2 = ev at hp
  cases hp with
  | readEof hc | readNone hc => exact hcompact hc
  | readData hc hw hpos havail hinbox =>
      have hout := hi ⟨s.c.remainingBytes, toU64 s.c.avail⟩ (by simp [State.stores, hc])
      have hlen := hwin.avail
      have hnonneg := hwin.nonneg
      simp only [Connection.avail, hwin.size] at havail
      simp only [BufRange.Mem] at hout
      refine Eq.trans ?_ (hcompact hc)
      simp only [Connection.connStateJump, Connection.receive, compact_remainingBytes]
      by_cases hlt : i < s.c.remainingBytes.toNat
      · exact Memory.store_of_lt hlt
      · exact Memory.store_of_le (by rw [List.length_take]; omega)
  | _ => simp

/-! ### What is not read

That a pass reads nothing but `loads` is said by what makes no difference: with other bytes
everywhere else it does the same. -/

variable {buf : Memory UInt8}

/-- The connection with other bytes in `read_buf`. -/
@[simps -fullyApplied] def Connection.onBuf (c : Connection) (buf : Memory UInt8) : Connection :=
  { c with readBuf := buf }

/-- The state with other bytes in `read_buf`. -/
@[simps -fullyApplied] def State.onBuf (s : State) (buf : Memory UInt8) : State :=
  { s with c := s.c.onBuf buf }

/-- The two buffers hold the same bytes in the range. -/
def BufRange.Agree (a : BufRange) (m m' : Memory UInt8) : Prop := ∀ i : Nat, a.Mem i → m i = m' i

theorem BufRange.Agree.load {m m' : Memory UInt8} {off n : Nat}
    (h : (⟨off, n⟩ : BufRange).Agree m m') : m.load off n = m'.load off n := by
  refine Memory.load_congr fun i h₁ h₂ => h i ?_
  simp only [BufRange.Mem]
  omega

/-- With `buf` in `read_buf` a pass does the same, and writes the same bytes over it. -/
def State.Blind (s : State) (r : SysRet) (buf : Memory UInt8) : Prop :=
  ∃ buf', pass (s.onBuf buf) r = ((pass s r).1.onBuf buf', (pass s r).2) ∧
    Memory.Alike buf s.c.readBuf buf' (pass s r).1.c.readBuf

theorem State.Blind.read (h : WindowOk s.c) (hc : s.c.connState = .connRead)
    (hsame : ∀ a ∈ s.c.moveLoads, a.Agree buf s.c.readBuf) : s.Blind r buf := by
  have hcompact : Memory.Alike buf s.c.readBuf (compact (s.c.onBuf buf)).readBuf
      (compact s.c).readBuf := by
    by_cases hmoves : s.c.moves
    · have hlen := toU64_of_window h
      rw [length_window] at hlen
      have hload := hsame ⟨s.c.workingBuf, toU64 s.c.remainingBytes⟩
        (by simp [Connection.moveLoads, hmoves])
      rw [hlen] at hload
      have hleft : (compact (s.c.onBuf buf)).readBuf =
          buf.store 0 (buf.load s.c.workingBuf s.c.remainingBytes.toNat) := if_pos hmoves
      have hright : (compact s.c).readBuf =
          s.c.readBuf.store 0 (s.c.readBuf.load s.c.workingBuf s.c.remainingBytes.toNat) :=
        if_pos hmoves
      rw [hleft, hright, hload.load]
      exact (Memory.Alike.refl _ _).store 0 _
    · have hleft : (compact (s.c.onBuf buf)).readBuf = buf := if_neg hmoves
      have hright : (compact s.c).readBuf = s.c.readBuf := if_neg hmoves
      rw [hleft, hright]
      exact .refl _ _
  simp only [State.Blind, pass, State.onBuf_c, Connection.onBuf_connState, hc, onConnRead,
    tryReadNetwork]
  split_ifs with hpos hzero hblock
  · exact ⟨_, rfl, hcompact.store _ _⟩
  · exact ⟨_, rfl, hcompact⟩
  · exact ⟨_, rfl, hcompact⟩
  · exact ⟨_, rfl, hcompact⟩

/-- `f` makes the same of the connection with `buf` in `read_buf`, and leaves it there. -/
def Connection.Unseen (f : Connection → Connection) (c : Connection) (buf : Memory UInt8) : Prop :=
  f (c.onBuf buf) = (f c).onBuf buf ∧ (f c).readBuf = c.readBuf

/-- The same for a case of the loop body. -/
def State.Unseen (f : State → State × List Event) (s : State) (buf : Memory UInt8) : Prop :=
  f (s.onBuf buf) = ((f s).1.onBuf buf, (f s).2) ∧ (f s).1.c.readBuf = s.c.readBuf

theorem State.Unseen.blind {f : State → State × List Event} (h : s.Unseen f buf)
    (hpass : ∀ b, pass (s.onBuf b) r = f (s.onBuf b)) : s.Blind r buf := by
  obtain ⟨heq, hkept⟩ := h
  have hself : pass s r = f s := hpass s.c.readBuf
  refine ⟨buf, ?_, fun i => .inr ⟨rfl, ?_⟩⟩
  · rw [hpass, hself]
    exact heq
  · rw [hself]
    exact congrFun hkept i

theorem resetCmdHandler_unseen (c : Connection) (buf : Memory UInt8) :
    c.Unseen resetCmdHandler buf := by
  rw [Connection.Unseen, resetCmdHandler, resetCmdHandler, Connection.onBuf_remainingBytes]
  split <;> exact ⟨rfl, rfl⟩

theorem onConnNewCmd_unseen : s.Unseen onConnNewCmd buf := by
  obtain ⟨heq, hkept⟩ := resetCmdHandler_unseen s.c buf
  simp only [State.Unseen, onConnNewCmd, State.onBuf_instCount, State.onBuf_c, heq]
  split
  · exact ⟨rfl, hkept⟩
  · exact ⟨rfl, rfl⟩

theorem onConnWaiting_unseen : s.Unseen onConnWaiting buf := by
  simp only [State.Unseen, onConnWaiting, State.onBuf_c, Connection.onBuf_workState]
  split
  · exact ⟨rfl, rfl⟩
  · split <;> exact ⟨rfl, rfl⟩

theorem onQueryKey_unseen : s.Unseen onQueryKey buf := by
  simp only [State.Unseen, onQueryKey, State.onBuf_c, State.onBuf_table, Connection.onBuf_key]
  generalize s.table.find s.c.key = found
  have hresult : queryResult (s.c.onBuf buf) found = (queryResult s.c found).onBuf buf := by
    cases found <;> rfl
  have hreply : ∀ c : Connection, conRetBuf (c.onBuf buf) = (conRetBuf c).onBuf buf := by
    intro c
    cases hin : c.inBatchGet with
    | true =>
        rw [conRetBuf_batch hin, conRetBuf_batch (c := c.onBuf buf) hin]
        rfl
    | false =>
        rw [conRetBuf_single hin, conRetBuf_single (c := c.onBuf buf) hin]
        rfl
  rw [hresult, hreply]
  exact ⟨rfl, by simp⟩

theorem sendBatch_unseen (c : Connection) (buf : Memory UInt8) (r : SysRet) :
    sendBatch (c.onBuf buf) r =
    ((sendBatch c r).1.onBuf buf, (sendBatch c r).2) ∧ (sendBatch c r).1.readBuf = c.readBuf := by
  simp only [sendBatch, Connection.processed_batchCount, Connection.processed_batchNum,
    Connection.onBuf_batchCount, Connection.onBuf_batchNum, Connection.processed_batchRetVector,
    Connection.onBuf_batchRetVector, Connection.onBuf_binaryHeader]
  split
  · exact ⟨rfl, rfl⟩
  · split
    · split
      · exact ⟨rfl, rfl⟩
      · split_ifs <;> exact ⟨rfl, rfl⟩
    · exact ⟨rfl, rfl⟩

theorem sendSingle_unseen (c : Connection) (buf : Memory UInt8) (r : SysRet) :
    sendSingle (c.onBuf buf) r =
    ((sendSingle c r).1.onBuf buf, (sendSingle c r).2) ∧
      (sendSingle c r).1.readBuf = c.readBuf := by
  simp only [sendSingle, Connection.wrote_retBytes, Connection.onBuf_retBytes]
  split_ifs <;> exact ⟨rfl, rfl⟩

theorem onWriteBcak_unseen : s.Unseen (onWriteBcak · r) buf := by
  simp only [State.Unseen, onWriteBcak, State.onBuf_c, Connection.onBuf_inBatchGet]
  split
  · obtain ⟨heq, hkept⟩ := sendBatch_unseen s.c buf r
    rw [heq]
    exact ⟨rfl, hkept⟩
  · obtain ⟨heq, hkept⟩ := sendSingle_unseen s.c buf r
    rw [heq]
    exact ⟨rfl, hkept⟩

theorem dispatchBinCommand_unseen (c : Connection) (buf : Memory UInt8) :
    c.Unseen dispatchBinCommand buf := by
  simp only [Connection.Unseen, dispatchBinCommand, Connection.onBuf_binaryHeader,
    Connection.onBuf_cmd]
  split_ifs <;> exact ⟨rfl, rfl⟩

theorem onParseHead_unseen (hsame : ∀ a ∈ s.c.headLoads, a.Agree buf s.c.readBuf) :
    s.Unseen onParseHead buf := by
  simp only [State.Unseen, onParseHead, State.onBuf_c, Connection.onBuf_remainingBytes]
  split
  · exact ⟨rfl, rfl⟩
  next hpos =>
    rw [Connection.headLoads, if_neg hpos] at hsame
    have hfirst : buf s.c.workingBuf = s.c.readBuf s.c.workingBuf := by
      refine hsame ⟨s.c.workingBuf, 1⟩ ?_ _ ⟨Int.le_refl _, by simp⟩
      split <;> simp
    simp only [Connection.onBuf_readBuf, Connection.onBuf_workingBuf, hfirst]
    split
    next hmagic =>
      by_cases hshort : toU64 s.c.remainingBytes < headerSize
      · simp only [tryReadHeadBinary, Connection.onBuf_remainingBytes, if_pos hshort]
        exact ⟨rfl, rfl⟩
      · rw [if_pos ⟨hmagic, hshort⟩] at hsame
        have hload := (hsame ⟨s.c.workingBuf, headerSize⟩ (by simp)).load
        have hheader : loadHeader (s.c.onBuf buf) = (loadHeader s.c).onBuf buf := by
          rw [loadHeader, Connection.onBuf_readBuf, Connection.onBuf_workingBuf, hload]
          rfl
        obtain ⟨heq, hkept⟩ := dispatchBinCommand_unseen (loadHeader s.c) buf
        simp only [tryReadHeadBinary, Connection.onBuf_remainingBytes, if_neg hshort, hheader, heq,
          Connection.onBuf_inBatchGet, Connection.onBuf_batchCount, Connection.onBuf_binaryHeader]
        by_cases hturn : (loadHeader s.c).inBatchGet = true ∧
            (loadHeader s.c).batchCount ≠ (loadHeader s.c).binaryHeader.batchnum
        · simp only [if_pos hturn]
          exact ⟨rfl, trivial⟩
        · simp only [if_neg hturn]
          exact ⟨rfl, hkept⟩
    next => exact ⟨rfl, rfl⟩

theorem tryReadKeyValue_unseen {c : Connection}
    (hsame : ∀ a ∈ c.bodyLoads, a.Agree buf c.readBuf) : tryReadKeyValue (c.onBuf buf) =
      ((tryReadKeyValue c).1, (tryReadKeyValue c).2.onBuf buf) ∧
        (tryReadKeyValue c).2.readBuf = c.readBuf := by
  unfold Connection.bodyLoads at hsame
  simp only [tryReadKeyValue, Connection.onBuf_cmd, Connection.onBuf_remainingBytes,
    Connection.onBuf_binaryHeader, Connection.onBuf_readBuf, Connection.onBuf_workingBuf]
  split
  next hset =>
    rw [if_pos hset] at hsame
    split
    · exact ⟨rfl, rfl⟩
    next hlen =>
      rw [if_neg hlen] at hsame
      have hkey := (hsame _ List.mem_cons_self).load
      have hvalue := (hsame ⟨((c.workingBuf + c.binaryHeader.keylen.toNat : Nat) : Int), _⟩
        (List.mem_cons_of_mem _ List.mem_cons_self)).load
      rw [hkey, hvalue]
      exact ⟨rfl, rfl⟩
  next hset =>
    rw [if_neg hset] at hsame
    split
    next hget =>
      rw [if_pos hget] at hsame
      split
      · exact ⟨rfl, rfl⟩
      next hlen =>
        rw [if_neg hlen] at hsame
        rw [(hsame _ List.mem_cons_self).load]
        exact ⟨rfl, rfl⟩
    next => exact ⟨rfl, rfl⟩

theorem onReadKeyValue_unseen (hsame : ∀ a ∈ s.c.bodyLoads, a.Agree buf s.c.readBuf) :
    s.Unseen onReadKeyValue buf := by
  obtain ⟨heq, hkept⟩ := tryReadKeyValue_unseen hsame
  simp only [State.Unseen, onReadKeyValue, State.onBuf_c, heq]
  split
  · exact ⟨rfl, hkept⟩
  · split <;> exact ⟨rfl, hkept⟩

/-- **`loads` is all a pass reads** of `read_buf`. -/
theorem ControlOk.blind (h : ControlOk s) (hsame : ∀ a ∈ s.loads, a.Agree buf s.c.readBuf) :
    s.Blind r buf := by
  cases hc : s.c.connState with
  | connRead => exact State.Blind.read h.window hc (by simpa [State.loads, hc] using hsame)
  | connDealWith =>
      cases hw : s.c.workState with
      | parseHead =>
          refine (onParseHead_unseen (by simpa [State.loads, hc, hw] using hsame)).blind fun b => ?_
          simp [pass, hc, onConnDealWith, hw]
      | readKeyValue =>
          refine (onReadKeyValue_unseen (by simpa [State.loads, hc, hw] using hsame)).blind
            fun b => ?_
          simp [pass, hc, onConnDealWith, hw]
      | storeKvobj =>
          have hstore : s.Unseen onStoreKvobj buf := ⟨rfl, rfl⟩
          exact hstore.blind fun b => by simp [pass, hc, onConnDealWith, hw]
      | queryKey => exact onQueryKey_unseen.blind fun b => by simp [pass, hc, onConnDealWith, hw]
      | writeBcak =>
          refine (onWriteBcak_unseen (r := r)).blind fun b => ?_
          simp [pass, hc, onConnDealWith, hw]
  | connNewCmd => exact onConnNewCmd_unseen.blind fun b => by simp [pass, hc]
  | connWaiting => exact onConnWaiting_unseen.blind fun b => by simp [pass, hc]
  | connClosing =>
      have hclose : s.Unseen onConnClosing buf := ⟨rfl, rfl⟩
      exact hclose.blind fun b => by simp [pass, hc]
  | _ =>
      have hnone : s.Unseen (fun s => (s, [])) buf := ⟨rfl, rfl⟩
      exact hnone.blind fun b => by simp [pass, hc]

/-! ### The receive window -/

/-- The receive window of a connection that has been sent `stream`. -/
structure WindowHolds (stream : Bytes) (tr : List Event) (t : State) : Prop where
  nonneg : 0 ≤ t.c.remainingBytes
  fits : t.c.workingBuf + t.c.remainingBytes ≤ t.c.readBufSize
  /-- What has been received is a beginning of the stream. -/
  delivered : received tr <+: stream
  /-- The unread bytes are those between what has been consumed and what has been received. -/
  window : t.c.window = (stream.take (received tr).length).drop (consumed tr t)
  counted : t.c.remainingBytes = (received tr).length - consumed tr t
  /-- The next pass reads only unread bytes. -/
  loads : ∀ a ∈ t.loads, a.InWindow t.c
  /-- No other byte makes a difference to it. -/
  unread : ∀ r buf, (∀ a ∈ t.loads, a.Agree buf t.c.readBuf) → t.Blind r buf
  /-- It writes only within `read_buf`. -/
  stores : ∀ a ∈ t.stores, a.Within 0 t.c.readBufSize
  untouched : ∀ r (i : Nat), t.returns r → t.c.readBufSize ≤ i →
    (pass t r).1.c.readBuf i = t.c.readBuf i

/-- **The receive window**, in every reachable state, for every stream and whatever `read`
returns. -/
theorem window_run (h : Init stream s) (hr : Run (Step Env.any) s tr t) :
    WindowHolds stream tr t := by
  have hctl := (h.ok.run hr).control
  obtain ⟨hdelivered, done, hdone, hreceived⟩ := h.tracks_run hr
  have hprefix : received tr <+: stream := ⟨t.inbox, hdelivered⟩
  have hlen := congrArg List.length hreceived
  have hnonneg := hctl.window.nonneg
  rw [List.length_append, length_window, hdone] at hlen
  refine ⟨hnonneg, hctl.window.size ▸ hctl.window.fits, hprefix, ?_, by omega,
    hctl.loads_inWindow, fun _ _ => hctl.blind, hctl.stores_within,
    fun r i hret hi => hctl.untouched hret ?_⟩
  · rw [← List.prefix_iff_eq_take.mp hprefix, hreceived, ← hdone, List.drop_left]
  · intro a ha hmem
    have hend := (hctl.stores_within a ha).2
    have hlt := hmem.2
    omega

/-- A GET of which five bytes have been received. -/
def fiveBytes : State × List Event :=
  (State.accepted (Packet.smallGet 107 0).bytes .empty).play Env.any [.call, .ret 5]

theorem window_run_fiveBytes :
    fiveBytes.1.c.window = [128, 1, 0, 1, 0] ∧
      WindowHolds (Packet.smallGet 107 0).bytes fiveBytes.2 fiveBytes.1 :=
  ⟨by decide +kernel, window_run (State.init_accepted _) (State.play_run _ _)⟩

/-! ### The states of the parser -/

/-- The two state variables, and the request at hand. -/
structure ParserState (s : State) : Prop where
  /-- The outer `switch` has a case for the state. -/
  conn : s.c.connState ∈ [.connRead, .connNewCmd, .connDealWith, .connWaiting, .connClosing]
  /-- A body is only waited for if it has a length that makes sense. -/
  body : s.c.workState = .readKeyValue →
    s.c.cmd = cmdSet ∧ 1 ≤ s.c.binaryHeader.keylen.toNat ∧
        s.c.binaryHeader.keylen.toNat + 8 ≤ s.c.binaryHeader.totalbodylen.toNat ∨
      s.c.cmd = cmdGet ∧ 1 ≤ s.c.binaryHeader.keylen.toNat ∧
        s.c.binaryHeader.keylen.toNat = s.c.binaryHeader.totalbodylen.toNat
  /-- The unsigned difference that is the length of the value does not wrap. -/
  value : s.c.workState = .readKeyValue →
    (s.c.binaryHeader.totalbodylen - s.c.binaryHeader.keylen.toUInt32).toNat +
      s.c.binaryHeader.keylen.toNat = s.c.binaryHeader.totalbodylen.toNat
  waiting : s.c.connState = .connWaiting →
    s.c.workState ∈ [.parseHead, .readKeyValue, .writeBcak]
  /-- There is no `binary instruction error`. -/
  instruction : s.c.workState = .readKeyValue → (tryReadKeyValue s.c).1 ≠ -1
  /-- There is no `work state error`. -/
  work : s.c.connState = .connWaiting → (onConnWaiting s).1.c.connState ≠ .connClosing

theorem ControlOk.parserState (h : ControlOk s) : ParserState s := by
  have hctl := h.control
  have hwaiting : s.c.connState = .connWaiting →
      s.c.workState ∈ [.parseHead, .readKeyValue, .writeBcak] := by
    intro hc
    rw [State.ControlAt, hc] at hctl
    rcases hctl.2 with (⟨hw, -⟩ | ⟨hw, -⟩) | ⟨hw, -⟩ <;> simp [hw]
  have hbody : s.c.workState = .readKeyValue →
      s.c.cmd = cmdSet ∧ 1 ≤ s.c.binaryHeader.keylen.toNat ∧
          s.c.binaryHeader.keylen.toNat + 8 ≤ s.c.binaryHeader.totalbodylen.toNat ∨
        s.c.cmd = cmdGet ∧ 1 ≤ s.c.binaryHeader.keylen.toNat ∧
          s.c.binaryHeader.keylen.toNat = s.c.binaryHeader.totalbodylen.toNat := by
    intro hw
    obtain ⟨hcmd, hv⟩ := h.body hw
    obtain ⟨hpos, ⟨hop, hle⟩ | ⟨hop, heq⟩⟩ := Request.verdict_body hv
    · exact .inl ⟨hcmd.trans hop, hpos, hle⟩
    · exact .inr ⟨hcmd.trans hop, hpos, heq.symm⟩
  refine ⟨?_, hbody, fun hw => ?_, hwaiting, fun hw => ?_, fun hc => ?_⟩
  · unfold State.ControlAt at hctl
    cases hc : s.c.connState with
    | connRead | connNewCmd | connDealWith | connWaiting | connClosing => simp
    | _ => simp only [hc] at hctl
  · rw [h.sub_keylen hw]
    rcases hbody hw with ⟨-, -, hle⟩ | ⟨-, -, heq⟩ <;> omega
  · unfold tryReadKeyValue
    rcases hbody hw with ⟨hcmd, -⟩ | ⟨hcmd, -⟩
    · rw [if_pos hcmd]
      dsimp only
      split <;> simp
    · rw [if_neg (by rw [hcmd]; decide), if_pos hcmd]
      dsimp only
      split <;> simp
  · have hw := hwaiting hc
    simp only [List.mem_cons, List.not_mem_nil, or_false] at hw
    rcases hw with hw | hw | hw <;> simp [onConnWaiting, hw]

/-- **The parser's states**, in every reachable state and for every stream, well-formed or
not. -/
theorem parser_state_run (h : Init stream s) (hr : Run (Step Env.any) s tr t) : ParserState t :=
  (h.ok.run hr).control.parserState

/-- A GET whose header has been parsed. -/
def headerParsed : State × List Event :=
  (State.accepted (Packet.smallGet 107 0).bytes .empty).play Env.any [.call, .ret 12, .ret 0]

theorem parser_state_run_headerParsed :
    headerParsed.1.c.workState = .readKeyValue ∧ ParserState headerParsed.1 :=
  ⟨by decide +kernel, parser_state_run (State.init_accepted _) (State.play_run (E := Env.any) _ _)⟩

end MultiportNetwork
