import MultiportNetwork.Server.Cases

/-!
# MultiportNetwork.Server.Inv

What holds in every reachable state of a connection, whatever its client sends,
however the socket cuts and delays it and whatever other connections do to the
table: the control invariant `ControlOk` of `MultiportNetwork.Server.Cases`, the
sizes of what is stored (`DataOk`) and the shape of a batch (`BatchOk`).

`BatchOk` allows for what a client can do to a batch: open one that wants no
answers, or open another one inside it.
-/

namespace MultiportNetwork

variable {E : Env} {s s' : State} {r : SysRet} {ev tr : List Event} {stream : Bytes}

/-! ### Control -/

theorem WindowOk.congr {c c' : Connection} (h : WindowOk c)
    (hsize : c'.readBufSize = c.readBufSize := by simp)
    (hrem : c'.remainingBytes = c.remainingBytes := by simp)
    (hbuf : c'.workingBuf = c.workingBuf := by simp) : WindowOk c' :=
  ⟨hsize ▸ h.size, hrem ▸ h.nonneg, by rw [hrem, hbuf]; exact h.fits⟩

theorem Init.control (h : Init stream s) : ControlOk s := by
  obtain ⟨sfd, threadIndex, readBuf, retBuf, hc⟩ := h.conn
  constructor
  · constructor <;> simp [hc, connNew]
  · have hw : s.c.window = [] := by simp [hc, connNew, Connection.window]
    simp [State.ControlAt, hc, connNew, Connection.Starved, Connection.window, headerSize]
  · simp [hc, connNew]
  · simp [hc, connNew]
  · simp [hc, connNew]

theorem ControlOk.empty (h : ControlOk s) (hin : s.c.inBatchGet = false) :
    s.c.batchRetVector = [] := by
  by_contra hne
  simp [h.buffers.mpr hne] at hin

/-- Inside a call the event is registered. -/
theorem ControlOk.registered (h : ControlOk s) (hrun : s.stop = false) :
    s.c.eventAdded = true := by
  by_contra hne
  have := (h.event (Bool.eq_false_iff.mpr hne)).1
  simp [hrun] at this

/-- A step that changes neither the request at hand nor the batch. -/
theorem ControlOk.stay (h : ControlOk s) (hadded : s.c.eventAdded = true) (hwin : WindowOk s'.c)
    (hctl : s'.ControlAt) (hwork : s'.c.workState = s.c.workState := by simp)
    (hheader : s'.c.binaryHeader = s.c.binaryHeader := by simp)
    (hcmd : s'.c.cmd = s.c.cmd := by simp)
    (hin : s'.c.inBatchGet = s.c.inBatchGet := by simp)
    (hvec : s'.c.batchRetVector = s.c.batchRetVector := by simp)
    (hevent : s'.c.eventAdded = s.c.eventAdded := by simp) : ControlOk s' where
  window := hwin
  control := hctl
  body := by rw [hwork, hheader, hcmd]; exact h.body
  buffers := by rw [hin, hvec]; exact h.buffers
  event := by simp [hevent, hadded]

/-- A step after which no body is waited for. -/
theorem ControlOk.next (h : ControlOk s) (hadded : s.c.eventAdded = true) (hwin : WindowOk s'.c)
    (hctl : s'.ControlAt) (hwork : s'.c.workState ≠ .readKeyValue)
    (hin : s'.c.inBatchGet = s.c.inBatchGet := by simp)
    (hvec : s'.c.batchRetVector = s.c.batchRetVector := by simp)
    (hevent : s'.c.eventAdded = s.c.eventAdded := by simp) : ControlOk s' where
  window := hwin
  control := hctl
  body := fun hw => absurd hw hwork
  buffers := by rw [hin, hvec]; exact h.buffers
  event := by simp [hevent, hadded]

/-- **A pass keeps the control invariant.** -/
theorem pass_control (h : ControlOk s) (hrun : s.stop = false) (hp : Pass s r s' ev) :
    ControlOk s' := by
  have hadded := h.registered hrun
  have hwin := h.window
  cases hp with
  | readData hc hw hpos havail hinbox =>
      have hrecv : WindowOk ((compact s.c).receive (s.inbox.take r.ret.toNat) r.ret) :=
        hwin.compact.receive rfl hpos.le havail
      exact h.stay hadded hrecv.congr (by simp [State.ControlAt, hrun])
  | readEof hc hw hr =>
      exact h.stay hadded hwin.compact.congr (by simp [State.ControlAt, hrun])
  | readNone hc hw hr =>
      have hw' : ((compact s.c).connStateJump .connWaiting).Starved := by
        simpa [Connection.Starved] using hw
      exact h.stay hadded hwin.compact.congr (by simp [State.ControlAt, hrun, hw'])
  | newCmdMore hc hw hn hne =>
      exact h.stay hadded hwin.congr (by simp [State.ControlAt, hrun])
  | newCmdIdle hc hw hn hnil =>
      have hw' : (s.c.connStateJump .connWaiting).Starved := by
        simp [Connection.Starved, hw, hnil, headerSize]
      exact h.stay hadded hwin.congr (by simp [State.ControlAt, hrun, hw'])
  | newCmdStop hc hw hn => exact h.stay hadded hwin (by simp [State.ControlAt, hc, hw])
  | headNone hc hw hnil =>
      have hw' : (s.c.connStateJump .connWaiting).Starved := by
        simp [Connection.Starved, hw, hnil, headerSize]
      exact h.stay hadded hwin.congr (by simp [State.ControlAt, hrun, hw'])
  | headShort hc hw hmagic hlen =>
      have hw' : (s.c.connStateJump .connWaiting).Starved :=
        .inl ⟨hw, hlen, fun x hx => by simpa [hmagic] using hx.symm⟩
      exact h.stay hadded hwin.congr (by simp [State.ControlAt, hrun, hw'])
  | headMagic hc hw hhead hx =>
      exact h.stay hadded hwin (by simp [State.ControlAt, hc, hrun])
  | headTurn hc hw hmagic hlen hin hne =>
      exact h.stay hadded hwin (by simp [State.ControlAt, hc, hrun])
  | headClosed ha hv =>
      have hw' : WindowOk ((loadHeader s.c).connStateJump .connClosing) := hwin.congr
      exact h.next hadded (hw'.advance (by simpa using ha.length))
        (by simp [State.ControlAt, hrun]) (by simp [ha.work])
  | headRefused ha hv =>
      have hw' : WindowOk (loadHeader s.c) := hwin.congr
      exact h.next hadded (hw'.advance (by simpa using ha.length))
        (by simp [State.ControlAt, ha.conn, hrun]) (by simp [ha.work])
  | headBatch ha hv =>
      have hw' : WindowOk (openBatch (loadHeader s.c)) := hwin.congr
      refine ⟨hw'.advance (by simpa using ha.length), ?_, ?_, ?_, ?_⟩
      · simp [State.ControlAt, ha.conn, hrun]
      · simp
      · simp
      · simp [hadded]
  | headBody ha hv =>
      have hw' : WindowOk ((loadHeader s.c).workStateJump .readKeyValue) := hwin.congr
      refine ⟨hw'.advance (by simpa using ha.length), ?_, ?_, ?_, ?_⟩
      · simp [State.ControlAt, ha.conn, hrun]
      · intro _
        exact ⟨loadHeader_cmd_eq, (loadHeader_request ha.length) ▸ hv⟩
      · simpa using h.buffers
      · simp [hadded]
  | bodyShort hc hw hlen =>
      have hw' : (s.c.connStateJump .connWaiting).Starved := .inr ⟨hw, hlen⟩
      exact h.stay hadded hwin.congr (by simp [State.ControlAt, hrun, hw'])
  | bodySet hb hop =>
      have hw' : WindowOk (s.c.setRead (s.c.window.take s.c.binaryHeader.keylen.toNat)
          ((s.c.window.drop s.c.binaryHeader.keylen.toNat).take
            (s.c.binaryHeader.totalbodylen.toNat - s.c.binaryHeader.keylen.toNat))) := hwin.congr
      exact h.next hadded (hw'.advance (by simpa using hb.length))
        (by simp [State.ControlAt, hb.conn, hrun]) (by simp)
  | bodyGet hb hop =>
      have hw' : WindowOk (s.c.getRead (s.c.window.take s.c.binaryHeader.keylen.toNat)) :=
        hwin.congr
      have hle := Nat.le_trans (Request.keylen_le_of_body hb.verdict).2 hb.length
      exact h.next hadded (hw'.advance (by simpa using hle))
        (by simp [State.ControlAt, hb.conn, hrun]) (by simp)
  | store hc hw => exact h.next hadded hwin.congr (by simp [State.ControlAt]) (by simp)
  | query hc hw =>
      refine ⟨hwin.congr, ?_, by simp, ?_, by simp [hadded]⟩
      · simp [State.ControlAt, hc, hrun]
      · cases hin : s.c.inBatchGet with
        | true =>
            rw [conRetBuf_batch (by simpa using hin)]
            simp [hin]
        | false =>
            rw [conRetBuf_single (by simpa using hin)]
            simpa [hin] using h.buffers
  | batchMore hc hw hin hlt =>
      exact h.next hadded hwin.congr (by simp [State.ControlAt]) (by simp)
  | batchSpin hc hw hin hgt =>
      exact h.stay hadded hwin.congr (by simp [State.ControlAt, hc, hrun])
  | batchBlocked ha hr hb =>
      exact h.stay hadded hwin.congr
        (by simp [State.ControlAt, hrun, Connection.Unsent, ha.work, ha.count])
  | batchFailed ha hr hb =>
      exact h.stay hadded hwin.congr (by simp [State.ControlAt, hrun])
  | batchDone ha hpos hall =>
      exact ⟨hwin.congr, by simp [State.ControlAt], by simp, by simp, by simp [hadded]⟩
  | batchNext ha hrest hpos hall =>
      refine ⟨hwin.congr, ?_, by simp [ha.work], ?_, by simp [hadded]⟩
      · simp [State.ControlAt, hrun, Connection.Unsent, ha.work, ha.count]
      · simp [ha.inBatch, hrest]
  | batchPart ha hpos hpart =>
      refine ⟨hwin.congr, ?_, by simp [ha.work], ?_, by simp [hadded]⟩
      · simp [State.ControlAt, hrun, Connection.Unsent, ha.work, ha.count]
      · simp [ha.inBatch]
  | singleBlocked ha hr hb =>
      exact h.stay hadded hwin.congr
        (by simp [State.ControlAt, hrun, Connection.Unsent, ha.work, ha.inBatch])
  | singleFailed ha hr hb =>
      exact h.stay hadded hwin.congr (by simp [State.ControlAt, hrun])
  | singleDone ha hpos hall =>
      exact h.next hadded hwin.congr (by simp [State.ControlAt]) (by simp)
  | singlePart ha hpos hpart =>
      exact h.stay hadded hwin.congr
        (by simp [State.ControlAt, hrun, Connection.Unsent, ha.work, ha.inBatch])
  | waitWrite hc hw =>
      exact h.stay hadded hwin.congr (by simpa [State.ControlAt, Connection.Unsent] using hw)
  | waitRead hc hw =>
      exact h.stay hadded hwin.congr (by simpa [State.ControlAt, Connection.Starved] using hw)
  | closing hc =>
      exact ⟨hwin.congr, by simp [State.ControlAt, hc], by simpa using h.body,
        by simpa using h.buffers, by simp [hc]⟩

/-! ### Sizes -/

/-- Whatever has been copied out of the receive buffer fits into it. -/
structure DataOk (s : State) : Prop where
  key : s.c.key.length ≤ initReadBufSize
  value : s.c.value.length ≤ initReadBufSize
  table : s.table.Bounded

theorem Init.data (h : Init stream s) : DataOk s := by
  obtain ⟨sfd, threadIndex, readBuf, retBuf, hc⟩ := h.conn
  exact ⟨by simp [hc, connNew], by simp [hc, connNew], h.table⟩

theorem HashTable.Bounded.insertOrAssign {t : HashTable} (h : t.Bounded) {k v : Bytes}
    (hv : v.length ≤ initReadBufSize) : (t.insertOrAssign k v).Bounded := by
  intro k' v' hk'
  simp only [HashTable.insertOrAssign] at hk'
  split at hk'
  · cases hk'
    exact hv
  · exact h k' v' hk'

/-- What a lookup leaves in `value` is no longer than a receive buffer. -/
theorem DataOk.found (h : DataOk s) :
    ((s.table.find s.c.key).getD s.c.value).length ≤ initReadBufSize := by
  cases hf : s.table.find s.c.key with
  | none => simpa using h.value
  | some v => simpa using h.table _ _ hf

theorem pass_data (hw : WindowOk s.c) (h : DataOk s) (hp : Pass s r s' ev) : DataOk s' := by
  have hlen := hw.length_le
  cases hp with
  | bodySet hb hop =>
      refine ⟨?_, ?_, h.table⟩
      · simp only [Connection.advance, Connection.setRead, List.length_take]
        omega
      · simp only [Connection.advance, Connection.setRead, List.length_take, List.length_drop]
        omega
  | bodyGet hb hop =>
      refine ⟨?_, h.value, h.table⟩
      simp only [Connection.advance, Connection.getRead, List.length_take]
      omega
  | store hc hw => exact ⟨h.key, h.value, h.table.insertOrAssign h.value⟩
  | query hc hw => exact ⟨by simpa using h.key, by simpa using h.found, h.table⟩
  | _ => exact ⟨by simpa using h.key, by simpa using h.value, h.table⟩

/-! ### Batches -/

/-- The buffers an answer has gone into: every one but the last, and the last one
too as soon as the batch has an answer. -/
def Connection.answered (c : Connection) : List Batchbuf :=
  if c.batchCount = 0 then c.batchRetVector.dropLast else c.batchRetVector

/-- The fields of a batch, in order between two commands and while its answers
are on their way. -/
structure BatchOk (c : Connection) : Prop where
  idle : c.inBatchGet = false → c.batchNum = 0 ∧ c.batchCount = 0
  /-- Another answer is wanted, or the batch wanted none. -/
  counting : c.inBatchGet = true → c.workState ≠ .writeBcak →
    c.batchCount < c.batchNum ∨ c.batchNum = 0 ∧ c.batchCount = 0
  counted : c.inBatchGet = true → c.workState = .writeBcak → c.batchCount ≠ 0
  /-- No byte is sent before the batch is complete. -/
  unsent : ¬ c.Unsent → ∀ b ∈ c.batchRetVector, b.offset = 0
  answered : c.batchNum ≠ 0 → ∀ b ∈ c.answered, 0 < b.left
  single : c.workState = .writeBcak → c.inBatchGet = false → 0 < c.retBytes

theorem Init.batch (h : Init stream s) : BatchOk s.c := by
  obtain ⟨sfd, threadIndex, readBuf, retBuf, hc⟩ := h.conn
  constructor <;> simp [hc, connNew]

/-- Only these fields matter, and of the work state only whether it is
`write_bcak`. -/
theorem BatchOk.congr {c c' : Connection} (h : BatchOk c)
    (hwork : c'.workState = .writeBcak ↔ c.workState = .writeBcak := by simp)
    (hin : c'.inBatchGet = c.inBatchGet := by simp) (hnum : c'.batchNum = c.batchNum := by simp)
    (hcount : c'.batchCount = c.batchCount := by simp)
    (hvec : c'.batchRetVector = c.batchRetVector := by simp)
    (hret : c'.retBytes = c.retBytes := by simp) : BatchOk c' := by
  have hunsent : c'.Unsent ↔ c.Unsent := by
    simp only [Connection.Unsent, hwork, hin, hnum, hcount]
  have hanswered : c'.answered = c.answered := by
    simp only [Connection.answered, hcount, hvec]
  refine ⟨?_, ?_, ?_, ?_, ?_, ?_⟩
  · simpa only [hin, hnum, hcount] using h.idle
  · simpa only [hin, hnum, hcount, ne_eq, hwork] using h.counting
  · simpa only [hin, hcount, hwork] using h.counted
  · simpa only [hunsent, hvec] using h.unsent
  · simpa only [hnum, hanswered] using h.answered
  · simpa only [hin, hret, hwork] using h.single

/-- Outside a batch there is nothing to say but that a response has bytes. -/
theorem BatchOk.ofIdle {c : Connection} (hin : c.inBatchGet = false)
    (hidle : c.batchNum = 0 ∧ c.batchCount = 0) (hvec : c.batchRetVector = [])
    (hsingle : c.workState = .writeBcak → 0 < c.retBytes) : BatchOk c := by
  refine ⟨fun _ => hidle, ?_, ?_, ?_, ?_, fun hw _ => hsingle hw⟩
  · simp [hin]
  · simp [hin]
  · simp [hvec]
  · simp [hidle.1]

/-- The buffers behind which `con_ret_buf` appends all have something to send: a
buffer is only left behind when it is nearly full. -/
theorem BatchOk.openBuf_left {c : Connection} (h : BatchOk c) (hw : c.workState ≠ .writeBcak)
    (hnum : c.batchNum ≠ 0) (hkey : c.key.length ≤ initReadBufSize)
    (hvalue : c.value.length ≤ initReadBufSize) :
    ∀ b ∈ c.openBuf.dropLast, 0 < b.left := by
  have hans : ∀ b ∈ c.batchRetVector.dropLast, 0 < b.left := by
    intro b hb
    refine h.answered hnum b ?_
    unfold Connection.answered
    split
    · exact hb
    · exact List.mem_of_mem_take (List.dropLast_eq_take ▸ hb)
  intro b hb
  unfold Connection.openBuf at hb
  split at hb
  next hnew =>
    rw [List.dropLast_concat] at hb
    rcases List.eq_nil_or_concat c.batchRetVector with hnil | ⟨init, last, heq⟩
    · simp [hnil] at hb
    rw [List.concat_eq_append] at heq
    rw [heq, List.mem_append, List.mem_singleton] at hb
    rcases hb with hb | rfl
    · exact hans b (by rwa [heq, List.dropLast_concat])
    · have hoff := h.unsent (fun hun => hw hun.1) b (by simp [heq])
      have hback : c.back = b := by simp [Connection.back, heq]
      simp only [Connection.needNewBuf, hback, decide_eq_true_eq, batchBufSize] at hnew
      simp only [initReadBufSize] at hkey hvalue
      simp only [headerSize] at hnew
      simp only [Batchbuf.left, hoff]
      omega
  next => exact hans b hb

theorem BatchOk.openBuf_offset {c : Connection} (h : BatchOk c) (hw : c.workState ≠ .writeBcak) :
    ∀ b ∈ c.openBuf, b.offset = 0 := by
  have hvec := h.unsent (fun hun => hw hun.1)
  intro b hb
  unfold Connection.openBuf at hb
  split at hb
  · rw [List.mem_append, List.mem_singleton] at hb
    rcases hb with hb | rfl
    · exact hvec b hb
    · rfl
  · exact hvec b hb

/-- One more answer in a batch. -/
theorem BatchOk.reply {c : Connection} (h : BatchOk c) (hw : c.workState ≠ .writeBcak)
    (hkey : c.key.length ≤ initReadBufSize) (hvalue : c.value.length ≤ initReadBufSize) :
    BatchOk (conRetBuf c) := by
  cases hin : c.inBatchGet with
  | false =>
      have hempty := h.idle hin
      have hun := h.unsent (fun hun => hw hun.1)
      rw [conRetBuf_single hin]
      refine ⟨fun _ => hempty, ?_, ?_, fun _ => hun, fun hne => absurd hempty.1 hne, fun _ _ => ?_⟩
      · simp [hin]
      · simp [hin]
      · simp [headerSize]
  | true =>
      have hcount : c.batchCount + 1 ≠ 0 := by
        rcases h.counting hin hw with hlt | ⟨-, hzero⟩
        · rw [UInt16.lt_iff_toNat_lt] at hlt
          have := c.batchNum.toNat_lt
          intro heq
          have := congrArg UInt16.toNat heq
          simp only [UInt16.toNat_add, UInt16.reduceToNat] at this
          omega
        · rw [hzero]
          decide
      have hoff := h.openBuf_offset hw
      have hlast : (c.openBuf.getLastD .fresh).offset = 0 := by
        rcases List.eq_nil_or_concat c.openBuf with hnil | ⟨init, last, heq⟩
        · simp [hnil, Batchbuf.fresh]
        · rw [heq, List.concat_eq_append, List.getLastD_concat]
          exact hoff last (by simp [heq])
      rw [conRetBuf_batch hin]
      refine ⟨?_, ?_, fun _ _ => hcount, fun _ => ?_, fun hnum => ?_, ?_⟩
      · simp [hin]
      · simp
      · intro b hb
        rw [List.mem_append, List.mem_singleton] at hb
        rcases hb with hb | rfl
        · exact hoff b (List.mem_of_mem_take (List.dropLast_eq_take ▸ hb))
        · exact hlast
      · simp only [Connection.answered, if_neg hcount]
        intro b hb
        rw [List.mem_append, List.mem_singleton] at hb
        rcases hb with hb | rfl
        · exact h.openBuf_left hw hnum hkey hvalue b hb
        · simp only [Batchbuf.left, Batchbuf.append, hlast, headerSize]
          omega
      · simp [hin]

/-- A complete batch has something to send in every buffer. -/
theorem BatchOk.left_pos (h : BatchOk s.c) {it : Batchbuf} {rest : List Batchbuf}
    (ha : s.AtSend it rest) : ∀ b ∈ it :: rest, 0 < b.left := by
  have hcount := h.counted ha.inBatch ha.work
  intro b hb
  refine h.answered (ha.count ▸ hcount) b ?_
  simpa [Connection.answered, hcount, ha.buffers] using hb

/-- Some bytes of a complete batch have been sent, and there are more. -/
theorem BatchOk.sending (h : BatchOk s.c) {it : Batchbuf} {rest : List Batchbuf}
    (ha : s.AtSend it rest) {c' : Connection} (hleft : ∀ b ∈ c'.batchRetVector, 0 < b.left)
    (hwork : c'.workState = s.c.workState := by simp)
    (hin : c'.inBatchGet = s.c.inBatchGet := by simp)
    (hnum : c'.batchNum = s.c.batchNum := by simp)
    (hcount : c'.batchCount = s.c.batchCount := by simp) : BatchOk c' := by
  have hunsent : c'.Unsent := ⟨hwork.trans ha.work, fun _ => by rw [hcount, hnum, ha.count]⟩
  refine ⟨?_, ?_, ?_, fun hun => absurd hunsent hun, fun _ b hb => hleft b ?_, ?_⟩
  · simp [hin, ha.inBatch]
  · simp [hwork, ha.work]
  · simpa [hin, hwork, hcount] using h.counted
  · unfold Connection.answered at hb
    split at hb
    · exact List.mem_of_mem_take (List.dropLast_eq_take ▸ hb)
    · exact hb
  · simp [hin, ha.inBatch]

/-- **A pass keeps the batch in order.** -/
theorem pass_batch (hc : ControlOk s) (hd : DataOk s) (h : BatchOk s.c) (hp : Pass s r s' ev) :
    BatchOk s'.c := by
  cases hp with
  | headBatch ha hv =>
      refine ⟨by simp, ?_, by simp, fun _ b hb => ?_, fun hnum b hb => ?_, by simp⟩
      · intro _ _
        rw [or_iff_not_imp_right]
        intro hne
        have : (loadHeader s.c).binaryHeader.batchnum ≠ 0 := fun h0 => hne (by simpa using h0)
        simpa [UInt16.pos_iff_ne_zero] using this
      · simp only [Connection.advance, openBatch, loadHeader, List.mem_append,
          List.mem_singleton] at hb
        rcases hb with hb | rfl
        · exact h.unsent (fun hun => by simpa [ha.work] using hun.1) b hb
        · rfl
      · have hb' : b ∈ s.c.batchRetVector := by
          simpa [Connection.answered, Connection.advance, openBatch] using hb
        cases hin : s.c.inBatchGet with
        | false => simp [hc.empty hin] at hb'
        | true =>
            -- a batch that wants answers is only opened inside one that has as many
            have hcount : s.c.batchCount ≠ 0 := by
              rw [ha.turn hin, ← loadHeader_batchnum ha.length]
              simpa using hnum
            have hold : s.c.batchNum ≠ 0 := by
              rcases h.counting hin (by simp [ha.work]) with hlt | ⟨-, hzero⟩
              · exact fun h0 => by simp [h0] at hlt
              · exact absurd hzero hcount
            exact h.answered hold b (by simpa [Connection.answered, hcount] using hb')
  | headBody ha hv => exact h.congr (by simp [ha.work])
  | bodySet hb | bodyGet hb => exact h.congr (by simp [hb.work])
  | store hc hw => exact h.congr (by simp [hw])
  | query hc hw =>
      have hq : BatchOk (queryResult s.c (s.table.find s.c.key)) :=
        h.congr
      exact hq.reply (by simp [hw]) (by simpa using hd.key) (by simpa using hd.found)
  | batchMore hc hw hin hlt =>
      have hoff := h.unsent (fun hun => by simp [hun.2 hin] at hlt)
      exact ⟨by simp [hin], fun _ _ => .inl hlt, by simp, fun _ => hoff,
        h.answered, by simp⟩
  | batchDone ha hpos hall =>
      exact .ofIdle rfl ⟨rfl, rfl⟩ rfl (by simp)
  | batchNext ha hrest hpos hall =>
      have hleft := h.left_pos ha
      exact h.sending ha (fun b hb => hleft b (List.mem_cons_of_mem _ (by simpa using hb)))
  | @batchPart it rest ha hpos hpart =>
      have hleft := h.left_pos ha
      refine h.sending ha (fun b hb => ?_)
      have hb' : b ∈ it.skip r.ret.toNat :: rest := by simpa using hb
      rcases List.mem_cons.mp hb' with rfl | hb'
      · simp only [Batchbuf.left, Batchbuf.skip] at hpart ⊢
        omega
      · exact hleft b (List.mem_cons_of_mem _ hb')
  | singleDone ha hpos hall =>
      exact .ofIdle (by simpa using ha.inBatch) (by simpa using h.idle ha.inBatch)
        (by simpa using hc.empty ha.inBatch) (by simp)
  | singlePart ha hpos hpart =>
      refine .ofIdle (by simpa using ha.inBatch) (by simpa using h.idle ha.inBatch)
        (by simpa using hc.empty ha.inBatch) (fun _ => ?_)
      simp only [Connection.connStateJump, Connection.skipSingle, Connection.wrote]
      omega
  | newCmdStop | headMagic | headTurn => exact h
  | _ => exact h.congr

/-! ### Every reachable state -/

/-- The invariant of a connection. -/
structure StateOk (s : State) : Prop where
  control : ControlOk s
  data : DataOk s
  batch : BatchOk s.c

theorem Init.ok (h : Init stream s) : StateOk s := ⟨h.control, h.data, h.batch⟩

theorem StateOk.ofPass (h : StateOk s) (hrun : s.stop = false) (hp : Pass s r s' ev) : StateOk s' :=
  ⟨pass_control h.control hrun hp, pass_data h.control.window h.data hp,
    pass_batch h.control h.data h.batch hp⟩

theorem StateOk.ofOthers (h : StateOk s) {t : HashTable} (ht : t.Bounded) :
    StateOk { s with table := t } :=
  ⟨⟨h.control.window, h.control.control, h.control.body, h.control.buffers, h.control.event⟩,
    ⟨h.data.key, h.data.value, ht⟩, h.batch⟩

/-- Between two calls of a registered event there is something to wait for. -/
theorem StateOk.ofEnter (h : StateOk s) (hstop : s.stop = true) (hevent : s.c.eventAdded = true) :
    StateOk (enter s) := by
  refine ⟨⟨h.control.window, ?_, h.control.body, h.control.buffers, ?_⟩,
    ⟨h.data.key, h.data.value, h.data.table⟩, h.batch⟩
  · have hctl := h.control.control
    unfold State.ControlAt at hctl ⊢
    cases hc : s.c.connState with
    | connRead => simpa [enter, hc] using hctl
    | connNewCmd => simpa [enter, hc] using hctl
    | connDealWith => simp [enter, hc]
    | connClosing => simp [hc, hstop, hevent] at hctl
    | connWaiting => simp [hc, hstop] at hctl
    | _ => simp [hc] at hctl
  · simp [enter, hevent]

/-- **One step keeps the invariant.** -/
theorem StateOk.step (h : StateOk s) (hs : Step E s ev s') : StateOk s' := by
  cases hs with
  | call hstop halive hevent => exact h.ofEnter hstop hevent
  | pass hrun halive hans => exact h.ofPass hrun (pass_cases h.control (E.returns hans))
  | others halive ht => exact h.ofOthers ht

/-- **Every reachable state meets the invariant.** -/
theorem StateOk.run (h : StateOk s) (hr : Run (Step E) s tr s') : StateOk s' :=
  hr.invariant h fun _ _ _ ha hs => ha.step hs

/-- **The rule for runs.** What holds of no events and the state a run begins in, does not
depend on the table or the locals of `process_func`, and is preserved by every branch of a
pass from a state that meets the invariant, holds of the events and the state a run leads
to. -/
theorem StateOk.along {R : List Event → State → Prop} (h : StateOk s)
    (hr : Run (Step E) s tr s') (hstart : R [] s)
    (hcall : ∀ {tr a}, R tr a → R tr (enter a))
    (hothers : ∀ {tr a} (table : HashTable), R tr a → R tr { a with table := table })
    (hpass : ∀ {tr a r ev b}, StateOk a → a.exited = false → E.answer a r → R tr a →
      Pass a r b ev → R (tr ++ ev) b) : R tr s' := by
  have hrel : StateOk s' ∧ R tr s' := by
    refine hr.relate (R := fun tr t => StateOk t ∧ R tr t) ⟨h, hstart⟩ ?_
    rintro tr a ev b ⟨hok, hR⟩ hs
    refine ⟨hok.step hs, ?_⟩
    cases hs with
    | call => simpa using hcall hR
    | others => simpa using hothers _ hR
    | pass _ halive hans =>
        exact hpass hok halive hans hR (pass_cases hok.control (E.returns hans))
  exact hrel.2

end MultiportNetwork
