import MultiportNetwork.Server.Call

/-!
# MultiportNetwork.Server.Progress

A connection can always be driven to its end: on a socket that takes everything it is
given, some schedule delivers all of the stream and has every call return, or leads into
a batch with too many answers, where no call returns. The session of the stream says
which.

The measure counts what there is to do: bytes to be received and parsed, buffers to be
sent, and the places of the state machine in the order they are gone through.
-/

namespace MultiportNetwork

variable {s s' t : State} {r : SysRet} {ev tr : List Event} {stream : Bytes}

/-- The places of the state machine, each above those it leads to without parsing a
byte or sending a buffer. -/
def State.rank (s : State) : Nat :=
  match s.c.connState with
  | .connClosing => if s.stop then 0 else 1
  | .connRead => if s.stop then 3 else 2
  | .connWaiting => if s.c.workState = .writeBcak then 11 else 4
  | .connNewCmd => if s.stop then 7 else if s.instCount + 1 < roundNum then 6 else 8
  | .connDealWith =>
    match s.c.workState with
    | .parseHead | .readKeyValue => 5
    | .storeKvobj => 9
    | .queryKey => 13
    | .writeBcak => if s.stop then 10 else 9
  | _ => 0

/-- What there is to do. -/
def State.todo (s : State) : Nat :=
  20 * s.inbox.length + 14 * s.c.window.length + 3 * s.c.batchRetVector.length + s.rank

/-- The connection is over, or everything has been delivered and there is room for more. -/
def State.AtEnd (s : State) : Prop :=
  s.exited = true ∨ s.c.connState = .connClosing ∧ s.stop = true ∨
    s.c.connState = .connRead ∧ s.inbox = [] ∧ 0 < s.c.avail

/-- What a socket answers that delivers as much as there is room for and takes everything
it is given. -/
def State.obliging (s : State) : SysRet :=
  match s.syscall with
  | some (.read n) =>
    if n ≤ 0 then ⟨0, .other⟩ else if s.inbox = [] then ⟨-1, .EAGAIN⟩
    else ⟨min n s.inbox.length, .other⟩
  | some (.write n) => ⟨n, .other⟩
  | none => ⟨0, .other⟩

theorem State.obliging_accepting (s : State) : Env.accepting.answer s s.obliging := by
  have hanswer : ∀ call, s.syscall = some call →
      call.Benign s.inbox s.obliging ∧ call.WritesAll s.obliging := by
    intro call hcall
    unfold State.obliging
    rw [hcall]
    cases call with
    | write n =>
        refine ⟨⟨.inr ⟨by simp, by simp, by simp⟩, ?_, by simp⟩, rfl⟩
        intro hneg
        have : (n : Int) = -1 := hneg
        omega
    | read n =>
        refine ⟨?_, trivial⟩
        by_cases hn : n ≤ 0
        · simp [Syscall.Benign, Syscall.Returns, hn]
        have hn' : 0 < n := Int.not_le.mp hn
        by_cases hnil : s.inbox = []
        · simp [Syscall.Benign, Syscall.Returns, hn, hnil, SysRet.wouldBlock]
        · have hlen := List.length_pos_of_ne_nil hnil
          simp only [Syscall.Benign, Syscall.Returns, hn, hnil, if_false]
          refine ⟨.inr ⟨by omega, by omega, by omega⟩, fun hneg => ?_, fun hzero => ?_⟩
          · omega
          · omega
  exact ⟨fun call hcall => (hanswer call hcall).1, fun call hcall => (hanswer call hcall).2⟩

/-- An answer adds at most one buffer. -/
theorem Connection.length_openBuf (c : Connection) :
    c.openBuf.length ≤ c.batchRetVector.length + 1 := by
  unfold Connection.openBuf
  split
  · rw [List.length_append, List.length_singleton]
  · exact Nat.le_succ _

theorem Connection.buffers_conRetBuf {c : Connection}
    (h : c.inBatchGet = true → c.batchRetVector ≠ []) :
    (conRetBuf c).batchRetVector.length ≤ c.batchRetVector.length + 1 := by
  cases hin : c.inBatchGet with
  | false => simp [conRetBuf_single hin]
  | true =>
      have hpos := List.length_pos_of_ne_nil (h hin)
      have hle := c.length_openBuf
      rw [conRetBuf_batch hin]
      simp only [List.length_append, List.length_dropLast, List.length_singleton]
      omega

/-- A batch with more answers than it wants is about to be sent. -/
structure State.Spins (s : State) : Prop where
  conn : s.c.connState = .connDealWith
  work : s.c.workState = .writeBcak
  inBatch : s.c.inBatchGet = true
  count : s.c.batchNum < s.c.batchCount

/-- More answers than the batch wants leave the session nowhere to go. -/
theorem State.Spins.final (h : s.Spins) (halive : s.exited = false) : s.final = .spinning := by
  have hsession : s.session = .spinning := by
    rw [State.session_open halive (by simp [h.conn]), Connection.session_write h.work,
      Connection.batch_eq h.inBatch]
    have hlt : ¬ s.c.batchCount < s.c.batchNum := UInt16.not_lt.mpr (UInt16.le_of_lt h.count)
    have hne : s.c.batchCount ≠ s.c.batchNum := fun heq => by simpa [heq] using h.count
    simp [settle, Batch.settle, hlt, hne]
  rw [State.final, hsession]
  exact sessionAfter_none rfl

/-- A pass goes down, if the socket obliges. -/
theorem StateOk.pass_descends (h : StateOk s) (hrun : s.stop = false) (hspin : ¬ s.Spins)
    (hread : s.c.connState = .connRead → r.ret ≠ -1)
    (hwrite : ∀ n, s.syscall = some (.write n) → r.ret = n) (hp : Pass s r s' ev) :
    s'.exited = true ∨ s'.todo < s.todo := by
  -- what is offered to the socket, and that it is something
  have hsend : ∀ {it rest}, s.AtSend it rest → 0 < r.ret ∧ r.ret = it.left := by
    intro it rest ha
    have hpos := h.batch.left_pos ha it List.mem_cons_self
    have hall := hwrite it.left
      (by simp [State.syscall, ha.conn, ha.work, ha.inBatch, ha.count, ha.buffers])
    omega
  have hsingle : s.AtSingle → 0 < r.ret ∧ r.ret = s.c.retBytes := by
    intro ha
    have hpos := h.batch.single ha.work ha.inBatch
    have hall := hwrite s.c.retBytes (by simp [State.syscall, ha.conn, ha.work, ha.inBatch])
    omega
  cases hp with
  | headMagic | headTurn => exact .inl rfl
  | readNone hc hw hret => exact absurd hret (hread hc)
  | batchSpin hc hw hin hgt => exact absurd ⟨hc, hw, hin, hgt⟩ hspin
  | batchBlocked ha hle | batchFailed ha hle =>
      have := hsend ha
      omega
  | batchPart ha hpos hpart =>
      have := hsend ha
      omega
  | singleBlocked ha hle | singleFailed ha hle =>
      have := hsingle ha
      omega
  | singlePart ha hpos hpart =>
      have := hsingle ha
      omega
  | readData hc hw hpos havail hinbox =>
      right
      have hnonneg := h.control.window.nonneg
      rcases hw with ⟨hw, -⟩ | ⟨hw, -⟩
      all_goals
        simp only [State.todo, State.rank, hc, hrun, hw, length_window, List.length_drop,
          Connection.connStateJump, Connection.receive, compact]
        omega
  | readEof hc hw hret =>
      right
      simp [State.todo, State.rank, hc, hrun]
  | newCmdMore hc hw hn hne | newCmdIdle hc hw hn hnil =>
      right
      simp [State.todo, State.rank, hc, hrun, hw, hn]
  | newCmdStop hc hw hn =>
      right
      simp [State.todo, State.rank, hc, hrun, Nat.not_lt.mpr hn]
  | headNone hc hw | headShort hc hw | bodyShort hc hw =>
      right
      simp [State.todo, State.rank, hc, hw]
  | headClosed ha hv | headRefused ha hv | headBatch ha hv | headBody ha hv =>
      right
      have hlen := ha.length
      simp only [length_window, headerSize] at hlen
      simp [State.todo, State.rank, ha.conn, ha.work, hrun, headerSize]
      omega
  | bodySet hb hop | bodyGet hb hop =>
      right
      have hkey := Request.keylen_le_of_body hb.verdict
      have hlen := hb.length
      simp only [RequestHeader.request_keylen, RequestHeader.request_totalbodylen,
        length_window] at hkey hlen
      simp [State.todo, State.rank, hb.conn, hb.work]
      omega
  | store hc hw =>
      right
      simp [State.todo, State.rank, hc, hw, hrun]
      split <;> omega
  | query hc hw =>
      right
      have hbuf := Connection.buffers_conRetBuf
        (c := queryResult s.c (s.table.find s.c.key)) (by simpa using h.control.buffers.mp)
      simp only [queryResult_batchRetVector] at hbuf
      simp [State.todo, State.rank, hc, hw, hrun]
      omega
  | batchMore hc hw hin hlt =>
      right
      simp [State.todo, State.rank, hc, hw, hrun]
      split <;> omega
  | batchDone ha hpos hall =>
      right
      simp [State.todo, State.rank, ha.conn, ha.work, ha.buffers, hrun]
      split <;> omega
  | batchNext ha hrest hpos hall =>
      right
      simp [State.todo, State.rank, ha.conn, ha.work, ha.buffers, hrun]
      omega
  | singleDone ha hpos hall =>
      right
      simp [State.todo, State.rank, ha.conn, ha.work, hrun]
      split <;> omega
  | waitWrite hc hw =>
      right
      simp [State.todo, State.rank, hc, hw.1]
  | waitRead hc hw =>
      right
      have hwork : s.c.workState ≠ .writeBcak := by
        rcases hw with ⟨hw, -⟩ | ⟨hw, -⟩ <;> simp [hw]
      simp [State.todo, State.rank, hc, hwork]
  | closing hc =>
      right
      simp [State.todo, State.rank, hc, hrun]

/-- The steps of a connection that are its own. -/
inductive Solo (E : Env) : State → List Event → State → Prop
  | call {s : State} (hstop : s.stop = true) (halive : s.exited = false)
      (hevent : s.c.eventAdded = true) : Solo E s [] (enter s)
  | pass {s : State} {r : SysRet} (hrun : s.stop = false) (halive : s.exited = false)
      (hans : E.answer s r) : Solo E s (pass s r).2 (pass s r).1

theorem Solo.step {E : Env} (h : Solo E s ev s') : Step E s ev s' := by
  cases h with
  | call hstop halive hevent => exact .call hstop halive hevent
  | pass hrun halive hans => exact .pass hrun halive hans

/-- Whatever an environment allows, the kernel may do. -/
theorem Solo.any {E : Env} (h : Solo E s ev s') : Solo Env.any s ev s' := by
  cases h with
  | call hstop halive hevent => exact .call hstop halive hevent
  | pass hrun halive hans => exact .pass hrun halive (E.returns hans)

/-- **One step further.** -/
theorem StateOk.descends (h : StateOk s) (hspin : ¬ s.Spins) (hend : ¬ s.AtEnd) :
    ∃ ev s', Solo Env.accepting s ev s' ∧ (s'.AtEnd ∨ s'.todo < s.todo) := by
  rw [State.AtEnd, not_or, not_or, Bool.not_eq_true] at hend
  obtain ⟨halive, hclosed, hread⟩ := hend
  have hctl := h.control.control
  cases hstop : s.stop with
  | true =>
      have hevent : s.c.eventAdded = true := by
        by_contra hne
        have hclosing := (h.control.event (Bool.eq_false_iff.mpr hne)).2
        exact hclosed ⟨hclosing, hstop⟩
      refine ⟨[], _, .call hstop halive hevent, .inr ?_⟩
      have hrank : (enter s).rank < s.rank := by
        unfold State.ControlAt at hctl
        cases hc : s.c.connState with
        | connRead => simp [State.rank, enter, hc, hstop]
        | connNewCmd => simp [State.rank, enter, hc, hstop, roundNum]
        | connDealWith =>
            rw [hc] at hctl
            simp [State.rank, enter, hc, hstop, (hctl hstop).1]
        | connClosing => exact absurd ⟨hc, hstop⟩ hclosed
        | connWaiting => simp [hc, hstop] at hctl
        | _ => simp [hc] at hctl
      have hsame : (enter s).inbox = s.inbox ∧ (enter s).c = s.c := ⟨rfl, rfl⟩
      simp only [State.todo, hsame]
      omega
  | false =>
      have hans := s.obliging_accepting
      have hp := pass_cases h.control (Env.accepting.returns hans)
      refine ⟨_, _, .pass hstop halive hans, ?_⟩
      have hwrite : ∀ n, s.syscall = some (.write n) → s.obliging.ret = n := by
        intro n hcall
        rw [State.obliging, hcall]
      have hdata : s.c.connState = .connRead → s.obliging.ret ≠ -1 := by
        intro hc
        have hcall : s.syscall = some (.read s.c.avail) := by simp [State.syscall, hc]
        rw [State.obliging, hcall]
        by_cases hfull : s.c.avail ≤ 0
        · simp [hfull]
        · have hmore : s.inbox ≠ [] := fun hnil => hread ⟨hc, hnil, Int.not_le.mp hfull⟩
          simp only [hfull, hmore, if_false]
          omega
      rcases h.pass_descends hstop hspin hdata hwrite hp with hexit | hlt
      · exact .inl (.inl hexit)
      · exact .inr hlt

/-- **Progress.** On a socket that obliges, every connection is driven by steps of its own
to its end, or into a batch with too many answers. -/
theorem StateOk.reaches_end (h : StateOk s) :
    ∃ tr t, Run (Solo Env.accepting) s tr t ∧ (t.AtEnd ∨ t.Spins) := by
  induction hn : s.todo using Nat.strongRecOn generalizing s with
  | ind n ih =>
    subst hn
    by_cases hend : s.AtEnd
    · exact ⟨[], s, .refl s, .inl hend⟩
    by_cases hspin : s.Spins
    · exact ⟨[], s, .refl s, .inr hspin⟩
    obtain ⟨ev, s', hs, hend' | hlt⟩ := h.descends hspin hend
    · exact ⟨ev, s', .single hs, .inl hend'⟩
    · obtain ⟨tr, t, hr, ht⟩ := ih _ hlt (h.step hs.step) rfl
      exact ⟨_, t, hr.head hs, ht⟩

/-- At its end a connection has executed all its commands, and is what its session is. -/
theorem StateOk.final_atEnd (h : StateOk s) (hend : s.AtEnd) :
    s.forecast = [] ∧ s.final = s.session := by
  rw [State.AtEnd] at hend
  by_cases hover : s.exited = true ∨ s.c.connState = .connClosing
  · exact State.forecast_over hover
  rw [not_or, Bool.not_eq_true] at hover
  obtain ⟨halive, hopen⟩ := hover
  rcases hend with hexit | ⟨hc, -⟩ | ⟨hc, hinbox, hroom⟩
  · simp [halive] at hexit
  · exact absurd hc hopen
  · have hw := h.control.starved hc
    obtain ⟨hforecast, hfinal⟩ := h.forecast_starved halive hopen hw hinbox
    exact ⟨hforecast, hfinal hroom⟩

/-- A session that is at its end does not spin. -/
theorem State.AtEnd.session_ne_spinning (h : s.AtEnd) (hok : StateOk s) :
    s.session ≠ .spinning := by
  rw [State.session]
  split
  · simp
  next halive =>
    split
    · simp
    next hopen =>
      rcases h with hexit | ⟨hc, -⟩ | ⟨hc, -⟩
      · exact absurd hexit halive
      · exact absurd hc hopen
      · rcases hok.control.starved hc with ⟨hw, -⟩ | ⟨hw, -⟩
        · simp [Connection.session_head hw]
        · simp only [Connection.session, hw]
          split <;> simp

/-- **Every stream can be carried out**: some schedule executes all its commands and
leaves the connection in the session the stream ends in. -/
theorem Init.carried_out (h : Init stream s)
    (hspin : sessionAfter (.head none) stream ≠ .spinning) :
    ∃ tr t, Run (Solo Env.accepting) s tr t ∧ executed tr = commandsIn (.head none) stream ∧
      t.session = sessionAfter (.head none) stream := by
  obtain ⟨tr, t, hr, hend⟩ := h.ok.reaches_end
  have hr' : Run (Step Env.benign) s tr t := hr.mono fun _ _ _ hs => hs.step.ofAccepting
  obtain ⟨hforecast, hfinal⟩ := h.refines hr'
  by_cases hatEnd : t.AtEnd
  · obtain ⟨hnil, hsession⟩ := (h.ok.run hr').final_atEnd hatEnd
    rw [hnil, List.append_nil] at hforecast
    exact ⟨tr, t, hr, hforecast, hsession ▸ hfinal⟩
  · have halive : t.exited = false := Bool.eq_false_iff.mpr fun hexit => hatEnd (.inl hexit)
    exact absurd (hfinal.symm.trans ((hend.resolve_left hatEnd).final halive)) hspin

/-- **Some schedule leads into a batch with too many answers**, if the stream does. -/
theorem Init.carried_away (h : Init stream s)
    (hspin : sessionAfter (.head none) stream = .spinning) :
    ∃ tr t, Run (Solo Env.accepting) s tr t ∧ t.exited = false ∧ t.Spins := by
  obtain ⟨tr, t, hr, hend⟩ := h.ok.reaches_end
  have hr' : Run (Step Env.benign) s tr t := hr.mono fun _ _ _ hs => hs.step.ofAccepting
  have hok := h.ok.run hr'
  have hnot : ¬ t.AtEnd := by
    intro hatEnd
    refine hatEnd.session_ne_spinning hok ?_
    rw [← (hok.final_atEnd hatEnd).2, (h.refines hr').2, hspin]
  have halive : t.exited = false := Bool.eq_false_iff.mpr fun hexit => hnot (.inl hexit)
  exact ⟨tr, t, hr, halive, hend.resolve_left hnot⟩

end MultiportNetwork
