import MultiportNetwork.Framing
import MultiportNetwork.Segmentation

/-!
# MultiportNetwork.Refused

What becomes of the body of a refused request. `dispatch_bin_command` refuses a
request in two ways. A key longer than its body ends the connection; any other
fault leaves the state machine where it is, and `try_read_head_binary` moves the
cursor behind the header and no further. The next header is then looked for in the
body (`refused_skipped_iff`), and what looks like one there is a command like any
other.
-/

namespace MultiportNetwork

variable {E : Env} {s s' t t' : State} {r : SysRet} {ev tr tr₀ : List Event} {stream : Bytes}

/-! ### Positions -/

/-- The next unread byte is about to be taken for the first byte of a header. -/
structure State.Parsing (s : State) : Prop where
  alive : s.exited = false
  conn : s.c.connState = .connDealWith
  work : s.c.workState = .parseHead
  window : s.c.window ≠ []

/-- After the header that is next, no header is looked for and no command executed
before as many bytes have gone by as it announces for its body. -/
structure SkipsBody (s : State) : Prop where
  heads : ∀ {r tr t}, Run (Step Env.any) (pass s r).1 tr t → t.Parsing →
    headerSize + (Request.decode s.c.window).totalbodylen.toNat + t.unparsed.length ≤
      s.unparsed.length
  calls : ∀ {r tr t}, Run (Step Env.any) (pass s r).1 tr t → tableCallsOf tr ≠ [] →
    headerSize + (Request.decode s.c.window).totalbodylen.toNat + t.unparsed.length ≤
      s.unparsed.length

/-- Bytes are parsed from the front. -/
theorem StateOk.unparsed_pass (h : StateOk s) (hp : Pass s r s' ev) :
    s'.unparsed <:+ s.unparsed := by
  cases hp with
  | readData hc hw hpos havail hinbox =>
      exact ⟨[], unparsed_read h.control.window hpos hinbox⟩
  | headClosed ha | headRefused ha | headBatch ha | headBody ha =>
      simp only [State.unparsed, window_advance, window_connStateJump, window_loadHeader,
        window_openBatch, window_workStateJump]
      rw [drop_unparsed ha.length]
      exact List.drop_suffix _ _
  | bodySet hb hop =>
      simp only [State.unparsed, window_advance, window_setRead]
      rw [drop_unparsed hb.length]
      exact List.drop_suffix _ _
  | bodyGet hb hop =>
      have hkey : s.c.binaryHeader.keylen.toNat ≤ s.c.window.length :=
        Nat.le_trans (Request.keylen_le_of_body hb.verdict).2 hb.length
      simp only [State.unparsed, window_advance, window_getRead]
      rw [drop_unparsed hkey]
      exact List.drop_suffix _ _
  | _ => simp [State.unparsed]

theorem StateOk.unparsed_run (h : StateOk s) (hr : Run (Step E) s tr t) :
    t.unparsed <:+ s.unparsed :=
  h.along (R := fun _ t => t.unparsed <:+ s.unparsed) hr List.suffix_rfl id (fun _ hsuf => hsuf)
    fun hok _ _ hsuf hp => (hok.unparsed_pass hp).trans hsuf

/-! ### The connection that is given up -/

/-- A connection that is given up parses and executes nothing more. -/
theorem StateOk.closing_run (h : StateOk s) (hc : s.c.connState = .connClosing)
    (hr : Run (Step E) s tr t) : t.c.connState = .connClosing ∧ tableCallsOf tr = [] := by
  refine h.along (R := fun tr t => t.c.connState = .connClosing ∧ tableCallsOf tr = []) hr
    ⟨hc, rfl⟩ id (fun _ h => h) ?_
  rintro tr a r ev b - - - ⟨hc, htr⟩ hp
  obtain ⟨hc', hev⟩ := hp.closing_stays hc
  refine ⟨hc', ?_⟩
  rw [← tableCalls_executed] at htr ⊢
  rw [executed_append, hev, List.append_nil, htr]

/-! ### The stream that has ended -/

/-- Nothing is left to parse, and a header is due. -/
structure State.Drained (s : State) : Prop where
  work : s.c.workState = .parseHead
  window : s.c.window = []
  inbox : s.inbox = []

theorem State.Drained.pass (h : s.Drained) (hp : Pass s r s' ev) :
    s'.Drained ∧ tableCallsOf ev = [] := by
  obtain ⟨hwork, hwindow, hinbox⟩ := h
  cases hp with
  | readData hc hw hpos havail hle =>
      rw [hinbox, List.length_nil] at hle
      omega
  | headShort hc hw hmagic => simp [hwindow] at hmagic
  | headMagic hc hw hhead => simp [hwindow] at hhead
  | headTurn hc hw hmagic => simp [hwindow] at hmagic
  | headClosed ha | headRefused ha | headBatch ha | headBody ha =>
      have := ha.magic
      simp [hwindow] at this
  | newCmdMore hc hw hn hne => exact absurd hwindow hne
  | bodySet hb | bodyGet hb => exact absurd (hwork.symm.trans hb.work) (by decide)
  | bodyShort hc hw | store hc hw | query hc hw | batchMore hc hw | batchSpin hc hw =>
      exact absurd (hwork.symm.trans hw) (by decide)
  | batchBlocked ha | batchFailed ha | batchDone ha | batchNext ha | batchPart ha
  | singleBlocked ha | singleFailed ha | singleDone ha | singlePart ha =>
      exact absurd (hwork.symm.trans ha.work) (by decide)
  | waitWrite hc hw => exact absurd (hwork.symm.trans hw.1) (by decide)
  | _ => exact ⟨⟨by simpa using hwork, by simpa using hwindow, hinbox⟩, rfl⟩

theorem StateOk.drained_run (h : StateOk s) (hd : s.Drained) (hr : Run (Step E) s tr t) :
    t.Drained ∧ tableCallsOf tr = [] := by
  refine h.along (R := fun tr t => t.Drained ∧ tableCallsOf tr = []) hr ⟨hd, rfl⟩
    (fun ⟨hd, htr⟩ => ⟨⟨hd.work, hd.window, hd.inbox⟩, htr⟩)
    (fun _ ⟨hd, htr⟩ => ⟨⟨hd.work, hd.window, hd.inbox⟩, htr⟩) ?_
  rintro tr a r ev b - - - ⟨hd, htr⟩ hp
  obtain ⟨hd', hev⟩ := hd.pass hp
  refine ⟨hd', ?_⟩
  rw [tableCallsOf, List.filterMap_append, ← tableCallsOf, ← tableCallsOf, htr, hev,
    List.nil_append]

/-! ### The body that is taken for headers -/

/-- A connection whose window is empty reads on, and takes what comes for a header. -/
theorem StateOk.reads_on (h : StateOk s) (hrun : s.stop = false) (halive : s.exited = false)
    (hc : s.c.connState = .connDealWith) (hw : s.c.workState = .parseHead)
    (hwindow : s.c.window = []) (hinbox : s.inbox ≠ []) :
    ∃ tr t, Run (Step Env.any) s tr t ∧ t.Parsing ∧ t.unparsed = s.unparsed := by
  have hrem : s.c.remainingBytes = 0 := by
    have hlen := length_window s.c
    have := h.control.window.nonneg
    rw [hwindow, List.length_nil] at hlen
    omega
  have hsilent : ∀ {u : State}, u.syscall = none → Env.any.answer u ⟨0, .other⟩ := by
    intro u hnone call hcall
    simp [hnone] at hcall
  -- the call returns to wait for input
  have hempty := Step.pass hrun halive (hsilent (u := s) (by simp [State.syscall, hc, hw]))
  have hpass : pass s ⟨0, .other⟩ = ({ s with c := s.c.connStateJump .connWaiting }, []) := by
    simp [pass, hc, onConnDealWith, hw, onParseHead, hrem]
  rw [hpass] at hempty
  have hwait := Step.pass (s := { s with c := s.c.connStateJump .connWaiting }) hrun halive
    (hsilent (by simp [State.syscall]))
  have hpass' : pass { s with c := s.c.connStateJump .connWaiting } ⟨0, .other⟩ =
      ({ s with c := s.c.connStateJump .connRead, stop := true }, []) := by
    simp [pass, onConnWaiting, hw, Connection.connStateJump]
  rw [hpass'] at hwait
  -- the next one reads a byte
  have hcall := Step.call (E := Env.any)
    (s := { s with c := s.c.connStateJump .connRead, stop := true }) rfl halive
    (h.control.registered hrun)
  obtain ⟨x, rest, hx⟩ := List.exists_cons_of_ne_nil hinbox
  have hread := Step.pass (E := Env.any) (r := ⟨1, .other⟩)
    (s := enter { s with c := s.c.connStateJump .connRead, stop := true }) rfl halive (by
      intro call hcall
      have hread : State.syscall (enter { s with c := s.c.connStateJump .connRead, stop := true }) =
          some (.read (Connection.avail (s.c.connStateJump .connRead))) := rfl
      obtain rfl := Option.some.inj (hread.symm.trans hcall)
      have havail : Connection.avail (s.c.connStateJump .connRead) = initReadBufSize := by
        simp [Connection.avail, hrem, h.control.window.size]
      simp [Syscall.Returns, enter, havail, hx, initReadBufSize])
  have hpass'' : pass (enter { s with c := s.c.connStateJump .connRead, stop := true })
      ⟨1, .other⟩ =
      ({ s with
          c := ((compact (s.c.connStateJump .connRead)).receive [x] 1).connStateJump .connDealWith
          inbox := rest
          instCount := 0
          stop := false }, [.read [x]]) := by
    simp [pass, enter, onConnRead, tryReadNetwork, hx]
  rw [hpass''] at hread
  have hwindow' : ((compact (s.c.connStateJump .connRead)).receive [x] 1).window = [x] := by
    have hwin : WindowOk (compact (s.c.connStateJump .connRead)) :=
      WindowOk.compact (h.control.window.congr)
    have hbytes := window_receive hwin rfl (show (1 : Int) = ([x] : Bytes).length from rfl)
    rw [hbytes, window_compact, window_connStateJump, hwindow]
    rfl
  refine ⟨_, _, (((Run.single hempty).snoc hwait).snoc hcall).snoc hread,
    ⟨halive, rfl, by simpa using hw, ?_⟩, ?_⟩
  · rw [window_connStateJump, hwindow']
    exact List.cons_ne_nil x []
  · rw [State.unparsed, State.unparsed, window_connStateJump, hwindow', hwindow, hx]
    rfl

/-- What a refused header leaves: the cursor behind it, and nothing else of note. -/
theorem State.AtHead.refused_eq (ha : s.AtHead) (h : ControlOk s)
    (hv : (Request.decode s.c.window).verdict = .refused) :
    (pass s r).1 = { s with c := (loadHeader s.c).advance headerSize } := by
  rw [ha.pass_eq h, dispatch_loadHeader ha.length, hv]

theorem State.AtHead.closed_eq (ha : s.AtHead) (h : ControlOk s)
    (hv : (Request.decode s.c.window).verdict = .closed) :
    (pass s r).1 =
      { s with c := ((loadHeader s.c).connStateJump .connClosing).advance headerSize } := by
  rw [ha.pass_eq h, dispatch_loadHeader ha.length, hv]

theorem State.AtHead.header_le (ha : s.AtHead) : headerSize ≤ s.unparsed.length := by
  rw [State.unparsed, List.length_append]
  exact Nat.le_add_right_of_le ha.length

section
variable (hok : StateOk s) (ha : s.AtHead)
include hok ha

theorem StateOk.atHead_running : s.stop = false := by
  have hctl := hok.control.control
  simp only [State.ControlAt, ha.conn] at hctl
  by_contra hstop
  rw [Bool.not_eq_false] at hstop
  exact absurd (ha.work.symm.trans (hctl hstop).1) (by decide)

/-- The pass that parses a header keeps the invariant, whatever the socket does. -/
theorem StateOk.atHead_pass : StateOk (pass s r).1 := by
  have hret : s.returns r := fun call hcall => by
    simp [State.syscall, ha.conn, ha.work] at hcall
  exact hok.ofPass (hok.atHead_running ha) (pass_cases hok.control hret)

theorem StateOk.skips_closed (hv : (Request.decode s.c.window).verdict = .closed) :
    SkipsBody s := by
  have hc : ∀ r, (pass s r).1.c.connState = .connClosing := fun r => by
    simp [ha.closed_eq hok.control hv]
  constructor
  · intro r tr t hr hp
    have hclosed := ((hok.atHead_pass ha).closing_run (hc r) hr).1
    exact absurd (hp.conn.symm.trans hclosed) (by decide)
  · intro r tr t hr hcalls
    exact absurd ((hok.atHead_pass ha).closing_run (hc r) hr).2 hcalls

variable (hv : (Request.decode s.c.window).verdict = .refused)
include hv

theorem StateOk.refused_unparsed : (pass s r).1.unparsed = s.unparsed.drop headerSize := by
  rw [ha.refused_eq hok.control hv, State.unparsed, window_advance, window_loadHeader]
  exact drop_unparsed ha.length

theorem StateOk.skips_empty (hzero : (Request.decode s.c.window).totalbodylen.toNat = 0) :
    SkipsBody s := by
  have hle : ∀ {r tr t}, Run (Step Env.any) (pass s r).1 tr t →
      headerSize + (Request.decode s.c.window).totalbodylen.toNat + t.unparsed.length ≤
        s.unparsed.length := by
    intro r tr t hr
    have hsuf := ((hok.atHead_pass ha).unparsed_run hr).length_le
    rw [hok.refused_unparsed ha hv, List.length_drop] at hsuf
    have := ha.header_le
    omega
  exact ⟨fun hr _ => hle hr, fun hr _ => hle hr⟩

theorem StateOk.skips_ended (hend : s.unparsed.length = headerSize) : SkipsBody s := by
  have hdrained : ∀ r, (pass s r).1.Drained := by
    intro r
    have hnil : (pass s r).1.unparsed = [] := by
      rw [hok.refused_unparsed ha hv, ← hend, List.drop_length]
    rw [State.unparsed, List.append_eq_nil_iff] at hnil
    refine ⟨?_, hnil.1, hnil.2⟩
    simp [ha.refused_eq hok.control hv, ha.work]
  constructor
  · intro r tr t hr hp
    exact absurd ((hok.atHead_pass ha).drained_run (hdrained r) hr).1.window hp.window
  · intro r tr t hr hcalls
    exact absurd ((hok.atHead_pass ha).drained_run (hdrained r) hr).2 hcalls

/-- What follows a refused header is looked at for a header. -/
theorem StateOk.parses_body (halive : s.exited = false) (hmore : s.unparsed.length ≠ headerSize) :
    ∃ tr t, Run (Step Env.any) (pass s r).1 tr t ∧ t.Parsing ∧
      t.unparsed = s.unparsed.drop headerSize := by
  have hunparsed := hok.refused_unparsed (r := r) ha hv
  have hpass := ha.refused_eq (r := r) hok.control hv
  have hle := ha.header_le
  have halive' : (pass s r).1.exited = false := by rw [hpass]; exact halive
  have hc : (pass s r).1.c.connState = .connDealWith := by simp [hpass, ha.conn]
  have hw : (pass s r).1.c.workState = .parseHead := by simp [hpass, ha.work]
  by_cases hwindow : (pass s r).1.c.window = []
  · have hinbox : (pass s r).1.inbox ≠ [] := by
      intro hnil
      rw [State.unparsed, hwindow, hnil, List.append_nil] at hunparsed
      have := congrArg List.length hunparsed
      rw [List.length_nil, List.length_drop] at this
      omega
    have hrun : (pass s r).1.stop = false := by
      rw [hpass]
      exact hok.atHead_running ha
    obtain ⟨tr, t, hr, hp, ht⟩ :=
      (hok.atHead_pass ha).reads_on hrun halive' hc hw hwindow hinbox
    exact ⟨tr, t, hr, hp, ht.trans hunparsed⟩
  · exact ⟨[], _, .refl _, ⟨halive', hc, hw, hwindow⟩, hunparsed⟩

end

/-- **Refused requests.** The body of a refused request is skipped, or the connection
closed, if and only if the key is longer than the body, the body is empty, or the
stream ends with the header. -/
theorem refused_skipped_iff (h : Init stream s') (h₀ : Run (Step Env.any) s' tr₀ s)
    (halive : s.exited = false) (ha : s.AtHead)
    (hv : (Request.decode s.c.window).verdict = .refused ∨
      (Request.decode s.c.window).verdict = .closed) :
    SkipsBody s ↔ (Request.decode s.c.window).verdict = .closed ∨
      (Request.decode s.c.window).totalbodylen.toNat = 0 ∨ s.unparsed.length = headerSize := by
  have hok := h.ok.run h₀
  rcases hv with hv | hv
  swap
  · exact ⟨fun _ => .inl hv, fun _ => hok.skips_closed ha hv⟩
  constructor
  · intro hskip
    rw [or_iff_right (by simp [hv]), or_iff_not_imp_right]
    intro hmore
    obtain ⟨tr, t, hr, hp, ht⟩ := hok.parses_body (r := ⟨0, .other⟩) ha hv halive hmore
    have hle := hskip.heads hr hp
    have hheader := ha.header_le
    rw [ht, List.length_drop] at hle
    omega
  · rintro (hclosed | hzero | hend)
    · exact hok.skips_closed ha hclosed
    · exact hok.skips_empty ha hv hzero
    · exact hok.skips_ended ha hv hend

/-- A request with an opcode the server does not know. -/
def Packet.unknown (totalbodylen : UInt32) : Packet :=
  ⟨{ magic := 0x80, opcode := 5, totalbodylen := totalbodylen }, []⟩

/-- An unknown request without a body, and a SET behind it. -/
theorem refused_skipped_iff_unknown :
    SkipsBody (State.after ((Packet.unknown 0).bytes ++ (Packet.smallSet 107).bytes) 0).1 :=
  (refused_skipped_iff (State.init_accepted _)
    (State.play_run (E := Env.any) _ _) (by decide +kernel) (by decide +kernel)
    (.inl (by decide +kernel))).mpr (.inr (.inl (by decide +kernel)))

/-- An unknown request with a body in which there is a SET: the SET is executed while
the body is still on its way. -/
theorem refused_skipped_smuggledSet :
    ¬ ∀ (stream : Bytes) (s' s : State) (tr₀ : List Event), Init stream s' →
      Run (Step Env.any) s' tr₀ s → s.exited = false → s.AtHead →
      (Request.decode s.c.window).verdict = .refused ∨
        (Request.decode s.c.window).verdict = .closed → SkipsBody s := by
  intro hall
  let stream := (Packet.unknown 22).bytes ++ (Packet.smallSet 107).bytes
  have hskip := hall stream _ (State.after stream 0).1 _ (State.init_accepted _)
    (State.play_run (E := Env.any) _ _) (by decide +kernel) (by decide +kernel)
    (.inl (by decide +kernel))
  have hle := hskip.calls (r := ⟨0, .other⟩)
    (State.play_run (E := Env.any) _ [.ret 0, .ret 0, .ret 0]) (by decide +kernel)
  revert hle
  decide +kernel

end MultiportNetwork
