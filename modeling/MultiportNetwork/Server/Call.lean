import MultiportNetwork.Refine

/-!
# MultiportNetwork.Server.Call

One call of `process_func`, from the event that starts it to its return.

A `Call` may be unfinished: it is any number of passes after `enter`, and it has
returned when `stop` is set again. What a call does when the socket takes
everything it is given and has nothing to read is settled by `StateOk.call_resolves`:
sooner or later it uses the table, writes, or returns waiting for more input or
with the connection over.
-/

namespace MultiportNetwork

variable {E : Env} {s s' t t' : State} {r : SysRet} {ev tr : List Event} {stream : Bytes}

/-! ### Calls -/

/-- A step inside a call: a pass, or other connections at the table. -/
def InCall (E : Env) (s : State) (ev : List Event) (s' : State) : Prop :=
  s.stop = false ∧ Step E s ev s'

/-- A call of `process_func`, begun in `s` and now in `s'`. -/
structure Call (E : Env) (s : State) (tr : List Event) (s' : State) : Prop where
  stop : s.stop = true
  alive : s.exited = false
  event : s.c.eventAdded = true
  run : Run (InCall E) (enter s) tr s'

theorem Call.toRun (h : Call E s tr s') : Run (Step E) s tr s' :=
  Run.head (.call h.stop h.alive h.event) (h.run.mono fun _ _ _ hs => hs.2)

/-- `StateOk.along` for a call. -/
theorem Call.along {R : List Event → State → Prop} (h : StateOk s) (hcall : Call E s tr t)
    (hstart : R [] (enter s))
    (hothers : ∀ {tr a} (table : HashTable), R tr a → R tr { a with table := table })
    (hpass : ∀ {tr a r ev b}, StateOk a → a.stop = false → E.answer a r → R tr a →
      Pass a r b ev → R (tr ++ ev) b) : R tr t := by
  have hrel : StateOk t ∧ R tr t := by
    refine hcall.run.relate (R := fun tr t => StateOk t ∧ R tr t)
      ⟨h.ofEnter hcall.stop hcall.event, hstart⟩ ?_
    rintro tr a ev b ⟨hok, hR⟩ ⟨hrun, hs⟩
    refine ⟨hok.step hs, ?_⟩
    cases hs with
    | call hstop => simp [hstop] at hrun
    | others => simpa using hothers _ hR
    | pass _ halive hans => exact hpass hok hrun hans hR (pass_cases hok.control (E.returns hans))
  exact hrel.2

/-- A socket that takes everything it is given. -/
def Env.accepting : Env :=
  Env.benign.restrict fun s r => ∀ call, s.syscall = some call → call.WritesAll r

/-- A step where less is possible is one where more is. -/
theorem Step.mono {E E' : Env} (hle : ∀ {s r}, E.answer s r → E'.answer s r)
    (h : Step E s ev s') : Step E' s ev s' := by
  cases h with
  | call hstop halive hevent => exact .call hstop halive hevent
  | pass hrun halive hans => exact .pass hrun halive (hle hans)
  | others halive ht => exact .others halive ht

theorem Step.ofAccepting (h : Step Env.accepting s ev s') : Step Env.benign s ev s' :=
  h.mono And.left

/-- Does the event use the table or put bytes on the wire? -/
def Event.acts : Event → Bool
  | .insertOrAssign .. | .find .. | .write _ => true
  | _ => false

/-- How a connection has ended up. -/
def State.outcome (s : State) : Outcome :=
  if s.exited then .exited else if s.c.connState = .connClosing then .closed else .stillOpen

/-- Everything the client sent has been delivered, and another call would neither
use the table nor write. -/
structure Quiet (s : State) : Prop where
  returned : s.stop = true ∨ s.exited = true
  delivered : s.outcome = .stillOpen → s.inbox = []
  silent : ∀ {tr s'}, Call Env.accepting s tr s' → ∀ e ∈ tr, ¬ e.acts

/-- A state is settled when another call would not even move the state machine. -/
structure Settled (s : State) : Prop extends Quiet s where
  alive : ∀ {tr s'}, Call Env.accepting s tr s' → s'.exited = false
  unchanged : ∀ {tr s'}, Call Env.accepting s tr s' → s'.stop = true →
    s'.c.connState = s.c.connState ∧ s'.c.workState = s.c.workState

/-! ### What comes to a stop -/

/-- A call has returned waiting for input, or the connection is over. -/
def State.Resting (s : State) : Prop :=
  s.exited = true ∨ s.stop = true ∧ (s.c.connState = .connRead ∨ s.c.connState = .connClosing)

/-- A call reaches an action or a rest. -/
def Resolves (s : State) : Prop :=
  ∃ tr s', Run (InCall Env.accepting) s tr s' ∧ ((∃ e ∈ tr, e.acts) ∨ s'.Resting)

theorem Resolves.head (hs : InCall Env.accepting s ev s') (h : Resolves s') : Resolves s := by
  obtain ⟨tr, t, hr, hact | hrest⟩ := h
  · obtain ⟨e, he, hacts⟩ := hact
    exact ⟨_, t, hr.head hs, .inl ⟨e, List.mem_append_right _ he, hacts⟩⟩
  · exact ⟨_, t, hr.head hs, .inr hrest⟩

theorem Resolves.act (hs : InCall Env.accepting s ev s') {e : Event} (he : e ∈ ev)
    (hacts : e.acts = true) : Resolves s :=
  ⟨ev, s', .single hs, .inl ⟨e, he, hacts⟩⟩

theorem Resolves.rest (hs : InCall Env.accepting s ev s') (hrest : s'.Resting) : Resolves s :=
  ⟨ev, s', .single hs, .inr hrest⟩

/-- A pass that makes no system call can always be made. -/
theorem silentPass (hrun : s.stop = false) (halive : s.exited = false) (hnone : s.syscall = none)
    (r : SysRet) :
    Env.accepting.answer s r ∧ InCall Env.accepting s (pass s r).2 (pass s r).1 := by
  have hans : Env.accepting.answer s r := by
    constructor <;> intro call hcall <;> simp [hnone] at hcall
  exact ⟨hans, hrun, .pass hrun halive hans⟩

/-- A waiting connection with nothing to send returns to reading. -/
theorem resolves_waiting (hrun : s.stop = false) (halive : s.exited = false)
    (hc : s.c.connState = .connWaiting) (hw : s.c.Starved) : Resolves s := by
  obtain ⟨-, hs⟩ := silentPass hrun halive (by simp [State.syscall, hc]) ⟨0, .other⟩
  refine .rest hs (.inr ?_)
  rcases hw with ⟨hw, -⟩ | ⟨hw, -⟩ <;> simp [pass, hc, onConnWaiting, hw]

theorem resolves_closing (hrun : s.stop = false) (halive : s.exited = false)
    (hc : s.c.connState = .connClosing) : Resolves s := by
  obtain ⟨-, hs⟩ := silentPass hrun halive (by simp [State.syscall, hc]) ⟨0, .other⟩
  exact .rest hs (.inr (by simp [pass, hc, onConnClosing]))

/-- **Progress.** A call that is not at a response resolves: each header or body it
parses shortens the window. -/
theorem StateOk.resolves (h : StateOk s) (hrun : s.stop = false) (halive : s.exited = false)
    (hc : s.c.connState = .connDealWith) (hw : s.c.workState ≠ .writeBcak) : Resolves s := by
  induction hlen : s.c.window.length using Nat.strongRecOn generalizing s with
  | ind n ih =>
    subst hlen
    have hnone : s.syscall = none := by
      simp only [State.syscall, hc]
      cases hwork : s.c.workState with
      | writeBcak => exact absurd hwork hw
      | _ => rfl
    obtain ⟨hans, hs⟩ := silentPass hrun halive hnone ⟨0, .other⟩
    have hp := pass_cases h.control (Env.accepting.returns hans)
    have hok := h.ofPass hrun hp
    generalize (pass s ⟨0, .other⟩).1 = s', (pass s ⟨0, .other⟩).2 = ev at hs hp hok
    -- what a parsed header or body leaves is shorter
    have hnext : ∀ n, 0 < n → n ≤ s.c.window.length → s'.stop = false → s'.exited = false →
        s'.c.connState = .connDealWith → s'.c.workState ≠ .writeBcak →
        s'.c.window = s.c.window.drop n → Resolves s := by
      intro n hpos hle hrun' halive' hc' hw' hwin
      refine .head hs (ih _ ?_ hok hrun' halive' hc' hw' rfl)
      rw [hwin, List.length_drop]
      omega
    cases hp with
    | headNone hc' hw' hwin =>
        refine .head hs (resolves_waiting hrun halive (by simp) (.inl ⟨by simpa using hw', ?_⟩))
        simp [hwin, headerSize]
    | headShort hc' hw' hmagic hlen =>
        refine .head hs (resolves_waiting hrun halive (by simp) (.inl ⟨by simpa using hw', ?_⟩))
        simpa [hmagic] using hlen
    | headMagic hc' hw' hhead hx => exact .rest hs (.inl rfl)
    | headTurn hc' hw' hmagic hlen hin hne => exact .rest hs (.inl rfl)
    | headClosed ha hv => exact .head hs (resolves_closing hrun halive (by simp))
    | headRefused ha hv =>
        exact hnext headerSize (by decide) ha.length hrun halive (by simp [hc]) (by simp [hw])
          (by simp)
    | headBatch ha hv =>
        exact hnext headerSize (by decide) ha.length hrun halive (by simp [hc]) (by simp) (by simp)
    | headBody ha hv =>
        exact hnext headerSize (by decide) ha.length hrun halive (by simp [hc]) (by simp) (by simp)
    | bodyShort hc' hw' hlen =>
        exact .head hs (resolves_waiting hrun halive (by simp)
          (.inr ⟨by simpa using hw', by simpa using hlen⟩))
    | bodySet hb hop =>
        have hkey := Request.keylen_le_of_body hb.verdict
        exact hnext _ (Nat.lt_of_lt_of_le hkey.1 hkey.2) hb.length hrun halive (by simp [hc])
          (by simp) (by simp)
    | bodyGet hb hop =>
        have hkey := Request.keylen_le_of_body hb.verdict
        exact hnext _ hkey.1 (Nat.le_trans hkey.2 hb.length) hrun halive (by simp [hc]) (by simp)
          (by simp)
    | store hc' hw' => exact .act hs List.mem_cons_self rfl
    | query hc' hw' => exact .act hs List.mem_cons_self rfl
    -- the other branches belong to other states
    | readData hc' | readEof hc' | readNone hc' | newCmdMore hc' | newCmdIdle hc' | newCmdStop hc'
    | waitWrite hc' | waitRead hc' | closing hc' => exact absurd (hc.symm.trans hc') (by decide)
    | batchMore _ hw' | batchSpin _ hw' => exact absurd hw' hw
    | batchBlocked ha | batchFailed ha | batchDone ha | batchNext ha | batchPart ha
    | singleBlocked ha | singleFailed ha | singleDone ha | singlePart ha => exact absurd ha.work hw

/-- A read that finds nothing leaves the connection waiting, unless the full buffer
had no room to offer. -/
theorem reads_nothing (hrun : s.stop = false) (halive : s.exited = false)
    (hc : s.c.connState = .connRead) :
    ∃ c', InCall Env.accepting s [] { s with c := c' } ∧
      (s.c.avail ≤ 0 ∧ c'.connState = .connClosing ∨
        0 < s.c.avail ∧ c' = (compact s.c).connStateJump .connWaiting) := by
  have hcall : s.syscall = some (.read s.c.avail) := by simp [State.syscall, hc]
  by_cases hfull : s.c.avail ≤ 0
  · have hans : Env.accepting.answer s ⟨0, .other⟩ := by
      constructor <;> intro call hcall' <;> obtain rfl := Option.some.inj (hcall.symm.trans hcall')
      · simp [Syscall.Benign, Syscall.Returns, hfull]
      · trivial
    refine ⟨(compact s.c).connStateJump .connClosing, ⟨hrun, ?_⟩, .inl ⟨hfull, rfl⟩⟩
    simpa [pass, hc, onConnRead, tryReadNetwork] using Step.pass hrun halive hans
  · have hans : Env.accepting.answer s ⟨-1, .EAGAIN⟩ := by
      constructor <;> intro call hcall' <;> obtain rfl := Option.some.inj (hcall.symm.trans hcall')
      · simp [Syscall.Benign, Syscall.Returns, hfull, SysRet.wouldBlock]
      · trivial
    refine ⟨(compact s.c).connStateJump .connWaiting, ⟨hrun, ?_⟩, .inr ⟨Int.not_le.mp hfull, rfl⟩⟩
    simpa [pass, hc, onConnRead, tryReadNetwork] using Step.pass hrun halive hans

theorem StateOk.resolves_reading (h : StateOk s) (hrun : s.stop = false)
    (halive : s.exited = false) (hc : s.c.connState = .connRead) : Resolves s := by
  have hw := h.control.starved hc
  obtain ⟨c', hs, ⟨-, hc'⟩ | ⟨-, rfl⟩⟩ := reads_nothing hrun halive hc
  · exact .head hs (resolves_closing hrun halive hc')
  · exact .head hs (resolves_waiting hrun halive rfl (by simpa [Connection.Starved] using hw))

/-- A response is written in a call that starts with it. -/
theorem StateOk.resolves_writing (h : StateOk s) (hrun : s.stop = false)
    (halive : s.exited = false) (hc : s.c.connState = .connDealWith) (hw : s.c.Unsent) :
    Resolves s := by
  -- whatever is offered is accepted
  have hans : ∀ n, s.syscall = some (.write n) → 0 < n → Env.accepting.answer s ⟨n, .other⟩ := by
    intro n hcall hn
    constructor <;> intro call hcall' <;> obtain rfl := Option.some.inj (hcall.symm.trans hcall')
    · refine ⟨.inr ⟨by simp, by simp, fun h0 => by simpa using h0⟩, fun hneg => ?_, fun h0 => ?_⟩
      · simp at hneg
      · simpa using h0
    · rfl
  cases hin : s.c.inBatchGet with
  | true =>
      have hcount := hw.2 hin
      obtain ⟨it, rest, hbuf⟩ := List.exists_cons_of_ne_nil (h.control.buffers.mp hin)
      have hat : s.AtSend it rest := ⟨hc, hw.1, hin, hcount, hbuf⟩
      have hpos := h.batch.left_pos hat it List.mem_cons_self
      have hstep := Step.pass hrun halive
        (hans it.left (by simp [State.syscall, hc, hw.1, hin, hcount, hbuf]) hpos)
      refine .act ⟨hrun, hstep⟩ (e := .write (it.buf.load it.offset it.left)) ?_ rfl
      have hne : ¬ (it.left : Int) ≤ 0 := by omega
      simp only [pass, hc, onConnDealWith, hw.1, onWriteBcak, hin, if_true, sendBatch,
        Connection.processed, hcount, UInt16.lt_irrefl, if_false, hbuf, hne, Int.toNat_natCast]
      split <;> simp
  | false =>
      have hpos := h.batch.single hw.1 hin
      have hstep := Step.pass hrun halive
        (hans s.c.retBytes (by simp [State.syscall, hc, hw.1, hin]) hpos)
      refine .act ⟨hrun, hstep⟩ (e := .write (s.c.retBuf.load s.c.retBufOffset s.c.retBytes)) ?_ rfl
      simp [pass, hc, onConnDealWith, hw.1, onWriteBcak, hin, sendSingle, hpos.ne']

/-- **A call resolves.** -/
theorem StateOk.call_resolves (h : StateOk s) (hstop : s.stop = true) (halive : s.exited = false)
    (hevent : s.c.eventAdded = true) :
    ∃ tr s', Call Env.accepting s tr s' ∧ ((∃ e ∈ tr, e.acts) ∨ s'.Resting) := by
  have hres : Resolves (enter s) := by
    have hok := h.ofEnter hstop hevent
    have hctl := h.control.control
    unfold State.ControlAt at hctl
    cases hc : s.c.connState with
    | connRead => exact hok.resolves_reading rfl halive hc
    | connNewCmd =>
        simp only [hc] at hctl
        obtain ⟨-, hs⟩ := silentPass (s := enter s) rfl halive
          (by simp [State.syscall, enter, hc]) ⟨0, .other⟩
        have hok' := hok.step hs.2
        have hpass : pass (enter s) ⟨0, .other⟩ =
            ({ enter s with c := resetCmdHandler s.c, instCount := 1 }, []) := by
          simp [pass, enter, hc, onConnNewCmd, roundNum]
        rw [hpass] at hs hok'
        refine .head hs ?_
        by_cases hrem : s.c.remainingBytes > 0
        · have hc' : resetCmdHandler s.c = s.c.connStateJump .connDealWith := by
            rw [resetCmdHandler, if_pos hrem]
          exact hok'.resolves rfl halive (by simp [hc']) (by simp [hc', hctl])
        · have hc' : resetCmdHandler s.c = s.c.connStateJump .connWaiting := by
            rw [resetCmdHandler, if_neg hrem]
          have hnil : s.c.window = [] := List.eq_nil_of_length_eq_zero (by
            rw [length_window]
            omega)
          refine resolves_waiting rfl halive (by simp [hc']) (.inl ?_)
          simp [hc', hctl, hnil, headerSize]
    | connDealWith =>
        rw [hc] at hctl
        exact hok.resolves_writing rfl halive hc (hctl hstop)
    | connWaiting => simp [hc, hstop] at hctl
    | connClosing => simp [hc, hstop, hevent] at hctl
    | _ => simp [hc] at hctl
  obtain ⟨tr, s', hr, hend⟩ := hres
  exact ⟨tr, s', ⟨hstop, halive, hevent, hr⟩, hend⟩

end MultiportNetwork
