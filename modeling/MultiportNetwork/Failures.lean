import MultiportNetwork.Segmentation
import MultiportNetwork.Server.Returns

/-!
# MultiportNetwork.Failures

What a failure of the socket does to a connection. Where a write fails, or the client has
closed its end, the call at hand closes the connection. An error of `read` is taken for
"no data": `try_read_network` returns `READ_NO_DATA_RECEIVED` whatever `errno` is, and the
connection goes back to waiting for a socket that is dead (`failures_end_iff`).

In the other direction nothing is wrong: a connection whose client sends what it should
is closed by a failure only.
-/

namespace MultiportNetwork

variable {E : Env} {s s' t : State} {r : SysRet} {ev tr : List Event} {stream : Bytes}
  {call : Syscall} {rs : List SysRet}

/-! ### Failures -/

/-- A failure: an error that is not "would block", or the end of the stream where there is
room for more. -/
def Syscall.Fails : Syscall → SysRet → Prop
  | .read n, r => r.ret = -1 ∧ r.wouldBlock = false ∨ r.ret = 0 ∧ 0 < n
  | .write _, r => r.ret = -1 ∧ r.wouldBlock = false

/-- An error of `read`. -/
def Syscall.ReadError : Syscall → SysRet → Prop
  | .read _, r => r.ret = -1 ∧ r.wouldBlock = false
  | .write _, _ => False

theorem Syscall.ReadError.fails (h : call.ReadError r) : call.Fails r := by
  cases call with
  | read => exact .inl h
  | write => cases h

/-- What is possible and no failure is benign. -/
theorem Syscall.benign_of_not_fails {inbox : Bytes} (hret : call.Returns inbox r)
    (h : ¬ call.Fails r) : call.Benign inbox r := by
  refine ⟨hret, fun hneg => ?_, fun hzero => ?_⟩
  · by_contra hb
    rw [Bool.not_eq_true] at hb
    cases call with
    | read => exact h (.inl ⟨hneg, hb⟩)
    | write => exact h ⟨hneg, hb⟩
  · cases call with
    | read n =>
        show n ≤ 0
        exact Int.not_lt.mp fun hpos => h (.inr ⟨hzero, hpos⟩)
    | write n =>
        rcases hret with hneg | ⟨-, -, hnone⟩
        · simp [hzero] at hneg
        · exact hnone hzero

/-! ### Connections that are given up -/

/-- The call at hand ends with the next pass, which closes the connection, and the
connection does not use the table any more. -/
structure ClosesNow (s : State) : Prop where
  ends : ∀ rs t, Run Iteration s rs t → rs.length ≤ 1
  closed : ∀ tr t, Run (Step Env.any) s tr t → t.stop = true →
    t.c.connState = .connClosing ∧ .close ∈ tr
  silent : ∀ tr t, Run (Step Env.any) s tr t → tableCallsOf tr = [] ∧ t.exited = false

theorem pass_closing (hc : s.c.connState = .connClosing) :
    pass s r = ({ s with c := connClose s.c, stop := true }, [.close]) := by
  simp [pass, hc, onConnClosing]

/-- What a connection that is given up has done since, and is. -/
structure GivenUp (tr : List Event) (t : State) : Prop where
  conn : t.c.connState = .connClosing
  alive : t.exited = false
  silent : tableCallsOf tr = []
  closed : t.stop = true → .close ∈ tr ∧ t.c.eventAdded = false

theorem GivenUp.run (hc : s.c.connState = .connClosing) (hrun : s.stop = false)
    (halive : s.exited = false) (hr : Run (Step E) s tr t) : GivenUp tr t := by
  refine hr.relate ⟨hc, halive, rfl, fun hstop => by simp [hrun] at hstop⟩ ?_
  rintro tr a ev b h hs
  cases hs with
  | call hstop _ hevent => simp [(h.closed hstop).2] at hevent
  | others =>
      rw [List.append_nil]
      exact ⟨h.conn, h.alive, h.silent, h.closed⟩
  | pass =>
      rw [pass_closing h.conn]
      refine ⟨by simpa using h.conn, h.alive, ?_, fun _ => ⟨by simp, rfl⟩⟩
      rw [tableCallsOf, List.filterMap_append]
      exact List.append_eq_nil_iff.mpr ⟨h.silent, rfl⟩

/-- **A connection that is given up closes now.** -/
theorem closesNow (hc : s.c.connState = .connClosing) (hrun : s.stop = false)
    (halive : s.exited = false) : ClosesNow s where
  ends rs t hr := by
    have hlen := hr.length_le (I := fun a : State => a.c.connState = .connClosing)
      (fun a => if a.stop then 0 else 1) hc ?_
    · simpa [hrun] using hlen
    rintro a rs b ha hs
    cases hs with
    | pass hgo => simp [pass_closing ha, hgo, ha]
    | others => exact ⟨ha, by simp⟩
  closed tr t hr hstop :=
    have h := GivenUp.run hc hrun halive hr
    ⟨h.conn, (h.closed hstop).1⟩
  silent tr t hr :=
    have h := GivenUp.run hc hrun halive hr
    ⟨h.silent, h.alive⟩

/-! ### Failures close, and nothing else does -/

/-- The three places where a system call is made. -/
theorem State.syscall_cases (hcall : s.syscall = some call) :
    s.c.connState = .connRead ∧ call = .read s.c.avail ∨
      (∃ it rest, s.AtSend it rest ∧ call = .write it.left) ∨
      s.AtSingle ∧ call = .write s.c.retBytes := by
  unfold State.syscall at hcall
  split at hcall
  next hc => exact .inl ⟨hc, (Option.some.inj hcall).symm⟩
  next hc hw =>
    split at hcall
    next hin =>
      split at hcall
      next hcount =>
        obtain ⟨it, hhead, rfl⟩ := Option.map_eq_some_iff.mp hcall
        obtain ⟨rest, hvec⟩ := List.head?_eq_some_iff.mp hhead
        exact .inr (.inl ⟨it, rest, ⟨hc, hw, hin, hcount, hvec⟩, rfl⟩)
      next => cases hcall
    next hin => exact .inr (.inr ⟨⟨hc, hw, by simpa using hin⟩, (Option.some.inj hcall).symm⟩)
  next => cases hcall

/-- A pass that makes a system call neither returns nor exits. -/
theorem pass_syscall (hcall : s.syscall = some call) :
    (pass s r).1.stop = s.stop ∧ (pass s r).1.exited = s.exited := by
  rcases State.syscall_cases hcall with ⟨hc, -⟩ | ⟨it, rest, ha, -⟩ | ⟨ha, -⟩
  · simp only [pass, hc, onConnRead, tryReadNetwork]
    by_cases hpos : r.ret > 0
    · simp [hpos]
    by_cases hzero : r.ret = 0
    · simp [hzero]
    · simp [hpos, hzero]
  · simp [pass, ha.conn, onConnDealWith, ha.work, onWriteBcak]
  · simp [pass, ha.conn, onConnDealWith, ha.work, onWriteBcak]

/-- **A failure gives up the connection**, unless it is an error of `read`. -/
theorem pass_fails (hcall : s.syscall = some call) (hfail : call.Fails r)
    (hread : ¬ call.ReadError r) : (pass s r).1.c.connState = .connClosing := by
  rcases State.syscall_cases hcall with ⟨hc, rfl⟩ | ⟨it, rest, ha, rfl⟩ | ⟨ha, rfl⟩
  · rcases hfail with herr | ⟨hzero, -⟩
    · exact absurd herr hread
    · simp [pass, hc, onConnRead, tryReadNetwork, hzero]
  · obtain ⟨hneg, hb⟩ := hfail
    simp [pass, ha.conn, onConnDealWith, ha.work, onWriteBcak, ha.inBatch, sendBatch, ha.count,
      ha.buffers, hneg, hb]
  · obtain ⟨hneg, hb⟩ := hfail
    simp [pass, ha.conn, onConnDealWith, ha.work, onWriteBcak, ha.inBatch, sendSingle, hneg, hb]

/-- After an error of `read` the connection waits for more. -/
theorem pass_readError (hcall : s.syscall = some call) (herr : call.ReadError r) :
    pass s r = ({ s with c := (compact s.c).connStateJump .connWaiting }, []) := by
  rcases State.syscall_cases hcall with ⟨hc, rfl⟩ | ⟨it, rest, ha, rfl⟩ | ⟨ha, rfl⟩
  · obtain ⟨hneg, hb⟩ := herr
    simp [pass, hc, onConnRead, tryReadNetwork, hneg, hb]
  · cases herr
  · cases herr

/-- A connection whose client sends what it should is given up by a failure only. -/
theorem Init.closes_only {calls : List TableCall} (h : Init stream s)
    (hr : Run (Step E) s tr t) (halive : t.exited = false) (hret : t.returns r)
    (hS : WellFormed (fun r => r.keylen.toNat ≤ r.totalbodylen.toNat) stream calls)
    (hclosing : (pass t r).1.c.connState = .connClosing) (hopen : t.c.connState ≠ .connClosing) :
    ∃ call, t.syscall = some call ∧ call.Fails r := by
  by_contra hno
  have hbenign : t.benign r := fun call hcall =>
    call.benign_of_not_fails (hret call hcall) fun hfail => hno ⟨call, hcall, hfail⟩
  have hok := h.ok.run hr
  have hpass := hok.conserves halive (fun _ => hbenign) (pass_cases hok.control hret)
  rcases h.ok.conservesOrOver_run hr with hcons | ⟨hc, -⟩
  · -- what is given up without a failure is refused, and this stream is not
    have hfinal := hpass.final.trans (hcons.final.trans h.final)
    have hopen' : (pass t r).1.final.outcome = .stillOpen := by rw [hfinal, hS.parse.2]; rfl
    rw [State.outcome_over (.inr hclosing)] at hopen'
    exact (State.outcome_open hopen').2 hclosing
  · exact hopen hc

/-- What a socket's failures should do: they close the connection with the call at hand, and
where the client sends what it should nothing else closes it. -/
structure FailuresEnd (stream : Bytes) (s : State) (r : SysRet) : Prop where
  closes : ∀ call, s.syscall = some call → call.Fails r → ClosesNow (pass s r).1
  only : ∀ calls, WellFormed (fun r => r.keylen.toNat ≤ r.totalbodylen.toNat) stream calls →
    (pass s r).1.c.connState = .connClosing ∨ .close ∈ (pass s r).2 →
      s.c.connState = .connClosing ∨ ∃ call, s.syscall = some call ∧ call.Fails r

/-- **Failures end the connection, unless they are errors of `read`.** -/
theorem failures_end_iff (h : Init stream s) (hr : Run (Step Env.any) s tr t)
    (hrun : t.stop = false) (halive : t.exited = false) (hret : t.returns r) :
    FailuresEnd stream t r ↔ ∀ call, t.syscall = some call → ¬ call.ReadError r := by
  constructor
  · intro hends call hcall herr
    have hclosed := (hends.closes call hcall herr.fails).closed
    -- the pass after the failed `read` returns, with the socket left open
    rw [pass_readError hcall herr] at hclosed
    have hw : t.c.Starved := by
      rcases State.syscall_cases hcall with ⟨hc, -⟩ | ⟨it, rest, ha, rfl⟩ | ⟨ha, rfl⟩
      · exact (h.ok.run hr).control.starved hc
      · cases herr
      · cases herr
    have hstep := hclosed _ _ (.single (.pass (r := r) hrun halive
      fun call hcall => by simp [State.syscall] at hcall))
    rcases hw with ⟨hw, -⟩ | ⟨hw, -⟩ <;> simp [pass, onConnWaiting, hw] at hstep
  · intro hread
    refine ⟨fun call hcall hfail => ?_, fun calls hS hclosing => ?_⟩
    · obtain ⟨hstop', halive'⟩ := pass_syscall (r := r) hcall
      exact closesNow (pass_fails hcall hfail (hread call hcall)) (hstop'.trans hrun)
        (halive'.trans halive)
    · by_cases hopen : t.c.connState = .connClosing
      · exact .inl hopen
      rcases hclosing with hclosing | hclose
      · exact .inr (h.closes_only hr halive hret hS hclosing hopen)
      · exact absurd ((pass_cases (h.ok.run hr).control hret).ending.1 hclose) hopen

/-- A client that sends nothing and closes its end. -/
def hungUp : State × List Event := (State.accepted [] .empty).play Env.any [.call]

theorem failures_end_iff_hungUp : FailuresEnd [] hungUp.1 ⟨0, .other⟩ := by
  refine (failures_end_iff (State.init_accepted []) (State.play_run _ _) (by decide +kernel)
    (by decide +kernel) fun call hcall => ?_).2 fun call hcall herr => ?_
  · cases hcall
    decide +kernel
  · cases hcall
    exact absurd herr.1 (by decide)

/-- The connection of such a client is reset: the `read` that reports it leaves it open. -/
theorem failures_end_reset :
    ¬ ∀ (stream : Bytes) (s t : State) (tr : List Event) (r : SysRet), Init stream s →
      Run (Step Env.any) s tr t → t.stop = false → t.exited = false → t.returns r →
      FailuresEnd stream t r := by
  intro hall
  have hends := hall [] _ hungUp.1 hungUp.2 ⟨-1, .other⟩ (State.init_accepted [])
    (State.play_run _ _) (by decide +kernel) (by decide +kernel) fun call hcall => by
      cases hcall
      decide +kernel
  have hcloses := (hends.closes (.read initReadBufSize) (by decide +kernel)
    (.inl ⟨rfl, rfl⟩)).closed
  have hreturn : Run (Step Env.any) (pass hungUp.1 ⟨-1, .other⟩).1
      ((pass hungUp.1 ⟨-1, .other⟩).1.play Env.any [.ret 0]).2
      ((pass hungUp.1 ⟨-1, .other⟩).1.play Env.any [.ret 0]).1 := State.play_run _ _
  exact absurd (hcloses _ _ hreturn (by decide +kernel)).1 (by decide +kernel)

end MultiportNetwork
