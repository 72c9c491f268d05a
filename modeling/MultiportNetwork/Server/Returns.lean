import MultiportNetwork.Server.Exec
import MultiportNetwork.Server.Progress
import MultiportNetwork.Spec.Stream

/-!
# MultiportNetwork.Server.Returns

When a call of `process_func` returns. The loop has no counter that only goes down,
but inside a call the receive buffer is filled once, at the start, and from then on a
pass either shortens what is left of it or leads to a place of the state machine from
which there are fewer to come (`State.ahead`). So every call returns within a fixed
number of passes, whatever the socket does, except in a batch with more answers than it
wants: there `send_batch` does nothing (`returns_iff`).
-/

namespace MultiportNetwork

variable {s s' t : State} {r : SysRet} {ev : List Event} {stream : Bytes} {rs : List SysRet}

/-! ### Iterations -/

/-- One iteration of `while (!stop)`, with the result of its system call; or, between two,
other connections at the table. -/
inductive Iteration : State → List SysRet → State → Prop
  | pass {s : State} {r : SysRet} (hrun : s.stop = false) (halive : s.exited = false)
      (hans : s.returns r) : Iteration s [r] (pass s r).1
  | others {s : State} {t : HashTable} (halive : s.exited = false) (ht : t.Bounded) :
      Iteration s [] { s with table := t }

/-- A call of `process_func` begun in `s` returns: there is a bound on the number of
iterations, whatever the system calls return. -/
def Returns (s : State) : Prop :=
  ∃ bound, ∀ rs t, Run Iteration (enter s) rs t → rs.length ≤ bound

theorem Iteration.step (h : Iteration s rs s') : ∃ ev, Step Env.any s ev s' := by
  cases h with
  | pass hrun halive hans => exact ⟨_, .pass hrun halive hans⟩
  | others halive ht => exact ⟨[], .others halive ht⟩

/-! ### The measure -/

/-- The places of the state machine, each above those it leads to without parsing a byte. -/
def State.place (s : State) : Nat :=
  match s.c.connState with
  | .connWaiting | .connClosing => 1
  | .connNewCmd | .connRead => 3
  | .connDealWith =>
    match s.c.workState with
    | .parseHead | .readKeyValue => 2
    | .storeKvobj | .writeBcak => 4
    | .queryKey => 5
  | _ => 0

/-- What is in the receive buffer, or may be after the next pass. -/
def State.buffered (s : State) : Nat :=
  if s.c.connState = .connRead then initReadBufSize else s.c.window.length

/-- A bound on the passes ahead in this call. -/
def State.ahead (s : State) : Nat :=
  if s.stop = true ∨ s.exited = true then 0 else 4 * s.buffered + s.place

section
variable (hrun : s.stop = false) (halive : s.exited = false)
include hrun halive

theorem State.ahead_eq : s.ahead = 4 * s.buffered + s.place := by
  simp [State.ahead, hrun, halive]

/-- A pass that ends the call, from a place where the state machine can be. -/
theorem State.ahead_over (hplace : 0 < s.place) (hover : s'.stop = true ∨ s'.exited = true) :
    s'.ahead < s.ahead := by
  rw [State.ahead_eq hrun halive, State.ahead, if_pos hover]
  omega

theorem State.ahead_lt (hlt : 4 * s'.buffered + s'.place < 4 * s.buffered + s.place) :
    s'.ahead < s.ahead := by
  rw [State.ahead_eq hrun halive]
  unfold State.ahead
  split <;> omega

/-- **One pass further**, unless the batch spins. -/
theorem StateOk.pass_ahead (h : StateOk s) (hspin : ¬ s.Spins) (hp : Pass s r s' ev) :
    s'.ahead < s.ahead := by
  have hlt : 4 * s'.buffered + s'.place < 4 * s.buffered + s.place → s'.ahead < s.ahead :=
    State.ahead_lt hrun halive
  have hover : 0 < s.place → s'.stop = true ∨ s'.exited = true → s'.ahead < s.ahead :=
    State.ahead_over hrun halive
  cases hp with
  | headMagic hc hw | headTurn hc hw => exact hover (by simp [State.place, hc, hw]) (.inr rfl)
  | newCmdStop hc | waitWrite hc | waitRead hc | closing hc =>
      exact hover (by simp [State.place, hc]) (.inl rfl)
  | batchSpin hc hw hin hgt => exact absurd ⟨hc, hw, hin, hgt⟩ hspin
  | readData hc hw hpos havail hinbox =>
      have hrecv : WindowOk ((compact s.c).receive (s.inbox.take r.ret.toNat) r.ret) :=
        h.control.window.compact.receive rfl hpos.le havail
      have hfit := hrecv.length_le
      rcases hw with ⟨hw, -⟩ | ⟨hw, -⟩
      all_goals
        simp only [length_window, Connection.receive, compact] at hfit
        refine hlt ?_
        simp [State.buffered, State.place, hc, hw]
        omega
  | readEof hc hw hr | readNone hc hw hr =>
      have hfit := h.control.window.length_le
      refine hlt ?_
      simp only [length_window] at hfit
      simp [State.buffered, State.place, hc]
      omega
  | newCmdMore hc hw hn hne | newCmdIdle hc hw hn hnil =>
      refine hlt ?_
      simp [State.buffered, State.place, hc, hw]
  | headNone hc hw | headShort hc hw | bodyShort hc hw =>
      refine hlt ?_
      simp [State.buffered, State.place, hc, hw]
  | headClosed ha hv =>
      have hlen := ha.length
      refine hlt ?_
      simp only [length_window, headerSize] at hlen
      have hless : 4 * (s.c.remainingBytes.toNat - 12) < 4 * s.c.remainingBytes.toNat + 1 := by
        omega
      simpa only [State.buffered, State.place, ha.conn, ha.work, headerSize, length_window,
        window_advance, window_connStateJump, window_loadHeader, List.length_drop,
        Connection.advance_connState, Connection.connStateJump_connState, reduceCtorEq, if_false,
        add_lt_add_iff_right] using hless
  | headRefused ha hv | headBatch ha hv | headBody ha hv =>
      have hlen := ha.length
      refine hlt ?_
      simp only [length_window, headerSize] at hlen
      simp [State.buffered, State.place, ha.conn, ha.work, headerSize]
      omega
  | bodySet hb hop | bodyGet hb hop =>
      have hkey := Request.keylen_le_of_body hb.verdict
      have hlen := hb.length
      refine hlt ?_
      simp only [RequestHeader.request_keylen, RequestHeader.request_totalbodylen,
        length_window] at hkey hlen
      simp [State.buffered, State.place, hb.conn, hb.work]
      omega
  | store hc hw | query hc hw | batchMore hc hw =>
      refine hlt ?_
      simp [State.buffered, State.place, hc, hw]
  | batchBlocked ha | batchFailed ha | batchDone ha | batchNext ha | batchPart ha
  | singleBlocked ha | singleFailed ha | singleDone ha | singlePart ha =>
      refine hlt ?_
      simp [State.buffered, State.place, ha.conn, ha.work]

end

/-! ### Calls that return -/

/-- The session says where batches spin. -/
theorem Init.not_spins {E : Env} {s₀ : State} {tr : List Event} (h : Init stream s₀)
    (hspin : sessionAfter (.head none) stream ≠ .spinning) (hr : Run (Step E) s₀ tr t)
    (halive : t.exited = false) : ¬ t.Spins := by
  intro hs
  rcases h.ok.conservesOrOver_run hr with hc | ⟨hclosing, -⟩
  · rw [← h.final, ← hc.final, hs.final halive] at hspin
    exact hspin rfl
  · exact absurd (hs.conn.symm.trans hclosing) (by simp)

/-- **Every call returns** within a number of passes that depends on neither the stream nor
the socket, if the session of the stream does not spin. -/
theorem Init.returns {s₀ : State} {tr : List Event} (h : Init stream s₀)
    (hspin : sessionAfter (.head none) stream ≠ .spinning) (hr : Run (Step Env.any) s₀ tr s)
    (hstop : s.stop = true) (halive : s.exited = false) (hevent : s.c.eventAdded = true)
    (hrs : Run Iteration (enter s) rs t) : rs.length ≤ 4 * initReadBufSize + 5 := by
  have hlen : rs.length ≤ (enter s).ahead := by
    refine hrs.length_le (I := fun a : State => ∃ tr, Run (Step Env.any) s₀ tr a) State.ahead
      ⟨_, hr.snoc (.call hstop halive hevent)⟩ ?_
    rintro a rs b ⟨tr, ha⟩ hs
    obtain ⟨ev, hstep⟩ := hs.step
    refine ⟨⟨_, ha.snoc hstep⟩, ?_⟩
    have hok := h.ok.run ha
    cases hs with
    | @pass r hrun halive hans =>
        have hp := pass_cases hok.control hans
        have hlt := hok.pass_ahead hrun halive (h.not_spins hspin ha halive) hp
        rw [List.length_singleton]
        omega
    | others => simp [State.ahead, State.buffered, State.place]
  have hwindow := (h.ok.run hr).control.window.length_le
  have hbuffered : (enter s).buffered ≤ initReadBufSize := by
    unfold State.buffered
    split
    · exact Nat.le_refl _
    · exact hwindow
  have hplace : (enter s).place ≤ 5 := by
    unfold State.place
    split
    all_goals try omega
    split <;> omega
  have hahead : (enter s).ahead ≤ 4 * (enter s).buffered + (enter s).place := by
    unfold State.ahead
    split <;> omega
  omega

/-! ### Calls that do not -/

/-- Where a batch spins, a pass changes nothing that matters. -/
theorem State.Spins.pass (h : s.Spins) (r : SysRet) :
    (pass s r).1.Spins ∧ (pass s r).1.stop = s.stop ∧ (pass s r).1.exited = s.exited := by
  have hlt : ¬ s.c.batchCount < s.c.batchNum := UInt16.not_lt.mpr (UInt16.le_of_lt h.count)
  have hne : s.c.batchCount ≠ s.c.batchNum := fun heq => by simpa [heq] using h.count
  have hpass : (MultiportNetwork.pass s r).1 = { s with c := s.batchConn } := by
    simp [MultiportNetwork.pass, h.conn, onConnDealWith, h.work, onWriteBcak, h.inBatch,
      sendBatch, hlt, hne]
  rw [hpass]
  exact ⟨⟨by simpa using h.conn, by simpa using h.work, by simpa using h.inBatch,
    by simpa using h.count⟩, rfl, rfl⟩

/-- Where a batch spins, there is no end of passes. -/
theorem State.Spins.iterates (h : s.Spins) (hrun : s.stop = false) (halive : s.exited = false)
    (n : Nat) : ∃ rs t, Run Iteration s rs t ∧ rs.length = n := by
  induction n generalizing s with
  | zero => exact ⟨[], s, .refl s, rfl⟩
  | succ n ih =>
      have hne : s.c.batchCount ≠ s.c.batchNum := fun heq => by simpa [heq] using h.count
      have hans : s.returns ⟨0, .other⟩ := by
        intro call hcall
        simp [State.syscall, h.conn, h.work, h.inBatch, hne] at hcall
      obtain ⟨hs, hrun', halive'⟩ := h.pass ⟨0, .other⟩
      obtain ⟨rs, t, hr, hlen⟩ := ih hs (hrun'.trans hrun) (halive'.trans halive)
      exact ⟨_, t, hr.head (.pass hrun halive hans), by simp [hlen]⟩

/-- What runs has been called. -/
theorem Solo.lastCall {tr : List Event} (hstop : s.stop = true) (hr : Run (Solo Env.any) s tr t)
    (hrun : t.stop = false) :
    ∃ tr' a rs, Run (Step Env.any) s tr' a ∧ a.stop = true ∧ a.exited = false ∧
      a.c.eventAdded = true ∧ Run Iteration (enter a) rs t := by
  induction hr with
  | refl => simp [hstop] at hrun
  | snoc hr hs ih =>
      cases hs with
      | call hstop halive hevent =>
          exact ⟨_, _, [], hr.mono fun _ _ _ hs => hs.step, hstop, halive, hevent, .refl _⟩
      | pass hgo halive hans =>
          obtain ⟨tr', a, rs, ha, hstop', halive', hevent, hrs⟩ := ih hgo
          exact ⟨tr', a, _, ha, hstop', halive', hevent, hrs.snoc (.pass hgo halive hans)⟩

/-- **Some call does not return**, if the session of the stream spins. -/
theorem Init.stuck {s₀ : State} (h : Init stream s₀)
    (hspin : sessionAfter (.head none) stream = .spinning) :
    ∃ tr s, Run (Step Env.any) s₀ tr s ∧ s.stop = true ∧ s.exited = false ∧
      s.c.eventAdded = true ∧ ¬ Returns s := by
  obtain ⟨tr, t, hr, halive, hspins⟩ := h.carried_away hspin
  have hok : StateOk t := h.ok.run (hr.mono fun _ _ _ hs => hs.step)
  have hrun : t.stop = false := by
    have hctl := hok.control.control
    simp only [State.ControlAt, hspins.conn] at hctl
    by_contra hstop
    have hcount := (hctl (by simpa using hstop)).2 hspins.inBatch
    simpa [hcount] using hspins.count
  obtain ⟨tr', s, rs, hs, hstop, halive', hevent, hrs⟩ :=
    Solo.lastCall h.stop (hr.mono fun _ _ _ hs => hs.any) hrun
  refine ⟨tr', s, hs, hstop, halive', hevent, ?_⟩
  rintro ⟨bound, hbound⟩
  obtain ⟨rs', u, hrs', hlen⟩ := hspins.iterates hrun halive (bound + 1)
  have hle := hbound _ _ (hrs.trans hrs')
  rw [List.length_append] at hle
  omega

/-! ### Which streams these are -/

/-- Among the commands is a GET behind a batch head with number 0, with no other batch head
or GET between them. The flag says that such a head has gone before. -/
def overanswered : Bool → List Command → Bool
  | _, [] => false
  | _, .batchHead n :: cs => overanswered (n == 0) cs
  | zero, .get _ :: cs => zero || overanswered false cs
  | zero, .set .. :: cs => overanswered zero cs
  | zero, .refused _ :: cs => overanswered zero cs

/-- The batch of a session that waits. -/
def Session.batch : Session → Option Batch
  | .head b => b
  | .body _ _ b => b
  | _ => none

/-- A batch that waits for a GET wants one, or wanted none from the start. -/
def Session.Wanting (a : Session) : Prop :=
  ∀ b ∈ a.batch, b.count < b.num ∨ b = ⟨0, 0⟩

/-- A batch head with number 0 has opened it, and no GET has been answered. -/
def Session.zeroOpen (a : Session) : Bool := decide (a.batch = some ⟨0, 0⟩)

@[simp] theorem Session.zeroOpen_head (b : Option Batch) :
    (head b).zeroOpen = decide (b = some ⟨0, 0⟩) := rfl

@[simp] theorem Session.zeroOpen_body (q : Request) (hq : q.verdict = .body)
    (b : Option Batch) : (body q hq b).zeroOpen = decide (b = some ⟨0, 0⟩) := rfl

/-- One more GET spins exactly in a batch that wanted none; after it the batch wants
another one, or is over. -/
theorem afterGet_wanting {b : Option Batch} (hb : ∀ x ∈ b, x.count < x.num ∨ x = ⟨0, 0⟩) :
    afterGet b = .spinning ∧ b = some ⟨0, 0⟩ ∨
      b ≠ some ⟨0, 0⟩ ∧ ∃ b', afterGet b = .head b' ∧ b' ≠ some ⟨0, 0⟩ ∧
        ∀ x ∈ b', x.count < x.num ∨ x = ⟨0, 0⟩ := by
  cases b with
  | none => exact .inr ⟨by simp, none, rfl, by simp, by simp⟩
  | some x =>
      rcases hb x rfl with hlt | rfl
      · right
        have hzero : some x ≠ some ⟨0, 0⟩ := by
          rintro ⟨⟩
          simp at hlt
        rw [UInt16.lt_iff_toNat_lt] at hlt
        have hnum := x.num.toNat_lt
        have hsucc : (x.count + 1).toNat = x.count.toNat + 1 := by
          rw [UInt16.toNat_add, UInt16.toNat_one]
          omega
        refine ⟨hzero, ?_⟩
        by_cases hmore : x.count + 1 < x.num
        · refine ⟨some ⟨x.num, x.count + 1⟩, by simp [afterGet, Batch.settle, hmore], ?_, ?_⟩
          · intro heq
            obtain ⟨hn, -⟩ := Batch.mk.inj (Option.some.inj heq)
            simp [hn] at hmore
          · rintro y ⟨⟩
            exact .inl hmore
        · have heq : x.count + 1 = x.num := by
            rw [UInt16.lt_iff_toNat_lt] at hmore
            rw [← UInt16.toNat_inj]
            omega
          exact ⟨none, by simp [afterGet, Batch.settle, heq], by simp, by simp⟩
      · exact .inl ⟨rfl, rfl⟩

/-- **A stream spins** if and only if a GET follows a batch head with number 0. -/
theorem sessionAfter_spinning_iff (a : Session) (bs : Bytes) (ha : a.Wanting) :
    sessionAfter a bs = .spinning ↔
      a = .spinning ∨ overanswered a.zeroOpen (commandsIn a bs) = true := by
  induction a, bs using sessionFramer.parse_induction with
  | wait a bs hf => simp [sessionAfter_none hf, commandsIn_none hf, overanswered]
  | take a bs n o a' hf ih =>
      have hover : ∀ xs, sessionAfter .spinning xs = .spinning := fun _ => sessionAfter_none rfl
      have hclosed : ∀ xs, sessionAfter .closed xs ≠ .spinning ∧ commandsIn .closed xs = [] :=
        fun _ => ⟨by rw [sessionAfter_none rfl]; simp, commandsIn_none rfl⟩
      have hexited : ∀ xs, sessionAfter .exited xs ≠ .spinning ∧ commandsIn .exited xs = [] :=
        fun _ => ⟨by rw [sessionAfter_none rfl]; simp, commandsIn_none rfl⟩
      rw [sessionAfter_some hf, commandsIn_some hf]
      cases a with
      | closed | exited | spinning => cases hf
      | head b =>
          have hf' : frameHead b bs = some (n, o, a') := hf
          cases bs with
          | nil => cases hf'
          | cons x bs =>
              simp only [frameHead] at hf'
              split at hf'
              · cases hf'
                simp [hexited, overanswered]
              split at hf'
              · cases hf'
              obtain ⟨-, hreq⟩ := Prod.mk.inj (Option.some.inj hf')
              unfold onRequest at hreq
              split at hreq
              · cases hreq
                simp [hexited, overanswered]
              split at hreq
              all_goals cases hreq
              · simp [hclosed, overanswered]
              · simpa [overanswered] using ih ha
              · refine (ih ?_).trans ?_
                · rintro y ⟨⟩
                  simp [or_iff_not_imp_right, UInt16.pos_iff_ne_zero]
                · simp [overanswered, Bool.beq_eq_decide_eq]
              · simpa using ih ha
      | body q hq b =>
          have hf' : frameBody q b bs = some (n, o, a') := hf
          unfold frameBody at hf'
          split at hf'
          · split at hf'
            · cases hf'
            · cases hf'
              simp [hclosed, overanswered]
          split at hf'
          · cases hf'
          cases hf'
          have hb : ∀ x ∈ b, x.count < x.num ∨ x = ⟨0, 0⟩ := ha
          by_cases hset : q.opcode.toNat = cmdSet
          · simp only [afterBody, bodyCommand, hset, if_true] at ih ⊢
            simpa [overanswered] using ih ha
          · simp only [afterBody, bodyCommand, hset, if_false] at ih ⊢
            rcases afterGet_wanting hb with ⟨hspin, rfl⟩ | ⟨hne, b', hb', hne', hwant⟩
            · rw [hspin]
              simp [hover, overanswered]
            · rw [hb'] at ih ⊢
              simpa [overanswered, hne, hne'] using ih hwant

/-! ### Termination -/

/-- **Termination of `process_func`.** Every call on a connection returns, in every state
the connection can reach and whatever the socket does, if and only if no GET of its stream
follows a batch head with number 0. -/
theorem returns_iff {s₀ : State} (h : Init stream s₀) :
    (∀ tr s, Run (Step Env.any) s₀ tr s → s.stop = true → s.exited = false →
        s.c.eventAdded = true → Returns s) ↔
      overanswered false (commandsIn (.head none) stream) = false := by
  have hiff := sessionAfter_spinning_iff (.head none) stream (fun b hb => by cases hb)
  rw [Session.zeroOpen_head, decide_eq_false (by simp)] at hiff
  constructor
  · intro hall
    by_contra hover
    have hspin := hiff.mpr (.inr (by simpa using hover))
    obtain ⟨tr, s, hr, hstop, halive, hevent, hnot⟩ := h.stuck hspin
    exact hnot (hall tr s hr hstop halive hevent)
  · intro hover tr s hr hstop halive hevent
    have hspin : sessionAfter (.head none) stream ≠ .spinning := by simp [hiff, hover]
    exact ⟨_, fun rs t hrs => h.returns hspin hr hstop halive hevent hrs⟩

theorem returns_iff_set :
    overanswered false (commandsIn (.head none) ((Packet.smallSet 107).bytes ++ [])) = false ∧
      ∀ tr s, Run (Step Env.any) (.accepted ((Packet.smallSet 107).bytes ++ []) .empty) tr s →
        s.stop = true → s.exited = false → s.c.eventAdded = true → Returns s := by
  have hover :
      overanswered false (commandsIn (.head none) ((Packet.smallSet 107).bytes ++ [])) = false := by
    rw [(Packet.isSet_smallSet 107).parse.1, commandsIn_none rfl]
    rfl
  exact ⟨hover, (returns_iff (State.init_accepted _)).mpr hover⟩

/-- A batch of none and a GET in it. -/
def zeroBatch : Bytes := (Packet.batchHead 0 0 0).bytes ++ ((Packet.smallGet 107 0).bytes ++ [])

theorem returns_zeroBatch :
    ¬ ∀ (stream : Bytes) (s₀ s : State) (tr : List Event), Init stream s₀ →
      Run (Step Env.any) s₀ tr s → s.stop = true → s.exited = false →
      s.c.eventAdded = true → Returns s := by
  intro hall
  have hframe : (Session.head none).frame zeroBatch =
      some (headerSize, [.batchHead 0], .head (some ⟨0, 0⟩)) := rfl
  have hget := ((Packet.isGet_smallGet 107 0).parse (b := some ⟨0, 0⟩) (S := [])
    (fun x hx => by cases hx; rfl)).2
  have hspin : sessionAfter (.head none) zeroBatch = .spinning := by
    rw [sessionAfter_some hframe]
    exact hget.trans (sessionAfter_none rfl)
  have hinit := State.init_accepted zeroBatch
  obtain ⟨tr, s, hr, hstop, halive, hevent, hnot⟩ := hinit.stuck hspin
  exact hnot (hall _ _ _ _ hinit hr hstop halive hevent)

end MultiportNetwork
