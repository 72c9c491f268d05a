import MultiportNetwork.Batch
import MultiportNetwork.Segmentation

/-!
# MultiportNetwork.Stranded

What a call of `process_func` leaves behind when it returns: commands it has not
executed, and answers it has not sent. The event is registered for input only, so
both wait until the client sends something more.

Commands are left behind by `conn_new_cmd`, which ends a call after `ROUND_NUM`
rounds whatever is still in the receive buffer (`stranded_command_iff`); answers by
`send_batch`, which writes one buffer and then lets `conn_waiting` end the call
(`stranded_answer_none`).
-/

namespace MultiportNetwork

variable {E : Env} {s s' t t' : State} {r : SysRet} {ev tr tr₀ : List Event} {stream : Bytes}

/-! ### Rounds -/

/-- Is it a command for the server to carry out? -/
def Command.wellFormed : Command → Bool
  | .refused _ => false
  | _ => true

theorem tableCalls_refused {cs : List Command} (h : ∀ x ∈ cs, ¬ x.wellFormed) :
    tableCalls cs = [] := by
  refine List.filterMap_eq_nil_iff.mpr fun c hc => ?_
  have := h c hc
  cases c with
  | refused q => rfl
  | _ => exact absurd rfl this

/-- The commands that lie complete in the receive buffer. -/
def Connection.held (c : Connection) : List Command := commandsIn c.session c.window

/-- What follows the `n`-th SET or GET. -/
def afterCalls : Nat → List Command → List Command
  | 0, cs => cs
  | _ + 1, [] => []
  | n + 1, c :: cs => if c.tableCall.isSome then afterCalls n cs else afterCalls (n + 1) cs

theorem tableCalls_cons (c : Command) (cs : List Command) :
    tableCalls (c :: cs) = c.tableCall.toList ++ tableCalls cs := by
  cases h : c.tableCall <;> simp [tableCalls, h]

theorem afterCalls_short {n : Nat} {cs : List Command} (h : (tableCalls cs).length < n) :
    afterCalls n cs = [] := by
  induction cs generalizing n with
  | nil =>
      obtain ⟨m, rfl⟩ := Nat.exists_eq_succ_of_ne_zero (Nat.ne_of_gt h)
      rfl
  | cons c cs ih =>
      obtain ⟨m, rfl⟩ := Nat.exists_eq_succ_of_ne_zero (Nat.ne_of_gt (Nat.zero_lt_of_lt h))
      rw [tableCalls_cons, List.length_append] at h
      rw [afterCalls]
      split
      next hc =>
        obtain ⟨x, hx⟩ := Option.isSome_iff_exists.mp hc
        rw [hx, Option.toList_some, List.length_singleton] at h
        exact ih (by omega)
      next => exact ih (by omega)

/-- A SET or GET behind `n` of them is the `n + 1`-st. -/
theorem afterCalls_snoc {c : Command} (hc : c.tableCall.isSome = true) (cs ys : List Command) :
    afterCalls ((tableCalls cs).length + 1) (cs ++ c :: ys) = ys := by
  induction cs with
  | nil => simp [afterCalls, hc]
  | cons x cs ih =>
      rw [List.cons_append, afterCalls, tableCalls_cons, List.length_append]
      cases hx : x.tableCall with
      | none =>
          simp only [Option.isSome_none, Bool.false_eq_true, if_false, Option.toList_none,
            List.length_nil, Nat.zero_add]
          exact ih
      | some call =>
          simp only [Option.isSome_some, if_true, Option.toList_some, List.length_singleton]
          rw [Nat.add_comm 1]
          exact ih

/-- A command has been executed, and `conn_new_cmd` has not counted it yet. -/
def State.Due (s : State) : Prop := s.c.connState = .connNewCmd ∨ s.c.workState = .writeBcak

instance (s : State) : Decidable s.Due := inferInstanceAs (Decidable (_ ∨ _))

/-- How many commands a call that begins in `s` can execute. One of the rounds goes to
a command that an earlier call has executed already. -/
def State.room (s : State) : Nat := if s.Due then roundNum - 1 else roundNum

/-- The rounds of this call are used up. -/
def State.Spent (s : State) : Prop := s.stop = true ∧ s.c.connState = .connNewCmd

instance (s : State) : Decidable s.Spent := inferInstanceAs (Decidable (_ ∧ _))

/-- The rounds of a call that began in `s` and has emitted `tr`. -/
structure Paced (s : State) (tr : List Event) (t : State) : Prop where
  count : t.instCount + (if t.Due ∧ ¬ t.Spent then 1 else 0) + s.room =
    roundNum + (tableCalls (executed tr)).length
  round : ¬ t.Spent → t.instCount < roundNum
  spent : t.Spent → t.instCount = roundNum
  /-- Nothing has been parsed since the last SET or GET. -/
  last : t.Due → ∀ ys, afterCalls (tableCalls (executed tr)).length (executed tr ++ ys) = ys

theorem State.not_spent (hrun : s.stop = false) : ¬ s.Spent := by
  simp [State.Spent, hrun]

/-- A step that executes nothing and counts nothing. -/
theorem Paced.quiet (h : Paced s tr t) (hspent : ¬ t.Spent) (hspent' : ¬ t'.Spent)
    (hdue : t'.Due ↔ t.Due) (hev : executed ev = [] := by rfl)
    (hinst : t'.instCount = t.instCount := by rfl) : Paced s (tr ++ ev) t' := by
  have hexec : executed (tr ++ ev) = executed tr := by rw [executed_append, hev, List.append_nil]
  refine ⟨?_, fun _ => hinst ▸ h.round hspent, fun hs => absurd hs hspent', fun hd => ?_⟩
  · have hcount := h.count
    simp only [hspent, hspent', not_false_eq_true, and_true, hdue, hinst, hexec] at hcount ⊢
    exact hcount
  · rw [hexec]
    exact h.last (hdue.mp hd)

/-- A header that has been parsed. -/
theorem Paced.parsed (h : Paced s tr t) (hspent : ¬ t.Spent) (hdue : ¬ t.Due) (hdue' : ¬ t'.Due)
    (hev : tableCalls (executed ev) = []) (hinst : t'.instCount = t.instCount := by rfl) :
    Paced s (tr ++ ev) t' := by
  have hspent' : ¬ t'.Spent := fun hs => hdue' (.inl hs.2)
  have hexec : tableCalls (executed (tr ++ ev)) = tableCalls (executed tr) := by
    rw [executed_append, tableCalls_append, hev, List.append_nil]
  refine ⟨?_, fun _ => hinst ▸ h.round hspent, fun hs => absurd hs hspent',
    fun hd => absurd hd hdue'⟩
  have hcount := h.count
  simp only [hdue, hdue', false_and, if_false, hinst, hexec] at hcount ⊢
  exact hcount

/-- A SET or GET that has been executed. -/
theorem Paced.act (h : Paced s tr t) (hspent : ¬ t.Spent) (hspent' : ¬ t'.Spent) (hdue : ¬ t.Due)
    (hdue' : t'.Due) {c : Command} (hc : c.tableCall.isSome = true)
    (hev : executed ev = [c] := by rfl) (hinst : t'.instCount = t.instCount := by rfl) :
    Paced s (tr ++ ev) t' := by
  obtain ⟨x, hx⟩ := Option.isSome_iff_exists.mp hc
  have hlen : (tableCalls (executed (tr ++ ev))).length =
      (tableCalls (executed tr)).length + 1 := by
    rw [executed_append, tableCalls_append, hev, tableCalls_cons, hx]
    simp
  refine ⟨?_, fun _ => hinst ▸ h.round hspent, fun hs => absurd hs hspent', fun _ ys => ?_⟩
  · have hcount := h.count
    simp only [hdue, hdue', hspent', not_false_eq_true, and_true, false_and, if_false, if_true,
      hinst, hlen] at hcount ⊢
    omega
  · rw [hlen, executed_append, hev, List.append_assoc]
    exact afterCalls_snoc hc _ ys

/-- `conn_new_cmd` counts a command. -/
theorem Paced.counted (h : Paced s tr t) (hrun : t.stop = false) (hc : t.c.connState = .connNewCmd)
    (hinst : t'.instCount = t.instCount + 1 := by rfl)
    (hmore : ¬ t'.Spent → t.instCount + 1 < roundNum ∧ ¬ t'.Due)
    (hspent' : t'.Spent → roundNum ≤ t.instCount + 1) (hdue' : t'.Due → t'.Spent) :
    Paced s (tr ++ []) t' := by
  have hspent := State.not_spent hrun
  have hround := h.round hspent
  have hdue : t.Due := .inl hc
  refine ⟨?_, fun hs => hinst ▸ (hmore hs).1, fun hs => ?_, fun _ => ?_⟩
  · have hcount := h.count
    have hnot : ¬ (t'.Due ∧ ¬ t'.Spent) := fun hd => hd.2 (hdue' hd.1)
    rw [if_pos ⟨hdue, hspent⟩] at hcount
    rw [List.append_nil, if_neg hnot, hinst]
    exact hcount
  · have := hspent' hs
    omega
  · rw [List.append_nil]
    exact h.last hdue

/-- **A pass keeps the rounds.** -/
theorem Paced.pass (h : Paced s tr t) (hrun : t.stop = false)
    (hp : Pass t r t' ev) : Paced s (tr ++ ev) t' := by
  have hspent := State.not_spent hrun
  cases hp with
  | newCmdMore hc hw hn hwin =>
      have hdue' : ¬ State.Due { t with
          c := t.c.connStateJump .connDealWith, instCount := t.instCount + 1 } := by
        simp [State.Due, hw]
      exact h.counted hrun hc rfl (fun _ => ⟨hn, hdue'⟩) (by simp [State.Spent]) (absurd · hdue')
  | newCmdIdle hc hw hn hwin =>
      have hdue' : ¬ State.Due { t with
          c := t.c.connStateJump .connWaiting, instCount := t.instCount + 1 } := by
        simp [State.Due, hw]
      exact h.counted hrun hc rfl (fun _ => ⟨hn, hdue'⟩) (by simp [State.Spent]) (absurd · hdue')
  | newCmdStop hc hw hn =>
      have hspent' : State.Spent { t with instCount := t.instCount + 1, stop := true } := ⟨rfl, hc⟩
      exact h.counted hrun hc rfl (absurd hspent') (fun _ => hn) (fun _ => hspent')
  | headClosed ha hv | headRefused ha hv | headBatch ha hv | headBody ha hv =>
      refine h.parsed hspent (by simp [State.Due, ha.conn, ha.work])
        (by simp [State.Due, ha.conn, ha.work]) ?_
      rw [tableCalls_executed]
      rfl
  | store hc hw =>
      exact h.act hspent (by simp [State.Spent, hrun]) (by simp [State.Due, hc, hw])
        (by simp [State.Due]) (c := .set t.c.key t.c.value) rfl
  | query hc hw =>
      exact h.act hspent (by simp [State.Spent, hrun]) (by simp [State.Due, hc, hw])
        (by simp [State.Due]) (c := .get t.c.key) rfl
  | batchDone ha hpos hall | singleDone ha hpos hall =>
      exact h.quiet hspent (by simp [State.Spent, hrun]) (by simp [State.Due, ha.work])
  | batchMore hc hw hin hlt =>
      exact h.quiet hspent (by simp [State.Spent, hrun]) (by simp [State.Due, hw])
  | bodySet hb hop | bodyGet hb hop =>
      exact h.quiet hspent (by simp [State.Spent, hrun]) (by simp [State.Due, hb.conn, hb.work])
  | batchBlocked ha hr hb | batchFailed ha hr hb | batchNext ha hrest hpos hall
  | batchPart ha hpos hpart | singleBlocked ha hr hb | singleFailed ha hr hb
  | singlePart ha hpos hpart =>
      exact h.quiet hspent (by simp [State.Spent]) (by simp [State.Due, ha.conn])
  | closing hc => exact h.quiet hspent (by simp [State.Spent, hc]) .rfl
  | headMagic hc | headTurn hc | batchSpin hc =>
      exact h.quiet hspent (by simp [State.Spent, hc]) .rfl
  | readData hc | readEof hc | readNone hc | headNone hc | headShort hc | bodyShort hc
  | waitWrite hc | waitRead hc =>
      exact h.quiet hspent (by simp [State.Spent]) (by simp [State.Due, hc])

/-- **The rounds of a call.** -/
theorem Call.paced (hok : StateOk s) (h : Call E s tr t) : Paced s tr t := by
  have hstart : Paced s [] (enter s) := by
    have hspent : ¬ (enter s).Spent := State.not_spent rfl
    have hdue : (enter s).Due ↔ s.Due := .rfl
    refine ⟨?_, fun _ => (by decide : 0 < roundNum), fun hs => absurd hs hspent,
      fun _ ys => by simp [afterCalls]⟩
    simp only [hspent, hdue, State.room, not_false_eq_true, and_true]
    split <;> rfl
  exact h.along hok hstart
    (fun _ hpaced => ⟨hpaced.count, hpaced.round, hpaced.spent, hpaced.last⟩)
    fun _ hrun _ hpaced hp => hpaced.pass hrun hp

/-! ### Commands left behind -/

/-- What a call leaves in the receive buffer, when it returns with everything read and
nothing to send, is what follows the last command it had room for. -/
theorem Call.held_eq (hok : StateOk s) (h : Call E s tr t) (hstop : t.stop = true)
    (hopen : t.outcome = .stillOpen) (hsent : t.c.workState ≠ .writeBcak) (hread : t.inbox = []) :
    t.c.held = afterCalls s.room s.forecast := by
  obtain ⟨halive, hcl⟩ := State.outcome_open hopen
  have hok' := hok.run h.toRun
  have hpaced := h.paced hok
  have hcons : executed tr ++ t.forecast = s.forecast := by
    rcases hok.conservesOrOver_run h.toRun with hcons | ⟨hc, -⟩
    · exact hcons.forecast
    · exact absurd hc hcl
  have hctl := hok'.control.control
  have hnotdeal : t.c.connState ≠ .connDealWith := fun hc => by
    simp only [State.ControlAt, hc] at hctl
    exact hsent (hctl hstop).1
  have hheld : t.forecast = t.c.held := by
    have hpending : t.pending = [] := by simp [State.pending, hnotdeal]
    rw [State.forecast, hpending, State.session_open halive hcl, State.unparsed, hread,
      List.append_nil, List.nil_append, Connection.held]
  have hcount := hpaced.count
  by_cases hc : t.c.connState = .connNewCmd
  · -- the rounds were used up
    have hspent : t.Spent := ⟨hstop, hc⟩
    have hdue : t.Due := .inl hc
    rw [if_neg (fun hd => hd.2 hspent), hpaced.spent hspent] at hcount
    have hroom : s.room = (tableCalls (executed tr)).length := by omega
    rw [← hheld, ← hcons, hroom]
    exact (hpaced.last hdue _).symm
  · -- the connection waits for input
    have hspent : ¬ t.Spent := fun hs => hc hs.2
    have hdue : ¬ t.Due := by simp [State.Due, hc, hsent]
    have hw : t.c.Starved := by
      unfold State.ControlAt at hctl
      cases hcs : t.c.connState with
      | connRead => simpa only [hcs] using hctl
      | connNewCmd => exact absurd hcs hc
      | connDealWith => exact absurd hcs hnotdeal
      | connClosing => exact absurd hcs hcl
      | _ => simp [hcs, hstop] at hctl
    have hnil := (hok'.forecast_starved halive hcl hw hread).1
    rw [if_neg (fun hd => hdue hd.1)] at hcount
    have hround := hpaced.round hspent
    rw [hnil, List.append_nil] at hcons
    rw [← hheld, hnil, afterCalls_short]
    rw [← hcons]
    omega

/-- **No stranded command**, when a call returns with everything read and nothing to
send, if and only if no command follows the last one the call had room for. -/
theorem stranded_command_iff (h : Init stream s') (h₀ : Run (Step Env.any) s' tr₀ s)
    (hcall : Call Env.any s tr t) (hstop : t.stop = true) (hopen : t.outcome = .stillOpen)
    (hsent : t.c.workState ≠ .writeBcak) (hread : t.inbox = []) :
    (∀ x ∈ t.c.held, ¬ x.wellFormed) ↔ ∀ x ∈ afterCalls s.room s.forecast, ¬ x.wellFormed := by
  rw [hcall.held_eq (h.ok.run h₀) hstop hopen hsent hread]

/-- `n` SETs in one stream. -/
def manySets (n : Nat) : Bytes := (List.replicate n (Packet.smallSet 107).bytes).flatten

theorem wellFormed_manySets (n : Nat) :
    WellFormed (fun r => r.keylen.toNat ≤ r.totalbodylen.toNat) (manySets n)
      (List.replicate n
        (.insertOrAssign (Packet.smallSet 107).key (Packet.smallSet 107).value)) := by
  induction n with
  | zero => exact .nil
  | succ n ih =>
      rw [manySets, List.replicate_succ, List.flatten_cons, List.replicate_succ]
      exact .set (Packet.isSet_smallSet 107) ih

/-- A call that reads `n` SETs at once and goes on for `passes` passes. -/
def callManySets (n passes : Nat) : State × List Event :=
  (enter (.accepted (manySets n) .empty)).play Env.any
    ((⟨(manySets n).length, .other⟩ :: List.replicate passes ⟨0, .other⟩).map .pass)

/-- Two SETs are within the rounds of a call. -/
theorem stranded_command_iff_two :
    (callManySets 2 9).1.stop = true ∧ ∀ x ∈ (callManySets 2 9).1.c.held, ¬ x.wellFormed := by
  have hinit := State.init_accepted (manySets 2)
  have hcall : Call Env.any _ (callManySets 2 9).2 (callManySets 2 9).1 :=
    State.play_call rfl rfl rfl _
  have hstop : (callManySets 2 9).1.stop = true := by decide +kernel
  refine ⟨hstop, (stranded_command_iff hinit (.refl _) hcall hstop (by decide +kernel)
    (by decide +kernel) (by decide +kernel)).mpr ?_⟩
  rw [hinit.forecast, afterCalls_short]
  · simp
  · rw [(wellFormed_manySets 2).parse.1]
    decide +kernel

/-- Of twenty-one SETs the last one stays in the receive buffer. -/
theorem stranded_command_twentyOne :
    ¬ ∀ (stream : Bytes) (s' s t : State) (tr₀ tr : List Event), Init stream s' →
      Run (Step Env.any) s' tr₀ s → Call Env.any s tr t → t.stop = true →
      t.outcome = .stillOpen → t.c.workState ≠ .writeBcak → t.inbox = [] →
      ∀ x ∈ t.c.held, ¬ x.wellFormed := by
  intro hall
  have hinit := State.init_accepted (manySets 21)
  have hcall : Call Env.any _ (callManySets 21 80).2 (callManySets 21 80).1 :=
    State.play_call rfl rfl rfl _
  obtain ⟨hstop, hopen, hread, hwork, hbatch, hwindow⟩ :
      (callManySets 21 80).1.stop = true ∧ (callManySets 21 80).1.outcome = .stillOpen ∧
        (callManySets 21 80).1.inbox = [] ∧ (callManySets 21 80).1.c.workState = .parseHead ∧
        (callManySets 21 80).1.c.batch = none ∧
        (callManySets 21 80).1.c.window = manySets 1 := by
    decide +kernel
  have hsession : (callManySets 21 80).1.c.session = .head none := by
    rw [Connection.session_head hwork, hbatch]
  have hnone := hall _ _ _ _ _ _ hinit (.refl _) hcall hstop hopen (by simp [hwork]) hread
  have hcalls := (wellFormed_manySets 1).parse.1
  rw [Connection.held, hwindow, hsession] at hnone
  rw [tableCalls_refused hnone] at hcalls
  cases hcalls

/-! ### Answers left behind -/

/-- A socket that takes everything it is given; what it has to read, and whether it
fails to, is left open. -/
def Env.writing : Env :=
  Env.any.restrict fun s r => ∀ call, s.syscall = some call → call.WritesAll r

/-- The bytes of answers that have been built and not been sent. -/
def Connection.unsentBytes (c : Connection) : Nat :=
  (if c.workState = .writeBcak ∧ c.inBatchGet = false then c.retBytes else 0) +
    leftIn c.batchRetVector

/-- The next pass does not open a batch that wants no answers while there are answers in
the buffers. -/
def State.HeadsWanted (s : State) : Prop :=
  s.AtHead → (Request.decode s.c.window).verdict = .batchHead →
    (Request.decode s.c.window).batchnum = 0 → leftIn s.c.batchRetVector = 0

/-- Only such passes happen. -/
def Env.headsWanted : Env := Env.any.restrict fun s _ => s.HeadsWanted

/-- The next pass neither writes one of several buffers, nor opens such a batch. -/
structure State.Undivided (s : State) : Prop where
  sends : s.c.connState = .connDealWith → s.c.workState = .writeBcak → s.c.inBatchGet = true →
    s.c.batchCount = s.c.batchNum → s.c.batchRetVector.length = 1
  heads : s.HeadsWanted

/-- `E`, where only undivided passes happen. -/
def Env.undivided (E : Env) : Env := E.restrict fun s _ => s.Undivided

/-- A batch that wants no answers has none. -/
def Connection.Barren (c : Connection) : Prop :=
  c.inBatchGet = true → c.batchNum = 0 → c.workState ≠ .writeBcak → leftIn c.batchRetVector = 0

theorem Connection.Barren.congr {c c' : Connection} (h : c.Barren)
    (hwork : c.workState = .writeBcak → c'.workState = .writeBcak := by simp)
    (hin : c'.inBatchGet = c.inBatchGet := by simp) (hnum : c'.batchNum = c.batchNum := by simp)
    (hvec : c'.batchRetVector = c.batchRetVector := by simp) : c'.Barren := by
  intro hin' hnum' hwork'
  rw [hvec]
  exact h (hin ▸ hin') (hnum ▸ hnum') fun hw => hwork' (hwork hw)

theorem Connection.Barren.pass (h : s.c.Barren) (hheads : s.HeadsWanted)
    (hp : Pass s r s' ev) : s'.c.Barren := by
  cases hp with
  | headBatch ha hv =>
      intro _ hnum _
      have hzero : (Request.decode s.c.window).batchnum = 0 := by
        rw [← loadHeader_batchnum ha.length]
        simpa using hnum
      simpa [left_fresh] using hheads ha hv hzero
  | query hc hw => intro _ _ hne; simp at hne
  | batchMore hc hw hin hlt =>
      intro _ hnum _
      have hzero : s.c.batchNum = 0 := by simpa using hnum
      simp [hzero] at hlt
  | batchDone ha hpos hall => intro hin; simp at hin
  | singleDone ha hpos hall => intro hin; simp [ha.inBatch] at hin
  | batchNext ha | batchPart ha => intro _ _ hne; simp [ha.work] at hne
  | headClosed ha | headRefused ha | headBody ha => exact h.congr (by simp [ha.work])
  | bodySet hb | bodyGet hb => exact h.congr (by simp [hb.work])
  | store hc hw => exact h.congr (by simp [hw])
  | _ => exact h.congr

theorem Init.barren (h : Init stream s) : s.c.Barren := by
  obtain ⟨sfd, threadIndex, readBuf, retBuf, hc⟩ := h.conn
  simp [Connection.Barren, hc, connNew]

/-- An answer that is complete is being sent at this moment, or the connection is over. -/
def State.Prompt (s : State) : Prop :=
  s.c.workState = .writeBcak →
    s.stop = false ∧ s.c.connState = .connDealWith ∨ s.c.connState = .connClosing

theorem State.Prompt.idle (h : s.Prompt) (hc : s.c.connState ≠ .connDealWith)
    (hc' : s.c.connState ≠ .connClosing) : s.c.workState ≠ .writeBcak := by
  intro hw
  rcases h hw with ⟨-, hcs⟩ | hcs
  · exact hc hcs
  · exact hc' hcs

/-- A buffer is accepted whole. -/
theorem State.AtSend.accepted {it : Batchbuf} {rest : List Batchbuf} (ha : s.AtSend it rest)
    (h : Env.writing.answer s r) : r.ret = it.left :=
  h.2 (.write it.left)
    (by simp [State.syscall, ha.conn, ha.work, ha.inBatch, ha.count, ha.buffers])

/-- So is a single answer. -/
theorem State.AtSingle.accepted (ha : s.AtSingle) (h : Env.writing.answer s r) :
    r.ret = s.c.retBytes :=
  h.2 (.write s.c.retBytes) (by simp [State.syscall, ha.conn, ha.work, ha.inBatch])

/-- **Where everything offered is accepted, an undivided pass leaves no answer waiting.** -/
theorem StateOk.prompt_pass (hok : StateOk s) (h : s.Prompt) (hrun : s.stop = false)
    (hans : Env.writing.undivided.answer s r) (hp : Pass s r s' ev) : s'.Prompt := by
  obtain ⟨hwrites, hundiv⟩ := hans
  cases hp with
  | batchBlocked ha hr hb =>
      have hpos := hok.batch.left_pos ha _ List.mem_cons_self
      have hall := ha.accepted hwrites
      omega
  | batchNext ha hrest hpos hall =>
      have hone := hundiv.sends ha.conn ha.work ha.inBatch ha.count
      rw [ha.buffers, List.length_cons, Nat.add_eq_right, List.length_eq_zero_iff] at hone
      exact absurd hone hrest
  | batchPart ha hpos hpart =>
      have hall := ha.accepted hwrites
      omega
  | singleBlocked ha hr hb =>
      have hpos := hok.batch.single ha.work ha.inBatch
      have hall := ha.accepted hwrites
      omega
  | singlePart ha hpos hpart =>
      have hall := ha.accepted hwrites
      omega
  | waitWrite hc hw => exact absurd hw.1 (h.idle (by simp [hc]) (by simp [hc]))
  | batchFailed | singleFailed | readEof => exact fun _ => .inr rfl
  | headClosed => exact fun _ => .inr (by simp)
  | closing hc => exact fun _ => .inr (by simpa using hc)
  | query hc hw => exact fun _ => .inl ⟨hrun, by simpa using hc⟩
  | batchSpin hc hw => exact fun _ => .inl ⟨hrun, hc⟩
  | headMagic hc hw | headTurn hc hw =>
      exact fun hw' => absurd (hw.symm.trans hw') (by decide)
  | headRefused ha | headBody ha | headBatch ha => intro hw; simp [ha.work] at hw
  | bodySet hb | bodyGet hb => intro hw; simp at hw
  | batchDone ha | singleDone ha => intro hw; simp at hw
  | store hc hw | batchMore hc hw => intro hw; simp at hw
  | readData hc hw | readNone hc hw | waitRead hc hw =>
      intro hw'
      rcases hw with ⟨hw, -⟩ | ⟨hw, -⟩ <;> simp [hw] at hw'
  | newCmdMore hc hw | newCmdIdle hc hw | newCmdStop hc hw | headNone hc hw | headShort hc hw
  | bodyShort hc hw => intro hw'; simp [hw] at hw'

/-- As long as no such batch is opened, a batch that wants no answers has none. -/
theorem StateOk.barren_run (hok : StateOk s) (h : s.c.Barren)
    (hr : Run (Step Env.headsWanted) s tr t) : t.c.Barren :=
  hok.along (R := fun _ t => t.c.Barren) hr h id (fun _ h => h)
    fun _ _ hans h hp => h.pass hans.2 hp

/-- What is ready to be sent when a call begins has not been sent yet. -/
theorem Call.prompt (hok : StateOk s) (h : Call Env.writing.undivided s tr t) : t.Prompt := by
  have hstart : (enter s).Prompt := by
    intro hw
    have hctl := hok.control.control
    unfold State.ControlAt at hctl
    cases hc : s.c.connState with
    | connDealWith => exact .inl ⟨rfl, hc⟩
    | connClosing => exact .inr hc
    | connRead =>
        simp only [hc] at hctl
        rcases hctl with ⟨hw', -⟩ | ⟨hw', -⟩ <;> simp [enter, hw'] at hw
    | connNewCmd => simp only [hc] at hctl; simp [enter, hctl] at hw
    | _ => simp [hc, h.stop] at hctl
  exact h.along (R := fun _ t => t.Prompt) hok hstart (fun _ h => h)
    fun hok hrun hans hprompt hp => hok.prompt_pass hprompt hrun hans hp

/-- A pass after which a complete batch has nothing to send is undivided: of several
buffers, and of a batch that has answers and wants none, bytes are left. -/
theorem StateOk.undivided (hok : StateOk s) (hans : Env.writing.answer s r)
    (hafter : (pass s r).1.c.inBatchGet = true →
      (pass s r).1.c.batchCount = (pass s r).1.c.batchNum → (pass s r).1.c.unsentBytes = 0) :
    s.Undivided := by
  constructor
  · intro hc hw hin hcount
    obtain ⟨it, rest, hbuf⟩ := List.exists_cons_of_ne_nil (hok.control.buffers.mp hin)
    have ha : s.AtSend it rest := ⟨hc, hw, hin, hcount, hbuf⟩
    have hpos := hok.batch.left_pos ha
    have hret := ha.accepted hans
    cases rest with
    | nil => rw [hbuf, List.length_singleton]
    | cons b rest =>
        have hne : it.left ≠ 0 := Nat.ne_of_gt (hpos it List.mem_cons_self)
        have hpass : (pass s r).1.c =
            ((s.batchConn.wrote r.ret.toNat).setBuffers (b :: rest)).connStateJump
              .connWaiting := by
          simp [pass, hc, onConnDealWith, hw, onWriteBcak, hin, sendBatch, hcount, hbuf, hret, hne,
            State.batchConn]
        rw [hpass] at hafter
        have hb := hpos b (by simp)
        have hzero := hafter (by simpa using hin) (by simpa using hcount)
        simp [Connection.unsentBytes] at hzero
        omega
  · intro ha hv hnum
    have hnum' := (loadHeader_batchnum ha.length).trans hnum
    rw [ha.pass_eq hok.control, dispatch_loadHeader ha.length, hv] at hafter
    have hzero := hafter (by simp) (by simpa using hnum'.symm)
    simpa [Connection.unsentBytes, left_fresh] using hzero

/-- **No stranded answer.** Where no batch head with number 0 has been accepted behind answers,
a call all of whose passes are undivided and whose writes are accepted whole returns with every
answer sent, unless its batch still wants some. -/
theorem stranded_answer_none (h : Init stream s') (h₀ : Run (Step Env.headsWanted) s' tr₀ s)
    (hcall : Call Env.writing.undivided s tr t) (hstop : t.stop = true)
    (hopen : t.outcome = .stillOpen)
    (hbatch : t.c.inBatchGet = true → t.c.batchCount = t.c.batchNum) : t.c.unsentBytes = 0 := by
  have hok := h.ok.run h₀
  have hok' := hok.run hcall.toRun
  have hheads : ∀ {s r}, Env.writing.undivided.answer s r → Env.headsWanted.answer s r :=
    fun hans => ⟨hans.1.1, hans.2.heads⟩
  have hcall' : Run (Step Env.headsWanted) s tr t := hcall.toRun.mono fun _ _ _ hs => hs.mono hheads
  have hbarren := hok.barren_run (h.ok.barren_run h.barren h₀) hcall'
  have hw : t.c.workState ≠ .writeBcak := fun hw => by
    rcases hcall.prompt hok hw with ⟨hrun, -⟩ | hc
    · simp [hrun] at hstop
    · exact (State.outcome_open hopen).2 hc
  have hleft : leftIn t.c.batchRetVector = 0 := by
    cases hin : t.c.inBatchGet with
    | false => rw [hok'.control.empty hin]; rfl
    | true =>
        rcases hok'.batch.counting hin hw with hlt | ⟨hzero, -⟩
        · simp [hbatch hin] at hlt
        · exact hbarren hin hzero hw
  rw [Connection.unsentBytes, hleft, if_neg (fun hs => hw hs.1)]

instance (s : State) : Decidable s.HeadsWanted :=
  inferInstanceAs (Decidable (s.AtHead → (Request.decode s.c.window).verdict = .batchHead →
    (Request.decode s.c.window).batchnum = 0 → leftIn s.c.batchRetVector = 0))

instance (s : State) : Decidable s.Undivided :=
  decidable_of_iff
    ((s.c.connState = .connDealWith → s.c.workState = .writeBcak → s.c.inBatchGet = true →
        s.c.batchCount = s.c.batchNum → s.c.batchRetVector.length = 1) ∧ s.HeadsWanted)
    ⟨fun ⟨hs, hh⟩ => ⟨hs, hh⟩, fun ⟨hs, hh⟩ => ⟨hs, hh⟩⟩

instance (s : State) (r : SysRet) : Decidable (Env.writing.answer s r) :=
  @instDecidableAnd _ _ (inferInstanceAs (Decidable (Env.any.answer s r)))
    (decidableNextCall (fun call => call.WritesAll r) s.syscall)

instance (s : State) (r : SysRet) : Decidable (Env.writing.undivided.answer s r) :=
  @instDecidableAnd _ _ (inferInstanceAs (Decidable (Env.writing.answer s r)))
    (inferInstanceAs (Decidable s.Undivided))

/-- A batch of one GET, read, looked up and answered in one call. -/
def callOneGet : State × List Event :=
  (enter (.accepted ((Packet.batchHead 1 0 0).bytes ++ (Packet.smallGet 107 0).bytes) .empty)).play
    Env.writing.undivided (([25, 0, 0, 0, 0, 21, 0, 0].map fun n => ⟨n, .other⟩).map .pass)

theorem stranded_answer_none_oneGet : callOneGet.1.c.unsentBytes = 0 := by
  have hcall : Call Env.writing.undivided _ callOneGet.2 callOneGet.1 :=
    State.play_call rfl rfl rfl _
  exact stranded_answer_none (State.init_accepted _) (.refl _) hcall
    (by decide +kernel) (by decide +kernel) (by decide +kernel)

/-- A head for one GET inside a batch that has an answer opens a second buffer. When the
batch is complete the first one is sent, and the call returns. -/
def callTwoBuffers : State × List Event :=
  (enter (.accepted ((Packet.batchHead 2 0 0).bytes ++ (Packet.smallGet 107 0).bytes ++
      (Packet.batchHead 1 0 0).bytes ++ (Packet.smallGet 107 0).bytes) .empty)).play
    Env.writing (([50, 0, 0, 0, 0, 0, 0, 0, 0, 0, 0, 21, 0].map fun n => ⟨n, .other⟩).map .pass)

theorem stranded_answer_twoBuffers :
    ¬ ∀ (stream : Bytes) (s' s t : State) (tr₀ tr : List Event), Init stream s' →
      Run (Step Env.any) s' tr₀ s → Call Env.writing s tr t → t.stop = true →
      t.outcome = .stillOpen → (t.c.inBatchGet = true → t.c.batchCount = t.c.batchNum) →
      t.c.unsentBytes = 0 := by
  intro hall
  have hcall : Call Env.writing _ callTwoBuffers.2 callTwoBuffers.1 :=
    State.play_call rfl rfl rfl _
  have hunsent := hall _ _ _ _ _ _ (State.init_accepted _) (.refl _) hcall
    (by decide +kernel) (by decide +kernel) (by decide +kernel)
  revert hunsent
  decide +kernel

end MultiportNetwork
