import MultiportNetwork.Server.Exec
import MultiportNetwork.Spec.Stream

/-!
# MultiportNetwork.Segmentation

How a stream is cut into reads does not matter.

`Init.refines` bounds what a run can have executed from above. The other
direction is about rest: in a `Quiet` state nothing is left to execute
(`StateOk.quiet_calls`), and a `Settled` one has reached the outcome its stream
ends in (`StateOk.settled_final`).
-/

namespace MultiportNetwork

variable {E : Env} {s s' t t' : State} {r : SysRet} {ev tr tr' : List Event} {stream : Bytes}

/-! ### Uses of the table -/

/-- The use of the table an event is. -/
def Event.tableCall : Event → Option TableCall
  | .insertOrAssign k v => some (.insertOrAssign k v)
  | .find k _ => some (.find k)
  | _ => none

/-- The `insert_or_assign` and `find` calls of a run, in order, with their arguments. -/
def tableCallsOf (tr : List Event) : List TableCall := tr.filterMap Event.tableCall

theorem tableCalls_executed (tr : List Event) : tableCalls (executed tr) = tableCallsOf tr := by
  induction tr with
  | nil => rfl
  | cons e tr ih =>
      have hhead : tableCalls e.commands = tableCallsOf [e] := by
        cases e with
        | dispatch h b =>
            simp only [Event.commands]
            split <;> rfl
        | _ => rfl
      have happ : executed (e :: tr) = e.commands ++ executed tr := rfl
      rw [happ, tableCalls_append, ih, hhead, tableCallsOf, tableCallsOf, tableCallsOf,
        ← List.filterMap_append]
      rfl

theorem tableCallsOf_silent (h : ∀ e ∈ tr, ¬ e.acts) : tableCallsOf tr = [] := by
  refine List.filterMap_eq_nil_iff.mpr fun e he => ?_
  have := h e he
  cases e with
  | insertOrAssign | find => exact absurd rfl this
  | _ => rfl

/-- The refinement, as far as the table is concerned. -/
theorem Init.calls_eq (h : Init stream s) (hr : Run (Step Env.benign) s tr t) :
    tableCallsOf tr ++ tableCalls t.forecast = tableCalls (commandsIn (.head none) stream) ∧
      t.final = sessionAfter (.head none) stream := by
  obtain ⟨hforecast, hfinal⟩ := h.refines hr
  refine ⟨?_, hfinal⟩
  rw [← tableCalls_executed, ← tableCalls_append, hforecast]

/-! ### Nothing is left -/

/-- Bytes only leave the socket. -/
theorem Pass.inbox_suffix (hp : Pass s r s' ev) : s'.inbox <:+ s.inbox := by
  cases hp with
  | readData hc hw hpos havail hinbox => exact List.drop_suffix _ _
  | _ => exact List.suffix_rfl

theorem StateOk.inbox_run (h : StateOk s) (hr : Run (Step E) s tr s') : s'.inbox <:+ s.inbox :=
  h.along (R := fun _ t => t.inbox <:+ s.inbox) hr List.suffix_rfl id (fun _ hsuf => hsuf)
    fun _ _ _ hsuf hp => hp.inbox_suffix.trans hsuf

theorem State.outcome_open (h : s.outcome = .stillOpen) :
    s.exited = false ∧ s.c.connState ≠ .connClosing := by
  unfold State.outcome at h
  split at h
  · cases h
  next hexit =>
    split at h
    · cases h
    next hc => exact ⟨Bool.eq_false_iff.mpr hexit, hc⟩

theorem State.over_of_not_open (h : s.outcome ≠ .stillOpen) :
    s.exited = true ∨ s.c.connState = .connClosing := by
  by_contra hne
  rw [not_or] at hne
  exact h (by simp [State.outcome, hne.1, hne.2])

/-- A connection that is over has ended up where its stream ends. -/
theorem State.outcome_over (h : s.exited = true ∨ s.c.connState = .connClosing) :
    s.final.outcome = s.outcome := by
  rw [(State.forecast_over h).2]
  unfold State.session State.outcome
  split
  · rfl
  next hexit =>
    rw [if_pos (h.resolve_left hexit), if_pos (h.resolve_left hexit)]
    rfl

theorem StateOk.forecast_resting (h : StateOk s) (hrest : s.Resting) (hinbox : s.inbox = []) :
    s.forecast = [] := by
  by_cases hover : s.exited = true ∨ s.c.connState = .connClosing
  · exact (State.forecast_over hover).1
  rw [not_or, Bool.not_eq_true] at hover
  obtain ⟨halive, hopen⟩ := hover
  have hc : s.c.connState = .connRead := by
    rcases hrest with hexit | ⟨-, hc | hc⟩
    · simp [halive] at hexit
    · exact hc
    · exact absurd hc hopen
  exact (h.forecast_starved halive hopen (h.control.starved hc) hinbox).1

/-- Between two calls of an open connection another call can be made. -/
theorem StateOk.callable (h : StateOk s) (hq : Quiet s) (hopen : s.outcome = .stillOpen) :
    s.stop = true ∧ s.exited = false ∧ s.c.eventAdded = true := by
  obtain ⟨halive, hc⟩ := State.outcome_open hopen
  refine ⟨?_, halive, ?_⟩
  · rcases hq.returned with hstop | hexit
    · exact hstop
    · simp [halive] at hexit
  · by_contra hne
    exact hc (h.control.event (Bool.eq_false_iff.mpr hne)).2

/-- **In a quiet state no command is left to execute.** -/
theorem StateOk.quiet_calls (h : StateOk s) (hq : Quiet s) : tableCalls s.forecast = [] := by
  by_cases hopen : s.outcome = .stillOpen
  swap
  · rw [(State.forecast_over (State.over_of_not_open hopen)).1]
    rfl
  obtain ⟨hstop, halive, hevent⟩ := h.callable hq hopen
  obtain ⟨tr, s', hcall, ⟨e, he, hacts⟩ | hrest⟩ := h.call_resolves hstop halive hevent
  · exact absurd hacts (hq.silent hcall e he)
  · have hrun := hcall.toRun.mono fun _ _ _ hs => hs.ofAccepting
    have hinbox : s'.inbox = [] := by
      have := h.inbox_run hrun
      rwa [hq.delivered hopen, List.suffix_nil] at this
    have hcons := (h.conserves_run hrun).forecast
    rw [(h.run hrun).forecast_resting hrest hinbox, List.append_nil] at hcons
    rw [← hcons, tableCalls_executed]
    exact tableCallsOf_silent fun e he => hq.silent hcall e he

/-- A settled connection that is still open waits for input it has room for. -/
theorem StateOk.settled_reading (h : StateOk s) (hs : Settled s) (hopen : s.outcome = .stillOpen) :
    s.c.connState = .connRead ∧ 0 < s.c.avail := by
  obtain ⟨hstop, halive, hevent⟩ := h.callable hs.toQuiet hopen
  have hcl := (State.outcome_open hopen).2
  have hc : s.c.connState = .connRead := by
    obtain ⟨tr, s', hcall, ⟨e, he, hacts⟩ | hexit | ⟨hstop', hc'⟩⟩ :=
      h.call_resolves hstop halive hevent
    · exact absurd hacts (hs.silent hcall e he)
    · simp [hs.alive hcall] at hexit
    · rw [(hs.unchanged hcall hstop').1] at hc'
      exact hc'.resolve_right hcl
  refine ⟨hc, ?_⟩
  by_contra hroom
  -- a full buffer would have the next call close the connection
  obtain ⟨c', hstep, ⟨-, hc'⟩ | ⟨hroom', -⟩⟩ :=
    reads_nothing (s := enter s) rfl halive (by simpa [enter] using hc)
  · obtain ⟨-, hstep'⟩ := silentPass (s := { enter s with c := c' }) rfl halive
      (by simp [State.syscall, hc']) ⟨0, .other⟩
    have hcall : Call Env.accepting s _ _ :=
      ⟨hstop, halive, hevent, Run.head hstep (.single hstep')⟩
    have hun := (hs.unchanged hcall (by simp [pass, hc', onConnClosing])).1
    simp [pass, hc', onConnClosing, hc] at hun
  · exact hroom hroom'

/-- **A settled connection has ended up where its stream ends.** -/
theorem StateOk.settled_final (h : StateOk s) (hs : Settled s) : s.final.outcome = s.outcome := by
  by_cases hopen : s.outcome = .stillOpen
  · obtain ⟨hc, hroom⟩ := h.settled_reading hs hopen
    obtain ⟨halive, hcl⟩ := State.outcome_open hopen
    have hw := h.control.starved hc
    rw [(h.forecast_starved halive hcl hw (hs.delivered hopen)).2 hroom, hopen,
      State.session_open halive hcl]
    rcases hw with ⟨hwork, -⟩ | ⟨hwork, -⟩
    · rw [Connection.session_head hwork]
      rfl
    · rw [Connection.session_body hwork rfl (h.control.body hwork).2]
      rfl
  · exact State.outcome_over (State.over_of_not_open hopen)

/-- Where a call can be that finds nothing to read: it reads, waits, and returns. -/
def State.Idling (w : WorkState) (t : State) : Prop :=
  t.exited = false ∧ t.inbox = [] ∧ t.c.workState = w ∧
    (t.stop = false ∧ t.c.connState = .connRead ∧ 0 < t.c.avail ∨
      t.stop = false ∧ t.c.connState = .connWaiting ∨ t.stop = true ∧ t.c.connState = .connRead)

theorem State.Idling.step {w : WorkState} (hw : w = .parseHead ∨ w = .readKeyValue)
    (h : s.Idling w) (hs : InCall Env.accepting s ev s') : ev = [] ∧ s'.Idling w := by
  obtain ⟨halive, hinbox, hwork, hat⟩ := h
  obtain ⟨hrun, hs⟩ := hs
  cases hs with
  | call hstop => simp [hstop] at hrun
  | others _ _ => exact ⟨rfl, halive, hinbox, hwork, hat⟩
  | @pass r _ _ hans =>
      rcases hat with ⟨-, hc, hroom⟩ | ⟨-, hc⟩ | ⟨hstop, -⟩
      · have hret : r.ret = -1 := by
          obtain ⟨hb, -, hzero⟩ := hans.1 (.read s.c.avail) (by simp [State.syscall, hc])
          simp only [Syscall.Returns, if_neg (Int.not_le.mpr hroom), hinbox] at hb
          rcases hb with hneg | ⟨hge, -, hle⟩
          · exact hneg
          · exact absurd (hzero (Int.le_antisymm hle hge)) (Int.not_le.mpr hroom)
        have hpass : pass s r = ({ s with c := (compact s.c).connStateJump .connWaiting }, []) := by
          simp [pass, hc, onConnRead, tryReadNetwork, hret]
        rw [hpass]
        exact ⟨rfl, halive, hinbox, hwork, .inr (.inl ⟨hrun, rfl⟩)⟩
      · have hpass : pass s r =
            ({ s with c := s.c.connStateJump .connRead, stop := true }, []) := by
          rcases hw with rfl | rfl <;> simp [pass, hc, onConnWaiting, hwork]
        rw [hpass]
        exact ⟨rfl, halive, hinbox, hwork, .inr (.inr ⟨rfl, rfl⟩)⟩
      · simp [hstop] at hrun

/-- A connection that waits for input it has room for, with none to come, is settled. -/
theorem StateOk.settled_ofReading (h : StateOk s) (hstop : s.stop = true)
    (halive : s.exited = false) (hc : s.c.connState = .connRead) (hinbox : s.inbox = [])
    (hroom : 0 < s.c.avail) : Settled s := by
  have hw : s.c.workState = .parseHead ∨ s.c.workState = .readKeyValue := by
    have hctl := h.control.control
    simp only [State.ControlAt, hc] at hctl
    rcases hctl with ⟨hw, -⟩ | ⟨hw, -⟩
    · exact .inl hw
    · exact .inr hw
  have hcourse : ∀ {tr t}, Call Env.accepting s tr t → tr = [] ∧ t.Idling s.c.workState := by
    intro tr t hcall
    refine hcall.run.relate (R := fun tr t => tr = [] ∧ t.Idling s.c.workState)
      ⟨rfl, halive, hinbox, rfl, .inl ⟨rfl, hc, hroom⟩⟩ ?_
    rintro tr a ev b ⟨rfl, hidle⟩ hs
    exact hidle.step hw hs
  refine ⟨⟨.inl hstop, fun _ => hinbox, fun hcall e he => ?_⟩, fun hcall => (hcourse hcall).2.1,
    fun hcall hstop' => ?_⟩
  · rw [(hcourse hcall).1] at he
    cases he
  · obtain ⟨-, -, -, hwork, ⟨hrun, -⟩ | ⟨hrun, -⟩ | ⟨-, hc'⟩⟩ := hcourse hcall
    · simp [hstop'] at hrun
    · simp [hstop'] at hrun
    · exact ⟨hc'.trans hc.symm, hwork⟩

/-! ### Two schedules of one stream -/

/-- **Segmentation independence.** However a stream reaches two connections, one
has used the table as the other and possibly further, and when both are settled
they have used it alike and ended up alike. -/
theorem segmentation_independent {s₁ s₂ t₁ t₂ : State} {tr₁ tr₂ : List Event}
    (h₁ : Init stream s₁) (h₂ : Init stream s₂) (r₁ : Run (Step Env.benign) s₁ tr₁ t₁)
    (r₂ : Run (Step Env.benign) s₂ tr₂ t₂) :
    (tableCallsOf tr₁ <+: tableCallsOf tr₂ ∨ tableCallsOf tr₂ <+: tableCallsOf tr₁) ∧
      (Settled t₁ → Settled t₂ →
        tableCallsOf tr₁ = tableCallsOf tr₂ ∧ t₁.outcome = t₂.outcome) := by
  obtain ⟨hc₁, hf₁⟩ := h₁.calls_eq r₁
  obtain ⟨hc₂, hf₂⟩ := h₂.calls_eq r₂
  refine ⟨List.prefix_or_prefix_of_prefix ⟨_, hc₁⟩ ⟨_, hc₂⟩, fun hs₁ hs₂ => ⟨?_, ?_⟩⟩
  · rw [(h₁.ok.run r₁).quiet_calls hs₁.toQuiet, List.append_nil] at hc₁
    rw [(h₂.ok.run r₂).quiet_calls hs₂.toQuiet, List.append_nil] at hc₂
    rw [hc₁, hc₂]
  · rw [← (h₁.ok.run r₁).settled_final hs₁, ← (h₂.ok.run r₂).settled_final hs₂, hf₁, hf₂]

/-- A SET delivered at once, and the same SET cut inside its header and its value. -/
def wholeSet : State × List Event :=
  (State.accepted (Packet.smallSet 107).bytes .empty).play Env.benign
    [.call, .ret 21, .ret 0, .ret 0, .ret 0, .ret 0, .ret 0]

def cutSet : State × List Event :=
  (State.accepted (Packet.smallSet 107).bytes .empty).play Env.benign
    [.call, .ret 5, .ret 0, .ret 0, .call, .blocked, .ret 0, .call, .ret 10, .ret 0, .ret 0,
      .ret 0, .call, .ret 6, .ret 0, .ret 0, .ret 0, .ret 0]

theorem segmentation_independent_smallSet :
    tableCallsOf wholeSet.2 = tableCallsOf cutSet.2 ∧ wholeSet.1.outcome = cutSet.1.outcome := by
  have hinit := State.init_accepted (Packet.smallSet 107).bytes
  have r₁ : Run (Step Env.benign) _ wholeSet.2 wholeSet.1 := State.play_run _ _
  have r₂ : Run (Step Env.benign) _ cutSet.2 cutSet.1 := State.play_run _ _
  refine (segmentation_independent hinit hinit r₁ r₂).2 ?_ ?_
  · exact (hinit.ok.run r₁).settled_ofReading (by decide +kernel) (by decide +kernel)
      (by decide +kernel) (by decide +kernel) (by decide +kernel)
  · exact (hinit.ok.run r₂).settled_ofReading (by decide +kernel) (by decide +kernel)
      (by decide +kernel) (by decide +kernel) (by decide +kernel)

/-! ### Well-formed streams -/

/-- A connection closes its socket, or the process exits, only where the protocol
says so. -/
theorem Pass.ending (hp : Pass s r s' ev) :
    (.close ∈ ev → s.c.connState = .connClosing) ∧ (.exit ∈ ev → s'.exited = true) := by
  cases hp with
  | headMagic | headTurn => exact ⟨by simp, fun _ => rfl⟩
  | closing hc => exact ⟨fun _ => hc, by simp⟩
  | _ => exact ⟨by simp, by simp⟩

/-- As long as the session of a stream stays open, so does the connection. -/
theorem StateOk.open_run (h : StateOk s) (hopen : s.final.outcome = .stillOpen)
    (hr : Run (Step Env.benign) s tr t) :
    t.outcome = .stillOpen ∧ .close ∉ tr ∧ .exit ∉ tr := by
  have hstay : ∀ {t : State}, t.final = s.final → t.outcome = .stillOpen := by
    intro t hfinal
    by_contra hne
    rw [← State.outcome_over (State.over_of_not_open hne), hfinal] at hne
    exact hne hopen
  have hrel : t.final = s.final ∧ .close ∉ tr ∧ .exit ∉ tr := by
    refine h.along (R := fun tr t => t.final = s.final ∧ Event.close ∉ tr ∧ Event.exit ∉ tr) hr
      ⟨rfl, by simp, by simp⟩ id (fun _ h => h) ?_
    rintro tr a r ev b hok halive hans ⟨hfinal, hclose, hexit⟩ hp
    have hfinal' := (hok.conserves halive (fun _ => hans) hp).final.trans hfinal
    obtain ⟨hcl, hex⟩ := hp.ending
    have hclose' : Event.close ∉ ev := fun he => (State.outcome_open (hstay hfinal)).2 (hcl he)
    have hexit' : Event.exit ∉ ev := fun he => by
      simpa [hex he] using (State.outcome_open (hstay hfinal')).1
    exact ⟨hfinal', by simp [hclose, hclose'], by simp [hexit, hexit']⟩
  exact ⟨hstay hrel.1, hrel.2⟩

/-- **Segmentation refinement.** Of a well-formed stream a connection executes the
commands in order and with the bytes sent, however the stream is cut and delayed;
it is never closed; and once another call would find nothing to do, every command
has been executed. -/
theorem wellFormed_run {calls : List TableCall}
    (hS : WellFormed (fun r => r.keylen.toNat ≤ r.totalbodylen.toNat) stream calls)
    (h : Init stream s) (hr : Run (Step Env.benign) s tr t) :
    tableCallsOf tr <+: calls ∧ t.outcome = .stillOpen ∧ .close ∉ tr ∧ .exit ∉ tr ∧
      (Quiet t → tableCallsOf tr = calls) := by
  obtain ⟨hcalls, hsession⟩ := hS.parse
  obtain ⟨hc, -⟩ := h.calls_eq hr
  rw [hcalls] at hc
  have hfinal : s.final.outcome = .stillOpen := by rw [h.final, hsession]; rfl
  obtain ⟨hopen, hclose, hexit⟩ := h.ok.open_run hfinal hr
  refine ⟨⟨_, hc⟩, hopen, hclose, hexit, fun hq => ?_⟩
  rw [(h.ok.run hr).quiet_calls hq, List.append_nil] at hc
  exact hc

/-- A batch of one GET behind a SET, in two reads. -/
def smallStream : State × List Event :=
  (State.accepted ((Packet.smallSet 107).bytes ++ ((Packet.batchHead 1 0 0).bytes ++
      [Packet.smallGet 107 0].flatMap Packet.bytes ++ [])) .empty).play Env.benign
    [.call, .ret 30, .ret 0, .ret 0, .ret 0, .ret 0, .ret 0, .ret 0, .call, .ret 16, .ret 0, .ret 0,
      .ret 0, .ret 0, .ret 21, .ret 0, .ret 0]

theorem wellFormed_run_smallStream :
    tableCallsOf smallStream.2 =
      [.insertOrAssign (Packet.smallSet 107).key (Packet.smallSet 107).value, .find [107]] := by
  have hinit := State.init_accepted ((Packet.smallSet 107).bytes ++
    ((Packet.batchHead 1 0 0).bytes ++ [Packet.smallGet 107 0].flatMap Packet.bytes ++ []))
  have hr : Run (Step Env.benign) _ smallStream.2 smallStream.1 := State.play_run _ _
  have hhead : (Packet.batchHead 1 0 0).IsBatchHead 1 := ⟨rfl, rfl, rfl, by decide, rfl⟩
  have hS : WellFormed (fun r => r.keylen.toNat ≤ r.totalbodylen.toNat) _ _ :=
    .set (Packet.isSet_smallSet 107) (.batch hhead (by decide) numberedGets_small .nil)
  refine (wellFormed_run hS hinit hr).2.2.2.2 ?_
  exact ((hinit.ok.run hr).settled_ofReading (by decide +kernel) (by decide +kernel)
    (by decide +kernel) (by decide +kernel) (by decide +kernel)).toQuiet

/-- A batch head that claims a key and no body to hold it has its connection closed
before its GETs are executed. -/
theorem wellFormed_run_head_refused :
    ¬ ∀ (stream : Bytes) (calls : List TableCall) (s t : State) (tr : List Event),
      WellFormed (fun _ => True) stream calls → Init stream s → Run (Step Env.benign) s tr t →
      t.outcome = .stillOpen := by
  intro hall
  have hhead : (Packet.batchHead 1 1 0).IsBatchHead 1 := ⟨rfl, rfl, rfl, by decide, rfl⟩
  have hS : WellFormed (fun _ => True) _ _ := .batch hhead trivial numberedGets_small .nil
  have hopen := hall _ _ _ _ _ hS (State.init_accepted _)
    (State.play_run (E := Env.benign) _ [.call, .ret 25, .ret 0, .ret 0])
  revert hopen
  decide +kernel

end MultiportNetwork
