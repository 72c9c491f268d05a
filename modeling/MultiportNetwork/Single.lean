import MultiportNetwork.BufferBounds

/-!
# MultiportNetwork.Single

The answer to a single GET, from the lookup to its last byte.

`con_ret_buf` stores the packet at `ret_buf_offset` and adds its length to `ret_bytes`,
on a miss twice. The writer sends `ret_bytes` bytes from `ret_buf_offset` on, in as many
pieces as the socket wants, whatever these bytes are (`StateOk.sent_run`). So a hit is
answered by its packet and a miss by more than that (`answered_once_iff`), and the answer
stays within `ret_buf` as long as `ret_bytes` does (`single_fits_iff`).
-/

namespace MultiportNetwork

variable {E : Env} {s s' t u : State} {r : SysRet} {ev tr : List Event} {stream : Bytes}

/-! ### The lookup and its answer -/

/-- The next pass looks up and answers a single GET. -/
structure State.AtSingleQuery (s : State) : Prop where
  conn : s.c.connState = .connDealWith
  work : s.c.workState = .queryKey
  inBatch : s.c.inBatchGet = false
  alive : s.exited = false

/-- What the lookup finds. -/
def State.lookup (s : State) : Bytes × Option Bytes := (s.c.key, s.table.find s.c.key)

/-- The packet `con_ret_buf` stores for it. -/
def State.response (s : State) : Bytes := (queryResult s.c (s.table.find s.c.key)).respPacket

/-- The state in which that is done. -/
def State.replied (s : State) : State := (onQueryKey s).1

/-- A step while a single answer is being sent. -/
def Answering (E : Env) (s : State) (ev : List Event) (s' : State) : Prop :=
  s.c.Sending ∧ Step E s ev s'

/-- The bytes an event puts on the wire. -/
def Event.wire : Event → Bytes
  | .write bytes => bytes
  | _ => []

/-- The bytes the socket has accepted. -/
def wire (tr : List Event) : Bytes := tr.flatMap Event.wire

@[simp] theorem wire_append (a b : List Event) : wire (a ++ b) = wire a ++ wire b := by
  simp [wire]

theorem State.AtSingleQuery.stop (hq : s.AtSingleQuery) (hok : StateOk s) : s.stop = false := by
  have hctl := hok.control.control
  by_contra hstop
  simp only [State.ControlAt, hq.conn] at hctl
  have := (hctl (by simpa using hstop)).1
  simp [hq.work] at this

theorem State.AtSingleQuery.not_sending (hq : s.AtSingleQuery) : ¬ s.c.Sending :=
  fun hs => absurd (hq.work.symm.trans hs.1) (by decide)

/-- The answer is complete and waits for the socket. -/
theorem State.AtSingleQuery.atSingle (hq : s.AtSingleQuery) : s.replied.AtSingle := by
  refine ⟨?_, ?_, ?_⟩ <;> simp [State.replied, onQueryKey, hq.conn, hq.inBatch]

theorem State.AtSingleQuery.sending (hq : s.AtSingleQuery) : s.replied.c.Sending :=
  ⟨hq.atSingle.work, hq.atSingle.inBatch⟩

/-- Where the packet is, and how many bytes will be sent from there. -/
theorem State.AtSingleQuery.replied_eq (hq : s.AtSingleQuery) :
    s.replied.c.retBuf = s.c.retBuf.store s.c.retBufOffset s.response ∧
      s.replied.c.retBufOffset = s.c.retBufOffset ∧
      s.replied.c.retBytes = s.c.retBytes + singlePrice s.lookup := by
  have hsingle := conRetBuf_single (c := queryResult s.c (s.table.find s.c.key))
    (by simpa using hq.inBatch)
  refine ⟨?_, by simp [State.replied, onQueryKey], ?_⟩
  · rw [State.replied, onQueryKey, hsingle]
    simp [State.response]
  · rw [State.replied, onQueryKey, hsingle]
    cases hf : s.table.find s.c.key with
    | none => simp [State.lookup, singlePrice, hf, Connection.valuelen]; omega
    | some v => simp [State.lookup, singlePrice, hf, Connection.valuelen]

/-- `ret_buf` keeps the size it was allocated with. -/
theorem Init.retBufSize_run (h : Init stream s) (hr : Run (Step E) s tr t) :
    t.c.retBufSize = initRetBufSize := by
  have hstart : s.c.retBufSize = initRetBufSize := by
    obtain ⟨sfd, threadIndex, readBuf, retBuf, hc⟩ := h.conn
    simp [hc, connNew]
  refine h.ok.along (R := fun _ t => t.c.retBufSize = initRetBufSize) hr hstart id
    (fun _ h => h) ?_
  intro tr a r ev b _ _ _ hsize hp
  cases hp <;> simpa [loadHeader] using hsize

theorem State.length_response (s : State) :
    s.response.length =
      headerSize + s.c.key.length + ((s.table.find s.c.key).elim 8 List.length) := by
  rw [State.response, Connection.length_respPacket]
  cases s.table.find s.c.key <;> simp [Connection.valuelen]

/-! ### Sending it -/

/-- How far an answer that `c₀` was about to send has got: what is on the wire and what
is left in `ret_buf` is what was there in `c₀`. -/
structure Sent (c₀ : Connection) (tr : List Event) (c : Connection) : Prop where
  left : c.Sending →
    wire tr ++ c.retBuf.load c.retBufOffset c.retBytes = c₀.retBuf.load c₀.retBufOffset c₀.retBytes
  bound : c.Sending → c.retBufOffset + c.retBytes = c₀.retBufOffset + c₀.retBytes
  all : ¬ c.Sending → wire tr = c₀.retBuf.load c₀.retBufOffset c₀.retBytes

/-- A step that sends nothing and leaves the answer where it is. -/
theorem Sent.silent {c₀ c c' : Connection} (h : Sent c₀ tr c) (hs : c.Sending)
    (hev : wire ev = []) (hs' : c'.Sending := by simpa [Connection.Sending] using hs)
    (hbuf : c'.retBuf = c.retBuf := by rfl)
    (hoff : c'.retBufOffset = c.retBufOffset := by simp)
    (hbytes : c'.retBytes = c.retBytes := by simp) : Sent c₀ (tr ++ ev) c' := by
  refine ⟨fun _ => ?_, fun _ => ?_, fun hne => absurd hs' hne⟩
  · rw [wire_append, hev, List.append_nil, hbuf, hoff, hbytes]
    exact h.left hs
  · rw [hoff, hbytes]
    exact h.bound hs

/-- **A pass sends the next bytes of the answer.** -/
theorem Sent.pass {c₀ : Connection} (h : Sent c₀ tr s.c) (hs : s.c.Sending)
    (hp : Pass s r s' ev) : Sent c₀ (tr ++ ev) s'.c := by
  have hwork := hs.1
  have hleft := h.left hs
  cases hp with
  | singleBlocked | singleFailed | waitWrite | closing => exact h.silent hs rfl
  | singleDone ha hpos hall =>
      have hret : r.ret.toNat = s.c.retBytes := by rw [hall, Int.toNat_natCast]
      have hdone : ¬ (s.c.wrote r.ret.toNat).endSingle.Sending := by simp [Connection.Sending]
      refine ⟨fun hs' => absurd hs' hdone, fun hs' => absurd hs' hdone, fun _ => ?_⟩
      rw [wire_append, ← hleft, hret]
      simp [wire, Event.wire]
  | singlePart ha hpos hpart =>
      have hs' : (((s.c.wrote r.ret.toNat).skipSingle r.ret.toNat).connStateJump
          .connWaiting).Sending := by
        simpa [Connection.Sending] using hs
      have hle : r.ret.toNat ≤ s.c.retBytes := by omega
      refine ⟨fun _ => ?_, fun _ => ?_, fun hne => absurd hs' hne⟩
      · have hsplit := Memory.load_add s.c.retBuf s.c.retBufOffset r.ret.toNat
          (s.c.retBytes - r.ret.toNat)
        rw [Nat.add_sub_cancel' hle] at hsplit
        rw [← hleft, hsplit, wire_append, List.append_assoc]
        simp only [wire, List.flatMap_singleton, Event.wire, List.append_cancel_left_eq]
        rfl
      · have hbound := h.bound hs
        simp only [Connection.connStateJump_retBufOffset, Connection.connStateJump_retBytes,
          Connection.skipSingle_retBufOffset, Connection.skipSingle_retBytes,
          Connection.wrote_retBufOffset, Connection.wrote_retBytes]
        omega
  -- the other branches belong to other work states
  | readData hc hw | readEof hc hw | readNone hc hw | waitRead hc hw =>
      rcases hw with ⟨hw, -⟩ | ⟨hw, -⟩ <;> exact absurd (hwork.symm.trans hw) (by decide)
  | headClosed ha | headRefused ha | headBatch ha | headBody ha | bodySet ha | bodyGet ha =>
      exact absurd (hwork.symm.trans ha.work) (by decide)
  | batchMore hc hw hin | batchSpin hc hw hin => exact absurd (hs.2.symm.trans hin) (by decide)
  | batchBlocked ha | batchFailed ha | batchDone ha | batchNext ha | batchPart ha =>
      exact absurd (hs.2.symm.trans ha.inBatch) (by decide)
  | _ hc hw => exact absurd (hwork.symm.trans hw) (by decide)

/-- **While an answer is sent**, nothing else is, and nothing of it is lost. -/
theorem StateOk.sent_run (hok : StateOk s) (hs : s.c.Sending) (hr : Run (Answering E) s tr t) :
    Sent s.c tr t.c := by
  have hrel : StateOk t ∧ Sent s.c tr t.c := by
    refine hr.relate (R := fun tr t => StateOk t ∧ Sent s.c tr t.c)
      ⟨hok, fun _ => by simp [wire], fun _ => rfl, fun hne => absurd hs hne⟩ ?_
    rintro tr a ev b ⟨hok, hsent⟩ ⟨hs, hstep⟩
    refine ⟨hok.step hstep, ?_⟩
    cases hstep with
    | call => exact hsent.silent hs rfl hs rfl rfl rfl
    | others => exact hsent.silent hs rfl hs rfl rfl rfl
    | pass hrun halive hans =>
        exact hsent.pass hs (pass_cases hok.control (E.returns hans))
  exact hrel.2

/-- The lookup is one step. -/
theorem State.AtSingleQuery.step (hq : t.AtSingleQuery) (hok : StateOk t) :
    Step Env.any t (onQueryKey t).2 t.replied := by
  have hans : Env.any.answer t ⟨0, .other⟩ := by
    intro call hcall
    simp [State.syscall, hq.conn, hq.work] at hcall
  have hstep := Step.pass (hq.stop hok) hq.alive hans
  have hpass : pass t ⟨0, .other⟩ = onQueryKey t := by
    simp [pass, hq.conn, onConnDealWith, hq.work]
  rw [hpass] at hstep
  exact hstep

/-- All of an answer may be sent at once. -/
theorem State.AtSingle.send_all (ha : t.AtSingle) (hok : StateOk t) (hrun : t.stop = false)
    (halive : t.exited = false) :
    Run (Answering Env.any) t [.write (t.c.retBuf.load t.c.retBufOffset t.c.retBytes)]
      { t with c := (t.c.wrote t.c.retBytes).endSingle } := by
  have hpos := hok.batch.single ha.work ha.inBatch
  have hans : Env.any.answer t ⟨t.c.retBytes, .other⟩ := by
    intro call hcall
    obtain rfl : .write t.c.retBytes = call := by
      simpa [State.syscall, ha.conn, ha.work, ha.inBatch] using hcall
    exact .inr ⟨by simp, by simp, fun hzero => by simpa using hzero⟩
  have hstep := Step.pass hrun halive hans
  have hpass : pass t ⟨t.c.retBytes, .other⟩ =
      ({ t with c := (t.c.wrote t.c.retBytes).endSingle },
        [.write (t.c.retBuf.load t.c.retBufOffset t.c.retBytes)]) := by
    simp [pass, ha.conn, onConnDealWith, ha.work, onWriteBcak, ha.inBatch, sendSingle, hpos.ne']
  rw [hpass] at hstep
  exact .single ⟨⟨ha.work, ha.inBatch⟩, hstep⟩

/-! ### Within the buffer -/

/-- The answer lies within `ret_buf`, when it is stored and whenever some of it is sent. -/
structure SingleFits (E : Env) (t : State) : Prop where
  stored : (t.c.retBufOffset : Int) + t.response.length ≤ t.c.retBufSize
  sent : ∀ tr u, Run (Answering E) t.replied tr u → u.AtSingle →
    (u.c.retBufOffset : Int) + u.c.retBytes ≤ u.c.retBufSize

/-- What is stored is part of what is sent. -/
theorem State.length_response_le (s : State) : s.response.length ≤ singlePrice s.lookup := by
  rw [State.length_response]
  cases hf : s.table.find s.c.key <;> simp [State.lookup, singlePrice, hf]

/-- An answer that does not fit when all of it is about to be sent. -/
theorem State.AtSingleQuery.price_le (hq : t.AtSingleQuery) (hsize : t.replied.c.retBufSize =
    initRetBufSize) (hfits : SingleFits E t) :
    t.c.retBytes + singlePrice t.lookup ≤ initRetBufSize := by
  have hsent := hfits.sent [] t.replied (.refl _) hq.atSingle
  obtain ⟨-, -, hbytes⟩ := hq.replied_eq
  rw [hsize, hbytes] at hsent
  omega

/-- **The answer to a single GET stays within `ret_buf`** if and only if what is left in
`ret_bytes` and what the answer adds to it do. -/
theorem single_fits_iff (h : Init stream s) (hr : Run (Step Env.any) s tr t)
    (hq : t.AtSingleQuery) :
    SingleFits Env.any t ↔ t.c.retBytes + singlePrice t.lookup ≤ initRetBufSize := by
  have hok := h.ok.run hr
  have hr' := hr.snoc (hq.step hok)
  refine ⟨hq.price_le (h.retBufSize_run hr'), fun hle => ?_⟩
  have hoff := (h.tidy_run hr).offset hq.not_sending
  obtain ⟨-, hoff', hbytes⟩ := hq.replied_eq
  refine ⟨?_, fun tr' u hr'' ha => ?_⟩
  · have hlen := t.length_response_le
    rw [h.retBufSize_run hr, hoff]
    omega
  · have hsent := (hok.step (hq.step hok)).sent_run hq.sending hr''
    have hbound := hsent.bound ⟨ha.work, ha.inBatch⟩
    rw [h.retBufSize_run (hr'.trans (hr''.mono fun _ _ _ hs => hs.2))]
    omega

/-- A GET whose key has just been stored, about to be looked up. -/
def hitQuery : State × List Event :=
  (State.accepted ((Packet.smallSet 107).bytes ++ (Packet.smallGet 107 0).bytes) .empty).play
    Env.any (.call :: .ret 34 :: List.replicate 6 (.ret 0))

theorem atSingleQuery_hitQuery : hitQuery.1.AtSingleQuery :=
  ⟨by decide +kernel, by decide +kernel, by decide +kernel, by decide +kernel⟩

theorem single_fits_iff_hit : hitQuery.1.AtSingleQuery ∧ SingleFits Env.any hitQuery.1 := by
  have hq := atSingleQuery_hitQuery
  have hr : Run (Step Env.any) _ hitQuery.2 hitQuery.1 := State.play_run _ _
  exact ⟨hq, (single_fits_iff (State.init_accepted _) hr hq).mpr (by decide +kernel)⟩

/-- A GET of a key of 981 bytes that is not in the table, about to be looked up: its
answer has 1001 bytes. -/
def longMiss : State × List Event :=
  (State.accepted (Packet.longGet 981 0).bytes .empty).play Env.any
    (.call :: .ret 993 :: List.replicate 2 (.ret 0))

theorem single_fits_longMiss :
    ¬ ∀ (stream : Bytes) (s t : State) (tr : List Event), Init stream s →
      Run (Step Env.any) s tr t → t.AtSingleQuery → SingleFits Env.any t := by
  intro hall
  have hinit := State.init_accepted (Packet.longGet 981 0).bytes
  have hr : Run (Step Env.any) _ longMiss.2 longMiss.1 := State.play_run _ _
  have hq : longMiss.1.AtSingleQuery :=
    ⟨by decide +kernel, by decide +kernel, by decide +kernel, by decide +kernel⟩
  have hstored := (hall _ _ _ _ hinit hr hq).stored
  revert hstored
  decide +kernel

/-! ### Exactly the packet -/

/-- The bytes sent for a lookup are those of its packet, in order, and all of them by
the time the next header is parsed. -/
structure AnsweredOnce (E : Env) (t : State) : Prop where
  size : t.response.length =
    headerSize + t.c.key.length + (t.table.find t.c.key).elim 8 List.length
  only : ∀ tr u, Run (Answering E) t.replied tr u → wire tr <+: t.response
  whole : ∀ tr u, Run (Answering E) t.replied tr u → u.c.workState = .parseHead →
    wire tr = t.response

/-- A hit is counted once. -/
theorem State.AtSingleQuery.load_hit (hq : t.AtSingleQuery) (hbytes : t.c.retBytes = 0)
    (hhit : t.table.find t.c.key ≠ none) :
    t.replied.c.retBuf.load t.replied.c.retBufOffset t.replied.c.retBytes = t.response := by
  obtain ⟨hbuf, hoff, hret⟩ := hq.replied_eq
  obtain ⟨v, hv⟩ := Option.ne_none_iff_exists'.mp hhit
  have hlen : t.replied.c.retBytes = t.response.length := by
    rw [hret, hbytes, t.length_response, Nat.zero_add]
    simp [State.lookup, singlePrice, hv]
  rw [hbuf, hoff, hlen, Memory.load_store_self]

/-- A miss is counted twice: when all that is counted is sent at once, this is more than
the packet. -/
theorem State.AtSingleQuery.sent_twice (hq : t.AtSingleQuery) (hok : StateOk t)
    (hmiss : t.table.find t.c.key = none) : ¬ AnsweredOnce Env.any t := by
  intro honce
  have hrun : t.replied.stop = false := hq.stop hok
  have hsend := hq.atSingle.send_all (hok.step (hq.step hok)) hrun hq.alive
  have hle := (honce.only _ _ hsend).length_le
  obtain ⟨-, -, hret⟩ := hq.replied_eq
  have hprice : singlePrice t.lookup = 2 * (headerSize + t.c.key.length + 8) := by
    simp [State.lookup, singlePrice, hmiss]
  have hlen : t.response.length = headerSize + t.c.key.length + 8 := by
    rw [honce.size, hmiss]
    rfl
  have hwire : (wire [.write (t.replied.c.retBuf.load t.replied.c.retBufOffset
      t.replied.c.retBytes)]).length = t.replied.c.retBytes := by
    simp [wire, Event.wire]
  rw [hwire, hret, hprice, hlen] at hle
  omega

/-- **A single GET is answered by exactly its packet** if and only if its key is in the
table. -/
theorem answered_once_iff (h : Init stream s) (hr : Run (Step Env.any) s tr t)
    (hq : t.AtSingleQuery) (hbytes : t.c.retBytes = 0) :
    AnsweredOnce Env.any t ↔ t.table.find t.c.key ≠ none := by
  have hok := h.ok.run hr
  refine ⟨fun honce hmiss => hq.sent_twice hok hmiss honce, fun hhit => ?_⟩
  have hload := hq.load_hit hbytes hhit
  have hsent : ∀ tr' u, Run (Answering Env.any) t.replied tr' u → Sent t.replied.c tr' u.c :=
    fun _ _ hr' => (hok.step (hq.step hok)).sent_run hq.sending hr'
  refine ⟨t.length_response, fun tr' u hr' => ?_, fun tr' u hr' hw => ?_⟩
  · rw [← hload]
    by_cases hs : u.c.Sending
    · exact ⟨_, (hsent tr' u hr').left hs⟩
    · exact ⟨[], by rw [List.append_nil]; exact (hsent tr' u hr').all hs⟩
  · rw [← hload]
    exact (hsent tr' u hr').all fun hs => absurd (hs.1.symm.trans hw) (by decide)

theorem answered_once_iff_hit : hitQuery.1.AtSingleQuery ∧ AnsweredOnce Env.any hitQuery.1 := by
  have hq := atSingleQuery_hitQuery
  have hr : Run (Step Env.any) _ hitQuery.2 hitQuery.1 := State.play_run _ _
  exact ⟨hq, (answered_once_iff (State.init_accepted _) hr hq (by decide +kernel)).mpr
    (by decide +kernel)⟩

/-- A GET of a key that is not in the table, about to be looked up. -/
def missQuery : State × List Event :=
  (State.accepted (Packet.smallGet 108 0).bytes .empty).play Env.any
    (.call :: .ret 13 :: List.replicate 2 (.ret 0))

theorem answered_once_miss :
    ¬ ∀ (stream : Bytes) (s t : State) (tr : List Event), Init stream s →
      Run (Step Env.any) s tr t → t.AtSingleQuery → t.c.retBytes = 0 → t.c.retBufOffset = 0 →
      AnsweredOnce Env.any t := by
  intro hall
  have hinit := State.init_accepted (Packet.smallGet 108 0).bytes
  have hr : Run (Step Env.any) _ missQuery.2 missQuery.1 := State.play_run _ _
  have hq : missQuery.1.AtSingleQuery :=
    ⟨by decide +kernel, by decide +kernel, by decide +kernel, by decide +kernel⟩
  exact hq.sent_twice (hinit.ok.run hr) (by decide +kernel)
    (hall _ _ _ _ hinit hr hq (by decide +kernel) (by decide +kernel))

end MultiportNetwork
