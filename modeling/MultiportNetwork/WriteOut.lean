import MultiportNetwork.Stranded

/-!
# MultiportNetwork.WriteOut

Writing out a batch. Answers are appended at the back of `batch_ret_vector` and sent
from its front, one buffer at a time and as much of it as the socket accepts. What has
been sent and what is still in the buffers is at all times what `con_ret_buf` has built
since the batch was opened (`written_out`), and `in_batch_get` is cleared with the last
byte of it.

A complete batch is meant to be sent before anything else is parsed. A batch head with
number 0 behind answers that have not been sent makes a batch that is complete at once,
and is not.
-/

namespace MultiportNetwork

variable {E : Env} {s s' t : State} {r : SysRet} {ev tr : List Event} {stream : Bytes}

/-! ### The bytes of the buffers -/

/-- The bytes of a buffer that are still to be sent. -/
def Batchbuf.unwritten (b : Batchbuf) : Bytes := b.buf.load b.offset b.left

/-- The bytes of all buffers that are still to be sent, front to back. -/
def Connection.unwritten (c : Connection) : Bytes := c.batchRetVector.flatMap Batchbuf.unwritten

theorem Connection.length_unwritten (c : Connection) :
    c.unwritten.length = leftIn c.batchRetVector := by
  simp [Connection.unwritten, List.length_flatMap, leftIn, Batchbuf.unwritten]

theorem Batchbuf.unwritten_fresh : Batchbuf.fresh.unwritten = [] := rfl

/-- What is appended to a buffer that has sent nothing comes last. -/
theorem Batchbuf.unwritten_append {b : Batchbuf} (h : b.offset = 0) (packet : Bytes) :
    (b.append packet packet.length).unwritten = b.unwritten ++ packet := by
  have hstore := Memory.load_store_append b.buf 0 b.datalen packet
  simpa [Batchbuf.unwritten, Batchbuf.append, Batchbuf.left, h] using hstore

theorem Batchbuf.unwritten_skip {b : Batchbuf} {n : Nat} (h : n ≤ b.left) :
    b.buf.load b.offset n ++ (b.skip n).unwritten = b.unwritten := by
  have hleft : (b.skip n).left = b.left - n := Nat.sub_add_eq ..
  rw [unwritten, hleft, skip, ← Memory.load_add, Nat.add_sub_cancel' h]
  rfl

/-- **An answer goes to the end.** -/
theorem BatchOk.unwritten_reply {c : Connection} (h : BatchOk c) (hw : c.workState ≠ .writeBcak)
    (hin : c.inBatchGet = true) : (conRetBuf c).unwritten = c.unwritten ++ c.respPacket := by
  have hopen : c.openBuf.flatMap Batchbuf.unwritten = c.unwritten := by
    unfold Connection.openBuf
    split
    · simp [Connection.unwritten, Batchbuf.unwritten_fresh]
    · rfl
  have hoff := h.openBuf_offset hw
  have hlen : headerSize + c.key.length + c.valuelen = c.respPacket.length :=
    c.length_respPacket.symm
  rw [conRetBuf_batch hin, hlen, ← hopen]
  rcases List.eq_nil_or_concat c.openBuf with hnil | ⟨init, last, heq⟩
  · have hfresh := Batchbuf.unwritten_append (b := .fresh) rfl c.respPacket
    simp [hnil, Connection.unwritten, hfresh, Batchbuf.unwritten_fresh]
  · rw [List.concat_eq_append] at heq
    have hlast := hoff last (by simp [heq])
    simp [heq, Connection.unwritten, Batchbuf.unwritten_append hlast]

/-! ### What a batch has built and sent -/

/-- The answers built for a batch since its head, and the bytes sent since. -/
structure Outgoing where
  built : Bytes
  written : Bytes

/-- A batch head outside a batch opens a new one. -/
def Outgoing.enter (x : Outgoing) : Event → Outgoing
  | .dispatch h false => if h.request.verdict = .batchHead then ⟨[], []⟩ else x
  | .reply true packet => { x with built := x.built ++ packet }
  | .write bytes => { x with written := x.written ++ bytes }
  | _ => x

def outgoing (tr : List Event) : Outgoing := tr.foldl Outgoing.enter ⟨[], []⟩

theorem outgoing_append (a b : List Event) :
    outgoing (a ++ b) = b.foldl Outgoing.enter (outgoing a) := by
  simp [outgoing]

/-- What has been sent and what is in the buffers is what has been built. -/
def Kept (tr : List Event) (c : Connection) : Prop :=
  c.inBatchGet = true → (outgoing tr).written ++ c.unwritten = (outgoing tr).built

/-- A step in which nothing is built or sent, and no batch is opened. -/
theorem Kept.silent {c c' : Connection} (h : Kept tr c)
    (hev : ev.foldl Outgoing.enter (outgoing tr) = outgoing tr)
    (hin : c'.inBatchGet = c.inBatchGet := by simp)
    (hvec : c'.batchRetVector = c.batchRetVector := by simp) : Kept (tr ++ ev) c' := by
  intro hin'
  rw [outgoing_append, hev, Connection.unwritten, hvec]
  exact h (hin ▸ hin')

/-- **A pass keeps the bytes of the batch.** -/
theorem StateOk.kept_pass (hok : StateOk s) (h : Kept tr s.c) (hp : Pass s r s' ev) :
    Kept (tr ++ ev) s'.c := by
  cases hp with
  | headBatch ha hv =>
      intro _
      have hreq : (loadHeader s.c).binaryHeader.request.verdict = .batchHead := by
        rw [loadHeader_request ha.length, hv]
      have hunwritten : ((openBatch (loadHeader s.c)).advance headerSize).unwritten =
          s.c.unwritten := by
        simp [Connection.unwritten, Batchbuf.unwritten_fresh]
      rw [outgoing_append, hunwritten]
      cases hin : s.c.inBatchGet with
      | true => simpa [Outgoing.enter] using h hin
      | false => simp [Outgoing.enter, hreq, Connection.unwritten, hok.control.empty hin]
  | headClosed ha hv | headRefused ha hv | headBody ha hv =>
      have hreq : (loadHeader s.c).binaryHeader.request.verdict ≠ .batchHead := by
        rw [loadHeader_request ha.length, hv]
        simp
      refine h.silent ?_
      cases s.c.inBatchGet <;> simp [Outgoing.enter, hreq]
  | query hc hw =>
      intro hin
      have hin' : s.c.inBatchGet = true := by simpa using hin
      have hq : BatchOk (queryResult s.c (s.table.find s.c.key)) := hok.batch.congr
      have hreply := hq.unwritten_reply (by simp [hw]) (by simpa using hin')
      have hsame : (queryResult s.c (s.table.find s.c.key)).unwritten = s.c.unwritten := by
        simp [Connection.unwritten]
      rw [outgoing_append, hreply, hsame, ← List.append_assoc]
      simp [Outgoing.enter, hin', h hin']
  | batchDone ha => intro hin; simp at hin
  | @batchNext it rest ha hrest hpos hall =>
      intro _
      have hret : r.ret.toNat = it.left := by rw [hall, Int.toNat_natCast]
      have hkept := h ha.inBatch
      simp only [Connection.unwritten, ha.buffers, List.flatMap_cons] at hkept
      rw [outgoing_append]
      simpa [Outgoing.enter, Connection.unwritten, hret, Batchbuf.unwritten] using hkept
  | @batchPart it rest ha hpos hpart =>
      intro _
      have hkept := h ha.inBatch
      have hskip := Batchbuf.unwritten_skip (b := it) (n := r.ret.toNat) (by omega)
      simp only [Connection.unwritten, ha.buffers, List.flatMap_cons, ← hskip] at hkept
      rw [outgoing_append]
      simpa [Outgoing.enter, Connection.unwritten] using hkept
  | singleDone ha | singlePart ha => intro hin; simp [ha.inBatch] at hin
  | _ => exact h.silent rfl

theorem Init.kept_run (h : Init stream s) (hr : Run (Step E) s tr t) : Kept tr t.c := by
  have hstart : Kept [] s.c := by
    obtain ⟨sfd, threadIndex, readBuf, retBuf, hc⟩ := h.conn
    simp [Kept, hc, connNew]
  exact h.ok.along (R := fun tr t => Kept tr t.c) hr hstart id (fun _ h => h)
    fun hok _ _ hkept hp => hok.kept_pass hkept hp

/-! ### When the batch is over -/

/-- **A pass clears `in_batch_get`** exactly with the last byte of the batch. -/
theorem StateOk.cleared_pass (hok : StateOk s) (h : Kept tr s.c) (hin : s.c.inBatchGet = true)
    (hp : Pass s r s' ev) :
    s'.c.inBatchGet = false ↔
      s.c.unwritten ≠ [] ∧ (outgoing (tr ++ ev)).written = (outgoing (tr ++ ev)).built := by
  have hkept := hok.kept_pass h hp
  -- as long as the batch goes on, what is left says whether all has been sent
  have hgoes : s'.c.inBatchGet = true → (s.c.unwritten ≠ [] → s'.c.unwritten ≠ []) →
      (s'.c.inBatchGet = false ↔
        s.c.unwritten ≠ [] ∧ (outgoing (tr ++ ev)).written = (outgoing (tr ++ ev)).built) := by
    intro hin' hmore
    have hsum := hkept hin'
    constructor
    · intro hno
      simp [hin'] at hno
    · rintro ⟨hne, heq⟩
      rw [← heq] at hsum
      exact absurd (List.append_right_eq_self.mp hsum) (hmore hne)
  have hsend : ∀ {it rest}, s.AtSend it rest → ∀ b ∈ it :: rest, b.unwritten ≠ [] := by
    intro it rest ha b hb hnil
    have hpos := hok.batch.left_pos ha b hb
    have hlen := congrArg List.length hnil
    rw [Batchbuf.unwritten, Memory.length_load, List.length_nil] at hlen
    omega
  cases hp with
  | @batchDone it ha hpos hall =>
      have hret : r.ret.toNat = it.left := by rw [hall, Int.toNat_natCast]
      have hsum := h hin
      have hunwritten : s.c.unwritten = it.unwritten := by simp [Connection.unwritten, ha.buffers]
      rw [hunwritten] at hsum ⊢
      refine ⟨fun _ => ⟨hsend ha it List.mem_cons_self, ?_⟩, fun _ => rfl⟩
      rw [outgoing_append]
      simpa [Outgoing.enter, hret, Batchbuf.unwritten] using hsum
  | @batchNext it rest ha hrest hpos hall =>
      refine hgoes (by simpa using hin) fun _ hnil => ?_
      obtain ⟨b, rest', rfl⟩ := List.exists_cons_of_ne_nil hrest
      have hb := hsend ha b (by simp)
      simp [Connection.unwritten] at hnil
      exact hb hnil.1
  | @batchPart it rest ha hpos hpart =>
      refine hgoes (by simpa using hin) fun _ hnil => ?_
      have hlen := congrArg List.length hnil
      rw [Connection.length_unwritten] at hlen
      simp [Batchbuf.left, Batchbuf.skip] at hlen hpart
      omega
  | query hc hw =>
      refine hgoes (by simpa using hin) fun _ hnil => ?_
      have hq : BatchOk (queryResult s.c (s.table.find s.c.key)) := hok.batch.congr
      rw [hq.unwritten_reply (by simp [hw]) (by simpa using hin)] at hnil
      have hlen := congrArg List.length (List.append_eq_nil_iff.mp hnil).2
      rw [Connection.length_respPacket, List.length_nil] at hlen
      simp [headerSize] at hlen
  | headBatch ha hv =>
      exact hgoes (by simp) (by simp [Connection.unwritten, Batchbuf.unwritten_fresh])
  | singleDone ha | singlePart ha => simp [ha.inBatch] at hin
  | _ => exact hgoes (by simpa using hin) (by simp [Connection.unwritten])

/-- A complete batch with bytes to send has the connection send them. -/
def Connection.Held (c : Connection) : Prop :=
  c.inBatchGet = true → c.batchCount = c.batchNum → c.unwritten ≠ [] → c.workState = .writeBcak

theorem Init.held_run (h : Init stream s) (hr : Run (Step Env.headsWanted) s tr t) :
    t.c.Held := by
  have hok := h.ok.run hr
  have hbarren := h.ok.barren_run h.barren hr
  intro hin hcount hne
  by_contra hw
  rcases hok.batch.counting hin hw with hlt | ⟨hzero, -⟩
  · simp [hcount] at hlt
  · have hleft := hbarren hin hzero hw
    rw [← t.c.length_unwritten, List.length_eq_zero_iff] at hleft
    exact hne hleft

/-- A pass after which a complete batch with bytes to send is sent has not opened one. -/
theorem StateOk.headsWanted (hok : StateOk s) (h : (pass s r).1.c.Held) : s.HeadsWanted := by
  intro ha hv hnum
  by_contra hleft
  have hnum' := (loadHeader_batchnum ha.length).trans hnum
  rw [ha.pass_eq hok.control, dispatch_loadHeader ha.length, hv] at h
  have hne : s.c.unwritten ≠ [] := fun hnil => by
    rw [← Connection.length_unwritten, hnil] at hleft
    exact hleft rfl
  have hwork := h (by simp) (by simpa using hnum'.symm)
    (by simpa [Connection.unwritten, Batchbuf.unwritten_fresh] using hne)
  simp at hwork

/-! ### Write-out -/

/-- A batch is written out in order and without loss. -/
structure WrittenOut (tr : List Event) (t : State) : Prop where
  /-- What the socket has accepted since the batch was opened, followed by what is left in
  the buffers, is what has been built since, in this order. -/
  kept : t.c.inBatchGet = true → (outgoing tr).written ++ t.c.unwritten = (outgoing tr).built
  /-- While the batch is complete and has bytes left, no command is parsed. -/
  held : t.c.inBatchGet = true → t.c.batchCount = t.c.batchNum → t.c.unwritten ≠ [] →
    t.c.workState = .writeBcak
  /-- The batch is over exactly with the step that has its last byte accepted. -/
  cleared : t.c.inBatchGet = true → ∀ ev t', Step Env.any t ev t' →
    (t'.c.inBatchGet = false ↔
      t.c.unwritten ≠ [] ∧ (outgoing (tr ++ ev)).written = (outgoing (tr ++ ev)).built)

/-- **Write-out is lossless and in order**, in every run in which no batch head with number
0 is accepted while a batch has answers in its buffers; and a pass that accepts one lets
the next command be parsed before they are sent. -/
theorem written_out (h : Init stream s) (hr : Run (Step Env.headsWanted) s tr t) :
    WrittenOut tr t ∧ ∀ r, t.stop = false → t.exited = false → t.returns r →
      ((pass t r).1.c.Held ↔ t.HeadsWanted) := by
  have hok := h.ok.run hr
  have hkept := h.kept_run hr
  refine ⟨⟨hkept, h.held_run hr, fun hin ev t' hs => ?_⟩, fun r hrun halive hans => ?_⟩
  · have hidle : t'.c = t.c → ev = [] → (t'.c.inBatchGet = false ↔
        t.c.unwritten ≠ [] ∧ (outgoing (tr ++ ev)).written = (outgoing (tr ++ ev)).built) := by
      rintro hc rfl
      rw [hc, hin, List.append_nil, ← hkept hin]
      simp
    cases hs with
    | call => exact hidle rfl rfl
    | others => exact hidle rfl rfl
    | pass hrun halive hans => exact hok.cleared_pass hkept hin (pass_cases hok.control hans)
  · refine ⟨hok.headsWanted, fun hheads => ?_⟩
    exact h.held_run (hr.snoc (.pass hrun halive ⟨hans, hheads⟩))

instance (s : State) (r : SysRet) : Decidable (Env.headsWanted.answer s r) :=
  @instDecidableAnd _ _ (inferInstanceAs (Decidable (Env.any.answer s r)))
    (inferInstanceAs (Decidable s.HeadsWanted))

/-- A batch of two, both answered, of whose 42 bytes the socket has accepted 20. -/
def partlySent : State × List Event :=
  (State.accepted ((Packet.batchHead 2 0 0).bytes ++ (Packet.smallGet 107 0).bytes ++
      (Packet.smallGet 108 1).bytes) .empty).play Env.headsWanted
    (.call :: .ret 38 :: List.replicate 9 (.ret 0) ++ [.ret 20])

theorem written_out_partlySent :
    partlySent.1.c.unwritten.length = 22 ∧ WrittenOut partlySent.2 partlySent.1 :=
  ⟨by decide +kernel, (written_out (State.init_accepted _)
    (State.play_run (E := Env.headsWanted) _ _)).1⟩

/-- A batch of two with one answer, then a head for one GET and a head for none, and a SET. -/
def zeroHead : State × List Event :=
  (State.accepted ((Packet.batchHead 2 0 0).bytes ++ (Packet.smallGet 107 0).bytes ++
      (Packet.batchHead 1 0 0).bytes ++ (Packet.batchHead 0 0 0).bytes ++
      (Packet.smallSet 107).bytes) .empty).play Env.any
    (.call :: .ret 70 :: List.replicate 11 (.ret 0))

/-- The SET is parsed and done before the answer is sent. -/
theorem written_out_zeroHead :
    (.insertOrAssign [107] [1, 2, 3, 4, 5, 6, 7, 8] ∈ zeroHead.2 ∧
      zeroHead.1.c.unwritten.length = 21) ∧
    ¬ ∀ (stream : Bytes) (s t : State) (tr : List Event), Init stream s →
      Run (Step Env.any) s tr t → WrittenOut tr t := by
  refine ⟨by decide +kernel, fun hall => ?_⟩
  have hout : WrittenOut zeroHead.2 zeroHead.1 :=
    hall _ _ _ _ (State.init_accepted _) (State.play_run (E := Env.any) _ _)
  have hheld := hout.held (by decide +kernel) (by decide +kernel) (by decide +kernel)
  revert hheld
  decide +kernel

end MultiportNetwork
