import MultiportNetwork.Server.Progress
import MultiportNetwork.WriteOut

/-!
# MultiportNetwork.BufferBounds

How full the buffers of a batch get. `con_ret_buf` opens a new buffer by the length of
the connection's `value`, and on a miss appends the eight bytes of `NOTFOUND` instead.
So a buffer overflows exactly if a miss meets a shorter value while the last buffer is
nearly full (`buffers_fit`), which takes a connection that has not seen a value yet.
-/

namespace MultiportNetwork

variable {E : Env} {s s' t : State} {r : SysRet} {ev tr : List Event} {stream : Bytes}

/-- Every buffer of the batch is within its allocation. Nothing in the code says so: the
buffers come from `malloc(BATCH_BUF_SIZE)`, and `con_ret_buf` copies to `datalen` without
looking again. -/
def Connection.Fits (c : Connection) : Prop :=
  ∀ b ∈ c.batchRetVector, b.offset ≤ b.datalen ∧ b.datalen ≤ batchBufSize

/-- The next pass answers a miss in a batch, for which `con_ret_buf` opens no buffer
although the last one has no room for it. -/
structure State.Overruns (s : State) : Prop where
  conn : s.c.connState = .connDealWith
  work : s.c.workState = .queryKey
  inBatch : s.c.inBatchGet = true
  missed : s.table.find s.c.key = none
  /-- By the length of `value`, which is what an earlier SET or hit has left there. -/
  stays : s.c.needNewBuf = false
  /-- What is appended is a header, the key and `NOTFOUND`. -/
  full : batchBufSize < s.c.back.datalen + headerSize + s.c.key.length + 8

/-- Only other passes happen. -/
def Env.roomy : Env := Env.any.restrict fun s _ => ¬ s.Overruns

/-! ### One answer -/

/-- An answer fits unless it goes to a buffer that has no room for it. A fresh buffer has
room for anything that was once in the receive buffer, which is much smaller. -/
theorem Connection.fits_reply {c : Connection} (h : c.Fits) (hin : c.inBatchGet = true)
    (hne : c.batchRetVector ≠ []) (hoff : ∀ b ∈ c.batchRetVector, b.offset = 0)
    (hkey : c.key.length ≤ initReadBufSize) (hvalue : c.value.length ≤ initReadBufSize) :
    (conRetBuf c).Fits ↔
      (c.needNewBuf = false →
        c.back.datalen + headerSize + c.key.length + c.valuelen ≤ batchBufSize) := by
  rw [conRetBuf_batch hin]
  cases hnew : c.needNewBuf with
  | true =>
      have hlen : c.valuelen ≤ initReadBufSize := by
        unfold Connection.valuelen
        split
        · exact hvalue
        · decide
      simp only [initReadBufSize] at hkey hlen
      -- a new buffer is opened, for this answer alone
      refine ⟨fun _ hno => by simp at hno, fun _ b hb => ?_⟩
      simp only [Connection.openBuf, hnew, if_true, List.dropLast_concat, List.getLastD_concat,
        List.mem_append, List.mem_singleton] at hb
      rcases hb with hb | rfl
      · exact h b hb
      · simp only [Batchbuf.append, Batchbuf.fresh, headerSize, batchBufSize]
        omega
  | false =>
      -- the answer goes behind what the last buffer has, and the others stay as they are
      obtain ⟨init, last, heq⟩ := (List.eq_nil_or_concat c.batchRetVector).resolve_left hne
      rw [List.concat_eq_append] at heq
      have hback : c.back = last := by simp [Connection.back, heq]
      have hlast := hoff last (by simp [heq])
      have hopen : c.openBuf = init ++ [last] := by simp [Connection.openBuf, hnew, heq]
      simp only [hopen, hback, List.dropLast_concat, List.getLastD_concat]
      constructor
      · intro hfits _
        have hbound := (hfits _ (List.mem_append_right init (List.mem_singleton_self _))).2
        simp only [Batchbuf.append] at hbound
        omega
      · intro hroom b hb
        have hbound := hroom trivial
        simp only [List.mem_append, List.mem_singleton] at hb
        rcases hb with hb | rfl
        · exact h b (by simp [heq, hb])
        · simp only [Batchbuf.append, hlast]
          omega

/-- **A pass keeps the buffers within bounds** exactly if it does not overrun one. Only the
query appends; `send_batch` drops bytes from the front, and a batch head opens an empty
buffer. -/
theorem StateOk.fits_pass (hok : StateOk s) (h : s.c.Fits) (hp : Pass s r s' ev) :
    s'.c.Fits ↔ ¬ s.Overruns := by
  have hquiet : s.c.workState ≠ .queryKey → s'.c.Fits → (s'.c.Fits ↔ ¬ s.Overruns) :=
    fun hw hfits => ⟨fun _ hover => hw hover.work, fun _ => hfits⟩
  have hsame : s.c.workState ≠ .queryKey → s'.c.batchRetVector = s.c.batchRetVector →
      (s'.c.Fits ↔ ¬ s.Overruns) := fun hw hvec =>
    hquiet hw (by rw [Connection.Fits, hvec]; exact h)
  cases hp with
  | query hc hw =>
      -- no buffer has been sent from yet, so all of its bytes count
      have hoff := hok.batch.unsent (fun hun => by simp [hun.1] at hw)
      have hq : (queryResult s.c (s.table.find s.c.key)).Fits := by
        rw [Connection.Fits, queryResult_batchRetVector]
        exact h
      cases hin : s.c.inBatchGet with
      | false =>
          refine ⟨fun _ hover => by simp [hover.inBatch] at hin, fun _ => ?_⟩
          rw [conRetBuf_single (by simpa using hin)]
          exact hq
      | true =>
          refine (Connection.fits_reply hq (by simpa using hin)
            (by simpa using hok.control.buffers.mp hin) (by simpa using hoff)
            (by simpa using hok.data.key) (by simpa using hok.data.found)).trans ?_
          have hback : (queryResult s.c (s.table.find s.c.key)).back = s.c.back := by
            simp [Connection.back]
          rw [hback, queryResult_key]
          cases hf : s.table.find s.c.key with
          | none =>
              -- the test for room was made with `value`, the copy is of eight bytes
              have hnew : (queryResult s.c none).needNewBuf = s.c.needNewBuf := rfl
              have hlen : (queryResult s.c none).valuelen = 8 := rfl
              rw [hnew, hlen]
              refine ⟨fun hroom hover => ?_, fun hnot hstays => ?_⟩
              · exact absurd (hroom hover.stays) (Nat.not_le.mpr hover.full)
              · by_contra hfull
                exact hnot ⟨hc, hw, hin, hf, hstays, Nat.not_le.mp hfull⟩
          | some v =>
              -- the test was made with the value that is copied
              refine ⟨fun _ hover => by simp [hover.missed] at hf, fun _ hnew => ?_⟩
              rw [hf] at hback
              simpa [Connection.needNewBuf, hback, Connection.valuelen] using hnew
  | headBatch ha hv =>
      refine hquiet (by simp [ha.work]) fun b hb => ?_
      simp only [Connection.advance, openBatch, loadHeader, List.mem_append,
        List.mem_singleton] at hb
      rcases hb with hb | rfl
      · exact h b hb
      · exact ⟨Nat.le_refl 0, Nat.zero_le _⟩
  | batchDone ha => exact hquiet (by simp [ha.work]) (by simp [Connection.Fits])
  | batchNext ha =>
      refine hquiet (by simp [ha.work]) fun b hb => h b ?_
      rw [ha.buffers]
      exact List.mem_cons_of_mem _ (by simpa using hb)
  | @batchPart it rest ha hpos hpart =>
      refine hquiet (by simp [ha.work]) fun b hb => ?_
      have hb' : b ∈ it.skip r.ret.toNat :: rest := by simpa using hb
      rcases List.mem_cons.mp hb' with rfl | hb'
      · have hit := h it (by simp [ha.buffers])
        simp only [Batchbuf.left] at hpart
        simp only [Batchbuf.skip]
        omega
      · exact h b (by simp [ha.buffers, hb'])
  | readData hc hw | readEof hc hw | readNone hc hw | waitRead hc hw =>
      refine hsame ?_ (by simp)
      rcases hw with ⟨hw, -⟩ | ⟨hw, -⟩ <;> simp [hw]
  | waitWrite hc hw => exact hsame (by simp [hw.1]) rfl
  | closing hc =>
      have hnot : ¬ s.Overruns := fun hover => by simp [hover.conn] at hc
      exact ⟨fun _ => hnot, fun _ => h⟩
  | headClosed ha | headRefused ha | headBody ha => exact hsame (by simp [ha.work]) (by simp)
  | bodySet ha | bodyGet ha | singleBlocked ha | singleFailed ha | singleDone ha | singlePart ha
  | batchBlocked ha | batchFailed ha => exact hsame (by simp [ha.work]) (by simp)
  | _ hc hw => exact hsame (by simp [hw]) (by simp)

/-- **Batch buffers never overflow** in a run none of whose passes overruns one; and a pass
that does leaves a buffer with more bytes than have been allocated for it. -/
theorem buffers_fit (h : Init stream s) (hr : Run (Step Env.roomy) s tr t) :
    t.c.Fits ∧ ∀ r, t.stop = false → t.exited = false → t.returns r →
      ((pass t r).1.c.Fits ↔ ¬ t.Overruns) := by
  have hstart : s.c.Fits := by
    obtain ⟨sfd, threadIndex, readBuf, retBuf, hc⟩ := h.conn
    simp [Connection.Fits, hc, connNew]
  have hfits : t.c.Fits := h.ok.along (R := fun _ t => t.c.Fits) hr hstart id (fun _ h => h)
    fun hok _ hans hfits hp => (hok.fits_pass hfits hp).mpr hans.2
  have hok := h.ok.run hr
  exact ⟨hfits, fun r _ _ hans => hok.fits_pass hfits (pass_cases hok.control hans)⟩

instance (s : State) : Decidable s.Overruns :=
  decidable_of_iff (s.c.connState = .connDealWith ∧ s.c.workState = .queryKey ∧
      s.c.inBatchGet = true ∧ s.table.find s.c.key = none ∧ s.c.needNewBuf = false ∧
      batchBufSize < s.c.back.datalen + headerSize + s.c.key.length + 8)
    ⟨fun ⟨hc, hw, hin, hm, hs, hf⟩ => ⟨hc, hw, hin, hm, hs, hf⟩,
      fun ⟨hc, hw, hin, hm, hs, hf⟩ => ⟨hc, hw, hin, hm, hs, hf⟩⟩

instance (s : State) (r : SysRet) : Decidable (Env.roomy.answer s r) :=
  @instDecidableAnd _ _ (inferInstanceAs (Decidable (Env.any.answer s r)))
    (inferInstanceAs (Decidable ¬ s.Overruns))

/-- Two misses in a batch of two. -/
def twoMisses : State × List Event :=
  (State.accepted ((Packet.batchHead 2 0 0).bytes ++ (Packet.smallGet 107 0).bytes ++
      (Packet.smallGet 108 1).bytes) .empty).play Env.roomy
    (.call :: .ret 38 :: List.replicate 9 (.ret 0))

theorem buffers_fit_twoMisses :
    twoMisses.1.c.batchRetVector.map Batchbuf.datalen = [42] ∧ twoMisses.1.c.Fits :=
  ⟨by decide +kernel,
    (buffers_fit (State.init_accepted _) (State.play_run (E := Env.roomy) _ _)).1⟩

/-! ### A batch of misses on a fresh connection

That a run can overrun a buffer takes a batch of hundreds of answers, far too many passes
to compute. So the run is not computed: the refinement gives a run in which all commands
are carried out, and the invariant `Missing` says how many bytes each miss has added. -/

/-- How many bytes the buffers have, after one more miss on a key of `keylen` bytes where
there is no value. -/
def fillMiss (lens : List Nat) (keylen : Nat) : List Nat :=
  if batchBufSize < lens.getLastD 0 + headerSize + keylen then
    lens ++ [headerSize + keylen + 8]
  else lens.dropLast ++ [lens.getLastD 0 + (headerSize + keylen + 8)]

/-- The bytes in the buffers of a batch that has answered misses on these keys. -/
def fills (keys : List Bytes) : List Nat := (keys.map List.length).foldl fillMiss [0]

theorem fills_append (keys : List Bytes) (k : Bytes) :
    fills (keys ++ [k]) = fillMiss (fills keys) k.length := by
  simp [fills]

theorem getLastD_map_datalen (l : List Batchbuf) :
    (l.map Batchbuf.datalen).getLastD 0 = (l.getLastD .fresh).datalen := by
  rcases List.eq_nil_or_concat l with rfl | ⟨init, last, rfl⟩
  · rfl
  · simp

/-- What a miss appends, in numbers. -/
theorem datalens_miss {c : Connection} (hin : c.inBatchGet = true) (hhit : c.queryHit = false)
    (hvalue : c.value = []) :
    (conRetBuf c).batchRetVector.map Batchbuf.datalen =
      fillMiss (c.batchRetVector.map Batchbuf.datalen) c.key.length := by
  have hlen : c.valuelen = 8 := by simp [Connection.valuelen, hhit]
  have hback : (c.batchRetVector.map Batchbuf.datalen).getLastD 0 = c.back.datalen :=
    getLastD_map_datalen _
  rw [conRetBuf_batch hin, fillMiss, hback]
  by_cases hfull : batchBufSize < c.back.datalen + headerSize + c.key.length
  · have hnew : c.needNewBuf = true := by simp [Connection.needNewBuf, hvalue, hfull]
    simp only [Connection.openBuf, hnew, if_true, if_pos hfull, List.dropLast_concat,
      List.getLastD_concat, List.map_append, List.map_cons, List.map_nil, Batchbuf.append, hlen]
    rw [Batchbuf.fresh, Nat.zero_add]
  · have hnew : c.needNewBuf = false := by simpa [Connection.needNewBuf, hvalue] using hfull
    simp only [Connection.openBuf, hnew, Bool.false_eq_true, if_false, if_neg hfull,
      List.map_append, List.map_cons, List.map_nil, Batchbuf.append, hlen, List.map_dropLast]
    rfl

/-- A connection that is sent a head for `n` GETs and GETs of absent keys, and has
executed `tr`. -/
structure Missing (n : UInt16) (keys : List Bytes) (tr : List Event) (t : State) : Prop where
  /-- What has been executed and what is still to be are the commands of the stream. -/
  plan : executed tr ++ t.forecast = .batchHead n :: keys.map .get
  /-- There is no SET in the stream, so every GET is a miss. -/
  table : t.table = .empty
  /-- And `value`, which the test for room reads, is never written. -/
  value : t.c.value = []
  idle : executed tr = [] → t.c.inBatchGet = false
  /-- After the head and these GETs the buffers have as many bytes as `fills` says. -/
  loaded : ∀ done, executed tr = .batchHead n :: done.map .get →
    t.c.inBatchGet = true ∧ t.c.batchNum = n ∧ t.c.batchCount.toNat = done.length ∧
      t.c.batchRetVector.map Batchbuf.datalen = fills done

variable {n : UInt16} {keys : List Bytes}

/-- A step that executes nothing and leaves the batch alone. -/
theorem Missing.silent (h : Missing n keys tr s)
    (hplan : executed (tr ++ ev) ++ s'.forecast = .batchHead n :: keys.map .get)
    (hev : executed ev = []) (htable : s'.table = s.table := by rfl)
    (hvalue : s'.c.value = s.c.value := by simp) (hin : s'.c.inBatchGet = s.c.inBatchGet := by simp)
    (hnum : s'.c.batchNum = s.c.batchNum := by simp)
    (hcount : s'.c.batchCount = s.c.batchCount := by simp)
    (hvec : s'.c.batchRetVector = s.c.batchRetVector := by simp) :
    Missing n keys (tr ++ ev) s' := by
  refine ⟨hplan, htable ▸ h.table, hvalue ▸ h.value, ?_, ?_⟩
  · rw [executed_append, hev, List.append_nil, hin]
    exact h.idle
  · rw [executed_append, hev, List.append_nil, hin, hnum, hcount, hvec]
    exact h.loaded

/-- How far such a connection can have got. -/
theorem planned {cs rest : List Command} (h : cs ++ rest = .batchHead n :: keys.map .get) :
    cs = [] ∨ ∃ done : List Bytes,
      cs = .batchHead n :: done.map .get ∧ done.length ≤ keys.length := by
  rcases List.append_eq_cons_iff.mp h with ⟨rfl, -⟩ | ⟨cs', rfl, heq⟩
  · exact .inl rfl
  · obtain ⟨done, left, hkeys, rfl, -⟩ := List.append_eq_map_iff.mp heq.symm
    exact .inr ⟨done, rfl, by simp [hkeys]⟩

/-- One pass. The batch wants more GETs than there are, so it is never complete and nothing
of it is sent; a store or a refused header is not in the plan; what remains is the batch
head, which sets `loaded` up, and a query, which adds one miss to it. -/
theorem Missing.pass (hok : StateOk s) (halive : s.exited = false) (h : Missing n keys tr s)
    (hn : keys.length < n.toNat) (hp : Pass s r s' ev)
    (hplan : executed (tr ++ ev) ++ s'.forecast = .batchHead n :: keys.map .get) :
    Missing n keys (tr ++ ev) s' := by
  have hmem : ∀ c ∈ executed (tr ++ ev) ++ s'.forecast, c = .batchHead n ∨ ∃ k, c = .get k := by
    intro c hc
    rw [hplan, List.mem_cons, List.mem_map] at hc
    rcases hc with rfl | ⟨k, -, rfl⟩
    · exact .inl rfl
    · exact .inr ⟨k, rfl⟩
  have hopen : s.c.inBatchGet = true → s.c.batchCount ≠ s.c.batchNum := by
    intro hin hcount
    rcases planned h.plan with hnil | ⟨done, hdone, hle⟩
    · simp [h.idle hnil] at hin
    · obtain ⟨-, hnum, hlen, -⟩ := h.loaded done hdone
      rw [hcount, hnum] at hlen
      omega
  cases hp with
  | batchBlocked ha | batchFailed ha | batchDone ha | batchNext ha | batchPart ha =>
      exact absurd ha.count (hopen ha.inBatch)
  | headClosed ha hv | headRefused ha hv =>
      have hreq := loadHeader_request ha.length
      rcases hmem (.refused (Request.decode s.c.window))
        (by simp [executed, Event.commands, hreq, hv]) with hc | ⟨k, hc⟩ <;> cases hc
  | store hc hw =>
      rcases hmem (.set s.c.key s.c.value)
        (by simp [executed, Event.commands]) with hc | ⟨k, hc⟩ <;> cases hc
  | bodySet hb hop =>
      -- the SET would be executed next
      rcases hmem _ (List.mem_append_right _ (List.mem_append_left _
        (by simp [State.pending, halive, hb.conn]; rfl))) with hc | ⟨k, hc⟩ <;> cases hc
  | headBody ha hv =>
      refine h.silent hplan ?_
      simp [executed, Event.commands, loadHeader_request ha.length, hv]
  | headBatch ha hv =>
      have hreq := loadHeader_request ha.length
      have hev : executed [.dispatch (loadHeader s.c).binaryHeader s.c.inBatchGet] =
          [.batchHead (loadHeader s.c).binaryHeader.batchnum] := by
        simp [executed, Event.commands, hreq, hv]
      rw [executed_append, hev] at hplan
      rcases planned h.plan with hnil | ⟨done, hdone, -⟩
      · -- the head of the plan: the batch begins with one empty buffer
        rw [hnil, List.nil_append, List.singleton_append] at hplan
        obtain ⟨hnum, hrest⟩ := List.cons.inj hplan
        have hnum' : (loadHeader s.c).binaryHeader.batchnum = n := by simpa using hnum
        have hempty := hok.control.empty (h.idle hnil)
        refine ⟨?_, h.table, by simpa using h.value, ?_, ?_⟩
        · rw [executed_append, hnil, hev]
          exact hplan
        · simp [hev]
        · intro done hdone
          rw [executed_append, hnil, hev, List.nil_append] at hdone
          obtain rfl : done = [] := by simpa using (List.cons.inj hdone).2.symm
          simp [hnum', hempty, fills, Batchbuf.fresh]
      · -- there is no second one in the plan
        rw [hdone] at hplan
        have hlater : .batchHead (loadHeader s.c).binaryHeader.batchnum ∈
            keys.map Command.get := by
          rw [← (List.cons.inj hplan).2]
          simp
        obtain ⟨k, -, hk⟩ := List.mem_map.mp hlater
        cases hk
  | query hc hw =>
      have hfound : s.table.find s.c.key = none := by rw [h.table]; rfl
      have hev : ∀ b p, executed [.find s.c.key (s.table.find s.c.key), .reply b p] =
          [.get s.c.key] := fun _ _ => rfl
      have hplan' := hplan
      rw [executed_append, hev] at hplan'
      rcases planned h.plan with hnil | ⟨done, hdone, -⟩
      · rw [hnil] at hplan'
        cases (List.cons.inj hplan').1
      · -- the count and the bytes go up together
        obtain ⟨hin, hnum, hcount, hvec⟩ := h.loaded done hdone
        have hq : BatchOk (queryResult s.c (s.table.find s.c.key)) := hok.batch.congr
        have hsucc := hq.count_succ (by simp [hw]) (by simpa using hin)
        have hlens := datalens_miss (c := queryResult s.c (s.table.find s.c.key))
          (by simpa using hin) (by simp [hfound]) (by simp [hfound, h.value])
        refine ⟨hplan, h.table, by simp [hfound, h.value], ?_, ?_⟩
        · simp [executed_append, hev]
        · intro done' hdone'
          obtain rfl : done' = done ++ [s.c.key] := by
            rw [executed_append, hev, hdone] at hdone'
            refine List.map_injective_iff.mpr (fun _ _ => Command.get.inj) ?_
            simpa using (List.cons.inj hdone').2.symm
          rw [hlens]
          refine ⟨by simpa using hin, by simpa using hnum, ?_, ?_⟩
          · rw [conRetBuf_batch (by simpa using hin)]
            simpa [hcount] using hsucc
          · rw [fills_append, ← hvec]
            simp
  | _ => exact h.silent hplan rfl

/-- In every state of a run that nothing disturbs. -/
theorem Init.missing_run (h : Init stream s) (htable : s.table = .empty) (hvalue : s.c.value = [])
    (hplan : commandsIn (.head none) stream = .batchHead n :: keys.map .get)
    (hn : keys.length < n.toNat) (hr : Run (Solo Env.accepting) s tr t) :
    Missing n keys tr t := by
  have hidle : s.c.inBatchGet = false := by
    obtain ⟨sfd, threadIndex, readBuf, retBuf, hc⟩ := h.conn
    simp [hc, connNew]
  have hrel : Run (Step Env.benign) s tr t ∧ Missing n keys tr t := by
    refine hr.relate (R := fun tr t => Run (Step Env.benign) s tr t ∧ Missing n keys tr t)
      ⟨.refl s, h.forecast.trans hplan, htable, hvalue, fun _ => hidle, by simp⟩ ?_
    rintro tr a ev b ⟨hr, hmissing⟩ hs
    have hr' := hr.snoc hs.step.ofAccepting
    have hplan' := (h.refines hr').1.trans hplan
    refine ⟨hr', ?_⟩
    have hok := h.ok.run hr
    cases hs with
    | call => exact hmissing.silent hplan' rfl rfl rfl rfl rfl rfl rfl
    | pass hrun halive hans =>
        exact hmissing.pass hok halive hn
          (pass_cases hok.control (Env.accepting.returns hans)) hplan'
  exact hrel.2

/-- A GET of a key of `keylen` bytes. -/
def Packet.longGet (keylen batchnum : Nat) : Packet :=
  ⟨{ magic := 0x80, opcode := 1, keylen := UInt16.ofNat keylen, batchnum := UInt16.ofNat batchnum,
     totalbodylen := UInt32.ofNat keylen }, List.replicate keylen 107⟩

theorem Packet.isGet_longGet {keylen batchnum : Nat} (hpos : 1 ≤ keylen)
    (hfits : keylen ≤ initReadBufSize) : (longGet keylen batchnum).IsGet := by
  have hle : keylen ≤ 1000 := hfits
  have hkey : (UInt16.ofNat keylen).toNat = keylen :=
    UInt16.toNat_ofNat_of_lt' (by simp only [UInt16.size]; omega)
  have hbody : (UInt32.ofNat keylen).toNat = keylen :=
    UInt32.toNat_ofNat_of_lt' (by simp only [UInt32.size]; omega)
  refine ⟨rfl, rfl, ?_, ?_, ?_, ?_⟩
  · rw [longGet, hkey]
    exact hpos
  · rw [longGet, hkey, hbody]
  · rw [longGet, hbody]
    exact hfits
  · rw [longGet, hbody, List.length_replicate]

/-- 999 GETs whose answers take 1000 bytes each, and one that leaves room for the header
and the key of its answer, but not for `NOTFOUND`. -/
def overrunGets : List Packet :=
  (List.range 1000).map fun i => Packet.longGet (if i < 999 then 980 else 988) i

theorem length_overrunGets : overrunGets.length = 1000 := by
  rw [overrunGets, List.length_map, List.length_range]

theorem numbered_overrunGets : NumberedGets 0 overrunGets := by
  intro i hi
  have hlt : i < 1000 := length_overrunGets ▸ hi
  simp only [overrunGets, List.getElem_map, List.getElem_range]
  refine ⟨Packet.isGet_longGet (by split <;> omega) (by split <;> decide), ?_⟩
  rw [Packet.longGet, UInt16.toNat_ofNat_of_lt' (by simp only [UInt16.size]; omega)]
  omega

theorem fills_overrunGets : fills (overrunGets.map Packet.body) = [1000008] := by
  have hlens : (overrunGets.map Packet.body).map List.length =
      (List.range 1000).map fun i => if i < 999 then 980 else 988 := by
    rw [overrunGets, List.map_map, List.map_map]
    exact List.map_congr_left fun i _ => List.length_replicate
  rw [fills, hlens]
  decide +kernel

/-- A batch that wants one more answer than it is asked for. -/
def overrunStream : Bytes :=
  (Packet.batchHead 1001 0 0).bytes ++ (overrunGets.flatMap Packet.bytes ++ [])

/-- The run carries out the whole stream, so `Missing` says that its one buffer has eight
bytes more than have been allocated. -/
theorem buffers_fit_overrun :
    ¬ ∀ (stream : Bytes) (s t : State) (tr : List Event), Init stream s →
      Run (Step Env.any) s tr t → t.c.Fits := by
  intro hall
  have hhead : (Packet.batchHead 1001 0 0).IsBatchHead 1001 := ⟨rfl, rfl, rfl, by decide, rfl⟩
  have hlen := length_overrunGets
  obtain ⟨hcmds, hsession⟩ := hhead.parse (S := overrunGets.flatMap Packet.bytes ++ [])
    (Nat.le_refl 0)
  obtain ⟨hcmds', hsession'⟩ := numbered_overrunGets.parse (n := 1001) (S := [])
    (by rw [hlen]; decide)
  have hbatch : batchAt 1001 (0 + overrunGets.length) = .head (some ⟨1001, 1000⟩) := by
    rw [hlen]
    rfl
  rw [hbatch] at hcmds' hsession'
  -- the stream is a batch head and a thousand GETs, as the protocol reads it
  have hplan : commandsIn (.head none) overrunStream =
      .batchHead 1001 :: (overrunGets.map Packet.body).map .get := by
    have hzero : commandsIn (.head (some ⟨1001, 1000⟩)) [] = [] := commandsIn_none rfl
    refine hcmds.trans (congrArg _ (hcmds'.trans ?_))
    rw [hzero, List.append_nil, List.map_map]
    rfl
  have hspin : sessionAfter (.head none) overrunStream ≠ .spinning := by
    rw [overrunStream, hsession]
    refine fun heq => absurd (hsession'.symm.trans heq) ?_
    rw [sessionAfter_none rfl]
    simp
  -- some run carries all of it out
  have hinit := State.init_accepted overrunStream
  obtain ⟨tr, t, hr, hexecuted, -⟩ := hinit.carried_out hspin
  have hmissing := hinit.missing_run rfl rfl hplan (by simp [hlen]) hr
  have hfits := hall _ _ _ _ hinit (hr.mono fun _ _ _ hs => hs.any.step)
  obtain ⟨-, -, -, hlens⟩ := hmissing.loaded _ (hexecuted.trans hplan)
  rw [fills_overrunGets] at hlens
  obtain ⟨b, hb, hdatalen⟩ : ∃ b ∈ t.c.batchRetVector, b.datalen = 1000008 := by
    have hmem : 1000008 ∈ t.c.batchRetVector.map Batchbuf.datalen := by simp [hlens]
    simpa using hmem
  have hle := (hfits b hb).2
  rw [hdatalen] at hle
  exact absurd hle (by decide)

end MultiportNetwork
