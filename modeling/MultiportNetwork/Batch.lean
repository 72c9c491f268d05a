import MultiportNetwork.Accounting

/-!
# MultiportNetwork.Batch

How many answers does a batch get? `batch_num` and `batch_count` say how many are
wanted and how many there are, and while a batch is open every header must carry
the number of the next answer. Two things slip through that check.

A second batch head inside a batch starts the count again, with the answers built so
far still in the buffers; and a head that asks for no answers opens a batch all the
same. As long as neither happens after the point where it matters (`State.Orderly`)
the counters say what they should, and a batch of `n` GETs is complete with its
`n`-th answer (`accounted_run`). A pass that is not orderly breaks the count at once
(`StateOk.orderly`).
-/

namespace MultiportNetwork

variable {E : Env} {s s' t : State} {r : SysRet} {ev tr : List Event} {stream : Bytes}

/-! ### Counting from the outside -/

/-- The batch last opened from outside a batch: the answers it announced, and those
built since. -/
structure Tally where
  announced : UInt16
  built : Nat

def Tally.enter (x : Tally) : Event → Tally
  | .dispatch h false => if h.request.verdict = .batchHead then ⟨h.batchnum, 0⟩ else x
  | .reply true _ => { x with built := x.built + 1 }
  | _ => x

def tally (tr : List Event) : Tally := tr.foldl Tally.enter ⟨0, 0⟩

theorem tally_append (a b : List Event) : tally (a ++ b) = b.foldl Tally.enter (tally a) := by
  simp [tally]

/-- The counters of a connection describe its batch: there is a buffer just while there
is a batch, no more answers than wanted, and as many as have been built since the head
that opened it; once the answers are complete, they are as many as it announced. -/
structure Accounted (tr : List Event) (c : Connection) : Prop where
  buffers : c.inBatchGet = true ↔ c.batchRetVector ≠ []
  bounded : c.inBatchGet = true → c.batchCount ≤ c.batchNum
  built : c.inBatchGet = true → (tally tr).built = c.batchCount.toNat
  complete : c.inBatchGet = true → c.Unsent → (tally tr).built = (tally tr).announced.toNat

/-- The next pass neither opens a batch inside one that has answers nor answers a GET in
a batch that wants none. -/
structure State.Orderly (s : State) : Prop where
  heads : s.AtHead → (Request.decode s.c.window).verdict = .batchHead →
    s.c.inBatchGet = true → s.c.batchCount = 0
  gets : s.c.connState = .connDealWith → s.c.workState = .queryKey →
    s.c.inBatchGet = true → s.c.batchNum ≠ 0

/-- An environment in which only orderly passes happen. -/
def Env.orderly : Env := Env.any.restrict fun s _ => s.Orderly

/-- What carries `Accounted` from one pass to the next: the batch wants what was
announced, or it wants nothing and has got nothing. -/
structure Counted (tr : List Event) (c : Connection) : Prop where
  built : c.inBatchGet = true → (tally tr).built = c.batchCount.toNat
  bounded : c.inBatchGet = true → c.batchCount ≤ c.batchNum
  announced : c.inBatchGet = true → c.batchNum = (tally tr).announced ∨ c.batchNum = 0

theorem Counted.silent {c c' : Connection} (h : Counted tr c)
    (hev : ev.foldl Tally.enter (tally tr) = tally tr)
    (hin : c'.inBatchGet = c.inBatchGet := by simp)
    (hnum : c'.batchNum = c.batchNum := by simp)
    (hcount : c'.batchCount = c.batchCount := by simp) : Counted (tr ++ ev) c' := by
  refine ⟨?_, ?_, ?_⟩
  · rw [tally_append, hev, hin, hcount]
    exact h.built
  · rw [hin, hnum, hcount]
    exact h.bounded
  · rw [tally_append, hev, hin, hnum]
    exact h.announced

theorem Counted.ofIdle {c : Connection} (hin : c.inBatchGet = false) : Counted tr c := by
  constructor <;> simp [hin]

/-- A head with any verdict but one leaves the tally alone. -/
theorem tally_dispatch {h : RequestHeader} {b : Bool} (hv : h.request.verdict ≠ .batchHead) :
    [Event.dispatch h b].foldl Tally.enter (tally tr) = tally tr := by
  cases b <;> simp [Tally.enter, hv]

theorem StateOk.counted_pass (hok : StateOk s) (h : Counted tr s.c) (horder : s.Orderly)
    (hp : Pass s r s' ev) : Counted (tr ++ ev) s'.c := by
  cases hp with
  | headClosed ha hv | headRefused ha hv | headBody ha hv =>
      exact h.silent (tally_dispatch (by simp [loadHeader_request ha.length, hv]))
  | headBatch ha hv =>
      have hreq := loadHeader_request ha.length
      have hnum := loadHeader_batchnum ha.length
      cases hin : s.c.inBatchGet with
      | false => constructor <;> simp [tally_append, Tally.enter, hreq, hv]
      | true =>
          -- the head's number is that of the next answer, which is the first
          have hcount := horder.heads ha hv hin
          have hbuilt := h.built hin
          have hzero := (ha.turn hin).symm.trans hcount
          rw [hcount] at hbuilt
          constructor <;> simp [tally_append, Tally.enter, hnum, hzero, hbuilt]
  | query hc hw =>
      cases hin : s.c.inBatchGet with
      | false => exact .ofIdle (by simp [hin])
      | true =>
          have hne := horder.gets hc hw hin
          have hq : BatchOk (queryResult s.c (s.table.find s.c.key)) := hok.batch.congr
          have hsucc := hq.count_succ (by simp [hw]) (by simpa using hin)
          rw [queryResult_batchCount] at hsucc
          have hlt : s.c.batchCount < s.c.batchNum := by
            rcases hok.batch.counting hin (by simp [hw]) with hlt | ⟨hzero, -⟩
            · exact hlt
            · exact absurd hzero hne
          rw [conRetBuf_batch (by simpa using hin)]
          refine ⟨fun _ => ?_, fun _ => ?_, fun _ => ?_⟩
          · simp only [queryResult_batchCount, hsucc, ← h.built hin]
            simp [tally_append, Tally.enter]
          · simp only [queryResult_batchCount, queryResult_batchNum]
            rw [UInt16.lt_iff_toNat_lt] at hlt
            rw [UInt16.le_iff_toNat_le, hsucc]
            omega
          · simpa [tally_append, Tally.enter] using h.announced hin
  | batchDone ha hpos hall => exact .ofIdle rfl
  | _ => exact h.silent rfl

theorem StateOk.accounted (hok : StateOk s) (h : Counted tr s.c) : Accounted tr s.c := by
  refine ⟨hok.control.buffers, h.bounded, h.built, fun hin hun => ?_⟩
  have hcount := hok.batch.counted hin hun.1
  rw [h.built hin, hun.2 hin]
  rcases h.announced hin with hann | hzero
  · rw [hann]
  · exact absurd ((hun.2 hin).trans hzero) hcount

/-- A pass that leaves the counters right is orderly: a head that restarts the count
and an answer nobody wanted show at once. -/
theorem StateOk.orderly (hok : StateOk s) (h : Counted tr s.c)
    (hacc : Accounted (tr ++ (pass s r).2) (pass s r).1.c) : s.Orderly := by
  constructor
  · intro ha hv hin
    rw [ha.pass_eq hok.control, dispatch_loadHeader ha.length, hv] at hacc
    have hbuilt := hacc.built (by simp)
    rw [tally_append] at hbuilt
    simp only [List.foldl_cons, List.foldl_nil, hin, Tally.enter, Connection.advance, openBatch,
      h.built hin, UInt16.toNat_zero] at hbuilt
    exact UInt16.toNat_inj.mp hbuilt
  · intro hc hw hin hzero
    have hpass : (pass s r).1.c = conRetBuf (queryResult s.c (s.table.find s.c.key)) := by
      simp only [pass, hc, onConnDealWith, hw, onQueryKey]
    have hq : BatchOk (queryResult s.c (s.table.find s.c.key)) := hok.batch.congr
    have hsucc := hq.count_succ (by simp [hw]) (by simpa using hin)
    have hbounded := hacc.bounded (by simp [hpass, hin])
    rw [hpass, conRetBuf_batch (by simpa using hin)] at hbounded
    simp only [queryResult_batchNum, hzero, UInt16.le_iff_toNat_le, hsucc] at hbounded
    simp at hbounded

/-- **Batch accounting.** In a run all of whose passes are orderly, the counters
describe the batch in every state, and a batch is answered by as many packets as its
head announced. -/
theorem accounted_run (h : Init stream s)
    (hr : Run (Step Env.orderly) s tr t) : Accounted tr t.c := by
  have hstart : Counted [] s.c := by
    obtain ⟨sfd, threadIndex, readBuf, retBuf, hc⟩ := h.conn
    exact .ofIdle (by simp [hc, connNew])
  have hcounted : Counted tr t.c :=
    h.ok.along (R := fun tr t => Counted tr t.c) hr hstart id (fun _ h => h)
      fun hok _ hans hcounted hp => hok.counted_pass hcounted hans.2 hp
  exact (h.ok.run hr).accounted hcounted

instance (s : State) : Decidable s.Orderly :=
  decidable_of_iff
    ((s.AtHead → (Request.decode s.c.window).verdict = .batchHead → s.c.inBatchGet = true →
        s.c.batchCount = 0) ∧
      (s.c.connState = .connDealWith → s.c.workState = .queryKey → s.c.inBatchGet = true →
        s.c.batchNum ≠ 0))
    ⟨fun ⟨hh, hg⟩ => ⟨hh, hg⟩, fun ⟨hh, hg⟩ => ⟨hh, hg⟩⟩

instance (s : State) (r : SysRet) : Decidable (Env.orderly.answer s r) :=
  @instDecidableAnd _ _ (inferInstanceAs (Decidable (Env.any.answer s r)))
    (inferInstanceAs (Decidable s.Orderly))

/-- A batch of two, both answered and not yet sent. -/
def twoAnswered : State × List Event :=
  (State.accepted ((Packet.batchHead 2 0 0).bytes ++ (Packet.smallGet 107 0).bytes ++
      (Packet.smallGet 108 1).bytes) .empty).play Env.orderly
    (.call :: .ret 38 :: List.replicate 9 (.ret 0))

theorem accounted_run_twoAnswered :
    twoAnswered.1.c.inBatchGet = true ∧ Accounted twoAnswered.2 twoAnswered.1.c :=
  ⟨by decide +kernel, accounted_run (State.init_accepted _)
    (State.play_run (E := Env.orderly) _ _)⟩

/-- A head for one GET inside a batch of two that has one answer: the count is back to
none. -/
theorem accounted_nested_head :
    ¬ ∀ (stream : Bytes) (s t : State) (tr : List Event), Init stream s →
      Run (Step Env.any) s tr t → Accounted tr t.c := by
  intro hall
  have hacc := hall _ _ _ _ (State.init_accepted ((Packet.batchHead 2 0 0).bytes ++
      (Packet.smallGet 107 0).bytes ++ (Packet.batchHead 1 0 0).bytes))
    (State.play_run (E := Env.any) _ (.call :: .ret 37 :: List.replicate 7 (.ret 0)))
  have hbuilt := hacc.built (by decide +kernel)
  revert hbuilt
  decide +kernel

end MultiportNetwork
