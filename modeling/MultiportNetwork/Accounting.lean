import MultiportNetwork.Framing

/-!
# MultiportNetwork.Accounting

What a connection owes, and what it believes it owes.

Every byte the socket accepts comes off `ret_bytes` or off a batch buffer, and
every answer adds to one of them (`StateOk.owed_run`). A miss adds to `ret_bytes`
even inside a batch, where the answer goes to a buffer: these bytes are still
there when the batch is over (`rest_clean_iff`).
-/

namespace MultiportNetwork

variable {E : Env} {s s' t t' : State} {r : SysRet} {ev tr : List Event} {stream : Bytes}

/-! ### Bytes -/

/-- The bytes of all buffers that are still to be sent. -/
def leftIn (buffers : List Batchbuf) : Nat := (buffers.map Batchbuf.left).sum

/-- The bytes a connection holds itself liable for. -/
def Connection.owed (c : Connection) : Nat := c.retBytes + leftIn c.batchRetVector

/-- What an event adds to that: an answer its bytes, and a miss the same once more. -/
def Event.charge : Event → Nat
  | .find k none => headerSize + k.length + 8
  | .reply _ packet => packet.length
  | _ => 0

/-- The bytes an event puts on the wire. -/
def Event.sent : Event → Nat
  | .write bytes => bytes.length
  | _ => 0

def charged (tr : List Event) : Nat := (tr.map Event.charge).sum
def bytesSent (tr : List Event) : Nat := (tr.map Event.sent).sum

@[simp] theorem charged_append (a b : List Event) : charged (a ++ b) = charged a + charged b := by
  simp [charged]

@[simp] theorem bytesSent_append (a b : List Event) :
    bytesSent (a ++ b) = bytesSent a + bytesSent b := by
  simp [bytesSent]

@[simp] theorem leftIn_nil : leftIn [] = 0 := rfl
@[simp] theorem leftIn_cons (b : Batchbuf) (l : List Batchbuf) :
    leftIn (b :: l) = b.left + leftIn l := by
  simp [leftIn]
@[simp] theorem leftIn_append (a b : List Batchbuf) : leftIn (a ++ b) = leftIn a + leftIn b := by
  simp [leftIn]

theorem left_fresh : Batchbuf.fresh.left = 0 := rfl

/-- An answer appended to the last buffer adds its length. -/
theorem BatchOk.leftIn_openBuf {c : Connection} (h : BatchOk c) (hw : c.workState ≠ .writeBcak)
    (packet : Bytes) (len : Nat) :
    leftIn (c.openBuf.dropLast ++ [(c.openBuf.getLastD .fresh).append packet len]) =
      leftIn c.batchRetVector + len := by
  have hopen : leftIn c.openBuf = leftIn c.batchRetVector := by
    unfold Connection.openBuf
    split
    · simp [left_fresh]
    · rfl
  have hoff := h.openBuf_offset hw
  rcases List.eq_nil_or_concat c.openBuf with hnil | ⟨init, last, heq⟩
  · rw [hnil] at hopen ⊢
    simp only [leftIn_nil] at hopen
    simp [← hopen, Batchbuf.left, Batchbuf.append, Batchbuf.fresh]
  · rw [List.concat_eq_append] at heq
    rw [heq] at hopen ⊢
    have hlast := hoff last (by simp [heq])
    rw [← hopen, List.dropLast_concat, List.getLastD_concat]
    simp [Batchbuf.left, Batchbuf.append, hlast, Nat.add_assoc]

/-- What a lookup and its answer add to the debt. -/
theorem BatchOk.owed_query {c : Connection} (h : BatchOk c) (hw : c.workState ≠ .writeBcak)
    (found : Option Bytes) :
    (conRetBuf (queryResult c found)).owed =
      c.owed +
        charged [.find c.key found, .reply c.inBatchGet (queryResult c found).respPacket] := by
  have hq : BatchOk (queryResult c found) := h.congr
  have hcharge : charged [.find c.key found, .reply c.inBatchGet (queryResult c found).respPacket] =
      (if (queryResult c found).queryHit then 0 else headerSize + c.key.length + 8) +
        (headerSize + c.key.length + (queryResult c found).valuelen) := by
    have hlen := Connection.length_respPacket (queryResult c found)
    rw [queryResult_key] at hlen
    cases found <;> simp [charged, Event.charge, hlen]
  rw [hcharge]
  cases hin : c.inBatchGet with
  | true =>
      have hleft := hq.leftIn_openBuf (by simpa using hw) (queryResult c found).respPacket
        (headerSize + c.key.length + (queryResult c found).valuelen)
      rw [conRetBuf_batch (by simpa using hin), Connection.owed]
      simp only [hleft, queryResult_key, queryResult_retBytes, queryResult_batchRetVector,
        Connection.owed]
      omega
  | false =>
      rw [conRetBuf_single (by simpa using hin)]
      simp only [Connection.owed, queryResult_key, queryResult_retBytes,
        queryResult_batchRetVector]
      omega

/-- **Every byte is accounted for**: what a pass sends comes off the debt. -/
theorem StateOk.owed_pass (h : StateOk s) (hp : Pass s r s' ev) :
    bytesSent ev + s'.c.owed = s.c.owed + charged ev := by
  cases hp with
  | headBatch ha hv =>
      simp [Connection.owed, bytesSent, charged, Event.sent, Event.charge, left_fresh]
  | query hc hw =>
      rw [h.batch.owed_query (by simp [hw])]
      simp [bytesSent, Event.sent]
  | batchDone ha hpos hall | batchNext ha hrest hpos hall =>
      have hsent := congrArg Int.toNat hall
      rw [Int.toNat_natCast] at hsent
      simp [Connection.owed, bytesSent, charged, Event.sent, Event.charge, ha.buffers, hsent]
      omega
  | batchPart ha hpos hpart =>
      simp [Connection.owed, bytesSent, charged, Event.sent, Event.charge, ha.buffers,
        Batchbuf.left, Batchbuf.skip] at hpart ⊢
      omega
  | singleDone ha hpos hall =>
      have hsent : r.ret.toNat = s.c.retBytes := by rw [hall, Int.toNat_natCast]
      simp [Connection.owed, bytesSent, charged, Event.sent, Event.charge, hsent]
  | singlePart ha hpos hpart =>
      simp [Connection.owed, bytesSent, charged, Event.sent, Event.charge]
      omega
  | _ => simp [Connection.owed, bytesSent, charged, Event.sent, Event.charge]

/-- **Over a run**, the bytes sent and those still owed are those owed at its start
and those its answers have cost. -/
theorem StateOk.owed_run (h : StateOk s) (hr : Run (Step E) s tr t) :
    bytesSent tr + t.c.owed = s.c.owed + charged tr := by
  refine h.along (R := fun tr t => bytesSent tr + t.c.owed = s.c.owed + charged tr) hr
    (by simp [bytesSent, charged]) id (fun _ h => h) ?_
  intro tr a r ev b hok _ _ hsum hp
  have hpass := hok.owed_pass hp
  rw [bytesSent_append, charged_append]
  omega

/-! ### What a batch leaves behind -/

/-- Whether a GET inside a batch has missed since the last single GET was answered,
and whether the last lookup was a miss. -/
structure Ledger where
  soiled : Bool
  missed : Bool

def Ledger.enter (x : Ledger) : Event → Ledger
  | .find _ found => { x with missed := found.isNone }
  | .reply true _ => { x with soiled := x.soiled || x.missed }
  | .reply false _ => { x with soiled := false }
  | _ => x

def ledger (tr : List Event) : Ledger := tr.foldl Ledger.enter ⟨false, false⟩

theorem ledger_append (a b : List Event) : ledger (a ++ b) = b.foldl Ledger.enter (ledger a) := by
  simp [ledger]

/-- A miss inside a batch that no single answer has followed. -/
def Soiled (tr : List Event) : Prop := (ledger tr).soiled = true

/-- A single answer is being sent. -/
def Connection.Sending (c : Connection) : Prop :=
  c.workState = .writeBcak ∧ c.inBatchGet = false

/-- The fields of the single answer, whether or not one is being sent. -/
structure Tidy (tr : List Event) (c : Connection) : Prop where
  sending : c.Sending → ¬ Soiled tr
  bytes : ¬ c.Sending → (c.retBytes = 0 ↔ ¬ Soiled tr)
  offset : ¬ c.Sending → c.retBufOffset = 0

/-- A step that builds no answer and sends no single one. -/
theorem Tidy.silent {c c' : Connection} (h : Tidy tr c)
    (hev : ev.foldl Ledger.enter (ledger tr) = ledger tr)
    (hsending : c'.Sending ↔ c.Sending := by simp [Connection.Sending])
    (hbytes : c'.retBytes = c.retBytes := by simp)
    (hoffset : c'.retBufOffset = c.retBufOffset := by simp) : Tidy (tr ++ ev) c' := by
  have hsoiled : Soiled (tr ++ ev) ↔ Soiled tr := by rw [Soiled, ledger_append, hev, Soiled]
  refine ⟨?_, ?_, ?_⟩
  · rw [hsending, hsoiled]
    exact h.sending
  · rw [hsending, hsoiled, hbytes]
    exact h.bytes
  · rw [hsending, hoffset]
    exact h.offset

/-- One more answer: a single one will be sent before anything else happens, a miss
in a batch leaves bytes behind. -/
theorem Tidy.query {c : Connection} (h : Tidy tr c) (hw : c.workState = .queryKey)
    (found : Option Bytes) :
    Tidy (tr ++ [.find c.key found, .reply c.inBatchGet (queryResult c found).respPacket])
      (conRetBuf (queryResult c found)) := by
  have hnot : ¬ c.Sending := fun hs => absurd (hw.symm.trans hs.1) (by decide)
  cases hin : c.inBatchGet with
  | false =>
      have hsoiled : ¬ Soiled (tr ++ [.find c.key found,
          .reply false (queryResult c found).respPacket]) := by
        simp [Soiled, ledger_append, Ledger.enter]
      have hsending : (conRetBuf (queryResult c found)).Sending := by
        simp [Connection.Sending, hin]
      exact ⟨fun _ => hsoiled, fun hne => absurd hsending hne, fun hne => absurd hsending hne⟩
  | true =>
      have hsending : ¬ (conRetBuf (queryResult c found)).Sending := by
        simp [Connection.Sending, hin]
      refine ⟨fun hs => absurd hs hsending, fun _ => ?_, fun _ => ?_⟩
      · have hbytes := h.bytes hnot
        rw [conRetBuf_batch (by simpa using hin)]
        cases found with
        | none => simp [Soiled, ledger_append, Ledger.enter, headerSize]
        | some v => simpa [Soiled, ledger_append, Ledger.enter] using hbytes
      · simpa using h.offset hnot

theorem Tidy.pass (h : Tidy tr s.c) (hp : Pass s r s' ev) :
    Tidy (tr ++ ev) s'.c := by
  cases hp with
  | query hc hw => exact h.query hw _
  | singleDone ha hpos hall =>
      -- the last byte of `ret_bytes` has gone, and the ledger was clean since the answer was built
      have hsoiled := h.sending ⟨ha.work, ha.inBatch⟩
      have hclean : ¬ Soiled (tr ++ [.write (s.c.retBuf.load s.c.retBufOffset r.ret.toNat)]) := by
        rwa [Soiled, ledger_append]
      exact ⟨fun _ => hclean, fun _ => by simp [hclean], fun _ => by simp⟩
  | singlePart ha hpos hpart =>
      have hsoiled := h.sending ⟨ha.work, ha.inBatch⟩
      have hclean : ¬ Soiled (tr ++ [.write (s.c.retBuf.load s.c.retBufOffset r.ret.toNat)]) := by
        rwa [Soiled, ledger_append]
      have hsending : (((s.c.wrote r.ret.toNat).skipSingle r.ret.toNat).connStateJump
          .connWaiting).Sending := by
        simp [Connection.Sending, ha.work, ha.inBatch]
      exact ⟨fun _ => hclean, fun hne => absurd hsending hne, fun hne => absurd hsending hne⟩
  | headBatch ha | headBody ha | bodySet ha | bodyGet ha =>
      exact h.silent rfl (by simp [Connection.Sending, ha.work])
  | store hc hw => exact h.silent rfl (by simp [Connection.Sending, hw])
  | batchMore hc hw hin hlt => exact h.silent rfl (by simp [Connection.Sending, hin])
  | batchDone ha hpos hall => exact h.silent rfl (by simp [Connection.Sending, ha.inBatch])
  | _ => exact h.silent rfl

theorem Init.tidy_run (h : Init stream s) (hr : Run (Step E) s tr t) : Tidy tr t.c := by
  have hstart : Tidy [] s.c := by
    obtain ⟨sfd, threadIndex, readBuf, retBuf, hc⟩ := h.conn
    constructor <;> simp [hc, connNew, Connection.Sending, Soiled, ledger]
  exact h.ok.along (R := fun tr t => Tidy tr t.c) hr hstart id (fun _ h => h)
    fun _ _ _ htidy hp => htidy.pass hp

/-- Back at the next header with no batch in progress. -/
structure Connection.AtRest (c : Connection) : Prop where
  work : c.workState = .parseHead
  inBatch : c.inBatchGet = false

/-- Nothing of earlier answers is left in the connection. -/
structure Connection.Clean (c : Connection) : Prop where
  retBytes : c.retBytes = 0
  retBufOffset : c.retBufOffset = 0
  batchRetVector : c.batchRetVector = []
  batchNum : c.batchNum = 0
  batchCount : c.batchCount = 0

theorem Init.clean_iff (h : Init stream s) (hr : Run (Step E) s tr t) (hrest : t.c.AtRest) :
    t.c.Clean ↔ ¬ Soiled tr := by
  have hok := h.ok.run hr
  have htidy := h.tidy_run hr
  have hnot : ¬ t.c.Sending := fun hs => absurd (hrest.work.symm.trans hs.1) (by decide)
  rw [← htidy.bytes hnot]
  have hidle := hok.batch.idle hrest.inBatch
  exact ⟨Connection.Clean.retBytes, fun hbytes =>
    ⟨hbytes, htidy.offset hnot, hok.control.empty hrest.inBatch, hidle.1, hidle.2⟩⟩

/-- From `t` to `t'` a single GET is looked up and answered: one lookup, no batch, and
all of the answer sent. -/
structure AnswersSingle (lookup : Bytes × Option Bytes) (t : State) (tr : List Event)
    (t' : State) : Prop where
  start : t.c.AtRest
  gets : ∀ e ∈ tr, e.onlyGet
  lookup : lookups tr = [lookup]
  finish : t'.c.AtRest

/-- What a single GET costs beyond what is already owed. -/
def singlePrice (lookup : Bytes × Option Bytes) : Nat :=
  match lookup.2 with
  | some v => headerSize + lookup.1.length + v.length
  | none => 2 * (headerSize + lookup.1.length + 8)

theorem charged_eq (tr : List Event) :
    charged tr =
      ((lookups tr).map fun l => if l.2 = none then headerSize + l.1.length + 8 else 0).sum +
        ((packets tr).map List.length).sum := by
  induction tr with
  | nil => rfl
  | cons e tr ih =>
      have hcons : charged (e :: tr) = e.charge + charged tr := by simp [charged]
      rw [hcons, ih]
      cases e with
      | find k found => cases found <;> (simp [Event.charge, lookups, packets]; try omega)
      | reply b p => simp [Event.charge, lookups, packets]; omega
      | _ => simp [Event.charge, lookups, packets]

/-- Outside a batch, with no head to come, all answers are single. -/
theorem StateOk.single_run {seg : List Event} (hok : StateOk t) (hin : t.c.inBatchGet = false)
    (hgets : ∀ e ∈ seg, e.onlyGet) (hr : Run (Step E) t seg t') :
    t'.c.inBatchGet = false ∧ ∀ p, .reply true p ∉ seg := by
  refine hok.along (R := fun seg t' => (∀ e ∈ seg, e.onlyGet) →
    t'.c.inBatchGet = false ∧ ∀ p : Bytes, Event.reply true p ∉ seg) hr
    (fun _ => ⟨hin, by simp⟩) id (fun _ h => h) ?_ hgets
  intro tr a r ev b _ _ _ h hp hgets
  obtain ⟨hin, hno⟩ := h fun e he => hgets e (List.mem_append_left _ he)
  have hev : ∀ e ∈ ev, e.onlyGet := fun e he => hgets e (List.mem_append_right tr he)
  have hpass : b.c.inBatchGet = false ∧ ∀ p, .reply true p ∉ ev := by
    cases hp with
    | headBatch ha hv =>
        have := hev _ List.mem_cons_self
        simp [Event.onlyGet, loadHeader_request ha.length, hv] at this
    | _ => exact ⟨by simp [hin], by simp [hin]⟩
  exact ⟨hpass.1, fun p hp => (List.mem_append.mp hp).elim (hno p) (hpass.2 p)⟩

/-- A single answer, with none of a batch behind it, clears the ledger. -/
theorem not_soiled_of_single {seg : List Event} {p : Bytes} (hmem : .reply false p ∈ seg)
    (hno : ∀ p, .reply true p ∉ seg) : ¬ Soiled (tr ++ seg) := by
  obtain ⟨a, b, rfl⟩ := List.append_of_mem hmem
  have hkeep : ∀ (b : List Event) (x : Ledger), (∀ p, .reply true p ∉ b) → x.soiled = false →
      (b.foldl Ledger.enter x).soiled = false := by
    intro b
    induction b with
    | nil => exact fun x _ hx => hx
    | cons e b ih =>
        intro x hno hx
        refine ih _ (fun p hp => hno p (List.mem_cons_of_mem _ hp)) ?_
        cases e with
        | reply single p =>
            cases single with
            | true => exact absurd List.mem_cons_self (hno p)
            | false => rfl
        | _ => exact hx
  rw [Soiled, ledger_append, List.foldl_append, List.foldl_cons]
  rw [hkeep b _ (fun p hp => hno p (by simp [hp])) rfl]
  simp

/-- The bytes sent for a single GET are those it costs and those an earlier batch has
left in `ret_bytes`. -/
theorem Init.bytesSent_single {seg : List Event} {lookup : Bytes × Option Bytes}
    (h : Init stream s) (hr : Run (Step E) s tr t) (hseg : Run (Step E) t seg t')
    (hget : AnswersSingle lookup t seg t') :
    bytesSent seg = t.c.retBytes + singlePrice lookup := by
  have hok := h.ok.run hr
  have howed := hok.owed_run hseg
  obtain ⟨hin', hno⟩ := hok.single_run hget.start.inBatch hget.gets hseg
  -- the one answer
  obtain ⟨cs, hcs⟩ := hok.answered_run hseg
  obtain ⟨c, rfl⟩ : ∃ c, cs = [c] := by
    have := congrArg List.length (hcs.lookups.symm.trans hget.lookup)
    rw [List.length_map] at this
    exact List.length_eq_one_iff.mp this
  have hlookup : c.lookup = lookup := by
    simpa using hcs.lookups.symm.trans hget.lookup
  have hpackets : packets seg = [c.respPacket] := by simpa using hcs.packets
  have hmem : .reply false c.respPacket ∈ seg := by
    have : c.respPacket ∈ packets seg := by simp [hpackets]
    obtain ⟨e, he, hep⟩ := List.mem_filterMap.mp this
    cases e with
    | reply single p =>
        obtain rfl := Option.some.inj hep
        cases single with
        | true => exact absurd he (hno _)
        | false => exact he
    | _ => cases hep
  -- nothing is owed at its end
  have hclean := (h.clean_iff (hr.trans hseg) hget.finish).mpr (not_soiled_of_single hmem hno)
  rw [Connection.owed, Connection.owed, hclean.retBytes, hclean.batchRetVector,
    hok.control.empty hget.start.inBatch] at howed
  rw [charged_eq, hget.lookup, hpackets] at howed
  have hprice : (if lookup.2 = none then headerSize + lookup.1.length + 8 else 0) +
      c.respPacket.length = singlePrice lookup := by
    rw [← hlookup, Connection.length_respPacket]
    cases hhit : c.queryHit <;>
      simp [singlePrice, Connection.lookup, hhit, Connection.valuelen]
    omega
  simp only [List.map_cons, List.map_nil, List.sum_cons, List.sum_nil, leftIn_nil] at howed
  omega

instance (tr : List Event) : Decidable (Soiled tr) := inferInstanceAs (Decidable (_ = true))

/-- **Batches leave no trace** in two connections at rest, and the next single GET
costs the same bytes on both, if and only if on both the last miss inside a batch, if
there was one, has been followed by a single GET. -/
theorem rest_clean_iff {stream₁ stream₂ : Bytes} {s₁ s₂ t₁ t₂ : State} {tr₁ tr₂ : List Event}
    (h₁ : Init stream₁ s₁) (h₂ : Init stream₂ s₂) (r₁ : Run (Step Env.any) s₁ tr₁ t₁)
    (r₂ : Run (Step Env.any) s₂ tr₂ t₂) (rest₁ : t₁.c.AtRest) (rest₂ : t₂.c.AtRest) :
    (t₁.c.Clean ∧ t₂.c.Clean ∧ ∀ lookup seg₁ seg₂ u₁ u₂,
        Run (Step Env.any) t₁ seg₁ u₁ → AnswersSingle lookup t₁ seg₁ u₁ →
        Run (Step Env.any) t₂ seg₂ u₂ → AnswersSingle lookup t₂ seg₂ u₂ →
        bytesSent seg₁ = bytesSent seg₂) ↔
      ¬ Soiled tr₁ ∧ ¬ Soiled tr₂ := by
  rw [← h₁.clean_iff r₁ rest₁, ← h₂.clean_iff r₂ rest₂]
  refine ⟨fun h => ⟨h.1, h.2.1⟩, fun ⟨hc₁, hc₂⟩ => ⟨hc₁, hc₂, ?_⟩⟩
  intro lookup seg₁ seg₂ u₁ u₂ hr₁ hg₁ hr₂ hg₂
  rw [h₁.bytesSent_single r₁ hr₁ hg₁, h₂.bytesSent_single r₂ hr₂ hg₂, hc₁.retBytes, hc₂.retBytes]

/-- After a SET, and after a SET and a batch whose GET finds it. -/
def setOnly : State × List Event := State.after (Packet.smallSet 107).bytes 3

def setThenBatch : State × List Event :=
  (State.accepted ((Packet.smallSet 107).bytes ++ (Packet.batchHead 1 0 0).bytes ++
      (Packet.smallGet 107 0).bytes) .empty).play Env.any
    (.call :: .ret 46 :: List.replicate 8 (.ret 0) ++ [.ret 21])

theorem rest_clean_iff_setThenBatch : setOnly.1.c.Clean ∧ setThenBatch.1.c.Clean := by
  have hinit₁ := State.init_accepted (Packet.smallSet 107).bytes
  have hinit₂ := State.init_accepted ((Packet.smallSet 107).bytes ++
    (Packet.batchHead 1 0 0).bytes ++ (Packet.smallGet 107 0).bytes)
  have r₁ : Run (Step Env.any) _ setOnly.2 setOnly.1 := State.play_run _ _
  have r₂ : Run (Step Env.any) _ setThenBatch.2 setThenBatch.1 := State.play_run _ _
  have h := (rest_clean_iff hinit₁ hinit₂ r₁ r₂ ⟨by decide +kernel, by decide +kernel⟩
    ⟨by decide +kernel, by decide +kernel⟩).mpr ⟨by decide +kernel, by decide +kernel⟩
  exact ⟨h.1, h.2.1⟩

/-- A batch whose GET misses leaves the length of its answer in `ret_bytes`. -/
theorem rest_clean_after_miss :
    ¬ ∀ (stream : Bytes) (s t : State) (tr : List Event), Init stream s →
      Run (Step Env.any) s tr t → t.c.AtRest → t.c.Clean := by
  intro hall
  have hclean := hall _ _ _ _ (State.init_accepted ((Packet.batchHead 1 0 0).bytes ++
      (Packet.smallGet 108 0).bytes))
    (State.play_run (E := Env.any) _ (.call :: .ret 25 :: List.replicate 4 (.ret 0) ++ [.ret 21]))
    ⟨by decide +kernel, by decide +kernel⟩
  have hbytes := hclean.retBytes
  revert hbytes
  decide +kernel

end MultiportNetwork
