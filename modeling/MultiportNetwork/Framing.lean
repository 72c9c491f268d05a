import MultiportNetwork.Server.Exec
import MultiportNetwork.Spec.Stream

/-!
# MultiportNetwork.Framing

Do the answers of a batch frame themselves? A client cuts what it receives by the
headers (`responseFramer`): twelve bytes, then as many as `totalbodylen` says.

`con_ret_buf` fills `totalbodylen` from the connection's `value` field, which a
miss leaves as the last SET or hit left it. So a run of answers is cut right
exactly if every miss in it finds eight bytes there, the length of `NOTFOUND`
(`parse_packets_iff`); one that does not makes the client lose the packet boundary.
-/

namespace MultiportNetwork

open ByteOrder

variable {E : Env} {s t₀ t : State} {ev tr tr₀ : List Event} {stream : Bytes}

/-! ### The client's side -/

/-- A response as a client receives it: the key length announced, and the body. -/
structure Response where
  keylen : Nat
  body : Bytes
  deriving Repr, DecidableEq

/-- Cut one response off the front. -/
def frameResponse (bs : Bytes) : Option (Nat × List Response × Unit) :=
  let h := RequestHeader.ofBytes bs
  let bodylen := (ntohl h.totalbodylen).toNat
  if bs.length < headerSize then none
  else if bs.length < headerSize + bodylen then none
  else some (headerSize + bodylen,
    [⟨(ntohs h.keylen).toNat, (bs.drop headerSize).take bodylen⟩], ())

theorem frameResponse_bounds {bs : Bytes} {n : Nat} {o : List Response} {u : Unit}
    (h : frameResponse bs = some (n, o, u)) : 0 < n ∧ n ≤ bs.length := by
  simp only [frameResponse] at h
  split at h
  · cases h
  split at h
  · cases h
  next hlen =>
    obtain rfl := congrArg Prod.fst (Option.some.inj h)
    exact ⟨by simp [headerSize], Nat.le_of_not_lt hlen⟩

theorem frameResponse_stable {bs : Bytes} {r} (ys : Bytes) (h : frameResponse bs = some r) :
    frameResponse (bs ++ ys) = some r := by
  simp only [frameResponse] at h ⊢
  split at h
  · cases h
  next hhead =>
    split at h
    · cases h
    next hlen =>
      rw [RequestHeader.ofBytes_append (Nat.le_of_not_lt hhead),
        if_neg (by rw [List.length_append]; omega), if_neg (by rw [List.length_append]; omega), ← h,
        List.drop_append_of_le_length (by omega),
        List.take_append_of_le_length (by rw [List.length_drop]; omega)]

def responseFramer : Framer Unit UInt8 Response where
  frame _ := frameResponse
  bounds h := frameResponse_bounds h
  stable ys h := frameResponse_stable ys h

/-- The responses in a run of bytes, and what is left over. -/
def responsesIn (bs : Bytes) : List Response × Bytes :=
  ((responseFramer.parse () bs).1, (responseFramer.parse () bs).2.2)

theorem responsesIn_none {bs : Bytes} (h : frameResponse bs = none) :
    responsesIn bs = ([], bs) := by
  have hparse : responseFramer.parse () bs = ([], (), bs) := Framer.parse_none h
  rw [responsesIn, hparse]

theorem responsesIn_some {bs : Bytes} {n : Nat} {o : List Response}
    (h : frameResponse bs = some (n, o, ())) :
    responsesIn bs = (o ++ (responsesIn (bs.drop n)).1, (responsesIn (bs.drop n)).2) := by
  have hparse : responseFramer.parse () bs = (o ++ (responseFramer.parse () (bs.drop n)).1,
      (responseFramer.parse () (bs.drop n)).2) := Framer.parse_some h
  rw [responsesIn, hparse]
  rfl

/-- The response a GET of `key` should have: the key, and the value stored for it or
`NOTFOUND`. -/
def answer (lookup : Bytes × Option Bytes) : Response :=
  ⟨lookup.1.length, lookup.1 ++ lookup.2.getD notfoundAns⟩

/-! ### One packet -/

namespace Connection

/-- What the last `find` of this connection has found, and for which key. -/
def lookup (c : Connection) : Bytes × Option Bytes :=
  (c.key, if c.queryHit then some c.value else none)

/-- A hit, or a miss on top of an eight-byte value. -/
def Aligned (c : Connection) : Prop := c.queryHit = false → c.value.length = 8

/-- Key and value have come through the receive buffer. -/
structure Sized (c : Connection) : Prop where
  key : c.key.length ≤ initReadBufSize
  value : c.value.length ≤ initReadBufSize

end Connection

variable {c : Connection}

theorem Connection.respHead_totalbodylen (h : c.Sized) :
    (ntohl c.respHead.totalbodylen).toNat = c.key.length + c.value.length := by
  have hk := h.key
  have hv := h.value
  simp only [initReadBufSize] at hk hv
  simp only [respHead, ntohl_htonl]
  rw [UInt32.toNat_ofNat_of_lt']
  simp only [UInt32.size]
  omega

theorem Connection.respHead_keylen (h : c.Sized) :
    (ntohs c.respHead.keylen).toNat = c.key.length := by
  have hk := h.key
  simp only [initReadBufSize] at hk
  simp only [respHead, ntohs_htons]
  rw [UInt16.toNat_ofNat_of_lt']
  simp only [UInt16.size]
  omega

theorem Connection.answer_lookup (c : Connection) :
    answer c.lookup = ⟨c.key.length, c.key ++ c.respAns⟩ := by
  cases h : c.queryHit <;> simp [answer, lookup, respAns, h]

/-- The length announced is right just when the answer is aligned. -/
theorem Connection.aligned_iff (c : Connection) :
    c.Aligned ↔ c.value.length = c.respAns.length := by
  cases h : c.queryHit <;> simp [Aligned, respAns, h]

/-- A packet is cut off the front of what follows by the length it announces. -/
theorem frameResponse_packet (h : c.Sized) (rest : Bytes) :
    frameResponse (c.respPacket ++ rest) =
      if (c.key ++ c.respAns ++ rest).length < c.key.length + c.value.length then none
      else some (headerSize + (c.key.length + c.value.length),
        [⟨c.key.length, (c.key ++ c.respAns ++ rest).take (c.key.length + c.value.length)⟩],
        ()) := by
  have hassoc : c.respPacket ++ rest = c.respHead.toBytes ++ (c.key ++ c.respAns ++ rest) := by
    simp [Connection.respPacket, List.append_assoc]
  have hhead : RequestHeader.ofBytes (c.respHead.toBytes ++ (c.key ++ c.respAns ++ rest)) =
      c.respHead := by
    rw [RequestHeader.ofBytes_append (by simp), RequestHeader.ofBytes_toBytes]
  have hdrop : (c.respHead.toBytes ++ (c.key ++ c.respAns ++ rest)).drop headerSize =
      c.key ++ c.respAns ++ rest := by
    rw [List.drop_append_of_le_length (by simp)]
    simp
  rw [hassoc]
  simp only [frameResponse, hhead, hdrop, Connection.respHead_totalbodylen h,
    Connection.respHead_keylen h]
  rw [if_neg (by simp)]
  have hlen : (c.respHead.toBytes ++ (c.key ++ c.respAns ++ rest)).length =
      headerSize + (c.key ++ c.respAns ++ rest).length := by
    simp
  simp only [hlen, Nat.add_lt_add_iff_left]

/-- Cutting a packet and what follows gives its answer first just when the packet is
aligned, and then the rest is cut as if the packet had not been there. -/
theorem responsesIn_packet_iff (h : c.Sized) (rest : Bytes) (as : List Response) :
    responsesIn (c.respPacket ++ rest) = (answer c.lookup :: as, []) ↔
      c.Aligned ∧ responsesIn rest = (as, []) := by
  have hframe := frameResponse_packet h rest
  have hpacket : c.respPacket.length = headerSize + (c.key.length + c.respAns.length) := by
    rw [Connection.length_respPacket, Connection.length_respAns, Nat.add_assoc]
  rw [c.aligned_iff, c.answer_lookup]
  by_cases hshort : (c.key ++ c.respAns ++ rest).length < c.key.length + c.value.length
  · -- the client waits for bytes of an answer that is complete
    rw [if_pos hshort] at hframe
    have hparse := responsesIn_none hframe
    have hne : c.value.length ≠ c.respAns.length := by
      intro heq
      simp only [List.length_append] at hshort
      omega
    simp [hparse, hne]
  rw [if_neg hshort] at hframe
  have hparse := responsesIn_some hframe
  rw [List.singleton_append] at hparse
  constructor
  · intro heq
    rw [hparse, Prod.mk.injEq, List.cons.injEq, Response.mk.injEq] at heq
    obtain ⟨⟨⟨-, hbody⟩, has⟩, hleft⟩ := heq
    have haligned : c.value.length = c.respAns.length := by
      have := congrArg List.length hbody
      rw [List.length_take, Nat.min_eq_left (Nat.le_of_not_lt hshort), List.length_append] at this
      omega
    rw [haligned, ← hpacket, List.drop_left] at has hleft
    exact ⟨haligned, Prod.ext has hleft⟩
  · rintro ⟨haligned, hrest⟩
    have htake : (c.key ++ c.respAns ++ rest).take (c.key.length + c.value.length) =
        c.key ++ c.respAns := by
      rw [haligned, ← List.length_append, List.take_left]
    rw [hparse, htake, haligned, ← hpacket, List.drop_left, hrest]

/-- **Cutting a run of answers** gives the answers, and nothing left over, just when
every one of them is aligned. -/
theorem parse_packets_iff (cs : List Connection) (h : ∀ c ∈ cs, c.Sized) :
    responsesIn (cs.flatMap Connection.respPacket) =
        (cs.map fun c => answer c.lookup, []) ↔ ∀ c ∈ cs, c.Aligned := by
  induction cs with
  | nil =>
      have hnil : responsesIn [] = ([], []) := responsesIn_none rfl
      simp [hnil]
  | cons c cs ih =>
      rw [List.flatMap_cons, List.map_cons,
        responsesIn_packet_iff (h c List.mem_cons_self),
        ih fun c hc => h c (List.mem_cons_of_mem _ hc)]
      simp

/-! ### The answers of a run -/

/-- The packets built, in order. -/
def packets (tr : List Event) : List Bytes :=
  tr.filterMap fun e => match e with
    | .reply _ packet => some packet
    | _ => none

/-- The lookups made, in order, with their results. -/
def lookups (tr : List Event) : List (Bytes × Option Bytes) :=
  tr.filterMap fun e => match e with
    | .find k found => some (k, found)
    | _ => none

/-- The value a connection holds after some events: that of its last SET or hit. -/
def valueAfter (v : Bytes) : List Event → Bytes
  | [] => v
  | .insertOrAssign _ w :: tr => valueAfter w tr
  | .find _ (some w) :: tr => valueAfter w tr
  | _ :: tr => valueAfter v tr

/-- Every miss meets a value of eight bytes, that of the SET or hit last before it. -/
def MissesAligned (v : Bytes) : List Event → Prop
  | [] => True
  | .insertOrAssign _ w :: tr => MissesAligned w tr
  | .find _ (some w) :: tr => MissesAligned w tr
  | .find _ none :: tr => v.length = 8 ∧ MissesAligned v tr
  | _ :: tr => MissesAligned v tr

instance decidableMissesAligned : (v : Bytes) → (tr : List Event) → Decidable (MissesAligned v tr)
  | _, [] => isTrue trivial
  | _, .insertOrAssign _ w :: tr => decidableMissesAligned w tr
  | _, .find _ (some w) :: tr => decidableMissesAligned w tr
  | v, .find _ none :: tr => @instDecidableAnd _ _ _ (decidableMissesAligned v tr)
  | v, .read _ :: tr | v, .dispatch .. :: tr | v, .reply .. :: tr | v, .write _ :: tr
  | v, .close :: tr | v, .exit :: tr => decidableMissesAligned v tr

theorem packets_append (a b : List Event) : packets (a ++ b) = packets a ++ packets b := by
  simp [packets]

theorem lookups_append (a b : List Event) : lookups (a ++ b) = lookups a ++ lookups b := by
  simp [lookups]

theorem valueAfter_append (v : Bytes) (a b : List Event) :
    valueAfter v (a ++ b) = valueAfter (valueAfter v a) b := by
  induction a generalizing v with
  | nil => rfl
  | cons e a ih =>
      cases e with
      | insertOrAssign k w => exact ih w
      | find k found => cases found <;> exact ih _
      | _ => exact ih v

theorem missesAligned_append (v : Bytes) (a b : List Event) :
    MissesAligned v (a ++ b) ↔ MissesAligned v a ∧ MissesAligned (valueAfter v a) b := by
  induction a generalizing v with
  | nil => exact ⟨fun h => ⟨trivial, h⟩, fun h => h.2⟩
  | cons e a ih =>
      cases e with
      | insertOrAssign k w => exact ih w
      | find k found =>
          cases found with
          | some w => exact ih w
          | none =>
              simp only [List.cons_append, MissesAligned, valueAfter]
              rw [ih v, and_assoc]
      | _ => exact ih v

/-- Events that neither use the table nor answer. -/
def Event.mute : Event → Bool
  | .insertOrAssign .. | .find .. | .reply .. => false
  | _ => true

theorem mute_append {ev : List Event} (h : ∀ e ∈ ev, e.mute) (v : Bytes) :
    packets ev = [] ∧ lookups ev = [] ∧ valueAfter v ev = v ∧ MissesAligned v ev := by
  induction ev with
  | nil => exact ⟨rfl, rfl, rfl, trivial⟩
  | cons e ev ih =>
      have he := h e List.mem_cons_self
      have hrest := ih fun e' he' => h e' (List.mem_cons_of_mem _ he')
      cases e with
      | insertOrAssign | find | reply => cases he
      | _ => exact hrest

/-- The answers of a run that starts with the value `v`: one connection for each,
as it was when the answer was built. -/
structure Answered (v : Bytes) (tr : List Event) (t : State) (cs : List Connection) : Prop where
  packets : packets tr = cs.map Connection.respPacket
  lookups : lookups tr = cs.map Connection.lookup
  aligned : MissesAligned v tr ↔ ∀ c ∈ cs, c.Aligned
  sized : ∀ c ∈ cs, c.Sized
  /-- A SET that has been read and not yet stored has changed the value already. -/
  value : t.c.workState ≠ .storeKvobj → t.c.value = valueAfter v tr

theorem Answered.silent {v : Bytes} {s' : State} {cs : List Connection} (h : Answered v tr s cs)
    (hev : ∀ e ∈ ev, e.mute)
    (hvalue : s'.c.workState ≠ .storeKvobj →
      s.c.workState ≠ .storeKvobj ∧ s'.c.value = s.c.value) : Answered v (tr ++ ev) s' cs := by
  obtain ⟨hp, hl, hv, ha⟩ := mute_append hev (valueAfter v tr)
  refine ⟨?_, ?_, ?_, h.sized, fun hw => ?_⟩
  · rw [packets_append, hp, List.append_nil, h.packets]
  · rw [lookups_append, hl, List.append_nil, h.lookups]
  · rw [missesAligned_append, h.aligned]
    exact ⟨fun hand => hand.1, fun hal => ⟨hal, ha⟩⟩
  · rw [valueAfter_append, hv, (hvalue hw).2, h.value (hvalue hw).1]

theorem Answered.store {v : Bytes} {s' : State} {cs : List Connection} (h : Answered v tr s cs)
    {k : Bytes} (hvalue : s'.c.value = s.c.value) :
    Answered v (tr ++ [.insertOrAssign k s.c.value]) s' cs := by
  refine ⟨?_, ?_, ?_, h.sized, fun _ => ?_⟩
  · rw [packets_append, h.packets]
    exact List.append_nil _
  · rw [lookups_append, h.lookups]
    exact List.append_nil _
  · rw [missesAligned_append, h.aligned]
    exact ⟨fun hand => hand.1, fun hal => ⟨hal, trivial⟩⟩
  · rw [valueAfter_append, hvalue]
    rfl

theorem Answered.query {v : Bytes} {s' : State} {cs : List Connection} (h : Answered v tr s cs)
    (hd : DataOk s) (hw : s.c.workState = .queryKey)
    (hvalue : s'.c.value = (s.table.find s.c.key).getD s.c.value) :
    Answered v (tr ++ [.find s.c.key (s.table.find s.c.key),
        .reply s.c.inBatchGet (queryResult s.c (s.table.find s.c.key)).respPacket]) s'
      (cs ++ [queryResult s.c (s.table.find s.c.key)]) := by
  have hval := h.value (by simp [hw])
  refine ⟨?_, ?_, ?_, ?_, fun _ => ?_⟩
  · rw [packets_append, h.packets, List.map_append]
    rfl
  · rw [lookups_append, h.lookups, List.map_append]
    cases hf : s.table.find s.c.key <;> simp [MultiportNetwork.lookups, Connection.lookup]
  · rw [missesAligned_append, h.aligned, ← hval]
    cases hf : s.table.find s.c.key <;>
      simp [MissesAligned, Connection.Aligned, or_imp, forall_and]
  · intro c hc
    rw [List.mem_append, List.mem_singleton] at hc
    rcases hc with hc | rfl
    · exact h.sized c hc
    · exact ⟨by simpa using hd.key, by simpa using hd.found⟩
  · rw [valueAfter_append, hvalue, hval]
    cases hf : s.table.find s.c.key <;> simp [valueAfter]

theorem StateOk.answered_pass {v : Bytes} {r : SysRet} {s' : State} {cs : List Connection}
    (hok : StateOk s) (h : Answered v tr s cs) (hp : Pass s r s' ev) :
    ∃ cs', Answered v (tr ++ ev) s' cs' := by
  cases hp with
  | store hc hw => exact ⟨cs, h.store (by simp)⟩
  | query hc hw => exact ⟨_, h.query hok.data hw (by simp)⟩
  | bodySet hb hop => exact ⟨cs, h.silent (by simp) (by simp)⟩
  | headClosed ha | headRefused ha | headBatch ha | headBody ha | batchDone ha | singleDone ha =>
      exact ⟨cs, h.silent (by simp [Event.mute]) (by simp [ha.work])⟩
  | bodyGet hb hop => exact ⟨cs, h.silent (by simp) (by simp [hb.work])⟩
  | batchMore hc hw hin hlt => exact ⟨cs, h.silent (by simp) (by simp [hw])⟩
  | _ => exact ⟨cs, h.silent (by simp [Event.mute]) (by simp)⟩

/-- **The answers of a stretch of a run.** -/
theorem StateOk.answered_run (hok : StateOk t₀) (hr : Run (Step E) t₀ tr t) :
    ∃ cs, Answered t₀.c.value tr t cs := by
  refine hok.along (R := fun tr t => ∃ cs, Answered t₀.c.value tr t cs) hr
    ⟨[], rfl, rfl, by simp [MissesAligned], by simp, fun _ => rfl⟩ ?_ ?_ ?_
  · exact fun ⟨cs, h⟩ => ⟨cs, h.packets, h.lookups, h.aligned, h.sized, h.value⟩
  · exact fun _ ⟨cs, h⟩ => ⟨cs, h.packets, h.lookups, h.aligned, h.sized, h.value⟩
  · exact fun hok _ _ ⟨_, h⟩ hp => hok.answered_pass h hp

/-! ### The answers of a batch -/

/-- Of headers only those of well-formed GETs. -/
def Event.onlyGet : Event → Bool
  | .dispatch h _ => h.request.verdict = .body ∧ h.opcode.toNat = cmdGet
  | _ => true

/-- From `t₀` to `t` the connection builds the answers of one batch of `n` GETs. -/
structure AnswersBatch (n : UInt16) (t₀ : State) (tr : List Event) (t : State) : Prop where
  pos : 1 ≤ n.toNat
  opened : t₀.c.inBatchGet = true ∧ t₀.c.batchNum = n ∧ t₀.c.batchCount = 0
  gets : ∀ e ∈ tr, e.onlyGet
  answered : t.c.inBatchGet = true ∧ t.c.batchCount = n

/-- The answers cut right: `n` of them, the `i`-th with the `i`-th key and what the
table held for it. -/
def Framed (n : Nat) (tr : List Event) : Prop :=
  (lookups tr).length = n ∧ responsesIn (packets tr).flatten = ((lookups tr).map answer, [])

/-- The batch of a connection, if there is one, is one of `n` GETs, of which `k` have
been looked up. -/
def Connection.Counts (c : Connection) (n : UInt16) (k : Nat) : Prop :=
  c.inBatchGet = true → c.batchNum = n ∧ c.batchCount.toNat = k

theorem BatchOk.count_succ (h : BatchOk c) (hw : c.workState ≠ .writeBcak)
    (hin : c.inBatchGet = true) : (c.batchCount + 1).toNat = c.batchCount.toNat + 1 := by
  have hnum := c.batchNum.toNat_lt
  rw [UInt16.toNat_add, UInt16.toNat_one]
  rcases h.counting hin hw with hlt | ⟨-, hzero⟩
  · rw [UInt16.lt_iff_toNat_lt] at hlt
    omega
  · rw [hzero]
    rfl

theorem StateOk.counts_pass {n : UInt16} {k : Nat} {r : SysRet} {s' : State} (hok : StateOk s)
    (h : s.c.Counts n k) (hbody : ∀ hd b, .dispatch hd b ∈ ev → hd.request.verdict = .body)
    (hp : Pass s r s' ev) : s'.c.Counts n (k + (lookups ev).length) := by
  cases hp with
  | query hc hw =>
      intro hin
      have hin' : s.c.inBatchGet = true := by simpa using hin
      obtain ⟨hn, hk⟩ := h hin'
      have hq : BatchOk (queryResult s.c (s.table.find s.c.key)) := hok.batch.congr
      have hsucc := hq.count_succ (by simp [hw]) (by simpa using hin')
      rw [conRetBuf_batch (by simpa using hin')]
      simp only [queryResult_batchNum, queryResult_batchCount] at hsucc ⊢
      exact ⟨hn, by rw [hsucc, hk]; rfl⟩
  | headBatch ha hv =>
      have hreq := loadHeader_request ha.length
      have := hbody _ _ List.mem_cons_self
      rw [hreq, hv] at this
      cases this
  | batchDone ha hpos hall =>
      intro hin
      simp at hin
  | _ =>
      intro hin
      simpa [lookups] using h (by simpa using hin)

/-- Inside a batch into which no other head comes, every lookup counts. -/
theorem StateOk.counts_run {n : UInt16} (hok : StateOk t₀) (h : t₀.c.Counts n 0)
    (hbody : ∀ hd b, .dispatch hd b ∈ tr → hd.request.verdict = .body)
    (hr : Run (Step E) t₀ tr t) : t.c.Counts n (lookups tr).length := by
  refine hok.along (R := fun tr t => (∀ (hd : RequestHeader) (b : Bool),
    Event.dispatch hd b ∈ tr → hd.request.verdict = .body) → t.c.Counts n (lookups tr).length)
    hr (fun _ => h) id (fun _ h => h) ?_ hbody
  intro tr a r ev b hok _ _ hcounts hp hbody
  have h := hcounts fun hd b he => hbody hd b (List.mem_append_left _ he)
  rw [lookups_append, List.length_append]
  exact hok.counts_pass h (fun hd b he => hbody hd b (List.mem_append_right _ he)) hp

theorem StateOk.framed_iff {n : UInt16} (hok : StateOk t₀) (hr : Run (Step E) t₀ tr t)
    (hb : AnswersBatch n t₀ tr t) : Framed n.toNat tr ↔ MissesAligned t₀.c.value tr := by
  obtain ⟨cs, hcs⟩ := hok.answered_run hr
  have hbody : ∀ hd b, .dispatch hd b ∈ tr → hd.request.verdict = .body := fun hd b he => by
    have := hb.gets _ he
    simp only [Event.onlyGet, decide_eq_true_eq] at this
    exact this.1
  have hcount : (lookups tr).length = n.toNat := by
    have hcounts := hok.counts_run (n := n)
      (fun _ => ⟨hb.opened.2.1, by rw [hb.opened.2.2]; rfl⟩) hbody hr
    rw [← (hcounts hb.answered.1).2, hb.answered.2]
  have hbytes : (packets tr).flatten = cs.flatMap Connection.respPacket := by
    rw [hcs.packets, List.flatMap_def]
  have hans : (lookups tr).map answer = cs.map fun c => answer c.lookup := by
    rw [hcs.lookups, List.map_map]
    rfl
  rw [Framed, hbytes, hans, parse_packets_iff cs hcs.sized, hcs.aligned]
  exact and_iff_right hcount

/-- **Response framing in a batch.** The answers of a batch cut right if and only if
every miss in it meets a value of eight bytes in the connection. -/
theorem batch_framed_iff {n : UInt16} (h : Init stream s) (h₀ : Run (Step Env.any) s tr₀ t₀)
    (hr : Run (Step Env.any) t₀ tr t) (hb : AnswersBatch n t₀ tr t) :
    Framed n.toNat tr ↔ MissesAligned t₀.c.value tr :=
  (h.ok.run h₀).framed_iff hr hb

/-- The connection of a client that has sent `stream`, once a read has delivered it
all and `n` passes have gone by. -/
def State.after (stream : Bytes) (n : Nat) : State × List Event :=
  (State.accepted stream .empty).play Env.any
    (.call :: .ret stream.length :: List.replicate n (.ret 0))

/-- A SET with an eight-byte value, and a batch with a GET that misses. -/
theorem batch_framed_iff_after_set :
    let stream := (Packet.smallSet 107).bytes ++ (Packet.batchHead 1 0 0).bytes ++
      (Packet.smallGet 108 0).bytes
    Framed 1 (((State.after stream 5).1.play Env.any [.ret 0, .ret 0, .ret 0]).2) := by
  intro stream
  have h₀ : Run (Step Env.any) _ (State.after stream 5).2 (State.after stream 5).1 :=
    State.play_run _ _
  have hr := State.play_run (E := Env.any) (State.after stream 5).1 [.ret 0, .ret 0, .ret 0]
  refine (batch_framed_iff (n := 1) (State.init_accepted _) h₀ hr ?_).mpr ?_
  · exact ⟨by decide, by decide +kernel, by decide +kernel, by decide +kernel⟩
  · decide +kernel

/-- The same batch on a fresh connection: the answer announces a body of one byte and
has one of nine. -/
theorem batch_framed_fresh :
    ¬ ∀ (stream : Bytes) (s t₀ t : State) (tr₀ tr : List Event) (n : UInt16),
      Init stream s → Run (Step Env.any) s tr₀ t₀ → Run (Step Env.any) t₀ tr t →
      AnswersBatch n t₀ tr t → Framed n.toNat tr := by
  intro hall
  let stream := (Packet.batchHead 1 0 0).bytes ++ (Packet.smallGet 108 0).bytes
  have hinit := State.init_accepted stream
  have h₀ : Run (Step Env.any) _ (State.after stream 1).2 (State.after stream 1).1 :=
    State.play_run _ _
  have hr := State.play_run (E := Env.any) (State.after stream 1).1 [.ret 0, .ret 0, .ret 0]
  have hb : AnswersBatch 1 (State.after stream 1).1
      ((State.after stream 1).1.play Env.any [.ret 0, .ret 0, .ret 0]).2
      ((State.after stream 1).1.play Env.any [.ret 0, .ret 0, .ret 0]).1 :=
    ⟨by decide, by decide +kernel, by decide +kernel, by decide +kernel⟩
  have hframed := hall _ _ _ _ _ _ 1 hinit h₀ hr hb
  rw [(hinit.ok.run h₀).framed_iff hr hb] at hframed
  revert hframed
  decide +kernel

end MultiportNetwork
