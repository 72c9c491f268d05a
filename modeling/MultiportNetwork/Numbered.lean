import MultiportNetwork.Accounting

/-!
# MultiportNetwork.Numbered

How the answers of a batch are numbered. The server counts them from zero, as the client
numbers its questions, but `con_ret_buf` stores the count as the host has it, where a
single answer gets `htons(1)` and a request `htons(num)`. A reader that decodes an answer
as the server decodes a request finds the two bytes of the number swapped
(`batch_numbers`), so a batch is numbered like its questions just if it has one of them.
-/

namespace MultiportNetwork

open ByteOrder

variable {E : Env} {s s' t u : State} {r : SysRet} {ev tr : List Event} {stream S : Bytes}
  {n : UInt16} {keys : List Bytes} {rest : List Command}

/-! ### One answer -/

/-- The number of an answer, decoded like that of a request. -/
theorem decode_respPacket (c : Connection) :
    (Request.decode c.respPacket).batchnum =
      if c.inBatchGet then htons c.batchCount else 1 := by
  have hlen : headerSize ≤ c.respHead.toBytes.length := by simp
  rw [Connection.respPacket, List.append_assoc, Request.decode_append hlen, Request.decode,
    RequestHeader.ofBytes_toBytes]
  simp only [Connection.respHead]
  cases c.inBatchGet with
  | true => rfl
  | false => exact ntohs_htons 1

/-! ### The answers of a batch -/

/-- The first `n` packets are numbered from zero, each number with its bytes swapped. -/
def Swapped (n : Nat) (ps : List Bytes) : Prop :=
  ∀ i, i < n → ∀ p ∈ ps[i]?, (Request.decode p).batchnum = htons (UInt16.ofNat i)

theorem Swapped.concat {n : Nat} {ps : List Bytes} {p : Bytes} (h : Swapped n ps)
    (hp : ps.length < n → (Request.decode p).batchnum = htons (UInt16.ofNat ps.length)) :
    Swapped n (ps ++ [p]) := by
  intro i hi q hq
  rcases Nat.lt_trichotomy i ps.length with hlt | rfl | hgt
  · rw [List.getElem?_append_left hlt] at hq
    exact h i hi q hq
  · obtain rfl : p = q := by simpa using hq
    exact hp hi
  · rw [List.getElem?_eq_none (by simp; omega)] at hq
    cases hq

/-- A batch of `n` wants more answers than have been built. -/
structure WithinBatch (n : UInt16) (tr : List Event) (t : State) : Prop where
  inBatch : t.c.inBatchGet = true
  num : t.c.batchNum = n
  count : t.c.batchCount.toNat = (packets tr).length
  more : (packets tr).length < n.toNat
  executed : (executed tr).length = (packets tr).length + 1

/-- How far a connection has got with a batch of `n` whose head is the next request. -/
inductive BatchProgress (n : UInt16) (tr : List Event) (t : State) : Prop
  | before (hexec : executed tr = []) (hnone : packets tr = []) (hin : t.c.inBatchGet = false)
  | within (h : WithinBatch n tr t)
  | done (hlen : n.toNat ≤ (packets tr).length)

/-- Before the head nothing else is executed, and behind it a GET until there are as many
answers as it wants. -/
theorem BatchProgress.next {cmd : Command} (h : BatchProgress n tr s)
    (hplan : executed (tr ++ ev) <+: .batchHead n :: keys.map .get ++ rest)
    (hkeys : keys.length = n.toNat) (hev : executed ev = [cmd]) :
    (executed tr = [] ∧ packets tr = [] ∧ cmd = .batchHead n) ∨
      (WithinBatch n tr s ∧ ∃ k, cmd = .get k) ∨ n.toNat ≤ (packets tr).length := by
  rw [executed_append, hev] at hplan
  cases h with
  | before hexec hnone =>
      rw [hexec, List.nil_append, List.cons_append, List.cons_prefix_cons] at hplan
      exact .inl ⟨hexec, hnone, hplan.1⟩
  | within h =>
      have hmore := h.more
      have hget := hplan.getElem (i := (executed tr).length) (by simp)
      simp [h.executed, hkeys, hmore] at hget
      exact .inr (.inl ⟨h, _, hget⟩)
  | done hlen => exact .inr (.inr hlen)

/-- A step that executes nothing and leaves the batch alone. -/
theorem BatchProgress.silent (h : BatchProgress n tr s) (hexec : executed ev = [])
    (hpackets : packets ev = []) (hin : s'.c.inBatchGet = s.c.inBatchGet)
    (hnum : s'.c.batchNum = s.c.batchNum) (hcount : s'.c.batchCount = s.c.batchCount) :
    BatchProgress n (tr ++ ev) s' := by
  have hexec' : executed (tr ++ ev) = executed tr := by rw [executed_append, hexec, List.append_nil]
  have hpackets' : packets (tr ++ ev) = packets tr := by
    rw [packets_append, hpackets, List.append_nil]
  cases h with
  | before hnil hnone hout =>
      exact .before (hexec'.trans hnil) (hpackets'.trans hnone) (hin.trans hout)
  | within h =>
      refine .within ⟨hin.trans h.inBatch, hnum.trans h.num, ?_, ?_, ?_⟩
      · rw [hcount, hpackets', h.count]
      · rw [hpackets']
        exact h.more
      · rw [hexec', hpackets', h.executed]
  | done hlen => exact .done (by rwa [hpackets'])

/-- The batch and the numbers of its answers. -/
structure BatchNumbered (n : UInt16) (tr : List Event) (t : State) : Prop where
  progress : BatchProgress n tr t
  numbers : Swapped n.toNat (packets tr)

theorem BatchNumbered.silent (h : BatchNumbered n tr s) (hexec : executed ev = [])
    (hpackets : packets ev = [] := by rfl) (hin : s'.c.inBatchGet = s.c.inBatchGet := by simp)
    (hnum : s'.c.batchNum = s.c.batchNum := by simp)
    (hcount : s'.c.batchCount = s.c.batchCount := by simp) : BatchNumbered n (tr ++ ev) s' where
  progress := h.progress.silent hexec hpackets hin hnum hcount
  numbers := by
    rw [packets_append, hpackets, List.append_nil]
    exact h.numbers

theorem BatchNumbered.pass (h : BatchNumbered n tr s) (hok : StateOk s) (hpos : 0 < n)
    (hplan : executed (tr ++ ev) <+: .batchHead n :: keys.map .get ++ rest)
    (hkeys : keys.length = n.toNat) (hp : Pass s r s' ev) : BatchNumbered n (tr ++ ev) s' := by
  -- only the head and the GETs of the batch are executed until it has its answers
  have hnext := fun cmd (hev : executed ev = [cmd]) => h.progress.next hplan hkeys hev
  have hstay : n.toNat ≤ (packets tr).length → packets ev = [] → BatchNumbered n (tr ++ ev) s' := by
    intro hlen hnone
    have hpackets : packets (tr ++ ev) = packets tr := by
      rw [packets_append, hnone, List.append_nil]
    exact ⟨.done (by rwa [hpackets]), by rw [hpackets]; exact h.numbers⟩
  cases hp with
  | headClosed ha hv | headRefused ha hv =>
      have hreq := loadHeader_request ha.length
      rcases hnext (.refused (Request.decode s.c.window))
        (by simp [executed, Event.commands, hreq, hv]) with ⟨-, -, hc⟩ | ⟨-, k, hc⟩ | hlen
      · cases hc
      · cases hc
      · exact hstay hlen rfl
  | store hc hw =>
      rcases hnext (.set s.c.key s.c.value) rfl with ⟨-, -, hc⟩ | ⟨-, k, hc⟩ | hlen
      · cases hc
      · cases hc
      · exact hstay hlen rfl
  | headBody ha hv =>
      exact h.silent (by simp [executed, Event.commands, loadHeader_request ha.length, hv])
  | headBatch ha hv =>
      have hreq := loadHeader_request ha.length
      have hev : executed [.dispatch (loadHeader s.c).binaryHeader s.c.inBatchGet] =
          [.batchHead (loadHeader s.c).binaryHeader.batchnum] := by
        simp [executed, Event.commands, hreq, hv]
      rcases hnext _ hev with ⟨hnil, hnone, hc⟩ | ⟨-, k, hc⟩ | hlen
      · have hnum : (loadHeader s.c).binaryHeader.batchnum = n := Command.batchHead.inj hc
        have hpackets : packets (tr ++ [.dispatch (loadHeader s.c).binaryHeader s.c.inBatchGet]) =
            [] := by
          rw [packets_append, hnone]
          rfl
        rw [UInt16.lt_iff_toNat_lt] at hpos
        refine ⟨.within ⟨rfl, hnum, ?_, ?_, ?_⟩, ?_⟩
        · rw [hpackets]
          rfl
        · rw [hpackets]
          exact hpos
        · rw [executed_append, hnil, hev, hpackets]
          rfl
        · rw [hpackets]
          exact fun i _ p hp => by simp at hp
      · cases hc
      · exact hstay hlen rfl
  | query hc hw =>
      have hpackets : ∀ k found b p,
          packets (tr ++ [.find k found, .reply b p]) = packets tr ++ [p] :=
        fun _ _ _ _ => packets_append _ _
      rcases hnext (.get s.c.key) rfl with ⟨-, -, hc⟩ | ⟨hwithin, -⟩ | hlen
      · cases hc
      · have hq : BatchOk (queryResult s.c (s.table.find s.c.key)) := hok.batch.congr
        have hsucc := hq.count_succ (by simp [hw]) (by simpa using hwithin.inBatch)
        rw [queryResult_batchCount, hwithin.count] at hsucc
        have hin : (queryResult s.c (s.table.find s.c.key)).inBatchGet = true := by
          simpa using hwithin.inBatch
        refine ⟨?_, ?_⟩
        · rcases Nat.lt_or_ge ((packets tr).length + 1) n.toNat with hmore | hfull
          · refine .within ⟨by simpa using hin, by simpa using hwithin.num, ?_, ?_, ?_⟩
            · rw [conRetBuf_batch hin, hpackets, List.length_append]
              simpa using hsucc
            · rwa [hpackets, List.length_append]
            · rw [executed_append, hpackets, List.length_append, List.length_append,
                hwithin.executed]
              rfl
          · refine .done ?_
            rwa [hpackets, List.length_append]
        · rw [hpackets]
          refine h.numbers.concat fun _ => ?_
          rw [decode_respPacket, hin, if_pos rfl, queryResult_batchCount, ← hwithin.count,
            UInt16.ofNat_toNat]
      · refine ⟨.done ?_, ?_⟩
        · rw [hpackets, List.length_append]
          omega
        · rw [hpackets]
          exact h.numbers.concat fun hlt => by omega
  | batchDone ha hret hall =>
      cases h.progress with
      | before hexec hnone hin => simp [ha.inBatch] at hin
      | within hwithin =>
          have hcount := hwithin.count
          rw [ha.count, hwithin.num] at hcount
          exact absurd hwithin.more (by omega)
      | done hlen => exact hstay hlen rfl
  | _ => exact h.silent rfl

/-! ### A batch in a stream -/

/-- What a connection at rest is still to execute, if the head of a batch and the batch are
next in its stream. -/
theorem Connection.AtRest.forecast {p : Packet} {gets : List Packet} (hrest : t.c.AtRest)
    (hunparsed : t.unparsed = p.bytes ++ gets.flatMap Packet.bytes ++ S)
    (hp : p.IsBatchHead gets.length)
    (hlen : p.header.keylen.toNat ≤ p.header.totalbodylen.toNat) (hgets : NumberedGets 0 gets) :
    t.forecast <+: .batchHead p.header.batchnum :: (gets.map Packet.body).map .get ++
      commandsIn (.head none) S := by
  by_cases hover : t.exited = true ∨ t.c.connState = .connClosing
  · rw [(State.forecast_over hover).1]
    exact List.nil_prefix
  rw [not_or, Bool.not_eq_true] at hover
  have hpending : t.pending = [] :=
    State.pending_nil (by simp [hrest.work]) (by simp [hrest.work])
  have hsession : t.session = .head none := by
    simp [State.session, hover.1, hover.2, Connection.session, hrest.work, Connection.batch,
      hrest.inBatch]
  have hparse := (hgets.parse (n := p.header.batchnum) (S := S)
    (Nat.le_of_eq (by rw [hp.batchnum, Nat.zero_add]))).1
  rw [Nat.zero_add, ← hp.batchnum, batchAt_full] at hparse
  rw [State.forecast, hpending, hsession, hunparsed, List.append_assoc, (hp.parse hlen).1, hparse,
    List.map_map]
  exact List.prefix_rfl

/-- **The answers of a batch are numbered** with the bytes of each number swapped. -/
theorem StateOk.numbered_run {p : Packet} {gets : List Packet} (h : StateOk t)
    (hrest : t.c.AtRest) (hunparsed : t.unparsed = p.bytes ++ gets.flatMap Packet.bytes ++ S)
    (hp : p.IsBatchHead gets.length)
    (hlen : p.header.keylen.toNat ≤ p.header.totalbodylen.toNat) (hgets : NumberedGets 0 gets)
    (hr : Run (Step E) t tr u) : Swapped gets.length (packets tr) := by
  have hplan := hrest.forecast hunparsed hp hlen hgets
  have hpos : 0 < p.header.batchnum := by
    rw [UInt16.lt_iff_toNat_lt, hp.batchnum]
    exact hp.wanted
  have hexecuted : executed tr <+: t.forecast := by
    rcases h.conservesOrOver_run hr with hcons | ⟨-, -, hpre⟩
    · exact ⟨_, hcons.forecast⟩
    · exact hpre
  have hkeys : (gets.map Packet.body).length = p.header.batchnum.toNat := by
    rw [List.length_map, hp.batchnum]
  have hrun : executed tr <+: .batchHead p.header.batchnum :: (gets.map Packet.body).map .get ++
      commandsIn (.head none) S → BatchNumbered p.header.batchnum tr u := by
    refine h.along (R := fun tr u => executed tr <+: _ → BatchNumbered p.header.batchnum tr u) hr
      (fun _ => ⟨.before rfl rfl hrest.inBatch, fun i _ p hp => by simp [packets] at hp⟩) ?_ ?_ ?_
    · intro tr a hR hpre
      have hsilent : BatchNumbered p.header.batchnum (tr ++ []) (enter a) :=
        (hR hpre).silent rfl rfl rfl rfl rfl
      rwa [List.append_nil] at hsilent
    · intro tr a table hR hpre
      have hsilent : BatchNumbered p.header.batchnum (tr ++ []) { a with table := table } :=
        (hR hpre).silent rfl
      rwa [List.append_nil] at hsilent
    · intro tr a r ev b hok _ _ hR hpass hpre
      have hbefore : executed tr <+: executed (tr ++ ev) := by
        rw [executed_append]
        exact List.prefix_append _ _
      exact (hR (hbefore.trans hpre)).pass hok hpos hpre hkeys hpass
  have hnumbers := (hrun (hexecuted.trans hplan)).numbers
  rwa [hp.batchnum] at hnumbers

/-- The packets answer the GETs in order, each under its number. -/
def NumberedLike (gets : List Packet) (ps : List Bytes) : Prop :=
  ∀ i (hi : i < gets.length), ∀ p ∈ ps[i]?,
    (Request.decode p).batchnum = gets[i].header.batchnum

/-- **A batch is numbered like its questions only if it has one.** An answer decodes to the
number of its question just if the two bytes of that number are equal, and among the first
two numbers that holds of zero only. -/
theorem batch_numbers {p : Packet} {gets : List Packet} {tr₀ : List Event}
    (h : Init stream s) (hr : Run (Step Env.any) s tr₀ t) (hrest : t.c.AtRest)
    (hunparsed : t.unparsed = p.bytes ++ gets.flatMap Packet.bytes ++ S)
    (hp : p.IsBatchHead gets.length)
    (hlen : p.header.keylen.toNat ≤ p.header.totalbodylen.toNat) (hgets : NumberedGets 0 gets)
    (hrun : Run (Step Env.any) t tr u) :
    (∀ i (hi : i < gets.length), ∀ q ∈ (packets tr)[i]?,
        ((Request.decode q).batchnum = gets[i].header.batchnum ↔ i % 256 = i / 256)) ∧
      (gets.length ≤ (packets tr).length →
        (NumberedLike gets (packets tr) ↔ gets.length = 1)) := by
  have hswapped := (h.ok.run hr).numbered_run hrest hunparsed hp hlen hgets hrun
  have hlt := p.header.batchnum.toNat_lt
  rw [hp.batchnum] at hlt
  have heach : ∀ i (hi : i < gets.length), ∀ q ∈ (packets tr)[i]?,
      ((Request.decode q).batchnum = gets[i].header.batchnum ↔ i % 256 = i / 256) := by
    intro i hi q hq
    have hsize : (UInt16.ofNat i).toNat = i :=
      UInt16.toNat_ofNat_of_lt' (by simp only [UInt16.size]; omega)
    have hnum : gets[i].header.batchnum = UInt16.ofNat i := by
      rw [← UInt16.toNat_inj, (hgets i hi).2, hsize, Nat.zero_add]
    rw [hswapped i hi q hq, hnum, htons_eq_self, hsize]
  refine ⟨heach, fun hall => ⟨fun hlike => ?_, fun hone i hi q hq => ?_⟩⟩
  · by_contra hne
    have htwo : 1 < gets.length := Nat.lt_of_le_of_ne hp.wanted (Ne.symm hne)
    have hq := List.getElem?_eq_getElem (Nat.lt_of_lt_of_le htwo hall)
    exact absurd ((heach 1 htwo _ hq).1 (hlike 1 htwo _ hq)) (by decide)
  · obtain rfl : i = 0 := by omega
    exact (heach 0 hi q hq).2 rfl

/-- A batch of one, answered. -/
def oneAnswered : State × List Event :=
  (State.accepted ((Packet.batchHead 1 0 0).bytes ++ [Packet.smallGet 107 0].flatMap Packet.bytes ++
      []) .empty).play Env.any (.call :: .ret 25 :: List.replicate 4 (.ret 0))

theorem batch_numbers_oneAnswered :
    (packets oneAnswered.2).length = 1 ∧
      NumberedLike [Packet.smallGet 107 0] (packets oneAnswered.2) := by
  have hlength : (packets oneAnswered.2).length = 1 := by decide +kernel
  refine ⟨hlength, ((batch_numbers (State.init_accepted _) (.refl _) ⟨rfl, rfl⟩ rfl
    ⟨rfl, rfl, rfl, by decide, rfl⟩ (by decide) numberedGets_small
    (State.play_run (E := Env.any) _ _)).2 hlength.ge).2 rfl⟩

/-- The second answer of a batch of two has the number 256. -/
theorem batch_numbers_two :
    ¬ ∀ (stream S : Bytes) (s t u : State) (tr₀ tr : List Event) (p : Packet)
      (gets : List Packet), Init stream s → Run (Step Env.any) s tr₀ t → t.c.AtRest →
      t.unparsed = p.bytes ++ gets.flatMap Packet.bytes ++ S → p.IsBatchHead gets.length →
      p.header.keylen.toNat ≤ p.header.totalbodylen.toNat → NumberedGets 0 gets →
      Run (Step Env.any) t tr u → NumberedLike gets (packets tr) := by
  intro hall
  have hgets : NumberedGets 0 [Packet.smallGet 107 0, Packet.smallGet 108 1] := by
    intro i hi
    match i, hi with
    | 0, _ => exact ⟨Packet.isGet_smallGet 107 0, rfl⟩
    | 1, _ => exact ⟨Packet.isGet_smallGet 108 1, rfl⟩
  have hlike := hall _ [] _ _ _ _ _ (.batchHead 2 0 0) _ (State.init_accepted _) (.refl _)
    ⟨rfl, rfl⟩ rfl ⟨rfl, rfl, rfl, by decide, rfl⟩ (by decide) hgets
    (State.play_run (E := Env.any) _ (.call :: .ret 38 :: List.replicate 9 (.ret 0)))
  have hanswer := hlike 1 (by decide) _ (List.getElem?_eq_getElem (by decide +kernel))
  revert hanswer
  decide +kernel

end MultiportNetwork
