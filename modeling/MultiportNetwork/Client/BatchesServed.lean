import MultiportNetwork.Segmentation
import MultiportNetwork.Client.GetBatch

/-!
# MultiportNetwork.Client.BatchesServed

The batches `get_batch` builds, under `process_func`. A port's stream is a sequence of
heads, each with as many numbered GETs behind it as it announces (`batches_parse`), so
the server executes a plan of batches (`batchPlan`), however the stream reaches it.

The plan says which keys are looked up, not whether their answers go to a batch: that
follows from the batch that the commands executed so far have left open
(`Init.openBatch_run`). So every lookup of the plan queues a packet, and every batch is
looked up and answered exactly (`batches_served`).
-/

namespace MultiportNetwork

variable {E : Env} {s s' t : State} {r : SysRet} {ev tr : List Event} {stream : Bytes}
  {n : UInt16} {batches done : List (List Bytes)} {keys : List Bytes} {cs : List Command}

/-! ### The batch left open -/

/-- A batch all of whose answers have been built is over. -/
def unfinished (b : Option Batch) : Option Batch := b.filter fun x => x.count != x.num

/-- The batch a command leaves open. -/
def Command.batchAfter (b : Option Batch) : Command → Option Batch
  | .batchHead n => some ⟨n, 0⟩
  | .get _ => unfinished (b.map fun x => ⟨x.num, x.count + 1⟩)
  | _ => b

/-- The batch some commands leave open. -/
def batchAfter (cs : List Command) : Option Batch := cs.foldl Command.batchAfter none

/-- The batch a connection is in, once the answer at hand has been sent. -/
def Connection.openBatch (c : Connection) : Option Batch :=
  if c.workState = .writeBcak then unfinished c.batch else c.batch

theorem Connection.batch_congr {c c' : Connection} (hin : c'.inBatchGet = c.inBatchGet)
    (hnum : c'.batchNum = c.batchNum) (hcount : c'.batchCount = c.batchCount) :
    c'.batch = c.batch := by
  rw [Connection.batch, Connection.batch, hin, hnum, hcount]

/-- A step that stays on the same side of `write_bcak` and leaves the batch alone. -/
theorem Connection.openBatch_congr {c c' : Connection}
    (hwork : c'.workState = .writeBcak ↔ c.workState = .writeBcak := by simp)
    (hin : c'.inBatchGet = c.inBatchGet := by simp) (hnum : c'.batchNum = c.batchNum := by simp)
    (hcount : c'.batchCount = c.batchCount := by simp) : c'.openBatch = c.openBatch := by
  rw [Connection.openBatch, Connection.openBatch, Connection.batch_congr hin hnum hcount]
  simp only [hwork]

/-- **A pass leaves open** what the commands it executes do. -/
theorem Pass.openBatch (hp : Pass s r s' ev) :
    s'.c.openBatch = (executed ev).foldl Command.batchAfter s.c.openBatch := by
  cases hp with
  | headClosed ha hv | headRefused ha hv =>
      have hreq := loadHeader_request ha.length
      have hev : executed [.dispatch (loadHeader s.c).binaryHeader s.c.inBatchGet] =
          [.refused (Request.decode s.c.window)] := by
        simp [executed, Event.commands, hreq, hv]
      rw [hev]
      exact Connection.openBatch_congr (by simp [ha.work])
  | headBody ha hv =>
      have hev : executed [.dispatch (loadHeader s.c).binaryHeader s.c.inBatchGet] = [] := by
        simp [executed, Event.commands, loadHeader_request ha.length, hv]
      rw [hev]
      exact Connection.openBatch_congr (by simp [ha.work])
  | headBatch ha hv =>
      have hev : executed [.dispatch (loadHeader s.c).binaryHeader s.c.inBatchGet] =
          [.batchHead (loadHeader s.c).binaryHeader.batchnum] := by
        simp [executed, Event.commands, loadHeader_request ha.length, hv]
      rw [hev]
      simp [Connection.openBatch, Connection.batch, Command.batchAfter]
  | query hc hw =>
      have hopen : s.c.openBatch = s.c.batch := if_neg (by simp [hw])
      rw [hopen]
      cases hin : s.c.inBatchGet with
      | true =>
          rw [conRetBuf_batch (by simpa using hin)]
          simp [Connection.openBatch, Connection.batch, hin, executed, Event.commands,
            Command.batchAfter]
      | false =>
          rw [conRetBuf_single (by simpa using hin)]
          simp [Connection.openBatch, Connection.batch, hin, executed, Event.commands,
            Command.batchAfter]
  | batchMore hc hw hin hlt =>
      have hne : s.c.batchCount ≠ s.c.batchNum := by
        rintro heq
        simp [heq] at hlt
      simp [Connection.openBatch, Connection.batch, hw, hin, unfinished,
        Option.filter_some, hne]
  | batchDone ha hpos hall =>
      simp [Connection.openBatch, Connection.batch, ha.work, ha.inBatch, ha.count, unfinished,
        Option.filter_some, executed, Event.commands]
  | singleDone ha hpos hall =>
      simp [Connection.openBatch, Connection.batch, ha.work, ha.inBatch, unfinished, executed,
        Event.commands]
  | store hc hw => exact Connection.openBatch_congr (by simp [hw])
  | bodySet ha | bodyGet ha => exact Connection.openBatch_congr (by simp [ha.work])
  | _ => exact Connection.openBatch_congr

/-- **The batch a connection is in** is the one its commands have left open. -/
theorem Init.openBatch_run (h : Init stream s) (hr : Run (Step E) s tr t) :
    t.c.openBatch = batchAfter (executed tr) := by
  have hstart : s.c.openBatch = batchAfter (executed []) := by
    obtain ⟨sfd, threadIndex, readBuf, retBuf, hc⟩ := h.conn
    simp [hc, connNew, Connection.openBatch, Connection.batch, batchAfter]
  refine h.ok.along (R := fun tr t => t.c.openBatch = batchAfter (executed tr)) hr hstart id
    (fun _ h => h) ?_
  intro tr a r ev b _ _ _ hopen hp
  rw [hp.openBatch, hopen, executed_append, batchAfter, batchAfter, List.foldl_append]

/-! ### The plan of a stream of batches -/

/-- The commands of some batches. -/
def batchPlan (n : UInt16) (batches : List (List Bytes)) : List Command :=
  batches.flatMap fun keys => .batchHead n :: keys.map .get

/-- How far a plan can have been carried out: some batches have been begun, the last of
them perhaps not finished. -/
theorem batchPlan_prefix (h : cs <+: batchPlan n batches) :
    cs = [] ∨ ∃ done keys keys', done ++ [keys] <+: batches ∧ keys' <+: keys ∧
      cs = batchPlan n done ++ .batchHead n :: keys'.map .get := by
  induction batches generalizing cs with
  | nil =>
      left
      simpa [batchPlan] using h
  | cons keys batches ih =>
      obtain ⟨rest, hrest⟩ := h
      have hcons : cs ++ rest = (.batchHead n :: keys.map .get) ++ batchPlan n batches := hrest
      rcases List.append_eq_append_iff.mp hcons with ⟨a, ha, -⟩ | ⟨cs', rfl, hcs'⟩
      · -- within the first batch
        rcases List.append_eq_cons_iff.mp ha.symm with ⟨rfl, -⟩ | ⟨cs', rfl, hcs'⟩
        · exact .inl rfl
        · obtain ⟨keys', left, rfl, rfl, -⟩ := List.append_eq_map_iff.mp hcs'.symm
          exact .inr ⟨[], keys' ++ left, keys', by simp, by simp, rfl⟩
      · right
        rcases ih ⟨rest, hcs'.symm⟩ with rfl | ⟨done, keys₁, keys', hdone, hkeys, rfl⟩
        · exact ⟨[], keys, keys, by simp, List.prefix_rfl, by simp [batchPlan]⟩
        · exact ⟨keys :: done, keys₁, keys', by simpa using hdone, hkeys, by simp [batchPlan]⟩

/-- A part of a plan that looks nothing up, up to its end, is empty. -/
theorem batchPlan_suffix (hkeys : ∀ keys ∈ batches, keys ≠ []) (h : cs <:+ batchPlan n batches)
    (hcalls : tableCalls cs = []) : cs = [] := by
  rcases List.eq_nil_or_concat batches with rfl | ⟨init, keys, rfl⟩
  · simpa [batchPlan] using h
  · rw [List.concat_eq_append] at h hkeys
    obtain ⟨keys', k, hk⟩ := (List.eq_nil_or_concat keys).resolve_left (hkeys keys (by simp))
    have hlast : batchPlan n (init ++ [keys]) =
        (batchPlan n init ++ .batchHead n :: keys'.map .get) ++ [.get k] := by
      simp [batchPlan, hk]
    rw [hlast, List.suffix_concat_iff] at h
    rcases h with rfl | ⟨cs', rfl, -⟩
    · rfl
    · rw [tableCalls_append, List.append_eq_nil_iff] at hcalls
      cases hcalls.2

theorem tableCalls_batchPlan (n : UInt16) (batches : List (List Bytes)) :
    tableCalls (batchPlan n batches) = batches.flatten.map .find := by
  induction batches with
  | nil => rfl
  | cons keys batches ih =>
      have hgets : tableCalls (keys.map .get) = keys.map .find := by
        induction keys with
        | nil => rfl
        | cons k keys ih => exact congrArg _ ih
      have hcons : batchPlan n (keys :: batches) =
          [.batchHead n] ++ keys.map .get ++ batchPlan n batches := rfl
      rw [hcons, tableCalls_append, tableCalls_append, hgets, ih, List.flatten_cons,
        List.map_append]
      rfl

/-- A batch with fewer GETs than its head wants is open, and over with the last one. -/
theorem foldl_gets {k : Nat} (hk : k < n.toNat) (hle : k + keys.length ≤ n.toNat) :
    (keys.map Command.get).foldl Command.batchAfter (some ⟨n, UInt16.ofNat k⟩) =
      if k + keys.length < n.toNat then some ⟨n, UInt16.ofNat (k + keys.length)⟩ else none := by
  induction keys generalizing k with
  | nil => simp [hk]
  | cons key keys ih =>
      have hn := n.toNat_lt
      rw [List.length_cons] at hle
      have hnext : UInt16.ofNat k + 1 = UInt16.ofNat (k + 1) := by simp [UInt16.ofNat_add]
      have hcount : (UInt16.ofNat (k + 1)).toNat = k + 1 :=
        UInt16.toNat_ofNat_of_lt' (by simp only [UInt16.size]; omega)
      have hstep : Command.batchAfter (some ⟨n, UInt16.ofNat k⟩) (.get key) =
          if k + 1 < n.toNat then some ⟨n, UInt16.ofNat (k + 1)⟩ else none := by
        simp only [Command.batchAfter, unfinished, Option.map_some, Option.filter_some, hnext]
        by_cases hlt : k + 1 < n.toNat
        · have hne : UInt16.ofNat (k + 1) ≠ n := fun heq => by
            rw [← heq, hcount] at hlt
            omega
          rw [if_pos (bne_iff_ne.mpr hne), if_pos hlt]
        · have heq : UInt16.ofNat (k + 1) = n := UInt16.toNat_inj.mp (by omega)
          rw [if_neg hlt, if_neg (by simp only [heq, bne_self_eq_false, Bool.false_eq_true,
            not_false_eq_true])]
      rw [List.map_cons, List.foldl_cons, hstep, List.length_cons]
      by_cases hlt : k + 1 < n.toNat
      · rw [if_pos hlt, ih hlt (by omega), Nat.add_assoc, Nat.add_comm 1]
      · have hnil : keys = [] := List.eq_nil_of_length_eq_zero (by omega)
        simp [hnil, hlt]

theorem batchAfter_batchPlan (hn : 0 < n.toNat) (hdone : ∀ keys ∈ done, keys.length = n.toNat) :
    batchAfter (batchPlan n done) = none := by
  induction done with
  | nil => rfl
  | cons keys done ih =>
      have hlen := hdone keys List.mem_cons_self
      have hle : 0 + keys.length ≤ n.toNat := by omega
      have hgets := foldl_gets hn hle
      have hcons : batchPlan n (keys :: done) =
          (.batchHead n :: keys.map .get) ++ batchPlan n done := rfl
      rw [hcons, batchAfter, List.foldl_append, List.foldl_cons]
      have hover : (keys.map Command.get).foldl Command.batchAfter (some ⟨n, 0⟩) = none := by
        simpa [hlen] using hgets
      rw [show Command.batchAfter none (.batchHead n) = some ⟨n, 0⟩ from rfl, hover]
      exact ih fun keys' hkeys' => hdone keys' (List.mem_cons_of_mem keys hkeys')

/-- In the middle of a plan, a GET that is executed next finds its batch open. -/
theorem batchAfter_isSome {k : Bytes} (hn : 0 < n.toNat)
    (hbatches : ∀ keys ∈ batches, keys.length = n.toNat)
    (h : cs ++ [.get k] <+: batchPlan n batches) : batchAfter cs ≠ none := by
  rcases batchPlan_prefix h with hnil | ⟨done, keys, keys', hdone, hkeys, hcs⟩
  · simp at hnil
  rcases List.eq_nil_or_concat keys' with rfl | ⟨keys₁, k', rfl⟩
  · cases (List.append_inj' hcs rfl).2
  rw [List.concat_eq_append] at hkeys hcs
  have hcs' : cs = batchPlan n done ++ .batchHead n :: keys₁.map .get := by
    have hsplit : batchPlan n done ++ .batchHead n :: (keys₁ ++ [k']).map .get =
        (batchPlan n done ++ .batchHead n :: keys₁.map .get) ++ [.get k'] := by simp
    rw [hsplit] at hcs
    exact (List.append_inj' hcs rfl).1
  have hfull : ∀ x ∈ done ++ [keys], x.length = n.toNat := fun x hx =>
    hbatches x (hdone.subset hx)
  have hlt : 0 + keys₁.length < n.toNat := by
    have hle := hkeys.length_le
    rw [hfull keys (by simp), List.length_append, List.length_singleton] at hle
    omega
  have hopen := batchAfter_batchPlan hn fun x hx => hfull x (List.mem_append_left _ hx)
  have hgets := foldl_gets hn (Nat.le_of_lt hlt)
  rw [batchAfter] at hopen
  rw [hcs', batchAfter, List.foldl_append, List.foldl_cons, hopen]
  rw [show Command.batchAfter none (.batchHead n) = some ⟨n, UInt16.ofNat 0⟩ from rfl, hgets,
    if_pos hlt]
  simp

/-! ### The log of the batches -/

/-- What has been done for a batch since its head: the keys looked up, and how many
packets have been queued. -/
structure BatchLog where
  keys : List Bytes
  queued : Nat
  deriving Repr, DecidableEq

/-- The logs of the batches begun, the last one first, with one more event. -/
def BatchLog.enter : List BatchLog → Event → List BatchLog
  | logs, .dispatch h _ => if h.request.verdict = .batchHead then ⟨[], 0⟩ :: logs else logs
  | log :: logs, .find k _ => { log with keys := log.keys ++ [k] } :: logs
  | log :: logs, .reply true _ => { log with queued := log.queued + 1 } :: logs
  | logs, _ => logs

/-- The batches of a trace, from the first one on. -/
def batchLogs (tr : List Event) : List BatchLog := (tr.foldl BatchLog.enter []).reverse

/-- A command that queues a packet for every lookup. -/
def BatchLog.command : List BatchLog → Command → List BatchLog
  | logs, .batchHead _ => ⟨[], 0⟩ :: logs
  | log :: logs, .get k => ⟨log.keys ++ [k], log.queued + 1⟩ :: logs
  | logs, _ => logs

/-- Only a GET outside a batch is answered alone. -/
theorem Pass.reply_single (hp : Pass s r s' ev) {packet : Bytes} (he : .reply false packet ∈ ev) :
    s.c.openBatch = none ∧ ∃ k, executed ev = [.get k] := by
  cases hp with
  | query hc hw =>
      obtain ⟨hin, -⟩ : s.c.inBatchGet = false ∧ packet = _ := by simpa using he
      exact ⟨by simp [Connection.openBatch, Connection.batch, hw, hin], _, rfl⟩
  | _ => simp at he

/-- **A pass logs** what the commands it executes do, if it answers in a batch. -/
theorem Pass.batchLog (hp : Pass s r s' ev) (hin : ∀ packet, .reply false packet ∉ ev)
    (logs : List BatchLog) :
    ev.foldl BatchLog.enter logs = (executed ev).foldl BatchLog.command logs := by
  cases hp with
  | headClosed ha hv | headRefused ha hv | headBatch ha hv | headBody ha hv =>
      simp [executed, Event.commands, loadHeader_request ha.length, hv, BatchLog.enter,
        BatchLog.command]
  | query hc hw =>
      have hin' : s.c.inBatchGet = true := by
        cases hb : s.c.inBatchGet with
        | true => rfl
        | false =>
            exact absurd (by simp [hb]) (hin (queryResult s.c (s.table.find s.c.key)).respPacket)
      cases logs <;> simp [executed, Event.commands, BatchLog.enter, BatchLog.command, hin']
  | _ => cases logs <;> simp [executed, Event.commands, BatchLog.enter, BatchLog.command]

theorem foldl_command_gets (log : BatchLog) (logs : List BatchLog) (keys : List Bytes) :
    (keys.map Command.get).foldl BatchLog.command (log :: logs) =
      ⟨log.keys ++ keys, log.queued + keys.length⟩ :: logs := by
  induction keys generalizing log with
  | nil => simp
  | cons k keys ih =>
      rw [List.map_cons, List.foldl_cons, BatchLog.command, ih]
      simp only [List.append_assoc, List.singleton_append, List.length_cons]
      congr 2
      omega

theorem foldl_command_batchPlan (n : UInt16) (batches : List (List Bytes))
    (logs : List BatchLog) :
    (batchPlan n batches).foldl BatchLog.command logs =
      (batches.map fun keys => ⟨keys, keys.length⟩).reverse ++ logs := by
  induction batches generalizing logs with
  | nil => rfl
  | cons keys batches ih =>
      have hcons : batchPlan n (keys :: batches) =
          (.batchHead n :: keys.map .get) ++ batchPlan n batches := rfl
      rw [hcons, List.foldl_append, List.foldl_cons, BatchLog.command, foldl_command_gets, ih]
      simp

/-- The logs of a plan that has been carried out in part: of the batches begun each has
its first keys looked up, and a packet for each of them. -/
theorem logs_prefix (h : cs <+: batchPlan n batches) :
    ∃ begun, begun <+: batches ∧ List.Forall₂ (fun (log : BatchLog) keys =>
      log.keys <+: keys ∧ log.queued = log.keys.length) (cs.foldl BatchLog.command []).reverse
        begun := by
  rcases batchPlan_prefix h with rfl | ⟨done, keys, keys', hdone, hkeys, rfl⟩
  · exact ⟨[], List.nil_prefix, .nil⟩
  · refine ⟨done ++ [keys], hdone, ?_⟩
    rw [List.foldl_append, foldl_command_batchPlan, List.foldl_cons, BatchLog.command,
      foldl_command_gets, List.reverse_cons, List.append_nil, List.reverse_reverse]
    refine List.rel_append ?_ (.cons ⟨by simpa using hkeys, by simp⟩ .nil)
    rw [List.forall₂_map_left_iff, List.forall₂_same]
    exact fun x _ => ⟨List.prefix_rfl, rfl⟩

/-! ### A run of the plan -/

/-- What the server should have done after `tr` for a client that sends it these batches
of `n` GETs each. -/
structure BatchesServed (n : Nat) (batches : List (List Bytes)) (tr : List Event) (t : State) :
    Prop where
  /-- Neither closed nor dead. -/
  stillOpen : t.outcome = .stillOpen ∧ .close ∉ tr ∧ .exit ∉ tr
  /-- No header has been refused. -/
  accepted : ∀ h b, .dispatch h b ∈ tr →
    h.request.verdict = .batchHead ∨ h.request.verdict = .body
  /-- Only keys of the batches have been looked up, in order. -/
  calls : tableCallsOf tr <+: batches.flatten.map .find
  /-- Each batch begun has had its first keys looked up, and a packet queued for each. -/
  begun : ∃ begun, begun <+: batches ∧ List.Forall₂ (fun (log : BatchLog) keys =>
    log.keys <+: keys ∧ log.queued = log.keys.length) (batchLogs tr) begun
  /-- At rest all keys have been looked up, and each batch has its `n` finds and packets. -/
  served : Quiet t → tableCallsOf tr = batches.flatten.map .find ∧
    batchLogs tr = batches.map fun keys => ⟨keys, n⟩

theorem Init.batchLogs_run (h : Init stream s) (hr : Run (Step Env.benign) s tr t)
    (hn : 0 < n.toNat) (hbatches : ∀ keys ∈ batches, keys.length = n.toNat)
    (hplan : commandsIn (.head none) stream = batchPlan n batches) :
    batchLogs tr = ((executed tr).foldl BatchLog.command []).reverse := by
  let R : List Event → State → Prop := fun tr t => Run (Step Env.benign) s tr t ∧
    tr.foldl BatchLog.enter [] = (executed tr).foldl BatchLog.command []
  have hrel : R tr t := by
    refine hr.relate (R := R) ⟨.refl s, rfl⟩ ?_
    rintro tr a ev b ⟨hr, hlog⟩ hs
    refine ⟨hr.snoc hs, ?_⟩
    have hb := (h.refines (hr.snoc hs)).1
    rw [executed_append, List.foldl_append, List.foldl_append, hlog]
    cases hs with
    | call => rfl
    | others => rfl
    | pass hrun halive hans =>
        have hp := pass_cases (h.ok.run hr).control (Env.benign.returns hans)
        refine hp.batchLog (fun packet he => ?_) _
        -- a lookup is a GET of the plan, and finds its batch open
        obtain ⟨hopen, k, hget⟩ := hp.reply_single he
        rw [h.openBatch_run hr] at hopen
        rw [executed_append, hget, hplan] at hb
        exact batchAfter_isSome hn hbatches ⟨_, hb⟩ hopen
  rw [batchLogs, hrel.2]

/-- **A plan of batches is served**, however its stream is cut and delayed. -/
theorem Init.batchesServed (h : Init stream s) (hr : Run (Step Env.benign) s tr t)
    (hn : 0 < n.toNat) (hbatches : ∀ keys ∈ batches, keys.length = n.toNat)
    (hplan : commandsIn (.head none) stream = batchPlan n batches)
    (hsession : sessionAfter (.head none) stream = .head none) :
    BatchesServed n.toNat batches tr t := by
  have hexec := (h.refines hr).1
  rw [hplan] at hexec
  have hfinal : s.final.outcome = .stillOpen := by rw [h.final, hsession]; rfl
  have hlogs := h.batchLogs_run hr hn hbatches hplan
  have hcalls := congrArg tableCalls hexec
  rw [tableCalls_append, tableCalls_executed, tableCalls_batchPlan] at hcalls
  refine ⟨h.ok.open_run hfinal hr, fun hd b he => ?_, ⟨_, hcalls⟩, ?_, fun hq => ?_⟩
  · refine accepted_of_executed (fun q hmem => ?_) he
    have hplanned : .refused q ∈ batchPlan n batches := hexec ▸ List.mem_append_left _ hmem
    simp [batchPlan] at hplanned
  · rw [hlogs]
    exact logs_prefix ⟨_, hexec⟩
  · have hrest := (h.ok.run hr).quiet_calls hq
    have hnil : t.forecast = [] := by
      refine batchPlan_suffix (n := n) (fun keys hkeys hnil => ?_) ⟨_, hexec⟩ hrest
      have hlen := hbatches keys hkeys
      rw [hnil, List.length_nil] at hlen
      omega
    rw [hrest, List.append_nil] at hcalls
    rw [hnil, List.append_nil] at hexec
    refine ⟨hcalls, ?_⟩
    rw [hlogs, hexec, foldl_command_batchPlan, List.append_nil, List.reverse_reverse]
    exact List.map_congr_left fun keys hkeys => by rw [hbatches keys hkeys]

/-! ### The batches of `get_batch` -/

namespace GetBatch

open Client

variable {S : Settings} {array : List UInt64} {p : Nat} {port : UInt8} {key : Bytes}

/-- What `fetch_and_send` writes of an object: its bytes from `offset` on. -/
def BatchObj.bytes (obj : BatchObj) : Bytes := obj.buf.load obj.offset (obj.datalen - obj.offset)

/-- The batches of a port, one behind the other. -/
def Building.portStream (b : Building) (p : Nat) : Bytes := (b.database p).flatMap BatchObj.bytes

theorem isGet_package (h : key.length = keyLen) (port : UInt8) (num : UInt16) :
    (package key port num).IsGet :=
  ⟨rfl, rfl, show 1 ≤ (UInt16.ofNat keyLen).toNat by decide, rfl,
    show (UInt32.ofNat keyLen).toNat ≤ initReadBufSize by decide, h⟩

/-- A head of `get_batch` and its GETs are one batch. -/
theorem batch_parse (port : UInt8) (hn : 1 ≤ S.batchNum ∧ S.batchNum ≤ 65535)
    (hlen : keys.length = S.batchNum) (hkeys : ∀ key ∈ keys, key.length = keyLen) (rest : Bytes) :
    commandsIn (.head none) (S.batch port keys ++ rest) =
        (.batchHead (UInt16.ofNat S.batchNum) :: keys.map .get) ++
          commandsIn (.head none) rest ∧
      sessionAfter (.head none) (S.batch port keys ++ rest) =
        sessionAfter (.head none) rest := by
  have hnum : (UInt16.ofNat S.batchNum).toNat = S.batchNum :=
    UInt16.toNat_ofNat_of_lt' (by simp only [UInt16.size]; omega)
  have hhead : (S.head port).IsBatchHead S.batchNum := ⟨rfl, rfl, hnum, hn.1, rfl⟩
  have hgets : NumberedGets 0 (packages port keys) := by
    intro i hi
    have hi' : i < keys.length := by simpa using hi
    simp only [packages, List.getElem_mapIdx]
    refine ⟨isGet_package (hkeys _ (List.getElem_mem hi')) port _, ?_⟩
    rw [package, UInt16.toNat_ofNat_of_lt' (by simp only [UInt16.size]; omega), Nat.zero_add]
  have hle : 0 + (packages port keys).length ≤ (UInt16.ofNat S.batchNum).toNat := by
    rw [length_packages, hlen, hnum, Nat.zero_add]
  obtain ⟨hc, hs⟩ := hgets.parse (S := rest) hle
  obtain ⟨hc', hs'⟩ := hhead.parse (S := (packages port keys).flatMap Packet.bytes ++ rest)
    (Nat.le_refl _)
  have hbodies : (packages port keys).map (fun g => Command.get g.body) = keys.map .get := by
    refine List.ext_getElem (by simp) fun i h₁ h₂ => ?_
    simp [packages, package]
  have hover := batchAt_full (UInt16.ofNat S.batchNum)
  rw [hnum] at hover
  rw [Nat.zero_add, length_packages, hlen, hover] at hc hs
  rw [Settings.batch, List.append_assoc, hc', hs', List.cons_append, ← hbodies]
  exact ⟨congrArg _ hc, hs⟩

/-- **The batches of a port are its plan.** -/
theorem batches_parse (port : UInt8) (hn : 1 ≤ S.batchNum ∧ S.batchNum ≤ 65535)
    (hlen : ∀ keys ∈ batches, keys.length = S.batchNum)
    (hkeys : ∀ keys ∈ batches, ∀ key ∈ keys, key.length = keyLen) :
    commandsIn (.head none) (batches.flatMap (S.batch port)) =
        batchPlan (UInt16.ofNat S.batchNum) batches ∧
      sessionAfter (.head none) (batches.flatMap (S.batch port)) = .head none := by
  induction batches with
  | nil => exact ⟨commandsIn_none rfl, sessionAfter_none rfl⟩
  | cons keys batches ih =>
      obtain ⟨hc, hs⟩ := ih (fun x hx => hlen x (List.mem_cons_of_mem keys hx))
        fun x hx => hkeys x (List.mem_cons_of_mem keys hx)
      obtain ⟨hc', hs'⟩ := batch_parse port hn (hlen keys List.mem_cons_self)
        (hkeys keys List.mem_cons_self) (batches.flatMap (S.batch port))
      rw [List.flatMap_cons, hc', hs', hc, hs]
      exact ⟨rfl, rfl⟩

theorem BatchObj.Complete.bytes_eq {obj : BatchObj} (h : obj.Complete S port keys) :
    obj.bytes = S.batch port keys := by
  rw [BatchObj.bytes, h.offset, Nat.sub_zero, h.buf]

/-- The stream of a port is its full batches. -/
theorem Settings.Filled.portStream {b : Building} (h : S.Filled p keys b) :
    b.portStream p =
      (Builder.full S.batchNum keys).flatMap (S.batch (UInt8.ofNat p)) := by
  have hall := h.database
  rw [Building.portStream]
  generalize Builder.full S.batchNum keys = batches, b.database p = objs at hall ⊢
  induction hall with
  | nil => rfl
  | cons hobj hrest ih => rw [List.flatMap_cons, List.flatMap_cons, hobj.bytes_eq, ih]

/-- Keys have the length of a key. -/
theorem length_keysAt (hkey : key ∈ S.keysAt p array) : key.length = keyLen := by
  obtain ⟨number, -, hnumber⟩ := List.mem_filterMap.mp (List.mem_of_mem_filter hkey)
  exact length_keyBuf hnumber

/-- **Client and server agree** on the batches of every port, for every list of numbers
`con_database` has room for, every table and however the stream is cut and delayed. -/
theorem batches_served (hS : S.Ok)
    (hnum : ∀ number ∈ array, (sprintf (number / 26)).length ≤ valueLen) (hp : p < S.portNum) :
    ∃ b n, S.conDatabase array = .ok (b, n) ∧
      ∀ s t tr, Init (b.portStream p) s → Run (Step Env.benign) s tr t →
        BatchesServed S.batchNum (Builder.full S.batchNum (S.keysAt p array)) tr t := by
  obtain ⟨b, hbuild, hfilled⟩ := hS.filled hnum
  refine ⟨b, S.discarded b, hbuild, fun s t tr h hr => ?_⟩
  have hbound := hS.batchNum
  have hlen : ∀ keys ∈ Builder.full S.batchNum (S.keysAt p array), keys.length = S.batchNum :=
    fun keys hkeys => Builder.length_of_mem_full hkeys
  have hkeys : ∀ keys ∈ Builder.full S.batchNum (S.keysAt p array),
      ∀ key ∈ keys, key.length = keyLen := by
    intro keys hkeys key hkey
    have hmem : key ∈ (Builder.full S.batchNum (S.keysAt p array)).flatten :=
      List.mem_flatten.mpr ⟨keys, hkeys, hkey⟩
    rw [Builder.flatten_full] at hmem
    exact length_keysAt (List.mem_of_mem_take hmem)
  have hnum : (UInt16.ofNat S.batchNum).toNat = S.batchNum :=
    UInt16.toNat_ofNat_of_lt' (by simp only [UInt16.size]; omega)
  obtain ⟨hplan, hsession⟩ := batches_parse (UInt8.ofNat p) hS.batchNum hlen hkeys
  rw [← (hfilled p hp).portStream] at hplan hsession
  have hserved := h.batchesServed hr (by omega) (fun keys hk => (hlen keys hk).trans hnum.symm)
    hplan hsession
  rwa [hnum] at hserved

theorem batches_served_fiveNumbers :
    ∃ b n, fiveNumbers.conDatabase [0, 2, 4, 1, 6] = .ok (b, n) ∧
      ∀ s t tr, Init (b.portStream 1) s → Run (Step Env.benign) s tr t →
        BatchesServed 2 (Builder.full 2 (fiveNumbers.keysAt 1 [0, 2, 4, 1, 6])) tr t :=
  batches_served (S := fiveNumbers) ⟨by decide, by decide⟩ fiveNumbers_fit (by decide)

/-- A number whose quotient has nine digits, again. -/
theorem batches_served_longNumber :
    ¬ ∀ (S : Settings) (array : List UInt64) (p : Nat), S.Ok → p < S.portNum →
      ∃ b n, S.conDatabase array = .ok (b, n) ∧
        ∀ s t tr, Init (b.portStream p) s → Run (Step Env.benign) s tr t →
          BatchesServed S.batchNum (Builder.full S.batchNum (S.keysAt p array)) tr t := by
  intro hall
  obtain ⟨b, n, hbuild, -⟩ := hall ⟨1, 1, fun _ => 0⟩ [2600000000] 0 ⟨by decide, by decide⟩
    (by decide)
  have hkey : keyBuf 2600000000 = none := by decide +kernel
  exact conDatabase_ne_ok hkey hbuild

end GetBatch

end MultiportNetwork
