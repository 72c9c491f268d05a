import MultiportNetwork.Lib.Cursor
import MultiportNetwork.Lib.Interleave
import MultiportNetwork.Server.Exec
import MultiportNetwork.Client.GetBatch

/-!
# MultiportNetwork.Client.SendBatches

The threads of the GET clients that send batches: `data_dispatch` of `get_batch` and
`send_thread` of `double_buf_get`, with their `fetch_and_send`. The database is cut into as
many slices of equal length as there are threads. In every round a thread goes round the
ports and calls `fetch_and_send` for the next batch of its slice, or for the rest of the one
before, until `finish_send` and `thread_working_offset` say it is through.

`finish_send` is `false` at the start of a round as it is after half a batch, so a thread
calls `fetch_and_send` for every port at least once. Where the slices are empty, that batch
is not its own, and every thread sends it (`slices_sent_iff`).
-/

namespace MultiportNetwork.GetBatch

/-! ### The threads -/

/-- `BLOCK`, and whether `fetch_and_send` reads when it has written. -/
structure Variant where
  block : Bool
  receives : Bool
  deriving Repr, DecidableEq

/-- `data_dispatch` of `get_batch`. -/
def Variant.dataDispatch : Variant := ⟨true, true⟩

/-- `send_thread` of `double_buf_get`; what it receives is another thread's business. -/
def Variant.sendThread : Variant := ⟨false, false⟩

/-- What the threads work on: `thread_num`, `port_num`, `ROUND_SET` and the `database`, whose
objects are ready to be sent. -/
structure Workload where
  threadNum : Nat
  portNum : Nat
  roundSet : Nat
  database : Nat → List BatchObj
  ready : ∀ i < portNum, ∀ obj ∈ database i, obj.offset = 0 ∧ 0 < obj.datalen

/-- `thread_work_len`. -/
def Workload.threadWorkLen (L : Workload) (i : Nat) : Nat := (L.database i).length / L.threadNum

/-- What a thread does that can be seen. -/
inductive SendEvent
  /-- `fetch_and_send` is called for a port, with the index of a batch. -/
  | fetch (i index : Nat)
  /-- The bytes the connection to a port has taken, with the round. -/
  | write (k i : Nat) (bytes : Bytes)
  /-- The process ends. -/
  | exit
  deriving Repr, DecidableEq

/-- Where a thread is in `fetch_and_send`. -/
inductive FetchPlace
  /-- Before the `write`. -/
  | write
  /-- Behind it, with what it has returned. -/
  | wrote (ret : Nat)
  /-- Before the `read`. -/
  | read
  deriving Repr, DecidableEq

/-- Where a thread is. -/
inductive SendPlace
  /-- At the loop over the rounds. -/
  | round
  /-- At `while(stop_count != port_num)`. -/
  | looping
  /-- At the loop over the ports. -/
  | port (i : Nat)
  /-- In `fetch_and_send` for a port. -/
  | fetching (i : Nat) (place : FetchPlace)
  /-- Behind all loops. -/
  | finished
  deriving Repr, DecidableEq

/-- The locals of a thread, with its entries of `total_send_bytes` and `total_recv_bytes`. -/
structure Sender where
  threadWorkingList : Nat → Nat
  threadWorkingOffset : Nat → Nat
  finishSend : Nat → Bool
  k : Nat
  stopCount : Nat
  totalSendBytes : Nat
  totalRecvBytes : Nat
  place : SendPlace

/-- What the threads share: the `offset` fields of the objects in `database`, of which nothing
else changes, and whether the process has called `exit`. -/
structure Outgoing where
  offset : Nat → Nat → Nat
  exited : Bool

/-- Set `database[i][index].offset`. -/
def Outgoing.setOffset (m : Outgoing) (i index offset : Nat) : Outgoing :=
  { m with offset := Function.update m.offset i (Function.update (m.offset i) index offset) }

/-- The `working_index` a thread calls `fetch_and_send` with. -/
def Sender.workingIndex (d : Sender) (i : Nat) : Nat :=
  d.threadWorkingList i + d.threadWorkingOffset i

/-- Set `*send_finish`. -/
def Sender.setFinish (d : Sender) (i : Nat) (finish : Bool) : Sender :=
  { d with finishSend := Function.update d.finishSend i finish }

/-- `fetch_and_send` returns `*send_finish`, and its caller counts the batch. -/
def Sender.returned (d : Sender) (i : Nat) : Sender :=
  if d.finishSend i then
    { d with
      threadWorkingOffset :=
        Function.update d.threadWorkingOffset i (d.threadWorkingOffset i + 1)
      place := .port (i + 1) }
  else { d with place := .port (i + 1) }

/-- What follows the `write`. -/
def Sender.afterWrite (V : Variant) (d : Sender) (i : Nat) : Sender :=
  if V.receives then { d with place := .fetching i .read } else d.returned i

/-- `fetch_and_send`, given what the system call at hand returns. Beyond the end of
`database[i]` there is no object, and no step. -/
def Workload.fetchAndSend (L : Workload) (V : Variant) (d : Sender) (m : Outgoing) (r : SysRet)
    (i : Nat) (place : FetchPlace) : Option (List SendEvent × Sender × Outgoing) :=
  let index := d.workingIndex i
  match (L.database i)[index]? with
  | none => none
  | some batchObj =>
    let offset := m.offset i index
    match place with
    | .write =>
      if r.ret ≤ 0 then
        if V.block = false ∧ r.wouldBlock = true then
          some ([], (d.setFinish i false).returned i, m)
        else some ([.exit], d, { m with exited := true })
      else
        some ([.write d.k i (batchObj.buf.load offset r.ret.toNat)],
          { d with place := .fetching i (.wrote r.ret.toNat) }, m)
    | .wrote ret =>
      if ret < batchObj.datalen - offset then
        some ([], (d.setFinish i false).afterWrite V i, m.setOffset i index (offset + ret))
      else
        let d := { d with totalSendBytes := d.totalSendBytes + batchObj.datalen }
        some ([], (d.setFinish i true).afterWrite V i, m.setOffset i index 0)
    | .read =>
      if r.ret = -1 then
        if V.block = false ∧ r.wouldBlock = true then some ([], d.returned i, m)
        else some ([.exit], d, { m with exited := true })
      else
        let d := { d with totalRecvBytes := d.totalRecvBytes + r.ret.toNat }
        some ([], d.returned i, m)

/-- The loops of `data_dispatch` and `send_thread`, step by step. -/
def Workload.sendRounds (L : Workload) (V : Variant) (d : Sender) (m : Outgoing) (r : SysRet) :
    Option (List SendEvent × Sender × Outgoing) :=
  match d.place with
  | .round =>
    if d.k < L.roundSet then
      some ([],
        { d with
          stopCount := 0
          threadWorkingOffset := fun _ => 0
          finishSend := fun _ => false
          place := .looping }, m)
    else some ([], { d with place := .finished }, m)
  | .looping =>
    if d.stopCount ≠ L.portNum then some ([], { d with stopCount := 0, place := .port 0 }, m)
    else some ([], { d with k := d.k + 1, place := .round }, m)
  | .port i =>
    if i < L.portNum then
      if d.finishSend i = true ∧ L.threadWorkLen i ≤ d.threadWorkingOffset i then
        some ([], { d with stopCount := d.stopCount + 1, place := .port (i + 1) }, m)
      else some ([.fetch i (d.workingIndex i)], { d with place := .fetching i .write }, m)
    else some ([], { d with place := .looping }, m)
  | .fetching i place => L.fetchAndSend V d m r i place
  | .finished => none

/-- The size of `rec_buf`. -/
def recBufLen : Nat := 4000

/-- What the system call at hand may return. -/
def Workload.Answers (L : Workload) (d : Sender) (m : Outgoing) (r : SysRet) : Prop :=
  match d.place with
  | .fetching i .write => ∀ batchObj ∈ (L.database i)[d.workingIndex i]?,
      (Syscall.write (batchObj.datalen - m.offset i (d.workingIndex i))).Returns [] r
  | .fetching _ .read => -1 ≤ r.ret ∧ r.ret ≤ recBufLen
  | _ => True

/-- A thread makes a step. -/
def Workload.Act (L : Workload) (V : Variant) (d : Sender) (m : Outgoing) (ev : List SendEvent)
    (d' : Sender) (m' : Outgoing) : Prop :=
  m.exited = false ∧ ∃ r, L.Answers d m r ∧ L.sendRounds V d m r = some (ev, d', m')

/-- All threads. -/
abbrev Sending (T : Nat) := Interleaved (Fin T) Sender Outgoing

/-- The threads once their connections are established. -/
def Workload.start (L : Workload) : Sending L.threadNum where
  parts tid :=
    { threadWorkingList := fun i => tid * L.threadWorkLen i
      threadWorkingOffset := fun _ => 0
      finishSend := fun _ => true
      k := 0
      stopCount := 0
      totalSendBytes := 0
      totalRecvBytes := 0
      place := .round }
  shared :=
    { offset := fun i index => ((L.database i)[index]?.map BatchObj.offset).getD 0
      exited := false }

variable {L : Workload} {V : Variant} {d d' q : Sender} {m m' : Outgoing}
  {ev tr : List SendEvent} {tid i j k index : Nat}

/-! ### What a step can do -/

/-- The steps of a thread, with their guards. -/
inductive Workload.Moves (L : Workload) (V : Variant) :
    Sender → Outgoing → List SendEvent → Sender → Outgoing → Prop
  | start {d : Sender} {m : Outgoing} (hp : d.place = .round) (hk : d.k < L.roundSet) :
      Moves L V d m []
        { d with
          stopCount := 0
          threadWorkingOffset := fun _ => 0
          finishSend := fun _ => false
          place := .looping } m
  | finish {d : Sender} {m : Outgoing} (hp : d.place = .round) (hk : L.roundSet ≤ d.k) :
      Moves L V d m [] { d with place := .finished } m
  | pass {d : Sender} {m : Outgoing} (hp : d.place = .looping) :
      Moves L V d m [] { d with stopCount := 0, place := .port 0 } m
  | endRound {d : Sender} {m : Outgoing} (hp : d.place = .looping)
      (hs : d.stopCount = L.portNum) :
      Moves L V d m [] { d with k := d.k + 1, place := .round } m
  | stopped {d : Sender} {m : Outgoing} {i : Nat} (hp : d.place = .port i) (hi : i < L.portNum)
      (hf : d.finishSend i = true) (hlen : L.threadWorkLen i ≤ d.threadWorkingOffset i) :
      Moves L V d m [] { d with stopCount := d.stopCount + 1, place := .port (i + 1) } m
  | fetch {d : Sender} {m : Outgoing} {i : Nat} (hp : d.place = .port i) (hi : i < L.portNum)
      (hmore : d.finishSend i = false ∨ d.threadWorkingOffset i < L.threadWorkLen i) :
      Moves L V d m [.fetch i (d.workingIndex i)] { d with place := .fetching i .write } m
  | passed {d : Sender} {m : Outgoing} {i : Nat} (hp : d.place = .port i) (hi : L.portNum ≤ i) :
      Moves L V d m [] { d with place := .looping } m
  | blocked {d : Sender} {m : Outgoing} {i : Nat} (hp : d.place = .fetching i .write) :
      Moves L V d m [] ((d.setFinish i false).returned i) m
  | failed {d : Sender} {m : Outgoing} {i : Nat} {place : FetchPlace}
      (hp : d.place = .fetching i place) : Moves L V d m [.exit] d { m with exited := true }
  | write {d : Sender} {m : Outgoing} {i n : Nat} {obj : BatchObj}
      (hp : d.place = .fetching i .write)
      (hobj : (L.database i)[d.workingIndex i]? = some obj)
      (hle : m.offset i (d.workingIndex i) + n ≤ obj.datalen) :
      Moves L V d m [.write d.k i (obj.buf.load (m.offset i (d.workingIndex i)) n)]
        { d with place := .fetching i (.wrote n) } m
  | short {d : Sender} {m : Outgoing} {i n : Nat} (hp : d.place = .fetching i (.wrote n)) :
      Moves L V d m [] ((d.setFinish i false).afterWrite V i)
        (m.setOffset i (d.workingIndex i) (m.offset i (d.workingIndex i) + n))
  | whole {d : Sender} {m : Outgoing} {i n : Nat} {obj : BatchObj}
      (hp : d.place = .fetching i (.wrote n))
      (hobj : (L.database i)[d.workingIndex i]? = some obj)
      (hge : obj.datalen ≤ m.offset i (d.workingIndex i) + n) :
      Moves L V d m []
        (({ d with totalSendBytes := d.totalSendBytes + obj.datalen }.setFinish i true).afterWrite
          V i)
        (m.setOffset i (d.workingIndex i) 0)
  | read {d : Sender} {m : Outgoing} {i n : Nat} (hp : d.place = .fetching i .read) :
      Moves L V d m [] ({ d with totalRecvBytes := d.totalRecvBytes + n }.returned i) m

/-- `fetch_and_send` makes one of these steps. -/
theorem Workload.fetchAndSend_moves {r : SysRet} {place : FetchPlace}
    (hp : d.place = .fetching i place) (hr : L.Answers d m r)
    (h : L.fetchAndSend V d m r i place = some (ev, d', m')) : L.Moves V d m ev d' m' := by
  unfold Workload.fetchAndSend at h
  dsimp only at h
  split at h
  · cases h
  next obj hobj =>
    cases place with
    | write =>
        dsimp only at h
        split at h
        next hneg =>
          split at h
          next hb =>
            cases h
            exact .blocked hp
          next hb =>
            cases h
            exact .failed hp
        next hpos =>
          cases h
          simp only [Workload.Answers, hp] at hr
          have hret := hr obj hobj
          refine .write hp hobj ?_
          rcases hret with hneg | ⟨-, hle, -⟩ <;> omega
    | wrote ret =>
        dsimp only at h
        split at h
        next hlt =>
          cases h
          exact .short hp
        next hge =>
          cases h
          exact .whole hp hobj (by omega)
    | read =>
        dsimp only at h
        split at h
        next hneg =>
          split at h
          next hb =>
            cases h
            exact .read (n := 0) hp
          next hb =>
            cases h
            exact .failed hp
        next hpos =>
          cases h
          exact .read hp

/-- **A step is one of these.** -/
theorem Workload.Act.moves (h : L.Act V d m ev d' m') : L.Moves V d m ev d' m' := by
  obtain ⟨-, r, hr, h⟩ := h
  unfold Workload.sendRounds at h
  split at h
  next hp =>
    split at h
    next hk =>
      cases h
      exact .start hp hk
    next hk =>
      cases h
      exact .finish hp (Nat.le_of_not_lt hk)
  next hp =>
    split at h
    next hs =>
      cases h
      exact .pass hp
    next hs =>
      cases h
      exact .endRound hp (not_not.mp hs)
  next i hp =>
    split at h
    next hi =>
      split at h
      next hstop =>
        cases h
        exact .stopped hp hi hstop.1 hstop.2
      next hmore =>
        cases h
        refine .fetch hp hi ?_
        rw [not_and_or, Bool.not_eq_true, Nat.not_le] at hmore
        exact hmore
    next hi =>
      cases h
      exact .passed hp (Nat.le_of_not_lt hi)
  next i place hp => exact Workload.fetchAndSend_moves hp hr h
  next => cases h

/-! ### Slices -/

/-- The bytes of a batch. -/
def BatchObj.content (obj : BatchObj) : Bytes := obj.buf.load 0 obj.datalen

/-- The indices of the slice of thread `tid`. -/
def Workload.InSlice (L : Workload) (tid i index : Nat) : Prop :=
  tid * L.threadWorkLen i ≤ index ∧ index < tid * L.threadWorkLen i + L.threadWorkLen i

/-- The batches of the slice. -/
def Workload.slice (L : Workload) (tid i : Nat) : List Bytes :=
  (((L.database i).drop (tid * L.threadWorkLen i)).take (L.threadWorkLen i)).map BatchObj.content

theorem Workload.slice_le (htid : tid < L.threadNum) (i : Nat) :
    tid * L.threadWorkLen i + L.threadWorkLen i ≤ (L.database i).length :=
  calc tid * L.threadWorkLen i + L.threadWorkLen i
      = (tid + 1) * L.threadWorkLen i := by rw [Nat.add_mul, Nat.one_mul]
    _ ≤ L.threadNum * L.threadWorkLen i := Nat.mul_le_mul_right _ htid
    _ ≤ (L.database i).length := Nat.mul_div_le _ _

/-- A slice is within the database. -/
theorem Workload.InSlice.lt_length (htid : tid < L.threadNum) (h : L.InSlice tid i index) :
    index < (L.database i).length :=
  Nat.lt_of_lt_of_le h.2 (L.slice_le htid i)

/-- Slices of two threads have no index in common. -/
theorem Workload.InSlice.unique {tid' : Nat} (h : L.InSlice tid i index)
    (h' : L.InSlice tid' i index) : tid = tid' := by
  have hdiv : ∀ {t}, L.InSlice t i index → index / L.threadWorkLen i = t := by
    rintro t ⟨hle, hlt⟩
    refine Nat.div_eq_of_lt_le hle ?_
    rwa [Nat.add_mul, Nat.one_mul]
  exact (hdiv h).symm.trans (hdiv h')

theorem Workload.length_slice (htid : tid < L.threadNum) (i : Nat) :
    (L.slice tid i).length = L.threadWorkLen i := by
  have hle := L.slice_le htid i
  rw [Workload.slice, List.length_map, List.length_take, List.length_drop]
  omega

/-- The batches of a slice are those of the database. -/
theorem Workload.getElem?_slice {count : Nat} {obj : BatchObj} (hlt : count < L.threadWorkLen i)
    (hobj : (L.database i)[tid * L.threadWorkLen i + count]? = some obj) :
    (L.slice tid i)[count]? = some obj.content := by
  rw [Workload.slice, List.getElem?_map, List.getElem?_take_of_lt hlt, List.getElem?_drop, hobj]
  rfl

/-! ### One port in one round -/

/-- The bytes an event writes to port `i` in round `k`. -/
def SendEvent.written (k i : Nat) : SendEvent → Bytes
  | .write k' i' bytes => if k' = k ∧ i' = i then bytes else []
  | _ => []

/-- The bytes written to port `i` in round `k`. -/
def written (k i : Nat) (tr : List SendEvent) : Bytes := tr.flatMap (SendEvent.written k i)

@[simp] theorem written_append (k i : Nat) (a b : List SendEvent) :
    written k i (a ++ b) = written k i a ++ written k i b := by
  simp [written]

/-- A thread has written `bytes` to port `i` in the round at hand: the first `count` batches
of its slice, and of the next one what its object's offset says and `extra` bytes that are
not in the offset yet. -/
structure PortAt (L : Workload) (tid i : Nat) (bytes : Bytes) (offset : Nat → Nat)
    (count extra : Nat) : Prop where
  count_le : count ≤ L.threadWorkLen i
  sent : bytes =
    Cursor.sent (L.slice tid i) count (offset (tid * L.threadWorkLen i + count) + extra)
  fresh : ∀ index, L.InSlice tid i index → index ≠ tid * L.threadWorkLen i + count →
    offset index = 0

section
variable {bytes : Bytes} {offset offset' : Nat → Nat} {count extra n : Nat} {obj : BatchObj}

/-- Nothing has been written. -/
theorem PortAt.start (hzero : ∀ index, L.InSlice tid i index → offset index = 0)
    (hpos : 0 < L.threadWorkLen i) : PortAt L tid i [] offset 0 0 := by
  refine ⟨Nat.zero_le _, ?_, fun index hin _ => hzero index hin⟩
  rw [hzero _ ⟨by omega, by omega⟩]
  exact (Cursor.sent_zero _).symm

/-- More of the batch at hand. -/
theorem PortAt.write (h : PortAt L tid i bytes offset count 0) (hlt : count < L.threadWorkLen i)
    (hobj : (L.database i)[tid * L.threadWorkLen i + count]? = some obj)
    (hle : offset (tid * L.threadWorkLen i + count) + n ≤ obj.datalen) :
    PortAt L tid i (bytes ++ obj.buf.load (offset (tid * L.threadWorkLen i + count)) n) offset
      count n := by
  refine ⟨h.count_le, ?_, h.fresh⟩
  have hpiece : (obj.content.drop (offset (tid * L.threadWorkLen i + count))).take n =
      obj.buf.load (offset (tid * L.threadWorkLen i + count)) n := by
    rw [BatchObj.content, Memory.drop_load, Nat.zero_add, Memory.take_load _ _ _ _ (by omega)]
  rw [Cursor.sent_add (L.getElem?_slice hlt hobj), hpiece, h.sent, Nat.add_zero]

/-- The offset catches up. -/
theorem PortAt.short (h : PortAt L tid i bytes offset count n) :
    PortAt L tid i bytes
      (Function.update offset (tid * L.threadWorkLen i + count)
        (offset (tid * L.threadWorkLen i + count) + n)) count 0 := by
  refine ⟨h.count_le, ?_, fun index hin hne => ?_⟩
  · rw [Function.update_self, Nat.add_zero]
    exact h.sent
  · rw [Function.update_of_ne hne]
    exact h.fresh index hin hne

/-- The batch at hand is complete. -/
theorem PortAt.whole (htid : tid < L.threadNum) (h : PortAt L tid i bytes offset count n)
    (hlt : count < L.threadWorkLen i)
    (hobj : (L.database i)[tid * L.threadWorkLen i + count]? = some obj)
    (hge : obj.datalen ≤ offset (tid * L.threadWorkLen i + count) + n) :
    PortAt L tid i bytes (Function.update offset (tid * L.threadWorkLen i + count) 0)
      (count + 1) 0 := by
  have hfresh : ∀ index, L.InSlice tid i index →
      Function.update offset (tid * L.threadWorkLen i + count) 0 index = 0 := by
    intro index hin
    by_cases heq : index = tid * L.threadWorkLen i + count
    · rw [heq, Function.update_self]
    · rw [Function.update_of_ne heq]
      exact h.fresh index hin heq
  refine ⟨hlt, ?_, fun index hin _ => hfresh index hin⟩
  have hlen : obj.content.length ≤ offset (tid * L.threadWorkLen i + count) + n := by
    rwa [BatchObj.content, Memory.length_load]
  rw [h.sent, Cursor.sent_full (L.getElem?_slice hlt hobj) hlen]
  refine Cursor.sent_congr fun hmore => ?_
  rw [L.length_slice htid] at hmore
  rw [hfresh _ ⟨by omega, by omega⟩]

/-- All batches are out. -/
theorem PortAt.done (htid : tid < L.threadNum) (h : PortAt L tid i bytes offset count extra)
    (hall : L.threadWorkLen i ≤ count) :
    bytes = (L.slice tid i).flatten ∧ ∀ index, L.InSlice tid i index → offset index = 0 := by
  refine ⟨?_, fun index hin => h.fresh index hin ?_⟩
  · rw [h.sent, Cursor.sent_all (by rwa [L.length_slice htid])]
  · have hlt := hin.2
    omega

/-- Only the offsets in the slice matter. -/
theorem PortAt.frame (htid : tid < L.threadNum) (h : PortAt L tid i bytes offset count extra)
    (hsame : ∀ index, L.InSlice tid i index → offset' index = offset index) :
    PortAt L tid i bytes offset' count extra := by
  refine ⟨h.count_le, ?_, fun index hin hne => (hsame index hin).trans (h.fresh index hin hne)⟩
  rw [h.sent]
  refine Cursor.sent_congr fun hlt => ?_
  rw [L.length_slice htid] at hlt
  rw [hsame _ ⟨by omega, by omega⟩]

end

/-! ### One thread -/

/-- The batches of a port that are complete, also where `thread_working_offset` does not count
the last one yet. -/
def Sender.count (d : Sender) (i : Nat) : Nat :=
  if d.place = .fetching i .read ∧ d.finishSend i = true then d.threadWorkingOffset i + 1
  else d.threadWorkingOffset i

/-- The bytes that have been written and are not in the offset yet. -/
def Sender.extra (d : Sender) (i : Nat) : Nat :=
  match d.place with
  | .fetching j (.wrote n) => if j = i then n else 0
  | _ => 0

/-- The thread is not in a round. -/
def Sender.Between (d : Sender) : Prop := d.place = .round ∨ d.place = .finished

/-- The thread is through with a port. -/
def Sender.Through (L : Workload) (d : Sender) (i : Nat) : Prop :=
  d.finishSend i = true ∧ L.threadWorkLen i ≤ d.threadWorkingOffset i

/-- `stop_count` counts ports the thread is through with, and is only as large as the number
of ports it has been at if it is through with all of them. -/
def Sender.Stops (L : Workload) (d : Sender) : Prop :=
  match d.place with
  | .looping => d.stopCount = L.portNum → ∀ j < L.portNum, d.Through L j
  | .port i => i ≤ L.portNum ∧ d.stopCount ≤ i ∧ (d.stopCount = i → ∀ j < i, d.Through L j)
  | .fetching i _ => i < L.portNum ∧ d.stopCount ≤ i
  | _ => True

/-- What a thread that has done `tr` knows of itself and the offsets in its slice. -/
structure Sender.Ok (L : Workload) (tid : Nat) (tr : List SendEvent) (d : Sender)
    (m : Outgoing) : Prop where
  list : ∀ i, d.threadWorkingList i = tid * L.threadWorkLen i
  fetches : ∀ i index, .fetch i index ∈ tr → i < L.portNum ∧ L.InSlice tid i index
  /-- Where it is among the rounds. -/
  rounds : d.k ≤ L.roundSet ∧ (¬ d.Between → d.k < L.roundSet) ∧
    (d.place = .finished → d.k = L.roundSet)
  past : ∀ k < d.k, ∀ i < L.portNum, written k i tr = (L.slice tid i).flatten
  future : ∀ k, d.k < k → ∀ i, written k i tr = []
  between : d.Between → ∀ i < L.portNum, written d.k i tr = [] ∧
    ∀ index, L.InSlice tid i index → m.offset i index = 0
  ports : ¬ d.Between → ∀ i < L.portNum,
    PortAt L tid i (written d.k i tr) (m.offset i) (d.count i) (d.extra i)
  /-- A batch that is not complete is in the slice. -/
  unfinished : ¬ d.Between → ∀ i < L.portNum, d.finishSend i = false →
    d.threadWorkingOffset i < L.threadWorkLen i
  busy : ∀ i place, d.place = .fetching i place → d.threadWorkingOffset i < L.threadWorkLen i
  stops : d.Stops L

theorem Sender.Stops.looping (h : d.Stops L) (hp : d.place = .looping) :
    d.stopCount = L.portNum → ∀ j < L.portNum, d.Through L j := by
  simpa only [Sender.Stops, hp] using h

theorem Sender.Stops.port (h : d.Stops L) (hp : d.place = .port i) :
    i ≤ L.portNum ∧ d.stopCount ≤ i ∧ (d.stopCount = i → ∀ j < i, d.Through L j) := by
  simpa only [Sender.Stops, hp] using h

theorem Sender.Stops.fetching {place : FetchPlace} (h : d.Stops L)
    (hp : d.place = .fetching i place) : i < L.portNum ∧ d.stopCount ≤ i := by
  simpa only [Sender.Stops, hp] using h

section
variable (V) (d) (i)

@[simp] theorem Sender.returned_list :
    (d.returned i).threadWorkingList = d.threadWorkingList := by
  unfold Sender.returned; split <;> rfl
@[simp] theorem Sender.returned_finishSend : (d.returned i).finishSend = d.finishSend := by
  unfold Sender.returned; split <;> rfl
@[simp] theorem Sender.returned_k : (d.returned i).k = d.k := by
  unfold Sender.returned; split <;> rfl
@[simp] theorem Sender.returned_stopCount : (d.returned i).stopCount = d.stopCount := by
  unfold Sender.returned; split <;> rfl
@[simp] theorem Sender.returned_place : (d.returned i).place = .port (i + 1) := by
  unfold Sender.returned; split <;> rfl

theorem Sender.returned_offset :
    (d.returned i).threadWorkingOffset =
      if d.finishSend i then
        Function.update d.threadWorkingOffset i (d.threadWorkingOffset i + 1)
      else d.threadWorkingOffset := by
  unfold Sender.returned; split <;> rfl

@[simp] theorem Sender.afterWrite_list :
    (d.afterWrite V i).threadWorkingList = d.threadWorkingList := by
  unfold Sender.afterWrite; split <;> simp
@[simp] theorem Sender.afterWrite_finishSend :
    (d.afterWrite V i).finishSend = d.finishSend := by
  unfold Sender.afterWrite; split <;> simp
@[simp] theorem Sender.afterWrite_k : (d.afterWrite V i).k = d.k := by
  unfold Sender.afterWrite; split <;> simp

end

/-- A thread is in a round as long as it is at a port or in `fetch_and_send`. -/
theorem Sender.not_between_returned (d : Sender) (i : Nat) : ¬ (d.returned i).Between := by
  simp [Sender.Between]

theorem Sender.not_between_afterWrite (V : Variant) (d : Sender) (i : Nat) :
    ¬ (d.afterWrite V i).Between := by
  unfold Sender.afterWrite
  split
  · simp [Sender.Between]
  · exact d.not_between_returned i

/-- What is counted when `fetch_and_send` returns. -/
theorem Sender.count_returned (d : Sender) (i j : Nat) :
    (d.returned i).count j =
      if j = i ∧ d.finishSend i = true then d.threadWorkingOffset i + 1
      else d.threadWorkingOffset j := by
  rw [Sender.count, if_neg (by simp), Sender.returned_offset]
  by_cases hf : d.finishSend i = true
  · by_cases hj : j = i
    · subst hj
      simp [hf]
    · simp [hf, hj]
  · simp [hf]

/-- It is counted behind the `write`, with or without a `read` in between. -/
theorem Sender.count_afterWrite (V : Variant) (d : Sender) (i j : Nat) :
    (d.afterWrite V i).count j =
      if j = i ∧ d.finishSend i = true then d.threadWorkingOffset i + 1
      else d.threadWorkingOffset j := by
  unfold Sender.afterWrite
  split
  · by_cases hj : j = i
    · subst hj
      simp [Sender.count]
    · simp [Sender.count, hj, Ne.symm hj]
  · exact d.count_returned i j

theorem Sender.extra_afterWrite (V : Variant) (d : Sender) (i j : Nat) :
    (d.afterWrite V i).extra j = 0 := by
  unfold Sender.afterWrite
  split <;> simp [Sender.extra]

/-- A port that is not finished keeps its offset. -/
theorem Sender.offset_returned (hf : d.finishSend j = false) :
    (d.returned i).threadWorkingOffset j = d.threadWorkingOffset j := by
  rw [Sender.returned_offset]
  split
  next hi =>
    have hne : j ≠ i := fun heq => by simp [heq, hi] at hf
    exact Function.update_of_ne hne _ _
  next => rfl

theorem Sender.offset_afterWrite (hf : d.finishSend j = false) :
    (d.afterWrite V i).threadWorkingOffset j = d.threadWorkingOffset j := by
  unfold Sender.afterWrite
  split
  · rfl
  · exact Sender.offset_returned hf

/-- A port at which the thread has called `fetch_and_send` is not counted. -/
theorem Sender.stops_returned (hi : i < L.portNum) (hs : d.stopCount ≤ i) :
    (d.returned i).Stops L := by
  simp only [Sender.Stops, Sender.returned_place, Sender.returned_stopCount]
  exact ⟨hi, by omega, fun heq => absurd heq (by omega)⟩

theorem Sender.stops_afterWrite (hi : i < L.portNum) (hs : d.stopCount ≤ i) :
    (d.afterWrite V i).Stops L := by
  unfold Sender.afterWrite
  split
  · exact ⟨hi, hs⟩
  · exact Sender.stops_returned hi hs

/-- A step within a round. -/
theorem Sender.Ok.advance (h : d.Ok L tid tr m) (hin : ¬ d.Between) (hin' : ¬ d'.Between)
    (hlist : d'.threadWorkingList = d.threadWorkingList) (hk : d'.k = d.k)
    (hev : ∀ k, k ≠ d.k → ∀ i, written k i ev = [])
    (hfetch : ∀ i index, .fetch i index ∈ ev → i < L.portNum ∧ L.InSlice tid i index)
    (hports : ∀ i < L.portNum,
      PortAt L tid i (written d.k i tr ++ written d.k i ev) (m'.offset i) (d'.count i) (d'.extra i))
    (hunfinished : ∀ i < L.portNum, d'.finishSend i = false →
      d'.threadWorkingOffset i < L.threadWorkLen i)
    (hbusy : ∀ i place, d'.place = .fetching i place →
      d'.threadWorkingOffset i < L.threadWorkLen i)
    (hstops : d'.Stops L) : d'.Ok L tid (tr ++ ev) m' := by
  refine ⟨hlist ▸ h.list, ?_, ?_, ?_, ?_, fun hb => absurd hb hin', ?_, fun _ => hunfinished,
    hbusy, hstops⟩
  · intro i index hmem
    rcases List.mem_append.mp hmem with hmem | hmem
    · exact h.fetches i index hmem
    · exact hfetch i index hmem
  · rw [hk]
    exact ⟨h.rounds.1, fun _ => h.rounds.2.1 hin, fun hp => absurd (.inr hp) hin'⟩
  · intro k hlt i hi
    rw [hk] at hlt
    rw [written_append, h.past k hlt i hi, hev k (Nat.ne_of_lt hlt), List.append_nil]
  · intro k hlt i
    rw [hk] at hlt
    rw [written_append, h.future k hlt i, hev k (Nat.ne_of_gt hlt), List.append_nil]
  · intro _ i hi
    rw [hk, written_append]
    exact hports i hi

/-- A step within a round that writes nothing and completes nothing. -/
theorem Sender.Ok.quiet (h : d.Ok L tid tr m) (hin : ¬ d.Between) (hin' : ¬ d'.Between)
    (hlist : d'.threadWorkingList = d.threadWorkingList) (hk : d'.k = d.k)
    (hcount : ∀ i, d'.count i = d.count i) (hextra : ∀ i, d'.extra i = d.extra i)
    (hunfinished : ∀ i < L.portNum, d'.finishSend i = false →
      d'.threadWorkingOffset i < L.threadWorkLen i)
    (hbusy : ∀ i place, d'.place = .fetching i place →
      d'.threadWorkingOffset i < L.threadWorkLen i)
    (hstops : d'.Stops L) (hev : ∀ k i, written k i ev = [])
    (hfetch : ∀ i index, .fetch i index ∈ ev → i < L.portNum ∧ L.InSlice tid i index) :
    d'.Ok L tid (tr ++ ev) m := by
  refine h.advance hin hin' hlist hk (fun k _ i => hev k i) hfetch (fun i hi => ?_) hunfinished
    hbusy hstops
  rw [hev, List.append_nil, hcount, hextra]
  exact h.ports hin i hi

/-- What a thread knows is not touched by what happens outside its slice. -/
theorem Sender.Ok.frame (h : d.Ok L tid tr m) (htid : tid < L.threadNum)
    (hsame : ∀ i index, L.InSlice tid i index → m'.offset i index = m.offset i index) :
    d.Ok L tid tr m' where
  list := h.list
  fetches := h.fetches
  rounds := h.rounds
  past := h.past
  future := h.future
  between hb i hi :=
    ⟨(h.between hb i hi).1, fun index hin =>
      (hsame i index hin).trans ((h.between hb i hi).2 index hin)⟩
  ports hb i hi := (h.ports hb i hi).frame htid (hsame i)
  unfinished := h.unfinished
  busy := h.busy
  stops := h.stops

/-- The batch `fetch_and_send` is called with. -/
theorem Sender.Ok.workingIndex (h : d.Ok L tid tr m) (i : Nat) :
    d.workingIndex i = tid * L.threadWorkLen i + d.threadWorkingOffset i := by
  rw [Sender.workingIndex, h.list]

/-- A thread changes offsets in its slice only. -/
theorem Sender.Ok.guarantee (h : d.Ok L tid tr m) (hm : L.Moves V d m ev d' m')
    (hout : ¬ L.InSlice tid i index) : m'.offset i index = m.offset i index := by
  have hset : ∀ {j place offset}, d.place = .fetching j place →
      (m.setOffset j (d.workingIndex j) offset).offset i index = m.offset i index := by
    intro j place offset hp
    have hbusy := h.busy j place hp
    by_cases hij : i = j
    · subst hij
      have hne : index ≠ d.workingIndex i := by
        rintro rfl
        rw [h.workingIndex] at hout
        exact hout ⟨by omega, by omega⟩
      simp [Outgoing.setOffset, hne]
    · simp [Outgoing.setOffset, hij]
  cases hm with
  | short hp | whole hp => exact hset hp
  | _ => rfl

/-- The totals do not matter. -/
theorem Sender.Ok.totals (h : d.Ok L tid tr m) (sendBytes recvBytes : Nat) :
    { d with totalSendBytes := sendBytes, totalRecvBytes := recvBytes }.Ok L tid tr m :=
  ⟨h.list, h.fetches, h.rounds, h.past, h.future, h.between, h.ports, h.unfinished, h.busy,
    h.stops⟩

/-- `fetch_and_send` returns without anything having changed but the flag. -/
theorem Sender.Ok.returned {place : FetchPlace} (h : d.Ok L tid tr m)
    (hp : d.place = .fetching i place) (hcount : ∀ j, (d.returned i).count j = d.count j)
    (hextra : ∀ j, d.extra j = 0) : (d.returned i).Ok L tid (tr ++ []) m := by
  have hin : ¬ d.Between := by simp [Sender.Between, hp]
  obtain ⟨hi, hstop⟩ := h.stops.fetching hp
  refine h.quiet hin (d.not_between_returned i) (by simp) (by simp) hcount (fun j => ?_)
    (fun j hj hf => ?_) (by simp) (Sender.stops_returned hi hstop) (fun _ _ => rfl)
    (by simp)
  · rw [hextra]
    simp [Sender.extra]
  · rw [Sender.returned_finishSend] at hf
    rw [Sender.offset_returned hf]
    exact h.unfinished hin j hj hf

/-- A socket that takes nothing: the batch at hand is not finished. -/
theorem Sender.Ok.setFinish (h : d.Ok L tid tr m) (hp : d.place = .fetching i .write) :
    (d.setFinish i false).Ok L tid tr m := by
  have hcount : ∀ j, (d.setFinish i false).count j = d.count j := fun j => by
    simp [Sender.count, Sender.setFinish, hp]
  have hplace : (d.setFinish i false).place = d.place := rfl
  refine ⟨h.list, h.fetches, h.rounds, h.past, h.future, h.between, fun hin j hj => ?_,
    fun hin j hj hf => ?_, h.busy, ?_⟩
  · rw [hcount]
    exact h.ports hin j hj
  · by_cases hji : j = i
    · subst hji
      exact h.busy j _ hp
    · refine h.unfinished hin j hj ?_
      simpa [Sender.setFinish, hji] using hf
  · have hstops := h.stops
    simp only [Sender.Stops, hplace, hp] at hstops ⊢
    exact hstops

/-- The `write`. -/
theorem Sender.Ok.write {n : Nat} {obj : BatchObj} (h : d.Ok L tid tr m)
    (hp : d.place = .fetching i .write) (hobj : (L.database i)[d.workingIndex i]? = some obj)
    (hle : m.offset i (d.workingIndex i) + n ≤ obj.datalen) :
    { d with place := .fetching i (.wrote n) }.Ok L tid
      (tr ++ [SendEvent.write d.k i (obj.buf.load (m.offset i (d.workingIndex i)) n)]) m := by
  have hin : ¬ d.Between := by simp [Sender.Between, hp]
  have hbusy := h.busy i _ hp
  have hcount : ∀ j, d.count j = d.threadWorkingOffset j := fun j => by
    simp [Sender.count, hp]
  have hzero : ∀ j, d.extra j = 0 := fun j => by simp [Sender.extra, hp]
  refine h.advance hin (by simp [Sender.Between]) rfl rfl ?_ (by simp) (fun j hj => ?_)
    (h.unfinished hin) ?_ (h.stops.fetching hp)
  · intro k hk j
    simp [written, SendEvent.written, Ne.symm hk]
  · have hport := h.ports hin j hj
    rw [hcount, hzero] at hport
    have hcount' : Sender.count { d with place := .fetching i (.wrote n) } j =
        d.threadWorkingOffset j := by simp [Sender.count]
    rw [hcount']
    by_cases hji : j = i
    · subst hji
      rw [h.workingIndex] at hobj hle ⊢
      have hwrite := hport.write hbusy hobj hle
      simpa [written, SendEvent.written, Sender.extra] using hwrite
    · simpa [written, SendEvent.written, Sender.extra, Ne.symm hji] using hport
  · intro j place hplace
    obtain ⟨rfl, -⟩ := SendPlace.fetching.inj hplace
    exact hbusy

/-- What has been written behind the `write`. -/
theorem Sender.Ok.port_wrote {n : Nat} (h : d.Ok L tid tr m)
    (hp : d.place = .fetching i (.wrote n)) :
    PortAt L tid i (written d.k i tr) (m.offset i) (d.threadWorkingOffset i) n := by
  have hport := h.ports (by simp [Sender.Between, hp]) i (h.stops.fetching hp).1
  have hcount : d.count i = d.threadWorkingOffset i := by simp [Sender.count, hp]
  have hextra : d.extra i = n := by simp [Sender.extra, hp]
  rwa [hcount, hextra] at hport

/-- What follows the `write`, once the offset is set. -/
theorem Sender.Ok.afterWrite {n offset : Nat} {finish : Bool} (h : d.Ok L tid tr m)
    (hp : d.place = .fetching i (.wrote n))
    (hport : PortAt L tid i (written d.k i tr)
      (Function.update (m.offset i) (tid * L.threadWorkLen i + d.threadWorkingOffset i) offset)
      (if finish then d.threadWorkingOffset i + 1 else d.threadWorkingOffset i) 0) :
    ((d.setFinish i finish).afterWrite V i).Ok L tid (tr ++ [])
      (m.setOffset i (d.workingIndex i) offset) := by
  have hin : ¬ d.Between := by simp [Sender.Between, hp]
  obtain ⟨hi, hstop⟩ := h.stops.fetching hp
  have hbusy := h.busy i _ hp
  have hunfinished : ∀ j < L.portNum, (d.setFinish i finish).finishSend j = false →
      d.threadWorkingOffset j < L.threadWorkLen j := by
    intro j hj hf
    by_cases hji : j = i
    · subst hji
      exact hbusy
    · refine h.unfinished hin j hj ?_
      simpa [Sender.setFinish, hji] using hf
  refine h.advance hin (Sender.not_between_afterWrite V _ i) (by simp [Sender.setFinish])
    (by simp [Sender.setFinish]) (fun _ _ _ => rfl) (by simp) (fun j hj => ?_)
    (fun j hj hf => ?_) ?_ (Sender.stops_afterWrite hi hstop)
  · have hnil : written d.k j [] = [] := rfl
    rw [hnil, List.append_nil, Sender.count_afterWrite, Sender.extra_afterWrite, h.workingIndex]
    by_cases hji : j = i
    · subst hji
      simpa [Sender.setFinish, Outgoing.setOffset] using hport
    · have hother := h.ports hin j hj
      have hcount : d.count j = d.threadWorkingOffset j := by simp [Sender.count, hp]
      have hzero : d.extra j = 0 := by simp [Sender.extra, hp, Ne.symm hji]
      rw [hcount, hzero] at hother
      simpa [Sender.setFinish, Outgoing.setOffset, hji] using hother
  · rw [Sender.afterWrite_finishSend] at hf
    rw [Sender.offset_afterWrite hf]
    exact hunfinished j hj hf
  · intro j place hplace
    unfold Sender.afterWrite at hplace ⊢
    split at hplace
    next hr =>
      obtain ⟨rfl, -⟩ := SendPlace.fetching.inj hplace
      rw [if_pos hr]
      exact hbusy
    next hr => simp at hplace

/-- A round begins. -/
theorem Sender.Ok.start (h : d.Ok L tid tr m) (hp : d.place = .round) (hk : d.k < L.roundSet)
    (hpos : ∀ i < L.portNum, 0 < L.threadWorkLen i) :
    { d with
      stopCount := 0
      threadWorkingOffset := fun _ => 0
      finishSend := fun _ => false
      place := .looping }.Ok L tid tr m := by
  refine ⟨h.list, h.fetches, ⟨h.rounds.1, fun _ => hk, nofun⟩, h.past, h.future, ?_,
    fun _ i hi => ?_, fun _ i hi _ => hpos i hi, nofun, fun heq j hj => ?_⟩
  · simp [Sender.Between]
  · obtain ⟨hnone, hzero⟩ := h.between (.inl hp) i hi
    simp only [hnone]
    exact .start hzero (hpos i hi)
  · have hnone : 0 = L.portNum := heq
    rw [← hnone] at hj
    exact absurd hj (Nat.not_lt_zero j)

/-- A round ends when the thread is through with every port. -/
theorem Sender.Ok.endRound (h : d.Ok L tid tr m) (htid : tid < L.threadNum)
    (hp : d.place = .looping) (hs : d.stopCount = L.portNum) :
    { d with k := d.k + 1, place := .round }.Ok L tid tr m := by
  have hin : ¬ d.Between := by simp [Sender.Between, hp]
  have hdone := fun i (hi : i < L.portNum) =>
    (h.ports hin i hi).done htid (by simpa [Sender.count, hp] using (h.stops.looping hp hs i hi).2)
  have hround := h.rounds.2.1 hin
  refine ⟨h.list, h.fetches, ⟨hround, fun hb => absurd (.inl rfl) hb, nofun⟩, fun k hk i hi => ?_,
    fun k hk i => h.future k (Nat.lt_of_succ_lt hk) i, fun _ i hi => ?_,
    fun hb => absurd (.inl rfl) hb, fun hb => absurd (.inl rfl) hb, nofun, trivial⟩
  · rcases Nat.lt_succ_iff_lt_or_eq.mp hk with hlt | rfl
    · exact h.past k hlt i hi
    · exact (hdone i hi).1
  · exact ⟨h.future _ (Nat.lt_succ_self _) i, (hdone i hi).2⟩

/-- **One step of a thread** whose slices are not empty. -/
theorem Sender.Ok.step (h : d.Ok L tid tr m) (htid : tid < L.threadNum)
    (hpos : ∀ i < L.portNum, 0 < L.threadWorkLen i) (hm : L.Moves V d m ev d' m') :
    d'.Ok L tid (tr ++ ev) m' := by
  cases hm with
  | start hp hk =>
      rw [List.append_nil]
      exact h.start hp hk hpos
  | finish hp hk =>
      rw [List.append_nil]
      have hall : d.k = L.roundSet := Nat.le_antisymm h.rounds.1 hk
      exact ⟨h.list, h.fetches, ⟨h.rounds.1, fun hb => absurd (.inr rfl) hb, fun _ => hall⟩,
        h.past, h.future, fun _ => h.between (.inl hp), fun hb => absurd (.inr rfl) hb,
        fun hb => absurd (.inr rfl) hb, nofun, trivial⟩
  | pass hp =>
      have hin : ¬ d.Between := by simp [Sender.Between, hp]
      exact h.quiet hin (by simp [Sender.Between]) rfl rfl (fun i => by simp [Sender.count, hp])
        (fun i => by simp [Sender.extra, hp]) (h.unfinished hin) nofun
        ⟨Nat.zero_le _, Nat.le_refl 0, fun _ _ hj => absurd hj (Nat.not_lt_zero _)⟩
        (fun _ _ => rfl) nofun
  | endRound hp hs =>
      rw [List.append_nil]
      exact h.endRound htid hp hs
  | @stopped i hp hi hf hlen =>
      have hin : ¬ d.Between := by simp [Sender.Between, hp]
      obtain ⟨-, hle, hall⟩ := h.stops.port hp
      refine h.quiet hin (by simp [Sender.Between]) rfl rfl (fun i => by simp [Sender.count, hp])
        (fun i => by simp [Sender.extra, hp]) (h.unfinished hin) nofun
        ⟨hi, Nat.succ_le_succ hle, fun heq j hj => ?_⟩ (fun _ _ => rfl) nofun
      rcases Nat.lt_succ_iff_lt_or_eq.mp hj with hlt | rfl
      · exact hall (Nat.succ.inj heq) j hlt
      · exact ⟨hf, hlen⟩
  | @fetch i hp hi hmore =>
      have hin : ¬ d.Between := by simp [Sender.Between, hp]
      have hlt : d.threadWorkingOffset i < L.threadWorkLen i := by
        rcases hmore with hf | hlt
        · exact h.unfinished hin i hi hf
        · exact hlt
      refine h.quiet hin (by simp [Sender.Between]) rfl rfl (fun i => by simp [Sender.count, hp])
        (fun i => by simp [Sender.extra, hp]) (h.unfinished hin) ?_ ⟨hi, (h.stops.port hp).2.1⟩
        (fun _ _ => rfl) ?_
      · intro j place hplace
        obtain ⟨rfl, -⟩ := SendPlace.fetching.inj hplace
        exact hlt
      · intro j index hmem
        obtain ⟨rfl, rfl⟩ := SendEvent.fetch.inj (List.mem_singleton.mp hmem)
        rw [h.workingIndex]
        exact ⟨hi, by omega, by omega⟩
  | @passed i hp hi =>
      have hin : ¬ d.Between := by simp [Sender.Between, hp]
      obtain ⟨hle, -, hall⟩ := h.stops.port hp
      obtain rfl : i = L.portNum := Nat.le_antisymm hle hi
      exact h.quiet hin (by simp [Sender.Between]) rfl rfl (fun i => by simp [Sender.count, hp])
        (fun i => by simp [Sender.extra, hp]) (h.unfinished hin) nofun hall (fun _ _ => rfl) nofun
  | @blocked i hp =>
      have hp' : (d.setFinish i false).place = .fetching i .write := hp
      refine (h.setFinish hp).returned hp' (fun j => ?_) fun j => ?_
      · rw [Sender.count_returned]
        simp [Sender.count, Sender.setFinish, hp]
      · simp [Sender.extra, hp']
  | failed hp =>
      have hin : ¬ d.Between := by simp [Sender.Between, hp]
      have hlogged : d.Ok L tid (tr ++ [.exit]) m :=
        h.quiet hin hin rfl rfl (fun _ => rfl) (fun _ => rfl) (h.unfinished hin) h.busy h.stops
          (fun _ _ => rfl) nofun
      exact hlogged.frame htid fun _ _ _ => rfl
  | write hp hobj hle => exact h.write hp hobj hle
  | @short i n hp =>
      have hport := h.port_wrote hp
      refine h.afterWrite hp ?_
      rw [h.workingIndex]
      exact hport.short
  | @whole i n obj hp hobj hge =>
      have hport := h.port_wrote hp
      rw [h.workingIndex] at hobj hge
      exact (h.totals _ _).afterWrite hp (hport.whole htid (h.busy i _ hp) hobj hge)
  | @read i n hp =>
      refine (h.totals _ _).returned hp (fun j => ?_) fun j => ?_
      · rw [Sender.count_returned]
        by_cases hji : j = i
        · subst hji
          simp [Sender.count, hp]
        · simp [Sender.count, hp, hji, Ne.symm hji]
      · simp [Sender.extra, hp]

/-! ### All threads -/

open Interleaved (own mem_own)

variable {S : Sending L.threadNum} {log : List (Fin L.threadNum × SendEvent)}

theorem Workload.start_ok (L : Workload) (tid : Fin L.threadNum) :
    (L.start.parts tid).Ok L tid [] L.start.shared := by
  refine ⟨fun _ => rfl, nofun, ⟨Nat.zero_le _, fun hb => absurd (.inl rfl) hb, nofun⟩, nofun,
    fun _ _ _ => rfl, fun _ i hi => ⟨rfl, fun index _ => ?_⟩, fun hb => absurd (.inl rfl) hb,
    fun hb => absurd (.inl rfl) hb, nofun, trivial⟩
  show ((L.database i)[index]?.map BatchObj.offset).getD 0 = 0
  cases hobj : (L.database i)[index]? with
  | none => rfl
  | some obj => exact (L.ready i hi obj (List.mem_of_getElem? hobj)).1

/-- **What every thread knows in every run**, if the slices are not empty. -/
theorem Workload.threads_ok (hpos : ∀ i < L.portNum, 0 < L.threadWorkLen i)
    (hr : Run (Interleaved.Step (L.Act V)) L.start log S) (tid : Fin L.threadNum) :
    (S.parts tid).Ok L tid (own tid log) S.shared := by
  refine Interleaved.relate (R := fun (tid : Fin L.threadNum) tr d m => Sender.Ok L tid tr d m)
    L.start_ok ?_ ?_ hr tid
  · intro tid tr d m ev d' m' h hact
    exact h.step tid.isLt hpos hact.moves
  · intro tid tid' tr tr' d q m ev d' m' hne h h' hact
    refine h'.frame tid'.isLt fun i index hin => h.guarantee hact.moves fun hin' => ?_
    exact hne (Fin.ext (hin'.unique hin))

/-- What should be true of the threads after every run: each sends its slice, and nothing
else. -/
structure SlicesSent (L : Workload) (log : List (Fin L.threadNum × SendEvent))
    (S : Sending L.threadNum) : Prop where
  /-- `fetch_and_send` is called for batches that are there, and in the slice. -/
  indices : ∀ tid i index, (tid, .fetch i index) ∈ log → i < L.portNum ∧
    index < (L.database i).length ∧ L.InSlice tid i index
  /-- In a round that is over, the batches of the slice have been written, in order. -/
  rounds : ∀ tid, ∀ k < (S.parts tid).k, ∀ i < L.portNum,
    written k i (own tid log) = (L.slice tid i).flatten
  /-- In the round at hand a beginning of them has, and nothing for a later round. -/
  running : ∀ tid, ∀ k ≥ (S.parts tid).k, ∀ i < L.portNum,
    written k i (own tid log) <+: (L.slice tid i).flatten
  finished : ∀ tid, (S.parts tid).place = .finished → (S.parts tid).k = L.roundSet
  /-- No two threads touch the same object. -/
  apart : ∀ tid tid' i index, (tid, .fetch i index) ∈ log → (tid', .fetch i index) ∈ log →
    tid = tid'

theorem Workload.slices_sent (hpos : ∀ i < L.portNum, 0 < L.threadWorkLen i)
    (hr : Run (Interleaved.Step (L.Act V)) L.start log S) : SlicesSent L log S := by
  have hok := fun tid => Workload.threads_ok hpos hr tid
  have hin : ∀ {tid i index}, (tid, .fetch i index) ∈ log → i < L.portNum ∧ L.InSlice tid i index :=
    fun {tid i index} hmem => (hok tid).fetches i index (mem_own hmem)
  refine ⟨fun tid i index hmem => ?_, fun tid => (hok tid).past, fun tid k hk i hi => ?_,
    fun tid => (hok tid).rounds.2.2, fun tid tid' i index hmem hmem' => ?_⟩
  · obtain ⟨hi, hslice⟩ := hin hmem
    exact ⟨hi, hslice.lt_length tid.isLt, hslice⟩
  · rcases Nat.eq_or_lt_of_le hk with rfl | hlt
    · by_cases hb : (S.parts tid).Between
      · rw [((hok tid).between hb i hi).1]
        exact List.nil_prefix
      · rw [((hok tid).ports hb i hi).sent]
        exact Cursor.sent_prefix _ _ _
    · rw [(hok tid).future k hlt i]
      exact List.nil_prefix
  · exact Fin.ext ((hin hmem).2.unique (hin hmem').2)

/-! ### Empty slices -/

/-- The first thread has come to port `n` of its first round for the first time. -/
structure FirstPass (L : Workload) (n : Nat) (d : Sender) (m : Outgoing) : Prop where
  place : d.place = .port n
  alive : m.exited = false
  list : ∀ i, d.threadWorkingList i = 0
  fresh : ∀ i, n ≤ i → d.finishSend i = false ∧ d.threadWorkingOffset i = 0
  offset : ∀ i, n ≤ i → i < L.portNum → m.offset i 0 = 0

/-- A step that makes no system call. -/
theorem Workload.act_of_quiet (halive : m.exited = false)
    (hquiet : ∀ i place, d.place ≠ .fetching i place)
    (h : L.sendRounds V d m ⟨0, .other⟩ = some (ev, d', m')) : L.Act V d m ev d' m' := by
  refine ⟨halive, ⟨0, .other⟩, ?_, h⟩
  unfold Workload.Answers
  split
  next hp => exact absurd hp (hquiet _ _)
  next hp => exact absurd hp (hquiet _ _)
  next => trivial

/-! A `fetch_and_send` that writes all of its batch at once, and reads nothing. -/

section
variable {n : Nat} {obj : BatchObj}

theorem Workload.act_write (halive : m.exited = false) (hp : d.place = .fetching n .write)
    (hobj : (L.database n)[d.workingIndex n]? = some obj)
    (hzero : m.offset n (d.workingIndex n) = 0) (hdatalen : 0 < obj.datalen) :
    L.Act V d m [.write d.k n (obj.buf.load 0 obj.datalen)]
      { d with place := .fetching n (.wrote obj.datalen) } m := by
  refine ⟨halive, ⟨obj.datalen, .other⟩, ?_, ?_⟩
  · simp only [Workload.Answers, hp]
    intro batchObj hmem
    obtain rfl : obj = batchObj := Option.some.inj (hobj.symm.trans hmem)
    rw [hzero]
    exact .inr ⟨Int.natCast_nonneg _, Int.le_refl _, fun hnone => absurd hnone (by simp; omega)⟩
  · simp [Workload.sendRounds, Workload.fetchAndSend, hp, hobj, hzero, hdatalen.ne']

theorem Workload.act_wrote (halive : m.exited = false)
    (hp : d.place = .fetching n (.wrote obj.datalen))
    (hobj : (L.database n)[d.workingIndex n]? = some obj)
    (hzero : m.offset n (d.workingIndex n) = 0) :
    L.Act V d m []
      (({ d with totalSendBytes := d.totalSendBytes + obj.datalen }.setFinish n true).afterWrite
        V n)
      (m.setOffset n (d.workingIndex n) 0) := by
  refine ⟨halive, ⟨0, .other⟩, ?_, ?_⟩
  · simp only [Workload.Answers, hp]
  · simp [Workload.sendRounds, Workload.fetchAndSend, hp, hobj, hzero]

theorem Workload.act_read (halive : m.exited = false) (hp : d.place = .fetching n .read)
    (hobj : (L.database n)[d.workingIndex n]? = some obj) :
    L.Act V d m [] (d.returned n) m := by
  refine ⟨halive, ⟨0, .other⟩, ?_, ?_⟩
  · simp only [Workload.Answers, hp]
    exact ⟨by decide, by decide⟩
  · simp only [Workload.sendRounds, hp, Workload.fetchAndSend, hobj]
    rfl

end

theorem Workload.first_port (L : Workload) (V : Variant) (hT : 1 ≤ L.threadNum)
    (hround : 1 ≤ L.roundSet) (hport : 0 < L.portNum) :
    ∃ tr d m, Run (Interleaved.Alone (L.Act V)) (L.start.parts ⟨0, hT⟩, L.start.shared) tr (d, m) ∧
      FirstPass L 0 d m := by
  have hzero : ∀ i, L.start.shared.offset i 0 = ((L.database i)[0]?.map BatchObj.offset).getD 0 :=
    fun _ => rfl
  have hlooping : Interleaved.Alone (L.Act V) (L.start.parts ⟨0, hT⟩, L.start.shared) []
      ({ L.start.parts ⟨0, hT⟩ with finishSend := fun _ => false, place := .looping },
        L.start.shared) :=
    Workload.act_of_quiet rfl nofun (if_pos hround)
  have hpass : Interleaved.Alone (L.Act V)
      ({ L.start.parts ⟨0, hT⟩ with finishSend := fun _ => false, place := .looping },
        L.start.shared) []
      ({ L.start.parts ⟨0, hT⟩ with finishSend := fun _ => false, place := .port 0 },
        L.start.shared) :=
    Workload.act_of_quiet rfl nofun (if_pos (Nat.ne_of_lt hport))
  refine ⟨_, _, _, (Run.single hlooping).snoc hpass, rfl, rfl, fun i => Nat.zero_mul _,
    fun _ _ => ⟨rfl, rfl⟩, fun i _ hi => ?_⟩
  rw [hzero]
  cases hobj : (L.database i)[0]? with
  | none => rfl
  | some obj => exact (L.ready i hi obj (List.mem_of_getElem? hobj)).1

/-- The first thread calls `fetch_and_send` for the port. -/
theorem FirstPass.fetch {n : Nat} (h : FirstPass L n d m) (hn : n < L.portNum) (V : Variant) :
    L.Act V d m [.fetch n 0] { d with place := .fetching n .write } m := by
  have hindex : d.workingIndex n = 0 := by
    rw [Sender.workingIndex, h.list, (h.fresh n (Nat.le_refl n)).2]
  refine Workload.act_of_quiet h.alive (by simp [h.place]) ?_
  simp [Workload.sendRounds, h.place, hn, (h.fresh n (Nat.le_refl n)).1, hindex]

/-- It comes to the next port when `fetch_and_send` returns. -/
theorem FirstPass.returned {n : Nat} (h : FirstPass L n d m)
    (hlist : d'.threadWorkingList = d.threadWorkingList)
    (hoffset : d'.threadWorkingOffset = d.threadWorkingOffset)
    (hfinish : d'.finishSend = Function.update d.finishSend n true) :
    FirstPass L (n + 1) (d'.returned n) (m.setOffset n 0 0) := by
  refine ⟨Sender.returned_place _ _, h.alive, fun i => ?_, fun i hi => ?_, fun i hi hport => ?_⟩
  · rw [Sender.returned_list, hlist, h.list]
  · have hne : i ≠ n := Nat.ne_of_gt hi
    obtain ⟨hf, hz⟩ := h.fresh i (Nat.le_of_succ_le hi)
    have hf' : d'.finishSend i = false := by rwa [hfinish, Function.update_of_ne hne]
    exact ⟨(Sender.returned_finishSend ..).symm ▸ hf',
      (Sender.offset_returned hf').trans (hoffset ▸ hz)⟩
  · have hne : i ≠ n := Nat.ne_of_gt hi
    simp only [Outgoing.setOffset, Function.update_of_ne hne]
    exact h.offset i (Nat.le_of_succ_le hi) hport

/-- If there is a batch it writes all of it at once, and goes on to the next port. -/
theorem FirstPass.next {n : Nat} (h : FirstPass L n d m) (hn : n < L.portNum)
    (hsize : 0 < (L.database n).length) (V : Variant) :
    ∃ tr d' m', Run (Interleaved.Alone (L.Act V)) (d, m) tr (d', m') ∧
      FirstPass L (n + 1) d' m' := by
  have hindex : d.workingIndex n = 0 := by
    rw [Sender.workingIndex, h.list, (h.fresh n (Nat.le_refl n)).2]
  obtain ⟨obj, hobj⟩ : ∃ obj, (L.database n)[0]? = some obj :=
    ⟨_, List.getElem?_eq_getElem hsize⟩
  rw [← hindex] at hobj
  have hdatalen := (L.ready n hn obj (List.mem_of_getElem? hobj)).2
  have hzero : m.offset n (d.workingIndex n) = 0 := by
    rw [hindex]
    exact h.offset n (Nat.le_refl n) hn
  have hfetch : Interleaved.Alone (L.Act V) (d, m) _ (_, m) := h.fetch hn V
  have hwrite : Interleaved.Alone (L.Act V) ({ d with place := .fetching n .write }, m) _ (_, m) :=
    Workload.act_write h.alive rfl hobj hzero hdatalen
  have hwrote : Interleaved.Alone (L.Act V)
      ({ d with place := .fetching n (.wrote obj.datalen) }, m) []
      (({ d with
          place := .fetching n (.wrote obj.datalen)
          totalSendBytes := d.totalSendBytes + obj.datalen }.setFinish n true).afterWrite V n,
        m.setOffset n (d.workingIndex n) 0) :=
    Workload.act_wrote h.alive rfl hobj hzero
  have hrun := ((Run.single hfetch).snoc hwrite).snoc hwrote
  have hnext : ∀ {d' : Sender}, d'.threadWorkingList = d.threadWorkingList →
      d'.threadWorkingOffset = d.threadWorkingOffset →
      d'.finishSend = Function.update d.finishSend n true →
      FirstPass L (n + 1) (d'.returned n) (m.setOffset n (d.workingIndex n) 0) := by
    rw [hindex]
    exact h.returned
  unfold Sender.afterWrite at hrun
  cases hV : V.receives with
  | false =>
      rw [hV] at hrun
      exact ⟨_, _, _, hrun, hnext rfl rfl rfl⟩
  | true =>
      rw [hV] at hrun
      refine ⟨_, _, _, hrun.snoc (t := (_, _)) (Workload.act_read h.alive rfl hobj), ?_⟩
      exact hnext rfl rfl rfl

/-- Where every run keeps to the slices, a port whose batch the first thread is about to ask
for has a batch for every thread. -/
theorem FirstPass.threadNum_le {n : Nat} {tr : List SendEvent} (hT : 1 ≤ L.threadNum)
    (hall : ∀ log S, Run (Interleaved.Step (L.Act V)) L.start log S → SlicesSent L log S)
    (hr : Run (Interleaved.Alone (L.Act V)) (L.start.parts ⟨0, hT⟩, L.start.shared) tr (d, m))
    (h : FirstPass L n d m) (hn : n < L.portNum) : L.threadNum ≤ (L.database n).length := by
  have hfetch : Interleaved.Alone (L.Act V) (d, m) [.fetch n 0]
      ({ d with place := .fetching n .write }, m) := h.fetch hn V
  have hsent := hall _ _ (Interleaved.run_alone (hr.snoc hfetch))
  obtain ⟨-, -, -, hlt⟩ := hsent.indices ⟨0, hT⟩ n 0 (by simp)
  by_contra hless
  have hempty : L.threadWorkLen n = 0 := Nat.div_eq_of_lt (Nat.not_le.mp hless)
  simp [hempty] at hlt

/-- **Every thread sends exactly its slice** in every run, just if there is a batch for every
thread at every port. Where there are fewer, the slices are empty, and the threads send the
first batch all the same. -/
theorem slices_sent_iff (L : Workload) (V : Variant) (hT : 1 ≤ L.threadNum)
    (hround : 1 ≤ L.roundSet) :
    (∀ log S, Run (Interleaved.Step (L.Act V)) L.start log S → SlicesSent L log S) ↔
      ∀ i < L.portNum, L.threadNum ≤ (L.database i).length := by
  constructor
  · intro hall i hi
    -- the first thread comes to every port, and sends a batch to each before
    have hreach : ∀ n, n < L.portNum → ∃ tr d m,
        Run (Interleaved.Alone (L.Act V)) (L.start.parts ⟨0, hT⟩, L.start.shared) tr (d, m) ∧
          FirstPass L n d m := by
      intro n
      induction n with
      | zero => exact fun hport => L.first_port V hT hround hport
      | succ n ih =>
          intro hn
          obtain ⟨tr, d, m, hr, hfirst⟩ := ih (Nat.lt_of_succ_lt hn)
          have hsize := hfirst.threadNum_le hT hall hr (Nat.lt_of_succ_lt hn)
          obtain ⟨tr', d', m', hr', hnext⟩ :=
            hfirst.next (Nat.lt_of_succ_lt hn) (Nat.lt_of_lt_of_le hT hsize) V
          exact ⟨_, _, _, hr.trans hr', hnext⟩
    obtain ⟨tr, d, m, hr, hfirst⟩ := hreach i hi
    exact hfirst.threadNum_le hT hall hr hi
  · intro hsize log S hr
    exact Workload.slices_sent (fun i hi => Nat.div_pos (hsize i hi) hT) hr

/-- **What `con_database` leaves can be sent**, by any number of threads in any number of
rounds. -/
theorem Settings.Ok.exists_workload {S : Settings} {array : List UInt64} (hS : S.Ok)
    (hnum : ∀ number ∈ array, (Client.sprintf (number / 26)).length ≤ Client.valueLen)
    (threadNum roundSet : Nat) :
    ∃ b n, S.conDatabase array = .ok (b, n) ∧ ∃ L : Workload, L.threadNum = threadNum ∧
      L.portNum = S.portNum ∧ L.roundSet = roundSet ∧ L.database = b.database := by
  obtain ⟨b, hbuild, hfilled⟩ := hS.filled hnum
  have hready : ∀ i < S.portNum, ∀ obj ∈ b.database i, obj.offset = 0 ∧ 0 < obj.datalen := by
    intro i hi obj hobj
    obtain ⟨j, hj, rfl⟩ := List.getElem_of_mem hobj
    have hj' : j < (Builder.full S.batchNum (S.keysAt i array)).length := by
      rwa [(hfilled i hi).database.length_eq]
    have hcomplete := (hfilled i hi).database.get hj' hj
    simp only [List.get_eq_getElem] at hcomplete
    refine ⟨hcomplete.offset, ?_⟩
    rw [hcomplete.datalen]
    exact Nat.add_pos_left (by decide) _
  exact ⟨b, _, hbuild, ⟨threadNum, S.portNum, roundSet, b.database, hready⟩, rfl, rfl, rfl, rfl⟩

/-! ### Schedules -/

def Workload.decideAnswers (L : Workload) (d : Sender) (m : Outgoing) (r : SysRet) :
    (place : SendPlace) → d.place = place → Decidable (L.Answers d m r)
  | .fetching i .write, hp =>
    decidable_of_iff (∀ batchObj ∈ (L.database i)[d.workingIndex i]?,
        (Syscall.write (batchObj.datalen - m.offset i (d.workingIndex i))).Returns [] r)
      (by simp [Workload.Answers, hp])
  | .fetching i .read, hp =>
    decidable_of_iff (-1 ≤ r.ret ∧ r.ret ≤ recBufLen) (by simp [Workload.Answers, hp])
  | .fetching i (.wrote ret), hp => isTrue (by simp [Workload.Answers, hp])
  | .round, hp | .looping, hp | .port i, hp | .finished, hp =>
    isTrue (by simp [Workload.Answers, hp])

instance (L : Workload) (d : Sender) (m : Outgoing) (r : SysRet) :
    Decidable (L.Answers d m r) := L.decideAnswers d m r d.place rfl

/-- A step to follow a schedule by. -/
def Workload.play (L : Workload) (V : Variant) (d : Sender) (m : Outgoing) (r : SysRet) :
    Option (List SendEvent × Sender × Outgoing) :=
  if m.exited = false ∧ L.Answers d m r then L.sendRounds V d m r else none

theorem Workload.play_act (L : Workload) (V : Variant) (d : Sender) (m : Outgoing) (r : SysRet)
    (ev : List SendEvent) (d' : Sender) (m' : Outgoing)
    (h : L.play V d m r = some (ev, d', m')) : L.Act V d m ev d' m' := by
  unfold Workload.play at h
  split at h
  next hr => exact ⟨hr.1, r, hr.2, h⟩
  next => cases h

/-- Three bytes, ready to be sent. -/
def threeBytes : BatchObj := ⟨Memory.store (fun _ => 0) 0 [1, 2, 3], 0, 3, 0⟩

theorem threeBytes_ready (portNum count : Nat) :
    ∀ i < portNum, ∀ obj ∈ List.replicate count threeBytes, obj.offset = 0 ∧ 0 < obj.datalen := by
  intro i _ obj hobj
  obtain rfl := List.eq_of_mem_replicate hobj
  exact ⟨rfl, by decide⟩

/-- Two threads and two batches for one port. -/
def twoSlices : Workload := ⟨2, 1, 1, fun _ => List.replicate 2 threeBytes, threeBytes_ready 1 2⟩

def thread0 : Fin 2 := ⟨0, Nat.two_pos⟩

def thread1 : Fin 2 := ⟨1, Nat.one_lt_two⟩

/-- A step whose system call, if it makes one, transfers `n` bytes. -/
def stepOf (tid : Fin 2) (n : Int) : Fin 2 × SysRet := (tid, ⟨n, .other⟩)

/-- The first thread sends a byte; the second sends two; the first is told to wait, sends the
rest and finishes. -/
def twoSenders : Sending 2 × List (Fin 2 × SendEvent) :=
  Interleaved.play (twoSlices.play .sendThread) twoSlices.start
    ([0, 0, 0, 1, 0].map (stepOf thread0) ++ [0, 0, 0, 2, 0].map (stepOf thread1) ++
      [0, 0, 0].map (stepOf thread0) ++ [(thread0, ⟨-1, .EAGAIN⟩)] ++
      [0, 0, 0, 2, 0, 0, 0, 0, 0, 0, 0].map (stepOf thread0))

theorem slices_sent_iff_twoSenders :
    (twoSenders.1.parts thread0).place = .finished ∧
      written 0 0 (own thread0 twoSenders.2) = [1, 2, 3] ∧
      SlicesSent twoSlices twoSenders.2 twoSenders.1 :=
  ⟨by decide +kernel, by decide +kernel,
    (slices_sent_iff twoSlices .sendThread (by decide) (by decide)).2
      (fun _ _ => Nat.le_refl 2) _ _
      (Interleaved.play_run (twoSlices.play_act .sendThread) _ _)⟩

/-- Two threads and one batch. -/
def oneBatch : Workload := ⟨2, 1, 1, fun _ => List.replicate 1 threeBytes, threeBytes_ready 1 1⟩

/-- Both threads come to their call of `fetch_and_send`. -/
def bothFetch : Sending 2 × List (Fin 2 × SendEvent) :=
  Interleaved.play (oneBatch.play .dataDispatch) oneBatch.start
    ([0, 0, 0].map (stepOf thread0) ++ [0, 0, 0].map (stepOf thread1))

theorem slices_sent_oneBatch :
    ¬ ∀ (L : Workload) (V : Variant), 1 ≤ L.threadNum → 1 ≤ L.portNum → 1 ≤ L.roundSet →
      ∀ log S, Run (Interleaved.Step (L.Act V)) L.start log S → SlicesSent L log S := by
  intro hall
  have hr : Run (Interleaved.Step (oneBatch.Act .dataDispatch)) oneBatch.start bothFetch.2
      bothFetch.1 := Interleaved.play_run (oneBatch.play_act .dataDispatch) _ _
  have hsent := hall oneBatch .dataDispatch (by decide) (by decide) (by decide) _ _ hr
  have hfirst : (thread0, SendEvent.fetch 0 0) ∈ bothFetch.2 := by decide +kernel
  have hsecond : (thread1, SendEvent.fetch 0 0) ∈ bothFetch.2 := by decide +kernel
  have hsame : thread0 = thread1 := hsent.apart thread0 thread1 0 0 hfirst hsecond
  exact absurd hsame (by decide)

end MultiportNetwork.GetBatch
