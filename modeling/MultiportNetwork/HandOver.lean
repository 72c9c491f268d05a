import MultiportNetwork.Define
import MultiportNetwork.Lib.Interleave

/-!
# MultiportNetwork.HandOver

How an accepted connection reaches its worker. The main thread pushes it on the
worker's queue and then writes a byte to the worker's pipe; the worker reads the
byte and then pops. Queue and pipe may drift apart by any amount, but they are
filled and drained in step (`InStep`), and so every connection is handed
over once, in order, to the worker of its port (`handed_over`).
-/

namespace MultiportNetwork

/-! ### The two sides -/

/-- `conn_queue_item_modes`. -/
inductive ConnQueueItemMode
  | queueNewConn | queueRedispatch
  deriving Repr, DecidableEq

/-- `CONN_ITEM`, of `n` threads. A thread is named by its index in `threadInfoList`. -/
structure ConnItem (n : Nat) where
  sfd : Int
  mode : ConnQueueItemMode
  thread : Fin n
  deriving DecidableEq

/-- `THREAD_INFO`. The pipe is what has been written to `notify_send_fd` and not been
read from `notify_receive_fd`. -/
structure ThreadInfo (n : Nat) where
  threadIndex : Fin n
  connQueueList : List (ConnItem n) := []
  pipe : Bytes := []

/-- What the threads share: `threadInfoList`, and the process. -/
structure Threads (n : Nat) where
  threadInfoList : Fin n → ThreadInfo n
  exited : Bool := false

/-- Where a thread is. What it does with `conqlock` held is one step. -/
inductive Thread (n : Nat)
  /-- The main thread in `event_base_dispatch`. -/
  | listening
  /-- The main thread in `conn_dispatch`, before it takes the lock. -/
  | pushing (citem : ConnItem n)
  /-- The main thread in `conn_dispatch`, once the lock is released. -/
  | notifying (citem : ConnItem n)
  /-- A worker in its event loop. -/
  | waiting (me : Fin n)
  /-- A worker in `thread_libevent_process`, with the byte read. -/
  | awake (me : Fin n) (buf : UInt8)
  /-- A worker in `thread_libevent_process`, once the lock is released. -/
  | popped (me : Fin n) (citem : Option (ConnItem n))
  deriving DecidableEq

/-- What `accept` returns, with `errno`. -/
inductive AcceptRet
  | fd (fd : Int) | again | emfile | failed

/-- What lets a thread go on: a client connects to a port, with the results of `accept`
and `fcntl`; a `read` or `write` of one byte succeeds or fails; or no system call. -/
inductive HandOverRet (n : Nat)
  | accept (listener : Fin n) (ret : AcceptRet) (nonblock : Bool)
  | io (ok : Bool)
  | run

/-- What happens to connections. -/
inductive HandOverEvent (n : Nat)
  | accepted (listener : Fin n) (sfd : Int)
  | closed (sfd : Int)
  | unnotified (thread : Fin n)
  | connNew (sfd : Int) (threadIndex : Fin n)
  deriving DecidableEq

variable {n : Nat}

/-- `threadInfoList[i]` is changed. -/
def Threads.modify (m : Threads n) (i : Fin n) (f : ThreadInfo n → ThreadInfo n) : Threads n :=
  { m with threadInfoList := Function.update m.threadInfoList i (f (m.threadInfoList i)) }

/-- `connQueueList->push`. -/
def ThreadInfo.push (citem : ConnItem n) (t : ThreadInfo n) : ThreadInfo n :=
  { t with connQueueList := t.connQueueList ++ [citem] }

/-- `connQueueList->pop`. -/
def ThreadInfo.pop (t : ThreadInfo n) : ThreadInfo n :=
  { t with connQueueList := t.connQueueList.tail }

/-- The byte that wakes a worker, `'c'`. -/
def wakeByte : UInt8 := 99

def ThreadInfo.notify (t : ThreadInfo n) : ThreadInfo n :=
  { t with pipe := t.pipe ++ [wakeByte] }

/-- `conn_dispatch` up to the lock. The argument of a listener is the `thread_index` of
its entry in `threadInfoList`. -/
def connDispatch (m : Threads n) (listener : Fin n) (ret : AcceptRet) (nonblock : Bool) :
    List (HandOverEvent n) × Thread n × Threads n :=
  let portIndex := (m.threadInfoList listener).threadIndex
  match ret with
  | .again | .failed => ([], .listening, m)
  | .emfile => ([], .listening, { m with exited := true })
  | .fd fd =>
    if nonblock = false then
      ([.closed fd], .listening, m)
    else if 2 < fd then
      ([.accepted listener fd], .pushing ⟨fd, .queueNewConn, portIndex⟩, m)
    else
      -- `assert(fd > 2)`
      ([], .listening, { m with exited := true })

/-- `thread_libevent_process` up to the switch: reading from the pipe blocks while it is
empty. -/
def readPipe (m : Threads n) (me : Fin n) (ok : Bool) :
    Option (List (HandOverEvent n) × Thread n × Threads n) :=
  match ok, (m.threadInfoList me).pipe with
  | false, _ => some ([], .waiting me, m)
  | true, [] => none
  | true, buf :: rest => some ([], .awake me buf, m.modify me fun t => { t with pipe := rest })

/-- `thread_libevent_process`, the switch up to the unlock. -/
def popItem (m : Threads n) (me : Fin n) (buf : UInt8) : Thread n × Threads n :=
  if buf = wakeByte then
    (.popped me (m.threadInfoList me).connQueueList.head?, m.modify me .pop)
  else
    (.waiting me, m)

/-- `thread_libevent_process` behind the unlock. -/
def startConn (m : Threads n) (me : Fin n) (citem : Option (ConnItem n)) :
    List (HandOverEvent n) :=
  match citem with
  | none => []
  | some citem =>
    match citem.mode with
    | .queueNewConn => [.connNew citem.sfd (m.threadInfoList me).threadIndex]
    | .queueRedispatch => []

/-- What a thread does next. -/
def Thread.exec : Thread n → Threads n → HandOverRet n →
    Option (List (HandOverEvent n) × Thread n × Threads n)
  | .listening, m, .accept listener ret nonblock => some (connDispatch m listener ret nonblock)
  | .pushing citem, m, .run => some ([], .notifying citem, m.modify citem.thread (.push citem))
  | .notifying citem, m, .io true => some ([], .listening, m.modify citem.thread .notify)
  | .notifying citem, m, .io false => some ([.unnotified citem.thread], .listening, m)
  | .waiting me, m, .io ok => readPipe m me ok
  | .awake me buf, m, .run => some ([], popItem m me buf)
  | .popped me citem, m, .run => some (startConn m me citem, .waiting me, m)
  | _, _, _ => none

/-- A thread makes a step, as long as the process is alive. -/
def Thread.Act (p : Thread n) (m : Threads n) (ev : List (HandOverEvent n)) (p' : Thread n)
    (m' : Threads n) : Prop :=
  m.exited = false ∧ ∃ r, p.exec m r = some (ev, p', m')

/-! ### The system -/

/-- The main thread, and the worker of each port. -/
inductive Party (n : Nat)
  | main
  | worker (i : Fin n)
  deriving DecidableEq

/-- All threads, as far as handing over connections goes. -/
abbrev HandOver (n : Nat) := Interleaved (Party n) (Thread n) (Threads n)

/-- `init_workers`. -/
def initWorkers (n : Nat) : HandOver n where
  parts
    | .main => .listening
    | .worker i => .waiting i
  shared := { threadInfoList := fun i => { threadIndex := i } }

/-- The connection an event says has been accepted on port `i`. -/
def HandOverEvent.acceptedOn (i : Fin n) : HandOverEvent n → Option Int
  | .accepted j sfd => if j = i then some sfd else none
  | _ => none

/-- The connection an event says `conn_new` is called for. -/
def HandOverEvent.started : HandOverEvent n → Option Int
  | .connNew sfd _ => some sfd
  | _ => none

/-- The connections accepted on port `i`. -/
def acceptedOn (i : Fin n) (log : List (Party n × HandOverEvent n)) : List Int :=
  (Interleaved.own .main log).filterMap (HandOverEvent.acceptedOn i)

/-- The connections worker `i` has called `conn_new` for. -/
def startedBy (i : Fin n) (log : List (Party n × HandOverEvent n)) : List Int :=
  (Interleaved.own (.worker i) log).filterMap HandOverEvent.started

/-- All writes to pipes have succeeded. -/
def AllNotified (log : List (Party n × HandOverEvent n)) : Prop :=
  ∀ e ∈ log, ∀ i, e.2 ≠ .unnotified i

/-! ### Queue and pipe in step -/

/-- One if the main thread has still to notify worker `i` of what it has pushed. -/
def Thread.unnotified (i : Fin n) : Thread n → Nat
  | .notifying citem => if citem.thread = i then 1 else 0
  | _ => 0

/-- What the main thread has still to push for worker `i`. -/
def Thread.unpushed (i : Fin n) : Thread n → List Int
  | .pushing citem => if citem.thread = i then [citem.sfd] else []
  | _ => []

/-- One if the worker has read a byte and not yet popped. -/
def Thread.woken : Thread n → Nat
  | .awake .. => 1
  | _ => 0

/-- What the worker has popped and not yet started. -/
def Thread.unstarted : Thread n → List Int
  | .popped _ (some citem) => [citem.sfd]
  | _ => []

/-- What a thread can be doing. -/
def Thread.Plays : Party n → Thread n → Prop
  | .main, .listening => True
  | .main, .pushing citem => citem.mode = .queueNewConn
  | .main, .notifying _ => True
  | .worker i, .waiting me => me = i
  | .worker i, .awake me buf => me = i ∧ buf = wakeByte
  | .worker i, .popped me citem => me = i ∧ ∀ c ∈ citem, c.mode = .queueNewConn
  | _, _ => False

/-- Queue and pipe of worker `i`, which is `w`, filled by the main thread, which is `d`:
every item in the queue has its byte, in the pipe or on the way into it or out of it,
and what has been accepted is started, popped, queued or about to be pushed, in this
order. -/
structure InStep (i : Fin n) (accepted started : List Int) (d w : Thread n)
    (t : ThreadInfo n) : Prop where
  index : t.threadIndex = i
  wakes : ∀ b ∈ t.pipe, b = wakeByte
  count : t.connQueueList.length = t.pipe.length + d.unnotified i + w.woken
  modes : ∀ c ∈ t.connQueueList, c.mode = .queueNewConn
  order : started ++ w.unstarted ++ t.connQueueList.map (·.sfd) ++ d.unpushed i = accepted

@[simp] theorem Threads.modify_same (m : Threads n) (i : Fin n)
    (f : ThreadInfo n → ThreadInfo n) :
    (m.modify i f).threadInfoList i = f (m.threadInfoList i) :=
  Function.update_self ..

theorem Threads.modify_of_ne (m : Threads n) {i j : Fin n} (h : j ≠ i)
    (f : ThreadInfo n → ThreadInfo n) :
    (m.modify i f).threadInfoList j = m.threadInfoList j :=
  Function.update_of_ne h ..

variable {i j : Fin n} {acc st : List Int} {d d' w w' : Thread n} {m m' : Threads n}
  {ev : List (HandOverEvent n)}

/-- What the main thread does for other workers is of no concern. -/
theorem InStep.main_other (h : InStep i acc st d w (m.threadInfoList i))
    (hn : d'.unnotified i = d.unnotified i) (hp : d'.unpushed i = d.unpushed i) :
    InStep i acc st d' w (m.threadInfoList i) :=
  ⟨h.index, h.wakes, by rw [hn]; exact h.count, h.modes, by rw [hp]; exact h.order⟩

/-- A listener belongs to the thread of its index. -/
theorem InStep.dispatch {ret : AcceptRet} {nonblock : Bool} {listener : Fin n}
    (hindex : (m.threadInfoList listener).threadIndex = listener)
    (h : InStep i acc st .listening w (m.threadInfoList i))
    (he : connDispatch m listener ret nonblock = (ev, d', m')) :
    InStep i (acc ++ ev.filterMap (HandOverEvent.acceptedOn i)) st d' w
      (m'.threadInfoList i) := by
  have hsame : InStep i (acc ++ []) st .listening w (m.threadInfoList i) := by simpa using h
  unfold connDispatch at he
  cases ret with
  | again | failed | emfile =>
      cases he
      exact hsame
  | fd fd =>
      dsimp only at he
      split at he
      · cases he
        exact hsame
      split at he
      · cases he
        refine ⟨h.index, h.wakes, h.count, h.modes, ?_⟩
        have horder := h.order
        simp only [Thread.unpushed, List.append_nil] at horder
        simp only [Thread.unpushed, hindex, HandOverEvent.acceptedOn, horder,
          List.filterMap_cons, List.filterMap_nil]
        split <;> rfl
      · cases he
        exact hsame

theorem connDispatch_plays {ret : AcceptRet} {nonblock : Bool} {listener : Fin n} :
    (connDispatch m listener ret nonblock).2.1.Plays .main := by
  cases ret with
  | fd =>
      dsimp only [connDispatch]
      repeat' split
      all_goals trivial
  | _ => trivial

/-- The main thread stays what it is. -/
theorem Thread.main_plays {r : HandOverRet n} (hplays : d.Plays .main)
    (he : d.exec m r = some (ev, d', m')) : d'.Plays .main := by
  cases d with
  | waiting | awake | popped => cases hplays
  | listening =>
      cases r with
      | accept listener ret nonblock =>
          have hd : (connDispatch m listener ret nonblock).2.1 = d' := by
            rw [Option.some.inj he]
          rw [← hd]
          exact connDispatch_plays
      | io | run => cases he
  | pushing =>
      cases r with
      | accept | io => cases he
      | run =>
          cases he
          trivial
  | notifying =>
      cases r with
      | accept | run => cases he
      | io ok =>
          cases ok <;> cases he <;> trivial

/-- A step of the main thread. -/
theorem InStep.mainStep {r : HandOverRet n} (hplays : d.Plays .main)
    (hindex : ∀ j, (m.threadInfoList j).threadIndex = j)
    (h : InStep i acc st d w (m.threadInfoList i))
    (he : d.exec m r = some (ev, d', m')) (hev : ∀ e ∈ ev, ∀ i, e ≠ .unnotified i) :
    InStep i (acc ++ ev.filterMap (HandOverEvent.acceptedOn i)) st d' w
      (m'.threadInfoList i) := by
  cases d with
  | waiting | awake | popped => cases hplays
  | listening =>
      cases r with
      | accept listener ret nonblock =>
          exact InStep.dispatch (hindex listener) h (Option.some.inj he)
      | io | run => cases he
  | pushing citem =>
      cases r with
      | accept | io => cases he
      | run =>
          cases he
          by_cases hi : i = citem.thread
          · subst hi
            obtain ⟨hidx, hwakes, hcount, hmodes, horder⟩ := h
            simp only [Threads.modify_same]
            refine ⟨hidx, hwakes, ?_, ?_, ?_⟩
            · simp only [Thread.unnotified] at hcount
              simp [ThreadInfo.push, Thread.unnotified, hcount]
              omega
            · intro c hc
              rcases List.mem_append.mp hc with hc | hc
              · exact hmodes c hc
              · rw [List.mem_singleton.mp hc]
                exact hplays
            · simpa [ThreadInfo.push, Thread.unpushed] using horder
          · rw [Threads.modify_of_ne m hi, List.filterMap_nil, List.append_nil]
            have hi' : ¬ citem.thread = i := fun h => hi h.symm
            exact h.main_other (by simp [Thread.unnotified, hi']) (by simp [Thread.unpushed, hi'])
  | notifying citem =>
      cases r with
      | accept | run => cases he
      | io ok =>
          cases ok with
          | false =>
              cases he
              exact absurd rfl (hev _ List.mem_cons_self citem.thread)
          | true =>
              cases he
              by_cases hi : i = citem.thread
              · subst hi
                obtain ⟨hidx, hwakes, hcount, hmodes, horder⟩ := h
                simp only [Threads.modify_same]
                refine ⟨hidx, ?_, ?_, hmodes, ?_⟩
                · intro b hb
                  rcases List.mem_append.mp hb with hb | hb
                  · exact hwakes b hb
                  · exact List.mem_singleton.mp hb
                · simp only [Thread.unnotified, if_true] at hcount
                  simpa [ThreadInfo.notify, Thread.unnotified] using hcount
                · simpa [ThreadInfo.notify, Thread.unpushed] using horder
              · rw [Threads.modify_of_ne m hi, List.filterMap_nil, List.append_nil]
                have hi' : ¬ citem.thread = i := fun h => hi h.symm
                exact h.main_other (by simp [Thread.unnotified, hi']) rfl

/-- What a worker does leaves the others' queues and pipes alone. -/
theorem Thread.worker_frame {r : HandOverRet n} (hplays : w.Plays (.worker j)) (hij : i ≠ j)
    (he : w.exec m r = some (ev, w', m')) : m'.threadInfoList i = m.threadInfoList i := by
  cases w with
  | listening | pushing | notifying => cases hplays
  | waiting me =>
      cases hplays
      cases r with
      | accept | run => cases he
      | io ok =>
          simp only [Thread.exec, readPipe] at he
          split at he
          · cases he
            rfl
          · cases he
          · cases he
            exact Threads.modify_of_ne m hij _
  | awake me buf =>
      obtain ⟨rfl, rfl⟩ := hplays
      cases r with
      | accept | io => cases he
      | run =>
          cases he
          simp [Threads.modify_of_ne m hij]
  | popped me citem =>
      cases r with
      | accept | io => cases he
      | run =>
          cases he
          rfl

/-- A step of a worker. -/
theorem InStep.workerStep {r : HandOverRet n} (hplays : w.Plays (.worker i))
    (h : InStep i acc st d w (m.threadInfoList i)) (he : w.exec m r = some (ev, w', m')) :
    w'.Plays (.worker i) ∧
      InStep i acc (st ++ ev.filterMap HandOverEvent.started) d w' (m'.threadInfoList i) := by
  obtain ⟨hindex, hwakes, hcount, hmodes, horder⟩ := h
  cases w with
  | listening | pushing | notifying => cases hplays
  | waiting me =>
      cases hplays
      cases r with
      | accept | run => cases he
      | io ok =>
          simp only [Thread.exec, readPipe] at he
          split at he
          · cases he
            exact ⟨rfl, hindex, hwakes, hcount, hmodes, by simpa using horder⟩
          · cases he
          next buf rest hpipe =>
            cases he
            rw [hpipe] at hwakes hcount
            refine ⟨⟨rfl, hwakes buf List.mem_cons_self⟩, ?_⟩
            simp only [Threads.modify_same]
            refine ⟨hindex, fun b hb => hwakes b (List.mem_cons_of_mem _ hb), ?_, hmodes, ?_⟩
            · simp only [Thread.woken, List.length_cons] at hcount ⊢
              omega
            · simpa [Thread.unstarted] using horder
  | awake me buf =>
      obtain ⟨rfl, rfl⟩ := hplays
      cases r with
      | accept | io => cases he
      | run =>
          cases he
          simp only [Threads.modify_same]
          cases hq : (m.threadInfoList me).connQueueList with
          | nil =>
              -- the byte read has its item
              rw [hq] at hcount
              simp [Thread.woken] at hcount
          | cons citem rest =>
              rw [hq] at hcount hmodes horder
              refine ⟨⟨rfl, ?_⟩, hindex, hwakes, ?_, ?_, ?_⟩
              · rintro c ⟨⟩
                exact hmodes citem List.mem_cons_self
              · simp only [Thread.woken, List.length_cons] at hcount
                simp only [ThreadInfo.pop, hq, List.tail_cons, Thread.woken]
                omega
              · simp only [ThreadInfo.pop, hq, List.tail_cons]
                exact fun c hc => hmodes c (List.mem_cons_of_mem _ hc)
              · simpa [ThreadInfo.pop, hq, Thread.unstarted] using horder
  | popped me citem =>
      obtain ⟨rfl, hmode⟩ := hplays
      cases r with
      | accept | io => cases he
      | run =>
          cases he
          refine ⟨rfl, hindex, hwakes, hcount, hmodes, ?_⟩
          cases citem with
          | none => simpa [startConn, Thread.unstarted] using horder
          | some citem =>
              simpa [startConn, hmode citem rfl, HandOverEvent.started, Thread.unstarted]
                using horder

theorem connDispatch_starts_none {ret : AcceptRet} {nonblock : Bool} {listener : Fin n}
    {sfd : Int} : .connNew sfd i ∉ (connDispatch m listener ret nonblock).1 := by
  cases ret with
  | fd =>
      dsimp only [connDispatch]
      repeat' split
      all_goals simp
  | _ => simp [connDispatch]

/-- `conn_new` is called by a worker, and told its index. -/
theorem Thread.connNew_placed {p : Party n} {t t' : Thread n} {r : HandOverRet n}
    (hplays : t.Plays p) (hindex : ∀ j, (m.threadInfoList j).threadIndex = j)
    (he : t.exec m r = some (ev, t', m')) {sfd : Int} (hmem : .connNew sfd i ∈ ev) :
    p = .worker i := by
  cases t with
  | listening =>
      cases r with
      | io | run => cases he
      | accept listener ret nonblock =>
          obtain ⟨rfl, -⟩ := Prod.mk.inj (Option.some.inj he)
          exact absurd hmem connDispatch_starts_none
  | pushing | awake =>
      cases r with
      | accept | io => cases he
      | run =>
          obtain ⟨rfl, -⟩ := Prod.mk.inj (Option.some.inj he)
          cases hmem
  | notifying =>
      cases r with
      | accept | run => cases he
      | io ok =>
          cases ok
          all_goals
            cases he
            simp at hmem
  | waiting =>
      cases r with
      | accept | run => cases he
      | io ok =>
          simp only [Thread.exec, readPipe] at he
          split at he <;> cases he <;> cases hmem
  | popped me citem =>
      cases r with
      | accept | io => cases he
      | run =>
          cases he
          cases p with
          | main => cases hplays
          | worker j =>
              obtain ⟨rfl, -⟩ := hplays
              unfold startConn at hmem
              split at hmem
              · cases hmem
              split at hmem
              · rw [hindex, List.mem_singleton] at hmem
                cases hmem
                rfl
              · cases hmem

/-! ### Handing over -/

/-- What every run keeps. -/
structure HandOver.Ok (log : List (Party n × HandOverEvent n)) (S : HandOver n) : Prop where
  plays : ∀ p, (S.parts p).Plays p
  counted : ∀ i, InStep i (acceptedOn i log) (startedBy i log) (S.parts .main)
    (S.parts (.worker i)) (S.shared.threadInfoList i)
  placed : ∀ p sfd i, (p, .connNew sfd i) ∈ log → p = .worker i

theorem initWorkers_ok (n : Nat) : HandOver.Ok [] (initWorkers n) where
  plays p := by cases p <;> trivial
  counted _ := ⟨rfl, by simp [initWorkers], rfl, by simp [initWorkers], rfl⟩
  placed _ _ _ h := by cases h

open Interleaved in
/-- **Every step keeps queues and pipes in step.** -/
theorem HandOver.Ok.step {log new : List (Party n × HandOverEvent n)} {S S' : HandOver n}
    (h : HandOver.Ok log S) (hs : Step Thread.Act S new S') (hnew : AllNotified new) :
    HandOver.Ok (log ++ new) S' := by
  obtain ⟨p, hs⟩ := hs
  cases hs with
  | @intro ev t m hact =>
      obtain ⟨-, r, he⟩ := hact
      have hindex := fun j => (h.counted j).index
      have hev : ∀ e ∈ ev, ∀ i, e ≠ .unnotified i := fun e hmem =>
        hnew (p, e) (List.mem_map_of_mem hmem)
      have hplaced : ∀ q sfd i, (q, .connNew sfd i) ∈ log ++ ev.map (p, ·) → q = .worker i := by
        intro q sfd i hmem
        rcases List.mem_append.mp hmem with hmem | hmem
        · exact h.placed q sfd i hmem
        · obtain ⟨e, hmem, heq⟩ := List.mem_map.mp hmem
          cases heq
          exact Thread.connNew_placed (h.plays p) hindex he hmem
      cases p with
      | main =>
          have hparts : ∀ j, Function.update S.parts .main t (.worker j) = S.parts (.worker j) :=
            fun j => Function.update_of_ne (by simp) _ _
          refine ⟨fun q => ?_, fun i => ?_, hplaced⟩
          · cases q with
            | main =>
                simp only [Function.update_self]
                exact Thread.main_plays (h.plays .main) he
            | worker j =>
                simp only [hparts]
                exact h.plays _
          · simp only [Function.update_self, hparts, acceptedOn, startedBy, own_append, own_tag,
              own_tag_of_ne (show Party.main ≠ .worker i by simp), List.filterMap_append,
              List.append_nil]
            exact InStep.mainStep (h.plays .main) hindex (h.counted i) he hev
      | worker j =>
          obtain ⟨hplays, hown⟩ := InStep.workerStep (h.plays (.worker j)) (h.counted j) he
          have hmain : Function.update S.parts (.worker j) t .main = S.parts .main :=
            Function.update_of_ne (by simp) _ _
          refine ⟨fun q => ?_, fun i => ?_, hplaced⟩
          · by_cases hq : q = .worker j
            · subst hq
              simpa using hplays
            · simp only [Function.update_of_ne hq]
              exact h.plays q
          · by_cases hi : i = j
            · subst hi
              simpa [hmain, acceptedOn, startedBy,
                own_tag_of_ne (show Party.worker i ≠ .main by simp)] using hown
            · have hne : Party.worker i ≠ .worker j := by simpa using hi
              have hframe := Thread.worker_frame (h.plays (.worker j)) hi he
              simpa [hmain, acceptedOn, startedBy, own_tag_of_ne (Ne.symm hne),
                own_tag_of_ne (show Party.worker j ≠ .main by simp), hframe,
                Function.update_of_ne hne] using h.counted i

/-- **Every run keeps queues and pipes in step.** -/
theorem HandOver.ok {log : List (Party n × HandOverEvent n)} {S : HandOver n}
    (hr : Run (Interleaved.Step Thread.Act) (initWorkers n) log S) (hlog : AllNotified log) :
    HandOver.Ok log S := by
  refine hr.relate (R := fun (log : List (Party n × HandOverEvent n)) (S : HandOver n) =>
    AllNotified log → HandOver.Ok log S) (fun _ => initWorkers_ok n) ?_ hlog
  intro log A new B ih hs hall
  have hlog : AllNotified log := fun e he => hall e (List.mem_append_left _ he)
  exact (ih hlog).step hs fun e he => hall e (List.mem_append_right _ he)

/-- Connections are handed over exactly once. -/
structure HandedOver (log : List (Party n × HandOverEvent n)) (S : HandOver n) : Prop where
  /-- A worker that has read a byte has read `'c'`, and finds its queue non-empty. -/
  found : ∀ i me buf, S.parts (.worker i) = .awake me buf →
    me = i ∧ buf = wakeByte ∧ (S.shared.threadInfoList i).connQueueList ≠ []
  /-- `conn_new` is called by the worker it is told to be called by. -/
  placed : ∀ p sfd i, (p, .connNew sfd i) ∈ log → p = .worker i
  /-- The `k`-th connection a worker starts is the `k`-th accepted on its port. So each is
  started at most once, and on no other worker. -/
  inOrder : ∀ i, startedBy i log <+: acceptedOn i log
  /-- When a pipe is empty, the main thread has notified the worker of all it has pushed and
  the worker has popped for each byte it has read, then the queue is empty as well. -/
  drained : ∀ i, (S.shared.threadInfoList i).pipe = [] → (S.parts .main).unnotified i = 0 →
    (S.parts (.worker i)).woken = 0 → (S.shared.threadInfoList i).connQueueList = []
  /-- No connection is left behind: those not yet started are popped, queued or about to be
  pushed. -/
  accounted : ∀ i, startedBy i log ++ (S.parts (.worker i)).unstarted ++
    (S.shared.threadInfoList i).connQueueList.map (·.sfd) ++ (S.parts .main).unpushed i =
      acceptedOn i log

/-- **Connection hand-over is exactly once**, for any number of ports and in every
interleaving of the main thread and the workers in which writing to the pipes succeeds. -/
theorem handed_over {log : List (Party n × HandOverEvent n)} {S : HandOver n}
    (hr : Run (Interleaved.Step Thread.Act) (initWorkers n) log S) (hlog : AllNotified log) :
    HandedOver log S := by
  have hok := HandOver.ok hr hlog
  refine ⟨?_, hok.placed, fun i => ?_, fun i hpipe hmain hworker => ?_,
    fun i => (hok.counted i).order⟩
  · intro i me buf hi
    have hplays := hok.plays (.worker i)
    have hcount := (hok.counted i).count
    rw [hi] at hplays hcount
    refine ⟨hplays.1, hplays.2, fun hnil => ?_⟩
    simp [hnil, Thread.woken] at hcount
  · rw [← (hok.counted i).order, List.append_assoc, List.append_assoc]
    exact List.prefix_append ..
  · have hcount := (hok.counted i).count
    rw [hpipe, hmain, hworker] at hcount
    exact List.eq_nil_of_length_eq_zero hcount

/-- A step to follow a schedule by. -/
def Thread.play (p : Thread n) (m : Threads n) (r : HandOverRet n) :
    Option (List (HandOverEvent n) × Thread n × Threads n) :=
  if m.exited then none else p.exec m r

theorem Thread.play_act (p : Thread n) (m : Threads n) (r : HandOverRet n)
    (ev : List (HandOverEvent n)) (p' : Thread n) (m' : Threads n)
    (h : p.play m r = some (ev, p', m')) : p.Act m ev p' m' := by
  unfold Thread.play at h
  split at h
  · cases h
  next halive => exact ⟨by simpa using halive, r, h⟩

/-- Three connections on two ports; a worker pops before it is notified of its second one. -/
def threeConnections : HandOver 2 × List (Party 2 × HandOverEvent 2) :=
  Interleaved.play Thread.play (initWorkers 2)
    [(.main, .accept 1 (.fd 7) true), (.main, .run), (.main, .io true), (.worker 1, .io true),
      (.main, .accept 1 (.fd 8) true), (.main, .run), (.worker 1, .run), (.worker 1, .run),
      (.main, .io true), (.main, .accept 0 (.fd 9) true), (.main, .run), (.main, .io true),
      (.worker 0, .io true), (.worker 1, .io true), (.worker 1, .run)]

theorem handed_over_threeConnections :
    startedBy 1 threeConnections.2 = [7] ∧ acceptedOn 1 threeConnections.2 = [7, 8] ∧
      HandedOver threeConnections.2 threeConnections.1 :=
  ⟨by decide +kernel, by decide +kernel,
    handed_over (Interleaved.play_run Thread.play_act _ _)
      (show AllNotified threeConnections.2 by unfold AllNotified; decide +kernel)⟩

end MultiportNetwork
