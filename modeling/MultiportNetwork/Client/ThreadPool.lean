import MultiportNetwork.Lib.Tally
import Mathlib.Data.Fintype.Sum
import Mathlib.Data.Fintype.Option

/-!
# MultiportNetwork.Client.ThreadPool

`ThreadPool`: workers take tasks from a queue under `queue_mutex`, and wait for `condition` while
there are none. Tasks are run once each, in order (`pool_fifo`); no worker sleeps on a task that
nobody has been told of (`pool_wakes`); and the destructor comes to an end, with all that has
been enqueued run (`pool_ends`, `pool_done`).

What a thread does with the mutex held is one step. Waiting may end for no reason, as the
library permits. A task is opaque: an exception in it goes to its future.
-/

namespace MultiportNetwork.ThreadPool

/-- What the threads share: `tasks`, `stop`, who waits for `condition`, and whose function has
returned. -/
structure Pool (n : Nat) (α : Type) where
  tasks : List α := []
  stop : Bool := false
  waiting : Finset (Fin n) := ∅
  ended : Finset (Fin n) := ∅

/-- Where a thread is. -/
inductive Thread (n : Nat) (α : Type)
  /-- A worker about to take the mutex and look for a task. -/
  | looking (me : Fin n)
  /-- A worker in `condition.wait`. -/
  | waiting (me : Fin n)
  | running (me : Fin n) (task : α)
  | returned (me : Fin n)
  /-- A thread that may call `enqueue`. -/
  | outside
  /-- A thread in `enqueue`, once the mutex is released. -/
  | notifying
  /-- The owner, before it destroys the pool. -/
  | owning
  /-- The owner in the destructor, once the mutex is released. -/
  | stopping
  /-- The owner in the destructor, with these workers to join. -/
  | joining (workers : List (Fin n))
  | destroyed
  deriving DecidableEq

/-- What happens to tasks. -/
inductive Event (α : Type)
  | enqueued (task : α)
  /-- `enqueue` throws. -/
  | refused (task : α)
  | started (task : α)
  | finished (task : α)
  deriving DecidableEq

variable {n : Nat} {α : Type}

/-- What a thread does next. -/
inductive Thread.Act : Thread n α → Pool n α → List (Event α) → Thread n α → Pool n α → Prop
  | take {me : Fin n} {m : Pool n α} {task : α} {tasks : List α} (h : m.tasks = task :: tasks) :
      Act (.looking me) m [.started task] (.running me task) { m with tasks := tasks }
  | sleep {me : Fin n} {m : Pool n α} (h : m.tasks = []) (hstop : m.stop = false) :
      Act (.looking me) m [] (.waiting me) { m with waiting := insert me m.waiting }
  | leave {me : Fin n} {m : Pool n α} (h : m.tasks = []) (hstop : m.stop = true) :
      Act (.looking me) m [] (.returned me) { m with ended := insert me m.ended }
  /-- The worker has been notified, or wakes up for no reason. -/
  | wake {me : Fin n} {m : Pool n α} :
      Act (.waiting me) m [] (.looking me) { m with waiting := m.waiting.erase me }
  | finish {me : Fin n} {m : Pool n α} {task : α} :
      Act (.running me task) m [.finished task] (.looking me) m
  | enqueue {m : Pool n α} (task : α) (hstop : m.stop = false) :
      Act .outside m [.enqueued task] .notifying { m with tasks := m.tasks ++ [task] }
  | refuse {m : Pool n α} (task : α) (hstop : m.stop = true) :
      Act .outside m [.refused task] .outside m
  /-- `notify_one`, with a worker that waits. -/
  | notifyOne {m : Pool n α} {w : Fin n} (hw : w ∈ m.waiting) :
      Act .notifying m [] .outside { m with waiting := m.waiting.erase w }
  | notifyNone {m : Pool n α} (hw : m.waiting = ∅) : Act .notifying m [] .outside m
  | stop {m : Pool n α} : Act .owning m [] .stopping { m with stop := true }
  | notifyAll {m : Pool n α} :
      Act .stopping m [] (.joining (List.finRange n)) { m with waiting := ∅ }
  | join {m : Pool n α} {w : Fin n} {ws : List (Fin n)} (hw : w ∈ m.ended) :
      Act (.joining (w :: ws)) m [] (.joining ws) m
  | destroy {m : Pool n α} : Act (.joining []) m [] .destroyed m

/-- The workers, the threads that use the pool, and its owner. -/
inductive Party (n : Nat) (κ : Type)
  | worker (i : Fin n)
  | user (k : κ)
  | owner
  deriving DecidableEq

variable {κ : Type}

/-- There are as many parties as workers and users, and the owner. -/
def Party.equiv : Option (Fin n ⊕ κ) ≃ Party n κ where
  toFun
    | none => .owner
    | some (.inl i) => .worker i
    | some (.inr k) => .user k
  invFun
    | .owner => none
    | .worker i => some (.inl i)
    | .user k => some (.inr k)
  left_inv i := by rcases i with _ | _ | _ <;> rfl
  right_inv i := by cases i <;> rfl

instance [Fintype κ] : Fintype (Party n κ) := .ofEquiv _ Party.equiv

/-- The pool with its threads. -/
abbrev System (n : Nat) (κ α : Type) := Interleaved (Party n κ) (Thread n α) (Pool n α)

/-- Some thread acts. -/
abbrev Step [DecidableEq κ] : System n κ α → List (Party n κ × Event α) → System n κ α → Prop :=
  Interleaved.Step Thread.Act

/-- `launch`. -/
def launch (n : Nat) (κ α : Type) : System n κ α where
  parts
    | .worker i => .looking i
    | .user _ => .outside
    | .owner => .owning
  shared := {}

/-! ### Schedules -/

/-- What a schedule decides for one thread. -/
inductive Move (n : Nat) (α : Type)
  | go
  | enqueue (task : α)
  /-- `notify_one` picks this worker. -/
  | notify (w : Fin n)

/-- One move, if it is possible. -/
def Thread.exec : Thread n α → Pool n α → Move n α →
    Option (List (Event α) × Thread n α × Pool n α)
  | .looking me, m, .go =>
    match m.tasks with
    | task :: tasks => some ([.started task], .running me task, { m with tasks := tasks })
    | [] =>
      if m.stop then some ([], .returned me, { m with ended := insert me m.ended })
      else some ([], .waiting me, { m with waiting := insert me m.waiting })
  | .waiting me, m, .go => some ([], .looking me, { m with waiting := m.waiting.erase me })
  | .running me task, m, .go => some ([.finished task], .looking me, m)
  | .outside, m, .enqueue task =>
    if m.stop then some ([.refused task], .outside, m)
    else some ([.enqueued task], .notifying, { m with tasks := m.tasks ++ [task] })
  | .notifying, m, .notify w =>
    if w ∈ m.waiting then some ([], .outside, { m with waiting := m.waiting.erase w }) else none
  | .notifying, m, .go => if m.waiting = ∅ then some ([], .outside, m) else none
  | .owning, m, .go => some ([], .stopping, { m with stop := true })
  | .stopping, m, .go => some ([], .joining (List.finRange n), { m with waiting := ∅ })
  | .joining (w :: ws), m, .go => if w ∈ m.ended then some ([], .joining ws, m) else none
  | .joining [], m, .go => some ([], .destroyed, m)
  | _, _, _ => none

theorem Thread.exec_act (p : Thread n α) (m : Pool n α) (k : Move n α) (ev : List (Event α))
    (p' : Thread n α) (m' : Pool n α) (h : p.exec m k = some (ev, p', m')) :
    Act p m ev p' m' := by
  rw [Thread.exec.eq_def] at h
  split at h
  next =>
    split at h
    next htasks =>
      cases h
      exact .take htasks
    next hnone =>
      split at h
      next hstop =>
        cases h
        exact .leave hnone hstop
      next hstop =>
        cases h
        exact .sleep hnone (Bool.eq_false_iff.mpr hstop)
  next =>
    cases h
    exact .wake
  next =>
    cases h
    exact .finish
  next =>
    split at h
    next hstop =>
      cases h
      exact .refuse _ hstop
    next hstop =>
      cases h
      exact .enqueue _ (Bool.eq_false_iff.mpr hstop)
  next =>
    split at h
    next hw =>
      cases h
      exact .notifyOne hw
    next => cases h
  next =>
    split at h
    next hw =>
      cases h
      exact .notifyNone hw
    next => cases h
  next =>
    cases h
    exact .stop
  next =>
    cases h
    exact .notifyAll
  next =>
    split at h
    next hw =>
      cases h
      exact .join hw
    next => cases h
  next =>
    cases h
    exact .destroy
  next => cases h

/-- What a schedule leads to. -/
def System.play [DecidableEq κ] (n : Nat) (ks : List (Party n κ × Move n α)) :
    System n κ α × List (Party n κ × Event α) :=
  Interleaved.play Thread.exec (launch n κ α) ks

theorem System.play_run [DecidableEq κ] (n : Nat) (ks : List (Party n κ × Move n α)) :
    Run Step (launch n κ α) (System.play n ks).2 (System.play n ks).1 :=
  Interleaved.play_run Thread.exec_act _ ks

/-- The two workers of a pool. -/
def first : Fin 2 := ⟨0, Nat.two_pos⟩

def second : Fin 2 := ⟨1, Nat.one_lt_two⟩

/-- Both workers go to sleep, and a task is enqueued. -/
def oneTask : List (Party 2 Unit × Move 2 Nat) :=
  [(.worker first, .go), (.worker second, .go), (.user (), .enqueue 7)]

/-- One is notified and takes it, and the owner sets `stop` while the other one sleeps. -/
def asleep : List (Party 2 Unit × Move 2 Nat) :=
  oneTask ++ [(.user (), .notify second), (.worker second, .go), (.worker second, .go),
    (.owner, .go)]

/-- One is notified and runs it, while the pool is being destroyed. -/
def oneRun : List (Party 2 Unit × Move 2 Nat) :=
  oneTask ++ [(.user (), .notify second), (.owner, .go), (.owner, .go), (.worker second, .go),
    (.worker second, .go)]

/-- The pool is destroyed. -/
def oneDone : List (Party 2 Unit × Move 2 Nat) :=
  oneRun ++ [(.worker first, .go), (.worker first, .go), (.worker second, .go),
    (.worker second, .go), (.owner, .go), (.owner, .go), (.owner, .go)]

/-! ### What each thread knows -/

/-- What holds of a thread, of each party. -/
inductive Thread.Ok (m : Pool n α) : Party n κ → Thread n α → Prop
  | looking {i : Fin n} (hw : i ∉ m.waiting) (he : i ∉ m.ended) : Ok m (.worker i) (.looking i)
  | waiting {i : Fin n} (he : i ∉ m.ended) : Ok m (.worker i) (.waiting i)
  | running {i : Fin n} {task : α} (hw : i ∉ m.waiting) (he : i ∉ m.ended) :
      Ok m (.worker i) (.running i task)
  | returned {i : Fin n} (hw : i ∉ m.waiting) (he : i ∈ m.ended) (hstop : m.stop = true)
      (htasks : m.tasks = []) : Ok m (.worker i) (.returned i)
  | outside {k : κ} : Ok m (.user k) .outside
  | notifying {k : κ} : Ok m (.user k) .notifying
  | owning (hstop : m.stop = false) : Ok m .owner .owning
  | stopping (hstop : m.stop = true) : Ok m .owner .stopping
  | joining {ws : List (Fin n)} (hstop : m.stop = true) (hw : m.waiting = ∅)
      (he : ∀ i, i ∉ ws → i ∈ m.ended) : Ok m .owner (.joining ws)
  | destroyed (hstop : m.stop = true) (hw : m.waiting = ∅) (he : ∀ i, i ∈ m.ended) :
      Ok m .owner .destroyed

/-- What an act of party `i` is to the others. -/
structure Disturbed (i : Party n κ) (m m' : Pool n α) : Prop where
  waiting : ∀ j, .worker j ≠ i → j ∈ m'.waiting → j ∈ m.waiting
  ended : ∀ j, .worker j ≠ i → (j ∈ m'.ended ↔ j ∈ m.ended)
  subset : m.ended ⊆ m'.ended
  stop : m.stop = true → m'.stop = true
  owned : i ≠ .owner → m'.stop = m.stop
  drained : m.stop = true → m.tasks = [] → m'.tasks = []
  awake : m.stop = true → m.waiting = ∅ → m'.waiting = ∅

variable {i j : Party n κ} {p p' q : Thread n α} {m m' : Pool n α} {ev : List (Event α)}

theorem Disturbed.refl (i : Party n κ) (m : Pool n α) : Disturbed i m m :=
  ⟨fun _ _ h => h, fun _ _ => Iff.rfl, fun _ h => h, fun h => h, fun _ => rfl, fun _ h => h,
    fun _ h => h⟩

/-- **Nobody else's flags** are touched, unless all who wait are woken. -/
theorem Thread.Act.disturbs (hp : p.Ok m i) (h : Act p m ev p' m') : Disturbed i m m' := by
  have herase : ∀ w, Disturbed i m { m with waiting := m.waiting.erase w } := fun w =>
    { Disturbed.refl i m with
      waiting := fun _ _ h => Finset.mem_of_mem_erase h
      ended := fun _ _ => Iff.rfl
      awake := fun _ hw => by rw [hw, Finset.erase_empty] }
  cases h with
  | take h =>
      refine ⟨fun _ _ h => h, fun _ _ => Iff.rfl, fun _ h => h, fun h => h, fun _ => rfl,
        fun _ hnone => ?_, fun _ h => h⟩
      rw [h] at hnone
      cases hnone
  | sleep h hstop =>
      cases hp
      refine ⟨fun j hne hj => ?_, fun _ _ => Iff.rfl, fun _ h => h, fun h => h, fun _ => rfl,
        fun _ h => h, fun htrue => ?_⟩
      · exact (Finset.mem_insert.mp hj).resolve_left fun heq => hne (heq ▸ rfl)
      · rw [hstop] at htrue
        cases htrue
  | leave h hstop =>
      cases hp
      refine ⟨fun _ _ h => h, fun j hne => ?_, Finset.subset_insert _ _, fun h => h, fun _ => rfl,
        fun _ h => h, fun _ h => h⟩
      exact Finset.mem_insert.trans (or_iff_right fun heq => hne (heq ▸ rfl))
  | wake => exact herase _
  | enqueue task hstop =>
      refine ⟨fun _ _ h => h, fun _ _ => Iff.rfl, fun _ h => h, fun h => h, fun _ => rfl,
        fun htrue => ?_, fun _ h => h⟩
      rw [hstop] at htrue
      cases htrue
  | notifyOne hw => exact herase _
  | stop =>
      cases hp
      exact ⟨fun _ _ h => h, fun _ _ => Iff.rfl, fun _ h => h, fun _ => rfl,
        fun hne => absurd rfl hne, fun _ h => h, fun _ h => h⟩
  | notifyAll =>
      exact ⟨fun _ _ h => absurd h (Finset.notMem_empty _), fun _ _ => Iff.rfl, fun _ h => h,
        fun h => h, fun _ => rfl, fun _ h => h, fun _ _ => rfl⟩
  | _ => exact .refl i m

/-- What a thread knows stays true. -/
theorem Disturbed.ok (h : Disturbed i m m') (hne : j ≠ i) (hq : q.Ok m j) : q.Ok m' j := by
  cases hq with
  | looking hw he =>
      exact .looking (fun hj => hw (h.waiting _ hne hj)) fun hj => he ((h.ended _ hne).mp hj)
  | waiting he => exact .waiting fun hj => he ((h.ended _ hne).mp hj)
  | running hw he =>
      exact .running (fun hj => hw (h.waiting _ hne hj)) fun hj => he ((h.ended _ hne).mp hj)
  | returned hw he hstop htasks =>
      exact .returned (fun hj => hw (h.waiting _ hne hj)) ((h.ended _ hne).mpr he) (h.stop hstop)
        (h.drained hstop htasks)
  | outside => exact .outside
  | notifying => exact .notifying
  | owning hstop => exact .owning ((h.owned hne.symm).trans hstop)
  | stopping hstop => exact .stopping (h.stop hstop)
  | joining hstop hw he =>
      exact .joining (h.stop hstop) (h.awake hstop hw) fun i hi => h.subset (he i hi)
  | destroyed hstop hw he =>
      exact .destroyed (h.stop hstop) (h.awake hstop hw) fun i => h.subset (he i)

/-- A thread knows what it is doing. -/
theorem Thread.Act.ok (hp : p.Ok m i) (h : Act p m ev p' m') : p'.Ok m' i := by
  cases h with
  | take h =>
      cases hp with
      | looking hw he => exact .running hw he
  | sleep h hstop =>
      cases hp with
      | looking hw he => exact .waiting he
  | leave h hstop =>
      cases hp with
      | looking hw he => exact .returned hw (Finset.mem_insert_self _ _) hstop h
  | wake =>
      cases hp with
      | waiting he => exact .looking (Finset.notMem_erase _ _) he
  | finish =>
      cases hp with
      | running hw he => exact .looking hw he
  | enqueue task hstop =>
      cases hp
      exact .notifying
  | refuse task hstop =>
      cases hp
      exact .outside
  | notifyOne hw =>
      cases hp
      exact .outside
  | notifyNone hw =>
      cases hp
      exact .outside
  | stop =>
      cases hp
      exact .stopping rfl
  | notifyAll =>
      cases hp with
      | stopping hstop =>
          exact .joining hstop rfl fun i hi => absurd (List.mem_finRange i) hi
  | @join m w ws hjoined =>
      cases hp with
      | joining hstop hw he =>
          refine .joining hstop hw fun i hi => ?_
          by_cases hiw : i = w
          · exact hiw ▸ hjoined
          · exact he i (List.not_mem_cons_of_ne_of_not_mem hiw hi)
  | destroy =>
      cases hp with
      | joining hstop hw he => exact .destroyed hstop hw fun i => he i List.not_mem_nil

/-- All threads are as they should be. -/
def System.Ok (S : System n κ α) : Prop := ∀ i, (S.parts i).Ok S.shared i

variable [DecidableEq κ] {S S' : System n κ α} {log : List (Party n κ × Event α)}

omit [DecidableEq κ] in
theorem launch_ok : (launch n κ α).Ok := by
  intro i
  cases i with
  | worker i => exact .looking (Finset.notMem_empty _) (Finset.notMem_empty _)
  | user k => exact .outside
  | owner => exact .owning rfl

theorem System.Ok.act (h : S.Ok) (hact : Thread.Act (S.parts i) S.shared ev p' m') :
    System.Ok ⟨Function.update S.parts i p', m'⟩ := by
  intro j
  dsimp only
  by_cases hji : j = i
  · subst hji
    rw [Function.update_self]
    exact hact.ok (h j)
  · rw [Function.update_of_ne hji]
    exact (hact.disturbs (h i)).ok hji (h j)

theorem System.Ok.run (hr : Run Step (launch n κ α) log S) : S.Ok := by
  refine hr.invariant launch_ok fun A e B hA hs => ?_
  obtain ⟨i, hs⟩ := hs
  cases hs with
  | intro hact => exact hA.act hact

/-! ### Tasks -/

def Event.enqueued? : Event α → Option α
  | .enqueued task => some task
  | _ => none

def Event.started? : Event α → Option α
  | .started task => some task
  | _ => none

def Event.finished? : Event α → Option α
  | .finished task => some task
  | _ => none

/-- The tasks that `enqueue` has taken, in this order. -/
def enqueuedOf (log : List (Party n κ × Event α)) : List α :=
  log.filterMap fun e => e.2.enqueued?

/-- The tasks that workers have taken out of the queue, in this order. -/
def startedOf (log : List (Party n κ × Event α)) : List α := log.filterMap fun e => e.2.started?

/-- The tasks that have been run. -/
def finishedOf (log : List (Party n κ × Event α)) : List α := log.filterMap fun e => e.2.finished?

/-- What a thread runs. -/
def Thread.task : Thread n α → Multiset α
  | .running _ task => {task}
  | _ => 0

/-- The queue is first in, first out. -/
theorem Thread.Act.queue (h : Act p m ev p' m') {started enqueued : List α}
    (hlog : started ++ m.tasks = enqueued) :
    started ++ ev.filterMap Event.started? ++ m'.tasks =
      enqueued ++ ev.filterMap Event.enqueued? := by
  have hnone : started ++ [] ++ m.tasks = enqueued ++ [] := by
    rw [List.append_nil, List.append_nil]
    exact hlog
  cases h with
  | @take me m task tasks h =>
      show started ++ [task] ++ tasks = enqueued ++ []
      rw [List.append_nil, ← hlog, h, List.append_assoc]
      rfl
  | @enqueue m task hstop =>
      show started ++ [] ++ (m.tasks ++ [task]) = enqueued ++ [task]
      rw [List.append_nil, ← List.append_assoc, hlog]
  | _ => exact hnone

/-- What is started is run, and finished by the one who runs it. -/
theorem Thread.Act.runs (h : Act p m ev p' m') :
    (ev.filterMap Event.finished? : Multiset α) + p'.task =
      p.task + (ev.filterMap Event.started? : Multiset α) := by
  cases h <;> rfl

variable [Fintype κ]

/-- **Once and in order.** What has been enqueued has been started, in the same order, or is
still in the queue; and what has been started has been finished, or some worker runs it. -/
theorem pool_fifo (hr : Run Step (launch n κ α) log S) :
    startedOf log ++ S.shared.tasks = enqueuedOf log ∧
      (finishedOf log : Multiset α) + S.weigh Thread.task = (startedOf log : Multiset α) := by
  refine hr.relate (R := fun log S => startedOf log ++ S.shared.tasks = enqueuedOf log ∧
      (finishedOf log : Multiset α) + Interleaved.weigh Thread.task S =
        (startedOf log : Multiset α)) ⟨rfl, ?_⟩ ?_
  · -- nobody runs anything yet
    rw [Interleaved.weigh, Finset.sum_eq_zero fun i _ => ?_]
    · rfl
    · cases i <;> rfl
  intro log A ev B hA hs
  obtain ⟨hqueue, hruns⟩ := hA
  obtain ⟨i, hs⟩ := hs
  cases hs with
  | @intro ev p m hact =>
      have hlog : ∀ f : Event α → Option α, (log ++ ev.map (i, ·)).filterMap (fun e => f e.2) =
          log.filterMap (fun e => f e.2) ++ ev.filterMap f := by
        intro f
        rw [List.filterMap_append, List.filterMap_map]
        rfl
      rw [startedOf, enqueuedOf, finishedOf, hlog, hlog, hlog]
      refine ⟨hact.queue hqueue, ?_⟩
      have hone := hact.runs
      have hweigh := Interleaved.weigh_update Thread.task A i p m
      rw [startedOf, finishedOf] at hruns
      rw [← Multiset.coe_add, ← Multiset.coe_add, ← add_left_inj (A.parts i).task, add_assoc,
        hweigh, add_add_add_comm, hruns, hone]
      ac_rfl

theorem pool_fifo_oneRun : startedOf (System.play 2 oneRun).2 = [7] ∧
    finishedOf (System.play 2 oneRun).2 = [] ∧
    startedOf (System.play 2 oneRun).2 ++ (System.play 2 oneRun).1.shared.tasks =
      enqueuedOf (System.play 2 oneRun).2 ∧
    (finishedOf (System.play 2 oneRun).2 : Multiset Nat) +
        (System.play 2 oneRun).1.weigh Thread.task =
      (startedOf (System.play 2 oneRun).2 : Multiset Nat) :=
  ⟨by decide +kernel, by decide +kernel, pool_fifo (System.play_run 2 oneRun)⟩

/-! ### Sleeping workers -/

/-- A thread that will look for a task, or notify someone of one: not if it sleeps. -/
def Thread.attends (m : Pool n α) : Thread n α → Nat
  | .looking _ | .notifying => 1
  | .waiting me => if me ∈ m.waiting then 0 else 1
  | _ => 0

/-- A thread in the loop of `condition.wait`, or about to notify. -/
def Thread.concerned : Thread n α → Nat
  | .looking _ | .waiting _ | .notifying => 1
  | _ => 0

/-- A thread that sleeps. -/
def Thread.sleeps (m : Pool n α) : Thread n α → Nat
  | .waiting me => if me ∈ m.waiting then 1 else 0
  | _ => 0

omit [DecidableEq κ] [Fintype κ] in
/-- Who waits sleeps in `condition.wait`. -/
theorem System.Ok.asleep (h : S.Ok) {w : Fin n} (hw : w ∈ S.shared.waiting) :
    S.parts (.worker w) = .waiting w := by
  have hok := h (.worker w)
  generalize S.parts (.worker w) = p at hok
  cases hok with
  | looking hn => exact absurd hw hn
  | waiting => rfl
  | running hn => exact absurd hw hn
  | returned hn => exact absurd hw hn

/-- The workers among the parties. -/
def Party.workers (ws : Finset (Fin n)) : Finset (Party n κ) :=
  ws.map ⟨Party.worker, fun _ _ h => Party.worker.inj h⟩

omit [DecidableEq κ] in
/-- All who sleep are concerned. -/
theorem System.Ok.card_le (h : S.Ok) :
    S.shared.waiting.card ≤ S.weigh Thread.concerned := by
  have hcard : (Party.workers S.shared.waiting : Finset (Party n κ)).card =
      S.shared.waiting.card := Finset.card_map _
  rw [← hcard]
  refine Interleaved.card_le_weigh fun i hi => ?_
  obtain ⟨w, hw, rfl⟩ := Finset.mem_map.mp hi
  have hasleep : S.parts (.worker w) = .waiting w := h.asleep hw
  exact Nat.le_of_eq (congrArg Thread.concerned hasleep).symm

/-- **No wakeup is lost**: for every task there is someone concerned besides those who sleep, if
anyone does. -/
def System.Wakes (S : System n κ α) : Prop :=
  S.shared.waiting = ∅ ∨
    S.shared.tasks.length + S.shared.waiting.card ≤ S.weigh Thread.concerned

theorem System.Wakes.act (h : S.Wakes) (hok : S.Ok)
    (hact : Thread.Act (S.parts i) S.shared ev p' m') :
    System.Wakes ⟨Function.update S.parts i p', m'⟩ := by
  have hok' := hok.act hact
  have hcard := hok'.card_le
  have hweigh := Interleaved.weigh_update Thread.concerned S i p' m'
  rw [System.Wakes] at h ⊢
  generalize Interleaved.weigh Thread.concerned S = total at h hweigh
  generalize Interleaved.weigh Thread.concerned ⟨Function.update S.parts i p', m'⟩ = total'
    at hcard hweigh ⊢
  dsimp only at hcard ⊢
  generalize S.parts i = p at hact hweigh
  generalize S.shared = m at hact h
  -- the weights of the one that has acted are known now
  cases hact <;> simp only [Thread.concerned] at hweigh
  case take me task tasks htasks =>
    refine h.imp_right fun hle => ?_
    rw [htasks, List.length_cons] at hle
    show tasks.length + m.waiting.card ≤ total'
    omega
  case sleep hnone hstop =>
    right
    rw [hnone, List.length_nil, Nat.zero_add]
    exact hcard
  case leave hnone hstop =>
    right
    rw [hnone, List.length_nil, Nat.zero_add]
    exact hcard
  case wake me =>
    rcases h with hnone | hle
    · left
      rw [hnone, Finset.erase_empty]
    · right
      have herase : (m.waiting.erase me).card ≤ m.waiting.card := Finset.card_erase_le
      show m.tasks.length + (m.waiting.erase me).card ≤ total'
      omega
  case enqueue task hstop =>
    refine h.imp_right fun hle => ?_
    show (m.tasks ++ [task]).length + m.waiting.card ≤ total'
    rw [List.length_append, List.length_singleton]
    omega
  case notifyOne w hw =>
    rcases h with hnone | hle
    · rw [hnone] at hw
      cases hw
    · right
      have herase := Finset.card_erase_add_one hw
      show m.tasks.length + (m.waiting.erase w).card ≤ total'
      omega
  case notifyNone hw => exact .inl hw
  case notifyAll => exact .inl rfl
  case stop =>
    refine h.imp_right fun hle => ?_
    show m.tasks.length + m.waiting.card ≤ total'
    omega
  all_goals exact h.imp_right fun hle => by omega

theorem System.Wakes.run (hr : Run Step (launch n κ α) log S) : S.Wakes := by
  have hboth : S.Ok ∧ S.Wakes := by
    refine hr.invariant (I := fun S => S.Ok ∧ S.Wakes) ⟨launch_ok, .inl rfl⟩ fun A e B hA hs => ?_
    obtain ⟨i, hs⟩ := hs
    cases hs with
    | intro hact => exact ⟨hA.1.act hact, hA.2.act hA.1 hact⟩
  exact hboth.2

omit [DecidableEq κ] [Fintype κ] in
theorem Thread.concerned_eq (m : Pool n α) (p : Thread n α) :
    p.concerned = p.attends m + p.sleeps m := by
  cases p with
  | waiting me =>
      simp only [concerned, attends, sleeps]
      split <;> rfl
  | _ => rfl

/-- **No lost wakeup.** While any worker sleeps, there are as many threads about to look for a
task or to notify someone as there are tasks. -/
theorem pool_wakes (hr : Run Step (launch n κ α) log S) {w : Fin n}
    (hw : w ∈ S.shared.waiting) :
    S.shared.tasks.length ≤ S.weigh (Thread.attends S.shared) := by
  have hok := System.Ok.run hr
  rcases System.Wakes.run hr with hnone | hle
  · rw [hnone] at hw
    cases hw
  · have hsum : S.weigh Thread.concerned =
        S.weigh (Thread.attends S.shared) + S.weigh (Thread.sleeps S.shared) := by
      rw [← Interleaved.weigh_add]
      exact congrArg (fun f => Interleaved.weigh f S) (funext (Thread.concerned_eq S.shared))
    have hsleep : S.weigh (Thread.sleeps S.shared) ≤ S.shared.waiting.card := by
      rw [← Finset.card_map ⟨Party.worker, fun _ _ h => Party.worker.inj h⟩]
      refine Interleaved.weigh_le_card (A := Party.workers S.shared.waiting) fun i => ?_
      have hi := hok i
      generalize S.parts i = p at hi
      cases hi with
      | @waiting j he =>
          rw [Thread.sleeps]
          split
          next hj =>
            rw [if_pos]
            exact Finset.mem_map.mpr ⟨j, hj, rfl⟩
          next => exact Nat.zero_le _
      | _ => exact Nat.zero_le _
    omega

theorem pool_wakes_oneTask : (System.play 2 oneTask).1.shared.tasks.length = 1 ∧
    (System.play 2 oneTask).1.shared.tasks.length ≤
      (System.play 2 oneTask).1.weigh (Thread.attends (System.play 2 oneTask).1.shared) :=
  ⟨by decide +kernel, pool_wakes (System.play_run 2 oneTask) (w := first) (by decide +kernel)⟩

/-! ### The destructor -/

/-- How many steps a thread may still make by itself, once `stop` is set. -/
def Thread.togo : Thread n α → Nat
  | .looking _ | .notifying => 1
  | .waiting _ | .running _ _ => 2
  | .stopping => n + 2
  | .joining ws => ws.length + 1
  | _ => 0

def System.togo (S : System n κ α) : Nat :=
  2 * S.shared.tasks.length + S.weigh Thread.togo

/-- Some thread makes a step that is not to begin another `enqueue`. -/
def System.Next (S : System n κ α) (log : List (Party n κ × Event α)) (S' : System n κ α) : Prop :=
  ∃ i, S.parts i ≠ .outside ∧ Interleaved.Acts Thread.Act i S log S'

/-- Such a step of a thread that does not sleep. A sleeper may wake up for no reason, but nobody
can count on that: it has to be notified first. -/
def System.Prompt (S : System n κ α) (log : List (Party n κ × Event α)) (S' : System n κ α) :
    Prop :=
  ∃ i, S.parts i ≠ .outside ∧ (S.parts i).sleeps S.shared = 0 ∧
    Interleaved.Acts Thread.Act i S log S'

omit [DecidableEq κ] [Fintype κ] in
theorem Thread.Act.togo_lt (hp : p.Ok m i) (hstop : m.stop = true) (hout : p ≠ .outside)
    (h : Act p m ev p' m') :
    2 * m'.tasks.length + p'.togo < 2 * m.tasks.length + p.togo := by
  cases h with
  | take h =>
      rw [h, List.length_cons]
      simp only [togo]
      omega
  | sleep h hrun =>
      rw [hstop] at hrun
      cases hrun
  | enqueue => exact absurd rfl hout
  | refuse => exact absurd rfl hout
  | stop =>
      cases hp with
      | owning hrun =>
          rw [hstop] at hrun
          cases hrun
  | notifyAll =>
      simp only [togo, List.length_finRange]
      omega
  | join hw =>
      simp only [togo, List.length_cons]
      omega
  | _ =>
      simp only [togo]
      omega

theorem System.Next.lt (h : S.Next log S') (hok : S.Ok) (hstop : S.shared.stop = true) :
    S'.togo < S.togo ∧ S'.Ok ∧ S'.shared.stop = true := by
  obtain ⟨i, hout, hs⟩ := h
  cases hs with
  | @intro ev p m hact =>
      have hlt := hact.togo_lt (hok i) hstop hout
      have hweigh := Interleaved.weigh_update Thread.togo S i p m
      refine ⟨?_, hok.act hact, (hact.disturbs (hok i)).stop hstop⟩
      rw [System.togo, System.togo]
      dsimp only
      omega

omit [Fintype κ] in
theorem System.prompt_of (h : Thread.Act p S.shared ev p' m') (hp : S.parts i = p)
    (hout : p ≠ .outside) (hawake : p.sleeps S.shared = 0) : ∃ log S', S.Prompt log S' := by
  subst hp
  exact ⟨_, _, i, hout, hawake, .intro h⟩

omit [Fintype κ] in
/-- **A worker that is still to be joined** can go on, once all who waited have been notified. -/
theorem System.Ok.worker_prompt (hok : S.Ok) (hstop : S.shared.stop = true)
    (hnotified : S.shared.waiting = ∅) {w : Fin n} (hw : w ∉ S.shared.ended) :
    ∃ log S', S.Prompt log S' := by
  have hok := hok (.worker w)
  generalize hp : S.parts (.worker w) = p at hok
  cases hok with
  | looking _ _ =>
      cases htasks : S.shared.tasks with
      | nil => exact System.prompt_of (.leave htasks hstop) hp (fun heq => by cases heq) rfl
      | cons task tasks =>
          exact System.prompt_of (.take htasks) hp (fun heq => by cases heq) rfl
  | waiting _ =>
      refine System.prompt_of .wake hp (fun heq => by cases heq) ?_
      rw [Thread.sleeps, hnotified, if_neg (Finset.notMem_empty _)]
  | running _ _ => exact System.prompt_of .finish hp (fun heq => by cases heq) rfl
  | returned _ he => exact absurd he hw

omit [DecidableEq κ] [Fintype κ] in
/-- All workers have been joined. -/
theorem System.Ok.all_returned (hok : S.Ok) (hend : S.parts .owner = .destroyed) (w : Fin n) :
    S.parts (.worker w) = .returned w ∧ S.shared.tasks = [] := by
  have howner := hok .owner
  rw [hend] at howner
  cases howner with
  | destroyed _ _ he =>
      have hw := hok (.worker w)
      generalize S.parts (.worker w) = p at hw
      cases hw with
      | looking _ hn => exact absurd (he w) hn
      | waiting hn => exact absurd (he w) hn
      | running _ hn => exact absurd (he w) hn
      | returned _ _ _ htasks => exact ⟨rfl, htasks⟩

/-- The pool is destroyed, and the function of every worker has returned. -/
def System.Over (S : System n κ α) : Prop :=
  S.parts .owner = .destroyed ∧ ∀ w, S.parts (.worker w) = .returned w

omit [Fintype κ] in
/-- Till the end there is a thread that can go on. -/
theorem System.Ok.prompt (hok : S.Ok) (hstop : S.shared.stop = true) :
    S.Over ∨ ∃ log S', S.Prompt log S' := by
  have howner := hok .owner
  generalize hp : S.parts .owner = p at howner
  cases howner with
  | owning hrun =>
      rw [hstop] at hrun
      cases hrun
  | stopping _ => exact .inr (System.prompt_of .notifyAll hp (fun heq => by cases heq) rfl)
  | @joining ws _ hnotified _ =>
      right
      cases ws with
      | nil => exact System.prompt_of .destroy hp (fun heq => by cases heq) rfl
      | cons w ws =>
          by_cases hw : w ∈ S.shared.ended
          · exact System.prompt_of (.join hw) hp (fun heq => by cases heq) rfl
          · exact hok.worker_prompt hstop hnotified hw
  | destroyed => exact .inl ⟨hp, fun w => (hok.all_returned hp w).1⟩

/-- **The destructor comes to an end**, and no worker stays asleep. Once `stop` is set, whatever
the threads do, calls of `enqueue` apart, which throw, comes to the pool destroyed and every
worker's function returned; and it does not take a sleeper that wakes up for no reason. -/
theorem pool_ends (hr : Run Step (launch n κ α) log S) (hstop : S.shared.stop = true) :
    Inevitably System.Prompt System.Next (fun _ S => S.Over) [] S := by
  refine Inevitably.of_measure (I := fun _ S => S.Ok ∧ S.shared.stop = true)
    (Nat.lt_wfRel.wf) System.togo ?_ ⟨System.Ok.run hr, hstop⟩
  intro tr S hS
  obtain ⟨hok, hstop⟩ := hS
  refine (hok.prompt hstop).imp_right fun hcan => ⟨hcan, fun ev S' hnext => .inl ?_⟩
  obtain ⟨hlt, hok', hstop'⟩ := hnext.lt hok hstop
  exact ⟨⟨hok', hstop'⟩, hlt⟩

/-- One worker sleeps, with `stop` set and nobody notified yet. -/
theorem pool_ends_asleep : ((System.play 2 asleep).1.shared.waiting = {first} ∧
      (System.play 2 asleep).1.parts .owner = .stopping) ∧
    Inevitably System.Prompt System.Next (fun _ S => S.Over) [] (System.play 2 asleep).1 :=
  ⟨by decide +kernel, pool_ends (System.play_run 2 asleep) (by decide +kernel)⟩

/-- **All is done** when the pool is destroyed: what has been enqueued has been started, in this
order, and finished. -/
theorem pool_done (hn : 0 < n) (hr : Run Step (launch n κ α) log S)
    (hend : S.parts .owner = .destroyed) :
    startedOf log = enqueuedOf log ∧ (finishedOf log).Perm (enqueuedOf log) := by
  have hok := System.Ok.run hr
  have hall := hok.all_returned hend
  obtain ⟨hqueue, hruns⟩ := pool_fifo hr
  have hnone : S.weigh Thread.task = 0 := by
    refine Finset.sum_eq_zero fun i _ => ?_
    cases i with
    | worker w =>
        rw [(hall w).1]
        rfl
    | user k =>
        have hk := hok (.user k)
        generalize S.parts (.user k) = p at hk
        cases hk <;> rfl
    | owner =>
        rw [hend]
        rfl
  rw [(hall ⟨0, hn⟩).2, List.append_nil] at hqueue
  rw [hnone, add_zero, hqueue] at hruns
  exact ⟨hqueue, Multiset.coe_eq_coe.mp hruns⟩

theorem pool_done_oneDone : enqueuedOf (System.play 2 oneDone).2 = [7] ∧
    startedOf (System.play 2 oneDone).2 = enqueuedOf (System.play 2 oneDone).2 ∧
    (finishedOf (System.play 2 oneDone).2).Perm (enqueuedOf (System.play 2 oneDone).2) :=
  ⟨by decide +kernel,
    pool_done Nat.two_pos (System.play_run 2 oneDone) (by decide +kernel)⟩

end MultiportNetwork.ThreadPool
