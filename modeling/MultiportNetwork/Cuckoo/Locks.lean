import MultiportNetwork.Lib.Locks
import MultiportNetwork.Cuckoo.Linear

/-!
# MultiportNetwork.Cuckoo.Locks

How threads take and release the locks of a `cuckoohash_map`, one at a time. `all_locks_` is a
list of arrays of locks, to which a thread that expands the table may add one; the other
threads find the array to use and the hashpower without holding anything, and check the
hashpower once more when they have their first lock.

What a thread does when it has its locks is `Call.step`, at once. In the source it is one access
to a slot after the other: `locks_protect` in `MultiportNetwork.Cuckoo.Protect` says why that is
the same. The step looks at the hashpower again, which it does not in the source:
`locks_exclusive` in `MultiportNetwork.Cuckoo.Mutex` says that it is then always as expected.
-/

namespace Libcuckoo

/-- What the threads share: the map, the sizes of the arrays in `all_locks_`, and the flags of
the locks, each named by its array and its index there. -/
structure LockState (K V : Type) where
  map : CuckooMap K V
  allLocks : List Nat
  locked : Nat × Nat → Bool

/-- Where a thread is in taking and releasing locks. -/
inductive Phase
  /-- It has nothing to do with locks. -/
  | idle
  /-- It knows the array, and which locks of it are to be taken. -/
  | first (array : Nat) (todo : List Nat)
  /-- In `check_hashpower`, with the first lock taken. -/
  | check (array : Nat) (todo : List Nat)
  /-- The hashpower was right. -/
  | taking (array : Nat) (todo : List Nat)
  /-- In `lock_all`: the array it is in, and the lock there that is next. -/
  | sweeping (array next : Nat)
  /-- In `cuckoo_fast_double`, behind `maybe_resize_locks`. -/
  | resized
  | releasing
  deriving Repr, DecidableEq

/-- A thread: its call, the locks it holds and where it is with them. -/
structure Locker (K V : Type) where
  caller : Caller K V
  held : List (Nat × Nat)
  phase : Phase

/-- Whether a thread is in no call, and done with the last one. -/
def Locker.isIdle {K V : Type} : Locker K V → Bool
  | ⟨none, [], .idle⟩ => true
  | _ => false

theorem Locker.eq_of_isIdle {K V : Type} {t : Locker K V} (h : t.isIdle = true) :
    t = ⟨none, [], .idle⟩ := by
  rw [Locker.isIdle.eq_def] at h
  split at h
  · rfl
  · cases h

/-- The locks that `lock_two` takes, in its order. -/
def twoLocks (a b : Nat) : List Nat :=
  let (l1, l2) := CuckooMap.inOrder a b
  l1 :: if l2 ≠ l1 then [l2] else []

/-- The locks that `lock_three` takes, in its order. -/
def threeLocks (a b c : Nat) : List Nat :=
  let (l1, l2) := CuckooMap.inOrder b c
  let (l0, l2) := CuckooMap.inOrder a l2
  let (l0, l1) := CuckooMap.inOrder l0 l1
  l0 :: ((if l1 ≠ l0 then [l1] else []) ++ if l2 ≠ l1 then [l2] else [])

/-- The locks that are needed for a step. -/
inductive Need
  | nothing
  | these (hp : Nat) (locks : List Nat)
  | all
  deriving Repr, DecidableEq

section
variable {K V : Type} (P : Params K)

/-- The lock of the bucket that `slot_search` looks at next. -/
def BQueue.need (hp : Nat) (q : BQueue) : Need :=
  match q.pending with
  | [] => .nothing
  | x :: _ => .these hp [P.lockInd x.bucket]

/-- The locks for the next swap of `cuckoopath_move`. -/
def Call.moveNeed (c : Call K V) (hp : Nat) (path : List CuckooRecord) (bucket : Nat) : Need :=
  let l1 := P.lockInd ((c.hv P).i1 hp)
  let l2 := P.lockInd ((c.hv P).i2 hp)
  match path with
  | [] => .these hp (twoLocks l1 l2)
  | [_] => .these hp (threeLocks l1 l2 (P.lockInd bucket))
  | last :: _ => .these hp (twoLocks (P.lockInd last.bucket) (P.lockInd bucket))

/-- The locks that are needed at a place. -/
def Place.need (c : Call K V) : Place → Need
  | .snapshot => .nothing
  | .locking hp => .these hp (twoLocks (P.lockInd ((c.hv P).i1 hp)) (P.lockInd ((c.hv P).i2 hp)))
  | .searching hp q => q.need P hp
  | .tracing hp _ bucket _ _ => .these hp [P.lockInd bucket]
  | .moving hp path bucket _ => if c.insert.isSome then c.moveNeed P hp path bucket else .nothing
  | .doubling _ => .all

/-- Flags are set. -/
def LockState.lock (m : LockState K V) (xs : List (Nat × Nat)) : LockState K V :=
  { m with locked := fun x => m.locked x || decide (x ∈ xs) }

/-- `unlock`. -/
def LockState.unlock (m : LockState K V) (x : Nat × Nat) : LockState K V :=
  { m with locked := Function.update m.locked x false }

/-- The size of the array that `maybe_resize_locks` adds, if `cuckoo_fast_double` comes to it
and it adds one. -/
def LockState.newArray (m : LockState K V) (hp : Nat) : Option Nat :=
  match m.map.checkResizeValidity P hp (hp + 1) with
  | .ok .ok =>
    let size := m.allLocks.getLastD 0
    if size < P.maxNumLocks ∧ size < hashsize (hp + 1) then
      some (min P.maxNumLocks (hashsize (hp + 1)))
    else none
  | _ => none

/-- The locks of a new array, which are locked before the others can see it. -/
def LockState.newLocks (m : LockState K V) (size : Nat) : List (Nat × Nat) :=
  (List.range size).map (m.allLocks.length, ·)

variable [DecidableEq K]

/-- What a thread does next. -/
inductive Locker.Act : Locker K V → LockState K V → List (CallEvent K V) → Locker K V →
    LockState K V → Prop
  | call {m : LockState K V} (c : Call K V) :
      Act ⟨none, [], .idle⟩ m [.called c] ⟨some (c, .snapshot), [], .idle⟩ m
  /-- A step that needs no locks. -/
  | free {m : LockState K V} {c : Call K V} {p : Place} {ev : List (CallEvent K V)}
      {t : Caller K V} {map : CuckooMap K V} (hneed : p.need P c = .nothing)
      (h : Caller.Act P (some (c, p)) m.map ev t map) :
      Act ⟨some (c, p), [], .idle⟩ m ev ⟨t, [], .idle⟩ { m with map := map }
  /-- `get_current_locks`, for `lock_one`, `lock_two` and `lock_three`. -/
  | current {m : LockState K V} {c : Call K V} {p : Place} {hp : Nat} {ls : List Nat}
      (hneed : p.need P c = .these hp ls) :
      Act ⟨some (c, p), [], .idle⟩ m []
        ⟨some (c, p), [], .first (m.allLocks.length - 1) ls⟩ m
  | lockFirst {m : LockState K V} {t : Caller K V} {k l : Nat} {ls : List Nat}
      (hfree : m.locked (k, l) = false) :
      Act ⟨t, [], .first k (l :: ls)⟩ m [] ⟨t, [(k, l)], .check k ls⟩ (m.lock [(k, l)])
  /-- `check_hashpower` throws. -/
  | changed {m : LockState K V} {c : Call K V} {p : Place} {held : List (Nat × Nat)}
      {hp k : Nat} {ls ls' : List Nat} (hneed : p.need P c = .these hp ls')
      (hhp : m.map.hashpower ≠ hp) :
      Act ⟨some (c, p), held, .check k ls⟩ m [] ⟨some (c, .snapshot), held, .releasing⟩ m
  /-- `check_hashpower` does not throw. -/
  | same {m : LockState K V} {c : Call K V} {p : Place} {held : List (Nat × Nat)}
      {hp k : Nat} {ls ls' : List Nat} (hneed : p.need P c = .these hp ls')
      (hhp : m.map.hashpower = hp) :
      Act ⟨some (c, p), held, .check k ls⟩ m [] ⟨some (c, p), held, .taking k ls⟩ m
  | lockNext {m : LockState K V} {t : Caller K V} {held : List (Nat × Nat)} {k l : Nat}
      {ls : List Nat} (hfree : m.locked (k, l) = false) :
      Act ⟨t, held, .taking k (l :: ls)⟩ m [] ⟨t, (k, l) :: held, .taking k ls⟩
        (m.lock [(k, l)])
  /-- What is done with the locks of some buckets. -/
  | work {m : LockState K V} {t t' : Caller K V} {held : List (Nat × Nat)} {k : Nat}
      {ev : List (CallEvent K V)} {map : CuckooMap K V}
      (h : t.isSome) (hact : Caller.Act P t m.map ev t' map) :
      Act ⟨t, held, .taking k []⟩ m ev ⟨t', held, .releasing⟩ { m with map := map }
  /-- `lock_all`, which begins with the array that is then the last one. -/
  | lockAll {m : LockState K V} {c : Call K V} {p : Place} (hneed : p.need P c = .all) :
      Act ⟨some (c, p), [], .idle⟩ m []
        ⟨some (c, p), [], .sweeping (m.allLocks.length - 1) 0⟩ m
  | lockSweep {m : LockState K V} {t : Caller K V} {held : List (Nat × Nat)} {k l n : Nat}
      (hsize : m.allLocks[k]? = some n) (hl : l < n) (hfree : m.locked (k, l) = false) :
      Act ⟨t, held, .sweeping k l⟩ m [] ⟨t, (k, l) :: held, .sweeping k (l + 1)⟩
        (m.lock [(k, l)])
  | nextArray {m : LockState K V} {t : Caller K V} {held : List (Nat × Nat)} {k l n : Nat}
      (hsize : m.allLocks[k]? = some n) (hl : n ≤ l) :
      Act ⟨t, held, .sweeping k l⟩ m [] ⟨t, held, .sweeping (k + 1) 0⟩ m
  /-- All locks are taken, and no array is added. -/
  | keepArrays {m : LockState K V} {c : Call K V} {held : List (Nat × Nat)} {hp k l : Nat}
      (hend : m.allLocks[k]? = none) (hnew : m.newArray P hp = none) :
      Act ⟨some (c, .doubling hp), held, .sweeping k l⟩ m []
        ⟨some (c, .doubling hp), held, .resized⟩ m
  /-- All locks are taken, and an array is added, whose locks are taken too. -/
  | addArray {m : LockState K V} {c : Call K V} {held : List (Nat × Nat)} {hp k l n : Nat}
      (hend : m.allLocks[k]? = none) (hnew : m.newArray P hp = some n) :
      Act ⟨some (c, .doubling hp), held, .sweeping k l⟩ m []
        ⟨some (c, .doubling hp), m.newLocks n ++ held, .resized⟩
        { m.lock (m.newLocks n) with allLocks := m.allLocks ++ [n] }
  /-- What is done with all locks. -/
  | double {m : LockState K V} {t t' : Caller K V} {held : List (Nat × Nat)}
      {ev : List (CallEvent K V)} {map : CuckooMap K V}
      (h : t.isSome) (hact : Caller.Act P t m.map ev t' map) :
      Act ⟨t, held, .resized⟩ m ev ⟨t', held, .releasing⟩ { m with map := map }
  | unlock {m : LockState K V} {t : Caller K V} {held : List (Nat × Nat)} {x : Nat × Nat}
      (hx : x ∈ held) :
      Act ⟨t, held, .releasing⟩ m [] ⟨t, held.erase x, .releasing⟩ (m.unlock x)
  | done {m : LockState K V} {t : Caller K V} : Act ⟨t, [], .releasing⟩ m [] ⟨t, [], .idle⟩ m

/-! ### Schedules -/

/-- A step of the call, with the locks that are held. -/
def Locker.work (t : Caller K V) (held : List (Nat × Nat)) (phase : Phase) (m : LockState K V) :
    Option (List (CallEvent K V) × Locker K V × LockState K V) :=
  match OpAct.exec Place.snapshot (Call.step P) t m.map .go with
  | some (ev, t', map) => some (ev, ⟨t', held, phase⟩, { m with map := map })
  | none => none

/-- A lock is taken, unless someone else has it. -/
def Locker.take (t : Caller K V) (held : List (Nat × Nat)) (x : Nat × Nat) (phase : Phase)
    (m : LockState K V) : Option (List (CallEvent K V) × Locker K V × LockState K V) :=
  if m.locked x = false then some ([], ⟨t, x :: held, phase⟩, m.lock [x]) else none

/-- With no locks yet. -/
def Locker.begin (c : Call K V) (p : Place) (m : LockState K V) :
    Option (List (CallEvent K V) × Locker K V × LockState K V) :=
  match p.need P c with
  | .nothing => Locker.work P (some (c, p)) [] .idle m
  | .these _ ls => some ([], ⟨some (c, p), [], .first (m.allLocks.length - 1) ls⟩, m)
  | .all => some ([], ⟨some (c, p), [], .sweeping (m.allLocks.length - 1) 0⟩, m)

/-- `check_hashpower`. -/
def Locker.recheck (c : Call K V) (p : Place) (held : List (Nat × Nat)) (k : Nat)
    (ls : List Nat) (m : LockState K V) :
    Option (List (CallEvent K V) × Locker K V × LockState K V) :=
  match p.need P c with
  | .these hp _ =>
    if m.map.hashpower = hp then some ([], ⟨some (c, p), held, .taking k ls⟩, m)
    else some ([], ⟨some (c, .snapshot), held, .releasing⟩, m)
  | _ => none

/-- Behind `lock_all`. -/
def Locker.resize (t : Caller K V) (held : List (Nat × Nat)) (m : LockState K V) :
    Option (List (CallEvent K V) × Locker K V × LockState K V) :=
  match t with
  | some (c, .doubling hp) =>
    match m.newArray P hp with
    | none => some ([], ⟨some (c, .doubling hp), held, .resized⟩, m)
    | some n => some ([], ⟨some (c, .doubling hp), m.newLocks n ++ held, .resized⟩,
        { m.lock (m.newLocks n) with allLocks := m.allLocks ++ [n] })
  | _ => none

/-- In `lock_all`. -/
def Locker.sweep (t : Caller K V) (held : List (Nat × Nat)) (k l : Nat) (m : LockState K V) :
    Option (List (CallEvent K V) × Locker K V × LockState K V) :=
  match m.allLocks[k]? with
  | some n =>
    if l < n then Locker.take t held (k, l) (.sweeping k (l + 1)) m
    else some ([], ⟨t, held, .sweeping (k + 1) 0⟩, m)
  | none => Locker.resize P t held m

/-- What a thread does next, unless it waits for a lock or has no call. -/
def Locker.go : Locker K V → LockState K V →
    Option (List (CallEvent K V) × Locker K V × LockState K V)
  | ⟨some (c, p), [], .idle⟩, m => Locker.begin P c p m
  | ⟨t, [], .first k (l :: ls)⟩, m => Locker.take t [] (k, l) (.check k ls) m
  | ⟨some (c, p), held, .check k ls⟩, m => Locker.recheck P c p held k ls m
  | ⟨t, held, .taking k (l :: ls)⟩, m => Locker.take t held (k, l) (.taking k ls) m
  | ⟨some t, held, .taking _ []⟩, m => Locker.work P (some t) held .releasing m
  | ⟨t, held, .sweeping k l⟩, m => Locker.sweep P t held k l m
  | ⟨some t, held, .resized⟩, m => Locker.work P (some t) held .releasing m
  | ⟨t, x :: held, .releasing⟩, m => some ([], ⟨t, held, .releasing⟩, m.unlock x)
  | ⟨t, [], .releasing⟩, m => some ([], ⟨t, [], .idle⟩, m)
  | _, _ => none

/-- One move, if it is possible. -/
def Locker.exec (t : Locker K V) (m : LockState K V) :
    OpMove (Call K V) → Option (List (CallEvent K V) × Locker K V × LockState K V)
  | .call c =>
    if t.isIdle then some ([.called c], ⟨some (c, .snapshot), [], .idle⟩, m) else none
  | .go => t.go P m

end

/-! ### The calls behind it -/

variable {K V : Type} [DecidableEq K] {P : Params K} {c : Call K V} {p : Place} {hp : Nat}
  {ls : List Nat}

/-- **With another hashpower** than expected, nothing is done, and the call is begun anew. -/
theorem Call.step_changed {m : CuckooMap K V} (hneed : p.need P c = .these hp ls)
    (hhp : m.hashpower ≠ hp) : c.step P m p = (.at .snapshot, m) := by
  have hone : ∀ i, m.lockOne P hp i = none := fun i => if_pos hhp
  have htwo : ∀ i j, m.lockTwo P hp i j = none := fun i j => if_pos hhp
  have hthree : ∀ i j k, m.lockThree P hp i j k = none := fun i j k => if_pos hhp
  cases p with
  | snapshot => cases hneed
  | locking hp' =>
      obtain ⟨rfl, -⟩ := Need.these.inj hneed
      rw [Call.step]
      simp only [htwo]
  | searching hp' q =>
      change q.need P hp' = .these hp ls at hneed
      rw [Call.step, Call.searchStep]
      cases hpending : q.pending with
      | nil =>
          rw [BQueue.need, hpending] at hneed
          cases hneed
      | cons x pending =>
          rw [BQueue.need, hpending] at hneed
          obtain ⟨rfl, -⟩ := Need.these.inj hneed
          simp only [hone]
  | tracing hp' path bucket slot rest =>
      obtain ⟨rfl, -⟩ := Need.these.inj hneed
      rw [Call.step, traceStep]
      simp only [hone]
  | moving hp' path bucket slot =>
      rw [Place.need] at hneed
      rw [Call.step]
      cases hval : c.insert with
      | none => rfl
      | some val =>
          rw [hval, Option.isSome_some, if_pos rfl] at hneed
          rcases path with _ | ⟨last, _ | ⟨next, path⟩⟩
          · obtain ⟨rfl, -⟩ := Need.these.inj hneed
            simp only [Call.moveStep, htwo]
          · obtain ⟨rfl, -⟩ := Need.these.inj hneed
            simp only [Call.moveStep, hthree]
          · obtain ⟨rfl, -⟩ := Need.these.inj hneed
            simp only [Call.moveStep, htwo]
  | doubling hp' => cases hneed

/-- An act is one of the thread's call, or about locks only. -/
theorem Locker.Act.coarse {t t' : Locker K V} {m m' : LockState K V}
    {ev : List (CallEvent K V)} (h : Locker.Act P t m ev t' m') :
    (ev = [] ∧ t'.caller = t.caller ∧ m'.map = m.map) ∨
      Caller.Act P t.caller m.map ev t'.caller m'.map := by
  cases h with
  | call c => exact .inr (.call c)
  | free _ h => exact .inr h
  | changed hneed hhp => exact .inr (.go (Call.step_changed hneed hhp))
  | work _ h => exact .inr h
  | double _ h => exact .inr h
  | _ => exact .inl ⟨rfl, rfl, rfl⟩

section
variable {t t' : Locker K V} {m m' : LockState K V} {ev : List (CallEvent K V)}

theorem Locker.work_act {t : Caller K V} {held : List (Nat × Nat)} {phase : Phase}
    (h : Locker.work P t held phase m = some (ev, t', m')) :
    ∃ t'' map, Caller.Act P t m.map ev t'' map ∧ t' = ⟨t'', held, phase⟩ ∧
      m' = { m with map := map } := by
  rw [Locker.work] at h
  split at h
  next ev' t'' map hexec =>
    cases h
    exact ⟨t'', map, OpAct.exec_act _ _ _ _ _ _ hexec, rfl, rfl⟩
  next => cases h

omit [DecidableEq K] in
theorem Locker.take_eq {t : Caller K V} {held : List (Nat × Nat)} {phase : Phase} {x : Nat × Nat}
    (h : Locker.take t held x phase m = some (ev, t', m')) :
    m.locked x = false ∧ ev = [] ∧ t' = ⟨t, x :: held, phase⟩ ∧ m' = m.lock [x] := by
  rw [Locker.take] at h
  split at h
  next hfree =>
    cases h
    exact ⟨hfree, rfl, rfl, rfl⟩
  next => cases h

theorem Locker.sweep_act {t : Caller K V} {held : List (Nat × Nat)} {k l : Nat}
    (h : Locker.sweep P t held k l m = some (ev, t', m')) :
    Locker.Act P ⟨t, held, .sweeping k l⟩ m ev t' m' := by
  rw [Locker.sweep] at h
  split at h
  next n hsize =>
    split at h
    next hl =>
      obtain ⟨hfree, rfl, rfl, rfl⟩ := Locker.take_eq h
      exact .lockSweep hsize hl hfree
    next hl =>
      cases h
      exact .nextArray hsize (Nat.le_of_not_lt hl)
  next hend =>
    rw [Locker.resize.eq_def] at h
    split at h
    next c hp =>
      split at h
      next hnew =>
        cases h
        exact .keepArrays hend hnew
      next n hnew =>
        cases h
        exact .addArray hend hnew
    next => cases h

theorem Locker.Act.unlockFirst {t : Caller K V} {held : List (Nat × Nat)} {x : Nat × Nat} :
    Locker.Act P ⟨t, x :: held, .releasing⟩ m [] ⟨t, held, .releasing⟩ (m.unlock x) := by
  have hunlock : Locker.Act P ⟨t, x :: held, .releasing⟩ m []
      ⟨t, (x :: held).erase x, .releasing⟩ (m.unlock x) := .unlock List.mem_cons_self
  rwa [List.erase_cons_head] at hunlock

/-- **What is scheduled** is done. -/
theorem Locker.exec_act (t : Locker K V) (m : LockState K V) (k : OpMove (Call K V))
    (ev : List (CallEvent K V)) (t' : Locker K V) (m' : LockState K V)
    (h : Locker.exec P t m k = some (ev, t', m')) : Locker.Act P t m ev t' m' := by
  cases k with
  | call c =>
      rw [Locker.exec] at h
      split at h
      next hidle =>
        obtain rfl := Locker.eq_of_isIdle hidle
        cases h
        exact .call c
      next => cases h
  | go =>
      rw [Locker.exec, Locker.go.eq_def] at h
      split at h
      next c p m =>
        rw [Locker.begin] at h
        split at h
        next hneed =>
          obtain ⟨t'', map, hact, rfl, rfl⟩ := Locker.work_act h
          exact .free hneed hact
        next hneed =>
          cases h
          exact .current hneed
        next hneed =>
          cases h
          exact .lockAll hneed
      next =>
        obtain ⟨hfree, rfl, rfl, rfl⟩ := Locker.take_eq h
        exact .lockFirst hfree
      next =>
        rw [Locker.recheck] at h
        split at h
        next hneed =>
          split at h
          next hhp =>
            cases h
            exact .same hneed hhp
          next hhp =>
            cases h
            exact .changed hneed hhp
        next => cases h
      next =>
        obtain ⟨hfree, rfl, rfl, rfl⟩ := Locker.take_eq h
        exact .lockNext hfree
      next =>
        obtain ⟨t'', map, hact, rfl, rfl⟩ := Locker.work_act h
        exact .work rfl hact
      next => exact Locker.sweep_act h
      next =>
        obtain ⟨t'', map, hact, rfl, rfl⟩ := Locker.work_act h
        exact .double rfl hact
      next =>
        cases h
        exact .unlockFirst
      next =>
        cases h
        exact .done
      next => cases h

end

variable {ι : Type} [DecidableEq ι]

/-- Threads that share a map and its locks. -/
abbrev Lockers (ι K V : Type) := Interleaved ι (Locker K V) (LockState K V)

/-- Some thread acts. -/
abbrev Locking (P : Params K) :
    Lockers ι K V → List (ι × CallEvent K V) → Lockers ι K V → Prop :=
  Interleaved.Step (Locker.Act P)

/-- A new map with space for `n` elements, before the first call. -/
def Lockers.start (P : Params K) (ι : Type) (n : Nat) : Lockers ι K V :=
  ⟨fun _ => ⟨none, [], .idle⟩, ⟨.new P n, [(CuckooMap.new P n : CuckooMap K V).numLocks],
    fun _ => false⟩⟩

/-- The threads a schedule leads to, from a new map on, and what they have seen. -/
def Lockers.play (P : Params K) (n : Nat) (ks : List (ι × OpMove (Call K V))) :
    Lockers ι K V × List (ι × CallEvent K V) :=
  Interleaved.play (Locker.exec P) (Lockers.start P ι n) ks

theorem Lockers.play_run (n : Nat) (ks : List (ι × OpMove (Call K V))) :
    Run (Locking P) (.start P ι n) (Lockers.play P n ks).2 (Lockers.play P n ks).1 :=
  Interleaved.play_run Locker.exec_act _ ks

/-- The threads with what they do about locks left out. -/
def Lockers.callers (S : Lockers ι K V) : Callers ι K V := S.map Locker.caller LockState.map

/-- **Taking locks one at a time**: with the acts left out that are about locks only, a run is one
of threads that make their steps at once, with the same events. That they may be taken as made at
once is the matter of `MultiportNetwork.Cuckoo.Protect`. -/
theorem locks_refine {n : Nat} {S : Lockers ι K V} {log : List (ι × CallEvent K V)}
    (hr : Run (Locking P) (.start P ι n) log S) :
    Run (Concurrent P) (.start P ι n) log S.callers :=
  Interleaved.refines Locker.Act.coarse hr

end Libcuckoo
