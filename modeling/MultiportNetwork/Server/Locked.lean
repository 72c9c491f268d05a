import MultiportNetwork.Lib.Layers
import MultiportNetwork.Cuckoo.Mutex
import MultiportNetwork.Server.Table

/-!
# MultiportNetwork.Server.Locked

The server down to the single locks of its `hashTable`: a connection that is in an operation of
the map takes locks one at a time, waits for those that others have, and expands the table
when no one else uses it. All that it does is what a server with an atomic table may do
(`locks_serve`), and its connections never all wait for each other (`server_goes_on`).
-/

namespace MultiportNetwork

open Libcuckoo

section
variable {ι : Type} [DecidableEq ι] (P : Params Bytes)

/-- The server with the locks of its map. -/
abbrev LockServer (ι : Type) :=
  Interleaved ι (Slot × Locker Bytes Bytes) (Shared (LockState Bytes Bytes) Bool)

/-- Some connection makes a step of its own, or one in an operation of the map. -/
abbrev LockServed : LockServer ι → List (ι × Event) → LockServer ι → Prop :=
  Interleaved.Step (tableUser.Via ⟨none, [], .idle⟩ (Locker.Act P))

/-- The server with a new map that has space for `n` elements. -/
def Server.withLocks (n : Nat) (S : Server ι) : LockServer ι :=
  ⟨fun i => (S.parts i, ⟨none, [], .idle⟩),
    ⟨(Lockers.start P ι n).shared, S.shared.exited, false⟩⟩

/-- The server with its table at `t`, and operations under way not begun. -/
def LockServer.atomic (S : LockServer ι) (t : HashTable) : Server ι :=
  ⟨fun i => (S.parts i).1, ⟨t, S.shared.rest⟩⟩

variable {P}

/-- The server a schedule leads to and its log. -/
def LockServer.play (P : Params Bytes) (S : LockServer ι) (ks : List (ι × UserMove SlotMove)) :
    LockServer ι × List (ι × Event) :=
  Interleaved.play (tableUser.viaExec Slot.ownExec ⟨none, [], .idle⟩ Locker.isIdle
    (fun c => ⟨some (c, .snapshot), [], .idle⟩) (Locker.go P)) S ks

theorem LockServer.play_run (S : LockServer ι) (ks : List (ι × UserMove SlotMove)) :
    Run (LockServed P) S (S.play P ks).2 (S.play P ks).1 := by
  refine Interleaved.play_run (User.viaExec_via Slot.ownExec_act (fun t ht => ?_)
    (fun c m => .call c) fun t m ev t' m' hgo => Locker.exec_act t m .go ev t' m' hgo) S ks
  exact Locker.eq_of_isIdle ht

/-- A GET comes to wait for the lock that a SET has. -/
def getBehindSet : List (Bool × UserMove SlotMove) :=
  [.own .call, .own (.ret 42), .own (.ret 0), .own (.ret 0), .use, .use, .use, .use, .use].map
      (fun k => (true, k)) ++
    [.own .call, .own (.ret 13), .own (.ret 0), .own (.ret 0), .use, .use, .use].map
      fun k => (false, k)

/-- The server with a SET and a GET for it. -/
def setAndGet (ks : List (Bool × UserMove SlotMove)) : LockServer Bool × List (Bool × Event) :=
  ((Server.accepted twoStreams).withLocks sumHash 1).play sumHash ks

theorem locker_coarsens : Coarsens Place.snapshot (Libcuckoo.Call.step P) ⟨none, [], .idle⟩
    (Locker.Act P : Locker Bytes Bytes → _) Locker.caller LockState.map :=
  ⟨rfl, Locker.Act.coarse⟩

variable {streams : ι → Bytes} {S₀ : Server ι} {n : Nat} {S : LockServer ι}
  {log : List (ι × Event)}

/-- What the threads do about the map and its locks is a run of threads that use a map. -/
theorem LockServer.lockers (hlive : S.shared.aborted = false)
    (hr : Run (LockServed P) (S₀.withLocks P n) log S) :
    ∃ log', Run (Locking P) (.start P ι n) log' S.threads :=
  User.Via.inner_run hlive hr

/-- **The map serves with its locks.** Every run of the server down to single locks is one of
the server whose table is atomic, with the same events; the map stands for that table, what
connections see of it is a store, and no two of them work on a bucket at the same time. -/
theorem locks_serve (h : ServerInit streams S₀)
    (hr : Run (LockServed P) (S₀.withLocks P n) log S) :
    (∃ t : HashTable, Run Served S₀ log (S.atomic t) ∧
      Represents (S.shared.object.map.settled P) t ∧
      StoreSemantics streams log (S.atomic t)) ∧
    (S.shared.aborted = false → Guarded P S.threads) := by
  refine ⟨?_, fun hlive => ?_⟩
  · obtain ⟨hrun, -⟩ := User.Via.refines locker_coarsens (fun _ => rfl) hr
    exact map_serves h hrun
  · obtain ⟨log', hrun⟩ := LockServer.lockers hlive hr
    exact locks_exclusive hrun

theorem locks_serve_setAndGet :
    let run := setAndGet (getBehindSet ++ List.replicate 3 (true, .use) ++
      List.replicate 3 (false, .use))
    (false, .find [107] (some [1, 2, 3, 4, 5, 6, 7, 8])) ∈ run.2 ∧
      (∃ t : HashTable, Run Served (.accepted twoStreams) run.2 (run.1.atomic t) ∧
        Represents (run.1.shared.object.map.settled sumHash) t ∧
        StoreSemantics twoStreams run.2 (run.1.atomic t)) ∧
      (run.1.shared.aborted = false → Guarded sumHash run.1.threads) :=
  ⟨by decide +kernel, locks_serve (Server.init_accepted twoStreams) (LockServer.play_run _ _)⟩

/-- **No deadlock.** As long as the process lives, and some connection is in an operation of the
map, or has locks of it to release, some such connection can go on. -/
theorem server_goes_on {i : ι} (hr : Run (LockServed P) (S₀.withLocks P n) log S)
    (halive : S.shared.rest = false) (hlive : S.shared.aborted = false)
    (hi : (S.parts i).2.caller.isSome ∨ (S.parts i).2.phase ≠ .idle) :
    ∃ j, ((S.parts j).2.caller.isSome ∨ (S.parts j).2.phase ≠ .idle) ∧
      ∃ ev p' m', tableUser.Via ⟨none, [], .idle⟩ (Locker.Act P) (S.parts j) S.shared ev p' m' := by
  obtain ⟨log', hrun⟩ := LockServer.lockers hlive hr
  obtain ⟨j, hbusy, ev, t', L', hact⟩ := locks_no_deadlock hrun hi
  refine ⟨j, hbusy, ?_⟩
  have hseen := hact.seen hbusy
  change Locker.Act P (S.parts j).2 S.shared.object ev t' L' at hact
  generalize S.parts j = q at hact
  obtain ⟨p, t⟩ := q
  generalize S.shared = m at hact halive hlive
  obtain ⟨m, b, aborted⟩ := m
  obtain rfl : b = false := halive
  obtain rfl : aborted = false := hlive
  rcases hseen with rfl | ⟨c, r, rfl⟩ | ⟨c, e, rfl⟩
  · exact ⟨_, _, _, .silent rfl hact⟩
  · exact ⟨_, _, _, .ret rfl hact⟩
  · exact ⟨_, _, _, .throw rfl hact⟩

theorem server_goes_on_setAndGet :
    ((setAndGet getBehindSet).1.parts false).2.wants (setAndGet getBehindSet).1.shared.object =
        some (0, 0) ∧
      (setAndGet getBehindSet).1.shared.object.locked (0, 0) = true ∧
      ∃ j, (((setAndGet getBehindSet).1.parts j).2.caller.isSome ∨
          ((setAndGet getBehindSet).1.parts j).2.phase ≠ .idle) ∧
        ∃ ev p' m', tableUser.Via ⟨none, [], .idle⟩ (Locker.Act sumHash)
          ((setAndGet getBehindSet).1.parts j) (setAndGet getBehindSet).1.shared ev p' m' :=
  ⟨by decide +kernel, by decide +kernel,
    server_goes_on (LockServer.play_run _ _) (by decide +kernel) (by decide +kernel) (i := false)
      (.inl (by decide +kernel))⟩

end

end MultiportNetwork
