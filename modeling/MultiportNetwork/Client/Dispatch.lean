import MultiportNetwork.Client.MicroTest
import MultiportNetwork.Lib.Interleave
import Mathlib.Data.List.Count
import Mathlib.Data.List.Nodup

/-!
# MultiportNetwork.Client.Dispatch

`data_dispatch` of `micro_test`. The threads claim the packages of the database in chunks,
with `g_mutex` held, and hand each package to the connection of its port, which writes when
`SEND_BATCH` of them have been gathered and once more at the end.

The claims of all threads, in the order they are made, read the database front to back, once
a round (`Claims`). What a connection has written and still holds is what its thread has
claimed and handed to it (`Dispatcher.Ok`).
-/

namespace MultiportNetwork.MicroTest

open Client

/-! ### The threads -/

/-- What the threads work on: `KV_NUM` packages in `my_database`, each of which names one of
the `port_num` ports, with `SEND_BATCH` and `ROUND_SET`. -/
structure Load where
  kvNum : Nat
  portNum : Nat
  sendBatch : Nat
  roundSet : Nat
  myDatabase : Memory UInt8
  ports : ∀ k < kvNum, (myDatabase (k * packageLen + 6)).toNat < portNum

/-- `WORK_OP_NUM` and `WORK_LEN`. -/
def Load.workOpNum (L : Load) : Nat := L.sendBatch * L.portNum
def Load.workLen (L : Load) : Nat := L.workOpNum * packageLen

/-- `GET_PACKAGE`, as an offset into `my_database`. -/
def getPackage (buf i : Nat) : Nat := buf + i * packageLen

/-- `HEAD_PRE_HASH` of a package. -/
def Load.preHash (L : Load) (package : Nat) : Nat := (L.myDatabase (package + 6)).toNat

/-- The bytes of a package. -/
def Load.packageBytes (L : Load) (package : Nat) : Bytes := L.myDatabase.load package packageLen

/-- `Connection`, connected to port `con_id`. -/
structure Connection where
  conId : Nat
  sendBuf : Memory UInt8
  offset : Nat
  opCount : Nat
  sendBytes : Nat

/-- `Connection::Connection` and `Connection::init`. -/
def Connection.init (conId : Nat) : Connection := ⟨conId, fun _ => 0, 0, 0, 0⟩

/-- What a thread does that can be seen. -/
inductive DispatchEvent
  /-- The packages of a chunk are claimed: where it starts, and how many. -/
  | claim (workBuf num : Nat)
  /-- A copy to `send_buf`. -/
  | memcpy (conId offset len : Nat)
  /-- A `write`, which takes everything. -/
  | write (conId : Nat) (bytes : Bytes)
  deriving Repr, DecidableEq

/-- `Connection::clean`. -/
def Connection.clean (c : Connection) : List DispatchEvent × Connection :=
  ([.write c.conId (c.sendBuf.load 0 c.offset)],
    { c with sendBytes := c.sendBytes + c.offset, opCount := 0, offset := 0 })

/-- `Connection::fetch_and_send`. -/
def Connection.fetchAndSend (c : Connection) (sendBatch : Nat) (p : Bytes) :
    List DispatchEvent × Connection :=
  let copied : Connection :=
    { c with
      sendBuf := c.sendBuf.store c.offset p
      offset := c.offset + p.length
      opCount := c.opCount + 1 }
  if sendBatch ≤ copied.opCount then
    -- as in `clean`
    ([.memcpy c.conId c.offset p.length, .write c.conId (copied.sendBuf.load 0 copied.offset)],
      { copied with sendBytes := copied.sendBytes + copied.offset, opCount := 0, offset := 0 })
  else ([.memcpy c.conId c.offset p.length], copied)

/-- `g_offset`, `g_count`, `myround` and `stop`. -/
structure Globals where
  gOffset : Nat
  gCount : Nat
  myround : Int
  stop : Bool
  deriving Repr, DecidableEq

/-- Where a thread is in `data_dispatch`. What it does with `g_mutex` held is one step, and
so is every call of `fetch_and_send` and `clean`. -/
inductive Place
  /-- At `while(!stop)`. -/
  | looping
  /-- Before it takes the lock. -/
  | locking
  /-- In the loop over the packages of a chunk. -/
  | sending (i : Nat)
  /-- In the loop of `clean` calls. -/
  | cleaning (i : Nat)
  /-- Behind it. -/
  | finished
  deriving Repr, DecidableEq

/-- The locals of `data_dispatch`; `ended` is `end`. -/
structure Dispatcher where
  cons : Nat → Connection
  workBuf : Nat
  ended : Bool
  localCount : Nat
  place : Place

/-- The packages a thread sends of the chunk it has claimed. -/
def Dispatcher.workNum (L : Load) (d : Dispatcher) : Nat :=
  if d.ended then L.kvNum - d.localCount else L.workOpNum

/-- `WORK_OP_NUM >= KV_NUM - g_count`. The difference is unsigned: it would be huge if
`g_count` were the larger one. -/
def Load.lastChunk (L : Load) (g : Globals) : Bool :=
  g.gCount ≤ L.kvNum && L.kvNum - g.gCount ≤ L.workOpNum

/-- What is done with `g_mutex` held. -/
def Load.claim (L : Load) (d : Dispatcher) (g : Globals) :
    List DispatchEvent × Dispatcher × Globals :=
  if g.stop then
    -- other thread changed the stop signal before lock
    ([], { d with place := .cleaning 0 }, g)
  else
    let d := { d with workBuf := g.gOffset, place := .sending 0 }
    if L.lastChunk g then
      let d := { d with ended := true, localCount := g.gCount }
      let g := { g with myround := g.myround - 1 }
      ([.claim d.workBuf (d.workNum L)], d,
        if g.myround ≤ 0 then { g with stop := true }
        else { g with stop := false, gCount := 0, gOffset := 0 })
    else
      let d := { d with ended := false }
      ([.claim d.workBuf (d.workNum L)], d,
        { g with gOffset := g.gOffset + L.workLen, gCount := g.gCount + L.workOpNum })

/-- `data_dispatch`, step by step. -/
def Load.dataDispatch (L : Load) (d : Dispatcher) (g : Globals) :
    Option (List DispatchEvent × Dispatcher × Globals) :=
  match d.place with
  | .looping => some ([], { d with place := if g.stop then .cleaning 0 else .locking }, g)
  | .locking => some (L.claim d g)
  | .sending i =>
    if i < d.workNum L then
      let package := getPackage d.workBuf i
      let preHash := L.preHash package
      let (ev, con) := (d.cons preHash).fetchAndSend L.sendBatch (L.packageBytes package)
      some (ev, { d with cons := Function.update d.cons preHash con, place := .sending (i + 1) }, g)
    else some ([], { d with place := .looping }, g)
  | .cleaning i =>
    if i < L.portNum then
      let (ev, con) := (d.cons i).clean
      some (ev, { d with cons := Function.update d.cons i con, place := .cleaning (i + 1) }, g)
    else some ([], { d with place := .finished }, g)
  | .finished => none

/-- A thread makes a step. -/
def Load.Act (L : Load) (d : Dispatcher) (g : Globals) (ev : List DispatchEvent)
    (d' : Dispatcher) (g' : Globals) : Prop :=
  L.dataDispatch d g = some (ev, d', g')

/-- All threads. -/
abbrev Dispatch (T : Nat) := Interleaved (Fin T) Dispatcher Globals

/-- The threads once their connections are established. -/
def Load.start (L : Load) (T : Nat) : Dispatch T where
  parts := fun _ => ⟨Connection.init, 0, false, 0, .looping⟩
  shared := ⟨0, 0, L.roundSet, false⟩

/-- A thread has left the loop. -/
def Dispatcher.Left (d : Dispatcher) : Prop := (∃ i, d.place = .cleaning i) ∨ d.place = .finished

/-- The packages an event claims. -/
def DispatchEvent.claims : DispatchEvent → List Nat
  | .claim workBuf num => (List.range num).map (getPackage workBuf)
  | _ => []

/-- The packages claimed, in order. -/
def claimed (ev : List DispatchEvent) : List Nat := ev.flatMap DispatchEvent.claims

/-- The bytes an event writes to connection `p`. -/
def DispatchEvent.written (p : Nat) : DispatchEvent → Bytes
  | .write conId bytes => if conId = p then bytes else []
  | _ => []

/-- The bytes written to connection `p`. -/
def written (p : Nat) (ev : List DispatchEvent) : Bytes := ev.flatMap (DispatchEvent.written p)

@[simp] theorem claimed_append (a b : List DispatchEvent) :
    claimed (a ++ b) = claimed a ++ claimed b := by
  simp [claimed]

@[simp] theorem written_append (p : Nat) (a b : List DispatchEvent) :
    written p (a ++ b) = written p a ++ written p b := by
  simp [written]

/-- **What `con_database` leaves can be worked on**, by any number of threads. -/
theorem Settings.exists_load {S : Settings} {inst : Instructs} {array : List UInt64}
    {db : Memory UInt8} (hport : 1 ≤ S.portNum) (hbuild : S.conDatabase inst array = .ok db)
    (sendBatch roundSet : Nat) :
    ∃ L : Load, L.kvNum = array.length ∧ L.portNum = S.portNum ∧ L.sendBatch = sendBatch ∧
      L.roundSet = roundSet ∧ L.myDatabase = db :=
  ⟨⟨_, _, _, _, db, Settings.conDatabase_ports hport hbuild⟩, rfl, rfl, rfl, rfl, rfl⟩

variable {L : Load} {d d' : Dispatcher} {g g' : Globals} {ev tr : List DispatchEvent}
  {c : Connection}

/-! ### What a step can do -/

/-- The steps of a thread, with their guards. -/
inductive Load.Moves (L : Load) :
    Dispatcher → Globals → List DispatchEvent → Dispatcher → Globals → Prop
  | enter {d : Dispatcher} {g : Globals} (hp : d.place = .looping) (hs : g.stop = false) :
      Moves L d g [] { d with place := .locking } g
  | leave {d : Dispatcher} {g : Globals} (hp : d.place = .looping ∨ d.place = .locking)
      (hs : g.stop = true) : Moves L d g [] { d with place := .cleaning 0 } g
  | chunk {d : Dispatcher} {g : Globals} (hp : d.place = .locking) (hs : g.stop = false)
      (hn : L.lastChunk g = false) :
      Moves L d g [.claim g.gOffset L.workOpNum]
        { d with workBuf := g.gOffset, place := .sending 0, ended := false }
        { g with gOffset := g.gOffset + L.workLen, gCount := g.gCount + L.workOpNum }
  | lastChunk {d : Dispatcher} {g : Globals} (hp : d.place = .locking) (hs : g.stop = false)
      (hn : L.lastChunk g = true) (hr : 0 < g.myround - 1) :
      Moves L d g [.claim g.gOffset (L.kvNum - g.gCount)]
        { d with
          workBuf := g.gOffset, place := .sending 0, ended := true, localCount := g.gCount }
        { gOffset := 0, gCount := 0, myround := g.myround - 1, stop := false }
  | lastRound {d : Dispatcher} {g : Globals} (hp : d.place = .locking) (hs : g.stop = false)
      (hn : L.lastChunk g = true) (hr : g.myround - 1 ≤ 0) :
      Moves L d g [.claim g.gOffset (L.kvNum - g.gCount)]
        { d with
          workBuf := g.gOffset, place := .sending 0, ended := true, localCount := g.gCount }
        { g with myround := g.myround - 1, stop := true }
  | send {d : Dispatcher} {g : Globals} {i package : Nat} (hp : d.place = .sending i)
      (hi : i < d.workNum L) (hpackage : package = getPackage d.workBuf i) :
      Moves L d g
        ((d.cons (L.preHash package)).fetchAndSend L.sendBatch (L.packageBytes package)).1
        { d with
          cons := Function.update d.cons (L.preHash package)
            ((d.cons (L.preHash package)).fetchAndSend L.sendBatch (L.packageBytes package)).2
          place := .sending (i + 1) } g
  | sent {d : Dispatcher} {g : Globals} {i : Nat} (hp : d.place = .sending i)
      (hi : d.workNum L ≤ i) : Moves L d g [] { d with place := .looping } g
  | clean {d : Dispatcher} {g : Globals} {i : Nat} (hp : d.place = .cleaning i)
      (hi : i < L.portNum) :
      Moves L d g (d.cons i).clean.1
        { d with
          cons := Function.update d.cons i (d.cons i).clean.2, place := .cleaning (i + 1) } g
  | cleaned {d : Dispatcher} {g : Globals} {i : Nat} (hp : d.place = .cleaning i)
      (hi : L.portNum ≤ i) : Moves L d g [] { d with place := .finished } g

/-- **A step is one of these.** -/
theorem Load.Act.moves (h : L.Act d g ev d' g') : L.Moves d g ev d' g' := by
  unfold Load.Act Load.dataDispatch at h
  split at h
  next hp =>
    cases h
    cases hs : g.stop with
    | true => exact .leave (.inl hp) hs
    | false => exact .enter hp hs
  next hp =>
    unfold Load.claim at h
    split at h
    next hs =>
      cases h
      exact .leave (.inr hp) hs
    next hs =>
      have hs' : g.stop = false := Bool.eq_false_iff.mpr hs
      dsimp only at h
      split at h
      next hn =>
        by_cases hr : g.myround - 1 ≤ 0
        · rw [if_pos hr] at h
          cases h
          exact .lastRound hp hs' hn hr
        · rw [if_neg hr] at h
          cases h
          exact .lastChunk hp hs' hn (Int.not_le.mp hr)
      next hn =>
        cases h
        exact .chunk hp hs' (Bool.eq_false_iff.mpr hn)
  next i hp =>
    split at h
    next hi =>
      cases h
      exact .send hp hi rfl
    next hi =>
      cases h
      exact .sent hp (Nat.le_of_not_lt hi)
  next i hp =>
    split at h
    next hi =>
      cases h
      exact .clean hp hi
    next hi =>
      cases h
      exact .cleaned hp (Nat.le_of_not_lt hi)
  next => cases h

/-! ### What a connection holds -/

/-- What has been handed to a connection and not been written. -/
def Connection.held (c : Connection) : Bytes := c.sendBuf.load 0 c.offset

/-- The packages in `send_buf` are fewer than would be written. -/
structure Connection.Ok (sendBatch : Nat) (c : Connection) : Prop where
  offset : c.offset = c.opCount * packageLen
  opCount : c.opCount < sendBatch

/-- What one call may do for a connection that is handed `p`: nothing is claimed, all copies
are within `SEND_BATCH` packages, all writes go to this connection, and what is written and
held then is what was held and handed over. -/
structure Handed (sendBatch : Nat) (c : Connection) (p : Bytes) (ev : List DispatchEvent)
    (c' : Connection) : Prop where
  ok : c'.Ok sendBatch
  conId : c'.conId = c.conId
  claims : ∀ workBuf num, .claim workBuf num ∉ ev
  copies : ∀ i off len, .memcpy i off len ∈ ev → off + len ≤ sendBatch * packageLen
  writes : ∀ i bytes, .write i bytes ∈ ev → i = c.conId
  order : written c.conId ev ++ c'.held = c.held ++ p

/-- One more package fits. -/
theorem Connection.Ok.room {sendBatch : Nat} (h : c.Ok sendBatch) :
    c.offset + packageLen ≤ sendBatch * packageLen := by
  have hle : (c.opCount + 1) * packageLen ≤ sendBatch * packageLen :=
    Nat.mul_le_mul_right packageLen h.opCount
  rwa [Nat.add_mul, Nat.one_mul, ← h.offset] at hle

theorem Connection.Ok.fetchAndSend {sendBatch : Nat} {p : Bytes} (h : c.Ok sendBatch)
    (hp : p.length = packageLen) :
    Handed sendBatch c p (c.fetchAndSend sendBatch p).1 (c.fetchAndSend sendBatch p).2 := by
  have hload : (c.sendBuf.store c.offset p).load 0 (c.offset + p.length) = c.held ++ p := by
    have hstore := Memory.load_store_append c.sendBuf 0 c.offset p
    rwa [Nat.zero_add] at hstore
  have hcopy : ∀ {i off len}, i = c.conId ∧ off = c.offset ∧ len = p.length →
      off + len ≤ sendBatch * packageLen := by
    rintro i off len ⟨-, rfl, rfl⟩
    rw [hp]
    exact h.room
  unfold Connection.fetchAndSend
  dsimp only
  split
  next hfull =>
    refine ⟨⟨by simp, Nat.lt_of_le_of_lt (Nat.zero_le _) h.opCount⟩, rfl, ?_, ?_, ?_, ?_⟩
    · simp
    · exact fun i off len hmem => hcopy (by simpa using hmem)
    · simp
    · simp [written, DispatchEvent.written, Connection.held, hload]
  next hmore =>
    refine ⟨⟨?_, Nat.not_le.mp hmore⟩, rfl, ?_, ?_, ?_, ?_⟩
    · rw [h.offset, hp, Nat.add_mul, Nat.one_mul]
    · simp
    · exact fun i off len hmem => hcopy (by simpa using hmem)
    · simp
    · simpa [written, DispatchEvent.written, Connection.held] using hload

theorem Connection.Ok.clean {sendBatch : Nat} (h : c.Ok sendBatch) :
    Handed sendBatch c [] c.clean.1 c.clean.2 ∧ c.clean.2.offset = 0 := by
  have hpos := Nat.lt_of_le_of_lt (Nat.zero_le _) h.opCount
  refine ⟨⟨⟨by simp [Connection.clean], hpos⟩, rfl, ?_, ?_, ?_, ?_⟩, rfl⟩
  · simp [Connection.clean]
  · simp [Connection.clean]
  · simp [Connection.clean]
  · simp [Connection.clean, written, DispatchEvent.written, Connection.held]

/-! ### One thread -/

/-- The packages a thread has claimed and has still to hand to their connections. -/
def Dispatcher.unsent (L : Load) (d : Dispatcher) : List Nat :=
  match d.place with
  | .sending i => ((List.range (d.workNum L)).map (getPackage d.workBuf)).drop i
  | _ => []

/-- The connections that have been cleaned. -/
def Dispatcher.cleaned (L : Load) (d : Dispatcher) : Nat :=
  match d.place with
  | .cleaning i => i
  | .finished => L.portNum
  | _ => 0

/-- The packages that go to port `p`. -/
def Load.packagesFor (L : Load) (p : Nat) (packages : List Nat) : Bytes :=
  (packages.filter (L.preHash · = p)).flatMap L.packageBytes

/-- A package of the database. -/
def Load.Holds (L : Load) (package : Nat) : Prop := ∃ k < L.kvNum, package = k * packageLen

theorem Load.Holds.preHash_lt {package : Nat} (h : L.Holds package) :
    L.preHash package < L.portNum := by
  obtain ⟨k, hk, rfl⟩ := h
  exact L.ports k hk

/-- A thread that has done `tr`: each connection has written, and holds, the packages of its
port among those that have been claimed and been handed over, in this order. -/
structure Dispatcher.Ok (L : Load) (tr : List DispatchEvent) (d : Dispatcher) : Prop where
  conId : ∀ p, (d.cons p).conId = p
  cons : ∀ p, (d.cons p).Ok L.sendBatch
  ranges : ∀ workBuf num, .claim workBuf num ∈ tr →
    workBuf + num * packageLen ≤ L.kvNum * packageLen
  claims : ∀ package ∈ claimed tr, L.Holds package
  copies : ∀ i off len, .memcpy i off len ∈ tr → off + len ≤ L.sendBatch * packageLen
  writes : ∀ i bytes, .write i bytes ∈ tr → i < L.portNum
  order : ∃ handed, claimed tr = handed ++ d.unsent L ∧
    ∀ p, written p tr ++ (d.cons p).held = L.packagesFor p handed
  empty : ∀ p < d.cleaned L, (d.cons p).offset = 0

theorem Handed.claimed_nil {sendBatch : Nat} {bytes : Bytes} {c' : Connection}
    (h : Handed sendBatch c bytes ev c') : claimed ev = [] := by
  refine List.flatMap_eq_nil_iff.mpr fun e he => ?_
  cases e with
  | claim workBuf num => exact absurd he (h.claims workBuf num)
  | memcpy | write => rfl

theorem Handed.written_of_ne {sendBatch p : Nat} {bytes : Bytes} {c' : Connection}
    (h : Handed sendBatch c bytes ev c') (hp : p ≠ c.conId) : written p ev = [] := by
  refine List.flatMap_eq_nil_iff.mpr fun e he => ?_
  cases e with
  | claim | memcpy => rfl
  | write i bytes =>
      obtain rfl := h.writes i bytes he
      exact if_neg (Ne.symm hp)

/-- A step that hands nothing to a connection. -/
theorem Dispatcher.Ok.stay (h : d.Ok L tr) (hcons : d'.cons = d.cons)
    (hunsent : d'.unsent L = d.unsent L) (hempty : ∀ p < d'.cleaned L, (d.cons p).offset = 0) :
    d'.Ok L (tr ++ []) := by
  obtain ⟨handed, hclaims, horder⟩ := h.order
  rw [List.append_nil]
  exact ⟨hcons ▸ h.conId, hcons ▸ h.cons, h.ranges, h.claims, h.copies, h.writes,
    ⟨handed, by rw [hunsent, hclaims], hcons ▸ horder⟩, hcons ▸ hempty⟩

/-- The counters, at every step. -/
structure Globals.Ok (L : Load) (g : Globals) : Prop where
  count : g.gCount ≤ L.kvNum
  offset : g.gOffset = g.gCount * packageLen

theorem getPackage_mul (k i : Nat) : getPackage (k * packageLen) i = (k + i) * packageLen := by
  rw [getPackage, Nat.add_mul]

/-- A claim of what is there. -/
theorem Dispatcher.Ok.claim {num : Nat} (h : d.Ok L tr) (hg : g.Ok L)
    (hnum : g.gCount + num ≤ L.kvNum) (hnone : d.unsent L = []) (hcons : d'.cons = d.cons)
    (hunsent : d'.unsent L = (List.range num).map (getPackage g.gOffset))
    (hcleaned : d'.cleaned L = 0) : d'.Ok L (tr ++ [.claim g.gOffset num]) := by
  obtain ⟨handed, hclaims, horder⟩ := h.order
  have hone : claimed [.claim g.gOffset num] = (List.range num).map (getPackage g.gOffset) := by
    simp [claimed, DispatchEvent.claims]
  have hfits : g.gOffset + num * packageLen ≤ L.kvNum * packageLen := by
    rw [hg.offset, ← Nat.add_mul]
    exact Nat.mul_le_mul_right packageLen hnum
  refine ⟨hcons ▸ h.conId, hcons ▸ h.cons, ?_, ?_, ?_, ?_, ⟨handed, ?_, ?_⟩, ?_⟩
  · intro workBuf n hmem
    rcases List.mem_append.mp hmem with hmem | hmem
    · exact h.ranges workBuf n hmem
    · obtain ⟨rfl, rfl⟩ : workBuf = g.gOffset ∧ n = num := by simpa using hmem
      exact hfits
  · intro package hmem
    rw [claimed_append, hone] at hmem
    rcases List.mem_append.mp hmem with hmem | hmem
    · exact h.claims package hmem
    · obtain ⟨i, hi, rfl⟩ := List.mem_map.mp hmem
      have hi' := List.mem_range.mp hi
      exact ⟨g.gCount + i, by omega, by rw [hg.offset, getPackage_mul]⟩
  · exact fun i off len hmem => h.copies i off len (by simpa using hmem)
  · exact fun i bytes hmem => h.writes i bytes (by simpa using hmem)
  · rw [claimed_append, hone, hclaims, hnone, List.append_nil, hunsent]
  · intro p
    rw [hcons, written_append]
    simpa [written, DispatchEvent.written] using horder p
  · intro p hp
    rw [hcleaned] at hp
    cases hp

/-- A call that hands `bytes` to the connection of port `p₀`. -/
theorem Dispatcher.Ok.hand {p₀ : Nat} {bytes : Bytes} {c' : Connection} {handed : List Nat}
    (handed' : List Nat) (h : d.Ok L tr) (hp₀ : p₀ < L.portNum)
    (hc : Handed L.sendBatch (d.cons p₀) bytes ev c')
    (horder : ∀ p, written p tr ++ (d.cons p).held = L.packagesFor p handed)
    (hself : L.packagesFor p₀ handed' = L.packagesFor p₀ handed ++ bytes)
    (hother : ∀ p, p ≠ p₀ → L.packagesFor p handed' = L.packagesFor p handed)
    (hclaims : claimed tr = handed' ++ d'.unsent L)
    (hcons : d'.cons = Function.update d.cons p₀ c')
    (hempty : ∀ p < d'.cleaned L, (d'.cons p).offset = 0) : d'.Ok L (tr ++ ev) := by
  have hsame : d'.cons p₀ = c' := by rw [hcons, Function.update_self]
  have hne : ∀ {p}, p ≠ p₀ → d'.cons p = d.cons p := fun hp => by
    rw [hcons, Function.update_of_ne hp]
  have hid := h.conId p₀
  have hall : claimed (tr ++ ev) = claimed tr := by
    rw [claimed_append, hc.claimed_nil, List.append_nil]
  refine ⟨fun p => ?_, fun p => ?_, ?_, ?_, ?_, ?_,
    ⟨handed', by rw [hall, hclaims], fun p => ?_⟩, hempty⟩
  · by_cases hp : p = p₀
    · subst hp
      rw [hsame, hc.conId, hid]
    · rw [hne hp, h.conId]
  · by_cases hp : p = p₀
    · subst hp
      exact hsame ▸ hc.ok
    · exact hne hp ▸ h.cons p
  · intro workBuf num hmem
    rcases List.mem_append.mp hmem with hmem | hmem
    · exact h.ranges workBuf num hmem
    · exact absurd hmem (hc.claims workBuf num)
  · rw [hall]
    exact h.claims
  · intro i off len hmem
    rcases List.mem_append.mp hmem with hmem | hmem
    · exact h.copies i off len hmem
    · exact hc.copies i off len hmem
  · intro i bytes hmem
    rcases List.mem_append.mp hmem with hmem | hmem
    · exact h.writes i bytes hmem
    · rw [hc.writes i bytes hmem, hid]
      exact hp₀
  · rw [written_append]
    by_cases hp : p = p₀
    · subst hp
      have hnew := hc.order
      rw [hid] at hnew
      rw [hsame, List.append_assoc, hnew, ← List.append_assoc, horder, hself]
    · have hquiet := hc.written_of_ne (p := p) (by rwa [hid])
      rw [hne hp, hquiet, List.append_nil, horder, hother p hp]

/-- A chunk that is not the last one leaves something. -/
theorem Globals.Ok.chunk (h : g.Ok L) (hn : L.lastChunk g = false) :
    g.gCount + L.workOpNum < L.kvNum := by
  have hcount := h.count
  simp only [Load.lastChunk, Bool.and_eq_false_iff, decide_eq_false_iff_not] at hn
  omega

theorem Globals.Ok.step (h : g.Ok L) (hm : L.Moves d g ev d' g') : g'.Ok L := by
  cases hm with
  | chunk hp hs hn =>
      refine ⟨Nat.le_of_lt (h.chunk hn), ?_⟩
      rw [Load.workLen, h.offset, Nat.add_mul]
  | lastChunk => exact ⟨Nat.zero_le _, (Nat.zero_mul _).symm⟩
  | lastRound => exact ⟨h.count, h.offset⟩
  | _ => exact h

/-- **One step of a thread.** -/
theorem Dispatcher.Ok.step (h : d.Ok L tr) (hg : g.Ok L) (hm : L.Moves d g ev d' g') :
    d'.Ok L (tr ++ ev) := by
  cases hm with
  | enter hp hs => exact h.stay rfl (by simp [unsent, hp]) (by simp [cleaned])
  | leave hp hs =>
      have hnone : d.unsent L = [] := by rcases hp with hp | hp <;> simp [unsent, hp]
      exact h.stay rfl hnone.symm (by simp [cleaned])
  | chunk hp hs hn =>
      exact h.claim hg (Nat.le_of_lt (hg.chunk hn)) (by simp [unsent, hp]) rfl
        (by simp [unsent, workNum]) rfl
  | lastChunk hp hs hn | lastRound hp hs hn =>
      have hall : g.gCount + (L.kvNum - g.gCount) ≤ L.kvNum :=
        Nat.le_of_eq (Nat.add_sub_cancel' hg.count)
      exact h.claim hg hall (by simp [unsent, hp]) rfl (by simp [unsent, workNum]) rfl
  | @send i package hp hi hpackage =>
      obtain ⟨handed, hclaims, horder⟩ := h.order
      have hnext : d.unsent L = package ::
          ((List.range (d.workNum L)).map (getPackage d.workBuf)).drop (i + 1) := by
        simp only [unsent, hp]
        rw [List.drop_eq_getElem_cons (by simpa using hi)]
        simp [hpackage]
      rw [hnext] at hclaims
      have hheld : L.Holds package := h.claims package (by simp [hclaims])
      have hlen : (L.packageBytes package).length = packageLen := Memory.length_load ..
      refine h.hand (handed ++ [package]) hheld.preHash_lt ((h.cons _).fetchAndSend hlen)
        horder ?_ (fun p hp => ?_) ?_ rfl ?_
      · simp [Load.packagesFor]
      · simp [Load.packagesFor, Ne.symm hp]
      · rw [hclaims]
        simp [unsent, workNum]
      · simp [cleaned]
  | sent hp hi =>
      refine h.stay rfl ?_ (by simp [cleaned])
      simp only [unsent, hp]
      exact (List.drop_eq_nil_of_le (by simpa using hi)).symm
  | @clean i hp hi =>
      obtain ⟨handed, hclaims, horder⟩ := h.order
      obtain ⟨hclean, hzero⟩ := (h.cons i).clean
      refine h.hand handed hi hclean horder (List.append_nil _).symm (fun _ _ => rfl) ?_ rfl ?_
      · rw [hclaims]
        simp [unsent, hp]
      · intro p hp'
        have hle : p ≤ i := Nat.le_of_lt_succ hp'
        by_cases hpi : p = i
        · subst hpi
          simpa using hzero
        · simp only [Function.update_of_ne hpi]
          exact h.empty p (by simpa [cleaned, hp] using Nat.lt_of_le_of_ne hle hpi)
  | cleaned hp hi =>
      refine h.stay rfl (by simp [unsent, hp]) fun p hp' => ?_
      exact h.empty p (by simpa [Dispatcher.cleaned, hp] using Nat.lt_of_lt_of_le hp' hi)

/-! ### All threads -/

/-- The first packages of the database. -/
def packagesUpTo (n : Nat) : List Nat := (List.range n).map (· * packageLen)

theorem packagesUpTo_add (a b : Nat) :
    packagesUpTo (a + b) =
      packagesUpTo a ++ (List.range b).map (getPackage (a * packageLen)) := by
  rw [packagesUpTo, List.range_add, List.map_append, List.map_map]
  congr 1
  exact List.map_congr_left fun i _ => (getPackage_mul a i).symm

/-- A package is once among them. -/
theorem count_packagesUpTo {k n : Nat} (h : k < n) :
    (packagesUpTo n).count (k * packageLen) = 1 := by
  have hinj : Function.Injective fun i : Nat => i * packageLen := fun i j hij =>
    Nat.eq_of_mul_eq_mul_right (by decide) hij
  rw [packagesUpTo, List.count_map_of_injective _ _ hinj]
  exact List.count_eq_one_of_mem List.nodup_range (List.mem_range.mpr h)

/-- All claims so far: some rounds are over, and the one at hand, if any, has got to
`g_count`. -/
structure Claims (L : Load) (packages : List Nat) (g : Globals) : Prop where
  running : g.stop = false → 0 < g.myround
  stopped : g.stop = true → g.myround = 0
  order : ∃ rounds : Nat, rounds + g.myround = L.roundSet ∧
    packages = (List.replicate rounds (packagesUpTo L.kvNum)).flatten ++
      packagesUpTo (if g.stop then 0 else g.gCount)

theorem Connection.claimed_fetchAndSend (c : Connection) (sendBatch : Nat) (p : Bytes) :
    claimed (c.fetchAndSend sendBatch p).1 = [] := by
  unfold Connection.fetchAndSend
  dsimp only
  split <;> rfl

/-- The last chunk ends a round. -/
theorem Claims.lastChunk {packages : List Nat} (h : Claims L packages g) (hg : g.Ok L)
    (hs : g.stop = false) :
    ∃ rounds : Nat, rounds + (g.myround - 1) = L.roundSet ∧
      packages ++ claimed [.claim g.gOffset (L.kvNum - g.gCount)] =
        (List.replicate rounds (packagesUpTo L.kvNum)).flatten := by
  obtain ⟨rounds, hrounds, horder⟩ := h.order
  refine ⟨rounds + 1, by omega, ?_⟩
  have hall := packagesUpTo_add g.gCount (L.kvNum - g.gCount)
  rw [Nat.add_sub_cancel' hg.count, ← hg.offset] at hall
  rw [horder, hs, List.replicate_succ', List.flatten_append, List.flatten_singleton, hall]
  simp [claimed, DispatchEvent.claims]

theorem Claims.step {packages : List Nat} (h : Claims L packages g) (hg : g.Ok L)
    (hm : L.Moves d g ev d' g') : Claims L (packages ++ claimed ev) g' := by
  have hstay : ∀ {ev}, claimed ev = [] → Claims L (packages ++ claimed ev) g := by
    intro ev hnone
    rwa [hnone, List.append_nil]
  cases hm with
  | enter | leave | sent | cleaned => exact hstay rfl
  | send => exact hstay (Connection.claimed_fetchAndSend ..)
  | clean => exact hstay rfl
  | chunk hp hs hn =>
      obtain ⟨rounds, hrounds, horder⟩ := h.order
      refine ⟨fun _ => h.running hs, fun hstop => ?_, rounds, hrounds, ?_⟩
      · simp [hs] at hstop
      · rw [horder, hs, List.append_assoc]
        congr 1
        simp [packagesUpTo_add, hg.offset, claimed, DispatchEvent.claims]
  | lastChunk hp hs hn hr =>
      obtain ⟨rounds, hrounds, horder⟩ := h.lastChunk hg hs
      refine ⟨fun _ => hr, nofun, rounds, hrounds, ?_⟩
      rw [horder]
      exact (List.append_nil _).symm
  | lastRound hp hs hn hr =>
      have hpos := h.running hs
      obtain ⟨rounds, hrounds, horder⟩ := h.lastChunk hg hs
      refine ⟨nofun, fun _ => ?_, rounds, hrounds, ?_⟩
      · show g.myround - 1 = 0
        omega
      · rw [horder]
        exact (List.append_nil _).symm

/-- Nobody takes `stop` back. -/
theorem Load.Moves.stop (hm : L.Moves d g ev d' g') (hs : g.stop = true) : g'.stop = true := by
  cases hm with
  | chunk hp hs' | lastChunk hp hs' => simp [hs] at hs'
  | lastRound => rfl
  | _ => exact hs

/-- A thread leaves the loop when it has seen `stop`. -/
theorem Load.Moves.left (hm : L.Moves d g ev d' g') (h : d.Left → g.stop = true)
    (hleft : d'.Left) : g'.stop = true := by
  cases hm with
  | leave hp hs => exact hs
  | clean hp hi => exact h (.inl ⟨_, hp⟩)
  | cleaned hp hi => exact h (.inl ⟨_, hp⟩)
  | _ => simp [Dispatcher.Left] at hleft

variable {T : Nat} {S S' : Dispatch T} {log new : List (Fin T × DispatchEvent)}

open Interleaved (own own_append own_tag own_tag_of_ne mem_own)

/-- What every run keeps. -/
structure Dispatch.Ok (L : Load) (log : List (Fin T × DispatchEvent)) (S : Dispatch T) :
    Prop where
  counters : S.shared.Ok L
  threads : ∀ i, (S.parts i).Ok L (own i log)
  left : ∀ i, (S.parts i).Left → S.shared.stop = true
  claims : Claims L (claimed (log.map Prod.snd)) S.shared

theorem Load.start_ok (L : Load) (T : Nat) (hround : 1 ≤ L.roundSet) (hbatch : 1 ≤ L.sendBatch) :
    Dispatch.Ok L [] (L.start T) where
  counters := ⟨Nat.zero_le _, (Nat.zero_mul _).symm⟩
  threads _ :=
    ⟨fun _ => rfl, fun _ => ⟨(Nat.zero_mul _).symm, hbatch⟩, nofun, nofun, nofun, nofun,
      ⟨[], rfl, fun _ => rfl⟩, nofun⟩
  left _ h := by simp [Load.start, Dispatcher.Left] at h
  claims := ⟨fun _ => Int.natCast_pos.mpr hround, nofun, 0, Int.zero_add _, rfl⟩

/-- **One step of some thread.** -/
theorem Dispatch.Ok.step (h : Dispatch.Ok L log S) (hs : Interleaved.Step L.Act S new S') :
    Dispatch.Ok L (log ++ new) S' := by
  obtain ⟨i, hs⟩ := hs
  cases hs with
  | @intro ev d g hact =>
      have hm := hact.moves
      refine ⟨h.counters.step hm, fun j => ?_, fun j hleft => ?_, ?_⟩
      · simp only [own_append]
        by_cases hij : i = j
        · subst hij
          rw [own_tag, Function.update_self]
          exact (h.threads i).step h.counters hm
        · rw [own_tag_of_ne hij, List.append_nil, Function.update_of_ne (Ne.symm hij)]
          exact h.threads j
      · simp only at hleft
        by_cases hij : i = j
        · subst hij
          rw [Function.update_self] at hleft
          exact hm.left (h.left i) hleft
        · rw [Function.update_of_ne (Ne.symm hij)] at hleft
          exact hm.stop (h.left j hleft)
      · have hsnd : (ev.map (i, ·)).map Prod.snd = ev := by simp
        rw [List.map_append, hsnd, claimed_append]
        exact h.claims.step h.counters hm

/-- What should be true of the threads after every run: no package is lost, sent twice in a
round or sent to the wrong port. -/
structure Dispatched (L : Load) (log : List (Fin T × DispatchEvent)) (S : Dispatch T) : Prop where
  counters : S.shared.gCount ≤ L.kvNum ∧ S.shared.gOffset = S.shared.gCount * packageLen
  /-- Claims are within the database. -/
  ranges : ∀ i workBuf num, (i, .claim workBuf num) ∈ log →
    workBuf + num * packageLen ≤ L.kvNum * packageLen
  /-- When all have left the loop, every package has been claimed once a round. -/
  claims : (∀ i, (S.parts i).Left) → ∀ k < L.kvNum,
    (claimed (log.map Prod.snd)).count (k * packageLen) = L.roundSet
  /-- A thread that has finished has written to each port the packages of this port it has
  claimed, in order. -/
  order : ∀ i, (S.parts i).place = .finished → ∀ p < L.portNum,
    written p (own i log) = L.packagesFor p (claimed (own i log))
  /-- Nothing is written to a port that is not there. -/
  ports : ∀ i p bytes, (i, .write p bytes) ∈ log → p < L.portNum
  /-- Copies to `send_buf`, and what is in it between two calls, are within `SEND_BATCH`
  packages. -/
  bounds : (∀ i p off len, (i, .memcpy p off len) ∈ log →
      off + len ≤ L.sendBatch * packageLen) ∧
    ∀ i p, ((S.parts i).cons p).offset ≤ L.sendBatch * packageLen

theorem Dispatch.Ok.dispatched (h : Dispatch.Ok L log S) (hT : 1 ≤ T) : Dispatched L log S where
  counters := ⟨h.counters.count, h.counters.offset⟩
  ranges i workBuf num hmem := (h.threads i).ranges workBuf num (mem_own hmem)
  claims hleft k hk := by
    have hstop := h.left ⟨0, hT⟩ (hleft _)
    obtain ⟨rounds, hrounds, horder⟩ := h.claims.order
    rw [h.claims.stopped hstop] at hrounds
    have hall : rounds = L.roundSet := by omega
    have hnone : packagesUpTo 0 = [] := rfl
    rw [horder, hstop, if_pos rfl, hnone, List.append_nil, List.count_flatten,
      List.map_replicate, List.sum_replicate_nat, count_packagesUpTo hk, hall, Nat.mul_one]
  order i hfinished p hp := by
    obtain ⟨handed, hclaims, horder⟩ := (h.threads i).order
    have hzero := (h.threads i).empty p (by simpa [Dispatcher.cleaned, hfinished] using hp)
    have hnone : (S.parts i).unsent L = [] := by simp [Dispatcher.unsent, hfinished]
    have hp := horder p
    rw [Connection.held, hzero, Memory.load_zero, List.append_nil] at hp
    rw [hp, hclaims, hnone, List.append_nil]
  ports i p bytes hmem := (h.threads i).writes p bytes (mem_own hmem)
  bounds := by
    refine ⟨fun i p off len hmem => (h.threads i).copies p off len (mem_own hmem), fun i p => ?_⟩
    have hroom := ((h.threads i).cons p).room
    omega

/-- **Every package is sent exactly once a round**, for any number of threads, ports,
packages and rounds, and in every interleaving of the threads. -/
theorem packages_dispatched (hT : 1 ≤ T) (hround : 1 ≤ L.roundSet) (hbatch : 1 ≤ L.sendBatch)
    (hr : Run (Interleaved.Step L.Act) (L.start T) log S) : Dispatched L log S := by
  have hok : Dispatch.Ok L log S :=
    hr.relate (L.start_ok T hround hbatch) fun _ _ _ _ h hs => h.step hs
  exact hok.dispatched hT

/-- A step to follow a schedule by. -/
def Load.play (L : Load) (d : Dispatcher) (g : Globals) (_ : Unit) :
    Option (List DispatchEvent × Dispatcher × Globals) := L.dataDispatch d g

theorem Load.play_act (L : Load) (d : Dispatcher) (g : Globals) (k : Unit)
    (ev : List DispatchEvent) (d' : Dispatcher) (g' : Globals)
    (h : L.play d g k = some (ev, d', g')) : L.Act d g ev d' g' := h

/-- Three packages on two ports. -/
def threePackages : Memory UInt8 :=
  Memory.store (fun _ => 0) 0 (twoPorts.stream .SET (entries [0, 27, 2]))

theorem threePackages_ports : ∀ k < 3, (threePackages (k * packageLen + 6)).toNat < 2 := by
  decide +kernel

/-- Every package is written at once, in two rounds. -/
def twoRounds : Load := ⟨3, 2, 1, 2, threePackages, threePackages_ports⟩

/-- The second thread ends the first round and begins the second, which the first ends. The
third has not seen `stop` and finds it changed behind the lock. -/
def threeThreads : Dispatch 3 × List (Fin 3 × DispatchEvent) :=
  Interleaved.play twoRounds.play (twoRounds.start 3)
    (List.replicate 1 (2, ()) ++ List.replicate 2 (0, ()) ++ List.replicate 6 (1, ()) ++
      List.replicate 11 (0, ()) ++ List.replicate 7 (1, ()) ++ List.replicate 4 (2, ()))

theorem packages_dispatched_threeThreads :
    (∀ i, (threeThreads.1.parts i).place = .finished) ∧
      claimed (own 0 threeThreads.2) = [0, 28, 56] ∧
        claimed (own 1 threeThreads.2) = [56, 0, 28] ∧
          Dispatched twoRounds threeThreads.2 threeThreads.1 :=
  ⟨by decide +kernel, by decide +kernel, by decide +kernel,
    packages_dispatched (by decide) (by decide) (by decide)
      (Interleaved.play_run twoRounds.play_act _ _)⟩

end MultiportNetwork.MicroTest
