import MultiportNetwork.Cuckoo.Step

/-!
# MultiportNetwork.Cuckoo.Linear

Any number of threads call operations of one `cuckoohash_map`, in any interleaving of their
steps. What the threads see is what they would see if each call were done at once
(`linearizable`), and the map is in order in every state on the way: its size, the locks that
are still to be rehashed, and the buffers of searches under way.
-/

namespace Libcuckoo

variable {K V : Type} [DecidableEq K] (P : Params K)

/-- A thread: idle, or at a place in a call. -/
abbrev Caller (K V : Type) := Option (Call K V × Place)

/-- Threads that share a map. -/
abbrev Callers (ι K V : Type) := Interleaved ι (Caller K V) (CuckooMap K V)

abbrev CallEvent (K V : Type) := OpEvent (Call K V) (Option V) ResizeError

/-- A thread calls an operation, or makes a step in the one it is in. -/
abbrev Caller.Act : Caller K V → CuckooMap K V → List (CallEvent K V) → Caller K V →
    CuckooMap K V → Prop :=
  OpAct Place.snapshot (Call.step P)

/-- Some thread acts. -/
abbrev Concurrent {ι : Type} [DecidableEq ι] :
    Callers ι K V → List (ι × CallEvent K V) → Callers ι K V → Prop :=
  Interleaved.Step (Caller.Act P)

/-- A new map with space for `n` elements, before the first call. -/
def Callers.start (ι : Type) (n : Nat) : Callers ι K V := ⟨fun _ => none, .new P n⟩

/-- The threads a schedule leads to, from a new map on, and what they have seen. -/
def Callers.play {ι : Type} [DecidableEq ι] (n : Nat) (ks : List (ι × OpMove (Call K V))) :
    Callers ι K V × List (ι × CallEvent K V) :=
  Interleaved.play (OpAct.exec Place.snapshot (Call.step P)) (Callers.start P ι n) ks

variable {P}

theorem Callers.play_run {ι : Type} [DecidableEq ι] (n : Nat)
    (ks : List (ι × OpMove (Call K V))) :
    Run (Concurrent P) (.start P ι n) (Callers.play P n ks).2 (Callers.play P n ks).1 :=
  Interleaved.play_run OpAct.exec_act _ ks

/-- **The map implements its operations.** -/
theorem implements : Implements Place.snapshot (Call.step P : Call K V → _) Call.perform
    (fun A m => m.Ok P A) (fun c p => p.Ok P c.key) where
  init _ := trivial
  go h hp hstep := by
    have hstepped := Call.step_stepped h hp
    rw [hstep] at hstepped
    exact hstepped
  ret h hp hstep := by
    have hstepped := Call.step_stepped h hp
    rw [hstep] at hstepped
    exact hstepped
  throw h hp hstep := by
    have hstepped := Call.step_stepped h hp
    rw [hstep] at hstepped
    obtain rfl : _ = _ := hstepped
    exact h

variable {ι : Type} [DecidableEq ι] {n : Nat} {S : Callers ι K V}
  {log : List (ι × CallEvent K V)}

/-- What holds in every state of every interleaving. -/
theorem Callers.reached (hr : Run (Concurrent P) (.start P ι n) log S) :
    (∃ A, Serial Call.perform (fun _ => none) (returnsOf log) A ∧ S.shared.Ok P A) ∧
      ∀ i c p, S.parts i = some (c, p) → p.Ok P c.key :=
  implements.run (CuckooMap.Ok.new P n) hr

/-- Keys that are their own hash values, as `std::hash` has it for integers. -/
def Params.ofNat : Params Nat where
  hash := Nat.toUInt64

/-- Two threads assign to one key, both having read the hashpower. -/
def assignTwice : Callers Bool Nat Nat × List (Bool × CallEvent Nat Nat) :=
  Callers.play .ofNat 1 [(false, .call (.insertOrAssign 7 1)), (true, .call (.insertOrAssign 7 2)),
    (false, .go), (true, .go), (true, .go), (false, .go)]

/-- The same keys in a map with no more than two locks. -/
def Params.fewLocks : Params Nat := { Params.ofNat with lockPower := 1 }

/-- A thread calls an operation and makes `n` steps in it. -/
def callSteps (i : Bool) (c : Call Nat Nat) (n : Nat) : List (Bool × OpMove (Call Nat Nat)) :=
  (i, .call c) :: List.replicate n (i, .go)

/-- A thread leaves one slot of the first of two buckets empty, and none of the second, which is
the only one for an odd key. -/
def fillUp : List (Bool × OpMove (Call Nat Nat)) :=
  ([0, 2, 4, 6, 8].flatMap fun k => callSteps false (.insertOrAssign k k) 2) ++
    callSteps false (.erase 0) 2 ++
    [1, 3, 5].flatMap fun k => callSteps false (.insertOrAssign k k) 2

/-- Another thread makes `n` steps towards one more odd key; after 11 it has displaced an entry
and returned. -/
def displace (n : Nat) : Callers Bool Nat Nat × List (Bool × CallEvent Nat Nat) :=
  Callers.play .fewLocks 8 (fillUp ++ callSteps true (.insertOrAssign 7 7) n)

theorem displace_run (n : Nat) :
    Run (Concurrent .fewLocks) (.start .fewLocks Bool 8) (displace n).2 (displace n).1 :=
  Callers.play_run 8 _

/-- It comes back with yet another key, for which the table has to be expanded. -/
def outgrow : Callers Bool Nat Nat × List (Bool × CallEvent Nat Nat) :=
  Callers.play .fewLocks 8 (fillUp ++ callSteps true (.insertOrAssign 7 7) 11 ++
    callSteps true (.insertOrAssign 9 9) 688)

theorem outgrow_run : Run (Concurrent .fewLocks) (.start .fewLocks Bool 8) outgrow.2 outgrow.1 :=
  Callers.play_run 8 _

/-- **Linearizability.** The calls that have returned have the results they would have one
after the other, each done at once at its return; and the map stands for what they leave. -/
theorem linearizable (hr : Run (Concurrent P) (.start P ι n) log S) :
    (∃ A, Serial Call.perform (fun _ => none) (returnsOf log) A ∧
      Represents (S.shared.settled P) A) ∧
      ∀ i, OpSession (Interleaved.own i log) ((S.parts i).map Prod.fst) := by
  obtain ⟨⟨A, hseq, hok⟩, -⟩ := Callers.reached hr
  exact ⟨⟨A, hseq, hok.represents⟩, OpSession.of_run hr⟩

theorem linearizable_assignTwice : (returnsOf assignTwice.2).map Prod.snd = [none, some 2] ∧
    (∃ A, Serial Call.perform (fun _ => none) (returnsOf assignTwice.2) A ∧
      Represents (assignTwice.1.shared.settled .ofNat) A) ∧
    ∀ i, OpSession (Interleaved.own i assignTwice.2)
      ((assignTwice.1.parts i).map Prod.fst) :=
  ⟨by decide +kernel, linearizable (Callers.play_run 1 _)⟩

/-- **The size is exact** in every state, whatever the single counters say. -/
theorem size_exact (hr : Run (Concurrent P) (.start P ι n) log S) :
    ∃ A, Serial Call.perform (fun _ => none) (returnsOf log) A ∧
      CuckooMap.Counts A S.shared.size := by
  obtain ⟨⟨A, hseq, hok⟩, -⟩ := Callers.reached hr
  exact ⟨A, hseq, hok.counts⟩

theorem size_exact_displace : (displace 11).1.shared.size = 8 ∧
    ∃ A, Serial Call.perform (fun _ => none) (returnsOf (displace 11).2) A ∧
      CuckooMap.Counts A (displace 11).1.shared.size :=
  ⟨by decide +kernel, size_exact (displace_run 11)⟩

/-- **Rehashing on demand is in order** in every state. -/
structure RehashOk (P : Params K) (m : CuckooMap K V) : Prop where
  /-- Every entry, in whichever array it is, belongs there. -/
  placed : Placed P m.hashpower (m.settled P)
  locks : m.numLocks = min (2 ^ m.hashpower) P.maxNumLocks
  /-- The assertions of `rehash_lock`. -/
  asserts : ∀ l, (m.locks l).isMigrated = false →
    m.numLocks = P.maxNumLocks ∧ m.oldBuckets.hashpower + 1 = m.hashpower ∧
      P.maxNumLocks ≤ m.oldBuckets.size
  /-- There is no more than one copy of anything. -/
  waiting : ∀ i s, (m.locks (P.lockInd i)).isMigrated = false → m.buckets.slots (i, s) = none
  remaining : m.numRemainingLazyRehashLocks =
    ((Finset.range m.numLocks).filter fun l => (m.locks l).isMigrated = false).card
  released : m.numRemainingLazyRehashLocks = 0 → ∀ p, m.oldBuckets.slots p = none

theorem rehash_ok (hr : Run (Concurrent P) (.start P ι n) log S) : RehashOk P S.shared := by
  obtain ⟨⟨A, -, hok⟩, -⟩ := Callers.reached hr
  refine ⟨hok.placed, hok.numLocks, fun l hl => ?_, hok.waiting, hok.remaining, hok.released⟩
  obtain ⟨hhp, hle⟩ := hok.lagging l hl
  have hsize : P.maxNumLocks ≤ S.shared.oldBuckets.size := Nat.pow_le_pow_right Nat.two_pos hle
  refine ⟨?_, hhp, hsize⟩
  have hlocks := hok.numLocks
  rw [← hhp, Nat.pow_succ] at hlocks
  have : P.maxNumLocks ≤ 2 ^ S.shared.oldBuckets.hashpower := hsize
  omega

theorem rehash_ok_outgrow : (outgrow.1.shared.hashpower = 2 ∧
      (outgrow.1.shared.locks 0).isMigrated = false ∧
      (outgrow.1.shared.locks 1).isMigrated = true) ∧
    RehashOk .fewLocks outgrow.1.shared :=
  ⟨by decide +kernel, rehash_ok outgrow_run⟩

/-! ### What a search relies on -/

/-- **A thread in the middle of `run_cuckoo`** keeps within its buffers, as do the assertions
there. -/
def Place.InBounds (P : Params K) (key : K) : Place → Prop
  | .searching _ q => q.last ≤ maxCuckooCount ∧ ∀ x pending, q.pending = x :: pending →
      x.depth < maxBfsPathLen ∧
      -- there is room for all that the bucket's entries lead to
      (x.depth < maxBfsPathLen - 1 → q.last + slotPerBucket ≤ maxCuckooCount) ∧
      -- the path code fits, and says by 0 or 1 which bucket the path starts on
      ∀ s < slotPerBucket,
        uint16 (x.pathcode * slotPerBucket + s) = x.pathcode * slotPerBucket + s ∧
          (pathSlots x.depth (x.pathcode * slotPerBucket + s) []).2.2 < 2
  | .tracing hp path bucket slot rest => Chain P hp key path bucket ∧ bucket < 2 ^ hp ∧
      (∀ s ∈ slot :: rest, s < slotPerBucket) ∧ path.length + rest.length < maxBfsPathLen
  | .moving hp path bucket slot => Chain P hp key path bucket ∧ bucket < 2 ^ hp ∧
      slot < slotPerBucket ∧ path.length < maxBfsPathLen
  | _ => True

omit [DecidableEq K] in
theorem Chain.lt {hp bucket : Nat} {key : K} {path : List CuckooRecord}
    (h : Chain P hp key path bucket) : bucket < 2 ^ hp := by
  cases path with
  | nil => exact Params.Home.lt h
  | cons r path =>
      rw [h.1]
      exact altIndex_lt _ _ _

omit [DecidableEq K] in
theorem Place.Ok.inBounds {p : Place} {key : K} (h : p.Ok P key) : p.InBounds P key := by
  cases p with
  | searching hp q =>
      obtain ⟨h, -⟩ := h
      have hroom := h.room
      refine ⟨Nat.le_trans (Nat.le_add_right _ _) hroom, fun x pending hpending => ?_⟩
      have hx : x.Ok := h.slots x (by rw [hpending]; exact List.mem_cons_self)
      refine ⟨hx.1, fun hdepth => ?_, fun s hs => ?_⟩
      · simp only [BQueue.ahead, hpending, List.map_cons, List.sum_cons] at hroom
        rw [below_eq, perSlot, if_pos hdepth, Nat.mul_add, Nat.mul_one] at hroom
        omega
      · obtain ⟨hcode, hlt⟩ := hx.child hs
        refine ⟨hcode, ?_⟩
        rw [(pathSlots_ok x.depth _ [] (List.forall_mem_nil _)).2.2.2]
        exact Nat.div_lt_of_lt_mul (Nat.mul_comm 2 _ ▸ hlt)
  | tracing hp path bucket slot rest =>
      obtain ⟨hchain, hs, hrest, hlen⟩ := h
      exact ⟨hchain, hchain.lt, List.forall_mem_cons.mpr ⟨hs, hrest⟩, hlen⟩
  | moving hp path bucket slot => exact ⟨h.1, h.1.lt, h.2⟩
  | snapshot => trivial
  | locking hp => trivial
  | doubling hp => trivial

/-- **Every search stays in bounds**, whatever others do to the table meanwhile. -/
theorem search_in_bounds (hr : Run (Concurrent P) (.start P ι n) log S) {i : ι} {c : Call K V}
    {p : Place} (hi : S.parts i = some (c, p)) : p.InBounds P c.key :=
  ((Callers.reached hr).2 i c p hi).inBounds

theorem search_in_bounds_displace :
    ∃ c q, (displace 3).1.parts true = some (c, .searching 1 q) ∧
      q = ⟨[⟨1, 1, 0⟩, ⟨1, 0, 1⟩, ⟨1, 1, 1⟩, ⟨1, 2, 1⟩, ⟨0, 3, 1⟩], 6⟩ ∧
      Place.InBounds .fewLocks c.key (.searching 1 q) := by
  have hplace : ((displace 3).1.parts true).map Prod.snd = some (.searching 1
      ⟨[⟨1, 1, 0⟩, ⟨1, 0, 1⟩, ⟨1, 1, 1⟩, ⟨1, 2, 1⟩, ⟨0, 3, 1⟩], 6⟩) := by
    decide +kernel
  obtain ⟨⟨c, p⟩, hi, rfl⟩ := Option.map_eq_some_iff.mp hplace
  exact ⟨c, _, hi, rfl, search_in_bounds (displace_run 3) hi⟩

end Libcuckoo
