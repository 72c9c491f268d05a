import MultiportNetwork.Cuckoo.Mutex

/-!
# MultiportNetwork.Cuckoo.Protect

The locks protect the buckets. What a thread does with locks taken is one step here, whereas the
source reads and writes one slot after the other. That makes no difference, because a step is
confined to its locks (`Call.step_confined`): it reads nothing but what they control, also where
it moves old buckets that no one has moved yet, and writes nothing else. So while a thread is at
work, the others do not get at what it reads, and it leaves alone what they do (`locks_protect`).
-/

namespace Libcuckoo

variable {K V : Type} {P : Params K} {A A' : K → Option V} {c : Call K V} {m m' n : CuckooMap K V}
  {ls : List Nat} {i j s r l hp : Nat}

/-! ### What locks control -/

/-- To who has the locks `ls` the maps are the same: the locks with what is counted under them,
their buckets, and their old buckets where those are still to be moved. -/
structure SameUnder (P : Params K) (ls : List Nat) (m m' : CuckooMap K V) : Prop where
  /-- Every lock protects it: it changes only when all are taken. -/
  hashpower : m'.hashpower = m.hashpower
  locks : ∀ l ∈ ls, m'.locks l = m.locks l
  slots : ∀ i s, P.lockInd i ∈ ls → m'.buckets.slots (i, s) = m.buckets.slots (i, s)
  old : ∀ i s, P.lockInd i ∈ ls → (m.locks (P.lockInd i)).isMigrated = false →
    m'.oldBuckets.slots (i, s) = m.oldBuckets.slots (i, s)

/-- Only what the locks `ls` control has changed. -/
def OnlyUnder (P : Params K) (ls : List Nat) (m m' : CuckooMap K V) : Prop :=
  ∀ ls', (∀ l ∈ ls, l ∉ ls') → SameUnder P ls' m m'

/-- Two runs of one piece of code, which has begun with `m`: they cannot tell their maps apart
by what `ls` controls, and nothing else has changed. -/
structure Alike (P : Params K) (ls : List Nat) (m m' n : CuckooMap K V) : Prop where
  same : SameUnder P ls m' n
  only : OnlyUnder P ls m m'

/-- A piece of code, begun with `m`, has one outcome for both maps. -/
structure Confined {α : Type} (P : Params K) (ls : List Nat) (m : CuckooMap K V)
    (r r' : α × CuckooMap K V) : Prop where
  /-- Nothing it depends on was different. -/
  outcome : r'.1 = r.1
  alike : Alike P ls m r.2 r'.2

theorem SameUnder.refl (m : CuckooMap K V) : SameUnder P ls m m :=
  ⟨rfl, fun _ _ => rfl, fun _ _ _ => rfl, fun _ _ _ _ => rfl⟩

theorem SameUnder.trans (h : SameUnder P ls m m') (h' : SameUnder P ls m' n) :
    SameUnder P ls m n := by
  refine ⟨h'.hashpower.trans h.hashpower, fun l hl => (h'.locks l hl).trans (h.locks l hl),
    fun i s hi => (h'.slots i s hi).trans (h.slots i s hi), fun i s hi hlag => ?_⟩
  have hlag' : (m'.locks (P.lockInd i)).isMigrated = false := by
    rw [h.locks _ hi]
    exact hlag
  exact (h'.old i s hi hlag').trans (h.old i s hi hlag)

theorem OnlyUnder.trans (h : OnlyUnder P ls m m') (h' : OnlyUnder P ls m' n) :
    OnlyUnder P ls m n := fun ls' hls' => (h ls' hls').trans (h' ls' hls')

theorem SameUnder.alike (h : SameUnder P ls m n) : Alike P ls m m n :=
  ⟨h, fun _ _ => .refl m⟩

/-! ### Rehashing -/

/-- **Rehashing a lock** fills the buckets of this lock, from the old ones, and no others. -/
theorem rehashLock_slots (h : m.Ok P A) :
    (m.rehashLock P true l).buckets.slots (i, s) =
      if (m.locks l).isMigrated = false ∧ P.lockInd i = l then doubled P m.oldBuckets (i, s)
      else m.buckets.slots (i, s) := by
  rw [CuckooMap.rehashLock]
  split
  next hl => rw [if_neg fun hlag => by rw [hl] at hlag; cases hlag.1]
  next hl =>
    have hl := Bool.eq_false_iff.mpr hl
    rw [if_pos rfl]
    simp only [hl, true_and]
    exact h.toCore.migrate_slots hl

theorem rehashLock_locks (j : Nat) : (m.rehashLock P true l).locks j =
    if j = l then { m.locks j with isMigrated := true } else m.locks j := by
  have hset : ∀ x : Spinlock, x.isMigrated = true → { x with isMigrated := true } = x := by
    intro x hx
    rw [← hx]
  rw [CuckooMap.rehashLock]
  split
  next hl =>
    split
    next heq =>
      rw [heq, hset _ hl]
    next => rfl
  next hl =>
    rw [if_pos rfl]
    show Function.update m.locks l { m.locks l with isMigrated := true } j = _
    rw [Function.update_apply]
    split
    next heq => rw [heq]
    next => rfl

/-- The old array is there as long as some lock is not migrated. -/
theorem rehashLock_old (h : m.Ok P A)
    (hj : ((m.rehashLock P true l).locks j).isMigrated = false) :
    (m.rehashLock P true l).oldBuckets = m.oldBuckets := by
  have hok := (h.rehashLock l).1
  have hwaits := Finset.card_pos.mpr ⟨j, hok.toCore.mem_unmigrated.mpr hj⟩
  rw [← hok.remaining] at hwaits
  rw [CuckooMap.rehashLock] at hwaits ⊢
  split
  next => rfl
  next hl =>
    rw [if_neg hl, if_pos rfl] at hwaits
    rw [if_pos rfl]
    refine if_neg fun hlast => ?_
    have hzero : m.numRemainingLazyRehashLocks - 1 = 0 := by
      rw [show m.numRemainingLazyRehashLocks = 1 from hlast]
    exact absurd hzero (Nat.ne_of_gt hwaits)

/-- Who has the lock changes nothing under the others. -/
theorem rehashLock_only (h : m.Ok P A) (hl : l ∈ ls) :
    OnlyUnder P ls m (m.rehashLock P true l) := by
  intro ls' hls'
  have hout : ∀ j ∈ ls', j ≠ l := by
    intro j hj heq
    exact hls' l hl (heq ▸ hj)
  have hlocks : ∀ j ∈ ls', (m.rehashLock P true l).locks j = m.locks j := by
    intro j hj
    rw [rehashLock_locks, if_neg (hout j hj)]
  refine ⟨(h.rehashLock l).2.1.hashpower, hlocks, fun i s hi => ?_, fun i s hi hlag => ?_⟩
  · rw [rehashLock_slots h, if_neg fun heq => hout _ hi heq.2]
  · rw [← hlocks _ hi] at hlag
    rw [rehashLock_old h hlag]

/-- What is to be moved is the same. -/
theorem SameUnder.doubled (h : SameUnder P ls m n) (hok : m.Ok P A) (hok' : n.Ok P A')
    (hi : P.lockInd i ∈ ls) (hlag : (m.locks (P.lockInd i)).isMigrated = false) :
    doubled P n.oldBuckets (i, s) = doubled P m.oldBuckets (i, s) := by
  have hlag' : (n.locks (P.lockInd i)).isMigrated = false := by
    rw [h.locks _ hi]
    exact hlag
  obtain ⟨hhp, hle⟩ := hok.lagging _ hlag
  obtain ⟨hhp', -⟩ := hok'.lagging _ hlag'
  have hsize : n.oldBuckets.hashpower = m.oldBuckets.hashpower := by
    have := h.hashpower
    omega
  rw [Libcuckoo.doubled, Libcuckoo.doubled, hsize]
  split
  · rw [h.old i s hi hlag]
  next hge =>
    -- the new bucket has the lock of the old one
    have hlock : P.lockInd (i - 2 ^ m.oldBuckets.hashpower) = P.lockInd i := by
      obtain ⟨k, hk⟩ := Nat.pow_dvd_pow 2 hle
      have hsplit : i - 2 ^ m.oldBuckets.hashpower + P.maxNumLocks * k = i := by
        rw [show P.maxNumLocks * k = 2 ^ m.oldBuckets.hashpower from hk.symm]
        exact Nat.sub_add_cancel (Nat.le_of_not_lt hge)
      rw [P.lockInd_eq_mod, P.lockInd_eq_mod]
      calc (i - 2 ^ m.oldBuckets.hashpower) % P.maxNumLocks
        _ = (i - 2 ^ m.oldBuckets.hashpower + P.maxNumLocks * k) % P.maxNumLocks :=
          (Nat.add_mul_mod_self_left _ _ _).symm
        _ = i % P.maxNumLocks := by rw [hsplit]
    have hold : ∀ t, n.oldBuckets.slots (i - 2 ^ m.oldBuckets.hashpower, t) =
        m.oldBuckets.slots (i - 2 ^ m.oldBuckets.hashpower, t) := fun t =>
      h.old _ t (hlock ▸ hi) (hlock ▸ hlag)
    rw [upEntries, upEntries]
    simp only [hold]

/-- After rehashing the maps are the same again, though nobody knows what else is different. -/
theorem SameUnder.rehashLock (h : SameUnder P ls m n) (hok : m.Ok P A) (hok' : n.Ok P A')
    (hl : l ∈ ls) : SameUnder P ls (m.rehashLock P true l) (n.rehashLock P true l) := by
  refine ⟨?_, fun j hj => ?_, fun i s hi => ?_, fun i s hi hlag => ?_⟩
  · rw [(hok'.rehashLock l).2.1.hashpower, (hok.rehashLock l).2.1.hashpower]
    exact h.hashpower
  · rw [rehashLock_locks, rehashLock_locks, h.locks j hj]
  · rw [rehashLock_slots hok, rehashLock_slots hok', h.locks l hl]
    split
    next heq =>
      obtain ⟨hlag, rfl⟩ := heq
      exact h.doubled hok hok' hi hlag
    next => exact h.slots i s hi
  · have hlag' : ((n.rehashLock P true l).locks (P.lockInd i)).isMigrated = false := by
      rw [rehashLock_locks, h.locks _ hi, ← rehashLock_locks]
      exact hlag
    rw [rehashLock_old hok hlag, rehashLock_old hok' hlag']
    rw [rehashLock_locks] at hlag
    split at hlag
    · cases hlag
    · exact h.old i s hi hlag

/-! ### Taking locks -/

/-- The locks that are taken are rehashed one after the other. -/
theorem Alike.rehashLocks (h : Alike P ls m m' n) (hok : m'.Ok P A) (hok' : n.Ok P A')
    (js : List Nat) (hjs : ∀ l ∈ js, l ∈ ls) :
    Alike P ls m (js.foldl (CuckooMap.rehashLock P true) m')
      (js.foldl (CuckooMap.rehashLock P true) n) := by
  induction js generalizing m' n with
  | nil => exact h
  | cons l js ih =>
      obtain ⟨hl, hjs⟩ := List.forall_mem_cons.mp hjs
      refine ih ⟨h.same.rehashLock hok hok' hl, h.only.trans (rehashLock_only hok hl)⟩
        (hok.rehashLock l).1 (hok'.rehashLock l).1 hjs

theorem Alike.lockOne (h : Alike P ls m m' n) (hp : Nat) (hok : m'.Ok P A) (hok' : n.Ok P A')
    (hi : P.lockInd i ∈ ls) :
    Option.Rel (Alike P ls m) (m'.lockOne P hp i) (n.lockOne P hp i) := by
  rw [CuckooMap.lockOne, CuckooMap.lockOne, h.same.hashpower]
  split
  · exact .none
  · exact .some (h.rehashLocks hok hok' [P.lockInd i] (List.forall_mem_singleton.mpr hi))

theorem inOrder_mem {a b : Nat} (ha : a ∈ ls) (hb : b ∈ ls) :
    (CuckooMap.inOrder a b).1 ∈ ls ∧ (CuckooMap.inOrder a b).2 ∈ ls := by
  rw [CuckooMap.inOrder]
  split
  · exact ⟨hb, ha⟩
  · exact ⟨ha, hb⟩

theorem Alike.lockTwo (h : Alike P ls m m' n) (hp : Nat) (hok : m'.Ok P A)
    (hok' : n.Ok P A') (hi : P.lockInd i ∈ ls) (hj : P.lockInd j ∈ ls) :
    Option.Rel (Alike P ls m) (m'.lockTwo P hp i j) (n.lockTwo P hp i j) := by
  obtain ⟨h1, h2⟩ := inOrder_mem hi hj
  rw [CuckooMap.lockTwo, CuckooMap.lockTwo, h.same.hashpower]
  dsimp only
  split
  · exact .none
  · refine .some (h.rehashLocks hok hok' [_, _] fun l hl => ?_)
    rcases List.mem_pair.mp hl with rfl | rfl
    · exact h1
    · exact h2

theorem Alike.lockThree {k : Nat} (h : Alike P ls m m' n) (hp : Nat) (hok : m'.Ok P A)
    (hok' : n.Ok P A') (hi : P.lockInd i ∈ ls) (hj : P.lockInd j ∈ ls) (hk : P.lockInd k ∈ ls) :
    Option.Rel (Alike P ls m) (m'.lockThree P hp i j k) (n.lockThree P hp i j k) := by
  obtain ⟨h1, h2⟩ := inOrder_mem hj hk
  obtain ⟨h0, h2⟩ := inOrder_mem hi h2
  obtain ⟨h0, h1⟩ := inOrder_mem h0 h1
  rw [CuckooMap.lockThree, CuckooMap.lockThree, h.same.hashpower]
  dsimp only
  split
  · exact .none
  · refine .some (h.rehashLocks hok hok' [_, _, _] fun l hl => ?_)
    simp only [List.mem_cons, List.not_mem_nil, or_false] at hl
    rcases hl with rfl | rfl | rfl
    · exact h0
    · exact h1
    · exact h2

/-! ### Entries -/

/-- A slot is written in both maps. -/
theorem SameUnder.put (h : SameUnder P ls m n) (o : Option (Entry K V)) (d : Int) :
    SameUnder P ls (m.put P i s o d) (n.put P i s o d) := by
  refine ⟨h.hashpower, fun l hl => ?_, fun j r hj => ?_, fun j r hj hlag => ?_⟩
  · simp only [CuckooMap.put, Function.update_apply]
    split
    next heq => rw [← heq, h.locks l hl]
    next => exact h.locks l hl
  · simp only [CuckooMap.put, Function.update_apply, h.slots j r hj]
  · rw [CuckooMap.put_flag] at hlag
    exact h.old j r hj hlag

/-- With its lock held this is nobody else's. -/
theorem put_only (hi : P.lockInd i ∈ ls) (o : Option (Entry K V)) (d : Int) :
    OnlyUnder P ls m (m.put P i s o d) := by
  intro ls' hls'
  refine ⟨rfl, fun l hl => ?_, fun j r hj => ?_, fun _ _ _ _ => rfl⟩
  · refine Function.update_of_ne (fun (heq : l = P.lockInd i) => hls' _ hi ?_) _ _
    rw [← heq]
    exact hl
  · refine Function.update_of_ne (fun heq => hls' _ hi ?_) _ _
    rw [← (Prod.mk.inj heq).1]
    exact hj

theorem Alike.put (h : Alike P ls m m' n) (hi : P.lockInd i ∈ ls) (o : Option (Entry K V))
    (d : Int) : Alike P ls m (m'.put P i s o d) (n.put P i s o d) :=
  ⟨h.same.put o d, h.only.trans (put_only hi o d)⟩

/-- One swap, which is two slots written. Whether it is made depends on these only. -/
theorem Alike.moveEntry (h : Alike P ls m m' n) (hash : UInt64) (hi : P.lockInd i ∈ ls)
    (hj : P.lockInd j ∈ ls) :
    Option.Rel (Alike P ls m) (m'.moveEntry P i s hash j r) (n.moveEntry P i s hash j r) := by
  rw [CuckooMap.moveEntry, CuckooMap.moveEntry, h.same.slots j r hj, h.same.slots i s hi]
  split
  next e _ _ =>
    split
    · exact .none
    · have hput := (h.put (s := r) hj (some e) 0).put (s := s) hi none 0
      simp only [CuckooMap.put_zero] at hput
      exact .some hput
  next => exact .none

theorem Alike.apply (h : Alike P ls m m' n) (hi : P.lockInd i ∈ ls) :
    Confined P ls m (c.apply P m' i s) (c.apply P n i s) := by
  rw [Call.apply, Call.apply, h.same.slots i s hi]
  split
  · exact ⟨rfl, h⟩
  next e _ =>
    have hset := h.put (s := s) hi (some { e with mapped := (c.fn e.mapped).1 }) 0
    simp only [CuckooMap.put_zero] at hset
    refine ⟨rfl, ?_⟩
    dsimp only
    split
    · exact hset.put hi none (-1)
    · exact hset

theorem Alike.add {val : V} (h : Alike P ls m m' n) (hi : P.lockInd i ∈ ls) :
    Confined P ls m (c.add P m' i s val) (c.add P n i s val) :=
  ⟨rfl, h.put hi _ 1⟩

/-! ### Looking through buckets -/

variable [DecidableEq K]

section
variable {b b' : BucketContainer K V} {pk : UInt8} {key : K}

/-- `try_read_from_bucket` reads one bucket. -/
theorem tryReadFromBucket_congr (h : ∀ s, b'.slots (i, s) = b.slots (i, s)) :
    b'.tryReadFromBucket i pk key = b.tryReadFromBucket i pk key := by
  rw [BucketContainer.tryReadFromBucket, BucketContainer.tryReadFromBucket]
  simp only [h]

theorem tryFindInsertBucket_congr (h : ∀ s, b'.slots (i, s) = b.slots (i, s)) :
    b'.tryFindInsertBucket i pk key = b.tryFindInsertBucket i pk key := by
  rw [BucketContainer.tryFindInsertBucket, BucketContainer.tryFindInsertBucket]
  generalize List.range slotPerBucket = is, (none : Option Nat) = slot
  induction is generalizing slot with
  | nil => rfl
  | cons s is ih =>
      rw [BucketContainer.tryFindInsertFrom, BucketContainer.tryFindInsertFrom, h s]
      simp only [ih]

omit [DecidableEq K] in
theorem scanSlots_congr {x : BSlot} (h : ∀ s, b'.slots (x.bucket, s) = b.slots (x.bucket, s))
    (is : List Nat) (q : BQueue) : scanSlots hp b' x is q = scanSlots hp b x is q := by
  induction is generalizing q with
  | nil => rfl
  | cons s is ih =>
      rw [scanSlots, scanSlots, h]
      simp only [ih]

theorem cuckooFind_home {i1 i2 : Nat} (h : b.cuckooFind key pk i1 i2 = some (i, s)) :
    i = i1 ∨ i = i2 := by
  rw [BucketContainer.cuckooFind] at h
  split at h
  · cases h
    exact .inl rfl
  · obtain ⟨t, -, heq⟩ := Option.map_eq_some_iff.mp h
    cases heq
    exact .inr rfl

end

/-! ### Calls -/

omit [DecidableEq K] in
/-- Nothing has been changed, and the same comes next. -/
theorem Alike.next (h : Alike P ls m m' n) (r : Next V) : Confined P ls m (r, m') (r, n) :=
  ⟨rfl, h⟩

/-- `cuckoo_find` looks into the two buckets of the key. -/
theorem Alike.find (h : Alike P ls m m' n) (h1 : P.lockInd ((c.hv P).i1 hp) ∈ ls)
    (h2 : P.lockInd ((c.hv P).i2 hp) ∈ ls) : c.find P hp n = c.find P hp m' := by
  rw [Call.find, Call.find, BucketContainer.cuckooFind, BucketContainer.cuckooFind,
    tryReadFromBucket_congr fun s => h.same.slots _ s h1,
    tryReadFromBucket_congr fun s => h.same.slots _ s h2]

omit [DecidableEq K] in
/-- The locks of the key's buckets are taken. -/
theorem lockInd_mem (h1 : P.lockInd ((c.hv P).i1 hp) ∈ ls) (h2 : P.lockInd ((c.hv P).i2 hp) ∈ ls)
    (hi : i = (c.hv P).i1 hp ∨ i = (c.hv P).i2 hp) : P.lockInd i ∈ ls := by
  rcases hi with rfl | rfl
  · exact h1
  · exact h2

theorem Alike.lookUp (h : Alike P ls m m' n) (h1 : P.lockInd ((c.hv P).i1 hp) ∈ ls)
    (h2 : P.lockInd ((c.hv P).i2 hp) ∈ ls) :
    Confined P ls m (c.lookUp P hp m') (c.lookUp P hp n) := by
  rw [Call.lookUp, Call.lookUp, h.find h1 h2]
  split
  next hfound => exact h.apply (lockInd_mem h1 h2 (cuckooFind_home hfound))
  next => exact h.next _

theorem Alike.conclude {val : V} (h : Alike P ls m m' n) (h1 : P.lockInd ((c.hv P).i1 hp) ∈ ls)
    (h2 : P.lockInd ((c.hv P).i2 hp) ∈ ls) (hi : P.lockInd i ∈ ls) :
    Confined P ls m (c.conclude P hp m' i s val) (c.conclude P hp n i s val) := by
  rw [Call.conclude, Call.conclude, h.find h1 h2]
  split
  next hfound => exact h.apply (lockInd_mem h1 h2 (cuckooFind_home hfound))
  next => exact h.add hi

/-- Both buckets are looked through before anything is written to one of them. -/
theorem Alike.cuckooInsert (h : Alike P ls m m' n) (val : V)
    (h1 : P.lockInd ((c.hv P).i1 hp) ∈ ls) (h2 : P.lockInd ((c.hv P).i2 hp) ∈ ls) :
    Confined P ls m (c.cuckooInsert P hp m' val) (c.cuckooInsert P hp n val) := by
  rw [Call.cuckooInsert, Call.cuckooInsert, h.same.hashpower]
  rw [tryFindInsertBucket_congr fun s => h.same.slots _ s h1,
    tryFindInsertBucket_congr fun s => h.same.slots _ s h2]
  split
  · exact h.apply h1
  · split
    · exact h.apply h2
    · split
      · exact h.add h1
      · exact h.add h2
      · exact h.next _

omit [DecidableEq K] in
theorem Alike.searchStep {q : BQueue} {x : BSlot} {pending : List BSlot}
    (h : Alike P ls m m' n) (hok : m'.Ok P A) (hok' : n.Ok P A') (hq : q.pending = x :: pending)
    (hx : P.lockInd x.bucket ∈ ls) :
    Confined P ls m (c.searchStep P m' hp q) (c.searchStep P n hp q) := by
  have hlock := h.lockOne hp hok hok' hx
  rw [Call.searchStep, Call.searchStep, hq]
  dsimp only
  generalize m'.lockOne P hp x.bucket = o, n.lockOne P hp x.bucket = o' at hlock ⊢
  cases hlock with
  | none => exact h.next _
  | some h =>
      dsimp only
      rw [scanSlots_congr fun s => h.same.slots _ s hx]
      split
      · exact h.next _
      · exact h.next _

omit [DecidableEq K] in
theorem Alike.traceStep {path : List CuckooRecord} {rest : List Nat} (h : Alike P ls m m' n)
    (hok : m'.Ok P A) (hok' : n.Ok P A') (hi : P.lockInd i ∈ ls) :
    Confined P ls m (traceStep P m' hp path i s rest) (traceStep P n hp path i s rest) := by
  have hlock := h.lockOne hp hok hok' hi
  rw [Libcuckoo.traceStep, Libcuckoo.traceStep]
  generalize m'.lockOne P hp i = o, n.lockOne P hp i = o' at hlock ⊢
  cases hlock with
  | none => exact h.next _
  | some h =>
      dsimp only
      rw [h.same.slots i s hi]
      split
      · exact h.next _
      · exact h.next _
      · exact h.next _

/-- **A swap**, and the insertion behind the last one. -/
theorem Alike.moveStep {path : List CuckooRecord} (h : Alike P ls m m' n) (hok : m'.Ok P A)
    (hok' : n.Ok P A') (val : V) (hchain : Chain P hp c.key path i)
    (hneed : c.moveNeed P hp path i = .these hp ls) :
    Confined P ls m (c.moveStep P m' hp path i s val) (c.moveStep P n hp path i s val) := by
  rcases path with _ | ⟨last, _ | ⟨next, path⟩⟩
  · obtain ⟨-, hls⟩ := Need.these.inj hneed
    have h1 : P.lockInd ((c.hv P).i1 hp) ∈ ls := hls ▸ mem_twoLocks.mpr (.inl rfl)
    have h2 : P.lockInd ((c.hv P).i2 hp) ∈ ls := hls ▸ mem_twoLocks.mpr (.inr rfl)
    have hi := lockInd_mem h1 h2 hchain
    have hlock := h.lockTwo hp hok hok' h1 h2
    rw [Call.moveStep, Call.moveStep]
    generalize m'.lockTwo P hp _ _ = o, n.lockTwo P hp _ _ = o' at hlock ⊢
    cases hlock with
    | none => exact h.next _
    | some h =>
        dsimp only
        rw [h.same.slots i s hi]
        split
        · exact h.conclude h1 h2 hi
        · exact h.next _
  · obtain ⟨-, hls⟩ := Need.these.inj hneed
    have h1 : P.lockInd ((c.hv P).i1 hp) ∈ ls := hls ▸ mem_threeLocks.mpr (.inl rfl)
    have h2 : P.lockInd ((c.hv P).i2 hp) ∈ ls := hls ▸ mem_threeLocks.mpr (.inr (.inl rfl))
    have hi : P.lockInd i ∈ ls := hls ▸ mem_threeLocks.mpr (.inr (.inr rfl))
    -- the first entry of the path is in a bucket of the key
    have hfirst := lockInd_mem h1 h2 hchain.2.2
    have hlock := h.lockThree hp hok hok' h1 h2 hi
    rw [Call.moveStep, Call.moveStep]
    generalize m'.lockThree P hp _ _ i = o, n.lockThree P hp _ _ i = o' at hlock ⊢
    cases hlock with
    | none => exact h.next _
    | @some m₁ n₁ h =>
        have hmove := h.moveEntry (s := last.slot) (r := s) last.hv.hash hfirst hi
        dsimp only
        generalize m₁.moveEntry P _ _ _ i s = o, n₁.moveEntry P _ _ _ i s = o' at hmove ⊢
        cases hmove with
        | none => exact h.next _
        | some h => exact h.conclude h1 h2 hfirst
  · obtain ⟨-, hls⟩ := Need.these.inj hneed
    have hlast : P.lockInd last.bucket ∈ ls := hls ▸ mem_twoLocks.mpr (.inl rfl)
    have hi : P.lockInd i ∈ ls := hls ▸ mem_twoLocks.mpr (.inr rfl)
    have hlock := h.lockTwo hp hok hok' hlast hi
    rw [Call.moveStep, Call.moveStep]
    · generalize m'.lockTwo P hp _ i = o, n.lockTwo P hp _ i = o' at hlock ⊢
      cases hlock with
      | none => exact h.next _
      | @some m₁ n₁ h =>
          have hmove := h.moveEntry (s := last.slot) (r := s) last.hv.hash hlast hi
          dsimp only
          generalize m₁.moveEntry P _ _ _ i s = o, n₁.moveEntry P _ _ _ i s = o' at hmove ⊢
          cases hmove with
          | none => exact h.next _
          | some h => exact h.next _
    · exact fun heq => by cases heq
    · exact fun heq => by cases heq

/-- **A step is confined to its locks**: it does not depend on anything else, and it changes
nothing else. -/
theorem Call.step_confined (hok : m.Ok P A) (hok' : n.Ok P A') (h : SameUnder P ls m n)
    {p : Place} (hplace : p.Ok P c.key) (hneed : p.need P c = .these hp ls) :
    Confined P ls m (c.step P m p) (c.step P n p) := by
  cases p with
  | snapshot => cases hneed
  | locking hp' =>
      obtain ⟨rfl, hls⟩ := Need.these.inj hneed
      have h1 : P.lockInd ((c.hv P).i1 hp') ∈ ls := hls ▸ mem_twoLocks.mpr (.inl rfl)
      have h2 : P.lockInd ((c.hv P).i2 hp') ∈ ls := hls ▸ mem_twoLocks.mpr (.inr rfl)
      have hlock := h.alike.lockTwo hp' hok hok' h1 h2
      rw [Call.step, Call.step]
      generalize m.lockTwo P hp' _ _ = o, n.lockTwo P hp' _ _ = o' at hlock ⊢
      cases hlock with
      | none => exact h.alike.next _
      | some h =>
          dsimp only
          split
          · exact h.lookUp h1 h2
          · exact h.cuckooInsert _ h1 h2
  | searching hp' q =>
      change q.need P hp' = .these hp ls at hneed
      rw [BQueue.need] at hneed
      split at hneed
      · cases hneed
      next x pending hpending =>
        obtain ⟨rfl, rfl⟩ := Need.these.inj hneed
        exact h.alike.searchStep hok hok' hpending (List.mem_singleton_self _)
  | tracing hp' path bucket slot rest =>
      obtain ⟨rfl, rfl⟩ := Need.these.inj hneed
      exact h.alike.traceStep hok hok' (List.mem_singleton_self _)
  | moving hp' path bucket slot =>
      rw [Place.need] at hneed
      split at hneed
      next hsome =>
        obtain ⟨val, hval⟩ := Option.isSome_iff_exists.mp hsome
        obtain rfl : hp' = hp := by
          rcases path with _ | ⟨last, _ | ⟨next, path⟩⟩ <;> exact (Need.these.inj hneed).1
        rw [Call.step, Call.step, hval]
        exact h.alike.moveStep hok hok' val hplace.1 hneed
      next => cases hneed
  | doubling hp' => cases hneed

/-! ### While a thread is at work -/

section
variable {t t' : Locker K V} {L L' : LockState K V} {ev : List (CallEvent K V)}

/-- **At work** a thread changes only what it has locked. -/
theorem Locker.Act.only {k : Nat} (h : Locker.Act P t L ev t' L') (ht : t.Ok P L)
    (hok : L.map.Ok P A) (hplace : ∀ c p, t.caller = some (c, p) → p.Ok P c.key)
    (hphase : t.phase = .taking k []) :
    ∃ hp ls, t.Works P hp ls ∧ OnlyUnder P ls L.map L'.map := by
  cases ht with
  | @taking t hp k done todo held hneeds hne hheld hhp =>
      cases hphase
      obtain ⟨c, p, rfl, hneed⟩ := hneeds.caller
      refine ⟨hp, _, ⟨c, p, k, rfl, rfl, hneed⟩, ?_⟩
      cases h with
      | work hsome hact =>
          obtain ⟨rfl, -⟩ := hact.step
          -- the step against itself: of the two conclusions the one about what it writes
          exact (Call.step_confined hok hok (.refl _) (hplace c p rfl) hneed).alike.only
  | _ => cases hphase

end

variable {ι : Type} [DecidableEq ι] {S S' : Lockers ι K V} {log log' : List (ι × CallEvent K V)}
  {k : ι}

/-- Some thread acts, but not `k`. -/
def Lockers.Others (P : Params K) (k : ι) (S : Lockers ι K V) (log : List (ι × CallEvent K V))
    (S' : Lockers ι K V) : Prop :=
  ∃ i, i ≠ k ∧ Interleaved.Acts (Locker.Act P) i S log S'

/-- **One act of another thread.** -/
theorem Lockers.Others.step {n : Nat} (hr : Run (Locking P) (.start P ι n) log S)
    (h : Lockers.Others P k S log' S') : S'.parts k = S.parts k ∧
      (∀ hp ls, (S.parts k).Works P hp ls → SameUnder P ls S.shared.map S'.shared.map) ∧
      ((S.parts k).phase = .resized → S'.shared.map = S.shared.map) := by
  obtain ⟨i, hne, hacts⟩ := h
  refine ⟨hacts.parts_of_ne hne.symm, ?_⟩
  have hguarded := locks_exclusive hr
  have hlocks := LocksOk.run hr
  obtain ⟨⟨A, -, hok⟩, hplaces⟩ := Callers.reached (locks_refine hr)
  have hinside : ∀ hp ls, (S.parts k).Works P hp ls → (S.parts k).phase.inside := by
    intro hp ls hk
    obtain ⟨_, _, _, -, hphase, -⟩ := hk
    rw [hphase]
    rfl
  cases hacts with
  | @intro ev t' L' hact =>
      show (∀ hp ls, _ → SameUnder P ls S.shared.map L'.map) ∧ (_ → L'.map = S.shared.map)
      cases hwork : (S.parts i).phase.atWork with
      | false =>
          have hmap := (hact.unguarded hwork).1
          refine ⟨fun hp ls _ => ?_, fun _ => hmap⟩
          rw [hmap]
          exact .refl _
      | true =>
          rcases Phase.atWork_cases hwork with hresized | ⟨l, htaking⟩
          · -- who expands the table is alone
            have hno : ¬(S.parts k).phase.inside := fun hk => hne (hguarded.alone i k hresized hk)
            refine ⟨fun hp ls hk => absurd (hinside hp ls hk) hno, fun hk => absurd ?_ hno⟩
            rw [hk]
            rfl
          · -- who has the locks of some buckets has none of those of `k`
            obtain ⟨hp', ls', hworks, honly⟩ := hact.only (hlocks.parts i) hok (hplaces i) htaking
            refine ⟨fun hp ls hk => ?_, fun hk => ?_⟩
            · exact honly ls (hguarded.apart i k hp' hp ls' ls hne hworks hk)
            · refine absurd (hguarded.alone k i hk ?_) hne.symm
              rw [htaking]
              rfl

end Libcuckoo
