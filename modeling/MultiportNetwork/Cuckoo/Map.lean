import MultiportNetwork.Cuckoo.Move
import Mathlib.Algebra.BigOperators.Group.Finset.Basic
import Mathlib.Data.Nat.Log

/-!
# MultiportNetwork.Cuckoo.Map

`cuckoohash_map`: the two bucket arrays, the locks with what is counted under them, lazy
rehashing and `cuckoo_fast_double`. What a thread does while it has locks is one step, so a
lock is here what it protects: `elem_counter` and `is_migrated`.

After a doubling the entries are in two arrays. `settled` is the one array they would be in
with every lock migrated; it is what the map stands for, and rehashing a lock does not change
it. `CuckooMap.Ok` is the invariant of a map that stands for `A`.
-/

namespace Libcuckoo

/-- `spinlock`. -/
structure Spinlock where
  elemCounter : Int := 0
  isMigrated : Bool := true
  deriving Repr, DecidableEq

/-- `cuckoohash_map`. Of `all_locks_` it is the current container that counts, the first
`numLocks` of `locks`. -/
structure CuckooMap (K V : Type) where
  buckets : BucketContainer K V
  oldBuckets : BucketContainer K V
  numLocks : Nat
  locks : Nat → Spinlock
  numRemainingLazyRehashLocks : Nat

/-- `load_factor_too_low` and `maximum_hashpower_exceeded`. -/
inductive ResizeError
  | loadFactorTooLow
  | maximumHashpowerExceeded (hashpower : Nat)
  deriving Repr, DecidableEq

/-- What `cuckoo_fast_double` returns. -/
inductive CuckooStatus
  | ok | failureUnderExpansion
  deriving Repr, DecidableEq

/-- `reserve_calc`. -/
def reserveCalc (n : Nat) : Nat := Nat.clog 2 ((n + slotPerBucket - 1) / slotPerBucket)

namespace CuckooMap

section
variable {K V : Type} (P : Params K)

/-- The constructor with space for `n` elements. -/
def new (n : Nat) : CuckooMap K V where
  buckets := .new (reserveCalc n)
  oldBuckets := .new 0
  numLocks := min (hashsize (reserveCalc n)) P.maxNumLocks
  locks _ := {}
  numRemainingLazyRehashLocks := 0

/-- `hashpower`. -/
def hashpower (m : CuckooMap K V) : Nat := m.buckets.hashpower

/-- `size`. -/
def size (m : CuckooMap K V) : Int := ∑ l ∈ Finset.range m.numLocks, (m.locks l).elemCounter

/-- `capacity`. -/
def capacity (m : CuckooMap K V) : Nat := m.buckets.size * slotPerBucket

/-- `num_remaining_lazy_rehash_locks` with an argument. -/
def setNumRemaining (m : CuckooMap K V) (n : Nat) : CuckooMap K V :=
  { m with
    numRemainingLazyRehashLocks := n
    oldBuckets := if n = 0 then m.oldBuckets.clearAndDeallocate else m.oldBuckets }

/-- `decrement_num_remaining_lazy_rehash_locks`. -/
def decrementNumRemaining (m : CuckooMap K V) : CuckooMap K V :=
  { m with
    numRemainingLazyRehashLocks := m.numRemainingLazyRehashLocks - 1
    oldBuckets := if m.numRemainingLazyRehashLocks = 1 then m.oldBuckets.clearAndDeallocate
      else m.oldBuckets }

/-- The buckets of the old array that lock `l` controls. -/
def controlled (m : CuckooMap K V) (l : Nat) : List Nat :=
  List.range' l ((m.oldBuckets.size - l + P.maxNumLocks - 1) / P.maxNumLocks) P.maxNumLocks

/-- What `rehash_lock` does to a lock that is not migrated. -/
def migrate (m : CuckooMap K V) (l : Nat) : CuckooMap K V :=
  { m with
    buckets := (m.controlled P l).foldl (moveBucket P m.oldBuckets) m.buckets
    locks := Function.update m.locks l { m.locks l with isMigrated := true } }

/-- `rehash_lock`. -/
def rehashLock (isLazy : Bool) (m : CuckooMap K V) (l : Nat) : CuckooMap K V :=
  if (m.locks l).isMigrated then m
  else if isLazy then (m.migrate P l).decrementNumRemaining
  else m.migrate P l

/-- `load_factor() < minimum_load_factor()`. -/
def loadFactorTooLow (m : CuckooMap K V) : Bool :=
  m.size * 2 ^ 56 < P.minimumLoadFactor * m.capacity

/-- `check_resize_validity<automatic_resize>`. -/
def checkResizeValidity (m : CuckooMap K V) (origHp newHp : Nat) :
    Except ResizeError CuckooStatus :=
  if P.maximumHashpower.any (· < newHp) then .error (.maximumHashpowerExceeded newHp)
  else if m.loadFactorTooLow P then .error .loadFactorTooLow
  else if m.hashpower ≠ origHp then .ok .failureUnderExpansion
  else .ok .ok

/-- `cuckoo_fast_double`, the loop that finishes rehashing. -/
def rehashAll (m : CuckooMap K V) : CuckooMap K V :=
  ((List.range m.numLocks).foldl (rehashLock P false) m).setNumRemaining 0

/-- `maybe_resize_locks`. -/
def maybeResizeLocks (m : CuckooMap K V) (newBucketCount : Nat) : CuckooMap K V :=
  if m.numLocks < P.maxNumLocks ∧ m.numLocks < newBucketCount then
    { m with
      numLocks := min P.maxNumLocks newBucketCount
      locks := fun l => if l < m.numLocks then m.locks l else {} }
  else m

/-- `cuckoo_fast_double`: all of the old buckets are moved. -/
def moveAll (m : CuckooMap K V) : CuckooMap K V :=
  { m with
    buckets := (List.range m.oldBuckets.size).foldl (moveBucket P m.oldBuckets) m.buckets }

/-- `cuckoo_fast_double`: all current locks are marked as un-migrated. -/
def markAll (m : CuckooMap K V) : CuckooMap K V :=
  { m with locks := fun l =>
      if l < m.numLocks then { m.locks l with isMigrated := false } else m.locks l }

/-- `cuckoo_fast_double`, once the buckets are in `old_buckets_` and the current ones new. -/
def spread (m : CuckooMap K V) : CuckooMap K V :=
  if m.oldBuckets.size < P.maxNumLocks then (m.moveAll P).setNumRemaining 0
  else m.markAll.setNumRemaining m.markAll.numLocks

/-- `cuckoo_fast_double`, with all locks taken and the resize found valid. -/
def grow (m : CuckooMap K V) (newHp : Nat) : CuckooMap K V :=
  let m := (m.rehashAll P).maybeResizeLocks P (hashsize newHp)
  spread P { m with oldBuckets := m.buckets, buckets := .new newHp }

/-- `cuckoo_fast_double`. -/
def cuckooFastDouble (m : CuckooMap K V) (currentHp : Nat) :
    Except ResizeError (CuckooStatus × CuckooMap K V) :=
  match m.checkResizeValidity P currentHp (currentHp + 1) with
  | .error e => .error e
  | .ok .ok => .ok (.ok, m.grow P (currentHp + 1))
  | .ok st => .ok (st, m)

/-- `lock_one`: with the bucket locked the hashpower is checked, `none` if it has changed. -/
def lockOne (m : CuckooMap K V) (hp i : Nat) : Option (CuckooMap K V) :=
  if m.hashpower ≠ hp then none
  else some (m.rehashLock P true (P.lockInd i))

/-- Two locks, swapped where the second is lower. -/
def inOrder (a b : Nat) : Nat × Nat := if b < a then (b, a) else (a, b)

/-- `lock_two`. -/
def lockTwo (m : CuckooMap K V) (hp i1 i2 : Nat) : Option (CuckooMap K V) :=
  let (l1, l2) := inOrder (P.lockInd i1) (P.lockInd i2)
  if m.hashpower ≠ hp then none
  else some ((m.rehashLock P true l1).rehashLock P true l2)

/-- `lock_three`. -/
def lockThree (m : CuckooMap K V) (hp i1 i2 i3 : Nat) : Option (CuckooMap K V) :=
  let (l1, l2) := inOrder (P.lockInd i2) (P.lockInd i3)
  let (l0, l2) := inOrder (P.lockInd i1) l2
  let (l0, l1) := inOrder l0 l1
  if m.hashpower ≠ hp then none
  else some (((m.rehashLock P true l0).rehashLock P true l1).rehashLock P true l2)

/-- `add_to_bucket`. -/
def addToBucket (m : CuckooMap K V) (ind slot : Nat) (e : Entry K V) : CuckooMap K V :=
  { m with
    buckets := m.buckets.setKV ind slot e
    locks := Function.update m.locks (P.lockInd ind)
      { m.locks (P.lockInd ind) with elemCounter := (m.locks (P.lockInd ind)).elemCounter + 1 } }

/-- `del_from_bucket`. -/
def delFromBucket (m : CuckooMap K V) (ind slot : Nat) : CuckooMap K V :=
  { m with
    buckets := m.buckets.eraseKV ind slot
    locks := Function.update m.locks (P.lockInd ind)
      { m.locks (P.lockInd ind) with elemCounter := (m.locks (P.lockInd ind)).elemCounter - 1 } }

/-- The array the entries are in once every lock is migrated. -/
def settled (m : CuckooMap K V) : Cells (Nat × Nat) (Entry K V)
  | (i, s) =>
    if (m.locks (P.lockInd i)).isMigrated then m.buckets.slots (i, s)
    else doubled P m.oldBuckets (i, s)

end

variable {K V : Type} {P : Params K} {A : K → Option V} {m m' : CuckooMap K V}
  {T : Cells (Nat × Nat) (Entry K V)} {e : Entry K V} {i s l hp : Nat}

/-! ### The invariant -/

/-- `n` keys have a value. -/
def Counts (A : K → Option V) (n : Int) : Prop :=
  ∃ keys : Finset K, (∀ k, k ∈ keys ↔ (A k).isSome) ∧ n = keys.card

/-- The map stands for `A`, up to the count of the locks that are not migrated. -/
structure Core (P : Params K) (A : K → Option V) (m : CuckooMap K V) : Prop where
  placed : Placed P m.hashpower (m.settled P)
  represents : Represents (m.settled P) A
  counts : Counts A m.size
  oldPlaced : Placed P m.oldBuckets.hashpower m.oldBuckets.slots
  waiting : ∀ i s, (m.locks (P.lockInd i)).isMigrated = false → m.buckets.slots (i, s) = none
  numLocks : m.numLocks = min (2 ^ m.hashpower) P.maxNumLocks
  spare : ∀ l, m.numLocks ≤ l → (m.locks l).isMigrated = true
  lagging : ∀ l, (m.locks l).isMigrated = false →
    m.oldBuckets.hashpower + 1 = m.hashpower ∧ P.lockPower ≤ m.oldBuckets.hashpower

/-- The locks that are not migrated. -/
def unmigrated (m : CuckooMap K V) : Finset Nat :=
  (Finset.range m.numLocks).filter fun l => (m.locks l).isMigrated = false

/-- **The map stands for `A`**, and knows how many locks are to be rehashed. -/
structure Ok (P : Params K) (A : K → Option V) (m : CuckooMap K V) : Prop
    extends Core P A m where
  remaining : m.numRemainingLazyRehashLocks = m.unmigrated.card
  released : m.numRemainingLazyRehashLocks = 0 → ∀ p, m.oldBuckets.slots p = none

theorem settled_migrated (h : (m.locks (P.lockInd i)).isMigrated = true) :
    m.settled P (i, s) = m.buckets.slots (i, s) :=
  if_pos h

theorem settled_lagging (h : (m.locks (P.lockInd i)).isMigrated = false) :
    m.settled P (i, s) = doubled P m.oldBuckets (i, s) :=
  if_neg (by rw [h]; exact Bool.false_ne_true)

theorem Core.lt_of_lagging (h : m.Core P A) (hl : (m.locks l).isMigrated = false) :
    l < P.maxNumLocks := by
  have hlt : l < m.numLocks := by
    by_contra hge
    rw [h.spare l (Nat.le_of_not_lt hge)] at hl
    cases hl
  rw [h.numLocks] at hlt
  exact Nat.lt_of_lt_of_le hlt (Nat.min_le_right _ _)

/-! ### Rehashing a lock -/

theorem mem_controlled (hl : l < P.maxNumLocks) {b : Nat} :
    b ∈ m.controlled P l ↔ b < m.oldBuckets.size ∧ P.lockInd b = l := by
  have hpos : 0 < P.maxNumLocks := Nat.two_pow_pos _
  rw [controlled, List.mem_range', P.lockInd_eq_mod]
  constructor
  · rintro ⟨k, hk, rfl⟩
    have hmul := Nat.mul_lt_mul_of_pos_left hk hpos
    have hdiv := Nat.mul_div_le (m.oldBuckets.size - l + P.maxNumLocks - 1) P.maxNumLocks
    have hstep : P.maxNumLocks * (k + 1) ≤ m.oldBuckets.size - l + P.maxNumLocks - 1 :=
      Nat.le_trans (Nat.mul_le_mul_left _ hk) hdiv
    rw [Nat.mul_succ] at hstep
    rw [Nat.add_mul_mod_self_left, Nat.mod_eq_of_lt hl]
    exact ⟨by omega, rfl⟩
  · rintro ⟨hb, rfl⟩
    have hsplit := Nat.mod_add_div b P.maxNumLocks
    refine ⟨b / P.maxNumLocks, ?_, hsplit.symm⟩
    rw [Nat.lt_iff_add_one_le, Nat.le_div_iff_mul_le hpos, Nat.add_mul, Nat.one_mul, Nat.mul_comm]
    omega

theorem controlled_nodup : (m.controlled P l).Nodup := List.nodup_range' _ (Nat.two_pow_pos _)

/-- The two buckets that an old bucket goes to are controlled by its lock. -/
theorem Core.origin_controlled (h : m.Core P A) (hl : (m.locks l).isMigrated = false)
    (hi : i < 2 ^ m.hashpower) :
    origin m.oldBuckets.hashpower i ∈ m.controlled P l ↔ P.lockInd i = l := by
  obtain ⟨hhp, hle⟩ := h.lagging l hl
  rw [mem_controlled (h.lt_of_lagging hl), P.lockInd_origin hle]
  rw [← hhp] at hi
  exact ⟨fun hmem => hmem.2, fun heq => ⟨origin_lt hi, heq⟩⟩

/-- What `rehash_lock` makes of the current buckets. -/
theorem Core.migrate_slots (h : m.Core P A) (hl : (m.locks l).isMigrated = false) :
    (m.migrate P l).buckets.slots (i, s) =
      if P.lockInd i = l then doubled P m.oldBuckets (i, s) else m.buckets.slots (i, s) := by
  obtain ⟨hhp, hle⟩ := h.lagging l hl
  have hempty : ∀ i s, P.lockInd i = l → m.buckets.slots (i, s) = none := by
    rintro i s rfl
    exact h.waiting i s hl
  have hlock : ∀ {i}, origin m.oldBuckets.hashpower i ∈ m.controlled P l → P.lockInd i = l := by
    intro i hmem
    rw [← P.lockInd_origin hle]
    exact ((mem_controlled (h.lt_of_lagging hl)).mp hmem).2
  rw [migrate, moveBuckets_slots h.oldPlaced _ hhp.symm
    (fun ind hind => ((mem_controlled (h.lt_of_lagging hl)).mp hind).1) controlled_nodup
    (fun i s hi => hempty i s (hlock hi))]
  by_cases hi : i < 2 ^ m.hashpower
  · simp only [h.origin_controlled hl hi]
  · -- out of range there is nothing in either array
    have hnone : doubled P m.oldBuckets (i, s) = none := by
      rw [Option.eq_none_iff_forall_ne_some]
      intro e he
      exact hi (hhp ▸ h.oldPlaced.doubled.lt he)
    by_cases heq : P.lockInd i = l
    · rw [if_pos heq, hempty i s heq, hnone, ite_self]
    · rw [if_neg (mt hlock heq), if_neg heq]

@[simp] theorem migrate_hashpower : (m.migrate P l).hashpower = m.hashpower :=
  moveBuckets_hashpower _ _

theorem migrate_locks : (m.migrate P l).locks =
    Function.update m.locks l { m.locks l with isMigrated := true } := rfl

@[simp] theorem migrate_migrated : ((m.migrate P l).locks l).isMigrated = true := by
  simp [migrate_locks]

theorem migrate_elemCounter (j : Nat) :
    ((m.migrate P l).locks j).elemCounter = (m.locks j).elemCounter := by
  rw [migrate_locks, Function.update_apply]
  split
  next heq => rw [heq]
  · rfl

theorem migrate_lagging {j : Nat} (hj : ((m.migrate P l).locks j).isMigrated = false) :
    j ≠ l ∧ (m.locks j).isMigrated = false := by
  rw [migrate_locks, Function.update_apply] at hj
  split at hj
  · cases hj
  next hne => exact ⟨hne, hj⟩

/-- **Rehashing a lock leaves the entries where they are**, as seen from the one array. -/
theorem Core.migrate_settled (h : m.Core P A) (hl : (m.locks l).isMigrated = false) :
    (m.migrate P l).settled P = m.settled P := by
  funext ⟨i, s⟩
  by_cases hi : P.lockInd i = l
  · subst hi
    rw [settled_migrated migrate_migrated, settled_lagging hl, h.migrate_slots hl, if_pos rfl]
  · have hsame : (m.migrate P l).locks (P.lockInd i) = m.locks (P.lockInd i) :=
      Function.update_of_ne hi _ _
    rw [settled, settled, hsame, h.migrate_slots hl, if_neg hi]
    rfl

theorem Core.migrate (h : m.Core P A) (hl : (m.locks l).isMigrated = false) :
    (m.migrate P l).Core P A where
  placed := by
    rw [h.migrate_settled hl, migrate_hashpower]
    exact h.placed
  represents := by
    rw [h.migrate_settled hl]
    exact h.represents
  counts := by
    rw [size]
    simp only [migrate_elemCounter]
    exact h.counts
  oldPlaced := h.oldPlaced
  waiting i s hi := by
    obtain ⟨hne, hlag⟩ := migrate_lagging hi
    rw [h.migrate_slots hl, if_neg hne]
    exact h.waiting i s hlag
  numLocks := by
    rw [migrate_hashpower]
    exact h.numLocks
  spare j hj := by
    by_contra hlag
    have := h.spare j hj
    rw [(migrate_lagging (Bool.eq_false_iff.mpr hlag)).2] at this
    cases this
  lagging j hj := by
    rw [migrate_hashpower]
    exact h.lagging j (migrate_lagging hj).2

/-! ### Giving up the old array -/

/-- `old_buckets_` is deallocated. -/
def dropOld (m : CuckooMap K V) : CuckooMap K V :=
  { m with numRemainingLazyRehashLocks := 0, oldBuckets := m.oldBuckets.clearAndDeallocate }

theorem setNumRemaining_zero : m.setNumRemaining 0 = m.dropOld := rfl

theorem setNumRemaining_pos {n : Nat} (hn : n ≠ 0) :
    m.setNumRemaining n = { m with numRemainingLazyRehashLocks := n } := by
  rw [setNumRemaining, if_neg hn]

theorem decrement_last (h : m.numRemainingLazyRehashLocks = 1) :
    m.decrementNumRemaining = m.dropOld := by
  rw [decrementNumRemaining, if_pos h, h]
  rfl

theorem decrement_more (h : m.numRemainingLazyRehashLocks ≠ 1) :
    m.decrementNumRemaining =
      { m with numRemainingLazyRehashLocks := m.numRemainingLazyRehashLocks - 1 } := by
  rw [decrementNumRemaining, if_neg h]

theorem dropOld_settled (hall : ∀ l, (m.locks l).isMigrated = true) :
    m.dropOld.settled P = m.settled P := by
  funext ⟨i, s⟩
  rw [settled_migrated (hall _)]
  exact settled_migrated (hall _)

/-- With every lock migrated the old array is of no use. -/
theorem Core.dropOld (h : m.Core P A) (hall : ∀ l, (m.locks l).isMigrated = true) :
    m.dropOld.Core P A :=
  ⟨dropOld_settled hall ▸ h.placed, dropOld_settled hall ▸ h.represents, h.counts,
    Placed.empty P _, h.waiting, h.numLocks, h.spare,
    fun l hl => absurd (hl.symm.trans (hall l)) Bool.false_ne_true⟩

theorem unmigrated_of_all (hall : ∀ l, (m.locks l).isMigrated = true) : m.unmigrated = ∅ :=
  Finset.filter_eq_empty_iff.mpr fun l _ => by rw [hall l]; exact Bool.noConfusion

theorem Core.mem_unmigrated (h : m.Core P A) :
    l ∈ m.unmigrated ↔ (m.locks l).isMigrated = false := by
  rw [unmigrated, Finset.mem_filter, Finset.mem_range]
  refine ⟨fun hl => hl.2, fun hl => ⟨?_, hl⟩⟩
  by_contra hge
  rw [h.spare l (Nat.le_of_not_lt hge)] at hl
  cases hl

theorem Core.all_of_unmigrated (h : m.Core P A) (hempty : m.unmigrated = ∅) (l : Nat) :
    (m.locks l).isMigrated = true := by
  by_contra hl
  have hmem := h.mem_unmigrated.mpr (Bool.eq_false_iff.mpr hl)
  rw [hempty] at hmem
  cases hmem

theorem Core.dropOld_ok (h : m.Core P A) (hall : ∀ l, (m.locks l).isMigrated = true) :
    m.dropOld.Ok P A := by
  refine ⟨h.dropOld hall, ?_, fun _ _ => rfl⟩
  rw [unmigrated_of_all (m := m.dropOld) hall]
  rfl

theorem Core.setRemaining (h : m.Core P A) (n : Nat) :
    Core P A { m with numRemainingLazyRehashLocks := n } :=
  ⟨h.placed, h.represents, h.counts, h.oldPlaced, h.waiting, h.numLocks, h.spare, h.lagging⟩

/-! ### Rehashing on demand -/

theorem migrate_unmigrated : (m.migrate P l).unmigrated = m.unmigrated.erase l := by
  ext j
  rw [Finset.mem_erase, unmigrated, unmigrated, Finset.mem_filter, Finset.mem_filter]
  constructor
  · rintro ⟨hj, hlag⟩
    obtain ⟨hne, hlag⟩ := migrate_lagging hlag
    exact ⟨hne, hj, hlag⟩
  · rintro ⟨hne, hj, hlag⟩
    exact ⟨hj, by rw [migrate_locks, Function.update_of_ne hne]; exact hlag⟩

theorem migrate_flags {j : Nat} (hj : (m.locks j).isMigrated = true) :
    ((m.migrate P l).locks j).isMigrated = true := by
  by_contra hlag
  rw [(migrate_lagging (Bool.eq_false_iff.mpr hlag)).2] at hj
  cases hj

/-- What rehashing leaves as it was. -/
structure Rehashed (P : Params K) (m m' : CuckooMap K V) : Prop where
  hashpower : m'.hashpower = m.hashpower
  numLocks : m'.numLocks = m.numLocks
  settled : m'.settled P = m.settled P
  flags : ∀ l, (m.locks l).isMigrated = true → (m'.locks l).isMigrated = true

theorem Rehashed.refl (m : CuckooMap K V) : Rehashed P m m := ⟨rfl, rfl, rfl, fun _ h => h⟩

theorem Rehashed.trans {m'' : CuckooMap K V} (h : Rehashed P m m') (h' : Rehashed P m' m'') :
    Rehashed P m m'' :=
  ⟨h'.hashpower.trans h.hashpower, h'.numLocks.trans h.numLocks, h'.settled.trans h.settled,
    fun l hl => h'.flags l (h.flags l hl)⟩

theorem Core.migrate_rehashed (h : m.Core P A) (hl : (m.locks l).isMigrated = false) :
    Rehashed P m (m.migrate P l) :=
  ⟨migrate_hashpower, rfl, h.migrate_settled hl, fun _ => migrate_flags⟩

/-- **A lock is rehashed on demand**: the map stands for what it stood for, and the old array
is given up with the last lock. -/
theorem Ok.rehashLock (h : m.Ok P A) (l : Nat) :
    Ok P A (m.rehashLock P true l) ∧ Rehashed P m (m.rehashLock P true l) ∧
      ((m.rehashLock P true l).locks l).isMigrated = true := by
  rw [CuckooMap.rehashLock]
  split
  next hl => exact ⟨h, .refl m, hl⟩
  next hl =>
    have hl := Bool.eq_false_iff.mpr hl
    have hcore := h.toCore.migrate hl
    have hkept := h.toCore.migrate_rehashed hl
    have hcard := Finset.card_erase_add_one (h.toCore.mem_unmigrated.mpr hl)
    rw [← migrate_unmigrated (P := P), ← h.remaining] at hcard
    rw [if_pos rfl]
    by_cases hone : m.numRemainingLazyRehashLocks = 1
    · have hall := hcore.all_of_unmigrated (Finset.card_eq_zero.mp (by omega))
      rw [decrement_last (m := m.migrate P l) hone]
      exact ⟨hcore.dropOld_ok hall, ⟨hkept.hashpower, rfl,
        (dropOld_settled hall).trans hkept.settled, hkept.flags⟩, hall l⟩
    · rw [decrement_more (m := m.migrate P l) hone]
      refine ⟨⟨hcore.setRemaining _, ?_, fun hzero => ?_⟩,
        ⟨hkept.hashpower, rfl, hkept.settled, hkept.flags⟩, migrate_migrated (P := P)⟩
      · change m.numRemainingLazyRehashLocks - 1 = (m.migrate P l).unmigrated.card
        omega
      · change m.numRemainingLazyRehashLocks - 1 = 0 at hzero
        omega

/-! ### Taking locks -/

/-- The locks of some buckets have been taken, with the hashpower as expected. -/
structure Locked (P : Params K) (A : K → Option V) (m : CuckooMap K V) (hp : Nat)
    (inds : List Nat) (m' : CuckooMap K V) : Prop where
  ok : m'.Ok P A
  rehashed : Rehashed P m m'
  expected : m.hashpower = hp
  migrated : ∀ i ∈ inds, (m'.locks (P.lockInd i)).isMigrated = true

theorem Locked.hashpower {inds : List Nat} (h : Locked P A m hp inds m') : m'.hashpower = hp :=
  h.rehashed.hashpower.trans h.expected

/-- With its lock taken, a bucket is the one the map stands for. -/
theorem Locked.slots {inds : List Nat} (h : Locked P A m hp inds m') (hi : i ∈ inds) :
    m'.buckets.slots (i, s) = m.settled P (i, s) := by
  rw [← h.rehashed.settled, settled_migrated (h.migrated i hi)]

theorem Ok.lockOne (h : m.Ok P A) (heq : m.lockOne P hp i = some m') :
    Locked P A m hp [i] m' := by
  rw [CuckooMap.lockOne] at heq
  split at heq
  · cases heq
  next hhp =>
    cases heq
    obtain ⟨hok, hkept, hmigrated⟩ := h.rehashLock (P.lockInd i)
    refine ⟨hok, hkept, not_not.mp hhp, fun j hj => ?_⟩
    rw [List.mem_singleton.mp hj]
    exact hmigrated

/-- Locks are rehashed one after the other. -/
theorem Ok.rehashLocks (h : m.Ok P A) (ls : List Nat) :
    Ok P A (ls.foldl (CuckooMap.rehashLock P true) m) ∧
      Rehashed P m (ls.foldl (CuckooMap.rehashLock P true) m) ∧
      ∀ l ∈ ls, ((ls.foldl (CuckooMap.rehashLock P true) m).locks l).isMigrated = true := by
  induction ls generalizing m with
  | nil => exact ⟨h, .refl m, fun _ hl => by cases hl⟩
  | cons l ls ih =>
      obtain ⟨hok, hkept, hmigrated⟩ := h.rehashLock l
      obtain ⟨hok', hkept', hall⟩ := ih hok
      refine ⟨hok', hkept.trans hkept', fun j hj => ?_⟩
      rcases List.mem_cons.mp hj with rfl | hj
      · exact hkept'.flags _ hmigrated
      · exact hall j hj

theorem mem_inOrder {a b x : Nat} : x = (inOrder a b).1 ∨ x = (inOrder a b).2 ↔ x = a ∨ x = b := by
  unfold inOrder
  split
  · exact or_comm
  · rfl

theorem Ok.lockTwo (h : m.Ok P A) {i1 i2 : Nat} (heq : m.lockTwo P hp i1 i2 = some m') :
    Locked P A m hp [i1, i2] m' := by
  rw [CuckooMap.lockTwo] at heq
  dsimp only at heq
  split at heq
  · cases heq
  next hhp =>
    cases heq
    obtain ⟨hok, hkept, hall⟩ := h.rehashLocks
      [(inOrder (P.lockInd i1) (P.lockInd i2)).1, (inOrder (P.lockInd i1) (P.lockInd i2)).2]
    refine ⟨hok, hkept, not_not.mp hhp, fun j hj => hall _ ?_⟩
    have hj : P.lockInd j = P.lockInd i1 ∨ P.lockInd j = P.lockInd i2 := by
      rcases List.mem_pair.mp hj with rfl | rfl
      · exact .inl rfl
      · exact .inr rfl
    exact List.mem_pair.mpr (mem_inOrder.mpr hj)

theorem Ok.lockThree (h : m.Ok P A) {i1 i2 i3 : Nat}
    (heq : m.lockThree P hp i1 i2 i3 = some m') : Locked P A m hp [i1, i2, i3] m' := by
  rw [CuckooMap.lockThree] at heq
  dsimp only at heq
  split at heq
  · cases heq
  next hhp =>
    cases heq
    generalize hfirst : inOrder (P.lockInd i2) (P.lockInd i3) = first
    generalize hsecond : inOrder (P.lockInd i1) first.2 = second
    obtain ⟨hok, hkept, hall⟩ := h.rehashLocks
      [(inOrder second.1 first.1).1, (inOrder second.1 first.1).2, second.2]
    refine ⟨hok, hkept, not_not.mp hhp, fun j hj => hall _ ?_⟩
    have hfirst {x} : x = first.1 ∨ x = first.2 ↔ x = P.lockInd i2 ∨ x = P.lockInd i3 := by
      rw [← hfirst]
      exact mem_inOrder
    have hsecond {x} : x = second.1 ∨ x = second.2 ↔ x = P.lockInd i1 ∨ x = first.2 := by
      rw [← hsecond]
      exact mem_inOrder
    have hmem {x} (hx : (x = second.1 ∨ x = first.1) ∨ x = second.2) :
        x ∈ [(inOrder second.1 first.1).1, (inOrder second.1 first.1).2, second.2] := by
      rw [← mem_inOrder, or_assoc] at hx
      simpa using hx
    have hj : P.lockInd j = P.lockInd i1 ∨ P.lockInd j = P.lockInd i2 ∨
        P.lockInd j = P.lockInd i3 := by
      simp only [List.mem_cons, List.not_mem_nil, or_false] at hj
      rcases hj with rfl | rfl | rfl
      · exact .inl rfl
      · exact .inr (.inl rfl)
      · exact .inr (.inr rfl)
    have hlast (hx : P.lockInd j = second.1 ∨ P.lockInd j = second.2) := hmem (x := P.lockInd j)
      (hx.imp_left Or.inl)
    rcases hj with hj | hj
    · exact hlast (hsecond.mpr (.inl hj))
    · rcases hfirst.mpr hj with hj | hj
      · exact hmem (.inl (.inr hj))
      · exact hlast (hsecond.mpr (.inr hj))

end CuckooMap

end Libcuckoo
