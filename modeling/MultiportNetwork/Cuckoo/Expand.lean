import MultiportNetwork.Cuckoo.Map

/-!
# MultiportNetwork.Cuckoo.Expand

`cuckoo_fast_double` keeps the invariant, whichever of its ways it goes: with few buckets all
entries are moved at once, with as many as locks or more they are left to be moved on demand.
-/

namespace Libcuckoo.CuckooMap

variable {K V : Type} {P : Params K} {A : K → Option V} {m m' : CuckooMap K V} {hp i s l : Nat}

/-! ### A new map -/

theorem Ok.new (P : Params K) (n : Nat) : Ok P (fun _ => none : K → Option V) (.new P n) := by
  have hsettled : (CuckooMap.new P n : CuckooMap K V).settled P = fun _ => none := by
    funext ⟨i, s⟩
    rfl
  refine ⟨⟨?_, ?_, ?_, Placed.empty P _, fun _ _ _ => rfl, rfl, fun _ _ => rfl, nofun⟩, ?_,
    fun _ _ => rfl⟩
  · rw [hsettled]
    exact Placed.empty P _
  · rw [hsettled]
    exact Represents.empty
  · refine ⟨∅, fun k => by simp, ?_⟩
    simp [size, CuckooMap.new]
  · rw [unmigrated_of_all fun _ => rfl]
    rfl

/-! ### All locks rehashed -/

-- with all locks taken nobody counts the locks that are left, so it is `Core` that is kept

theorem Core.rehashLock (h : m.Core P A) (l : Nat) :
    Core P A (m.rehashLock P false l) ∧ Rehashed P m (m.rehashLock P false l) ∧
      ((m.rehashLock P false l).locks l).isMigrated = true := by
  rw [CuckooMap.rehashLock]
  split
  next hl => exact ⟨h, .refl m, hl⟩
  next hl =>
    have hl := Bool.eq_false_iff.mpr hl
    exact ⟨h.migrate hl, h.migrate_rehashed hl, migrate_migrated (P := P)⟩

/-- Locks are rehashed one after the other; one that is migrated stays so. -/
theorem Core.rehashLocks (h : m.Core P A) (ls : List Nat) :
    Core P A (ls.foldl (CuckooMap.rehashLock P false) m) ∧
      Rehashed P m (ls.foldl (CuckooMap.rehashLock P false) m) ∧
      ∀ l ∈ ls, ((ls.foldl (CuckooMap.rehashLock P false) m).locks l).isMigrated = true := by
  induction ls generalizing m with
  | nil => exact ⟨h, .refl m, fun _ hl => by cases hl⟩
  | cons l ls ih =>
      obtain ⟨hcore, hkept, hmigrated⟩ := h.rehashLock l
      obtain ⟨hcore', hkept', hall⟩ := ih hcore
      refine ⟨hcore', hkept.trans hkept', fun j hj => ?_⟩
      rcases List.mem_cons.mp hj with rfl | hj
      · exact hkept'.flags _ hmigrated
      · exact hall j hj

/-- **After the loop every entry is in the current buckets.** -/
theorem Core.rehashAll (h : m.Core P A) :
    Core P A (m.rehashAll P) ∧ Rehashed P m (m.rehashAll P) ∧
      ∀ l, ((m.rehashAll P).locks l).isMigrated = true := by
  obtain ⟨hcore, hkept, hmigrated⟩ := h.rehashLocks (List.range m.numLocks)
  have hall : ∀ l, (((List.range m.numLocks).foldl (CuckooMap.rehashLock P false) m).locks
      l).isMigrated = true := by
    intro l
    rcases Nat.lt_or_ge l m.numLocks with hl | hl
    -- there are no locks beyond, and what is not there counts as migrated
    · exact hmigrated l (List.mem_range.mpr hl)
    · exact hcore.spare l (by rw [hkept.numLocks]; exact hl)
  rw [CuckooMap.rehashAll, setNumRemaining_zero]
  exact ⟨hcore.dropOld hall, ⟨hkept.hashpower, hkept.numLocks,
    (dropOld_settled hall).trans hkept.settled, hkept.flags⟩, hall⟩

/-! ### More locks -/

theorem maybeResizeLocks_buckets (n : Nat) :
    (m.maybeResizeLocks P n).buckets = m.buckets := by
  unfold maybeResizeLocks
  split <;> rfl

theorem maybeResizeLocks_flags (n : Nat) (hall : ∀ l, (m.locks l).isMigrated = true) (l : Nat) :
    ((m.maybeResizeLocks P n).locks l).isMigrated = true := by
  unfold maybeResizeLocks
  split
  · dsimp only
    split
    · exact hall l
    · rfl
  · exact hall l

/-- **There are as many locks as buckets**, up to the maximum, before the buckets are there. -/
theorem Core.resize_numLocks (h : m.Core P A) :
    (m.maybeResizeLocks P (2 ^ (m.hashpower + 1))).numLocks =
      min (2 ^ (m.hashpower + 1)) P.maxNumLocks := by
  have hnum := h.numLocks
  unfold maybeResizeLocks
  split
  · exact Nat.min_comm _ _
  · rw [Nat.pow_succ] at *
    omega

/-- **The counters are carried over**, and new locks count nothing. -/
theorem maybeResizeLocks_size (n : Nat) : (m.maybeResizeLocks P n).size = m.size := by
  unfold maybeResizeLocks
  split
  next hlt =>
    have hsub : Finset.range m.numLocks ⊆ Finset.range (min P.maxNumLocks n) :=
      Finset.range_mono (Nat.le_of_lt (Nat.lt_min.mpr hlt))
    simp only [size]
    rw [← Finset.sum_subset hsub]
    · exact Finset.sum_congr rfl fun l hl => by rw [if_pos (Finset.mem_range.mp hl)]
    · intro l _ hl
      rw [if_neg (mt Finset.mem_range.mpr hl)]
  · rfl

/-! ### Doubling -/

/-- Everything is in the old array, and the current one is new and twice as large. This is the
state in the middle of `cuckoo_fast_double`, from which it goes either way; it does not have
`settled` for the map, since the flags say of no lock that its entries are in the old array. -/
structure Swapped (P : Params K) (A : K → Option V) (m : CuckooMap K V) : Prop where
  placed : Placed P m.oldBuckets.hashpower m.oldBuckets.slots
  represents : Represents m.oldBuckets.slots A
  buckets : m.buckets = .new (m.oldBuckets.hashpower + 1)
  counts : Counts A m.size
  numLocks : m.numLocks = min (2 ^ (m.oldBuckets.hashpower + 1)) P.maxNumLocks
  flags : ∀ l, (m.locks l).isMigrated = true

theorem Swapped.hashpower (h : Swapped P A m) :
    m.hashpower = m.oldBuckets.hashpower + 1 := by
  rw [CuckooMap.hashpower, h.buckets]
  rfl

theorem moveAll_hashpower : (m.moveAll P).hashpower = m.hashpower := moveBuckets_hashpower _ _

/-- Every old bucket is moved once, so the two buckets it goes to are still empty then. -/
theorem Swapped.moveAll_slots (h : Swapped P A m) :
    (m.moveAll P).buckets.slots (i, s) = doubled P m.oldBuckets (i, s) := by
  have hnew : m.buckets.hashpower = m.oldBuckets.hashpower + 1 := h.hashpower
  have hempty : ∀ i s, m.buckets.slots (i, s) = none := fun i s => by
    rw [h.buckets]
    rfl
  rw [moveAll, moveBuckets_slots h.placed (List.range m.oldBuckets.size) hnew
    (fun ind hind => List.mem_range.mp hind) List.nodup_range (fun i s _ => hempty i s), hempty]
  split
  · rfl
  next hi =>
    -- beyond the old buckets there is nothing to come from
    refine ((Option.eq_none_iff_forall_ne_some).mpr fun e he => hi ?_).symm
    exact List.mem_range.mpr (origin_lt (h.placed.doubled.lt he))

/-- All buckets are moved at once. -/
theorem Swapped.moveAll (h : Swapped P A m) : Core P A (m.moveAll P) := by
  have hsettled : (m.moveAll P).settled P = doubled P m.oldBuckets := by
    funext ⟨i, s⟩
    rw [settled_migrated (m := m.moveAll P) (h.flags _)]
    exact h.moveAll_slots
  refine ⟨?_, ?_, h.counts, h.placed, fun i _ hi => ?_, ?_, fun l _ => h.flags l, fun l hl => ?_⟩
  · rw [hsettled, moveAll_hashpower, h.hashpower]
    exact h.placed.doubled
  · rw [hsettled]
    exact Represents.doubled h.placed h.represents
  · exact absurd (hi.symm.trans (h.flags _)) Bool.false_ne_true
  · rw [moveAll_hashpower, h.hashpower]
    exact h.numLocks
  · exact absurd (hl.symm.trans (h.flags _)) Bool.false_ne_true

/-- The locks that are not migrated are those that there are. -/
theorem Swapped.markAll_flag (h : Swapped P A m) :
    (m.markAll.locks l).isMigrated = false ↔ l < m.numLocks := by
  rw [CuckooMap.markAll]
  dsimp only
  split
  next hl => exact iff_of_true rfl hl
  next hl => exact iff_of_false (by rw [h.flags]; exact Bool.noConfusion) hl

theorem markAll_size : m.markAll.size = m.size :=
  Finset.sum_congr rfl fun l hl => by
    rw [CuckooMap.markAll]
    dsimp only
    rw [if_pos (Finset.mem_range.mp hl)]

/-- All locks are marked, and rehashed on demand. -/
theorem Swapped.markAll (h : Swapped P A m) (hle : P.maxNumLocks ≤ m.oldBuckets.size) :
    Core P A m.markAll := by
  have hpow : P.maxNumLocks ≤ 2 ^ m.oldBuckets.hashpower := hle
  have hnum : m.numLocks = P.maxNumLocks := by
    rw [h.numLocks, Nat.pow_succ]
    omega
  -- there are as many locks as there can be, so every bucket has one that is marked
  have hsettled : m.markAll.settled P = doubled P m.oldBuckets := by
    funext ⟨i, s⟩
    refine settled_lagging (h.markAll_flag.mpr ?_)
    rw [hnum, P.lockInd_eq_mod]
    exact Nat.mod_lt _ (Nat.two_pow_pos _)
  have hhp : m.markAll.hashpower = m.oldBuckets.hashpower + 1 := h.hashpower
  refine ⟨?_, ?_, ?_, h.placed, fun i s _ => ?_, ?_, fun l hl => ?_, fun l _ => ?_⟩
  · rw [hsettled, hhp]
    exact h.placed.doubled
  · rw [hsettled]
    exact Represents.doubled h.placed h.represents
  · rw [markAll_size]
    exact h.counts
  · change m.buckets.slots (i, s) = none
    rw [h.buckets]
    rfl
  · rw [hhp]
    exact h.numLocks
  · by_contra hlag
    exact absurd (h.markAll_flag.mp (Bool.eq_false_iff.mpr hlag)) (Nat.not_lt.mpr hl)
  · exact ⟨hhp.symm, (Nat.pow_le_pow_iff_right Nat.one_lt_two).mp hpow⟩

theorem Swapped.markAll_unmigrated (h : Swapped P A m) :
    m.markAll.unmigrated = Finset.range m.numLocks := by
  ext l
  rw [unmigrated, Finset.mem_filter, h.markAll_flag, Finset.mem_range, Finset.mem_range]
  exact and_self_iff

/-- **Either way the map stands for what was in the old array.** -/
theorem Swapped.spread (h : Swapped P A m) :
    (m.spread P).Ok P A ∧ (m.spread P).hashpower = m.hashpower := by
  rw [CuckooMap.spread]
  split
  next hlt =>
    rw [setNumRemaining_zero]
    exact ⟨h.moveAll.dropOld_ok h.flags, moveAll_hashpower⟩
  next hge =>
    have hpos : m.markAll.numLocks ≠ 0 := by
      have hbuckets := Nat.two_pow_pos (m.oldBuckets.hashpower + 1)
      have hlocks : 0 < P.maxNumLocks := Nat.two_pow_pos _
      have hnum : m.markAll.numLocks = _ := h.numLocks
      omega
    rw [setNumRemaining_pos hpos]
    -- the old array is kept, since there are locks to be rehashed
    refine ⟨⟨(h.markAll (Nat.le_of_not_lt hge)).setRemaining _, ?_, fun hzero => ?_⟩, rfl⟩
    · exact (h.markAll_unmigrated ▸ Finset.card_range m.numLocks).symm
    · exact absurd hzero hpos

/-- What `cuckoo_fast_double` has made before it creates the new buckets. -/
def readied (P : Params K) (m : CuckooMap K V) (newHp : Nat) : CuckooMap K V :=
  (m.rehashAll P).maybeResizeLocks P (hashsize newHp)

/-- The current buckets hold everything by then. -/
theorem Core.readied_slots (h : m.Core P A) (n : Nat) :
    (m.readied P n).buckets.slots = m.settled P := by
  obtain ⟨-, hkept, hall⟩ := h.rehashAll
  rw [readied, maybeResizeLocks_buckets, ← hkept.settled]
  funext ⟨i, s⟩
  exact (settled_migrated (hall _)).symm

/-- **The buckets become the old ones**, and new ones twice as many are made. -/
theorem Core.swapped (h : m.Core P A) :
    Swapped P A { m.readied P (m.hashpower + 1) with
      oldBuckets := (m.readied P (m.hashpower + 1)).buckets
      buckets := .new (m.hashpower + 1) } := by
  obtain ⟨hcore, hkept, hall⟩ := h.rehashAll
  have hhp : (m.readied P (m.hashpower + 1)).buckets.hashpower = m.hashpower := by
    rw [readied, maybeResizeLocks_buckets]
    exact hkept.hashpower
  have hnum := hcore.resize_numLocks
  rw [hkept.hashpower] at hnum
  refine ⟨?_, ?_, ?_, ?_, ?_, maybeResizeLocks_flags _ hall⟩
  · rw [hhp, h.readied_slots]
    exact h.placed
  · rw [h.readied_slots]
    exact h.represents
  · rw [hhp]
  · change Counts A (m.readied P (m.hashpower + 1)).size
    rw [readied, maybeResizeLocks_size]
    exact hcore.counts
  · rw [hhp]
    exact hnum

/-- **`cuckoo_fast_double` leaves the map standing for what it stood for.** -/
theorem Ok.grow (h : m.Ok P A) :
    (m.grow P (m.hashpower + 1)).Ok P A ∧
      (m.grow P (m.hashpower + 1)).hashpower = m.hashpower + 1 :=
  h.toCore.swapped.spread

/-- What `check_resize_validity` lets pass. -/
theorem checkResizeValidity_ok {newHp : Nat} {st : CuckooStatus}
    (h : m.checkResizeValidity P hp newHp = .ok st) :
    (st = .ok ∧ m.hashpower = hp) ∨ (st = .failureUnderExpansion ∧ m.hashpower ≠ hp) := by
  rw [checkResizeValidity] at h
  repeat' split at h
  · cases h
  · cases h
  next hhp =>
    cases h
    exact .inr ⟨rfl, hhp⟩
  next hhp =>
    cases h
    exact .inl ⟨rfl, not_not.mp hhp⟩

/-- What `cuckoo_fast_double` does if it does not throw. -/
theorem cuckooFastDouble_ok {st : CuckooStatus}
    (h : m.cuckooFastDouble P hp = .ok (st, m')) :
    (st = .ok ∧ m.hashpower = hp ∧ m' = m.grow P (hp + 1)) ∨
      (st = .failureUnderExpansion ∧ m.hashpower ≠ hp ∧ m' = m) := by
  rw [cuckooFastDouble] at h
  split at h
  · cases h
  next hvalid =>
    cases h
    rcases checkResizeValidity_ok hvalid with ⟨-, hhp⟩ | ⟨hst, -⟩
    · exact .inl ⟨rfl, hhp, rfl⟩
    · cases hst
  next hother hvalid =>
    cases h
    rcases checkResizeValidity_ok hvalid with ⟨rfl, -⟩ | ⟨rfl, hne⟩
    · exact absurd rfl hother
    · exact .inr ⟨rfl, hne, rfl⟩

/-- It makes no difference if another thread has expanded the table before. -/
theorem Ok.cuckooFastDouble {st : CuckooStatus} (h : m.Ok P A)
    (heq : m.cuckooFastDouble P hp = .ok (st, m')) : m'.Ok P A := by
  rcases cuckooFastDouble_ok heq with ⟨-, rfl, rfl⟩ | ⟨-, -, rfl⟩
  · exact h.grow.1
  · exact h

end Libcuckoo.CuckooMap
