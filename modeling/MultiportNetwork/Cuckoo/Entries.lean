import MultiportNetwork.Cuckoo.Map
import Mathlib.Algebra.BigOperators.Group.Finset.Piecewise

/-!
# MultiportNetwork.Cuckoo.Entries

What a thread does to entries of buckets it has locked: it adds one, calls a functor on the
value of one, erases one, and carries one along a cuckoo path. The last changes nothing about
the map, the others change it at one key; and the counters keep adding up to the number of
keys, although not each of them to the number under its lock.
-/

namespace Libcuckoo.CuckooMap

/-! ### Counting keys -/

section
variable {K V : Type} [DecidableEq K] {A : K → Option V} {n : Int} {key : K} {v : V}

/-- One key more. -/
theorem Counts.insert (h : Counts A n) (hfree : A key = none) :
    Counts (Function.update A key (some v)) (n + 1) := by
  obtain ⟨keys, hmem, rfl⟩ := h
  have hnot : key ∉ keys := fun hk => by simpa [hfree] using (hmem key).mp hk
  refine ⟨insert key keys, fun k => ?_, ?_⟩
  · rw [Finset.mem_insert, Function.update_apply]
    split
    next heq => simp [heq]
    next hne => rw [← hmem]; exact or_iff_right hne
  · rw [Finset.card_insert_of_notMem hnot]
    rfl

/-- A key keeps being one, whatever its value is. -/
theorem Counts.overwrite (h : Counts A n) (hkey : (A key).isSome) :
    Counts (Function.update A key (some v)) n := by
  obtain ⟨keys, hmem, rfl⟩ := h
  refine ⟨keys, fun k => ?_, rfl⟩
  rw [Function.update_apply, hmem]
  split
  next heq => simp [heq, hkey]
  next => rfl

/-- One key less. -/
theorem Counts.erase (h : Counts A n) (hkey : (A key).isSome) :
    Counts (Function.update A key none) (n - 1) := by
  obtain ⟨keys, hmem, rfl⟩ := h
  refine ⟨keys.erase key, fun k => ?_, ?_⟩
  · rw [Finset.mem_erase, Function.update_apply]
    split
    next heq => simp [heq]
    next hne => rw [← hmem]; exact and_iff_right hne
  · have hcard := Finset.card_erase_add_one ((hmem key).mpr hkey)
    omega

end

variable {K V : Type} {P : Params K} {A A' : K → Option V} {m : CuckooMap K V} {e : Entry K V}
  {i s j r hp : Nat}

/-! ### Entries of locked buckets -/

/-- Only buckets of migrated locks are written, and only counters of locks. Then what says that
old buckets are still to be moved stays true, and it remains to show that the new contents are in
their places, stand for the new map and are counted right. -/
theorem Ok.rewrite (h : m.Ok P A) {buckets : BucketContainer K V} {locks : Nat → Spinlock}
    (hhp : buckets.hashpower = m.hashpower)
    (hflags : ∀ l, (locks l).isMigrated = (m.locks l).isMigrated)
    (hwaiting : ∀ i s, (m.locks (P.lockInd i)).isMigrated = false →
      buckets.slots (i, s) = m.buckets.slots (i, s))
    (hplaced : Placed P m.hashpower (settled P { m with buckets := buckets, locks := locks }))
    (hrep : Represents (settled P { m with buckets := buckets, locks := locks }) A')
    (hcounts : Counts A' (size { m with buckets := buckets, locks := locks })) :
    Ok P A' { m with buckets := buckets, locks := locks } := by
  have hset : unmigrated { m with buckets := buckets, locks := locks } = m.unmigrated :=
    Finset.filter_congr fun l _ => by rw [hflags]
  have hhp' : hashpower { m with buckets := buckets, locks := locks } = m.hashpower := hhp
  refine ⟨⟨by rw [hhp']; exact hplaced, hrep, hcounts, h.oldPlaced, fun i s hi => ?_, ?_,
    fun l hl => ?_, fun l hl => ?_⟩, ?_, h.released⟩
  · rw [hflags] at hi
    rw [hwaiting i s hi]
    exact h.waiting i s hi
  · rw [h.numLocks]
    exact congrArg (fun n => min (2 ^ n) P.maxNumLocks) hhp.symm
  · rw [hflags]
    exact h.spare l hl
  · rw [hflags] at hl
    obtain ⟨hold, hle⟩ := h.lagging l hl
    exact ⟨hold.trans hhp.symm, hle⟩
  · rw [hset]
    exact h.remaining

/-- A slot of a locked bucket is written, and the counter of the lock changed. -/
def put (P : Params K) (m : CuckooMap K V) (ind slot : Nat) (o : Option (Entry K V)) (d : Int) :
    CuckooMap K V :=
  { m with
    buckets := { m.buckets with slots := Function.update m.buckets.slots (ind, slot) o }
    locks := Function.update m.locks (P.lockInd ind)
      { m.locks (P.lockInd ind) with elemCounter := (m.locks (P.lockInd ind)).elemCounter + d } }

theorem put_flag (o : Option (Entry K V)) (d : Int) (l : Nat) :
    ((m.put P i s o d).locks l).isMigrated = (m.locks l).isMigrated := by
  rw [put]
  dsimp only
  rw [Function.update_apply]
  split
  next heq => rw [heq]
  · rfl

/-- With everything moved the one slot is written too, since its lock is migrated. -/
theorem put_settled (hi : (m.locks (P.lockInd i)).isMigrated = true) (o : Option (Entry K V))
    (d : Int) : (m.put P i s o d).settled P = Function.update (m.settled P) (i, s) o := by
  funext ⟨j, r⟩
  rw [settled, put_flag, Function.update_apply]
  split
  next hj =>
    rw [put]
    dsimp only
    rw [Function.update_apply, settled_migrated hj]
  next hj =>
    have hne : (j, r) ≠ (i, s) := fun heq => hj (by rw [(Prod.mk.inj heq).1]; exact hi)
    rw [if_neg hne, settled_lagging (Bool.eq_false_iff.mpr hj)]
    rfl

theorem Core.lockInd_lt (h : m.Core P A) (hi : i < 2 ^ m.hashpower) :
    P.lockInd i < m.numLocks := by
  rw [h.numLocks]
  exact P.lockInd_lt hi

/-- The sum of the counters changes by as much as the one does. -/
theorem put_size (hl : P.lockInd i < m.numLocks) (o : Option (Entry K V)) (d : Int) :
    (m.put P i s o d).size = m.size + d := by
  have hsplit : ∀ l, ((m.put P i s o d).locks l).elemCounter =
      (m.locks l).elemCounter + if l = P.lockInd i then d else 0 := by
    intro l
    rw [put]
    dsimp only
    rw [Function.update_apply]
    split
    next heq => rw [heq]
    · rw [Int.add_zero]
  rw [size, size]
  simp only [hsplit]
  rw [Finset.sum_add_distrib, Finset.sum_ite_eq', if_pos]
  · rfl
  · exact Finset.mem_range.mpr hl

/-- A slot of a locked bucket may be written if the map is in order with it. -/
theorem Ok.put (h : m.Ok P A) (hi : i < 2 ^ m.hashpower)
    (hmigrated : (m.locks (P.lockInd i)).isMigrated = true) {o : Option (Entry K V)} {d : Int}
    (hplaced : Placed P m.hashpower (Function.update (m.settled P) (i, s) o))
    (hrep : Represents (Function.update (m.settled P) (i, s) o) A')
    (hcounts : Counts A' (m.size + d)) : Ok P A' (m.put P i s o d) := by
  have hsettled := put_settled (s := s) hmigrated o d
  refine h.rewrite rfl (put_flag (s := s) o d) (fun j r hj => ?_) ?_ ?_ ?_
  · have hne : (j, r) ≠ (i, s) := fun heq => by
      rw [(Prod.mk.inj heq).1, hmigrated] at hj
      cases hj
    exact Function.update_of_ne hne _ _
  · exact hsettled ▸ hplaced
  · exact hsettled ▸ hrep
  · exact put_size (h.toCore.lockInd_lt hi) o d ▸ hcounts

/-- The locks are as they were if nothing is added to a counter. -/
theorem put_zero (o : Option (Entry K V)) : m.put P i s o 0 =
    { m with buckets := { m.buckets with slots := Function.update m.buckets.slots (i, s) o } } := by
  rw [CuckooMap.put]
  congr 1
  rw [Int.add_zero]
  exact Function.update_eq_self _ _

/-! ### One entry is carried -/

/-- `cuckoopath_move`, one swap: `none` if the entry is no longer there or the slot it is to
go to has been filled. -/
def moveEntry (P : Params K) (m : CuckooMap K V) (fromBucket fs : Nat) (hash : UInt64)
    (toBucket ts : Nat) : Option (CuckooMap K V) :=
  match m.buckets.slots (toBucket, ts), m.buckets.slots (fromBucket, fs) with
  | none, some e =>
    if P.hash e.key ≠ hash then none
    else some { m with buckets := (m.buckets.setKV toBucket ts e).eraseKV fromBucket fs }
  | _, _ => none

theorem moveEntry_hashpower {m' : CuckooMap K V} {hash : UInt64}
    (h : m.moveEntry P i s hash j r = some m') : m'.hashpower = m.hashpower := by
  rw [moveEntry] at h
  split at h
  · split at h
    · cases h
    · cases h
      rfl
  · cases h

/-- **A swap changes nothing about the map**, and makes the slot free. -/
theorem Ok.moveEntry {m' : CuckooMap K V} {hv : HashValue} (h : m.Ok P A)
    (hi : (m.locks (P.lockInd i)).isMigrated = true)
    (hj : (m.locks (P.lockInd j)).isMigrated = true) (hr : r < slotPerBucket)
    (htag : hv.partialKey = partialKey hv.hash) (hto : j = altIndex m.hashpower hv.partialKey i)
    (heq : m.moveEntry P i s hv.hash j r = some m') :
    m'.Ok P A ∧ m'.hashpower = m.hashpower ∧ m'.locks = m.locks ∧
      m'.settled P = (m.settled P).carry (i, s) (j, r) := by
  rw [CuckooMap.moveEntry] at heq
  split at heq
  next e hfree he =>
    split at heq
    · cases heq
    next hhash =>
      cases heq
      -- the hash value was compared, so the entry is one that belongs in the other bucket
      have hkey : P.hashedKey e.key = hv := by
        have hhash := not_not.mp hhash
        rw [Params.hashedKey, hhash, ← htag]
      have hne : (i, s) ≠ (j, r) := fun heq => by rw [heq, hfree] at he; cases he
      rw [← settled_migrated hi] at he
      rw [← settled_migrated hj] at hfree
      have hsettled : settled P { m with buckets := (m.buckets.setKV j r e).eraseKV i s } =
          (m.settled P).carry (i, s) (j, r) := by
        have hput := put_settled (m := m.put P j r (some e) 0) (s := s)
          ((put_flag (some e) 0 _).trans hi) none 0
        rw [put_settled hj, put_zero, put_zero] at hput
        rw [Cells.carry, he]
        exact hput
      -- neither bucket is waiting to be moved from the old array
      have hmoved := Cells.Relocates.move he hfree
      have hhome := h.placed.home i s e he
      refine ⟨h.rewrite rfl (fun _ => rfl) (fun k t hk => ?_) ?_ ?_ h.counts, rfl, rfl, hsettled⟩
      · have hki : (k, t) ≠ (i, s) := fun heq => by
          rw [(Prod.mk.inj heq).1, hi] at hk
          cases hk
        have hkj : (k, t) ≠ (j, r) := fun heq => by
          rw [(Prod.mk.inj heq).1, hj] at hk
          cases hk
        exact (Function.update_of_ne hki _ _).trans (Function.update_of_ne hkj _ _)
      · rw [hsettled]
        refine h.placed.relocate hmoved fun k t d hd => ?_
        split
        next heq =>
          obtain ⟨rfl, rfl⟩ := Prod.mk.inj heq
          rw [he] at hd
          cases hd
          refine ⟨hr, ?_⟩
          rw [hto, ← hkey]
          exact hhome.alt
        next => exact ⟨h.placed.slot k t d hd, h.placed.home k t d hd⟩
      · rw [hsettled]
        exact hmoved.represents h.represents
  next => cases heq

/-! ### Entries are changed -/

variable [DecidableEq K] {key : K} {v : V}

/-- **A new key is added.** -/
theorem Ok.addToBucket (h : m.Ok P A) (hs : s < slotPerBucket) (hi : P.Home m.hashpower key i)
    (hmigrated : (m.locks (P.lockInd i)).isMigrated = true)
    (hfree : m.buckets.slots (i, s) = none) (hA : A key = none) :
    Ok P (Function.update A key (some v))
      (m.addToBucket P i s ⟨(P.hashedKey key).partialKey, key, v⟩) := by
  rw [← settled_migrated hmigrated] at hfree
  exact h.put hi.lt hmigrated (h.placed.insert h.represents hs hi rfl hA)
    (Cells.Represents.insert h.represents hfree hA) (h.counts.insert hA)

/-- The mapped value of an entry, changed in place. -/
def setMapped (m : CuckooMap K V) (ind slot : Nat) (e : Entry K V) (v : V) : CuckooMap K V :=
  { m with buckets := m.buckets.setKV ind slot { e with mapped := v } }

/-- **The value of a key is changed.** -/
theorem Ok.setMapped (h : m.Ok P A) (hmigrated : (m.locks (P.lockInd i)).isMigrated = true)
    (he : m.buckets.slots (i, s) = some e) :
    Ok P (Function.update A e.key (some v)) (m.setMapped i s e v) := by
  rw [← settled_migrated hmigrated] at he
  have hsome : (A e.key).isSome := by
    rw [Cells.Represents.get h.represents he]
    rfl
  have hput := h.put (h.placed.lt he) hmigrated (h.placed.overwrite he (o := some v))
    (Cells.Represents.overwrite h.represents h.placed.distinct he
      (o := some { e with mapped := v }) (fun d hd => by cases hd; rfl))
    (d := 0) (by rw [Int.add_zero]; exact h.counts.overwrite hsome)
  rwa [put_zero] at hput

/-- **A key is erased.** -/
theorem Ok.delFromBucket (h : m.Ok P A) (hmigrated : (m.locks (P.lockInd i)).isMigrated = true)
    (he : m.buckets.slots (i, s) = some e) :
    Ok P (Function.update A e.key none) (m.delFromBucket P i s) := by
  rw [← settled_migrated hmigrated] at he
  have hsome : (A e.key).isSome := by
    rw [Cells.Represents.get h.represents he]
    rfl
  exact h.put (h.placed.lt he) hmigrated (h.placed.overwrite he (o := none))
    (Cells.Represents.overwrite h.represents h.placed.distinct he
      (o := none) (fun d hd => by cases hd))
    (h.counts.erase hsome)

end Libcuckoo.CuckooMap
