import Mathlib.Algebra.Order.Ring.Nat
import Mathlib.Tactic.Common

/-!
# MultiportNetwork.Cuckoo.Hash

`libcuckoo/cuckoohash_map.hh`, hashing: the two buckets of a key, and the lock of a bucket.

A bucket index is a `size_type`, here a `Nat` below the number of buckets; with fewer than
`2^64` buckets nothing is cut off. What `cuckoo_fast_double` lives on is that one more
hashpower adds one bit on top to either index (`indexHash_succ_mod`, `altIndex_succ_mod`),
and what a cuckoo path lives on is that `alt_index` leads back (`altIndex_altIndex`).
-/

namespace Libcuckoo

/-- `SLOT_PER_BUCKET`, at its default. -/
def slotPerBucket : Nat := 4

/-- `MAX_BFS_PATH_LEN`. -/
def maxBfsPathLen : Nat := 5

/-- `hash_value`. -/
structure HashValue where
  hash : UInt64
  partialKey : UInt8
  deriving Repr, DecidableEq

/-- The parameters of a map. -/
structure Params (K : Type) where
  /-- The `Hash` of the template. -/
  hash : K → UInt64
  /-- The binary logarithm of `kMaxNumLocks`. -/
  lockPower : Nat := 16
  /-- `minimum_load_factor_` in units of `2^-56`, which is what the default 0.05 is a multiple
  of. -/
  minimumLoadFactor : Nat := 3602879701896397
  /-- `maximum_hashpower_`, `NO_MAXIMUM_HASHPOWER` being `none`. -/
  maximumHashpower : Option Nat := none

/-- `partial_key`. -/
def partialKey (hash : UInt64) : UInt8 :=
  let hash32bit := hash.toUInt32 ^^^ (hash >>> 32).toUInt32
  let hash16bit := hash32bit.toUInt16 ^^^ (hash32bit >>> 16).toUInt16
  hash16bit.toUInt8 ^^^ (hash16bit >>> 8).toUInt8

/-- `hashsize`. -/
def hashsize (hp : Nat) : Nat := 2 ^ hp

/-- `hashmask`. -/
def hashmask (hp : Nat) : Nat := hashsize hp - 1

/-- `index_hash`. -/
def indexHash (hp : Nat) (hv : UInt64) : Nat := hv.toNat &&& hashmask hp

/-- `alt_index`. -/
def altIndex (hp : Nat) (partialKey : UInt8) (index : Nat) : Nat :=
  let nonzeroTag := partialKey.toNat + 1
  (index ^^^ (nonzeroTag * 0xc6a4a7935bd1e995) % 2 ^ 64) &&& hashmask hp

variable {K : Type} (P : Params K) {hp i : Nat}

/-- `hashed_key`. -/
def Params.hashedKey (key : K) : HashValue := ⟨P.hash key, partialKey (P.hash key)⟩

/-- `kMaxNumLocks`. -/
def Params.maxNumLocks : Nat := 2 ^ P.lockPower

/-- `lock_ind`. -/
def Params.lockInd (bucketInd : Nat) : Nat := bucketInd &&& (P.maxNumLocks - 1)

/-- The two buckets of a hash value. -/
def HashValue.i1 (hv : HashValue) (hp : Nat) : Nat := indexHash hp hv.hash
def HashValue.i2 (hv : HashValue) (hp : Nat) : Nat := altIndex hp hv.partialKey (hv.i1 hp)

theorem indexHash_eq_mod (hp : Nat) (hv : UInt64) : indexHash hp hv = hv.toNat % 2 ^ hp :=
  Nat.and_two_pow_sub_one_eq_mod _ _

theorem altIndex_eq_mod (hp : Nat) (p : UInt8) (i : Nat) :
    altIndex hp p i = (i ^^^ ((p.toNat + 1) * 0xc6a4a7935bd1e995) % 2 ^ 64) % 2 ^ hp :=
  Nat.and_two_pow_sub_one_eq_mod _ _

theorem Params.lockInd_eq_mod (i : Nat) : P.lockInd i = i % P.maxNumLocks :=
  Nat.and_two_pow_sub_one_eq_mod _ _

theorem indexHash_lt (hp : Nat) (hv : UInt64) : indexHash hp hv < 2 ^ hp := by
  rw [indexHash_eq_mod]
  exact Nat.mod_lt _ (Nat.two_pow_pos hp)

theorem altIndex_lt (hp : Nat) (p : UInt8) (i : Nat) : altIndex hp p i < 2 ^ hp := by
  rw [altIndex_eq_mod]
  exact Nat.mod_lt _ (Nat.two_pow_pos hp)

/-- **The alternate of the alternate** is the bucket itself. -/
theorem altIndex_altIndex (p : UInt8) (hi : i < 2 ^ hp) :
    altIndex hp p (altIndex hp p i) = i := by
  simp only [altIndex_eq_mod]
  rw [Nat.xor_mod_two_pow, Nat.mod_mod, ← Nat.xor_mod_two_pow, Nat.xor_assoc, Nat.xor_self,
    Nat.xor_zero, Nat.mod_eq_of_lt hi]

/-! ### One more bit -/

theorem indexHash_succ_mod (hp : Nat) (hv : UInt64) :
    indexHash (hp + 1) hv % 2 ^ hp = indexHash hp hv := by
  rw [indexHash_eq_mod, indexHash_eq_mod, Nat.mod_mod_of_dvd _ (Nat.pow_dvd_pow 2 (by omega))]

theorem altIndex_succ_mod (hp : Nat) (p : UInt8) (i : Nat) :
    altIndex (hp + 1) p i % 2 ^ hp = altIndex hp p (i % 2 ^ hp) := by
  rw [altIndex_eq_mod, altIndex_eq_mod, Nat.mod_mod_of_dvd _ (Nat.pow_dvd_pow 2 (by omega)),
    Nat.xor_mod_two_pow, Nat.xor_mod_two_pow (a := i % 2 ^ hp), Nat.mod_mod]

/-- An index below twice the size is the one below the size, or lies as much above it. -/
theorem eq_or_eq_add {x y : Nat} (hx : x < 2 ^ (hp + 1)) (hmod : x % 2 ^ hp = y) :
    x = y ∨ x = y + 2 ^ hp := by
  subst hmod
  rw [Nat.pow_succ] at hx
  have hpos := Nat.two_pow_pos hp
  have hsplit := Nat.mod_add_div x (2 ^ hp)
  have hdiv : x / 2 ^ hp < 2 := Nat.div_lt_of_lt_mul (by omega)
  rcases Nat.lt_or_ge (x / 2 ^ hp) 1 with hzero | hone
  · rw [Nat.lt_one_iff.mp hzero, Nat.mul_zero, Nat.add_zero] at hsplit
    exact .inl hsplit.symm
  · rw [show x / 2 ^ hp = 1 by omega, Nat.mul_one] at hsplit
    exact .inr hsplit.symm

/-! ### The buckets of a key -/

/-- Bucket `i` is one of the two that `key` may be in. -/
def Params.Home (hp : Nat) (key : K) (i : Nat) : Prop :=
  i = (P.hashedKey key).i1 hp ∨ i = (P.hashedKey key).i2 hp

variable {P} {key : K}

theorem HashValue.i1_lt (hv : HashValue) (hp : Nat) : hv.i1 hp < 2 ^ hp := indexHash_lt _ _

theorem HashValue.i2_lt (hv : HashValue) (hp : Nat) : hv.i2 hp < 2 ^ hp := altIndex_lt _ _ _

theorem Params.Home.lt (h : P.Home hp key i) : i < 2 ^ hp := by
  rcases h with rfl | rfl
  · exact HashValue.i1_lt _ _
  · exact HashValue.i2_lt _ _

/-- The alternate of one home is the other. -/
theorem Params.Home.alt (h : P.Home hp key i) :
    P.Home hp key (altIndex hp (P.hashedKey key).partialKey i) := by
  rcases h with rfl | rfl
  · exact .inr rfl
  · exact .inl (altIndex_altIndex _ (HashValue.i1_lt _ _))

theorem HashValue.i1_succ_mod (hv : HashValue) (hp : Nat) :
    hv.i1 (hp + 1) % 2 ^ hp = hv.i1 hp := indexHash_succ_mod _ _

theorem HashValue.i2_succ_mod (hv : HashValue) (hp : Nat) :
    hv.i2 (hp + 1) % 2 ^ hp = hv.i2 hp := by
  rw [HashValue.i2, altIndex_succ_mod, HashValue.i1_succ_mod]
  rfl

/-- The bucket of an array half as large that a bucket's entries come from. -/
def origin (hp i : Nat) : Nat := if i < 2 ^ hp then i else i - 2 ^ hp

theorem origin_eq_iff {ind : Nat} (hind : ind < 2 ^ hp) :
    origin hp i = ind ↔ i = ind ∨ i = ind + 2 ^ hp := by
  unfold origin
  split <;> omega

theorem origin_lt (hi : i < 2 ^ (hp + 1)) : origin hp i < 2 ^ hp := by
  rw [Nat.pow_succ] at hi
  unfold origin
  split <;> omega

/-- A lock of a bucket is one of the locks there are. -/
theorem Params.lockInd_lt (P : Params K) (hi : i < 2 ^ hp) :
    P.lockInd i < min (2 ^ hp) P.maxNumLocks := by
  rw [P.lockInd_eq_mod, Nat.lt_min]
  exact ⟨Nat.lt_of_le_of_lt (Nat.mod_le _ _) hi, Nat.mod_lt _ (Nat.two_pow_pos _)⟩

/-- Where there are as many buckets as locks, a bucket has the lock of its origin. -/
theorem Params.lockInd_origin (P : Params K) (hle : P.lockPower ≤ hp) (i : Nat) :
    P.lockInd (origin hp i) = P.lockInd i := by
  unfold origin
  split
  · rfl
  next hi =>
    have hdvd : P.maxNumLocks ∣ 2 ^ hp := Nat.pow_dvd_pow 2 hle
    rw [P.lockInd_eq_mod, P.lockInd_eq_mod]
    conv_rhs => rw [← Nat.sub_add_cancel (Nat.le_of_not_lt hi)]
    rw [Nat.add_mod, Nat.mod_eq_zero_of_dvd hdvd, Nat.add_zero, Nat.mod_mod]

end Libcuckoo
