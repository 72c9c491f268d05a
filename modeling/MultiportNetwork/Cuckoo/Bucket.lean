import MultiportNetwork.Lib.Cells
import MultiportNetwork.Cuckoo.Hash
import Mathlib.Data.List.Basic

/-!
# MultiportNetwork.Cuckoo.Bucket

`libcuckoo/bucket_container.hh`, and the functions of `cuckoohash_map.hh` that look through
one bucket. A slot whose `occupied` is not set holds nothing, whatever its storage does.

An array in which every entry is in one of the two buckets of its key, with the partial key
of its hash, and no key is there twice is `Placed`. In such an array a key is where
`cuckoo_find` looks for it, or nowhere.
-/

namespace Libcuckoo

/-- What an occupied slot holds. -/
structure Entry (K V : Type) where
  partialKey : UInt8
  key : K
  mapped : V
  deriving Repr, DecidableEq

/-- `bucket_container`; a slot is named by its bucket and its index there. -/
structure BucketContainer (K V : Type) where
  hashpower : Nat
  slots : Cells (Nat × Nat) (Entry K V)

section
variable {K V : Type}

/-- The constructor. -/
def BucketContainer.new (hp : Nat) : BucketContainer K V := ⟨hp, fun _ => none⟩

/-- `size`. -/
def BucketContainer.size (b : BucketContainer K V) : Nat := hashsize b.hashpower

/-- `setKV`. -/
def BucketContainer.setKV (b : BucketContainer K V) (ind slot : Nat) (e : Entry K V) :
    BucketContainer K V :=
  { b with slots := Function.update b.slots (ind, slot) (some e) }

/-- `eraseKV`. -/
def BucketContainer.eraseKV (b : BucketContainer K V) (ind slot : Nat) : BucketContainer K V :=
  { b with slots := Function.update b.slots (ind, slot) none }

/-- `clear_and_deallocate`. -/
def BucketContainer.clearAndDeallocate (b : BucketContainer K V) : BucketContainer K V :=
  { b with slots := fun _ => none }

variable [DecidableEq K]

/-- The entry is what a search for a key stops at. -/
def Entry.matches (e : Entry K V) (partialKey : UInt8) (key : K) : Bool :=
  partialKey == e.partialKey && e.key == key

/-- `try_read_from_bucket`. -/
def BucketContainer.tryReadFromBucket (b : BucketContainer K V) (ind : Nat) (partialKey : UInt8)
    (key : K) : Option Nat :=
  (List.range slotPerBucket).find? fun i =>
    match b.slots (ind, i) with
    | none => false
    | some e => e.matches partialKey key

/-- The loop of `try_find_insert_bucket`, with `slot` as it has been left so far. -/
def BucketContainer.tryFindInsertFrom (b : BucketContainer K V) (ind : Nat) (partialKey : UInt8)
    (key : K) : List Nat → Option Nat → Bool × Option Nat
  | [], slot => (true, slot)
  | i :: is, slot =>
    match b.slots (ind, i) with
    | some e =>
      if e.matches partialKey key then (false, some i)
      else b.tryFindInsertFrom ind partialKey key is slot
    | none => b.tryFindInsertFrom ind partialKey key is (some i)

/-- `try_find_insert_bucket`. -/
def BucketContainer.tryFindInsertBucket (b : BucketContainer K V) (ind : Nat)
    (partialKey : UInt8) (key : K) : Bool × Option Nat :=
  b.tryFindInsertFrom ind partialKey key (List.range slotPerBucket) none

/-- `cuckoo_find`. -/
def BucketContainer.cuckooFind (b : BucketContainer K V) (key : K) (partialKey : UInt8)
    (i1 i2 : Nat) : Option (Nat × Nat) :=
  match b.tryReadFromBucket i1 partialKey key with
  | some slot => some (i1, slot)
  | none => (b.tryReadFromBucket i2 partialKey key).map fun slot => (i2, slot)

end

/-! ### One bucket -/

variable {K V : Type} {P : Params K} {T : Cells (Nat × Nat) (Entry K V)} {A : K → Option V}
  {b : BucketContainer K V} {e : Entry K V} {key : K} {hp i s ind slot : Nat} {pk : UInt8}

/-- Every slot of the bucket is occupied. -/
def Full (T : Cells (Nat × Nat) (Entry K V)) (i : Nat) : Prop :=
  ∀ s < slotPerBucket, (T (i, s)).isSome

@[simp] theorem BucketContainer.setKV_hashpower : (b.setKV ind slot e).hashpower = b.hashpower :=
  rfl

@[simp] theorem BucketContainer.eraseKV_hashpower :
    (b.eraseKV ind slot).hashpower = b.hashpower :=
  rfl

@[simp] theorem BucketContainer.setKV_self : (b.setKV ind slot e).slots (ind, slot) = some e :=
  Function.update_self ..

theorem BucketContainer.setKV_of_ne {q : Nat × Nat} (h : q ≠ (ind, slot)) :
    (b.setKV ind slot e).slots q = b.slots q :=
  Function.update_of_ne h ..

section
variable [DecidableEq K]

theorem Entry.matches_iff : e.matches pk key = true ↔ pk = e.partialKey ∧ e.key = key := by
  simp [Entry.matches]

theorem BucketContainer.tryRead_some (h : b.tryReadFromBucket ind pk key = some slot) :
    slot < slotPerBucket ∧ ∃ e, b.slots (ind, slot) = some e ∧ e.key = key := by
  have hmem := List.mem_of_find?_eq_some h
  have hfound := List.find?_some h
  refine ⟨List.mem_range.mp hmem, ?_⟩
  split at hfound
  · cases hfound
  next e he => exact ⟨e, he, (Entry.matches_iff.mp hfound).2⟩

theorem BucketContainer.tryRead_none (h : b.tryReadFromBucket ind pk key = none)
    (hslot : slot < slotPerBucket) (he : b.slots (ind, slot) = some e)
    (hpk : e.partialKey = pk) : e.key ≠ key := by
  have hnot := List.find?_eq_none.mp h slot (List.mem_range.mpr hslot)
  rw [he] at hnot
  exact fun hkey => hnot (Entry.matches_iff.mpr ⟨hpk.symm, hkey⟩)

/-- What `try_find_insert_bucket` has found out about the slots it has been at. -/
structure Inserts (b : BucketContainer K V) (ind : Nat) (pk : UInt8) (key : K) (is : List Nat)
    (slot : Option Nat) (res : Bool × Option Nat) : Prop where
  duplicate : res.1 = false → ∃ i ∈ is, res.2 = some i ∧
    ∃ e, b.slots (ind, i) = some e ∧ e.key = key
  absent : res.1 = true → ∀ i ∈ is, ∀ e, b.slots (ind, i) = some e → e.partialKey = pk →
    e.key ≠ key
  free : res.1 = true → ∀ i, res.2 = some i → slot = some i ∨ (i ∈ is ∧ b.slots (ind, i) = none)

theorem BucketContainer.tryFindInsert_spec (is : List Nat) (slot : Option Nat) :
    Inserts b ind pk key is slot (b.tryFindInsertFrom ind pk key is slot) := by
  induction is generalizing slot with
  | nil =>
      rw [BucketContainer.tryFindInsertFrom]
      refine ⟨nofun, fun _ i hi => ?_, fun _ i hi => .inl hi⟩
      cases hi
  | cons i is ih =>
      rw [BucketContainer.tryFindInsertFrom]
      split
      next e he =>
        split
        next hm =>
          exact ⟨fun _ => ⟨i, List.mem_cons_self, rfl, e, he, (Entry.matches_iff.mp hm).2⟩, nofun,
            nofun⟩
        next hm =>
          obtain ⟨hdup, habsent, hfree⟩ := ih slot
          refine ⟨fun h => ?_, fun h j hj d hd hpk => ?_, fun h j hj => ?_⟩
          · obtain ⟨j, hj, hrest⟩ := hdup h
            exact ⟨j, List.mem_cons_of_mem _ hj, hrest⟩
          · rcases List.mem_cons.mp hj with rfl | hj
            · rw [he] at hd
              cases hd
              exact fun hkey => hm (Entry.matches_iff.mpr ⟨hpk.symm, hkey⟩)
            · exact habsent h j hj d hd hpk
          · exact (hfree h j hj).imp_right fun ⟨hmem, hnone⟩ => ⟨List.mem_cons_of_mem _ hmem, hnone⟩
      next he =>
        obtain ⟨hdup, habsent, hfree⟩ := ih (some i)
        refine ⟨fun h => ?_, fun h j hj d hd hpk => ?_, fun h j hj => ?_⟩
        · obtain ⟨j, hj, hrest⟩ := hdup h
          exact ⟨j, List.mem_cons_of_mem _ hj, hrest⟩
        · rcases List.mem_cons.mp hj with rfl | hj
          · rw [he] at hd
            cases hd
          · exact habsent h j hj d hd hpk
        · rcases hfree h j hj with heq | ⟨hmem, hnone⟩
          · cases heq
            exact .inr ⟨List.mem_cons_self, he⟩
          · exact .inr ⟨List.mem_cons_of_mem _ hmem, hnone⟩

theorem Inserts.of_bucket {res : Bool × Option Nat} (h : b.tryFindInsertBucket ind pk key = res) :
    Inserts b ind pk key (List.range slotPerBucket) none res := by
  rw [← h]
  exact b.tryFindInsert_spec (List.range slotPerBucket) none

/-- The key is in the bucket. -/
theorem BucketContainer.tryFindInsert_duplicate {slot : Option Nat}
    (h : b.tryFindInsertBucket ind pk key = (false, slot)) :
    ∃ i, slot = some i ∧ i < slotPerBucket ∧ ∃ e, b.slots (ind, i) = some e ∧ e.key = key := by
  obtain ⟨i, hi, hres, hentry⟩ := (Inserts.of_bucket h).duplicate rfl
  exact ⟨i, hres, List.mem_range.mp hi, hentry⟩

/-- The key is not in the bucket. -/
theorem BucketContainer.tryFindInsert_absent {slot : Option Nat}
    (h : b.tryFindInsertBucket ind pk key = (true, slot)) {i : Nat} (hi : i < slotPerBucket)
    (he : b.slots (ind, i) = some e) (hpk : e.partialKey = pk) : e.key ≠ key :=
  (Inserts.of_bucket h).absent rfl i (List.mem_range.mpr hi) e he hpk

/-- The slot offered is free. -/
theorem BucketContainer.tryFindInsert_free {i : Nat}
    (h : b.tryFindInsertBucket ind pk key = (true, some i)) :
    i < slotPerBucket ∧ b.slots (ind, i) = none := by
  rcases (Inserts.of_bucket h).free rfl i rfl with hnone | ⟨hmem, hfree⟩
  · cases hnone
  · exact ⟨List.mem_range.mp hmem, hfree⟩

end

/-! ### Placed entries -/

/-- Every entry is in a bucket of its key, and no key is there twice. -/
structure Placed (P : Params K) (hp : Nat) (T : Cells (Nat × Nat) (Entry K V)) : Prop where
  slot : ∀ i s e, T (i, s) = some e → s < slotPerBucket
  home : ∀ i s e, T (i, s) = some e → P.Home hp e.key i
  tag : ∀ i s e, T (i, s) = some e → e.partialKey = (P.hashedKey e.key).partialKey
  distinct : Cells.Distinct Entry.key T

/-- The map an array of entries stands for. -/
abbrev Represents (T : Cells (Nat × Nat) (Entry K V)) (A : K → Option V) : Prop :=
  Cells.Represents Entry.key Entry.mapped T A

theorem Placed.empty (P : Params K) (hp : Nat) :
    Placed P hp (fun _ => none : Cells (Nat × Nat) (Entry K V)) :=
  ⟨nofun, nofun, nofun, nofun⟩

theorem Represents.empty : Represents (fun _ => none : Cells (Nat × Nat) (Entry K V))
    fun _ => none :=
  fun _ _ => ⟨nofun, fun ⟨_, _, h, _⟩ => by cases h⟩

theorem Placed.lt (h : Placed P hp T) (he : T (i, s) = some e) : i < 2 ^ hp := (h.home i s e he).lt

/-- **A new entry.** -/
theorem Placed.insert (h : Placed P hp T) (hA : Represents T A) (hs : s < slotPerBucket)
    (hi : P.Home hp e.key i) (htag : e.partialKey = (P.hashedKey e.key).partialKey)
    (hfree : A e.key = none) : Placed P hp (Function.update T (i, s) (some e)) := by
  have hcases : ∀ j r d, Function.update T (i, s) (some e) (j, r) = some d →
      (j = i ∧ r = s ∧ d = e) ∨ T (j, r) = some d := by
    intro j r d hd
    rw [Function.update_apply] at hd
    split at hd
    next heq =>
      obtain ⟨rfl, rfl⟩ := Prod.mk.inj heq
      exact .inl ⟨rfl, rfl, (Option.some.inj hd).symm⟩
    next => exact .inr hd
  refine ⟨fun j r d hd => ?_, fun j r d hd => ?_, fun j r d hd => ?_,
    h.distinct.insert (Cells.Represents.none_iff hA |>.mp hfree)⟩
  · rcases hcases j r d hd with ⟨-, rfl, -⟩ | hd
    · exact hs
    · exact h.slot j r d hd
  · rcases hcases j r d hd with ⟨rfl, -, rfl⟩ | hd
    · exact hi
    · exact h.home j r d hd
  · rcases hcases j r d hd with ⟨-, -, rfl⟩ | hd
    · exact htag
    · exact h.tag j r d hd

/-- **An entry gets another value, or goes.** -/
theorem Placed.overwrite (h : Placed P hp T) (he : T (i, s) = some e) {o : Option V} :
    Placed P hp (Function.update T (i, s) (o.map fun v => { e with mapped := v })) := by
  have hcases : ∀ j r d, Function.update T (i, s) (o.map fun v => { e with mapped := v }) (j, r) =
      some d → ∃ d', T (j, r) = some d' ∧ d'.key = d.key ∧ d'.partialKey = d.partialKey := by
    intro j r d hd
    rw [Function.update_apply] at hd
    split at hd
    next heq =>
      obtain ⟨v, -, rfl⟩ := Option.map_eq_some_iff.mp hd
      rw [heq]
      exact ⟨e, he, rfl, rfl⟩
    next => exact ⟨d, hd, rfl, rfl⟩
  refine ⟨fun j r d hd => ?_, fun j r d hd => ?_, fun j r d hd => ?_,
    h.distinct.overwrite he fun d hd => ?_⟩
  · obtain ⟨d', hd', -⟩ := hcases j r d hd
    exact h.slot j r d' hd'
  · obtain ⟨d', hd', hkey, -⟩ := hcases j r d hd
    rw [← hkey]
    exact h.home j r d' hd'
  · obtain ⟨d', hd', hkey, htag⟩ := hcases j r d hd
    rw [← htag, ← hkey]
    exact h.tag j r d' hd'
  · obtain ⟨v, -, rfl⟩ := Option.map_eq_some_iff.mp hd
    rfl

/-- **Entries carried to other slots** of buckets of theirs. -/
theorem Placed.relocate {hp' : Nat} {T' : Cells (Nat × Nat) (Entry K V)}
    {f : Nat × Nat → Nat × Nat} (h : Placed P hp T) (hf : Cells.Relocates f T T')
    (hto : ∀ i s e, T (i, s) = some e →
      (f (i, s)).2 < slotPerBucket ∧ P.Home hp' e.key (f (i, s)).1) : Placed P hp' T' := by
  refine ⟨fun i s e he => ?_, fun i s e he => ?_, fun i s e he => ?_, hf.distinct h.distinct⟩
  · obtain ⟨⟨j, r⟩, hd, heq⟩ := hf.only _ e he
    have hslot := (hto j r e hd).1
    rwa [heq] at hslot
  · obtain ⟨⟨j, r⟩, hd, heq⟩ := hf.only _ e he
    have hhome := (hto j r e hd).2
    rwa [heq] at hhome
  · obtain ⟨⟨j, r⟩, hd, -⟩ := hf.only _ e he
    exact h.tag j r e hd

variable [DecidableEq K]

/-- **`cuckoo_find` finds a key where it is**, if the slots it looks at are those of `T`. -/
theorem Placed.find (h : Placed P hp T) (hA : Represents T A)
    (hsame : ∀ i s, P.Home hp key i → b.slots (i, s) = T (i, s)) :
    match b.cuckooFind key (P.hashedKey key).partialKey ((P.hashedKey key).i1 hp)
      ((P.hashedKey key).i2 hp) with
    | some (i, s) => P.Home hp key i ∧ s < slotPerBucket ∧
        ∃ e, T (i, s) = some e ∧ e.key = key ∧ A key = some e.mapped
    | none => A key = none := by
  have hfound : ∀ {i s}, P.Home hp key i →
      b.tryReadFromBucket i (P.hashedKey key).partialKey key = some s →
      P.Home hp key i ∧ s < slotPerBucket ∧
        ∃ e, T (i, s) = some e ∧ e.key = key ∧ A key = some e.mapped := by
    intro i s hi hread
    obtain ⟨hs, e, he, rfl⟩ := b.tryRead_some hread
    rw [hsame i s hi] at he
    exact ⟨hi, hs, e, he, rfl, Cells.Represents.get hA he⟩
  unfold BucketContainer.cuckooFind
  cases h1 : b.tryReadFromBucket ((P.hashedKey key).i1 hp) (P.hashedKey key).partialKey key with
  | some s => exact hfound (.inl rfl) h1
  | none =>
      cases h2 : b.tryReadFromBucket ((P.hashedKey key).i2 hp) (P.hashedKey key).partialKey key with
      | some s => exact hfound (.inr rfl) h2
      | none =>
          refine (Cells.Represents.none_iff hA).mpr ?_
          rintro ⟨i, s⟩ e he rfl
          have hs := h.slot i s e he
          have htag := h.tag i s e he
          have hi := h.home i s e he
          rw [← hsame i s hi] at he
          rcases hi with rfl | rfl
          · exact b.tryRead_none h1 hs he htag rfl
          · exact b.tryRead_none h2 hs he htag rfl

end Libcuckoo
