import MultiportNetwork.Cuckoo.Bucket

/-!
# MultiportNetwork.Cuckoo.Move

`move_bucket`: the entries of a bucket of the old array go to two buckets of the new one,
which is twice as large. What stays at its index keeps its slot, what goes `hashsize` higher
fills the new bucket from slot 0 on.

`doubled` is the array with all buckets moved. `move_bucket` writes its part of it
(`moveBucket_slots`), and every entry is in a bucket of its key again (`Placed.doubled`).
-/

namespace Libcuckoo

section
variable {K V : Type}

/-- `move_bucket`: the key moves to the new bucket. -/
def Params.toNewBucket (P : Params K) (oldHp newHp oldBucketInd : Nat) (key : K) : Bool :=
  let hv := P.hashedKey key
  let newBucketInd := oldBucketInd + hashsize oldHp
  let oldIhash := indexHash oldHp hv.hash
  let oldAhash := altIndex oldHp hv.partialKey oldIhash
  let newIhash := indexHash newHp hv.hash
  let newAhash := altIndex newHp hv.partialKey newIhash
  (oldBucketInd == oldIhash && newIhash == newBucketInd) ||
    (oldBucketInd == oldAhash && newAhash == newBucketInd)

/-- The loop of `move_bucket` over the old slots, `newBucketSlot` being the first free slot of
the new bucket. -/
def moveSlots (old : BucketContainer K V) (up : K → Bool) (oldBucketInd : Nat) :
    List Nat → Nat → BucketContainer K V → BucketContainer K V
  | [], _, new => new
  | s :: ss, newBucketSlot, new =>
    match old.slots (oldBucketInd, s) with
    | none => moveSlots old up oldBucketInd ss newBucketSlot new
    | some e =>
      if up e.key then
        moveSlots old up oldBucketInd ss (newBucketSlot + 1)
          (new.setKV (oldBucketInd + hashsize old.hashpower) newBucketSlot e)
      else
        moveSlots old up oldBucketInd ss newBucketSlot (new.setKV oldBucketInd s e)

/-- `move_bucket`. What is left in the old slots is never looked at again. -/
def moveBucket (P : Params K) (old new : BucketContainer K V) (oldBucketInd : Nat) :
    BucketContainer K V :=
  moveSlots old (P.toNewBucket old.hashpower new.hashpower oldBucketInd) oldBucketInd
    (List.range slotPerBucket) 0 new

/-- The entries that some slots of an old bucket have for the new one. -/
def upEntries (old : BucketContainer K V) (up : K → Bool) (ind : Nat) (ss : List Nat) :
    List (Entry K V) :=
  ss.filterMap fun s => (old.slots (ind, s)).filter fun e => up e.key

/-- The array with every bucket moved. -/
def doubled (P : Params K) (old : BucketContainer K V) : Cells (Nat × Nat) (Entry K V)
  | (i, s) =>
    if i < 2 ^ old.hashpower then
      (old.slots (i, s)).filter fun e =>
        !P.toNewBucket old.hashpower (old.hashpower + 1) i e.key
    else
      (upEntries old (P.toNewBucket old.hashpower (old.hashpower + 1) (i - 2 ^ old.hashpower))
        (i - 2 ^ old.hashpower) (List.range slotPerBucket))[s]?

end

variable {K V : Type} {P : Params K} {A : K → Option V} {old new : BucketContainer K V}
  {up : K → Bool} {e : Entry K V} {key : K} {hp ind i s n : Nat}

/-! ### Where a key goes -/

theorem Params.toNewBucket_true (h : P.toNewBucket hp (hp + 1) ind key = true) :
    P.Home (hp + 1) key (ind + 2 ^ hp) := by
  simp only [Params.toNewBucket, Bool.or_eq_true, Bool.and_eq_true, beq_iff_eq] at h
  rcases h with ⟨-, h⟩ | ⟨-, h⟩
  · exact .inl h.symm
  · exact .inr h.symm

/-- **The assertion of `move_bucket`**: what does not move to the new bucket has its old one
again. -/
theorem Params.toNewBucket_false (h : P.toNewBucket hp (hp + 1) ind key = false)
    (hhome : P.Home hp key ind) :
    (ind = (P.hashedKey key).i1 hp ∧ (P.hashedKey key).i1 (hp + 1) = ind) ∨
      (ind = (P.hashedKey key).i2 hp ∧ (P.hashedKey key).i2 (hp + 1) = ind) := by
  simp only [Params.toNewBucket, Bool.or_eq_false_iff, Bool.and_eq_false_iff, beq_eq_false_iff_ne]
    at h
  obtain ⟨hi, ha⟩ := h
  rcases hhome with hind | hind
  · have hstay := hi.resolve_left (not_not_intro hind)
    refine .inl ⟨hind, ?_⟩
    rcases eq_or_eq_add (HashValue.i1_lt _ _) ((P.hashedKey key).i1_succ_mod hp) with heq | heq
    · rw [heq, hind]
    · exact absurd (heq.trans (by rw [← hind]; rfl)) hstay
  · have hstay := ha.resolve_left (not_not_intro hind)
    refine .inr ⟨hind, ?_⟩
    rcases eq_or_eq_add (HashValue.i2_lt _ _) ((P.hashedKey key).i2_succ_mod hp) with heq | heq
    · rw [heq, hind]
    · exact absurd (heq.trans (by rw [← hind]; rfl)) hstay

theorem Params.toNewBucket_home (h : P.toNewBucket hp (hp + 1) ind key = false)
    (hhome : P.Home hp key ind) : P.Home (hp + 1) key ind := by
  rcases Params.toNewBucket_false h hhome with ⟨-, heq⟩ | ⟨-, heq⟩
  · exact .inl heq.symm
  · exact .inr heq.symm

/-! ### The loop -/

theorem moveSlots_hashpower (ss : List Nat) (n : Nat) (new : BucketContainer K V) :
    (moveSlots old up ind ss n new).hashpower = new.hashpower := by
  induction ss generalizing n new with
  | nil => rfl
  | cons s ss ih =>
      rw [moveSlots]
      split
      · exact ih n new
      · split
        · exact ih _ _
        · exact ih _ _

/-- A bucket that is neither the old nor the new one. -/
theorem moveSlots_other (ss : List Nat) (n : Nat) (new : BucketContainer K V) (hi : i ≠ ind)
    (hi' : i ≠ ind + 2 ^ old.hashpower) :
    (moveSlots old up ind ss n new).slots (i, s) = new.slots (i, s) := by
  induction ss generalizing n new with
  | nil => rfl
  | cons t ss ih =>
      rw [moveSlots]
      split
      · exact ih n new
      next e he =>
        split
        · rw [ih, hashsize, BucketContainer.setKV_of_ne fun heq => hi' (Prod.mk.inj heq).1]
        · rw [ih, BucketContainer.setKV_of_ne fun heq => hi (Prod.mk.inj heq).1]

/-- The bucket with the old index: what stays is in its slot. -/
theorem moveSlots_same (ss : List Nat) (n : Nat) (new : BucketContainer K V) :
    (moveSlots old up ind ss n new).slots (ind, s) =
      if s ∈ ss then ((old.slots (ind, s)).filter fun e => !up e.key).or (new.slots (ind, s))
      else new.slots (ind, s) := by
  induction ss generalizing n new with
  | nil => rfl
  | cons t ss ih =>
      have hne : (ind, s) ≠ (ind + hashsize old.hashpower, n) := fun heq => by
        have hpos := Nat.two_pow_pos old.hashpower
        have hind := (Prod.mk.inj heq).1
        simp only [hashsize] at hind
        omega
      rw [moveSlots]
      by_cases hst : s = t
      · subst hst
        cases he : old.slots (ind, s) with
        | none => simp [ih, he]
        | some e =>
            by_cases hup : up e.key
            · simp [hup, ih, he, Option.filter_some, BucketContainer.setKV_of_ne hne]
            · simp [hup, ih, he, Option.filter_some]
      · have hne' : (ind, s) ≠ (ind, t) := fun heq => hst (Prod.mk.inj heq).2
        cases he : old.slots (ind, t) with
        | none => simp [ih, hst]
        | some e =>
            by_cases hup : up e.key
            · simp [hup, ih, hst, BucketContainer.setKV_of_ne hne]
            · simp [hup, ih, hst, BucketContainer.setKV_of_ne hne']

/-- The new bucket: what moves to it, one after the other. -/
theorem moveSlots_up (ss : List Nat) (n : Nat) (new : BucketContainer K V) :
    (moveSlots old up ind ss n new).slots (ind + 2 ^ old.hashpower, s) =
      if n ≤ s then
        ((upEntries old up ind ss)[s - n]?).or (new.slots (ind + 2 ^ old.hashpower, s))
      else new.slots (ind + 2 ^ old.hashpower, s) := by
  induction ss generalizing n new with
  | nil => simp [moveSlots, upEntries]
  | cons t ss ih =>
      have hne : (ind + 2 ^ old.hashpower, s) ≠ (ind, t) := fun heq => by
        have hpos := Nat.two_pow_pos old.hashpower
        have hind := (Prod.mk.inj heq).1
        omega
      rw [moveSlots, upEntries, List.filterMap_cons]
      cases he : old.slots (ind, t) with
      | none => exact ih n new
      | some e =>
          by_cases hup : up e.key
          · simp only [hup, if_true, Option.filter_some]
            rw [ih, ← upEntries]
            rcases Nat.lt_trichotomy s n with hlt | rfl | hgt
            · rw [if_neg (by omega), if_neg (by omega), hashsize]
              exact BucketContainer.setKV_of_ne fun heq => by have := (Prod.mk.inj heq).2; omega
            · rw [if_neg (by omega), if_pos (Nat.le_refl _), hashsize]
              simp
            · rw [if_pos (by omega), if_pos (by omega), hashsize,
                show s - n = s - (n + 1) + 1 by omega, List.getElem?_cons_succ]
              congr 1
              exact BucketContainer.setKV_of_ne fun heq => by have := (Prod.mk.inj heq).2; omega
          · simp only [hup, Option.filter_some]
            rw [if_neg Bool.false_ne_true, ih, BucketContainer.setKV_of_ne hne]
            rfl

/-! ### One bucket -/

@[simp] theorem moveBucket_hashpower : (moveBucket P old new ind).hashpower = new.hashpower :=
  moveSlots_hashpower _ _ _

/-- **`move_bucket` writes its two buckets of the doubled array**, if it finds them empty. -/
theorem moveBucket_slots (hplaced : Placed P old.hashpower old.slots)
    (hnew : new.hashpower = old.hashpower + 1) (hind : ind < 2 ^ old.hashpower)
    (hempty : ∀ i s, origin old.hashpower i = ind → new.slots (i, s) = none) :
    (moveBucket P old new ind).slots (i, s) =
      if origin old.hashpower i = ind then doubled P old (i, s) else new.slots (i, s) := by
  have hiff := fun i => origin_eq_iff (i := i) hind
  rw [moveBucket, hnew]
  by_cases hi : origin old.hashpower i = ind
  · rw [if_pos hi]
    have hnone := hempty i s hi
    rcases (hiff i).mp hi with rfl | rfl
    · rw [moveSlots_same, hnone, Option.or_none, doubled, if_pos hind]
      split
      · rfl
      next hs =>
        cases he : old.slots (i, s) with
        | none => rfl
        | some e => exact absurd (List.mem_range.mpr (hplaced.slot i s e he)) hs
    · rw [moveSlots_up, hnone, Option.or_none, if_pos (Nat.zero_le _), doubled,
        if_neg (by omega), Nat.add_sub_cancel, Nat.sub_zero]
  · obtain ⟨hsame, hup⟩ := not_or.mp (mt (hiff i).mpr hi)
    rw [if_neg hi, moveSlots_other _ _ _ hsame hup]

theorem moveBuckets_hashpower (L : List Nat) (new : BucketContainer K V) :
    (L.foldl (moveBucket P old) new).hashpower = new.hashpower := by
  induction L generalizing new with
  | nil => rfl
  | cons ind L ih => rw [List.foldl_cons, ih, moveBucket_hashpower]

/-- **Several buckets are moved**, each of them once. -/
theorem moveBuckets_slots (hplaced : Placed P old.hashpower old.slots) (L : List Nat)
    (hnew : new.hashpower = old.hashpower + 1) (hL : ∀ ind ∈ L, ind < 2 ^ old.hashpower)
    (hnodup : L.Nodup) (hempty : ∀ i s, origin old.hashpower i ∈ L → new.slots (i, s) = none) :
    (L.foldl (moveBucket P old) new).slots (i, s) =
      if origin old.hashpower i ∈ L then doubled P old (i, s) else new.slots (i, s) := by
  induction L generalizing new with
  | nil => rfl
  | cons ind L ih =>
      obtain ⟨hnotin, hnodup⟩ := List.nodup_cons.mp hnodup
      have hone := fun i s => moveBucket_slots (i := i) (s := s) hplaced hnew (hL ind (by simp))
        fun i s hi => hempty i s (by simp [hi])
      rw [List.foldl_cons, ih (by rw [moveBucket_hashpower, hnew])
        (fun j hj => hL j (List.mem_cons_of_mem _ hj)) hnodup]
      · rw [hone]
        by_cases hi : origin old.hashpower i = ind
        · simp [hi]
        · simp [hi, List.mem_cons]
      · intro i s hi
        have hne : origin old.hashpower i ≠ ind := fun heq => hnotin (heq ▸ hi)
        rw [hone, if_neg hne]
        exact hempty i s (List.mem_cons_of_mem _ hi)

/-! ### The doubled array -/

/-- The slot of the doubled array that a slot's entry goes to. -/
def movesTo (P : Params K) (old : BucketContainer K V) : Nat × Nat → Nat × Nat
  | (i, s) =>
    if (old.slots (i, s)).any fun e => P.toNewBucket old.hashpower (old.hashpower + 1) i e.key then
      (i + 2 ^ old.hashpower,
        (upEntries old (P.toNewBucket old.hashpower (old.hashpower + 1) i) i
          (List.range s)).length)
    else (i, s)

/-- What `filterMap` yields at a place, and where it comes from. -/
theorem getElem?_filterMap_split {α β : Type} {g : α → Option β} {l : List α} {k : Nat} {b : β}
    (h : (l.filterMap g)[k]? = some b) :
    ∃ pre a post, l = pre ++ a :: post ∧ g a = some b ∧ (pre.filterMap g).length = k := by
  induction l generalizing k with
  | nil => cases h
  | cons a l ih =>
      rw [List.filterMap_cons] at h
      cases hg : g a with
      | none =>
          rw [hg] at h
          obtain ⟨pre, a', post, rfl, ha', hlen⟩ := ih h
          exact ⟨a :: pre, a', post, rfl, ha', by rw [List.filterMap_cons, hg]; exact hlen⟩
      | some b' =>
          rw [hg] at h
          cases k with
          | zero =>
              cases h
              exact ⟨[], a, l, rfl, hg, rfl⟩
          | succ k =>
              obtain ⟨pre, a', post, rfl, ha', hlen⟩ := ih h
              exact ⟨a :: pre, a', post, rfl, ha', by
                rw [List.filterMap_cons, hg, List.length_cons, hlen]⟩

theorem range_split {m a : Nat} {pre post : List Nat} (h : List.range m = pre ++ a :: post) :
    pre = List.range a := by
  have hlen : pre.length < m := by
    have := congrArg List.length h
    simp only [List.length_range, List.length_append, List.length_cons] at this
    omega
  have hpre : (List.range m).take pre.length = pre := by
    rw [h, List.take_left]
  have ha : (List.range m)[pre.length]? = some a := by
    rw [h, List.getElem?_append_right (Nat.le_refl _), Nat.sub_self]
    rfl
  rw [List.getElem?_range hlen] at ha
  rw [List.take_range, Nat.min_eq_left (Nat.le_of_lt hlen), Option.some.inj ha] at hpre
  exact hpre.symm

theorem Placed.doubled_relocates (h : Placed P old.hashpower old.slots) :
    Cells.Relocates (movesTo P old) old.slots (doubled P old) := by
  constructor
  · rintro ⟨i, s⟩ e he
    have hi := h.lt he
    rw [movesTo, he, Option.any_some]
    by_cases hup : P.toNewBucket old.hashpower (old.hashpower + 1) i e.key
    · have hs := h.slot i s e he
      rw [if_pos hup, doubled, if_neg (by omega), Nat.add_sub_cancel]
      have hsplit : List.range slotPerBucket =
          List.range s ++ s :: List.range' (s + 1) (slotPerBucket - (s + 1)) := by
        rw [List.range_eq_range', List.range_eq_range', ← List.range'_succ]
        have happ := @List.range'_append_1 0 s (slotPerBucket - (s + 1) + 1)
        rw [Nat.zero_add] at happ
        rw [happ]
        congr 1
        omega
      rw [hsplit, upEntries, List.filterMap_append, List.filterMap_cons, he, Option.filter_some,
        if_pos hup, ← upEntries, List.getElem?_append_right (Nat.le_refl _), Nat.sub_self]
      rfl
    · rw [if_neg hup, doubled, if_pos hi, he, Option.filter_some]
      simp [hup]
  · rintro ⟨i, s⟩ e he
    rw [doubled] at he
    split at he
    next hi =>
      obtain ⟨he, hup⟩ := Option.filter_eq_some_iff.mp he
      refine ⟨(i, s), he, ?_⟩
      rw [movesTo, he, Option.any_some, if_neg]
      simpa using hup
    next hi =>
      obtain ⟨pre, t, post, hrange, hentry, hlen⟩ := getElem?_filterMap_split he
      obtain ⟨hentry, hup⟩ := Option.filter_eq_some_iff.mp hentry
      refine ⟨(i - 2 ^ old.hashpower, t), hentry, ?_⟩
      rw [movesTo, hentry, Option.any_some, if_pos hup]
      rw [range_split hrange] at hlen
      rw [upEntries, hlen, Nat.sub_add_cancel (Nat.le_of_not_lt hi)]

/-- The new bucket has room for what moves to it. -/
theorem upEntries_length_lt (h : Placed P old.hashpower old.slots)
    (he : old.slots (i, s) = some e) :
    (upEntries old up i (List.range s)).length < slotPerBucket := by
  refine Nat.lt_of_le_of_lt (List.length_filterMap_le _ _) ?_
  rw [List.length_range]
  exact h.slot i s e he

/-- **Doubling puts every entry into a bucket of its key.** -/
theorem Placed.doubled (h : Placed P old.hashpower old.slots) :
    Placed P (old.hashpower + 1) (doubled P old) := by
  refine h.relocate h.doubled_relocates fun i s e he => ?_
  have hhome := h.home i s e he
  rw [movesTo, he, Option.any_some]
  by_cases hup : P.toNewBucket old.hashpower (old.hashpower + 1) i e.key
  · rw [if_pos hup]
    exact ⟨upEntries_length_lt h he, Params.toNewBucket_true hup⟩
  · rw [if_neg hup]
    exact ⟨h.slot i s e he, Params.toNewBucket_home (Bool.eq_false_iff.mpr hup) hhome⟩

/-- **Doubling changes nothing about the map.** -/
theorem Represents.doubled (h : Placed P old.hashpower old.slots) (hA : Represents old.slots A) :
    Represents (doubled P old) A :=
  h.doubled_relocates.represents hA

end Libcuckoo
