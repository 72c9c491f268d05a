import MultiportNetwork.Cuckoo.Insert

/-!
# MultiportNetwork.Cuckoo.Step

What one step of a thread does to a map that stands for `A`. A call takes effect with its last
step, as `Call.perform` says; the steps before it change nothing about the map. What a thread
has learnt of the table it may no longer rely on, since others have moved entries; what it
does rely on (`Place.Ok`) are facts about hash values, which nobody can change.
-/

namespace Libcuckoo

variable {K V : Type}

/-- What a call returns, and what it does to the map. -/
def Call.perform [DecidableEq K] (c : Call K V) (A : K → Option V) : Option V × (K → Option V) :=
  match A c.key with
  | some v =>
    let (v', del) := c.fn v
    (some v, Function.update A c.key (if del then none else some v'))
  | none => (none, Function.update A c.key c.insert)

/-! ### What a thread knows -/

section
variable (P : Params K)

/-- The record says of its bucket what a bucket of its hash value is. -/
structure CuckooRecord.Ok (hp : Nat) (r : CuckooRecord) : Prop where
  /-- The slot is in range, so that the swap writes inside a bucket. -/
  slot : r.slot < slotPerBucket
  tag : r.hv.partialKey = Libcuckoo.partialKey r.hv.hash
  home : r.bucket = r.hv.i1 hp ∨ r.bucket = r.hv.i2 hp

/-- The entries of a path can go to the bucket behind them, the first is in a bucket of the
key. The list is in the order of `cuckoopath_move`: the entry to be moved next is in front. -/
def Chain (hp : Nat) (key : K) : List CuckooRecord → Nat → Prop
  | [], bucket => P.Home hp key bucket
  | r :: path, bucket =>
    bucket = altIndex hp r.hv.partialKey r.bucket ∧ r.Ok hp ∧ Chain hp key path r.bucket

/-- How many buckets a search can enqueue below one, with so many levels to go. -/
def below : Nat → Nat
  | 0 => 0
  | n + 1 => slotPerBucket * (1 + below n)

/-- The depth and the path code of a bucket are in range. -/
def BSlot.Ok (x : BSlot) : Prop :=
  x.depth < maxBfsPathLen ∧ x.pathcode < 2 * slotPerBucket ^ x.depth

/-- How many buckets can still be enqueued below those waiting. -/
def BQueue.ahead (q : BQueue) : Nat :=
  (q.pending.map fun x => below (maxBfsPathLen - 1 - x.depth)).sum

/-- The queue has room for what the search can still find. -/
structure BQueue.Ok (q : BQueue) : Prop where
  slots : ∀ x ∈ q.pending, x.Ok
  /-- `MAX_CUCKOO_COUNT` is the size of the whole tree, so `b_queue` never throws. -/
  room : q.last + q.ahead ≤ maxCuckooCount

/-- What a thread may rely on between two steps, when it has no locks. It is about hash values
and numbers alone: that an entry is still where it was found is tested again with the locks. -/
def Place.Ok (key : K) : Place → Prop
  | .searching hp q => q.Ok ∧ ∀ x ∈ q.pending, x.bucket < 2 ^ hp
  | .tracing hp path bucket slot rest =>
    Chain P hp key path bucket ∧ slot < slotPerBucket ∧ (∀ s ∈ rest, s < slotPerBucket) ∧
      path.length + rest.length < maxBfsPathLen
  | .moving hp path bucket slot =>
    Chain P hp key path bucket ∧ slot < slotPerBucket ∧ path.length < maxBfsPathLen
  | _ => True

/-- A step of the call `c` on a map that stood for `A` has led to `r`. It goes on, and the map
stands for `A` still; or it returns, and that is when the call takes effect; or it throws. -/
def Call.Stepped [DecidableEq K] (c : Call K V) (m : CuckooMap K V) (A : K → Option V) :
    Next V × CuckooMap K V → Prop
  | (.at p, m') => p.Ok P c.key ∧ m'.Ok P A
  | (.returned found, m') => found = (c.perform A).1 ∧ m'.Ok P (c.perform A).2
  | (.threw _, m') => m' = m

/-- The buckets of a key are locked, with the hashpower as expected. -/
structure Held (key : K) (hp : Nat) (m : CuckooMap K V) : Prop where
  /-- The two buckets were computed for this hashpower. -/
  hashpower : m.hashpower = hp
  /-- Who takes a lock moves what is still in the old array. -/
  migrated : ∀ i, P.Home hp key i → (m.locks (P.lockInd i)).isMigrated = true

end

variable {P : Params K} {c : Call K V} {A : K → Option V} {m m' m₀ : CuckooMap K V}
  {key : K} {e : Entry K V} {val : V} {hp i s : Nat} {err : ResizeError}

/-! ### With the buckets of the key locked -/

theorem CuckooMap.Locked.held {inds : List Nat} (h : CuckooMap.Locked P A m hp inds m')
    (h1 : (P.hashedKey key).i1 hp ∈ inds) (h2 : (P.hashedKey key).i2 hp ∈ inds) :
    Held P key hp m' := by
  refine ⟨h.hashpower, fun i hi => h.migrated i ?_⟩
  rcases hi with rfl | rfl
  · exact h1
  · exact h2

/-- So the buckets are as if everything had been moved. -/
theorem Held.slots (h : Held P key hp m) (hi : P.Home hp key i) (s : Nat) :
    m.buckets.slots (i, s) = m.settled P (i, s) :=
  (CuckooMap.settled_migrated (h.migrated i hi)).symm

variable [DecidableEq K]

theorem Call.perform_some {v : V} (h : A c.key = some v) :
    c.perform A = (some v, Function.update A c.key
      (if (c.fn v).2 then none else some (c.fn v).1)) := by
  rw [Call.perform, h]

theorem Call.perform_none (h : A c.key = none) :
    c.perform A = (none, Function.update A c.key c.insert) := by
  rw [Call.perform, h]

/-- **`fn` is called on the value of the key.** -/
theorem Call.apply_stepped (h : m.Ok P A) (hi : (m.locks (P.lockInd i)).isMigrated = true)
    (he : m.buckets.slots (i, s) = some e) (hkey : e.key = c.key) :
    c.Stepped P m₀ A (c.apply P m i s) := by
  have hval : A c.key = some e.mapped := by
    rw [← hkey]
    exact Cells.Represents.get h.represents ((CuckooMap.settled_migrated hi).trans he)
  have hset := h.setMapped hi he (v := (c.fn e.mapped).1)
  rw [hkey] at hset
  rw [Call.apply, he]
  dsimp only
  refine ⟨by rw [c.perform_some hval], ?_⟩
  rw [c.perform_some hval]
  dsimp only
  split
  · have hdel := hset.delFromBucket (i := i) (s := s) hi BucketContainer.setKV_self
    dsimp only at hdel
    rw [hkey, Function.update_idem] at hdel
    exact hdel
  · exact hset

/-- **The key is new.** -/
theorem Call.add_stepped (h : m.Ok P A) (hheld : Held P c.key hp m) (hi : P.Home hp c.key i)
    (hs : s < slotPerBucket) (hfree : m.buckets.slots (i, s) = none) (hA : A c.key = none)
    (hval : c.insert = some val) : c.Stepped P m₀ A (c.add P m i s val) := by
  refine ⟨by rw [c.perform_none hA], ?_⟩
  rw [c.perform_none hA, hval]
  rw [← hheld.hashpower] at hi
  exact h.addToBucket hs hi (hheld.migrated i (hheld.hashpower ▸ hi)) hfree hA

/-- `cuckoo_find` finds the key or there is none. -/
theorem Call.find_spec (h : m.Ok P A) (hheld : Held P c.key hp m) :
    match c.find P hp m with
    | some (i, s) => P.Home hp c.key i ∧
        ∃ e, m.buckets.slots (i, s) = some e ∧ e.key = c.key
    | none => A c.key = none := by
  have hplaced := h.placed
  rw [hheld.hashpower] at hplaced
  have hspec := hplaced.find (b := m.buckets) h.represents fun i s hi => hheld.slots hi s
  rw [Call.find, Call.hv]
  revert hspec
  generalize m.buckets.cuckooFind c.key _ _ _ = r
  intro hspec
  cases r with
  | none => exact hspec
  | some p =>
      obtain ⟨hi, -, e, he, hkey, -⟩ := hspec
      exact ⟨hi, e, (hheld.slots hi p.2).trans he, hkey⟩

/-- `find_fn`: an absent key is left absent. -/
theorem Call.lookUp_stepped (h : m.Ok P A) (hheld : Held P c.key hp m)
    (hval : c.insert = none) : c.Stepped P m₀ A (c.lookUp P hp m) := by
  have hspec := c.find_spec h hheld
  rw [Call.lookUp]
  split
  next i s heq =>
    rw [heq] at hspec
    obtain ⟨hi, e, he, hkey⟩ := hspec
    exact c.apply_stepped h (hheld.migrated i hi) he hkey
  next heq =>
    rw [heq] at hspec
    refine ⟨by rw [c.perform_none hspec], ?_⟩
    rw [c.perform_none hspec, hval, ← hspec, Function.update_eq_self]
    exact h

/-- The end of `run_cuckoo`. While the path was being made free others may have inserted the
key, so it is looked for once more. -/
theorem Call.conclude_stepped (h : m.Ok P A) (hheld : Held P c.key hp m)
    (hi : P.Home hp c.key i) (hs : s < slotPerBucket) (hfree : m.buckets.slots (i, s) = none)
    (hval : c.insert = some val) : c.Stepped P m₀ A (c.conclude P hp m i s val) := by
  have hspec := c.find_spec h hheld
  rw [Call.conclude]
  split
  next j r heq =>
    rw [heq] at hspec
    obtain ⟨hj, e, he, hkey⟩ := hspec
    exact c.apply_stepped h (hheld.migrated j hj) he hkey
  next heq =>
    rw [heq] at hspec
    exact c.add_stepped h hheld hi hs hfree hspec hval

/-- Two buckets, and the tree below them. -/
theorem BQueue.start_ok (i1 i2 : Nat) : (BQueue.start i1 i2).Ok := by
  refine ⟨fun x hx => ?_, ?_⟩
  swap
  · simp [start, enqueue, ahead, below, maxCuckooCount, slotPerBucket, maxBfsPathLen]
  rcases List.mem_pair.mp hx with rfl | rfl
  · exact ⟨Nat.zero_lt_succ 4, Nat.zero_lt_succ 1⟩
  · exact ⟨Nat.zero_lt_succ 4, Nat.lt_succ_self 1⟩

theorem Call.search_stepped (h : m.Ok P A) : c.Stepped P m₀ A (c.search P hp, m) := by
  refine ⟨⟨BQueue.start_ok _ _, fun x hx => ?_⟩, h⟩
  rcases List.mem_pair.mp hx with rfl | rfl
  · exact HashValue.i1_lt _ _
  · exact HashValue.i2_lt _ _

/-- `cuckoo_insert`: a duplicate is assigned to, a new key goes to a free slot of either bucket,
and if there is none the search begins. -/
theorem Call.cuckooInsert_stepped (h : m.Ok P A) (hheld : Held P c.key hp m)
    (hval : c.insert = some val) : c.Stepped P m₀ A (c.cuckooInsert P hp m val) := by
  have h1 : P.Home hp c.key ((c.hv P).i1 hp) := .inl rfl
  have h2 : P.Home hp c.key ((c.hv P).i2 hp) := .inr rfl
  have hdup : ∀ {i slot}, P.Home hp c.key i →
      m.buckets.tryFindInsertBucket i (c.hv P).partialKey c.key = (false, slot) →
      c.Stepped P m₀ A (c.apply P m i (slot.getD 0)) := by
    intro i slot hi hfind
    obtain ⟨s, rfl, -, e, he, hkey⟩ := BucketContainer.tryFindInsert_duplicate hfind
    exact c.apply_stepped h (hheld.migrated i hi) he hkey
  rw [Call.cuckooInsert]
  split
  next hfind1 => exact hdup h1 hfind1
  next res1 hfind1 =>
    split
    next hfind2 => exact hdup h2 hfind2
    next res2 hfind2 =>
      -- an entry of the key could only be in one of the two buckets, and neither has it
      have hA : A c.key = none := by
        refine (Cells.Represents.none_iff h.represents).mpr ?_
        rintro ⟨i, s⟩ e he hkey
        have hs := h.placed.slot i s e he
        have htag := h.placed.tag i s e he
        have hi := h.placed.home i s e he
        rw [hheld.hashpower, hkey] at hi
        rw [← hheld.slots hi] at he
        rw [hkey] at htag
        rcases hi with rfl | rfl
        · exact BucketContainer.tryFindInsert_absent hfind1 hs he htag hkey
        · exact BucketContainer.tryFindInsert_absent hfind2 hs he htag hkey
      split
      next slot _ =>
        obtain ⟨hs, hfree⟩ := BucketContainer.tryFindInsert_free hfind1
        exact c.add_stepped h hheld h1 hs hfree hA hval
      next slot =>
        obtain ⟨hs, hfree⟩ := BucketContainer.tryFindInsert_free hfind2
        exact c.add_stepped h hheld h2 hs hfree hA hval
      next => exact c.search_stepped h

/-! ### The search -/

/-- A bucket below `x`. Its code is computed in `uint16_t`, which is wide enough: a code has two
bits a level and one for the bucket it starts from. -/
theorem BSlot.Ok.child {x : BSlot} (hx : x.Ok) (hs : s < slotPerBucket) :
    uint16 (x.pathcode * slotPerBucket + s) = x.pathcode * slotPerBucket + s ∧
      x.pathcode * slotPerBucket + s < 2 * slotPerBucket ^ (x.depth + 1) := by
  obtain ⟨hdepth, hcode⟩ := hx
  have hlt : x.pathcode * slotPerBucket + s < 2 * slotPerBucket ^ (x.depth + 1) := by
    rw [Nat.pow_succ, ← Nat.mul_assoc]
    have hle := Nat.mul_le_mul_right slotPerBucket (Nat.succ_le_of_lt hcode)
    rw [Nat.succ_mul] at hle
    omega
  have hpow : slotPerBucket ^ (x.depth + 1) ≤ slotPerBucket ^ maxBfsPathLen :=
    Nat.pow_le_pow_right (by decide) hdepth
  have hmax : 2 * slotPerBucket ^ maxBfsPathLen < 2 ^ 16 := by decide
  exact ⟨Nat.mod_eq_of_lt (by omega), hlt⟩

/-- What a slot of a bucket of depth `d` can still bring into the queue. -/
def perSlot (d : Nat) : Nat :=
  if d < maxBfsPathLen - 1 then 1 + below (maxBfsPathLen - 1 - (d + 1)) else 0

theorem below_eq (d : Nat) :
    below (maxBfsPathLen - 1 - d) = slotPerBucket * perSlot d := by
  unfold perSlot
  split
  next hd =>
    rw [show maxBfsPathLen - 1 - d = maxBfsPathLen - 1 - (d + 1) + 1 by omega, below]
  next hd => rw [show maxBfsPathLen - 1 - d = 0 by omega, below, Nat.mul_zero]

/-- What a search may say of the bucket `x`: an empty slot, with a path code in range, or a
queue that has had room for what was found. -/
def Scanned (x : BSlot) : BSlot ⊕ BQueue → Prop
  | .inl x' => x'.depth = x.depth ∧ x'.pathcode < 2 * slotPerBucket ^ (x.depth + 1)
  | .inr q => q.Ok

omit [DecidableEq K] in
/-- **The queue never runs out of space**, and the path codes never wrap around. By induction on
the slots still to be looked at, each of which may bring a whole subtree into the queue. -/
theorem scanSlots_ok {b : BucketContainer K V} {x : BSlot} (hx : x.Ok) (is : List Nat)
    {q : BQueue} (hslots : ∀ y ∈ q.pending, y.Ok)
    (hroom : q.last + q.ahead + is.length * perSlot x.depth ≤ maxCuckooCount) :
    Scanned x (scanSlots hp b x is q) := by
  induction is generalizing q with
  | nil => exact ⟨hslots, by simpa using hroom⟩
  | cons i is ih =>
      have hs : (x.pathcode % slotPerBucket + i) % slotPerBucket < slotPerBucket :=
        Nat.mod_lt _ (by decide)
      obtain ⟨hcode, hlt⟩ := hx.child hs
      rw [List.length_cons, Nat.succ_mul] at hroom
      rw [scanSlots]
      split
      · exact ⟨rfl, by rw [hcode]; exact hlt⟩
      next e he =>
        split
        next hdepth =>
          -- the bucket comes out of what was still ahead
          refine ih (fun y hy => ?_) ?_
          · rcases List.mem_append.mp hy with hy | hy
            · exact hslots y hy
            · rw [List.mem_singleton.mp hy]
              exact ⟨by dsimp only; omega, by rw [hcode]; exact hlt⟩
          · have hper : perSlot x.depth = 1 + below (maxBfsPathLen - 1 - (x.depth + 1)) :=
              if_pos hdepth
            simp only [BQueue.enqueue, BQueue.ahead, List.map_append, List.sum_append,
              List.map_cons, List.map_nil, List.sum_cons, List.sum_nil] at hroom ⊢
            omega
        -- the last level is looked at, and nothing put below it
        next hdepth => exact ih hslots (by omega)

omit [DecidableEq K] in
/-- Buckets that are enqueued are buckets of the table. -/
theorem scanSlots_lt {b : BucketContainer K V} {x : BSlot} (is : List Nat) {q q' : BQueue}
    (hlt : ∀ y ∈ q.pending, y.bucket < 2 ^ hp) (h : scanSlots hp b x is q = .inr q') :
    ∀ y ∈ q'.pending, y.bucket < 2 ^ hp := by
  induction is generalizing q with
  | nil =>
      cases h
      exact hlt
  | cons i is ih =>
      rw [scanSlots] at h
      split at h
      · cases h
      next e _ =>
        split at h
        · refine ih (fun y hy => ?_) h
          rcases List.mem_append.mp hy with hy | hy
          · exact hlt y hy
          · rw [List.mem_singleton.mp hy]
            exact altIndex_lt _ _ _
        · exact ih hlt h

/-- `cuckoopath_search` reads one slot a level off the code, from the last to the first, and is
left with the bucket it starts from. -/
theorem pathSlots_ok (depth code : Nat) (rest : List Nat) (hrest : ∀ s ∈ rest, s < slotPerBucket) :
    (pathSlots depth code rest).1 < slotPerBucket ∧
      (∀ s ∈ (pathSlots depth code rest).2.1, s < slotPerBucket) ∧
      (pathSlots depth code rest).2.1.length = depth + rest.length ∧
      (pathSlots depth code rest).2.2 = code / slotPerBucket ^ (depth + 1) := by
  have hmod : ∀ n, n % slotPerBucket < slotPerBucket := fun n => Nat.mod_lt n (by decide)
  induction depth generalizing code rest with
  | zero => exact ⟨hmod _, hrest, (Nat.zero_add _).symm, by rw [Nat.zero_add, Nat.pow_one]; rfl⟩
  | succ depth ih =>
      rw [pathSlots]
      obtain ⟨hslot, hall, hlen, hcode⟩ := ih (code / slotPerBucket)
        (code % slotPerBucket :: rest) (List.forall_mem_cons.mpr ⟨hmod _, hrest⟩)
      refine ⟨hslot, hall, ?_, ?_⟩
      · rw [hlen, List.length_cons]
        omega
      · rw [hcode, Nat.div_div_eq_div_mul, ← Nat.pow_succ']

/-- **A round of the search.** -/
theorem Call.searchStep_stepped {q : BQueue} (h : m.Ok P A) (hq : q.Ok)
    (hlt : ∀ x ∈ q.pending, x.bucket < 2 ^ hp) : c.Stepped P m A (c.searchStep P m hp q) := by
  rw [Call.searchStep]
  split
  · exact ⟨trivial, h⟩
  next x pending hpending =>
    have hx : x.Ok := hq.slots x (by rw [hpending]; exact List.mem_cons_self)
    split
    · exact ⟨trivial, h⟩
    next m' hlock =>
      have hok := (h.lockOne hlock).ok
      have hscan : Scanned x (scanSlots hp m'.buckets x (List.range slotPerBucket)
          { q with pending := pending }) := by
        refine scanSlots_ok hx _ (fun y hy => hq.slots y ?_) ?_
        · rw [hpending]
          exact List.mem_cons_of_mem _ hy
        · have hroom := hq.room
          simp only [BQueue.ahead, hpending, List.map_cons, List.sum_cons] at hroom
          rw [below_eq] at hroom
          simp only [BQueue.ahead, List.length_range]
          omega
      split
      next q' heq =>
        rw [heq] at hscan
        refine ⟨⟨hscan, scanSlots_lt _ (fun y hy => hlt y ?_) heq⟩, hok⟩
        rw [hpending]
        exact List.mem_cons_of_mem _ hy
      next x' heq =>
        rw [heq] at hscan
        -- the code is taken apart, and the path traced from its first bucket
        obtain ⟨hslot, hall, hlen, hcode⟩ := pathSlots_ok x'.depth x'.pathcode
          [] (List.forall_mem_nil _)
        refine ⟨⟨?_, hslot, hall, ?_⟩, hok⟩
        · split
          · exact .inl rfl
          · exact .inr rfl
        · rw [hlen, hscan.1]
          have := hx.1
          simp only [List.length_nil]
          omega

/-! ### The path -/

omit [DecidableEq K] in
/-- What is found in a locked bucket goes on the path. -/
theorem Chain.cons {path : List CuckooRecord} (h : Chain P hp key path i)
    (hlocked : CuckooMap.Locked P A m hp [i] m') (hs : s < slotPerBucket)
    (he : m'.buckets.slots (i, s) = some e) :
    Chain P hp key (⟨i, s, P.hashedKey e.key⟩ :: path)
      (altIndex hp (P.hashedKey e.key).partialKey i) := by
  rw [hlocked.slots (List.mem_singleton_self i), ← hlocked.rehashed.settled] at he
  have hhome := hlocked.ok.placed.home i s e he
  rw [hlocked.hashpower] at hhome
  exact ⟨rfl, ⟨hs, rfl, hhome⟩, h⟩

/-- **The path is traced** one bucket at a time. It ends where a slot is found empty, sooner
than the search said if others have moved entries. -/
theorem traceStep_stepped {path : List CuckooRecord} {rest : List Nat} (h : m.Ok P A)
    (hchain : Chain P hp c.key path i) (hs : s < slotPerBucket)
    (hrest : ∀ s ∈ rest, s < slotPerBucket) (hlen : path.length + rest.length < maxBfsPathLen) :
    c.Stepped P m A (traceStep P m hp path i s rest) := by
  have hpath : path.length < maxBfsPathLen := Nat.lt_of_le_of_lt (Nat.le_add_right _ _) hlen
  rw [traceStep]
  split
  · exact ⟨trivial, h⟩
  next m' hlock =>
    have hlocked := h.lockOne hlock
    split
    · exact ⟨⟨hchain, hs, hpath⟩, hlocked.ok⟩
    · exact ⟨⟨hchain, hs, hpath⟩, hlocked.ok⟩
    next e slot' rest he =>
      rw [List.length_cons] at hlen
      obtain ⟨hslot', hrest⟩ := List.forall_mem_cons.mp hrest
      exact ⟨⟨hchain.cons hlocked hs he, hslot', hrest, by rw [List.length_cons]; omega⟩,
        hlocked.ok⟩

/-- **An entry is carried along the path**, and at its end the new key inserted. -/
theorem Call.moveStep_stepped {path : List CuckooRecord} (h : m.Ok P A)
    (hchain : Chain P hp c.key path i) (hs : s < slotPerBucket)
    (hlen : path.length < maxBfsPathLen) (hval : c.insert = some val) :
    c.Stepped P m A (c.moveStep P m hp path i s val) := by
  rcases path with _ | ⟨last, _ | ⟨next, path⟩⟩
  · -- a slot of one of the two buckets has been found empty
    rw [Call.moveStep]
    split
    · exact ⟨trivial, h⟩
    next m' hlock =>
      have hlocked := h.lockTwo hlock
      have hheld : Held P c.key hp m' := hlocked.held (by simp [Call.hv]) (by simp [Call.hv])
      split
      next hfree =>
        exact c.conclude_stepped hlocked.ok hheld hchain hs (Option.isNone_iff_eq_none.mp hfree)
          hval
      next => exact c.search_stepped hlocked.ok
  · -- the last swap: it is made with the key's two buckets locked as well
    obtain ⟨hto, ⟨hlast, htag, -⟩, hfirst⟩ := hchain
    rw [Call.moveStep]
    split
    · exact ⟨trivial, h⟩
    next m' hlock =>
      have hlocked := h.lockThree hlock
      have hheld : Held P c.key hp m' := hlocked.held (by simp [Call.hv]) (by simp [Call.hv])
      split
      · exact c.search_stepped hlocked.ok
      next m'' hmove =>
        obtain ⟨hok, hhp, hlocks, hsettled⟩ := hlocked.ok.moveEntry
          (hheld.migrated last.bucket hfirst) (hlocked.migrated i (by simp)) hs htag
          (by rw [hlocked.hashpower]; exact hto) hmove
        -- they are still locked, and the slot the entry has left is free for the key
        have hheld' : Held P c.key hp m'' := by
          refine ⟨hhp.trans hheld.hashpower, fun j hj => ?_⟩
          rw [hlocks]
          exact hheld.migrated j hj
        have hfree : m''.buckets.slots (last.bucket, last.slot) = none := by
          rw [hheld'.slots hfirst, hsettled, Cells.carry_self]
        exact c.conclude_stepped hok hheld' hfirst hlast hfree hval
  · -- a swap farther back, after which there is one entry less to move
    obtain ⟨hto, ⟨hlast, htag, -⟩, hrest⟩ := hchain
    rw [Call.moveStep]
    case x => exact nofun
    split
    · exact ⟨trivial, h⟩
    next m' hlock =>
      have hlocked := h.lockTwo hlock
      split
      · exact c.search_stepped hlocked.ok
      next m'' hmove =>
        obtain ⟨hok, -⟩ := hlocked.ok.moveEntry (hlocked.migrated last.bucket (by simp))
          (hlocked.migrated i (by simp)) hs htag
          (by rw [hlocked.hashpower]; exact hto) hmove
        refine ⟨⟨hrest, hlast, ?_⟩, hok⟩
        rw [List.length_cons] at hlen
        exact Nat.lt_of_succ_lt hlen

/-! ### Every step -/

/-- An expansion does not change what the map stands for, nor does finding that somebody else
has made it. -/
theorem doubleStep_stepped (h : m.Ok P A) : c.Stepped P m A (doubleStep P m hp) := by
  rw [doubleStep]
  split
  · exact rfl
  next heq => exact ⟨trivial, h.cuckooFastDouble heq⟩

/-- **Every step** leaves the map standing for what it stood for, except that a call takes
effect with the step it returns by. -/
theorem Call.step_stepped (h : m.Ok P A) {p : Place} (hplace : p.Ok P c.key) :
    c.Stepped P m A (c.step P m p) := by
  cases p with
  | snapshot => exact ⟨trivial, h⟩
  | locking hp =>
      rw [Call.step]
      split
      · exact ⟨trivial, h⟩
      next m' hlock =>
        have hlocked := h.lockTwo hlock
        have hheld : Held P c.key hp m' := hlocked.held (by simp [Call.hv]) (by simp [Call.hv])
        split
        next hval => exact c.lookUp_stepped hlocked.ok hheld hval
        next val hval => exact c.cuckooInsert_stepped hlocked.ok hheld hval
  | searching hp q => exact c.searchStep_stepped h hplace.1 hplace.2
  | tracing hp path bucket slot rest =>
      obtain ⟨hchain, hs, hrest, hlen⟩ := hplace
      exact traceStep_stepped h hchain hs hrest hlen
  | moving hp path bucket slot =>
      obtain ⟨hchain, hs, hlen⟩ := hplace
      rw [Call.step]
      split
      · exact ⟨trivial, h⟩
      next val hval => exact c.moveStep_stepped h hchain hs hlen hval
  | doubling hp => exact doubleStep_stepped h

/-! ### Exceptions -/

-- only `cuckoo_fast_double` calls `check_resize_validity`

omit [DecidableEq K] in
theorem Call.apply_ne_threw : (c.apply P m i s).1 ≠ .threw err := by
  rw [Call.apply]
  split <;> exact nofun

theorem Call.lookUp_ne_threw : (c.lookUp P hp m).1 ≠ .threw err := by
  rw [Call.lookUp]
  split
  · exact c.apply_ne_threw
  · exact nofun

theorem Call.conclude_ne_threw : (c.conclude P hp m i s val).1 ≠ .threw err := by
  rw [Call.conclude]
  split
  · exact c.apply_ne_threw
  · exact nofun

theorem Call.cuckooInsert_ne_threw : (c.cuckooInsert P hp m val).1 ≠ .threw err := by
  rw [Call.cuckooInsert]
  split
  · exact c.apply_ne_threw
  · split
    · exact c.apply_ne_threw
    · split <;> exact nofun

omit [DecidableEq K] in
theorem Call.searchStep_ne_threw {q : BQueue} : (c.searchStep P m hp q).1 ≠ .threw err := by
  rw [Call.searchStep]
  split
  · exact nofun
  · split
    · exact nofun
    · split <;> exact nofun

omit [DecidableEq K] in
theorem traceStep_ne_threw {path : List CuckooRecord} {rest : List Nat} :
    (traceStep P m hp path i s rest : Next V × _).1 ≠ .threw err := by
  rw [traceStep]
  split
  · exact nofun
  · split <;> exact nofun

theorem Call.moveStep_ne_threw {path : List CuckooRecord} :
    (c.moveStep P m hp path i s val).1 ≠ .threw err := by
  rcases path with _ | ⟨last, _ | ⟨next, path⟩⟩
  · rw [Call.moveStep]
    split
    · exact nofun
    · split
      · exact c.conclude_ne_threw
      · exact nofun
  · rw [Call.moveStep]
    split
    · exact nofun
    · split
      · exact nofun
      · exact c.conclude_ne_threw
  · rw [Call.moveStep]
    case x => exact nofun
    split
    · exact nofun
    · split <;> exact nofun

/-- **A call throws** where `check_resize_validity` does, and nowhere else. -/
theorem Call.step_throws {p : Place} (h : (c.step P m p).1 = .threw err) :
    ∃ hp, p = .doubling hp ∧ m.checkResizeValidity P hp (hp + 1) = .error err := by
  cases p with
  | snapshot => cases h
  | locking hp =>
      rw [Call.step] at h
      split at h
      · cases h
      · split at h
        · exact absurd h c.lookUp_ne_threw
        · exact absurd h c.cuckooInsert_ne_threw
  | searching hp q => exact absurd h c.searchStep_ne_threw
  | tracing hp path bucket slot rest => exact absurd h traceStep_ne_threw
  | moving hp path bucket slot =>
      rw [Call.step] at h
      split at h
      · cases h
      · exact absurd h c.moveStep_ne_threw
  | doubling hp =>
      refine ⟨hp, rfl, ?_⟩
      rw [Call.step, doubleStep, CuckooMap.cuckooFastDouble] at h
      cases hvalid : m.checkResizeValidity P hp (hp + 1) with
      | error e' =>
          rw [hvalid] at h
          cases h
          rfl
      | ok st =>
          rw [hvalid] at h
          cases st <;> cases h

omit [DecidableEq K] in
/-- `check_resize_validity` throws for a hashpower beyond the maximum and, with whatever others
have done to the hashpower meanwhile, for a table that is too empty. -/
theorem CuckooMap.checkResizeValidity_error {origHp newHp : Nat} :
    (∃ e, m.checkResizeValidity P origHp newHp = .error e) ↔
      P.maximumHashpower.any (· < newHp) = true ∨ m.loadFactorTooLow P = true := by
  rw [CuckooMap.checkResizeValidity]
  split
  next hmax => exact ⟨fun _ => .inl hmax, fun _ => ⟨_, rfl⟩⟩
  next hmax =>
    split
    next hload => exact ⟨fun _ => .inr hload, fun _ => ⟨_, rfl⟩⟩
    next hload =>
      refine ⟨?_, fun h => absurd h (by simp [hmax, hload])⟩
      rintro ⟨e, he⟩
      split at he <;> cases he

theorem Call.step_doubling (h : ∃ e, m.checkResizeValidity P hp (hp + 1) = .error e) :
    ∃ e, c.step P m (.doubling hp) = (.threw e, m) := by
  obtain ⟨e, he⟩ := h
  refine ⟨e, ?_⟩
  rw [Call.step, doubleStep, CuckooMap.cuckooFastDouble, he]

end Libcuckoo
