import MultiportNetwork.Lib.LevelOrder
import MultiportNetwork.Cuckoo.Linear

/-!
# MultiportNetwork.Cuckoo.Search

What `slot_search` finds if nobody moves entries meanwhile. It goes through the buckets in
level order, so it finds an empty slot if there is one within `MAX_BFS_PATH_LEN - 1` moves of
the two buckets of the key (`search_leads`), and the buckets on the way to it are full. The
path that `cuckoopath_search` reads off the code is then the path that was found.
-/

namespace Libcuckoo

variable {K V : Type}

section
variable (P : Params K) (T : Cells (Nat × Nat) (Entry K V)) (hp : Nat)

/-- Bucket `b` is `n` moves away from those of the key. -/
inductive Within (key : K) : Nat → Nat → Prop
  | home {b : Nat} (h : P.Home hp key b) : Within key 0 b
  | hop {n b s : Nat} {e : Entry K V} (h : Within key n b) (hs : s < slotPerBucket)
      (he : T (b, s) = some e) :
      Within key (n + 1) (altIndex hp (P.hashedKey e.key).partialKey b)

/-- No bucket within reach of a search has an empty slot. -/
def Crowded (key : K) : Prop :=
  ∀ n < maxBfsPathLen, ∀ b, Within P T hp key n b → Full T b

/-- The `i`-th slot that `slot_search` looks at. -/
def BSlot.slotAt (x : BSlot) (i : Nat) : Nat := (x.pathcode % slotPerBucket + i) % slotPerBucket

/-- What `slot_search` enqueues for some slots of a bucket. -/
def BSlot.kids (x : BSlot) (is : List Nat) : List BSlot :=
  if x.depth < maxBfsPathLen - 1 then
    is.filterMap fun i => (T (x.bucket, x.slotAt i)).map fun e =>
      ⟨altIndex hp e.partialKey x.bucket, uint16 (x.pathcode * slotPerBucket + x.slotAt i),
        x.depth + 1⟩
  else []

/-- The buckets below one. -/
def BSlot.children (x : BSlot) : List BSlot := x.kids T hp (List.range slotPerBucket)

/-- A path through entries, forwards from bucket `b` to bucket `b'`. -/
def Route (b : Nat) : List CuckooRecord → Nat → Prop
  | [], b' => b = b'
  | r :: path, b' =>
    r.bucket = b ∧ r.slot < slotPerBucket ∧
      (∃ e, T (b, r.slot) = some e ∧ r.hv = P.hashedKey e.key) ∧
      Route (altIndex hp r.hv.partialKey b) path b'

/-- The path code of slots that are gone through from a first code on. -/
def codeOf (first : Nat) (path : List CuckooRecord) : Nat :=
  path.foldl (fun code r => code * slotPerBucket + r.slot) first

end

variable {P : Params K} {T : Cells (Nat × Nat) (Entry K V)} {A : K → Option V} {hp n s : Nat}
  {key : K} {m m' : CuckooMap K V} {b b' : Nat} {path path' : List CuckooRecord} {x y : BSlot}

/-! ### One bucket -/

/-- Every slot is looked at. -/
theorem BSlot.exists_slotAt (x : BSlot) (hs : s < slotPerBucket) :
    ∃ i ∈ List.range slotPerBucket, x.slotAt i = s := by
  have hstart : x.pathcode % slotPerBucket < slotPerBucket := Nat.mod_lt _ (by decide)
  refine ⟨(s + (slotPerBucket - x.pathcode % slotPerBucket)) % slotPerBucket,
    List.mem_range.mpr (Nat.mod_lt _ (by decide)), ?_⟩
  rw [BSlot.slotAt, Nat.add_mod_mod, ← Nat.add_assoc, Nat.add_comm _ s, Nat.add_assoc,
    Nat.add_sub_cancel' (Nat.le_of_lt hstart), Nat.add_mod_right, Nat.mod_eq_of_lt hs]

theorem BSlot.slotAt_lt (x : BSlot) (i : Nat) : x.slotAt i < slotPerBucket :=
  Nat.mod_lt _ (by decide)

/-- What comes of the slots of a bucket: an empty one among them, at which the search stops, or
the buckets their entries could move to. -/
theorem scanSlots_cases (hp : Nat) (b : BucketContainer K V) (x : BSlot) (is : List Nat)
    (q : BQueue) :
    (∃ s < slotPerBucket, b.slots (x.bucket, s) = none ∧ scanSlots hp b x is q =
      .inl { x with pathcode := uint16 (x.pathcode * slotPerBucket + s) }) ∨
    ((∀ i ∈ is, (b.slots (x.bucket, x.slotAt i)).isSome) ∧ scanSlots hp b x is q =
      .inr ⟨q.pending ++ x.kids b.slots hp is, q.last + (x.kids b.slots hp is).length⟩) := by
  induction is generalizing q with
  | nil =>
      refine .inr ⟨nofun, ?_⟩
      rw [scanSlots, BSlot.kids]
      simp
  | cons i is ih =>
      rw [scanSlots]
      split
      next hnone => exact .inl ⟨_, x.slotAt_lt i, hnone, rfl⟩
      next e he =>
        have hi : (b.slots (x.bucket, x.slotAt i)).isSome := by
          rw [BSlot.slotAt, he]
          rfl
        split
        next hdepth =>
          refine (ih _).imp_right fun h => ⟨List.forall_mem_cons.mpr ⟨hi, h.1⟩, ?_⟩
          have hkids : x.kids b.slots hp (i :: is) =
              ⟨altIndex hp e.partialKey x.bucket, uint16 (x.pathcode * slotPerBucket + x.slotAt i),
                x.depth + 1⟩ :: x.kids b.slots hp is := by
            rw [BSlot.kids, BSlot.kids, if_pos hdepth, if_pos hdepth, List.filterMap_cons,
              BSlot.slotAt, he]
            rfl
          rw [h.2, hkids, BQueue.enqueue, List.append_assoc, List.singleton_append,
            List.length_cons, Nat.add_assoc, Nat.add_comm 1]
          rfl
        next hdepth =>
          refine (ih _).imp_right fun h => ⟨List.forall_mem_cons.mpr ⟨hi, h.1⟩, ?_⟩
          rw [h.2, BSlot.kids, BSlot.kids, if_neg hdepth, if_neg hdepth]

/-! ### The tree that is searched -/

/-- Below a bucket are those its entries could move to, down to the last level. -/
theorem BSlot.mem_children : y ∈ x.children T hp ↔ x.depth < maxBfsPathLen - 1 ∧
    ∃ s < slotPerBucket, ∃ e, T (x.bucket, s) = some e ∧ y = ⟨altIndex hp e.partialKey x.bucket,
      uint16 (x.pathcode * slotPerBucket + s), x.depth + 1⟩ := by
  rw [BSlot.children, BSlot.kids]
  split
  next hdepth =>
    rw [List.mem_filterMap]
    constructor
    · rintro ⟨i, -, hi⟩
      obtain ⟨e, he, rfl⟩ := Option.map_eq_some_iff.mp hi
      exact ⟨hdepth, x.slotAt i, x.slotAt_lt i, e, he, rfl⟩
    · rintro ⟨-, s, hs, e, he, rfl⟩
      obtain ⟨i, hi, rfl⟩ := x.exists_slotAt hs
      exact ⟨i, hi, by rw [he]; rfl⟩
  next hdepth =>
    constructor
    · intro h
      cases h
    · intro h
      exact absurd h.1 hdepth

/-- The tree below the two buckets of a key. -/
abbrev SearchTree (P : Params K) (T : Cells (Nat × Nat) (Entry K V)) (hp : Nat) (key : K) :
    Nat → BSlot → Prop :=
  InTree (BQueue.start ((P.hashedKey key).i1 hp) ((P.hashedKey key).i2 hp)).pending
    (BSlot.children T hp)

theorem Route.append (h : Route P T hp b path b') {b'' : Nat} (h' : Route P T hp b' path' b'') :
    Route P T hp b (path ++ path') b'' := by
  induction path generalizing b with
  | nil =>
      cases h
      exact h'
  | cons r path ih =>
      obtain ⟨hbucket, hs, he, hrest⟩ := h
      exact ⟨hbucket, hs, he, ih hrest⟩

/-- The bucket that a code starts from. -/
def firstBucket (P : Params K) (hp : Nat) (key : K) (code : Nat) : Nat :=
  if code = 0 then (P.hashedKey key).i1 hp else (P.hashedKey key).i2 hp

theorem firstBucket_home (code : Nat) : P.Home hp key (firstBucket P hp key code) := by
  unfold firstBucket
  split
  · exact .inl rfl
  · exact .inr rfl

/-- What a node of the tree says: how it can be come to, and by which path. -/
structure Node (P : Params K) (T : Cells (Nat × Nat) (Entry K V)) (hp : Nat) (key : K) (n : Nat)
    (x : BSlot) : Prop where
  depth : x.depth = n
  ok : x.Ok
  within : Within P T hp key n x.bucket
  /-- The code is that of a path which is really there. -/
  path : ∃ first < 2, ∃ path, path.length = n ∧ codeOf first path = x.pathcode ∧
    Route P T hp (firstBucket P hp key first) path x.bucket

/-- By induction on the tree: the code of a child is that of its parent with one more slot. -/
theorem SearchTree.node (hT : Placed P hp T) (h : SearchTree P T hp key n x) :
    Node P T hp key n x := by
  induction h with
  | @root x hx =>
      rcases List.mem_pair.mp hx with rfl | rfl
      · exact ⟨rfl, ⟨Nat.zero_lt_succ 4, Nat.zero_lt_succ 1⟩, .home (.inl rfl), 0, Nat.two_pos,
          [], rfl, rfl, rfl⟩
      · exact ⟨rfl, ⟨Nat.zero_lt_succ 4, Nat.lt_succ_self 1⟩, .home (.inr rfl), 1,
          Nat.one_lt_two, [], rfl, rfl, rfl⟩
  | @child n x y hx hy ih =>
      obtain ⟨hdepth, s, hs, e, he, rfl⟩ := BSlot.mem_children.mp hy
      obtain ⟨hcode, hlt⟩ := ih.ok.child hs
      have htag := hT.tag x.bucket s e he
      obtain ⟨first, hfirst, path, hlen, hpath, hroute⟩ := ih.path
      refine ⟨by rw [ih.depth], ⟨by dsimp only; omega, by rw [hcode]; exact hlt⟩, ?_, first, hfirst,
        path ++ [⟨x.bucket, s, P.hashedKey e.key⟩], ?_, ?_,
        hroute.append ⟨rfl, hs, ⟨e, he, rfl⟩, ?_⟩⟩
      · rw [htag]
        exact .hop ih.within hs he
      · rw [List.length_append, hlen]
        rfl
      · rw [codeOf] at hpath ⊢
        rw [List.foldl_append, hpath, hcode]
        rfl
      · rw [htag]
        rfl

/-- And every bucket that can be come to in so few moves is in the tree. -/
theorem Within.exists_node (hT : Placed P hp T) (h : Within P T hp key n b)
    (hn : n < maxBfsPathLen) : ∃ x, SearchTree P T hp key n x ∧ x.bucket = b := by
  induction h with
  | home h =>
      rcases h with rfl | rfl
      · exact ⟨_, .root List.mem_cons_self, rfl⟩
      · exact ⟨_, .root (List.mem_cons_of_mem _ List.mem_cons_self), rfl⟩
  | @hop n b s e _ hs he ih =>
      obtain ⟨x, hx, rfl⟩ := ih (by omega)
      have hdepth : x.depth < maxBfsPathLen - 1 := by
        rw [(SearchTree.node hT hx).depth]
        omega
      refine ⟨_, .child hx (BSlot.mem_children.mpr ⟨hdepth, s, hs, e, he, rfl⟩), ?_⟩
      rw [hT.tag x.bucket s e he]

/-! ### The search, undisturbed -/

/-- What a search that nobody disturbs has come to: the tree in level order, and full buckets
behind it. -/
structure Searching (P : Params K) (T : Cells (Nat × Nat) (Entry K V)) (hp : Nat) (key : K)
    (q : BQueue) : Prop where
  ok : q.Ok
  /-- What has been seen is full, and what has not is in the queue or below it. -/
  order : ∃ seen : BSlot → Prop, (∀ x, seen x → Full T x.bucket) ∧
    LevelOrder (BQueue.start ((P.hashedKey key).i1 hp) ((P.hashedKey key).i2 hp)).pending
      (BSlot.children T hp) BSlot.depth seen q.pending

theorem Searching.start : Searching P T hp key
    (.start ((P.hashedKey key).i1 hp) ((P.hashedKey key).i2 hp)) := by
  refine ⟨BQueue.start_ok _ _, fun _ => False, nofun, LevelOrder.start fun x hx => ?_⟩
  rcases List.mem_pair.mp hx with rfl | rfl
  · rfl
  · rfl

/-- **A search that has failed has been everywhere.** -/
theorem Searching.crowded {q : BQueue} (h : Searching P T hp key q) (hT : Placed P hp T)
    (hq : q.pending = []) : Crowded P T hp key := by
  obtain ⟨seen, hfull, horder⟩ := h.order
  intro n hn b hb
  obtain ⟨x, hx, rfl⟩ := hb.exists_node hT hn
  rw [hq] at horder
  exact hfull x (horder.everywhere hx)

/-- **What a search finds**: an empty slot, as near as there is one. -/
structure FoundSlot (P : Params K) (T : Cells (Nat × Nat) (Entry K V)) (hp : Nat) (key : K)
    (x : BSlot) (s : Nat) : Prop where
  node : SearchTree P T hp key x.depth x
  lt : s < slotPerBucket
  empty : T (x.bucket, s) = none
  /-- All that is fewer moves away is full. -/
  nearest : ∀ n < x.depth, ∀ b, Within P T hp key n b → Full T b

/-- An empty slot in the bucket at the head of the queue, before which all nearer ones were. -/
theorem Searching.found {q : BQueue} {pending : List BSlot} (h : Searching P T hp key q)
    (hT : Placed P hp T) (hq : q.pending = x :: pending) (hs : s < slotPerBucket)
    (hempty : T (x.bucket, s) = none) : FoundSlot P T hp key x s := by
  obtain ⟨seen, hfull, horder⟩ := h.order
  rw [hq] at horder
  have hnode := horder.inTree x List.mem_cons_self
  refine ⟨hnode, hs, hempty, fun n hn b hb => ?_⟩
  have hdepth := (SearchTree.node hT hnode).ok.1
  obtain ⟨y, hy, rfl⟩ := hb.exists_node hT (by omega)
  exact hfull y (horder.above (fun n y hy => (SearchTree.node hT hy).depth) hy hn)

/-- **A full bucket** is put behind the search. -/
theorem Searching.next {q : BQueue} {pending : List BSlot} (h : Searching P T hp key q)
    (hq : q.pending = x :: pending) (hfull : Full T x.bucket)
    (hok : BQueue.Ok ⟨pending ++ x.children T hp, q.last + (x.children T hp).length⟩) :
    Searching P T hp key ⟨pending ++ x.children T hp, q.last + (x.children T hp).length⟩ := by
  obtain ⟨seen, hseen, horder⟩ := h.order
  rw [hq] at horder
  refine ⟨hok, _, fun y hy => ?_, horder.step fun y hy => ?_⟩
  · rcases hy with hy | rfl
    · exact hseen y hy
    · exact hfull
  · obtain ⟨-, s, -, e, -, rfl⟩ := BSlot.mem_children.mp hy
    rfl

/-- The buckets that are waiting, and those that can still come. -/
def BQueue.load (q : BQueue) : Nat := q.pending.length + q.ahead

/-- The bucket at the head of the queue is looked through with room for all that is below it. -/
theorem BQueue.Ok.scan {q : BQueue} {pending : List BSlot} (h : q.Ok) (hp : Nat)
    (b : BucketContainer K V) (hq : q.pending = x :: pending) :
    Scanned x (scanSlots hp b x (List.range slotPerBucket) { q with pending := pending }) := by
  refine scanSlots_ok (h.slots x (by rw [hq]; exact List.mem_cons_self)) _ (fun y hy => ?_) ?_
  · exact h.slots y (by rw [hq]; exact List.mem_cons_of_mem _ hy)
  · have hroom := h.room
    simp only [BQueue.ahead, hq, List.map_cons, List.sum_cons] at hroom
    rw [below_eq] at hroom
    simp only [BQueue.ahead, List.length_range]
    omega

/-- Every round leaves one bucket less. -/
theorem BQueue.load_children {q : BQueue} {pending : List BSlot}
    (hq : q.pending = x :: pending) (n : Nat) :
    BQueue.load ⟨pending ++ x.children T hp, n⟩ < q.load := by
  have hlen : (x.children T hp).length ≤ slotPerBucket := by
    rw [BSlot.children, BSlot.kids]
    split
    · exact Nat.le_trans (List.length_filterMap_le _ _) (by rw [List.length_range])
    · exact Nat.zero_le _
  have hmap : (x.children T hp).map (fun y => below (maxBfsPathLen - 1 - y.depth)) =
      List.replicate (x.children T hp).length (below (maxBfsPathLen - 1 - (x.depth + 1))) := by
    refine List.eq_replicate_iff.mpr ⟨List.length_map _, fun n hn => ?_⟩
    obtain ⟨y, hy, rfl⟩ := List.mem_map.mp hn
    obtain ⟨-, s, -, e, -, rfl⟩ := BSlot.mem_children.mp hy
    rfl
  -- the children with all that is below them are within what was counted for `x`
  have hper : (x.children T hp).length * (1 + below (maxBfsPathLen - 1 - (x.depth + 1))) ≤
      below (maxBfsPathLen - 1 - x.depth) := by
    rw [below_eq x.depth, perSlot]
    split
    · exact Nat.mul_le_mul_right _ hlen
    next hdepth =>
      rw [BSlot.children, BSlot.kids, if_neg hdepth]
      simp
  rw [Nat.mul_add, Nat.mul_one] at hper
  simp only [BQueue.load, BQueue.ahead, hq, List.map_cons, List.sum_cons, List.length_cons,
    List.map_append, List.sum_append, List.length_append, hmap, List.sum_replicate_nat]
  omega

/-- The map as a thread finds it that nobody has disturbed since `m`. -/
structure Same (P : Params K) (A : K → Option V) (m m' : CuckooMap K V) : Prop where
  ok : m'.Ok P A
  rehashed : CuckooMap.Rehashed P m m'

theorem CuckooMap.Locked.same {inds : List Nat} (h : CuckooMap.Locked P A m hp inds m') :
    Same P A m m' := ⟨h.ok, h.rehashed⟩

theorem Same.trans {m'' : CuckooMap K V} (h : Same P A m m') (h' : Same P A m' m'') :
    Same P A m m'' := ⟨h'.ok, h.rehashed.trans h'.rehashed⟩

variable [DecidableEq K] {c : Call K V}

/-- Where `cuckoopath_search` begins, with the slot `s` found empty. -/
def traceStart (P : Params K) (hp : Nat) (key : K) (x : BSlot) (s : Nat) : Place :=
  let (slot, rest, code) := pathSlots x.depth (uint16 (x.pathcode * slotPerBucket + s)) []
  .tracing hp [] (firstBucket P hp key code) slot rest

omit [DecidableEq K] in
/-- With nobody changing the hashpower a lock is always got. -/
theorem CuckooMap.Ok.lockOne_some (h : m.Ok P A) (hhp : m.hashpower = hp) (i : Nat) :
    ∃ m', m.lockOne P hp i = some m' ∧ CuckooMap.Locked P A m hp [i] m' := by
  have heq : m.lockOne P hp i = some (m.rehashLock P true (P.lockInd i)) :=
    if_neg (not_not_intro hhp)
  exact ⟨_, heq, h.lockOne heq⟩

/-- **The rounds of a search** that nobody disturbs, with what each of them keeps. -/
theorem search_leads {J : BQueue → Prop} (hT : m.settled P = T) (hok : ∀ q, J q → q.Ok)
    (hnext : ∀ q x pending, J q → q.pending = x :: pending → Full T x.bucket →
      BQueue.Ok ⟨pending ++ x.children T hp, q.last + (x.children T hp).length⟩ →
      J ⟨pending ++ x.children T hp, q.last + (x.children T hp).length⟩)
    (h : m.Ok P A) (hhp : m.hashpower = hp) {q : BQueue} (hq : J q) :
    ∃ m' q', J q' ∧ Same P A m m' ∧
      ((q'.pending = [] ∧ Leads (Call.step P) c (m, .searching hp q) (m', .doubling hp)) ∨
        ∃ x pending s, q'.pending = x :: pending ∧ s < slotPerBucket ∧ T (x.bucket, s) = none ∧
          Leads (Call.step P) c (m, .searching hp q) (m', traceStart P hp c.key x s)) := by
  obtain ⟨n, hn⟩ : ∃ n, q.load = n := ⟨_, rfl⟩
  induction n using Nat.strong_induction_on generalizing m q with
  | h n ih =>
      match hpending : q.pending with
      | [] =>
        refine ⟨m, q, hq, ⟨h, .refl m⟩, .inl ⟨hpending, .single ?_⟩⟩
        rw [Call.step, Call.searchStep, hpending]
      | x :: pending =>
        obtain ⟨m', hlock, hlocked⟩ := h.lockOne_some hhp x.bucket
        have hslots : ∀ s, m'.buckets.slots (x.bucket, s) = T (x.bucket, s) := fun s => by
          rw [hlocked.slots (List.mem_singleton_self _), hT]
        have hscanned := (hok q hq).scan hp m'.buckets hpending
        rcases scanSlots_cases hp m'.buckets x (List.range slotPerBucket)
          { q with pending := pending } with ⟨s, hs, hempty, hscan⟩ | ⟨hall, hscan⟩
        · refine ⟨m', q, hq, hlocked.same, .inr ⟨x, pending, s, hpending, hs, ?_, .single ?_⟩⟩
          · rw [← hslots, hempty]
          · rw [Call.step, Call.searchStep, hpending]
            simp only [hlock, hscan]
            rfl
        · have hfull : Full T x.bucket := fun s hs => by
            obtain ⟨i, hi, rfl⟩ := x.exists_slotAt hs
            rw [← hslots]
            exact hall i hi
          have hkids : x.kids m'.buckets.slots hp (List.range slotPerBucket) = x.children T hp := by
            rw [BSlot.children, BSlot.kids, BSlot.kids]
            simp only [hslots]
          rw [hkids] at hscan
          rw [hscan] at hscanned
          obtain ⟨m'', q', hq', hsame, hlead⟩ := ih _ (hn ▸ BQueue.load_children hpending _)
            (hlocked.rehashed.settled.trans hT) hlocked.ok hlocked.hashpower
            (hnext q x pending hq hpending hfull hscanned) rfl
          have hstep : c.step P m (.searching hp q) = (.at (.searching hp
              ⟨pending ++ x.children T hp, q.last + (x.children T hp).length⟩), m') := by
            rw [Call.step, Call.searchStep, hpending]
            simp only [hlock, hscan]
          refine ⟨m'', q', hq', hlocked.same.trans hsame, ?_⟩
          rcases hlead with ⟨hnil, hlead⟩ | ⟨y, pending', s, hcons, hs, hempty, hlead⟩
          · exact .inl ⟨hnil, .head hstep hlead⟩
          · exact .inr ⟨y, pending', s, hcons, hs, hempty, .head hstep hlead⟩

/-- **A fresh search**, undisturbed, finds the nearest empty slot, or everything is full. -/
theorem fresh_search (h : m.Ok P A) (hhp : m.hashpower = hp) :
    ∃ m', Same P A m m' ∧
      ((Crowded P (m.settled P) hp c.key ∧ Leads (Call.step P) c
          (m, .searching hp (.start ((c.hv P).i1 hp) ((c.hv P).i2 hp))) (m', .doubling hp)) ∨
        ∃ x s, FoundSlot P (m.settled P) hp c.key x s ∧ Leads (Call.step P) c
          (m, .searching hp (.start ((c.hv P).i1 hp) ((c.hv P).i2 hp)))
          (m', traceStart P hp c.key x s)) := by
  have hplaced : Placed P hp (m.settled P) := hhp ▸ h.placed
  obtain ⟨m', q, hq, hsame, hlead⟩ := search_leads (c := c) rfl
    (fun q (hq : Searching P (m.settled P) hp c.key q) => hq.ok)
    (fun _ _ _ hq hpending hfull hok => hq.next hpending hfull hok) h hhp Searching.start
  refine ⟨m', hsame, hlead.imp ?_ ?_⟩
  · rintro ⟨hnil, hlead⟩
    exact ⟨hq.crowded hplaced hnil, hlead⟩
  · rintro ⟨x, pending, s, hcons, hs, hempty, hlead⟩
    exact ⟨x, s, hq.found hplaced hcons hs hempty, hlead⟩

/-! ### The path that is read off -/

omit [DecidableEq K] in
theorem Route.slot_lt (h : Route P T hp b path b') {r : CuckooRecord} (hr : r ∈ path) :
    r.slot < slotPerBucket := by
  induction path generalizing b with
  | nil => cases hr
  | cons r' path ih =>
      obtain ⟨-, hs, -, hrest⟩ := h
      rcases List.mem_cons.mp hr with rfl | hr
      · exact hs
      · exact ih hrest hr

/-- The slots of a path, read off its code. -/
theorem pathSlots_codeOf (first : Nat) (path : List CuckooRecord) (s : Nat) (rest : List Nat)
    (hpath : ∀ r ∈ path, r.slot < slotPerBucket) (hs : s < slotPerBucket) :
    ∃ slot rest', pathSlots path.length (codeOf first path * slotPerBucket + s) rest =
      (slot, rest', first) ∧ slot :: rest' = path.map CuckooRecord.slot ++ s :: rest := by
  have hmod : ∀ code s, s < slotPerBucket → (code * slotPerBucket + s) % slotPerBucket = s := by
    intro code s hs
    rw [Nat.mul_add_mod_self_right, Nat.mod_eq_of_lt hs]
  have hdiv : ∀ code s, s < slotPerBucket → (code * slotPerBucket + s) / slotPerBucket = code := by
    intro code s hs
    rw [Nat.mul_comm, Nat.mul_add_div (by decide), Nat.div_eq_of_lt hs, Nat.add_zero]
  induction path using List.reverseRecOn generalizing s rest with
  | nil =>
      refine ⟨s, rest, ?_, rfl⟩
      rw [List.length_nil, pathSlots, codeOf, List.foldl_nil, hmod _ _ hs, hdiv _ _ hs]
  | append_singleton path r ih =>
      have hr := hpath r (by simp)
      have hcode : codeOf first (path ++ [r]) = codeOf first path * slotPerBucket + r.slot := by
        rw [codeOf, List.foldl_append]
        rfl
      obtain ⟨slot, rest', hslots, heq⟩ := ih r.slot (s :: rest)
        (fun r' hr' => hpath r' (List.mem_append_left _ hr')) hr
      refine ⟨slot, rest', ?_, ?_⟩
      · rw [List.length_append, List.length_singleton, pathSlots, hmod _ _ hs, hdiv _ _ hs, hcode,
          hslots]
      · rw [heq, List.map_append, List.append_assoc]
        rfl

/-- **The path is traced** to its end, if nobody disturbs it. -/
theorem trace_leads (hT : m.settled P = T) (h : m.Ok P A) (hhp : m.hashpower = hp)
    (hroute : Route P T hp b path b') (hempty : T (b', s) = none) (done : List CuckooRecord)
    {slot : Nat} {rest : List Nat} (hslots : slot :: rest = path.map CuckooRecord.slot ++ [s]) :
    ∃ m', Same P A m m' ∧ Leads (Call.step P) c (m, .tracing hp done b slot rest)
      (m', .moving hp (path.reverse ++ done) b' s) := by
  induction path generalizing m b done slot rest with
  | nil =>
      obtain ⟨rfl, rfl⟩ := List.cons.inj hslots
      obtain rfl : b = b' := hroute
      obtain ⟨m', hlock, hlocked⟩ := h.lockOne_some hhp b
      have hnone : m'.buckets.slots (b, slot) = none := by
        rw [hlocked.slots (List.mem_singleton_self _), hT, hempty]
      refine ⟨m', hlocked.same, .single ?_⟩
      rw [Call.step, traceStep]
      simp only [hlock, hnone]
      rfl
  | cons r path ih =>
      rw [List.map_cons, List.cons_append] at hslots
      obtain ⟨hslot, hrest⟩ := List.cons.inj hslots
      obtain ⟨hbucket, hs, ⟨e, he, hhv⟩, hroute⟩ := hroute
      obtain ⟨m', hlock, hlocked⟩ := h.lockOne_some hhp b
      have hsome : m'.buckets.slots (b, slot) = some e := by
        rw [hlocked.slots (List.mem_singleton_self _), hT, hslot, he]
      obtain ⟨slot', rest', hcons⟩ : ∃ slot' rest', path.map CuckooRecord.slot ++ [s] =
          slot' :: rest' := List.exists_cons_of_ne_nil (by simp)
      rw [hcons] at hrest
      obtain ⟨m'', hsame, hlead⟩ := ih (hlocked.rehashed.settled.trans hT) hlocked.ok
        hlocked.hashpower hroute (r :: done) hcons.symm
      refine ⟨m'', hlocked.same.trans hsame, Leads.head
        (b := (m', .tracing hp (r :: done) (altIndex hp r.hv.partialKey b) slot' rest')) ?_ ?_⟩
      · rw [Call.step, traceStep, hrest]
        simp only [hlock, hsome]
        rw [← hhv, hslot, ← hbucket]
      · rw [List.reverse_cons, List.append_assoc]
        exact hlead

end Libcuckoo
