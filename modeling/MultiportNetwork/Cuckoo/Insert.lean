import MultiportNetwork.Cuckoo.Expand
import MultiportNetwork.Cuckoo.Entries
import MultiportNetwork.Lib.Atomic

/-!
# MultiportNetwork.Cuckoo.Insert

The operations of `cuckoohash_map`, as the threads that call them go through them. What a
thread does between taking locks and releasing them is one step; before it takes the next
ones, other threads may do anything. `cuckoo_insert` releases its locks to look for a cuckoo
path (`slot_search`, `cuckoopath_search`), and carries entries along the path from its end,
two buckets locked at a time (`cuckoopath_move`).
-/

namespace Libcuckoo

/-! ### Searching for a path -/

/-- `b_slot`. -/
structure BSlot where
  bucket : Nat
  pathcode : Nat
  depth : Nat
  deriving Repr, DecidableEq

/-- `b_queue`: what is between `first_` and `last_`, and `last_`. -/
structure BQueue where
  pending : List BSlot
  last : Nat
  deriving Repr, DecidableEq

/-- `MAX_CUCKOO_COUNT`. -/
def maxCuckooCount : Nat := 2 * ((slotPerBucket ^ maxBfsPathLen - 1) / (slotPerBucket - 1))

/-- `enqueue`. -/
def BQueue.enqueue (q : BQueue) (x : BSlot) : BQueue := ⟨q.pending ++ [x], q.last + 1⟩

/-- A `uint16_t`. -/
def uint16 (n : Nat) : Nat := n % 2 ^ 16

/-- The queue `slot_search` starts with. -/
def BQueue.start (i1 i2 : Nat) : BQueue :=
  ((⟨[], 0⟩ : BQueue).enqueue ⟨i1, 0, 0⟩).enqueue ⟨i2, 1, 0⟩

/-- `slot_search`, the loop over the slots of a locked bucket: it has found an empty slot, or
enqueued the buckets its entries could go to. -/
def scanSlots {K V : Type} (hp : Nat) (b : BucketContainer K V) (x : BSlot) :
    List Nat → BQueue → BSlot ⊕ BQueue
  | [], q => .inr q
  | i :: is, q =>
    let startingSlot := x.pathcode % slotPerBucket
    let slot := (startingSlot + i) % slotPerBucket
    match b.slots (x.bucket, slot) with
    | none => .inl { x with pathcode := uint16 (x.pathcode * slotPerBucket + slot) }
    | some e =>
      if x.depth < maxBfsPathLen - 1 then
        scanSlots hp b x is (q.enqueue ⟨altIndex hp e.partialKey x.bucket,
          uint16 (x.pathcode * slotPerBucket + slot), x.depth + 1⟩)
      else scanSlots hp b x is q

/-- `cuckoopath_search`, the loop that fills in the slots, from index `depth` down: the first
slot, those behind it, and the path code that is left. -/
def pathSlots : Nat → Nat → List Nat → Nat × List Nat × Nat
  | 0, code, rest => (code % slotPerBucket, rest, code / slotPerBucket)
  | depth + 1, code, rest =>
    pathSlots depth (code / slotPerBucket) (code % slotPerBucket :: rest)

/-- `CuckooRecord`. -/
structure CuckooRecord where
  bucket : Nat
  slot : Nat
  hv : HashValue
  deriving Repr, DecidableEq

/-! ### Calls -/

/-- A call of an operation on `key`: the functor for a value that is found, which says whether
to erase it too, and the value to insert if none is found. -/
structure Call (K V : Type) where
  key : K
  fn : V → V × Bool
  insert : Option V

section
variable {K V : Type}

/-- `find_fn` with a functor that copies the value; also `find` and `contains`. -/
def Call.findFn (key : K) : Call K V := ⟨key, fun v => (v, false), none⟩

/-- `update_fn`. -/
def Call.updateFn (key : K) (fn : V → V) : Call K V := ⟨key, fun v => (fn v, false), none⟩

/-- `erase_fn`. -/
def Call.eraseFn (key : K) (fn : V → V × Bool) : Call K V := ⟨key, fn, none⟩

/-- `uprase_fn`. -/
def Call.upraseFn (key : K) (fn : V → V × Bool) (val : V) : Call K V := ⟨key, fn, some val⟩

/-- `upsert`. -/
def Call.upsert (key : K) (fn : V → V) (val : V) : Call K V :=
  .upraseFn key (fun v => (fn v, false)) val

/-- `insert_or_assign`. -/
def Call.insertOrAssign (key : K) (val : V) : Call K V := .upsert key (fun _ => val) val

/-- `erase`. -/
def Call.erase (key : K) : Call K V := .eraseFn key fun v => (v, true)

/-- Where a thread is in a call. -/
inductive Place
  /-- In `snapshot_and_lock_two`, before it reads the hashpower. -/
  | snapshot
  /-- In `snapshot_and_lock_two`, about to lock. -/
  | locking (hp : Nat)
  /-- In `slot_search`. -/
  | searching (hp : Nat) (q : BQueue)
  /-- In `cuckoopath_search`, about to look at a slot. The path so far is reversed. -/
  | tracing (hp : Nat) (path : List CuckooRecord) (bucket slot : Nat) (rest : List Nat)
  /-- In `cuckoopath_move`. The last entry of the path is to go to a slot, the path is
  reversed. -/
  | moving (hp : Nat) (path : List CuckooRecord) (bucket slot : Nat)
  /-- In `cuckoo_insert_loop`, about to expand. -/
  | doubling (hp : Nat)
  deriving Repr, DecidableEq

/-- What a thread comes to by a step; a call returns the value `fn` has been called on. -/
abbrev Next (V : Type) := Outcome Place (Option V) ResizeError

variable [DecidableEq K] (P : Params K) (c : Call K V)

/-- The hash value of the call's key. -/
def Call.hv : HashValue := P.hashedKey c.key

/-- `cuckoo_find` for the call's key. -/
def Call.find (hp : Nat) (m : CuckooMap K V) : Option (Nat × Nat) :=
  m.buckets.cuckooFind c.key (c.hv P).partialKey ((c.hv P).i1 hp) ((c.hv P).i2 hp)

/-- `fn` is called on the value at a position, which is erased if it says so. -/
def Call.apply (m : CuckooMap K V) (ind slot : Nat) : Next V × CuckooMap K V :=
  match m.buckets.slots (ind, slot) with
  | none => (.returned none, m)
  | some e =>
    let (v, del) := c.fn e.mapped
    let m := m.setMapped ind slot e v
    (.returned (some e.mapped), if del then m.delFromBucket P ind slot else m)

/-- `find_fn`, `update_fn` and `erase_fn`, once the buckets are locked. -/
def Call.lookUp (hp : Nat) (m : CuckooMap K V) : Next V × CuckooMap K V :=
  match c.find P hp m with
  | some (ind, slot) => c.apply P m ind slot
  | none => (.returned none, m)

/-- `uprase_fn`, once `cuckoo_insert_loop` has returned `ok`. -/
def Call.add (m : CuckooMap K V) (ind slot : Nat) (val : V) : Next V × CuckooMap K V :=
  (.returned none, m.addToBucket P ind slot ⟨(c.hv P).partialKey, c.key, val⟩)

/-- `slot_search` is begun. -/
def Call.search (hp : Nat) : Next V :=
  .at (.searching hp (.start ((c.hv P).i1 hp) ((c.hv P).i2 hp)))

/-- `cuckoo_insert` up to `run_cuckoo`. -/
def Call.cuckooInsert (hp : Nat) (m : CuckooMap K V) (val : V) : Next V × CuckooMap K V :=
  let i1 := (c.hv P).i1 hp
  let i2 := (c.hv P).i2 hp
  match m.buckets.tryFindInsertBucket i1 (c.hv P).partialKey c.key with
  | (false, res1) => c.apply P m i1 (res1.getD 0)
  | (true, res1) =>
    match m.buckets.tryFindInsertBucket i2 (c.hv P).partialKey c.key with
    | (false, res2) => c.apply P m i2 (res2.getD 0)
    | (true, res2) =>
      match res1, res2 with
      | some slot, _ => c.add P m i1 slot val
      | none, some slot => c.add P m i2 slot val
      | none, none => (c.search P m.hashpower, m)

/-- `cuckoo_insert` behind `run_cuckoo`, which has freed a slot and holds the locks. -/
def Call.conclude (hp : Nat) (m : CuckooMap K V) (insertBucket insertSlot : Nat) (val : V) :
    Next V × CuckooMap K V :=
  match c.find P hp m with
  | some (ind, slot) => c.apply P m ind slot
  | none => c.add P m insertBucket insertSlot val

/-- `slot_search`, a round of its loop. -/
def Call.searchStep (m : CuckooMap K V) (hp : Nat) (q : BQueue) : Next V × CuckooMap K V :=
  match q.pending with
  | [] => (.at (.doubling hp), m)
  | x :: pending =>
    match m.lockOne P hp x.bucket with
    | none => (.at .snapshot, m)
    | some m =>
      match scanSlots hp m.buckets x (List.range slotPerBucket) { q with pending := pending } with
      | .inr q => (.at (.searching hp q), m)
      | .inl x =>
        let (slot, rest, code) := pathSlots x.depth x.pathcode []
        let first := if code = 0 then (c.hv P).i1 hp else (c.hv P).i2 hp
        (.at (.tracing hp [] first slot rest), m)

/-- `cuckoopath_search`, one bucket of the path. -/
def traceStep (m : CuckooMap K V) (hp : Nat) (path : List CuckooRecord) (bucket slot : Nat)
    (rest : List Nat) : Next V × CuckooMap K V :=
  match m.lockOne P hp bucket with
  | none => (.at .snapshot, m)
  | some m =>
    match m.buckets.slots (bucket, slot), rest with
    | none, _ | _, [] => (.at (.moving hp path bucket slot), m)
    | some e, slot' :: rest =>
      let hv := P.hashedKey e.key
      (.at (.tracing hp (⟨bucket, slot, hv⟩ :: path) (altIndex hp hv.partialKey bucket) slot'
        rest), m)

/-- `cuckoopath_move`, one swap; at the end the insertion, under the locks held. -/
def Call.moveStep (m : CuckooMap K V) (hp : Nat) (path : List CuckooRecord) (bucket slot : Nat)
    (val : V) : Next V × CuckooMap K V :=
  let i1 := (c.hv P).i1 hp
  let i2 := (c.hv P).i2 hp
  match path with
  | [] =>
    match m.lockTwo P hp i1 i2 with
    | none => (.at .snapshot, m)
    | some m =>
      if (m.buckets.slots (bucket, slot)).isNone then c.conclude P hp m bucket slot val
      else (c.search P hp, m)
  | [last] =>
    match m.lockThree P hp i1 i2 bucket with
    | none => (.at .snapshot, m)
    | some m =>
      match m.moveEntry P last.bucket last.slot last.hv.hash bucket slot with
      | none => (c.search P hp, m)
      | some m => c.conclude P hp m last.bucket last.slot val
  | last :: path =>
    match m.lockTwo P hp last.bucket bucket with
    | none => (.at .snapshot, m)
    | some m =>
      match m.moveEntry P last.bucket last.slot last.hv.hash bucket slot with
      | none => (c.search P hp, m)
      | some m => (.at (.moving hp path last.bucket last.slot), m)

/-- `cuckoo_fast_double`. -/
def doubleStep (m : CuckooMap K V) (hp : Nat) : Next V × CuckooMap K V :=
  match m.cuckooFastDouble P hp with
  | .error e => (.threw e, m)
  | .ok (_, m) => (.at .snapshot, m)

/-- What a thread does next. -/
def Call.step (m : CuckooMap K V) : Place → Next V × CuckooMap K V
  | .snapshot => (.at (.locking m.hashpower), m)
  | .locking hp =>
    match m.lockTwo P hp ((c.hv P).i1 hp) ((c.hv P).i2 hp) with
    | none => (.at .snapshot, m)
    | some m =>
      match c.insert with
      | none => c.lookUp P hp m
      | some val => c.cuckooInsert P hp m val
  | .searching hp q => c.searchStep P m hp q
  | .tracing hp path bucket slot rest => traceStep P m hp path bucket slot rest
  | .moving hp path bucket slot =>
    match c.insert with
    | none => (.at .snapshot, m) -- only `cuckoo_insert` gets here
    | some val => c.moveStep P m hp path bucket slot val
  | .doubling hp => doubleStep P m hp

end

end Libcuckoo
