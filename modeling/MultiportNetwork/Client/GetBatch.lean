import MultiportNetwork.Client.Package
import MultiportNetwork.Lib.Builder
import Mathlib.Data.List.Forall2
import Mathlib.Logic.Function.Basic

/-!
# MultiportNetwork.Client.GetBatch

`con_database` of `get_batch`: how the batches of GETs are built before the test starts.

Every port has a `BATCH_OBJ` with the head of a batch in its buffer. A number's key goes
to the port its hash says, behind the GETs that are already there; the object that has
`BATCH_NUM` of them moves to the port's database, and a new one takes its place. What is
in the objects at the end is thrown away.

A copy is checked here against the `datalen` of the buffer it goes to, which the source
does not do: that the check never fails is part of `con_database_builds`.
-/

namespace MultiportNetwork.GetBatch

open Client

/-- `PACKAGE_LEN`. -/
def packageLen : Nat := headLen + keyLen

/-- What the run is set up with: `port_num`, `BATCH_NUM` and `hash_func`. -/
structure Settings where
  portNum : Nat
  batchNum : Nat
  hashFunc : Bytes → UInt32

/-- `BATCH_OBJ`. -/
structure BatchObj where
  buf : Memory UInt8
  offset : Nat
  datalen : Nat
  num : UInt16

/-- A write beyond the end of `key_buf`, or of the buffer of a `BATCH_OBJ`. -/
inductive Overrun
  | keyBuf | batchBuf
  deriving Repr, DecidableEq

/-- A copy to `buf + offset`. -/
def BatchObj.memcpy (obj : BatchObj) (bytes : Bytes) : Except Overrun BatchObj :=
  if obj.offset + bytes.length ≤ obj.datalen then
    .ok { obj with buf := obj.buf.store obj.offset bytes }
  else .error .batchBuf

/-- The `REQ_HEAD` of a batch, in host order. -/
def Settings.head (S : Settings) (port : UInt8) : Packet where
  header :=
    { magic := 0x80
      opcode := 0x03
      keylen := UInt16.ofNat keyLen
      batchnum := UInt16.ofNat S.batchNum
      prehash := port
      reserved := 0
      totalbodylen := UInt32.ofNat keyLen }
  body := []

/-- What `packege_buf` holds: the `REQ_HEAD` of a GET and its key. -/
def package (key : Bytes) (port : UInt8) (num : UInt16) : Packet where
  header :=
    { magic := 0x80
      opcode := 0x01
      keylen := UInt16.ofNat keyLen
      batchnum := num
      prehash := port
      reserved := 0
      totalbodylen := UInt32.ofNat keyLen }
  body := key

/-- A `BATCH_OBJ` with a `calloc`ed buffer and the head of a batch in it. -/
def Settings.newObj (S : Settings) (port : UInt8) : Except Overrun BatchObj := do
  let obj : BatchObj := ⟨fun _ => 0, 0, headLen + S.batchNum * packageLen, 0⟩
  let obj ← obj.memcpy (S.head port).bytes
  return { obj with offset := obj.offset + headLen }

/-- `batchObjList` and `database`, by port. -/
structure Building where
  batchObjList : Nat → BatchObj
  database : Nat → List BatchObj

/-- `key_buf`. The letters end at `VALUE_LEN`. -/
def keyBuf (number : UInt64) : Option Bytes := decimal valueLen (number / 26) (letter number)

/-- The body of the loop over the numbers. -/
def Settings.addNumber (S : Settings) (b : Building) (number : UInt64) :
    Except Overrun Building :=
  match keyBuf number with
  | none => .error .keyBuf
  | some key => do
    let port := preHash S.hashFunc S.portNum key
    let batchobj := b.batchObjList port.toNat
    if S.batchNum - 1 ≤ batchobj.num.toNat then
      let obj ← batchobj.memcpy (package key port batchobj.num).bytes
      let obj := { obj with num := obj.num + 1, offset := obj.offset + packageLen }
      let database := b.database port.toNat ++ [{ obj with offset := 0 }]
      let obj ← S.newObj port
      return ⟨Function.update b.batchObjList port.toNat obj,
        Function.update b.database port.toNat database⟩
    else
      let obj ← batchobj.memcpy (package key port batchobj.num).bytes
      let obj := { obj with num := obj.num + 1, offset := obj.offset + packageLen }
      return { b with batchObjList := Function.update b.batchObjList port.toNat obj }

/-- The objects the loop starts with. -/
def Settings.newList (S : Settings) : Except Overrun (Nat → BatchObj) :=
  (List.range S.portNum).foldlM (fun list i => do
    return Function.update list i (← S.newObj (UInt8.ofNat i))) fun _ => ⟨fun _ => 0, 0, 0, 0⟩

/-- `total_discarded_num`. -/
def Settings.discarded (S : Settings) (b : Building) : Nat :=
  ((List.range S.portNum).map fun i => (b.batchObjList i).num.toNat).sum

/-- `con_database`, given the numbers of `array`: the database it leaves and what it says
it has discarded. -/
def Settings.conDatabase (S : Settings) (array : List UInt64) :
    Except Overrun (Building × Nat) := do
  let list ← S.newList
  let b ← array.foldlM S.addNumber ⟨list, fun _ => []⟩
  return (b, S.discarded b)

/-! ### What a batch should hold -/

variable {S : Settings} {port : UInt8} {key : Bytes} {keys : List Bytes} {obj : BatchObj}
  {number : UInt64} {array done : List UInt64} {b b' : Building} {p : Nat}

/-- The GETs of some keys, numbered from 0. -/
def packages (port : UInt8) (keys : List Bytes) : List Packet :=
  keys.mapIdx fun i key => package key port (UInt16.ofNat i)

/-- A head and the GETs of some keys. -/
def Settings.batch (S : Settings) (port : UInt8) (keys : List Bytes) : Bytes :=
  (S.head port).bytes ++ (packages port keys).flatMap Packet.bytes

/-- The keys of the numbers that are hashed to a port, in order. -/
def Settings.keysAt (S : Settings) (p : Nat) (array : List UInt64) : List Bytes :=
  (array.filterMap keyBuf).filter fun key =>
    (preHash S.hashFunc S.portNum key).toNat = p

@[simp] theorem length_packages (port : UInt8) (keys : List Bytes) :
    (packages port keys).length = keys.length := by
  simp [packages]

theorem packages_concat (port : UInt8) (keys : List Bytes) (key : Bytes) :
    packages port (keys ++ [key]) =
      packages port keys ++ [package key port (UInt16.ofNat keys.length)] := by
  simp [packages, List.mapIdx_concat]

theorem Settings.batch_concat (S : Settings) (port : UInt8) (keys : List Bytes) (key : Bytes) :
    S.batch port (keys ++ [key]) =
      S.batch port keys ++ (package key port (UInt16.ofNat keys.length)).bytes := by
  simp [Settings.batch, packages_concat]

theorem length_keyBuf (h : keyBuf number = some key) : key.length = keyLen := length_decimal h

theorem length_package (h : key.length = keyLen) (port : UInt8) (num : UInt16) :
    (package key port num).bytes.length = packageLen := by
  simp [Packet.bytes, package, h, packageLen, headLen, headerSize]

/-! ### An object while it is filled -/

/-- An object with the head and the GETs of some keys in it. -/
structure BatchObj.Holds (S : Settings) (port : UInt8) (keys : List Bytes) (obj : BatchObj) :
    Prop where
  num : obj.num.toNat = keys.length
  datalen : obj.datalen = headLen + S.batchNum * packageLen
  offset : obj.offset = headLen + keys.length * packageLen
  buf : obj.buf.load 0 obj.offset = S.batch port keys

/-- An object all of whose bytes are written, ready to be sent. -/
structure BatchObj.Complete (S : Settings) (port : UInt8) (keys : List Bytes) (obj : BatchObj) :
    Prop where
  datalen : obj.datalen = headLen + S.batchNum * packageLen
  offset : obj.offset = 0
  buf : obj.buf.load 0 obj.datalen = S.batch port keys

theorem Settings.newObj_ok (S : Settings) (port : UInt8) :
    ∃ obj, S.newObj port = .ok obj ∧ obj.Holds S port [] := by
  have hlen : (S.head port).bytes.length = headLen := by
    simp [Packet.bytes, Settings.head, headLen, headerSize]
  have hcopy : 0 + (S.head port).bytes.length ≤ headLen + S.batchNum * packageLen := by omega
  have hload := Memory.load_store_self (fun _ => 0) 0 (S.head port).bytes
  rw [hlen] at hload
  refine ⟨_, by rw [Settings.newObj, BatchObj.memcpy, if_pos hcopy]; rfl, rfl, rfl, ?_, ?_⟩
  · simp
  · simpa [Settings.batch, packages] using hload

/-- An object that has got one more GET. -/
def BatchObj.put (obj : BatchObj) (bytes : Bytes) : BatchObj :=
  { obj with
    buf := obj.buf.store obj.offset bytes
    num := obj.num + 1
    offset := obj.offset + packageLen }

/-- One more GET fits as long as there are fewer than `BATCH_NUM`. -/
theorem BatchObj.Holds.memcpy (h : obj.Holds S port keys) (hkey : key.length = keyLen)
    (hlt : keys.length < S.batchNum) :
    obj.memcpy (package key port obj.num).bytes =
      .ok { obj with buf := obj.buf.store obj.offset (package key port obj.num).bytes } := by
  have hle : (keys.length + 1) * packageLen ≤ S.batchNum * packageLen :=
    Nat.mul_le_mul_right packageLen hlt
  rw [Nat.add_mul, Nat.one_mul] at hle
  refine if_pos ?_
  rw [h.offset, h.datalen, length_package hkey]
  omega

/-- What is then in the buffer. -/
theorem BatchObj.Holds.load (h : obj.Holds S port keys) (hkey : key.length = keyLen) :
    (obj.buf.store obj.offset (package key port obj.num).bytes).load 0
        (obj.offset + packageLen) = S.batch port (keys ++ [key]) := by
  have hstore := Memory.load_store_append obj.buf 0 obj.offset (package key port obj.num).bytes
  have hnum : obj.num = UInt16.ofNat keys.length := by
    rw [← h.num]
    simp
  rw [length_package hkey, Nat.zero_add, h.buf] at hstore
  rw [hstore, S.batch_concat, hnum]

/-- An object with room for more. -/
theorem BatchObj.Holds.add (h : obj.Holds S port keys) (hkey : key.length = keyLen)
    (hlt : keys.length + 1 < S.batchNum) (hmax : S.batchNum ≤ 65535) :
    (obj.put (package key port obj.num).bytes).Holds S port (keys ++ [key]) := by
  refine ⟨?_, h.datalen, ?_, h.load hkey⟩
  · rw [BatchObj.put, UInt16.toNat_add, UInt16.toNat_one, h.num, List.length_append,
      List.length_singleton]
    omega
  · rw [BatchObj.put, h.offset, List.length_append, List.length_singleton, Nat.add_mul,
      Nat.one_mul, Nat.add_assoc]

/-- An object that gets its last GET. -/
theorem BatchObj.Holds.close (h : obj.Holds S port keys) (hkey : key.length = keyLen)
    (hlast : keys.length + 1 = S.batchNum) :
    BatchObj.Complete S port (keys ++ [key])
      { obj.put (package key port obj.num).bytes with offset := 0 } := by
  refine ⟨h.datalen, rfl, ?_⟩
  have hload := h.load hkey
  have hend : obj.offset + packageLen = obj.datalen := by
    rw [h.offset, h.datalen, ← hlast, Nat.add_mul, Nat.one_mul, Nat.add_assoc]
  rwa [hend] at hload

/-! ### The loop -/

/-- A port whose keys so far are `keys`: a complete object for every full batch of them,
and the rest in the object at hand. -/
structure Settings.Filled (S : Settings) (p : Nat) (keys : List Bytes) (b : Building) : Prop where
  database : List.Forall₂ (BatchObj.Complete S (UInt8.ofNat p)) (Builder.full S.batchNum keys)
    (b.database p)
  current : (b.batchObjList p).Holds S (UInt8.ofNat p) (Builder.rest S.batchNum keys)

/-- The bounds of `port_num`, which a byte can tell apart, and of `BATCH_NUM`, which the
head of a batch can announce. -/
structure Settings.Ok (S : Settings) : Prop where
  portNum : 1 ≤ S.portNum ∧ S.portNum ≤ 256
  batchNum : 1 ≤ S.batchNum ∧ S.batchNum ≤ 65535

theorem Settings.keysAt_concat (hkey : keyBuf number = some key) :
    S.keysAt p (done ++ [number]) =
      if (preHash S.hashFunc S.portNum key).toNat = p then S.keysAt p done ++ [key]
      else S.keysAt p done := by
  simp only [Settings.keysAt, List.filterMap_append, List.filterMap_cons, hkey,
    List.filterMap_nil, List.filter_append]
  split
  next heq => simp [heq]
  next hne => simp [hne]

/-- Numbers that are hashed to other ports do not matter. -/
theorem Settings.Filled.congr (h : S.Filled p keys b)
    (hlist : b'.batchObjList p = b.batchObjList p) (hdatabase : b'.database p = b.database p) :
    S.Filled p keys b' :=
  ⟨hdatabase ▸ h.database, hlist ▸ h.current⟩

/-- **One number**: its key is added to its port, and no other port changes. -/
theorem Settings.Ok.addNumber (hS : S.Ok) (hkey : keyBuf number = some key)
    (hport : (preHash S.hashFunc S.portNum key).toNat = p) (h : S.Filled p keys b) :
    ∃ b', S.addNumber b number = .ok b' ∧ S.Filled p (keys ++ [key]) b' ∧
      ∀ p' ≠ p, b'.batchObjList p' = b.batchObjList p' ∧ b'.database p' = b.database p' := by
  subst hport
  set port := preHash S.hashFunc S.portNum key with hport
  obtain ⟨hdatabase, hcur⟩ := h
  rw [UInt8.ofNat_toNat] at hdatabase hcur
  have hlen := length_keyBuf hkey
  have hrest : (Builder.rest S.batchNum keys).length < S.batchNum := by
    rw [Builder.length_rest]
    exact Nat.mod_lt _ hS.batchNum.1
  have hcopy := hcur.memcpy hlen hrest
  let bytes := (package key port (b.batchObjList port.toNat).num).bytes
  by_cases hfull : S.batchNum - 1 ≤ (b.batchObjList port.toNat).num.toNat
  · have hlast : (Builder.rest S.batchNum keys).length + 1 = S.batchNum := by
      rw [hcur.num] at hfull
      omega
    obtain ⟨obj, hobj, hnew⟩ := S.newObj_ok port
    obtain ⟨hfulls, hempty⟩ := Builder.concat_of_eq (x := key) hS.batchNum.1 hlast
    have hclose := hcur.close hlen hlast
    have hadd : S.addNumber b number = .ok ⟨Function.update b.batchObjList port.toNat obj,
        Function.update b.database port.toNat (b.database port.toNat ++
          [{ (b.batchObjList port.toNat).put bytes with offset := 0 }])⟩ := by
      simp only [Settings.addNumber, hkey, ← hport, if_pos hfull, hcopy, hobj]
      rfl
    refine ⟨_, hadd, ⟨?_, ?_⟩, fun p' hp' => ?_⟩
    · rw [UInt8.ofNat_toNat, hfulls]
      simp only [Function.update_self]
      exact List.rel_append hdatabase (.cons hclose .nil)
    · rw [UInt8.ofNat_toNat, hempty]
      simpa using hnew
    · simp [Function.update_of_ne hp']
  · have hmore : (Builder.rest S.batchNum keys).length + 1 < S.batchNum := by
      rw [hcur.num] at hfull
      omega
    obtain ⟨hfulls, hconcat⟩ := Builder.concat_of_lt (x := key) hmore
    have hadd : S.addNumber b number =
        .ok ⟨Function.update b.batchObjList port.toNat ((b.batchObjList port.toNat).put bytes),
          b.database⟩ := by
      simp only [Settings.addNumber, hkey, ← hport, if_neg hfull, hcopy]
      rfl
    refine ⟨_, hadd, ⟨?_, ?_⟩, fun p' hp' => ?_⟩
    · rw [UInt8.ofNat_toNat, hfulls]
      exact hdatabase
    · rw [UInt8.ofNat_toNat, hconcat]
      simpa using hcur.add hlen hmore hS.batchNum.2
    · simp [Function.update_of_ne hp']

theorem Settings.newList_ok (S : Settings) :
    ∃ list, S.newList = .ok list ∧ ∀ p < S.portNum, (list p).Holds S (UInt8.ofNat p) [] := by
  let I : List Nat → (Nat → BatchObj) → Prop := fun done list =>
    ∀ p ∈ done, (list p).Holds S (UInt8.ofNat p) []
  have hstep : ∀ (done : List Nat) (i : Nat) (post : List Nat) (list : Nat → BatchObj),
      List.range S.portNum = done ++ i :: post → I done list →
      ∃ list', (do return Function.update list i (← S.newObj (UInt8.ofNat i))) = Except.ok list' ∧
        I (done ++ [i]) list' := by
    intro done i post list _ h
    obtain ⟨obj, hobj, hnew⟩ := S.newObj_ok (UInt8.ofNat i)
    refine ⟨Function.update list i obj, by rw [hobj]; rfl, fun p hp => ?_⟩
    by_cases hpi : p = i
    · subst hpi
      simpa using hnew
    · rw [Function.update_of_ne hpi]
      exact h p (by simpa [hpi] using hp)
  obtain ⟨list, hlist, hI⟩ := Builder.foldlM_ok (s := fun _ => ⟨fun _ => 0, 0, 0, 0⟩) hstep
    fun p hp => by cases hp
  exact ⟨list, hlist, fun p hp => hI p (by simpa using hp)⟩

/-- **After all numbers** every port has what its keys fill. -/
theorem Settings.Ok.filled (hS : S.Ok)
    (hnum : ∀ number ∈ array, (sprintf (number / 26)).length ≤ valueLen) :
    ∃ b, S.conDatabase array = .ok (b, S.discarded b) ∧
      ∀ p < S.portNum, S.Filled p (S.keysAt p array) b := by
  let I : List UInt64 → Building → Prop := fun done b =>
    ∀ p < S.portNum, S.Filled p (S.keysAt p done) b
  have hstep : ∀ (done : List UInt64) (number : UInt64) (post : List UInt64) (b : Building),
      array = done ++ number :: post → I done b →
      ∃ b', S.addNumber b number = .ok b' ∧ I (done ++ [number]) b' := by
    intro done number post b harray h
    have hlen := hnum number (by simp [harray])
    obtain ⟨key, hkey⟩ := (decimal_isSome (letter number)).mpr hlen
    have hport := preHash_lt S.hashFunc key hS.portNum.1
    obtain ⟨b', hb', hfilled, hother⟩ := hS.addNumber hkey rfl (h _ hport)
    refine ⟨b', hb', fun p hp => ?_⟩
    rw [Settings.keysAt_concat hkey]
    by_cases hpp : (preHash S.hashFunc S.portNum key).toNat = p
    · subst hpp
      rw [if_pos rfl]
      exact hfilled
    · obtain ⟨hlist', hdatabase'⟩ := hother p (Ne.symm hpp)
      rw [if_neg hpp]
      exact (h p hp).congr hlist' hdatabase'
  obtain ⟨list, hlist, hnew⟩ := S.newList_ok
  have hstart : I [] ⟨list, fun _ => []⟩ := fun p hp =>
    ⟨by simp [Settings.keysAt], by simpa [Settings.keysAt] using hnew p hp⟩
  obtain ⟨b, hb, hI⟩ := Builder.foldlM_ok hstep hstart
  refine ⟨b, ?_, hI⟩
  simp only [Settings.conDatabase, hlist, hb, bind, Except.bind]
  rfl

/-- What `con_database` should make of the numbers: for every port and its keys, one
complete object for each full batch of them, and the rest discarded. -/
structure Built (S : Settings) (array : List UInt64) (b : Building) (discarded : Nat) : Prop where
  objects : ∀ p < S.portNum, (b.database p).length = (S.keysAt p array).length / S.batchNum
  batches : ∀ p < S.portNum, ∀ j (hj : j < (b.database p).length),
    BatchObj.Complete S (UInt8.ofNat p)
      (((S.keysAt p array).drop (j * S.batchNum)).take S.batchNum) (b.database p)[j]
  dropped : ∀ p < S.portNum,
    (b.batchObjList p).num.toNat = (S.keysAt p array).length % S.batchNum
  discarded : discarded =
    ((List.range S.portNum).map fun p => (S.keysAt p array).length % S.batchNum).sum

/-- **Building batches conserves the keys**, whatever the numbers and however they are
hashed, as long as `key_buf` has room for every number's digits. -/
theorem con_database_builds (hS : S.Ok)
    (hnum : ∀ number ∈ array, (sprintf (number / 26)).length ≤ valueLen) :
    ∃ b n, S.conDatabase array = .ok (b, n) ∧ Built S array b n := by
  obtain ⟨b, hbuild, hfilled⟩ := hS.filled hnum
  have hdropped : ∀ p < S.portNum,
      (b.batchObjList p).num.toNat = (S.keysAt p array).length % S.batchNum := fun p hp => by
    rw [(hfilled p hp).current.num, Builder.length_rest]
  refine ⟨b, S.discarded b, hbuild, fun p hp => ?_, fun p hp j hj => ?_, hdropped, ?_⟩
  · rw [← (hfilled p hp).database.length_eq, Builder.length_full]
  · have hj' : j < (Builder.full S.batchNum (S.keysAt p array)).length := by
      rwa [(hfilled p hp).database.length_eq]
    rw [← Builder.getElem_full hj']
    exact (hfilled p hp).database.get hj' hj
  · rw [Settings.discarded]
    exact congrArg List.sum (List.map_congr_left fun p hp => hdropped p (List.mem_range.mp hp))

/-- Five numbers, two ports and batches of two: the hash is the first letter of the key. -/
def fiveNumbers : Settings := ⟨2, 2, fun key => (key.getD 1 0).toUInt32⟩

theorem fiveNumbers_fit :
    ∀ number ∈ [0, 2, 4, 1, 6], (sprintf (number / 26)).length ≤ valueLen := by
  simp only [List.mem_cons, List.not_mem_nil, or_false, forall_eq_or_imp, forall_eq]
  decide +kernel

theorem con_database_builds_fiveNumbers :
    fiveNumbers.Ok ∧ ∃ b n, fiveNumbers.conDatabase [0, 2, 4, 1, 6] = .ok (b, n) ∧
      Built fiveNumbers [0, 2, 4, 1, 6] b n := by
  have hS : fiveNumbers.Ok := ⟨by decide, by decide⟩
  exact ⟨hS, con_database_builds hS fiveNumbers_fit⟩

/-- A number without a key stops `con_database`. -/
theorem conDatabase_ne_ok (hkey : keyBuf number = none) {result : Building × Nat} :
    S.conDatabase [number] ≠ .ok result := by
  obtain ⟨list, hlist, -⟩ := S.newList_ok
  simp [Settings.conDatabase, hlist, Settings.addNumber, hkey, bind, Except.bind]

/-- The quotient of this number has nine digits. -/
theorem con_database_longNumber :
    ¬ ∀ (S : Settings) (array : List UInt64), S.Ok →
      ∃ b n, S.conDatabase array = .ok (b, n) ∧ Built S array b n := by
  intro hall
  obtain ⟨b, n, hbuild, -⟩ := hall ⟨1, 1, fun _ => 0⟩ [2600000000] ⟨by decide, by decide⟩
  have hkey : keyBuf 2600000000 = none := by decide +kernel
  exact conDatabase_ne_ok hkey hbuild

end MultiportNetwork.GetBatch
