import MultiportNetwork.Client.MicroTest
import MultiportNetwork.Client.GetBatch
import Mathlib.Data.Finset.Card

/-!
# MultiportNetwork.Client.Keys

The keys the clients make of numbers. `micro_test` and `get_batch` make the same key of a
number, and as long as there is a letter in it no other number has that key
(`keys_unique`). `get_simple_test`, which is to show that a SET run has succeeded, prints
the number itself where they print its quotient by 26: what it asks for is the key of
another number (`keyBuf_eq`), of any but zero (`clients_agree_iff`).
-/

/-! ### `get_simple_test` -/

namespace MultiportNetwork.GetSimpleTest

open Client

/-- `PACKAGE_LEN`. -/
def packageLen : Nat := headLen + keyLen

/-- `sprintf(buf, "%lu", n)`. -/
def sprintf (n : UInt64) : Bytes := (Nat.toDigits 10 n.toNat).map Char.toUInt8

/-- `key_buf`; a number with more digits than there is room for has none. -/
def keyBuf (queryNum : UInt64) : Option Bytes :=
  if (sprintf queryNum).length ≤ keyLen then
    some (sprintf queryNum ++
      List.replicate (keyLen - (sprintf queryNum).length) (letter queryNum))
  else none

/-- The request for a key. -/
def package (key : Bytes) : Packet where
  header :=
    { magic := 0x80
      opcode := 0x01
      keylen := UInt16.ofNat keyLen
      batchnum := 1
      prehash := 0
      reserved := 0
      totalbodylen := UInt32.ofNat keyLen }
  body := key

/-- `con_send_buf`. -/
def conSendBuf (packageBuf : Memory UInt8) (queryNum : UInt64) : Option (Memory UInt8) :=
  (keyBuf queryNum).map fun key => packageBuf.store 0 (package key).bytes

variable {q : UInt64} {key : Bytes}

theorem keyBuf_eq_field (q : UInt64) :
    keyBuf q = Decimal.field keyLen (Decimal.digits q.toNat) (letter q) := rfl

theorem length_keyBuf (h : keyBuf q = some key) : key.length = keyLen := by
  rw [keyBuf_eq_field] at h
  exact Decimal.length_field h

/-- What `main` sends is the request for the key. -/
theorem load_conSendBuf (packageBuf : Memory UInt8) (h : keyBuf q = some key) :
    ∃ sent, conSendBuf packageBuf q = some sent ∧
      sent.load 0 packageLen = (package key).bytes ∧ sent.load headLen keyLen = key := by
  have hlen : (package key).bytes.length = packageLen := by
    simp [Packet.bytes, package, length_keyBuf h, packageLen, headLen, headerSize]
  have hload : (packageBuf.store 0 (package key).bytes).load 0 packageLen =
      (package key).bytes := by
    rw [← hlen, Memory.load_store_self]
  have hbody : (package key).bytes.drop headerSize = key := by
    simpa [package] using (package key).drop_bytes []
  have hkey := Memory.drop_load (packageBuf.store 0 (package key).bytes) 0 packageLen headerSize
  rw [hload, hbody] at hkey
  exact ⟨_, by rw [conSendBuf, h]; rfl, hload, hkey.symm⟩

end MultiportNetwork.GetSimpleTest

/-! ### Keys are unique -/

namespace MultiportNetwork.Client

open Decimal

variable {v w q : UInt64} {len : Nat} {key : Bytes}

/-- The key of a number, of `len` bytes. -/
def keyOf (len : Nat) (number : UInt64) : Option Bytes := decimal len (number / 26) (letter number)

theorem microTest_keyBuf : MicroTest.keyBuf = keyOf keyLen := rfl
theorem getBatch_keyBuf : GetBatch.keyBuf = keyOf keyLen := rfl

/-- The quotient of a number is an `int` and leaves room for a letter in its key. -/
structure Fits (len : Nat) (number : UInt64) : Prop where
  room : (digits (number.toNat / 26)).length < len
  int : number.toNat / 26 < 2 ^ 31

/-- A number that is an `int` is printed as its digits. -/
theorem sprintf_eq {n : UInt64} (hint : n.toNat < 2 ^ 31) : sprintf n = digits n.toNat := by
  have hpos : ¬ vaInt n < 0 := by
    rw [vaInt_eq hint]
    omega
  rw [sprintf, if_neg hpos, vaInt_eq hint, List.nil_append, Int.natAbs_natCast, digits]

theorem toNat_letter (number : UInt64) : (letter number).toNat = 97 + number.toNat % 26 := by
  have hlt := Nat.mod_lt number.toNat (show 0 < 26 by decide)
  simp only [letter, UInt8.toNat_add, UInt64.toNat_toUInt8, UInt64.toNat_mod, UInt8.reduceToNat,
    UInt64.reduceToNat]
  omega

theorem not_isDigit_letter (number : UInt64) : ¬ IsDigit (letter number) := by
  rw [IsDigit, toNat_letter]
  omega

theorem Fits.keyOf_eq (h : Fits len v) :
    keyOf len v = field len (digits (v.toNat / 26)) (letter v) := by
  have hquot : (v / 26).toNat = v.toNat / 26 := UInt64.toNat_div v 26
  rw [keyOf, decimal_eq_field, sprintf_eq (by rw [hquot]; exact h.int), hquot]

theorem Fits.isSome (h : Fits len v) : ∃ key, keyOf len v = some key := by
  rw [h.keyOf_eq]
  exact (exists_field _).mpr h.room.le

/-- **A key tells its number.** -/
theorem keyOf_inj (hv : Fits len v) (hw : Fits len w) (h : keyOf len v = keyOf len w) : v = w := by
  obtain ⟨key, hkey⟩ := hv.isSome
  have hkey' := h ▸ hkey
  rw [hv.keyOf_eq] at hkey
  rw [hw.keyOf_eq] at hkey'
  obtain ⟨hdigits, hletter⟩ := field_inj (fun _ => isDigit_of_mem) (fun _ => isDigit_of_mem)
    (not_isDigit_letter v) (not_isDigit_letter w) hkey hkey'
  have hquot := digits_injective hdigits
  have hrem := congrArg UInt8.toNat (hletter hv.room)
  rw [toNat_letter, toNat_letter] at hrem
  rw [← UInt64.toNat_inj]
  omega

/-- Numbers that have keys have as many keys as there are numbers. -/
theorem card_keys {array : List UInt64} (h : ∀ v ∈ array, Fits len v) :
    (array.filterMap (keyOf len)).toFinset.card = array.toFinset.card := by
  have hkey : ∀ v ∈ array.toFinset, keyOf len v = some ((keyOf len v).getD []) := by
    intro v hv
    obtain ⟨key, hkey⟩ := (h v (List.mem_toFinset.mp hv)).isSome
    simp [hkey]
  have himage : (array.filterMap (keyOf len)).toFinset =
      array.toFinset.image fun v => (keyOf len v).getD [] := by
    ext key
    simp only [List.mem_toFinset, List.mem_filterMap, Finset.mem_image]
    refine exists_congr fun v => and_congr_right fun hv => ?_
    rw [hkey v (List.mem_toFinset.mpr hv), Option.some.injEq]
    rfl
  rw [himage]
  refine Finset.card_image_of_injOn fun v hv w hw heq => ?_
  have hv' := h v (List.mem_toFinset.mp hv)
  have hw' := h w (List.mem_toFinset.mp hw)
  refine keyOf_inj hv' hw' ?_
  rw [hkey v hv, hkey w hw]
  exact congrArg some heq

/-- **Keys are unique.** Numbers whose quotients leave room for a letter have keys, each its
own, so a list of them has as many distinct keys as it has distinct numbers. -/
theorem keys_unique (len : Nat) :
    (∀ v, Fits len v → ∃ key, keyOf len v = some key ∧ key.length = len) ∧
      (∀ v w, Fits len v → Fits len w → keyOf len v = keyOf len w → v = w) ∧
      ∀ array : List UInt64, (∀ v ∈ array, Fits len v) →
        (array.filterMap (keyOf len)).toFinset.card = array.toFinset.card := by
  refine ⟨fun v hv => ?_, fun v w hv hw h => keyOf_inj hv hw h, fun array h => card_keys h⟩
  obtain ⟨key, hkey⟩ := hv.isSome
  exact ⟨key, hkey, length_decimal hkey⟩

/-- With the `KEY_LEN` of `settings.h` these are the numbers below `26 * 10^7`. -/
theorem fits_keyLen (h : v.toNat / 26 < 10 ^ 7) : Fits keyLen v := by
  have hlen : (digits (v.toNat / 26)).length ≤ 7 := by
    rw [digits, List.length_map]
    exact (Nat.length_toDigits_le_iff (by decide) (by decide)).mpr h
  exact ⟨Nat.lt_succ_of_le hlen, by omega⟩

theorem keys_unique_threeNumbers :
    ([26, 0, 26].filterMap MicroTest.keyBuf).toFinset.card = 2 := by
  have hfits : ∀ v ∈ [26, 0, 26], Fits keyLen v := by
    intro v hv
    simp only [List.mem_cons, List.not_mem_nil, or_false] at hv
    rcases hv with rfl | rfl | rfl <;> exact fits_keyLen (by decide)
  exact (keys_unique keyLen).2.2 [26, 0, 26] hfits

end MultiportNetwork.Client

/-! ### Three clients, two keys -/

namespace MultiportNetwork.GetSimpleTest

open Client

variable {q : UInt64}

/-- The number whose quotient is `q` and whose letter is that of `q`. -/
def shifted (q : UInt64) : UInt64 := 26 * q + q % 26

theorem toNat_shifted (hq : q.toNat < 10 ^ 7) :
    (shifted q).toNat = 26 * q.toNat + q.toNat % 26 := by
  simp only [shifted, UInt64.toNat_add, UInt64.toNat_mul, UInt64.toNat_mod, UInt64.reduceToNat]
  omega

/-- **`get_simple_test` asks for the key of another number**: the number itself takes the
place of its quotient. -/
theorem keyBuf_eq (hq : q.toNat < 10 ^ 7) : keyBuf q = keyOf keyLen (shifted q) := by
  have hbase : (26 : UInt64).toNat = 26 := rfl
  have hquot : shifted q / 26 = q := by
    rw [← UInt64.toNat_inj, UInt64.toNat_div, toNat_shifted hq, hbase]
    omega
  have hrem : shifted q % 26 = q % 26 := by
    rw [← UInt64.toNat_inj, UInt64.toNat_mod, UInt64.toNat_mod, toNat_shifted hq, hbase]
    omega
  rw [keyBuf_eq_field, keyOf, hquot, letter, letter, hrem, decimal_eq_field,
    sprintf_eq (by omega)]

/-- **The clients agree on the key of zero** and of no other number. `micro_test` and
`get_batch` agree on all. -/
theorem clients_agree_iff (hq : q.toNat < 10 ^ 7) (packageBuf : Memory UInt8) :
    MicroTest.keyBuf q = GetBatch.keyBuf q ∧
      ((∃ sent, conSendBuf packageBuf q = some sent ∧
          MicroTest.keyBuf q = some (sent.load headLen keyLen) ∧
          GetBatch.keyBuf q = some (sent.load headLen keyLen)) ↔ q = 0) := by
  have hsum := toNat_shifted hq
  have hfits : Fits keyLen q := fits_keyLen (by omega)
  have hfits' : Fits keyLen (shifted q) := fits_keyLen (by omega)
  obtain ⟨key, hkey⟩ := hfits'.isSome
  rw [← keyBuf_eq hq] at hkey
  obtain ⟨sent, hsent, -, hload⟩ := load_conSendBuf packageBuf hkey
  refine ⟨by rw [microTest_keyBuf, getBatch_keyBuf], ?_, ?_⟩
  · rintro ⟨sent', hsent', hmicro, -⟩
    obtain rfl : sent = sent' := Option.some.inj (hsent.symm.trans hsent')
    rw [hload, microTest_keyBuf, ← hkey, keyBuf_eq hq] at hmicro
    have hsame := congrArg UInt64.toNat (keyOf_inj hfits hfits' hmicro)
    have hnat : q.toNat = 0 := by omega
    exact UInt64.toNat_inj.mp hnat
  · rintro rfl
    have hmicro : MicroTest.keyBuf 0 = some (sent.load headLen keyLen) := by
      rw [hload, ← hkey]
      rfl
    exact ⟨sent, hsent, hmicro, hmicro⟩

/-- All three ask for `0aaaaaaa`. -/
theorem clients_agree_iff_zero :
    ∃ sent, conSendBuf (fun _ => 0) 0 = some sent ∧
      MicroTest.keyBuf 0 = some (sent.load headLen keyLen) ∧
      GetBatch.keyBuf 0 = some (sent.load headLen keyLen) :=
  (clients_agree_iff (by decide) _).2.2 rfl

/-- Of one, `micro_test` stores `0bbbbbbb`, and `get_simple_test` asks for `1bbbbbbb`. -/
theorem clients_disagree_one :
    ¬ ∀ (q : UInt64) (packageBuf : Memory UInt8), q.toNat < 10 ^ 7 → q.toNat / 26 < 10 ^ 7 →
      ∃ sent, conSendBuf packageBuf q = some sent ∧
        MicroTest.keyBuf q = some (sent.load headLen keyLen) ∧
        GetBatch.keyBuf q = some (sent.load headLen keyLen) := by
  intro hall
  obtain ⟨sent, hsent, hmicro, -⟩ := hall 1 (fun _ => 0) (by decide) (by decide)
  have hstored : MicroTest.keyBuf 1 = some [48, 98, 98, 98, 98, 98, 98, 98] := by decide +kernel
  have hasked : (conSendBuf (fun _ => 0) 1).map (fun sent => sent.load headLen keyLen) =
      some [49, 98, 98, 98, 98, 98, 98, 98] := by decide +kernel
  rw [hsent, Option.map_some, ← hmicro, hstored] at hasked
  exact absurd hasked (by decide)

end MultiportNetwork.GetSimpleTest
