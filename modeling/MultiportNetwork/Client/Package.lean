import MultiportNetwork.Lib.Decimal
import MultiportNetwork.Spec.Stream

/-!
# MultiportNetwork.Client.Package

What the test clients put into a package: the lengths of their `settings.h`, their
instructions, and the keys they make of numbers. A number's key is its quotient by 26
in decimal, filled up with the letter of its remainder.

`sprintf` is given an `uint64_t` for a `%d` and reads the `int` in its lower half, as it
does on the machines the clients run on. Nothing keeps the digits within the buffer: a
number with more than eight of them is written over its end, and the length left for
`memset` wraps. Such a number has no key here.
-/

namespace MultiportNetwork.Client

/-- `HEAD_LEN`, `KEY_LEN` and `VALUE_LEN`. -/
def headLen : Nat := 12
def keyLen : Nat := 8
def valueLen : Nat := 8

/-- `instructs`. -/
inductive Instructs
  | GET | SET | GETB | SETB
  deriving Repr, DecidableEq

/-- `get_opcode`. -/
def getOpcode : Instructs → UInt8
  | .GET => 0x01
  | .SET => 0x04
  | .GETB => 0x03
  | .SETB => 0x06

/-- What `%d` reads of its argument. -/
def vaInt (n : UInt64) : Int := n.toUInt32.toInt32.toInt

/-- `sprintf(buf, "%d", n)`. -/
def sprintf (n : UInt64) : Bytes :=
  (if vaInt n < 0 then [45] else []) ++ (Nat.toDigits 10 (vaInt n).natAbs).map Char.toUInt8

/-- A buffer of `len` bytes and a terminating zero: the number from its start on, and
`letter` behind it. -/
def decimal (len : Nat) (n : UInt64) (letter : UInt8) : Option Bytes :=
  if (sprintf n).length ≤ len then
    some (sprintf n ++ List.replicate (len - (sprintf n).length) letter)
  else none

/-- The letter of a number: `'a' + c`. -/
def letter (number : UInt64) : UInt8 := 97 + (number % 26).toUInt8

/-- `Pre_hash`, given `hash_func` on `KEY_LEN` bytes. -/
def preHash (hashFunc : Bytes → UInt32) (portNum : Nat) (key : Bytes) : UInt8 :=
  UInt8.ofNat ((hashFunc key).toNat % portNum)

theorem decimal_eq_field (len : Nat) (n : UInt64) (letter : UInt8) :
    decimal len n letter = Decimal.field len (sprintf n) letter := rfl

theorem length_decimal {len : Nat} {n : UInt64} {letter : UInt8} {bs : Bytes}
    (h : decimal len n letter = some bs) : bs.length = len := by
  rw [decimal_eq_field] at h
  exact Decimal.length_field h

theorem decimal_isSome {len : Nat} {n : UInt64} (letter : UInt8) :
    (∃ bs, decimal len n letter = some bs) ↔ (sprintf n).length ≤ len := by
  simp only [decimal_eq_field]
  exact Decimal.exists_field letter

/-- A port is below the number of ports, even where there are more than a byte can tell. -/
theorem preHash_lt (hashFunc : Bytes → UInt32) {portNum : Nat} (key : Bytes) (h : 1 ≤ portNum) :
    (preHash hashFunc portNum key).toNat < portNum := by
  have hlt := Nat.mod_lt (hashFunc key).toNat h
  have hle := Nat.mod_le ((hashFunc key).toNat % portNum) (2 ^ 8)
  rw [preHash, UInt8.toNat_ofNat']
  omega

/-- An `int` reads back as itself. -/
theorem vaInt_eq {n : UInt64} (hint : n.toNat < 2 ^ 31) : vaInt n = n.toNat := by
  have hlow : n.toUInt32.toBitVec.toNat = n.toNat := by
    rw [UInt32.toNat_toBitVec, UInt64.toNat_toUInt32]
    omega
  show n.toUInt32.toBitVec.toInt = n.toNat
  rw [BitVec.toInt_eq_toNat_of_lt, hlow]
  omega

/-- A number that is an `int` has the digits it should. -/
theorem length_sprintf_le {n : UInt64} {k : Nat} (hk : 0 < k) (hint : n.toNat < 2 ^ 31)
    (hn : n.toNat < 10 ^ k) : (sprintf n).length ≤ k := by
  have hpos : ¬ vaInt n < 0 := by
    rw [vaInt_eq hint]
    omega
  rw [sprintf, if_neg hpos, vaInt_eq hint, List.nil_append, List.length_map, Int.natAbs_natCast]
  exact (Nat.length_toDigits_le_iff (by decide) hk).mpr hn

/-- No digit, and no sign, is the magic byte of a request. -/
theorem sprintf_ne_magic {n : UInt64} {d : UInt8} (hd : d ∈ sprintf n) : d ≠ protocolBinaryReq := by
  rcases List.mem_append.mp hd with hsign | hdigit
  · have hminus : d = 45 := by
      split at hsign
      · simpa using hsign
      · cases hsign
    subst hminus
    decide
  · rintro rfl
    have hrange : Decimal.IsDigit protocolBinaryReq := Decimal.isDigit_of_mem hdigit
    exact absurd hrange (by decide)

/-- A key does not begin like a request. -/
theorem head_decimal {len : Nat} {n : UInt64} {letter : UInt8} {bs : Bytes}
    (h : decimal len n letter = some bs) : ∃ d, bs.head? = some d ∧ d ≠ protocolBinaryReq := by
  unfold decimal at h
  split at h
  next hle =>
    have hne : sprintf n ≠ [] := by simp [sprintf, Nat.toDigits_ne_nil]
    obtain ⟨d, ds, hds⟩ := List.exists_cons_of_ne_nil hne
    refine ⟨d, ?_, sprintf_ne_magic (n := n) (by rw [hds]; exact List.mem_cons_self)⟩
    rw [← Option.some.inj h, hds]
    rfl
  next => cases h

end MultiportNetwork.Client
