import Mathlib.Tactic.Ring
import Mathlib.Data.List.Basic

/-!
# Byte order

Fixed-width numbers as byte lists, least significant byte first (the order in
which a little-endian host lays an integer out in memory), and the four POSIX
conversions between host and network order on such a host.

`htons` and `htonl` are *defined* by reversing the bytes of the number, so every
fact about them comes from the round trip between numbers and byte lists.
-/

namespace ByteOrder

/-! ### Numbers and their bytes -/

/-- The `w` low bytes of `n`, least significant first. -/
def toLE : Nat → Nat → List UInt8
  | 0, _ => []
  | w + 1, n => UInt8.ofNat n :: toLE w (n / 256)

/-- The number whose bytes, least significant first, are the given ones. -/
def ofLE : List UInt8 → Nat
  | [] => 0
  | b :: bs => b.toNat + 256 * ofLE bs

@[simp] theorem length_toLE (w n : Nat) : (toLE w n).length = w := by
  induction w generalizing n with
  | zero => rfl
  | succ w ih => simp [toLE, ih]

theorem ofLE_lt (bs : List UInt8) : ofLE bs < 256 ^ bs.length := by
  induction bs with
  | nil => simp [ofLE]
  | cons b bs ih =>
      have hb : b.toNat < 256 := b.toNat_lt
      simp only [ofLE, List.length_cons, pow_succ]
      omega

theorem ofLE_toLE {w n : Nat} (h : n < 256 ^ w) : ofLE (toLE w n) = n := by
  induction w generalizing n with
  | zero => simp only [pow_zero] at h; simp [toLE, ofLE]; omega
  | succ w ih =>
      have hq : n / 256 < 256 ^ w :=
        Nat.div_lt_of_lt_mul (by rw [pow_succ] at h; omega)
      simp only [toLE, ofLE, ih hq, UInt8.toNat_ofNat']
      omega

theorem toLE_ofLE (bs : List UInt8) : toLE bs.length (ofLE bs) = bs := by
  induction bs with
  | nil => rfl
  | cons b bs ih =>
      have hb : b.toNat < 256 := b.toNat_lt
      have hmod : UInt8.ofNat (b.toNat + 256 * ofLE bs) = b := by
        apply UInt8.toNat_inj.mp
        rw [UInt8.toNat_ofNat']
        omega
      have hdiv : (b.toNat + 256 * ofLE bs) / 256 = ofLE bs := by omega
      simp only [List.length_cons, ofLE, toLE, hmod, hdiv, ih]

/-- Reversing the bytes twice gives the number back. -/
theorem ofLE_reverse_reverse {w n : Nat} (h : n < 256 ^ w) :
    ofLE (toLE w (ofLE (toLE w n).reverse)).reverse = n := by
  have hlen : ((toLE w n).reverse).length = w := by simp
  have hback : toLE w (ofLE (toLE w n).reverse) = (toLE w n).reverse := by
    have h' := toLE_ofLE (toLE w n).reverse
    rwa [hlen] at h'
  rw [hback, List.reverse_reverse, ofLE_toLE h]

/-! ### Host integers in memory -/

/-- The 16-bit integer a little-endian host reads from two bytes. -/
def le16 (b₀ b₁ : UInt8) : UInt16 := UInt16.ofNat (ofLE [b₀, b₁])

/-- The 32-bit integer a little-endian host reads from four bytes. -/
def le32 (b₀ b₁ b₂ b₃ : UInt8) : UInt32 := UInt32.ofNat (ofLE [b₀, b₁, b₂, b₃])

/-! ### Network order -/

/-- `htons` on a little-endian host: swap the two bytes. -/
def htons (x : UInt16) : UInt16 := UInt16.ofNat (ofLE (toLE 2 x.toNat).reverse)

/-- `ntohs` is the same byte swap. -/
def ntohs (x : UInt16) : UInt16 := htons x

/-- `htonl` on a little-endian host: reverse the four bytes. -/
def htonl (x : UInt32) : UInt32 := UInt32.ofNat (ofLE (toLE 4 x.toNat).reverse)

/-- `ntohl` is the same byte swap. -/
def ntohl (x : UInt32) : UInt32 := htonl x

theorem toNat_htons (x : UInt16) : (htons x).toNat = ofLE (toLE 2 x.toNat).reverse := by
  have h := ofLE_lt (toLE 2 x.toNat).reverse
  simp only [List.length_reverse, length_toLE] at h
  rw [htons, UInt16.toNat_ofNat', Nat.mod_eq_of_lt (by omega)]

theorem toNat_htonl (x : UInt32) : (htonl x).toNat = ofLE (toLE 4 x.toNat).reverse := by
  have h := ofLE_lt (toLE 4 x.toNat).reverse
  simp only [List.length_reverse, length_toLE] at h
  rw [htonl, UInt32.toNat_ofNat', Nat.mod_eq_of_lt (by omega)]

@[simp] theorem ntohs_htons (x : UInt16) : ntohs (htons x) = x := by
  apply UInt16.toNat_inj.mp
  rw [ntohs, toNat_htons, toNat_htons]
  exact ofLE_reverse_reverse (by simpa using x.toNat_lt)

@[simp] theorem ntohl_htonl (x : UInt32) : ntohl (htonl x) = x := by
  apply UInt32.toNat_inj.mp
  rw [ntohl, toNat_htonl, toNat_htonl]
  exact ofLE_reverse_reverse (by simpa using x.toNat_lt)

/-- The number with the two bytes of `x` swapped. -/
theorem toNat_htons_eq (x : UInt16) : (htons x).toNat = x.toNat / 256 + 256 * (x.toNat % 256) := by
  have hlt := x.toNat_lt
  simp only [toNat_htons, toLE, List.reverse_cons, List.reverse_nil, List.nil_append,
    List.cons_append, ofLE, UInt8.toNat_ofNat', Nat.reducePow]
  omega

/-- A swap changes nothing just where the two bytes are equal. -/
theorem htons_eq_self (x : UInt16) : htons x = x ↔ x.toNat % 256 = x.toNat / 256 := by
  rw [← UInt16.toNat_inj, toNat_htons_eq]
  omega

/-- Reading back the two bytes a host stored gives the number stored. -/
theorem le16_toLE (x : UInt16) :
    le16 x.toUInt8 (UInt8.ofNat (x.toNat / 256)) = x := by
  have h : ofLE (toLE 2 x.toNat) = x.toNat := ofLE_toLE (by simpa using x.toNat_lt)
  simp only [toLE] at h
  rw [le16, show x.toUInt8 = UInt8.ofNat x.toNat by simp, h, UInt16.ofNat_toNat]

/-- Reading back the four bytes a host stored gives the number stored. -/
theorem le32_toLE (x : UInt32) :
    le32 x.toUInt8 (UInt8.ofNat (x.toNat / 256))
      (UInt8.ofNat (x.toNat / 256 / 256)) (UInt8.ofNat (x.toNat / 256 / 256 / 256)) = x := by
  have h : ofLE (toLE 4 x.toNat) = x.toNat := ofLE_toLE (by simpa using x.toNat_lt)
  simp only [toLE] at h
  rw [le32, show x.toUInt8 = UInt8.ofNat x.toNat by simp, h, UInt32.ofNat_toNat]

end ByteOrder
