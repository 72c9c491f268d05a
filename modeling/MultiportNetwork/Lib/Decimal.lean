import Mathlib.Data.List.Basic
import Mathlib.Data.Nat.Digits.Defs

/-!
# Decimal numbers in fields

A number in decimal, as ASCII bytes, and the field of fixed width it is written to, with
a filler behind it. As long as the filler is no digit the field tells where the number
ends, so it tells the number, and if there is a filler it tells the filler too
(`field_inj`).
-/

namespace Decimal

/-- The digits of `n`. -/
def digits (n : Nat) : List UInt8 := (Nat.toDigits 10 n).map Char.toUInt8

/-- An ASCII digit. -/
def IsDigit (b : UInt8) : Prop := 48 ≤ b.toNat ∧ b.toNat ≤ 57

instance (b : UInt8) : Decidable (IsDigit b) := inferInstanceAs (Decidable (_ ∧ _))

theorem digit_range {n : Nat} {c : Char} (hc : c ∈ Nat.toDigits 10 n) :
    48 ≤ c.toNat ∧ c.toNat ≤ 57 := by
  have hdigit := Nat.isDigit_of_mem_toDigits (by decide) (by decide) hc
  simp only [Char.isDigit, Bool.and_eq_true, decide_eq_true_eq] at hdigit
  exact hdigit

theorem toNat_digit {n : Nat} {c : Char} (hc : c ∈ Nat.toDigits 10 n) :
    c.toUInt8.toNat = c.toNat := by
  have hmod : c.toUInt8.toNat = c.toNat % 256 := rfl
  have hrange := digit_range hc
  rw [hmod, Nat.mod_eq_of_lt (by omega)]

theorem isDigit_of_mem {n : Nat} {b : UInt8} (hb : b ∈ digits n) : IsDigit b := by
  obtain ⟨c, hc, rfl⟩ := List.mem_map.mp hb
  rw [IsDigit, toNat_digit hc]
  exact digit_range hc

/-- **A number is told by its digits.** -/
theorem digits_injective : Function.Injective digits := by
  intro m n h
  have hback : ∀ k, (digits k).map (fun b => Char.ofNat b.toNat) = Nat.toDigits 10 k := by
    intro k
    rw [digits, List.map_map]
    refine (List.map_congr_left fun c hc => ?_).trans (List.map_id _)
    simp [toNat_digit hc]
  have hchars : Nat.toDigits 10 m = Nat.toDigits 10 n := by rw [← hback m, h, hback n]
  have hvalue := congrArg (fun ds => Nat.ofDigitChars 10 ds 0) hchars
  simpa using hvalue

/-- `ds`, filled up with `x` to `w` bytes; nothing if it is longer than that. -/
def field (w : Nat) (ds : List UInt8) (x : UInt8) : Option (List UInt8) :=
  if ds.length ≤ w then some (ds ++ List.replicate (w - ds.length) x) else none

variable {w : Nat} {ds es : List UInt8} {x y : UInt8}

theorem exists_field (x : UInt8) : (∃ fs, field w ds x = some fs) ↔ ds.length ≤ w := by
  unfold field
  split
  next hle => exact ⟨fun _ => hle, fun _ => ⟨_, rfl⟩⟩
  next hgt => exact ⟨fun ⟨_, h⟩ => (by cases h), fun hle => absurd hle hgt⟩

theorem length_field {fs : List UInt8} (h : field w ds x = some fs) : fs.length = w := by
  unfold field at h
  split at h
  next hle =>
    rw [← Option.some.inj h, List.length_append, List.length_replicate, Nat.add_sub_cancel' hle]
  next => cases h

/-- What is in front of a filler can be told from it. -/
theorem takeWhile_filled {m : Nat} (hds : ∀ b ∈ ds, IsDigit b) (hx : ¬ IsDigit x) :
    (ds ++ List.replicate m x).takeWhile (fun b => IsDigit b) = ds := by
  rw [List.takeWhile_append_of_pos (by simpa using hds)]
  cases m <;> simp [List.replicate_succ, hx]

/-- **A field tells the number in it**, and the filler if there is one. -/
theorem field_inj {fs : List UInt8} (hds : ∀ b ∈ ds, IsDigit b) (hes : ∀ b ∈ es, IsDigit b)
    (hx : ¬ IsDigit x) (hy : ¬ IsDigit y) (hd : field w ds x = some fs)
    (he : field w es y = some fs) : ds = es ∧ (ds.length < w → x = y) := by
  unfold field at hd he
  split at hd
  swap
  · cases hd
  split at he
  swap
  · cases he
  have heq := (Option.some.inj hd).trans (Option.some.inj he).symm
  have hfront : ds = es := by
    rw [← takeWhile_filled hds hx, heq, takeWhile_filled hes hy]
  subst hfront
  refine ⟨rfl, fun hlt => ?_⟩
  have hfill := List.append_cancel_left heq
  exact (List.replicate_right_inj (by omega)).mp hfill

end Decimal
