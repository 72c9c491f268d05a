import Mathlib.Data.List.Basic
import Mathlib.Tactic.Common

/-!
# Sending with a cursor

A list of messages that goes out piece by piece: so many of them are out, and so many
elements of the next one. `sent` is what is out. The rules say what becomes of it when a
piece of the message at hand goes out (`sent_add`), when that message is complete
(`sent_full`), and when all are (`sent_all`).
-/

namespace Cursor

universe u

variable {α : Type u}

/-- What is out once `count` messages are, and `offset` elements of the next. -/
def sent : List (List α) → Nat → Nat → List α
  | [], _, _ => []
  | m :: _, 0, offset => m.take offset
  | m :: ms, count + 1, offset => m ++ sent ms count offset

variable {ms : List (List α)} {m : List α} {count offset offset' : Nat}

@[simp] theorem sent_zero (ms : List (List α)) : sent ms 0 0 = [] := by
  cases ms <;> rfl

/-- One more piece. -/
theorem sent_add (h : ms[count]? = some m) (n : Nat) :
    sent ms count (offset + n) = sent ms count offset ++ (m.drop offset).take n := by
  induction ms generalizing count with
  | nil => cases h
  | cons x ms ih =>
      cases count with
      | zero =>
          obtain rfl : x = m := by simpa using h
          exact List.take_add
      | succ count =>
          rw [sent, sent, ih (by simpa using h), List.append_assoc]

/-- A message that is out completely. -/
theorem sent_full (h : ms[count]? = some m) (hall : m.length ≤ offset) :
    sent ms count offset = sent ms (count + 1) 0 := by
  induction ms generalizing count with
  | nil => cases h
  | cons x ms ih =>
      cases count with
      | zero =>
          obtain rfl : x = m := by simpa using h
          rw [sent, sent, List.take_of_length_le hall, sent_zero, List.append_nil]
      | succ count => rw [sent, sent, ih (by simpa using h)]

/-- The offset only matters while there is a message at hand. -/
theorem sent_congr (h : count < ms.length → offset = offset') :
    sent ms count offset = sent ms count offset' := by
  induction ms generalizing count with
  | nil => rfl
  | cons x ms ih =>
      cases count with
      | zero => rw [h (by simp)]
      | succ count =>
          rw [sent, sent, ih fun hlt => h (by simpa using hlt)]

/-- All messages are out. -/
theorem sent_all (h : ms.length ≤ count) : sent ms count offset = ms.flatten := by
  induction ms generalizing count with
  | nil => rfl
  | cons x ms ih =>
      cases count with
      | zero => simp at h
      | succ count => rw [sent, List.flatten_cons, ih (by simpa using h)]

/-- What is out is a beginning of it all. -/
theorem sent_prefix (ms : List (List α)) (count offset : Nat) :
    sent ms count offset <+: ms.flatten := by
  induction ms generalizing count with
  | nil => exact List.prefix_rfl
  | cons x ms ih =>
      cases count with
      | zero => exact (List.take_prefix offset x).trans (List.prefix_append x _)
      | succ count => exact List.prefix_append_right_inj x |>.mpr (ih count)

end Cursor
