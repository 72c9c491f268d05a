import Mathlib.Data.List.Basic
import Mathlib.Tactic.Common

/-!
# Flat memory

An allocation as a total function from offsets to cells. `load` copies a range
out, `store` copies a list in, `move` is `memmove`: the source range is read
before the destination is written, so the two may overlap.

There is no bound in the type. What a client of this module may touch is a
property of the offsets it uses, to be proved about that client.
-/

/-- Memory cells of type `α`, by offset. -/
abbrev Memory (α : Type) := Nat → α

namespace Memory

variable {α : Type}

/-- The `n` cells from `off` on. -/
def load (m : Memory α) (off : Nat) : Nat → List α
  | 0 => []
  | n + 1 => m off :: load m (off + 1) n

/-- Write `xs` from `off` on. -/
def store (m : Memory α) (off : Nat) (xs : List α) : Memory α :=
  fun i => if off ≤ i then (xs[i - off]?).getD (m i) else m i

/-- Copy `n` cells from `src` to `dst`; the ranges may overlap. -/
def move (m : Memory α) (src dst n : Nat) : Memory α :=
  m.store dst (m.load src n)

/-! ### Loading -/

@[simp] theorem length_load (m : Memory α) (off n : Nat) : (m.load off n).length = n := by
  induction n generalizing off with
  | zero => rfl
  | succ n ih => simp [load, ih]

@[simp] theorem load_zero (m : Memory α) (off : Nat) : m.load off 0 = [] := rfl

theorem load_add (m : Memory α) (off a b : Nat) :
    m.load off (a + b) = m.load off a ++ m.load (off + a) b := by
  induction a generalizing off with
  | zero => simp
  | succ a ih =>
      rw [show a + 1 + b = (a + b) + 1 by omega]
      simp only [load, List.cons_append, ih]
      rw [show off + 1 + a = off + (a + 1) by omega]

theorem drop_load (m : Memory α) (off n k : Nat) :
    (m.load off n).drop k = m.load (off + k) (n - k) := by
  by_cases h : k ≤ n
  · conv_lhs => rw [show n = k + (n - k) by omega, load_add]
    rw [List.drop_append_of_le_length (by simp), List.drop_of_length_le (by simp),
      List.nil_append]
  · rw [List.drop_of_length_le (by simp; omega), show n - k = 0 by omega, load_zero]

theorem take_load (m : Memory α) (off n k : Nat) (h : k ≤ n) :
    (m.load off n).take k = m.load off k := by
  rw [show n = k + (n - k) by omega, load_add, List.take_append_of_le_length (by simp),
    List.take_of_length_le (by simp)]

theorem getElem?_load (m : Memory α) (off n i : Nat) (h : i < n) :
    (m.load off n)[i]? = some (m (off + i)) := by
  induction n generalizing off i with
  | zero => omega
  | succ n ih =>
      cases i with
      | zero => simp [load]
      | succ i =>
          simp only [load, List.getElem?_cons_succ]
          rw [ih (off + 1) i (by omega), show off + 1 + i = off + (i + 1) by omega]

/-- A load only looks at its own range. -/
theorem load_congr {m m' : Memory α} {off n : Nat}
    (h : ∀ i, off ≤ i → i < off + n → m i = m' i) : m.load off n = m'.load off n := by
  induction n generalizing off with
  | zero => rfl
  | succ n ih =>
      simp only [load]
      rw [h off (by omega) (by omega), ih fun i h₁ h₂ => h i (by omega) (by omega)]

/-! ### Loading after a store -/

theorem store_of_lt {m : Memory α} {off i : Nat} {xs : List α} (h : i < off) :
    m.store off xs i = m i := by
  simp [store, Nat.not_le.mpr h]

theorem store_of_le {m : Memory α} {off i : Nat} {xs : List α} (h : off + xs.length ≤ i) :
    m.store off xs i = m i := by
  rw [store, if_pos (by omega), List.getElem?_eq_none (by omega), Option.getD_none]

theorem load_store_self (m : Memory α) (off : Nat) (xs : List α) :
    (m.store off xs).load off xs.length = xs := by
  apply List.ext_getElem? fun i => ?_
  by_cases hi : i < xs.length
  · rw [getElem?_load _ _ _ _ hi]
    simp [store, hi]
  · rw [List.getElem?_eq_none (by simpa using hi), List.getElem?_eq_none (by omega)]

theorem load_store_before {m : Memory α} {off off' n : Nat} {xs : List α} (h : off' + n ≤ off) :
    (m.store off xs).load off' n = m.load off' n :=
  load_congr fun _ _ h₂ => store_of_lt (by omega)

/-- Writing right behind a range appends to what the range holds. -/
theorem load_store_append (m : Memory α) (off n : Nat) (xs : List α) :
    (m.store (off + n) xs).load off (n + xs.length) = m.load off n ++ xs := by
  rw [load_add, load_store_before (Nat.le_refl _), load_store_self]

theorem load_move (m : Memory α) (src dst n : Nat) :
    (m.move src dst n).load dst n = m.load src n := by
  have h := load_store_self m dst (m.load src n)
  rwa [length_load] at h

/-! ### Two memories -/

/-- Each cell has been written alike over `m` and over `m'`, or left alone in both. -/
def Alike (m m' n n' : Memory α) : Prop := ∀ i, n i = n' i ∨ (n i = m i ∧ n' i = m' i)

namespace Alike

variable {m m' n n' : Memory α}

theorem refl (m m' : Memory α) : Alike m m' m m' := fun _ => .inr ⟨rfl, rfl⟩

theorem store (h : Alike m m' n n') (off : Nat) (xs : List α) :
    Alike m m' (n.store off xs) (n'.store off xs) := by
  intro i
  by_cases hlt : i < off
  · rw [store_of_lt hlt, store_of_lt hlt]
    exact h i
  by_cases hge : off + xs.length ≤ i
  · rw [store_of_le hge, store_of_le hge]
    exact h i
  · left
    rw [Memory.store, Memory.store, if_pos (by omega), if_pos (by omega),
      List.getElem?_eq_getElem (by omega)]
    rfl

end Alike

end Memory
