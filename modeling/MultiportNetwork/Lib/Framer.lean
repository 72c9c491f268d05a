import Mathlib.Data.List.Basic
import Mathlib.Tactic.Common

/-!
# Framers

A framer cuts a stream into items. In state `s`, facing the input `xs`, it either
waits for more input (`none`) or takes `n` symbols off the front, puts out some
items and moves to a new state. Two laws are fields of the structure: a framer
that takes anything takes at least one symbol and no more than there are, and
what it decides on an input it also decides on every longer one.

`parse` runs a framer for as long as it can, and `parse_induction` is the rule to use.
-/

/-- A resumable parser from `α`s to `β`s with states `σ`. -/
structure Framer (σ α β : Type) where
  /-- How many symbols to take, what to put out, and the next state. -/
  frame : σ → List α → Option (Nat × List β × σ)
  bounds : ∀ {s xs n o s'}, frame s xs = some (n, o, s') → 0 < n ∧ n ≤ xs.length
  stable : ∀ {s xs r} (ys : List α), frame s xs = some r → frame s (xs ++ ys) = some r

namespace Framer

variable {σ α β : Type} (F : Framer σ α β)

/-- Frame until the framer waits: what was put out, the state, the input left. -/
def parse (s : σ) (xs : List α) : List β × σ × List α :=
  match _hf : F.frame s xs with
  | none => ([], s, xs)
  | some (n, o, s') => (o ++ (parse s' (xs.drop n)).1, (parse s' (xs.drop n)).2)
termination_by xs.length
decreasing_by
  all_goals
    have hb := F.bounds _hf
    rw [List.length_drop]
    omega

variable {F}

theorem parse_none {s : σ} {xs : List α} (h : F.frame s xs = none) :
    F.parse s xs = ([], s, xs) := by
  rw [parse]
  split
  · rfl
  · next hs => rw [h] at hs; cases hs

theorem parse_some {s s' : σ} {xs : List α} {n : Nat} {o : List β}
    (h : F.frame s xs = some (n, o, s')) :
    F.parse s xs = (o ++ (F.parse s' (xs.drop n)).1, (F.parse s' (xs.drop n)).2) := by
  rw [parse]
  split
  · next hs => rw [h] at hs; cases hs
  · next hs =>
      rw [h] at hs
      cases hs
      rfl

/-- Induction along a parse: the framer waits, or takes one step and goes on. -/
theorem parse_induction {motive : σ → List α → Prop}
    (wait : ∀ s xs, F.frame s xs = none → motive s xs)
    (take : ∀ s xs n o s', F.frame s xs = some (n, o, s') → motive s' (xs.drop n) → motive s xs)
    (s : σ) (xs : List α) : motive s xs := by
  induction hlen : xs.length using Nat.strongRecOn generalizing s xs with
  | ind k ih =>
      cases hf : F.frame s xs with
      | none => exact wait s xs hf
      | some r =>
          obtain ⟨n, o, s'⟩ := r
          have hb := F.bounds hf
          refine take s xs n o s' hf (ih (xs.drop n).length ?_ s' _ rfl)
          rw [List.length_drop]
          omega

end Framer
