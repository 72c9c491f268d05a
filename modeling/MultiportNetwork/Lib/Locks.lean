import Mathlib.Data.Finset.Max
import Mathlib.Data.List.Nodup
import Mathlib.Logic.Function.Basic

/-!
# Locks

Locks are flags, and a thread knows which ones it has set. `Exclusive` says that the flags that
are set are those of the threads, each of one thread. If every thread waits for locks that come
behind those it has, in some order, then not all threads can be waiting for each other
(`Exclusive.exists_unblocked`).
-/

universe u v w

variable {ι : Type u} {κ : Type v}

/-- The flags that are set are the locks that threads hold, and no lock has two holders. -/
structure Exclusive (locked : κ → Bool) (held : ι → List κ) : Prop where
  flags : ∀ x, locked x = true ↔ ∃ i, x ∈ held i
  apart : ∀ {i j x}, x ∈ held i → x ∈ held j → i = j
  nodup : ∀ i, (held i).Nodup

namespace Exclusive

variable {locked : κ → Bool} {held : ι → List κ} {i j : ι} {x : κ}

theorem start : Exclusive (fun _ : κ => false) (fun _ : ι => []) := by
  refine ⟨fun x => ?_, fun h _ => absurd h List.not_mem_nil, fun _ => List.nodup_nil⟩
  constructor
  · intro h
    cases h
  · intro h
    obtain ⟨_, h⟩ := h
    cases h

theorem not_mem (h : Exclusive locked held) (hx : locked x = false) (i : ι) : x ∉ held i := by
  intro hmem
  rw [(h.flags x).mpr ⟨i, hmem⟩] at hx
  cases hx

variable [DecidableEq κ] [BEq κ] [LawfulBEq κ] [DecidableEq ι]

omit [DecidableEq κ] in
/-- **Free locks are taken**, all at once. -/
theorem take (h : Exclusive locked held) {xs : List κ} (hfree : ∀ x ∈ xs, locked x = false)
    (hnodup : xs.Nodup) : Exclusive (fun x => locked x || decide (x ∈ xs))
      (Function.update held i (xs ++ held i)) := by
  have hmem : ∀ x j, x ∈ Function.update held i (xs ++ held i) j ↔
      x ∈ held j ∨ (j = i ∧ x ∈ xs) := by
    intro x j
    by_cases hj : j = i
    · subst hj
      rw [Function.update_self, List.mem_append, or_comm]
      simp only [true_and]
    · rw [Function.update_of_ne hj]
      simp only [hj, false_and, or_false]
  refine ⟨fun x => ?_, fun {j k x} hj hk => ?_, fun j => ?_⟩
  · rw [Bool.or_eq_true, decide_eq_true_iff, h.flags]
    simp only [hmem]
    constructor
    · intro hx
      rcases hx with ⟨j, hj⟩ | hx
      · exact ⟨j, .inl hj⟩
      · exact ⟨i, .inr ⟨rfl, hx⟩⟩
    · intro hx
      obtain ⟨j, hj | ⟨-, hx⟩⟩ := hx
      · exact .inl ⟨j, hj⟩
      · exact .inr hx
  · rw [hmem] at hj hk
    rcases hj with hj | ⟨rfl, hx⟩
    · rcases hk with hk | ⟨-, hx⟩
      · exact h.apart hj hk
      · exact absurd hj (h.not_mem (hfree x hx) j)
    · rcases hk with hk | ⟨rfl, -⟩
      · exact absurd hk (h.not_mem (hfree x hx) k)
      · rfl
  · by_cases hj : j = i
    · subst hj
      rw [Function.update_self]
      exact hnodup.append (h.nodup j) fun x hx => h.not_mem (hfree x hx) j
    · rw [Function.update_of_ne hj]
      exact h.nodup j

/-- **A lock is released** by the thread that holds it. -/
theorem drop (h : Exclusive locked held) (hx : x ∈ held i) :
    Exclusive (Function.update locked x false)
      (Function.update held i ((held i).erase x)) := by
  have hmem : ∀ y j, y ∈ Function.update held i ((held i).erase x) j ↔ y ∈ held j ∧ y ≠ x := by
    intro y j
    by_cases hj : j = i
    · subst hj
      rw [Function.update_self, (h.nodup j).mem_erase_iff, and_comm]
    · rw [Function.update_of_ne hj]
      exact ⟨fun hy => ⟨hy, fun heq => hj (h.apart hy (heq ▸ hx))⟩, fun hy => hy.1⟩
  refine ⟨fun y => ?_, fun hj hk => h.apart ((hmem _ _).mp hj).1 ((hmem _ _).mp hk).1,
    fun j => ?_⟩
  · simp only [hmem]
    by_cases hy : y = x
    · subst hy
      simp
    · rw [Function.update_of_ne hy, h.flags]
      simp only [hy, ne_eq, not_false_eq_true, and_true]
  · by_cases hj : j = i
    · subst hj
      rw [Function.update_self]
      exact (h.nodup j).erase x
    · rw [Function.update_of_ne hj]
      exact h.nodup j

omit [DecidableEq κ] [BEq κ] [LawfulBEq κ] [DecidableEq ι] in
/-- **No deadlock.** Where threads want only locks behind those they have, and of finitely many,
some thread that has or wants a lock is not waiting for one that is taken. -/
theorem exists_unblocked {α : Type w} [LinearOrder α] {rank : κ → α} (h : Exclusive locked held)
    {wants : ι → Option κ} (bound : Finset κ) (hbound : ∀ {i x}, wants i = some x → x ∈ bound)
    (horder : ∀ {i x}, wants i = some x → ∀ y ∈ held i, rank y < rank x) (i : ι) :
    ∃ j, (wants j = none ∧ (j = i ∨ held j ≠ [])) ∨
      ∃ x, wants j = some x ∧ locked x = false := by
  classical
  cases hi : wants i with
  | none => exact ⟨i, .inl ⟨hi, .inl rfl⟩⟩
  | some x₀ =>
      -- of all locks that are wanted, the last one in the order
      obtain ⟨x, hx, hmax⟩ := (bound.filter fun x => ∃ j, wants j = some x).exists_max_image rank
        ⟨x₀, Finset.mem_filter.mpr ⟨hbound hi, i, hi⟩⟩
      obtain ⟨-, j, hj⟩ := Finset.mem_filter.mp hx
      cases hlocked : locked x with
      | false => exact ⟨j, .inr ⟨x, hj, hlocked⟩⟩
      | true =>
          obtain ⟨k, hk⟩ := (h.flags x).mp hlocked
          cases hwants : wants k with
          | none => exact ⟨k, .inl ⟨hwants, .inr (List.ne_nil_of_mem hk)⟩⟩
          | some y =>
              have hle := hmax y (Finset.mem_filter.mpr ⟨hbound hwants, k, hwants⟩)
              exact absurd (horder hwants x hk) (not_lt.mpr hle)

end Exclusive
