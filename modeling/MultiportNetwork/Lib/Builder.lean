import Mathlib.Data.List.Basic
import Mathlib.Tactic.Common

/-!
# Builders

For loops that fill chunks of `n` elements, close a chunk when it is full, and may
fail on the way: the full chunks of a list and what is left behind them, how both
change with one more element, and the rule for a loop whose body may fail.
-/

universe u v

namespace Builder

variable {α : Type u} {n : Nat}

/-! ### Full chunks -/

/-- The full chunks of `n` elements, front to back. -/
def full (n : Nat) (l : List α) : List (List α) :=
  (List.range (l.length / n)).map fun j => (l.drop (j * n)).take n

/-- The elements behind the last full chunk. -/
def rest (n : Nat) (l : List α) : List α := l.drop (l.length / n * n)

@[simp] theorem length_full (n : Nat) (l : List α) : (full n l).length = l.length / n := by
  simp [full]

theorem length_rest (n : Nat) (l : List α) : (rest n l).length = l.length % n := by
  rw [rest, List.length_drop, Nat.mod_def, Nat.mul_comm]

theorem getElem_full {l : List α} {j : Nat} (h : j < (full n l).length) :
    (full n l)[j] = (l.drop (j * n)).take n := by
  simp [full]

@[simp] theorem full_nil (n : Nat) : full n ([] : List α) = [] := by simp [full]
@[simp] theorem rest_nil (n : Nat) : rest n ([] : List α) = [] := by simp [rest]

/-- Chunk `j` ends within the list. -/
theorem chunk_le {l : List α} {j : Nat} (h : j < l.length / n) : j * n + n ≤ l.length := by
  have hle : (j + 1) * n ≤ l.length / n * n := Nat.mul_le_mul_right n h
  have hdiv := Nat.div_mul_le_self l.length n
  rw [Nat.add_mul, Nat.one_mul] at hle
  omega

theorem length_of_mem_full {l c : List α} (hc : c ∈ full n l) : c.length = n := by
  simp only [full, List.mem_map, List.mem_range] at hc
  obtain ⟨j, hj, rfl⟩ := hc
  have hle := chunk_le hj
  simp only [List.length_take, List.length_drop]
  omega

/-- The chunks and the rest are the list. -/
theorem flatten_full (n : Nat) (l : List α) :
    (full n l).flatten = l.take (l.length / n * n) := by
  have hall : ∀ k, k ≤ l.length / n →
      ((List.range k).map fun j => (l.drop (j * n)).take n).flatten = l.take (k * n) := by
    intro k
    induction k with
    | zero => simp
    | succ k ih =>
        intro hk
        rw [List.range_succ, List.map_append, List.flatten_append, ih (Nat.le_of_succ_le hk),
          Nat.add_mul, Nat.one_mul, List.take_add]
        simp
  exact hall _ (Nat.le_refl _)

/-- One more element. -/
theorem drop_take_concat {l : List α} {x : α} {j : Nat} (h : j < l.length / n) :
    ((l ++ [x]).drop (j * n)).take n = (l.drop (j * n)).take n := by
  have hle := chunk_le h
  rw [List.drop_append_of_le_length (by omega), List.take_append_of_le_length]
  rw [List.length_drop]
  omega

/-- An element that does not fill the chunk at hand. -/
theorem concat_of_lt {l : List α} {x : α} (h : (rest n l).length + 1 < n) :
    full n (l ++ [x]) = full n l ∧ rest n (l ++ [x]) = rest n l ++ [x] := by
  rw [length_rest] at h
  have hdiv : (l ++ [x]).length / n = l.length / n := by
    rw [List.length_append, List.length_singleton]
    refine Nat.div_eq_of_lt_le ?_ ?_
    · have := Nat.div_mul_le_self l.length n
      omega
    · have hmod := Nat.div_add_mod l.length n
      rw [Nat.mul_comm] at hmod
      rw [Nat.add_mul]
      omega
  constructor
  · rw [full, full, hdiv]
    exact List.map_congr_left fun j hj => drop_take_concat (List.mem_range.mp hj)
  · rw [rest, rest, hdiv, List.drop_append_of_le_length (Nat.div_mul_le_self _ _)]

/-- An element that fills it. -/
theorem concat_of_eq {l : List α} {x : α} (hn : 0 < n) (h : (rest n l).length + 1 = n) :
    full n (l ++ [x]) = full n l ++ [rest n l ++ [x]] ∧ rest n (l ++ [x]) = [] := by
  have hlen := h
  rw [length_rest] at hlen
  have hmod := Nat.div_add_mod l.length n
  rw [Nat.mul_comm] at hmod
  have hdiv : (l ++ [x]).length / n = l.length / n + 1 := by
    rw [List.length_append, List.length_singleton]
    refine Nat.div_eq_of_lt_le ?_ ?_
    · rw [Nat.add_mul]
      omega
    · rw [Nat.add_mul, Nat.add_mul]
      omega
  constructor
  · rw [full, hdiv, List.range_succ, List.map_append, List.map_singleton, full]
    congr 1
    · exact List.map_congr_left fun j hj => drop_take_concat (List.mem_range.mp hj)
    · rw [List.drop_append_of_le_length (Nat.div_mul_le_self _ _), List.take_of_length_le]
      · rfl
      · rw [List.length_append, List.length_singleton]
        exact Nat.le_of_eq h
  · rw [rest, hdiv, List.drop_eq_nil_iff, List.length_append, List.length_singleton, Nat.add_mul]
    omega

/-! ### Loops that may fail -/

/-- **The rule for loops**: what holds before the first element, and is kept by the body
for every element of the list, where the body then does not fail, holds after the last. -/
theorem foldlM_ok {σ : Type v} {ε : Type v} {f : σ → α → Except ε σ} {I : List α → σ → Prop}
    {l : List α} {s : σ}
    (hstep : ∀ done a post s, l = done ++ a :: post → I done s →
      ∃ s', f s a = .ok s' ∧ I (done ++ [a]) s')
    (h : I [] s) : ∃ s', l.foldlM f s = .ok s' ∧ I l s' := by
  have hfrom : ∀ (post done : List α) (s : σ), l = done ++ post → I done s →
      ∃ s', post.foldlM f s = .ok s' ∧ I l s' := by
    intro post
    induction post with
    | nil =>
        intro done s hl h
        rw [hl, List.append_nil]
        exact ⟨s, rfl, h⟩
    | cons a post ih =>
        intro done s hl h
        obtain ⟨s', hs', h'⟩ := hstep done a post s hl h
        obtain ⟨s'', hs'', h''⟩ := ih (done ++ [a]) s' (by simpa using hl) h'
        refine ⟨s'', ?_, h''⟩
        rw [List.foldlM_cons, hs']
        exact hs''
  exact hfrom l [] s rfl h

/-- **The rule for loops that have not failed.** -/
theorem foldlM_inv {σ : Type v} {ε : Type v} {f : σ → α → Except ε σ} {I : List α → σ → Prop}
    {l : List α} {s s' : σ}
    (hstep : ∀ done a s s', I done s → f s a = .ok s' → I (done ++ [a]) s')
    (h : I [] s) (hl : l.foldlM f s = .ok s') : I l s' := by
  have hfrom : ∀ (post done : List α) (s : σ), I done s → post.foldlM f s = .ok s' →
      I (done ++ post) s' := by
    intro post
    induction post with
    | nil =>
        intro done s h hl
        obtain rfl : s = s' := Except.ok.inj hl
        rwa [List.append_nil]
    | cons a post ih =>
        intro done s h hl
        rw [List.foldlM_cons] at hl
        cases ha : f s a with
        | error e => rw [ha] at hl; cases hl
        | ok t =>
            rw [ha] at hl
            have hI := ih (done ++ [a]) t (hstep done a s t h ha) hl
            rwa [List.append_assoc] at hI
  exact hfrom l [] s h hl

end Builder
