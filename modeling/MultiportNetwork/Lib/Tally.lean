import MultiportNetwork.Lib.Interleave
import Mathlib.Algebra.BigOperators.Group.Finset.Piecewise
import Mathlib.Algebra.Order.BigOperators.Group.Finset

/-!
# Tallies

What components come to together: each has a weight, a number or whatever can be added up, and
an act changes the sum as it changes the weight of the one that acts (`weigh_update`).
-/

universe u v w x

namespace Interleaved

variable {ι : Type u} {σ : Type v} {μ : Type w} {M : Type x} [Fintype ι]

/-- The weights of all components together. -/
def weigh [AddCommMonoid M] (f : σ → M) (S : Interleaved ι σ μ) : M := ∑ i, f (S.parts i)

/-- **What an act changes.** -/
theorem weigh_update [AddCommMonoid M] [DecidableEq ι] (f : σ → M) (S : Interleaved ι σ μ) (i : ι)
    (p : σ) (m : μ) :
    weigh f ⟨Function.update S.parts i p, m⟩ + f (S.parts i) = weigh f S + f p := by
  have hupdate : ∀ j, f (Function.update S.parts i p j) =
      Function.update (fun j => f (S.parts j)) i (f p) j :=
    fun j => Function.apply_update (fun _ => f) S.parts i p j
  have hnew : weigh f ⟨Function.update S.parts i p, m⟩ =
      f p + ∑ j ∈ Finset.univ \ {i}, f (S.parts j) := by
    simp only [weigh, hupdate]
    exact Finset.sum_update_of_mem (Finset.mem_univ i) _ _
  have hold : weigh f S = f (S.parts i) + ∑ j ∈ Finset.univ \ {i}, f (S.parts j) := by
    rw [weigh, Finset.sdiff_singleton_eq_erase]
    exact (Finset.add_sum_erase _ _ (Finset.mem_univ i)).symm
  rw [hnew, hold]
  ac_rfl

/-- There are no more components of some weight than the weights come to. -/
theorem card_le_weigh {f : σ → Nat} {S : Interleaved ι σ μ} {A : Finset ι}
    (h : ∀ i ∈ A, 1 ≤ f (S.parts i)) : A.card ≤ weigh f S := by
  calc A.card = ∑ _i ∈ A, 1 := Finset.card_eq_sum_ones A
    _ ≤ ∑ i ∈ A, f (S.parts i) := Finset.sum_le_sum h
    _ ≤ weigh f S := Finset.sum_le_sum_of_subset (Finset.subset_univ A)

/-- The weights come to no more than there are components of a weight, if this is one. -/
theorem weigh_le_card [DecidableEq ι] {f : σ → Nat} {S : Interleaved ι σ μ} {A : Finset ι}
    (h : ∀ i, f (S.parts i) ≤ if i ∈ A then 1 else 0) : weigh f S ≤ A.card := by
  calc weigh f S ≤ ∑ i, if i ∈ A then 1 else 0 := Finset.sum_le_sum fun i _ => h i
    _ = A.card := by rw [Finset.sum_ite_mem, Finset.univ_inter, Finset.card_eq_sum_ones]

theorem weigh_add [AddCommMonoid M] (f g : σ → M) (S : Interleaved ι σ μ) :
    weigh (fun p => f p + g p) S = weigh f S + weigh g S :=
  Finset.sum_add_distrib

end Interleaved
