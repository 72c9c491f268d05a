import Mathlib.Data.List.Basic
import Mathlib.Tactic.Common

/-!
# Level order

A tree given by its roots and the children of each node, and searched with a queue: the node
in front is taken out, and its children are put at the end. What has been taken out and what
is waiting are related by `LevelOrder`. It follows that whoever comes to a node has been at all
nodes of the levels above it (`LevelOrder.above`), and whoever finds the queue empty has been
everywhere (`LevelOrder.everywhere`).
-/

universe u

variable {ν : Type u}

/-- The nodes of the tree, with their level. -/
inductive InTree (roots : List ν) (children : ν → List ν) : Nat → ν → Prop
  | root {x : ν} (h : x ∈ roots) : InTree roots children 0 x
  | child {n : Nat} {x y : ν} (hx : InTree roots children n x) (hy : y ∈ children x) :
      InTree roots children (n + 1) y

/-- The nodes in `seen` have been taken out, those in `queue` are waiting. -/
structure LevelOrder (roots : List ν) (children : ν → List ν) (level : ν → Nat)
    (seen : ν → Prop) (queue : List ν) : Prop where
  entered : ∀ x ∈ roots, seen x ∨ x ∈ queue
  closed : ∀ x, seen x → ∀ y ∈ children x, seen y ∨ y ∈ queue
  inTree : ∀ x ∈ queue, InTree roots children (level x) x
  sorted : queue.Pairwise fun x y => level x ≤ level y
  window : ∀ x ∈ queue, ∀ y ∈ queue, level y ≤ level x + 1

namespace LevelOrder

variable {roots : List ν} {children : ν → List ν} {level : ν → Nat} {seen : ν → Prop}
  {queue : List ν} {x y : ν} {n : Nat}

theorem start (h : ∀ x ∈ roots, level x = 0) :
    LevelOrder roots children level (fun _ => False) roots where
  entered _ hx := .inr hx
  closed _ hx := hx.elim
  inTree x hx := by
    rw [h x hx]
    exact .root hx
  sorted := List.pairwise_of_forall_mem_list fun x hx y hy =>
    Nat.le_of_eq ((h x hx).trans (h y hy).symm)
  window x hx y hy := by
    rw [h y hy]
    exact Nat.zero_le _

/-- **One node is taken out**, and its children are put at the end. -/
theorem step (h : LevelOrder roots children level seen (x :: queue))
    (hlevel : ∀ y ∈ children x, level y = level x + 1) :
    LevelOrder roots children level (fun y => seen y ∨ y = x) (queue ++ children x) where
  entered y hy := by
    rcases h.entered y hy with hseen | hqueue
    · exact .inl (.inl hseen)
    rcases List.mem_cons.mp hqueue with rfl | hqueue
    · exact .inl (.inr rfl)
    · exact .inr (List.mem_append_left _ hqueue)
  closed y hy z hz := by
    rcases hy with hseen | rfl
    · rcases h.closed y hseen z hz with hseen | hqueue
      · exact .inl (.inl hseen)
      rcases List.mem_cons.mp hqueue with rfl | hqueue
      · exact .inl (.inr rfl)
      · exact .inr (List.mem_append_left _ hqueue)
    · exact .inr (List.mem_append_right _ hz)
  inTree y hy := by
    rcases List.mem_append.mp hy with hqueue | hchild
    · exact h.inTree y (List.mem_cons_of_mem _ hqueue)
    · rw [hlevel y hchild]
      exact .child (h.inTree x List.mem_cons_self) hchild
  sorted := by
    refine List.pairwise_append.mpr ⟨(List.pairwise_cons.mp h.sorted).2, ?_, ?_⟩
    · exact List.pairwise_of_forall_mem_list fun y hy z hz =>
        Nat.le_of_eq ((hlevel y hy).trans (hlevel z hz).symm)
    · intro y hy z hz
      rw [hlevel z hz]
      exact h.window x List.mem_cons_self y (List.mem_cons_of_mem _ hy)
  window y hy z hz := by
    have hfront := (List.pairwise_cons.mp h.sorted).1
    have hlow : level x ≤ level y := by
      rcases List.mem_append.mp hy with hy | hy
      · exact hfront y hy
      · rw [hlevel y hy]
        exact Nat.le_succ _
    have hhigh : level z ≤ level x + 1 := by
      rcases List.mem_append.mp hz with hz | hz
      · exact h.window x List.mem_cons_self z (List.mem_cons_of_mem _ hz)
      · exact Nat.le_of_eq (hlevel z hz)
    omega

/-- **All nodes above the one in front have been taken out.** -/
theorem above (h : LevelOrder roots children level seen (x :: queue))
    (hlevel : ∀ n y, InTree roots children n y → level y = n) (hy : InTree roots children n y)
    (hn : n < level x) : seen y := by
  have hwaiting : ∀ y ∈ x :: queue, level x ≤ level y := by
    intro y hy
    rcases List.mem_cons.mp hy with rfl | hy
    · exact Nat.le_refl _
    · exact (List.pairwise_cons.mp h.sorted).1 y hy
  induction hy with
  | @root y hroot =>
      refine (h.entered y hroot).resolve_right fun hqueue => ?_
      have hle := hwaiting y hqueue
      rw [hlevel 0 y (.root hroot)] at hle
      omega
  | @child n z y hz hchild ih =>
      refine (h.closed z (ih (by omega)) y hchild).resolve_right fun hqueue => ?_
      have hle := hwaiting y hqueue
      rw [hlevel (n + 1) y (.child hz hchild)] at hle
      omega

/-- **With the queue empty all nodes have been taken out.** -/
theorem everywhere (h : LevelOrder roots children level seen [])
    (hy : InTree roots children n y) : seen y := by
  induction hy with
  | @root y hroot => exact (h.entered y hroot).resolve_right List.not_mem_nil
  | @child n z y _ hchild ih => exact (h.closed z ih y hchild).resolve_right List.not_mem_nil

end LevelOrder
