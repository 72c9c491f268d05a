import Mathlib.Logic.Function.Basic
import Mathlib.Tactic.Common

/-!
# Maps kept in cells

A finite map laid out over cells: a cell is empty or holds an entry, and an entry has a
key and a value. `Represents` says which map the cells stand for, `Distinct` that no key is
in two of them. Entries may be written to free cells, overwritten and removed, which changes
the map at one key; and they may be carried to other cells (`Relocates`), which changes
nothing at all.
-/

universe u v w x

/-- Cells named by `α`, with entries of type `ε` in some of them. -/
abbrev Cells (α : Type u) (ε : Type v) := α → Option ε

namespace Cells

variable {α : Type u} {β : Type u} {ε : Type v} {κ : Type w} {ν : Type x}
variable (key : ε → κ) (val : ε → ν)

/-- No two cells hold entries for one key. -/
def Distinct (c : Cells α ε) : Prop :=
  ∀ p q e e', c p = some e → c q = some e' → key e = key e' → p = q

/-- The map the cells stand for. -/
def Represents (c : Cells α ε) (A : κ → Option ν) : Prop :=
  ∀ k v, A k = some v ↔ ∃ p e, c p = some e ∧ key e = k ∧ val e = v

/-- The entries of `c` are in `c'`, each in the cell `f` says, and nothing else is. -/
structure Relocates (f : α → β) (c : Cells α ε) (c' : Cells β ε) : Prop where
  kept : ∀ p e, c p = some e → c' (f p) = some e
  only : ∀ q e, c' q = some e → ∃ p, c p = some e ∧ f p = q

variable {key val} {c : Cells α ε} {c' : Cells β ε} {A : κ → Option ν} {p : α} {e : ε} {k : κ}

theorem Represents.get (h : Represents key val c A) (hp : c p = some e) :
    A (key e) = some (val e) :=
  (h _ _).mpr ⟨p, e, hp, rfl, rfl⟩

theorem Represents.none_iff (h : Represents key val c A) :
    A k = none ↔ ∀ p e, c p = some e → key e ≠ k := by
  rw [Option.eq_none_iff_forall_ne_some]
  constructor
  · rintro hnone p e hp rfl
    exact hnone _ (h.get hp)
  · intro hfree v hv
    obtain ⟨p, e, hp, hkey, -⟩ := (h k v).mp hv
    exact hfree p e hp hkey

theorem Represents.unique {B : κ → Option ν} (h : Represents key val c A)
    (h' : Represents key val c B) : A = B := by
  funext k
  apply Option.ext
  intro v
  rw [h k v, h' k v]

/-! ### Carrying entries to other cells -/

theorem Relocates.distinct {f : α → β} (h : Relocates f c c') (hc : Distinct key c) :
    Distinct key c' := by
  intro q q' e e' hq hq' hkey
  obtain ⟨p, hp, rfl⟩ := h.only q e hq
  obtain ⟨p', hp', rfl⟩ := h.only q' e' hq'
  rw [hc p p' e e' hp hp' hkey]

/-- **Where the entries are does not matter.** -/
theorem Relocates.represents {f : α → β} (h : Relocates f c c') (hc : Represents key val c A) :
    Represents key val c' A := by
  intro k v
  rw [hc k v]
  constructor
  · rintro ⟨p, e, hp, hkey, hval⟩
    exact ⟨f p, e, h.kept p e hp, hkey, hval⟩
  · rintro ⟨q, e, hq, hkey, hval⟩
    obtain ⟨p, hp, -⟩ := h.only q e hq
    exact ⟨p, e, hp, hkey, hval⟩

variable [DecidableEq α]

/-- What is in cell `p` is carried to cell `q`. -/
def carry (c : Cells α ε) (p q : α) : Cells α ε :=
  Function.update (Function.update c q (c p)) p none

/-- One entry after the other is carried to the cell that the one before it has left, the first
one to `q`. -/
def carryAlong (c : Cells α ε) : List α → α → Cells α ε
  | [], _ => c
  | p :: ps, q => carryAlong (c.carry p q) ps p

@[simp] theorem carry_self (c : Cells α ε) (p q : α) : c.carry p q p = none :=
  Function.update_self ..

/-- The cells that nothing is carried from or to are as they were. -/
theorem carry_of_ne {q r : α} (hp : r ≠ p) (hq : r ≠ q) : c.carry p q r = c r := by
  rw [carry, Function.update_of_ne hp, Function.update_of_ne hq]

/-- One entry is carried to a free cell. -/
theorem Relocates.move {q : α} (hp : c p = some e) (hq : c q = none) :
    Relocates (fun r => if r = p then q else r) c (c.carry p q) := by
  have hne : p ≠ q := fun heq => by simp [heq, hq] at hp
  rw [carry, hp]
  constructor
  · intro r e' hr
    by_cases hrp : r = p
    · subst hrp
      rw [if_pos rfl, Function.update_of_ne hne.symm, Function.update_self, ← hp, hr]
    · have hrq : r ≠ q := fun heq => by simp [heq, hq] at hr
      rw [if_neg hrp, Function.update_of_ne hrp, Function.update_of_ne hrq, hr]
  · intro r e' hr
    by_cases hrp : r = p
    · simp [hrp] at hr
    rw [Function.update_of_ne hrp] at hr
    by_cases hrq : r = q
    · subst hrq
      rw [Function.update_self] at hr
      exact ⟨p, hr ▸ hp, if_pos rfl⟩
    · rw [Function.update_of_ne hrq] at hr
      exact ⟨r, hr, if_neg hrp⟩

/-! ### Writing one cell -/

theorem Distinct.insert (h : Distinct key c) (hfree : ∀ q e', c q = some e' → key e' ≠ key e) :
    Distinct key (Function.update c p (some e)) := by
  intro q q' d d' hq hq' hkey
  rw [Function.update_apply] at hq hq'
  split at hq <;> split at hq'
  next hqp hqp' => rw [hqp, hqp']
  next hqp hqp' =>
    cases hq
    exact absurd hkey.symm (hfree q' d' hq')
  next hqp hqp' =>
    cases hq'
    exact absurd hkey (hfree q d hq)
  next hqp hqp' => exact h q q' d d' hq hq' hkey

theorem Distinct.overwrite (h : Distinct key c) (hp : c p = some e) {o : Option ε}
    (ho : ∀ e' ∈ o, key e' = key e) : Distinct key (Function.update c p o) := by
  intro q q' d d' hq hq' heq
  rw [Function.update_apply] at hq hq'
  split at hq <;> split at hq'
  next hqp hqp' => rw [hqp, hqp']
  next hqp hqp' =>
    rw [hqp]
    exact h p q' e d' hp hq' ((ho d hq).symm.trans heq)
  next hqp hqp' =>
    rw [hqp']
    exact h q p d e hq hp (heq.trans (ho d' hq'))
  next hqp hqp' => exact h q q' d d' hq hq' heq

variable [DecidableEq κ]

/-- **An entry for a new key.** -/
theorem Represents.insert (h : Represents key val c A) (hp : c p = none)
    (hfree : A (key e) = none) :
    Represents key val (Function.update c p (some e))
      (Function.update A (key e) (some (val e))) := by
  have hold := h.none_iff.mp hfree
  intro k v
  by_cases hk : k = key e
  · subst hk
    rw [Function.update_self]
    constructor
    · intro hv
      exact ⟨p, e, Function.update_self .., rfl, Option.some.inj hv⟩
    · rintro ⟨q, d, hq, hkey, rfl⟩
      rw [Function.update_apply] at hq
      split at hq
      · rw [Option.some.inj hq]
      · exact absurd hkey (hold q d hq)
  · rw [Function.update_of_ne hk, h k v]
    constructor
    · rintro ⟨q, d, hq, hkey, hval⟩
      have hqp : q ≠ p := fun heq => by simp [heq, hp] at hq
      exact ⟨q, d, by rwa [Function.update_of_ne hqp], hkey, hval⟩
    · rintro ⟨q, d, hq, hkey, hval⟩
      rw [Function.update_apply] at hq
      split at hq
      · cases hq
        exact absurd hkey.symm hk
      · exact ⟨q, d, hq, hkey, hval⟩

/-- **A key gets another value, or goes.** -/
theorem Represents.overwrite (h : Represents key val c A) (hd : Distinct key c)
    (hp : c p = some e) {o : Option ε} (ho : ∀ e' ∈ o, key e' = key e) :
    Represents key val (Function.update c p o) (Function.update A (key e) (o.map val)) := by
  intro k v
  by_cases hk : k = key e
  · subst hk
    rw [Function.update_self, Option.map_eq_some_iff]
    constructor
    · rintro ⟨d, hd, rfl⟩
      exact ⟨p, d, by rw [Function.update_self, hd], ho d hd, rfl⟩
    · rintro ⟨q, d, hq, hdk, hval⟩
      rw [Function.update_apply] at hq
      split at hq
      · exact ⟨d, hq, hval⟩
      next hqp => exact absurd (hd q p d e hq hp hdk) hqp
  · rw [Function.update_of_ne hk, h k v]
    constructor
    · rintro ⟨q, d, hq, hdk, hval⟩
      have hqp : q ≠ p := by
        rintro rfl
        rw [hp] at hq
        cases hq
        exact hk hdk.symm
      exact ⟨q, d, by rwa [Function.update_of_ne hqp], hdk, hval⟩
    · rintro ⟨q, d, hq, hdk, hval⟩
      rw [Function.update_apply] at hq
      split at hq
      · exact absurd (hdk.symm.trans (ho d hq)) hk
      · exact ⟨q, d, hq, hdk, hval⟩

end Cells
