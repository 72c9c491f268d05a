import MultiportNetwork.Lib.Run
import Mathlib.Data.List.Basic
import Mathlib.Logic.Function.Basic
import Mathlib.Tactic.Common

/-!
# Interleaved components

A system of components that share some state. One component acts at a time, on
its own state and on the shared one; the events it emits are logged under its
name. Which component acts next is left open, so a run is any interleaving.

`Interleaved.relate` is the rule to use: what a component knows of its own events, its
own state and the shared one holds along every run, if its own acts preserve it
and the acts of the others do. `Splits` says of every event of a log something
that may refer to the log before it.
-/

universe u v w x

/-- The components' own states, and the state they share. -/
structure Interleaved (ι : Type u) (σ : Type v) (μ : Type w) where
  parts : ι → σ
  shared : μ

namespace Interleaved

variable {ι : Type u} {σ : Type v} {μ : Type w} {ε : Type x} [DecidableEq ι]
variable (act : σ → μ → List ε → σ → μ → Prop)

/-- Component `i` acts. -/
inductive Acts (i : ι) : Interleaved ι σ μ → List (ι × ε) → Interleaved ι σ μ → Prop
  | intro {S : Interleaved ι σ μ} {ev : List ε} {p : σ} {m : μ}
      (h : act (S.parts i) S.shared ev p m) :
      Acts i S (ev.map (i, ·)) ⟨Function.update S.parts i p, m⟩

/-- Some component acts. -/
def Step (S : Interleaved ι σ μ) (log : List (ι × ε)) (S' : Interleaved ι σ μ) : Prop :=
  ∃ i, Acts act i S log S'

/-- The events of component `i`. -/
def own (i : ι) (log : List (ι × ε)) : List ε :=
  log.filterMap fun e => if e.1 = i then some e.2 else none

variable {act}

@[simp] theorem own_nil (i : ι) : own i ([] : List (ι × ε)) = [] := rfl

@[simp] theorem own_append (i : ι) (a b : List (ι × ε)) : own i (a ++ b) = own i a ++ own i b := by
  simp [own]

@[simp] theorem own_tag (i : ι) (ev : List ε) : own i (ev.map (i, ·)) = ev := by
  rw [own, List.filterMap_map]
  exact (List.filterMap_congr fun e _ => if_pos rfl).trans List.filterMap_some

theorem own_tag_of_ne {i j : ι} (h : i ≠ j) (ev : List ε) : own j (ev.map (i, ·)) = [] := by
  refine List.filterMap_eq_nil_iff.mpr fun e he => ?_
  obtain ⟨x, -, rfl⟩ := List.mem_map.mp he
  exact if_neg h

/-- An event of the log is one of its component. -/
theorem mem_own {i : ι} {e : ε} {log : List (ι × ε)} (h : (i, e) ∈ log) : e ∈ own i log :=
  List.mem_filterMap.mpr ⟨(i, e), h, if_pos rfl⟩

theorem Acts.step {i : ι} {S S' : Interleaved ι σ μ} {log : List (ι × ε)}
    (h : Acts act i S log S') : Step act S log S' := ⟨i, h⟩

/-- Nobody else's own state is touched. -/
theorem Acts.parts_of_ne {i j : ι} {S S' : Interleaved ι σ μ} {log : List (ι × ε)}
    (h : Acts act i S log S') (hne : j ≠ i) : S'.parts j = S.parts j := by
  cases h
  exact Function.update_of_ne hne _ _

/-- **Rely and guarantee.** `R i tr p m` relates the events `i` has emitted to its own
state and the shared one. It holds along every run if it holds at the start and `i`'s
own acts preserve it, and if the acts of others, who know as much of themselves, leave
it alone. -/
theorem relate {R : ι → List ε → σ → μ → Prop} {S S' : Interleaved ι σ μ} {log : List (ι × ε)}
    (h₀ : ∀ i, R i [] (S.parts i) S.shared)
    (hown : ∀ {i tr p m ev p' m'}, R i tr p m → act p m ev p' m' → R i (tr ++ ev) p' m')
    (hother : ∀ {i j tr tr' p q m ev p' m'}, i ≠ j → R i tr p m → R j tr' q m →
      act p m ev p' m' → R j tr' q m')
    (hr : Run (Step act) S log S') : ∀ i, R i (own i log) (S'.parts i) S'.shared := by
  refine hr.relate (R := fun (log : List (ι × ε)) (S' : Interleaved ι σ μ) =>
    ∀ i, R i (own i log) (S'.parts i) S'.shared) h₀ ?_
  rintro log A ev B hR ⟨i, hs⟩ j
  cases hs with
  | @intro ev p m hact =>
      simp only [own_append]
      by_cases hij : i = j
      · subst hij
        rw [own_tag, Function.update_self]
        exact hown (hR i) hact
      · rw [own_tag_of_ne hij, List.append_nil, Function.update_of_ne (Ne.symm hij)]
        exact hother hij (hR i) (hR j) hact

/-- The system as it looks with components and shared state abstracted. -/
def map {σ' : Type v} {μ' : Type w} (f : σ → σ') (g : μ → μ') (S : Interleaved ι σ μ) :
    Interleaved ι σ' μ' :=
  ⟨fun i => f (S.parts i), g S.shared⟩

theorem map_update {σ' : Type v} {μ' : Type w} (f : σ → σ') (g : μ → μ')
    (S : Interleaved ι σ μ) (i : ι) (p : σ) (m : μ) :
    map f g ⟨Function.update S.parts i p, m⟩ =
      ⟨Function.update (map f g S).parts i (f p), g m⟩ := by
  rw [map]
  congr 1
  funext j
  exact Function.apply_update (fun _ => f) S.parts i p j

/-- **Refinement.** Where every act is an act of the abstract system, or nothing at all there,
every run is a run of the abstract system. -/
theorem refines {σ' : Type v} {μ' : Type w} {f : σ → σ'} {g : μ → μ'}
    {act' : σ' → μ' → List ε → σ' → μ' → Prop}
    (hact : ∀ {p m ev p' m'}, act p m ev p' m' →
      (ev = [] ∧ f p' = f p ∧ g m' = g m) ∨ act' (f p) (g m) ev (f p') (g m'))
    {S S' : Interleaved ι σ μ} {log : List (ι × ε)} (hr : Run (Step act) S log S') :
    Run (Step act') (map f g S) log (map f g S') := by
  induction hr with
  | refl => exact .refl _
  | @snoc A B tr ev _ hs ih =>
      obtain ⟨i, hs⟩ := hs
      cases hs with
      | @intro ev p m h =>
          rw [map_update]
          rcases hact h with ⟨rfl, hp, hm⟩ | h'
          · have hsame : f p = (map f g A).parts i := hp
            rw [hsame, hm, Function.update_eq_self, List.map_nil, List.append_nil]
            exact ih
          · exact ih.snoc ⟨i, .intro h'⟩

/-- A component's act, with nobody else in sight. -/
def Alone (act : σ → μ → List ε → σ → μ → Prop) (a : σ × μ) (ev : List ε) (b : σ × μ) : Prop :=
  act a.1 a.2 ev b.1 b.2

/-- **What a component does alone** it does in the system, while the others pause. -/
theorem run_alone {S : Interleaved ι σ μ} {i : ι} {tr : List ε} {b : σ × μ}
    (h : Run (Alone act) (S.parts i, S.shared) tr b) :
    Run (Step act) S (tr.map (i, ·)) ⟨Function.update S.parts i b.1, b.2⟩ := by
  induction h with
  | refl =>
      rw [Function.update_eq_self]
      exact .refl S
  | @snoc b c tr ev hr hs ih =>
      have hact : act ((⟨Function.update S.parts i b.1, b.2⟩ : Interleaved ι σ μ).parts i) b.2 ev
          c.1 c.2 := by
        simp only [Function.update_self]
        exact hs
      have hrun := ih.snoc (Acts.step (.intro hact))
      rwa [Function.update_idem, ← List.map_append] at hrun

/-! ### Schedules -/

section
variable {κ : Type v} (exec : σ → μ → κ → Option (List ε × σ × μ))

/-- Follow a schedule as far as it is possible, after what has been logged so far. -/
def playFrom (S : Interleaved ι σ μ) (log : List (ι × ε)) :
    List (ι × κ) → Interleaved ι σ μ × List (ι × ε)
  | [] => (S, log)
  | (i, k) :: ks =>
    match exec (S.parts i) S.shared k with
    | none => (S, log)
    | some (ev, p, m) => playFrom ⟨Function.update S.parts i p, m⟩ (log ++ ev.map (i, ·)) ks

/-- The system a schedule leads to and its log. -/
def play (S : Interleaved ι σ μ) (ks : List (ι × κ)) : Interleaved ι σ μ × List (ι × ε) :=
  playFrom exec S [] ks

variable {exec}

/-- What is played is a run of any relation that has the acts of the schedule. -/
theorem play_within {step : Interleaved ι σ μ → List (ι × ε) → Interleaved ι σ μ → Prop}
    (hexec : ∀ p m k ev p' m', exec p m k = some (ev, p', m') → act p m ev p' m')
    (S : Interleaved ι σ μ) (ks : List (ι × κ))
    (hstep : ∀ k ∈ ks, ∀ A log B, Acts act k.1 A log B → step A log B) :
    Run step S (play exec S ks).2 (play exec S ks).1 := by
  have hfrom : ∀ (ks : List (ι × κ)) {T : Interleaved ι σ μ} {log : List (ι × ε)},
      (∀ k ∈ ks, ∀ A log B, Acts act k.1 A log B → step A log B) → Run step S log T →
        Run step S (playFrom exec T log ks).2 (playFrom exec T log ks).1 := by
    intro ks
    induction ks with
    | nil => exact fun _ h => h
    | cons k ks ih =>
        intro T log hstep h
        obtain ⟨i, k⟩ := k
        simp only [playFrom]
        split
        · exact h
        next hk =>
          refine ih (fun k hk => hstep k (List.mem_cons_of_mem _ hk)) (h.snoc ?_)
          exact hstep _ List.mem_cons_self _ _ _ (.intro (hexec _ _ _ _ _ _ hk))
  exact hfrom ks hstep (.refl S)

/-- **What is played is a run.** -/
theorem play_run (hexec : ∀ p m k ev p' m', exec p m k = some (ev, p', m') → act p m ev p' m')
    (S : Interleaved ι σ μ) (ks : List (ι × κ)) :
    Run (Step act) S (play exec S ks).2 (play exec S ks).1 :=
  play_within hexec S ks fun _ _ _ _ _ h => h.step

/-- What one component plays is a run of its own. -/
theorem play_acts (hexec : ∀ p m k ev p' m', exec p m k = some (ev, p', m') → act p m ev p' m')
    (S : Interleaved ι σ μ) (i : ι) (ks : List κ) :
    Run (Acts act i) S (play exec S (ks.map (i, ·))).2 (play exec S (ks.map (i, ·))).1 := by
  refine play_within hexec S _ fun k hk _ _ _ h => ?_
  obtain ⟨x, -, rfl⟩ := List.mem_map.mp hk
  exact h

end

end Interleaved

/-! ### Logs -/

/-- Every event of a log is, with what came before it, as `P` says. -/
def Splits {α : Type u} (P : List α → α → Prop) (l : List α) : Prop :=
  ∀ pre x post, l = pre ++ x :: post → P pre x

namespace Splits

variable {α : Type u} {P : List α → α → Prop}

theorem nil : Splits P [] := fun pre x post h => by simp at h

theorem append {a b : List α} (ha : Splits P a) (hb : Splits (fun pre => P (a ++ pre)) b) :
    Splits P (a ++ b) := by
  intro pre x post h
  rcases List.append_eq_append_iff.mp h with ⟨c, hpre, hb'⟩ | ⟨c, ha', hpost⟩
  · rw [hpre]
    exact hb c x post hb'
  · cases c with
    | nil =>
        rw [List.append_nil] at ha'
        subst ha'
        simpa using hb [] x post hpost.symm
    | cons y c =>
        obtain ⟨rfl, -⟩ := List.cons.inj hpost
        exact ha pre x c ha'

theorem singleton {x : α} (h : P [] x) : Splits P [x] := by
  intro pre y post heq
  cases pre with
  | nil =>
      obtain ⟨rfl, -⟩ := List.cons.inj heq
      exact h
  | cons z pre => simp at heq

end Splits
