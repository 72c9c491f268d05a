import MultiportNetwork.Lib.Interleave
import Mathlib.Logic.Relation

/-!
# Operations in several steps

Threads call operations of an object they share. An operation goes through places, one step
after the other, with steps of other threads in between, and comes back with a result or an
exception. If what the object stands for is changed only by the step an operation returns by,
and by this as the operation would change it alone (`Implements`), then every run is
as good as one in which operations are done at once, one after the other (`Implements.run`).
-/

universe u v w x y z

/-- What a step of an operation comes to: another place, a result or an exception. -/
inductive Outcome (π : Type u) (ρ : Type v) (χ : Type w)
  | at (p : π)
  | returned (r : ρ)
  | threw (e : χ)
  deriving Repr, DecidableEq

/-- What can be seen of the operations of a thread. -/
inductive OpEvent (ο : Type u) (ρ : Type v) (χ : Type w)
  | called (o : ο)
  | returned (o : ο) (r : ρ)
  | threw (o : ο) (e : χ)

section
variable {ο : Type u} {π : Type v} {ρ : Type w} {χ : Type x} {μ : Type y} {α : Type z}

/-- What a thread does next: it calls an operation, or goes on with the one it is in. -/
inductive OpAct (init : π) (step : ο → μ → π → Outcome π ρ χ × μ) :
    Option (ο × π) → μ → List (OpEvent ο ρ χ) → Option (ο × π) → μ → Prop
  | call {m : μ} (o : ο) : OpAct init step none m [.called o] (some (o, init)) m
  | go {o : ο} {p p' : π} {m m' : μ} (h : step o m p = (.at p', m')) :
      OpAct init step (some (o, p)) m [] (some (o, p')) m'
  | ret {o : ο} {p : π} {r : ρ} {m m' : μ} (h : step o m p = (.returned r, m')) :
      OpAct init step (some (o, p)) m [.returned o r] none m'
  | throw {o : ο} {p : π} {e : χ} {m m' : μ} (h : step o m p = (.threw e, m')) :
      OpAct init step (some (o, p)) m [.threw o e] none m'

/-- The events of a thread are calls and what comes of them, in turns; the last call may be
under way. -/
inductive OpSession : List (OpEvent ο ρ χ) → Option ο → Prop
  | idle : OpSession [] none
  | called {tr : List (OpEvent ο ρ χ)} {o : ο} (h : OpSession tr none) :
      OpSession (tr ++ [.called o]) (some o)
  | returned {tr : List (OpEvent ο ρ χ)} {o : ο} {r : ρ} (h : OpSession tr (some o)) :
      OpSession (tr ++ [.returned o r]) none
  | threw {tr : List (OpEvent ο ρ χ)} {o : ο} {e : χ} (h : OpSession tr (some o)) :
      OpSession (tr ++ [.threw o e]) none

/-- Operations are done one after the other, with these results. -/
inductive Serial (perform : ο → α → ρ × α) : α → List (ο × ρ) → α → Prop
  | nil (a : α) : Serial perform a [] a
  | snoc {a b : α} {l : List (ο × ρ)} (h : Serial perform a l b) (o : ο) :
      Serial perform a (l ++ [(o, (perform o b).1)]) (perform o b).2

/-- The operation an event says has returned, and its result. -/
def OpEvent.return? : OpEvent ο ρ χ → Option (ο × ρ)
  | .returned o r => some (o, r)
  | _ => none

/-- The operations that have returned, in this order. -/
def returnsOf {ι : Type u} (log : List (ι × OpEvent ο ρ χ)) : List (ο × ρ) :=
  log.filterMap fun e => e.2.return?

/-- The object is implemented: `Abs a m` says that `m` stands for `a`, `Rely o p` what a thread
may rely on that is at `p` in operation `o`. -/
structure Implements (init : π) (step : ο → μ → π → Outcome π ρ χ × μ) (perform : ο → α → ρ × α)
    (Abs : α → μ → Prop) (Rely : ο → π → Prop) : Prop where
  init : ∀ o, Rely o init
  go : ∀ {a o p p' m m'}, Abs a m → Rely o p → step o m p = (.at p', m') → Rely o p' ∧ Abs a m'
  ret : ∀ {a o p r m m'}, Abs a m → Rely o p → step o m p = (.returned r, m') →
    r = (perform o a).1 ∧ Abs (perform o a).2 m'
  throw : ∀ {a o p e m m'}, Abs a m → Rely o p → step o m p = (.threw e, m') → Abs a m'

variable {init : π} {step : ο → μ → π → Outcome π ρ χ × μ} {perform : ο → α → ρ × α}
  {Abs : α → μ → Prop} {Rely : ο → π → Prop}

/-- One act of a thread: the object stands for the same, or an operation has been done. -/
theorem Implements.act (h : Implements init step perform Abs Rely) {t t' : Option (ο × π)}
    {m m' : μ} {ev : List (OpEvent ο ρ χ)} {a : α} (ha : Abs a m)
    (ht : ∀ o p, t = some (o, p) → Rely o p) (hact : OpAct init step t m ev t' m') :
    (∀ o p, t' = some (o, p) → Rely o p) ∧
      ((ev.filterMap OpEvent.return? = [] ∧ Abs a m') ∨
        ∃ o, ev.filterMap OpEvent.return? = [(o, (perform o a).1)] ∧ Abs (perform o a).2 m') := by
  cases hact with
  | call o =>
      refine ⟨fun o' p hsome => ?_, .inl ⟨rfl, ha⟩⟩
      cases hsome
      exact h.init o
  | go hstep =>
      obtain ⟨hrely, habs⟩ := h.go ha (ht _ _ rfl) hstep
      refine ⟨fun o' p hsome => ?_, .inl ⟨rfl, habs⟩⟩
      cases hsome
      exact hrely
  | @ret o p r m m' hstep =>
      obtain ⟨rfl, habs⟩ := h.ret ha (ht _ _ rfl) hstep
      exact ⟨nofun, .inr ⟨o, rfl, habs⟩⟩
  | throw hstep => exact ⟨nofun, .inl ⟨rfl, h.throw ha (ht _ _ rfl) hstep⟩⟩

variable {ι : Type u} [DecidableEq ι]

/-- **In every interleaving** the object stands for what the operations that have returned
make of it one after the other, and these have the results they have so. -/
theorem Implements.run (h : Implements init step perform Abs Rely) {m₀ : μ} {a₀ : α}
    (h₀ : Abs a₀ m₀) {S : Interleaved ι (Option (ο × π)) μ} {log : List (ι × OpEvent ο ρ χ)}
    (hr : Run (Interleaved.Step (OpAct init step)) ⟨fun _ => none, m₀⟩ log S) :
    (∃ a, Serial perform a₀ (returnsOf log) a ∧ Abs a S.shared) ∧
      ∀ i o p, S.parts i = some (o, p) → Rely o p := by
  refine hr.relate (R := fun log S =>
    (∃ a, Serial perform a₀ (returnsOf log) a ∧ Abs a S.shared) ∧
      ∀ i o p, S.parts i = some (o, p) → Rely o p) ⟨⟨a₀, .nil a₀, h₀⟩, nofun⟩ ?_
  rintro log S ev S' ⟨⟨a, hseq, ha⟩, hrely⟩ ⟨i, hs⟩
  cases hs with
  | @intro ev t m hact =>
      obtain ⟨hrely', heffect⟩ := h.act ha (hrely i) hact
      have hev : returnsOf (ev.map (i, ·)) = ev.filterMap OpEvent.return? := List.filterMap_map ..
      refine ⟨?_, fun j o p hj => ?_⟩
      · rw [returnsOf, List.filterMap_append, ← returnsOf, ← returnsOf, hev]
        rcases heffect with ⟨hnone, habs⟩ | ⟨o, hone, habs⟩
        · rw [hnone, List.append_nil]
          exact ⟨a, hseq, habs⟩
        · rw [hone]
          exact ⟨_, hseq.snoc o, habs⟩
      · by_cases hij : j = i
        · subst hij
          dsimp only at hj
          rw [Function.update_self] at hj
          exact hrely' o p hj
        · dsimp only at hj
          rw [Function.update_of_ne hij] at hj
          exact hrely j o p hj

/-- **Every thread** calls operations one after the other, and what returns has been called. -/
theorem OpSession.of_run {m₀ : μ} {S : Interleaved ι (Option (ο × π)) μ}
    {log : List (ι × OpEvent ο ρ χ)}
    (hr : Run (Interleaved.Step (OpAct init step)) ⟨fun _ => none, m₀⟩ log S) (i : ι) :
    OpSession (Interleaved.own i log) ((S.parts i).map Prod.fst) := by
  refine Interleaved.relate
    (R := fun _ (tr : List (OpEvent ο ρ χ)) (t : Option (ο × π)) _ =>
      OpSession tr (t.map Prod.fst))
    (fun _ => .idle) (fun h hact => ?_) (fun _ _ h _ => h) hr i
  cases hact with
  | call o => exact h.called
  | go hstep =>
      rw [List.append_nil]
      exact h
  | ret hstep => exact h.returned
  | throw hstep => exact h.threw

/-! ### Undisturbed -/

/-- Undisturbed, an operation comes from one place to another. -/
def Leads (step : ο → μ → π → Outcome π ρ χ × μ) (o : ο) : μ × π → μ × π → Prop :=
  Relation.ReflTransGen fun a b => step o a.1 a.2 = (.at b.2, b.1)

/-- Undisturbed, an operation returns. -/
def Returns (step : ο → μ → π → Outcome π ρ χ × μ) (o : ο) (a : μ × π) (r : ρ) (m : μ) : Prop :=
  ∃ b, Leads step o a b ∧ step o b.1 b.2 = (.returned r, m)

/-- Undisturbed, an operation throws. -/
def Throws (step : ο → μ → π → Outcome π ρ χ × μ) (o : ο) (a : μ × π) (e : χ) (m : μ) : Prop :=
  ∃ b, Leads step o a b ∧ step o b.1 b.2 = (.threw e, m)

variable {o : ο} {a b : μ × π} {r : ρ} {e : χ} {m : μ}

theorem Leads.head {c : μ × π} (h : step o a.1 a.2 = (.at b.2, b.1)) (h' : Leads step o b c) :
    Leads step o a c :=
  Relation.ReflTransGen.head h h'

theorem Leads.returns (h : Leads step o a b) (h' : Returns step o b r m) :
    Returns step o a r m := by
  obtain ⟨c, hc, hret⟩ := h'
  exact ⟨c, h.trans hc, hret⟩

theorem Leads.throws (h : Leads step o a b) (h' : Throws step o b e m) :
    Throws step o a e m := by
  obtain ⟨c, hc, hthrow⟩ := h'
  exact ⟨c, h.trans hc, hthrow⟩

/-- What holds of a thread's place and of the object still holds after undisturbed steps. -/
theorem Implements.leads (h : Implements init step perform Abs Rely) {a₀ : α}
    (ha : Abs a₀ a.1) (hrely : Rely o a.2) (hl : Leads step o a b) :
    Rely o b.2 ∧ Abs a₀ b.1 := by
  induction hl with
  | refl => exact ⟨hrely, ha⟩
  | tail _ hstep ih => exact h.go ih.2 ih.1 hstep

/-- **What an operation does undisturbed** it does while the other threads pause. -/
theorem Leads.run {S : Interleaved ι (Option (ο × π)) μ} {i : ι} {p : π}
    (hp : S.parts i = some (o, p)) (h : Leads step o (S.shared, p) b) :
    Run (Interleaved.Acts (OpAct init step) i) S []
      ⟨Function.update S.parts i (some (o, b.2)), b.1⟩ := by
  induction h with
  | refl =>
      rw [← hp, Function.update_eq_self]
      exact .refl S
  | @tail b c _ hstep ih =>
      have hact : OpAct init step
          ((⟨Function.update S.parts i (some (o, b.2)), b.1⟩ :
            Interleaved ι (Option (ο × π)) μ).parts i) b.1 [] (some (o, c.2)) c.1 := by
        simp only [Function.update_self]
        exact .go hstep
      have hrun := ih.snoc (.intro hact)
      rwa [Function.update_idem] at hrun

theorem Returns.run {S : Interleaved ι (Option (ο × π)) μ} {i : ι} {p : π}
    (hp : S.parts i = some (o, p)) (h : Returns step o (S.shared, p) r m) :
    Run (Interleaved.Acts (OpAct init step) i) S [(i, .returned o r)]
      ⟨Function.update S.parts i none, m⟩ := by
  obtain ⟨b, hl, hret⟩ := h
  have hact : OpAct init step
      ((⟨Function.update S.parts i (some (o, b.2)), b.1⟩ :
        Interleaved ι (Option (ο × π)) μ).parts i) b.1 [.returned o r] none m := by
    simp only [Function.update_self]
    exact .ret hret
  have hrun := (Leads.run hp hl).snoc (.intro hact)
  rwa [Function.update_idem] at hrun

/-! ### Schedules -/

/-- What a schedule decides for one thread. -/
inductive OpMove (ο : Type u)
  | call (o : ο)
  | go

/-- One move, if it is possible. -/
def OpAct.exec (init : π) (step : ο → μ → π → Outcome π ρ χ × μ) (t : Option (ο × π)) (m : μ) :
    OpMove ο → Option (List (OpEvent ο ρ χ) × Option (ο × π) × μ)
  | .call o =>
    match t with
    | none => some ([.called o], some (o, init), m)
    | some _ => none
  | .go =>
    match t with
    | none => none
    | some (o, p) =>
      match step o m p with
      | (.at p', m') => some ([], some (o, p'), m')
      | (.returned r, m') => some ([.returned o r], none, m')
      | (.threw e, m') => some ([.threw o e], none, m')

theorem OpAct.exec_act (t : Option (ο × π)) (m : μ) (k : OpMove ο) (ev : List (OpEvent ο ρ χ))
    (t' : Option (ο × π)) (m' : μ) (h : OpAct.exec init step t m k = some (ev, t', m')) :
    OpAct init step t m ev t' m' := by
  cases k with
  | call o =>
      cases t with
      | none =>
          cases h
          exact .call o
      | some _ => cases h
  | go =>
      cases t with
      | none => cases h
      | some t =>
          simp only [OpAct.exec] at h
          split at h
          next heq =>
            cases h
            exact .go heq
          next heq =>
            cases h
            exact .ret heq
          next heq =>
            cases h
            exact .throw heq

end
