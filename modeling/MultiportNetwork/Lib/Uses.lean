import MultiportNetwork.Lib.Atomic

/-!
# Components that use an object

Components that share an object among other things. An operation of the object takes several
steps, and while one component is in an operation the others go on. If the object implements
its operations, then every run is also a run of a system in which a component uses the object
in one step (`Uses.run`). What has been proved of events and states of that system is true of
the other. That it goes on is not, since here an operation may throw and end everything.
-/

universe u v w x y z

/-- A component: its own steps, the operation it needs next, and what it makes of the result.
An operation makes steps only as long as what else is shared is `live`. -/
structure User (σ : Type u) (ν : Type v) (ε : Type w) (ο : Type x) (ρ : Type y) where
  act : σ → ν → List ε → σ → ν → Prop
  asks : σ → Option ο
  gets : σ → ρ → List ε × σ
  live : ν → Prop

/-- An object, what else is shared, and whether an operation has thrown, which nobody
catches. -/
structure Shared (μ : Type u) (ν : Type v) where
  object : μ
  rest : ν
  aborted : Bool

section
variable {σ ε ρ χ ο π μ ν α κ : Type u}

/-- A component makes a step of its own, or one in an operation. -/
inductive User.Act (U : User σ ν ε ο ρ) (init : π) (step : ο → μ → π → Outcome π ρ χ × μ) :
    σ × Option π → Shared μ ν → List ε → σ × Option π → Shared μ ν → Prop
  | own {p p' : σ} {ev : List ε} {m : μ} {n n' : ν} (h : U.act p n ev p' n') :
      Act U init step (p, none) ⟨m, n, false⟩ ev (p', none) ⟨m, n', false⟩
  | begin {p : σ} {o : ο} {m : μ} {n : ν} (hlive : U.live n) (hask : U.asks p = some o) :
      Act U init step (p, none) ⟨m, n, false⟩ [] (p, some init) ⟨m, n, false⟩
  | go {p : σ} {o : ο} {t t' : π} {m m' : μ} {n : ν} (hlive : U.live n)
      (hask : U.asks p = some o) (h : step o m t = (.at t', m')) :
      Act U init step (p, some t) ⟨m, n, false⟩ [] (p, some t') ⟨m', n, false⟩
  | ret {p : σ} {o : ο} {t : π} {r : ρ} {m m' : μ} {n : ν} (hlive : U.live n)
      (hask : U.asks p = some o) (h : step o m t = (.returned r, m')) :
      Act U init step (p, some t) ⟨m, n, false⟩ (U.gets p r).1 ((U.gets p r).2, none)
        ⟨m', n, false⟩
  | throw {p : σ} {o : ο} {t : π} {e : χ} {m m' : μ} {n : ν} (hlive : U.live n)
      (hask : U.asks p = some o) (h : step o m t = (.threw e, m')) :
      Act U init step (p, some t) ⟨m, n, false⟩ [] (p, some t) ⟨m', n, true⟩

/-- With the object at `a` and the rest at `n` together in `join a n`, components act as `act`
says, which has an operation done in one step. -/
structure Uses (U : User σ ν ε ο ρ) (perform : ο → α → ρ × α)
    (act : σ → κ → List ε → σ → κ → Prop) (join : α → ν → κ) : Prop where
  own : ∀ {p p' ev a n n'}, U.act p n ev p' n' → act p (join a n) ev p' (join a n')
  use : ∀ {p o a n}, U.live n → U.asks p = some o → act p (join a n)
    (U.gets p (perform o a).1).1 (U.gets p (perform o a).1).2 (join (perform o a).2 n)

variable {ι : Type u} [DecidableEq ι]

/-- The system as it is with the object at `a`, and operations under way not begun. That an
operation has thrown is not part of it, so from the system with operations in one step carries
over what holds of events, components and the shared state, but not that it can go on. -/
def Interleaved.atomic (join : α → ν → κ) (a : α)
    (S : Interleaved ι (σ × Option π) (Shared μ ν)) : Interleaved ι σ κ :=
  ⟨fun i => (S.parts i).1, join a S.shared.rest⟩

variable {U : User σ ν ε ο ρ} {init : π} {step : ο → μ → π → Outcome π ρ χ × μ}
  {perform : ο → α → ρ × α} {Abs : α → μ → Prop} {Rely : ο → π → Prop}
  {act : σ → κ → List ε → σ → κ → Prop} {join : α → ν → κ}

/-- What a component in an operation may rely on. -/
def User.Relies (U : User σ ν ε ο ρ) (Rely : ο → π → Prop) (p : σ × Option π) : Prop :=
  ∀ t, p.2 = some t → ∃ o, U.asks p.1 = some o ∧ Rely o t

/-- One act of a component is an act with operations in one step, or nothing at all. -/
theorem Uses.atomically (h : Implements init step perform Abs Rely) (hu : Uses U perform act join)
    {p p' : σ × Option π} {m m' : Shared μ ν} {ev : List ε} {a : α} (ha : Abs a m.object)
    (hp : U.Relies Rely p) (hact : U.Act init step p m ev p' m') :
    U.Relies Rely p' ∧ ∃ a', Abs a' m'.object ∧
      ((ev = [] ∧ p'.1 = p.1 ∧ join a' m'.rest = join a m.rest) ∨
        act p.1 (join a m.rest) ev p'.1 (join a' m'.rest)) := by
  cases hact with
  | own hown => exact ⟨nofun, a, ha, .inr (hu.own hown)⟩
  | @begin p o m n hlive hask =>
      refine ⟨fun t ht => ?_, a, ha, .inl ⟨rfl, rfl, rfl⟩⟩
      cases ht
      exact ⟨o, hask, h.init o⟩
  | @go p o t t' m m' n hlive hask hstep =>
      obtain ⟨o', hask', hrely⟩ := hp t rfl
      obtain rfl : o = o' := Option.some.inj (hask.symm.trans hask')
      obtain ⟨hrely', habs⟩ := h.go ha hrely hstep
      refine ⟨fun t'' ht => ?_, a, habs, .inl ⟨rfl, rfl, rfl⟩⟩
      cases ht
      exact ⟨o, hask, hrely'⟩
  | @ret p o t r m m' n hlive hask hstep =>
      obtain ⟨o', hask', hrely⟩ := hp t rfl
      obtain rfl : o = o' := Option.some.inj (hask.symm.trans hask')
      obtain ⟨rfl, habs⟩ := h.ret ha hrely hstep
      exact ⟨nofun, _, habs, .inr (hu.use hlive hask)⟩
  | @throw p o t e m m' n hlive hask hstep =>
      obtain ⟨o', hask', hrely⟩ := hp t rfl
      obtain rfl : o = o' := Option.some.inj (hask.symm.trans hask')
      exact ⟨hp, a, h.throw ha hrely hstep, .inl ⟨rfl, rfl, rfl⟩⟩

/-- **Every run is a run with operations in one step**, with the same events, and the object
stands for what it is at in that run. -/
theorem Uses.run (h : Implements init step perform Abs Rely) (hu : Uses U perform act join)
    {S₀ S : Interleaved ι (σ × Option π) (Shared μ ν)} {log : List (ι × ε)} {a₀ : α}
    (h₀ : Abs a₀ S₀.shared.object) (hidle : ∀ i, (S₀.parts i).2 = none)
    (hr : Run (Interleaved.Step (U.Act init step)) S₀ log S) :
    ∃ a, Run (Interleaved.Step act) (S₀.atomic join a₀) log (S.atomic join a) ∧
      Abs a S.shared.object ∧ ∀ i, U.Relies Rely (S.parts i) := by
  refine hr.relate (R := fun log S => ∃ a,
    Run (Interleaved.Step act) (S₀.atomic join a₀) log (S.atomic join a) ∧
      Abs a S.shared.object ∧ ∀ i, U.Relies Rely (S.parts i)) ⟨a₀, .refl _, h₀, fun i t ht => ?_⟩ ?_
  · rw [hidle i] at ht
    cases ht
  rintro log A ev B ⟨a, hrun, habs, hrely⟩ ⟨i, hs⟩
  cases hs with
  | @intro ev p m hact =>
      obtain ⟨hp, a', habs', heffect⟩ := hu.atomically h habs (hrely i) hact
      have hparts : Interleaved.atomic join a' ⟨Function.update A.parts i p, m⟩ =
          ⟨Function.update (fun j => (A.parts j).1) i p.1, join a' m.rest⟩ := by
        rw [Interleaved.atomic]
        congr 1
        funext j
        exact Function.apply_update (fun _ => Prod.fst) A.parts i p j
      refine ⟨a', ?_, habs', fun j => ?_⟩
      · rw [hparts]
        rcases heffect with ⟨rfl, hsame, hjoin⟩ | heffect
        · rw [hsame, hjoin, Function.update_eq_self, List.map_nil, List.append_nil]
          exact hrun
        · exact hrun.snoc ⟨i, .intro heffect⟩
      · by_cases hij : j = i
        · subst hij
          dsimp only
          rw [Function.update_self]
          exact hp
        · dsimp only
          rw [Function.update_of_ne hij]
          exact hrely j

/-! ### Schedules -/

variable {τ : Type u}

/-- What a schedule decides for one component. -/
inductive UserMove (τ : Type u)
  | own (k : τ)
  | use

/-- One move, if it is possible. -/
def User.exec (U : User σ ν ε ο ρ) [DecidablePred U.live]
    (own : σ → ν → τ → Option (List ε × σ × ν)) (init : π)
    (step : ο → μ → π → Outcome π ρ χ × μ) (p : σ × Option π) (m : Shared μ ν) :
    UserMove τ → Option (List ε × (σ × Option π) × Shared μ ν)
  | .own k =>
    if m.aborted = false ∧ p.2 = none then
      (own p.1 m.rest k).map fun r => (r.1, (r.2.1, none), { m with rest := r.2.2 })
    else none
  | .use =>
    if m.aborted = false ∧ U.live m.rest then
      match U.asks p.1, p.2 with
      | none, _ => none
      | some _, none => some ([], (p.1, some init), m)
      | some o, some t =>
        match step o m.object t with
        | (.at t', m') => some ([], (p.1, some t'), { m with object := m' })
        | (.returned r, m') =>
          some ((U.gets p.1 r).1, ((U.gets p.1 r).2, none), { m with object := m' })
        | (.threw _, m') => some ([], p, { m with object := m', aborted := true })
    else none

theorem User.exec_act [DecidablePred U.live] {own : σ → ν → τ → Option (List ε × σ × ν)}
    (hown : ∀ p n k ev p' n', own p n k = some (ev, p', n') → U.act p n ev p' n')
    (p : σ × Option π) (m : Shared μ ν) (k : UserMove τ) (ev : List ε) (p' : σ × Option π)
    (m' : Shared μ ν) (h : U.exec own init step p m k = some (ev, p', m')) :
    U.Act init step p m ev p' m' := by
  obtain ⟨p, t⟩ := p
  obtain ⟨m, n, aborted⟩ := m
  cases k with
  | own k =>
      simp only [User.exec] at h
      split at h
      next hidle =>
        obtain ⟨rfl, rfl⟩ := hidle
        obtain ⟨⟨ev, q, n'⟩, heq, hres⟩ := Option.map_eq_some_iff.mp h
        cases hres
        exact .own (hown _ _ _ _ _ _ heq)
      next => cases h
  | use =>
      simp only [User.exec] at h
      split at h
      next hlive =>
        obtain ⟨rfl, hlive⟩ := hlive
        split at h
        next => cases h
        next o hask =>
          cases h
          exact .begin hlive hask
        next o t hask =>
          split at h
          next hstep =>
            cases h
            exact .go hlive hask hstep
          next hstep =>
            cases h
            exact .ret hlive hask hstep
          next hstep =>
            cases h
            exact .throw hlive hask hstep
      next => cases h

end
