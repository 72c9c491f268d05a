import MultiportNetwork.Lib.Uses

/-!
# Components over finer steps

The object that components use may have steps of its own that are finer than those of
`User.Act`: a thread in an operation takes and releases locks, say, before and behind what it
does to the object. If the finer steps are, with that left out, steps of the operations or
nothing at all (`Coarsens`), then so are the components' (`User.Via.refines`), and what has been
proved of the finer steps alone holds in the system (`User.Via.inner_run`).
-/

universe u

section
variable {σ ε ρ χ ο π μ μ' ν τ : Type u}

/-- A component makes a step of its own while its thread is idle, or the thread makes one. What
an operation that throws has not released stays so. -/
inductive User.Via (U : User σ ν ε ο ρ) (idle : τ)
    (inner : τ → μ → List (OpEvent ο ρ χ) → τ → μ → Prop) :
    σ × τ → Shared μ ν → List ε → σ × τ → Shared μ ν → Prop
  | own {p p' : σ} {ev : List ε} {m : μ} {n n' : ν} (h : U.act p n ev p' n') :
      Via U idle inner (p, idle) ⟨m, n, false⟩ ev (p', idle) ⟨m, n', false⟩
  | call {p : σ} {o : ο} {t t' : τ} {m m' : μ} {n : ν} (hlive : U.live n)
      (hask : U.asks p = some o) (h : inner t m [.called o] t' m') :
      Via U idle inner (p, t) ⟨m, n, false⟩ [] (p, t') ⟨m', n, false⟩
  | silent {p : σ} {t t' : τ} {m m' : μ} {n : ν} (hlive : U.live n) (h : inner t m [] t' m') :
      Via U idle inner (p, t) ⟨m, n, false⟩ [] (p, t') ⟨m', n, false⟩
  | ret {p : σ} {o : ο} {r : ρ} {t t' : τ} {m m' : μ} {n : ν} (hlive : U.live n)
      (h : inner t m [.returned o r] t' m') :
      Via U idle inner (p, t) ⟨m, n, false⟩ (U.gets p r).1 ((U.gets p r).2, t') ⟨m', n, false⟩
  | throw {p : σ} {o : ο} {e : χ} {t t' : τ} {m m' : μ} {n : ν} (hlive : U.live n)
      (h : inner t m [.threw o e] t' m') :
      Via U idle inner (p, t) ⟨m, n, false⟩ [] (p, t) ⟨m', n, true⟩

/-- The finer steps `inner` are steps of operations, or nothing at all: `abs` says where a thread
is in an operation, and `obj` what the object is. -/
structure Coarsens (init : π) (step : ο → μ' → π → Outcome π ρ χ × μ') (idle : τ)
    (inner : τ → μ → List (OpEvent ο ρ χ) → τ → μ → Prop) (abs : τ → Option (ο × π))
    (obj : μ → μ') : Prop where
  idle : abs idle = none
  act : ∀ {t m ev t' m'}, inner t m ev t' m' →
    (ev = [] ∧ abs t' = abs t ∧ obj m' = obj m) ∨
      OpAct init step (abs t) (obj m) ev (abs t') (obj m')

variable {U : User σ ν ε ο ρ} {init : π} {step : ο → μ' → π → Outcome π ρ χ × μ'} {idle : τ}
  {inner : τ → μ → List (OpEvent ο ρ χ) → τ → μ → Prop} {abs : τ → Option (ο × π)}
  {obj : μ → μ'}

namespace OpAct

variable {t t' : Option (ο × π)} {m m' : μ'} {o : ο}

theorem of_called (h : OpAct init step t m [.called o] t' m') :
    t = none ∧ t' = some (o, init) ∧ m' = m := by
  cases h
  exact ⟨rfl, rfl, rfl⟩

theorem of_silent (h : OpAct init step t m [] t' m') :
    ∃ o q q', t = some (o, q) ∧ t' = some (o, q') ∧ step o m q = (.at q', m') := by
  cases h with
  | go hstep => exact ⟨_, _, _, rfl, rfl, hstep⟩

theorem of_returned {r : ρ} (h : OpAct init step t m [.returned o r] t' m') :
    ∃ q, t = some (o, q) ∧ t' = none ∧ step o m q = (.returned r, m') := by
  cases h with
  | ret hstep => exact ⟨_, rfl, rfl, hstep⟩

theorem of_threw {e : χ} (h : OpAct init step t m [.threw o e] t' m') :
    ∃ q, t = some (o, q) ∧ step o m q = (.threw e, m') := by
  cases h with
  | throw hstep => exact ⟨_, rfl, hstep⟩

end OpAct

namespace Coarsens

variable {t t' : τ} {m m' : μ}

/-- What is seen of an operation is a step of it. -/
theorem seen (h : Coarsens init step idle inner abs obj) {e : OpEvent ο ρ χ}
    (hact : inner t m [e] t' m') : OpAct init step (abs t) (obj m) [e] (abs t') (obj m') :=
  (h.act hact).resolve_left fun hnone => List.cons_ne_nil _ _ hnone.1

end Coarsens

/-- A component with where its thread is in an operation. -/
def coarse (abs : τ → Option (ο × π)) (p : σ × τ) : σ × Option π := (p.1, (abs p.2).map Prod.snd)

def Shared.coarse (obj : μ → μ') (m : Shared μ ν) : Shared μ' ν :=
  ⟨obj m.object, m.rest, m.aborted⟩

/-- The operation a thread is in is the one its component needs. -/
def User.Asked (U : User σ ν ε ο ρ) (abs : τ → Option (ο × π)) (p : σ × τ) : Prop :=
  ∀ o q, abs p.2 = some (o, q) → U.asks p.1 = some o

/-- **One act** is an act over the coarser steps, or nothing at all. -/
theorem User.Via.act (h : Coarsens init step idle inner abs obj) {p p' : σ × τ}
    {m m' : Shared μ ν} {ev : List ε} (hvia : U.Via idle inner p m ev p' m')
    (hp : U.Asked abs p) : U.Asked abs p' ∧
      ((ev = [] ∧ coarse abs p' = coarse abs p ∧ m'.coarse obj = m.coarse obj) ∨
        U.Act init step (coarse abs p) (m.coarse obj) ev (coarse abs p') (m'.coarse obj)) := by
  cases hvia with
  | @own p p' ev m n n' hown =>
      refine ⟨fun o q hq => ?_, .inr ?_⟩
      · rw [h.idle] at hq
        cases hq
      · simp only [coarse, h.idle]
        exact .own hown
  | @call p o t t' m m' n hlive hask hact =>
      obtain ⟨ht, ht', hm⟩ := (h.seen hact).of_called
      refine ⟨fun o' q hq => ?_, .inr ?_⟩
      · rw [ht'] at hq
        cases hq
        exact hask
      · simp only [coarse, Shared.coarse, ht, ht', hm]
        exact .begin hlive hask
  | @silent p t t' m m' n hlive hact =>
      rcases h.act hact with ⟨-, ht, hm⟩ | hop
      · refine ⟨fun o q hq => hp o q (ht ▸ hq), .inl ⟨rfl, ?_, ?_⟩⟩
        · simp only [coarse, ht]
        · simp only [Shared.coarse, hm]
      · obtain ⟨o, q, q', ht, ht', hstep⟩ := hop.of_silent
        have hask := hp o q ht
        refine ⟨fun o' q'' hq => ?_, .inr ?_⟩
        · rw [ht'] at hq
          cases hq
          exact hask
        · simp only [coarse, Shared.coarse, ht, ht']
          exact .go hlive hask hstep
  | @ret p o r t t' m m' n hlive hact =>
      obtain ⟨q, ht, ht', hstep⟩ := (h.seen hact).of_returned
      refine ⟨fun o' q' hq => ?_, .inr ?_⟩
      · rw [ht'] at hq
        cases hq
      · simp only [coarse, Shared.coarse, ht, ht']
        exact .ret hlive (hp o q ht) hstep
  | @throw p o e t t' m m' n hlive hact =>
      obtain ⟨q, ht, hstep⟩ := (h.seen hact).of_threw
      refine ⟨hp, .inr ?_⟩
      simp only [coarse, Shared.coarse, ht]
      exact .throw hlive (hp o q ht) hstep

variable {ι : Type u} [DecidableEq ι] {S₀ S : Interleaved ι (σ × τ) (Shared μ ν)}
  {log : List (ι × ε)}

/-- **Every run** is a run over the coarser steps, with the same events. -/
theorem User.Via.refines (h : Coarsens init step idle inner abs obj)
    (hidle : ∀ i, (S₀.parts i).2 = idle)
    (hr : Run (Interleaved.Step (U.Via idle inner)) S₀ log S) :
    Run (Interleaved.Step (U.Act init step)) (S₀.map (coarse abs) (Shared.coarse obj)) log
        (S.map (coarse abs) (Shared.coarse obj)) ∧
      ∀ i, U.Asked abs (S.parts i) := by
  refine hr.relate (R := fun log S =>
    Run (Interleaved.Step (U.Act init step)) (S₀.map (coarse abs) (Shared.coarse obj)) log
        (S.map (coarse abs) (Shared.coarse obj)) ∧
      ∀ i, U.Asked abs (S.parts i)) ⟨.refl _, fun i o q hq => ?_⟩ ?_
  · rw [hidle i, h.idle] at hq
    cases hq
  intro log A ev B hA hs
  obtain ⟨hrun, hasked⟩ := hA
  obtain ⟨i, hs⟩ := hs
  cases hs with
  | @intro ev p m hvia =>
      obtain ⟨hp, heffect⟩ := hvia.act h (hasked i)
      refine ⟨?_, fun j => ?_⟩
      · rw [Interleaved.map_update]
        rcases heffect with ⟨rfl, hsame, hm⟩ | hact
        · have hpart : coarse abs (A.parts i) =
              (A.map (coarse abs) (Shared.coarse obj)).parts i := rfl
          rw [hsame, hm, hpart, Function.update_eq_self, List.map_nil, List.append_nil]
          exact hrun
        · exact hrun.snoc ⟨i, .intro hact⟩
      · dsimp only
        by_cases hij : j = i
        · subst hij
          rw [Function.update_self]
          exact hp
        · rw [Function.update_of_ne hij]
          exact hasked j

/-- The threads alone. -/
def Interleaved.threads (S : Interleaved ι (σ × τ) (Shared μ ν)) : Interleaved ι τ μ :=
  S.map Prod.snd Shared.object

/-- What an act is to the threads alone. -/
theorem User.Via.inner_act {p p' : σ × τ} {m m' : Shared μ ν} {ev : List ε}
    (h : U.Via idle inner p m ev p' m') : m.aborted = false ∧
      (m'.aborted = true ∨ (p'.2 = p.2 ∧ m'.object = m.object) ∨
        ∃ ev', inner p.2 m.object ev' p'.2 m'.object) := by
  cases h with
  | own hown => exact ⟨rfl, .inr (.inl ⟨rfl, rfl⟩)⟩
  | call hlive hask hact => exact ⟨rfl, .inr (.inr ⟨_, hact⟩)⟩
  | silent hlive hact => exact ⟨rfl, .inr (.inr ⟨_, hact⟩)⟩
  | ret hlive hact => exact ⟨rfl, .inr (.inr ⟨_, hact⟩)⟩
  | throw hlive hact => exact ⟨rfl, .inl rfl⟩

/-- **What the threads do** by themselves is a run of theirs, as long as nothing has thrown. -/
theorem User.Via.inner_run (hlive : S.shared.aborted = false)
    (hr : Run (Interleaved.Step (U.Via idle inner)) S₀ log S) :
    ∃ log', Run (Interleaved.Step inner) S₀.threads log' S.threads := by
  induction hr with
  | refl => exact ⟨[], .refl _⟩
  | @snoc A B tr ev _ hs ih =>
      obtain ⟨i, hs⟩ := hs
      cases hs with
      | @intro ev p m hvia =>
          have hthreads : Interleaved.threads ⟨Function.update A.parts i p, m⟩ =
              ⟨Function.update A.threads.parts i p.2, m.object⟩ :=
            Interleaved.map_update Prod.snd Shared.object A i p m
          obtain ⟨hbefore, heffect⟩ := hvia.inner_act
          obtain ⟨log', hrun⟩ := ih hbefore
          rw [hthreads]
          rcases heffect with hthrown | ⟨hsame, hobject⟩ | ⟨ev', hact⟩
          · dsimp only at hlive
            rw [hlive] at hthrown
            cases hthrown
          · have hpart : (A.parts i).2 = A.threads.parts i := rfl
            rw [hsame, hobject, hpart, Function.update_eq_self]
            exact ⟨log', hrun⟩
          · exact ⟨_, hrun.snoc ⟨i, .intro hact⟩⟩

/-! ### Schedules -/

variable {κ : Type u}

/-- What a component does about a step of its thread. -/
def User.seen (U : User σ ν ε ο ρ) (p : σ × τ) (m : Shared μ ν) :
    Option (List (OpEvent ο ρ χ) × τ × μ) → Option (List ε × (σ × τ) × Shared μ ν)
  | some ([], t, o) => some ([], (p.1, t), { m with object := o })
  | some ([.returned _ r], t, o) =>
    some ((U.gets p.1 r).1, ((U.gets p.1 r).2, t), { m with object := o })
  | some ([.threw _ _], _, o) => some ([], p, { m with object := o, aborted := true })
  | _ => none

/-- One move, if it is possible: `called` is a thread that has just called an operation, `go`
what a thread in one does next. -/
def User.viaExec (U : User σ ν ε ο ρ) [DecidablePred U.live]
    (own : σ → ν → κ → Option (List ε × σ × ν)) (idle : τ) (isIdle : τ → Bool) (called : ο → τ)
    (go : τ → μ → Option (List (OpEvent ο ρ χ) × τ × μ)) (p : σ × τ) (m : Shared μ ν) :
    UserMove κ → Option (List ε × (σ × τ) × Shared μ ν)
  | .own k =>
    if m.aborted = false ∧ isIdle p.2 = true then
      (own p.1 m.rest k).map fun r => (r.1, (r.2.1, idle), { m with rest := r.2.2 })
    else none
  | .use =>
    if m.aborted = false ∧ U.live m.rest then
      if isIdle p.2 = true then (U.asks p.1).map fun o => ([], (p.1, called o), m)
      else U.seen p m (go p.2 m.object)
    else none

theorem User.viaExec_via [DecidablePred U.live] {own : σ → ν → κ → Option (List ε × σ × ν)}
    {isIdle : τ → Bool} {called : ο → τ} {go : τ → μ → Option (List (OpEvent ο ρ χ) × τ × μ)}
    (hown : ∀ p n k ev p' n', own p n k = some (ev, p', n') → U.act p n ev p' n')
    (hidle : ∀ t, isIdle t = true → t = idle)
    (hcall : ∀ o m, inner idle m [.called o] (called o) m)
    (hgo : ∀ t m ev t' m', go t m = some (ev, t', m') → inner t m ev t' m')
    (p : σ × τ) (m : Shared μ ν) (k : UserMove κ) (ev : List ε) (p' : σ × τ) (m' : Shared μ ν)
    (h : U.viaExec own idle isIdle called go p m k = some (ev, p', m')) :
    U.Via idle inner p m ev p' m' := by
  obtain ⟨p, t⟩ := p
  obtain ⟨m, n, aborted⟩ := m
  cases k with
  | own k =>
      simp only [User.viaExec] at h
      split at h
      next hcan =>
        obtain ⟨rfl, hcan⟩ := hcan
        obtain rfl := hidle t hcan
        obtain ⟨⟨ev, q, n'⟩, heq, hres⟩ := Option.map_eq_some_iff.mp h
        cases hres
        exact .own (hown _ _ _ _ _ _ heq)
      next => cases h
  | use =>
      simp only [User.viaExec] at h
      split at h
      swap
      · cases h
      next hcan =>
        obtain ⟨rfl, hlive⟩ := hcan
        split at h
        next hfree =>
          obtain rfl := hidle t hfree
          obtain ⟨o, hask, hres⟩ := Option.map_eq_some_iff.mp h
          cases hres
          exact .call hlive hask (hcall o m)
        next =>
          cases hstep : go t m with
          | none =>
              rw [hstep] at h
              cases h
          | some r =>
              obtain ⟨ev', t', m'⟩ := r
              have hact := hgo _ _ _ _ _ hstep
              rw [hstep, User.seen.eq_def] at h
              dsimp only at h
              split at h
              next heq =>
                cases heq
                cases h
                exact .silent hlive hact
              next heq =>
                cases heq
                cases h
                exact .ret hlive hact
              next heq =>
                cases heq
                cases h
                exact .throw hlive hact
              next => cases h

end
