import MultiportNetwork.Cuckoo.Mutex
import Mathlib.Order.WellFounded

/-!
# MultiportNetwork.Cuckoo.Alone

A thread that goes on alone comes to the end of its call, locks included (`call_ends`). The
locks are spinlocks: if another thread holds one that is needed, there is no end to the waiting.
So the result is about states in which nobody else holds any, wherever the others are in their
calls.

The argument has two levels. Between two steps of the call the thread takes or releases locks,
and each such act brings it nearer to the next step of the call (`Locker.rank`). How many steps
of the call there are is the matter of `MultiportNetwork.Cuckoo.Ends`.
-/

namespace Libcuckoo

variable {K V : Type} {P : Params K} {ι : Type} {S S' : Lockers ι K V} {t t' : Locker K V}
  {L L' : LockState K V} {c : Call K V} {p : Place} {i : ι} {n : Nat}

/-! ### Towards the next step of the call -/

/-- How far a thread is from the next step of its call: first by what it is about, then by the
arrays or locks that are left. Releasing comes first, since it belongs to the step before. -/
def Locker.rank (L : LockState K V) (t : Locker K V) : Nat ×ₗ Nat ×ₗ Nat :=
  match t.phase with
  | .releasing => toLex (5, toLex (t.held.length, 0))
  | .idle => toLex (4, toLex (0, 0))
  | .first _ _ => toLex (3, toLex (0, 0))
  | .check _ _ => toLex (2, toLex (0, 0))
  | .taking _ todo => toLex (1, toLex (todo.length, 0))
  | .sweeping k l =>
    toLex (1, toLex (L.allLocks.length - k, (L.allLocks[k]?).getD 0 - l))
  | .resized => toLex (0, toLex (0, 0))

theorem rank_lt {a b a' b' d d' : Nat} (h : a < a' ∨ a = a' ∧ (b < b' ∨ b = b' ∧ d < d')) :
    (toLex (a, toLex (b, d)) : Nat ×ₗ Nat ×ₗ Nat) < toLex (a', toLex (b', d')) := by
  rw [Prod.Lex.toLex_lt_toLex]
  exact h.imp_right fun h => ⟨h.1, Prod.Lex.toLex_lt_toLex.mpr h.2⟩

variable [DecidableEq K]

/-- **An act** is a step of the call, or one towards it. -/
theorem Locker.Act.rank_lt {ev : List (CallEvent K V)} (h : Locker.Act P t L ev t' L') :
    (ev = [] ∧ t'.caller = t.caller ∧ L'.map = L.map ∧ t'.rank L' < t.rank L) ∨
      (Caller.Act P t.caller L.map ev t'.caller L'.map ∧ (t.caller.isSome ∨ t.phase = .idle)) := by
  cases h with
  | call c => exact .inr ⟨.call c, .inr rfl⟩
  | free _ h => exact .inr ⟨h, .inl rfl⟩
  | changed hneed hhp => exact .inr ⟨.go (Call.step_changed hneed hhp), .inl rfl⟩
  | work hsome h => exact .inr ⟨h, .inl hsome⟩
  | double hsome h => exact .inr ⟨h, .inl hsome⟩
  | lockNext hfree =>
      exact .inl ⟨rfl, rfl, rfl, Libcuckoo.rank_lt (.inr ⟨rfl, .inl (Nat.lt_succ_self _)⟩)⟩
  | @lockSweep L t held k l size hsize hl hfree =>
      refine .inl ⟨rfl, rfl, rfl, Libcuckoo.rank_lt (.inr ⟨rfl, .inr ⟨rfl, ?_⟩⟩)⟩
      show (L.allLocks[k]?).getD 0 - (l + 1) < (L.allLocks[k]?).getD 0 - l
      rw [hsize, Option.getD_some]
      omega
  | @nextArray L t held k l size hsize hl =>
      refine .inl ⟨rfl, rfl, rfl, Libcuckoo.rank_lt (.inr ⟨rfl, .inl ?_⟩)⟩
      have hk := (List.getElem?_eq_some_iff.mp hsize).1
      show L.allLocks.length - (k + 1) < L.allLocks.length - k
      omega
  | @unlock L t held x hx =>
      refine .inl ⟨rfl, rfl, rfl, Libcuckoo.rank_lt (.inr ⟨rfl, .inl ?_⟩)⟩
      have hpos := List.length_pos_of_mem hx
      show (held.erase x).length < held.length
      rw [List.length_erase_of_mem hx]
      omega
  | _ => exact .inl ⟨rfl, rfl, rfl, Libcuckoo.rank_lt (.inl (by decide))⟩

/-! ### With nobody else holding locks -/

variable [DecidableEq ι]

/-- A state that is reached, in which no other thread than `i` holds a lock. -/
structure Lockers.Solo (P : Params K) (n : Nat) (i : ι) (S : Lockers ι K V) : Prop where
  reached : ∃ log, Run (Locking P) (.start P ι n) log S
  others : ∀ j, j ≠ i → (S.parts j).held = []

/-- **What the thread does** leads to such a state again, and is as above. -/
theorem Lockers.Solo.next {log : List (ι × CallEvent K V)} (h : S.Solo P n i)
    (hacts : Interleaved.Acts (Locker.Act P) i S log S') : S'.Solo P n i ∧
      ((log = [] ∧ (S'.parts i).caller = (S.parts i).caller ∧ S'.shared.map = S.shared.map ∧
          (S'.parts i).rank S'.shared < (S.parts i).rank S.shared) ∨
        ∃ ev : List (CallEvent K V), log = ev.map (i, ·) ∧
          Caller.Act P (S.parts i).caller S.shared.map ev (S'.parts i).caller S'.shared.map ∧
          ((S.parts i).caller.isSome ∨ (S.parts i).phase = .idle)) := by
  obtain ⟨⟨before, hr⟩, hothers⟩ := h
  refine ⟨⟨⟨_, hr.snoc hacts.step⟩, fun j hj => ?_⟩, ?_⟩
  · rw [hacts.parts_of_ne hj]
    exact hothers j hj
  · cases hacts with
    | @intro ev t' L' hact =>
        simp only [Function.update_self]
        rcases hact.rank_lt with ⟨rfl, hrest⟩ | hcall
        · exact .inl ⟨rfl, hrest⟩
        · exact .inr ⟨ev, rfl, hcall⟩

/-- **No lock that it wants is taken**: it wants none that it has. -/
theorem Lockers.Solo.free (h : S.Solo P n i) {x : Nat × Nat}
    (hx : (S.parts i).wants S.shared = some x) : S.shared.locked x = false := by
  obtain ⟨⟨log, hr⟩, hothers⟩ := h
  have hok := LocksOk.run hr
  refine Bool.eq_false_iff.mpr fun hlocked => ?_
  obtain ⟨j, hj⟩ := (hok.exclusive.flags x).mp hlocked
  by_cases hji : j = i
  · subst hji
    exact lt_irrefl _ ((LocksOk.wants (hok.parts j) hx).2 x hj)
  · rw [hothers j hji] at hj
    cases hj

theorem Lockers.Solo.can_act (h : S.Solo P n i)
    (hbusy : (S.parts i).caller.isSome ∨ (S.parts i).phase ≠ .idle) :
    ∃ log S', Interleaved.Acts (Locker.Act P) i S log S' := by
  obtain ⟨log, hr⟩ := h.reached
  obtain ⟨ev, t', L', hact⟩ := ((LocksOk.run hr).parts i).can_act hbusy fun x => h.free
  exact ⟨_, _, .intro hact⟩

/-- The call has come to its end, and all locks are released. -/
def Lockers.Ended (c : Call K V) (i : ι) (log : List (ι × CallEvent K V)) (S : Lockers ι K V) :
    Prop :=
  S.parts i = ⟨none, [], .idle⟩ ∧
    ((∃ found, log = [(i, .returned c found)]) ∨ ∃ e, log = [(i, .threw c e)])

/-- However thread `i` goes on alone, its call comes to its end. -/
abbrev Lockers.BoundToEnd (P : Params K) (c : Call K V) (i : ι) :
    List (ι × CallEvent K V) → Lockers ι K V → Prop :=
  Inevitably (Interleaved.Acts (Locker.Act P) i) (Interleaved.Acts (Locker.Act P) i)
    (Lockers.Ended c i)

/-- **Behind the last step** the locks are released. -/
theorem Lockers.Solo.release {log : List (ι × CallEvent K V)} (h : S.Solo P n i)
    (hnone : (S.parts i).caller = none)
    (hlog : (∃ found, log = [(i, .returned c found)]) ∨ ∃ e, log = [(i, .threw c e)]) :
    Lockers.BoundToEnd P c i log S := by
  refine Inevitably.of_measure (I := fun tr S => S.Solo P n i ∧ (S.parts i).caller = none ∧
    tr = log) wellFounded_lt (fun S => (S.parts i).rank S.shared) ?_ ⟨h, hnone, rfl⟩
  intro tr S hI
  obtain ⟨h, hnone, rfl⟩ := hI
  by_cases hidle : (S.parts i).phase = .idle
  · left
    obtain ⟨log, hr⟩ := h.reached
    have hok := (LocksOk.run hr).parts i
    refine ⟨?_, hlog⟩
    generalize S.parts i = t at hnone hidle hok
    cases hok <;> cases hidle
    cases hnone
    rfl
  · refine .inr ⟨h.can_act (.inr hidle), fun ev S' hacts => .inl ?_⟩
    obtain ⟨hsolo, ⟨rfl, hcaller, -, hlt⟩ | ⟨ev, -, -, hsome | hphase⟩⟩ := h.next hacts
    · exact ⟨⟨hsolo, hcaller.trans hnone, List.append_nil _⟩, hlt⟩
    · rw [hnone] at hsome
      cases hsome
    · exact absurd hphase hidle

/-- **The next step of the call** is reached, and what is true behind it decides. -/
theorem Lockers.Solo.coarse (h : S.Solo P n i) (hi : (S.parts i).caller = some (c, p))
    (hnext : ∀ {S' : Lockers ι K V} {ev : List (CallEvent K V)}, S'.Solo P n i →
      Caller.Act P (some (c, p)) S.shared.map ev (S'.parts i).caller S'.shared.map →
        Lockers.BoundToEnd P c i (ev.map (i, ·)) S') : Lockers.BoundToEnd P c i [] S := by
  refine Inevitably.of_measure (I := fun tr S₁ => S₁.Solo P n i ∧
    (S₁.parts i).caller = some (c, p) ∧ S₁.shared.map = S.shared.map ∧ tr = [])
    wellFounded_lt (fun S => (S.parts i).rank S.shared) ?_ ⟨h, hi, rfl, rfl⟩
  intro tr S₁ hI
  obtain ⟨h, hi, hmap, rfl⟩ := hI
  refine .inr ⟨h.can_act (.inl (by rw [hi]; rfl)), fun ev S' hacts => ?_⟩
  obtain ⟨hsolo, ⟨rfl, hcaller, hmap', hlt⟩ | ⟨ev, rfl, hact, -⟩⟩ := h.next hacts
  · exact .inl ⟨⟨hsolo, hcaller.trans hi, hmap'.trans hmap, rfl⟩, hlt⟩
  · rw [hi, hmap] at hact
    exact .inr (hnext hsolo hact)

/-- **A call that ends undisturbed** also gets all locks it needs. -/
theorem Lockers.Solo.boundToEnd {b : CuckooMap K V × Place} (h : S.Solo P n i)
    (hi : (S.parts i).caller = some (c, p))
    (hlead : Leads (Call.step P) c (S.shared.map, p) b)
    (hend : ∀ q, (c.step P b.1 b.2).1 ≠ .at q) : Lockers.BoundToEnd P c i [] S := by
  generalize ha : (S.shared.map, p) = a at hlead
  induction hlead using Relation.ReflTransGen.head_induction_on generalizing S p with
  | refl =>
      subst ha
      refine h.coarse hi fun {S' ev} hsolo hact => ?_
      generalize hcaller : (S'.parts i).caller = t' at hact
      cases hact with
      | @go _ _ q _ _ hstep => exact absurd (congrArg Prod.fst hstep) (hend q)
      | ret hstep => exact hsolo.release hcaller (.inl ⟨_, rfl⟩)
      | throw hstep => exact hsolo.release hcaller (.inr ⟨_, rfl⟩)
  | @head a a' hstep _ ih =>
      subst ha
      refine h.coarse hi fun {S' ev} hsolo hact => ?_
      generalize hcaller : (S'.parts i).caller = t' at hact
      generalize hmap : S'.shared.map = m' at hact
      -- what the next step is, is not open
      cases hact with
      | go hstep' =>
          cases hstep.symm.trans hstep'
          exact ih hsolo hcaller (congrArg (·, _) hmap)
      | ret hstep' => cases hstep.symm.trans hstep'
      | throw hstep' => cases hstep.symm.trans hstep'

/-- **Whatever others have done**, and wherever they are in their calls: as long as no other
thread holds a lock, a call that is under way comes to its end if its thread goes on alone. It
gets every lock it needs, returns or throws, and releases what it holds. -/
theorem call_ends {log : List (ι × CallEvent K V)} (hr : Run (Locking P) (.start P ι n) log S)
    (hmin : 0 < P.minimumLoadFactor) (hi : (S.parts i).caller = some (c, p))
    (halone : ∀ j, j ≠ i → (S.parts j).held = []) : Lockers.BoundToEnd P c i [] S := by
  obtain ⟨⟨A, -, hok⟩, hplaces⟩ := Callers.reached (locks_refine hr)
  have hsolo : S.Solo P n i := ⟨⟨log, hr⟩, halone⟩
  rcases Ends.of_place hmin hok (hplaces i c p hi) with
    ⟨r, m, b, hlead, hret⟩ | ⟨e, m, b, hlead, hthrow⟩
  · refine hsolo.boundToEnd hi hlead fun q heq => ?_
    rw [hret] at heq
    cases heq
  · refine hsolo.boundToEnd hi hlead fun q heq => ?_
    rw [hthrow] at heq
    cases heq

/-- Two threads are about to take the same lock; one of them has another lock already. -/
def bothWanting : Lockers Bool Nat Nat × List (Bool × CallEvent Nat Nat) :=
  Lockers.play .ofNat 32 ([(false, .call (.erase 7)), (true, .call (.insertOrAssign 3 1))] ++
    List.replicate 2 (false, .go) ++ List.replicate 4 (true, .go))

theorem call_ends_bothWanting :
    (bothWanting.1.parts false).wants bothWanting.1.shared = some (0, 7) ∧
      (bothWanting.1.parts true).wants bothWanting.1.shared = some (0, 7) ∧
      (bothWanting.1.parts true).held = [(0, 3)] ∧
      ∃ c, Lockers.BoundToEnd .ofNat c true [] bothWanting.1 := by
  refine ⟨by decide +kernel, by decide +kernel, by decide +kernel, ?_⟩
  have hsome : (bothWanting.1.parts true).caller.isSome = true := by decide +kernel
  obtain ⟨⟨c, p⟩, hi⟩ := Option.isSome_iff_exists.mp hsome
  refine ⟨c, call_ends (Lockers.play_run 32 _) (by decide) hi fun j hj => ?_⟩
  obtain rfl : j = false := Bool.eq_false_iff.mpr hj
  decide +kernel

end Libcuckoo
