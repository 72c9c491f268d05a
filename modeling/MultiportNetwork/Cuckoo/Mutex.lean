import MultiportNetwork.Cuckoo.LocksOk
import Mathlib.Data.Finset.Prod
import Mathlib.Data.Prod.Lex
import Mathlib.Algebra.Order.BigOperators.Group.List

/-!
# MultiportNetwork.Cuckoo.Mutex

The locks of a `cuckoohash_map` do what they are for: what a thread works on, nobody else does
(`locks_exclusive`), and the threads never all wait for each other (`locks_no_deadlock`).
-/

namespace Libcuckoo

variable {K V : Type} {P : Params K} {ι : Type} {S : Lockers ι K V} {t : Locker K V}
  {L : LockState K V} {hp hp' n : Nat} {ls ls' : List Nat} {i j : ι} {x : Nat × Nat}

/-! ### Mutual exclusion -/

/-- The thread has taken the locks `ls`, which its call needs now, and works with them. -/
def Locker.Works (P : Params K) (t : Locker K V) (hp : Nat) (ls : List Nat) : Prop :=
  ∃ c p k, t.caller = some (c, p) ∧ t.phase = .taking k [] ∧ p.need P c = .these hp ls

/-- The lock that is next in `lock_all`, unless the array is at its end. -/
def LockState.nextLock (L : LockState K V) (k l : Nat) : Option (Nat × Nat) :=
  match L.allLocks[k]? with
  | some n => if l < n then some (k, l) else none
  | none => none

/-- The lock that a thread is to take next. -/
def Locker.wants (L : LockState K V) (t : Locker K V) : Option (Nat × Nat) :=
  match t.phase with
  | .first k (l :: _) | .taking k (l :: _) => some (k, l)
  | .sweeping k l => L.nextLock k l
  | _ => none

/-- **What the locks are for.** -/
structure Guarded (P : Params K) (S : Lockers ι K V) : Prop where
  /-- A flag is set for one thread, which is to release it. -/
  exclusive : Exclusive S.shared.locked fun i => (S.parts i).held
  /-- No lock is sought outside of its array. -/
  bounds : ∀ i x, x ∈ (S.parts i).held ∨ (S.parts i).wants S.shared = some x → S.shared.Has x
  /-- Who works has the locks of its buckets, in the array that is used now. -/
  ready : ∀ i hp ls, (S.parts i).Works P hp ls → S.shared.map.hashpower = hp ∧
    ∀ l ∈ ls, (S.shared.allLocks.length - 1, l) ∈ (S.parts i).held
  /-- What one works on no one else works on. -/
  apart : ∀ i j hp hp' ls ls', i ≠ j → (S.parts i).Works P hp ls → (S.parts j).Works P hp' ls' →
    ∀ l ∈ ls, l ∉ ls'
  /-- While one expands the table, no one works. -/
  alone : ∀ i j, (S.parts i).phase = .resized → (S.parts j).phase.inside → i = j

namespace LocksOk

/-- **Who works** has what it needs, since arrays are added by those only that are alone. -/
theorem ready (h : LocksOk P S) (hi : (S.parts i).Works P hp ls) :
    S.shared.map.hashpower = hp ∧
      ∀ l ∈ ls, (S.shared.allLocks.length - 1, l) ∈ (S.parts i).held := by
  obtain ⟨c, p, k, hcaller, hphase, hneed⟩ := hi
  have hsized : Sized P S.shared False := h.sized.imp fun ⟨j, hj⟩ => by
    obtain rfl := h.resized_alone (j := i) hj (by rw [hphase]; rfl)
    rw [hphase] at hj
    cases hj
  have hok := h.parts i
  generalize S.parts i = t at hcaller hphase hok
  cases hok with
  | @taking t hp' k done ls' held hneeds hne hheld hhp =>
      obtain ⟨c', p', rfl, hneed'⟩ := hneeds.caller
      cases hcaller
      cases hphase
      rw [hneed, List.append_nil] at hneed'
      obtain ⟨rfl, rfl⟩ := Need.these.inj hneed'
      refine ⟨hhp, fun l hl => ?_⟩
      have hlast := hsized.eq_last (hhp ▸ hneeds.fits)
      rw [hheld, ← Nat.eq_sub_of_add_eq hlast]
      exact List.mem_map_of_mem (List.mem_reverse.mpr hl)
  | _ => cases hphase

/-- A lock that is wanted is there, and behind all that its thread has. -/
theorem wants (h : t.Ok P L) (hx : t.wants L = some x) :
    L.Has x ∧ ∀ y ∈ t.held, toLex y < toLex x := by
  cases h with
  | idle => cases hx
  | @first _ hp k ls hneeds =>
      cases ls with
      | nil => cases hx
      | cons l ls =>
          cases hx
          exact ⟨hneeds.fits.has (hneeds.takable.lt _ List.mem_cons_self),
            fun y hy => absurd hy List.not_mem_nil⟩
  | check hneeds => cases hx
  | @taking _ hp k done ls held hneeds hne hheld hhp =>
      cases ls with
      | nil => cases hx
      | cons l ls =>
          cases hx
          refine ⟨hneeds.fits.has (hneeds.takable.lt _
            (List.mem_append_right _ List.mem_cons_self)), fun y hy => ?_⟩
          rw [hheld] at hy
          obtain ⟨l', hl', rfl⟩ := List.mem_map.mp hy
          have hsorted := (List.pairwise_append.mp hneeds.takable.sorted).2.2
          exact Prod.Lex.toLex_lt_toLex.mpr
            (.inr ⟨rfl, hsorted l' (List.mem_reverse.mp hl') l List.mem_cons_self⟩)
  | @sweeping c hp k l held hswept =>
      change L.nextLock k l = some x at hx
      rw [LockState.nextLock] at hx
      split at hx
      next n hn =>
        split at hx
        next hl =>
          cases hx
          refine ⟨⟨n, hn, hl⟩, fun y hy => ?_⟩
          exact Prod.Lex.toLex_lt_toLex.mpr (hswept.order y hy)
        next => cases hx
      next => cases hx
  | resized hresized => cases hx
  | releasing => cases hx

end LocksOk

variable [DecidableEq K] [DecidableEq ι] {log : List (ι × CallEvent K V)}

/-- **Mutual exclusion.** In every state of every interleaving the locks guard the table and
the hashpower, for those at work and for who expands the table. -/
theorem locks_exclusive (hr : Run (Locking P) (.start P ι n) log S) : Guarded P S := by
  have h := LocksOk.run hr
  refine ⟨h.exclusive, fun i x hx => ?_, fun i hp ls hi => h.ready hi, ?_,
    fun i j hi hj => h.resized_alone hi hj⟩
  · rcases hx with hx | hx
    · exact h.has i x hx
    · exact (LocksOk.wants (h.parts i) hx).1
  · intro i j hp hp' ls ls' hne hi hj l hl hl'
    exact hne (h.exclusive.apart ((h.ready hi).2 l hl) ((h.ready hj).2 l hl'))

/-- Two threads at work on a bucket each. -/
def sideBySide : Lockers Bool Nat Nat × List (Bool × CallEvent Nat Nat) :=
  Lockers.play .ofNat 32 ([(false, .call (.insertOrAssign 7 1)), (true, .call (.erase 4))] ++
    List.replicate 4 (false, .go) ++ List.replicate 5 (true, .go))

theorem locks_exclusive_sideBySide :
    (sideBySide.1.parts false).phase = .taking 0 [] ∧
      (sideBySide.1.parts true).phase = .taking 0 [] ∧ Guarded .ofNat sideBySide.1 :=
  ⟨by decide +kernel, by decide +kernel, locks_exclusive (Lockers.play_run 32 _)⟩

/-! ### Off work -/

/-- The thread has the locks that it needs for a step of its call, and has not made it. -/
def Phase.atWork : Phase → Bool
  | .taking _ [] | .resized => true
  | _ => false

theorem Phase.atWork_cases {p : Phase} (h : p.atWork = true) :
    p = .resized ∨ ∃ k, p = .taking k [] := by
  rw [Phase.atWork.eq_def] at h
  split at h
  · exact .inr ⟨_, rfl⟩
  · exact .inl rfl
  · cases h

/-- The map with other entries in its two arrays. -/
def CuckooMap.withSlots (m : CuckooMap K V) (now old : Cells (Nat × Nat) (Entry K V)) :
    CuckooMap K V :=
  { m with buckets := ⟨m.buckets.hashpower, now⟩, oldBuckets := ⟨m.oldBuckets.hashpower, old⟩ }

/-- The map and its locks, with other entries in the two arrays. -/
def LockState.withSlots (L : LockState K V) (now old : Cells (Nat × Nat) (Entry K V)) :
    LockState K V :=
  { L with map := L.map.withSlots now old }

omit [DecidableEq ι] in
/-- **Buckets are for those at work.** What any other thread does leaves the map alone, and it
would do the same whatever was in the buckets. -/
theorem Locker.Act.unguarded {t' : Locker K V} {L' : LockState K V} {ev : List (CallEvent K V)}
    (h : Locker.Act P t L ev t' L') (hoff : t.phase.atWork = false) :
    L'.map = L.map ∧
      ∀ now old, Locker.Act P t (L.withSlots now old) ev t' (L'.withSlots now old) := by
  cases h with
  | call c => exact ⟨rfl, fun now old => .call c⟩
  | @free L c p ev t map hneed hact =>
      have hstep : ∀ now old, c.step P (L.map.withSlots now old) p =
          ((c.step P L.map p).1, L.map.withSlots now old) := fun now old =>
        Call.step_unlocked hneed rfl
      obtain ⟨rfl, -⟩ := hact.step
      have hfree := Call.step_free (m := L.map) hneed
      refine ⟨hfree, fun now old => ?_⟩
      show Locker.Act P _ _ _ _ { L with map := (c.step P L.map p).2.withSlots now old }
      rw [hfree]
      refine .free hneed ?_
      show Caller.Act P _ (L.map.withSlots now old) _ _ _
      cases hact with
      | go h => exact .go (by rw [hstep, h])
      | ret h => exact .ret (by rw [hstep, h])
      | throw h => exact .throw (by rw [hstep, h])
  | current hneed => exact ⟨rfl, fun now old => .current hneed⟩
  | lockFirst hfree => exact ⟨rfl, fun now old => .lockFirst hfree⟩
  | changed hneed hhp => exact ⟨rfl, fun now old => .changed hneed hhp⟩
  | same hneed hhp => exact ⟨rfl, fun now old => .same hneed hhp⟩
  | lockNext hfree => exact ⟨rfl, fun now old => .lockNext hfree⟩
  | work hsome hact => cases hoff
  | lockAll hneed => exact ⟨rfl, fun now old => .lockAll hneed⟩
  | lockSweep hsize hl hfree => exact ⟨rfl, fun now old => .lockSweep hsize hl hfree⟩
  | nextArray hsize hl => exact ⟨rfl, fun now old => .nextArray hsize hl⟩
  | keepArrays hend hnew => exact ⟨rfl, fun now old => .keepArrays hend hnew⟩
  | addArray hend hnew => exact ⟨rfl, fun now old => .addArray hend hnew⟩
  | double hsome hact => cases hoff
  | unlock hx => exact ⟨rfl, fun now old => .unlock hx⟩
  | done => exact ⟨rfl, fun now old => .done⟩

/-! ### No deadlock -/

/-- A call can always go on, as far as the map is concerned. -/
theorem Caller.Act.exists (c : Call K V) (p : Place) (m : CuckooMap K V) :
    ∃ ev t' m', Caller.Act P (some (c, p)) m ev t' m' := by
  rcases hstep : c.step P m p with ⟨p' | r | e, m'⟩
  · exact ⟨_, _, _, .go hstep⟩
  · exact ⟨_, _, _, .ret hstep⟩
  · exact ⟨_, _, _, .throw hstep⟩

/-- **A thread that waits for no lock** can go on with its call. -/
theorem Locker.Ok.can_act (h : t.Ok P L) (hbusy : t.caller.isSome ∨ t.phase ≠ .idle)
    (hfree : ∀ x, t.wants L = some x → L.locked x = false) :
    ∃ ev t' L', Locker.Act P t L ev t' L' := by
  cases h with
  | @idle t =>
      obtain ⟨⟨c, p⟩, rfl⟩ := Option.isSome_iff_exists.mp (hbusy.resolve_right fun h => h rfl)
      cases hneed : p.need P c with
      | nothing =>
          obtain ⟨ev, t', m', hact⟩ := Caller.Act.exists c p L.map
          exact ⟨_, _, _, .free hneed hact⟩
      | these hp ls => exact ⟨_, _, _, .current hneed⟩
      | all => exact ⟨_, _, _, .lockAll hneed⟩
  | @first _ hp k ls hneeds =>
      cases ls with
      | nil => exact absurd rfl hneeds.takable.ne
      | cons l ls => exact ⟨_, _, _, .lockFirst (hfree _ rfl)⟩
  | @check _ hp k l ls hneeds =>
      obtain ⟨c, p, rfl, hneed⟩ := hneeds.caller
      by_cases hhp : L.map.hashpower = hp
      · exact ⟨_, _, _, .same hneed hhp⟩
      · exact ⟨_, _, _, .changed hneed hhp⟩
  | @taking _ hp k done ls held hneeds hne hheld hhp =>
      cases ls with
      | nil =>
          obtain ⟨c, p, rfl, hneed⟩ := hneeds.caller
          obtain ⟨ev, t', m', hact⟩ := Caller.Act.exists c p L.map
          exact ⟨_, _, _, .work rfl hact⟩
      | cons l ls => exact ⟨_, _, _, .lockNext (hfree _ rfl)⟩
  | @sweeping c hp k l held hswept =>
      cases hsize : L.allLocks[k]? with
      | none =>
          cases hnew : L.newArray P hp with
          | none => exact ⟨_, _, _, .keepArrays hsize hnew⟩
          | some n => exact ⟨_, _, _, .addArray hsize hnew⟩
      | some n =>
          rcases Nat.lt_or_ge l n with hl | hl
          · refine ⟨_, _, _, .lockSweep hsize hl (hfree _ ?_)⟩
            change L.nextLock k l = some (k, l)
            rw [LockState.nextLock, hsize]
            exact if_pos hl
          · exact ⟨_, _, _, .nextArray hsize hl⟩
  | resized hresized =>
      obtain ⟨ev, t', m', hact⟩ := Caller.Act.exists _ _ L.map
      exact ⟨_, _, _, .double rfl hact⟩
  | @releasing t held =>
      cases held with
      | nil => exact ⟨_, _, _, .done⟩
      | cons x held => exact ⟨_, _, _, .unlock List.mem_cons_self⟩

/-- What is seen of a thread in a call is nothing, or its end. -/
theorem Locker.Act.seen {t' : Locker K V} {L' : LockState K V} {ev : List (CallEvent K V)}
    (h : Locker.Act P t L ev t' L') (hbusy : t.caller.isSome ∨ t.phase ≠ .idle) :
    ev = [] ∨ (∃ c r, ev = [.returned c r]) ∨ ∃ c e, ev = [.threw c e] := by
  have hcall : ∀ {t t' : Caller K V} {m m' : CuckooMap K V}, Caller.Act P t m ev t' m' →
      t.isSome → ev = [] ∨ (∃ c r, ev = [.returned c r]) ∨ ∃ c e, ev = [.threw c e] := by
    intro t t' m m' hact hsome
    cases hact with
    | call c => cases hsome
    | go hstep => exact .inl rfl
    | ret hstep => exact .inr (.inl ⟨_, _, rfl⟩)
    | throw hstep => exact .inr (.inr ⟨_, _, rfl⟩)
  cases h with
  | call c => exact hbusy.elim (fun hsome => by cases hsome) fun hne => absurd rfl hne
  | free hneed hact => exact hcall hact rfl
  | work hsome hact => exact hcall hact hsome
  | double hsome hact => exact hcall hact hsome
  | _ => exact .inl rfl

omit [DecidableEq K] in
theorem LockState.Has.mem_bound (h : L.Has x) :
    x ∈ Finset.range L.allLocks.length ×ˢ Finset.range (L.allLocks.sum) := by
  obtain ⟨n, hn, hlt⟩ := h
  obtain ⟨hk, rfl⟩ := List.getElem?_eq_some_iff.mp hn
  refine Finset.mem_product.mpr ⟨Finset.mem_range.mpr hk, Finset.mem_range.mpr ?_⟩
  have hle := List.single_le_sum (fun _ _ => Nat.zero_le _) _ (List.getElem_mem hk)
  exact Nat.lt_of_lt_of_le hlt hle

/-- **No deadlock.** As long as some thread is in a call, or has locks to release, some such
thread can go on. -/
theorem locks_no_deadlock (hr : Run (Locking P) (.start P ι n) log S)
    (hi : (S.parts i).caller.isSome ∨ (S.parts i).phase ≠ .idle) :
    ∃ j, ((S.parts j).caller.isSome ∨ (S.parts j).phase ≠ .idle) ∧
      ∃ ev t' L', Locker.Act P (S.parts j) S.shared ev t' L' := by
  have h := LocksOk.run hr
  have horder : ∀ {j x}, (S.parts j).wants S.shared = some x →
      ∀ y ∈ (S.parts j).held, toLex y < toLex x := fun {j _} hx => (LocksOk.wants (h.parts j) hx).2
  obtain ⟨j, hj⟩ := h.exclusive.exists_unblocked
    (Finset.range S.shared.allLocks.length ×ˢ Finset.range S.shared.allLocks.sum)
    (fun {j x} hx => (LocksOk.wants (h.parts j) hx).1.mem_bound) horder i
  have hbusy : (S.parts j).caller.isSome ∨ (S.parts j).phase ≠ .idle := by
    rcases hj with ⟨-, rfl | hheld⟩ | ⟨x, hx, -⟩
    · exact hi
    · -- a thread that is idle has no locks
      have hok := h.parts j
      generalize S.parts j = t at hheld hok
      cases hok with
      | idle => exact absurd rfl hheld
      | _ => exact .inr fun heq => by cases heq
    · refine .inr fun hidle => ?_
      rw [Locker.wants, hidle] at hx
      cases hx
  refine ⟨j, hbusy, (h.parts j).can_act hbusy fun x hx => ?_⟩
  rcases hj with ⟨hnone, -⟩ | ⟨y, hy, hfree⟩
  · rw [hx] at hnone
    cases hnone
  · rw [hx] at hy
    cases hy
    exact hfree

/-- One thread has the lock that the other one wants. -/
def contended : Lockers Bool Nat Nat × List (Bool × CallEvent Nat Nat) :=
  Lockers.play .ofNat 32 ([(false, .call (.insertOrAssign 7 1)), (true, .call (.erase 3))] ++
    List.replicate 4 (false, .go) ++ List.replicate 4 (true, .go))

theorem locks_no_deadlock_contended :
    (contended.1.parts true).wants contended.1.shared = some (0, 7) ∧
      contended.1.shared.locked (0, 7) = true ∧
      ∃ j, ((contended.1.parts j).caller.isSome ∨ (contended.1.parts j).phase ≠ .idle) ∧
        ∃ ev t' L', Locker.Act .ofNat (contended.1.parts j) contended.1.shared ev t' L' :=
  ⟨by decide +kernel, by decide +kernel,
    locks_no_deadlock (Lockers.play_run 32 _) (i := true) (.inl (by decide +kernel))⟩

end Libcuckoo
