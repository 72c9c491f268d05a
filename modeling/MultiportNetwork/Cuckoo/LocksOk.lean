import MultiportNetwork.Cuckoo.Needs

/-!
# MultiportNetwork.Cuckoo.LocksOk

The locks of a `cuckoohash_map` are in order in every state, also while arrays of locks are
added (`LocksOk.run`).

The argument is about the sizes of the arrays, which only grow. A thread that has found an
array and then the hashpower as it was, has found an array that is large enough for this
hashpower; and who changes either has all locks of all such arrays.
-/

namespace Libcuckoo

variable {K V : Type} [DecidableEq K] {P : Params K} {A : K → Option V} {c : Call K V}
  {p p' : Place} {hp : Nat} {ls : List Nat} {m m' : CuckooMap K V}

/-! ### What a thread has -/

/-- The lock is there. Arrays are never taken away, so what is there stays. -/
def LockState.Has (m : LockState K V) (x : Nat × Nat) : Prop :=
  ∃ n, m.allLocks[x.1]? = some n ∧ x.2 < n

/-- The array is large enough for the hashpower. This is what a thread knows of the array it has
found, though not whether it is still the current one when the locks are taken. -/
def LockState.Fits (P : Params K) (m : LockState K V) (hp k : Nat) : Prop :=
  ∃ n, m.allLocks[k]? = some n ∧ P.lockCount hp ≤ n

/-- The locks `ls` of the array `k` are those that are needed now. -/
structure Needs (P : Params K) (m : LockState K V) (t : Caller K V) (hp k : Nat)
    (ls : List Nat) : Prop where
  /-- They belong to the step that comes next, prepared for the hashpower `hp`. -/
  caller : ∃ c p, t = some (c, p) ∧ p.need P c = .these hp ls
  /-- They are in order, for `locks_no_deadlock`, and there are that many. -/
  takable : Takable P hp ls
  /-- So all of them are there. -/
  fits : m.Fits P hp k

/-- What `lock_all` has taken so far: all of the arrays from the one it began with to the one
before `k`, and those before `l` of `k`. Arrays that are added meanwhile come behind `k`, so this
stays true, and at the end of the list it says that the current array is taken. -/
structure Swept (m : LockState K V) (held : List (Nat × Nat)) (k l : Nat) : Prop where
  le : k ≤ m.allLocks.length
  arrays : ∃ first < m.allLocks.length, ∀ j, first ≤ j → j < k → ∀ i, m.Has (j, i) →
    (j, i) ∈ held
  /-- Of this array the locks before the cursor. -/
  here : ∀ i < l, (k, i) ∈ held
  /-- What comes next is behind all that is held. -/
  order : ∀ x ∈ held, x.1 < k ∨ (x.1 = k ∧ x.2 < l)

/-- All locks that matter are taken, and there are as many as `cuckoo_fast_double` will need. -/
structure Resized (P : Params K) (m : LockState K V) (held : List (Nat × Nat)) (hp : Nat) :
    Prop where
  /-- No array is left out in which someone else who knows the hashpower could have a lock. -/
  all : ∀ k, m.Fits P m.map.hashpower k → ∀ l, m.Has (k, l) → (k, l) ∈ held
  /-- The current array is the right one for the hashpower to come, if there is to be another. -/
  last : (m.map.checkResizeValidity P hp (hp + 1) = .ok .ok ∧
      m.allLocks.getLast? = some (P.lockCount (hp + 1))) ∨
    (m.map.checkResizeValidity P hp (hp + 1) ≠ .ok .ok ∧
      m.allLocks.getLast? = some (P.lockCount m.map.hashpower))

/-- What a thread has and knows, in each of its phases. Up to `check_hashpower` it knows nothing
of the hashpower as it is now; from there on it has a lock, and nobody can change it. -/
inductive Locker.Ok (P : Params K) (m : LockState K V) : Locker K V → Prop
  | idle {t : Caller K V} : Ok P m ⟨t, [], .idle⟩
  | first {t : Caller K V} {hp k : Nat} {ls : List Nat} (h : Needs P m t hp k ls) :
      Ok P m ⟨t, [], .first k ls⟩
  | check {t : Caller K V} {hp k l : Nat} {ls : List Nat} (h : Needs P m t hp k (l :: ls)) :
      Ok P m ⟨t, [(k, l)], .check k ls⟩
  | taking {t : Caller K V} {hp k : Nat} {done ls : List Nat} {held : List (Nat × Nat)}
      (h : Needs P m t hp k (done ++ ls)) (hne : done ≠ [])
      (hheld : held = done.reverse.map (k, ·)) (hhp : m.map.hashpower = hp) :
      Ok P m ⟨t, held, .taking k ls⟩
  | sweeping {c : Call K V} {hp k l : Nat} {held : List (Nat × Nat)} (h : Swept m held k l) :
      Ok P m ⟨some (c, .doubling hp), held, .sweeping k l⟩
  | resized {c : Call K V} {hp : Nat} {held : List (Nat × Nat)} (h : Resized P m held hp) :
      Ok P m ⟨some (c, .doubling hp), held, .resized⟩
  | releasing {t : Caller K V} {held : List (Nat × Nat)} : Ok P m ⟨t, held, .releasing⟩

/-- The sizes of the arrays, of which one may just have been added. Each array is larger than
those before, and the last one is as large as the hashpower asks for: so no other array is large
enough, and who has all locks of the last one has all that anybody can work with. -/
structure Sized (P : Params K) (m : LockState K V) (added : Prop) : Prop where
  /-- An array is only added if it has more locks than the last one. -/
  sorted : m.allLocks.Pairwise (· < ·)
  last : ∃ n, m.allLocks.getLast? = some n ∧ P.lockCount m.map.hashpower ≤ n ∧
    (n = P.lockCount m.map.hashpower ∨ added)

/-- The thread is behind `check_hashpower` or behind `lock_all`. From here to the release of its
locks it relies on the hashpower. -/
def Phase.inside : Phase → Bool
  | .taking _ _ | .resized => true
  | _ => false

/-! ### The sizes of the arrays -/

omit [DecidableEq K]

theorem Params.lockCount_pos (P : Params K) (hp : Nat) : 0 < P.lockCount hp :=
  Nat.lt_min.mpr ⟨Nat.two_pow_pos hp, Nat.two_pow_pos _⟩

/-- A larger table has no fewer locks, so an array that fits it fits all smaller ones. -/
theorem Params.lockCount_mono (P : Params K) {a b : Nat} (h : a ≤ b) :
    P.lockCount a ≤ P.lockCount b := by
  have hpow : 2 ^ a ≤ 2 ^ b := Nat.pow_le_pow_right Nat.two_pos h
  rw [Params.lockCount, Params.lockCount]
  omega

variable {L : LockState K V} {t : Locker K V} {added : Prop} {k l n : Nat}

/-- The locks for a hashpower are those of any array that is large enough. -/
theorem LockState.Fits.has (h : L.Fits P hp k) (hl : l < P.lockCount hp) : L.Has (k, l) := by
  obtain ⟨n, hn, hle⟩ := h
  exact ⟨n, hn, by omega⟩

namespace Sized

theorem imp {added' : Prop} (h : Sized P L added) (himp : added → added') : Sized P L added' := by
  obtain ⟨hsorted, n, hn, hle, hlast⟩ := h
  exact ⟨hsorted, n, hn, hle, hlast.imp_right himp⟩

theorem ne (h : Sized P L added) : 0 < L.allLocks.length := by
  obtain ⟨n, hn, -⟩ := h.last
  exact List.length_pos_of_mem (List.mem_of_getLast? hn)

/-- **The current array** is large enough. -/
theorem fits (h : Sized P L added) (hle : hp ≤ L.map.hashpower) :
    L.Fits P hp (L.allLocks.length - 1) := by
  obtain ⟨n, hn, hcount, -⟩ := h.last
  rw [List.getLast?_eq_getElem?] at hn
  exact ⟨n, hn, Nat.le_trans (P.lockCount_mono hle) hcount⟩

/-- **No other array** is, unless one has just been added. -/
theorem eq_last (h : Sized P L False) (hfits : L.Fits P L.map.hashpower k) :
    k + 1 = L.allLocks.length := by
  obtain ⟨n, hn, hle⟩ := hfits
  obtain ⟨last, hlast, -, rfl | hadded⟩ := h.last
  swap
  · exact hadded.elim
  -- a smaller array before the last one would have at least as many locks as it
  rw [List.getLast?_eq_getElem?] at hlast
  obtain ⟨hk, rfl⟩ := List.getElem?_eq_some_iff.mp hn
  obtain ⟨hend, heq⟩ := List.getElem?_eq_some_iff.mp hlast
  by_contra hne
  have hlt := List.pairwise_iff_getElem.mp h.sorted k _ hk hend (by omega)
  omega

end Sized

/-! ### What others do -/

/-- What a thread may find changed: arrays are added, and only who is inside can tell what
else. Who is inside relies on the hashpower, since its buckets are those of its key for this
hashpower only; who is behind `lock_all` relies on everything. -/
structure Disturbed (u : Locker K V) (L L' : LockState K V) : Prop where
  /-- `all_locks_` is a list that is only appended to. -/
  arrays : ∃ more, L'.allLocks = L.allLocks ++ more
  hashpower : u.phase.inside → L'.map.hashpower = L.map.hashpower
  resized : u.phase = .resized → L'.map = L.map ∧ L'.allLocks = L.allLocks

variable {L' : LockState K V} {u : Locker K V}

/-- It does not matter which flags are set. -/
theorem Resized.congr {held : List (Nat × Nat)} (h : Resized P L held hp)
    (hmap : L'.map = L.map) (harrays : L'.allLocks = L.allLocks) : Resized P L' held hp := by
  obtain ⟨map, arrays, locked⟩ := L
  obtain ⟨map', arrays', locked'⟩ := L'
  obtain rfl : map' = map := hmap
  obtain rfl : arrays' = arrays := harrays
  exact ⟨h.all, h.last⟩

namespace Disturbed

theorem get (h : Disturbed u L L') (hk : L.allLocks[k]? = some n) : L'.allLocks[k]? = some n := by
  obtain ⟨more, heq⟩ := h.arrays
  rw [heq, List.getElem?_append_left (List.getElem?_eq_some_iff.mp hk).1]
  exact hk

theorem has (h : Disturbed u L L') {x : Nat × Nat} (hx : L.Has x) : L'.Has x := by
  obtain ⟨n, hn, hlt⟩ := hx
  exact ⟨n, h.get hn, hlt⟩

theorem fits (h : Disturbed u L L') (hfits : L.Fits P hp k) : L'.Fits P hp k := by
  obtain ⟨n, hn, hle⟩ := hfits
  exact ⟨n, h.get hn, hle⟩

/-- What a step needs is a matter of the call and of its place. -/
theorem needs {t : Caller K V} (h : Disturbed u L L') (hneeds : Needs P L t hp k ls) :
    Needs P L' t hp k ls :=
  ⟨hneeds.caller, hneeds.takable, h.fits hneeds.fits⟩

/-- New arrays come behind the cursor of `lock_all`, which will get to them. -/
theorem swept {held : List (Nat × Nat)} (h : Disturbed u L L') (hswept : Swept L held k l) :
    Swept L' held k l := by
  have hlen : L.allLocks.length ≤ L'.allLocks.length := by
    obtain ⟨more, heq⟩ := h.arrays
    rw [heq, List.length_append]
    exact Nat.le_add_right _ _
  obtain ⟨first, hfirst, harrays⟩ := hswept.arrays
  refine ⟨Nat.le_trans hswept.le hlen, ⟨first, Nat.lt_of_lt_of_le hfirst hlen, ?_⟩, hswept.here,
    hswept.order⟩
  intro j hle hlt i hi
  obtain ⟨n, hn, hin⟩ := hi
  -- the array has been there before
  have hj : j < L.allLocks.length := Nat.lt_of_lt_of_le hlt hswept.le
  have hold := h.get (List.getElem?_eq_getElem hj)
  rw [hn] at hold
  exact harrays j hle hlt i ⟨_, List.getElem?_eq_getElem hj, Option.some.inj hold ▸ hin⟩

/-- **What a thread knows** stays true. -/
theorem ok (h : Disturbed u L L') (hok : u.Ok P L) : u.Ok P L' := by
  cases hok with
  | idle => exact .idle
  | first hneeds => exact .first (h.needs hneeds)
  | check hneeds => exact .check (h.needs hneeds)
  | taking hneeds hne hheld hhp =>
      exact .taking (h.needs hneeds) hne hheld ((h.hashpower rfl).trans hhp)
  | sweeping hswept => exact .sweeping (h.swept hswept)
  | resized hresized =>
      obtain ⟨hmap, harrays⟩ := h.resized rfl
      exact .resized (hresized.congr hmap harrays)
  | releasing => exact .releasing

end Disturbed

variable [DecidableEq K]

/-- An act in a call is a step of it. -/
theorem Caller.Act.step {ev : List (CallEvent K V)} {t' : Caller K V}
    (h : Caller.Act P (some (c, p)) m ev t' m') : (c.step P m p).2 = m' ∧
      ∀ c' p', t' = some (c', p') → c' = c ∧ (c.step P m p).1 = .at p' := by
  cases h with
  | go hstep =>
      rw [hstep]
      refine ⟨rfl, fun c' p' heq => ?_⟩
      cases heq
      exact ⟨rfl, rfl⟩
  | ret hstep =>
      rw [hstep]
      exact ⟨rfl, fun c' p' heq => by cases heq⟩
  | throw hstep =>
      rw [hstep]
      exact ⟨rfl, fun c' p' heq => by cases heq⟩

/-- **Without locks** a thread looks at nothing but the hashpower, and leaves the map alone. -/
theorem Call.step_unlocked (hneed : p.need P c = .nothing) (hhp : m'.hashpower = m.hashpower) :
    c.step P m' p = ((c.step P m p).1, m') := by
  cases p with
  | snapshot =>
      -- the hashpower is all that is read
      rw [Call.step, hhp]
      rfl
  | locking hp => cases hneed
  | searching hp q =>
      change q.need P hp = .nothing at hneed
      rw [Call.step, Call.step, Call.searchStep, Call.searchStep]
      -- a search whose queue is empty fails, and there is no bucket to lock for that
      cases hpending : q.pending with
      | nil => rfl
      | cons x pending =>
          rw [BQueue.need, hpending] at hneed
          cases hneed
  | tracing hp path bucket slot rest => cases hneed
  | moving hp path bucket slot =>
      rw [Place.need] at hneed
      split at hneed
      · rcases path with _ | ⟨last, _ | ⟨next, path⟩⟩ <;> cases hneed
      next hnone =>
        rw [Call.step, Call.step, Option.not_isSome_iff_eq_none.mp hnone]
  | doubling hp => cases hneed

/-- In particular it changes nothing. -/
theorem Call.step_free (hneed : p.need P c = .nothing) : (c.step P m p).2 = m :=
  congrArg Prod.snd (Call.step_unlocked (m := m) hneed rfl)

omit [DecidableEq K] in
/-- Only an expansion takes all locks. -/
theorem Place.need_all (hneed : p.need P c = .all) : ∃ hp, p = .doubling hp := by
  cases p with
  | snapshot => cases hneed
  | locking hp => cases hneed
  | searching hp q =>
      change q.need P hp = .all at hneed
      rw [BQueue.need] at hneed
      split at hneed <;> cases hneed
  | tracing hp path bucket slot rest => cases hneed
  | moving hp path bucket slot =>
      rw [Place.need] at hneed
      split at hneed
      · rcases path with _ | ⟨last, _ | ⟨next, path⟩⟩ <;> cases hneed
      · cases hneed
  | doubling hp => exact ⟨hp, rfl⟩

/-- **What an act does to another thread** that is not inside when arrays are added or the
table is expanded. -/
theorem Locker.Act.disturbs {t' : Locker K V} {ev : List (CallEvent K V)} (hok : L.map.Ok P A)
    (ht : t.Ok P L) (h : Locker.Act P t L ev t' L')
    (hinside : t.phase.inside → u.phase ≠ .resized)
    (hall : t.phase = .resized ∨ (∃ k l, t.phase = .sweeping k l ∧ L.allLocks[k]? = none) →
      u.phase.inside = false) : Disturbed u L L' := by
  have hsame : ∀ {L' : LockState K V}, L'.map = L.map → L'.allLocks = L.allLocks →
      Disturbed u L L' := fun hmap harrays =>
    ⟨⟨[], by rw [harrays, List.append_nil]⟩, fun _ => by rw [hmap], fun _ => ⟨hmap, harrays⟩⟩
  cases h with
  | free hneed hact =>
      obtain ⟨hmap, -⟩ := hact.step
      exact hsame (hmap.symm.trans (Call.step_free hneed)) rfl
  | work hsome hact =>
      cases ht with
      | taking hneeds hne hheld hhp =>
          -- with the locks of some buckets the hashpower is left as it is
          obtain ⟨c, p, rfl, hneed⟩ := hneeds.caller
          obtain ⟨rfl, -⟩ := hact.step
          refine ⟨⟨[], (List.append_nil _).symm⟩, fun _ => ?_, fun hu => absurd hu (hinside rfl)⟩
          refine (Call.step_advanced hok p).same ?_
          rw [hneed]
          intro heq
          cases heq
  | double hsome hact =>
      -- whoever else there is, is outside and relies on nothing
      have hout := hall (.inl rfl)
      refine ⟨⟨[], (List.append_nil _).symm⟩, fun hu => ?_, fun hu => ?_⟩
      · rw [hout] at hu
        cases hu
      · rw [hu] at hout
        cases hout
  | addArray hend hnew =>
      have hout := hall (.inr ⟨_, _, rfl, hend⟩)
      refine ⟨⟨_, rfl⟩, fun hu => ?_, fun hu => ?_⟩
      · rw [hout] at hu
        cases hu
      · rw [hu] at hout
        cases hout
  | _ => exact hsame rfl rfl

/-! ### What a thread does itself -/

section
omit [DecidableEq K]

theorem Sized.last_eq (h : Sized P L False) :
    L.allLocks.getLast? = some (P.lockCount L.map.hashpower) := by
  obtain ⟨n, hn, -, rfl | hadded⟩ := h.last
  · exact hn
  · exact hadded.elim

/-- An array of a list with one more is one of the list, or the new one. -/
theorem getElem?_concat {sizes : List Nat} {size : Nat} (h : (sizes ++ [n])[k]? = some size) :
    (k < sizes.length ∧ sizes[k]? = some size) ∨ (k = sizes.length ∧ size = n) := by
  rcases Nat.lt_or_ge k sizes.length with hk | hk
  · rw [List.getElem?_append_left hk] at h
    exact .inl ⟨hk, h⟩
  · rw [List.getElem?_append_right hk, List.getElem?_singleton] at h
    split at h
    next heq =>
      cases h
      exact .inr ⟨by omega, rfl⟩
    next => cases h

theorem LockState.mem_newLocks {x : Nat × Nat} :
    x ∈ L.newLocks n ↔ x.1 = L.allLocks.length ∧ x.2 < n := by
  rw [LockState.newLocks, List.mem_map]
  constructor
  · intro h
    obtain ⟨i, hi, rfl⟩ := h
    exact ⟨rfl, List.mem_range.mp hi⟩
  · intro h
    exact ⟨x.2, List.mem_range.mpr h.2, by rw [← h.1]⟩

/-- **No array is added** for a valid expansion where the current one is large enough for it. -/
theorem Sized.newArray_none (h : Sized P L False) (hnew : L.newArray P hp = none)
    (hvalid : L.map.checkResizeValidity P hp (hp + 1) = .ok .ok) :
    L.allLocks.getLast? = some (P.lockCount (hp + 1)) := by
  have hhp : L.map.hashpower = hp := by
    rcases CuckooMap.checkResizeValidity_ok hvalid with ⟨-, hhp⟩ | ⟨hst, -⟩
    · exact hhp
    · cases hst
  have hlast := h.last_eq
  simp only [LockState.newArray, hvalid, List.getLastD_eq_getLast?, hlast, Option.getD_some] at hnew
  rw [hlast, hhp]
  rw [hhp] at hnew
  split at hnew
  · cases hnew
  next hfull =>
    simp only [Params.lockCount, hashsize, Nat.pow_succ] at hfull ⊢
    congr 1
    omega

/-- **An array is added** for a valid expansion only, of the size that it needs, which is more than
the others have. -/
theorem Sized.newArray_some (h : Sized P L False) (hnew : L.newArray P hp = some n) :
    L.map.checkResizeValidity P hp (hp + 1) = .ok .ok ∧ n = P.lockCount (hp + 1) ∧
      P.lockCount L.map.hashpower < n := by
  have hlast := h.last_eq
  rw [LockState.newArray] at hnew
  split at hnew
  swap
  · cases hnew
  next hvalid =>
    simp only [List.getLastD_eq_getLast?, hlast, Option.getD_some] at hnew
    split at hnew
    swap
    · cases hnew
    next hgrow =>
      cases hnew
      refine ⟨hvalid, Nat.min_comm _ _, ?_⟩
      omega

end

namespace Swept

variable {held : List (Nat × Nat)}

omit [DecidableEq K] in
/-- One more lock of the array is taken. -/
theorem next (h : Swept L held k l) : Swept (L.lock [(k, l)]) ((k, l) :: held) k (l + 1) := by
  obtain ⟨first, hfirst, harrays⟩ := h.arrays
  refine ⟨h.le, ⟨first, hfirst, fun j hle hlt i hi => ?_⟩, fun i hi => ?_, fun x hx => ?_⟩
  · exact List.mem_cons_of_mem _ (harrays j hle hlt i hi)
  · rcases Nat.lt_succ_iff_lt_or_eq.mp hi with hi | rfl
    · exact List.mem_cons_of_mem _ (h.here i hi)
    · exact List.mem_cons_self
  · rcases List.mem_cons.mp hx with rfl | hx
    · exact .inr ⟨rfl, Nat.lt_succ_self l⟩
    · have horder := h.order x hx
      omega

omit [DecidableEq K] in
/-- The array is done, and the list of arrays may have grown meanwhile. -/
theorem nextArray (h : Swept L held k l) (hsize : L.allLocks[k]? = some n) (hl : n ≤ l) :
    Swept L held (k + 1) 0 := by
  obtain ⟨first, hfirst, harrays⟩ := h.arrays
  refine ⟨(List.getElem?_eq_some_iff.mp hsize).1, ⟨first, hfirst, fun j hle hlt i hi => ?_⟩, ?_,
    fun x hx => ?_⟩
  · rcases Nat.lt_succ_iff_lt_or_eq.mp hlt with hlt | rfl
    · exact harrays j hle hlt i hi
    · obtain ⟨n', hn', hin⟩ := hi
      rw [hsize] at hn'
      cases hn'
      exact h.here i (by omega)
  · intro i hi
    omega
  · have horder := h.order x hx
    omega

omit [DecidableEq K] in
/-- **At the end** the locks of the current array are taken. -/
theorem current (h : Swept L held k l) (hend : L.allLocks[k]? = none) {i : Nat}
    (hi : L.Has (L.allLocks.length - 1, i)) : (L.allLocks.length - 1, i) ∈ held := by
  obtain ⟨first, hfirst, harrays⟩ := h.arrays
  have hk := List.getElem?_eq_none_iff.mp hend
  exact harrays _ (by omega) (by omega) i hi

omit [DecidableEq K] in
/-- `maybe_resize_locks` finds the array large enough, or the expansion is not valid. -/
theorem keep (h : Swept L held k l) (hsized : Sized P L False) (hend : L.allLocks[k]? = none)
    (hnew : L.newArray P hp = none) : Resized P L held hp := by
  refine ⟨fun k hfits l hl => ?_, ?_⟩
  · obtain rfl := Nat.eq_sub_of_add_eq (hsized.eq_last hfits)
    exact h.current hend hl
  · by_cases hvalid : L.map.checkResizeValidity P hp (hp + 1) = .ok .ok
    · exact .inl ⟨hvalid, hsized.newArray_none hnew hvalid⟩
    · exact .inr ⟨hvalid, hsized.last_eq⟩

omit [DecidableEq K] in
/-- `maybe_resize_locks` adds an array, with its locks taken before anyone can see it. -/
theorem add (h : Swept L held k l) (hsized : Sized P L False) (hend : L.allLocks[k]? = none)
    (hnew : L.newArray P hp = some n) :
    Resized P { L.lock (L.newLocks n) with allLocks := L.allLocks ++ [n] }
      (L.newLocks n ++ held) hp := by
  obtain ⟨hvalid, hn, -⟩ := hsized.newArray_some hnew
  refine ⟨fun k hfits l hl => ?_, .inl ⟨hvalid, by rw [← hn]; exact List.getLast?_concat⟩⟩
  rw [List.mem_append]
  obtain ⟨size, hsize, hlt⟩ := hl
  obtain ⟨size', hsize', hle⟩ := hfits
  rcases getElem?_concat hsize with ⟨hk, hold⟩ | ⟨rfl, rfl⟩
  · right
    -- of the arrays that were there the last one only was large enough
    dsimp only at hsize'
    rw [List.getElem?_append_left hk] at hsize'
    obtain rfl := Nat.eq_sub_of_add_eq (hsized.eq_last ⟨size', hsize', hle⟩)
    exact h.current hend ⟨size, hold, hlt⟩
  · left
    exact LockState.mem_newLocks.mpr ⟨rfl, hlt⟩

end Swept

/-- **A thread knows what it is doing**: its own acts. When it sets out to take locks, the current
array is large enough for the hashpower it knows, which is one that there has been (`hknown`). -/
theorem Locker.Act.ok {t' : Locker K V} {ev : List (CallEvent K V)} (h : Locker.Act P t L ev t' L')
    (ht : t.Ok P L) (hsized : Sized P L added)
    (hplace : ∀ c p, t.caller = some (c, p) → p.Ok P c.key)
    (hknown : ∀ c p hp, t.caller = some (c, p) → p.hashpower? = some hp → hp ≤ L.map.hashpower)
    (halone : (∃ k l, t.phase = .sweeping k l ∧ L.allLocks[k]? = none) → Sized P L False) :
    t'.Ok P L' := by
  cases h with
  | call c => exact .idle
  | free hneed hact => exact .idle
  | current hneed =>
      -- `get_current_locks`: the array may be replaced from now on
      obtain ⟨hhp, htakable⟩ := (hplace _ _ rfl).takable hneed
      exact .first ⟨⟨_, _, rfl, hneed⟩, htakable, hsized.fits (hknown _ _ _ rfl hhp)⟩
  | lockFirst hfree =>
      cases ht with
      | first hneeds => exact .check ⟨hneeds.caller, hneeds.takable, hneeds.fits⟩
  | changed hneed hhp => exact .releasing
  | same hneed hhp =>
      cases ht with
      | @check _ hp' k l ls hneeds =>
          obtain ⟨_, _, heq, hneed'⟩ := hneeds.caller
          cases heq
          rw [hneed'] at hneed
          obtain ⟨rfl, -⟩ := Need.these.inj hneed
          exact .taking hneeds (List.cons_ne_nil l []) rfl hhp
  | @lockNext _ t held k l ls hfree =>
      cases ht with
      | @taking _ hp _ done _ _ hneeds hne hheld hhp =>
          -- one lock goes over from those to be taken to those that are held
          rw [← List.singleton_append, ← List.append_assoc] at hneeds
          refine .taking ⟨hneeds.caller, hneeds.takable, hneeds.fits⟩
            (List.append_ne_nil_of_left_ne_nil hne _) ?_ hhp
          rw [hheld, List.reverse_append, List.map_append]
          rfl
  | work hsome hact => exact .releasing
  | lockAll hneed =>
      obtain ⟨hp, rfl⟩ := Place.need_all hneed
      -- `lock_all` begins with the array that is the current one now
      have hpos := hsized.ne
      refine .sweeping ⟨by omega, ⟨L.allLocks.length - 1, by omega, ?_⟩, ?_, ?_⟩
      · intro j hle hlt
        omega
      · intro i hi
        omega
      · intro x hx
        cases hx
  | lockSweep hsize hl hfree =>
      cases ht with
      | sweeping hswept => exact .sweeping hswept.next
  | nextArray hsize hl =>
      cases ht with
      | sweeping hswept => exact .sweeping (hswept.nextArray hsize hl)
  | keepArrays hend hnew =>
      cases ht with
      | sweeping hswept => exact .resized (hswept.keep (halone ⟨_, _, rfl, hend⟩) hend hnew)
  | addArray hend hnew =>
      cases ht with
      | sweeping hswept => exact .resized (hswept.add (halone ⟨_, _, rfl, hend⟩) hend hnew)
  | double hsome hact => exact .releasing
  | unlock hx => exact .releasing
  | done => exact .idle

/-- **What a thread knows of the hashpower** is from before: it only grows. -/
theorem Caller.Act.known {t t' : Caller K V} {ev : List (CallEvent K V)} (hok : m.Ok P A)
    (h : Caller.Act P t m ev t' m')
    (hknown : ∀ c p hp, t = some (c, p) → p.hashpower? = some hp → hp ≤ m.hashpower) :
    m.hashpower ≤ m'.hashpower ∧
      ∀ c p hp, t' = some (c, p) → p.hashpower? = some hp → hp ≤ m'.hashpower := by
  rcases t with _ | ⟨c, p⟩
  · cases h
    refine ⟨Nat.le_refl _, fun c p hp heq hhp => ?_⟩
    cases heq
    cases hhp
  · obtain ⟨rfl, hnext⟩ := h.step
    have hadvanced := Call.step_advanced (c := c) hok p
    refine ⟨hadvanced.le, fun c' p' hp heq hhp => ?_⟩
    obtain ⟨-, hat⟩ := hnext c' p' heq
    rcases hadvanced.known p' hp hat hhp with hold | rfl
    · exact Nat.le_trans (hknown _ _ _ rfl hold) hadvanced.le
    · exact hadvanced.le

/-- So it is with all that a thread does. -/
theorem Locker.Act.known {t' : Locker K V} {ev : List (CallEvent K V)} (hok : L.map.Ok P A)
    (h : Locker.Act P t L ev t' L')
    (hknown : ∀ c p hp, t.caller = some (c, p) → p.hashpower? = some hp →
      hp ≤ L.map.hashpower) :
    L.map.hashpower ≤ L'.map.hashpower ∧
      ∀ c p hp, t'.caller = some (c, p) → p.hashpower? = some hp → hp ≤ L'.map.hashpower := by
  rcases h.coarse with ⟨-, hcaller, hmap⟩ | hact
  · rw [hcaller, hmap]
    exact ⟨Nat.le_refl _, hknown⟩
  · exact hact.known hok hknown

/-- **What an act does with locks**: it takes free ones or releases one, if anything. -/
theorem Locker.Act.locks {t' : Locker K V} {ev : List (CallEvent K V)}
    (h : Locker.Act P t L ev t' L') (ht : t.Ok P L) (hset : ∀ x, L.locked x = true → L.Has x) :
    (t'.held = t.held ∧ L'.locked = L.locked) ∨
      (∃ xs, (∀ x ∈ xs, L.locked x = false ∧ L'.Has x) ∧ xs.Nodup ∧ t'.held = xs ++ t.held ∧
        L'.locked = (L.lock xs).locked) ∨
      ∃ x ∈ t.held, t'.held = t.held.erase x ∧ L'.locked = (L.unlock x).locked := by
  have hone : ∀ {x : Nat × Nat}, L.locked x = false → L.Has x →
      ∀ y ∈ [x], L.locked y = false ∧ (L.lock [x]).Has y := by
    intro x hfree hhas y hy
    rw [List.mem_singleton.mp hy]
    exact ⟨hfree, hhas⟩
  cases h with
  | lockFirst hfree =>
      cases ht with
      | first hneeds =>
          have hlt := hneeds.takable.lt _ List.mem_cons_self
          exact .inr (.inl ⟨_, hone hfree (hneeds.fits.has hlt), List.nodup_singleton _, rfl, rfl⟩)
  | lockNext hfree =>
      cases ht with
      | taking hneeds hne hheld hhp =>
          have hlt := hneeds.takable.lt _ (List.mem_append_right _ List.mem_cons_self)
          exact .inr (.inl ⟨_, hone hfree (hneeds.fits.has hlt), List.nodup_singleton _, rfl, rfl⟩)
  | lockSweep hsize hl hfree =>
      exact .inr (.inl ⟨_, hone hfree ⟨_, hsize, hl⟩, List.nodup_singleton _, rfl, rfl⟩)
  | addArray hend hnew =>
      refine .inr (.inl ⟨L.newLocks _, fun x hx => ?_, ?_, rfl, rfl⟩)
      · obtain ⟨hx1, hx2⟩ := LockState.mem_newLocks.mp hx
        refine ⟨?_, _, ?_, hx2⟩
        · -- nobody can have it yet
          refine Bool.eq_false_iff.mpr fun hlocked => ?_
          obtain ⟨size, hsize, -⟩ := hset x hlocked
          have hlt := (List.getElem?_eq_some_iff.mp hsize).1
          omega
        · rw [hx1]
          exact List.getElem?_concat_length
      · exact List.nodup_range.map fun i j hij => (Prod.mk.inj hij).2
  | unlock hx => exact .inr (.inr ⟨_, hx, rfl, rfl⟩)
  | _ => exact .inl ⟨rfl, rfl⟩

omit [DecidableEq K] in
/-- The last array is the largest. -/
theorem Sized.le_last (h : Sized P L False) {size : Nat} (hsize : size ∈ L.allLocks) :
    size ≤ P.lockCount L.map.hashpower := by
  obtain ⟨k, hk, rfl⟩ := List.mem_iff_getElem.mp hsize
  have hlast := h.last_eq
  rw [List.getLast?_eq_getElem?] at hlast
  obtain ⟨hend, heq⟩ := List.getElem?_eq_some_iff.mp hlast
  rcases Nat.lt_or_ge k (L.allLocks.length - 1) with hlt | hge
  · have hsorted := List.pairwise_iff_getElem.mp h.sorted k _ hk hend hlt
    omega
  · obtain rfl : k = L.allLocks.length - 1 := by omega
    exact Nat.le_of_eq heq

omit [DecidableEq K] in
open Classical in
/-- The hashpower after `cuckoo_fast_double`. -/
theorem doubleStep_hashpower (hok : m.Ok P A) : (doubleStep P m hp).2.hashpower =
    if m.checkResizeValidity P hp (hp + 1) = .ok .ok then hp + 1 else m.hashpower := by
  rw [doubleStep, CuckooMap.cuckooFastDouble]
  cases hvalid : m.checkResizeValidity P hp (hp + 1) with
  | error e => rw [if_neg fun heq => by cases heq]
  | ok st =>
      rcases CuckooMap.checkResizeValidity_ok hvalid with ⟨rfl, rfl⟩ | ⟨rfl, hne⟩
      · rw [if_pos rfl]
        exact hok.grow.2
      · rw [if_neg fun heq => by cases heq]

/-- **The sizes of the arrays** are those for the hashpower, before and after an expansion. -/
theorem Locker.Act.sized {t' : Locker K V} {ev : List (CallEvent K V)} (hok : L.map.Ok P A)
    (h : Locker.Act P t L ev t' L') (ht : t.Ok P L) (hsized : Sized P L added)
    (halone : (∃ k l, t.phase = .sweeping k l ∧ L.allLocks[k]? = none) → Sized P L False) :
    Sized P L' (t'.phase = .resized ∨ (t.phase ≠ .resized ∧ added)) := by
  have hsame : ∀ {L' : LockState K V}, L'.map.hashpower = L.map.hashpower →
      L'.allLocks = L.allLocks → t.phase ≠ .resized →
        Sized P L' (t'.phase = .resized ∨ (t.phase ≠ .resized ∧ added)) := by
    intro L' hhp harrays hphase
    obtain ⟨hsorted, n, hn, hle, hlast⟩ := hsized
    rw [← harrays] at hsorted hn
    rw [← hhp] at hle hlast
    refine ⟨hsorted, n, hn, hle, ?_⟩
    exact hlast.imp_right fun hadded => .inr ⟨hphase, hadded⟩
  have hother : ∀ {p : Phase}, (p = .resized → False) → p ≠ .resized := fun h => h
  cases h with
  | free hneed hact =>
      obtain ⟨hmap, -⟩ := hact.step
      refine hsame ?_ rfl (hother fun heq => by cases heq)
      rw [← hmap, Call.step_free hneed]
  | work hsome hact =>
      cases ht with
      | taking hneeds hne hheld hhp =>
          obtain ⟨c, p, rfl, hneed⟩ := hneeds.caller
          obtain ⟨rfl, -⟩ := hact.step
          refine hsame ((Call.step_advanced hok p).same ?_) rfl (hother fun heq => by cases heq)
          rw [hneed]
          exact fun heq => by cases heq
  | addArray hend hnew =>
      -- nobody else has added one, so the last array is still the one for the hashpower
      have hsized := halone ⟨_, _, rfl, hend⟩
      obtain ⟨-, -, hlt⟩ := hsized.newArray_some hnew
      refine ⟨?_, _, List.getLast?_concat, Nat.le_of_lt hlt, .inr (.inl rfl)⟩
      refine List.pairwise_append.mpr ⟨hsized.sorted, List.pairwise_singleton _ _, ?_⟩
      intro size hsize size' hsize'
      rw [List.mem_singleton.mp hsize']
      exact Nat.lt_of_le_of_lt (hsized.le_last hsize) hlt
  | double hsome hact =>
      cases ht with
      | @resized c hp held hresized =>
          obtain ⟨rfl, -⟩ := hact.step
          refine ⟨hsized.sorted, P.lockCount (c.step P L.map (.doubling hp)).2.hashpower, ?_,
            Nat.le_refl _, .inl rfl⟩
          -- whether the hashpower goes up or not, the array for it is there already
          rw [Call.step, doubleStep_hashpower hok]
          rcases hresized.last with ⟨hvalid, hlast⟩ | ⟨hinvalid, hlast⟩
          · rw [if_pos hvalid]
            exact hlast
          · rw [if_neg hinvalid]
            exact hlast
  | _ => exact hsame rfl rfl (hother fun heq => by cases heq)

/-! ### All threads -/

variable {ι : Type} [DecidableEq ι] {S : Lockers ι K V}

/-- What holds of the locks in every state. `parts` and `sized` together are the argument: whoever
is inside has a lock of an array that is large enough (`LocksOk.inside`), and whoever is to change
the hashpower has all of these (`LocksOk.resized_alone`, `LocksOk.swept_alone`). -/
structure LocksOk (P : Params K) (S : Lockers ι K V) : Prop where
  /-- A flag is set while one thread holds the lock, and by no other. -/
  exclusive : Exclusive S.shared.locked fun i => (S.parts i).held
  has : ∀ i, ∀ x ∈ (S.parts i).held, S.shared.Has x
  sized : Sized P S.shared (∃ i, (S.parts i).phase = .resized)
  /-- A hashpower that a thread remembers is not one still to come. -/
  known : ∀ i c p hp, (S.parts i).caller = some (c, p) → p.hashpower? = some hp →
    hp ≤ S.shared.map.hashpower
  parts : ∀ i, (S.parts i).Ok P S.shared

namespace LocksOk

variable {i j : ι}

omit [DecidableEq K] [DecidableEq ι] in
/-- A thread that is inside has a lock of an array that is large enough. -/
theorem inside (h : LocksOk P S) (hi : (S.parts i).phase.inside) :
    ∃ k l, (k, l) ∈ (S.parts i).held ∧ S.shared.Fits P S.shared.map.hashpower k ∧
      ((S.parts i).phase = .resized → k + 1 = S.shared.allLocks.length) := by
  have hok := h.parts i
  have hsized := h.sized
  generalize S.parts i = t at hi hok
  cases hok with
  | @taking t hp k done ls held hneeds hne hheld hhp =>
      obtain ⟨l, done, rfl⟩ := List.exists_cons_of_ne_nil hne
      refine ⟨k, l, ?_, hhp ▸ hneeds.fits, fun heq => by cases heq⟩
      rw [hheld]
      exact List.mem_map_of_mem (List.mem_reverse.mpr List.mem_cons_self)
  | resized hresized =>
      have hfits := hsized.fits (Nat.le_refl _)
      have hpos := hsized.ne
      exact ⟨_, 0, hresized.all _ hfits 0 (hfits.has (P.lockCount_pos _)), hfits, fun _ => by omega⟩
  | _ => cases hi

omit [DecidableEq K] [DecidableEq ι] in
/-- **Who expands the table is alone**: nobody else is inside. -/
theorem resized_alone (h : LocksOk P S) (hi : (S.parts i).phase = .resized)
    (hj : (S.parts j).phase.inside) : i = j := by
  obtain ⟨k, l, hheld, hfits, -⟩ := h.inside hj
  have hhas := h.has j _ hheld
  have hok := h.parts i
  -- the lock that makes `j` be inside is one of those that `i` has
  refine h.exclusive.apart (x := (k, l)) ?_ hheld
  generalize S.parts i = t at hi hok
  cases hok with
  | resized hresized => exact hresized.all k hfits l hhas
  | _ => cases hi

omit [DecidableEq K] [DecidableEq ι] in
/-- At the end of `lock_all` nobody else has a lock of the current array. -/
theorem swept_only (h : LocksOk P S) {k l l' : Nat} (hi : (S.parts i).phase = .sweeping k l)
    (hend : S.shared.allLocks[k]? = none)
    (hj : (S.shared.allLocks.length - 1, l') ∈ (S.parts j).held) : i = j := by
  have hhas := h.has j _ hj
  have hok := h.parts i
  refine h.exclusive.apart ?_ hj
  generalize S.parts i = t at hi hok
  cases hok with
  | sweeping hswept =>
      cases hi
      exact hswept.current hend hhas
  | _ => cases hi

omit [DecidableEq K] [DecidableEq ι] in
/-- **At the end of `lock_all`** nobody is inside, and there is no array but the right one. -/
theorem swept_alone (h : LocksOk P S) {k l : Nat} (hi : (S.parts i).phase = .sweeping k l)
    (hend : S.shared.allLocks[k]? = none) :
    Sized P S.shared False ∧ ∀ j, (S.parts j).phase.inside = false := by
  have hnone : ∀ j, (S.parts j).phase ≠ .resized := by
    intro j hj
    obtain ⟨k', l', hheld, -, hlast⟩ := h.inside (i := j) (by rw [hj]; rfl)
    obtain rfl := Nat.eq_sub_of_add_eq (hlast hj)
    obtain rfl := h.swept_only hi hend hheld
    rw [hi] at hj
    cases hj
  -- so no array has been added, and who is inside has a lock of the last one
  have hsized : Sized P S.shared False := h.sized.imp fun ⟨j, hj⟩ => hnone j hj
  refine ⟨hsized, fun j => Bool.eq_false_iff.mpr fun hj => ?_⟩
  obtain ⟨k', l', hheld, hfits, -⟩ := h.inside hj
  obtain rfl := Nat.eq_sub_of_add_eq (hsized.eq_last hfits)
  obtain rfl := h.swept_only hi hend hheld
  rw [hi] at hj
  cases hj

/-- **Every act** leaves the locks in order. -/
theorem act (h : LocksOk P S) (hok : S.shared.map.Ok P A)
    (hplace : ∀ c p, (S.parts i).caller = some (c, p) → p.Ok P c.key) {t' : Locker K V}
    {L' : LockState K V} {ev : List (CallEvent K V)}
    (hact : Locker.Act P (S.parts i) S.shared ev t' L') :
    LocksOk P ⟨Function.update S.parts i t', L'⟩ := by
  have halone : (∃ k l, (S.parts i).phase = .sweeping k l ∧ S.shared.allLocks[k]? = none) →
      Sized P S.shared False := fun ⟨k, l, hi, hend⟩ => (h.swept_alone hi hend).1
  -- who changes the map or the arrays is alone inside, so the others do not rely on them
  have hdisturbs : ∀ j, j ≠ i → Disturbed (S.parts j) S.shared L' := by
    intro j hne
    refine hact.disturbs hok (h.parts i) (fun hi hj => hne (h.resized_alone hj hi)) fun hi => ?_
    rcases hi with hi | ⟨k, l, hi, hend⟩
    · exact Bool.eq_false_iff.mpr fun hj => hne (h.resized_alone hi hj).symm
    · exact (h.swept_alone hi hend).2 j
  have hset : ∀ x, S.shared.locked x = true → S.shared.Has x := by
    intro x hx
    obtain ⟨j, hj⟩ := (h.exclusive.flags x).mp hx
    exact h.has j x hj
  have hgrown : ∀ x, S.shared.Has x → L'.Has x := by
    intro x
    have hidle : Disturbed ⟨none, [], .idle⟩ S.shared L' :=
      hact.disturbs hok (h.parts i) (fun _ heq => by cases heq) fun _ => rfl
    exact hidle.has
  obtain ⟨hle, hknown⟩ := hact.known hok (h.known i)
  have hlocks := hact.locks (h.parts i) hset
  refine ⟨?_, fun j x hx => ?_, ?_, fun j c p hp hj hhp => ?_, fun j => ?_⟩
  -- the flags: nothing, some free locks, or one of its own
  · have hheld : (fun j => (Function.update S.parts i t' j).held) =
        Function.update (fun j => (S.parts j).held) i t'.held := by
      funext j
      exact Function.apply_update (fun _ => Locker.held) S.parts i t' j
    rw [hheld]
    rcases hlocks with ⟨heq, hlocked⟩ | ⟨xs, hxs, hnodup, heq, hlocked⟩ | ⟨x, hx, heq, hlocked⟩
    · rw [heq, hlocked, Function.update_eq_self i fun j => (S.parts j).held]
      exact h.exclusive
    · rw [heq, hlocked]
      exact h.exclusive.take (fun x hx => (hxs x hx).1) hnodup
    · rw [heq, hlocked]
      exact h.exclusive.drop hx
  · dsimp only at hx
    by_cases hji : j = i
    · subst hji
      rw [Function.update_self] at hx
      rcases hlocks with ⟨heq, -⟩ | ⟨xs, hxs, -, heq, -⟩ | ⟨y, -, heq, -⟩
      · exact hgrown x (h.has j x (heq ▸ hx))
      · rw [heq, List.mem_append] at hx
        exact hx.elim (fun hx => (hxs x hx).2) fun hx => hgrown x (h.has j x hx)
      · rw [heq] at hx
        exact hgrown x (h.has j x (List.mem_of_mem_erase hx))
    · rw [Function.update_of_ne hji] at hx
      exact hgrown x (h.has j x hx)
  · refine (hact.sized hok (h.parts i) h.sized halone).imp fun hadded => ?_
    dsimp only
    rcases hadded with hi | ⟨hi, j, hj⟩
    · refine ⟨i, ?_⟩
      rw [Function.update_self]
      exact hi
    · refine ⟨j, ?_⟩
      rw [Function.update_of_ne fun (heq : j = i) => hi (heq ▸ hj)]
      exact hj
  · dsimp only at hj
    by_cases hji : j = i
    · subst hji
      rw [Function.update_self] at hj
      exact hknown c p hp hj hhp
    · rw [Function.update_of_ne hji] at hj
      exact Nat.le_trans (h.known j c p hp hj hhp) hle
  · dsimp only
    by_cases hji : j = i
    · subst hji
      rw [Function.update_self]
      exact hact.ok (h.parts j) h.sized hplace (h.known j) halone
    · rw [Function.update_of_ne hji]
      exact (hdisturbs j hji).ok (h.parts j)

omit [DecidableEq K] [DecidableEq ι] in
theorem start (P : Params K) (n : Nat) :
    LocksOk P (.start P ι n : Lockers ι K V) := by
  refine ⟨Exclusive.start, fun i x hx => absurd hx List.not_mem_nil, ?_,
    fun i c p hp hi => absurd hi (Option.some_ne_none _).symm, fun i => .idle⟩
  exact ⟨List.pairwise_singleton _ _, _, rfl, Nat.le_refl _, .inl rfl⟩

/-- **In every interleaving** the locks are in order. -/
theorem run {n : Nat} {log : List (ι × CallEvent K V)}
    (hr : Run (Locking P) (.start P ι n) log S) : LocksOk P S := by
  induction hr with
  | refl => exact start P n
  | snoc hr hs ih =>
      obtain ⟨i, hs⟩ := hs
      cases hs with
      | intro hact =>
          obtain ⟨⟨A, -, hok⟩, hplace⟩ := Callers.reached (locks_refine hr)
          exact ih.act hok (hplace i) hact

end LocksOk

end Libcuckoo
