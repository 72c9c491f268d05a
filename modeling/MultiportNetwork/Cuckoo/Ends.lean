import MultiportNetwork.Cuckoo.Displace

/-!
# MultiportNetwork.Cuckoo.Ends

A call that nobody disturbs any longer comes to an end, wherever it is, and whatever others
have done to the table since it began (`Ends.of_place`). What was prepared for another table
fails and is begun anew; what is begun anew inserts or expands, and it cannot expand for ever,
since a table that is expanded must be filled to its minimum load factor. That it also gets the
locks it needs is in `MultiportNetwork.Cuckoo.Alone`.
-/

namespace Libcuckoo

variable {K V : Type} {P : Params K} {A : K → Option V} {hp : Nat} {key : K}
  {m m' : CuckooMap K V}

/-- The call ends, if nobody disturbs it. -/
def Ends [DecidableEq K] (P : Params K) (c : Call K V) (m : CuckooMap K V) (p : Place) : Prop :=
  (∃ r m', Returns (Call.step P) c (m, p) r m') ∨ ∃ e m', Throws (Call.step P) c (m, p) e m'

/-- What bounds the hashpower of a table that is expanded with `n` entries in it. The minimum load
factor counts units of `2^-56` and is at least one of them. -/
def loadBound (n : Int) : Nat := (n * 2 ^ 56).toNat

/-- **A table that may be expanded is not larger than what is in it allows.** -/
theorem CuckooMap.hashpower_lt (hmin : 0 < P.minimumLoadFactor)
    (hload : m.loadFactorTooLow P = false) : m.hashpower < loadBound m.size := by
  rw [loadFactorTooLow, decide_eq_false_iff_not, Int.not_lt, capacity, BucketContainer.size,
    hashsize] at hload
  have hpow : m.hashpower < 2 ^ m.buckets.hashpower := Nat.lt_two_pow_self
  have hcap : 1 * (2 ^ m.buckets.hashpower * 1) ≤
      P.minimumLoadFactor * (2 ^ m.buckets.hashpower * slotPerBucket) :=
    Nat.mul_le_mul hmin (Nat.mul_le_mul_left _ (by decide))
  rw [Nat.one_mul, Nat.mul_one] at hcap
  have hle : ((P.minimumLoadFactor * (2 ^ m.buckets.hashpower * slotPerBucket) : Nat) : Int) ≤
      m.size * 2 ^ 56 := by
    exact_mod_cast hload
  rw [loadBound]
  omega

/-- A table that has been expanded had been filled to its minimum load factor. -/
theorem CuckooMap.cuckooFastDouble_load {st : CuckooStatus}
    (h : m.cuckooFastDouble P hp = .ok (st, m')) : m.loadFactorTooLow P = false := by
  by_contra hload
  rw [Bool.not_eq_false] at hload
  rw [CuckooMap.cuckooFastDouble, checkResizeValidity] at h
  by_cases hmax : P.maximumHashpower.any (· < hp + 1)
  · rw [if_pos hmax] at h
    cases h
  · rw [if_neg hmax, if_pos hload] at h
    cases h

/-- The counters do not depend on how the entries lie. -/
theorem CuckooMap.Counts.unique {n n' : Int} (h : Counts A n) (h' : Counts A n') : n = n' := by
  obtain ⟨keys, hmem, rfl⟩ := h
  obtain ⟨keys', hmem', rfl⟩ := h'
  have hsame : keys = keys' := by
    ext k
    rw [hmem, hmem']
  rw [hsame]

variable [DecidableEq K] {c : Call K V} {p : Place} {val : V}

/-- It is enough that it ends from a place it comes to. -/
theorem Ends.of_leads {p' : Place} (h : Leads (Call.step P) c (m, p) (m', p'))
    (h' : Ends P c m' p') : Ends P c m p := by
  rcases h' with ⟨r, m'', hret⟩ | ⟨e, m'', hthrow⟩
  · exact .inl ⟨r, m'', h.returns hret⟩
  · exact .inr ⟨e, m'', h.throws hthrow⟩

theorem Ends.step {p' : Place} (h : c.step P m p = (.at p', m')) (h' : Ends P c m' p') :
    Ends P c m p :=
  .of_leads (.single h) h'

theorem Ends.returned {r : Option V} (h : c.step P m p = (.returned r, m')) : Ends P c m p :=
  .inl ⟨r, m', _, .refl, h⟩

/-- What an insertion comes to once the two buckets are locked. -/
theorem Call.cuckooInsert_next (c : Call K V) (hp : Nat) (m : CuckooMap K V) (val : V) :
    (∃ r m', c.cuckooInsert P hp m val = (.returned r, m') ∧ m'.hashpower = m.hashpower) ∨
      c.cuckooInsert P hp m val = (c.search P m.hashpower, m) := by
  rw [Call.cuckooInsert]
  split
  · exact .inl (c.apply_returns m _ _)
  · split
    · exact .inl (c.apply_returns m _ _)
    · split
      · exact .inl ⟨_, _, rfl, rfl⟩
      · exact .inl ⟨_, _, rfl, rfl⟩
      · exact .inr rfl

/-- A look-up returns once the two buckets are locked. -/
theorem Call.lookUp_returns (c : Call K V) (hp : Nat) (m : CuckooMap K V) :
    ∃ r m', c.lookUp P hp m = (.returned r, m') ∧ m'.hashpower = m.hashpower := by
  rw [Call.lookUp]
  split
  · exact c.apply_returns m _ _
  · exact ⟨_, _, rfl, rfl⟩

/-- An expansion throws, or the call is begun anew. -/
theorem Ends.doubling {hp : Nat} (hnext : ∀ st m', m.cuckooFastDouble P hp = .ok (st, m') →
    Ends P c m' .snapshot) : Ends P c m (.doubling hp) := by
  cases hdouble : m.cuckooFastDouble P hp with
  | error e =>
      have hstep : c.step P m (.doubling hp) = (.threw e, m) := by
        rw [Call.step, doubleStep, hdouble]
      exact .inr ⟨e, m, _, .refl, hstep⟩
  | ok r =>
      obtain ⟨st, m'⟩ := r
      have hstep : c.step P m (.doubling hp) = (.at .snapshot, m') := by
        rw [Call.step, doubleStep, hdouble]
      exact .step hstep (hnext st m' hdouble)

/-- **A call that is begun anew ends**, by induction on what the table can still be expanded:
the number of entries does not change meanwhile, and `hashpower_lt` bounds the hashpower by it. -/
theorem Ends.snapshot (hmin : 0 < P.minimumLoadFactor) (h : m.Ok P A) :
    Ends P c m .snapshot := by
  obtain ⟨n, hn⟩ : ∃ n, loadBound m.size - m.hashpower = n := ⟨_, rfl⟩
  induction n using Nat.strong_induction_on generalizing m with
  | h n ih =>
      have hread : c.step P m .snapshot = (.at (.locking m.hashpower), m) := rfl
      refine .step hread ?_
      -- nobody changes the hashpower in between, so the locks are got
      obtain ⟨m₁, hlock, hlocked⟩ := h.lockTwo_some rfl ((c.hv P).i1 m.hashpower)
        ((c.hv P).i2 m.hashpower)
      cases hval : c.insert with
      | none =>
          -- a look-up
          obtain ⟨r, m₂, hret, -⟩ := c.lookUp_returns (P := P) m.hashpower m₁
          have hstep : c.step P m (.locking m.hashpower) = (.returned r, m₂) := by
            rw [Call.step]
            simp only [hlock, hval, hret]
          exact .returned hstep
      | some val =>
          have hstep : c.step P m (.locking m.hashpower) =
              c.cuckooInsert P m.hashpower m₁ val := by
            rw [Call.step]
            simp only [hlock, hval]
          rcases c.cuckooInsert_next (P := P) m.hashpower m₁ val with ⟨r, m₂, hret, -⟩ | hsearch
          · exact .returned (hstep.trans hret)
          -- both buckets are full: a search, which finds a path that can be moved, or nothing
          have hhp := hlocked.hashpower
          rw [hsearch, hhp] at hstep
          refine .step hstep ?_
          rcases insertion_undisturbed hval hlocked.ok hhp with
            ⟨-, m₂, hsame, hlead⟩ | ⟨-, path, b, s, m₂, -, -, hlead, r, m₃, hret, -⟩
          swap
          · exact .inl ⟨r, m₃, hlead.returns hret⟩
          -- everything is full: the table is expanded, or the call throws
          have hhp₂ := hsame.rehashed.hashpower.trans hhp
          refine .of_leads hlead (.doubling fun st m₃ hdouble => ?_)
          have hlt := m₂.hashpower_lt hmin (CuckooMap.cuckooFastDouble_load hdouble)
          rw [hsame.ok.counts.unique h.counts] at hlt
          rcases CuckooMap.cuckooFastDouble_ok hdouble with ⟨-, -, rfl⟩ | ⟨-, hne, -⟩
          swap
          · exact absurd hhp₂ hne
          obtain ⟨hok, hlarger⟩ := hsame.ok.grow
          rw [hhp₂] at hok hlarger hlt
          exact ih _ (by rw [hok.counts.unique h.counts, hlarger, ← hn]; omega) hok rfl

/-! ### Wherever the call is

Others may have changed anything before they stopped. So at each place there are two cases: what
the call has prepared is still good and is carried out, or it is found not to be when the locks
are taken, and then the call begins anew or searches anew. -/

theorem Ends.expand (hmin : 0 < P.minimumLoadFactor) (h : m.Ok P A) :
    Ends P c m (.doubling hp) :=
  .doubling fun _ _ hdouble => .snapshot hmin (h.cuckooFastDouble hdouble)

/-- A search that is begun now ends. -/
theorem Ends.fresh (hmin : 0 < P.minimumLoadFactor) (h : m.Ok P A) (hhp : m.hashpower = hp)
    (hval : c.insert = some val) :
    Ends P c m (.searching hp (.start ((c.hv P).i1 hp) ((c.hv P).i2 hp))) := by
  rcases insertion_undisturbed hval h hhp with
    ⟨-, m', hsame, hlead⟩ | ⟨-, path, b, s, m₁, -, -, hlead, r, m', hret, -⟩
  · exact .of_leads hlead (.expand hmin hsame.ok)
  · exact .inl ⟨r, m', hlead.returns hret⟩

/-- What a step of `cuckoopath_move` comes to. -/
theorem Call.moveStep_next (h : m.Ok P A) (hp : Nat) (val : V) (path : List CuckooRecord)
    (bucket slot : Nat) :
    ∃ r m', c.moveStep P m hp path bucket slot val = (r, m') ∧ m'.hashpower = m.hashpower ∧
      (r = .at .snapshot ∨ (r = c.search P hp ∧ m.hashpower = hp) ∨ (∃ v, r = .returned v) ∨
        ∃ last rest, path = last :: rest ∧ r = .at (.moving hp rest last.bucket last.slot)) := by
  rcases path with _ | ⟨last, _ | ⟨next, path⟩⟩
  · rw [Call.moveStep]
    split
    · exact ⟨_, _, rfl, rfl, .inl rfl⟩
    next m' hlock =>
      have hlocked := h.lockTwo hlock
      split
      · obtain ⟨v, m'', hret, hhp⟩ := c.conclude_returns (P := P) hp m' bucket slot val
        exact ⟨_, _, hret, hhp.trans hlocked.rehashed.hashpower, .inr (.inr (.inl ⟨v, rfl⟩))⟩
      · exact ⟨_, _, rfl, hlocked.rehashed.hashpower, .inr (.inl ⟨rfl, hlocked.expected⟩)⟩
  · rw [Call.moveStep]
    split
    · exact ⟨_, _, rfl, rfl, .inl rfl⟩
    next m' hlock =>
      have hlocked := h.lockThree hlock
      split
      · exact ⟨_, _, rfl, hlocked.rehashed.hashpower, .inr (.inl ⟨rfl, hlocked.expected⟩)⟩
      next m'' hmove =>
        obtain ⟨v, m₃, hret, hhp⟩ := c.conclude_returns (P := P) hp m'' last.bucket
          last.slot val
        refine ⟨_, _, hret, ?_, .inr (.inr (.inl ⟨v, rfl⟩))⟩
        exact hhp.trans ((CuckooMap.moveEntry_hashpower hmove).trans hlocked.rehashed.hashpower)
  · rw [Call.moveStep]
    case x => exact List.cons_ne_nil _ _
    split
    · exact ⟨_, _, rfl, rfl, .inl rfl⟩
    next m' hlock =>
      have hlocked := h.lockTwo hlock
      split
      · exact ⟨_, _, rfl, hlocked.rehashed.hashpower, .inr (.inl ⟨rfl, hlocked.expected⟩)⟩
      next m'' hmove =>
        refine ⟨_, _, rfl, ?_, .inr (.inr (.inr ⟨last, next :: path, rfl, rfl⟩))⟩
        exact (CuckooMap.moveEntry_hashpower hmove).trans hlocked.rehashed.hashpower

/-- A path that is no longer there is given up, one that is there followed. By induction on its
length: each swap takes one entry off it. -/
theorem Ends.moving (hmin : 0 < P.minimumLoadFactor) (h : m.Ok P A) {path : List CuckooRecord}
    {bucket slot : Nat} (hplace : Place.Ok P c.key (.moving hp path bucket slot)) :
    Ends P c m (.moving hp path bucket slot) := by
  cases hval : c.insert with
  | none =>
      have hstep : c.step P m (.moving hp path bucket slot) = (.at .snapshot, m) := by
        rw [Call.step]
        simp only [hval]
      exact .step hstep (.snapshot hmin h)
  | some val =>
      obtain ⟨n, hn⟩ : ∃ n, path.length = n := ⟨_, rfl⟩
      induction n using Nat.strong_induction_on generalizing m path bucket slot with
      | h n ih =>
          have hstepped := Call.step_stepped (c := c) h hplace
          have hstep : c.step P m (.moving hp path bucket slot) =
              c.moveStep P m hp path bucket slot val := by
            rw [Call.step]
            simp only [hval]
          rw [hstep] at hstepped
          obtain ⟨r, m', heq, hsame, rfl | ⟨rfl, hhp⟩ | ⟨v, rfl⟩ | ⟨last, rest, rfl, rfl⟩⟩ :=
            c.moveStep_next h hp val path bucket slot
          · rw [heq] at hstepped
            exact .step (hstep.trans heq) (.snapshot hmin hstepped.2)
          · rw [heq] at hstepped
            exact .step (hstep.trans heq) (.fresh hmin hstepped.2 (hsame.trans hhp) hval)
          · exact .returned (hstep.trans heq)
          · rw [heq] at hstepped
            have hlt : rest.length < n := hn ▸ Nat.lt_succ_self _
            exact .step (hstep.trans heq) (ih _ hlt hstepped.2 hstepped.1 rfl)

omit [DecidableEq K] in
/-- What a step of `cuckoopath_search` along the path comes to. -/
theorem traceStep_next (m : CuckooMap K V) (hp : Nat) (path : List CuckooRecord)
    (bucket slot : Nat) (rest : List Nat) :
    (∃ m', traceStep P m hp path bucket slot rest = (.at .snapshot, m')) ∨
      (∃ m', traceStep P m hp path bucket slot rest = (.at (.moving hp path bucket slot), m')) ∨
      ∃ slot' rest' r b m', rest = slot' :: rest' ∧ traceStep P m hp path bucket slot rest =
        (.at (.tracing hp (r :: path) b slot' rest'), m') := by
  rw [traceStep]
  split
  · exact .inl ⟨_, rfl⟩
  · split
    · exact .inr (.inl ⟨_, rfl⟩)
    · exact .inr (.inl ⟨_, rfl⟩)
    · exact .inr (.inr ⟨_, _, _, _, _, rfl, rfl⟩)

/-- The path is traced as far as it is there, then moved along. -/
theorem Ends.tracing (hmin : 0 < P.minimumLoadFactor) (h : m.Ok P A) {path : List CuckooRecord}
    {bucket slot : Nat} {rest : List Nat}
    (hplace : Place.Ok P c.key (.tracing hp path bucket slot rest)) :
    Ends P c m (.tracing hp path bucket slot rest) := by
  obtain ⟨n, hn⟩ : ∃ n, rest.length = n := ⟨_, rfl⟩
  induction n using Nat.strong_induction_on generalizing m path bucket slot rest with
  | h n ih =>
      have hstepped := Call.step_stepped (c := c) h hplace
      rw [Call.step] at hstepped
      rcases traceStep_next (P := P) m hp path bucket slot rest with ⟨m', heq⟩ |
        ⟨m', heq⟩ | ⟨slot', rest', r, b, m', rfl, heq⟩
      · rw [heq] at hstepped
        exact .step heq (.snapshot hmin hstepped.2)
      · rw [heq] at hstepped
        exact .step heq (.moving hmin hstepped.2 hstepped.1)
      · rw [heq] at hstepped
        have hlt : rest'.length < n := hn ▸ Nat.lt_succ_self _
        exact .step heq (ih _ hlt hstepped.2 hstepped.1 rfl)

/-- A search ends, also one that has been disturbed. -/
theorem Ends.searching (hmin : 0 < P.minimumLoadFactor) (h : m.Ok P A) {q : BQueue}
    (hplace : Place.Ok P c.key (.searching hp q)) : Ends P c m (.searching hp q) := by
  by_cases hhp : m.hashpower = hp
  · -- the queue may hold buckets of a table as it was, but it gets shorter all the same
    obtain ⟨m', q', -, hsame, ⟨-, hlead⟩ | ⟨x, pending, s, hpending, hs, -, hlead⟩⟩ :=
      search_leads (c := c) (J := BQueue.Ok) rfl (fun _ hq => hq) (fun _ _ _ _ _ _ hok => hok) h
        hhp hplace.1
    · exact .of_leads hlead (.expand hmin hsame.ok)
    · have hplace' := (implements.leads h hplace hlead).1
      rw [traceStart] at hlead hplace'
      exact .of_leads hlead (.tracing hmin hsame.ok hplace')
  · -- the table has been expanded: the first lock that is taken tells
    cases hpending : q.pending with
    | nil =>
        have hstep : c.step P m (.searching hp q) = (.at (.doubling hp), m) := by
          rw [Call.step, Call.searchStep, hpending]
        exact .step hstep (.expand hmin h)
    | cons x pending =>
        have hstep : c.step P m (.searching hp q) = (.at .snapshot, m) := by
          rw [Call.step, Call.searchStep, hpending]
          simp only [CuckooMap.lockOne, if_pos hhp]
        exact .step hstep (.snapshot hmin h)

/-- The locks are not got if the hashpower has changed since it was read. -/
theorem Ends.locking (hmin : 0 < P.minimumLoadFactor) (h : m.Ok P A) :
    Ends P c m (.locking hp) := by
  cases hlock : m.lockTwo P hp ((c.hv P).i1 hp) ((c.hv P).i2 hp) with
  | none =>
      have hstep : c.step P m (.locking hp) = (.at .snapshot, m) := by
        rw [Call.step]
        simp only [hlock]
      exact .step hstep (.snapshot hmin h)
  | some m' =>
      have hlocked := h.lockTwo hlock
      cases hval : c.insert with
      | none =>
          obtain ⟨r, m'', hret, -⟩ := c.lookUp_returns (P := P) hp m'
          have hstep : c.step P m (.locking hp) = (.returned r, m'') := by
            rw [Call.step]
            simp only [hlock, hval, hret]
          exact .returned hstep
      | some val =>
          have hstep : c.step P m (.locking hp) = c.cuckooInsert P hp m' val := by
            rw [Call.step]
            simp only [hlock, hval]
          rcases c.cuckooInsert_next (P := P) hp m' val with ⟨r, m'', hret, -⟩ | hsearch
          · exact .returned (hstep.trans hret)
          · rw [hsearch, hlocked.hashpower] at hstep
            exact .step hstep (.fresh hmin hlocked.ok hlocked.hashpower hval)

/-- **A call that nobody disturbs ends**, from any place. -/
theorem Ends.of_place (hmin : 0 < P.minimumLoadFactor) (h : m.Ok P A)
    (hplace : p.Ok P c.key) : Ends P c m p := by
  cases p with
  | snapshot => exact .snapshot hmin h
  | locking hp => exact .locking hmin h
  | searching hp q => exact .searching hmin h hplace
  | tracing hp path bucket slot rest => exact .tracing hmin h hplace
  | moving hp path bucket slot => exact .moving hmin h hplace
  | doubling hp => exact .expand hmin h

end Libcuckoo
