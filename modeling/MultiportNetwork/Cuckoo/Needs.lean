import MultiportNetwork.Cuckoo.Ends
import MultiportNetwork.Cuckoo.Locks

/-!
# MultiportNetwork.Cuckoo.Needs

What a thread needs of the hashpower and of the locks: a step leaves the hashpower alone unless
it needs all locks, and the locks that are needed for a step are in order, and there are that
many for the hashpower.

The first is what makes `check_hashpower` enough: who has a lock of the current array may rely on
the hashpower till it lets go of it. The second is what keeps threads from waiting for each other,
and every lock within its array.
-/

namespace Libcuckoo

variable {K V : Type} [DecidableEq K] {P : Params K} {A : K → Option V} {c : Call K V}
  {p p' : Place} {hp : Nat} {ls : List Nat} {m m' : CuckooMap K V}

/-! ### The hashpower -/

/-- The hashpower that a thread works with. -/
def Place.hashpower? : Place → Option Nat
  | .snapshot => none
  | .locking hp | .searching hp _ | .tracing hp _ _ _ _ | .moving hp _ _ _ | .doubling hp =>
    some hp

/-- What a step makes of the hashpower: only an expansion changes it, by one, and a thread
works with one it knows. -/
structure Advanced (p : Place) (m : CuckooMap K V) (r : Next V × CuckooMap K V) : Prop where
  /-- It does not change under the feet of those who have locks of some buckets. -/
  same : p.need P c ≠ .all → r.2.hashpower = m.hashpower
  le : m.hashpower ≤ r.2.hashpower
  /-- The thread goes on with the one it had, or has just read the current one. -/
  known : ∀ p' hp, r.1 = .at p' → p'.hashpower? = some hp →
    p.hashpower? = some hp ∨ hp = m.hashpower

omit [DecidableEq K] in
theorem Advanced.of_same {r : Next V × CuckooMap K V} (hsame : r.2.hashpower = m.hashpower)
    (hknown : ∀ p' hp, r.1 = .at p' → p'.hashpower? = some hp →
      p.hashpower? = some hp ∨ hp = m.hashpower) :
    Advanced (P := P) (c := c) p m r :=
  ⟨fun _ => hsame, hsame.ge, hknown⟩

/-- **Every step** is so. There is one case for each place; rehashing never touches the hashpower
(`Rehashed.hashpower`), and what is done then is to write entries. -/
theorem Call.step_advanced (h : m.Ok P A) (p : Place) :
    Advanced (P := P) (c := c) p m (c.step P m p) := by
  -- a call that begins anew has forgotten the hashpower
  have hsnapshot : ∀ p' hp', (.at .snapshot : Next V) = .at p' → p'.hashpower? = some hp' →
      p.hashpower? = some hp' ∨ hp' = m.hashpower := by
    intro p' hp' heq hhp
    cases heq
    cases hhp
  have hback : Advanced (P := P) (c := c) p m (.at .snapshot, m) := .of_same rfl hsnapshot
  have hover : ∀ {r : Option V} {m' : CuckooMap K V}, m'.hashpower = m.hashpower →
      Advanced (P := P) (c := c) p m (.returned r, m') := fun hsame =>
    .of_same hsame fun p' hp' heq => by cases heq
  cases p with
  | snapshot =>
      refine .of_same rfl fun p' hp' heq hhp => ?_
      cases heq
      cases hhp
      exact .inr rfl
  | locking hp =>
      rw [Call.step]
      split
      · exact hback
      next m₁ hlock =>
        have hhp := (h.lockTwo hlock).rehashed.hashpower
        split
        · obtain ⟨v, m₂, hret, hsame⟩ := c.lookUp_returns (P := P) hp m₁
          rw [hret]
          exact hover (hsame.trans hhp)
        next val _ =>
          rcases c.cuckooInsert_next (P := P) hp m₁ val with ⟨v, m₂, hret, hsame⟩ | hsearch
          · rw [hret]
            exact hover (hsame.trans hhp)
          · rw [hsearch]
            refine .of_same hhp fun p' hp' heq hhp' => ?_
            cases heq
            cases hhp'
            exact .inr hhp
  | searching hp q =>
      rw [Call.step, Call.searchStep]
      split
      · refine .of_same rfl fun p' hp' heq hhp => ?_
        cases heq
        cases hhp
        exact .inl rfl
      · split
        · exact hback
        next m₁ hlock =>
          have hhp := (h.lockOne hlock).rehashed.hashpower
          split
          · refine .of_same hhp fun p' hp' heq hhp' => ?_
            cases heq
            cases hhp'
            exact .inl rfl
          · refine .of_same hhp fun p' hp' heq hhp' => ?_
            cases heq
            cases hhp'
            exact .inl rfl
  | tracing hp path bucket slot rest =>
      rw [Call.step, traceStep]
      split
      · exact hback
      next m₁ hlock =>
        have hhp := (h.lockOne hlock).rehashed.hashpower
        split
        all_goals
          refine .of_same hhp fun p' hp' heq hhp' => ?_
          cases heq
          cases hhp'
          exact .inl rfl
  | moving hp path bucket slot =>
      rw [Call.step]
      split
      · exact hback
      next val _ =>
        obtain ⟨r, m₁, heq, hsame, hr⟩ := c.moveStep_next h hp val path bucket slot
        rw [heq]
        rcases hr with rfl | ⟨rfl, -⟩ | ⟨v, rfl⟩ | ⟨last, rest, -, rfl⟩
        · exact .of_same hsame hsnapshot
        · refine .of_same hsame fun p' hp' heq hhp => ?_
          cases heq
          cases hhp
          exact .inl rfl
        · exact hover hsame
        · refine .of_same hsame fun p' hp' heq hhp => ?_
          cases heq
          cases hhp
          exact .inl rfl
  | doubling hp =>
      rw [Call.step, doubleStep]
      split
      · exact .of_same rfl fun p' hp' heq => by cases heq
      next st m₁ hdouble =>
        refine ⟨fun hneed => absurd rfl hneed, ?_, hsnapshot⟩
        rcases CuckooMap.cuckooFastDouble_ok hdouble with ⟨-, rfl, rfl⟩ | ⟨-, -, rfl⟩
        · rw [h.grow.2]
          exact Nat.le_succ _
        · exact Nat.le_refl _

/-! ### The locks of buckets -/

-- `lock_two` and `lock_three` sort by swapping, and leave out a lock that is there already

theorem inOrder_eq (a b : Nat) : CuckooMap.inOrder a b = (min a b, max a b) := by
  rw [CuckooMap.inOrder]
  split
  · rw [Nat.min_eq_right (by omega), Nat.max_eq_left (by omega)]
  · rw [Nat.min_eq_left (by omega), Nat.max_eq_right (by omega)]

/-- A lock that is left out is one that has been taken. -/
theorem mem_unless {x l l' : Nat} : x ∈ (if l' ≠ l then [l'] else []) ↔ x = l' ∧ l' ≠ l := by
  split
  next h => simp [h]
  next h => simp [h]

/-- The locks that are taken are those of the buckets, whichever of them are the same. -/
theorem mem_twoLocks {a b x : Nat} : x ∈ twoLocks a b ↔ x = a ∨ x = b := by
  simp only [twoLocks, inOrder_eq, List.mem_cons, mem_unless]
  omega

theorem mem_threeLocks {a b c x : Nat} : x ∈ threeLocks a b c ↔ x = a ∨ x = b ∨ x = c := by
  simp only [threeLocks, inOrder_eq, List.mem_cons, List.mem_append, mem_unless]
  omega

/-- Locks that are not before one follow it in order. -/
theorem pairwise_unless {l l' : Nat} (h : l ≤ l') :
    (l :: if l' ≠ l then [l'] else []).Pairwise (· < ·) := by
  rw [List.pairwise_cons]
  refine ⟨fun x hx => ?_, ?_⟩
  · obtain ⟨rfl, hne⟩ := mem_unless.mp hx
    omega
  · split
    · exact List.pairwise_singleton _ _
    · exact List.Pairwise.nil

/-- The locks are taken in order, each of them once. -/
theorem twoLocks_sorted (a b : Nat) : (twoLocks a b).Pairwise (· < ·) := by
  rw [twoLocks, inOrder_eq]
  exact pairwise_unless (by omega)

theorem threeLocks_sorted (a b c : Nat) : (threeLocks a b c).Pairwise (· < ·) := by
  simp only [threeLocks, inOrder_eq]
  -- the three swaps have sorted the numbers, which `omega` sees of `min` and `max`
  generalize hfirst : min (min a (max b c)) (min b c) = l0
  generalize hsecond : max (min a (max b c)) (min b c) = l1
  generalize hthird : max a (max b c) = l2
  have h01 : l0 ≤ l1 := by omega
  have h12 : l1 ≤ l2 := by omega
  rw [← List.cons_append, List.pairwise_append]
  refine ⟨pairwise_unless h01, ?_, fun x hx y hy => ?_⟩
  · split
    · exact List.pairwise_singleton _ _
    · exact List.Pairwise.nil
  · obtain ⟨rfl, hne⟩ := mem_unless.mp hy
    rw [List.mem_cons, mem_unless] at hx
    omega

/-- The number of locks for a hashpower. -/
def Params.lockCount (P : Params K) (hp : Nat) : Nat := min (2 ^ hp) P.maxNumLocks

/-- Locks that can be taken one after the other. -/
structure Takable (P : Params K) (hp : Nat) (ls : List Nat) : Prop where
  /-- There is a lock to hold when the hashpower is checked. -/
  ne : ls ≠ []
  /-- No thread waits for a lock with one behind it taken. -/
  sorted : ls.Pairwise (· < ·)
  /-- An array that is large enough for the hashpower has them. -/
  lt : ∀ l ∈ ls, l < P.lockCount hp

omit [DecidableEq K] in
theorem Takable.one {i : Nat} (hi : i < 2 ^ hp) : Takable P hp [P.lockInd i] := by
  refine ⟨List.cons_ne_nil _ _, List.pairwise_singleton _ _, fun l hl => ?_⟩
  rw [List.mem_singleton.mp hl]
  exact P.lockInd_lt hi

omit [DecidableEq K] in
theorem Takable.two {i j : Nat} (hi : i < 2 ^ hp) (hj : j < 2 ^ hp) :
    Takable P hp (twoLocks (P.lockInd i) (P.lockInd j)) := by
  refine ⟨List.cons_ne_nil _ _, twoLocks_sorted _ _, fun l hl => ?_⟩
  rcases mem_twoLocks.mp hl with rfl | rfl
  · exact P.lockInd_lt hi
  · exact P.lockInd_lt hj

omit [DecidableEq K] in
theorem Takable.three {i j k : Nat} (hi : i < 2 ^ hp) (hj : j < 2 ^ hp) (hk : k < 2 ^ hp) :
    Takable P hp (threeLocks (P.lockInd i) (P.lockInd j) (P.lockInd k)) := by
  refine ⟨List.cons_ne_nil _ _, threeLocks_sorted _ _ _, fun l hl => ?_⟩
  rcases mem_threeLocks.mp hl with rfl | rfl | rfl
  · exact P.lockInd_lt hi
  · exact P.lockInd_lt hj
  · exact P.lockInd_lt hk

omit [DecidableEq K] in
/-- **What is needed can be taken** from the locks for the hashpower: the buckets a thread is
about are buckets of the table, even where they come from a path that others have made useless. -/
theorem Place.Ok.takable (h : p.Ok P c.key) (hneed : p.need P c = .these hp ls) :
    p.hashpower? = some hp ∧ Takable P hp ls := by
  have hi1 : ∀ hp, (c.hv P).i1 hp < 2 ^ hp := fun hp => HashValue.i1_lt _ hp
  have hi2 : ∀ hp, (c.hv P).i2 hp < 2 ^ hp := fun hp => HashValue.i2_lt _ hp
  cases p with
  | snapshot => cases hneed
  | locking hp' =>
      obtain ⟨rfl, rfl⟩ := Need.these.inj hneed
      exact ⟨rfl, .two (hi1 _) (hi2 _)⟩
  | searching hp' q =>
      change q.need P hp' = .these hp ls at hneed
      rw [BQueue.need] at hneed
      split at hneed
      · cases hneed
      next x pending hpending =>
        obtain ⟨rfl, rfl⟩ := Need.these.inj hneed
        exact ⟨rfl, .one (h.2 x (by rw [hpending]; exact List.mem_cons_self))⟩
  | tracing hp' path bucket slot rest =>
      obtain ⟨rfl, rfl⟩ := Need.these.inj hneed
      exact ⟨rfl, .one h.1.lt⟩
  | moving hp' path bucket slot =>
      rw [Place.need] at hneed
      split at hneed
      · obtain ⟨hchain, -⟩ := h
        rcases path with _ | ⟨last, _ | ⟨next, path⟩⟩
        · obtain ⟨rfl, rfl⟩ := Need.these.inj hneed
          exact ⟨rfl, .two (hi1 _) (hi2 _)⟩
        · obtain ⟨rfl, rfl⟩ := Need.these.inj hneed
          exact ⟨rfl, .three (hi1 _) (hi2 _) hchain.lt⟩
        · obtain ⟨rfl, rfl⟩ := Need.these.inj hneed
          exact ⟨rfl, .two hchain.2.2.lt hchain.lt⟩
      · cases hneed
  | doubling hp' => cases hneed

end Libcuckoo
