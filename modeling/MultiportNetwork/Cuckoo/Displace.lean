import MultiportNetwork.Cuckoo.Search

/-!
# MultiportNetwork.Cuckoo.Displace

Undisturbed, `cuckoopath_move` carries all entries of the path that was found. A search that
takes the nearest empty slot never comes through one bucket twice (`Route.nodup`), so no swap
changes what a later one relies on. With this an insertion that nobody disturbs comes to its
end: it expands the table only if everything within reach is full
(`insertion_undisturbed`).

Swaps begin at the end of the path: the last entry goes to the empty slot, and leaves one for the
entry before it. In the model the path is reversed for this, and the induction is on its end.
-/

namespace Libcuckoo

variable {K V : Type} {P : Params K} {T T' : Cells (Nat × Nat) (Entry K V)} {A : K → Option V}
  {hp n s : Nat} {key : K} {m m' : CuckooMap K V} {b b' : Nat} {path path' : List CuckooRecord}

/-! ### Nearest paths -/

/-- A route of so many entries leads as many displacements further. -/
theorem Route.within (h : Route P T hp b path b') (hb : Within P T hp key n b) :
    Within P T hp key (n + path.length) b' := by
  induction path generalizing n b with
  | nil =>
      obtain rfl : b = b' := h
      exact hb
  | cons r path ih =>
      obtain ⟨-, hs, ⟨e, he, hhv⟩, hrest⟩ := h
      rw [hhv] at hrest
      rw [List.length_cons, Nat.add_comm path.length, ← Nat.add_assoc]
      exact ih hrest (.hop hb hs he)

theorem Route.split (path path' : List CuckooRecord) (h : Route P T hp b (path ++ path') b') :
    ∃ b'', Route P T hp b path b'' ∧ Route P T hp b'' path' b' := by
  induction path generalizing b with
  | nil => exact ⟨b, rfl, h⟩
  | cons r path ih =>
      obtain ⟨hbucket, hs, he, hrest⟩ := h
      obtain ⟨b'', hroute, hroute'⟩ := ih hrest
      exact ⟨b'', ⟨hbucket, hs, he, hroute⟩, hroute'⟩

/-- A route is one as long as its own entries are where they were. -/
theorem Route.congr (h : Route P T hp b path b')
    (hsame : ∀ r ∈ path, T' (r.bucket, r.slot) = T (r.bucket, r.slot)) :
    Route P T' hp b path b' := by
  induction path generalizing b with
  | nil => exact h
  | cons r path ih =>
      obtain ⟨rfl, hs, ⟨e, he, hhv⟩, hrest⟩ := h
      obtain ⟨hr, hpath⟩ := List.forall_mem_cons.mp hsame
      exact ⟨rfl, hs, ⟨e, hr.trans he, hhv⟩, ih hrest hpath⟩

/-- **No bucket is come through twice**, where there is no shorter way. -/
theorem Route.nodup (h : Route P T hp b path b') (hb : P.Home hp key b)
    (hnearest : ∀ n < path.length, ¬ Within P T hp key n b') :
    (path.map CuckooRecord.bucket).Nodup ∧ b' ∉ path.map CuckooRecord.bucket := by
  -- by induction from the end: a bucket that comes again would be within reach with fewer
  -- displacements, and then so would the last one
  have hsuffix : ∀ done todo, path = done ++ todo →
      (todo.map CuckooRecord.bucket).Nodup ∧ b' ∉ todo.map CuckooRecord.bucket := by
    intro done todo
    induction todo generalizing done with
    | nil => exact fun _ => ⟨List.nodup_nil, List.not_mem_nil⟩
    | cons r todo ih =>
        intro heq
        obtain ⟨hnodup, hnotin⟩ := ih (done ++ [r]) (by rw [heq, List.append_assoc]; rfl)
        rw [heq] at h hnearest
        obtain ⟨b'', hroute, hr⟩ := Route.split _ _ h
        have hbucket : r.bucket = b'' := hr.1
        have hwithin := hroute.within (.home hb)
        rw [Nat.zero_add] at hwithin
        rw [List.map_cons, List.nodup_cons, List.mem_cons]
        refine ⟨⟨fun hmem => ?_, hnodup⟩, fun hmem => ?_⟩
        · -- from the first visit the way goes on as from the second
          obtain ⟨r', hr', hsame⟩ := List.mem_map.mp hmem
          obtain ⟨todo₁, todo₂, rfl⟩ := List.append_of_mem hr'
          obtain ⟨b₃, -, hlast⟩ := Route.split (r :: todo₁) (r' :: todo₂) hr
          have hb₃ : b₃ = b'' := by rw [← hlast.1, hsame, hbucket]
          rw [hb₃] at hlast
          refine hnearest _ ?_ (hlast.within hwithin)
          simp only [List.length_append, List.length_cons]
          omega
        · rcases hmem with rfl | hmem
          · rw [hbucket] at hnearest
            refine hnearest _ ?_ hwithin
            rw [List.length_append, List.length_cons]
            omega
          · exact hnotin hmem
  exact hsuffix [] path rfl

/-! ### The swaps -/

variable [DecidableEq K] {c : Call K V} {val : V}

omit [DecidableEq K] in
/-- The insertion at the end returns. -/
theorem Call.apply_returns (c : Call K V) (m : CuckooMap K V) (i s : Nat) :
    ∃ r m', c.apply P m i s = (.returned r, m') ∧ m'.hashpower = m.hashpower := by
  rw [Call.apply]
  split
  · exact ⟨_, _, rfl, rfl⟩
  · refine ⟨_, _, rfl, ?_⟩
    split <;> rfl

theorem Call.conclude_returns (c : Call K V) (hp : Nat) (m : CuckooMap K V) (i s : Nat)
    (val : V) :
    ∃ r m', c.conclude P hp m i s val = (.returned r, m') ∧ m'.hashpower = m.hashpower := by
  rw [Call.conclude]
  split
  · exact c.apply_returns m _ _
  · exact ⟨_, _, rfl, rfl⟩

-- with the hashpower as expected `lock_two` and `lock_three` do not throw

omit [DecidableEq K] in
theorem CuckooMap.Ok.lockTwo_some (h : m.Ok P A) (hhp : m.hashpower = hp) (i j : Nat) :
    ∃ m', m.lockTwo P hp i j = some m' ∧ CuckooMap.Locked P A m hp [i, j] m' := by
  obtain ⟨m', heq⟩ : ∃ m', m.lockTwo P hp i j = some m' := by
    rw [CuckooMap.lockTwo]
    exact ⟨_, if_neg (not_not_intro hhp)⟩
  exact ⟨m', heq, h.lockTwo heq⟩

omit [DecidableEq K] in
theorem CuckooMap.Ok.lockThree_some (h : m.Ok P A) (hhp : m.hashpower = hp) (i j k : Nat) :
    ∃ m', m.lockThree P hp i j k = some m' ∧ CuckooMap.Locked P A m hp [i, j, k] m' := by
  obtain ⟨m', heq⟩ : ∃ m', m.lockThree P hp i j k = some m' := by
    rw [CuckooMap.lockThree]
    exact ⟨_, if_neg (not_not_intro hhp)⟩
  exact ⟨m', heq, h.lockThree heq⟩

omit [DecidableEq K] in
/-- A swap of two slots that are as they were found. -/
theorem CuckooMap.Locked.swap {inds : List Nat} {i j r : Nat} {hv : HashValue} {e : Entry K V}
    (h : CuckooMap.Locked P A m hp inds m') (hi : i ∈ inds) (hj : j ∈ inds)
    (hfree : m.settled P (j, r) = none) (he : m.settled P (i, s) = some e)
    (hhv : hv = P.hashedKey e.key) (hr : r < slotPerBucket)
    (hto : j = altIndex hp hv.partialKey i) :
    ∃ m'', m'.moveEntry P i s hv.hash j r = some m'' ∧ m''.Ok P A ∧ m''.hashpower = hp ∧
      m''.locks = m'.locks ∧ m''.settled P = (m.settled P).carry (i, s) (j, r) := by
  have hmove : ∃ m'', m'.moveEntry P i s hv.hash j r = some m'' := by
    rw [CuckooMap.moveEntry, h.slots hi, h.slots hj, hfree, he, hhv]
    exact ⟨_, if_neg (not_not_intro rfl)⟩
  obtain ⟨m'', hmove⟩ := hmove
  obtain ⟨hok, hhp, hlocks, hsettled⟩ := h.ok.moveEntry (h.migrated i hi) (h.migrated j hj) hr
    (by rw [hhv]; rfl) (by rw [h.hashpower]; exact hto) hmove
  rw [h.rehashed.settled] at hsettled
  exact ⟨m'', hmove, hok, hhp.trans h.hashpower, hlocks, hsettled⟩

/-! ### What the insertion leaves alone -/

/-- The entries of other keys are where `T` has them. What becomes of the entry of the key itself
is for `Call.perform` to say. -/
def Spares (P : Params K) (key : K) (T : Cells (Nat × Nat) (Entry K V)) (m : CuckooMap K V) :
    Prop :=
  ∀ p e, T p = some e → e.key ≠ key → m.settled P p = some e

omit [DecidableEq K] in
/-- One cell has been written, and there was no entry of another key in it. -/
theorem Spares.of_update {p : Nat × Nat} {o : Option (Entry K V)}
    (hp : ∀ e, T p = some e → e.key = key) (hm : m.settled P = Function.update T p o) :
    Spares P key T m := by
  intro q e hq hne
  have hqp : q ≠ p := by
    intro heq
    rw [heq] at hq
    exact hne (hp e hq)
  rw [hm, Function.update_of_ne hqp, hq]

omit [DecidableEq K] in
/-- `fn` and the erasing that may follow change the entry that has been found. -/
theorem Call.apply_spares (c : Call K V) {i : Nat} {e : Entry K V}
    (hi : (m.locks (P.lockInd i)).isMigrated = true) (he : m.buckets.slots (i, s) = some e)
    (hkey : e.key = c.key) : Spares P c.key (m.settled P) (c.apply P m i s).2 := by
  have honly : ∀ d, m.settled P (i, s) = some d → d.key = c.key := by
    intro d hd
    rw [CuckooMap.settled_migrated hi, he] at hd
    cases hd
    exact hkey
  have hset : (m.setMapped i s e (c.fn e.mapped).1).settled P =
      Function.update (m.settled P) (i, s) (some { e with mapped := (c.fn e.mapped).1 }) := by
    have hput := CuckooMap.put_settled (s := s) hi
      (some { e with mapped := (c.fn e.mapped).1 }) 0
    rw [CuckooMap.put_zero] at hput
    exact hput
  rw [Call.apply, he]
  dsimp only
  split
  · have hdel := CuckooMap.put_settled (P := P) (m := m.setMapped i s e (c.fn e.mapped).1) (s := s)
      hi none (-1)
    rw [hset, Function.update_idem] at hdel
    exact .of_update honly hdel
  · exact .of_update honly hset

/-- The insertion writes the slot that has been freed, or changes the key's entry. -/
theorem Call.conclude_spares (c : Call K V) {i : Nat} (h : m.Ok P A) (hheld : Held P c.key hp m)
    (hi : P.Home hp c.key i) (hfree : m.buckets.slots (i, s) = none) (val : V) :
    Spares P c.key (m.settled P) (c.conclude P hp m i s val).2 := by
  have hspec := c.find_spec h hheld
  rw [Call.conclude]
  split
  next j r heq =>
    rw [heq] at hspec
    obtain ⟨hj, e, he, hkey⟩ := hspec
    exact c.apply_spares (hheld.migrated j hj) he hkey
  next heq =>
    refine .of_update (p := (i, s)) (fun e he => ?_)
      (CuckooMap.put_settled (hheld.migrated i hi) _ 1)
    rw [CuckooMap.settled_migrated (hheld.migrated i hi), hfree] at he
    cases he

/-! ### All swaps -/

/-- The cell of an entry on a path. -/
def CuckooRecord.cell (r : CuckooRecord) : Nat × Nat := (r.bucket, r.slot)

/-- **All swaps succeed**, and the insertion returns: every entry of the path is in the slot
behind its own, and of the others at most that of the key has been touched. -/
theorem moves_return (hval : c.insert = some val) (h : m.Ok P A) (hhp : m.hashpower = hp)
    (hroute : Route P (m.settled P) hp b path b') (hempty : m.settled P (b', s) = none)
    (hs : s < slotPerBucket) (hnodup : (path.map CuckooRecord.bucket).Nodup)
    (hnotin : b' ∉ path.map CuckooRecord.bucket) (hhome : P.Home hp c.key b) :
    ∃ r m', Returns (Call.step P) c (m, .moving hp path.reverse b' s) r m' ∧
      m'.hashpower = hp ∧
      Spares P c.key ((m.settled P).carryAlong (path.reverse.map CuckooRecord.cell) (b', s))
        m' := by
  induction path using List.reverseRecOn generalizing m b' s with
  | nil =>
      -- the slot is in a bucket of the key, whose locks are taken to find it still empty
      obtain rfl : b = b' := hroute
      obtain ⟨m', hlock, hlocked⟩ := h.lockTwo_some hhp ((c.hv P).i1 hp) ((c.hv P).i2 hp)
      obtain ⟨r, m'', hret, hhp'⟩ := c.conclude_returns (P := P) hp m' b s val
      have hheld : Held P c.key hp m' := hlocked.held (by simp [Call.hv]) (by simp [Call.hv])
      have hmem : b ∈ [(c.hv P).i1 hp, (c.hv P).i2 hp] := List.mem_pair.mpr hhome
      have hnone : m'.buckets.slots (b, s) = none := by rw [hlocked.slots hmem, hempty]
      have hspares := c.conclude_spares hlocked.ok hheld hhome hnone val
      rw [hret, hlocked.rehashed.settled] at hspares
      refine ⟨r, m'', ⟨_, .refl, ?_⟩, hhp'.trans hlocked.hashpower, hspares⟩
      rw [List.reverse_nil, Call.step]
      simp only [hval]
      rw [Call.moveStep]
      simp only [hlock, hnone, Option.isNone_none, if_true, hret]
  | append_singleton path last ih =>
      obtain ⟨b'', hpath, hbucket, hslot, ⟨e, he, hhv⟩, hto⟩ := Route.split _ _ hroute
      obtain rfl : last.bucket = b'' := hbucket
      rw [List.map_append, List.map_singleton] at hnodup hnotin
      obtain ⟨hnodup, -, hapart⟩ := List.nodup_append.mp hnodup
      have hnew : last.bucket ∉ path.map CuckooRecord.bucket := fun hmem =>
        hapart _ hmem _ (List.mem_singleton_self _) rfl
      have hfar : b' ∉ path.map CuckooRecord.bucket := fun hmem =>
        hnotin (List.mem_append_left _ hmem)
      -- the swap leaves the rest of the path as it was found, since it is in other buckets
      have hrest : Route P ((m.settled P).carry last.cell (b', s)) hp b path last.bucket := by
        refine hpath.congr fun r hr => Cells.carry_of_ne ?_ ?_
        · intro heq
          exact hnew ((Prod.mk.inj heq).1 ▸ List.mem_map_of_mem hr)
        · intro heq
          exact hfar ((Prod.mk.inj heq).1 ▸ List.mem_map_of_mem hr)
      rw [List.reverse_append, List.reverse_singleton, List.singleton_append, List.map_cons,
        Cells.carryAlong]
      cases hrev : path.reverse with
      | nil =>
          -- the last swap is made with the locks of the key's buckets, and the insertion under them
          obtain rfl : path = [] := List.reverse_eq_nil_iff.mp hrev
          obtain rfl : b = last.bucket := hpath
          obtain ⟨m', hlock, hlocked⟩ := h.lockThree_some hhp ((c.hv P).i1 hp) ((c.hv P).i2 hp) b'
          have hmem : last.bucket ∈ [(c.hv P).i1 hp, (c.hv P).i2 hp, b'] := by
            rcases hhome with hb | hb
            · exact List.mem_cons.mpr (.inl hb)
            · exact List.mem_cons_of_mem _ (List.mem_cons.mpr (.inl hb))
          obtain ⟨m'', hmove, hok, hhp'', hlocks, hsettled⟩ := hlocked.swap hmem (by simp) hempty
            he hhv hs hto.symm
          have hheld : Held P c.key hp m'' := by
            have hbefore : Held P c.key hp m' :=
              hlocked.held (by simp [Call.hv]) (by simp [Call.hv])
            refine ⟨hhp'', fun i hi => ?_⟩
            rw [hlocks]
            exact hbefore.migrated i hi
          have hnone : m''.buckets.slots (last.bucket, last.slot) = none := by
            rw [hheld.slots hhome, hsettled, Cells.carry_self]
          obtain ⟨r, m₃, hret, hhp₃⟩ := c.conclude_returns (P := P) hp m'' last.bucket
            last.slot val
          have hspares := c.conclude_spares hok hheld hhome hnone val
          rw [hret, hsettled] at hspares
          refine ⟨r, m₃, ⟨_, .refl, ?_⟩, hhp₃.trans hhp'', hspares⟩
          rw [Call.step]
          simp only [hval]
          rw [Call.moveStep]
          simp only [hlock, hmove, hret]
      | cons next tail =>
          -- the slot that is left is the empty one for the rest of the path
          obtain ⟨m', hlock, hlocked⟩ := h.lockTwo_some hhp last.bucket b'
          obtain ⟨m'', hmove, hok, hhp'', -, hsettled⟩ := hlocked.swap (by simp) (by simp) hempty
            he hhv hs hto.symm
          have hroute' : Route P (m''.settled P) hp b path last.bucket := by
            rw [hsettled]
            exact hrest
          have hempty' : m''.settled P (last.bucket, last.slot) = none := by
            rw [hsettled, Cells.carry_self]
          obtain ⟨r, m₃, hret, hhp₃, hspares⟩ := ih hok hhp'' hroute' hempty' hslot hnodup hnew
          rw [hrev] at hret hspares
          rw [hsettled] at hspares
          refine ⟨r, m₃, Leads.returns (.single ?_) hret, hhp₃, hspares⟩
          rw [Call.step]
          simp only [hval]
          rw [Call.moveStep]
          case x => exact List.cons_ne_nil _ _
          simp only [hlock, hmove]

/-- **The cuckoo path of a search**: from a bucket of the key to the nearest empty slot, slot `s`
of bucket `b`, and through no bucket twice. -/
structure FoundPath (P : Params K) (T : Cells (Nat × Nat) (Entry K V)) (hp : Nat) (key : K)
    (path : List CuckooRecord) (b s : Nat) : Prop where
  /-- Every entry of the path is there, and the bucket behind it is the other one of its key. -/
  route : ∃ first, P.Home hp key first ∧ Route P T hp first path b
  lt : s < slotPerBucket
  empty : T (b, s) = none
  /-- There is no empty slot with fewer displacements. -/
  nearest : ∀ n < path.length, ∀ b', Within P T hp key n b' → Full T b'
  once : (path.map CuckooRecord.bucket ++ [b]).Nodup

omit [DecidableEq K] in
/-- What a search has found is a path in this sense, and the code says which. -/
theorem FoundSlot.traced {x : BSlot} (h : FoundSlot P T hp key x s) (hT : Placed P hp T) :
    ∃ first path slot rest, traceStart P hp key x s =
        .tracing hp [] (firstBucket P hp key first) slot rest ∧
      slot :: rest = path.map CuckooRecord.slot ++ [s] ∧
      Route P T hp (firstBucket P hp key first) path x.bucket ∧
      FoundPath P T hp key path x.bucket s := by
  have hnode := SearchTree.node hT h.node
  obtain ⟨first, hfirst, path, hlen, hcode, hroute⟩ := hnode.path
  obtain ⟨slot, rest, hslots, hcons⟩ := pathSlots_codeOf first path s []
    (fun r hr => hroute.slot_lt hr) h.lt
  have hnearest : ∀ n < path.length, ∀ b, Within P T hp key n b → Full T b := by
    intro n hn
    exact h.nearest n (by omega)
  obtain ⟨hnodup, hnotin⟩ := hroute.nodup (firstBucket_home first) fun n hn hwithin => by
    have hfull := hnearest n hn _ hwithin s h.lt
    rw [h.empty] at hfull
    cases hfull
  refine ⟨first, path, slot, rest, ?_, hcons, hroute,
    ⟨_, firstBucket_home first, hroute⟩, h.lt, h.empty, hnearest, ?_⟩
  · rw [traceStart, (hnode.ok.child h.lt).1, ← hlen, ← hcode, hslots]
  · exact List.nodup_append.mpr ⟨hnodup, List.nodup_singleton _, fun a ha a' ha' heq =>
      hnotin (List.mem_singleton.mp ha' ▸ heq ▸ ha)⟩

/-- **An insertion that nobody disturbs**, with both buckets of the key full: it comes to an
expansion if everything within reach is full. Otherwise it finds a path, all swaps along it
succeed, and it returns with the table as large as before. -/
theorem insertion_undisturbed (hval : c.insert = some val) (h : m.Ok P A)
    (hhp : m.hashpower = hp) :
    (Crowded P (m.settled P) hp c.key ∧ ∃ m', Same P A m m' ∧ Leads (Call.step P) c
        (m, .searching hp (.start ((c.hv P).i1 hp) ((c.hv P).i2 hp))) (m', .doubling hp)) ∨
      (¬ Crowded P (m.settled P) hp c.key ∧ ∃ path b s m₁,
        FoundPath P (m.settled P) hp c.key path b s ∧ Same P A m m₁ ∧ Leads (Call.step P) c
          (m, .searching hp (.start ((c.hv P).i1 hp) ((c.hv P).i2 hp)))
          (m₁, .moving hp path.reverse b s) ∧
        ∃ r m', Returns (Call.step P) c (m₁, .moving hp path.reverse b s) r m' ∧
          m'.hashpower = hp ∧ Spares P c.key
            ((m.settled P).carryAlong (path.reverse.map CuckooRecord.cell) (b, s)) m') := by
  have hplaced : Placed P hp (m.settled P) := hhp ▸ h.placed
  obtain ⟨m', hsame, ⟨hcrowded, hlead⟩ | ⟨x, s, hfound, hlead⟩⟩ := fresh_search (c := c) h hhp
  · exact .inl ⟨hcrowded, m', hsame, hlead⟩
  · -- an empty slot has been found, so not everything is full
    have hnode := SearchTree.node hplaced hfound.node
    refine .inr ⟨fun hcrowded => ?_, ?_⟩
    · have hfull := hcrowded _ hnode.ok.1 _ hnode.within s hfound.lt
      rw [hfound.empty] at hfull
      cases hfull
    obtain ⟨first, path, slot, rest, hstart, hcons, hroute, hpath⟩ := hfound.traced hplaced
    obtain ⟨m₁, hsame', htrace⟩ := trace_leads (c := c) hsame.rehashed.settled hsame.ok
      (hsame.rehashed.hashpower.trans hhp) hroute hfound.empty [] hcons
    rw [hstart] at hlead
    rw [List.append_nil] at htrace
    have hall := hsame.trans hsame'
    have hsettled : m₁.settled P = m.settled P := hall.rehashed.settled
    obtain ⟨hnodup, -, hapart⟩ := List.nodup_append.mp hpath.once
    have hnotin : x.bucket ∉ path.map CuckooRecord.bucket := fun hmem =>
      hapart _ hmem _ (List.mem_singleton_self _) rfl
    obtain ⟨r, m', hret, hhp', hspares⟩ := moves_return hval hall.ok
      (hall.rehashed.hashpower.trans hhp) (hsettled ▸ hroute) (hsettled ▸ hfound.empty)
      hfound.lt hnodup hnotin (firstBucket_home first)
    rw [hsettled] at hspares
    exact ⟨path, x.bucket, s, m₁, hpath, hall, hlead.trans htrace, r, m', hret, hhp', hspares⟩

/-! ### In any state that is reached -/

variable {ι : Type} [DecidableEq ι] {N : Nat} {S : Callers ι K V}
  {log : List (ι × CallEvent K V)}

/-- **The table is expanded only where it must be.** A thread that has found both buckets of
its key full, and that goes on alone, comes to expand the table if every bucket a search can
come to is full. Or else it finds the nearest empty slot and a path to it that passes no bucket
twice; it carries every entry of the path to the slot behind its own, and returns with the
table as large as before. -/
theorem expands_iff_crowded (hr : Run (Concurrent P) (.start P ι N) log S) {i : ι}
    (hi : S.parts i = some (c, .searching hp (.start ((c.hv P).i1 hp) ((c.hv P).i2 hp))))
    (hval : c.insert = some val) (hhp : S.shared.hashpower = hp) :
    (Crowded P (S.shared.settled P) hp c.key ∧ ∃ m, Run (Interleaved.Acts (Caller.Act P) i) S []
        ⟨Function.update S.parts i (some (c, .doubling hp)), m⟩ ∧
        m.settled P = S.shared.settled P) ∨
      (¬ Crowded P (S.shared.settled P) hp c.key ∧ ∃ path b s m₁,
        FoundPath P (S.shared.settled P) hp c.key path b s ∧
        Run (Interleaved.Acts (Caller.Act P) i) S []
          ⟨Function.update S.parts i (some (c, .moving hp path.reverse b s)), m₁⟩ ∧
        m₁.settled P = S.shared.settled P ∧
        ∃ r m, Run (Interleaved.Acts (Caller.Act P) i)
            ⟨Function.update S.parts i (some (c, .moving hp path.reverse b s)), m₁⟩
            [(i, .returned c r)] ⟨Function.update S.parts i none, m⟩ ∧
          m.hashpower = hp ∧ Spares P c.key ((S.shared.settled P).carryAlong
            (path.reverse.map CuckooRecord.cell) (b, s)) m) := by
  obtain ⟨⟨A, -, hok⟩, -⟩ := Callers.reached hr
  refine (insertion_undisturbed hval hok hhp).imp ?_ ?_
  · rintro ⟨hcrowded, m, hsame, hlead⟩
    exact ⟨hcrowded, m, hlead.run hi, hsame.rehashed.settled⟩
  · rintro ⟨hspace, path, b, s, m₁, hpath, hsame, hlead, r, m, hret, hhp', hspares⟩
    refine ⟨hspace, path, b, s, m₁, hpath, hlead.run hi, hsame.rehashed.settled, r, m, ?_, hhp',
      hspares⟩
    have hrun : Run (Interleaved.Acts (Caller.Act P) i) _ _ _ := Returns.run
      (S := ⟨Function.update S.parts i (some (c, .moving hp path.reverse b s)), m₁⟩)
      (Function.update_self ..) hret
    rwa [Function.update_idem] at hrun

/-- One entry has to go to the other bucket, so that there is a slot for the key. -/
theorem expands_iff_crowded_displace : ∃ c path b s m₁ r m,
    (displace 2).1.parts true = some (c, .searching 1 (.start 1 1)) ∧ path ≠ [] ∧
      FoundPath .fewLocks ((displace 2).1.shared.settled .fewLocks) 1 c.key path b s ∧
      Run (Interleaved.Acts (Caller.Act .fewLocks) true) (displace 2).1 []
        ⟨Function.update (displace 2).1.parts true (some (c, .moving 1 path.reverse b s)), m₁⟩ ∧
      Run (Interleaved.Acts (Caller.Act .fewLocks) true)
        ⟨Function.update (displace 2).1.parts true (some (c, .moving 1 path.reverse b s)), m₁⟩
        [(true, .returned c r)] ⟨Function.update (displace 2).1.parts true none, m⟩ ∧
      m.hashpower = 1 ∧ Spares .fewLocks c.key
        (((displace 2).1.shared.settled .fewLocks).carryAlong
          (path.reverse.map CuckooRecord.cell) (b, s)) m := by
  have hplace : ((displace 2).1.parts true).map (fun t => (t.1.key, t.1.insert, t.2)) =
      some (7, some 7, .searching 1 (.start 1 1)) := by
    decide +kernel
  obtain ⟨⟨c, p⟩, hi, heq⟩ := Option.map_eq_some_iff.mp hplace
  obtain ⟨hkey, hrest⟩ := Prod.mk.inj heq
  obtain ⟨hval, hp⟩ := Prod.mk.inj hrest
  dsimp only at hkey hval hp
  subst hp
  have hhome : ∀ b, (Params.fewLocks).Home 1 c.key b → b = 1 := by
    intro b hb
    rw [hkey] at hb
    rcases hb with rfl | rfl <;> decide +kernel
  have hstart : BQueue.start ((c.hv .fewLocks).i1 1) ((c.hv .fewLocks).i2 1) = .start 1 1 :=
    congrArg₂ BQueue.start (hhome _ (.inl rfl)) (hhome _ (.inr rfl))
  have hhp : (displace 2).1.shared.hashpower = 1 := by decide +kernel
  have hfull : ∀ s < slotPerBucket,
      ((displace 2).1.shared.settled .fewLocks (1, s)).isSome = true := by
    decide +kernel
  have hspace : ¬ Crowded .fewLocks ((displace 2).1.shared.settled .fewLocks) 1 c.key := by
    intro hcrowded
    have hentry : (displace 2).1.shared.settled .fewLocks (1, 3) = some ⟨8, 8, 8⟩ := by
      decide +kernel
    have hone : (Params.fewLocks).Home 1 c.key 1 := by
      rw [hkey]
      exact .inl (by decide +kernel)
    have hwithin : Within .fewLocks ((displace 2).1.shared.settled .fewLocks) 1 c.key 1 _ :=
      .hop (.home hone) (by decide) hentry
    have hno := hcrowded 1 (by decide) _ hwithin 3 (by decide)
    revert hno
    decide +kernel
  rw [← hstart] at hi
  rcases expands_iff_crowded (displace_run 2) hi hval hhp with ⟨hcrowded, -⟩ |
    ⟨-, path, b, s, m₁, hpath, hlead, -, r, m, hrun, hhp', hspares⟩
  · exact absurd hcrowded hspace
  · rw [hstart] at hi
    refine ⟨c, path, b, s, m₁, r, m, hi, ?_, hpath, hlead, hrun, hhp', hspares⟩
    -- both buckets of the key are full
    rintro rfl
    obtain ⟨first, hfirst, hroute⟩ := hpath.route
    obtain rfl : first = b := hroute
    have hsome := hfull s hpath.lt
    rw [← hhome _ hfirst, hpath.empty] at hsome
    cases hsome

end Libcuckoo
