import MultiportNetwork.Framing
import MultiportNetwork.Segmentation
import MultiportNetwork.Server.Connections
import Mathlib.Data.List.Induction

/-!
# MultiportNetwork.Store

What GETs see. The table is one store for all connections: a `hashTable.find` sees
what the last `insert_or_assign` of its key before it has stored, whoever made it,
and the answer built from it later says so, whatever has happened to the table in
the meantime (`store_semantics`).
-/

namespace MultiportNetwork

section
variable {ι : Type}

/-! ### The table as a history -/

/-- What an event makes of the table. -/
def HashTable.enter (t : HashTable) : Event → HashTable
  | .insertOrAssign k v => t.insertOrAssign k v
  | _ => t

/-- The table after a log. -/
def HashTable.after (t : HashTable) (log : List (ι × Event)) : HashTable :=
  log.foldl (fun t e => t.enter e.2) t

@[simp] theorem HashTable.after_nil (t : HashTable) : t.after ([] : List (ι × Event)) = t := rfl

@[simp] theorem HashTable.after_append (t : HashTable) (a b : List (ι × Event)) :
    t.after (a ++ b) = (t.after a).after b := by
  simp [HashTable.after]

theorem HashTable.after_concat (t : HashTable) (log : List (ι × Event)) (e : ι × Event) :
    t.after (log ++ [e]) = (t.after log).enter e.2 := by
  simp [HashTable.after]

/-- `found` is what the last insert of `k` in the log has stored, if there is one. -/
def LastInsert (k : Bytes) (log : List (ι × Event)) : Option Bytes → Prop
  | none => ∀ i v, (i, .insertOrAssign k v) ∉ log
  | some v => ∃ pre i post, log = pre ++ (i, .insertOrAssign k v) :: post ∧
      ∀ j v', (j, .insertOrAssign k v') ∉ post

/-- An event that inserts nothing under `k` changes nothing for `k`. -/
theorem LastInsert.concat {k : Bytes} {log : List (ι × Event)} {found : Option Bytes}
    (h : LastInsert k log found) {e : ι × Event} (he : ∀ i v, e ≠ (i, .insertOrAssign k v)) :
    LastInsert k (log ++ [e]) found := by
  cases found with
  | none =>
      intro i v hmem
      rw [List.mem_append, List.mem_singleton] at hmem
      rcases hmem with hmem | rfl
      · exact h i v hmem
      · exact he i v rfl
  | some v =>
      obtain ⟨pre, i, post, rfl, hpost⟩ := h
      refine ⟨pre, i, post ++ [e], by simp, ?_⟩
      intro j v' hmem
      rw [List.mem_append, List.mem_singleton] at hmem
      rcases hmem with hmem | rfl
      · exact hpost j v' hmem
      · exact he j v' rfl

/-- **The table is its history.** -/
theorem lastInsert_after (k : Bytes) (log : List (ι × Event)) :
    LastInsert k log (HashTable.empty.after log k) := by
  induction log using List.reverseRecOn with
  | nil => exact fun _ _ h => by cases h
  | append_singleton log e ih =>
      rw [HashTable.after_concat]
      obtain ⟨i, e⟩ := e
      cases e with
      | insertOrAssign k' v =>
          simp only [HashTable.enter, HashTable.insertOrAssign]
          by_cases hk : k = k'
          · subst hk
            rw [if_pos rfl]
            exact ⟨log, i, [], rfl, by simp⟩
          · rw [if_neg hk]
            exact ih.concat fun j v' heq => hk (by cases heq; rfl)
      | _ => exact ih.concat fun j v' heq => by cases heq

/-- Events that insert nothing under `k` change nothing for `k`. -/
theorem HashTable.after_of_not_mem {t : HashTable} {k : Bytes} {log : List (ι × Event)}
    (h : ∀ i v, (i, .insertOrAssign k v) ∉ log) : t.after log k = t k := by
  induction log using List.reverseRecOn with
  | nil => rfl
  | append_singleton log e ih =>
      rw [HashTable.after_concat, ← ih fun i v hmem => h i v (List.mem_append_left _ hmem)]
      obtain ⟨i, e⟩ := e
      cases e with
      | insertOrAssign k' v =>
          have hk : k ≠ k' := by
            rintro rfl
            exact h i v (by simp)
          exact if_neg hk
      | _ => rfl

/-! ### One pass -/

/-- What a pass does to the table is in its events, and only `query_key` looks anything
up or builds an answer. -/
theorem Pass.table_eq {s s' : State} {r : SysRet} {ev : List Event} (hp : Pass s r s' ev)
    (hq : ¬ s.c.Querying) (i : ι) :
    s'.table = s.table.after (ev.map (i, ·)) ∧
      ∀ e ∈ ev, (∀ k found, e ≠ .find k found) ∧ ∀ b packet, e ≠ .reply b packet := by
  cases hp with
  | query hc hw => exact absurd ⟨hc, hw⟩ hq
  | store hc hw => exact ⟨rfl, by simp⟩
  | _ => exact ⟨rfl, by simp⟩

/-! ### Lookups and answers -/

/-- The pair an answer of connection `i` is built from is what its last `find` has seen,
and that is what the last insert before it has stored. -/
def FromFind (log : List (ι × Event)) (i : ι) (c : Connection) : Prop :=
  ∃ pre mid, log = pre ++ (i, .find c.key c.lookup.2) :: mid ∧ (∀ e ∈ mid, e.1 ≠ i) ∧
    LastInsert c.key pre c.lookup.2

/-- What the log before an event says about it: a lookup has seen the last insert, an
answer is built from the last lookup of its connection. -/
def Warranted (pre : List (ι × Event)) : ι × Event → Prop
  | (_, .find k found) => found = HashTable.empty.after pre k
  | (i, .reply b packet) => ∃ c : Connection, b = c.inBatchGet ∧ packet = c.respPacket ∧
      FromFind pre i c
  | _ => True

/-- What every log says of the table, the lookups and the answers. -/
structure Coherent (log : List (ι × Event)) (S : Server ι) : Prop where
  table : S.shared.table = HashTable.empty.after log
  warranted : Splits Warranted log
  held : ∀ i, (S.parts i).answering = true → FromFind log i (S.parts i).c

theorem FromFind.concat {log ev : List (ι × Event)} {i : ι} {c : Connection}
    (h : FromFind log i c) (hev : ∀ e ∈ ev, e.1 ≠ i) : FromFind (log ++ ev) i c := by
  obtain ⟨pre, mid, rfl, hmid, hlast⟩ := h
  refine ⟨pre, mid ++ ev, by simp, ?_, hlast⟩
  intro e he
  rw [List.mem_append] at he
  rcases he with he | he
  · exact hmid e he
  · exact hev e he

variable [DecidableEq ι]

/-- What the acting connection holds is `hself`, what others hold is not touched. -/
theorem Coherent.held_act {log : List (ι × Event)} {S : Server ι} (h : Coherent log S) {i : ι}
    {ev : List Event} {p : Slot} {m : Process}
    (hself : p.answering = true → FromFind (log ++ ev.map (i, ·)) i p.c) (j : ι)
    (hans : ((⟨Function.update S.parts i p, m⟩ : Server ι).parts j).answering = true) :
    FromFind (log ++ ev.map (i, ·)) j
      ((⟨Function.update S.parts i p, m⟩ : Server ι).parts j).c := by
  by_cases hij : j = i
  · subst hij
    simp only [Function.update_self] at hans ⊢
    exact hself hans
  · simp only [Function.update_of_ne hij] at hans ⊢
    refine (h.held j hans).concat fun e he => ?_
    obtain ⟨x, -, rfl⟩ := List.mem_map.mp he
    exact Ne.symm hij

/-- **An act keeps the log coherent.** -/
theorem Coherent.act {log : List (ι × Event)} {S : Server ι} (h : Coherent log S) {i : ι}
    (hok : StateOk ((S.parts i).settled S.shared)) {ev : List Event} {p : Slot} {m : Process}
    (ha : Slot.Act (S.parts i) S.shared ev p m) :
    Coherent (log ++ ev.map (i, ·)) ⟨Function.update S.parts i p, m⟩ := by
  have htable := h.table
  cases ha with
  | call halive hbuilt hstop hevent =>
      refine ⟨?_, ?_, h.held_act fun hans => ?_⟩
      · simpa using htable
      · simpa using h.warranted
      · cases hans
  | @pass r halive hbuilt hrun hq hans =>
      rw [Slot.settled_of_built hbuilt] at hok
      obtain ⟨ht, hev⟩ := (pass_cases (r := r) hok.control hans).table_eq hq i
      refine ⟨?_, h.warranted.append ?_, h.held_act fun hans => ?_⟩
      · rw [HashTable.after_append, ← htable]
        exact ht
      · rintro pre ⟨j, e⟩ post heq
        have hmem : (j, e) ∈ (pass ((S.parts i).state S.shared) r).2.map (i, ·) := by simp [heq]
        obtain ⟨x, hx, hxe⟩ := List.mem_map.mp hmem
        cases hxe
        obtain ⟨hfind, hreply⟩ := hev e hx
        cases e with
        | find k found => exact absurd rfl (hfind k found)
        | reply b packet => exact absurd rfl (hreply b packet)
        | _ => trivial
      · cases hans
  | find halive hbuilt hrun hq =>
      have hfound : S.shared.table.find (S.parts i).c.key =
          HashTable.empty.after log (S.parts i).c.key := by
        rw [← htable]
        rfl
      refine ⟨?_, h.warranted.append (.singleton ?_), h.held_act fun _ => ?_⟩
      · rw [HashTable.after_append, ← htable]
        rfl
      · simpa [Warranted] using hfound
      · have hlookup :
            (queryResult (S.parts i).c (S.shared.table.find (S.parts i).c.key)).lookup.2 =
              S.shared.table.find (S.parts i).c.key := by
          cases hf : S.shared.table.find (S.parts i).c.key <;> simp [Connection.lookup]
        refine ⟨log, [], ?_, by simp, ?_⟩
        · simp [hlookup]
        · rw [hlookup, hfound, queryResult_key]
          exact lastInsert_after _ _
  | build halive hbuilt =>
      refine ⟨?_, h.warranted.append (.singleton ?_), h.held_act fun hans => ?_⟩
      · rw [HashTable.after_append, ← htable]
        rfl
      · rw [List.append_nil]
        exact ⟨(S.parts i).c, rfl, rfl, h.held i hbuilt⟩
      · cases hans

/-- **Every log is coherent.** -/
theorem Served.coherent {streams : ι → Bytes} {S₀ S : Server ι} {log : List (ι × Event)}
    (h : ServerInit streams S₀) (hr : Run Served S₀ log S) : Coherent log S := by
  have hrel : Run Served S₀ log S ∧ Coherent log S := by
    refine hr.relate (R := fun log S => Run Served S₀ log S ∧ Coherent log S) ⟨.refl _, ?_⟩ ?_
    · exact ⟨h.table, .nil, fun i hans => by simp [h.built i] at hans⟩
    · rintro log A ev B ⟨hr, hcoh⟩ hs
      refine ⟨hr.snoc hs, ?_⟩
      obtain ⟨i, ha⟩ := hs
      cases ha with
      | intro ha => exact hcoh.act (Served.projected h hr i).ok ha
  exact hrel.2

/-! ### Store semantics -/

/-- The store as its users see it. -/
structure StoreSemantics (streams : ι → Bytes) (log : List (ι × Event)) (S : Server ι) : Prop where
  /-- A lookup sees what the last insert of its key has stored. -/
  lookups : ∀ pre i k found post, log = pre ++ (i, .find k found) :: post → LastInsert k pre found
  /-- That is what the connection holds until its answer is built. -/
  held : ∀ i, (S.parts i).answering = true → FromFind log i (S.parts i).c
  /-- And that is what the answer is built from. -/
  answers : ∀ pre i b packet post, log = pre ++ (i, .reply b packet) :: post →
    ∃ c : Connection, packet = c.respPacket ∧ FromFind pre i c
  /-- A connection uses the table in the order of its stream. -/
  ordered : ∀ i, tableCallsOf (Interleaved.own i log) <+:
    tableCalls (commandsIn (.head none) (streams i))
  /-- A GET behind a SET sees its value, unless something is stored in between. -/
  ownSet : ∀ a i k v b found post,
    log = a ++ (i, .insertOrAssign k v) :: b ++ (i, .find k found) :: post →
    (∀ j v', (j, .insertOrAssign k v') ∉ b) → found = some v

/-- **Store semantics across connections**, in every interleaving. -/
theorem store_semantics {streams : ι → Bytes} {S₀ S : Server ι} {log : List (ι × Event)}
    (h : ServerInit streams S₀) (hr : Run Served S₀ log S) : StoreSemantics streams log S := by
  have hcoh := Served.coherent h hr
  refine ⟨?_, hcoh.held, ?_, fun i => ?_, ?_⟩
  · intro pre i k found post heq
    have hfound : found = HashTable.empty.after pre k := hcoh.warranted pre _ post heq
    rw [hfound]
    exact lastInsert_after k pre
  · intro pre i b packet post heq
    obtain ⟨c, -, hpacket, hfind⟩ := hcoh.warranted pre _ post heq
    exact ⟨c, hpacket, hfind⟩
  · obtain ⟨t, hrun, -⟩ := (Served.projected h hr i).run
    have hpre := ((h.slots i).executes hrun).1
    have hpending : tableCallsOf (S.parts i).pending = [] := by
      unfold Slot.pending
      split <;> rfl
    have hcalls : tableCalls (executed (Interleaved.own i log ++ (S.parts i).pending)) =
        tableCallsOf (Interleaved.own i log) := by
      rw [tableCalls_executed, tableCallsOf, List.filterMap_append, ← tableCallsOf, ← tableCallsOf,
        hpending, List.append_nil]
    rw [← hcalls]
    exact hpre.filterMap _
  · intro a i k v b found post heq hb
    have hfound : found = HashTable.empty.after (a ++ (i, .insertOrAssign k v) :: b) k :=
      hcoh.warranted _ _ post heq
    rw [hfound, List.append_cons, HashTable.after_append, HashTable.after_of_not_mem hb,
      HashTable.after_concat]
    simp [HashTable.enter, HashTable.insertOrAssign]

end

/-- One connection sends two SETs, another one a GET of the same key. -/
def twoStreams : Bool → Bytes
  | true => (Packet.smallSet 107).bytes ++ (Packet.smallSet 107).bytes
  | false => (Packet.smallGet 107 0).bytes

/-- The GET's lookup falls between the SETs, and its answer is built after both. -/
def getBetweenSets : Server Bool × List (Bool × Event) :=
  Server.play (.accepted twoStreams)
    (([.call, .ret 42, .ret 0, .ret 0, .ret 0].map fun k => (true, k)) ++
      ([.call, .ret 13, .ret 0, .ret 0, .find].map fun k => (false, k)) ++
      ([.ret 0, .ret 0, .ret 0, .ret 0].map fun k => (true, k)) ++ [(false, .build)])

theorem store_semantics_getBetweenSets :
    (false, .find [107] (some [1, 2, 3, 4, 5, 6, 7, 8])) ∈ getBetweenSets.2 ∧
      StoreSemantics twoStreams getBetweenSets.2 getBetweenSets.1 :=
  ⟨by decide +kernel, store_semantics (Server.init_accepted twoStreams) (Server.play_run _ _)⟩

end MultiportNetwork
