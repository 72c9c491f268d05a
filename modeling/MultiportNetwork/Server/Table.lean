import MultiportNetwork.Lib.Uses
import MultiportNetwork.Cuckoo.Linear
import MultiportNetwork.Store

/-!
# MultiportNetwork.Server.Table

The server with the `hashTable` it has: a `cuckoohash_map` whose operations take many steps,
between which other connections go on, use the map and make it expand. Connections cannot tell
it from a table each operation of which is atomic (`map_serves`), so what has been proved with
that assumption holds of the server as it is.

An exception of the map is caught nowhere, and ends the process.
-/

namespace MultiportNetwork

open Libcuckoo (Params CuckooMap Place Represents ResizeError)

/-- The next pass is `case store_kvobj`. -/
def Connection.Storing (c : Connection) : Prop :=
  c.connState = .connDealWith ∧ c.workState = .storeKvobj

instance (c : Connection) : Decidable c.Storing := inferInstanceAs (Decidable (_ ∧ _))

/-- The operation of `hashTable` the next pass needs. -/
def Slot.asks (p : Slot) : Option (Libcuckoo.Call Bytes Bytes) :=
  if p.stop = false ∧ p.answering = false then
    if p.c.Querying then some (.findFn p.c.key)
    else if p.c.Storing then some (.insertOrAssign p.c.key p.c.value)
    else none
  else none

/-- What `case query_key` and `case store_kvobj` make of the result. -/
def Slot.gets (p : Slot) (found : Option Bytes) : List Event × Slot :=
  if p.c.Querying then
    ([.find p.c.key found], { p with c := queryResult p.c found, answering := true })
  else
    let c := p.c.processed (headerSize + p.c.binaryHeader.totalbodylen.toNat)
    ([.insertOrAssign p.c.key p.c.value],
      { p with c := (c.workStateJump .parseHead).connStateJump .connNewCmd })

/-- A connection as a user of `hashTable`. Its other passes do not look at the table, so any
will do for them. -/
def tableUser : User Slot Bool Event (Libcuckoo.Call Bytes Bytes) (Option Bytes) where
  act p b ev p' b' := p.asks = none ∧ Slot.Act p ⟨.empty, b⟩ ev p' ⟨.empty, b'⟩
  asks := Slot.asks
  gets := Slot.gets
  live b := b = false

section
variable {p p' : Slot} {ev : List Event} {b b' : Bool}

theorem Slot.not_storing (hask : p.asks = none) (hrun : p.stop = false)
    (hbuilt : p.answering = false) (hq : ¬ p.c.Querying) : ¬ p.c.Storing := by
  intro hst
  rw [Slot.asks, if_pos ⟨hrun, hbuilt⟩, if_neg hq, if_pos hst] at hask
  cases hask

/-- **Only two cases look at the table.** -/
theorem pass_table (s : State) (r : SysRet) (t : HashTable) (hq : ¬ s.c.Querying)
    (hst : ¬ s.c.Storing) :
    pass { s with table := t } r = ({ (pass s r).1 with table := t }, (pass s r).2) := by
  cases hc : s.c.connState with
  | connRead =>
      simp only [pass, hc, onConnRead]
      generalize tryReadNetwork s.c s.inbox r = res
      obtain ⟨ret, c, inbox⟩ := res
      cases ret <;> rfl
  | connNewCmd =>
      simp only [pass, hc, onConnNewCmd]
      split <;> rfl
  | connDealWith =>
      simp only [pass, hc, onConnDealWith]
      cases hw : s.c.workState with
      | parseHead =>
          simp only [onParseHead]
          split
          · rfl
          · split
            · generalize tryReadHeadBinary s.c = res
              rcases res with _ | ⟨ret, c⟩
              · rfl
              · dsimp only
                split <;> rfl
            · rfl
      | readKeyValue =>
          simp only [onReadKeyValue]
          generalize tryReadKeyValue s.c = res
          obtain ⟨re, c⟩ := res
          dsimp only
          split
          · rfl
          · split <;> rfl
      | storeKvobj => exact absurd ⟨hc, hw⟩ hst
      | queryKey => exact absurd ⟨hc, hw⟩ hq
      | writeBcak => rfl
  | connWaiting => simp only [pass, hc, onConnWaiting]
  | connClosing => simp only [pass, hc, onConnClosing]
  | _ => simp only [pass, hc]

/-- What a connection does by itself it does with any table. -/
theorem Slot.Act.withTable {m' : Process} (hask : p.asks = none)
    (h : Slot.Act p ⟨.empty, b⟩ ev p' m') (t : HashTable) :
    Slot.Act p ⟨t, b⟩ ev p' ⟨t, m'.exited⟩ := by
  cases h with
  | call halive hbuilt hstop hevent => exact .call halive hbuilt hstop hevent
  | @pass r halive hbuilt hrun hq hans =>
      have heq := pass_table (p.state ⟨.empty, b⟩) r t hq (Slot.not_storing hask hrun hbuilt hq)
      have hpass : Slot.Act p ⟨t, b⟩ _ _ _ := .pass (r := r) halive hbuilt hrun hq hans
      rw [show p.state ⟨t, b⟩ = { p.state ⟨.empty, b⟩ with table := t } from rfl, heq] at hpass
      exact hpass
  | find halive hbuilt hrun hq =>
      rw [Slot.asks, if_pos ⟨hrun, hbuilt⟩, if_pos hq] at hask
      cases hask
  | build halive hbuilt => exact .build halive hbuilt

theorem perform_find (A : HashTable) (key : Bytes) :
    (Libcuckoo.Call.findFn key).perform A = (A.find key, A) := by
  rw [HashTable.find]
  cases hA : A key with
  | none =>
      rw [Libcuckoo.Call.perform_none hA]
      exact congrArg (none, ·) (Function.update_eq_iff.mpr ⟨hA.symm, fun _ _ => rfl⟩)
  | some v =>
      rw [Libcuckoo.Call.perform_some hA]
      exact congrArg (some v, ·) (Function.update_eq_iff.mpr ⟨hA.symm, fun _ _ => rfl⟩)

theorem perform_insertOrAssign (A : HashTable) (key value : Bytes) :
    ((Libcuckoo.Call.insertOrAssign key value).perform A).2 = A.insertOrAssign key value := by
  have hupdate : Function.update A key (some value) = A.insertOrAssign key value := by
    funext k
    rw [Function.update_apply, HashTable.insertOrAssign]
  cases hA : A key with
  | none =>
      rw [Libcuckoo.Call.perform_none hA]
      exact hupdate
  | some v =>
      rw [Libcuckoo.Call.perform_some hA]
      exact hupdate

/-- **With the table at hand in one step** a connection acts as in the server whose table is
atomic. -/
theorem tableUser_uses : Uses tableUser Libcuckoo.Call.perform Slot.Act Process.mk where
  own h := h.2.withTable h.1 _
  use {p o A b} hlive hask := by
    change p.asks = some o at hask
    change Slot.Act p ⟨A, b⟩ (p.gets _).1 (p.gets _).2 _
    rw [Slot.asks] at hask
    split at hask
    next hrun =>
      by_cases hq : p.c.Querying
      · rw [if_pos hq] at hask
        cases hask
        rw [perform_find, Slot.gets, if_pos hq]
        exact .find hlive hrun.2 hrun.1 hq
      · rw [if_neg hq] at hask
        split at hask
        next hst =>
          cases hask
          rw [perform_insertOrAssign, Slot.gets, if_neg hq, hrun.2]
          have hans : Env.any.answer (p.state ⟨A, b⟩) ⟨0, .other⟩ := by
            intro call hcall
            simp [State.syscall, Slot.state, hst.1, hst.2] at hcall
          have hpass : Slot.Act p ⟨A, b⟩ _ _ _ := .pass hlive hrun.2 hrun.1 hq hans
          simp only [pass, Slot.state, hst.1, onConnDealWith, hst.2, onStoreKvobj] at hpass
          exact hpass
        next => cases hask
    next => cases hask

end

/-! ### The server -/

section
variable {ι : Type} [DecidableEq ι] (P : Params Bytes)

/-- The server with the map it has. -/
abbrev MapServer (ι : Type) :=
  Interleaved ι (Slot × Option Place) (Shared (CuckooMap Bytes Bytes) Bool)

/-- Some connection makes a step of its own, or one in an operation of the map. -/
abbrev MapServed : MapServer ι → List (ι × Event) → MapServer ι → Prop :=
  Interleaved.Step (tableUser.Act Place.snapshot (Libcuckoo.Call.step P))

/-- The server with a new map that has space for `n` elements. -/
def Server.withMap (n : Nat) (S : Server ι) : MapServer ι :=
  ⟨fun i => (S.parts i, none), ⟨.new P n, S.shared.exited, false⟩⟩

variable {P}

/-- What holds in every state of the server with its map, an operation of the map under way or
not. -/
theorem MapServed.reached {streams : ι → Bytes} {S₀ : Server ι} {n : Nat} {S : MapServer ι}
    {log : List (ι × Event)} (h : ServerInit streams S₀)
    (hr : Run (MapServed P) (S₀.withMap P n) log S) :
    ∃ t : HashTable, Run Served S₀ log (S.atomic Process.mk t) ∧ S.shared.object.Ok P t ∧
      ∀ i, tableUser.Relies (fun c p => p.Ok P c.key) (S.parts i) := by
  obtain ⟨t, hrun, hok, hrely⟩ := tableUser_uses.run Libcuckoo.implements
    (Libcuckoo.CuckooMap.Ok.new P n) (fun _ => rfl) hr
  have hstart : (S₀.withMap P n).atomic Process.mk (fun _ => none) = S₀ := by
    have htable : (fun _ => none) = S₀.shared.table := h.table.symm
    rw [htable]
    rfl
  rw [hstart] at hrun
  exact ⟨t, hrun, hok, hrely⟩

/-- **The map serves as the table.** Every run of the server with its map is one of the server
whose table is atomic, with the same events; the map then stands for that table, and what
connections see of it is a store.

So what has been proved of events, of the table, of what connections hold and of what they
answer carries over. That the process goes on does not: where the map throws, the server whose
table is atomic may go on and this one may not (`User.Act` has no step once `aborted` is set). -/
theorem map_serves {streams : ι → Bytes} {S₀ : Server ι} {n : Nat} {S : MapServer ι}
    {log : List (ι × Event)} (h : ServerInit streams S₀)
    (hr : Run (MapServed P) (S₀.withMap P n) log S) :
    ∃ t : HashTable, Run Served S₀ log (S.atomic Process.mk t) ∧
      Represents (S.shared.object.settled P) t ∧
      StoreSemantics streams log (S.atomic Process.mk t) := by
  obtain ⟨t, hrun, hok, -⟩ := MapServed.reached h hr
  exact ⟨t, hrun, hok.represents, store_semantics h hrun⟩

/-- One move of a connection by itself, if it is possible. -/
def Slot.ownExec (p : Slot) (b : Bool) (k : SlotMove) : Option (List Event × Slot × Bool) :=
  if p.asks = none then
    (p.exec ⟨.empty, b⟩ k).map fun r => (r.1, r.2.1, r.2.2.exited)
  else none

theorem Slot.ownExec_act (p : Slot) (b : Bool) (k : SlotMove) (ev : List Event) (p' : Slot)
    (b' : Bool) (h : p.ownExec b k = some (ev, p', b')) : tableUser.act p b ev p' b' := by
  rw [Slot.ownExec] at h
  split at h
  next hask =>
    obtain ⟨⟨ev, q, m'⟩, heq, hres⟩ := Option.map_eq_some_iff.mp h
    cases hres
    exact ⟨hask, Slot.Act.withTable hask (Slot.exec_act heq) _⟩
  next => cases h

instance : DecidablePred tableUser.live := fun b => inferInstanceAs (Decidable (b = false))

/-- The server a schedule leads to and its log. -/
def MapServer.play (P : Params Bytes) (S : MapServer ι) (ks : List (ι × UserMove SlotMove)) :
    MapServer ι × List (ι × Event) :=
  Interleaved.play (tableUser.exec Slot.ownExec Place.snapshot (Libcuckoo.Call.step P)) S ks

theorem MapServer.play_run (S : MapServer ι) (ks : List (ι × UserMove SlotMove)) :
    Run (MapServed P) S (S.play P ks).2 (S.play P ks).1 :=
  Interleaved.play_run (User.exec_act Slot.ownExec_act) S ks

end

/-- Keys hashed to the sum of their bytes. -/
def sumHash : Params Bytes where
  hash key := key.foldl (fun hv b => hv + b.toUInt64) 0

/-- A GET that has read the hashpower before another connection stores something. -/
def getDuringSet : MapServer Bool × List (Bool × Event) :=
  ((Server.accepted twoStreams).withMap sumHash 1).play sumHash
    (([.own .call, .own (.ret 42), .own (.ret 0), .own (.ret 0), .use, .use].map fun k =>
        (true, k)) ++
      ([.own .call, .own (.ret 13), .own (.ret 0), .own (.ret 0), .use, .use].map fun k =>
        (false, k)) ++
      [(true, .use), (false, .use)])

theorem map_serves_getDuringSet :
    (false, .find [107] (some [1, 2, 3, 4, 5, 6, 7, 8])) ∈ getDuringSet.2 ∧
      ∃ t : HashTable,
        Run Served (.accepted twoStreams) getDuringSet.2 (getDuringSet.1.atomic Process.mk t) ∧
          Represents (getDuringSet.1.shared.object.settled sumHash) t ∧
          StoreSemantics twoStreams getDuringSet.2 (getDuringSet.1.atomic Process.mk t) :=
  ⟨by decide +kernel, map_serves (Server.init_accepted twoStreams) (MapServer.play_run _ _)⟩

end MultiportNetwork
