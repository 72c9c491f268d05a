import MultiportNetwork.Server.Table
import MultiportNetwork.Single

/-!
# MultiportNetwork.Isolation

What one client can do to the others, in the server with the map it has. Handling its bytes
leaves their connections alone, and the table is changed by its SETs only. But there are three
ways to harm everybody (`isolated_iff`):

- `try_read_head_binary` and its caller answer a first byte that is no magic number, and a
  request out of turn inside a batch, with `exit`;
- `insert_or_assign` throws where the map would have to grow although it is nearly empty, as
  it is when many keys share a hash value, and nobody catches that;
- `con_ret_buf` does not compare the length of an answer with the space there is for it.
-/

namespace MultiportNetwork

open Libcuckoo (Params CuckooMap Place Represents ResizeError)

/-! ### What is to hold, and when -/

/-- The header that is parsed next makes `process_func` exit. -/
def Connection.FatalHead (c : Connection) : Prop :=
  c.connState = .connDealWith ∧ c.workState = .parseHead ∧
    ((∃ x ∈ c.window.head?, x ≠ protocolBinaryReq) ∨
      (c.inBatchGet = true ∧ headerSize ≤ c.window.length ∧
        c.batchCount ≠ (Request.decode c.window).batchnum))

/-- Where the bytes end that `con_ret_buf` stores, in the buffer they go to. -/
def Connection.storeEnd (c : Connection) : Int :=
  if c.inBatchGet then (c.openBuf.getLastD .fresh).datalen + c.respPacket.length
  else c.retBufOffset + c.respPacket.length

/-- How many bytes have been allocated for that buffer. -/
def Connection.storeRoom (c : Connection) : Int :=
  if c.inBatchGet then batchBufSize else c.retBufSize

/-- The process has neither called `exit` nor been ended by an exception. -/
structure MapServer.Alive {ι : Type} (S : MapServer ι) : Prop where
  running : S.shared.rest = false
  uncaught : S.shared.aborted = false

section
variable {ι : Type} [DecidableEq ι] (P : Params Bytes)

/-- A step of connection `i`, of its own or in an operation of the map. -/
abbrev Handles (i : ι) : MapServer ι → List (ι × Event) → MapServer ι → Prop :=
  Interleaved.Acts (tableUser.Act Place.snapshot (Libcuckoo.Call.step P)) i

/-- The server after connection `i` has been handled: the others are as they were, the map
stands for what the SETs in the log have made of the table, the process is alive, and if an
answer is to be stored next, it is stored within the buffer `i` has for it. -/
structure Isolated (i : ι) (S : MapServer ι) (log : List (ι × Event)) (S' : MapServer ι) :
    Prop where
  others : ∀ j, j ≠ i → S'.parts j = S.parts j
  table : ∀ t : HashTable, Represents (S.shared.object.settled P) t →
    Represents (S'.shared.object.settled P) (t.after log)
  alive : S'.Alive
  inside : (S'.parts i).1.answering = true →
    (S'.parts i).1.c.storeEnd ≤ (S'.parts i).1.c.storeRoom

/-- The next step of a connection harms nobody. -/
structure Harmless (p : Slot × Option Place) (m : Shared (CuckooMap Bytes Bytes) Bool) :
    Prop where
  head : p.2 = none → p.1.stop = false → p.1.answering = false → ¬ p.1.c.FatalHead
  /-- The answer to a single GET fits into `ret_buf`. -/
  single : p.1.answering = true → p.1.c.inBatchGet = false →
    headerSize + p.1.c.key.length + p.1.c.valuelen ≤ initRetBufSize
  /-- A miss in a batch fits into the buffer it goes to. -/
  batch : p.1.answering = true → p.1.c.inBatchGet = true → p.1.c.queryHit = false →
    p.1.c.needNewBuf = false →
    p.1.c.back.datalen + headerSize + p.1.c.key.length + 8 ≤ batchBufSize
  /-- `check_resize_validity` does not throw. -/
  resize : ∀ hp, p.2 = some (.doubling hp) → m.object.loadFactorTooLow P = false ∧
    P.maximumHashpower.any (· < hp + 1) = false

/-- A step of a connection that harms nobody. -/
def CarefulAct (p : Slot × Option Place) (m : Shared (CuckooMap Bytes Bytes) Bool)
    (ev : List Event) (p' : Slot × Option Place) (m' : Shared (CuckooMap Bytes Bytes) Bool) :
    Prop :=
  Harmless P p m ∧ tableUser.Act Place.snapshot (Libcuckoo.Call.step P) p m ev p' m'

/-- A step of connection `i` that harms nobody. -/
abbrev HandlesWell (i : ι) : MapServer ι → List (ι × Event) → MapServer ι → Prop :=
  Interleaved.Acts (CarefulAct P) i

end

variable {s s' : State} {r : SysRet} {ev : List Event} {p p' : Slot} {m m' : Process}

/-! ### `exit` -/

/-- **The process exits** where a fatal header is parsed, and nowhere else. -/
theorem Pass.exits_iff (hp : Pass s r s' ev) (halive : s.exited = false) :
    s'.exited = true ↔ s.c.FatalHead := by
  have hstays : ∀ {t : State}, t.exited = s.exited → ¬ s.c.FatalHead →
      (t.exited = true ↔ s.c.FatalHead) := by
    intro t ht hnot
    rw [ht, halive]
    exact ⟨nofun, fun hfatal => absurd hfatal hnot⟩
  have hconn : s.c.connState ≠ .connDealWith → ¬ s.c.FatalHead :=
    fun hne hfatal => hne hfatal.1
  have hwork : s.c.workState ≠ .parseHead → ¬ s.c.FatalHead := fun hne hfatal => hne hfatal.2.1
  have hat : s.AtHead → ¬ s.c.FatalHead := by
    intro ha hfatal
    rcases hfatal.2.2 with ⟨x, hx, hne⟩ | ⟨hin, -, hne⟩
    · rw [ha.magic] at hx
      exact hne (Option.mem_some.mp hx).symm
    · exact hne (ha.turn hin)
  cases hp with
  | headMagic hc hw hhead hx => exact ⟨fun _ => ⟨hc, hw, .inl ⟨_, hhead, hx⟩⟩, fun _ => rfl⟩
  | headTurn hc hw hmagic hlen hin hne =>
      exact ⟨fun _ => ⟨hc, hw, .inr ⟨hin, hlen, hne⟩⟩, fun _ => rfl⟩
  | headNone hc hw hwin =>
      refine hstays rfl fun hfatal => ?_
      rcases hfatal.2.2 with ⟨x, hx, -⟩ | ⟨-, hlen, -⟩
      · rw [hwin] at hx
        cases hx
      · rw [hwin] at hlen
        exact absurd hlen (by decide)
  | headShort hc hw hmagic hlen =>
      refine hstays rfl fun hfatal => ?_
      rcases hfatal.2.2 with ⟨x, hx, hne⟩ | ⟨-, hle, -⟩
      · rw [hmagic] at hx
        exact hne (Option.mem_some.mp hx).symm
      · exact absurd hle (Nat.not_le.mpr hlen)
  | headClosed ha | headRefused ha | headBatch ha | headBody ha => exact hstays rfl (hat ha)
  | bodySet ha | bodyGet ha | singleBlocked ha | singleFailed ha | singleDone ha | singlePart ha
  | batchBlocked ha | batchFailed ha | batchDone ha | batchNext ha | batchPart ha =>
      exact hstays rfl (hwork (by simp [ha.work]))
  | readData hc | readEof hc | readNone hc | newCmdMore hc | newCmdIdle hc | newCmdStop hc
  | waitWrite hc | waitRead hc | closing hc => exact hstays rfl (hconn (by simp [hc]))
  | bodyShort hc hw | store hc hw | query hc hw | batchMore hc hw | batchSpin hc hw =>
      exact hstays rfl (hwork (by simp [hw]))

variable {ι : Type} [DecidableEq ι] {P : Params Bytes} {streams : ι → Bytes} {S₀ : Server ι}
  {n : Nat} {S S' : MapServer ι} {log₀ log : List (ι × Event)} {i : ι}

/-- What a connection does by itself ends the process at a fatal header only. -/
theorem tableUser_exits {q : Slot} {b b' : Bool} (hok : StateOk (q.settled ⟨.empty, b⟩))
    (hact : tableUser.act q b ev p' b')
    (hhead : q.stop = false → q.answering = false → ¬ q.c.FatalHead) : b' = false := by
  obtain ⟨-, hact⟩ := hact
  generalize hm : (⟨.empty, b'⟩ : Process) = m' at hact
  obtain rfl : m'.exited = b' := by rw [← hm]
  cases hact with
  | call halive | find halive | build halive => exact halive
  | @pass r halive hbuilt hrun hq hans =>
      rw [Slot.settled_of_built hbuilt] at hok
      have hexits := (pass_cases hok.control hans).exits_iff halive
      rw [← Bool.not_eq_true]
      exact fun hexit => hhead hrun hbuilt (hexits.mp hexit)

/-- At a fatal header the connection can end the process by itself. -/
theorem tableUser_exit {q : Slot} (hok : StateOk (q.state ⟨.empty, false⟩)) (hrun : q.stop = false)
    (hbuilt : q.answering = false) (hfatal : q.c.FatalHead) :
    ∃ ev q', tableUser.act q false ev q' true := by
  obtain ⟨hc, hw, -⟩ := id hfatal
  have hquery : ¬ q.c.Querying := fun hq => absurd (hw.symm.trans hq.2) (by decide)
  have hstore : ¬ q.c.Storing := fun hst => absurd (hw.symm.trans hst.2) (by decide)
  have hask : q.asks = none := by
    rw [Slot.asks, if_pos ⟨hrun, hbuilt⟩, if_neg hquery, if_neg hstore]
  have hans : Env.any.answer (q.state ⟨.empty, false⟩) ⟨0, .other⟩ := by
    intro call hcall
    simp [State.syscall, Slot.state, hc, hw] at hcall
  have hact : Slot.Act q ⟨.empty, false⟩ _ _ _ := .pass rfl hbuilt hrun hquery hans
  have hexit := ((pass_cases hok.control hans).exits_iff rfl).mpr hfatal
  have hacts := hact.withTable hask .empty
  rw [State.process, hexit] at hacts
  exact ⟨_, _, hask, hacts⟩

/-! ### The answer is stored -/

/-- The answer to a single GET goes to the front of `ret_buf`. -/
theorem Served.offset {A : Server ι} (h : ServerInit streams S₀) (hr : Run Served S₀ log A)
    (hans : (A.parts i).answering = true) : (A.parts i).c.retBufOffset = 0 := by
  have hrel : Run Served S₀ log A ∧
      ∀ i, (A.parts i).answering = true → (A.parts i).c.retBufOffset = 0 := by
    refine hr.relate (R := fun log A => Run Served S₀ log A ∧
      ∀ i, (A.parts i).answering = true → (A.parts i).c.retBufOffset = 0) ⟨.refl _, ?_⟩ ?_
    · intro i hans
      rw [h.built i] at hans
      cases hans
    · intro log A ev B hA hs
      obtain ⟨hr, hall⟩ := hA
      refine ⟨hr.snoc hs, fun j hans => ?_⟩
      obtain ⟨k, hs⟩ := hs
      by_cases hjk : j = k
      swap
      · rw [hs.parts_of_ne hjk] at hans ⊢
        exact hall j hans
      subst hjk
      cases hs with
      | intro hact =>
          dsimp only at hans ⊢
          rw [Function.update_self] at hans ⊢
          cases hact with
          | call | pass | build => cases hans
          | find halive hbuilt hrun hq =>
              -- it is looked up between two answers, when nothing is being sent
              obtain ⟨t, hrun', ht⟩ := (Served.projected h hr j).run
              rw [ht halive, Slot.settled_of_built hbuilt] at hrun'
              have htidy := (h.slots j).tidy_run hrun'
              have hnot : ¬ (A.parts j).c.Sending := by
                intro hs
                rw [Connection.Sending, hq.2] at hs
                cases hs.1
              rw [queryResult_retBufOffset]
              exact htidy.offset hnot
  exact hrel.2 i hans

/-- **An answer is stored within its buffer** exactly if it fits into `ret_buf`, or is no miss
that is too long for what is left in the last buffer of the batch. -/
theorem Served.inside_iff {A : Server ι} (h : ServerInit streams S₀) (hr : Run Served S₀ log A)
    (halive : A.shared.exited = false) (hans : (A.parts i).answering = true) :
    (A.parts i).c.storeEnd ≤ (A.parts i).c.storeRoom ↔
      ((A.parts i).c.inBatchGet = false →
        headerSize + (A.parts i).c.key.length + (A.parts i).c.valuelen ≤ initRetBufSize) ∧
      ((A.parts i).c.inBatchGet = true → (A.parts i).c.queryHit = false →
        (A.parts i).c.needNewBuf = false →
        (A.parts i).c.back.datalen + headerSize + (A.parts i).c.key.length + 8 ≤
          batchBufSize) := by
  have hoff := Served.offset h hr hans
  obtain ⟨hok, t, hrun, ht⟩ := Served.projected h hr i
  have hsettled : ((A.parts i).settled A.shared).c = conRetBuf (A.parts i).c := by
    rw [Slot.settled, if_pos hans]
  obtain ⟨hkey, hvalue, -⟩ := hok.data
  rw [hsettled, conRetBuf_key] at hkey
  rw [hsettled, conRetBuf_value] at hvalue
  have hsize := (h.slots i).retBufSize_run hrun
  rw [ht halive, hsettled, conRetBuf_retBufSize] at hsize
  have hlen := (A.parts i).c.length_respPacket
  have hmiss : (A.parts i).c.queryHit = false → (A.parts i).c.valuelen = 8 := by
    intro hhit
    simp [Connection.valuelen, hhit]
  have hhit : (A.parts i).c.queryHit = true →
      (A.parts i).c.valuelen = (A.parts i).c.value.length := by
    intro hhit
    simp [Connection.valuelen, hhit]
  cases hin : (A.parts i).c.inBatchGet with
  | false =>
      rw [Connection.storeEnd, Connection.storeRoom, hin, if_neg Bool.false_ne_true,
        if_neg Bool.false_ne_true, hsize, hoff, hlen]
      refine ⟨fun hle => ⟨fun _ => by omega, fun heq => absurd heq Bool.false_ne_true⟩,
        fun hfits => ?_⟩
      have hle := hfits.1 rfl
      omega
  | true =>
      rw [Connection.storeEnd, Connection.storeRoom, hin, if_pos rfl, if_pos rfl, hlen,
        Connection.openBuf]
      refine ⟨fun hle => ⟨fun heq => absurd heq.symm Bool.false_ne_true, fun _ hno hnew => ?_⟩,
        fun hfits => ?_⟩
      · rw [hnew, if_neg Bool.false_ne_true, hmiss hno] at hle
        rw [Connection.back]
        omega
      · cases hnew : (A.parts i).c.needNewBuf with
        | true =>
            -- a new buffer has room for any answer
            have hshort : (A.parts i).c.valuelen ≤ initReadBufSize := by
              cases hq : (A.parts i).c.queryHit with
              | true => rwa [hhit hq]
              | false =>
                  rw [hmiss hq]
                  decide
            rw [if_pos rfl, List.getLastD_concat, Batchbuf.fresh]
            simp only [initReadBufSize, headerSize, batchBufSize] at hkey hshort ⊢
            omega
        | false =>
            rw [if_neg Bool.false_ne_true]
            cases hq : (A.parts i).c.queryHit with
            | true =>
                -- this is what `con_ret_buf` has compared
                have hroom : ¬ batchBufSize < (A.parts i).c.back.datalen + headerSize +
                    (A.parts i).c.key.length + (A.parts i).c.value.length := by
                  simpa [Connection.needNewBuf] using hnew
                rw [Connection.back] at hroom
                rw [hhit hq]
                omega
            | false =>
                have hle := hfits.2 rfl hq hnew
                rw [Connection.back] at hle
                rw [hmiss hq]
                omega

/-! ### One step -/

/-- A step of a connection, some step of the server. -/
theorem Handles.served (hr : Run (Handles P i) S log S') : Run (MapServed P) S log S' :=
  hr.mono fun _ _ _ hs => hs.step

/-- **A step that harms nobody** leaves the process alive. -/
theorem Handles.alive (h : ServerInit streams S₀) (h₀ : Run (MapServed P) (S₀.withMap P n) log₀ S)
    (halive : S.Alive) (hsafe : Harmless P (S.parts i) S.shared) (hs : Handles P i S log S') :
    S'.Alive := by
  obtain ⟨t, hrun, hok, hrely⟩ := MapServed.reached h h₀
  have hsettled := (Served.projected h hrun i).ok
  have hrelies := hrely i
  obtain ⟨hrunning, -⟩ := halive
  cases hs with
  | @intro ev p' m' hact =>
      generalize hq : S.parts i = q at hact hsafe hrelies
      generalize hm : S.shared = m at hact hsafe hrunning hok
      cases hact with
      | @own p p'' ev m b b' hown =>
          have hpart : (S.atomic Process.mk t).parts i = p := congrArg Prod.fst hq
          have hshared : (S.atomic Process.mk t).shared = ⟨t, b⟩ :=
            congrArg (fun m : Shared (CuckooMap Bytes Bytes) Bool => Process.mk t m.rest) hm
          rw [hpart, hshared] at hsettled
          have hempty : StateOk (p.settled ⟨.empty, b⟩) := by
            rw [Slot.settled_shared p ⟨t, b⟩ ⟨.empty, b⟩]
            exact hsettled.shared HashTable.bounded_empty _
          exact ⟨tableUser_exits hempty hown (hsafe.head rfl), rfl⟩
      | begin | go | ret => exact ⟨hrunning, rfl⟩
      | @throw p o place err m m' b hlive hask hthrow =>
          -- only `check_resize_validity` throws, and it does not
          obtain ⟨hp, rfl, herror⟩ := Libcuckoo.Call.step_throws (congrArg Prod.fst hthrow)
          obtain ⟨hload, hmax⟩ := hsafe.resize hp rfl
          rcases Libcuckoo.CuckooMap.checkResizeValidity_error.mp ⟨err, herror⟩ with hbad | hbad
          · rw [hmax] at hbad
            cases hbad
          · rw [hload] at hbad
            cases hbad

/-- **A step that may harm somebody** is not the end of it: either the answer at hand does not fit,
or a step is possible that ends the process. -/
theorem Harmless.of_isolated (h : ServerInit streams S₀)
    (h₀ : Run (MapServed P) (S₀.withMap P n) log₀ S) (halive : S.Alive)
    (hall : ∀ log S', Run (Handles P i) S log S' → Isolated P i S log S') :
    Harmless P (S.parts i) S.shared := by
  obtain ⟨t, hrun, hok, hrely⟩ := MapServed.reached h h₀
  have hsettled := (Served.projected h hrun i).ok
  have hinside := (hall [] S (.refl S)).inside
  have hfits := Served.inside_iff h hrun halive.running (i := i)
  have hnext : ∀ ev p' m', tableUser.Act Place.snapshot (Libcuckoo.Call.step P) (S.parts i)
      S.shared ev p' m' → m'.rest = false ∧ m'.aborted = false := by
    intro ev p' m' hact
    obtain ⟨-, -, halive, -⟩ := hall _ _ (.single (.intro hact))
    exact ⟨halive.running, halive.uncaught⟩
  have hpart : (S.atomic Process.mk t).parts i = (S.parts i).1 := rfl
  have hshared : (S.atomic Process.mk t).shared = ⟨t, S.shared.rest⟩ := rfl
  rw [hpart] at hsettled hfits
  rw [hshared] at hsettled
  obtain ⟨hrunning, huncaught⟩ := halive
  have hrelies := hrely i
  revert hnext
  generalize S.parts i = q at hsettled hinside hfits hrelies ⊢
  generalize S.shared = m at hsettled hrunning huncaught ⊢
  obtain ⟨p, op⟩ := q
  obtain ⟨m, b, aborted⟩ := m
  obtain rfl : b = false := hrunning
  obtain rfl : aborted = false := huncaught
  intro hnext
  refine ⟨fun hop hrun hbuilt hfatal => ?_, fun hans => ((hfits hans).mp (hinside hans)).1,
    fun hans => ((hfits hans).mp (hinside hans)).2, fun hp hop => ?_⟩
  · -- the header is parsed
    obtain rfl : op = none := hop
    have hempty : StateOk (p.state ⟨.empty, false⟩) := by
      rw [Slot.settled_of_built hbuilt] at hsettled
      exact hsettled.shared HashTable.bounded_empty _
    obtain ⟨ev, p', hact⟩ := tableUser_exit hempty hrun hbuilt hfatal
    cases (hnext _ _ _ (.own hact)).1
  · -- the resize is checked
    obtain rfl : op = some (.doubling hp) := hop
    obtain ⟨o, hask, -⟩ := hrelies _ rfl
    by_contra hbad
    have herror : P.maximumHashpower.any (· < hp + 1) = true ∨ m.loadFactorTooLow P = true := by
      by_contra hneither
      rw [not_or, Bool.not_eq_true, Bool.not_eq_true] at hneither
      exact hbad ⟨hneither.2, hneither.1⟩
    obtain ⟨err, hthrow⟩ := Libcuckoo.Call.step_doubling (c := o)
      (Libcuckoo.CuckooMap.checkResizeValidity_error.mpr herror)
    cases (hnext _ _ _ (.throw rfl hask hthrow)).2

/-- **A stream that keeps to the protocol** has no fatal header, however it is cut: neither a
first byte that is no magic number nor, in a batch, a number out of turn. -/
theorem Handles.orderly (h : ServerInit streams S₀)
    (h₀ : Run (MapServed P) (S₀.withMap P n) log₀ S) (halive : S.Alive)
    (hsession : sessionAfter (.head none) (streams i) ≠ .exited) (hrun : (S.parts i).1.stop = false)
    (hbuilt : (S.parts i).1.answering = false) : ¬ (S.parts i).1.c.FatalHead := by
  intro hfatal
  obtain ⟨t, hserved, -⟩ := MapServed.reached h h₀
  have hprojected := Served.projected h hserved i
  have hshared : (S.atomic Process.mk t).shared = ⟨t, false⟩ :=
    congrArg (Process.mk t) halive.running
  rw [hshared] at hprojected
  have hok : StateOk ((S.parts i).1.state ⟨.empty, false⟩) := by
    have hsettled := hprojected.ok
    rw [show (S.atomic Process.mk t).parts i = (S.parts i).1 from rfl,
      Slot.settled_of_built hbuilt] at hsettled
    exact hsettled.shared HashTable.bounded_empty _
  obtain ⟨ev, q, hask, hact⟩ := tableUser_exit hok hrun hbuilt hfatal
  obtain ⟨-, hexited⟩ := hprojected.own (hact.withTable hask t)
  have hexits := ((h.slots i).executes hexited).2
  rw [Slot.settled_shared q ⟨t, true⟩ ⟨t, true⟩] at hexits
  exact hsession (hexits rfl)

/-! ### Fault isolation -/

/-- Handling one connection changes the table by its SETs. -/
theorem Handles.table (h : ServerInit streams S₀) (h₀ : Run (MapServed P) (S₀.withMap P n) log₀ S)
    (hr : Run (Handles P i) S log S') {t : HashTable}
    (ht : Represents (S.shared.object.settled P) t) :
    Represents (S'.shared.object.settled P) (t.after log) := by
  obtain ⟨t₀, hrun₀, hok₀, -⟩ := MapServed.reached h h₀
  obtain ⟨t₁, hrun₁, hok₁, -⟩ := MapServed.reached h (h₀.trans (Handles.served hr))
  have hbefore : t₀ = HashTable.empty.after log₀ := (Served.coherent h hrun₀).table
  have hafter : t₁ = HashTable.empty.after (log₀ ++ log) := (Served.coherent h hrun₁).table
  rw [HashTable.after_append, ← hbefore] at hafter
  obtain rfl : t = t₀ := Cells.Represents.unique ht hok₀.represents
  rw [← hafter]
  exact hok₁.represents

theorem Handles.others (hr : Run (Handles P i) S log S') (j : ι) (hj : j ≠ i) :
    S'.parts j = S.parts j :=
  hr.invariant (I := fun A => A.parts j = S.parts j) rfl
    fun _ _ _ hA hs => (hs.parts_of_ne hj).trans hA

theorem HandlesWell.handles (hr : Run (HandlesWell P i) S log S') :
    Run (Handles P i) S log S' := by
  refine hr.mono ?_
  intro A ev B hs
  cases hs with
  | intro hact => exact .intro hact.2

theorem HandlesWell.alive (h : ServerInit streams S₀)
    (h₀ : Run (MapServed P) (S₀.withMap P n) log₀ S) (halive : S.Alive)
    (hr : Run (HandlesWell P i) S log S') : S'.Alive := by
  have hrel : Run (Handles P i) S log S' ∧ S'.Alive := by
    refine hr.relate (R := fun log A => Run (Handles P i) S log A ∧ A.Alive) ⟨.refl _, halive⟩ ?_
    intro log A ev B hA hs
    obtain ⟨hrun, halive⟩ := hA
    cases hs with
    | intro hact =>
        have hstep : Handles P i A _ _ := .intro hact.2
        exact ⟨hrun.snoc hstep,
          Handles.alive h (h₀.trans (Handles.served hrun)) halive hact.1 hstep⟩
  exact hrel.2

/-- **Careful handling is isolated.** -/
theorem HandlesWell.isolated (h : ServerInit streams S₀)
    (h₀ : Run (MapServed P) (S₀.withMap P n) log₀ S) (halive : S.Alive)
    (hr : Run (HandlesWell P i) S log S') (hlast : Harmless P (S'.parts i) S'.shared) :
    Isolated P i S log S' := by
  have hrun := HandlesWell.handles hr
  have halive' := HandlesWell.alive h h₀ halive hr
  obtain ⟨t, hserved, -⟩ := MapServed.reached h (h₀.trans (Handles.served hrun))
  refine ⟨Handles.others hrun, fun t ht => Handles.table h h₀ hrun ht, halive', fun hans => ?_⟩
  exact (Served.inside_iff h hserved halive'.running hans).mpr ⟨hlast.single hans, hlast.batch hans⟩

/-- Where every state a connection can bring about is as it should be, it is handled with care. -/
theorem Handles.well (h : ServerInit streams S₀) (h₀ : Run (MapServed P) (S₀.withMap P n) log₀ S)
    (halive : S.Alive)
    (hall : ∀ log A, Run (Handles P i) S log A → A.Alive → Harmless P (A.parts i) A.shared)
    (hr : Run (Handles P i) S log S') : Run (HandlesWell P i) S log S' := by
  induction hr with
  | refl => exact .refl _
  | @snoc A B log ev hr hs ih =>
      have hsafe := hall log A hr (HandlesWell.alive h h₀ halive ih)
      cases hs with
      | intro hact => exact ih.snoc (.intro ⟨hsafe, hact⟩)

/-- **Fault isolation.** However the bytes of a client arrive, and whatever state the server is
in: as long as each step made for it is one that harms nobody, handling it leaves the others
alone, changes the table by its SETs only and leaves the process alive. And this is so of all
that can be made of its bytes if and only if every step of that harms nobody. -/
theorem isolated_iff (h : ServerInit streams S₀) (h₀ : Run (MapServed P) (S₀.withMap P n) log₀ S)
    (halive : S.Alive) :
    (∀ log S', Run (HandlesWell P i) S log S' → Harmless P (S'.parts i) S'.shared →
      Isolated P i S log S') ∧
    ((∀ log S', Run (Handles P i) S log S' → Isolated P i S log S') ↔
      ∀ log A, Run (Handles P i) S log A → A.Alive → Harmless P (A.parts i) A.shared) := by
  refine ⟨fun log S' hr hlast => HandlesWell.isolated h h₀ halive hr hlast, ?_, ?_⟩
  · intro hall log A hr halive'
    have h₁ := h₀.trans (Handles.served hr)
    refine Harmless.of_isolated h h₁ halive' fun log' B hr' => ?_
    have hB := hall _ _ (hr.trans hr')
    exact ⟨Handles.others hr', fun t ht => Handles.table h h₁ hr' ht, hB.alive, hB.inside⟩
  · intro hall log S' hr
    have hwell := Handles.well h h₀ halive hall hr
    have halive' := HandlesWell.alive h h₀ halive hwell
    exact HandlesWell.isolated h h₀ halive hwell (hall log S' hr halive')

/-! ### Runs -/

instance (c : Connection) : Decidable c.FatalHead :=
  inferInstanceAs (Decidable (_ ∧ _ ∧ ((∃ x ∈ c.window.head?, x ≠ protocolBinaryReq) ∨ _)))

instance (place : Option Place) (q : Nat → Prop) [DecidablePred q] :
    Decidable (∀ hp, place = some (.doubling hp) → q hp) :=
  match place with
  | some (.doubling hp) =>
    decidable_of_iff (q hp) ⟨fun h hp' heq => by cases heq; exact h, fun h => h hp rfl⟩
  | none | some .snapshot | some (.locking _) | some (.searching ..) | some (.tracing ..)
  | some (.moving ..) => isTrue fun _ heq => by cases heq

instance (p : Slot × Option Place) (m : Shared (CuckooMap Bytes Bytes) Bool) :
    Decidable (Harmless P p m) :=
  decidable_of_iff (_ ∧ _ ∧ _ ∧ _)
    ⟨fun h => ⟨h.1, h.2.1, h.2.2.1, h.2.2.2⟩, fun h => ⟨h.head, h.single, h.batch, h.resize⟩⟩

/-- One move, if it is possible and harms nobody. -/
def carefulExec (P : Params Bytes) (p : Slot × Option Place)
    (m : Shared (CuckooMap Bytes Bytes) Bool) (k : UserMove SlotMove) :
    Option (List Event × (Slot × Option Place) × Shared (CuckooMap Bytes Bytes) Bool) :=
  if Harmless P p m then
    tableUser.exec Slot.ownExec Place.snapshot (Libcuckoo.Call.step P) p m k
  else none

theorem carefulExec_act (p : Slot × Option Place) (m : Shared (CuckooMap Bytes Bytes) Bool)
    (k : UserMove SlotMove) (ev : List Event) (p' : Slot × Option Place)
    (m' : Shared (CuckooMap Bytes Bytes) Bool) (h : carefulExec P p m k = some (ev, p', m')) :
    CarefulAct P p m ev p' m' := by
  rw [carefulExec] at h
  split at h
  next hsafe => exact ⟨hsafe, User.exec_act Slot.ownExec_act p m k ev p' m' h⟩
  next => cases h

/-- One client sends a SET, another one a single zero byte. -/
def setAndZero : Bool → Bytes
  | true => (Packet.smallSet 107).bytes
  | false => [0]

/-- The first one has its SET stored. -/
def handleSet : MapServer Bool × List (Bool × Event) :=
  Interleaved.play (carefulExec sumHash) ((Server.accepted setAndZero).withMap sumHash 1)
    ([.own .call, .own (.ret 21), .own (.ret 0), .own (.ret 0), .use, .use, .use].map
      fun k => (true, k))

theorem isolated_iff_set :
    tableCallsOf (Interleaved.own true handleSet.2) =
        [.insertOrAssign [107] [1, 2, 3, 4, 5, 6, 7, 8]] ∧
      Isolated sumHash true ((Server.accepted setAndZero).withMap sumHash 1) handleSet.2
        handleSet.1 := by
  have hall := isolated_iff (P := sumHash) (n := 1) (i := true) (Server.init_accepted setAndZero)
    (.refl _) ⟨rfl, rfl⟩
  refine ⟨by decide +kernel, hall.1 _ _ ?_ (by decide +kernel)⟩
  exact Interleaved.play_acts carefulExec_act _ true _

/-- The other one has its byte parsed. -/
def handleZero : MapServer Bool × List (Bool × Event) :=
  ((Server.accepted setAndZero).withMap sumHash 1).play sumHash
    ([.own .call, .own (.ret 1), .own (.ret 0)].map fun k => (false, k))

/-- The client that sends a zero byte ends the process. -/
theorem isolated_zeroByte :
    ¬ ∀ (P : Params Bytes) (n : Nat) (streams : Bool → Bytes) (S₀ : Server Bool)
      (S S' : MapServer Bool) (log₀ log : List (Bool × Event)) (i : Bool), ServerInit streams S₀ →
      Run (MapServed P) (S₀.withMap P n) log₀ S → S.Alive → Run (Handles P i) S log S' →
      Isolated P i S log S' := by
  intro hall
  have hr : Run (Handles sumHash false) ((Server.accepted setAndZero).withMap sumHash 1)
      handleZero.2 handleZero.1 :=
    Interleaved.play_acts (User.exec_act Slot.ownExec_act) _ false _
  have hisolated := hall sumHash 1 _ _ _ _ _ _ false (Server.init_accepted setAndZero) (.refl _)
    ⟨rfl, rfl⟩ hr
  have hexit : handleZero.1.shared.rest = true := by decide +kernel
  cases hexit.symm.trans hisolated.alive.running

end MultiportNetwork
