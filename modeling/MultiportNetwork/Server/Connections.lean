import MultiportNetwork.Lib.Interleave
import MultiportNetwork.Server.Exec

/-!
# MultiportNetwork.Server.Connections

All connections of the server. Each is handled by the worker thread it was given
to, and nothing orders what two threads do, so any connection may move next. What
they share is `hashTable`, each operation of which is atomic, and the process.

`query_key` is cut in two here: between `hashTable.find` and `con_ret_buf` other
connections may move. Seen from one connection that makes no difference
(`Slot.act_settles`), and what a connection does is one of its runs with the others
as `Step.others` (`Served.projected`).
-/

namespace MultiportNetwork

/-- A connection, and `process_func`'s locals while the function runs on it. -/
structure Slot where
  c : Connection
  inbox : Bytes
  instCount : Nat
  stop : Bool
  /-- `hashTable.find` has returned, and `con_ret_buf` has not been called. -/
  answering : Bool

/-- What all connections share. -/
structure Process where
  table : HashTable
  exited : Bool

/-- A connection as `process_func` sees it. -/
def Slot.state (p : Slot) (m : Process) : State where
  c := p.c
  inbox := p.inbox
  table := m.table
  instCount := p.instCount
  stop := p.stop
  exited := m.exited

def State.slot (s : State) : Slot := ⟨s.c, s.inbox, s.instCount, s.stop, false⟩
def State.process (s : State) : Process := ⟨s.table, s.exited⟩

/-- The next pass is `case query_key`. -/
def Connection.Querying (c : Connection) : Prop :=
  c.connState = .connDealWith ∧ c.workState = .queryKey

instance (c : Connection) : Decidable c.Querying := inferInstanceAs (Decidable (_ ∧ _))

/-- What one connection can do next. -/
inductive Slot.Act : Slot → Process → List Event → Slot → Process → Prop
  | call {p : Slot} {m : Process} (halive : m.exited = false) (hbuilt : p.answering = false)
      (hstop : p.stop = true) (hevent : p.c.eventAdded = true) :
      Act p m [] (enter (p.state m)).slot m
  | pass {p : Slot} {m : Process} {r : SysRet} (halive : m.exited = false)
      (hbuilt : p.answering = false) (hrun : p.stop = false) (hq : ¬ p.c.Querying)
      (hans : Env.any.answer (p.state m) r) :
      Act p m (pass (p.state m) r).2 (pass (p.state m) r).1.slot (pass (p.state m) r).1.process
  /-- `hashTable.find` and `query_hit`. -/
  | find {p : Slot} {m : Process} (halive : m.exited = false) (hbuilt : p.answering = false)
      (hrun : p.stop = false) (hq : p.c.Querying) :
      Act p m [.find p.c.key (m.table.find p.c.key)]
        { p with c := queryResult p.c (m.table.find p.c.key), answering := true } m
  /-- `con_ret_buf`. -/
  | build {p : Slot} {m : Process} (halive : m.exited = false) (hbuilt : p.answering = true) :
      Act p m [.reply p.c.inBatchGet p.c.respPacket]
        { p with c := conRetBuf p.c, answering := false } m

/-- The server: its connections, the table and the process. -/
abbrev Server (ι : Type) := Interleaved ι Slot Process

section
variable {ι : Type} [DecidableEq ι]

/-- The server makes a step on behalf of some connection. -/
abbrev Served : Server ι → List (ι × Event) → Server ι → Prop := Interleaved.Step Slot.Act

/-- A server with an empty table that has accepted its connections. A connection
accepted later is one whose client has not sent anything yet. -/
structure ServerInit (streams : ι → Bytes) (S : Server ι) : Prop where
  slots : ∀ i, Init (streams i) ((S.parts i).state S.shared)
  built : ∀ i, (S.parts i).answering = false
  table : S.shared.table = .empty

end

/-! ### One connection among others -/

/-- The connection once the answer at hand has been built. -/
def Slot.settled (p : Slot) (m : Process) : State :=
  if p.answering then { p.state m with c := conRetBuf p.c } else p.state m

/-- The answer at hand. -/
def Slot.pending (p : Slot) : List Event :=
  if p.answering then [.reply p.c.inBatchGet p.c.respPacket] else []

variable {p p' q : Slot} {m m' : Process} {ev tr : List Event}

theorem Slot.settled_table (p : Slot) (m : Process) : (p.settled m).table = m.table := by
  unfold Slot.settled
  split <;> rfl

theorem Slot.settled_of_built (h : p.answering = false) : p.settled m = p.state m := by
  simp [Slot.settled, h]

theorem Slot.pending_of_built (h : p.answering = false) : p.pending = [] := by
  simp [Slot.pending, h]

theorem State.settled_slot (s : State) : s.slot.settled s.process = s := rfl

/-- **An act is some steps of the connection's own state machine**, the answer at hand
counted as built. -/
theorem Slot.act_settles (h : Slot.Act p m ev p' m') :
    ∃ tr, Run (Step Env.any) (p.settled m) tr (p'.settled m') ∧
      ev ++ p'.pending = p.pending ++ tr := by
  cases h with
  | call halive hbuilt hstop hevent =>
      rw [Slot.settled_of_built hbuilt, Slot.pending_of_built hbuilt]
      exact ⟨[], .single (.call hstop halive hevent), rfl⟩
  | pass halive hbuilt hrun hq hans =>
      rw [Slot.settled_of_built hbuilt, Slot.pending_of_built hbuilt, State.settled_slot]
      exact ⟨_, .single (.pass hrun halive hans), by simp [Slot.pending, State.slot]⟩
  | find halive hbuilt hrun hq =>
      rw [Slot.settled_of_built hbuilt, Slot.pending_of_built hbuilt]
      have hans : Env.any.answer (p.state m) ⟨0, .other⟩ := by
        intro call hcall
        simp [State.syscall, Slot.state, hq.1, hq.2] at hcall
      have hpass : pass (p.state m) ⟨0, .other⟩ =
          ({ p.state m with c := conRetBuf (queryResult p.c (m.table.find p.c.key)) },
            [.find p.c.key (m.table.find p.c.key),
              .reply (queryResult p.c (m.table.find p.c.key)).inBatchGet
                (queryResult p.c (m.table.find p.c.key)).respPacket]) := by
        simp [pass, Slot.state, hq.1, onConnDealWith, hq.2, onQueryKey]
      have hstep := Step.pass (s := p.state m) hrun halive hans
      rw [hpass] at hstep
      exact ⟨_, .single hstep, rfl⟩
  | build halive hbuilt =>
      refine ⟨[], ?_, by simp [Slot.pending, hbuilt]⟩
      have hsettled : p.settled m =
          Slot.settled { p with c := conRetBuf p.c, answering := false } m := by
        simp [Slot.settled, hbuilt, Slot.state]
      rw [hsettled]
      exact .refl _

theorem Slot.act_alive (h : Slot.Act p m ev p' m') : m.exited = false := by
  cases h <;> assumption

/-- The invariant says nothing about the process, and of the table only its bounds. -/
theorem StateOk.shared {s : State} (h : StateOk s) {t : HashTable} (ht : t.Bounded) (b : Bool) :
    StateOk { s with table := t, exited := b } :=
  ⟨⟨h.control.window, h.control.control, h.control.body, h.control.buffers, h.control.event⟩,
    ⟨h.data.key, h.data.value, ht⟩, h.batch⟩

theorem Slot.settled_shared (q : Slot) (m m' : Process) :
    q.settled m' = { q.settled m with table := m'.table, exited := m'.exited } := by
  unfold Slot.settled
  split <;> rfl

/-- What a connection that began in `s₀` has done among others. -/
structure Projected (s₀ : State) (tr : List Event) (p : Slot) (m : Process) : Prop where
  ok : StateOk (p.settled m)
  run : ∃ t, Run (Step Env.any) s₀ (tr ++ p.pending) t ∧
    (m.exited = false → t = p.settled m)

theorem Projected.own {s₀ : State} (h : Projected s₀ tr p m) (ha : Slot.Act p m ev p' m') :
    Projected s₀ (tr ++ ev) p' m' ∧
      Run (Step Env.any) s₀ (tr ++ ev ++ p'.pending) (p'.settled m') := by
  obtain ⟨t, hr, ht⟩ := h.run
  obtain rfl := ht (Slot.act_alive ha)
  obtain ⟨tr', hr', hev⟩ := Slot.act_settles ha
  have hrun : Run (Step Env.any) s₀ (tr ++ ev ++ p'.pending) (p'.settled m') := by
    rw [List.append_assoc, hev, ← List.append_assoc]
    exact hr.trans hr'
  exact ⟨⟨h.ok.run hr', _, hrun, fun _ => rfl⟩, hrun⟩

theorem Projected.other {s₀ s₁ : State} {tr' : List Event} (h : Projected s₀ tr p m)
    (h' : Projected s₁ tr' q m) (ha : Slot.Act p m ev p' m') : Projected s₁ tr' q m' := by
  have hbounded : m'.table.Bounded := by
    have := (h.own ha).1.ok.data.table
    rwa [Slot.settled_table] at this
  refine ⟨by rw [Slot.settled_shared q m m']; exact h'.ok.shared hbounded _, ?_⟩
  obtain ⟨t, hr, ht⟩ := h'.run
  obtain rfl := ht (Slot.act_alive ha)
  by_cases halive : m'.exited = false
  · have halive' : (q.settled m).exited = false := by
      have := Slot.act_alive ha
      unfold Slot.settled
      split <;> exact this
    have hstep := hr.snoc (.others halive' hbounded)
    rw [List.append_nil] at hstep
    refine ⟨_, hstep, fun _ => ?_⟩
    rw [Slot.settled_shared q m m', halive, ← halive']
  · exact ⟨_, hr, fun h => absurd h halive⟩

/-- **Every connection runs as if it were alone with the table.** -/
theorem Served.projected {ι : Type} [DecidableEq ι] {streams : ι → Bytes} {S₀ S : Server ι}
    {log : List (ι × Event)} (h : ServerInit streams S₀) (hr : Run Served S₀ log S) (i : ι) :
    Projected ((S₀.parts i).state S₀.shared) (Interleaved.own i log) (S.parts i) S.shared := by
  refine Interleaved.relate
    (R := fun i tr p m => Projected ((S₀.parts i).state S₀.shared) tr p m)
    (fun i => ?_) (fun h ha => (h.own ha).1) (fun _ h h' ha => h.other h' ha) hr i
  have hbuilt := h.built i
  rw [← Slot.settled_of_built hbuilt]
  refine ⟨?_, _, ?_, fun _ => rfl⟩
  · rw [Slot.settled_of_built hbuilt]
    exact (h.slots i).ok
  · rw [Slot.pending_of_built hbuilt]
    exact .refl _

/-! ### Schedules -/

/-- What a schedule decides for one connection. -/
inductive SlotMove
  | call
  | pass (r : SysRet)
  | find
  | build
  deriving Repr, DecidableEq

/-- A pass whose system call, if it makes one, transfers `n` bytes. -/
def SlotMove.ret (n : Int) : SlotMove := .pass ⟨n, .other⟩

/-- One move, if it is possible. -/
def Slot.exec (p : Slot) (m : Process) : SlotMove → Option (List Event × Slot × Process)
  | .call =>
    if m.exited = false ∧ p.answering = false ∧ p.stop = true ∧ p.c.eventAdded = true then
      some ([], (enter (p.state m)).slot, m)
    else none
  | .pass r =>
    if m.exited = false ∧ p.answering = false ∧ p.stop = false ∧ ¬ p.c.Querying ∧
        Env.any.answer (p.state m) r then
      some ((pass (p.state m) r).2, (pass (p.state m) r).1.slot, (pass (p.state m) r).1.process)
    else none
  | .find =>
    if m.exited = false ∧ p.answering = false ∧ p.stop = false ∧ p.c.Querying then
      some ([.find p.c.key (m.table.find p.c.key)],
        { p with c := queryResult p.c (m.table.find p.c.key), answering := true }, m)
    else none
  | .build =>
    if m.exited = false ∧ p.answering = true then
      some ([.reply p.c.inBatchGet p.c.respPacket],
        { p with c := conRetBuf p.c, answering := false }, m)
    else none

theorem Slot.exec_act {k : SlotMove} (h : p.exec m k = some (ev, p', m')) :
    Slot.Act p m ev p' m' := by
  cases k with
  | call =>
      simp only [Slot.exec] at h
      split at h
      next hcall =>
        obtain ⟨halive, hbuilt, hstop, hevent⟩ := hcall
        cases h
        exact .call halive hbuilt hstop hevent
      next => cases h
  | pass r =>
      simp only [Slot.exec] at h
      split at h
      next hpass =>
        obtain ⟨halive, hbuilt, hrun, hq, hans⟩ := hpass
        cases h
        exact .pass halive hbuilt hrun hq hans
      next => cases h
  | find =>
      simp only [Slot.exec] at h
      split at h
      next hfind =>
        obtain ⟨halive, hbuilt, hrun, hq⟩ := hfind
        cases h
        exact .find halive hbuilt hrun hq
      next => cases h
  | build =>
      simp only [Slot.exec] at h
      split at h
      next hbuild =>
        obtain ⟨halive, hbuilt⟩ := hbuild
        cases h
        exact .build halive hbuilt
      next => cases h

section
variable {ι : Type}

/-- A server that has accepted its connections, before their streams arrive. -/
def Server.accepted (streams : ι → Bytes) : Server ι :=
  ⟨fun i => (State.accepted (streams i) .empty).slot, ⟨.empty, false⟩⟩

theorem Server.init_accepted (streams : ι → Bytes) : ServerInit streams (.accepted streams) :=
  ⟨fun _ => State.init_accepted _, fun _ => rfl, rfl⟩

variable [DecidableEq ι]

/-- The server a schedule leads to and its log. -/
def Server.play (S : Server ι) (ks : List (ι × SlotMove)) : Server ι × List (ι × Event) :=
  Interleaved.play Slot.exec S ks

theorem Server.play_run (S : Server ι) (ks : List (ι × SlotMove)) :
    Run Served S (S.play ks).2 (S.play ks).1 := by
  refine Interleaved.play_run ?_ S ks
  intro p m k ev p' m' h
  exact Slot.exec_act h

end

end MultiportNetwork
