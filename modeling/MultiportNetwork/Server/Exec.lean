import MultiportNetwork.Server.Call

/-!
# MultiportNetwork.Server.Exec

Running the model. A schedule is a list of `Move`s, a call or a pass with the
result of its system call; `State.play` follows it as long as each move is one the
environment allows. What it computes is a run (`State.play_run`), so a schedule
that is played to its end exhibits one.
-/

namespace MultiportNetwork

/-- What a schedule decides. -/
inductive Move
  | call
  | pass (r : SysRet)
  deriving Repr, DecidableEq

/-- A pass whose system call, if it makes one, transfers `n` bytes. -/
def Move.ret (n : Int) : Move := .pass ⟨n, .other⟩

/-- A pass whose system call would block. -/
def Move.blocked : Move := .pass ⟨-1, .EAGAIN⟩

instance (inbox : Bytes) : (call : Syscall) → (r : SysRet) → Decidable (call.Returns inbox r)
  | .read n, r => inferInstanceAs (Decidable (if n ≤ 0 then r.ret = 0
      else r.ret = -1 ∨ (0 ≤ r.ret ∧ r.ret ≤ n ∧ r.ret ≤ inbox.length)))
  | .write n, r =>
    inferInstanceAs (Decidable (r.ret = -1 ∨ (0 ≤ r.ret ∧ r.ret ≤ n ∧ (r.ret = 0 → n = 0))))

instance (inbox : Bytes) : (call : Syscall) → (r : SysRet) → Decidable (call.Benign inbox r)
  | .read n, r => inferInstanceAs (Decidable ((Syscall.read n).Returns inbox r ∧
      (r.ret = -1 → r.wouldBlock) ∧ (r.ret = 0 → n ≤ 0)))
  | .write n, r => inferInstanceAs (Decidable ((Syscall.write n).Returns inbox r ∧
      (r.ret = -1 → r.wouldBlock) ∧ (r.ret = 0 → n = 0)))

instance : (call : Syscall) → (r : SysRet) → Decidable (call.WritesAll r)
  | .read _, _ => isTrue trivial
  | .write n, r => inferInstanceAs (Decidable (r.ret = n))

/-- What holds of the next system call, if there is one. -/
def decidableNextCall (p : Syscall → Prop) [DecidablePred p] :
    (o : Option Syscall) → Decidable (∀ call, o = some call → p call)
  | none => isTrue fun _ h => by cases h
  | some c => decidable_of_iff (p c) ⟨fun hp _ h => Option.some.inj h ▸ hp, fun h => h c rfl⟩

instance (s : State) (r : SysRet) : Decidable (Env.any.answer s r) :=
  decidableNextCall (fun call => call.Returns s.inbox r) s.syscall

instance (s : State) (r : SysRet) : Decidable (Env.benign.answer s r) :=
  decidableNextCall (fun call => call.Benign s.inbox r) s.syscall

instance (s : State) (r : SysRet) : Decidable (Env.accepting.answer s r) :=
  @instDecidableAnd _ _ (inferInstanceAs (Decidable (Env.benign.answer s r)))
    (decidableNextCall (fun call => call.WritesAll r) s.syscall)

instance (s : State) : Decidable s.AtHead :=
  decidable_of_iff (s.c.connState = .connDealWith ∧ s.c.workState = .parseHead ∧
      headerSize ≤ s.c.window.length ∧ s.c.window.head? = some protocolBinaryReq ∧
      (s.c.inBatchGet = true → s.c.batchCount = (Request.decode s.c.window).batchnum))
    ⟨fun ⟨hc, hw, hl, hm, ht⟩ => ⟨hc, hw, hl, hm, ht⟩,
      fun ⟨hc, hw, hl, hm, ht⟩ => ⟨hc, hw, hl, hm, ht⟩⟩

section
variable (E : Env) [∀ s r, Decidable (E.answer s r)]

/-- One move, if it is possible. -/
def State.move (s : State) : Move → Option (State × List Event)
  | .call =>
    if s.stop = true ∧ s.exited = false ∧ s.c.eventAdded = true then some (enter s, []) else none
  | .pass r =>
    if s.stop = false ∧ s.exited = false ∧ E.answer s r then some (pass s r) else none

/-- A schedule, as far as it is possible, after what has happened so far. -/
def State.playFrom (s : State) (tr : List Event) : List Move → State × List Event
  | [] => (s, tr)
  | m :: ms =>
    match s.move E m with
    | none => (s, tr)
    | some (s', ev) => s'.playFrom (tr ++ ev) ms

/-- The state a schedule leads to and its trace. -/
def State.play (s : State) (ms : List Move) : State × List Event := s.playFrom E [] ms

variable {E} {s s' : State} {ev tr : List Event} {m : Move}

theorem State.move_step (h : s.move E m = some (s', ev)) : Step E s ev s' := by
  cases m with
  | call =>
      simp only [State.move] at h
      split at h
      next hcall =>
        cases h
        exact .call hcall.1 hcall.2.1 hcall.2.2
      next => cases h
  | pass r =>
      simp only [State.move] at h
      split at h
      next hpass =>
        obtain rfl := congrArg Prod.fst (Option.some.inj h)
        obtain rfl := congrArg Prod.snd (Option.some.inj h)
        exact .pass hpass.1 hpass.2.1 hpass.2.2
      next => cases h

theorem State.playFrom_run {s₀ : State} (h : Run (Step E) s₀ tr s) (ms : List Move) :
    Run (Step E) s₀ (s.playFrom E tr ms).2 (s.playFrom E tr ms).1 := by
  induction ms generalizing s tr with
  | nil => exact h
  | cons m ms ih =>
      simp only [State.playFrom]
      split
      · exact h
      next hm => exact ih (h.snoc (State.move_step hm))

/-- **What is played is a run.** -/
theorem State.play_run (s : State) (ms : List Move) :
    Run (Step E) s (s.play E ms).2 (s.play E ms).1 :=
  State.playFrom_run (.refl s) ms

theorem State.playFrom_call {s₀ : State} (h : Call E s₀ tr s) (rs : List SysRet) :
    Call E s₀ (s.playFrom E tr (rs.map .pass)).2 (s.playFrom E tr (rs.map .pass)).1 := by
  induction rs generalizing s tr with
  | nil => exact h
  | cons r rs ih =>
      simp only [List.map_cons, State.playFrom]
      split
      · exact h
      next hm =>
        refine ih ⟨h.stop, h.alive, h.event, h.run.snoc ⟨?_, State.move_step hm⟩⟩
        simp only [State.move] at hm
        split at hm
        next hpass => exact hpass.1
        next => cases hm

/-- **A schedule of passes is played within one call.** -/
theorem State.play_call (hstop : s.stop = true) (halive : s.exited = false)
    (hevent : s.c.eventAdded = true) (rs : List SysRet) :
    Call E s ((enter s).play E (rs.map .pass)).2 ((enter s).play E (rs.map .pass)).1 :=
  State.playFrom_call ⟨hstop, halive, hevent, .refl _⟩ rs

end

/-- A connection just accepted by a server with table `t`, before `stream` arrives. -/
def State.accepted (stream : Bytes) (t : HashTable) : State where
  c := connNew 0 0 (fun _ => 0) (fun _ => 0)
  inbox := stream
  table := t
  instCount := 0
  stop := true
  exited := false

/-- The empty table. -/
def HashTable.empty : HashTable := fun _ => none

theorem HashTable.bounded_empty : HashTable.empty.Bounded := fun _ _ h => by cases h

theorem State.init_accepted (stream : Bytes) : Init stream (.accepted stream .empty) :=
  ⟨⟨0, 0, _, _, rfl⟩, rfl, HashTable.bounded_empty, rfl, rfl⟩

end MultiportNetwork
