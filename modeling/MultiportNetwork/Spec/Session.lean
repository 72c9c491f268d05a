import MultiportNetwork.Define
import MultiportNetwork.Lib.Framer

/-!
# MultiportNetwork.Spec.Session

What the protocol makes of a client's byte stream, with no buffers, no work
states and no system calls: a `Framer` over sessions.

A session waits for a header or for the body of an accepted request, or it has
ended. It ends `closed` (a key longer than its body, or a body the receive buffer
cannot hold), `exited` (a wrong magic byte, or a request out of turn inside a
batch) or `spinning` (more answers than the batch asked for). The only thing that
survives from one request to the next is how far a batch has got.

`Framer.parse sessionFramer (.head none) stream` is then the command sequence of
a stream and how the connection ends up, from the stream alone. The refinement
proof (`MultiportNetwork.Refine`) shows that the server executes exactly this.
-/

namespace MultiportNetwork

open ByteOrder

/-! ### Requests -/

/-- The fields of a request header that decide what happens to it, in host order. -/
structure Request where
  opcode : UInt8
  keylen : UInt16
  batchnum : UInt16
  totalbodylen : UInt32
  deriving Repr, DecidableEq

/-- The request a header in host order describes. -/
def RequestHeader.request (h : RequestHeader) : Request :=
  ⟨h.opcode, h.keylen, h.batchnum, h.totalbodylen⟩

namespace RequestHeader

@[simp] theorem request_opcode (h : RequestHeader) : h.request.opcode = h.opcode := rfl
@[simp] theorem request_keylen (h : RequestHeader) : h.request.keylen = h.keylen := rfl
@[simp] theorem request_batchnum (h : RequestHeader) : h.request.batchnum = h.batchnum := rfl
@[simp] theorem request_totalbodylen (h : RequestHeader) :
    h.request.totalbodylen = h.totalbodylen := rfl

end RequestHeader

/-- The request whose header is the first twelve bytes of `bs`. -/
def Request.decode (bs : Bytes) : Request :=
  let h := RequestHeader.ofBytes bs
  ⟨h.opcode, ntohs h.keylen, ntohs h.batchnum, ntohl h.totalbodylen⟩

theorem Request.decode_append {bs : Bytes} (h : headerSize ≤ bs.length) (ys : Bytes) :
    decode (bs ++ ys) = decode bs := by
  simp only [decode, RequestHeader.ofBytes_append h]

/-- The four things `dispatch_bin_command` can do with a request: wait for its
body, open a batch, skip its header, or give up the connection. -/
inductive Verdict
  | body | batchHead | refused | closed
  deriving Repr, DecidableEq

def Request.verdict (q : Request) : Verdict :=
  if q.keylen.toNat > q.totalbodylen.toNat then .closed
  else if q.opcode.toNat = cmdSet then
    if q.keylen.toNat ≠ 0 ∧ q.totalbodylen.toNat ≥ q.keylen.toNat + 8 then .body else .refused
  else if q.opcode.toNat = cmdGetbatchHead then .batchHead
  else if q.opcode.toNat = cmdGet then
    if q.keylen.toNat ≠ 0 ∧ q.totalbodylen.toNat = q.keylen.toNat then .body else .refused
  else .refused

/-- A request with a body is a SET with a value of eight bytes or more, or a GET
whose body is its key. -/
theorem Request.verdict_body {q : Request} (h : q.verdict = .body) :
    0 < q.keylen.toNat ∧
      (q.opcode.toNat = cmdSet ∧ q.keylen.toNat + 8 ≤ q.totalbodylen.toNat ∨
        q.opcode.toNat = cmdGet ∧ q.totalbodylen.toNat = q.keylen.toNat) := by
  unfold Request.verdict at h
  split at h
  · cases h
  split at h
  next hset =>
    split at h
    next hb => exact ⟨Nat.pos_of_ne_zero hb.1, .inl ⟨hset, hb.2⟩⟩
    next => cases h
  split at h
  · cases h
  split at h
  next hget =>
    split at h
    next hb => exact ⟨Nat.pos_of_ne_zero hb.1, .inr ⟨hget, hb.2⟩⟩
    next => cases h
  cases h

theorem Request.keylen_le_of_body {q : Request} (h : q.verdict = .body) :
    0 < q.keylen.toNat ∧ q.keylen.toNat ≤ q.totalbodylen.toNat := by
  obtain ⟨hpos, ⟨-, hle⟩ | ⟨-, heq⟩⟩ := verdict_body h
  · exact ⟨hpos, by omega⟩
  · exact ⟨hpos, by omega⟩

/-! ### Commands -/

/-- What a stream asks for. Refused requests are kept, since a client that sends
none of them must see none. -/
inductive Command
  | set (key value : Bytes)
  | get (key : Bytes)
  | batchHead (n : UInt16)
  | refused (q : Request)
  deriving Repr, DecidableEq

/-- A use of the table: `insert_or_assign` or `find` with its arguments. -/
inductive TableCall
  | insertOrAssign (key value : Bytes)
  | find (key : Bytes)
  deriving Repr, DecidableEq

def Command.tableCall : Command → Option TableCall
  | .set k v => some (.insertOrAssign k v)
  | .get k => some (.find k)
  | _ => none

/-- The uses of the table a command sequence makes, in order. -/
def tableCalls (cs : List Command) : List TableCall := cs.filterMap Command.tableCall

@[simp] theorem tableCalls_nil : tableCalls [] = [] := rfl
@[simp] theorem tableCalls_append (a b : List Command) :
    tableCalls (a ++ b) = tableCalls a ++ tableCalls b := by
  simp [tableCalls]

/-! ### Sessions -/

/-- A batch in progress: how many answers it wants and how many it has. -/
structure Batch where
  num : UInt16
  count : UInt16
  deriving Repr, DecidableEq

/-- The states of the protocol. The body of a request is only waited for when the
request has one. -/
inductive Session
  | head (b : Option Batch)
  | body (q : Request) (hq : q.verdict = .body) (b : Option Batch)
  | closed
  | exited
  | spinning

/-- How a connection can end up. -/
inductive Outcome
  | stillOpen | closed | exited | spinning
  deriving Repr, DecidableEq

def Session.outcome : Session → Outcome
  | .head _ | .body .. => .stillOpen
  | .closed => .closed
  | .exited => .exited
  | .spinning => .spinning

/-- One more answer has been built and, if it was the last one, sent. -/
def Batch.settle (b : Batch) : Session :=
  if b.count < b.num then .head (some b)
  else if b.count = b.num then .head none
  else .spinning

/-- The session after a GET. -/
def afterGet : Option Batch → Session
  | none => .head none
  | some b => Batch.settle ⟨b.num, b.count + 1⟩

/-- A header has arrived. Inside a batch its number must be that of the next
answer, whatever the request. -/
def onRequest (b : Option Batch) (q : Request) : List Command × Session :=
  if b.any (fun b => b.count != q.batchnum) then ([], .exited)
  else match hv : q.verdict with
    | .closed => ([.refused q], .closed)
    | .refused => ([.refused q], .head b)
    | .batchHead => ([.batchHead q.batchnum], .head (some ⟨q.batchnum, 0⟩))
    | .body => ([], .body q hv b)

/-- A session waiting for a header. -/
def frameHead (b : Option Batch) : Bytes → Option (Nat × List Command × Session)
  | [] => none
  | x :: bs =>
    if x ≠ protocolBinaryReq then some (1, [], .exited)
    else if (x :: bs).length < headerSize then none
    else some (headerSize, onRequest b (.decode (x :: bs)))

/-- The command of a request with its body. -/
def bodyCommand (q : Request) (bs : Bytes) : Command :=
  if q.opcode.toNat = cmdSet then
    .set (bs.take q.keylen.toNat)
      ((bs.drop q.keylen.toNat).take (q.totalbodylen.toNat - q.keylen.toNat))
  else .get (bs.take q.keylen.toNat)

/-- The session after the body of `q`. -/
def afterBody (q : Request) (b : Option Batch) : Session :=
  if q.opcode.toNat = cmdSet then .head b else afterGet b

/-- A session waiting for a body. A body larger than the receive buffer fills the
buffer, after which the server reads the end of the stream. -/
def frameBody (q : Request) (b : Option Batch) (bs : Bytes) :
    Option (Nat × List Command × Session) :=
  if initReadBufSize < q.totalbodylen.toNat then
    if bs.length < initReadBufSize then none else some (initReadBufSize, [], .closed)
  else if bs.length < q.totalbodylen.toNat then none
  else some (q.totalbodylen.toNat, [bodyCommand q bs], afterBody q b)

def Session.frame : Session → Bytes → Option (Nat × List Command × Session)
  | .head b, bs => frameHead b bs
  | .body q _ b, bs => frameBody q b bs
  | _, _ => none

theorem frameHead_bounds {b : Option Batch} {bs : Bytes} {n : Nat} {o : List Command}
    {s : Session} (h : frameHead b bs = some (n, o, s)) : 0 < n ∧ n ≤ bs.length := by
  cases bs with
  | nil => cases h
  | cons x bs =>
      simp only [frameHead] at h
      split at h
      · cases h
        exact ⟨Nat.one_pos, by simp⟩
      split at h
      · cases h
      next hlen =>
        obtain ⟨rfl, -⟩ := Prod.mk.inj (Option.some.inj h)
        exact ⟨by decide, Nat.le_of_not_lt hlen⟩

theorem frameBody_bounds {q : Request} (hq : q.verdict = .body) {b : Option Batch}
    {bs : Bytes} {n : Nat} {o : List Command} {s : Session}
    (h : frameBody q b bs = some (n, o, s)) : 0 < n ∧ n ≤ bs.length := by
  have hpos := Request.keylen_le_of_body hq
  unfold frameBody at h
  split at h
  · split at h
    · cases h
    next hlen =>
      cases h
      exact ⟨by decide, Nat.le_of_not_lt hlen⟩
  · split at h
    · cases h
    next hlen =>
      cases h
      exact ⟨by omega, Nat.le_of_not_lt hlen⟩

theorem frameHead_stable {b : Option Batch} {bs : Bytes} {r} (ys : Bytes)
    (h : frameHead b bs = some r) : frameHead b (bs ++ ys) = some r := by
  cases bs with
  | nil => cases h
  | cons x bs =>
      simp only [frameHead] at h
      simp only [List.cons_append, frameHead]
      split at h
      next hx => rw [if_pos hx, ← h]
      next hx =>
        split at h
        · cases h
        next hlen =>
          have hlen' : ¬ (x :: (bs ++ ys)).length < headerSize := by
            simp only [List.length_cons, List.length_append] at hlen ⊢
            omega
          rw [if_neg hx, if_neg hlen', ← h, ← List.cons_append,
            Request.decode_append (Nat.le_of_not_lt hlen)]

theorem bodyCommand_append {q : Request} (hq : q.verdict = .body) {bs : Bytes}
    (hlen : q.totalbodylen.toNat ≤ bs.length) (ys : Bytes) :
    bodyCommand q (bs ++ ys) = bodyCommand q bs := by
  have hkey := Request.keylen_le_of_body hq
  unfold bodyCommand
  rw [List.take_append_of_le_length (by omega), List.drop_append_of_le_length (by omega),
    List.take_append_of_le_length (by rw [List.length_drop]; omega)]

theorem frameBody_stable {q : Request} (hq : q.verdict = .body) {b : Option Batch}
    {bs : Bytes} {r} (ys : Bytes) (h : frameBody q b bs = some r) :
    frameBody q b (bs ++ ys) = some r := by
  unfold frameBody at h ⊢
  split at h
  next hbig =>
    split at h
    · cases h
    next hlen =>
      rw [if_pos hbig, if_neg (by rw [List.length_append]; omega), ← h]
  next hbig =>
    split at h
    · cases h
    next hlen =>
      rw [if_neg hbig, if_neg (by rw [List.length_append]; omega), ← h,
        bodyCommand_append hq (Nat.le_of_not_lt hlen)]

/-- The protocol. -/
def sessionFramer : Framer Session UInt8 Command where
  frame := Session.frame
  bounds := by
    intro s xs n o s' h
    cases s with
    | head b => exact frameHead_bounds h
    | body q hq b => exact frameBody_bounds hq h
    | closed | exited | spinning => cases h
  stable := by
    intro s xs r ys h
    cases s with
    | head b => exact frameHead_stable ys h
    | body q hq b => exact frameBody_stable hq ys h
    | closed | exited | spinning => cases h

/-- The commands in `bs` for a session in state `a`. -/
def commandsIn (a : Session) (bs : Bytes) : List Command := (sessionFramer.parse a bs).1

/-- The state a session is in after `bs`. -/
def sessionAfter (a : Session) (bs : Bytes) : Session := (sessionFramer.parse a bs).2.1

/-! ### Parsing one request further -/

section
variable {a a' : Session} {bs : Bytes} {n : Nat} {o : List Command}

theorem commandsIn_none (h : a.frame bs = none) : commandsIn a bs = [] := by
  rw [commandsIn, Framer.parse_none (F := sessionFramer) h]

theorem sessionAfter_none (h : a.frame bs = none) : sessionAfter a bs = a := by
  rw [sessionAfter, Framer.parse_none (F := sessionFramer) h]

theorem commandsIn_some (h : a.frame bs = some (n, o, a')) :
    commandsIn a bs = o ++ commandsIn a' (bs.drop n) := by
  rw [commandsIn, Framer.parse_some (F := sessionFramer) h]
  rfl

theorem sessionAfter_some (h : a.frame bs = some (n, o, a')) :
    sessionAfter a bs = sessionAfter a' (bs.drop n) := by
  rw [sessionAfter, Framer.parse_some (F := sessionFramer) h]
  rfl

end

/-- A request in turn is handled by its verdict. -/
theorem onRequest_turn {b : Option Batch} {q : Request} {v : Verdict}
    (hturn : ∀ x ∈ b, x.count = q.batchnum) (hv : q.verdict = v) :
    onRequest b q =
      match v, hv with
      | .closed, _ => ([.refused q], .closed)
      | .refused, _ => ([.refused q], .head b)
      | .batchHead, _ => ([.batchHead q.batchnum], .head (some ⟨q.batchnum, 0⟩))
      | .body, hv => ([], .body q hv b) := by
  have hany : ¬ b.any (fun b => b.count != q.batchnum) = true := by
    cases b with
    | none => simp
    | some x => simpa using hturn x rfl
  unfold onRequest
  rw [if_neg hany]
  split
  all_goals
    next hv' =>
      obtain rfl := hv'.symm.trans hv
      rfl

theorem onRequest_late {b : Option Batch} {x : Batch} {q : Request} (hb : b = some x)
    (hne : x.count ≠ q.batchnum) : onRequest b q = ([], .exited) := by
  unfold onRequest
  rw [if_pos (by simpa [hb] using hne)]

theorem frameHead_window {b : Option Batch} {w ys : Bytes}
    (hmagic : w.head? = some protocolBinaryReq) (hlen : headerSize ≤ w.length) :
    frameHead b (w ++ ys) = some (headerSize, onRequest b (.decode w)) := by
  have hdecode := Request.decode_append hlen ys
  cases w with
  | nil => cases hmagic
  | cons x w =>
      obtain rfl : x = protocolBinaryReq := by simpa using hmagic
      have hlen' : ¬ (protocolBinaryReq :: (w ++ ys)).length < headerSize := by
        simp only [List.length_cons, List.length_append] at hlen ⊢
        omega
      rw [List.cons_append, frameHead, if_neg (by simp), if_neg hlen', ← List.cons_append, hdecode]

theorem frameHead_magic {b : Option Batch} {w ys : Bytes} {x : UInt8}
    (hhead : w.head? = some x) (hx : x ≠ protocolBinaryReq) :
    frameHead b (w ++ ys) = some (1, [], .exited) := by
  cases w with
  | nil => cases hhead
  | cons y w =>
      obtain rfl : y = x := by simpa using hhead
      rw [List.cons_append, frameHead, if_pos hx]

theorem frameBody_window {q : Request} (hq : q.verdict = .body) {b : Option Batch} {w ys : Bytes}
    (hlen : q.totalbodylen.toNat ≤ w.length) (hfit : w.length ≤ initReadBufSize) :
    frameBody q b (w ++ ys) = some (q.totalbodylen.toNat, [bodyCommand q w], afterBody q b) := by
  have hle : (w ++ ys).length = w.length + ys.length := List.length_append
  rw [frameBody, if_neg (by omega), if_neg (by omega), bodyCommand_append hq hlen]

theorem frameHead_wait {b : Option Batch} {w : Bytes} (hlen : w.length < headerSize)
    (hmagic : ∀ x ∈ w.head?, x = protocolBinaryReq) : frameHead b w = none := by
  cases w with
  | nil => rfl
  | cons x w =>
      have hx : x = protocolBinaryReq := hmagic x rfl
      rw [frameHead, if_neg (by simp [hx]), if_pos hlen]

theorem frameBody_wait {q : Request} {b : Option Batch} {w : Bytes}
    (hlen : w.length < q.totalbodylen.toNat) (hroom : w.length < initReadBufSize) :
    frameBody q b w = none := by
  rw [frameBody, if_pos hroom, if_pos hlen, ite_self]

/-- A body that does not fit is never complete. -/
theorem frameBody_full {q : Request} {b : Option Batch} {w : Bytes}
    (hbig : initReadBufSize < q.totalbodylen.toNat) (hfull : initReadBufSize ≤ w.length) :
    frameBody q b w = some (initReadBufSize, [], .closed) := by
  rw [frameBody, if_pos hbig, if_neg (Nat.not_lt.mpr hfull)]

end MultiportNetwork
