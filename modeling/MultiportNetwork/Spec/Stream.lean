import MultiportNetwork.Spec.Session

/-!
# MultiportNetwork.Spec.Stream

The streams a well-behaved client sends: SETs, GETs and complete batches, each a
header and a body. The server makes of such a stream the uses of the table it was
meant to cause, and is left waiting for the next request (`WellFormed.parse`).
-/

namespace MultiportNetwork

open ByteOrder

/-- A request as a client means it: a header in host order, and a body. -/
structure Packet where
  header : RequestHeader
  body : Bytes

/-- A header in network order. -/
def RequestHeader.hton (h : RequestHeader) : RequestHeader :=
  { h with
    keylen := htons h.keylen
    batchnum := htons h.batchnum
    totalbodylen := htonl h.totalbodylen }

namespace Packet

/-- What goes over the wire. -/
def bytes (p : Packet) : Bytes := p.header.hton.toBytes ++ p.body

def key (p : Packet) : Bytes := p.body.take p.header.keylen.toNat
def value (p : Packet) : Bytes := p.body.drop p.header.keylen.toNat

/-- A SET with a key, a value of eight bytes or more, and a body the receive buffer
can hold. -/
structure IsSet (p : Packet) : Prop where
  magic : p.header.magic = protocolBinaryReq
  opcode : p.header.opcode.toNat = cmdSet
  keylen : 1 ≤ p.header.keylen.toNat
  bodylen : p.header.keylen.toNat + 8 ≤ p.header.totalbodylen.toNat
  fits : p.header.totalbodylen.toNat ≤ initReadBufSize
  body : p.body.length = p.header.totalbodylen.toNat

/-- A GET whose body is its key. -/
structure IsGet (p : Packet) : Prop where
  magic : p.header.magic = protocolBinaryReq
  opcode : p.header.opcode.toNat = cmdGet
  keylen : 1 ≤ p.header.keylen.toNat
  bodylen : p.header.keylen.toNat = p.header.totalbodylen.toNat
  fits : p.header.totalbodylen.toNat ≤ initReadBufSize
  body : p.body.length = p.header.totalbodylen.toNat

/-- The head of a batch of `n` GETs; no body follows it. -/
structure IsBatchHead (p : Packet) (n : Nat) : Prop where
  magic : p.header.magic = protocolBinaryReq
  opcode : p.header.opcode.toNat = cmdGetbatchHead
  batchnum : p.header.batchnum.toNat = n
  wanted : 1 ≤ n
  body : p.body = []

end Packet

/-- A smallest SET. -/
def Packet.smallSet (key : UInt8) : Packet :=
  ⟨{ magic := 0x80, opcode := 4, keylen := 1, totalbodylen := 9 }, [key, 1, 2, 3, 4, 5, 6, 7, 8]⟩

/-- A smallest GET. -/
def Packet.smallGet (key : UInt8) (batchnum : UInt16) : Packet :=
  ⟨{ magic := 0x80, opcode := 1, keylen := 1, batchnum := batchnum, totalbodylen := 1 }, [key]⟩

/-- The head of a batch of `n` GETs with the given key and body lengths. -/
def Packet.batchHead (n keylen : UInt16) (totalbodylen : UInt32) : Packet :=
  ⟨{ magic := 0x80, opcode := 3, keylen := keylen, batchnum := n, totalbodylen := totalbodylen },
    []⟩

theorem Packet.isSet_smallSet (key : UInt8) : (smallSet key).IsSet :=
  ⟨rfl, rfl, show 1 ≤ (1 : UInt16).toNat by decide,
    show (1 : UInt16).toNat + 8 ≤ (9 : UInt32).toNat by decide,
    show (9 : UInt32).toNat ≤ initReadBufSize by decide, rfl⟩

theorem Packet.isGet_smallGet (key : UInt8) (batchnum : UInt16) : (smallGet key batchnum).IsGet :=
  ⟨rfl, rfl, show 1 ≤ (1 : UInt16).toNat by decide, rfl,
    show (1 : UInt32).toNat ≤ initReadBufSize by decide, rfl⟩

/-- The GETs of a batch, numbered from `k` on. -/
def NumberedGets (k : Nat) (ps : List Packet) : Prop :=
  ∀ i (hi : i < ps.length), ps[i].IsGet ∧ ps[i].header.batchnum.toNat = k + i

theorem numberedGets_small : NumberedGets 0 [Packet.smallGet 107 0] := by
  intro i hi
  obtain rfl : i = 0 := by simpa using hi
  exact ⟨Packet.isGet_smallGet 107 0, rfl⟩

/-- `WellFormed head S calls`: the stream `S` is a concatenation of well-formed
commands, in which `head` holds of the headers of batch heads, and which mean
`calls`. -/
inductive WellFormed (head : RequestHeader → Prop) : Bytes → List TableCall → Prop
  | nil : WellFormed head [] []
  | set {p : Packet} {S : Bytes} {calls : List TableCall} (hp : p.IsSet)
      (hS : WellFormed head S calls) :
      WellFormed head (p.bytes ++ S) (.insertOrAssign p.key p.value :: calls)
  | get {p : Packet} {S : Bytes} {calls : List TableCall} (hp : p.IsGet)
      (hS : WellFormed head S calls) :
      WellFormed head (p.bytes ++ S) (.find p.body :: calls)
  | batch {p : Packet} {gets : List Packet} {S : Bytes} {calls : List TableCall}
      (hp : p.IsBatchHead gets.length) (hhead : head p.header) (hgets : NumberedGets 0 gets)
      (hS : WellFormed head S calls) :
      WellFormed head (p.bytes ++ gets.flatMap Packet.bytes ++ S)
        (gets.map (fun g => .find g.body) ++ calls)

/-! ### Parsing what a client sends -/

variable {p : Packet} {b : Option Batch} {S : Bytes}

theorem Packet.decode_bytes (p : Packet) (S : Bytes) :
    Request.decode (p.bytes ++ S) = p.header.request := by
  have hlen : headerSize ≤ p.header.hton.toBytes.length := by simp
  rw [Packet.bytes, List.append_assoc, Request.decode_append hlen]
  simp [Request.decode, RequestHeader.hton, RequestHeader.request, ntohs_htons, ntohl_htonl]

theorem Packet.frame_head (hmagic : p.header.magic = protocolBinaryReq) :
    (Session.head b).frame (p.bytes ++ S) = some (headerSize, onRequest b p.header.request) := by
  have hdecode := p.decode_bytes S
  have hlen : headerSize ≤ (p.bytes ++ S).length := by
    simp [Packet.bytes]
  have hcons : ∃ w, p.bytes ++ S = protocolBinaryReq :: w := by
    rw [Packet.bytes, RequestHeader.toBytes, RequestHeader.hton, hmagic]
    exact ⟨_, rfl⟩
  obtain ⟨w, hw⟩ := hcons
  rw [hw] at hdecode hlen ⊢
  rw [Session.frame, frameHead, if_neg (by simp), if_neg (Nat.not_lt.mpr hlen), hdecode]

@[simp] theorem Packet.drop_bytes (p : Packet) (S : Bytes) :
    (p.bytes ++ S).drop headerSize = p.body ++ S := by
  rw [Packet.bytes, List.append_assoc, List.drop_append_of_le_length (by simp)]
  simp

/-- A request in turn and its body. -/
theorem Packet.parse_body (hmagic : p.header.magic = protocolBinaryReq)
    (hv : p.header.request.verdict = .body) (hfits : p.header.totalbodylen.toNat ≤ initReadBufSize)
    (hbody : p.body.length = p.header.totalbodylen.toNat)
    (hturn : ∀ x ∈ b, x.count = p.header.batchnum) :
    commandsIn (.head b) (p.bytes ++ S) =
        bodyCommand p.header.request p.body :: commandsIn (afterBody p.header.request b) S ∧
      sessionAfter (.head b) (p.bytes ++ S) = sessionAfter (afterBody p.header.request b) S := by
  have hhead : (Session.head b).frame (p.bytes ++ S) =
      some (headerSize, [], .body p.header.request hv b) := by
    rw [Packet.frame_head hmagic, onRequest_turn hturn hv]
  have hframe : (Session.body p.header.request hv b).frame (p.body ++ S) =
      some (p.header.totalbodylen.toNat, [bodyCommand p.header.request p.body],
        afterBody p.header.request b) :=
    frameBody_window hv hbody.ge (hbody ▸ hfits)
  have hdrop : (p.body ++ S).drop p.header.totalbodylen.toNat = S := by
    rw [← hbody, List.drop_left]
  constructor
  · rw [commandsIn_some hhead, Packet.drop_bytes, commandsIn_some hframe, hdrop]
    rfl
  · rw [sessionAfter_some hhead, Packet.drop_bytes, sessionAfter_some hframe, hdrop]

theorem Packet.IsSet.verdict (h : p.IsSet) : p.header.request.verdict = .body := by
  have hkey : 1 ≤ p.header.request.keylen.toNat := h.keylen
  have hbody : p.header.request.keylen.toNat + 8 ≤ p.header.request.totalbodylen.toNat := h.bodylen
  have hop : p.header.request.opcode.toNat = cmdSet := h.opcode
  rw [Request.verdict, if_neg (by omega), if_pos hop, if_pos ⟨by omega, hbody⟩]

theorem Packet.IsGet.verdict (h : p.IsGet) : p.header.request.verdict = .body := by
  have hkey : 1 ≤ p.header.request.keylen.toNat := h.keylen
  have hbody : p.header.request.keylen.toNat = p.header.request.totalbodylen.toNat := h.bodylen
  have hop : p.header.request.opcode.toNat = cmdGet := h.opcode
  rw [Request.verdict, if_neg (by omega), if_neg (by rw [hop]; decide),
    if_neg (by rw [hop]; decide), if_pos hop, if_pos ⟨by omega, hbody.symm⟩]

theorem Packet.IsSet.parse (h : p.IsSet) :
    commandsIn (.head none) (p.bytes ++ S) =
        .set p.key p.value :: commandsIn (.head none) S ∧
      sessionAfter (.head none) (p.bytes ++ S) = sessionAfter (.head none) S := by
  obtain ⟨hc, hs⟩ := Packet.parse_body (b := none) (S := S) h.magic h.verdict h.fits h.body
    (fun _ hx => by cases hx)
  have hop : p.header.request.opcode.toNat = cmdSet := h.opcode
  have hcmd : bodyCommand p.header.request p.body = .set p.key p.value := by
    have hle : (p.body.drop p.header.keylen.toNat).length ≤
        p.header.totalbodylen.toNat - p.header.keylen.toNat := by
      rw [List.length_drop, h.body]
    rw [bodyCommand, if_pos hop]
    congr 1
    exact List.take_of_length_le hle
  have hafter : afterBody p.header.request none = .head none := if_pos hop
  rw [hc, hs, hcmd, hafter]
  exact ⟨rfl, rfl⟩

/-- A GET, alone or as the next one of its batch. -/
theorem Packet.IsGet.parse (h : p.IsGet) (hturn : ∀ x ∈ b, x.count = p.header.batchnum) :
    commandsIn (.head b) (p.bytes ++ S) = .get p.body :: commandsIn (afterGet b) S ∧
      sessionAfter (.head b) (p.bytes ++ S) = sessionAfter (afterGet b) S := by
  obtain ⟨hc, hs⟩ := Packet.parse_body (S := S) h.magic h.verdict h.fits h.body hturn
  have hop : p.header.request.opcode.toNat = cmdGet := h.opcode
  have hset : ¬ p.header.request.opcode.toNat = cmdSet := by
    rw [hop]
    decide
  have hcmd : bodyCommand p.header.request p.body = .get p.body := by
    rw [bodyCommand, if_neg hset]
    congr 1
    exact List.take_of_length_le (by rw [h.body, ← h.bodylen]; rfl)
  have hafter : afterBody p.header.request b = afterGet b := if_neg hset
  rw [hc, hs, hcmd, hafter]
  exact ⟨rfl, rfl⟩

/-- A batch of `n` with `k` answers, or no batch any more. -/
def batchAt (n : UInt16) (k : Nat) : Session :=
  if k < n.toNat then .head (some ⟨n, UInt16.ofNat k⟩) else .head none

theorem afterGet_batchAt {n : UInt16} {k : Nat} (hk : k < n.toNat) :
    afterGet (some ⟨n, UInt16.ofNat k⟩) = batchAt n (k + 1) := by
  have hn := n.toNat_lt
  have hcount : (UInt16.ofNat k + 1).toNat = k + 1 := by
    rw [UInt16.toNat_add, UInt16.toNat_ofNat_of_lt' (by simp only [UInt16.size]; omega)]
    simp only [UInt16.toNat_one]
    omega
  have hnext : UInt16.ofNat k + 1 = UInt16.ofNat (k + 1) := by
    rw [← UInt16.toNat_inj, hcount, UInt16.toNat_ofNat_of_lt' (by simp only [UInt16.size]; omega)]
  simp only [afterGet, Batch.settle, batchAt, UInt16.lt_iff_toNat_lt, hcount]
  split
  · rw [hnext]
  · rw [if_pos]
    rw [← UInt16.toNat_inj, hcount]
    omega

/-- Some GETs of a batch, from the one whose turn it is on. -/
theorem NumberedGets.parse {n : UInt16} {gets : List Packet} {k : Nat} (h : NumberedGets k gets)
    (hn : k + gets.length ≤ n.toNat) :
    commandsIn (batchAt n k) (gets.flatMap Packet.bytes ++ S) =
        gets.map (fun g => .get g.body) ++ commandsIn (batchAt n (k + gets.length)) S ∧
      sessionAfter (batchAt n k) (gets.flatMap Packet.bytes ++ S) =
        sessionAfter (batchAt n (k + gets.length)) S := by
  induction gets generalizing k with
  | nil => simp
  | cons g gets ih =>
      obtain ⟨hg, hnum⟩ : g.IsGet ∧ g.header.batchnum.toNat = k + 0 := h 0 (by simp)
      rw [List.length_cons] at hn
      have hk : k < n.toNat := by omega
      have hlt := n.toNat_lt
      have hturn : ∀ x ∈ some (⟨n, UInt16.ofNat k⟩ : Batch), x.count = g.header.batchnum := by
        intro x hx
        obtain rfl := Option.some.inj hx
        rw [← UInt16.toNat_inj, UInt16.toNat_ofNat_of_lt' (by simp only [UInt16.size]; omega)]
        simpa using hnum.symm
      have hrest : NumberedGets (k + 1) gets := by
        intro i hi
        have := h (i + 1) (by simpa using hi)
        simpa [Nat.add_assoc, Nat.add_comm 1 i] using this
      obtain ⟨hc, hs⟩ := hg.parse (S := gets.flatMap Packet.bytes ++ S) hturn
      obtain ⟨hc', hs'⟩ := ih hrest (by omega)
      rw [afterGet_batchAt hk] at hc hs
      rw [show k + (g :: gets).length = k + 1 + gets.length by simp; omega, batchAt, if_pos hk,
        List.flatMap_cons, List.append_assoc, hc, hs, hc', hs']
      exact ⟨rfl, rfl⟩

/-- A batch with all its answers is over. -/
theorem batchAt_full (n : UInt16) : batchAt n n.toNat = .head none := by simp [batchAt]

/-- The head of a batch whose header makes sense. -/
theorem Packet.IsBatchHead.parse {n : Nat} (h : p.IsBatchHead n)
    (hlen : p.header.keylen.toNat ≤ p.header.totalbodylen.toNat) :
    commandsIn (.head none) (p.bytes ++ S) =
        .batchHead p.header.batchnum :: commandsIn (batchAt p.header.batchnum 0) S ∧
      sessionAfter (.head none) (p.bytes ++ S) =
        sessionAfter (batchAt p.header.batchnum 0) S := by
  have hset : cmdGetbatchHead ≠ cmdSet := by decide
  have hv : p.header.request.verdict = .batchHead := by
    simp only [Request.verdict, RequestHeader.request_keylen, RequestHeader.request_totalbodylen,
      RequestHeader.request_opcode, h.opcode, if_neg hset, if_true]
    rw [if_neg (Nat.not_lt.mpr hlen)]
  have hpos : 0 < p.header.batchnum.toNat := by
    rw [h.batchnum]
    exact h.wanted
  have hframe : (Session.head none).frame (p.bytes ++ S) =
      some (headerSize, [.batchHead p.header.batchnum], batchAt p.header.batchnum 0) := by
    rw [Packet.frame_head h.magic, onRequest_turn (fun _ hx => by cases hx) hv, batchAt,
      if_pos hpos]
    rfl
  have hdrop : (p.bytes ++ S).drop headerSize = S := by rw [Packet.drop_bytes, h.body]; rfl
  rw [commandsIn_some hframe, sessionAfter_some hframe, hdrop]
  exact ⟨rfl, rfl⟩

theorem tableCalls_gets (ps : List Packet) :
    tableCalls (ps.map fun g => .get g.body) = ps.map fun g => .find g.body := by
  induction ps with
  | nil => rfl
  | cons p ps ih =>
      rw [List.map_cons, List.map_cons, ← ih]
      rfl

/-- **A well-formed stream means its calls**, and leaves the session open. -/
theorem WellFormed.parse {calls : List TableCall}
    (h : WellFormed (fun r => r.keylen.toNat ≤ r.totalbodylen.toNat) S calls) :
    tableCalls (commandsIn (.head none) S) = calls ∧
      sessionAfter (.head none) S = .head none := by
  induction h with
  | nil =>
      have hframe : (Session.head none).frame [] = none := rfl
      rw [commandsIn_none hframe, sessionAfter_none hframe]
      exact ⟨rfl, rfl⟩
  | set hp hS ih =>
      rw [hp.parse.1, hp.parse.2, ← ih.1]
      exact ⟨rfl, ih.2⟩
  | get hp hS ih =>
      obtain ⟨hc, hs⟩ := hp.parse (b := none) (fun _ hx => by cases hx)
      rw [hc, hs, ← ih.1]
      exact ⟨rfl, ih.2⟩
  | @batch p gets S calls hp hhead hgets hS ih =>
      obtain ⟨hc, hs⟩ := hgets.parse (n := p.header.batchnum) (S := S)
        (Nat.le_of_eq (by rw [hp.batchnum, Nat.zero_add]))
      rw [Nat.zero_add, ← hp.batchnum, batchAt_full] at hc hs
      rw [List.append_assoc, (hp.parse hhead).1, (hp.parse hhead).2, hc, hs, ← ih.1]
      refine ⟨?_, ih.2⟩
      rw [← List.cons_append, tableCalls_append, ← tableCalls_gets]
      rfl

end MultiportNetwork
