import MultiportNetwork.Server.Process
import MultiportNetwork.Spec.Session

/-!
# MultiportNetwork.Server.Window

The receive window as a list. The parser's functions move a cursor over a buffer
and compare signed lengths with unsigned ones; here each of them is described by
what it does to `Connection.window`, under the invariant `WindowOk` that makes the
comparisons mean what they say.
-/

namespace MultiportNetwork

open ByteOrder

/-- The unread bytes: `remaining_bytes` bytes from `working_buf` on. -/
def Connection.window (c : Connection) : Bytes :=
  c.readBuf.load c.workingBuf c.remainingBytes.toNat

/-- The unread bytes lie inside `read_buf`. `remaining_bytes` is an `int` that the parser
compares with `sizeof` and with fields of the header, which are unsigned: a negative one
would pass for a huge number of bytes. -/
structure WindowOk (c : Connection) : Prop where
  /-- The buffer is never grown. -/
  size : c.readBufSize = initReadBufSize
  nonneg : 0 ≤ c.remainingBytes
  fits : c.workingBuf + c.remainingBytes ≤ initReadBufSize

@[simp] theorem length_window (c : Connection) : c.window.length = c.remainingBytes.toNat := by
  simp [Connection.window]

/-- No body longer than the buffer is ever complete. -/
theorem WindowOk.length_le {c : Connection} (h : WindowOk c) :
    c.window.length ≤ initReadBufSize := by
  have := h.fits
  rw [length_window]
  omega

/-- Signed against unsigned comparisons are harmless inside the window. -/
theorem toU32_of_window {c : Connection} (h : WindowOk c) :
    toU32 c.remainingBytes = c.window.length := by
  have h₁ := h.nonneg
  have h₂ := h.fits
  simp only [initReadBufSize] at h₂
  rw [length_window, toU32, Int.emod_eq_of_lt h₁ (by omega)]

/-- The same against `sizeof`, which has 64 bits. -/
theorem toU64_of_window {c : Connection} (h : WindowOk c) :
    toU64 c.remainingBytes = c.window.length := by
  have h₁ := h.nonneg
  have h₂ := h.fits
  simp only [initReadBufSize] at h₂
  rw [length_window, toU64, Int.emod_eq_of_lt h₁ (by omega)]

/-! ### Receiving

Before a read the unread bytes are moved to the front of the buffer, so that the whole of
the rest is room for new ones. -/

/-- The move changes where the window is, not what it holds. -/
@[simp] theorem window_compact (c : Connection) : (compact c).window = c.window := by
  simp only [Connection.window, compact]
  split
  · exact Memory.load_move _ _ _ _
  -- nothing is moved if the window is empty or at the front already
  next h =>
    rw [not_and_or, not_not, not_not] at h
    rcases h with h | h
    · rw [h]
    · simp [h]

theorem WindowOk.compact {c : Connection} (h : WindowOk c) : WindowOk (compact c) where
  size := h.size
  nonneg := h.nonneg
  fits := by
    have := h.fits
    simp only [MultiportNetwork.compact, Nat.cast_zero]
    omega

/-- `try_read_network` reads to the end of the window, so new bytes come behind the old. -/
theorem window_receive {c : Connection} (h : WindowOk c) (hfront : c.workingBuf = 0)
    {bytes : Bytes} {res : Int} (hres : res = bytes.length) :
    (c.receive bytes res).window = c.window ++ bytes := by
  have hn := h.nonneg
  simp only [Connection.window, Connection.receive, hfront, hres]
  rw [Int.toNat_add hn (Int.natCast_nonneg _), Int.toNat_natCast]
  have := Memory.load_store_append c.readBuf 0 c.remainingBytes.toNat bytes
  rwa [Nat.zero_add] at this

/-- It asks for no more than there is room for. -/
theorem WindowOk.receive {c : Connection} (h : WindowOk c) (hfront : c.workingBuf = 0)
    {bytes : Bytes} {res : Int} (hpos : 0 ≤ res) (hres : res ≤ c.avail) :
    WindowOk (c.receive bytes res) where
  size := h.size
  nonneg := Int.add_nonneg h.nonneg hpos
  fits := by
    have h₁ := h.size
    simp only [Connection.avail, h₁] at hres
    simp only [Connection.receive, hfront, Nat.cast_zero]
    omega

/-! ### The functions that leave the window alone

All that do not read or parse. One `simp` then brings the window of a state after a pass
back to the one before it. -/

section
variable (c : Connection)

@[simp] theorem window_connStateJump (t) : (c.connStateJump t).window = c.window := rfl
@[simp] theorem window_workStateJump (t) : (c.workStateJump t).window = c.window := rfl
@[simp] theorem window_loadHeader : (loadHeader c).window = c.window := rfl
@[simp] theorem window_openBatch : (openBatch c).window = c.window := rfl
@[simp] theorem window_setRead (k v) : (c.setRead k v).window = c.window := rfl
@[simp] theorem window_getRead (k) : (c.getRead k).window = c.window := rfl
@[simp] theorem window_processed (n) : (c.processed n).window = c.window := rfl
@[simp] theorem window_wrote (n) : (c.wrote n).window = c.window := rfl
@[simp] theorem window_endBatch : c.endBatch.window = c.window := rfl
@[simp] theorem window_endSingle : c.endSingle.window = c.window := rfl
@[simp] theorem window_skipSingle (n) : (c.skipSingle n).window = c.window := rfl
@[simp] theorem window_setBuffers (v) : (c.setBuffers v).window = c.window := rfl
@[simp] theorem window_connClose : (connClose c).window = c.window := rfl
@[simp] theorem window_conRetBuf : (conRetBuf c).window = c.window := by
  simp [Connection.window]
@[simp] theorem window_queryResult (found) : (queryResult c found).window = c.window := by
  simp [Connection.window]

end

/-! ### Parsing -/

/-- `working_buf` goes forward by what `remaining_bytes` goes down. -/
@[simp] theorem window_advance {c : Connection} {n : Nat} :
    (c.advance n).window = c.window.drop n := by
  simp only [Connection.window, Connection.advance, Memory.drop_load]
  congr 1
  omega

/-- The length checks of the parser are what keeps `remaining_bytes` from going negative. -/
theorem WindowOk.advance {c : Connection} (h : WindowOk c) {n : Nat}
    (hn : n ≤ c.window.length) : WindowOk (c.advance n) where
  size := h.size
  nonneg := by
    rw [length_window] at hn
    have := h.nonneg
    simp only [Connection.advance]
    omega
  fits := by
    have := h.fits
    simp only [Connection.advance, Nat.cast_add]
    omega

/-- A copy out of the window. -/
theorem load_window {c : Connection} {k n : Nat} (hn : k + n ≤ c.window.length) :
    c.readBuf.load (c.workingBuf + k) n = (c.window.drop k).take n := by
  rw [length_window] at hn
  rw [Connection.window, Memory.drop_load, Memory.take_load _ _ _ _ (by omega)]

/-- The header that is copied out of the buffer is the one the protocol reads there: only
the first `headerSize` bytes of the window count. -/
theorem loadHeader_request {c : Connection} (hn : headerSize ≤ c.window.length) :
    (loadHeader c).binaryHeader.request = .decode c.window := by
  have hload : c.readBuf.load c.workingBuf headerSize = c.window.take headerSize := by
    simpa using load_window (k := 0) (by simpa using hn)
  have hbytes : RequestHeader.ofBytes (c.window.take headerSize) =
      RequestHeader.ofBytes c.window := by
    conv_rhs => rw [← List.take_append_drop headerSize c.window]
    exact (RequestHeader.ofBytes_append (by simpa using hn) _).symm
  simp only [loadHeader, RequestHeader.request, Request.decode, hload, hbytes]

theorem loadHeader_batchnum {c : Connection} (hn : headerSize ≤ c.window.length) :
    (loadHeader c).binaryHeader.batchnum = (Request.decode c.window).batchnum :=
  congrArg Request.batchnum (loadHeader_request hn)

theorem loadHeader_cmd_eq {c : Connection} :
    (loadHeader c).cmd = (loadHeader c).binaryHeader.request.opcode.toNat := rfl

/-- `dispatch_bin_command` by verdict. The verdict is a function of the header alone, so that
the connection can be forgotten when it is said which command a header starts. -/
theorem dispatchBinCommand_eq {c : Connection}
    (hcmd : c.cmd = c.binaryHeader.request.opcode.toNat) :
    dispatchBinCommand c =
      match c.binaryHeader.request.verdict with
      | .closed => c.connStateJump .connClosing
      | .body => c.workStateJump .readKeyValue
      | .batchHead => openBatch c
      | .refused => c := by
  have hop : c.binaryHeader.opcode.toNat = c.cmd := hcmd.symm
  simp only [dispatchBinCommand, Request.verdict, RequestHeader.request, hop]
  by_cases hlen : c.binaryHeader.keylen.toNat > c.binaryHeader.totalbodylen.toNat
  · simp only [hlen, if_true]
  simp only [hlen, if_false]
  by_cases hset : c.cmd = cmdSet
  · simp only [hset, if_true]
    split <;> simp [*]
  simp only [hset, if_false]
  by_cases hhead : c.cmd = cmdGetbatchHead
  · simp only [hhead, if_true]
  simp only [hhead, if_false]
  by_cases hget : c.cmd = cmdGet
  · simp only [hget, if_true]
    split <;> simp [*]
  simp only [hget, if_false]

/-- What becomes of a header, by the verdict on the bytes it is loaded from. -/
theorem dispatch_loadHeader {c : Connection} (hn : headerSize ≤ c.window.length) :
    dispatchBinCommand (loadHeader c) =
      match (Request.decode c.window).verdict with
      | .closed => (loadHeader c).connStateJump .connClosing
      | .body => (loadHeader c).workStateJump .readKeyValue
      | .batchHead => openBatch (loadHeader c)
      | .refused => loadHeader c := by
  rw [dispatchBinCommand_eq loadHeader_cmd_eq, loadHeader_request hn]

end MultiportNetwork
