import MultiportNetwork.Segmentation
import MultiportNetwork.Server.Progress
import MultiportNetwork.Client.Package
import MultiportNetwork.Lib.Builder
import Mathlib.Data.List.Forall2

/-!
# MultiportNetwork.Client.MicroTest

`con_database` of `micro_test`, under `process_func`. A package is a header with the
opcode of the run's instruction, a key and a value, whatever the instruction. As SETs the
packages are taken one by one (`sets_parse`); any other instruction is refused, or opens
a batch, and the connection dies of the first digit of the key (`misread`).
-/

namespace MultiportNetwork.MicroTest

open Client

/-- `PACKAGE_LEN`. -/
def packageLen : Nat := headLen + keyLen + valueLen

/-- What the run is set up with: `port_num` and `hash_func`. -/
structure Settings where
  portNum : Nat
  hashFunc : Bytes → UInt32

/-- A write beyond the end of `key_buf`, `value_buf` or `my_database`. -/
inductive Overrun
  | keyBuf | valueBuf | myDatabase
  deriving Repr, DecidableEq

/-- `key_buf`. -/
def keyBuf (number : UInt64) : Option Bytes := decimal keyLen (number / 26) (letter number)

/-- `value_buf`. -/
def valueBuf (number : UInt64) : Option Bytes :=
  decimal valueLen (number / 26) (letter number + 1)

/-- `package_buf`: a `REQ_HEAD`, a key and a value. -/
def package (inst : Instructs) (port : UInt8) (key value : Bytes) : Packet where
  header :=
    { magic := 0x80
      opcode := getOpcode inst
      keylen := UInt16.ofNat keyLen
      batchnum := 1
      prehash := port
      reserved := 0
      totalbodylen := UInt32.ofNat (keyLen + valueLen) }
  body := key ++ value

/-- `my_database` and `offset`. -/
structure Building where
  myDatabase : Memory UInt8
  offset : Nat

/-- The body of the loop over the numbers. -/
def Settings.addNumber (S : Settings) (inst : Instructs) (kvNum : Nat) (b : Building)
    (number : UInt64) : Except Overrun Building :=
  match keyBuf number with
  | none => .error .keyBuf
  | some key =>
    match valueBuf number with
    | none => .error .valueBuf
    | some value =>
      let port := preHash S.hashFunc S.portNum key
      if b.offset + packageLen ≤ kvNum * packageLen then
        .ok ⟨b.myDatabase.store b.offset (package inst port key value).bytes,
          b.offset + packageLen⟩
      else .error .myDatabase

/-- `con_database`, given the `KV_NUM` numbers of `array`: the database it leaves. -/
def Settings.conDatabase (S : Settings) (inst : Instructs) (array : List UInt64) :
    Except Overrun (Memory UInt8) := do
  let b ← array.foldlM (S.addNumber inst array.length) ⟨fun _ => 0, 0⟩
  return b.myDatabase

/-! ### What the database should hold -/

variable {S : Settings} {inst : Instructs} {number : UInt64} {array done : List UInt64}
  {b : Building} {s t : State} {tr : List Event}

/-- What a package is about. -/
structure Entry where
  key : Bytes
  value : Bytes
  deriving Repr, DecidableEq

/-- What a number's package is about. -/
def entry (number : UInt64) : Option Entry :=
  (keyBuf number).bind fun key => (valueBuf number).map fun value => ⟨key, value⟩

def entries (array : List UInt64) : List Entry := array.filterMap entry

/-- The package of an entry, with its port. -/
def Settings.package (S : Settings) (inst : Instructs) (e : Entry) : Packet :=
  MicroTest.package inst (preHash S.hashFunc S.portNum e.key) e.key e.value

/-- The packages of some entries, one behind the other. -/
def Settings.stream (S : Settings) (inst : Instructs) (es : List Entry) : Bytes :=
  es.flatMap fun e => (S.package inst e).bytes

/-- The fields of a package have their lengths, and it does not begin like a request. -/
structure Entry.Ok (e : Entry) : Prop where
  key : e.key.length = keyLen
  value : e.value.length = valueLen
  head : ∃ d, e.key.head? = some d ∧ d ≠ protocolBinaryReq

theorem entry_ok {e : Entry} (h : entry number = some e) : e.Ok := by
  obtain ⟨key, hkey, hrest⟩ := Option.bind_eq_some_iff.mp h
  obtain ⟨value, hvalue, rfl⟩ := Option.map_eq_some_iff.mp hrest
  exact ⟨length_decimal hkey, length_decimal hvalue, head_decimal hkey⟩

theorem entries_ok {e : Entry} (he : e ∈ entries array) : e.Ok := by
  obtain ⟨number, -, h⟩ := List.mem_filterMap.mp he
  exact entry_ok h

/-- A number below `26 * 10^7` has an entry. -/
theorem entry_isSome (h : number.toNat < 26 * 10 ^ 7) : ∃ e, entry number = some e := by
  have hquot : (number / 26).toNat < 10 ^ 7 := by
    rw [UInt64.toNat_div]
    exact Nat.div_lt_of_lt_mul h
  have hlen : (sprintf (number / 26)).length ≤ keyLen :=
    (length_sprintf_le (by decide) (by omega) hquot).trans (by decide)
  have hlen' : (sprintf (number / 26)).length ≤ valueLen := hlen
  obtain ⟨key, hkey⟩ := (decimal_isSome (letter number)).mpr hlen
  obtain ⟨value, hvalue⟩ := (decimal_isSome (letter number + 1)).mpr hlen'
  exact ⟨⟨key, value⟩, by simp [entry, keyBuf, valueBuf, hkey, hvalue]⟩

theorem length_package (S : Settings) (inst : Instructs) {e : Entry} (h : e.Ok) :
    (S.package inst e).bytes.length = packageLen := by
  simp [Packet.bytes, Settings.package, package, h.key, h.value, packageLen, headLen, headerSize,
    Nat.add_assoc]

/-! ### The loop -/

/-- A database with the packages of some numbers in it. -/
structure Settings.Filled (S : Settings) (inst : Instructs) (done : List UInt64)
    (b : Building) : Prop where
  all : (entries done).length = done.length
  offset : b.offset = done.length * packageLen
  myDatabase : b.myDatabase.load 0 b.offset = S.stream inst (entries done)

/-- One number that has been added. -/
theorem Settings.addNumber_eq {kvNum : Nat} {b' : Building}
    (h : S.addNumber inst kvNum b number = .ok b') :
    ∃ e, entry number = some e ∧
      b' = ⟨b.myDatabase.store b.offset (S.package inst e).bytes, b.offset + packageLen⟩ := by
  unfold Settings.addNumber at h
  split at h
  · cases h
  next key hkey =>
    split at h
    · cases h
    next value hvalue =>
      dsimp only at h
      split at h
      · exact ⟨⟨key, value⟩, by simp [entry, hkey, hvalue], (Except.ok.inj h).symm⟩
      · cases h

/-- **One number**: its package follows the others. -/
theorem Settings.Filled.addNumber {kvNum : Nat} {b' : Building} (h : S.Filled inst done b)
    (hadd : S.addNumber inst kvNum b number = .ok b') : S.Filled inst (done ++ [number]) b' := by
  obtain ⟨e, he, rfl⟩ := Settings.addNumber_eq hadd
  have hentries : entries (done ++ [number]) = entries done ++ [e] := by
    simp [entries, he]
  have hload := Memory.load_store_append b.myDatabase 0 b.offset (S.package inst e).bytes
  rw [length_package S inst (entry_ok he), Nat.zero_add, h.myDatabase] at hload
  refine ⟨?_, ?_, ?_⟩
  · rw [hentries, List.length_append, List.length_append, h.all]
    rfl
  · rw [h.offset, List.length_append, List.length_singleton, Nat.add_mul, Nat.one_mul]
  · rw [hload, hentries]
    simp [Settings.stream]

/-- There is room for every number, and the buffers hold its digits. -/
theorem Settings.Filled.addNumber_ok {kvNum : Nat} (h : S.Filled inst done b)
    (hroom : done.length < kvNum) (hnum : number.toNat < 26 * 10 ^ 7) :
    ∃ b', S.addNumber inst kvNum b number = .ok b' := by
  obtain ⟨e, he⟩ := entry_isSome hnum
  have hle : (done.length + 1) * packageLen ≤ kvNum * packageLen :=
    Nat.mul_le_mul_right packageLen hroom
  have hfits : b.offset + packageLen ≤ kvNum * packageLen := by
    rw [Nat.add_mul, Nat.one_mul] at hle
    rwa [h.offset]
  obtain ⟨key, hkey, hrest⟩ := Option.bind_eq_some_iff.mp he
  obtain ⟨value, hvalue, -⟩ := Option.map_eq_some_iff.mp hrest
  simp only [Settings.addNumber, hkey, hvalue, if_pos hfits]
  exact ⟨_, rfl⟩

/-- **A database that has been built** is the packages of all numbers. -/
theorem Settings.conDatabase_eq {db : Memory UInt8} (h : S.conDatabase inst array = .ok db) :
    (entries array).length = array.length ∧
      db.load 0 (array.length * packageLen) = S.stream inst (entries array) := by
  cases hloop : array.foldlM (S.addNumber inst array.length) ⟨fun _ => 0, 0⟩ with
  | error e =>
      rw [Settings.conDatabase, hloop] at h
      cases h
  | ok b =>
      rw [Settings.conDatabase, hloop] at h
      obtain rfl : b.myDatabase = db := Except.ok.inj h
      have hfilled : S.Filled inst array b :=
        Builder.foldlM_inv (fun _ _ _ _ h hadd => h.addNumber hadd) ⟨rfl, by simp, rfl⟩ hloop
      exact ⟨hfilled.all, by rw [← hfilled.offset, hfilled.myDatabase]⟩

/-- It can be built for all numbers below `26 * 10^7`. -/
theorem Settings.conDatabase_ok (S : Settings) (inst : Instructs)
    (hnum : ∀ number ∈ array, number.toNat < 26 * 10 ^ 7) :
    ∃ db, S.conDatabase inst array = .ok db := by
  have hstep : ∀ (done : List UInt64) (number : UInt64) (post : List UInt64) (b : Building),
      array = done ++ number :: post → S.Filled inst done b →
      ∃ b', S.addNumber inst array.length b number = .ok b' ∧
        S.Filled inst (done ++ [number]) b' := by
    intro done number post b harray h
    have hroom : done.length < array.length := by simp [harray]
    obtain ⟨b', hadd⟩ := h.addNumber_ok hroom (hnum number (by simp [harray]))
    exact ⟨b', hadd, h.addNumber hadd⟩
  obtain ⟨b, hb, -⟩ := Builder.foldlM_ok (s := ⟨fun _ => 0, 0⟩) hstep ⟨rfl, by simp, rfl⟩
  refine ⟨b.myDatabase, ?_⟩
  rw [Settings.conDatabase, hb]
  rfl

/-- The bytes of package `k`. -/
theorem getElem?_stream {es : List Entry} (h : ∀ e ∈ es, e.Ok) {k j : Nat} (hk : k < es.length)
    (hj : j < packageLen) :
    (S.stream inst es)[k * packageLen + j]? = (S.package inst es[k]).bytes[j]? := by
  induction es generalizing k with
  | nil => cases hk
  | cons e es ih =>
      have hlen := length_package S inst (h e List.mem_cons_self)
      have hcons : S.stream inst (e :: es) = (S.package inst e).bytes ++ S.stream inst es := rfl
      rw [hcons]
      cases k with
      | zero =>
          rw [Nat.zero_mul, Nat.zero_add, List.getElem?_append_left (by omega)]
          rfl
      | succ k =>
          have hnext := ih (fun e he => h e (List.mem_cons_of_mem _ he)) (k := k)
            (by simpa using hk)
          rw [List.getElem?_append_right (by rw [hlen, Nat.add_mul]; omega), hlen,
            show (k + 1) * packageLen + j - packageLen = k * packageLen + j by
              rw [Nat.add_mul]; omega, hnext]
          rfl

/-- A package names its port in its header. -/
theorem prehash_package (e : Entry) :
    (S.package inst e).bytes[6]? = some (preHash S.hashFunc S.portNum e.key) := rfl

/-- **Every package of the database names a port**, and it is there. -/
theorem Settings.conDatabase_ports {db : Memory UInt8} (hport : 1 ≤ S.portNum)
    (hbuild : S.conDatabase inst array = .ok db) :
    ∀ k < array.length, (db (k * packageLen + 6)).toNat < S.portNum := by
  intro k hk
  obtain ⟨hlength, hdb⟩ := Settings.conDatabase_eq hbuild
  have hk' : k < (entries array).length := by rwa [hlength]
  have hlt : k * packageLen + 6 < array.length * packageLen := by
    have hle : (k + 1) * packageLen ≤ array.length * packageLen :=
      Nat.mul_le_mul_right packageLen hk
    rw [Nat.add_mul] at hle
    simp only [packageLen, headLen, keyLen, valueLen] at hle ⊢
    omega
  have hbyte := Memory.getElem?_load db 0 _ _ hlt
  rw [hdb, getElem?_stream (fun e he => entries_ok he) hk' (by decide), prehash_package,
    Nat.zero_add] at hbyte
  rw [← Option.some.inj hbyte]
  exact preHash_lt _ _ hport

/-! ### What the server takes it for -/

/-- A command is what a package was meant to be: a use of its key by the instruction, with
its value for a set. -/
def Entry.Means (inst : Instructs) (e : Entry) : Command → Prop
  | .set key value => (inst = .SET ∨ inst = .SETB) ∧ key = e.key ∧ value = e.value
  | .get key => (inst = .GET ∨ inst = .GETB) ∧ key = e.key
  | _ => False

/-- What the server should have done after `tr` for a client that sends it the packages of
some entries. -/
structure Agreed (inst : Instructs) (es : List Entry) (tr : List Event) (t : State) : Prop where
  /-- Neither closed nor dead. -/
  stillOpen : t.outcome = .stillOpen ∧ .close ∉ tr ∧ .exit ∉ tr
  /-- No header has been refused. -/
  accepted : ∀ h b, .dispatch h b ∈ tr →
    h.request.verdict = .batchHead ∨ h.request.verdict = .body
  /-- The commands executed are what the first packages mean. -/
  commands : ∃ seen, seen <+: es ∧ List.Forall₂ (Entry.Means inst) seen (executed tr)
  /-- At rest, what all of them mean. -/
  all : Quiet t → List.Forall₂ (Entry.Means inst) es (executed tr)

/-- Client and server agree on the database of some numbers: it can be built, has a package
for each of them, and is understood however it is cut and delayed. -/
def Agrees (S : Settings) (inst : Instructs) (array : List UInt64) : Prop :=
  (entries array).length = array.length ∧ ∃ db, S.conDatabase inst array = .ok db ∧
    ∀ s t tr, Init (db.load 0 (array.length * packageLen)) s → Run (Step Env.benign) s tr t →
      Agreed inst (entries array) tr t

/-- As a SET a package is well formed. -/
theorem isSet_package {e : Entry} (h : e.Ok) : (S.package .SET e).IsSet := by
  refine ⟨rfl, rfl, show 1 ≤ (UInt16.ofNat keyLen).toNat by decide,
    show (UInt16.ofNat keyLen).toNat + 8 ≤ (UInt32.ofNat (keyLen + valueLen)).toNat by decide,
    show (UInt32.ofNat (keyLen + valueLen)).toNat ≤ initReadBufSize by decide, ?_⟩
  show (e.key ++ e.value).length = _
  rw [List.length_append, h.key, h.value]
  rfl

/-- **SETs are taken one by one.** -/
theorem sets_parse {es : List Entry} (h : ∀ e ∈ es, e.Ok) :
    commandsIn (.head none) (S.stream .SET es) = es.map (fun e => .set e.key e.value) ∧
      sessionAfter (.head none) (S.stream .SET es) = .head none := by
  induction es with
  | nil => exact ⟨commandsIn_none rfl, sessionAfter_none rfl⟩
  | cons e es ih =>
      have he := h e List.mem_cons_self
      obtain ⟨hc, hs⟩ := ih fun e he => h e (List.mem_cons_of_mem _ he)
      obtain ⟨hc', hs'⟩ := (isSet_package (S := S) he).parse (S := S.stream .SET es)
      have hkey : (S.package .SET e).key = e.key := by
        show (e.key ++ e.value).take keyLen = e.key
        rw [← he.key, List.take_left]
      have hvalue : (S.package .SET e).value = e.value := by
        show (e.key ++ e.value).drop keyLen = e.value
        rw [← he.key, List.drop_left]
      have hcons : S.stream .SET (e :: es) = (S.package .SET e).bytes ++ S.stream .SET es := rfl
      rw [hcons, hc', hs', hc, hs, hkey, hvalue]
      exact ⟨rfl, rfl⟩

/-- **Anything else is misread**: the header is refused or opens a batch, and the key is
taken for the next header. -/
theorem misread {e : Entry} (h : e.Ok) (hinst : inst ≠ .SET) (rest : Bytes) :
    (∃ c, commandsIn (.head none) ((S.package inst e).bytes ++ rest) = [c] ∧ ¬ e.Means inst c) ∧
      sessionAfter (.head none) ((S.package inst e).bytes ++ rest) = .exited := by
  obtain ⟨d, hd, hmagic⟩ := h.head
  have hbody : (S.package inst e).body.head? = some d := by
    show (e.key ++ e.value).head? = some d
    rw [List.head?_append, hd]
    rfl
  have hdead : ∀ b, (Session.head b).frame ((S.package inst e).body ++ rest) =
      some (1, [], .exited) := fun b => frameHead_magic hbody hmagic
  obtain ⟨c, b, hc, hframe⟩ : ∃ c b, ¬ e.Means inst c ∧
      (Session.head none).frame ((S.package inst e).bytes ++ rest) =
        some (headerSize, [c], .head b) := by
    have hhead := Packet.frame_head (p := S.package inst e) (b := none) (S := rest) rfl
    have hturn : ∀ x ∈ (none : Option Batch), x.count =
        (S.package inst e).header.request.batchnum := fun x hx => by cases hx
    cases inst with
    | SET => exact absurd rfl hinst
    | GET =>
        rw [onRequest_turn hturn (v := .refused) rfl] at hhead
        exact ⟨_, _, id, hhead⟩
    | GETB =>
        rw [onRequest_turn hturn (v := .batchHead) rfl] at hhead
        exact ⟨_, _, id, hhead⟩
    | SETB =>
        rw [onRequest_turn hturn (v := .refused) rfl] at hhead
        exact ⟨_, _, id, hhead⟩
  rw [commandsIn_some hframe, sessionAfter_some hframe, Packet.drop_bytes,
    commandsIn_some (hdead b), sessionAfter_some (hdead b), commandsIn_none rfl,
    sessionAfter_none rfl]
  exact ⟨⟨c, rfl, hc⟩, rfl⟩

/-! ### Agreement -/

/-- A stream that parses as some SETs is understood so. -/
theorem agreed_ofSets {stream : Bytes} {es : List Entry} (h : Init stream s)
    (hr : Run (Step Env.benign) s tr t)
    (hcommands : commandsIn (.head none) stream = es.map fun e => .set e.key e.value)
    (hsession : sessionAfter (.head none) stream = .head none) (hinst : inst = .SET ∨ es = []) :
    Agreed inst es tr t := by
  have hexec := (h.refines hr).1
  rw [hcommands] at hexec
  have hfinal : s.final.outcome = .stillOpen := by rw [h.final, hsession]; rfl
  obtain ⟨seen, later, rfl, hseen, hlater⟩ := List.append_eq_map_iff.mp hexec
  have hmeans : List.Forall₂ (Entry.Means inst) seen (executed tr) := by
    rw [← hseen, List.forall₂_map_right_iff, List.forall₂_same]
    rintro e he
    have hset : inst = .SET := hinst.resolve_right (List.ne_nil_of_mem (by simpa using .inl he))
    exact ⟨.inl hset, rfl, rfl⟩
  refine ⟨h.ok.open_run hfinal hr, fun hd b he => accepted_of_executed (fun q hq => ?_) he,
    ⟨seen, List.prefix_append _ _, hmeans⟩, fun hq => ?_⟩
  · rw [← hseen] at hq
    simp at hq
  · have hrest := (h.ok.run hr).quiet_calls hq
    cases later with
    | nil => simpa using hmeans
    | cons e later =>
        rw [← hlater] at hrest
        simp [tableCalls, Command.tableCall] at hrest

/-- Packages that are no SETs are understood if there are none. -/
theorem Agrees.set_or_nil (h : Agrees S inst array) : inst = .SET ∨ array = [] := by
  obtain ⟨hlength, db, hbuild, hall⟩ := h
  obtain ⟨-, hdb⟩ := Settings.conDatabase_eq hbuild
  by_contra hne
  obtain ⟨hinst, harray⟩ := not_or.mp hne
  -- the first package is enough
  obtain ⟨e, es, hes⟩ := List.exists_cons_of_ne_nil (l := entries array) fun hnil => by
    rw [hnil] at hlength
    exact harray (List.eq_nil_of_length_eq_zero hlength.symm)
  have hmem : e ∈ entries array := by rw [hes]; exact List.mem_cons_self
  have he := entries_ok hmem
  have hstream : S.stream inst (e :: es) = (S.package inst e).bytes ++ S.stream inst es := rfl
  rw [hdb, hes, hstream] at hall
  obtain ⟨⟨c, hcommands, hc⟩, hsession⟩ := misread (S := S) he hinst (S.stream inst es)
  have hinit := State.init_accepted ((S.package inst e).bytes ++ S.stream inst es)
  obtain ⟨tr, t, hr, hexec, -⟩ := hinit.carried_out (by rw [hsession]; simp)
  have hagreed := hall _ t tr hinit (hr.mono fun _ _ _ hs => hs.step.ofAccepting)
  obtain ⟨seen, hseen, hmeans⟩ := hagreed.commands
  rw [hexec, hcommands] at hmeans
  cases hmeans with
  | @cons e' _ _ _ hmeans hrest =>
      obtain rfl : e' = e := (List.cons_prefix_cons.mp hseen).1
      exact hc hmeans

/-- **Client and server agree on SETs only**, and on nothing to be sent, whatever the number
of ports. -/
theorem client_server_agree_iff (hnum : ∀ number ∈ array, number.toNat < 26 * 10 ^ 7) :
    Agrees S inst array ↔ inst = .SET ∨ array = [] := by
  refine ⟨fun h => h.set_or_nil, fun hinst => ?_⟩
  obtain ⟨db, hbuild⟩ := S.conDatabase_ok inst hnum
  obtain ⟨hlength, hdb⟩ := Settings.conDatabase_eq hbuild
  refine ⟨hlength, db, hbuild, fun s t tr h hr => ?_⟩
  rw [hdb] at h
  rcases hinst with rfl | rfl
  · obtain ⟨hcommands, hsession⟩ := sets_parse (S := S) fun e he => entries_ok he
    exact agreed_ofSets h hr hcommands hsession (.inl rfl)
  · exact agreed_ofSets h hr (commandsIn_none rfl) (sessionAfter_none rfl) (.inr rfl)

/-- Two ports; the hash is the first letter of the key. -/
def twoPorts : Settings := ⟨2, fun key => (key.getD 1 0).toUInt32⟩

theorem client_server_agree_iff_sets : Agrees twoPorts .SET [0, 27, 2599] :=
  (client_server_agree_iff (by simp)).mpr (.inl rfl)

/-- One GET, of the key `0aaaaaaa`. -/
theorem client_server_agree_get :
    ¬ ∀ (S : Settings) (inst : Instructs) (array : List UInt64),
      1 ≤ S.portNum ∧ S.portNum ≤ 256 → (∀ number ∈ array, number.toNat < 26 * 10 ^ 7) →
        Agrees S inst array := by
  intro hall
  rcases (hall twoPorts .GET [0] ⟨by decide, by decide⟩ (by simp)).set_or_nil with hinst | hnil
  · cases hinst
  · cases hnil

end MultiportNetwork.MicroTest
