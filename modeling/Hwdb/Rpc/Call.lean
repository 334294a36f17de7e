import Hwdb.Rpc.Reader

/-!
# The API functions, one critical section at a time (`srpc.c`)

`rpc_connect`, `rpc_call`, `rpc_disconnect` and `rpc_response` hold the table mutex except
while they are inside `crecord_waitForState`.  Each stretch between two waits is one
definition on the record at hand; what the thread goes on to wait for is part of the result.

* `nfragsOf`, `blenOf` — the length arithmetic of the fragment loops, with the conversions
  to `unsigned char` and `unsigned`.
* `fragmentPayload`, `lastPayload` — the two kinds of message a loop builds; undefined when a
  copy leaves the caller's buffer or the message.
* `rpcCallBegin`, `rpcCallResume`, `rpcResponseBegin`, `rpcResponseResume`, … — the sections.
* `nfragsOf_eq`, `fragmentPayload_eq`, `lastPayload_eq` — for 1 to 65535 bytes the loops send
  exactly the pieces of the message.
-/

set_option autoImplicit false

namespace Hwdb.Rpc

open Hwdb.Lib

def SEQNO_LIMIT : Nat := 1000000000

def SEQNO_START : Nat := 0

/-! ## Fragmentation -/

/-- `nfrags = (len - 1) / FR_SIZE + 1` as an `unsigned char`; `len - 1` is `unsigned`. -/
def nfragsOf (len : Nat) : Nat :=
  ((if len = 0 then 4294967295 else len - 1) / FR_SIZE + 1) % 256

/-- `blen = len - FR_SIZE * (nfrags - 1)` as an `unsigned`. -/
def blenOf (len nfrags : Nat) : Nat :=
  if FR_SIZE * nfrags ≤ len + FR_SIZE then (len + FR_SIZE - FR_SIZE * nfrags) % 4294967296
  else 4294967296 - (FR_SIZE * nfrags - (len + FR_SIZE))

/-- The `FRAGMENT` numbered `fnum` of `m`. -/
def fragmentPayload (sp seqno : Nat) (m : Bytes) (fnum nfrags : Nat) : Option Bytes :=
  let off := FR_SIZE * (fnum - 1)
  if off + FR_SIZE ≤ m.length then
    some (dataPayload (cpComplete sp .fragment seqno fnum nfrags) m.length FR_SIZE
      ((m.drop off).take FR_SIZE))
  else none

/-- The `QUERY` or `RESPONSE` that carries the last piece of `m`.  `cap` bounds the message
size: `size` is an `unsigned short` in `rpc_call` and an `int` in `rpc_response`. -/
def lastPayload (sp : Nat) (cmd : Command) (seqno : Nat) (m : Bytes) (fnum nfrags cap : Nat) :
    Option Bytes :=
  let off := FR_SIZE * (fnum - 1)
  let blen := blenOf m.length nfrags
  if off + blen ≤ m.length ∧ DP_SIZE + blen < cap then
    some (dataPayload (cpComplete sp cmd seqno fnum nfrags) m.length blen
      ((m.drop off).take blen))
  else none

/-! ## `rpc_connect` and `rpc_disconnect` -/

/-- `rpc_connect` up to its wait, after the endpoint has been built. -/
def rpcConnectBegin (nep sp : Nat) (svcName : Bytes) (seqno : Nat) : CRecord × Sent :=
  let buf := connectPayload (cpComplete sp .connect seqno 1 1) (cstr svcName)
  let cr := crecordSetPayload (crecordCreate nep seqno) buf buf.length ATTEMPTS TICKS
  (crecordSetState cr .connectSent, ⟨.record nep, buf⟩)

/-- `rpc_disconnect` up to its wait. -/
def rpcDisconnectBegin (ep sp : Nat) (cr : CRecord) : CRecord × Sent :=
  let cp := controlPayload (cpComplete sp .disconnect cr.seqno 1 1)
  let cr := crecordSetPayload cr cp CP_SIZE ATTEMPTS TICKS
  (crecordSetState cr .disconnectSent, ⟨.record ep, cp⟩)

/-! ## `rpc_call` -/

/-- Where `rpc_call` waits, with the locals that are live there. -/
inductive CallWait where
  | seqno
  | frag (seqno fnum nfrags : Nat)
  | query (seqno : Nat)
  deriving DecidableEq, Repr

/-- One critical section of `rpc_call`.  `number` is the local `seqno` when this section
assigns it; `wait = none` means the call returned, with 1 and `result` if that is present. -/
structure CallStep where
  cr : CRecord
  sent : List Sent
  number : Option Nat
  wait : Option CallWait
  result : Option (Buffer UInt8)
  fault : Option Fault
  deriving DecidableEq, Repr

/-- The call returns 0. -/
def CallStep.fail (cr : CRecord) : CallStep := ⟨cr, [], none, none, none, none⟩

def CallStep.undefined (cr : CRecord) (f : Fault) : CallStep :=
  ⟨cr, [], none, none, none, some f⟩

/-- The fragment loop from fragment `fnum` on, up to the next wait. -/
def rpcCallSend (ep sp : Nat) (cr : CRecord) (q : Bytes) (number : Option Nat)
    (seqno fnum nfrags : Nat) : CallStep :=
  if fnum < nfrags then
    match fragmentPayload sp seqno q fnum nfrags with
    | none => .undefined cr .outOfBounds
    | some buf =>
      let cr := crecordSetPayload { cr with lastFrag := fnum } buf buf.length ATTEMPTS TICKS
      ⟨crecordSetState cr .fragmentSent, [⟨.record ep, buf⟩], number,
        some (.frag seqno fnum nfrags), none, none⟩
  else
    match lastPayload sp .query seqno q fnum nfrags 65536 with
    | none => .undefined cr .outOfBounds
    | some buf =>
      let cr := crecordSetPayload cr buf buf.length ATTEMPTS TICKS
      ⟨crecordSetState cr .querySent, [⟨.record ep, buf⟩], number, some (.query seqno), none,
        none⟩

/-- `cr->seqno++` on an `unsigned long`. -/
def seqnoSucc (seqno : Nat) : Nat := (seqno + 1) % 18446744073709551616

/-- `cr->seqno++` and the first message of the query. -/
def rpcCallNumber (ep sp : Nat) (cr : CRecord) (q : Bytes) : CallStep :=
  let seqno := seqnoSucc cr.seqno
  rpcCallSend ep sp { cr with seqno := seqno } q (some seqno) seqno 1 (nfragsOf q.length)

/-- `rpc_call` up to its first wait; the record has been found. -/
def rpcCallBegin (ep sp : Nat) (cr : CRecord) (q : Bytes) : CallStep :=
  if cr.state = .idle then
    if SEQNO_LIMIT ≤ cr.seqno then
      let cp := controlPayload (cpComplete sp .seqno SEQNO_START 1 1)
      let cr := crecordSetPayload { cr with seqno := SEQNO_START } cp CP_SIZE ATTEMPTS TICKS
      ⟨crecordSetState cr .seqnoSent, [⟨.record ep, cp⟩], none, some .seqno, none, none⟩
    else rpcCallNumber ep sp cr q
  else .fail cr

/-- `ntohs(buf->dhdr.tlen)`. -/
def bufferTlen (buf : Buffer UInt8) : Nat :=
  ((buf.getD 12 none).getD 0).toNat * 256 + ((buf.getD 13 none).getD 0).toNat

/-- `memcpy(…, buf->data, tlen)` into a caller's buffer of `room` bytes; nothing is copied
when it does not fit there. -/
def copyOut (buf : Buffer UInt8) (room : Nat) : Except Fault (Option (Buffer UInt8)) :=
  if buf.length < 14 then .error .outOfBounds
  else if bufferTlen buf ≤ room then
    if DP_SIZE + bufferTlen buf ≤ buf.length then
      .ok (some ((buf.drop DP_SIZE).take (bufferTlen buf)))
    else .error .outOfBounds
  else .ok none

/-- `rpc_call` after its last wait. -/
def rpcCallCollect (cr : CRecord) (rsize : Nat) : CallStep :=
  if cr.state = .idle then
    match cr.resp with
    | none => .undefined { cr with resp := none } .nullPointer
    | some buf =>
      match copyOut buf rsize with
      | .error f => .undefined { cr with resp := none } f
      | .ok result => ⟨{ cr with resp := none }, [], none, none, result, none⟩
  else .fail { cr with resp := none }

/-- A thread inside `rpc_call` runs again; `none` while the state it waits for is not there. -/
def rpcCallResume (ep sp : Nat) (cr : CRecord) (q : Bytes) (rsize : Nat) :
    CallWait → Option CallStep
  | .seqno =>
    if matchedState cr [.idle, .timedout] then
      some (if cr.state = .timedout then .fail cr else rpcCallNumber ep sp cr q)
    else none
  | .frag seqno fnum nfrags =>
    if matchedState cr [.fackReceived, .timedout] then
      some (if cr.state = .timedout then .fail cr
        else rpcCallSend ep sp cr q none seqno (fnum + 1) nfrags)
    else none
  | .query _ =>
    if matchedState cr [.idle, .timedout] then some (rpcCallCollect cr rsize) else none

/-! ## `rpc_query` and `rpc_response` -/

/-- What `rpc_query` copies to the worker's buffer of `len` bytes; nothing when the query is
longer. -/
def rpcQueryCopy (dp : Buffer UInt8) (len : Nat) : Except Fault (Buffer UInt8) :=
  (copyOut dp len).map (·.getD [])

/-- One critical section of `rpc_response`.  `wait` holds `fnum` and `nfrags` of the fragment
loop; `ans` is the value returned when there is no wait. -/
structure ResponseStep where
  cr : CRecord
  sent : List Sent
  wait : Option (Nat × Nat)
  ans : Bool
  fault : Option Fault
  deriving DecidableEq, Repr

def ResponseStep.fail (cr : CRecord) : ResponseStep := ⟨cr, [], none, false, none⟩

/-- The fragment loop from fragment `fnum` on; every message takes `cr->seqno` afresh. -/
def rpcResponseSend (ep sp : Nat) (cr : CRecord) (r : Bytes) (fnum nfrags : Nat) :
    ResponseStep :=
  if fnum < nfrags then
    match fragmentPayload sp cr.seqno r fnum nfrags with
    | none => ⟨cr, [], none, false, some .outOfBounds⟩
    | some dp =>
      let cr := crecordSetPayload { cr with lastFrag := fnum } dp dp.length ATTEMPTS TICKS
      ⟨crecordSetState cr .fragmentSent, [⟨.record ep, dp⟩], some (fnum, nfrags), false, none⟩
  else
    match lastPayload sp .response cr.seqno r fnum nfrags 2147483648 with
    | none => ⟨cr, [], none, false, some .outOfBounds⟩
    | some dp =>
      let cr := crecordSetPayload cr dp dp.length ATTEMPTS TICKS
      ⟨crecordSetState cr .responseSent, [⟨.record cr.ep, dp⟩], none, true, none⟩

/-- `rpc_response` up to its first wait; the record has been found. -/
def rpcResponseBegin (ep sp : Nat) (cr : CRecord) (r : Bytes) : ResponseStep :=
  if cr.state = .qackSent then rpcResponseSend ep sp cr r 1 (nfragsOf r.length)
  else .fail cr

def rpcResponseResume (ep sp : Nat) (cr : CRecord) (r : Bytes) (fnum nfrags : Nat) :
    Option ResponseStep :=
  if matchedState cr [.fackReceived, .timedout] then
    some (if cr.state = .timedout then .fail cr
      else rpcResponseSend ep sp cr r (fnum + 1) nfrags)
  else none

/-! ## What the loops send for 1 to 65535 bytes -/

section Lengths

variable {m : Bytes}

theorem nfragsOf_eq (h1 : 1 ≤ m.length) (h2 : m.length ≤ 65535) :
    nfragsOf m.length = pieceCount FR_SIZE m := by
  have hne : m.length ≠ 0 := by omega
  simp only [nfragsOf, pieceCount, if_neg hne, FR_SIZE]
  omega

theorem pieceCount_le (h2 : m.length ≤ 65535) : pieceCount FR_SIZE m ≤ 64 := by
  simp only [pieceCount, FR_SIZE]
  omega

theorem blenOf_eq (h2 : m.length ≤ 65535) :
    blenOf m.length (pieceCount FR_SIZE m) =
      (piece FR_SIZE m (pieceCount FR_SIZE m)).length := by
  rw [length_last_piece (by decide)]
  have hle : FR_SIZE * pieceCount FR_SIZE m ≤ m.length + FR_SIZE := by
    simp only [pieceCount, FR_SIZE]
    omega
  rw [blenOf, if_pos hle]
  simp only [pieceCount, FR_SIZE]
  omega

theorem fragmentPayload_eq {sp seqno k nfrags : Nat} (h1 : 1 ≤ k)
    (hk : k < pieceCount FR_SIZE m) :
    fragmentPayload sp seqno m k nfrags =
      some (dataPayload (cpComplete sp .fragment seqno k nfrags) m.length
        (piece FR_SIZE m k).length (piece FR_SIZE m k)) := by
  have hle := mul_le_length (by decide) hk
  have hoff : FR_SIZE * (k - 1) + FR_SIZE = FR_SIZE * k := by
    obtain ⟨j, rfl⟩ : ∃ j, k = j + 1 := ⟨k - 1, by omega⟩
    rw [Nat.add_sub_cancel, Nat.mul_add, Nat.mul_one]
  rw [length_piece (by decide) h1 hk, fragmentPayload]
  simp only [hoff, if_pos hle]
  rfl

theorem lastPayload_eq {sp seqno cap : Nat} {cmd : Command} (h2 : m.length ≤ 65535)
    (hcap : 1040 < cap) :
    lastPayload sp cmd seqno m (pieceCount FR_SIZE m) (pieceCount FR_SIZE m) cap =
      some (dataPayload (cpComplete sp cmd seqno (pieceCount FR_SIZE m) (pieceCount FR_SIZE m))
        m.length (piece FR_SIZE m (pieceCount FR_SIZE m)).length
        (piece FR_SIZE m (pieceCount FR_SIZE m))) := by
  have hb := blenOf_eq h2
  have hlen := length_last_piece (show 0 < FR_SIZE by decide) m
  have hle := mul_le_length (m := m) (k := pieceCount FR_SIZE m - 1) (show 0 < FR_SIZE by decide)
    (by have := pieceCount_pos FR_SIZE m; omega)
  have hsmall : (piece FR_SIZE m (pieceCount FR_SIZE m)).length ≤ FR_SIZE := by
    simp only [piece, List.length_take]
    omega
  have hdata : (m.drop (FR_SIZE * (pieceCount FR_SIZE m - 1))).take
      (piece FR_SIZE m (pieceCount FR_SIZE m)).length =
        piece FR_SIZE m (pieceCount FR_SIZE m) := by
    rw [piece, List.length_take, ← List.take_eq_take_min]
  have hfit : FR_SIZE * (pieceCount FR_SIZE m - 1) +
      (piece FR_SIZE m (pieceCount FR_SIZE m)).length ≤ m.length := by omega
  have hroom : DP_SIZE + (piece FR_SIZE m (pieceCount FR_SIZE m)).length < cap := by
    simp only [DP_SIZE, FR_SIZE] at *
    omega
  rw [lastPayload]
  simp only [hb, hdata]
  rw [if_pos ⟨hfit, hroom⟩]

end Lengths

end Hwdb.Rpc
