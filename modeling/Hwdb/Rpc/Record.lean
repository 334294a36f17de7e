import Hwdb.Lib.Buffer
import Hwdb.Rpc.Wire

/-!
# Connection records (`crecord.h`, `crecord.c`) and the timer's view of one

`CRecord` carries every field of `struct c_record` that the protocol reads, except `next` and
`link` (the chains and the lists of `ctable_scan` are Lean lists) and the mutex and condition
variable (each stretch under the table mutex is one step of the models).

* `crecordSetState`, `crecordSetPayload`, `crecordSetService`, `crecordCreate` — as in the
  source.
* `ctableScanRecord` — the body of the loop of `ctable_scan` for one record, with the
  `unsigned short` decrements.
* `timerRecord` — what the four loops of `timer` do to that record.
* `timerRecord_cases` — the only things a tick can do to a record.
-/

set_option autoImplicit false

namespace Hwdb.Rpc

open Hwdb.Lib

/-- The states `ST_IDLE` … `ST_SEQNO_SENT`; `unset` is the 0 of `crecord_create`. -/
inductive State where
  | unset
  | idle
  | qackSent
  | responseSent
  | connectSent
  | querySent
  | awaitingResponse
  | timedout
  | disconnectSent
  | fragmentSent
  | fackReceived
  | fragmentReceived
  | fackSent
  | seqnoSent
  deriving DecidableEq, Repr

/-- Number of attempts before a record times out. -/
def ATTEMPTS : Nat := 7

/-- Ticks before the first retry. -/
def TICKS : Nat := 2

def TICKS_BETWEEN_PINGS : Nat := 60 * 50

def PINGS_BEFORE_PURGE : Nat := 3

/-- `struct c_record`.  `ep` and `svc` are pointers; `resp` is the reassembly buffer. -/
structure CRecord where
  seqno : Nat
  state : State
  ep : Nat
  svc : Option Nat
  pl : Option Bytes
  resp : Option (Buffer UInt8)
  size : Nat
  nattempts : Nat
  ticks : Nat
  ticksLeft : Nat
  pingsTilPurge : Nat
  ticksTilPing : Nat
  lastFrag : Nat
  deriving DecidableEq, Repr

def crecordCreate (ep seqno : Nat) : CRecord where
  seqno := seqno
  state := .unset
  ep := ep
  svc := none
  pl := none
  resp := none
  size := 0
  nattempts := 0
  ticks := 0
  ticksLeft := 0
  pingsTilPurge := PINGS_BEFORE_PURGE
  ticksTilPing := TICKS_BETWEEN_PINGS
  lastFrag := 0

def crecordSetState (cr : CRecord) (state : State) : CRecord :=
  { cr with state := state, ticksTilPing := TICKS_BETWEEN_PINGS,
            pingsTilPurge := PINGS_BEFORE_PURGE }

def crecordSetPayload (cr : CRecord) (pl : Bytes) (size nattempts ticks : Nat) : CRecord :=
  { cr with pl := some pl, size := size, nattempts := nattempts, ticks := ticks,
            ticksLeft := ticks }

def crecordSetService (cr : CRecord) (sr : Nat) : CRecord := { cr with svc := some sr }

/-- `crecord_waitForState` returns when the record is in one of `states`. -/
def matchedState (cr : CRecord) (states : List State) : Bool := states.contains cr.state

/-- Where `send_payload` sends: to the record's endpoint or to the sender of the datagram. -/
inductive Dest where
  | record (ep : Nat)
  | sender
  deriving DecidableEq, Repr

/-- One call of `send_payload`. -/
structure Sent where
  dest : Dest
  bytes : Bytes
  deriving DecidableEq, Repr

/-- `cr->size` bytes of `cr->pl`. -/
def CRecord.payload (cr : CRecord) : Bytes := (cr.pl.getD []).take cr.size

/-- `send_payload(cr->ep, cr->pl, cr->size)`. -/
def resend (cr : CRecord) : Sent := ⟨.record cr.ep, cr.payload⟩

section Simp

variable (cr : CRecord) (st : State) (pl : Bytes) (size nattempts ticks sr : Nat)

@[simp] theorem setState_state : (crecordSetState cr st).state = st := rfl
@[simp] theorem setState_seqno : (crecordSetState cr st).seqno = cr.seqno := rfl
@[simp] theorem setState_ep : (crecordSetState cr st).ep = cr.ep := rfl
@[simp] theorem setState_svc : (crecordSetState cr st).svc = cr.svc := rfl
@[simp] theorem setState_resp : (crecordSetState cr st).resp = cr.resp := rfl
@[simp] theorem setState_lastFrag : (crecordSetState cr st).lastFrag = cr.lastFrag := rfl
@[simp] theorem setState_payload : (crecordSetState cr st).payload = cr.payload := rfl

@[simp] theorem setPayload_state :
    (crecordSetPayload cr pl size nattempts ticks).state = cr.state := rfl
@[simp] theorem setPayload_seqno :
    (crecordSetPayload cr pl size nattempts ticks).seqno = cr.seqno := rfl
@[simp] theorem setPayload_ep :
    (crecordSetPayload cr pl size nattempts ticks).ep = cr.ep := rfl
@[simp] theorem setPayload_svc :
    (crecordSetPayload cr pl size nattempts ticks).svc = cr.svc := rfl
@[simp] theorem setPayload_resp :
    (crecordSetPayload cr pl size nattempts ticks).resp = cr.resp := rfl
@[simp] theorem setPayload_lastFrag :
    (crecordSetPayload cr pl size nattempts ticks).lastFrag = cr.lastFrag := rfl
@[simp] theorem setPayload_payload :
    (crecordSetPayload cr pl size nattempts ticks).payload = pl.take size := rfl

@[simp] theorem setService_state : (crecordSetService cr sr).state = cr.state := rfl
@[simp] theorem setService_seqno : (crecordSetService cr sr).seqno = cr.seqno := rfl
@[simp] theorem setService_ep : (crecordSetService cr sr).ep = cr.ep := rfl
@[simp] theorem setService_svc : (crecordSetService cr sr).svc = some sr := rfl
@[simp] theorem setService_resp : (crecordSetService cr sr).resp = cr.resp := rfl
@[simp] theorem setService_lastFrag : (crecordSetService cr sr).lastFrag = cr.lastFrag := rfl
@[simp] theorem setService_payload : (crecordSetService cr sr).payload = cr.payload := rfl

end Simp

/-- A control message is sent whole with size `CP_SIZE`. -/
@[simp] theorem take_controlPayload (h : PayloadHeader) :
    (controlPayload h).take CP_SIZE = controlPayload h := by
  apply List.take_of_length_le
  simp

/-! ## One tick -/

/-- `--x` on an `unsigned short`. -/
def dec16 (x : Nat) : Nat := if x = 0 then 65535 else x - 1

/-- The states whose retransmission counter `ctable_scan` runs. -/
def State.awaitsAck (st : State) : Bool :=
  st == .connectSent || st == .querySent || st == .responseSent || st == .disconnectSent ||
    st == .fragmentSent || st == .seqnoSent

/-- The list that `ctable_scan` threads a record onto. -/
inductive ScanList where
  | none
  | retry
  | timed
  | ping
  | purge
  deriving DecidableEq, Repr

/-- The body of the loop of `ctable_scan`. -/
def ctableScanRecord (p : CRecord) : CRecord × ScanList :=
  if p.state = .timedout then (p, .purge)
  else if p.state.awaitsAck then
    let p := { p with ticksLeft := dec16 p.ticksLeft }
    if p.ticksLeft = 0 then
      let p := { p with nattempts := dec16 p.nattempts }
      if p.nattempts = 0 then (p, .timed)
      else
        let ticks := p.ticks * 2 % 65536
        ({ p with ticks := ticks, ticksLeft := ticks }, .retry)
    else (p, .none)
  else
    let p := { p with ticksTilPing := dec16 p.ticksTilPing }
    if p.ticksTilPing = 0 then
      let p := { p with pingsTilPurge := dec16 p.pingsTilPurge }
      if p.pingsTilPurge = 0 then (p, .timed)
      else ({ p with ticksTilPing := TICKS_BETWEEN_PINGS }, .ping)
    else (p, .none)

/-- The `PING` that `timer` sends; `sp` is `ping->ep->subport`. -/
def pingPayload (sp : Nat) (cr : CRecord) : Bytes :=
  controlPayload (cpComplete sp .ping cr.seqno 1 1)

/-- The four loops of `timer` on one record; `none` when the record is destroyed. -/
def timerRecord (sp : Nat) (p : CRecord) : Option CRecord × List Sent :=
  match ctableScanRecord p with
  | (_, .purge) => (none, [])
  | (p, .timed) => (some (crecordSetState p .timedout), [])
  | (p, .ping) => (some p, [⟨.record p.ep, pingPayload sp p⟩])
  | (p, .retry) => (some p, if p.state.awaitsAck then [resend p] else [])
  | (p, .none) => (some p, [])

/-- Two records that differ in their counters only. -/
structure SameButCounters (p q : CRecord) : Prop where
  seqno : q.seqno = p.seqno
  state : q.state = p.state
  ep : q.ep = p.ep
  svc : q.svc = p.svc
  payload : q.payload = p.payload
  resp : q.resp = p.resp
  lastFrag : q.lastFrag = p.lastFrag

theorem SameButCounters.of_counters (p : CRecord) (nattempts ticks ticksLeft purge ping : Nat) :
    SameButCounters p { p with
      nattempts := nattempts, ticks := ticks, ticksLeft := ticksLeft, pingsTilPurge := purge,
      ticksTilPing := ping } :=
  ⟨rfl, rfl, rfl, rfl, rfl, rfl, rfl⟩

/-- What a tick can do to a record: destroy it, time it out, or touch its counters and send
its payload or a ping. -/
inductive Ticked (sp : Nat) (p : CRecord) : Option CRecord → List Sent → Prop where
  | purged (h : p.state = .timedout) : Ticked sp p none []
  | timed (q : CRecord) (hq : SameButCounters p q) (h : p.state ≠ .timedout) :
      Ticked sp p (some (crecordSetState q .timedout)) []
  | pinged (q : CRecord) (hq : SameButCounters p q) (h : p.state ≠ .timedout) :
      Ticked sp p (some q) [⟨.record q.ep, pingPayload sp q⟩]
  | retried (q : CRecord) (hq : SameButCounters p q) (h : p.state.awaitsAck = true) :
      Ticked sp p (some q) [resend q]
  | counted (q : CRecord) (hq : SameButCounters p q) (h : p.state ≠ .timedout) :
      Ticked sp p (some q) []

theorem timerRecord_cases (sp : Nat) (p : CRecord) :
    Ticked sp p (timerRecord sp p).1 (timerRecord sp p).2 := by
  unfold timerRecord ctableScanRecord
  by_cases ht : p.state = .timedout
  · simp only [ht, if_true]
    exact .purged ht
  by_cases ha : p.state.awaitsAck = true
  · simp only [ht, ha, if_true, if_false]
    by_cases h1 : dec16 p.ticksLeft = 0
    · by_cases h2 : dec16 p.nattempts = 0
      · simp only [h1, h2, if_true]
        exact .timed _ (SameButCounters.of_counters p _ _ _ _ _) ht
      · simp only [h1, h2, ha, if_true, if_false]
        exact .retried _ (SameButCounters.of_counters p _ _ _ _ _) ha
    · simp only [h1, if_false]
      exact .counted _ (SameButCounters.of_counters p _ _ _ _ _) ht
  · simp only [ht, ha, if_false, Bool.false_eq_true]
    by_cases h1 : dec16 p.ticksTilPing = 0
    · by_cases h2 : dec16 p.pingsTilPurge = 0
      · simp only [h1, h2, if_true]
        exact .timed _ (SameButCounters.of_counters p _ _ _ _ _) ht
      · simp only [h1, h2, if_true, if_false]
        exact .pinged _ (SameButCounters.of_counters p _ _ _ _ _) ht
    · simp only [h1, if_false]
      exact .counted _ (SameButCounters.of_counters p _ _ _ _ _) ht

end Hwdb.Rpc
