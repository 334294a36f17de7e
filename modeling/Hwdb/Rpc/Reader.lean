import Hwdb.Rpc.Name
import Hwdb.Rpc.Record

/-!
# The reader's command switch (`srpc.c`, `reader`)

One definition for each arm of the switch, on the record that `ctable_lookup` returned.  An
arm yields an `Outcome`: the record afterwards, what was sent, what was appended to a service
queue, and the first undefined operation it ran into, if any.  After a fault nothing further
of the arm is executed.

* `readerQuery`, `readerResponse`, `readerFragment`, … — the arms.
* `readerSwitch` — terminator, command check and switch.
* `Handled` and `readerSwitch_handled` — everything the reader can do to a record with one
  datagram, one constructor for each branch, with the guard that led there.
-/

set_option autoImplicit false

namespace Hwdb.Rpc

open Hwdb.Lib

/-- Operations whose effect C leaves undefined. -/
inductive Fault where
  | nullPointer
  | outOfBounds
  | negativeIndex
  | useAfterFree
  deriving DecidableEq, Repr

/-- An element handed to `tsl_append`: queue owner, endpoint pointer, buffer and length. -/
structure Queued where
  svc : Nat
  ep : Nat
  buf : Buffer UInt8
  size : Nat
  deriving DecidableEq, Repr

/-- What one pass through the switch did. -/
structure Outcome where
  cr : Option CRecord
  sent : List Sent
  queued : Option Queued
  fault : Option Fault
  deriving DecidableEq, Repr

/-- The arm breaks out without touching anything. -/
def Outcome.ignore (cr : Option CRecord) : Outcome := ⟨cr, [], none, none⟩

/-- The arm only sets the state. -/
def Outcome.setState (cr : CRecord) (st : State) : Outcome :=
  ⟨some (crecordSetState cr st), [], none, none⟩

/-- `send_payload(cr->ep, cr->pl, cr->size); crecord_setState(cr, st)`. -/
def Outcome.sendAndSet (cr : CRecord) (st : State) : Outcome :=
  ⟨some (crecordSetState cr st), [resend cr], none, none⟩

/-- `(seqno - cr->seqno) == 1` on `unsigned long`. -/
def seqnoNext (seqno crSeqno : Nat) : Prop :=
  (seqno + 18446744073709551616 - crSeqno) % 18446744073709551616 = 1

instance (a b : Nat) : Decidable (seqnoNext a b) := inferInstanceAs (Decidable (_ = _))

theorem seqnoNext_iff {a b : Nat} (ha : a < 4294967296) (hb : b < 18446744073709551616) :
    seqnoNext a b ↔ a = b + 1 ∨ (a = 0 ∧ b = 18446744073709551615) := by
  unfold seqnoNext
  omega

/-- The control message that answers `d`. -/
def ackPayload (d : Received) (ack : Command) (fnum nfrags : Nat) : Bytes :=
  controlPayload (cpComplete d.subport ack d.seqno fnum nfrags)

/-- Build an acknowledgement and make it the record's payload. -/
def acknowledge (cr : CRecord) (d : Received) (ack : Command) (fnum nfrags : Nat) : CRecord :=
  crecordSetPayload cr (ackPayload d ack fnum nfrags) CP_SIZE ATTEMPTS TICKS

@[simp] theorem acknowledge_payload (cr : CRecord) (d : Received) (ack : Command)
    (fnum nfrags : Nat) :
    (acknowledge cr d ack fnum nfrags).payload = ackPayload d ack fnum nfrags := by
  simp [acknowledge, ackPayload]

/-- `memcpy(&p->data[FR_SIZE * (fnum - 1)], dp->data, flen)` into `cr->resp`. -/
def copyFragment (cr : CRecord) (d : Received) : Except Fault (Buffer UInt8) :=
  match cr.resp with
  | none => .error .nullPointer
  | some p =>
    match d.data d.flen with
    | none => .error .outOfBounds
    | some src =>
      match Buffer.write p (DP_SIZE + FR_SIZE * (d.fnum - 1)) src with
      | none => .error .outOfBounds
      | some p => .ok p

/-! ## The arms -/

/-- `case CONNECT`; `stable` is the search of a chain in `stable_lookup`, `nep` the pointer from
`endpoint_duplicate`. -/
def readerConnect (stable : Bytes → Option Nat) (nep : Nat) (cr : Option CRecord)
    (d : Received) : Outcome :=
  if stableIndex d.name = none then ⟨cr, [], none, some .negativeIndex⟩
  else
    match stable d.sname with
    | none => .ignore cr
    | some sr =>
      match cr with
      | none =>
        .sendAndSet
          (crecordSetService (acknowledge (crecordCreate nep d.seqno) d .cack 1 1) sr) .idle
      | some cr =>
        if cr.state = .idle then .sendAndSet (crecordSetService cr sr) .idle
        else .ignore (some cr)

/-- `case CACK`. -/
def readerCack (cr : CRecord) (d : Received) : Outcome :=
  if d.seqno = cr.seqno then .setState cr .idle else .ignore (some cr)

/-- `case NEW` of the inner switch of `case QUERY`. -/
def readerQueryNew (cr : CRecord) (d : Received) (p : Buffer UInt8) (dplen : Nat) : Outcome :=
  let cr := acknowledge cr d .qack d.fnum d.nfrags
  match cr.svc with
  | none => ⟨some cr, [resend cr], none, some .nullPointer⟩
  | some sr =>
    ⟨some (crecordSetState cr .qackSent), [resend cr], some ⟨sr, cr.ep, p, dplen⟩, none⟩

/-- `case QUERY`. -/
def readerQuery (cr : CRecord) (d : Received) : Outcome :=
  if seqnoNext d.seqno cr.seqno ∧ (cr.state = .idle ∨ cr.state = .responseSent) then
    readerQueryNew { cr with seqno := d.seqno } d (d.bytes.map some) d.n
  else if d.seqno = cr.seqno ∧ cr.state = .fackSent ∧ d.fnum = cr.lastFrag + 1 ∧
      d.fnum = d.nfrags then
    match copyFragment cr d with
    | .error f => ⟨some cr, [], none, some f⟩
    | .ok p => readerQueryNew { cr with resp := none } d p (DP_SIZE + d.tlen)
  else if d.seqno = cr.seqno ∧ (cr.state = .qackSent ∨ cr.state = .responseSent) then
    .sendAndSet cr cr.state
  else .ignore (some cr)

/-- `case QACK`. -/
def readerQack (cr : CRecord) (d : Received) : Outcome :=
  if d.seqno = cr.seqno then .setState cr .awaitingResponse else .ignore (some cr)

/-- The common tail of `case RESPONSE`. -/
def readerResponseNew (cr : CRecord) (d : Received) : Outcome :=
  .sendAndSet (acknowledge cr d .rack d.fnum d.nfrags) .idle

/-- `case RESPONSE`. -/
def readerResponse (cr : CRecord) (d : Received) : Outcome :=
  if d.seqno ≠ cr.seqno then .ignore (some cr)
  else if cr.state = .querySent ∨ cr.state = .awaitingResponse then
    readerResponseNew { cr with resp := some (d.bytes.map some) } d
  else if cr.state = .fackSent ∧ d.fnum = cr.lastFrag + 1 ∧ d.fnum = d.nfrags then
    match copyFragment cr d with
    | .error f => ⟨some cr, [], none, some f⟩
    | .ok p => readerResponseNew { cr with resp := some p, lastFrag := d.fnum } d
  else .ignore (some cr)

/-- `case RACK`. -/
def readerRack (cr : CRecord) (d : Received) : Outcome :=
  if d.seqno = cr.seqno then .setState cr .idle else .ignore (some cr)

/-- `case DISCONNECT`: always answered, with or without a record. -/
def readerDisconnect (cr : Option CRecord) (d : Received) : Outcome :=
  ⟨cr.map (crecordSetState · .timedout), [⟨.sender, ackPayload d .dack 1 1⟩], none, none⟩

/-- `case DACK`. -/
def readerDack (cr : CRecord) (d : Received) : Outcome :=
  if d.seqno = cr.seqno then .setState cr .timedout else .ignore (some cr)

/-- `case NEW` of the inner switch of `case FRAGMENT`. -/
def readerFragmentNew (cr : CRecord) (d : Received) : Outcome :=
  .sendAndSet (acknowledge { cr with lastFrag := d.fnum } d .fack d.fnum d.nfrags) .fackSent

/-- `isQ || isR` in `case FRAGMENT`. -/
def isFirstFragment (cr : CRecord) (d : Received) : Prop :=
  ((cr.state = .idle ∨ cr.state = .responseSent) ∧ seqnoNext d.seqno cr.seqno ∧ d.fnum = 1) ∨
  ((cr.state = .querySent ∨ cr.state = .awaitingResponse) ∧ d.seqno = cr.seqno ∧ d.fnum = 1)

instance (cr : CRecord) (d : Received) : Decidable (isFirstFragment cr d) :=
  inferInstanceAs (Decidable (_ ∨ _))

/-- `case FRAGMENT`. -/
def readerFragment (cr : CRecord) (d : Received) : Outcome :=
  if isFirstFragment cr d then
    match Buffer.write (Buffer.alloc (DP_SIZE + d.tlen)) 0 d.bytes with
    | none => ⟨some cr, [], none, some .outOfBounds⟩
    | some p => readerFragmentNew { cr with seqno := d.seqno, resp := some p } d
  else if d.seqno = cr.seqno ∧ cr.state = .fackSent ∧ d.fnum = cr.lastFrag + 1 then
    match copyFragment cr d with
    | .error f => ⟨some cr, [], none, some f⟩
    | .ok p => readerFragmentNew { cr with resp := some p } d
  else if d.seqno = cr.seqno ∧ cr.state = .fackSent ∧ d.fnum = cr.lastFrag then
    .sendAndSet cr cr.state
  else .ignore (some cr)

/-- `case FACK`. -/
def readerFack (cr : CRecord) (d : Received) : Outcome :=
  if d.seqno = cr.seqno ∧ cr.state = .fragmentSent ∧ d.fnum = cr.lastFrag then
    .setState cr .fackReceived
  else .ignore (some cr)

/-- `case PING`. -/
def readerPing (cr : CRecord) (d : Received) : Outcome :=
  ⟨some cr, [⟨.sender, ackPayload d .pack 1 1⟩], none, none⟩

/-- `case PACK`. -/
def readerPack (cr : CRecord) : Outcome := .setState cr cr.state

/-- `case SEQNO`. -/
def readerSeqno (cr : CRecord) (d : Received) : Outcome :=
  if cr.state = .idle ∨ cr.state = .responseSent then
    .sendAndSet { acknowledge cr d .sack 1 1 with seqno := d.seqno } .idle
  else .ignore (some cr)

/-- `case SACK`. -/
def readerSack (cr : CRecord) : Outcome :=
  if cr.state = .seqnoSent then .setState cr .idle else .ignore (some cr)

/-- The arms that do nothing without a record. -/
def readerRecord (cr : CRecord) (d : Received) : Command → Outcome
  | .cack => readerCack cr d
  | .query => readerQuery cr d
  | .qack => readerQack cr d
  | .response => readerResponse cr d
  | .rack => readerRack cr d
  | .dack => readerDack cr d
  | .fragment => readerFragment cr d
  | .fack => readerFack cr d
  | .ping => readerPing cr d
  | .pack => readerPack cr
  | .seqno => readerSeqno cr d
  | .sack => readerSack cr
  | .connect => .ignore (some cr)
  | .disconnect => .ignore (some cr)

/-- One datagram: the terminator `buf[n] = '\0'`, the command check, the switch on the record
that the lookup returned. -/
def readerSwitch (stable : Bytes → Option Nat) (nep : Nat) (cr : Option CRecord)
    (d : Received) : Outcome :=
  if RECV_SIZE ≤ d.n then ⟨cr, [], none, some .outOfBounds⟩
  else
    match d.command with
    | none => .ignore cr
    | some .connect => readerConnect stable nep cr d
    | some .disconnect => readerDisconnect cr d
    | some cmd =>
      match cr with
      | none => .ignore none
      | some cr => readerRecord cr d cmd

/-- A new query goes to the queue of the record's service, if it has one. -/
theorem readerQueryNew_cases (c : CRecord) (d : Received) (p : Buffer UInt8) (n : Nat) :
    (c.svc = none ∧ readerQueryNew c d p n =
      ⟨some (acknowledge c d .qack d.fnum d.nfrags),
        [resend (acknowledge c d .qack d.fnum d.nfrags)], none, some .nullPointer⟩) ∨
    ∃ sr, c.svc = some sr ∧ readerQueryNew c d p n =
      ⟨some (crecordSetState (acknowledge c d .qack d.fnum d.nfrags) .qackSent),
        [resend (acknowledge c d .qack d.fnum d.nfrags)], some ⟨sr, c.ep, p, n⟩, none⟩ := by
  have hsvc : (acknowledge c d .qack d.fnum d.nfrags).svc = c.svc := rfl
  unfold readerQueryNew
  dsimp only
  cases h : c.svc with
  | none =>
    rw [h] at hsvc
    rw [hsvc]
    exact .inl ⟨rfl, rfl⟩
  | some sr =>
    rw [h] at hsvc
    rw [hsvc]
    exact .inr ⟨sr, rfl, rfl⟩

/-! ## Everything a datagram can do -/

/-- The branches of the switch. -/
inductive Handled (stable : Bytes → Option Nat) (nep : Nat) (d : Received) :
    Option CRecord → Outcome → Prop where
  | ignored (cr : Option CRecord) : Handled stable nep d cr (.ignore cr)
  | terminator (cr : Option CRecord) (h : RECV_SIZE ≤ d.n) :
      Handled stable nep d cr ⟨cr, [], none, some .outOfBounds⟩
  | strayName (cr : Option CRecord) (hc : d.command = some .connect)
      (h : stableIndex d.name = none) :
      Handled stable nep d cr ⟨cr, [], none, some .negativeIndex⟩
  | created (sr : Nat) (hc : d.command = some .connect) (hs : stable d.sname = some sr)
      (hi : stableIndex d.name ≠ none) :
      Handled stable nep d none (.sendAndSet
        (crecordSetService (acknowledge (crecordCreate nep d.seqno) d .cack 1 1) sr) .idle)
  | reconnected (cr : CRecord) (sr : Nat) (hc : d.command = some .connect)
      (hs : stable d.sname = some sr) (hst : cr.state = .idle)
      (hi : stableIndex d.name ≠ none) :
      Handled stable nep d (some cr) (.sendAndSet (crecordSetService cr sr) .idle)
  | cack (cr : CRecord) (hc : d.command = some .cack) (hn : d.seqno = cr.seqno) :
      Handled stable nep d (some cr) (.setState cr .idle)
  | queryWhole (cr : CRecord) (hc : d.command = some .query)
      (hn : seqnoNext d.seqno cr.seqno) (hst : cr.state = .idle ∨ cr.state = .responseSent) :
      Handled stable nep d (some cr)
        (readerQueryNew { cr with seqno := d.seqno } d (d.bytes.map some) d.n)
  | queryLast (cr : CRecord) (p : Buffer UInt8) (hc : d.command = some .query)
      (hn : d.seqno = cr.seqno) (hst : cr.state = .fackSent) (hf : d.fnum = cr.lastFrag + 1)
      (hnf : d.fnum = d.nfrags) (hp : copyFragment cr d = .ok p) :
      Handled stable nep d (some cr)
        (readerQueryNew { cr with resp := none } d p (DP_SIZE + d.tlen))
  | queryOld (cr : CRecord) (hc : d.command = some .query) (hn : d.seqno = cr.seqno)
      (hst : cr.state = .qackSent ∨ cr.state = .responseSent) :
      Handled stable nep d (some cr) (.sendAndSet cr cr.state)
  | qack (cr : CRecord) (hc : d.command = some .qack) (hn : d.seqno = cr.seqno) :
      Handled stable nep d (some cr) (.setState cr .awaitingResponse)
  | responseWhole (cr : CRecord) (hc : d.command = some .response) (hn : d.seqno = cr.seqno)
      (hst : cr.state = .querySent ∨ cr.state = .awaitingResponse) :
      Handled stable nep d (some cr)
        (readerResponseNew { cr with resp := some (d.bytes.map some) } d)
  | responseLast (cr : CRecord) (p : Buffer UInt8) (hc : d.command = some .response)
      (hn : d.seqno = cr.seqno) (hst : cr.state = .fackSent) (hf : d.fnum = cr.lastFrag + 1)
      (hnf : d.fnum = d.nfrags) (hp : copyFragment cr d = .ok p) :
      Handled stable nep d (some cr)
        (readerResponseNew { cr with resp := some p, lastFrag := d.fnum } d)
  | rack (cr : CRecord) (hc : d.command = some .rack) (hn : d.seqno = cr.seqno) :
      Handled stable nep d (some cr) (.setState cr .idle)
  | disconnect (cr : Option CRecord) (hc : d.command = some .disconnect) :
      Handled stable nep d cr (readerDisconnect cr d)
  | dack (cr : CRecord) (hc : d.command = some .dack) (hn : d.seqno = cr.seqno) :
      Handled stable nep d (some cr) (.setState cr .timedout)
  | fragmentFirst (cr : CRecord) (p : Buffer UInt8) (hc : d.command = some .fragment)
      (hf : isFirstFragment cr d)
      (hp : Buffer.write (Buffer.alloc (DP_SIZE + d.tlen)) 0 d.bytes = some p) :
      Handled stable nep d (some cr)
        (readerFragmentNew { cr with seqno := d.seqno, resp := some p } d)
  | fragmentNext (cr : CRecord) (p : Buffer UInt8) (hc : d.command = some .fragment)
      (hn : d.seqno = cr.seqno) (hst : cr.state = .fackSent) (hf : d.fnum = cr.lastFrag + 1)
      (hp : copyFragment cr d = .ok p) :
      Handled stable nep d (some cr) (readerFragmentNew { cr with resp := some p } d)
  | fragmentOld (cr : CRecord) (hc : d.command = some .fragment) (hn : d.seqno = cr.seqno)
      (hst : cr.state = .fackSent) (hf : d.fnum = cr.lastFrag) :
      Handled stable nep d (some cr) (.sendAndSet cr cr.state)
  | fragmentFault (cr : CRecord) (hc : d.command = some .fragment)
      (hf : isFirstFragment cr d)
      (hp : Buffer.write (Buffer.alloc (DP_SIZE + d.tlen)) 0 d.bytes = none) :
      Handled stable nep d (some cr) ⟨some cr, [], none, some .outOfBounds⟩
  | copyFault (cr : CRecord) (f : Fault)
      (hc : d.command = some .fragment ∨
        ((d.command = some .query ∨ d.command = some .response) ∧ d.fnum = d.nfrags))
      (hn : d.seqno = cr.seqno) (hst : cr.state = .fackSent) (hf : d.fnum = cr.lastFrag + 1)
      (hp : copyFragment cr d = .error f) :
      Handled stable nep d (some cr) ⟨some cr, [], none, some f⟩
  | fack (cr : CRecord) (hc : d.command = some .fack) (hn : d.seqno = cr.seqno)
      (hst : cr.state = .fragmentSent) (hf : d.fnum = cr.lastFrag) :
      Handled stable nep d (some cr) (.setState cr .fackReceived)
  | ping (cr : CRecord) (hc : d.command = some .ping) :
      Handled stable nep d (some cr) (readerPing cr d)
  | pack (cr : CRecord) (hc : d.command = some .pack) :
      Handled stable nep d (some cr) (.setState cr cr.state)
  | seqno (cr : CRecord) (hc : d.command = some .seqno)
      (hst : cr.state = .idle ∨ cr.state = .responseSent) :
      Handled stable nep d (some cr)
        (.sendAndSet { acknowledge cr d .sack 1 1 with seqno := d.seqno } .idle)
  | sack (cr : CRecord) (hc : d.command = some .sack) (hst : cr.state = .seqnoSent) :
      Handled stable nep d (some cr) (.setState cr .idle)

section Inversion

variable {stable : Bytes → Option Nat} {nep : Nat} {d : Received}

theorem readerConnect_handled (cr : Option CRecord) (hc : d.command = some .connect) :
    Handled stable nep d cr (readerConnect stable nep cr d) := by
  unfold readerConnect
  split
  · rename_i h; exact .strayName cr hc h
  · rename_i hi
    split
    · exact .ignored cr
    · rename_i sr hs
      cases cr with
      | none => exact .created sr hc hs hi
      | some cr =>
        dsimp only
        split
        · rename_i hst; exact .reconnected cr sr hc hs hst hi
        · exact .ignored _

theorem readerQuery_handled (cr : CRecord) (hc : d.command = some .query) :
    Handled stable nep d (some cr) (readerQuery cr d) := by
  unfold readerQuery
  split
  · rename_i h; exact .queryWhole cr hc h.1 h.2
  · split
    · rename_i h
      cases hp : copyFragment cr d with
      | error f => exact .copyFault cr f (.inr ⟨.inl hc, h.2.2.2⟩) h.1 h.2.1 h.2.2.1 hp
      | ok p => exact .queryLast cr p hc h.1 h.2.1 h.2.2.1 h.2.2.2 hp
    · split
      · rename_i h; exact .queryOld cr hc h.1 h.2
      · exact .ignored _

theorem readerResponse_handled (cr : CRecord) (hc : d.command = some .response) :
    Handled stable nep d (some cr) (readerResponse cr d) := by
  unfold readerResponse
  split
  · exact .ignored _
  · rename_i hn
    have hn : d.seqno = cr.seqno := Decidable.not_not.mp hn
    split
    · rename_i hst; exact .responseWhole cr hc hn hst
    · split
      · rename_i h
        cases hp : copyFragment cr d with
        | error f => exact .copyFault cr f (.inr ⟨.inr hc, h.2.2⟩) hn h.1 h.2.1 hp
        | ok p => exact .responseLast cr p hc hn h.1 h.2.1 h.2.2 hp
      · exact .ignored _

theorem readerFragment_handled (cr : CRecord) (hc : d.command = some .fragment) :
    Handled stable nep d (some cr) (readerFragment cr d) := by
  unfold readerFragment
  split
  · rename_i hf
    cases hp : Buffer.write (Buffer.alloc (DP_SIZE + d.tlen)) 0 d.bytes with
    | none => exact .fragmentFault cr hc hf hp
    | some p => exact .fragmentFirst cr p hc hf hp
  · split
    · rename_i h
      cases hp : copyFragment cr d with
      | error f => exact .copyFault cr f (.inl hc) h.1 h.2.1 h.2.2 hp
      | ok p => exact .fragmentNext cr p hc h.1 h.2.1 h.2.2 hp
    · split
      · rename_i h; exact .fragmentOld cr hc h.1 h.2.1 h.2.2
      · exact .ignored _

/-- The arms with one guard. -/
theorem readerRecord_handled (cr : CRecord) (cmd : Command) (hc : d.command = some cmd) :
    Handled stable nep d (some cr) (readerRecord cr d cmd) := by
  cases cmd with
  | query => exact readerQuery_handled cr hc
  | response => exact readerResponse_handled cr hc
  | fragment => exact readerFragment_handled cr hc
  | ping => exact .ping cr hc
  | pack => exact .pack cr hc
  | connect => exact .ignored _
  | disconnect => exact .ignored _
  | cack =>
    simp only [readerRecord, readerCack]
    split
    · rename_i hn; exact .cack cr hc hn
    · exact .ignored _
  | qack =>
    simp only [readerRecord, readerQack]
    split
    · rename_i hn; exact .qack cr hc hn
    · exact .ignored _
  | rack =>
    simp only [readerRecord, readerRack]
    split
    · rename_i hn; exact .rack cr hc hn
    · exact .ignored _
  | dack =>
    simp only [readerRecord, readerDack]
    split
    · rename_i hn; exact .dack cr hc hn
    · exact .ignored _
  | fack =>
    simp only [readerRecord, readerFack]
    split
    · rename_i h; exact .fack cr hc h.1 h.2.1 h.2.2
    · exact .ignored _
  | seqno =>
    simp only [readerRecord, readerSeqno]
    split
    · rename_i hst; exact .seqno cr hc hst
    · exact .ignored _
  | sack =>
    simp only [readerRecord, readerSack]
    split
    · rename_i hst; exact .sack cr hc hst
    · exact .ignored _

/-- **Inversion of the switch.** -/
theorem readerSwitch_handled (cr : Option CRecord) :
    Handled stable nep d cr (readerSwitch stable nep cr d) := by
  unfold readerSwitch
  split
  · rename_i h; exact .terminator cr h
  · split
    · exact .ignored cr
    · rename_i hc; exact readerConnect_handled cr hc
    · rename_i hc; exact .disconnect cr hc
    · rename_i cmd _ _ hc
      cases cr with
      | none => exact .ignored none
      | some cr => exact readerRecord_handled cr cmd hc

end Inversion

end Hwdb.Rpc
