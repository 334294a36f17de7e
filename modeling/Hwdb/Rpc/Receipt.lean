import Hwdb.Rpc.Call

/-!
# Receiving the same datagram twice

A peer that misses an acknowledgement sends its message again, so the reader should answer a
duplicate as it answered the original and otherwise leave everything alone.
`ReAcknowledges` says so for one record and one datagram.

* `queryAgain`, `fragmentAgain`, `connectAgain`, `seqnoAgain` — the second receipt in the
  arms that recognise one.
* `response_not_reacknowledged` — the `RESPONSE` arm does not: once a response has been
  accepted the record is idle, and a duplicate is dropped without a `RACK`.
* `reAcknowledges_iff` — the exact set of receipts for which the law holds.
-/

set_option autoImplicit false

namespace Hwdb.Rpc

open Hwdb.Lib

/-- The acknowledgement a command asks for. -/
def ackFor : Command → Option Command
  | .connect => some .cack
  | .query => some .qack
  | .response => some .rack
  | .fragment => some .fack
  | .disconnect => some .dack
  | .seqno => some .sack
  | _ => none

/-- `s` carries the acknowledgement that `d` asks for. -/
def IsAck (d : Received) (s : Sent) : Prop :=
  ∃ ack, d.command.bind ackFor = some ack ∧ (⟨s.bytes, []⟩ : Received).command = some ack

/-- State, sequence number, last fragment and reassembled bytes of a record. -/
def protocolView (cr : CRecord) : State × Nat × Nat × Option (Buffer UInt8) :=
  (cr.state, cr.seqno, cr.lastFrag, cr.resp)

/-- If the first receipt of `d` sends the matching acknowledgement, so does a second one, and
it changes nothing else. -/
def ReAcknowledges (stable : Bytes → Option Nat) (nep nep' : Nat) (cr : Option CRecord)
    (d : Received) : Prop :=
  ∀ s ∈ (readerSwitch stable nep cr d).sent, IsAck d s →
    (readerSwitch stable nep cr d).fault = none ∧
    s ∈ (readerSwitch stable nep' (readerSwitch stable nep cr d).cr d).sent ∧
    (readerSwitch stable nep' (readerSwitch stable nep cr d).cr d).queued = none ∧
    (readerSwitch stable nep' (readerSwitch stable nep cr d).cr d).fault = none ∧
    (readerSwitch stable nep' (readerSwitch stable nep cr d).cr d).cr.map protocolView =
      (readerSwitch stable nep cr d).cr.map protocolView

/-- The record accepts `d` as the last piece of what it is reassembling. -/
def TakesLastPiece (cr : CRecord) (d : Received) : Prop :=
  d.seqno = cr.seqno ∧ cr.state = .fackSent ∧ d.fnum = cr.lastFrag + 1 ∧ d.fnum = d.nfrags ∧
    ∃ p, copyFragment cr d = .ok p

/-- The record accepts `d` as a `RESPONSE`. -/
def TakesResponse (cr : CRecord) (d : Received) : Prop :=
  d.command = some .response ∧
    ((d.seqno = cr.seqno ∧ (cr.state = .querySent ∨ cr.state = .awaitingResponse)) ∨
      TakesLastPiece cr d)

/-- The record accepts `d` as a new `QUERY`. -/
def TakesQuery (cr : CRecord) (d : Received) : Prop :=
  d.command = some .query ∧
    ((seqnoNext d.seqno cr.seqno ∧ (cr.state = .idle ∨ cr.state = .responseSent)) ∨
      TakesLastPiece cr d)

section Again

variable {stable : Bytes → Option Nat} {nep : Nat} {d : Received} {c : CRecord}

theorem not_seqnoNext_self (a : Nat) : ¬ seqnoNext a a := by
  unfold seqnoNext
  omega

theorem queryAgain (hn : d.n < RECV_SIZE) (hc : d.command = some .query)
    (hs : c.seqno = d.seqno) (hst : c.state = .qackSent) :
    readerSwitch stable nep (some c) d = .sendAndSet c .qackSent := by
  have hnot : ¬ RECV_SIZE ≤ d.n := by omega
  simp [readerSwitch, hnot, hc, readerRecord, readerQuery, hs, hst]

theorem fragmentAgain (hn : d.n < RECV_SIZE) (hc : d.command = some .fragment)
    (hs : c.seqno = d.seqno) (hst : c.state = .fackSent) (hf : c.lastFrag = d.fnum) :
    readerSwitch stable nep (some c) d = .sendAndSet c .fackSent := by
  have hnot : ¬ RECV_SIZE ≤ d.n := by omega
  simp [readerSwitch, hnot, hc, readerRecord, readerFragment, isFirstFragment, hs, hst, hf]

theorem connectAgain {sr : Nat} (hn : d.n < RECV_SIZE) (hc : d.command = some .connect)
    (hi : stableIndex d.name ≠ none) (hsr : stable d.sname = some sr) (hst : c.state = .idle) :
    readerSwitch stable nep (some c) d = .sendAndSet (crecordSetService c sr) .idle := by
  have hnot : ¬ RECV_SIZE ≤ d.n := by omega
  simp [readerSwitch, hnot, hc, readerConnect, hi, hsr, hst]

theorem seqnoAgain (hn : d.n < RECV_SIZE) (hc : d.command = some .seqno)
    (hst : c.state = .idle) :
    readerSwitch stable nep (some c) d =
      .sendAndSet { acknowledge c d .sack 1 1 with seqno := d.seqno } .idle := by
  have hnot : ¬ RECV_SIZE ≤ d.n := by omega
  simp [readerSwitch, hnot, hc, readerRecord, readerSeqno, hst]

theorem responseAgain (hn : d.n < RECV_SIZE) (hc : d.command = some .response)
    (hst : c.state = .idle) :
    readerSwitch stable nep (some c) d = .ignore (some c) := by
  have hnot : ¬ RECV_SIZE ≤ d.n := by omega
  simp [readerSwitch, hnot, hc, readerRecord, readerResponse, hst]

theorem disconnectAgain {cr : Option CRecord} (hn : d.n < RECV_SIZE)
    (hc : d.command = some .disconnect) :
    readerSwitch stable nep cr d = readerDisconnect cr d := by
  have hnot : ¬ RECV_SIZE ≤ d.n := by omega
  simp [readerSwitch, hnot, hc]

end Again

/-- An answer to `d` built by `acknowledge` has the command it was given. -/
theorem isAck_ackPayload {d : Received} {cmd ack : Command} {fnum nfrags : Nat} {dest : Dest}
    (hc : d.command = some cmd) (ha : ackFor cmd = some ack) :
    IsAck d ⟨dest, ackPayload d ack fnum nfrags⟩ :=
  ⟨ack, by simp [hc, ha], by simp [ackPayload, cpComplete]⟩

/-- A command that asks for nothing is never answered by an acknowledgement. -/
theorem not_isAck {d : Received} {cmd : Command} {s : Sent} (hc : d.command = some cmd)
    (ha : ackFor cmd = none) : ¬ IsAck d s := by
  rintro ⟨ack, hb, -⟩
  simp [hc, ha] at hb

section Receipt

variable {stable : Bytes → Option Nat} {nep nep' : Nat} {d : Received} {c : CRecord}

/-- An accepted response is acknowledged once and never again. -/
theorem response_not_reacknowledged (hn : d.n < RECV_SIZE) (ht : TakesResponse c d) :
    ¬ ReAcknowledges stable nep nep' (some c) d := by
  have hnot : ¬ RECV_SIZE ≤ d.n := by omega
  obtain ⟨hc, hcase⟩ := ht
  have key : ∀ c', readerSwitch stable nep (some c) d = readerResponseNew c' d →
      ¬ ReAcknowledges stable nep nep' (some c) d := by
    intro c' hout hre
    obtain ⟨-, hmem, -⟩ := hre (resend (acknowledge c' d .rack d.fnum d.nfrags))
      (by rw [hout]; simp [readerResponseNew, Outcome.sendAndSet])
      (by simpa [resend] using isAck_ackPayload hc rfl)
    rw [hout, readerResponseNew, Outcome.sendAndSet, responseAgain hn hc rfl] at hmem
    cases hmem
  rcases hcase with ⟨hs, hst⟩ | ⟨hs, hst, hf, hnf, p, hp⟩
  · refine key { c with resp := some (d.bytes.map some) } ?_
    simp [readerSwitch, hnot, hc, readerRecord, readerResponse, hs, hst]
  · refine key { c with resp := some p, lastFrag := d.fnum } ?_
    have hnf' : c.lastFrag + 1 = d.nfrags := hf ▸ hnf
    simp [readerSwitch, hnot, hc, readerRecord, readerResponse, hs, hst, hf, hnf', hp]

/-- A query on a record without a service is acknowledged and then dereferences `cr->svc`. -/
theorem unserved_query_faults (hn : d.n < RECV_SIZE) (ht : TakesQuery c d)
    (hsvc : c.svc = none) : ¬ ReAcknowledges stable nep nep' (some c) d := by
  have hnot : ¬ RECV_SIZE ≤ d.n := by omega
  obtain ⟨hc, hcase⟩ := ht
  have key : ∀ c' p n, c'.svc = none →
      readerSwitch stable nep (some c) d = readerQueryNew c' d p n →
      ¬ ReAcknowledges stable nep nep' (some c) d := by
    intro c' p n hsvc' hout hre
    have hnew : readerQueryNew c' d p n =
        ⟨some (acknowledge c' d .qack d.fnum d.nfrags),
          [resend (acknowledge c' d .qack d.fnum d.nfrags)], none, some .nullPointer⟩ := by
      have hsvc'' : (acknowledge c' d .qack d.fnum d.nfrags).svc = none := hsvc'
      simp only [readerQueryNew, hsvc'']
    obtain ⟨hfault, -⟩ := hre (resend (acknowledge c' d .qack d.fnum d.nfrags))
      (by rw [hout, hnew]; simp) (by simpa [resend] using isAck_ackPayload hc rfl)
    rw [hout, hnew] at hfault
    cases hfault
  rcases hcase with ⟨hs, hst⟩ | ⟨hs, hst, hf, hnf, p, hp⟩
  · refine key { c with seqno := d.seqno } (d.bytes.map some) d.n hsvc ?_
    simp [readerSwitch, hnot, hc, readerRecord, readerQuery, hs, hst]
  · refine key { c with resp := none } p (DP_SIZE + d.tlen) hsvc ?_
    have hnf' : c.lastFrag + 1 = d.nfrags := hf ▸ hnf
    have hnext : ¬ seqnoNext d.seqno c.seqno := hs ▸ not_seqnoNext_self _
    simp only [readerSwitch, if_neg hnot, hc, readerRecord, readerQuery, hnext, false_and,
      if_false]
    rw [if_pos ⟨hs, hst, hf, hnf⟩, hp]

/-- A new query on a served record: the first receipt, and the second. -/
theorem queryNew_reacknowledged (c' : CRecord) {p : Buffer UInt8} {n sr : Nat}
    (hn : d.n < RECV_SIZE) (hc : d.command = some .query) (hs : c'.seqno = d.seqno)
    (hsvc : c'.svc = some sr)
    (hout : readerSwitch stable nep (some c) d = readerQueryNew c' d p n) :
    ReAcknowledges stable nep nep' (some c) d := by
  have hsvc' : (acknowledge c' d .qack d.fnum d.nfrags).svc = some sr := hsvc
  intro s hsent _
  have hq : readerSwitch stable nep (some c) d =
      ⟨some (crecordSetState (acknowledge c' d .qack d.fnum d.nfrags) .qackSent),
        [resend (acknowledge c' d .qack d.fnum d.nfrags)],
        some ⟨sr, (acknowledge c' d .qack d.fnum d.nfrags).ep, p, n⟩, none⟩ := by
    simp only [hout, readerQueryNew, hsvc']
  have hs' : (crecordSetState (acknowledge c' d .qack d.fnum d.nfrags) .qackSent).seqno =
      d.seqno := hs
  rw [hq] at hsent ⊢
  simp only [queryAgain hn hc hs' rfl]
  rw [List.mem_singleton] at hsent
  subst hsent
  exact ⟨trivial, List.mem_singleton.mpr rfl, rfl, rfl, rfl⟩

/-- The arms that resend the payload and set the state they found. -/
theorem sendAndSet_reacknowledged {c' : CRecord} {st : State}
    (hout : readerSwitch stable nep (some c) d = .sendAndSet c' st)
    (hagain : readerSwitch stable nep' (some (crecordSetState c' st)) d =
      .sendAndSet (crecordSetState c' st) st) :
    ReAcknowledges stable nep nep' (some c) d := by
  intro s hsent _
  simp only [hout, Outcome.sendAndSet] at hsent ⊢
  rw [hagain]
  rw [List.mem_singleton] at hsent
  subst hsent
  exact ⟨trivial, List.mem_singleton.mpr rfl, rfl, rfl, rfl⟩

end Receipt

/-- The receipts that break the law: an accepted response, and a query accepted by a record
without a service. -/
def Unrepeatable (cr : Option CRecord) (d : Received) : Prop :=
  d.n < RECV_SIZE ∧ ∃ c, cr = some c ∧ (TakesResponse c d ∨ (TakesQuery c d ∧ c.svc = none))

/-- **Receipt is idempotent and re-acknowledged exactly outside `Unrepeatable`.** -/
theorem reAcknowledges_iff (stable : Bytes → Option Nat) (nep nep' : Nat)
    (cr : Option CRecord) (d : Received) :
    ReAcknowledges stable nep nep' cr d ↔ ¬ Unrepeatable cr d := by
  constructor
  · rintro hre ⟨hn, c, rfl, ht | ⟨ht, hsvc⟩⟩
    · exact response_not_reacknowledged hn ht hre
    · exact unserved_query_faults hn ht hsvc hre
  intro hnot
  by_cases hn : RECV_SIZE ≤ d.n
  · intro s hs _
    simp [readerSwitch, hn] at hs
  have hn : d.n < RECV_SIZE := by omega
  have hserved : ∀ c, cr = some c → TakesQuery c d → ∃ sr, c.svc = some sr := by
    intro c hcr ht
    cases hsvc : c.svc with
    | none => exact absurd ⟨hn, c, hcr, .inr ⟨ht, hsvc⟩⟩ hnot
    | some sr => exact ⟨sr, rfl⟩
  have hresp : ∀ c, cr = some c → ¬ TakesResponse c d :=
    fun c hcr ht => hnot ⟨hn, c, hcr, .inl ht⟩
  have hh : Handled stable nep d cr (readerSwitch stable nep cr d) := readerSwitch_handled cr
  generalize hout : readerSwitch stable nep cr d = out at hh
  cases hh with
  | ignored cr => intro s hs _; rw [hout] at hs; cases hs
  | terminator cr h => exact absurd h (by omega)
  | strayName cr hc h => intro s hs _; rw [hout] at hs; cases hs
  | created sr hc hs hi =>
    intro s hsent _
    simp only [hout, Outcome.sendAndSet] at hsent ⊢
    rw [connectAgain hn hc hi hs rfl]
    rw [List.mem_singleton] at hsent
    subst hsent
    exact ⟨trivial, List.mem_singleton.mpr rfl, rfl, rfl, rfl⟩
  | reconnected c sr hc hs hst hi =>
    refine sendAndSet_reacknowledged hout ?_
    rw [connectAgain hn hc hi hs rfl]
    rfl
  | queryWhole c hc hs hst =>
    obtain ⟨sr, hsvc⟩ := hserved c rfl ⟨hc, .inl ⟨hs, hst⟩⟩
    exact queryNew_reacknowledged { c with seqno := d.seqno } hn hc rfl hsvc hout
  | queryLast c p hc hs hst hf hnf hp =>
    obtain ⟨sr, hsvc⟩ := hserved c rfl ⟨hc, .inr ⟨hs, hst, hf, hnf, p, hp⟩⟩
    exact queryNew_reacknowledged { c with resp := none } hn hc hs.symm hsvc hout
  | queryOld c hc hs hst =>
    refine sendAndSet_reacknowledged hout ?_
    have hnot : ¬ RECV_SIZE ≤ d.n := by omega
    have hnext : ¬ seqnoNext c.seqno c.seqno := not_seqnoNext_self _
    have hne : c.state ≠ .fackSent := by rcases hst with h | h <;> simp [h]
    simp [readerSwitch, hnot, hc, readerRecord, readerQuery, hs, hnext, hne, hst]
  | responseWhole c hc hs hst => exact absurd ⟨hc, .inl ⟨hs, hst⟩⟩ (hresp c rfl)
  | responseLast c p hc hs hst hf hnf hp =>
    exact absurd ⟨hc, .inr ⟨hs, hst, hf, hnf, p, hp⟩⟩ (hresp c rfl)
  | disconnect cr hc =>
    intro s hsent _
    simp only [hout, readerDisconnect] at hsent ⊢
    rw [disconnectAgain hn hc]
    refine ⟨trivial, by simpa [readerDisconnect] using hsent, rfl, rfl, ?_⟩
    cases cr <;> rfl
  | fragmentFirst c p hc hf hp =>
    refine sendAndSet_reacknowledged hout ?_
    exact fragmentAgain hn hc rfl rfl rfl
  | fragmentNext c p hc hs hst hf hp =>
    refine sendAndSet_reacknowledged hout ?_
    exact fragmentAgain hn hc hs.symm rfl rfl
  | fragmentOld c hc hs hst hf =>
    refine sendAndSet_reacknowledged hout ?_
    exact (fragmentAgain (c := crecordSetState c c.state) hn hc hs.symm hst hf.symm).trans
      (by rw [hst])
  | seqno c hc hst =>
    refine sendAndSet_reacknowledged hout ?_
    rw [seqnoAgain hn hc rfl]
    rfl
  | fragmentFault c hc hf hp => intro s hs _; rw [hout] at hs; cases hs
  | copyFault c f hc hs hst hf hp => intro s hs _; rw [hout] at hs; cases hs
  | ping c hc => intro s _ ha; exact absurd ha (not_isAck hc rfl)
  | cack c hc _ => intro s _ ha; exact absurd ha (not_isAck hc rfl)
  | qack c hc _ => intro s _ ha; exact absurd ha (not_isAck hc rfl)
  | rack c hc _ => intro s _ ha; exact absurd ha (not_isAck hc rfl)
  | dack c hc _ => intro s _ ha; exact absurd ha (not_isAck hc rfl)
  | fack c hc _ _ _ => intro s _ ha; exact absurd ha (not_isAck hc rfl)
  | pack c hc => intro s _ ha; exact absurd ha (not_isAck hc rfl)
  | sack c hc _ => intro s _ ha; exact absurd ha (not_isAck hc rfl)

/-! ## A client that called once -/

/-- The record of a client that connected with sequence number 0, was acknowledged, and sent
the one-byte query `q`. -/
def calledClient (sp : Nat) (q : UInt8) : CRecord :=
  let c := (rpcConnectBegin 0 sp [72, 87, 68, 66] 0).1
  let cack := controlPayload (cpComplete sp .cack 0 1 1)
  match (readerSwitch (fun _ => none) 0 (some c) ⟨cack, []⟩).cr with
  | some c => (rpcCallBegin 0 sp c [q]).cr
  | none => c

/-- The response to that query, acknowledged on the first receipt only. -/
theorem calledClient_not_reacknowledged :
    ¬ ReAcknowledges (fun _ => none) 0 0 (some (calledClient 5 1))
      ⟨dataPayload (cpComplete 5 .response 1 1 1) 1 1 [9], []⟩ :=
  response_not_reacknowledged (by decide)
    ⟨by decide, .inl ⟨by decide +kernel, by decide +kernel⟩⟩

end Hwdb.Rpc
