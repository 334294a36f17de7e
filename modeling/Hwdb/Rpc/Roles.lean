import Hwdb.Rpc.Provenance

/-!
# The two records in their roles

Which branches of the reader a server's record can take on what a client sends, and a client's
record on what a server sends.

* `Serves`, `Receives` — the branches, with what they did.
* `Roles` — a server's record has a service and a 32-bit number and is in a server's state; a
  client's record is in a client's state.
* `Roles.serves`, `Roles.receives` — the inversions at a step of a session.
* `roles_of_reach` — every run keeps the roles.
-/

set_option autoImplicit false

namespace Hwdb.Rpc

open Hwdb.Lib

/-- The states of a server's record. -/
def serverStates : List State :=
  [.idle, .qackSent, .responseSent, .timedout, .fragmentSent, .fackReceived, .fackSent]

/-- The states of a client's record. -/
def clientStates : List State :=
  [.idle, .connectSent, .querySent, .awaitingResponse, .timedout, .disconnectSent,
    .fragmentSent, .fackReceived, .fackSent, .seqnoSent]

/-- A record that a server made for a `CONNECT`. -/
structure Serving (c : CRecord) : Prop where
  state : c.state ∈ serverStates
  seqno : c.seqno < 4294967296
  svc : c.svc.isSome

/-- The operations that the reader can fail in. -/
def Overrun (d : Received) (cr : Option CRecord) : Prop :=
  RECV_SIZE ≤ d.n ∨ ∃ c, cr = some c ∧
    ((d.command = some .fragment ∧ isFirstFragment c d ∧
        Buffer.write (Buffer.alloc (DP_SIZE + d.tlen)) 0 d.bytes = none) ∨
      ((d.command = some .fragment ∨
          ((d.command = some .query ∨ d.command = some .response) ∧ d.fnum = d.nfrags)) ∧
        d.seqno = c.seqno ∧ c.state = .fackSent ∧ d.fnum = c.lastFrag + 1 ∧
          ∃ f, copyFragment c d = .error f))

/-- A query that has just been accepted. -/
def queryTaken (c : CRecord) (d : Received) : CRecord :=
  crecordSetState (acknowledge c d .qack d.fnum d.nfrags) .qackSent

/-- A fragment that has just been accepted. -/
def fragmentTaken (c : CRecord) (d : Received) : CRecord :=
  crecordSetState (acknowledge { c with lastFrag := d.fnum } d .fack d.fnum d.nfrags) .fackSent

/-- A response that has just been accepted. -/
def responseTaken (c : CRecord) (d : Received) : CRecord :=
  crecordSetState (acknowledge c d .rack d.fnum d.nfrags) .idle

/-- What a datagram of a client does at a server. -/
inductive Serves (stable : Bytes → Option Nat) (nep : Nat) (d : Received) :
    Option CRecord → Outcome → Prop where
  | kept (cr : Option CRecord) : Serves stable nep d cr ⟨cr, [], none, none⟩
  | failed (cr : Option CRecord) (f : Fault)
      (h : Overrun d cr ∨ (d.command = some .connect ∧ stableIndex d.name = none)) :
      Serves stable nep d cr ⟨cr, [], none, some f⟩
  | created (sr : Nat) (hc : d.command = some .connect) (hs : stable d.sname = some sr) :
      Serves stable nep d none (.sendAndSet
        (crecordSetService (acknowledge (crecordCreate nep d.seqno) d .cack 1 1) sr) .idle)
  | reconnected (c : CRecord) (sr : Nat) (hc : d.command = some .connect)
      (hst : c.state = .idle) :
      Serves stable nep d (some c) (.sendAndSet (crecordSetService c sr) .idle)
  | queryWhole (c : CRecord) (sr : Nat) (hc : d.command = some .query)
      (hn : d.seqno = c.seqno + 1) (hst : c.state = .idle ∨ c.state = .responseSent) :
      Serves stable nep d (some c)
        ⟨some (queryTaken { c with seqno := d.seqno } d),
          [⟨.record c.ep, ackPayload d .qack d.fnum d.nfrags⟩],
          some ⟨sr, c.ep, d.bytes.map some, d.n⟩, none⟩
  | queryLast (c : CRecord) (sr : Nat) (p : Buffer UInt8) (hc : d.command = some .query)
      (hn : d.seqno = c.seqno) (hst : c.state = .fackSent) (hf : d.fnum = c.lastFrag + 1)
      (hnf : d.fnum = d.nfrags) (hp : copyFragment c d = .ok p) :
      Serves stable nep d (some c)
        ⟨some (queryTaken { c with resp := none } d),
          [⟨.record c.ep, ackPayload d .qack d.fnum d.nfrags⟩],
          some ⟨sr, c.ep, p, DP_SIZE + d.tlen⟩, none⟩
  | resent (c : CRecord) : Serves stable nep d (some c) (.sendAndSet c c.state)
  | rack (c : CRecord) (hc : d.command = some .rack) (hn : d.seqno = c.seqno) :
      Serves stable nep d (some c) (.setState c .idle)
  | disconnect (cr : Option CRecord) (hc : d.command = some .disconnect) :
      Serves stable nep d cr (readerDisconnect cr d)
  | fragmentFirst (c : CRecord) (p : Buffer UInt8) (hc : d.command = some .fragment)
      (hn : d.seqno = c.seqno + 1) (hst : c.state = .idle ∨ c.state = .responseSent)
      (hf : d.fnum = 1)
      (hp : Buffer.write (Buffer.alloc (DP_SIZE + d.tlen)) 0 d.bytes = some p) :
      Serves stable nep d (some c)
        ⟨some (fragmentTaken { c with seqno := d.seqno, resp := some p } d),
          [⟨.record c.ep, ackPayload d .fack d.fnum d.nfrags⟩], none, none⟩
  | fragmentNext (c : CRecord) (p : Buffer UInt8) (hc : d.command = some .fragment)
      (hn : d.seqno = c.seqno) (hst : c.state = .fackSent) (hf : d.fnum = c.lastFrag + 1)
      (hp : copyFragment c d = .ok p) :
      Serves stable nep d (some c)
        ⟨some (fragmentTaken { c with resp := some p } d),
          [⟨.record c.ep, ackPayload d .fack d.fnum d.nfrags⟩], none, none⟩
  | fack (c : CRecord) (hc : d.command = some .fack) (hn : d.seqno = c.seqno)
      (hst : c.state = .fragmentSent) : Serves stable nep d (some c) (.setState c .fackReceived)
  | ping (c : CRecord) (hc : d.command = some .ping) :
      Serves stable nep d (some c) (readerPing c d)
  | pack (c : CRecord) : Serves stable nep d (some c) (.setState c c.state)
  | seqno (c : CRecord) (hc : d.command = some .seqno)
      (hst : c.state = .idle ∨ c.state = .responseSent) :
      Serves stable nep d (some c)
        (.sendAndSet { acknowledge c d .sack 1 1 with seqno := d.seqno } .idle)

/-- What a datagram of a server does at a client. -/
inductive Receives (d : Received) : Option CRecord → Outcome → Prop where
  | kept (cr : Option CRecord) : Receives d cr ⟨cr, [], none, none⟩
  | failed (cr : Option CRecord) (f : Fault) (h : Overrun d cr) :
      Receives d cr ⟨cr, [], none, some f⟩
  | cack (c : CRecord) (hc : d.command = some .cack) (hn : d.seqno = c.seqno) :
      Receives d (some c) (.setState c .idle)
  | qack (c : CRecord) (hc : d.command = some .qack) (hn : d.seqno = c.seqno) :
      Receives d (some c) (.setState c .awaitingResponse)
  | dack (c : CRecord) (hc : d.command = some .dack) (hn : d.seqno = c.seqno) :
      Receives d (some c) (.setState c .timedout)
  | responseWhole (c : CRecord) (hc : d.command = some .response) (hn : d.seqno = c.seqno)
      (hst : c.state = .querySent ∨ c.state = .awaitingResponse) :
      Receives d (some c)
        ⟨some (responseTaken { c with resp := some (d.bytes.map some) } d),
          [⟨.record c.ep, ackPayload d .rack d.fnum d.nfrags⟩], none, none⟩
  | responseLast (c : CRecord) (p : Buffer UInt8) (hc : d.command = some .response)
      (hn : d.seqno = c.seqno) (hst : c.state = .fackSent) (hf : d.fnum = c.lastFrag + 1)
      (hnf : d.fnum = d.nfrags) (hp : copyFragment c d = .ok p) :
      Receives d (some c)
        ⟨some (responseTaken { c with resp := some p, lastFrag := d.fnum } d),
          [⟨.record c.ep, ackPayload d .rack d.fnum d.nfrags⟩], none, none⟩
  | fragmentFirst (c : CRecord) (p : Buffer UInt8) (hc : d.command = some .fragment)
      (hst : (c.state = .idle ∧ seqnoNext d.seqno c.seqno) ∨
        ((c.state = .querySent ∨ c.state = .awaitingResponse) ∧ d.seqno = c.seqno))
      (hf : d.fnum = 1)
      (hp : Buffer.write (Buffer.alloc (DP_SIZE + d.tlen)) 0 d.bytes = some p) :
      Receives d (some c)
        ⟨some (fragmentTaken { c with seqno := d.seqno, resp := some p } d),
          [⟨.record c.ep, ackPayload d .fack d.fnum d.nfrags⟩], none, none⟩
  | fragmentNext (c : CRecord) (p : Buffer UInt8) (hc : d.command = some .fragment)
      (hn : d.seqno = c.seqno) (hst : c.state = .fackSent) (hf : d.fnum = c.lastFrag + 1)
      (hp : copyFragment c d = .ok p) :
      Receives d (some c)
        ⟨some (fragmentTaken { c with resp := some p } d),
          [⟨.record c.ep, ackPayload d .fack d.fnum d.nfrags⟩], none, none⟩
  | resent (c : CRecord) (hst : c.state = .fackSent) :
      Receives d (some c) (.sendAndSet c c.state)
  | fack (c : CRecord) (hc : d.command = some .fack) (hn : d.seqno = c.seqno)
      (hst : c.state = .fragmentSent) : Receives d (some c) (.setState c .fackReceived)
  | ping (c : CRecord) (hc : d.command = some .ping) : Receives d (some c) (readerPing c d)
  | pack (c : CRecord) : Receives d (some c) (.setState c c.state)
  | sack (c : CRecord) (hc : d.command = some .sack) (hst : c.state = .seqnoSent) :
      Receives d (some c) (.setState c .idle)

section Inversion

variable {stable : Bytes → Option Nat} {nep : Nat} {d : Received} {cr : Option CRecord}
  {out : Outcome} {cmd : Command} {c : CRecord}

theorem resend_setPayload (c : CRecord) (d : Received) (ack : Command) (fnum nfrags : Nat) :
    resend (acknowledge c d ack fnum nfrags) = ⟨.record c.ep, ackPayload d ack fnum nfrags⟩ := by
  rw [resend, acknowledge_payload]
  rfl

theorem seqnoNext_serving (hs : Serving c) (h : seqnoNext d.seqno c.seqno) :
    d.seqno = c.seqno + 1 := by
  have hlt := hs.seqno
  rcases (seqnoNext_iff d.seqno_lt (by omega)).mp h with h | h <;> omega

theorem Handled.serves (h : Handled stable nep d cr out) (hcmd : d.command = some cmd)
    (hk : cmd ∈ clientCommands) (hs : ∀ c, cr = some c → Serving c) :
    Serves stable nep d cr out := by
  have hnot : ∀ x, x ∉ clientCommands → d.command ≠ some x := fun x hx he => by
    rw [hcmd] at he
    cases he
    exact hx hk
  cases h with
  | ignored => exact .kept _
  | terminator _ h => exact .failed _ _ (.inl (.inl h))
  | strayName _ hc h => exact .failed _ _ (.inr ⟨hc, h⟩)
  | created sr hc hst => exact .created sr hc hst
  | reconnected c sr hc _ hst => exact .reconnected c sr hc hst
  | queryWhole c hc hn hst =>
    rcases readerQueryNew_cases { c with seqno := d.seqno } d (d.bytes.map some) d.n with
      ⟨hsvc, -⟩ | ⟨sr, -, he⟩
    · have hsome := (hs c rfl).svc
      rw [show c.svc = none from hsvc] at hsome
      cases hsome
    · rw [he, resend_setPayload]
      exact .queryWhole c sr hc (seqnoNext_serving (hs c rfl) hn) hst
  | queryLast c p hc hn hst hf hnf hp =>
    rcases readerQueryNew_cases { c with resp := none } d p (DP_SIZE + d.tlen) with
      ⟨hsvc, -⟩ | ⟨sr, -, he⟩
    · have hsome := (hs c rfl).svc
      rw [show c.svc = none from hsvc] at hsome
      cases hsome
    · rw [he, resend_setPayload]
      exact .queryLast c sr p hc hn hst hf hnf hp
  | queryOld c => exact .resent c
  | fragmentOld c => exact .resent c
  | disconnect cr hc => exact .disconnect cr hc
  | rack c hc hn => exact .rack c hc hn
  | fragmentFirst c p hc hf hp =>
    have hstate := (hs c rfl).state
    rcases hf with ⟨hst, hn, hf⟩ | ⟨hst | hst, -⟩
    · have hfirst : Serves stable nep d _ _ :=
        .fragmentFirst c p hc (seqnoNext_serving (hs c rfl) hn) hst hf hp
      rwa [← resend_setPayload] at hfirst
    · rw [hst] at hstate
      exact absurd hstate (by decide)
    · rw [hst] at hstate
      exact absurd hstate (by decide)
  | fragmentNext c p hc hn hst hf hp =>
    have hnext : Serves stable nep d _ _ := .fragmentNext c p hc hn hst hf hp
    rwa [← resend_setPayload] at hnext
  | fragmentFault c hc hf hp => exact .failed _ _ (.inl (.inr ⟨c, rfl, .inl ⟨hc, hf, hp⟩⟩))
  | copyFault c f hc hn hst hf hp =>
    exact .failed _ _ (.inl (.inr ⟨c, rfl, .inr ⟨hc, hn, hst, hf, f, hp⟩⟩))
  | fack c hc hn hst => exact .fack c hc hn hst
  | ping c hc => exact .ping c hc
  | pack c => exact .pack c
  | seqno c hc hst => exact .seqno c hc hst
  | cack _ hx => exact absurd hx (hnot _ (by decide))
  | qack _ hx => exact absurd hx (hnot _ (by decide))
  | dack _ hx => exact absurd hx (hnot _ (by decide))
  | sack _ hx => exact absurd hx (hnot _ (by decide))
  | responseWhole _ hx => exact absurd hx (hnot _ (by decide))
  | responseLast _ _ hx => exact absurd hx (hnot _ (by decide))

theorem Handled.receives (h : Handled (fun _ => none) 0 d cr out) (hcmd : d.command = some cmd)
    (hk : cmd ∈ serverCommands) (hs : ∀ c, cr = some c → c.state ∈ clientStates) :
    Receives d cr out := by
  have hnot : ∀ x, x ∉ serverCommands → d.command ≠ some x := fun x hx he => by
    rw [hcmd] at he
    cases he
    exact hx hk
  cases h with
  | ignored => exact .kept _
  | terminator _ h => exact .failed _ _ (.inl h)
  | strayName _ hx => exact absurd hx (hnot _ (by decide))
  | created _ _ hst => cases hst
  | reconnected _ _ _ hst => cases hst
  | cack c hc hn => exact .cack c hc hn
  | qack c hc hn => exact .qack c hc hn
  | dack c hc hn => exact .dack c hc hn
  | sack c hc hst => exact .sack c hc hst
  | fack c hc hn hst => exact .fack c hc hn hst
  | ping c hc => exact .ping c hc
  | pack c => exact .pack c
  | responseWhole c hc hn hst =>
    have hwhole := Receives.responseWhole c hc hn hst
    rwa [← resend_setPayload] at hwhole
  | responseLast c p hc hn hst hf hnf hp =>
    have hlast := Receives.responseLast c p hc hn hst hf hnf hp
    rwa [← resend_setPayload] at hlast
  | fragmentFirst c p hc hf hp =>
    have hstate := hs c rfl
    have hfirst : ((c.state = .idle ∧ seqnoNext d.seqno c.seqno) ∨
        ((c.state = .querySent ∨ c.state = .awaitingResponse) ∧ d.seqno = c.seqno)) ∧
          d.fnum = 1 := by
      rcases hf with ⟨hst | hst, hn, hf⟩ | ⟨hst, hn, hf⟩
      · exact ⟨.inl ⟨hst, hn⟩, hf⟩
      · rw [hst] at hstate
        exact absurd hstate (by decide)
      · exact ⟨.inr ⟨hst, hn⟩, hf⟩
    have htaken := Receives.fragmentFirst c p hc hfirst.1 hfirst.2 hp
    rwa [← resend_setPayload] at htaken
  | fragmentNext c p hc hn hst hf hp =>
    have hnext := Receives.fragmentNext c p hc hn hst hf hp
    rwa [← resend_setPayload] at hnext
  | fragmentOld c _ _ hst => exact .resent c hst
  | fragmentFault c hc hf hp => exact .failed _ _ (.inr ⟨c, rfl, .inl ⟨hc, hf, hp⟩⟩)
  | copyFault c f hc hn hst hf hp =>
    exact .failed _ _ (.inr ⟨c, rfl, .inr ⟨hc, hn, hst, hf, f, hp⟩⟩)
  | queryWhole _ hx => exact absurd hx (hnot _ (by decide))
  | queryLast _ _ hx => exact absurd hx (hnot _ (by decide))
  | queryOld _ hx => exact absurd hx (hnot _ (by decide))
  | disconnect _ hx => exact absurd hx (hnot _ (by decide))
  | seqno _ hx => exact absurd hx (hnot _ (by decide))
  | rack _ hx => exact absurd hx (hnot _ (by decide))

/-- A server's record stays one. -/
theorem Serves.serving {nep : Nat} {c' : CRecord} (h : Serves stable nep d cr out)
    (hs : ∀ c, cr = some c → Serving c) (hc : out.cr = some c') : Serving c' := by
  cases h with
  | kept => exact hs c' hc
  | failed => exact hs c' hc
  | created sr =>
    cases hc
    exact ⟨by simp [serverStates], d.seqno_lt, rfl⟩
  | reconnected c sr =>
    cases hc
    exact ⟨by simp [serverStates], (hs c rfl).seqno, rfl⟩
  | queryWhole c sr =>
    cases hc
    exact ⟨by simp [queryTaken, serverStates], d.seqno_lt, (hs c rfl).svc⟩
  | queryLast c sr p =>
    cases hc
    exact ⟨by simp [queryTaken, serverStates], (hs c rfl).seqno, (hs c rfl).svc⟩
  | resent c =>
    cases hc
    exact ⟨(hs c rfl).state, (hs c rfl).seqno, (hs c rfl).svc⟩
  | rack c =>
    cases hc
    exact ⟨by simp [serverStates], (hs c rfl).seqno, (hs c rfl).svc⟩
  | disconnect cr =>
    obtain ⟨c, rfl, rfl⟩ := Option.map_eq_some_iff.mp hc
    exact ⟨by simp [serverStates], (hs c rfl).seqno, (hs c rfl).svc⟩
  | fragmentFirst c p =>
    cases hc
    exact ⟨by simp [fragmentTaken, serverStates], d.seqno_lt, (hs c rfl).svc⟩
  | fragmentNext c p =>
    cases hc
    exact ⟨by simp [fragmentTaken, serverStates], (hs c rfl).seqno, (hs c rfl).svc⟩
  | fack c =>
    cases hc
    exact ⟨by simp [serverStates], (hs c rfl).seqno, (hs c rfl).svc⟩
  | ping c =>
    cases hc
    exact hs c' rfl
  | pack c =>
    cases hc
    exact ⟨(hs c rfl).state, (hs c rfl).seqno, (hs c rfl).svc⟩
  | seqno c =>
    cases hc
    exact ⟨by simp [serverStates], d.seqno_lt, (hs c rfl).svc⟩

/-- A client's record stays in the states of one. -/
theorem Receives.clientState {c' : CRecord} (h : Receives d cr out)
    (hs : ∀ c, cr = some c → c.state ∈ clientStates) (hc : out.cr = some c') :
    c'.state ∈ clientStates := by
  cases h with
  | kept => exact hs c' hc
  | failed => exact hs c' hc
  | resent c => cases hc; exact hs c rfl
  | ping c => cases hc; exact hs c' rfl
  | pack c => cases hc; exact hs c rfl
  | fragmentFirst => cases hc; simp [fragmentTaken, clientStates]
  | fragmentNext => cases hc; simp [fragmentTaken, clientStates]
  | responseWhole => cases hc; simp [responseTaken, clientStates]
  | responseLast => cases hc; simp [responseTaken, clientStates]
  | _ => cases hc; simp [clientStates]

end Inversion

/-! ## The roles in a run -/

/-- The server's record is one, and the client's record is in a state of a client. -/
structure Roles (s : Session) : Prop where
  server : ∀ c, s.scr = some c → Serving c
  client : ∀ c, s.ccr = some c → c.state ∈ clientStates

section Runs

variable {cfg : Config} {s t : Session} {a : Event} {stale : Bytes} {p : Packet} {c : CRecord}

/-- **The reader of the server**, on anything that the client has sent. -/
theorem Roles.serves (h : Roles s) (hk : Kinds s) (hp : p ∈ s.c2s) (stale : Bytes) :
    Serves cfg.stable s.born (p.received stale) s.scr
      (readerSwitch cfg.stable s.born s.scr (p.received stale)) := by
  obtain ⟨cmd, hmem, hcmd⟩ := (hk.client p hp).command (v := p.call)
  have hwhole := received_whole (p := p) (hk.client p hp).whole stale
  exact (readerSwitch_handled s.scr).serves (hwhole.1.trans hcmd) hmem h.server

/-- **The reader of the client**, on anything that the server has sent. -/
theorem Roles.receives (h : Roles s) (hk : Kinds s) (hp : p ∈ s.s2c) (stale : Bytes) :
    Receives (p.received stale) s.ccr
      (readerSwitch (fun _ => none) 0 s.ccr (p.received stale)) := by
  obtain ⟨cmd, hmem, hcmd⟩ := (hk.server p hp).command (v := p.call)
  have hwhole := received_whole (p := p) (hk.server p hp).whole stale
  exact (readerSwitch_handled s.ccr).receives (hwhole.1.trans hcmd) hmem h.client

theorem Ticked.state {sp : Nat} {o : Option CRecord} {sent : List Sent} {c' : CRecord}
    (h : Ticked sp c o sent) (hc : o = some c') :
    c'.state = .timedout ∨ c'.state = c.state := by
  cases h with
  | purged => cases hc
  | timed q hq => cases hc; exact .inl rfl
  | pinged q hq => cases hc; exact .inr hq.state
  | retried q hq => cases hc; exact .inr hq.state
  | counted q hq => cases hc; exact .inr hq.state

theorem Ticked.kept {sp : Nat} {o : Option CRecord} {sent : List Sent} {c' : CRecord}
    (h : Ticked sp c o sent) (hc : o = some c') :
    c'.seqno = c.seqno ∧ c'.svc = c.svc ∧ c'.resp = c.resp ∧ c'.lastFrag = c.lastFrag := by
  cases h with
  | purged => cases hc
  | timed q hq => cases hc; exact ⟨hq.seqno, hq.svc, hq.resp, hq.lastFrag⟩
  | pinged q hq => cases hc; exact ⟨hq.seqno, hq.svc, hq.resp, hq.lastFrag⟩
  | retried q hq => cases hc; exact ⟨hq.seqno, hq.svc, hq.resp, hq.lastFrag⟩
  | counted q hq => cases hc; exact ⟨hq.seqno, hq.svc, hq.resp, hq.lastFrag⟩

/-- A section of `rpc_call` keeps the record in the states of a client. -/
theorem CallSection.clientState {ep sp : Nat} {q : Bytes} {w : Option CallWait} {st : CallStep}
    (h : CallSection ep sp q c w st) (hs : c.state ∈ clientStates) :
    st.cr.state ∈ clientStates := by
  cases h with
  | refused => exact hs
  | timedout => exact hs
  | renumber => simp [clientStates]
  | undefined h => cases h <;> exact hs
  | fragment => simp [clientStates]
  | query => simp [clientStates]
  | collected n rsize =>
    obtain ⟨result, fault, he⟩ := rpcCallCollect_eq c rsize
    rw [he]
    exact hs

/-- A section of `rpc_response` leaves a server's record one, under its number. -/
theorem ResponseSection.serving {ep sp : Nat} {r : Bytes} {w : Option (Nat × Nat)}
    {st : ResponseStep} (h : ResponseSection ep sp r c w st) (hs : Serving c) :
    Serving st.cr := by
  cases h with
  | refused => exact hs
  | timedout => exact hs
  | undefined => exact hs
  | fragment => exact ⟨by simp [serverStates], hs.seqno, hs.svc⟩
  | response => exact ⟨by simp [serverStates], hs.seqno, hs.svc⟩

theorem ResponseSection.kept {ep sp : Nat} {r : Bytes} {w : Option (Nat × Nat)}
    {st : ResponseStep} (h : ResponseSection ep sp r c w st) :
    st.cr.seqno = c.seqno ∧ (st.cr.state = .fackSent → c.state = .fackSent) := by
  cases h with
  | refused => exact ⟨rfl, id⟩
  | timedout => exact ⟨rfl, id⟩
  | undefined => exact ⟨rfl, id⟩
  | fragment => exact ⟨rfl, nofun⟩
  | response => exact ⟨rfl, nofun⟩

/-- **Every step keeps the roles.** -/
theorem Roles.step (h : Roles s) (hk : Kinds s) (ht : Stepped cfg s a t) : Roles t := by
  cases ht with
  | connect => exact ⟨h.server, fun c hc => by cases hc; simp [clientStates]⟩
  | cdead => exact ⟨h.server, h.client⟩
  | call q rsize _ _ hc =>
    refine ⟨h.server, fun c' hc' => ?_⟩
    cases hc'
    exact (rpcCallBegin_section 0 cfg.subport q _).clientState (h.client _ hc)
  | disconnect =>
    exact ⟨h.server, fun c hc => by cases hc; simp [clientStates]⟩
  | connected => exact ⟨h.server, h.client⟩
  | refused => exact ⟨h.server, nofun⟩
  | resumed _ _ hc hst =>
    refine ⟨h.server, fun c' hc' => ?_⟩
    cases hc'
    exact (rpcCallResume_section hst).clientState (h.client _ hc)
  | disconnected => exact ⟨h.server, h.client⟩
  | crecv _ hp =>
    exact ⟨h.server, fun c' hc' =>
      (h.receives hk (List.mem_of_getElem? hp) _).clientState h.client hc'⟩
  | @ctick c _ hc =>
    refine ⟨h.server, fun c' hc' => ?_⟩
    rcases (timerRecord_cases cfg.subport c).state hc' with hst | hst
    · rw [hst]
      simp [clientStates]
    · rw [hst]
      exact h.client c hc
  | srecv _ hp =>
    exact ⟨fun c' hc' =>
      (h.serves hk (List.mem_of_getElem? hp) _).serving h.server hc', h.client⟩
  | @stick c _ hc =>
    refine ⟨fun c' hc' => ?_, h.client⟩
    have hs := h.server c hc
    obtain ⟨hn, hsvc, -, -⟩ := (timerRecord_cases cfg.subport c).kept hc'
    refine ⟨?_, hn ▸ hs.seqno, hsvc ▸ hs.svc⟩
    rcases (timerRecord_cases cfg.subport c).state hc' with hst | hst
    · rw [hst]
      simp [serverStates]
    · rw [hst]
      exact hs.state
  | query => exact ⟨h.server, h.client⟩
  | respondNone => exact ⟨h.server, h.client⟩
  | respond rb _ _ hc =>
    refine ⟨fun c' hc' => ?_, h.client⟩
    cases hc'
    exact (rpcResponseBegin_section 0 cfg.subport rb _).serving (h.server _ hc)
  | sdead => exact ⟨h.server, h.client⟩
  | wresumed _ _ hc _ hst =>
    refine ⟨fun c' hc' => ?_, h.client⟩
    cases hc'
    exact (rpcResponseResume_section hst).serving (h.server _ hc)

theorem roles_of_reach {ok : Session → Event → Prop} (h : (sessionSystem cfg).Reach ok s) :
    Roles s :=
  h.invariant_reach ⟨nofun, nofun⟩ fun _ _ _ hr ih _ hn =>
    ih.step (kinds_of_steps hr) (next_stepped hn)

end Runs

end Hwdb.Rpc
