import Hwdb.Rpc.Steps
import Hwdb.Rpc.Reassembly

/-!
# Where the datagrams of a session come from

* `Packet.command`, `Packet.seqno`, … — the header of a datagram; any receive buffer shows
  the same one (`received_whole`).
* `Handled.payload`, `Handled.answers` — what the reader makes a record's payload, and what
  it sends: an old payload again, or the acknowledgement of what it just read.
* `Kinds`, `kinds_of_steps` — each side sends its own kinds of message, and what a record
  would send again has already been sent.
-/

set_option autoImplicit false

namespace Hwdb.Rpc

open Hwdb.Lib

/-! ## Headers -/

namespace Packet

variable (p : Packet)

/-- The datagram has a whole header. -/
def Whole : Prop := CP_SIZE ≤ p.bytes.length

def command : Option Command := (p.received []).command
def seqno : Nat := (p.received []).seqno
def fnum : Nat := (p.received []).fnum
def nfrags : Nat := (p.received []).nfrags

end Packet

section Header

variable {p : Packet}

theorem byte_received {i : Nat} (stale : Bytes) (hi : i < p.bytes.length) :
    (p.received stale).byte i = (p.received []).byte i := by
  simp only [Received.byte, Received.buf, Packet.received, List.getD_eq_getElem?_getD,
    List.getElem?_append_left hi]

/-- What a receive buffer shows of a header does not depend on what was there before. -/
theorem received_whole (h : p.Whole) (stale : Bytes) :
    (p.received stale).command = p.command ∧ (p.received stale).seqno = p.seqno ∧
      (p.received stale).fnum = p.fnum ∧ (p.received stale).nfrags = p.nfrags := by
  have hb : ∀ i, i < 12 → (p.received stale).byte i = (p.received []).byte i := fun i hi =>
    byte_received stale (Nat.lt_of_lt_of_le hi h)
  simp only [Packet.command, Packet.seqno, Packet.fnum, Packet.nfrags, Received.command,
    Received.seqno, Received.fnum, Received.nfrags, Received.word16]
  rw [hb 4 (by decide), hb 5 (by decide), hb 6 (by decide), hb 7 (by decide), hb 8 (by decide),
    hb 9 (by decide), hb 10 (by decide), hb 11 (by decide)]
  exact ⟨rfl, rfl, rfl, rfl⟩

variable (h : PayloadHeader) (rest : Bytes) (v : Nat)

theorem message_whole : (⟨message h rest, v⟩ : Packet).Whole := by
  simp [Packet.Whole]

@[simp] theorem message_packet_command :
    (⟨message h rest, v⟩ : Packet).command = some h.command := received_command h rest []

@[simp] theorem message_packet_seqno :
    (⟨message h rest, v⟩ : Packet).seqno = h.seqno % 4294967296 := received_seqno h rest []

@[simp] theorem message_packet_fnum :
    (⟨message h rest, v⟩ : Packet).fnum = h.fnum % 256 := received_fnum h rest []

@[simp] theorem message_packet_nfrags :
    (⟨message h rest, v⟩ : Packet).nfrags = h.nfrags % 256 := received_nfrags h rest []

end Header

/-! ## What the reader sends -/

/-- The command a datagram is answered with. -/
def answerTo : Command → Option Command
  | .connect => some .cack
  | .query => some .qack
  | .response => some .rack
  | .disconnect => some .dack
  | .fragment => some .fack
  | .ping => some .pack
  | .seqno => some .sack
  | _ => none

/-- `b` acknowledges `d`. -/
def IsAnswer (d : Received) (b : Bytes) : Prop :=
  ∃ cmd ack fnum nfrags, d.command = some cmd ∧ answerTo cmd = some ack ∧
    b = ackPayload d ack fnum nfrags

section Laws

variable {stable : Bytes → Option Nat} {nep : Nat} {d : Received} {cr : Option CRecord}
  {out : Outcome}

theorem resend_acknowledge (c : CRecord) (d : Received) (ack : Command) (fnum nfrags : Nat) :
    (resend (acknowledge c d ack fnum nfrags)).bytes = ackPayload d ack fnum nfrags :=
  acknowledge_payload c d ack fnum nfrags

/-- What the reader leaves as payload has just been sent, or was there before. -/
theorem Handled.payload (h : Handled stable nep d cr out) {c' : CRecord}
    (hc : out.cr = some c') : (∃ x ∈ out.sent, x.bytes = c'.payload) ∨
      ∃ c, cr = some c ∧ c'.payload = c.payload ∧ c'.seqno = c.seqno := by
  cases h with
  | ignored => exact .inr ⟨c', hc, rfl, rfl⟩
  | terminator => exact .inr ⟨c', hc, rfl, rfl⟩
  | strayName => exact .inr ⟨c', hc, rfl, rfl⟩
  | created => cases hc; exact .inl ⟨_, List.mem_singleton.mpr rfl, rfl⟩
  | reconnected c => cases hc; exact .inl ⟨_, List.mem_singleton.mpr rfl, rfl⟩
  | queryWhole c =>
    rcases readerQueryNew_cases { c with seqno := d.seqno } d (d.bytes.map some) d.n with
      ⟨-, he⟩ | ⟨sr, -, he⟩ <;> rw [he] at hc ⊢ <;> cases hc <;>
      exact .inl ⟨_, List.mem_singleton.mpr rfl, rfl⟩
  | queryLast c p =>
    rcases readerQueryNew_cases { c with resp := none } d p (DP_SIZE + d.tlen) with
      ⟨-, he⟩ | ⟨sr, -, he⟩ <;> rw [he] at hc ⊢ <;> cases hc <;>
      exact .inl ⟨_, List.mem_singleton.mpr rfl, rfl⟩
  | disconnect cr =>
    obtain ⟨c, rfl, rfl⟩ := Option.map_eq_some_iff.mp hc
    exact .inr ⟨c, rfl, rfl, rfl⟩
  | queryOld c => cases hc; exact .inl ⟨_, List.mem_singleton.mpr rfl, rfl⟩
  | responseWhole c => cases hc; exact .inl ⟨_, List.mem_singleton.mpr rfl, rfl⟩
  | responseLast c => cases hc; exact .inl ⟨_, List.mem_singleton.mpr rfl, rfl⟩
  | fragmentFirst c => cases hc; exact .inl ⟨_, List.mem_singleton.mpr rfl, rfl⟩
  | fragmentNext c => cases hc; exact .inl ⟨_, List.mem_singleton.mpr rfl, rfl⟩
  | fragmentOld c => cases hc; exact .inl ⟨_, List.mem_singleton.mpr rfl, rfl⟩
  | seqno c => cases hc; exact .inl ⟨_, List.mem_singleton.mpr rfl, rfl⟩
  | cack c => cases hc; exact .inr ⟨_, rfl, rfl, rfl⟩
  | qack c => cases hc; exact .inr ⟨_, rfl, rfl, rfl⟩
  | rack c => cases hc; exact .inr ⟨_, rfl, rfl, rfl⟩
  | dack c => cases hc; exact .inr ⟨_, rfl, rfl, rfl⟩
  | fack c => cases hc; exact .inr ⟨_, rfl, rfl, rfl⟩
  | sack c => cases hc; exact .inr ⟨_, rfl, rfl, rfl⟩
  | pack c => cases hc; exact .inr ⟨_, rfl, rfl, rfl⟩
  | ping c => cases hc; exact .inr ⟨_, rfl, rfl, rfl⟩
  | fragmentFault c => cases hc; exact .inr ⟨_, rfl, rfl, rfl⟩
  | copyFault c => cases hc; exact .inr ⟨_, rfl, rfl, rfl⟩

/-- What the reader sends is the record's payload once more, or an acknowledgement. -/
theorem Handled.answers (h : Handled stable nep d cr out) {x : Sent} (hx : x ∈ out.sent) :
    (∃ c c', cr = some c ∧ out.cr = some c' ∧ c'.seqno = c.seqno ∧ x.bytes = c.payload) ∨
      IsAnswer d x.bytes := by
  cases h with
  | ignored => cases hx
  | terminator => cases hx
  | strayName => cases hx
  | created sr hc =>
    rw [List.mem_singleton.mp hx]
    exact .inr ⟨_, _, _, _, hc, rfl,
      acknowledge_payload (crecordCreate nep d.seqno) d .cack 1 1⟩
  | reconnected c =>
    rw [List.mem_singleton.mp hx]
    exact .inl ⟨c, _, rfl, rfl, rfl, rfl⟩
  | queryWhole c hc =>
    rcases readerQueryNew_cases { c with seqno := d.seqno } d (d.bytes.map some) d.n with
      ⟨-, he⟩ | ⟨sr, -, he⟩ <;> rw [he] at hx <;> rw [List.mem_singleton.mp hx] <;>
      exact .inr ⟨_, _, _, _, hc, rfl, resend_acknowledge ..⟩
  | queryLast c p hc =>
    rcases readerQueryNew_cases { c with resp := none } d p (DP_SIZE + d.tlen) with
      ⟨-, he⟩ | ⟨sr, -, he⟩ <;> rw [he] at hx <;> rw [List.mem_singleton.mp hx] <;>
      exact .inr ⟨_, _, _, _, hc, rfl, resend_acknowledge ..⟩
  | queryOld c =>
    rw [List.mem_singleton.mp hx]
    exact .inl ⟨c, _, rfl, rfl, rfl, rfl⟩
  | responseWhole c hc =>
    rw [List.mem_singleton.mp hx]
    exact .inr ⟨_, _, _, _, hc, rfl, resend_acknowledge ..⟩
  | responseLast c p hc =>
    rw [List.mem_singleton.mp hx]
    exact .inr ⟨_, _, _, _, hc, rfl, resend_acknowledge ..⟩
  | fragmentFirst c p hc =>
    rw [List.mem_singleton.mp hx]
    exact .inr ⟨_, _, _, _, hc, rfl, resend_acknowledge ..⟩
  | fragmentNext c p hc =>
    rw [List.mem_singleton.mp hx]
    exact .inr ⟨_, _, _, _, hc, rfl, resend_acknowledge ..⟩
  | fragmentOld c =>
    rw [List.mem_singleton.mp hx]
    exact .inl ⟨c, _, rfl, rfl, rfl, rfl⟩
  | seqno c hc =>
    rw [List.mem_singleton.mp hx]
    exact .inr ⟨_, _, _, _, hc, rfl, acknowledge_payload c d .sack 1 1⟩
  | disconnect cr hc =>
    rw [List.mem_singleton.mp hx]
    exact .inr ⟨_, _, _, _, hc, rfl, rfl⟩
  | ping c hc =>
    rw [List.mem_singleton.mp hx]
    exact .inr ⟨_, _, _, _, hc, rfl, rfl⟩
  | _ => cases hx

end Laws

/-! ## Kinds of messages -/

/-- What a client sends. -/
def clientCommands : List Command :=
  [.connect, .query, .disconnect, .fragment, .fack, .rack, .seqno, .ping, .pack]

/-- What a server sends. -/
def serverCommands : List Command :=
  [.cack, .qack, .response, .dack, .fragment, .fack, .ping, .pack, .sack]

/-- `b` has a whole header with one of the commands `cmds`; if it is a `SEQNO`, its number is
the one that `rpc_call` starts again from. -/
def OfKind (cmds : List Command) (b : Bytes) : Prop :=
  ∃ h rest, b = message h rest ∧ h.command ∈ cmds ∧ (h.command = .seqno → h.seqno = SEQNO_START)

section Kind

variable {cmds : List Command} {b : Bytes} {v : Nat}

theorem ofKind_message {sp n fnum nfrags : Nat} {cmd : Command} {rest : Bytes}
    (hc : cmd ∈ cmds) (hn : cmd = .seqno → n = SEQNO_START) :
    OfKind cmds (message (cpComplete sp cmd n fnum nfrags) rest) :=
  ⟨_, _, rfl, hc, hn⟩

theorem OfKind.whole (h : OfKind cmds b) : (⟨b, v⟩ : Packet).Whole := by
  obtain ⟨h, rest, rfl, -⟩ := h
  exact message_whole h rest v

theorem OfKind.command (h : OfKind cmds b) :
    ∃ cmd ∈ cmds, (⟨b, v⟩ : Packet).command = some cmd := by
  obtain ⟨h, rest, rfl, hc, -⟩ := h
  exact ⟨h.command, hc, message_packet_command h rest v⟩

theorem OfKind.seqno_start (h : OfKind cmds b)
    (hc : (⟨b, v⟩ : Packet).command = some .seqno) : (⟨b, v⟩ : Packet).seqno = SEQNO_START := by
  obtain ⟨h, rest, rfl, -, hn⟩ := h
  rw [message_packet_command] at hc
  rw [message_packet_seqno, hn (Option.some.inj hc)]
  rfl

/-- The answers to the messages of one side are messages of the other side. -/
theorem IsAnswer.ofKind {d : Received} (h : IsAnswer d b)
    (hcmds : ∀ cmd ack, d.command = some cmd → answerTo cmd = some ack → ack ∈ cmds) :
    OfKind cmds b := by
  obtain ⟨cmd, ack, fnum, nfrags, hc, ha, rfl⟩ := h
  refine ⟨_, [], rfl, hcmds cmd ack hc ha, fun hs => ?_⟩
  have hs : ack = .seqno := hs
  subst hs
  cases cmd <;> cases ha

theorem answer_serverCommands {cmd ack : Command} (h : cmd ∈ clientCommands)
    (ha : answerTo cmd = some ack) : ack ∈ serverCommands := by
  cases cmd <;> cases ha <;> first
    | decide
    | exact absurd h (by decide)

theorem answer_clientCommands {cmd ack : Command} (h : cmd ∈ serverCommands)
    (ha : answerTo cmd = some ack) : ack ∈ clientCommands := by
  cases cmd <;> cases ha <;> first
    | decide
    | exact absurd h (by decide)

end Kind

section Sections

variable {ep sp : Nat} {q r : Bytes} {c : CRecord}

theorem CallSection.ofKind {w : Option CallWait} {st : CallStep}
    (h : CallSection ep sp q c w st) {x : Sent} (hx : x ∈ st.sent) :
    OfKind clientCommands x.bytes := by
  cases h with
  | refused => cases hx
  | timedout => cases hx
  | undefined => cases hx
  | renumber =>
    rw [List.mem_singleton.mp hx]
    exact ofKind_message (by decide) fun _ => rfl
  | fragment _ _ hbuf =>
    rw [List.mem_singleton.mp hx]
    obtain ⟨rest, rfl⟩ := fragmentPayload_shape hbuf
    exact ofKind_message (by decide) nofun
  | query _ _ hbuf =>
    rw [List.mem_singleton.mp hx]
    obtain ⟨rest, rfl⟩ := lastPayload_shape hbuf
    exact ofKind_message (by decide) nofun
  | collected n rsize =>
    obtain ⟨result, fault, he⟩ := rpcCallCollect_eq c rsize
    rw [he] at hx
    cases hx

/-- A section sends its record's new payload, or leaves the old one and numbers nothing. -/
theorem CallSection.payload {w : Option CallWait} {st : CallStep}
    (h : CallSection ep sp q c w st) : (∃ x ∈ st.sent, x.bytes = st.cr.payload) ∨
      (st.cr.payload = c.payload ∧ st.number = none) := by
  cases h with
  | refused => exact .inr ⟨rfl, rfl⟩
  | timedout => exact .inr ⟨rfl, rfl⟩
  | undefined h => cases h <;> exact .inr ⟨rfl, rfl⟩
  | renumber =>
    exact .inl ⟨_, List.mem_singleton.mpr rfl, (take_controlPayload _).symm⟩
  | fragment _ _ hbuf =>
    exact .inl ⟨_, List.mem_singleton.mpr rfl, (List.take_length ..).symm⟩
  | query _ _ hbuf =>
    exact .inl ⟨_, List.mem_singleton.mpr rfl, (List.take_length ..).symm⟩
  | collected n rsize =>
    obtain ⟨result, fault, he⟩ := rpcCallCollect_eq c rsize
    rw [he]
    exact .inr ⟨rfl, rfl⟩

theorem ResponseSection.ofKind {w : Option (Nat × Nat)} {st : ResponseStep}
    (h : ResponseSection ep sp r c w st) {x : Sent} (hx : x ∈ st.sent) :
    OfKind serverCommands x.bytes := by
  cases h with
  | refused => cases hx
  | timedout => cases hx
  | undefined => cases hx
  | fragment _ _ hbuf =>
    rw [List.mem_singleton.mp hx]
    obtain ⟨rest, rfl⟩ := fragmentPayload_shape hbuf
    exact ofKind_message (by decide) nofun
  | response _ _ hbuf =>
    rw [List.mem_singleton.mp hx]
    obtain ⟨rest, rfl⟩ := lastPayload_shape hbuf
    exact ofKind_message (by decide) nofun

theorem ResponseSection.payload {w : Option (Nat × Nat)} {st : ResponseStep}
    (h : ResponseSection ep sp r c w st) : (∃ x ∈ st.sent, x.bytes = st.cr.payload) ∨
      st.cr.payload = c.payload := by
  cases h with
  | refused => exact .inr rfl
  | timedout => exact .inr rfl
  | undefined => exact .inr rfl
  | fragment _ _ hbuf =>
    exact .inl ⟨_, List.mem_singleton.mpr rfl, (List.take_length ..).symm⟩
  | response _ _ hbuf =>
    exact .inl ⟨_, List.mem_singleton.mpr rfl, (List.take_length ..).symm⟩

end Sections

/-! ## The kinds invariant -/

/-- Each side sends its own kinds of message, and a record's payload has been sent. -/
structure Kinds (s : Session) : Prop where
  client : ∀ p ∈ s.c2s, OfKind clientCommands p.bytes
  server : ∀ p ∈ s.s2c, OfKind serverCommands p.bytes
  cpayload : ∀ c, s.ccr = some c → ⟨c.payload, s.calls.length⟩ ∈ s.c2s
  spayload : ∀ c, s.scr = some c → ⟨c.payload, s.scall⟩ ∈ s.s2c

theorem mem_packets {v : Nat} {sent : List Sent} {p : Packet} :
    p ∈ Session.packets v sent ↔ ∃ x ∈ sent, p = ⟨x.bytes, v⟩ := by
  simp [Session.packets, eq_comm]

theorem kinds_init : Kinds Session.init where
  client := fun _ h => nomatch h
  server := fun _ h => nomatch h
  cpayload := fun _ h => nomatch h
  spayload := fun _ h => nomatch h

section Preserved

variable {cfg : Config} {s t : Session}

theorem Kinds.clientSection (h : Kinds s) {c : CRecord} (hc : s.ccr = some c) {v rsize : Nat}
    {q : Bytes} {w : Option CallWait} {st : CallStep} (ws : List Thread)
    (hst : CallSection 0 cfg.subport q c w st) :
    Kinds ({ s with waiting := ws }.clientSection v q rsize st) := by
  refine ⟨fun p hp => ?_, h.server, fun c' hc' => ?_, h.spayload⟩
  · rcases List.mem_append.mp hp with hp | hp
    · exact h.client p hp
    · obtain ⟨x, hx, rfl⟩ := mem_packets.mp hp
      exact hst.ofKind hx
  · cases hc'
    rcases hst.payload with ⟨x, hx, hxp⟩ | ⟨hp, hn⟩
    · exact List.mem_append_right _ (mem_packets.mpr ⟨x, hx, by rw [hxp]; rfl⟩)
    · refine List.mem_append_left _ ?_
      rw [hp]
      simpa [Session.clientSection, hn] using h.cpayload c hc

theorem Kinds.clientRecv (h : Kinds s) {i : Nat} {stale : Bytes} {p : Packet}
    (hp : s.s2c[i]? = some p) : Kinds (s.clientRecv i (p.received stale)) := by
  have hin := h.server p (List.mem_of_getElem? hp)
  have hh : Handled (fun _ => none) 0 (p.received stale) s.ccr _ := readerSwitch_handled s.ccr
  refine ⟨fun x hx => ?_, h.server, fun c' hc' => ?_, h.spayload⟩
  · rcases List.mem_append.mp hx with hx | hx
    · exact h.client x hx
    · obtain ⟨y, hy, rfl⟩ := mem_packets.mp hx
      rcases hh.answers hy with ⟨c, c', hc, -, -, hb⟩ | ha
      · rw [hb]
        exact h.client _ (h.cpayload c hc)
      · refine ha.ofKind fun cmd ack hcmd => answer_clientCommands ?_
        obtain ⟨cmd', hmem, hc⟩ := hin.command (v := p.call)
        rw [(received_whole hin.whole stale).1, show p.command = some cmd' from hc] at hcmd
        cases hcmd
        exact hmem
  · rcases hh.payload hc' with ⟨x, hx, hxp⟩ | ⟨c, hc, hpl, -⟩
    · exact List.mem_append_right _ (mem_packets.mpr ⟨x, hx, by rw [hxp]; rfl⟩)
    · rw [hpl]
      exact List.mem_append_left _ (h.cpayload c hc)

/-- The record's call only changes together with its sequence number. -/
theorem recvCall_eq {c c' : CRecord} (hc : s.scr = some c) (hs : c'.seqno = c.seqno)
    (d : Received) (call : Nat) : s.recvCall (some c') d call = s.scall := by
  simp [Session.recvCall, hc, hs]

theorem Kinds.serverRecv (h : Kinds s) {i : Nat} {stale : Bytes} {p : Packet}
    (hp : s.c2s[i]? = some p) : Kinds (s.serverRecv cfg i p.call (p.received stale)) := by
  have hin := h.client p (List.mem_of_getElem? hp)
  have hh : Handled cfg.stable s.born (p.received stale) s.scr _ := readerSwitch_handled s.scr
  refine ⟨h.client, fun x hx => ?_, h.cpayload, fun c' hc' => ?_⟩
  · rcases List.mem_append.mp hx with hx | hx
    · exact h.server x hx
    · obtain ⟨y, hy, rfl⟩ := mem_packets.mp hx
      rcases hh.answers hy with ⟨c, c', hc, -, -, hb⟩ | ha
      · rw [hb]
        exact h.server ⟨c.payload, s.scall⟩ (h.spayload c hc)
      · refine ha.ofKind fun cmd ack hcmd => answer_serverCommands ?_
        obtain ⟨cmd', hmem, hc⟩ := hin.command (v := p.call)
        rw [(received_whole hin.whole stale).1, show p.command = some cmd' from hc] at hcmd
        cases hcmd
        exact hmem
  · rcases hh.payload hc' with ⟨x, hx, hxp⟩ | ⟨c, hc, hpl, hs⟩
    · exact List.mem_append_right _ (mem_packets.mpr ⟨x, hx, by rw [hxp]; rfl⟩)
    · refine List.mem_append_left _ ?_
      have hcall : (s.serverRecv cfg i p.call (p.received stale)).scall = s.scall := by
        change s.recvCall (readerSwitch cfg.stable s.born s.scr (p.received stale)).cr
          (p.received stale) p.call = s.scall
        rw [show (readerSwitch cfg.stable s.born s.scr (p.received stale)).cr = some c' from hc']
        exact recvCall_eq hc hs _ _
      rw [hpl, hcall]
      exact h.spayload c hc

theorem Ticked.payload {sp : Nat} {c : CRecord} {o : Option CRecord} {sent : List Sent}
    (h : Ticked sp c o sent) : (∀ c', o = some c' → c'.payload = c.payload) ∧
      ∀ x ∈ sent, x.bytes = c.payload ∨ ∃ n, x.bytes =
        controlPayload (cpComplete sp .ping n 1 1) := by
  cases h with
  | purged => exact ⟨nofun, nofun⟩
  | timed q hq => exact ⟨fun c' hc' => by cases hc'; exact hq.payload, nofun⟩
  | pinged q hq =>
    refine ⟨fun c' hc' => by cases hc'; exact hq.payload, fun x hx => ?_⟩
    rw [List.mem_singleton.mp hx]
    exact .inr ⟨_, rfl⟩
  | retried q hq =>
    refine ⟨fun c' hc' => by cases hc'; exact hq.payload, fun x hx => ?_⟩
    rw [List.mem_singleton.mp hx]
    exact .inl hq.payload
  | counted q hq => exact ⟨fun c' hc' => by cases hc'; exact hq.payload, nofun⟩

theorem Kinds.clientTick (h : Kinds s) {c : CRecord} (hc : s.ccr = some c) :
    Kinds (s.clientTick cfg c) := by
  obtain ⟨hpl, hsent⟩ := (timerRecord_cases cfg.subport c).payload
  refine ⟨fun x hx => ?_, h.server, fun c' hc' => ?_, h.spayload⟩
  · rcases List.mem_append.mp hx with hx | hx
    · exact h.client x hx
    · obtain ⟨y, hy, rfl⟩ := mem_packets.mp hx
      rcases hsent y hy with hb | ⟨n, hb⟩
      · rw [hb]
        exact h.client _ (h.cpayload c hc)
      · rw [hb]
        exact ofKind_message (by decide) nofun
  · rw [hpl c' hc']
    exact List.mem_append_left _ (h.cpayload c hc)

theorem Kinds.serverTick (h : Kinds s) {c : CRecord} (hc : s.scr = some c) :
    Kinds (s.serverTick cfg c) := by
  obtain ⟨hpl, hsent⟩ := (timerRecord_cases cfg.subport c).payload
  refine ⟨h.client, fun x hx => ?_, h.cpayload, fun c' hc' => ?_⟩
  · rcases List.mem_append.mp hx with hx | hx
    · exact h.server x hx
    · obtain ⟨y, hy, rfl⟩ := mem_packets.mp hx
      rcases hsent y hy with hb | ⟨n, hb⟩
      · rw [hb]
        exact h.server ⟨c.payload, s.scall⟩ (h.spayload c hc)
      · rw [hb]
        exact ofKind_message (by decide) nofun
  · rw [hpl c' hc']
    exact List.mem_append_left _ (h.spayload c hc)

theorem Kinds.serverSection (h : Kinds s) {c : CRecord} (hc : s.scr = some c) {e : Element}
    {r : Bytes} {w : Option (Nat × Nat)} {st : ResponseStep} (held : List Element)
    (rs : List Responding) (hst : ResponseSection 0 cfg.subport r c w st) :
    Kinds ({ s with held := held, responding := rs }.serverSection e r st) := by
  refine ⟨h.client, fun p hp => ?_, h.cpayload, fun c' hc' => ?_⟩
  · rcases List.mem_append.mp hp with hp | hp
    · exact h.server p hp
    · obtain ⟨x, hx, rfl⟩ := mem_packets.mp hp
      exact hst.ofKind hx
  · cases hc'
    rcases hst.payload with ⟨x, hx, hxp⟩ | hp
    · exact List.mem_append_right _ (mem_packets.mpr ⟨x, hx, by rw [hxp]; rfl⟩)
    · refine List.mem_append_left _ ?_
      rw [hp]
      exact h.spayload c hc

/-- **Every step keeps the kinds apart.** -/
theorem Kinds.step (h : Kinds s) {a : Event} (ht : Stepped cfg s a t) : Kinds t := by
  cases ht with
  | connect =>
    refine ⟨fun p hp => ?_, h.server, fun c hc => ?_, h.spayload⟩
    · rcases List.mem_append.mp hp with hp | hp
      · exact h.client p hp
      · obtain ⟨x, hx, rfl⟩ := mem_packets.mp hp
        rw [List.mem_singleton.mp hx]
        exact ofKind_message (by decide) nofun
    · cases hc
      refine List.mem_append_right _ (mem_packets.mpr ⟨_, List.mem_singleton.mpr rfl, ?_⟩)
      simp [rpcConnectBegin, Session.clientConnect]
  | disconnect _ _ hc =>
    refine ⟨fun p hp => ?_, h.server, fun c' hc' => ?_, h.spayload⟩
    · rcases List.mem_append.mp hp with hp | hp
      · exact h.client p hp
      · obtain ⟨x, hx, rfl⟩ := mem_packets.mp hp
        rw [List.mem_singleton.mp hx]
        exact ofKind_message (by decide) nofun
    · cases hc'
      refine List.mem_append_right _ (mem_packets.mpr ⟨_, List.mem_singleton.mpr rfl, ?_⟩)
      simp [rpcDisconnectBegin, Session.clientDisconnect]
  | refused => exact ⟨h.client, h.server, nofun, h.spayload⟩
  | cdead => exact ⟨h.client, h.server, h.cpayload, h.spayload⟩
  | connected => exact ⟨h.client, h.server, h.cpayload, h.spayload⟩
  | disconnected => exact ⟨h.client, h.server, h.cpayload, h.spayload⟩
  | call q rsize _ _ hc =>
    exact h.clientSection hc s.waiting (rpcCallBegin_section 0 cfg.subport q _)
  | @resumed i v _ rsize _ _ _ _ _ hc hst =>
    have hk : Kinds ({ s with waiting := s.waiting.eraseIdx i }.clientSection v _ rsize _) :=
      h.clientSection hc _ (rpcCallResume_section hst)
    exact ⟨hk.client, hk.server, hk.cpayload, hk.spayload⟩
  | crecv _ hp => exact h.clientRecv hp
  | ctick _ hc => exact h.clientTick hc
  | srecv _ hp => exact h.serverRecv hp
  | stick _ hc => exact h.serverTick hc
  | query => exact ⟨h.client, h.server, h.cpayload, h.spayload⟩
  | respondNone => exact ⟨h.client, h.server, h.cpayload, h.spayload⟩
  | @respond i e rb _ _ _ hc =>
    have hk : Kinds ({ s with held := s.held.eraseIdx i }.serverSection e rb _) :=
      h.serverSection hc _ s.responding (rpcResponseBegin_section 0 cfg.subport rb _)
    exact ⟨hk.client, hk.server, hk.cpayload, hk.spayload⟩
  | sdead => exact ⟨h.client, h.server, h.cpayload, h.spayload⟩
  | wresumed _ _ hc _ hst =>
    exact h.serverSection hc s.held (s.responding.eraseIdx _) (rpcResponseResume_section hst)

theorem kinds_of_steps {ok : Session → Event → Prop} (h : (sessionSystem cfg).Reach ok s) :
    Kinds s :=
  h.invariant kinds_init fun _ _ _ hk _ hn => hk.step (next_stepped hn)

end Preserved

end Hwdb.Rpc
