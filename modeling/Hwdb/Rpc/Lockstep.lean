import Hwdb.Lib.Fifo
import Hwdb.Rpc.Reception

/-!
# Client and server in lockstep

Between a client and a server whose channels keep their order, every message that is part of a
call has a rank: eight times the call, and how far the call has come.  Neither side ever sends
below the rank it has reached, and what the other side has already answered does not come again.

* `Packet.rank` — the rank of a message; `clientFloor`, `serverFloor` — the least rank that a
  side that has come to `x` or `y` can still be given.
* `Logs` — the two logs and the ranks the two sides have come to.
* `ClientSide`, `ServerSide` — what the rank of a side says about its record, its threads and its
  messages.
* `Lockstep` — both sides together.
-/

set_option autoImplicit false

namespace Hwdb.Rpc

open Hwdb.Lib

/-! ## Ranks -/

/-- How far a call is when a client sends this command. -/
def clientPhase : Command → Option Nat
  | .fragment => some 1
  | .connect | .query => some 2
  | .fack => some 3
  | .rack => some 4
  | .seqno => some 5
  | _ => none

/-- How far a call is when a server sends this command. -/
def serverPhase : Command → Option Nat
  | .fack => some 1
  | .qack => some 2
  | .fragment => some 3
  | .cack | .response => some 4
  | .sack => some 5
  | _ => none

/-- Eight for every call before this one, and the phase. -/
def Packet.rank (phase : Command → Option Nat) (p : Packet) : Option Nat :=
  (p.command.bind phase).map (8 * p.call + ·)

/-- What a client that has come to `x` can still be given: nothing from before the last response
that it has accepted. -/
def clientFloor (x : Nat) : Nat :=
  if x % 8 ≤ 2 then x / 8 * 8 - 4 else if x % 8 = 3 then x else x / 8 * 8 + 4

/-- What a server that has come to `y` can still be given: nothing from before the query that it
has taken. -/
def serverFloor (y : Nat) : Nat := if y % 8 = 3 ∨ y % 8 = 4 then y / 8 * 8 + 2 else y

section Ranks

variable {phase : Command → Option Nat} {p : Packet} {cmd : Command} {x y t n : Nat}

theorem rank_of_command (hc : p.command = some cmd) (hp : phase cmd = some n) :
    p.rank phase = some (8 * p.call + n) := by
  simp [Packet.rank, hc, hp]

theorem rank_none (hc : p.command = some cmd) (hp : phase cmd = none) :
    p.rank phase = none := by
  simp [Packet.rank, hc, hp]

theorem clientFloor_cases (x : Nat) :
    (x % 8 ≤ 2 ∧ clientFloor x = x / 8 * 8 - 4) ∨ (x % 8 = 3 ∧ clientFloor x = x) ∨
      (4 ≤ x % 8 ∧ clientFloor x = x / 8 * 8 + 4) := by
  unfold clientFloor
  split_ifs <;> omega

theorem serverFloor_cases (y : Nat) :
    ((y % 8 = 3 ∨ y % 8 = 4) ∧ serverFloor y = y / 8 * 8 + 2) ∨
      ((y % 8 ≠ 3 ∧ y % 8 ≠ 4) ∧ serverFloor y = y) := by
  unfold serverFloor
  split_ifs <;> omega

/-- A server is never at a later call than its client. -/
theorem server_le_client (h : serverFloor y ≤ x) : y / 8 ≤ x / 8 := by
  rcases serverFloor_cases y with ⟨hy, hf⟩ | ⟨hy, hf⟩ <;> omega

/-- A `QACK` finds its client waiting for it. -/
theorem rank_qack (h1 : clientFloor x ≤ 8 * t + 2) (h2 : 8 * t + 2 ≤ y)
    (h3 : serverFloor y ≤ x) : x = 8 * t + 2 := by
  rcases serverFloor_cases y with ⟨hy, hf⟩ | ⟨hy, hf⟩ <;>
    rcases clientFloor_cases x with ⟨hx, hg⟩ | ⟨hx, hg⟩ | ⟨hx, hg⟩ <;> omega

/-- A piece of a response belongs to the client's call, unless it is a copy of the one that ended
the call before. -/
theorem rank_piece (hn : n = 3 ∨ n = 4) (h1 : clientFloor x ≤ 8 * t + n) (h2 : 8 * t + n ≤ y)
    (h3 : serverFloor y ≤ x) :
    (t = x / 8 ∧ (3 ≤ x % 8 → n = 3 → x % 8 = 3)) ∨ (t + 1 = x / 8 ∧ x % 8 ≤ 2) := by
  rcases serverFloor_cases y with ⟨hy, hf⟩ | ⟨hy, hf⟩ <;>
    rcases clientFloor_cases x with ⟨hx, hg⟩ | ⟨hx, hg⟩ | ⟨hx, hg⟩ <;> omega

/-- A `RACK` finds its server waiting for it. -/
theorem rank_rack (h1 : serverFloor y ≤ 8 * t + 4) (h2 : 8 * t + 4 ≤ x)
    (h3 : clientFloor x ≤ y) : y = 8 * t + 4 := by
  rcases serverFloor_cases y with ⟨hy, hf⟩ | ⟨hy, hf⟩ <;>
    rcases clientFloor_cases x with ⟨hx, hg⟩ | ⟨hx, hg⟩ | ⟨hx, hg⟩ <;> omega

/-- A further piece of a query belongs to the server's call. -/
theorem rank_more (hn : n = 1 ∨ n = 2) (hy : y % 8 = 1) (h1 : serverFloor y ≤ 8 * t + n)
    (h2 : 8 * t + n ≤ x) (h3 : clientFloor x ≤ y) : t = y / 8 := by
  rcases serverFloor_cases y with ⟨hy, hf⟩ | ⟨hy, hf⟩ <;>
    rcases clientFloor_cases x with ⟨hx, hg⟩ | ⟨hx, hg⟩ | ⟨hx, hg⟩ <;> omega

theorem rank_ack {d : Received} {ack : Command} {fnum nfrags v : Nat} (hn : phase ack = some n) :
    (⟨ackPayload d ack fnum nfrags, v⟩ : Packet).rank phase = some (8 * v + n) :=
  rank_of_command (message_packet_command ..) hn

theorem rank_ack_none {d : Received} {ack : Command} {fnum nfrags v : Nat}
    (hn : phase ack = none) :
    (⟨ackPayload d ack fnum nfrags, v⟩ : Packet).rank phase = none :=
  rank_none (message_packet_command ..) hn

theorem packets_ack {d : Received} {ack : Command} {fnum nfrags v : Nat} {dest : Dest}
    {q : Packet} (hq : q ∈ Session.packets v [⟨dest, ackPayload d ack fnum nfrags⟩]) :
    q = ⟨ackPayload d ack fnum nfrags, v⟩ := by
  obtain ⟨z, hz, rfl⟩ := mem_packets.mp hq
  rw [List.mem_singleton.mp hz]

end Ranks

/-! ## The two sides -/

/-- The number of call `i`; call 0 is `rpc_connect`. -/
def Session.numberOf (cfg : Config) (s : Session) : Nat → Nat
  | 0 => cfg.seqno
  | i + 1 => ((s.calls[i]?).map (·.number)).getD 0

/-- What fits a `uint32_t` of a header. -/
def wire (n : Nat) : Nat := n % 4294967296

/-- The states of the record of a client that has come to `x`. -/
def ClientIn (x : Nat) : State → Prop
  | .connectSent => x = 2
  | .fragmentSent | .fackReceived => x % 8 = 1 ∧ 8 ≤ x
  | .querySent | .awaitingResponse => x % 8 = 2 ∧ 8 ≤ x
  | .fackSent => x % 8 = 3 ∧ 8 ≤ x
  | .idle => x % 8 = 4 ∨ x % 8 = 5
  | .seqnoSent => x % 8 = 5
  | .timedout => x % 8 ≤ 5
  | _ => False

/-- The states of the record of a server that has come to `y`. -/
def ServerIn (y : Nat) : State → Prop
  | .fackSent => y % 8 = 1
  | .qackSent => y % 8 = 2
  | .fragmentSent | .fackReceived => y % 8 = 3
  | .responseSent => y % 8 = 4
  | .idle => y % 8 = 4 ∨ y % 8 = 5
  | .timedout => True
  | _ => False

/-- The client goes on from these states because the server has come to `x` as well. -/
def Acked (x : Nat) (st : State) : Prop := st = .fackReceived ∨ (st = .idle ∧ x % 8 = 5)

/-- The answer to the client's last call, under its number. -/
def AnswerOf (s : Session) (n : Nat) (m : Bytes) : Prop :=
  ∃ a ∈ s.responses, a.call = s.calls.length ∧ a.number = n ∧ a.rb = m

/-- What a datagram of the client says. -/
structure OfClient (cfg : Config) (s : Session) (y : Nat) (p : Packet) : Prop where
  le : p.call ≤ s.calls.length
  connected : p.command ≠ some .disconnect
  connect : p.command = some .connect → p.call = 0 ∧ p.seqno = wire cfg.seqno
  query : p.command = some .query ∨ p.command = some .fragment →
    1 ≤ p.call ∧ p.seqno = wire (s.numberOf cfg p.call) ∧ (p.fnum ≠ 1 → 8 * p.call + 1 ≤ y)
  last : p.command = some .query → p.fnum = p.nfrags

/-- What a datagram of the server says. -/
structure OfServer (cfg : Config) (s : Session) (x : Nat) (p : Packet) : Prop where
  le : p.call ≤ s.calls.length
  connected : p.command ≠ some .dack
  cack : p.command = some .cack → p.call = 0 ∧ p.seqno = wire cfg.seqno
  qack : p.command = some .qack → 1 ≤ p.call
  data : p.command = some .response ∨ p.command = some .fragment →
    p.seqno = wire (s.numberOf cfg p.call) ∧ (p.fnum ≠ 1 → 8 * p.call + 3 ≤ x) ∧
      ∃ a ∈ s.responses, a.call = p.call ∧ a.number = p.seqno ∧
        Carries cfg.subport .response p.seqno a.rb p.bytes

/-- The record of a client that has come to `x`. -/
structure ClientAt (cfg : Config) (s : Session) (x y : Nat) (c : CRecord) : Prop where
  state : ClientIn x c.state
  number : c.seqno = if x % 8 = 5 then SEQNO_START else s.numberOf cfg (x / 8)
  payload : x = 4 ∨ (⟨c.payload, s.calls.length⟩ : Packet).rank clientPhase = some x
  acked : Acked x c.state → x ≤ y
  assembles : Assembles (AnswerOf s) c

/-- The record of a server that has come to `y`. -/
structure ServerAt (cfg : Config) (s : Session) (x y : Nat) (c : CRecord) : Prop where
  state : ServerIn y c.state
  number : c.seqno = if y % 8 = 5 then SEQNO_START else wire (s.numberOf cfg (y / 8))
  payload : (⟨c.payload, y / 8⟩ : Packet).rank serverPhase = some y
  acked : c.state = .fackReceived → y ≤ x
  assembling : c.resp.isSome → y % 8 = 1

/-- The thread waits for the acknowledgement of a fragment. -/
def Thread.sending : Thread → Bool
  | .call _ _ _ (.frag ..) => true
  | _ => false

/-- At most one thread of `ws` sends fragments, and its call is the client's last one. -/
structure SendingAt (cfg : Config) (s : Session) (x : Nat) (ws : List Thread) : Prop where
  thread : ∀ v q rsize n k nf, Thread.call v q rsize (.frag n k nf) ∈ ws →
    x = 8 * v + 1 ∧ 1 ≤ v ∧ n = s.numberOf cfg v ∧ k < nf
  one : (ws.filter Thread.sending).length ≤ 1

/-- The calls, the client's record, its threads and its messages. -/
structure ClientSide (cfg : Config) (s : Session) (x y : Nat) : Prop where
  calls : x / 8 = s.calls.length
  record : s.cfault = none → ∀ c, s.ccr = some c → ClientAt cfg s x y c
  c2s : ∀ p ∈ s.c2s, OfClient cfg s y p
  differ : ∀ i < s.calls.length, wire (s.numberOf cfg i) ≠ wire (s.numberOf cfg (i + 1))
  small : ∀ i, 8 * i + 4 ≤ x → s.numberOf cfg i < 4294967296
  wrap : x % 8 = 5 → SEQNO_LIMIT ≤ s.numberOf cfg (x / 8)
  sending : SendingAt cfg s x s.waiting
  unopened : s.opened = false → x = 0 ∧ s.ccr = none

/-- A query in the queue, or in the hands of a worker, is the one that the server is at. -/
def ElementAt (cfg : Config) (s : Session) (y : Nat) (e : Element) : Prop :=
  y = 8 * e.call + 2 ∧ 1 ≤ e.call ∧ e.number = wire (s.numberOf cfg e.call)

/-- A worker that sends its response answers the query that the server is at. -/
def WorkerAt (s : Session) (y : Nat) (w : Responding) : Prop :=
  y = 8 * w.element.call + 3 ∧ 1 ≤ w.element.call ∧ w.nfrags = pieces w.rb ∧ w.fnum < w.nfrags ∧
    ∃ a ∈ s.responses, a.call = w.element.call ∧ a.rb = w.rb

/-- The server's record, its queue, its workers and its messages. -/
structure ServerSide (cfg : Config) (s : Session) (x y : Nat) : Prop where
  call : y / 8 = s.scall
  record : ∀ c, s.scr = some c → ServerAt cfg s x y c
  s2c : ∀ p ∈ s.s2c, OfServer cfg s x p
  element : ∀ e ∈ s.queue ++ s.held, ElementAt cfg s y e
  one : (s.queue ++ s.held).length ≤ 1
  worker : ∀ w ∈ s.responding, WorkerAt s y w
  busy : s.responding.length ≤ 1
  answer : ∀ a ∈ s.responses, 8 * a.call + 3 ≤ y ∧ 1 ≤ a.call ∧ Sendable a.rb ∧
    a.number = wire (s.numberOf cfg a.call)
  unique : ∀ a ∈ s.responses, ∀ b ∈ s.responses, a.call = b.call → a.rb = b.rb

/-- The two logs. -/
structure Logs (s : Session) (x y : Nat) : Prop where
  c2s : Graded (Packet.rank clientPhase) s.c2s x
  s2c : Graded (Packet.rank serverPhase) s.s2c y
  client : Undelivered (Packet.rank serverPhase) s.s2c s.cseen (clientFloor x)
  server : Undelivered (Packet.rank clientPhase) s.c2s s.sseen (serverFloor y)
  behind : clientFloor x ≤ y
  ahead : serverFloor y ≤ x

/-- The client has come to `x` and the server to `y`. -/
structure Lockstep (cfg : Config) (s : Session) (x y : Nat) : Prop where
  logs : Logs s x y
  client : ClientSide cfg s x y
  server : ServerSide cfg s x y

/-! ## One side moves -/

/-- How a step from `s` to `t` moves the client on: only a new call leads out of a renumbering, and
only a renumbering leads into one. -/
structure Moves (s t : Session) (x x' : Nat) : Prop where
  le : x ≤ x'
  leaves : x % 8 = 5 → x' = x ∨ s.calls.length < t.calls.length
  enters : x' = x ∨ x' % 8 ≤ 4 ∨ s.epoch < t.epoch

/-- What a step of the server leaves alone. -/
structure ClientSame (s t : Session) : Prop where
  ccr : t.ccr = s.ccr
  cfault : t.cfault = s.cfault
  calls : t.calls = s.calls
  c2s : t.c2s = s.c2s
  cseen : t.cseen = s.cseen
  waiting : t.waiting = s.waiting
  opened : t.opened = s.opened

/-- What a step of the client leaves alone. -/
structure ServerSame (s t : Session) : Prop where
  scr : t.scr = s.scr
  scall : t.scall = s.scall
  s2c : t.s2c = s.s2c
  sseen : t.sseen = s.sseen
  queue : t.queue = s.queue
  held : t.held = s.held
  responding : t.responding = s.responding
  responses : t.responses = s.responses

section Moves

variable {cfg : Config} {s t : Session} {x x' y y' i : Nat} {p : Packet} {more : List Packet}

theorem numberOf_mono (hle : s.calls <+: t.calls) (hi : i ≤ s.calls.length) :
    t.numberOf cfg i = s.numberOf cfg i := by
  cases i with
  | zero => rfl
  | succ i =>
    obtain ⟨new, hnew⟩ := hle
    rw [Session.numberOf, Session.numberOf, ← hnew, List.getElem?_append_left hi]

theorem numberOf_congr (h : t.calls = s.calls) : t.numberOf cfg = s.numberOf cfg := by
  funext i
  cases i with
  | zero => rfl
  | succ i => rw [Session.numberOf, Session.numberOf, h]

theorem Moves.refl : Moves s t x x := ⟨Nat.le_refl x, fun _ => .inl rfl, .inl rfl⟩

/-- What is said of a client's record depends on the calls and the responses only. -/
theorem ClientAt.congr {c : CRecord} (h : ClientAt cfg s x y c) (hcalls : t.calls = s.calls)
    (hres : t.responses = s.responses) : ClientAt cfg t x y c := by
  have hans : AnswerOf t = AnswerOf s := by
    funext n m
    rw [AnswerOf, AnswerOf, hcalls, hres]
  refine ⟨h.state, ?_, ?_, h.acked, ?_⟩
  · rw [numberOf_congr hcalls]
    exact h.number
  · rw [hcalls]
    exact h.payload
  · rw [hans]
    exact h.assembles

theorem OfClient.mono (h : OfClient cfg s y p) (hle : s.calls <+: t.calls) (hy : y ≤ y') :
    OfClient cfg t y' p := by
  refine ⟨Nat.le_trans h.le hle.length_le, h.connected, h.connect, fun hc => ?_, h.last⟩
  obtain ⟨h1, hn, hf⟩ := h.query hc
  rw [numberOf_mono hle h.le]
  exact ⟨h1, hn, fun hne => Nat.le_trans (hf hne) hy⟩

theorem OfServer.mono (h : OfServer cfg s x p) (hle : s.calls <+: t.calls)
    (hres : s.responses <+: t.responses) (hx : x ≤ x') : OfServer cfg t x' p := by
  refine ⟨Nat.le_trans h.le hle.length_le, h.connected, h.cack, h.qack, fun hc => ?_⟩
  obtain ⟨hn, hf, a, ha, hcarries⟩ := h.data hc
  rw [numberOf_mono hle h.le]
  exact ⟨hn, fun hne => Nat.le_trans (hf hne) hx, a, hres.subset ha, hcarries⟩

theorem SendingAt.congr {ws : List Thread} (h : SendingAt cfg s x ws)
    (hnum : t.numberOf cfg = s.numberOf cfg) : SendingAt cfg t x ws := by
  refine ⟨fun v q rsize n k nf hm => ?_, h.one⟩
  rw [hnum]
  exact h.thread v q rsize n k nf hm

/-- The calls of the server's side are calls of the client. -/
theorem Lockstep.call_le (h : Lockstep cfg s x y) : y / 8 ≤ s.calls.length :=
  h.client.calls ▸ server_le_client h.logs.ahead

/-- **The client moves on** from `x` to `x'`. -/
theorem Logs.client_moves (h : Logs s x y) (hsame : ServerSame s t)
    (hc2s : t.c2s = s.c2s ++ more) (hle : x ≤ x')
    (hmore : ∀ p ∈ more, ∀ n, p.rank clientPhase = some n → n = x')
    (hseen : Undelivered (Packet.rank serverPhase) s.s2c t.cseen (clientFloor x'))
    (hback : clientFloor x' ≤ y) : Logs t x' y := by
  refine ⟨?_, ?_, ?_, ?_, hback, Nat.le_trans h.ahead hle⟩
  · rw [hc2s]
    exact h.c2s.append hle hmore
  · rw [hsame.s2c]
    exact h.s2c
  · rw [hsame.s2c]
    exact hseen
  · rw [hc2s, hsame.sseen]
    refine h.server.append fun p hp n hn => ?_
    rw [hmore p hp n hn]
    exact Nat.le_trans h.ahead hle

/-- **The server moves on** from `y` to `y'`. -/
theorem Logs.server_moves (h : Logs s x y) (hsame : ClientSame s t)
    (hs2c : t.s2c = s.s2c ++ more) (hle : y ≤ y')
    (hmore : ∀ p ∈ more, ∀ n, p.rank serverPhase = some n → n = y')
    (hseen : Undelivered (Packet.rank clientPhase) s.c2s t.sseen (serverFloor y'))
    (hahead : serverFloor y' ≤ x) : Logs t x y' := by
  refine ⟨?_, ?_, ?_, ?_, Nat.le_trans h.behind hle, hahead⟩
  · rw [hsame.c2s]
    exact h.c2s
  · rw [hs2c]
    exact h.s2c.append hle hmore
  · rw [hs2c, hsame.cseen]
    refine h.client.append fun p hp n hn => ?_
    rw [hmore p hp n hn]
    exact Nat.le_trans h.behind hle
  · rw [hsame.c2s]
    exact hseen

/-- The server's side while the client moves on. -/
theorem Lockstep.server_kept (h : Lockstep cfg s x y) (hsame : ServerSame s t)
    (hcalls : s.calls <+: t.calls) (hle : x ≤ x') : ServerSide cfg t x' y := by
  have hnum : ∀ i, i ≤ y / 8 → t.numberOf cfg i = s.numberOf cfg i := fun i hi =>
    numberOf_mono hcalls (Nat.le_trans hi h.call_le)
  obtain ⟨hscr, hscall, hs2c, -, hqueue, hheld, hresponding, hresponses⟩ := hsame
  refine ⟨hscall ▸ h.server.call, fun c hc => ?_, fun p hp => ?_, fun e he => ?_, ?_,
    fun w hw => ?_, hresponding ▸ h.server.busy, fun a ha => ?_, hresponses ▸ h.server.unique⟩
  · obtain ⟨hst, hn, hp, hack, hresp⟩ := h.server.record c (hscr ▸ hc)
    refine ⟨hst, ?_, hp, fun hf => Nat.le_trans (hack hf) hle, hresp⟩
    rw [hnum _ (Nat.le_refl _)]
    exact hn
  · exact (h.server.s2c p (hs2c ▸ hp)).mono hcalls (hresponses ▸ List.prefix_rfl) hle
  · rw [hqueue, hheld] at he
    obtain ⟨hy, h1, hn⟩ := h.server.element e he
    refine ⟨hy, h1, ?_⟩
    rw [hnum _ (by omega)]
    exact hn
  · rw [hqueue, hheld]
    exact h.server.one
  · rw [WorkerAt, hresponses]
    exact h.server.worker w (hresponding ▸ hw)
  · obtain ⟨hy, h1, hs, hn⟩ := h.server.answer a (hresponses ▸ ha)
    refine ⟨hy, h1, hs, ?_⟩
    rw [hnum _ (by omega)]
    exact hn

/-- The client's side while the server moves on: an answer that is new is one to a query that the
client still waits for. -/
theorem Lockstep.client_kept (h : Lockstep cfg s x y) (hsame : ClientSame s t) (hle : y ≤ y')
    (hnew : ∀ a ∈ t.responses, a ∈ s.responses ∨ y = 8 * a.call + 2) : ClientSide cfg t x y' := by
  obtain ⟨hccr, hcfault, hcalls, hc2s, -, hwaiting, hopened⟩ := hsame
  have hpre : s.calls <+: t.calls := hcalls ▸ List.prefix_rfl
  have hnum : t.numberOf cfg = s.numberOf cfg := numberOf_congr hcalls
  refine ⟨hcalls ▸ h.client.calls, fun hcf c hc => ?_, fun p hp => ?_, ?_, ?_, ?_, ?_, ?_⟩
  · obtain ⟨hst, hn, hp, hack, hasm⟩ := h.client.record (hcfault ▸ hcf) c (hccr ▸ hc)
    refine ⟨hst, hnum ▸ hn, hcalls ▸ hp, fun hf => Nat.le_trans (hack hf) hle,
      fun hfack m hm => hasm hfack m ?_⟩
    obtain ⟨a, ha, hcall, hans⟩ := hm
    rw [hcalls] at hcall
    rcases hnew a ha with ha | hy
    · exact ⟨a, ha, hcall, hans⟩
    · rw [hfack] at hst
      have hx : x % 8 = 3 ∧ 8 ≤ x := hst
      have hcl := h.client.calls
      have hback := h.logs.behind
      rcases clientFloor_cases x with ⟨hx', hg⟩ | ⟨hx', hg⟩ | ⟨hx', hg⟩ <;> omega
  · exact (h.client.c2s p (hc2s ▸ hp)).mono hpre hle
  · rw [hnum, hcalls]
    exact h.client.differ
  · rw [hnum]
    exact h.client.small
  · rw [hnum]
    exact h.client.wrap
  · rw [hwaiting]
    exact h.client.sending.congr hnum
  · rw [hopened, hccr]
    exact h.client.unopened

end Moves

/-! ## Orderly steps -/

/-- A step over channels that keep their order: no datagram arrives after one that was sent
later.  One may be lost, and the last one that arrived may arrive again. -/
def KeepsOrder (s : Session) : Event → Prop
  | .crecv i _ => s.cseen ≤ i
  | .srecv i _ => s.sseen ≤ i
  | _ => True

/-- A query whose length leaves room for a fragment in 32 bits. -/
def ShortQuery (q : Bytes) : Prop := q.length + FR_SIZE < 4294967296

instance (q : Bytes) : Decidable (ShortQuery q) := inferInstanceAs (Decidable (_ < _))

/-- The client calls with a query of fewer than 2^32 - 1024 bytes. -/
def QueriesShort : Event → Prop
  | .call q _ => ShortQuery q
  | _ => True

/-- The channels keep their order, queries are short, responses can be sent, and the client stays
connected. -/
structure Orderly (s : Session) (a : Event) : Prop where
  order : KeepsOrder s a
  sendable : AnswersSendable a
  short : QueriesShort a
  connected : a ≠ .disconnect

end Hwdb.Rpc
