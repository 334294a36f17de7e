import Hwdb.Rpc.Lockstep

/-!
# The server in lockstep

What the server's side of `Lockstep` becomes in each step of the server: its reader, its timer, its
queue and the sections of `rpc_response`, on any number of workers.

* `ServerMove`, `Lockstep.server_moves` — a move of the server.
* `Lockstep.serves`, `Lockstep.srecv` — a datagram that arrives in order finds the server where it
  belongs.
* `Lockstep.answers` — the sections of `rpc_response`: the next piece of the response.
* `Lockstep.respond`, `Lockstep.wresume` — a worker starts, and goes on.
-/

set_option autoImplicit false

namespace Hwdb.Rpc

open Hwdb.Lib

/-! ## The server moves -/

/-- A move of the server from `y` to `y'`: what it has seen, what it sends and the record it
leaves. -/
structure ServerMove (cfg : Config) (s : Session) (x y y' seen : Nat) (sent : List Packet)
    (cr : Option CRecord) : Prop where
  le : y ≤ y'
  sent : ∀ q ∈ sent, OfServer cfg s x q ∧ ∀ n, q.rank serverPhase = some n → n = y'
  seen : Undelivered (Packet.rank clientPhase) s.c2s seen (serverFloor y')
  ahead : serverFloor y' ≤ x
  record : ∀ c, cr = some c → ServerAt cfg s x y' c

section Server

variable {cfg : Config} {s t : Session} {x y y' i : Nat} {p : Packet} {c c' : CRecord}
  {stale : Bytes}

theorem ServerAt.congr (h : ServerAt cfg s x y c) (hcalls : t.calls = s.calls) :
    ServerAt cfg t x y c := by
  refine ⟨h.state, ?_, h.payload, h.acked, h.assembling⟩
  rw [numberOf_congr hcalls]
  exact h.number

/-- **The server moves on** to `y'`, with the same responses. -/
theorem Lockstep.server_moves (h : Lockstep cfg s x y) {sent : List Packet}
    (hmove : ServerMove cfg s x y y' t.sseen sent t.scr) (hsame : ClientSame s t)
    (hcall : y' / 8 = t.scall) (hs2c : t.s2c = s.s2c ++ sent)
    (hresponses : t.responses = s.responses)
    (helement : ∀ e ∈ t.queue ++ t.held, ElementAt cfg s y' e)
    (hone : (t.queue ++ t.held).length ≤ 1) (hworker : ∀ w ∈ t.responding, WorkerAt s y' w)
    (hbusy : t.responding.length ≤ 1) : Lockstep cfg t x y' := by
  have hpre : s.calls <+: t.calls := hsame.calls ▸ List.prefix_rfl
  have hnum : t.numberOf cfg = s.numberOf cfg := numberOf_congr hsame.calls
  refine ⟨h.logs.server_moves hsame hs2c hmove.le (fun q hq => (hmove.sent q hq).2) hmove.seen
      hmove.ahead, h.client_kept hsame hmove.le fun a ha => .inl (hresponses ▸ ha),
    hcall, fun c hc => (hmove.record c hc).congr hsame.calls, fun q hq => ?_, fun e he => ?_, hone,
    fun w hw => ?_, hbusy, fun a ha => ?_, hresponses ▸ h.server.unique⟩
  · rw [hs2c] at hq
    have hof : OfServer cfg s x q :=
      (List.mem_append.mp hq).elim (h.server.s2c q) fun hq => (hmove.sent q hq).1
    exact hof.mono hpre (hresponses ▸ List.prefix_rfl) (Nat.le_refl x)
  · rw [ElementAt, hnum]
    exact helement e he
  · rw [WorkerAt, hresponses]
    exact hworker w hw
  · rw [hnum]
    obtain ⟨hy, h1, hs, hn⟩ := h.server.answer a (hresponses ▸ ha)
    exact ⟨Nat.le_trans hy hmove.le, h1, hs, hn⟩

/-- The server stays where it is. -/
theorem Lockstep.server_stays (h : Lockstep cfg s x y) {seen : Nat} {sent : List Packet}
    {cr : Option CRecord} (hseen : s.sseen ≤ seen)
    (hsent : ∀ q ∈ sent, OfServer cfg s x q ∧ ∀ n, q.rank serverPhase = some n → n = y)
    (hrec : ∀ c, cr = some c → ServerAt cfg s x y c) : ServerMove cfg s x y y seen sent cr :=
  ⟨Nat.le_refl y, hsent, h.logs.server.later hseen, h.logs.ahead, hrec⟩

/-! ## The reader -/

/-- A datagram of the client that arrives in order. -/
theorem Logs.reaches (h : Logs s x y) {n : Nat} (hp : s.c2s[i]? = some p) (hi : s.sseen ≤ i)
    (hn : p.rank clientPhase = some n) : serverFloor y ≤ n ∧ n ≤ x ∧
      Undelivered (Packet.rank clientPhase) s.c2s (max s.sseen i) n := by
  refine ⟨h.server.take hi hp hn, h.c2s.le (List.mem_of_getElem? hp) hn, ?_⟩
  exact (h.c2s.take hp hn).later (Nat.le_max_right ..)

/-- The record goes to another state and keeps everything else. -/
theorem ServerAt.setState {st : State} (h : ServerAt cfg s x y c) (hst : ServerIn y st)
    (hack : st = .fackReceived → y ≤ x) : ServerAt cfg s x y (crecordSetState c st) :=
  ⟨hst, h.number, h.payload, hack, h.assembling⟩

/-- An acknowledgement by the server. -/
theorem ofServer_ack {d : Received} {ack : Command} {fnum nfrags v : Nat}
    (hack : ack ∉ [.dack, .cack, .qack, .response, .fragment]) (hv : v ≤ s.calls.length) :
    OfServer cfg s x ⟨ackPayload d ack fnum nfrags, v⟩ := by
  have hc : (⟨ackPayload d ack fnum nfrags, v⟩ : Packet).command = some ack :=
    message_packet_command ..
  refine ⟨hv, fun h => ?_, fun h => ?_, fun h => ?_, fun h => ?_⟩
  all_goals
    rw [hc] at h
    simp_all

/-- A `QACK` belongs to a query. -/
theorem ofServer_qack {d : Received} {fnum nfrags v : Nat} (h1 : 1 ≤ v)
    (hv : v ≤ s.calls.length) : OfServer cfg s x ⟨ackPayload d .qack fnum nfrags, v⟩ := by
  have hc : (⟨ackPayload d .qack fnum nfrags, v⟩ : Packet).command = some .qack :=
    message_packet_command ..
  refine ⟨hv, fun h => ?_, fun h => ?_, fun _ => h1, fun h => ?_⟩
  · have h := hc.symm.trans h
    cases h
  · have h := hc.symm.trans h
    cases h
  · rcases h with h | h <;> have h := hc.symm.trans h <;> cases h

/-- The `CACK` comes before the calls. -/
theorem ofServer_cack {d : Received} (hn : d.seqno = wire cfg.seqno) :
    OfServer cfg s x ⟨ackPayload d .cack 1 1, 0⟩ := by
  have hc : (⟨ackPayload d .cack 1 1, 0⟩ : Packet).command = some .cack :=
    message_packet_command ..
  refine ⟨Nat.zero_le _, fun h => ?_, fun _ => ⟨rfl, ?_⟩, fun h => ?_, fun h => ?_⟩
  · have h := hc.symm.trans h
    cases h
  · refine (message_packet_seqno ..).trans ?_
    show d.seqno % 4294967296 = wire cfg.seqno
    rw [hn]
    exact Nat.mod_mod cfg.seqno 4294967296
  · have h := hc.symm.trans h
    cases h
  · rcases h with h | h <;> have h := hc.symm.trans h <;> cases h

/-- The record goes on to the call of the datagram. -/
theorem recvCall_fresh {d : Received} {call : Nat} (hc : s.scr = some c)
    (hn : c'.seqno ≠ c.seqno) (hcmd : d.command ≠ some .seqno) :
    s.recvCall (some c') d call = call := by
  simp [Session.recvCall, hc, hn, hcmd]

/-- The payload, sent again. -/
theorem Lockstep.server_resends (h : Lockstep cfg s x y) (hk : Kinds s) (hc : s.scr = some c) :
    OfServer cfg s x ⟨c.payload, s.scall⟩ ∧
      ∀ n, (⟨c.payload, s.scall⟩ : Packet).rank serverPhase = some n → n = y := by
  refine ⟨h.server.s2c _ (hk.spayload c hc), fun n hn => ?_⟩
  have hpay := (h.server.record c hc).payload
  rw [h.server.call] at hpay
  exact Option.some.inj (hn.symm.trans hpay)

/-- What the reader has been given is not of a call before the server's. -/
theorem Lockstep.fresh_call (h : Lockstep cfg s x y) (hp : s.c2s[i]? = some p)
    (hi : s.sseen ≤ i) {n : Nat} (hn : n = 1 ∨ n = 2)
    (hcmd : p.command = some .query ∨ p.command = some .fragment)
    (hrank : p.rank clientPhase = some (8 * p.call + n)) (hy : y % 8 = 4 ∨ y % 8 = 5)
    (hnumber : y % 8 ≠ 5 → p.seqno ≠ wire (s.numberOf cfg (y / 8))) : y / 8 < p.call := by
  obtain ⟨h1, h2, -⟩ := h.logs.reaches hp hi hrank
  have hwire := ((h.client.c2s p (List.mem_of_getElem? hp)).query hcmd).2.1
  by_contra hle
  rcases serverFloor_cases y with ⟨hy', hf⟩ | ⟨hy', hf⟩
  · -- a copy of the query that the server has answered has the server's number
    have hcall : p.call = y / 8 := by omega
    exact hnumber (by omega) (hcall ▸ hwire)
  · omega

/-- The server acknowledges what it has been given. -/
theorem serverMove_acknowledges {d : Received} {ack : Command} {fnum nfrags v n seen : Nat}
    {dest : Dest} (hle : y ≤ 8 * v + n) (hn : n < 8) (hphase : serverPhase ack = some n)
    (hof : OfServer cfg s x ⟨ackPayload d ack fnum nfrags, v⟩)
    (hseen : Undelivered (Packet.rank clientPhase) s.c2s seen (serverFloor (8 * v + n)))
    (hahead : serverFloor (8 * v + n) ≤ x) (hpay : c'.payload = ackPayload d ack fnum nfrags)
    (hst : ServerIn (8 * v + n) c'.state) (hnot : c'.state ≠ .fackReceived)
    (hnum : n ≠ 5 → c'.seqno = wire (s.numberOf cfg v)) (hstart : n = 5 → c'.seqno = SEQNO_START)
    (hresp : c'.resp.isSome → n = 1) :
    ServerMove cfg s x y (8 * v + n) seen
      (Session.packets v [⟨dest, ackPayload d ack fnum nfrags⟩]) (some c') := by
  refine ⟨hle, fun q hq => ?_, hseen, hahead, fun c hc => ?_⟩
  · rw [packets_ack hq]
    refine ⟨hof, fun m hm => ?_⟩
    rw [rank_ack hphase] at hm
    exact (Option.some.inj hm).symm
  · cases hc
    refine ⟨hst, ?_, ?_, fun hack => absurd hack hnot, fun hr => ?_⟩
    · rw [show (8 * v + n) % 8 = n by omega, show (8 * v + n) / 8 = v by omega]
      split
      · exact hstart ‹_›
      · exact hnum ‹_›
    · rw [hpay, rank_ack hphase]
      congr 1
      omega
    · rw [hresp hr]
      omega

/-- The query that a datagram brings to the queue. -/
def Brings (cfg : Config) (s : Session) (y y' : Nat) (d : Received) (call : Nat)
    (queued : Option Queued) : Prop :=
  (queued = none ∧ (y' = y ∨ y < 8 ∨ (y % 8 ≠ 2 ∧ y % 8 ≠ 3))) ∨
    (y % 8 ≠ 2 ∧ y % 8 ≠ 3 ∧ y' = 8 * call + 2 ∧ 1 ≤ call ∧
      d.seqno = wire (s.numberOf cfg call))

/-- **What the reader makes of a datagram** that arrives in order. -/
theorem Lockstep.serves (h : Lockstep cfg s x y) (hk : Kinds s) (hp : s.c2s[i]? = some p)
    (hi : s.sseen ≤ i) {cr : Option CRecord} {out : Outcome} (hcr : s.scr = cr)
    (hserves : Serves cfg.stable s.born (p.received stale) cr out) :
    ∃ y', ServerMove cfg s x y y' (max s.sseen i)
        (Session.packets (s.recvCall out.cr (p.received stale) p.call) out.sent) out.cr ∧
      s.recvCall out.cr (p.received stale) p.call = y' / 8 ∧
      Brings cfg s y y' (p.received stale) p.call out.queued := by
  have hin := List.mem_of_getElem? hp
  have hof := h.client.c2s p hin
  obtain ⟨hcommand, hseqno, -, -⟩ := received_whole (p := p) (hk.client p hin).whole stale
  have hlt := (p.received stale).seqno_lt
  have hcall := h.server.call
  have hle := h.call_le
  have hseen : s.sseen ≤ max s.sseen i := Nat.le_max_left ..
  have hat : ∀ c, cr = some c → ServerAt cfg s x y c := hcr ▸ h.server.record
  have hkept : ∀ c c' : CRecord, cr = some c → c'.seqno = c.seqno →
      s.recvCall (some c') (p.received stale) p.call = y / 8 := fun c c' hc hn =>
    (recvCall_eq (hcr.trans hc) hn _ _).trans hcall.symm
  cases hserves with
  | kept =>
    refine ⟨y, h.server_stays hseen (fun q hq => (by cases hq)) hat, ?_, .inl ⟨rfl, .inl rfl⟩⟩
    cases cr with
    | none => simp [Session.recvCall, hcr, hcall]
    | some c => exact hkept c c rfl rfl
  | failed =>
    refine ⟨y, h.server_stays hseen (fun q hq => (by cases hq)) hat, ?_, .inl ⟨rfl, .inl rfl⟩⟩
    cases cr with
    | none => simp [Session.recvCall, hcr, hcall]
    | some c => exact hkept c c rfl rfl
  | created sr hc =>
    obtain ⟨hzero, hwire⟩ := hof.connect (hcommand ▸ hc)
    obtain ⟨h1, h2, hlater⟩ := h.logs.reaches hp hi (rank_of_command (hcommand ▸ hc) rfl)
    rw [hzero] at h1 h2 hlater
    have hy : y ≤ 4 := by
      rcases serverFloor_cases y with ⟨hy', hf⟩ | ⟨hy', hf⟩ <;> omega
    have hnew : s.recvCall (some (crecordSetState (crecordSetService (acknowledge
        (crecordCreate s.born (p.received stale).seqno) (p.received stale) .cack 1 1) sr) .idle))
        (p.received stale) p.call = 0 := by
      simp [Session.recvCall, hcr]
    refine ⟨8 * 0 + 4, ?_, hnew.trans (by decide), .inl ⟨rfl, .inr (.inl (by omega))⟩⟩
    rw [show s.recvCall (Outcome.sendAndSet _ _).cr _ _ = 0 from hnew]
    refine serverMove_acknowledges hy (by decide) rfl (ofServer_cack (hseqno.trans hwire))
      (hlater.mono (by decide)) (Nat.le_trans (by decide) h2) ?_ (.inl rfl) (fun h => (by cases h))
      (fun _ => hseqno.trans hwire) (fun h => (by cases h)) (fun h => (by cases h))
    rfl
  | reconnected c sr hc hst =>
    have hscall := hkept c (crecordSetState (crecordSetService c sr) .idle) rfl rfl
    refine ⟨y, h.server_stays hseen (fun q hq => ?_) (fun c' hc' => ?_), hscall,
      .inl ⟨rfl, .inl rfl⟩⟩
    · obtain ⟨z, hz, rfl⟩ := mem_packets.mp hq
      rw [List.mem_singleton.mp hz]
      have hresends := h.server_resends hk hcr
      rw [← hcall, ← hscall] at hresends
      exact hresends
    · cases hc'
      have hidle := (hat c rfl).state
      rw [hst] at hidle
      exact ⟨hidle, (hat c rfl).number, (hat c rfl).payload, fun h => (by cases h),
        (hat c rfl).assembling⟩
  | queryWhole c sr hc hn hst =>
    have hy : y % 8 = 4 ∨ y % 8 = 5 := by
      have hstate := (hat c rfl).state
      rcases hst with hst | hst <;> rw [hst] at hstate
      · exact hstate
      · exact .inl hstate
    have hrank : p.rank clientPhase = some (8 * p.call + 2) := rank_of_command (hcommand ▸ hc) rfl
    obtain ⟨-, h2, hlater⟩ := h.logs.reaches hp hi hrank
    obtain ⟨h1, hwire, -⟩ := hof.query (.inl (hcommand ▸ hc))
    have hfresh := h.fresh_call hp hi (.inr rfl) (.inl (hcommand ▸ hc)) hrank hy fun h5 heq => by
      have hnum := (hat c rfl).number
      rw [if_neg h5, ← heq, ← hseqno, hn] at hnum
      omega
    have hscall : s.recvCall (some (queryTaken { c with seqno := (p.received stale).seqno }
        (p.received stale))) (p.received stale) p.call = p.call :=
      recvCall_fresh (hcr.trans rfl) (by show (p.received stale).seqno ≠ c.seqno; omega)
        (by rw [hc]; intro h; cases h)
    have hfloor : serverFloor (8 * p.call + 2) = 8 * p.call + 2 := by
      rcases serverFloor_cases (8 * p.call + 2) with ⟨hy', hf⟩ | ⟨hy', hf⟩ <;> omega
    refine ⟨8 * p.call + 2, ?_, hscall.trans (by omega),
      .inr ⟨by omega, by omega, rfl, h1, hseqno.trans hwire⟩⟩
    rw [show s.recvCall _ _ _ = _ from hscall]
    refine serverMove_acknowledges (by omega) (by decide) rfl (ofServer_qack h1 hof.le)
      (hfloor.symm ▸ hlater) (hfloor.symm ▸ h2) ?_ ?_ (fun h => (by cases h))
      (fun _ => hseqno.trans hwire) (fun h => (by cases h))
      fun hr => absurd ((hat c rfl).assembling hr) (by omega)
    · rw [queryTaken, setState_payload, acknowledge_payload]
    · show (8 * p.call + 2) % 8 = 2
      omega
  | queryLast c sr b hc hn hst =>
    have hy : y % 8 = 1 := by
      have hstate := (hat c rfl).state
      rw [hst] at hstate
      exact hstate
    obtain ⟨h1, h2, hlater⟩ := h.logs.reaches hp hi (rank_of_command (hcommand ▸ hc) rfl)
    obtain ⟨h1', hwire, -⟩ := hof.query (.inl (hcommand ▸ hc))
    have hu := rank_more (.inr rfl) hy h1 h2 h.logs.behind
    have hscall := hkept c (queryTaken { c with resp := none } (p.received stale)) rfl rfl
    rw [← hu] at hscall
    have hfloor : serverFloor (8 * p.call + 2) = 8 * p.call + 2 := by
      rcases serverFloor_cases (8 * p.call + 2) with ⟨hy', hf⟩ | ⟨hy', hf⟩ <;> omega
    refine ⟨8 * p.call + 2, ?_, hscall.trans (by omega),
      .inr ⟨by omega, by omega, rfl, h1', hseqno.trans hwire⟩⟩
    rw [show s.recvCall _ _ _ = _ from hscall]
    refine serverMove_acknowledges (by omega) (by decide) rfl (ofServer_qack h1' hof.le)
      (hfloor.symm ▸ hlater) (hfloor.symm ▸ h2) ?_ ?_ (fun h => (by cases h))
      (fun _ => hn.symm.trans (hseqno.trans hwire)) (fun h => (by cases h)) (fun h => (by cases h))
    · rw [queryTaken, setState_payload, acknowledge_payload]
    · show (8 * p.call + 2) % 8 = 2
      omega
  | resent c =>
    have hscall := hkept c (crecordSetState c c.state) rfl rfl
    refine ⟨y, h.server_stays hseen (fun q hq => ?_) (fun c' hc' => ?_), hscall,
      .inl ⟨rfl, .inl rfl⟩⟩
    · obtain ⟨z, hz, rfl⟩ := mem_packets.mp hq
      rw [List.mem_singleton.mp hz]
      have hresends := h.server_resends hk hcr
      rw [← hcall, ← hscall] at hresends
      exact hresends
    · cases hc'
      exact (hat c rfl).setState (hat c rfl).state (hat c rfl).acked
  | rack c hc hn =>
    obtain ⟨h1, h2, -⟩ := h.logs.reaches hp hi (rank_of_command (hcommand ▸ hc) rfl)
    have hy := rank_rack h1 h2 h.logs.behind
    refine ⟨y, h.server_stays hseen (fun q hq => (by cases hq)) (fun c' hc' => ?_),
      hkept c _ rfl rfl, .inl ⟨rfl, .inl rfl⟩⟩
    cases hc'
    exact (hat c rfl).setState (.inl (by omega)) (fun h => (by cases h))
  | disconnect cr hc => exact absurd (hcommand ▸ hc) hof.connected
  | fragmentFirst c b hc hn hst hone =>
    have hy : y % 8 = 4 ∨ y % 8 = 5 := by
      have hstate := (hat c rfl).state
      rcases hst with hst | hst <;> rw [hst] at hstate
      · exact hstate
      · exact .inl hstate
    have hrank : p.rank clientPhase = some (8 * p.call + 1) := rank_of_command (hcommand ▸ hc) rfl
    obtain ⟨-, h2, hlater⟩ := h.logs.reaches hp hi hrank
    obtain ⟨h1, hwire, -⟩ := hof.query (.inr (hcommand ▸ hc))
    have hfresh := h.fresh_call hp hi (.inl rfl) (.inr (hcommand ▸ hc)) hrank hy fun h5 heq => by
      have hnum := (hat c rfl).number
      rw [if_neg h5, ← heq, ← hseqno, hn] at hnum
      omega
    have hscall : s.recvCall (some (fragmentTaken
        { c with seqno := (p.received stale).seqno, resp := some b } (p.received stale)))
        (p.received stale) p.call = p.call :=
      recvCall_fresh (hcr.trans rfl) (by show (p.received stale).seqno ≠ c.seqno; omega)
        (by rw [hc]; intro h; cases h)
    have hfloor : serverFloor (8 * p.call + 1) = 8 * p.call + 1 := by
      rcases serverFloor_cases (8 * p.call + 1) with ⟨hy', hf⟩ | ⟨hy', hf⟩ <;> omega
    refine ⟨8 * p.call + 1, ?_, hscall.trans (by omega), .inl ⟨rfl, .inr (.inr (by omega))⟩⟩
    rw [show s.recvCall _ _ _ = _ from hscall]
    refine serverMove_acknowledges (by omega) (by decide) rfl (ofServer_ack (by decide) hof.le)
      (hfloor.symm ▸ hlater) (hfloor.symm ▸ h2) ?_ ?_ (fun h => (by cases h))
      (fun _ => hseqno.trans hwire) (fun h => (by cases h))
      fun _ => rfl
    · rw [fragmentTaken, setState_payload, acknowledge_payload]
    · show (8 * p.call + 1) % 8 = 1
      omega
  | fragmentNext c b hc hn hst =>
    have hy : y % 8 = 1 := by
      have hstate := (hat c rfl).state
      rw [hst] at hstate
      exact hstate
    have hscall := hkept c (fragmentTaken { c with resp := some b } (p.received stale)) rfl rfl
    refine ⟨y, h.server_stays hseen (fun q hq => ?_) (fun c' hc' => ?_), hscall,
      .inl ⟨rfl, .inl rfl⟩⟩
    · rw [packets_ack hq]
      refine ⟨ofServer_ack (by decide) (Nat.le_trans (Nat.le_of_eq hscall) hle), fun n hn => ?_⟩
      rw [rank_ack rfl, hscall] at hn
      have hn := Option.some.inj hn
      omega
    · cases hc'
      refine ⟨hy, (hat c rfl).number, ?_, (fun h => (by cases h)), fun _ => hy⟩
      rw [fragmentTaken, setState_payload, acknowledge_payload, rank_ack rfl]
      congr 1
      omega
  | fack c hc hn hst =>
    have hy : y % 8 = 3 := by
      have hstate := (hat c rfl).state
      rw [hst] at hstate
      exact hstate
    obtain ⟨h1, h2, -⟩ := h.logs.reaches hp hi (rank_of_command (hcommand ▸ hc) rfl)
    refine ⟨y, h.server_stays hseen (fun q hq => (by cases hq)) (fun c' hc' => ?_),
      hkept c _ rfl rfl, .inl ⟨rfl, .inl rfl⟩⟩
    cases hc'
    refine (hat c rfl).setState hy fun _ => ?_
    rcases serverFloor_cases y with ⟨hy', hf⟩ | ⟨hy', hf⟩ <;> omega
  | ping c hc =>
    have hscall := hkept c c rfl rfl
    refine ⟨y, h.server_stays hseen (fun q hq => ?_) hat, hscall, .inl ⟨rfl, .inl rfl⟩⟩
    rw [packets_ack hq]
    refine ⟨ofServer_ack (by decide) (Nat.le_trans (Nat.le_of_eq hscall) hle), fun n hn => ?_⟩
    cases hn.symm.trans (rank_ack_none rfl)
  | pack c =>
    refine ⟨y, h.server_stays hseen (fun q hq => (by cases hq)) (fun c' hc' => ?_),
      hkept c _ rfl rfl, .inl ⟨rfl, .inl rfl⟩⟩
    cases hc'
    exact (hat c rfl).setState (hat c rfl).state (hat c rfl).acked
  | seqno c hc hst =>
    have hy : y % 8 = 4 ∨ y % 8 = 5 := by
      have hstate := (hat c rfl).state
      rcases hst with hst | hst <;> rw [hst] at hstate
      · exact hstate
      · exact .inl hstate
    obtain ⟨h1, h2, hlater⟩ := h.logs.reaches hp hi (rank_of_command (hcommand ▸ hc) rfl)
    have hscall : s.recvCall (Outcome.sendAndSet
        { acknowledge c (p.received stale) .sack 1 1 with seqno := (p.received stale).seqno }
        .idle).cr (p.received stale) p.call = y / 8 := by
      simp [Session.recvCall, Outcome.sendAndSet, hcr, hc, hcall]
    have hfloor : serverFloor (8 * (y / 8) + 5) = 8 * (y / 8) + 5 := by
      rcases serverFloor_cases (8 * (y / 8) + 5) with ⟨hy', hf⟩ | ⟨hy', hf⟩ <;> omega
    have hto : 8 * (y / 8) + 5 ≤ 8 * p.call + 5 := by
      rcases serverFloor_cases y with ⟨hy', hf⟩ | ⟨hy', hf⟩ <;> omega
    refine ⟨8 * (y / 8) + 5, ?_, hscall.trans (by omega), .inl ⟨rfl, .inr (.inr (by omega))⟩⟩
    rw [show s.recvCall _ _ _ = _ from hscall]
    refine serverMove_acknowledges (by omega) (by decide) rfl (ofServer_ack (by decide) hle)
      (hfloor.symm ▸ hlater.mono hto) (hfloor.symm ▸ Nat.le_trans hto h2) ?_ ?_
      (fun h => (by cases h)) (fun h5 => absurd rfl h5)
      (fun _ => hseqno.trans ((hk.client p hin).seqno_start (hcommand ▸ hc)))
      fun hr => absurd ((hat c rfl).assembling hr) (by omega)
    · exact acknowledge_payload c ..
    · exact .inr (by omega)

/-- No query waits, and no worker sends, where the server is not at a query. -/
theorem Lockstep.no_element (h : Lockstep cfg s x y) (hy : y < 8 ∨ y % 8 ≠ 2) :
    s.queue ++ s.held = [] := by
  refine List.eq_nil_iff_forall_not_mem.mpr fun e he => ?_
  obtain ⟨hy', h1, -⟩ := h.server.element e he
  omega

theorem Lockstep.no_worker (h : Lockstep cfg s x y) (hy : y < 8 ∨ y % 8 ≠ 3) :
    s.responding = [] := by
  refine List.eq_nil_iff_forall_not_mem.mpr fun w hw => ?_
  obtain ⟨hy', h1, -⟩ := h.server.worker w hw
  omega

/-- **The reader of the server** stays in lockstep. -/
theorem Lockstep.srecv (h : Lockstep cfg s x y) (hk : Kinds s) (hr : Roles s)
    (hp : s.c2s[i]? = some p) (hi : s.sseen ≤ i) (stale : Bytes) :
    ∃ y', y ≤ y' ∧ Lockstep cfg (s.serverRecv cfg i p.call (p.received stale)) x y' := by
  have hserves : Serves cfg.stable s.born (p.received stale) s.scr _ :=
    hr.serves hk (List.mem_of_getElem? hp) stale
  obtain ⟨y', hmove, hcall, hbrings⟩ := h.serves hk hp hi rfl hserves
  generalize hout : readerSwitch cfg.stable s.born s.scr (p.received stale) = out at *
  have hstep : ∀ t, t = s.serverRecv cfg i p.call (p.received stale) →
      t.scr = out.cr ∧ t.scall = y' / 8 ∧ t.s2c = s.s2c ++ Session.packets
        (s.recvCall out.cr (p.received stale) p.call) out.sent ∧
      ∃ born, t.queue = s.queue ++ out.queued.toList.map fun q =>
        ⟨born, (p.received stale).seqno, p.call, q.buf, q.size⟩ := by
    rintro t rfl
    rw [← hcall, ← hout]
    exact ⟨rfl, rfl, rfl, _, rfl⟩
  obtain ⟨hscr, hscall, hs2c, born, hqueue⟩ := hstep _ rfl
  have hmove' : ServerMove cfg s x y y' (s.serverRecv cfg i p.call (p.received stale)).sseen
      (Session.packets (s.recvCall out.cr (p.received stale) p.call) out.sent)
      (s.serverRecv cfg i p.call (p.received stale)).scr := by
    rw [hscr]
    exact hmove
  refine ⟨y', hmove.le,
    h.server_moves hmove' ⟨rfl, rfl, rfl, rfl, rfl, rfl, rfl⟩ hscall.symm hs2c rfl
    (fun e he => ?_) ?_ (fun w hw => ?_) h.server.busy⟩
  · have he : e ∈ (s.serverRecv cfg i p.call (p.received stale)).queue ++ s.held := he
    rw [hqueue] at he
    rcases hbrings with ⟨hnone, hy⟩ | ⟨h2, h3, hy', h1, hn⟩
    · rw [hnone] at he
      have he : e ∈ s.queue ++ s.held := by simpa using he
      rcases hy with rfl | hy
      · exact h.server.element e he
      · rw [h.no_element (by omega)] at he
        cases he
    · obtain ⟨hq, hh⟩ := List.append_eq_nil_iff.mp (h.no_element (.inr h2))
      rw [hq, hh, List.nil_append, List.append_nil] at he
      obtain ⟨q, -, rfl⟩ := List.mem_map.mp he
      exact ⟨hy', h1, hn⟩
  · show ((s.serverRecv cfg i p.call (p.received stale)).queue ++ s.held).length ≤ 1
    rw [hqueue]
    rcases hbrings with ⟨hnone, hy⟩ | ⟨h2, -⟩
    · rw [hnone]
      simpa using h.server.one
    · obtain ⟨hq, hh⟩ := List.append_eq_nil_iff.mp (h.no_element (.inr h2))
      rw [hq, hh, List.nil_append, List.append_nil, List.length_map]
      cases out.queued <;> simp
  · have hw : w ∈ s.responding := hw
    rcases hbrings with ⟨-, rfl | hy⟩ | ⟨-, h3, -⟩
    · exact h.server.worker w hw
    · rw [h.no_worker (by omega)] at hw
      cases hw
    · rw [h.no_worker (.inr h3)] at hw
      cases hw

/-! ## The timer and the queue -/

/-- **The server's timer.** -/
theorem Lockstep.stick (h : Lockstep cfg s x y) (hk : Kinds s) (hc : s.scr = some c) :
    Lockstep cfg (s.serverTick cfg c) x y := by
  have htick := timerRecord_cases cfg.subport c
  have hat := h.server.record c hc
  refine h.server_moves (h.server_stays (Nat.le_refl _) (fun p hp => ?_) fun c' hc' => ?_)
    ⟨rfl, rfl, rfl, rfl, rfl, rfl, rfl⟩ h.server.call rfl rfl h.server.element h.server.one
    h.server.worker h.server.busy
  · obtain ⟨z, hz, rfl⟩ := mem_packets.mp hp
    rcases htick.sends hz with hb | hb <;> rw [hb]
    · exact h.server_resends hk hc
    · have hcmd : (⟨controlPayload (cpComplete cfg.subport .ping c.seqno 1 1), s.scall⟩ :
          Packet).command = some .ping := message_packet_command ..
      refine ⟨⟨h.server.call ▸ h.call_le, fun hd => ?_, fun hd => ?_, fun hd => ?_, fun hd => ?_⟩,
        fun n hn => ?_⟩
      · cases hcmd.symm.trans hd
      · cases hcmd.symm.trans hd
      · cases hcmd.symm.trans hd
      · rcases hd with hd | hd <;> cases hcmd.symm.trans hd
      · cases hn.symm.trans (rank_none hcmd rfl)
  · obtain ⟨hseqno, -, hresp, -⟩ := htick.kept hc'
    refine ⟨?_, hseqno.trans hat.number, ?_, fun hack => ?_, hresp ▸ hat.assembling⟩
    · rcases htick.state hc' with hto | hsame
      · rw [hto]
        trivial
      · rw [hsame]
        exact hat.state
    · rw [htick.payload.1 c' hc']
      exact hat.payload
    · rcases htick.state hc' with hto | hsame
      · cases hto.symm.trans hack
      · exact hat.acked (hsame.symm.trans hack)

/-- The server has done nothing to its record or its channel, and no query or worker is new. -/
theorem Lockstep.server_quiet (h : Lockstep cfg s x y) (hsame : ClientSame s t)
    (hscr : t.scr = s.scr) (hscall : t.scall = s.scall) (hs2c : t.s2c = s.s2c)
    (hseen : t.sseen = s.sseen) (hresponses : t.responses = s.responses)
    (helement : (t.queue ++ t.held).Sublist (s.queue ++ s.held))
    (hworker : t.responding.Sublist s.responding) : Lockstep cfg t x y := by
  have hnil : t.s2c = s.s2c ++ [] := by rw [hs2c, List.append_nil]
  refine h.server_moves (h.server_stays (Nat.le_of_eq hseen.symm) (fun q hq => ?_)
      (hscr ▸ h.server.record)) hsame (hscall ▸ h.server.call) hnil hresponses
    (fun e he => h.server.element e (helement.subset he))
    (Nat.le_trans helement.length_le h.server.one)
    (fun w hw => h.server.worker w (hworker.subset hw))
    (Nat.le_trans hworker.length_le h.server.busy)
  cases hq

/-- **`rpc_query`.** -/
theorem Lockstep.fetches (h : Lockstep cfg s x y) {e : Element} {queue : List Element}
    (hq : s.queue = e :: queue) (len : Nat) : Lockstep cfg (s.serverQuery e queue len) x y := by
  have hnil : s.s2c = s.s2c ++ [] := (List.append_nil _).symm
  refine h.server_moves (h.server_stays (Nat.le_refl _) (fun q hq => ?_) h.server.record)
    ⟨rfl, rfl, rfl, rfl, rfl, rfl, rfl⟩ h.server.call hnil rfl (fun e' he' => ?_) ?_ h.server.worker
    h.server.busy
  · cases hq
  · have he' : e' ∈ queue ++ (s.held ++ [e]) := he'
    refine h.server.element e' ?_
    rw [hq]
    simp only [List.mem_append, List.mem_cons, List.not_mem_nil, or_false] at he' ⊢
    tauto
  · have hone := h.server.one
    rw [hq] at hone
    show (queue ++ (s.held ++ [e])).length ≤ 1
    simp only [List.length_append, List.length_cons, List.length_nil] at hone ⊢
    omega

/-! ## The sections of `rpc_response` -/

end Server

/-- A section that sends fragment `k` of `nf` as a `FRAGMENT` or a `RESPONSE`. -/
structure AnswersPiece (sp : Nat) (r : Bytes) (c : CRecord) (w : Option (Nat × Nat)) (k nf : Nat)
    (st : ResponseStep) (cmd : Command) : Prop where
  answers : Answers r c w k nf
  seqno : st.cr.seqno = c.seqno
  resp : st.cr.resp = c.resp
  goes : (cmd = .fragment ∧ st.cr.state = .fragmentSent ∧ st.wait = some (k, nf)) ∨
    (cmd = .response ∧ st.cr.state = .responseSent ∧ st.wait = none)
  payload : ∃ rest, st.cr.payload = message (cpComplete sp cmd c.seqno k nf) rest
  sent : ∃ dest, st.sent = [⟨dest, st.cr.payload⟩]

/-- A section on record `c` leads from `s` to `t`; `a` is what the worker answers to `e`. -/
structure AnswerTo (s t : Session) (e : Element) (rb : Bytes) (st : ResponseStep) : Prop where
  same : ClientSame s t
  scr : t.scr = some st.cr
  scall : t.scall = s.scall
  s2c : t.s2c = s.s2c ++ Session.packets s.scall st.sent
  seen : t.sseen = s.sseen
  empty : st.sent ≠ [] → t.queue ++ t.held = []
  worker : st.sent ≠ [] → ∃ born,
    t.responding = (st.wait.map fun w => (⟨e, born, rb, w.1, w.2⟩ : Responding)).toList

section Responses

variable {cfg : Config} {s t : Session} {x y u k nf i : Nat} {rb : Bytes} {c : CRecord}
  {w : Option (Nat × Nat)} {st : ResponseStep} {e : Element} {cmd : Command}

theorem ResponseSection.piece {sp : Nat} (h : ResponseSection 0 sp rb c w st) :
    (st.sent = [] ∧ st.wait = none ∧ st.cr = c) ∨
      ∃ k nf cmd, AnswersPiece sp rb c w k nf st cmd := by
  cases h with
  | refused => exact .inl ⟨rfl, rfl, rfl⟩
  | timedout => exact .inl ⟨rfl, rfl, rfl⟩
  | undefined => exact .inl ⟨rfl, rfl, rfl⟩
  | @fragment _ k nf ha hlt buf hbuf =>
    obtain ⟨rest, hrest⟩ := fragmentPayload_shape hbuf
    have hpay : (crecordSetState (crecordSetPayload { c with lastFrag := k } buf buf.length ATTEMPTS
        TICKS) .fragmentSent).payload = buf := List.take_length ..
    exact .inr ⟨k, nf, .fragment, ha, rfl, rfl, .inl ⟨rfl, rfl, rfl⟩, ⟨rest, hpay.trans hrest⟩, _,
      by rw [hpay]⟩
  | @response _ k nf ha hge buf hbuf =>
    obtain ⟨rest, hrest⟩ := lastPayload_shape hbuf
    have hpay : (crecordSetState (crecordSetPayload c buf buf.length ATTEMPTS TICKS)
        .responseSent).payload = buf := List.take_length ..
    exact .inr ⟨k, nf, .response, ha, rfl, rfl, .inr ⟨rfl, rfl, rfl⟩, ⟨rest, hpay.trans hrest⟩, _,
      by rw [hpay]⟩

/-- The command and the state have the same phase. -/
theorem AnswersPiece.phase {sp : Nat} (h : AnswersPiece sp rb c w k nf st cmd) :
    ∃ m, serverPhase cmd = some m ∧ (m = 3 ∨ m = 4) ∧ (∀ y, y % 8 = m → ServerIn y st.cr.state) ∧
      st.cr.state ≠ .fackReceived ∧ (cmd = .response ∨ cmd = .fragment) ∧
      (st.wait ≠ none → m = 3) := by
  rcases h.goes with ⟨rfl, hst, hwait⟩ | ⟨rfl, hst, hwait⟩ <;> rw [hst, hwait]
  · exact ⟨3, rfl, .inl rfl, fun y hy => hy, nofun, .inr rfl, fun _ => rfl⟩
  · exact ⟨4, rfl, .inr rfl, fun y hy => hy, nofun, .inl rfl, fun h => absurd rfl h⟩

/-- **A worker sends a piece of its response** to the query that the server is at. -/
theorem Lockstep.answers (h : Lockstep cfg s x y) (hc : s.scr = some c)
    (hsection : ResponseSection 0 cfg.subport rb c w st) (hrb : Sendable rb)
    (hw : ∀ j n, w = some (j, n) → n = pieces rb ∧ j < n)
    (hpiece : AnswersPiece cfg.subport rb c w k nf st cmd) (ht : AnswerTo s t e rb st)
    (he : e.call = s.scall) (h1 : 1 ≤ e.call)
    (hy : (y % 8 = 2 ∧ w = none) ∨ (y % 8 = 3 ∧ y ≤ x)) {more : List Responded}
    (hresponses : t.responses = s.responses ++ more)
    (hmore : ∀ a ∈ more, a = ⟨e.call, e.number, rb⟩ ∧ y % 8 = 2 ∧
      e.number = wire (s.numberOf cfg e.call))
    (hanswer : ∃ a ∈ t.responses, a.call = e.call ∧ a.number = wire (s.numberOf cfg e.call) ∧
      a.rb = rb) : ∃ y', y ≤ y' ∧ Lockstep cfg t x y' := by
  have hcall := h.server.call
  have hat := h.server.record c hc
  have hpre : s.calls <+: t.calls := ht.same.calls ▸ List.prefix_rfl
  have hnum : t.numberOf cfg = s.numberOf cfg := numberOf_congr ht.same.calls
  have hseqno : c.seqno = wire (s.numberOf cfg e.call) := by
    rw [hat.number, if_neg (by omega), show y / 8 = e.call by omega]
  have hwire : c.seqno % 4294967296 = c.seqno := by
    rw [hseqno]
    exact Nat.mod_mod _ _
  obtain ⟨m, hphase, hm, hin, hnot, hcmd, hwait⟩ := hpiece.phase
  obtain ⟨rest, hpay⟩ := hpiece.payload
  obtain ⟨dest, hsent⟩ := hpiece.sent
  have hne : st.sent ≠ [] := by
    rw [hsent]
    exact List.cons_ne_nil _ _
  obtain ⟨born, hresponding⟩ := ht.worker hne
  have hnil := ht.empty hne
  have hpc : (⟨st.cr.payload, s.scall⟩ : Packet).command = some cmd := by
    rw [hpay]
    exact message_packet_command ..
  have hpn : (⟨st.cr.payload, s.scall⟩ : Packet).seqno = c.seqno := by
    rw [hpay]
    exact (message_packet_seqno ..).trans hwire
  have hrank : (⟨st.cr.payload, s.scall⟩ : Packet).rank serverPhase = some (8 * e.call + m) := by
    rw [he]
    exact rank_of_command hpc hphase
  have hcarries : Carries cfg.subport .response c.seqno rb st.cr.payload :=
    hsection.carries hrb hw (hsent ▸ List.mem_singleton.mpr rfl)
  have hof : OfServer cfg t x ⟨st.cr.payload, s.scall⟩ := by
    refine ⟨?_, fun hd => ?_, fun hd => ?_, fun hd => ?_, fun _ => ⟨?_, fun hf => ?_, ?_⟩⟩
    · rw [ht.same.calls]
      exact hcall ▸ h.call_le
    · rw [hpc] at hd
      rcases hcmd with rfl | rfl <;> cases hd
    · rw [hpc] at hd
      rcases hcmd with rfl | rfl <;> cases hd
    · rw [hpc] at hd
      rcases hcmd with rfl | rfl <;> cases hd
    · rw [hpn, hnum, hseqno, he]
    · -- the first piece is number 1, and every other one follows an acknowledgement
      rcases hy with ⟨-, hnone⟩ | ⟨hy, hle⟩
      · refine absurd ?_ hf
        subst hnone
        cases hpiece.answers
        rw [hpay]
        exact message_packet_fnum ..
      · show 8 * s.scall + 3 ≤ x
        omega
    · obtain ⟨a, ha, hacall, hanumber, harb⟩ := hanswer
      refine ⟨a, ha, hacall.trans he, hanumber.trans (hseqno.symm.trans hpn.symm), ?_⟩
      rw [hpn, harb]
      exact hcarries
  have hpackets : ∀ q ∈ Session.packets s.scall st.sent, q = ⟨st.cr.payload, s.scall⟩ := by
    intro q hq
    rw [hsent] at hq
    obtain ⟨z, hz, rfl⟩ := mem_packets.mp hq
    rw [List.mem_singleton.mp hz]
  have hfloor : serverFloor (8 * e.call + m) = serverFloor y := by
    rcases serverFloor_cases y with ⟨hy', hf⟩ | ⟨hy', hf⟩ <;>
      rcases serverFloor_cases (8 * e.call + m) with ⟨hy'', hf'⟩ | ⟨hy'', hf'⟩ <;> omega
  refine ⟨8 * e.call + m, by omega, h.logs.server_moves ht.same ht.s2c (by omega)
      (fun q hq n hn => ?_) ?_ ?_, h.client_kept ht.same (by omega) fun a ha => ?_,
    ⟨?_, fun c' hc' => ?_, fun q hq => ?_, fun e' he' => ?_, ?_, fun v hv => ?_, ?_, fun a ha => ?_,
      fun a ha b hb hab => ?_⟩⟩
  · rw [hpackets q hq] at hn
    exact Option.some.inj (hn.symm.trans hrank)
  · rw [hfloor, ht.seen]
    exact h.logs.server
  · rw [hfloor]
    exact h.logs.ahead
  · rw [hresponses] at ha
    refine (List.mem_append.mp ha).imp id fun ha => ?_
    obtain ⟨rfl, hy2, -⟩ := hmore a ha
    show y = 8 * e.call + 2
    omega
  · rw [ht.scall]
    omega
  · rw [ht.scr] at hc'
    cases hc'
    refine ⟨hin _ (by omega), ?_, ?_, fun hack => absurd hack hnot, fun hr => ?_⟩
    · rw [hpiece.seqno, hnum, if_neg (by omega), show (8 * e.call + m) / 8 = e.call by omega]
      exact hseqno
    · rw [show (8 * e.call + m) / 8 = s.scall by omega]
      exact hrank
    · -- a query has come whole before it is answered
      have hone := hat.assembling (hpiece.resp ▸ hr)
      omega
  · rw [ht.s2c] at hq
    rcases List.mem_append.mp hq with hq | hq
    · exact (h.server.s2c q hq).mono hpre (hresponses ▸ List.prefix_append _ _) (Nat.le_refl x)
    · rw [hpackets q hq]
      exact hof
  · rw [hnil] at he'
    cases he'
  · rw [hnil]
    exact Nat.zero_le 1
  · rw [hresponding] at hv
    cases hst : st.wait with
    | none =>
      rw [hst] at hv
      cases hv
    | some kn =>
      obtain ⟨k', nf'⟩ := kn
      rw [hst] at hv
      obtain rfl := List.mem_singleton.mp hv
      obtain ⟨hnf, -, hlt, -⟩ := hsection.waits hrb hw hst
      obtain ⟨a, ha, hacall, -, harb⟩ := hanswer
      have hm3 := hwait (by rw [hst]; exact Option.some_ne_none _)
      exact ⟨by rw [hm3], h1, hnf, hlt, a, ha, hacall, harb⟩
  · rw [hresponding]
    cases st.wait with
    | none => exact Nat.zero_le 1
    | some _ => exact Nat.le_refl 1
  · rw [hnum]
    rw [hresponses] at ha
    rcases List.mem_append.mp ha with ha | ha
    · obtain ⟨hya, ha1, hs, hn⟩ := h.server.answer a ha
      exact ⟨by omega, ha1, hs, hn⟩
    · obtain ⟨rfl, -, hn⟩ := hmore a ha
      exact ⟨by show 8 * e.call + 3 ≤ _; omega, h1, hrb, hn⟩
  · -- an answer that is new is the first one to its query
    rw [hresponses] at ha hb
    rcases List.mem_append.mp ha with ha | ha <;> rcases List.mem_append.mp hb with hb | hb
    · exact h.server.unique a ha b hb hab
    · obtain ⟨rfl, hy2, -⟩ := hmore b hb
      have hya := (h.server.answer a ha).1
      have hab : a.call = e.call := hab
      omega
    · obtain ⟨rfl, hy2, -⟩ := hmore a ha
      have hyb := (h.server.answer b hb).1
      have hab : e.call = b.call := hab
      omega
    · rw [(hmore a ha).1, (hmore b hb).1]

/-- A worker that does not send leaves the queue, or its connection, as it is. -/
theorem Lockstep.answers_nothing (h : Lockstep cfg s x y) (hc : s.scr = some c)
    (ht : AnswerTo s t e rb st) (hsent : st.sent = []) (hcr : st.cr = c)
    (hresponses : t.responses = s.responses)
    (helement : (t.queue ++ t.held).Sublist (s.queue ++ s.held))
    (hworker : t.responding.Sublist s.responding) : Lockstep cfg t x y := by
  have hs2c := ht.s2c
  rw [hsent] at hs2c
  exact h.server_quiet ht.same (ht.scr.trans (hcr ▸ hc.symm)) ht.scall
    (hs2c.trans (List.append_nil _)) ht.seen hresponses helement hworker

/-- The only query is the one that a worker takes up. -/
theorem Lockstep.only_element (h : Lockstep cfg s x y) (hi : s.held[i]? = some e) :
    s.queue = [] ∧ s.held.eraseIdx i = [] := by
  have hlt := (List.getElem?_eq_some_iff.mp hi).1
  have hone := h.server.one
  rw [List.length_append] at hone
  have herase := List.length_eraseIdx_of_lt hlt
  exact ⟨List.eq_nil_of_length_eq_zero (by omega), List.eq_nil_of_length_eq_zero (by omega)⟩

theorem Lockstep.only_worker (h : Lockstep cfg s x y) {v : Responding}
    (hi : s.responding[i]? = some v) : s.responding.eraseIdx i = [] := by
  have hlt := (List.getElem?_eq_some_iff.mp hi).1
  have hone := h.server.busy
  have herase := List.length_eraseIdx_of_lt hlt
  exact List.eq_nil_of_length_eq_zero (by omega)

/-- **`rpc_response` to a query.** -/
theorem Lockstep.respond (h : Lockstep cfg s x y) (hrb : Sendable rb)
    (hi : s.held[i]? = some e) (hc : s.scr = some c) :
    ∃ y', y ≤ y' ∧ Lockstep cfg
      { { s with held := s.held.eraseIdx i }.serverSection e rb
          (rpcResponseBegin 0 cfg.subport c rb) with
        responses := s.responses ++
          if (rpcResponseBegin 0 cfg.subport c rb).sent ≠ [] then [⟨e.call, e.number, rb⟩] else [] }
      x y' := by
  have hsection := rpcResponseBegin_section 0 cfg.subport rb c
  generalize rpcResponseBegin 0 cfg.subport c rb = st at hsection
  obtain ⟨hye, h1, hn⟩ := h.server.element e (List.mem_append_right _ (List.mem_of_getElem? hi))
  obtain ⟨hqueue, hheld⟩ := h.only_element hi
  have hcall := h.server.call
  have hnoworker := h.no_worker (.inr (by omega))
  have ht : AnswerTo s { { s with held := s.held.eraseIdx i }.serverSection e rb st with
      responses := s.responses ++ if st.sent ≠ [] then [⟨e.call, e.number, rb⟩] else [] } e rb st :=
    ⟨⟨rfl, rfl, rfl, rfl, rfl, rfl, rfl⟩, rfl, rfl, rfl, rfl,
      fun _ => List.append_eq_nil_iff.mpr ⟨hqueue, hheld⟩, fun _ => ⟨s.born, by
        show s.responding ++ _ = _
        rw [hnoworker]
        rfl⟩⟩
  rcases hsection.piece with ⟨hsent, hwait, hcr⟩ | ⟨k, nf, cmd, hpiece⟩
  · refine ⟨y, Nat.le_refl y, h.answers_nothing hc ht hsent hcr ?_ ?_ ?_⟩
    · simp [hsent]
    · exact (List.Sublist.refl s.queue).append (List.eraseIdx_sublist ..)
    · show (s.responding ++ _).Sublist s.responding
      rw [hwait]
      exact (List.append_nil s.responding).symm ▸ List.Sublist.refl _
  · obtain ⟨dest, hsent⟩ := hpiece.sent
    have hne : st.sent ≠ [] := by
      rw [hsent]
      exact List.cons_ne_nil _ _
    have hresponses : (s.responses ++ if st.sent ≠ [] then [⟨e.call, e.number, rb⟩] else []) =
        s.responses ++ [⟨e.call, e.number, rb⟩] := by simp [hne]
    refine h.answers hc hsection hrb nofun hpiece ht (by omega) h1 (.inl ⟨by omega, rfl⟩)
      hresponses (fun a ha => ?_) ?_
    · exact ⟨List.mem_singleton.mp ha, by omega, hn⟩
    · refine ⟨⟨e.call, e.number, rb⟩, ?_, rfl, hn, rfl⟩
      simp [hne]

/-- **A worker goes on** with its response. -/
theorem Lockstep.wresume (h : Lockstep cfg s x y) {v : Responding}
    (hi : s.responding[i]? = some v) (hc : s.scr = some c)
    (hst : rpcResponseResume 0 cfg.subport c v.rb v.fnum v.nfrags = some st) :
    ∃ y', y ≤ y' ∧ Lockstep cfg
      ({ s with responding := s.responding.eraseIdx i }.serverSection v.element v.rb st) x y' := by
  have hsection := rpcResponseResume_section hst
  obtain ⟨hyw, h1, hnf, hlt, a, ha, hacall, harb⟩ := h.server.worker v (List.mem_of_getElem? hi)
  obtain ⟨-, -, hsend, hanum⟩ := h.server.answer a ha
  have hcall := h.server.call
  have hnoelement := h.no_element (.inr (by omega))
  have ht : AnswerTo s
      ({ s with responding := s.responding.eraseIdx i }.serverSection v.element v.rb st) v.element
      v.rb st :=
    ⟨⟨rfl, rfl, rfl, rfl, rfl, rfl, rfl⟩, rfl, rfl, rfl, rfl, fun _ => hnoelement,
      fun _ => ⟨s.born, by
        show s.responding.eraseIdx i ++ _ = _
        rw [h.only_worker hi]
        rfl⟩⟩
  rcases hsection.piece with ⟨hsent, hwait, hcr⟩ | ⟨k, nf, cmd, hpiece⟩
  · refine ⟨y, Nat.le_refl y, h.answers_nothing hc ht hsent hcr rfl (.refl _) ?_⟩
    show (s.responding.eraseIdx i ++ _).Sublist s.responding
    rw [hwait]
    exact (List.append_nil (s.responding.eraseIdx i)).symm ▸ List.eraseIdx_sublist ..
  · have hacked : y ≤ x := by
      refine (h.server.record c hc).acked ?_
      cases hpiece.answers with
      | next _ _ hfack => exact hfack
    refine h.answers hc hsection (harb ▸ hsend) (fun j n hw => ?_) hpiece ht (by omega) h1
      (.inr ⟨by omega, hacked⟩) (List.append_nil _).symm (fun a ha => (by cases ha)) ?_
    · cases hw
      exact ⟨hnf, hlt⟩
    · exact ⟨a, ha, hacall, hacall ▸ hanum, harb⟩

end Responses

end Hwdb.Rpc
