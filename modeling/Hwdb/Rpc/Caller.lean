import Hwdb.Rpc.Lockstep

/-!
# The reader of a client in lockstep

What the client's side of `Lockstep` becomes when the client moves on, and where its reader moves
it.

* `SendingAt.erase` and its companions — the threads that send fragments.
* `ClientMove`, `Lockstep.client_moves` — a move of the client in its last call.
* `Lockstep.piece_call` — a piece of a response that the client accepts is one to its last call.
* `Lockstep.crecv` — a datagram that arrives in order finds the client where it belongs.
-/

set_option autoImplicit false

namespace Hwdb.Rpc

open Hwdb.Lib

section Client

variable {cfg : Config} {s t : Session} {x x' y i : Nat} {p : Packet} {c c' : CRecord}
  {stale : Bytes}

/-- A client in no state has come further than its call allows. -/
theorem ClientIn.le {st : State} (h : ClientIn x st) : x % 8 ≤ 5 := by
  cases st <;> simp only [ClientIn] at h <;> omega

/-- A client that has come to `4` is idle or timed out. -/
theorem ClientIn.awaits {st : State} (h : ClientIn x st) (hst : st.awaitsAck = true) : x ≠ 4 := by
  rintro rfl
  cases st <;> simp_all [ClientIn, State.awaitsAck]

/-! ## Threads that send -/

section Sending

variable {ws : List Thread} {th : Thread}

theorem SendingAt.sublist (h : SendingAt cfg s x ws) {ws' : List Thread} (hle : ws'.Sublist ws) :
    SendingAt cfg s x ws' :=
  ⟨fun v q rsize n k nf hm => h.thread v q rsize n k nf (hle.subset hm),
    Nat.le_trans (hle.filter _).length_le h.one⟩

/-- Nobody sends fragments. -/
theorem sendingAt_none (h : ∀ th ∈ ws, th.sending = false) : SendingAt cfg s x ws := by
  refine ⟨fun v q rsize n k nf hm => ?_, ?_⟩
  · cases h _ hm
  · rw [List.filter_eq_nil_iff.mpr fun th hth => by rw [h th hth]; decide]
    exact Nat.zero_le 1

/-- One thread more, where nobody sent before. -/
theorem sendingAt_snoc (h : ∀ th ∈ ws, th.sending = false)
    (hth : ∀ v q rsize n k nf, th = .call v q rsize (.frag n k nf) →
      x = 8 * v + 1 ∧ 1 ≤ v ∧ n = s.numberOf cfg v ∧ k < nf) : SendingAt cfg s x (ws ++ [th]) := by
  refine ⟨fun v q rsize n k nf hm => ?_, ?_⟩
  · rcases List.mem_append.mp hm with hm | hm
    · cases h _ hm
    · exact hth v q rsize n k nf (List.mem_singleton.mp hm).symm
  · rw [List.filter_append, List.filter_eq_nil_iff.mpr fun th hth => by rw [h th hth]; decide]
    exact List.length_filter_le ..

theorem SendingAt.none (h : SendingAt cfg s x ws) (hx : x < 8 ∨ x % 8 ≠ 1) :
    ∀ th ∈ ws, th.sending = false := by
  intro th hth
  cases th with
  | call v q rsize w =>
    cases w with
    | frag n k nf =>
      obtain ⟨hv, h1, -⟩ := h.thread v q rsize n k nf hth
      omega
    | _ => rfl
  | _ => rfl

/-- The thread that sends fragments is the only one. -/
theorem SendingAt.erase (h : SendingAt cfg s x ws) (hi : ws[i]? = some th)
    (hth : th.sending = true) : ∀ th ∈ ws.eraseIdx i, th.sending = false := by
  obtain ⟨hlt, hget⟩ := List.getElem?_eq_some_iff.mp hi
  have hsplit : ws = ws.take i ++ th :: ws.drop (i + 1) := by
    rw [← hget, List.getElem_cons_drop, List.take_append_drop]
  have hone := h.one
  rw [hsplit, List.filter_append, List.filter_cons_of_pos hth, List.length_append,
    List.length_cons] at hone
  intro th' hth'
  rw [List.eraseIdx_eq_take_drop_succ] at hth'
  by_contra hne
  have hsome : th'.sending = true := by
    cases hs : th'.sending with
    | false => exact absurd hs hne
    | true => rfl
  rcases List.mem_append.mp hth' with hm | hm
  · have hpos := List.length_pos_of_mem (List.mem_filter.mpr ⟨hm, hsome⟩)
    omega
  · have hpos := List.length_pos_of_mem (List.mem_filter.mpr ⟨hm, hsome⟩)
    omega

end Sending

/-! ## The client moves -/

/-- The calls are the same. -/
theorem ClientSide.kept (h : ClientSide cfg s x y) (hcalls : t.calls = s.calls)
    (hx : x' / 8 = x / 8)
    (hrec : t.cfault = none → ∀ c, t.ccr = some c → ClientAt cfg t x' y c)
    (hc2s : ∀ p ∈ t.c2s, p ∈ s.c2s ∨ OfClient cfg s y p)
    (hsmall : 4 ≤ x' % 8 → x % 8 < 4 → s.numberOf cfg (x / 8) < 4294967296)
    (hwrap : x' % 8 = 5 → x % 8 = 5 ∨ SEQNO_LIMIT ≤ s.numberOf cfg (x / 8))
    (hsending : SendingAt cfg s x' t.waiting)
    (hopened : t.opened = false → x' = 0 ∧ t.ccr = none) : ClientSide cfg t x' y := by
  have hnum : t.numberOf cfg = s.numberOf cfg := numberOf_congr hcalls
  refine ⟨hcalls ▸ hx ▸ h.calls, hrec, fun p hp => ?_, ?_, fun i hi => ?_, fun h5 => ?_,
    hsending.congr hnum, hopened⟩
  · rcases hc2s p hp with hp | hp
    · exact (h.c2s p hp).mono (hcalls ▸ List.prefix_rfl) (Nat.le_refl y)
    · exact hp.mono (hcalls ▸ List.prefix_rfl) (Nat.le_refl y)
  · rw [hnum, hcalls]
    exact h.differ
  · rw [hnum]
    by_cases hold : 8 * i + 4 ≤ x
    · exact h.small i hold
    · obtain rfl : i = x / 8 := by omega
      exact hsmall (by omega) (by omega)
  · rw [hnum, hx]
    exact (hwrap h5).elim h.wrap id

/-- A move of the client from `x` to `x'` in its last call: what it has seen, what it sends and
the record it leaves. -/
structure ClientMove (cfg : Config) (s : Session) (x y x' seen : Nat) (sent : List Packet)
    (cr : Option CRecord) (fault : Option Fault) : Prop where
  le : x ≤ x'
  call : x' / 8 = x / 8
  sent : ∀ q ∈ sent, OfClient cfg s y q ∧ ∀ n, q.rank clientPhase = some n → n = x'
  seen : Undelivered (Packet.rank serverPhase) s.s2c seen (clientFloor x')
  behind : clientFloor x' ≤ y
  record : fault = none → ∀ c, cr = some c → ClientAt cfg s x' y c
  small : 4 ≤ x' % 8 → x % 8 < 4 → s.numberOf cfg (x / 8) < 4294967296
  wrap : x' % 8 = 5 → x % 8 = 5 ∨ SEQNO_LIMIT ≤ s.numberOf cfg (x / 8)
  unopened : s.opened = false → x' = 0 ∧ cr = none

/-- **The client moves on** to `x'` in its last call. -/
theorem Lockstep.client_moves (h : Lockstep cfg s x y) {sent : List Packet}
    (hmove : ClientMove cfg s x y x' t.cseen sent t.ccr t.cfault) (hsame : ServerSame s t)
    (hcalls : t.calls = s.calls) (hc2s : t.c2s = s.c2s ++ sent)
    (hsending : SendingAt cfg s x' t.waiting) (hopened : t.opened = s.opened) :
    Lockstep cfg t x' y := by
  refine ⟨h.logs.client_moves hsame hc2s hmove.le (fun q hq => (hmove.sent q hq).2) hmove.seen
      hmove.behind,
    h.client.kept hcalls hmove.call
      (fun hcf c hc => (hmove.record hcf c hc).congr hcalls hsame.responses) (fun q hq => ?_)
      hmove.small hmove.wrap hsending (hopened ▸ hmove.unopened),
    h.server_kept hsame (hcalls ▸ List.prefix_rfl) hmove.le⟩
  rw [hc2s] at hq
  exact (List.mem_append.mp hq).imp id fun hq => (hmove.sent q hq).1

/-- The client stays where it is. -/
theorem Lockstep.client_stays (h : Lockstep cfg s x y) {seen : Nat} {sent : List Packet}
    {cr : Option CRecord} {fault : Option Fault} (hseen : s.cseen ≤ seen)
    (hsent : ∀ q ∈ sent, OfClient cfg s y q ∧ ∀ n, q.rank clientPhase = some n → n = x)
    (hrec : fault = none → ∀ c, cr = some c → ClientAt cfg s x y c)
    (hnone : s.ccr = none → cr = none) : ClientMove cfg s x y x seen sent cr fault where
  le := Nat.le_refl x
  call := rfl
  sent := hsent
  seen := h.logs.client.later hseen
  behind := h.logs.behind
  record := hrec
  small h4 hlt := by omega
  wrap := .inl
  unopened ho := ⟨(h.client.unopened ho).1, hnone (h.client.unopened ho).2⟩

/-- The client has done nothing to its record or its channel. -/
theorem Lockstep.client_quiet (h : Lockstep cfg s x y) (hcf : s.cfault = none)
    (hsame : ServerSame s t) (hcalls : t.calls = s.calls) (hc2s : t.c2s = s.c2s)
    (hseen : t.cseen = s.cseen) (hccr : t.ccr = s.ccr ∨ t.ccr = none)
    (hwait : t.waiting.Sublist s.waiting) (hopened : t.opened = s.opened) :
    Lockstep cfg t x y := by
  have hnil : t.c2s = s.c2s ++ [] := by rw [hc2s, List.append_nil]
  refine h.client_moves (h.client_stays (Nat.le_of_eq hseen.symm) ?_ ?_ ?_) hsame hcalls hnil
    (h.client.sending.sublist hwait) hopened
  · intro q hq
    cases hq
  · intro _ c hc
    rcases hccr with hsome | hnone
    · exact h.client.record hcf c (hsome ▸ hc)
    · rw [hnone] at hc
      cases hc
  · intro hnone
    exact hccr.elim (fun hsome => hsome.trans hnone) id

/-! ## The reader -/

/-- A datagram of the server that arrives in order. -/
theorem Logs.arrives (h : Logs s x y) {n : Nat} (hp : s.s2c[i]? = some p) (hi : s.cseen ≤ i)
    (hn : p.rank serverPhase = some n) : clientFloor x ≤ n ∧ n ≤ y ∧
      Undelivered (Packet.rank serverPhase) s.s2c (max s.cseen i) n := by
  refine ⟨h.client.take hi hp hn, h.s2c.le (List.mem_of_getElem? hp) hn, ?_⟩
  exact (h.s2c.take hp hn).later (Nat.le_max_right ..)

/-- **A piece of a response** that the client accepts is one to its last call. -/
theorem Lockstep.piece_call (h : Lockstep cfg s x y) (hp : s.s2c[i]? = some p)
    (hi : s.cseen ≤ i) (hcmd : p.command = some .response ∨ p.command = some .fragment)
    (hn : p.seqno = wire (s.numberOf cfg (x / 8))) :
    p.call = x / 8 ∧ (3 ≤ x % 8 → p.command = some .fragment → x % 8 = 3) := by
  have hcall : ∀ n, n = 3 ∨ n = 4 → p.rank serverPhase = some (8 * p.call + n) →
      p.call = x / 8 ∧ (3 ≤ x % 8 → n = 3 → x % 8 = 3) := by
    intro n hphase hrank
    obtain ⟨h1, h2, -⟩ := h.logs.arrives hp hi hrank
    rcases rank_piece hphase h1 h2 h.logs.ahead with hx | ⟨hx, -⟩
    · exact hx
    · -- the response to the call before has another number
      obtain ⟨hwire, -⟩ := (h.server.s2c p (List.mem_of_getElem? hp)).data hcmd
      have hcalls := h.client.calls
      have hdiffer := h.client.differ p.call (by omega)
      rw [hx, ← hwire] at hdiffer
      exact absurd hn hdiffer
  rcases hcmd with hcmd | hcmd
  · obtain ⟨hx, -⟩ := hcall 4 (.inr rfl) (rank_of_command hcmd rfl)
    refine ⟨hx, fun _ hf => ?_⟩
    rw [hcmd] at hf
    cases hf
  · obtain ⟨hx, hphase⟩ := hcall 3 (.inl rfl) (rank_of_command hcmd rfl)
    exact ⟨hx, fun h3 _ => hphase h3 rfl⟩

theorem Lockstep.answer_sendable (h : Lockstep cfg s x y) : AllSendable (AnswerOf s) := by
  rintro n m ⟨a, ha, -, -, rfl⟩
  exact (h.server.answer a ha).2.2.1

/-- What the client is given under its number is a piece of the response to its last call. -/
theorem Lockstep.sends (h : Lockstep cfg s x y) (hk : Kinds s) (hp : s.s2c[i]? = some p)
    (hi : s.cseen ≤ i) (stale : Bytes)
    (hcmd : (p.received stale).command = some .response ∨
      (p.received stale).command = some .fragment) :
    Sends (AnswerOf s) .response (p.received stale) := by
  have hin := List.mem_of_getElem? hp
  have hwhole := received_whole (p := p) (hk.server p hin).whole stale
  rw [hwhole.1] at hcmd
  rintro m ⟨a, ha, hcall, hnum, rfl⟩
  rw [hwhole.2.1] at hnum ⊢
  obtain ⟨-, -, -, hwire⟩ := h.server.answer a ha
  rw [hcall, ← h.client.calls] at hwire
  obtain ⟨hx, -⟩ := h.piece_call hp hi hcmd (hnum.symm.trans hwire)
  obtain ⟨-, -, b, hb, hbcall, -, hcarries⟩ := (h.server.s2c p hin).data hcmd
  have hrb : b.rb = a.rb := h.server.unique b hb a ha (by rw [hbcall, hcall, hx, h.client.calls])
  exact ⟨cfg.subport, hrb ▸ hcarries⟩

/-- An acknowledgement by the client. -/
theorem ofClient_ack {d : Received} {ack : Command} {fnum nfrags : Nat}
    (hack : ack ∉ [.disconnect, .connect, .query, .fragment]) :
    OfClient cfg s y ⟨ackPayload d ack fnum nfrags, s.calls.length⟩ := by
  have hc : (⟨ackPayload d ack fnum nfrags, s.calls.length⟩ : Packet).command = some ack :=
    message_packet_command ..
  refine ⟨Nat.le_refl _, fun h => ?_, fun h => ?_, fun h => ?_, fun h => ?_⟩
  all_goals
    rw [hc] at h
    simp_all

/-- The record goes to another state and keeps everything else. -/
theorem ClientAt.setState {st : State} (h : ClientAt cfg s x y c) (hst : ClientIn x st)
    (hack : Acked x st → x ≤ y) (hfack : st = .fackSent → c.state = .fackSent) :
    ClientAt cfg s x y (crecordSetState c st) :=
  ⟨hst, h.number, h.payload, hack, h.assembles.kept rfl rfl rfl hfack⟩

/-- A record that has just acknowledged a datagram of its call. -/
theorem clientAt_acknowledge {d : Received} {ack : Command} {st : State} {fnum nfrags n : Nat}
    (hx : x' = 8 * s.calls.length + n) (h5 : n < 5) (hphase : clientPhase ack = some n)
    (hst : ClientIn x' st) (hnot : st ≠ .fackReceived)
    (hn : c.seqno = s.numberOf cfg s.calls.length)
    (hasm : Assembles (AnswerOf s) (crecordSetState (acknowledge c d ack fnum nfrags) st)) :
    ClientAt cfg s x' y (crecordSetState (acknowledge c d ack fnum nfrags) st) := by
  refine ⟨hst, ?_, .inr ?_, ?_, hasm⟩
  · rw [if_neg (by omega), show x' / 8 = s.calls.length by omega]
    exact hn
  · rw [setState_payload, acknowledge_payload, rank_ack hphase, hx]
  · rintro (hack | ⟨-, h5⟩)
    · exact absurd hack hnot
    · omega

/-- The payload, sent again. -/
theorem Lockstep.resends (h : Lockstep cfg s x y) (hk : Kinds s) (hcf : s.cfault = none)
    (hc : s.ccr = some c) (hx : x ≠ 4) :
    OfClient cfg s y ⟨c.payload, s.calls.length⟩ ∧
      ∀ n, (⟨c.payload, s.calls.length⟩ : Packet).rank clientPhase = some n → n = x := by
  refine ⟨h.client.c2s _ (hk.cpayload c hc), fun n hn => ?_⟩
  exact Option.some.inj (hn.symm.trans ((h.client.record hcf c hc).payload.resolve_left hx))

/-- A `CACK` under the client's number finds the client connecting, or idle after it. -/
theorem Lockstep.cack_le (h : Lockstep cfg s x y) (hcf : s.cfault = none) (hc : s.ccr = some c)
    (h1 : clientFloor x ≤ 4) (hn : c.seqno = wire cfg.seqno) : x ≤ 4 := by
  obtain ⟨hst, hnum, -, -, -⟩ := h.client.record hcf c hc
  have hle := hst.le
  by_contra hgt
  by_cases h5 : x % 8 = 5
  · -- a renumbering before the first call starts from a number that fits the header
    rw [if_pos h5] at hnum
    have hzero : x / 8 = 0 := by
      rcases clientFloor_cases x with ⟨hx, hg⟩ | ⟨hx, hg⟩ | ⟨hx, hg⟩ <;> omega
    have hwrap := h.client.wrap h5
    have hsmall := h.client.small 0 (by omega)
    rw [hzero] at hwrap
    have hwrap : SEQNO_LIMIT ≤ cfg.seqno := hwrap
    have hsmall : cfg.seqno < 4294967296 := hsmall
    rw [wire, Nat.mod_eq_of_lt hsmall, hnum] at hn
    simp only [SEQNO_LIMIT, SEQNO_START] at hwrap hn
    omega
  · -- the first call has another number than `rpc_connect`
    rw [if_neg h5] at hnum
    have hone : x / 8 = 1 := by
      rcases clientFloor_cases x with ⟨hx, hg⟩ | ⟨hx, hg⟩ | ⟨hx, hg⟩ <;> omega
    have hcalls := h.client.calls
    have hdiffer := h.client.differ 0 (by omega)
    rw [hone] at hnum
    rw [Nat.zero_add, ← hnum, hn] at hdiffer
    exact hdiffer (Nat.mod_mod cfg.seqno 4294967296).symm

/-- A piece of the response to the last call has been accepted. -/
theorem Lockstep.taken (h : Lockstep cfg s x y) (hc : s.ccr = some c) {n seen : Nat}
    (hx : 2 ≤ x % 8 ∧ x % 8 ≤ n) (hn : n = 3 ∨ n = 4)
    (hlater : Undelivered (Packet.rank serverPhase) s.s2c seen (8 * s.calls.length + n))
    (hy : 8 * s.calls.length + n ≤ y) {d : Received} {ack : Command} {st : State}
    {fnum nfrags : Nat} {dest : Dest} (hphase : clientPhase ack = some n)
    (hack : ack ∉ [.disconnect, .connect, .query, .fragment])
    (hst : ClientIn (8 * s.calls.length + n) st) (hnot : st ≠ .fackReceived)
    (hnum : c'.seqno = s.numberOf cfg s.calls.length)
    (hsmall : s.numberOf cfg (x / 8) < 4294967296)
    (hasm : Assembles (AnswerOf s) (crecordSetState (acknowledge c' d ack fnum nfrags) st)) :
    ClientMove cfg s x y (8 * s.calls.length + n) seen
      (Session.packets s.calls.length [⟨dest, ackPayload d ack fnum nfrags⟩])
      (some (crecordSetState (acknowledge c' d ack fnum nfrags) st)) none := by
  have hcalls := h.client.calls
  have hfloor : clientFloor (8 * s.calls.length + n) = 8 * s.calls.length + n := by
    rcases clientFloor_cases (8 * s.calls.length + n) with ⟨hx, hg⟩ | ⟨hx, hg⟩ | ⟨hx, hg⟩ <;> omega
  refine ⟨by omega, by omega, fun q hq => ?_, hfloor.symm ▸ hlater, hfloor.symm ▸ hy,
    fun _ c hc => ?_, fun _ _ => hsmall, fun h5 => by omega,
    fun ho => absurd (h.client.unopened ho).2 (hc ▸ Option.some_ne_none c)⟩
  · rw [packets_ack hq]
    refine ⟨ofClient_ack hack, fun m hm => ?_⟩
    rw [rank_ack hphase] at hm
    exact (Option.some.inj hm).symm
  · cases hc
    exact clientAt_acknowledge rfl (by omega) hphase hst hnot hnum hasm

/-- **What the reader makes of a datagram** that arrives in order. -/
theorem Lockstep.receives (h : Lockstep cfg s x y) (hk : Kinds s) (hcf : s.cfault = none)
    (hp : s.s2c[i]? = some p) (hi : s.cseen ≤ i) {cr : Option CRecord} {out : Outcome}
    (hcr : s.ccr = cr) (hrec : Receives (p.received stale) cr out)
    (hasm : ∀ c', out.cr = some c' → Assembles (AnswerOf s) c') :
    ∃ x', ClientMove cfg s x y x' (max s.cseen i)
      (Session.packets s.calls.length out.sent) out.cr out.fault ∧
        (x' = x ∨ ((x < 8 ∨ x % 8 ≠ 1) ∧ x % 8 < 5 ∧ x' % 8 < 5)) := by
  have hin := List.mem_of_getElem? hp
  have hof := h.server.s2c p hin
  obtain ⟨hcommand, hseqno, -, -⟩ := received_whole (p := p) (hk.server p hin).whole stale
  have hlt := (p.received stale).seqno_lt
  have hcalls := h.client.calls
  have hseen : s.cseen ≤ max s.cseen i := Nat.le_max_left ..
  have hat : ∀ c, cr = some c → ClientAt cfg s x y c := hcr ▸ h.client.record hcf
  have hsome : ∀ (c : CRecord) (o : Option CRecord), cr = some c → s.ccr = none → o = none := by
    intro c o hc hnone
    rw [hcr, hc] at hnone
    cases hnone
  -- the number of a record that is not being renumbered arrives as it is
  have hnumber : ∀ c, cr = some c → x % 8 ≠ 5 → (p.received stale).seqno = c.seqno →
      p.seqno = wire (s.numberOf cfg (x / 8)) ∧ s.numberOf cfg (x / 8) < 4294967296 := by
    intro c hc h5 hn
    have hnum := (hat c hc).number
    rw [if_neg h5] at hnum
    rw [hn] at hlt
    rw [hseqno] at hn
    rw [← hnum]
    exact ⟨hn.trans (Nat.mod_eq_of_lt hlt).symm, hlt⟩
  cases hrec with
  | kept =>
    refine ⟨x, h.client_stays hseen (fun q hq => ?_) (fun _ => hat) hcr.symm.trans, .inl rfl⟩
    cases hq
  | failed =>
    refine ⟨x, h.client_stays hseen (fun q hq => ?_) (fun _ => hat) hcr.symm.trans, .inl rfl⟩
    cases hq
  | cack c hc hn =>
    obtain ⟨hzero, hwire⟩ := hof.cack (hcommand ▸ hc)
    obtain ⟨h1, h2, hlater⟩ := h.logs.arrives hp hi (rank_of_command (hcommand ▸ hc) rfl)
    rw [hzero] at h1 h2 hlater
    have hle := h.cack_le hcf (hcr.trans rfl) h1 (hn.symm.trans (hseqno.trans hwire))
    have hnum := (hat c rfl).number
    rw [if_neg (by omega)] at hnum
    refine ⟨4, ⟨hle, by omega, fun q hq => (by cases hq), hlater, h2, fun _ c' hc' => ?_,
      fun _ _ => ?_, fun h5 => (by omega),
      fun ho => absurd (h.client.unopened ho).2 (hcr ▸ Option.some_ne_none c)⟩, 
      .inr ⟨.inl (by omega), by omega, by decide⟩⟩
    · have hasm := hasm c' hc'
      cases hc'
      refine ⟨.inl rfl, ?_, .inl rfl, by simp [Acked], hasm⟩
      rw [if_neg (by decide), show 4 / 8 = x / 8 by omega]
      exact hnum
    · rw [← hnum, ← hn]
      exact hlt
  | qack c hc hn =>
    obtain ⟨h1, h2, -⟩ := h.logs.arrives hp hi (rank_of_command (hcommand ▸ hc) rfl)
    have hx := rank_qack h1 h2 h.logs.ahead
    have hcall := hof.qack (hcommand ▸ hc)
    refine ⟨x, h.client_stays hseen (fun q hq => by cases hq) (fun _ c' hc' => ?_) (hsome _ _ rfl),
      .inl rfl⟩
    cases hc'
    refine (hat c rfl).setState ?_ (by simp [Acked]) nofun
    show x % 8 = 2 ∧ 8 ≤ x
    omega
  | dack c hc => exact absurd (hcommand ▸ hc) hof.connected
  | responseWhole c hc hn hst =>
    have hx : x % 8 = 2 ∧ 8 ≤ x := by
      have hstate := (hat c rfl).state
      rcases hst with hst | hst <;> rw [hst] at hstate <;> exact hstate
    obtain ⟨hwire, hsmall⟩ := hnumber c rfl (by omega) hn
    obtain ⟨hcall, -⟩ := h.piece_call hp hi (.inl (hcommand ▸ hc)) hwire
    obtain ⟨-, h2, hlater⟩ := h.logs.arrives hp hi (rank_of_command (hcommand ▸ hc) rfl)
    have hnum := (hat c rfl).number
    rw [if_neg (by omega), hcalls] at hnum
    rw [hcall, hcalls] at h2 hlater
    exact ⟨_, h.taken hcr (by omega) (.inr rfl) hlater h2 rfl (by decide) (.inl (by omega)) nofun
      hnum hsmall (hasm _ rfl), .inr ⟨.inr (by omega), by omega, by omega⟩⟩
  | responseLast c b hc hn hst =>
    have hx : x % 8 = 3 ∧ 8 ≤ x := by
      have hstate := (hat c rfl).state
      rw [hst] at hstate
      exact hstate
    obtain ⟨hwire, hsmall⟩ := hnumber c rfl (by omega) hn
    obtain ⟨hcall, -⟩ := h.piece_call hp hi (.inl (hcommand ▸ hc)) hwire
    obtain ⟨-, h2, hlater⟩ := h.logs.arrives hp hi (rank_of_command (hcommand ▸ hc) rfl)
    have hnum := (hat c rfl).number
    rw [if_neg (by omega), hcalls] at hnum
    rw [hcall, hcalls] at h2 hlater
    exact ⟨_, h.taken hcr (by omega) (.inr rfl) hlater h2 rfl (by decide) (.inl (by omega)) nofun
      hnum hsmall (hasm _ rfl), .inr ⟨.inr (by omega), by omega, by omega⟩⟩
  | fragmentFirst c b hc hst hone =>
    obtain ⟨h1, h2, hlater⟩ := h.logs.arrives hp hi (rank_of_command (hcommand ▸ hc) rfl)
    rcases hst with ⟨hst, -⟩ | ⟨hst, hn⟩
    · -- what the server sends for the next call does not reach a client that is idle
      have hx : x % 8 = 4 ∨ x % 8 = 5 := by
        have hstate := (hat c rfl).state
        rw [hst] at hstate
        exact hstate
      rcases rank_piece (.inl rfl) h1 h2 h.logs.ahead with ⟨-, hphase⟩ | ⟨-, hphase⟩
      · have hphase := hphase (by omega) rfl
        omega
      · omega
    · have hx : x % 8 = 2 ∧ 8 ≤ x := by
        have hstate := (hat c rfl).state
        rcases hst with hst | hst <;> rw [hst] at hstate <;> exact hstate
      obtain ⟨hwire, hsmall⟩ := hnumber c rfl (by omega) hn
      obtain ⟨hcall, -⟩ := h.piece_call hp hi (.inr (hcommand ▸ hc)) hwire
      have hnum := (hat c rfl).number
      rw [if_neg (by omega), hcalls, ← hn] at hnum
      rw [hcall, hcalls] at h2 hlater
      refine ⟨_, h.taken hcr (by omega) (.inl rfl) hlater h2 rfl (by decide) ?_ nofun hnum hsmall
        (hasm _ rfl), .inr ⟨.inr (by omega), by omega, by omega⟩⟩
      show (8 * s.calls.length + 3) % 8 = 3 ∧ 8 ≤ 8 * s.calls.length + 3
      omega
  | fragmentNext c b hc hn hst =>
    have hx : x % 8 = 3 ∧ 8 ≤ x := by
      have hstate := (hat c rfl).state
      rw [hst] at hstate
      exact hstate
    refine ⟨x, h.client_stays hseen (fun q hq => ?_) (fun _ c' hc' => ?_) (hsome _ _ rfl),
      .inl rfl⟩
    · rw [packets_ack hq]
      refine ⟨ofClient_ack (by decide), fun n hn => ?_⟩
      rw [rank_ack rfl] at hn
      have hn := Option.some.inj hn
      omega
    · have hasm := hasm c' hc'
      cases hc'
      have hnum := (hat c rfl).number
      rw [if_neg (by omega), hcalls] at hnum
      exact clientAt_acknowledge (n := 3) (by omega) (by decide) rfl hx nofun hnum hasm
  | resent c hst =>
    have hx : x % 8 = 3 ∧ 8 ≤ x := by
      have hstate := (hat c rfl).state
      rw [hst] at hstate
      exact hstate
    refine ⟨x, h.client_stays hseen (fun q hq => ?_) (fun _ c' hc' => ?_) (hsome _ _ rfl),
      .inl rfl⟩
    · obtain ⟨z, hz, rfl⟩ := mem_packets.mp hq
      rw [List.mem_singleton.mp hz]
      exact h.resends hk hcf hcr (by omega)
    · cases hc'
      exact (hat c rfl).setState (hat c rfl).state (hat c rfl).acked id
  | fack c hc hn hst =>
    have hx : x % 8 = 1 ∧ 8 ≤ x := by
      have hstate := (hat c rfl).state
      rw [hst] at hstate
      exact hstate
    obtain ⟨h1, h2, -⟩ := h.logs.arrives hp hi (rank_of_command (hcommand ▸ hc) rfl)
    have hle := hof.le
    refine ⟨x, h.client_stays hseen (fun q hq => by cases hq) (fun _ c' hc' => ?_) (hsome _ _ rfl),
      .inl rfl⟩
    cases hc'
    refine (hat c rfl).setState hx (fun _ => ?_) nofun
    rcases clientFloor_cases x with ⟨hx', hg⟩ | ⟨hx', hg⟩ | ⟨hx', hg⟩ <;> omega
  | ping c hc =>
    refine ⟨x, h.client_stays hseen (fun q hq => ?_) (fun _ => hat) (hsome _ _ rfl), .inl rfl⟩
    rw [packets_ack hq]
    refine ⟨ofClient_ack (by decide), fun n hn => ?_⟩
    cases hn.symm.trans (rank_ack_none rfl)
  | pack c =>
    refine ⟨x, h.client_stays hseen (fun q hq => by cases hq) (fun _ c' hc' => ?_) (hsome _ _ rfl),
      .inl rfl⟩
    cases hc'
    exact (hat c rfl).setState (hat c rfl).state (hat c rfl).acked id
  | sack c hc hst =>
    have hx : x % 8 = 5 := by
      have hstate := (hat c rfl).state
      rw [hst] at hstate
      exact hstate
    refine ⟨x, h.client_stays hseen (fun q hq => by cases hq) (fun _ c' hc' => ?_) (hsome _ _ rfl),
      .inl rfl⟩
    cases hc'
    obtain ⟨h1, h2, -⟩ := h.logs.arrives hp hi (rank_of_command (hcommand ▸ hc) rfl)
    refine (hat c rfl).setState (.inr hx) (fun _ => ?_) nofun
    rcases clientFloor_cases x with ⟨hx', hg⟩ | ⟨hx', hg⟩ | ⟨hx', hg⟩ <;> omega

/-- **The reader of the client** stays in lockstep. -/
theorem Lockstep.crecv (h : Lockstep cfg s x y) (hk : Kinds s) (hr : Roles s)
    (hcf : s.cfault = none) (hp : s.s2c[i]? = some p) (hi : s.cseen ≤ i) (stale : Bytes) :
    ∃ x', Moves s (s.clientRecv i (p.received stale)) x x' ∧
      Lockstep cfg (s.clientRecv i (p.received stale)) x' y := by
  have hreceives := hr.receives hk (List.mem_of_getElem? hp) stale
  obtain ⟨x', hmove, hsends⟩ := h.receives hk hcf hp hi rfl hreceives fun c' hc' =>
    hreceives.assembles h.answer_sendable (h.sends hk hp hi stale)
      (fun c hc => (h.client.record hcf c hc).assembles) hc'
  refine ⟨x', ⟨hmove.le, fun h5 => ?_, ?_⟩,
    h.client_moves hmove ⟨rfl, rfl, rfl, rfl, rfl, rfl, rfl, rfl⟩ rfl rfl ?_ rfl⟩
  · exact hsends.imp_right fun hx => by omega
  · exact hsends.imp_right fun hx => .inl (by omega)
  · rcases hsends with rfl | ⟨hx, -⟩
    · exact h.client.sending
    · exact sendingAt_none (h.client.sending.none hx)

end Client

end Hwdb.Rpc
