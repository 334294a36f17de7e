import Hwdb.Rpc.Caller

/-!
# The calls of a client in lockstep

The sections of `rpc_call`, `rpc_connect` and the timer of the client, on any number of threads.

* `SendsPiece` — a section that sends a piece of the query; `SectionTo` — how it is written back.
* `Lockstep.section` — the sections of `rpc_call`: a number, a renumbering, the next piece.
* `Lockstep.connect`, `Lockstep.call`, `Lockstep.resume`, `Lockstep.ctick` — the steps.
-/

set_option autoImplicit false

namespace Hwdb.Rpc

open Hwdb.Lib

/-! ## The sections of `rpc_call` -/

/-- A section that sends fragment `k` of `nf` under `n` as a `FRAGMENT` or a `QUERY`. -/
structure SendsPiece (sp : Nat) (c' : CRecord) (number : Option Nat) (n k nf : Nat)
    (st : CallStep) (cmd : Command) : Prop where
  seqno : st.cr.seqno = c'.seqno
  number : st.number = number
  goes : (cmd = .fragment ∧ st.cr.state = .fragmentSent ∧ st.wait = some (.frag n k nf) ∧
      k < nf) ∨
    (cmd = .query ∧ st.cr.state = .querySent ∧ st.wait = some (.query n) ∧ k = nf)
  payload : ∃ rest, st.cr.payload = message (cpComplete sp cmd n k nf) rest
  sent : ∀ z ∈ st.sent, z.bytes = st.cr.payload
  fault : st.fault = none

/-- A section on record `c` leads from `s` to `t`: the threads `ws` still wait, and call `v` goes
on. -/
structure SectionTo (s t : Session) (q : Bytes) (st : CallStep) (v rsize : Nat)
    (ws : List Thread) : Prop where
  same : ServerSame s t
  epoch : t.epoch = if st.wait = some .seqno then s.epoch + 1 else s.epoch
  issued : t.issued = if st.wait = some .seqno then 0
    else s.issued + (t.calls.length - s.calls.length)
  ccr : t.ccr = some st.cr
  calls : t.calls = callsAfter s q st.number
  c2s : t.c2s = s.c2s ++ Session.packets t.calls.length st.sent
  seen : t.cseen = s.cseen
  fault : t.cfault = st.fault
  opened : t.opened = s.opened
  left : ws.Sublist s.waiting
  waiting : t.waiting = ws ++
    (st.wait.map (Thread.call (if st.number.isSome then t.calls.length else v) q rsize)).toList

section Sections

variable {cfg : Config} {s t : Session} {x y v rsize n k nf : Nat} {q : Bytes} {c c' : CRecord}
  {w : Option CallWait} {number : Option Nat} {st : CallStep} {ws : List Thread} {cmd : Command}

theorem sendsPiece_fragment {sp : Nat} {buf : Bytes} (hlt : k < nf)
    (hbuf : fragmentPayload sp n q k nf = some buf) {dest : Dest} :
    SendsPiece sp c' number n k nf
      ⟨crecordSetState (crecordSetPayload { c' with lastFrag := k } buf buf.length ATTEMPTS TICKS)
        .fragmentSent, [⟨dest, buf⟩], number, some (.frag n k nf), none, none⟩ .fragment := by
  obtain ⟨rest, hrest⟩ := fragmentPayload_shape hbuf
  have hpay : (crecordSetState (crecordSetPayload { c' with lastFrag := k } buf buf.length ATTEMPTS
      TICKS) .fragmentSent).payload = buf := List.take_length ..
  refine ⟨rfl, rfl, .inl ⟨rfl, rfl, rfl, hlt⟩, ⟨rest, hpay.trans hrest⟩, fun z hz => ?_, rfl⟩
  rw [List.mem_singleton.mp hz]
  exact hpay.symm

theorem sendsPiece_query {sp : Nat} {buf : Bytes} (hall : k = nf)
    (hbuf : lastPayload sp .query n q k nf 65536 = some buf) {dest : Dest} :
    SendsPiece sp c' number n k nf
      ⟨crecordSetState (crecordSetPayload c' buf buf.length ATTEMPTS TICKS) .querySent,
        [⟨dest, buf⟩], number, some (.query n), none, none⟩ .query := by
  obtain ⟨rest, hrest⟩ := lastPayload_shape hbuf
  have hpay : (crecordSetState (crecordSetPayload c' buf buf.length ATTEMPTS TICKS)
      .querySent).payload = buf := List.take_length ..
  refine ⟨rfl, rfl, .inr ⟨rfl, rfl, rfl, hall⟩, ⟨rest, hpay.trans hrest⟩, fun z hz => ?_, rfl⟩
  rw [List.mem_singleton.mp hz]
  exact hpay.symm

/-- The command and the state have the same phase. -/
theorem SendsPiece.phase {sp : Nat} (h : SendsPiece sp c' number n k nf st cmd) :
    ∃ m, clientPhase cmd = some m ∧ (m = 1 ∨ m = 2) ∧
      (∀ x, x % 8 = m → 8 ≤ x → ClientIn x st.cr.state) ∧ (∀ x, ¬ Acked x st.cr.state) ∧
      st.cr.state ≠ .fackSent ∧ (cmd = .query ∨ cmd = .fragment) ∧ (cmd = .query → k = nf) := by
  rcases h.goes with ⟨rfl, hst, -, -⟩ | ⟨rfl, hst, -, hall⟩ <;> rw [hst]
  · exact ⟨1, rfl, .inl rfl, fun x hx h8 => ⟨hx, h8⟩, by simp [Acked], fun h => (by cases h),
      .inr rfl, fun h => (by cases h)⟩
  · exact ⟨2, rfl, .inr rfl, fun x hx h8 => ⟨hx, h8⟩, by simp [Acked], fun h => (by cases h),
      .inl rfl, fun _ => hall⟩

/-- A datagram with a piece of a query. -/
theorem ofClient_piece {rest : Bytes} (hcmd : cmd = .query ∨ cmd = .fragment)
    (hle : v ≤ t.calls.length) (h1 : 1 ≤ v) (hn : n = t.numberOf cfg v)
    (hk : k ≠ 1 → 8 * v + 1 ≤ y) (hall : cmd = .query → k = nf) :
    OfClient cfg t y ⟨message (cpComplete cfg.subport cmd n k nf) rest, v⟩ := by
  have hc : (⟨message (cpComplete cfg.subport cmd n k nf) rest, v⟩ : Packet).command = some cmd :=
    message_packet_command ..
  refine ⟨hle, fun h => ?_, fun h => ?_, fun _ => ⟨h1, ?_, fun hne => hk fun h => hne ?_⟩,
    fun h => ?_⟩
  · rw [hc] at h
    rcases hcmd with rfl | rfl <;> cases h
  · rw [hc] at h
    rcases hcmd with rfl | rfl <;> cases h
  · rw [message_packet_seqno, ← hn]
    rfl
  · rw [message_packet_fnum, h]
    rfl
  · rw [message_packet_fnum, message_packet_nfrags, hall (Option.some.inj (hc.symm.trans h))]
    rfl

/-- A section that sends nothing and does not wait. -/
theorem Lockstep.section_stays (h : Lockstep cfg s x y) (hc : s.ccr = some c)
    (ht : SectionTo s t q st v rsize ws) (hsent : st.sent = []) (hnumber : st.number = none)
    (hwait : st.wait = none) (hrec : st.fault = none → ClientAt cfg s x y st.cr) :
    Lockstep cfg t x y := by
  have hcalls : t.calls = s.calls := by
    rw [ht.calls, hnumber]
    exact List.append_nil _
  have hc2s := ht.c2s
  rw [hsent] at hc2s
  have hwaiting : t.waiting = ws := by
    rw [ht.waiting, hwait]
    exact List.append_nil ws
  refine h.client_moves (h.client_stays (Nat.le_of_eq ht.seen.symm) (fun q hq => (by cases hq))
    (fun hf c hc => ?_) fun hnone => ?_) ht.same hcalls hc2s ?_ ht.opened
  · rw [ht.ccr] at hc
    cases hc
    exact hrec (ht.fault.symm.trans hf)
  · rw [hc] at hnone
    cases hnone
  · rw [hwaiting]
    exact h.client.sending.sublist ht.left

/-- **The call starts a renumbering.** -/
theorem Lockstep.section_renumbers (h : Lockstep cfg s x y) (hcf : s.cfault = none)
    (hc : s.ccr = some c) (hidle : c.state = .idle) (hlim : SEQNO_LIMIT ≤ c.seqno) {dest : Dest}
    (ht : SectionTo s t q ⟨crecordSetState (crecordSetPayload { c with seqno := SEQNO_START }
        (seqnoPayload cfg.subport) CP_SIZE ATTEMPTS TICKS) .seqnoSent,
      [⟨dest, seqnoPayload cfg.subport⟩], none, some .seqno, none, none⟩ v rsize ws) :
    ∃ x', Moves s t x x' ∧ Lockstep cfg t x' y := by
  obtain ⟨hst, hnum, -, -, -⟩ := h.client.record hcf c hc
  rw [hidle] at hst
  have hx : x % 8 = 4 ∨ x % 8 = 5 := hst
  have h4 : x % 8 = 4 := by
    refine hx.resolve_right fun h5 => ?_
    rw [if_pos h5] at hnum
    simp only [SEQNO_LIMIT, SEQNO_START] at hlim hnum
    omega
  rw [if_neg (by omega)] at hnum
  have hcalls : t.calls = s.calls := ht.calls.trans (List.append_nil _)
  have hlen := h.client.calls
  have hc2s := ht.c2s
  rw [hcalls] at hc2s
  have hrank : (⟨seqnoPayload cfg.subport, s.calls.length⟩ : Packet).rank clientPhase =
      some (8 * s.calls.length + 5) := rank_of_command (message_packet_command ..) rfl
  have hfloor : clientFloor (x + 1) = clientFloor x := by
    rcases clientFloor_cases x with ⟨hx, hg⟩ | ⟨hx, hg⟩ | ⟨hx, hg⟩ <;>
      rcases clientFloor_cases (x + 1) with ⟨hx', hg'⟩ | ⟨hx', hg'⟩ | ⟨hx', hg'⟩ <;> omega
  have hepoch : s.epoch < t.epoch := by
    rw [ht.epoch, if_pos rfl]
    exact Nat.lt_succ_self _
  refine ⟨x + 1, ⟨Nat.le_add_right x 1, fun h5 => by omega, .inr (.inr hepoch)⟩,
    h.client_moves ⟨Nat.le_add_right x 1,
    by omega, fun p hp => ?_, ?_, ?_, fun _ c' hc' => ?_, fun _ hlt => by omega,
    fun _ => .inr (hnum ▸ hlim), fun ho => ?_⟩ ht.same hcalls hc2s ?_ ht.opened⟩
  · obtain ⟨z, hz, rfl⟩ := mem_packets.mp hp
    rw [List.mem_singleton.mp hz]
    refine ⟨?_, fun n hn => ?_⟩
    · have hcmd : (⟨seqnoPayload cfg.subport, s.calls.length⟩ : Packet).command = some .seqno :=
        message_packet_command ..
      refine ⟨Nat.le_refl _, fun h => ?_, fun h => ?_, fun h => ?_, fun h => ?_⟩
      all_goals
        rw [hcmd] at h
        simp_all
    · rw [hrank] at hn
      have hn := Option.some.inj hn
      omega
  · rw [hfloor, ht.seen]
    exact h.logs.client
  · rw [hfloor]
    exact h.logs.behind
  · rw [ht.ccr] at hc'
    cases hc'
    refine ⟨show (x + 1) % 8 = 5 by omega, ?_, .inr ?_, by simp [Acked], .of_state (by simp)⟩
    · rw [if_pos (by omega)]
      rfl
    · rw [setState_payload, setPayload_payload, seqnoPayload, take_controlPayload]
      rw [seqnoPayload] at hrank
      rw [hrank]
      congr 1
      omega
  · exact absurd (h.client.unopened ho).2 (hc ▸ Option.some_ne_none c)
  · rw [ht.waiting]
    refine sendingAt_none fun th hth => ?_
    rcases List.mem_append.mp hth with hth | hth
    · exact h.client.sending.none (.inr (by omega)) th (ht.left.subset hth)
    · rw [List.mem_singleton.mp hth]
      rfl

/-- What a section that sends a piece waits for. -/
theorem SectionTo.sending {sp : Nat} (ht : SectionTo s t q st v rsize ws)
    (hsends : SendsPiece sp c' number n k nf st cmd) {m : Nat}
    (hphase : clientPhase cmd = some m) (hws : ∀ th ∈ ws, th.sending = false) {v' : Nat}
    (hv : v' = if st.number.isSome then t.calls.length else v) (h1 : 1 ≤ v')
    (hn : n = t.numberOf cfg v') : SendingAt cfg t (8 * v' + m) t.waiting := by
  rw [ht.waiting, ← hv]
  rcases hsends.goes with ⟨rfl, -, hwait, hlt⟩ | ⟨rfl, -, hwait, -⟩
  · rw [hwait]
    cases hphase
    refine sendingAt_snoc hws fun v₁ q₁ rsize₁ n₁ k₁ nf₁ hth => ?_
    cases hth
    exact ⟨rfl, h1, hn, hlt⟩
  · rw [hwait]
    refine sendingAt_none fun th hth => ?_
    rcases List.mem_append.mp hth with hth | hth
    · exact hws th hth
    · rw [List.mem_singleton.mp hth]
      rfl

/-- **The call goes on** to the next fragment, or to the `QUERY`. -/
theorem Lockstep.section_continues (h : Lockstep cfg s x y) (hcf : s.cfault = none)
    (hc : s.ccr = some c) (hst : c.state = .fackReceived)
    (hsends : SendsPiece cfg.subport c none n k nf st cmd)
    (ht : SectionTo s t q st v rsize ws) (hx : x = 8 * v + 1) (h1 : 1 ≤ v)
    (hn : n = s.numberOf cfg v) (hws : ∀ th ∈ ws, th.sending = false) :
    ∃ x', Moves s t x x' ∧ Lockstep cfg t x' y := by
  have hat := h.client.record hcf c hc
  have hacked := hat.acked (.inl hst)
  have hlen := h.client.calls
  have hv : v = s.calls.length := by omega
  have hcalls : t.calls = s.calls := by
    rw [ht.calls, hsends.number]
    exact List.append_nil _
  have hc2s := ht.c2s
  rw [hcalls] at hc2s
  obtain ⟨m, hphase, hm, hin, hnot, hfack, hcmd, hall⟩ := hsends.phase
  obtain ⟨rest, hpay⟩ := hsends.payload
  have hrank : (⟨st.cr.payload, s.calls.length⟩ : Packet).rank clientPhase = some (8 * v + m) := by
    rw [hpay, hv]
    exact rank_of_command (message_packet_command ..) hphase
  have hfloor : clientFloor (8 * v + m) = clientFloor x := by
    rcases clientFloor_cases x with ⟨hx, hg⟩ | ⟨hx, hg⟩ | ⟨hx, hg⟩ <;>
      rcases clientFloor_cases (8 * v + m) with ⟨hx', hg'⟩ | ⟨hx', hg'⟩ | ⟨hx', hg'⟩ <;> omega
  have hnumber : st.number.isSome = false := by
    rw [hsends.number]
    rfl
  refine ⟨8 * v + m, ⟨by omega, fun h5 => by omega, .inr (.inl (by omega))⟩,
    h.client_moves ⟨by omega, by omega, fun p hp => ?_, ?_, ?_,
    fun _ c' hc' => ?_, fun _ _ => by omega, fun _ => by omega, fun ho => ?_⟩ ht.same hcalls hc2s
    ?_ ht.opened⟩
  · obtain ⟨z, hz, rfl⟩ := mem_packets.mp hp
    rw [hsends.sent z hz]
    refine ⟨?_, fun n hn => Option.some.inj (hn.symm.trans hrank)⟩
    rw [hpay, ← hv]
    exact ofClient_piece hcmd (Nat.le_of_eq hv) h1 hn (fun _ => hx ▸ hacked) hall
  · rw [hfloor, ht.seen]
    exact h.logs.client
  · rw [hfloor]
    exact h.logs.behind
  · rw [ht.ccr] at hc'
    cases hc'
    refine ⟨hin _ (by omega) (by omega), ?_, .inr hrank, fun hack => absurd hack (hnot _),
      .of_state hfack⟩
    rw [if_neg (by omega), hsends.seqno, hat.number, if_neg (by omega)]
    congr 1
    omega
  · exact absurd (h.client.unopened ho).2 (hc ▸ Option.some_ne_none c)
  · have hnum : t.numberOf cfg = s.numberOf cfg := numberOf_congr hcalls
    have hgoes : v = if st.number.isSome then t.calls.length else v := by
      rw [hnumber]
      rfl
    have hn : n = t.numberOf cfg v := by
      rw [hnum]
      exact hn
    exact (ht.sending hsends hphase hws hgoes h1 hn).congr hnum.symm

/-- Consecutive calls differ in the number that they put on the wire. -/
theorem Lockstep.next_differs (h : Lockstep cfg s x y) (hcf : s.cfault = none)
    (hc : s.ccr = some c) (hidle : c.state = .idle) :
    wire (s.numberOf cfg (x / 8)) ≠ wire (seqnoSucc c.seqno) := by
  obtain ⟨hst, hnum, -, -, -⟩ := h.client.record hcf c hc
  rw [hidle] at hst
  have hx : x % 8 = 4 ∨ x % 8 = 5 := hst
  have hsmall := h.client.small (x / 8) (by omega)
  rcases hx with h4 | h5
  · rw [if_neg (by omega)] at hnum
    rw [← hnum] at hsmall ⊢
    simp only [wire, seqnoSucc]
    omega
  · -- the new number is 1, and a call before a renumbering has a number from the limit on
    have hwrap := h.client.wrap h5
    rw [if_pos h5] at hnum
    rw [hnum]
    simp only [SEQNO_LIMIT] at hwrap
    simp only [wire, seqnoSucc, SEQNO_START]
    omega

/-- **A call is given its number** and starts to send. -/
theorem Lockstep.section_numbers (h : Lockstep cfg s x y) (hcf : s.cfault = none)
    (hc : s.ccr = some c) (hidle : c.state = .idle)
    (hsends : SendsPiece cfg.subport { c with seqno := seqnoSucc c.seqno }
      (some (seqnoSucc c.seqno)) (seqnoSucc c.seqno) 1 nf st cmd)
    (ht : SectionTo s t q st v rsize ws) : ∃ x', Moves s t x x' ∧ Lockstep cfg t x' y := by
  have hat := h.client.record hcf c hc
  have hx : x % 8 = 4 ∨ x % 8 = 5 := by
    have hst := hat.state
    rw [hidle] at hst
    exact hst
  have hlen := h.client.calls
  have hcalls : t.calls = s.calls ++ [⟨seqnoSucc c.seqno, q⟩] := by
    rw [ht.calls, hsends.number]
    rfl
  have hpre : s.calls <+: t.calls := hcalls ▸ List.prefix_append _ _
  have htlen : t.calls.length = x / 8 + 1 := by
    rw [hcalls, List.length_append, hlen]
    rfl
  have hnew : t.numberOf cfg (x / 8 + 1) = seqnoSucc c.seqno := by
    rw [Session.numberOf, hcalls, hlen, List.getElem?_concat_length]
    rfl
  have hold : ∀ i, i ≤ x / 8 → t.numberOf cfg i = s.numberOf cfg i := fun i hi =>
    numberOf_mono hpre (hlen ▸ hi)
  obtain ⟨m, hphase, hm, hin, hnot, hfack, hcmd, hall⟩ := hsends.phase
  obtain ⟨rest, hpay⟩ := hsends.payload
  have hrank : (⟨st.cr.payload, t.calls.length⟩ : Packet).rank clientPhase =
      some (8 * (x / 8 + 1) + m) := by
    rw [hpay, htlen]
    exact rank_of_command (message_packet_command ..) hphase
  have hfloor : clientFloor (8 * (x / 8 + 1) + m) = clientFloor x := by
    rcases clientFloor_cases x with ⟨hx, hg⟩ | ⟨hx, hg⟩ | ⟨hx, hg⟩ <;>
      rcases clientFloor_cases (8 * (x / 8 + 1) + m) with ⟨hx', hg'⟩ | ⟨hx', hg'⟩ | ⟨hx', hg'⟩ <;>
        omega
  have hsent : ∀ p ∈ Session.packets t.calls.length st.sent,
      OfClient cfg t y p ∧ ∀ n, p.rank clientPhase = some n → n = 8 * (x / 8 + 1) + m := by
    intro p hp
    obtain ⟨z, hz, rfl⟩ := mem_packets.mp hp
    rw [hsends.sent z hz]
    refine ⟨?_, fun n hn => Option.some.inj (hn.symm.trans hrank)⟩
    rw [hpay]
    refine ofClient_piece hcmd (Nat.le_refl _) (by omega) ?_ (fun hne => absurd rfl hne) hall
    rw [htlen, hnew]
  refine ⟨8 * (x / 8 + 1) + m, ⟨by omega, fun _ => .inr (by omega), .inr (.inl (by omega))⟩, ?_, ?_,
    h.server_kept ht.same hpre (by omega)⟩
  · refine h.logs.client_moves ht.same ht.c2s (by omega) (fun p hp => (hsent p hp).2) ?_ ?_
    · rw [hfloor, ht.seen]
      exact h.logs.client
    · rw [hfloor]
      exact h.logs.behind
  · refine ⟨by omega, fun _ c' hc' => ?_, fun p hp => ?_, fun i hi => ?_, fun i hi => ?_,
      fun h5 => by omega, ?_, fun ho => ?_⟩
    · rw [ht.ccr] at hc'
      cases hc'
      refine ⟨hin _ (by omega) (by omega), ?_, .inr hrank, fun hack => absurd hack (hnot _),
        .of_state hfack⟩
      rw [if_neg (by omega), hsends.seqno, show (8 * (x / 8 + 1) + m) / 8 = x / 8 + 1 by omega,
        hnew]
    · rw [ht.c2s] at hp
      rcases List.mem_append.mp hp with hp | hp
      · exact (h.client.c2s p hp).mono hpre (Nat.le_refl y)
      · exact (hsent p hp).1
    · rcases Nat.lt_or_ge i (x / 8) with hlt | hge
      · rw [hold i (by omega), hold (i + 1) (by omega)]
        exact h.client.differ i (by omega)
      · obtain rfl : i = x / 8 := by omega
        rw [hold _ (Nat.le_refl _), hnew]
        exact h.next_differs hcf hc hidle
    · rw [hold i (by omega)]
      exact h.client.small i (by omega)
    · refine ht.sending hsends hphase (fun th hth =>
        h.client.sending.none (.inr (by omega)) th (ht.left.subset hth)) ?_ (by omega) hnew.symm
      rw [hsends.number, htlen]
      rfl
    · exact absurd (h.client.unopened (ht.opened.symm.trans ho)).2 (hc ▸ Option.some_ne_none c)

/-- A short message of no pieces is never sent: its last piece would be longer than the message.
Only from 2^32 - 1023 bytes on does the length of that piece wrap. -/
theorem lastPayload_pieces {sp cap : Nat} {buf : Bytes} (hq : ShortQuery q)
    (h : lastPayload sp cmd n q 1 nf cap = some buf) : 1 ≤ nf := by
  by_contra hzero
  obtain rfl : nf = 0 := by omega
  have hblen : blenOf q.length 0 = q.length + FR_SIZE := by
    rw [blenOf, if_pos (by omega), Nat.mul_zero, Nat.sub_zero]
    exact Nat.mod_eq_of_lt hq
  have hbig : ¬ (FR_SIZE * (1 - 1) + blenOf q.length 0 ≤ q.length ∧
      DP_SIZE + blenOf q.length 0 < cap) := by
    simp only [hblen, FR_SIZE]
    omega
  rw [lastPayload, if_neg hbig] at h
  cases h

/-- **The sections of `rpc_call`** stay in lockstep. -/
theorem Lockstep.section (h : Lockstep cfg s x y) (hcf : s.cfault = none)
    (hc : s.ccr = some c) (hq : ShortQuery q) (hst : CallSection 0 cfg.subport q c w st)
    (ht : SectionTo s t q st v rsize ws)
    (hw : ∀ n k nf, w = some (.frag n k nf) → (x = 8 * v + 1 ∧ 1 ≤ v ∧ n = s.numberOf cfg v ∧
      k < nf) ∧ ∀ th ∈ ws, th.sending = false) :
    ∃ x', Moves s t x x' ∧ Lockstep cfg t x' y := by
  have hat := h.client.record hcf c hc
  have hpiece : ∀ c' number n k nf cmd, Continues q c w c' number n k nf →
      SendsPiece cfg.subport c' number n k nf st cmd →
        ∃ x', Moves s t x x' ∧ Lockstep cfg t x' y := by
    intro c' number n k nf cmd hk hsends
    cases hk with
    | first hidle => exact h.section_numbers hcf hc hidle hsends ht
    | renumbered hidle => exact h.section_numbers hcf hc hidle hsends ht
    | next n k nf hfack =>
      obtain ⟨⟨hx, h1, hn, -⟩, hws⟩ := hw n k nf rfl
      exact h.section_continues hcf hc hfack hsends ht hx h1 hn hws
  have hstays : st.sent = [] → st.number = none → st.wait = none →
      (st.fault = none → ClientAt cfg s x y st.cr) →
      ∃ x', Moves s t x x' ∧ Lockstep cfg t x' y :=
    fun hsent hnumber hwait hrec => ⟨x, .refl, h.section_stays hc ht hsent hnumber hwait hrec⟩
  cases hst with
  | refused => exact hstays rfl rfl rfl fun _ => hat
  | timedout => exact hstays rfl rfl rfl fun _ => hat
  | undefined => exact hstays rfl rfl rfl nofun
  | renumber hidle hlim => exact h.section_renumbers hcf hc hidle hlim ht
  | fragment hk hlt hbuf => exact hpiece _ _ _ _ _ _ hk (sendsPiece_fragment hlt hbuf)
  | @query _ _ _ n k nf hk hge buf hbuf =>
    have hall : k = nf := by
      cases hk with
      | first => exact Nat.le_antisymm (lastPayload_pieces hq hbuf) (Nat.le_of_not_lt hge)
      | renumbered => exact Nat.le_antisymm (lastPayload_pieces hq hbuf) (Nat.le_of_not_lt hge)
      | next _ k _ =>
        have hlt := (hw _ _ _ rfl).1.2.2.2
        omega
    exact hpiece _ _ _ _ _ _ hk (sendsPiece_query hall hbuf)
  | collected n rsize hst =>
    obtain ⟨result, fault, he⟩ := rpcCallCollect_eq c rsize
    rw [he] at ht hstays
    refine hstays rfl rfl rfl fun _ => ?_
    refine ⟨hat.state, hat.number, hat.payload, hat.acked, .of_state fun hfack => ?_⟩
    have hfack : c.state = .fackSent := hfack
    rcases hst with hst | hst <;> rw [hfack] at hst <;> cases hst

end Sections

/-! ## The steps of the client -/

section Steps

variable {cfg : Config} {s t : Session} {x y : Nat} {c : CRecord} {a : Event}

/-- **`rpc_connect`.** -/
theorem Lockstep.connect (h : Lockstep cfg s x y) (ho : s.opened = false) :
    ∃ x', Moves s (s.clientConnect cfg) x x' ∧ Lockstep cfg (s.clientConnect cfg) x' y := by
  obtain ⟨rfl, hnone⟩ := h.client.unopened ho
  have hlen : 0 = s.calls.length := h.client.calls
  have hsame : ServerSame s (s.clientConnect cfg) := ⟨rfl, rfl, rfl, rfl, rfl, rfl, rfl, rfl⟩
  have hcmd : (⟨connectPayload (cpComplete cfg.subport .connect cfg.seqno 1 1) (cstr cfg.svcName),
      s.calls.length⟩ : Packet).command = some .connect := message_packet_command ..
  have hrank : (⟨connectPayload (cpComplete cfg.subport .connect cfg.seqno 1 1) (cstr cfg.svcName),
      s.calls.length⟩ : Packet).rank clientPhase = some 2 := by
    rw [rank_of_command hcmd rfl, ← hlen]
    rfl
  have hsent : ∀ p ∈ Session.packets s.calls.length
      [(rpcConnectBegin 0 cfg.subport cfg.svcName cfg.seqno).2],
      OfClient cfg s y p ∧ ∀ n, p.rank clientPhase = some n → n = 2 := by
    intro p hp
    obtain ⟨z, hz, rfl⟩ := mem_packets.mp hp
    rw [List.mem_singleton.mp hz]
    refine ⟨⟨Nat.le_refl _, fun hd => ?_, fun _ => ⟨hlen.symm, ?_⟩, fun hd => ?_, fun hd => ?_⟩,
      fun n hn => Option.some.inj (hn.symm.trans hrank)⟩
    · have hd := hcmd.symm.trans hd
      cases hd
    · exact message_packet_seqno ..
    · rcases hd with hd | hd <;> have hd := hcmd.symm.trans hd <;> cases hd
    · have hd := hcmd.symm.trans hd
      cases hd
  refine ⟨2, ⟨by omega, fun h5 => by omega, .inr (.inl (by omega))⟩,
    h.logs.client_moves hsame rfl (by omega) (fun p hp => (hsent p hp).2)
    h.logs.client h.logs.behind, h.client.kept rfl rfl (fun _ c hc => ?_) (fun p hp => ?_)
    (fun h4 => by omega) (fun h5 => by omega) ?_ nofun, h.server_kept hsame List.prefix_rfl
    (by omega)⟩
  · cases hc
    refine ⟨rfl, rfl, .inr ?_, by simp [Acked], .of_state (by simp)⟩
    rw [setState_payload, setPayload_payload, List.take_length]
    exact hrank
  · exact (List.mem_append.mp hp).imp id fun hp => (hsent p hp).1
  · refine sendingAt_none fun th hth => ?_
    rcases List.mem_append.mp hth with hth | hth
    · exact h.client.sending.none (.inl (by omega)) th hth
    · rw [List.mem_singleton.mp hth]
      rfl

/-- A tick sends the payload again where the record waits for an acknowledgement, or a ping. -/
theorem Ticked.resent {sp : Nat} {o : Option CRecord} {sent : List Sent} {z : Sent}
    (h : Ticked sp c o sent) (hz : z ∈ sent) :
    (z.bytes = c.payload ∧ c.state.awaitsAck = true) ∨
      ∃ n, z.bytes = controlPayload (cpComplete sp .ping n 1 1) := by
  cases h with
  | pinged q hq =>
    rw [List.mem_singleton.mp hz]
    exact .inr ⟨_, rfl⟩
  | retried q hq hwaits =>
    rw [List.mem_singleton.mp hz]
    exact .inl ⟨hq.payload, hwaits⟩
  | _ => cases hz

/-- **The client's timer.** -/
theorem Lockstep.ctick (h : Lockstep cfg s x y) (hk : Kinds s) (hcf : s.cfault = none)
    (hc : s.ccr = some c) : Lockstep cfg (s.clientTick cfg c) x y := by
  have htick := timerRecord_cases cfg.subport c
  have hat := h.client.record hcf c hc
  refine h.client_moves (h.client_stays (Nat.le_refl _) (fun p hp => ?_) (fun _ c' hc' => ?_)
    fun hnone => ?_) ⟨rfl, rfl, rfl, rfl, rfl, rfl, rfl, rfl⟩ rfl rfl h.client.sending rfl
  · obtain ⟨z, hz, rfl⟩ := mem_packets.mp hp
    rcases htick.resent hz with ⟨hb, hwaits⟩ | ⟨n, hb⟩ <;> rw [hb]
    · exact h.resends hk hcf hc (hat.state.awaits hwaits)
    · have hcmd : (⟨controlPayload (cpComplete cfg.subport .ping n 1 1), s.calls.length⟩ :
          Packet).command = some .ping := message_packet_command ..
      refine ⟨⟨Nat.le_refl _, fun hd => ?_, fun hd => ?_, fun hd => ?_, fun hd => ?_⟩,
        fun n hn => ?_⟩
      · cases hcmd.symm.trans hd
      · cases hcmd.symm.trans hd
      · rcases hd with hd | hd <;> cases hcmd.symm.trans hd
      · cases hcmd.symm.trans hd
      · cases hn.symm.trans (rank_none hcmd rfl)
  · obtain ⟨hseqno, -, hresp, hlast⟩ := htick.kept hc'
    refine ⟨?_, hseqno ▸ hat.number, ?_, fun hack => ?_, hat.assembles.kept hseqno hresp hlast ?_⟩
    · rcases htick.state hc' with hto | hsame
      · rw [hto]
        exact hat.state.le
      · rw [hsame]
        exact hat.state
    · rw [htick.payload.1 c' hc']
      exact hat.payload
    · rcases htick.state hc' with hto | hsame
      · rw [hto] at hack
        exact absurd hack (by simp [Acked])
      · exact hat.acked (hsame ▸ hack)
    · intro hfack
      rcases htick.state hc' with hto | hsame
      · rw [hto] at hfack
        cases hfack
      · exact hsame.symm.trans hfack
  · rw [hc] at hnone
    cases hnone

/-- A client that has executed an undefined operation. -/
theorem Lockstep.client_faults (h : Lockstep cfg s x y) (hc : s.ccr = none) {ws : List Thread}
    (hws : ws.Sublist s.waiting) (f : Fault) :
    Lockstep cfg { s with waiting := ws, cfault := some f } x y := by
  have hnil : s.c2s = s.c2s ++ [] := (List.append_nil _).symm
  refine h.client_moves (h.client_stays (Nat.le_refl _) (fun p hp => ?_) nofun fun _ => hc)
    ⟨rfl, rfl, rfl, rfl, rfl, rfl, rfl, rfl⟩ rfl hnil (h.client.sending.sublist hws) rfl
  cases hp

/-- A section of `rpc_call` leads to the state that it is written back to. -/
theorem sectionTo_clientSection {s' : Session} (q : Bytes) (st : CallStep) (v rsize : Nat)
    (hsame : ServerSame s s') (hcalls : s'.calls = s.calls) (hc2s : s'.c2s = s.c2s)
    (hseen : s'.cseen = s.cseen) (hopened : s'.opened = s.opened)
    (hepoch : s'.epoch = s.epoch) (hissued : s'.issued = s.issued)
    (hwait : s'.waiting.Sublist s.waiting) (returns : List Returned) (unread : Option Nat) :
    SectionTo s { s'.clientSection v q rsize st with returns := returns, unread := unread } q st v
      rsize s'.waiting := by
  obtain ⟨h1, h2, h3, h4, h5, h6, h7, h8⟩ := hsame
  refine ⟨⟨h1, h2, h3, h4, h5, h6, h7, h8⟩, ?_, ?_, rfl, ?_, ?_, hseen, rfl, hopened, hwait, rfl⟩
  · rw [← hepoch]
    rfl
  · rw [← hissued, ← hcalls]
    rfl
  · rw [callsAfter, ← hcalls]
    rfl
  · rw [← hc2s]
    rfl

theorem sectionTo_call (s : Session) (q : Bytes) (st : CallStep) (rsize : Nat) :
    SectionTo s (s.clientSection 0 q rsize st) q st 0 rsize s.waiting :=
  sectionTo_clientSection q st 0 rsize ⟨rfl, rfl, rfl, rfl, rfl, rfl, rfl, rfl⟩ rfl rfl rfl rfl rfl
    rfl (.refl _) s.returns s.unread

theorem sectionTo_resume (s : Session) (q : Bytes) (st : CallStep) (v rsize i : Nat)
    (returns : List Returned) (unread : Option Nat) :
    SectionTo s { { s with waiting := s.waiting.eraseIdx i }.clientSection v q rsize st with
      returns := returns, unread := unread } q st v rsize (s.waiting.eraseIdx i) := by
  have hsame : ServerSame s { s with waiting := s.waiting.eraseIdx i } :=
    ⟨rfl, rfl, rfl, rfl, rfl, rfl, rfl, rfl⟩
  exact sectionTo_clientSection q st v rsize hsame rfl rfl rfl rfl rfl rfl
    (List.eraseIdx_sublist ..) returns unread

/-- **`rpc_call`, up to its first wait.** -/
theorem Lockstep.call (h : Lockstep cfg s x y) (hcf : s.cfault = none) (hc : s.ccr = some c)
    {q : Bytes} (hq : ShortQuery q) (rsize : Nat) :
    ∃ x', Moves s (s.clientSection 0 q rsize (rpcCallBegin 0 cfg.subport c q)) x x' ∧
      Lockstep cfg (s.clientSection 0 q rsize (rpcCallBegin 0 cfg.subport c q)) x' y :=
  h.section hcf hc hq (rpcCallBegin_section 0 cfg.subport q c) (sectionTo_call s q _ rsize) nofun

/-- **`rpc_call` goes on** after a wait. -/
theorem Lockstep.resume (h : Lockstep cfg s x y) (hcf : s.cfault = none) (hc : s.ccr = some c)
    {i v rsize : Nat} {q : Bytes} {w : CallWait} {st : CallStep}
    (hi : s.waiting[i]? = some (.call v q rsize w)) (hq : ShortQuery q)
    (hst : rpcCallResume 0 cfg.subport c q rsize w = some st) (returns : List Returned)
    (unread : Option Nat) {t : Session}
    (ht : t = { { s with waiting := s.waiting.eraseIdx i }.clientSection v q rsize st with
      returns := returns, unread := unread }) : ∃ x', Moves s t x x' ∧ Lockstep cfg t x' y := by
  subst ht
  refine h.section hcf hc hq (rpcCallResume_section hst) (sectionTo_resume s q st v rsize i _ _)
    fun n k nf hw => ?_
  cases hw
  exact ⟨h.client.sending.thread v q rsize n k nf (List.mem_of_getElem? hi),
    h.client.sending.erase hi rfl⟩

end Steps

end Hwdb.Rpc
