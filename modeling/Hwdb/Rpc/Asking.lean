import Hwdb.Rpc.Orderly

/-!
# What the server is asked

Over channels that keep their order every query reaches the service queue at most once, in the
order of the calls, and as it was sent, through any number of renumberings.

* `CallOf`, `Asks` — a call, its number and its query.
* `Asking` — the pieces on their way, the record that assembles them, and the queue.
* `asked_orderly` — what is in the queue, and what the workers answer.
-/

set_option autoImplicit false

namespace Hwdb.Rpc

open Hwdb.Lib

/-- Call `v` was given number `n`, and `q` is its query. -/
def CallOf (s : Session) (v n : Nat) (q : Bytes) : Prop :=
  1 ≤ v ∧ s.calls[v - 1]? = some ⟨n, q⟩

/-- Call `v` asks `q`, of 1 to 65535 bytes, and has `n` on the wire. -/
def Asks (s : Session) (v n : Nat) (q : Bytes) : Prop :=
  ∃ m, CallOf s v m q ∧ n = wire m ∧ Sendable q

/-- A thread of call `v` waits under its number. -/
def WaitsAt (s : Session) (v : Nat) (q : Bytes) : CallWait → Prop
  | .seqno => True
  | .frag n _ nf => CallOf s v n q ∧ nf = nfragsOf q.length
  | .query n => CallOf s v n q

/-- The queries on their way, in the server's record and in the queue of a server that has come
to `y`. -/
structure Asking (cfg : Config) (s : Session) (y : Nat) : Prop where
  c2s : ∀ p ∈ s.c2s, p.command = some .query ∨ p.command = some .fragment → ∀ n q,
    Asks s p.call n q → Carries cfg.subport .query n q p.bytes
  threads : ∀ v q rsize w, Thread.call v q rsize w ∈ s.waiting → WaitsAt s v q w
  record : ∀ c, s.scr = some c → Assembles (Asks s (y / 8)) c
  queue : ∀ e ∈ s.appended, ∀ q, Asks s e.call e.number q → Assembled q e.buf
  past : ∀ e ∈ s.appended, 1 ≤ e.call ∧ 8 * e.call + 2 ≤ y ∧
    e.number = wire (s.numberOf cfg e.call)
  order : (s.appended.map (·.call)).Pairwise (· < ·)
  held : ∀ e ∈ s.queue ++ s.held, e ∈ s.appended
  answered : ∀ a ∈ s.responses, ∃ e ∈ s.appended, e.call = a.call ∧ e.number = a.number

section Calls

variable {cfg : Config} {s t : Session} {v n : Nat} {q : Bytes} {w : CallWait}

theorem CallOf.mono (h : CallOf s v n q) (hle : s.calls <+: t.calls) : CallOf t v n q := by
  obtain ⟨h1, hget⟩ := h
  obtain ⟨more, hmore⟩ := hle
  refine ⟨h1, ?_⟩
  rw [← hmore, List.getElem?_append_left (List.getElem?_eq_some_iff.mp hget).1]
  exact hget

/-- A call that was there before is the same. -/
theorem CallOf.old (h : CallOf t v n q) (hle : s.calls <+: t.calls) (hv : v ≤ s.calls.length) :
    CallOf s v n q := by
  obtain ⟨h1, hget⟩ := h
  obtain ⟨more, hmore⟩ := hle
  refine ⟨h1, ?_⟩
  rwa [← hmore, List.getElem?_append_left (by omega)] at hget

theorem CallOf.numberOf (h : CallOf s v n q) : s.numberOf cfg v = n := by
  obtain ⟨h1, hget⟩ := h
  obtain ⟨i, rfl⟩ : ∃ i, v = i + 1 := ⟨v - 1, by omega⟩
  have hget : s.calls[i]? = some ⟨n, q⟩ := hget
  rw [Session.numberOf, hget]
  rfl

theorem CallOf.mem (h : CallOf s v n q) : ⟨n, q⟩ ∈ s.calls := List.mem_of_getElem? h.2

theorem CallOf.le (h : CallOf s v n q) : v ≤ s.calls.length := by
  have hlt := (List.getElem?_eq_some_iff.mp h.2).1
  omega

/-- The call that has just been numbered. -/
theorem callOf_last (hcalls : t.calls = s.calls ++ [⟨n, q⟩]) : CallOf t t.calls.length n q := by
  have hlen : t.calls.length = s.calls.length + 1 := by
    rw [hcalls, List.length_append]
    rfl
  refine ⟨by omega, ?_⟩
  rw [hlen, Nat.add_sub_cancel, hcalls, List.getElem?_concat_length]

theorem asks_sendable (v : Nat) : AllSendable (Asks s v) := by
  rintro n q ⟨m, -, -, hq⟩
  exact hq

/-- The number on the wire is the one that the header has. -/
theorem Asks.number (h : Asks s v n q) : n = wire (s.numberOf cfg v) := by
  obtain ⟨m, hcall, rfl, -⟩ := h
  rw [hcall.numberOf]

theorem Asks.old (h : Asks t v n q) (hle : s.calls <+: t.calls) (hv : v ≤ s.calls.length) :
    Asks s v n q := by
  obtain ⟨m, hcall, hn, hq⟩ := h
  exact ⟨m, hcall.old hle hv, hn, hq⟩

/-- A header holds the last 32 bits of a number. -/
theorem pieceMessage_wire {sp k : Nat} {cmd : Command} :
    pieceMessage sp cmd (wire n) q k = pieceMessage sp cmd n q k := by
  have hbyte : ∀ a b : Nat, a % 256 = b % 256 → byteOf a = byteOf b := fun a b hab =>
    UInt8.toNat_inj.mp (by rw [toNat_byteOf, toNat_byteOf, hab])
  have hbytes : be32 (wire n) = be32 n := by
    rw [be32, be32, wire, hbyte (n % 4294967296 / 16777216) (n / 16777216) (by omega),
      hbyte (n % 4294967296 / 65536) (n / 65536) (by omega),
      hbyte (n % 4294967296 / 256) (n / 256) (by omega),
      hbyte (n % 4294967296) n (by omega)]
  simp only [pieceMessage, dataPayload, message, PayloadHeader.bytes, cpComplete, hbytes]

theorem WaitsAt.mono (h : WaitsAt s v q w) (hle : s.calls <+: t.calls) : WaitsAt t v q w := by
  cases w with
  | seqno => trivial
  | frag => exact ⟨h.1.mono hle, h.2⟩
  | query => exact CallOf.mono h hle

end Calls

/-! ## The client -/

section Client

variable {cfg : Config} {s t : Session} {x y v rsize n k nf : Nat} {q : Bytes} {c c' : CRecord}
  {w : Option CallWait} {number : Option Nat} {st : CallStep} {ws : List Thread} {a : Event}

/-- A section that goes on to a piece knows the call and the fragments. -/
theorem Continues.asks (hk : Continues q c w c' number n k nf)
    (ht : t.calls = callsAfter s q number)
    (hw : ∀ m j l, w = some (.frag m j l) →
      CallOf s s.calls.length m q ∧ l = nfragsOf q.length ∧ j < l) :
    CallOf t t.calls.length n q ∧ nf = nfragsOf q.length ∧ 1 ≤ k ∧ (Sendable q → k ≤ nf) := by
  have hone : Sendable q → 1 ≤ nfragsOf q.length := fun hq => by
    rw [nfragsOf_eq hq.1 hq.2]
    exact pieceCount_pos FR_SIZE q
  cases hk with
  | first => exact ⟨callOf_last ht, rfl, Nat.le_refl 1, hone⟩
  | renumbered => exact ⟨callOf_last ht, rfl, Nat.le_refl 1, hone⟩
  | next m j l =>
    obtain ⟨hcall, hnf, hlt⟩ := hw _ _ _ rfl
    have hcalls : t.calls = s.calls := ht.trans (List.append_nil _)
    rw [← hcalls] at hcall
    exact ⟨hcall.mono (hcalls ▸ List.prefix_rfl), hnf, Nat.le_add_left 1 j, fun _ => hlt⟩

/-- **What a section sends** is a piece of the query of its call. -/
theorem CallSection.carries {z : Sent} (hst : CallSection 0 cfg.subport q c w st)
    (ht : t.calls = callsAfter s q st.number)
    (hw : ∀ m j l, w = some (.frag m j l) →
      CallOf s s.calls.length m q ∧ l = nfragsOf q.length ∧ j < l)
    (hz : z ∈ st.sent) {v : Nat} (hcmd : (⟨z.bytes, v⟩ : Packet).command = some .query ∨
      (⟨z.bytes, v⟩ : Packet).command = some .fragment) {m : Nat} {r : Bytes}
    (hr : Asks t t.calls.length m r) : Carries cfg.subport .query m r z.bytes := by
  obtain ⟨m', hlast, rfl, hq⟩ := hr
  have hsame : ∀ {n : Nat}, CallOf t t.calls.length n q → n = m' ∧ q = r := by
    intro n hn
    have heq := hn.2.symm.trans hlast.2
    cases heq
    exact ⟨rfl, rfl⟩
  cases hst with
  | refused => cases hz
  | timedout => cases hz
  | undefined => cases hz
  | renumber =>
    rw [List.mem_singleton.mp hz] at hcmd
    have hseqno : (⟨seqnoPayload cfg.subport, v⟩ : Packet).command = some .seqno :=
      message_packet_command ..
    rcases hcmd with hcmd | hcmd <;> cases hseqno.symm.trans hcmd
  | collected n rsize =>
    obtain ⟨result, fault, he⟩ := rpcCallCollect_eq c rsize
    rw [he] at hz
    cases hz
  | @fragment _ _ _ n k nf hk hlt buf hbuf =>
    obtain ⟨hcall, hnf, h1, -⟩ := hk.asks ht hw
    obtain ⟨rfl, rfl⟩ := hsame hcall
    rw [List.mem_singleton.mp hz]
    rw [hnf, nfragsOf_eq hq.1 hq.2] at hlt hbuf
    have hp : _ = some (pieceMessage cfg.subport .query n q k) := fragmentPayload_piece h1 hlt
    rw [hbuf] at hp
    exact ⟨k, h1, Nat.le_of_lt hlt, (Option.some.inj hp).trans pieceMessage_wire.symm⟩
  | @query _ _ _ n k nf hk hge buf hbuf =>
    obtain ⟨hcall, hnf, h1, hle⟩ := hk.asks ht hw
    obtain ⟨rfl, rfl⟩ := hsame hcall
    rw [List.mem_singleton.mp hz]
    obtain rfl : k = nf := by
      have hle := hle hq
      omega
    rw [hnf, nfragsOf_eq hq.1 hq.2] at hbuf
    have hp : lastPayload cfg.subport .query n q (pieces q) (pieces q) 65536 = _ :=
      lastPayload_piece hq (by decide)
    rw [hbuf] at hp
    exact ⟨pieces q, pieceCount_pos FR_SIZE q, Nat.le_refl _,
      (Option.some.inj hp).trans pieceMessage_wire.symm⟩

/-- What a section waits for belongs to the call that it goes on with. -/
theorem CallSection.waitsAt {w' : CallWait} (hst : CallSection 0 cfg.subport q c w st)
    (ht : t.calls = callsAfter s q st.number)
    (hw : ∀ m j l, w = some (.frag m j l) →
      CallOf s s.calls.length m q ∧ l = nfragsOf q.length ∧ j < l)
    (hv : ∀ m j l, w = some (.frag m j l) → v = s.calls.length) (hwait : st.wait = some w') :
    WaitsAt t (if st.number.isSome then t.calls.length else v) q w' := by
  -- without a new number the thread goes on with the last call
  have hcall : ∀ {c' : CRecord} {number : Option Nat} {n k nf : Nat},
      Continues q c w c' number n k nf → t.calls = callsAfter s q number →
        (if number.isSome then t.calls.length else v) = t.calls.length := by
    intro c' number n k nf hk hcalls
    cases hk with
    | first => rfl
    | renumbered => rfl
    | next m j l =>
      have hsame : t.calls = s.calls := hcalls.trans (List.append_nil _)
      rw [hsame]
      exact hv _ _ _ rfl
  cases hst with
  | refused => cases hwait
  | timedout => cases hwait
  | undefined => cases hwait
  | renumber =>
    cases hwait
    trivial
  | collected n rsize =>
    obtain ⟨result, fault, he⟩ := rpcCallCollect_eq c rsize
    rw [he] at hwait
    cases hwait
  | fragment hk =>
    cases hwait
    obtain ⟨hn, hnf, -⟩ := hk.asks ht hw
    rw [hcall hk ht]
    exact ⟨hn, hnf⟩
  | query hk =>
    cases hwait
    rw [hcall hk ht]
    exact (hk.asks ht hw).1

/-- The thread that a section leaves waiting. -/
theorem mem_call_thread {v' rsize' : Nat} {q' : Bytes} {w' : CallWait} {wait : Option CallWait}
    (h : Thread.call v' q' rsize' w' ∈ (wait.map (Thread.call v q rsize)).toList) :
    wait = some w' ∧ v' = v ∧ q' = q := by
  cases wait with
  | none => cases h
  | some w =>
    cases List.mem_singleton.mp h
    exact ⟨rfl, rfl, rfl⟩

/-- A thread that sends fragments belongs to the last call. -/
theorem Asking.sending (h : Asking cfg s y) (hl : Lockstep cfg s x y) {m j l : Nat}
    (hth : Thread.call v q rsize (.frag m j l) ∈ s.waiting) :
    v = s.calls.length ∧ CallOf s s.calls.length m q ∧ l = nfragsOf q.length ∧ j < l := by
  obtain ⟨hx, h1, -, hlt⟩ := hl.client.sending.thread _ _ _ _ _ _ hth
  obtain ⟨hcall, hnf⟩ := h.threads _ _ _ _ hth
  have hcalls := hl.client.calls
  obtain rfl : v = s.calls.length := by omega
  exact ⟨rfl, hcall, hnf, hlt⟩

/-- A datagram that the client builds for a query is a piece of it. -/
theorem ClientSends.carries {p : Packet} (hp : ClientSends cfg s t p) (h : Asking cfg s y)
    (hl : Lockstep cfg s x y) (hcmd : p.command = some .query ∨ p.command = some .fragment)
    {m : Nat} {r : Bytes} (hr : Asks t p.call m r) : Carries cfg.subport .query m r p.bytes := by
  have hother : ∀ {cmd : Command}, p.command = some cmd → cmd ≠ .query → cmd ≠ .fragment →
      Carries cfg.subport .query m r p.bytes := by
    intro cmd hc hquery hfragment
    rcases hcmd with hcmd | hcmd
    · exact absurd (Option.some.inj (hc.symm.trans hcmd)) hquery
    · exact absurd (Option.some.inj (hc.symm.trans hcmd)) hfragment
  cases hp with
  | connect => exact hother (message_packet_command ..) nofun nofun
  | disconnect => exact hother (message_packet_command ..) nofun nofun
  | ping => exact hother (message_packet_command ..) nofun nofun
  | answer stale hd hb =>
    obtain ⟨cmd, ack, fnum, nfrags, -, hack, rfl⟩ := hb
    have hnot := answer_not_query hack
    simp only [List.mem_cons, List.not_mem_nil, or_false, not_or] at hnot
    exact hother (message_packet_command ..) (by tauto) (by tauto)
  | call hcf hc hw hst hcalls hx =>
    refine hst.carries hcalls (fun n j l hfrag => ?_) hx hcmd hr
    obtain ⟨v, rsize, hth⟩ := hw _ hfrag
    exact (h.sending hl hth).2

/-- **What the threads wait for** belongs to their calls. -/
theorem Asking.threads_step (h : Asking cfg s y) (hl : Lockstep cfg s x y)
    (ht : Stepped cfg s a t) :
    ∀ v q rsize w, Thread.call v q rsize w ∈ t.waiting → WaitsAt t v q w := by
  have hle := ht.calls
  have hold : ∀ v q rsize w, Thread.call v q rsize w ∈ s.waiting → WaitsAt t v q w :=
    fun v q rsize w hm => (h.threads v q rsize w hm).mono hle
  have herase : ∀ i v q rsize w, Thread.call v q rsize w ∈ s.waiting.eraseIdx i →
      WaitsAt t v q w := fun i v q rsize w hm => hold v q rsize w (List.mem_of_mem_eraseIdx hm)
  cases ht with
  | connect =>
    intro v q rsize w hm
    rcases List.mem_append.mp hm with hm | hm
    · exact hold v q rsize w hm
    · cases List.mem_singleton.mp hm
  | cdead _ _ hws => exact fun v q rsize w hm => hold v q rsize w (hws.subset hm)
  | @call q rsize c _ _ hc =>
    intro v q' rsize' w hm
    rcases List.mem_append.mp hm with hm | hm
    · exact hold v q' rsize' w hm
    · obtain ⟨hwait, rfl, rfl⟩ := mem_call_thread hm
      exact (rpcCallBegin_section 0 cfg.subport q' c).waitsAt rfl nofun nofun hwait
  | disconnect =>
    intro v q rsize w hm
    rcases List.mem_append.mp hm with hm | hm
    · exact hold v q rsize w hm
    · cases List.mem_singleton.mp hm
  | connected => exact herase _
  | refused => exact herase _
  | disconnected => exact herase _
  | @resumed i v q rsize w c st hcf hi hc hst =>
    have hsending : ∀ m j l, some w = some (.frag m j l) →
        v = s.calls.length ∧ CallOf s s.calls.length m q ∧ l = nfragsOf q.length ∧ j < l := by
      intro m j l hw
      cases hw
      exact h.sending hl (List.mem_of_getElem? hi)
    intro v' q' rsize' w' hm
    rcases List.mem_append.mp hm with hm | hm
    · exact herase i v' q' rsize' w' hm
    · obtain ⟨hwait, rfl, rfl⟩ := mem_call_thread hm
      exact (rpcCallResume_section hst).waitsAt rfl (fun m j l hw => (hsending m j l hw).2)
        (fun m j l hw => (hsending m j l hw).1) hwait
  | _ => exact hold

end Client

/-! ## The server -/

section Reader

variable {stable : Bytes → Option Nat} {nep : Nat} {d : Received} {cr : Option CRecord}
  {out : Outcome} {c c' : CRecord}

/-- What is appended is a `QUERY` that the record expects. -/
theorem Serves.queued (h : Serves stable nep d cr out) (hq : out.queued ≠ none) :
    d.command = some .query ∧ ∃ c, cr = some c ∧
      (c.state = .idle ∨ c.state = .responseSent ∨ c.state = .fackSent) := by
  cases h with
  | queryWhole c sr hc _ hst => exact ⟨hc, c, rfl, hst.imp_right .inl⟩
  | queryLast c sr p hc _ hst => exact ⟨hc, c, rfl, .inr (.inr hst)⟩
  | _ => exact absurd rfl hq

/-- A record that is assembling was doing so under the same number, or has just taken a fragment
and its number. -/
theorem Serves.collects (h : Serves stable nep d cr out) (hc : out.cr = some c')
    (hst : c'.state = .fackSent) : ∃ c, cr = some c ∧
      (c'.seqno = c.seqno ∨ (d.command = some .fragment ∧ c'.seqno = d.seqno)) := by
  cases h with
  | kept => exact ⟨c', hc, .inl rfl⟩
  | failed => exact ⟨c', hc, .inl rfl⟩
  | resent c => cases hc; exact ⟨c, rfl, .inl rfl⟩
  | ping c => cases hc; exact ⟨c', rfl, .inl rfl⟩
  | pack c => cases hc; exact ⟨c, rfl, .inl rfl⟩
  | fragmentFirst c p hcmd => cases hc; exact ⟨c, rfl, .inr ⟨hcmd, rfl⟩⟩
  | fragmentNext c p hcmd => cases hc; exact ⟨c, rfl, .inl rfl⟩
  | disconnect =>
    obtain ⟨c, rfl, rfl⟩ := Option.map_eq_some_iff.mp hc
    cases hst
  | _ => cases hc; cases hst

end Reader

section Server

variable {cfg : Config} {s t : Session} {x x' y y' i : Nat} {p : Packet} {stale : Bytes} {a : Event}

/-- **A piece of a query** under the number of the server's record is one of its call. -/
theorem Lockstep.query_call (h : Lockstep cfg s x y) (hp : s.c2s[i]? = some p) (hi : s.sseen ≤ i)
    (hcmd : p.command = some .query ∨ p.command = some .fragment)
    (hn : p.seqno = wire (s.numberOf cfg (y / 8))) : p.call = y / 8 := by
  have hof := h.client.c2s p (List.mem_of_getElem? hp)
  have hcall : ∀ n, n = 1 ∨ n = 2 → p.rank clientPhase = some (8 * p.call + n) →
      p.call = y / 8 := by
    intro n hphase hrank
    obtain ⟨h1, h2, -⟩ := h.logs.reaches hp hi hrank
    have hbehind := h.logs.behind
    have hcalls := h.client.calls
    have hnear : p.call = y / 8 ∨ p.call = y / 8 + 1 := by
      rcases serverFloor_cases y with ⟨hy, hf⟩ | ⟨hy, hf⟩ <;>
        rcases clientFloor_cases x with ⟨hx, hg⟩ | ⟨hx, hg⟩ | ⟨hx, hg⟩ <;> omega
    refine hnear.resolve_right fun hnext => ?_
    -- the next call has another number
    have hdiffer := h.client.differ (y / 8) (by omega)
    rw [← hn, ← hnext] at hdiffer
    exact hdiffer (hof.query hcmd).2.1
  rcases hcmd with hcmd | hcmd
  · exact hcall 2 (.inr rfl) (rank_of_command hcmd rfl)
  · exact hcall 1 (.inl rfl) (rank_of_command hcmd rfl)

/-- What the server is given is a piece of whatever the call of the datagram asks. -/
theorem Asking.sends (h : Asking cfg s y) (hk : Kinds s) (hp : s.c2s[i]? = some p)
    (hcmd : (p.received stale).command = some .query ∨
      (p.received stale).command = some .fragment) :
    Sends (Asks s p.call) .query (p.received stale) := by
  have hin := List.mem_of_getElem? hp
  have hwhole := received_whole (p := p) (hk.client p hin).whole stale
  rw [hwhole.1] at hcmd
  exact fun q hq => ⟨cfg.subport, h.c2s p hin hcmd _ q hq⟩

/-- The record assembles what the call of the datagram asks, if it asks anything under the
record's number. -/
theorem Asking.assembles (h : Asking cfg s y) (hl : Lockstep cfg s x y) (hk : Kinds s)
    (hp : s.c2s[i]? = some p) (hi : s.sseen ≤ i)
    (hcmd : (p.received stale).command = some .query ∨
      (p.received stale).command = some .fragment) {c : CRecord} (hc : s.scr = some c) :
    Assembles (Asks s p.call) c := by
  have hin := List.mem_of_getElem? hp
  have hwhole := received_whole (p := p) (hk.client p hin).whole stale
  rw [hwhole.1] at hcmd
  intro hfack q hq
  have hat := hl.server.record c hc
  have hst := hat.state
  rw [hfack] at hst
  have hy : y % 8 = 1 := hst
  have hnum := hat.number
  rw [if_neg (by omega)] at hnum
  have hseqno := ((hl.client.c2s p hin).query hcmd).2.1
  have hcall := hl.query_call hp hi hcmd (hseqno.trans (hq.number.symm.trans hnum))
  rw [hcall] at hq
  exact h.record c hc hfack q hq

/-- **The reader of the server.** -/
theorem Asking.srecv (h : Asking cfg s y) (hl : Lockstep cfg s x y) (hk : Kinds s) (hr : Roles s)
    (hp : s.c2s[i]? = some p) (hi : s.sseen ≤ i) (hle : y ≤ y')
    (hl' : Lockstep cfg (s.serverRecv cfg i p.call (p.received stale)) x' y')
    (hno : ¬ TakesPart s (.srecv i stale)) :
    Asking cfg (s.serverRecv cfg i p.call (p.received stale)) y' := by
  have hin := List.mem_of_getElem? hp
  have hwhole := received_whole (p := p) (hk.client p hin).whole stale
  have hserves : Serves cfg.stable s.born (p.received stale) s.scr _ := hr.serves hk hin stale
  have hscall : y' / 8 = s.recvCall (readerSwitch cfg.stable s.born s.scr (p.received stale)).cr
      (p.received stale) p.call := hl'.server.call
  have hsends : (p.received stale).command = some .query ∨
      (p.received stale).command = some .fragment →
      Sends (Asks s p.call) .query (p.received stale) := h.sends hk hp
  have hasm : ∀ c, s.scr = some c → (p.received stale).command = some .query ∨
      (p.received stale).command = some .fragment → Assembles (Asks s p.call) c :=
    fun c hc hcmd => h.assembles hl hk hp hi hcmd hc
  have hqueued : ∀ e ∈ (s.serverRecv cfg i p.call (p.received stale)).appended,
      e ∈ s.appended ∨ (e ∈ (s.serverRecv cfg i p.call (p.received stale)).queue ∧
        (readerSwitch cfg.stable s.born s.scr (p.received stale)).queued ≠ none ∧
        ∃ q, (readerSwitch cfg.stable s.born s.scr (p.received stale)).queued = some q ∧
          e.number = (p.received stale).seqno ∧ e.call = p.call ∧ e.buf = q.buf) := by
    intro e he
    refine (List.mem_append.mp he).imp id fun he => ⟨List.mem_append_right _ he, ?_⟩
    obtain ⟨q, hq, rfl⟩ := List.mem_map.mp he
    have hq := Option.mem_toList.mp hq
    exact ⟨hq ▸ Option.some_ne_none q, q, hq, rfl, rfl, rfl⟩
  -- what the server's record is at when it has taken the query
  have hfresh : (readerSwitch cfg.stable s.born s.scr (p.received stale)).queued ≠ none →
      y % 8 ≠ 2 := by
    intro hne
    obtain ⟨-, c, hc, hst⟩ := hserves.queued hne
    have hstate := (hl.server.record c hc).state
    rcases hst with hst | hst | hst <;> rw [hst] at hstate <;> simp only [ServerIn] at hstate <;>
      omega
  have hpast : ∀ e ∈ (s.serverRecv cfg i p.call (p.received stale)).queue,
      y' = 8 * e.call + 2 ∧ 1 ≤ e.call ∧ e.number = wire (s.numberOf cfg e.call) :=
    fun e he => hl'.server.element e (List.mem_append_left _ he)
  refine ⟨h.c2s, h.threads, fun c' hc' => ?_, fun e he => ?_, fun e he => ?_, ?_, fun e he => ?_,
    fun a ha => ?_⟩
  · intro hfack
    have hout : (readerSwitch cfg.stable s.born s.scr (p.received stale)).cr = some c' := hc'
    obtain ⟨c, hc, hnumber⟩ := hserves.collects hout hfack
    by_cases hsame : y' / 8 = y / 8
    · rw [hsame]
      refine hserves.assembles (asks_sendable _) (fun hcmd q hq => ?_) h.record hc' hfack
      -- a piece under the record's number
      have hcmd' := hcmd
      rw [hwhole.1] at hcmd'
      have hcall := hl.query_call hp hi hcmd' (hwhole.2.1.symm.trans hq.number)
      exact hsends hcmd q (hcall ▸ hq)
    · have hnew : c'.seqno ≠ c.seqno := by
        intro heq
        refine hsame (hscall.trans ?_)
        rw [hl.server.call, hout, recvCall_eq hc heq]
      obtain ⟨hcmd, -⟩ := hnumber.resolve_left hnew
      have hcall : y' / 8 = p.call := by
        rw [hscall, hout]
        exact recvCall_fresh hc hnew (by rw [hcmd]; nofun)
      rw [hcall]
      exact hserves.assembles (asks_sendable _) hsends
        (fun c hc => hasm c hc (.inr hcmd)) hc' hfack
  · rcases hqueued e he with hold | ⟨-, hne, q, hq, hnumber, hcall, hbuf⟩
    · exact h.queue e hold
    · obtain ⟨hcmd, -⟩ := hserves.queued hne
      rw [hnumber, hcall, hbuf]
      exact (hserves.queues (asks_sendable _) hsends (fun c hc => hasm c hc (.inl hcmd))
        (fun c hc hcmd hnext hst => by
          by_contra hne
          exact hno ⟨p, c, hp, hc, hcmd, hnext, hst, hne⟩) hq).2
  · rcases hqueued e he with hold | ⟨hnew, -⟩
    · obtain ⟨h1, hbound, hnum⟩ := h.past e hold
      exact ⟨h1, Nat.le_trans hbound hle, hnum⟩
    · obtain ⟨hy', h1, hnum⟩ := hpast e hnew
      exact ⟨h1, Nat.le_of_eq hy'.symm, hnum⟩
  · show ((s.appended ++ _).map (·.call)).Pairwise (· < ·)
    rw [List.map_append, List.pairwise_append]
    refine ⟨h.order, ?_, fun m hm n hn => ?_⟩
    · cases (readerSwitch cfg.stable s.born s.scr (p.received stale)).queued with
      | none => exact .nil
      | some q => exact List.pairwise_singleton _ _
    · obtain ⟨e, he, rfl⟩ := List.mem_map.mp hm
      obtain ⟨e', he', rfl⟩ := List.mem_map.mp hn
      obtain ⟨hy', -, -⟩ := hpast e' (List.mem_append_right _ he')
      have hbound := (h.past e he).2.1
      have hy := hfresh (by
        obtain ⟨q, hq, -⟩ := List.mem_map.mp he'
        rw [Option.mem_toList.mp hq]
        exact Option.some_ne_none q)
      show e.call < e'.call
      omega
  · have he : e ∈ (s.queue ++ _) ++ s.held := he
    rcases List.mem_append.mp he with he | he
    · rcases List.mem_append.mp he with he | he
      · exact List.mem_append_left _ (h.held e (List.mem_append_left _ he))
      · exact List.mem_append_right _ he
    · exact List.mem_append_left _ (h.held e (List.mem_append_right _ he))
  · obtain ⟨e, he, hcall⟩ := h.answered a ha
    exact ⟨e, List.mem_append_left _ he, hcall⟩

/-- Nothing has been appended, and the record is at the same call. -/
theorem Asking.quiet (h : Asking cfg s y) (hl : Lockstep cfg s x y) (hl' : Lockstep cfg t x' y')
    (hk : Kinds s) (hle : y ≤ y') (ht : Stepped cfg s a t) (hscall : t.scall = s.scall)
    (happ : t.appended = s.appended)
    (hrec : ∀ c', t.scr = some c' → Assembles (Asks s (y / 8)) c')
    (hheld : ∀ e ∈ t.queue ++ t.held, e ∈ s.queue ++ s.held)
    (hanswered : ∀ a ∈ t.responses, ∃ e ∈ s.appended, e.call = a.call ∧ e.number = a.number) :
    Asking cfg t y' := by
  have hpre := ht.calls
  have hcall_le := hl.call_le
  have hdiv : y' / 8 = y / 8 := by rw [hl'.server.call, hscall, hl.server.call]
  refine ⟨fun p hp hcmd n q hq => ?_, h.threads_step hl ht, fun c' hc' => ?_, fun e he q hq => ?_,
    fun e he => ?_, happ ▸ h.order, fun e he => happ ▸ h.held e (hheld e he), happ ▸ hanswered⟩
  · rcases ht.c2s hk p hp with hold | hnew
    · exact h.c2s p hold hcmd n q (hq.old hpre (hl.client.c2s p hold).le)
    · exact hnew.carries h hl hcmd hq
  · rw [hdiv]
    exact (hrec c' hc').mono fun q hq => hq.old hpre hcall_le
  · rw [happ] at he
    have hbound := (h.past e he).2.1
    exact h.queue e he q (hq.old hpre (by omega))
  · rw [happ] at he
    obtain ⟨h1, hbound, hnum⟩ := h.past e he
    rw [numberOf_mono hpre (by omega)]
    exact ⟨h1, Nat.le_trans hbound hle, hnum⟩

/-- **Every step** over channels that keep their order. -/
theorem Asking.step (h : Asking cfg s y) (hl : Lockstep cfg s x y) (hl' : Lockstep cfg t x' y')
    (hk : Kinds s) (hr : Roles s) (ho : Orderly s a) (hle : y ≤ y') (ht : Stepped cfg s a t) :
    Asking cfg t y' := by
  have hpart := hl.not_takesPart hk ho.order
  have hquiet := h.quiet hl hl' hk hle ht
  cases ht with
  | srecv _ hp => exact h.srecv hl hk hr hp ho.order hle hl' hpart
  | @stick c _ hc =>
    refine hquiet rfl rfl (fun c' hc' => ?_) (fun _ he => he) h.answered
    have htick := timerRecord_cases cfg.subport c
    obtain ⟨hseqno, -, hresp, hlast⟩ := htick.kept hc'
    refine (h.record c hc).kept hseqno hresp hlast fun hfack => ?_
    rcases htick.state hc' with hto | hsame
    · cases hto.symm.trans hfack
    · exact hsame.symm.trans hfack
  | @query e queue len _ hq =>
    refine hquiet rfl rfl h.record (fun e' he' => ?_) h.answered
    have he' : e' ∈ queue ++ (s.held ++ [e]) := he'
    rw [hq]
    simp only [List.mem_append, List.mem_cons, List.not_mem_nil, or_false] at he' ⊢
    tauto
  | @respondNone i e rb _ hi _ =>
    refine hquiet rfl rfl h.record (fun e' he' => ?_) h.answered
    exact ((List.Sublist.refl _).append (List.eraseIdx_sublist ..)).subset he'
  | @respond i e rb c _ hi hc =>
    refine hquiet rfl rfl (fun c' hc' => ?_) (fun e' he' => ?_) fun b hb => ?_
    · cases hc'
      exact (rpcResponseBegin_section 0 cfg.subport rb c).assembles (h.record c hc)
    · exact ((List.Sublist.refl _).append (List.eraseIdx_sublist ..)).subset he'
    · rcases mem_append_if hb with hb | ⟨-, rfl⟩
      · exact h.answered b hb
      · exact ⟨e, h.held e (List.mem_append_right _ (List.mem_of_getElem? hi)), rfl, rfl⟩
  | @wresumed i w c st _ _ hc _ hst =>
    refine hquiet rfl rfl (fun c' hc' => ?_) (fun _ he => he) h.answered
    cases hc'
    exact (rpcResponseResume_section hst).assembles (h.record c hc)
  | _ => exact hquiet rfl rfl h.record (fun _ he => he) h.answered

theorem asking_init : Asking cfg Session.init 0 where
  c2s := fun p hp => (by cases hp)
  threads := fun v q rsize w hm => (by cases hm)
  record := fun c hc => (by cases hc)
  queue := fun e he => (by cases he)
  past := fun e he => (by cases he)
  order := .nil
  held := fun e he => (by cases he)
  answered := fun a ha => (by cases ha)

theorem asking_of_reach {ok : Session → Event → Prop} (hok : ∀ s a, ok s a → Orderly s a)
    (h : (sessionSystem cfg).Reach ok s) : ∃ x y, Lockstep cfg s x y ∧ Asking cfg s y := by
  refine h.invariant_reach (I := fun s => ∃ x y, Lockstep cfg s x y ∧ Asking cfg s y)
    ⟨0, 0, lockstep_init, asking_init⟩ fun s a t hreach ⟨x, y, hl, hasking⟩ ha hn => ?_
  have hk := kinds_of_steps hreach
  have hr := roles_of_reach hreach
  have ht := next_stepped hn
  obtain ⟨x', y', -, hle, hl'⟩ := hl.step hk hr (shortThreads_of_reach hok hreach) (hok s a ha) ht
  exact ⟨x', y', hl', hasking.step hl hl' hk hr (hok s a ha) hle ht⟩

end Server

/-! ## The queue -/

/-- What is in the queue, has been fetched from it and has been answered: every query once, in the
order of the calls, under the number of its call and as it was sent. -/
structure AskedInOrder (s : Session) : Prop where
  order : (s.appended.map (·.call)).Pairwise (· < ·)
  asked : ∀ e ∈ s.appended, ∃ n q, CallOf s e.call n q ∧ e.number = wire n ∧
    (Sendable q → HoldsQuery q e.buf)
  answered : ∀ a ∈ s.responses, ∃ e ∈ s.appended, e.call = a.call ∧ e.number = a.number
  once : ∀ a ∈ s.responses, ∀ b ∈ s.responses, a.call = b.call → a.rb = b.rb

theorem Asking.askedInOrder {cfg : Config} {s : Session} {x y : Nat} (h : Asking cfg s y)
    (hl : Lockstep cfg s x y) : AskedInOrder s := by
  refine ⟨h.order, fun e he => ?_, h.answered, hl.server.unique⟩
  obtain ⟨h1, hbound, hnum⟩ := h.past e he
  have hle := hl.call_le
  have hget := List.getElem?_eq_getElem (show e.call - 1 < s.calls.length by omega)
  have hcall : CallOf s e.call (s.calls[e.call - 1]).number (s.calls[e.call - 1]).query :=
    ⟨h1, hget⟩
  have hwire : e.number = wire (s.calls[e.call - 1]).number := by rw [hnum, hcall.numberOf]
  exact ⟨_, _, hcall, hwire, fun hq =>
    holdsQuery_of_assembled hq (h.queue e he _ ⟨_, hcall, hwire, hq⟩)⟩

/-- **Every query is asked at most once, in order and as it was sent** over channels that keep
their order, with any number of client threads, of workers and of renumberings. -/
theorem asked_orderly {cfg : Config} {s : Session} (h : (sessionSystem cfg).Reach Orderly s) :
    AskedInOrder s := by
  obtain ⟨x, y, hl, hasking⟩ := asking_of_reach (fun _ _ ho => ho) h
  exact hasking.askedInOrder hl

/-- The queries of two threads. -/
theorem asked_orderly_overlapping :
    ∃ s, (sessionSystem (hwdbConfig 0)).Reach Orderly s ∧
      s.appended.map (·.call) = [1, 2] ∧ AskedInOrder s := by
  obtain ⟨s, hr, hp⟩ := System.Reach.of_run (sessionSystem (hwdbConfig 0)) Orderly orderlyCheck
    overlapping (fun s => s.appended.map (·.call) == [1, 2]) (fun _ _ h => orderly_of_check h)
    (by decide +kernel) (by decide +kernel)
  exact ⟨s, hr, eq_of_beq hp, asked_orderly hr⟩

end Hwdb.Rpc
