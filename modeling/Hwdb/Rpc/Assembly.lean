import Hwdb.Rpc.Delivery

/-!
# Records that assemble a message

A record in `ST_FACK_SENT` holds the pieces of one message up to `lastFrag`, as long as every
datagram under its number is a piece of that message.

* `Sends P cmd d` and `Assembles P c` — the same for a datagram and a record, for any relation `P`
  between numbers and messages; the lemmas about them serve the queries of a server's record and
  the responses of a client's.
* `QueriesIntact` — what the reader appends for a query is that query.
* `TakesPart` — the last piece of a longer query arrives where a whole query is expected.
* `queriesIntact_of_trace` — without that, every run below `SEQNO_LIMIT` keeps the queries intact,
  and no copy leaves the buffer.
-/

set_option autoImplicit false

namespace Hwdb.Rpc

open Hwdb.Lib

/-- Every message that `P` knows under a number is `Sendable`. -/
def AllSendable (P : Nat → Bytes → Prop) : Prop := ∀ n m, P n m → Sendable m

/-- The datagram is a piece of whatever `P` has under its number. -/
def Sends (P : Nat → Bytes → Prop) (cmd : Command) (d : Received) : Prop :=
  ∀ m, P d.seqno m → ∃ sp, Carries sp cmd d.seqno m d.bytes

/-- A record in `ST_FACK_SENT` holds the first `lastFrag` pieces of what `P` has under its number,
and there are more to come. -/
def Assembles (P : Nat → Bytes → Prop) (c : CRecord) : Prop :=
  c.state = .fackSent → ∀ m, P c.seqno m → ∃ b, c.resp = some b ∧ Assembling m c.lastFrag b ∧
    1 ≤ c.lastFrag ∧ c.lastFrag < pieces m

section Pieces

variable {P Q : Nat → Bytes → Prop} {cmd : Command} {d : Received} {c c' : CRecord}
  {p : Buffer UInt8} {m : Bytes}

/-- A record in another state assembles nothing. -/
theorem Assembles.of_state (h : c.state ≠ .fackSent) : Assembles P c := fun hst => absurd hst h

/-- A record that differs in nothing that matters here. -/
theorem Assembles.kept (h : Assembles P c) (hseqno : c'.seqno = c.seqno)
    (hresp : c'.resp = c.resp) (hlast : c'.lastFrag = c.lastFrag)
    (hst : c'.state = .fackSent → c.state = .fackSent) : Assembles P c' := by
  intro hfack m hm
  rw [hresp, hlast]
  exact h (hst hfack) m (hseqno ▸ hm)

theorem Assembles.mono (h : Assembles P c) (hle : ∀ m, Q c.seqno m → P c.seqno m) :
    Assembles Q c := fun hst m hm => h hst m (hle m hm)

/-- The header of a piece. -/
theorem Sends.piece (h : Sends P cmd d) (hP : AllSendable P) (hm : P d.seqno m) :
    ∃ sp k, 1 ≤ k ∧ k ≤ pieces m ∧ d.bytes = pieceMessage sp cmd d.seqno m k ∧
      d.command = some (pieceCommand cmd m k) ∧ d.fnum = k ∧ d.nfrags = pieces m ∧
      d.n < RECV_SIZE := by
  obtain ⟨sp, k, h1, hk, hb⟩ := h m hm
  have hsend := hP _ m hm
  obtain ⟨bytes, stale⟩ := d
  have hb : bytes = pieceMessage sp cmd (⟨bytes, stale⟩ : Received).seqno m k := hb
  generalize hn : (⟨bytes, stale⟩ : Received).seqno = n at hb
  subst hb
  exact ⟨sp, k, h1, hk, rfl, received_piece_command, received_piece_fnum hsend hk,
    received_piece_nfrags hsend, received_piece_n⟩

/-- A `FRAGMENT` is not the last piece. -/
theorem lt_pieces {k : Nat} (hk : k ≤ pieces m) (hcmd : cmd ≠ .fragment)
    (hf : (some (pieceCommand cmd m k) : Option Command) = some .fragment) : k < pieces m := by
  refine Nat.lt_of_le_of_ne hk fun heq => hcmd ?_
  rw [pieceCommand, if_pos heq] at hf
  exact Option.some.inj hf

/-- The message with the last piece is. -/
theorem eq_pieces {k : Nat} (hcmd : cmd ≠ .fragment)
    (hf : (some (pieceCommand cmd m k) : Option Command) = some cmd) : k = pieces m := by
  by_contra hne
  rw [pieceCommand, if_neg hne] at hf
  exact hcmd (Option.some.inj hf).symm

/-- **The first piece** starts the assembly, and its copy fits. -/
theorem Sends.first (h : Sends P cmd d) (hP : AllSendable P) (hcmd : cmd ≠ .fragment)
    (hfrag : d.command = some .fragment) (hone : d.fnum = 1)
    (hp : Buffer.write (Buffer.alloc (DP_SIZE + d.tlen)) 0 d.bytes = some p) :
    Assembles P (fragmentTaken { c with seqno := d.seqno, resp := some p } d) := by
  intro _ m hm
  obtain ⟨sp, k, h1, hk, hb, hc, hf, -, -⟩ := h.piece hP hm
  rw [hc] at hfrag
  have hlt := lt_pieces hk hcmd hfrag
  obtain rfl : k = 1 := hf.symm.trans hone
  obtain ⟨p', hp', hasm⟩ := @assembling_first sp d.seqno cmd m d.stale (hP _ m hm)
  rw [← hb] at hp'
  have heq : p' = p := Option.some.inj (hp'.symm.trans hp)
  subst heq
  refine ⟨p', rfl, ?_, ?_, ?_⟩
  · show Assembling m d.fnum p'
    rw [hone]
    exact hasm
  · exact Nat.le_of_eq hone.symm
  · show d.fnum < pieces m
    rw [hone]
    exact hlt

theorem Sends.first_fits (h : Sends P cmd d) (hP : AllSendable P) (hm : P d.seqno m)
    (hone : d.fnum = 1) :
    Buffer.write (Buffer.alloc (DP_SIZE + d.tlen)) 0 d.bytes ≠ none := by
  obtain ⟨sp, k, h1, hk, hb, hc, hf, -, -⟩ := h.piece hP hm
  obtain rfl : k = 1 := hf.symm.trans hone
  obtain ⟨p, hp, -⟩ := @assembling_first sp d.seqno cmd m d.stale (hP _ m hm)
  rw [← hb] at hp
  have hp : Buffer.write (Buffer.alloc (DP_SIZE + d.tlen)) 0 d.bytes = some p := hp
  rw [hp]
  exact Option.some_ne_none p

/-- A further piece fits and extends what is there. -/
theorem Assembles.copies (h : Assembles P c) (hd : Sends P cmd d) (hP : AllSendable P)
    (hst : c.state = .fackSent) (hn : d.seqno = c.seqno) (hf : d.fnum = c.lastFrag + 1)
    (hm : P c.seqno m) : ∃ p, copyFragment c d = .ok p ∧ Assembling m d.fnum p := by
  obtain ⟨sp, k, h1, hk, hb, hc, hk', -, -⟩ := hd.piece hP (hn ▸ hm : P d.seqno m)
  obtain ⟨b, hresp, hasm, -, hlt⟩ := h hst m hm
  obtain rfl : k = c.lastFrag + 1 := hk'.symm.trans hf
  obtain ⟨p, hp, hnext⟩ := @assembling_next sp d.seqno _ cmd m d.stale c b (hP _ m hm) hlt
    hasm hresp
  rw [← hb] at hp
  exact ⟨p, hp, hf ▸ hnext⟩

/-- **The next piece** extends the assembly. -/
theorem Assembles.next (h : Assembles P c) (hd : Sends P cmd d) (hP : AllSendable P)
    (hcmd : cmd ≠ .fragment) (hfrag : d.command = some .fragment) (hst : c.state = .fackSent)
    (hn : d.seqno = c.seqno) (hf : d.fnum = c.lastFrag + 1) (hp : copyFragment c d = .ok p) :
    Assembles P (fragmentTaken { c with resp := some p } d) := by
  intro _ m hm
  have hm : P c.seqno m := hm
  obtain ⟨p', hp', hasm⟩ := h.copies hd hP hst hn hf hm
  have heq : p' = p := Except.ok.inj (hp'.symm.trans hp)
  subst heq
  obtain ⟨sp, k, h1, hk, hb, hc, hk', -, -⟩ := hd.piece hP (hn ▸ hm : P d.seqno m)
  rw [hc] at hfrag
  have hlt := lt_pieces hk hcmd hfrag
  refine ⟨p', rfl, hasm, ?_, ?_⟩
  · show 1 ≤ d.fnum
    omega
  · show d.fnum < pieces m
    omega

/-- **The last piece** completes the message. -/
theorem Assembles.last (h : Assembles P c) (hd : Sends P cmd d) (hP : AllSendable P)
    (hcmd : cmd ≠ .fragment) (hlast : d.command = some cmd) (hst : c.state = .fackSent)
    (hn : d.seqno = c.seqno) (hf : d.fnum = c.lastFrag + 1) (hp : copyFragment c d = .ok p)
    (hm : P c.seqno m) : Assembled m p := by
  obtain ⟨p', hp', hasm⟩ := h.copies hd hP hst hn hf hm
  have heq : p' = p := Except.ok.inj (hp'.symm.trans hp)
  subst heq
  obtain ⟨sp, k, h1, hk, hb, hc, hk', -, -⟩ := hd.piece hP (hn ▸ hm : P d.seqno m)
  rw [hc] at hlast
  have hall := eq_pieces hcmd hlast
  rw [hk', hall] at hasm
  exact assembled_of_assembling hasm

/-- **A message of one piece** is complete as it comes. -/
theorem Sends.whole (h : Sends P cmd d) (hP : AllSendable P) (hone : d.nfrags = 1)
    (hm : P d.seqno m) : Assembled m (d.bytes.map some) := by
  obtain ⟨sp, k, h1, hk, hb, -, -, hnf, -⟩ := h.piece hP hm
  have hpieces : pieces m = 1 := hnf.symm.trans hone
  obtain rfl : k = 1 := by omega
  rw [hb]
  exact assembled_whole hpieces

/-- **No copy of a piece leaves the buffer.** -/
theorem Sends.not_overrun {cr : Option CRecord} (hd : Sends P cmd d) (hP : AllSendable P)
    (ha : ∀ c, cr = some c → Assembles P c) (hm : P d.seqno m) : ¬ Overrun d cr := by
  rintro (hn | ⟨c, rfl, ⟨-, hfirst, hp⟩ | ⟨-, hn, hst, hf, f, hp⟩⟩)
  · obtain ⟨sp, k, -, -, -, -, -, -, hlt⟩ := hd.piece hP hm
    exact absurd hn (Nat.not_le.mpr hlt)
  · have hone : d.fnum = 1 := by
      rcases hfirst with ⟨-, -, hone⟩ | ⟨-, -, hone⟩ <;> exact hone
    exact hd.first_fits hP hm hone hp
  · obtain ⟨p, hok, -⟩ := (ha c rfl).copies hd hP hst hn hf (hn ▸ hm)
    rw [hok] at hp
    cases hp

end Pieces

/-! ## Queries at the server -/

/-- The query of a call, under the call's number. -/
def QueryOf (s : Session) (n : Nat) (m : Bytes) : Prop := ⟨n, m⟩ ∈ s.calls ∧ Sendable m

/-- What was appended for a query holds its length and its bytes, and `rpc_query` with a large
enough buffer returns them. -/
def HoldsQuery (q : Bytes) (b : Buffer UInt8) : Prop :=
  bufferTlen b = q.length ∧ b.drop DP_SIZE = q.map some ∧
    ∀ len, q.length ≤ len → rpcQueryCopy b len = .ok (q.map some)

/-- Everything that the reader has appended was issued by a call, and what it has appended for a
query of 1 to 65535 bytes is that query. -/
def QueriesIntact (s : Session) : Prop :=
  ∀ e ∈ s.appended, (∃ call ∈ s.calls, call.number = e.number) ∧
    ∀ call ∈ s.calls, call.number = e.number → Sendable call.query → HoldsQuery call.query e.buf

/-- The reader takes a datagram of a query of 1 to 65535 bytes without leaving a buffer. -/
def CopiesInside (cfg : Config) (s : Session) : Event → Prop
  | .srecv i stale => ∀ p call, s.c2s[i]? = some p →
      (p.command = some .query ∨ p.command = some .fragment) → call ∈ s.calls →
      p.seqno = call.number → Sendable call.query →
      ∀ t, Session.next cfg s (.srecv i stale) = some t → t.sfault = none
  | _ => True

/-- The last piece of a query arrives at a record that takes it for a whole query. -/
def TakesPart (s : Session) : Event → Prop
  | .srecv i stale => ∃ p c, s.c2s[i]? = some p ∧ s.scr = some c ∧
      (p.received stale).command = some .query ∧ (p.received stale).seqno = c.seqno + 1 ∧
      (c.state = .idle ∨ c.state = .responseSent) ∧ (p.received stale).nfrags ≠ 1
  | _ => False

theorem holdsQuery_of_assembled {q : Bytes} {b : Buffer UInt8} (hq : Sendable q)
    (h : Assembled q b) : HoldsQuery q b := by
  refine ⟨bufferTlen_assembled hq.2 h, ?_, fun len hlen => ?_⟩
  · obtain ⟨hdr, ⟨hlen, -, -⟩, rfl⟩ := h
    rw [List.map_append, List.drop_left' (by rw [List.length_map, hlen])]
  · rw [rpcQueryCopy, copyOut_assembled hq.2 h, if_pos hlen]
    rfl

section Reader

variable {P : Nat → Bytes → Prop} {stable : Bytes → Option Nat} {nep : Nat} {d : Received}
  {cr : Option CRecord} {out : Outcome} {c' : CRecord}

/-- **The reader of the server** keeps a record assembling its query. -/
theorem Serves.assembles (h : Serves stable nep d cr out) (hP : AllSendable P)
    (hd : d.command = some .query ∨ d.command = some .fragment → Sends P .query d)
    (ha : ∀ c, cr = some c → Assembles P c) (hc : out.cr = some c') : Assembles P c' := by
  cases h with
  | kept => exact ha c' hc
  | failed => exact ha c' hc
  | resent c => cases hc; exact (ha c rfl).kept rfl rfl rfl id
  | ping c => cases hc; exact ha c' rfl
  | pack c => cases hc; exact (ha c rfl).kept rfl rfl rfl id
  | disconnect =>
    obtain ⟨c, rfl, rfl⟩ := Option.map_eq_some_iff.mp hc
    exact .of_state (by simp)
  | fragmentFirst c p hcmd hn hst hone hp =>
    cases hc
    exact (hd (.inr hcmd)).first hP (by decide) hcmd hone hp
  | fragmentNext c p hcmd hn hst hf hp =>
    cases hc
    exact (ha c rfl).next (hd (.inr hcmd)) hP (by decide) hcmd hst hn hf hp
  | queryWhole => cases hc; exact .of_state (by simp [queryTaken])
  | queryLast => cases hc; exact .of_state (by simp [queryTaken])
  | _ => cases hc; exact .of_state (by simp)

/-- **What is appended** is the whole query. -/
theorem Serves.queues (h : Serves stable nep d cr out) (hP : AllSendable P)
    (hd : d.command = some .query ∨ d.command = some .fragment → Sends P .query d)
    (ha : ∀ c, cr = some c → Assembles P c)
    (hno : ∀ c, cr = some c → d.command = some .query → d.seqno = c.seqno + 1 →
      (c.state = .idle ∨ c.state = .responseSent) → d.nfrags = 1)
    {q : Queued} (hq : out.queued = some q) :
    d.command = some .query ∧ ∀ m, P d.seqno m → Assembled m q.buf := by
  cases h with
  | queryWhole c sr hcmd hn hst =>
    cases hq
    exact ⟨hcmd, fun m hm => (hd (.inl hcmd)).whole hP (hno c rfl hcmd hn hst) hm⟩
  | queryLast c sr p hcmd hn hst hf hnf hp =>
    cases hq
    exact ⟨hcmd, fun m hm =>
      (ha c rfl).last (hd (.inl hcmd)) hP (by decide) hcmd hst hn hf hp (hn ▸ hm)⟩
  | _ => cases hq

theorem Serves.fault (h : Serves stable nep d cr out)
    (hcmd : d.command = some .query ∨ d.command = some .fragment) (hno : ¬ Overrun d cr) :
    out.fault = none := by
  cases h with
  | failed _ _ hf =>
    rcases hf with hf | ⟨hconnect, -⟩
    · exact absurd hf hno
    · rw [hconnect] at hcmd
      exact absurd hcmd (by decide)
  | _ => rfl

end Reader

/-! ## Runs -/

/-- What is known of the server's record and of the queue along a run. -/
structure Assembly (s : Session) : Prop where
  record : ∀ c, s.scr = some c → Assembles (QueryOf s) c
  queue : ∀ e ∈ s.appended, (∃ call ∈ s.calls, call.number = e.number) ∧
    ∀ m, QueryOf s e.number m → Assembled m e.buf

section Step

variable {cfg : Config} {s t : Session} {a : Event} {p : Packet}

theorem queryOf_sendable : AllSendable (QueryOf s) := fun _ _ h => h.2

/-- Later calls have other numbers. -/
theorem Numbers.queryOf_old (h : Numbers cfg t) (hle : s.calls <+: t.calls) {n : Nat} {m : Bytes}
    (hn : n ≤ s.last cfg) (hq : QueryOf t n m) : QueryOf s n m := by
  obtain ⟨i, hi⟩ := List.getElem?_of_mem hq.1
  have hnum : n = cfg.seqno + 1 + i := h.calls i _ hi
  have hlt : i < s.calls.length := by
    simp only [Session.last] at hn
    omega
  refine ⟨List.mem_of_getElem? (i := i) ?_, hq.2⟩
  obtain ⟨more, hmore⟩ := hle
  rw [← hmore, List.getElem?_append_left hlt] at hi
  exact hi

/-- **What the client sends** for a query is a piece of it. -/
theorem Numbers.sends (h : Numbers cfg s) (hk : Kinds s) (hp : p ∈ s.c2s) (stale : Bytes)
    (hcmd : (p.received stale).command = some .query ∨
      (p.received stale).command = some .fragment) :
    Sends (QueryOf s) .query (p.received stale) := by
  have hwhole := received_whole (p := p) (hk.client p hp).whole stale
  rw [hwhole.1] at hcmd
  intro m hm
  rw [hwhole.2.1] at hm ⊢
  obtain ⟨call, hmem, hnum, hcarries⟩ := (h.c2s p hp).query hcmd
  have heq : call = ⟨p.seqno, m⟩ := h.call_unique hmem hm.1 hnum.symm
  subst heq
  exact ⟨cfg.subport, hcarries hm.2⟩

/-- Nothing has been appended, and the record has done something else. -/
theorem Assembly.quiet (h : Assembly s) (hn : Numbers cfg s) (hn' : Numbers cfg t)
    (hle : s.calls <+: t.calls) (happ : t.appended = s.appended)
    (hrec : ∀ c', t.scr = some c' → c'.seqno ≤ s.last cfg ∧ Assembles (QueryOf s) c') :
    Assembly t := by
  refine ⟨fun c' hc' => ?_, fun e he => ?_⟩
  · obtain ⟨hlast, hasm⟩ := hrec c' hc'
    exact hasm.mono fun m hm => hn'.queryOf_old hle hlast hm
  · obtain ⟨⟨call, hmem, hnum⟩, hbuf⟩ := h.queue e (happ ▸ he)
    refine ⟨⟨call, hle.subset hmem, hnum⟩, fun m hm => hbuf m (hn'.queryOf_old hle ?_ hm)⟩
    rw [← hnum]
    exact number_le_last hn.calls hmem

/-- The record has been timed out, or nothing about it that matters has changed. -/
theorem Assembly.record_kept (h : Assembly s) (hn : Numbers cfg s) {c c' : CRecord}
    (hs : s.scr = some c) (hseqno : c'.seqno = c.seqno) (hresp : c'.resp = c.resp)
    (hlast : c'.lastFrag = c.lastFrag) (hst : c'.state = .fackSent → c.state = .fackSent) :
    c'.seqno ≤ s.last cfg ∧ Assembles (QueryOf s) c' := by
  refine ⟨?_, (h.record c hs).kept hseqno hresp hlast hst⟩
  rw [hseqno]
  exact hn.server c hs

/-- A section of `rpc_response` leaves `ST_FACK_SENT` to the reader. -/
theorem ResponseSection.assembles {P : Nat → Bytes → Prop} {ep sp : Nat} {r : Bytes}
    {c : CRecord} {w : Option (Nat × Nat)} {st : ResponseStep}
    (h : ResponseSection ep sp r c w st) (ha : Assembles P c) : Assembles P st.cr := by
  cases h with
  | refused => exact ha
  | timedout => exact ha
  | undefined => exact ha
  | fragment => exact .of_state (by simp)
  | response => exact .of_state (by simp)

/-- **The reader of the server.** -/
theorem Assembly.srecv (h : Assembly s) (hn : Numbers cfg s) (hk : Kinds s) (hr : Roles s)
    {i : Nat} {stale : Bytes} (hp : s.c2s[i]? = some p)
    (hno : ¬ TakesPart s (.srecv i stale)) :
    Assembly (s.serverRecv cfg i p.call (p.received stale)) := by
  have hin := List.mem_of_getElem? hp
  have hserves : Serves cfg.stable s.born (p.received stale) s.scr _ := hr.serves hk hin stale
  have hsends := hn.sends hk hin stale
  refine ⟨fun c' hc' => ?_, fun e he => ?_⟩
  · exact hserves.assembles queryOf_sendable hsends h.record hc'
  · rcases List.mem_append.mp he with he | he
    · exact h.queue e he
    · obtain ⟨q, hq, rfl⟩ := List.mem_map.mp he
      have hwhole := received_whole (p := p) (hk.client p hin).whole stale
      obtain ⟨hcmd, hbuf⟩ := hserves.queues queryOf_sendable hsends h.record
        (fun c hc hcmd hnext hst => by
          by_contra hne
          exact hno ⟨p, c, hp, hc, hcmd, hnext, hst, hne⟩) (Option.mem_toList.mp hq)
      rw [hwhole.1] at hcmd
      obtain ⟨call, hmem, hnum, -⟩ := (hn.c2s p hin).query (.inl hcmd)
      exact ⟨⟨call, hmem, hnum.symm.trans hwhole.2.1.symm⟩, hbuf⟩

/-- **Every step keeps the queries whole**, unless a part is taken for a query. -/
theorem Assembly.step (h : Assembly s) (hn : Numbers cfg s) (hn' : Numbers cfg t) (hk : Kinds s)
    (hr : Roles s) (hno : ¬ TakesPart s a) (ht : Stepped cfg s a t) : Assembly t := by
  have hle := ht.calls
  cases ht with
  | srecv hsf hp => exact h.srecv hn hk hr hp hno
  | @stick c hsf hs =>
    refine h.quiet hn hn' hle rfl fun c' hc' => ?_
    have htick := timerRecord_cases cfg.subport c
    obtain ⟨hseqno, -, hresp, hlast⟩ := htick.kept hc'
    refine h.record_kept hn hs hseqno hresp hlast fun hst => ?_
    rcases htick.state hc' with hto | hsame
    · rw [hto] at hst
      cases hst
    · exact hsame.symm.trans hst
  | @respond i e rb c hsf hi hs =>
    refine h.quiet hn hn' hle rfl fun c' hc' => ?_
    cases hc'
    have hsec := rpcResponseBegin_section 0 cfg.subport rb c
    exact ⟨hsec.kept.1 ▸ hn.server c hs, hsec.assembles (h.record c hs)⟩
  | @wresumed i w c st hsf hi hs hw hst =>
    refine h.quiet hn hn' hle rfl fun c' hc' => ?_
    cases hc'
    have hsec := rpcResponseResume_section hst
    exact ⟨hsec.kept.1 ▸ hn.server c hs, hsec.assembles (h.record c hs)⟩
  | _ =>
    exact h.quiet hn hn' hle rfl fun c' hc' => ⟨hn.server c' hc', h.record c' hc'⟩

theorem assembly_of_reach (hlim : cfg.seqno ≤ SEQNO_LIMIT)
    (h : (sessionSystem cfg).Reach (fun s a => Below s ∧ ¬ TakesPart s a) s) : Assembly s := by
  refine h.invariant_reach ?_ fun s a t hr ih ha hn => ?_
  · exact ⟨fun c hc => (by cases hc), fun e he => (by cases he)⟩
  · have hnum := numbers_of_reach hlim (fun _ _ ha => ha.1) hr
    have hstep := next_stepped hn
    have hnum' := hnum.step (kinds_of_steps hr) (roles_of_reach hr) ha.1 hstep
    exact ih.step hnum hnum' (kinds_of_steps hr) (roles_of_reach hr) ha.2 hstep

/-- No copy of a query leaves the buffer. -/
theorem Assembly.copiesInside (h : Assembly s) (hn : Numbers cfg s) (hk : Kinds s)
    (hr : Roles s) : CopiesInside cfg s a := by
  cases a with
  | srecv i stale =>
    intro p call hp hcmd hmem hnum hq t ht
    have hin := List.mem_of_getElem? hp
    obtain ⟨p', hp', rfl⟩ := next_srecv ht
    obtain rfl : p = p' := Option.some.inj (hp.symm.trans hp')
    have hwhole := received_whole (p := p) (hk.client p hin).whole stale
    have hserves : Serves cfg.stable s.born (p.received stale) s.scr _ := hr.serves hk hin stale
    have hcmd : (p.received stale).command = some .query ∨
        (p.received stale).command = some .fragment := by
      rw [hwhole.1]
      exact hcmd
    refine hserves.fault hcmd ((hn.sends hk hin stale hcmd).not_overrun queryOf_sendable h.record
      (m := call.query) ?_)
    rw [hwhole.2.1, hnum]
    exact ⟨hmem, hq⟩
  | _ => trivial

end Step

/-- **Queries arrive as they were sent.**  In a run in which the client's number stays below
`SEQNO_LIMIT` and no last piece of a longer query arrives where the record expects a whole one,
what the reader appends for a query of 1 to 65535 bytes is that query, and none of its copies
leaves a buffer. -/
theorem queriesIntact_of_trace {cfg : Config} {es : List (Session × Event)} {t : Session}
    (hlim : cfg.seqno < SEQNO_LIMIT)
    (h : (sessionSystem cfg).Trace (fun s a => Below s ∧ ¬ TakesPart s a) es t) :
    QueriesIntact t ∧ ∀ e ∈ es, CopiesInside cfg e.1 e.2 := by
  have hle := Nat.le_of_lt hlim
  refine ⟨fun e he => ?_, fun e he => ?_⟩
  · obtain ⟨hissued, hbuf⟩ := (assembly_of_reach hle h.reach).queue e he
    refine ⟨hissued, fun call hmem hnum hq => holdsQuery_of_assembled hq (hbuf call.query ⟨?_, hq⟩)⟩
    rw [← hnum]
    exact hmem
  · have hr := (h.mem e he).1
    exact (assembly_of_reach hle hr).copiesInside (numbers_of_reach hle (fun _ _ ha => ha.1) hr)
      (kinds_of_steps hr) (roles_of_reach hr)

/-- No `QUERY` of several pieces arrives under the next number. -/
def takesWhole (s : Session) : Event → Bool
  | .srecv i stale => (s.c2s[i]?).all fun p => s.scr.all fun c =>
      (p.received stale).command != some .query ||
        (p.received stale).seqno != c.seqno + 1 || (p.received stale).nfrags == 1
  | _ => true

theorem not_takesPart {s : Session} {a : Event} (h : takesWhole s a = true) :
    ¬ TakesPart s a := by
  cases a with
  | srecv i stale =>
    rintro ⟨p, c, hp, hs, hc, hn, -, hne⟩
    simp [takesWhole, hp, hs, hc, hn, hne] at h
  | _ => exact id

/-- A query of two pieces is appended as it was sent. -/
theorem queriesIntact_of_trace_twoPieces :
    ∃ es t, (sessionSystem (hwdbConfig 0)).Trace (fun s a => Below s ∧ ¬ TakesPart s a) es t ∧
      t.deliveredTo 1 = [1] ∧ QueriesIntact t ∧
      ∀ e ∈ es, CopiesInside (hwdbConfig 0) e.1 e.2 := by
  obtain ⟨es, t, ht, hp⟩ := System.Trace.of_run (sessionSystem (hwdbConfig 0))
    (fun s a => Below s ∧ ¬ TakesPart s a) (fun s a => belowCheck s && takesWhole s a)
    twoPieceCall (fun s => s.deliveredTo 1 == [1])
    (fun s a h => by
      obtain ⟨hb, hk⟩ := Bool.and_eq_true_iff.mp h
      exact ⟨below_of_check hb, not_takesPart hk⟩)
    (by decide +kernel) (by decide +kernel)
  exact ⟨es, t, ht, eq_of_beq hp, queriesIntact_of_trace (by decide) ht⟩

/-- A copy of the last piece arrives at the record that was made for a copy of the `CONNECT`. -/
theorem last_piece_taken_for_query :
    ∃ s, (sessionSystem (hwdbConfig 0)).Reach (fun s a => Below s ∧ SingleThread s a) s ∧
      ¬ QueriesIntact s := by
  obtain ⟨s, hr, hp⟩ := System.Reach.of_run (sessionSystem (hwdbConfig 0))
    (fun s a => Below s ∧ SingleThread s a)
    (fun s a => belowCheck s && decide (SingleThread s a))
    (twoPieceCall ++ List.replicate 255 .stick ++ [.srecv 0 [], .srecv 2 []])
    (fun s => s.calls.any (fun call => call.number == 1 && call.query.length == 1025) &&
      s.appended.any fun e => e.number == 1 && e.buf.length == 17)
    (fun s a h => by
      obtain ⟨hb, hk⟩ := Bool.and_eq_true_iff.mp h
      exact ⟨below_of_check hb, of_decide_eq_true hk⟩)
    (by decide +kernel) (by decide +kernel)
  refine ⟨s, hr, fun hin => ?_⟩
  simp only [Bool.and_eq_true, List.any_eq_true, beq_iff_eq] at hp
  obtain ⟨⟨call, hmem, hnum, hq⟩, e, he, hen, hlen⟩ := hp
  obtain ⟨-, hall⟩ := hin e he
  have hsend : Sendable call.query := ⟨by omega, by omega⟩
  obtain ⟨-, hdata, -⟩ := hall call hmem (hnum.trans hen.symm) hsend
  have hcount := congrArg List.length hdata
  rw [List.length_drop, List.length_map, hlen, hq] at hcount
  cases hcount

end Hwdb.Rpc
