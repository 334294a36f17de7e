import Hwdb.Rpc.Answering

/-!
# What a call returns

The client makes one call at a time and the server has one worker.

* `ResponsesIntact` — a call returns the response that the worker gave to the query with its
  number, and every piece of it has been received.
* `SkipsToLastPiece` — the last piece of a longer response arrives where a whole one is expected.
* `Reception` — what the client's record holds of a response, along a run.
* `responsesIntact_of_trace` — unless the last piece is taken for a response or the worker answers
  another query than its own, every run below `SEQNO_LIMIT` keeps the responses intact.
-/

set_option autoImplicit false

namespace Hwdb.Rpc

open Hwdb.Lib

/-- The worker has answered the query numbered `n` with `m`. -/
def ResponseOf (s : Session) (n : Nat) (m : Bytes) : Prop :=
  ∃ a ∈ s.responses, a.number = n ∧ a.rb = m

/-- The client's reader has been given piece `k` of the response `m` numbered `n`. -/
def Delivered (cfg : Config) (es : List (Session × Event)) (n : Nat) (m : Bytes) (k : Nat) :
    Prop :=
  ∃ e ∈ es, ∃ i stale p, e.2 = .crecv i stale ∧ e.1.s2c[i]? = some p ∧
    p.bytes = pieceMessage cfg.subport .response n m k

/-- A call that returned 1 returned what the worker has answered to its number, length and bytes,
and all of it was received. -/
def ResponsesIntact (cfg : Config) (es : List (Session × Event)) (t : Session) : Prop :=
  ∀ r ∈ t.returns, ∃ m, ResponseOf t r.number m ∧ (∀ m', ResponseOf t r.number m' → m' = m) ∧
    r.bytes = some (m.map some) ∧
    ∀ k, 1 ≤ k → k ≤ pieces m → Delivered cfg es r.number m k

/-- The last piece of a response arrives at a record that takes it for a whole response. -/
def SkipsToLastPiece (s : Session) : Event → Prop
  | .crecv i stale => ∃ p c, s.s2c[i]? = some p ∧ s.ccr = some c ∧
      (p.received stale).command = some .response ∧ (p.received stale).seqno = c.seqno ∧
      (c.state = .querySent ∨ c.state = .awaitingResponse) ∧ (p.received stale).nfrags ≠ 1
  | _ => False

/-- One client thread below `SEQNO_LIMIT`, one worker, responses of 1 to 65535 bytes. -/
structure InTurn (s : Session) (a : Event) : Prop where
  below : Below s
  single : SingleThread s a
  worker : OneWorker s a
  sendable : AnswersSendable a

/-! ## The first pieces of a response -/

/-- The first `k` pieces of the response `m` numbered `n` have been received. -/
structure Gathered (cfg : Config) (es : List (Session × Event)) (s : Session) (n : Nat)
    (m : Bytes) (k : Nat) : Prop where
  response : ResponseOf s n m
  delivered : ∀ j, 1 ≤ j → j ≤ k → Delivered cfg es n m j

/-- Buffer `b` holds the response numbered `n`, all of which has been received. -/
def Complete (cfg : Config) (es : List (Session × Event)) (s : Session) (n : Nat)
    (b : Option (Buffer UInt8)) : Prop :=
  ∃ m p, Gathered cfg es s n m (pieces m) ∧ b = some p ∧ Assembled m p

section Gather

variable {cfg : Config} {es : List (Session × Event)} {s t : Session} {a : Event} {n k : Nat}
  {m : Bytes} {b : Option (Buffer UInt8)}

theorem Delivered.mono (h : Delivered cfg es n m k) (e : Session × Event) :
    Delivered cfg (es ++ [e]) n m k := by
  obtain ⟨x, hx, hdel⟩ := h
  exact ⟨x, List.mem_append_left _ hx, hdel⟩

theorem ResponseOf.mono (h : ResponseOf s n m) (hle : s.responses <+: t.responses) :
    ResponseOf t n m := by
  obtain ⟨a, ha, hm⟩ := h
  exact ⟨a, hle.subset ha, hm⟩

theorem Gathered.mono (h : Gathered cfg es s n m k) (hle : s.responses <+: t.responses)
    (e : Session × Event) : Gathered cfg (es ++ [e]) t n m k :=
  ⟨h.response.mono hle, fun j h1 hj => (h.delivered j h1 hj).mono e⟩

theorem Complete.mono (h : Complete cfg es s n b) (hle : s.responses <+: t.responses)
    (e : Session × Event) : Complete cfg (es ++ [e]) t n b := by
  obtain ⟨m, p, hg, hb⟩ := h
  exact ⟨m, p, hg.mono hle e, hb⟩

/-- One more piece. -/
theorem Gathered.snoc (h : Gathered cfg es s n m k) (hle : s.responses <+: t.responses)
    {i : Nat} {stale : Bytes} {p : Packet} (hp : s.s2c[i]? = some p)
    (hb : p.bytes = pieceMessage cfg.subport .response n m (k + 1)) :
    Gathered cfg (es ++ [(s, .crecv i stale)]) t n m (k + 1) := by
  refine ⟨h.response.mono hle, fun j h1 hj => ?_⟩
  rcases Nat.lt_or_ge k j with hlt | hge
  · obtain rfl : j = k + 1 := by omega
    exact ⟨_, List.mem_append_right _ (List.mem_singleton.mpr rfl), i, stale, p, rfl, hp, hb⟩
  · exact (h.delivered j h1 hge).mono _

theorem Answering.responseOf_sendable (h : Answering cfg s) : AllSendable (ResponseOf s) := by
  rintro n m ⟨a, ha, -, rfl⟩
  exact h.sendable a ha

theorem Answering.responseOf_unique (h : Answering cfg s) {m' : Bytes} (hm : ResponseOf s n m)
    (hm' : ResponseOf s n m') : m' = m := by
  obtain ⟨a, ha, rfl, rfl⟩ := hm
  obtain ⟨a', ha', hn, rfl⟩ := hm'
  exact h.unique a' ha' a ha hn

/-- **A datagram of the server** with data is a piece of the response with its number. -/
theorem Answering.piece (h : Answering cfg s) (hk : Kinds s) {p : Packet} (hp : p ∈ s.s2c)
    (stale : Bytes) (hcmd : (p.received stale).command = some .response ∨
      (p.received stale).command = some .fragment) :
    ∃ m, ResponseOf s (p.received stale).seqno m ∧ 1 ≤ (p.received stale).fnum ∧
      (p.received stale).fnum ≤ pieces m ∧ (p.received stale).nfrags = pieces m ∧
      (p.received stale).command = some (pieceCommand .response m (p.received stale).fnum) ∧
      p.bytes = pieceMessage cfg.subport .response (p.received stale).seqno m
        (p.received stale).fnum := by
  have hwhole := received_whole (p := p) (hk.server p hp).whole stale
  rw [hwhole.1] at hcmd
  obtain ⟨a, ha, hn, k, h1, hle, hb⟩ := h.s2c p hp hcmd
  have hsend := h.sendable a ha
  have hf : (p.received stale).fnum = k := by
    rw [Packet.received, hb]
    exact received_piece_fnum hsend hle
  have hnf : (p.received stale).nfrags = pieces a.rb := by
    rw [Packet.received, hb]
    exact received_piece_nfrags hsend
  have hc : (p.received stale).command = some (pieceCommand .response a.rb k) := by
    rw [Packet.received, hb]
    exact received_piece_command
  rw [hf, hwhole.2.1, ← hn]
  exact ⟨a.rb, ⟨a, ha, rfl, rfl⟩, h1, hle, hnf, hc, hb⟩

theorem Answering.sends (h : Answering cfg s) (hk : Kinds s) {p : Packet} (hp : p ∈ s.s2c)
    (stale : Bytes) (hcmd : (p.received stale).command = some .response ∨
      (p.received stale).command = some .fragment) :
    Sends (ResponseOf s) .response (p.received stale) := by
  intro m hm
  obtain ⟨m', hm', h1, hle, -, -, hb⟩ := h.piece hk hp stale hcmd
  obtain rfl := h.responseOf_unique hm hm'
  exact ⟨cfg.subport, _, h1, hle, hb⟩

end Gather

/-! ## The reader of the client -/

section Reader

variable {P : Nat → Bytes → Prop} {d : Received} {cr : Option CRecord} {out : Outcome}
  {c' : CRecord}

/-- A client's record goes on assembling its response. -/
theorem Receives.assembles (h : Receives d cr out) (hP : AllSendable P)
    (hd : d.command = some .response ∨ d.command = some .fragment → Sends P .response d)
    (ha : ∀ c, cr = some c → Assembles P c) (hc : out.cr = some c') : Assembles P c' := by
  cases h with
  | kept => exact ha c' hc
  | failed => exact ha c' hc
  | resent c => cases hc; exact (ha c rfl).kept rfl rfl rfl id
  | ping c => cases hc; exact ha c' rfl
  | pack c => cases hc; exact (ha c rfl).kept rfl rfl rfl id
  | fragmentFirst c p hcmd hst hone hp =>
    cases hc
    exact (hd (.inr hcmd)).first hP (by decide) hcmd hone hp
  | fragmentNext c p hcmd hn hst hf hp =>
    cases hc
    exact (ha c rfl).next (hd (.inr hcmd)) hP (by decide) hcmd hst hn hf hp
  | responseWhole => cases hc; exact .of_state (by simp [responseTaken])
  | responseLast => cases hc; exact .of_state (by simp [responseTaken])
  | _ => cases hc; exact .of_state (by simp)

/-- A record that is assembling was doing so before, or has just taken a fragment. -/
theorem Receives.collects (h : Receives d cr out) (hc : out.cr = some c')
    (hst : c'.state = .fackSent) :
    (∃ c, cr = some c ∧ c.state = .fackSent ∧ c'.seqno = c.seqno ∧ c'.lastFrag = c.lastFrag) ∨
      (d.command = some .fragment ∧ c'.seqno = d.seqno ∧ c'.lastFrag = d.fnum ∧
        (d.fnum = 1 ∨ ∃ c, cr = some c ∧ c.state = .fackSent ∧ d.seqno = c.seqno ∧
          d.fnum = c.lastFrag + 1)) := by
  cases h with
  | kept => exact .inl ⟨c', hc, hst, rfl, rfl⟩
  | failed => exact .inl ⟨c', hc, hst, rfl, rfl⟩
  | resent c hfack => cases hc; exact .inl ⟨c, rfl, hfack, rfl, rfl⟩
  | ping c => cases hc; exact .inl ⟨c', rfl, hst, rfl, rfl⟩
  | pack c => cases hc; exact .inl ⟨c, rfl, hst, rfl, rfl⟩
  | fragmentFirst c p hcmd _ hone => cases hc; exact .inr ⟨hcmd, rfl, rfl, .inl hone⟩
  | fragmentNext c p hcmd hn hfack hf =>
    cases hc
    exact .inr ⟨hcmd, hn.symm, rfl, .inr ⟨c, rfl, hfack, hn, hf⟩⟩
  | _ => cases hc; cases hst

/-- A record that is idle was so before, or has just taken a response. -/
theorem Receives.completes (h : Receives d cr out) (hc : out.cr = some c')
    (hst : c'.state = .idle) (hcack : ∀ c, cr = some c → d.command = some .cack →
      d.seqno ≠ c.seqno) (hsack : d.command ≠ some .sack) :
    (∃ c, cr = some c ∧ c.state = .idle ∧ c'.resp = c.resp) ∨
      (d.command = some .response ∧ ∃ c p, cr = some c ∧ d.seqno = c.seqno ∧ c'.resp = some p ∧
        (((c.state = .querySent ∨ c.state = .awaitingResponse) ∧ p = d.bytes.map some) ∨
          (c.state = .fackSent ∧ d.fnum = c.lastFrag + 1 ∧ d.fnum = d.nfrags ∧
            copyFragment c d = .ok p))) := by
  cases h with
  | kept => exact .inl ⟨c', hc, hst, rfl⟩
  | failed => exact .inl ⟨c', hc, hst, rfl⟩
  | ping c => cases hc; exact .inl ⟨c', rfl, hst, rfl⟩
  | pack c => cases hc; exact .inl ⟨c, rfl, hst, rfl⟩
  | resent c hfack =>
    cases hc
    rw [setState_state, hfack] at hst
    cases hst
  | cack c hcmd hn => exact absurd hn (hcack c rfl hcmd)
  | sack c hcmd => exact absurd hcmd hsack
  | responseWhole c hcmd hn hstate =>
    cases hc
    exact .inr ⟨hcmd, c, _, rfl, hn, rfl, .inl ⟨hstate, rfl⟩⟩
  | responseLast c p hcmd hn hstate hf hnf hp =>
    cases hc
    exact .inr ⟨hcmd, c, p, rfl, hn, rfl, .inr ⟨hstate, hf, hnf, hp⟩⟩
  | _ => cases hc; cases hst

end Reader

/-! ## Sections of `rpc_call` -/

/-- The thread waits under number `n`. -/
def CallWait.Under (n : Nat) : CallWait → Prop
  | .seqno => True
  | .frag m _ _ => m = n
  | .query m => m = n

section Sections

variable {ep sp : Nat} {q : Bytes} {c : CRecord} {w : Option CallWait} {st : CallStep}
  {w' : CallWait}

theorem Continues.under {c' : CRecord} {number : Option Nat} {n k nf : Nat}
    (h : Continues q c w c' number n k nf) (hw : ∀ x, w = some x → x.Under c.seqno) :
    n = c'.seqno := by
  cases h with
  | first => rfl
  | renumbered => rfl
  | next => exact hw _ rfl

/-- A thread that goes on to wait does so under the number of its record, and the record is in a
state that the call has set. -/
theorem CallSection.under (h : CallSection ep sp q c w st)
    (hw : ∀ x, w = some x → x.Under c.seqno) (hwait : st.wait = some w') :
    w'.Under st.cr.seqno ∧ st.fault = none ∧ st.cr.state ≠ .idle := by
  cases h with
  | refused => cases hwait
  | timedout => cases hwait
  | undefined => cases hwait
  | renumber => cases hwait; exact ⟨trivial, rfl, by simp⟩
  | fragment hk => cases hwait; exact ⟨hk.under hw, rfl, by simp⟩
  | query hk => cases hwait; exact ⟨hk.under hw, rfl, by simp⟩
  | collected n rsize =>
    obtain ⟨result, fault, he⟩ := rpcCallCollect_eq c rsize
    rw [he] at hwait
    cases hwait

/-- A section leaves `ST_FACK_SENT` to the reader. -/
theorem CallSection.assembling (h : CallSection ep sp q c w st) (hst : st.cr.state = .fackSent) :
    st.cr = c := by
  cases h with
  | refused => rfl
  | timedout => rfl
  | renumber => cases hst
  | undefined hk =>
    cases hk with
    | first hidle =>
      have hst : c.state = .fackSent := hst
      rw [hidle] at hst
      cases hst
    | renumbered hidle =>
      have hst : c.state = .fackSent := hst
      rw [hidle] at hst
      cases hst
    | next => rfl
  | fragment => cases hst
  | query => cases hst
  | collected n rsize hidle =>
    obtain ⟨result, fault, he⟩ := rpcCallCollect_eq c rsize
    rw [he] at hst
    have hst : c.state = .fackSent := hst
    rcases hidle with hidle | hidle <;> rw [hidle] at hst <;> cases hst

/-- What a call collects from an idle record that holds a response. -/
theorem rpcCallCollect_assembled {rsize : Nat} {m : Bytes} {p : Buffer UInt8}
    (hst : c.state = .idle) (hresp : c.resp = some p) (hm : Sendable m) (hp : Assembled m p) :
    rpcCallCollect c rsize = ⟨{ c with resp := none }, [], none, none,
      if m.length ≤ rsize then some (m.map some) else none, none⟩ := by
  simp only [rpcCallCollect, if_pos hst, hresp, copyOut_assembled hm.2 hp]

end Sections

/-! ## Runs -/

/-- What the client's record and its thread know of the response, after the steps `es`. -/
structure Reception (cfg : Config) (es : List (Session × Event)) (s : Session) : Prop where
  record : ∀ c, s.ccr = some c → Assembles (ResponseOf s) c
  gathered : ∀ c, s.ccr = some c → c.state = .fackSent →
    ∃ m, Gathered cfg es s c.seqno m c.lastFrag
  alone : s.waiting.length ≤ 1
  unopened : s.opened = false → s.waiting = []
  number : ∀ v q rsize w, Thread.call v q rsize w ∈ s.waiting → w.Under (s.last cfg)
  done : ∀ v q rsize n, Thread.call v q rsize (.query n) ∈ s.waiting →
    ∀ c, s.ccr = some c → c.state = .idle → Complete cfg es s n c.resp
  returns : ∀ r ∈ s.returns, ∃ m, Gathered cfg es s r.number m (pieces m) ∧
    r.bytes = some (m.map some)

section Step

variable {cfg : Config} {es : List (Session × Event)} {s t : Session} {a : Event}

/-- Responses that are added leave the old ones as they are. -/
theorem Answering.responseOf_old (h : Answering cfg t) (hle : s.responses <+: t.responses)
    {n : Nat} {m : Bytes} (hm : ResponseOf s n m) {m' : Bytes} (hm' : ResponseOf t n m') :
    ResponseOf s n m' := by
  obtain rfl := h.responseOf_unique (hm.mono hle) hm'
  exact hm

/-- The record is the same and no thread waits that did not before. -/
theorem Reception.quiet (h : Reception cfg es s) (ha : Answering cfg t)
    (hle : s.responses <+: t.responses) (hcalls : t.calls = s.calls) (hccr : t.ccr = s.ccr)
    (hopened : t.opened = s.opened) (hreturns : t.returns = s.returns)
    (hwaiting : t.waiting.Sublist s.waiting) : Reception cfg (es ++ [(s, a)]) t := by
  have hlast : t.last cfg = s.last cfg := by rw [Session.last, Session.last, hcalls]
  refine ⟨fun c hc => ?_, fun c hc hst => ?_, Nat.le_trans hwaiting.length_le h.alone,
    fun ho => ?_, fun v q rsize w hm => ?_, fun v q rsize n hm c hc hst => ?_, fun r hr => ?_⟩
  · rw [hccr] at hc
    intro hst m hm
    obtain ⟨m', hg⟩ := h.gathered c hc hst
    exact h.record c hc hst m (ha.responseOf_old hle hg.response hm)
  · rw [hccr] at hc
    obtain ⟨m, hg⟩ := h.gathered c hc hst
    exact ⟨m, hg.mono hle _⟩
  · rw [h.unopened (hopened ▸ ho)] at hwaiting
    exact List.sublist_nil.mp hwaiting
  · rw [hlast]
    exact h.number v q rsize w (hwaiting.subset hm)
  · rw [hccr] at hc
    exact (h.done v q rsize n (hwaiting.subset hm) c hc hst).mono hle _
  · obtain ⟨m, hg, hb⟩ := h.returns r (hreturns ▸ hr)
    exact ⟨m, hg.mono hle _, hb⟩

theorem clientSection_waiting (s : Session) (v rsize : Nat) (q : Bytes) (st : CallStep) :
    ∃ v', (s.clientSection v q rsize st).waiting =
      s.waiting ++ (st.wait.map (Thread.call v' q rsize)).toList := ⟨_, rfl⟩

/-- A section of `rpc_call` by the only thread. -/
theorem Reception.section (h : Reception cfg es s) (hn : Numbers cfg s) (hn' : Numbers cfg t)
    (hcf : s.cfault = none) {c : CRecord} (hc : s.ccr = some c) {q : Bytes}
    {w : Option CallWait} {st : CallStep} (hst : CallSection 0 cfg.subport q c w st)
    (hw : ∀ x, w = some x → x.Under (s.last cfg))
    (hwaiting : ∃ v rsize, t.waiting = (st.wait.map (Thread.call v q rsize)).toList)
    (hccr : t.ccr = some st.cr) (hfault : t.cfault = st.fault)
    (hresponses : t.responses = s.responses) (hopened : t.opened = s.opened)
    (hreturns : ∀ r ∈ t.returns, ∃ m, Gathered cfg (es ++ [(s, a)]) t r.number m (pieces m) ∧
      r.bytes = some (m.map some)) : Reception cfg (es ++ [(s, a)]) t := by
  obtain ⟨v, rsize, hwaiting⟩ := hwaiting
  have hle : s.responses <+: t.responses := hresponses ▸ List.prefix_rfl
  rw [← hn.client hcf c hc] at hw
  have hkept : ∀ c', t.ccr = some c' → c'.state = .fackSent → c' = c := fun c' hc' hfack => by
    rw [hccr] at hc'
    cases hc'
    exact hst.assembling hfack
  refine ⟨fun c' hc' hfack => ?_, fun c' hc' hfack => ?_, ?_, fun ho => ?_,
    fun v' q' rsize' x hm => ?_, fun v' q' rsize' n hm c' hc' hidle => ?_, hreturns⟩
  · obtain rfl := hkept c' hc' hfack
    have hold := h.record c' hc hfack
    rwa [show ResponseOf s = ResponseOf t by unfold ResponseOf; rw [hresponses]] at hold
  · obtain rfl := hkept c' hc' hfack
    obtain ⟨m, hg⟩ := h.gathered c' hc hfack
    exact ⟨m, hg.mono hle _⟩
  · rw [hwaiting]
    cases st.wait with
    | none => exact Nat.zero_le 1
    | some x => exact Nat.le_refl 1
  · rw [(hn.unopened (hopened ▸ ho)).1] at hc
    cases hc
  · rw [hwaiting] at hm
    obtain ⟨hwait, -⟩ := mem_thread hm
    obtain ⟨hunder, hnone, -⟩ := hst.under hw hwait
    rw [← hn'.client (hfault.trans hnone) st.cr hccr]
    exact hunder
  · rw [hwaiting] at hm
    obtain ⟨hwait, -⟩ := mem_thread hm
    obtain ⟨-, -, hne⟩ := hst.under hw hwait
    rw [hccr] at hc'
    cases hc'
    exact absurd hidle hne

/-- The thread that runs was the only one. -/
theorem Reception.only (h : Reception cfg es s) {i : Nat} {th : Thread}
    (hi : s.waiting[i]? = some th) : s.waiting.eraseIdx i = [] := by
  have hlt := (List.getElem?_eq_some_iff.mp hi).1
  have hone := h.alone
  have herase := List.length_eraseIdx_of_lt hlt
  exact List.eq_nil_of_length_eq_zero (by omega)

/-- What a call returns that goes on from `w`. -/
theorem Reception.returned (h : Reception cfg es s) (ha : Answering cfg s) {c : CRecord}
    (hc : s.ccr = some c) {v : Nat} {q : Bytes} {rsize : Nat} {w : CallWait} {st : CallStep}
    (hm : Thread.call v q rsize w ∈ s.waiting)
    (hst : rpcCallResume 0 cfg.subport c q rsize w = some st) :
    ∀ r ∈ Session.returnsOf v w st, ∃ m, Gathered cfg es s r.number m (pieces m) ∧
      r.bytes = some (m.map some) := by
  intro r hr
  cases w with
  | seqno => cases hr
  | frag => cases hr
  | query n =>
    simp only [rpcCallResume] at hst
    split at hst
    · rename_i hmatch
      cases hst
      rcases matchedState_pair hmatch with hidle | hto
      · obtain ⟨m, p, hg, hresp, hasm⟩ := h.done v q rsize n hm c hc hidle
        rw [rpcCallCollect_assembled hidle hresp (ha.responseOf_sendable n m hg.response) hasm]
          at hr
        by_cases hroom : m.length ≤ rsize
        · simp only [Session.returnsOf, if_pos hroom, List.mem_singleton] at hr
          rw [hr]
          exact ⟨m, hg, rfl⟩
        · simp only [Session.returnsOf, if_neg hroom] at hr
          cases hr
      · rw [rpcCallCollect, if_neg (by rw [hto]; decide)] at hr
        cases hr
    · cases hst

/-- No piece has been received yet. -/
theorem gathered_zero {n : Nat} {m : Bytes} (hm : ResponseOf s n m) : Gathered cfg es s n m 0 :=
  ⟨hm, fun j h1 h0 => by omega⟩

/-- A call that waits for its response is numbered above `rpc_connect`. -/
theorem Reception.past_connect (h : Reception cfg es s) (hn : Numbers cfg s) {v rsize n : Nat}
    {q : Bytes} (hm : Thread.call v q rsize (.query n) ∈ s.waiting) :
    n = s.last cfg ∧ cfg.seqno < s.last cfg := by
  have hlast : n = s.last cfg := h.number v q rsize _ hm
  have hcall : (⟨n, q⟩ : Call) ∈ s.calls := hn.waiting v q rsize _ hm
  exact ⟨hlast, hlast ▸ (hn.call_bounds hcall).1⟩

/-- **The reader of the client.** -/
theorem Reception.crecv (h : Reception cfg es s) (hn : Numbers cfg s) (hk : Kinds s)
    (hr : Roles s) (ha : Answering cfg s) (hcf : s.cfault = none) {i : Nat} {stale : Bytes}
    {p : Packet} (hp : s.s2c[i]? = some p) (hno : ¬ SkipsToLastPiece s (.crecv i stale)) :
    Reception cfg (es ++ [(s, .crecv i stale)]) (s.clientRecv i (p.received stale)) := by
  have hin := List.mem_of_getElem? hp
  have hreceives := hr.receives hk hin stale
  have hsends := ha.sends hk hin stale
  have hfrom := hn.s2c p hin
  have hwhole := received_whole (p := p) (hk.server p hin).whole stale
  have hle : s.responses <+: (s.clientRecv i (p.received stale)).responses := List.prefix_rfl
  refine ⟨fun c' hc' => ?_, fun c' hc' hst => ?_, h.alone, h.unopened, h.number,
    fun v q rsize n hm c' hc' hst => ?_, fun r hr => ?_⟩
  · exact hreceives.assembles ha.responseOf_sendable hsends h.record hc'
  · rcases hreceives.collects hc' hst with ⟨c, hc, hfack, hseqno, hlast⟩ |
      ⟨hcmd, hseqno, hlast, hstart⟩
    · obtain ⟨m, hg⟩ := h.gathered c hc hfack
      rw [hseqno, hlast]
      exact ⟨m, hg.mono hle _⟩
    · obtain ⟨m, hm, h1, -, -, -, hb⟩ := ha.piece hk hin stale (.inr hcmd)
      rw [hseqno, hlast]
      rcases hstart with hone | ⟨c, hc, hfack, hnum, hnext⟩
      · rw [hone] at hb ⊢
        exact ⟨m, (gathered_zero hm).snoc hle hp hb⟩
      · obtain ⟨m', hg⟩ := h.gathered c hc hfack
        rw [← hnum] at hg
        obtain rfl := ha.responseOf_unique hm hg.response
        rw [hnext] at hb ⊢
        exact ⟨m', hg.snoc hle hp hb⟩
  · obtain ⟨hlast, hpast⟩ := h.past_connect hn hm
    have hnum : ∀ c, s.ccr = some c → c.seqno = n := fun c hc =>
      (hn.client hcf c hc).trans hlast.symm
    have hcack : ∀ c, s.ccr = some c → (p.received stale).command = some .cack →
        (p.received stale).seqno ≠ c.seqno := by
      intro c hc hcmd
      rw [hwhole.1] at hcmd
      rw [hwhole.2.1, hfrom.cack hcmd, hnum c hc, hlast]
      exact Nat.ne_of_lt hpast
    rcases hreceives.completes hc' hst hcack (hwhole.1 ▸ hfrom.noSack) with
      ⟨c, hc, hidle, hresp⟩ | ⟨hcmd, c, b, hc, hseqno, hresp, htaken⟩
    · rw [hresp]
      exact (h.done v q rsize n hm c hc hidle).mono hle _
    · obtain ⟨m, hm', -, -, hnf, hpiece, hb⟩ := ha.piece hk hin stale (.inl hcmd)
      rw [hpiece] at hcmd
      have hall := eq_pieces (m := m) (by decide) hcmd
      rw [hpiece] at hsends
      rw [hall] at hb
      rw [hseqno.trans (hnum c hc)] at hm' hb
      rw [hresp]
      rcases htaken with ⟨hstate, rfl⟩ | ⟨hfack, hnext, -, hcopy⟩
      · have hone : (p.received stale).nfrags = 1 := by
          by_contra hne
          exact hno ⟨p, c, hp, hc, hpiece.trans hcmd, hseqno, hstate, hne⟩
        have hpieces : pieces m = 1 := hnf.symm.trans hone
        refine ⟨m, _, ?_, rfl, (hsends (.inl hcmd)).whole ha.responseOf_sendable hone ?_⟩
        · rw [hpieces] at hb ⊢
          exact (gathered_zero hm').snoc hle hp hb
        · rw [hseqno, hnum c hc]
          exact hm'
      · obtain ⟨m', hg⟩ := h.gathered c hc hfack
        rw [hnum c hc] at hg
        obtain rfl := ha.responseOf_unique hm' hg.response
        have hsucc : pieces m' = c.lastFrag + 1 := hall.symm.trans hnext
        refine ⟨m', b, ?_, rfl, ?_⟩
        · rw [hsucc] at hb ⊢
          exact hg.snoc hle hp hb
        · refine (h.record c hc).last (hsends (.inl hcmd)) ha.responseOf_sendable (by decide)
            (hpiece.trans hcmd) hfack hseqno hnext hcopy ?_
          rw [hnum c hc]
          exact hm'
  · obtain ⟨m, hg, hb⟩ := h.returns r hr
    exact ⟨m, hg.mono hle _, hb⟩

/-- **Every step keeps the responses whole**, unless the last piece is taken for a response. -/
theorem Reception.step (h : Reception cfg es s) (hn : Numbers cfg s) (hn' : Numbers cfg t)
    (ha : Answering cfg s) (ha' : Answering cfg t) (hk : Kinds s) (hr : Roles s)
    (hsingle : SingleThread s a) (hno : ¬ SkipsToLastPiece s a) (ht : Stepped cfg s a t) :
    Reception cfg (es ++ [(s, a)]) t := by
  have hle := ht.responses
  cases ht with
  | connect hcf ho =>
    have hnil := h.unopened ho
    refine ⟨fun c hc => ?_, fun c hc hst => ?_, ?_, fun ho' => (by cases ho'),
      fun v q rsize w hm => ?_, fun v q rsize n hm => ?_, fun r hr => ?_⟩
    · cases hc
      exact .of_state (by simp)
    · cases hc
      cases hst
    · show (s.waiting ++ [Thread.connect]).length ≤ 1
      rw [hnil]
      exact Nat.le_refl 1
    · have hm : Thread.call v q rsize w ∈ s.waiting ++ [Thread.connect] := hm
      rw [hnil] at hm
      cases List.mem_singleton.mp hm
    · have hm : Thread.call v q rsize (.query n) ∈ s.waiting ++ [Thread.connect] := hm
      rw [hnil] at hm
      cases List.mem_singleton.mp hm
    · obtain ⟨m, hg, hb⟩ := h.returns r hr
      exact ⟨m, hg.mono hle _, hb⟩
  | cdead hcf hc hws => exact h.quiet ha' hle rfl rfl rfl rfl hws
  | @call q rsize c hcf hh hc =>
    have hnil : s.waiting = [] := hsingle
    refine h.section hn hn' hcf hc (rpcCallBegin_section 0 cfg.subport q c)
      (fun x hx => by cases hx) ?_ rfl rfl rfl rfl fun r hr => ?_
    · obtain ⟨v, hv⟩ := clientSection_waiting s 0 rsize q (rpcCallBegin 0 cfg.subport c q)
      refine ⟨v, rsize, hv.trans ?_⟩
      rw [hnil]
      rfl
    · obtain ⟨m, hg, hb⟩ := h.returns r hr
      exact ⟨m, hg.mono hle _, hb⟩
  | disconnect => exact absurd hsingle id
  | connected => exact h.quiet ha' hle rfl rfl rfl rfl (List.eraseIdx_sublist ..)
  | refused hcf hi hc =>
    refine ⟨fun c hc => (by cases hc), fun c hc => (by cases hc),
      Nat.le_trans (List.eraseIdx_sublist ..).length_le h.alone, fun ho => ?_,
      fun v q rsize w hm => h.number v q rsize w (List.mem_of_mem_eraseIdx hm),
      fun v q rsize n hm c hc => (by cases hc), fun r hr => ?_⟩
    · rw [(hn.unopened ho).1] at hc
      cases hc
    · obtain ⟨m, hg, hb⟩ := h.returns r hr
      exact ⟨m, hg.mono hle _, hb⟩
  | @resumed i v q rsize w c st hcf hi hc hst =>
    have hm := List.mem_of_getElem? hi
    refine h.section hn hn' hcf hc (rpcCallResume_section hst)
      (fun x hx => by cases hx; exact h.number v q rsize w hm) ?_ rfl rfl rfl rfl fun r hr => ?_
    · obtain ⟨v', hv⟩ := clientSection_waiting { s with waiting := s.waiting.eraseIdx i } v rsize
        q st
      refine ⟨v', rsize, hv.trans ?_⟩
      show s.waiting.eraseIdx i ++ _ = _
      rw [h.only hi]
      rfl
    · rcases List.mem_append.mp hr with hr | hr
      · obtain ⟨m, hg, hb⟩ := h.returns r hr
        exact ⟨m, hg.mono hle _, hb⟩
      · obtain ⟨m, hg, hb⟩ := h.returned ha hc hm hst r hr
        exact ⟨m, hg.mono hle _, hb⟩
  | disconnected => exact h.quiet ha' hle rfl rfl rfl rfl (List.eraseIdx_sublist ..)
  | crecv hcf hp => exact h.crecv hn hk hr ha hcf hp hno
  | @ctick c hcf hc =>
    have htick := timerRecord_cases cfg.subport c
    refine ⟨fun c' hc' => ?_, fun c' hc' hst => ?_, h.alone, h.unopened, h.number,
      fun v q rsize n hm c' hc' hst => ?_, fun r hr => ?_⟩
    · obtain ⟨hseqno, -, hresp, hlast⟩ := htick.kept hc'
      refine (h.record c hc).kept hseqno hresp hlast fun hst => ?_
      rcases htick.state hc' with hto | hsame
      · rw [hto] at hst
        cases hst
      · exact hsame.symm.trans hst
    · obtain ⟨hseqno, -, -, hlast⟩ := htick.kept hc'
      rcases htick.state hc' with hto | hsame
      · rw [hto] at hst
        cases hst
      · obtain ⟨m, hg⟩ := h.gathered c hc (hsame.symm.trans hst)
        rw [hseqno, hlast]
        exact ⟨m, hg.mono hle _⟩
    · rcases htick.state hc' with hto | hsame
      · rw [hto] at hst
        cases hst
      · rw [(htick.kept hc').2.2.1]
        exact (h.done v q rsize n hm c hc (hsame.symm.trans hst)).mono hle _
    · obtain ⟨m, hg, hb⟩ := h.returns r hr
      exact ⟨m, hg.mono hle _, hb⟩
  | srecv => exact h.quiet ha' hle rfl rfl rfl rfl (.refl _)
  | stick => exact h.quiet ha' hle rfl rfl rfl rfl (.refl _)
  | query => exact h.quiet ha' hle rfl rfl rfl rfl (.refl _)
  | respondNone => exact h.quiet ha' hle rfl rfl rfl rfl (.refl _)
  | respond => exact h.quiet ha' hle rfl rfl rfl rfl (.refl _)
  | sdead => exact h.quiet ha' hle rfl rfl rfl rfl (.refl _)
  | wresumed => exact h.quiet ha' hle rfl rfl rfl rfl (.refl _)

/-- What holds along a run in which nothing goes wrong. -/
theorem reception_of_trace (hlim : cfg.seqno ≤ SEQNO_LIMIT)
    (h : (sessionSystem cfg).Trace
      (fun s a => InTurn s a ∧ ¬ SkipsToLastPiece s a ∧ ¬ MisAnswers s a) es t) :
    Answering cfg t ∧ Reception cfg es t := by
  refine h.invariant (I := fun es t => Answering cfg t ∧ Reception cfg es t) ?_ ?_
  · refine ⟨⟨Nat.zero_le 1, fun _ hm => (by cases hm), fun _ hm => (by cases hm),
      fun _ hm => (by cases hm), fun _ hm => (by cases hm)⟩, ⟨fun _ hc => (by cases hc),
      fun _ hc => (by cases hc), Nat.zero_le 1, fun _ => rfl, fun _ _ _ _ hm => (by cases hm),
      fun _ _ _ _ hm => (by cases hm), fun _ hm => (by cases hm)⟩⟩
  · intro es s a t hes ⟨ha, hrec⟩ ⟨hok, hlast, hmis⟩ hnext
    have hreach := hes.reach
    have hk := kinds_of_steps hreach
    have hr := roles_of_reach hreach
    have hn := numbers_of_reach hlim (fun _ _ h => h.1.below) hreach
    have ht := next_stepped hnext
    have hn' := hn.step hk hr hok.below ht
    have ha' := ha.step hn hk hr hok.worker hok.sendable hmis ht
    exact ⟨ha', hrec.step hn hn' ha ha' hk hr hok.single hlast ht⟩

end Step

/-- **A call returns the response to its query.**  In a run with one client thread, whose number
stays below `SEQNO_LIMIT`, and one worker, in which no last piece of a longer response arrives
where the client expects a whole one and the worker never answers another query than its own or
one query in two ways, whatever a call returns is the response with its number, and all of it
was received. -/
theorem responsesIntact_of_trace {cfg : Config} {es : List (Session × Event)} {t : Session}
    (hlim : cfg.seqno < SEQNO_LIMIT)
    (h : (sessionSystem cfg).Trace
      (fun s a => InTurn s a ∧ ¬ SkipsToLastPiece s a ∧ ¬ MisAnswers s a) es t) :
    ResponsesIntact cfg es t := by
  obtain ⟨ha, hrec⟩ := reception_of_trace (Nat.le_of_lt hlim) h
  intro r hr
  obtain ⟨m, hg, hb⟩ := hrec.returns r hr
  exact ⟨m, hg.response, fun m' hm' => ha.responseOf_unique hg.response hm', hb, hg.delivered⟩

/-- `InTurn`, evaluated. -/
def inTurnCheck (s : Session) (a : Event) : Bool :=
  belowCheck s && decide (SingleThread s a) && decide (OneWorker s a) && decide (AnswersSendable a)

theorem inTurn_of_check {s : Session} {a : Event} (h : inTurnCheck s a = true) : InTurn s a := by
  simp only [inTurnCheck, Bool.and_eq_true, decide_eq_true_eq] at h
  exact ⟨below_of_check h.1.1.1, h.1.1.2, h.1.2, h.2⟩

/-- No `RESPONSE` of several pieces arrives unless its first pieces have, and the worker answers
its own query, in one way. -/
def nothingMixed (s : Session) : Event → Bool
  | .crecv i stale => (s.s2c[i]?).all fun p => s.ccr.all fun c =>
      (p.received stale).command != some .response || c.state == .fackSent ||
        (p.received stale).nfrags == 1
  | .respond i rb => (s.held[i]?).all fun e => s.scr.all fun c => e.number == c.seqno &&
      s.responses.all fun a => a.number != e.number || a.rb == rb
  | _ => true

theorem not_mixed {s : Session} {a : Event} (h : nothingMixed s a = true) :
    ¬ SkipsToLastPiece s a ∧ ¬ MisAnswers s a := by
  cases a with
  | crecv i stale =>
    refine ⟨?_, id⟩
    rintro ⟨p, c, hp, hc, hcmd, -, hst, hne⟩
    rcases hst with hst | hst <;> simp [nothingMixed, hp, hc, hcmd, hst, hne] at h
  | respond i rb =>
    refine ⟨id, ?_⟩
    rintro ⟨e, c, hi, hc, -, hbad⟩
    simp only [nothingMixed, hi, hc, Option.all_some, Bool.and_eq_true, beq_iff_eq,
      List.all_eq_true, Bool.or_eq_true, bne_iff_ne] at h
    rcases hbad with hne | ⟨a, ha, hn, hrb⟩
    · exact hne h.1
    · exact (h.2 a ha).elim (fun hother => hother hn) hrb
  | _ => exact ⟨id, id⟩

/-- A query, its response of two pieces, and the call that returns it. -/
theorem responsesIntact_of_trace_twoPieces :
    ∃ es t, (sessionSystem (hwdbConfig 0)).Trace
        (fun s a => InTurn s a ∧ ¬ SkipsToLastPiece s a ∧ ¬ MisAnswers s a) es t ∧
      t.returns = [⟨1, 1, some (twoPieces.map some)⟩] ∧
      ResponsesIntact (hwdbConfig 0) es t := by
  obtain ⟨es, t, ht, hp⟩ := System.Trace.of_run (sessionSystem (hwdbConfig 0))
    (fun s a => InTurn s a ∧ ¬ SkipsToLastPiece s a ∧ ¬ MisAnswers s a)
    (fun s a => inTurnCheck s a && nothingMixed s a)
    (connecting ++ [.call [7] 2000, .srecv 1 [], .query 10, .respond 0 twoPieces, .crecv 1 [],
      .crecv 2 [], .srecv 2 [], .wresume 0, .crecv 3 [], .resume 0])
    (fun t => t.returns == [⟨1, 1, some (twoPieces.map some)⟩])
    (fun s a h => by
      obtain ⟨hturn, hmixed⟩ := Bool.and_eq_true_iff.mp h
      exact ⟨inTurn_of_check hturn, not_mixed hmixed⟩)
    (by decide +kernel) (by decide +kernel)
  exact ⟨es, t, ht, eq_of_beq hp, responsesIntact_of_trace (by decide) ht⟩

/-- A second copy of the `QACK` arrives between the two pieces of the response: the last piece is
taken for a response, and the call copies more bytes than have come. -/
theorem qack_splits_response :
    ∃ es t, (sessionSystem (hwdbConfig 0)).Trace InTurn es t ∧
      ¬ ResponsesIntact (hwdbConfig 0) es t := by
  obtain ⟨es, t, ht, hp⟩ := System.Trace.of_run (sessionSystem (hwdbConfig 0)) InTurn inTurnCheck
    (connecting ++ [.call [7] 2000, .srecv 1 [], .query 10, .respond 0 twoPieces, .crecv 1 [],
      .crecv 2 [], .crecv 1 [], .srecv 2 [], .wresume 0, .crecv 3 [], .resume 0])
    (fun t => t.returns == [⟨1, 1, none⟩]) (fun s a => inTurn_of_check)
    (by decide +kernel) (by decide +kernel)
  refine ⟨es, t, ht, fun hin => ?_⟩
  obtain ⟨m, -, -, hb, -⟩ :=
    hin ⟨1, 1, none⟩ (by rw [eq_of_beq hp]; exact List.mem_singleton.mpr rfl)
  cases hb

end Hwdb.Rpc
