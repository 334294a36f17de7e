import Hwdb.Rpc.Asking

/-!
# Concurrent calls on one connection

Any number of client threads call on one connection.  `rpc_call` starts whenever it finds the
record in `ST_IDLE`, and the record is idle as soon as the response has been accepted, so a call
may start before the last response has been collected.

* `StartsCollected` — a call starts only after the last response has been collected.
* `CallsApart` — every call returns the answer to its own query, no response is overwritten, and
  a caller that finds the record idle finds its response.
* `callsApart_orderly` — without such a start, over channels that keep their order, calls do not
  mix, whatever the interleaving.
* `early_start_mixes` — with one, they do.
-/

set_option autoImplicit false

namespace Hwdb.Rpc

open Hwdb.Lib

/-- A call that starts finds no response that has not been collected. -/
def StartsCollected (s : Session) : Event → Prop
  | .call .. => ∀ c, s.ccr = some c → c.state = .idle → c.resp = none
  | .resume i => ∀ v q rsize c, s.waiting[i]? = some (.call v q rsize .seqno) →
      s.ccr = some c → c.state = .idle → c.resp = none
  | _ => True

/-- Call `v` has been answered with `m`. -/
def ResponseTo (s : Session) (v : Nat) (m : Bytes) : Prop :=
  ∃ a ∈ s.responses, a.call = v ∧ a.rb = m

/-- A call that returned 1 returned the one answer that was given to its own query, which reached
the worker as it was sent; no accepted response has been overwritten before it was read; and a
caller that finds the record idle finds a response there. -/
structure CallsApart (s : Session) : Prop where
  own : ∀ r ∈ s.returns, ∃ q m, CallOf s r.call r.number q ∧ r.bytes = some (m.map some) ∧
    ResponseTo s r.call m ∧ (∀ m', ResponseTo s r.call m' → m' = m) ∧
    ∃ e ∈ s.appended, e.call = r.call ∧ (Sendable q → HoldsQuery q e.buf)
  kept : s.lost = []
  present : s.cfault = none → ∀ v q rsize n, Thread.call v q rsize (.query n) ∈ s.waiting →
    ∀ c, s.ccr = some c → c.state = .idle → c.resp.isSome

/-- The thread has sent a part of its query and has not returned. -/
def Thread.calling : Thread → Bool
  | .call _ _ _ (.frag ..) => true
  | .call _ _ _ (.query _) => true
  | _ => false

/-- The thread that waits for a response, what it finds, and what the others have returned, for a
client that has come to `x`. -/
structure Separate (s : Session) (x : Nat) : Prop where
  one : (s.waiting.filter Thread.calling).length ≤ 1
  waiting : ∀ v q rsize n, Thread.call v q rsize (.query n) ∈ s.waiting →
    v = s.calls.length ∧ x % 8 ≠ 5
  done : s.cfault = none → ∀ v q rsize n, Thread.call v q rsize (.query n) ∈ s.waiting →
    ∀ c, s.ccr = some c → c.state = .idle →
      ∃ m b, ResponseTo s s.calls.length m ∧ c.resp = some b ∧ Assembled m b
  unread : ∀ v, s.unread = some v → v = s.calls.length ∧ x % 8 = 4 ∧
    ∀ c, s.ccr = some c → c.resp ≠ none
  lost : s.lost = []
  returns : ∀ r ∈ s.returns, ∃ q m, CallOf s r.call r.number q ∧ ResponseTo s r.call m ∧
    r.bytes = some (m.map some)

/-! ## The reader of the client -/

section Reader

variable {d : Received} {cr : Option CRecord} {out : Outcome}

/-- What answers a `RESPONSE` has accepted it. -/
theorem Handled.takes {stable : Bytes → Option Nat} {nep : Nat} (h : Handled stable nep d cr out)
    (hc : d.command = some .response) (hsent : out.sent ≠ []) :
    ∃ c, cr = some c ∧ TakesResponse c d := by
  have hnot : ∀ {cmd : Command}, d.command = some cmd → cmd ≠ .response →
      ∃ c, cr = some c ∧ TakesResponse c d := fun hcmd hne =>
    absurd (Option.some.inj (hcmd.symm.trans hc)) hne
  cases h with
  | ignored => exact absurd rfl hsent
  | terminator => exact absurd rfl hsent
  | strayName => exact absurd rfl hsent
  | created _ hcmd => exact hnot hcmd nofun
  | reconnected _ _ hcmd => exact hnot hcmd nofun
  | cack => exact absurd rfl hsent
  | queryWhole _ hcmd => exact hnot hcmd nofun
  | queryLast _ _ hcmd => exact hnot hcmd nofun
  | queryOld _ hcmd => exact hnot hcmd nofun
  | qack => exact absurd rfl hsent
  | responseWhole c _ hn hst => exact ⟨c, rfl, hc, .inl ⟨hn, hst⟩⟩
  | responseLast c p _ hn hst hf hnf hp => exact ⟨c, rfl, hc, .inr ⟨hn, hst, hf, hnf, p, hp⟩⟩
  | rack => exact absurd rfl hsent
  | disconnect _ hcmd => exact hnot hcmd nofun
  | dack => exact absurd rfl hsent
  | fragmentFirst _ _ hcmd => exact hnot hcmd nofun
  | fragmentNext _ _ hcmd => exact hnot hcmd nofun
  | fragmentOld _ hcmd => exact hnot hcmd nofun
  | fragmentFault => exact absurd rfl hsent
  | copyFault => exact absurd rfl hsent
  | fack => exact absurd rfl hsent
  | ping _ hcmd => exact hnot hcmd nofun
  | pack => exact absurd rfl hsent
  | seqno _ hcmd => exact hnot hcmd nofun
  | sack => exact absurd rfl hsent

/-- The response of a record changes while it waits for one, or when it starts to assemble. -/
theorem Receives.overwrites (h : Receives d cr out)
    (hne : out.cr.bind (·.resp) ≠ cr.bind (·.resp)) : ∃ c, cr = some c ∧
      (c.state = .querySent ∨ c.state = .awaitingResponse ∨ c.state = .fackSent ∨
        (c.state = .idle ∧ ∃ c', out.cr = some c' ∧ c'.state = .fackSent)) := by
  cases h with
  | responseWhole c _ _ hst => exact ⟨c, rfl, hst.imp_right .inl⟩
  | responseLast c _ _ _ hst => exact ⟨c, rfl, .inr (.inr (.inl hst))⟩
  | fragmentNext c _ _ _ hst => exact ⟨c, rfl, .inr (.inr (.inl hst))⟩
  | fragmentFirst c _ _ hst =>
    rcases hst with ⟨hst, -⟩ | ⟨hst, -⟩
    · exact ⟨c, rfl, .inr (.inr (.inr ⟨hst, _, rfl, rfl⟩))⟩
    · exact ⟨c, rfl, hst.imp_right .inl⟩
  | _ => exact absurd rfl hne

/-- What is answered has not left a buffer. -/
theorem Receives.fault_none (h : Receives d cr out) (hsent : out.sent ≠ []) :
    out.fault = none := by
  cases h with
  | failed => exact absurd rfl hsent
  | _ => rfl

end Reader

section Client

variable {cfg : Config} {s t : Session} {x x' y y' i : Nat} {p : Packet} {stale : Bytes}
  {c c' : CRecord} {a : Event}

/-- **A record that is idle** while a thread waits for its response was so before, or has just
been given the whole response. -/
theorem Lockstep.completes (h : Lockstep cfg s x y) (hk : Kinds s) (hr : Roles s)
    (hcf : s.cfault = none) (hp : s.s2c[i]? = some p) (hi : s.cseen ≤ i)
    (hno : ¬ SkipsToLastPiece s (.crecv i stale)) (h8 : 8 ≤ x) (h5 : x % 8 ≠ 5)
    (hc' : (readerSwitch (fun _ => none) 0 s.ccr (p.received stale)).cr = some c')
    (hidle : c'.state = .idle) : ∃ c, s.ccr = some c ∧
      ((c.state = .idle ∧ c'.resp = c.resp) ∨
        ∃ m b, ResponseTo s s.calls.length m ∧ c'.resp = some b ∧ Assembled m b) := by
  have hin := List.mem_of_getElem? hp
  have hof := h.server.s2c p hin
  obtain ⟨hcommand, hseqno, -, -⟩ := received_whole (p := p) (hk.server p hin).whole stale
  have hsends := h.sends hk hp hi stale
  have hcalls := h.client.calls
  have hrec := hr.receives hk hin stale
  -- the answer whose piece the datagram is
  have hanswer : ∀ c, s.ccr = some c → (p.received stale).seqno = c.seqno →
      (p.received stale).command = some .response →
      ∃ m, AnswerOf s (p.received stale).seqno m ∧ ResponseTo s s.calls.length m := by
    intro c hc hn hcmd
    have hnum := (h.client.record hcf c hc).number
    rw [if_neg h5] at hnum
    have hlt := (p.received stale).seqno_lt
    rw [hcommand] at hcmd
    have hwire : p.seqno = wire (s.numberOf cfg (x / 8)) := by
      rw [hn] at hlt
      rw [← hseqno, hn, ← hnum]
      exact (Nat.mod_eq_of_lt hlt).symm
    obtain ⟨hcall, -⟩ := h.piece_call hp hi (.inl hcmd) hwire
    obtain ⟨-, -, a, ha, hacall, hanum, -⟩ := hof.data (.inl hcmd)
    have hlast : a.call = s.calls.length := by rw [hacall, hcall, hcalls]
    exact ⟨a.rb, ⟨a, ha, hlast, by rw [hseqno, hanum], rfl⟩, a, ha, hlast, rfl⟩
  generalize hcr : s.ccr = cr at hrec hc'
  generalize hout : readerSwitch (fun _ => none) 0 cr (p.received stale) = out at hrec hc'
  cases hrec with
  | kept => exact ⟨c', hc', .inl ⟨hidle, rfl⟩⟩
  | failed => exact ⟨c', hc', .inl ⟨hidle, rfl⟩⟩
  | cack c hc hn =>
    obtain ⟨hzero, hwire⟩ := hof.cack (hcommand ▸ hc)
    obtain ⟨h1, -, -⟩ := h.logs.arrives hp hi (rank_of_command (hcommand ▸ hc) rfl)
    have hle := h.cack_le hcf hcr (by omega) (hn.symm.trans (hseqno.trans hwire))
    omega
  | qack => cases hc'; cases hidle
  | dack => cases hc'; cases hidle
  | responseWhole c hc hn hst =>
    cases hc'
    obtain ⟨m, hm, hto⟩ := hanswer c hcr hn hc
    have hone : (p.received stale).nfrags = 1 := by
      by_contra hne
      exact hno ⟨p, c, hp, hcr, hc, hn, hst, hne⟩
    exact ⟨c, rfl, .inr ⟨m, _, hto, rfl, (hsends (.inl hc)).whole h.answer_sendable hone hm⟩⟩
  | responseLast c b hc hn hst hf hnf hcopy =>
    cases hc'
    obtain ⟨m, hm, hto⟩ := hanswer c hcr hn hc
    have hasm := (h.client.record hcf c hcr).assembles
    exact ⟨c, rfl, .inr ⟨m, b, hto, rfl, hasm.last (hsends (.inl hc)) h.answer_sendable (by decide)
      hc hst hn hf hcopy (hn ▸ hm)⟩⟩
  | fragmentFirst => cases hc'; cases hidle
  | fragmentNext => cases hc'; cases hidle
  | resent c hst =>
    cases hc'
    rw [setState_state, hst] at hidle
    cases hidle
  | fack => cases hc'; cases hidle
  | ping c => cases hc'; exact ⟨c', rfl, .inl ⟨hidle, rfl⟩⟩
  | pack c => cases hc'; exact ⟨c, rfl, .inl ⟨hidle, rfl⟩⟩
  | sack c hc hst =>
    have hin := (h.client.record hcf c hcr).state
    rw [hst] at hin
    exact absurd hin h5

/-- **No response is overwritten** but the one that is being assembled. -/
theorem Lockstep.overwrites (h : Lockstep cfg s x y) (hk : Kinds s) (hr : Roles s)
    (ho : s.ccr.isSome → s.opened = true) (hp : s.s2c[i]? = some p)
    (hi : s.cseen ≤ i) (hcf : s.cfault = none)
    (hne : (readerSwitch (fun _ => none) 0 s.ccr (p.received stale)).cr.bind (·.resp) ≠
      s.ccr.bind (·.resp)) : x % 8 = 2 ∨ x % 8 = 3 := by
  have hrec := hr.receives hk (List.mem_of_getElem? hp) stale
  obtain ⟨c, hc, hst⟩ := hrec.overwrites hne
  have hin := (h.client.record hcf c hc).state
  rcases hst with hst | hst | hst | ⟨hst, c', hc', hfack⟩
  · rw [hst] at hin
    exact .inl hin.1
  · rw [hst] at hin
    exact .inl hin.1
  · rw [hst] at hin
    exact .inr hin.1
  · have hset : Settled s c.seqno := ⟨c, hc, hst, rfl⟩
    have hstep : Stepped cfg s (.crecv i stale) _ := .crecv hcf hp
    obtain ⟨c'', hc'', hidle, -⟩ :=
      hset.step hk ho hstep id (h.not_lateAck hk hi hstep hset)
    have heq : some c' = some c'' := hc'.symm.trans hc''
    rw [← Option.some.inj heq, hfack] at hidle
    cases hidle

end Client

/-! ## Steps -/

section Step

variable {cfg : Config} {s t : Session} {x x' y y' i v rsize : Nat} {p : Packet} {stale : Bytes}
  {q : Bytes} {c : CRecord} {w : Option CallWait} {st : CallStep} {ws : List Thread} {a : Event}

theorem ResponseTo.mono {m : Bytes} (h : ResponseTo s v m) (hle : s.responses <+: t.responses) :
    ResponseTo t v m := by
  obtain ⟨b, hb, hm⟩ := h
  exact ⟨b, hle.subset hb, hm⟩

/-- A client that is not renumbering does not start to without a step that says so. -/
theorem Moves.not_renumbering (h : Moves s t x x') (hepoch : t.epoch = s.epoch)
    (h5 : x % 8 ≠ 5) : x' % 8 ≠ 5 := by
  rcases h.enters with rfl | hlow | hgrew <;> omega

/-- A client that has accepted a response stays where it is until the next call. -/
theorem Moves.stays (h : Moves s t x x') (hepoch : t.epoch = s.epoch) (hdiv : x' / 8 = x / 8)
    (h4 : x % 8 = 4) : x' % 8 = 4 := by
  have hle := h.le
  rcases h.enters with rfl | hlow | hgrew <;> omega

/-- The threads that wait for a fragment to be acknowledged or for their response. -/
theorem calling_query {n : Nat} {ths : List Thread}
    (h : Thread.call v q rsize (.query n) ∈ ths) :
    Thread.call v q rsize (.query n) ∈ ths.filter Thread.calling :=
  List.mem_filter.mpr ⟨h, rfl⟩

/-- A thread that goes on leaves no other behind. -/
theorem Separate.erase (h : Separate s x) {th : Thread} (hi : s.waiting[i]? = some th)
    (hth : th.calling = true) : ∀ th' ∈ s.waiting.eraseIdx i, th'.calling = false := by
  obtain ⟨hlt, hget⟩ := List.getElem?_eq_some_iff.mp hi
  have hone := h.one
  have hsplit : s.waiting = s.waiting.take i ++ th :: s.waiting.drop (i + 1) := by
    rw [← hget, List.getElem_cons_drop, List.take_append_drop]
  rw [hsplit, List.filter_append, List.filter_cons_of_pos hth, List.length_append,
    List.length_cons] at hone
  intro th' hm
  rw [List.eraseIdx_eq_take_drop_succ] at hm
  by_contra hne
  have hne : th'.calling = true := by simpa using hne
  rcases List.mem_append.mp hm with hm | hm
  · have hpos := List.length_pos_of_mem (List.mem_filter.mpr ⟨hm, hne⟩)
    omega
  · have hpos := List.length_pos_of_mem (List.mem_filter.mpr ⟨hm, hne⟩)
    omega

/-- No call has been made, returned or answered by the client, and the threads wait as before. -/
theorem Separate.quiet (h : Separate s x) (hl : Lockstep cfg s x y) (hl' : Lockstep cfg t x' y')
    (hmoves : Moves s t x x') (hcalls : t.calls = s.calls) (hepoch : t.epoch = s.epoch)
    (hres : s.responses <+: t.responses)
    (hone : (t.waiting.filter Thread.calling).Sublist (s.waiting.filter Thread.calling))
    (hdone : t.cfault = none → s.cfault = none ∧ ∀ c', t.ccr = some c' → c'.state = .idle →
      ∃ c, s.ccr = some c ∧ c.state = .idle ∧ c'.resp = c.resp)
    (hunread : ∀ v, t.unread = some v → s.unread = some v)
    (hresp : s.unread ≠ none → ∀ c', t.ccr = some c' → ∃ c, s.ccr = some c ∧ c'.resp = c.resp)
    (hlost : t.lost = s.lost) (hreturns : t.returns = s.returns) : Separate t x' := by
  have hdiv : x' / 8 = x / 8 := by rw [hl'.client.calls, hcalls, hl.client.calls]
  have hquery : ∀ v q rsize n, Thread.call v q rsize (.query n) ∈ t.waiting →
      Thread.call v q rsize (.query n) ∈ s.waiting := fun v q rsize n hm =>
    (List.mem_filter.mp (hone.subset (calling_query hm))).1
  refine ⟨Nat.le_trans hone.length_le h.one, fun v q rsize n hm => ?_,
    fun hcf v q rsize n hm c' hc' hidle => ?_, fun v hv => ?_, hlost.trans h.lost, fun r hr => ?_⟩
  · obtain ⟨hv, h5⟩ := h.waiting v q rsize n (hquery v q rsize n hm)
    exact ⟨hcalls ▸ hv, hmoves.not_renumbering hepoch h5⟩
  · obtain ⟨hcf, hrec⟩ := hdone hcf
    obtain ⟨c, hc, hst, hsame⟩ := hrec c' hc' hidle
    obtain ⟨m, b, hm', hb, hasm⟩ := h.done hcf v q rsize n (hquery v q rsize n hm) c hc hst
    rw [hcalls, hsame]
    exact ⟨m, b, hm'.mono hres, hb, hasm⟩
  · have hread := hunread v hv
    obtain ⟨hlast, h4, hne⟩ := h.unread v hread
    refine ⟨hcalls ▸ hlast, hmoves.stays hepoch hdiv h4, fun c' hc' => ?_⟩
    obtain ⟨c, hc, hsame⟩ := hresp (hread ▸ Option.some_ne_none v) c' hc'
    rw [hsame]
    exact hne c hc
  · obtain ⟨q, m, hcall, hm, hb⟩ := h.returns r (hreturns ▸ hr)
    exact ⟨q, m, hcall.mono (hcalls ▸ List.prefix_rfl), hm.mono hres, hb⟩

/-- A section that leaves a thread waiting for a response has sent its query. -/
theorem CallSection.waits_query {n : Nat} (hst : CallSection 0 cfg.subport q c w st)
    (hwait : st.wait = some (.query n)) : st.cr.state = .querySent ∧ st.fault = none := by
  cases hst with
  | refused => cases hwait
  | timedout => cases hwait
  | undefined => cases hwait
  | renumber => cases hwait
  | fragment => cases hwait
  | query => exact ⟨rfl, rfl⟩
  | collected n rsize =>
    obtain ⟨result, fault, he⟩ := rpcCallCollect_eq c rsize
    rw [he] at hwait
    cases hwait

/-- **A section of `rpc_call`** that no other thread is behind. -/
theorem Separate.section (h : Separate s x) (hl' : Lockstep cfg t x' y')
    (hst : CallSection 0 cfg.subport q c w st) (ht : SectionTo s t q st v rsize ws)
    (hws : ∀ th ∈ ws, th.calling = false)
    (hv : st.number = none → ∀ n, st.wait = some (.query n) → v = t.calls.length)
    (hunread : t.unread = none) (hlost : t.lost = s.lost)
    (hreturns : ∀ r ∈ t.returns, ∃ q m, CallOf t r.call r.number q ∧ ResponseTo t r.call m ∧
      r.bytes = some (m.map some)) : Separate t x' := by
  have hnew : ∀ v' q' rsize' n, Thread.call v' q' rsize' (.query n) ∈ t.waiting →
      v' = t.calls.length ∧ st.wait = some (.query n) := by
    intro v' q' rsize' n hm
    rw [ht.waiting] at hm
    rcases List.mem_append.mp hm with hm | hm
    · cases hws _ hm
    · obtain ⟨hwait, rfl, -⟩ := mem_call_thread hm
      refine ⟨?_, hwait⟩
      cases hnumber : st.number with
      | some _ => rfl
      | none => exact hv hnumber n hwait
  have hfiltered : ws.filter Thread.calling = [] :=
    List.filter_eq_nil_iff.mpr fun th hth => by simp [hws th hth]
  refine ⟨?_, fun v' q' rsize' n hm => ?_, fun _ v' q' rsize' n hm c' hc' hidle => ?_,
    fun u hu => ?_, hlost.trans h.lost, hreturns⟩
  · rw [ht.waiting, List.filter_append, hfiltered, List.nil_append]
    refine Nat.le_trans (List.length_filter_le ..) ?_
    cases st.wait with
    | none => exact Nat.zero_le 1
    | some _ => exact Nat.le_refl 1
  · obtain ⟨hv', hwait⟩ := hnew v' q' rsize' n hm
    obtain ⟨hsent, hfault⟩ := hst.waits_query hwait
    have hin := (hl'.client.record (ht.fault.trans hfault) _ ht.ccr).state
    rw [hsent] at hin
    exact ⟨hv', by have hin : x' % 8 = 2 ∧ 8 ≤ x' := hin; omega⟩
  · obtain ⟨-, hwait⟩ := hnew v' q' rsize' n hm
    rw [ht.ccr] at hc'
    cases hc'
    rw [(hst.waits_query hwait).1] at hidle
    cases hidle
  · rw [hunread] at hu
    cases hu

/-- On an idle record that holds no response no thread waits for one. -/
theorem Separate.start (h : Separate s x) (hl : Lockstep cfg s x y) (hcf : s.cfault = none)
    (hc : s.ccr = some c) (hidle : c.state = .idle) (hresp : c.resp = none) :
    (∀ th ∈ s.waiting, th.calling = false) ∧ s.unread = none := by
  have hx := hl.idle_rank hcf hc hidle
  constructor
  · intro th hth
    cases th with
    | connect => rfl
    | disconnect => rfl
    | call v q rsize w =>
      cases w with
      | seqno => rfl
      | frag n k nf =>
        obtain ⟨hx', -⟩ := hl.client.sending.thread _ _ _ _ _ _ hth
        omega
      | query n =>
        obtain ⟨m, b, -, hb, -⟩ := h.done hcf _ _ _ _ hth c hc hidle
        rw [hresp] at hb
        cases hb
  · by_contra hne
    obtain ⟨v, hv⟩ := Option.ne_none_iff_exists'.mp hne
    exact (h.unread v hv).2.2 c hc hresp

/-- A section that starts a call, or that fails. -/
theorem Separate.starts (h : Separate s x) (hl : Lockstep cfg s x y) (hl' : Lockstep cfg t x' y')
    (hcf : s.cfault = none) (hc : s.ccr = some c) (hidle : c.state = .idle)
    (hresp : c.resp = none) (hst : CallSection 0 cfg.subport q c w st)
    (ht : SectionTo s t q st v rsize ws)
    (hw : w = none ∨ w = some .seqno)
    (hunread : s.unread = none → t.unread = none) (hlost : t.lost = s.lost)
    (hreturns : t.returns = s.returns) : Separate t x' := by
  obtain ⟨hnone, hread⟩ := h.start hl hcf hc hidle hresp
  have hpre : s.calls <+: t.calls := by
    rw [ht.calls]
    exact List.prefix_append _ _
  refine h.section hl' hst ht (fun th hth => hnone th (ht.left.subset hth))
    (fun hnumber n hwait => ?_) (hunread hread) hlost fun r hr => ?_
  · -- a thread that starts a call gives it a number before it sends the query
    exfalso
    cases hst with
    | query hk =>
      cases hk with
      | first => cases hnumber
      | renumbered => cases hnumber
      | next => rcases hw with hw | hw <;> cases hw
    | collected => rcases hw with hw | hw <;> cases hw
    | _ => cases hwait
  · rw [hreturns] at hr
    obtain ⟨q, m, hcall, hm, hb⟩ := h.returns r hr
    exact ⟨q, m, hcall.mono hpre, hm.mono (ht.same.responses ▸ List.prefix_rfl), hb⟩

/-- **The reader of the client.** -/
theorem Separate.crecv (h : Separate s x) (hl : Lockstep cfg s x y)
    (hl' : Lockstep cfg (s.clientRecv i (p.received stale)) x' y')
    (hmoves : Moves s (s.clientRecv i (p.received stale)) x x') (hasking : Asking cfg s y)
    (hk : Kinds s) (hr : Roles s) (ho : s.ccr.isSome → s.opened = true) (hcf : s.cfault = none)
    (hp : s.s2c[i]? = some p) (hi : s.cseen ≤ i)
    (hno : ¬ SkipsToLastPiece s (.crecv i stale)) :
    Separate (s.clientRecv i (p.received stale)) x' := by
  have hcalls := hl.client.calls
  have hdiv : x' / 8 = x / 8 := hl'.client.calls.trans hcalls.symm
  have hkept : (readerSwitch (fun _ => none) 0 s.ccr (p.received stale)).cr.bind (·.resp) ≠
      s.ccr.bind (·.resp) → x % 8 = 2 ∨ x % 8 = 3 := hl.overwrites hk hr ho hp hi hcf
  -- a response that is accepted is the one of the last call
  have haccepts : (p.received stale).command = some .response →
      (readerSwitch (fun _ => none) 0 s.ccr (p.received stale)).sent ≠ [] →
      x' % 8 = 4 ∧ ∀ c', (readerSwitch (fun _ => none) 0 s.ccr (p.received stale)).cr = some c' →
        c'.resp ≠ none := by
    intro hcmd hsent
    obtain ⟨c, hc, htakes⟩ := (readerSwitch_handled s.ccr).takes hcmd hsent
    have hin := (hl.client.record hcf c hc).state
    have hx : 8 ≤ x ∧ (x % 8 = 2 ∨ x % 8 = 3) := by
      rcases htakes.2 with ⟨-, hst | hst⟩ | ⟨-, hst, -⟩ <;> rw [hst] at hin <;>
        exact ⟨hin.2, by have := hin.1; omega⟩
    have hn : (p.received stale).n < RECV_SIZE := by
      by_contra hge
      rw [readerSwitch, if_pos (Nat.le_of_not_lt hge)] at hsent
      exact hsent rfl
    obtain ⟨c₁, hc₁, hidle, -⟩ := htakes.settles hn
    have hout : (readerSwitch (fun _ => none) 0 s.ccr (p.received stale)).cr = some c₁ := by
      rw [hc]
      exact hc₁
    have hnofault : (s.clientRecv i (p.received stale)).cfault = none :=
      (hr.receives hk (List.mem_of_getElem? hp) stale).fault_none hsent
    have hin' := (hl'.client.record hnofault c₁ hout).state
    rw [hidle] at hin'
    have h45 : x' % 8 = 4 ∨ x' % 8 = 5 := hin'
    have h5 := hmoves.not_renumbering rfl (by omega)
    refine ⟨by omega, fun c' hc' => ?_⟩
    obtain ⟨c₂, hc₂, ⟨hst, -⟩ | ⟨m, b, -, hb, -⟩⟩ :=
      hl.completes hk hr hcf hp hi hno hx.1 (by omega) hout hidle
    · obtain rfl : c = c₂ := Option.some.inj (hc.symm.trans hc₂)
      rcases htakes.2 with ⟨-, hst' | hst'⟩ | ⟨-, hst', -⟩ <;> rw [hst'] at hst <;> cases hst
    · rw [hout] at hc'
      rw [← Option.some.inj hc', hb]
      exact Option.some_ne_none b
  refine ⟨h.one, fun v q rsize n hm => ?_, fun hcf' v q rsize n hm c' hc' hidle => ?_,
    fun v hv => ?_, ?_, h.returns⟩
  · obtain ⟨hv, h5⟩ := h.waiting v q rsize n hm
    exact ⟨hv, hmoves.not_renumbering rfl h5⟩
  · obtain ⟨hv, h5⟩ := h.waiting v q rsize n hm
    have hcall : CallOf s v n q := hasking.threads v q rsize _ hm
    have h1 := hcall.1
    obtain ⟨c, hc, ⟨hst, hresp⟩ | hdone⟩ :=
      hl.completes hk hr hcf hp hi hno (by omega) h5 hc' hidle
    · rw [hresp]
      exact h.done hcf v q rsize n hm c hc hst
    · exact hdone
  · have hv : (if (p.received stale).command = some .response ∧
        (readerSwitch (fun _ => none) 0 s.ccr (p.received stale)).sent ≠ [] then
        some s.calls.length else s.unread) = some v := hv
    split at hv
    · rename_i haccept
      obtain ⟨h4, hresp⟩ := haccepts haccept.1 haccept.2
      exact ⟨(Option.some.inj hv).symm, h4, hresp⟩
    · obtain ⟨hlast, h4, hresp⟩ := h.unread v hv
      refine ⟨hlast, hmoves.stays rfl hdiv h4, fun c' hc' hnone => ?_⟩
      have hsame : (readerSwitch (fun _ => none) 0 s.ccr (p.received stale)).cr.bind (·.resp) =
          s.ccr.bind (·.resp) := by
        by_contra hne
        have hx := hkept hne
        omega
      have hout : (readerSwitch (fun _ => none) 0 s.ccr (p.received stale)).cr = some c' := hc'
      cases hc : s.ccr with
      | none =>
        rw [hc, (readerSwitch_handled none).unserved] at hout
        cases hout
      | some c =>
        rw [hout, hc] at hsame
        exact hresp c hc (hsame.symm.trans hnone)
  · show (if _ then s.lost ++ s.unread.toList else s.lost) = []
    split
    · rename_i hne
      have hx := hkept hne
      cases hread : s.unread with
      | none => simpa using h.lost
      | some v =>
        have h4 := (h.unread v hread).2.1
        omega
    · exact h.lost

/-- What the caller of a query thread is given. -/
theorem Separate.collects (h : Separate s x) (hl : Lockstep cfg s x y) (hasking : Asking cfg s y)
    (hcf : s.cfault = none) (hc : s.ccr = some c) {w : CallWait}
    (hm : Thread.call v q rsize w ∈ s.waiting)
    (hst : rpcCallResume 0 cfg.subport c q rsize w = some st) :
    ∀ r ∈ Session.returnsOf v w st, ∃ q m, CallOf s r.call r.number q ∧ ResponseTo s r.call m ∧
      r.bytes = some (m.map some) := by
  intro r hr
  cases w with
  | seqno => cases hr
  | frag => cases hr
  | query n =>
    have hcall : CallOf s v n q := hasking.threads v q rsize _ hm
    obtain ⟨hv, -⟩ := h.waiting v q rsize n hm
    simp only [rpcCallResume] at hst
    split at hst
    · rename_i hmatch
      cases hst
      rcases matchedState_pair hmatch with hidle | hto
      · obtain ⟨m, b, hto, hresp, hasm⟩ := h.done hcf v q rsize n hm c hc hidle
        have hsend : Sendable m := by
          obtain ⟨a, ha, -, rfl⟩ := hto
          exact (hl.server.answer a ha).2.2.1
        rw [rpcCallCollect_assembled hidle hresp hsend hasm] at hr
        by_cases hroom : m.length ≤ rsize
        · simp only [Session.returnsOf, if_pos hroom, List.mem_singleton] at hr
          rw [hr]
          exact ⟨q, m, hcall, hv ▸ hto, rfl⟩
        · simp only [Session.returnsOf, if_neg hroom] at hr
          cases hr
      · rw [rpcCallCollect, if_neg (by rw [hto]; decide)] at hr
        cases hr
    · cases hst

/-- **A waiting call goes on.** -/
theorem Separate.resume (h : Separate s x) (hl : Lockstep cfg s x y) (hasking : Asking cfg s y)
    (hcf : s.cfault = none) (hc : s.ccr = some c) {w : CallWait}
    (hi : s.waiting[i]? = some (.call v q rsize w))
    (hst : rpcCallResume 0 cfg.subport c q rsize w = some st)
    (hstart : StartsCollected s (.resume i))
    (ht : t = { { s with waiting := s.waiting.eraseIdx i }.clientSection v q rsize st with
      returns := s.returns ++ Session.returnsOf v w st
      unread := if s.unread = some v then none else s.unread })
    (hl' : Lockstep cfg t x' y') (hmoves : Moves s t x x') : Separate t x' := by
  have hm := List.mem_of_getElem? hi
  have hto : SectionTo s t q st v rsize (s.waiting.eraseIdx i) :=
    ht ▸ sectionTo_resume s q st v rsize i _ _
  have hlost : t.lost = s.lost := by rw [ht]; rfl
  have hunread : t.unread = if s.unread = some v then none else s.unread := by rw [ht]
  have hreturns : t.returns = s.returns ++ Session.returnsOf v w st := by rw [ht]
  have hpre : s.calls <+: t.calls := by
    rw [hto.calls]
    exact List.prefix_append _ _
  have hres : s.responses <+: t.responses := hto.same.responses ▸ List.prefix_rfl
  have hsec := rpcCallResume_section hst
  have hreturned : ∀ r ∈ t.returns, ∃ q m, CallOf t r.call r.number q ∧ ResponseTo t r.call m ∧
      r.bytes = some (m.map some) := by
    intro r hr
    rw [hreturns] at hr
    have hold : ∃ q m, CallOf s r.call r.number q ∧ ResponseTo s r.call m ∧
        r.bytes = some (m.map some) :=
      (List.mem_append.mp hr).elim (h.returns r) (h.collects hl hasking hcf hc hm hst r)
    obtain ⟨q, m, hcall, hm, hb⟩ := hold
    exact ⟨q, m, hcall.mono hpre, hm.mono hres, hb⟩
  cases w with
  | seqno =>
    have hnil : t.returns = s.returns := by
      rw [hreturns]
      exact List.append_nil _
    by_cases hidle : c.state = .idle
    · refine h.starts hl hl' hcf hc hidle (hstart v q rsize c hi hc hidle) hsec hto (.inr rfl)
        (fun hnone => ?_) hlost hnil
      rw [hunread, hnone]
      rfl
    · -- the renumbering has timed out
      simp only [rpcCallResume] at hst
      split at hst
      · rename_i hmatch
        have hto' := (matchedState_pair hmatch).resolve_left hidle
        cases hst
        rw [if_pos hto'] at hto
        have hcalls : t.calls = s.calls := hto.calls.trans (List.append_nil _)
        have hepoch : t.epoch = s.epoch := hto.epoch
        have hccr : t.ccr = s.ccr := hto.ccr.trans hc.symm
        refine h.quiet hl hl' hmoves hcalls hepoch hres ?_ (fun _ => ⟨hcf, fun c' hc' hst => ?_⟩)
          (fun u hu => ?_) (fun _ c' hc' => ⟨c', hccr ▸ hc', rfl⟩) hlost hnil
        · have hwaiting : t.waiting = s.waiting.eraseIdx i := hto.waiting.trans (List.append_nil _)
          rw [hwaiting]
          exact hto.left.filter _
        · exact ⟨c', hccr ▸ hc', hst, rfl⟩
        · rw [hunread] at hu
          split at hu
          · cases hu
          · exact hu
      · cases hst
  | frag n k nf =>
    obtain ⟨hv, -⟩ := hasking.sending hl hm
    obtain ⟨hx, -⟩ := hl.client.sending.thread _ _ _ _ _ _ hm
    refine h.section hl' hsec hto (h.erase hi rfl) (fun hnumber n hwait => ?_) ?_ hlost hreturned
    · rw [hv, hto.calls, hnumber]
      exact congrArg List.length (List.append_nil s.calls).symm
    · have hnone : s.unread = none := by
        by_contra hne
        obtain ⟨u, hu⟩ := Option.ne_none_iff_exists'.mp hne
        have h4 := (h.unread u hu).2.1
        omega
      rw [hunread, hnone]
      rfl
  | query n =>
    obtain ⟨hv, -⟩ := h.waiting v q rsize n hm
    refine h.section hl' hsec hto (h.erase hi rfl) (fun hnumber n hwait => ?_) ?_ hlost hreturned
    · cases hsec with
      | timedout => cases hwait
      | undefined hk => cases hwait
      | fragment hk => cases hk
      | query hk => cases hk
      | collected n rsize =>
        obtain ⟨result, fault, he⟩ := rpcCallCollect_eq c rsize
        rw [he] at hwait
        cases hwait
    · rw [hunread]
      split
      · rfl
      · rename_i hother
        by_contra hne
        obtain ⟨u, hu⟩ := Option.ne_none_iff_exists'.mp hne
        have hlast := (h.unread u hu).1
        exact hother (by rw [hu, hlast, hv])

/-- **Every step** in which no call starts before the last response has been collected. -/
theorem Separate.step (h : Separate s x) (hl : Lockstep cfg s x y) (hl' : Lockstep cfg t x' y')
    (hmoves : Moves s t x x') (hasking : Asking cfg s y) (hk : Kinds s) (hr : Roles s)
    (ho : s.ccr.isSome → s.opened = true) (hord : Orderly s a) (hstart : StartsCollected s a)
    (ht : Stepped cfg s a t) : Separate t x' := by
  have hskip := hl.not_skipsToLastPiece hk hord.order ht
  have hquiet := fun hcalls hepoch => h.quiet hl hl' hmoves hcalls hepoch ht.responses
  have hfilter : ∀ i, ((s.waiting.eraseIdx i).filter Thread.calling).Sublist
      (s.waiting.filter Thread.calling) := fun i => (List.eraseIdx_sublist ..).filter _
  cases ht with
  | connect hcf hopened =>
    obtain ⟨rfl, hnone⟩ := hl.client.unopened hopened
    refine hquiet rfl rfl ?_ (fun _ => ⟨hcf, fun c' hc' hidle => ?_⟩) (fun _ hv => hv)
      (fun hne => ?_) rfl rfl
    · show ((s.waiting ++ [Thread.connect]).filter Thread.calling).Sublist _
      rw [List.filter_append]
      exact (List.append_nil _).symm ▸ List.Sublist.refl _
    · cases hc'
      cases hidle
    · obtain ⟨v, hv⟩ := Option.ne_none_iff_exists'.mp hne
      have h4 := (h.unread v hv).2.1
      omega
  | cdead hcf hc hws =>
    exact hquiet rfl rfl (hws.filter _) nofun (fun _ hv => hv) (fun _ c' hc' => ⟨c', hc', rfl⟩) rfl
      rfl
  | @call q rsize c hcf _ hc =>
    have hst := rpcCallBegin_section 0 cfg.subport q c
    have hto := sectionTo_call s q (rpcCallBegin 0 cfg.subport c q) rsize
    by_cases hidle : c.state = .idle
    · exact h.starts hl hl' hcf hc hidle (hstart c hc hidle) hst hto (.inl rfl) id rfl rfl
    · have hrefused : rpcCallBegin 0 cfg.subport c q = .fail c := by
        rw [rpcCallBegin, if_neg hidle]
      rw [hrefused] at hto
      have hsame : s.clientSection 0 q rsize (rpcCallBegin 0 cfg.subport c q) =
          s.clientSection 0 q rsize (.fail c) := by rw [hrefused]
      refine hquiet ?_ ?_ ?_ (fun _ => ⟨hcf, fun c' hc' hst => ?_⟩) (fun _ hv => hv)
        (fun _ c' hc' => ?_) rfl rfl
      · rw [hsame]
        exact List.append_nil _
      · rw [hsame]
        rfl
      · rw [hsame]
        show ((s.waiting ++ []).filter Thread.calling).Sublist _
        rw [List.append_nil]
      · rw [hsame] at hc'
        cases hc'
        exact absurd hst hidle
      · rw [hsame] at hc'
        cases hc'
        exact ⟨c, hc, rfl⟩
  | disconnect => exact absurd rfl hord.connected
  | connected hcf =>
    exact hquiet rfl rfl (hfilter _) (fun _ => ⟨hcf, fun c' hc' hst => ⟨c', hc', hst, rfl⟩⟩)
      (fun _ hv => hv) (fun _ c' hc' => ⟨c', hc', rfl⟩) rfl rfl
  | refused hcf =>
    exact hquiet rfl rfl (hfilter _) (fun _ => ⟨hcf, nofun⟩) (fun _ hv => hv) (fun _ => nofun) rfl
      rfl
  | disconnected hcf =>
    exact hquiet rfl rfl (hfilter _) (fun _ => ⟨hcf, fun c' hc' hst => ⟨c', hc', hst, rfl⟩⟩)
      (fun _ hv => hv) (fun _ c' hc' => ⟨c', hc', rfl⟩) rfl rfl
  | resumed hcf hi hc hst => exact h.resume hl hasking hcf hc hi hst hstart rfl hl' hmoves
  | crecv hcf hp => exact h.crecv hl hl' hmoves hasking hk hr ho hcf hp hord.order hskip
  | @ctick c hcf hc =>
    have htick := timerRecord_cases cfg.subport c
    refine hquiet rfl rfl (.refl _) (fun _ => ⟨hcf, fun c' hc' hidle => ⟨c, hc, ?_, ?_⟩⟩)
      (fun _ hv => hv) (fun _ c' hc' => ⟨c, hc, (htick.kept hc').2.2.1⟩) rfl rfl
    · rcases htick.state hc' with hto | hsame
      · cases hto.symm.trans hidle
      · exact hsame.symm.trans hidle
    · exact (htick.kept hc').2.2.1
  | _ =>
    exact hquiet rfl rfl (.refl _) (fun hcf => ⟨hcf, fun c' hc' hst => ⟨c', hc', hst, rfl⟩⟩)
      (fun _ hv => hv) (fun _ c' hc' => ⟨c', hc', rfl⟩) rfl rfl

end Step

/-! ## Runs -/

theorem separate_init : Separate Session.init 0 where
  one := Nat.zero_le 1
  waiting := fun v q rsize n hm => (by cases hm)
  done := fun _ v q rsize n hm => (by cases hm)
  unread := fun v hv => (by cases hv)
  lost := rfl
  returns := fun r hr => (by cases hr)

/-- **Concurrent calls do not mix.**  Over channels that keep their order, with any number of
client threads, of workers and of renumberings and for every interleaving in which no call starts
before the last response has been collected, every call that returns returns the answer to its
own query, no response is lost, and every caller that finds the record idle finds its response. -/
theorem callsApart_orderly {cfg : Config} {s : Session}
    (h : (sessionSystem cfg).Reach (fun s a => Orderly s a ∧ StartsCollected s a) s) :
    CallsApart s := by
  have hinv : ∃ x y, Lockstep cfg s x y ∧ Asking cfg s y ∧ Separate s x := by
    refine h.invariant_reach
      (I := fun s => ∃ x y, Lockstep cfg s x y ∧ Asking cfg s y ∧ Separate s x)
      ⟨0, 0, lockstep_init, asking_init, separate_init⟩
      fun s a t hreach ⟨x, y, hl, hasking, hapart⟩ ⟨hord, hstart⟩ hn => ?_
    have hk := kinds_of_steps hreach
    have hr := roles_of_reach hreach
    have ht := next_stepped hn
    have hthreads := shortThreads_of_reach (fun _ _ ha => ha.1) hreach
    obtain ⟨x', y', hmoves, hle, hl'⟩ := hl.step hk hr hthreads hord ht
    exact ⟨x', y', hl', hasking.step hl hl' hk hr hord hle ht,
      hapart.step hl hl' hmoves hasking hk hr (opened_of_steps hreach) hord hstart ht⟩
  obtain ⟨x, y, hl, hasking, hapart⟩ := hinv
  have hasked := hasking.askedInOrder hl
  refine ⟨fun r hr => ?_, hapart.lost, fun hcf v q rsize n hm c hc hidle => ?_⟩
  · obtain ⟨q, m, hcall, hto, hb⟩ := hapart.returns r hr
    obtain ⟨a, ha, hacall, harb⟩ := hto
    obtain ⟨e, he, hecall, -⟩ := hasked.answered a ha
    obtain ⟨n', q', hcall', -, hquery⟩ := hasked.asked e he
    rw [hecall, hacall] at hcall'
    have heq := hcall.2.symm.trans hcall'.2
    cases heq
    refine ⟨q, m, hcall, hb, ⟨a, ha, hacall, harb⟩, ?_, e, he, hecall.trans hacall, hquery⟩
    rintro m' ⟨b, hb', hbcall, rfl⟩
    rw [← harb]
    exact hasked.once b hb' a ha (hbcall.trans hacall.symm)
  · obtain ⟨m, b, -, hb, -⟩ := hapart.done hcf v q rsize n hm c hc hidle
    rw [hb]
    rfl

/-- `StartsCollected`, evaluated. -/
def startsCheck (s : Session) (a : Event) : Bool :=
  let collected := s.ccr.all fun c => c.state != .idle || c.resp.isNone
  match a with
  | .call .. => collected
  | .resume i => collected || (s.waiting[i]?).all fun th =>
      match th with
      | .call _ _ _ .seqno => false
      | _ => true
  | _ => true

theorem startsCollected_of_check {s : Session} {a : Event} (h : startsCheck s a = true) :
    StartsCollected s a := by
  cases a with
  | call q rsize =>
    intro c hc hidle
    simpa [startsCheck, hc, hidle] using h
  | resume i =>
    intro v q rsize c hi hc hidle
    simpa [startsCheck, hi, hc, hidle] using h
  | _ => trivial

/-- A thread renumbers, another one calls meanwhile, and then the first one, whose response arrives
twice. -/
def interleaved : List Event :=
  connecting ++ [.call [7] 10, .srecv 1 [], .crecv 1 [], .call [8] 10, .srecv 2 [], .query 10,
    .respond 0 [5], .crecv 2 [], .crecv 3 [], .resume 1, .resume 0, .srecv 3 [], .srecv 4 [],
    .query 10, .respond 0 [9], .crecv 4 [], .crecv 5 [], .resume 0, .crecv 5 []]

theorem callsApart_orderly_interleaved :
    ∃ s, (sessionSystem (hwdbConfig SEQNO_LIMIT)).Reach
        (fun s a => Orderly s a ∧ StartsCollected s a) s ∧
      s.returns = [⟨1, 1, some [some 5]⟩, ⟨2, 2, some [some 9]⟩] ∧ CallsApart s := by
  obtain ⟨s, hr, hp⟩ := System.Reach.of_run (sessionSystem (hwdbConfig SEQNO_LIMIT))
    (fun s a => Orderly s a ∧ StartsCollected s a)
    (fun s a => orderlyCheck s a && startsCheck s a) interleaved
    (fun s => s.returns == [⟨1, 1, some [some 5]⟩, ⟨2, 2, some [some 9]⟩])
    (fun s a h => by
      obtain ⟨ho, hs⟩ := Bool.and_eq_true_iff.mp h
      exact ⟨orderly_of_check ho, startsCollected_of_check hs⟩)
    (by decide +kernel) (by decide +kernel)
  exact ⟨s, hr, eq_of_beq hp, callsApart_orderly hr⟩

/-- The second thread of `overlapping` starts before the first one has collected its response, and
the first one returns the response to the second one's query. -/
theorem early_start_mixes :
    ∃ s, (sessionSystem (hwdbConfig 0)).Reach Orderly s ∧ ¬ CallsApart s := by
  obtain ⟨s, hr, hp⟩ := System.Reach.of_run (sessionSystem (hwdbConfig 0)) Orderly orderlyCheck
    overlapping (fun s => s.lost == [1]) (fun _ _ h => orderly_of_check h) (by decide +kernel)
    (by decide +kernel)
  refine ⟨s, hr, fun hapart => ?_⟩
  have hkept := hapart.kept
  rw [eq_of_beq hp] at hkept
  cases hkept

end Hwdb.Rpc
