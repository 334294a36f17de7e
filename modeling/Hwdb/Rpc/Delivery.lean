import Mathlib.Data.List.Range
import Hwdb.Rpc.Numbers

/-!
# The order in which queries reach the service queue

The reader appends a query when the record takes its number, or when its last fragment has come.

* `InOrder` — the numbers appended for each record follow the one of `rpc_connect` without a gap,
  and each was given out by a call.
* `DropsPartial` — a `RACK` under the number of a query that the record is still assembling.
* `inOrder_of_reach` — without that, every run below `SEQNO_LIMIT` delivers in order.
-/

set_option autoImplicit false

namespace Hwdb.Rpc

open Hwdb.Lib

/-- The numbers appended to the queue for the `r`-th record. -/
def Session.deliveredTo (s : Session) (r : Nat) : List Nat :=
  (s.appended.filter fun e => e.record == r).map (·.number)

/-- Every record is given the queries one after the other from the first on, and every query
given to a record was issued by a call. -/
def InOrder (cfg : Config) (s : Session) : Prop :=
  (∀ r, ∃ m, s.deliveredTo r = List.range' (cfg.seqno + 1) m) ∧
    ∀ e ∈ s.appended, ∃ call ∈ s.calls, e.number = call.number

/-- A `RACK` arrives under the number of a query whose fragments are still coming: the server's
record has a reassembly buffer. -/
def DropsPartial (s : Session) : Event → Prop
  | .srecv i stale => ∃ p c, s.c2s[i]? = some p ∧ s.scr = some c ∧
      (p.received stale).command = some .rack ∧ (p.received stale).seqno = c.seqno ∧
      c.resp.isSome
  | _ => False

/-! ## The record between two queries and within one -/

/-- After `m` queries: the record is at the last of them, or assembles the next one. -/
def Between (first m : Nat) (c : CRecord) : Prop :=
  (c.resp = none ∧ c.seqno = first + m ∧ c.state ≠ .fackSent) ∨
    (c.resp.isSome ∧ c.seqno = first + m + 1 ∧ (c.state = .fackSent ∨ c.state = .timedout))

/-- What is known of the queue and the record along a run. -/
structure Delivering (cfg : Config) (s : Session) : Prop where
  order : ∀ r, ∃ m, s.deliveredTo r = List.range' (cfg.seqno + 1) m
  issued : ∀ e ∈ s.appended, ∃ call ∈ s.calls, e.number = call.number
  past : ∀ e ∈ s.appended, e.record ≤ s.born
  record : ∀ c, s.scr = some c → ∃ m,
    s.deliveredTo s.born = List.range' (cfg.seqno + 1) m ∧ Between cfg.seqno m c

section Record

variable {first m : Nat} {c c' : CRecord}

/-- A record under the same number with the same buffer, in a state that leaves it where it is. -/
theorem Between.kept (h : Between first m c) (hseqno : c'.seqno = c.seqno)
    (hresp : c'.resp = c.resp) (hst : c'.state = c.state ∨ c'.state = .timedout) :
    Between first m c' := by
  rcases h with ⟨hnone, hn, hne⟩ | ⟨hsome, hn, hfack⟩
  · refine .inl ⟨hresp.trans hnone, hseqno.trans hn, ?_⟩
    rcases hst with hst | hst <;> rw [hst]
    · exact hne
    · decide
  · refine .inr ⟨hresp ▸ hsome, hseqno.trans hn, ?_⟩
    rcases hst with hst | hst <;> rw [hst]
    · exact hfack
    · exact .inr rfl

/-- A record that is not assembling may go to any state but `ST_FACK_SENT`. -/
theorem Between.moved (h : Between first m c) (hnone : c.resp = none)
    (hseqno : c'.seqno = c.seqno) (hresp : c'.resp = c.resp) (hst : c'.state ≠ .fackSent) :
    Between first m c' := by
  rcases h with ⟨-, hn, -⟩ | ⟨hsome, -⟩
  · exact .inl ⟨hresp.trans hnone, hseqno.trans hn, hst⟩
  · rw [hnone] at hsome
    cases hsome

/-- A record in another state than these two is not assembling. -/
theorem Between.resp_none (h : Between first m c) (h1 : c.state ≠ .fackSent)
    (h2 : c.state ≠ .timedout) : c.resp = none := by
  rcases h with ⟨hnone, -⟩ | ⟨-, -, hst | hst⟩
  · exact hnone
  · exact absurd hst h1
  · exact absurd hst h2

end Record

/-! ## The reader -/

/-- What a datagram means for the queue: nothing, or the next number. -/
def Advances (first m : Nat) (d : Received) (out : Outcome) : Prop :=
  (out.queued = none ∧ ∀ c', out.cr = some c' → Between first m c') ∨
    (d.command = some .query ∧ out.queued.isSome ∧ d.seqno = first + 1 + m ∧
      ∀ c', out.cr = some c' → Between first (m + 1) c')

theorem Serves.advances {stable : Bytes → Option Nat} {nep first m : Nat} {d : Received}
    {c : CRecord} {out : Outcome} (h : Serves stable nep d (some c) out)
    (hb : Between first m c) (hno : ¬ (d.command = some .rack ∧ d.seqno = c.seqno ∧ c.resp.isSome))
    (hns : d.command ≠ some .seqno) : Advances first m d out := by
  cases h with
  | kept => exact .inl ⟨rfl, fun c' hc => by cases hc; exact hb⟩
  | failed => exact .inl ⟨rfl, fun c' hc => by cases hc; exact hb⟩
  | reconnected _ sr _ hst =>
    refine .inl ⟨rfl, fun c' hc => ?_⟩
    cases hc
    exact hb.kept rfl rfl (.inl hst.symm)
  | queryWhole _ sr hc hn hst =>
    have hnone : c.resp = none := by
      apply hb.resp_none
      all_goals rcases hst with hst | hst <;> rw [hst] <;> decide
    rcases hb with ⟨-, hnum, -⟩ | ⟨hsome, -⟩
    · refine .inr ⟨hc, rfl, by omega, fun c' hc' => ?_⟩
      cases hc'
      refine .inl ⟨hnone, ?_, by simp [queryTaken]⟩
      show d.seqno = first + (m + 1)
      omega
    · rw [hnone] at hsome
      cases hsome
  | queryLast _ sr p hc hn hst =>
    rcases hb with ⟨-, -, hne⟩ | ⟨-, hnum, -⟩
    · exact absurd hst hne
    · refine .inr ⟨hc, rfl, by omega, fun c' hc' => ?_⟩
      cases hc'
      refine .inl ⟨rfl, ?_, by simp [queryTaken]⟩
      show c.seqno = first + (m + 1)
      omega
  | resent =>
    refine .inl ⟨rfl, fun c' hc => ?_⟩
    cases hc
    exact hb.kept rfl rfl (.inl rfl)
  | rack _ hc hn =>
    have hnone : c.resp = none := by
      by_contra hsome
      exact hno ⟨hc, hn, Option.isSome_iff_ne_none.mpr hsome⟩
    refine .inl ⟨rfl, fun c' hc' => ?_⟩
    cases hc'
    exact hb.moved hnone rfl rfl (by simp)
  | disconnect =>
    refine .inl ⟨rfl, fun c' hc' => ?_⟩
    cases hc'
    exact hb.kept rfl rfl (.inr rfl)
  | fragmentFirst _ p hc hn hst =>
    refine .inl ⟨rfl, fun c' hc' => ?_⟩
    cases hc'
    rcases hb with ⟨-, hnum, -⟩ | ⟨-, -, hfack | hto⟩
    · refine .inr ⟨rfl, ?_, .inl rfl⟩
      show d.seqno = first + m + 1
      omega
    · rcases hst with hst | hst <;> rw [hst] at hfack <;> cases hfack
    · rcases hst with hst | hst <;> rw [hst] at hto <;> cases hto
  | fragmentNext _ p hc hn hst =>
    refine .inl ⟨rfl, fun c' hc' => ?_⟩
    cases hc'
    rcases hb with ⟨-, -, hne⟩ | ⟨-, hnum, -⟩
    · exact absurd hst hne
    · exact .inr ⟨rfl, hnum, .inl rfl⟩
  | fack _ hc hn hst =>
    have hnone : c.resp = none := by
      apply hb.resp_none <;> rw [hst] <;> decide
    refine .inl ⟨rfl, fun c' hc' => ?_⟩
    cases hc'
    exact hb.moved hnone rfl rfl (by simp)
  | ping =>
    refine .inl ⟨rfl, fun c' hc => ?_⟩
    cases hc
    exact hb
  | pack =>
    refine .inl ⟨rfl, fun c' hc => ?_⟩
    cases hc
    exact hb.kept rfl rfl (.inl rfl)
  | seqno _ hc => exact absurd hc hns

/-- Without a record nothing is appended, and a record is only made for a `CONNECT`. -/
theorem Serves.unserved {stable : Bytes → Option Nat} {nep : Nat} {d : Received} {out : Outcome}
    (h : Serves stable nep d none out) : out.queued = none ∧
      ∀ c', out.cr = some c' → d.command = some .connect ∧ Between d.seqno 0 c' := by
  cases h with
  | kept => exact ⟨rfl, nofun⟩
  | failed => exact ⟨rfl, nofun⟩
  | created sr hc =>
    refine ⟨rfl, fun c' hc' => ?_⟩
    cases hc'
    exact ⟨hc, .inl ⟨rfl, (Nat.add_zero _).symm, by simp⟩⟩
  | disconnect => exact ⟨rfl, nofun⟩

theorem ResponseSection.between {ep sp first m : Nat} {r : Bytes} {c : CRecord}
    {w : Option (Nat × Nat)} {st : ResponseStep} (h : ResponseSection ep sp r c w st)
    (hb : Between first m c) : Between first m st.cr := by
  have hnone : ∀ fnum nfrags, Answers r c w fnum nfrags → c.resp = none := by
    intro fnum nfrags ha
    apply hb.resp_none
    all_goals
      cases ha with
      | first hst => rw [hst]; decide
      | next _ _ hst => rw [hst]; decide
  cases h with
  | refused => exact hb
  | timedout => exact hb
  | undefined => exact hb
  | fragment ha => exact hb.moved (hnone _ _ ha) rfl rfl (by simp)
  | response ha => exact hb.moved (hnone _ _ ha) rfl rfl (by simp)

/-! ## Steps -/

section Step

variable {cfg : Config} {s t : Session} {a : Event}

/-- Nothing has been appended, and the record has done something else. -/
theorem Delivering.quiet (h : Delivering cfg s) (hcalls : s.calls <+: t.calls)
    (happ : t.appended = s.appended) (hborn : t.born = s.born)
    (hrec : ∀ c', t.scr = some c' → ∃ m,
      s.deliveredTo s.born = List.range' (cfg.seqno + 1) m ∧ Between cfg.seqno m c') :
    Delivering cfg t := by
  have hto : ∀ r, t.deliveredTo r = s.deliveredTo r := fun r => by
    rw [Session.deliveredTo, Session.deliveredTo, happ]
  refine ⟨fun r => ?_, fun e he => ?_, fun e he => ?_, fun c' hc' => ?_⟩
  · rw [hto]
    exact h.order r
  · obtain ⟨call, hmem, hn⟩ := h.issued e (happ ▸ he)
    exact ⟨call, hcalls.subset hmem, hn⟩
  · rw [hborn]
    exact h.past e (happ ▸ he)
  · rw [hborn, hto]
    exact hrec c' hc'

/-- The next query is appended for the current record. -/
theorem Delivering.advanced (h : Delivering cfg s) {e : Element} {m : Nat}
    (hcalls : t.calls = s.calls) (happ : t.appended = s.appended ++ [e]) (hborn : t.born = s.born)
    (hrecord : e.record = s.born) (hn : e.number = cfg.seqno + 1 + m)
    (hissued : ∃ call ∈ s.calls, e.number = call.number)
    (hm : s.deliveredTo s.born = List.range' (cfg.seqno + 1) m)
    (hrec : ∀ c', t.scr = some c' → Between cfg.seqno (m + 1) c') : Delivering cfg t := by
  have hto : t.deliveredTo s.born = List.range' (cfg.seqno + 1) (m + 1) := by
    have he : (e.record == s.born) = true := beq_iff_eq.mpr hrecord
    rw [List.range'_1_concat, ← hm, ← hn, Session.deliveredTo, happ, List.filter_append,
      List.map_append,
      List.filter_cons_of_pos (p := fun e : Element => e.record == s.born) he]
    rfl
  have hother : ∀ r, r ≠ s.born → t.deliveredTo r = s.deliveredTo r := by
    intro r hr
    have he : ¬ (e.record == r) = true := fun heq => hr (hrecord ▸ (beq_iff_eq.mp heq).symm)
    rw [Session.deliveredTo, happ, List.filter_append,
      List.filter_cons_of_neg (p := fun e : Element => e.record == r) he, List.filter_nil,
      List.append_nil]
    rfl
  refine ⟨fun r => ?_, fun x hx => ?_, fun x hx => ?_, fun c' hc' => ?_⟩
  · by_cases hr : r = s.born
    · rw [hr, hto]
      exact ⟨m + 1, rfl⟩
    · rw [hother r hr]
      exact h.order r
  · rw [hcalls]
    rcases List.mem_append.mp (happ ▸ hx) with hx | hx
    · exact h.issued x hx
    · rw [List.mem_singleton.mp hx]
      exact hissued
  · rw [hborn]
    rcases List.mem_append.mp (happ ▸ hx) with hx | hx
    · exact h.past x hx
    · rw [List.mem_singleton.mp hx, hrecord]
  · rw [hborn]
    exact ⟨m + 1, hto, hrec c' hc'⟩

/-- A new record has been given nothing. -/
theorem Delivering.fresh (h : Delivering cfg s) (hcalls : t.calls = s.calls)
    (happ : t.appended = s.appended) (hborn : t.born = s.born + 1)
    (hrec : ∀ c', t.scr = some c' → Between cfg.seqno 0 c') : Delivering cfg t := by
  have hto : ∀ r, t.deliveredTo r = s.deliveredTo r := fun r => by
    rw [Session.deliveredTo, Session.deliveredTo, happ]
  have hnil : s.deliveredTo (s.born + 1) = [] := by
    rw [Session.deliveredTo, List.filter_eq_nil_iff.mpr, List.map_nil]
    intro e he heq
    have hle := h.past e he
    have hr := beq_iff_eq.mp heq
    omega
  refine ⟨fun r => ?_, fun e he => ?_, fun e he => ?_, fun c' hc' => ?_⟩
  · rw [hto]
    exact h.order r
  · rw [hcalls]
    exact h.issued e (happ ▸ he)
  · rw [hborn]
    exact Nat.le_succ_of_le (h.past e (happ ▸ he))
  · rw [hborn, hto, hnil]
    exact ⟨0, rfl, hrec c' hc'⟩

/-- **The reader of the server.** -/
theorem Delivering.srecv (h : Delivering cfg s) (hn : Numbers cfg s) (hk : Kinds s)
    (hr : Roles s) {i : Nat} {stale : Bytes} {p : Packet} (hp : s.c2s[i]? = some p)
    (hno : ¬ DropsPartial s (.srecv i stale)) :
    Delivering cfg (s.serverRecv cfg i p.call (p.received stale)) := by
  have hin := List.mem_of_getElem? hp
  have hwhole := received_whole (p := p) (hk.client p hin).whole stale
  have hfrom := hn.c2s p hin
  have hserves : Serves cfg.stable s.born (p.received stale) s.scr _ := hr.serves hk hin stale
  cases hs : s.scr with
  | none =>
    rw [hs] at hserves
    obtain ⟨hq, hcr⟩ := hserves.unserved
    have happ : (s.serverRecv cfg i p.call (p.received stale)).appended = s.appended := by
      simp only [Session.serverRecv, hs, hq, Option.toList_none, List.map_nil, List.append_nil]
    cases hout : (readerSwitch cfg.stable s.born none (p.received stale)).cr with
    | none =>
      refine h.quiet List.prefix_rfl happ ?_ fun c' hc' => ?_
      · simp [Session.serverRecv, hs, hout]
      · simp [Session.serverRecv, hs, hout] at hc'
    | some c' =>
      obtain ⟨hc, hb⟩ := hcr c' hout
      rw [hwhole.1] at hc
      rw [hwhole.2.1, hfrom.connect hc] at hb
      refine h.fresh rfl happ ?_ fun c'' hc'' => ?_
      · simp [Session.serverRecv, hs, hout]
      · simp only [Session.serverRecv, hs, hout, Option.some.injEq] at hc''
        rw [← hc'']
        exact hb
  | some c =>
    rw [hs] at hserves
    obtain ⟨m, hm, hb⟩ := h.record c hs
    have hborn : (s.serverRecv cfg i p.call (p.received stale)).born = s.born := by
      simp [Session.serverRecv, hs]
    have hadv : Advances cfg.seqno m (p.received stale)
        (readerSwitch cfg.stable s.born (some c) (p.received stale)) := by
      refine hserves.advances hb (fun hrack => ?_) fun hq => ?_
      · exact hno ⟨p, c, hp, hs, hrack⟩
      · rw [hwhole.1] at hq
        exact hfrom.noSeqno hq
    rcases hadv with ⟨hq, hcr⟩ | ⟨hcmd, hq, hnum, hcr⟩
    · refine h.quiet List.prefix_rfl ?_ hborn fun c' hc' => ⟨m, hm, hcr c' ?_⟩
      · simp only [Session.serverRecv, hs, hq, Option.toList_none, List.map_nil, List.append_nil]
      · rw [← hs]
        exact hc'
    · obtain ⟨q, hq⟩ := Option.isSome_iff_exists.mp hq
      refine h.advanced (e := ⟨s.born, (p.received stale).seqno, p.call, q.buf, q.size⟩) rfl ?_
        hborn rfl hnum ?_ hm fun c' hc' => hcr c' ?_
      · simp [Session.serverRecv, hs, hq]
      · rw [hwhole.1] at hcmd
        obtain ⟨call, hmem, hcall, -⟩ := hfrom.query (.inl hcmd)
        exact ⟨call, hmem, hwhole.2.1.trans hcall⟩
      · rw [← hs]
        exact hc'

/-- Another step on the record that leaves it where it is. -/
theorem Delivering.moved (h : Delivering cfg s) {c : CRecord} (hcalls : s.calls <+: t.calls)
    (happ : t.appended = s.appended) (hborn : t.born = s.born) (hs : s.scr = some c)
    (hrec : ∀ c', t.scr = some c' → ∀ m, Between cfg.seqno m c → Between cfg.seqno m c') :
    Delivering cfg t := by
  obtain ⟨m, hm, hb⟩ := h.record c hs
  exact h.quiet hcalls happ hborn fun c' hc' => ⟨m, hm, hrec c' hc' m hb⟩

/-- **Every step keeps the order**, unless it drops a query half way. -/
theorem Delivering.step (h : Delivering cfg s) (hn : Numbers cfg s) (hk : Kinds s) (hr : Roles s)
    (hno : ¬ DropsPartial s a) (ht : Stepped cfg s a t) : Delivering cfg t := by
  have hcalls := ht.calls
  cases ht with
  | srecv hsf hp => exact h.srecv hn hk hr hp hno
  | @stick c hsf hs =>
    refine h.moved hcalls rfl rfl hs fun c' hc' m hb => ?_
    have htick := timerRecord_cases cfg.subport c
    obtain ⟨hseqno, -, hresp, -⟩ := htick.kept hc'
    exact hb.kept hseqno hresp (htick.state hc').symm
  | @respond i e rb c hsf hi hs =>
    refine h.moved hcalls rfl rfl hs fun c' hc' m hb => ?_
    cases hc'
    exact (rpcResponseBegin_section 0 cfg.subport rb c).between hb
  | @wresumed i w c st hsf hi hs hw hst =>
    refine h.moved hcalls rfl rfl hs fun c' hc' m hb => ?_
    cases hc'
    exact (rpcResponseResume_section hst).between hb
  | _ => exact h.quiet hcalls rfl rfl h.record

theorem delivering_of_reach {ok : Session → Event → Prop} (hlim : cfg.seqno ≤ SEQNO_LIMIT)
    (hok : ∀ s a, ok s a → Below s ∧ ¬ DropsPartial s a)
    (h : (sessionSystem cfg).Reach ok s) : Delivering cfg s := by
  refine h.invariant_reach ?_ fun s a t hr ih ha hn => ?_
  · exact ⟨fun r => ⟨0, rfl⟩, fun e he => (by cases he), fun e he => (by cases he),
      fun c hc => (by cases hc)⟩
  · have hnum := numbers_of_reach hlim (fun s a ha => (hok s a ha).1) hr
    exact ih.step hnum (kinds_of_steps hr) (roles_of_reach hr) (hok s a ha).2 (next_stepped hn)

end Step

/-- **At most once and in order.**  In a run in which the client's number stays below
`SEQNO_LIMIT` and no `RACK` arrives under the number of a query that is still being assembled,
every record is given the numbers of the calls one after the other. -/
theorem inOrder_of_reach {cfg : Config} {s : Session} (hlim : cfg.seqno < SEQNO_LIMIT)
    (h : (sessionSystem cfg).Reach (fun s a => Below s ∧ ¬ DropsPartial s a) s) :
    InOrder cfg s := by
  have hdel := delivering_of_reach (Nat.le_of_lt hlim) (fun _ _ ha => ha) h
  exact ⟨hdel.order, hdel.issued⟩

/-- No `RACK` arrives while the server's record has a reassembly buffer. -/
def keepsPartial (s : Session) : Event → Bool
  | .srecv i stale => (s.c2s[i]?).all fun p => s.scr.all fun c =>
      (p.received stale).command != some .rack || c.resp.isNone
  | _ => true

theorem not_dropsPartial {s : Session} {a : Event} (h : keepsPartial s a = true) :
    ¬ DropsPartial s a := by
  cases a with
  | srecv i stale =>
    rintro ⟨p, c, hp, hs, hc, -, hsome⟩
    obtain ⟨b, hb⟩ := Option.isSome_iff_exists.mp hsome
    simp [keepsPartial, hp, hs, hc, hb] at h
  | _ => exact id

/-- A query of two pieces is delivered once. -/
theorem inOrder_of_reach_twoPieces :
    ∃ s, (sessionSystem (hwdbConfig 0)).Reach (fun s a => Below s ∧ ¬ DropsPartial s a) s ∧
      s.deliveredTo 1 = [1] ∧ InOrder (hwdbConfig 0) s := by
  obtain ⟨s, hr, hp⟩ := System.Reach.of_run (sessionSystem (hwdbConfig 0))
    (fun s a => Below s ∧ ¬ DropsPartial s a) (fun s a => belowCheck s && keepsPartial s a)
    twoPieceCall (fun s => s.deliveredTo 1 == [1])
    (fun s a h => by
      obtain ⟨hb, hk⟩ := Bool.and_eq_true_iff.mp h
      exact ⟨below_of_check hb, not_dropsPartial hk⟩)
    (by decide +kernel) (by decide +kernel)
  exact ⟨s, hr, eq_of_beq hp, inOrder_of_reach (by decide) hr⟩

/-- The server's record is made again for a copy of the `CONNECT`; a copy of the first fragment
and then a copy of the `RACK` arrive at it, and it goes on with the second query. -/
theorem rack_skips_query :
    ∃ s, (sessionSystem (hwdbConfig 0)).Reach (fun s a => Below s ∧ SingleThread s a) s ∧
      ¬ InOrder (hwdbConfig 0) s := by
  obtain ⟨s, hr, hp⟩ := System.Reach.of_run (sessionSystem (hwdbConfig 0))
    (fun s a => Below s ∧ SingleThread s a)
    (fun s a => belowCheck s && decide (SingleThread s a))
    (twoPieceCall ++ List.replicate 255 .stick ++
      [.srecv 0 [], .srecv 1 [], .srecv 3 [], .call [1] 10, .srecv 4 []])
    (fun s => s.deliveredTo 2 == [2])
    (fun s a h => by
      obtain ⟨hb, hk⟩ := Bool.and_eq_true_iff.mp h
      exact ⟨below_of_check hb, of_decide_eq_true hk⟩)
    (by decide +kernel) (by decide +kernel)
  refine ⟨s, hr, fun hin => ?_⟩
  obtain ⟨m, hm⟩ := hin.1 2
  rw [eq_of_beq hp] at hm
  cases m with
  | zero => cases hm
  | succ m =>
    rw [List.range'_succ] at hm
    cases hm

end Hwdb.Rpc
