import Hwdb.Rpc.Bounds
import Hwdb.Rpc.Service

/-!
# Pointers that the state machine relies on

`cr->svc` when a query is queued, `cr->resp` when a later fragment is copied and when `rpc_call`
finds the record idle again.

* `AllocatedBy` — the buffer of a record in `ST_FACK_SENT` comes from the first fragment of the
  record's number; every run keeps this.
* `Answered` — an idle record with a thread that waits for its response has one; at most one
  thread waits.
* `LeavesWaiters` — the steps that keep it: no acknowledgement that makes a record idle under a
  waiting thread, no second thread that waits, no tick that destroys a record under a thread.
* `QueriesServed` — the runs whose queries reach records that a `CONNECT` has reached before.
* `pointers_present` — no NULL is followed in a run of such steps.
-/

set_option autoImplicit false

namespace Hwdb.Rpc

open Hwdb.Lib

/-! ## The conditions -/

/-- The record would queue the query. -/
def AcceptsQuery (cr : CRecord) (d : Received) : Prop :=
  d.command = some .query ∧
    ((seqnoNext d.seqno cr.seqno ∧ (cr.state = .idle ∨ cr.state = .responseSent)) ∨
      AcceptsNext cr d)

/-- The datagram makes the record `ST_IDLE` without a response. -/
def IdlesUnanswered (cr : CRecord) (d : Received) : Prop :=
  cr.resp = none ∧
    (((d.command = some .cack ∨ d.command = some .rack) ∧ d.seqno = cr.seqno) ∨
      (d.command = some .seqno ∧ cr.state = .responseSent) ∨
      (d.command = some .sack ∧ cr.state = .seqnoSent))

/-- The thread waits for the response on record `r`. -/
def Collects (r : Nat) (w : Waiter) : Prop :=
  w.record = r ∧ ∃ ep q rsize n, w.wait = .call ep q rsize (.query n)

/-- A section of `rpc_call` on record `c` that waited for `w` sends the last message. -/
def SendsLast (c : CRecord) (q : Bytes) : Option CallWait → Prop
  | none => c.state = .idle ∧ c.seqno < SEQNO_LIMIT ∧ ¬ 1 < nfragsOf q.length
  | some .seqno => c.state = .idle ∧ ¬ 1 < nfragsOf q.length
  | some (.frag _ fnum nfrags) => c.state = .fackReceived ∧ ¬ fnum + 1 < nfrags
  | some (.query _) => False

/-- The step sends a `QUERY` on record `r`. -/
def SendsQuery (s : Process) (r : Nat) : Act → Prop
  | .call rpc g q _ => s.lookup (s.readEndpoint rpc g) = some r ∧ SendsLast (s.records r) q none
  | .resume i _ => ∃ ep q rsize w, s.waiting[i]? = some ⟨r, .call ep q rsize w⟩ ∧
      SendsLast (s.records r) q (some w)
  | _ => False

instance (cr : CRecord) (d : Received) : Decidable (AcceptsQuery cr d) :=
  inferInstanceAs (Decidable (_ ∧ _))

instance (cr : CRecord) (d : Received) : Decidable (IdlesUnanswered cr d) :=
  inferInstanceAs (Decidable (_ ∧ _))

/-- The steps that leave a waiting thread its record and its response. -/
structure LeavesWaiters (s : Process) (a : Act) : Prop where
  answered : ∀ addr d r, a = .recv addr d → s.lookup ⟨addr, d.subport⟩ = some r →
    IdlesUnanswered (s.records r) d → ∀ w ∈ s.waiting, ¬ Collects r w
  alone : ∀ r, SendsQuery s r a → ∀ w ∈ s.waiting, ¬ Collects r w
  unwatched : Unwatched s a

/-- Every `QUERY` of the run that would be queued reaches a record for which a `CONNECT` for a
service on offer has been taken earlier in the run. -/
def QueriesServed (es : List (Process × Act)) : Prop :=
  ∀ before s addr d after r, es = before ++ (s, .recv addr d) :: after →
    s.lookup ⟨addr, d.subport⟩ = some r → AcceptsQuery (s.records r) d → Served before r

/-- A `QUERY` that would be queued reaches a record with a service. -/
def HasService (s : Process) (a : Act) : Prop :=
  ∀ addr d r, a = .recv addr d → s.lookup ⟨addr, d.subport⟩ = some r →
    AcceptsQuery (s.records r) d → (s.records r).svc.isSome

/-- The steps after which every pointer is there. -/
structure Sound (s : Process) (a : Act) : Prop extends LeavesWaiters s a where
  served : HasService s a

/-! ## One datagram -/

section Reader

variable {stable : Bytes → Option Nat} {nep : Nat} {d : Received} {o : Option CRecord}
  {out : Outcome} {c c' : CRecord}

/-- The record has allocated a buffer for the first fragment `d`. -/
def FreshBuffer (d : Received) (c c' : CRecord) : Prop :=
  AcceptsFirst c d ∧ c'.seqno = d.seqno ∧ ∃ b, c'.resp = some b ∧ b.length = DP_SIZE + d.tlen

/-- The record has kept its number and a buffer of the same length. -/
def KeptBuffer (c c' : CRecord) : Prop :=
  c.state = .fackSent ∧ c'.seqno = c.seqno ∧
    ∀ b, c.resp = some b → ∃ b', c'.resp = some b' ∧ b'.length = b.length

theorem copyFragment_length {p : Buffer UInt8} (hp : copyFragment c d = .ok p) :
    ∃ b, c.resp = some b ∧ p.length = b.length := by
  unfold copyFragment at hp
  split at hp
  · cases hp
  · rename_i b hresp
    split at hp
    · cases hp
    · split at hp
      · cases hp
      · rename_i hw
        cases hp
        exact ⟨b, hresp, Buffer.length_write hw⟩

/-- A record with a service queues the query. -/
theorem readerQueryNew_served (h : c.svc.isSome) (d : Received) (p : Buffer UInt8) (n : Nat) :
    ∃ sr, readerQueryNew c d p n =
      ⟨some (crecordSetState (acknowledge c d .qack d.fnum d.nfrags) .qackSent),
        [resend (acknowledge c d .qack d.fnum d.nfrags)], some ⟨sr, c.ep, p, n⟩, none⟩ := by
  rcases readerQueryNew_cases c d p n with ⟨hnone, -⟩ | ⟨sr, -, hq⟩
  · rw [hnone] at h
    cases h
  · exact ⟨sr, hq⟩

theorem keptBuffer_same (h : c.state = .fackSent) (hseqno : c'.seqno = c.seqno)
    (hresp : c'.resp = c.resp) : KeptBuffer c c' :=
  ⟨h, hseqno, fun b hb => ⟨b, hresp.trans hb, rfl⟩⟩

theorem keptBuffer_copy {p : Buffer UInt8} (hst : c.state = .fackSent)
    (hp : copyFragment c d = .ok p) (hseqno : c'.seqno = c.seqno) (hresp : c'.resp = some p) :
    KeptBuffer c c' := by
  obtain ⟨b, hb, hlen⟩ := copyFragment_length hp
  refine ⟨hst, hseqno, fun b' hb' => ⟨p, hresp, ?_⟩⟩
  rw [hb] at hb'
  cases hb'
  exact hlen

/-- A record that `reader` creates. -/
theorem Handled.created_state (h : Handled stable nep d none out) (hc : out.cr = some c') :
    c'.state = .idle := by
  cases h with
  | ignored => cases hc
  | terminator => cases hc
  | strayName => cases hc
  | created => cases hc; rfl
  | disconnect => cases hc

/-- A record that is in `ST_FACK_SENT` after a datagram. -/
theorem Handled.keepsBuffer (h : Handled stable nep d (some c) out)
    (hsvc : AcceptsQuery c d → c.svc.isSome) (hc : out.cr = some c')
    (hst : c'.state = .fackSent) : FreshBuffer d c c' ∨ KeptBuffer c c' := by
  cases h with
  | ignored => cases hc; exact .inr (keptBuffer_same hst rfl rfl)
  | terminator => cases hc; exact .inr (keptBuffer_same hst rfl rfl)
  | strayName => cases hc; exact .inr (keptBuffer_same hst rfl rfl)
  | queryWhole _ hcmd hn hidle =>
    have hsome := hsvc ⟨hcmd, .inl ⟨hn, hidle⟩⟩
    obtain ⟨sr, hq⟩ := readerQueryNew_served (c := { c with seqno := d.seqno }) hsome d
      (d.bytes.map some) d.n
    rw [hq] at hc
    cases hc
    cases hst
  | queryLast _ p hcmd hn hfack hf hnf hp =>
    have hsome := hsvc ⟨hcmd, .inr ⟨hn, hfack, hf, .inr ⟨.inl hcmd, hnf⟩⟩⟩
    obtain ⟨sr, hq⟩ := readerQueryNew_served (c := { c with resp := none }) hsome d p
      (DP_SIZE + d.tlen)
    rw [hq] at hc
    cases hc
    cases hst
  | queryOld _ _ _ hold =>
    cases hc
    rw [setState_state] at hst
    rw [hst] at hold
    rcases hold with hold | hold <;> cases hold
  | disconnect => cases hc; cases hst
  | fragmentFirst _ p hcmd hf hp =>
    cases hc
    exact .inl ⟨⟨hcmd, hf⟩, rfl, p, rfl, by rw [Buffer.length_write hp, Buffer.alloc,
      List.length_replicate]⟩
  | fragmentNext _ p hcmd hn hfack hf hp =>
    cases hc
    exact .inr (keptBuffer_copy hfack hp rfl rfl)
  | fragmentOld _ _ _ hfack =>
    cases hc
    exact .inr (keptBuffer_same hfack rfl rfl)
  | fragmentFault => cases hc; exact .inr (keptBuffer_same hst rfl rfl)
  | copyFault => cases hc; exact .inr (keptBuffer_same hst rfl rfl)
  | ping => cases hc; exact .inr (keptBuffer_same hst rfl rfl)
  | pack => cases hc; exact .inr (keptBuffer_same hst rfl rfl)
  | _ => cases hc; cases hst

/-- A record that is idle after a datagram, while a thread waits for its response. -/
theorem Handled.answered (h : Handled stable nep d (some c) out)
    (hsvc : AcceptsQuery c d → c.svc.isSome) (hno : ¬ IdlesUnanswered c d)
    (hold : c.state = .idle → c.resp.isSome) (hc : out.cr = some c') (hst : c'.state = .idle) :
    c'.resp.isSome := by
  have hkeep : (c.resp = none → IdlesUnanswered c d) → c.resp.isSome := by
    intro hi
    cases hresp : c.resp with
    | none => exact absurd (hi hresp) hno
    | some b => rfl
  cases h with
  | ignored => cases hc; exact hold hst
  | terminator => cases hc; exact hold hst
  | strayName => cases hc; exact hold hst
  | reconnected _ _ _ _ hidle => cases hc; exact hold hidle
  | cack _ hcmd hn => cases hc; exact hkeep fun hr => ⟨hr, .inl ⟨.inl hcmd, hn⟩⟩
  | queryWhole _ hcmd hn hidle =>
    have hsome := hsvc ⟨hcmd, .inl ⟨hn, hidle⟩⟩
    obtain ⟨sr, hq⟩ := readerQueryNew_served (c := { c with seqno := d.seqno }) hsome d
      (d.bytes.map some) d.n
    rw [hq] at hc
    cases hc
    cases hst
  | queryLast _ p hcmd hn hfack hf hnf hp =>
    have hsome := hsvc ⟨hcmd, .inr ⟨hn, hfack, hf, .inr ⟨.inl hcmd, hnf⟩⟩⟩
    obtain ⟨sr, hq⟩ := readerQueryNew_served (c := { c with resp := none }) hsome d p
      (DP_SIZE + d.tlen)
    rw [hq] at hc
    cases hc
    cases hst
  | queryOld _ _ _ hq =>
    cases hc
    rw [setState_state] at hst
    rw [hst] at hq
    rcases hq with hq | hq <;> cases hq
  | responseWhole => cases hc; rfl
  | responseLast => cases hc; rfl
  | rack _ hcmd hn => cases hc; exact hkeep fun hr => ⟨hr, .inl ⟨.inr hcmd, hn⟩⟩
  | disconnect => cases hc; cases hst
  | fragmentOld _ _ _ hfack =>
    cases hc
    rw [setState_state, hfack] at hst
    cases hst
  | fragmentFault => cases hc; exact hold hst
  | copyFault => cases hc; exact hold hst
  | ping => cases hc; exact hold hst
  | pack => cases hc; exact hold hst
  | seqno _ hcmd hidle =>
    cases hc
    rcases hidle with hidle | hresp
    · exact hold hidle
    · exact hkeep fun hr => ⟨hr, .inr (.inl ⟨hcmd, hresp⟩)⟩
  | sack _ hcmd hsent => cases hc; exact hkeep fun hr => ⟨hr, .inr (.inr ⟨hcmd, hsent⟩)⟩
  | _ => cases hc; cases hst

/-- The reader follows no NULL. -/
theorem Handled.pointers (h : Handled stable nep d o out)
    (hsvc : ∀ c, o = some c → AcceptsQuery c d → c.svc.isSome)
    (hfack : ∀ c, o = some c → c.state = .fackSent → c.resp.isSome) :
    out.fault ≠ some .nullPointer := by
  cases h with
  | queryWhole cr hcmd hn hidle =>
    have hsome := hsvc _ rfl ⟨hcmd, .inl ⟨hn, hidle⟩⟩
    obtain ⟨sr, hq⟩ := readerQueryNew_served (c := { cr with seqno := d.seqno }) hsome d
      (d.bytes.map some) d.n
    rw [hq]
    nofun
  | queryLast cr p hcmd hn hst hf hnf hp =>
    have hsome := hsvc _ rfl ⟨hcmd, .inr ⟨hn, hst, hf, .inr ⟨.inl hcmd, hnf⟩⟩⟩
    obtain ⟨sr, hq⟩ := readerQueryNew_served (c := { cr with resp := none }) hsome d p
      (DP_SIZE + d.tlen)
    rw [hq]
    nofun
  | copyFault cr f hcmd hn hst hf hp =>
    rintro ⟨⟩
    have hsome := hfack _ rfl hst
    unfold copyFragment at hp
    split at hp
    · rename_i hresp
      rw [hresp] at hsome
      cases hsome
    · split at hp
      · cases hp
      · split at hp <;> cases hp
  | _ => nofun

end Reader

/-! ## The timer and the API -/

section Api

variable {ep sp : Nat} {q : Bytes} {c c' : CRecord}

/-- A section of `rpc_call` leaves the record in one of the states that it sets, or as it was,
with another number at most; only the last section takes the buffer away. -/
theorem CallSection.cases {w : Option CallWait} {st : CallStep} (h : CallSection ep sp q c w st) :
    (st.cr.state = .seqnoSent ∨ st.cr.state = .fragmentSent ∨ st.cr.state = .querySent) ∨
      (st.cr.state = c.state ∧ st.cr.resp = c.resp ∧
        (c.state = .fackSent → st.cr.seqno = c.seqno)) ∨
      ((∃ n, w = some (.query n)) ∧ st.cr.state = c.state ∧
        (c.state = .idle ∨ c.state = .timedout)) := by
  have hc : ∀ {c' : CRecord} {number : Option Nat} {n fnum nfrags : Nat},
      Continues q c w c' number n fnum nfrags → c'.state = c.state ∧ c'.resp = c.resp ∧
        c.state ≠ .fackSent := by
    intro c' number n fnum nfrags h
    cases h with
    | first hst => exact ⟨rfl, rfl, by rw [hst]; decide⟩
    | renumbered hst => exact ⟨rfl, rfl, by rw [hst]; decide⟩
    | next n fnum nfrags hst => exact ⟨rfl, rfl, by rw [hst]; decide⟩
  cases h with
  | refused => exact .inr (.inl ⟨rfl, rfl, fun _ => rfl⟩)
  | timedout => exact .inr (.inl ⟨rfl, rfl, fun _ => rfl⟩)
  | renumber => exact .inl (.inl rfl)
  | undefined h =>
    obtain ⟨hst, hr, hne⟩ := hc h
    exact .inr (.inl ⟨hst, hr, fun hf => absurd hf hne⟩)
  | fragment => exact .inl (.inr (.inl rfl))
  | query => exact .inl (.inr (.inr rfl))
  | collected n rsize hst =>
    obtain ⟨result, fault, heq⟩ := rpcCallCollect_eq c rsize
    rw [heq]
    exact .inr (.inr ⟨⟨n, rfl⟩, rfl, hst⟩)

/-- The section that goes on to wait for the response. -/
theorem CallSection.sendsLast {w : Option CallWait} {st : CallStep} {n : Nat}
    (h : CallSection ep sp q c w st) (hw : st.wait = some (.query n)) :
    SendsLast c q w ∧ st.cr.state = .querySent := by
  cases h with
  | refused => cases hw
  | timedout => cases hw
  | renumber => cases hw
  | undefined => cases hw
  | fragment => cases hw
  | query h hge =>
    refine ⟨?_, rfl⟩
    cases h with
    | first hst hlim => exact ⟨hst, hlim, hge⟩
    | renumbered hst => exact ⟨hst, hge⟩
    | next _ _ _ hst => exact ⟨hst, hge⟩
  | collected n' rsize hst =>
    obtain ⟨result, fault, heq⟩ := rpcCallCollect_eq c rsize
    rw [heq] at hw
    cases hw

theorem ResponseSection.cases {w : Option (Nat × Nat)} {st : ResponseStep}
    (h : ResponseSection ep sp q c w st) :
    (st.cr.state = .fragmentSent ∨ st.cr.state = .responseSent) ∨ st.cr = c := by
  cases h with
  | refused => exact .inr rfl
  | timedout => exact .inr rfl
  | undefined => exact .inr rfl
  | fragment => exact .inl (.inl rfl)
  | response => exact .inl (.inr rfl)

end Api

/-! ## Whole runs -/

/-- The record's buffer was allocated for the first fragment of the record's number, and the
record has been in `ST_FACK_SENT` since. -/
def AllocatedBy (es : List (Process × Act)) (r : Nat) (c : CRecord) : Prop :=
  ∃ before s addr d after, es = before ++ (s, .recv addr d) :: after ∧
    s.lookup ⟨addr, d.subport⟩ = some r ∧ AcceptsFirst (s.records r) d ∧ d.seqno = c.seqno ∧
    (∃ b, c.resp = some b ∧ b.length = DP_SIZE + d.tlen) ∧
    ∀ e ∈ after, (e.1.records r).state = .fackSent

/-- At most one thread waits for the response of a record, and it will find one. -/
structure Answered (s : Process) : Prop where
  single : s.waiting.Pairwise fun v w => ∀ r, ¬ (Collects r v ∧ Collects r w)
  idle : ∀ r, (s.records r).state = .idle → (∃ w ∈ s.waiting, Collects r w) →
    (s.records r).resp.isSome

section Runs

variable {pid : Nat} {s t : Process} {a : Act} {es : List (Process × Act)} {r : Nat}

/-- A record that is in `ST_FACK_SENT` after a step. -/
theorem Changed.keepsBuffer (hs : Sound s a) (hc : Changed s a t r)
    (hst : (t.records r).state = .fackSent) :
    (∃ addr d, a = .recv addr d ∧ s.lookup ⟨addr, d.subport⟩ = some r ∧
        FreshBuffer d (s.records r) (t.records r)) ∨
      KeptBuffer (s.records r) (t.records r) := by
  have hsame : t.records r = s.records r → KeptBuffer (s.records r) (t.records r) := fun hc =>
    keptBuffer_same (hc ▸ hst) (congrArg (·.seqno) hc) (congrArg (·.resp) hc)
  have hcall : ∀ {ep sp : Nat} {q : Bytes} {w : Option CallWait} {st : CallStep},
      CallSection ep sp q (s.records r) w st → t.records r = st.cr →
        KeptBuffer (s.records r) (t.records r) := by
    intro ep sp q w st h hc
    rw [hc] at hst ⊢
    rcases h.cases with hset | ⟨hst', hr, hn⟩ | ⟨-, hst', hidle⟩
    · rw [hst] at hset
      rcases hset with h | h | h <;> cases h
    · exact keptBuffer_same (hst' ▸ hst) (hn (hst' ▸ hst)) hr
    · rw [← hst', hst] at hidle
      rcases hidle with h | h <;> cases h
  cases hc with
  | kept hc => exact .inr (hsame hc)
  | @received addr d ha hl hc _ =>
    rcases (readerSwitch_handled _).keepsBuffer (hs.served addr d r ha hl) hc hst with hf | hk
    · exact .inl ⟨addr, d, ha, hl, hf⟩
    · exact .inr hk
  | created _ _ hc _ =>
    have hidle := (readerSwitch_handled _).created_state hc
    rw [hst] at hidle
    cases hidle
  | connected _ hc =>
    rw [hc] at hst
    cases hst
  | ticked _ hc =>
    rcases ticked_cases hc with hto | ⟨hst', hn, hr⟩
    · rw [hst] at hto
      cases hto
    · exact .inr (keptBuffer_same (hst' ▸ hst) hn hr)
  | called _ _ hc _ => exact .inr (hcall (rpcCallBegin_section ..) hc)
  | callResumed _ _ hres hc _ => exact .inr (hcall (rpcCallResume_section hres) hc)
  | disconnected hc =>
    rw [hc] at hst
    cases hst
  | responded hc _ =>
    rcases (rpcResponseBegin_section ..).cases with hset | hkeep
    · rw [← hc, hst] at hset
      rcases hset with h | h <;> cases h
    · exact .inr (hsame (hc.trans hkeep))
  | responseResumed _ hres hc _ =>
    rcases (rpcResponseResume_section hres).cases with hset | hkeep
    · rw [← hc, hst] at hset
      rcases hset with h | h <;> cases h
    · exact .inr (hsame (hc.trans hkeep))

/-- **The buffer of a record in `ST_FACK_SENT`**, in any run. -/
theorem allocated_run (h : (processSystem pid).Trace Sound es t) (r : Nat)
    (hst : (t.records r).state = .fackSent) : AllocatedBy es r (t.records r) := by
  induction h with
  | nil => cases hst
  | @snoc es s t a ht hs hn ih =>
    rcases (next_changed hn r).keepsBuffer hs hst with
      ⟨addr, d, rfl, hl, hf, hseqno, b, hb, hlen⟩ | ⟨hst', hseqno, hresp⟩
    · exact ⟨es, s, addr, d, [], by simp, hl, hf, hseqno.symm, ⟨b, hb, hlen⟩,
        fun _ he => (nomatch he)⟩
    · obtain ⟨before, s', addr, d, after, rfl, hl, hf, hseqno', ⟨b, hb, hlen⟩, hafter⟩ := ih hst'
      obtain ⟨b', hb', hlen'⟩ := hresp b hb
      refine ⟨before, s', addr, d, after ++ [(s, a)], by simp, hl, hf,
        hseqno'.trans hseqno.symm, ⟨b', hb', hlen'.trans hlen⟩, fun e he => ?_⟩
      rcases List.mem_append.mp he with he | he
      · exact hafter e he
      · rw [List.mem_singleton.mp he]
        exact hst'

theorem answered_init : Answered Process.init :=
  ⟨.nil, fun _ h => (nomatch h)⟩

/-- A thread that starts to wait for the response of `r`. -/
theorem Waits.sendsQuery {w : Waiter} (hw : Waits s a t w) (hr : Collects r w) :
    SendsQuery s r a ∧ (t.records r).state = .querySent := by
  obtain ⟨rfl, ep, q, rsize, n, hwait⟩ := hr
  cases hw with
  | connecting => cases hwait
  | called ha hl hw hc =>
    cases hwait
    obtain ⟨hlast, hst⟩ := (rpcCallBegin_section ..).sendsLast hw
    rw [ha]
    exact ⟨⟨hl, hlast⟩, hc ▸ hst⟩
  | @callResumed r i ep' rsize' sp g q' w cw st ha hi hres hw hc =>
    cases hwait
    obtain ⟨hlast, hst⟩ := (rpcCallResume_section hres).sendsLast hw
    rw [ha]
    exact ⟨⟨_, _, _, w, hi, hlast⟩, hc ▸ hst⟩
  | disconnecting => cases hwait
  | responded => cases hwait
  | responseResumed => cases hwait

/-- The record of a thread that goes on waiting for its response. -/
theorem Answered.changed (hcore : Core s) (h : Answered s) (hs : Sound s a)
    (hc : Changed s a t r) {w : Waiter} (hw : w ∈ s.waiting) (hr : Collects r w)
    (hlive : ∀ i g, a = .resume i g → w ∈ s.waiting.eraseIdx i)
    (hst : (t.records r).state = .idle) : (t.records r).resp.isSome := by
  have hold : (s.records r).state = .idle → (s.records r).resp.isSome := fun hidle =>
    h.idle r hidle ⟨w, hw, hr⟩
  have hsame : t.records r = s.records r → (t.records r).resp.isSome := fun hc => by
    rw [hc] at hst ⊢
    exact hold hst
  have hfresh : r ≠ s.fresh := by
    rintro rfl
    have hlt := hcore.waiters_allocated w hw
    rw [hr.1] at hlt
    exact Nat.lt_irrefl _ hlt
  cases hc with
  | kept hc => exact hsame hc
  | @received addr d ha hl hc _ =>
    exact (readerSwitch_handled _).answered (hs.served addr d r ha hl)
      (fun hi => hs.answered addr d r ha hl hi w hw hr) hold hc hst
  | created _ hnew _ _ => exact absurd hnew hfresh
  | connected hnew _ => exact absurd hnew hfresh
  | ticked _ hc =>
    rcases ticked_cases hc with hto | ⟨hst', -, hresp⟩
    · rw [hst] at hto
      cases hto
    · rw [hresp]
      exact hold (hst' ▸ hst)
  | called _ _ hc _ =>
    rw [hc] at hst ⊢
    rcases (rpcCallBegin_section ..).cases with hset | ⟨hst', hresp, -⟩ | ⟨⟨n, hn⟩, -⟩
    · rw [hst] at hset
      rcases hset with h | h | h <;> cases h
    · rw [hresp]
      exact hold (hst' ▸ hst)
    · cases hn
  | @callResumed i ep rsize sp g q cw st ha hi hres hc _ =>
    rw [hc] at hst ⊢
    rcases (rpcCallResume_section hres).cases with hset | ⟨hst', hresp, -⟩ | ⟨⟨n, hn⟩, -⟩
    · rw [hst] at hset
      rcases hset with h | h | h <;> cases h
    · rw [hresp]
      exact hold (hst' ▸ hst)
    · -- the thread that collects and `w` would both wait for the response
      cases hn
      have hpair := pairwise_eraseIdx (fun a b hab r hba => hab r hba.symm) h.single hi w
        (hlive i g ha) r
      exact absurd ⟨hr, rfl, _, _, _, _, rfl⟩ hpair
  | disconnected hc =>
    rw [hc] at hst
    cases hst
  | responded hc _ =>
    rcases (rpcResponseBegin_section ..).cases with hset | hkeep
    · rw [← hc, hst] at hset
      rcases hset with h | h <;> cases h
    · exact hsame (hc.trans hkeep)
  | responseResumed _ hres hc _ =>
    rcases (rpcResponseResume_section hres).cases with hset | hkeep
    · rw [← hc, hst] at hset
      rcases hset with h | h <;> cases h
    · exact hsame (hc.trans hkeep)

/-- **One step.** -/
theorem Answered.next (hcore : Core s) (h : Answered s) (hs : Sound s a)
    (ht : Process.next pid s a = some t) : Answered t := by
  obtain ⟨l, new, hw, hl, hnew⟩ := next_waited ht
  have hsub : l.Sublist s.waiting := by
    rcases hl with ⟨rfl, -⟩ | ⟨i, g, -, rfl⟩
    · exact .refl _
    · exact List.eraseIdx_sublist ..
  refine ⟨?_, fun r hst hex => ?_⟩
  · rw [hw, List.pairwise_append]
    refine ⟨h.single.sublist hsub, ?_, fun v hv w hwn r hboth => ?_⟩
    · cases new <;> simp
    · have hsend := ((hnew w (by simpa using hwn)).sendsQuery hboth.2).1
      exact hs.alone r hsend v (hsub.subset hv) hboth.1
  · obtain ⟨w, hwt, hr⟩ := hex
    rw [hw] at hwt
    rcases List.mem_append.mp hwt with hwl | hwn
    · refine h.changed hcore hs (next_changed ht r) (hsub.subset hwl) hr (fun i g ha => ?_) hst
      rcases hl with ⟨-, hne⟩ | ⟨i', g', ha', rfl⟩
      · exact absurd ha (hne i g)
      · rw [ha] at ha'
        cases ha'
        exact hwl
    · have hq := ((hnew w (by simpa using hwn)).sendsQuery hr).2
      rw [hst] at hq
      cases hq

theorem answered_of_reach (h : (processSystem pid).Reach Sound s) : Answered s := by
  refine h.invariant_reach answered_init fun s a t hreach ih hok ht => ?_
  exact ih.next (core_of_reach hreach) hok ht

/-- The records that a `CONNECT` has reached are those that have a service. -/
theorem queriesServed_iff (h : (processSystem pid).Trace (fun _ _ => True) es t) :
    QueriesServed es ↔ ∀ e ∈ es, HasService e.1 e.2 := by
  refine ⟨?_, ?_⟩
  · rintro hq ⟨s, a⟩ he addr d r rfl hl hacc
    obtain ⟨before, after, rfl⟩ := List.append_of_mem he
    exact (service_run h.before.1).mpr (hq before s addr d after r rfl hl hacc)
  · rintro hs before s addr d after r rfl hl hacc
    exact (service_run h.before.1).mp (hs (s, _) (by simp) addr d r rfl hl hacc)

/-- **No pointer is missing** in a run that leaves waiting threads their records and responses and
whose queries reach records that a `CONNECT` has reached: a record that is to queue a query has a
service, the reader queues and copies without a NULL, copies later fragments into the buffer of the
first fragment of their number, and `rpc_call` finds its record, and a response when it finds the
record idle. -/
theorem pointers_present (h : (processSystem pid).Trace LeavesWaiters es t)
    (hq : QueriesServed es) {before after : List (Process × Act)} {e : Process × Act}
    (hes : es = before ++ e :: after) :
    (∀ addr d r, e.2 = .recv addr d → e.1.lookup ⟨addr, d.subport⟩ = some r →
      AcceptsQuery (e.1.records r) d → (e.1.records r).svc.isSome) ∧
    (∀ addr d u, e.2 = .recv addr d → Process.next pid e.1 e.2 = some u →
      u.fault ≠ some .nullPointer) ∧
    (∀ addr d r, e.2 = .recv addr d → e.1.lookup ⟨addr, d.subport⟩ = some r →
      AcceptsNext (e.1.records r) d → AllocatedBy before r (e.1.records r)) ∧
    (∀ i g r ep q rsize n, e.2 = .resume i g →
      e.1.waiting[i]? = some ⟨r, .call ep q rsize (.query n)⟩ → e.1.recordFrees r = 0 ∧
        ((e.1.records r).state = .idle → (e.1.records r).resp.isSome)) := by
  have hserved := (queriesServed_iff (h.mono fun _ _ _ => trivial)).mp hq
  have hsound : (processSystem pid).Trace Sound es t :=
    (h.and hserved).mono fun _ _ hx => ⟨hx.1, hx.2⟩
  subst hes
  obtain ⟨hbefore, hok, -⟩ := hsound.before
  obtain ⟨s, a⟩ := e
  refine ⟨hok.served, fun addr d u ha hu => ?_, fun addr d r _ _ hnext => ?_,
    fun i g r ep q rsize n _ hi => ⟨?_, fun hst => ?_⟩⟩
  · dsimp only at ha hok hbefore hu
    subst ha
    unfold Process.next at hu
    split at hu
    · cases hu
    · cases hu
      have hf : (s.recv addr d).fault = (s.outcome (s.lookup ⟨addr, d.subport⟩) d).fault := rfl
      rw [hf]
      refine (readerSwitch_handled _).pointers (fun c hcr => ?_) (fun c hcr hst => ?_)
      · obtain ⟨x, hx, rfl⟩ := Option.map_eq_some_iff.mp hcr
        exact hok.served addr d x rfl hx
      · obtain ⟨x, hx, rfl⟩ := Option.map_eq_some_iff.mp hcr
        obtain ⟨_, _, _, _, _, _, _, _, _, ⟨b, hb, -⟩, -⟩ := allocated_run hbefore x hst
        rw [hb]
        rfl
  · exact allocated_run hbefore r hnext.2.1
  · have hwatched := watched_of_reach (hbefore.reach.mono fun _ _ hx => hx.unwatched)
    exact hwatched.safe.1 _ (List.mem_of_getElem? hi)
  · exact (answered_of_reach hbefore.reach).idle r hst
      ⟨_, List.mem_of_getElem? hi, rfl, ep, q, rsize, n, rfl⟩

end Runs

/-- One thread calls at a time; while it waits for its response nothing else makes its record idle;
queries reach records with a service. -/
def oneCaller (s : Process) : Act → Bool
  | .recv addr d => (s.lookup ⟨addr, d.subport⟩).all fun r =>
      (decide (¬ AcceptsQuery (s.records r) d) || (s.records r).svc.isSome) &&
        (decide (¬ IdlesUnanswered (s.records r) d) || s.waiting.all (·.wait == .connect))
  | .tick => s.waiting.isEmpty
  | .call .. => s.waiting.isEmpty
  | .resume i _ => match s.waiting[i]? with
    | some ⟨_, .connect⟩ => true
    | some ⟨_, .call _ _ _ (.query _)⟩ => true
    | _ => false
  | _ => true

theorem sound_of_oneCaller (s : Process) (a : Act) (h : oneCaller s a = true) : Sound s a where
  answered := by
    rintro addr d r rfl hl hidles w hw ⟨-, ep, q, rsize, n, hwait⟩
    simp only [oneCaller, hl, Option.all_some, Bool.and_eq_true, Bool.or_eq_true,
      decide_eq_true_eq, List.all_eq_true, beq_iff_eq] at h
    have hcon := h.2.resolve_left (fun hno => hno hidles) w hw
    rw [hwait] at hcon
    cases hcon
  alone := by
    intro r hs w hw _
    cases a with
    | call rpc g q rsize =>
      simp only [oneCaller, List.isEmpty_iff] at h
      rw [h] at hw
      cases hw
    | resume i g =>
      obtain ⟨ep, q, rsize, cw, hi, hlast⟩ := hs
      rw [oneCaller, hi] at h
      cases cw with
      | query n => exact hlast
      | _ => cases h
    | _ => exact hs
  unwatched := by
    cases a with
    | tick =>
      intro r _ _ w hw
      rw [List.isEmpty_iff.mp h] at hw
      cases hw
    | _ => trivial
  served := by
    rintro addr d r rfl hl hacc
    simp only [oneCaller, hl, Option.all_some, Bool.and_eq_true, Bool.or_eq_true,
      decide_eq_true_eq] at h
    exact h.1.resolve_left fun hno => hno hacc

/-- A client connects on subport 7 and sends a query of two pieces; then this process connects on
its own, calls, and is answered. -/
def servedAndAnswered : List Act :=
  [.offer [72], .recv otherSide ⟨message (cpComplete 7 .connect 0 1 1) [72, 0], []⟩,
    .recv otherSide ⟨message (cpComplete 7 .fragment 1 1 2)
      (dataBody 1025 1024 (List.replicate 1024 7)), []⟩,
    .recv otherSide ⟨message (cpComplete 7 .query 1 2 2) (dataBody 1025 1 [9]), []⟩, .tick,
    .connect (some otherSide) [72] 0, arrives .cack 0 [], .resume 0 ⟨otherSide, 0⟩,
    .call 1 ⟨otherSide, 0⟩ [7] 10, arrives .response 1 (dataBody 1 1 [9])]

/-- The thread that collects the response finds it. -/
theorem pointers_present_answered :
    ∃ es t, (processSystem 1).Trace LeavesWaiters es t ∧ QueriesServed es ∧
      t.queue.map (·.ep) = [0] ∧ t.waiting = [⟨1, .call 1 [7] 10 (.query 1)⟩] ∧
      (t.records 1).state = .idle ∧ t.recordFrees 1 = 0 ∧ (t.records 1).resp.isSome := by
  obtain ⟨es, t, ht, hp⟩ := System.Trace.of_run (processSystem 1) Sound
    oneCaller servedAndAnswered
    (fun t => t.queue.map (·.ep) == [0] &&
      t.waiting == [⟨1, .call 1 [7] 10 (.query 1)⟩] && (t.records 1).state == .idle &&
      (Process.next 1 t (.resume 0 ⟨otherSide, 0⟩)).isSome)
    sound_of_oneCaller (by decide +kernel) (by decide +kernel)
  simp only [Bool.and_eq_true, beq_iff_eq] at hp
  obtain ⟨⟨⟨hqueue, hw⟩, hst⟩, hsome⟩ := hp
  obtain ⟨u, hu⟩ := Option.isSome_iff_exists.mp hsome
  have hok : Sound t (.resume 0 ⟨otherSide, 0⟩) :=
    sound_of_oneCaller t _ (by rw [oneCaller, hw]; rfl)
  have hrun := ht.snoc hok hu
  have hserved := (queriesServed_iff (hrun.mono fun _ _ _ => trivial)).mpr
    fun e he => (hrun.mem e he).2.1.served
  have hbefore := (queriesServed_iff (ht.mono fun _ _ _ => trivial)).mpr
    fun e he => (ht.mem e he).2.1.served
  obtain ⟨hlive, hresp⟩ := (pointers_present (hrun.mono fun _ _ hx => hx.toLeavesWaiters) hserved
    rfl).2.2.2 0 _ 1 1 [7] 10 1 rfl (by rw [hw]; rfl)
  exact ⟨es, t, ht.mono fun _ _ hx => hx.toLeavesWaiters, hbefore, hqueue, hw, hst, hlive,
    hresp hst⟩

/-- A `QUERY` with the next number reaches a record that `rpc_connect` made. -/
def queryToClient : List Act :=
  [.connect (some otherSide) [72] 0, arrives .cack 0 []]

/-- The reader follows the service pointer that such a record does not have. -/
theorem query_without_service :
    ∃ es t, (processSystem 1).Trace (fun _ _ => True) es t ∧ ∃ e ∈ es, ∃ addr d u,
      e.2 = .recv addr d ∧ Process.next 1 e.1 e.2 = some u ∧ u.fault = some .nullPointer := by
  obtain ⟨es, t, ht, hp⟩ := System.Trace.of_run (processSystem 1) (fun _ _ => True)
    (fun _ _ => true) queryToClient
    (fun t => (Process.next 1 t (arrives .query 1 (dataBody 1 1 [9]))).map (·.fault) ==
      some (some .nullPointer))
    (fun _ _ _ => trivial) (by decide +kernel) (by decide +kernel)
  obtain ⟨u, hu, hf⟩ := Option.map_eq_some_iff.mp (eq_of_beq hp)
  have ht' : (processSystem 1).Trace (fun _ _ => True)
      (es ++ [(t, arrives .query 1 (dataBody 1 1 [9]))]) u := ht.snoc trivial hu
  exact ⟨_, u, ht', _, List.mem_append_right _ (List.mem_singleton_self _), _, _, u, rfl, hu, hf⟩

end Hwdb.Rpc
