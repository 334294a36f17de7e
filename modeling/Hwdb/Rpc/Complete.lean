import Mathlib.Data.List.Induction
import Hwdb.Rpc.Provenance
import Hwdb.Rpc.Receipt

/-!
# A completed call and the datagrams that come after it

When the client's record has accepted its response it is idle: the caller may collect the
response and the next caller may start.  The acknowledgement arms of the reader look at the
sequence number only, so a datagram that is late can take the record out of that state.

* `Settled.step` — from an idle record, a step that is not the program's own way out and not a
  `LateAck` leaves it idle under the same number.
* `LateAck.unsettles` — a late acknowledgement does take it out.
* `completed_stays_completed_iff` — the same for whole runs from the accepted response on.
-/

set_option autoImplicit false

namespace Hwdb.Rpc

open Hwdb.Lib

/-- The client's record is idle under number `n`. -/
def Settled (s : Session) (n : Nat) : Prop :=
  ∃ c, s.ccr = some c ∧ c.state = .idle ∧ c.seqno = n

/-- The call numbered `n` is over: the thread that waits for its response may go on, and a new
`rpc_call` is not refused. -/
structure Completed (cfg : Config) (s : Session) (n : Nat) : Prop where
  settled : Settled s n
  wakes : s.cfault = none → ∀ i v q rsize m, s.waiting[i]? = some (.call v q rsize (.query m)) →
    ∃ t, Session.next cfg s (.resume i) = some t
  accepts : ∀ q rsize t, Session.next cfg s (.call q rsize) = some t → t.cfault = none →
    ∃ v w, t.waiting = s.waiting ++ [.call v q rsize w]

/-- The next ping that the timer counts is the last. -/
def PingTimeout (c : CRecord) : Prop := c.ticksTilPing = 1 ∧ c.pingsTilPurge = 1

/-- The program's own ways out of `ST_IDLE`: a section of `rpc_call` that sends, the one of
`rpc_disconnect`, and the ping timeout. -/
def Departs (s : Session) : Event → Prop
  | .call .. => True
  | .disconnect => True
  | .resume i => ∃ v q rsize, s.waiting[i]? = some (.call v q rsize .seqno)
  | .ctick => ∃ c, s.ccr = some c ∧ PingTimeout c
  | _ => False

/-- Datagrams that take the idle record `c` out of `ST_IDLE`: an acknowledgement of a query or
of a disconnect under its number, and a first fragment under the next number. -/
def Unsettling (c : CRecord) (d : Received) : Prop :=
  d.n < RECV_SIZE ∧
    (((d.command = some .qack ∨ d.command = some .dack) ∧ d.seqno = c.seqno) ∨
      (d.command = some .fragment ∧ seqnoNext d.seqno c.seqno ∧ d.fnum = 1 ∧
        d.n ≤ DP_SIZE + d.tlen))

instance (c : CRecord) (d : Received) : Decidable (Unsettling c d) :=
  inferInstanceAs (Decidable (_ ∧ _))

/-- The client's reader takes such a datagram. -/
def LateAck (s : Session) : Event → Prop
  | .crecv i stale =>
    ∃ p c, s.s2c[i]? = some p ∧ s.ccr = some c ∧ Unsettling c (p.received stale)
  | _ => False

/-! ## One step -/

section Step

variable {cfg : Config} {s t : Session} {a : Event} {n : Nat} {d : Received} {c : CRecord}
  {out : Outcome}

theorem dec16_eq_zero {x : Nat} : dec16 x = 0 ↔ x = 1 := by
  unfold dec16
  split <;> omega

/-- A tick leaves an idle record idle unless it is the last ping. -/
theorem timerRecord_idle (sp : Nat) {c : CRecord} (hst : c.state = .idle)
    (hp : ¬ PingTimeout c) :
    ∃ c', (timerRecord sp c).1 = some c' ∧ c'.state = .idle ∧ c'.seqno = c.seqno := by
  have ha : c.state.awaitsAck = false := by rw [hst]; rfl
  unfold timerRecord ctableScanRecord
  simp only [hst, State.awaitsAck]
  by_cases h1 : dec16 c.ticksTilPing = 0
  · have h2 : dec16 c.pingsTilPurge ≠ 0 := fun h =>
      hp ⟨dec16_eq_zero.mp h1, dec16_eq_zero.mp h⟩
    simp [h1, h2]
  · simp [h1]

/-- A process without services has no record after a datagram if it had none before. -/
theorem Handled.unserved (h : Handled (fun _ => none) 0 d none out) : out.cr = none := by
  cases h with
  | created _ _ hs => cases hs
  | ignored => rfl
  | terminator => rfl
  | strayName => rfl
  | disconnect => rfl

/-- There is a record only after `rpc_connect`. -/
theorem opened_of_steps {ok : Session → Event → Prop} (h : (sessionSystem cfg).Reach ok s) :
    s.ccr.isSome → s.opened = true := by
  refine h.invariant (I := fun s => s.ccr.isSome → s.opened = true) (fun h => (nomatch h))
    fun s a t ih _ hn hc => ?_
  cases next_stepped hn with
  | connect => rfl
  | refused => cases hc
  | ctick _ hs => exact ih (by rw [hs]; rfl)
  | @crecv i stale p =>
    cases hs : s.ccr with
    | none =>
      have hh := (readerSwitch_handled (d := p.received stale) none).unserved
      have hc : (readerSwitch (fun _ => none) 0 s.ccr (p.received stale)).cr.isSome := hc
      rw [hs, hh] at hc
      cases hc
    | some c => exact ih (by rw [hs]; rfl)
  | call q rsize _ _ hs => exact ih (by rw [hs]; rfl)
  | disconnect _ _ hs => exact ih (by rw [hs]; rfl)
  | resumed _ _ hs => exact ih (by rw [hs]; rfl)
  | _ => exact ih hc

/-- The first copy of a fragmented message fits the buffer exactly if the length field leaves
room for the datagram. -/
theorem firstFragment_fits : (Buffer.write (Buffer.alloc (DP_SIZE + d.tlen)) 0 d.bytes).isSome ↔
    d.n ≤ DP_SIZE + d.tlen := by
  rw [Buffer.write_isSome, Nat.zero_add, Buffer.alloc, List.length_replicate]
  rfl

/-- What the server sends leaves an idle record idle, unless it is `Unsettling`. -/
theorem Handled.idle (h : Handled (fun _ => none) 0 d (some c) out) (hn : d.n < RECV_SIZE)
    (hst : c.state = .idle) {cmd : Command} (hcmd : d.command = some cmd)
    (hk : cmd ∈ serverCommands) (hun : ¬ Unsettling c d) :
    ∃ c', out.cr = some c' ∧ c'.state = .idle ∧ c'.seqno = c.seqno := by
  cases h with
  | ignored => exact ⟨c, rfl, hst, rfl⟩
  | terminator => exact ⟨c, rfl, hst, rfl⟩
  | strayName => exact ⟨c, rfl, hst, rfl⟩
  | reconnected _ _ _ hs => cases hs
  | cack => exact ⟨_, rfl, rfl, rfl⟩
  | rack => exact ⟨_, rfl, rfl, rfl⟩
  | ping => exact ⟨c, rfl, hst, rfl⟩
  | pack => exact ⟨_, rfl, hst, rfl⟩
  | copyFault => exact ⟨c, rfl, hst, rfl⟩
  | fragmentFault => exact ⟨c, rfl, hst, rfl⟩
  | sack _ _ h => rw [hst] at h; cases h
  | fack _ _ _ h => rw [hst] at h; cases h
  | responseWhole _ _ _ h => rw [hst] at h; rcases h with h | h <;> cases h
  | responseLast _ _ _ _ h => rw [hst] at h; cases h
  | fragmentNext _ _ _ _ h => rw [hst] at h; cases h
  | fragmentOld _ _ _ h => rw [hst] at h; cases h
  | queryOld _ _ _ h => rw [hst] at h; rcases h with h | h <;> cases h
  | queryLast _ _ _ _ h => rw [hst] at h; cases h
  | queryWhole _ hc => rw [hc] at hcmd; cases hcmd; exact absurd hk (by decide)
  | disconnect _ hc => rw [hc] at hcmd; cases hcmd; exact absurd hk (by decide)
  | seqno _ hc => rw [hc] at hcmd; cases hcmd; exact absurd hk (by decide)
  | qack _ hc hs => exact absurd ⟨hn, .inl ⟨.inl hc, hs⟩⟩ hun
  | dack _ hc hs => exact absurd ⟨hn, .inl ⟨.inr hc, hs⟩⟩ hun
  | fragmentFirst _ p hc hf hp =>
    rcases hf with ⟨-, hs, hf⟩ | ⟨hs, -⟩
    · exact absurd ⟨hn, .inr ⟨hc, hs, hf, firstFragment_fits.mp (by rw [hp]; rfl)⟩⟩ hun
    · rw [hst] at hs; rcases hs with h | h <;> cases h

/-- An `Unsettling` datagram takes the record out of `ST_IDLE`. -/
theorem Unsettling.leaves (h : Unsettling c d) (hst : c.state = .idle) :
    ∃ c', (readerSwitch (fun _ => none) 0 (some c) d).cr = some c' ∧ c'.state ≠ .idle := by
  obtain ⟨hn, ⟨hc | hc, hs⟩ | ⟨hc, hs, hf, hfit⟩⟩ := h
  · refine ⟨crecordSetState c .awaitingResponse, ?_, fun h => by cases h⟩
    simp [readerSwitch, Nat.not_le.mpr hn, hc, readerRecord, readerQack, hs, Outcome.setState]
  · refine ⟨crecordSetState c .timedout, ?_, fun h => by cases h⟩
    simp [readerSwitch, Nat.not_le.mpr hn, hc, readerRecord, readerDack, hs, Outcome.setState]
  · obtain ⟨p, hp⟩ := Option.isSome_iff_exists.mp (firstFragment_fits.mpr hfit)
    have hfirst : isFirstFragment c d := .inl ⟨.inl hst, hs, hf⟩
    have hout : readerSwitch (fun _ => none) 0 (some c) d =
        readerFragmentNew { c with seqno := d.seqno, resp := some p } d := by
      simp [readerSwitch, Nat.not_le.mpr hn, hc, readerRecord, readerFragment, hfirst, hp]
    rw [hout]
    exact ⟨_, rfl, fun h => by cases h⟩

/-- **An idle record stays idle** under its number in every step that is neither the program's
own way out nor a late acknowledgement. -/
theorem Settled.step (h : Settled s n) (hk : Kinds s) (ho : s.ccr.isSome → s.opened = true)
    (ht : Stepped cfg s a t) (hd : ¬ Departs s a) (hl : ¬ LateAck s a) : Settled t n := by
  obtain ⟨c, hc, hst, rfl⟩ := h
  cases ht with
  | connect _ hopen => rw [ho (by rw [hc]; rfl)] at hopen; cases hopen
  | cdead _ hs => rw [hs] at hc; cases hc
  | call => exact absurd trivial hd
  | disconnect => exact absurd trivial hd
  | refused _ _ hs ht => rw [hs] at hc; cases hc; rw [hst] at ht; cases ht
  | @resumed i v q rsize w c' st _ hi hs hr =>
    rw [hs] at hc
    cases hc
    cases w with
    | seqno => exact absurd ⟨v, q, rsize, hi⟩ hd
    | frag => simp [rpcCallResume, matchedState, hst] at hr
    | query m =>
      simp only [rpcCallResume, matchedState, hst] at hr
      cases hr
      obtain ⟨result, fault, he⟩ := rpcCallCollect_eq c rsize
      exact ⟨_, rfl, by rw [he]; exact hst, by rw [he]⟩
  | @crecv i stale p _ hp =>
    have hkind := hk.server p (List.mem_of_getElem? hp)
    have hhead := received_whole (p := p) hkind.whole stale
    obtain ⟨cmd, hmem, hcmd⟩ := hkind.command (v := p.call)
    obtain ⟨c', hc', hst', hs'⟩ : ∃ c',
        (readerSwitch (fun _ => none) 0 s.ccr (p.received stale)).cr = some c' ∧
          c'.state = .idle ∧ c'.seqno = c.seqno := by
      by_cases hn : (p.received stale).n < RECV_SIZE
      · rw [hc]
        exact (readerSwitch_handled (some c)).idle hn hst (hhead.1.trans hcmd) hmem
          fun hun => hl ⟨p, c, hp, hc, hun⟩
      · rw [hc, readerSwitch, if_pos (Nat.le_of_not_lt hn)]
        exact ⟨c, rfl, hst, rfl⟩
    exact ⟨c', hc', hst', hs'⟩
  | ctick _ hs =>
    rw [hs] at hc
    cases hc
    exact timerRecord_idle cfg.subport hst fun hp => hd ⟨_, hs, hp⟩
  | _ => exact ⟨c, hc, hst, rfl⟩

/-- **A late acknowledgement takes the record out of `ST_IDLE`.** -/
theorem LateAck.unsettles (hl : LateAck s a) (h : Settled s n) (ht : Stepped cfg s a t) :
    ¬ Settled t n := by
  obtain ⟨c, hc, hst, rfl⟩ := h
  cases ht with
  | cdead _ hs => rw [hs] at hc; cases hc
  | crecv _ hp =>
    obtain ⟨p, c', hp', hc', hun⟩ := hl
    rw [hp] at hp'
    cases hp'
    rw [hc] at hc'
    cases hc'
    obtain ⟨c', hcr, hne⟩ := hun.leaves hst
    rintro ⟨c'', hc'', hst'', -⟩
    have heq : (readerSwitch (fun _ => none) 0 s.ccr _).cr = some c'' := hc''
    rw [hc, hcr] at heq
    cases heq
    exact hne hst''
  | _ => exact hl.elim

/-- An accepted response makes the record idle. -/
theorem TakesResponse.settles (h : TakesResponse c d) (hn : d.n < RECV_SIZE) :
    ∃ c', (readerSwitch (fun _ => none) 0 (some c) d).cr = some c' ∧ c'.state = .idle ∧
      c'.seqno = c.seqno := by
  obtain ⟨hc, ⟨hs, hst⟩ | ⟨hs, hst, hf, hnf, p, hp⟩⟩ := h
  · have hout : readerSwitch (fun _ => none) 0 (some c) d =
        readerResponseNew { c with resp := some (d.bytes.map some) } d := by
      simp [readerSwitch, Nat.not_le.mpr hn, hc, readerRecord, readerResponse, hs, hst]
    rw [hout]
    exact ⟨_, rfl, rfl, rfl⟩
  · have hnf' : c.lastFrag + 1 = d.nfrags := hf ▸ hnf
    have hout : readerSwitch (fun _ => none) 0 (some c) d =
        readerResponseNew { c with resp := some p, lastFrag := d.fnum } d := by
      simp [readerSwitch, Nat.not_le.mpr hn, hc, readerRecord, readerResponse, hs, hst, hf,
        hnf', hp]
    rw [hout]
    exact ⟨_, rfl, rfl, rfl⟩

/-- On an idle record the callers get on. -/
theorem Settled.completed (h : Settled s n) : Completed cfg s n where
  settled := h
  wakes hcf i v q rsize m hi := by
    obtain ⟨c, hc, hst, rfl⟩ := h
    have hr : rpcCallResume 0 cfg.subport c q rsize (.query m) = some (rpcCallCollect c rsize) := by
      simp [rpcCallResume, matchedState, hst]
    simp [Session.next, Session.clientNext, Session.clientResume, hcf, hi, hc, hr]
  accepts q rsize t hn hf := by
    obtain ⟨c, hc, hst, rfl⟩ := h
    cases next_stepped hn with
    | cdead => cases hf
    | call _ _ _ _ hs =>
      rw [hs] at hc
      cases hc
      have hsec := rpcCallBegin_section 0 cfg.subport q c
      simp only [Session.clientSection] at hf ⊢
      generalize rpcCallBegin 0 cfg.subport c q = st at hsec hf
      cases hsec with
      | refused h => exact absurd hst h
      | undefined => cases hf
      | renumber => exact ⟨_, _, rfl⟩
      | fragment => exact ⟨_, _, rfl⟩
      | query => exact ⟨_, _, rfl⟩

/-! ## Runs -/

theorem settled_iff_of_trace {pre mid : List (Session × Event)} {e : Session × Event}
    (ht : (sessionSystem cfg).Trace (fun _ _ => True) (pre ++ e :: mid) t)
    (hset : ∀ u, Session.next cfg e.1 e.2 = some u → Settled u n)
    (hown : ∀ e ∈ mid, ¬ Departs e.1 e.2) :
    ((∀ e ∈ mid, Settled e.1 n) ∧ Settled t n) ↔ ∀ e ∈ mid, ¬ LateAck e.1 e.2 := by
  induction mid using List.reverseRecOn generalizing t with
  | nil => simpa using hset t ht.unsnoc.2.2
  | append_singleton mid x ih =>
    obtain ⟨s, a⟩ := x
    rw [← List.cons_append, ← List.append_assoc] at ht
    obtain ⟨hs, -, hn⟩ := ht.unsnoc
    have hih := ih hs fun e he => hown e (List.mem_append_left _ he)
    have hd : ¬ Departs s a := hown (s, a) (by simp)
    have hstep := next_stepped hn
    have hlast : Settled s n → (Settled t n ↔ ¬ LateAck s a) := fun h =>
      ⟨fun ht hl => hl.unsettles h hstep ht,
        h.step (kinds_of_steps hs.reach) (opened_of_steps hs.reach) hstep hd⟩
    simp only [List.forall_mem_append, List.forall_mem_singleton]
    constructor
    · rintro ⟨⟨hmid, hset⟩, hend⟩
      exact ⟨hih.mp ⟨hmid, hset⟩, (hlast hset).mp hend⟩
    · rintro ⟨hmid, hend⟩
      obtain ⟨hmid, hset⟩ := hih.mpr hmid
      exact ⟨⟨hmid, hset⟩, (hlast hset).mpr hend⟩

/-- **A completed call stays completed.**  From the step in which the client accepts a response
on, as long as the program itself does not leave `ST_IDLE`, the call is complete in every state
of the run exactly if no late acknowledgement is delivered. -/
theorem completed_stays_completed_iff {pre mid : List (Session × Event)} {s u : Session}
    {i : Nat} {stale : Bytes} {p : Packet} {c : CRecord}
    (ht : (sessionSystem cfg).Trace (fun _ _ => True) (pre ++ (s, .crecv i stale) :: mid) u)
    (hp : s.s2c[i]? = some p) (hc : s.ccr = some c) (hn : (p.received stale).n < RECV_SIZE)
    (hacc : TakesResponse c (p.received stale)) (hown : ∀ e ∈ mid, ¬ Departs e.1 e.2) :
    ((∀ e ∈ mid, Completed cfg e.1 c.seqno) ∧ Completed cfg u c.seqno) ↔
      ∀ e ∈ mid, ¬ LateAck e.1 e.2 := by
  rw [← settled_iff_of_trace ht ?_ hown]
  · constructor
    · rintro ⟨hmid, hend⟩
      exact ⟨fun e he => (hmid e he).settled, hend.settled⟩
    · rintro ⟨hmid, hend⟩
      exact ⟨fun e he => (hmid e he).completed, hend.completed⟩
  · intro v hv
    obtain ⟨c', hc', hst, hs⟩ := hacc.settles hn
    cases next_stepped hv with
    | cdead _ hs => rw [hs] at hc; cases hc
    | crecv _ hp' =>
      rw [hp] at hp'
      cases hp'
      refine ⟨c', ?_, hst, hs⟩
      change (readerSwitch (fun _ => none) 0 s.ccr (p.received stale)).cr = some c'
      rw [hc]
      exact hc'

end Step

/-! ## A client that calls once -/

/-- The client calls, the server's `QACK` and `RESPONSE` are on their way. -/
def answered : List Event :=
  connecting ++ [.call [7] 10, .srecv 1 [], .query 10, .respond 0 [9]]

/-- After `answered` the response is accepted and datagram `i` follows it. -/
structure Accepted (i : Nat) (s t u : Session) (d : Packet) (c : CRecord) : Prop where
  datagram : s.s2c[2]? = some d
  record : s.ccr = some c
  short : (d.received []).n < RECV_SIZE
  takes : TakesResponse c (d.received [])
  accepted : Session.next (hwdbConfig 0) s (.crecv 2 []) = some t
  followed : Session.next (hwdbConfig 0) t (.crecv i []) = some u

/-- A computable sufficient check. -/
def acceptedCheck (i : Nat) (p : Session → Session → Bool) (s : Session) : Bool :=
  match s.s2c[2]?, s.ccr, Session.next (hwdbConfig 0) s (.crecv 2 []) with
  | some d, some c, some t =>
    decide ((d.received []).n < RECV_SIZE ∧ (d.received []).command = some .response ∧
      (d.received []).seqno = c.seqno ∧ c.state = .querySent) &&
      (match Session.next (hwdbConfig 0) t (.crecv i []) with
      | some u => p t u
      | none => false)
  | _, _, _ => false

theorem accepted_of_check {i : Nat} {p : Session → Session → Bool} {s : Session}
    (h : acceptedCheck i p s = true) : ∃ t u d c, Accepted i s t u d c ∧ p t u = true := by
  unfold acceptedCheck at h
  split at h
  · rename_i d c t hd hc ht
    obtain ⟨hcheck, h⟩ := Bool.and_eq_true_iff.mp h
    obtain ⟨hn, hcmd, hs, hst⟩ := of_decide_eq_true hcheck
    split at h
    · rename_i u hu
      exact ⟨t, u, d, c, ⟨hd, hc, hn, ⟨hcmd, .inl ⟨hs, .inl hst⟩⟩, ht, hu⟩, h⟩
    · cases h
  · cases h

/-- A duplicate of the response comes after it, and the call stays completed. -/
theorem completed_stays_completed_duplicate :
    ∃ (s t u : Session) (d : Packet) (c : CRecord), Accepted 2 s t u d c ∧
      Completed (hwdbConfig 0) t c.seqno ∧ Completed (hwdbConfig 0) u c.seqno := by
  obtain ⟨es, s, hes, hs⟩ := System.Trace.of_run (sessionSystem (hwdbConfig 0))
    (fun _ _ => True) (fun _ _ => true) answered
    (acceptedCheck 2 fun t _ => t.ccr.all fun c => t.s2c[2]?.all fun d =>
      !decide (Unsettling c (d.received [])))
    (fun _ _ _ => trivial) (by decide +kernel) (by decide +kernel)
  obtain ⟨t, u, d, c, h, hp⟩ := accepted_of_check hs
  have htrace := (hes.snoc trivial h.accepted).snoc trivial h.followed
  rw [List.append_assoc, List.singleton_append] at htrace
  have hiff := completed_stays_completed_iff htrace h.datagram h.record h.short h.takes
    (by simp [Departs])
  obtain ⟨ht, hu⟩ := hiff.mpr (by
    simp only [List.forall_mem_singleton]
    rintro ⟨d', c', hd', hc', hun⟩
    simp [hd', hc', hun] at hp)
  exact ⟨s, t, u, d, c, h, ht _ (List.mem_singleton.mpr rfl), hu⟩

/-- The `QACK` that the response has overtaken takes the record out of `ST_IDLE` again. -/
theorem late_qack_reopens_call :
    ∃ (es : List (Session × Event)) (s t u : Session) (d : Packet) (c : CRecord),
      (sessionSystem (hwdbConfig 0)).Trace (fun _ _ => True)
        (es ++ (s, .crecv 2 []) :: [(t, .crecv 1 [])]) u ∧ Accepted 1 s t u d c ∧
      ¬ Departs t (.crecv 1 []) ∧ ¬ Completed (hwdbConfig 0) u c.seqno := by
  obtain ⟨es, s, hes, hs⟩ := System.Trace.of_run (sessionSystem (hwdbConfig 0))
    (fun _ _ => True) (fun _ _ => true) answered (acceptedCheck 1 fun _ u =>
      u.ccr.any fun c => c.state = .awaitingResponse)
    (fun _ _ _ => trivial) (by decide +kernel) (by decide +kernel)
  obtain ⟨t, u, d, c, h, hp⟩ := accepted_of_check hs
  have htrace := (hes.snoc trivial h.accepted).snoc trivial h.followed
  rw [List.append_assoc] at htrace
  refine ⟨es, s, t, u, d, c, htrace, h, fun hd => hd, fun hcomp => ?_⟩
  obtain ⟨c', hc', hst, -⟩ := hcomp.settled
  simp [hc', hst] at hp

end Hwdb.Rpc
