import Hwdb.Rpc.Roles

/-!
# Renumbering and copies of the `SEQNO` message

At `SEQNO_LIMIT` a call starts with a `SEQNO` message, and a server's record that is idle or has
sent its response takes the number of any `SEQNO` that arrives.

* `Rewinds` — a copy that arrives after the client has gone on, and what it hits.
* `RenumberingSafe` — no copy takes the expected number back or a response away, and no number
  is appended twice since the renumbering.
* `renumberingSafe_iff` — a run is safe exactly when no copy `Rewinds`.
-/

set_option autoImplicit false

namespace Hwdb.Rpc

open Hwdb.Lib

/-- A copy of a `SEQNO` reaches the server after the client has numbered a call since. -/
def CopyArrives (s : Session) : Event → Prop
  | .srecv i stale => ∃ p, s.c2s[i]? = some p ∧ (p.received stale).command = some .seqno ∧
      s.Renumbered
  | _ => False

/-- The copy finds a response that is not acknowledged, or a record that is idle and has come
past the number of the renumbering. -/
def Rewinds (s : Session) : Event → Prop
  | .srecv i stale => ∃ p c, s.c2s[i]? = some p ∧ s.scr = some c ∧
      (p.received stale).n < RECV_SIZE ∧ (p.received stale).command = some .seqno ∧
      s.Renumbered ∧ (c.state = .responseSent ∨ (c.state = .idle ∧ c.seqno ≠ SEQNO_START))
  | _ => False

/-- The record expects no earlier number than before, and the response that it repeats is still
there. -/
def KeepsPlace (s u : Session) : Prop :=
  ∀ c, s.scr = some c → ∃ c', u.scr = some c' ∧ c.seqno ≤ c'.seqno ∧
    (c.state = .responseSent → c'.state = .responseSent ∧ c'.payload = c.payload)

/-- Copies of the `SEQNO` do no harm in the run `es` to `t`. -/
def RenumberingSafe (cfg : Config) (es : List (Session × Event)) (t : Session) : Prop :=
  (∀ e ∈ es, CopyArrives e.1 e.2 → ∀ u, Session.next cfg e.1 e.2 = some u → KeepsPlace e.1 u) ∧
    (∀ e ∈ es, e.1.since.Nodup) ∧ t.since.Nodup

/-! ## Numbers appended since the renumbering -/

/-- The numbers appended rise up to the record's own, which has not been appended while its
fragments are still coming. -/
structure Rising (s : Session) : Prop where
  sorted : s.since.Pairwise (· < ·)
  bound : ∀ c, s.scr = some c → ∀ n ∈ s.since, n ≤ c.seqno
  open_ : ∀ c, s.scr = some c → c.state = .fackSent → ∀ n ∈ s.since, n < c.seqno

section Step

variable {cfg : Config} {s t : Session} {a : Event}

/-- A record with the same number, in `ST_FACK_SENT` only if it was before. -/
theorem Rising.kept (h : Rising s) (hsince : t.since.Sublist s.since)
    (hc : ∀ c', t.scr = some c' → ∃ c, s.scr = some c ∧ c'.seqno = c.seqno ∧
      (c'.state = .fackSent → c.state = .fackSent)) : Rising t := by
  refine ⟨h.sorted.sublist hsince, fun c' hc' n hn => ?_, fun c' hc' hst n hn => ?_⟩
  · obtain ⟨c, hs, hseqno, -⟩ := hc c' hc'
    rw [hseqno]
    exact h.bound c hs n (hsince.subset hn)
  · obtain ⟨c, hs, hseqno, hfack⟩ := hc c' hc'
    rw [hseqno]
    exact h.open_ c hs (hfack hst) n (hsince.subset hn)

/-- Another number is appended, or the record is made or renumbered. -/
theorem Rising.appended {ns : List Nat} {c' : CRecord} (hsince : t.since = ns)
    (hc : t.scr = some c') (hsorted : ns.Pairwise (· < ·)) (hle : ∀ n ∈ ns, n ≤ c'.seqno)
    (hst : c'.state ≠ .fackSent) : Rising t := by
  refine ⟨hsince ▸ hsorted, fun c hs n hn => ?_, fun c hs hf => ?_⟩
  · rw [hc] at hs
    cases hs
    exact hle n (hsince ▸ hn)
  · rw [hc] at hs
    cases hs
    exact absurd hf hst

/-- Nothing is appended without a queue element. -/
theorem recvSince_nil (out : Outcome) (d : Received) :
    (s.recvSince out d []).Sublist s.since := by
  unfold Session.recvSince
  split
  · exact List.nil_sublist _
  · rw [List.append_nil]

/-- What the record did to its number and state without appending. -/
theorem Rising.recv_kept (h : Rising s) {out : Outcome} {d : Received} {c c' : CRecord}
    (hs : s.scr = some c) (htc : t.scr = some c')
    (hts : t.since = s.recvSince out d []) (hseqno : c'.seqno = c.seqno)
    (hst : c'.state = .fackSent → c.state = .fackSent) : Rising t := by
  refine h.kept (hts ▸ recvSince_nil out d) fun c'' hc'' => ?_
  rw [htc] at hc''
  cases hc''
  exact ⟨c, hs, hseqno, hst⟩

/-- The next number is appended. -/
theorem Rising.recv_appended (h : Rising s) {out : Outcome} {d : Received} {c c' : CRecord}
    (hs : s.scr = some c) (htc : t.scr = some c') (hcmd : d.command = some .query)
    (hts : t.since = s.recvSince out d [d.seqno]) (hseqno : c'.seqno = d.seqno)
    (hlt : ∀ n ∈ s.since, n < d.seqno) (hst : c'.state ≠ .fackSent) : Rising t := by
  have happ : t.since = s.since ++ [d.seqno] := by
    rw [hts, Session.recvSince, if_neg]
    rintro (⟨hnone, -⟩ | ⟨hq, -⟩)
    · rw [hs] at hnone
      cases hnone
    · rw [hcmd] at hq
      cases hq
  refine Rising.appended happ htc ?_ ?_ hst
  · rw [List.pairwise_append]
    refine ⟨h.sorted, List.pairwise_singleton _ _, fun n hn m hm => ?_⟩
    rw [List.mem_singleton.mp hm]
    exact hlt n hn
  · intro n hn
    rw [hseqno]
    rcases List.mem_append.mp hn with hn | hn
    · exact Nat.le_of_lt (hlt n hn)
    · exact Nat.le_of_eq (List.mem_singleton.mp hn)

/-- **The reader of the server**, unless a copy of the `SEQNO` rewinds. -/
theorem Rising.recv (h : Rising s) {stable : Bytes → Option Nat} {nep : Nat} {d : Received}
    {out : Outcome} (hserves : Serves stable nep d s.scr out)
    (hstart : d.command = some .seqno → d.seqno = SEQNO_START)
    (hno : ∀ c, s.scr = some c → d.command = some .seqno → s.Renumbered →
      c.state ≠ .responseSent ∧ (c.state = .idle → c.seqno = SEQNO_START))
    (htc : t.scr = out.cr)
    (hts : t.since = s.recvSince out d (out.queued.toList.map fun _ => d.seqno)) :
    Rising t := by
  generalize hscr : s.scr = o at hserves
  cases hserves with
  | kept =>
    exact h.kept (hts ▸ recvSince_nil _ d) fun c' hc' =>
      ⟨c', hscr.trans (htc.symm.trans hc'), rfl, id⟩
  | failed =>
    exact h.kept (hts ▸ recvSince_nil _ d) fun c' hc' =>
      ⟨c', hscr.trans (htc.symm.trans hc'), rfl, id⟩
  | created sr =>
    have hnil : t.since = [] := by
      rw [hts, Session.recvSince, if_pos]
      exact .inl ⟨by rw [hscr]; rfl, rfl⟩
    exact Rising.appended hnil htc .nil (by simp) (by simp)
  | reconnected c sr => exact h.recv_kept hscr htc hts rfl fun hst => by cases hst
  | queryWhole c sr hc hn =>
    refine h.recv_appended hscr htc hc hts rfl (fun n hm => ?_) (by simp [queryTaken])
    have hle := h.bound c hscr n hm
    omega
  | queryLast c sr p hc hn hst =>
    refine h.recv_appended hscr htc hc hts hn.symm (fun n hm => ?_) (by simp [queryTaken])
    rw [hn]
    exact h.open_ c hscr hst n hm
  | resent c => exact h.recv_kept hscr htc hts rfl id
  | rack c => exact h.recv_kept hscr htc hts rfl fun hst => by cases hst
  | disconnect =>
    refine h.kept (hts ▸ recvSince_nil _ d) fun c' hc' => ?_
    rw [htc] at hc'
    obtain ⟨c, rfl, rfl⟩ := Option.map_eq_some_iff.mp hc'
    exact ⟨c, hscr, rfl, fun hst => by cases hst⟩
  | fragmentFirst c p hc hn =>
    refine ⟨h.sorted.sublist (hts ▸ recvSince_nil _ d), fun c' hc' n hm => ?_,
      fun c' hc' _ n hm => ?_⟩
    all_goals
      rw [htc] at hc'
      cases hc'
      have hle := h.bound c hscr n ((hts ▸ recvSince_nil _ d : t.since.Sublist s.since).subset hm)
      simp only [fragmentTaken, setState_seqno, acknowledge, setPayload_seqno]
      omega
  | fragmentNext c p hc hn hst => exact h.recv_kept hscr htc hts rfl fun _ => hst
  | fack c => exact h.recv_kept hscr htc hts rfl fun hst => by cases hst
  | ping c => exact h.recv_kept hscr htc hts rfl id
  | pack c => exact h.recv_kept hscr htc hts rfl id
  | seqno c hc hst =>
    by_cases hren : s.Renumbered
    · -- the record is idle under the number of the renumbering already
      obtain ⟨hne, hzero⟩ := hno c hscr hc hren
      have hseqno : d.seqno = c.seqno := by
        rw [hstart hc, hzero (hst.resolve_right hne)]
      exact h.recv_kept hscr htc hts hseqno fun hst => by cases hst
    · have hnil : t.since = [] := by
        rw [hts, Session.recvSince, if_pos]
        exact .inr ⟨hc, by simp [Outcome.sendAndSet], hren⟩
      exact Rising.appended hnil htc .nil (by simp) (by simp)

theorem Rising.section (h : Rising s) {c : CRecord} {r : Bytes} {w : Option (Nat × Nat)}
    {st : ResponseStep} (hs : s.scr = some c) (hst : ResponseSection 0 cfg.subport r c w st)
    (htc : t.scr = some st.cr) (hts : t.since = s.since) : Rising t := by
  refine h.kept (hts ▸ .refl _) fun c' hc' => ?_
  rw [htc] at hc'
  cases hc'
  exact ⟨c, hs, hst.kept.1, hst.kept.2⟩

/-- **One step.** -/
theorem Rising.step (h : Rising s) (hk : Kinds s) (hr : Roles s) (hno : ¬ Rewinds s a)
    (ht : Stepped cfg s a t) : Rising t := by
  cases ht with
  | @srecv i stale p hsf hp =>
    have hin := List.mem_of_getElem? hp
    have hwhole := received_whole (p := p) (hk.client p hin).whole stale
    by_cases hn : (p.received stale).n < RECV_SIZE
    · have hts : (s.serverRecv cfg i p.call (p.received stale)).since = s.recvSince
          (readerSwitch cfg.stable s.born s.scr (p.received stale)) (p.received stale)
          ((readerSwitch cfg.stable s.born s.scr (p.received stale)).queued.toList.map
            fun _ => (p.received stale).seqno) := by
        simp only [Session.serverRecv, List.map_map]
        rfl
      refine h.recv (hr.serves hk hin stale) (fun hc => ?_) (fun c hs hc hren => ?_) rfl hts
      · rw [hwhole.2.1]
        exact (hk.client p hin).seqno_start (hwhole.1.symm.trans hc)
      · refine ⟨fun hst => hno ⟨p, c, hp, hs, hn, hc, hren, .inl hst⟩, fun hst => ?_⟩
        by_contra hne
        exact hno ⟨p, c, hp, hs, hn, hc, hren, .inr ⟨hst, hne⟩⟩
    · have hout : readerSwitch cfg.stable s.born s.scr (p.received stale) =
          ⟨s.scr, [], none, some .outOfBounds⟩ := by
        rw [readerSwitch, if_pos (Nat.le_of_not_lt hn)]
      refine h.kept ?_ fun c' hc' => ⟨c', ?_, rfl, id⟩
      · simp only [Session.serverRecv, hout]
        exact recvSince_nil _ _
      · simpa only [Session.serverRecv, hout] using hc'
  | @stick c hsf hc =>
    refine h.kept (.refl _) fun c' hc' => ?_
    have htick := timerRecord_cases cfg.subport c
    refine ⟨c, hc, (htick.kept hc').1, fun hst => ?_⟩
    rcases htick.state hc' with hto | hsame
    · rw [hto] at hst
      cases hst
    · exact hsame.symm.trans hst
  | respond rb _ _ hc => exact h.section hc (rpcResponseBegin_section 0 cfg.subport rb _) rfl rfl
  | wresumed _ _ hc _ hst => exact h.section hc (rpcResponseResume_section hst) rfl rfl
  | _ => exact ⟨h.sorted, h.bound, h.open_⟩

theorem rising_of_reach (h : (sessionSystem cfg).Reach (fun s a => ¬ Rewinds s a) s) :
    Rising s := by
  refine h.invariant_reach ⟨.nil, nofun, nofun⟩ fun s a t hreach ih hno hn => ?_
  exact ih.step (kinds_of_steps hreach) (roles_of_reach hreach) hno (next_stepped hn)

/-! ## One copy -/

/-- What a `SEQNO` does to the record. -/
theorem readerSwitch_seqno {stable : Bytes → Option Nat} {nep : Nat} {c : CRecord} {d : Received}
    (hn : d.n < RECV_SIZE) (hc : d.command = some .seqno) :
    readerSwitch stable nep (some c) d = readerSeqno c d := by
  unfold readerSwitch
  rw [if_neg (by omega), hc]
  rfl

/-- A copy that finds nothing to harm. -/
theorem keepsPlace_of_not_rewinds (hcopy : CopyArrives s a)
    (hno : ¬ Rewinds s a) (hn : Session.next cfg s a = some t) : KeepsPlace s t := by
  cases a with
  | srecv i stale =>
    obtain ⟨p, hp, hc, hren⟩ := hcopy
    obtain ⟨p', hp', rfl⟩ := next_srecv hn
    rw [hp] at hp'
    cases hp'
    intro c hs
    by_cases hlt : (p.received stale).n < RECV_SIZE
    · have htc : (s.serverRecv cfg i p.call (p.received stale)).scr =
          (readerSeqno c (p.received stale)).cr := by
        rw [← readerSwitch_seqno hlt hc, ← hs]
        rfl
      rw [htc]
      unfold readerSeqno
      by_cases hst : c.state = .idle ∨ c.state = .responseSent
      · rw [if_pos hst]
        have hresp : c.state ≠ .responseSent := fun hr =>
          hno ⟨p, c, hp, hs, hlt, hc, hren, .inl hr⟩
        have hzero : c.seqno = SEQNO_START := by
          by_contra hne
          exact hno ⟨p, c, hp, hs, hlt, hc, hren, .inr ⟨hst.resolve_right hresp, hne⟩⟩
        exact ⟨_, rfl, by rw [hzero]; exact Nat.zero_le _, fun hr => absurd hr hresp⟩
      · rw [if_neg hst]
        exact ⟨c, rfl, Nat.le_refl _, fun hr => ⟨hr, rfl⟩⟩
    · refine ⟨c, ?_, Nat.le_refl _, fun hr => ⟨hr, rfl⟩⟩
      have hout : readerSwitch cfg.stable s.born s.scr (p.received stale) =
          ⟨s.scr, [], none, some .outOfBounds⟩ := by
        rw [readerSwitch, if_pos (Nat.le_of_not_lt hlt)]
      show (readerSwitch cfg.stable s.born s.scr (p.received stale)).cr = some c
      rw [hout]
      exact hs
  | _ => cases hcopy

/-- A copy that rewinds takes the expected number back or the response away. -/
theorem Rewinds.not_keepsPlace (h : Rewinds s a) (hk : Kinds s)
    (hn : Session.next cfg s a = some t) : ¬ KeepsPlace s t := by
  cases a with
  | srecv i stale =>
    obtain ⟨p, c, hp, hs, hlt, hc, -, hst⟩ := h
    obtain ⟨p', hp', rfl⟩ := next_srecv hn
    rw [hp] at hp'
    cases hp'
    intro hkeep
    obtain ⟨c', hc', hle, hresp⟩ := hkeep c hs
    have hin := hk.client p (List.mem_of_getElem? hp)
    have hwhole := received_whole (p := p) hin.whole stale
    have hzero : (p.received stale).seqno = SEQNO_START := by
      rw [hwhole.2.1]
      exact hin.seqno_start (hwhole.1.symm.trans hc)
    have htc : (s.serverRecv cfg i p.call (p.received stale)).scr =
        (readerSeqno c (p.received stale)).cr := by
      rw [← readerSwitch_seqno hlt hc, ← hs]
      rfl
    rw [htc, readerSeqno, if_pos (hst.elim .inr fun h => .inl h.1)] at hc'
    cases hc'
    rcases hst with hst | ⟨-, hne⟩
    · cases (hresp hst).1
    · rw [setState_seqno, hzero] at hle
      exact hne (Nat.le_zero.mp hle)
  | _ => cases h

end Step

/-- **Copies of the `SEQNO` do no harm** in a run if and only if none arrives, after the client
has gone on to its next query, at a record that has sent its response or that is idle under
another number than the first. -/
theorem renumberingSafe_iff {cfg : Config} {es : List (Session × Event)} {t : Session}
    (h : (sessionSystem cfg).Trace (fun _ _ => True) es t) :
    RenumberingSafe cfg es t ↔ ∀ e ∈ es, ¬ Rewinds e.1 e.2 := by
  constructor
  · rintro ⟨hcopies, -⟩ e he hrew
    obtain ⟨hreach, -, u, hu⟩ := h.mem e he
    have hcopy : CopyArrives e.1 e.2 := by
      obtain ⟨s, a⟩ := e
      cases a with
      | srecv i stale =>
        obtain ⟨p, c, hp, -, -, hc, hren, -⟩ := hrew
        exact ⟨p, hp, hc, hren⟩
      | _ => exact hrew
    exact hrew.not_keepsPlace (kinds_of_steps hreach) hu (hcopies e he hcopy u hu)
  · intro hno
    have hquiet : (sessionSystem cfg).Trace (fun s a => ¬ Rewinds s a) es t :=
      (h.and hno).mono fun _ _ h => h.2
    have hnodup : ∀ s, Rising s → s.since.Nodup := fun s hs =>
      hs.sorted.imp fun hlt => Nat.ne_of_lt hlt
    refine ⟨fun e he hcopy u hu => ?_, fun e he => ?_, hnodup t (rising_of_reach hquiet.reach)⟩
    · exact keepsPlace_of_not_rewinds hcopy (hno e he) hu
    · exact hnodup e.1 (rising_of_reach (hquiet.mem e he).1)

/-- No `SEQNO` arrives after the client has numbered a call. -/
def noCopies (s : Session) : Event → Bool
  | .srecv i stale => !decide s.Renumbered || (s.c2s[i]?).all fun p =>
      (p.received stale).command != some .seqno
  | _ => true

theorem not_rewinds_of_noCopies (s : Session) (a : Event) (h : noCopies s a = true) :
    ¬ Rewinds s a := by
  cases a with
  | srecv i stale =>
    rintro ⟨p, c, hp, -, -, hc, hren, -⟩
    simp [noCopies, hp, hc, hren] at h
  | _ => exact id

/-- A client that starts at `SEQNO_LIMIT`, its renumbering, and its first query. -/
def renumbered : List Event :=
  connecting ++ [.call [7] 10, .srecv 1 [], .crecv 1 [], .resume 0, .srecv 2 [], .query 10,
    .respond 0 [9]]

theorem renumberingSafe_iff_renumbered :
    ∃ es t, (sessionSystem (hwdbConfig SEQNO_LIMIT)).Trace (fun _ _ => True) es t ∧
      t.Renumbered ∧ t.since = [1] ∧ RenumberingSafe (hwdbConfig SEQNO_LIMIT) es t := by
  obtain ⟨es, t, ht, hp⟩ := System.Trace.of_run (sessionSystem (hwdbConfig SEQNO_LIMIT))
    (fun s a => ¬ Rewinds s a) noCopies renumbered
    (fun t => decide t.Renumbered && t.since == [1])
    not_rewinds_of_noCopies (by decide +kernel) (by decide +kernel)
  simp only [Bool.and_eq_true, decide_eq_true_eq, beq_iff_eq] at hp
  have htrace : (sessionSystem (hwdbConfig SEQNO_LIMIT)).Trace (fun _ _ => True) es t :=
    ht.mono fun _ _ _ => trivial
  exact ⟨es, t, htrace, hp.1, hp.2,
    (renumberingSafe_iff htrace).mpr fun e he => (ht.mem e he).2.1⟩

/-- A second copy of the `SEQNO` discards the response, and the first query is taken again. -/
theorem copy_accepts_query_again :
    ∃ es t, (sessionSystem (hwdbConfig SEQNO_LIMIT)).Trace (fun _ _ => True) es t ∧
      ¬ RenumberingSafe (hwdbConfig SEQNO_LIMIT) es t := by
  obtain ⟨es, t, ht, hp⟩ := System.Trace.of_run (sessionSystem (hwdbConfig SEQNO_LIMIT))
    (fun _ _ => True) (fun _ _ => true) (renumbered ++ [.srecv 1 [], .srecv 2 []])
    (fun t => t.since == [1, 1]) (fun _ _ _ => trivial) (by decide +kernel) (by decide +kernel)
  refine ⟨es, t, ht, fun hsafe => ?_⟩
  have hnodup := hsafe.2.2
  rw [eq_of_beq hp] at hnodup
  simp at hnodup

end Hwdb.Rpc
