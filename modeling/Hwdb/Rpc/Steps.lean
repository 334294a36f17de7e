import Hwdb.Rpc.Session

/-!
# What a step of a session can do

Inversion of every function a `Session` takes its steps with; the invariants of the later
modules are proved from these and never unfold the functions.

* `CallSection`, `ResponseSection` — the critical sections of `rpc_call` and `rpc_response`.
* `Stepped`, `next_stepped` — the steps.
* `Handled.payload`, `Handled.answers` — what the reader makes a record's payload, and what
  it sends.
-/

set_option autoImplicit false

namespace Hwdb.Rpc

open Hwdb.Lib

/-! ## `rpc_call` -/

/-- How a section of `rpc_call` on record `c` that waited for `w` comes to send fragment
`fnum` of `nfrags` under number `n`; `c'` is the record at that point. -/
inductive Continues (q : Bytes) (c : CRecord) :
    Option CallWait → CRecord → Option Nat → Nat → Nat → Nat → Prop where
  | first (hst : c.state = .idle) (hlim : c.seqno < SEQNO_LIMIT) :
      Continues q c none { c with seqno := seqnoSucc c.seqno } (some (seqnoSucc c.seqno))
        (seqnoSucc c.seqno) 1 (nfragsOf q.length)
  | renumbered (hst : c.state = .idle) :
      Continues q c (some .seqno) { c with seqno := seqnoSucc c.seqno }
        (some (seqnoSucc c.seqno)) (seqnoSucc c.seqno) 1 (nfragsOf q.length)
  | next (n fnum nfrags : Nat) (hst : c.state = .fackReceived) :
      Continues q c (some (.frag n fnum nfrags)) c none n (fnum + 1) nfrags

/-- The `SEQNO` message that starts a renumbering. -/
def seqnoPayload (sp : Nat) : Bytes :=
  controlPayload (cpComplete sp .seqno SEQNO_START 1 1)

/-- The sections of `rpc_call` on record `c` that waited for `w`. -/
inductive CallSection (ep sp : Nat) (q : Bytes) (c : CRecord) :
    Option CallWait → CallStep → Prop where
  | refused (hst : c.state ≠ .idle) : CallSection ep sp q c none (.fail c)
  | timedout (w : CallWait) (hw : ∀ n, w ≠ .query n) (hst : c.state = .timedout) :
      CallSection ep sp q c (some w) (.fail c)
  | renumber (hst : c.state = .idle) (hlim : SEQNO_LIMIT ≤ c.seqno) :
      CallSection ep sp q c none
        ⟨crecordSetState (crecordSetPayload { c with seqno := SEQNO_START } (seqnoPayload sp)
            CP_SIZE ATTEMPTS TICKS) .seqnoSent,
          [⟨.record ep, seqnoPayload sp⟩], none, some .seqno, none, none⟩
  | undefined {w : Option CallWait} {c' : CRecord} {number : Option Nat} {n fnum nfrags : Nat}
      (h : Continues q c w c' number n fnum nfrags) :
      CallSection ep sp q c w (.undefined c' .outOfBounds)
  | fragment {w : Option CallWait} {c' : CRecord} {number : Option Nat} {n fnum nfrags : Nat}
      (h : Continues q c w c' number n fnum nfrags) (hlt : fnum < nfrags) {buf : Bytes}
      (hbuf : fragmentPayload sp n q fnum nfrags = some buf) :
      CallSection ep sp q c w
        ⟨crecordSetState (crecordSetPayload { c' with lastFrag := fnum } buf buf.length ATTEMPTS
            TICKS) .fragmentSent,
          [⟨.record ep, buf⟩], number, some (.frag n fnum nfrags), none, none⟩
  | query {w : Option CallWait} {c' : CRecord} {number : Option Nat} {n fnum nfrags : Nat}
      (h : Continues q c w c' number n fnum nfrags) (hge : ¬ fnum < nfrags) {buf : Bytes}
      (hbuf : lastPayload sp .query n q fnum nfrags 65536 = some buf) :
      CallSection ep sp q c w
        ⟨crecordSetState (crecordSetPayload c' buf buf.length ATTEMPTS TICKS) .querySent,
          [⟨.record ep, buf⟩], number, some (.query n), none, none⟩
  | collected (n rsize : Nat) (hst : c.state = .idle ∨ c.state = .timedout) :
      CallSection ep sp q c (some (.query n)) (rpcCallCollect c rsize)

section Call

variable {ep sp : Nat} {q : Bytes} {c : CRecord}

theorem rpcCallSend_section {w : Option CallWait} {c' : CRecord} {number : Option Nat}
    {n fnum nfrags : Nat} (h : Continues q c w c' number n fnum nfrags) :
    CallSection ep sp q c w (rpcCallSend ep sp c' q number n fnum nfrags) := by
  unfold rpcCallSend
  by_cases hlt : fnum < nfrags
  · rw [if_pos hlt]
    cases hbuf : fragmentPayload sp n q fnum nfrags with
    | none => exact .undefined h
    | some buf => exact .fragment h hlt hbuf
  · rw [if_neg hlt]
    cases hbuf : lastPayload sp .query n q fnum nfrags 65536 with
    | none => exact .undefined h
    | some buf => exact .query h hlt hbuf

theorem rpcCallBegin_section (ep sp : Nat) (q : Bytes) (c : CRecord) :
    CallSection ep sp q c none (rpcCallBegin ep sp c q) := by
  unfold rpcCallBegin
  by_cases hst : c.state = .idle
  · rw [if_pos hst]
    by_cases hlim : SEQNO_LIMIT ≤ c.seqno
    · rw [if_pos hlim]
      exact .renumber hst hlim
    · rw [if_neg hlim]
      exact rpcCallSend_section (.first hst (Nat.lt_of_not_le hlim))
  · rw [if_neg hst]
    exact .refused hst

theorem matchedState_pair {st st' : State} (h : matchedState c [st, st'] = true) :
    c.state = st ∨ c.state = st' := by
  simpa [matchedState] using h

theorem rpcCallResume_section {rsize : Nat} {w : CallWait} {st : CallStep}
    (h : rpcCallResume ep sp c q rsize w = some st) : CallSection ep sp q c (some w) st := by
  cases w with
  | seqno =>
    simp only [rpcCallResume] at h
    split at h
    · rename_i hm
      cases h
      by_cases hst : c.state = .timedout
      · rw [if_pos hst]
        exact .timedout _ nofun hst
      · rw [if_neg hst]
        exact rpcCallSend_section (.renumbered ((matchedState_pair hm).resolve_right hst))
    · cases h
  | frag n fnum nfrags =>
    simp only [rpcCallResume] at h
    split at h
    · rename_i hm
      cases h
      by_cases hst : c.state = .timedout
      · rw [if_pos hst]
        exact .timedout _ nofun hst
      · rw [if_neg hst]
        exact rpcCallSend_section
          (.next n fnum nfrags ((matchedState_pair hm).resolve_right hst))
    · cases h
  | query n =>
    simp only [rpcCallResume] at h
    split at h
    · rename_i hm
      cases h
      exact .collected n rsize (matchedState_pair hm)
    · cases h

/-- The last section sends nothing, numbers nothing and waits for nothing. -/
theorem rpcCallCollect_eq (c : CRecord) (rsize : Nat) :
    ∃ result fault, rpcCallCollect c rsize =
      ⟨{ c with resp := none }, [], none, none, result, fault⟩ := by
  unfold rpcCallCollect
  split
  · split
    · exact ⟨_, _, rfl⟩
    · split <;> exact ⟨_, _, rfl⟩
  · exact ⟨_, _, rfl⟩

end Call

/-- What a fragment message starts with. -/
theorem fragmentPayload_shape {sp n fnum nfrags : Nat} {m buf : Bytes}
    (h : fragmentPayload sp n m fnum nfrags = some buf) :
    ∃ rest, buf = message (cpComplete sp .fragment n fnum nfrags) rest := by
  unfold fragmentPayload at h
  dsimp only at h
  split at h
  · cases h
    exact ⟨_, rfl⟩
  · cases h

theorem lastPayload_shape {sp n fnum nfrags cap : Nat} {cmd : Command} {m buf : Bytes}
    (h : lastPayload sp cmd n m fnum nfrags cap = some buf) :
    ∃ rest, buf = message (cpComplete sp cmd n fnum nfrags) rest := by
  unfold lastPayload at h
  dsimp only at h
  split at h
  · cases h
    exact ⟨_, rfl⟩
  · cases h

/-! ## `rpc_response` -/

/-- How a section of `rpc_response` comes to send fragment `fnum` of `nfrags`. -/
inductive Answers (r : Bytes) (c : CRecord) : Option (Nat × Nat) → Nat → Nat → Prop where
  | first (hst : c.state = .qackSent) : Answers r c none 1 (nfragsOf r.length)
  | next (fnum nfrags : Nat) (hst : c.state = .fackReceived) :
      Answers r c (some (fnum, nfrags)) (fnum + 1) nfrags

/-- The sections of `rpc_response` on record `c`. -/
inductive ResponseSection (ep sp : Nat) (r : Bytes) (c : CRecord) :
    Option (Nat × Nat) → ResponseStep → Prop where
  | refused (hst : c.state ≠ .qackSent) : ResponseSection ep sp r c none (.fail c)
  | timedout (w : Nat × Nat) (hst : c.state = .timedout) :
      ResponseSection ep sp r c (some w) (.fail c)
  | undefined {w : Option (Nat × Nat)} {fnum nfrags : Nat} (h : Answers r c w fnum nfrags) :
      ResponseSection ep sp r c w ⟨c, [], none, false, some .outOfBounds⟩
  | fragment {w : Option (Nat × Nat)} {fnum nfrags : Nat} (h : Answers r c w fnum nfrags)
      (hlt : fnum < nfrags) {buf : Bytes}
      (hbuf : fragmentPayload sp c.seqno r fnum nfrags = some buf) :
      ResponseSection ep sp r c w
        ⟨crecordSetState (crecordSetPayload { c with lastFrag := fnum } buf buf.length ATTEMPTS
            TICKS) .fragmentSent, [⟨.record ep, buf⟩], some (fnum, nfrags), false, none⟩
  | response {w : Option (Nat × Nat)} {fnum nfrags : Nat} (h : Answers r c w fnum nfrags)
      (hge : ¬ fnum < nfrags) {buf : Bytes}
      (hbuf : lastPayload sp .response c.seqno r fnum nfrags 2147483648 = some buf) :
      ResponseSection ep sp r c w
        ⟨crecordSetState (crecordSetPayload c buf buf.length ATTEMPTS TICKS) .responseSent,
          [⟨.record c.ep, buf⟩], none, true, none⟩

section Response

variable {ep sp : Nat} {r : Bytes} {c : CRecord}

theorem rpcResponseSend_section {w : Option (Nat × Nat)} {fnum nfrags : Nat}
    (h : Answers r c w fnum nfrags) :
    ResponseSection ep sp r c w (rpcResponseSend ep sp c r fnum nfrags) := by
  unfold rpcResponseSend
  by_cases hlt : fnum < nfrags
  · rw [if_pos hlt]
    cases hbuf : fragmentPayload sp c.seqno r fnum nfrags with
    | none => exact .undefined h
    | some buf => exact .fragment h hlt hbuf
  · rw [if_neg hlt]
    cases hbuf : lastPayload sp .response c.seqno r fnum nfrags 2147483648 with
    | none => exact .undefined h
    | some buf => exact .response h hlt hbuf

theorem rpcResponseBegin_section (ep sp : Nat) (r : Bytes) (c : CRecord) :
    ResponseSection ep sp r c none (rpcResponseBegin ep sp c r) := by
  unfold rpcResponseBegin
  by_cases hst : c.state = .qackSent
  · rw [if_pos hst]
    exact rpcResponseSend_section (.first hst)
  · rw [if_neg hst]
    exact .refused hst

theorem rpcResponseResume_section {fnum nfrags : Nat} {st : ResponseStep}
    (h : rpcResponseResume ep sp c r fnum nfrags = some st) :
    ResponseSection ep sp r c (some (fnum, nfrags)) st := by
  unfold rpcResponseResume at h
  split at h
  · rename_i hm
    cases h
    by_cases hst : c.state = .timedout
    · rw [if_pos hst]
      exact .timedout _ hst
    · rw [if_neg hst]
      exact rpcResponseSend_section (.next fnum nfrags ((matchedState_pair hm).resolve_right hst))
  · cases h

end Response

/-! ## The steps -/

/-- The steps of a session. -/
inductive Stepped (cfg : Config) (s : Session) : Event → Session → Prop where
  | connect (hcf : s.cfault = none) (ho : s.opened = false) :
      Stepped cfg s .connect (s.clientConnect cfg)
  | cdead {a : Event} (hcf : s.cfault = none) (hc : s.ccr = none) {ws : List Thread}
      (hws : ws.Sublist s.waiting) :
      Stepped cfg s a { s with waiting := ws, cfault := some .useAfterFree }
  | call (q : Bytes) (rsize : Nat) {c : CRecord} (hcf : s.cfault = none)
      (hh : s.handle = true) (hc : s.ccr = some c) :
      Stepped cfg s (.call q rsize)
        (s.clientSection 0 q rsize (rpcCallBegin 0 cfg.subport c q))
  | disconnect {c : CRecord} (hcf : s.cfault = none) (hh : s.handle = true)
      (hc : s.ccr = some c) : Stepped cfg s .disconnect (s.clientDisconnect cfg c)
  | connected {i : Nat} {c : CRecord} (hcf : s.cfault = none)
      (hi : s.waiting[i]? = some .connect) (hc : s.ccr = some c) (hst : c.state = .idle) :
      Stepped cfg s (.resume i)
        { s with waiting := s.waiting.eraseIdx i, handle := true }
  | refused {i : Nat} {c : CRecord} (hcf : s.cfault = none)
      (hi : s.waiting[i]? = some .connect) (hc : s.ccr = some c) (hst : c.state = .timedout) :
      Stepped cfg s (.resume i) { s with waiting := s.waiting.eraseIdx i, ccr := none }
  | resumed {i v : Nat} {q : Bytes} {rsize : Nat} {w : CallWait} {c : CRecord} {st : CallStep}
      (hcf : s.cfault = none) (hi : s.waiting[i]? = some (.call v q rsize w))
      (hc : s.ccr = some c) (hst : rpcCallResume 0 cfg.subport c q rsize w = some st) :
      Stepped cfg s (.resume i)
        { { s with waiting := s.waiting.eraseIdx i }.clientSection v q rsize st with
          returns := s.returns ++ Session.returnsOf v w st
          unread := if s.unread = some v then none else s.unread }
  | disconnected {i : Nat} {c : CRecord} (hcf : s.cfault = none)
      (hi : s.waiting[i]? = some .disconnect) (hc : s.ccr = some c)
      (hst : c.state = .timedout) :
      Stepped cfg s (.resume i) { s with waiting := s.waiting.eraseIdx i }
  | crecv {i : Nat} {stale : Bytes} {p : Packet} (hcf : s.cfault = none)
      (hp : s.s2c[i]? = some p) :
      Stepped cfg s (.crecv i stale) (s.clientRecv i (p.received stale))
  | ctick {c : CRecord} (hcf : s.cfault = none) (hc : s.ccr = some c) :
      Stepped cfg s .ctick (s.clientTick cfg c)
  | srecv {i : Nat} {stale : Bytes} {p : Packet} (hsf : s.sfault = none)
      (hp : s.c2s[i]? = some p) :
      Stepped cfg s (.srecv i stale) (s.serverRecv cfg i p.call (p.received stale))
  | stick {c : CRecord} (hsf : s.sfault = none) (hc : s.scr = some c) :
      Stepped cfg s .stick (s.serverTick cfg c)
  | query {e : Element} {queue : List Element} (len : Nat) (hsf : s.sfault = none)
      (hq : s.queue = e :: queue) : Stepped cfg s (.query len) (s.serverQuery e queue len)
  | respondNone {i : Nat} {e : Element} (rb : Bytes) (hsf : s.sfault = none)
      (hi : s.held[i]? = some e) (hc : s.scr = none) :
      Stepped cfg s (.respond i rb) { s with held := s.held.eraseIdx i }
  | respond {i : Nat} {e : Element} (rb : Bytes) {c : CRecord} (hsf : s.sfault = none)
      (hi : s.held[i]? = some e) (hc : s.scr = some c) :
      Stepped cfg s (.respond i rb)
        { { s with held := s.held.eraseIdx i }.serverSection e rb
            (rpcResponseBegin 0 cfg.subport c rb) with
          responses := s.responses ++
            if (rpcResponseBegin 0 cfg.subport c rb).sent ≠ [] then [⟨e.call, e.number, rb⟩]
            else [] }
  | sdead {i : Nat} {w : Responding} (hsf : s.sfault = none)
      (hi : s.responding[i]? = some w) (hc : s.scr = none ∨ w.record ≠ s.born) :
      Stepped cfg s (.wresume i)
        { s with responding := s.responding.eraseIdx i, sfault := some .useAfterFree }
  | wresumed {i : Nat} {w : Responding} {c : CRecord} {st : ResponseStep}
      (hsf : s.sfault = none) (hi : s.responding[i]? = some w) (hc : s.scr = some c)
      (hw : w.record = s.born)
      (hst : rpcResponseResume 0 cfg.subport c w.rb w.fnum w.nfrags = some st) :
      Stepped cfg s (.wresume i)
        ({ s with responding := s.responding.eraseIdx i }.serverSection w.element w.rb st)

section Stepping

variable {cfg : Config} {s t : Session} {a : Event}

theorem clientNext_stepped (hcf : s.cfault = none) (h : s.clientNext cfg a = some t) :
    Stepped cfg s a t := by
  cases a with
  | connect =>
    simp only [Session.clientNext] at h
    split at h
    · cases h
    · rename_i ho
      cases h
      exact .connect hcf (by simpa using ho)
  | call q rsize =>
    simp only [Session.clientNext] at h
    split at h
    · rename_i hh
      split at h
      · rename_i hc
        cases h
        exact .cdead hcf hc (.refl _)
      · rename_i c hc
        cases h
        exact .call q rsize hcf hh hc
    · cases h
  | disconnect =>
    simp only [Session.clientNext] at h
    split at h
    · rename_i hh
      split at h
      · rename_i hc
        cases h
        exact .cdead hcf hc (.refl _)
      · rename_i c hc
        cases h
        exact .disconnect hcf hh hc
    · cases h
  | resume i =>
    simp only [Session.clientNext] at h
    split at h
    · cases h
    · rename_i th hi
      simp only [Session.clientResume] at h
      split at h
      · rename_i hc
        cases h
        exact .cdead hcf hc (List.eraseIdx_sublist ..)
      · rename_i c hc
        cases th with
        | connect =>
          dsimp only at h
          split at h
          · rename_i hm
            by_cases hst : c.state = .timedout
            · rw [if_pos hst] at h
              cases h
              exact .refused hcf hi hc hst
            · rw [if_neg hst] at h
              cases h
              exact .connected hcf hi hc ((matchedState_pair hm).resolve_right hst)
          · cases h
        | call v q rsize w =>
          obtain ⟨st, hst, rfl⟩ := Option.map_eq_some_iff.mp h
          exact .resumed hcf hi hc hst
        | disconnect =>
          dsimp only at h
          split at h
          · rename_i hm
            cases h
            exact .disconnected hcf hi hc (by simpa [matchedState] using hm)
          · cases h
  | crecv i stale =>
    obtain ⟨p, hp, rfl⟩ := Option.map_eq_some_iff.mp h
    exact .crecv hcf hp
  | ctick =>
    obtain ⟨c, hc, rfl⟩ := Option.map_eq_some_iff.mp h
    exact .ctick hcf hc
  | _ => cases h

theorem serverNext_stepped (hsf : s.sfault = none) (h : s.serverNext cfg a = some t) :
    Stepped cfg s a t := by
  cases a with
  | srecv i stale =>
    obtain ⟨p, hp, rfl⟩ := Option.map_eq_some_iff.mp h
    exact .srecv hsf hp
  | stick =>
    obtain ⟨c, hc, rfl⟩ := Option.map_eq_some_iff.mp h
    exact .stick hsf hc
  | query len =>
    simp only [Session.serverNext] at h
    split at h
    · cases h
    · rename_i e queue hq
      cases h
      exact .query len hsf hq
  | respond i rb =>
    obtain ⟨e, hi, rfl⟩ := Option.map_eq_some_iff.mp h
    unfold Session.serverRespond
    split
    · rename_i hc
      exact .respondNone rb hsf hi hc
    · rename_i c hc
      exact .respond rb hsf hi hc
  | wresume i =>
    simp only [Session.serverNext] at h
    split at h
    · cases h
    · rename_i w hi
      simp only [Session.serverResume] at h
      split at h
      · rename_i hc
        cases h
        exact .sdead hsf hi (.inl hc)
      · rename_i c hc
        by_cases hw : w.record = s.born
        · rw [if_neg (fun hne => hne hw)] at h
          obtain ⟨st, hst, rfl⟩ := Option.map_eq_some_iff.mp h
          exact .wresumed hsf hi hc hw hst
        · rw [if_pos hw] at h
          cases h
          exact .sdead hsf hi (.inr hw)
  | _ => cases h

theorem next_srecv {i : Nat} {stale : Bytes} (h : Session.next cfg s (.srecv i stale) = some t) :
    ∃ p, s.c2s[i]? = some p ∧ t = s.serverRecv cfg i p.call (p.received stale) := by
  have hserver : s.serverNext cfg (.srecv i stale) = some t := by
    unfold Session.next at h
    simp only [Session.clientNext] at h
    split at h <;> split at h <;> first
      | exact h
      | cases h
  obtain ⟨p, hp, rfl⟩ := Option.map_eq_some_iff.mp hserver
  exact ⟨p, hp, rfl⟩

/-- **Step inversion.** -/
theorem next_stepped (h : Session.next cfg s a = some t) : Stepped cfg s a t := by
  unfold Session.next at h
  split at h
  · rename_i hcf
    split at h
    · rename_i u hu
      cases h
      exact clientNext_stepped (Option.isNone_iff_eq_none.mp hcf) hu
    · split at h
      · rename_i hsf
        exact serverNext_stepped (Option.isNone_iff_eq_none.mp hsf) h
      · cases h
  · split at h
    · rename_i hsf
      exact serverNext_stepped (Option.isNone_iff_eq_none.mp hsf) h
    · cases h

end Stepping

end Hwdb.Rpc
