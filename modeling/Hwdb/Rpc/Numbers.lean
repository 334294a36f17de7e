import Hwdb.Rpc.Sends

/-!
# The numbers of a connection below `SEQNO_LIMIT`

While no call starts at `SEQNO_LIMIT` the client's record counts the calls from the number of
`rpc_connect` on, and no datagram and no server's record is ahead of it.

* `Below` — the record of a client that may still go on counting.
* `Numbers` — the invariant; `FromClient` and `FromServer` say what it knows of a datagram.
* `Carries` — a datagram of a query is a piece of it, when its length can be sent.
* `numbers_of_reach` — every run below the limit keeps the invariant.
-/

set_option autoImplicit false

namespace Hwdb.Rpc

open Hwdb.Lib

/-- The client's sequence number is below `SEQNO_LIMIT`. -/
def Below (s : Session) : Prop := ∀ c, s.ccr = some c → c.seqno < SEQNO_LIMIT

/-- The client makes one call at a time and does not disconnect. -/
def SingleThread (s : Session) : Event → Prop
  | .call .. => s.waiting = []
  | .disconnect => False
  | _ => True

instance (s : Session) (a : Event) : Decidable (SingleThread s a) :=
  match a with
  | .call .. => inferInstanceAs (Decidable (s.waiting = []))
  | .disconnect => inferInstanceAs (Decidable False)
  | .connect | .resume _ | .crecv .. | .ctick | .srecv .. | .stick | .query _ | .respond ..
  | .wresume _ => inferInstanceAs (Decidable True)

/-- The number of the last call, or of `rpc_connect` before the first one. -/
def Session.last (cfg : Config) (s : Session) : Nat := cfg.seqno + s.calls.length

/-- The bytes are a piece of `m` sent under `cmd`. -/
def Carries (sp : Nat) (cmd : Command) (n : Nat) (m : Bytes) (b : Bytes) : Prop :=
  ∃ k, 1 ≤ k ∧ k ≤ pieces m ∧ b = pieceMessage sp cmd n m k

/-- What a datagram of the client says about the calls. -/
structure FromClient (cfg : Config) (s : Session) (p : Packet) : Prop where
  le : p.seqno ≤ s.last cfg
  noSeqno : p.command ≠ some .seqno
  connect : p.command = some .connect → p.seqno = cfg.seqno
  query : p.command = some .query ∨ p.command = some .fragment → ∃ call ∈ s.calls,
    p.seqno = call.number ∧
      (Sendable call.query → Carries cfg.subport .query call.number call.query p.bytes)

/-- What a datagram of the server says about the calls. -/
structure FromServer (cfg : Config) (s : Session) (p : Packet) : Prop where
  le : p.seqno ≤ s.last cfg
  noSack : p.command ≠ some .sack
  cack : p.command = some .cack → p.seqno = cfg.seqno

/-- What a thread waits for belongs to a call that has been numbered. -/
def WaitsFor (s : Session) (q : Bytes) : CallWait → Prop
  | .seqno => False
  | .frag n k nf => ⟨n, q⟩ ∈ s.calls ∧ nf = nfragsOf q.length ∧ 1 ≤ k ∧ k < nf
  | .query n => ⟨n, q⟩ ∈ s.calls

/-- The numbers of a run below the limit. -/
structure Numbers (cfg : Config) (s : Session) : Prop where
  limit : s.last cfg ≤ SEQNO_LIMIT
  calls : ∀ i call, s.calls[i]? = some call → call.number = cfg.seqno + 1 + i
  client : s.cfault = none → ∀ c, s.ccr = some c → c.seqno = s.last cfg
  waiting : ∀ v q rsize w, Thread.call v q rsize w ∈ s.waiting → WaitsFor s q w
  server : ∀ c, s.scr = some c → c.seqno ≤ s.last cfg
  c2s : ∀ p ∈ s.c2s, FromClient cfg s p
  s2c : ∀ p ∈ s.s2c, FromServer cfg s p
  unopened : s.opened = false → s.ccr = none ∧ s.calls = []

/-! ## More calls -/

section Mono

variable {cfg : Config} {s t : Session} {p : Packet} {q : Bytes} {w : CallWait}

theorem last_mono (hle : s.calls <+: t.calls) : s.last cfg ≤ t.last cfg :=
  Nat.add_le_add_left hle.length_le _

theorem FromClient.mono (h : FromClient cfg s p) (hle : s.calls <+: t.calls) :
    FromClient cfg t p := by
  refine ⟨Nat.le_trans h.le (last_mono hle), h.noSeqno, h.connect, fun hc => ?_⟩
  obtain ⟨call, hmem, hcall⟩ := h.query hc
  exact ⟨call, hle.subset hmem, hcall⟩

theorem FromServer.mono (h : FromServer cfg s p) (hle : s.calls <+: t.calls) :
    FromServer cfg t p :=
  ⟨Nat.le_trans h.le (last_mono hle), h.noSack, h.cack⟩

theorem WaitsFor.mono (h : WaitsFor s q w) (hle : s.calls <+: t.calls) : WaitsFor t q w := by
  cases w with
  | seqno => exact h
  | frag => exact ⟨hle.subset h.1, h.2⟩
  | query => exact hle.subset h

theorem number_le_last {call : Call}
    (h : ∀ i call, s.calls[i]? = some call → call.number = cfg.seqno + 1 + i)
    (hc : call ∈ s.calls) : call.number ≤ s.last cfg := by
  obtain ⟨i, hi⟩ := List.getElem?_of_mem hc
  have hlt := (List.getElem?_eq_some_iff.mp hi).1
  have hn := h i call hi
  simp only [Session.last]
  omega

/-- A number belongs to one call. -/
theorem Numbers.call_unique (h : Numbers cfg s) {x y : Call} (hx : x ∈ s.calls)
    (hy : y ∈ s.calls) (hn : x.number = y.number) : x = y := by
  obtain ⟨i, hi⟩ := List.getElem?_of_mem hx
  obtain ⟨j, hj⟩ := List.getElem?_of_mem hy
  have hnx := h.calls i x hi
  have hny := h.calls j y hj
  obtain rfl : i = j := by omega
  rw [hi] at hj
  exact Option.some.inj hj

/-- The numbers of the calls lie above the one of `rpc_connect`. -/
theorem Numbers.call_bounds (h : Numbers cfg s) {x : Call} (hx : x ∈ s.calls) :
    cfg.seqno < x.number ∧ x.number ≤ s.last cfg := by
  refine ⟨?_, number_le_last h.calls hx⟩
  obtain ⟨i, hi⟩ := List.getElem?_of_mem hx
  have hn := h.calls i x hi
  omega

end Mono

/-! ## Messages -/

section Messages

variable {cfg : Config} {s t : Session} {v : Nat}

/-- A number below the limit arrives as it was sent. -/
theorem message_seqno {sp n fnum nfrags : Nat} {cmd : Command} {rest : Bytes}
    (hn : n ≤ SEQNO_LIMIT) :
    (⟨message (cpComplete sp cmd n fnum nfrags) rest, v⟩ : Packet).seqno = n := by
  rw [message_packet_seqno]
  refine Nat.mod_eq_of_lt ?_
  show n < 4294967296
  simp only [SEQNO_LIMIT] at hn
  omega

/-- A message of the client that carries no query and no `CONNECT`. -/
theorem fromClient_control {sp n fnum nfrags : Nat} {cmd : Command} {rest : Bytes}
    (hlim : s.last cfg ≤ SEQNO_LIMIT) (hn : n ≤ s.last cfg)
    (hcmd : cmd ∉ [.seqno, .connect, .query, .fragment]) :
    FromClient cfg s ⟨message (cpComplete sp cmd n fnum nfrags) rest, v⟩ := by
  have hc : (⟨message (cpComplete sp cmd n fnum nfrags) rest, v⟩ : Packet).command = some cmd :=
    message_packet_command ..
  refine ⟨?_, fun h => ?_, fun h => ?_, fun h => ?_⟩
  · rw [message_seqno (Nat.le_trans hn hlim)]
    exact hn
  all_goals
    rw [hc] at h
    simp_all

theorem fromServer_message {sp n fnum nfrags : Nat} {cmd : Command} {rest : Bytes}
    (hlim : s.last cfg ≤ SEQNO_LIMIT) (hn : n ≤ s.last cfg) (hsack : cmd ≠ .sack)
    (hcack : cmd = .cack → n = cfg.seqno) :
    FromServer cfg s ⟨message (cpComplete sp cmd n fnum nfrags) rest, v⟩ := by
  have hc : (⟨message (cpComplete sp cmd n fnum nfrags) rest, v⟩ : Packet).command = some cmd :=
    message_packet_command ..
  have hseqno : (⟨message (cpComplete sp cmd n fnum nfrags) rest, v⟩ : Packet).seqno = n :=
    message_seqno (Nat.le_trans hn hlim)
  refine ⟨?_, fun h => ?_, fun h => ?_⟩
  · rw [hseqno]
    exact hn
  · rw [hc] at h
    exact hsack (Option.some.inj h)
  · rw [hc] at h
    rw [hseqno]
    exact hcack (Option.some.inj h)

/-- The messages that carry a query. -/
theorem fromClient_query {n fnum nfrags : Nat} {cmd : Command} {rest q : Bytes}
    (hlim : t.last cfg ≤ SEQNO_LIMIT) (hn : n ≤ t.last cfg) (hcall : ⟨n, q⟩ ∈ t.calls)
    (hcmd : cmd = .query ∨ cmd = .fragment)
    (hq : Sendable q → Carries cfg.subport .query n q
      (message (cpComplete cfg.subport cmd n fnum nfrags) rest)) :
    FromClient cfg t ⟨message (cpComplete cfg.subport cmd n fnum nfrags) rest, v⟩ := by
  have hc : (⟨message (cpComplete cfg.subport cmd n fnum nfrags) rest, v⟩ : Packet).command =
      some cmd := message_packet_command ..
  have hseqno : (⟨message (cpComplete cfg.subport cmd n fnum nfrags) rest, v⟩ : Packet).seqno =
      n := message_seqno (Nat.le_trans hn hlim)
  refine ⟨?_, fun h => ?_, fun h => ?_, fun _ => ⟨⟨n, q⟩, hcall, hseqno, hq⟩⟩
  · rw [hseqno]
    exact hn
  all_goals
    rw [hc] at h
    rcases hcmd with rfl | rfl <;> cases h

end Messages

/-! ## Sections of `rpc_call` -/

section Sections

variable {cfg : Config} {s t : Session} {q : Bytes} {c c' : CRecord} {w : Option CallWait}
  {number : Option Nat} {n k nf : Nat} {st : CallStep}

/-- The calls after a section. -/
def callsAfter (s : Session) (q : Bytes) (number : Option Nat) : List Call :=
  s.calls ++ (number.map fun n => ⟨n, q⟩).toList

/-- What a section that goes on to fragment `k` of `nf` under `n` knows. -/
structure Continued (cfg : Config) (s : Session) (q : Bytes) (c' : CRecord)
    (number : Option Nat) (n k nf : Nat) : Prop where
  call : ⟨n, q⟩ ∈ callsAfter s q number
  numbered : ∀ m, number = some m → m = s.last cfg + 1
  record : c'.seqno = s.last cfg + number.toList.length
  first : 1 ≤ k
  nfrags : nf = nfragsOf q.length
  le : Sendable q → k ≤ nf

theorem seqnoSucc_below (h : c.seqno < SEQNO_LIMIT) : seqnoSucc c.seqno = c.seqno + 1 := by
  refine Nat.mod_eq_of_lt ?_
  simp only [SEQNO_LIMIT] at h
  omega

theorem Continues.continued (h : Continues q c w c' number n k nf)
    (hlt : c.seqno < SEQNO_LIMIT) (hc : c.seqno = s.last cfg)
    (hw : ∀ w', w = some w' → WaitsFor s q w') : Continued cfg s q c' number n k nf := by
  have hsucc := seqnoSucc_below hlt
  cases h with
  | first hst =>
    refine ⟨List.mem_append_right _ (List.mem_singleton.mpr rfl), fun m hm => ?_, ?_,
      Nat.le_refl 1, rfl, fun hq => ?_⟩
    · rw [← Option.some.inj hm, hsucc, hc]
    · show seqnoSucc c.seqno = s.last cfg + 1
      rw [hsucc, hc]
    · rw [nfragsOf_eq hq.1 hq.2]
      exact pieceCount_pos FR_SIZE q
  | renumbered hst => exact absurd (hw _ rfl) id
  | next _ j _ hst =>
    obtain ⟨hcall, hnf, -, hj⟩ := hw _ rfl
    exact ⟨List.mem_append_left _ hcall, fun m hm => (by cases hm), hc, Nat.le_add_left 1 j,
      hnf, fun _ => hj⟩

/-- A section numbers at most one call, by the next number. -/
theorem CallSection.numbered (h : CallSection 0 cfg.subport q c w st)
    (hlt : c.seqno < SEQNO_LIMIT) (hc : c.seqno = s.last cfg)
    (hw : ∀ w', w = some w' → WaitsFor s q w') {m : Nat} (hm : st.number = some m) :
    m = s.last cfg + 1 := by
  cases h with
  | refused => cases hm
  | timedout => cases hm
  | renumber => cases hm
  | undefined => cases hm
  | fragment hk => exact (hk.continued hlt hc hw).numbered m hm
  | query hk => exact (hk.continued hlt hc hw).numbered m hm
  | collected m rsize =>
    obtain ⟨result, fault, he⟩ := rpcCallCollect_eq c rsize
    rw [he] at hm
    cases hm

/-- The numbers of the calls after a section. -/
theorem Numbers.calls_after (h : Numbers cfg s) (ht : t.calls = callsAfter s q number)
    (hnum : ∀ m, number = some m → m = s.last cfg + 1) :
    ∀ i call, t.calls[i]? = some call → call.number = cfg.seqno + 1 + i := by
  intro i call hi
  rw [ht, callsAfter] at hi
  rcases Nat.lt_or_ge i s.calls.length with hlt | hge
  · rw [List.getElem?_append_left hlt] at hi
    exact h.calls i call hi
  · rw [List.getElem?_append_right hge] at hi
    cases number with
    | none => cases hi
    | some m =>
      obtain ⟨hone, rfl⟩ := List.getElem?_eq_some_iff.mp hi
      have hm := hnum m rfl
      have hone : i - s.calls.length < 1 := hone
      have hlast : i = s.calls.length := by omega
      simp only [Option.map_some, Option.toList_some, List.getElem_singleton, hm, Session.last]
      omega

/-- The calls after a section are numbered up to the record's number. -/
theorem Continued.last (h : Continued cfg s q c' number n k nf)
    (ht : t.calls = callsAfter s q number) : t.last cfg = c'.seqno := by
  rw [h.record, Session.last, ht, callsAfter, List.length_append, Session.last]
  cases number with
  | none => rfl
  | some m =>
    simp only [Option.map_some, Option.toList_some, List.length_singleton]
    omega

/-- What a section does below the limit. -/
structure SectionDone (cfg : Config) (t : Session) (q : Bytes) (st : CallStep) : Prop where
  limit : t.last cfg ≤ SEQNO_LIMIT
  calls : ∀ i call, t.calls[i]? = some call → call.number = cfg.seqno + 1 + i
  record : st.fault = none → st.cr.seqno = t.last cfg
  sent : ∀ x ∈ st.sent, ∀ v, FromClient cfg t ⟨x.bytes, v⟩
  wait : ∀ w', st.wait = some w' → WaitsFor t q w'

/-- A section that leaves the number and sends nothing. -/
theorem Numbers.section_quiet (h : Numbers cfg s) (ht : t.calls = callsAfter s q st.number)
    (hnumber : st.number = none) (hc : st.cr.seqno = s.last cfg) (hsent : st.sent = [])
    (hwait : st.wait = none) : SectionDone cfg t q st := by
  rw [hnumber, callsAfter, Option.map_none, Option.toList_none, List.append_nil] at ht
  have hlast : t.last cfg = s.last cfg := by rw [Session.last, Session.last, ht]
  refine ⟨hlast ▸ h.limit, ht ▸ h.calls, fun _ => hc.trans hlast.symm, fun x hx => ?_,
    fun w' hw' => ?_⟩
  · rw [hsent] at hx
    cases hx
  · rw [hwait] at hw'
    cases hw'

theorem last_after (ht : t.calls = callsAfter s q number) : t.last cfg ≤ s.last cfg + 1 := by
  rw [Session.last, Session.last, ht, callsAfter, List.length_append]
  cases number with
  | none => exact Nat.le_succ _
  | some m => exact Nat.le_refl _

/-- **A section of `rpc_call` below the limit.** -/
theorem Numbers.section (h : Numbers cfg s) (hcf : s.cfault = none) (hc : s.ccr = some c)
    (hlt : c.seqno < SEQNO_LIMIT) (hw : ∀ w', w = some w' → WaitsFor s q w')
    (hst : CallSection 0 cfg.subport q c w st) (ht : t.calls = callsAfter s q st.number) :
    SectionDone cfg t q st := by
  have hlast := h.client hcf c hc
  have hnum := h.calls_after ht fun m => hst.numbered hlt hlast hw
  have hlim : t.last cfg ≤ SEQNO_LIMIT := by
    have hle : t.last cfg ≤ s.last cfg + 1 := last_after ht
    omega
  cases hst with
  | refused => exact h.section_quiet ht rfl hlast rfl rfl
  | timedout => exact h.section_quiet ht rfl hlast rfl rfl
  | renumber _ hge => exact absurd hlt (Nat.not_lt.mpr hge)
  | undefined hk =>
    refine ⟨hlim, hnum, fun hf => (by cases hf), fun x hx => ?_, fun w' hw' => ?_⟩
    · cases hx
    · cases hw'
  | collected m rsize =>
    obtain ⟨result, fault, he⟩ := rpcCallCollect_eq c rsize
    rw [he] at ht ⊢
    exact h.section_quiet ht rfl hlast rfl rfl
  | @fragment _ _ _ n k nf hk hkn buf hbuf =>
    have hcont := hk.continued hlt hlast hw
    have hcall : ⟨n, q⟩ ∈ t.calls := ht ▸ hcont.call
    refine ⟨hlim, hnum, fun _ => (hcont.last ht).symm, fun x hx v => ?_, fun w' hw' => ?_⟩
    · rw [List.mem_singleton.mp hx]
      obtain ⟨rest, hshape⟩ := fragmentPayload_shape hbuf
      have hpiece : Sendable q → Carries cfg.subport .query n q buf := fun hq => by
        have hnf : nf = pieces q := hcont.nfrags.trans (nfragsOf_eq hq.1 hq.2)
        rw [hnf] at hkn hbuf
        have hp : _ = some (pieceMessage cfg.subport .query n q k) :=
          fragmentPayload_piece hcont.first hkn
        rw [hbuf] at hp
        exact ⟨k, hcont.first, Nat.le_of_lt hkn, Option.some.inj hp⟩
      subst hshape
      exact fromClient_query hlim (number_le_last hnum hcall) hcall (.inr rfl) hpiece
    · cases hw'
      exact ⟨hcall, hcont.nfrags, hcont.first, hkn⟩
  | @query _ _ _ n k nf hk hkn buf hbuf =>
    have hcont := hk.continued hlt hlast hw
    have hcall : ⟨n, q⟩ ∈ t.calls := ht ▸ hcont.call
    refine ⟨hlim, hnum, fun _ => (hcont.last ht).symm, fun x hx v => ?_, fun w' hw' => ?_⟩
    · rw [List.mem_singleton.mp hx]
      obtain ⟨rest, hshape⟩ := lastPayload_shape hbuf
      have hpiece : Sendable q → Carries cfg.subport .query n q buf := fun hq => by
        have hnf : nf = pieces q := hcont.nfrags.trans (nfragsOf_eq hq.1 hq.2)
        have hkle := hcont.le hq
        obtain rfl : k = nf := by omega
        subst hnf
        have hp : lastPayload cfg.subport .query n q (pieces q) (pieces q) 65536 = _ :=
          lastPayload_piece hq (by decide)
        rw [hbuf] at hp
        exact ⟨pieces q, hcont.first, Nat.le_refl _, Option.some.inj hp⟩
      subst hshape
      exact fromClient_query hlim (number_le_last hnum hcall) hcall (.inl rfl) hpiece
    · cases hw'
      exact hcall

theorem ResponseSection.fromServer {ep v : Nat} {r : Bytes} {w : Option (Nat × Nat)}
    {st : ResponseStep} (h : ResponseSection ep cfg.subport r c w st)
    (hlim : s.last cfg ≤ SEQNO_LIMIT) (hn : c.seqno ≤ s.last cfg) {x : Sent} (hx : x ∈ st.sent) :
    FromServer cfg s ⟨x.bytes, v⟩ := by
  cases h with
  | refused => cases hx
  | timedout => cases hx
  | undefined => cases hx
  | fragment _ _ hbuf =>
    rw [List.mem_singleton.mp hx]
    obtain ⟨rest, hshape⟩ := fragmentPayload_shape hbuf
    subst hshape
    exact fromServer_message hlim hn (by decide) (fun hc => by cases hc)
  | response _ _ hbuf =>
    rw [List.mem_singleton.mp hx]
    obtain ⟨rest, hshape⟩ := lastPayload_shape hbuf
    subst hshape
    exact fromServer_message hlim hn (by decide) (fun hc => by cases hc)

end Sections

/-! ## The readers -/

section Readers

variable {stable : Bytes → Option Nat} {nep : Nat} {d : Received} {cr : Option CRecord}
  {out : Outcome} {c' : CRecord}

/-- Only a first fragment under the next number changes the number of a client's record. -/
theorem Receives.seqno_kept (h : Receives d cr out)
    (hno : ∀ c, cr = some c → ¬ seqnoNext d.seqno c.seqno) (hc : out.cr = some c') :
    ∃ c, cr = some c ∧ c'.seqno = c.seqno := by
  cases h with
  | kept => exact ⟨c', hc, rfl⟩
  | failed => exact ⟨c', hc, rfl⟩
  | fragmentFirst c p _ hst =>
    cases hc
    rcases hst with ⟨-, hn⟩ | ⟨-, hn⟩
    · exact absurd hn (hno c rfl)
    · exact ⟨c, rfl, hn⟩
  | ping => cases hc; exact ⟨_, rfl, rfl⟩
  | _ => cases hc; exact ⟨_, rfl, rfl⟩

/-- A server's record has the number that it had, or the number of the datagram. -/
theorem Serves.seqno_from (h : Serves stable nep d cr out) (hc : out.cr = some c') :
    c'.seqno = d.seqno ∨ ∃ c, cr = some c ∧ c'.seqno = c.seqno := by
  cases h with
  | kept => exact .inr ⟨c', hc, rfl⟩
  | failed => exact .inr ⟨c', hc, rfl⟩
  | created => cases hc; exact .inl rfl
  | queryWhole => cases hc; exact .inl rfl
  | fragmentFirst => cases hc; exact .inl rfl
  | seqno => cases hc; exact .inl rfl
  | disconnect =>
    obtain ⟨c, rfl, rfl⟩ := Option.map_eq_some_iff.mp hc
    exact .inr ⟨c, rfl, rfl⟩
  | _ => cases hc; exact .inr ⟨_, rfl, rfl⟩

end Readers

/-! ## Steps -/

section Step

variable {cfg : Config} {s t : Session} {a : Event} {p : Packet}

theorem Stepped.calls (h : Stepped cfg s a t) : s.calls <+: t.calls := by
  cases h with
  | call => exact List.prefix_append _ _
  | resumed => exact List.prefix_append _ _
  | _ => exact List.prefix_rfl

theorem answer_not_query {cmd ack : Command} (h : answerTo cmd = some ack) :
    ack ∉ [Command.seqno, .connect, .query, .fragment] := by
  cases cmd <;> cases h <;> decide

theorem answerTo_cack {cmd : Command} (h : answerTo cmd = some .cack) : cmd = .connect := by
  cases cmd <;> first
    | rfl
    | cases h

theorem answerTo_sack {cmd : Command} (h : answerTo cmd = some .sack) : cmd = .seqno := by
  cases cmd <;> first
    | rfl
    | cases h

theorem ClientSends.fromClient (h : Numbers cfg s) (hk : Kinds s) (hb : Below s)
    (hle : s.calls <+: t.calls) (hp : ClientSends cfg s t p) : FromClient cfg t p := by
  cases hp with
  | connect =>
    have hn : cfg.seqno ≤ s.last cfg := Nat.le_add_right _ _
    have hseqno : (⟨connectPayload (cpComplete cfg.subport .connect cfg.seqno 1 1)
        (cstr cfg.svcName), s.calls.length⟩ : Packet).seqno = cfg.seqno :=
      message_seqno (Nat.le_trans hn h.limit)
    refine FromClient.mono ⟨?_, fun hc => ?_, fun _ => hseqno, fun hc => ?_⟩ hle
    · rw [hseqno]
      exact hn
    · rw [message_packet_command] at hc
      cases hc
    · rw [message_packet_command] at hc
      rcases hc with hc | hc <;> cases hc
  | disconnect hcf hc =>
    exact (fromClient_control h.limit (Nat.le_of_eq (h.client hcf _ hc)) (by decide)).mono hle
  | @call c q w st x hcf hc hw hst hcalls hx =>
    refine (h.section hcf hc (hb c hc) (fun w' hw' => ?_) hst hcalls).sent x hx _
    obtain ⟨v, rsize, hmem⟩ := hw w' hw'
    exact h.waiting v q rsize w' hmem
  | @answer d b stale hd hb =>
    obtain ⟨cmd, ack, fnum, nfrags, hcmd, hack, rfl⟩ := hb
    have hn : (d.received stale).seqno ≤ s.last cfg := by
      rw [(received_whole (p := d) (hk.server d hd).whole stale).2.1]
      exact (h.s2c d hd).le
    exact (fromClient_control h.limit hn (answer_not_query hack)).mono hle
  | ping hcf hc =>
    exact (fromClient_control h.limit (Nat.le_of_eq (h.client hcf _ hc)) (by decide)).mono hle

theorem ServerSends.fromServer (h : Numbers cfg s) (hk : Kinds s) (hle : s.calls <+: t.calls)
    (hp : ServerSends cfg s t a p) : FromServer cfg t p := by
  cases hp with
  | @answer i stale b d hd hb =>
    have hd := List.mem_of_getElem? hd
    obtain ⟨cmd, ack, fnum, nfrags, hcmd, hack, rfl⟩ := hb
    have hwhole := received_whole (p := d) (hk.client d hd).whole stale
    have hin := h.c2s d hd
    rw [hwhole.1] at hcmd
    refine (fromServer_message h.limit (hwhole.2.1 ▸ hin.le) (fun hs => ?_) fun hs => ?_).mono hle
    · subst hs
      rw [answerTo_sack hack] at hcmd
      exact hin.noSeqno hcmd
    · subst hs
      rw [answerTo_cack hack] at hcmd
      exact hwhole.2.1.trans (hin.connect hcmd)
  | @respond i rb c e st x hc _ hst _ hx =>
    exact (hst.fromServer h.limit (h.server c hc) hx).mono hle
  | @resume i c w st x hc _ _ hst hx =>
    exact (hst.fromServer h.limit (h.server c hc) hx).mono hle
  | ping hc =>
    exact FromServer.mono (fromServer_message h.limit (h.server _ hc) (by decide)
      (fun hc => by cases hc)) hle

theorem not_seqnoNext {x y : Nat} (hx : x < 4294967296) (hy : y ≤ SEQNO_LIMIT) (hle : x ≤ y) :
    ¬ seqnoNext x y := by
  simp only [SEQNO_LIMIT] at hy
  intro h
  rcases (seqnoNext_iff hx (by omega)).mp h with h | h <;> omega

/-- The thread that a section leaves waiting. -/
theorem mem_thread {v v' rsize rsize' : Nat} {q q' : Bytes} {w : CallWait}
    {wait : Option CallWait}
    (h : Thread.call v' q' rsize' w ∈ (wait.map (Thread.call v q rsize)).toList) :
    wait = some w ∧ q' = q := by
  cases wait with
  | none => cases h
  | some w' =>
    cases List.mem_singleton.mp h
    exact ⟨rfl, rfl⟩

/-- The reader of the client keeps the number. -/
theorem Numbers.crecv (h : Numbers cfg s) (hk : Kinds s) (hr : Roles s) (hcf : s.cfault = none)
    (hp : p ∈ s.s2c) (stale : Bytes) {c' : CRecord}
    (hc : (readerSwitch (fun _ => none) 0 s.ccr (p.received stale)).cr = some c') :
    ∃ c, s.ccr = some c ∧ c'.seqno = c.seqno := by
  refine (hr.receives hk hp stale).seqno_kept (fun c hs => ?_) hc
  have hlast := h.client hcf c hs
  have hle := (h.s2c p hp).le
  rw [← (received_whole (p := p) (hk.server p hp).whole stale).2.1] at hle
  refine not_seqnoNext (Received.seqno_lt _) ?_ ?_
  · rw [hlast]
    exact h.limit
  · rw [hlast]
    exact hle

/-- **Every step below the limit keeps the numbers.** -/
theorem Numbers.step (h : Numbers cfg s) (hk : Kinds s) (hr : Roles s) (hb : Below s)
    (ht : Stepped cfg s a t) : Numbers cfg t := by
  have hle := ht.calls
  have hc2s : ∀ p ∈ t.c2s, FromClient cfg t p := fun p hp =>
    (ht.c2s hk p hp).elim (fun hp => (h.c2s p hp).mono hle) (·.fromClient h hk hb hle)
  have hs2c : ∀ p ∈ t.s2c, FromServer cfg t p := fun p hp =>
    (ht.s2c hk p hp).elim (fun hp => (h.s2c p hp).mono hle) (·.fromServer h hk hle)
  cases ht with
  | connect hcf ho =>
    refine ⟨h.limit, h.calls, fun _ c hc => ?_, fun v q rsize w hm => ?_, h.server, hc2s, hs2c,
      fun hf => (by cases hf)⟩
    · cases hc
      show cfg.seqno = cfg.seqno + s.calls.length
      rw [(h.unopened ho).2]
      rfl
    · rcases List.mem_append.mp hm with hm | hm
      · exact h.waiting v q rsize w hm
      · cases List.mem_singleton.mp hm
  | cdead hcf hc hws =>
    exact ⟨h.limit, h.calls, fun hf => (by cases hf), fun v q rsize w hm =>
      h.waiting v q rsize w (hws.subset hm), h.server, hc2s, hs2c, h.unopened⟩
  | @call q rsize c hcf hh hc =>
    have hdone := h.section hcf hc (hb c hc) (fun w' hw' => by cases hw')
      (rpcCallBegin_section 0 cfg.subport q c) (t := s.clientSection 0 q rsize _) rfl
    refine ⟨hdone.limit, hdone.calls, fun hf c' hc' => ?_, fun v q' rsize' w hm => ?_,
      fun c' hc' => Nat.le_trans (h.server c' hc') (last_mono hle), hc2s, hs2c, fun ho => ?_⟩
    · cases hc'
      exact hdone.record hf
    · rcases List.mem_append.mp hm with hm | hm
      · exact (h.waiting v q' rsize' w hm).mono hle
      · obtain ⟨hw', rfl⟩ := mem_thread hm
        exact hdone.wait w hw'
    · rw [(h.unopened ho).1] at hc
      cases hc
  | @disconnect c hcf hh hc =>
    refine ⟨h.limit, h.calls, fun _ c' hc' => ?_, fun v q rsize w hm => ?_, h.server, hc2s, hs2c,
      fun ho => ?_⟩
    · cases hc'
      exact h.client hcf c hc
    · rcases List.mem_append.mp hm with hm | hm
      · exact h.waiting v q rsize w hm
      · cases List.mem_singleton.mp hm
    · rw [(h.unopened ho).1] at hc
      cases hc
  | connected =>
    exact ⟨h.limit, h.calls, h.client, fun v q rsize w hm =>
      h.waiting v q rsize w (List.mem_of_mem_eraseIdx hm), h.server, hc2s, hs2c, h.unopened⟩
  | refused =>
    exact ⟨h.limit, h.calls, fun _ c' hc' => (by cases hc'), fun v q rsize w hm =>
      h.waiting v q rsize w (List.mem_of_mem_eraseIdx hm), h.server, hc2s, hs2c,
      fun ho => ⟨rfl, (h.unopened ho).2⟩⟩
  | disconnected =>
    exact ⟨h.limit, h.calls, h.client, fun v q rsize w hm =>
      h.waiting v q rsize w (List.mem_of_mem_eraseIdx hm), h.server, hc2s, hs2c, h.unopened⟩
  | @resumed i v q rsize w c st hcf hi hc hst =>
    have hdone := h.section hcf hc (hb c hc)
      (fun w' hw' => by cases hw'; exact h.waiting v q rsize w (List.mem_of_getElem? hi))
      (rpcCallResume_section hst) (t := s.clientSection v q rsize st) rfl
    refine ⟨hdone.limit, hdone.calls, fun hf c' hc' => ?_, fun v' q' rsize' w' hm => ?_,
      fun c' hc' => Nat.le_trans (h.server c' hc') (last_mono hle), hc2s, hs2c, fun ho => ?_⟩
    · cases hc'
      exact hdone.record hf
    · rcases List.mem_append.mp hm with hm | hm
      · exact (h.waiting v' q' rsize' w' (List.mem_of_mem_eraseIdx hm)).mono hle
      · obtain ⟨hw', rfl⟩ := mem_thread hm
        exact hdone.wait w' hw'
    · rw [(h.unopened ho).1] at hc
      cases hc
  | @crecv i stale p hcf hp =>
    have hin := List.mem_of_getElem? hp
    refine ⟨h.limit, h.calls, fun _ c' hc' => ?_, h.waiting, h.server, hc2s, hs2c, fun ho => ?_⟩
    · obtain ⟨c, hc, hn⟩ := h.crecv hk hr hcf hin stale hc'
      rw [hn]
      exact h.client hcf c hc
    · refine ⟨?_, (h.unopened ho).2⟩
      by_contra hne
      obtain ⟨c', hc'⟩ := Option.ne_none_iff_exists'.mp hne
      obtain ⟨c, hc, -⟩ := h.crecv hk hr hcf hin stale hc'
      rw [(h.unopened ho).1] at hc
      cases hc
  | @ctick c hcf hc =>
    refine ⟨h.limit, h.calls, fun _ c' hc' => ?_, h.waiting, h.server, hc2s, hs2c, fun ho => ?_⟩
    · rw [((timerRecord_cases cfg.subport c).kept hc').1]
      exact h.client hcf c hc
    · rw [(h.unopened ho).1] at hc
      cases hc
  | @srecv i stale p hsf hp =>
    have hin := List.mem_of_getElem? hp
    refine ⟨h.limit, h.calls, h.client, h.waiting, fun c' hc' => ?_, hc2s, hs2c, h.unopened⟩
    rcases (hr.serves hk hin stale).seqno_from hc' with hn | ⟨c, hc, hn⟩ <;> rw [hn]
    · rw [(received_whole (p := p) (hk.client p hin).whole stale).2.1]
      exact (h.c2s p hin).le
    · exact h.server c hc
  | @stick c hsf hc =>
    refine ⟨h.limit, h.calls, h.client, h.waiting, fun c' hc' => ?_, hc2s, hs2c, h.unopened⟩
    rw [((timerRecord_cases cfg.subport c).kept hc').1]
    exact h.server c hc
  | @respond i e rb c _ _ hc =>
    refine ⟨h.limit, h.calls, h.client, h.waiting, fun c' hc' => ?_, hc2s, hs2c, h.unopened⟩
    cases hc'
    rw [(rpcResponseBegin_section 0 cfg.subport rb c).kept.1]
    exact h.server c hc
  | @wresumed i w c st _ _ hc _ hst =>
    refine ⟨h.limit, h.calls, h.client, h.waiting, fun c' hc' => ?_, hc2s, hs2c, h.unopened⟩
    cases hc'
    rw [(rpcResponseResume_section hst).kept.1]
    exact h.server c hc
  | query => exact ⟨h.limit, h.calls, h.client, h.waiting, h.server, hc2s, hs2c, h.unopened⟩
  | respondNone => exact ⟨h.limit, h.calls, h.client, h.waiting, h.server, hc2s, hs2c, h.unopened⟩
  | sdead => exact ⟨h.limit, h.calls, h.client, h.waiting, h.server, hc2s, hs2c, h.unopened⟩

theorem numbers_of_reach {ok : Session → Event → Prop} (hlim : cfg.seqno ≤ SEQNO_LIMIT)
    (hok : ∀ s a, ok s a → Below s) (h : (sessionSystem cfg).Reach ok s) : Numbers cfg s := by
  refine h.invariant_reach ?_ fun s a t hr ih ha hn =>
    ih.step (kinds_of_steps hr) (roles_of_reach hr) (hok s a ha) (next_stepped hn)
  exact ⟨hlim, fun _ _ hi => (by cases hi), fun _ _ hc => (by cases hc),
    fun _ _ _ _ hm => (by cases hm), fun _ hc => (by cases hc), fun _ hp => (by cases hp),
    fun _ hp => (by cases hp), fun _ => ⟨rfl, rfl⟩⟩

end Step

/-! ## A call of two pieces -/

/-- `Below`, evaluated. -/
def belowCheck (s : Session) : Bool := s.ccr.all fun c => decide (c.seqno < SEQNO_LIMIT)

theorem below_of_check {s : Session} (h : belowCheck s = true) : Below s := by
  intro c hc
  rw [belowCheck, hc] at h
  exact of_decide_eq_true h

/-- A message of two pieces. -/
def twoPieces : Bytes := List.replicate 1025 5

/-- A connection and one call with a query of two pieces; both sides are done with it. -/
def twoPieceCall : List Event :=
  connecting ++ [.call twoPieces 10, .srecv 1 [], .crecv 1 [], .resume 0, .srecv 2 [],
    .query 2000, .respond 0 [9], .crecv 3 [], .resume 0]

end Hwdb.Rpc
