import Hwdb.Rpc.Assembly

/-!
# One worker and its responses

A server with one worker, which fetches a query, answers it and fetches the next one.  The
response goes out under the number that the connection's record has at that time.

* `OneWorker` — the worker is done with a query before it fetches the next.
* `MisAnswers` — the record has gone on to another query than the worker's, or the worker has
  answered the same number differently before.
* `Answering` — without that, every `RESPONSE` and every `FRAGMENT` of the server is a piece of the
  one response with its number.
-/

set_option autoImplicit false

namespace Hwdb.Rpc

open Hwdb.Lib

/-- The worker fetches a query only when it has none. -/
def OneWorker (s : Session) : Event → Prop
  | .query _ => s.held = [] ∧ s.responding = []
  | _ => True

instance (s : Session) (a : Event) : Decidable (OneWorker s a) :=
  match a with
  | .query _ => inferInstanceAs (Decidable (s.held = [] ∧ s.responding = []))
  | .connect | .call .. | .disconnect | .resume _ | .crecv .. | .ctick | .srecv .. | .stick
  | .respond .. | .wresume _ => inferInstanceAs (Decidable True)

/-- The worker answers with 1 to 65535 bytes. -/
def AnswersSendable : Event → Prop
  | .respond _ rb => Sendable rb
  | _ => True

instance (a : Event) : Decidable (AnswersSendable a) :=
  match a with
  | .respond _ rb => inferInstanceAs (Decidable (Sendable rb))
  | .connect | .call .. | .disconnect | .resume _ | .crecv .. | .ctick | .srecv .. | .stick
  | .query _ | .wresume _ => inferInstanceAs (Decidable True)

/-- `rpc_response` finds a record that waits for an answer, but to another number than the query's,
or the same number has been answered with other bytes. -/
def MisAnswers (s : Session) : Event → Prop
  | .respond i rb => ∃ e c, s.held[i]? = some e ∧ s.scr = some c ∧ c.state = .qackSent ∧
      (e.number ≠ c.seqno ∨ ∃ a ∈ s.responses, a.number = e.number ∧ a.rb ≠ rb)
  | _ => False

/-- The datagram is a piece of the response with its number. -/
def AnswersCall (cfg : Config) (s : Session) (p : Packet) : Prop :=
  ∃ a ∈ s.responses, a.number = p.seqno ∧
    Carries cfg.subport .response a.number a.rb p.bytes

/-- The worker has sent the first `fnum` fragments of its response; while the record waits for an
acknowledgement of a fragment, it is at the number of the worker's query. -/
structure AtFragment (s : Session) (w : Responding) : Prop where
  response : ∃ a ∈ s.responses, a.number = w.element.number ∧ a.rb = w.rb
  nfrags : w.nfrags = pieces w.rb
  first : 1 ≤ w.fnum
  more : w.fnum < w.nfrags
  number : w.record = s.born → ∀ c, s.scr = some c →
    c.state = .fragmentSent ∨ c.state = .fackReceived → c.seqno = w.element.number

/-- What is known of the worker and its responses along a run. -/
structure Answering (cfg : Config) (s : Session) : Prop where
  one : s.held.length + s.responding.length ≤ 1
  sendable : ∀ a ∈ s.responses, Sendable a.rb
  unique : ∀ a ∈ s.responses, ∀ a' ∈ s.responses, a.number = a'.number → a.rb = a'.rb
  worker : ∀ w ∈ s.responding, AtFragment s w
  s2c : ∀ p ∈ s.s2c, p.command = some .response ∨ p.command = some .fragment →
    AnswersCall cfg s p

/-! ## Messages of the server -/

section Messages

variable {cfg : Config} {s t : Session} {a : Event} {p : Packet} {c c' : CRecord}

theorem AnswersCall.mono (h : AnswersCall cfg s p) (hle : s.responses <+: t.responses) :
    AnswersCall cfg t p := by
  obtain ⟨a, hmem, ha⟩ := h
  exact ⟨a, hle.subset hmem, ha⟩

theorem Stepped.responses (h : Stepped cfg s a t) : s.responses <+: t.responses := by
  cases h with
  | respond => exact List.prefix_append _ _
  | _ => exact List.prefix_rfl

theorem answer_not_response {cmd ack : Command} (h : answerTo cmd = some ack) :
    ack ≠ .response ∧ ack ≠ .fragment := by
  cases cmd <;> cases h <;> decide

section Section

variable {ep sp k nf : Nat} {r : Bytes} {w : Option (Nat × Nat)} {st : ResponseStep} {x : Sent}

/-- The next piece of a response of 1 to 65535 bytes. -/
theorem Answers.bounds (h : Answers r c w k nf) (hr : Sendable r)
    (hw : ∀ j n, w = some (j, n) → n = pieces r ∧ j < n) :
    nf = pieces r ∧ 1 ≤ k ∧ k ≤ nf := by
  cases h with
  | first =>
    rw [nfragsOf_eq hr.1 hr.2]
    exact ⟨rfl, Nat.le_refl 1, pieceCount_pos FR_SIZE r⟩
  | next j _ =>
    obtain ⟨hnf, hlt⟩ := hw j _ rfl
    exact ⟨hnf, Nat.le_add_left 1 j, hlt⟩

/-- A section that sends has found the state it waits for. -/
theorem ResponseSection.found (h : ResponseSection ep sp r c w st) (hx : x ∈ st.sent) :
    (w = none ∧ c.state = .qackSent) ∨ c.state = .fackReceived := by
  have hfound : ∀ k nf, Answers r c w k nf →
      (w = none ∧ c.state = .qackSent) ∨ c.state = .fackReceived := by
    intro k nf ha
    cases ha with
    | first hst => exact .inl ⟨rfl, hst⟩
    | next _ _ hst => exact .inr hst
  cases h with
  | refused => cases hx
  | timedout => cases hx
  | undefined => cases hx
  | fragment ha => exact hfound _ _ ha
  | response ha => exact hfound _ _ ha

/-- A section that goes on to wait has sent a fragment. -/
theorem ResponseSection.waits (h : ResponseSection ep sp r c w st) (hr : Sendable r)
    (hw : ∀ j n, w = some (j, n) → n = pieces r ∧ j < n) (hwait : st.wait = some (k, nf)) :
    nf = pieces r ∧ 1 ≤ k ∧ k < nf ∧ st.sent ≠ [] := by
  cases h with
  | fragment ha hlt =>
    cases hwait
    obtain ⟨hnf, h1, -⟩ := ha.bounds hr hw
    exact ⟨hnf, h1, hlt, List.cons_ne_nil _ _⟩
  | _ => cases hwait

/-- A section of `rpc_response` sends the next piece. -/
theorem ResponseSection.carries (h : ResponseSection ep sp r c w st) (hr : Sendable r)
    (hw : ∀ j n, w = some (j, n) → n = pieces r ∧ j < n) (hx : x ∈ st.sent) :
    Carries sp .response c.seqno r x.bytes := by
  cases h with
  | refused => cases hx
  | timedout => cases hx
  | undefined => cases hx
  | @fragment _ k nf ha hlt buf hbuf =>
    obtain ⟨rfl, h1, -⟩ := ha.bounds hr hw
    rw [List.mem_singleton.mp hx]
    have hp : _ = some (pieceMessage sp .response c.seqno r k) := fragmentPayload_piece h1 hlt
    rw [hbuf] at hp
    exact ⟨k, h1, Nat.le_of_lt hlt, Option.some.inj hp⟩
  | @response _ k nf ha hge buf hbuf =>
    obtain ⟨rfl, h1, hle⟩ := ha.bounds hr hw
    rw [List.mem_singleton.mp hx]
    obtain rfl : k = pieces r := by omega
    have hp : lastPayload sp .response c.seqno r (pieces r) (pieces r) 2147483648 = _ :=
      lastPayload_piece hr (by decide)
    rw [hbuf] at hp
    exact ⟨pieces r, h1, Nat.le_refl _, Option.some.inj hp⟩

end Section

/-- A piece has the number it was sent under. -/
theorem Carries.seqno {sp n v : Nat} {cmd : Command} {m b : Bytes} (h : Carries sp cmd n m b)
    (hn : n ≤ SEQNO_LIMIT) : (⟨b, v⟩ : Packet).seqno = n := by
  obtain ⟨k, -, -, rfl⟩ := h
  exact message_seqno hn

/-- Where the record waits for an acknowledgement of a fragment, it did so before. -/
theorem Serves.sending {stable : Bytes → Option Nat} {nep : Nat} {d : Received}
    {cr : Option CRecord} {out : Outcome} (h : Serves stable nep d cr out)
    (hc : out.cr = some c') (hst : c'.state = .fragmentSent ∨ c'.state = .fackReceived) :
    ∃ c, cr = some c ∧ c'.seqno = c.seqno ∧
      (c.state = .fragmentSent ∨ c.state = .fackReceived) := by
  cases h with
  | kept => exact ⟨c', hc, rfl, hst⟩
  | failed => exact ⟨c', hc, rfl, hst⟩
  | resent c => cases hc; exact ⟨c, rfl, rfl, hst⟩
  | ping c => cases hc; exact ⟨c', rfl, rfl, hst⟩
  | pack c => cases hc; exact ⟨c, rfl, rfl, hst⟩
  | fack c _ _ hfs => cases hc; exact ⟨c, rfl, rfl, .inl hfs⟩
  | disconnect =>
    obtain ⟨c, rfl, rfl⟩ := Option.map_eq_some_iff.mp hc
    rcases hst with hst | hst <;> cases hst
  | _ => cases hc; rcases hst with hst | hst <;> cases hst

end Messages

/-! ## Steps -/

section Step

variable {cfg : Config} {s t : Session} {a : Event} {p : Packet}

/-- The worker has one query at most. -/
theorem Answering.alone (h : Answering cfg s) {i : Nat} {e : Element}
    (hi : s.held[i]? = some e) : s.held.eraseIdx i = [] ∧ s.responding = [] := by
  have hlt := (List.getElem?_eq_some_iff.mp hi).1
  have hone := h.one
  have herase := List.length_eraseIdx_of_lt hlt
  exact ⟨List.eq_nil_of_length_eq_zero (by omega), List.eq_nil_of_length_eq_zero (by omega)⟩

theorem Answering.busy (h : Answering cfg s) {i : Nat} {w : Responding}
    (hi : s.responding[i]? = some w) : s.held = [] ∧ s.responding.eraseIdx i = [] := by
  have hlt := (List.getElem?_eq_some_iff.mp hi).1
  have hone := h.one
  have herase := List.length_eraseIdx_of_lt hlt
  exact ⟨List.eq_nil_of_length_eq_zero (by omega), List.eq_nil_of_length_eq_zero (by omega)⟩

/-- **What the server adds** is a piece of the response with its number. -/
theorem ServerSends.answersCall (h : Answering cfg s) (hn : Numbers cfg s)
    (hsend : AnswersSendable a) (hno : ¬ MisAnswers s a) (hle : s.responses <+: t.responses)
    (hp : ServerSends cfg s t a p)
    (hcmd : p.command = some .response ∨ p.command = some .fragment) : AnswersCall cfg t p := by
  cases hp with
  | @answer i stale _ d _ hb =>
    obtain ⟨cmd, ack, fnum, nfrags, -, hack, rfl⟩ := hb
    obtain ⟨hr, hf⟩ := answer_not_response hack
    have hc : (⟨ackPayload (d.received stale) ack fnum nfrags, t.scall⟩ : Packet).command =
        some ack :=
      message_packet_command ..
    rw [hc] at hcmd
    rcases hcmd with hcmd | hcmd
    · exact absurd (Option.some.inj hcmd) hr
    · exact absurd (Option.some.inj hcmd) hf
  | @respond i rb c e st x hc hi hst hr hx =>
    have hcarries := hst.carries hsend (fun _ _ hw => by cases hw) hx
    have hlim := Nat.le_trans (hn.server c hc) hn.limit
    have hqack : c.state = .qackSent := by
      cases hst with
      | refused => cases hx
      | undefined => cases hx
      | fragment ha => cases ha with | first hst => exact hst
      | response ha => cases ha with | first hst => exact hst
    have hnum : e.number = c.seqno := by
      by_contra hne
      exact hno ⟨e, c, hi, hc, hqack, .inl hne⟩
    refine ⟨⟨e.call, e.number, rb⟩, hr ▸ List.mem_append_right _ (List.mem_singleton.mpr rfl), ?_⟩
    rw [hcarries.seqno hlim]
    exact ⟨hnum, hnum ▸ hcarries⟩
  | @resume i c w st x hc hi hrecord hst hx =>
    have hw := h.worker w (List.mem_of_getElem? hi)
    obtain ⟨b, hb, hnum, hrb⟩ := hw.response
    have hsendable : Sendable w.rb := hrb ▸ h.sendable b hb
    have hcarries := hst.carries hsendable
      (fun j n heq => by cases heq; exact ⟨hw.nfrags, hw.more⟩) hx
    have hlim := Nat.le_trans (hn.server c hc) hn.limit
    have hfack : c.state = .fackReceived := by
      rcases hst.found hx with ⟨heq, -⟩ | hfack
      · cases heq
      · exact hfack
    have hseqno := hw.number hrecord c hc (.inr hfack)
    refine ⟨b, hle.subset hb, ?_⟩
    rw [hcarries.seqno hlim, hnum, hrb, ← hseqno]
    exact ⟨rfl, hcarries⟩
  | ping =>
    rw [message_packet_command] at hcmd
    rcases hcmd with hcmd | hcmd <;> cases hcmd

/-- The worker has done nothing, and the record waits for an acknowledgement only if it did. -/
theorem Answering.quiet (h : Answering cfg s) (hheld : t.held = s.held)
    (hresponding : t.responding = s.responding) (hresponses : t.responses = s.responses)
    (hs2c : ∀ p ∈ t.s2c, p.command = some .response ∨ p.command = some .fragment →
      AnswersCall cfg t p)
    (hrec : ∀ c', t.scr = some c' → c'.state = .fragmentSent ∨ c'.state = .fackReceived →
      t.born = s.born ∧ ∃ c, s.scr = some c ∧ c'.seqno = c.seqno ∧
        (c.state = .fragmentSent ∨ c.state = .fackReceived)) : Answering cfg t := by
  refine ⟨?_, hresponses ▸ h.sendable, hresponses ▸ h.unique, fun w hw => ?_, hs2c⟩
  · rw [hheld, hresponding]
    exact h.one
  · obtain ⟨hresponse, hnf, h1, hmore, hnum⟩ := h.worker w (hresponding ▸ hw)
    refine ⟨hresponses ▸ hresponse, hnf, h1, hmore, fun hrecord c' hc' hst => ?_⟩
    obtain ⟨hborn, c, hc, hseqno, hst⟩ := hrec c' hc' hst
    rw [hseqno]
    exact hnum (hrecord.trans hborn) c hc hst

theorem mem_append_if {x y : Responded} {l : List Responded} {c : Prop} [Decidable c]
    (h : x ∈ l ++ if c then [y] else []) : x ∈ l ∨ (c ∧ x = y) := by
  refine (List.mem_append.mp h).imp id fun h => ?_
  split at h
  · rename_i hc
    exact ⟨hc, List.mem_singleton.mp h⟩
  · cases h

/-- A section of `rpc_response` by the only worker. -/
theorem ResponseSection.answering {c : CRecord} {e : Element} {rb : Bytes}
    {w : Option (Nat × Nat)} {st : ResponseStep} (hst : ResponseSection 0 cfg.subport rb c w st)
    (hrb : Sendable rb) (hw : ∀ j n, w = some (j, n) → n = pieces rb ∧ j < n)
    (hnum : st.sent ≠ [] → c.seqno = e.number)
    (hresponse : st.sent ≠ [] → ∃ a ∈ t.responses, a.number = e.number ∧ a.rb = rb)
    (hheld : t.held = []) (hscr : t.scr = some st.cr)
    (hresponding : t.responding = (st.wait.map fun w => ⟨e, t.born, rb, w.1, w.2⟩).toList)
    (hsendable : ∀ a ∈ t.responses, Sendable a.rb)
    (hunique : ∀ a ∈ t.responses, ∀ a' ∈ t.responses, a.number = a'.number → a.rb = a'.rb)
    (hs2c : ∀ p ∈ t.s2c, p.command = some .response ∨ p.command = some .fragment →
      AnswersCall cfg t p) : Answering cfg t := by
  refine ⟨?_, hsendable, hunique, fun v hv => ?_, hs2c⟩
  · rw [hheld, hresponding]
    cases st.wait with
    | none => exact Nat.zero_le 1
    | some _ => exact Nat.le_refl 1
  · rw [hresponding] at hv
    cases hwait : st.wait with
    | none =>
      rw [hwait] at hv
      cases hv
    | some x =>
      obtain ⟨k, nf⟩ := x
      rw [hwait] at hv
      obtain rfl := List.mem_singleton.mp hv
      obtain ⟨hnf, h1, hlt, hsent⟩ := hst.waits hrb hw hwait
      refine ⟨hresponse hsent, hnf, h1, hlt, fun _ c' hc' _ => ?_⟩
      obtain rfl : st.cr = c' := Option.some.inj (hscr.symm.trans hc')
      rw [hst.kept.1]
      exact hnum hsent

/-- **Every step keeps the responses apart**, unless the worker answers another query than its
own. -/
theorem Answering.step (h : Answering cfg s) (hn : Numbers cfg s) (hk : Kinds s) (hr : Roles s)
    (hone : OneWorker s a) (hsend : AnswersSendable a) (hno : ¬ MisAnswers s a)
    (ht : Stepped cfg s a t) : Answering cfg t := by
  have hle := ht.responses
  have hs2c : ∀ p ∈ t.s2c, p.command = some .response ∨ p.command = some .fragment →
      AnswersCall cfg t p := fun p hp hcmd =>
    (ht.s2c hk p hp).elim (fun hp => (h.s2c p hp hcmd).mono hle)
      (·.answersCall h hn hsend hno hle hcmd)
  have hsame : ∀ c', s.scr = some c' → c'.state = .fragmentSent ∨ c'.state = .fackReceived →
      s.born = s.born ∧ ∃ c, s.scr = some c ∧ c'.seqno = c.seqno ∧
        (c.state = .fragmentSent ∨ c.state = .fackReceived) := fun c' hc' hst =>
    ⟨rfl, c', hc', rfl, hst⟩
  cases ht with
  | @srecv i stale p hsf hp =>
    refine h.quiet rfl rfl rfl hs2c fun c' hc' hst => ?_
    have hserves : Serves cfg.stable s.born (p.received stale) s.scr _ :=
      hr.serves hk (List.mem_of_getElem? hp) stale
    obtain ⟨c, hc, hseqno, hstate⟩ := hserves.sending hc' hst
    exact ⟨by simp [Session.serverRecv, hc], c, hc, hseqno, hstate⟩
  | @stick c hsf hs =>
    refine h.quiet rfl rfl rfl hs2c fun c' hc' hst => ⟨rfl, c, hs, ?_⟩
    have htick := timerRecord_cases cfg.subport c
    refine ⟨(htick.kept hc').1, ?_⟩
    rcases htick.state hc' with hto | hsame
    · rw [hto] at hst
      rcases hst with hst | hst <;> cases hst
    · exact hsame ▸ hst
  | @query e queue len hsf hq =>
    obtain ⟨hheld, hresponding⟩ := hone
    refine ⟨?_, h.sendable, h.unique, fun w hw => ?_, hs2c⟩
    · show (s.held ++ [e]).length + s.responding.length ≤ 1
      rw [hheld, hresponding]
      exact Nat.le_refl 1
    · have hw : w ∈ s.responding := hw
      rw [hresponding] at hw
      cases hw
  | @respondNone i e rb hsf hi hs =>
    obtain ⟨hheld, hresponding⟩ := h.alone hi
    refine ⟨?_, h.sendable, h.unique, fun w hw => ?_, hs2c⟩
    · show (s.held.eraseIdx i).length + s.responding.length ≤ 1
      rw [hheld, hresponding]
      exact Nat.zero_le 1
    · have hw : w ∈ s.responding := hw
      rw [hresponding] at hw
      cases hw
  | @respond i e rb c hsf hi hs =>
    obtain ⟨hheld, hresponding⟩ := h.alone hi
    have hst := rpcResponseBegin_section 0 cfg.subport rb c
    have hqack : (rpcResponseBegin 0 cfg.subport c rb).sent ≠ [] → c.state = .qackSent := by
      intro hne
      obtain ⟨x, hx⟩ := List.exists_mem_of_ne_nil _ hne
      by_contra hst
      rw [rpcResponseBegin, if_neg hst] at hx
      cases hx
    have hnum : (rpcResponseBegin 0 cfg.subport c rb).sent ≠ [] → c.seqno = e.number := by
      intro hne
      by_contra hother
      exact hno ⟨e, c, hi, hs, hqack hne, .inl fun heq => hother heq.symm⟩
    refine hst.answering hsend (fun _ _ hw => by cases hw) hnum (fun hne => ?_) hheld rfl ?_
      (fun b hb => ?_) (fun b hb b' hb' heq => ?_) hs2c
    · refine ⟨⟨e.call, e.number, rb⟩, List.mem_append_right _ ?_, rfl, rfl⟩
      rw [if_pos hne]
      exact List.mem_singleton.mpr rfl
    · show s.responding ++ _ = _
      rw [hresponding]
      rfl
    · rcases mem_append_if hb with hb | ⟨-, rfl⟩
      · exact h.sendable b hb
      · exact hsend
    · have hother : ∀ b ∈ s.responses, (rpcResponseBegin 0 cfg.subport c rb).sent ≠ [] →
          b.number = e.number → b.rb = rb := fun b hb hne heq => by
        by_contra hdiff
        exact hno ⟨e, c, hi, hs, hqack hne, .inr ⟨b, hb, heq, hdiff⟩⟩
      rcases mem_append_if hb with hb | ⟨hne, rfl⟩
      · rcases mem_append_if hb' with hb' | ⟨hne, rfl⟩
        · exact h.unique b hb b' hb' heq
        · exact hother b hb hne heq
      · rcases mem_append_if hb' with hb' | ⟨-, rfl⟩
        · exact (hother b' hb' hne heq.symm).symm
        · rfl
  | @wresumed i w c st hsf hi hs hrecord hst =>
    obtain ⟨hheld, hresponding⟩ := h.busy hi
    have hw := h.worker w (List.mem_of_getElem? hi)
    obtain ⟨b, hb, hbnum, hbrb⟩ := hw.response
    have hrb : Sendable w.rb := hbrb ▸ h.sendable b hb
    have hsec := rpcResponseResume_section hst
    refine hsec.answering hrb (fun j n heq => by cases heq; exact ⟨hw.nfrags, hw.more⟩)
      (fun hne => ?_) (fun _ => ⟨b, hb, hbnum, hbrb⟩) hheld rfl ?_ h.sendable h.unique hs2c
    · obtain ⟨x, hx⟩ := List.exists_mem_of_ne_nil _ hne
      rcases hsec.found hx with ⟨heq, -⟩ | hfack
      · cases heq
      · exact hw.number hrecord c hs (.inr hfack)
    · show s.responding.eraseIdx i ++ _ = _
      rw [hresponding]
      rfl
  | @sdead i w hsf hi hs =>
    obtain ⟨hheld, hresponding⟩ := h.busy hi
    refine ⟨?_, h.sendable, h.unique, fun v hv => ?_, hs2c⟩
    · show s.held.length + (s.responding.eraseIdx i).length ≤ 1
      rw [hheld, hresponding]
      exact Nat.zero_le 1
    · have hv : v ∈ s.responding.eraseIdx i := hv
      rw [hresponding] at hv
      cases hv
  | _ => exact h.quiet rfl rfl rfl hs2c hsame

end Step

end Hwdb.Rpc
