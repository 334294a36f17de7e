import Hwdb.Rpc.Calling
import Hwdb.Rpc.Responder
import Hwdb.Rpc.Complete
import Hwdb.Rpc.Renumber

/-!
# Runs over channels that keep their order

In every run whose channels keep their order, with any number of client threads and of workers,
client and server stay in lockstep, and none of the ways in which a call can go wrong over a
channel that reorders is left.

* `Lockstep.step`, `lockstep_of_reach` — the invariant.
* `Lockstep.not_lateAck`, `Lockstep.not_dropsPartial`, `Lockstep.not_takesPart`,
  `Lockstep.not_skipsToLastPiece`, `Lockstep.not_misAnswers` — what does not happen.
* `completed_stays_orderly`, `inOrder_orderly`, `queriesIntact_orderly`,
  `responsesIntact_orderly`, `renumberingSafe_orderly` — what the program keeps.
-/

set_option autoImplicit false

namespace Hwdb.Rpc

open Hwdb.Lib

section Runs

variable {cfg : Config} {s t : Session} {x y : Nat} {a : Event}

instance (s : Session) (a : Event) : Decidable (KeepsOrder s a) :=
  match a with
  | .crecv i _ => inferInstanceAs (Decidable (s.cseen ≤ i))
  | .srecv i _ => inferInstanceAs (Decidable (s.sseen ≤ i))
  | .connect | .call .. | .disconnect | .resume _ | .ctick | .stick | .query _ | .respond ..
  | .wresume _ => inferInstanceAs (Decidable True)

instance (a : Event) : Decidable (QueriesShort a) :=
  match a with
  | .call q _ => inferInstanceAs (Decidable (ShortQuery q))
  | .connect | .disconnect | .resume _ | .crecv .. | .ctick | .srecv .. | .stick | .query _
  | .respond .. | .wresume _ => inferInstanceAs (Decidable True)

/-- `Orderly`, evaluated. -/
def orderlyCheck (s : Session) (a : Event) : Bool :=
  decide (KeepsOrder s a) && decide (AnswersSendable a) && decide (QueriesShort a) &&
    decide (a ≠ .disconnect)

theorem orderly_of_check (h : orderlyCheck s a = true) : Orderly s a := by
  simp only [orderlyCheck, Bool.and_eq_true, decide_eq_true_eq] at h
  exact ⟨h.1.1.1, h.1.1.2, h.1.2, h.2⟩

theorem lockstep_init : Lockstep cfg Session.init 0 0 where
  logs := ⟨graded_nil 0, graded_nil 0, undelivered_nil _ _, undelivered_nil _ _, Nat.le_refl 0,
    Nat.le_refl 0⟩
  client := ⟨rfl, fun _ c hc => (by cases hc), fun p hp => (by cases hp), fun i hi => (by cases hi),
    fun i hi => (by omega), fun h5 => (by omega), sendingAt_none fun th hth => (by cases hth),
    fun _ => ⟨rfl, rfl⟩⟩
  server := ⟨rfl, fun c hc => (by cases hc), fun p hp => (by cases hp), fun e he => (by cases he),
    Nat.zero_le 1, fun w hw => (by cases hw), Nat.zero_le 1, fun a ha => (by cases ha),
    fun a ha => (by cases ha)⟩

/-- The queries of the threads that wait are short. -/
def ShortThreads (s : Session) : Prop :=
  ∀ v q rsize w, Thread.call v q rsize w ∈ s.waiting → ShortQuery q

/-- A thread that waits keeps its query. -/
theorem ShortThreads.step (h : ShortThreads s) (hs : QueriesShort a) (ht : Stepped cfg s a t) :
    ShortThreads t := by
  have hsection : ∀ {ws : List Thread} {v : Nat} {q : Bytes} {rsize : Nat} {w : Option CallWait},
      ws.Sublist s.waiting → ShortQuery q →
        t.waiting = ws ++ (w.map (Thread.call v q rsize)).toList → ShortThreads t := by
    intro ws v q rsize w hws hq hwaiting v' q' rsize' w' hmem
    rw [hwaiting] at hmem
    rcases List.mem_append.mp hmem with hmem | hmem
    · exact h v' q' rsize' w' (hws.subset hmem)
    · obtain ⟨w'', -, he⟩ := Option.map_eq_some_iff.mp (Option.mem_toList.mp hmem)
      cases he
      exact hq
  have hother : ∀ {ws : List Thread} {th : Thread}, ws.Sublist s.waiting →
      (∀ v q rsize w, th ≠ .call v q rsize w) → t.waiting = ws ++ [th] → ShortThreads t := by
    intro ws th hws hth hwaiting v q rsize w hmem
    rw [hwaiting] at hmem
    rcases List.mem_append.mp hmem with hmem | hmem
    · exact h v q rsize w (hws.subset hmem)
    · exact absurd (List.mem_singleton.mp hmem).symm (hth v q rsize w)
  cases ht with
  | connect => exact hother (.refl _) (fun _ _ _ _ he => Thread.noConfusion he) rfl
  | disconnect => exact hother (.refl _) (fun _ _ _ _ he => Thread.noConfusion he) rfl
  | cdead _ _ hws => exact fun v q rsize w hmem => h v q rsize w (hws.subset hmem)
  | call => exact hsection (.refl _) hs rfl
  | connected => exact fun v q rsize w hmem => h v q rsize w (List.eraseIdx_subset hmem)
  | refused => exact fun v q rsize w hmem => h v q rsize w (List.eraseIdx_subset hmem)
  | disconnected => exact fun v q rsize w hmem => h v q rsize w (List.eraseIdx_subset hmem)
  | resumed _ hi =>
    exact hsection (List.eraseIdx_sublist ..) (h _ _ _ _ (List.mem_of_getElem? hi)) rfl
  | _ => exact h

/-- **Every step** over channels that keep their order stays in lockstep. -/
theorem Lockstep.step (h : Lockstep cfg s x y) (hk : Kinds s) (hr : Roles s)
    (hs : ShortThreads s) (ho : Orderly s a)
    (ht : Stepped cfg s a t) : ∃ x' y', Moves s t x x' ∧ y ≤ y' ∧ Lockstep cfg t x' y' := by
  have hclient : (∃ x', Moves s t x x' ∧ Lockstep cfg t x' y) →
      ∃ x' y', Moves s t x x' ∧ y ≤ y' ∧ Lockstep cfg t x' y' :=
    fun ⟨x', hmoves, hx⟩ => ⟨x', y, hmoves, Nat.le_refl y, hx⟩
  have hserver : (∃ y', y ≤ y' ∧ Lockstep cfg t x y') →
      ∃ x' y', Moves s t x x' ∧ y ≤ y' ∧ Lockstep cfg t x' y' :=
    fun ⟨y', hle, hy⟩ => ⟨x, y', .refl, hle, hy⟩
  have hstays : Lockstep cfg t x y → ∃ x' y', Moves s t x x' ∧ y ≤ y' ∧ Lockstep cfg t x' y' :=
    fun hxy => ⟨x, y, .refl, Nat.le_refl y, hxy⟩
  cases ht with
  | connect _ hopened => exact hclient (h.connect hopened)
  | cdead _ hc hws => exact hstays (h.client_faults hc hws _)
  | call q rsize hcf _ hc => exact hclient (h.call hcf hc ho.short rsize)
  | disconnect => exact absurd rfl ho.connected
  | connected hcf hi hc =>
    exact hstays (h.client_quiet hcf ⟨rfl, rfl, rfl, rfl, rfl, rfl, rfl, rfl⟩ rfl rfl rfl (.inl rfl)
      (List.eraseIdx_sublist ..) rfl)
  | refused hcf hi hc =>
    exact hstays (h.client_quiet hcf ⟨rfl, rfl, rfl, rfl, rfl, rfl, rfl, rfl⟩ rfl rfl rfl (.inr rfl)
      (List.eraseIdx_sublist ..) rfl)
  | resumed hcf hi hc hst =>
    exact hclient (h.resume hcf hc hi (hs _ _ _ _ (List.mem_of_getElem? hi)) hst _ _ rfl)
  | disconnected hcf hi hc =>
    exact hstays (h.client_quiet hcf ⟨rfl, rfl, rfl, rfl, rfl, rfl, rfl, rfl⟩ rfl rfl rfl (.inl rfl)
      (List.eraseIdx_sublist ..) rfl)
  | crecv hcf hp => exact hclient (h.crecv hk hr hcf hp ho.order _)
  | ctick hcf hc => exact hstays (h.ctick hk hcf hc)
  | srecv _ hp => exact hserver (h.srecv hk hr hp ho.order _)
  | stick _ hc => exact hstays (h.stick hk hc)
  | query len _ hq => exact hstays (h.fetches hq len)
  | respondNone rb _ hi hc =>
    exact hstays (h.server_quiet ⟨rfl, rfl, rfl, rfl, rfl, rfl, rfl⟩ rfl rfl rfl rfl rfl
      ((List.Sublist.refl s.queue).append (List.eraseIdx_sublist ..)) (.refl _))
  | respond rb _ hi hc => exact hserver (h.respond ho.sendable hi hc)
  | sdead _ hi hc =>
    exact hstays (h.server_quiet ⟨rfl, rfl, rfl, rfl, rfl, rfl, rfl⟩ rfl rfl rfl rfl rfl (.refl _)
      (List.eraseIdx_sublist ..))
  | wresumed _ hi hc _ hst => exact hserver (h.wresume hi hc hst)

theorem shortThreads_of_reach {ok : Session → Event → Prop} (hok : ∀ s a, ok s a → Orderly s a)
    (h : (sessionSystem cfg).Reach ok s) : ShortThreads s := by
  refine h.invariant_reach (fun v q rsize w hmem => by cases hmem) fun s a t _ ih ha hn => ?_
  exact ih.step (hok s a ha).short (next_stepped hn)

/-- **Client and server stay in lockstep** in every run over channels that keep their order. -/
theorem lockstep_of_reach {ok : Session → Event → Prop} (hok : ∀ s a, ok s a → Orderly s a)
    (h : (sessionSystem cfg).Reach ok s) : ∃ x y, Lockstep cfg s x y := by
  refine h.invariant_reach (I := fun s => ∃ x y, Lockstep cfg s x y) ⟨0, 0, lockstep_init⟩
    fun s a t hr ⟨x, y, ih⟩ ha hn => ?_
  obtain ⟨x', y', -, -, hxy⟩ := ih.step (kinds_of_steps hr) (roles_of_reach hr)
    (shortThreads_of_reach hok hr) (hok s a ha) (next_stepped hn)
  exact ⟨x', y', hxy⟩

/-! ## What does not happen -/

/-- A piece of a response that the server has sent. -/
theorem Lockstep.piece (h : Lockstep cfg s x y) {p : Packet} (hp : p ∈ s.s2c)
    (hcmd : p.command = some .response ∨ p.command = some .fragment) :
    ∃ a ∈ s.responses, ∃ k, a.call = p.call ∧ a.number = p.seqno ∧ Sendable a.rb ∧ 1 ≤ k ∧
      k ≤ pieces a.rb ∧ p.command = some (pieceCommand .response a.rb k) ∧ p.fnum = k ∧
      p.nfrags = pieces a.rb ∧ p.bytes = pieceMessage cfg.subport .response p.seqno a.rb k := by
  obtain ⟨-, -, a, ha, hcall, hnum, k, h1, hle, hb⟩ := (h.server.s2c p hp).data hcmd
  obtain ⟨-, -, hs, -⟩ := h.server.answer a ha
  refine ⟨a, ha, k, hcall, hnum, hs, h1, hle, ?_, ?_, ?_, hb⟩
  · rw [Packet.command, Packet.received, hb]
    exact received_piece_command
  · rw [Packet.fnum, Packet.received, hb]
    exact received_piece_fnum hs hle
  · rw [Packet.nfrags, Packet.received, hb]
    exact received_piece_nfrags hs

/-- An idle client has been answered, or renumbered. -/
theorem Lockstep.idle_rank (h : Lockstep cfg s x y) (hcf : s.cfault = none) {c : CRecord}
    (hc : s.ccr = some c) (hst : c.state = .idle) : x % 8 = 4 ∨ x % 8 = 5 := by
  have hin := (h.client.record hcf c hc).state
  rw [hst] at hin
  exact hin

theorem Lockstep.waiting_rank (h : Lockstep cfg s x y) (hcf : s.cfault = none) {c : CRecord}
    (hc : s.ccr = some c) (hst : c.state = .querySent ∨ c.state = .awaitingResponse) :
    x % 8 = 2 ∧ 8 ≤ x := by
  have hin := (h.client.record hcf c hc).state
  rcases hst with hst | hst <;> rw [hst] at hin <;> exact hin

/-- No late acknowledgement reaches an idle client. -/
theorem Lockstep.not_lateAck (h : Lockstep cfg s x y) (hk : Kinds s) (ho : KeepsOrder s a)
    (ht : Stepped cfg s a t) {n : Nat} (hset : Settled s n) : ¬ LateAck s a := by
  obtain ⟨c, hc, hst, -⟩ := hset
  cases ht with
  | cdead _ hs =>
    rw [hs] at hc
    cases hc
  | @crecv i stale p hcf hp =>
    rintro ⟨p', c', hp', hc', -, hun⟩
    obtain rfl : p = p' := Option.some.inj (hp.symm.trans hp')
    have hx := h.idle_rank hcf hc hst
    have hin := List.mem_of_getElem? hp
    have hof := h.server.s2c p hin
    obtain ⟨hcommand, -, -, -⟩ := received_whole (p := p) (hk.server p hin).whole stale
    rcases hun with ⟨hcmd | hcmd, -⟩ | ⟨hcmd, -, -⟩
    · obtain ⟨h1, h2, -⟩ := h.logs.arrives hp ho (rank_of_command (hcommand ▸ hcmd) rfl)
      have hx' := rank_qack h1 h2 h.logs.ahead
      omega
    · exact hof.connected (hcommand ▸ hcmd)
    · obtain ⟨h1, h2, -⟩ := h.logs.arrives hp ho (rank_of_command (hcommand ▸ hcmd) rfl)
      rcases rank_piece (.inl rfl) h1 h2 h.logs.ahead with ⟨-, hphase⟩ | ⟨-, hphase⟩
      · have hphase := hphase (by omega) rfl
        omega
      · omega
  | _ => exact id

/-- No `RACK` reaches a server that is assembling a query. -/
theorem Lockstep.not_dropsPartial (h : Lockstep cfg s x y) (hk : Kinds s) (ho : KeepsOrder s a) :
    ¬ DropsPartial s a := by
  cases a with
  | srecv i stale =>
    rintro ⟨p, c, hp, hc, hcmd, -, hresp⟩
    have hin := List.mem_of_getElem? hp
    obtain ⟨hcommand, -, -, -⟩ := received_whole (p := p) (hk.client p hin).whole stale
    obtain ⟨h1, h2, -⟩ := h.logs.reaches hp ho (rank_of_command (hcommand ▸ hcmd) rfl)
    have hy := rank_rack h1 h2 h.logs.behind
    have hone := (h.server.record c hc).assembling hresp
    omega
  | _ => exact id

/-- The last piece of a longer query finds its first pieces at the server. -/
theorem Lockstep.not_takesPart (h : Lockstep cfg s x y) (hk : Kinds s) (ho : KeepsOrder s a) :
    ¬ TakesPart s a := by
  cases a with
  | srecv i stale =>
    rintro ⟨p, c, hp, hc, hcmd, hn, hst, hne⟩
    have hin := List.mem_of_getElem? hp
    have hof := h.client.c2s p hin
    obtain ⟨hcommand, hseqno, -, hnfrags⟩ :=
      received_whole (p := p) (hk.client p hin).whole stale
    rw [hcommand] at hcmd
    rw [hnfrags] at hne
    have hat := h.server.record c hc
    have hy : y % 8 = 4 ∨ y % 8 = 5 := by
      have hstate := hat.state
      rcases hst with hst | hst <;> rw [hst] at hstate
      · exact hstate
      · exact .inl hstate
    have hfresh := h.fresh_call hp ho (.inr rfl) (.inl hcmd) (rank_of_command hcmd rfl) hy
      fun h5 heq => by
        have hnum := hat.number
        rw [if_neg h5, ← heq, ← hseqno, hn] at hnum
        omega
    obtain ⟨-, -, hfirst⟩ := hof.query (.inl hcmd)
    have hle := hfirst (hof.last hcmd ▸ hne)
    omega
  | _ => exact id

/-- The last piece of a longer response finds its first pieces at the client. -/
theorem Lockstep.not_skipsToLastPiece (h : Lockstep cfg s x y) (hk : Kinds s)
    (ho : KeepsOrder s a) (ht : Stepped cfg s a t) : ¬ SkipsToLastPiece s a := by
  cases ht with
  | cdead _ hs =>
    intro hskip
    cases a with
    | crecv i stale =>
      obtain ⟨-, c, -, hc, -⟩ := hskip
      rw [hs] at hc
      cases hc
    | _ => exact hskip
  | @crecv i stale p hcf hp =>
    rintro ⟨p', c, hp', hc, hcmd, hn, hst, hne⟩
    obtain rfl : p = p' := Option.some.inj (hp.symm.trans hp')
    have hin := List.mem_of_getElem? hp
    obtain ⟨hcommand, hseqno, -, hnfrags⟩ :=
      received_whole (p := p) (hk.server p hin).whole stale
    rw [hcommand] at hcmd
    rw [hnfrags] at hne
    have hx := h.waiting_rank hcf hc hst
    have hnum := (h.client.record hcf c hc).number
    rw [if_neg (by omega)] at hnum
    have hwire : p.seqno = wire (s.numberOf cfg (x / 8)) := by
      have hlt := (p.received stale).seqno_lt
      rw [hn] at hlt
      rw [← hseqno, hn, ← hnum]
      exact (Nat.mod_eq_of_lt hlt).symm
    obtain ⟨hcall, -⟩ := h.piece_call hp ho (.inl hcmd) hwire
    obtain ⟨a, -, k, -, -, -, -, -, hpiece, hf, hnf, -⟩ := h.piece hin (.inl hcmd)
    have hall := eq_pieces (by decide) (hpiece.symm.trans hcmd)
    have hle := ((h.server.s2c p hin).data (.inl hcmd)).2.1 (by rw [hf, hall, ← hnf]; exact hne)
    omega
  | _ => exact id

/-- Below the limit the numbers of the calls follow the one of `rpc_connect`. -/
theorem Numbers.numberOf (h : Numbers cfg s) {i : Nat} (hi : i ≤ s.calls.length) :
    wire (s.numberOf cfg i) = cfg.seqno + i := by
  have hlim := h.limit
  simp only [Session.last, SEQNO_LIMIT] at hlim
  have hnum : s.numberOf cfg i = cfg.seqno + i := by
    cases i with
    | zero => rfl
    | succ i =>
      have hget := List.getElem?_eq_getElem (Nat.lt_of_succ_le hi)
      have hcall := h.calls i _ hget
      rw [Session.numberOf, hget]
      show (s.calls[i]).number = cfg.seqno + (i + 1)
      omega
  rw [hnum]
  exact Nat.mod_eq_of_lt (by omega)

/-- A worker answers its own query, and no other has answered it. -/
theorem Lockstep.not_misAnswers (h : Lockstep cfg s x y) (hn : Numbers cfg s) :
    ¬ MisAnswers s a := by
  cases a with
  | respond i rb =>
    rintro ⟨e, c, hi, hc, -, hbad⟩
    obtain ⟨hy, h1, hnum⟩ := h.server.element e
      (List.mem_append_right _ (List.mem_of_getElem? hi))
    have hle := h.call_le
    have hdiv : y / 8 = e.call := by omega
    rcases hbad with hne | ⟨b, hb, heq, -⟩
    · have hrec := (h.server.record c hc).number
      rw [if_neg (by omega), hdiv] at hrec
      exact hne (hnum.trans hrec.symm)
    · obtain ⟨hlt, -, -, hbnum⟩ := h.server.answer b hb
      rw [hnum, hbnum, hn.numberOf (by omega), hn.numberOf (by omega)] at heq
      omega
  | _ => exact id

/-- While a query is in the queue no worker has one. -/
theorem Lockstep.oneWorker (h : Lockstep cfg s x y) (hn : Session.next cfg s a = some t) :
    OneWorker s a := by
  cases a with
  | query len =>
    cases hq : s.queue with
    | nil => simp [Session.next, Session.clientNext, Session.serverNext, hq] at hn
    | cons e queue =>
      have hone := h.server.one
      obtain ⟨hy, -, -⟩ := h.server.element e (by simp [hq])
      refine ⟨?_, h.no_worker (.inr (by omega))⟩
      rw [hq, List.cons_append, List.length_cons, List.length_append] at hone
      exact List.eq_nil_of_length_eq_zero (by omega)
  | _ => trivial

end Runs

/-! ## Completed calls -/

section Completed

variable {cfg : Config} {t : Session} {n : Nat}

theorem settled_of_orderly {pre mid : List (Session × Event)} {e : Session × Event}
    (ht : (sessionSystem cfg).Trace Orderly (pre ++ e :: mid) t)
    (hset : ∀ u, Session.next cfg e.1 e.2 = some u → Settled u n)
    (hown : ∀ e ∈ mid, ¬ Departs e.1 e.2) : (∀ e ∈ mid, Settled e.1 n) ∧ Settled t n := by
  induction mid using List.reverseRecOn generalizing t with
  | nil => exact ⟨fun e he => (by cases he), hset t ht.unsnoc.2.2⟩
  | append_singleton mid x ih =>
    obtain ⟨s, a⟩ := x
    rw [← List.cons_append, ← List.append_assoc] at ht
    obtain ⟨hs, ho, hn⟩ := ht.unsnoc
    obtain ⟨hmid, hsettled⟩ := ih hs fun e he => hown e (List.mem_append_left _ he)
    have hreach := hs.reach
    have hstep := next_stepped hn
    have hk := kinds_of_steps hreach
    obtain ⟨x, y, hxy⟩ := lockstep_of_reach (fun _ _ ho => ho) hreach
    have hlate := hxy.not_lateAck hk ho.order hstep hsettled
    have hend := hsettled.step hk (opened_of_steps hreach) hstep (hown (s, a) (by simp)) hlate
    refine ⟨fun e he => ?_, hend⟩
    rcases List.mem_append.mp he with he | he
    · exact hmid e he
    · rw [List.mem_singleton.mp he]
      exact hsettled

end Completed

/-- **A completed call stays completed** over channels that keep their order: from the step in
which the client accepts a response on, as long as the program itself does not leave `ST_IDLE`. -/
theorem completed_stays_orderly {cfg : Config} {pre mid : List (Session × Event)} {s u : Session}
    {i : Nat} {stale : Bytes} {p : Packet} {c : CRecord}
    (ht : (sessionSystem cfg).Trace Orderly (pre ++ (s, .crecv i stale) :: mid) u)
    (hp : s.s2c[i]? = some p) (hc : s.ccr = some c) (hacc : TakesResponse c (p.received stale))
    (hown : ∀ e ∈ mid, ¬ Departs e.1 e.2) :
    (∀ e ∈ mid, Completed cfg e.1 c.seqno) ∧ Completed cfg u c.seqno := by
  have hreach := ht.before.1.reach
  have hin := List.mem_of_getElem? hp
  have hn : (p.received stale).n < RECV_SIZE := by
    obtain ⟨x, y, hxy⟩ := lockstep_of_reach (fun _ _ ho => ho) hreach
    obtain ⟨hcommand, -⟩ :=
      received_whole (p := p) ((kinds_of_steps hreach).server p hin).whole stale
    obtain ⟨a, -, k, -, -, -, -, -, -, -, -, hb⟩ :=
      hxy.piece hin (.inl (hcommand.symm.trans hacc.1))
    rw [Packet.received, hb]
    exact received_piece_n
  have hset : ∀ v, Session.next cfg s (.crecv i stale) = some v → Settled v c.seqno := by
    intro v hv
    obtain ⟨c', hc', hst, hs⟩ := hacc.settles hn
    cases next_stepped hv with
    | cdead _ hs => rw [hs] at hc; cases hc
    | crecv _ hp' =>
      rw [hp] at hp'
      cases hp'
      refine ⟨c', ?_, hst, hs⟩
      change (readerSwitch (fun _ => none) 0 s.ccr (p.received stale)).cr = some c'
      rw [hc]
      exact hc'
  obtain ⟨hmid, hend⟩ := settled_of_orderly ht hset hown
  exact ⟨fun e he => (hmid e he).completed, hend.completed⟩

/-- Datagram 2 holds the response that the client's record awaits, and its caller waits. -/
def collectedCheck (s : Session) : Bool :=
  s.s2c[2]?.any fun d => s.ccr.any fun c =>
    (Session.next (hwdbConfig 0) s (.crecv 2 [])).any fun t =>
      orderlyCheck s (.crecv 2 []) &&
        decide ((d.received []).command = some .response ∧ (d.received []).seqno = c.seqno ∧
          c.state = .awaitingResponse) &&
        (Session.next (hwdbConfig 0) t (.resume 0)).isSome &&
        t.waiting == [.call 1 [7] 10 (.query 1)]

/-- The response is accepted, and the caller collects it. -/
theorem completed_stays_orderly_collected :
    ∃ (s t u : Session) (d : Packet) (c : CRecord), s.s2c[2]? = some d ∧ s.ccr = some c ∧
      Session.next (hwdbConfig 0) s (.crecv 2 []) = some t ∧
      Session.next (hwdbConfig 0) t (.resume 0) = some u ∧
      Completed (hwdbConfig 0) t c.seqno ∧ Completed (hwdbConfig 0) u c.seqno := by
  obtain ⟨es, s, hes, hs⟩ := System.Trace.of_run (sessionSystem (hwdbConfig 0)) Orderly
    orderlyCheck (answered ++ [.crecv 1 []]) collectedCheck
    (fun _ _ h => orderly_of_check h) (by decide +kernel) (by decide +kernel)
  obtain ⟨d, hd, hs⟩ := (Option.any_eq_true ..).mp hs
  obtain ⟨c, hc, hs⟩ := (Option.any_eq_true ..).mp hs
  obtain ⟨t, ht, hs⟩ := (Option.any_eq_true ..).mp hs
  simp only [Bool.and_eq_true, decide_eq_true_eq, beq_iff_eq] at hs
  obtain ⟨⟨⟨hord, hcmd, hn, hst⟩, hsome⟩, hwait⟩ := hs
  obtain ⟨u, hu⟩ := Option.isSome_iff_exists.mp hsome
  have hresume : Orderly t (.resume 0) := ⟨trivial, trivial, trivial, fun h => (by cases h)⟩
  have htrace := (hes.snoc (orderly_of_check hord) ht).snoc hresume hu
  rw [List.append_assoc, List.singleton_append] at htrace
  obtain ⟨hmid, hend⟩ := completed_stays_orderly htrace hd hc ⟨hcmd, .inl ⟨hn, .inr hst⟩⟩ (by
    simp [Departs, hwait])
  exact ⟨s, t, u, d, c, hd, hc, ht, hu, hmid _ (List.mem_singleton.mpr rfl), hend⟩

/-! ## Queries and responses -/

/-- Two threads call: the second one starts before the first one has collected its response. -/
def overlapping : List Event :=
  answered ++ [.crecv 1 [], .crecv 2 [], .call [8] 10, .srecv 2 [], .srecv 3 [], .query 10,
    .respond 0 [5], .crecv 3 [], .crecv 4 [], .resume 0, .resume 0]

/-- **At most once and in order** over channels that keep their order, with any number of client
threads and of workers, and no `RACK` that drops a half assembled query can arrive. -/
theorem inOrder_orderly {cfg : Config} {s : Session} (hlim : cfg.seqno < SEQNO_LIMIT)
    (h : (sessionSystem cfg).Reach (fun s a => Below s ∧ Orderly s a) s) :
    InOrder cfg s ∧ ∀ a, KeepsOrder s a → ¬ DropsPartial s a := by
  have hdrop : ∀ u, (sessionSystem cfg).Reach (fun s a => Below s ∧ Orderly s a) u →
      ∀ a, KeepsOrder u a → ¬ DropsPartial u a := by
    intro u hu a ho
    obtain ⟨x, y, hxy⟩ := lockstep_of_reach (fun _ _ ho => ho.2) hu
    exact hxy.not_dropsPartial (kinds_of_steps hu) ho
  have hok : (sessionSystem cfg).Reach (fun s a => Below s ∧ ¬ DropsPartial s a) s :=
    h.mono_reach fun u a hu ha => ⟨ha.1, hdrop u hu a ha.2.order⟩
  have hdel : Delivering cfg s := delivering_of_reach (Nat.le_of_lt hlim) (fun _ _ ha => ha) hok
  exact ⟨⟨hdel.order, hdel.issued⟩, hdrop s h⟩

/-- The queries of two threads. -/
theorem inOrder_orderly_overlapping :
    ∃ s, (sessionSystem (hwdbConfig 0)).Reach (fun s a => Below s ∧ Orderly s a) s ∧
      s.deliveredTo 1 = [1, 2] ∧
      InOrder (hwdbConfig 0) s ∧ ∀ a, KeepsOrder s a → ¬ DropsPartial s a := by
  obtain ⟨s, hr, hp⟩ := System.Reach.of_run (sessionSystem (hwdbConfig 0))
    (fun s a => Below s ∧ Orderly s a) (fun s a => belowCheck s && orderlyCheck s a) overlapping
    (fun s => s.deliveredTo 1 == [1, 2])
    (fun s a h => by
      obtain ⟨hb, ho⟩ := Bool.and_eq_true_iff.mp h
      exact ⟨below_of_check hb, orderly_of_check ho⟩)
    (by decide +kernel) (by decide +kernel)
  exact ⟨s, hr, eq_of_beq hp, inOrder_orderly (by decide) hr⟩

/-- **Queries arrive as they were sent** over channels that keep their order, with any number of
client threads and of workers. -/
theorem queriesIntact_orderly {cfg : Config} {es : List (Session × Event)} {t : Session}
    (hlim : cfg.seqno < SEQNO_LIMIT)
    (h : (sessionSystem cfg).Trace (fun s a => Below s ∧ Orderly s a) es t) :
    QueriesIntact t ∧ ∀ e ∈ es, CopiesInside cfg e.1 e.2 := by
  have hle := Nat.le_of_lt hlim
  have hasm : ∀ s, (sessionSystem cfg).Reach (fun s a => Below s ∧ Orderly s a) s →
      Assembly s := by
    intro s hs
    refine assembly_of_reach hle (hs.mono_reach fun t a hr ha => ⟨ha.1, ?_⟩)
    obtain ⟨x, y, hxy⟩ := lockstep_of_reach (fun _ _ ho => ho.2) hr
    exact hxy.not_takesPart (kinds_of_steps hr) ha.2.order
  refine ⟨fun e he => ?_, fun e he => ?_⟩
  · obtain ⟨hissued, hbuf⟩ := (hasm t h.reach).queue e he
    refine ⟨hissued, fun call hmem hnum hq => ?_⟩
    refine holdsQuery_of_assembled hq (hbuf call.query ⟨?_, hq⟩)
    rw [← hnum]
    exact hmem
  · have hr := (h.mem e he).1
    have hnum := numbers_of_reach hle (fun _ _ ha => ha.1) hr
    exact (hasm e.1 hr).copiesInside hnum (kinds_of_steps hr) (roles_of_reach hr)

/-- A query of two pieces, after the `FACK` of the first. -/
theorem queriesIntact_orderly_twoPieces :
    ∃ es t, (sessionSystem (hwdbConfig 0)).Trace (fun s a => Below s ∧ Orderly s a) es t ∧
      t.deliveredTo 1 = [1] ∧ QueriesIntact t ∧
      ∀ e ∈ es, CopiesInside (hwdbConfig 0) e.1 e.2 := by
  obtain ⟨es, t, ht, hp⟩ := System.Trace.of_run (sessionSystem (hwdbConfig 0))
    (fun s a => Below s ∧ Orderly s a) (fun s a => belowCheck s && orderlyCheck s a) twoPieceCall
    (fun s => s.deliveredTo 1 == [1])
    (fun s a h => by
      obtain ⟨hb, ho⟩ := Bool.and_eq_true_iff.mp h
      exact ⟨below_of_check hb, orderly_of_check ho⟩)
    (by decide +kernel) (by decide +kernel)
  exact ⟨es, t, ht, eq_of_beq hp, queriesIntact_orderly (by decide) ht⟩

/-- A step of an orderly run: a worker fetches a query only when no other has one and answers it
under its own number with the bytes that the number was answered with, and no last piece is taken
for a whole response. -/
structure AnswersApart (s : Session) (a : Event) : Prop where
  worker : OneWorker s a
  whole : ¬ SkipsToLastPiece s a
  own : ¬ MisAnswers s a

/-- **A call returns the response to its query** over channels that keep their order, with one
client thread and any number of workers, all of it was received, and in every step the answers
stay apart. -/
theorem responsesIntact_orderly {cfg : Config} {es : List (Session × Event)} {t : Session}
    (hlim : cfg.seqno < SEQNO_LIMIT)
    (h : (sessionSystem cfg).Trace (fun s a => Below s ∧ SingleThread s a ∧ Orderly s a) es t) :
    ResponsesIntact cfg es t ∧ ∀ e ∈ es, AnswersApart e.1 e.2 := by
  have hle := Nat.le_of_lt hlim
  have hapart : ∀ e ∈ es, AnswersApart e.1 e.2 := by
    intro e he
    obtain ⟨hreach, ⟨-, -, ho⟩, u, hu⟩ := h.mem e he
    have hn := numbers_of_reach hle (fun _ _ ha => ha.1) hreach
    obtain ⟨x, y, hxy⟩ := lockstep_of_reach (fun _ _ ha => ha.2.2) hreach
    exact ⟨hxy.oneWorker hu,
      hxy.not_skipsToLastPiece (kinds_of_steps hreach) ho.order (next_stepped hu),
      hxy.not_misAnswers hn⟩
  have hquiet : ∀ s a, (Below s ∧ SingleThread s a ∧ Orderly s a) ∧ AnswersApart s a →
      InTurn s a ∧ ¬ SkipsToLastPiece s a ∧ ¬ MisAnswers s a :=
    fun _ _ ⟨⟨hbelow, hsingle, ho⟩, ha⟩ =>
      ⟨⟨hbelow, hsingle, ha.worker, ho.sendable⟩, ha.whole, ha.own⟩
  obtain ⟨ha, hrec⟩ := reception_of_trace hle ((h.and hapart).mono hquiet)
  refine ⟨fun r hr => ?_, hapart⟩
  obtain ⟨m, hg, hb⟩ := hrec.returns r hr
  exact ⟨m, hg.response, fun m' hm' => ha.responseOf_unique hg.response hm', hb, hg.delivered⟩

/-- A response of two pieces. -/
theorem responsesIntact_orderly_twoPieces :
    ∃ es t, (sessionSystem (hwdbConfig 0)).Trace
        (fun s a => Below s ∧ SingleThread s a ∧ Orderly s a) es t ∧
      t.returns = [⟨1, 1, some (twoPieces.map some)⟩] ∧
      ResponsesIntact (hwdbConfig 0) es t ∧ ∀ e ∈ es, AnswersApart e.1 e.2 := by
  obtain ⟨es, t, ht, hp⟩ := System.Trace.of_run (sessionSystem (hwdbConfig 0))
    (fun s a => Below s ∧ SingleThread s a ∧ Orderly s a)
    (fun s a => belowCheck s && decide (SingleThread s a) && orderlyCheck s a)
    (connecting ++ [.call [7] 2000, .srecv 1 [], .query 10, .respond 0 twoPieces, .crecv 1 [],
      .crecv 2 [], .srecv 2 [], .wresume 0, .crecv 3 [], .resume 0])
    (fun t => t.returns == [⟨1, 1, some (twoPieces.map some)⟩])
    (fun s a h => by
      simp only [Bool.and_eq_true, decide_eq_true_eq] at h
      exact ⟨below_of_check h.1.1, h.1.2, orderly_of_check h.2⟩)
    (by decide +kernel) (by decide +kernel)
  exact ⟨es, t, ht, eq_of_beq hp, responsesIntact_orderly (by decide) ht⟩

/-! ## Renumbering -/

/-- What a step does to the calls and the renumberings: nothing, a new renumbering, or a number
for a call that finds the record idle. -/
def Renumbers (s t : Session) : Prop :=
  (t.calls = s.calls ∧ t.issued = s.issued ∧ t.epoch = s.epoch) ∨
    (t.calls = s.calls ∧ t.issued = 0 ∧ t.epoch = s.epoch + 1 ∧ t.cfault = none ∧
      ∃ c, t.ccr = some c ∧ c.state = .seqnoSent) ∨
    (t.calls.length = s.calls.length + 1 ∧ t.issued = s.issued + 1 ∧ t.epoch = s.epoch ∧
      s.cfault = none ∧ ∃ c, s.ccr = some c ∧ c.state = .idle)

/-- The `SEQNO` messages of a client that has come to `x`, and the server that has come to `y`:
calls are numbered after a renumbering only when the server has taken it. -/
structure Renumbering (s : Session) (x y : Nat) : Prop where
  packets : ∀ p ∈ s.c2s, p.command = some .seqno → p.call + s.issued ≤ s.calls.length
  pending : x % 8 = 5 → s.issued = 0
  fresh : 0 < s.epoch → s.issued = 0 → x % 8 = 5
  taken : 0 < s.epoch → 0 < s.issued → 8 * s.calls.length + 5 ≤ y + 8 * s.issued

section Renumbering

variable {cfg : Config} {s t : Session} {x x' y y' v rsize : Nat} {a : Event} {q : Bytes}
  {c : CRecord} {w : Option CallWait} {st : CallStep} {ws : List Thread}

/-- A section of `rpc_call`. -/
theorem SectionTo.renumbers {ep sp : Nat} (ht : SectionTo s t q st v rsize ws)
    (hcf : s.cfault = none) (hc : s.ccr = some c) (h : CallSection ep sp q c w st) :
    Renumbers s t := by
  have hquiet : st.number = none → st.wait ≠ some .seqno → Renumbers s t := by
    intro hnumber hwait
    have hcalls : t.calls = s.calls := by
      rw [ht.calls, hnumber, callsAfter, Option.map_none, Option.toList_none, List.append_nil]
    refine .inl ⟨hcalls, ?_, ?_⟩
    · rw [ht.issued, if_neg hwait, hcalls, Nat.sub_self, Nat.add_zero]
    · rw [ht.epoch, if_neg hwait]
  have hgoes : ∀ {c' : CRecord} {number : Option Nat} {n k nf : Nat},
      Continues q c w c' number n k nf → st.number = number → st.wait ≠ some .seqno →
        Renumbers s t := by
    intro c' number n k nf hk hnumber hwait
    have hnumbers : ∀ n, st.number = some n → c.state = .idle → Renumbers s t := by
      intro n hn hidle
      have hcalls : t.calls.length = s.calls.length + 1 := by
        rw [ht.calls, hn, callsAfter, List.length_append]
        rfl
      refine .inr (.inr ⟨hcalls, ?_, ?_, hcf, c, hc, hidle⟩)
      · rw [ht.issued, if_neg hwait, hcalls, Nat.add_sub_cancel_left]
      · rw [ht.epoch, if_neg hwait]
    cases hk with
    | first hidle => exact hnumbers _ hnumber hidle
    | renumbered hidle => exact hnumbers _ hnumber hidle
    | next => exact hquiet hnumber hwait
  cases h with
  | refused => exact hquiet rfl (fun h => (by cases h))
  | timedout => exact hquiet rfl (fun h => (by cases h))
  | undefined => exact hquiet rfl (fun h => (by cases h))
  | renumber =>
    refine .inr (.inl ⟨?_, ?_, ?_, ht.fault, _, ht.ccr, rfl⟩)
    · rw [ht.calls, callsAfter, Option.map_none, Option.toList_none, List.append_nil]
    · rw [ht.issued, if_pos rfl]
    · rw [ht.epoch, if_pos rfl]
  | fragment hk => exact hgoes hk rfl (fun h => (by cases h))
  | query hk => exact hgoes hk rfl (fun h => (by cases h))
  | collected n rsize =>
    obtain ⟨result, fault, he⟩ := rpcCallCollect_eq c rsize
    rw [he] at hquiet
    exact hquiet rfl (fun h => (by cases h))

theorem Stepped.renumbers (ht : Stepped cfg s a t) : Renumbers s t := by
  cases ht with
  | @call q rsize c hcf _ hc =>
    exact (sectionTo_call s q _ rsize).renumbers hcf hc (rpcCallBegin_section 0 cfg.subport q c)
  | @resumed i v q rsize w c st hcf hi hc hst =>
    exact (sectionTo_resume s q st v rsize i _ _).renumbers hcf hc (rpcCallResume_section hst)
  | _ => exact .inl ⟨rfl, rfl, rfl⟩

/-- A `SEQNO` that the client has just built. -/
theorem ClientSends.seqno {p : Packet} (h : ClientSends cfg s t p)
    (hcmd : p.command = some .seqno) :
    p.call = t.calls.length ∧ s.cfault = none ∧ ∃ c, s.ccr = some c := by
  cases h with
  | connect =>
    rw [message_packet_command] at hcmd
    cases hcmd
  | disconnect =>
    rw [message_packet_command] at hcmd
    cases hcmd
  | call hcf hc => exact ⟨rfl, hcf, _, hc⟩
  | @answer d b stale hp hb =>
    obtain ⟨cmd, ack, fnum, nfrags, -, hack, rfl⟩ := hb
    have hc : (⟨ackPayload (d.received stale) ack fnum nfrags, s.calls.length⟩ : Packet).command =
        some ack := message_packet_command ..
    cases Option.some.inj (hc.symm.trans hcmd)
    cases cmd <;> cases hack
  | ping =>
    rw [message_packet_command] at hcmd
    cases hcmd

/-- **Every step** keeps what is known of the renumbering. -/
theorem Renumbering.step (hn : Renumbering s x y) (h : Lockstep cfg s x y)
    (h' : Lockstep cfg t x' y') (hk : Kinds s) (hmoves : Moves s t x x') (hy : y ≤ y')
    (ht : Stepped cfg s a t) : Renumbering t x' y' := by
  have hcalls := h.client.calls
  have hcalls' := h'.client.calls
  have hle := ht.calls.length_le
  have hrenumbers := ht.renumbers
  have hpending : x' % 8 = 5 → t.issued = 0 := by
    intro hx'
    rcases hmoves.enters with rfl | hlow | hepoch
    · rcases hrenumbers with ⟨-, hi, -⟩ | ⟨-, hi, -⟩ | ⟨hlen, -⟩
      · exact hi.trans (hn.pending hx')
      · exact hi
      · omega
    · omega
    · rcases hrenumbers with ⟨-, -, he⟩ | ⟨-, hi, -⟩ | ⟨-, -, he, -⟩
      · omega
      · exact hi
      · omega
  refine ⟨fun p hp hcmd => ?_, hpending, fun hepoch hissued => ?_, fun hepoch hissued => ?_⟩
  · rcases ht.c2s hk p hp with hold | hnew
    · have hbound := hn.packets p hold hcmd
      rcases hrenumbers with ⟨hc, hi, -⟩ | ⟨hc, hi, -⟩ | ⟨hlen, hi, -⟩
      · rw [hc, hi]
        exact hbound
      · rw [hc, hi]
        omega
      · omega
    · obtain ⟨hcall, hcf, c, hc⟩ := hnew.seqno hcmd
      have hrank := h'.logs.c2s.le hp (rank_of_command hcmd rfl)
      -- the client has come to this renumbering, whichever step of it this is
      have hx' : x' % 8 = 5 ∨ t.issued = 0 := by
        rcases hmoves.enters with rfl | hlow | hgrew
        · have hin := (h.client.record hcf c hc).state.le
          exact .inl (by omega)
        · omega
        · rcases hrenumbers with ⟨-, -, he⟩ | ⟨-, hi, -⟩ | ⟨-, -, he, -⟩
          · omega
          · exact .inr hi
          · omega
      have hzero : t.issued = 0 := hx'.elim hpending id
      omega
  · rcases hrenumbers with ⟨hc, hi, he⟩ | ⟨-, -, -, hcf, c, hc, hst⟩ | ⟨-, hi, -⟩
    · have hx := hn.fresh (he ▸ hepoch) (hi ▸ hissued)
      rcases hmoves.leaves hx with rfl | hgrew
      · exact hx
      · rw [hc] at hgrew
        omega
    · have hin := (h'.client.record hcf c hc).state
      rw [hst] at hin
      exact hin
    · omega
  · rcases hrenumbers with ⟨hc, hi, he⟩ | ⟨-, hi, -⟩ | ⟨hlen, hi, he, hcf, c, hc, hst⟩
    · have htaken := hn.taken (he ▸ hepoch) (hi ▸ hissued)
      rw [hc, hi]
      omega
    · omega
    · rcases Nat.eq_zero_or_pos s.issued with hzero | hpos
      · have hx := hn.fresh (he ▸ hepoch) hzero
        have hack := (h.client.record hcf c hc).acked (.inr ⟨hst, hx⟩)
        omega
      · have htaken := hn.taken (he ▸ hepoch) hpos
        omega

theorem renumbering_of_reach {ok : Session → Event → Prop} (hok : ∀ s a, ok s a → Orderly s a)
    (h : (sessionSystem cfg).Reach ok s) : ∃ x y, Lockstep cfg s x y ∧ Renumbering s x y := by
  refine h.invariant_reach (I := fun s => ∃ x y, Lockstep cfg s x y ∧ Renumbering s x y)
    ⟨0, 0, lockstep_init, fun p hp => (by cases hp), nofun, nofun, nofun⟩
    fun s a t hr ⟨x, y, hxy, hn⟩ ha hnext => ?_
  have hk := kinds_of_steps hr
  have ht := next_stepped hnext
  obtain ⟨x', y', hmoves, hy, hxy'⟩ :=
    hxy.step hk (roles_of_reach hr) (shortThreads_of_reach hok hr) (hok s a ha) ht
  exact ⟨x', y', hxy', hn.step hxy hxy' hk hmoves hy ht⟩

/-- A copy of the `SEQNO` finds its record where the renumbering left it. -/
theorem Renumbering.not_rewinds (hn : Renumbering s x y) (h : Lockstep cfg s x y) (hk : Kinds s)
    (ho : KeepsOrder s a) : ¬ Rewinds s a := by
  cases a with
  | srecv i stale =>
    rintro ⟨p, c, hp, hc, -, hcmd, ⟨hepoch, hissued⟩, hbad⟩
    have hin := List.mem_of_getElem? hp
    obtain ⟨hcommand, -, -, -⟩ := received_whole (p := p) (hk.client p hin).whole stale
    rw [hcommand] at hcmd
    obtain ⟨h1, h2, -⟩ := h.logs.reaches hp ho (rank_of_command hcmd rfl)
    have hbound := hn.packets p hin hcmd
    have htaken := hn.taken hepoch hissued
    have hy : y % 8 = 5 := by
      rcases serverFloor_cases y with ⟨hy, hf⟩ | ⟨hy, hf⟩ <;> omega
    have hat := h.server.record c hc
    rcases hbad with hst | ⟨-, hne⟩
    · have hstate := hat.state
      rw [hst] at hstate
      have hfour : y % 8 = 4 := hstate
      omega
    · have hnum := hat.number
      rw [if_pos hy] at hnum
      exact hne hnum
  | _ => exact id

end Renumbering

/-- **Copies of the `SEQNO` do no harm** over channels that keep their order, with any number of
client threads and of workers. -/
theorem renumberingSafe_orderly {cfg : Config} {es : List (Session × Event)} {t : Session}
    (h : (sessionSystem cfg).Trace Orderly es t) : RenumberingSafe cfg es t := by
  have hno : ∀ e ∈ es, ¬ Rewinds e.1 e.2 := by
    intro e he
    obtain ⟨hreach, ho, -⟩ := h.mem e he
    obtain ⟨x, y, hxy, hn⟩ := renumbering_of_reach (fun _ _ ha => ha) hreach
    exact hn.not_rewinds hxy (kinds_of_steps hreach) ho.order
  have hquiet : (sessionSystem cfg).Trace (fun s a => ¬ Rewinds s a) es t :=
    (h.and hno).mono fun _ _ ha => ha.2
  have hnodup : ∀ s, Rising s → s.since.Nodup := fun s hs =>
    hs.sorted.imp fun hlt => Nat.ne_of_lt hlt
  refine ⟨fun e he hcopy u hu => ?_, fun e he => ?_, hnodup t (rising_of_reach hquiet.reach)⟩
  · exact keepsPlace_of_not_rewinds hcopy (hno e he) hu
  · exact hnodup e.1 (rising_of_reach (hquiet.mem e he).1)

/-- A renumbering and its first query. -/
theorem renumberingSafe_orderly_renumbered :
    ∃ es t, (sessionSystem (hwdbConfig SEQNO_LIMIT)).Trace Orderly es t ∧ t.Renumbered ∧
      t.since = [1] ∧ RenumberingSafe (hwdbConfig SEQNO_LIMIT) es t := by
  obtain ⟨es, t, ht, hp⟩ := System.Trace.of_run (sessionSystem (hwdbConfig SEQNO_LIMIT)) Orderly
    orderlyCheck renumbered (fun t => decide t.Renumbered && t.since == [1])
    (fun _ _ h => orderly_of_check h) (by decide +kernel) (by decide +kernel)
  simp only [Bool.and_eq_true, decide_eq_true_eq, beq_iff_eq] at hp
  exact ⟨es, t, ht, hp.1, hp.2, renumberingSafe_orderly ht⟩

end Hwdb.Rpc
