import Mathlib.Data.List.Pairwise
import Hwdb.Rpc.Changes
import Hwdb.Rpc.Subports

/-!
# Calls of `rpc_connect` that fail (`srpc.c`, `rpc_connect`, `timer`)

`rpc_connect` inserts its record, sends the `CONNECT` and sleeps until the record is in
`ST_IDLE` or `ST_TIMEDOUT`; in `ST_TIMEDOUT` it takes the record out of the table, frees the
endpoint and returns NULL.  The purge loop of `timer` destroys every record in `ST_TIMEDOUT`,
asleep or not.

* `Unanswered` — a thread sleeps inside `rpc_connect` and no `CACK` has been accepted for it.
* `Sleeping` — what a record keeps while its thread is `Unanswered`: in the table, quiet, and
  known to nobody else.
* `LeftAlone` — the steps that leave such records to their threads.
* `failed_connect_leaves_no_trace` — what a failed call leaves behind in the runs made of them.
* `purged_before_woken` — what happens to the thread when `timer` comes first.
-/

set_option autoImplicit false

namespace Hwdb.Rpc

open Hwdb.Lib

/-- The endpoint that a thread has as an argument of the call it is in. -/
def Wait.endpoint : Wait → Option Nat
  | .call ep .. => some ep
  | .response ep .. => some ep
  | _ => none

/-- Endpoint `e` is with a client, in a queue, with a worker or with a thread that waits. -/
def Knows (s : Process) (e : Nat) : Prop :=
  Holds s e ∨ ∃ w ∈ s.waiting, w.wait.endpoint = some e

/-- The reader takes a `CACK` for record `r`. -/
def AcceptsCack (s : Process) (r : Nat) : Act → Prop
  | .recv addr d => s.lookup ⟨addr, d.subport⟩ = some r ∧ d.command = some .cack ∧
      d.seqno = (s.records r).seqno
  | _ => False

/-- A `CACK` has been accepted for record `r`. -/
def CackAccepted (es : List (Process × Act)) (r : Nat) : Prop := ∃ e ∈ es, AcceptsCack e.1 r e.2

/-- A thread sleeps inside `rpc_connect` on record `r`, for which no `CACK` has been accepted. -/
def Unanswered (es : List (Process × Act)) (s : Process) (r : Nat) : Prop :=
  ⟨r, .connect⟩ ∈ s.waiting ∧ ¬ CackAccepted es r

/-- The call on record `r` has failed in the step from `s` to `u`: NULL is returned, the table
has the records of the others, and nobody refers to the record or to the endpoint. -/
structure FailsCleanly (s u : Process) (r : Nat) : Prop where
  fault : u.fault = none
  null : u.handles = s.handles
  table : ∀ x, Chains.Mem u.table x ↔ Chains.Mem s.table x ∧ x ≠ r
  frees : u.recordFrees r ≤ 1 ∧ u.endpointFrees r ≤ 1
  threads : ∀ w ∈ u.waiting, w.record ≠ r
  unknown : ¬ Knows u r
  records : ∀ x, x < u.fresh → x ≠ r → (u.records x).ep ≠ r

/-- The call for a host that does not resolve has returned NULL and allocated nothing. -/
structure ReturnsNull (s u : Process) : Prop where
  fault : u.fault = none
  fresh : u.fresh = s.fresh
  table : u.table = s.table
  waiting : u.waiting = s.waiting
  handles : u.handles = s.handles

/-- **A failed call leaves no trace**: in the run `es`, and in `t` after it. -/
structure LeavesNoTrace (pid : Nat) (es : List (Process × Act)) (t : Process) : Prop where
  unresolved : ∀ e ∈ es, ∀ svcName seqno, e.2 = .connect none svcName seqno →
    ∃ u, Process.next pid e.1 e.2 = some u ∧ ReturnsNull e.1 u
  wakes : t.fault = none → ∀ i g r, t.waiting[i]? = some ⟨r, .connect⟩ →
    (t.records r).state = .timedout → ∃ u, Process.next pid t (.resume i g) = some u
  fails : ∀ i g r u, t.waiting[i]? = some ⟨r, .connect⟩ → ¬ CackAccepted es r →
    Process.next pid t (.resume i g) = some u → FailsCleanly t u r

/-! ## The condition -/

/-- A datagram that is no `CACK` and makes a record of `rpc_connect` idle. -/
def TakenForCack (cr : CRecord) (d : Received) : Prop :=
  d.seqno = cr.seqno ∧ (d.command = some .rack ∨ d.command = some .response ∧
    (cr.state = .awaitingResponse ∨
      cr.state = .fackSent ∧ d.fnum = cr.lastFrag + 1 ∧ d.fnum = d.nfrags))

/-- The host resolves; no tick finds a record in `ST_TIMEDOUT` while its thread still sleeps; no
thread disconnects the record and no other datagram is taken for its `CACK`. -/
def LeftAlone (es : List (Process × Act)) (s : Process) : Act → Prop
  | .connect addr _ _ => addr ≠ none
  | .tick => ∀ r, Unanswered es s r → (s.records r).state ≠ .timedout
  | .disconnect rpc g => ∀ r, Unanswered es s r → s.lookup (s.readEndpoint rpc g) ≠ some r
  | .recv addr d => ∀ r, Unanswered es s r → s.lookup ⟨addr, d.subport⟩ = some r →
      ¬ TakenForCack (s.records r) d
  | _ => True

/-- Every step of the run is one of those. -/
def AllLeftAlone (es : List (Process × Act)) : Prop :=
  ∀ before s a after, es = before ++ (s, a) :: after → LeftAlone before s a

/-! ## What happens to a record while its thread sleeps -/

/-- The states before the `CACK`: a `QACK` or a fragment is taken there as well. -/
def State.quiet (st : State) : Bool :=
  st == .connectSent || st == .awaitingResponse || st == .fackSent || st == .timedout

/-- The record of a thread inside `rpc_connect`. -/
structure Quiet (c : CRecord) : Prop where
  state : c.state.quiet = true
  svc : c.svc = none

section Quiet

variable {c c' : CRecord} {stable : Bytes → Option Nat} {nep : Nat} {d : Received}
  {out : Outcome}

theorem Quiet.ne (h : Quiet c) {st : State} (hst : st.quiet = false) : c.state ≠ st := by
  rintro rfl
  rw [h.state] at hst
  cases hst

theorem Quiet.timedout_of_matched (h : Quiet c)
    (hm : matchedState c [.idle, .timedout] = true) : c.state = .timedout := by
  have hidle := h.ne (show State.idle.quiet = false from rfl)
  simpa [matchedState, hidle] using hm

/-- A query is not appended for a record without a service. -/
theorem Handled.unqueued (h : Handled stable nep d (some c) out) (hq : Quiet c) :
    out.queued = none := by
  cases h with
  | queryWhole _ _ _ hst =>
    rcases hst with hst | hst
    · exact absurd hst (hq.ne rfl)
    · exact absurd hst (hq.ne rfl)
  | queryLast c p _ _ _ _ _ _ =>
    rcases readerQueryNew_cases { c with resp := none } d p (DP_SIZE + d.tlen) with
      ⟨-, heq⟩ | ⟨sr, hsr, -⟩
    · rw [heq]
    · exact absurd (hq.svc.symm.trans hsr) (by simp)
  | _ => rfl

/-- **One datagram** that is not taken for the `CACK` leaves the record quiet. -/
theorem Handled.quiet (h : Handled stable nep d (some c) out) (hq : Quiet c)
    (hcack : ¬ (d.command = some .cack ∧ d.seqno = c.seqno)) (hno : ¬ TakenForCack c d)
    (hc : out.cr = some c') : Quiet c' := by
  cases h with
  | ignored => cases hc; exact hq
  | terminator => cases hc; exact hq
  | strayName => cases hc; exact hq
  | reconnected _ _ _ _ hst => exact absurd hst (hq.ne rfl)
  | cack _ hcmd hn => exact absurd ⟨hcmd, hn⟩ hcack
  | queryWhole _ _ _ hst =>
    rcases hst with hst | hst
    · exact absurd hst (hq.ne rfl)
    · exact absurd hst (hq.ne rfl)
  | queryLast c p _ _ _ _ _ _ =>
    rcases readerQueryNew_cases { c with resp := none } d p (DP_SIZE + d.tlen) with
      ⟨-, heq⟩ | ⟨sr, hsr, -⟩
    · rw [heq] at hc
      cases hc
      exact ⟨hq.state, hq.svc⟩
    · exact absurd (hq.svc.symm.trans hsr) (by simp)
  | queryOld _ _ _ hst =>
    rcases hst with hst | hst
    · exact absurd hst (hq.ne rfl)
    · exact absurd hst (hq.ne rfl)
  | qack => cases hc; exact ⟨rfl, hq.svc⟩
  | responseWhole _ hcmd hn hst =>
    rcases hst with hst | hst
    · exact absurd hst (hq.ne rfl)
    · exact absurd ⟨hn, .inr ⟨hcmd, .inl hst⟩⟩ hno
  | responseLast _ _ hcmd hn hst hf hnf =>
    exact absurd ⟨hn, .inr ⟨hcmd, .inr ⟨hst, hf, hnf⟩⟩⟩ hno
  | rack _ hcmd hn => exact absurd ⟨hn, .inl hcmd⟩ hno
  | disconnect => cases hc; exact ⟨rfl, hq.svc⟩
  | dack => cases hc; exact ⟨rfl, hq.svc⟩
  | fragmentFirst => cases hc; exact ⟨rfl, hq.svc⟩
  | fragmentNext => cases hc; exact ⟨rfl, hq.svc⟩
  | fragmentOld => cases hc; exact ⟨hq.state, hq.svc⟩
  | fragmentFault => cases hc; exact hq
  | copyFault => cases hc; exact hq
  | fack _ _ _ hst => exact absurd hst (hq.ne rfl)
  | ping => cases hc; exact hq
  | pack => cases hc; exact ⟨hq.state, hq.svc⟩
  | seqno _ _ hst =>
    rcases hst with hst | hst
    · exact absurd hst (hq.ne rfl)
    · exact absurd hst (hq.ne rfl)
  | sack _ _ hst => exact absurd hst (hq.ne rfl)

/-- **One tick.** -/
theorem Quiet.ticked (h : Quiet c) (ht : Relation.ReflTransGen TimerStep c c') : Quiet c' := by
  induction ht with
  | refl => exact h
  | @tail b c' _ hstep ih =>
    obtain ⟨q, hq, rfl | rfl⟩ := hstep.counters
    · exact ⟨hq.state ▸ ih.state, hq.svc.trans ih.svc⟩
    · exact ⟨rfl, hq.svc.trans ih.svc⟩

theorem quiet_connect (nep sp : Nat) (svcName : Bytes) (seqno : Nat) :
    Quiet (rpcConnectBegin nep sp svcName seqno).1 :=
  ⟨rfl, rfl⟩

/-- `rpc_call` and `rpc_response` return at once. -/
theorem Quiet.callBegin (h : Quiet c) (ep sp : Nat) (q : Bytes) :
    rpcCallBegin ep sp c q = .fail c :=
  if_neg (h.ne rfl)

theorem Quiet.responseBegin (h : Quiet c) (ep sp : Nat) (rb : Bytes) :
    rpcResponseBegin ep sp c rb = .fail c :=
  if_neg (h.ne rfl)

end Quiet

/-! ## Who gets to know an endpoint -/

section Steps

variable {s t u : Process} {a : Act} {pid e r : Nat} {es : List (Process × Act)}

theorem mem_handles_of_call {rpc rsize : Nat} {g : Endpoint} {q : Bytes}
    (h : Process.next pid s (.call rpc g q rsize) = some t) : rpc ∈ s.handles := by
  unfold Process.next at h
  split at h
  · cases h
  · dsimp only at h
    split at h
    · assumption
    · cases h

theorem mem_held_of_response {rpc : Nat} {g : Endpoint} {rb : Bytes}
    (h : Process.next pid s (.response rpc g rb) = some t) : rpc ∈ s.held := by
  unfold Process.next at h
  split at h
  · cases h
  · dsimp only at h
    split at h
    · assumption
    · cases h

theorem next_fresh_le (hc : Core s) (h : Process.next pid s a = some t) : s.fresh ≤ t.fresh := by
  cases next_keyed hc h with
  | shrinks hs => exact Nat.le_of_eq hs.fresh.symm
  | accepted _ _ hs => rw [hs.fresh]; omega
  | connected _ hs => rw [hs.fresh]; omega
  | unresolved _ ht => subst ht; exact Nat.le_refl _

/-- The ways into the hands of somebody: a query is appended, or `rpc_connect` returns. -/
inductive Learned (s : Process) (e : Nat) : Act → Prop where
  | queued {addr : Vector UInt8 ADDR_SIZE} {d : Received} (hl : s.lookup ⟨addr, d.subport⟩ = some e)
      (hq : (s.outcome (some e) d).queued ≠ none) : Learned s e (.recv addr d)
  | returned {i : Nat} {g : Endpoint} (hi : s.waiting[i]? = some ⟨e, .connect⟩) :
      Learned s e (.resume i g)

/-- What is in the hands of clients, queues and workers. -/
theorem holds_next (hc : Core s) (h : Process.next pid s a = some t) (hk : Holds t e) :
    Holds s e ∨ Learned s e a := by
  have heffect := (next_effect hc h).2
  rcases hk with hk | ⟨q, hq, rfl⟩ | hk
  · cases heffect with
    | plain hp => exact .inl (.inl (hp.handles e hk))
    | ticked => exact .inl (.inl ((tick_effect hc).2.handles ▸ hk))
    | connecting _ _ _ _ hh => exact .inl (.inl (hh ▸ hk))
    | @accepted i x g hi =>
      rcases List.mem_append.mp hk with hk | hk
      · exact .inl (.inl hk)
      · cases List.mem_singleton.mp hk
        exact .inr (.returned hi)
    | refused => exact .inl (.inl hk)
  · rcases next_queue h hq with hq | ⟨addr, d, x, rfl, hl, hq⟩
    · exact .inl (.inr (.inl ⟨q, hq, rfl⟩))
    · obtain ⟨c, hcr, hep⟩ := (readerSwitch_handled _).queued_ep hq
      obtain ⟨y, rfl, rfl⟩ := Option.map_eq_some_iff.mp hcr
      rw [hc.own_endpoint y (hc.allocated y (mem_of_lookup hl))] at hep
      rw [hep]
      exact .inr (.queued hl (by rw [hq]; exact Option.some_ne_none q))
  · left
    cases heffect with
    | plain hp =>
      rcases hp.held e hk with hk | hk
      · exact .inr (.inr hk)
      · exact .inr (.inl hk)
    | ticked => exact .inr (.inr ((tick_effect hc).2.held ▸ hk))
    | connecting _ _ _ _ _ _ hd => exact .inr (.inr (hd ▸ hk))
    | accepted => exact .inr (.inr hk)
    | refused => exact .inr (.inr hk)

/-- A thread starts to wait with an endpoint that somebody had. -/
theorem Waits.knows {w : Waiter} (h : Process.next pid s a = some t) (hw : Waits s a t w)
    (he : w.wait.endpoint = some e) : Knows s e := by
  cases hw with
  | connecting => cases he
  | called ha _ _ _ =>
    cases he
    subst ha
    exact .inl (.inl (mem_handles_of_call h))
  | callResumed _ hi _ _ _ => exact .inr ⟨_, List.mem_of_getElem? hi, he⟩
  | disconnecting => cases he
  | responded _ ha =>
    cases he
    obtain ⟨g, rfl⟩ := ha
    exact .inl (.inr (.inr (mem_held_of_response h)))
  | responseResumed hi _ _ => exact .inr ⟨_, List.mem_of_getElem? hi, he⟩

/-- **Who knows an endpoint after a step.** -/
theorem knows_next (hc : Core s) (h : Process.next pid s a = some t) (hk : Knows t e) :
    Knows s e ∨ Learned s e a := by
  rcases hk with hk | ⟨w, hw, he⟩
  · exact (holds_next hc h hk).imp_left .inl
  · left
    obtain ⟨l, new, hwt, hl, hnew⟩ := next_waited h
    rw [hwt] at hw
    rcases List.mem_append.mp hw with hw | hw
    · refine .inr ⟨w, ?_, he⟩
      rcases hl with ⟨rfl, -⟩ | ⟨i, g, -, rfl⟩
      · exact hw
      · exact List.mem_of_mem_eraseIdx hw
    · exact (hnew w (Option.mem_toList.mp hw)).knows h he

/-- What somebody knows has been allocated. -/
theorem knows_allocated (hc : Core s) (h : Process.next pid s a = some t)
    (hs : ∀ e, Knows s e → e < s.fresh) (hk : Knows t e) : e < t.fresh := by
  refine Nat.lt_of_lt_of_le ?_ (next_fresh_le hc h)
  rcases knows_next hc h hk with hk | hk
  · exact hs e hk
  · cases hk with
    | queued hl => exact hc.allocated e (mem_of_lookup hl)
    | returned hi => exact hc.waiters_allocated _ (List.mem_of_getElem? hi)

/-! ## Sleeping threads -/

/-- The record `r` of a thread that sleeps inside `rpc_connect`: only this thread and the table
have it. -/
structure Sleeping (s : Process) (r : Nat) : Prop where
  mem : Chains.Mem s.table r
  quiet : Quiet (s.records r)
  alone : s.waiting.Pairwise fun v w => ¬ (v.record = r ∧ w.record = r)
  unknown : ¬ Knows s r

/-- No other thread waits on the record. -/
theorem Sleeping.sleeper (h : Sleeping s r) (hw : ⟨r, .connect⟩ ∈ s.waiting) {w : Waiter}
    (hwt : w ∈ s.waiting) (hr : w.record = r) : w = ⟨r, .connect⟩ := by
  refine Decidable.by_contra fun hne => ?_
  have : Std.Symm fun v w : Waiter => ¬ (v.record = r ∧ w.record = r) :=
    ⟨fun v w hvw hwv => hvw hwv.symm⟩
  exact h.alone.forall hwt hw hne ⟨hr, rfl⟩

/-- Of the thread that runs and one that does not, only one waits on the record. -/
theorem Sleeping.others (h : Sleeping s r) {i : Nat} {v w : Waiter}
    (hi : s.waiting[i]? = some v) (hw : w ∈ s.waiting.eraseIdx i) :
    ¬ (w.record = r ∧ v.record = r) :=
  pairwise_eraseIdx (fun _ _ hvw hwv => hvw hwv.symm) h.alone hi w hw

/-- A thread that starts to wait does so on another record. -/
theorem Sleeping.waits (h : Sleeping s r) (hc : Core s) (hw : ⟨r, .connect⟩ ∈ s.waiting)
    (hdis : ∀ rpc g, a = .disconnect rpc g → s.lookup (s.readEndpoint rpc g) ≠ some r)
    {w : Waiter} (hwt : Waits s a t w) : w.record ≠ r := by
  have hlt := hc.allocated r h.mem
  cases hwt with
  | connecting => exact (Nat.ne_of_lt hlt).symm
  | called _ _ hwait _ =>
    rintro rfl
    rw [h.quiet.callBegin] at hwait
    cases hwait
  | callResumed _ hi _ _ _ =>
    intro hr
    cases h.sleeper hw (List.mem_of_getElem? hi) hr
  | disconnecting ha hl =>
    rintro rfl
    exact hdis _ _ ha hl
  | responded hwait _ =>
    rintro rfl
    rw [h.quiet.responseBegin] at hwait
    cases hwait
  | responseResumed hi _ _ =>
    intro hr
    cases h.sleeper hw (List.mem_of_getElem? hi) hr

/-- **One step** of the others on the contents of the record. -/
theorem Sleeping.changed (h : Sleeping s r) (hc : Core s) (hp : Unanswered es s r)
    (hok : LeftAlone es s a) (hcack : ¬ AcceptsCack s r a) (hch : Changed s a t r) :
    Quiet (t.records r) := by
  have hlt := hc.allocated r h.mem
  cases hch with
  | kept heq => rw [heq]; exact h.quiet
  | @received addr d ha hl hout hf =>
    subst ha
    refine (readerSwitch_handled _).quiet h.quiet (fun hd => ?_) (hok r hp hl) hout
    exact hcack ⟨hl, hd⟩
  | created _ hr => exact absurd hr (Nat.ne_of_lt hlt)
  | connected hr => exact absurd hr (Nat.ne_of_lt hlt)
  | ticked _ ht => exact h.quiet.ticked ht
  | called _ _ heq _ =>
    rw [heq, h.quiet.callBegin]
    exact h.quiet
  | callResumed _ hi => cases h.sleeper hp.1 (List.mem_of_getElem? hi) rfl
  | disconnected _ ha hl =>
    subst ha
    exact absurd hl (hok r hp)
  | responded heq _ =>
    rw [heq, h.quiet.responseBegin]
    exact h.quiet
  | responseResumed hi => cases h.sleeper hp.1 (List.mem_of_getElem? hi) rfl

/-- The record stays in the table. -/
theorem Sleeping.stays (h : Sleeping s r) (hc : Core s) (he : Effect s a t)
    (htick : a = .tick → (s.records r).state ≠ .timedout)
    (hrun : ∀ i g w, a = .resume i g → s.waiting[i]? = some w → w.record ≠ r) :
    Chains.Mem t.table r := by
  cases he with
  | plain hp => exact hp.mem r h.mem
  | ticked => exact ((tick_effect hc).2.mem r).mpr ⟨h.mem, fun hx => htick rfl hx.2⟩
  | connecting _ _ hm => exact (hm r).mpr (.inr h.mem)
  | accepted => exact h.mem
  | @refused i x g hi =>
    refine (mem_unlink (hc.eraseWaiter i s.handles)).mpr ⟨h.mem, ?_⟩
    exact (hrun i g _ rfl hi).symm

/-- **One step** of the others leaves the thread asleep as it was. -/
theorem Sleeping.next (h : Sleeping s r) (hc : Core s) (hp : Unanswered es s r)
    (hok : LeftAlone es s a) (hcack : ¬ AcceptsCack s r a) (hn : Process.next pid s a = some t)
    (hw : ⟨r, .connect⟩ ∈ t.waiting) : Sleeping t r := by
  obtain ⟨l, new, hwt, hl, hnew⟩ := next_waited hn
  have hother : ∀ w ∈ new.toList, w.record ≠ r := by
    intro w hw
    refine h.waits hc hp.1 ?_ (hnew w (Option.mem_toList.mp hw))
    rintro rpc g rfl
    exact hok r hp
  have hwl : ⟨r, .connect⟩ ∈ l := by
    rw [hwt] at hw
    rcases List.mem_append.mp hw with hw | hw
    · exact hw
    · exact absurd rfl (hother _ hw)
  have hrun : ∀ i g w, a = .resume i g → s.waiting[i]? = some w → w.record ≠ r := by
    rintro i g w rfl hi
    rcases hl with ⟨-, hne⟩ | ⟨j, g', ha, rfl⟩
    · exact absurd rfl (hne i g)
    · cases ha
      exact fun hr => h.others hi hwl ⟨rfl, hr⟩
  have hsub : l.Sublist s.waiting := by
    rcases hl with ⟨rfl, -⟩ | ⟨i, g, -, rfl⟩
    · exact .refl _
    · exact List.eraseIdx_sublist ..
  refine ⟨h.stays hc (next_effect hc hn).2 ?_ hrun, h.changed hc hp hok hcack (next_changed hn r),
    ?_, fun hk => ?_⟩
  · rintro rfl
    exact hok r hp
  · rw [hwt, List.pairwise_append]
    refine ⟨h.alone.sublist hsub, ?_, fun v _ w hw hvw => hother w hw hvw.2⟩
    cases new with
    | none => exact .nil
    | some w => exact List.pairwise_singleton ..
  · rcases knows_next hc hn hk with hk | hk
    · exact h.unknown hk
    · cases hk with
      | queued hl hq => exact hq ((readerSwitch_handled _).unqueued h.quiet)
      | returned hi => exact hrun _ _ _ rfl hi rfl

/-- `rpc_connect` falls asleep. -/
theorem sleeping_connect (hc : Core s) (hs : ∀ e, Knows s e → e < s.fresh)
    {addr : Vector UInt8 ADDR_SIZE} {svcName : Bytes} {seqno : Nat}
    (hn : Process.next pid s (.connect (some addr) svcName seqno) = some t) :
    Sleeping t s.fresh := by
  have hunknown : ¬ Knows t s.fresh := by
    intro hk
    rcases knows_next hc hn hk with hk | hk
    · exact Nat.lt_irrefl _ (hs _ hk)
    · cases hk
  have hold : ∀ w ∈ s.waiting, w.record ≠ s.fresh := fun w hw =>
    Nat.ne_of_lt (hc.waiters_allocated w hw)
  have halone : (s.waiting ++ [(⟨s.fresh, .connect⟩ : Waiter)]).Pairwise fun v w =>
      ¬ (v.record = s.fresh ∧ w.record = s.fresh) := by
    rw [List.pairwise_append]
    refine ⟨?_, List.pairwise_singleton .., fun v hv w _ hvw => hold v hv hvw.1⟩
    exact List.Pairwise.imp_of_mem (R := fun _ _ => True)
      (fun hv _ _ hvw => hold _ hv hvw.1) (List.pairwise_of_forall fun _ _ => trivial)
  unfold Process.next at hn
  split at hn
  · cases hn
  · cases hn
    refine ⟨Chains.mem_insert.mpr (.inl rfl), ?_, halone, hunknown⟩
    show Quiet (Function.update s.records s.fresh _ s.fresh)
    rw [Function.update_self]
    exact quiet_connect ..

/-- **The thread wakes up** and finds no `CACK` accepted. -/
theorem Sleeping.fails (h : Sleeping s r) (hc : Core s) {i : Nat} {g : Endpoint}
    (hi : s.waiting[i]? = some ⟨r, .connect⟩)
    (hn : Process.next pid s (.resume i g) = some u) : FailsCleanly s u r := by
  obtain ⟨hrf, hef⟩ := hc.table_live r h.mem
  have hothers : ∀ w ∈ s.waiting.eraseIdx i, w.record ≠ r := fun w hw hr =>
    h.others hi hw ⟨hr, rfl⟩
  have hmem := fun x => mem_unlink (x := x) (r := r) (hc.eraseWaiter i s.handles)
  unfold Process.next at hn
  split at hn
  · cases hn
  rename_i hfault
  have hnone : s.fault = none := by simpa using hfault
  simp only [hi] at hn
  rcases Process.resume_cases hn with ⟨-, hn⟩ | ⟨hfreed, -⟩
  case inr => exact absurd hrf hfreed
  simp only [Process.wake] at hn
  split at hn
  · rename_i hm
    rw [if_pos (h.quiet.timedout_of_matched hm)] at hn
    cases hn
    refine ⟨hnone, rfl, hmem, ⟨?_, ?_⟩, hothers, ?_, fun x hx hne => ?_⟩
    · show s.recordFrees r ≤ 1
      omega
    · show Function.update s.endpointFrees r (s.endpointFrees r + 1) r ≤ 1
      rw [Function.update_self]
      omega
    · rintro (hk | ⟨w, hw, he⟩)
      · exact h.unknown (.inl hk)
      · exact h.unknown (.inr ⟨w, List.mem_of_mem_eraseIdx hw, he⟩)
    · exact (hc.own_endpoint x hx).trans_ne hne
  · cases hn

end Steps

/-! ## Runs -/

section Runs

variable {s t u : Process} {a : Act} {pid r : Nat} {es : List (Process × Act)}

theorem unanswered_snoc (hn : Process.next pid s a = some t) (h : Unanswered (es ++ [(s, a)]) t r) :
    (Unanswered es s r ∧ ¬ AcceptsCack s r a) ∨
      (r = s.fresh ∧ ∃ addr svcName seqno, a = .connect (some addr) svcName seqno) := by
  obtain ⟨hw, hnot⟩ := h
  obtain ⟨l, new, hwt, hl, hnew⟩ := next_waited hn
  rw [hwt] at hw
  rcases List.mem_append.mp hw with hw | hw
  · have hold : ⟨r, .connect⟩ ∈ s.waiting := by
      rcases hl with ⟨rfl, -⟩ | ⟨i, g, -, rfl⟩
      · exact hw
      · exact List.mem_of_mem_eraseIdx hw
    refine .inl ⟨⟨hold, ?_⟩, fun hacc => hnot ⟨(s, a), by simp, hacc⟩⟩
    rintro ⟨e, he, hacc⟩
    exact hnot ⟨e, List.mem_append_left _ he, hacc⟩
  · cases hnew _ (Option.mem_toList.mp hw) with
    | connecting ha => exact .inr ⟨rfl, _, _, _, ha⟩

/-- What the run keeps. -/
structure Asleep (es : List (Process × Act)) (s : Process) : Prop where
  allocated : ∀ e, Knows s e → e < s.fresh
  sleeping : ∀ r, Unanswered es s r → Sleeping s r

theorem asleep_init : Asleep [] Process.init := by
  refine ⟨fun e hk => ?_, fun r hp => nomatch hp.1⟩
  rcases hk with (hk | ⟨q, hq, -⟩ | hk) | ⟨w, hw, -⟩
  · cases hk
  · cases hq
  · cases hk
  · cases hw

theorem Asleep.next (h : Asleep es s) (hc : Core s) (hok : LeftAlone es s a)
    (hn : Process.next pid s a = some t) : Asleep (es ++ [(s, a)]) t where
  allocated := fun _ hk => knows_allocated hc hn h.allocated hk
  sleeping := by
    intro r hp
    rcases unanswered_snoc hn hp with ⟨hold, hcack⟩ | ⟨rfl, addr, svcName, seqno, rfl⟩
    · exact (h.sleeping r hold).next hc hold hok hcack hn hp.1
    · exact sleeping_connect hc h.allocated hn

theorem AllLeftAlone.earlier {after : List (Process × Act)} (h : AllLeftAlone (es ++ after)) :
    AllLeftAlone es := by
  rintro before s a rest rfl
  exact h before s a (rest ++ after) (by simp)

theorem asleep_of_trace (h : (processSystem pid).Trace (fun _ _ => True) es t)
    (hok : AllLeftAlone es) : Asleep es t := by
  induction h with
  | nil => exact asleep_init
  | @snoc es t u a ht _ hn ih =>
    exact (ih hok.earlier).next (core_of_reach ht.reach) (hok es t a [] rfl) hn

/-- **A failed call of `rpc_connect` leaves no trace**, in every run whose steps leave the
sleeping callers alone. -/
theorem failed_connect_leaves_no_trace
    (h : (processSystem pid).Trace (fun _ _ => True) es t) (hok : AllLeftAlone es) :
    LeavesNoTrace pid es t where
  unresolved := by
    rintro ⟨s, a⟩ he svcName seqno rfl
    obtain ⟨before, after, rfl⟩ := List.append_of_mem he
    exact absurd rfl (hok before s _ after rfl)
  wakes := by
    intro hfault i g r hi hst
    have hm : matchedState (t.records r) [.idle, .timedout] = true := by
      simp [matchedState, hst]
    by_cases hlive : t.recordFrees r = 0
    · simp [Process.next, hfault, hi, Process.resume, Process.wake, hlive, hm]
    · simp [Process.next, hfault, hi, Process.resume, hlive]
  fails := by
    intro i g r u hi hnot hn
    have hp : Unanswered es t r := ⟨List.mem_of_getElem? hi, hnot⟩
    exact ((asleep_of_trace h hok).sleeping r hp).fails (core_of_reach h.reach) hi hn

/-- A record in `ST_TIMEDOUT` keeps its state while the timer destroys it. -/
theorem tick_timedout (hst : (s.records r).state = .timedout) :
    (s.tick.records r).state = .timedout := by
  rcases ticked_cases (tick_records s r) with h | ⟨h, -⟩
  · exact h
  · exact h.trans hst

/-- **The timer comes first**: it destroys the record that the caller sleeps on, and the caller
reads it. -/
theorem purged_before_woken (hc : Core s) (hm : Chains.Mem s.table r)
    (hst : (s.records r).state = .timedout) {i : Nat} {g : Endpoint}
    (hi : s.waiting[i]? = some ⟨r, .connect⟩)
    (hn : Process.next pid s.tick (.resume i g) = some u) :
    u.recordFrees r = 1 ∧ u.endpointFrees r = 1 ∧ u.fault = some .useAfterFree := by
  have hscan := (tick_effect hc).2
  have hpurged : r ∈ Chains.entries s.table ∧ (s.records r).state = .timedout :=
    ⟨Chains.mem_entries.mpr hm, hst⟩
  obtain ⟨hrf, hef⟩ := hc.table_live r hm
  have hrecord : s.tick.recordFrees r = 1 := by
    rw [hscan.recordFrees, hrf, if_pos hpurged]
  have hendpoint : s.tick.endpointFrees r = 1 := by
    rw [hscan.endpointFrees, hef, if_pos hpurged]
  unfold Process.next at hn
  split at hn
  · cases hn
  simp only [hscan.waiting, hi] at hn
  rcases Process.resume_cases hn with ⟨hlive, -⟩ | ⟨-, rfl⟩
  · exact absurd (hrecord.symm.trans hlive) (by decide)
  · exact ⟨hrecord, hendpoint, rfl⟩

end Runs

/-- A connection that nobody answers, until the last retry. -/
def noAnswer : List Act := .connect (some otherSide) [72] 0 :: List.replicate 254 .tick

/-- A step of the runs below: connecting to a host that resolves, or a tick that finds no record
in `ST_TIMEDOUT` with a thread. -/
def quietly (s : Process) : Act → Bool
  | .connect addr _ _ => addr.isSome
  | .tick => s.waiting.all fun w => decide ((s.records w.record).state ≠ .timedout)
  | _ => false

theorem leftAlone_of_quietly {es : List (Process × Act)} {s : Process} {a : Act}
    (h : quietly s a = true) : LeftAlone es s a := by
  cases a with
  | connect addr svcName seqno =>
    rintro rfl
    cases h
  | tick =>
    intro r hp
    exact of_decide_eq_true (List.all_eq_true.mp h _ hp.1)
  | _ => cases h

theorem not_acceptsCack_of_quietly {s : Process} {a : Act} {r : Nat}
    (h : quietly s a = true) : ¬ AcceptsCack s r a := by
  cases a with
  | recv addr d => cases h
  | _ => exact fun hacc => hacc

theorem noAnswer_run :
    ∃ es s, (processSystem 1).Trace (fun s a => quietly s a = true) es s ∧ s.fault = none ∧
      s.waiting = [⟨0, .connect⟩] ∧ (s.records 0).state = .timedout ∧
      0 ∈ Chains.entries s.table := by
  obtain ⟨es, s, hs, hp⟩ := System.Trace.of_run (processSystem 1)
    (fun s a => quietly s a = true) quietly noAnswer
    (fun s => decide (s.fault = none ∧ s.waiting = [⟨0, .connect⟩] ∧
      (s.records 0).state = .timedout ∧ 0 ∈ Chains.entries s.table))
    (fun _ _ h => h) (by decide +kernel) (by decide +kernel)
  exact ⟨es, s, hs, of_decide_eq_true hp⟩

/-- The thread runs as soon as its record times out. -/
theorem failed_connect_leaves_no_trace_unanswered :
    ∃ es t, (t.waiting = [⟨0, .connect⟩] ∧ (t.records 0).state = .timedout) ∧
      LeavesNoTrace 1 es t := by
  obtain ⟨es, t, ht, -, hwait, hst, -⟩ := noAnswer_run
  refine ⟨es, t, ⟨hwait, hst⟩, failed_connect_leaves_no_trace (ht.mono fun _ _ _ => trivial) ?_⟩
  rintro before s a after rfl
  exact leftAlone_of_quietly ht.before.2.1

/-- One more tick comes before the thread: it reads the freed record. -/
theorem unanswered_connect_reads_freed :
    ¬ ∀ es t, (processSystem 1).Trace (fun _ _ => True) es t → LeavesNoTrace 1 es t := by
  intro h
  obtain ⟨es, s, hs, hfault, hwait, hst, hm⟩ := noAnswer_run
  have htick : (processSystem 1).next s .tick = some s.tick := by
    simp [processSystem, Process.next, hfault]
  have htrace := (hs.mono fun _ _ _ => trivial).snoc trivial htick
  have hc := core_of_reach hs.reach
  have hscan := (tick_effect hc).2
  have hi : s.tick.waiting[0]? = some ⟨0, .connect⟩ := by rw [hscan.waiting, hwait]; rfl
  have hnot : ¬ CackAccepted (es ++ [(s, .tick)]) 0 := by
    rintro ⟨e, he, hacc⟩
    rcases List.mem_append.mp he with he | he
    · exact not_acceptsCack_of_quietly (hs.mem e he).2.1 hacc
    · cases List.mem_singleton.mp he
      exact hacc
  have hleaves := h _ _ htrace
  obtain ⟨u, hu⟩ := hleaves.wakes ((tick_others s).2.2.trans hfault) 0 ⟨otherSide, 0⟩ 0 hi
    (tick_timedout hst)
  have hnone := (hleaves.fails 0 _ 0 u hi hnot hu).fault
  have hfreed := (purged_before_woken hc (Chains.mem_entries.mp hm) hst
    (by rw [hwait]; rfl) hu).2.2
  rw [hnone] at hfreed
  cases hfreed

end Hwdb.Rpc
