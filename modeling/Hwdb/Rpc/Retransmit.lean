import Mathlib.Algebra.Group.Nat.Defs
import Hwdb.Rpc.Changes
import Hwdb.Rpc.Lifetime
import Hwdb.Rpc.Steps

/-!
# What the timer resends

A record whose retransmission counter runs holds the message that its state stands for, under
its own number, and no counter of a record ever wraps.

* `Retransmits` — the condition on one record.
* `Armed` — the same with what makes it inductive: `ticks` doubles with every attempt.
* `Stray` — the step that breaks it: a thread in the fragment loop of `rpc_call` goes on under
  its own number after the record has been given another one.
* `retransmits_of_reach` — every run without such a step.
-/

set_option autoImplicit false

namespace Hwdb.Rpc

open Hwdb.Lib

/-- The command of the message that a state stands for. -/
def State.resends : State → Option Command
  | .connectSent => some .connect
  | .querySent => some .query
  | .responseSent => some .response
  | .disconnectSent => some .disconnect
  | .fragmentSent => some .fragment
  | .seqnoSent => some .seqno
  | _ => none

theorem State.resends_isSome (st : State) : st.resends.isSome = st.awaitsAck := by
  cases st <;> rfl

/-- The payload is a `cmd` of the record, and the counters are in range. -/
structure Resends (cr : CRecord) (cmd : Command) : Prop where
  payload : cr.pl.isSome
  command : (⟨cr.payload, []⟩ : Received).command = some cmd
  seqno : (⟨cr.payload, []⟩ : Received).seqno = cr.seqno % 4294967296
  fnum : cmd = .fragment → (⟨cr.payload, []⟩ : Received).fnum = cr.lastFrag
  ticksLeft : 1 ≤ cr.ticksLeft ∧ cr.ticksLeft ≤ cr.ticks
  nattempts : 1 ≤ cr.nattempts ∧ cr.nattempts ≤ ATTEMPTS
  unwrapped : cr.ticks * 2 < 65536

/-- What holds of a record between two steps. -/
def Retransmits (cr : CRecord) : Prop :=
  match cr.state.resends with
  | some cmd => Resends cr cmd
  | none => cr.state ≠ .timedout → 1 ≤ cr.ticksTilPing ∧ 1 ≤ cr.pingsTilPurge

/-- The invariant of a record. -/
structure Armed (cr : CRecord) : Prop where
  payload : ∀ cmd, cr.state.resends = some cmd → cr.pl.isSome ∧
    (⟨cr.payload, []⟩ : Received).command = some cmd ∧
    (⟨cr.payload, []⟩ : Received).seqno = cr.seqno % 4294967296 ∧
    (cmd = .fragment → (⟨cr.payload, []⟩ : Received).fnum = cr.lastFrag)
  ticks : cr.state.awaitsAck = true → 1 ≤ cr.ticksLeft ∧ cr.ticksLeft ≤ cr.ticks ∧
    1 ≤ cr.nattempts ∧ cr.nattempts ≤ ATTEMPTS ∧
    cr.ticks * 2 ^ cr.nattempts = TICKS * 2 ^ ATTEMPTS
  pings : 1 ≤ cr.ticksTilPing ∧ 1 ≤ cr.pingsTilPurge

section Records

variable {cr c c' : CRecord} {st : State} {cmd : Command} {sp : Nat}

/-- The budget of doublings: with an attempt left, `ticks` can be doubled. -/
theorem ticks_bound {ticks nattempts : Nat} (h1 : 1 ≤ nattempts)
    (h : ticks * 2 ^ nattempts = TICKS * 2 ^ ATTEMPTS) : ticks * 2 ≤ 256 := by
  obtain ⟨k, rfl⟩ : ∃ k, nattempts = k + 1 := ⟨nattempts - 1, by omega⟩
  have hpos : 1 ≤ 2 ^ k := Nat.one_le_two_pow
  have hle : ticks * 2 * 1 ≤ ticks * 2 * 2 ^ k := Nat.mul_le_mul_left _ hpos
  have heq : ticks * 2 * 2 ^ k = 256 := by
    rw [Nat.mul_assoc, ← Nat.pow_succ']
    exact h
  omega

theorem Armed.retransmits (h : Armed cr) : Retransmits cr := by
  unfold Retransmits
  cases hcmd : cr.state.resends with
  | none => exact fun _ => h.pings
  | some cmd =>
    have hack : cr.state.awaitsAck = true := by rw [← State.resends_isSome, hcmd]; rfl
    obtain ⟨hpl, hc, hn, hf⟩ := h.payload cmd hcmd
    obtain ⟨h1, h2, h3, h4, h5⟩ := h.ticks hack
    exact ⟨hpl, hc, hn, hf, ⟨h1, h2⟩, ⟨h3, h4⟩, by have := ticks_bound h3 h5; omega⟩

/-- A state without a running counter. -/
theorem armed_setState (h : st.awaitsAck = false) (cr : CRecord) :
    Armed (crecordSetState cr st) where
  payload := by
    intro cmd hcmd
    rw [setState_state] at hcmd
    rw [← State.resends_isSome, hcmd] at h
    cases h
  ticks := by
    intro hack
    rw [setState_state, h] at hack
    cases hack
  pings := ⟨(by decide : 1 ≤ TICKS_BETWEEN_PINGS), (by decide : 1 ≤ PINGS_BEFORE_PURGE)⟩

/-- Setting the state that the record is in. -/
theorem Armed.reset (h : Armed cr) : Armed (crecordSetState cr cr.state) :=
  ⟨h.payload, h.ticks, (by decide : 1 ≤ TICKS_BETWEEN_PINGS), (by decide : 1 ≤ PINGS_BEFORE_PURGE)⟩

/-- A message is made the payload and the state is set. -/
theorem armed_sent {pl : Bytes} {size : Nat} (hst : st.resends = some cmd)
    (hsize : pl.take size = pl) (hcmd : (⟨pl, []⟩ : Received).command = some cmd)
    (hseqno : (⟨pl, []⟩ : Received).seqno = cr.seqno % 4294967296)
    (hfnum : cmd = .fragment → (⟨pl, []⟩ : Received).fnum = cr.lastFrag) :
    Armed (crecordSetState (crecordSetPayload cr pl size ATTEMPTS TICKS) st) where
  payload := by
    intro cmd' hcmd'
    rw [setState_state, hst] at hcmd'
    cases hcmd'
    simp only [setState_payload, setPayload_payload, hsize]
    exact ⟨rfl, hcmd, hseqno, hfnum⟩
  ticks := fun _ => ⟨(by decide : 1 ≤ TICKS), Nat.le_refl _, (by decide : 1 ≤ ATTEMPTS),
    Nat.le_refl _, rfl⟩
  pings := ⟨(by decide : 1 ≤ TICKS_BETWEEN_PINGS), (by decide : 1 ≤ PINGS_BEFORE_PURGE)⟩

/-- The reader leaves a record armed unless it runs into a fault. -/
theorem Handled.armed {stable : Bytes → Option Nat} {nep : Nat} {d : Received}
    {o : Option CRecord} {out : Outcome} (h : Handled stable nep d o out)
    (ho : ∀ c, o = some c → Armed c) (hf : out.fault = none) (hc : out.cr = some c') :
    Armed c' := by
  cases h with
  | ignored => exact ho _ hc
  | terminator => cases hf
  | strayName => cases hf
  | created => cases hc; exact armed_setState rfl _
  | reconnected => cases hc; exact armed_setState rfl _
  | cack => cases hc; exact armed_setState rfl _
  | queryWhole cr =>
    rcases readerQueryNew_cases { cr with seqno := d.seqno } d (d.bytes.map some) d.n with
      ⟨-, hq⟩ | ⟨sr, -, hq⟩ <;> rw [hq] at hf hc
    · cases hf
    · cases hc
      exact armed_setState rfl _
  | queryLast cr p =>
    rcases readerQueryNew_cases { cr with resp := none } d p (DP_SIZE + d.tlen) with
      ⟨-, hq⟩ | ⟨sr, -, hq⟩ <;> rw [hq] at hf hc
    · cases hf
    · cases hc
      exact armed_setState rfl _
  | queryOld => cases hc; exact (ho _ rfl).reset
  | qack => cases hc; exact armed_setState rfl _
  | responseWhole => cases hc; exact armed_setState rfl _
  | responseLast => cases hc; exact armed_setState rfl _
  | rack => cases hc; exact armed_setState rfl _
  | disconnect =>
    cases o with
    | none => cases hc
    | some c => cases hc; exact armed_setState rfl _
  | dack => cases hc; exact armed_setState rfl _
  | fragmentFirst => cases hc; exact armed_setState rfl _
  | fragmentNext => cases hc; exact armed_setState rfl _
  | fragmentOld => cases hc; exact (ho _ rfl).reset
  | fragmentFault => cases hf
  | copyFault => cases hf
  | fack => cases hc; exact armed_setState rfl _
  | ping => cases hc; exact ho _ rfl
  | pack => cases hc; exact (ho _ rfl).reset
  | seqno => cases hc; exact armed_setState rfl _
  | sack => cases hc; exact armed_setState rfl _

/-- One round of the timer: no decrement starts from 0 and no doubling overflows. -/
theorem Armed.timer (h : Armed c) (ht : TimerStep c c') : Armed c' := by
  obtain ⟨sp, ht⟩ := ht
  have hdec : ∀ {x : Nat}, 1 ≤ x → dec16 x = x - 1 := fun hx => if_neg (by omega)
  unfold timerRecord ctableScanRecord at ht
  by_cases hto : c.state = .timedout
  · simp [hto] at ht
  by_cases hack : c.state.awaitsAck = true
  · obtain ⟨h1, h2, h3, h4, h5⟩ := h.ticks hack
    simp only [hto, hack, if_true, if_false, hdec h1, hdec h3] at ht
    by_cases hz : c.ticksLeft - 1 = 0
    · by_cases hn : c.nattempts - 1 = 0
      · simp only [hz, hn, if_true, Option.some.injEq] at ht
        subst ht
        exact armed_setState rfl _
      · simp only [hz, hn, if_true, if_false, Option.some.injEq] at ht
        subst ht
        have hb := ticks_bound h3 h5
        have hmod : c.ticks * 2 % 65536 = c.ticks * 2 := Nat.mod_eq_of_lt (by omega)
        refine ⟨h.payload, fun _ => ?_, h.pings⟩
        dsimp only
        rw [hmod]
        refine ⟨by omega, Nat.le_refl _, by omega, by omega, ?_⟩
        obtain ⟨k, hk⟩ : ∃ k, c.nattempts = k + 1 := ⟨c.nattempts - 1, by omega⟩
        rw [hk, Nat.pow_succ'] at h5
        rw [hk, Nat.add_sub_cancel, Nat.mul_assoc]
        exact h5
    · simp only [hz, if_false, Option.some.injEq] at ht
      subst ht
      refine ⟨h.payload, fun _ => ?_, h.pings⟩
      dsimp only
      exact ⟨by omega, by omega, h3, h4, h5⟩
  · obtain ⟨h1, h2⟩ := h.pings
    simp only [hto, hack, if_false, Bool.false_eq_true, hdec h1, hdec h2] at ht
    by_cases hz : c.ticksTilPing - 1 = 0
    · by_cases hn : c.pingsTilPurge - 1 = 0
      · simp only [hz, hn, if_true, Option.some.injEq] at ht
        subst ht
        exact armed_setState rfl _
      · simp only [hz, hn, if_true, if_false, Option.some.injEq] at ht
        subst ht
        exact ⟨h.payload, h.ticks, (by decide : 1 ≤ TICKS_BETWEEN_PINGS), by dsimp only; omega⟩
    · simp only [hz, if_false, Option.some.injEq] at ht
      subst ht
      exact ⟨h.payload, h.ticks, by dsimp only; omega, h2⟩

/-- A tick. -/
theorem Armed.ticked (h : Armed c) (ht : Relation.ReflTransGen TimerStep c c') : Armed c' := by
  induction ht with
  | refl => exact h
  | tail _ hstep ih => exact ih.timer hstep

/-! ## The API -/

section Api

variable {ep sp : Nat} {q : Bytes} {c : CRecord}

/-- The control messages of the API. -/
theorem armed_control {c : CRecord} {st : State} {cmd : Command} {n : Nat} (sp : Nat)
    (hst : st.resends = some cmd) (hn : n % 4294967296 = c.seqno % 4294967296)
    (hcmd : cmd ≠ .fragment) : Armed (crecordSetState
      (crecordSetPayload c (controlPayload (cpComplete sp cmd n 1 1)) CP_SIZE ATTEMPTS TICKS) st) :=
  armed_sent hst (take_controlPayload _) (received_command ..) ((received_seqno ..).trans hn)
    fun h => absurd h hcmd

/-- A `FRAGMENT` under the number of the record. -/
theorem armed_fragment {c : CRecord} {sp n fnum nfrags : Nat} {m buf : Bytes}
    (hbuf : fragmentPayload sp n m fnum nfrags = some buf) (hfnum : fnum < 256)
    (hn : n % 4294967296 = c.seqno % 4294967296) :
    Armed (crecordSetState (crecordSetPayload { c with lastFrag := fnum } buf buf.length ATTEMPTS
      TICKS) .fragmentSent) := by
  obtain ⟨rest, rfl⟩ := fragmentPayload_shape hbuf
  exact armed_sent rfl (List.take_length ..) (received_command ..) ((received_seqno ..).trans hn)
    fun _ => (received_fnum ..).trans (Nat.mod_eq_of_lt hfnum)

/-- A `QUERY` or `RESPONSE` under the number of the record. -/
theorem armed_last {c : CRecord} {st : State} {cmd : Command} {sp n fnum nfrags cap : Nat}
    {m buf : Bytes} (hst : st.resends = some cmd) (hcmd : cmd ≠ .fragment)
    (hbuf : lastPayload sp cmd n m fnum nfrags cap = some buf)
    (hn : n % 4294967296 = c.seqno % 4294967296) :
    Armed (crecordSetState (crecordSetPayload c buf buf.length ATTEMPTS TICKS) st) := by
  obtain ⟨rest, rfl⟩ := lastPayload_shape hbuf
  exact armed_sent hst (List.take_length ..) (received_command ..) ((received_seqno ..).trans hn)
    fun h => absurd h hcmd

/-- The number of fragments that a waiting thread remembers is an `unsigned char`. -/
def CallWait.Small : CallWait → Prop
  | .frag _ _ nfrags => nfrags < 256
  | _ => True

/-- The thread goes on under the number of the record. -/
def CallWait.InStep (c : CRecord) : CallWait → Prop
  | .frag n _ _ => c.state = .fackReceived → n % 4294967296 = c.seqno % 4294967296
  | _ => True

theorem nfragsOf_lt (len : Nat) : nfragsOf len < 256 := Nat.mod_lt _ (by decide)

theorem Continues.small {w : Option CallWait} {c' : CRecord} {number : Option Nat}
    {n fnum nfrags : Nat} (h : Continues q c w c' number n fnum nfrags)
    (hw : ∀ x, w = some x → x.Small) : nfrags < 256 := by
  cases h with
  | first => exact nfragsOf_lt _
  | renumbered => exact nfragsOf_lt _
  | next n fnum nfrags => exact hw _ rfl

theorem Continues.inStep {w : Option CallWait} {c' : CRecord} {number : Option Nat}
    {n fnum nfrags : Nat} (h : Continues q c w c' number n fnum nfrags)
    (hw : ∀ x, w = some x → x.InStep c) : n % 4294967296 = c'.seqno % 4294967296 := by
  cases h with
  | first => rfl
  | renumbered => rfl
  | next n fnum nfrags hst => exact hw _ rfl hst

theorem CallSection.armed {w : Option CallWait} {st : CallStep} (h : CallSection ep sp q c w st)
    (hc : Armed c) (hsmall : ∀ x, w = some x → x.Small)
    (hstep : ∀ x, w = some x → x.InStep c) (hf : st.fault = none) : Armed st.cr := by
  cases h with
  | refused => exact hc
  | timedout => exact hc
  | renumber => exact armed_control sp rfl rfl (by decide)
  | undefined => cases hf
  | fragment h hlt hbuf =>
    exact armed_fragment hbuf (Nat.lt_trans hlt (h.small hsmall)) (h.inStep hstep)
  | query h hge hbuf => exact armed_last rfl (by decide) hbuf (h.inStep hstep)
  | collected n rsize hst =>
    obtain ⟨result, fault, heq⟩ := rpcCallCollect_eq c rsize
    rw [heq]
    exact ⟨hc.payload, hc.ticks, hc.pings⟩

theorem CallSection.small {w : Option CallWait} {st : CallStep} (h : CallSection ep sp q c w st)
    (hsmall : ∀ x, w = some x → x.Small) {cw : CallWait} (hcw : st.wait = some cw) :
    cw.Small := by
  cases h with
  | refused => cases hcw
  | timedout => cases hcw
  | renumber => cases hcw; trivial
  | undefined => cases hcw
  | fragment h hlt hbuf => cases hcw; exact h.small hsmall
  | query h hge hbuf => cases hcw; trivial
  | collected n rsize hst =>
    obtain ⟨result, fault, heq⟩ := rpcCallCollect_eq c rsize
    rw [heq] at hcw
    cases hcw

theorem ResponseSection.armed {w : Option (Nat × Nat)} {st : ResponseStep}
    (h : ResponseSection ep sp q c w st) (hc : Armed c) (hsmall : ∀ x, w = some x → x.2 < 256)
    (hf : st.fault = none) : Armed st.cr := by
  have hlt256 : ∀ {fnum nfrags : Nat}, Answers q c w fnum nfrags → nfrags < 256 := by
    intro fnum nfrags ha
    cases ha with
    | first => exact nfragsOf_lt _
    | next fnum nfrags => exact hsmall _ rfl
  cases h with
  | refused => exact hc
  | timedout => exact hc
  | undefined => cases hf
  | fragment h hlt hbuf => exact armed_fragment hbuf (Nat.lt_trans hlt (hlt256 h)) rfl
  | response h hge hbuf => exact armed_last rfl (by decide) hbuf rfl

theorem ResponseSection.small {w : Option (Nat × Nat)} {st : ResponseStep}
    (h : ResponseSection ep sp q c w st) (hsmall : ∀ x, w = some x → x.2 < 256)
    {x : Nat × Nat} (hx : st.wait = some x) : x.2 < 256 := by
  cases h with
  | refused => cases hx
  | timedout => cases hx
  | undefined => cases hx
  | fragment h hlt hbuf =>
    cases hx
    cases h with
    | first => exact nfragsOf_lt _
    | next =>
      have hlt := hsmall _ rfl
      exact hlt
  | response h hge hbuf => cases hx

end Api

end Records

/-! ## Whole runs -/

/-- The step that breaks the invariant: a thread in the fragment loop of `rpc_call` resumes under
a number that its record no longer has. -/
def Stray (s : Process) : Act → Prop
  | .resume i _ => ∃ r ep q rsize n fnum nfrags,
      s.waiting[i]? = some ⟨r, .call ep q rsize (.frag n fnum nfrags)⟩ ∧
        (s.records r).state = .fackReceived ∧
        n % 4294967296 ≠ (s.records r).seqno % 4294967296
  | _ => False

/-- The number of fragments in what a thread remembers. -/
def Wait.Small : Wait → Prop
  | .call _ _ _ w => w.Small
  | .response _ _ _ nfrags => nfrags < 256
  | _ => True

/-- The invariant of a process that has not run into a fault. -/
structure AllArmed (s : Process) : Prop where
  records : ∀ r, Armed (s.records r)
  waiting : ∀ w ∈ s.waiting, w.wait.Small

section Runs

variable {pid : Nat} {s t : Process} {a : Act}

theorem allArmed_init : AllArmed Process.init where
  records := fun _ => ⟨fun _ h => (nomatch h), fun h => (nomatch h),
    (by decide : 1 ≤ TICKS_BETWEEN_PINGS), (by decide : 1 ≤ PINGS_BEFORE_PURGE)⟩
  waiting := fun _ h => (nomatch h)

/-- The waiter that a step resumes. -/
theorem AllArmed.resumed (h : AllArmed s) {i : Nat} {w : Waiter} (hi : s.waiting[i]? = some w) :
    w.wait.Small := h.waiting w (List.mem_of_getElem? hi)

theorem AllArmed.changed (h : AllArmed s) (hstray : ¬ Stray s a) (hf : t.fault = none) {r : Nat}
    (hc : Changed s a t r) : Armed (t.records r) := by
  cases hc with
  | kept hc =>
    rw [hc]
    exact h.records r
  | received _ _ hc hft =>
    refine (readerSwitch_handled _).armed (fun c hcr => ?_) (hft.symm.trans hf) hc
    cases hcr
    exact h.records r
  | created _ _ hc hft =>
    exact (readerSwitch_handled _).armed (fun c hcr => by cases hcr) (hft.symm.trans hf) hc
  | connected _ hc =>
    rw [hc]
    exact armed_sent (show State.resends .connectSent = some .connect from rfl)
      (List.take_length ..) (received_command ..) (received_seqno ..) nofun
  | ticked _ hc => exact Armed.ticked (h.records r) hc
  | called _ _ hc hft =>
    rw [hc]
    exact (rpcCallBegin_section ..).armed (h.records r) (fun _ h => (nomatch h))
      (fun _ h => (nomatch h)) (hft.symm.trans hf)
  | @callResumed i ep rsize sp g q w st ha hi hst hc hft =>
    rw [hc]
    refine (rpcCallResume_section hst).armed (h.records r) (fun x hx => ?_) (fun x hx => ?_)
      (hft.symm.trans hf)
    · cases hx
      exact h.resumed hi
    · cases hx
      cases w with
      | frag n fnum nfrags =>
        refine fun hst => Decidable.by_contra fun hne => hstray ?_
        rw [ha]
        exact ⟨r, ep, q, rsize, n, fnum, nfrags, hi, hst, hne⟩
      | _ => trivial
  | disconnected hc =>
    rw [hc]
    exact armed_control _ rfl rfl (by decide)
  | responded hc hft =>
    rw [hc]
    exact (rpcResponseBegin_section ..).armed (h.records r) (fun _ h => (nomatch h))
      (hft.symm.trans hf)
  | responseResumed hi hst hc hft =>
    rw [hc]
    refine (rpcResponseResume_section hst).armed (h.records r) (fun x hx => ?_)
      (hft.symm.trans hf)
    cases hx
    exact h.resumed hi

theorem AllArmed.waits (h : AllArmed s) {w : Waiter} (hw : Waits s a t w) : w.wait.Small := by
  cases hw with
  | connecting => trivial
  | called _ _ hw _ => exact (rpcCallBegin_section ..).small (fun _ h => (nomatch h)) hw
  | callResumed _ hi hst hw _ =>
    refine (rpcCallResume_section hst).small (fun x hx => ?_) hw
    cases hx
    exact h.resumed hi
  | disconnecting => trivial
  | responded hw =>
    exact (rpcResponseBegin_section ..).small (fun _ h => (nomatch h)) hw
  | responseResumed hi hst hw =>
    refine (rpcResponseResume_section hst).small (fun x hx => ?_) hw
    cases hx
    exact h.resumed hi

/-- **One step.** -/
theorem AllArmed.next (h : AllArmed s) (hstray : ¬ Stray s a) (ht : Process.next pid s a = some t)
    (hf : t.fault = none) : AllArmed t where
  records := fun r => h.changed hstray hf (next_changed ht r)
  waiting := by
    obtain ⟨l, new, hw, hl, hnew⟩ := next_waited ht
    intro w hwt
    rw [hw] at hwt
    rcases List.mem_append.mp hwt with hwl | hwn
    · rcases hl with ⟨rfl, -⟩ | ⟨i, g, -, rfl⟩
      · exact h.waiting w hwl
      · exact h.waiting w (List.mem_of_mem_eraseIdx hwl)
    · exact h.waits (hnew w (by simpa using hwn))

theorem allArmed_of_reach (h : (processSystem pid).Reach (fun s a => ¬ Stray s a) s) :
    s.fault = none → AllArmed s := by
  refine h.invariant (I := fun s => s.fault = none → AllArmed s) (fun _ => allArmed_init)
    fun s a t ih hok ht hf => ?_
  refine (ih ?_).next hok ht hf
  -- a process with a fault takes no step
  cases hfs : s.fault with
  | none => rfl
  | some f =>
    have hnone : Process.next pid s a = none := by simp [Process.next, hfs]
    rw [show (processSystem pid).next s a = Process.next pid s a from rfl, hnone] at ht
    cases ht

/-- **Every record resends what its state stands for** in every run in which no thread continues
a fragmented query under a number that its record has lost. -/
theorem retransmits_of_reach (h : (processSystem pid).Reach (fun s a => ¬ Stray s a) s)
    (hf : s.fault = none) : ∀ r, Chains.Mem s.table r → Retransmits (s.records r) :=
  fun r _ => ((allArmed_of_reach h hf).records r).retransmits

end Runs

/-- No thread inside `rpc_call` resumes. -/
def noCallResumes (s : Process) : Act → Bool
  | .resume i _ => match s.waiting[i]? with
    | some ⟨_, .call ..⟩ => false
    | _ => true
  | _ => true

theorem not_stray_of_noCallResumes (s : Process) (a : Act) (h : noCallResumes s a = true) :
    ¬ Stray s a := by
  cases a with
  | resume i g =>
    rintro ⟨r, ep, q, rsize, n, fnum, nfrags, hi, -⟩
    rw [noCallResumes, hi] at h
    cases h
  | _ => exact id

/-- A connection and a query, with three ticks. -/
def queryThenTicks : List Act :=
  [.connect (some otherSide) [72] 0, arrives .cack 0 [], .resume 0 ⟨otherSide, 0⟩,
    .call 0 ⟨otherSide, 0⟩ [7] 10, .tick, .tick, .tick]

theorem retransmits_of_reach_query :
    ∃ t, (processSystem 1).Reach (fun s a => ¬ Stray s a) t ∧ (t.records 0).state = .querySent ∧
      ∀ r, Chains.Mem t.table r → Retransmits (t.records r) := by
  obtain ⟨t, ht, hp⟩ := System.Reach.of_run (processSystem 1)
    (fun s a => ¬ Stray s a) noCallResumes queryThenTicks
    (fun t => t.fault.isNone && (t.records 0).state == .querySent)
    not_stray_of_noCallResumes (by decide +kernel) (by decide +kernel)
  simp only [Bool.and_eq_true, Option.isNone_iff_eq_none, beq_iff_eq] at hp
  exact ⟨t, ht, hp.2, retransmits_of_reach ht hp.1⟩

/-- A query of two fragments; a `RACK` under its number lets a second one begin, whose first
`FACK` wakes the first thread. -/
def twoQueries : List Act :=
  [.connect (some otherSide) [72] 0, arrives .cack 0 [], .resume 0 ⟨otherSide, 0⟩,
    .call 0 ⟨otherSide, 0⟩ (List.replicate 1025 5) 10, arrives .rack 1 [],
    .call 0 ⟨otherSide, 0⟩ (List.replicate 1025 6) 10, arrives .fack 2 [],
    .resume 0 ⟨otherSide, 0⟩]

/-- The record then resends a query under the number before its own. -/
theorem stray_fragment_resent :
    ∃ t, (processSystem 1).Reach (fun _ _ => True) t ∧ t.fault = none ∧
      ∃ r, Chains.Mem t.table r ∧ ¬ Retransmits (t.records r) := by
  obtain ⟨t, ht, hp⟩ := System.Reach.of_run (processSystem 1) (fun _ _ => True)
    (fun _ _ => true) twoQueries
    (fun t => t.fault.isNone && t.lookup ⟨otherSide, 65537⟩ == some 0 &&
      (t.records 0).state == .querySent && (t.records 0).seqno == 2 &&
      (⟨(t.records 0).payload, []⟩ : Received).seqno == 1)
    (fun _ _ _ => trivial) (by decide +kernel) (by decide +kernel)
  simp only [Bool.and_eq_true, Option.isNone_iff_eq_none, beq_iff_eq] at hp
  obtain ⟨⟨⟨⟨hf, hl⟩, hst⟩, hn⟩, hpl⟩ := hp
  refine ⟨t, ht, hf, 0, mem_of_lookup hl, fun hre => ?_⟩
  unfold Retransmits at hre
  rw [hst] at hre
  have hseqno := Resends.seqno hre
  rw [hn, hpl] at hseqno
  cases hseqno

end Hwdb.Rpc
