import Mathlib.Logic.Relation
import Hwdb.Rpc.Process

/-!
# What a step of a process changes

Inversion of `Process.next`, one record, queue element and waiter at a time.  Invariants of
records are proved from these and never unfold the step function.

* `Changed`, `next_changed` — how the record `r` came to have its new contents.
* `next_queue` — where the elements of the queues come from.
* `Waits`, `next_waited` — which threads wait after a step, and how they come to.
-/

set_option autoImplicit false

namespace Hwdb.Rpc

open Hwdb.Lib

/-- One round of `timer` on a record that it does not destroy. -/
def TimerStep (c c' : CRecord) : Prop := ∃ sp, (timerRecord sp c).1 = some c'

/-- It touches the counters, and may time the record out. -/
theorem TimerStep.counters {c c' : CRecord} (h : TimerStep c c') :
    ∃ q, SameButCounters c q ∧ (c' = q ∨ c' = crecordSetState q .timedout) := by
  obtain ⟨sp, h⟩ := h
  have ht := timerRecord_cases sp c
  generalize timerRecord sp c = p at h ht
  obtain ⟨o, sent⟩ := p
  cases ht with
  | purged => cases h
  | timed q hq => cases h; exact ⟨_, hq, .inr rfl⟩
  | pinged q hq => cases h; exact ⟨_, hq, .inl rfl⟩
  | retried q hq => cases h; exact ⟨_, hq, .inl rfl⟩
  | counted q hq => cases h; exact ⟨_, hq, .inl rfl⟩

/-- A tick times a record out or leaves all but its counters. -/
theorem ticked_cases {c c' : CRecord} (h : Relation.ReflTransGen TimerStep c c') :
    c'.state = .timedout ∨ (c'.state = c.state ∧ c'.seqno = c.seqno ∧ c'.resp = c.resp) := by
  induction h with
  | refl => exact .inr ⟨rfl, rfl, rfl⟩
  | @tail b c' _ hstep ih =>
    obtain ⟨q, hq, rfl | rfl⟩ := hstep.counters
    · rcases ih with hto | ⟨hst, hn, hr⟩
      · exact .inl (hq.state.trans hto)
      · exact .inr ⟨hq.state.trans hst, hq.seqno.trans hn, hq.resp.trans hr⟩
    · exact .inl rfl

/-- What the reader makes of `d` from `addr`, whose endpoint the lookup knows as `r`. -/
def Process.outcome (s : Process) (r : Option Nat) (d : Received) : Outcome :=
  readerSwitch s.stable s.fresh (r.map s.records) d

/-- How record `r` gets its contents in `t`. -/
inductive Changed (s : Process) (a : Act) (t : Process) (r : Nat) : Prop where
  | kept (hc : t.records r = s.records r)
  | received {addr : Vector UInt8 ADDR_SIZE} {d : Received} (ha : a = .recv addr d)
      (hl : s.lookup ⟨addr, d.subport⟩ = some r)
      (hc : (s.outcome (some r) d).cr = some (t.records r))
      (hf : t.fault = (s.outcome (some r) d).fault)
  | created {addr : Vector UInt8 ADDR_SIZE} {d : Received} (ha : a = .recv addr d)
      (hr : r = s.fresh) (hc : (s.outcome none d).cr = some (t.records r))
      (hf : t.fault = (s.outcome none d).fault) (hl : s.lookup ⟨addr, d.subport⟩ = none)
  | connected {sp seqno : Nat} {svcName : Bytes} (hr : r = s.fresh)
      (hc : t.records r = (rpcConnectBegin s.fresh sp svcName seqno).1)
  | ticked (ha : a = .tick) (hc : Relation.ReflTransGen TimerStep (s.records r) (t.records r))
  | called {rpc rsize sp : Nat} {g : Endpoint} {q : Bytes} (ha : a = .call rpc g q rsize)
      (hl : s.lookup (s.readEndpoint rpc g) = some r)
      (hc : t.records r = (rpcCallBegin rpc sp (s.records r) q).cr)
      (hf : t.fault = (rpcCallBegin rpc sp (s.records r) q).fault)
  | callResumed {i ep rsize sp : Nat} {g : Endpoint} {q : Bytes} {w : CallWait} {st : CallStep}
      (ha : a = .resume i g) (hi : s.waiting[i]? = some ⟨r, .call ep q rsize w⟩)
      (hst : rpcCallResume ep sp (s.records r) q rsize w = some st)
      (hc : t.records r = st.cr) (hf : t.fault = st.fault)
  | disconnected {rpc sp : Nat} {g : Endpoint}
      (hc : t.records r = (rpcDisconnectBegin rpc sp (s.records r)).1)
      (ha : a = .disconnect rpc g) (hl : s.lookup (s.readEndpoint rpc g) = some r)
  | responded {ep sp : Nat} {rb : Bytes}
      (hc : t.records r = (rpcResponseBegin ep sp (s.records r) rb).cr)
      (hf : t.fault = (rpcResponseBegin ep sp (s.records r) rb).fault)
  | responseResumed {i ep sp fnum nfrags : Nat} {rb : Bytes} {st : ResponseStep}
      (hi : s.waiting[i]? = some ⟨r, .response ep rb fnum nfrags⟩)
      (hst : rpcResponseResume ep sp (s.records r) rb fnum nfrags = some st)
      (hc : t.records r = st.cr) (hf : t.fault = st.fault)

/-- How a thread comes to wait as `w`. -/
inductive Waits (s : Process) (a : Act) (t : Process) : Waiter → Prop where
  | connecting {addr : Vector UInt8 ADDR_SIZE} {svcName : Bytes} {seqno : Nat}
      (ha : a = .connect (some addr) svcName seqno) : Waits s a t ⟨s.fresh, .connect⟩
  | called {r rpc rsize sp : Nat} {g : Endpoint} {q : Bytes} {cw : CallWait}
      (ha : a = .call rpc g q rsize) (hl : s.lookup (s.readEndpoint rpc g) = some r)
      (hw : (rpcCallBegin rpc sp (s.records r) q).wait = some cw)
      (hc : t.records r = (rpcCallBegin rpc sp (s.records r) q).cr) :
      Waits s a t ⟨r, .call rpc q rsize cw⟩
  | callResumed {r i ep rsize sp : Nat} {g : Endpoint} {q : Bytes} {w cw : CallWait}
      {st : CallStep} (ha : a = .resume i g) (hi : s.waiting[i]? = some ⟨r, .call ep q rsize w⟩)
      (hst : rpcCallResume ep sp (s.records r) q rsize w = some st) (hw : st.wait = some cw)
      (hc : t.records r = st.cr) : Waits s a t ⟨r, .call ep q rsize cw⟩
  | disconnecting {r rpc : Nat} {g : Endpoint} (ha : a = .disconnect rpc g)
      (hl : s.lookup (s.readEndpoint rpc g) = some r) : Waits s a t ⟨r, .disconnect⟩
  | responded {r ep sp fnum nfrags : Nat} {rb : Bytes}
      (hw : (rpcResponseBegin ep sp (s.records r) rb).wait = some (fnum, nfrags))
      (ha : ∃ g, a = .response ep g rb) : Waits s a t ⟨r, .response ep rb fnum nfrags⟩
  | responseResumed {r i ep sp fnum nfrags fnum' nfrags' : Nat} {rb : Bytes}
      {st : ResponseStep} (hi : s.waiting[i]? = some ⟨r, .response ep rb fnum' nfrags'⟩)
      (hst : rpcResponseResume ep sp (s.records r) rb fnum' nfrags' = some st)
      (hw : st.wait = some (fnum, nfrags)) :
      Waits s a t ⟨r, .response ep rb fnum nfrags⟩

/-- The threads that wait after a step: those that did, without the one that has run, and one
that has started to wait. -/
def Waited (s : Process) (a : Act) (t : Process) : Prop :=
  ∃ l new, t.waiting = l ++ new.toList ∧
    ((l = s.waiting ∧ ∀ i g, a ≠ .resume i g) ∨
      ∃ i g, a = .resume i g ∧ l = s.waiting.eraseIdx i) ∧
    ∀ w, new = some w → Waits s a t w

section Steps

variable {s t : Process} {a : Act} {pid : Nat}

/-! ## The single actions -/

theorem recv_changed (s : Process) (addr : Vector UInt8 ADDR_SIZE) (d : Received) (r : Nat) :
    Changed s (.recv addr d) (s.recv addr d) r := by
  cases hl : s.lookup ⟨addr, d.subport⟩ with
  | none =>
    cases hout : (s.outcome none d).cr with
    | none =>
      refine .kept ?_
      simp only [Process.outcome, Option.map_none] at hout
      simp only [Process.recv, hl, Option.map_none, hout]
    | some c =>
      have hrec : (s.recv addr d).records = Function.update s.records s.fresh c := by
        simp only [Process.outcome, Option.map_none] at hout
        simp only [Process.recv, hl, Option.map_none, hout, Process.allocate]
      by_cases hr : r = s.fresh
      · subst hr
        refine .created rfl rfl (by rw [hrec, Function.update_self, hout]) ?_ hl
        simp only [Process.recv, hl, Process.outcome]
      · exact .kept (by rw [hrec, Function.update_of_ne hr])
  | some x =>
    cases hout : (s.outcome (some x) d).cr with
    | none =>
      refine .kept ?_
      simp only [Process.outcome, Option.map_some] at hout
      simp only [Process.recv, hl, Option.map_some, hout]
    | some c =>
      have hrec : (s.recv addr d).records = Function.update s.records x c := by
        simp only [Process.outcome, Option.map_some] at hout
        simp only [Process.recv, hl, Option.map_some, hout, Process.setRecord]
      have hf : (s.recv addr d).fault = (s.outcome (some x) d).fault := by
        simp only [Process.recv, hl, Process.outcome]
      by_cases hr : r = x
      · subst hr
        exact .received rfl hl (by rw [hrec, Function.update_self, hout]) hf
      · exact .kept (by rw [hrec, Function.update_of_ne hr])

theorem tickRecord_records (s : Process) (x r : Nat) :
    (s.tickRecord x).records r = s.records r ∨
      TimerStep (s.records r) ((s.tickRecord x).records r) := by
  unfold Process.tickRecord
  cases ht : (timerRecord (s.endpoints x).subport (s.records x)).1 with
  | none => exact .inl rfl
  | some c =>
    by_cases hr : r = x
    · subst hr
      exact .inr ⟨_, by simpa [Process.setRecord] using ht⟩
    · exact .inl (by simp [Process.setRecord, Function.update_of_ne hr])

/-- A tick takes every record through rounds of the timer. -/
theorem tick_records (s : Process) (r : Nat) :
    Relation.ReflTransGen TimerStep (s.records r) (s.tick.records r) := by
  have key : ∀ (l : List Nat) (s : Process), Relation.ReflTransGen TimerStep (s.records r)
      ((l.foldl Process.tickRecord s).records r) := by
    intro l
    induction l with
    | nil => exact fun s => .refl
    | cons x l ih =>
      intro s
      rw [List.foldl_cons]
      rcases tickRecord_records s x r with heq | hstep
      · rw [← heq]
        exact ih _
      · exact .head hstep (ih _)
  exact key _ s

theorem tick_others (s : Process) : s.tick.waiting = s.waiting ∧ s.tick.queue = s.queue ∧
    s.tick.fault = s.fault := by
  have hone : ∀ (s : Process) (x : Nat), (s.tickRecord x).waiting = s.waiting ∧
      (s.tickRecord x).queue = s.queue ∧ (s.tickRecord x).fault = s.fault := by
    intro s x
    unfold Process.tickRecord
    split <;> exact ⟨rfl, rfl, rfl⟩
  have key : ∀ (l : List Nat) (s : Process), (l.foldl Process.tickRecord s).waiting = s.waiting ∧
      (l.foldl Process.tickRecord s).queue = s.queue ∧
      (l.foldl Process.tickRecord s).fault = s.fault := by
    intro l
    induction l with
    | nil => exact fun s => ⟨rfl, rfl, rfl⟩
    | cons x l ih =>
      intro s
      obtain ⟨hw, hq, hf⟩ := ih (s.tickRecord x)
      obtain ⟨hw', hq', hf'⟩ := hone s x
      exact ⟨hw.trans hw', hq.trans hq', hf.trans hf'⟩
  exact key _ s

/-- A write to record `x` changes no other record. -/
theorem setRecord_changed {x r : Nat} {c : CRecord}
    (hrec : t.records = Function.update s.records x c)
    (h : r = x → t.records r = c → Changed s a t r) : Changed s a t r := by
  by_cases hr : r = x
  · subst hr
    exact h rfl (by rw [hrec, Function.update_self])
  · exact .kept (by rw [hrec, Function.update_of_ne hr])

theorem resume_changed {i : Nat} {w : Waiter} {g : Endpoint} (hi : s.waiting[i]? = some w)
    (ht : { s with waiting := s.waiting.eraseIdx i }.resume w g = some t) (r : Nat) :
    Changed s (.resume i g) t r := by
  rcases Process.resume_cases ht with ⟨-, ht⟩ | ⟨-, rfl⟩
  case inr => exact .kept rfl
  obtain ⟨x, wait⟩ := w
  cases wait with
  | connect =>
    simp only [Process.wake] at ht
    split at ht
    · cases ht
      split <;> exact .kept rfl
    · cases ht
  | call ep q rsize cw =>
    obtain ⟨st, hst, rfl⟩ := Option.map_eq_some_iff.mp ht
    refine setRecord_changed (c := st.cr) rfl fun hr hc => ?_
    subst hr
    exact .callResumed rfl hi hst hc rfl
  | disconnect =>
    simp only [Process.wake] at ht
    split at ht
    · cases ht
      exact .kept rfl
    · cases ht
  | response ep rb fnum nfrags =>
    obtain ⟨st, hst, rfl⟩ := Option.map_eq_some_iff.mp ht
    refine setRecord_changed (c := st.cr) rfl fun hr hc => ?_
    subst hr
    exact .responseResumed hi hst hc rfl

/-- **Inversion of a step**, for one record. -/
theorem next_changed (h : Process.next pid s a = some t) (r : Nat) : Changed s a t r := by
  unfold Process.next at h
  split at h
  · cases h
  cases a with
  | offer name =>
    cases h
    obtain ⟨l, f, -, -, he⟩ := s.stableCreate_eq (.ofBytes name)
    rw [he]
    exact .kept rfl
  | recv addr d =>
    cases h
    exact recv_changed s addr d r
  | tick =>
    cases h
    exact .ticked rfl (tick_records s r)
  | connect addr svcName seqno =>
    cases h
    cases addr with
    | none => exact .kept rfl
    | some addr =>
      exact setRecord_changed (x := s.fresh) rfl fun hr hc => .connected hr hc
  | call rpc g q rsize =>
    dsimp only at h
    split at h
    · cases h
      unfold Process.rpcCall
      dsimp only
      split
      · exact .kept rfl
      · rename_i x hl
        refine setRecord_changed rfl fun hr hc => ?_
        subst hr
        exact .called rfl hl hc rfl
    · cases h
  | disconnect rpc g =>
    dsimp only at h
    split at h
    · cases h
      unfold Process.rpcDisconnect
      dsimp only
      split
      · exact .kept rfl
      · rename_i x hl
        refine setRecord_changed rfl fun hr hc => ?_
        subst hr
        exact .disconnected hc rfl hl
    · cases h
  | query svc len =>
    obtain ⟨q, -, rfl⟩ := Option.map_eq_some_iff.mp h
    exact .kept rfl
  | response rpc g rb =>
    dsimp only at h
    split at h
    · cases h
      unfold Process.rpcResponse
      dsimp only
      split
      · exact .kept rfl
      · rename_i x hl
        refine setRecord_changed rfl fun hr hc => ?_
        subst hr
        exact .responded hc rfl
    · cases h
  | resume i g =>
    dsimp only at h
    split at h
    · cases h
    · rename_i w hi
      exact resume_changed hi h r

/-! ## Waiters and queues -/

theorem waited_same (h : t.waiting = s.waiting) (ha : ∀ i g, a ≠ .resume i g) : Waited s a t :=
  ⟨s.waiting, none, by simp [h], .inl ⟨rfl, ha⟩, fun _ h => (nomatch h)⟩

theorem waited_call {o : Option CallWait} {f : CallWait → Waiter}
    (h : t.waiting = s.waiting ++ (o.map f).toList) (ha : ∀ i g, a ≠ .resume i g)
    (hnew : ∀ cw, o = some cw → Waits s a t (f cw)) : Waited s a t := by
  refine ⟨s.waiting, o.map f, h, .inl ⟨rfl, ha⟩, fun w hw => ?_⟩
  obtain ⟨cw, hcw, rfl⟩ := Option.map_eq_some_iff.mp hw
  exact hnew cw hcw

theorem resume_waited {i : Nat} {w : Waiter} {g : Endpoint} (hi : s.waiting[i]? = some w)
    (ht : { s with waiting := s.waiting.eraseIdx i }.resume w g = some t) :
    Waited s (.resume i g) t := by
  have herase : t.waiting = s.waiting.eraseIdx i → Waited s (.resume i g) t := fun h =>
    ⟨_, none, by simp [h], .inr ⟨i, g, rfl, rfl⟩, fun _ h => (nomatch h)⟩
  rcases Process.resume_cases ht with ⟨-, ht⟩ | ⟨-, rfl⟩
  case inr => exact herase rfl
  obtain ⟨x, wait⟩ := w
  cases wait with
  | connect =>
    simp only [Process.wake] at ht
    split at ht
    · cases ht
      refine herase ?_
      split <;> rfl
    · cases ht
  | call ep q rsize cw =>
    obtain ⟨st, hst, rfl⟩ := Option.map_eq_some_iff.mp ht
    refine ⟨_, st.wait.map fun cw => ⟨x, .call ep q rsize cw⟩, rfl, .inr ⟨i, g, rfl, rfl⟩,
      fun w hw => ?_⟩
    obtain ⟨cw', hcw, rfl⟩ := Option.map_eq_some_iff.mp hw
    exact .callResumed rfl hi hst hcw (Function.update_self ..)
  | disconnect =>
    simp only [Process.wake] at ht
    split at ht
    · cases ht
      exact herase rfl
    · cases ht
  | response ep rb fnum nfrags =>
    obtain ⟨st, hst, rfl⟩ := Option.map_eq_some_iff.mp ht
    refine ⟨_, st.wait.map fun w => ⟨x, .response ep rb w.1 w.2⟩, rfl, .inr ⟨i, g, rfl, rfl⟩,
      fun w hw => ?_⟩
    obtain ⟨⟨fnum', nfrags'⟩, hw', rfl⟩ := Option.map_eq_some_iff.mp hw
    exact .responseResumed hi hst hw'

/-- **Who waits after a step.** -/
theorem next_waited (h : Process.next pid s a = some t) : Waited s a t := by
  unfold Process.next at h
  split at h
  · cases h
  cases a with
  | offer name =>
    cases h
    obtain ⟨l, f, -, -, he⟩ := s.stableCreate_eq (.ofBytes name)
    rw [he]
    exact waited_same rfl nofun
  | recv addr d =>
    cases h
    refine waited_same ?_ nofun
    simp only [Process.recv]
    split <;> rfl
  | tick =>
    cases h
    exact waited_same (tick_others s).1 nofun
  | connect addr svcName seqno =>
    cases h
    cases addr with
    | none => exact waited_same rfl nofun
    | some addr =>
      refine ⟨s.waiting, some ⟨s.fresh, .connect⟩, rfl, .inl ⟨rfl, nofun⟩, fun w hw => ?_⟩
      cases hw
      exact .connecting rfl
  | call rpc g q rsize =>
    dsimp only at h
    split at h
    · cases h
      unfold Process.rpcCall
      dsimp only
      split
      · exact waited_same rfl nofun
      · rename_i x hl
        exact waited_call rfl nofun fun cw hcw =>
          .called rfl hl hcw (Function.update_self ..)
    · cases h
  | disconnect rpc g =>
    dsimp only at h
    split at h
    · cases h
      unfold Process.rpcDisconnect
      dsimp only
      split
      · exact waited_same rfl nofun
      · rename_i x hl
        refine ⟨s.waiting, some ⟨x, .disconnect⟩, rfl, .inl ⟨rfl, nofun⟩, fun w hw => ?_⟩
        cases hw
        exact .disconnecting rfl hl
    · cases h
  | query svc len =>
    obtain ⟨q, -, rfl⟩ := Option.map_eq_some_iff.mp h
    exact waited_same rfl nofun
  | response rpc g rb =>
    dsimp only at h
    split at h
    · cases h
      unfold Process.rpcResponse
      dsimp only
      split
      · exact waited_same rfl nofun
      · rename_i x hl
        refine ⟨s.waiting, (rpcResponseBegin rpc (s.readEndpoint rpc g).subport (s.records x)
          rb).wait.map fun w => ⟨x, .response rpc rb w.1 w.2⟩, rfl, .inl ⟨rfl, nofun⟩,
          fun w hw => ?_⟩
        obtain ⟨⟨fnum, nfrags⟩, hw', rfl⟩ := Option.map_eq_some_iff.mp hw
        exact .responded hw' ⟨g, rfl⟩
    · cases h
  | resume i g =>
    dsimp only at h
    split at h
    · cases h
    · rename_i w hi
      exact resume_waited hi h

/-- **Where queued queries come from.** -/
theorem next_queue (h : Process.next pid s a = some t) {q : Queued} (hq : q ∈ t.queue) :
    q ∈ s.queue ∨ ∃ addr d r, a = .recv addr d ∧ s.lookup ⟨addr, d.subport⟩ = r ∧
      (s.outcome r d).queued = some q := by
  unfold Process.next at h
  split at h
  · cases h
  cases a with
  | offer name =>
    cases h
    obtain ⟨l, f, -, -, he⟩ := s.stableCreate_eq (.ofBytes name)
    rw [he] at hq
    exact .inl hq
  | recv addr d =>
    cases h
    have hqueue : (s.recv addr d).queue =
        s.queue ++ (s.outcome (s.lookup ⟨addr, d.subport⟩) d).queued.toList := by
      simp only [Process.recv, Process.outcome]
      split <;> rfl
    rw [hqueue] at hq
    rcases List.mem_append.mp hq with hq | hq
    · exact .inl hq
    · exact .inr ⟨addr, d, _, rfl, rfl, by simpa using hq⟩
  | tick =>
    cases h
    rw [(tick_others s).2.1] at hq
    exact .inl hq
  | connect addr svcName seqno =>
    cases h
    cases addr <;> exact .inl hq
  | call rpc g q rsize =>
    dsimp only at h
    split at h
    · cases h
      unfold Process.rpcCall at hq
      dsimp only at hq
      split at hq <;> exact .inl hq
    · cases h
  | disconnect rpc g =>
    dsimp only at h
    split at h
    · cases h
      unfold Process.rpcDisconnect at hq
      dsimp only at hq
      split at hq <;> exact .inl hq
    · cases h
  | query svc len =>
    obtain ⟨q', -, rfl⟩ := Option.map_eq_some_iff.mp h
    exact .inl (List.mem_of_mem_erase hq)
  | response rpc g rb =>
    dsimp only at h
    split at h
    · cases h
      unfold Process.rpcResponse at hq
      dsimp only at hq
      split at hq <;> exact .inl hq
    · cases h
  | resume i g =>
    dsimp only at h
    split at h
    · cases h
    · rename_i w hi
      left
      rcases Process.resume_cases h with ⟨-, h⟩ | ⟨-, rfl⟩
      case inr => exact hq
      obtain ⟨x, wait⟩ := w
      cases wait with
      | connect =>
        simp only [Process.wake] at h
        split at h
        · cases h
          split at hq <;> exact hq
        · cases h
      | call ep q rsize cw =>
        obtain ⟨st, -, rfl⟩ := Option.map_eq_some_iff.mp h
        exact hq
      | disconnect =>
        simp only [Process.wake] at h
        split at h
        · cases h
          exact hq
        · cases h
      | response ep rb fnum nfrags =>
        obtain ⟨st, -, rfl⟩ := Option.map_eq_some_iff.mp h
        exact hq

end Steps

end Hwdb.Rpc
