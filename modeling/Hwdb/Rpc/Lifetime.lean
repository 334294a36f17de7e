import Hwdb.Rpc.Process

/-!
# Lifetime of records and endpoints

Which steps free a `CRecord` or an `RpcEndpoint`, and who may still hold it.

* `Core` — what every run keeps: chains in order, everything in the table unfreed, one
  endpoint for each record.
* `tick_effect` — a tick frees exactly the records of the table that are in `ST_TIMEDOUT`.
* `waiters_and_frees_safe_iff` — nobody waits on a destroyed record and nothing is freed
  twice exactly in the runs without a tick that finds a waiter on a timed-out record.
* `handles_never_dangle` — the same for endpoints held by clients, queues and workers.
-/

set_option autoImplicit false

namespace Hwdb.Rpc

open Hwdb.Lib

/-! ## The endpoint pointer of a record never changes -/

section EndpointPointer

variable {stable : Bytes → Option Nat} {nep : Nat} {d : Received} {cr : Option CRecord}
  {out : Outcome}

theorem Handled.ep (h : Handled stable nep d cr out) {c : CRecord} (hc : out.cr = some c) :
    c.ep = (cr.map (·.ep)).getD nep := by
  cases h with
  | ignored => subst hc; rfl
  | terminator => subst hc; rfl
  | strayName => subst hc; rfl
  | queryWhole c0 =>
    simp only [readerQueryNew] at hc
    split at hc <;> cases hc <;> rfl
  | queryLast c0 =>
    simp only [readerQueryNew] at hc
    split at hc <;> cases hc <;> rfl
  | disconnect cr =>
    cases cr with
    | none => cases hc
    | some c0 => cases hc; rfl
  | _ => cases hc; rfl

theorem Handled.queued_ep (h : Handled stable nep d cr out) {q : Queued}
    (hq : out.queued = some q) : ∃ c, cr = some c ∧ q.ep = c.ep := by
  cases h with
  | queryWhole c0 =>
    simp only [readerQueryNew] at hq
    split at hq
    · cases hq
    · cases hq; exact ⟨c0, rfl, rfl⟩
  | queryLast c0 =>
    simp only [readerQueryNew] at hq
    split at hq
    · cases hq
    · cases hq; exact ⟨c0, rfl, rfl⟩
  | _ => cases hq

theorem rpcCallSend_ep (ep sp : Nat) (cr : CRecord) (q : Bytes) (number : Option Nat)
    (seqno fnum nfrags : Nat) :
    (rpcCallSend ep sp cr q number seqno fnum nfrags).cr.ep = cr.ep := by
  unfold rpcCallSend
  split <;> split <;> rfl

theorem rpcCallNumber_ep (ep sp : Nat) (cr : CRecord) (q : Bytes) :
    (rpcCallNumber ep sp cr q).cr.ep = cr.ep :=
  rpcCallSend_ep ..

theorem rpcCallBegin_ep (ep sp : Nat) (cr : CRecord) (q : Bytes) :
    (rpcCallBegin ep sp cr q).cr.ep = cr.ep := by
  unfold rpcCallBegin
  by_cases hst : cr.state = .idle
  · rw [if_pos hst]
    by_cases hlim : SEQNO_LIMIT ≤ cr.seqno
    · rw [if_pos hlim]
      rfl
    · rw [if_neg hlim, rpcCallNumber_ep]
  · rw [if_neg hst]
    rfl

theorem rpcCallCollect_ep (cr : CRecord) (rsize : Nat) :
    (rpcCallCollect cr rsize).cr.ep = cr.ep := by
  unfold rpcCallCollect
  split
  · split
    · rfl
    · split <;> rfl
  · rfl

theorem rpcCallResume_ep {ep sp : Nat} {cr : CRecord} {q : Bytes} {rsize : Nat} {w : CallWait}
    {st : CallStep} (h : rpcCallResume ep sp cr q rsize w = some st) : st.cr.ep = cr.ep := by
  cases w with
  | seqno =>
    simp only [rpcCallResume] at h
    split at h
    · cases h
      split
      · rfl
      · exact rpcCallNumber_ep ..
    · cases h
  | frag =>
    simp only [rpcCallResume] at h
    split at h
    · cases h
      split
      · rfl
      · exact rpcCallSend_ep ..
    · cases h
  | query =>
    simp only [rpcCallResume] at h
    split at h
    · cases h
      exact rpcCallCollect_ep ..
    · cases h

theorem rpcResponseSend_ep (ep sp : Nat) (cr : CRecord) (r : Bytes) (fnum nfrags : Nat) :
    (rpcResponseSend ep sp cr r fnum nfrags).cr.ep = cr.ep := by
  unfold rpcResponseSend
  split <;> split <;> rfl

theorem rpcResponseBegin_ep (ep sp : Nat) (cr : CRecord) (r : Bytes) :
    (rpcResponseBegin ep sp cr r).cr.ep = cr.ep := by
  unfold rpcResponseBegin
  split
  · exact rpcResponseSend_ep ..
  · rfl

theorem rpcResponseResume_ep {ep sp : Nat} {cr : CRecord} {r : Bytes} {fnum nfrags : Nat}
    {st : ResponseStep} (h : rpcResponseResume ep sp cr r fnum nfrags = some st) :
    st.cr.ep = cr.ep := by
  unfold rpcResponseResume at h
  split at h
  · cases h
    split
    · rfl
    · exact rpcResponseSend_ep ..
  · cases h

end EndpointPointer

/-! ## What every run keeps -/

/-- The heap and the table of a process. -/
structure Core (s : Process) : Prop where
  placed : Chains.Placed s.endpoints ctableBucket s.table
  allocated : ∀ r, Chains.Mem s.table r → r < s.fresh
  waiters_allocated : ∀ w ∈ s.waiting, w.record < s.fresh
  unallocated : ∀ r, s.fresh ≤ r → s.recordFrees r = 0 ∧ s.endpointFrees r = 0
  table_live : ∀ r, Chains.Mem s.table r → s.recordFrees r = 0 ∧ s.endpointFrees r = 0
  own_endpoint : ∀ r, r < s.fresh → (s.records r).ep = r

section Core

variable {s : Process}

theorem core_init : Core Process.init where
  placed := Chains.placed_empty
  allocated := fun _ ⟨_, h⟩ => nomatch h
  waiters_allocated := fun _ h => nomatch h
  unallocated := fun _ _ => ⟨rfl, rfl⟩
  table_live := fun _ ⟨_, h⟩ => nomatch h
  own_endpoint := fun _ h => nomatch h

theorem Core.setRecord (h : Core s) {r : Nat} {cr : CRecord} (hep : cr.ep = (s.records r).ep) :
    Core (s.setRecord r cr) where
  placed := h.placed
  allocated := h.allocated
  waiters_allocated := h.waiters_allocated
  unallocated := h.unallocated
  table_live := h.table_live
  own_endpoint := by
    intro x hx
    by_cases hxr : x = r
    · subst hxr
      simp only [Process.setRecord, Function.update_self, hep]
      exact h.own_endpoint x hx
    · simp only [Process.setRecord, Function.update_of_ne hxr]
      exact h.own_endpoint x hx

theorem Core.allocate (h : Core s) (ep : Endpoint) {cr : CRecord} (hep : cr.ep = s.fresh) :
    Core (s.allocate ep cr) := by
  have hnew : ¬ Chains.Mem s.table s.fresh := fun hm => Nat.lt_irrefl _ (h.allocated _ hm)
  have hplaced : Chains.Placed (Function.update s.endpoints s.fresh ep) ctableBucket s.table :=
    h.placed.congr fun r hr =>
      Function.update_of_ne (fun he : r = s.fresh => hnew (he ▸ hr)) _ _
  refine ⟨hplaced.insert hnew, fun r hr => ?_, fun w hw => ?_, fun r hr => ?_, fun r hr => ?_,
    fun r hr => ?_⟩
  · rcases Chains.mem_insert.mp hr with rfl | hr
    · exact Nat.lt_succ_self _
    · exact Nat.lt_succ_of_lt (h.allocated r hr)
  · exact Nat.lt_succ_of_lt (h.waiters_allocated w hw)
  · exact h.unallocated r (Nat.le_of_succ_le hr)
  · rcases Chains.mem_insert.mp hr with rfl | hr
    · exact h.unallocated _ (Nat.le_refl _)
    · exact h.table_live r hr
  · by_cases hrf : r = s.fresh
    · subst hrf
      simpa [Process.allocate] using hep
    · have hlt : r < s.fresh := by
        have : r < s.fresh + 1 := hr
        omega
      simp only [Process.allocate, Function.update_of_ne hrf]
      exact h.own_endpoint r hlt

theorem mem_unlink (h : Core s) {r x : Nat} :
    Chains.Mem (s.unlink r).table x ↔ Chains.Mem s.table x ∧ x ≠ r := by
  simp only [Chains.Mem, Process.unlink, ctableRemove, Chains.mem_remove h.placed]
  constructor
  · rintro ⟨b, hb, hne⟩
    exact ⟨⟨b, hb⟩, hne⟩
  · rintro ⟨⟨b, hb⟩, hne⟩
    exact ⟨b, hb, hne⟩

/-- Unlinking a record and freeing its endpoint, the failing path of `rpc_connect`. -/
theorem Core.unlinkFree (h : Core s) {r : Nat} (hr : r < s.fresh) :
    Core ((s.unlink r).freeEndpoint r) where
  placed := h.placed.remove r
  allocated := fun x hx => h.allocated x ((mem_unlink h).mp hx).1
  waiters_allocated := h.waiters_allocated
  unallocated := by
    intro x hx
    have hne : x ≠ r := by
      have : s.fresh ≤ x := hx
      omega
    refine ⟨(h.unallocated x hx).1, ?_⟩
    simp only [Process.freeEndpoint, Function.update_of_ne hne]
    exact (h.unallocated x hx).2
  table_live := by
    intro x hx
    obtain ⟨hx, hne⟩ := (mem_unlink h).mp hx
    refine ⟨(h.table_live x hx).1, ?_⟩
    simp only [Process.freeEndpoint, Function.update_of_ne hne]
    exact (h.table_live x hx).2
  own_endpoint := h.own_endpoint

theorem Core.destroy (h : Core s) {r : Nat} (hr : r < s.fresh) : Core (s.destroy r) where
  placed := (h.unlinkFree hr).placed
  allocated := (h.unlinkFree hr).allocated
  waiters_allocated := h.waiters_allocated
  unallocated := by
    intro x hx
    have hne : x ≠ r := by
      have : s.fresh ≤ x := hx
      omega
    refine ⟨?_, ((h.unlinkFree hr).unallocated x hx).2⟩
    simp only [Process.destroy, Function.update_of_ne hne]
    exact (h.unallocated x hx).1
  table_live := by
    intro x hx
    obtain ⟨hx', hne⟩ := (mem_unlink h).mp hx
    refine ⟨?_, ((h.unlinkFree hr).table_live x hx).2⟩
    simp only [Process.destroy, Function.update_of_ne hne]
    exact (h.table_live x hx').1
  own_endpoint := h.own_endpoint

end Core

/-! ## One tick -/

section Tick

variable {s : Process}

theorem tickRecord_cases (s : Process) (r : Nat) :
    ((s.records r).state = .timedout ∧ s.tickRecord r = s.destroy r) ∨
      ((s.records r).state ≠ .timedout ∧
        ∃ c, c.ep = (s.records r).ep ∧ s.tickRecord r = s.setRecord r c) := by
  have ht := timerRecord_cases (s.endpoints r).subport (s.records r)
  unfold Process.tickRecord
  generalize hp : timerRecord (s.endpoints r).subport (s.records r) = p at ht
  obtain ⟨o, sent⟩ := p
  cases ht with
  | purged h => exact .inl ⟨h, rfl⟩
  | timed q hq h => exact .inr ⟨h, crecordSetState q .timedout, hq.ep, rfl⟩
  | pinged q hq h => exact .inr ⟨h, q, hq.ep, rfl⟩
  | retried q hq h =>
    refine .inr ⟨fun he => ?_, q, hq.ep, rfl⟩
    rw [he] at h
    cases h
  | counted q hq h => exact .inr ⟨h, q, hq.ep, rfl⟩

/-- `t` is what `s` becomes when the records in `l` are scanned. -/
structure Scanned (s t : Process) (l : List Nat) : Prop where
  recordFrees : ∀ x, t.recordFrees x = s.recordFrees x +
    if x ∈ l ∧ (s.records x).state = .timedout then 1 else 0
  endpointFrees : ∀ x, t.endpointFrees x = s.endpointFrees x +
    if x ∈ l ∧ (s.records x).state = .timedout then 1 else 0
  mem : ∀ x, Chains.Mem t.table x ↔
    Chains.Mem s.table x ∧ ¬ (x ∈ l ∧ (s.records x).state = .timedout)
  waiting : t.waiting = s.waiting
  handles : t.handles = s.handles
  queue : t.queue = s.queue
  held : t.held = s.held

/-- One record of the scan. -/
theorem scanned_tickRecord (h : Core s) (r : Nat) : Scanned s (s.tickRecord r) [r] := by
  rcases tickRecord_cases s r with ⟨hst, heq⟩ | ⟨hst, c, hep, heq⟩ <;> rw [heq]
  · refine ⟨fun x => ?_, fun x => ?_, fun x => ?_, rfl, rfl, rfl, rfl⟩
    · by_cases hx : x = r
      · subst hx
        simp [Process.destroy, hst]
      · simp [Process.destroy, hx]
    · by_cases hx : x = r
      · subst hx
        simp [Process.destroy, Process.freeEndpoint, Process.unlink, hst]
      · simp [Process.destroy, Process.freeEndpoint, Process.unlink, hx]
    · rw [show Chains.Mem (s.destroy r).table x ↔ _ from mem_unlink h]
      refine and_congr_right fun _ => not_congr ?_
      rw [List.mem_singleton]
      exact ⟨fun hx => ⟨hx, hx ▸ hst⟩, And.left⟩
  · have hnot : ∀ x, ¬ (x ∈ [r] ∧ (s.records x).state = .timedout) := by
      rintro x ⟨hx, hxst⟩
      rw [List.mem_singleton.mp hx] at hxst
      exact hst hxst
    refine ⟨fun x => ?_, fun x => ?_, fun x => ?_, rfl, rfl, rfl, rfl⟩
    · rw [if_neg (hnot x)]
      rfl
    · rw [if_neg (hnot x)]
      rfl
    · exact ⟨fun hx => ⟨hx, hnot x⟩, And.left⟩

theorem core_tickRecord (h : Core s) {r : Nat} (hr : r < s.fresh) : Core (s.tickRecord r) := by
  rcases tickRecord_cases s r with ⟨-, heq⟩ | ⟨-, c, hep, heq⟩ <;> rw [heq]
  · exact h.destroy hr
  · exact h.setRecord hep

theorem tickRecord_fresh (s : Process) (r : Nat) : (s.tickRecord r).fresh = s.fresh := by
  rcases tickRecord_cases s r with ⟨-, heq⟩ | ⟨-, c, -, heq⟩ <;> rw [heq] <;> rfl

theorem tickRecord_state_of_ne {r x : Nat} (hx : x ≠ r) :
    ((s.tickRecord r).records x).state = (s.records x).state := by
  rcases tickRecord_cases s r with ⟨-, heq⟩ | ⟨-, c, -, heq⟩ <;> rw [heq]
  · rfl
  · simp [Process.setRecord, hx]

/-- The scan, record after record; no record is met twice. -/
theorem scanned_foldl {l : List Nat} (hl : l.Nodup) (h : Core s) (hlt : ∀ r ∈ l, r < s.fresh) :
    Core (l.foldl Process.tickRecord s) ∧ Scanned s (l.foldl Process.tickRecord s) l := by
  induction l generalizing s with
  | nil => exact ⟨h, by simp, by simp, by simp, rfl, rfl, rfl, rfl⟩
  | cons r l ih =>
    obtain ⟨hr, hl⟩ := List.nodup_cons.mp hl
    have hcore := core_tickRecord h (hlt r (by simp))
    have hone := scanned_tickRecord h r
    obtain ⟨hc, hrest⟩ := ih hl hcore fun x hx => by
      rw [tickRecord_fresh]
      exact hlt x (List.mem_cons_of_mem _ hx)
    refine ⟨hc, ⟨fun x => ?_, fun x => ?_, fun x => ?_, hrest.waiting.trans hone.waiting,
      hrest.handles.trans hone.handles, hrest.queue.trans hone.queue,
      hrest.held.trans hone.held⟩⟩
    · rw [List.foldl_cons, hrest.recordFrees, hone.recordFrees]
      by_cases hx : x = r
      · subst hx
        simp [hr]
      · simp [hx, tickRecord_state_of_ne hx]
    · rw [List.foldl_cons, hrest.endpointFrees, hone.endpointFrees]
      by_cases hx : x = r
      · subst hx
        simp [hr]
      · simp [hx, tickRecord_state_of_ne hx]
    · rw [List.foldl_cons, hrest.mem, hone.mem]
      by_cases hx : x = r
      · subst hx
        simp [hr]
      · simp [hx, tickRecord_state_of_ne hx]

/-- **A tick frees the timed-out records of the table and their endpoints, and nothing else.** -/
theorem tick_effect (h : Core s) : Core s.tick ∧ Scanned s s.tick (Chains.entries s.table) :=
  scanned_foldl h.placed.nodup_entries h fun _ hr => h.allocated _ (Chains.mem_entries.mp hr)

end Tick

/-! ## What a step does to the lifetimes -/

/-- A step that frees nothing and hands out no connection. -/
structure Plain (s t : Process) : Prop where
  recordFrees : t.recordFrees = s.recordFrees
  endpointFrees : t.endpointFrees = s.endpointFrees
  mem : ∀ x, Chains.Mem s.table x → Chains.Mem t.table x
  waiting : ∃ l new, l.Sublist s.waiting ∧ t.waiting = l ++ new ∧ ∀ w ∈ new,
    w.wait ≠ .connect ∧ (Chains.Mem s.table w.record ∨ ∃ v ∈ s.waiting, v.record = w.record)
  handles : ∀ e ∈ t.handles, e ∈ s.handles
  queue : ∀ q ∈ t.queue, q ∈ s.queue ∨ Chains.Mem s.table q.ep
  held : ∀ e ∈ t.held, e ∈ s.held ∨ ∃ q ∈ s.queue, q.ep = e

/-- Everything a step can do to the objects and their holders. -/
inductive Effect (s : Process) : Act → Process → Prop where
  | plain {a : Act} {t : Process} (h : Plain s t) : Effect s a t
  | ticked : Effect s .tick s.tick
  | connecting {a : Act} {t : Process} (hr : t.recordFrees = s.recordFrees)
      (he : t.endpointFrees = s.endpointFrees)
      (hm : ∀ x, Chains.Mem t.table x ↔ x = s.fresh ∨ Chains.Mem s.table x)
      (hw : t.waiting = s.waiting ++ [⟨s.fresh, .connect⟩]) (hh : t.handles = s.handles)
      (hq : t.queue = s.queue) (hd : t.held = s.held) : Effect s a t
  | accepted {i r : Nat} {g : Endpoint} (hi : s.waiting[i]? = some ⟨r, .connect⟩)
      (hst : (s.records r).state ≠ .timedout) :
      Effect s (.resume i g)
        { s with waiting := s.waiting.eraseIdx i, handles := s.handles ++ [r] }
  | refused {i r : Nat} {g : Endpoint} (hi : s.waiting[i]? = some ⟨r, .connect⟩)
      (hst : (s.records r).state = .timedout) :
      Effect s (.resume i g)
        (({ s with waiting := s.waiting.eraseIdx i }.unlink r).freeEndpoint r)

section Steps

variable {s t : Process}

theorem plain_refl (s : Process) : Plain s s where
  recordFrees := rfl
  endpointFrees := rfl
  mem := fun _ h => h
  waiting := ⟨s.waiting, [], .refl _, by simp, fun _ h => nomatch h⟩
  handles := fun _ h => h
  queue := fun _ h => .inl h
  held := fun _ h => .inl h

theorem mem_of_lookup {ep : Endpoint} {r : Nat} (h : s.lookup ep = some r) :
    Chains.Mem s.table r := ⟨_, (Chains.mem_lookup h).1⟩

theorem recv_effect (h : Core s) (addr : Vector UInt8 ADDR_SIZE) (d : Received) :
    Core (s.recv addr d) ∧ Plain s (s.recv addr d) := by
  have hh : Handled s.stable s.fresh d ((s.lookup ⟨addr, d.subport⟩).map s.records) _ :=
    readerSwitch_handled _
  unfold Process.recv
  dsimp only
  generalize hout : readerSwitch s.stable s.fresh ((s.lookup ⟨addr, d.subport⟩).map s.records) d =
    out at hh
  have hqueued : ∀ q ∈ out.queued.toList, Chains.Mem s.table q.ep := by
    intro q hq
    obtain ⟨c, hc, hep⟩ := hh.queued_ep (Option.mem_toList.mp hq)
    obtain ⟨r, hr, rfl⟩ := Option.map_eq_some_iff.mp hc
    rw [hep, h.own_endpoint r (h.allocated r (mem_of_lookup hr))]
    exact mem_of_lookup hr
  have hwait : ∃ l new, l.Sublist s.waiting ∧ s.waiting = l ++ new ∧ ∀ w ∈ new,
      w.wait ≠ .connect ∧ (Chains.Mem s.table w.record ∨ ∃ v ∈ s.waiting, v.record = w.record) :=
    (plain_refl s).waiting
  have hqueue : ∀ q ∈ s.queue ++ out.queued.toList, q ∈ s.queue ∨ Chains.Mem s.table q.ep :=
    fun q hq => (List.mem_append.mp hq).imp_right (hqueued q)
  cases hc : out.cr with
  | none =>
    cases hl : s.lookup ⟨addr, d.subport⟩ with
    | none =>
      exact ⟨⟨h.placed, h.allocated, h.waiters_allocated, h.unallocated, h.table_live,
        h.own_endpoint⟩, ⟨rfl, rfl, fun _ hm => hm, hwait, fun _ he => he, hqueue,
        fun _ he => .inl he⟩⟩
    | some r =>
      exact ⟨⟨h.placed, h.allocated, h.waiters_allocated, h.unallocated, h.table_live,
        h.own_endpoint⟩, ⟨rfl, rfl, fun _ hm => hm, hwait, fun _ he => he, hqueue,
        fun _ he => .inl he⟩⟩
  | some c =>
    have hep := hh.ep hc
    cases hl : s.lookup ⟨addr, d.subport⟩ with
    | none =>
      rw [hl] at hep
      have hnew := h.allocate ⟨addr, d.subport⟩ hep
      exact ⟨⟨hnew.placed, hnew.allocated, hnew.waiters_allocated, hnew.unallocated,
        hnew.table_live, hnew.own_endpoint⟩, ⟨rfl, rfl,
        fun _ hm => Chains.mem_insert.mpr (.inr hm), hwait, fun _ he => he, hqueue,
        fun _ he => .inl he⟩⟩
    | some r =>
      rw [hl] at hep
      have hset := h.setRecord hep
      exact ⟨⟨hset.placed, hset.allocated, hset.waiters_allocated, hset.unallocated,
        hset.table_live, hset.own_endpoint⟩, ⟨rfl, rfl, fun _ hm => hm, hwait, fun _ he => he,
        hqueue, fun _ he => .inl he⟩⟩

/-- A thread writes to a record that it waited on or looked up, and may wait on it. -/
theorem plain_setRecord (h : Core s) {r : Nat} (cr : CRecord) {l new : List Waiter}
    {handles held : List Nat} {fault : Option Fault}
    (hr : Chains.Mem s.table r ∨ ∃ v ∈ s.waiting, v.record = r)
    (hep : cr.ep = (s.records r).ep) (hl : l.Sublist s.waiting)
    (hnew : ∀ w ∈ new, w.wait ≠ .connect ∧ w.record = r) (hh : ∀ e ∈ handles, e ∈ s.handles)
    (hd : ∀ e ∈ held, e ∈ s.held)
    (ht : t = { s.setRecord r cr with
      waiting := l ++ new, handles := handles, held := held, fault := fault }) :
    Core t ∧ Plain s t := by
  subst ht
  have hset := h.setRecord hep
  have hlt : r < s.fresh := by
    rcases hr with hr | ⟨v, hv, rfl⟩
    · exact h.allocated r hr
    · exact h.waiters_allocated v hv
  refine ⟨⟨hset.placed, hset.allocated, fun w hw => ?_, hset.unallocated, hset.table_live,
    hset.own_endpoint⟩, ⟨rfl, rfl, fun _ hm => hm, ⟨l, new, hl, rfl, fun w hw => ?_⟩, hh,
    fun _ hq => .inl hq, fun e he => .inl (hd e he)⟩⟩
  · rcases List.mem_append.mp hw with hw | hw
    · exact h.waiters_allocated w (hl.subset hw)
    · rw [(hnew w hw).2]
      exact hlt
  · rw [(hnew w hw).2]
    exact ⟨(hnew w hw).1, hr⟩

theorem rpcCall_effect (h : Core s) (rpc : Nat) (g : Endpoint) (q : Bytes) (rsize : Nat) :
    Core (s.rpcCall rpc g q rsize) ∧ Plain s (s.rpcCall rpc g q rsize) := by
  unfold Process.rpcCall
  dsimp only
  cases hl : s.lookup (s.readEndpoint rpc g) with
  | none => exact ⟨h, plain_refl s⟩
  | some r =>
    refine plain_setRecord h _ (.inl (mem_of_lookup hl)) (rpcCallBegin_ep ..) (.refl _) ?_
      (fun _ he => he) (fun _ he => he) rfl
    intro w hw
    obtain ⟨cw, -, rfl⟩ := Option.map_eq_some_iff.mp (Option.mem_toList.mp hw)
    exact ⟨nofun, rfl⟩

theorem rpcDisconnect_effect (h : Core s) (rpc : Nat) (g : Endpoint) :
    Core (s.rpcDisconnect rpc g) ∧ Plain s (s.rpcDisconnect rpc g) := by
  unfold Process.rpcDisconnect
  dsimp only
  cases hl : s.lookup (s.readEndpoint rpc g) with
  | none =>
    refine ⟨⟨h.placed, h.allocated, h.waiters_allocated, h.unallocated, h.table_live,
      h.own_endpoint⟩, ⟨rfl, rfl, fun _ hm => hm, (plain_refl s).waiting, ?_,
      fun _ hq => .inl hq, fun _ he => .inl he⟩⟩
    exact fun e he => List.mem_of_mem_erase he
  | some r =>
    refine plain_setRecord h
      (rpcDisconnectBegin rpc (s.readEndpoint rpc g).subport (s.records r)).1
      (.inl (mem_of_lookup hl)) rfl (.refl _) ?_ (fun _ he => List.mem_of_mem_erase he)
      (fun _ he => he) rfl
    intro w hw
    rw [List.mem_singleton.mp hw]
    exact ⟨nofun, rfl⟩

theorem rpcQuery_effect (h : Core s) {svc len : Nat} (ht : s.rpcQuery svc len = some t) :
    Core t ∧ Plain s t := by
  unfold Process.rpcQuery at ht
  obtain ⟨q, hq, rfl⟩ := Option.map_eq_some_iff.mp ht
  refine ⟨⟨h.placed, h.allocated, h.waiters_allocated, h.unallocated, h.table_live,
    h.own_endpoint⟩, ⟨rfl, rfl, fun _ hm => hm, (plain_refl s).waiting, fun _ he => he,
    fun x hx => .inl (List.mem_of_mem_erase hx), fun e he => ?_⟩⟩
  rcases List.mem_append.mp he with he | he
  · exact .inl he
  · rw [List.mem_singleton.mp he]
    exact .inr ⟨q, List.mem_of_find?_eq_some hq, rfl⟩

theorem rpcResponse_effect (h : Core s) (rpc : Nat) (g : Endpoint) (rb : Bytes) :
    Core (s.rpcResponse rpc g rb).1 ∧ Plain s (s.rpcResponse rpc g rb).1 := by
  unfold Process.rpcResponse
  dsimp only
  cases hl : s.lookup (s.readEndpoint rpc g) with
  | none =>
    refine ⟨⟨h.placed, h.allocated, h.waiters_allocated, h.unallocated, h.table_live,
      h.own_endpoint⟩, ⟨rfl, rfl, fun _ hm => hm, (plain_refl s).waiting, fun _ he => he,
      fun _ hq => .inl hq, ?_⟩⟩
    exact fun e he => .inl (List.mem_of_mem_erase he)
  | some r =>
    refine plain_setRecord h _ (.inl (mem_of_lookup hl)) (rpcResponseBegin_ep ..) (.refl _) ?_
      (fun _ he => he) (fun _ he => List.mem_of_mem_erase he) rfl
    intro w hw
    obtain ⟨cw, -, rfl⟩ := Option.map_eq_some_iff.mp (Option.mem_toList.mp hw)
    exact ⟨nofun, rfl⟩

theorem rpcConnect_effect (h : Core s) (a : Act) (pid : Nat)
    (addr : Option (Vector UInt8 ADDR_SIZE)) (svcName : Bytes) (seqno : Nat) :
    Core (s.rpcConnect pid addr svcName seqno) ∧
      Effect s a (s.rpcConnect pid addr svcName seqno) := by
  unfold Process.rpcConnect
  dsimp only
  cases addr with
  | none =>
    exact ⟨⟨h.placed, h.allocated, h.waiters_allocated, h.unallocated, h.table_live,
      h.own_endpoint⟩, .plain ⟨rfl, rfl, fun _ hm => hm, (plain_refl s).waiting, fun _ he => he,
      fun _ hq => .inl hq, fun _ he => .inl he⟩⟩
  | some addr =>
    have hnew := h.allocate ⟨addr, (Process.ctableNewSubport pid s.ctr).2⟩
      (show (rpcConnectBegin s.fresh (Process.ctableNewSubport pid s.ctr).2 svcName seqno).1.ep =
        s.fresh from rfl)
    refine ⟨⟨hnew.placed, hnew.allocated, fun w hw => ?_, hnew.unallocated, hnew.table_live,
      hnew.own_endpoint⟩, .connecting rfl rfl (fun _ => Chains.mem_insert) rfl rfl rfl rfl⟩
    rcases List.mem_append.mp hw with hw | hw
    · exact hnew.waiters_allocated w hw
    · rw [List.mem_singleton.mp hw]
      exact Nat.lt_succ_self _

theorem Core.eraseWaiter (h : Core s) (i : Nat) (handles : List Nat) :
    Core { s with waiting := s.waiting.eraseIdx i, handles := handles } :=
  ⟨h.placed, h.allocated, fun w hw => h.waiters_allocated w (List.mem_of_mem_eraseIdx hw),
    h.unallocated, h.table_live, h.own_endpoint⟩

theorem resume_effect (h : Core s) {i : Nat} {w : Waiter} {g : Endpoint}
    (hi : s.waiting[i]? = some w)
    (ht : { s with waiting := s.waiting.eraseIdx i }.resume w g = some t) :
    Core t ∧ Effect s (.resume i g) t := by
  obtain ⟨r, wait⟩ := w
  have hw : ∃ v ∈ s.waiting, v.record = r := ⟨_, List.mem_of_getElem? hi, rfl⟩
  have hlt : r < s.fresh := by
    obtain ⟨v, hv, rfl⟩ := hw
    exact h.waiters_allocated v hv
  have hsub := List.eraseIdx_sublist s.waiting i
  rcases Process.resume_cases ht with ⟨-, ht⟩ | ⟨-, rfl⟩
  case inr =>
    have hcore := h.eraseWaiter i s.handles
    exact ⟨⟨hcore.placed, hcore.allocated, hcore.waiters_allocated, hcore.unallocated,
      hcore.table_live, hcore.own_endpoint⟩, .plain ⟨rfl, rfl, fun _ hm => hm,
        ⟨_, [], hsub, by simp, fun _ h => nomatch h⟩, fun _ he => he, fun _ hq => .inl hq,
        fun _ he => .inl he⟩⟩
  cases wait with
  | connect =>
    simp only [Process.wake] at ht
    split at ht
    · cases ht
      split
      · rename_i hst
        exact ⟨(h.eraseWaiter i s.handles).unlinkFree hlt, .refused hi hst⟩
      · rename_i hst
        exact ⟨h.eraseWaiter i _, .accepted hi hst⟩
    · cases ht
  | call ep query rsize cw =>
    simp only [Process.wake] at ht
    obtain ⟨st, hst, rfl⟩ := Option.map_eq_some_iff.mp ht
    refine (plain_setRecord h _ (.inr hw) (rpcCallResume_ep hst) hsub ?_ (fun _ he => he)
      (fun _ he => he) rfl).imp_right .plain
    intro w hw
    obtain ⟨cw, -, rfl⟩ := Option.map_eq_some_iff.mp (Option.mem_toList.mp hw)
    exact ⟨nofun, rfl⟩
  | disconnect =>
    simp only [Process.wake] at ht
    split at ht
    · cases ht
      refine ⟨h.eraseWaiter i s.handles, .plain ⟨rfl, rfl, fun _ hm => hm, ?_, fun _ he => he,
        fun _ hq => .inl hq, fun _ he => .inl he⟩⟩
      exact ⟨_, [], hsub, by simp, fun _ h => nomatch h⟩
    · cases ht
  | response ep rb fnum nfrags =>
    simp only [Process.wake] at ht
    obtain ⟨st, hst, rfl⟩ := Option.map_eq_some_iff.mp ht
    refine (plain_setRecord h _ (.inr hw) (rpcResponseResume_ep hst) hsub ?_ (fun _ he => he)
      (fun _ he => he) rfl).imp_right .plain
    intro w hw
    obtain ⟨cw, -, rfl⟩ := Option.map_eq_some_iff.mp (Option.mem_toList.mp hw)
    exact ⟨nofun, rfl⟩

/-- **Step inversion.** -/
theorem next_effect {pid : Nat} {a : Act} (h : Core s) (ht : Process.next pid s a = some t) :
    Core t ∧ Effect s a t := by
  unfold Process.next at ht
  split at ht
  · cases ht
  cases a with
  | offer name =>
    cases ht
    obtain ⟨l, f, -, -, he⟩ := s.stableCreate_eq (.ofBytes name)
    rw [he]
    exact ⟨⟨h.placed, h.allocated, h.waiters_allocated, h.unallocated, h.table_live,
      h.own_endpoint⟩, .plain ⟨rfl, rfl, fun _ hm => hm, (plain_refl s).waiting,
      fun _ he => he, fun _ hq => .inl hq, fun _ he => .inl he⟩⟩
  | recv addr d =>
    cases ht
    exact (recv_effect h addr d).imp_right .plain
  | tick =>
    cases ht
    exact ⟨(tick_effect h).1, .ticked⟩
  | connect addr svcName seqno =>
    cases ht
    exact rpcConnect_effect h _ pid addr svcName seqno
  | call rpc g query rsize =>
    dsimp only at ht
    split at ht
    · cases ht
      exact (rpcCall_effect h rpc g query rsize).imp_right .plain
    · cases ht
  | disconnect rpc g =>
    dsimp only at ht
    split at ht
    · cases ht
      exact (rpcDisconnect_effect h rpc g).imp_right .plain
    · cases ht
  | query svc len => exact (rpcQuery_effect h ht).imp_right .plain
  | response rpc g rb =>
    dsimp only at ht
    split at ht
    · cases ht
      exact (rpcResponse_effect h rpc g rb).imp_right .plain
    · cases ht
  | resume i g =>
    dsimp only at ht
    split at ht
    · cases ht
    · rename_i w hi
      exact resume_effect h hi ht

end Steps

/-! ## Waiting threads -/

/-- No thread waits on, or has yet to look at, a destroyed record; nothing is freed twice. -/
def LifetimeSafe (s : Process) : Prop :=
  (∀ w ∈ s.waiting, s.recordFrees w.record = 0) ∧
    ∀ r, s.recordFrees r ≤ 1 ∧ s.endpointFrees r ≤ 1

/-- A tick that finds no waiter on a timed-out record; any other step. -/
def Unwatched (s : Process) : Act → Prop
  | .tick => ∀ r, Chains.Mem s.table r → (s.records r).state = .timedout →
      ∀ w ∈ s.waiting, w.record ≠ r
  | _ => True

/-- Two threads that are inside `rpc_connect` wait on different records. -/
def Apart (v w : Waiter) : Prop := v.wait = .connect → w.wait = .connect → v.record ≠ w.record

theorem Apart.symm {v w : Waiter} (h : Apart v w) : Apart w v := fun hw hv => (h hv hw).symm

/-- The threads inside `rpc_connect`. -/
structure Connecting (s : Process) : Prop where
  mem : ∀ w ∈ s.waiting, w.wait = .connect → Chains.Mem s.table w.record
  apart : s.waiting.Pairwise Apart

theorem pairwise_eraseIdx {β : Type} {R : β → β → Prop} (hsymm : ∀ a b, R a b → R b a)
    {l : List β} (h : l.Pairwise R) {i : Nat} {w : β} (hi : l[i]? = some w) :
    ∀ v ∈ l.eraseIdx i, R v w := by
  induction h generalizing i with
  | nil => cases hi
  | @cons a l ha _ ih =>
    intro v hv
    cases i with
    | zero =>
      simp only [List.getElem?_cons_zero, Option.some.injEq] at hi
      subst hi
      exact hsymm _ _ (ha v hv)
    | succ i =>
      simp only [List.getElem?_cons_succ] at hi
      rcases List.mem_cons.mp hv with rfl | hv
      · exact ha w (List.mem_of_getElem? hi)
      · exact ih hi v hv

section Waiting

variable {s t : Process}

theorem Connecting.init : Connecting Process.init :=
  ⟨fun _ h => (nomatch h), List.Pairwise.nil⟩

/-- The threads inside `rpc_connect` stay on records of the table, as long as the timer does
not take one away. -/
theorem Connecting.effect {a : Act} (hs : Core s) (h : Connecting s) (he : Effect s a t)
    (htick : a = .tick → ∀ r, Chains.Mem s.table r → (s.records r).state = .timedout →
      ∀ w ∈ s.waiting, w.wait = .connect → w.record ≠ r) : Connecting t := by
  cases he with
  | plain hp =>
    obtain ⟨l, new, hl, hw, hnew⟩ := hp.waiting
    refine ⟨fun w hwt hc => ?_, ?_⟩
    · rw [hw] at hwt
      rcases List.mem_append.mp hwt with hwl | hwn
      · exact hp.mem _ (h.mem w (hl.subset hwl) hc)
      · exact absurd hc (hnew w hwn).1
    · rw [hw, List.pairwise_append]
      refine ⟨h.apart.sublist hl, ?_, fun v _ w hw _ hc => absurd hc (hnew w hw).1⟩
      exact List.Pairwise.imp_of_mem (R := fun _ _ => True)
        (fun _ hb _ _ hc => absurd hc (hnew _ hb).1) (List.pairwise_of_forall fun _ _ => trivial)
  | ticked =>
    have hscan := (tick_effect hs).2
    refine ⟨fun w hw hc => ?_, by rw [hscan.waiting]; exact h.apart⟩
    rw [hscan.waiting] at hw
    have hm := h.mem w hw hc
    exact (hscan.mem _).mpr ⟨hm, fun hx => htick rfl _ hm hx.2 w hw hc rfl⟩
  | connecting _ _ hm hw =>
    refine ⟨fun w hwt hc => ?_, ?_⟩
    · rw [hw] at hwt
      rcases List.mem_append.mp hwt with hwl | hwn
      · exact (hm _).mpr (.inr (h.mem w hwl hc))
      · rw [List.mem_singleton.mp hwn]
        exact (hm _).mpr (.inl rfl)
    · rw [hw, List.pairwise_append]
      refine ⟨h.apart, List.pairwise_singleton .., fun v hv w hwn _ _ => ?_⟩
      rw [List.mem_singleton.mp hwn]
      exact Nat.ne_of_lt (hs.waiters_allocated v hv)
  | accepted hi hst =>
    exact ⟨fun w hw => h.mem w (List.mem_of_mem_eraseIdx hw),
      h.apart.sublist (List.eraseIdx_sublist ..)⟩
  | @refused i r g hi hst =>
    refine ⟨fun w hw hc => ?_, h.apart.sublist (List.eraseIdx_sublist ..)⟩
    refine (mem_unlink (hs.eraseWaiter i s.handles)).mpr
      ⟨h.mem w (List.mem_of_mem_eraseIdx hw) hc, ?_⟩
    exact pairwise_eraseIdx (fun _ _ => Apart.symm) h.apart hi w hw hc rfl

/-- The state of an admissible run. -/
structure Watched (s : Process) : Prop where
  core : Core s
  connecting : Connecting s
  safe : LifetimeSafe s

theorem Watched.effect {a : Act} (h : Watched s) (hc : Core t) (he : Effect s a t)
    (hok : Unwatched s a) : Watched t := by
  have hconn := h.connecting.effect h.core he fun ha r hr hst w hw _ => by
    subst ha
    exact hok r hr hst w hw
  obtain ⟨hlive, honce⟩ := h.safe
  refine ⟨hc, hconn, ?_⟩
  cases he with
  | plain hp =>
    obtain ⟨l, new, hl, hw, hnew⟩ := hp.waiting
    refine ⟨fun w hwt => ?_, by rw [hp.recordFrees, hp.endpointFrees]; exact honce⟩
    rw [hp.recordFrees]
    rw [hw] at hwt
    rcases List.mem_append.mp hwt with hwl | hwn
    · exact hlive w (hl.subset hwl)
    · rcases (hnew w hwn).2 with hm | ⟨v, hv, hvr⟩
      · exact (h.core.table_live _ hm).1
      · rw [← hvr]
        exact hlive v hv
  | ticked =>
    have hscan := (tick_effect h.core).2
    refine ⟨fun w hw => ?_, fun r => ?_⟩
    · rw [hscan.waiting] at hw
      rw [hscan.recordFrees, hlive w hw, if_neg]
      exact fun hx => hok _ (Chains.mem_entries.mp hx.1) hx.2 w hw rfl
    · rw [hscan.recordFrees, hscan.endpointFrees]
      split
      · rename_i hx
        have := h.core.table_live r (Chains.mem_entries.mp hx.1)
        omega
      · exact honce r
  | connecting hr he hm hw =>
    refine ⟨fun w hwt => ?_, by rw [hr, he]; exact honce⟩
    rw [hr]
    rw [hw] at hwt
    rcases List.mem_append.mp hwt with hwl | hwn
    · exact hlive w hwl
    · rw [List.mem_singleton.mp hwn]
      exact (h.core.unallocated _ (Nat.le_refl _)).1
  | accepted => exact ⟨fun w hw => hlive w (List.mem_of_mem_eraseIdx hw), honce⟩
  | @refused i r g hi hst =>
    refine ⟨fun w hw => hlive w (List.mem_of_mem_eraseIdx hw), fun x => ?_⟩
    refine ⟨(honce x).1, ?_⟩
    have hm := h.connecting.mem _ (List.mem_of_getElem? hi) rfl
    by_cases hx : x = r
    · subst hx
      have := (h.core.table_live _ hm).2
      simp [Process.freeEndpoint, Process.unlink, this]
    · simpa [Process.freeEndpoint, Process.unlink, hx] using (honce x).2

variable {pid : Nat}

theorem core_of_reach {ok : Process → Act → Prop} (h : (processSystem pid).Reach ok s) :
    Core s :=
  h.invariant core_init fun _ _ _ hc _ hn => (next_effect hc hn).1

theorem watched_of_reach (h : (processSystem pid).Reach Unwatched s) : Watched s := by
  have hinit : LifetimeSafe Process.init :=
    ⟨fun _ h => (nomatch h), fun _ => ⟨Nat.zero_le 1, Nat.zero_le 1⟩⟩
  refine h.invariant ⟨core_init, .init, hinit⟩ fun t a u ht hok hn => ?_
  obtain ⟨hc, he⟩ := next_effect ht.core hn
  exact ht.effect hc he hok

/-- A tick that finds a waiter on a timed-out record destroys the record under it. -/
theorem tick_unsafe (h : Core s) (hbad : ¬ Unwatched s .tick) : ¬ LifetimeSafe s.tick := by
  intro hsafe
  apply hbad
  intro r hr hst w hw hwr
  have hscan := (tick_effect h).2
  have hfree := hsafe.1 w (by rw [hscan.waiting]; exact hw)
  rw [hscan.recordFrees, hwr, if_pos ⟨Chains.mem_entries.mpr hr, hst⟩] at hfree
  omega

/-- **Waiters and frees.**  In a run, nobody waits on a destroyed record and nothing is freed
twice exactly if no tick finds a waiter on a timed-out record. -/
theorem lifetimeSafe_iff_unwatched {es : List (Process × Act)}
    (h : (processSystem pid).Trace (fun _ _ => True) es t) :
    ((∀ e ∈ es, LifetimeSafe e.1) ∧ LifetimeSafe t) ↔ ∀ e ∈ es, Unwatched e.1 e.2 := by
  constructor
  · rintro ⟨hes, ht⟩ ⟨s, a⟩ he
    obtain ⟨hreach, -, -⟩ := h.mem _ he
    obtain ⟨u, hu, hnext⟩ := h.succ _ he
    have hsafe : LifetimeSafe u := by
      rcases hnext with rfl | ⟨e', he', rfl⟩
      · exact ht
      · exact hes e' he'
    cases a with
    | tick =>
      refine Classical.by_contradiction fun hbad => tick_unsafe (core_of_reach hreach) hbad ?_
      simp only [processSystem, Process.next] at hu
      split at hu
      · cases hu
      · cases hu
        exact hsafe
    | _ => trivial
  · intro hok
    have h' := h.and hok
    have hmono : ∀ s a, (True ∧ Unwatched s a) → Unwatched s a := fun _ _ hx => hx.2
    exact ⟨fun e he => (watched_of_reach ((h'.mem e he).1.mono hmono)).safe,
      (watched_of_reach (h'.reach.mono hmono)).safe⟩

end Waiting

/-- The address of the other side in the runs below. -/
def otherSide : Vector UInt8 ADDR_SIZE := #v[2, 0, 3, 219, 10, 0, 0, 1, 0, 0, 0, 0, 0, 0, 0, 0]

/-- A control message of connection 65537 as it arrives. -/
def arrives (cmd : Command) (seqno : Nat) (rest : Bytes) : Act :=
  .recv otherSide ⟨message (cpComplete 65537 cmd seqno 1 1) rest, []⟩

/-- Connect, get the `CACK`, disconnect, get the `DACK`. -/
def disconnectAnswered : List Act :=
  [.connect (some otherSide) [72] 0, arrives .cack 0 [], .resume 0 ⟨otherSide, 0⟩,
    .disconnect 0 ⟨otherSide, 0⟩, arrives .dack 0 []]

/-- The thread inside `rpc_disconnect` runs, and then the timer, which destroys the record. -/
theorem lifetimeSafe_iff_unwatched_woken :
    ∃ es t, (processSystem 1).Trace (fun _ _ => True) es t ∧ t.recordFrees 0 = 1 ∧
      (∀ e ∈ es, LifetimeSafe e.1) ∧ LifetimeSafe t := by
  obtain ⟨es, t, ht, hp⟩ := System.Trace.of_run (processSystem 1) Unwatched
    (fun s a => match a with
      | .tick => s.waiting.isEmpty
      | _ => true)
    (disconnectAnswered ++ [.resume 0 ⟨otherSide, 0⟩, .tick]) (fun t => t.recordFrees 0 == 1)
    (fun s a h => by
      cases a with
      | tick =>
        intro r _ _ w hw
        rw [List.isEmpty_iff.mp h] at hw
        cases hw
      | _ => trivial)
    (by decide +kernel) (by decide +kernel)
  have hrun := ht.mono fun _ _ _ => trivial
  exact ⟨es, t, hrun, eq_of_beq hp,
    (lifetimeSafe_iff_unwatched hrun).mpr fun e he => (ht.mem e he).2.1⟩

/-- When the timer comes first, the thread is left waiting on a destroyed record. -/
theorem disconnect_waits_on_destroyed :
    ∃ t, (processSystem 1).Reach (fun _ _ => True) t ∧ ¬ LifetimeSafe t := by
  obtain ⟨t, ht, hp⟩ := System.Reach.of_run (processSystem 1) (fun _ _ => True)
    (fun _ _ => true) (disconnectAnswered ++ [.tick])
    (fun t => t.waiting.any fun w => t.recordFrees w.record != 0)
    (fun _ _ _ => trivial) (by decide +kernel) (by decide +kernel)
  refine ⟨t, ht, fun hsafe => ?_⟩
  obtain ⟨w, hw, hne⟩ := List.any_eq_true.mp hp
  simp [hsafe.1 w hw] at hne

/-! ## Held endpoints -/

/-- A client, a queue element or a worker has the endpoint. -/
def Holds (s : Process) (e : Nat) : Prop :=
  e ∈ s.handles ∨ (∃ q ∈ s.queue, q.ep = e) ∨ e ∈ s.held

/-- A tick that finds no timed-out record whose endpoint somebody has or is about to be given
by `rpc_connect`; a failing return of `rpc_connect` with an endpoint that nobody has; an answer
to a timed-out client that no other record hides; any other step. -/
def Unheld (s : Process) : Act → Prop
  | .tick => ∀ r, Chains.Mem s.table r → (s.records r).state = .timedout →
      ¬ Holds s r ∧ ∀ w ∈ s.waiting, w.wait = .connect → w.record ≠ r
  | .resume i _ => ∀ r, s.waiting[i]? = some ⟨r, .connect⟩ →
      (s.records r).state = .timedout → ¬ Holds s r
  | .response e _ _ => (s.records e).state = .timedout → ∀ r, Chains.Mem s.table r → r ≠ e →
      ctableBucket (s.endpoints r) = ctableBucket (s.endpoints e) →
        (s.endpoints r).subport ≠ (s.endpoints e).subport
  | _ => True

/-- Nothing that somebody has is freed, and a worker that answers a timed-out client gets 0
while everything it looks at is allocated. -/
def HandlesLive (s : Process) : Prop :=
  (∀ e, Holds s e → s.endpointFrees e = 0) ∧
    ∀ e g rb, e ∈ s.held → Unheld s (.response e g rb) → (s.records e).state = .timedout →
      (s.rpcResponse e g rb).2 = some false ∧
        ∀ r, Chains.Mem s.table r → s.recordFrees r = 0 ∧ s.endpointFrees r = 0

section Held

variable {s t : Process}

/-- The state of a run that keeps to `Unheld`: whatever is held is still in the table. -/
structure Kept (s : Process) : Prop where
  core : Core s
  connecting : Connecting s
  held : ∀ e, Holds s e → Chains.Mem s.table e

theorem Kept.effect {a : Act} (h : Kept s) (hc : Core t) (he : Effect s a t)
    (hok : Unheld s a) : Kept t := by
  refine ⟨hc, h.connecting.effect h.core he fun ha r hr hst => ?_, ?_⟩
  · subst ha
    exact (hok r hr hst).2
  cases he with
  | plain hp =>
    rintro e (he | ⟨q, hq, rfl⟩ | he)
    · exact hp.mem _ (h.held e (.inl (hp.handles e he)))
    · rcases hp.queue q hq with hq | hm
      · exact hp.mem _ (h.held _ (.inr (.inl ⟨q, hq, rfl⟩)))
      · exact hp.mem _ hm
    · rcases hp.held e he with he | hq
      · exact hp.mem _ (h.held e (.inr (.inr he)))
      · exact hp.mem _ (h.held e (.inr (.inl hq)))
  | ticked =>
    have hscan := (tick_effect h.core).2
    intro e he
    have he : Holds s e := by
      unfold Holds at he ⊢
      rwa [hscan.handles, hscan.queue, hscan.held] at he
    exact (hscan.mem e).mpr ⟨h.held e he, fun hx =>
      (hok e (Chains.mem_entries.mp hx.1) hx.2).1 he⟩
  | connecting _ _ hm _ hh hq hd =>
    intro e he
    have he : Holds s e := by
      unfold Holds at he ⊢
      rwa [hh, hq, hd] at he
    exact (hm e).mpr (.inr (h.held e he))
  | @accepted i r g hi hst =>
    rintro e (he | he)
    · rcases List.mem_append.mp he with he | he
      · exact h.held e (.inl he)
      · rw [List.mem_singleton.mp he]
        exact h.connecting.mem _ (List.mem_of_getElem? hi) rfl
    · exact h.held e (.inr he)
  | @refused i r g hi hst =>
    intro e he
    refine (mem_unlink (h.core.eraseWaiter i s.handles)).mpr ⟨h.held e he, ?_⟩
    rintro rfl
    exact hok e hi hst he

theorem kept_of_reach {pid : Nat} (h : (processSystem pid).Reach Unheld s) : Kept s := by
  have hinit : ∀ e, Holds Process.init e → Chains.Mem Process.init.table e := by
    rintro e (he | ⟨q, hq, -⟩ | he)
    · cases he
    · cases hq
    · cases he
  refine h.invariant ⟨core_init, .init, hinit⟩ fun t a u ht hok hn => ?_
  obtain ⟨hc, he⟩ := next_effect ht.core hn
  exact ht.effect hc he hok

/-- A record of the table that nothing hides is what a lookup of its endpoint finds. -/
theorem lookup_own (h : Core s) {e : Nat} (he : Chains.Mem s.table e)
    (hother : ∀ r, Chains.Mem s.table r → r ≠ e →
      ctableBucket (s.endpoints r) = ctableBucket (s.endpoints e) →
        (s.endpoints r).subport ≠ (s.endpoints e).subport) :
    s.lookup (s.endpoints e) = some e := by
  obtain ⟨b, hb⟩ := he
  have hbe := (h.placed b).2 e hb
  cases hl : s.lookup (s.endpoints e) with
  | none =>
    have := List.find?_eq_none.mp hl e (hbe ▸ hb)
    simp [endpointEqual_iff] at this
  | some r =>
    obtain ⟨hr, hsame⟩ := Chains.mem_lookup hl
    refine congrArg some (Decidable.by_contra fun hne => ?_)
    exact hother r ⟨_, hr⟩ hne ((h.placed _).2 r hr) ((endpointEqual_iff _ _).mp hsame).symm

/-- **Handles never dangle.**  In a run whose steps keep to `Unheld`, no endpoint that a client,
a queue or a worker has is ever freed, and answers to timed-out clients are refused. -/
theorem handles_never_dangle {pid : Nat} (h : (processSystem pid).Reach Unheld s) :
    HandlesLive s := by
  have hk := kept_of_reach h
  refine ⟨fun e he => (hk.core.table_live e (hk.held e he)).2, fun e g rb he hu hst => ?_⟩
  refine ⟨?_, hk.core.table_live⟩
  have hm := hk.held e (.inr (.inr he))
  have hlook := lookup_own hk.core hm (hu hst)
  have hread : s.readEndpoint e g = s.endpoints e := if_pos (hk.core.table_live e hm).2
  have hne : (s.records e).state ≠ .qackSent := by rw [hst]; decide
  simp [Process.rpcResponse, hread, hlook, Process.finishResponse, rpcResponseBegin, hne,
    ResponseStep.fail]

end Held

/-- A client connects to the service and sends it one query, a worker fetches the query, and
the client disconnects. -/
def serveThenDisconnect : List Act :=
  [.offer [72], arrives .connect 0 [72, 0], arrives .query 1 (dataBody 1 1 [9]), .query 0 10,
    arrives .disconnect 1 []]

/-- The worker still has the endpoint of the client that went away. -/
theorem handles_never_dangle_served :
    ∃ t, (0 ∈ t.held ∧ (t.records 0).state = .timedout) ∧ HandlesLive t := by
  obtain ⟨t, ht, hp⟩ := System.Reach.of_run (processSystem 1) Unheld
    (fun _ a => match a with
      | .tick => false
      | .resume .. => false
      | .response .. => false
      | _ => true)
    serveThenDisconnect
    (fun t => decide (0 ∈ t.held ∧ (t.records 0).state = .timedout))
    (fun s a h => by cases a <;> trivial) (by decide +kernel)
    (by decide +kernel)
  exact ⟨t, of_decide_eq_true hp, handles_never_dangle ht⟩

/-- The next tick frees the endpoint that the worker has. -/
theorem worker_endpoint_freed :
    ∃ t, (processSystem 1).Reach (fun _ _ => True) t ∧ ¬ HandlesLive t := by
  obtain ⟨t, ht, hp⟩ := System.Reach.of_run (processSystem 1) (fun _ _ => True)
    (fun _ _ => true) (serveThenDisconnect ++ [.tick])
    (fun t => decide (0 ∈ t.held ∧ t.endpointFrees 0 ≠ 0))
    (fun _ _ _ => trivial) (by decide +kernel) (by decide +kernel)
  obtain ⟨hheld, hfreed⟩ := of_decide_eq_true hp
  exact ⟨t, ht, fun hlive => hfreed (hlive.1 0 (.inr (.inr hheld)))⟩

end Hwdb.Rpc
