import Hwdb.Rpc.Lifetime

/-!
# The keys of the connection table (`ctable.c`, `ctable_newSubport`; `srpc.c`, `rpc_connect`)

`reader` inserts a record when its lookup has found none; `rpc_connect` inserts one without a
lookup, under a subport made of the process identifier and a counter of 15 bits.

* `issued` — the subport of the `n`-th call of `rpc_connect`.
* `Keyed`, `next_keyed` — what a step does to the records of the table and their endpoints.
* `UniqueKeys` — no two records of the table have the same endpoint.
* `SubportFree` — from the history of a run: no live connection to the same peer is a multiple of
  32767 calls older, and none that the peer has opened has the subport that is next.
* `uniqueKeys_iff` — the runs whose keys are unique.
-/

set_option autoImplicit false

namespace Hwdb.Rpc

open Hwdb.Lib

/-- No two records of the table have the same endpoint. -/
def UniqueKeys (s : Process) : Prop :=
  ∀ r r', Chains.Mem s.table r → Chains.Mem s.table r' → s.endpoints r = s.endpoints r' → r = r'

/-! ## The counter -/

/-- The subport of call number `n` of `rpc_connect`, counted from 0. -/
def issued (pid n : Nat) : Nat := (Process.ctableNewSubport pid (n % 32767)).2

/-- `ctr` after `n` calls. -/
def ctrAfter (n : Nat) : Nat := if n = 0 then 0 else (n - 1) % 32767 + 1

theorem ctableNewSubport_ctrAfter (pid n : Nat) :
    Process.ctableNewSubport pid (ctrAfter n) = (ctrAfter (n + 1), issued pid n) := by
  have hctr : (if 32767 < ctrAfter n + 1 then 1 else ctrAfter n + 1) = n % 32767 + 1 := by
    unfold ctrAfter
    split_ifs <;> omega
  have hmod : (if 32767 < n % 32767 + 1 then 1 else n % 32767 + 1) = n % 32767 + 1 := by
    rw [if_neg (by omega)]
  have hnext : ctrAfter (n + 1) = n % 32767 + 1 := by
    rw [ctrAfter, if_neg (Nat.succ_ne_zero n), Nat.add_sub_cancel]
  simp only [issued, Process.ctableNewSubport, hctr, hmod, hnext]

theorem issued_eq (pid n : Nat) : issued pid n =
    if pid % 65536 * 65536 + (n % 32767 + 1) < 2147483648 then
      pid % 65536 * 65536 + (n % 32767 + 1)
    else pid % 65536 * 65536 + (n % 32767 + 1) + 18446744069414584320 := by
  have hctr : ¬ 32767 < n % 32767 + 1 := by omega
  simp only [issued, Process.ctableNewSubport, if_neg hctr]

/-- **Two calls get the same subport when they are a multiple of 32767 calls apart.** -/
theorem issued_eq_iff (pid : Nat) {i n : Nat} (hin : i ≤ n) :
    issued pid i = issued pid n ↔ 32767 ∣ n - i := by
  have hmod : i % 32767 = n % 32767 ↔ 32767 ∣ n - i := by omega
  rw [← hmod, issued_eq, issued_eq]
  constructor
  · intro h
    split_ifs at h <;> omega
  · intro h
    rw [h]

/-! ## What a step does to the keys -/

/-- Records leave the table or stay as they are. -/
structure Shrinks (s t : Process) : Prop where
  mem : ∀ r, Chains.Mem t.table r → Chains.Mem s.table r
  endpoints : t.endpoints = s.endpoints
  fresh : t.fresh = s.fresh
  ctr : t.ctr = s.ctr

/-- A record with endpoint `ep` enters the table. -/
structure Enters (s t : Process) (ep : Endpoint) : Prop where
  mem : ∀ r, Chains.Mem t.table r ↔ r = s.fresh ∨ Chains.Mem s.table r
  endpoints : t.endpoints = Function.update s.endpoints s.fresh ep
  fresh : t.fresh = s.fresh + 1

/-- The three kinds of steps. -/
inductive Keyed (pid : Nat) (s : Process) (a : Act) (t : Process) : Prop where
  | shrinks (h : Shrinks s t) (ha : ∀ addr svcName seqno, a ≠ .connect addr svcName seqno)
  | accepted {addr : Vector UInt8 ADDR_SIZE} {d : Received} (ha : a = .recv addr d)
      (hl : s.lookup ⟨addr, d.subport⟩ = none) (h : Enters s t ⟨addr, d.subport⟩)
      (hc : t.ctr = s.ctr)
  | connected {addr : Vector UInt8 ADDR_SIZE} {svcName : Bytes} {seqno : Nat}
      (ha : a = .connect (some addr) svcName seqno)
      (h : Enters s t ⟨addr, (Process.ctableNewSubport pid s.ctr).2⟩)
      (hc : t.ctr = (Process.ctableNewSubport pid s.ctr).1)
  | unresolved {svcName : Bytes} {seqno : Nat} (ha : a = .connect none svcName seqno)
      (ht : t = { s with
        ctr := (Process.ctableNewSubport pid s.ctr).1, fault := some .nullPointer })

section Steps

variable {s t u : Process} {a : Act} {pid : Nat}

theorem shrinks_refl (s : Process) : Shrinks s s := ⟨fun _ h => h, rfl, rfl, rfl⟩

theorem Shrinks.trans (h : Shrinks s t) (h' : Shrinks t u) : Shrinks s u :=
  ⟨fun r hr => h.mem r (h'.mem r hr), h'.endpoints.trans h.endpoints, h'.fresh.trans h.fresh,
    h'.ctr.trans h.ctr⟩

/-- A step that has nothing to do with the table. -/
theorem shrinks_of_same (htable : t.table = s.table) (hep : t.endpoints = s.endpoints)
    (hfresh : t.fresh = s.fresh) (hctr : t.ctr = s.ctr) : Shrinks s t :=
  ⟨fun r hr => by rwa [htable] at hr, hep, hfresh, hctr⟩

theorem shrinks_unlink (h : Core s) (r : Nat) : Shrinks s (s.unlink r) :=
  ⟨fun _ hx => ((mem_unlink h).mp hx).1, rfl, rfl, rfl⟩

theorem shrinks_tick (h : Core s) : Shrinks s s.tick := by
  have key : ∀ (l : List Nat) (s : Process), Core s → (∀ r ∈ l, r < s.fresh) →
      Shrinks s (l.foldl Process.tickRecord s) := by
    intro l
    induction l with
    | nil => exact fun s _ _ => shrinks_refl s
    | cons r l ih =>
      intro s hs hlt
      have hcore := core_tickRecord hs (hlt r List.mem_cons_self)
      have hone : Shrinks s (s.tickRecord r) := by
        rcases tickRecord_cases s r with ⟨-, heq⟩ | ⟨-, c, -, heq⟩
        · rw [heq]
          exact (shrinks_unlink hs r).trans (shrinks_of_same rfl rfl rfl rfl)
        · rw [heq]
          exact shrinks_of_same rfl rfl rfl rfl
      refine hone.trans (ih _ hcore fun x hx => ?_)
      rw [hone.fresh]
      exact hlt x (List.mem_cons_of_mem r hx)
  exact key _ s h fun r hr => h.allocated r (Chains.mem_entries.mp hr)

theorem enters_allocate (s : Process) (ep : Endpoint) (cr : CRecord) :
    Enters s (s.allocate ep cr) ep :=
  ⟨fun _ => Chains.mem_insert, rfl, rfl⟩

theorem recv_keyed (s : Process) (addr : Vector UInt8 ADDR_SIZE) (d : Received) :
    Keyed pid s (.recv addr d) (s.recv addr d) := by
  have hne : ∀ addr' svcName seqno, Act.recv addr d ≠ .connect addr' svcName seqno :=
    fun _ _ _ h => (by cases h)
  unfold Process.recv
  dsimp only
  cases hl : s.lookup ⟨addr, d.subport⟩ with
  | none =>
    cases (readerSwitch s.stable s.fresh (Option.map s.records none) d).cr with
    | none => exact .shrinks (shrinks_of_same rfl rfl rfl rfl) hne
    | some c =>
      obtain ⟨hmem, hep, hfresh⟩ := enters_allocate s ⟨addr, d.subport⟩ c
      exact .accepted rfl hl ⟨hmem, hep, hfresh⟩ rfl
  | some r =>
    cases (readerSwitch s.stable s.fresh (Option.map s.records (some r)) d).cr with
    | none => exact .shrinks (shrinks_of_same rfl rfl rfl rfl) hne
    | some c => exact .shrinks (shrinks_of_same rfl rfl rfl rfl) hne

theorem resume_shrinks (h : Core s) {w : Waiter} {g : Endpoint} (ht : s.resume w g = some t) :
    Shrinks s t := by
  rcases Process.resume_cases ht with ⟨-, ht⟩ | ⟨-, rfl⟩
  case inr => exact shrinks_of_same rfl rfl rfl rfl
  obtain ⟨x, wait⟩ := w
  cases wait with
  | connect =>
    simp only [Process.wake] at ht
    split at ht
    · cases ht
      split
      · exact (shrinks_unlink h x).trans (shrinks_of_same rfl rfl rfl rfl)
      · exact shrinks_of_same rfl rfl rfl rfl
    · cases ht
  | call ep q rsize cw =>
    obtain ⟨st, -, rfl⟩ := Option.map_eq_some_iff.mp ht
    exact shrinks_of_same rfl rfl rfl rfl
  | disconnect =>
    simp only [Process.wake] at ht
    split at ht
    · cases ht
      exact shrinks_refl s
    · cases ht
  | response ep rb fnum nfrags =>
    obtain ⟨st, -, rfl⟩ := Option.map_eq_some_iff.mp ht
    exact shrinks_of_same rfl rfl rfl rfl

/-- **Inversion of a step**, for the keys. -/
theorem next_keyed (h : Core s) (hn : Process.next pid s a = some t) : Keyed pid s a t := by
  unfold Process.next at hn
  split at hn
  · cases hn
  cases a with
  | offer name =>
    cases hn
    obtain ⟨l, f, -, -, he⟩ := s.stableCreate_eq (.ofBytes name)
    rw [he]
    exact .shrinks (shrinks_of_same rfl rfl rfl rfl) fun _ _ _ he => (by cases he)
  | recv addr d =>
    cases hn
    exact recv_keyed s addr d
  | tick =>
    cases hn
    exact .shrinks (shrinks_tick h) fun _ _ _ he => (by cases he)
  | connect addr svcName seqno =>
    cases hn
    cases addr with
    | none => exact .unresolved rfl rfl
    | some addr => exact .connected rfl ⟨fun _ => Chains.mem_insert, rfl, rfl⟩ rfl
  | call rpc g q rsize =>
    refine .shrinks ?_ fun _ _ _ he => (by cases he)
    dsimp only at hn
    split at hn
    · cases hn
      unfold Process.rpcCall
      dsimp only
      split <;> exact shrinks_of_same rfl rfl rfl rfl
    · cases hn
  | disconnect rpc g =>
    refine .shrinks ?_ fun _ _ _ he => (by cases he)
    dsimp only at hn
    split at hn
    · cases hn
      unfold Process.rpcDisconnect
      dsimp only
      split <;> exact shrinks_of_same rfl rfl rfl rfl
    · cases hn
  | query svc len =>
    refine .shrinks ?_ fun _ _ _ he => (by cases he)
    obtain ⟨q, -, rfl⟩ := Option.map_eq_some_iff.mp hn
    exact shrinks_of_same rfl rfl rfl rfl
  | response rpc g rb =>
    refine .shrinks ?_ fun _ _ _ he => (by cases he)
    dsimp only at hn
    split at hn
    · cases hn
      unfold Process.rpcResponse
      dsimp only
      split <;> exact shrinks_of_same rfl rfl rfl rfl
    · cases hn
  | resume i g =>
    refine .shrinks ?_ fun _ _ _ he => (by cases he)
    dsimp only at hn
    split at hn
    · cases hn
    · rename_i w hw
      have hcore := h.eraseWaiter i s.handles
      have hresumed := resume_shrinks hcore hn
      exact ⟨hresumed.mem, hresumed.endpoints, hresumed.fresh, hresumed.ctr⟩

end Steps

/-! ## The history of a run -/

def Act.isConnect : Act → Bool
  | .connect .. => true
  | _ => false

/-- Number of calls of `rpc_connect` so far. -/
def connects (es : List (Process × Act)) : Nat := es.countP fun e => e.2.isConnect

/-- Record `r` is that of call number `i` of `rpc_connect`. -/
def OpenedBy (es : List (Process × Act)) (i r : Nat) : Prop :=
  ∃ before s addr svcName seqno after,
    es = before ++ (s, Act.connect (some addr) svcName seqno) :: after ∧
      connects before = i ∧ s.fresh = r

/-- **The next subport is free for the peer**: every live connection to it that this process has
opened is not a multiple of 32767 calls old, and those that the peer has opened have another
subport. -/
def SubportFree (pid : Nat) (before : List (Process × Act)) (s : Process)
    (addr : Vector UInt8 ADDR_SIZE) : Prop :=
  ∀ r, Chains.Mem s.table r → (s.endpoints r).addr = addr →
    (∀ i, OpenedBy before i r → ¬ 32767 ∣ connects before - i) ∧
      ((∀ i, ¬ OpenedBy before i r) → (s.endpoints r).subport ≠ issued pid (connects before))

/-- What the counter and the records opened so far have to do with the history. -/
structure Opened (pid : Nat) (es : List (Process × Act)) (s : Process) : Prop where
  ctr : s.ctr = ctrAfter (connects es)
  opened : ∀ i r, OpenedBy es i r →
    i < connects es ∧ r < s.fresh ∧ (s.endpoints r).subport = issued pid i

section History

variable {s t : Process} {a : Act} {pid r i : Nat} {es : List (Process × Act)}

theorem connects_snoc (es : List (Process × Act)) (s : Process) (a : Act) :
    connects (es ++ [(s, a)]) = connects es + if a.isConnect then 1 else 0 := by
  rw [connects, List.countP_append, List.countP_singleton, connects]

theorem openedBy_snoc (h : OpenedBy (es ++ [(s, a)]) i r) :
    OpenedBy es i r ∨ (i = connects es ∧ r = s.fresh ∧
      ∃ addr svcName seqno, a = .connect (some addr) svcName seqno) := by
  obtain ⟨before, s', addr, svcName, seqno, after, heq, rfl, rfl⟩ := h
  rcases List.eq_nil_or_concat after with rfl | ⟨after, e, rfl⟩
  · obtain ⟨rfl, he⟩ := List.append_inj' heq rfl
    cases he
    exact .inr ⟨rfl, rfl, addr, svcName, seqno, rfl⟩
  · rw [List.concat_eq_append, ← List.cons_append, ← List.append_assoc] at heq
    obtain ⟨rfl, -⟩ := List.append_inj' heq rfl
    exact .inl ⟨before, s', addr, svcName, seqno, after, rfl, rfl, rfl⟩

theorem opened_init (pid : Nat) : Opened pid [] Process.init := by
  refine ⟨rfl, ?_⟩
  rintro i r ⟨before, s, addr, svcName, seqno, after, heq, -⟩
  exact absurd heq (by simp)

/-- One step. -/
theorem Opened.next (h : Opened pid es s) (hk : Keyed pid s a t) :
    Opened pid (es ++ [(s, a)]) t := by
  cases hk with
  | shrinks hs ha =>
    have hcount : a.isConnect = false := by
      cases a with
      | connect addr svcName seqno => exact absurd rfl (ha addr svcName seqno)
      | _ => rfl
    refine ⟨?_, fun i r ho => ?_⟩
    · rw [connects_snoc, hcount, hs.ctr, h.ctr]
      rfl
    · rcases openedBy_snoc ho with ho | ⟨-, -, addr, svcName, seqno, rfl⟩
      · rw [connects_snoc, hcount, hs.fresh, hs.endpoints]
        exact h.opened i r ho
      · cases hcount
  | @accepted addr d ha hl hs hc =>
    subst ha
    refine ⟨?_, fun i r ho => ?_⟩
    · rw [connects_snoc, hc, h.ctr]
      rfl
    · rcases openedBy_snoc ho with ho | ⟨-, -, addr, svcName, seqno, ha⟩
      · obtain ⟨hi, hr, hsub⟩ := h.opened i r ho
        rw [connects_snoc, hs.fresh, hs.endpoints, Function.update_of_ne (Nat.ne_of_lt hr)]
        exact ⟨hi, Nat.lt_succ_of_lt hr, hsub⟩
      · cases ha
  | @connected addr svcName seqno ha hs hc =>
    subst ha
    rw [h.ctr, ctableNewSubport_ctrAfter] at hc
    rw [h.ctr, ctableNewSubport_ctrAfter] at hs
    refine ⟨?_, fun i r ho => ?_⟩
    · rw [connects_snoc, hc]
      rfl
    · rw [connects_snoc, hs.fresh, hs.endpoints]
      rcases openedBy_snoc ho with ho | ⟨rfl, rfl, -⟩
      · obtain ⟨hi, hr, hsub⟩ := h.opened i r ho
        rw [Function.update_of_ne (Nat.ne_of_lt hr)]
        exact ⟨Nat.lt_succ_of_lt hi, Nat.lt_succ_of_lt hr, hsub⟩
      · rw [Function.update_self]
        exact ⟨Nat.lt_succ_self _, Nat.lt_succ_self _, rfl⟩
  | @unresolved svcName seqno ha ht =>
    subst ha
    subst ht
    refine ⟨?_, fun i r ho => ?_⟩
    · show (Process.ctableNewSubport pid s.ctr).1 = _
      rw [connects_snoc, h.ctr, ctableNewSubport_ctrAfter]
      rfl
    · rcases openedBy_snoc ho with ho | ⟨-, -, addr, svcName, seqno, ha⟩
      · obtain ⟨hi, hr, hsub⟩ := h.opened i r ho
        rw [connects_snoc]
        exact ⟨Nat.lt_succ_of_lt hi, hr, hsub⟩
      · cases ha

theorem opened_of_trace {ok : Process → Act → Prop} (h : (processSystem pid).Trace ok es s) :
    Opened pid es s := by
  refine h.invariant (opened_init pid) fun es t a u ht hi _ hn => ?_
  exact hi.next (next_keyed (core_of_reach ht.reach) hn)

/-- `SubportFree` says that the endpoint of the next connection is not in the table. -/
theorem subportFree_iff (h : Opened pid es s) (addr : Vector UInt8 ADDR_SIZE) :
    SubportFree pid es s addr ↔ ∀ r, Chains.Mem s.table r →
      s.endpoints r ≠ ⟨addr, (Process.ctableNewSubport pid s.ctr).2⟩ := by
  rw [h.ctr, ctableNewSubport_ctrAfter]
  constructor
  · intro hfree r hr heq
    obtain ⟨hopened, hother⟩ := hfree r hr (congrArg Endpoint.addr heq)
    by_cases ho : ∃ i, OpenedBy es i r
    · obtain ⟨i, ho⟩ := ho
      obtain ⟨hi, -, hsub⟩ := h.opened i r ho
      rw [heq] at hsub
      exact hopened i ho ((issued_eq_iff pid (Nat.le_of_lt hi)).mp hsub.symm)
    · exact hother (fun i hi => ho ⟨i, hi⟩) (congrArg Endpoint.subport heq)
  · intro hno r hr haddr
    have hne : (s.endpoints r).subport ≠ issued pid (connects es) := by
      intro hsub
      refine hno r hr ?_
      rw [← haddr, ← hsub]
    refine ⟨fun i ho hdvd => ?_, fun _ => hne⟩
    obtain ⟨hi, -, hsub⟩ := h.opened i r ho
    rw [hsub] at hne
    exact hne ((issued_eq_iff pid (Nat.le_of_lt hi)).mpr hdvd)

/-! ## Unique keys -/

theorem UniqueKeys.subset (h : UniqueKeys s)
    (hmem : ∀ r, Chains.Mem t.table r → Chains.Mem s.table r)
    (hep : t.endpoints = s.endpoints) : UniqueKeys t := by
  intro r r' hr hr' heq
  rw [hep] at heq
  exact h r r' (hmem r hr) (hmem r' hr') heq

/-- A record enters under an endpoint that the table does not have. -/
theorem UniqueKeys.enters (h : UniqueKeys s) (hc : Core s) {ep : Endpoint}
    (hs : Enters s t ep) (hnew : ∀ r, Chains.Mem s.table r → s.endpoints r ≠ ep) :
    UniqueKeys t := by
  have hold : ∀ r, Chains.Mem s.table r → t.endpoints r = s.endpoints r := fun r hr => by
    rw [hs.endpoints, Function.update_of_ne (Nat.ne_of_lt (hc.allocated r hr))]
  have hself : t.endpoints s.fresh = ep := by rw [hs.endpoints, Function.update_self]
  intro r r' hr hr' heq
  rcases (hs.mem r).mp hr with rfl | hr
  · rcases (hs.mem r').mp hr' with rfl | hr'
    · rfl
    · rw [hself, hold r' hr'] at heq
      exact absurd heq.symm (hnew r' hr')
  · rcases (hs.mem r').mp hr' with rfl | hr'
    · rw [hself, hold r hr] at heq
      exact absurd heq (hnew r hr)
    · rw [hold r hr, hold r' hr'] at heq
      exact h r r' hr hr' heq

/-- A lookup that finds nothing: no record has the endpoint. -/
theorem ne_of_lookup_none (hc : Core s) {ep : Endpoint} (hl : s.lookup ep = none) :
    ∀ r, Chains.Mem s.table r → s.endpoints r ≠ ep := by
  rintro r ⟨b, hb⟩ rfl
  have hbucket := (hc.placed b).2 r hb
  have hno := List.find?_eq_none.mp hl r (by rw [hbucket]; exact hb)
  exact hno ((endpointEqual_iff _ _).mpr rfl)

/-- One step that opens no connection under a subport in use. -/
theorem UniqueKeys.next (h : UniqueKeys s) (hc : Core s) (ho : Opened pid es s)
    (hok : ∀ addr svcName seqno, a = .connect (some addr) svcName seqno →
      SubportFree pid es s addr)
    (hk : Keyed pid s a t) : UniqueKeys t := by
  cases hk with
  | shrinks hs => exact h.subset hs.mem hs.endpoints
  | accepted ha hl hs => exact h.enters hc hs (ne_of_lookup_none hc hl)
  | @connected addr svcName seqno ha hs =>
    exact h.enters hc hs ((subportFree_iff ho addr).mp (hok addr svcName seqno ha))
  | unresolved ha ht =>
    subst ht
    exact h.subset (fun _ hr => hr) rfl

/-- Every call of `rpc_connect` in the run finds its subport free for the peer. -/
def SubportsFree (pid : Nat) (es : List (Process × Act)) : Prop :=
  ∀ before s addr svcName seqno after,
    es = before ++ (s, .connect (some addr) svcName seqno) :: after → SubportFree pid before s addr

theorem SubportsFree.earlier {after : List (Process × Act)}
    (h : SubportsFree pid (es ++ after)) : SubportsFree pid es := by
  rintro before s addr svcName seqno rest rfl
  exact h before s addr svcName seqno (rest ++ after) (by simp)

theorem uniqueKeys_of_trace (h : (processSystem pid).Trace (fun _ _ => True) es t)
    (hfree : SubportsFree pid es) : UniqueKeys t := by
  induction h with
  | nil =>
    rintro r r' ⟨b, hb⟩
    cases hb
  | @snoc es t u a ht _ hn ih =>
    have hc := core_of_reach ht.reach
    refine (ih hfree.earlier).next hc (opened_of_trace ht) ?_ (next_keyed hc hn)
    rintro addr svcName seqno rfl
    exact hfree es t addr svcName seqno [] rfl

/-- A call of `rpc_connect` that does not find its subport free leaves two records of one key. -/
theorem subportFree_of_uniqueKeys (hc : Core s) (ho : Opened pid es s)
    {addr : Vector UInt8 ADDR_SIZE} {svcName : Bytes} {seqno : Nat}
    (hn : Process.next pid s (.connect (some addr) svcName seqno) = some t)
    (hu : UniqueKeys t) : SubportFree pid es s addr := by
  refine (subportFree_iff ho addr).mpr fun r hr heq => ?_
  cases next_keyed hc hn with
  | shrinks _ ha => exact ha _ _ _ rfl
  | accepted ha => cases ha
  | unresolved ha => cases ha
  | connected ha hs =>
    cases ha
    have hlt := hc.allocated r hr
    have hsame : t.endpoints r = t.endpoints s.fresh := by
      rw [hs.endpoints, Function.update_self, Function.update_of_ne (Nat.ne_of_lt hlt), heq]
    have hfresh := hu r s.fresh ((hs.mem r).mpr (.inr hr)) ((hs.mem _).mpr (.inl rfl)) hsame
    exact Nat.lt_irrefl _ (hfresh ▸ hlt)

/-- **Keys are unique** in all states of a run exactly if every call of `rpc_connect` finds its
subport free for the peer. -/
theorem uniqueKeys_iff (h : (processSystem pid).Trace (fun _ _ => True) es t) :
    ((∀ e ∈ es, UniqueKeys e.1) ∧ UniqueKeys t) ↔ SubportsFree pid es := by
  constructor
  · rintro ⟨hes, ht⟩ before s addr svcName seqno after rfl
    obtain ⟨hbefore, -, u, hn⟩ := h.before
    obtain ⟨u', hn', hnext⟩ := h.succ (s, .connect (some addr) svcName seqno)
      (List.mem_append_right _ List.mem_cons_self)
    refine subportFree_of_uniqueKeys (core_of_reach hbefore.reach) (opened_of_trace hbefore)
      hn' ?_
    rcases hnext with rfl | ⟨e, he, rfl⟩
    · exact ht
    · exact hes e he
  · intro hfree
    refine ⟨fun e he => ?_, uniqueKeys_of_trace h hfree⟩
    obtain ⟨before, after, rfl⟩ := List.append_of_mem he
    exact uniqueKeys_of_trace h.before.1 hfree.earlier

end History

/-- Two connections to one peer. -/
theorem uniqueKeys_iff_connectTwice :
    ∃ es t, (0 ∈ Chains.entries t.table ∧ 1 ∈ Chains.entries t.table) ∧
      (((∀ e ∈ es, UniqueKeys e.1) ∧ UniqueKeys t) ↔ SubportsFree 1 es) := by
  obtain ⟨es, t, ht, hp⟩ := System.Trace.of_run (processSystem 1) (fun _ _ => True)
    (fun _ _ => true) [.connect (some otherSide) [72] 0, .connect (some otherSide) [72] 0]
    (fun t => decide (0 ∈ Chains.entries t.table ∧ 1 ∈ Chains.entries t.table))
    (fun _ _ _ => trivial) (by decide +kernel) (by decide +kernel)
  exact ⟨es, t, of_decide_eq_true hp, uniqueKeys_iff ht⟩

/-- The peer, a process with the same number, has opened its first connection to this one; the
first connection of this one to the peer gets the same subport. -/
theorem connect_duplicates_key :
    ¬ ∀ s, (processSystem 1).Reach (fun _ _ => True) s → UniqueKeys s := by
  intro h
  obtain ⟨t, ht, hp⟩ := System.Reach.of_run (processSystem 1) (fun _ _ => True)
    (fun _ _ => true)
    [.offer [72], arrives .connect 0 [72, 0], .connect (some otherSide) [72] 0]
    (fun t => decide (0 ∈ Chains.entries t.table ∧ 1 ∈ Chains.entries t.table ∧
      t.endpoints 0 = t.endpoints 1))
    (fun _ _ _ => trivial) (by decide +kernel) (by decide +kernel)
  obtain ⟨h0, h1, heq⟩ := of_decide_eq_true hp
  have hsame := h t ht 0 1 (Chains.mem_entries.mp h0) (Chains.mem_entries.mp h1) heq
  cases hsame

end Hwdb.Rpc
