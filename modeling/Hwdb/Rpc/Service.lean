import Hwdb.Rpc.Changes
import Hwdb.Rpc.Steps
import Hwdb.Rpc.Subports

/-!
# Records that have a service

`cr->svc` is NULL in a record that `rpc_connect` has made, and `case CONNECT` of the reader is the
only place that sets it.

* `AcceptsConnect` — the step in which that happens; `Served` — it has happened in a run.
* `Changed.service`, `AcceptsConnect.service` — one step.
* `service_run` — in every run the records that have a service are those that are `Served`.
-/

set_option autoImplicit false

namespace Hwdb.Rpc

open Hwdb.Lib

/-- The reader takes a `CONNECT` that names a service on offer: for record `r`, which it finds in
`ST_IDLE`, or for none, and then it makes record `r`. -/
def AcceptsConnect (s : Process) (r : Nat) : Act → Prop
  | .recv addr d => d.n < RECV_SIZE ∧ d.command = some .connect ∧ stableIndex d.name ≠ none ∧
      (s.stable d.sname).isSome ∧
      ((s.lookup ⟨addr, d.subport⟩ = some r ∧ (s.records r).state = .idle) ∨
        (s.lookup ⟨addr, d.subport⟩ = none ∧ r = s.fresh))
  | _ => False

/-- Such a `CONNECT` has been taken for record `r`. -/
def Served (es : List (Process × Act)) (r : Nat) : Prop := ∃ e ∈ es, AcceptsConnect e.1 r e.2

section Sections

variable {ep sp : Nat} {q : Bytes} {c : CRecord}

theorem CallSection.svc {w : Option CallWait} {st : CallStep}
    (h : CallSection ep sp q c w st) : st.cr.svc = c.svc := by
  have hkeep : ∀ {c' : CRecord} {number : Option Nat} {n fnum nfrags : Nat},
      Continues q c w c' number n fnum nfrags → c'.svc = c.svc := by
    intro c' number n fnum nfrags h
    cases h <;> rfl
  cases h with
  | undefined h => exact hkeep h
  | fragment h =>
    have hsvc := hkeep h
    exact hsvc
  | query h =>
    have hsvc := hkeep h
    exact hsvc
  | collected n rsize =>
    obtain ⟨result, fault, heq⟩ := rpcCallCollect_eq c rsize
    rw [heq]
  | _ => rfl

theorem ResponseSection.svc {w : Option (Nat × Nat)} {st : ResponseStep}
    (h : ResponseSection ep sp q c w st) : st.cr.svc = c.svc := by
  cases h <;> rfl

end Sections

section Reader

variable {stable : Bytes → Option Nat} {nep : Nat} {d : Received} {c c' : CRecord} {out : Outcome}

/-- The reader sets the service of a record in `case CONNECT` only. -/
theorem Handled.service (h : Handled stable nep d (some c) out) (hc : out.cr = some c') :
    c'.svc = c.svc ∨ (c'.svc.isSome ∧ d.command = some .connect ∧ stableIndex d.name ≠ none ∧
      (stable d.sname).isSome ∧ c.state = .idle) := by
  cases h with
  | reconnected _ sr hcmd hs hst hi =>
    cases hc
    exact .inr ⟨rfl, hcmd, hi, by rw [hs]; rfl, hst⟩
  | queryWhole =>
    rcases readerQueryNew_cases { c with seqno := d.seqno } d (d.bytes.map some) d.n with
      ⟨-, heq⟩ | ⟨sr, -, heq⟩ <;> rw [heq] at hc <;> cases hc <;> exact .inl rfl
  | queryLast _ p =>
    rcases readerQueryNew_cases { c with resp := none } d p (DP_SIZE + d.tlen) with
      ⟨-, heq⟩ | ⟨sr, -, heq⟩ <;> rw [heq] at hc <;> cases hc <;> exact .inl rfl
  | _ => cases hc; exact .inl rfl

/-- Without a record it makes one for a service on offer. -/
theorem Handled.service_created (h : Handled stable nep d none out) (hc : out.cr = some c') :
    c'.svc.isSome ∧ d.command = some .connect ∧ stableIndex d.name ≠ none ∧
      (stable d.sname).isSome := by
  cases h with
  | created sr hcmd hs hi =>
    cases hc
    exact ⟨rfl, hcmd, hi, by rw [hs]; rfl⟩
  | _ => cases hc

theorem readerSwitch_long (cr : Option CRecord) (h : RECV_SIZE ≤ d.n) :
    readerSwitch stable nep cr d = ⟨cr, [], none, some .outOfBounds⟩ := if_pos h

end Reader

/-- The timer leaves it alone. -/
theorem ticked_svc {c c' : CRecord} (h : Relation.ReflTransGen TimerStep c c') :
    c'.svc = c.svc := by
  induction h with
  | refl => rfl
  | tail _ hstep ih =>
    obtain ⟨q, hq, rfl | rfl⟩ := hstep.counters
    · exact hq.svc.trans ih
    · exact hq.svc.trans ih

section Runs

variable {pid : Nat} {s t : Process} {a : Act} {es : List (Process × Act)} {r : Nat}

/-- A record has a service after a step because it had one or because one was just found. -/
theorem Changed.service (h : Changed s a t r) (hsvc : (t.records r).svc.isSome) :
    (s.records r).svc.isSome ∨ AcceptsConnect s r a := by
  have hsame : (t.records r).svc = (s.records r).svc →
      (s.records r).svc.isSome ∨ AcceptsConnect s r a := fun heq => .inl (heq ▸ hsvc)
  cases h with
  | kept hc => exact hsame (by rw [hc])
  | @received addr d ha hl hc _ =>
    subst ha
    rcases Nat.lt_or_ge d.n RECV_SIZE with hn | hn
    · rcases (readerSwitch_handled _).service hc with heq | ⟨-, hcmd, hi, hs, hst⟩
      · exact hsame heq
      · exact .inr ⟨hn, hcmd, hi, hs, .inl ⟨hl, hst⟩⟩
    · rw [Process.outcome, readerSwitch_long _ hn] at hc
      exact hsame (congrArg (·.svc) (Option.some.inj hc).symm)
  | @created addr d ha hr hc _ hl =>
    subst ha
    rcases Nat.lt_or_ge d.n RECV_SIZE with hn | hn
    · obtain ⟨-, hcmd, hi, hs⟩ := (readerSwitch_handled _).service_created hc
      exact .inr ⟨hn, hcmd, hi, hs, .inr ⟨hl, hr⟩⟩
    · rw [Process.outcome, readerSwitch_long _ hn] at hc
      cases hc
  | connected _ hc =>
    rw [hc] at hsvc
    cases hsvc
  | ticked _ hc => exact hsame (ticked_svc hc)
  | called _ _ hc _ => exact hsame (hc ▸ (rpcCallBegin_section ..).svc)
  | callResumed _ _ hres hc _ => exact hsame (hc ▸ (rpcCallResume_section hres).svc)
  | disconnected hc => exact hsame (by rw [hc]; rfl)
  | responded hc _ => exact hsame (hc ▸ (rpcResponseBegin_section ..).svc)
  | responseResumed _ hres hc _ => exact hsame (hc ▸ (rpcResponseResume_section hres).svc)

/-- A record that has a service keeps one. -/
theorem Changed.keepsService (h : Changed s a t r) (hold : r ≠ s.fresh)
    (hsvc : (s.records r).svc.isSome) : (t.records r).svc.isSome := by
  have hsame : (t.records r).svc = (s.records r).svc → (t.records r).svc.isSome :=
    fun heq => heq ▸ hsvc
  cases h with
  | kept hc => exact hsame (by rw [hc])
  | received _ _ hc _ =>
    rcases (readerSwitch_handled _).service hc with heq | ⟨hsome, -⟩
    · exact hsame heq
    · exact hsome
  | created _ hr => exact absurd hr hold
  | connected hr => exact absurd hr hold
  | ticked _ hc => exact hsame (ticked_svc hc)
  | called _ _ hc _ => exact hsame (hc ▸ (rpcCallBegin_section ..).svc)
  | callResumed _ _ hres hc _ => exact hsame (hc ▸ (rpcCallResume_section hres).svc)
  | disconnected hc => exact hsame (by rw [hc]; rfl)
  | responded hc _ => exact hsame (hc ▸ (rpcResponseBegin_section ..).svc)
  | responseResumed _ hres hc _ => exact hsame (hc ▸ (rpcResponseResume_section hres).svc)

/-- The record of an accepted `CONNECT` has a service. -/
theorem AcceptsConnect.service (h : AcceptsConnect s r a) (hn : Process.next pid s a = some t) :
    (t.records r).svc.isSome := by
  cases a with
  | recv addr d =>
    obtain ⟨hlt, hcmd, hi, hs, hcr⟩ := h
    obtain ⟨sr, hsr⟩ := Option.isSome_iff_exists.mp hs
    have hnot : ¬ RECV_SIZE ≤ d.n := Nat.not_le_of_lt hlt
    unfold Process.next at hn
    split at hn
    · cases hn
    cases hn
    rcases hcr with ⟨hl, hst⟩ | ⟨hl, rfl⟩
    · simp [Process.recv, hl, readerSwitch, hnot, hcmd, readerConnect, hi, hsr, hst,
        Outcome.sendAndSet, Process.setRecord]
    · simp [Process.recv, hl, readerSwitch, hnot, hcmd, readerConnect, hi, hsr,
        Outcome.sendAndSet, Process.allocate]
  | _ => exact h.elim

theorem fresh_le (hc : Core s) (hn : Process.next pid s a = some t) : s.fresh ≤ t.fresh := by
  cases next_keyed hc hn with
  | shrinks h => exact Nat.le_of_eq h.fresh.symm
  | accepted _ _ h => exact Nat.le_of_lt (h.fresh ▸ Nat.lt_succ_self _)
  | connected _ h => exact Nat.le_of_lt (h.fresh ▸ Nat.lt_succ_self _)
  | unresolved _ ht => subst ht; exact Nat.le_refl _

/-- The record of an accepted `CONNECT` is in use. -/
theorem AcceptsConnect.allocated (hc : Core s) (h : AcceptsConnect s r a)
    (hn : Process.next pid s a = some t) : r < t.fresh := by
  cases a with
  | recv addr d =>
    obtain ⟨hlt, hcmd, hi, hs, ⟨hl, -⟩ | ⟨hl, rfl⟩⟩ := h
    · exact Nat.lt_of_lt_of_le (hc.allocated r ⟨_, (Chains.mem_lookup hl).1⟩) (fresh_le hc hn)
    · obtain ⟨sr, hsr⟩ := Option.isSome_iff_exists.mp hs
      have hnot : ¬ RECV_SIZE ≤ d.n := Nat.not_le_of_lt hlt
      unfold Process.next at hn
      split at hn
      · cases hn
      cases hn
      simp [Process.recv, hl, readerSwitch, hnot, hcmd, readerConnect, hi, hsr,
        Outcome.sendAndSet, Process.allocate]
  | _ => exact h.elim

theorem served_snoc : Served (es ++ [(s, a)]) r ↔ Served es r ∨ AcceptsConnect s r a := by
  simp [Served, or_and_right, exists_or]

/-- A record that has been served is in use and has a service. -/
theorem service_of_served (h : (processSystem pid).Trace (fun _ _ => True) es t)
    (hs : Served es r) : r < t.fresh ∧ (t.records r).svc.isSome := by
  induction h with
  | nil =>
    obtain ⟨e, he, -⟩ := hs
    cases he
  | snoc ht _ hn ih =>
    have hc := core_of_reach ht.reach
    rcases served_snoc.mp hs with hs | hs
    · obtain ⟨hlt, hsvc⟩ := ih hs
      exact ⟨Nat.lt_of_lt_of_le hlt (fresh_le hc hn),
        (next_changed hn r).keepsService (Nat.ne_of_lt hlt) hsvc⟩
    · exact ⟨hs.allocated hc hn, hs.service hn⟩

/-- **Which records have a service**, in every run: those for which the reader has taken a
`CONNECT` for a service on offer. -/
theorem service_run (h : (processSystem pid).Trace (fun _ _ => True) es t) :
    (t.records r).svc.isSome ↔ Served es r := by
  refine ⟨fun hsvc => ?_, fun hs => (service_of_served h hs).2⟩
  induction h with
  | nil => cases hsvc
  | snoc _ _ hn ih =>
    rcases (next_changed hn r).service hsvc with hold | hnew
    · exact served_snoc.mpr (.inl (ih hold))
    · exact served_snoc.mpr (.inr hnew)

end Runs

end Hwdb.Rpc
