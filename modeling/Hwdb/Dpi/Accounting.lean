import Mathlib.Algebra.Order.Ring.Nat
import Mathlib.Data.List.Induction
import Mathlib.Data.List.Nodup
import Mathlib.Logic.Function.Basic
import Hwdb.Dpi.Flow

/-!
# Flow records over whole captures (`dpilogger.c`)

`get_osdpi_flow` looks the flow of a packet up or creates it, and every now and then lets
`garbadge_collect_osdpi_flows` throw flows away first.  libhashish is taken as the map that it
documents: an association list of keys and record pointers.  Records are numbered in the order
of their allocation and memory is never reused; `freed` lists the records passed to `free`.

* `garbadgeCollect_eq` — the clean-up keeps exactly the flows that are not idle.
* `Accounts` — what the records say about the packets so far; `accounts_run` is the invariant.
* `flow_accounting` — counts, sizes and timestamps of every record in every state of a run.
* `only_idle_iff` — which flows a clean-up drops, with timestamps in any order.
-/

set_option autoImplicit false

namespace Hwdb.Dpi

open Hwdb.Lib

/-- `struct osdpi_flow`, as far as it is ever written. -/
structure OsdpiFlow where
  byteCount : UInt32
  pktCount : UInt32
  firstPkt : UInt32
  lastPkt : UInt32
  deriving DecidableEq, Repr

/-! ## The string map -/

/-- Keys and data pointers, the newest first. -/
abbrev HiHandle := List (Text × Nat)

/-- `hi_get_str`. -/
def hiGetStr (t : HiHandle) (key : Text) : Option Nat := (t.find? (·.1 == key)).map (·.2)

/-- `hi_insert_str`; a key that is there already is refused. -/
def hiInsertStr (t : HiHandle) (key : Text) (data : Nat) : HiHandle :=
  if (hiGetStr t key).isSome then t else (key, data) :: t

/-- `hi_remove_str`, with the data pointer it stores. -/
def hiRemoveStr (t : HiHandle) (key : Text) : HiHandle × Option Nat :=
  (t.eraseP (·.1 == key), hiGetStr t key)

/-! ## Flows -/

def CLEANUP_TIMEOUT : UInt32 := 10

def CONNECTION_TIMEOUT : UInt32 := 10

/-- The static `timer`, the table of flows and the memory behind it. -/
structure Flows where
  timer : UInt32
  table : HiHandle
  records : Nat → OsdpiFlow
  fresh : Nat
  freed : List Nat

/-- What `process_packet` passes to `get_osdpi_flow`. -/
structure Arrival where
  hdr : PacketHeader
  ipsize : UInt16
  time : UInt32
  deriving DecidableEq, Repr

namespace Flows

variable (s : Flows)

/-- The program after `init_cfg`. -/
def init : Flows := ⟨0, [], fun _ => ⟨0, 0, 0, 0⟩, 0, []⟩

/-- `time - data->last_pkt > CONNECTION_TIMEOUT`. -/
def idle (time : UInt32) (r : Nat) : Bool := CONNECTION_TIMEOUT < time - (s.records r).lastPkt

/-- The body of the loop of `garbadge_collect_osdpi_flows`. -/
def collect (time : UInt32) (s : Flows) (e : Text × Nat) : Flows :=
  if s.idle time e.2 then
    let (table, data) := hiRemoveStr s.table e.1
    { s with table := table, freed := s.freed ++ [data.getD e.2] }
  else s

/-- `garbadge_collect_osdpi_flows`: the iterator visits every element that was there. -/
def garbadgeCollect (time : UInt32) : Flows := s.table.foldl (collect time) s

/-- `time - timer > CLEANUP_TIMEOUT`, once the timer has been set. -/
def CleansUp (time : UInt32) : Prop := s.timer ≠ 0 ∧ CLEANUP_TIMEOUT < time - s.timer

instance (time : UInt32) : Decidable (s.CleansUp time) := inferInstanceAs (Decidable (_ ∧ _))

/-- The part of `get_osdpi_flow` before the key is built. -/
def runTimer (time : UInt32) : Flows :=
  if s.timer = 0 then { s with timer := time }
  else if CLEANUP_TIMEOUT < time - s.timer then
    { s.garbadgeCollect time with timer := time }
  else s

/-- The part after it. -/
def account (key : Text) (ipsize : UInt16) (time : UInt32) : Flows × Nat :=
  match hiGetStr s.table key with
  | some r =>
    let data := s.records r
    let data := { data with
      byteCount := data.byteCount + ipsize.toUInt32
      pktCount := data.pktCount + 1
      lastPkt := time }
    ({ s with records := Function.update s.records r data }, r)
  | none =>
    ({ s with
        fresh := s.fresh + 1
        records := Function.update s.records s.fresh ⟨ipsize.toUInt32, 1, time, time⟩
        table := hiInsertStr s.table key s.fresh }, s.fresh)

/-- `get_osdpi_flow`, with the record it returns. -/
def getOsdpiFlow (p : Arrival) : Flows × Nat :=
  (s.runTimer p.time).account (flowKey p.hdr) p.ipsize p.time

end Flows

/-- The state after a capture. -/
def runFlows (ps : List Arrival) : Flows := ps.foldl (fun s p => (s.getOsdpiFlow p).1) Flows.init

theorem runFlows_snoc (ps : List Arrival) (p : Arrival) :
    runFlows (ps ++ [p]) = ((runFlows ps).getOsdpiFlow p).1 := by
  simp [runFlows]

/-! ## The clean-up -/

section Map

variable {t : HiHandle} {key : Text} {r : Nat}

theorem hiGetStr_some (h : hiGetStr t key = some r) : (key, r) ∈ t := by
  unfold hiGetStr at h
  obtain ⟨⟨k, r'⟩, hf, rfl⟩ := Option.map_eq_some_iff.mp h
  have hk : k = key := by simpa using List.find?_some hf
  rw [← hk]
  exact List.mem_of_find?_eq_some hf

theorem hiGetStr_none (h : hiGetStr t key = none) : key ∉ t.map Prod.fst := by
  unfold hiGetStr at h
  have hf := List.find?_eq_none.mp (Option.map_eq_none_iff.mp h)
  intro hm
  obtain ⟨e, he, rfl⟩ := List.mem_map.mp hm
  exact hf e he (by simp)

theorem hiInsertStr_fresh (h : hiGetStr t key = none) (data : Nat) :
    hiInsertStr t key data = (key, data) :: t := by
  simp [hiInsertStr, h]

/-- The entry of a key that occurs once. -/
theorem hiRemoveStr_middle {l : HiHandle} (h : key ∉ l.map Prod.fst) :
    hiRemoveStr (l ++ (key, r) :: t) key = (l ++ t, some r) := by
  have hl : ∀ e ∈ l, ¬ (e.1 == key) = true := fun e he hk =>
    h (List.mem_map.mpr ⟨e, he, by simpa using hk⟩)
  unfold hiRemoveStr hiGetStr
  rw [List.eraseP_append_right _ hl, List.find?_append, List.find?_eq_none.mpr hl]
  simp

end Map

section Collect

variable {s : Flows} {time : UInt32}

/-- **The clean-up drops the idle flows and nothing else**; records are freed, not changed. -/
theorem garbadgeCollect_eq (h : (s.table.map Prod.fst).Nodup) :
    s.garbadgeCollect time = { s with
      table := s.table.filter fun e => !s.idle time e.2
      freed := s.freed ++ (s.table.filter fun e => s.idle time e.2).map Prod.snd } := by
  have key : ∀ (rest done : HiHandle) (freed : List Nat), ((done ++ rest).map Prod.fst).Nodup →
      rest.foldl (Flows.collect time) { s with table := done ++ rest, freed := freed } =
        { s with
          table := done ++ rest.filter fun e => !s.idle time e.2
          freed := freed ++ (rest.filter fun e => s.idle time e.2).map Prod.snd } := by
    intro rest
    induction rest with
    | nil =>
      intro done freed _
      simp
    | cons e rest ih =>
      intro done freed hnd
      rw [List.foldl_cons]
      cases hidle : s.idle time e.2 with
      | true =>
        have hnot : e.1 ∉ done.map Prod.fst := by
          rw [List.map_append, List.map_cons] at hnd
          have hdis := List.disjoint_of_nodup_append hnd
          exact fun hm => hdis hm List.mem_cons_self
        have hstep : Flows.collect time { s with table := done ++ e :: rest, freed := freed } e =
            { s with table := done ++ rest, freed := freed ++ [e.2] } := by
          have hidle' : Flows.idle { s with table := done ++ e :: rest, freed := freed } time e.2 =
              true := hidle
          rw [Flows.collect, if_pos hidle']
          simp only [hiRemoveStr_middle (r := e.2) hnot, Option.getD_some]
        have hsub : ((done ++ rest).map Prod.fst).Nodup :=
          hnd.sublist ((List.Sublist.append_left (List.sublist_cons_self e rest) done).map _)
        rw [hstep, ih done (freed ++ [e.2]) hsub]
        simp [hidle]
      | false =>
        have hstep : Flows.collect time { s with table := done ++ e :: rest, freed := freed } e =
            { s with table := (done ++ [e]) ++ rest, freed := freed } := by
          have hidle' : ¬ Flows.idle { s with table := done ++ e :: rest, freed := freed } time
              e.2 = true := by
            rw [show Flows.idle { s with table := done ++ e :: rest, freed := freed } time e.2 =
              s.idle time e.2 from rfl, hidle]
            decide
          rw [Flows.collect, if_neg hidle']
          simp
        rw [hstep, ih (done ++ [e]) freed (by simpa using hnd)]
        simp [hidle]
  exact key s.table [] s.freed h

/-- What the part before the key leaves of the table, and that it touches no record. -/
theorem runTimer_eq (time : UInt32) (h : (s.table.map Prod.fst).Nodup) :
    (s.runTimer time).records = s.records ∧ (s.runTimer time).fresh = s.fresh ∧
      (s.runTimer time).table =
        (if s.CleansUp time then s.table.filter fun e => !s.idle time e.2 else s.table) ∧
      (s.runTimer time).freed = s.freed ++
        if s.CleansUp time then (s.table.filter fun e => s.idle time e.2).map Prod.snd else [] := by
  unfold Flows.runTimer Flows.CleansUp
  by_cases h0 : s.timer = 0
  · simp [h0]
  · by_cases h1 : CLEANUP_TIMEOUT < time - s.timer
    · simp [h0, h1, garbadgeCollect_eq h]
    · simp [h0, h1]

end Collect

/-! ## What the records say -/

/-- The packets of flow `key`. -/
def ofFlow (key : Text) (ps : List Arrival) : List Arrival := ps.filter fun p => flowKey p.hdr == key

/-- The record that counts the packets `qs`, modulo 2^32. -/
def summary (qs : List Arrival) : OsdpiFlow where
  byteCount := UInt32.ofNat (qs.map fun q => q.ipsize.toNat).sum
  pktCount := UInt32.ofNat qs.length
  firstPkt := (qs.head?.map (·.time)).getD 0
  lastPkt := (qs.getLast?.map (·.time)).getD 0

/-- Record `r` was allocated for flow `key` in the course of `ps` and counts the packets of the
flow from then on. -/
def Tracks (ps : List Arrival) (key : Text) (r : Nat) (record : OsdpiFlow) : Prop :=
  ∃ before p after, ps = before ++ p :: after ∧ flowKey p.hdr = key ∧
    (runFlows before).fresh = r ∧ (runFlows (before ++ [p])).fresh = r + 1 ∧
    record = summary (ofFlow key (p :: after))

/-- The invariant of a capture. -/
structure Accounts (ps : List Arrival) (s : Flows) : Prop where
  keys : (s.table.map Prod.fst).Nodup
  datas : (s.table.map Prod.snd).Nodup
  allocated : ∀ e ∈ s.table, e.2 < s.fresh
  unfreed : ∀ e ∈ s.table, e.2 ∉ s.freed
  freed : ∀ r ∈ s.freed, r < s.fresh
  tracks : ∀ e ∈ s.table, Tracks ps e.1 e.2 (s.records e.2)

section Invariant

variable {ps : List Arrival} {s : Flows} {p : Arrival} {key : Text} {r : Nat}

theorem summary_snoc {qs : List Arrival} (h : qs ≠ []) (p : Arrival) :
    summary (qs ++ [p]) = { summary qs with
      byteCount := (summary qs).byteCount + p.ipsize.toUInt32
      pktCount := (summary qs).pktCount + 1
      lastPkt := p.time } := by
  simp [summary, List.head?_append_of_ne_nil _ h, UInt32.ofNat_add]

theorem ofFlow_snoc (key : Text) (ps : List Arrival) (p : Arrival) :
    ofFlow key (ps ++ [p]) = ofFlow key ps ++ if flowKey p.hdr = key then [p] else [] := by
  by_cases h : flowKey p.hdr = key <;> simp [ofFlow, h]

/-- A packet of another flow does not matter. -/
theorem Tracks.snoc_other {record : OsdpiFlow} (h : Tracks ps key r record)
    (hp : flowKey p.hdr ≠ key) : Tracks (ps ++ [p]) key r record := by
  obtain ⟨before, q, after, rfl, hq, hr, hr', hrec⟩ := h
  refine ⟨before, q, after ++ [p], by simp, hq, hr, hr', ?_⟩
  rw [hrec, ← List.cons_append, ofFlow_snoc, if_neg hp, List.append_nil]

/-- A packet of the flow is counted. -/
theorem Tracks.snoc_same {record : OsdpiFlow} (h : Tracks ps (flowKey p.hdr) r record) :
    Tracks (ps ++ [p]) (flowKey p.hdr) r { record with
      byteCount := record.byteCount + p.ipsize.toUInt32
      pktCount := record.pktCount + 1
      lastPkt := p.time } := by
  obtain ⟨before, q, after, rfl, hq, hr, hr', hrec⟩ := h
  refine ⟨before, q, after ++ [p], by simp, hq, hr, hr', ?_⟩
  have hne : ofFlow (flowKey p.hdr) (q :: after) ≠ [] := by simp [ofFlow, hq]
  rw [← List.cons_append, ofFlow_snoc, if_pos rfl, summary_snoc hne, hrec]

/-- The clean-up keeps the invariant. -/
theorem Accounts.runTimer (h : Accounts ps s) (time : UInt32) :
    Accounts ps (s.runTimer time) := by
  obtain ⟨hrec, hfresh, htab, hfreed⟩ := runTimer_eq time h.keys
  have hsub : (s.runTimer time).table.Sublist s.table := by
    rw [htab]
    split
    · exact List.filter_sublist
    · exact .refl _
  refine ⟨h.keys.sublist (hsub.map _), h.datas.sublist (hsub.map _), fun e he => ?_,
    fun e he hf => ?_, fun r hr => ?_, fun e he => ?_⟩
  · rw [hfresh]
    exact h.allocated e (hsub.subset he)
  · rw [hfreed] at hf
    rcases List.mem_append.mp hf with hf | hf
    · exact h.unfreed e (hsub.subset he) hf
    · -- The element was kept and dropped by one clean-up.
      split at hf
      · rename_i hc
        rw [htab, if_pos hc] at he
        obtain ⟨e', he', hee⟩ := List.mem_map.mp hf
        have hidle := (List.mem_filter.mp he).2
        have hidle' := (List.mem_filter.mp he').2
        rw [hee] at hidle'
        rw [hidle'] at hidle
        cases hidle
      · cases hf
  · rw [hfresh]
    rw [hfreed] at hr
    rcases List.mem_append.mp hr with hr | hr
    · exact h.freed r hr
    · split at hr
      · obtain ⟨e, he, rfl⟩ := List.mem_map.mp hr
        exact h.allocated e (List.mem_filter.mp he).1
      · cases hr
  · rw [hrec]
    exact h.tracks e (hsub.subset he)

theorem runTimer_fresh (h : Accounts ps s) (time : UInt32) :
    (s.runTimer time).fresh = s.fresh := (runTimer_eq time h.keys).2.1

/-- Updating the record of a flow that is there. -/
theorem Accounts.update (h : Accounts ps s) (hget : hiGetStr s.table (flowKey p.hdr) = some r) :
    Accounts (ps ++ [p]) (s.account (flowKey p.hdr) p.ipsize p.time).1 := by
  have hr := hiGetStr_some hget
  simp only [Flows.account, hget]
  refine ⟨h.keys, h.datas, h.allocated, h.unfreed, h.freed, fun e he => ?_⟩
  by_cases hkey : e.1 = flowKey p.hdr
  · have hee : e = (flowKey p.hdr, r) := List.inj_on_of_nodup_map h.keys he hr hkey
    subst hee
    dsimp only
    rw [Function.update_self]
    exact (h.tracks _ hr).snoc_same
  · have hne : e.2 ≠ r := fun heq =>
      hkey (congrArg Prod.fst (List.inj_on_of_nodup_map h.datas he hr heq))
    dsimp only
    rw [Function.update_of_ne hne]
    exact (h.tracks e he).snoc_other fun heq => hkey heq.symm

/-- A new flow gets a new record. -/
theorem Accounts.create (h : Accounts ps s) (hget : hiGetStr s.table (flowKey p.hdr) = none)
    (hfresh : (runFlows ps).fresh = s.fresh)
    (hrun : runFlows (ps ++ [p]) = (s.account (flowKey p.hdr) p.ipsize p.time).1) :
    Accounts (ps ++ [p]) (s.account (flowKey p.hdr) p.ipsize p.time).1 := by
  have hkey := hiGetStr_none hget
  have hfresh' : (runFlows (ps ++ [p])).fresh = s.fresh + 1 := by
    rw [hrun]
    simp only [Flows.account, hget]
  simp only [Flows.account, hget, hiInsertStr_fresh hget]
  refine ⟨List.nodup_cons.mpr ⟨hkey, h.keys⟩, List.nodup_cons.mpr ⟨fun hm => ?_, h.datas⟩,
    fun e he => ?_, fun e he hf => ?_, fun r hr => Nat.lt_succ_of_lt (h.freed r hr),
    fun e he => ?_⟩
  · obtain ⟨e, he, heq⟩ := List.mem_map.mp hm
    exact Nat.lt_irrefl _ (heq ▸ h.allocated e he)
  · rcases List.mem_cons.mp he with rfl | he
    · exact Nat.lt_succ_self _
    · exact Nat.lt_succ_of_lt (h.allocated e he)
  · rcases List.mem_cons.mp he with rfl | he
    · exact Nat.lt_irrefl _ (h.freed _ hf)
    · exact h.unfreed e he hf
  · rcases List.mem_cons.mp he with rfl | he
    · refine ⟨ps, p, [], rfl, rfl, hfresh, hfresh', ?_⟩
      simp [summary, ofFlow]
    · have hne : e.2 ≠ s.fresh := Nat.ne_of_lt (h.allocated e he)
      dsimp only
      rw [Function.update_of_ne hne]
      exact (h.tracks e he).snoc_other fun heq => hkey (heq ▸ List.mem_map_of_mem he)

/-- **Every run keeps the accounts.** -/
theorem accounts_run (ps : List Arrival) : Accounts ps (runFlows ps) := by
  induction ps using List.reverseRecOn with
  | nil =>
    exact ⟨.nil, .nil, fun _ h => (nomatch h), fun _ h => (nomatch h), fun _ h => (nomatch h),
      fun _ h => (nomatch h)⟩
  | append_singleton ps p ih =>
    have hs := ih.runTimer p.time
    have hfresh := runTimer_fresh ih p.time
    have hrun : runFlows (ps ++ [p]) =
        (((runFlows ps).runTimer p.time).account (flowKey p.hdr) p.ipsize p.time).1 :=
      runFlows_snoc ps p
    rw [hrun]
    cases hget : hiGetStr ((runFlows ps).runTimer p.time).table (flowKey p.hdr) with
    | some r => exact hs.update hget
    | none => exact hs.create hget hfresh.symm hrun

/-- A step changes no record but the one it returns, and none that it does not allocate. -/
theorem getOsdpiFlow_frame (h : Accounts ps s) {e : Text × Nat} (he : e ∈ s.table)
    (hkey : flowKey p.hdr ≠ e.1) : (s.getOsdpiFlow p).1.records e.2 = s.records e.2 ∨
      e ∉ (s.getOsdpiFlow p).1.table := by
  have hs := h.runTimer p.time
  obtain ⟨hrec, hfresh, -, -⟩ := runTimer_eq p.time h.keys
  by_cases hin : e ∈ (s.runTimer p.time).table
  · left
    unfold Flows.getOsdpiFlow Flows.account
    split
    · rename_i r hget
      have hr := hiGetStr_some hget
      have hne : e.2 ≠ r := fun heq =>
        hkey (congrArg Prod.fst (List.inj_on_of_nodup_map hs.datas hin hr heq)).symm
      simp only [Function.update_of_ne hne, hrec]
    · have hne : e.2 ≠ (s.runTimer p.time).fresh := Nat.ne_of_lt (hs.allocated e hin)
      simp only [Function.update_of_ne hne, hrec]
  · right
    unfold Flows.getOsdpiFlow Flows.account
    split
    · exact hin
    · rename_i hget
      rw [hiInsertStr_fresh hget]
      intro hm
      rcases List.mem_cons.mp hm with rfl | hm
      · exact hkey rfl
      · exact hin hm

/-- What `get_osdpi_flow` returns is in the table, under the key of the packet. -/
theorem getOsdpiFlow_mem (s : Flows) (p : Arrival) :
    (flowKey p.hdr, (s.getOsdpiFlow p).2) ∈ (s.getOsdpiFlow p).1.table := by
  unfold Flows.getOsdpiFlow Flows.account
  split
  · rename_i r hget
    exact hiGetStr_some hget
  · rename_i hget
    rw [hiInsertStr_fresh hget]
    exact List.mem_cons_self

/-- **Flow accounting.**  After any packets a key has one record at most, which counts the
packets of the flow since it was allocated; a further packet changes no surviving record of
another flow, and is never counted in a freed one. -/
theorem flow_accounting (ps : List Arrival) :
    ((runFlows ps).table.map Prod.fst).Nodup ∧
    (∀ e ∈ (runFlows ps).table, Tracks ps e.1 e.2 ((runFlows ps).records e.2)) ∧
    ∀ p, (∀ e ∈ (runFlows ps).table, flowKey p.hdr ≠ e.1 →
        e ∈ (runFlows (ps ++ [p])).table →
          (runFlows (ps ++ [p])).records e.2 = (runFlows ps).records e.2) ∧
      (flowKey p.hdr, ((runFlows ps).getOsdpiFlow p).2) ∈ (runFlows (ps ++ [p])).table ∧
      ((runFlows ps).getOsdpiFlow p).2 ∉ (runFlows (ps ++ [p])).freed := by
  have h := accounts_run ps
  refine ⟨h.keys, h.tracks, fun p => ?_⟩
  have h' := accounts_run (ps ++ [p])
  have hmem := getOsdpiFlow_mem (runFlows ps) p
  rw [← runFlows_snoc] at hmem
  refine ⟨fun e he hkey hin => ?_, hmem, h'.unfreed _ hmem⟩
  rw [runFlows_snoc] at hin ⊢
  exact (getOsdpiFlow_frame h he hkey).resolve_right fun hn => hn hin

end Invariant

/-! ## Which flows a clean-up drops -/

/-- The latest packet of flow `key`. -/
def latest (key : Text) (ps : List Arrival) : Option Arrival := (ofFlow key ps).getLast?

/-- Packet `p` frees only records whose latest packet is more than `CONNECTION_TIMEOUT` seconds
older. -/
def DropsOnlyIdle (ps : List Arrival) (p : Arrival) : Prop :=
  ∀ e ∈ (runFlows ps).table, e.2 ∈ (runFlows (ps ++ [p])).freed →
    ∃ q, latest e.1 ps = some q ∧ q.time.toNat + CONNECTION_TIMEOUT.toNat < p.time.toNat

/-- Packet `p` starts a clean-up and is stamped earlier than the latest packet of a flow in the
table, by so much that the unsigned difference passes for an idle time. -/
def EarlyCleanup (ps : List Arrival) (p : Arrival) : Prop :=
  (runFlows ps).CleansUp p.time ∧ ∃ e ∈ (runFlows ps).table, ∃ q, latest e.1 ps = some q ∧
    p.time.toNat < q.time.toNat ∧
      q.time.toNat + CONNECTION_TIMEOUT.toNat < p.time.toNat + 2 ^ 32

section Idle

variable {ps : List Arrival} {p q : Arrival} {key : Text} {r : Nat}

/-- A tracked record has the timestamp of the latest packet of its flow. -/
theorem Tracks.latest {record : OsdpiFlow} (h : Tracks ps key r record) :
    ∃ q, latest key ps = some q ∧ record.lastPkt = q.time := by
  obtain ⟨before, p, after, rfl, hp, -, -, rfl⟩ := h
  have hne : ofFlow key (p :: after) ≠ [] := by simp [ofFlow, hp]
  refine ⟨(ofFlow key (p :: after)).getLast hne, ?_, ?_⟩
  · have happ : ofFlow key (before ++ p :: after) =
        ofFlow key before ++ ofFlow key (p :: after) := List.filter_append ..
    rw [Dpi.latest, happ, List.getLast?_append_of_ne_nil _ hne]
    exact List.getLast?_eq_some_getLast hne
  · simp [summary, List.getLast?_eq_some_getLast hne]

/-- The unsigned comparison against the true one. -/
theorem timeout_lt_sub_iff (t u : UInt32) : CONNECTION_TIMEOUT < t - u ↔
    u.toNat + CONNECTION_TIMEOUT.toNat < t.toNat ∨
      (t.toNat < u.toNat ∧ u.toNat + CONNECTION_TIMEOUT.toNat < t.toNat + 2 ^ 32) := by
  have ht := t.toNat_lt
  have hu := u.toNat_lt
  have h10 : CONNECTION_TIMEOUT.toNat = 10 := rfl
  rw [UInt32.lt_iff_toNat_lt, UInt32.toNat_sub, h10]
  omega

/-- What one packet frees. -/
theorem freed_step_iff {e : Text × Nat} (he : e ∈ (runFlows ps).table) :
    e.2 ∈ (runFlows (ps ++ [p])).freed ↔
      (runFlows ps).CleansUp p.time ∧ (runFlows ps).idle p.time e.2 = true := by
  have h := accounts_run ps
  obtain ⟨-, -, -, hfreed⟩ := runTimer_eq p.time h.keys
  have hstep : (runFlows (ps ++ [p])).freed = ((runFlows ps).runTimer p.time).freed := by
    rw [runFlows_snoc, Flows.getOsdpiFlow, Flows.account]
    split <;> rfl
  rw [hstep, hfreed, List.mem_append]
  constructor
  · rintro (hf | hf)
    · exact absurd hf (h.unfreed e he)
    · split at hf
      · rename_i hc
        obtain ⟨e', he', heq⟩ := List.mem_map.mp hf
        have hidle := (List.mem_filter.mp he').2
        rw [heq] at hidle
        exact ⟨hc, hidle⟩
      · cases hf
  · rintro ⟨hc, hidle⟩
    refine .inr ?_
    rw [if_pos hc]
    exact List.mem_map.mpr ⟨e, List.mem_filter.mpr ⟨he, hidle⟩, rfl⟩

theorem dropsOnlyIdle_iff (ps : List Arrival) (p : Arrival) :
    DropsOnlyIdle ps p ↔ ¬ EarlyCleanup ps p := by
  have htracks := (accounts_run ps).tracks
  constructor
  · rintro hdrops ⟨hc, e, he, q, hq, hlt, hsub⟩
    obtain ⟨q', hq', hlast⟩ := (htracks e he).latest
    rw [hq] at hq'
    cases hq'
    have hidle : (runFlows ps).idle p.time e.2 = true := by
      rw [Flows.idle, hlast]
      exact decide_eq_true ((timeout_lt_sub_iff _ _).mpr (.inr ⟨hlt, hsub⟩))
    obtain ⟨q'', hq'', hold⟩ := hdrops e he ((freed_step_iff he).mpr ⟨hc, hidle⟩)
    rw [hq] at hq''
    cases hq''
    omega
  · intro hearly e he hfreed
    obtain ⟨hc, hidle⟩ := (freed_step_iff he).mp hfreed
    obtain ⟨q, hq, hlast⟩ := (htracks e he).latest
    rw [Flows.idle, hlast] at hidle
    rcases (timeout_lt_sub_iff _ _).mp (of_decide_eq_true hidle) with hold | ⟨hlt, hsub⟩
    · exact ⟨q, hq, hold⟩
    · exact absurd ⟨hc, e, he, q, hq, hlt, hsub⟩ hearly

/-- **Only idle flows are dropped exactly in captures without an early clean-up.** -/
theorem only_idle_dropped_iff (ps : List Arrival) :
    (∀ before p after, ps = before ++ p :: after → DropsOnlyIdle before p) ↔
      ∀ before p after, ps = before ++ p :: after → ¬ EarlyCleanup before p := by
  constructor
  · exact fun h before p after hps => (dropsOnlyIdle_iff before p).mp (h before p after hps)
  · exact fun h before p after hps => (dropsOnlyIdle_iff before p).mpr (h before p after hps)

end Idle

/-- A packet stamped 100 and one of another flow stamped 50. -/
def backInTime : List Arrival := [⟨udpHeader 1 5 2 6, 28, 100⟩, ⟨udpHeader 1 5 3 6, 28, 50⟩]

/-- The second packet drops the flow of the first, which is not idle. -/
theorem earlier_stamp_drops_live_flow :
    ¬ ∀ before p after, backInTime = before ++ p :: after → DropsOnlyIdle before p := by
  intro h
  obtain ⟨q, hq, hold⟩ := h [⟨udpHeader 1 5 2 6, 28, 100⟩] ⟨udpHeader 1 5 3 6, 28, 50⟩ [] rfl
    (flowKey (udpHeader 1 5 2 6), 0) (by decide) (by decide)
  have hlatest : latest (flowKey (udpHeader 1 5 2 6)) [⟨udpHeader 1 5 2 6, 28, 100⟩] =
      some ⟨udpHeader 1 5 2 6, 28, 100⟩ := by decide
  rw [hlatest] at hq
  cases hq
  exact absurd hold (by decide)

end Hwdb.Dpi
