import Hwdb.Dpi.Accounting
import Hwdb.Hashish.Store

/-!
# Flow records on a libhashish table (`dpilogger.c`)

`Flows` takes the table of flows as an association list.  Here it is the table that `init_cfg`
sets up, and `garbadge_collect_osdpi_flows` removes flows from it while an iterator walks over it.
The heap is that of libhashish: the program itself exits when it gets no memory.

* `HashedFlows` — the state, and `getOsdpiFlow` over libhashish.
* `collectLoop_spec` — the clean-up takes every idle flow out, and each once.
* `Refines` — both tables hold the same flows.
* `hashedFlows_refine` — so they do in every run, and the same records are handed out.
-/

set_option autoImplicit false

namespace Hwdb.Dpi

open Hwdb.Lib

/-- `strcmp`. -/
def strcmp : Text → Text → Int
  | [], [] => 0
  | [], _ :: _ => -1
  | _ :: _, [] => 1
  | a :: s, b :: t => if a = b then strcmp s t else (a.toNat : Int) - b.toNat

/-- What `hi_init_str` asks for: no load factor but 0 is below the threshold of 0.75.  There is no
second hash function, and no list of this engine calls it. -/
def flowSet (hash : Text → Nat) : Hashish.HiInitSet Text where
  tableSize := 93563
  rehashAuto := false
  rehashThreshold := fun load => decide (0 < load)
  collEng := .list
  hashFunc := hash
  hash2Func := fun _ => 0
  keyCmp := strcmp

/-- `Flows` with a table of libhashish and the heap behind it.  `bucket_size` and `no_objects` of
the table are natural numbers without a bound: 32 bits are enough for fewer than 2^32 flows at a
time, each of which has a record, a key and a list entry of its own in memory. -/
structure HashedFlows where
  timer : UInt32
  table : Hashish.HiHandle Text Nat
  heap : Hashish.Heap
  records : Nat → OsdpiFlow
  fresh : Nat
  freed : List Nat

namespace HashedFlows

variable (s : HashedFlows)

/-- The program after `init_cfg`. -/
def init (hash : Text → Nat) (hp : Hashish.Heap) : HashedFlows :=
  ⟨0, Hashish.vanilla (flowSet hash), hp, fun _ => ⟨0, 0, 0, 0⟩, 0, []⟩

/-- `time - data->last_pkt > CONNECTION_TIMEOUT`. -/
def idle (time : UInt32) (r : Nat) : Bool := CONNECTION_TIMEOUT < time - (s.records r).lastPkt

/-- The loop of `garbadge_collect_osdpi_flows`: `data` stays what the iterator made it when
`hi_remove_str` fails. -/
def collectLoop (time : UInt32) : Nat → Hashish.HiIterator Text Nat → HashedFlows → HashedFlows
  | 0, _, s => s
  | n + 1, i, s =>
    match s.table.hiIteratorGetnext i s.heap with
    | (hp, _, .error _) => { s with heap := hp }
    | (hp, i, .ok e) =>
      if s.idle time e.2 then
        match s.table.hiRemove e.1 with
        | (table, .ok data) =>
          collectLoop time n i { s with heap := hp, table := table, freed := s.freed ++ [data] }
        | (table, .error _) =>
          collectLoop time n i { s with heap := hp, table := table, freed := s.freed ++ [e.2] }
      else collectLoop time n i { s with heap := hp }

/-- `garbadge_collect_osdpi_flows`; the iterator hands out at most `no_objects` flows. -/
def garbadgeCollect (time : UInt32) : HashedFlows :=
  match s.table.hiIteratorCreate s.heap with
  | (hp, .error _) => { s with heap := hp }
  | (hp, .ok i) => collectLoop time (s.table.noObjects + 1) i { s with heap := hp }

/-- The part of `get_osdpi_flow` before the key is built. -/
def runTimer (time : UInt32) : HashedFlows :=
  if s.timer = 0 then { s with timer := time }
  else if CLEANUP_TIMEOUT < time - s.timer then
    { s.garbadgeCollect time with timer := time }
  else s

/-- The part after it. -/
def account (key : Text) (ipsize : UInt16) (time : UInt32) : HashedFlows × Nat :=
  match s.table.hiGet key with
  | (table, .ok r) =>
    let data := s.records r
    let data := { data with
      byteCount := data.byteCount + ipsize.toUInt32
      pktCount := data.pktCount + 1
      lastPkt := time }
    ({ s with table := table, records := Function.update s.records r data }, r)
  | (table, .error _) =>
    let (table, heap, _) := table.hiInsert key s.fresh s.heap
    ({ s with
        fresh := s.fresh + 1
        records := Function.update s.records s.fresh ⟨ipsize.toUInt32, 1, time, time⟩
        table := table
        heap := heap }, s.fresh)

/-- `get_osdpi_flow`, with the record it returns. -/
def getOsdpiFlow (p : Arrival) : HashedFlows × Nat :=
  (s.runTimer p.time).account (flowKey p.hdr) p.ipsize p.time

end HashedFlows

/-- The state after a capture. -/
def runHashed (hash : Text → Nat) (hp : Hashish.Heap) (ps : List Arrival) : HashedFlows :=
  ps.foldl (fun s p => (s.getOsdpiFlow p).1) (HashedFlows.init hash hp)

theorem runHashed_snoc (hash : Text → Nat) (hp : Hashish.Heap) (ps : List Arrival) (p : Arrival) :
    runHashed hash hp (ps ++ [p]) = ((runHashed hash hp ps).getOsdpiFlow p).1 := by
  simp [runHashed]

/-! ## Keys -/

theorem strcmp_eq_zero (s t : Text) : strcmp s t = 0 ↔ s = t := by
  induction s generalizing t with
  | nil => cases t <;> simp [strcmp]
  | cons a s ih =>
    cases t with
    | nil => simp [strcmp]
    | cons b t =>
      by_cases hab : a = b
      · simp [strcmp, hab, ih]
      · have hne : a.toNat ≠ b.toNat := fun h => hab (Char.toNat_inj.mp h)
        rw [strcmp, if_neg hab]
        constructor
        · intro h
          omega
        · intro h
          exact absurd (List.cons.inj h).1 hab

theorem strcmp_flip (s t : Text) : strcmp s t = -strcmp t s := by
  induction s generalizing t with
  | nil => cases t <;> simp [strcmp]
  | cons a s ih =>
    cases t with
    | nil => simp [strcmp]
    | cons b t =>
      by_cases hab : a = b
      · subst hab
        simp [strcmp, ih t]
      · simp only [strcmp, if_neg hab, if_neg (Ne.symm hab)]
        omega

theorem strcmp_trans (s t u : Text) (hst : 0 < strcmp s t) (htu : 0 < strcmp t u) :
    0 < strcmp s u := by
  induction s generalizing t u with
  | nil => cases t <;> simp [strcmp] at hst
  | cons a s ih =>
    cases u with
    | nil => simp [strcmp]
    | cons c u =>
      cases t with
      | nil => simp [strcmp] at htu
      | cons b t =>
        simp only [strcmp] at hst htu ⊢
        by_cases hab : a = b
        · subst hab
          rw [if_pos rfl] at hst
          by_cases hac : a = c
          · rw [if_pos hac] at htu ⊢
            exact ih t u hst htu
          · rw [if_neg hac] at htu ⊢
            exact htu
        · rw [if_neg hab] at hst
          split at htu
          · next hbc =>
            subst hbc
            rw [if_neg hab]
            exact hst
          · have hac : a ≠ c := by
              rintro rfl
              omega
            rw [if_neg hac]
            omega

theorem strcmp_order : Hashish.KeyOrder strcmp := by
  refine ⟨strcmp_eq_zero, fun s t => ?_, strcmp_trans⟩
  rw [strcmp_flip s t]
  omega

theorem hiGetStr_eq (t : HiHandle) (key : Text) : hiGetStr t key = Buckets.value t key := by
  have htest : (fun e : Text × Nat => e.1 == key) = fun e => decide (e.1 = key) := by
    funext e
    exact beq_eq_decide e.1 key
  rw [hiGetStr, Buckets.value, htest]

/-! ## The clean-up -/

section Collect

open Hashish

variable {s : HashedFlows} {i : HiIterator Text Nat} {n : Nat}

/-- A pair that was handed out and is removed leaves what is pending. -/
theorem pending_remove {h u : Hashish.HiHandle Text Nat} {key : Text} (h' : Hashish.WellFormed h)
    (hu : Hashish.WellFormed u) (hset : u.toHiInitSet = h.toHiInitSet)
    (hfind : u.find = Function.update h.find key none) (hc : Copied h i)
    (hkey : key ∉ (h.pending i).map Prod.fst) : Copied u i ∧ (u.pending i).Perm (h.pending i) := by
  have hhome : u.home = h.home := by
    funext k
    rw [HiHandle.home, HiHandle.home, hset]
  have hsize : u.tableSize = h.tableSize := by
    rw [hset]
  refine ⟨hc.of_set hset, List.Perm.append_left _ ?_⟩
  rw [HiHandle.pending, List.map_append, List.mem_append, not_or] at hkey
  have hnodup : ∀ b m, (List.range' b m).Nodup := fun _ _ => List.nodup_range'
  refine Buckets.perm_of_value (hu.placed.distinct_gather (hnodup _ _))
    (h'.placed.distinct_gather (hnodup _ _)) fun k => ?_
  rw [HiHandle.later, HiHandle.later, hu.placed.value_gather (hnodup _ _),
    h'.placed.value_gather (hnodup _ _), hhome, hsize]
  by_cases hk : k = key
  · subst hk
    have hnone := Buckets.value_none.mpr hkey.2
    rw [HiHandle.later, h'.placed.value_gather (hnodup _ _)] at hnone
    rw [hnone]
    split
    · rw [show Buckets.find h.home u.table k = none by
        rw [← hhome]
        exact (congrFun hfind k).trans (Function.update_self ..)]
    · rfl
  · have hsame : Buckets.find h.home u.table k = Buckets.find h.home h.table k := by
      rw [← hhome]
      exact (congrFun hfind k).trans (by rw [Function.update_of_ne hk, hhome]; rfl)
    rw [hsame]

/-- What the clean-up leaves as it was. -/
structure Cleaned (s t : HashedFlows) : Prop where
  wellFormed : Hashish.WellFormed t.table
  settings : t.table.toHiInitSet = s.table.toHiInitSet
  heap : Plenty t.heap
  timer : t.timer = s.timer
  records : t.records = s.records
  fresh : t.fresh = s.fresh

/-- **The loop of the clean-up**: of what is pending the idle flows go, and their records are
freed. -/
theorem collectLoop_spec (time : UInt32) (h' : Hashish.WellFormed s.table) (hp : Plenty s.heap)
    (hc : Copied s.table i) (hd : Buckets.Distinct (s.table.pending i))
    (hin : ∀ e ∈ s.table.pending i, s.table.find e.1 = some e.2)
    (hn : (s.table.pending i).length < n) :
    Cleaned s (HashedFlows.collectLoop time n i s) ∧
      (∀ k, (HashedFlows.collectLoop time n i s).table.find k =
        if (Buckets.value (s.table.pending i) k).any (s.idle time) then none
        else s.table.find k) ∧
      (HashedFlows.collectLoop time n i s).freed.Perm
        (s.freed ++ ((s.table.pending i).filter fun e => s.idle time e.2).map Prod.snd) := by
  induction n generalizing i s with
  | zero => exact absurd hn (Nat.not_lt_zero _)
  | succ n ih =>
    obtain ⟨hp1, v, hk1, hres⟩ := hiIteratorGetnext_spec h' hc s.heap
    rcases hres with ⟨hres, hnil⟩ | ⟨-, hno⟩ | ⟨⟨key, r⟩, hres, hcv, hperm⟩
    · have hstep : HashedFlows.collectLoop time (n + 1) i s = { s with heap := hp1 } := by
        rw [HashedFlows.collectLoop, hres]
      rw [hstep, hnil]
      exact ⟨⟨h', rfl, hk1 hp, rfl, rfl, rfl⟩, fun k => rfl, by simp⟩
    · exact absurd hp hno
    · have hrest := List.nodup_cons.mp (hd.perm hperm : Buckets.Distinct ((key, r) :: _))
      have hfind : s.table.find key = some r := hin _ (hperm.mem_iff.mpr List.mem_cons_self)
      have hlen := hperm.length_eq
      rw [List.length_cons] at hlen
      have hvalue : ∀ k, Buckets.value (s.table.pending i) k =
          if key = k then some r else Buckets.value (s.table.pending v) k := by
        intro k
        rw [← Buckets.value_perm hd hperm, Buckets.value_cons]
      have hfreed := (hperm.filter fun e => s.idle time e.2).map Prod.snd
      cases hidle : s.idle time r with
      | true =>
        obtain ⟨u, hremove, hu, hfu, hsu⟩ := hiRemove_spec h' key
        rw [hfind] at hremove
        let t : HashedFlows := { s with heap := hp1, table := u, freed := s.freed ++ [r] }
        have hstep : HashedFlows.collectLoop time (n + 1) i s =
            HashedFlows.collectLoop time n v t := by
          rw [HashedFlows.collectLoop, hres]
          dsimp only
          rw [if_pos hidle, hremove]
          rfl
        obtain ⟨hcu, hpu⟩ := pending_remove h' hu hsu hfu hcv hrest.1
        have hdu : Buckets.Distinct (u.pending v) := Buckets.Distinct.perm hrest.2 hpu.symm
        have hinu : ∀ e ∈ u.pending v, u.find e.1 = some e.2 := by
          intro e he
          have he' := hpu.mem_iff.mp he
          have hne : e.1 ≠ key := fun hk => hrest.1 (List.mem_map.mpr ⟨e, he', hk⟩)
          rw [hfu, Function.update_of_ne hne]
          exact hin e (hperm.mem_iff.mpr (List.mem_cons_of_mem _ he'))
        have hlenu := hpu.length_eq
        obtain ⟨hcl, hfd, hfr⟩ := ih (s := t) hu (hk1 hp) hcu hdu hinu (by
          show (u.pending v).length < n
          omega)
        rw [hstep]
        refine ⟨⟨hcl.wellFormed, hcl.settings.trans hsu, hcl.heap, hcl.timer, hcl.records,
          hcl.fresh⟩, fun k => ?_, ?_⟩
        · rw [hfd k, hvalue k, Buckets.value_perm hrest.2 hpu.symm]
          show (if (Buckets.value (s.table.pending v) k).any (s.idle time) then none
            else u.find k) = _
          rw [hfu]
          by_cases hk : key = k
          · subst hk
            rw [if_pos rfl, Option.any_some, hidle, if_pos rfl, Function.update_self, ite_self]
          · rw [if_neg hk, Function.update_of_ne (Ne.symm hk)]
        · refine hfr.trans ?_
          have hpu' := (hpu.filter fun e => s.idle time e.2).map Prod.snd
          show (s.freed ++ [r] ++
            ((u.pending v).filter fun e => s.idle time e.2).map Prod.snd).Perm _
          rw [List.append_assoc]
          refine List.Perm.append_left _ (List.Perm.trans ?_ hfreed.symm)
          rw [List.filter_cons_of_pos (by exact hidle)]
          exact hpu'.cons r
      | false =>
        let t : HashedFlows := { s with heap := hp1 }
        have hstep : HashedFlows.collectLoop time (n + 1) i s =
            HashedFlows.collectLoop time n v t := by
          rw [HashedFlows.collectLoop, hres]
          dsimp only
          rw [if_neg (by rw [hidle]; exact Bool.false_ne_true)]
        obtain ⟨hcl, hfd, hfr⟩ := ih (s := t) h' (hk1 hp) hcv hrest.2
          (fun e he => hin e (hperm.mem_iff.mpr (List.mem_cons_of_mem _ he))) (by
            show (s.table.pending v).length < n
            omega)
        rw [hstep]
        refine ⟨⟨hcl.wellFormed, hcl.settings, hcl.heap, hcl.timer, hcl.records, hcl.fresh⟩,
          fun k => ?_, ?_⟩
        · rw [hfd k, hvalue k]
          show (if (Buckets.value (s.table.pending v) k).any (s.idle time) then none
            else s.table.find k) = _
          by_cases hk : key = k
          · subst hk
            rw [if_pos rfl, Buckets.value_none.mpr hrest.1, Option.any_some, hidle]
            rfl
          · rw [if_neg hk]
        · refine hfr.trans (List.Perm.append_left _ (List.Perm.trans ?_ hfreed.symm))
          rw [List.filter_cons_of_neg (by rw [hidle]; exact Bool.false_ne_true)]
          exact .refl _

end Collect

/-! ## The same flows -/

section Refinement

open Hashish

variable {s : HashedFlows} {f : Flows}

/-- The table of libhashish and the list hold the same flows, and what is freed is the same. -/
structure Refines (s : HashedFlows) (f : Flows) : Prop where
  wellFormed : Hashish.WellFormed s.table
  fixed : s.table.rehashAuto = false
  heap : Plenty s.heap
  distinct : Buckets.Distinct f.table
  find : ∀ key, s.table.find key = hiGetStr f.table key
  timer : s.timer = f.timer
  records : s.records = f.records
  fresh : s.fresh = f.fresh
  freed : s.freed.Perm f.freed

theorem Refines.idle (h : Refines s f) (time : UInt32) : s.idle time = f.idle time := by
  funext r
  rw [HashedFlows.idle, Flows.idle, h.records]

/-- **The clean-up** under the iterator is that of the list. -/
theorem Refines.garbadgeCollect (h : Refines s f) (time : UInt32) :
    Refines (s.garbadgeCollect time) (f.garbadgeCollect time) := by
  have hperm : ∀ l, l.Perm (s.table.later 0) → f.table.Perm l := by
    intro l hl
    have hd := (distinct_later h.wellFormed).perm hl.symm
    refine Buckets.perm_of_value h.distinct hd fun k => ?_
    rw [← hiGetStr_eq, ← h.find, Buckets.value_perm (distinct_later h.wellFormed) hl.symm,
      value_later h.wellFormed]
  rw [garbadgeCollect_eq h.distinct, HashedFlows.garbadgeCollect]
  obtain ⟨hp, hk, hres⟩ := hiIteratorCreate_spec h.wellFormed s.heap
  rcases hres with ⟨hres, hnil⟩ | ⟨-, hno⟩ | ⟨i, hres, hc, hpend⟩
  · have hempty : f.table = [] := (hperm [] (hnil ▸ .refl _)).eq_nil
    rw [hres]
    refine ⟨h.wellFormed, h.fixed, hk h.heap, ?_, fun key => ?_, h.timer, h.records, h.fresh, ?_⟩
    · exact h.distinct.sublist (List.filter_sublist.map _)
    · show s.table.find key = _
      rw [h.find, hempty]
      rfl
    · show s.freed.Perm _
      rw [hempty]
      simpa using h.freed
  · exact absurd h.heap hno
  · rw [hres]
    let t : HashedFlows := { s with heap := hp }
    have hd : Buckets.Distinct (s.table.pending i) :=
      (distinct_later h.wellFormed).perm hpend.symm
    have hvalue : ∀ k, Buckets.value (s.table.pending i) k = s.table.find k := by
      intro k
      rw [Buckets.value_perm (distinct_later h.wellFormed) hpend.symm, value_later h.wellFormed]
    have hin : ∀ e ∈ s.table.pending i, s.table.find e.1 = some e.2 := by
      intro e he
      rw [← hvalue]
      exact (Buckets.value_some hd).mpr he
    have hlen : (s.table.pending i).length < s.table.noObjects + 1 := by
      rw [hpend.length_eq, length_later h.wellFormed]
      exact Nat.lt_succ_self _
    obtain ⟨hcl, hfind, hfreed⟩ :=
      collectLoop_spec (s := t) time h.wellFormed (hk h.heap) hc hd hin hlen
    have hidle : t.idle time = f.idle time := h.idle time
    refine ⟨hcl.wellFormed, ?_, hcl.heap, ?_, fun key => ?_, hcl.timer.trans h.timer,
      hcl.records.trans h.records, hcl.fresh.trans h.fresh, ?_⟩
    · rw [hcl.settings]
      exact h.fixed
    · exact h.distinct.sublist (List.filter_sublist.map _)
    · rw [hfind key, hvalue key, hiGetStr_eq, Buckets.value_filter h.distinct, ← hiGetStr_eq,
        ← h.find, hidle]
      show (if (s.table.find key).any (f.idle time) then none else s.table.find key) = _
      cases s.table.find key with
      | none => rfl
      | some r =>
        rw [Option.any_some, Option.filter_some]
        cases f.idle time r <;> rfl
    · refine hfreed.trans (h.freed.append ?_)
      rw [hidle]
      exact ((hperm _ hpend).symm.filter _).map _

/-- The part of `get_osdpi_flow` before the key is built. -/
theorem Refines.runTimer (h : Refines s f) (time : UInt32) :
    Refines (s.runTimer time) (f.runTimer time) := by
  have hset : ∀ {s : HashedFlows} {f : Flows}, Refines s f →
      Refines { s with timer := time } { f with timer := time } := fun h =>
    ⟨h.wellFormed, h.fixed, h.heap, h.distinct, h.find, rfl, h.records, h.fresh, h.freed⟩
  rw [HashedFlows.runTimer, Flows.runTimer, h.timer]
  split
  · exact hset h
  · split
    · exact hset (h.garbadgeCollect time)
    · exact h

/-- The part after it, with the record that is handed out. -/
theorem Refines.account (h : Refines s f) (key : Text) (ipsize : UInt16) (time : UInt32) :
    Refines (s.account key ipsize time).1 (f.account key ipsize time).1 ∧
      (s.account key ipsize time).2 = (f.account key ipsize time).2 := by
  obtain ⟨u, hget, hu, hfu, hsu⟩ := hiGet_spec h.wellFormed key
  have hfind := h.find key
  have hfixed : u.rehashAuto = false := by
    rw [hsu]
    exact h.fixed
  rw [HashedFlows.account, Flows.account, hget, hfind]
  cases hkey : hiGetStr f.table key with
  | some r =>
    rw [← h.records]
    exact ⟨⟨hu, hfixed, h.heap, h.distinct, fun k => (congrFun hfu k).trans (h.find k), h.timer,
      rfl, h.fresh, h.freed⟩, rfl⟩
  | none =>
    have hnone : u.find key = none := by
      rw [hfu, hfind, hkey]
    have hrehash : u.hiInsert key s.fresh s.heap = u.lhiInsert key s.fresh s.heap := by
      have hsame : u.hiInsert key s.fresh s.heap =
          u.hiInsertWith (fun t hp => some (t, hp)) key s.fresh s.heap := by
        rw [HiHandle.hiInsert, HiHandle.hiInsertWith, HiHandle.hiInsertWith, doRehash_off hfixed]
      rw [hsame, hiInsertWith_new hu hnone]
    obtain ⟨hp, hk, hins⟩ := lhiInsert_new hu hnone s.fresh s.heap
    rcases hins with ⟨-, -, -, hno⟩ | ⟨v, hins, hv, hfv, hsv⟩
    · exact absurd h.heap hno
    · have hvalue : Buckets.value f.table key = none := hiGetStr_eq f.table key ▸ hkey
      rw [hiInsertStr_fresh hkey]
      dsimp only [answer]
      rw [hrehash, hins, ← h.records, ← h.fresh]
      refine ⟨⟨hv, ?_, hk h.heap, h.distinct.cons hvalue _, fun k => ?_, h.timer, rfl, rfl,
        h.freed⟩, rfl⟩
      · rw [hsv]
        exact hfixed
      · show v.find k = _
        rw [hfv, hiGetStr_eq, Buckets.value_cons]
        by_cases hk : key = k
        · subst hk
          rw [if_pos rfl, Function.update_self]
        · rw [if_neg hk, Function.update_of_ne (Ne.symm hk), hfu, h.find, hiGetStr_eq]

/-- `get_osdpi_flow`. -/
theorem Refines.getOsdpiFlow (h : Refines s f) (p : Arrival) :
    Refines (s.getOsdpiFlow p).1 (f.getOsdpiFlow p).1 ∧
      (s.getOsdpiFlow p).2 = (f.getOsdpiFlow p).2 :=
  (h.runTimer p.time).account (flowKey p.hdr) p.ipsize p.time

theorem refines_init (hash : Text → Nat) {hp : Heap} (hpl : Plenty hp) :
    Refines (HashedFlows.init hash hp) Flows.init :=
  ⟨wellFormed_vanilla (show 0 < 93563 by decide) strcmp_order rfl, rfl, hpl, .nil,
    congrFun (find_vanilla (flowSet hash)), rfl, rfl, rfl, .refl _⟩

theorem refines_run (hash : Text → Nat) {hp : Heap} (hpl : Plenty hp) (ps : List Arrival) :
    Refines (runHashed hash hp ps) (runFlows ps) := by
  induction ps using List.reverseRecOn with
  | nil => exact refines_init hash hpl
  | append_singleton ps p ih =>
    rw [runHashed_snoc, runFlows_snoc]
    exact (ih.getOsdpiFlow p).1

/-- **The flow table of libhashish** does in every run what the list does: over any capture and
with any hash function it holds the same flows, hands out the same record for each packet, and frees
the same records as often. -/
theorem hashedFlows_refine (hash : Text → Nat) (hp : Heap) (hpl : Plenty hp) (ps : List Arrival) :
    Refines (runHashed hash hp ps) (runFlows ps) ∧
      ∀ p, ((runHashed hash hp ps).getOsdpiFlow p).2 = ((runFlows ps).getOsdpiFlow p).2 :=
  ⟨refines_run hash hpl ps, fun p => ((refines_run hash hpl ps).getOsdpiFlow p).2⟩

theorem hashedFlows_refine_backInTime :
    Refines (runHashed List.length (fun _ => some 0) backInTime) (runFlows backInTime) ∧
      ((runHashed List.length (fun _ => some 0) backInTime).getOsdpiFlow
          ⟨udpHeader 1 5 3 6, 28, 61⟩).2 = 2 := by
  obtain ⟨href, hsame⟩ :=
    hashedFlows_refine List.length (fun _ => some 0) (fun _ h => (by cases h)) backInTime
  exact ⟨href, (hsame _).trans (by decide)⟩

end Refinement

end Hwdb.Dpi
