import Hwdb.Lib.Linked
import Hwdb.Rpc.Record
import Hwdb.Rpc.Table

/-!
# One tick over the whole table (`ctable.c`, `ctable_scan`; `srpc.c`, `timer`)

Here the chains are what they are in the source: records in memory with a `next` and a `link`
field.  `ctable_scan` walks the 31 chains and threads four lists through `link`; the loops of
`timer` consume them, the first one unlinking and freeing records on the way.  Loops have fuel,
and it is proved that they end.

* `Heap`, `ctableScan`, `timerTick` — memory and the loops as in the source; `fault` is set by a
  dereference of freed memory and by a second `mem_free`.
* `TableOk` — the chains are well formed.
* `ScanDone`, `Purged` — what `ctable_scan` and the purge loop have done so far.
* `timerTick_spec` — a tick does to every record what `timerRecord` says and nothing else.
* `tick_exact` — the same in terms of the counters, as the comment in `ctable.h` puts it.
-/

set_option autoImplicit false

namespace Hwdb.Rpc

open Hwdb.Lib

/-- `struct c_record` with its two pointer fields. -/
structure RecordCell where
  cr : CRecord
  next : Option Nat
  link : Option Nat
  deriving DecidableEq, Repr

/-- The memory of the process, the bucket listheads and what has been sent. -/
structure Heap where
  records : Nat → Option RecordCell
  endpoints : Nat → Option Endpoint
  heads : Fin CTABLE_SIZE → Option Nat
  sent : List Sent
  fault : Bool

namespace Heap

variable (h : Heap)

def crash : Heap := { h with fault := true }

def next (r : Nat) : Option Nat := (h.records r).bind (·.next)

def link (r : Nat) : Option Nat := (h.records r).bind (·.link)

def write (r : Nat) (cell : RecordCell) : Heap :=
  { h with records := Function.update h.records r (some cell) }

/-- The loop of `ctable_remove` in chain `b`: `pr` is the record before `cu`. -/
def unlinkFrom (b : Fin CTABLE_SIZE) (cr : Nat) : Nat → Option Nat → Option Nat → Option Heap
  | _, _, none => some h
  | 0, _, some _ => none
  | n + 1, pr, some cu =>
    match h.records cu with
    | none => some h.crash
    | some cell =>
      if cr = cu then
        match pr with
        | none => some { h with heads := Function.update h.heads b cell.next }
        | some p =>
          match h.records p with
          | none => some h.crash
          | some prev => some (h.write p { prev with next := cell.next })
      else unlinkFrom b cr n (some cu) cell.next

/-- `ctable_remove`. -/
def ctableRemove (fuel : Nat) (cr : Nat) : Option Heap :=
  match h.records cr with
  | none => some h.crash
  | some cell =>
    match h.endpoints cell.cr.ep with
    | none => some h.crash
    | some ep => h.unlinkFrom (ctableBucket ep) cr fuel none (h.heads (ctableBucket ep))

/-- `crecord_destroy`; the payload and the response buffer are parts of the record here. -/
def crecordDestroy (cr : Nat) : Heap :=
  match h.records cr with
  | none => h.crash
  | some cell =>
    match h.endpoints cell.cr.ep with
    | none => h.crash
    | some _ =>
      { h with
        endpoints := Function.update h.endpoints cell.cr.ep none
        records := Function.update h.records cr none }

/-! ## The loops of `timer` -/

/-- A record of the purge list. -/
def purgeOne (fuel : Nat) (cr : Nat) : Option Heap :=
  (h.ctableRemove fuel cr).map (·.crecordDestroy cr)

/-- A record of the timed list. -/
def timedOne (cr : Nat) : Option Heap :=
  match h.records cr with
  | none => some h.crash
  | some cell => some (h.write cr { cell with cr := crecordSetState cell.cr .timedout })

/-- A record of the ping list. -/
def pingOne (cr : Nat) : Option Heap :=
  match h.records cr with
  | none => some h.crash
  | some cell =>
    match h.endpoints cell.cr.ep with
    | none => some h.crash
    | some ep =>
      some { h with sent := h.sent ++ [⟨.record cell.cr.ep, pingPayload ep.subport cell.cr⟩] }

/-- A record of the retry list. -/
def retryOne (cr : Nat) : Option Heap :=
  match h.records cr with
  | none => some h.crash
  | some cell =>
    if cell.cr.state.awaitsAck then
      match h.endpoints cell.cr.ep with
      | none => some h.crash
      | some _ => some { h with sent := h.sent ++ [resend cell.cr] }
    else some h

end Heap

/-! ## `ctable_scan` -/

/-- The memory with the variables `rty`, `tmo`, `png` and `prg`. -/
structure Scan where
  heap : Heap
  lists : ScanList → Option Nat

/-- The body of the loop over one chain. -/
def scanRecord (s : Scan) (p : Nat) : Scan :=
  match s.heap.records p with
  | none => { s with heap := s.heap.crash }
  | some cell =>
    let (cr, list) := ctableScanRecord cell.cr
    if list = .none then { s with heap := s.heap.write p { cell with cr := cr } }
    else
      { heap := s.heap.write p { cell with cr := cr, link := s.lists list }
        lists := Function.update s.lists list (some p) }

/-- `ctable_scan`; `none` when the fuel runs out. -/
def ctableScan (fuel : Nat) (h : Heap) : Option Scan :=
  (List.finRange CTABLE_SIZE).foldlM
    (fun s i => Linked.walk (fun s => s.heap.next) scanRecord fuel (s.heap.heads i) s)
    ⟨h, fun _ => none⟩

/-- One turn of the loop of `timer`. -/
def timerTick (fuel : Nat) (h : Heap) : Option Heap :=
  (ctableScan fuel h).bind fun s =>
    ((((Linked.drain Heap.link (Heap.purgeOne · fuel) fuel (s.lists .purge) s.heap).bind
      (Linked.drain Heap.link Heap.timedOne fuel (s.lists .timed))).bind
      (Linked.drain Heap.link Heap.pingOne fuel (s.lists .ping))).bind
      (Linked.drain Heap.link Heap.retryOne fuel (s.lists .retry)))

/-! ## Well-formed chains -/

/-- Chain `b` of `t` is what `ctable[b]` leads to; every record is in the chain of its endpoint,
and no two records share one. -/
structure TableOk (h : Heap) (t : CTable Nat) : Prop where
  linked : ∀ b, Linked.Segment h.next (h.heads b) (t b) none
  filled : ∀ b, ∀ r ∈ t b, ∃ cell ep, h.records r = some cell ∧
    h.endpoints cell.cr.ep = some ep ∧ ctableBucket ep = b
  owned : ∀ r r' cell cell', Chains.Mem t r → Chains.Mem t r' → h.records r = some cell →
    h.records r' = some cell' → cell.cr.ep = cell'.cr.ep → r = r'

/-- `ctable_scan` threads `r` onto list `k`. -/
def onList (h : Heap) (k : ScanList) (r : Nat) : Bool :=
  (h.records r).any fun cell => (ctableScanRecord cell.cr).2 == k

section Chains

variable {h h' : Heap} {t : CTable Nat} {r r' : Nat} {b b' : Fin CTABLE_SIZE} {cell : RecordCell}
  {k : ScanList}

theorem next_write (h : Heap) (r : Nat) (cell : RecordCell) :
    (h.write r cell).next = Function.update h.next r cell.next := by
  funext a
  by_cases ha : a = r
  · subst ha
    simp [Heap.next, Heap.write]
  · simp [Heap.next, Heap.write, ha]

theorem link_write (h : Heap) (r : Nat) (cell : RecordCell) :
    (h.write r cell).link = Function.update h.link r cell.link := by
  funext a
  by_cases ha : a = r
  · subst ha
    simp [Heap.link, Heap.write]
  · simp [Heap.link, Heap.write, ha]

theorem next_eq (hcell : h.records r = some cell) : h.next r = cell.next := by
  simp [Heap.next, hcell]

theorem link_eq (hcell : h.records r = some cell) : h.link r = cell.link := by
  simp [Heap.link, hcell]

theorem onList_eq (hcell : h.records r = some cell) :
    onList h k r = ((ctableScanRecord cell.cr).2 == k) := by
  simp [onList, hcell]

/-- A record is in one chain. -/
theorem TableOk.bucket (h : TableOk h' t) (hb : r ∈ t b) (hb' : r ∈ t b') : b = b' := by
  obtain ⟨cell, ep, hcell, hep, rfl⟩ := h.filled b r hb
  obtain ⟨cell', ep', hcell', hep', rfl⟩ := h.filled b' r hb'
  rw [hcell] at hcell'
  cases hcell'
  rw [hep] at hep'
  cases hep'
  rfl

theorem TableOk.nodup_entries (h : TableOk h' t) : (Chains.entries t).Nodup := by
  refine List.nodup_flatMap.mpr ⟨fun b _ => (h.linked b).nodup, ?_⟩
  refine (List.nodup_finRange _).imp ?_
  intro b c hbc x hxb hxc
  exact hbc (h.bucket hxb hxc)

theorem TableOk.allocated (h : TableOk h' t) (hr : Chains.Mem t r) :
    ∃ cell ep, h'.records r = some cell ∧ h'.endpoints cell.cr.ep = some ep := by
  obtain ⟨b, hb⟩ := hr
  obtain ⟨cell, ep, hcell, hep, -⟩ := h.filled b r hb
  exact ⟨cell, ep, hcell, hep⟩

theorem length_chain_le (t : CTable Nat) (b : Fin CTABLE_SIZE) :
    (t b).length ≤ (Chains.entries t).length :=
  List.Sublist.length_le (List.sublist_flatten_of_mem
    (List.mem_map_of_mem (List.mem_finRange b)))

end Chains

/-! ## What the scan has done -/

/-- After the records `done`: these have had their counters run, and list `k` holds those of
them that belong there, the last one first. -/
structure ScanDone (h : Heap) (done : List Nat) (s : Scan) : Prop where
  heads : s.heap.heads = h.heads
  endpoints : s.heap.endpoints = h.endpoints
  sent : s.heap.sent = h.sent
  fault : s.heap.fault = h.fault
  todo : ∀ r, r ∉ done → s.heap.records r = h.records r
  counted : ∀ r ∈ done, ∀ cell, h.records r = some cell →
    ∃ link, s.heap.records r = some ⟨(ctableScanRecord cell.cr).1, cell.next, link⟩
  lists : ∀ k, k ≠ .none →
    Linked.Segment s.heap.link (s.lists k) (done.filter (onList h k)).reverse none

section Scanning

variable {h : Heap} {t : CTable Nat} {done : List Nat} {s : Scan} {r : Nat} {cell : RecordCell}

theorem scanDone_nil (h : Heap) : ScanDone h [] ⟨h, fun _ => none⟩ :=
  ⟨rfl, rfl, rfl, rfl, fun _ _ => rfl, fun _ hr => (by cases hr), fun _ _ => rfl⟩

/-- **One record.**  It gets onto its list and onto no other. -/
theorem ScanDone.step (hs : ScanDone h done s) (hr : r ∉ done) (hcell : h.records r = some cell) :
    ScanDone h (done ++ [r]) (scanRecord s r) := by
  have hrec : s.heap.records r = some cell := (hs.todo r hr).trans hcell
  have hother : ∀ (c : RecordCell) (x : Nat), x ∉ done ++ [r] →
      (s.heap.write r c).records x = h.records x := fun c x hx => by
    have hxr : x ≠ r := fun he => hx (by simp [he])
    have hxd : x ∉ done := fun hd => hx (List.mem_append_left _ hd)
    exact (Function.update_of_ne hxr _ _).trans (hs.todo x hxd)
  have hcounted : ∀ link, ∀ x ∈ done ++ [r], ∀ c, h.records x = some c →
      ∃ link', (s.heap.write r ⟨(ctableScanRecord cell.cr).1, cell.next, link⟩).records x =
        some ⟨(ctableScanRecord c.cr).1, c.next, link'⟩ := by
    intro link x hx c hc
    by_cases hxr : x = r
    · subst hxr
      rw [hcell] at hc
      cases hc
      exact ⟨link, Function.update_self ..⟩
    · have hxd : x ∈ done := by simpa [hxr] using hx
      obtain ⟨link', hl⟩ := hs.counted x hxd c hc
      exact ⟨link', (Function.update_of_ne hxr _ _).trans hl⟩
  have hfilter : ∀ k, (done ++ [r]).filter (onList h k) =
      done.filter (onList h k) ++ if (ctableScanRecord cell.cr).2 = k then [r] else [] := by
    intro k
    rw [List.filter_append, List.filter_singleton, onList_eq hcell]
    simp
  have hnew : ∀ k, r ∉ (done.filter (onList h k)).reverse := fun k hx =>
    hr (List.mem_filter.mp (List.mem_reverse.mp hx)).1
  unfold scanRecord
  simp only [hrec]
  by_cases hnone : (ctableScanRecord cell.cr).2 = .none
  · rw [if_pos hnone]
    refine ⟨hs.heads, hs.endpoints, hs.sent, hs.fault, hother _, hcounted _, fun k hk => ?_⟩
    have hkne : ¬ (ctableScanRecord cell.cr).2 = k := fun he => hk (he.symm.trans hnone)
    rw [hfilter, if_neg hkne, List.append_nil]
    show Linked.Segment (s.heap.write r _).link _ _ _
    rw [link_write]
    exact (hs.lists k hk).update (hnew k) _
  · rw [if_neg hnone]
    refine ⟨hs.heads, hs.endpoints, hs.sent, hs.fault, hother _, hcounted _, fun k hk => ?_⟩
    rw [hfilter]
    show Linked.Segment (s.heap.write r _).link _ _ _
    rw [link_write]
    by_cases hlist : (ctableScanRecord cell.cr).2 = k
    · subst hlist
      rw [if_pos rfl, List.reverse_append]
      show Linked.Segment _ (Function.update s.lists _ (some r) _) (r :: _) _
      rw [Function.update_self]
      exact (hs.lists _ hk).cons_update (hnew _)
    · have hkne : k ≠ (ctableScanRecord cell.cr).2 := fun he => hlist he.symm
      rw [if_neg hlist, List.append_nil]
      show Linked.Segment _ (Function.update s.lists _ (some r) k) _ _
      rw [Function.update_of_ne hkne]
      exact (hs.lists k hk).update (hnew k) _

/-- The scan leaves the chains alone. -/
theorem scanRecord_chains (s : Scan) (r : Nat) :
    (scanRecord s r).heap.heads = s.heap.heads ∧ (scanRecord s r).heap.next = s.heap.next := by
  unfold scanRecord
  cases hcell : s.heap.records r with
  | none => exact ⟨rfl, rfl⟩
  | some cell =>
    have hkeep : ∀ cr link, (s.heap.write r ⟨cr, cell.next, link⟩).next = s.heap.next :=
      fun cr link => by
        rw [next_write, ← next_eq hcell]
        exact Function.update_eq_self r _
    dsimp only
    split
    · exact ⟨rfl, hkeep _ _⟩
    · exact ⟨rfl, hkeep _ _⟩

theorem foldl_scanRecord_chains (l : List Nat) (s : Scan) :
    (l.foldl scanRecord s).heap.heads = s.heap.heads ∧
      (l.foldl scanRecord s).heap.next = s.heap.next := by
  induction l generalizing s with
  | nil => exact ⟨rfl, rfl⟩
  | cons r l ih =>
    obtain ⟨hheads, hnext⟩ := ih (scanRecord s r)
    obtain ⟨hheads', hnext'⟩ := scanRecord_chains s r
    exact ⟨hheads.trans hheads', hnext.trans hnext'⟩

/-- **`ctable_scan` ends and visits every record once.** -/
theorem ctableScan_eq (htab : TableOk h t) {fuel : Nat}
    (hfuel : (Chains.entries t).length ≤ fuel) :
    ctableScan fuel h = some ((Chains.entries t).foldl scanRecord ⟨h, fun _ => none⟩) := by
  have key : ∀ (bs : List (Fin CTABLE_SIZE)) (s : Scan), s.heap.heads = h.heads →
      s.heap.next = h.next →
      bs.foldlM (fun s i => Linked.walk (fun s => s.heap.next) scanRecord fuel
        (s.heap.heads i) s) s = some ((bs.flatMap t).foldl scanRecord s) := by
    intro bs
    induction bs with
    | nil =>
      intro s _ _
      rfl
    | cons b bs ih =>
      intro s hheads hnext
      have hseg : Linked.Segment s.heap.next (s.heap.heads b) (t b) none := by
        rw [hheads, hnext]
        exact htab.linked b
      rw [List.foldlM_cons, Linked.walk_eq (fun s r => (scanRecord_chains s r).2) hseg
        (Nat.le_trans (length_chain_le t b) hfuel), List.flatMap_cons, List.foldl_append]
      obtain ⟨hheads', hnext'⟩ := foldl_scanRecord_chains (t b) s
      exact ih _ (hheads'.trans hheads) (hnext'.trans hnext)
  exact key _ _ rfl rfl

/-- **What `ctable_scan` returns.** -/
theorem ctableScan_spec (htab : TableOk h t) {fuel : Nat}
    (hfuel : (Chains.entries t).length ≤ fuel) :
    ∃ s, ctableScan fuel h = some s ∧ ScanDone h (Chains.entries t) s := by
  refine ⟨_, ctableScan_eq htab hfuel, ?_⟩
  have key : ∀ (rest done : List Nat) (s : Scan), done ++ rest = Chains.entries t →
      ScanDone h done s → ScanDone h (Chains.entries t) (rest.foldl scanRecord s) := by
    intro rest
    induction rest with
    | nil =>
      intro done s hdone hs
      rw [List.append_nil] at hdone
      exact hdone ▸ hs
    | cons r rest ih =>
      intro done s hdone hs
      have hnodup := htab.nodup_entries
      rw [← hdone] at hnodup
      have hr : r ∉ done := fun hd => List.disjoint_of_nodup_append hnodup hd List.mem_cons_self
      have hmem : Chains.Mem t r := by
        rw [← Chains.mem_entries, ← hdone]
        simp
      obtain ⟨cell, -, hcell, -⟩ := htab.allocated hmem
      exact ih (done ++ [r]) _ (by rw [← hdone]; simp) (hs.step hr hcell)
  exact key _ [] _ rfl (scanDone_nil h)

end Scanning

/-! ## Unlinking and freeing -/

/-- `r` unlinked from chain `b`, with `pr` the record before it. -/
def unlinked (h : Heap) (b : Fin CTABLE_SIZE) (pr next : Option Nat) : Heap :=
  match pr with
  | none => { h with heads := Function.update h.heads b next }
  | some p =>
    match h.records p with
    | none => h.crash
    | some prev => h.write p { prev with next := next }

/-- After the records `gone` have been destroyed: they are out of the chains and freed, and
nothing else has changed but `next` fields. -/
structure Purged (h : Heap) (t : CTable Nat) (gone : List Nat) (h' : Heap) : Prop where
  linked : ∀ b, Linked.Segment h'.next (h'.heads b) ((t b).filter fun r => decide (r ∉ gone)) none
  kept : ∀ r, r ∉ gone → ∀ cell, h.records r = some cell →
    ∃ next, h'.records r = some { cell with next := next }
  others : ∀ r, ¬ Chains.Mem t r → h'.records r = h.records r
  freed : ∀ r ∈ gone, h'.records r = none
  released : ∀ r ∈ gone, ∀ cell, h.records r = some cell → h'.endpoints cell.cr.ep = none
  unreleased : ∀ e, (∀ r ∈ gone, ∀ cell, h.records r = some cell → cell.cr.ep ≠ e) →
    h'.endpoints e = h.endpoints e
  sent : h'.sent = h.sent
  fault : h'.fault = h.fault

section Purging

variable {h h' : Heap} {t : CTable Nat} {gone l m : List Nat} {r : Nat} {b : Fin CTABLE_SIZE}
  {cell : RecordCell}

/-- The loop of `ctable_remove` finds the record and what is before it. -/
theorem unlinkFrom_eq (hcell : h.records r = some cell) (l : List Nat) {fuel : Nat}
    {pr p : Option Nat} (hseg : Linked.Segment h.next p (l ++ r :: m) none)
    (hall : ∀ x ∈ l, (h.records x).isSome) (hr : r ∉ l) (hfuel : l.length < fuel) :
    h.unlinkFrom b r fuel pr p = some (unlinked h b (l.getLast?.or pr) cell.next) := by
  induction l generalizing fuel pr p with
  | nil =>
    cases fuel with
    | zero => simp at hfuel
    | succ n =>
      rw [show p = some r from hseg.1]
      simp only [Heap.unlinkFrom, hcell, if_true, List.getLast?_nil, Option.none_or]
      cases pr with
      | none => rfl
      | some q =>
        simp only [unlinked]
        cases h.records q <;> rfl
  | cons x l ih =>
    cases fuel with
    | zero => simp at hfuel
    | succ n =>
      obtain ⟨c, hc⟩ := Option.isSome_iff_exists.mp (hall x List.mem_cons_self)
      have hne : ¬ r = x := fun he => hr (by simp [he])
      rw [show p = some x from hseg.1]
      simp only [Heap.unlinkFrom, hc, if_neg hne]
      have htail := hseg.2
      rw [next_eq hc] at htail
      rw [ih htail (fun y hy => hall y (List.mem_cons_of_mem _ hy))
        (fun hmem => hr (List.mem_cons_of_mem _ hmem)) (Nat.lt_of_succ_lt_succ hfuel)]
      rw [List.getLast?_cons]
      cases l.getLast? <;> rfl

theorem crecordDestroy_eq {ep : Endpoint} (hcell : h.records r = some cell)
    (hep : h.endpoints cell.cr.ep = some ep) :
    h.crecordDestroy r = { h with
      endpoints := Function.update h.endpoints cell.cr.ep none
      records := Function.update h.records r none } := by
  simp only [Heap.crecordDestroy, hcell, hep]

/-- Unlinking changes one `next` field or a listhead, and no cell otherwise. -/
theorem unlinked_records {pr : Option Nat} (next : Option Nat)
    (hpr : ∀ q, pr = some q → (h.records q).isSome) (x : Nat) :
    (unlinked h b pr next).records x = h.records x ∨
      (pr = some x ∧ ∃ c, h.records x = some c ∧
        (unlinked h b pr next).records x = some { c with next := next }) := by
  cases pr with
  | none => exact .inl rfl
  | some q =>
    obtain ⟨c, hc⟩ := Option.isSome_iff_exists.mp (hpr q rfl)
    simp only [unlinked, hc]
    by_cases hx : x = q
    · subst hx
      exact .inr ⟨rfl, c, hc, Function.update_self ..⟩
    · exact .inl (Function.update_of_ne hx _ _)

theorem unlinked_rest {pr : Option Nat} (next : Option Nat)
    (hpr : ∀ q, pr = some q → (h.records q).isSome) :
    (unlinked h b pr next).endpoints = h.endpoints ∧ (unlinked h b pr next).sent = h.sent ∧
      (unlinked h b pr next).fault = h.fault := by
  cases pr with
  | none => exact ⟨rfl, rfl, rfl⟩
  | some q =>
    obtain ⟨c, hc⟩ := Option.isSome_iff_exists.mp (hpr q rfl)
    simp only [unlinked, hc]
    exact ⟨rfl, rfl, rfl⟩

/-- The chain without the record. -/
theorem unlinked_chain (hcell : h.records r = some cell)
    (hall : ∀ x ∈ l, (h.records x).isSome)
    (hseg : Linked.Segment h.next (h.heads b) (l ++ r :: m) none) :
    Linked.Segment (unlinked h b l.getLast? cell.next).next
      ((unlinked h b l.getLast? cell.next).heads b) (l ++ m) none := by
  have hnodup := hseg.nodup
  rw [← next_eq hcell]
  rcases List.eq_nil_or_concat' l with rfl | ⟨l', q, rfl⟩
  · show Linked.Segment h.next (Function.update h.heads b (h.next r) b) m none
    rw [Function.update_self]
    exact hseg.2
  · obtain ⟨c, hc⟩ := Option.isSome_iff_exists.mp (hall q (by simp))
    rw [List.getLast?_concat]
    simp only [unlinked, hc, next_write]
    rw [List.append_assoc, List.singleton_append] at hseg hnodup ⊢
    exact hseg.skip hnodup

/-- Other chains. -/
theorem unlinked_other {b' : Fin CTABLE_SIZE} {pr next : Option Nat} (hb : b' ≠ b)
    (hpr : ∀ q, pr = some q → (h.records q).isSome ∧ q ∉ m)
    (hseg : Linked.Segment h.next (h.heads b') m none) :
    Linked.Segment (unlinked h b pr next).next ((unlinked h b pr next).heads b') m none := by
  cases pr with
  | none =>
    show Linked.Segment h.next (Function.update h.heads b next b') m none
    rw [Function.update_of_ne hb]
    exact hseg
  | some q =>
    obtain ⟨c, hc⟩ := Option.isSome_iff_exists.mp (hpr q rfl).1
    simp only [unlinked, hc, next_write]
    exact hseg.update (hpr q rfl).2 _

theorem purged_nil (htab : TableOk h t) : Purged h t [] h := by
  refine ⟨fun b => ?_, fun r _ cell hcell => ⟨cell.next, hcell⟩, fun _ _ => rfl,
    fun _ hr => (by cases hr), fun _ hr => (by cases hr), fun _ _ => rfl, rfl, rfl⟩
  have hall : (t b).filter (fun r => decide (r ∉ ([] : List Nat))) = t b := by simp
  rw [hall]
  exact htab.linked b

/-- The rest of a chain when one more record is gone. -/
theorem filter_gone (hnodup : ((t b).filter fun x => decide (x ∉ gone)).Nodup)
    (hchain : (t b).filter (fun x => decide (x ∉ gone)) = l ++ r :: m) :
    (t b).filter (fun x => decide (x ∉ gone ++ [r])) = l ++ m := by
  have hsplit : (t b).filter (fun x => decide (x ∉ gone ++ [r])) =
      ((t b).filter fun x => decide (x ∉ gone)).filter fun x => decide (x ≠ r) := by
    rw [List.filter_filter]
    congr 1
    funext x
    simp [and_comm, not_or]
  rw [hchain] at hnodup
  have hl : ∀ x ∈ l, x ≠ r := fun x hx he =>
    List.disjoint_of_nodup_append hnodup hx (he ▸ List.mem_cons_self)
  have hm : ∀ x ∈ m, x ≠ r := fun x hx he =>
    (List.nodup_cons.mp (List.nodup_append.mp hnodup).2.1).1 (he ▸ hx)
  rw [hsplit, hchain, List.filter_append, List.filter_cons_of_neg (by simp)]
  rw [List.filter_eq_self.mpr fun x hx => by simpa using hl x hx,
    List.filter_eq_self.mpr fun x hx => by simpa using hm x hx]

/-- **One record of the purge list.** -/
theorem Purged.step (hp : Purged h t gone h') (htab : TableOk h t) (hb : r ∈ t b) (hr : r ∉ gone)
    {fuel : Nat} (hfuel : (Chains.entries t).length ≤ fuel) :
    ∃ h'', h'.purgeOne fuel r = some h'' ∧ Purged h t (gone ++ [r]) h'' := by
  obtain ⟨cell, ep, hcell, hep, hbucket⟩ := htab.filled b r hb
  obtain ⟨next, hcell'⟩ := hp.kept r hr cell hcell
  -- Its endpoint has not been freed with another record.
  have hep' : h'.endpoints cell.cr.ep = some ep := by
    rw [hp.unreleased cell.cr.ep fun r' hr' c hc he => ?_, hep]
    by_cases hmem : Chains.Mem t r'
    · have heq := htab.owned r' r c cell hmem ⟨b, hb⟩ hc hcell he
      exact hr (heq ▸ hr')
    · have hfreed := hp.freed r' hr'
      rw [hp.others r' hmem, hc] at hfreed
      cases hfreed
  have hin : r ∈ (t b).filter fun x => decide (x ∉ gone) :=
    List.mem_filter.mpr ⟨hb, by simpa using hr⟩
  obtain ⟨l, m, hchain⟩ := List.append_of_mem hin
  have hseg := hp.linked b
  have hnodup := hseg.nodup
  rw [hchain] at hseg
  have hsub : ∀ x ∈ l ++ r :: m, x ∈ t b ∧ x ∉ gone := fun x hx => by
    rw [← hchain] at hx
    simpa using hx
  have hall : ∀ x ∈ l, (h'.records x).isSome := fun x hx => by
    obtain ⟨hxb, hxg⟩ := hsub x (List.mem_append_left _ hx)
    obtain ⟨c, -, hc, -⟩ := htab.allocated ⟨b, hxb⟩
    obtain ⟨n, hn⟩ := hp.kept x hxg c hc
    rw [hn]
    rfl
  have hrl : r ∉ l := fun hmem => by
    have hd := hseg.nodup
    exact List.disjoint_of_nodup_append hd hmem List.mem_cons_self
  have hlen : l.length < fuel := by
    have hle := congrArg List.length hchain
    rw [List.length_append, List.length_cons] at hle
    have h1 := List.length_filter_le (fun x => decide (x ∉ gone)) (t b)
    have h2 := length_chain_le t b
    omega
  have hlast : ∀ q, l.getLast? = some q → (h'.records q).isSome ∧ q ∈ t b ∧ q ∉ gone ∧ q ≠ r := by
    intro q hq
    have hql := List.mem_of_getLast? hq
    obtain ⟨hqb, hqg⟩ := hsub q (List.mem_append_left _ hql)
    exact ⟨hall q hql, hqb, hqg, fun he => hrl (he ▸ hql)⟩
  have hremove : h'.ctableRemove fuel r = some (unlinked h' b l.getLast? next) := by
    simp only [Heap.ctableRemove, hcell', hep']
    rw [hbucket, unlinkFrom_eq hcell' l hseg hall hrl hlen, Option.or_none]
  have hrecords := unlinked_records (b := b) next fun q hq => (hlast q hq).1
  obtain ⟨hendpoints, hsent, hfault⟩ := unlinked_rest (b := b) next
    fun q hq => (hlast q hq).1
  have hcell'' : (unlinked h' b l.getLast? next).records r = some { cell with next := next } := by
    rcases hrecords r with heq | ⟨hq, -⟩
    · rw [heq, hcell']
    · exact absurd rfl (hlast r hq).2.2.2
  have hep'' : (unlinked h' b l.getLast? next).endpoints cell.cr.ep = some ep := by
    rw [hendpoints, hep']
  have hdestroyed : ∀ x, x ≠ r →
      ((unlinked h' b l.getLast? next).crecordDestroy r).records x =
        (unlinked h' b l.getLast? next).records x := fun x hx => by
    rw [crecordDestroy_eq hcell'' hep'']
    exact Function.update_of_ne hx _ _
  have hgone : ((unlinked h' b l.getLast? next).crecordDestroy r).records r = none := by
    rw [crecordDestroy_eq hcell'' hep'']
    exact Function.update_self ..
  have hnext : ((unlinked h' b l.getLast? next).crecordDestroy r).next =
      Function.update (unlinked h' b l.getLast? next).next r none := by
    funext x
    by_cases hx : x = r
    · subst hx
      rw [Function.update_self, Heap.next, hgone]
      rfl
    · rw [Function.update_of_ne hx, Heap.next, hdestroyed x hx]
      rfl
  refine ⟨(unlinked h' b l.getLast? next).crecordDestroy r, ?_, ?_, ?_, ?_, ?_, ?_, ?_, ?_, ?_⟩
  · rw [Heap.purgeOne, hremove]
    rfl
  · intro b'
    have hheads : ((unlinked h' b l.getLast? next).crecordDestroy r).heads =
        (unlinked h' b l.getLast? next).heads := by rw [crecordDestroy_eq hcell'' hep'']
    rw [hheads, hnext]
    by_cases hbb : b' = b
    · subst hbb
      rw [filter_gone hnodup hchain]
      refine (unlinked_chain hcell' hall hseg).update (fun hx => ?_) _
      have hd := hseg.nodup
      rcases List.mem_append.mp hx with hx | hx
      · exact hrl hx
      · exact (List.nodup_cons.mp (List.nodup_append.mp hd).2.1).1 hx
    · have hrb : r ∉ t b' := fun hx => hbb (htab.bucket hx hb)
      have hsame : (t b').filter (fun x => decide (x ∉ gone ++ [r])) =
          (t b').filter fun x => decide (x ∉ gone) := by
        refine List.filter_congr fun x hx => ?_
        have hxr : x ≠ r := fun he => hrb (he ▸ hx)
        simp [hxr]
      rw [hsame]
      refine (unlinked_other hbb (fun q hq => ⟨(hlast q hq).1, fun hx => ?_⟩)
        (hp.linked b')).update (fun hx => hrb (List.mem_filter.mp hx).1) _
      exact hbb (htab.bucket (List.mem_filter.mp hx).1 (hlast q hq).2.1)
  · intro x hx c hc
    have hxr : x ≠ r := fun he => hx (by simp [he])
    have hxg : x ∉ gone := fun hg => hx (List.mem_append_left _ hg)
    obtain ⟨n, hn⟩ := hp.kept x hxg c hc
    rw [hdestroyed x hxr]
    rcases hrecords x with heq | ⟨-, c', hc', heq⟩
    · exact ⟨n, heq.trans hn⟩
    · rw [hn] at hc'
      cases hc'
      exact ⟨next, heq⟩
  · intro x hx
    have hxr : x ≠ r := fun he => hx ⟨b, he ▸ hb⟩
    rw [hdestroyed x hxr]
    rcases hrecords x with heq | ⟨hq, -⟩
    · exact heq.trans (hp.others x hx)
    · exact absurd ⟨b, (hlast x hq).2.1⟩ hx
  · intro x hx
    by_cases hxr : x = r
    · rw [hxr]
      exact hgone
    · have hxg : x ∈ gone := by simpa [hxr] using hx
      rw [hdestroyed x hxr]
      rcases hrecords x with heq | ⟨-, c', hc', -⟩
      · exact heq.trans (hp.freed x hxg)
      · rw [hp.freed x hxg] at hc'
        cases hc'
  · intro x hx c hc
    rw [crecordDestroy_eq hcell'' hep'']
    show Function.update (unlinked h' b l.getLast? next).endpoints cell.cr.ep none c.cr.ep = none
    by_cases he : c.cr.ep = cell.cr.ep
    · rw [he]
      exact Function.update_self ..
    · rw [Function.update_of_ne he, hendpoints]
      have hxr : x ≠ r := fun hxr => by
        rw [hxr, hcell] at hc
        cases hc
        exact he rfl
      exact hp.released x (by simpa [hxr] using hx) c hc
  · intro e he
    rw [crecordDestroy_eq hcell'' hep'']
    show Function.update (unlinked h' b l.getLast? next).endpoints cell.cr.ep none e = _
    have hne : e ≠ cell.cr.ep := fun heq => he r (by simp) cell hcell heq.symm
    rw [Function.update_of_ne hne, hendpoints]
    exact hp.unreleased e fun x hx => he x (List.mem_append_left _ hx)
  · rw [crecordDestroy_eq hcell'' hep'']
    exact hsent.trans hp.sent
  · rw [crecordDestroy_eq hcell'' hep'']
    exact hfault.trans hp.fault

/-- `ctable_remove` touches no `link`. -/
theorem unlinkFrom_link {cr : Nat} {fuel : Nat} {pr p : Option Nat}
    (hx : h.unlinkFrom b cr fuel pr p = some h') : h'.link = h.link := by
  induction fuel generalizing pr p with
  | zero =>
    cases p with
    | none =>
      cases hx
      rfl
    | some cu => cases hx
  | succ n ih =>
    cases p with
    | none =>
      cases hx
      rfl
    | some cu =>
      simp only [Heap.unlinkFrom] at hx
      split at hx
      · cases hx
        rfl
      split at hx
      · split at hx
        · cases hx
          rfl
        split at hx
        · cases hx
          rfl
        · rename_i q prev hq
          cases hx
          rw [link_write, ← link_eq hq]
          exact Function.update_eq_self _ _
      · exact ih hx

theorem purgeOne_link {fuel : Nat} {x : Nat} (hx : h.purgeOne fuel r = some h') (hne : x ≠ r) :
    h'.link x = h.link x := by
  obtain ⟨h1, h1_eq, rfl⟩ := Option.map_eq_some_iff.mp hx
  have hremove : h1.link = h.link := by
    unfold Heap.ctableRemove at h1_eq
    split at h1_eq
    · cases h1_eq
      rfl
    split at h1_eq
    · cases h1_eq
      rfl
    · exact unlinkFrom_link h1_eq
  rw [← hremove]
  unfold Heap.crecordDestroy
  split
  · rfl
  split
  · rfl
  · show ((Function.update h1.records r none) x).bind (·.link) = _
    rw [Function.update_of_ne hne]
    rfl

/-- **The purge list.** -/
theorem purge_spec (htab : TableOk h t) {p : Option Nat} {ps : List Nat} {fuel : Nat}
    (hseg : Linked.Segment h.link p ps none) (hsub : ∀ r ∈ ps, Chains.Mem t r)
    (hlen : ps.length ≤ fuel) (hfuel : (Chains.entries t).length ≤ fuel) :
    ∃ h', Linked.drain Heap.link (Heap.purgeOne · fuel) fuel p h = some h' ∧
      Purged h t ps h' := by
  have hdrain : Linked.drain Heap.link (Heap.purgeOne · fuel) fuel p h =
      ps.foldlM (Heap.purgeOne · fuel) h :=
    Linked.drain_eq (fun s s' a b hs hb => purgeOne_link hs hb) hseg hlen
  rw [hdrain]
  refine Linked.foldlM_invariant (I := fun gone h' => Purged h t gone h') (purged_nil htab) ?_
    hseg.nodup
  intro gone r h' hp hr hnew
  obtain ⟨b, hb⟩ := hsub r hr
  exact hp.step htab hb hnew hfuel

end Purging

/-! ## Timing out and sending -/

/-- After the records `done` of the timed list. -/
structure TimedOut (h : Heap) (done : List Nat) (h' : Heap) : Prop where
  heads : h'.heads = h.heads
  endpoints : h'.endpoints = h.endpoints
  sent : h'.sent = h.sent
  fault : h'.fault = h.fault
  todo : ∀ r, r ∉ done → h'.records r = h.records r
  timed : ∀ r ∈ done, ∀ cell, h.records r = some cell →
    h'.records r = some { cell with cr := crecordSetState cell.cr .timedout }

section Sending

variable {h h' : Heap} {l : List Nat} {p : Option Nat} {fuel : Nat}

theorem timedOne_link {r : Nat} (hx : h.timedOne r = some h') : h'.link = h.link := by
  unfold Heap.timedOne at hx
  split at hx
  · cases hx
    rfl
  · rename_i cell hcell
    cases hx
    rw [link_write, ← link_eq hcell]
    exact Function.update_eq_self _ _

/-- **The timed list.** -/
theorem timed_spec (hseg : Linked.Segment h.link p l none)
    (hall : ∀ r ∈ l, (h.records r).isSome) (hlen : l.length ≤ fuel) :
    ∃ h', Linked.drain Heap.link Heap.timedOne fuel p h = some h' ∧ TimedOut h l h' := by
  rw [Linked.drain_eq (fun s s' a b hs _ => congrFun (timedOne_link hs) b) hseg hlen]
  refine Linked.foldlM_invariant (I := fun done h' => TimedOut h done h')
    ⟨rfl, rfl, rfl, rfl, fun _ _ => rfl, fun _ hr => (by cases hr)⟩ ?_ hseg.nodup
  intro done r h' hd hr hnew
  obtain ⟨cell, hcell⟩ := Option.isSome_iff_exists.mp (hall r hr)
  have hcell' : h'.records r = some cell := (hd.todo r hnew).trans hcell
  refine ⟨h'.write r { cell with cr := crecordSetState cell.cr .timedout }, ?_, hd.heads,
    hd.endpoints, hd.sent, hd.fault, fun x hx => ?_, fun x hx c hc => ?_⟩
  · simp only [Heap.timedOne, hcell']
  · have hxr : x ≠ r := fun he => hx (by simp [he])
    exact (Function.update_of_ne hxr _ _).trans
      (hd.todo x fun hxd => hx (List.mem_append_left _ hxd))
  · by_cases hxr : x = r
    · subst hxr
      rw [hcell] at hc
      cases hc
      exact Function.update_self ..
    · exact (Function.update_of_ne hxr _ _).trans (hd.timed x (by simpa [hxr] using hx) c hc)

/-- **A list of records that are only sent to.** -/
theorem send_spec {body : Heap → Nat → Option Heap} {f : Nat → List Sent}
    (hbody : ∀ s r, r ∈ l → s.records = h.records → s.endpoints = h.endpoints →
      body s r = some { s with sent := s.sent ++ f r })
    (hlink : ∀ s s' r, body s r = some s' → s'.link = s.link)
    (hseg : Linked.Segment h.link p l none) (hlen : l.length ≤ fuel) :
    Linked.drain Heap.link body fuel p h = some { h with sent := h.sent ++ l.flatMap f } := by
  rw [Linked.drain_eq (fun s s' a b hs _ => congrFun (hlink s s' a hs) b) hseg hlen]
  have key : ∀ (rest : List Nat) (out : List Sent), (∀ r ∈ rest, r ∈ l) →
      rest.foldlM body { h with sent := out } =
        some { h with sent := out ++ rest.flatMap f } := by
    intro rest
    induction rest with
    | nil =>
      intro out _
      simp
    | cons r rest ih =>
      intro out hrest
      rw [List.foldlM_cons, hbody { h with sent := out } r (hrest r List.mem_cons_self) rfl rfl]
      show rest.foldlM body { h with sent := out ++ f r } = _
      rw [ih _ fun x hx => hrest x (List.mem_cons_of_mem _ hx)]
      simp
  exact key l h.sent fun r hr => hr

end Sending

/-! ## The tick as a whole -/

section Lists

variable {c : CRecord} {sp : Nat}

/-- The loops of `timer` and the lists of `ctable_scan` fit together: what a tick does to a record
follows from its list. -/
theorem timerRecord_eq (sp : Nat) (c : CRecord) : timerRecord sp c =
    match (ctableScanRecord c).2 with
    | .purge => (none, [])
    | .timed => (some (crecordSetState (ctableScanRecord c).1 .timedout), [])
    | .ping => (some (ctableScanRecord c).1,
        [⟨.record (ctableScanRecord c).1.ep, pingPayload sp (ctableScanRecord c).1⟩])
    | .retry => (some (ctableScanRecord c).1,
        if (ctableScanRecord c).1.state.awaitsAck then [resend (ctableScanRecord c).1] else [])
    | .none => (some (ctableScanRecord c).1, []) := by
  unfold timerRecord
  generalize ctableScanRecord c = out
  obtain ⟨q, list⟩ := out
  cases list <;> rfl

theorem scan_purge_iff (c : CRecord) :
    (ctableScanRecord c).2 = .purge ↔ c.state = .timedout := by
  unfold ctableScanRecord
  by_cases ht : c.state = .timedout
  · simp [ht]
  · by_cases ha : c.state.awaitsAck = true
    · simp only [ht, ha, if_true, if_false, iff_false]
      repeat' split
      all_goals exact fun h => (by cases h)
    · simp only [ht, ha, if_false, iff_false, Bool.false_eq_true]
      repeat' split
      all_goals exact fun h => (by cases h)

theorem scan_ep (c : CRecord) : (ctableScanRecord c).1.ep = c.ep := by
  unfold ctableScanRecord
  by_cases ht : c.state = .timedout
  · simp [ht]
  · by_cases ha : c.state.awaitsAck = true
    · simp only [ht, ha, if_true, if_false]
      repeat' split
      all_goals rfl
    · simp only [ht, ha, if_false, Bool.false_eq_true]
      repeat' split
      all_goals rfl

end Lists

/-- The chains without the records that were `ST_TIMEDOUT`. -/
def remaining (h : Heap) (t : CTable Nat) : CTable Nat := fun b =>
  (t b).filter fun r => !onList h .purge r

/-- What a tick sends for a record. -/
def tickSends (h : Heap) (r : Nat) : List Sent :=
  match h.records r with
  | none => []
  | some cell =>
    match h.endpoints cell.cr.ep with
    | none => []
    | some ep => (timerRecord ep.subport cell.cr).2

/-- List `k` of `ctable_scan`. -/
def scanned (h : Heap) (t : CTable Nat) (k : ScanList) : List Nat :=
  ((Chains.entries t).filter (onList h k)).reverse

/-- A tick has done to every record of the table what `timerRecord` says, and nothing else. -/
structure TickDone (h : Heap) (t : CTable Nat) (h' : Heap) : Prop where
  table : TableOk h' (remaining h t)
  destroyed : ∀ r cell, Chains.Mem t r → h.records r = some cell → cell.cr.state = .timedout →
    h'.records r = none ∧ h'.endpoints cell.cr.ep = none
  ticked : ∀ r cell ep c, Chains.Mem t r → h.records r = some cell →
    h.endpoints cell.cr.ep = some ep → (timerRecord ep.subport cell.cr).1 = some c →
    (∃ next link, h'.records r = some ⟨c, next, link⟩) ∧ h'.endpoints cell.cr.ep = some ep
  others : ∀ r, ¬ Chains.Mem t r → h'.records r = h.records r
  sent : h'.sent = h.sent ++
    ((scanned h t .ping).flatMap (tickSends h) ++ (scanned h t .retry).flatMap (tickSends h))
  fault : h'.fault = h.fault

section Tick

variable {h h1 h2 h3 : Heap} {t : CTable Nat} {s : Scan} {r : Nat} {cell : RecordCell}
  {k : ScanList} {fuel : Nat}

theorem mem_scanned : r ∈ scanned h t k ↔ Chains.Mem t r ∧ onList h k r = true := by
  rw [scanned, List.mem_reverse, List.mem_filter, Chains.mem_entries]

theorem mem_remaining (b : Fin CTABLE_SIZE) (r : Nat) :
    r ∈ remaining h t b ↔ r ∈ t b ∧ r ∉ scanned h t .purge := by
  rw [remaining, List.mem_filter, mem_scanned]
  constructor
  · rintro ⟨hb, hnot⟩
    refine ⟨hb, fun hx => ?_⟩
    rw [hx.2] at hnot
    cases hnot
  · rintro ⟨hb, hnot⟩
    refine ⟨hb, ?_⟩
    cases hx : onList h .purge r with
    | false => rfl
    | true => exact absurd ⟨⟨b, hb⟩, hx⟩ hnot

theorem length_scanned_le (h : Heap) (t : CTable Nat) (k : ScanList) :
    (scanned h t k).length ≤ (Chains.entries t).length := by
  rw [scanned, List.length_reverse]
  exact List.length_filter_le _ _

/-- The lists are disjoint. -/
theorem scanned_disjoint {k' : ScanList} (hk : r ∈ scanned h t k) (hk' : r ∈ scanned h t k') :
    k = k' := by
  obtain ⟨-, hk⟩ := mem_scanned.mp hk
  obtain ⟨-, hk'⟩ := mem_scanned.mp hk'
  cases hcell : h.records r with
  | none =>
    rw [onList, hcell] at hk
    cases hk
  | some cell =>
    rw [onList_eq hcell] at hk hk'
    exact (eq_of_beq hk).symm.trans (eq_of_beq hk')

/-- A record after the scan. -/
theorem ScanDone.found (hs : ScanDone h (Chains.entries t) s) (hr : Chains.Mem t r)
    (hcell : h.records r = some cell) :
    ∃ link, s.heap.records r = some ⟨(ctableScanRecord cell.cr).1, cell.next, link⟩ :=
  hs.counted r (Chains.mem_entries.mpr hr) cell hcell

/-- The scan keeps the chains well formed. -/
theorem ScanDone.tableOk (hs : ScanDone h (Chains.entries t) s) (htab : TableOk h t) :
    TableOk s.heap t := by
  have hnext : ∀ b, ∀ r ∈ t b, s.heap.next r = h.next r := fun b r hr => by
    obtain ⟨cell, -, hcell, -⟩ := htab.filled b r hr
    obtain ⟨link, hlink⟩ := hs.found ⟨b, hr⟩ hcell
    rw [next_eq hlink, next_eq hcell]
  refine ⟨fun b => ?_, fun b r hr => ?_, fun r r' c c' hr hr' hc hc' he => ?_⟩
  · rw [hs.heads]
    exact (htab.linked b).congr (hnext b)
  · obtain ⟨cell, ep, hcell, hep, hb⟩ := htab.filled b r hr
    obtain ⟨link, hlink⟩ := hs.found ⟨b, hr⟩ hcell
    refine ⟨_, ep, hlink, ?_, hb⟩
    rw [hs.endpoints]
    show h.endpoints (ctableScanRecord cell.cr).1.ep = some ep
    rw [scan_ep, hep]
  · obtain ⟨cell, -, hcell, -⟩ := htab.allocated hr
    obtain ⟨cell', -, hcell', -⟩ := htab.allocated hr'
    obtain ⟨link, hlink⟩ := hs.found hr hcell
    obtain ⟨link', hlink'⟩ := hs.found hr' hcell'
    rw [hlink] at hc
    rw [hlink'] at hc'
    cases hc
    cases hc'
    dsimp only at he
    rw [scan_ep, scan_ep] at he
    exact htab.owned r r' cell cell' hr hr' hcell hcell' he

/-- A record that is not on the purge list, after the purge loop. -/
theorem purged_cell (hs : ScanDone h (Chains.entries t) s) (htab : TableOk h t)
    (hp : Purged s.heap t (scanned h t .purge) h2) (hr : Chains.Mem t r)
    (hcell : h.records r = some cell) (hk : r ∉ scanned h t .purge) :
    (∃ next link, h2.records r = some ⟨(ctableScanRecord cell.cr).1, next, link⟩) ∧
      h2.link r = s.heap.link r ∧ h2.endpoints cell.cr.ep = h.endpoints cell.cr.ep := by
  obtain ⟨link, hlink⟩ := hs.found hr hcell
  obtain ⟨next, hnext⟩ := hp.kept r hk _ hlink
  refine ⟨⟨next, link, hnext⟩, ?_, ?_⟩
  · rw [link_eq hnext, link_eq hlink]
  · rw [hp.unreleased cell.cr.ep fun r' hr' c hc he => ?_, hs.endpoints]
    have heq := (hs.tableOk htab).owned r' r c _ (mem_scanned.mp hr').1 hr hc hlink
      (he.trans (scan_ep cell.cr).symm)
    exact hk (heq ▸ hr')

/-- The lists other than the purge list, after the purge loop. -/
theorem purged_list (hs : ScanDone h (Chains.entries t) s) (htab : TableOk h t)
    (hp : Purged s.heap t (scanned h t .purge) h2) (hk : k ≠ .none) (hk' : k ≠ .purge) :
    Linked.Segment h2.link (s.lists k) (scanned h t k) none := by
  refine (hs.lists k hk).congr fun r hr => ?_
  obtain ⟨cell, -, hcell, -⟩ := htab.allocated (mem_scanned.mp hr).1
  have hnot : r ∉ scanned h t .purge := fun hr' => hk' (scanned_disjoint hr hr')
  exact (purged_cell hs htab hp (mem_scanned.mp hr).1 hcell hnot).2.1

/-- A record after the purge and the timed loop. -/
theorem timed_cell (hs : ScanDone h (Chains.entries t) s) (htab : TableOk h t)
    (hp : Purged s.heap t (scanned h t .purge) h2) (hd : TimedOut h2 (scanned h t .timed) h3)
    (hr : Chains.Mem t r) (hcell : h.records r = some cell) (hk : r ∉ scanned h t .purge) :
    (∃ next link, h3.records r = some ⟨if r ∈ scanned h t .timed then
        crecordSetState (ctableScanRecord cell.cr).1 .timedout
      else (ctableScanRecord cell.cr).1, next, link⟩) ∧ h3.link r = s.heap.link r ∧
      h3.next r = h2.next r ∧ h3.endpoints cell.cr.ep = h.endpoints cell.cr.ep := by
  obtain ⟨⟨next, link, hrec⟩, hlink, hep⟩ := purged_cell hs htab hp hr hcell hk
  have hep' : h3.endpoints cell.cr.ep = h.endpoints cell.cr.ep := by rw [hd.endpoints, hep]
  by_cases ht : r ∈ scanned h t .timed
  · have hrec' := hd.timed r ht _ hrec
    refine ⟨⟨next, link, by rw [if_pos ht, hrec']⟩, ?_, ?_, hep'⟩
    · rw [← hlink, link_eq hrec', link_eq hrec]
    · rw [next_eq hrec', next_eq hrec]
  · have hrec' := (hd.todo r ht).trans hrec
    refine ⟨⟨next, link, by rw [if_neg ht, hrec']⟩, ?_, ?_, hep'⟩
    · rw [← hlink, link_eq hrec', link_eq hrec]
    · rw [next_eq hrec', next_eq hrec]

/-- It has its endpoint. -/
theorem timed_ep (hs : ScanDone h (Chains.entries t) s) (htab : TableOk h t)
    (hp : Purged s.heap t (scanned h t .purge) h2) (hd : TimedOut h2 (scanned h t .timed) h3)
    (hr : Chains.Mem t r) (hcell : h.records r = some cell) (hk : r ∉ scanned h t .purge)
    {c : RecordCell} (hc : h3.records r = some c) : c.cr.ep = cell.cr.ep := by
  obtain ⟨⟨next, link, hrec⟩, -⟩ := timed_cell hs htab hp hd hr hcell hk
  rw [hrec] at hc
  cases hc
  dsimp only
  split
  · exact scan_ep cell.cr
  · exact scan_ep cell.cr

/-- The loops before the sending ones do what the specification says of the records. -/
theorem tickDone_of_phases (hs : ScanDone h (Chains.entries t) s) (htab : TableOk h t)
    (hp : Purged s.heap t (scanned h t .purge) h2) (hd : TimedOut h2 (scanned h t .timed) h3)
    {out : List Sent} (hout : out = h.sent ++
      ((scanned h t .ping).flatMap (tickSends h) ++ (scanned h t .retry).flatMap (tickSends h))) :
    TickDone h t { h3 with sent := out } := by
  have hmem : ∀ {r}, Chains.Mem (remaining h t) r →
      Chains.Mem t r ∧ r ∉ scanned h t .purge := by
    rintro r ⟨b, hb⟩
    obtain ⟨hb, hnot⟩ := (mem_remaining b r).mp hb
    exact ⟨⟨b, hb⟩, hnot⟩
  have hstate : ∀ r cell, Chains.Mem t r → h.records r = some cell →
      (r ∈ scanned h t .purge ↔ cell.cr.state = .timedout) := by
    intro r cell hr hcell
    rw [mem_scanned, onList_eq hcell, beq_iff_eq, scan_purge_iff]
    exact and_iff_right hr
  refine ⟨⟨fun b => ?_, fun b r hb => ?_, fun r r' c c' hr hr' hc hc' he => ?_⟩,
    fun r cell hr hcell ht => ?_, fun r cell ep c hr hcell hep hc => ?_, fun r hr => ?_, hout, ?_⟩
  · show Linked.Segment h3.next (h3.heads b) _ none
    have hchain : remaining h t b = (t b).filter fun r => decide (r ∉ scanned h t .purge) := by
      refine List.filter_congr fun r hr => ?_
      by_cases hx : onList h .purge r = true
      · have hin : r ∈ scanned h t .purge := mem_scanned.mpr ⟨⟨b, hr⟩, hx⟩
        simp [hx, hin]
      · have hin : r ∉ scanned h t .purge := fun hin => hx (mem_scanned.mp hin).2
        simp [hx, hin]
    rw [hd.heads, hchain]
    refine (hp.linked b).congr fun r hr => ?_
    obtain ⟨hrb, hnot⟩ := List.mem_filter.mp hr
    obtain ⟨cell, -, hcell, -⟩ := htab.allocated ⟨b, hrb⟩
    exact (timed_cell hs htab hp hd ⟨b, hrb⟩ hcell (of_decide_eq_true hnot)).2.2.1
  · obtain ⟨hrb, hnot⟩ := (mem_remaining b r).mp hb
    obtain ⟨cell, ep, hcell, hep, hbucket⟩ := htab.filled b r hrb
    obtain ⟨⟨next, link, hrec⟩, -, -, hep'⟩ := timed_cell hs htab hp hd ⟨b, hrb⟩ hcell hnot
    refine ⟨_, ep, hrec, ?_, hbucket⟩
    show h3.endpoints _ = some ep
    rw [timed_ep hs htab hp hd ⟨b, hrb⟩ hcell hnot hrec, hep', hep]
  · obtain ⟨hrt, hnot⟩ := hmem hr
    obtain ⟨hrt', hnot'⟩ := hmem hr'
    obtain ⟨cell, -, hcell, -⟩ := htab.allocated hrt
    obtain ⟨cell', -, hcell', -⟩ := htab.allocated hrt'
    have he' : cell.cr.ep = cell'.cr.ep := by
      rw [← timed_ep hs htab hp hd hrt hcell hnot hc,
        ← timed_ep hs htab hp hd hrt' hcell' hnot' hc', he]
    exact htab.owned r r' cell cell' hrt hrt' hcell hcell' he'
  · have hin := (hstate r cell hr hcell).mpr ht
    obtain ⟨link, hlink⟩ := hs.found hr hcell
    have hfreed := hp.freed r hin
    have hnot : r ∉ scanned h t .timed := fun hx => by
      have hk := scanned_disjoint hin hx
      cases hk
    refine ⟨(hd.todo r hnot).trans hfreed, ?_⟩
    show h3.endpoints cell.cr.ep = none
    rw [hd.endpoints, ← scan_ep cell.cr]
    exact hp.released r hin _ hlink
  · have hlist := timerRecord_eq ep.subport cell.cr
    have hnot : r ∉ scanned h t .purge := fun hin => by
      rw [mem_scanned, onList_eq hcell, beq_iff_eq] at hin
      rw [hlist, hin.2] at hc
      cases hc
    obtain ⟨⟨next, link, hrec⟩, -, -, hep'⟩ := timed_cell hs htab hp hd hr hcell hnot
    refine ⟨⟨next, link, ?_⟩, hep'.trans hep⟩
    show h3.records r = _
    rw [hrec]
    have hkind : ∀ k, r ∈ scanned h t k ↔ (ctableScanRecord cell.cr).2 = k := fun k => by
      rw [mem_scanned, onList_eq hcell, beq_iff_eq]
      exact and_iff_right hr
    rw [hlist] at hc
    cases hk : (ctableScanRecord cell.cr).2 with
    | purge => exact absurd ((hkind _).mpr hk) hnot
    | timed =>
      rw [hk] at hc
      cases hc
      rw [if_pos ((hkind _).mpr hk)]
    | ping =>
      rw [hk] at hc
      cases hc
      rw [if_neg fun hx => by rw [hkind, hk] at hx; cases hx]
    | retry =>
      rw [hk] at hc
      cases hc
      rw [if_neg fun hx => by rw [hkind, hk] at hx; cases hx]
    | none =>
      rw [hk] at hc
      cases hc
      rw [if_neg fun hx => by rw [hkind, hk] at hx; cases hx]
  · have hnot : ∀ k, r ∉ scanned h t k := fun k hx => hr (mem_scanned.mp hx).1
    show h3.records r = _
    rw [hd.todo r (hnot _), hp.others r hr, hs.todo r fun hx => hr (Chains.mem_entries.mp hx)]
  · exact (hd.fault.trans hp.fault).trans hs.fault

/-- The records that the sending loops find. -/
theorem sending_cell (hs : ScanDone h (Chains.entries t) s) (htab : TableOk h t)
    (hp : Purged s.heap t (scanned h t .purge) h2) (hd : TimedOut h2 (scanned h t .timed) h3)
    (hr : r ∈ scanned h t k) (hk : k = .ping ∨ k = .retry) :
    ∃ cell ep next link, h.records r = some cell ∧ h.endpoints cell.cr.ep = some ep ∧
      (ctableScanRecord cell.cr).2 = k ∧
      h3.records r = some ⟨(ctableScanRecord cell.cr).1, next, link⟩ ∧
      h3.endpoints (ctableScanRecord cell.cr).1.ep = some ep ∧
      tickSends h r = (timerRecord ep.subport cell.cr).2 := by
  obtain ⟨hmem, hlist⟩ := mem_scanned.mp hr
  obtain ⟨cell, ep, hcell, hep⟩ := htab.allocated hmem
  have hother : ∀ k', k' ≠ k → r ∉ scanned h t k' := fun k' hne hx => hne (scanned_disjoint hx hr)
  have hpurge : r ∉ scanned h t .purge := hother _ (by rcases hk with rfl | rfl <;> decide)
  have htimed : r ∉ scanned h t .timed := hother _ (by rcases hk with rfl | rfl <;> decide)
  obtain ⟨⟨next, link, hrec⟩, -, -, hep'⟩ := timed_cell hs htab hp hd hmem hcell hpurge
  rw [if_neg htimed] at hrec
  rw [onList_eq hcell, beq_iff_eq] at hlist
  refine ⟨cell, ep, next, link, hcell, hep, hlist, hrec, ?_, ?_⟩
  · rw [scan_ep, hep', hep]
  · simp only [tickSends, hcell, hep]

/-- **One tick.**  The loops end, and every record has got what `timerRecord` says. -/
theorem timerTick_spec (htab : TableOk h t) (hfuel : (Chains.entries t).length ≤ fuel) :
    ∃ h', timerTick fuel h = some h' ∧ TickDone h t h' := by
  obtain ⟨s, hscan, hs⟩ := ctableScan_spec htab hfuel
  have hlen : ∀ k, (scanned h t k).length ≤ fuel := fun k =>
    Nat.le_trans (length_scanned_le h t k) hfuel
  obtain ⟨h2, hpurge, hp⟩ := purge_spec (hs.tableOk htab) (hs.lists .purge (by decide))
    (fun r hr => (mem_scanned.mp hr).1) (hlen .purge) hfuel
  have hall : ∀ r ∈ scanned h t .timed, (h2.records r).isSome := fun r hr => by
    obtain ⟨cell, -, hcell, -⟩ := htab.allocated (mem_scanned.mp hr).1
    have hnot : r ∉ scanned h t .purge := fun hx => by
      have hk := scanned_disjoint hr hx
      cases hk
    obtain ⟨⟨next, link, hrec⟩, -⟩ := purged_cell hs htab hp (mem_scanned.mp hr).1 hcell hnot
    rw [hrec]
    rfl
  obtain ⟨h3, htimed, hd⟩ := timed_spec (purged_list hs htab hp (by decide) (by decide)) hall
    (hlen .timed)
  have hlists : ∀ k, k = .ping ∨ k = .retry →
      Linked.Segment h3.link (s.lists k) (scanned h t k) none := by
    intro k hk
    have hne : k ≠ .none ∧ k ≠ .purge := by rcases hk with rfl | rfl <;> decide
    refine (purged_list hs htab hp hne.1 hne.2).congr fun r hr => ?_
    obtain ⟨cell, -, hcell, -⟩ := htab.allocated (mem_scanned.mp hr).1
    have hnot : r ∉ scanned h t .purge := fun hx => hne.2 (scanned_disjoint hr hx)
    rw [(timed_cell hs htab hp hd (mem_scanned.mp hr).1 hcell hnot).2.1,
      (purged_cell hs htab hp (mem_scanned.mp hr).1 hcell hnot).2.1]
  have hping : Linked.drain Heap.link Heap.pingOne fuel (s.lists .ping) h3 =
      some { h3 with sent := h3.sent ++ (scanned h t .ping).flatMap (tickSends h) } := by
    refine send_spec (fun s' r hr hrec hep => ?_) (fun s' s'' r hx => ?_) (hlists _ (.inl rfl))
      (hlen _)
    · obtain ⟨cell, ep, next, link, -, -, hlist, hcell, hep', hsend⟩ :=
        sending_cell hs htab hp hd hr (.inl rfl)
      rw [hsend, timerRecord_eq, hlist]
      simp only [Heap.pingOne, hrec, hcell, hep, hep']
    · unfold Heap.pingOne at hx
      split at hx
      · cases hx
        rfl
      split at hx
      · cases hx
        rfl
      · cases hx
        rfl
  have hretry : Linked.drain Heap.link Heap.retryOne fuel (s.lists .retry)
      { h3 with sent := h3.sent ++ (scanned h t .ping).flatMap (tickSends h) } =
      some { h3 with sent := h3.sent ++ (scanned h t .ping).flatMap (tickSends h) ++
        (scanned h t .retry).flatMap (tickSends h) } := by
    refine send_spec (fun s' r hr hrec hep => ?_) (fun s' s'' r hx => ?_) (hlists _ (.inr rfl))
      (hlen _)
    · obtain ⟨cell, ep, next, link, -, -, hlist, hcell, hep', hsend⟩ :=
        sending_cell hs htab hp hd hr (.inr rfl)
      have hrec' : s'.records r = some ⟨(ctableScanRecord cell.cr).1, next, link⟩ := by
        rw [hrec]
        exact hcell
      have hend' : s'.endpoints (ctableScanRecord cell.cr).1.ep = some ep := by
        rw [hep]
        exact hep'
      rw [hsend, timerRecord_eq, hlist]
      simp only [Heap.retryOne, hrec', hend']
      split
      · rfl
      · rw [List.append_nil]
    · unfold Heap.retryOne at hx
      split at hx
      · cases hx
        rfl
      split at hx
      · split at hx
        · cases hx
          rfl
        · cases hx
          rfl
      · cases hx
        rfl
  refine ⟨{ h3 with sent := h3.sent ++ (scanned h t .ping).flatMap (tickSends h) ++
    (scanned h t .retry).flatMap (tickSends h) }, ?_, tickDone_of_phases hs htab hp hd ?_⟩
  · rw [timerTick, hscan, Option.bind_some, hpurge, Option.bind_some, htimed, Option.bind_some,
      hping, Option.bind_some, hretry]
  · rw [hd.sent, hp.sent, hs.sent, List.append_assoc]

end Tick

/-! ## In terms of the counters -/

/-- The counters that `ctable_scan` runs in the record's state are not 0. -/
structure CountersOk (c : CRecord) : Prop where
  attempts : c.state.awaitsAck = true → 1 ≤ c.ticksLeft ∧ 1 ≤ c.nattempts
  pings : c.state ≠ .timedout → c.state.awaitsAck = false →
    1 ≤ c.ticksTilPing ∧ 1 ≤ c.pingsTilPurge

/-- The last attempt or the last ping expires with this tick. -/
def Expires (c : CRecord) : Prop :=
  (c.state.awaitsAck = true ∧ c.ticksLeft = 1 ∧ c.nattempts = 1) ∨
    (c.state ≠ .timedout ∧ c.state.awaitsAck = false ∧ c.ticksTilPing = 1 ∧ c.pingsTilPurge = 1)

/-- `ticksLeft` reaches 0 with attempts left. -/
def Retries (c : CRecord) : Prop :=
  c.state.awaitsAck = true ∧ c.ticksLeft = 1 ∧ c.nattempts ≠ 1

/-- `ticksTilPing` reaches 0 with pings left. -/
def Pings (c : CRecord) : Prop :=
  c.state ≠ .timedout ∧ c.state.awaitsAck = false ∧ c.ticksTilPing = 1 ∧ c.pingsTilPurge ≠ 1

/-- What a tick makes of a record that is not `ST_TIMEDOUT`.  `ticks` is an `unsigned short`. -/
structure TickOutcome (c c' : CRecord) : Prop where
  timedout : c'.state = .timedout ↔ Expires c
  retried : Retries c → c' = { c with
    nattempts := c.nattempts - 1
    ticks := c.ticks * 2 % 65536
    ticksLeft := c.ticks * 2 % 65536 }
  pinged : Pings c → c' = { c with
    ticksTilPing := TICKS_BETWEEN_PINGS
    pingsTilPurge := c.pingsTilPurge - 1 }
  counted : ¬ Expires c → ¬ Retries c → ¬ Pings c → c' =
    if c.state.awaitsAck then { c with ticksLeft := c.ticksLeft - 1 }
    else { c with ticksTilPing := c.ticksTilPing - 1 }

section Counters

variable {c : CRecord}

theorem dec16_of_pos {x : Nat} (h : 1 ≤ x) : dec16 x = x - 1 := by
  unfold dec16
  rw [if_neg (Nat.ne_of_gt h)]

/-- **The list of a record and its counters**, for records that await an acknowledgement and for
the others. -/
theorem scan_awaiting (hc : CountersOk c) (ha : c.state.awaitsAck = true) :
    ctableScanRecord c =
      if c.ticksLeft = 1 then
        if c.nattempts = 1 then ({ c with ticksLeft := 0, nattempts := 0 }, .timed)
        else ({ c with
          ticksLeft := c.ticks * 2 % 65536
          nattempts := c.nattempts - 1
          ticks := c.ticks * 2 % 65536 }, .retry)
      else ({ c with ticksLeft := c.ticksLeft - 1 }, .none) := by
  obtain ⟨hticks, hattempts⟩ := hc.attempts ha
  have ht : ¬ c.state = .timedout := fun ht => by
    rw [ht] at ha
    cases ha
  unfold ctableScanRecord
  simp only [if_neg ht, if_pos ha, dec16_of_pos hticks, dec16_of_pos hattempts]
  have h1 : c.ticksLeft - 1 = 0 ↔ c.ticksLeft = 1 := by omega
  have h2 : c.nattempts - 1 = 0 ↔ c.nattempts = 1 := by omega
  by_cases hone : c.ticksLeft = 1
  · by_cases htwo : c.nattempts = 1
    · simp [hone, htwo]
    · simp [hone, htwo, h2]
  · simp [hone, h1]

theorem scan_idling (hc : CountersOk c) (ht : c.state ≠ .timedout)
    (ha : c.state.awaitsAck = false) :
    ctableScanRecord c =
      if c.ticksTilPing = 1 then
        if c.pingsTilPurge = 1 then ({ c with ticksTilPing := 0, pingsTilPurge := 0 }, .timed)
        else ({ c with
          ticksTilPing := TICKS_BETWEEN_PINGS
          pingsTilPurge := c.pingsTilPurge - 1 }, .ping)
      else ({ c with ticksTilPing := c.ticksTilPing - 1 }, .none) := by
  obtain ⟨hticks, hpings⟩ := hc.pings ht ha
  have ha' : ¬ c.state.awaitsAck = true := by simp [ha]
  unfold ctableScanRecord
  simp only [if_neg ht, if_neg ha', dec16_of_pos hticks, dec16_of_pos hpings]
  have h1 : c.ticksTilPing - 1 = 0 ↔ c.ticksTilPing = 1 := by omega
  have h2 : c.pingsTilPurge - 1 = 0 ↔ c.pingsTilPurge = 1 := by omega
  by_cases hone : c.ticksTilPing = 1
  · by_cases htwo : c.pingsTilPurge = 1
    · simp [hone, htwo]
    · simp [hone, htwo, h2]
  · simp [hone, h1]

/-- Which list a record gets onto. -/
theorem scan_list (hc : CountersOk c) :
    ((ctableScanRecord c).2 = .timed ↔ Expires c) ∧
      ((ctableScanRecord c).2 = .retry ↔ Retries c) ∧
      ((ctableScanRecord c).2 = .ping ↔ Pings c) := by
  unfold Expires Retries Pings
  by_cases ht : c.state = .timedout
  · have hscan := (scan_purge_iff c).mpr ht
    rw [hscan, ht]
    refine ⟨?_, ?_, ?_⟩ <;> simp [State.awaitsAck]
  cases ha : c.state.awaitsAck with
  | true =>
    rw [scan_awaiting hc ha]
    by_cases hone : c.ticksLeft = 1
    · by_cases htwo : c.nattempts = 1
      · simp [hone, htwo]
      · simp [hone, htwo]
    · simp [hone]
  | false =>
    rw [scan_idling hc ht ha]
    by_cases hone : c.ticksTilPing = 1
    · by_cases htwo : c.pingsTilPurge = 1
      · simp [hone, htwo, ht]
      · simp [hone, htwo, ht]
    · simp [hone]

/-- **What a tick makes of one record.** -/
theorem timerRecord_outcome (sp : Nat) (hc : CountersOk c) (ht : c.state ≠ .timedout) :
    ∃ c', (timerRecord sp c).1 = some c' ∧ TickOutcome c c' := by
  rw [timerRecord_eq]
  cases ha : c.state.awaitsAck with
  | true =>
    rw [scan_awaiting hc ha]
    by_cases hone : c.ticksLeft = 1
    · by_cases htwo : c.nattempts = 1
      · refine ⟨crecordSetState { c with ticksLeft := 0, nattempts := 0 } .timedout,
          by simp [hone, htwo], ?_, ?_, ?_, ?_⟩ <;>
          simp [Expires, Retries, Pings, ha, hone, htwo]
      · refine ⟨{ c with
          ticksLeft := c.ticks * 2 % 65536
          nattempts := c.nattempts - 1
          ticks := c.ticks * 2 % 65536 }, by simp [hone, htwo], ?_, ?_, ?_, ?_⟩ <;>
          simp [Expires, Retries, Pings, ha, hone, htwo, ht]
    · refine ⟨{ c with ticksLeft := c.ticksLeft - 1 }, by simp [hone], ?_, ?_, ?_, ?_⟩ <;>
        simp [Expires, Retries, Pings, ha, hone, ht]
  | false =>
    rw [scan_idling hc ht ha]
    by_cases hone : c.ticksTilPing = 1
    · by_cases htwo : c.pingsTilPurge = 1
      · refine ⟨crecordSetState { c with ticksTilPing := 0, pingsTilPurge := 0 } .timedout,
          by simp [hone, htwo], ?_, ?_, ?_, ?_⟩ <;>
          simp [Expires, Retries, Pings, ha, hone, htwo, ht]
      · refine ⟨{ c with
          ticksTilPing := TICKS_BETWEEN_PINGS
          pingsTilPurge := c.pingsTilPurge - 1 }, by simp [hone, htwo], ?_, ?_, ?_, ?_⟩ <;>
          simp [Expires, Retries, Pings, ha, hone, htwo, ht]
    · refine ⟨{ c with ticksTilPing := c.ticksTilPing - 1 }, by simp [hone], ?_, ?_, ?_, ?_⟩ <;>
        simp [Expires, Retries, Pings, ha, hone, ht]

end Counters

/-- Record `r` is in the table and `P` holds of it. -/
def Found (h : Heap) (t : CTable Nat) (P : CRecord → Prop) (r : Nat) : Prop :=
  Chains.Mem t r ∧ ∃ cell, h.records r = some cell ∧ P cell.cr

/-- The lists that `ctable_scan` returns: disjoint, each what the comment in `ctable.h` says. -/
structure ListsExact (h : Heap) (t : CTable Nat) (s : Scan) (lists : ScanList → List Nat) :
    Prop where
  linked : ∀ k, k ≠ .none → Linked.Segment s.heap.link (s.lists k) (lists k) none
  nodup : ∀ k, (lists k).Nodup
  apart : ∀ k k' r, r ∈ lists k → r ∈ lists k' → k = k'
  purge : ∀ r, r ∈ lists .purge ↔ Found h t (fun c => c.state = .timedout) r
  timed : ∀ r, r ∈ lists .timed ↔ Found h t Expires r
  retry : ∀ r, r ∈ lists .retry ↔ Found h t Retries r
  ping : ∀ r, r ∈ lists .ping ↔ Found h t Pings r

/-- The `PING` for record `r`. -/
def pingOf (h : Heap) (r : Nat) : List Sent :=
  match h.records r with
  | none => []
  | some cell => (h.endpoints cell.cr.ep).toList.map fun ep =>
      ⟨.record cell.cr.ep, pingPayload ep.subport cell.cr⟩

/-- The payload of record `r`. -/
def payloadOf (h : Heap) (r : Nat) : List Sent :=
  (h.records r).toList.map fun cell => resend cell.cr

/-- **What one tick does to the table.** -/
structure TickExact (h : Heap) (t : CTable Nat) (lists : ScanList → List Nat) (h' : Heap) :
    Prop where
  chains : TableOk h' (remaining h t)
  kept : ∀ b r, r ∈ remaining h t b ↔ r ∈ t b ∧ r ∉ lists .purge
  destroyed : ∀ r ∈ lists .purge, h'.records r = none ∧
    ∀ cell, h.records r = some cell → h'.endpoints cell.cr.ep = none
  outcome : ∀ r cell, Chains.Mem t r → r ∉ lists .purge → h.records r = some cell →
    ∃ cell', h'.records r = some cell' ∧ TickOutcome cell.cr cell'.cr
  others : ∀ r, ¬ Chains.Mem t r → h'.records r = h.records r
  sent : h'.sent = h.sent ++
    ((lists .ping).flatMap (pingOf h) ++ (lists .retry).flatMap (payloadOf h))
  fault : h'.fault = h.fault

section Exact

variable {h h' : Heap} {t : CTable Nat} {s : Scan} {r : Nat} {fuel : Nat}

theorem mem_scanned_iff {P : CRecord → Prop} {k : ScanList} (htab : TableOk h t)
    (hP : ∀ r cell, Chains.Mem t r → h.records r = some cell →
      ((ctableScanRecord cell.cr).2 = k ↔ P cell.cr)) (r : Nat) :
    r ∈ scanned h t k ↔ Found h t P r := by
  rw [mem_scanned]
  constructor
  · rintro ⟨hr, hk⟩
    obtain ⟨cell, -, hcell, -⟩ := htab.allocated hr
    rw [onList_eq hcell, beq_iff_eq] at hk
    exact ⟨hr, cell, hcell, (hP r cell hr hcell).mp hk⟩
  · rintro ⟨hr, cell, hcell, hp⟩
    refine ⟨hr, ?_⟩
    rw [onList_eq hcell, beq_iff_eq]
    exact (hP r cell hr hcell).mpr hp

/-- What is sent for a record of the ping list and of the retry list. -/
theorem tickSends_eq (htab : TableOk h t)
    (hcount : ∀ r cell, Chains.Mem t r → h.records r = some cell → CountersOk cell.cr) :
    (∀ r ∈ scanned h t .ping, tickSends h r = pingOf h r) ∧
      ∀ r ∈ scanned h t .retry, tickSends h r = payloadOf h r := by
  constructor
  · intro r hr
    obtain ⟨hmem, hlist⟩ := mem_scanned.mp hr
    obtain ⟨cell, ep, hcell, hep⟩ := htab.allocated hmem
    have hc := hcount r cell hmem hcell
    rw [onList_eq hcell, beq_iff_eq] at hlist
    obtain ⟨ht, ha, hone, htwo⟩ := (scan_list hc).2.2.mp hlist
    simp only [tickSends, pingOf, hcell, hep]
    rw [timerRecord_eq, scan_idling hc ht ha, if_pos hone, if_neg htwo]
    rfl
  · intro r hr
    obtain ⟨hmem, hlist⟩ := mem_scanned.mp hr
    obtain ⟨cell, ep, hcell, hep⟩ := htab.allocated hmem
    have hc := hcount r cell hmem hcell
    rw [onList_eq hcell, beq_iff_eq] at hlist
    obtain ⟨ha, hone, htwo⟩ := (scan_list hc).2.1.mp hlist
    simp only [tickSends, payloadOf, hcell, hep]
    rw [timerRecord_eq, scan_awaiting hc ha, if_pos hone, if_neg htwo]
    simp only [if_pos ha]
    rfl

/-- **One tick does exactly what its specification says**, on every table whose chains and
counters are in order. -/
theorem tick_exact (htab : TableOk h t)
    (hcount : ∀ r cell, Chains.Mem t r → h.records r = some cell → CountersOk cell.cr)
    (hfuel : (Chains.entries t).length ≤ fuel) :
    ∃ s lists h', ctableScan fuel h = some s ∧ ListsExact h t s lists ∧
      timerTick fuel h = some h' ∧ TickExact h t lists h' := by
  obtain ⟨s, hscan, hs⟩ := ctableScan_spec htab hfuel
  obtain ⟨h', htick, hd⟩ := timerTick_spec htab hfuel
  have hpurge : ∀ r, r ∈ scanned h t .purge ↔ Found h t (fun c => c.state = .timedout) r :=
    mem_scanned_iff htab fun r cell _ _ => scan_purge_iff cell.cr
  refine ⟨s, scanned h t, h', hscan, ⟨hs.lists, fun k => ?_, fun k k' r => scanned_disjoint,
    hpurge, ?_, ?_, ?_⟩, htick, hd.table, fun b r => ?_, fun r hr => ?_,
    fun r cell hr hnot hcell => ?_, hd.others, ?_, hd.fault⟩
  · rw [scanned, List.nodup_reverse]
    exact htab.nodup_entries.filter _
  · exact mem_scanned_iff htab fun r cell hr hcell => (scan_list (hcount r cell hr hcell)).1
  · exact mem_scanned_iff htab fun r cell hr hcell => (scan_list (hcount r cell hr hcell)).2.1
  · exact mem_scanned_iff htab fun r cell hr hcell => (scan_list (hcount r cell hr hcell)).2.2
  · exact mem_remaining b r
  · obtain ⟨hmem, cell, hcell, ht⟩ := (hpurge r).mp hr
    obtain ⟨hfreed, hep⟩ := hd.destroyed r cell hmem hcell ht
    refine ⟨hfreed, fun cell' hcell' => ?_⟩
    rw [hcell] at hcell'
    cases hcell'
    exact hep
  · have ht : cell.cr.state ≠ .timedout := fun ht => hnot ((hpurge r).mpr ⟨hr, cell, hcell, ht⟩)
    obtain ⟨cell', ep, hcell', hep⟩ := htab.allocated hr
    rw [hcell] at hcell'
    cases hcell'
    obtain ⟨c, hc, hout⟩ := timerRecord_outcome ep.subport (hcount r cell hr hcell) ht
    obtain ⟨⟨next, link, hrec⟩, -⟩ := hd.ticked r cell ep c hr hcell hep hc
    exact ⟨_, hrec, hout⟩
  · obtain ⟨hping, hretry⟩ := tickSends_eq htab hcount
    rw [hd.sent, List.flatMap_congr hping, List.flatMap_congr hretry]

end Exact

/-- A chain of two records: the first is `ST_TIMEDOUT`, the second is to be sent again. -/
def twoRecords : Heap where
  records := fun r =>
    if r = 0 then some ⟨crecordSetState (crecordCreate 0 1) .timedout, some 1, none⟩
    else if r = 1 then
      some ⟨crecordSetState (crecordSetPayload (crecordCreate 1 1) [7] 1 2 1) .querySent, none, none⟩
    else none
  endpoints := fun e =>
    if e ≤ 1 then some ⟨Vector.replicate ADDR_SIZE 0, 31 * e⟩ else none
  heads := fun b => if b.val = 0 then some 0 else none
  sent := []
  fault := false

/-- Its chains. -/
def twoRecordsTable : CTable Nat := fun b => if b.val = 0 then [0, 1] else []

theorem mem_twoRecords {b : Fin CTABLE_SIZE} {r : Nat} (hr : r ∈ twoRecordsTable b) :
    b.val = 0 ∧ (r = 0 ∨ r = 1) := by
  unfold twoRecordsTable at hr
  split at hr
  · rename_i hb
    exact ⟨hb, by simpa using hr⟩
  · cases hr

theorem twoRecords_ok : TableOk twoRecords twoRecordsTable := by
  refine ⟨fun b => ?_, fun b r hr => ?_, fun r r' c c' hr hr' hc hc' he => ?_⟩
  · unfold twoRecordsTable
    split
    · rename_i hb
      refine ⟨?_, rfl, rfl⟩
      simp [twoRecords, hb]
    · rename_i hb
      simp [twoRecords, hb]
  · obtain ⟨hb, rfl | rfl⟩ := mem_twoRecords hr
    · exact ⟨_, ⟨Vector.replicate ADDR_SIZE 0, 0⟩, rfl, rfl, Fin.ext (by rw [hb]; decide)⟩
    · exact ⟨_, ⟨Vector.replicate ADDR_SIZE 0, 31⟩, rfl, rfl, Fin.ext (by rw [hb]; decide)⟩
  · obtain ⟨b, hb⟩ := hr
    obtain ⟨b', hb'⟩ := hr'
    obtain ⟨-, rfl | rfl⟩ := mem_twoRecords hb
    · obtain ⟨-, rfl | rfl⟩ := mem_twoRecords hb'
      · rfl
      · cases hc
        cases hc'
        cases he
    · obtain ⟨-, rfl | rfl⟩ := mem_twoRecords hb'
      · cases hc
        cases hc'
        cases he
      · rfl

theorem tick_exact_twoRecords :
    ∃ s lists h', ctableScan 2 twoRecords = some s ∧ ListsExact twoRecords twoRecordsTable s lists ∧
      timerTick 2 twoRecords = some h' ∧ TickExact twoRecords twoRecordsTable lists h' := by
  refine tick_exact twoRecords_ok (fun r cell hr hcell => ?_) (by decide)
  obtain ⟨b, hb⟩ := hr
  obtain ⟨-, rfl | rfl⟩ := mem_twoRecords hb
  · cases hcell
    exact ⟨fun h => (by cases h), fun h => absurd rfl h⟩
  · cases hcell
    exact ⟨fun _ => ⟨by decide, by decide⟩, fun _ h => (by cases h)⟩

end Hwdb.Rpc
