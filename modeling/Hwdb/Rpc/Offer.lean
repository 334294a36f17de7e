import Hwdb.Lib.Run
import Hwdb.Rpc.Stable

/-!
# Offering a service from several threads (`stable.c`, `stable_create`; `srpc.c`, `rpc_offer`)

`stable_create` looks the name up in one critical section and pushes its record in another; it
allocates in between.  Other threads, and the reader with its `CONNECT`s, run where they like.

* `Offers`, `Offers.next` — the table with the calls that are between their two sections.
* `OfferedOnce` — one record for a name, in the table and among those returned; the connections
  accepted for the name have it as their service.
* `Alone` — no call looks up a name while another call is creating it.
* `offered_once` — runs whose steps are `Alone` offer every name once.
-/

set_option autoImplicit false

namespace Hwdb.Rpc

open Hwdb.Lib

/-- `creating` has the threads that are between the sections, each with the record it allocated;
`returned` the records that `rpc_offer` returned, `accepted` the accepted `CONNECT`s with their
`cr->svc`; `fault` is set by an access outside of `stable`. -/
structure Offers where
  table : STable
  creating : List (Nat × SRecord)
  returned : List SRecord
  accepted : List (ServiceName × SRecord)
  fault : Bool

namespace Offers

def init : Offers := ⟨stableInit, [], [], [], false⟩

end Offers

inductive OfferAct where
  /-- The thread calls `stable_create` and gets to the end of its lookup; `alloc` tells whether
  the allocations succeed. -/
  | lookup (thread : Nat) (name : ServiceName) (alloc : Bool)
  /-- The second section; the call returns its record. -/
  | push (thread : Nat)
  /-- `reader` handles a `CONNECT`. -/
  | connect (name : ServiceName)

/-- One step; a thread runs one call at a time. -/
def Offers.next (s : Offers) : OfferAct → Option Offers
  | .lookup thread name alloc =>
    if s.fault || (s.creating.lookup thread).isSome then none
    else
      match stableLookup s.table name with
      | none => some { s with fault := true }
      | some (some _) => some s
      | some none =>
        if alloc then
          some { s with
            table := { s.table with fresh := s.table.fresh + 1 }
            creating := s.creating ++ [(thread, ⟨s.table.fresh, name⟩)] }
        else some s
  | .push thread =>
    if s.fault then none
    else
      match s.creating.lookup thread with
      | none => none
      | some r =>
        match stablePush s.table r with
        | none => some { s with fault := true }
        | some table => some { s with
            table := table
            creating := s.creating.erase (thread, r)
            returned := s.returned ++ [r] }
  | .connect name =>
    if s.fault then none
    else
      match stableLookup s.table name with
      | none => some { s with fault := true }
      | some none => some s
      | some (some r) => some { s with accepted := s.accepted ++ [(name, r)] }

def offerSystem : System Offers OfferAct := ⟨Offers.init, Offers.next⟩

/-- **A name is offered at most once**, and its connections are served from the record that was
returned. -/
structure OfferedOnce (s : Offers) : Prop where
  once : (s.returned.map (·.sName)).Nodup
  distinct : ((Chains.entries s.table.chains).map (·.sName)).Nodup
  served : ∀ name r, (name, r) ∈ s.accepted → r.sName = name ∧ r ∈ s.returned ∧
    ∀ r' ∈ s.returned, r'.sName = name → r' = r
  fault : s.fault = false

/-- The name has an index, and no other call is creating it. -/
def Alone (s : Offers) : OfferAct → Prop
  | .lookup _ name _ => HashFits name ∧ ∀ c ∈ s.creating, c.2.sName ≠ name
  | .push _ => True
  | .connect name => HashFits name

instance (s : Offers) : (act : OfferAct) → Decidable (Alone s act)
  | .lookup _ _ _ => inferInstanceAs (Decidable (_ ∧ _))
  | .push _ => inferInstanceAs (Decidable True)
  | .connect name => inferInstanceAs (Decidable (HashFits name))

/-- The chain of a name that has one. -/
def stableBucket (name : ServiceName) : Fin 13 := (stableIndex name).getD 0

/-- What `Alone` keeps: the table has the records that were returned, each in its chain; the
names being created are not in the table, and no two calls create the same. -/
structure OfferInv (s : Offers) : Prop where
  placed : Chains.Placed SRecord.sName stableBucket s.table.chains
  fits : ∀ r, (r ∈ s.returned ∨ ∃ i, (i, r) ∈ s.creating) → HashFits r.sName
  returned : ∀ r, Chains.Mem s.table.chains r ↔ r ∈ s.returned
  names : (s.returned.map (·.sName) ++ s.creating.map (·.2.sName)).Nodup
  accepted : ∀ name r, (name, r) ∈ s.accepted → r.sName = name ∧ r ∈ s.returned
  fault : s.fault = false

section Offers

variable {s s' : Offers} {t : STable} {name : ServiceName} {r : SRecord} {act : OfferAct}

/-! ## The sections as operations on a table of chains -/

theorem stableIndex_eq (hfits : HashFits name) : stableIndex name = some (stableBucket name) := by
  obtain ⟨hv, hhv⟩ := Option.isSome_iff_exists.mp (stableIndex_isSome.mpr hfits)
  rw [stableBucket, hhv, Option.getD_some]

theorem stablePush_eq (hfits : HashFits r.sName) :
    stablePush t r =
      some { t with chains := Chains.insert SRecord.sName stableBucket t.chains r } := by
  rw [stablePush, stableIndex_eq hfits]
  rfl

theorem stableLookup_eq (hfits : HashFits name) :
    stableLookup t name = some (Chains.lookup SRecord.sName stableBucket
      (fun k k' => decide (k' = k)) t.chains name) := by
  rw [stableLookup, stableIndex_eq hfits]
  rfl

theorem mem_of_stableLookup (hfits : HashFits name) (h : stableLookup t name = some (some r)) :
    Chains.Mem t.chains r ∧ r.sName = name := by
  rw [stableLookup_eq hfits, Option.some.injEq] at h
  obtain ⟨hmem, hname⟩ := Chains.mem_lookup h
  exact ⟨⟨_, hmem⟩, of_decide_eq_true hname⟩

theorem not_mem_of_stableLookup (hfits : HashFits name)
    (hplaced : Chains.Placed SRecord.sName stableBucket t.chains)
    (h : stableLookup t name = some none) : ∀ r, Chains.Mem t.chains r → r.sName ≠ name := by
  rw [stableLookup_eq hfits, Option.some.injEq] at h
  rintro r ⟨b, hb⟩ rfl
  have hbucket := (hplaced b).2 r hb
  have hno := List.find?_eq_none.mp h r (by rw [hbucket]; exact hb)
  exact hno (decide_eq_true rfl)

/-! ## Steps -/

theorem offerInv_init : OfferInv Offers.init := by
  refine ⟨Chains.placed_empty, ?_, fun r => ?_, List.nodup_nil, ?_, rfl⟩
  · rintro r (h | ⟨i, h⟩) <;> cases h
  · constructor
    · rintro ⟨b, h⟩
      cases h
    · intro h
      cases h
  · intro name r h
    cases h

/-- A lookup that finds nothing, by a call that goes on. -/
theorem OfferInv.allocate (h : OfferInv s) (hfits : HashFits name)
    (halone : ∀ c ∈ s.creating, c.2.sName ≠ name)
    (hnone : stableLookup s.table name = some none) (i : Nat) :
    OfferInv { s with
      table := { s.table with fresh := s.table.fresh + 1 }
      creating := s.creating ++ [(i, ⟨s.table.fresh, name⟩)] } := by
  refine ⟨h.placed, ?_, h.returned, ?_, h.accepted, h.fault⟩
  · rintro r (hr | ⟨j, hr⟩)
    · exact h.fits r (.inl hr)
    · rcases List.mem_append.mp hr with hr | hr
      · exact h.fits r (.inr ⟨j, hr⟩)
      · cases List.mem_singleton.mp hr
        exact hfits
  · show (s.returned.map (·.sName) ++
      (s.creating ++ [(i, (⟨s.table.fresh, name⟩ : SRecord))]).map (·.2.sName)).Nodup
    rw [List.map_append, ← List.append_assoc]
    refine List.nodup_append'.mpr ⟨h.names, List.nodup_singleton _, ?_⟩
    intro n hn hn'
    cases List.mem_singleton.mp hn'
    rcases List.mem_append.mp hn with hn | hn
    · obtain ⟨r, hr, hname⟩ := List.mem_map.mp hn
      exact not_mem_of_stableLookup hfits h.placed hnone r ((h.returned r).mpr hr) hname
    · obtain ⟨c, hc, hname⟩ := List.mem_map.mp hn
      exact halone c hc hname

/-- The second section of the call that is creating `r`. -/
theorem OfferInv.push (h : OfferInv s) {i : Nat} (hi : (i, r) ∈ s.creating) :
    OfferInv { s with
      table := { s.table with
        chains := Chains.insert SRecord.sName stableBucket s.table.chains r }
      creating := s.creating.erase (i, r)
      returned := s.returned ++ [r] } := by
  have hperm : (s.returned.map (·.sName) ++ s.creating.map (·.2.sName)).Perm
      ((s.returned ++ [r]).map (·.sName) ++ (s.creating.erase (i, r)).map (·.2.sName)) := by
    rw [List.map_append, List.append_assoc]
    exact ((List.perm_cons_erase hi).map _).append_left _
  have hnew : ¬ Chains.Mem s.table.chains r := by
    intro hmem
    have hin : r.sName ∈ s.returned.map (·.sName) :=
      List.mem_map_of_mem ((h.returned r).mp hmem)
    have hin' : r.sName ∈ s.creating.map (·.2.sName) :=
      List.mem_map_of_mem (f := fun c : Nat × SRecord => c.2.sName) hi
    exact (List.nodup_append'.mp h.names).2.2 hin hin'
  refine ⟨h.placed.insert hnew, ?_, fun x => ?_, hperm.nodup_iff.mp h.names, ?_, h.fault⟩
  · rintro x (hx | ⟨j, hx⟩)
    · rcases List.mem_append.mp hx with hx | hx
      · exact h.fits x (.inl hx)
      · cases List.mem_singleton.mp hx
        exact h.fits r (.inr ⟨i, hi⟩)
    · exact h.fits x (.inr ⟨j, List.mem_of_mem_erase hx⟩)
  · show Chains.Mem (Chains.insert SRecord.sName stableBucket s.table.chains r) x ↔ _
    rw [Chains.mem_insert, h.returned, List.mem_append, List.mem_singleton]
    exact or_comm
  · intro name x hx
    obtain ⟨hname, hret⟩ := h.accepted name x hx
    exact ⟨hname, List.mem_append_left _ hret⟩

theorem mem_creating_of_lookup {l : List (Nat × SRecord)} {i : Nat} (h : l.lookup i = some r) :
    (i, r) ∈ l := by
  induction l with
  | nil => cases h
  | cons c l ih =>
    rw [List.lookup_cons] at h
    by_cases hc : i = c.1
    · subst hc
      simp only [beq_self_eq_true, Option.some.injEq] at h
      subst h
      exact List.mem_cons_self
    · have hne : (i == c.1) = false := beq_eq_false_iff_ne.mpr hc
      simp only [hne] at h
      exact List.mem_cons_of_mem c (ih h)

theorem lookup_of_mem_creating {l : List (Nat × SRecord)} {i : Nat} (h : (i, r) ∈ l) :
    (l.lookup i).isSome := by
  induction l with
  | nil => cases h
  | cons c l ih =>
    rw [List.lookup_cons]
    by_cases hc : i = c.1
    · subst hc
      simp
    · have hne : (i == c.1) = false := beq_eq_false_iff_ne.mpr hc
      simp only [hne]
      rcases List.mem_cons.mp h with rfl | h
      · exact absurd rfl hc
      · exact ih h

/-- A thread that nobody interrupts does what `stableCreate` does. -/
theorem create_uninterrupted {i : Nat} (hfault : s.fault = false)
    (hidle : s.creating.lookup i = none) {t' : STable}
    (h : stableCreate s.table name = some (some r, t')) :
    offerSystem.run s [.lookup i name true, .push i] =
      some { s with table := t', returned := s.returned ++ [r] } := by
  unfold stableCreate at h
  split at h
  · cases h
  · cases h
  · rename_i hlook
    obtain ⟨t₁, hpush, heq⟩ := Option.map_eq_some_iff.mp h
    cases heq
    have hnot : (i, (⟨s.table.fresh, name⟩ : SRecord)) ∉ s.creating := fun hin =>
      Option.isSome_iff_ne_none.mp (lookup_of_mem_creating hin) hidle
    have hlook' : (s.creating ++ [(i, (⟨s.table.fresh, name⟩ : SRecord))]).lookup i =
        some ⟨s.table.fresh, name⟩ := by
      rw [List.lookup_append, hidle, Option.none_or]
      simp
    have herase : (s.creating ++ [(i, (⟨s.table.fresh, name⟩ : SRecord))]).erase
        (i, ⟨s.table.fresh, name⟩) = s.creating := by
      rw [List.erase_append_right _ hnot]
      simp
    simp only [System.run, offerSystem, Offers.next, hfault, hidle, hlook, hlook', hpush, herase,
      Option.bind_some, Option.isSome_none, Bool.false_or, if_true, if_false, Bool.false_eq_true]

/-- **What a step keeps.** -/
theorem OfferInv.next (h : OfferInv s) (hok : Alone s act) (hn : s.next act = some s') :
    OfferInv s' := by
  cases act with
  | lookup i name alloc =>
    obtain ⟨hfits, halone⟩ := hok
    simp only [Offers.next] at hn
    split at hn
    · cases hn
    · rw [stableLookup_eq hfits] at hn
      split at hn
      · rename_i hlook
        cases hlook
      · cases hn
        exact h
      · rename_i hlook
        rw [← stableLookup_eq hfits] at hlook
        split at hn
        · cases hn
          exact h.allocate hfits halone hlook i
        · cases hn
          exact h
  | push i =>
    simp only [Offers.next] at hn
    split at hn
    · cases hn
    · split at hn
      · cases hn
      · rename_i r hlook
        have hi := mem_creating_of_lookup hlook
        rw [stablePush_eq (h.fits r (.inr ⟨i, hi⟩))] at hn
        cases hn
        exact h.push hi
  | connect name =>
    have hfits : HashFits name := hok
    simp only [Offers.next] at hn
    split at hn
    · cases hn
    · split at hn
      · rename_i hlook
        rw [stableLookup_eq hfits] at hlook
        cases hlook
      · cases hn
        exact h
      · rename_i r hlook
        cases hn
        obtain ⟨hmem, hname⟩ := mem_of_stableLookup hfits hlook
        refine ⟨h.placed, h.fits, h.returned, h.names, fun n x hx => ?_, h.fault⟩
        rcases List.mem_append.mp hx with hx | hx
        · exact h.accepted n x hx
        · cases List.mem_singleton.mp hx
          exact ⟨hname, (h.returned r).mp hmem⟩

theorem OfferInv.offeredOnce (h : OfferInv s) : OfferedOnce s := by
  have honce : (s.returned.map (·.sName)).Nodup := (List.nodup_append'.mp h.names).1
  have hinj : ∀ r ∈ s.returned, ∀ r' ∈ s.returned, r.sName = r'.sName → r = r' :=
    List.inj_on_of_nodup_map honce
  refine ⟨honce, ?_, fun name r hr => ?_, h.fault⟩
  · refine h.placed.nodup_entries.map_on fun r hr r' hr' => ?_
    exact hinj r ((h.returned r).mp (Chains.mem_entries.mp hr)) r'
      ((h.returned r').mp (Chains.mem_entries.mp hr'))
  · obtain ⟨hname, hret⟩ := h.accepted name r hr
    exact ⟨hname, hret, fun r' hr' hn => hinj r' hr' r hret (by rw [hn, hname])⟩

/-- **Every name is offered once**, in every run in which no call looks up a name that another
call is creating. -/
theorem offered_once (h : offerSystem.Reach Alone s) : OfferedOnce s :=
  (h.invariant offerInv_init fun _ _ _ hi hok hn => OfferInv.next hi hok hn).offeredOnce

end Offers

/-- `"HWDB"`. -/
def hwdbService : ServiceName where
  chars := [72, 87, 68, 66]
  terminated := by simp

/-- A thread offers the service, a second one tries to, and a connection is accepted. -/
theorem offered_once_served :
    ∃ s, s.accepted = [(hwdbService, ⟨0, hwdbService⟩)] ∧ OfferedOnce s := by
  obtain ⟨s, hs, hp⟩ := System.Reach.of_run offerSystem Alone
    (fun s act => decide (Alone s act))
    [.lookup 0 hwdbService true, .push 0, .lookup 1 hwdbService true, .connect hwdbService]
    (fun s => decide (s.accepted = [(hwdbService, ⟨0, hwdbService⟩)]))
    (fun _ _ h => of_decide_eq_true h) (by decide) (by decide)
  exact ⟨s, of_decide_eq_true hp, offered_once hs⟩

/-- Two threads look the name up before either has pushed its record: both calls return one. -/
theorem offered_twice :
    ¬ ∀ s, offerSystem.Reach (fun _ _ => True) s → OfferedOnce s := by
  intro h
  obtain ⟨s, hs, hp⟩ := System.Reach.of_run offerSystem (fun _ _ => True) (fun _ _ => true)
    [.lookup 0 hwdbService true, .lookup 1 hwdbService true, .push 0, .push 1]
    (fun s => decide (s.returned.map (·.sName) = [hwdbService, hwdbService]))
    (fun _ _ _ => trivial) (by decide) (by decide)
  have honce := (h s hs).once
  rw [of_decide_eq_true hp] at honce
  exact absurd honce (by decide)

end Hwdb.Rpc
