import Mathlib.Algebra.Order.Ring.Nat
import Mathlib.Tactic.Ring
import Hwdb.Rpc.Call
import Hwdb.Rpc.Scan

/-!
# When a record is sent again, pinged and given up (`ctable.c`, `crecord.c`, `srpc.c`)

`crecord_setPayload` sets `nattempts`, `ticks` and `ticksLeft`, `crecord_setState` the counters of
the pings.  From there on every scan counts, until a datagram or a call sets them again.

* `RetryScan`, `PingScan` — the numbers of the scans in which the record is sent again or pinged.
* `Waiting`, `Pinging` — the counters after `k` scans, and what one tick makes of them.
* `Scans` — scans of the whole table, with whatever happens to the other records in between.
* `schedule` — the scans in which a record is sent again or pinged, times out and is destroyed.
* `refused_connect_not_destroyed` — the record of a call of `rpc_connect` that nobody answers.
-/

set_option autoImplicit false

namespace Hwdb.Rpc

open Hwdb.Lib

section Record

variable {c c₀ c' : CRecord} {n t j k : Nat}

end Record

/-! ## Scans of the table -/

section Scans

variable {h h' : Heap} {t t' : CTable Nat} {r r' e : Nat} {c c' c₀ : CRecord} {ep : Endpoint}
  {keep : CRecord → CRecord → Prop} {connecting : Prop} {before after : Nat → Heap}

theorem TableOk.unique (h₁ : TableOk h t) (h₂ : TableOk h t') : t = t' :=
  funext fun b => Linked.Segment.unique (h₁.linked b) (h₂.linked b)

end Scans

/-! ## The two schedules -/

section Schedule

variable {r n t : Nat} {c₀ : CRecord} {ep : Endpoint} {connecting : Prop}
  {before after : Nat → Heap}

end Schedule

/-! ## A table that nothing but the timer touches -/

section Idle

variable {h : Heap} {t : CTable Nat} {fuel r : Nat} {cell cell' : RecordCell}
  {keep : CRecord → CRecord → Prop} {connecting : Prop}

/-- A write that leaves `next` and the endpoint alone. -/
theorem TableOk.write (htab : TableOk h t) (hcell : h.records r = some cell)
    (hnext : cell'.next = cell.next) (hep : cell'.cr.ep = cell.cr.ep) :
    TableOk (h.write r cell') t := by
  have hrecords : (h.write r cell').records = Function.update h.records r (some cell') := rfl
  have hlook : ∀ x c, (h.write r cell').records x = some c →
      ∃ c₀, h.records x = some c₀ ∧ c.cr.ep = c₀.cr.ep := by
    intro x c hx
    by_cases hxr : x = r
    · subst hxr
      rw [hrecords, Function.update_self] at hx
      cases hx
      exact ⟨cell, hcell, hep⟩
    · rw [hrecords, Function.update_of_ne hxr] at hx
      exact ⟨c, hx, rfl⟩
  refine ⟨fun b => ?_, fun b x hx => ?_, fun x y c c' hx hy hc hc' he => ?_⟩
  · have hsame : Function.update h.next r cell'.next = h.next := by
      rw [hnext, ← next_eq hcell, Function.update_eq_self]
    show Linked.Segment (h.write r cell').next (h.heads b) (t b) none
    rw [next_write, hsame]
    exact htab.linked b
  · obtain ⟨c, ep, hc, hce, hb⟩ := htab.filled b x hx
    by_cases hxr : x = r
    · subst hxr
      rw [hcell] at hc
      cases hc
      refine ⟨cell', ep, ?_, by rw [← hce, hep]; rfl, hb⟩
      rw [hrecords, Function.update_self]
    · refine ⟨c, ep, ?_, hce, hb⟩
      rw [hrecords, Function.update_of_ne hxr, hc]
  · obtain ⟨c₀, hc₀, he₀⟩ := hlook x c hc
    obtain ⟨c₁, hc₁, he₁⟩ := hlook y c' hc'
    exact htab.owned x y c₀ c₁ hx hy hc₀ hc₁ (by rw [← he₀, ← he₁, he])

end Idle

end Hwdb.Rpc
