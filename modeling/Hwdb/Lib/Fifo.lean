import Mathlib.Data.List.Basic
import Mathlib.Order.Basic

/-!
# Channels that keep their order

A log that only grows and a receiver that never goes back: it may skip an entry or take one
again, but it takes none that comes before one it has taken.  Some entries have a rank, and the
sender never sends one below the rank it has reached.

* `Graded rank log top` — the ranks rise along the log, up to the sender's `top`.
* `Undelivered rank log seen floor` — what the receiver may still take ranks `floor` or above.
* `Graded.append`, `Undelivered.append` — the sender adds entries at its new rank.
* `Graded.take`, `Undelivered.take` — the receiver takes an entry: from there on all rank as high.
-/

set_option autoImplicit false

namespace Hwdb.Lib

variable {α : Type} {rank : α → Option Nat} {log more : List α}
  {top top' seen seen' floor i n : Nat}
  {x : α}

/-- The ranks rise along the log and end below `top`. -/
def Graded (rank : α → Option Nat) (log : List α) (top : Nat) : Prop :=
  (log.filterMap rank ++ [top]).Pairwise (· ≤ ·)

/-- From position `seen` on no entry ranks below `floor`. -/
def Undelivered (rank : α → Option Nat) (log : List α) (seen floor : Nat) : Prop :=
  ∀ n ∈ (log.drop seen).filterMap rank, floor ≤ n

theorem graded_nil (top : Nat) : Graded rank [] top := List.pairwise_singleton _ _

theorem undelivered_nil (seen floor : Nat) : Undelivered rank [] seen floor := by
  intro n hn
  rw [List.drop_nil] at hn
  cases hn

/-! ## The sender -/

theorem Graded.le (h : Graded rank log top) (hx : x ∈ log) (hn : rank x = some n) : n ≤ top :=
  (List.pairwise_append.mp h).2.2 n (List.mem_filterMap.mpr ⟨x, hx, hn⟩) top
    (List.mem_singleton.mpr rfl)

/-- **The sender goes on** to `top'` and adds entries of that rank, or without one. -/
theorem Graded.append (h : Graded rank log top) (hle : top ≤ top')
    (hmore : ∀ x ∈ more, ∀ n, rank x = some n → n = top') : Graded rank (log ++ more) top' := by
  obtain ⟨hsorted, -, hbound⟩ := List.pairwise_append.mp h
  have hnew : ∀ n ∈ more.filterMap rank ++ [top'], n = top' := by
    intro n hn
    rcases List.mem_append.mp hn with hn | hn
    · obtain ⟨x, hx, hr⟩ := List.mem_filterMap.mp hn
      exact hmore x hx n hr
    · exact List.mem_singleton.mp hn
  rw [Graded, List.filterMap_append, List.append_assoc, List.pairwise_append]
  refine ⟨hsorted, ?_, fun m hm n hn => ?_⟩
  · refine List.pairwise_of_forall_mem_list fun m hm n hn => Nat.le_of_eq ?_
    rw [hnew m hm, hnew n hn]
  · rw [hnew n hn]
    exact Nat.le_trans (hbound m hm top (List.mem_singleton.mpr rfl)) hle

theorem Undelivered.append (h : Undelivered rank log seen floor)
    (hmore : ∀ x ∈ more, ∀ n, rank x = some n → floor ≤ n) :
    Undelivered rank (log ++ more) seen floor := by
  intro n hn
  rw [List.drop_append, List.filterMap_append] at hn
  rcases List.mem_append.mp hn with hn | hn
  · exact h n hn
  · obtain ⟨x, hx, hr⟩ := List.mem_filterMap.mp hn
    exact hmore x (List.mem_of_mem_drop hx) n hr

/-! ## The receiver -/

theorem Undelivered.mono (h : Undelivered rank log seen floor) {floor' : Nat}
    (hle : floor' ≤ floor) : Undelivered rank log seen floor' :=
  fun n hn => Nat.le_trans hle (h n hn)

theorem Undelivered.later (h : Undelivered rank log seen floor) (hle : seen ≤ seen') :
    Undelivered rank log seen' floor := by
  intro n hn
  refine h n (((List.drop_sublist_drop_left log hle).filterMap rank).subset hn)

/-- What the receiver takes ranks at least as high as it expects. -/
theorem Undelivered.take (h : Undelivered rank log seen floor) (hi : seen ≤ i)
    (hx : log[i]? = some x) (hn : rank x = some n) : floor ≤ n := by
  refine h n (List.mem_filterMap.mpr ⟨x, ?_, hn⟩)
  refine List.mem_of_getElem? (i := i - seen) ?_
  rw [List.getElem?_drop, Nat.add_sub_cancel' hi, hx]

/-- **The receiver takes an entry**, and from there on none ranks below it. -/
theorem Graded.take (h : Graded rank log top) (hx : log[i]? = some x) (hn : rank x = some n) :
    Undelivered rank log i n := by
  intro m hm
  obtain ⟨hlt, hget⟩ := List.getElem?_eq_some_iff.mp hx
  have hsplit : log = log.take i ++ x :: log.drop (i + 1) := by
    rw [← hget, List.getElem_cons_drop, List.take_append_drop]
  have hsorted := (List.pairwise_append.mp h).1
  rw [hsplit, List.filterMap_append, List.filterMap_cons_some hn] at hsorted
  have hrest := List.pairwise_cons.mp (List.pairwise_append.mp hsorted).2.1
  rw [← List.getElem_cons_drop hlt, hget, List.filterMap_cons_some hn] at hm
  rcases List.mem_cons.mp hm with rfl | hm
  · exact Nat.le_refl _
  · exact hrest.1 m hm

end Hwdb.Lib
