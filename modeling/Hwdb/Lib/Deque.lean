import Mathlib.Data.List.Induction
import Mathlib.Data.List.Perm.Basic

/-!
# Sequences with two ends

What a queue with operations at both ends is for, as operations on a list one after the other.
Each operation carries an identifier, so that a concurrent history can say where an operation
took effect and what it returned.

* `Op.apply`, `run` — the sequence after some operations, and what each of them returned.
* `run_snoc` — one more operation.
* `run_conserves` — what went in is what came out and what is still there.
-/

set_option autoImplicit false

namespace Hwdb.Lib.Deque

variable {ι α : Type}

inductive Op (α : Type) where
  | append (x : α)
  | prepend (x : α)
  | remove
  deriving DecidableEq, Repr

/-- The sequence after an operation and the element removed. -/
def Op.apply (l : List α) : Op α → List α × Option α
  | .append x => (l ++ [x], none)
  | .prepend x => (x :: l, none)
  | .remove => (l.tail, l.head?)

/-- The element that an operation puts in. -/
def Op.inserts : Op α → Option α
  | .append x => some x
  | .prepend x => some x
  | .remove => none

/-- The sequence after the operations and what each of them returned. -/
def run (l : List α) : List (ι × Op α) → List α × List (ι × Option α)
  | [] => (l, [])
  | (i, op) :: ops =>
    let (m, rs) := run (op.apply l).1 ops
    (m, (i, (op.apply l).2) :: rs)

theorem run_snoc (l : List α) (ops : List (ι × Op α)) (i : ι) (op : Op α) :
    run l (ops ++ [(i, op)]) =
      ((op.apply (run l ops).1).1, (run l ops).2 ++ [(i, (op.apply (run l ops).1).2)]) := by
  induction ops generalizing l with
  | nil => rfl
  | cons e ops ih => simp only [List.cons_append, run, ih]

/-- What the operations put in. -/
def inserted (ops : List (ι × Op α)) : List α := ops.filterMap fun e => e.2.inserts

/-- What the operations took out. -/
def removed (rs : List (ι × Option α)) : List α := rs.filterMap Prod.snd

theorem apply_conserves (l : List α) (op : Op α) :
    (op.inserts.toList ++ l).Perm ((op.apply l).2.toList ++ (op.apply l).1) := by
  cases op with
  | append x => exact (List.perm_append_singleton x l).symm
  | prepend x => exact .refl _
  | remove =>
    cases l with
    | nil => exact .refl _
    | cons x l => exact .refl _

/-- **Nothing is lost and nothing comes out twice.** -/
theorem run_conserves (ops : List (ι × Op α)) :
    (inserted ops).Perm (removed (run [] ops).2 ++ (run [] ops).1) := by
  induction ops using List.reverseRecOn with
  | nil => exact .refl _
  | append_singleton ops e ih =>
    obtain ⟨i, op⟩ := e
    have hin : inserted (ops ++ [(i, op)]) = inserted ops ++ op.inserts.toList := by
      cases op <;> simp [inserted, Op.inserts]
    have hout : removed ((run [] ops).2 ++ [(i, (op.apply (run [] ops).1).2)]) =
        removed (run [] ops).2 ++ ((op.apply (run [] ops).1).2).toList := by
      cases (op.apply (run [] ops).1).2 <;> simp [removed]
    rw [run_snoc, hin]
    dsimp only
    rw [hout, List.append_assoc]
    refine (ih.append_right _).trans ?_
    rw [List.append_assoc]
    refine List.Perm.append_left _ ?_
    exact List.perm_append_comm.trans (apply_conserves _ op)

end Hwdb.Lib.Deque
