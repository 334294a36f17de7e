import Mathlib.Data.List.Nodup
import Mathlib.Logic.Function.Basic

/-!
# Lists linked through a pointer field

Cells of type `α` are linked by `next`; the empty pointer is `none`.  The field may be kept in
any memory, so `next` is a function and a write to it is `Function.update`.

* `Segment next p l q` — from `p` along `next`, the cells `l` one after the other and then `q`.
* `Segment.unique` — a pointer starts one list at most.
* `Segment.congr` — writes to other cells do not matter.
* `Segment.cons_update`, `Segment.snoc_update`, `Segment.skip` — pushing a cell at the front or
  behind the last one, and unlinking one.
* `Segment.steps` — the pointer after `k` steps.
* `walk_eq`, `drain_eq` — a loop along a list does its body for every cell, in order, whether it
  reads the next pointer after its body or before it.
-/

set_option autoImplicit false

namespace Hwdb.Lib.Linked

variable {α : Type}

/-- The cells `l` are linked from `p`, and the last of them points to `q`. -/
def Segment (next : α → Option α) : Option α → List α → Option α → Prop
  | p, [], q => p = q
  | p, a :: l, q => p = some a ∧ Segment next (next a) l q

variable {next next' : α → Option α} {p q r : Option α} {l m : List α} {a b : α}

@[simp] theorem segment_nil : Segment next p [] q ↔ p = q := Iff.rfl

@[simp] theorem segment_cons :
    Segment next p (a :: l) q ↔ p = some a ∧ Segment next (next a) l q := Iff.rfl

theorem segment_append :
    Segment next p (l ++ m) q ↔ ∃ r, Segment next p l r ∧ Segment next r m q := by
  induction l generalizing p with
  | nil => simp
  | cons a l ih =>
    simp only [List.cons_append, segment_cons, ih]
    constructor
    · rintro ⟨hp, r, hl, hm⟩
      exact ⟨r, ⟨hp, hl⟩, hm⟩
    · rintro ⟨r, ⟨hp, hl⟩, hm⟩
      exact ⟨hp, r, hl, hm⟩

/-- Fields of other cells do not matter. -/
theorem Segment.congr (h : Segment next p l q) (hl : ∀ a ∈ l, next' a = next a) :
    Segment next' p l q := by
  induction l generalizing p with
  | nil => exact h
  | cons a l ih =>
    refine ⟨h.1, ?_⟩
    rw [hl a List.mem_cons_self]
    exact ih h.2 fun b hb => hl b (List.mem_cons_of_mem _ hb)

/-- A write to a cell that is not in the list. -/
theorem Segment.update [DecidableEq α] (h : Segment next p l q) (ha : a ∉ l) (v : Option α) :
    Segment (Function.update next a v) p l q := by
  refine h.congr fun b hb => ?_
  have hne : b ≠ a := fun he => ha (he ▸ hb)
  exact Function.update_of_ne hne v next

/-- **A pointer starts one list.** -/
theorem Segment.unique (h : Segment next p l none) (h' : Segment next p m none) : l = m := by
  induction l generalizing p m with
  | nil =>
    cases m with
    | nil => rfl
    | cons b m =>
      have hp : p = none := h
      rw [hp] at h'
      cases h'.1
  | cons a l ih =>
    cases m with
    | nil =>
      have hp : p = none := h'
      rw [hp] at h
      cases h.1
    | cons b m =>
      have hab : a = b := Option.some.inj (h.1.symm.trans h'.1)
      subst hab
      rw [ih h.2 h'.2]

/-- A list without an empty pointer in it is not empty exactly if its head is not. -/
theorem Segment.head (h : Segment next p l none) : p = l.head? := by
  cases l with
  | nil => exact h
  | cons a l => exact h.1

/-- The field of the last cell. -/
theorem Segment.last (h : Segment next p (l ++ [a]) q) : next a = q := by
  obtain ⟨r, -, hr⟩ := segment_append.mp h
  exact hr.2

/-- **Push at the front.** -/
theorem Segment.cons_update [DecidableEq α] (h : Segment next p l q) (ha : a ∉ l) :
    Segment (Function.update next a p) (some a) (a :: l) q := by
  refine ⟨rfl, ?_⟩
  rw [Function.update_self]
  exact h.update ha p

/-- **Push behind the last cell.** -/
theorem Segment.snoc_update [DecidableEq α] (h : Segment next p (l ++ [b]) none) (hb : b ∉ l)
    (ha : a ∉ l ++ [b]) (hnext : next a = none) :
    Segment (Function.update next b (some a)) p (l ++ [b] ++ [a]) none := by
  obtain ⟨r, hl, hr⟩ := segment_append.mp h
  have hne : a ≠ b := fun he => ha (by simp [he])
  refine segment_append.mpr ⟨some a, segment_append.mpr ⟨r, hl.update hb _, ?_⟩, ?_⟩
  · exact ⟨hr.1, by simp⟩
  · exact ⟨rfl, by simp [Function.update_of_ne hne, hnext]⟩

/-- **Unlink** the cell behind `b`. -/
theorem Segment.skip [DecidableEq α] (h : Segment next p (l ++ b :: a :: m) q)
    (hnodup : (l ++ b :: a :: m).Nodup) :
    Segment (Function.update next b (next a)) p (l ++ b :: m) q := by
  obtain ⟨r, hl, hr, hb, hm⟩ := segment_append.mp h
  have hbl : b ∉ l := fun hmem =>
    List.disjoint_of_nodup_append hnodup hmem List.mem_cons_self
  have hbm : b ∉ m := fun hmem =>
    (List.nodup_cons.mp (List.nodup_append.mp hnodup).2.1).1 (List.mem_cons_of_mem _ hmem)
  refine segment_append.mpr ⟨r, hl.update hbl _, hr, ?_⟩
  rw [Function.update_self]
  exact hm.update hbm _

/-- The pointer after `k` steps along `next`. -/
def steps (next : α → Option α) (p : Option α) : Nat → Option α
  | 0 => p
  | k + 1 => (steps next p k).bind next

theorem steps_succ (k : Nat) : steps next (some a) (k + 1) = steps next (next a) k := by
  induction k with
  | zero => rfl
  | succ k ih =>
    show (steps next (some a) (k + 1)).bind next = _
    rw [ih]
    rfl

/-- **The cell after `k` steps** is the one at place `k`. -/
theorem Segment.steps (h : Segment next p l none) (k : Nat) (hk : k ≤ l.length) :
    Linked.steps next p k = l[k]? := by
  induction l generalizing p k with
  | nil =>
    have hp : p = none := h
    have hk : k = 0 := by simpa using hk
    subst hk
    exact hp
  | cons a l ih =>
    cases k with
    | zero => exact h.1
    | succ k =>
      rw [h.1, steps_succ, ih h.2 k (Nat.le_of_succ_le_succ hk), List.getElem?_cons_succ]

/-! ## Loops along a list -/

/-- No cell occurs twice between a pointer and the empty one. -/
theorem Segment.nodup (h : Segment next p l none) : l.Nodup := by
  induction l generalizing p with
  | nil => exact .nil
  | cons a l ih =>
    refine List.nodup_cons.mpr ⟨fun ha => ?_, ih h.2⟩
    obtain ⟨before, after, hl⟩ := List.append_of_mem ha
    have htail := h.2
    rw [hl] at htail
    obtain ⟨r, -, hr⟩ := segment_append.mp htail
    have hsame : after = l := Segment.unique hr.2 h.2
    have hlen := congrArg List.length hl
    rw [hsame, List.length_append, List.length_cons] at hlen
    omega

section Loops

variable {σ : Type}

/-- `for (p = q; p != NULL; p = p->field) body(p)`; `none` when the fuel runs out. -/
def walk (field : σ → α → Option α) (body : σ → α → σ) : Nat → Option α → σ → Option σ
  | _, none, s => some s
  | 0, some _, _ => none
  | n + 1, some a, s => walk field body n (field (body s a) a) (body s a)

/-- `while (p != NULL) { q = p->field; body(p); p = q; }`. -/
def drain (field : σ → α → Option α) (body : σ → α → Option σ) : Nat → Option α → σ → Option σ
  | _, none, s => some s
  | 0, some _, _ => none
  | n + 1, some a, s => (body s a).bind (drain field body n (field s a))

variable {field : σ → α → Option α} {n : Nat} {s : σ}

/-- **A loop whose body leaves the field alone.** -/
theorem walk_eq {body : σ → α → σ} (hbody : ∀ s a, field (body s a) = field s)
    (h : Segment (field s) p l none) (hn : l.length ≤ n) :
    walk field body n p s = some (l.foldl body s) := by
  induction l generalizing p n s with
  | nil =>
    rw [show p = none from h]
    cases n <;> rfl
  | cons a l ih =>
    cases n with
    | zero => simp at hn
    | succ n =>
      rw [h.1, walk, List.foldl_cons, hbody]
      refine ih ?_ (Nat.le_of_succ_le_succ hn)
      rw [hbody]
      exact h.2

/-- **A loop whose body leaves the field of the other cells alone.** -/
theorem drain_eq {body : σ → α → Option σ}
    (hbody : ∀ s s' a b, body s a = some s' → b ≠ a → field s' b = field s b)
    (h : Segment (field s) p l none) (hn : l.length ≤ n) :
    drain field body n p s = l.foldlM body s := by
  induction l generalizing p n s with
  | nil =>
    rw [show p = none from h]
    cases n <;> rfl
  | cons a l ih =>
    have hnodup := List.nodup_cons.mp h.nodup
    cases n with
    | zero => simp at hn
    | succ n =>
      rw [h.1, drain, List.foldlM_cons]
      cases hs : body s a with
      | none => rfl
      | some s' =>
        show drain field body n (field s a) s' = l.foldlM body s'
        refine ih (h.2.congr fun b hb => ?_) (Nat.le_of_succ_le_succ hn)
        have hba : b ≠ a := fun he => hnodup.1 (he ▸ hb)
        exact hbody s s' a b hs hba

/-- What every turn of a loop keeps, with the cells done so far. -/
theorem foldlM_invariant {body : σ → α → Option σ} {I : List α → σ → Prop} (h0 : I [] s)
    (hstep : ∀ done a s, I done s → a ∈ l → a ∉ done → ∃ s', body s a = some s' ∧
      I (done ++ [a]) s') (hl : l.Nodup) : ∃ s', l.foldlM body s = some s' ∧ I l s' := by
  have key : ∀ (rest done : List α) (s : σ), done ++ rest = l → I done s →
      ∃ s', rest.foldlM body s = some s' ∧ I l s' := by
    intro rest
    induction rest with
    | nil =>
      intro done s hdone hs
      rw [List.append_nil] at hdone
      exact ⟨s, rfl, hdone ▸ hs⟩
    | cons a rest ih =>
      intro done s hdone hs
      have hmem : a ∈ l := by
        rw [← hdone]
        simp
      have hnew : a ∉ done := fun ha => by
        rw [← hdone] at hl
        exact List.disjoint_of_nodup_append hl ha List.mem_cons_self
      obtain ⟨s', hs', hI⟩ := hstep done a s hs hmem hnew
      rw [List.foldlM_cons, hs']
      exact ih (done ++ [a]) s' (by rw [← hdone]; simp) hI
  exact key l [] s rfl h0

end Loops

end Hwdb.Lib.Linked
