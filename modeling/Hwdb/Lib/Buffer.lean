import Mathlib.Data.List.TakeDrop
import Mathlib.Data.List.Basic

/-!
# Buffers written piece by piece

A `Buffer` is a block of allocated cells, `none` where nothing has been written yet.
`Buffer.write` is a block copy and is undefined when it leaves the buffer, so a proof that a
copy is defined is a proof that it stays in bounds.

A message is cut into pieces of `sz` elements (`piece`, numbered from 1, `pieceCount` of them).

* `write_filled` — appending to what is written fills the buffer from the left.
* `write_piece` — writing piece `k + 1` after the first `k` pieces.
* `take_pieceCount` — all pieces together are the message.
-/

set_option autoImplicit false

namespace Hwdb.Lib

variable {β : Type}

/-- Allocated cells; `none` has not been written. -/
abbrev Buffer (β : Type) := List (Option β)

namespace Buffer

/-- A fresh allocation. -/
def alloc (n : Nat) : Buffer β := List.replicate n none

/-- Copy `src` to offset `off`; undefined outside the buffer. -/
def write (b : Buffer β) (off : Nat) (src : List β) : Option (Buffer β) :=
  if off + src.length ≤ b.length then
    some (b.take off ++ src.map some ++ b.drop (off + src.length))
  else none

/-- `n` cells of which the first ones hold `l`. -/
def filled (n : Nat) (l : List β) : Buffer β := l.map some ++ List.replicate (n - l.length) none

theorem alloc_eq_filled (n : Nat) : (alloc n : Buffer β) = filled n [] := by
  simp [alloc, filled]

@[simp] theorem filled_length_self (l : List β) : filled l.length l = l.map some := by
  simp [filled]

theorem length_filled {n : Nat} {l : List β} (h : l.length ≤ n) : (filled n l).length = n := by
  simp only [filled, List.length_append, List.length_map, List.length_replicate]
  omega

/-- A copy right after the written part extends it. -/
theorem write_filled {n : Nat} {l src : List β} (h : l.length + src.length ≤ n) :
    write (filled n l) l.length src = some (filled n (l ++ src)) := by
  have hlen : (filled n l).length = n := length_filled (by omega)
  rw [write, if_pos (by rw [hlen]; exact h)]
  have htake : (filled n l).take l.length = l.map some := by
    unfold filled
    rw [List.take_left' (by simp)]
  have hdrop : (filled n l).drop (l.length + src.length) =
      List.replicate (n - (l ++ src).length) none := by
    unfold filled
    rw [← List.drop_drop, List.drop_left' (by simp), List.drop_replicate]
    congr 1
    simp only [List.length_append]
    omega
  rw [htake, hdrop]
  simp [filled]

theorem write_alloc {n : Nat} {src : List β} (h : src.length ≤ n) :
    write (alloc n) 0 src = some (filled n src) := by
  have hfill : write (filled n ([] : List β)) 0 src = some (filled n ([] ++ src)) :=
    write_filled (by simpa using h)
  simpa [alloc_eq_filled] using hfill

theorem write_isSome {b : Buffer β} {off : Nat} {src : List β} :
    (write b off src).isSome ↔ off + src.length ≤ b.length := by
  unfold write
  split <;> simp_all

theorem length_write {b b' : Buffer β} {off : Nat} {src : List β} (h : write b off src = some b') :
    b'.length = b.length := by
  unfold write at h
  split at h
  · cases h
    simp only [List.length_append, List.length_take, List.length_map, List.length_drop]
    omega
  · cases h

/-- Copies of one length to one place that leave the same buffer copied the same. -/
theorem write_inj {b b' : Buffer β} {off : Nat} {src src' : List β}
    (h : write b off src = some b') (h' : write b off src' = some b')
    (hlen : src.length = src'.length) : src = src' := by
  unfold write at h h'
  split at h
  · split at h'
    · rw [← h', Option.some.injEq, hlen] at h
      have hmap := List.append_cancel_left (List.append_cancel_right h)
      exact List.map_injective_iff.mpr (fun _ _ heq => Option.some.inj heq) hmap
    · cases h'
  · cases h

end Buffer

/-! ## Pieces of a message -/

/-- Number of pieces of at most `sz` elements; one for a message of up to `sz`. -/
def pieceCount (sz : Nat) (m : List β) : Nat := (m.length - 1) / sz + 1

/-- The `k`-th piece, counted from 1. -/
def piece (sz : Nat) (m : List β) (k : Nat) : List β := (m.drop (sz * (k - 1))).take sz

theorem pieceCount_pos (sz : Nat) (m : List β) : 1 ≤ pieceCount sz m := by
  simp [pieceCount]

theorem take_append_piece (sz : Nat) (m : List β) (k : Nat) :
    m.take (sz * k) ++ piece sz m (k + 1) = m.take (sz * (k + 1)) := by
  rw [piece, Nat.add_sub_cancel, Nat.mul_add, Nat.mul_one, List.take_add]

/-- All pieces but the last are full. -/
theorem full_of_lt_pieceCount {sz : Nat} {m : List β} {k : Nat} (hsz : 0 < sz)
    (hk : k < pieceCount sz m) : sz * k < m.length ∨ k = 0 := by
  rcases Nat.eq_zero_or_pos k with rfl | hpos
  · exact .inr rfl
  · left
    have hle : k ≤ (m.length - 1) / sz := by unfold pieceCount at hk; omega
    have hmul : k * sz ≤ m.length - 1 := (Nat.le_div_iff_mul_le hsz).mp hle
    have hk1 : 1 * sz ≤ k * sz := Nat.mul_le_mul_right sz hpos
    rw [Nat.mul_comm]
    omega

theorem mul_le_length {sz : Nat} {m : List β} {k : Nat} (hsz : 0 < sz)
    (hk : k < pieceCount sz m) : sz * k ≤ m.length := by
  rcases full_of_lt_pieceCount hsz hk with h | rfl
  · exact Nat.le_of_lt h
  · simp

theorem length_piece {sz : Nat} {m : List β} {k : Nat} (hsz : 0 < sz) (hk1 : 1 ≤ k)
    (hk : k < pieceCount sz m) : (piece sz m k).length = sz := by
  have hle := mul_le_length hsz hk
  obtain ⟨j, rfl⟩ : ∃ j, k = j + 1 := ⟨k - 1, by omega⟩
  rw [Nat.mul_add, Nat.mul_one] at hle
  simp only [piece, Nat.add_sub_cancel, List.length_take, List.length_drop]
  omega

theorem take_pieceCount {sz : Nat} (hsz : 0 < sz) (m : List β) :
    m.take (sz * pieceCount sz m) = m := by
  apply List.take_of_length_le
  have := Nat.lt_mul_div_succ (m.length - 1) hsz
  unfold pieceCount
  omega

/-- The last piece is what the full ones leave. -/
theorem length_last_piece {sz : Nat} (hsz : 0 < sz) (m : List β) :
    (piece sz m (pieceCount sz m)).length = m.length - sz * (pieceCount sz m - 1) := by
  have := Nat.lt_mul_div_succ (m.length - 1) hsz
  simp only [piece, List.length_take, List.length_drop]
  simp only [pieceCount, Nat.add_sub_cancel] at *
  rw [Nat.mul_add, Nat.mul_one] at this
  omega

/-- **Reassembly step.**  A buffer for `pre ++ m` that holds `pre` and the first `k` pieces
takes piece `k + 1` at the offset where it belongs. -/
theorem write_piece {sz : Nat} (pre : List β) {m : List β} {k : Nat} (hsz : 0 < sz)
    (hk : k < pieceCount sz m) :
    Buffer.write (Buffer.filled (pre.length + m.length) (pre ++ m.take (sz * k)))
        (pre.length + sz * k) (piece sz m (k + 1)) =
      some (Buffer.filled (pre.length + m.length) (pre ++ m.take (sz * (k + 1)))) := by
  have hle := mul_le_length hsz hk
  have hoff : pre.length + sz * k = (pre ++ m.take (sz * k)).length := by
    simp only [List.length_append, List.length_take]
    omega
  rw [hoff, Buffer.write_filled, List.append_assoc, take_append_piece]
  rw [← List.length_append, List.append_assoc, take_append_piece]
  simp only [List.length_append, List.length_take]
  omega

end Hwdb.Lib
