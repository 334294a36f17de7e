import Mathlib.Data.List.Basic
import Mathlib.Tactic.SplitIfs

/-!
# Decimal text

The pieces that `printf` builds keys from, and when a key determines its pieces.

* `decimal`, `decimal5` — `%d` of a byte and `%05d` of a 16-bit number.
* `append_sep_inj` — a text is split in only one way at the first occurrence of a separator.
* `decimal_inj`, `decimal5_inj` — equal texts come from equal numbers.
-/

set_option autoImplicit false

namespace Hwdb.Lib

abbrev Text := List Char

/-- The last decimal digit of `n`. -/
def digit (n : Nat) : Char := Char.ofNat (48 + n % 10)

/-- `%d` of a number below 1000. -/
def decimal (n : Nat) : Text :=
  if n < 10 then [digit n]
  else if n < 100 then [digit (n / 10), digit n]
  else [digit (n / 100), digit (n / 10), digit n]

/-- `%05d` of a number below 100000. -/
def decimal5 (n : Nat) : Text :=
  [digit (n / 10000), digit (n / 1000), digit (n / 100), digit (n / 10), digit n]

/-! ## Digits -/

theorem digit_toNat (n : Nat) : (digit n).toNat = 48 + n % 10 := by
  have h : n % 10 < 10 := Nat.mod_lt _ (by decide)
  have hv : (48 + n % 10).isValidChar := .inl (by omega)
  rw [digit, Char.ofNat, dif_pos hv]
  rfl

theorem digit_inj {m n : Nat} (h : digit m = digit n) : m % 10 = n % 10 := by
  have h := congrArg Char.toNat h
  rw [digit_toNat, digit_toNat] at h
  omega

theorem digit_ne {c : Char} (hc : c.toNat < 48 ∨ 57 < c.toNat) (n : Nat) : digit n ≠ c := by
  rintro rfl
  rw [digit_toNat] at hc
  omega

theorem length_decimal_le (n : Nat) : (decimal n).length ≤ 3 := by
  unfold decimal
  split
  · simp
  · split <;> simp

@[simp] theorem length_decimal5 (n : Nat) : (decimal5 n).length = 5 := rfl

theorem not_mem_decimal {c : Char} (hc : c.toNat < 48 ∨ 57 < c.toNat) (n : Nat) :
    c ∉ decimal n := by
  have h : ∀ k, c ≠ digit k := fun k => (digit_ne hc k).symm
  unfold decimal
  split
  · simp [h]
  · split <;> simp [h]

theorem decimal_inj {m n : Nat} (hm : m < 1000) (hn : n < 1000) (h : decimal m = decimal n) :
    m = n := by
  have hlen := congrArg List.length h
  unfold decimal at h hlen
  split_ifs at h hlen <;> simp only [List.length_cons, List.length_nil] at hlen <;>
    first | omega | simp only [List.cons.injEq, and_true] at h
  · have h0 := digit_inj h
    omega
  · have h1 := digit_inj h.1
    have h0 := digit_inj h.2
    omega
  · have h2 := digit_inj h.1
    have h1 := digit_inj h.2.1
    have h0 := digit_inj h.2.2
    omega

theorem decimal5_inj {m n : Nat} (hm : m < 100000) (hn : n < 100000)
    (h : decimal5 m = decimal5 n) : m = n := by
  simp only [decimal5, List.cons.injEq, and_true] at h
  obtain ⟨h4, h3, h2, h1, h0⟩ := h
  have h4 := digit_inj h4
  have h3 := digit_inj h3
  have h2 := digit_inj h2
  have h1 := digit_inj h1
  have h0 := digit_inj h0
  omega

/-! ## Separators -/

/-- Two texts split at their first separator. -/
theorem append_sep_inj {c : Char} {a b r s : Text} (ha : c ∉ a) (hb : c ∉ b)
    (h : a ++ c :: r = b ++ c :: s) : a = b ∧ r = s := by
  induction a generalizing b with
  | nil =>
    cases b with
    | nil => exact ⟨rfl, (List.cons.inj h).2⟩
    | cons y b => exact absurd (List.cons.inj h).1 fun he => hb (he ▸ List.mem_cons_self)
  | cons x a ih =>
    cases b with
    | nil => exact absurd (List.cons.inj h).1.symm fun he => ha (he ▸ List.mem_cons_self)
    | cons y b =>
      obtain ⟨rfl, htail⟩ := List.cons.inj h
      obtain ⟨rfl, hr⟩ := ih (fun hm => ha (List.mem_cons_of_mem _ hm))
        (fun hm => hb (List.mem_cons_of_mem _ hm)) htail
      exact ⟨rfl, hr⟩

end Hwdb.Lib
