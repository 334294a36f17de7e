import Mathlib.Data.List.Basic
import Mathlib.Data.List.Nodup
import Mathlib.Logic.Function.Basic

/-!
# Tables of chained buckets

Entries of type `ρ` carry a key; `bucket` assigns a chain to every key and `same` is the test
that a lookup applies along one chain.  Nothing is assumed about the two, so that what a
lookup returns can be stated before asking whether it is what a map would return.

* `chain_eq_filter` — after any operations each chain is the entries that are still there,
  newest first, restricted to the bucket.
* `lookup_eq_find` — hence a lookup is a search through all entries for one that is in the
  bucket and passes the test.
* `pairwise_of_freshFrom`, `find_key_iff` — entries inserted only while their key is absent
  form a map.
* `Placed`, `mem_insert`, `mem_remove`, `entries` — every entry is in its own chain, once.
* `find_eq_find_iff` — two searches of one list agree exactly when the first hit of the wider
  one is not a wrong one.
-/

set_option autoImplicit false

namespace Hwdb.Lib.Chains

variable {κ ρ : Type} {n : Nat}

/-- The heads of the chains, each chain in order. -/
abbrev Table (n : Nat) (ρ : Type) := Fin n → List ρ

def empty : Table n ρ := fun _ => []

/-- Operations on a table. -/
inductive Op (ρ : Type) where
  | insert (r : ρ)
  | remove (r : ρ)
  deriving DecidableEq, Repr

section Operations

variable [DecidableEq ρ] (key : ρ → κ) (bucket : κ → Fin n) (same : κ → κ → Bool)

/-- Push an entry at the head of its chain. -/
def insert (t : Table n ρ) (r : ρ) : Table n ρ :=
  Function.update t (bucket (key r)) (r :: t (bucket (key r)))

/-- Unlink the first occurrence of an entry from its chain. -/
def remove (t : Table n ρ) (r : ρ) : Table n ρ :=
  Function.update t (bucket (key r)) ((t (bucket (key r))).erase r)

/-- The first entry of the chain of `k` that passes the test. -/
def lookup (t : Table n ρ) (k : κ) : Option ρ :=
  (t (bucket k)).find? fun r => same k (key r)

def apply (t : Table n ρ) : Op ρ → Table n ρ
  | .insert r => insert key bucket t r
  | .remove r => remove key bucket t r

/-- The table after a sequence of operations. -/
def after (ops : List (Op ρ)) : Table n ρ := ops.foldl (apply key bucket) empty

end Operations

section Live

variable [DecidableEq ρ]

def applyLive (l : List ρ) : Op ρ → List ρ
  | .insert r => r :: l
  | .remove r => l.erase r

/-- The entries inserted and not removed again, newest first. -/
def live (ops : List (Op ρ)) : List ρ := ops.foldl applyLive []

variable {key : ρ → κ} {bucket : κ → Fin n} {same : κ → κ → Bool}

/-- Each chain is what `l` holds of its bucket. -/
def Represents (key : ρ → κ) (bucket : κ → Fin n) (t : Table n ρ) (l : List ρ) : Prop :=
  ∀ b, t b = l.filter fun r => bucket (key r) = b

omit [DecidableEq ρ] in
theorem represents_insert {t : Table n ρ} {l : List ρ} (h : Represents key bucket t l) (r : ρ) :
    Represents key bucket (insert key bucket t r) (r :: l) := by
  intro b
  by_cases hb : bucket (key r) = b
  · subst hb
    simp [insert, h (bucket (key r))]
  · have hb' : b ≠ bucket (key r) := fun h => hb h.symm
    simp [insert, Function.update_of_ne hb', h b, hb]

/-- Erasing and filtering commute where the erased entry passes the filter. -/
theorem filter_erase_of_pos {p : ρ → Bool} {r : ρ} (hr : p r = true) (l : List ρ) :
    (l.erase r).filter p = (l.filter p).erase r := by
  induction l with
  | nil => rfl
  | cons x l ih =>
    by_cases hx : x = r
    · subst hx
      simp [hr]
    · cases hp : p x with
      | true => simp [hx, hp, ih]
      | false => simp [hx, hp, ih]

theorem filter_erase_of_neg {p : ρ → Bool} {r : ρ} (hr : p r = false) (l : List ρ) :
    (l.erase r).filter p = l.filter p := by
  induction l with
  | nil => rfl
  | cons x l ih =>
    by_cases hx : x = r
    · subst hx
      simp [hr]
    · simp [hx, List.filter_cons, ih]

theorem represents_remove {t : Table n ρ} {l : List ρ} (h : Represents key bucket t l) (r : ρ) :
    Represents key bucket (remove key bucket t r) (l.erase r) := by
  intro b
  by_cases hb : bucket (key r) = b
  · subst hb
    rw [filter_erase_of_pos (by simp), ← h]
    simp [remove]
  · have hb' : b ≠ bucket (key r) := fun h => hb h.symm
    rw [filter_erase_of_neg (by simp [hb]), ← h]
    simp [remove, Function.update_of_ne hb']

theorem represents_apply {t : Table n ρ} {l : List ρ} (h : Represents key bucket t l)
    (op : Op ρ) : Represents key bucket (apply key bucket t op) (applyLive l op) := by
  cases op with
  | insert r => exact represents_insert h r
  | remove r => exact represents_remove h r

theorem represents_foldl (ops : List (Op ρ)) {t : Table n ρ} {l : List ρ}
    (h : Represents key bucket t l) :
    Represents key bucket (ops.foldl (apply key bucket) t) (ops.foldl applyLive l) := by
  induction ops generalizing t l with
  | nil => exact h
  | cons op ops ih => exact ih (represents_apply h op)

/-- **The chains after any operations.** -/
theorem chain_eq_filter (ops : List (Op ρ)) :
    Represents key bucket (after key bucket ops) (live ops) :=
  represents_foldl ops fun _ => rfl

omit [DecidableEq ρ] in
/-- A lookup is a search through everything that is still in the table. -/
theorem lookup_eq_find {t : Table n ρ} {l : List ρ} (h : Represents key bucket t l) (k : κ) :
    lookup key bucket same t k =
      l.find? fun r => decide (bucket (key r) = bucket k) && same k (key r) := by
  rw [lookup, h (bucket k), List.find?_filter]
  congr 1
  funext r
  simp

omit [DecidableEq ρ] in
/-- Where every entry of the chain passes the test, a lookup returns the head. -/
theorem lookup_eq_head? {t : Table n ρ} {k : κ}
    (h : ∀ r ∈ t (bucket k), same k (key r) = true) :
    lookup key bucket same t k = (t (bucket k)).head? := by
  unfold lookup
  cases hc : t (bucket k) with
  | nil => rfl
  | cons r l =>
    have hr : same k (key r) = true := h r (hc ▸ List.mem_cons_self)
    simp [hr]

omit [DecidableEq ρ] in
/-- What was inserted last is found under its own key. -/
theorem lookup_insert_self {t : Table n ρ} {r : ρ} (h : same (key r) (key r) = true) :
    lookup key bucket same (insert key bucket t r) (key r) = some r := by
  simp [lookup, insert, h]

/-- Every entry is inserted while no entry with its key is there. -/
def FreshFrom (key : ρ → κ) (l : List ρ) : List (Op ρ) → Prop
  | [] => True
  | .insert r :: ops => (∀ x ∈ l, key x ≠ key r) ∧ FreshFrom key (r :: l) ops
  | .remove r :: ops => FreshFrom key (l.erase r) ops

instance decidableFreshFrom [DecidableEq κ] :
    ∀ (l : List ρ) (ops : List (Op ρ)), Decidable (FreshFrom key l ops)
  | _, [] => isTrue trivial
  | l, .insert r :: ops =>
    have := decidableFreshFrom (r :: l) ops
    inferInstanceAs (Decidable (_ ∧ _))
  | l, .remove r :: ops => decidableFreshFrom (l.erase r) ops

/-- Entries that are inserted only while their key is absent have different keys. -/
theorem pairwise_of_freshFrom {ops : List (Op ρ)} {l : List ρ} (h : FreshFrom key l ops)
    (hl : l.Pairwise fun a b => key a ≠ key b) :
    (ops.foldl applyLive l).Pairwise fun a b => key a ≠ key b := by
  induction ops generalizing l with
  | nil => exact hl
  | cons op ops ih =>
    cases op with
    | insert r => exact ih h.2 (hl.cons fun x hx => (h.1 x hx).symm)
    | remove r => exact ih h (hl.sublist List.erase_sublist)

end Live

/-- A search for `p` and a search for `q`, where every hit of `q` is one of `p`, agree exactly
when no entry that passes `p` only stands before the first hit of `q`. -/
theorem find_eq_find_iff {l : List ρ} {p q : ρ → Bool} (hqp : ∀ r, q r = true → p r = true) :
    l.find? p = l.find? q ↔
      ∀ newer r older, l = newer ++ r :: older → p r = true → q r = false →
        ∃ x ∈ newer, q x = true := by
  induction l with
  | nil => simp
  | cons a l ih =>
    cases hq : q a with
    | true =>
      simp only [List.find?_cons, hq, hqp a hq, true_iff]
      intro newer r older hl _ hqr
      cases newer with
      | nil =>
        obtain ⟨rfl, -⟩ := List.cons.inj hl
        rw [hq] at hqr
        cases hqr
      | cons x newer =>
        obtain ⟨rfl, -⟩ := List.cons.inj hl
        exact ⟨a, by simp, hq⟩
    | false =>
      cases hp : p a with
      | true =>
        simp only [List.find?_cons, hq, hp]
        constructor
        · intro heq
          have := List.find?_some heq.symm
          rw [hq] at this
          cases this
        · intro h
          obtain ⟨x, hx, -⟩ := h [] a l rfl hp hq
          cases hx
      | false =>
        simp only [List.find?_cons, hq, hp]
        rw [ih]
        constructor
        · intro h newer r older hl hpr hqr
          cases newer with
          | nil =>
            obtain ⟨rfl, -⟩ := List.cons.inj hl
            rw [hp] at hpr
            cases hpr
          | cons y newer =>
            obtain ⟨rfl, rfl⟩ := List.cons.inj hl
            obtain ⟨x, hx, hqx⟩ := h newer r older rfl hpr hqr
            exact ⟨x, List.mem_cons_of_mem _ hx, hqx⟩
        · intro h newer r older hl hpr hqr
          obtain ⟨x, hx, hqx⟩ := h (a :: newer) r older (by rw [hl]; rfl) hpr hqr
          rcases List.mem_cons.mp hx with rfl | hx
          · rw [hq] at hqx
            cases hqx
          · exact ⟨x, hx, hqx⟩

/-! ## Where entries are -/

section Placement

variable {key key' : ρ → κ} {bucket : κ → Fin n} {same : κ → κ → Bool} {t : Table n ρ}

/-- An entry is in some chain. -/
def Mem (t : Table n ρ) (r : ρ) : Prop := ∃ b, r ∈ t b

/-- Every entry is in the chain of its key and in no chain twice. -/
def Placed (key : ρ → κ) (bucket : κ → Fin n) (t : Table n ρ) : Prop :=
  ∀ b, (t b).Nodup ∧ ∀ r ∈ t b, bucket (key r) = b

theorem placed_empty : Placed key bucket (empty : Table n ρ) := fun _ =>
  ⟨.nil, fun _ h => nomatch h⟩

/-- The keys of entries that are not there do not matter. -/
theorem Placed.congr (h : Placed key bucket t) (hkey : ∀ r, Mem t r → key' r = key r) :
    Placed key' bucket t := fun b =>
  ⟨(h b).1, fun r hr => by rw [hkey r ⟨b, hr⟩]; exact (h b).2 r hr⟩

theorem mem_lookup {k : κ} {r : ρ} (h : lookup key bucket same t k = some r) :
    r ∈ t (bucket k) ∧ same k (key r) = true := by
  unfold lookup at h
  exact ⟨List.mem_of_find?_eq_some h, List.find?_some (p := fun r => same k (key r)) h⟩

theorem mem_insert [DecidableEq ρ] {r x : ρ} :
    Mem (insert key bucket t r) x ↔ x = r ∨ Mem t x := by
  constructor
  · rintro ⟨b, hx⟩
    by_cases hb : b = bucket (key r)
    · subst hb
      simp only [insert, Function.update_self, List.mem_cons] at hx
      exact hx.imp_right fun hx => ⟨_, hx⟩
    · rw [insert, Function.update_of_ne hb] at hx
      exact .inr ⟨b, hx⟩
  · rintro (rfl | ⟨b, hx⟩)
    · exact ⟨bucket (key x), by simp [insert]⟩
    · by_cases hb : b = bucket (key r)
      · subst hb
        exact ⟨bucket (key r), by simp [insert, hx]⟩
      · exact ⟨b, by rwa [insert, Function.update_of_ne hb]⟩

theorem Placed.insert [DecidableEq ρ] (h : Placed key bucket t) {r : ρ} (hr : ¬ Mem t r) :
    Placed key bucket (insert key bucket t r) := by
  intro b
  by_cases hb : b = bucket (key r)
  · subst hb
    simp only [Chains.insert, Function.update_self]
    refine ⟨List.nodup_cons.mpr ⟨fun hm => hr ⟨_, hm⟩, (h _).1⟩, fun x hx => ?_⟩
    rcases List.mem_cons.mp hx with rfl | hx
    · rfl
    · exact (h _).2 x hx
  · rw [Chains.insert, Function.update_of_ne hb]
    exact h b

theorem mem_remove [DecidableEq ρ] (h : Placed key bucket t) {r x : ρ} {b : Fin n} :
    x ∈ remove key bucket t r b ↔ x ∈ t b ∧ x ≠ r := by
  by_cases hb : b = bucket (key r)
  · subst hb
    rw [remove, Function.update_self, (h _).1.mem_erase_iff, and_comm]
  · rw [remove, Function.update_of_ne hb]
    refine ⟨fun hx => ⟨hx, ?_⟩, And.left⟩
    rintro rfl
    exact hb ((h b).2 x hx).symm

theorem Placed.remove [DecidableEq ρ] (h : Placed key bucket t) (r : ρ) :
    Placed key bucket (remove key bucket t r) := by
  intro b
  refine ⟨?_, fun x hx => (h b).2 x ((mem_remove h).mp hx).1⟩
  by_cases hb : b = bucket (key r)
  · subst hb
    rw [Chains.remove, Function.update_self]
    exact (h _).1.erase r
  · rw [Chains.remove, Function.update_of_ne hb]
    exact (h b).1

/-- All entries, chain after chain. -/
def entries (t : Table n ρ) : List ρ := (List.finRange n).flatMap t

theorem mem_entries {r : ρ} : r ∈ entries t ↔ Mem t r := by
  simp [entries, Mem]

theorem Placed.nodup_entries (h : Placed key bucket t) : (entries t).Nodup := by
  refine List.nodup_flatMap.mpr ⟨fun b _ => (h b).1, ?_⟩
  refine (List.nodup_finRange n).imp ?_
  intro b c hbc x hxb hxc
  exact hbc (((h b).2 x hxb).symm.trans ((h c).2 x hxc))

end Placement

/-- In a list of different keys the search for a key finds its entry and nothing else. -/
theorem find_key_iff [DecidableEq κ] {key : ρ → κ} {l : List ρ}
    (h : l.Pairwise fun a b => key a ≠ key b) (k : κ) (r : ρ) :
    (l.find? fun x => decide (key x = k)) = some r ↔ r ∈ l ∧ key r = k := by
  constructor
  · intro hf
    exact ⟨List.mem_of_find?_eq_some hf, by simpa using List.find?_some hf⟩
  · rintro ⟨hr, hk⟩
    induction h with
    | nil => cases hr
    | @cons a l ha _ ih =>
      rcases List.mem_cons.mp hr with rfl | hr
      · simp [hk]
      · have hne : key a ≠ k := fun he => ha r hr (he.trans hk.symm)
        simp [hne, ih hr]

end Hwdb.Lib.Chains
