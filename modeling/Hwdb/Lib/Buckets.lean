import Mathlib.Algebra.BigOperators.Group.List.Basic
import Mathlib.Algebra.Order.Ring.Nat
import Mathlib.Data.List.Nodup
import Mathlib.Data.List.Perm.Basic
import Mathlib.Logic.Function.Basic

/-!
# Maps kept in buckets

A map from `κ` to `δ` is cut into buckets; `home` says which bucket a key belongs to.  Each bucket
lists its pairs in some order that does not matter.

* `find` — the map that the buckets stand for.
* `Placed` — every key is in its own bucket, once.
* `Placed.find_cons`, `Placed.find_erase`, `find_perm` — a bucket gets a pair, loses a key or is
  reordered, and what that does to the map.
* `total`, `total_update` — how many pairs there are.
-/

set_option autoImplicit false

namespace Hwdb.Lib.Buckets

variable {κ δ : Type}

/-- The pairs of each bucket. -/
abbrev Table (κ δ : Type) := Nat → List (κ × δ)

/-- The value of a key in a list of pairs. -/
def value [DecidableEq κ] (l : List (κ × δ)) (k : κ) : Option δ :=
  (l.find? fun e => decide (e.1 = k)).map (·.2)

/-- The list without a key. -/
def without [DecidableEq κ] (l : List (κ × δ)) (k : κ) : List (κ × δ) :=
  l.filter fun e => decide (e.1 ≠ k)

/-- No key occurs twice. -/
def Distinct (l : List (κ × δ)) : Prop := (l.map Prod.fst).Nodup

section Pairs

variable [DecidableEq κ] {l l' : List (κ × δ)} {k k' : κ} {d : δ}

theorem value_some (h : Distinct l) : value l k = some d ↔ (k, d) ∈ l := by
  constructor
  · intro hv
    obtain ⟨⟨k', d'⟩, hf, rfl⟩ := Option.map_eq_some_iff.mp hv
    have hk : k' = k := by simpa using List.find?_some hf
    rw [← hk]
    exact List.mem_of_find?_eq_some hf
  · intro hm
    induction l with
    | nil => cases hm
    | cons e l ih =>
      have hnd := List.nodup_cons.mp h
      rcases List.mem_cons.mp hm with rfl | hm
      · simp [value]
      · have hne : e.1 ≠ k := fun he => hnd.1 (he ▸ List.mem_map_of_mem (f := Prod.fst) hm)
        have hrest := ih hnd.2 hm
        simp only [value, List.find?_cons, decide_eq_false hne] at hrest ⊢
        exact hrest

theorem value_none : value l k = none ↔ k ∉ l.map Prod.fst := by
  rw [value, Option.map_eq_none_iff, List.find?_eq_none]
  constructor
  · intro h hm
    obtain ⟨e, he, rfl⟩ := List.mem_map.mp hm
    exact h e he (decide_eq_true rfl)
  · intro h e he hk
    exact h (List.mem_map.mpr ⟨e, he, of_decide_eq_true hk⟩)

omit [DecidableEq κ] in
theorem Distinct.perm (h : Distinct l) (hp : l.Perm l') : Distinct l' :=
  (hp.map _).nodup_iff.mp h

/-- The order does not matter. -/
theorem value_perm (h : Distinct l) (hp : l.Perm l') : value l' k = value l k := by
  refine Option.ext fun d => ?_
  rw [value_some h, value_some (h.perm hp)]
  exact hp.symm.mem_iff

/-- Two lists of the same map. -/
theorem perm_of_value (h : Distinct l) (h' : Distinct l')
    (hv : ∀ k, value l k = value l' k) : l.Perm l' := by
  refine (List.perm_ext_iff_of_nodup (List.Nodup.of_map _ h) (List.Nodup.of_map _ h')).mpr ?_
  intro e
  rw [← Prod.eta e, ← value_some h, ← value_some h', hv]

theorem value_filter (h : Distinct l) (p : κ × δ → Bool) (k : κ) :
    value (l.filter p) k = (value l k).filter fun d => p (k, d) := by
  refine Option.ext fun d => ?_
  rw [value_some (List.Nodup.sublist (List.filter_sublist.map _) h), List.mem_filter,
    Option.filter_eq_some_iff, value_some h]

theorem value_cons : value ((k, d) :: l) k' = if k = k' then some d else value l k' := by
  by_cases h : k = k' <;> simp [value, h]

theorem value_without : value (without l k) k' = if k = k' then none else value l k' := by
  induction l with
  | nil => simp [value, without]
  | cons e l ih =>
    by_cases hk : e.1 = k
    · by_cases hkk : k = k'
      · rw [if_pos hkk] at ih ⊢
        simpa [without, List.filter_cons, hk] using ih
      · rw [if_neg hkk] at ih ⊢
        have hne : e.1 ≠ k' := fun h => hkk (hk.symm.trans h)
        simpa [without, List.filter_cons, hk, value, hne, hkk] using ih
    · by_cases hkk : e.1 = k'
      · have hne : k ≠ k' := fun h => hk (hkk.trans h.symm)
        have hcons : without (e :: l) k = e :: without l k := by simp [without, hk]
        rw [hcons, if_neg hne]
        simp [value, hkk]
      · simpa [without, List.filter_cons, hk, value, hkk] using ih

theorem Distinct.without (h : Distinct l) (k : κ) : Distinct (without l k) :=
  List.Nodup.sublist (List.filter_sublist.map _) h

theorem Distinct.cons (h : Distinct l) (hk : value l k = none) (d : δ) :
    Distinct ((k, d) :: l) :=
  List.nodup_cons.mpr ⟨value_none.mp hk, h⟩

/-- The pairs of one key. -/
theorem filter_key (h : Distinct l) (k : κ) :
    l.filter (fun e => decide (e.1 = k)) = ((value l k).map (k, ·)).toList := by
  induction l with
  | nil => rfl
  | cons e l ih =>
    have hnd := List.nodup_cons.mp h
    by_cases hk : e.1 = k
    · subst hk
      have hnone : l.filter (fun x => decide (x.1 = e.1)) = [] := by
        rw [List.filter_eq_nil_iff]
        intro x hx hxe
        exact hnd.1 (of_decide_eq_true hxe ▸ List.mem_map_of_mem hx)
      simp [value, hnone]
    · rw [List.filter_cons_of_neg (by simp [hk]), ih hnd.2]
      simp [value, hk]

/-- Without a key that is there the list has one pair less. -/
theorem length_without (h : Distinct l) (hv : value l k = some d) :
    (without l k).length + 1 = l.length := by
  induction l with
  | nil => cases hv
  | cons e l ih =>
    have hnd := List.nodup_cons.mp h
    by_cases hk : e.1 = k
    · subst hk
      have hall : Buckets.without l e.1 = l :=
        List.filter_eq_self.mpr fun x hx => decide_eq_true fun hx' =>
          hnd.1 (hx' ▸ List.mem_map_of_mem hx)
      have hcons : Buckets.without (e :: l) e.1 = Buckets.without l e.1 := by
        simp [Buckets.without]
      rw [hcons, hall, List.length_cons]
    · have hv' : value l k = some d := by
        simpa [value, hk] using hv
      have hcons : Buckets.without (e :: l) k = e :: Buckets.without l k := by
        simp [Buckets.without, hk]
      rw [hcons, List.length_cons, List.length_cons, ih hnd.2 hv']

end Pairs

/-! ## Buckets -/

/-- What the buckets hold under a key. -/
def find [DecidableEq κ] (home : κ → Nat) (t : Table κ δ) (k : κ) : Option δ :=
  value (t (home k)) k

/-- Every key is in its own bucket, once. -/
structure Placed (home : κ → Nat) (t : Table κ δ) : Prop where
  distinct : ∀ b, Distinct (t b)
  home : ∀ b, ∀ e ∈ t b, home e.1 = b

/-- The number of pairs in the first `n` buckets. -/
def total (n : Nat) (t : Table κ δ) : Nat := ((List.range n).map fun b => (t b).length).sum

/-- All pairs of some buckets. -/
def gather (bs : List Nat) (t : Table κ δ) : List (κ × δ) := bs.flatMap t

/-- All pairs of the first `n` buckets. -/
def entries (n : Nat) (t : Table κ δ) : List (κ × δ) := gather (List.range n) t

section Table

variable {home : κ → Nat} {t t' : Table κ δ} {k k' : κ} {d : δ} {b n : Nat}
  {l : List (κ × δ)}

theorem placed_empty : Placed home (fun _ => ([] : List (κ × δ))) :=
  ⟨fun _ => .nil, fun _ _ h => (by cases h)⟩

theorem length_entries (n : Nat) (t : Table κ δ) : (entries n t).length = total n t := by
  rw [entries, gather, List.length_flatMap, total]

theorem mem_gather {bs : List Nat} {e : κ × δ} : e ∈ gather bs t ↔ ∃ b ∈ bs, e ∈ t b :=
  List.mem_flatMap

/-- No key is in two buckets. -/
theorem Placed.distinct_gather (h : Placed home t) {bs : List Nat} (hbs : bs.Nodup) :
    Distinct (gather bs t) := by
  rw [Distinct, gather, List.map_flatMap]
  refine List.nodup_flatMap.mpr ⟨fun b _ => h.distinct b, hbs.imp ?_⟩
  intro b c hbc k hb hc
  obtain ⟨e, he, rfl⟩ := List.mem_map.mp hb
  obtain ⟨f, hf, hef⟩ := List.mem_map.mp hc
  exact hbc ((h.home b e he).symm.trans (hef ▸ h.home c f hf))

section Update

variable [DecidableEq κ]

/-- Some buckets say of a key what the map says, if its own bucket is one of them. -/
theorem Placed.value_gather (h : Placed home t) {bs : List Nat} (hbs : bs.Nodup) (k : κ) :
    value (gather bs t) k = if home k ∈ bs then find home t k else none := by
  have hmem : ∀ d, (k, d) ∈ gather bs t ↔ home k ∈ bs ∧ (k, d) ∈ t (home k) := by
    intro d
    rw [mem_gather]
    constructor
    · rintro ⟨b, hb, he⟩
      obtain rfl := h.home b _ he
      exact ⟨hb, he⟩
    · exact fun ⟨hb, he⟩ => ⟨_, hb, he⟩
  refine Option.ext fun d => ?_
  rw [value_some (h.distinct_gather hbs), hmem]
  by_cases hb : home k ∈ bs
  · rw [if_pos hb, find, value_some (h.distinct _)]
    exact and_iff_right hb
  · rw [if_neg hb]
    exact ⟨fun hd => absurd hd.1 hb, fun hd => (by cases hd)⟩

/-- A bucket of `k` replaced by one that says `v` of `k` and the same of all other keys. -/
theorem find_update {v : Option δ}
    (hl : ∀ k', value l k' = if k = k' then v else value (t (home k)) k') (k' : κ) :
    find home (Function.update t (home k) l) k' = Function.update (find home t) k v k' := by
  by_cases hk : k' = k
  · subst hk
    simp [find, hl]
  · rw [Function.update_of_ne hk]
    by_cases hb : home k' = home k
    · simp [find, hb, hl, Ne.symm hk]
    · simp [find, Function.update_of_ne hb]

omit [DecidableEq κ] in
theorem Placed.update (h : Placed home t) (hl : Distinct l) (hh : ∀ e ∈ l, home e.1 = b) :
    Placed home (Function.update t b l) := by
  refine ⟨fun c => ?_, fun c => ?_⟩
  · by_cases hc : c = b
    · subst hc
      rwa [Function.update_self]
    · rw [Function.update_of_ne hc]
      exact h.distinct c
  · by_cases hc : c = b
    · subst hc
      rwa [Function.update_self]
    · rw [Function.update_of_ne hc]
      exact h.home c

/-- **A new pair.** -/
theorem Placed.cons (h : Placed home t) (hk : find home t k = none)
    (hp : l.Perm ((k, d) :: t (home k))) :
    Placed home (Function.update t (home k) l) ∧
      find home (Function.update t (home k) l) = Function.update (find home t) k (some d) := by
  have hd := (h.distinct (home k)).cons hk d
  refine ⟨h.update (hd.perm hp.symm) fun e he => ?_, funext (find_update fun k' => ?_)⟩
  · rcases List.mem_cons.mp (hp.mem_iff.mp he) with rfl | he
    · rfl
    · exact h.home _ e he
  · rw [value_perm hd hp.symm, value_cons]

/-- **A key less.** -/
theorem Placed.erase (h : Placed home t) (k : κ) (hp : l.Perm (without (t (home k)) k)) :
    Placed home (Function.update t (home k) l) ∧
      find home (Function.update t (home k) l) = Function.update (find home t) k none := by
  have hd := (h.distinct (home k)).without k
  refine ⟨h.update (hd.perm hp.symm) fun e he => ?_, funext (find_update fun k' => ?_)⟩
  · exact h.home _ e (List.mem_filter.mp (hp.mem_iff.mp he)).1
  · rw [value_perm hd hp.symm, value_without]

/-- **Another order.** -/
theorem Placed.perm (h : Placed home t) (hp : ∀ b, (t' b).Perm (t b)) :
    Placed home t' ∧ find home t' = find home t :=
  ⟨⟨fun b => (h.distinct b).perm (hp b).symm, fun b e he => h.home b e ((hp b).mem_iff.mp he)⟩,
    funext fun _ => value_perm (h.distinct _) (hp _).symm⟩

end Update

theorem total_congr (h : ∀ b < n, (t' b).length = (t b).length) : total n t' = total n t := by
  rw [total, total]
  refine congrArg List.sum (List.map_congr_left fun b hb => ?_)
  exact h b (List.mem_range.mp hb)

/-- The bucket that changes is counted anew. -/
theorem total_update (hb : b < n) (l : List (κ × δ)) :
    total n (Function.update t b l) + (t b).length = total n t + l.length := by
  induction n with
  | zero => exact absurd hb (Nat.not_lt_zero b)
  | succ n ih =>
    have hsucc : ∀ u : Table κ δ, total (n + 1) u = total n u + (u n).length := by
      intro u
      simp [total, List.range_succ]
    rw [hsucc, hsucc]
    by_cases hbn : b = n
    · subst hbn
      have hsame : total b (Function.update t b l) = total b t :=
        total_congr fun c hc => by rw [Function.update_of_ne (Nat.ne_of_lt hc)]
      rw [Function.update_self, hsame]
      omega
    · have hlt := ih (by omega)
      rw [Function.update_of_ne (Ne.symm hbn)]
      omega

end Table

end Hwdb.Lib.Buckets
