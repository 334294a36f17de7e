import Hwdb.Hashish.Handle

/-!
# Iterators of libhashish (`hi_iterator.c`)

An iterator copies one bucket after the other into arrays of its own and hands the copies out from
the last to the first.  The table may change in the meantime.

* `hiIteratorCreate`, `hiIteratorGetnext` — the iterator over lists and over trees.
* `pending` — what is still to be handed out.
* `hiIteratorCreate_spec`, `hiIteratorGetnext_spec` — one call takes one pair from it.
-/

set_option autoImplicit false

namespace Hwdb.Hashish

open Hwdb.Lib Hwdb.Lib.RedBlack

variable {κ δ : Type}

/-- `struct hi_operator` without its table; `none` is an entry of the arrays that is not set. -/
structure HiIterator (κ δ : Type) where
  bucket : Nat
  a : List (Option (κ × δ))
  nmemb : Nat
  deriving DecidableEq, Repr

/-- `lhi_bucket_array_alloc`: three arrays or none. -/
def lhiBucketArrayAlloc (hp : Heap) : Bool × Heap :=
  match malloc hp with
  | (none, hp) => (false, hp)
  | (some _, hp) =>
    match malloc hp with
    | (none, hp) => (false, hp)
    | (some _, hp) =>
      match malloc hp with
      | (none, hp) => (false, hp)
      | (some _, hp) => (true, hp)

namespace HiHandle

variable (h : HiHandle κ δ)

/-- `lhi_list_bucket_to_array`: the arrays are as long as the counter says, and the objects are
written from their start. -/
def lhiListBucketToArray (bucket : Nat) (hp : Heap) :
    Heap × Except HiErr (List (Option (κ × δ))) :=
  if h.tableSize < bucket then (hp, .error .range)
  else
    let max := h.bucketSize bucket
    if max = 0 then (hp, .error .nodata)
    else
      match lhiBucketArrayAlloc hp with
      | (false, hp) => (hp, .error .system)
      | (true, hp) =>
        match h.buckets bucket with
        | .tree _ => (hp, .error .internal)
        | .list objs =>
          if objs.length ≤ max then
            (hp, .ok (objs.map (fun o => some (o.key, o.data)) ++
              List.replicate (max - objs.length) none))
          else (hp, .error .undefined)

/-- `lhi_rbtree_bucket_to_array`. -/
def lhiRbtreeBucketToArray (bucket : Nat) (hp : Heap) :
    Heap × Except HiErr (List (Option (κ × δ))) :=
  if h.tableSize < bucket then (hp, .error .range)
  else
    match h.buckets bucket with
    | .list _ => (hp, .error .internal)
    | .tree .leaf => (hp, .error .nodata)
    | .tree root =>
      let max := h.bucketSize bucket
      if max = 0 then (hp, .error .nodata)
      else
        match lhiBucketArrayAlloc hp with
        | (false, hp) => (hp, .error .system)
        | (true, hp) => (hp, .ok (rbTraverse root 0 (List.replicate max none)).2)

/-- The engine's copy of a bucket. -/
def bucketToArray (bucket : Nat) (hp : Heap) : Heap × Except HiErr (List (Option (κ × δ))) :=
  match h.collEng with
  | .rbtree => h.lhiRbtreeBucketToArray bucket hp
  | _ => h.lhiListBucketToArray bucket hp

/-- `list_get_next_bucket` and `rbtree_get_next_tree`, for the buckets that are left. -/
def getNextBucket : Nat → Nat → Heap → Heap × HiIterator κ δ × Except HiErr Unit
  | 0, b, hp => (hp, ⟨b, [], 0⟩, .error .nodata)
  | n + 1, b, hp =>
    match h.bucketToArray b hp with
    | (hp, .ok a) => (hp, ⟨b, a, a.length⟩, .ok ())
    | (hp, .error .nodata) => getNextBucket n (b + 1) hp
    | (hp, .error e) => (hp, ⟨b, [], 0⟩, .error e)

/-- `hi_iterator_create`. -/
def hiIteratorCreate (hp : Heap) : Heap × Except HiErr (HiIterator κ δ) :=
  match malloc hp with
  | (none, hp) => (hp, .error .system)
  | (some _, hp) =>
    match h.getNextBucket h.tableSize 0 hp with
    | (hp, i, .ok ()) => (hp, .ok i)
    | (hp, _, .error e) => (hp, .error e)

/-- `hi_iterator_getnext` from its label `out` on. -/
def out (i : HiIterator κ δ) (hp : Heap) : Heap × HiIterator κ δ × Except HiErr (κ × δ) :=
  let i := { i with nmemb := i.nmemb - 1 }
  match i.a[i.nmemb]? with
  | some (some e) => (hp, i, .ok e)
  | _ => (hp, i, .error .undefined)

/-- `hi_iterator_getnext`. -/
def hiIteratorGetnext (i : HiIterator κ δ) (hp : Heap) :
    Heap × HiIterator κ δ × Except HiErr (κ × δ) :=
  if i.nmemb ≠ 0 then out i hp
  else
    match h.getNextBucket (h.tableSize - (i.bucket + 1)) (i.bucket + 1) hp with
    | (hp, i, .ok ()) => out i hp
    | (hp, i, .error e) => (hp, i, .error e)

/-- The pairs in the buckets from `b` on. -/
def later (b : Nat) : List (κ × δ) := Buckets.gather (List.range' b (h.tableSize - b)) h.table

/-- What an iterator has still to hand out: the rest of its copy and the buckets behind it. -/
def pending (i : HiIterator κ δ) : List (κ × δ) :=
  (i.a.take i.nmemb).filterMap id ++ h.later (i.bucket + 1)

end HiHandle

/-- The arrays of an iterator are full, and their keys are those of one bucket. -/
structure Copied (h : HiHandle κ δ) (i : HiIterator κ δ) : Prop where
  full : ∃ l : List (κ × δ), i.a = l.map some ∧ Buckets.Distinct l ∧ ∀ e ∈ l, h.home e.1 = i.bucket
  nmemb : i.nmemb ≤ i.a.length
  bucket : i.bucket < h.tableSize

/-- Every call of `malloc` succeeds. -/
def Plenty (hp : Heap) : Prop := ∀ n, hp n ≠ none

section Copies

open HiHandle

variable {h : HiHandle κ δ} {i : HiIterator κ δ} {hp : Heap} {b n : Nat}

theorem Plenty.malloc (h : Plenty hp) : (malloc hp).1 ≠ none ∧ Plenty (malloc hp).2 :=
  ⟨h 0, fun n => h (n + 1)⟩

/-- An iterator over a table with the same settings. -/
theorem Copied.of_set {u : HiHandle κ δ} (hc : Copied h i)
    (hset : u.toHiInitSet = h.toHiInitSet) : Copied u i := by
  have hhome : u.home = h.home := by
    funext k
    rw [home, home, hset]
  have hsize : u.tableSize = h.tableSize := by
    rw [hset]
  obtain ⟨l, ha, hl, hh⟩ := hc.full
  exact ⟨⟨l, ha, hl, hhome ▸ hh⟩, hc.nmemb, hsize ▸ hc.bucket⟩

/-- Memory runs out or it does not. -/
theorem lhiBucketArrayAlloc_cases (hp : Heap) : ∃ hp', (Plenty hp → Plenty hp') ∧
    (lhiBucketArrayAlloc hp = (true, hp') ∨
      lhiBucketArrayAlloc hp = (false, hp') ∧ ¬ Plenty hp) := by
  have hstep : ∀ hp : Heap, (∃ hp', malloc hp = (none, hp') ∧ ¬ Plenty hp ∧
      (Plenty hp → Plenty hp')) ∨
        ∃ w hp', malloc hp = (some w, hp') ∧ (Plenty hp → Plenty hp') := by
    intro hp
    cases hm : hp 0 with
    | none => exact .inl ⟨_, by rw [malloc, hm], fun h => h 0 hm, fun h => h.malloc.2⟩
    | some w => exact .inr ⟨w, _, by rw [malloc, hm], fun h => h.malloc.2⟩
  rcases hstep hp with ⟨hp1, h1, hn, hk⟩ | ⟨w, hp1, h1, hk⟩
  · exact ⟨hp1, hk, .inr ⟨by simp only [lhiBucketArrayAlloc, h1], hn⟩⟩
  rcases hstep hp1 with ⟨hp2, h2, hn2, hk2⟩ | ⟨w2, hp2, h2, hk2⟩
  · exact ⟨hp2, hk2 ∘ hk, .inr ⟨by simp only [lhiBucketArrayAlloc, h1, h2], hn2 ∘ hk⟩⟩
  rcases hstep hp2 with ⟨hp3, h3, hn3, hk3⟩ | ⟨w3, hp3, h3, hk3⟩
  · exact ⟨hp3, hk3 ∘ hk2 ∘ hk,
      .inr ⟨by simp only [lhiBucketArrayAlloc, h1, h2, h3], hn3 ∘ hk2 ∘ hk⟩⟩
  · exact ⟨hp3, hk3 ∘ hk2 ∘ hk, .inl (by simp only [lhiBucketArrayAlloc, h1, h2, h3])⟩

/-- **The copy of a bucket** has its pairs, nothing else and no gap. -/
theorem bucketToArray_spec (h' : WellFormed h) (hb : b < h.tableSize) (hp : Heap) :
    (h.table b = [] ∧ h.bucketToArray b hp = (hp, .error .nodata)) ∨
    ∃ hp', (Plenty hp → Plenty hp') ∧
      ((h.bucketToArray b hp = (hp', .error .system) ∧ ¬ Plenty hp) ∨
        ∃ l, h.bucketToArray b hp = (hp', .ok (l.map some)) ∧ l.Perm (h.table b) ∧ l ≠ []) := by
  have hsize := h'.sizes b
  obtain ⟨hp', hk, halloc⟩ := lhiBucketArrayAlloc_cases hp
  by_cases he : h.collEng = .rbtree
  · obtain ⟨root, hroot, htable, -⟩ := h'.tree he b
    have harr : h.bucketToArray b hp = h.lhiRbtreeBucketToArray b hp := by
      simp [bucketToArray, he]
    rw [harr, lhiRbtreeBucketToArray, if_neg (Nat.not_lt.mpr (Nat.le_of_lt hb)), hroot]
    cases root with
    | leaf => exact .inl ⟨htable, rfl⟩
    | node c l e r =>
      have hlen : (h.table b).length = (ColorTree.node c l e r).preorder.length := by
        rw [htable]
        exact (perm_preorder _).length_eq.symm
      have hne : h.bucketSize b ≠ 0 := by
        rw [hsize, hlen]
        exact Nat.succ_ne_zero _
      refine .inr ⟨hp', hk, ?_⟩
      rcases halloc with hok | ⟨hfail, hn⟩
      · refine .inr ⟨(ColorTree.node c l e r).preorder, ?_, htable ▸ perm_preorder _,
          fun h => (by cases h)⟩
        have htraverse := rbTraverse_eq (ColorTree.node c l e r) []
          (List.replicate (h.bucketSize b) none) [] (by rw [List.length_replicate, hsize, hlen])
        simp only [if_neg hne, hok]
        simpa using congrArg Prod.snd htraverse
      · exact .inl ⟨by simp only [if_neg hne, hfail], hn⟩
  · obtain ⟨objs, hobjs, htable⟩ := h'.list he b
    have harr : h.bucketToArray b hp = h.lhiListBucketToArray b hp := by
      cases hc : h.collEng <;> simp_all [bucketToArray]
    have hlen : h.bucketSize b = objs.length := by
      rw [hsize, htable, chainPairs, List.length_map]
    rw [harr, lhiListBucketToArray, if_neg (Nat.not_lt.mpr (Nat.le_of_lt hb)), hobjs, hlen]
    cases objs with
    | nil => exact .inl ⟨htable, rfl⟩
    | cons o objs =>
      refine .inr ⟨hp', hk, ?_⟩
      have hne : (o :: objs).length ≠ 0 := Nat.succ_ne_zero _
      rcases halloc with hok | ⟨hfail, hn⟩
      · refine .inr ⟨chainPairs (o :: objs), ?_, htable ▸ .refl _, fun h => (by cases h)⟩
        simp only [if_neg hne, hok, Nat.le_refl, if_true, Nat.sub_self, List.replicate_zero,
          List.append_nil, chainPairs, List.map_map]
        rfl
      · exact .inl ⟨by simp only [if_neg hne, hfail], hn⟩

theorem later_succ (hb : b < h.tableSize) : h.later b = h.table b ++ h.later (b + 1) := by
  have hn : h.tableSize - b = h.tableSize - (b + 1) + 1 := by omega
  rw [later, hn, List.range'_succ]
  rfl

theorem later_end : h.later h.tableSize = [] := by
  simp [later, Buckets.gather]

/-- **The next bucket** that is not empty. -/
theorem getNextBucket_spec (h' : WellFormed h) (hn : b + n = h.tableSize) (hp : Heap) :
    ∃ hp', (Plenty hp → Plenty hp') ∧
      ((∃ i, h.getNextBucket n b hp = (hp', i, .error .nodata) ∧ h.later b = []) ∨
        (∃ i, h.getNextBucket n b hp = (hp', i, .error .system) ∧ ¬ Plenty hp) ∨
        ∃ i, h.getNextBucket n b hp = (hp', i, .ok ()) ∧ Copied h i ∧ i.nmemb ≠ 0 ∧
          (h.pending i).Perm (h.later b)) := by
  induction n generalizing b hp with
  | zero =>
    obtain rfl : b = h.tableSize := by omega
    exact ⟨hp, id, .inl ⟨_, rfl, later_end⟩⟩
  | succ n ih =>
    have hb : b < h.tableSize := by omega
    rcases bucketToArray_spec h' hb hp with ⟨hnil, hres⟩ | ⟨hp', hk, hres⟩
    · rw [getNextBucket, hres, later_succ hb, hnil]
      exact ih (by omega) hp
    · refine ⟨hp', hk, ?_⟩
      rcases hres with ⟨hres, hno⟩ | ⟨l, hres, hperm, hne⟩
      · exact .inr (.inl ⟨_, by rw [getNextBucket, hres], hno⟩)
      · refine .inr (.inr ⟨⟨b, l.map some, (l.map some).length⟩, by rw [getNextBucket, hres], ?_,
          ?_, ?_⟩)
        · exact ⟨⟨l, rfl, (h'.placed.distinct b).perm hperm.symm,
            fun e he => h'.placed.home b e (hperm.mem_iff.mp he)⟩, Nat.le_refl _, hb⟩
        · rw [List.length_map]
          exact fun h0 => hne (List.length_eq_zero_iff.mp h0)
        · rw [later_succ hb, pending]
          dsimp only
          rw [List.take_length]
          refine List.Perm.append_right _ ?_
          have hred : (l.map some).filterMap id = l := by simp
          rw [hred]
          exact hperm

/-- `out` hands out the last pair of the copy that is still to come. -/
theorem out_spec (hc : Copied h i) (hn : i.nmemb ≠ 0) (hp : Heap) :
    ∃ u e, out i hp = (hp, u, .ok e) ∧ Copied h u ∧ (h.pending i).Perm (e :: h.pending u) := by
  obtain ⟨l, ha, hd, hh⟩ := hc.full
  obtain ⟨m, hm⟩ := Nat.exists_eq_succ_of_ne_zero hn
  have hlen : m < l.length := by
    have hle := hc.nmemb
    rw [ha, List.length_map] at hle
    omega
  have hget : i.a[m]? = some (some l[m]) := by
    rw [ha, List.getElem?_map, List.getElem?_eq_getElem hlen]
    rfl
  refine ⟨{ i with nmemb := m }, l[m], ?_, ⟨⟨l, ha, hd, hh⟩, ?_, hc.bucket⟩, ?_⟩
  · simp only [out, hm, Nat.succ_sub_one, hget]
  · rw [ha, List.length_map]
    exact Nat.le_of_lt hlen
  · have htake : ∀ k, (i.a.take k).filterMap id = l.take k := by
      intro k
      rw [ha, ← List.map_take]
      simp
    rw [pending, pending, htake, hm]
    dsimp only
    rw [htake, List.take_succ_eq_append_getElem hlen, List.append_assoc]
    exact List.perm_middle

/-- **`hi_iterator_create`** finds everything in the table pending, or nothing there. -/
theorem hiIteratorCreate_spec (h' : WellFormed h) (hp : Heap) :
    ∃ hp', (Plenty hp → Plenty hp') ∧
      ((h.hiIteratorCreate hp = (hp', .error .nodata) ∧ h.later 0 = []) ∨
        (h.hiIteratorCreate hp = (hp', .error .system) ∧ ¬ Plenty hp) ∨
        ∃ i, h.hiIteratorCreate hp = (hp', .ok i) ∧ Copied h i ∧
          (h.pending i).Perm (h.later 0)) := by
  unfold hiIteratorCreate
  cases hm : hp 0 with
  | none =>
    exact ⟨_, fun h => h.malloc.2, .inr (.inl ⟨by rw [malloc, hm], fun h => h 0 hm⟩)⟩
  | some w =>
    rw [malloc, hm]
    obtain ⟨hp', hk, hres⟩ := getNextBucket_spec h' (Nat.zero_add _) fun n => hp (n + 1)
    have hk' : Plenty hp → Plenty hp' := fun h => hk h.malloc.2
    refine ⟨hp', hk', ?_⟩
    rcases hres with ⟨i, hres, hnil⟩ | ⟨i, hres, hno⟩ | ⟨i, hres, hc, -, hperm⟩
    · exact .inl ⟨by dsimp only; rw [hres], hnil⟩
    · exact .inr (.inl ⟨by dsimp only; rw [hres], fun h => hno h.malloc.2⟩)
    · exact .inr (.inr ⟨i, by dsimp only; rw [hres], hc, hperm⟩)

/-- **`hi_iterator_getnext`** hands out a pending pair while there is one. -/
theorem hiIteratorGetnext_spec (h' : WellFormed h) (hc : Copied h i) (hp : Heap) :
    ∃ hp' u, (Plenty hp → Plenty hp') ∧
      ((h.hiIteratorGetnext i hp = (hp', u, .error .nodata) ∧ h.pending i = []) ∨
        (h.hiIteratorGetnext i hp = (hp', u, .error .system) ∧ ¬ Plenty hp) ∨
        ∃ e, h.hiIteratorGetnext i hp = (hp', u, .ok e) ∧ Copied h u ∧
          (h.pending i).Perm (e :: h.pending u)) := by
  unfold hiIteratorGetnext
  by_cases hn : i.nmemb ≠ 0
  · rw [if_pos hn]
    obtain ⟨u, e, hout, hcu, hperm⟩ := out_spec hc hn hp
    exact ⟨hp, u, id, .inr (.inr ⟨e, hout, hcu, hperm⟩)⟩
  · rw [if_neg hn]
    have hzero : i.nmemb = 0 := not_not.mp hn
    have hpend : h.pending i = h.later (i.bucket + 1) := by
      rw [pending, hzero]
      rfl
    have hb := hc.bucket
    obtain ⟨hp', hk, hres⟩ := getNextBucket_spec h'
      (n := h.tableSize - (i.bucket + 1)) (b := i.bucket + 1) (by omega) hp
    rcases hres with ⟨u, hres, hnil⟩ | ⟨u, hres, hno⟩ | ⟨u, hres, hcu, hnu, hperm⟩
    · exact ⟨hp', u, hk, .inl ⟨by rw [hres], hpend.trans hnil⟩⟩
    · exact ⟨hp', u, hk, .inr (.inl ⟨by rw [hres], hno⟩)⟩
    · obtain ⟨v, e, hout, hcv, hpermv⟩ := out_spec hcu hnu hp'
      refine ⟨hp', v, hk, .inr (.inr ⟨e, by rw [hres]; exact hout, hcv, ?_⟩)⟩
      rw [hpend]
      exact hperm.symm.trans hpermv

end Copies

end Hwdb.Hashish
