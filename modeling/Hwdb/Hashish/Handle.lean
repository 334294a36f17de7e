import Hwdb.Hashish.RbTree

/-!
# Tables of libhashish (`hi_list.c`, `hi_rbtree.c`, `hi_operations.c`)

A table has `table_size` buckets, and the collision engine says what a bucket is: a linked list in
one of four variants or a red-black tree.  A key stands with its length.  `Heap` answers the coming
calls of `malloc`.

* `hiGet`, `hiRemove`, `hiInsertWith` — the operations, each over the engines.
* `WellFormed` — what every operation keeps: each key once and in its bucket, and right counters.
* `hiGet_spec`, `hiRemove_spec`, `lhiInsert_spec` — one operation against the map `find`.
-/

set_option autoImplicit false

namespace Hwdb.Hashish

open Hwdb.Lib Hwdb.Lib.RedBlack

/-- The collision engines on lists and trees. -/
inductive CollEng where
  | list
  | listHash
  | listMtf
  | listMtfHash
  | rbtree
  deriving DecidableEq, Repr

/-- The error codes, the `ENOMEM` that `posix_memalign` returns, and `undefined` for the use of
memory that is not the program's. -/
inductive HiErr where
  | system
  | enomem
  | nodata
  | internal
  | nokey
  | dupkey
  | range
  | undefined
  deriving DecidableEq, Repr

/-- A call failed for want of memory. -/
def HiErr.NoMemory (e : HiErr) : Prop := e = .system ∨ e = .enomem

/-- What the coming calls of `malloc` return: NULL, or a block whose unset words read as given. -/
abbrev Heap := Nat → Option Nat

def malloc (hp : Heap) : Option Nat × Heap := (hp 0, fun n => hp (n + 1))

/-- `hi_bucket_hl_obj_t`; a key stands with its length. -/
structure BucketObj (κ δ : Type) where
  key : κ
  data : δ
  keyHash : Nat
  deriving DecidableEq, Repr

/-- One bucket of `eng_list` or of `eng_rbtree`. -/
inductive Bucket (κ δ : Type) where
  | list (objs : List (BucketObj κ δ))
  | tree (root : ColorTree (κ × δ))
  deriving DecidableEq, Repr

/-- `struct hi_init_set`; `rehashThreshold` says which load factors exceed the threshold. -/
structure HiInitSet (κ : Type) where
  tableSize : Nat
  rehashAuto : Bool
  rehashThreshold : Nat → Bool
  collEng : CollEng
  hashFunc : κ → Nat
  hash2Func : κ → Nat
  keyCmp : κ → κ → Int

/-- `hi_handle_t`. -/
structure HiHandle (κ δ : Type) extends HiInitSet κ where
  bucketSize : Nat → Nat
  noObjects : Nat
  buckets : Nat → Bucket κ δ

variable {κ δ : Type}

/-- An engine with a second hash function. -/
def CollEng.hashed : CollEng → Bool
  | .listHash | .listMtfHash => true
  | _ => false

/-- An engine that moves what it finds to the front. -/
def CollEng.mtf : CollEng → Bool
  | .listMtf | .listMtfHash => true
  | _ => false

namespace HiHandle

variable (h : HiHandle κ δ)

/-- `hash_func(key, keylen) % table_size`. -/
def home (key : κ) : Nat := h.hashFunc key % h.tableSize

/-- `h` with another bucket and its counters. -/
def setBucket (b : Nat) (bucket : Bucket κ δ) (size objects : Nat) : HiHandle κ δ :=
  { h with
    buckets := Function.update h.buckets b bucket
    bucketSize := Function.update h.bucketSize b size
    noObjects := objects }

/-! ## Lists -/

/-- The test of `lhi_lookup_list` and `lhi_remove_list`. -/
def sees (key : κ) (o : BucketObj κ δ) : Bool :=
  (!h.collEng.hashed || h.hash2Func key == o.keyHash) && h.keyCmp key o.key == 0

/-- The test of `lhi_get_list`: `COLL_ENG_LIST_MTF_HASH` wants the hash values to differ. -/
def getSees (key : κ) (o : BucketObj κ δ) : Bool :=
  if h.collEng = .listMtfHash then h.hash2Func key != o.keyHash && h.keyCmp key o.key == 0
  else h.sees key o

/-- The loop with the trailing pointer: the first object that passes, and the list without it. -/
def unlink (test : BucketObj κ δ → Bool) :
    List (BucketObj κ δ) → Option (BucketObj κ δ × List (BucketObj κ δ))
  | [] => none
  | o :: objs =>
    if test o then some (o, objs) else (unlink test objs).map fun (x, objs) => (x, o :: objs)

/-- `lhi_lookup_list`. -/
def lhiLookupList (key : κ) : Bool :=
  match h.buckets (h.home key) with
  | .list objs => objs.any (h.sees key)
  | .tree _ => false

/-- `lhi_get_list`. -/
def lhiGetList (key : κ) : HiHandle κ δ × Except HiErr δ :=
  let b := h.home key
  match h.buckets b with
  | .list objs =>
    match unlink (h.getSees key) objs with
    | none => (h, .error .nokey)
    | some (o, objs) =>
      if h.collEng.mtf then
        (h.setBucket b (.list (o :: objs)) (h.bucketSize b) h.noObjects, .ok o.data)
      else (h, .ok o.data)
  | .tree _ => (h, .error .internal)

/-- `lhi_remove_list`. -/
def lhiRemoveList (key : κ) : HiHandle κ δ × Except HiErr δ :=
  let b := h.home key
  match h.buckets b with
  | .list objs =>
    match unlink (h.sees key) objs with
    | none => (h, .error .nokey)
    | some (o, objs) =>
      (h.setBucket b (.list objs) (h.bucketSize b - 1) (h.noObjects - 1), .ok o.data)
  | .tree _ => (h, .error .internal)

/-- `lhi_insert_list`: the field `key_hash` is left as `malloc` gave it, and what the allocator
returns is returned. -/
def lhiInsertList (key : κ) (data : δ) (hp : Heap) : HiHandle κ δ × Heap × Except HiErr Unit :=
  let b := h.home key
  match h.buckets b, malloc hp with
  | .tree _, (_, hp) => (h, hp, .error .internal)
  | .list _, (none, hp) => (h, hp, .error .enomem)
  | .list objs, (some w, hp) =>
    (h.setBucket b (.list (⟨key, data, w⟩ :: objs)) (h.bucketSize b + 1) (h.noObjects + 1), hp,
      .ok ())

/-! ## Trees -/

/-- `lhi_get_rbtree`. -/
def lhiGetRbtree (key : κ) : HiHandle κ δ × Except HiErr δ :=
  match h.buckets (h.home key) with
  | .list _ => (h, .error .internal)
  | .tree root =>
    match rbDescend h.keyCmp key root [] with
    | (.leaf, _) => (h, .error .nokey)
    | (.node _ _ e _, _) => (h, .ok e.2)

/-- `lhi_remove_rbtree`. -/
def lhiRemoveRbtree (key : κ) : HiHandle κ δ × Except HiErr δ :=
  let b := h.home key
  match h.buckets b with
  | .list _ => (h, .error .internal)
  | .tree root =>
    match rbDescend h.keyCmp key root [] with
    | (.leaf, _) => (h, .error .nokey)
    | (.node c l e r, path) =>
      match rbErase c l r path with
      | none => (h, .error .undefined)
      | some root =>
        (h.setBucket b (.tree root) (h.bucketSize b - 1) (h.noObjects - 1), .ok e.2)

/-- `lhi_insert_rbtree`. -/
def lhiInsertRbtree (key : κ) (data : δ) (hp : Heap) :
    HiHandle κ δ × Heap × Except HiErr Unit :=
  let b := h.home key
  match h.buckets b with
  | .list _ => (h, hp, .error .internal)
  | .tree root =>
    match rbDescend h.keyCmp key root [] with
    | (.node .., _) => (h, hp, .error .dupkey)
    | (.leaf, path) =>
      match malloc hp with
      | (none, hp) => (h, hp, .error .system)
      | (some _, hp) =>
        match rbInsertColor (.node .red .leaf (key, data) .leaf) path with
        | none => (h, hp, .error .undefined)
        | some root =>
          (h.setBucket b (.tree root) (h.bucketSize b + 1) (h.noObjects + 1), hp, .ok ())

/-! ## The engines together -/

/-- `hi_lookup`; a tree finds duplicates when it inserts. -/
def hiLookup (key : κ) : Bool :=
  match h.collEng with
  | .rbtree => false
  | _ => h.lhiLookupList key

/-- `hi_get`. -/
def hiGet (key : κ) : HiHandle κ δ × Except HiErr δ :=
  match h.collEng with
  | .rbtree => h.lhiGetRbtree key
  | _ => h.lhiGetList key

/-- `hi_remove`. -/
def hiRemove (key : κ) : HiHandle κ δ × Except HiErr δ :=
  match h.collEng with
  | .rbtree => h.lhiRemoveRbtree key
  | _ => h.lhiRemoveList key

/-- The `switch` of `hi_insert`. -/
def lhiInsert (key : κ) (data : δ) (hp : Heap) : HiHandle κ δ × Heap × Except HiErr Unit :=
  match h.collEng with
  | .rbtree => h.lhiInsertRbtree key data hp
  | _ => h.lhiInsertList key data hp

/-- `hi_insert`, with what `do_rehash` does; that may use memory that is not the program's. -/
def hiInsertWith (doRehash : HiHandle κ δ → Heap → Option (HiHandle κ δ × Heap)) (key : κ)
    (data : δ) (hp : Heap) : HiHandle κ δ × Heap × Except HiErr Unit :=
  if h.hiLookup key then (h, hp, .error .dupkey)
  else
    match doRehash h hp with
    | none => (h, hp, .error .undefined)
    | some (h, hp) => h.lhiInsert key data hp

end HiHandle

/-- A new table of `hi_create`, with its buckets empty. -/
def vanilla (set : HiInitSet κ) : HiHandle κ δ where
  toHiInitSet := set
  bucketSize := fun _ => 0
  noObjects := 0
  buckets := fun _ => if set.collEng = .rbtree then .tree .leaf else .list []

/-! ## What the operations keep -/

/-- The engines whose search depends on nothing but the key. -/
def CollEng.plain (e : CollEng) : Bool := !e.hashed

/-- The pairs of a bucket. -/
def Bucket.pairs : Bucket κ δ → List (κ × δ)
  | .list objs => objs.map fun o => (o.key, o.data)
  | .tree root => root.entries

/-- A bucket of an engine. -/
def Bucket.Fits (set : HiInitSet κ) : Bucket κ δ → Prop
  | .list _ => set.collEng ≠ .rbtree
  | .tree root => set.collEng = .rbtree ∧ RbValid set.keyCmp root

namespace HiHandle

/-- The pairs of all buckets. -/
def table (h : HiHandle κ δ) : Buckets.Table κ δ := fun b => (h.buckets b).pairs

/-- **The map that a table stands for.** -/
def find [DecidableEq κ] (h : HiHandle κ δ) (key : κ) : Option δ :=
  Buckets.find h.home h.table key

end HiHandle

/-- The invariant of a table. -/
structure WellFormed (h : HiHandle κ δ) : Prop where
  size : 0 < h.tableSize
  order : KeyOrder h.keyCmp
  plain : h.collEng.plain = true
  fits : ∀ b, (h.buckets b).Fits h.toHiInitSet
  placed : Buckets.Placed h.home h.table
  sizes : ∀ b, h.bucketSize b = (h.table b).length
  objects : h.noObjects = Buckets.total h.tableSize h.table

/-- What a lookup answers. -/
def answer (o : Option δ) : Except HiErr δ :=
  match o with
  | none => .error .nokey
  | some d => .ok d

section Invariant

open HiHandle

variable {set : HiInitSet κ} {h : HiHandle κ δ} {key : κ} {data : δ} {b : Nat}
  {bucket : Bucket κ δ}

theorem home_lt (h' : WellFormed h) (key : κ) : h.home key < h.tableSize :=
  Nat.mod_lt _ h'.size

@[simp] theorem setBucket_table (size objects : Nat) :
    (h.setBucket b bucket size objects).table = Function.update h.table b bucket.pairs := by
  funext c
  by_cases hc : c = b
  · subst hc
    simp [table, setBucket]
  · simp [table, setBucket, hc]

@[simp] theorem setBucket_set (size objects : Nat) :
    (h.setBucket b bucket size objects).toHiInitSet = h.toHiInitSet := rfl

/-- An empty table. -/
theorem wellFormed_vanilla (hsize : 0 < set.tableSize) (ho : KeyOrder set.keyCmp)
    (hp : set.collEng.plain = true) : WellFormed (vanilla set : HiHandle κ δ) := by
  have htable : (vanilla set : HiHandle κ δ).table = fun _ => [] := by
    funext b
    by_cases he : set.collEng = .rbtree
    · simp [table, vanilla, he, Bucket.pairs, ColorTree.entries]
    · simp [table, vanilla, he, Bucket.pairs]
  refine ⟨hsize, ho, hp, fun b => ?_, ?_, fun b => ?_, ?_⟩
  · by_cases he : set.collEng = .rbtree
    · simp [vanilla, he, Bucket.Fits, rbValid_leaf]
    · simp [vanilla, he, Bucket.Fits]
  · rw [htable]
    exact Buckets.placed_empty
  · rw [htable]
    rfl
  · rw [htable]
    simp [vanilla, Buckets.total]

theorem find_vanilla [DecidableEq κ] (set : HiInitSet κ) :
    (vanilla set : HiHandle κ δ).find = fun _ => none := by
  funext key
  by_cases he : set.collEng = .rbtree
  · simp [HiHandle.find, Buckets.find, table, vanilla, he, Bucket.pairs, ColorTree.entries,
      Buckets.value]
  · simp [HiHandle.find, Buckets.find, table, vanilla, he, Bucket.pairs, Buckets.value]

/-- One bucket replaced, with its counters. -/
theorem WellFormed.setBucket (h' : WellFormed h) (hb : b < h.tableSize)
    (hfits : bucket.Fits h.toHiInitSet)
    (hplaced : Buckets.Placed h.home (Function.update h.table b bucket.pairs)) {size objects : Nat}
    (hsize : size = bucket.pairs.length)
    (hobjects : objects + (h.table b).length = h.noObjects + bucket.pairs.length) :
    WellFormed (h.setBucket b bucket size objects) := by
  refine ⟨h'.size, h'.order, h'.plain, fun c => ?_, ?_, fun c => ?_, ?_⟩
  · by_cases hc : c = b
    · subst hc
      simpa [HiHandle.setBucket] using hfits
    · simpa [HiHandle.setBucket, hc] using h'.fits c
  · rw [setBucket_table]
    exact hplaced
  · rw [setBucket_table]
    by_cases hc : c = b
    · subst hc
      simpa [HiHandle.setBucket] using hsize
    · simpa [HiHandle.setBucket, hc] using h'.sizes c
  · have htotal := Buckets.total_update hb (t := h.table) bucket.pairs
    have hold := h'.objects
    rw [setBucket_table]
    show objects = Buckets.total h.tableSize _
    omega

variable [DecidableEq κ]

/-- **A pair more** in the bucket of its key. -/
theorem WellFormed.add (h' : WellFormed h) (bucket : Bucket κ δ) (hk : h.find key = none)
    (hfits : bucket.Fits h.toHiInitSet)
    (hp : bucket.pairs.Perm ((key, data) :: h.table (h.home key))) :
    WellFormed (h.setBucket (h.home key) bucket (h.bucketSize (h.home key) + 1)
        (h.noObjects + 1)) ∧
      (h.setBucket (h.home key) bucket (h.bucketSize (h.home key) + 1) (h.noObjects + 1)).find =
        Function.update h.find key (some data) := by
  obtain ⟨hplaced, hfind⟩ := h'.placed.cons hk hp
  have hlen := hp.length_eq
  have hsize := h'.sizes (h.home key)
  rw [List.length_cons] at hlen
  refine ⟨h'.setBucket (home_lt h' key) hfits hplaced (by omega) (by omega), ?_⟩
  funext k
  rw [HiHandle.find, setBucket_table]
  exact congrFun hfind k

/-- **A key less** in its bucket. -/
theorem WellFormed.drop (h' : WellFormed h) (bucket : Bucket κ δ) (hk : h.find key = some data)
    (hfits : bucket.Fits h.toHiInitSet)
    (hp : bucket.pairs.Perm (Buckets.without (h.table (h.home key)) key)) :
    WellFormed (h.setBucket (h.home key) bucket (h.bucketSize (h.home key) - 1)
        (h.noObjects - 1)) ∧
      (h.setBucket (h.home key) bucket (h.bucketSize (h.home key) - 1) (h.noObjects - 1)).find =
        Function.update h.find key none := by
  obtain ⟨hplaced, hfind⟩ := h'.placed.erase key hp
  have hlen := hp.length_eq
  have hless := Buckets.length_without (h'.placed.distinct (h.home key)) hk
  have hsize := h'.sizes (h.home key)
  have htotal := Buckets.total_update (home_lt h' key) (t := h.table) bucket.pairs
  have hobjects := h'.objects
  refine ⟨h'.setBucket (home_lt h' key) hfits hplaced (by omega) ?_, ?_⟩
  · have hpos : 1 ≤ Buckets.total h.tableSize h.table := by
      omega
    omega
  · funext k
    rw [HiHandle.find, setBucket_table]
    exact congrFun hfind k

/-- **The same pairs** in another order. -/
theorem WellFormed.reorder (h' : WellFormed h) (bucket : Bucket κ δ) (hb : b < h.tableSize)
    (hfits : bucket.Fits h.toHiInitSet) (hp : bucket.pairs.Perm (h.table b)) :
    WellFormed (h.setBucket b bucket (h.bucketSize b) h.noObjects) ∧
      (h.setBucket b bucket (h.bucketSize b) h.noObjects).find = h.find := by
  have hall : ∀ c, (Function.update h.table b bucket.pairs c).Perm (h.table c) := by
    intro c
    by_cases hc : c = b
    · subst hc
      rwa [Function.update_self]
    · rw [Function.update_of_ne hc]
  obtain ⟨hplaced, hfind⟩ := h'.placed.perm hall
  have hlen := hp.length_eq
  refine ⟨h'.setBucket hb hfits hplaced ((h'.sizes b).trans hlen.symm) (by omega), ?_⟩
  funext k
  rw [HiHandle.find, setBucket_table]
  exact congrFun hfind k

end Invariant

/-! ## One operation -/

section Chain

variable {test : BucketObj κ δ → Bool} {objs rest : List (BucketObj κ δ)} {o : BucketObj κ δ}
  {key : κ}

theorem unlink_none (h : HiHandle.unlink test objs = none) : ∀ o ∈ objs, test o = false := by
  induction objs with
  | nil => exact fun _ h => (by cases h)
  | cons o objs ih =>
    rw [HiHandle.unlink] at h
    split at h
    · cases h
    · rename_i ho
      intro x hx
      rcases List.mem_cons.mp hx with rfl | hx
      · simpa using ho
      · exact ih (Option.map_eq_none_iff.mp h) x hx

theorem unlink_some (h : HiHandle.unlink test objs = some (o, rest)) :
    test o = true ∧ ∃ l r, objs = l ++ o :: r ∧ rest = l ++ r := by
  induction objs generalizing rest with
  | nil => cases h
  | cons x objs ih =>
    rw [HiHandle.unlink] at h
    split at h
    · rename_i hx
      cases h
      exact ⟨hx, [], objs, rfl, rfl⟩
    · obtain ⟨⟨y, rest'⟩, hy, heq⟩ := Option.map_eq_some_iff.mp h
      cases heq
      obtain ⟨ht, l, r, rfl, rfl⟩ := ih hy
      exact ⟨ht, x :: l, r, rfl, rfl⟩

/-- The pairs of a list. -/
def chainPairs (objs : List (BucketObj κ δ)) : List (κ × δ) := objs.map fun o => (o.key, o.data)

variable [DecidableEq κ]

theorem value_unlink_none (ht : ∀ o, test o = true ↔ o.key = key)
    (h : HiHandle.unlink test objs = none) : Buckets.value (chainPairs objs) key = none := by
  rw [Buckets.value_none, chainPairs, List.map_map]
  intro hm
  obtain ⟨o, ho, hk⟩ := List.mem_map.mp hm
  have hfalse := unlink_none h o ho
  rw [(ht o).mpr hk] at hfalse
  cases hfalse

theorem value_unlink_some (ht : ∀ o, test o = true ↔ o.key = key)
    (hd : Buckets.Distinct (chainPairs objs)) (h : HiHandle.unlink test objs = some (o, rest)) :
    Buckets.value (chainPairs objs) key = some o.data ∧
      (chainPairs (o :: rest)).Perm (chainPairs objs) ∧
      (chainPairs rest).Perm (Buckets.without (chainPairs objs) key) := by
  obtain ⟨hto, l, r, rfl, rfl⟩ := unlink_some h
  obtain rfl := (ht o).mp hto
  have hperm : (chainPairs (o :: (l ++ r))).Perm (chainPairs (l ++ o :: r)) :=
    List.perm_middle.symm.map _
  have hmem : (o.key, o.data) ∈ chainPairs (l ++ o :: r) :=
    List.mem_map.mpr ⟨o, List.mem_append_right _ List.mem_cons_self, rfl⟩
  refine ⟨(Buckets.value_some hd).mpr hmem, hperm, ?_⟩
  have hd' := hd.perm hperm.symm
  have hnot := (List.nodup_cons.mp hd').1
  have hself : Buckets.without (chainPairs (o :: (l ++ r))) o.key = chainPairs (l ++ r) := by
    have hall : Buckets.without (chainPairs (l ++ r)) o.key = chainPairs (l ++ r) :=
      List.filter_eq_self.mpr fun x hx => decide_eq_true fun heq => by
        have hx' : x.1 ∈ (chainPairs (l ++ r)).map Prod.fst := List.mem_map_of_mem hx
        rw [heq] at hx'
        exact hnot hx'
    rw [← hall]
    simp [chainPairs, Buckets.without]
  rw [← hself]
  exact hperm.filter _

end Chain

section Operations

open HiHandle

variable {h : HiHandle κ δ}

/-- With a plain engine the tests compare keys and nothing else. -/
theorem sees_iff (h' : WellFormed h) (key : κ) (o : BucketObj κ δ) :
    h.sees key o = true ↔ o.key = key := by
  have hp : h.collEng.hashed = false := by
    have hp := h'.plain
    simpa [CollEng.plain] using hp
  simp only [sees, hp, Bool.not_false, Bool.true_or, Bool.true_and, beq_iff_eq]
  rw [h'.order.eq]
  exact eq_comm

theorem getSees_iff (h' : WellFormed h) (key : κ) (o : BucketObj κ δ) :
    h.getSees key o = true ↔ o.key = key := by
  have hne : h.collEng ≠ .listMtfHash := by
    intro he
    have hp := h'.plain
    rw [he] at hp
    cases hp
  rw [getSees, if_neg hne]
  exact sees_iff h' key o

/-- What a bucket of a list engine is. -/
theorem WellFormed.list (h' : WellFormed h) (he : h.collEng ≠ .rbtree) (b : Nat) :
    ∃ objs, h.buckets b = .list objs ∧ h.table b = chainPairs objs := by
  have hfits := h'.fits b
  cases hb : h.buckets b with
  | list objs => exact ⟨objs, rfl, by simp [table, hb, Bucket.pairs, chainPairs]⟩
  | tree root =>
    rw [hb] at hfits
    exact absurd hfits.1 he

/-- What a bucket of the tree engine is. -/
theorem WellFormed.tree (h' : WellFormed h) (he : h.collEng = .rbtree) (b : Nat) :
    ∃ root, h.buckets b = .tree root ∧ h.table b = root.entries ∧ RbValid h.keyCmp root := by
  have hfits := h'.fits b
  cases hb : h.buckets b with
  | list objs =>
    rw [hb] at hfits
    exact absurd he hfits
  | tree root =>
    rw [hb] at hfits
    exact ⟨root, rfl, by simp [table, hb, Bucket.pairs], hfits.2⟩

variable [DecidableEq κ]

/-- **`hi_get`** answers as the map and changes nothing but the order in a bucket. -/
theorem hiGet_spec (h' : WellFormed h) (key : κ) : ∃ u, h.hiGet key = (u, answer (h.find key)) ∧
    WellFormed u ∧ u.find = h.find ∧ u.toHiInitSet = h.toHiInitSet := by
  have hfind : h.find key = Buckets.value (h.table (h.home key)) key := rfl
  by_cases he : h.collEng = .rbtree
  · obtain ⟨root, hb, htable, hvalid⟩ := h'.tree he (h.home key)
    have hget : h.hiGet key = h.lhiGetRbtree key := by simp [hiGet, he]
    rw [hget, lhiGetRbtree, hb]
    obtain ⟨⟨t, p⟩, hd⟩ : ∃ q, rbDescend h.keyCmp key root [] = q := ⟨_, rfl⟩
    cases t with
    | leaf =>
      obtain ⟨hv, -, -⟩ := rbDescend_leaf h'.order hvalid hd
      exact ⟨h, by simp [hd, hfind, htable, hv, answer], h', rfl, rfl⟩
    | node c l e r =>
      obtain ⟨hv, -, -⟩ := rbDescend_node h'.order hvalid hd
      exact ⟨h, by simp [hd, hfind, htable, hv, answer], h', rfl, rfl⟩
  · obtain ⟨objs, hb, htable⟩ := h'.list he (h.home key)
    have hget : h.hiGet key = h.lhiGetList key := by
      cases hc : h.collEng <;> simp_all [hiGet]
    rw [hget, lhiGetList, hb]
    cases hu : unlink (h.getSees key) objs with
    | none =>
      have hv := value_unlink_none (getSees_iff h' key) hu
      exact ⟨h, by simp [hu, hfind, htable, hv, answer], h', rfl, rfl⟩
    | some q =>
      obtain ⟨o, rest⟩ := q
      obtain ⟨hv, hfront, -⟩ := value_unlink_some (getSees_iff h' key)
        (htable ▸ h'.placed.distinct (h.home key)) hu
      cases hm : h.collEng.mtf with
      | false => exact ⟨h, by simp [hu, hfind, htable, hv, answer], h', rfl, rfl⟩
      | true =>
        obtain ⟨hwf, hsame⟩ := h'.reorder (.list (o :: rest)) (home_lt h' key) he
          (htable ▸ hfront)
        exact ⟨_, by simp [hu, hfind, htable, hv, answer], hwf, hsame, rfl⟩

/-- **`hi_remove`** answers as `hi_get` and takes the key out. -/
theorem hiRemove_spec (h' : WellFormed h) (key : κ) :
    ∃ u, h.hiRemove key = (u, answer (h.find key)) ∧ WellFormed u ∧
      u.find = Function.update h.find key none ∧ u.toHiInitSet = h.toHiInitSet := by
  have hfind : h.find key = Buckets.value (h.table (h.home key)) key := rfl
  have hsame : h.find key = none → h.find = Function.update h.find key none := by
    intro hn
    rw [← hn, Function.update_eq_self]
  by_cases he : h.collEng = .rbtree
  · obtain ⟨root, hb, htable, hvalid⟩ := h'.tree he (h.home key)
    have hremove : h.hiRemove key = h.lhiRemoveRbtree key := by simp [hiRemove, he]
    rw [hremove, lhiRemoveRbtree, hb]
    obtain ⟨⟨t, p⟩, hd⟩ : ∃ q, rbDescend h.keyCmp key root [] = q := ⟨_, rfl⟩
    cases t with
    | leaf =>
      obtain ⟨hv, -, -⟩ := rbDescend_leaf h'.order hvalid hd
      rw [← htable, ← hfind] at hv
      exact ⟨h, by simp [hd, hv, answer], h', hsame hv, rfl⟩
    | node c l e r =>
      obtain ⟨hv, -, u, hu, huv, hperm⟩ := rbDescend_node h'.order hvalid hd
      rw [← htable, ← hfind] at hv
      obtain ⟨hwf, hdrop⟩ := h'.drop (.tree u) hv ⟨he, huv⟩ (htable ▸ hperm)
      exact ⟨_, by simp [hd, hu, hv, answer], hwf, hdrop, rfl⟩
  · obtain ⟨objs, hb, htable⟩ := h'.list he (h.home key)
    have hremove : h.hiRemove key = h.lhiRemoveList key := by
      cases hc : h.collEng <;> simp_all [hiRemove]
    rw [hremove, lhiRemoveList, hb]
    cases hu : unlink (h.sees key) objs with
    | none =>
      have hv := value_unlink_none (sees_iff h' key) hu
      rw [← htable, ← hfind] at hv
      exact ⟨h, by simp [hu, hv, answer], h', hsame hv, rfl⟩
    | some q =>
      obtain ⟨o, rest⟩ := q
      obtain ⟨hv, -, hrest⟩ := value_unlink_some (sees_iff h' key)
        (htable ▸ h'.placed.distinct (h.home key)) hu
      rw [← htable, ← hfind] at hv
      obtain ⟨hwf, hdrop⟩ := h'.drop (.list rest) hv he (htable ▸ hrest)
      exact ⟨_, by simp [hu, hv, answer], hwf, hdrop, rfl⟩

/-- `hi_lookup` finds what is in a list and nothing in a tree. -/
theorem hiLookup_eq (h' : WellFormed h) (key : κ) :
    h.hiLookup key = (decide (h.collEng ≠ .rbtree) && (h.find key).isSome) := by
  have hfind : h.find key = Buckets.value (h.table (h.home key)) key := rfl
  by_cases he : h.collEng = .rbtree
  · simp [hiLookup, he]
  · obtain ⟨objs, hb, htable⟩ := h'.list he (h.home key)
    have hlookup : h.hiLookup key = objs.any (h.sees key) := by
      cases hc : h.collEng <;> simp_all [hiLookup, lhiLookupList]
    rw [hlookup, hfind, htable, decide_eq_true he, Bool.true_and]
    cases hu : unlink (h.sees key) objs with
    | none =>
      rw [value_unlink_none (sees_iff h' key) hu, Option.isSome_none, List.any_eq_false]
      intro o ho
      rw [unlink_none hu o ho]
      exact Bool.false_ne_true
    | some q =>
      obtain ⟨o, rest⟩ := q
      obtain ⟨hv, -, -⟩ := value_unlink_some (sees_iff h' key)
        (htable ▸ h'.placed.distinct (h.home key)) hu
      obtain ⟨hto, l, r, rfl, -⟩ := unlink_some hu
      rw [hv, Option.isSome_some, List.any_eq_true]
      exact ⟨o, List.mem_append_right _ List.mem_cons_self, hto⟩

/-- The last part of `hi_insert` refuses a key that is in a tree, fails for want of memory, or puts
the pair in. -/
theorem lhiInsert_spec (h' : WellFormed h) (key : κ) (data : δ) (hp : Heap) :
    (h.find key = none →
      ((malloc hp).1 = none → ∃ e : HiErr, e.NoMemory ∧
        h.lhiInsert key data hp = (h, (malloc hp).2, .error e)) ∧
      ((malloc hp).1 ≠ none → ∃ u, h.lhiInsert key data hp = (u, (malloc hp).2, .ok ()) ∧
        WellFormed u ∧ u.find = Function.update h.find key (some data) ∧
        u.toHiInitSet = h.toHiInitSet)) ∧
    (h.collEng = .rbtree → h.find key ≠ none →
      h.lhiInsert key data hp = (h, hp, .error .dupkey)) := by
  have hfind : h.find key = Buckets.value (h.table (h.home key)) key := rfl
  by_cases he : h.collEng = .rbtree
  · obtain ⟨root, hb, htable, hvalid⟩ := h'.tree he (h.home key)
    have hinsert : h.lhiInsert key data hp = h.lhiInsertRbtree key data hp := by
      simp [lhiInsert, he]
    rw [hinsert, lhiInsertRbtree, hb]
    obtain ⟨⟨t, p⟩, hd⟩ : ∃ q, rbDescend h.keyCmp key root [] = q := ⟨_, rfl⟩
    cases t with
    | leaf =>
      obtain ⟨hv, -, hins⟩ := rbDescend_leaf h'.order hvalid hd
      rw [← htable, ← hfind] at hv
      obtain ⟨u, hu, huv, hperm⟩ := hins data
      refine ⟨fun _ => ⟨fun hm => ?_, fun hm => ?_⟩, fun _ hn => absurd hv hn⟩
      · refine ⟨.system, .inl rfl, ?_⟩
        simp only [hd]
        rw [← Prod.eta (malloc hp), hm]
      · obtain ⟨w, hw⟩ := Option.ne_none_iff_exists'.mp hm
        obtain ⟨hwf, hadd⟩ := h'.add (.tree u) hv ⟨he, huv⟩ (htable ▸ hperm)
        refine ⟨_, ?_, hwf, hadd, rfl⟩
        simp only [hd]
        rw [← Prod.eta (malloc hp), hw]
        simp only [hu]
    | node c l e r =>
      obtain ⟨hv, -⟩ := rbDescend_node h'.order hvalid hd
      rw [← htable, ← hfind] at hv
      exact ⟨fun hn => (by rw [hv] at hn; cases hn), fun _ _ => by simp only [hd]⟩
  · obtain ⟨objs, hb, htable⟩ := h'.list he (h.home key)
    have hinsert : h.lhiInsert key data hp = h.lhiInsertList key data hp := by
      cases hc : h.collEng <;> simp_all [lhiInsert]
    rw [hinsert, lhiInsertList, hb]
    refine ⟨fun hn => ⟨fun hm => ⟨.enomem, .inr rfl, ?_⟩, fun hm => ?_⟩, fun hc => absurd hc he⟩
    · rw [← Prod.eta (malloc hp), hm]
    · obtain ⟨w, hw⟩ := Option.ne_none_iff_exists'.mp hm
      obtain ⟨hwf, hadd⟩ := h'.add (.list (⟨key, data, w⟩ :: objs)) hn he
        (by rw [htable]; exact .refl _)
      exact ⟨_, by rw [← Prod.eta (malloc hp), hw], hwf, hadd, rfl⟩

end Operations

end Hwdb.Hashish
