import Hwdb.Hashish.Iterator
import Hwdb.Lib.Run

/-!
# Tables of libhashish over whole runs (`hi_operations.c`, `hi_rehash`)

When a table has grown beyond its threshold, `hi_insert` moves it into one of twice the size before
it puts the new pair in.  A program sees nothing of that: whatever the hash function, whatever
`malloc` answers and whichever plain engine is at work, a table answers like the map of what was
inserted and not removed since.

* `hiRehash`, `doRehash`, `hiInsert` — the rest of the operations.
* `hiRehash_spec` — the pairs move together, or the old table stays.
* `Store` — a table, the answers it has given and the `malloc` behind it.
* `store_keeps_map` — what holds in every run.
-/

set_option autoImplicit false

namespace Hwdb.Hashish

open Hwdb.Lib

variable {κ δ : Type}

namespace HiHandle

variable (h : HiHandle κ δ)

/-- What `hi_rehash` allocates before it copies: the handle, `bucket_size` and the engine's table,
each only after the one before it. -/
def rehashAlloc (hp : Heap) : Bool × Heap := lhiBucketArrayAlloc hp

/-- The loop of `hi_rehash`, from the iterator `i` over `h` into `t`, where `rehash_auto` is 0.
After a failed `hi_insert` the code writes to the handle that `hi_fini` has freed. -/
def rehashLoop : Nat → HiIterator κ δ → HiHandle κ δ → Heap → Heap × Except HiErr (HiHandle κ δ)
  | 0, _, _, hp => (hp, .error .undefined)
  | n + 1, i, t, hp =>
    match h.hiIteratorGetnext i hp with
    | (hp, _, .error .nodata) => (hp, .ok t)
    | (hp, _, .error e) => (hp, .error e)
    | (hp, i, .ok e) =>
      match t.hiInsertWith (fun t hp => some (t, hp)) e.1 e.2 hp with
      | (t, hp, .ok ()) => rehashLoop n i t hp
      | (_, hp, .error _) => (hp, .error .undefined)

/-- `hi_rehash`; an iterator hands out at most `no_objects` pairs. -/
def hiRehash (newTableSize : Nat) (hp : Heap) : HiHandle κ δ × Heap × Except HiErr Unit :=
  match rehashAlloc hp with
  | (false, hp) => (h, hp, .error .system)
  | (true, hp) =>
    let t : HiHandle κ δ :=
      vanilla { h.toHiInitSet with tableSize := newTableSize, rehashAuto := false }
    match h.hiIteratorCreate hp with
    | (hp, .error e) => (h, hp, .error e)
    | (hp, .ok i) =>
      match h.rehashLoop (h.noObjects + 1) i t hp with
      | (hp, .error e) => (h, hp, .error e)
      | (hp, .ok t) => ({ t with rehashAuto := h.rehashAuto }, hp, .ok ())

/-- `do_rehash`; it does not look at what `hi_rehash` returns. -/
def doRehash (hp : Heap) : Option (HiHandle κ δ × Heap) :=
  if h.rehashAuto && h.rehashThreshold (h.noObjects / h.tableSize) then
    match h.hiRehash (h.tableSize * 2 % 4294967296) hp with
    | (_, _, .error .undefined) => none
    | (h, hp, _) => some (h, hp)
  else some (h, hp)

/-- `hi_insert`. -/
def hiInsert (key : κ) (data : δ) (hp : Heap) : HiHandle κ δ × Heap × Except HiErr Unit :=
  h.hiInsertWith doRehash key data hp

end HiHandle

/-- A change of the table that leaves its settings, its size aside. -/
def SameSettings (h u : HiHandle κ δ) : Prop :=
  u.toHiInitSet = { h.toHiInitSet with tableSize := u.tableSize }

section Rehash

open HiHandle

variable {h t u : HiHandle κ δ} {i : HiIterator κ δ} {key : κ} {hp : Heap} {n : Nat}

theorem SameSettings.of_eq (h' : u.toHiInitSet = h.toHiInitSet) : SameSettings h u := by
  have hsize : u.tableSize = h.tableSize := congrArg HiInitSet.tableSize h'
  rw [SameSettings, hsize]
  exact h'

theorem SameSettings.trans {v : HiHandle κ δ} (h₁ : SameSettings h u) (h₂ : SameSettings u v) :
    SameSettings h v := by
  rw [SameSettings, h₂, h₁]

theorem SameSettings.collEng (h' : SameSettings h u) : u.collEng = h.collEng := by
  rw [SameSettings] at h'
  rw [h']

theorem SameSettings.rehashAuto (h' : SameSettings h u) : u.rehashAuto = h.rehashAuto := by
  rw [SameSettings] at h'
  rw [h']

theorem SameSettings.rehashThreshold (h' : SameSettings h u) :
    u.rehashThreshold = h.rehashThreshold := by
  rw [SameSettings] at h'
  rw [h']

theorem doRehash_off (hoff : h.rehashAuto = false) (hp : Heap) :
    h.doRehash hp = some (h, hp) := by
  rw [doRehash, hoff]
  rfl

/-- A table may rehash or not. -/
theorem WellFormed.auto (h' : WellFormed h) (auto : Bool) :
    WellFormed { h with rehashAuto := auto } := by
  refine ⟨h'.size, h'.order, h'.plain, fun b => ?_, h'.placed, h'.sizes, h'.objects⟩
  have hfits := h'.fits b
  show (h.buckets b).Fits _
  cases hb : h.buckets b with
  | list objs =>
    rw [hb] at hfits
    exact hfits
  | tree root =>
    rw [hb] at hfits
    exact hfits

theorem distinct_later (h' : WellFormed h) : Buckets.Distinct (h.later 0) :=
  h'.placed.distinct_gather List.nodup_range'

theorem length_later (h' : WellFormed h) : (h.later 0).length = h.noObjects := by
  rw [h'.objects, ← Buckets.length_entries, later, Nat.sub_zero, ← List.range_eq_range']
  rfl

variable [DecidableEq κ]

/-- What an iterator finds at first is the whole table. -/
theorem value_later (h' : WellFormed h) (k : κ) : Buckets.value (h.later 0) k = h.find k := by
  have hmem : h.home k ∈ List.range' 0 (h.tableSize - 0) := by
    rw [List.mem_range'_1]
    exact ⟨Nat.zero_le _, by simpa using home_lt h' k⟩
  rw [later, h'.placed.value_gather List.nodup_range' k, if_pos hmem]
  rfl

/-- A key that is not in the table goes in, if there is memory. -/
theorem lhiInsert_new (h' : WellFormed t) (hk : t.find key = none) (data : δ) (hp : Heap) :
    ∃ hp', (Plenty hp → Plenty hp') ∧
      ((∃ e : HiErr, e.NoMemory ∧ t.lhiInsert key data hp = (t, hp', .error e) ∧ ¬ Plenty hp) ∨
        ∃ u, t.lhiInsert key data hp = (u, hp', .ok ()) ∧ WellFormed u ∧
          u.find = Function.update t.find key (some data) ∧
          u.toHiInitSet = t.toHiInitSet) := by
  obtain ⟨hfail, hok⟩ := (lhiInsert_spec h' key data hp).1 hk
  refine ⟨(malloc hp).2, fun hpl => hpl.malloc.2, ?_⟩
  by_cases hm : (malloc hp).1 = none
  · obtain ⟨e, he, hfail⟩ := hfail hm
    exact .inl ⟨e, he, hfail, fun hpl => hpl.malloc.1 hm⟩
  · exact .inr (hok hm)

/-- Without a rehash, the same of `hi_insert`. -/
theorem hiInsertWith_new (h' : WellFormed t) (hk : t.find key = none) (data : δ) (hp : Heap) :
    t.hiInsertWith (fun t hp => some (t, hp)) key data hp = t.lhiInsert key data hp := by
  have hl : t.hiLookup key = false := by
    rw [hiLookup_eq h', hk]
    exact Bool.and_false _
  rw [hiInsertWith, hl]
  rfl

/-- **The loop of `hi_rehash`** brings everything that is pending into the new table. -/
theorem rehashLoop_spec (h' : WellFormed h) (hc : Copied h i) (ht : WellFormed t)
    (hd : Buckets.Distinct (h.pending i)) (hfree : ∀ e ∈ h.pending i, t.find e.1 = none)
    (hn : (h.pending i).length < n) (hp : Heap) :
    ∃ hp', (Plenty hp → Plenty hp') ∧
      ((∃ e, h.rehashLoop n i t hp = (hp', .error e) ∧ ¬ Plenty hp) ∨
        ∃ u, h.rehashLoop n i t hp = (hp', .ok u) ∧ WellFormed u ∧
          u.toHiInitSet = t.toHiInitSet ∧
          ∀ k, u.find k = (Buckets.value (h.pending i) k).or (t.find k)) := by
  induction n generalizing i t hp with
  | zero => exact absurd hn (Nat.not_lt_zero _)
  | succ n ih =>
    obtain ⟨hp1, v, hk1, hres⟩ := hiIteratorGetnext_spec h' hc hp
    rcases hres with ⟨hres, hnil⟩ | ⟨hres, hno⟩ | ⟨⟨key, data⟩, hres, hcv, hperm⟩
    · refine ⟨hp1, hk1, .inr ⟨t, by rw [rehashLoop, hres], ht, rfl, fun k => ?_⟩⟩
      rw [hnil]
      rfl
    · exact ⟨hp1, hk1, .inl ⟨_, by rw [rehashLoop, hres], hno⟩⟩
    · have hdist : Buckets.Distinct ((key, data) :: h.pending v) := hd.perm hperm
      have hrest := List.nodup_cons.mp hdist
      have hnew : t.find key = none := hfree _ (hperm.mem_iff.mpr List.mem_cons_self)
      have heq := hiInsertWith_new ht hnew data hp1
      obtain ⟨hp2, hk2, hins⟩ := lhiInsert_new ht hnew data hp1
      rw [← heq] at hins
      rcases hins with ⟨e, -, hins, hno⟩ | ⟨u, hins, hu, hfind, hset⟩
      · exact ⟨hp2, hk2 ∘ hk1, .inl ⟨.undefined, by rw [rehashLoop, hres]; dsimp only; rw [hins],
          hno ∘ hk1⟩⟩
      · have hlen := hperm.length_eq
        rw [List.length_cons] at hlen
        have hfree' : ∀ e ∈ h.pending v, u.find e.1 = none := by
          intro e he
          have hne : e.1 ≠ key := by
            intro hk
            rw [← hk] at hrest
            exact hrest.1 (List.mem_map.mpr ⟨e, he, rfl⟩)
          rw [hfind, Function.update_of_ne hne]
          exact hfree e (hperm.mem_iff.mpr (List.mem_cons_of_mem _ he))
        obtain ⟨hp3, hk3, hmore⟩ := ih hcv hu hrest.2 hfree' (by omega) hp2
        have hstep : h.rehashLoop (n + 1) i t hp = h.rehashLoop n v u hp2 := by
          rw [rehashLoop, hres]
          dsimp only
          rw [hins]
        rw [hstep]
        refine ⟨hp3, hk3 ∘ hk2 ∘ hk1, ?_⟩
        rcases hmore with ⟨e, hmore, hno⟩ | ⟨w, hmore, hw, hsetw, hfindw⟩
        · exact .inl ⟨e, hmore, hno ∘ hk2 ∘ hk1⟩
        · refine .inr ⟨w, hmore, hw, hsetw.trans hset, fun k => ?_⟩
          rw [hfindw, hfind, ← Buckets.value_perm hd hperm, Buckets.value_cons]
          by_cases hkey : key = k
          · subst hkey
            rw [if_pos rfl, Buckets.value_none.mpr hrest.1, Function.update_self]
            rfl
          · rw [if_neg hkey, Function.update_of_ne (Ne.symm hkey)]

/-- **`hi_rehash`** moves all pairs into a table of the new size, or leaves the table as it was. -/
theorem hiRehash_spec (h' : WellFormed h) (hn : 0 < n) (hp : Heap) :
    ∃ hp', (Plenty hp → Plenty hp') ∧
      ((∃ e, h.hiRehash n hp = (h, hp', .error e) ∧ ¬ Plenty hp) ∨
        (h.hiRehash n hp = (h, hp', .error .nodata) ∧ h.noObjects = 0) ∨
        ∃ u, h.hiRehash n hp = (u, hp', .ok ()) ∧ WellFormed u ∧ u.find = h.find ∧
          u.toHiInitSet = { h.toHiInitSet with tableSize := n }) := by
  obtain ⟨hp1, hk1, halloc⟩ := lhiBucketArrayAlloc_cases hp
  rcases halloc with hok | ⟨hfail, hno⟩
  swap
  · exact ⟨hp1, hk1, .inl ⟨.system, by rw [hiRehash, rehashAlloc, hfail], hno⟩⟩
  obtain ⟨hp2, hk2, hres⟩ := hiIteratorCreate_spec h' hp1
  rcases hres with ⟨hres, hnil⟩ | ⟨hres, hno⟩ | ⟨i, hres, hc, hperm⟩
  · refine ⟨hp2, hk2 ∘ hk1, .inr (.inl ⟨by rw [hiRehash, rehashAlloc, hok]; dsimp only; rw [hres],
      ?_⟩)⟩
    rw [← length_later h', hnil]
    rfl
  · exact ⟨hp2, hk2 ∘ hk1, .inl ⟨.system, by rw [hiRehash, rehashAlloc, hok]; dsimp only; rw [hres],
      hno ∘ hk1⟩⟩
  · let set := { h.toHiInitSet with tableSize := n, rehashAuto := false }
    have ht : WellFormed (vanilla set : HiHandle κ δ) := wellFormed_vanilla hn h'.order h'.plain
    have hlen : (h.pending i).length < h.noObjects + 1 := by
      rw [hperm.length_eq, length_later h']
      exact Nat.lt_succ_self _
    obtain ⟨hp3, hk3, hloop⟩ := rehashLoop_spec h' hc ht ((distinct_later h').perm hperm.symm)
      (fun e _ => congrFun (find_vanilla set) e.1) hlen hp2
    refine ⟨hp3, hk3 ∘ hk2 ∘ hk1, ?_⟩
    rcases hloop with ⟨e, hloop, hno⟩ | ⟨u, hloop, hu, hset, hfind⟩
    · exact .inl ⟨e, by rw [hiRehash, rehashAlloc, hok]; dsimp only; rw [hres]; dsimp only;
                        rw [hloop], hno ∘ hk2 ∘ hk1⟩
    · refine .inr (.inr ⟨{ u with rehashAuto := h.rehashAuto }, ?_, hu.auto _, ?_, ?_⟩)
      · rw [hiRehash, rehashAlloc, hok]
        dsimp only
        rw [hres]
        dsimp only
        rw [hloop]
      · funext k
        have hk := hfind k
        rw [Buckets.value_perm (distinct_later h') hperm.symm, value_later h', find_vanilla,
          Option.or_none] at hk
        exact hk
      · show { u.toHiInitSet with rehashAuto := h.rehashAuto } = _
        rw [hset]
        rfl

/-- **`do_rehash`** changes the size of a table and nothing else, unless memory runs out. -/
theorem doRehash_spec (h' : WellFormed h) (hsmall : h.noObjects < 2147483648)
    (hzero : h.rehashAuto = true → h.rehashThreshold 0 = false) (hp : Heap) :
    (h.doRehash hp = none ∧ ¬ Plenty hp ∧ h.rehashAuto = true) ∨
      ∃ u hp', h.doRehash hp = some (u, hp') ∧ (Plenty hp → Plenty hp') ∧ WellFormed u ∧
        u.find = h.find ∧ SameSettings h u := by
  rw [doRehash]
  split
  · next hgo =>
    rw [Bool.and_eq_true] at hgo
    -- the table is doubled only when it has as many pairs as buckets: the size does not overflow
    have hload : h.noObjects / h.tableSize ≠ 0 := by
      intro h0
      rw [h0, hzero hgo.1] at hgo
      cases hgo.2
    have hle : h.tableSize ≤ h.noObjects := by
      by_contra hlt
      exact hload (Nat.div_eq_of_lt (Nat.lt_of_not_le hlt))
    have hpos : 0 < h.tableSize * 2 % 4294967296 := by
      have hsize := h'.size
      omega
    obtain ⟨hp', hk, hres⟩ := hiRehash_spec h' hpos hp
    rcases hres with ⟨e, hres, hno⟩ | ⟨hres, -⟩ | ⟨u, hres, hu, hfind, hset⟩
    · rw [hres]
      by_cases he : e = .undefined
      · subst he
        exact .inl ⟨rfl, hno, hgo.1⟩
      · refine .inr ⟨h, hp', ?_, hk, h', rfl, .of_eq rfl⟩
        cases e <;> first | rfl | exact absurd rfl he
    · rw [hres]
      exact .inr ⟨h, hp', rfl, hk, h', rfl, .of_eq rfl⟩
    · rw [hres]
      refine .inr ⟨u, hp', rfl, hk, hu, hfind, ?_⟩
      rw [SameSettings, hset]
  · exact .inr ⟨h, hp, rfl, id, h', rfl, .of_eq rfl⟩

/-- **`hi_insert`** refuses a key that is there, fails for want of memory, or puts the pair in. -/
theorem hiInsert_spec (h' : WellFormed h) (hsmall : h.noObjects < 2147483648)
    (hzero : h.rehashAuto = true → h.rehashThreshold 0 = false) (key : κ) (data : δ) (hp : Heap) :
    (∃ u hp', h.hiInsert key data hp = (u, hp', .error .undefined) ∧ ¬ Plenty hp ∧
      h.rehashAuto = true) ∨
    ∃ u hp', (Plenty hp → Plenty hp') ∧ WellFormed u ∧ SameSettings h u ∧
      ((h.hiInsert key data hp = (u, hp', .error .dupkey) ∧ h.find key ≠ none ∧
          u.find = h.find) ∨
        (∃ e : HiErr, e.NoMemory ∧ h.hiInsert key data hp = (u, hp', .error e) ∧
          h.find key = none ∧ ¬ Plenty hp ∧ u.find = h.find) ∨
        (h.hiInsert key data hp = (u, hp', .ok ()) ∧ h.find key = none ∧
          u.find = Function.update h.find key (some data))) := by
  have hlookup := hiLookup_eq h' key
  cases hl : h.hiLookup key with
  | true =>
    rw [hl] at hlookup
    have hsome : (h.find key).isSome = true := (Bool.and_eq_true_iff.mp hlookup.symm).2
    refine .inr ⟨h, hp, id, h', .of_eq rfl, .inl ⟨?_, Option.isSome_iff_ne_none.mp hsome, rfl⟩⟩
    rw [hiInsert, hiInsertWith, hl]
    rfl
  | false =>
    have hnone : h.doRehash hp = none →
        h.hiInsert key data hp = (h, hp, .error .undefined) := by
      intro hre
      rw [hiInsert, hiInsertWith, hl, hre]
      rfl
    have hsome : ∀ t hp1, h.doRehash hp = some (t, hp1) →
        h.hiInsert key data hp = t.lhiInsert key data hp1 := by
      intro t hp1 hre
      rw [hiInsert, hiInsertWith, hl, hre]
      rfl
    rcases doRehash_spec h' hsmall hzero hp with
      ⟨hres, hno, hauto⟩ | ⟨t, hp1, hres, hk1, ht, hft, hst⟩
    · exact .inl ⟨h, hp, hnone hres, hno, hauto⟩
    · have hins := hsome t hp1 hres
      refine .inr ?_
      by_cases hkey : h.find key = none
      · obtain ⟨hp2, hk2, hnew⟩ := lhiInsert_new ht (hft ▸ hkey) data hp1
        rw [← hins] at hnew
        rcases hnew with ⟨e, he, hnew, hno⟩ | ⟨u, hnew, hu, hfu, hsu⟩
        · exact ⟨t, hp2, hk2 ∘ hk1, ht, hst, .inr (.inl ⟨e, he, hnew, hkey, hno ∘ hk1, hft⟩)⟩
        · exact ⟨u, hp2, hk2 ∘ hk1, hu, hst.trans (.of_eq hsu),
            .inr (.inr ⟨hnew, hkey, hft ▸ hfu⟩)⟩
      · -- only a tree does not look for duplicates first
        have htree : h.collEng = .rbtree := by
          by_contra he
          rw [hl, decide_eq_true he, Bool.true_and] at hlookup
          exact hkey (Option.isNone_iff_eq_none.mp (by simpa using hlookup.symm))
        have hdup := (lhiInsert_spec ht key data hp1).2 (hst.collEng.trans htree) (hft ▸ hkey)
        exact ⟨t, hp1, hk1, ht, hst, .inl ⟨hins.trans hdup, hkey, hft⟩⟩

end Rehash

/-! ## Runs -/

/-- What a program does with a table. -/
inductive HiOp (κ δ : Type) where
  | get (key : κ)
  | remove (key : κ)
  | insert (key : κ) (data : δ)
  deriving DecidableEq, Repr

/-- An operation and its answer; an insertion that succeeds hands nothing back. -/
abbrev Answered (κ δ : Type) := HiOp κ δ × Except HiErr (Option δ)

/-- A table in a run. -/
structure Store (κ δ : Type) where
  handle : HiHandle κ δ
  heap : Heap
  /-- What was asked and answered, oldest first. -/
  hist : List (Answered κ δ)

namespace Store

/-- The operation is answered; there is no next state after the use of foreign memory. -/
def reply (s : Store κ δ) (op : HiOp κ δ) (h : HiHandle κ δ) (hp : Heap) :
    Except HiErr (Option δ) → Option (Store κ δ)
  | .error .undefined => none
  | a => some ⟨h, hp, s.hist ++ [(op, a)]⟩

/-- The answers other than `undefined` are recorded. -/
theorem reply_eq {s : Store κ δ} {op : HiOp κ δ} {h : HiHandle κ δ} {hp : Heap}
    {a : Except HiErr (Option δ)} (ha : a ≠ .error .undefined) :
    s.reply op h hp a = some ⟨h, hp, s.hist ++ [(op, a)]⟩ := by
  cases a with
  | ok o => rfl
  | error e => cases e <;> first | rfl | exact absurd rfl ha

/-- One operation. -/
def next (s : Store κ δ) : HiOp κ δ → Option (Store κ δ)
  | .get key =>
    let (h, a) := s.handle.hiGet key
    s.reply (.get key) h s.heap (a.map some)
  | .remove key =>
    let (h, a) := s.handle.hiRemove key
    s.reply (.remove key) h s.heap (a.map some)
  | .insert key data =>
    let (h, hp, a) := s.handle.hiInsert key data s.heap
    s.reply (.insert key data) h hp (a.map fun _ => none)

end Store

/-- A program at work on a new table. -/
def storeSystem (δ : Type) (set : HiInitSet κ) (hp : Heap) : System (Store κ δ) (HiOp κ δ) :=
  ⟨⟨vanilla set, hp, []⟩, Store.next⟩

/-- The number of pairs stays in the range of the size's type. -/
def Small (s : Store κ δ) (_ : HiOp κ δ) : Prop := s.handle.noObjects < 2147483648

section Runs

variable [DecidableEq κ]

/-- What an answered operation does to the map. -/
def noted (m : κ → Option δ) : Answered κ δ → κ → Option δ
  | (.insert key data, .ok _) => Function.update m key (some data)
  | (.remove key, _) => Function.update m key none
  | _ => m

/-- The map of what was inserted and not removed since. -/
def recalled (hist : List (Answered κ δ)) : κ → Option δ := hist.foldl noted fun _ => none

/-- The answer to an operation when the map is `m`; memory runs out or it does not. -/
def Fits (m : κ → Option δ) : Answered κ δ → Prop
  | (.get key, a) => a = (answer (m key)).map some
  | (.remove key, a) => a = (answer (m key)).map some
  | (.insert key _, a) =>
    (m key ≠ none → a = .error .dupkey) ∧
      (m key = none → a = .ok none ∨ ∃ e : HiErr, e.NoMemory ∧ a = .error e)

/-- What holds of a table in every run. -/
structure KeepsMap (set : HiInitSet κ) (hp : Heap) (s : Store κ δ) : Prop where
  /-- Every answer was that of the map at the time. -/
  answers : ∀ before a after, s.hist = before ++ a :: after → Fits (recalled before) a
  /-- `hi_no_objects` counts the keys. -/
  counts : ∃ keys : List κ, keys.Nodup ∧ s.handle.noObjects = keys.length ∧
    ∀ k, k ∈ keys ↔ recalled s.hist k ≠ none
  /-- Nothing fails that has the memory. -/
  memory : Plenty hp → ∀ a ∈ s.hist, ∀ e : HiErr, e.NoMemory → a.2 ≠ .error e
  /-- No foreign memory is used where there is memory enough or `rehash_auto` is off. -/
  defined : Plenty hp ∨ set.rehashAuto = false → ∀ op, Small s op → s.next op ≠ none

variable {set : HiInitSet κ} {hp hp' : Heap} {s t : Store κ δ} {op : HiOp κ δ}

theorem recalled_snoc (hist : List (Answered κ δ)) (a : Answered κ δ) :
    recalled (hist ++ [a]) = noted (recalled hist) a := by
  rw [recalled, List.foldl_append]
  rfl

theorem HiErr.NoMemory.ne {e e' : HiErr} (h : e.NoMemory) (hs : e' ≠ .system) (hm : e' ≠ .enomem) :
    e ≠ e' := by
  rcases h with rfl | rfl
  · exact Ne.symm hs
  · exact Ne.symm hm

theorem answer_ne (o : Option δ) (e : HiErr) (he : e ≠ .nokey) :
    (answer o).map some ≠ Except.error e := by
  cases o with
  | none => exact fun h => he (by cases h; rfl)
  | some d => exact fun h => (by cases h)

/-- One operation, from `s` to `t`, against the map that the table stands for. -/
structure Stepped (s : Store κ δ) (op : HiOp κ δ) (t : Store κ δ) (a : Except HiErr (Option δ)) :
    Prop where
  hist : t.hist = s.hist ++ [(op, a)]
  heap : Plenty s.heap → Plenty t.heap
  wellFormed : WellFormed t.handle
  settings : SameSettings s.handle t.handle
  fits : Fits s.handle.find (op, a)
  find : t.handle.find = noted s.handle.find (op, a)
  memory : Plenty s.heap → ∀ e : HiErr, e.NoMemory → a ≠ .error e

/-- **One operation** is answered like the map answers it. -/
theorem next_spec (h' : WellFormed s.handle) (hsmall : Small s op)
    (hzero : s.handle.rehashAuto = true → s.handle.rehashThreshold 0 = false) :
    (s.next op = none ∧ ¬ Plenty s.heap ∧ s.handle.rehashAuto = true) ∨
      ∃ t a, s.next op = some t ∧ Stepped s op t a := by
  cases op with
  | get key =>
    obtain ⟨u, hget, hu, hfind, hset⟩ := hiGet_spec h' key
    have hnext : s.next (.get key) =
        s.reply (.get key) u s.heap ((answer (s.handle.find key)).map some) := by
      rw [Store.next, hget]
    rw [hnext, Store.reply_eq (answer_ne _ _ (by decide))]
    exact .inr ⟨_, _, rfl, rfl, id, hu, .of_eq hset, rfl, hfind,
      fun _ e he => answer_ne _ _ (he.ne (by decide) (by decide))⟩
  | remove key =>
    obtain ⟨u, hremove, hu, hfind, hset⟩ := hiRemove_spec h' key
    have hnext : s.next (.remove key) =
        s.reply (.remove key) u s.heap ((answer (s.handle.find key)).map some) := by
      rw [Store.next, hremove]
    rw [hnext, Store.reply_eq (answer_ne _ _ (by decide))]
    exact .inr ⟨_, _, rfl, rfl, id, hu, .of_eq hset, rfl, hfind,
      fun _ e he => answer_ne _ _ (he.ne (by decide) (by decide))⟩
  | insert key data =>
    rw [Store.next]
    rcases hiInsert_spec h' hsmall hzero key data s.heap with
      ⟨u, hp', hins, hno, hauto⟩ | ⟨u, hp', hk, hu, hset, hcase⟩
    · rw [hins]
      exact .inl ⟨rfl, hno, hauto⟩
    · refine .inr ?_
      rcases hcase with ⟨hins, hkey, hfind⟩ | ⟨e, he, hins, hkey, hno, hfind⟩ |
        ⟨hins, hkey, hfind⟩
      · rw [hins]
        exact ⟨_, _, rfl, rfl, hk, hu, hset, ⟨fun _ => rfl, fun hn => absurd hn hkey⟩, hfind,
          fun _ e he h => he.ne (by decide) (by decide) (Except.error.inj h).symm⟩
      · have hne : e ≠ .undefined := he.ne (by decide) (by decide)
        have hreply : s.reply (.insert key data) u hp' (.error e) = some _ :=
          Store.reply_eq fun h => hne (Except.error.inj h)
        rw [hins]
        exact ⟨_, _, hreply, rfl, hk, hu, hset,
          ⟨fun hn => absurd hkey hn, fun _ => .inr ⟨e, he, rfl⟩⟩, hfind, fun hpl => absurd hpl hno⟩
      · rw [hins]
        exact ⟨_, _, rfl, rfl, hk, hu, hset, ⟨fun hn => absurd hkey hn, fun _ => .inl rfl⟩, hfind,
          fun _ e he h => (by cases h)⟩

/-- The invariant of a run. -/
structure StoreInv (set : HiInitSet κ) (hp : Heap) (s : Store κ δ) : Prop where
  wellFormed : WellFormed s.handle
  settings : s.handle.toHiInitSet = { set with tableSize := s.handle.tableSize }
  find : s.handle.find = recalled s.hist
  heap : Plenty hp → Plenty s.heap
  answers : ∀ before a after, s.hist = before ++ a :: after → Fits (recalled before) a
  memory : Plenty hp → ∀ a ∈ s.hist, ∀ e : HiErr, e.NoMemory → a.2 ≠ .error e

theorem StoreInv.threshold (h : StoreInv set hp s) (hzero : set.rehashThreshold 0 = false) :
    s.handle.rehashThreshold 0 = false := by
  rw [h.settings]
  exact hzero

theorem storeInv_init (hsize : 0 < set.tableSize) (ho : KeyOrder set.keyCmp)
    (hpl : set.collEng.plain = true) : StoreInv set hp (storeSystem δ set hp).init :=
  ⟨wellFormed_vanilla hsize ho hpl, rfl, find_vanilla set, id,
    fun before a after h => (by simp [storeSystem] at h), fun _ a h => (by cases h)⟩

/-- **Step**: an operation keeps the invariant. -/
theorem StoreInv.step {a : Except HiErr (Option δ)} (h : StoreInv set hp s)
    (ht : Stepped s op t a) : StoreInv set hp t := by
  refine ⟨ht.wellFormed, ?_, ?_, fun hpl => ht.heap (h.heap hpl), ?_, ?_⟩
  · rw [ht.settings, h.settings]
  · rw [ht.find, ht.hist, recalled_snoc, h.find]
  · intro before x after hx
    rw [ht.hist] at hx
    rcases List.eq_nil_or_concat after with rfl | ⟨rest, y, rfl⟩
    · obtain ⟨hbefore, hlast⟩ := List.append_inj' hx rfl
      rw [← hbefore, ← h.find, ← (List.cons.inj hlast).1]
      exact ht.fits
    · rw [List.concat_eq_append, ← List.cons_append, ← List.append_assoc] at hx
      exact h.answers before x rest (List.append_inj' hx rfl).1
  · intro hpl x hx
    rw [ht.hist] at hx
    rcases List.mem_append.mp hx with hx | hx
    · exact h.memory hpl x hx
    · rw [List.mem_singleton.mp hx]
      exact ht.memory (h.heap hpl)

/-- The invariant in the terms of the program. -/
theorem StoreInv.keepsMap (h : StoreInv set hp s) (hzero : set.rehashThreshold 0 = false) :
    KeepsMap set hp s := by
  refine ⟨h.answers, ⟨(s.handle.later 0).map Prod.fst, distinct_later h.wellFormed, ?_, ?_⟩,
    h.memory, ?_⟩
  · rw [List.length_map, length_later h.wellFormed]
  · intro k
    rw [← h.find, ← value_later h.wellFormed, ne_eq, Buckets.value_none, not_not]
  · intro hor op hsmall hnone
    rcases next_spec h.wellFormed hsmall (fun _ => h.threshold hzero) with
      ⟨-, hno, hauto⟩ | ⟨t, a, ht, -⟩
    · have hset : set.rehashAuto = true := by
        rw [h.settings] at hauto
        exact hauto
      rcases hor with hpl | hoff
      · exact hno (h.heap hpl)
      · rw [hoff] at hset
        cases hset
    · rw [ht] at hnone
      cases hnone

/-- **A table answers like a map**, in every run: with any hash function, on lists, on lists that
move to the front and on trees, through every rehash and whatever `malloc` answers. -/
theorem store_keeps_map (hsize : 0 < set.tableSize) (ho : KeyOrder set.keyCmp)
    (hpl : set.collEng.plain = true) (hzero : set.rehashThreshold 0 = false)
    (hs : (storeSystem δ set hp).Reach Small s) : KeepsMap set hp s := by
  have hinv : StoreInv set hp s := by
    refine hs.invariant (storeInv_init hsize ho hpl) ?_
    intro s op t h hsmall hn
    rcases next_spec h.wellFormed hsmall (fun _ => h.threshold hzero) with
      ⟨hnone, -⟩ | ⟨u, a, hu, hst⟩
    · rw [show s.next op = some t from hn] at hnone
      cases hnone
    · rw [show s.next op = some t from hn] at hu
      cases hu
      exact h.step hst
  exact hinv.keepsMap hzero

/-! ## A run -/

/-- A table of one tree, to be doubled when it has more pairs than buckets. -/
def oneTree : HiInitSet Nat where
  tableSize := 1
  rehashAuto := true
  rehashThreshold := fun load => decide (1 < load)
  collEng := .rbtree
  hashFunc := fun key => key
  hash2Func := fun key => key
  keyCmp := fun a b => (a : Int) - b

theorem oneTree_order : KeyOrder oneTree.keyCmp := by
  refine ⟨fun a b => ?_, fun a b => ?_, fun a b c => ?_⟩ <;> simp only [oneTree] <;> omega

/-- Three pairs, the last of them into a table of two trees. -/
def growing : List (HiOp Nat Nat) :=
  [.insert 1 10, .insert 2 20, .insert 3 30, .get 2, .insert 1 40, .remove 1, .get 1]

theorem store_keeps_map_growing : ∃ s : Store Nat Nat,
    (storeSystem Nat oneTree fun _ => some 0).Reach Small s ∧
      s.handle.tableSize = 2 ∧ s.hist.length = 7 ∧ KeepsMap oneTree (fun _ => some 0) s := by
  obtain ⟨s, hs, hp⟩ := System.Reach.of_run (storeSystem Nat oneTree fun _ => some 0) Small
    (fun s _ => decide (s.handle.noObjects < 2147483648)) growing
    (fun s => decide (s.handle.tableSize = 2 ∧ s.hist.length = 7))
    (fun s _ h => (of_decide_eq_true h : s.handle.noObjects < 2147483648)) (by decide) (by decide)
  have hsize := of_decide_eq_true hp
  exact ⟨s, hs, hsize.1, hsize.2, store_keeps_map (by decide) oneTree_order rfl rfl hs⟩

end Runs

end Hwdb.Hashish
