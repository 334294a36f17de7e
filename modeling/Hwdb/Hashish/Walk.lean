import Hwdb.Hashish.Store

/-!
# Iterators over a table in use (`hi_iterator.c`)

A program may go on using a table while an iterator walks over it, as
`garbadge_collect_osdpi_flows` does.  The iterator has a copy of one bucket and reads the buckets
behind it when it gets there, so it may see a key that comes or goes in the meantime, or miss it.
Every other key is seen once if it is there, and never if it is not.

* `Walk` — a table in use, an iterator and what it has handed out.
* `later_filter`, `pending_filter` — one key in what an iterator has before it.
* `walk_sees_once` — in every interleaving of the iterator with other calls.
-/

set_option autoImplicit false

namespace Hwdb.Hashish

open Hwdb.Lib

variable {κ δ : Type}

/-- A table in use and an iterator over it. -/
structure Walk (κ δ : Type) where
  store : Store κ δ
  iter : HiIterator κ δ
  seen : List (κ × δ)
  ended : Option HiErr

/-- What a program does with both. -/
inductive WalkAct (κ δ : Type) where
  | op (op : HiOp κ δ)
  | getnext
  deriving DecidableEq, Repr

/-- One call; a program stops at the first error of the iterator. -/
def Walk.next (w : Walk κ δ) : WalkAct κ δ → Option (Walk κ δ)
  | .op op => (w.store.next op).map fun s => { w with store := s }
  | .getnext =>
    if w.ended.isSome then none
    else
      match w.store.handle.hiIteratorGetnext w.iter w.store.heap with
      | (hp, i, .ok e) =>
        some { w with store := { w.store with heap := hp }, iter := i, seen := w.seen ++ [e] }
      | (hp, i, .error e) =>
        some { w with store := { w.store with heap := hp }, iter := i, ended := some e }

/-- A program at work on a table and a new iterator. -/
def walkSystem (s : Store κ δ) (i : HiIterator κ δ) : System (Walk κ δ) (WalkAct κ δ) :=
  ⟨⟨s, i, [], none⟩, Walk.next⟩

/-- No call inserts or removes the key. -/
def LeavesAlone (key : κ) : WalkAct κ δ → Prop
  | .op (.insert k _) => k ≠ key
  | .op (.remove k) => k ≠ key
  | _ => True

instance [DecidableEq κ] (key : κ) : (act : WalkAct κ δ) → Decidable (LeavesAlone key act)
  | .op (.insert k _) => inferInstanceAs (Decidable (k ≠ key))
  | .op (.remove k) => inferInstanceAs (Decidable (k ≠ key))
  | .op (.get _) => .isTrue trivial
  | .getnext => .isTrue trivial

section Settings

open HiHandle

variable {h u : HiHandle κ δ} {s t : Store κ δ} {op : HiOp κ δ} {hp : Heap} {i : HiIterator κ δ}

theorem lhiInsert_set (key : κ) (data : δ) (hp : Heap) :
    (h.lhiInsert key data hp).1.toHiInitSet = h.toHiInitSet := by
  rw [lhiInsert]
  split
  · rw [lhiInsertRbtree]
    repeat' first | rfl | split
  · rw [lhiInsertList]
    repeat' first | rfl | split

/-- Without `rehash_auto` an insertion leaves the size. -/
theorem hiInsert_set (hoff : h.rehashAuto = false) (key : κ) (data : δ) (hp : Heap) :
    (h.hiInsert key data hp).1.toHiInitSet = h.toHiInitSet := by
  rw [hiInsert, hiInsertWith, doRehash_off hoff]
  split
  · rfl
  · exact lhiInsert_set key data hp

theorem reply_handle {a : Except HiErr (Option δ)} (hn : s.reply op u hp a = some t) :
    t.handle = u := by
  by_cases ha : a = .error .undefined
  · subst ha
    cases hn
  · rw [Store.reply_eq ha] at hn
    cases hn
    rfl

variable [DecidableEq κ]

theorem next_set (h' : WellFormed s.handle) (hoff : s.handle.rehashAuto = false)
    (hn : s.next op = some t) : t.handle.toHiInitSet = s.handle.toHiInitSet := by
  cases op with
  | get key =>
    obtain ⟨u, hget, -, -, hset⟩ := hiGet_spec h' key
    rw [Store.next, hget] at hn
    rw [reply_handle hn, hset]
  | remove key =>
    obtain ⟨u, hremove, -, -, hset⟩ := hiRemove_spec h' key
    rw [Store.next, hremove] at hn
    rw [reply_handle hn, hset]
  | insert key data =>
    have hset := hiInsert_set hoff key data s.heap
    rw [Store.next] at hn
    rw [← hset]
    exact congrArg HiHandle.toHiInitSet (reply_handle hn)

/-- One key in the buckets from `b` on. -/
theorem later_filter (h' : WellFormed h) (b : Nat) (key : κ) :
    (h.later b).filter (fun e => decide (e.1 = key)) =
      if b ≤ h.home key then ((h.find key).map (key, ·)).toList else [] := by
  have hnd : (List.range' b (h.tableSize - b)).Nodup := List.nodup_range'
  have hlt := home_lt h' key
  rw [later, Buckets.filter_key (h'.placed.distinct_gather hnd), h'.placed.value_gather hnd]
  by_cases hb : b ≤ h.home key
  · rw [if_pos hb, if_pos (List.mem_range'_1.mpr ⟨hb, by omega⟩)]
    rfl
  · rw [if_neg hb, if_neg fun hm => hb (List.mem_range'_1.mp hm).1]
    rfl

/-- A key of which the table says the same is pending as before. -/
theorem pending_filter {key : κ} (h' : WellFormed h) (hu : WellFormed u)
    (hset : u.toHiInitSet = h.toHiInitSet) (hfind : u.find key = h.find key)
    (i : HiIterator κ δ) :
    (u.pending i).filter (fun e => decide (e.1 = key)) =
      (h.pending i).filter fun e => decide (e.1 = key) := by
  have hhome : u.home key = h.home key := by
    rw [home, home, hset]
  rw [pending, pending, List.filter_append, List.filter_append, later_filter hu, later_filter h',
    hhome, hfind]

end Settings

section Walks

variable [DecidableEq κ] {s : Store κ δ} {w w' : Walk κ δ} {set : HiInitSet κ} {key : κ}
  {o : Option δ}

/-- An operation on other keys. -/
theorem noted_ne {m : κ → Option δ} {op : HiOp κ δ} {a : Except HiErr (Option δ)}
    (h : LeavesAlone key (.op op)) : noted m (op, a) key = m key := by
  cases op with
  | get k => rfl
  | remove k => exact Function.update_of_ne (Ne.symm h) ..
  | insert k d =>
    cases a with
    | ok x => exact Function.update_of_ne (Ne.symm h) ..
    | error e => rfl

/-- The invariant: of `key`, what was seen and what is still to be seen are what the table says. -/
structure Walking (set : HiInitSet κ) (key : κ) (o : Option δ) (w : Walk κ δ) : Prop where
  wellFormed : WellFormed w.store.handle
  settings : w.store.handle.toHiInitSet = set
  find : w.store.handle.find key = o
  copied : w.ended = none → Copied w.store.handle w.iter
  seen : ∃ rest, ((w.seen ++ rest).filter fun e => decide (e.1 = key)).Perm
      (o.map (key, ·)).toList ∧
    (w.ended = none → rest = w.store.handle.pending w.iter) ∧
    (w.ended = some .nodata → rest = [])

/-- **Step**: a call that leaves `key` alone. -/
theorem Walking.next {act : WalkAct κ δ} (h : Walking set key o w) (hoff : set.rehashAuto = false)
    (hsmall : w.store.handle.noObjects < 2147483648)
    (halone : LeavesAlone key act) (hn : w.next act = some w') : Walking set key o w' := by
  obtain ⟨rest, hseen, hrest, hend⟩ := h.seen
  cases act with
  | op op =>
    obtain ⟨t, ht, rfl⟩ := Option.map_eq_some_iff.mp hn
    have hoff' : w.store.handle.rehashAuto = false := by
      rw [h.settings, hoff]
    have hzero : w.store.handle.rehashAuto = true → w.store.handle.rehashThreshold 0 = false := by
      intro hauto
      rw [hoff'] at hauto
      cases hauto
    have hset := next_set h.wellFormed hoff' ht
    rcases next_spec h.wellFormed (show Small w.store op from hsmall) hzero with
      ⟨hnone, -⟩ | ⟨u, a, hu, hst⟩
    · rw [ht] at hnone
      cases hnone
    · rw [ht] at hu
      cases hu
      have hfind : t.handle.find key = w.store.handle.find key := by
        rw [hst.find, noted_ne halone]
      refine ⟨hst.wellFormed, hset.trans h.settings, hfind.trans h.find,
        fun he => (h.copied he).of_set hset, ?_⟩
      by_cases he : w.ended = none
      · refine ⟨t.handle.pending w.iter, ?_, fun _ => rfl, fun hno => ?_⟩
        · rw [List.filter_append, pending_filter h.wellFormed hst.wellFormed hset hfind,
            ← hrest he, ← List.filter_append]
          exact hseen
        · have hno' : w.ended = some .nodata := hno
          rw [he] at hno'
          cases hno'
      · exact ⟨rest, hseen, fun hno => absurd hno he, hend⟩
  | getnext =>
    rw [Walk.next] at hn
    split at hn
    · cases hn
    · next hne =>
      have he : w.ended = none := by
        cases hw : w.ended with
        | none => rfl
        | some e =>
          rw [hw] at hne
          exact absurd rfl hne
      obtain rfl := hrest he
      obtain ⟨hp', v, -, hres⟩ := hiIteratorGetnext_spec h.wellFormed (h.copied he) w.store.heap
      rcases hres with ⟨hres, hnil⟩ | ⟨hres, -⟩ | ⟨e, hres, hcv, hperm⟩
      · rw [hres] at hn
        cases hn
        rw [hnil] at hseen
        exact ⟨h.wellFormed, h.settings, h.find, fun hno => (by cases hno),
          [], hseen, fun hno => (by cases hno), fun _ => rfl⟩
      · rw [hres] at hn
        cases hn
        exact ⟨h.wellFormed, h.settings, h.find, fun hno => (by cases hno),
          _, hseen, fun hno => (by cases hno), fun hno => (by cases hno)⟩
      · rw [hres] at hn
        cases hn
        refine ⟨h.wellFormed, h.settings, h.find, fun _ => hcv, _, ?_, fun _ => rfl, fun hno => ?_⟩
        · refine List.Perm.trans ?_ hseen
          rw [List.append_assoc]
          exact ((hperm.symm.append_left _).filter _)
        · have hno' : w.ended = some .nodata := hno
          rw [he] at hno'
          cases hno'

/-- **A walk over a table in use** hands out every key that nobody inserts or removes in the
meantime: once if it is in the table, and never if it is not. -/
theorem walk_sees_once (h' : WellFormed s.handle) (hoff : s.handle.rehashAuto = false) {hp : Heap}
    {i : HiIterator κ δ} (hi : s.handle.hiIteratorCreate s.heap = (hp, .ok i)) (key : κ)
    (hw : (walkSystem { s with heap := hp } i).Reach (fun w act =>
      LeavesAlone key act ∧ w.store.handle.noObjects < 2147483648) w) :
    (w.seen.filter fun e => decide (e.1 = key)).length ≤ 1 ∧
      (∀ d, (key, d) ∈ w.seen → s.handle.find key = some d) ∧
      (w.ended = some .nodata → ∀ d, s.handle.find key = some d → (key, d) ∈ w.seen) := by
  have hinv : Walking s.handle.toHiInitSet key (s.handle.find key) w := by
    refine hw.invariant ?_ fun w act w' h hok hn => h.next hoff hok.2 hok.1 hn
    obtain ⟨hp', -, hres⟩ := hiIteratorCreate_spec h' s.heap
    rcases hres with ⟨hres, -⟩ | ⟨hres, -⟩ | ⟨j, hres, hc, hperm⟩
    · rw [hi] at hres
      cases hres
    · rw [hi] at hres
      cases hres
    · rw [hi] at hres
      cases hres
      refine ⟨h', rfl, rfl, fun _ => hc, _, ?_, fun _ => rfl, fun hno => (by cases hno)⟩
      refine (hperm.filter _).trans ?_
      rw [later_filter h', if_pos (Nat.zero_le _)]
  obtain ⟨rest, hperm, -, hend⟩ := hinv.seen
  have hmem : ∀ d, (key, d) ∈ w.seen ++ rest ↔ s.handle.find key = some d := by
    intro d
    have hd := hperm.mem_iff (a := (key, d))
    rw [List.mem_filter] at hd
    simpa using hd
  refine ⟨?_, fun d hd => (hmem d).mp (List.mem_append_left _ hd), fun hno d hd => ?_⟩
  · have hlen := hperm.length_eq
    rw [List.filter_append, List.length_append] at hlen
    have hone : ((s.handle.find key).map (key, ·)).toList.length ≤ 1 := by
      cases s.handle.find key <;> simp
    omega
  · have hd' := (hmem d).mpr hd
    rw [hend hno, List.append_nil] at hd'
    exact hd'

/-! ## A walk -/

/-- A table of two lists without a rehash. -/
def twoLists : HiInitSet Nat :=
  { oneTree with tableSize := 2, rehashAuto := false, collEng := .list }

/-- It holds three pairs, two of them in one list. -/
def threePairs : HiHandle Nat Nat :=
  ([(1, 10), (2, 20), (3, 30)] : List (Nat × Nat)).foldl
    (fun h e => (h.lhiInsert e.1 e.2 fun _ => some 0).1) (vanilla twoLists)

theorem wellFormed_lhiInsert {h : HiHandle κ δ} (h' : WellFormed h) (key : κ) (data : δ)
    (hk : h.find key = none) : WellFormed (h.lhiInsert key data fun _ => some 0).1 := by
  obtain ⟨-, hok⟩ := (lhiInsert_spec h' key data fun _ => some 0).1 hk
  obtain ⟨u, hres, hu, -⟩ := hok (Option.some_ne_none 0)
  rw [hres]
  exact hu

theorem threePairs_wellFormed : WellFormed threePairs := by
  have h0 : WellFormed (vanilla twoLists : HiHandle Nat Nat) :=
    wellFormed_vanilla (by decide) oneTree_order rfl
  have h1 := wellFormed_lhiInsert h0 1 10 rfl
  have h2 := wellFormed_lhiInsert h1 2 20 rfl
  exact wellFormed_lhiInsert h2 3 30 rfl

/-- One pair goes and another comes before the walk ends. -/
theorem walk_sees_once_threePairs : ∃ w : Walk Nat Nat, w.ended = some .nodata ∧
    w.seen = [(2, 20), (1, 10)] ∧
    (w.seen.filter fun e => decide (e.1 = 1)).length ≤ 1 ∧
    (∀ d, (1, d) ∈ w.seen → threePairs.find 1 = some d) ∧ (1, 10) ∈ w.seen := by
  obtain ⟨w, hw, hp⟩ := System.Reach.of_run
    (walkSystem ⟨threePairs, fun _ => some 0, []⟩ ⟨0, [some (2, 20)], 1⟩)
    (fun w act => LeavesAlone 1 act ∧ w.store.handle.noObjects < 2147483648)
    (fun w act => decide (LeavesAlone 1 act ∧ w.store.handle.noObjects < 2147483648))
    [.op (.remove 3), .getnext, .op (.insert 4 40), .op (.get 1), .getnext, .getnext]
    (fun w => decide (w.ended = some .nodata ∧ w.seen = [(2, 20), (1, 10)]))
    (fun _ _ h => of_decide_eq_true h) (by decide) (by decide)
  obtain ⟨hend, hseen⟩ := of_decide_eq_true hp
  obtain ⟨hone, honly, hall⟩ := walk_sees_once (s := ⟨threePairs, fun _ => some 0, []⟩)
    threePairs_wellFormed rfl rfl 1 hw
  exact ⟨w, hend, hseen, hone, honly, hall hend 10 rfl⟩

end Walks

end Hwdb.Hashish
