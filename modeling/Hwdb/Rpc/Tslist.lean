import Mathlib.Data.Fintype.Card
import Mathlib.Data.List.Pairwise
import Hwdb.Lib.Deque
import Hwdb.Lib.Linked
import Hwdb.Lib.Run

/-!
# The thread-safe list (`tslist.c`)

Any number of threads inside `tsl_append`, `tsl_prepend` and `tsl_remove` of one list.  What a
thread does before it takes the mutex, under the mutex and after it are three steps; which
thread goes on and which free memory `mem_alloc` returns are part of the action.  Memory that has
been freed is handed out again.

* `TsList`, `Act`, `TsList.next` — the list head, the memory and the threads.
* `Linearized` — every operation takes effect at one moment between its call and its return, and
  returns what the sequence of these moments yields.
* `Represents` — the invariant: the elements from `head` on are the contents, `tail` is the last
  of them.
* `tsl_linearizable` — in every run.
-/

set_option autoImplicit false

namespace Hwdb.Rpc

open Hwdb.Lib

/-- The pointers other than `NULL`: 64 bits. -/
abbrev Addr := Fin 18446744073709551615

/-- What a caller puts into the list. -/
structure Item where
  addr : UInt64
  data : UInt64
  size : Int32
  deriving DecidableEq, Repr

/-- `struct element`. -/
structure ListElement where
  next : Option Addr
  item : Item
  deriving DecidableEq, Repr

/-- Where a thread is. -/
inductive Stage where
  /-- In front of `pthread_mutex_lock`, with the new element. -/
  | append (e : Addr)
  | prepend (e : Addr)
  | remove
  /-- Behind `pthread_mutex_unlock`. -/
  | inserted
  | removed (e : Addr)
  deriving DecidableEq, Repr

/-- A call that has not returned. -/
structure Pending where
  id : Nat
  stage : Stage
  deriving DecidableEq, Repr

/-- What can be observed of a call, and the moment at which it holds the mutex. -/
inductive Moment where
  | called (id : Nat) (op : Deque.Op Item)
  | took (id : Nat) (op : Deque.Op Item)
  | returned (id : Nat) (result : Option Item)
  deriving DecidableEq, Repr

/-- The call that a moment is about. -/
def Moment.id : Moment → Nat
  | .called id _ => id
  | .took id _ => id
  | .returned id _ => id

/-- The list head, the memory, the calls in progress and what has happened; `fault` is set by a
dereference of `NULL` or of memory that is not allocated. -/
structure TsList where
  head : Option Addr
  tail : Option Addr
  count : UInt64
  mem : Addr → Option ListElement
  pending : List Pending
  calls : Nat
  log : List Moment
  fault : Bool

inductive TslAct where
  /-- `tsl_append` up to the mutex; `mem_alloc` returns `e`. -/
  | append (e : Addr) (x : Item)
  /-- `tsl_prepend` up to the mutex; `e->next` is not set yet. -/
  | prepend (e : Addr) (garbage : Option Addr) (x : Item)
  | remove
  /-- Call `i` in progress gets the mutex and gives it back. -/
  | enter (i : Nat)
  /-- Call `i` in progress returns. -/
  | leave (i : Nat)
  deriving DecidableEq, Repr

namespace TsList

variable (s : TsList)

/-- `tsl_create`. -/
def init : TsList := ⟨none, none, 0, fun _ => none, [], 0, [], false⟩

def crash : TsList := { s with fault := true }

/-- A new call of `op`. -/
def call (op : Deque.Op Item) (stage : Stage) : TsList :=
  { s with
    pending := s.pending ++ [⟨s.calls, stage⟩]
    calls := s.calls + 1
    log := s.log ++ [.called s.calls op] }

/-- Call `i`, numbered `id`, has had the mutex. -/
def took (i id : Nat) (op : Deque.Op Item) (stage : Stage) : TsList :=
  { s with pending := s.pending.set i ⟨id, stage⟩, log := s.log ++ [.took id op] }

/-- `tsl_append` under the mutex, for the element `e` with `item`. -/
def tslAppend (e : Addr) : TsList :=
  if s.count = 0 then
    { s with count := s.count + 1, head := some e, tail := some e }
  else
    match s.tail with
    | none => s.crash
    | some t =>
      match s.mem t with
      | none => s.crash
      | some el =>
        { s with
          count := s.count + 1
          mem := Function.update s.mem t (some { el with next := some e })
          tail := some e }

/-- `tsl_prepend` under the mutex. -/
def tslPrepend (e : Addr) : TsList :=
  match s.mem e with
  | none => s.crash
  | some el =>
    { s with
      mem := Function.update s.mem e (some { el with next := s.head })
      head := some e
      count := s.count + 1
      tail := if s.count = 0 then some e else s.tail }

/-- `tsl_remove` under the mutex once `count` is not zero, with the element taken off. -/
def tslRemove : TsList × Option Addr :=
  match s.head with
  | none => (s.crash, none)
  | some e =>
    match s.mem e with
    | none => (s.crash, none)
    | some el =>
      ({ s with
        head := el.next
        count := s.count - 1
        tail := if s.count - 1 = 0 then none else s.tail }, some e)

/-- The item of an element. -/
def itemAt (e : Addr) : Option Item := (s.mem e).map (·.item)

/-- Call `i` under the mutex; `none` while it is not waiting for it or, in `tsl_remove`, the list
is empty. -/
def enter (i : Nat) (p : Pending) : Option TsList :=
  match p.stage with
  | .append e =>
    match s.itemAt e with
    | none => some s.crash
    | some x => some ((s.tslAppend e).took i p.id (.append x) .inserted)
  | .prepend e =>
    match s.itemAt e with
    | none => some s.crash
    | some x => some ((s.tslPrepend e).took i p.id (.prepend x) .inserted)
  | .remove =>
    if s.count = 0 then none
    else
      match s.tslRemove with
      | (s, none) => some s
      | (s, some e) => some (s.took i p.id .remove (.removed e))
  | .inserted => none
  | .removed _ => none

/-- Call `i` from the mutex to its return: `tsl_remove` reads the element and frees it. -/
def leave (i : Nat) (p : Pending) : Option TsList :=
  match p.stage with
  | .inserted =>
    some { s with pending := s.pending.eraseIdx i, log := s.log ++ [.returned p.id none] }
  | .removed e =>
    match s.mem e with
    | none => some s.crash
    | some el =>
      some { s with
        mem := Function.update s.mem e none
        pending := s.pending.eraseIdx i
        log := s.log ++ [.returned p.id (some el.item)] }
  | .append _ => none
  | .prepend _ => none
  | .remove => none

/-- One step of one thread. -/
def next (s : TsList) (a : TslAct) : Option TsList :=
  if s.fault then none
  else
    match a with
    | .append e x =>
      if s.mem e = none then
        some ({ s with mem := Function.update s.mem e (some ⟨none, x⟩) }.call (.append x)
          (.append e))
      else none
    | .prepend e garbage x =>
      if s.mem e = none then
        some ({ s with mem := Function.update s.mem e (some ⟨garbage, x⟩) }.call (.prepend x)
          (.prepend e))
      else none
    | .remove => some (s.call .remove .remove)
    | .enter i => s.pending[i]?.bind (s.enter i)
    | .leave i => s.pending[i]?.bind (s.leave i)

end TsList

/-- One list and its threads. -/
def tslSystem : System TsList TslAct := ⟨TsList.init, TsList.next⟩

/-! ## Histories -/

/-- The operations in the order in which they had the mutex. -/
def taken (log : List Moment) : List (Nat × Deque.Op Item) :=
  log.filterMap fun
    | .took id op => some (id, op)
    | _ => none

/-- The contents of the list and the results, were the operations made one after the other. -/
def sequential (log : List Moment) : List Item × List (Nat × Option Item) :=
  Deque.run [] (taken log)

/-- Every operation takes effect once, between its call and its return, and returns what it has
in the sequence of these moments. -/
inductive Linearized : List Moment → Prop where
  | nil : Linearized []
  | called {log : List Moment} {id : Nat} {op : Deque.Op Item} (h : Linearized log)
      (hnew : ∀ op', .called id op' ∉ log) : Linearized (log ++ [.called id op])
  | took {log : List Moment} {id : Nat} {op : Deque.Op Item} (h : Linearized log)
      (hcalled : .called id op ∈ log) (hnew : ∀ op', .took id op' ∉ log) :
      Linearized (log ++ [.took id op])
  | returned {log : List Moment} {id : Nat} {r : Option Item} (h : Linearized log)
      (hresult : (id, r) ∈ (sequential log).2) (hnew : ∀ r', .returned id r' ∉ log) :
      Linearized (log ++ [.returned id r])

/-! ## The elements -/

/-- The `next` field of an element. -/
def linkOf (mem : Addr → Option ListElement) (a : Addr) : Option Addr := (mem a).bind (·.next)

/-- `l` are the elements of the list. -/
structure Represents (s : TsList) (l : List Addr) : Prop where
  linked : Linked.Segment (linkOf s.mem) s.head l none
  nodup : l.Nodup
  count : s.count.toNat = l.length
  tail : l ≠ [] → s.tail = l.getLast?
  allocated : ∀ a ∈ l, (s.mem a).isSome

section Elements

variable {s : TsList} {l : List Addr} {mem : Addr → Option ListElement} {a e t : Addr}
  {el : ListElement} {v : Option Addr}

theorem linkOf_update (mem : Addr → Option ListElement) (t : Addr) (el : ListElement)
    (v : Option Addr) :
    linkOf (Function.update mem t (some { el with next := v })) =
      Function.update (linkOf mem) t v := by
  funext a
  by_cases ha : a = t
  · subst ha
    simp [linkOf]
  · simp [linkOf, ha]

/-- Writing a `next` field changes no item. -/
theorem item_update (hel : mem t = some el) (a : Addr) :
    ((Function.update mem t (some { el with next := v })) a).map (·.item) =
      (mem a).map (·.item) := by
  by_cases ha : a = t
  · subst ha
    simp [hel]
  · simp [ha]

/-- The counter does not wrap: there are not that many addresses. -/
theorem count_succ (h : Represents s l) (he : e ∉ l) :
    (s.count + 1).toNat = l.length + 1 := by
  have hcard : (e :: l).length ≤ Fintype.card Addr :=
    (List.nodup_cons.mpr ⟨he, h.nodup⟩).length_le_card
  rw [Fintype.card_fin, List.length_cons] at hcard
  rw [UInt64.toNat_add, h.count, UInt64.toNat_one]
  omega

theorem Represents.count_eq_zero (h : Represents s l) : s.count = 0 ↔ l = [] := by
  rw [← UInt64.toNat_inj, h.count]
  simp

/-- What a section does to the memory: an element keeps its item, and only elements of the list
and `e` are written. -/
structure Rewrites (s t : TsList) (l : List Addr) (e : Addr) : Prop where
  item : ∀ a, t.itemAt a = s.itemAt a
  others : ∀ a, a ∉ l → a ≠ e → t.mem a = s.mem a
  pending : t.pending = s.pending
  calls : t.calls = s.calls
  log : t.log = s.log
  fault : t.fault = s.fault

/-- **`tsl_append`** links the element behind the last one. -/
theorem Represents.append {x : Item} (h : Represents s l) (he : e ∉ l)
    (hel : s.mem e = some ⟨none, x⟩) :
    Represents (s.tslAppend e) (l ++ [e]) ∧ Rewrites s (s.tslAppend e) l e := by
  have hnodup : (l ++ [e]).Nodup := by
    simpa [List.nodup_append] using ⟨h.nodup, fun a ha hae => he (hae ▸ ha)⟩
  have hlink : linkOf s.mem e = none := by simp [linkOf, hel]
  have hcount := count_succ h he
  unfold TsList.tslAppend
  by_cases h0 : s.count = 0
  · have hl : l = [] := h.count_eq_zero.mp h0
    subst hl
    rw [if_pos h0]
    refine ⟨⟨⟨rfl, hlink⟩, hnodup, hcount, fun _ => rfl, fun a ha => ?_⟩,
      ⟨fun _ => rfl, fun _ _ _ => rfl, rfl, rfl, rfl, rfl⟩⟩
    have hae : a = e := by simpa using ha
    subst hae
    show (s.mem a).isSome
    rw [hel]
    rfl
  · rw [if_neg h0]
    obtain ⟨l', b, rfl⟩ : ∃ l' b, l = l' ++ [b] := by
      rcases List.eq_nil_or_concat l with hnil | ⟨l', b, hl⟩
      · exact absurd (h.count_eq_zero.mpr hnil) h0
      · exact ⟨l', b, by rw [hl, List.concat_eq_append]⟩
    have htail : s.tail = some b := by
      rw [h.tail (by simp)]
      simp
    obtain ⟨el, hb⟩ := Option.isSome_iff_exists.mp (h.allocated b (by simp))
    simp only [htail, hb]
    have hbl : b ∉ l' := fun hmem =>
      List.disjoint_of_nodup_append h.nodup hmem (List.mem_singleton.mpr rfl)
    refine ⟨⟨?_, hnodup, ?_, fun _ => by simp, fun a ha => ?_⟩,
      ⟨fun a => item_update hb a, fun a ha _ => ?_, rfl, rfl, rfl, rfl⟩⟩
    · show Linked.Segment (linkOf (Function.update s.mem b (some { el with next := some e }))) _ _ _
      rw [linkOf_update]
      exact h.linked.snoc_update hbl he hlink
    · show (s.count + 1).toNat = _
      rw [hcount]
      simp
    · show (Function.update s.mem b _ a).isSome
      by_cases hab : a = b
      · subst hab
        simp
      · rw [Function.update_of_ne hab]
        rcases List.mem_append.mp ha with ha | ha
        · exact h.allocated a ha
        · rw [List.mem_singleton.mp ha, hel]
          rfl
    · have hab : a ≠ b := fun hab => ha (by simp [hab])
      exact Function.update_of_ne hab _ _

/-- **`tsl_prepend`** links the element in front of the first one. -/
theorem Represents.prepend {x : Item} {g : Option Addr} (h : Represents s l) (he : e ∉ l)
    (hel : s.mem e = some ⟨g, x⟩) :
    Represents (s.tslPrepend e) (e :: l) ∧ Rewrites s (s.tslPrepend e) l e := by
  have hcount := count_succ h he
  unfold TsList.tslPrepend
  simp only [hel]
  refine ⟨⟨?_, List.nodup_cons.mpr ⟨he, h.nodup⟩, ?_, fun _ => ?_, fun a ha => ?_⟩,
    ⟨fun a => item_update hel a, fun a _ hae => Function.update_of_ne hae _ _, rfl, rfl, rfl, rfl⟩⟩
  · show Linked.Segment (linkOf (Function.update s.mem e (some { (⟨g, x⟩ : ListElement) with
      next := s.head }))) _ _ _
    rw [linkOf_update]
    exact h.linked.cons_update he
  · show (s.count + 1).toNat = _
    rw [hcount]
    rfl
  · show (if s.count = 0 then some e else s.tail) = _
    by_cases h0 : s.count = 0
    · have hl : l = [] := h.count_eq_zero.mp h0
      subst hl
      rw [if_pos h0]
      rfl
    · have hl : l ≠ [] := fun hl => h0 (h.count_eq_zero.mpr hl)
      rw [if_neg h0, h.tail hl, List.getLast?_cons_of_ne_nil hl]
  · show (Function.update s.mem e _ a).isSome
    by_cases hae : a = e
    · subst hae
      simp
    · rw [Function.update_of_ne hae]
      exact h.allocated a (List.mem_of_ne_of_mem hae ha)

/-- **`tsl_remove`** takes the first element off. -/
theorem Represents.remove (h : Represents s l) (h0 : s.count ≠ 0) :
    ∃ e l', l = e :: l' ∧ s.tslRemove.2 = some e ∧ Represents s.tslRemove.1 l' ∧
      s.tslRemove.1.mem = s.mem ∧ Rewrites s s.tslRemove.1 l e := by
  cases l with
  | nil => exact absurd (h.count_eq_zero.mpr rfl) h0
  | cons e l' =>
    obtain ⟨el, hel⟩ := Option.isSome_iff_exists.mp (h.allocated e List.mem_cons_self)
    have hhead : s.head = some e := h.linked.1
    have hnext : el.next = linkOf s.mem e := by simp [linkOf, hel]
    have hcount : (s.count - 1).toNat = l'.length := by
      have hlen := h.count
      rw [List.length_cons] at hlen
      have hone : (1 : UInt64) ≤ s.count := by
        rw [UInt64.le_iff_toNat_le, UInt64.toNat_one]
        omega
      rw [UInt64.toNat_sub_of_le _ _ hone, UInt64.toNat_one]
      omega
    unfold TsList.tslRemove
    simp only [hhead, hel]
    refine ⟨e, l', rfl, rfl, ⟨?_, (List.nodup_cons.mp h.nodup).2, hcount, fun hl => ?_,
      fun a ha => h.allocated a (List.mem_cons_of_mem _ ha)⟩, trivial,
      ⟨fun _ => rfl, fun _ _ _ => rfl, rfl, rfl, rfl, rfl⟩⟩
    · show Linked.Segment (linkOf s.mem) el.next l' none
      rw [hnext]
      exact h.linked.2
    · show (if s.count - 1 = 0 then none else s.tail) = _
      have hne : s.count - 1 ≠ 0 := by
        rw [Ne, ← UInt64.toNat_inj, hcount]
        simpa using hl
      rw [if_neg hne, h.tail (by simp), List.getLast?_cons_of_ne_nil hl]

end Elements

/-! ## The threads -/

/-- The element that a thread holds outside the list. -/
def Stage.cell : Stage → Option Addr
  | .append e => some e
  | .prepend e => some e
  | .remove => none
  | .inserted => none
  | .removed e => some e

/-- The elements that the threads hold outside the list. -/
def heldCells (s : TsList) : List Addr := s.pending.filterMap (·.stage.cell)

/-- Call `id` has not had the mutex. -/
def Untaken (log : List Moment) (id : Nat) : Prop := ∀ op, .took id op ∉ log

/-- What is known of a call in progress, stage by stage. -/
def Justified (s : TsList) (p : Pending) : Prop :=
  match p.stage with
  | .append e => ∃ x, s.mem e = some ⟨none, x⟩ ∧ .called p.id (.append x) ∈ s.log ∧
      Untaken s.log p.id
  | .prepend e => ∃ g x, s.mem e = some ⟨g, x⟩ ∧ .called p.id (.prepend x) ∈ s.log ∧
      Untaken s.log p.id
  | .remove => .called p.id .remove ∈ s.log ∧ Untaken s.log p.id
  | .inserted => (p.id, none) ∈ (sequential s.log).2
  | .removed e => ∃ el, s.mem e = some el ∧ (p.id, some el.item) ∈ (sequential s.log).2

/-- The invariant: `l` are the elements of the list, and every call is where its stage says. -/
structure TslInv (s : TsList) (l : List Addr) : Prop where
  represents : Represents s l
  sound : s.fault = false
  apart : (l ++ heldCells s).Nodup
  contents : l.filterMap s.itemAt = (sequential s.log).1
  ids : (s.pending.map (·.id)).Nodup
  known : ∀ p ∈ s.pending, p.id < s.calls
  bounded : ∀ m ∈ s.log, m.id < s.calls
  justified : ∀ p ∈ s.pending, Justified s p
  running : ∀ p ∈ s.pending, ∀ r, .returned p.id r ∉ s.log
  history : Linearized s.log

section Threads

variable {s t : TsList} {l : List Addr} {p q : Pending} {i : Nat} {log : List Moment}
  {m : Moment} {id : Nat} {op : Deque.Op Item} {r : Option Item}

theorem sequential_called (log : List Moment) (id : Nat) (op : Deque.Op Item) :
    sequential (log ++ [.called id op]) = sequential log := by
  simp [sequential, taken]

theorem sequential_returned (log : List Moment) (id : Nat) (r : Option Item) :
    sequential (log ++ [.returned id r]) = sequential log := by
  simp [sequential, taken]

theorem sequential_took (log : List Moment) (id : Nat) (op : Deque.Op Item) :
    sequential (log ++ [.took id op]) = ((op.apply (sequential log).1).1,
      (sequential log).2 ++ [(id, (op.apply (sequential log).1).2)]) := by
  have htaken : taken (log ++ [.took id op]) = taken log ++ [(id, op)] := by simp [taken]
  rw [sequential, htaken, Deque.run_snoc]
  rfl

/-- Results stay. -/
theorem result_snoc (m : Moment) (h : (id, r) ∈ (sequential log).2) :
    (id, r) ∈ (sequential (log ++ [m])).2 := by
  cases m with
  | called id' op => rwa [sequential_called]
  | took id' op =>
    rw [sequential_took]
    exact List.mem_append_left _ h
  | returned id' r' => rwa [sequential_returned]

/-- A call keeps its stage while nobody writes to its element and no moment is its own. -/
theorem Justified.frame (h : Justified s q) (hmem : ∀ a, q.stage.cell = some a → t.mem a = s.mem a)
    (hlog : t.log = s.log ++ [m]) (hm : ∀ op, m ≠ .took q.id op) : Justified t q := by
  have hun : Untaken s.log q.id → Untaken t.log q.id := fun hu op hin => by
    rw [hlog] at hin
    rcases List.mem_append.mp hin with hin | hin
    · exact hu op hin
    · exact hm op (List.mem_singleton.mp hin).symm
  have hin : ∀ m', m' ∈ s.log → m' ∈ t.log := fun m' hm' => by
    rw [hlog]
    exact List.mem_append_left _ hm'
  unfold Justified at h ⊢
  cases hst : q.stage with
  | append e =>
    rw [hst] at h
    obtain ⟨x, hx, hc, hu⟩ := h
    exact ⟨x, (hmem e (by rw [hst]; rfl)).trans hx, hin _ hc, hun hu⟩
  | prepend e =>
    rw [hst] at h
    obtain ⟨g, x, hx, hc, hu⟩ := h
    exact ⟨g, x, (hmem e (by rw [hst]; rfl)).trans hx, hin _ hc, hun hu⟩
  | remove =>
    rw [hst] at h
    exact ⟨hin _ h.1, hun h.2⟩
  | inserted =>
    rw [hst] at h
    show _ ∈ (sequential t.log).2
    rw [hlog]
    exact result_snoc m h
  | removed e =>
    rw [hst] at h
    obtain ⟨el, hel, hres⟩ := h
    refine ⟨el, (hmem e (by rw [hst]; rfl)).trans hel, ?_⟩
    rw [hlog]
    exact result_snoc m hres

/-- An element that a thread holds is allocated and not in the list. -/
theorem TslInv.held (h : TslInv s l) (hq : q ∈ s.pending) {a : Addr} (ha : q.stage.cell = some a) :
    a ∉ l ∧ (s.mem a).isSome := by
  have hheld : a ∈ heldCells s := List.mem_filterMap.mpr ⟨q, hq, ha⟩
  refine ⟨fun hl => List.disjoint_of_nodup_append h.apart hl hheld, ?_⟩
  have hj := h.justified q hq
  unfold Justified at hj
  cases hst : q.stage with
  | append e =>
    rw [hst] at hj ha
    obtain ⟨x, hx, -⟩ := hj
    cases ha
    rw [hx]
    rfl
  | prepend e =>
    rw [hst] at hj ha
    obtain ⟨g, x, hx, -⟩ := hj
    cases ha
    rw [hx]
    rfl
  | remove =>
    rw [hst] at ha
    cases ha
  | inserted =>
    rw [hst] at ha
    cases ha
  | removed e =>
    rw [hst] at hj ha
    obtain ⟨el, hel, -⟩ := hj
    cases ha
    rw [hel]
    rfl

/-- The elements of the list are the same ones while nobody writes to them. -/
theorem Represents.frame (h : Represents s l) (hhead : t.head = s.head) (htail : t.tail = s.tail)
    (hcount : t.count = s.count) (hmem : ∀ a ∈ l, t.mem a = s.mem a) : Represents t l := by
  refine ⟨?_, h.nodup, by rw [hcount, h.count], fun hl => by rw [htail, h.tail hl], fun a ha => ?_⟩
  · rw [hhead]
    refine h.linked.congr fun a ha => ?_
    simp [linkOf, hmem a ha]
  · rw [hmem a ha]
    exact h.allocated a ha

theorem contents_congr (h : ∀ a ∈ l, t.mem a = s.mem a) :
    l.filterMap t.itemAt = l.filterMap s.itemAt := by
  refine List.filterMap_congr fun a ha => ?_
  simp [TsList.itemAt, h a ha]

/-- One entry of a list, replaced and erased. -/
theorem split_getElem? {α : Type} {xs : List α} {x : α} (h : xs[i]? = some x) :
    ∃ bs cs, xs = bs ++ x :: cs ∧ (∀ y, xs.set i y = bs ++ y :: cs) ∧
      xs.eraseIdx i = bs ++ cs := by
  induction xs generalizing i with
  | nil => simp at h
  | cons y ys ih =>
    cases i with
    | zero =>
      have hx : y = x := by simpa using h
      subst hx
      exact ⟨[], ys, rfl, fun _ => rfl, rfl⟩
    | succ i =>
      obtain ⟨bs, cs, hys, hset, herase⟩ := ih (by simpa using h)
      exact ⟨y :: bs, cs, by rw [hys]; rfl, fun z => congrArg (y :: ·) (hset z),
        congrArg (y :: ·) herase⟩

/-- **A new call.**  Its element, if it has one, has just been allocated. -/
theorem TslInv.call {mem : Addr → Option ListElement} {stage : Stage} (h : TslInv s l)
    (hmem : ∀ a, (s.mem a).isSome → mem a = s.mem a)
    (hcell : ∀ e, stage.cell = some e → s.mem e = none)
    (hj : Justified ({ s with mem := mem }.call op stage) ⟨s.calls, stage⟩) :
    TslInv ({ s with mem := mem }.call op stage) l := by
  have hl : ∀ a ∈ l, mem a = s.mem a := fun a ha => hmem a (h.represents.allocated a ha)
  have hheld : heldCells ({ s with mem := mem }.call op stage) =
      heldCells s ++ stage.cell.toList := by
    cases hst : stage.cell <;> simp [heldCells, TsList.call, hst]
  refine ⟨h.represents.frame rfl rfl rfl hl, h.sound, ?_, ?_, ?_, ?_, ?_, ?_, ?_, ?_⟩
  · rw [hheld, ← List.append_assoc]
    refine List.nodup_append.mpr ⟨h.apart, by cases stage.cell <;> simp, ?_⟩
    intro a ha b hb hab
    subst hab
    have hnone := hcell a (by simpa using hb)
    have hsome : (s.mem a).isSome := by
      rcases List.mem_append.mp ha with ha | ha
      · exact h.represents.allocated a ha
      · obtain ⟨q, hq, hqa⟩ := List.mem_filterMap.mp ha
        exact (h.held hq hqa).2
    rw [hnone] at hsome
    cases hsome
  · show _ = (sequential (s.log ++ [.called s.calls op])).1
    rw [sequential_called, ← h.contents]
    exact contents_congr hl
  · show ((s.pending ++ [(⟨s.calls, stage⟩ : Pending)]).map (·.id)).Nodup
    rw [List.map_append]
    refine List.nodup_append.mpr ⟨h.ids, by simp, ?_⟩
    intro a ha b hb hab
    obtain ⟨q, hq, rfl⟩ := List.mem_map.mp ha
    have hlt := h.known q hq
    have hb' : b = s.calls := by simpa using hb
    omega
  · intro q hq
    rcases List.mem_append.mp hq with hq | hq
    · exact Nat.lt_succ_of_lt (h.known q hq)
    · rw [List.mem_singleton.mp hq]
      exact Nat.lt_succ_self _
  · intro m hm
    rcases List.mem_append.mp hm with hm | hm
    · exact Nat.lt_succ_of_lt (h.bounded m hm)
    · rw [List.mem_singleton.mp hm]
      exact Nat.lt_succ_self _
  · intro q hq
    rcases List.mem_append.mp hq with hq | hq
    · refine (h.justified q hq).frame (fun a ha => hmem a (h.held hq ha).2) rfl ?_
      intro op' hm
      cases hm
    · rw [List.mem_singleton.mp hq]
      exact hj
  · intro q hq r hin
    rcases List.mem_append.mp hin with hin | hin
    · rcases List.mem_append.mp hq with hq | hq
      · exact h.running q hq r hin
      · rw [List.mem_singleton.mp hq] at hin
        exact Nat.lt_irrefl _ (h.bounded _ hin)
    · cases List.mem_singleton.mp hin
  · exact h.history.called fun op' hin => Nat.lt_irrefl _ (h.bounded _ hin)

theorem heldCells_split {xs bs cs : List Pending} (x : Pending) (h : xs = bs ++ x :: cs) :
    xs.filterMap (·.stage.cell) = bs.filterMap (·.stage.cell) ++
      (x.stage.cell.toList ++ cs.filterMap (·.stage.cell)) := by
  rw [h, List.filterMap_append, List.filterMap_cons]
  cases x.stage.cell <;> rfl

/-- No two calls hold one element. -/
theorem TslInv.held_ne (h : TslInv s l) (hp : p ∈ s.pending) (hq : q ∈ s.pending)
    (hne : q.id ≠ p.id) {a b : Addr} (ha : q.stage.cell = some a) (hb : p.stage.cell = some b) :
    a ≠ b := by
  have hheld : (heldCells s).Nodup := (List.nodup_append.mp h.apart).2.1
  let R : Pending → Pending → Prop := fun x y =>
    ∀ a, x.stage.cell = some a → ∀ b, y.stage.cell = some b → a ≠ b
  have hsymm : Std.Symm R := ⟨fun x y hxy a ha b hb hab => hxy b hb a ha hab.symm⟩
  have hpair : s.pending.Pairwise R := List.pairwise_filterMap.mp hheld
  have hqp : q ≠ p := fun heq => hne (congrArg Pending.id heq)
  exact hpair.forall hq hp hqp a ha b hb

/-- The calls of `s.pending` other than `p`, in a list where `p` has been replaced. -/
theorem TslInv.others (h : TslInv s l) {bs cs : List Pending} (hpending : s.pending = bs ++ p :: cs)
    (hq : q ∈ bs ++ cs) : q ∈ s.pending ∧ q.id ≠ p.id := by
  have hids := h.ids
  rw [hpending, List.map_append, List.map_cons] at hids
  obtain ⟨-, hcons, hdis⟩ := List.nodup_append.mp hids
  rw [hpending]
  rcases List.mem_append.mp hq with hq | hq
  · refine ⟨List.mem_append_left _ hq, ?_⟩
    exact hdis q.id (List.mem_map_of_mem hq) p.id List.mem_cons_self
  · refine ⟨by simp [hq], fun hqp => ?_⟩
    exact (List.nodup_cons.mp hcons).1 (hqp ▸ List.mem_map_of_mem hq)

/-- **A call has had the mutex**: `t` is the state with the list changed, and the element that
the call holds has changed sides. -/
theorem TslInv.took {l' : List Addr} {e : Addr} {stage : Stage} (h : TslInv s l)
    (hp : s.pending[i]? = some p) (hrep : Represents t l') (hrw : Rewrites s t l e)
    (hcells : (l' ++ stage.cell.toList).Perm (l ++ p.stage.cell.toList))
    (hown : p.stage.cell = some e ∨ e ∈ l) (hcalled : .called p.id op ∈ s.log)
    (hun : Untaken s.log p.id) (hcontents : l'.filterMap s.itemAt =
      (op.apply (l.filterMap s.itemAt)).1)
    (hj : Justified (t.took i p.id op stage) ⟨p.id, stage⟩) :
    TslInv (t.took i p.id op stage) l' := by
  obtain ⟨bs, cs, hpending, hset, -⟩ := split_getElem? hp
  have hpmem : p ∈ s.pending := by
    rw [hpending]
    simp
  have hpending' : (t.took i p.id op stage).pending = bs ++ ⟨p.id, stage⟩ :: cs := by
    show t.pending.set i _ = _
    rw [hrw.pending, hset]
  have hlog : (t.took i p.id op stage).log = s.log ++ [.took p.id op] := by
    show t.log ++ _ = _
    rw [hrw.log]
  have hitem : (t.took i p.id op stage).itemAt = s.itemAt := funext hrw.item
  have hother : ∀ q ∈ (t.took i p.id op stage).pending,
      q = ⟨p.id, stage⟩ ∨ (q ∈ s.pending ∧ q.id ≠ p.id) := by
    intro q hq
    rw [hpending'] at hq
    rcases List.mem_append.mp hq with hq | hq
    · exact .inr (h.others hpending (List.mem_append_left _ hq))
    · rcases List.mem_cons.mp hq with hq | hq
      · exact .inl hq
      · exact .inr (h.others hpending (List.mem_append_right _ hq))
  refine ⟨hrep.frame rfl rfl rfl fun _ _ => rfl, ?_, ?_, ?_, ?_, ?_, ?_, ?_, ?_, ?_⟩
  · exact hrw.fault.trans h.sound
  · have hold : heldCells s = _ := heldCells_split p hpending
    have hnew : heldCells (t.took i p.id op stage) = _ := heldCells_split _ hpending'
    have hapart := h.apart
    rw [hold] at hapart
    rw [hnew]
    refine List.Perm.nodup ?_ hapart
    have hgather : ∀ a b c d : List Addr, (a ++ (b ++ (c ++ d))).Perm ((a ++ c) ++ (b ++ d)) := by
      intro a b c d
      rw [List.append_assoc]
      exact (List.perm_append_comm_assoc b c d).append_left a
    exact ((hgather _ _ _ _).trans ((hcells.symm.append_right _).trans (hgather _ _ _ _).symm))
  · rw [hitem, hlog, sequential_took, hcontents, h.contents]
  · rw [hpending', List.map_append, List.map_cons]
    have hids := h.ids
    rw [hpending, List.map_append, List.map_cons] at hids
    exact hids
  · intro q hq
    show q.id < t.calls
    rw [hrw.calls]
    rcases hother q hq with rfl | ⟨hq, -⟩
    · exact h.known p hpmem
    · exact h.known q hq
  · intro m hm
    show m.id < t.calls
    rw [hrw.calls]
    rw [hlog] at hm
    rcases List.mem_append.mp hm with hm | hm
    · exact h.bounded m hm
    · rw [List.mem_singleton.mp hm]
      exact h.known p hpmem
  · intro q hq
    rcases hother q hq with rfl | ⟨hq, hne⟩
    · exact hj
    · refine (h.justified q hq).frame (fun a ha => ?_) hlog fun op' hm => ?_
      · have hal := (h.held hq ha).1
        refine hrw.others a hal ?_
        rcases hown with hown | hown
        · exact h.held_ne hpmem hq hne ha hown
        · exact fun hae => hal (hae ▸ hown)
      · injection hm with hid
        exact hne hid.symm
  · intro q hq r hin
    rw [hlog] at hin
    rcases List.mem_append.mp hin with hin | hin
    · rcases hother q hq with rfl | ⟨hq, -⟩
      · exact h.running p hpmem r hin
      · exact h.running q hq r hin
    · cases List.mem_singleton.mp hin
  · rw [hlog]
    exact h.history.took hcalled hun

/-- **A call returns.**  Its element, if it has one, may be freed. -/
theorem TslInv.leave {mem : Addr → Option ListElement} (h : TslInv s l)
    (hp : s.pending[i]? = some p) (hmem : ∀ a, p.stage.cell ≠ some a → mem a = s.mem a)
    (hresult : (p.id, r) ∈ (sequential s.log).2) :
    TslInv { s with
      mem := mem, pending := s.pending.eraseIdx i, log := s.log ++ [.returned p.id r] } l := by
  obtain ⟨bs, cs, hpending, -, herase⟩ := split_getElem? hp
  have hpmem : p ∈ s.pending := by
    rw [hpending]
    simp
  have hother : ∀ q ∈ s.pending.eraseIdx i, q ∈ s.pending ∧ q.id ≠ p.id := by
    intro q hq
    rw [herase] at hq
    exact h.others hpending hq
  have hl : ∀ a ∈ l, mem a = s.mem a := fun a ha => hmem a fun hpa => (h.held hpmem hpa).1 ha
  have hsub : (s.pending.eraseIdx i).Sublist s.pending := List.eraseIdx_sublist _ _
  refine ⟨h.represents.frame rfl rfl rfl hl, h.sound, ?_, ?_, ?_, ?_, ?_, ?_, ?_, ?_⟩
  · exact h.apart.sublist ((hsub.filterMap _).append_left l)
  · show _ = (sequential (s.log ++ [.returned p.id r])).1
    rw [sequential_returned, ← h.contents]
    exact contents_congr hl
  · exact h.ids.sublist (hsub.map _)
  · exact fun q hq => h.known q (hother q hq).1
  · intro m hm
    rcases List.mem_append.mp hm with hm | hm
    · exact h.bounded m hm
    · rw [List.mem_singleton.mp hm]
      exact h.known p hpmem
  · intro q hq
    obtain ⟨hq, hne⟩ := hother q hq
    refine (h.justified q hq).frame (fun a ha => hmem a fun hpa => ?_) rfl fun op' hm => ?_
    · exact h.held_ne hpmem hq hne ha hpa rfl
    · cases hm
  · intro q hq r' hin
    obtain ⟨hq, hne⟩ := hother q hq
    rcases List.mem_append.mp hin with hin | hin
    · exact h.running q hq r' hin
    · have heq := List.mem_singleton.mp hin
      injection heq with hid
      exact hne hid
  · exact h.history.returned hresult fun r' hin => h.running p hpmem r' hin

/-! ## Runs -/

theorem tslInv_init : TslInv TsList.init [] := by
  refine ⟨⟨rfl, .nil, rfl, fun hl => absurd rfl hl, fun a ha => ?_⟩, rfl, .nil, rfl, .nil,
    fun q hq => ?_, fun m hm => ?_, fun q hq => ?_, fun q hq => ?_, .nil⟩
  · cases ha
  · cases hq
  · cases hm
  · cases hq
  · cases hq

/-- **A call under the mutex**: the list changes as its operation says. -/
theorem TslInv.enter (h : TslInv s l) (hp : s.pending[i]? = some p) (ht : s.enter i p = some t) :
    ∃ l', TslInv t l' := by
  have hpmem : p ∈ s.pending := List.mem_of_getElem? hp
  have hj := h.justified p hpmem
  unfold Justified at hj
  unfold TsList.enter at ht
  cases hst : p.stage with
  | append e =>
    simp only [hst] at hj ht
    obtain ⟨x, hx, hcalled, hun⟩ := hj
    have hitem : s.itemAt e = some x := by simp [TsList.itemAt, hx]
    have hcell : p.stage.cell = some e := by rw [hst]; rfl
    obtain ⟨hrep, hrw⟩ := h.represents.append (h.held hpmem hcell).1 hx
    simp only [hitem, Option.some.injEq] at ht
    subst ht
    refine ⟨l ++ [e], h.took hp hrep hrw ?_ (.inl hcell) hcalled hun ?_ ?_⟩
    · rw [hst]
      show (l ++ [e] ++ []).Perm (l ++ [e])
      rw [List.append_nil]
    · rw [List.filterMap_append]
      simp [Deque.Op.apply, hitem]
    · show _ ∈ (sequential (_ ++ [_])).2
      rw [sequential_took]
      exact List.mem_append_right _ (List.mem_singleton.mpr rfl)
  | prepend e =>
    simp only [hst] at hj ht
    obtain ⟨g, x, hx, hcalled, hun⟩ := hj
    have hitem : s.itemAt e = some x := by simp [TsList.itemAt, hx]
    have hcell : p.stage.cell = some e := by rw [hst]; rfl
    obtain ⟨hrep, hrw⟩ := h.represents.prepend (h.held hpmem hcell).1 hx
    simp only [hitem, Option.some.injEq] at ht
    subst ht
    refine ⟨e :: l, h.took hp hrep hrw ?_ (.inl hcell) hcalled hun ?_ ?_⟩
    · rw [hst]
      show (e :: l ++ []).Perm (l ++ [e])
      rw [List.append_nil]
      exact (List.perm_append_singleton e l).symm
    · simp [Deque.Op.apply, hitem]
    · show _ ∈ (sequential (_ ++ [_])).2
      rw [sequential_took]
      exact List.mem_append_right _ (List.mem_singleton.mpr rfl)
  | remove =>
    simp only [hst] at hj ht
    obtain ⟨hcalled, hun⟩ := hj
    split at ht
    · cases ht
    rename_i h0
    obtain ⟨e, l', rfl, hout, hrep, hmem, hrw⟩ := h.represents.remove h0
    obtain ⟨el, hel⟩ := Option.isSome_iff_exists.mp (h.represents.allocated e List.mem_cons_self)
    have hitem : s.itemAt e = some el.item := by simp [TsList.itemAt, hel]
    split at ht
    · rename_i heq
      rw [heq] at hout
      cases hout
    rename_i t' e' heq
    rw [heq] at hout hrep hmem hrw
    cases hout
    cases ht
    refine ⟨l', h.took hp hrep hrw ?_ (.inr List.mem_cons_self) hcalled hun ?_ ?_⟩
    · rw [hst]
      show (l' ++ [e]).Perm (e :: l' ++ [])
      rw [List.append_nil]
      exact List.perm_append_singleton e l'
    · simp [Deque.Op.apply, hitem]
    · refine ⟨el, ?_, ?_⟩
      · show t'.mem e = some el
        rw [show t'.mem = s.mem from hmem, hel]
      · show _ ∈ (sequential (t'.log ++ [_])).2
        rw [sequential_took]
        refine List.mem_append_right _ (List.mem_singleton.mpr ?_)
        rw [show t'.log = s.log from hrw.log, ← h.contents]
        simp [Deque.Op.apply, hitem]
  | inserted =>
    simp only [hst] at ht
    cases ht
  | removed e =>
    simp only [hst] at ht
    cases ht

/-- **One step of one thread.** -/
theorem TslInv.step {a : TslAct} (h : TslInv s l) (ht : s.next a = some t) :
    ∃ l', TslInv t l' := by
  have hsound : ¬ s.fault = true := by
    rw [h.sound]
    decide
  unfold TsList.next at ht
  rw [if_neg hsound] at ht
  have hold : ∀ id op, id = s.calls → .took id op ∉ s.log := fun id op hid hin =>
    Nat.lt_irrefl _ (hid ▸ h.bounded _ hin)
  have hun : ∀ op, Untaken (s.log ++ [.called s.calls op]) s.calls := fun op op' hin => by
    rcases List.mem_append.mp hin with hin | hin
    · exact hold _ op' rfl hin
    · cases List.mem_singleton.mp hin
  have hin : ∀ op, .called s.calls op ∈ s.log ++ [.called s.calls op] := fun op => by simp
  have hkeep : ∀ (e : Addr) (v : Option ListElement), s.mem e = none →
      ∀ a, (s.mem a).isSome → Function.update s.mem e v a = s.mem a := fun e v he a ha => by
    have hae : a ≠ e := fun hae => by
      rw [hae, he] at ha
      cases ha
    exact Function.update_of_ne hae _ _
  cases a with
  | append e x =>
    simp only at ht
    split at ht
    · rename_i he
      cases ht
      refine ⟨l, h.call (hkeep e _ he) (fun e' he' => ?_) ?_⟩
      · cases he'
        exact he
      · exact ⟨x, Function.update_self .., hin _, hun _⟩
    · cases ht
  | prepend e g x =>
    simp only at ht
    split at ht
    · rename_i he
      cases ht
      refine ⟨l, h.call (hkeep e _ he) (fun e' he' => ?_) ?_⟩
      · cases he'
        exact he
      · exact ⟨g, x, Function.update_self .., hin _, hun _⟩
    · cases ht
  | remove =>
    cases ht
    refine ⟨l, h.call (fun a _ => rfl) (fun e' he' => ?_) ?_⟩
    · cases he'
    · exact ⟨hin _, hun _⟩
  | enter i =>
    obtain ⟨p, hp, ht⟩ := Option.bind_eq_some_iff.mp ht
    exact h.enter hp ht
  | leave i =>
    obtain ⟨p, hp, ht⟩ := Option.bind_eq_some_iff.mp ht
    have hj := h.justified p (List.mem_of_getElem? hp)
    unfold Justified at hj
    unfold TsList.leave at ht
    cases hst : p.stage with
    | append e => simp only [hst] at ht; cases ht
    | prepend e => simp only [hst] at ht; cases ht
    | remove => simp only [hst] at ht; cases ht
    | inserted =>
      simp only [hst, Option.some.injEq] at hj ht
      subst ht
      exact ⟨l, h.leave hp (fun _ _ => rfl) hj⟩
    | removed e =>
      simp only [hst] at hj ht
      obtain ⟨el, hel, hres⟩ := hj
      simp only [hel, Option.some.injEq] at ht
      subst ht
      refine ⟨l, h.leave hp (fun a ha => ?_) hres⟩
      have hae : a ≠ e := fun hae => ha (by rw [hst, hae]; rfl)
      exact Function.update_of_ne hae _ _

theorem tslInv_of_reach {ok : TsList → TslAct → Prop} (h : tslSystem.Reach ok s) :
    ∃ l, TslInv s l := by
  refine h.invariant (I := fun s => ∃ l, TslInv s l) ⟨[], tslInv_init⟩ ?_
  rintro t a u ⟨l, hl⟩ - hn
  exact hl.step hn

end Threads

/-! ## What the list is -/

/-- `items` are the contents: `count` is their number, the elements hold them in order, and `tail`
is the last one, reached from `head` over the others. -/
structure Describes (s : TsList) (items : List Item) : Prop where
  elements : ∃ l, Represents s l ∧ l.length = items.length ∧ l.filterMap s.itemAt = items
  count : s.count.toNat = items.length
  last : s.count ≠ 0 → ∃ t, s.tail = some t ∧ linkOf s.mem t = none ∧
    Linked.steps (linkOf s.mem) s.head (s.count.toNat - 1) = some t
  stop : Linked.steps (linkOf s.mem) s.head s.count.toNat = none

section Contents

variable {s : TsList} {l : List Addr}

theorem Represents.describes (h : Represents s l) : Describes s (l.filterMap s.itemAt) := by
  have hlen : (l.filterMap s.itemAt).length = l.length := by
    have hsome : ∀ a ∈ l, (s.itemAt a).isSome := fun a ha => by
      rw [TsList.itemAt, Option.isSome_map]
      exact h.allocated a ha
    rw [List.length_filterMap_eq_countP, List.countP_eq_length]
    exact hsome
  refine ⟨⟨l, h, hlen.symm, rfl⟩, by rw [h.count, hlen], fun h0 => ?_, ?_⟩
  · have hl : l ≠ [] := fun hl => h0 (h.count_eq_zero.mpr hl)
    obtain ⟨l', b, rfl⟩ := (List.eq_nil_or_concat' l).resolve_left hl
    refine ⟨b, by rw [h.tail hl]; simp, h.linked.last, ?_⟩
    rw [h.count, h.linked.steps _ (Nat.sub_le _ _)]
    simp
  · rw [h.count, h.linked.steps _ (Nat.le_refl _)]
    simp

/-- **The list is a linearizable deque.**  In every run no bad pointer is followed, the calls take
effect one after the other, the contents are what the operations make of an empty sequence, no item
is lost or removed twice, and a call that holds the mutex goes on unless it removes from an empty
list. -/
theorem tsl_linearizable (h : tslSystem.Reach (fun _ _ => True) s) :
    s.fault = false ∧ Linearized s.log ∧ Describes s (sequential s.log).1 ∧
      (Deque.inserted (taken s.log)).Perm
        (Deque.removed (sequential s.log).2 ++ (sequential s.log).1) ∧
      ∀ i p, s.pending[i]? = some p →
        ((s.next (.enter i)).isSome ∨ (s.next (.leave i)).isSome ↔
          ¬ (p.stage = .remove ∧ s.count = 0)) := by
  obtain ⟨l, hl⟩ := tslInv_of_reach h
  refine ⟨hl.sound, hl.history, ?_, Deque.run_conserves _, fun i p hp => ?_⟩
  · rw [← hl.contents]
    exact hl.represents.describes
  · have hj := hl.justified p (List.mem_of_getElem? hp)
    unfold Justified at hj
    unfold TsList.next
    rw [hl.sound]
    simp only [Bool.false_eq_true, if_false, hp, Option.bind_some]
    unfold TsList.enter TsList.leave
    cases hst : p.stage with
    | append e =>
      rw [hst] at hj
      obtain ⟨x, hx, -⟩ := hj
      simp [TsList.itemAt, hx]
    | prepend e =>
      rw [hst] at hj
      obtain ⟨g, x, hx, -⟩ := hj
      simp [TsList.itemAt, hx]
    | remove =>
      by_cases h0 : s.count = 0
      · simp [h0]
      · simp only [h0, if_false]
        split <;> simp
    | inserted => simp
    | removed e =>
      rw [hst] at hj
      obtain ⟨el, hel, -⟩ := hj
      simp [hel]

end Contents

/-- Two insertions that overlap, and a removal between them; the element that it frees is used
again. -/
def overlappingCalls : List TslAct :=
  [.append 7 ⟨1, 2, 3⟩, .prepend 8 (some 7) ⟨4, 5, 6⟩, .remove, .enter 1, .enter 2, .leave 2,
    .append 8 ⟨7, 8, 9⟩, .enter 0, .leave 0]

theorem tsl_linearizable_overlappingCalls :
    ∃ s, tslSystem.Reach (fun _ _ => True) s ∧
      s.log.getLast? = some (.returned 0 none) ∧ s.count = 1 ∧ s.head = some 7 ∧
      Describes s (sequential s.log).1 := by
  obtain ⟨s, hr, hp⟩ := System.Reach.of_run tslSystem (fun _ _ => True) (fun _ _ => true)
    overlappingCalls
    (fun s => decide (s.log.getLast? = some (.returned 0 none) ∧ s.count = 1 ∧ s.head = some 7))
    (fun _ _ _ => trivial) (by decide +kernel) (by decide +kernel)
  obtain ⟨hlog, hcount, hhead⟩ := of_decide_eq_true hp
  exact ⟨s, hr, hlog, hcount, hhead, (tsl_linearizable hr).2.2.1⟩

end Hwdb.Rpc
