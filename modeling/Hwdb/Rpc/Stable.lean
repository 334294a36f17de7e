import Mathlib.Algebra.Order.Ring.Int
import Mathlib.Data.List.Induction
import Mathlib.Logic.Function.Basic
import Mathlib.Tactic.Ring
import Hwdb.Lib.Chains
import Hwdb.Rpc.Process

/-!
# The service table (`stable.c`)

Thirteen chains of records, indexed by the hash of the name.

* `STable`, `stableLookup`, `stableCreate` — the table and its two operations.
* `hash_toInt` — the hash of a name in closed form.
* `RefinesMap` — the table answers like a map from names to the records created for them.
* `stable_refines_map_iff` — which names it does so for.
* `lookup_eq_stable` — for these it is the list of names that `Process` has in its place.
-/

set_option autoImplicit false

namespace Hwdb.Rpc

open Hwdb.Lib

/-- `SRecord`, by its address; `s_queue` is created with the record and belongs to it. -/
structure SRecord where
  addr : Nat
  sName : ServiceName
  deriving DecidableEq

/-- `stable`, and the next free address. -/
structure STable where
  chains : Chains.Table 13 SRecord
  fresh : Nat

/-- `stable_init`. -/
def stableInit : STable := ⟨Chains.empty, 0⟩

/-- `stable_lookup`; the outer `none` is an access outside of `stable`. -/
def stableLookup (t : STable) (name : ServiceName) : Option (Option SRecord) :=
  (stableIndex name).map fun hv => (t.chains hv).find? fun r => decide (r.sName = name)

/-- The second critical section of `stable_create`, for a record made from `name`. -/
def stablePush (t : STable) (r : SRecord) : Option STable :=
  (stableIndex r.sName).map fun hv =>
    { t with chains := Function.update t.chains hv (r :: t.chains hv) }

/-- `stable_create`, with every allocation successful. -/
def stableCreate (t : STable) (name : ServiceName) : Option (Option SRecord × STable) :=
  match stableLookup t name with
  | none => none
  | some (some _) => some (none, t)
  | some none =>
    (stablePush { t with fresh := t.fresh + 1 } ⟨t.fresh, name⟩).map fun t' =>
      (some ⟨t.fresh, name⟩, t')

/-! ## The hash in closed form -/

/-- A byte as a `signed char`. -/
def signedChar (b : UInt8) : Int := if b.toNat < 128 then b.toNat else b.toNat - 256

/-- The number with the `signed char`s of the name as its digits in base 7. -/
def charValue : Bytes → Int
  | [] => 0
  | b :: s => signedChar b * 7 ^ s.length + charValue s

/-- That number as an `int` is not negative, or a multiple of 13. -/
def HashFits (name : ServiceName) : Prop :=
  0 ≤ (charValue name.chars).bmod (2 ^ 32) ∨ (13 : Int) ∣ (charValue name.chars).bmod (2 ^ 32)

instance (name : ServiceName) : Decidable (HashFits name) := by
  unfold HashFits
  exact inferInstance

section Hash

variable {name : ServiceName} {s : Bytes}

theorem toInt_char (b : UInt8) : b.toInt8.toInt32.toInt = signedChar b := by
  have hlt : b.toNat < 256 := b.toNat_lt
  have hint : b.toInt8.toInt32.toInt = (b.toNat : Int).bmod 256 := by
    rw [Int8.toInt_toInt32]
    exact b.toBitVec.toInt_eq_toNat_bmod
  rw [hint, signedChar, Int.bmod_def]
  split_ifs <;> omega

/-- **The loop computes the value modulo 2^32.** -/
theorem hashLoop_toInt (ans : Int32) (s : Bytes) :
    (hashLoop ans s).toInt = (ans.toInt * 7 ^ s.length + charValue s).bmod (2 ^ 32) := by
  induction s generalizing ans with
  | nil =>
    show ans.toInt = (ans.toInt * 7 ^ 0 + 0).bmod 4294967296
    rw [pow_zero, Int.mul_one, Int.add_zero, Int32.toInt_bmod]
  | cons b s ih =>
    have hstep : (STABLE_SHIFT * ans + b.toInt8.toInt32).toInt =
        (7 * ans.toInt + signedChar b).bmod (2 ^ 32) := by
      rw [Int32.toInt_add, Int32.toInt_mul, toInt_char, Int.bmod_add_bmod]
      rfl
    show (hashLoop (STABLE_SHIFT * ans + b.toInt8.toInt32) s).toInt = _
    rw [ih, hstep, charValue, List.length_cons]
    have hring : ans.toInt * 7 ^ (s.length + 1) + (signedChar b * 7 ^ s.length + charValue s) =
        (7 * ans.toInt + signedChar b) * 7 ^ s.length + charValue s := by ring
    rw [hring, ← Int.bmod_add_bmod, Int.bmod_mul_bmod, Int.bmod_add_bmod]

/-- The hash: C's remainder of the value, with the sign of the value. -/
theorem hash_toInt (name : ServiceName) :
    (hash name).toInt = ((charValue name.chars).bmod (2 ^ 32)).tmod 13 := by
  have hloop := hashLoop_toInt 0 name.chars
  rw [hash, Int32.toInt_mod, hloop]
  show ((0 * 7 ^ name.chars.length + charValue name.chars).bmod (2 ^ 32)).tmod 13 = _
  rw [Int.zero_mul, Int.zero_add]

/-- **The names whose hash is an index.** -/
theorem hash_bounds_iff (name : ServiceName) :
    (0 ≤ (hash name).toInt ∧ (hash name).toInt < 13) ↔ HashFits name := by
  rw [hash_toInt, HashFits]
  generalize (charValue name.chars).bmod (2 ^ 32) = v
  constructor
  · rintro ⟨hpos, -⟩
    rcases Int.lt_or_le v 0 with hneg | hle
    · right
      have hle : (-v).tmod 13 = -(v.tmod 13) := Int.neg_tmod v 13
      have hnn : 0 ≤ (-v).tmod 13 := Int.tmod_nonneg _ (by omega)
      exact Int.dvd_of_tmod_eq_zero (by omega)
    · exact .inl hle
  · rintro (hpos | hdvd)
    · exact ⟨Int.tmod_nonneg _ hpos, Int.tmod_lt_of_pos v (by decide)⟩
    · rw [Int.tmod_eq_zero_of_dvd hdvd]
      decide

theorem stableIndex_isSome : (stableIndex name).isSome ↔ HashFits name := by
  rw [← hash_bounds_iff, stableIndex]
  split_ifs with h
  · simp [h]
  · simp [h]

/-- Up to nine characters of ASCII are always right. -/
theorem hashFits_of_ascii (hascii : ∀ b ∈ name.chars, b.toNat < 128)
    (hlen : name.chars.length ≤ 9) : HashFits name := by
  have hbound : ∀ s : Bytes, (∀ b ∈ s, b.toNat < 128) →
      0 ≤ charValue s ∧ charValue s ≤ 22 * 7 ^ s.length - 22 := by
    intro s hs
    induction s with
    | nil => exact ⟨Int.le_refl 0, by decide⟩
    | cons b s ih =>
      obtain ⟨hlo, hhi⟩ := ih fun c hc => hs c (List.mem_cons_of_mem b hc)
      have hb : b.toNat < 128 := hs b List.mem_cons_self
      have hpos : (0 : Int) < 7 ^ s.length := Int.pow_pos (by decide)
      have hmul : signedChar b * 7 ^ s.length ≤ 127 * 7 ^ s.length :=
        Int.mul_le_mul_of_nonneg_right (by rw [signedChar, if_pos hb]; omega) (by omega)
      have hnn : 0 ≤ signedChar b * 7 ^ s.length :=
        Int.mul_nonneg (by rw [signedChar, if_pos hb]; omega) (by omega)
      rw [charValue, List.length_cons, pow_succ]
      omega
  obtain ⟨hlo, hhi⟩ := hbound name.chars hascii
  have hpow : (7 : Int) ^ name.chars.length ≤ 7 ^ 9 :=
    pow_le_pow_right₀ (by decide) hlen
  left
  rw [Int.bmod_eq_of_le (by omega) (by omega)]
  exact hlo

end Hash

/-! ## Sequences of calls -/

inductive StableCall where
  | create (name : ServiceName)
  | lookup (name : ServiceName)
  deriving DecidableEq

def StableCall.name : StableCall → ServiceName
  | create name => name
  | lookup name => name

/-- One call and what it returns. -/
def STable.call (t : STable) : StableCall → Option (Option SRecord × STable)
  | .create name => stableCreate t name
  | .lookup name => (stableLookup t name).map fun r => (r, t)

/-- A call with its answer. -/
structure StableAnswer where
  call : StableCall
  answer : Option SRecord

/-- One more call. -/
def stableStep (s : STable × List StableAnswer) (call : StableCall) :
    Option (STable × List StableAnswer) :=
  (s.1.call call).map fun out => (out.2, s.2 ++ [⟨call, out.1⟩])

/-- The calls one after the other, from the empty table. -/
def stableRun (calls : List StableCall) : Option (STable × List StableAnswer) :=
  calls.foldlM stableStep (stableInit, [])

/-- What a call that returned a record created for `name`. -/
def StableAnswer.createdFor (name : ServiceName) (a : StableAnswer) : Option SRecord :=
  match a.call with
  | .create n => if n = name then a.answer else none
  | .lookup _ => none

/-- The map that the table stands for: the record created for a name, if there is one. -/
def created (hist : List StableAnswer) (name : ServiceName) : Option SRecord :=
  hist.findSome? (·.createdFor name)

/-- The answer to one call, and the table after it. -/
def Conforms (m : ServiceName → Option SRecord) (t t' : STable) (answer : Option SRecord) :
    StableCall → Prop
  | .lookup name => answer = m name ∧ t' = t
  | .create name => (answer = none ↔ (m name).isSome) ∧ (answer = none → t' = t) ∧
      ∀ r, answer = some r → r.sName = name ∧ ∀ n, m n ≠ some r

/-- **The table refines a map**: every index lies in the array, and each call is answered as by
the map of the records created before it. -/
structure RefinesMap (calls : List StableCall) : Prop where
  indexed : ∀ call ∈ calls, 0 ≤ (hash call.name).toInt ∧ (hash call.name).toInt < 13
  answered : ∀ pre call post, calls = pre ++ call :: post → ∃ t hist answer t',
    stableRun pre = some (t, hist) ∧ t.call call = some (answer, t') ∧
      Conforms (created hist) t t' answer call

/-- The name that a call has added to the table. -/
def StableAnswer.offer (a : StableAnswer) : Option Bytes :=
  match a.call, a.answer with
  | .create name, some _ => some name.chars
  | _, _ => none

/-- The names in the table, the oldest first. -/
def offered (hist : List StableAnswer) : List Bytes := hist.filterMap (·.offer)

/-- What the calls so far have made of the table: a chain has the record created for a name, and
its address is the position of the name. -/
structure TableHolds (t : STable) (hist : List StableAnswer) : Prop where
  found : ∀ name hv, stableIndex name = some hv →
    (t.chains hv).find? (fun r => decide (r.sName = name)) = created hist name
  numbered : ∀ name, created hist name =
    ((offered hist).idxOf? name.chars).map fun i => ⟨i, name⟩
  fresh : t.fresh = (offered hist).length

section Calls

variable {t t' : STable} {hist : List StableAnswer} {call : StableCall} {name : ServiceName}
  {answer : Option SRecord}

theorem stableRun_snoc (pre : List StableCall) (call : StableCall) :
    stableRun (pre ++ [call]) = (stableRun pre).bind fun s => stableStep s call := by
  rw [stableRun, List.foldlM_append]
  show ((stableRun pre).bind fun s => List.foldlM stableStep s [call]) = _
  congr 1
  funext s
  cases hs : stableStep s call <;> simp [hs]

theorem created_snoc (hist : List StableAnswer) (a : StableAnswer) (name : ServiceName) :
    created (hist ++ [a]) name = (created hist name).or (a.createdFor name) := by
  rw [created, List.findSome?_append, List.findSome?_cons, List.findSome?_nil, created]
  cases a.createdFor name <;> rfl

theorem created_create (hist : List StableAnswer) (n name : ServiceName) (r : SRecord) :
    created (hist ++ [⟨.create n, some r⟩]) name =
      (created hist name).or (if n = name then some r else none) :=
  created_snoc hist _ name

/-- A call that created nothing. -/
theorem created_idle {a : StableAnswer} (ha : ∀ name, a.createdFor name = none)
    (hist : List StableAnswer) (name : ServiceName) :
    created (hist ++ [a]) name = created hist name := by
  rw [created_snoc, ha, Option.or_none]

theorem holds_init : TableHolds stableInit [] :=
  ⟨fun _ _ _ => rfl, fun _ => rfl, rfl⟩

theorem TableHolds.idle (h : TableHolds t hist) {a : StableAnswer}
    (ha : ∀ name, a.createdFor name = none) (ho : a.offer = none) : TableHolds t (hist ++ [a]) := by
  have hoffered : offered (hist ++ [a]) = offered hist := by
    rw [offered, List.filterMap_append, List.filterMap_cons, ho, List.filterMap_nil,
      List.append_nil, offered]
  refine ⟨fun name hv hhv => ?_, fun name => ?_, by rw [hoffered, h.fresh]⟩
  · rw [created_idle ha]
    exact h.found name hv hhv
  · rw [created_idle ha, hoffered]
    exact h.numbered name

/-- A record is older than the next free address. -/
theorem TableHolds.older (h : TableHolds t hist) {r : SRecord} (hr : created hist name = some r) :
    r.addr < t.fresh := by
  rw [h.numbered, Option.map_eq_some_iff] at hr
  obtain ⟨i, hi, rfl⟩ := hr
  obtain ⟨hlt, -⟩ := List.idxOf?_eq_some_iff.mp hi
  rw [h.fresh]
  exact hlt

theorem idxOf?_snoc (l : List Bytes) (a x : Bytes) :
    (l ++ [a]).idxOf? x = (l.idxOf? x).or (if a = x then some l.length else none) := by
  unfold List.idxOf?
  rw [List.findIdx?_append]
  by_cases hax : a = x <;> simp [hax]

theorem ServiceName.ext_iff {a b : ServiceName} : a.chars = b.chars ↔ a = b := by
  cases a
  cases b
  simp

/-- Pushing the record of a name that the table does not have. -/
theorem TableHolds.push (h : TableHolds t hist) {hv : Fin 13} (hhv : stableIndex name = some hv)
    (hnew : created hist name = none) :
    TableHolds ⟨Function.update t.chains hv (⟨t.fresh, name⟩ :: t.chains hv), t.fresh + 1⟩
      (hist ++ [⟨.create name, some ⟨t.fresh, name⟩⟩]) := by
  have hoffered : offered (hist ++ [⟨.create name, some ⟨t.fresh, name⟩⟩]) =
      offered hist ++ [name.chars] := List.filterMap_append
  refine ⟨fun n hn hin => ?_, fun n => ?_, ?_⟩
  · show (Function.update t.chains hv (⟨t.fresh, name⟩ :: t.chains hv) hn).find? _ = _
    rw [created_create]
    by_cases heq : name = n
    · subst heq
      rw [hhv] at hin
      cases hin
      rw [if_pos rfl, hnew, Function.update_self]
      simp
    · rw [if_neg heq, Option.or_none, ← h.found n hn hin]
      by_cases hch : hn = hv
      · subst hch
        rw [Function.update_self]
        simp [heq]
      · rw [Function.update_of_ne hch]
  · rw [created_create, hoffered, idxOf?_snoc, h.numbered n, h.fresh]
    by_cases heq : name = n
    · subst heq
      cases (offered hist).idxOf? name.chars <;> simp
    · have hne : ¬ name.chars = n.chars := fun hc => heq (ServiceName.ext_iff.mp hc)
      rw [if_neg heq, if_neg hne, Option.or_none, Option.or_none]
  · show t.fresh + 1 = _
    rw [hoffered, List.length_append, h.fresh]
    rfl

/-- **One call.**  In a name that fits, the table answers like the map, and stands for the map
after the call. -/
theorem TableHolds.answers (h : TableHolds t hist) (hfits : HashFits call.name) : ∃ answer t',
    t.call call = some (answer, t') ∧ Conforms (created hist) t t' answer call ∧
      TableHolds t' (hist ++ [⟨call, answer⟩]) := by
  obtain ⟨hv, hhv⟩ := Option.isSome_iff_exists.mp (stableIndex_isSome.mpr hfits)
  have hfound := h.found call.name hv hhv
  have hlookup : stableLookup t call.name = some (created hist call.name) := by
    rw [stableLookup, hhv, Option.map_some, hfound]
  cases call with
  | lookup name =>
    refine ⟨created hist name, t, ?_, ⟨rfl, rfl⟩, h.idle (fun _ => rfl) rfl⟩
    show (stableLookup t name).map _ = _
    rw [show stableLookup t name = some (created hist name) from hlookup]
    rfl
  | create name =>
    have hlookup : stableLookup t name = some (created hist name) := hlookup
    show ∃ answer t', stableCreate t name = some (answer, t') ∧ _
    cases hold : created hist name with
    | some r =>
      refine ⟨none, t, ?_, ⟨by simp [hold], fun _ => rfl, fun _ hr => (by cases hr)⟩,
        h.idle (fun n => ?_) rfl⟩
      · rw [stableCreate, hlookup, hold]
      · show (if name = n then none else none) = none
        exact ite_self _
    | none =>
      refine ⟨some ⟨t.fresh, name⟩, _, ?_, ⟨by simp [hold], fun hr => (by cases hr), ?_⟩,
        h.push hhv hold⟩
      · rw [stableCreate, hlookup, hold]
        show (stablePush _ _).map _ = _
        rw [stablePush, show stableIndex name = some hv from hhv]
        rfl
      · rintro r hr
        cases hr
        refine ⟨rfl, fun n hn => ?_⟩
        exact Nat.lt_irrefl _ (h.older hn)

/-- A run over names that fit. -/
theorem holds_of_run (calls : List StableCall) (hfits : ∀ call ∈ calls, HashFits call.name) :
    ∃ t hist, stableRun calls = some (t, hist) ∧ TableHolds t hist := by
  induction calls using List.reverseRecOn with
  | nil => exact ⟨stableInit, [], rfl, holds_init⟩
  | append_singleton pre call ih =>
    obtain ⟨t, hist, hrun, h⟩ := ih fun c hc => hfits c (List.mem_append_left _ hc)
    obtain ⟨answer, t', hcall, -, h'⟩ :=
      h.answers (hfits call (List.mem_append_right _ List.mem_cons_self))
    refine ⟨t', hist ++ [⟨call, answer⟩], ?_, h'⟩
    rw [stableRun_snoc, hrun, Option.bind_some, stableStep, hcall]
    rfl

/-- **The service table refines a map exactly for the names that fit.** -/
theorem stable_refines_map_iff (calls : List StableCall) :
    RefinesMap calls ↔ ∀ call ∈ calls, HashFits call.name := by
  constructor
  · intro h call hcall
    exact (hash_bounds_iff call.name).mp (h.indexed call hcall)
  · intro hfits
    refine ⟨fun call hcall => (hash_bounds_iff call.name).mpr (hfits call hcall), ?_⟩
    rintro pre call post rfl
    obtain ⟨t, hist, hrun, h⟩ := holds_of_run pre fun c hc =>
      hfits c (List.mem_append_left _ hc)
    obtain ⟨answer, t', hcall, hconf, -⟩ :=
      h.answers (hfits call (List.mem_append_right _ List.mem_cons_self))
    exact ⟨t, hist, answer, t', hrun, hcall, hconf⟩

/-- **The list of names of `Process`** is what the table is for the names that fit. -/
theorem lookup_eq_stable (calls : List StableCall) (hfits : ∀ call ∈ calls, HashFits call.name)
    (hname : HashFits name) : ∃ t hist, stableRun calls = some (t, hist) ∧
      ∀ s : Process, s.services = offered hist →
        stableLookup t name = some ((s.stable name.chars).map fun i => ⟨i, name⟩) := by
  obtain ⟨t, hist, hrun, h⟩ := holds_of_run calls hfits
  refine ⟨t, hist, hrun, fun s hs => ?_⟩
  obtain ⟨hv, hhv⟩ := Option.isSome_iff_exists.mp (stableIndex_isSome.mpr hname)
  rw [stableLookup, hhv, Option.map_some, h.found name hv hhv, h.numbered, Process.stable, hs]

end Calls

/-- `"EchoService"`. -/
def echoService : ServiceName where
  chars := [69, 99, 104, 111, 83, 101, 114, 118, 105, 99, 101]
  terminated := by simp

/-- Its hash is -7. -/
theorem echoService_out_of_bounds : ¬ ∀ calls, RefinesMap calls := by
  intro h
  have hindex := (h [.lookup echoService]).indexed (.lookup echoService) List.mem_cons_self
  exact absurd hindex (by decide)

end Hwdb.Rpc
