import Hwdb.Lib.Chains
import Hwdb.Rpc.Wire

/-!
# Endpoints and the connection table (`endpoint.c`, `ctable.c`)

A record is looked up by its endpoint: the `sockaddr_in` of the peer and the subport.

* `endpointEqual` — compares the address of its first argument with itself, as the source
  does, so that only the subports decide.
* `ctableLookup_eq_find` — what a lookup returns after any insertions and removals.
* `ctable_refines_map_iff` — the table is the finite map keyed by whole endpoints exactly as
  long as no newer record of another peer in the same bucket has the subport looked for; and
  the comparison agrees with the hash exactly on endpoints of one bucket.
-/

set_option autoImplicit false

namespace Hwdb.Rpc

open Hwdb.Lib

/-- `sizeof(struct sockaddr_in)`. -/
def ADDR_SIZE : Nat := 16

def CTABLE_SIZE : Nat := 31

/-- `RpcEndpoint`; the subport is an `unsigned long` in network order. -/
structure Endpoint where
  addr : Vector UInt8 ADDR_SIZE
  subport : Nat
  deriving DecidableEq, Repr

/-- `memeq(ss, tt, n)` on two blocks of the same size. -/
def memeq : Bytes → Bytes → Bool
  | s :: ss, t :: tt => if s ≠ t then false else memeq ss tt
  | _, _ => true

def endpointEqual (ep1 ep2 : Endpoint) : Bool :=
  if memeq ep1.addr.toList ep1.addr.toList then ep1.subport == ep2.subport else false

def SHIFT : Nat := 7

/-- One round of the loop of `endpoint_hash` on a 32-bit `unsigned`. -/
def hashByte (limit hash : Nat) (b : UInt8) : Nat :=
  (SHIFT * hash + b.toNat) % 4294967296 % limit

/-- `hash` after the loop. -/
def addrHash (ep : Endpoint) (limit : Nat) : Nat := ep.addr.toList.foldl (hashByte limit) 0

/-- `endpoint_hash`; the subport makes the last sum an `unsigned long`. -/
def endpointHash (ep : Endpoint) (limit : Nat) : Nat :=
  (SHIFT * addrHash ep limit + ep.subport) % 18446744073709551616 % limit

/-- The chain an endpoint belongs to. -/
def ctableBucket (ep : Endpoint) : Fin CTABLE_SIZE :=
  ⟨endpointHash ep CTABLE_SIZE, Nat.mod_lt _ (by decide)⟩

/-- `ctable`: the bucket listheads and the chains of record pointers behind them. -/
abbrev CTable (ρ : Type) := Chains.Table CTABLE_SIZE ρ

section Operations

variable {ρ : Type} [DecidableEq ρ] (ep : ρ → Endpoint)

def ctableInit : CTable ρ := Chains.empty

def ctableInsert (t : CTable ρ) (cr : ρ) : CTable ρ := Chains.insert ep ctableBucket t cr

def ctableLookup (t : CTable ρ) (k : Endpoint) : Option ρ :=
  Chains.lookup ep ctableBucket endpointEqual t k

def ctableRemove (t : CTable ρ) (cr : ρ) : CTable ρ := Chains.remove ep ctableBucket t cr

/-- The table after `ctable_init` and a sequence of insertions and removals. -/
def ctableAfter (ops : List (Chains.Op ρ)) : CTable ρ := Chains.after ep ctableBucket ops

/-- Every record is inserted while its endpoint is not in the table. -/
abbrev FreshInserts (ops : List (Chains.Op ρ)) : Prop := Chains.FreshFrom ep [] ops

/-- Looking `k` up yields the one live record with this endpoint, and nothing if there is
none. -/
def LooksUp (ops : List (Chains.Op ρ)) (k : Endpoint) : Prop :=
  ∀ r, ctableLookup ep (ctableAfter ep ops) k = some r ↔ r ∈ Chains.live ops ∧ ep r = k

/-- A record that a search for `k` cannot tell from the record of `k`: another peer's, in the
same bucket and with the same subport. -/
def Shadows (a k : Endpoint) : Prop :=
  a.addr ≠ k.addr ∧ a.subport = k.subport ∧ ctableBucket a = ctableBucket k

/-- A live record shadows `k` and no record of `k` was inserted after it. -/
def Shadowed (ops : List (Chains.Op ρ)) (k : Endpoint) : Prop :=
  ∃ newer r older, Chains.live ops = newer ++ r :: older ∧ Shadows (ep r) k ∧
    ∀ x ∈ newer, ep x ≠ k

end Operations

/-! ## What the comparison accepts -/

theorem memeq_self (b : Bytes) : memeq b b = true := by
  induction b with
  | nil => rfl
  | cons x b ih => simp [memeq, ih]

/-- Only the subports are compared. -/
theorem endpointEqual_iff (a b : Endpoint) : endpointEqual a b = true ↔ a.subport = b.subport := by
  simp [endpointEqual, memeq_self]

theorem ctableBucket_eq_iff (a b : Endpoint) :
    ctableBucket a = ctableBucket b ↔ endpointHash a CTABLE_SIZE = endpointHash b CTABLE_SIZE :=
  ⟨fun h => congrArg Fin.val h, fun h => Fin.ext h⟩

/-- Endpoints accepted as equal hash alike exactly when they share the bucket as well. -/
theorem endpointEqual_bucket_iff (a b : Endpoint) :
    (endpointEqual a b = true → endpointHash a CTABLE_SIZE = endpointHash b CTABLE_SIZE) ↔
      (a.subport ≠ b.subport ∨ ctableBucket a = ctableBucket b) := by
  rw [endpointEqual_iff, ← ctableBucket_eq_iff]
  exact imp_iff_not_or

/-! ## What a lookup returns -/

section Lookup

variable {ρ : Type} [DecidableEq ρ] {ep : ρ → Endpoint}

theorem ctableLookup_eq_find (ops : List (Chains.Op ρ)) (k : Endpoint) :
    ctableLookup ep (ctableAfter ep ops) k =
      (Chains.live ops).find? fun r =>
        decide (ctableBucket (ep r) = ctableBucket k) && endpointEqual k (ep r) :=
  Chains.lookup_eq_find (Chains.chain_eq_filter ops) k

theorem looksUp_iff_find (ops : List (Chains.Op ρ)) (hops : FreshInserts ep ops) (k : Endpoint) :
    LooksUp ep ops k ↔ ctableLookup ep (ctableAfter ep ops) k =
      (Chains.live ops).find? fun r => decide (ep r = k) := by
  have hmap : ∀ r, ((Chains.live ops).find? fun r => decide (ep r = k)) = some r ↔
      r ∈ Chains.live ops ∧ ep r = k :=
    Chains.find_key_iff (Chains.pairwise_of_freshFrom hops .nil) k
  constructor
  · intro h
    apply Option.ext
    intro r
    rw [h r, hmap r]
  · intro h r
    rw [h, hmap r]

/-- **The table is a map keyed by whole endpoints exactly where nothing is shadowed, and the
comparison agrees with the hash exactly on endpoints of one bucket.** -/
theorem ctable_refines_map_iff (ops : List (Chains.Op ρ)) (hops : FreshInserts ep ops) :
    (∀ k, LooksUp ep ops k ↔ ¬ Shadowed ep ops k) ∧
    ∀ a b, (endpointEqual a b = true → endpointHash a CTABLE_SIZE = endpointHash b CTABLE_SIZE) ↔
      (a.subport ≠ b.subport ∨ ctableBucket a = ctableBucket b) := by
  refine ⟨fun k => ?_, endpointEqual_bucket_iff⟩
  rw [looksUp_iff_find ops hops, ctableLookup_eq_find]
  have hnarrow : ∀ r, decide (ep r = k) = true →
      (decide (ctableBucket (ep r) = ctableBucket k) && endpointEqual k (ep r)) = true := by
    intro r hr
    rw [of_decide_eq_true hr]
    simp [endpointEqual_iff]
  rw [Chains.find_eq_find_iff hnarrow]
  constructor
  · rintro h ⟨newer, r, older, hl, ⟨haddr, hsub, hb⟩, hnewer⟩
    have hne : ep r ≠ k := fun he => haddr (by rw [he])
    obtain ⟨x, hx, hxk⟩ := h newer r older hl (by simp [hb, endpointEqual_iff, hsub])
      (by simp [hne])
    exact hnewer x hx (by simpa using hxk)
  · intro h newer r older hl hp hq
    simp only [Bool.and_eq_true, decide_eq_true_eq, endpointEqual_iff] at hp
    simp only [decide_eq_false_iff_not] at hq
    have haddr : (ep r).addr ≠ k.addr := by
      intro ha
      apply hq
      cases he : ep r
      cases k
      simp_all
    refine Decidable.by_contra fun hno => h ⟨newer, r, older, hl, ⟨haddr, hp.2.symm, hp.1⟩, ?_⟩
    intro x hx hxk
    exact hno ⟨x, hx, by simp [hxk]⟩

end Lookup

/-! ## Two peers with one subport -/

/-- 10.0.0.`host`, port 987, subport 65537 as a little-endian host stores it. -/
def peer (host : UInt8) : Endpoint :=
  ⟨#v[2, 0, 3, 219, 10, 0, 0, host, 0, 0, 0, 0, 0, 0, 0, 0], 16777472⟩

theorem ctable_refines_map_peers :
    (∀ k, LooksUp id [.insert (peer 1), .insert (peer 2)] k ↔
      ¬ Shadowed id [.insert (peer 1), .insert (peer 2)] k) ∧
    ∀ a b, (endpointEqual a b = true → endpointHash a CTABLE_SIZE = endpointHash b CTABLE_SIZE) ↔
      (a.subport ≠ b.subport ∨ ctableBucket a = ctableBucket b) :=
  ctable_refines_map_iff [.insert (peer 1), .insert (peer 2)] (by decide)

/-- The record of 10.0.0.1 is hidden by the one inserted later for 10.0.0.32. -/
theorem lookup_finds_other_peer :
    FreshInserts id [.insert (peer 1), .insert (peer 32)] ∧
    ¬ LooksUp id [.insert (peer 1), .insert (peer 32)] (peer 1) := by
  refine ⟨by decide, fun h => ?_⟩
  have hfound : ctableLookup id (ctableAfter id [.insert (peer 1), .insert (peer 32)]) (peer 1) =
      some (peer 32) := by decide
  exact absurd ((h (peer 32)).mp hfound).2 (by decide)

end Hwdb.Rpc
