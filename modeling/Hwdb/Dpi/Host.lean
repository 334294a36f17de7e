import Hwdb.Lib.Chains
import Hwdb.Dpi.Flow

/-!
# Host objects (`dpilogger.c`, `get_id`)

`process_packet` asks `get_id` for an object for each of the two addresses of a packet.
`get_id` is given a pointer to the address bytes and prints the pointer; the table of libhashish
keeps the key pointer it is given, and that is the array `str_ip` on the stack of `get_id`.  Both
calls are made from `process_packet`, so the array is at one place in every call and every key in
the table reads as what was printed last.

* `getId` — `get_id` over a table of chains whose keys are pointers.
* `hiGetStr_eq_head?` — hence a lookup returns whatever is first in its bucket.
* `Owns`, `getId_owns` — the object of a bucket, fixed by the first call that falls into it.
* `hostIdentity_iff` — objects identify addresses exactly when the buckets of the printed
  pointers do.
-/

set_option autoImplicit false

namespace Hwdb.Dpi

open Hwdb.Lib

/-- The size that `init_cfg` asks `hi_init_str` for. -/
def TABLE_SIZE : Nat := 93563

/-- `struct osdpi_id`; objects of OpenDPI are numbered in the order of their allocation. -/
structure OsdpiId where
  ip : Nat
  ipoqueId : Nat
  deriving DecidableEq, Repr

/-- What a key pointer of the table of hosts can point to. -/
inductive KeyPtr where
  | strIp
  deriving DecidableEq, Repr

/-- `hi_bucket_obj_t`. -/
structure BucketObj where
  key : KeyPtr
  data : OsdpiId
  deriving DecidableEq, Repr

/-- `hi_handle_ip`, the array `str_ip` and the number of the next object. -/
structure Hosts where
  table : Chains.Table TABLE_SIZE BucketObj
  strIp : Text
  fresh : Nat

/-- A call of `get_id`: the pointer and the address that it points to. -/
structure HostCall where
  ip : UInt64
  addr : Nat
  deriving DecidableEq, Repr

namespace Hosts

variable (hash : Text → Nat) (s : Hosts)

def init : Hosts := ⟨Chains.empty, [], 0⟩

/-- The text behind a key pointer. -/
def deref : KeyPtr → Text
  | .strIp => s.strIp

/-- `hash_func(key, keylen) % table_size`. -/
def bucket (key : Text) : Fin TABLE_SIZE := ⟨hash key % TABLE_SIZE, Nat.mod_lt _ (by decide)⟩

/-- `hi_get_str`. -/
def hiGetStr (key : KeyPtr) : Option OsdpiId :=
  (Chains.lookup (fun o => s.deref o.key) (bucket hash) (· == ·) s.table (s.deref key)).map
    (·.data)

/-- `hi_insert_str`; a key that is there already is refused. -/
def hiInsertStr (key : KeyPtr) (data : OsdpiId) : Hosts :=
  if (s.hiGetStr hash key).isSome then s
  else { s with
    table := Chains.insert (fun o => s.deref o.key) (bucket hash) s.table ⟨key, data⟩ }

/-- `addr.s_addr = ip` and `inet_ntoa`: the low half of the pointer, as an address. -/
def printed (ip : UInt64) : Text := inetNtoa ip.toUInt32.toNat

/-- `get_id`, with the object that it returns. -/
def getId (c : HostCall) : Hosts × Nat :=
  let s := { s with strIp := printed c.ip }
  match s.hiGetStr hash .strIp with
  | some data => (s, data.ipoqueId)
  | none => ({ s with fresh := s.fresh + 1 }.hiInsertStr hash .strIp ⟨c.addr, s.fresh⟩, s.fresh)

/-- Calls one after the other, each with the object it gets. -/
def run : Hosts → List HostCall → Hosts × List (HostCall × Nat)
  | s, [] => (s, [])
  | s, c :: calls =>
    let (s', id) := s.getId hash c
    let (t, served) := run s' calls
    (t, (c, id) :: served)

end Hosts

/-- A captured packet and where pcap put it. -/
structure Capture where
  packet : UInt64
  data : Bytes
  deriving DecidableEq, Repr

/-- The calls of `get_id` that `process_packet` makes. -/
def Capture.hostCalls (p : Capture) : List HostCall :=
  match extractHeaders p.data with
  | none => []
  | some hdr =>
    [⟨p.packet + UInt64.ofNat (hdr.ip + 12), hdr.saddr⟩,
      ⟨p.packet + UInt64.ofNat (hdr.ip + 16), hdr.daddr⟩]

/-- The calls of `get_id` in a capture. -/
def hostCalls (ps : List Capture) : List HostCall := ps.flatMap Capture.hostCalls

/-- Two calls get the same object exactly if their addresses are equal, and after the capture a
call that is made again still gets its object. -/
def HostIdentity (hash : Text → Nat) (ps : List Capture) : Prop :=
  let (t, served) := Hosts.init.run hash (hostCalls ps)
  (∀ e ∈ served, ∀ f ∈ served, e.2 = f.2 ↔ e.1.addr = f.1.addr) ∧
    ∀ e ∈ served, (t.getId hash e.1).2 = e.2

/-! ## The object of a bucket -/

section Owners

open Hosts

variable {hash : Text → Nat} {s : Hosts} {c : HostCall} {b b' : Fin TABLE_SIZE} {r r' : Nat}

/-- All keys are the one array. -/
theorem deref_eq (s : Hosts) (k : KeyPtr) : s.deref k = s.strIp := by
  cases k
  rfl

/-- **A lookup returns what is first in the bucket of the text in `str_ip`.** -/
theorem hiGetStr_eq_head? (s : Hosts) (k : KeyPtr) :
    s.hiGetStr hash k = ((s.table (bucket hash s.strIp)).head?).map (·.data) := by
  have hall : ∀ o ∈ s.table (bucket hash s.strIp), (s.strIp == s.deref o.key) = true :=
    fun o _ => by rw [deref_eq]; exact beq_self_eq_true _
  rw [Hosts.hiGetStr, deref_eq, Chains.lookup_eq_head? hall]

/-- Object `r` is the first of bucket `b`. -/
def Owns (s : Hosts) (b : Fin TABLE_SIZE) (r : Nat) : Prop :=
  ∃ o, (s.table b).head? = some o ∧ o.data.ipoqueId = r

/-- No object is first in two buckets and none has a number that is still to be given out. -/
structure Owners (s : Hosts) : Prop where
  unique : ∀ {b b' r}, Owns s b r → Owns s b' r → b = b'
  allocated : ∀ {b r}, Owns s b r → r < s.fresh

theorem Owns.eq (h : Owns s b r) (h' : Owns s b r') : r = r' := by
  obtain ⟨o, ho, rfl⟩ := h
  obtain ⟨o', ho', rfl⟩ := h'
  rw [ho] at ho'
  cases ho'
  rfl

theorem owners_init : Owners init :=
  ⟨fun h => (by obtain ⟨o, ho, -⟩ := h; cases ho), fun h => (by obtain ⟨o, ho, -⟩ := h; cases ho)⟩

/-- The bucket that a call looks into. -/
def bucketOf (hash : Text → Nat) (c : HostCall) : Fin TABLE_SIZE := bucket hash (printed c.ip)

/-- A call that finds its bucket taken changes no table. -/
theorem getId_found (h : Owns s (bucketOf hash c) r) :
    s.getId hash c = ({ s with strIp := printed c.ip }, r) := by
  obtain ⟨o, ho, rfl⟩ := h
  have hget : ({ s with strIp := printed c.ip } : Hosts).hiGetStr hash .strIp = some o.data := by
    rw [hiGetStr_eq_head?]
    exact congrArg (Option.map (·.data)) ho
  rw [getId]
  simp only [hget]

/-- `s` with a new object for `c` in an empty bucket. -/
def allocated (hash : Text → Nat) (s : Hosts) (c : HostCall) : Hosts where
  table := Function.update s.table (bucketOf hash c) [⟨.strIp, ⟨c.addr, s.fresh⟩⟩]
  strIp := printed c.ip
  fresh := s.fresh + 1

theorem getId_new (h : s.table (bucketOf hash c) = []) :
    s.getId hash c = (allocated hash s c, s.fresh) := by
  have hget : ({ s with strIp := printed c.ip } : Hosts).hiGetStr hash .strIp = none := by
    rw [hiGetStr_eq_head?]
    exact congrArg (fun l => Option.map (·.data) (List.head? l)) h
  have hget' : ({ s with strIp := printed c.ip, fresh := s.fresh + 1 } : Hosts).hiGetStr hash
      .strIp = none := hget
  rw [getId]
  simp only [hget, Hosts.hiInsertStr, hget', Option.isSome_none, Bool.false_eq_true, if_false,
    Chains.insert, deref_eq]
  simp only [bucketOf] at h
  rw [h]
  rfl

/-- **One call.**  It returns the object of its bucket, and an object keeps its bucket. -/
theorem getId_owns (hash : Text → Nat) (h : Owners s) (c : HostCall) :
    Owners (s.getId hash c).1 ∧ Owns (s.getId hash c).1 (bucketOf hash c) (s.getId hash c).2 ∧
      ∀ b r, Owns s b r → Owns (s.getId hash c).1 b r := by
  cases hc : s.table (bucketOf hash c) with
  | cons o l =>
    have hown : Owns s (bucketOf hash c) o.data.ipoqueId := ⟨o, by rw [hc]; rfl, rfl⟩
    rw [getId_found hown]
    exact ⟨⟨h.unique, h.allocated⟩, hown, fun b r hb => hb⟩
  | nil =>
    rw [getId_new hc]
    have hnew : ∀ b r, Owns (allocated hash s c) b r ↔
        (b = bucketOf hash c ∧ r = s.fresh) ∨ (b ≠ bucketOf hash c ∧ Owns s b r) := by
      intro b r
      by_cases hb : b = bucketOf hash c
      · subst hb
        simp [Owns, allocated, eq_comm]
      · simp [Owns, allocated, hb]
    refine ⟨⟨fun {b b' r} hb hb' => ?_, fun {b r} hb => ?_⟩, (hnew _ _).mpr (.inl ⟨rfl, rfl⟩),
      fun b r hb => (hnew b r).mpr (.inr ⟨?_, hb⟩)⟩
    · rcases (hnew b r).mp hb with ⟨rfl, rfl⟩ | ⟨-, hb⟩ <;>
        rcases (hnew b' _).mp hb' with ⟨rfl, hr⟩ | ⟨-, hb'⟩
      · rfl
      · exact absurd (h.allocated hb') (Nat.lt_irrefl _)
      · exact absurd (hr ▸ h.allocated hb) (Nat.lt_irrefl _)
      · exact h.unique hb hb'
    · rcases (hnew b r).mp hb with ⟨-, rfl⟩ | ⟨-, hb⟩
      · exact Nat.lt_succ_self _
      · exact Nat.lt_succ_of_lt (h.allocated hb)
    · rintro rfl
      obtain ⟨o, ho, -⟩ := hb
      rw [hc] at ho
      cases ho

/-- **Any calls.**  At the end every call's object is the one of its bucket. -/
theorem run_owns (hash : Text → Nat) (calls : List HostCall) (h : Owners s) :
    Owners (s.run hash calls).1 ∧ (s.run hash calls).2.map Prod.fst = calls ∧
      (∀ e ∈ (s.run hash calls).2, Owns (s.run hash calls).1 (bucketOf hash e.1) e.2) ∧
      ∀ b r, Owns s b r → Owns (s.run hash calls).1 b r := by
  induction calls generalizing s with
  | nil => exact ⟨h, rfl, fun _ he => (nomatch he), fun _ _ hb => hb⟩
  | cons c calls ih =>
    obtain ⟨hown, hc, hkeep⟩ := getId_owns hash h c
    obtain ⟨hown', hfst, hserved, hkeep'⟩ := ih hown
    refine ⟨hown', congrArg (c :: ·) hfst, fun e he => ?_, fun b r hb => hkeep' b r (hkeep b r hb)⟩
    rcases List.mem_cons.mp he with rfl | he
    · exact hkeep' _ _ hc
    · exact hserved e he

/-- What a capture is served. -/
abbrev served (hash : Text → Nat) (ps : List Capture) : List (HostCall × Nat) :=
  (init.run hash (hostCalls ps)).2

theorem mem_served (hash : Text → Nat) {ps : List Capture} (h : c ∈ hostCalls ps) :
    ∃ e ∈ served hash ps, e.1 = c := by
  rw [← (run_owns hash (hostCalls ps) owners_init).2.1] at h
  exact List.mem_map.mp h

/-- Two calls get one object exactly when they look into one bucket. -/
theorem served_eq_iff {ps : List Capture} {e f : HostCall × Nat} (he : e ∈ served hash ps)
    (hf : f ∈ served hash ps) : e.2 = f.2 ↔ bucketOf hash e.1 = bucketOf hash f.1 := by
  obtain ⟨hown, -, hserved, -⟩ := run_owns hash (hostCalls ps) owners_init
  constructor
  · intro heq
    exact hown.unique (hserved e he) (heq ▸ hserved f hf)
  · intro heq
    exact (hserved e he).eq (heq ▸ hserved f hf)

/-- **Objects identify addresses** exactly in captures where two printed pointers fall into the
same bucket if and only if the addresses behind them are equal. -/
theorem hostIdentity_iff (hash : Text → Nat) (ps : List Capture) :
    HostIdentity hash ps ↔ ∀ c ∈ hostCalls ps, ∀ d ∈ hostCalls ps,
      bucket hash (printed c.ip) = bucket hash (printed d.ip) ↔ c.addr = d.addr := by
  obtain ⟨-, hfst, hserved, -⟩ := run_owns hash (hostCalls ps) owners_init
  constructor
  · rintro ⟨hid, -⟩ c hc d hd
    obtain ⟨e, he, rfl⟩ := mem_served hash hc
    obtain ⟨f, hf, rfl⟩ := mem_served hash hd
    exact (served_eq_iff he hf).symm.trans (hid e he f hf)
  · intro h
    refine ⟨fun e he f hf => ?_, fun e he => ?_⟩
    · have hce : e.1 ∈ hostCalls ps := hfst ▸ List.mem_map_of_mem he
      have hcf : f.1 ∈ hostCalls ps := hfst ▸ List.mem_map_of_mem hf
      exact (served_eq_iff he hf).trans (h e.1 hce f.1 hcf)
    · rw [getId_found (hserved e he)]

end Owners

/-- Two packets, from 10.0.0.1 and from 10.0.0.3, that pcap puts into one buffer. -/
def reusedBuffer : List Capture := [⟨4096, udpPacket 1 5 2 6⟩, ⟨4096, udpPacket 3 5 2 6⟩]

/-- The two sources get one object, whatever the hash function. -/
theorem reused_buffer_one_host : ¬ ∃ hash : Text → Nat, HostIdentity hash reusedBuffer := by
  rintro ⟨hash, hid, -⟩
  have hcalls : ⟨4122, 16777226⟩ ∈ hostCalls reusedBuffer ∧
      ⟨4122, 50331658⟩ ∈ hostCalls reusedBuffer := by decide
  obtain ⟨e, he, hec⟩ := mem_served hash hcalls.1
  obtain ⟨f, hf, hfc⟩ := mem_served hash hcalls.2
  have hone : e.2 = f.2 := (served_eq_iff he hf).mpr (by rw [hec, hfc]; rfl)
  have haddr := (hid e he f hf).mp hone
  rw [hec, hfc] at haddr
  exact absurd haddr (by decide)

end Hwdb.Dpi
