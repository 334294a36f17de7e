import Hwdb.Rpc.Process

/-!
# The echo of a connection's subport and sequence number

A peer answers with the subport and the sequence number that it finds in a header.  The subport
of `rpc_connect` is an `unsigned long` made from an `int`, the header field has 32 bits, and the
reader builds its endpoint from the field through `ntohl` and `htonl`.

* `readerEndpoint_eq` — the two conversions cancel: the endpoint has the raw word of the header.
* `subport_fits_iff` — which process identifiers give a subport that survives the header.
* `echoFound_iff` — an acknowledgement finds its record exactly for these and for sequence
  numbers below 2^32.
-/

set_option autoImplicit false

namespace Hwdb.Rpc

open Hwdb.Lib

/-! ## Byte order -/

/-- `htonl` on a little-endian host; the argument is converted to 32 bits. -/
def htonl (v : Nat) : Nat :=
  v % 256 * 16777216 + v / 256 % 256 * 65536 + v / 65536 % 256 * 256 + v / 16777216 % 256

/-- `ntohl`, the same exchange of bytes. -/
def ntohl (v : Nat) : Nat := htonl v

theorem htonl_ntohl {v : Nat} (h : v < 4294967296) : htonl (ntohl v) = v := by
  have swap : ∀ a b c d : Nat, a < 256 → b < 256 → c < 256 → d < 256 →
      htonl (a * 16777216 + b * 65536 + c * 256 + d) =
        d * 16777216 + c * 65536 + b * 256 + a := by
    intro a b c d ha hb hc hd
    unfold htonl
    omega
  have hmod : ∀ x : Nat, x % 256 < 256 := fun x => Nat.mod_lt _ (by decide)
  rw [ntohl, show htonl v = v % 256 * 16777216 + v / 256 % 256 * 65536 + v / 65536 % 256 * 256 +
    v / 16777216 % 256 from rfl, swap _ _ _ _ (hmod _) (hmod _) (hmod _) (hmod _)]
  omega

/-- `endpoint_complete`. -/
def endpointComplete (addr : Vector UInt8 ADDR_SIZE) (subport : Nat) : Endpoint :=
  ⟨addr, htonl subport⟩

/-- `sb = ntohl(dp->hdr.subport)` and `endpoint_complete(&ep, &c_addr, sb)` in `reader`. -/
def readerEndpoint (addr : Vector UInt8 ADDR_SIZE) (d : Received) : Endpoint :=
  endpointComplete addr (ntohl d.subport)

theorem Received.subport_lt (d : Received) : d.subport < 4294967296 := by
  have h0 := d.byte_lt 0
  have h1 := d.byte_lt 1
  have h2 := d.byte_lt 2
  have h3 := d.byte_lt 3
  unfold Received.subport
  omega

/-- **The reader's endpoint has the raw word of the header.** -/
theorem readerEndpoint_eq (addr : Vector UInt8 ADDR_SIZE) (d : Received) :
    readerEndpoint addr d = ⟨addr, d.subport⟩ := by
  rw [readerEndpoint, endpointComplete, htonl_ntohl d.subport_lt]

/-! ## Which subports survive the header -/

theorem signExtend_fits_iff {v : Nat} (h : v < 4294967296) :
    (if v < 2147483648 then v else v + 18446744069414584320) % 4294967296 =
      (if v < 2147483648 then v else v + 18446744069414584320) ↔ v < 2147483648 := by
  split <;> omega

theorem subport_fits_iff (pid ctr : Nat) :
    (Process.ctableNewSubport pid ctr).2 % 4294967296 = (Process.ctableNewSubport pid ctr).2 ↔
      pid % 65536 < 32768 := by
  have hctr : (if 32767 < ctr + 1 then 1 else ctr + 1) < 32768 := by split <;> omega
  have hpid : pid % 65536 < 65536 := Nat.mod_lt _ (by decide)
  have harith : ∀ p c : Nat, p < 65536 → c < 32768 →
      p * 65536 + c < 4294967296 ∧ (p * 65536 + c < 2147483648 ↔ p < 32768) := by omega
  obtain ⟨hlt, hiff⟩ := harith _ _ hpid hctr
  exact (signExtend_fits_iff hlt).trans hiff

/-! ## Echoes -/

/-- The acknowledgement that a peer builds from a datagram `d` with `cp_complete`, as the first
process receives it. -/
def echo (d : Received) (ack : Command) (fnum nfrags : Nat) (stale : Bytes) : Received :=
  ⟨ackPayload d ack fnum nfrags, stale⟩

/-- A datagram of record `r`: its subport, its sequence number and anything else. -/
def datagramOf (s : Process) (r : Nat) (cmd : Command) (fnum nfrags : Nat) (rest stale : Bytes) :
    Received :=
  ⟨message (cpComplete (s.endpoints r).subport cmd (s.records r).seqno fnum nfrags) rest, stale⟩

/-- An acknowledgement from `addr` is for record `r`: hash and comparison identify the endpoint
with the record's, the lookup returns the record and the number is the record's. -/
def AppliedTo (s : Process) (r : Nat) (addr : Vector UInt8 ADDR_SIZE) (a : Received) : Prop :=
  endpointHash (readerEndpoint addr a) CTABLE_SIZE = endpointHash (s.endpoints r) CTABLE_SIZE ∧
    endpointEqual (readerEndpoint addr a) (s.endpoints r) = true ∧
    s.lookup (readerEndpoint addr a) = some r ∧ a.seqno = (s.records r).seqno

/-- Every echo of every datagram of the connection that `rpc_connect` makes is for its record. -/
def EchoFound (pid : Nat) (s : Process) (addr : Vector UInt8 ADDR_SIZE) (svcName : Bytes)
    (seqno : Nat) : Prop :=
  let s' := s.rpcConnect pid (some addr) svcName seqno
  ∀ (cmd ack : Command) (fnum nfrags afnum anfrags : Nat) (rest stale stale' : Bytes),
    AppliedTo s' s.fresh addr
      (echo (datagramOf s' s.fresh cmd fnum nfrags rest stale) ack afnum anfrags stale')

section Echo

variable {s : Process} {r : Nat} {addr : Vector UInt8 ADDR_SIZE}

theorem echo_subport (d : Received) (ack : Command) (fnum nfrags : Nat) (stale : Bytes) :
    (echo d ack fnum nfrags stale).subport = d.subport := by
  rw [echo, ackPayload, received_subport]
  exact Nat.mod_eq_of_lt d.subport_lt

theorem echo_seqno (d : Received) (ack : Command) (fnum nfrags : Nat) (stale : Bytes) :
    (echo d ack fnum nfrags stale).seqno = d.seqno := by
  rw [echo, ackPayload, received_seqno]
  exact Nat.mod_eq_of_lt d.seqno_lt

/-- What `rpc_connect` leaves behind: a record under a new number at the head of its chain. -/
theorem rpcConnect_record (pid : Nat) (s : Process) (addr : Vector UInt8 ADDR_SIZE)
    (svcName : Bytes) (seqno : Nat) :
    let s' := s.rpcConnect pid (some addr) svcName seqno
    s'.endpoints s.fresh = ⟨addr, (Process.ctableNewSubport pid s.ctr).2⟩ ∧
      (s'.records s.fresh).seqno = seqno ∧ s'.lookup (s'.endpoints s.fresh) = some s.fresh := by
  have hep : (s.rpcConnect pid (some addr) svcName seqno).endpoints s.fresh =
      ⟨addr, (Process.ctableNewSubport pid s.ctr).2⟩ := Function.update_self ..
  refine ⟨hep, ?_, ?_⟩
  · simp [Process.rpcConnect, Process.allocate, rpcConnectBegin, crecordCreate]
  · exact Chains.lookup_insert_self ((endpointEqual_iff _ _).mpr rfl)

/-- An echo is for the record if and only if subport and number survive the header. -/
theorem appliedTo_echo_iff (hep : (s.endpoints r).addr = addr)
    (hlook : s.lookup (s.endpoints r) = some r) (cmd ack : Command)
    (fnum nfrags afnum anfrags : Nat) (rest stale stale' : Bytes) :
    AppliedTo s r addr (echo (datagramOf s r cmd fnum nfrags rest stale) ack afnum anfrags stale') ↔
      (s.endpoints r).subport % 4294967296 = (s.endpoints r).subport ∧
        (s.records r).seqno < 4294967296 := by
  have hsub : (datagramOf s r cmd fnum nfrags rest stale).subport =
      (s.endpoints r).subport % 4294967296 := received_subport ..
  have hseq : (datagramOf s r cmd fnum nfrags rest stale).seqno =
      (s.records r).seqno % 4294967296 := received_seqno ..
  rw [AppliedTo, readerEndpoint_eq, echo_subport, echo_seqno, hsub, hseq, endpointEqual_iff]
  constructor
  · rintro ⟨-, heq, -, hn⟩
    exact ⟨heq, by omega⟩
  · rintro ⟨heq, hn⟩
    have hself : (⟨addr, (s.endpoints r).subport % 4294967296⟩ : Endpoint) = s.endpoints r := by
      rw [heq, ← hep]
    rw [hself]
    exact ⟨rfl, rfl, hlook, Nat.mod_eq_of_lt hn⟩

/-- **A peer's echo finds its connection** exactly for process identifiers whose low half is
below 2^15 and sequence numbers below 2^32. -/
theorem echoFound_iff (pid : Nat) (s : Process) (addr : Vector UInt8 ADDR_SIZE) (svcName : Bytes)
    (seqno : Nat) :
    EchoFound pid s addr svcName seqno ↔ pid % 65536 < 32768 ∧ seqno < 4294967296 := by
  obtain ⟨hep, hseq, hlook⟩ := rpcConnect_record pid s addr svcName seqno
  have hiff := appliedTo_echo_iff (congrArg Endpoint.addr hep) hlook
  rw [hseq, hep, subport_fits_iff] at hiff
  constructor
  · exact fun h => (hiff .connect .cack 1 1 1 1 [] [] []).mp (h ..)
  · exact fun h _ _ _ _ _ _ _ _ _ => (hiff ..).mpr h

end Echo

/-- The first connection of the process with identifier 32768: its CACK finds no record. -/
theorem high_pid_echo_lost :
    ¬ EchoFound 32768 Process.init (Vector.replicate ADDR_SIZE 0) [] 0 := by
  intro h
  have hsub := (h .connect .cack 1 1 1 1 [] [] []).2.1
  rw [readerEndpoint_eq, echo_subport, endpointEqual_iff] at hsub
  exact absurd hsub (by decide +kernel)

end Hwdb.Rpc
