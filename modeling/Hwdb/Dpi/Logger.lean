import Hwdb.Dpi.Accounting
import Hwdb.Dpi.Frame
import Hwdb.Dpi.Host

/-!
# One captured packet after the other (`dpilogger.c`, `process_packet`)

`process_packet` parses a packet, asks for the objects of its two hosts, accounts it to its flow and
hands it to the detection, unless it is a fragment.

* `Logger`, `processPacket` — the whole of `process_packet`; what OpenDPI does with a packet is
  outside, only which packets it is given is kept.
* `flows_processPackets`, `hosts_processPackets` — after a capture the flows and the hosts are
  those of the accepted packets, so that what is proved about them holds of the program.
* `fragment_is_accounted` — a fragment is accounted like any other packet, so it never leaves the
  table of flows as it was.
-/

set_option autoImplicit false

namespace Hwdb.Dpi

open Hwdb.Lib

/-- A packet as libpcap passes it on: where it lies, the bytes there and `struct pcap_pkthdr`. -/
structure Captured where
  packet : UInt64
  data : Bytes
  caplen : UInt32
  tvSec : Int64
  deriving DecidableEq, Repr

/-- What `ipoque_detection_process_packet` is called with: the flow record and the two hosts. -/
structure Detection where
  flow : Nat
  src : Nat
  dst : Nat
  deriving DecidableEq, Repr

/-- The state behind `process_packet`. -/
structure Logger where
  flows : Flows
  hosts : Hosts
  fragWarningUsed : Bool
  detected : List Detection

/-- `hdr.ip->frag_off & htons(0x1FFF)`. -/
def PacketHeader.fragOffset (hdr : PacketHeader) : Nat := ntohsAt hdr.data (hdr.ip + 6) % 8192

namespace Captured

variable (p : Captured)

/-- `extract_headers(&hdr, packet, pkthdr->caplen)`. -/
def headers : Option PacketHeader := extractHeadersLen p.data p.caplen.toInt32

/-- The call of `get_osdpi_flow`. -/
def arrival (hdr : PacketHeader) : Arrival where
  hdr := hdr
  ipsize := (p.caplen - UInt32.ofNat ETHER_HDR_LEN).toUInt16
  time := p.tvSec.toInt32.toUInt32

/-- `get_id(&hdr.ip->saddr)`. -/
def srcCall (hdr : PacketHeader) : HostCall := ⟨p.packet + UInt64.ofNat (hdr.ip + 12), hdr.saddr⟩

/-- `get_id(&hdr.ip->daddr)`. -/
def dstCall (hdr : PacketHeader) : HostCall := ⟨p.packet + UInt64.ofNat (hdr.ip + 16), hdr.daddr⟩

end Captured

namespace Logger

/-- The program after `init_cfg`. -/
def init : Logger := ⟨Flows.init, Hosts.init, false, []⟩

/-- `process_packet`. -/
def processPacket (hash : Text → Nat) (s : Logger) (p : Captured) : Logger :=
  match p.headers with
  | none => s
  | some hdr =>
    let (hosts, src) := s.hosts.getId hash (p.srcCall hdr)
    let (hosts, dst) := hosts.getId hash (p.dstCall hdr)
    let (flows, flow) := s.flows.getOsdpiFlow (p.arrival hdr)
    if hdr.fragOffset = 0 then
      { s with flows := flows, hosts := hosts, detected := s.detected ++ [⟨flow, src, dst⟩] }
    else { s with flows := flows, hosts := hosts, fragWarningUsed := true }

/-- A capture. -/
def processPackets (hash : Text → Nat) (s : Logger) (ps : List Captured) : Logger :=
  ps.foldl (processPacket hash) s

end Logger

/-! ## A capture as a whole -/

section Capture

variable {hash : Text → Nat} {s : Logger} {p : Captured} {hdr : PacketHeader}

/-- What an accepted packet does to the flows and the hosts, fragment or not. -/
theorem processPacket_some (h : p.headers = some hdr) :
    (s.processPacket hash p).flows = (s.flows.getOsdpiFlow (p.arrival hdr)).1 ∧
      (s.processPacket hash p).hosts =
        ((s.hosts.getId hash (p.srcCall hdr)).1.getId hash (p.dstCall hdr)).1 := by
  unfold Logger.processPacket
  simp only [h]
  split
  · exact ⟨rfl, rfl⟩
  · exact ⟨rfl, rfl⟩

theorem processPacket_none (h : p.headers = none) : s.processPacket hash p = s := by
  unfold Logger.processPacket
  simp only [h]

/-- The calls of `get_osdpi_flow` in a capture. -/
def arrivals (ps : List Captured) : List Arrival :=
  ps.filterMap fun p => p.headers.map p.arrival

/-- The calls of `get_id` in a capture. -/
def idCalls (ps : List Captured) : List HostCall :=
  ps.flatMap fun p => match p.headers with
    | none => []
    | some hdr => [p.srcCall hdr, p.dstCall hdr]

/-- **The flows after a capture** are those of its accepted packets. -/
theorem flows_processPackets (hash : Text → Nat) (ps : List Captured) :
    (Logger.init.processPackets hash ps).flows = runFlows (arrivals ps) := by
  induction ps using List.reverseRecOn with
  | nil => rfl
  | append_singleton ps p ih =>
    have hstep : Logger.init.processPackets hash (ps ++ [p]) =
        (Logger.init.processPackets hash ps).processPacket hash p := by
      simp [Logger.processPackets]
    rw [hstep]
    cases hp : p.headers with
    | none =>
      rw [processPacket_none hp, ih]
      simp [arrivals, hp]
    | some hdr =>
      rw [(processPacket_some hp).1, ih]
      simp [arrivals, hp, runFlows_snoc]

theorem run_append (s : Hosts) (as bs : List HostCall) :
    (s.run hash (as ++ bs)).1 = ((s.run hash as).1.run hash bs).1 := by
  induction as generalizing s with
  | nil => rfl
  | cons a as ih => exact ih _

/-- **The hosts after a capture** are those of its accepted packets. -/
theorem hosts_processPackets (hash : Text → Nat) (ps : List Captured) :
    (Logger.init.processPackets hash ps).hosts = (Hosts.init.run hash (idCalls ps)).1 := by
  induction ps using List.reverseRecOn with
  | nil => rfl
  | append_singleton ps p ih =>
    have hstep : Logger.init.processPackets hash (ps ++ [p]) =
        (Logger.init.processPackets hash ps).processPacket hash p := by
      simp [Logger.processPackets]
    have hcalls : idCalls (ps ++ [p]) = idCalls ps ++ idCalls [p] := by
      simp [idCalls]
    rw [hstep, hcalls, run_append]
    cases hp : p.headers with
    | none =>
      rw [processPacket_none hp, ih]
      simp [idCalls, hp, Hosts.run]
    | some hdr =>
      rw [(processPacket_some hp).2, ih]
      simp [idCalls, hp, Hosts.run]

end Capture

/-! ## Fragments -/

/-- No record is created, changed or evicted. -/
structure LeavesFlows (s t : Flows) : Prop where
  table : t.table = s.table
  records : ∀ e ∈ s.table, t.records e.2 = s.records e.2
  freed : t.freed = s.freed

section Fragment

variable {s : Flows}

/-- A clean-up touches no record, and the table only where it frees one. -/
theorem collect_frees (time : UInt32) (es : HiHandle) (s : Flows) :
    (es.foldl (Flows.collect time) s).records = s.records ∧
      s.freed.length ≤ (es.foldl (Flows.collect time) s).freed.length ∧
      ((es.foldl (Flows.collect time) s).freed.length = s.freed.length →
        (es.foldl (Flows.collect time) s).table = s.table) := by
  induction es generalizing s with
  | nil => exact ⟨rfl, Nat.le_refl _, fun _ => rfl⟩
  | cons e es ih =>
    rw [List.foldl_cons]
    obtain ⟨hrec, hle, htab⟩ := ih (Flows.collect time s e)
    cases hidle : s.idle time e.2 with
    | true =>
      have hstep : (Flows.collect time s e).records = s.records ∧
          (Flows.collect time s e).freed.length = s.freed.length + 1 := by
        simp [Flows.collect, hidle]
      refine ⟨hrec.trans hstep.1, by omega, fun h => ?_⟩
      omega
    | false =>
      have hstep : Flows.collect time s e = s := by simp [Flows.collect, hidle]
      rw [hstep] at hrec hle htab ⊢
      exact ⟨hrec, hle, htab⟩

/-- Where nothing has been freed before the lookup, nothing has changed. -/
theorem runTimer_frees (time : UInt32) (s : Flows) :
    (s.runTimer time).records = s.records ∧
      ((s.runTimer time).freed = s.freed → (s.runTimer time).table = s.table) := by
  obtain ⟨hrec, -, htab⟩ := collect_frees time s.table s
  unfold Flows.runTimer
  split
  · exact ⟨rfl, fun _ => rfl⟩
  split
  · exact ⟨hrec, fun h => htab (congrArg List.length h)⟩
  · exact ⟨rfl, fun _ => rfl⟩

/-- **Whatever is accounted shows**: the flow of the packet is new or has one packet more. -/
theorem getOsdpiFlow_shows (s : Flows) (a : Arrival) : ¬ LeavesFlows s (s.getOsdpiFlow a).1 := by
  intro h
  obtain ⟨htable, hrecords, hfreed⟩ := h
  obtain ⟨hrec, hquiet⟩ := runTimer_frees a.time s
  unfold Flows.getOsdpiFlow at htable hrecords hfreed
  cases hget : hiGetStr (s.runTimer a.time).table (flowKey a.hdr) with
  | some r =>
    simp only [Flows.account, hget] at htable hrecords hfreed
    have hmem : (flowKey a.hdr, r) ∈ s.table := htable ▸ hiGetStr_some hget
    have hpkt := congrArg OsdpiFlow.pktCount (hrecords _ hmem)
    dsimp only at hpkt
    rw [Function.update_self, hrec] at hpkt
    have hone : ∀ x : UInt32, x + 1 ≠ x := fun x hx => by
      have hx' := congrArg UInt32.toNat hx
      have hlt := x.toNat_lt
      rw [UInt32.toNat_add, UInt32.toNat_one] at hx'
      omega
    exact hone _ hpkt
  | none =>
    simp only [Flows.account, hget, hiInsertStr_fresh hget] at htable hfreed
    have hsame := hquiet hfreed
    rw [hsame] at htable
    exact List.cons_ne_self _ _ htable

/-- **No fragment is skipped without trace**, in any state of the logger. -/
theorem fragment_is_accounted (hash : Text → Nat) (s : Logger) (p : Captured) (hdr : PacketHeader)
    (h : p.headers = some hdr) (hfrag : hdr.fragOffset ≠ 0) :
    ¬ LeavesFlows s.flows (s.processPacket hash p).flows ∧
      (s.processPacket hash p).detected = s.detected := by
  refine ⟨?_, ?_⟩
  · rw [(processPacket_some h).1]
    exact getOsdpiFlow_shows s.flows (p.arrival hdr)
  · unfold Logger.processPacket
    simp only [h, if_neg hfrag]

end Fragment

/-- A UDP packet that is the second fragment of a datagram: its payload starts at byte 8. -/
def fragmentPacket : Captured where
  packet := 4096
  data := List.replicate 12 0 ++ [8, 0] ++
    [69, 0, 0, 28, 0, 0, 0, 1, 64, 17, 0, 0, 10, 0, 0, 1, 10, 0, 0, 2] ++ [1, 2, 3, 4, 5, 6, 7, 8]
  caplen := 42
  tvSec := 100

/-- The headers that `extract_headers` makes out in it. -/
def fragmentHeader : PacketHeader := ⟨fragmentPacket.data, 14, none, some 34⟩

theorem fragment_is_accounted_fragmentPacket :
    ¬ LeavesFlows Logger.init.flows
        (Logger.init.processPacket (fun _ => 0) fragmentPacket).flows ∧
      (Logger.init.processPacket (fun _ => 0) fragmentPacket).detected = Logger.init.detected :=
  fragment_is_accounted (fun _ => 0) Logger.init fragmentPacket fragmentHeader (by decide)
    (by decide)

/-- A fragment that arrives first creates a flow, from what it has in place of ports. -/
theorem fragment_creates_flow :
    ¬ ∀ (hash : Text → Nat) (s : Logger) (p : Captured) (hdr : PacketHeader),
      p.headers = some hdr → hdr.fragOffset ≠ 0 →
        LeavesFlows s.flows (s.processPacket hash p).flows := by
  intro h
  have hleaves := h (fun _ => 0) Logger.init fragmentPacket fragmentHeader (by decide) (by decide)
  have htable := hleaves.table
  have hheaders : fragmentPacket.headers = some fragmentHeader := by decide
  rw [(processPacket_some hheaders).1] at htable
  exact absurd htable (by decide)

end Hwdb.Dpi
