import Hwdb.Dpi.Packet

/-!
# The key of a flow (`dpilogger.c`, `get_osdpi_flow`)

Both directions of a conversation are to share one key: the endpoints are put in the order of
their addresses.

* `flowKey` — the key of a packet.
* `flowText_inj` — equal keys come from equal protocols, addresses and ports in that order.
* `flowKey_eq_iff` — two packets have the same key exactly if they belong to the same
  conversation, unless the two addresses are equal and the ports are not: then the order of the
  ports follows the direction of the packet.
-/

set_option autoImplicit false

namespace Hwdb.Dpi

open Hwdb.Lib

/-- `"%s:%05d-%s:%05d-TCP"` and `"%s:%05d-%s:%05d-UDP"`. -/
def flowFormat (lowerIp : Text) (p : Nat) (upperIp : Text) (q : Nat) (proto : Text) : Text :=
  lowerIp ++ ':' :: (decimal5 p ++ '-' :: (upperIp ++ ':' :: (decimal5 q ++ '-' :: proto)))

/-- What `snprintf` is asked to print.  Other protocols are not accepted by
`extract_headers`. -/
def flowText (hdr : PacketHeader) : Text :=
  let lowerIp := if hdr.saddr < hdr.daddr then inetNtoa hdr.saddr else inetNtoa hdr.daddr
  let upperIp := if hdr.saddr < hdr.daddr then inetNtoa hdr.daddr else inetNtoa hdr.saddr
  if hdr.protocol = 6 then
    if hdr.saddr < hdr.daddr then
      flowFormat lowerIp hdr.source upperIp hdr.dest ['T', 'C', 'P']
    else flowFormat lowerIp hdr.dest upperIp hdr.source ['T', 'C', 'P']
  else if hdr.protocol = 17 then
    if hdr.saddr < hdr.daddr then
      flowFormat lowerIp hdr.source upperIp hdr.dest ['U', 'D', 'P']
    else flowFormat lowerIp hdr.dest upperIp hdr.source ['U', 'D', 'P']
  else []

/-- Size of the buffer behind `flow_key`. -/
def FLOW_KEY_SIZE : Nat := 50

/-- `flow_key`: `snprintf` leaves room for the terminator. -/
def flowKey (hdr : PacketHeader) : Text := (flowText hdr).take (FLOW_KEY_SIZE - 1)

/-! ## What a key says -/

/-- The parts of a key, in the order of the text. -/
structure FlowParts where
  protocol : Nat
  lowerIp : Nat
  lowerPort : Nat
  upperIp : Nat
  upperPort : Nat
  deriving DecidableEq, Repr

/-- The parts that `get_osdpi_flow` puts into the key. -/
def flowParts (hdr : PacketHeader) : FlowParts :=
  if hdr.saddr < hdr.daddr then
    ⟨hdr.protocol, hdr.saddr, hdr.source, hdr.daddr, hdr.dest⟩
  else ⟨hdr.protocol, hdr.daddr, hdr.dest, hdr.saddr, hdr.source⟩

def protoText (protocol : Nat) : Text :=
  if protocol = 6 then ['T', 'C', 'P'] else ['U', 'D', 'P']

section Keys

variable {a b : PacketHeader}

theorem flowText_eq (h : a.protocol = 6 ∨ a.protocol = 17) :
    flowText a = flowFormat (inetNtoa (flowParts a).lowerIp) (flowParts a).lowerPort
      (inetNtoa (flowParts a).upperIp) (flowParts a).upperPort
      (protoText (flowParts a).protocol) := by
  unfold flowText flowParts protoText
  rcases h with h | h <;> by_cases hlt : a.saddr < a.daddr <;> simp [h, hlt]

theorem length_flowFormat (lo up proto : Text) (p q : Nat) :
    (flowFormat lo p up q proto).length = lo.length + up.length + proto.length + 14 := by
  simp only [flowFormat, List.length_append, List.length_cons, length_decimal5]
  omega

/-- **The key fits its buffer.** -/
theorem length_flowText_lt (h : a.protocol = 6 ∨ a.protocol = 17) :
    (flowText a).length < FLOW_KEY_SIZE := by
  have hsum : ∀ x y z : Nat, x ≤ 15 → y ≤ 15 → z = 3 → x + y + z + 14 < FLOW_KEY_SIZE := by
    unfold FLOW_KEY_SIZE
    omega
  have hproto : ∀ p, (protoText p).length = 3 := fun p => by
    unfold protoText
    split <;> rfl
  rw [flowText_eq h, length_flowFormat]
  exact hsum _ _ _ (length_inetNtoa_le _) (length_inetNtoa_le _) (hproto _)

theorem flowKey_eq_flowText (h : a.protocol = 6 ∨ a.protocol = 17) :
    flowKey a = flowText a :=
  List.take_of_length_le (Nat.le_sub_one_of_lt (length_flowText_lt h))

/-- The addresses and ports of a packet are 32 and 16 bits wide. -/
theorem flowParts_bounds (a : PacketHeader) :
    (flowParts a).lowerIp < 4294967296 ∧ (flowParts a).upperIp < 4294967296 ∧
      (flowParts a).lowerPort < 100000 ∧ (flowParts a).upperPort < 100000 := by
  have hs : a.saddr < 4294967296 := word32At_lt _ _
  have hd : a.daddr < 4294967296 := word32At_lt _ _
  have hp : a.source < 65536 := ntohsAt_lt _ _
  have hq : a.dest < 65536 := ntohsAt_lt _ _
  unfold flowParts
  split
  · exact ⟨hs, hd, Nat.lt_trans hp (by decide), Nat.lt_trans hq (by decide)⟩
  · exact ⟨hd, hs, Nat.lt_trans hq (by decide), Nat.lt_trans hp (by decide)⟩

theorem protoText_inj {p q : Nat} (hp : p = 6 ∨ p = 17) (hq : q = 6 ∨ q = 17)
    (h : protoText p = protoText q) : p = q := by
  rcases hp with rfl | rfl <;> rcases hq with rfl | rfl <;> first
    | rfl
    | exact absurd h (by decide)

/-- **Equal keys come from equal parts.** -/
theorem flowText_inj (ha : a.protocol = 6 ∨ a.protocol = 17)
    (hb : b.protocol = 6 ∨ b.protocol = 17) (h : flowText a = flowText b) :
    flowParts a = flowParts b := by
  have hcolon : ∀ n, ':' ∉ inetNtoa n := not_mem_inetNtoa (.inr (by decide)) (by decide)
  have hdash : ∀ n, '-' ∉ decimal5 n := fun n => by
    have hne : ∀ k, '-' ≠ digit k := fun k => (digit_ne (.inl (by decide)) k).symm
    simp [decimal5, hne]
  have hproto : ∀ c : PacketHeader, (flowParts c).protocol = c.protocol := fun c => by
    unfold flowParts
    split <;> rfl
  obtain ⟨la, ua, pa, qa⟩ := flowParts_bounds a
  obtain ⟨lb, ub, pb, qb⟩ := flowParts_bounds b
  rw [flowText_eq ha, flowText_eq hb] at h
  obtain ⟨h1, h⟩ := append_sep_inj (hcolon _) (hcolon _) h
  obtain ⟨h2, h⟩ := append_sep_inj (hdash _) (hdash _) h
  obtain ⟨h3, h⟩ := append_sep_inj (hcolon _) (hcolon _) h
  obtain ⟨h4, h5⟩ := append_sep_inj (hdash _) (hdash _) h
  have h1 := inetNtoa_inj la lb h1
  have h2 := decimal5_inj pa pb h2
  have h3 := inetNtoa_inj ua ub h3
  have h4 := decimal5_inj qa qb h4
  have h5 : (flowParts a).protocol = (flowParts b).protocol := by
    refine protoText_inj ?_ ?_ h5
    · rw [hproto]
      exact ha
    · rw [hproto]
      exact hb
  cases hfa : flowParts a
  cases hfb : flowParts b
  simp only [hfa, hfb] at h1 h2 h3 h4 h5
  rw [h1, h2, h3, h4, h5]

end Keys

/-! ## Conversations -/

/-- Two packets of one conversation: the same protocol and the same unordered pair of
(address, port) pairs. -/
def SameConversation (a b : PacketHeader) : Prop :=
  a.protocol = b.protocol ∧
    ((a.saddr = b.saddr ∧ a.source = b.source ∧ a.daddr = b.daddr ∧ a.dest = b.dest) ∨
      (a.saddr = b.daddr ∧ a.source = b.dest ∧ a.daddr = b.saddr ∧ a.dest = b.source))

/-- Opposite directions of a conversation of an address with itself on two ports. -/
def Crossed (a b : PacketHeader) : Prop :=
  a.protocol = b.protocol ∧ a.saddr = a.daddr ∧ b.saddr = a.saddr ∧ b.daddr = a.daddr ∧
    a.source = b.dest ∧ a.dest = b.source ∧ a.source ≠ a.dest

instance (a b : PacketHeader) : Decidable (SameConversation a b) :=
  inferInstanceAs (Decidable (_ ∧ _))

instance (a b : PacketHeader) : Decidable (Crossed a b) :=
  inferInstanceAs (Decidable (_ ∧ _))

theorem flowParts_eq_iff (a b : PacketHeader) :
    flowParts a = flowParts b ↔ SameConversation a b ∧ ¬ Crossed a b := by
  unfold flowParts SameConversation Crossed
  split <;> split <;> simp only [FlowParts.mk.injEq] <;> omega

/-- **A key identifies a conversation exactly outside `Crossed`**, and fits its buffer. -/
theorem flowKey_eq_iff {d e : Bytes} {a b : PacketHeader} (ha : extractHeaders d = some a)
    (hb : extractHeaders e = some b) :
    ((flowKey a = flowKey b ↔ SameConversation a b) ↔ ¬ Crossed a b) ∧
      flowKey a = flowText a ∧ (flowText a).length < FLOW_KEY_SIZE := by
  have hpa := (extractHeaders_some ha).2.2.1
  have hpb := (extractHeaders_some hb).2.2.1
  have hkey : flowKey a = flowKey b ↔ flowParts a = flowParts b := by
    rw [flowKey_eq_flowText hpa, flowKey_eq_flowText hpb]
    refine ⟨flowText_inj hpa hpb, fun h => ?_⟩
    rw [flowText_eq hpa, flowText_eq hpb, h]
  have hsame : Crossed a b → SameConversation a b := by
    unfold Crossed SameConversation
    omega
  refine ⟨?_, flowKey_eq_flowText hpa, length_flowText_lt hpa⟩
  rw [hkey, flowParts_eq_iff]
  constructor
  · intro h hc
    exact (h.mpr (hsame hc)).2 hc
  · intro hc
    exact ⟨fun h => h.1, fun h => ⟨h, hc⟩⟩

/-! ## A host that talks to itself -/

/-- A UDP datagram from port `p` to port `q` between 10.0.0.`x` and 10.0.0.`y`. -/
def udpPacket (x p y q : UInt8) : Bytes :=
  List.replicate 12 0 ++ [8, 0] ++
    [69, 0, 0, 28, 0, 0, 0, 0, 64, 17, 0, 0, 10, 0, 0, x, 10, 0, 0, y] ++
    [0, p, 0, q, 0, 8, 0, 0]

/-- The headers of that datagram. -/
def udpHeader (x p y q : UInt8) : PacketHeader := ⟨udpPacket x p y q, 14, none, some 34⟩

theorem flowKey_eq_iff_reply :
    ((flowKey (udpHeader 1 5 2 6) = flowKey (udpHeader 2 6 1 5) ↔
        SameConversation (udpHeader 1 5 2 6) (udpHeader 2 6 1 5)) ↔
      ¬ Crossed (udpHeader 1 5 2 6) (udpHeader 2 6 1 5)) ∧
      flowKey (udpHeader 1 5 2 6) = flowText (udpHeader 1 5 2 6) ∧
      (flowText (udpHeader 1 5 2 6)).length < FLOW_KEY_SIZE :=
  flowKey_eq_iff (d := udpPacket 1 5 2 6) (e := udpPacket 2 6 1 5) (by decide) (by decide)

/-- A packet of 10.0.0.1 to itself and the answer to it are in different flows. -/
theorem loopback_directions_differ :
    extractHeaders (udpPacket 1 5 1 6) = some (udpHeader 1 5 1 6) ∧
      extractHeaders (udpPacket 1 6 1 5) = some (udpHeader 1 6 1 5) ∧
      SameConversation (udpHeader 1 5 1 6) (udpHeader 1 6 1 5) ∧
      flowKey (udpHeader 1 5 1 6) ≠ flowKey (udpHeader 1 6 1 5) := by
  refine ⟨by decide, by decide, by decide, by decide⟩

end Hwdb.Dpi
