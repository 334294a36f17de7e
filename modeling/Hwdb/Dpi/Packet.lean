import Hwdb.Lib.Text

/-!
# Captured packets (`dpilogger.c`)

* `extractHeaders` — `extract_headers`: where the headers of a captured packet lie.
* `inetNtoa` — the dotted text of an address, and that it determines the address.

A captured packet is a list of bytes; `PacketHeader` keeps the bytes with the offsets of the
`ip`, `tcp` and `udp` pointers.  A header that is not there is `none`; the source leaves its
pointer uninitialised and never follows it.
-/

set_option autoImplicit false

namespace Hwdb.Dpi

open Hwdb.Lib

abbrev Bytes := List UInt8

/-- The byte at offset `i`. -/
def byteAt (b : Bytes) (i : Nat) : Nat := (b.getD i 0).toNat

/-- `ntohs` of the 16-bit word at offset `i`. -/
def ntohsAt (b : Bytes) (i : Nat) : Nat := byteAt b i * 256 + byteAt b (i + 1)

/-- The 32-bit word at offset `i` as a little-endian host reads it. -/
def word32At (b : Bytes) (i : Nat) : Nat :=
  byteAt b i + byteAt b (i + 1) * 256 + byteAt b (i + 2) * 65536 + byteAt b (i + 3) * 16777216

def ETHER_HDR_LEN : Nat := 14

def ETHERTYPE_IP : Nat := 2048

/-- `sizeof(struct iphdr)`. -/
def IPHDR_SIZE : Nat := 20

/-- `sizeof(struct tcphdr)`. -/
def TCPHDR_SIZE : Nat := 20

/-- `sizeof(struct udphdr)`. -/
def UDPHDR_SIZE : Nat := 8

/-- `struct packet_header`: the packet and the offsets its pointers stand for. -/
structure PacketHeader where
  data : Bytes
  ip : Nat
  tcp : Option Nat
  udp : Option Nat
  deriving DecidableEq, Repr

namespace PacketHeader

variable (hdr : PacketHeader)

def ihl : Nat := byteAt hdr.data hdr.ip % 16

def protocol : Nat := byteAt hdr.data (hdr.ip + 9)

/-- `hdr->ip->saddr`, in network order. -/
def saddr : Nat := word32At hdr.data (hdr.ip + 12)

/-- `hdr->ip->daddr`, in network order. -/
def daddr : Nat := word32At hdr.data (hdr.ip + 16)

/-- The header that the ports are read from. -/
def transport : Nat := if hdr.protocol = 6 then hdr.tcp.getD 0 else hdr.udp.getD 0

/-- `ntohs(hdr->tcp->source)` or `ntohs(hdr->udp->source)`. -/
def source : Nat := ntohsAt hdr.data hdr.transport

/-- `ntohs(hdr->tcp->dest)` or `ntohs(hdr->udp->dest)`. -/
def dest : Nat := ntohsAt hdr.data (hdr.transport + 2)

end PacketHeader

/-- `extract_headers`; `none` when it returns 0. -/
def extractHeaders (data : Bytes) : Option PacketHeader :=
  if data.length < ETHER_HDR_LEN then none
  else if ntohsAt data 12 ≠ ETHERTYPE_IP then none
  else if data.length < ETHER_HDR_LEN + IPHDR_SIZE then none
  else
    let hdr : PacketHeader := ⟨data, ETHER_HDR_LEN, none, none⟩
    let ptr := ETHER_HDR_LEN + hdr.ihl * 4
    if data.length < ptr then none
    else if hdr.protocol = 6 then
      if data.length < ptr + TCPHDR_SIZE then none else some { hdr with tcp := some ptr }
    else if hdr.protocol = 17 then
      if data.length < ptr + UDPHDR_SIZE then none else some { hdr with udp := some ptr }
    else none

/-! ## What is read from a packet -/

theorem byteAt_lt (b : Bytes) (i : Nat) : byteAt b i < 256 := UInt8.toNat_lt _

theorem ntohsAt_lt (b : Bytes) (i : Nat) : ntohsAt b i < 65536 := by
  have h0 := byteAt_lt b i
  have h1 := byteAt_lt b (i + 1)
  unfold ntohsAt
  omega

theorem word32At_lt (b : Bytes) (i : Nat) : word32At b i < 4294967296 := by
  have h0 := byteAt_lt b i
  have h1 := byteAt_lt b (i + 1)
  have h2 := byteAt_lt b (i + 2)
  have h3 := byteAt_lt b (i + 3)
  unfold word32At
  omega

/-- An accepted packet is a TCP or a UDP packet, and what is read of it lies inside it. -/
theorem extractHeaders_some {data : Bytes} {hdr : PacketHeader}
    (h : extractHeaders data = some hdr) :
    hdr.data = data ∧ hdr.ip = ETHER_HDR_LEN ∧ (hdr.protocol = 6 ∨ hdr.protocol = 17) ∧
      hdr.ip + IPHDR_SIZE ≤ data.length ∧ hdr.transport + UDPHDR_SIZE ≤ data.length := by
  unfold extractHeaders at h
  split at h
  · cases h
  split at h
  · cases h
  split at h
  · cases h
  rename_i hlen
  dsimp only at h
  split at h
  · cases h
  split at h
  · rename_i hp
    split at h
    · cases h
    · rename_i htcp
      cases h
      have hp' : (⟨data, ETHER_HDR_LEN, some (ETHER_HDR_LEN +
          (⟨data, ETHER_HDR_LEN, none, none⟩ : PacketHeader).ihl * 4), none⟩ :
            PacketHeader).protocol = 6 := hp
      refine ⟨rfl, rfl, .inl hp', by simpa using hlen, ?_⟩
      rw [PacketHeader.transport, if_pos hp']
      simp only [Option.getD_some, UDPHDR_SIZE, TCPHDR_SIZE] at *
      omega
  · rename_i hne
    split at h
    · rename_i hp
      split at h
      · cases h
      · rename_i hudp
        cases h
        have hp' : (⟨data, ETHER_HDR_LEN, none, some (ETHER_HDR_LEN +
            (⟨data, ETHER_HDR_LEN, none, none⟩ : PacketHeader).ihl * 4)⟩ :
              PacketHeader).protocol = 17 := hp
        refine ⟨rfl, rfl, .inr hp', by simpa using hlen, ?_⟩
        rw [PacketHeader.transport, if_neg (by rw [hp']; decide)]
        simpa using hudp
    · cases h

/-! ## Addresses as text -/

/-- `inet_ntoa` of the word `a`. -/
def inetNtoa (a : Nat) : Text :=
  decimal (a % 256) ++ '.' :: (decimal (a / 256 % 256) ++ '.' ::
    (decimal (a / 65536 % 256) ++ '.' :: decimal (a / 16777216 % 256)))

theorem length_inetNtoa_le (a : Nat) : (inetNtoa a).length ≤ 15 := by
  have h0 := length_decimal_le (a % 256)
  have h1 := length_decimal_le (a / 256 % 256)
  have h2 := length_decimal_le (a / 65536 % 256)
  have h3 := length_decimal_le (a / 16777216 % 256)
  simp only [inetNtoa, List.length_append, List.length_cons]
  omega

theorem not_mem_inetNtoa {c : Char} (hc : c.toNat < 48 ∨ 57 < c.toNat) (hdot : c ≠ '.')
    (a : Nat) : c ∉ inetNtoa a := by
  simp [inetNtoa, not_mem_decimal hc, hdot]

/-- **The text determines the address.** -/
theorem inetNtoa_inj {a b : Nat} (ha : a < 4294967296) (hb : b < 4294967296)
    (h : inetNtoa a = inetNtoa b) : a = b := by
  have hdot : ∀ n, '.' ∉ decimal n := not_mem_decimal (.inl (by decide))
  have hlt : ∀ n, n % 256 < 1000 := fun n => by omega
  unfold inetNtoa at h
  obtain ⟨h0, h⟩ := append_sep_inj (hdot _) (hdot _) h
  obtain ⟨h1, h⟩ := append_sep_inj (hdot _) (hdot _) h
  obtain ⟨h2, h3⟩ := append_sep_inj (hdot _) (hdot _) h
  have h0 := decimal_inj (hlt _) (hlt _) h0
  have h1 := decimal_inj (hlt _) (hlt _) h1
  have h2 := decimal_inj (hlt _) (hlt _) h2
  have h3 := decimal_inj (hlt _) (hlt _) h3
  omega

end Hwdb.Dpi
