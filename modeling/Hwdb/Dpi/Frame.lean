import Hwdb.Dpi.Packet

/-!
# The frames that `extract_headers` accepts (`dpilogger.c`)

`extract_headers` is given a pointer and an `int`; `extractHeaders` is the case in which the
`int` is the number of bytes.  Here the two are independent, and the comparisons are made as C
makes them: against `ETHER_HDR_LEN` and the end of the IP header as `int`, against `sizeof` as
`size_t`.

* `extractHeadersLen` — `extract_headers` for any captured length.
* `extractHeadersLen_length` — with the length of the bytes it is `extractHeaders`.
* `accepted_iff` — exactly which frames are accepted, and which pointer is set.
* `acceptsWellFormed_iff` — the accepted frames are the well-formed ones but for those with an
  `ihl` below 5: their transport header is taken from within the IP header.
-/

set_option autoImplicit false

namespace Hwdb.Dpi

/-- An `int` converted to `size_t`. -/
def sizeT (n : Int32) : Nat := (n.toInt % 18446744073709551616).toNat

/-- `extract_headers` on the bytes behind `data` and the length `dataLen`; `none` when it
returns 0. -/
def extractHeadersLen (data : Bytes) (dataLen : Int32) : Option PacketHeader :=
  if dataLen.toInt < (ETHER_HDR_LEN : Int) then none
  else if ntohsAt data 12 ≠ ETHERTYPE_IP then none
  else if sizeT dataLen < ETHER_HDR_LEN + IPHDR_SIZE then none
  else
    let hdr : PacketHeader := ⟨data, ETHER_HDR_LEN, none, none⟩
    let ptr := ETHER_HDR_LEN + hdr.ihl * 4
    if dataLen.toInt < (ptr : Int) then none
    else if hdr.protocol = 6 then
      if sizeT dataLen < ptr + TCPHDR_SIZE then none else some { hdr with tcp := some ptr }
    else if hdr.protocol = 17 then
      if sizeT dataLen < ptr + UDPHDR_SIZE then none else some { hdr with udp := some ptr }
    else none

/-! ## Fields of a frame -/

/-- The version in the first byte of the IP header; `extract_headers` does not look at it. -/
def ipVersion (data : Bytes) : Nat := byteAt data ETHER_HDR_LEN / 16

/-- `ihl*4` of a frame. -/
def ipHeaderLen (data : Bytes) : Nat := byteAt data ETHER_HDR_LEN % 16 * 4

/-- The protocol byte of a frame. -/
def ipProtocol (data : Bytes) : Nat := byteAt data (ETHER_HDR_LEN + 9)

/-- The fixed transport header of protocol `p` at `offset` ends within `n` captured bytes. -/
def TransportFits (n : Int) (p offset : Nat) : Prop :=
  (p = 6 ∧ (offset + TCPHDR_SIZE : Int) ≤ n) ∨ (p = 17 ∧ (offset + UDPHDR_SIZE : Int) ≤ n)

/-- What `extract_headers` asks of a frame. -/
structure Accepted (data : Bytes) (n : Int) : Prop where
  ether : ntohsAt data 12 = ETHERTYPE_IP
  fixed : (ETHER_HDR_LEN + IPHDR_SIZE : Int) ≤ n
  transport : TransportFits n (ipProtocol data) (ETHER_HDR_LEN + ipHeaderLen data)

/-- A well-formed IPv4 frame with TCP or UDP in it, and `hdr` points to its headers. -/
structure WellFormed (data : Bytes) (n : Int) (hdr : PacketHeader) : Prop where
  bytes : hdr.data = data ∧ hdr.ip = ETHER_HDR_LEN
  ether : ntohsAt data 12 = ETHERTYPE_IP
  header : IPHDR_SIZE ≤ ipHeaderLen data
  inside : (ETHER_HDR_LEN + ipHeaderLen data : Int) ≤ n
  pointer : ∃ p, ((hdr.protocol = 6 ∧ hdr.tcp = some p ∧ hdr.udp = none) ∨
    (hdr.protocol = 17 ∧ hdr.udp = some p ∧ hdr.tcp = none)) ∧
    TransportFits n hdr.protocol p ∧ ETHER_HDR_LEN + ipHeaderLen data ≤ p ∧
      ETHER_HDR_LEN + IPHDR_SIZE ≤ p

/-- What is returned with 1 is well formed, and what is well formed is accepted. -/
def AcceptsWellFormed (data : Bytes) (n : Int32) : Prop :=
  (∀ hdr, extractHeadersLen data n = some hdr → WellFormed data n.toInt hdr) ∧
    ((∃ hdr, WellFormed data n.toInt hdr) → (extractHeadersLen data n).isSome)

/-- The pointers that `extract_headers` sets in a frame of protocol 6 or 17. -/
def headersOf (data : Bytes) : PacketHeader :=
  let ptr := ETHER_HDR_LEN + ipHeaderLen data
  if ipProtocol data = 6 then ⟨data, ETHER_HDR_LEN, some ptr, none⟩
  else ⟨data, ETHER_HDR_LEN, none, some ptr⟩

/-! ## The accepted set -/

section Accept

variable {data : Bytes} {n : Int32} {hdr : PacketHeader}

theorem sizeT_of_nonneg (h : 0 ≤ n.toInt) : (sizeT n : Int) = n.toInt := by
  have hlt := n.toInt_lt
  unfold sizeT
  omega

/-- A frame that meets the conditions is accepted. -/
theorem extract_of_accepted (h : Accepted data n.toInt) :
    extractHeadersLen data n = some (headersOf data) := by
  have hsize : (sizeT n : Int) = n.toInt := sizeT_of_nonneg (Int.le_trans (by decide) h.fixed)
  have hfixed := h.fixed
  have htransport := h.transport
  unfold TransportFits at htransport
  have hether : ¬ n.toInt < (ETHER_HDR_LEN : Int) := by omega
  have h20 : ¬ sizeT n < ETHER_HDR_LEN + IPHDR_SIZE := by omega
  have hptr : ¬ n.toInt < ((ETHER_HDR_LEN + ipHeaderLen data : Nat) : Int) := by omega
  simp only [extractHeadersLen, if_neg hether, h.ether, ne_eq, not_true, if_false, if_neg h20]
  show (if n.toInt < ((ETHER_HDR_LEN + ipHeaderLen data : Nat) : Int) then
      (none : Option PacketHeader)
    else if ipProtocol data = 6 then
      if sizeT n < ETHER_HDR_LEN + ipHeaderLen data + TCPHDR_SIZE then none
      else some ⟨data, ETHER_HDR_LEN, some (ETHER_HDR_LEN + ipHeaderLen data), none⟩
    else if ipProtocol data = 17 then
      if sizeT n < ETHER_HDR_LEN + ipHeaderLen data + UDPHDR_SIZE then none
      else some ⟨data, ETHER_HDR_LEN, none, some (ETHER_HDR_LEN + ipHeaderLen data)⟩
    else none) = _
  rw [if_neg hptr]
  rcases htransport with ⟨hp, hle⟩ | ⟨hp, hle⟩
  · have htcp : ¬ sizeT n < ETHER_HDR_LEN + ipHeaderLen data + TCPHDR_SIZE := by omega
    rw [if_pos hp, if_neg htcp, headersOf, if_pos hp]
  · have hne : ¬ ipProtocol data = 6 := by omega
    have hudp : ¬ sizeT n < ETHER_HDR_LEN + ipHeaderLen data + UDPHDR_SIZE := by omega
    rw [if_neg hne, if_pos hp, if_neg hudp, headersOf, if_neg hne]

/-- A frame that is accepted meets the conditions. -/
theorem accepted_of_extract (h : (extractHeadersLen data n).isSome) : Accepted data n.toInt := by
  unfold extractHeadersLen at h
  split at h
  · cases h
  rename_i hether
  have hsize : (sizeT n : Int) = n.toInt := by
    apply sizeT_of_nonneg
    have h14 : (0 : Int) ≤ ETHER_HDR_LEN := Int.natCast_nonneg _
    omega
  split at h
  · cases h
  rename_i htype
  split at h
  · cases h
  rename_i hfixed
  have hfits : ∀ p k, ¬ sizeT n < ETHER_HDR_LEN + ipHeaderLen data + k →
      ipProtocol data = p → (p = 6 ∧ k = TCPHDR_SIZE) ∨ (p = 17 ∧ k = UDPHDR_SIZE) →
      Accepted data n.toInt := by
    intro p k hk hp hcase
    refine ⟨not_not.mp htype, by omega, ?_⟩
    unfold TransportFits
    omega
  dsimp only at h
  split at h
  · cases h
  split at h
  · rename_i hp
    split at h
    · cases h
    · rename_i htcp
      exact hfits 6 TCPHDR_SIZE htcp hp (.inl ⟨rfl, rfl⟩)
  · split at h
    · rename_i hp
      split at h
      · cases h
      · rename_i hudp
        exact hfits 17 UDPHDR_SIZE hudp hp (.inr ⟨rfl, rfl⟩)
    · cases h

/-- **Exactly which frames are accepted**, and what is returned for them. -/
theorem accepted_iff :
    extractHeadersLen data n = some hdr ↔ Accepted data n.toInt ∧ hdr = headersOf data := by
  constructor
  · intro h
    have hacc : Accepted data n.toInt := accepted_of_extract (by rw [h]; rfl)
    rw [extract_of_accepted hacc, Option.some.injEq] at h
    exact ⟨hacc, h.symm⟩
  · rintro ⟨hacc, rfl⟩
    exact extract_of_accepted hacc

/-- The ports of an accepted frame are read `ihl*4` bytes behind the start of its IP header. -/
theorem transport_headersOf (h : Accepted data n.toInt) :
    (headersOf data).transport = ETHER_HDR_LEN + ipHeaderLen data := by
  unfold headersOf PacketHeader.transport
  rcases h.transport with ⟨hp, -⟩ | ⟨hp, -⟩
  · rw [if_pos hp]
    exact if_pos hp
  · have hne : ¬ ipProtocol data = 6 := by omega
    rw [if_neg hne]
    exact if_neg hne

/-- With the length of the bytes, `extract_headers` is `extractHeaders`. -/
theorem extractHeadersLen_length (h : data.length < 2147483648) :
    extractHeadersLen data (Int32.ofNat data.length) = extractHeaders data := by
  have hint : (Int32.ofNat data.length).toInt = data.length := Int32.toInt_ofNat_of_lt h
  have hsize : sizeT (Int32.ofNat data.length) = data.length := by
    have hs : (sizeT (Int32.ofNat data.length) : Int) = (Int32.ofNat data.length).toInt :=
      sizeT_of_nonneg (by omega)
    omega
  unfold extractHeadersLen extractHeaders
  simp only [hint, hsize, Int.ofNat_lt]

end Accept

/-! ## Well-formed frames -/

/-- The frame passes the checks, but its `ihl` is too small for an IP header. -/
def ShortIpHeader (data : Bytes) (n : Int) : Prop :=
  Accepted data n ∧ ipHeaderLen data < IPHDR_SIZE

/-- The frame passes the checks, but its IP header is not of version 4. -/
def OtherVersion (data : Bytes) (n : Int) : Prop := Accepted data n ∧ ipVersion data ≠ 4

section WellFormed

variable {data : Bytes} {n : Int32} {hdr : PacketHeader}

theorem WellFormed.accepted {k : Int} (h : WellFormed data k hdr) : Accepted data k := by
  obtain ⟨p, -, hfits, hafter, -⟩ := h.pointer
  have hproto : hdr.protocol = ipProtocol data := by
    unfold PacketHeader.protocol ipProtocol
    rw [h.bytes.1, h.bytes.2]
  rw [hproto] at hfits
  have hheader := h.header
  have hinside := h.inside
  unfold TransportFits at hfits
  refine ⟨h.ether, by omega, ?_⟩
  unfold TransportFits
  omega

theorem Accepted.wellFormed {k : Int} (h : Accepted data k) (hlen : IPHDR_SIZE ≤ ipHeaderLen data) :
    WellFormed data k (headersOf data) := by
  have htransport := h.transport
  have hbytes : (headersOf data).data = data ∧ (headersOf data).ip = ETHER_HDR_LEN := by
    unfold headersOf
    split
    · exact ⟨rfl, rfl⟩
    · exact ⟨rfl, rfl⟩
  have hproto : (headersOf data).protocol = ipProtocol data := by
    unfold PacketHeader.protocol ipProtocol
    rw [hbytes.1, hbytes.2]
  refine ⟨hbytes, h.ether, hlen, ?_, ETHER_HDR_LEN + ipHeaderLen data, ?_, ?_, Nat.le_refl _,
    Nat.add_le_add_left hlen _⟩
  · unfold TransportFits at htransport
    omega
  · rw [hproto]
    unfold headersOf
    rcases htransport with ⟨hp, -⟩ | ⟨hp, -⟩
    · rw [if_pos hp]
      exact .inl ⟨hp, rfl, rfl⟩
    · have hne : ¬ ipProtocol data = 6 := by omega
      rw [if_neg hne]
      exact .inr ⟨hp, rfl, rfl⟩
  · rw [hproto]
    exact htransport

/-- **The accepted frames are the well-formed ones, but for those with a short `ihl`.**  If the
version is to be 4 as well, frames with another one are the other exception. -/
theorem acceptsWellFormed_iff (data : Bytes) (n : Int32) :
    (AcceptsWellFormed data n ↔ ¬ ShortIpHeader data n.toInt) ∧
      (AcceptsWellFormed data n ∧ ((extractHeadersLen data n).isSome → ipVersion data = 4) ↔
        ¬ ShortIpHeader data n.toInt ∧ ¬ OtherVersion data n.toInt) := by
  have hwell : AcceptsWellFormed data n ↔ ¬ ShortIpHeader data n.toInt := by
    constructor
    · rintro ⟨honly, -⟩ ⟨hacc, hshort⟩
      have hlen := (honly _ (extract_of_accepted hacc)).header
      omega
    · intro hshort
      refine ⟨fun hdr hx => ?_, fun hx => ?_⟩
      · obtain ⟨hacc, rfl⟩ := accepted_iff.mp hx
        exact hacc.wellFormed (Nat.le_of_not_lt fun hlt => hshort ⟨hacc, hlt⟩)
      · obtain ⟨hdr, hdr_ok⟩ := hx
        rw [extract_of_accepted hdr_ok.accepted]
        rfl
  have hversion : ((extractHeadersLen data n).isSome → ipVersion data = 4) ↔
      ¬ OtherVersion data n.toInt := by
    constructor
    · rintro h ⟨hacc, hne⟩
      exact hne (h (by rw [extract_of_accepted hacc]; rfl))
    · intro h hx
      exact not_not.mp fun hne => h ⟨accepted_of_extract hx, hne⟩
  exact ⟨hwell, and_congr hwell hversion⟩

end WellFormed

/-- A UDP frame whose IP header claims a length of 0. -/
def shortHeaderFrame : Bytes :=
  List.replicate 12 0 ++ [8, 0] ++
    [64, 0, 0, 28, 0, 0, 0, 0, 64, 17, 0, 0, 10, 0, 0, 1, 10, 0, 0, 2]

/-- It is accepted, and its source port is read from its version and type of service. -/
theorem short_header_accepted :
    extractHeadersLen shortHeaderFrame 34 = some ⟨shortHeaderFrame, 14, none, some 14⟩ ∧
      ¬ ∀ data n, AcceptsWellFormed data n := by
  have hx : extractHeadersLen shortHeaderFrame 34 =
      some ⟨shortHeaderFrame, 14, none, some 14⟩ := by decide
  refine ⟨hx, fun h => ?_⟩
  have hlen := ((h shortHeaderFrame 34).1 _ hx).header
  exact absurd hlen (by decide)

end Hwdb.Dpi
