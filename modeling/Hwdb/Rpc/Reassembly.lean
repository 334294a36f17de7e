import Hwdb.Rpc.Call

/-!
# Splitting and reassembling a message

What the fragment loops send for a message of 1 to 65535 bytes, and what the reader makes of it.

* `pieceMessage` — the datagram of one piece; the last piece travels as `QUERY` or `RESPONSE`,
  the others as `FRAGMENT`.
* `Assembling m k b` — buffer `b` holds the header of the first piece and the first `k` pieces
  of `m`, and nothing else.
* `assembling_first`, `assembling_whole`, `assembling_next` — how the reader gets there; in
  particular its copies stay inside the buffer.
* `copyOut_assembled` — what `rpc_call` and `rpc_query` copy out of a complete buffer.
-/

set_option autoImplicit false

namespace Hwdb.Rpc

open Hwdb.Lib

/-- Lengths that the `unsigned short` fields can carry. -/
def Sendable (m : Bytes) : Prop := 1 ≤ m.length ∧ m.length ≤ 65535

instance (m : Bytes) : Decidable (Sendable m) := inferInstanceAs (Decidable (_ ∧ _))

/-- Number of pieces of a message. -/
abbrev pieces (m : Bytes) : Nat := pieceCount FR_SIZE m

/-- The command that piece `k` travels under. -/
def pieceCommand (cmd : Command) (m : Bytes) (k : Nat) : Command :=
  if k = pieces m then cmd else .fragment

/-- Piece `k` of `m` as a datagram numbered `n`. -/
def pieceMessage (sp : Nat) (cmd : Command) (n : Nat) (m : Bytes) (k : Nat) : Bytes :=
  dataPayload (cpComplete sp (pieceCommand cmd m k) n k (pieces m)) m.length
    (piece FR_SIZE m k).length (piece FR_SIZE m k)

section Sending

variable {sp n k : Nat} {cmd : Command} {m : Bytes}

theorem fragmentPayload_piece (h1 : 1 ≤ k) (hk : k < pieces m) :
    fragmentPayload sp n m k (pieces m) = some (pieceMessage sp cmd n m k) := by
  rw [fragmentPayload_eq h1 hk, pieceMessage, pieceCommand, if_neg (Nat.ne_of_lt hk)]

theorem lastPayload_piece {cap : Nat} (hm : Sendable m) (hcap : 1040 < cap) :
    lastPayload sp cmd n m (pieces m) (pieces m) cap =
      some (pieceMessage sp cmd n m (pieces m)) := by
  rw [lastPayload_eq hm.2 hcap, pieceMessage, pieceCommand, if_pos rfl]

theorem pieces_le (hm : Sendable m) : pieces m ≤ 64 := pieceCount_le hm.2

theorem length_piece_le (sz : Nat) (m : Bytes) (k : Nat) : (piece sz m k).length ≤ sz := by
  simp only [piece, List.length_take]
  omega

theorem length_pieceMessage_lt : (pieceMessage sp cmd n m k).length < RECV_SIZE := by
  have h := length_piece_le FR_SIZE m k
  simp only [pieceMessage, length_message, length_dataBody, CP_SIZE, RECV_SIZE, FR_SIZE] at *
  omega

end Sending

/-! ## What the reader sees of a piece -/

section Reading

variable {sp n k : Nat} {cmd : Command} {m stale : Bytes}

theorem received_piece_n :
    (⟨pieceMessage sp cmd n m k, stale⟩ : Received).n < RECV_SIZE := length_pieceMessage_lt

theorem received_piece_command :
    (⟨pieceMessage sp cmd n m k, stale⟩ : Received).command = some (pieceCommand cmd m k) :=
  received_command ..

theorem received_piece_fnum (hm : Sendable m) (hk : k ≤ pieces m) :
    (⟨pieceMessage sp cmd n m k, stale⟩ : Received).fnum = k := by
  have h := pieces_le hm
  rw [pieceMessage, received_fnum]
  exact Nat.mod_eq_of_lt (by omega : k < 256)

theorem received_piece_nfrags (hm : Sendable m) :
    (⟨pieceMessage sp cmd n m k, stale⟩ : Received).nfrags = pieces m := by
  have h := pieces_le hm
  rw [pieceMessage, received_nfrags]
  exact Nat.mod_eq_of_lt (by omega : pieces m < 256)

theorem received_piece_tlen (hm : Sendable m) :
    (⟨pieceMessage sp cmd n m k, stale⟩ : Received).tlen = m.length := by
  rw [pieceMessage, received_tlen]
  exact Nat.mod_eq_of_lt (by have := hm.2; omega)

theorem received_piece_data :
    (⟨pieceMessage sp cmd n m k, stale⟩ : Received).data
        (⟨pieceMessage sp cmd n m k, stale⟩ : Received).flen = some (piece FR_SIZE m k) := by
  have hlen := length_piece_le FR_SIZE m k
  have hflen : (⟨pieceMessage sp cmd n m k, stale⟩ : Received).flen =
      (piece FR_SIZE m k).length := by
    rw [pieceMessage, received_flen]
    exact Nat.mod_eq_of_lt (by simp only [FR_SIZE] at hlen ⊢; omega)
  rw [hflen]
  exact received_data ..

end Reading

/-! ## Buffers that are being filled -/

/-- Sixteen bytes whose length field says `tlen`. -/
def IsHeader (tlen : Nat) (hdr : Bytes) : Prop :=
  hdr.length = DP_SIZE ∧ hdr.getD 12 0 = byteOf (tlen / 256) ∧ hdr.getD 13 0 = byteOf tlen

/-- The buffer holds a header for `m` and the first `k` pieces. -/
def Assembling (m : Bytes) (k : Nat) (b : Buffer UInt8) : Prop :=
  ∃ hdr, IsHeader m.length hdr ∧
    b = Buffer.filled (DP_SIZE + m.length) (hdr ++ m.take (FR_SIZE * k))

/-- The buffer holds a header and all of `m`. -/
def Assembled (m : Bytes) (b : Buffer UInt8) : Prop :=
  ∃ hdr, IsHeader m.length hdr ∧ b = (hdr ++ m).map some

section Filling

variable {sp n k : Nat} {cmd : Command} {m stale : Bytes}

/-- The header of a piece. -/
def pieceHeader (sp : Nat) (cmd : Command) (n : Nat) (m : Bytes) (k : Nat) : Bytes :=
  (cpComplete sp (pieceCommand cmd m k) n k (pieces m)).bytes ++
    (be16 m.length ++ be16 (piece FR_SIZE m k).length)

theorem pieceHeader_isHeader : IsHeader m.length (pieceHeader sp cmd n m k) := ⟨rfl, rfl, rfl⟩

theorem pieceMessage_eq :
    pieceMessage sp cmd n m k = pieceHeader sp cmd n m k ++ piece FR_SIZE m k := by
  simp [pieceMessage, pieceHeader, message, dataBody]

theorem piece_one (m : Bytes) : piece FR_SIZE m 1 = m.take (FR_SIZE * 1) := by
  simp [piece]

/-- The first piece is copied whole, header included. -/
theorem assembling_first (hm : Sendable m) : ∃ p,
    Buffer.write (Buffer.alloc (DP_SIZE + (⟨pieceMessage sp cmd n m 1, stale⟩ : Received).tlen)) 0
      (pieceMessage sp cmd n m 1) = some p ∧ Assembling m 1 p := by
  have hfit : (pieceMessage sp cmd n m 1).length ≤ DP_SIZE + m.length := by
    rw [pieceMessage_eq, List.length_append, pieceHeader_isHeader.1, piece_one]
    simp only [List.length_take]
    omega
  refine ⟨_, ?_, pieceHeader sp cmd n m 1, pieceHeader_isHeader, rfl⟩
  rw [received_piece_tlen hm, Buffer.write_alloc hfit, pieceMessage_eq, piece_one]

/-- A message of one piece is complete as it arrives. -/
theorem assembled_whole (hone : pieces m = 1) :
    Assembled m ((pieceMessage sp cmd n m 1).map some) := by
  refine ⟨pieceHeader sp cmd n m 1, pieceHeader_isHeader, ?_⟩
  have hall := take_pieceCount (show 0 < FR_SIZE by decide) m
  rw [show pieceCount FR_SIZE m = 1 from hone] at hall
  rw [pieceMessage_eq, piece_one, hall]

/-- **The next piece goes where it belongs**, inside the buffer. -/
theorem assembling_next {cr : CRecord} {b : Buffer UInt8} (hm : Sendable m)
    (hk : k < pieces m) (hb : Assembling m k b) (hcr : cr.resp = some b) :
    ∃ p, copyFragment cr ⟨pieceMessage sp cmd n m (k + 1), stale⟩ = .ok p ∧
      Assembling m (k + 1) p := by
  obtain ⟨hdr, hhdr, rfl⟩ := hb
  have hwrite := write_piece hdr (show 0 < FR_SIZE by decide) hk
  rw [hhdr.1] at hwrite
  refine ⟨_, ?_, hdr, hhdr, rfl⟩
  have hfnum : (⟨pieceMessage sp cmd n m (k + 1), stale⟩ : Received).fnum = k + 1 :=
    received_piece_fnum hm hk
  rw [copyFragment, hcr, received_piece_data, hfnum, Nat.add_sub_cancel]
  simp only [hwrite]

theorem assembled_of_assembling {b : Buffer UInt8} (hb : Assembling m (pieces m) b) :
    Assembled m b := by
  obtain ⟨hdr, hhdr, rfl⟩ := hb
  refine ⟨hdr, hhdr, ?_⟩
  rw [take_pieceCount (by decide), ← hhdr.1, ← List.length_append, Buffer.filled_length_self]

end Filling

/-! ## Copying a message out -/

section Copying

variable {m : Bytes} {b : Buffer UInt8}

theorem Assembled.length (h : Assembled m b) : b.length = DP_SIZE + m.length := by
  obtain ⟨hdr, hhdr, rfl⟩ := h
  simp [hhdr.1]

theorem getD_map_some {l : Bytes} {i : Nat} (h : i < l.length) :
    ((l.map some).getD i none).getD 0 = l.getD i 0 := by
  simp [List.getD_eq_getElem?_getD, List.getElem?_eq_getElem h]

theorem getD_append_left {l l' : Bytes} {i : Nat} (h : i < l.length) :
    (l ++ l').getD i 0 = l.getD i 0 := by
  simp [List.getD_eq_getElem?_getD, List.getElem?_append_left h]

theorem bufferTlen_assembled (hm : m.length ≤ 65535) (h : Assembled m b) :
    bufferTlen b = m.length := by
  obtain ⟨hdr, ⟨hlen, h12, h13⟩, rfl⟩ := h
  have hl : (hdr ++ m).length = 16 + m.length := by simp [hlen, DP_SIZE]
  have hd : hdr.length = 16 := hlen
  rw [bufferTlen, getD_map_some (by omega), getD_map_some (by omega),
    getD_append_left (by omega), getD_append_left (by omega), h12, h13, toNat_byteOf,
    toNat_byteOf]
  omega

/-- **A complete buffer is copied out whole, when it fits the caller's.** -/
theorem copyOut_assembled (hm : m.length ≤ 65535) (h : Assembled m b) (room : Nat) :
    copyOut b room = .ok (if m.length ≤ room then some (m.map some) else none) := by
  have htlen := bufferTlen_assembled hm h
  have hlen := h.length
  have h14 : ¬ b.length < 14 := by
    simp only [DP_SIZE] at hlen
    omega
  rw [copyOut, if_neg h14, htlen]
  by_cases hroom : m.length ≤ room
  · rw [if_pos hroom, if_pos hroom, if_pos (Nat.le_of_eq hlen.symm)]
    obtain ⟨hdr, ⟨hdrlen, -, -⟩, rfl⟩ := h
    congr 2
    rw [List.map_append, List.drop_left' (by simpa using hdrlen)]
    exact List.take_of_length_le (by simp)
  · rw [if_neg hroom, if_neg hroom]

end Copying

end Hwdb.Rpc
