import Mathlib.Data.List.Basic
import Mathlib.Tactic.Common

/-!
# SRPC messages on the wire (`srpc.c`, `srpcdefs.h`)

The byte layout of `PayloadHeader`, `DataHeader` and the payloads built around them, and the
reader's view of its receive buffer.

* `cpComplete` — the macro that fills in a header.  The subport is stored as it is (it is
  already in network order); the sequence number and the command go through `htonl`/`htons`,
  so a sequence number is truncated to 32 bits.
* `Received` — `buf` after `recvfrom` and the terminator: the `n` bytes of the datagram, a
  zero byte, and whatever earlier datagrams left behind it.  The header fields are read from
  the buffer at their offsets and never related to `n`, as in the source.
* `received_header` and its companions — what the reader sees of a message that was built by
  `cpComplete`.

The host is taken to be little-endian (the raw subport word) with 64-bit `unsigned long`.
-/

set_option autoImplicit false

namespace Hwdb.Rpc

abbrev Bytes := List UInt8

/-- Maximum payload before fragmentation (`FR_SIZE`). -/
def FR_SIZE : Nat := 1024

/-- `sizeof(buf)` in `reader`. -/
def RECV_SIZE : Nat := 10240

/-- `CP_SIZE`, the size of a `ControlPayload`. -/
def CP_SIZE : Nat := 12

/-- `sizeof(PayloadHeader) + sizeof(DataHeader)`. -/
def DP_SIZE : Nat := 16

/-- The commands `CONNECT` … `SACK`. -/
inductive Command where
  | connect
  | cack
  | query
  | qack
  | response
  | rack
  | disconnect
  | dack
  | fragment
  | fack
  | ping
  | pack
  | seqno
  | sack
  deriving DecidableEq, Repr

def Command.code : Command → Nat
  | .connect => 1
  | .cack => 2
  | .query => 3
  | .qack => 4
  | .response => 5
  | .rack => 6
  | .disconnect => 7
  | .dack => 8
  | .fragment => 9
  | .fack => 10
  | .ping => 11
  | .pack => 12
  | .seqno => 13
  | .sack => 14

/-- `cmd >= CMD_LOW && cmd <= CMD_HIGH`; anything else is an illegal command. -/
def Command.ofCode : Nat → Option Command
  | 1 => some .connect
  | 2 => some .cack
  | 3 => some .query
  | 4 => some .qack
  | 5 => some .response
  | 6 => some .rack
  | 7 => some .disconnect
  | 8 => some .dack
  | 9 => some .fragment
  | 10 => some .fack
  | 11 => some .ping
  | 12 => some .pack
  | 13 => some .seqno
  | 14 => some .sack
  | _ => none

@[simp] theorem Command.ofCode_code (c : Command) : Command.ofCode c.code = some c := by
  cases c <;> rfl

theorem Command.code_lt (c : Command) : c.code < 256 := by
  cases c <;> decide

/-! ## Building a message -/

def byteOf (v : Nat) : UInt8 := UInt8.ofNat v

/-- A 16-bit word in network order. -/
def be16 (v : Nat) : Bytes := [byteOf (v / 256), byteOf v]

/-- A 32-bit word in network order. -/
def be32 (v : Nat) : Bytes :=
  [byteOf (v / 16777216), byteOf (v / 65536), byteOf (v / 256), byteOf v]

/-- A 32-bit word as the host stores it. -/
def le32 (v : Nat) : Bytes :=
  [byteOf v, byteOf (v / 256), byteOf (v / 65536), byteOf (v / 16777216)]

/-- `PayloadHeader`, with the multi-byte fields in host order. -/
structure PayloadHeader where
  subport : Nat
  seqno : Nat
  command : Command
  fnum : Nat
  nfrags : Nat
  deriving DecidableEq, Repr

/-- `cp_complete(cp, sp, cmd, sn, fn, nfs)`. -/
def cpComplete (sp : Nat) (cmd : Command) (sn fn nfs : Nat) : PayloadHeader :=
  ⟨sp, sn, cmd, fn, nfs⟩

/-- The twelve bytes of a header: raw subport, then network order. -/
def PayloadHeader.bytes (h : PayloadHeader) : Bytes :=
  le32 h.subport ++ be32 h.seqno ++ be16 h.command.code ++ [byteOf h.fnum, byteOf h.nfrags]

/-- A header and what follows it. -/
def message (h : PayloadHeader) (rest : Bytes) : Bytes := h.bytes ++ rest

/-- `ControlPayload`. -/
abbrev controlPayload (h : PayloadHeader) : Bytes := message h []

/-- `ConnectPayload`: the header and the terminated service name. -/
abbrev connectPayload (h : PayloadHeader) (sname : Bytes) : Bytes := message h (sname ++ [0])

/-- `DataHeader` and data. -/
def dataBody (tlen flen : Nat) (data : Bytes) : Bytes := be16 tlen ++ be16 flen ++ data

/-- `DataPayload`: header, `tlen` and `flen`, data. -/
abbrev dataPayload (h : PayloadHeader) (tlen flen : Nat) (data : Bytes) : Bytes :=
  message h (dataBody tlen flen data)

@[simp] theorem length_bytes (h : PayloadHeader) : h.bytes.length = CP_SIZE := rfl

@[simp] theorem length_message (h : PayloadHeader) (rest : Bytes) :
    (message h rest).length = CP_SIZE + rest.length := by
  simp [message]

@[simp] theorem length_dataBody (tlen flen : Nat) (data : Bytes) :
    (dataBody tlen flen data).length = 4 + data.length := by
  simp [dataBody, be16]
  omega

/-! ## Reading a message -/

/-- The receive buffer of `reader` after `recvfrom` and `buf[n] = '\0'`. -/
structure Received where
  bytes : Bytes
  stale : Bytes
  deriving DecidableEq, Repr

/-- A NUL-terminated string. -/
def cstr (b : Bytes) : Bytes := b.takeWhile (· ≠ 0)

namespace Received

variable (d : Received)

def buf : Bytes := d.bytes ++ 0 :: d.stale

/-- The value returned by `recvfrom`. -/
def n : Nat := d.bytes.length

def byte (i : Nat) : Nat := (d.buf.getD i 0).toNat

def word16 (i : Nat) : Nat := d.byte i * 256 + d.byte (i + 1)

/-- `dp->hdr.subport` as the reader carries it on: the raw word. -/
def subport : Nat :=
  d.byte 0 + d.byte 1 * 256 + d.byte 2 * 65536 + d.byte 3 * 16777216

def seqno : Nat := d.word16 4 * 65536 + d.word16 6

def command : Option Command := Command.ofCode (d.word16 8)

def fnum : Nat := d.byte 10

def nfrags : Nat := d.byte 11

def tlen : Nat := d.word16 12

def flen : Nat := d.word16 14

/-- `conp->sname`. -/
def sname : Bytes := cstr (d.buf.drop CP_SIZE)

/-- `flen` bytes from `dp->data`; undefined when they leave the receive buffer. -/
def data (len : Nat) : Option Bytes :=
  if DP_SIZE + len ≤ d.buf.length then some ((d.buf.drop DP_SIZE).take len) else none

theorem byte_lt (i : Nat) : d.byte i < 256 := UInt8.toNat_lt _

theorem word16_lt (i : Nat) : d.word16 i < 65536 := by
  have h0 := d.byte_lt i
  have h1 := d.byte_lt (i + 1)
  unfold word16
  omega

theorem seqno_lt : d.seqno < 4294967296 := by
  have h4 := d.word16_lt 4
  have h6 := d.word16_lt 6
  unfold seqno
  omega

end Received

@[simp] theorem toNat_byteOf (v : Nat) : (byteOf v).toNat = v % 256 := by
  simp [byteOf]

/-! ## What the reader sees of a message -/

section ReadBack

variable (h : PayloadHeader) (rest stale : Bytes)

@[simp] theorem received_n : (⟨message h rest, stale⟩ : Received).n = CP_SIZE + rest.length := by
  simp [Received.n]

@[simp] theorem received_seqno :
    (⟨message h rest, stale⟩ : Received).seqno = h.seqno % 4294967296 := by
  simp [Received.seqno, Received.word16, Received.byte, Received.buf, message,
    PayloadHeader.bytes, le32, be32, be16]
  omega

@[simp] theorem received_subport :
    (⟨message h rest, stale⟩ : Received).subport = h.subport % 4294967296 := by
  simp [Received.subport, Received.byte, Received.buf, message, PayloadHeader.bytes, le32,
    be32, be16]
  omega

@[simp] theorem received_command :
    (⟨message h rest, stale⟩ : Received).command = some h.command := by
  have hcode := h.command.code_lt
  have hw : (⟨message h rest, stale⟩ : Received).word16 8 = h.command.code := by
    simp [Received.word16, Received.byte, Received.buf, message, PayloadHeader.bytes, le32,
      be32, be16]
    omega
  simp [Received.command, hw]

@[simp] theorem received_fnum :
    (⟨message h rest, stale⟩ : Received).fnum = h.fnum % 256 := by
  simp [Received.fnum, Received.byte, Received.buf, message, PayloadHeader.bytes, le32, be32,
    be16]

@[simp] theorem received_nfrags :
    (⟨message h rest, stale⟩ : Received).nfrags = h.nfrags % 256 := by
  simp [Received.nfrags, Received.byte, Received.buf, message, PayloadHeader.bytes, le32,
    be32, be16]

variable (tlen flen : Nat) (data : Bytes)

@[simp] theorem received_tlen :
    (⟨dataPayload h tlen flen data, stale⟩ : Received).tlen = tlen % 65536 := by
  simp [Received.tlen, Received.word16, Received.byte, Received.buf, message, dataBody,
    PayloadHeader.bytes, le32, be32, be16]
  omega

@[simp] theorem received_flen :
    (⟨dataPayload h tlen flen data, stale⟩ : Received).flen = flen % 65536 := by
  simp [Received.flen, Received.word16, Received.byte, Received.buf, message, dataBody,
    PayloadHeader.bytes, le32, be32, be16]
  omega

/-- The data of a message is read back whole, whatever lies behind it in the buffer. -/
@[simp] theorem received_data :
    (⟨dataPayload h tlen flen data, stale⟩ : Received).data data.length = some data := by
  have hlen : (h.bytes ++ (be16 tlen ++ be16 flen)).length = DP_SIZE := rfl
  have hbuf : (⟨dataPayload h tlen flen data, stale⟩ : Received).buf =
      (h.bytes ++ (be16 tlen ++ be16 flen)) ++ (data ++ 0 :: stale) := by
    simp [Received.buf, message, dataBody]
  rw [Received.data, hbuf, if_pos (by simp only [List.length_append] at hlen ⊢; omega), ← hlen,
    List.drop_left, List.take_left]

end ReadBack

end Hwdb.Rpc
