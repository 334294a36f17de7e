import Hwdb.Rpc.Bounds
import Mathlib.Data.List.GetD
import Mathlib.Data.List.TakeWhile

/-!
# Bytes left over in the receive buffer

`reader` receives every datagram into the same buffer and reads the header, the data header and
the service name at their offsets.  Two histories that lead to the same process leave different
bytes behind a datagram.

* `Received.over` — a datagram received over the old contents of the buffer.
* `SelfContained` — whatever the old contents were, the datagram has the same effect.
* `WithinDatagram` — everything that the arms use lies within the bytes received and their
  terminator.
* `selfContained_iff` — these are the same.
-/

set_option autoImplicit false

namespace Hwdb.Rpc

open Hwdb.Lib

/-- `recvfrom` into a buffer with the contents `old`, and `buf[n] = '\0'`. -/
def Received.over (b : Bytes) (old : Nat → UInt8) : Received :=
  ⟨b, (List.range (RECV_SIZE - 1 - b.length)).map fun i => old (b.length + 1 + i)⟩

/-- What the reader does with one datagram: the process afterwards and the replies. -/
def Process.effect (s : Process) (addr : Vector UInt8 ADDR_SIZE) (d : Received) :
    Process × List Sent :=
  (s.recv addr d, (s.outcome (s.lookup ⟨addr, d.subport⟩) d).sent)

/-- The effect of the datagram depends on its own bytes only. -/
def SelfContained (s : Process) (addr : Vector UInt8 ADDR_SIZE) (b : Bytes) : Prop :=
  ∀ old old', s.effect addr (.over b old) = s.effect addr (.over b old')

/-! ## The condition -/

/-- Copying `len` bytes of the datagram to the place of its fragment stays in both buffers. -/
def CopyFits (cr : CRecord) (d : Received) (len : Nat) : Prop :=
  DP_SIZE + len ≤ RECV_SIZE ∧
    ∃ p, cr.resp = some p ∧ DP_SIZE + FR_SIZE * (d.fnum - 1) + len ≤ p.length

/-- The record answers the datagram as a whole message. -/
def AnswersWhole (cr : CRecord) (d : Received) : Prop :=
  (d.command = some .query ∧ seqnoNext d.seqno cr.seqno ∧
      (cr.state = .idle ∨ cr.state = .responseSent)) ∨
    (d.command = some .response ∧ d.seqno = cr.seqno ∧
      (cr.state = .querySent ∨ cr.state = .awaitingResponse))

/-- The record has no service to hand a query to. -/
def Discards (cr : CRecord) (d : Received) : Prop := d.command = some .query ∧ cr.svc = none

/-- The fields that the arms of a record read lie within the datagram and its terminator:
`nfrags` of a whole message, `tlen` of a first fragment, `flen` and the data of a piece that is
copied. -/
structure WithinRecord (cr : CRecord) (d : Received) : Prop where
  whole : AnswersWhole cr d → 11 ≤ d.n
  first : AcceptsFirst cr d → 13 ≤ d.n
  next : AcceptsNext cr d → ¬ CopyFits cr d 0 ∨
    (d.n = 14 ∧ Discards cr d ∧ CopyFits cr d 255) ∨
    (15 ≤ d.n ∧ (Discards cr d ∨ DP_SIZE + d.flen ≤ d.n + 1 ∨ ¬ CopyFits cr d d.flen))

/-- The name of a service starts within a `CONNECT` or at its terminator. -/
def WithinConnect (d : Received) : Prop := d.command = some .connect → CP_SIZE ≤ d.n

section Reading

variable {b : Bytes} {old old' : Nat → UInt8}

@[simp] theorem over_n : (Received.over b old).n = b.length := rfl

theorem length_over (h : b.length < RECV_SIZE) : (Received.over b old).buf.length = RECV_SIZE := by
  simp only [Received.over, Received.buf, List.length_append, List.length_cons, List.length_map,
    List.length_range]
  omega

/-- The bytes of the datagram and the terminator hide the old contents. -/
theorem getD_over_le {i : Nat} (h : i ≤ b.length) :
    (Received.over b old).buf.getD i 0 = (b ++ [0]).getD i 0 := by
  have hbuf : (Received.over b old).buf = (b ++ [0]) ++ (Received.over b old).stale := by
    simp [Received.buf, Received.over]
  rw [hbuf, List.getD_append _ _ _ _ (by simpa using Nat.lt_succ_of_le h)]

/-- Behind them the old contents are still there. -/
theorem getD_over_gt {i : Nat} (h : b.length < i) (hi : i < RECV_SIZE) :
    (Received.over b old).buf.getD i 0 = old i := by
  have hbuf : (Received.over b old).buf = (b ++ [0]) ++ (Received.over b old).stale := by
    simp [Received.buf, Received.over]
  have hlt : i - (b.length + 1) < RECV_SIZE - 1 - b.length := by omega
  rw [hbuf, List.getD_append_right _ _ _ _ (by
    rw [List.length_append, List.length_singleton]
    exact h)]
  simp only [List.length_append, List.length_cons, List.length_nil, Received.over]
  rw [List.getD_eq_getElem _ _ (by simpa using hlt)]
  simp only [List.getElem_map, List.getElem_range]
  congr 1
  omega

theorem byte_over_le {i : Nat} (h : i ≤ b.length) :
    (Received.over b old).byte i = (Received.over b old').byte i := by
  unfold Received.byte
  rw [getD_over_le h, getD_over_le h]

theorem byte_over_gt {i : Nat} (h : b.length < i) (hi : i < RECV_SIZE) :
    (Received.over b old).byte i = (old i).toNat := by
  unfold Received.byte
  rw [getD_over_gt h hi]

/-- The byte right behind the datagram. -/
theorem byte_over_length : (Received.over b old).byte b.length = 0 := by
  unfold Received.byte
  rw [getD_over_le (Nat.le_refl _)]
  simp

/-- What the reader sees of two datagrams that differ in the old contents only. -/
structure Agree (d d' : Received) : Prop where
  bytes : d.bytes = d'.bytes
  length : d.buf.length = d'.buf.length
  subport : d.subport = d'.subport
  seqno : d.seqno = d'.seqno
  command : d.command = d'.command
  fnum : d.fnum = d'.fnum
  fnum_pos : 0 < d.fnum → 11 ≤ d.n
  nfrags : 11 ≤ d.n → d.nfrags = d'.nfrags
  tlen : 13 ≤ d.n → d.tlen = d'.tlen
  flen : 15 ≤ d.n → d.flen = d'.flen
  flen_small : d.n = 14 → d.flen < 256 ∧ d'.flen < 256
  data : ∀ len, DP_SIZE + len ≤ d.n + 1 → d.data len = d'.data len
  sname : 12 ≤ d.n → d.sname = d'.sname

theorem word16_over (i : Nat) (h : i + 1 ≤ b.length) :
    (Received.over b old).word16 i = (Received.over b old').word16 i := by
  unfold Received.word16
  rw [byte_over_le (by omega), byte_over_le h]

/-- A string that starts in the datagram ends at the terminator at the latest. -/
theorem sname_over (h : CP_SIZE ≤ b.length) :
    (Received.over b old).sname = cstr (b.drop CP_SIZE) := by
  have hbuf : (Received.over b old).buf.drop CP_SIZE =
      b.drop CP_SIZE ++ 0 :: (Received.over b old).stale := by
    rw [Received.buf, Received.over, List.drop_append_of_le_length h]
  rw [Received.sname, hbuf, cstr, cstr, List.takeWhile_append]
  split
  · rename_i hall
    rw [(List.takeWhile_prefix _).eq_of_length hall]
    simp
  · rfl

theorem data_over {len : Nat} (hlt : b.length < RECV_SIZE) (h : DP_SIZE + len ≤ b.length + 1) :
    (Received.over b old).data len = some (((b ++ [0]).drop DP_SIZE).take len) := by
  have hbuf : (Received.over b old).buf = (b ++ [0]) ++ (Received.over b old).stale := by
    simp [Received.buf, Received.over]
  rw [Received.data, if_pos (by rw [length_over hlt]; omega), hbuf,
    List.drop_append_of_le_length (by simp only [List.length_append, List.length_singleton]; omega),
    List.take_append_of_le_length]
  simp only [List.length_drop, List.length_append, List.length_singleton]
  omega

/-- Old contents that hold `name` where a `CONNECT` has the service name. -/
def spelling (name : Bytes) (i : Nat) : UInt8 := name.getD (i - CP_SIZE) 0

/-- A `CONNECT` that ends before the name has the name that the old contents spell. -/
theorem sname_spelling {name : Bytes} (h : b.length < CP_SIZE) (hz : 0 ∉ name)
    (hlen : CP_SIZE + name.length ≤ RECV_SIZE) :
    (Received.over b (spelling name)).sname = name := by
  have hcp : CP_SIZE = 12 := rfl
  have hrecv : RECV_SIZE = 10240 := rfl
  have hbuf : (Received.over b (spelling name)).buf.length = RECV_SIZE :=
    length_over (by omega)
  have hdrop : (Received.over b (spelling name)).buf.drop CP_SIZE =
      name ++ List.replicate (RECV_SIZE - CP_SIZE - name.length) 0 := by
    apply List.ext_getElem
    · simp only [List.length_drop, List.length_append, List.length_replicate, hbuf]
      omega
    · intro i h1 h2
      rw [List.length_drop, hbuf] at h1
      rw [List.getElem_drop, ← List.getD_eq_getElem _ 0, getD_over_gt (by omega) (by omega),
        spelling, Nat.add_sub_cancel_left, List.getElem_append]
      split
      · rw [List.getD_eq_getElem]
      · rename_i hge
        rw [List.getElem_replicate, List.getD_eq_default _ _ (by omega)]
  rw [Received.sname, hdrop, cstr, List.takeWhile_append_of_pos, List.takeWhile_replicate]
  · simp
  · intro x hx
    simp only [ne_eq, decide_not, Bool.not_eq_eq_eq_not, Bool.not_true, decide_eq_false_iff_not]
    rintro rfl
    exact hz hx

/-- The bytes that a copy takes from behind the data header. -/
theorem getD_data {len j : Nat} {src : Bytes} (h : (Received.over b old).data len = some src)
    (hj : j < len) : src.getD j 0 = (Received.over b old).buf.getD (DP_SIZE + j) 0 := by
  unfold Received.data at h
  split at h
  · cases h
    rw [List.getD_eq_getElem?_getD, List.getElem?_take_of_lt hj, List.getElem?_drop,
      ← List.getD_eq_getElem?_getD]
  · cases h

theorem flen_over_lt (h : b.length = 14) : (Received.over b old).flen < 256 := by
  have hzero : (Received.over b old).byte 14 = 0 := h ▸ byte_over_length
  have hlt := (Received.over b old).byte_lt (14 + 1)
  unfold Received.flen Received.word16
  omega

/-- From ten bytes on the header up to `fnum` is there. -/
theorem agree_over (h10 : 10 ≤ b.length) (hlt : b.length < RECV_SIZE) :
    Agree (.over b old) (.over b old') where
  bytes := rfl
  length := by rw [length_over hlt, length_over hlt]
  subport := by
    unfold Received.subport
    rw [byte_over_le (i := 0) (by omega), byte_over_le (i := 1) (by omega),
      byte_over_le (i := 2) (by omega), byte_over_le (i := 3) (by omega)]
  seqno := by
    unfold Received.seqno
    rw [word16_over 4 (by omega), word16_over 6 (by omega)]
  command := by
    unfold Received.command
    rw [word16_over 8 (by omega)]
  fnum := byte_over_le h10
  fnum_pos := by
    intro hpos
    rw [over_n]
    by_contra hn
    have h : b.length = 10 := by omega
    rw [Received.fnum, ← h, byte_over_length] at hpos
    exact Nat.lt_irrefl _ hpos
  nfrags := fun h => byte_over_le h
  tlen := fun h => word16_over 12 h
  flen := fun h => word16_over 14 h
  flen_small := fun h => ⟨flen_over_lt h, flen_over_lt h⟩
  data := fun len h => by rw [data_over hlt h, data_over hlt h]
  sname := by
    intro h
    have hcp : CP_SIZE ≤ b.length := h
    rw [sname_over hcp, sname_over hcp]

end Reading

/-! ## Datagrams that are read within their bytes -/

section Arms

variable {d d' : Received} {c : CRecord} {stable : Bytes → Option Nat} {nep : Nat}

theorem CopyFits.mono {j k : Nat} (h : CopyFits c d k) (hle : j ≤ k) : CopyFits c d j := by
  obtain ⟨hrecv, p, hp, hlen⟩ := h
  exact ⟨by omega, p, hp, by omega⟩

theorem copyFragment_unfit (hbuf : d.buf.length = RECV_SIZE) (h : ¬ CopyFits c d d.flen) :
    copyFragment c d = .error (if c.resp.isSome then .outOfBounds else .nullPointer) := by
  unfold copyFragment
  cases hresp : c.resp with
  | none => rfl
  | some p =>
    dsimp only
    by_cases hrecv : DP_SIZE + d.flen ≤ d.buf.length
    · have hdata : d.data d.flen = some ((d.buf.drop DP_SIZE).take d.flen) := by
        rw [Received.data, if_pos hrecv]
      have hlen : ((d.buf.drop DP_SIZE).take d.flen).length = d.flen := by
        rw [List.length_take, List.length_drop]
        omega
      have hwrite : Buffer.write p (DP_SIZE + FR_SIZE * (d.fnum - 1))
          ((d.buf.drop DP_SIZE).take d.flen) = none := by
        rw [Buffer.write, if_neg]
        intro hle
        exact h ⟨hbuf ▸ hrecv, p, hresp, by rw [hlen] at hle; exact hle⟩
      rw [hdata]
      dsimp only
      rw [hwrite]
      rfl
    · rw [Received.data, if_neg hrecv]
      rfl

theorem copyFragment_fit (hbuf : d.buf.length = RECV_SIZE) (h : CopyFits c d d.flen) :
    ∃ p src p', c.resp = some p ∧ d.data d.flen = some src ∧ src.length = d.flen ∧
      Buffer.write p (DP_SIZE + FR_SIZE * (d.fnum - 1)) src = some p' ∧
      copyFragment c d = .ok p' := by
  obtain ⟨hrecv, p, hp, hlen⟩ := h
  have hdata : d.data d.flen = some ((d.buf.drop DP_SIZE).take d.flen) := by
    rw [Received.data, if_pos (by rw [hbuf]; exact hrecv)]
  have hlen' : ((d.buf.drop DP_SIZE).take d.flen).length = d.flen := by
    rw [List.length_take, List.length_drop]
    omega
  obtain ⟨p', hp'⟩ := Option.isSome_iff_exists.mp
    (Buffer.write_isSome.mpr (by rw [hlen']; exact hlen))
  refine ⟨p, _, p', hp, hdata, hlen', hp', ?_⟩
  unfold copyFragment
  rw [hp, hdata]
  dsimp only
  rw [hp']

theorem Agree.copyFits (h : Agree d d') (len : Nat) : CopyFits c d' len ↔ CopyFits c d len := by
  unfold CopyFits
  rw [h.fnum]

/-- The copy of a piece that is read within its bytes. -/
theorem Agree.copy (h : Agree d d') (hbuf : d.buf.length = RECV_SIZE)
    (hw : ¬ CopyFits c d 0 ∨ (d.n = 14 ∧ Discards c d ∧ CopyFits c d 255) ∨
      (15 ≤ d.n ∧ (Discards c d ∨ DP_SIZE + d.flen ≤ d.n + 1 ∨ ¬ CopyFits c d d.flen))) :
    (copyFragment c d = copyFragment c d' ∧
        (13 ≤ d.n ∨ ∃ f, copyFragment c d = .error f)) ∨
      (Discards c d ∧ 13 ≤ d.n ∧
        ∃ p p', copyFragment c d = .ok p ∧ copyFragment c d' = .ok p') := by
  have hbuf' : d'.buf.length = RECV_SIZE := h.length ▸ hbuf
  have hunfit : ¬ CopyFits c d d.flen → ¬ CopyFits c d d'.flen →
      copyFragment c d = copyFragment c d' ∧ (13 ≤ d.n ∨ ∃ f, copyFragment c d = .error f) := by
    intro hd hd'
    rw [copyFragment_unfit hbuf hd, copyFragment_unfit hbuf' (mt (h.copyFits _).mp hd')]
    exact ⟨rfl, .inr ⟨_, rfl⟩⟩
  have hfit : CopyFits c d d.flen → CopyFits c d d'.flen →
      ∃ p p', copyFragment c d = .ok p ∧ copyFragment c d' = .ok p' := by
    intro hd hd'
    obtain ⟨_, _, p, -, -, -, -, hp⟩ := copyFragment_fit hbuf hd
    obtain ⟨_, _, p', -, -, -, -, hp'⟩ := copyFragment_fit hbuf' ((h.copyFits _).mpr hd')
    exact ⟨p, p', hp, hp'⟩
  rcases hw with h0 | ⟨h14, hdis, h255⟩ | ⟨h15, hcase⟩
  · exact .inl (hunfit (fun hc => h0 (hc.mono (Nat.zero_le _)))
      fun hc => h0 (hc.mono (Nat.zero_le _)))
  · obtain ⟨hlt, hlt'⟩ := h.flen_small h14
    exact .inr ⟨hdis, by omega, hfit (h255.mono (by omega)) (h255.mono (by omega))⟩
  · have hflen := h.flen h15
    by_cases hc : CopyFits c d d.flen
    · rcases hcase with hdis | hdata | hno
      · exact .inr ⟨hdis, by omega, hfit hc (hflen ▸ hc)⟩
      · refine .inl ⟨?_, .inl (by omega)⟩
        unfold copyFragment
        rw [← hflen, ← h.data _ hdata, h.fnum]
      · exact absurd hc hno
    · exact .inl (hunfit hc (hflen ▸ hc))

theorem Agree.ackPayload (h : Agree d d') (ack : Command) (fnum nfrags : Nat) :
    ackPayload d ack fnum nfrags = ackPayload d' ack fnum nfrags := by
  unfold Rpc.ackPayload
  rw [h.subport, h.seqno]

theorem Agree.acknowledge (h : Agree d d') (h11 : 11 ≤ d.n) (cr : CRecord) (ack : Command) :
    acknowledge cr d ack d.fnum d.nfrags = acknowledge cr d' ack d'.fnum d'.nfrags := by
  unfold Rpc.acknowledge
  rw [h.ackPayload, h.fnum, h.nfrags h11]

theorem Agree.isFirstFragment (h : Agree d d') : isFirstFragment c d' ↔ isFirstFragment c d := by
  unfold Rpc.isFirstFragment
  rw [h.seqno, h.fnum]

theorem Agree.fragment (h : Agree d d') (hbuf : d.buf.length = RECV_SIZE)
    (hc : d.command = some .fragment) (hw : WithinRecord c d) :
    readerFragment c d = readerFragment c d' := by
  have hnew : ∀ cr : CRecord, 11 ≤ d.n → readerFragmentNew cr d = readerFragmentNew cr d' := by
    intro cr h11
    unfold readerFragmentNew
    rw [← h.fnum, h.acknowledge h11]
    rw [h.fnum]
  unfold readerFragment
  by_cases hf : Rpc.isFirstFragment c d
  · have h13 := hw.first ⟨hc, hf⟩
    rw [if_pos hf, if_pos (h.isFirstFragment.mpr hf), ← h.tlen h13, ← h.bytes, ← h.seqno]
    split
    · rfl
    · exact hnew _ (by omega)
  · rw [if_neg hf, if_neg (mt h.isFirstFragment.mp hf), ← h.seqno, ← h.fnum]
    by_cases hn : d.seqno = c.seqno ∧ c.state = .fackSent ∧ d.fnum = c.lastFrag + 1
    · rw [if_pos hn, if_pos hn]
      have h11 : 11 ≤ d.n := h.fnum_pos (by omega)
      rcases h.copy hbuf (hw.next ⟨hn.1, hn.2.1, hn.2.2, .inl hc⟩) with ⟨heq, -⟩ | ⟨hdis, -⟩
      · rw [← heq]
        split
        · rfl
        · exact hnew _ h11
      · rw [Discards, hc] at hdis
        cases hdis.1
    · rw [if_neg hn, if_neg hn]

theorem Agree.response (h : Agree d d') (hbuf : d.buf.length = RECV_SIZE)
    (hc : d.command = some .response) (hw : WithinRecord c d) :
    readerResponse c d = readerResponse c d' := by
  have hnew : ∀ cr : CRecord, 11 ≤ d.n → readerResponseNew cr d = readerResponseNew cr d' := by
    intro cr h11
    unfold readerResponseNew
    rw [h.acknowledge h11]
  unfold readerResponse
  rw [← h.seqno, ← h.fnum, ← h.bytes]
  by_cases hn : d.seqno = c.seqno
  · rw [if_neg (not_not.mpr hn), if_neg (not_not.mpr hn)]
    by_cases hst : c.state = .querySent ∨ c.state = .awaitingResponse
    · rw [if_pos hst, if_pos hst]
      exact hnew _ (hw.whole (.inr ⟨hc, hn, hst⟩))
    · rw [if_neg hst, if_neg hst]
      by_cases hlast : d.fnum = c.lastFrag + 1
      · have h11 : 11 ≤ d.n := h.fnum_pos (by omega)
        rw [← h.nfrags h11]
        by_cases hg : c.state = .fackSent ∧ d.fnum = c.lastFrag + 1 ∧ d.fnum = d.nfrags
        · rw [if_pos hg, if_pos hg]
          have hnext : AcceptsNext c d := ⟨hn, hg.1, hg.2.1, .inr ⟨.inr hc, hg.2.2⟩⟩
          rcases h.copy hbuf (hw.next hnext) with ⟨heq, -⟩ | ⟨hdis, -⟩
          · rw [← heq]
            split
            · rfl
            · exact hnew _ h11
          · rw [Discards, hc] at hdis
            cases hdis.1
        · rw [if_neg hg, if_neg hg]
      · rw [if_neg fun hg => hlast hg.2.1, if_neg fun hg => hlast hg.2.1]
  · rw [if_pos hn, if_pos hn]

theorem readerQueryNew_unserved (h : c.svc = none) (d : Received) (p : Buffer UInt8) (len : Nat) :
    readerQueryNew { c with resp := none } d p len =
      ⟨some (Rpc.acknowledge { c with resp := none } d .qack d.fnum d.nfrags),
        [resend (Rpc.acknowledge { c with resp := none } d .qack d.fnum d.nfrags)], none,
        some .nullPointer⟩ := by
  rcases readerQueryNew_cases { c with resp := none } d p len with ⟨-, heq⟩ | ⟨sr, hsr, -⟩
  · exact heq
  · rw [show ({ c with resp := none } : CRecord).svc = c.svc from rfl, h] at hsr
    cases hsr

theorem Agree.query (h : Agree d d') (hbuf : d.buf.length = RECV_SIZE)
    (hc : d.command = some .query) (hw : WithinRecord c d) :
    readerQuery c d = readerQuery c d' := by
  have hnew : ∀ (cr : CRecord) (p : Buffer UInt8) (len : Nat), 11 ≤ d.n →
      readerQueryNew cr d p len = readerQueryNew cr d' p len := by
    intro cr p len h11
    unfold readerQueryNew
    rw [h.acknowledge h11]
  have hn' : d.n = d'.n := congrArg List.length h.bytes
  unfold readerQuery
  rw [← h.seqno, ← h.fnum, ← h.bytes, ← hn']
  by_cases hq : seqnoNext d.seqno c.seqno ∧ (c.state = .idle ∨ c.state = .responseSent)
  · rw [if_pos hq, if_pos hq]
    exact hnew _ _ _ (hw.whole (.inl ⟨hc, hq⟩))
  · rw [if_neg hq, if_neg hq]
    by_cases hlast : d.fnum = c.lastFrag + 1
    · have h11 : 11 ≤ d.n := h.fnum_pos (by omega)
      rw [← h.nfrags h11]
      by_cases hg : d.seqno = c.seqno ∧ c.state = .fackSent ∧ d.fnum = c.lastFrag + 1 ∧
          d.fnum = d.nfrags
      · rw [if_pos hg, if_pos hg]
        have hnext : AcceptsNext c d :=
          ⟨hg.1, hg.2.1, hg.2.2.1, .inr ⟨.inl hc, hg.2.2.2⟩⟩
        rcases h.copy hbuf (hw.next hnext) with ⟨heq, hok⟩ | ⟨hdis, h13, p, p', hp, hp'⟩
        · rw [← heq]
          split
          · rfl
          · rename_i p hp
            have h13 : 13 ≤ d.n := by
              rcases hok with h13 | ⟨f, hf⟩
              · exact h13
              · rw [hp] at hf
                cases hf
            rw [← h.tlen h13]
            exact hnew _ _ _ h11
        · rw [hp, hp']
          dsimp only
          rw [readerQueryNew_unserved hdis.2, readerQueryNew_unserved hdis.2,
            h.acknowledge h11]
      · rw [if_neg hg, if_neg hg]
    · have hno : ∀ n, ¬ (d.seqno = c.seqno ∧ c.state = .fackSent ∧ d.fnum = c.lastFrag + 1 ∧
          d.fnum = n) := fun n hg => hlast hg.2.2.1
      rw [if_neg (hno _), if_neg (hno _)]

/-- The other arms read the header up to `fnum` only. -/
theorem Agree.record (h : Agree d d') (hbuf : d.buf.length = RECV_SIZE) {cmd : Command}
    (hc : d.command = some cmd) (hw : WithinRecord c d) :
    readerRecord c d cmd = readerRecord c d' cmd := by
  cases cmd with
  | query => exact h.query hbuf hc hw
  | response => exact h.response hbuf hc hw
  | fragment => exact h.fragment hbuf hc hw
  | cack => simp only [readerRecord, readerCack, h.seqno]
  | qack => simp only [readerRecord, readerQack, h.seqno]
  | rack => simp only [readerRecord, readerRack, h.seqno]
  | dack => simp only [readerRecord, readerDack, h.seqno]
  | fack => simp only [readerRecord, readerFack, h.seqno, h.fnum]
  | ping => simp only [readerRecord, readerPing, h.ackPayload]
  | seqno => simp only [readerRecord, readerSeqno, Rpc.acknowledge, h.ackPayload, h.seqno]
  | pack => rfl
  | sack => rfl
  | connect => rfl
  | disconnect => rfl

theorem Agree.name (h : Agree d d') (hn : CP_SIZE ≤ d.n) : d.name = d'.name := by
  have hchars : d.name.chars = d'.name.chars := h.sname hn
  unfold Received.name ServiceName.ofBytes at hchars ⊢
  rw [ServiceName.mk.injEq]
  exact hchars

theorem Agree.connect {stable : Bytes → Option Nat} {cr : Option CRecord} (h : Agree d d')
    (hc : d.command = some .connect) (hw : WithinConnect d) :
    readerConnect stable nep cr d = readerConnect stable nep cr d' := by
  unfold readerConnect
  simp only [← h.name (hw hc), ← h.sname (hw hc), Rpc.acknowledge, h.ackPayload, h.seqno]

end Arms

/-! ## What can be told apart -/

section Observe

variable {d d' : Received} {c : CRecord} (stable : Bytes → Option Nat) (nep : Nat)

theorem Agree.answersWhole (h : Agree d d') : AnswersWhole c d' ↔ AnswersWhole c d := by
  unfold AnswersWhole
  rw [h.command, h.seqno]

theorem Agree.acceptsFirst (h : Agree d d') : AcceptsFirst c d' ↔ AcceptsFirst c d := by
  unfold AcceptsFirst
  rw [h.command, h.isFirstFragment]

theorem Agree.acceptsNext (h : Agree d d') (hn : AcceptsNext c d) : AcceptsNext c d' := by
  obtain ⟨hseqno, hst, hf, hc⟩ := hn
  have h11 : 11 ≤ d.n := h.fnum_pos (by omega)
  exact ⟨h.seqno ▸ hseqno, hst, h.fnum ▸ hf, by rwa [← h.command, ← h.fnum, ← h.nfrags h11]⟩

/-- The answer to a whole message shows `nfrags`. -/
theorem whole_sent (hlt : d.n < RECV_SIZE) (h : AnswersWhole c d) :
    ∃ dest ack, (readerSwitch stable nep (some c) d).sent =
      [⟨dest, ackPayload d ack d.fnum d.nfrags⟩] := by
  rcases h with ⟨hc, hq⟩ | ⟨hc, hn, hst⟩
  · refine ⟨.record c.ep, .qack, ?_⟩
    have hout : readerSwitch stable nep (some c) d =
        readerQueryNew { c with seqno := d.seqno } d (d.bytes.map some) d.n := by
      unfold readerSwitch
      rw [if_neg (by omega), hc]
      exact if_pos hq
    rw [hout]
    rcases readerQueryNew_cases { c with seqno := d.seqno } d (d.bytes.map some) d.n with
      ⟨-, heq⟩ | ⟨sr, -, heq⟩ <;>
    · rw [heq]
      simp only [resend, acknowledge_payload]
      rfl
  · refine ⟨.record c.ep, .rack, ?_⟩
    have hout : readerSwitch stable nep (some c) d =
        readerResponseNew { c with resp := some (d.bytes.map some) } d := by
      unfold readerSwitch
      rw [if_neg (by omega), hc]
      dsimp only [readerRecord]
      rw [readerResponse, if_neg (not_not.mpr hn), if_pos hst]
    rw [hout]
    simp only [readerResponseNew, Outcome.sendAndSet, resend, acknowledge_payload]
    rfl

/-- The buffer for a first fragment shows `tlen`. -/
theorem first_resp (hlt : d.n < RECV_SIZE) (h : AcceptsFirst c d) (hn : d.n ≤ DP_SIZE) :
    ∃ c' p, (readerSwitch stable nep (some c) d).cr = some c' ∧ c'.resp = some p ∧
      p.length = DP_SIZE + d.tlen := by
  have hfit : 0 + d.bytes.length ≤ (Buffer.alloc (DP_SIZE + d.tlen) : Buffer UInt8).length := by
    have hb : d.bytes.length = d.n := rfl
    rw [Buffer.alloc, List.length_replicate]
    omega
  obtain ⟨p, hp⟩ := Option.isSome_iff_exists.mp (Buffer.write_isSome.mpr hfit)
  have hout : readerSwitch stable nep (some c) d =
      readerFragmentNew { c with seqno := d.seqno, resp := some p } d := by
    unfold readerSwitch
    rw [if_neg (by omega), h.1]
    dsimp only [readerRecord]
    rw [readerFragment, if_pos h.2, hp]
  rw [hout]
  exact ⟨_, p, rfl, rfl, by rw [Buffer.length_write hp, Buffer.alloc, List.length_replicate]⟩

/-- What the record does with a piece that it copies. -/
theorem piece_switch (hlt : d.n < RECV_SIZE) (h : AcceptsNext c d) :
    readerSwitch stable nep (some c) d =
      match copyFragment c d with
      | .error f => ⟨some c, [], none, some f⟩
      | .ok p =>
        if d.command = some .fragment then readerFragmentNew { c with resp := some p } d
        else if d.command = some .query then
          readerQueryNew { c with resp := none } d p (DP_SIZE + d.tlen)
        else readerResponseNew { c with resp := some p, lastFrag := d.fnum } d := by
  obtain ⟨hseqno, hst, hf, hc⟩ := h
  unfold readerSwitch
  rw [if_neg (by omega)]
  rcases hc with hc | ⟨hc | hc, hlast⟩
  · have hfirst : ¬ isFirstFragment c d := by
      unfold isFirstFragment
      rw [hst]
      simp
    rw [hc]
    dsimp only [readerRecord]
    rw [readerFragment, if_neg hfirst, if_pos ⟨hseqno, hst, hf⟩]
    cases copyFragment c d <;> rfl
  · have hidle : ¬ (seqnoNext d.seqno c.seqno ∧ (c.state = .idle ∨ c.state = .responseSent)) := by
      rw [hst]
      simp
    rw [hc]
    dsimp only [readerRecord]
    rw [readerQuery, if_neg hidle, if_pos ⟨hseqno, hst, hf, hlast⟩]
    cases copyFragment c d <;> rfl
  · have hsent : ¬ (c.state = .querySent ∨ c.state = .awaitingResponse) := by
      rw [hst]
      simp
    rw [hc]
    dsimp only [readerRecord]
    rw [readerResponse, if_neg (not_not.mpr hseqno), if_neg hsent, if_pos ⟨hst, hf, hlast⟩]
    cases copyFragment c d <;> rfl

/-- A piece that cannot be copied is not answered. -/
theorem piece_error {f : Fault} (hlt : d.n < RECV_SIZE) (h : AcceptsNext c d)
    (hf : copyFragment c d = .error f) :
    (readerSwitch stable nep (some c) d).sent = [] := by
  rw [piece_switch stable nep hlt h, hf]

/-- A piece that can is answered, and it is in the buffer of the record or of the queue, unless
the record has no service. -/
theorem piece_ok {p : Buffer UInt8} (hlt : d.n < RECV_SIZE) (h : AcceptsNext c d)
    (hp : copyFragment c d = .ok p) :
    ∃ m c', (readerSwitch stable nep (some c) d).sent = [m] ∧
      (readerSwitch stable nep (some c) d).cr = some c' ∧
      (¬ Discards c d → ((readerSwitch stable nep (some c) d).queued.map (·.buf)).or c'.resp =
        some p) := by
  rw [piece_switch stable nep hlt h, hp]
  dsimp only
  split
  · exact ⟨_, _, rfl, rfl, fun _ => rfl⟩
  · split
    · rename_i hc
      rcases readerQueryNew_cases { c with resp := none } d p (DP_SIZE + d.tlen) with
        ⟨hnone, heq⟩ | ⟨sr, -, heq⟩
      · rw [heq]
        exact ⟨_, _, rfl, rfl, fun hno => absurd ⟨hc, hnone⟩ hno⟩
      · rw [heq]
        exact ⟨_, _, rfl, rfl, fun _ => rfl⟩
    · exact ⟨_, _, rfl, rfl, fun _ => rfl⟩

/-- A `CONNECT` faults exactly on a name whose hash is negative. -/
theorem connect_fault (cr : Option CRecord) (hlt : d.n < RECV_SIZE)
    (hc : d.command = some .connect) : (readerSwitch stable nep cr d).fault =
      if stableIndex d.name = none then some .negativeIndex else none := by
  unfold readerSwitch
  rw [if_neg (by omega), hc]
  dsimp only
  unfold readerConnect
  split
  · rfl
  · split
    · rfl
    · cases cr with
      | none => rfl
      | some c =>
        dsimp only
        split <;> rfl

end Observe

section Effect

variable {s : Process} {addr : Vector UInt8 ADDR_SIZE} {d d' : Received}

/-- What equal effects say about the outcomes. -/
theorem effect_inj (h : s.effect addr d = s.effect addr d') (hsub : d.subport = d'.subport) :
    let o := s.lookup ⟨addr, d.subport⟩
    (s.outcome o d).sent = (s.outcome o d').sent ∧
    (s.outcome o d).queued = (s.outcome o d').queued ∧
    ∀ c c', (s.outcome o d).cr = some c → (s.outcome o d').cr = some c' → c = c' := by
  intro o
  have hrecv : s.recv addr d = s.recv addr d' := congrArg Prod.fst h
  refine ⟨?_, ?_, fun c c' hc hc' => ?_⟩
  · have hsent := congrArg Prod.snd h
    simp only [Process.effect, ← hsub] at hsent
    exact hsent
  · have hq := congrArg (·.queue) hrecv
    have hqueue : ∀ d : Received, (s.recv addr d).queue =
        s.queue ++ (s.outcome (s.lookup ⟨addr, d.subport⟩) d).queued.toList := by
      intro d
      simp only [Process.recv, Process.outcome]
      split <;> rfl
    simp only [hqueue, ← hsub, List.append_cancel_left_eq] at hq
    have hhead := congrArg List.head? hq
    rwa [Option.head?_toList, Option.head?_toList] at hhead
  · have hrec := congrArg (·.records) hrecv
    simp only [Process.outcome] at hc hc'
    simp only [Process.recv, ← hsub] at hrec
    cases ho : o with
    | none =>
      have hl : s.lookup ⟨addr, d.subport⟩ = none := ho
      rw [ho] at hc hc'
      simp only [hl, hc, hc', Process.allocate] at hrec
      have hfresh := congrFun hrec s.fresh
      rwa [Function.update_self, Function.update_self] at hfresh
    | some r =>
      have hl : s.lookup ⟨addr, d.subport⟩ = some r := ho
      rw [ho] at hc hc'
      simp only [hl, hc, hc', Process.setRecord] at hrec
      have hr := congrFun hrec r
      rwa [Function.update_self, Function.update_self] at hr

/-- Old contents that are zero but at `i`. -/
def zeroBut (i : Nat) (v : UInt8) : Nat → UInt8 := Function.update (fun _ => 0) i v

theorem SelfContained.observe {b : Bytes} {cr : Option CRecord} (h : SelfContained s addr b)
    (h10 : 10 ≤ b.length) (hlt : b.length < RECV_SIZE)
    (hcr : (s.lookup ⟨addr, (Received.over b fun _ => 0).subport⟩).map s.records = cr)
    (old old' : Nat → UInt8) :
    let out := fun old => readerSwitch s.stable s.fresh cr (.over b old)
    (out old).sent = (out old').sent ∧ (out old).queued = (out old').queued ∧
      ∀ c c', (out old).cr = some c → (out old').cr = some c' → c = c' := by
  have hsub : ∀ old, (Received.over b old).subport = (Received.over b fun _ => 0).subport :=
    fun old => (agree_over h10 hlt).subport
  have hobs := effect_inj (h old old') ((hsub old).trans (hsub old').symm)
  simp only [hsub old, Process.outcome, hcr] at hobs
  exact hobs

section Fields

variable {b : Bytes} {cr : Option CRecord} {c : CRecord}

theorem SelfContained.whole (h : SelfContained s addr b)
    (h10 : 10 ≤ b.length) (hlt : b.length < RECV_SIZE)
    (hcr : (s.lookup ⟨addr, (Received.over b fun _ => 0).subport⟩).map s.records = some c)
    (hw : AnswersWhole c (.over b fun _ => 0)) : 11 ≤ b.length := by
  by_contra hn
  have hw' : ∀ old, AnswersWhole c (.over b old) := fun old =>
    (agree_over h10 hlt).answersWhole.mpr hw
  have hnfrags : ∀ v : UInt8, (Received.over b (zeroBut 11 v)).nfrags = v.toNat := fun v => by
    rw [Received.nfrags, byte_over_gt (by omega) (by decide)]
    rfl
  obtain ⟨dest, ack, hsent⟩ := whole_sent s.stable s.fresh
    (d := .over b (zeroBut 11 0)) hlt (hw' _)
  obtain ⟨dest', ack', hsent'⟩ := whole_sent s.stable s.fresh
    (d := .over b (zeroBut 11 1)) hlt (hw' _)
  have heq := (h.observe h10 hlt hcr (zeroBut 11 0) (zeroBut 11 1)).1
  dsimp only at heq
  rw [hsent, hsent', List.cons.injEq, Sent.mk.injEq] at heq
  have hshown := congrArg (fun bytes => (⟨bytes, []⟩ : Received).nfrags) heq.1.2
  simp only [ackPayload, received_nfrags, cpComplete, hnfrags] at hshown
  cases hshown

theorem SelfContained.first (h : SelfContained s addr b)
    (h10 : 10 ≤ b.length) (hlt : b.length < RECV_SIZE)
    (hcr : (s.lookup ⟨addr, (Received.over b fun _ => 0).subport⟩).map s.records = some c)
    (hf : AcceptsFirst c (.over b fun _ => 0)) : 13 ≤ b.length := by
  by_contra hn
  have hf' : ∀ old, AcceptsFirst c (.over b old) := fun old =>
    (agree_over h10 hlt).acceptsFirst.mpr hf
  have hsmall : b.length ≤ DP_SIZE := by
    have hdp : 13 ≤ DP_SIZE := by decide
    omega
  obtain ⟨c1, p1, hc1, hp1, hlen1⟩ := first_resp s.stable s.fresh
    (d := .over b (zeroBut 13 0)) hlt (hf' _) hsmall
  obtain ⟨c2, p2, hc2, hp2, hlen2⟩ := first_resp s.stable s.fresh
    (d := .over b (zeroBut 13 1)) hlt (hf' _) hsmall
  have hceq := (h.observe h10 hlt hcr (zeroBut 13 0) (zeroBut 13 1)).2.2 c1 c2 hc1 hc2
  rw [hceq, hp2] at hp1
  cases hp1
  rw [hlen2] at hlen1
  have htlen : ∀ v : UInt8, (Received.over b (zeroBut 13 v)).tlen = v.toNat := by
    intro v
    have h12 : (Received.over b (zeroBut 13 v)).byte 12 = 0 := by
      rcases Nat.lt_or_ge b.length 12 with hlt' | hge
      · rw [byte_over_gt hlt' (by decide)]
        rfl
      · rw [show 12 = b.length by omega, byte_over_length]
    have h13 : (Received.over b (zeroBut 13 v)).byte (12 + 1) = v.toNat := by
      rw [byte_over_gt (by omega) (by decide)]
      rfl
    rw [Received.tlen, Received.word16, h12, h13]
    omega
  rw [htlen, htlen] at hlen1
  cases hlen1

/-- A piece is copied with all old contents or with none. -/
theorem SelfContained.fits (h : SelfContained s addr b)
    (h10 : 10 ≤ b.length) (hlt : b.length < RECV_SIZE)
    (hcr : (s.lookup ⟨addr, (Received.over b fun _ => 0).subport⟩).map s.records = some c)
    (hn : AcceptsNext c (.over b fun _ => 0)) {old old' : Nat → UInt8}
    (hfit : CopyFits c (.over b fun _ => 0) (Received.over b old).flen) :
    CopyFits c (.over b fun _ => 0) (Received.over b old').flen := by
  have hagree : ∀ old, Agree (.over b fun _ => 0) (.over b old) := fun old => agree_over h10 hlt
  by_contra hno
  obtain ⟨_, _, p, -, -, -, -, hp⟩ :=
    copyFragment_fit (length_over hlt) (((hagree old).copyFits _).mpr hfit)
  have hf := copyFragment_unfit (length_over hlt) (mt ((hagree old').copyFits _).mp hno)
  obtain ⟨m, c', hsent, -, -⟩ := piece_ok s.stable s.fresh (d := .over b old) hlt
    ((hagree old).acceptsNext hn) hp
  have hsent' := piece_error s.stable s.fresh (d := .over b old') hlt
    ((hagree old').acceptsNext hn) hf
  have heq := (h.observe h10 hlt hcr old old').1
  dsimp only at heq
  rw [hsent, hsent'] at heq
  cases heq

/-- Pieces of one length that the record keeps are copied alike. -/
theorem SelfContained.copied (h : SelfContained s addr b)
    (h10 : 10 ≤ b.length) (hlt : b.length < RECV_SIZE)
    (hcr : (s.lookup ⟨addr, (Received.over b fun _ => 0).subport⟩).map s.records = some c)
    (hn : AcceptsNext c (.over b fun _ => 0)) (hdis : ¬ Discards c (.over b fun _ => 0))
    {old old' : Nat → UInt8} (hflen : (Received.over b old).flen = (Received.over b old').flen)
    (hfit : CopyFits c (.over b fun _ => 0) (Received.over b old).flen) :
    (Received.over b old).data (Received.over b old).flen =
      (Received.over b old').data (Received.over b old).flen := by
  have hagree : ∀ old, Agree (.over b fun _ => 0) (.over b old) := fun old => agree_over h10 hlt
  have hdis' : ∀ old, ¬ Discards c (.over b old) := fun old hd =>
    hdis ⟨(hagree old).command.trans hd.1, hd.2⟩
  obtain ⟨buf, src, p, hbuf, hsrc, hlen, hw, hp⟩ :=
    copyFragment_fit (length_over hlt) (((hagree old).copyFits _).mpr hfit)
  obtain ⟨buf', src', p', hbuf', hsrc', hlen', hw', hp'⟩ :=
    copyFragment_fit (length_over hlt) (((hagree old').copyFits _).mpr (hflen ▸ hfit))
  obtain ⟨m, c1, -, hc1, hin⟩ := piece_ok s.stable s.fresh (d := .over b old) hlt
    ((hagree old).acceptsNext hn) hp
  obtain ⟨m', c2, -, hc2, hin'⟩ := piece_ok s.stable s.fresh (d := .over b old') hlt
    ((hagree old').acceptsNext hn) hp'
  obtain ⟨-, hqueued, hcreq⟩ := h.observe h10 hlt hcr old old'
  have hpeq : p = p' := by
    have hl := hin (hdis' _)
    have hl' := hin' (hdis' _)
    dsimp only at hqueued
    rw [hqueued, hcreq c1 c2 hc1 hc2, hl'] at hl
    exact (Option.some.inj hl).symm
  subst hpeq
  rw [hbuf] at hbuf'
  cases hbuf'
  rw [← (hagree old).fnum] at hw
  rw [← (hagree old').fnum] at hw'
  rw [hsrc, hflen, hsrc', Buffer.write_inj hw hw' (by rw [hlen, hlen', hflen])]

/-- A piece that the record keeps lies in the datagram. -/
theorem SelfContained.covers (h : SelfContained s addr b)
    (h10 : 10 ≤ b.length) (hlt : b.length < RECV_SIZE)
    (hcr : (s.lookup ⟨addr, (Received.over b fun _ => 0).subport⟩).map s.records = some c)
    (hn : AcceptsNext c (.over b fun _ => 0)) (hdis : ¬ Discards c (.over b fun _ => 0))
    {old : Nat → UInt8} (hfit : CopyFits c (.over b fun _ => 0) (Received.over b old).flen)
    {j : Nat} (hj : j < (Received.over b old).flen) : DP_SIZE + j ≤ b.length := by
  by_contra hout
  have hi : DP_SIZE + j < RECV_SIZE := by
    have hrecv := hfit.1
    omega
  have hdp : DP_SIZE = 16 := rfl
  -- change the byte that the copy takes from behind the datagram
  obtain ⟨old', hold'⟩ : ∃ old', old' = Function.update old (DP_SIZE + j) (old (DP_SIZE + j) + 1) :=
    ⟨_, rfl⟩
  have hbyte : ∀ i, i < DP_SIZE → (Received.over b old).byte i = (Received.over b old').byte i := by
    intro i hlt'
    rcases Nat.lt_or_ge b.length i with hgt | hle
    · rw [byte_over_gt hgt (by omega), byte_over_gt hgt (by omega), hold',
        Function.update_of_ne (by omega)]
    · exact byte_over_le hle
  have hflen : (Received.over b old).flen = (Received.over b old').flen := by
    unfold Received.flen Received.word16
    rw [hbyte 14 (by decide), hbyte (14 + 1) (by decide)]
  have hdata := h.copied h10 hlt hcr hn hdis hflen hfit
  obtain ⟨src, hsrc⟩ : ∃ src, (Received.over b old).data (Received.over b old).flen = some src := by
    rw [Received.data, if_pos (by rw [length_over hlt]; exact hfit.1)]
    exact ⟨_, rfl⟩
  have hget := getD_data hsrc hj
  have hget' := getD_data (hdata ▸ hsrc) hj
  rw [hget, getD_over_gt (by omega) hi, getD_over_gt (by omega) hi, hold',
    Function.update_self] at hget'
  simp at hget'

theorem SelfContained.next (h : SelfContained s addr b)
    (h10 : 10 ≤ b.length) (hlt : b.length < RECV_SIZE)
    (hcr : (s.lookup ⟨addr, (Received.over b fun _ => 0).subport⟩).map s.records = some c)
    (hn : AcceptsNext c (.over b fun _ => 0)) : ¬ CopyFits c (.over b fun _ => 0) 0 ∨
      (b.length = 14 ∧ Discards c (.over b fun _ => 0) ∧ CopyFits c (.over b fun _ => 0) 255) ∨
      (15 ≤ b.length ∧ (Discards c (.over b fun _ => 0) ∨
        DP_SIZE + (Received.over b fun _ => 0).flen ≤ b.length + 1 ∨
        ¬ CopyFits c (.over b fun _ => 0) (Received.over b fun _ => 0).flen)) := by
  by_cases h0 : CopyFits c (.over b fun _ => 0) 0
  swap
  · exact .inl h0
  right
  have hdp : DP_SIZE = 16 := rfl
  have hzero : b.length ≤ 14 → ∀ i v, 15 ≤ i →
      (Received.over b (zeroBut i v)).byte 14 = 0 := by
    intro hle i v hi
    rcases Nat.lt_or_ge b.length 14 with hlt' | hge
    · rw [byte_over_gt hlt' (by decide), zeroBut, Function.update_of_ne (by omega)]
      rfl
    · rw [show 14 = b.length by omega, byte_over_length]
  have hflen : b.length ≤ 14 → ∀ v : UInt8,
      (Received.over b (zeroBut 15 v)).flen = v.toNat := by
    intro hle v
    have h15 : (Received.over b (zeroBut 15 v)).byte (14 + 1) = v.toNat := by
      rw [byte_over_gt (by omega) (by decide)]
      rfl
    rw [Received.flen, Received.word16, hzero hle 15 v (Nat.le_refl _), h15]
    omega
  have hfits : b.length ≤ 14 → ∀ old, CopyFits c (.over b fun _ => 0) (Received.over b old).flen :=
    fun hle old =>
      have hz : CopyFits c (.over b fun _ => 0) (Received.over b (zeroBut 15 0)).flen := by
        rw [hflen hle]
        exact h0
      h.fits h10 hlt hcr hn hz
  rcases Nat.lt_or_ge b.length 14 with h13 | h14
  · -- a high byte of `flen` that leaves the receive buffer
    have hbig := (hfits (by omega) (zeroBut 14 255)).1
    have hf : 65280 ≤ (Received.over b (zeroBut 14 255)).flen := by
      have hb : (Received.over b (zeroBut 14 255)).byte 14 = 255 := by
        rw [byte_over_gt h13 (by decide)]
        rfl
      rw [Received.flen, Received.word16, hb]
      omega
    have hrecv : RECV_SIZE = 10240 := rfl
    omega
  · rcases Nat.eq_or_lt_of_le h14 with heq | h15
    · have h255 := hfits (by omega) (zeroBut 15 255)
      rw [hflen (by omega)] at h255
      refine .inl ⟨heq.symm, ?_, h255⟩
      by_contra hdis
      have hcov := h.covers h10 hlt hcr hn hdis (hfits (by omega) (zeroBut 15 1)) (j := 0)
        (by rw [hflen (by omega)]; decide)
      omega
    · refine .inr ⟨h15, ?_⟩
      by_contra hneg
      rw [not_or, not_or, not_le, not_not] at hneg
      obtain ⟨hdis, hlong, hfit⟩ := hneg
      have hcov := h.covers h10 hlt hcr hn hdis hfit (j := b.length + 1 - DP_SIZE) (by omega)
      omega

/-- A `CONNECT` that ends before the name reads in front of the service table when the old
contents spell a name with a negative hash, and not when they spell the empty one. -/
theorem SelfContained.connect (h : SelfContained s addr b)
    (h10 : 10 ≤ b.length) (hlt : b.length < RECV_SIZE) :
    WithinConnect (.over b fun _ => 0) := by
  intro hc
  by_contra hneg
  have hshort : b.length < CP_SIZE := Nat.lt_of_not_le hneg
  have hfault : ∀ name : ServiceName, 0 ∉ name.chars → CP_SIZE + name.chars.length ≤ RECV_SIZE →
      (s.recv addr (.over b (spelling name.chars))).fault =
        if stableIndex name = none then some .negativeIndex else none := by
    intro name hz hlen
    have hcmd : (Received.over b (spelling name.chars)).command = some .connect :=
      (agree_over h10 hlt).command.symm.trans hc
    have hname : (Received.over b (spelling name.chars)).name = name := by
      have hchars := sname_spelling hshort hz hlen
      obtain ⟨chars, hterm⟩ := name
      exact (ServiceName.mk.injEq ..).mpr hchars
    have hout := connect_fault s.stable s.fresh (d := .over b (spelling name.chars))
      ((s.lookup ⟨addr, (Received.over b (spelling name.chars)).subport⟩).map s.records) hlt hcmd
    rw [hname] at hout
    exact hout
  have heq := congrArg (·.1.fault) (h (spelling [255]) (spelling []))
  have hnegative : stableIndex ⟨[255], by simp⟩ = none := by decide +kernel
  have hfirst : stableIndex ⟨[], by simp⟩ ≠ none := by decide +kernel
  have hbad := hfault ⟨[255], by simp⟩ (by decide) (by decide)
  have hempty := hfault ⟨[], by simp⟩ (by decide) (by decide)
  rw [if_pos hnegative] at hbad
  rw [if_neg hfirst] at hempty
  exact absurd (hbad.symm.trans (heq.trans hempty)) (by decide)

end Fields

end Effect

end Hwdb.Rpc
