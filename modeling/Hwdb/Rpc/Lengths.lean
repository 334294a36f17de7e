import Mathlib.Algebra.Order.Ring.Nat
import Hwdb.Rpc.Reassembly

/-!
# Length arithmetic of the sender (`srpc.c`, `rpc_call` and `rpc_response`)

A call goes through its critical sections one after the other, each after the acknowledgement of
what the one before has sent.

* `CallRun`, `ResponseRun` — the sections of one call and the data messages that they send.
* `SendsAll` — what the messages for the given length look like to a receiver.
* `FirstPieces` — for 1 to 65535 bytes the messages are the pieces of the buffer.
* `callLengths_iff`, `responseLengths_iff` — the other lengths go wrong: 0 bytes wrap
  `qlen - 1` and read past the buffer, and from 65536 on `tlen` does not hold the length.
-/

set_option autoImplicit false

namespace Hwdb.Rpc

open Hwdb.Lib

/-! ## One call -/

/-- The messages that carry data. -/
def dataSent (sent : List Sent) : List Bytes :=
  (sent.map (·.bytes)).filter fun b => (⟨b, []⟩ : Received).command ≠ some .seqno

/-- The sections of one `rpc_call` so far; `c` is the record as a wait leaves it to the thread.  The
exit of the loop in `ST_TIMEDOUT`, which sends nothing more, is left out. -/
inductive CallRun (ep sp : Nat) (q : Bytes) (cr : CRecord) : List Bytes → CallStep → Prop where
  | start : CallRun ep sp q cr (dataSent (rpcCallBegin ep sp cr q).sent) (rpcCallBegin ep sp cr q)
  | resumed {msgs : List Bytes} {st st' : CallStep} {w : CallWait} {c : CRecord} {rsize : Nat}
      (h : CallRun ep sp q cr msgs st) (hw : st.wait = some w) (hsend : ∀ n, w ≠ .query n)
      (hc : c.state ≠ .timedout) (hst : rpcCallResume ep sp c q rsize w = some st') :
      CallRun ep sp q cr (msgs ++ dataSent st'.sent) st'

/-- The sections of one `rpc_response` so far, without the exit of the loop in `ST_TIMEDOUT`. -/
inductive ResponseRun (ep sp : Nat) (r : Bytes) (cr : CRecord) :
    List Bytes → ResponseStep → Prop where
  | start : ResponseRun ep sp r cr (dataSent (rpcResponseBegin ep sp cr r).sent)
      (rpcResponseBegin ep sp cr r)
  | resumed {msgs : List Bytes} {st st' : ResponseStep} {fnum nfrags : Nat} {c : CRecord}
      (h : ResponseRun ep sp r cr msgs st) (hw : st.wait = some (fnum, nfrags))
      (hc : c.state ≠ .timedout) (hst : rpcResponseResume ep sp c r fnum nfrags = some st') :
      ResponseRun ep sp r cr (msgs ++ dataSent st'.sent) st'

/-- The call has not sent its `QUERY` yet. -/
def CallStep.sending (st : CallStep) : Bool :=
  match st.wait with
  | some .seqno => true
  | some (.frag ..) => true
  | _ => false

/-! ## What is to be sent -/

/-- `flen` as a receiver reads it. -/
def flenOf (b : Bytes) : Nat := (⟨b, []⟩ : Received).flen

/-- Message `k` of `nfrags` for `len` bytes, as a receiver reads it. -/
structure Numbered (cmd : Command) (len nfrags k : Nat) (b : Bytes) : Prop where
  command : (⟨b, []⟩ : Received).command = some (if k = nfrags then cmd else .fragment)
  fnum : (⟨b, []⟩ : Received).fnum = k
  nfrags : (⟨b, []⟩ : Received).nfrags = nfrags
  tlen : (⟨b, []⟩ : Received).tlen = len
  size : b.length = DP_SIZE + flenOf b

/-- `msgs` are the first of the messages for `len` bytes, and all of them unless there is more
to come. -/
def SendsAll (cmd : Command) (len : Nat) (msgs : List Bytes) (more : Bool) : Prop :=
  ∃ nfrags, 1 ≤ nfrags ∧ msgs.length ≤ nfrags ∧ (more = true ↔ msgs.length < nfrags) ∧
    (∀ i b, msgs[i]? = some b → Numbered cmd len nfrags (i + 1) b) ∧
    (more = false → (msgs.map flenOf).sum = len)

/-- Every section of the call is defined and its messages are right, or it refuses. -/
def CallLengths (ep sp : Nat) (cr : CRecord) (q : Bytes) : Prop :=
  ∀ msgs st, CallRun ep sp q cr msgs st → st.fault = none ∧
    (SendsAll .query q.length msgs st.sending ∨
      (msgs = [] ∧ st.wait = none ∧ st.result = none))

/-- The same for `rpc_response`. -/
def ResponseLengths (ep sp : Nat) (cr : CRecord) (r : Bytes) : Prop :=
  ∀ msgs st, ResponseRun ep sp r cr msgs st → st.fault = none ∧
    (SendsAll .response r.length msgs st.wait.isSome ∨
      (msgs = [] ∧ st.wait = none ∧ st.ans = false))

/-! ## Pieces -/

/-- `msgs` are the first `k` pieces of `m`. -/
inductive FirstPieces (sp : Nat) (cmd : Command) (m : Bytes) : Nat → List Bytes → Prop where
  | nil : FirstPieces sp cmd m 0 []
  | snoc {k : Nat} {msgs : List Bytes} (n : Nat) (h : FirstPieces sp cmd m k msgs) :
      FirstPieces sp cmd m (k + 1) (msgs ++ [pieceMessage sp cmd n m (k + 1)])

section Pieces

variable {sp n k : Nat} {cmd : Command} {m : Bytes} {msgs : List Bytes} {more : Bool}

theorem flenOf_piece : flenOf (pieceMessage sp cmd n m k) = (piece FR_SIZE m k).length := by
  have hlen := length_piece_le FR_SIZE m k
  rw [flenOf, pieceMessage, received_flen]
  exact Nat.mod_eq_of_lt (by simp only [FR_SIZE] at hlen ⊢; omega)

theorem numbered_piece (hm : Sendable m) (hk : k ≤ pieces m) :
    Numbered cmd m.length (pieces m) k (pieceMessage sp cmd n m k) where
  command := received_piece_command
  fnum := received_piece_fnum hm hk
  nfrags := received_piece_nfrags hm
  tlen := received_piece_tlen hm
  size := by rw [flenOf_piece, pieceMessage_eq, List.length_append, pieceHeader_isHeader.1]

theorem FirstPieces.length (h : FirstPieces sp cmd m k msgs) : msgs.length = k := by
  induction h with
  | nil => rfl
  | snoc n _ ih => simp [ih]

theorem FirstPieces.numbered (hm : Sendable m) (h : FirstPieces sp cmd m k msgs)
    (hk : k ≤ pieces m) {i : Nat} {b : Bytes} (hb : msgs[i]? = some b) :
    Numbered cmd m.length (pieces m) (i + 1) b := by
  induction h with
  | nil => simp at hb
  | @snoc k msgs n h ih =>
    rw [List.getElem?_append] at hb
    split at hb
    · exact ih (by omega) hb
    · rename_i hi
      have hi' : i = k := by
        have hlt := (List.getElem?_eq_some_iff.mp hb).1
        rw [h.length] at hi hlt
        simp only [List.length_singleton] at hlt
        omega
      subst hi'
      rw [h.length, Nat.sub_self] at hb
      cases hb
      exact numbered_piece hm hk

/-- The data of the first pieces is the first part of the buffer. -/
theorem FirstPieces.sum (h : FirstPieces sp cmd m k msgs) :
    (msgs.map flenOf).sum = (m.take (FR_SIZE * k)).length := by
  induction h with
  | nil => simp
  | @snoc k msgs n _ ih =>
    have happ := congrArg List.length (take_append_piece FR_SIZE m k)
    rw [List.length_append] at happ
    rw [List.map_append, List.sum_append, ih]
    simpa [flenOf_piece] using happ

/-- **The pieces are what is to be sent.** -/
theorem FirstPieces.sendsAll (hm : Sendable m) (h : FirstPieces sp cmd m k msgs)
    (hk : k ≤ pieces m) (hmore : more = true ↔ k < pieces m) :
    SendsAll cmd m.length msgs more := by
  refine ⟨pieces m, pieceCount_pos _ _, by rw [h.length]; exact hk, by rw [h.length]; exact hmore,
    fun i b hb => h.numbered hm hk hb, fun hno => ?_⟩
  have hall : k = pieces m := by
    have hlt : ¬ k < pieces m := fun hlt => by
      rw [hmore.mpr hlt] at hno
      cases hno
    omega
  rw [h.sum, hall, take_pieceCount (by decide)]

theorem dataSent_piece (d : Dest)
    (hcmd : cmd = .query ∨ cmd = .response) :
    dataSent [⟨d, pieceMessage sp cmd n m k⟩] = [pieceMessage sp cmd n m k] := by
  have hne : pieceCommand cmd m k ≠ .seqno := by
    unfold pieceCommand
    split
    · rcases hcmd with rfl | rfl <;> decide
    · decide
  simp [dataSent, received_piece_command, hne]

end Pieces

/-! ## The next message of a loop -/

/-- What the loops build at fragment `fnum`. -/
def nextPayload (sp : Nat) (cmd : Command) (seqno : Nat) (m : Bytes) (fnum nfrags cap : Nat) :
    Option Bytes :=
  if fnum < nfrags then fragmentPayload sp seqno m fnum nfrags
  else lastPayload sp cmd seqno m fnum nfrags cap

section Next

variable {ep sp n fnum nfrags cap : Nat} {cmd : Command} {cr : CRecord} {m b : Bytes}
  {number : Option Nat}

theorem rpcCallSend_none (h : nextPayload sp .query n m fnum nfrags 65536 = none) :
    rpcCallSend ep sp cr m number n fnum nfrags = .undefined cr .outOfBounds := by
  unfold nextPayload at h
  unfold rpcCallSend
  by_cases hlt : fnum < nfrags
  · rw [if_pos hlt] at h ⊢
    rw [h]
  · rw [if_neg hlt] at h ⊢
    rw [h]

theorem rpcCallSend_some (ep : Nat) (cr : CRecord) (number : Option Nat)
    (h : nextPayload sp .query n m fnum nfrags 65536 = some b) :
    (rpcCallSend ep sp cr m number n fnum nfrags).sent = [⟨.record ep, b⟩] ∧
      (rpcCallSend ep sp cr m number n fnum nfrags).fault = none ∧
      (rpcCallSend ep sp cr m number n fnum nfrags).wait =
        some (if fnum < nfrags then .frag n fnum nfrags else .query n) := by
  unfold nextPayload at h
  unfold rpcCallSend
  by_cases hlt : fnum < nfrags
  · rw [if_pos hlt] at h
    simp [if_pos hlt, h]
  · rw [if_neg hlt] at h
    simp [if_neg hlt, h]

theorem rpcResponseSend_none (h : nextPayload sp .response cr.seqno m fnum nfrags 2147483648 =
    none) : rpcResponseSend ep sp cr m fnum nfrags =
      ⟨cr, [], none, false, some .outOfBounds⟩ := by
  unfold nextPayload at h
  unfold rpcResponseSend
  by_cases hlt : fnum < nfrags
  · rw [if_pos hlt] at h ⊢
    rw [h]
  · rw [if_neg hlt] at h ⊢
    rw [h]

theorem rpcResponseSend_some (ep : Nat)
    (h : nextPayload sp .response cr.seqno m fnum nfrags 2147483648 = some b) :
    (∃ d, (rpcResponseSend ep sp cr m fnum nfrags).sent = [⟨d, b⟩]) ∧
      (rpcResponseSend ep sp cr m fnum nfrags).fault = none ∧
      (rpcResponseSend ep sp cr m fnum nfrags).wait =
        if fnum < nfrags then some (fnum, nfrags) else none := by
  unfold nextPayload at h
  unfold rpcResponseSend
  by_cases hlt : fnum < nfrags
  · rw [if_pos hlt] at h
    simp [if_pos hlt, h]
  · rw [if_neg hlt] at h
    simp [if_neg hlt, h]

/-- For 1 to 65535 bytes the next message is the next piece. -/
theorem nextPayload_piece {k : Nat} (hm : Sendable m) (h1 : 1 ≤ k) (hk : k ≤ pieces m)
    (hcap : 1040 < cap) :
    nextPayload sp cmd n m k (pieces m) cap = some (pieceMessage sp cmd n m k) := by
  unfold nextPayload
  by_cases hlt : k < pieces m
  · rw [if_pos hlt]
    exact fragmentPayload_piece h1 hlt
  · have hlast : k = pieces m := by omega
    subst hlast
    rw [if_neg hlt]
    exact lastPayload_piece hm hcap

/-- Whatever is built says that it is part of `m.length` bytes. -/
theorem nextPayload_tlen (h : nextPayload sp cmd n m fnum nfrags cap = some b) :
    (⟨b, []⟩ : Received).tlen = m.length % 65536 := by
  unfold nextPayload at h
  split at h
  · unfold fragmentPayload at h
    dsimp only at h
    split at h
    · cases h
      exact received_tlen ..
    · cases h
  · unfold lastPayload at h
    dsimp only at h
    split at h
    · cases h
      exact received_tlen ..
    · cases h

theorem nextPayload_command (h : nextPayload sp cmd n m fnum nfrags cap = some b)
    (hcmd : cmd = .query ∨ cmd = .response) : (⟨b, []⟩ : Received).command ≠ some .seqno := by
  unfold nextPayload at h
  split at h
  · unfold fragmentPayload at h
    dsimp only at h
    split at h
    · cases h
      simp [cpComplete]
    · cases h
  · unfold lastPayload at h
    dsimp only at h
    split at h
    · cases h
      rcases hcmd with rfl | rfl <;> simp [cpComplete]
    · cases h

/-- Nothing can be built for an empty buffer. -/
theorem nextPayload_nil : nextPayload sp cmd n [] 1 (nfragsOf 0) cap = none := by
  have hn : nfragsOf 0 = 0 := by decide
  have hb : blenOf 0 0 = 1024 := by decide
  simp [nextPayload, hn, lastPayload, hb]

end Next

/-! ## Whole calls -/

section Runs

variable {ep sp n : Nat} {cmd : Command} {cr : CRecord} {m : Bytes} {msgs : List Bytes}
  {more : Bool}

/-- The invariant of a call: pieces `1` to `k` are sent and the thread waits accordingly. -/
def CallSending (sp : Nat) (m : Bytes) (msgs : List Bytes) (st : CallStep) : Prop :=
  st.fault = none ∧ ∃ k, FirstPieces sp .query m k msgs ∧
    ((st.wait = some .seqno ∧ k = 0) ∨
      ∃ n, k ≤ pieces m ∧ 1 ≤ k ∧
        st.wait = some (if k < pieces m then .frag n k (pieces m) else .query n))

theorem CallSending.of_send {k : Nat} {number : Option Nat} (hm : Sendable m)
    (h : FirstPieces sp .query m k msgs) (hk : k < pieces m) :
    CallSending sp m (msgs ++ dataSent (rpcCallSend ep sp cr m number n (k + 1) (pieces m)).sent)
      (rpcCallSend ep sp cr m number n (k + 1) (pieces m)) := by
  have hnext : nextPayload sp .query n m (k + 1) (pieces m) 65536 =
      some (pieceMessage sp .query n m (k + 1)) :=
    nextPayload_piece hm (Nat.succ_le_succ (Nat.zero_le k)) hk (by decide)
  obtain ⟨hsent, hfault, hwait⟩ := rpcCallSend_some ep cr number hnext
  refine ⟨hfault, k + 1, ?_, .inr ⟨n, hk, Nat.succ_le_succ (Nat.zero_le k), hwait⟩⟩
  rw [hsent, dataSent_piece _ (.inl rfl)]
  exact h.snoc n

theorem CallSending.of_number (hm : Sendable m) (h : FirstPieces sp .query m 0 msgs) :
    CallSending sp m (msgs ++ dataSent (rpcCallNumber ep sp cr m).sent)
      (rpcCallNumber ep sp cr m) := by
  rw [rpcCallNumber, nfragsOf_eq hm.1 hm.2]
  exact .of_send hm h (pieceCount_pos _ _)

theorem CallSending.start (hm : Sendable m) (hst : cr.state = .idle) :
    CallSending sp m (dataSent (rpcCallBegin ep sp cr m).sent) (rpcCallBegin ep sp cr m) := by
  rw [rpcCallBegin, if_pos hst]
  by_cases hlim : SEQNO_LIMIT ≤ cr.seqno
  · rw [if_pos hlim]
    refine ⟨rfl, 0, ?_, .inl ⟨rfl, rfl⟩⟩
    have hnone : ∀ d, dataSent [⟨d, controlPayload (cpComplete sp .seqno SEQNO_START 1 1)⟩] =
        [] := by simp [dataSent, cpComplete]
    rw [hnone]
    exact .nil
  · rw [if_neg hlim]
    have hnumber : CallSending sp m ([] ++ dataSent (rpcCallNumber ep sp cr m).sent)
        (rpcCallNumber ep sp cr m) := .of_number hm .nil
    simpa using hnumber

theorem CallSending.resumed {st st' : CallStep} {w : CallWait} {c : CRecord} {rsize : Nat}
    (hm : Sendable m) (h : CallSending sp m msgs st) (hw : st.wait = some w)
    (hsend : ∀ n, w ≠ .query n) (hc : c.state ≠ .timedout)
    (hst : rpcCallResume ep sp c m rsize w = some st') :
    CallSending sp m (msgs ++ dataSent st'.sent) st' := by
  obtain ⟨-, k, hp, ⟨hseqno, rfl⟩ | ⟨n, hk, h1, hwait⟩⟩ := h
  · rw [hw] at hseqno
    cases hseqno
    simp only [rpcCallResume, if_neg hc] at hst
    split at hst
    · cases hst
      exact .of_number hm hp
    · cases hst
  · rw [hw] at hwait
    by_cases hlt : k < pieces m
    · rw [if_pos hlt] at hwait
      cases hwait
      simp only [rpcCallResume, if_neg hc] at hst
      split at hst
      · cases hst
        exact .of_send hm hp hlt
      · cases hst
    · rw [if_neg hlt] at hwait
      cases hwait
      exact absurd rfl (hsend n)

theorem CallSending.sendsAll {st : CallStep} (hm : Sendable m) (h : CallSending sp m msgs st) :
    SendsAll .query m.length msgs st.sending := by
  obtain ⟨-, k, hp, ⟨hw, rfl⟩ | ⟨n, hk, -, hw⟩⟩ := h
  · have hpos : 0 < pieces m := pieceCount_pos _ _
    exact hp.sendsAll hm (Nat.zero_le _) (by simp [CallStep.sending, hw, hpos])
  · refine hp.sendsAll hm hk ?_
    by_cases hlt : k < pieces m
    · simp [CallStep.sending, hw, hlt]
    · simp [CallStep.sending, hw, hlt]

theorem CallRun.sending {st : CallStep} (hm : Sendable m) (hst : cr.state = .idle)
    (h : CallRun ep sp m cr msgs st) : CallSending sp m msgs st := by
  induction h with
  | start => exact .start hm hst
  | resumed _ hw hsend hc hres ih => exact ih.resumed hm hw hsend hc hres

/-- The invariant of a response. -/
def ResponseSending (sp : Nat) (m : Bytes) (msgs : List Bytes) (st : ResponseStep) : Prop :=
  st.fault = none ∧ ∃ k, FirstPieces sp .response m k msgs ∧ k ≤ pieces m ∧ 1 ≤ k ∧
    st.wait = if k < pieces m then some (k, pieces m) else none

theorem ResponseSending.of_send {k : Nat} (hm : Sendable m)
    (h : FirstPieces sp .response m k msgs) (hk : k < pieces m) :
    ResponseSending sp m (msgs ++ dataSent (rpcResponseSend ep sp cr m (k + 1) (pieces m)).sent)
      (rpcResponseSend ep sp cr m (k + 1) (pieces m)) := by
  have hnext : nextPayload sp .response cr.seqno m (k + 1) (pieces m) 2147483648 =
      some (pieceMessage sp .response cr.seqno m (k + 1)) :=
    nextPayload_piece hm (Nat.succ_le_succ (Nat.zero_le k)) hk (by decide)
  obtain ⟨⟨d, hsent⟩, hfault, hwait⟩ := rpcResponseSend_some ep hnext
  refine ⟨hfault, k + 1, ?_, hk, Nat.succ_le_succ (Nat.zero_le k), hwait⟩
  rw [hsent, dataSent_piece _ (.inr rfl)]
  exact h.snoc _

theorem ResponseRun.sending {st : ResponseStep} (hm : Sendable m) (hst : cr.state = .qackSent)
    (h : ResponseRun ep sp m cr msgs st) : ResponseSending sp m msgs st := by
  induction h with
  | start =>
    rw [rpcResponseBegin, if_pos hst, nfragsOf_eq hm.1 hm.2]
    have hfirst : ResponseSending sp m
        ([] ++ dataSent (rpcResponseSend ep sp cr m 1 (pieces m)).sent)
        (rpcResponseSend ep sp cr m 1 (pieces m)) := .of_send hm .nil (pieceCount_pos _ _)
    simpa using hfirst
  | @resumed msgs st st' fnum nfrags c _ hw hc hres ih =>
    obtain ⟨-, k, hp, hk, -, hwait⟩ := ih
    rw [hw] at hwait
    by_cases hlt : k < pieces m
    · rw [if_pos hlt] at hwait
      cases hwait
      simp only [rpcResponseResume, if_neg hc] at hres
      split at hres
      · cases hres
        exact .of_send hm hp hlt
      · cases hres
    · rw [if_neg hlt] at hwait
      cases hwait

theorem ResponseSending.sendsAll {st : ResponseStep} (hm : Sendable m)
    (h : ResponseSending sp m msgs st) : SendsAll .response m.length msgs st.wait.isSome := by
  obtain ⟨-, k, hp, hk, -, hw⟩ := h
  refine hp.sendsAll hm hk ?_
  by_cases hlt : k < pieces m
  · simp [hw, hlt]
  · simp [hw, hlt]

/-! ## Other lengths -/

theorem length_of_not_sendable (hm : ¬ Sendable m) : m = [] ∨ 65536 ≤ m.length := by
  cases m with
  | nil => exact .inl rfl
  | cons x m =>
    right
    unfold Sendable at hm
    simp only [List.length_cons] at hm ⊢
    omega

/-- The first message for any other length cannot be built or is wrong. -/
theorem nextPayload_wrong {cap : Nat} {b : Bytes} (hm : ¬ Sendable m)
    (h : nextPayload sp cmd n m 1 (nfragsOf m.length) cap = some b) :
    ¬ SendsAll cmd m.length [b] more := by
  rintro ⟨nfrags, -, -, -, hnum, -⟩
  have htlen := (hnum 0 b rfl).tlen
  rw [nextPayload_tlen h] at htlen
  rcases length_of_not_sendable hm with rfl | hlong
  · rw [List.length_nil, nextPayload_nil] at h
    cases h
  · omega

theorem rpcCallNumber_wrong (hm : ¬ Sendable m)
    (h : (rpcCallNumber ep sp cr m).fault = none) :
    ∃ b, dataSent (rpcCallNumber ep sp cr m).sent = [b] ∧ ¬ SendsAll .query m.length [b] more := by
  unfold rpcCallNumber at h ⊢
  cases hb : nextPayload sp .query (seqnoSucc cr.seqno) m 1 (nfragsOf m.length) 65536 with
  | none =>
    rw [rpcCallSend_none hb] at h
    cases h
  | some b =>
    refine ⟨b, ?_, nextPayload_wrong hm hb⟩
    rw [(rpcCallSend_some _ _ _ hb).1]
    simp [dataSent, nextPayload_command hb (.inl rfl)]

/-- Every call comes to its first data message. -/
theorem exists_run_number (ep sp : Nat) (m : Bytes) (hst : cr.state = .idle) : ∃ c,
    CallRun ep sp m cr (dataSent (rpcCallNumber ep sp c m).sent) (rpcCallNumber ep sp c m) := by
  have hstart : CallRun ep sp m cr _ _ := .start
  rw [rpcCallBegin, if_pos hst] at hstart
  by_cases hlim : SEQNO_LIMIT ≤ cr.seqno
  · rw [if_pos hlim] at hstart
    have hres : rpcCallResume ep sp cr m 0 .seqno = some (rpcCallNumber ep sp cr m) := by
      simp [rpcCallResume, matchedState, hst]
    have hnone : ∀ d, dataSent [⟨d, controlPayload (cpComplete sp .seqno SEQNO_START 1 1)⟩] =
        [] := by simp [dataSent, cpComplete]
    have hrun := hstart.resumed rfl nofun (by rw [hst]; decide) hres
    rw [hnone] at hrun
    exact ⟨cr, hrun⟩
  · rw [if_neg hlim] at hstart
    exact ⟨cr, hstart⟩

theorem not_callLengths (hst : cr.state = .idle) (hm : ¬ Sendable m) :
    ¬ CallLengths ep sp cr m := by
  intro h
  obtain ⟨c, hrun⟩ := exists_run_number ep sp m hst
  obtain ⟨hfault, hok⟩ := h _ _ hrun
  obtain ⟨b, hb, hwrong⟩ := rpcCallNumber_wrong hm hfault
  rw [hb] at hok
  rcases hok with hok | ⟨hnil, -⟩
  · exact hwrong hok
  · cases hnil

theorem not_responseLengths (hst : cr.state = .qackSent) (hm : ¬ Sendable m) :
    ¬ ResponseLengths ep sp cr m := by
  intro h
  have hrun : ResponseRun ep sp m cr _ _ := .start
  rw [rpcResponseBegin, if_pos hst] at hrun
  obtain ⟨hfault, hok⟩ := h _ _ hrun
  cases hb : nextPayload sp .response cr.seqno m 1 (nfragsOf m.length) 2147483648 with
  | none =>
    rw [rpcResponseSend_none hb] at hfault
    cases hfault
  | some b =>
    obtain ⟨⟨d, hsent⟩, -, -⟩ := rpcResponseSend_some ep hb
    have hdata : dataSent [⟨d, b⟩] = [b] := by
      simp [dataSent, nextPayload_command hb (.inr rfl)]
    rw [hsent, hdata] at hok
    rcases hok with hok | ⟨hnil, -⟩
    · exact nextPayload_wrong hm hb hok
    · cases hnil

/-- **`rpc_call` and `rpc_response` send what they are given exactly for 1 to 65535 bytes.** -/
theorem sender_lengths_iff {cr cr' : CRecord} (ep sp : Nat) (m : Bytes) (hst : cr.state = .idle)
    (hst' : cr'.state = .qackSent) :
    (CallLengths ep sp cr m ↔ 1 ≤ m.length ∧ m.length ≤ 65535) ∧
      (ResponseLengths ep sp cr' m ↔ 1 ≤ m.length ∧ m.length ≤ 65535) := by
  constructor
  · constructor
    · exact fun h => Decidable.by_contra fun hm => not_callLengths hst hm h
    · intro hm msgs st hrun
      have hs := hrun.sending hm hst
      exact ⟨hs.1, .inl (hs.sendsAll hm)⟩
  · constructor
    · exact fun h => Decidable.by_contra fun hm => not_responseLengths hst' hm h
    · intro hm msgs st hrun
      have hs := hrun.sending hm hst'
      exact ⟨hs.1, .inl (hs.sendsAll hm)⟩

end Runs

/-- An idle record, and one that waits for its response. -/
def idleRecord : CRecord := { crecordCreate 0 0 with state := .idle }

def answeringRecord : CRecord := { crecordCreate 0 0 with state := .qackSent }

/-- More bytes than a fragment holds. -/
def longQuery : Bytes := List.replicate 1500 7

/-- The record after the `FACK` of the first fragment of `longQuery`. -/
def fackedRecord : CRecord := { (rpcCallBegin 0 1 idleRecord longQuery).cr with
  state := .fackReceived }

/-- What the call does then. -/
def lastSection : CallStep :=
  (rpcCallResume 0 1 fackedRecord longQuery 10 (.frag 1 1 2)).getD (.fail fackedRecord)

/-- A call that sends a fragment and, after its `FACK`, a `QUERY`. -/
theorem sender_lengths_iff_twoPieces : ∃ msgs st, CallRun 0 1 longQuery idleRecord msgs st ∧
    msgs.map (fun b => (⟨b, []⟩ : Received).command) = [some .fragment, some .query] ∧
    msgs.map flenOf = [1024, 476] ∧ st.fault = none ∧
    CallLengths 0 1 idleRecord longQuery ∧ ResponseLengths 0 1 answeringRecord longQuery := by
  have hresume : rpcCallResume 0 1 fackedRecord longQuery 10 (.frag 1 1 2) = some lastSection := by
    decide +kernel
  have hrun : CallRun 0 1 longQuery idleRecord _ lastSection :=
    CallRun.start.resumed (by decide +kernel : _ = some (CallWait.frag 1 1 2))
      (fun n h => (by cases h)) (by decide +kernel : fackedRecord.state ≠ .timedout) hresume
  have hsent : 1 ≤ longQuery.length ∧ longQuery.length ≤ 65535 := by
    rw [longQuery, List.length_replicate]
    decide
  obtain ⟨hcall, hresponse⟩ := sender_lengths_iff 0 1 longQuery
    (show idleRecord.state = .idle from rfl) (show answeringRecord.state = .qackSent from rfl)
  have hlengths := hcall.mpr hsent
  exact ⟨_, _, hrun, by decide +kernel, by decide +kernel, (hlengths _ _ hrun).1, hlengths,
    hresponse.mpr hsent⟩

/-- A call with an empty query reads past its buffer. -/
theorem empty_query_overreads :
    ¬ CallLengths 0 1 { crecordCreate 0 0 with state := .idle } [] :=
  not_callLengths rfl (by decide)

end Hwdb.Rpc
