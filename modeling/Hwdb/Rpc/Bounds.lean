import Hwdb.Rpc.Changes
import Hwdb.Rpc.Lifetime
import Hwdb.Rpc.Reassembly
import Hwdb.Rpc.Steps

/-!
# Bounds of the reassembly

Which copies of the reader, of `rpc_query` and of `rpc_call` stay inside their buffers when
datagrams of any content arrive.

* `AcceptsWhole`, `AcceptsFirst`, `AcceptsNext` — the datagrams that are stored or copied.
* `FitsRecord` — the lengths that the code relies on and does not check.
* `Readable` — a buffer from which `tlen` bytes can be read; what every run with such datagrams
  keeps of all buffers.
* `reassembly_in_bounds` — no copy of such a run leaves its buffer, as long as no tick destroys a
  record under a thread.
-/

set_option autoImplicit false

namespace Hwdb.Rpc

open Hwdb.Lib

/-! ## What the reader stores -/

/-- The record stores the datagram as it is. -/
def AcceptsWhole (cr : CRecord) (d : Received) : Prop :=
  (d.command = some .query ∧ seqnoNext d.seqno cr.seqno ∧
      (cr.state = .idle ∨ cr.state = .responseSent) ∧ cr.svc.isSome) ∨
    (d.command = some .response ∧ d.seqno = cr.seqno ∧
      (cr.state = .querySent ∨ cr.state = .awaitingResponse))

/-- The record allocates a buffer for a message whose first fragment this is. -/
def AcceptsFirst (cr : CRecord) (d : Received) : Prop :=
  d.command = some .fragment ∧ isFirstFragment cr d

/-- The record copies the data of the datagram into its buffer. -/
def AcceptsNext (cr : CRecord) (d : Received) : Prop :=
  d.seqno = cr.seqno ∧ cr.state = .fackSent ∧ d.fnum = cr.lastFrag + 1 ∧
    (d.command = some .fragment ∨
      ((d.command = some .query ∨ d.command = some .response) ∧ d.fnum = d.nfrags))

/-- The lengths agree: a whole message has the `tlen` bytes it announces, a first fragment has
its header and no more than it announces, and a later piece lies in the receive buffer and in
the part of the message where its number puts it. -/
structure FitsRecord (cr : CRecord) (d : Received) : Prop where
  whole : AcceptsWhole cr d → DP_SIZE + d.tlen ≤ d.n
  first : AcceptsFirst cr d → 14 ≤ d.n ∧ d.n ≤ DP_SIZE + d.tlen
  next : AcceptsNext cr d → DP_SIZE + d.flen ≤ d.buf.length ∧
    ∀ b, cr.resp = some b → DP_SIZE + FR_SIZE * (d.fnum - 1) + d.flen ≤ b.length

instance (cr : CRecord) (d : Received) : Decidable (AcceptsWhole cr d) :=
  inferInstanceAs (Decidable (_ ∨ _))

instance (cr : CRecord) (d : Received) : Decidable (AcceptsFirst cr d) :=
  inferInstanceAs (Decidable (_ ∧ _))

instance (cr : CRecord) (d : Received) : Decidable (AcceptsNext cr d) :=
  inferInstanceAs (Decidable (_ ∧ _))

/-- Every datagram leaves room for the terminator and fits its record. -/
def Fits (s : Process) : Act → Prop
  | .recv addr d => d.n < RECV_SIZE ∧
      ∀ r, s.lookup ⟨addr, d.subport⟩ = some r → FitsRecord (s.records r) d
  | _ => True

/-- The steps that copy received bytes. -/
def Reassembles (s : Process) : Act → Prop
  | .recv .. => True
  | .query .. => True
  | .resume i _ => ∃ r ep q rsize n, s.waiting[i]? = some ⟨r, .call ep q rsize (.query n)⟩
  | _ => False

/-! ## Buffers that can be read -/

/-- `tlen` bytes of data can be read. -/
def Readable (b : Buffer UInt8) : Prop := DP_SIZE + bufferTlen b ≤ b.length

section Buffers

variable {cr : CRecord} {d : Received} {b p : Buffer UInt8}

/-- A byte that has been received, as it lies in the buffer. -/
theorem byte_eq_getD {i : Nat} (h : i < d.bytes.length) :
    d.byte i = (d.bytes.getD i 0).toNat := by
  rw [Received.byte, Received.buf, getD_append_left h]

theorem bufferTlen_of_bytes (h : 14 ≤ d.n) {l : Buffer UInt8}
    (hl : ∀ i, i < d.bytes.length → l.getD i none = some (d.bytes.getD i 0)) :
    bufferTlen l = d.tlen := by
  have hlen : 14 ≤ d.bytes.length := h
  rw [bufferTlen, hl 12 (by omega), hl 13 (by omega), Received.tlen, Received.word16,
    byte_eq_getD (by omega), byte_eq_getD (by omega)]
  rfl

theorem getD_map_some_bytes {l : Bytes} {i : Nat} (h : i < l.length) :
    (l.map some).getD i none = some (l.getD i 0) := by
  simp [List.getD_eq_getElem?_getD, List.getElem?_eq_getElem h]

theorem readable_whole (h : DP_SIZE + d.tlen ≤ d.n) : Readable (d.bytes.map some) := by
  have h14 : 14 ≤ d.n := by
    simp only [DP_SIZE] at h
    omega
  rw [Readable, bufferTlen_of_bytes h14 fun i hi => getD_map_some_bytes hi, List.length_map]
  exact h

theorem readable_first (h14 : 14 ≤ d.n) (hn : d.n ≤ DP_SIZE + d.tlen)
    (hp : Buffer.write (Buffer.alloc (DP_SIZE + d.tlen)) 0 d.bytes = some p) : Readable p := by
  rw [Buffer.write_alloc hn] at hp
  cases hp
  have hcells : ∀ i, i < d.bytes.length →
      (Buffer.filled (DP_SIZE + d.tlen) d.bytes).getD i none = some (d.bytes.getD i 0) := by
    intro i hi
    rw [← getD_map_some_bytes hi, Buffer.filled, List.getD_eq_getElem?_getD,
      List.getElem?_append_left (by simpa using hi), ← List.getD_eq_getElem?_getD]
  exact Nat.le_of_eq (by rw [bufferTlen_of_bytes h14 hcells, Buffer.length_filled hn])

/-- A write behind the header leaves `tlen` alone. -/
theorem bufferTlen_write {off : Nat} {src : Bytes} (hoff : DP_SIZE ≤ off)
    (hp : Buffer.write b off src = some p) : bufferTlen p = bufferTlen b := by
  have hoff : 16 ≤ off := hoff
  unfold Buffer.write at hp
  split at hp
  · rename_i hle
    cases hp
    have hcell : ∀ i, i < 14 → (b.take off ++ src.map some ++
        b.drop (off + src.length)).getD i none = b.getD i none := by
      intro i hi
      have hlen : i < (b.take off).length := by
        simp only [List.length_take]
        omega
      rw [List.append_assoc, List.getD_eq_getElem?_getD, List.getElem?_append_left hlen,
        List.getElem?_take, if_pos (by omega), List.getD_eq_getElem?_getD]
    rw [bufferTlen, hcell 12 (by decide), hcell 13 (by decide), bufferTlen]
  · cases hp

theorem Readable.copyFragment (hb : ∀ b, cr.resp = some b → Readable b)
    (hp : copyFragment cr d = .ok p) : Readable p := by
  unfold Rpc.copyFragment at hp
  split at hp
  · cases hp
  · rename_i b hresp
    split at hp
    · cases hp
    · split at hp
      · cases hp
      · rename_i hw
        cases hp
        have htlen := bufferTlen_write (Nat.le_add_right ..) hw
        rw [Readable, htlen, Buffer.length_write hw]
        exact hb b hresp

/-- A copy that fits is defined, unless there is no buffer. -/
theorem copyFragment_fits {f : Fault} (h : DP_SIZE + d.flen ≤ d.buf.length)
    (hfit : ∀ b, cr.resp = some b → DP_SIZE + FR_SIZE * (d.fnum - 1) + d.flen ≤ b.length)
    (hp : copyFragment cr d = .error f) : cr.resp = none ∧ f = .nullPointer := by
  unfold copyFragment at hp
  split at hp
  · rename_i hresp
    cases hp
    exact ⟨hresp, rfl⟩
  · rename_i b hresp
    have hdata : d.data d.flen = some ((d.buf.drop DP_SIZE).take d.flen) := if_pos h
    have hlen : ((d.buf.drop DP_SIZE).take d.flen).length = d.flen := by
      simp only [List.length_take, List.length_drop]
      omega
    rw [hdata] at hp
    have hsome := Buffer.write_isSome.mpr
      (Nat.le_trans (Nat.add_le_add_left (Nat.le_of_eq hlen) _) (hfit b hresp))
    split at hp
    · cases ‹_ = none›
    · rename_i src hsrc
      cases hsrc
      split at hp
      · rename_i hnone
        rw [hnone] at hsome
        cases hsome
      · cases hp

/-- Data can be copied out of a readable buffer. -/
theorem copyOut_readable (h : Readable b) (room : Nat) : ∃ o, copyOut b room = .ok o := by
  have h14 : ¬ b.length < 14 := by
    simp only [Readable, DP_SIZE] at h
    omega
  rw [copyOut, if_neg h14]
  split
  · have hle : DP_SIZE + bufferTlen b ≤ b.length := h
    rw [if_pos hle]
    exact ⟨_, rfl⟩
  · exact ⟨_, rfl⟩

end Buffers

/-! ## One datagram -/

section Reader

variable {stable : Bytes → Option Nat} {nep : Nat} {d : Received} {o : Option CRecord}
  {out : Outcome}

/-- The reader keeps the record's buffer readable. -/
theorem Handled.readable (h : Handled stable nep d o out)
    (hfit : ∀ c, o = some c → FitsRecord c d)
    (ho : ∀ c, o = some c → ∀ b, c.resp = some b → Readable b) {c' : CRecord}
    (hc : out.cr = some c') {b : Buffer UInt8} (hb : c'.resp = some b) : Readable b := by
  cases h with
  | ignored => exact ho _ hc b hb
  | terminator => exact ho _ hc b hb
  | strayName => exact ho _ hc b hb
  | created => cases hc; cases hb
  | queryWhole cr =>
    rcases readerQueryNew_cases { cr with seqno := d.seqno } d (d.bytes.map some) d.n with
      ⟨-, hq⟩ | ⟨sr, -, hq⟩ <;> rw [hq] at hc <;> cases hc <;> exact ho _ rfl b hb
  | queryLast cr p =>
    rcases readerQueryNew_cases { cr with resp := none } d p (DP_SIZE + d.tlen) with
      ⟨-, hq⟩ | ⟨sr, -, hq⟩ <;> rw [hq] at hc <;> cases hc <;> cases hb
  | responseWhole cr hcmd hn hst =>
    cases hc
    cases hb
    exact readable_whole ((hfit _ rfl).whole (.inr ⟨hcmd, hn, hst⟩))
  | responseLast cr p _ _ _ _ _ hp =>
    cases hc
    cases hb
    exact Readable.copyFragment (ho _ rfl) hp
  | disconnect =>
    cases o with
    | none => cases hc
    | some c => cases hc; exact ho _ rfl b hb
  | fragmentFirst cr p hcmd hf hp =>
    cases hc
    cases hb
    obtain ⟨h14, hle⟩ := (hfit _ rfl).first ⟨hcmd, hf⟩
    exact readable_first h14 hle hp
  | fragmentNext cr p _ _ _ _ hp =>
    cases hc
    cases hb
    exact Readable.copyFragment (ho _ rfl) hp
  | _ => cases hc; exact ho _ rfl b hb

/-- The reader queues readable buffers. -/
theorem Handled.queued_readable (h : Handled stable nep d o out)
    (hfit : ∀ c, o = some c → FitsRecord c d)
    (ho : ∀ c, o = some c → ∀ b, c.resp = some b → Readable b) {q : Queued}
    (hq : out.queued = some q) : Readable q.buf := by
  cases h with
  | queryWhole cr hcmd hn hst =>
    rcases readerQueryNew_cases { cr with seqno := d.seqno } d (d.bytes.map some) d.n with
      ⟨-, heq⟩ | ⟨sr, hsvc, heq⟩ <;> rw [heq] at hq <;> cases hq
    have hsome : cr.svc.isSome := by
      rw [show cr.svc = some sr from hsvc]
      rfl
    exact readable_whole ((hfit _ rfl).whole (.inl ⟨hcmd, hn, hst, hsome⟩))
  | queryLast cr p _ _ _ _ _ hp =>
    rcases readerQueryNew_cases { cr with resp := none } d p (DP_SIZE + d.tlen) with
      ⟨-, heq⟩ | ⟨sr, -, heq⟩ <;> rw [heq] at hq <;> cases hq
    exact Readable.copyFragment (ho _ rfl) hp
  | _ => cases hq

/-- The reader's own copies stay in bounds. -/
theorem Handled.inBounds (h : Handled stable nep d o out) (hn : d.n < RECV_SIZE)
    (hfit : ∀ c, o = some c → FitsRecord c d) : out.fault ≠ some .outOfBounds := by
  cases h with
  | terminator hle => omega
  | queryWhole cr =>
    rcases readerQueryNew_cases { cr with seqno := d.seqno } d (d.bytes.map some) d.n with
      ⟨-, heq⟩ | ⟨sr, -, heq⟩ <;> rw [heq] <;> nofun
  | queryLast cr p =>
    rcases readerQueryNew_cases { cr with resp := none } d p (DP_SIZE + d.tlen) with
      ⟨-, heq⟩ | ⟨sr, -, heq⟩ <;> rw [heq] <;> nofun
  | fragmentFault cr hcmd hf hp =>
    obtain ⟨-, hle⟩ := (hfit _ rfl).first ⟨hcmd, hf⟩
    have hsome := Buffer.write_alloc (β := UInt8) (show d.bytes.length ≤ DP_SIZE + d.tlen from hle)
    rw [hp] at hsome
    cases hsome
  | copyFault cr f hcmd hsn hst hfn hp =>
    have hnext : AcceptsNext cr d := ⟨hsn, hst, hfn, hcmd⟩
    obtain ⟨hbuf, hresp⟩ := (hfit _ rfl).next hnext
    obtain ⟨-, rfl⟩ := copyFragment_fits hbuf hresp hp
    nofun
  | _ => nofun

theorem copyFragment_fault {cr : CRecord} {f : Fault} (h : copyFragment cr d = .error f) :
    f = .nullPointer ∨ f = .outOfBounds := by
  unfold copyFragment at h
  split at h
  · exact .inl (Except.error.inj h).symm
  · split at h
    · exact .inr (Except.error.inj h).symm
    · split at h
      · exact .inr (Except.error.inj h).symm
      · cases h

/-- The reader uses only the record that the lookup found. -/
theorem Handled.live (h : Handled stable nep d o out) : out.fault ≠ some .useAfterFree := by
  cases h with
  | queryWhole cr =>
    rcases readerQueryNew_cases { cr with seqno := d.seqno } d (d.bytes.map some) d.n with
      ⟨-, heq⟩ | ⟨sr, -, heq⟩ <;> rw [heq] <;> nofun
  | queryLast cr p =>
    rcases readerQueryNew_cases { cr with resp := none } d p (DP_SIZE + d.tlen) with
      ⟨-, heq⟩ | ⟨sr, -, heq⟩ <;> rw [heq] <;> nofun
  | copyFault cr f _ _ _ _ hp => rcases copyFragment_fault hp with rfl | rfl <;> nofun
  | _ => nofun

end Reader

/-! ## The API -/

section Api

variable {ep sp : Nat} {q : Bytes} {c : CRecord}

theorem Continues.resp {w : Option CallWait} {c' : CRecord} {number : Option Nat}
    {n fnum nfrags : Nat} (h : Continues q c w c' number n fnum nfrags) : c'.resp = c.resp := by
  cases h <;> rfl

/-- `rpc_call` keeps the buffer or takes it away. -/
theorem CallSection.resp {w : Option CallWait} {st : CallStep} (h : CallSection ep sp q c w st) :
    st.cr.resp = c.resp ∨ st.cr.resp = none := by
  cases h with
  | refused => exact .inl rfl
  | timedout => exact .inl rfl
  | renumber => exact .inl rfl
  | undefined h => exact .inl h.resp
  | fragment h => exact .inl h.resp
  | query h => exact .inl h.resp
  | collected n rsize hst =>
    obtain ⟨result, fault, heq⟩ := rpcCallCollect_eq c rsize
    rw [heq]
    exact .inr rfl

theorem ResponseSection.resp {w : Option (Nat × Nat)} {st : ResponseStep}
    (h : ResponseSection ep sp q c w st) : st.cr.resp = c.resp := by
  cases h <;> rfl

theorem TimerStep.resp {c c' : CRecord} (h : TimerStep c c') : c'.resp = c.resp := by
  obtain ⟨q, hq, rfl | rfl⟩ := h.counters
  · exact hq.resp
  · exact hq.resp

/-- `rpc_call` copies out of a readable buffer. -/
theorem rpcCallCollect_inBounds (h : ∀ b, c.resp = some b → Readable b) (rsize : Nat) :
    (rpcCallCollect c rsize).fault ≠ some .outOfBounds ∧
      (rpcCallCollect c rsize).fault ≠ some .useAfterFree := by
  unfold rpcCallCollect
  split
  · split
    · exact ⟨nofun, nofun⟩
    · rename_i b hb
      obtain ⟨o, ho⟩ := copyOut_readable (h b hb) rsize
      rw [ho]
      exact ⟨nofun, nofun⟩
  · exact ⟨nofun, nofun⟩

end Api

/-! ## Whole runs -/

/-- The invariant: every buffer can be read. -/
structure AllReadable (s : Process) : Prop where
  resp : ∀ r b, (s.records r).resp = some b → Readable b
  queue : ∀ q ∈ s.queue, Readable q.buf

section Runs

variable {pid : Nat} {s t : Process} {a : Act}

theorem allReadable_init : AllReadable Process.init :=
  ⟨fun _ _ h => (nomatch h), fun _ h => (nomatch h)⟩

theorem AllReadable.changed (h : AllReadable s) (hfit : Fits s a) {r : Nat}
    (hc : Changed s a t r) {b : Buffer UInt8} (hb : (t.records r).resp = some b) :
    Readable b := by
  cases hc with
  | kept hc =>
    rw [hc] at hb
    exact h.resp r b hb
  | received ha hl hc _ =>
    subst ha
    refine (readerSwitch_handled _).readable (fun c hcr => ?_) (fun c hcr => ?_) hc hb
    · cases hcr
      exact hfit.2 r hl
    · cases hcr
      exact h.resp r
  | created _ _ hc _ =>
    exact (readerSwitch_handled _).readable (fun c hcr => by cases hcr)
      (fun c hcr => by cases hcr) hc hb
  | connected _ hc =>
    rw [hc] at hb
    cases hb
  | ticked _ hc =>
    have hresp : (t.records r).resp = (s.records r).resp := by
      generalize t.records r = c' at hc
      induction hc with
      | refl => rfl
      | tail _ hstep ih => exact hstep.resp.trans ih
    exact h.resp r b (hresp ▸ hb)
  | called _ _ hc _ =>
    rw [hc] at hb
    rcases (rpcCallBegin_section ..).resp with heq | heq
    · exact h.resp r b (heq ▸ hb)
    · rw [heq] at hb
      cases hb
  | callResumed _ _ hst hc _ =>
    rw [hc] at hb
    rcases (rpcCallResume_section hst).resp with heq | heq
    · exact h.resp r b (heq ▸ hb)
    · rw [heq] at hb
      cases hb
  | disconnected hc =>
    rw [hc] at hb
    exact h.resp r b hb
  | responded hc _ =>
    rw [hc, (rpcResponseBegin_section ..).resp] at hb
    exact h.resp r b hb
  | responseResumed _ hst hc _ =>
    rw [hc, (rpcResponseResume_section hst).resp] at hb
    exact h.resp r b hb

/-- **One step.** -/
theorem AllReadable.next (h : AllReadable s) (hfit : Fits s a)
    (ht : Process.next pid s a = some t) : AllReadable t where
  resp := fun r b hb => h.changed hfit (next_changed ht r) hb
  queue := by
    intro q hq
    rcases next_queue ht hq with hq | ⟨addr, d, r, ha, hl, hq⟩
    · exact h.queue q hq
    · subst ha
      refine (readerSwitch_handled _).queued_readable (fun c hcr => ?_) (fun c hcr => ?_) hq
      · obtain ⟨x, rfl, rfl⟩ := Option.map_eq_some_iff.mp hcr
        exact hfit.2 x hl
      · obtain ⟨x, rfl, rfl⟩ := Option.map_eq_some_iff.mp hcr
        exact h.resp x

theorem allReadable_of_reach {ok : Process → Act → Prop} (hfit : ∀ s a, ok s a → Fits s a)
    (h : (processSystem pid).Reach ok s) : AllReadable s :=
  h.invariant allReadable_init fun s a _ ih hok ht => ih.next (hfit s a hok) ht

/-- A step that copies received bytes, in a state whose buffers can be read. -/
theorem AllReadable.inBounds (h : AllReadable s) (hlive : LifetimeSafe s) (hfit : Fits s a)
    (hre : Reassembles s a) (ht : Process.next pid s a = some t) :
    t.fault ≠ some .outOfBounds ∧ t.fault ≠ some .useAfterFree := by
  unfold Process.next at ht
  split at ht
  · cases ht
  cases a with
  | recv addr d =>
    cases ht
    have hf : (s.recv addr d).fault = (s.outcome (s.lookup ⟨addr, d.subport⟩) d).fault := rfl
    rw [hf]
    refine ⟨(readerSwitch_handled _).inBounds hfit.1 fun c hcr => ?_,
      (readerSwitch_handled _).live⟩
    obtain ⟨x, hx, rfl⟩ := Option.map_eq_some_iff.mp hcr
    exact hfit.2 x hx
  | query svc len =>
    obtain ⟨q, hq, rfl⟩ := Option.map_eq_some_iff.mp ht
    obtain ⟨o, ho⟩ := copyOut_readable (h.queue q (List.mem_of_find?_eq_some hq)) len
    simp [rpcQueryCopy, ho, Except.map]
  | resume i g =>
    obtain ⟨r, ep, q, rsize, n, hi⟩ := hre
    simp only [hi] at ht
    rcases Process.resume_cases ht with ⟨-, ht⟩ | ⟨hfreed, -⟩
    case inr => exact absurd (hlive.1 _ (List.mem_of_getElem? hi)) hfreed
    obtain ⟨st, hst, rfl⟩ := Option.map_eq_some_iff.mp ht
    simp only [rpcCallResume] at hst
    split at hst
    · cases hst
      exact rpcCallCollect_inBounds (h.resp r) rsize
    · cases hst
  | offer => cases hre
  | tick => cases hre
  | connect => cases hre
  | call => cases hre
  | disconnect => cases hre
  | response => cases hre

/-- **Reassembly stays in bounds** in every run whose datagrams fit and whose ticks destroy no
record that a thread waits on: no step that stores, copies or reads received bytes leaves a buffer,
or reads one through a freed record. -/
theorem reassembly_in_bounds {es : List (Process × Act)}
    (h : (processSystem pid).Trace (fun s a => Fits s a ∧ Unwatched s a) es t) :
    ∀ e ∈ es, Reassembles e.1 e.2 → ∀ u, Process.next pid e.1 e.2 = some u →
      u.fault ≠ some .outOfBounds ∧ u.fault ≠ some .useAfterFree := by
  intro e he hre u hu
  obtain ⟨hreach, hok, -⟩ := h.mem e he
  have hreadable := allReadable_of_reach (fun _ _ hx => hx.1) hreach
  have hsafe := (watched_of_reach (hreach.mono fun _ _ hx => hx.2)).safe
  exact hreadable.inBounds hsafe hok.1 hre hu

end Runs

/-- `FitsRecord`, evaluated. -/
def fitsRecordCheck (cr : CRecord) (d : Received) : Bool :=
  decide (AcceptsWhole cr d → DP_SIZE + d.tlen ≤ d.n) &&
    decide (AcceptsFirst cr d → 14 ≤ d.n ∧ d.n ≤ DP_SIZE + d.tlen) &&
    decide (AcceptsNext cr d → DP_SIZE + d.flen ≤ d.buf.length ∧
      ∀ b ∈ cr.resp, DP_SIZE + FR_SIZE * (d.fnum - 1) + d.flen ≤ b.length)

theorem fitsRecord_of_check {cr : CRecord} {d : Received} (h : fitsRecordCheck cr d = true) :
    FitsRecord cr d := by
  simp only [fitsRecordCheck, Bool.and_eq_true, decide_eq_true_eq] at h
  exact ⟨h.1.1, h.1.2, h.2⟩

/-- `Fits` and `Unwatched`, evaluated. -/
def fitsCheck (s : Process) : Act → Bool
  | .recv addr d => decide (d.n < RECV_SIZE) && (s.lookup ⟨addr, d.subport⟩).all fun r =>
      fitsRecordCheck (s.records r) d
  | .tick => s.waiting.all fun w => decide ((s.records w.record).state ≠ .timedout)
  | _ => true

theorem fits_of_check (s : Process) (a : Act) (h : fitsCheck s a = true) :
    Fits s a ∧ Unwatched s a := by
  cases a with
  | recv addr d =>
    simp only [fitsCheck, Bool.and_eq_true, decide_eq_true_eq] at h
    refine ⟨⟨h.1, fun r hl => fitsRecord_of_check ?_⟩, trivial⟩
    have hall := h.2
    rw [hl] at hall
    exact hall
  | tick =>
    refine ⟨trivial, fun r _ hst w hw hr => ?_⟩
    have hne := of_decide_eq_true (List.all_eq_true.mp h w hw)
    exact hne (hr ▸ hst)
  | _ => exact ⟨trivial, trivial⟩

/-- A client connects to the service and sends a query of two pieces, which a worker fetches. -/
def twoPiecesServed : List Act :=
  [.offer [72], arrives .connect 0 [72, 0],
    .recv otherSide ⟨message (cpComplete 65537 .fragment 1 1 2)
      (dataBody 1025 1024 (List.replicate 1024 7)), []⟩,
    .tick,
    .recv otherSide ⟨message (cpComplete 65537 .query 1 2 2) (dataBody 1025 1 [9]), []⟩,
    .query 0 2000]

theorem reassembly_in_bounds_twoPieces :
    ∃ es t, (processSystem 1).Trace (fun s a => Fits s a ∧ Unwatched s a) es t ∧
      t.held = [0] ∧ ∀ e ∈ es, Reassembles e.1 e.2 → ∀ u, Process.next 1 e.1 e.2 = some u →
        u.fault ≠ some .outOfBounds ∧ u.fault ≠ some .useAfterFree := by
  obtain ⟨es, t, ht, hp⟩ := System.Trace.of_run (processSystem 1)
    (fun s a => Fits s a ∧ Unwatched s a) fitsCheck twoPiecesServed (fun t => t.held == [0])
    fits_of_check (by decide +kernel) (by decide +kernel)
  exact ⟨es, t, ht, eq_of_beq hp, reassembly_in_bounds ht⟩

/-- A query and a response that announces five bytes and has none. -/
def shortResponse : List Act :=
  [.connect (some otherSide) [72] 0, arrives .cack 0 [], .resume 0 ⟨otherSide, 0⟩,
    .call 0 ⟨otherSide, 0⟩ [7] 10, arrives .response 1 (dataBody 5 0 [])]

/-- `rpc_call` reads behind that response. -/
theorem short_response_overread :
    ∃ es t, (processSystem 1).Trace (fun _ _ => True) es t ∧ ∃ e ∈ es, Reassembles e.1 e.2 ∧
      ∃ u, Process.next 1 e.1 e.2 = some u ∧ u.fault = some .outOfBounds := by
  obtain ⟨es, t, ht, hp⟩ := System.Trace.of_run (processSystem 1) (fun _ _ => True)
    (fun _ _ => true) shortResponse
    (fun t => t.waiting == [⟨0, .call 0 [7] 10 (.query 1)⟩] &&
      (Process.next 1 t (.resume 0 ⟨otherSide, 0⟩)).map (·.fault) == some (some .outOfBounds))
    (fun _ _ _ => trivial) (by decide +kernel) (by decide +kernel)
  simp only [Bool.and_eq_true, beq_iff_eq] at hp
  obtain ⟨u, hu, hf⟩ := Option.map_eq_some_iff.mp hp.2
  have ht' : (processSystem 1).Trace (fun _ _ => True) (es ++ [(t, .resume 0 ⟨otherSide, 0⟩)]) u :=
    ht.snoc trivial hu
  refine ⟨_, u, ht', (t, _), by simp, ?_, u, hu, hf⟩
  exact ⟨0, 0, [7], 10, 1, by rw [hp.1]; rfl⟩

end Hwdb.Rpc
