import Hwdb.Rpc.Roles

/-!
# What is added to the two logs

A step adds to what a side has sent only messages that the side builds in that step: whatever a
timer or the reader sends again is in the log already.

* `ClientSends`, `Stepped.c2s` — the messages of the client.
* `ServerSends`, `Stepped.s2c` — the messages of the server.
-/

set_option autoImplicit false

namespace Hwdb.Rpc

open Hwdb.Lib

/-- A datagram that the client builds in a step from `s` to `t`. -/
inductive ClientSends (cfg : Config) (s t : Session) : Packet → Prop where
  | connect : ClientSends cfg s t
      ⟨connectPayload (cpComplete cfg.subport .connect cfg.seqno 1 1) (cstr cfg.svcName),
        s.calls.length⟩
  | disconnect {c : CRecord} (hcf : s.cfault = none) (hc : s.ccr = some c) :
    ClientSends cfg s t
      ⟨controlPayload (cpComplete cfg.subport .disconnect c.seqno 1 1), s.calls.length⟩
  | call {c : CRecord} {q : Bytes} {w : Option CallWait} {st : CallStep} {x : Sent}
      (hcf : s.cfault = none) (hc : s.ccr = some c)
      (hw : ∀ w', w = some w' → ∃ v rsize, Thread.call v q rsize w' ∈ s.waiting)
      (hst : CallSection 0 cfg.subport q c w st)
      (hcalls : t.calls = s.calls ++ (st.number.map fun n => ⟨n, q⟩).toList)
      (hx : x ∈ st.sent) : ClientSends cfg s t ⟨x.bytes, t.calls.length⟩
  | answer {p : Packet} {b : Bytes} (stale : Bytes) (hp : p ∈ s.s2c)
      (hb : IsAnswer (p.received stale) b) : ClientSends cfg s t ⟨b, s.calls.length⟩
  | ping {c : CRecord} (hcf : s.cfault = none) (hc : s.ccr = some c) : ClientSends cfg s t
      ⟨controlPayload (cpComplete cfg.subport .ping c.seqno 1 1), s.calls.length⟩

/-- A datagram that the server builds in a step from `s` to `t`. -/
inductive ServerSends (cfg : Config) (s t : Session) : Event → Packet → Prop where
  | answer {i : Nat} {stale b : Bytes} {p : Packet} (hp : s.c2s[i]? = some p)
      (hb : IsAnswer (p.received stale) b) : ServerSends cfg s t (.srecv i stale) ⟨b, t.scall⟩
  | respond {i : Nat} {rb : Bytes} {c : CRecord} {e : Element} {st : ResponseStep} {x : Sent}
      (hc : s.scr = some c) (hi : s.held[i]? = some e)
      (hst : ResponseSection 0 cfg.subport rb c none st)
      (hr : t.responses = s.responses ++ [⟨e.call, e.number, rb⟩])
      (hx : x ∈ st.sent) : ServerSends cfg s t (.respond i rb) ⟨x.bytes, s.scall⟩
  | resume {i : Nat} {c : CRecord} {w : Responding} {st : ResponseStep} {x : Sent}
      (hc : s.scr = some c) (hi : s.responding[i]? = some w) (hrecord : w.record = s.born)
      (hst : ResponseSection 0 cfg.subport w.rb c (some (w.fnum, w.nfrags)) st)
      (hx : x ∈ st.sent) : ServerSends cfg s t (.wresume i) ⟨x.bytes, s.scall⟩
  | ping {c : CRecord} (hc : s.scr = some c) : ServerSends cfg s t .stick
      ⟨controlPayload (cpComplete cfg.subport .ping c.seqno 1 1), s.scall⟩

section Sends

variable {cfg : Config} {s t : Session} {a : Event}

/-- What a tick sends is the payload or a ping under the record's number. -/
theorem Ticked.sends {sp : Nat} {c : CRecord} {o : Option CRecord} {sent : List Sent}
    (h : Ticked sp c o sent) {x : Sent} (hx : x ∈ sent) :
    x.bytes = c.payload ∨ x.bytes = controlPayload (cpComplete sp .ping c.seqno 1 1) := by
  cases h with
  | pinged q hq =>
    rw [List.mem_singleton.mp hx, ← hq.seqno]
    exact .inr rfl
  | retried q hq =>
    rw [List.mem_singleton.mp hx]
    exact .inl hq.payload
  | _ => cases hx

/-- **What the client adds.** -/
theorem Stepped.c2s (h : Stepped cfg s a t) (hk : Kinds s) :
    ∀ p ∈ t.c2s, p ∈ s.c2s ∨ ClientSends cfg s t p := by
  intro p hp
  cases h with
  | connect =>
    refine (List.mem_append.mp hp).imp id fun hp => ?_
    obtain ⟨x, hx, rfl⟩ := mem_packets.mp hp
    rw [List.mem_singleton.mp hx]
    exact .connect
  | disconnect hcf _ hc =>
    refine (List.mem_append.mp hp).imp id fun hp => ?_
    obtain ⟨x, hx, rfl⟩ := mem_packets.mp hp
    rw [List.mem_singleton.mp hx]
    exact .disconnect hcf hc
  | call q rsize hcf _ hc =>
    refine (List.mem_append.mp hp).imp id fun hp => ?_
    obtain ⟨x, hx, rfl⟩ := mem_packets.mp hp
    exact .call hcf hc (fun w' hw => by cases hw) (rpcCallBegin_section 0 cfg.subport q _) rfl hx
  | @resumed i v q rsize w c st hcf hi hc hst =>
    refine (List.mem_append.mp hp).imp id fun hp => ?_
    obtain ⟨x, hx, rfl⟩ := mem_packets.mp hp
    refine .call hcf hc (fun w' hw => ?_) (rpcCallResume_section hst) rfl hx
    cases hw
    exact ⟨v, rsize, List.mem_of_getElem? hi⟩
  | @crecv i stale d _ hd =>
    rcases List.mem_append.mp hp with hp | hp
    · exact .inl hp
    · obtain ⟨x, hx, rfl⟩ := mem_packets.mp hp
      have hh : Handled (fun _ => none) 0 (d.received stale) s.ccr _ :=
        readerSwitch_handled s.ccr
      rcases hh.answers hx with ⟨c, c', hc, -, -, hb⟩ | hb
      · rw [hb]
        exact .inl (hk.cpayload c hc)
      · exact .inr (.answer stale (List.mem_of_getElem? hd) hb)
  | @ctick c hcf hc =>
    rcases List.mem_append.mp hp with hp | hp
    · exact .inl hp
    · obtain ⟨x, hx, rfl⟩ := mem_packets.mp hp
      rcases (timerRecord_cases cfg.subport c).sends hx with hb | hb <;> rw [hb]
      · exact .inl (hk.cpayload c hc)
      · exact .inr (.ping hcf hc)
  | _ => exact .inl hp

/-- **What the server adds.** -/
theorem Stepped.s2c (h : Stepped cfg s a t) (hk : Kinds s) :
    ∀ p ∈ t.s2c, p ∈ s.s2c ∨ ServerSends cfg s t a p := by
  intro p hp
  cases h with
  | @srecv i stale d _ hd =>
    rcases List.mem_append.mp hp with hp | hp
    · exact .inl hp
    · obtain ⟨x, hx, rfl⟩ := mem_packets.mp hp
      have hh : Handled cfg.stable s.born (d.received stale) s.scr _ :=
        readerSwitch_handled s.scr
      rcases hh.answers hx with ⟨c, c', hc, hc', hn, hb⟩ | hb
      · rw [hb, hc', recvCall_eq hc hn]
        exact .inl (hk.spayload c hc)
      · exact .inr (.answer hd hb)
  | @stick c _ hc =>
    rcases List.mem_append.mp hp with hp | hp
    · exact .inl hp
    · obtain ⟨x, hx, rfl⟩ := mem_packets.mp hp
      rcases (timerRecord_cases cfg.subport c).sends hx with hb | hb <;> rw [hb]
      · exact .inl (hk.spayload c hc)
      · exact .inr (.ping hc)
  | @respond i e rb c _ hi hc =>
    rcases List.mem_append.mp hp with hp | hp
    · exact .inl hp
    · obtain ⟨x, hx, rfl⟩ := mem_packets.mp hp
      refine .inr (.respond hc hi (rpcResponseBegin_section 0 cfg.subport rb c) ?_ hx)
      have hne : (rpcResponseBegin 0 cfg.subport c rb).sent ≠ [] := List.ne_nil_of_mem hx
      simp only [hne, not_false_eq_true, ne_eq, if_true]
  | @wresumed i w c st _ hi hc hw hst =>
    rcases List.mem_append.mp hp with hp | hp
    · exact .inl hp
    · obtain ⟨x, hx, rfl⟩ := mem_packets.mp hp
      exact .inr (.resume hc hi hw (rpcResponseResume_section hst) hx)
  | _ => exact .inl hp

end Sends

end Hwdb.Rpc
