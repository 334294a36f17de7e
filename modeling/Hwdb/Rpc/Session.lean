import Hwdb.Lib.Run
import Hwdb.Rpc.Call

/-!
# One connection between a client and a server

The client process has one connection and any number of threads in `rpc_connect`, `rpc_call`
and `rpc_disconnect`; the server process has the record of that connection, a service queue and
workers in `rpc_query` and `rpc_response`.  Each side runs its reader and its timer.  The
network is two logs that only grow: a reader may be given any datagram sent so far, at any
time, any number of times or never.

Besides the state of the program a `Session` records the history that the laws speak about:
the calls that were given a number, what they returned, what was appended to the queue, what
the workers answered.  `Packet.call` and `scall` tie datagrams and the server's record to the
call they belong to; the program does not see them.

* `Session.next` — one atomic stretch of one thread on one side.
* `sessionSystem` — the transition system.  A side that has executed an undefined operation
  takes no further step.
-/

set_option autoImplicit false

namespace Hwdb.Rpc

open Hwdb.Lib

/-- A datagram on its way, and the call its sender was at. -/
structure Packet where
  bytes : Bytes
  call : Nat
  deriving DecidableEq, Repr

/-- The datagram in a receive buffer that still holds `stale` behind it. -/
def Packet.received (p : Packet) (stale : Bytes) : Received := ⟨p.bytes, stale⟩

/-- A call that was given a sequence number. -/
structure Call where
  number : Nat
  query : Bytes
  deriving DecidableEq, Repr

/-- A client thread inside `crecord_waitForState`. -/
inductive Thread where
  | connect
  | call (call : Nat) (query : Bytes) (rsize : Nat) (wait : CallWait)
  | disconnect
  deriving DecidableEq, Repr

/-- A call that returned 1; `bytes` is missing when the copy left the response buffer. -/
structure Returned where
  call : Nat
  number : Nat
  bytes : Option (Buffer UInt8)
  deriving DecidableEq, Repr

/-- A query in the service queue: the server record it came in on (records are counted), its
sequence number, its call. -/
structure Element where
  record : Nat
  number : Nat
  call : Nat
  buf : Buffer UInt8
  size : Nat
  deriving DecidableEq, Repr

/-- A worker inside `crecord_waitForState`. -/
structure Responding where
  element : Element
  record : Nat
  rb : Bytes
  fnum : Nat
  nfrags : Nat
  deriving DecidableEq, Repr

/-- What a worker passed to `rpc_response`, and for which query. -/
structure Responded where
  call : Nat
  number : Nat
  rb : Bytes
  deriving DecidableEq, Repr

/-- What the two programs were started with. -/
structure Config where
  subport : Nat
  seqno : Nat
  svcName : Bytes
  stable : Bytes → Option Nat

structure Session where
  /-- The client's record while it is in the table. -/
  ccr : Option CRecord
  opened : Bool
  /-- `rpc_connect` returned a connection and it has not been disconnected. -/
  handle : Bool
  waiting : List Thread
  cfault : Option Fault
  c2s : List Packet
  /-- The last position of `s2c` that was delivered, 0 before the first one. -/
  cseen : Nat
  calls : List Call
  returns : List Returned
  /-- Number of renumberings, and of calls numbered since the last one. -/
  epoch : Nat
  issued : Nat
  /-- The call whose response has been accepted and not been read. -/
  unread : Option Nat
  /-- Calls whose accepted response was overwritten before it was read. -/
  lost : List Nat
  scr : Option CRecord
  /-- Number of server records created so far. -/
  born : Nat
  /-- The call of the query that the server's record is at. -/
  scall : Nat
  queue : List Element
  held : List Element
  responding : List Responding
  sfault : Option Fault
  s2c : List Packet
  sseen : Nat
  appended : List Element
  responses : List Responded
  /-- Numbers appended since the record was created or renumbered. -/
  since : List Nat
  deriving DecidableEq, Repr

/-- One atomic stretch. -/
inductive Event where
  | connect
  | call (query : Bytes) (rsize : Nat)
  | disconnect
  | resume (i : Nat)
  | crecv (i : Nat) (stale : Bytes)
  | ctick
  | srecv (i : Nat) (stale : Bytes)
  | stick
  | query (len : Nat)
  | respond (i : Nat) (rb : Bytes)
  | wresume (i : Nat)
  deriving DecidableEq, Repr

namespace Session

/-- Both processes after `rpc_init`. -/
def init : Session where
  ccr := none
  opened := false
  handle := false
  waiting := []
  cfault := none
  c2s := []
  cseen := 0
  calls := []
  returns := []
  epoch := 0
  issued := 0
  unread := none
  lost := []
  scr := none
  born := 0
  scall := 0
  queue := []
  held := []
  responding := []
  sfault := none
  s2c := []
  sseen := 0
  appended := []
  responses := []
  since := []

variable (cfg : Config) (s : Session)

def packets (call : Nat) (sent : List Sent) : List Packet := sent.map fun x => ⟨x.bytes, call⟩

/-! ## The client -/

/-- `rpc_connect` up to its wait. -/
def clientConnect : Session :=
  let (cr, sent) := rpcConnectBegin 0 cfg.subport cfg.svcName cfg.seqno
  { s with
    ccr := some cr
    opened := true
    c2s := s.c2s ++ packets s.calls.length [sent]
    waiting := s.waiting ++ [.connect] }

/-- Write back one section of `rpc_call` by the thread of call `v`. -/
def clientSection (v : Nat) (query : Bytes) (rsize : Nat) (st : CallStep) : Session :=
  let calls := s.calls ++ (st.number.map fun n => ⟨n, query⟩).toList
  let v := if st.number.isSome then calls.length else v
  { s with
    ccr := some st.cr
    calls := calls
    issued := if st.wait = some .seqno then 0 else s.issued + (calls.length - s.calls.length)
    epoch := if st.wait = some .seqno then s.epoch + 1 else s.epoch
    c2s := s.c2s ++ packets calls.length st.sent
    waiting := s.waiting ++ (st.wait.map (Thread.call v query rsize)).toList
    cfault := st.fault }

/-- What a section of `rpc_call` that waited for `w` returns. -/
def returnsOf (v : Nat) (w : CallWait) (st : CallStep) : List Returned :=
  match w, st.result, st.fault with
  | .query n, some bytes, _ => [⟨v, n, some bytes⟩]
  | .query n, none, some .outOfBounds => [⟨v, n, none⟩]
  | _, _, _ => []

/-- A waiting thread runs; `none` while the state it waits for is not there.  Its record has
been freed if it is no longer in the table. -/
def clientResume (th : Thread) : Option Session :=
  match s.ccr with
  | none => some { s with cfault := some .useAfterFree }
  | some cr =>
    match th with
    | .connect =>
      if matchedState cr [.idle, .timedout] then
        some (if cr.state = .timedout then { s with ccr := none } else { s with handle := true })
      else none
    | .call v query rsize w =>
      (rpcCallResume 0 cfg.subport cr query rsize w).map fun st =>
        { s.clientSection v query rsize st with
          returns := s.returns ++ returnsOf v w st
          unread := if s.unread = some v then none else s.unread }
    | .disconnect => if matchedState cr [.timedout] then some s else none

/-- `rpc_disconnect` up to its wait. -/
def clientDisconnect (cr : CRecord) : Session :=
  let (cr, sent) := rpcDisconnectBegin 0 cfg.subport cr
  { s with
    ccr := some cr
    handle := false
    c2s := s.c2s ++ packets s.calls.length [sent]
    waiting := s.waiting ++ [.disconnect] }

/-- The client's reader takes datagram `d`, the `i`-th that the server sent.  The client offers
no service. -/
def clientRecv (i : Nat) (d : Received) : Session :=
  let out := readerSwitch (fun _ => none) 0 s.ccr d
  { s with
    ccr := out.cr
    c2s := s.c2s ++ packets s.calls.length out.sent
    cseen := max s.cseen i
    cfault := out.fault
    unread := if d.command = some .response ∧ out.sent ≠ [] then some s.calls.length
      else s.unread
    lost := if out.cr.bind (·.resp) ≠ s.ccr.bind (·.resp) then s.lost ++ s.unread.toList
      else s.lost }

def clientTick (cr : CRecord) : Session :=
  let (cr, sent) := timerRecord cfg.subport cr
  { s with ccr := cr, c2s := s.c2s ++ packets s.calls.length sent }

/-! ## The server -/

/-- The call of the server's record after datagram `d` of call `call`. -/
def recvCall (out : Option CRecord) (d : Received) (call : Nat) : Nat :=
  match s.scr, out with
  | none, some _ => 0
  | some cr, some cr' =>
    if cr'.seqno ≠ cr.seqno ∧ d.command ≠ some .seqno then call else s.scall
  | _, none => s.scall

/-- The client is done with its last renumbering: it has numbered a call since. -/
def Renumbered : Prop := 0 < s.epoch ∧ 0 < s.issued

instance : Decidable s.Renumbered := inferInstanceAs (Decidable (_ ∧ _))

/-- Numbers appended since the last creation or renumbering after datagram `d`.  What a copy
of the `SEQNO` does when the client is done with the renumbering is not a renumbering. -/
def recvSince (out : Outcome) (d : Received) (numbers : List Nat) : List Nat :=
  if (s.scr.isNone ∧ out.cr.isSome) ∨
      (d.command = some .seqno ∧ out.sent ≠ [] ∧ ¬ s.Renumbered) then []
  else s.since ++ numbers

/-- The server's reader takes datagram `d`, the `i`-th that the client sent, at call `call`. -/
def serverRecv (i call : Nat) (d : Received) : Session :=
  let out := readerSwitch cfg.stable s.born s.scr d
  let born := if s.scr.isNone ∧ out.cr.isSome then s.born + 1 else s.born
  let scall := s.recvCall out.cr d call
  let elements := out.queued.toList.map fun q => ⟨born, d.seqno, call, q.buf, q.size⟩
  { s with
    scr := out.cr
    born := born
    scall := scall
    queue := s.queue ++ elements
    appended := s.appended ++ elements
    since := s.recvSince out d (elements.map (·.number))
    s2c := s.s2c ++ packets scall out.sent
    sseen := max s.sseen i
    sfault := out.fault }

def serverTick (cr : CRecord) : Session :=
  let (cr, sent) := timerRecord cfg.subport cr
  { s with scr := cr, s2c := s.s2c ++ packets s.scall sent }

/-- `rpc_query` with the query `e` at the head of the queue. -/
def serverQuery (e : Element) (queue : List Element) (len : Nat) : Session :=
  { s with
    queue := queue
    held := s.held ++ [e]
    sfault := match rpcQueryCopy e.buf len with
      | .error f => some f
      | .ok _ => none }

/-- Write back one section of `rpc_response` to query `e`. -/
def serverSection (e : Element) (rb : Bytes) (st : ResponseStep) : Session :=
  { s with
    scr := some st.cr
    s2c := s.s2c ++ packets s.scall st.sent
    responding := s.responding ++ (st.wait.map fun w => ⟨e, s.born, rb, w.1, w.2⟩).toList
    sfault := st.fault }

/-- `rpc_response` to query `e`; what it says counts as answered when it starts sending.  The
endpoint that `e` carries is freed with its record and is only read, for the lookup: with its old
bytes the thread finds the record that is in the table now, with others none, and then it leaves
things as a worker does that never answers. -/
def serverRespond (e : Element) (rb : Bytes) : Session :=
  match s.scr with
  | none => s
  | some cr =>
    let st := rpcResponseBegin 0 cfg.subport cr rb
    { s.serverSection e rb st with
      responses := s.responses ++ if st.sent ≠ [] then [⟨e.call, e.number, rb⟩] else [] }

/-- A waiting worker runs; its record has been freed if it is no longer the one in the
table. -/
def serverResume (w : Responding) : Option Session :=
  match s.scr with
  | none => some { s with sfault := some .useAfterFree }
  | some cr =>
    if w.record ≠ s.born then some { s with sfault := some .useAfterFree }
    else (rpcResponseResume 0 cfg.subport cr w.rb w.fnum w.nfrags).map
      (s.serverSection w.element w.rb)

/-! ## Steps -/

/-- A step of the client. -/
def clientNext : Event → Option Session
  | .connect => if s.opened then none else some (s.clientConnect cfg)
  | .call query rsize =>
    if s.handle then
      match s.ccr with
      | none => some { s with cfault := some .useAfterFree }
      | some cr => some (s.clientSection 0 query rsize (rpcCallBegin 0 cfg.subport cr query))
    else none
  | .disconnect =>
    if s.handle then
      match s.ccr with
      | none => some { s with cfault := some .useAfterFree }
      | some cr => some (s.clientDisconnect cfg cr)
    else none
  | .resume i =>
    match s.waiting[i]? with
    | none => none
    | some th => { s with waiting := s.waiting.eraseIdx i }.clientResume cfg th
  | .crecv i stale => (s.s2c[i]?).map fun p => s.clientRecv i (p.received stale)
  | .ctick => s.ccr.map (s.clientTick cfg)
  | _ => none

/-- A step of the server. -/
def serverNext : Event → Option Session
  | .srecv i stale => (s.c2s[i]?).map fun p => s.serverRecv cfg i p.call (p.received stale)
  | .stick => s.scr.map (s.serverTick cfg)
  | .query len =>
    match s.queue with
    | [] => none
    | e :: queue => some (s.serverQuery e queue len)
  | .respond i rb =>
    (s.held[i]?).map fun e => { s with held := s.held.eraseIdx i }.serverRespond cfg e rb
  | .wresume i =>
    match s.responding[i]? with
    | none => none
    | some w => { s with responding := s.responding.eraseIdx i }.serverResume cfg w
  | _ => none

/-- One step; `clientNext` and `serverNext` answer to different events. -/
def next (cfg : Config) (s : Session) (a : Event) : Option Session :=
  if s.cfault.isNone then
    match s.clientNext cfg a with
    | some t => some t
    | none => if s.sfault.isNone then s.serverNext cfg a else none
  else if s.sfault.isNone then s.serverNext cfg a else none

end Session

def sessionSystem (cfg : Config) : System Session Event := ⟨Session.init, Session.next cfg⟩

/-- A server that offers the service `HWDB`, and a client that connects to it with sequence
number `seqno`. -/
def hwdbConfig (seqno : Nat) : Config where
  subport := 65537
  seqno := seqno
  svcName := [72, 87, 68, 66]
  stable name := if name = [72, 87, 68, 66] then some 0 else none

/-- `rpc_connect`, undisturbed. -/
def connecting : List Event := [.connect, .srecv 0 [], .crecv 0 [], .resume 0]

end Hwdb.Rpc
