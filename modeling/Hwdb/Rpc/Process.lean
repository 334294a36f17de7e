import Hwdb.Lib.Run
import Hwdb.Rpc.Call
import Hwdb.Rpc.Table

/-!
# One process with all its connections (`srpc.c`)

The reader, the timer and any number of threads inside `rpc_connect`, `rpc_call`,
`rpc_disconnect`, `rpc_query` and `rpc_response`.  Each stretch under the table mutex is one
step; the datagrams that arrive, the order of the threads and the moment a woken thread gets
the mutex back are chosen by the actions.

Every connection allocates a `CRecord` and an `RpcEndpoint`; the two get the same number.
Memory is never reused: `mem_free` counts how often an object has been freed and leaves its
bytes.  What a thread finds through a handle to a freed endpoint is arbitrary (`garbage`).

* `Process`, `Act`, `Process.next` — the state, the actions, the step function.
* `processSystem` — the transition system; a process that has executed an undefined
  operation takes no further step.
-/

set_option autoImplicit false

namespace Hwdb.Rpc

open Hwdb.Lib

/-- What a thread inside `crecord_waitForState` does next; the locals it still needs. -/
inductive Wait where
  | connect
  | call (ep : Nat) (query : Bytes) (rsize : Nat) (wait : CallWait)
  | disconnect
  | response (ep : Nat) (rb : Bytes) (fnum nfrags : Nat)
  deriving DecidableEq, Repr

/-- A thread that waits on a record, or has been woken and not yet run. -/
structure Waiter where
  record : Nat
  wait : Wait
  deriving DecidableEq, Repr

structure Process where
  /-- Number of the next allocation. -/
  fresh : Nat
  records : Nat → CRecord
  endpoints : Nat → Endpoint
  recordFrees : Nat → Nat
  endpointFrees : Nat → Nat
  table : CTable Nat
  /-- `ctr` of `ctable_newSubport`. -/
  ctr : Nat
  /-- Names of the services offered. -/
  services : List Bytes
  /-- The elements of all service queues. -/
  queue : List Queued
  waiting : List Waiter
  /-- Connections that `rpc_connect` returned and nobody has passed to `rpc_disconnect`. -/
  handles : List Nat
  /-- Connections that `rpc_query` returned and nobody has passed to `rpc_response`. -/
  held : List Nat
  fault : Option Fault

/-- One atomic stretch of one thread. -/
inductive Act where
  | offer (name : Bytes)
  | recv (addr : Vector UInt8 ADDR_SIZE) (d : Received)
  | tick
  | connect (addr : Option (Vector UInt8 ADDR_SIZE)) (svcName : Bytes) (seqno : Nat)
  | call (rpc : Nat) (garbage : Endpoint) (query : Bytes) (rsize : Nat)
  | disconnect (rpc : Nat) (garbage : Endpoint)
  | query (svc len : Nat)
  | response (rpc : Nat) (garbage : Endpoint) (rb : Bytes)
  | resume (i : Nat) (garbage : Endpoint)

namespace Process

variable (s : Process)

/-- A process after `rpc_init`. -/
def init : Process where
  fresh := 0
  records := fun _ => crecordCreate 0 0
  endpoints := fun _ => ⟨Vector.replicate ADDR_SIZE 0, 0⟩
  recordFrees := fun _ => 0
  endpointFrees := fun _ => 0
  table := ctableInit
  ctr := 0
  services := []
  queue := []
  waiting := []
  handles := []
  held := []
  fault := none

def setRecord (r : Nat) (cr : CRecord) : Process :=
  { s with records := Function.update s.records r cr }

/-- `crecord_create` on a new endpoint, and `ctable_insert`. -/
def allocate (ep : Endpoint) (cr : CRecord) : Process :=
  let endpoints := Function.update s.endpoints s.fresh ep
  { s with
    fresh := s.fresh + 1
    records := Function.update s.records s.fresh cr
    endpoints := endpoints
    table := ctableInsert endpoints s.table s.fresh }

/-- What is read through a pointer to endpoint `ep`. -/
def readEndpoint (ep : Nat) (garbage : Endpoint) : Endpoint :=
  if s.endpointFrees ep = 0 then s.endpoints ep else garbage

/-- `ctable_lookup`. -/
def lookup (ep : Endpoint) : Option Nat := ctableLookup s.endpoints s.table ep

def freeEndpoint (r : Nat) : Process :=
  { s with endpointFrees := Function.update s.endpointFrees r (s.endpointFrees r + 1) }

def unlink (r : Nat) : Process := { s with table := ctableRemove s.endpoints s.table r }

/-- `ctable_remove` and `crecord_destroy`. -/
def destroy (r : Nat) : Process :=
  { (s.unlink r).freeEndpoint r with
    recordFrees := Function.update s.recordFrees r (s.recordFrees r + 1) }

/-- The search of a chain in `stable_lookup`. -/
def stable (name : Bytes) : Option Nat := s.services.idxOf? name

/-- `stable_create`. -/
def stableCreate (name : ServiceName) : Process :=
  if stableIndex name = none then { s with fault := some .negativeIndex }
  else if (s.stable name.chars).isSome then s
  else { s with services := s.services ++ [name.chars] }

/-! ## Reader and timer -/

/-- The body of the loop of `reader`. -/
def recv (addr : Vector UInt8 ADDR_SIZE) (d : Received) : Process :=
  let ep : Endpoint := ⟨addr, d.subport⟩
  let cr := s.lookup ep
  let out := readerSwitch s.stable s.fresh (cr.map s.records) d
  let s := match cr, out.cr with
    | some r, some c => s.setRecord r c
    | none, some c => s.allocate ep c
    | _, none => s
  { s with queue := s.queue ++ out.queued.toList, fault := out.fault }

/-- What one tick does to one record. -/
def tickRecord (r : Nat) : Process :=
  match (timerRecord (s.endpoints r).subport (s.records r)).1 with
  | none => s.destroy r
  | some c => s.setRecord r c

/-- The body of the loop of `timer`, on the records in the order of `ctable_scan`. -/
def tick : Process := (Chains.entries s.table).foldl tickRecord s

/-! ## The API -/

/-- `ctable_newSubport`: an `int` converted to `unsigned long`. -/
def ctableNewSubport (pid ctr : Nat) : Nat × Nat :=
  let ctr := if 32767 < ctr + 1 then 1 else ctr + 1
  let v := pid % 65536 * 65536 + ctr
  (ctr, if v < 2147483648 then v else v + 18446744069414584320)

/-- `rpc_connect` up to its wait.  `addr` is what the resolver returned for the host. -/
def rpcConnect (pid : Nat) (addr : Option (Vector UInt8 ADDR_SIZE)) (svcName : Bytes)
    (seqno : Nat) : Process :=
  let (ctr, subport) := ctableNewSubport pid s.ctr
  let s := { s with ctr := ctr }
  match addr with
  | none => { s with fault := some .nullPointer }
  | some addr =>
    let cr := (rpcConnectBegin s.fresh subport svcName seqno).1
    { s.allocate ⟨addr, subport⟩ cr with
      waiting := s.waiting ++ [⟨s.fresh, .connect⟩] }

/-- Write back one section of `rpc_call`. -/
def finishCall (r ep : Nat) (query : Bytes) (rsize : Nat) (st : CallStep) : Process :=
  { s.setRecord r st.cr with
    waiting := s.waiting ++ (st.wait.map fun w => ⟨r, .call ep query rsize w⟩).toList
    fault := st.fault }

/-- `rpc_call` up to its first wait. -/
def rpcCall (rpc : Nat) (garbage : Endpoint) (query : Bytes) (rsize : Nat) : Process :=
  let ep := s.readEndpoint rpc garbage
  match s.lookup ep with
  | none => s
  | some r => s.finishCall r rpc query rsize (rpcCallBegin rpc ep.subport (s.records r) query)

/-- `rpc_disconnect` up to its wait. -/
def rpcDisconnect (rpc : Nat) (garbage : Endpoint) : Process :=
  let ep := s.readEndpoint rpc garbage
  match s.lookup ep with
  | none => { s with handles := s.handles.erase rpc }
  | some r =>
    { s.setRecord r (rpcDisconnectBegin rpc ep.subport (s.records r)).1 with
      handles := s.handles.erase rpc
      waiting := s.waiting ++ [⟨r, .disconnect⟩] }

/-- `rpc_query` on service `svc`; blocked while its queue is empty. -/
def rpcQuery (svc len : Nat) : Option Process :=
  (s.queue.find? (·.svc == svc)).map fun q =>
    { s with
      queue := s.queue.erase q
      held := s.held ++ [q.ep]
      fault := match rpcQueryCopy q.buf len with
        | .error f => some f
        | .ok _ => none }

/-- Write back one section of `rpc_response`; the answer is there unless the thread waits. -/
def finishResponse (r ep : Nat) (rb : Bytes) (st : ResponseStep) : Process × Option Bool :=
  ({ s.setRecord r st.cr with
      waiting := s.waiting ++ (st.wait.map fun w => ⟨r, .response ep rb w.1 w.2⟩).toList
      fault := st.fault },
    if st.wait.isSome then none else some st.ans)

/-- `rpc_response` up to its first wait, with the value it returns if it does not wait. -/
def rpcResponse (rpc : Nat) (garbage : Endpoint) (rb : Bytes) : Process × Option Bool :=
  let ep := s.readEndpoint rpc garbage
  match s.lookup ep with
  | none => ({ s with held := s.held.erase rpc }, some false)
  | some r =>
    { s with held := s.held.erase rpc }.finishResponse r rpc rb
      (rpcResponseBegin rpc ep.subport (s.records r) rb)

/-- A waiting thread gets the mutex back; `none` while the state it waits for is not there. -/
def wake (w : Waiter) (garbage : Endpoint) : Option Process :=
  let cr := s.records w.record
  match w.wait with
  | .connect =>
    if matchedState cr [.idle, .timedout] then
      some (if cr.state = .timedout then (s.unlink w.record).freeEndpoint w.record
        else { s with handles := s.handles ++ [w.record] })
    else none
  | .call ep query rsize cw =>
    (rpcCallResume ep (s.readEndpoint ep garbage).subport cr query rsize cw).map
      (s.finishCall w.record ep query rsize)
  | .disconnect => if matchedState cr [.timedout] then some s else none
  | .response ep rb fnum nfrags =>
    (rpcResponseResume ep (s.readEndpoint ep garbage).subport cr rb fnum nfrags).map
      fun st => (s.finishResponse w.record ep rb st).1

/-- `crecord_waitForState` reads its record again, also when it has been freed meanwhile. -/
def resume (w : Waiter) (garbage : Endpoint) : Option Process :=
  if s.recordFrees w.record = 0 then s.wake w garbage
  else some { s with fault := some .useAfterFree }

/-- `stable_create` changes the names, or fails in front of the array. -/
theorem stableCreate_eq (name : ServiceName) :
    ∃ l f, (l = s.services ∨ l = s.services ++ [name.chars]) ∧
      (f = s.fault ∨ f = some .negativeIndex) ∧
      s.stableCreate name = { s with services := l, fault := f } := by
  unfold stableCreate
  split
  · exact ⟨s.services, _, .inl rfl, .inr rfl, rfl⟩
  · split
    · exact ⟨s.services, s.fault, .inl rfl, .inl rfl, rfl⟩
    · exact ⟨_, s.fault, .inr rfl, .inl rfl, rfl⟩

/-- A woken thread goes on with its record, or finds it freed. -/
theorem resume_cases {s t : Process} {w : Waiter} {g : Endpoint}
    (h : s.resume w g = some t) :
    (s.recordFrees w.record = 0 ∧ s.wake w g = some t) ∨
      (s.recordFrees w.record ≠ 0 ∧ t = { s with fault := some .useAfterFree }) := by
  unfold resume at h
  split at h
  · rename_i hlive
    exact .inl ⟨hlive, h⟩
  · rename_i hfreed
    exact .inr ⟨hfreed, (Option.some.inj h).symm⟩

/-- One step of the process with process identifier `pid`. -/
def next (pid : Nat) (s : Process) (a : Act) : Option Process :=
  if s.fault.isSome then none
  else
    match a with
    | .offer name => some (s.stableCreate (.ofBytes name))
    | .recv addr d => some (s.recv addr d)
    | .tick => some s.tick
    | .connect addr svcName seqno => some (s.rpcConnect pid addr svcName seqno)
    | .call rpc garbage query rsize =>
      if rpc ∈ s.handles then some (s.rpcCall rpc garbage query rsize) else none
    | .disconnect rpc garbage =>
      if rpc ∈ s.handles then some (s.rpcDisconnect rpc garbage) else none
    | .query svc len => s.rpcQuery svc len
    | .response rpc garbage rb =>
      if rpc ∈ s.held then some (s.rpcResponse rpc garbage rb).1 else none
    | .resume i garbage =>
      match s.waiting[i]? with
      | none => none
      | some w => { s with waiting := s.waiting.eraseIdx i }.resume w garbage

end Process

def processSystem (pid : Nat) : System Process Act := ⟨Process.init, Process.next pid⟩

end Hwdb.Rpc
