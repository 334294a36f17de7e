import Hwdb.Lib.Run
import Hwdb.Lib.Buffer
import Hwdb.Lib.Chains
import Hwdb.Lib.Linked
import Hwdb.Lib.Deque
import Hwdb.Lib.Fifo
import Hwdb.Lib.Text
import Hwdb.Rpc.Wire
import Hwdb.Rpc.Tslist
import Hwdb.Rpc.Record
import Hwdb.Rpc.Reader
import Hwdb.Rpc.Call
import Hwdb.Rpc.Receipt
import Hwdb.Rpc.Table
import Hwdb.Rpc.Schedule
import Hwdb.Rpc.Stable
import Hwdb.Rpc.Offer
import Hwdb.Rpc.Process
import Hwdb.Rpc.Changes
import Hwdb.Rpc.Echo
import Hwdb.Rpc.Lifetime
import Hwdb.Rpc.Subports
import Hwdb.Rpc.Reassembly
import Hwdb.Rpc.Lengths
import Hwdb.Rpc.Session
import Hwdb.Rpc.Steps
import Hwdb.Rpc.Provenance
import Hwdb.Rpc.Roles
import Hwdb.Rpc.Sends
import Hwdb.Rpc.Numbers
import Hwdb.Rpc.Delivery
import Hwdb.Rpc.Assembly
import Hwdb.Rpc.Answering
import Hwdb.Rpc.Reception
import Hwdb.Rpc.Lockstep
import Hwdb.Rpc.Complete
import Hwdb.Rpc.Renumber
import Hwdb.Rpc.Caller
import Hwdb.Rpc.Calling
import Hwdb.Rpc.Responder
import Hwdb.Rpc.Orderly
import Hwdb.Rpc.Asking
import Hwdb.Rpc.Concurrent
import Hwdb.Rpc.Retransmit
import Hwdb.Rpc.Bounds
import Hwdb.Rpc.Pointers
import Hwdb.Rpc.Leftover
import Hwdb.Dpi.Packet
import Hwdb.Dpi.Flow
import Hwdb.Dpi.Accounting
import Hwdb.Dpi.Frame
import Hwdb.Dpi.Host
import Hwdb.Dpi.Logger
import Hwdb.Persist.Rotation
import Hwdb.Rpc.Connect
import Hwdb.Dpi.HashedFlows
import Hwdb.Hashish.Walk
