import Ringline.Uring.Completion
import Ringline.Uring.SendSlab

/-!
# The state of one worker

A worker runs one event loop over one io_uring.  The source keeps its state in `Driver` and
`Executor`, most of it as vectors indexed by connection slot; `Worker` has the same fields, with a
vector indexed by slot as a function on slots, and with the vectors that always change together
(the receive side, the park side, the waiters of the slot's task) grouped into one record per slot.

The kernel is seen through `Ring`: the submissions it has taken and not yet completed, and the
answers it will give to the next pushes.  A push can be refused when the submission queue stays
full; `Ring.room` lists those answers, and a run may set it to anything at any time, so that every
pattern of refusals is covered.
-/

set_option autoImplicit false

namespace Ringline.Uring

/-! ## Results -/

inductive ErrorKind where
  | notConnected | invalidInput | other | wouldBlock | connectionAborted | writeZero | timedOut
deriving DecidableEq, Repr

/-- `io::Error`: an errno, or a kind with a message. -/
inductive IoError where
  | os (errno : Nat)
  | new (kind : ErrorKind) (message : String)
deriving DecidableEq, Repr

/-- `io::Result<u32>`. -/
abbrev IoResult := Except IoError Nat

namespace Errno

def eagain : Nat := 11
def enobufs : Nat := 105
def ecanceled : Nat := 125

end Errno

/-! ## Reading memory -/

/-- `len` bytes from an address on, given the pool and the provided receive buffers. -/
def Ptr.read (pool : SendCopyPool) (provided : Nat → List UInt8) (len : Nat) : Ptr → List UInt8
  | .pool slot offset => pool.span slot offset len
  | .guard bytes offset => (bytes.drop offset).take len
  | .provided bid offset => ((provided bid).drop offset).take len

def Iovec.readAll (pool : SendCopyPool) (provided : Nat → List UInt8) (iovecs : List Iovec) :
    List UInt8 :=
  iovecs.flatMap fun v => v.base.read pool provided v.len

/-! ## Submissions -/

inductive SqeOp where
  | send (ptr : Ptr) (len : Nat)
  /-- `sendmsg` with the message header of slab entry `slabIdx`. -/
  | sendMsg (slabIdx : Nat)
  | sendMsgZc (slabIdx : Nat)
  /-- `sendmsg` or a file write with the header of the slot's forward write. -/
  | forwardWrite
  | pollAdd
  | recvMulti
  /-- A one-shot receive into a slot of the fallback pool. -/
  | recv (slot len : Nat)
  | connect
  | timeout
  | shutdown
  | close
  | asyncCancel (target : UserData)
  | fixedFdInstall
deriving DecidableEq, Repr

/-- A submission.  Its socket is always the registered file `userData.connIndex`. -/
structure Sqe where
  userData : UserData
  op : SqeOp
deriving DecidableEq, Repr

structure Ring where
  /-- What the kernel has taken and not completed. -/
  kernel : List Sqe := []
  /-- The answers to the next pushes; once they run out, pushes succeed. -/
  room : List Bool := []
deriving DecidableEq, Repr

/-- `push_sqe`: whether the submission queue took the entry. -/
def Ring.pushSqe (r : Ring) (e : Sqe) : Bool × Ring :=
  match r.room with
  | [] => (true, { r with kernel := r.kernel ++ [e] })
  | true :: rest => (true, { kernel := r.kernel ++ [e], room := rest })
  | false :: rest => (false, { r with room := rest })

/-! ## Connections -/

inductive RecvArm where
  | idle | multi
deriving DecidableEq, Repr

inductive ReadHalf where
  | open
  | eof (truncated : Bool)
  | error
  | cancelled
deriving DecidableEq, Repr

inductive Lifecycle where
  | inactive | connecting | open | closing
deriving DecidableEq, Repr

inductive WriteHalf where
  | open | shutdownPending | shutdown
deriving DecidableEq, Repr

structure ConnectionState where
  recvArm : RecvArm := .idle
  read : ReadHalf := .open
  lifecycle : Lifecycle := .inactive
  write : WriteHalf := .open
  active : Bool := false
  generation : Nat := 0
  outbound : Bool := false
  established : Bool := false
  /-- The listener that accepted the connection; `none` for an outbound one. -/
  listener : Option Nat := none
  connectTimeoutArmed : Bool := false
  directEcho : Bool := false
  recvMultishotArmed : Bool := false
deriving DecidableEq, Repr

/-- A submission that is built but not pushed, with what it holds on to. -/
structure BuiltSend where
  entry : Sqe
  poolSlot : Option Nat
  slabIdx : Option Nat
  totalLen : Nat
deriving DecidableEq, Repr

structure ConnSendState where
  inFlight : Bool := false
  queue : List BuiltSend := []
  parked : Bool := false
  closePending : Bool := false
  closeSubmitted : Bool := false
  shutdownInflight : Bool := false
  ackedBytes : Nat := 0
  closeNotifyDeadline : Option Nat := none
deriving DecidableEq, Repr

structure PendingRecvBuf where
  bid : Nat
  len : Nat
deriving DecidableEq, Repr

inductive HeldRecvBuf where
  | pinned (bid len : Nat)
  | owned (bytes : List UInt8)
deriving DecidableEq, Repr

inductive RecvDomain where
  | copyOrConsume | segmented
deriving DecidableEq, Repr

inductive SinkTarget where
  | fd (fd : Nat) (isFile : Bool)
  | conn (index generation : Nat)
deriving DecidableEq, Repr

structure ForwardProgress where
  target : SinkTarget
  len : Nat
  forwarded : Nat
  epoch : Nat
deriving DecidableEq, Repr

structure ForwardWriteState where
  backings : List HeldRecvBuf
  lens : List Nat
  total : Nat
  written : Nat
  target : SinkTarget
  generation : Nat
deriving DecidableEq, Repr

/-- The receive side of one slot. -/
structure RecvSlot where
  pendingRecvBuf : Option PendingRecvBuf := none
  accumulator : List UInt8 := []
  recvHold : List PendingRecvBuf := []
  recvForward : Bool := false
  forwardZcConsumed : Nat := 0
  sendRecvBufOriginalLen : Nat := 0
  sendRecvBufRemaining : Nat := 0
  recvDomain : RecvDomain := .copyOrConsume
  segmentHold : List HeldRecvBuf := []
  segmentPinned : Option HeldRecvBuf := none
  segmentReaderLive : Bool := false
  recvHalfTaken : Bool := false
  sendHalfTaken : Bool := false
  directEchoQueued : Bool := false
  recvFallbackInflight : Bool := false
  forwardWrite : Option ForwardWriteState := none
  forwardDone : Option (Except Nat Nat) := none
  forwardProgress : Option ForwardProgress := none
  forwardEpoch : Nat := 0
  forwardRecvActive : Bool := false
  forwardHoldThrottled : Bool := false
deriving DecidableEq, Repr

structure ParkDrain where
  target : Nat
  generation : Nat
  ticksLeft : Nat
deriving DecidableEq, Repr

structure ParkInFlight where
  target : Nat
  generation : Nat
deriving DecidableEq, Repr

/-- The park side of one slot.  The state a handler deposits for the adopting worker is opaque;
a number stands for it. -/
structure ParkSlot where
  parkOffered : Bool := false
  parkDrain : Option ParkDrain := none
  parkInFlight : Option ParkInFlight := none
  parkCarry : Option Nat := none
  adoptPending : Option (Option Nat) := none
deriving DecidableEq, Repr

/-- What the executor holds for one slot: who waits, and the result waiting to be read. -/
inductive TaskResult where
  | send (result : IoResult)
  | connect (result : Except IoError Unit)
deriving DecidableEq, Repr

structure TaskSlot where
  recvWaiter : Bool := false
  sendWaiter : Bool := false
  connectWaiter : Bool := false
  ioResult : Option TaskResult := none
  recvError : Option (Nat × IoError) := none
  recvSink : Option Nat := none
deriving DecidableEq, Repr

structure ChainState where
  totalSqes : Nat
  cqesReceived : Nat := 0
  bytesSent : Nat := 0
  totalBytes : Nat
  firstError : Option Int := none
  zcNotifsPending : Nat := 0
deriving DecidableEq, Repr

/-! ## Retry entries -/

/-- A gathered send waiting to be pushed again. -/
structure SlabRetry where
  connIndex : Nat
  generation : Nat
  slabIdx : Nat
  retries : Nat
deriving DecidableEq, Repr

/-- A copy send waiting to be pushed again, on the path of `tag`. -/
structure CopyRetry where
  connIndex : Nat
  generation : Nat
  poolSlot : Nat
  retries : Nat
  tag : OpTag
deriving DecidableEq, Repr

/-- A POLLOUT registration waiting to be pushed again. -/
structure PolloutRetry where
  connIndex : Nat
  generation : Nat
  poolSlot : Nat
  retries : Nat
  isTls : Bool
deriving DecidableEq, Repr

/-- A connection whose queue head could not be pushed. -/
structure SendRetry where
  connIndex : Nat
  generation : Nat
  attempts : Nat
deriving DecidableEq, Repr

/-! ## The worker -/

structure Worker where
  ring : Ring := {}
  connections : Nat → ConnectionState := fun _ => {}
  sendQueues : Nat → ConnSendState := fun _ => {}
  recvSlots : Nat → RecvSlot := fun _ => {}
  parkSlots : Nat → ParkSlot := fun _ => {}
  tasks : Nat → TaskSlot := fun _ => {}
  chains : Nat → Option ChainState := fun _ => none
  /-- Whether the slot has a TLS session. -/
  tls : Nat → Bool := fun _ => false
  sendCopyPool : SendCopyPool
  sendSlab : InFlightSendSlab
  /-- The memory of the provided receive buffers. -/
  providedBufs : Nat → List UInt8 := fun _ => []
  pendingReplenish : List Nat := []
  pendingZcRetries : List SlabRetry := []
  pendingCopyRetries : List CopyRetry := []
  pendingSendPolloutRetries : List PolloutRetry := []
  pendingCoalescedRetries : List SlabRetry := []
  pendingRecvForwardRetries : List SlabRetry := []
  pendingSendRetries : List SendRetry := []
  pendingCloseRetries : List (Nat × Nat) := []
  pendingFinalizeCloses : List Nat := []
  closeNotifyArmed : List Nat := []
  /-- Results of bounded sends that the event loop has still to hand over. -/
  boundedSendCompletions : List (BoundedSendId × IoResult) := []
  /-- The calls of `complete_bounded_send`, oldest first. -/
  settled : List (BoundedSendId × IoResult) := []
  capacityReleased : Bool := false
  tickCount : Nat := 0
  sendZcThreshold : Nat := 0
  recvStarved : List Nat := []
  directEchoPending : List Nat := []
  parkDrainPending : List Nat := []

namespace Worker

variable (w : Worker)

/-- `connections.get(i)`: the state of a slot that is in use. -/
def conn? (i : Nat) : Option ConnectionState :=
  if (w.connections i).active then some (w.connections i) else none

def generation (w : Worker) (i : Nat) : Nat := (w.connections i).generation

/-- `connections.get_mut(i)`, which leaves an inactive slot alone. -/
def modifyConn (i : Nat) (f : ConnectionState → ConnectionState) : Worker :=
  if (w.connections i).active then
    { w with connections := Function.update w.connections i (f (w.connections i)) }
  else w

def modifySends (i : Nat) (f : ConnSendState → ConnSendState) : Worker :=
  { w with sendQueues := Function.update w.sendQueues i (f (w.sendQueues i)) }

def modifyRecv (i : Nat) (f : RecvSlot → RecvSlot) : Worker :=
  { w with recvSlots := Function.update w.recvSlots i (f (w.recvSlots i)) }

def modifyPark (i : Nat) (f : ParkSlot → ParkSlot) : Worker :=
  { w with parkSlots := Function.update w.parkSlots i (f (w.parkSlots i)) }

def modifyTask (i : Nat) (f : TaskSlot → TaskSlot) : Worker :=
  { w with tasks := Function.update w.tasks i (f (w.tasks i)) }

/-- Push a submission; whether the ring took it. -/
def push (e : Sqe) : Bool × Worker :=
  ((w.ring.pushSqe e).1, { w with ring := (w.ring.pushSqe e).2 })

/-- Push a submission and ignore a refusal. -/
def pushBestEffort (e : Sqe) : Worker := (w.push e).2

/-! ## Wakes -/

/-- `wake_recv`: only a registered waiter is woken, and it is no longer registered then. -/
def wakeRecv (i : Nat) : Worker :=
  w.modifyTask i fun t => { t with recvWaiter := false }

/-- `wake_send`: a registered waiter is handed `result`; without one the result is dropped. -/
def wakeSend (i : Nat) (result : IoResult) : Worker :=
  if (w.tasks i).sendWaiter then
    w.modifyTask i fun t => { t with sendWaiter := false, ioResult := some (.send result) }
  else w

def wakeConnect (i : Nat) (result : Except IoError Unit) : Worker :=
  if (w.tasks i).connectWaiter then
    w.modifyTask i fun t => { t with connectWaiter := false, ioResult := some (.connect result) }
  else w

/-- `fail_recv`: record the error for the slot's occupant, then wake it. -/
def failRecv (i generation : Nat) (error : IoError) : Worker :=
  (w.modifyTask i fun t => { t with recvError := some (generation, error) }).wakeRecv i

/-- `settle_bounded`: hand a bounded send its result. -/
def settleBounded (id : BoundedSendId) (result : IoResult) : Worker :=
  { w with settled := w.settled ++ [(id, result)] }

/-- Settle the bounded send an operation carried, if it carried one. -/
def settleCarried (bounded : Option (BoundedSendId × Nat)) (result : Nat → IoResult) : Worker :=
  match bounded with
  | some (id, logicalLen) => w.settleBounded id (result logicalLen)
  | none => w

/-! ## Memory the kernel reads -/

/-- The bytes at an address, as the kernel would read them now. -/
def readPtr (ptr : Ptr) (len : Nat) : List UInt8 :=
  ptr.read w.sendCopyPool w.providedBufs len

def readIovecs (iovecs : List Iovec) : List UInt8 :=
  Iovec.readAll w.sendCopyPool w.providedBufs iovecs

/-- The bytes a submission asks the kernel to put on its socket. -/
def sqeBytes (e : Sqe) : List UInt8 :=
  match e.op with
  | .send ptr len => w.readPtr ptr len
  | .sendMsg slabIdx => w.readIovecs (w.sendSlab.entries slabIdx).iovecs
  | .sendMsgZc slabIdx => w.readIovecs (w.sendSlab.entries slabIdx).iovecs
  | _ => []

end Worker
end Ringline.Uring
