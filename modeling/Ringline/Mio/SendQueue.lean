import Mathlib.Algebra.Group.Nat.Defs
import Ringline.Base.Run

/-!
# The send queue of a connection

On the mio backend a send is queued and nothing is written on the spot.  `flush_sends` writes what
is queued with `writev`, as far as the socket takes it, when the socket becomes writable and after
the tasks were polled.  A connection whose queue is not empty is on the list `sends_dirty`, so that
the loop comes back to it.

This is one connection, from the time its slot is allocated until the slot is released.  What the
kernel answers to each `writev` is an input, and so are the decisions of the worker: whether there
are slots left in the copy pool for a bounded send, and what rustls makes of the bytes.  `wire` is a
record of what was done to the socket.
-/

set_option autoImplicit false

namespace Ringline.Mio

abbrev Bytes := List UInt8

inductive ErrorKind where
  | connectionAborted
  | writeZero
deriving DecidableEq

/-- `io::Error`. -/
inductive IoError where
  | os (code : Nat)
  | custom (kind : ErrorKind) (message : String)
deriving DecidableEq

/-- The answer to a `writev`. -/
inductive WriteOutcome where
  | accepted (n : Nat)
  | wouldBlock
  | failed (e : IoError)

/-- `PendingSend`; of a bounded send, the id. -/
structure PendingSend where
  data : Bytes
  offset : Nat
  notifyLen : Option Nat
  bounded : Option Nat
deriving DecidableEq

namespace PendingSend

/-- `PendingSend::plain`. -/
def plain (data : Bytes) : PendingSend := ⟨data, 0, none, none⟩

/-- `PendingSend::bounded`. -/
def withId (data : Bytes) (id : Nat) : PendingSend := ⟨data, 0, none, some id⟩

/-- What is left to be written. -/
def rest (e : PendingSend) : Bytes := e.data.drop e.offset

end PendingSend

inductive Lifecycle where
  | inactive
  | connecting
  | open_
  | closing
deriving DecidableEq

inductive WriteHalf where
  | open_
  | shutdownPending
  | shutdown
deriving DecidableEq

/-- What is done to the socket; with a shutdown, how many entries are queued. -/
inductive Action where
  | wrote (bytes : Bytes)
  | shutdown (queued : Nat)
deriving DecidableEq

/-- A connection, as far as its sends are concerned. -/
structure Conn where
  /-- `pending_sends`. -/
  queue : List PendingSend
  /-- Whether `tcp_streams` has the stream. -/
  stream : Bool
  writable : Bool
  sendsDirtyFlag : Bool
  /-- The number of entries in `sends_dirty`. -/
  sendsDirty : Nat
  lifecycle : Lifecycle
  write : WriteHalf
  sendCompletions : List Nat
  /-- `bounded_send_completions`, those of this connection. -/
  boundedSendCompletions : List (Nat × Except IoError Nat)
  /-- The queue was discarded: a flush failed, or the connection is over. -/
  failed : Bool
  wire : List Action

namespace Conn

/-- A connection that was accepted, or one that is being made.  The flag may be left from the last
occupant of the slot. -/
def new (outbound dirty : Bool) : Conn where
  queue := []
  stream := true
  writable := false
  sendsDirtyFlag := dirty
  sendsDirty := dirty.toNat
  lifecycle := if outbound then .connecting else .open_
  write := .open_
  sendCompletions := []
  boundedSendCompletions := []
  failed := false
  wire := []

variable (c : Conn)

/-- `mark_send_dirty`. -/
def markSendDirty : Conn :=
  if c.sendsDirtyFlag then c else { c with sendsDirtyFlag := true, sendsDirty := c.sendsDirty + 1 }

/-- `clear_pending_sends_into`. -/
def clearPendingSends (err : IoError) : Conn :=
  { c with
    queue := []
    boundedSendCompletions := c.boundedSendCompletions ++
      c.queue.filterMap fun e => e.bounded.map fun id => (id, .error err) }

/-- The iovecs of a `writev`. -/
def iovecs (queue : List PendingSend) : List Bytes :=
  ((queue.map PendingSend.rest).filter fun r => !r.isEmpty).take 1024

/-- The loop that advances through the queue: the entries that are finished, and the rest. -/
def advance : List PendingSend → Nat → List PendingSend × List PendingSend
  | [], _ => ([], [])
  | e :: queue, remaining =>
    if remaining = 0 then ([], e :: queue)
    else
      let avail := e.data.length - e.offset
      if avail ≤ remaining then
        let (done, queue) := advance queue (remaining - avail)
        (e :: done, queue)
      else ([], { e with offset := e.offset + remaining } :: queue)

/-- The completions of an entry whose last byte was written. -/
def complete (e : PendingSend) : Conn :=
  { c with
    sendCompletions := c.sendCompletions ++ e.notifyLen.toList
    boundedSendCompletions := c.boundedSendCompletions ++
      (e.bounded.map fun id => (id, .ok (e.data.length % 2 ^ 32))).toList }

/-- The socket took some bytes. -/
def wrote (c : Conn) (n : Nat) : Conn :=
  (advance c.queue n).1.foldl complete
    { c with
      queue := (advance c.queue n).2
      wire := c.wire ++ [.wrote ((iovecs c.queue).flatten.take n)] }

/-- The loop of `flush_sends`; whether all is flushed.  Without an answer the socket would block. -/
def flushLoop (c : Conn) (outcomes : List WriteOutcome) : Conn × Except IoError Bool :=
  if c.queue.isEmpty then (c, .ok true)
  else if (iovecs c.queue).isEmpty then
    (c.clearPendingSends (.custom .connectionAborted
      "queued send discarded with no bytes left to write"), .ok true)
  else
    match outcomes with
    | [] | .wouldBlock :: _ => ({ c with writable := false }.markSendDirty, .ok false)
    | .failed e :: _ => (c, .error e)
    | .accepted n :: outcomes =>
      let n := min n (iovecs c.queue).flatten.length
      if n = 0 then (c, .error (.custom .writeZero "peer closed during send flush"))
      else (c.wrote n).flushLoop outcomes

/-- A deferred half-close. -/
def finishShutdown : Conn :=
  if c.lifecycle ≠ .inactive ∧ c.write = .shutdownPending then
    { c with write := .shutdown, wire := c.wire ++ [.shutdown c.queue.length] }
  else c

/-- `flush_sends`, without the number of bytes. -/
def flushSends (outcomes : List WriteOutcome) : Conn × Except IoError Bool :=
  if c.stream then
    match c.flushLoop outcomes with
    | (c, .ok true) => (c.finishShutdown, .ok true)
    | r => r
  else (c, .ok true)

/-- `close_connection`. -/
def closeConnection : Conn :=
  match c.lifecycle with
  | .inactive | .closing => c
  | _ => { c with lifecycle := .closing }

/-- `fail_connection_on_send_error`. -/
def failConnection (e : IoError) : Conn :=
  { (c.clearPendingSends e).closeConnection with failed := true }

/-! ## The calls of the application -/

def push (e : PendingSend) : Conn := { c with queue := c.queue ++ [e] }.markSendDirty

/-- What goes into the queue for some bytes, where `tls` is what rustls makes of them. -/
def payload (data : Bytes) (tls : Option (Except IoError Bytes)) : Except IoError Bytes :=
  tls.getD (.ok data)

/-- `DriverCtx::send`: whether it returns `Ok`. -/
def send (data : Bytes) (tls : Option (Except IoError Bytes)) : Conn × Bool :=
  if c.lifecycle = .inactive then (c, false)
  else
    match payload data tls with
    | .error _ => (c, false)
    | .ok bytes =>
      if tls.isSome ∧ bytes = [] then (c, true) else (c.push (.plain bytes), true)

/-- `mark_last_send_awaited`. -/
def markLastSendAwaited : Conn :=
  match c.queue.getLast? with
  | some e =>
    let e := { e with notifyLen := some ((e.data.length - e.offset) % 2 ^ 32) }
    { c with queue := c.queue.dropLast ++ [e] }
  | none => { c with sendCompletions := c.sendCompletions ++ [0] }

/-- `ConnCtx::send`. -/
def sendAwaited (data : Bytes) (tls : Option (Except IoError Bytes)) : Conn :=
  match c.send data tls with
  | (c, true) => c.markLastSendAwaited
  | (c, false) => c

/-- `DriverCtx::send_bounded`, where `reserve` is the answer of the pool. -/
def sendBounded (id : Nat) (data : Bytes) (reserve : Except IoError Unit)
    (tls : Option (Except IoError Bytes)) : Conn :=
  if c.lifecycle = .inactive then c
  else
    match reserve, payload data tls with
    | .error _, _ | _, .error _ => c
    | .ok (), .ok bytes =>
      if bytes = [] then
        { c with
          boundedSendCompletions := c.boundedSendCompletions ++ [(id, .ok (data.length % 2 ^ 32))] }
      else c.push (.withId bytes id)

/-- `shutdown_write`. -/
def shutdownWrite : Conn :=
  if c.lifecycle = .inactive ∨ c.write ≠ .open_ ∨ c.lifecycle = .closing then c
  else if c.queue.isEmpty then
    { c with
      write := .shutdown
      wire := if c.stream then c.wire ++ [.shutdown c.queue.length] else c.wire }
  else { c with write := .shutdownPending }.markSendDirty

/-! ## The event loop -/

/-- Handshake records and alerts that rustls wants to send. -/
def tlsOutput (bytes : Bytes) : Conn :=
  let c := if bytes.isEmpty then c else { c with queue := c.queue ++ [.plain bytes] }
  if c.queue.isEmpty then c else c.markSendDirty

/-- `forward_push`. -/
def forwardPush (data : Bytes) : Conn :=
  if c.lifecycle ≠ .inactive ∧ c.stream then c.push (.plain data) else c

/-- `handle_writable` while the connection is being made: the result, and the first flight of a TLS
client. -/
def connected (ok : Bool) (hello : Option Bytes) (outcomes : List WriteOutcome) : Conn :=
  if ok then
    let c := { c with lifecycle := .open_ }
    match hello with
    | some bytes => ((c.tlsOutput bytes).flushSends outcomes).1
    | none => c
  else c.closeConnection

/-- What follows a flush of the loop. -/
def settle (r : Conn × Except IoError Bool) : Conn :=
  match r with
  | (c, .error e) => c.failConnection e
  | (c, .ok _) => c

/-- `handle_writable`. -/
def handleWritable (outcomes : List WriteOutcome) : Conn :=
  settle ({ c with writable := true }.flushSends outcomes)

/-- An entry of `sends_dirty` in `flush_all_pending_sends`. -/
def visit (outcomes : List WriteOutcome) : Conn :=
  let c := { c with sendsDirtyFlag := false }
  if c.queue.isEmpty then c
  else
    let c := if c.writable then settle (c.flushSends outcomes) else c
    if c.queue.isEmpty then c else c.markSendDirty

/-- `flush_all_pending_sends`. -/
def flushAllPendingSends (outcomes : Nat → List WriteOutcome) : Conn :=
  (List.range c.sendsDirty).foldl (fun c i => c.visit (outcomes i)) { c with sendsDirty := 0 }

/-- `finish_close`. -/
def finishClose (outcomes : List WriteOutcome) : Conn :=
  let c := { (c.flushSends outcomes).1 with stream := false }
  let c := c.clearPendingSends (.custom .connectionAborted
    "connection closed before the send reached the socket")
  { c with writable := false, sendCompletions := [], lifecycle := .inactive, failed := true }

/-- `drain_pending_closes`. -/
def drainPendingCloses (outcomes : List WriteOutcome) : Conn :=
  if c.lifecycle = .closing then
    if !c.queue.isEmpty && c.stream then c.markSendDirty else c.finishClose outcomes
  else c

end Conn

inductive SendEvent where
  | send (data : Bytes) (tls : Option (Except IoError Bytes))
  | sendAwaited (data : Bytes) (tls : Option (Except IoError Bytes))
  | sendBounded (id : Nat) (data : Bytes) (reserve : Except IoError Unit)
      (tls : Option (Except IoError Bytes))
  | forward (data : Bytes)
  | tlsOutput (bytes : Bytes)
  | shutdownWrite
  | close
  /-- The socket is writable; the rest matters while the connection is being made. -/
  | writable (outcomes : List WriteOutcome) (ok : Bool) (hello : Option Bytes)
  | flushAll (outcomes : Nat → List WriteOutcome)
  | drainCloses (outcomes : List WriteOutcome)

namespace Conn

def step (c : Conn) : SendEvent → Conn
  | .send data tls => (c.send data tls).1
  | .sendAwaited data tls => c.sendAwaited data tls
  | .sendBounded id data reserve tls => c.sendBounded id data reserve tls
  | .forward data => c.forwardPush data
  | .tlsOutput bytes => if c.lifecycle = .inactive then c else c.tlsOutput bytes
  | .shutdownWrite => c.shutdownWrite
  | .close => c.closeConnection
  | .writable outcomes ok hello =>
    if c.lifecycle = .connecting then c.connected ok hello outcomes else c.handleWritable outcomes
  | .flushAll outcomes => c.flushAllPendingSends outcomes
  | .drainCloses outcomes => c.drainPendingCloses outcomes

end Conn
end Ringline.Mio
