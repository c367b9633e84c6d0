import Mathlib.Algebra.Group.Nat.Defs
import Ringline.Base.Run
import Ringline.Base.Slab

/-!
# The QUIC endpoint

`ringline-quic/src/endpoint.rs`: a wrapper around `quinn_proto`, which does the protocol.  The
wrapper keeps the connections in a slab, whose keys are the identifiers that applications see, and a
map from quinn's handles to these keys.  It takes datagrams, timers and calls of the application to
quinn, and what quinn reports to a queue of events and a queue of packets.

What quinn answers is an input of the model: what it writes to a buffer, what its `poll` functions
give until they have nothing more, which handle a new connection gets, whether a connection is
drained.  A connection of quinn stands as the list of the calls that were made on it.
-/

set_option autoImplicit false

namespace Ringline.Quic

abbrev Bytes := List UInt8

/-- A socket address; addresses are only compared. -/
abbrev SocketAddr := Nat

abbrev StreamId := Nat

/-! ## What quinn is asked and what it says -/

inductive Dir where
  | bi | uni
deriving DecidableEq

inductive ConnectionError where
  | locallyClosed | timedOut | reset | applicationClosed (code : Nat)
deriving DecidableEq

inductive WriteError where
  | blocked | stopped (code : Nat) | closedStream | zeroRttRejected
deriving DecidableEq

inductive ReadError where
  | blocked | reset (code : Nat)
deriving DecidableEq

inductive ReadableError where
  | closedStream | illegalOrderedRead
deriving DecidableEq

inductive FinishError where
  | stopped (code : Nat) | closedStream
deriving DecidableEq

inductive SendDatagramError where
  | disabled | unsupportedByPeer | tooLarge | blocked (data : Bytes)
deriving DecidableEq

inductive ConnectError where
  | endpointStopping | invalidServerName | cidsExhausted
deriving DecidableEq

/-- A call that changes a `quinn_proto::Connection`. -/
inductive ConnCall where
  | handleEvent
  | handleTimeout
  | write (stream : StreamId) (data : Bytes)
  | writeChunks (stream : StreamId) (chunks : List Bytes)
  | read (stream : StreamId)
  | finish (stream : StreamId)
  | stop (stream : StreamId) (code : Nat)
  | reset (stream : StreamId) (code : Nat)
  | open_ (dir : Dir)
  | close (code : Nat) (reason : Bytes)
  | sendDatagram (data : Bytes) (dropOldWhenFull : Bool)
deriving DecidableEq

/-- `Event` of a connection, with what the wrapper asks for when it handles it. -/
inductive Event where
  /-- `Connected`; whether the peer accepted 0-RTT. -/
  | connected (accepted0rtt : Bool)
  | connectionLost (reason : ConnectionError)
  /-- `StreamEvent::Opened`; the streams that can be accepted. -/
  | opened (dir : Dir) (accepted : List StreamId)
  | readable (id : StreamId)
  | writable (id : StreamId)
  | finished (id : StreamId)
  | stopped (id : StreamId) (code : Nat)
  | available (dir : Dir)
  /-- `DatagramReceived`; the datagrams that are buffered. -/
  | datagramReceived (data : List Bytes)
  | datagramsUnblocked
  | handshakeDataReady
deriving DecidableEq

/-- `Event::ConnectionLost`. -/
def Event.isLost : Event → Bool
  | .connectionLost _ => true
  | _ => false

/-- An answer of `poll_transmit`, with the bytes it wrote to the empty buffer. -/
structure Transmit where
  destination : SocketAddr
  data : Bytes
  segmentSize : Option Nat

/-- What quinn answers while a connection is polled. -/
structure PollAnswers where
  /-- For each endpoint event, whether the endpoint has an event for the connection. -/
  endpointEvents : List Bool
  transmits : List Transmit
  events : List Event
  transmitsAfter : List Transmit
  remoteAddress : SocketAddr
  drained : Bool

/-- A response of the endpoint itself: where it goes, and the size that is reported. -/
structure Reply where
  destination : SocketAddr
  size : Nat

/-- The answer of `accept`. -/
inductive AcceptResult where
  | ok (handle : Nat) (remote : SocketAddr) (has0rtt : Bool) (transmits : List Transmit)
      (poll : PollAnswers)
  | error (response : Option Reply)

inductive DatagramEvent where
  | connectionEvent (handle : Nat) (poll : PollAnswers)
  /-- A new connection, with what `accept` writes to the buffer and what it answers. -/
  | newConnection (written : Bytes) (result : AcceptResult)
  | response (transmit : Reply)

/-- A datagram: its sender, what quinn writes to the buffer when it handles it, and its answer. -/
structure Datagram where
  peer : SocketAddr
  written : Bytes
  event : Option DatagramEvent

/-- What happens when a timer of a connection has expired. -/
structure TimerAnswers where
  transmits : List Transmit
  poll : PollAnswers

/-! ## The endpoint -/

/-- `QuicEvent`; connections are given by their `QuicConnId`. -/
inductive QuicEvent where
  | newConnection (conn : Nat)
  | connected (conn : Nat)
  | streamOpened (conn : Nat) (stream : StreamId) (bidi : Bool)
  | streamReadable (conn : Nat) (stream : StreamId)
  | streamWritable (conn : Nat) (stream : StreamId)
  | streamFinished (conn : Nat) (stream : StreamId)
  | streamStopped (conn : Nat) (stream : StreamId) (code : Nat)
  | streamsAvailable (conn : Nat) (dir : Dir)
  | datagramReceived (conn : Nat) (data : Bytes)
  | datagramsUnblocked (conn : Nat)
  | handshakeDataReady (conn : Nat)
  | zeroRttRejected (conn : Nat)
  | peerAddressChanged (conn : Nat) (previous current : SocketAddr)
  | connectionClosed (conn : Nat) (reason : ConnectionError)
deriving DecidableEq

inductive Error where
  | connectionClosed
  | connectionClosing
  | invalidConnection
  | connect (err : ConnectError)
  | write (err : WriteError)
  | read (err : ReadError)
  | readable (err : ReadableError)
  | streamClosed
  | streamStopped (code : Nat)
  | datagramDisabled
  | datagramUnsupportedByPeer
  | datagramTooLarge
  | datagramBlocked (data : Bytes)
deriving DecidableEq

structure QuicConnection where
  handle : Nat
  /-- `conn`, as the calls that were made on it. -/
  calls : List ConnCall
  established : Bool
  outbound : Bool
  zeroRttAttempted : Bool
  cachedRemote : SocketAddr
  closeEventEmitted : Bool
deriving DecidableEq

structure OutgoingPacket where
  destination : SocketAddr
  data : Bytes
  segmentSize : Option Nat
deriving DecidableEq

structure QuicEndpoint where
  connections : Slab QuicConnection
  handleMap : List (Option Nat)
  events : List QuicEvent
  sendQueue : List OutgoingPacket
  responseBuf : Bytes
  /-- Whether there is a client configuration. -/
  clientConfig : Bool
  sendQueueCapacity : Nat
  batchDepth : Nat

namespace QuicEndpoint

def new (clientConfig : Bool) (sendQueueCapacity : Nat) : QuicEndpoint :=
  ⟨.empty, [], [], [], [], clientConfig, sendQueueCapacity, 0⟩

/-! ### Packets -/

variable (e : QuicEndpoint)

/-- `queue_packet`. -/
def queuePacket (p : OutgoingPacket) : QuicEndpoint × Bool :=
  if e.sendQueueCapacity ≤ e.sendQueue.length then (e, false)
  else ({ e with sendQueue := e.sendQueue ++ [p] }, true)

/-- The packet for a transmit; a segment size is kept if there is more than one segment. -/
def Transmit.packet (t : Transmit) : OutgoingPacket :=
  ⟨t.destination, t.data, t.segmentSize.filter fun seg => seg < t.data.length && seg < 2 ^ 16⟩

/-- The loop of `drain_transmits`. -/
def pullTransmits : QuicEndpoint → List Transmit → QuicEndpoint
  | e, [] => e
  | e, t :: rest =>
    match e.queuePacket (Transmit.packet t) with
    | (e, true) => pullTransmits e rest
    | (e, false) => e

def drainTransmits (transmits : List Transmit) : QuicEndpoint :=
  if 0 < e.batchDepth then e else e.pullTransmits transmits

/-! ### Connections -/

/-- A call on quinn's connection. -/
def call (key : Nat) (op : ConnCall) : QuicEndpoint :=
  { e with connections := e.connections.modify key fun c => { c with calls := c.calls ++ [op] } }

/-- The handle map, grown to hold an index. -/
def setHandle (map : List (Option Nat)) (idx : Nat) (key : Option Nat) : List (Option Nat) :=
  (map ++ List.replicate (idx + 1 - map.length) none).set idx key

/-- `insert_connection`; the key is `connections.nextKey`. -/
def insertConnection (handle : Nat) (remote : SocketAddr) (has0rtt : Bool) (outbound : Bool) :
    QuicEndpoint :=
  { e with
    connections := e.connections.insert ⟨handle, [], false, outbound, has0rtt, remote, false⟩
    handleMap := setHandle e.handleMap handle (some e.connections.nextKey) }

/-- `get_conn_mut`. -/
def getConnMut (conn : Nat) : Except Error QuicConnection :=
  match e.connections.get? conn with
  | none => .error .invalidConnection
  | some c => if c.closeEventEmitted then .error .invalidConnection else .ok c

/-- `remove_connection`. -/
def removeConnection (key : Nat) : QuicEndpoint :=
  match e.connections.get? key with
  | none => e
  | some c =>
    { e with
      connections := e.connections.remove key
      handleMap :=
        if c.handle < e.handleMap.length then e.handleMap.set c.handle none else e.handleMap }

/-- The connection after an event. -/
def onEvent (c : QuicConnection) : Event → QuicConnection
  | .connected _ => { c with established := true }
  | .connectionLost _ => { c with closeEventEmitted := true }
  | _ => c

/-- What an event gives to the application. -/
def emits (key : Nat) (c : QuicConnection) : Event → List QuicEvent
  | .connected accepted0rtt =>
    if c.outbound then
      .connected key :: if c.zeroRttAttempted && !accepted0rtt then [.zeroRttRejected key] else []
    else [.newConnection key]
  | .connectionLost reason => if c.closeEventEmitted then [] else [.connectionClosed key reason]
  | .opened dir accepted =>
    accepted.flatMap fun stream => [.streamOpened key stream (dir = .bi), .streamReadable key stream]
  | .readable id => [.streamReadable key id]
  | .writable id => [.streamWritable key id]
  | .finished id => [.streamFinished key id]
  | .stopped id code => [.streamStopped key id code]
  | .available dir => [.streamsAvailable key dir]
  | .datagramReceived data => data.map (.datagramReceived key)
  | .datagramsUnblocked => [.datagramsUnblocked key]
  | .handshakeDataReady => [.handshakeDataReady key]

/-- The loop over the application events; the flag tells whether it was left because the connection
is lost. -/
def pollEvents (key : Nat) : QuicEndpoint → List Event → QuicEndpoint × Bool
  | e, [] => (e, false)
  | e, event :: rest =>
    match e.connections.get? key with
    | none => (e, false)
    | some c =>
      let e := { e with
        connections := e.connections.modify key fun _ => onEvent c event
        events := e.events ++ emits key c event }
      if event.isLost then (e, true) else pollEvents key e rest

/-- The detection of a new address of the peer. -/
def noteAddress (key : Nat) (current : SocketAddr) : QuicEndpoint :=
  match e.connections.get? key with
  | none => e
  | some c =>
    if current = c.cachedRemote then e
    else { e with
      connections := e.connections.modify key fun c => { c with cachedRemote := current }
      events := e.events ++ [.peerAddressChanged key c.cachedRemote current] }

/-- `poll_connection`. -/
def pollConnection (key : Nat) (a : PollAnswers) : QuicEndpoint :=
  let e := (a.endpointEvents.filter id).foldl (fun e _ => e.call key .handleEvent) e
  match pollEvents key (e.drainTransmits a.transmits) a.events with
  | (e, true) => e
  | (e, false) =>
    let e := (e.drainTransmits a.transmitsAfter).noteAddress key a.remoteAddress
    if a.drained then e.removeConnection key else e

/-! ### The public functions -/

/-- The stateless packet for a response. -/
def respond (t : Reply) : QuicEndpoint :=
  (e.queuePacket ⟨t.destination, e.responseBuf.take t.size, none⟩).1

/-- `handle_datagram`. -/
def handleDatagram (d : Datagram) : QuicEndpoint :=
  let e := { e with responseBuf := e.responseBuf ++ d.written }
  match d.event with
  | some (.connectionEvent handle poll) =>
    match e.handleMap[handle]?.join with
    | some key => (e.call key .handleEvent).pollConnection key poll
    | none => e
  | some (.newConnection written result) =>
    let e := { e with responseBuf := e.responseBuf ++ written }
    match result with
    | .ok handle remote has0rtt transmits poll =>
      ((e.insertConnection handle remote has0rtt false).drainTransmits transmits).pollConnection
        e.connections.nextKey poll
    | .error (some t) => e.respond t
    | .error none => e
  | some (.response t) => e.respond t
  | none => e

/-- `drive_timers`; `expired` gives quinn's answers for the connections whose timeout has passed. -/
def driveTimers (expired : Nat → Option TimerAnswers) : QuicEndpoint :=
  e.connections.keys.foldl (fun e key =>
    if e.connections.contains key then
      match expired key with
      | some a => ((e.call key .handleTimeout).drainTransmits a.transmits).pollConnection key a.poll
      | none => e
    else e) e

/-- `flush`. -/
def flush (transmits : Nat → List Transmit) : QuicEndpoint :=
  e.connections.keys.foldl (fun e key =>
    if e.connections.contains key then e.drainTransmits (transmits key) else e) e

/-- `connect`. -/
def connect (e : QuicEndpoint) (answer : Except ConnectError (Nat × SocketAddr × Bool))
    (transmits : List Transmit) : QuicEndpoint × Except Error Nat :=
  if e.clientConfig then
    match answer with
    | .error err => (e, .error (.connect err))
    | .ok (handle, remote, has0rtt) =>
      ((e.insertConnection handle remote has0rtt true).drainTransmits transmits,
        .ok e.connections.nextKey)
  else (e, .error .connectionClosed)

/-- `close_connection`. -/
def closeConnection (conn code : Nat) (reason : Bytes) (transmits : List Transmit) : QuicEndpoint :=
  match e.connections.get? conn with
  | none => e
  | some c =>
    if c.closeEventEmitted then e
    else
      let e := (e.call conn (.close code reason)).drainTransmits transmits
      { e with
        connections := e.connections.modify conn fun c => { c with closeEventEmitted := true }
        events := e.events ++ [.connectionClosed conn .locallyClosed] }

/-- What `stream_send` and `stream_send_chunks` make of quinn's answer. -/
def writeResult (answer : Except WriteError Nat) (isClosed : Bool) : Except Error Nat :=
  match answer with
  | .ok n => .ok n
  | .error .blocked => .error (if isClosed then .connectionClosing else .write .blocked)
  | .error err => .error (.write err)

/-- An operation on a connection that the application may use; `after` is what follows the call of
quinn, which depends on its answer. -/
def onConn {ρ : Type} (e : QuicEndpoint) (conn : Nat) (op : ConnCall)
    (after : QuicEndpoint → QuicEndpoint × Except Error ρ) : QuicEndpoint × Except Error ρ :=
  match e.getConnMut conn with
  | .error err => (e, .error err)
  | .ok _ => after (e.call conn op)

def streamSend (conn : Nat) (stream : StreamId) (data : Bytes) (answer : Except WriteError Nat)
    (isClosed : Bool) : QuicEndpoint × Except Error Nat :=
  e.onConn conn (.write stream data) fun e => (e, writeResult answer isClosed)

def streamSendChunks (conn : Nat) (stream : StreamId) (chunks : List Bytes)
    (answer : Except WriteError Nat) (isClosed : Bool) : QuicEndpoint × Except Error Nat :=
  e.onConn conn (.writeChunks stream chunks) fun e => (e, writeResult answer isClosed)

/-- What quinn answers when a stream is read: its refusal, or the chunks one after the other, and
whether the connection has something to send now. -/
structure ReadAnswers where
  readable : Option ReadableError
  chunks : List (Except ReadError (Option Bytes))
  shouldTransmit : Bool
  transmits : List Transmit

/-- The loop that reads chunks: the bytes, whether the stream is finished, and an error. -/
def readChunks (max : Nat) : List (Except ReadError (Option Bytes)) → Bytes →
    Bytes × Bool × Option ReadError
  | [], acc => (acc, false, none)
  | chunk :: rest, acc =>
    if max ≤ acc.length then (acc, false, none)
    else
      match chunk with
      | .ok (some bytes) => readChunks max rest (acc ++ bytes)
      | .ok none => (acc, true, none)
      | .error .blocked => (acc, false, none)
      | .error err => (acc, false, some err)

/-- `stream_recv` and `stream_recv_into`, which differ in where the bytes go. -/
def recvWith (conn : Nat) (stream : StreamId) (max : Nat) (a : ReadAnswers) :
    QuicEndpoint × Except Error (Bytes × Bool) :=
  e.onConn conn (.read stream) fun e =>
    match a.readable with
    | some err => (e, .error (.readable err))
    | none =>
      let (data, finished, err) := readChunks max a.chunks []
      let e := if a.shouldTransmit then e.drainTransmits a.transmits else e
      match err with
      | some err => (e, .error (.read err))
      | none => (e, .ok (data, finished))

def streamRecv (conn : Nat) (stream : StreamId) (bufLen : Nat) (a : ReadAnswers) :
    QuicEndpoint × Except Error (Bytes × Bool) :=
  e.recvWith conn stream bufLen a

def streamRecvInto (conn : Nat) (stream : StreamId) (max : Nat) (a : ReadAnswers) :
    QuicEndpoint × Except Error (Bytes × Bool) :=
  e.recvWith conn stream max a

def streamFinish (conn : Nat) (stream : StreamId) (answer : Except FinishError Unit)
    (transmits : List Transmit) : QuicEndpoint × Except Error Unit :=
  e.onConn conn (.finish stream) fun e =>
    match answer with
    | .ok () => (e.drainTransmits transmits, .ok ())
    | .error (.stopped code) => (e, .error (.streamStopped code))
    | .error .closedStream => (e, .error .streamClosed)

/-- What `stop_sending` and `reset_stream` make of quinn's answer. -/
def unlessClosed (closed : Bool) (transmits : List Transmit) (e : QuicEndpoint) :
    QuicEndpoint × Except Error Unit :=
  if closed then (e, .error .streamClosed) else (e.drainTransmits transmits, .ok ())

def stopSending (conn : Nat) (stream : StreamId) (code : Nat) (closed : Bool)
    (transmits : List Transmit) : QuicEndpoint × Except Error Unit :=
  e.onConn conn (.stop stream code) (unlessClosed closed transmits)

def resetStream (conn : Nat) (stream : StreamId) (code : Nat) (closed : Bool)
    (transmits : List Transmit) : QuicEndpoint × Except Error Unit :=
  e.onConn conn (.reset stream code) (unlessClosed closed transmits)

def openBi (conn : Nat) (answer : Option StreamId) :
    QuicEndpoint × Except Error (Option StreamId) :=
  e.onConn conn (.open_ .bi) fun e => (e, .ok answer)

def openUni (conn : Nat) (answer : Option StreamId) :
    QuicEndpoint × Except Error (Option StreamId) :=
  e.onConn conn (.open_ .uni) fun e => (e, .ok answer)

def sendDatagram (e : QuicEndpoint) (conn : Nat) (data : Bytes) (dropOldWhenFull : Bool)
    (answer : Except SendDatagramError Unit) (transmits : List Transmit) :
    QuicEndpoint × Except Error Unit :=
  e.onConn conn (.sendDatagram data dropOldWhenFull) fun e =>
    match answer with
    | .ok () => (e.drainTransmits transmits, .ok ())
    | .error .disabled => (e, .error .datagramDisabled)
    | .error .unsupportedByPeer => (e, .error .datagramUnsupportedByPeer)
    | .error .tooLarge => (e, .error .datagramTooLarge)
    | .error (.blocked data) => (e, .error (.datagramBlocked data))

end QuicEndpoint

/-! ## Runs -/

/-- An operation on a connection, with quinn's answers. -/
inductive ConnOp where
  | streamSend (stream : StreamId) (data : Bytes) (answer : Except WriteError Nat) (isClosed : Bool)
  | streamSendChunks (stream : StreamId) (chunks : List Bytes) (answer : Except WriteError Nat)
      (isClosed : Bool)
  | streamRecv (stream : StreamId) (bufLen : Nat) (a : QuicEndpoint.ReadAnswers)
  | streamRecvInto (stream : StreamId) (max : Nat) (a : QuicEndpoint.ReadAnswers)
  | streamFinish (stream : StreamId) (answer : Except FinishError Unit) (transmits : List Transmit)
  | stopSending (stream : StreamId) (code : Nat) (closed : Bool) (transmits : List Transmit)
  | resetStream (stream : StreamId) (code : Nat) (closed : Bool) (transmits : List Transmit)
  | openBi (answer : Option StreamId)
  | openUni (answer : Option StreamId)
  | sendDatagram (data : Bytes) (dropOldWhenFull : Bool) (answer : Except SendDatagramError Unit)
      (transmits : List Transmit)

/-- What an operation returns. -/
inductive OpResult where
  | written (n : Nat)
  | read (data : Bytes) (finished : Bool)
  | opened (stream : Option StreamId)
  | unit

/-- A call of the endpoint. -/
inductive Input where
  | handleDatagram (d : Datagram)
  | driveTimers (expired : Nat → Option TimerAnswers)
  | flush (transmits : Nat → List Transmit)
  | connect (answer : Except ConnectError (Nat × SocketAddr × Bool)) (transmits : List Transmit)
  | close (conn code : Nat) (reason : Bytes) (transmits : List Transmit)
  | op (conn : Nat) (op : ConnOp)
  | pollEvent
  | pollSend
  /-- `batch`, and the end of its scope. -/
  | batch
  | endBatch (transmits : Nat → List Transmit)

namespace QuicEndpoint

/-- An operation on a connection. -/
def perform (e : QuicEndpoint) (conn : Nat) : ConnOp → QuicEndpoint × Except Error OpResult
  | .streamSend s data a closed => (e.streamSend conn s data a closed).map id (.map .written)
  | .streamSendChunks s chunks a closed =>
    (e.streamSendChunks conn s chunks a closed).map id (.map .written)
  | .streamRecv s n a => (e.streamRecv conn s n a).map id (.map fun r => .read r.1 r.2)
  | .streamRecvInto s n a => (e.streamRecvInto conn s n a).map id (.map fun r => .read r.1 r.2)
  | .streamFinish s a ts => (e.streamFinish conn s a ts).map id (.map fun _ => .unit)
  | .stopSending s code closed ts =>
    (e.stopSending conn s code closed ts).map id (.map fun _ => .unit)
  | .resetStream s code closed ts =>
    (e.resetStream conn s code closed ts).map id (.map fun _ => .unit)
  | .openBi a => (e.openBi conn a).map id (.map .opened)
  | .openUni a => (e.openUni conn a).map id (.map .opened)
  | .sendDatagram data old a ts => (e.sendDatagram conn data old a ts).map id (.map fun _ => .unit)

/-- The endpoint after a call. -/
def step (e : QuicEndpoint) : Input → QuicEndpoint
  | .handleDatagram d => e.handleDatagram d
  | .driveTimers expired => e.driveTimers expired
  | .flush transmits => e.flush transmits
  | .connect answer transmits => (e.connect answer transmits).1
  | .close conn code reason transmits => e.closeConnection conn code reason transmits
  | .op conn op => (e.perform conn op).1
  | .pollEvent => { e with events := e.events.tail }
  | .pollSend => { e with sendQueue := e.sendQueue.tail }
  | .batch => { e with batchDepth := min (2 ^ 32 - 1) (e.batchDepth + 1) }
  | .endBatch transmits =>
    let e := { e with batchDepth := e.batchDepth - 1 }
    if e.batchDepth = 0 then e.flush transmits else e

end QuicEndpoint
end Ringline.Quic
