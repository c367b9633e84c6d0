import Ringline.Base.Run
import Ringline.Base.Table
import Ringline.H3.Qpack

/-!
# The HTTP/3 connection

`ringline-h3/src/connection.rs`: an `H3Connection` on top of a QUIC transport, as client or as server.
It turns what the transport has read into events, and hands what the application sends to the
transport, as far as that takes it; the rest waits in queues, one for each stream.

The transport is not part of the connection.  What it answers when it is called comes in with every
call (`Answers`): how many bytes it takes of what it is offered, what it has read, whether it opens a
stream.  What it is told is kept in `Quic.ops`, in order.  A `Link` is a connection with its transport;
once the connection has closed the transport, every further call fails.
-/

set_option autoImplicit false

namespace Ringline.H3

open H2 (HeaderField)

/-! ## The transport -/

/-- What the transport is told. -/
inductive QuicOp where
  /-- Bytes that it has taken. -/
  | wrote (stream : Nat) (data : List UInt8)
  | finish (stream : Nat)
  | reset (stream : Nat) (code : Nat)
  | stopSending (stream : Nat) (code : Nat)
  /-- `close_connection`, with the code and the text of the error. -/
  | close (e : H3Error)
deriving DecidableEq, Repr

/-- The connection of the `QuicEndpoint`. -/
structure Quic where
  /-- `close_event_emitted`. -/
  closed : Bool
  ops : List QuicOp
deriving DecidableEq, Repr

/-- What the transport answers during a call.  When it has nothing more to say, it is blocked. -/
structure Answers where
  /-- How many bytes it takes of what it is offered, call by call. -/
  writes : List (Except QuicError Nat) := []
  finish : Except QuicError Unit := .ok ()
  /-- The bytes it has read and whether they end the stream, call by call. -/
  reads : List (Except QuicError (List UInt8 × Bool)) := []
  opened : Except QuicError (Option Nat) := .ok none

/-- Take `n` bytes off the front of some chunks; chunks that are used up become empty. -/
def advance : Nat → List (List UInt8) → List (List UInt8)
  | _, [] => []
  | n, chunk :: chunks => chunk.drop n :: advance (n - chunk.length) chunks

namespace Quic

variable (q : Quic)

def log (op : QuicOp) : Quic := { q with ops := q.ops ++ [op] }

/-- `stream_send_chunks`: the result, and what is left of the chunks. -/
def streamSendChunks (stream : Nat) (chunks : List (List UInt8)) (answer : Except QuicError Nat) :
    Quic × Except QuicError Nat × List (List UInt8) :=
  if q.closed then (q, .error .invalidConnection, chunks)
  else
    match answer with
    | .error e => (q, .error e, chunks)
    | .ok n =>
      let n := min n chunks.flatten.length
      (q.log (.wrote stream (chunks.flatten.take n)), .ok n, advance n chunks)

/-- `stream_finish`. -/
def streamFinish (stream : Nat) (answer : Except QuicError Unit) : Quic × Except QuicError Unit :=
  if q.closed then (q, .error .invalidConnection) else (q.log (.finish stream), answer)

/-- `reset_stream`, of which the result is not used. -/
def resetStream (stream code : Nat) : Quic :=
  if q.closed then q else q.log (.reset stream code)

/-- `stop_sending`, of which the result is not used. -/
def stopSending (q : Quic) (stream code : Nat) : Quic :=
  if q.closed then q else q.log (.stopSending stream code)

/-- `close_connection`. -/
def closeConnection (e : H3Error) : Quic :=
  if q.closed then q else { q.log (.close e) with closed := true }

/-- `open_uni` and `open_bi`. -/
def openStream (answer : Except QuicError (Option Nat)) : Except QuicError (Option Nat) :=
  if q.closed then .error .invalidConnection else answer

end Quic

/-! ## Header sections -/

/-- `HeaderKind`. -/
inductive HeaderKind where
  | request
  | response
  | trailer
deriving DecidableEq, Repr

/-- `field_section_size`. -/
def fieldSectionSize (headers : List HeaderField) : Nat :=
  headers.foldl (fun total f => min (total + (f.name.length + f.value.length + 32)) u64Max) 0

/-- What `validate_headers` has seen so far. -/
structure Seen where
  pseudo : List (List UInt8) := []
  regular : Bool := false
  method : Option (List UInt8) := none
  path : Option (List UInt8) := none
  scheme : Option (List UInt8) := none
  authority : Option (List UInt8) := none
  status : Bool := false

/-- The fields that are about a connection of HTTP/1. -/
def connectionSpecific : List (List UInt8) :=
  ["connection", "keep-alive", "proxy-connection", "transfer-encoding", "upgrade"].map bytesOf

variable (kind : HeaderKind)

/-- One field of `validate_headers`; `none` is `H3Error::MessageError`. -/
def Seen.field (seen : Seen) (f : HeaderField) : Option Seen :=
  if f.name.head? = some 0x3a then
    if seen.regular || kind = .trailer || f.name ∈ seen.pseudo then none
    else
      let seen := { seen with pseudo := seen.pseudo ++ [f.name] }
      if f.name = bytesOf ":method" then some { seen with method := some f.value }
      else if f.name = bytesOf ":path" then some { seen with path := some f.value }
      else if f.name = bytesOf ":scheme" then some { seen with scheme := some f.value }
      else if f.name = bytesOf ":authority" then some { seen with authority := some f.value }
      else if f.name = bytesOf ":status" then some { seen with status := true }
      else none
  else if f.name ∈ connectionSpecific then none
  else if f.name = bytesOf "te" ∧ f.value ≠ bytesOf "trailers" then none
  else some { seen with regular := true }

/-- The pseudo-headers that a header section needs. -/
def Seen.complete (seen : Seen) : Bool :=
  match kind with
  | .request =>
    match seen.method with
    | none => false
    | some m =>
      if m = bytesOf "CONNECT" then
        seen.path.isNone && seen.scheme.isNone && seen.authority.isSome
      else seen.path.isSome && seen.scheme.isSome && seen.authority.isSome
  | .response => seen.status
  | .trailer => true

/-- `validate_headers`. -/
def validateHeaders (headers : List HeaderField) : Except H3Error Unit :=
  match headers.foldlM (Seen.field kind) {} with
  | none => .error .messageError
  | some seen => if seen.complete kind then .ok () else .error .messageError

/-! ## The connection -/

/-- `StreamState`. -/
inductive StreamState where
  | waitingHeaders
  | open
  | halfClosedRemote
  | halfClosedLocal
  | closed
deriving DecidableEq, Repr

/-- The state once our side has been closed, in `finalize_local_close`. -/
def StreamState.closeLocal : StreamState → StreamState
  | .halfClosedRemote | .closed => .closed
  | _ => .halfClosedLocal

/-- The state once the side of the peer has been closed, in `finalize_remote_close`. -/
def StreamState.closeRemote : StreamState → StreamState
  | .halfClosedLocal | .closed => .closed
  | _ => .halfClosedRemote

/-- `RequestStream`. -/
structure RequestStream where
  state : StreamState
  recvBuf : List UInt8
  clientInitiated : Bool
  initialHeadersReceived : Bool
  trailersReceived : Bool
deriving DecidableEq, Repr

/-- `RequestStream::new`. -/
def RequestStream.new (clientInitiated : Bool) : RequestStream :=
  ⟨.waitingHeaders, [], clientInitiated, false, false⟩

/-- The kind of the next header section of a stream. -/
def RequestStream.headerKind (rs : RequestStream) : HeaderKind :=
  if rs.initialHeadersReceived then .trailer
  else if rs.clientInitiated then .response
  else .request

/-- The header section of a HEADERS frame, if it passes the checks of `process_request_frames`. -/
def checkHeaders (limit : Nat) (kind : HeaderKind) (encoded : List UInt8) :
    Except H3Error (List HeaderField) :=
  if limit < encoded.length then .error .excessiveSize
  else
    match Qpack.decode encoded with
    | .error e => .error e
    | .ok headers =>
      if limit < fieldSectionSize headers then .error .excessiveSize
      else
        match validateHeaders kind headers with
        | .error e => .error e
        | .ok () => .ok headers

/-- `PendingStream`. -/
structure PendingStream where
  queue : List (List UInt8)
  pendingFin : Bool
deriving DecidableEq, Repr

/-- `PendingStream::default`. -/
def PendingStream.default : PendingStream := ⟨[], false⟩

/-- `PendingStream::is_done`. -/
def PendingStream.isDone (p : PendingStream) : Bool := p.queue.isEmpty && !p.pendingFin

/-- `H3Event`. -/
inductive H3Event where
  | request (streamId : Nat) (headers : List HeaderField) (endStream : Bool)
  | response (streamId : Nat) (headers : List HeaderField) (endStream : Bool)
  | trailers (streamId : Nat) (headers : List HeaderField)
  | data (streamId : Nat) (data : List UInt8) (endStream : Bool)
  | goAway (streamId : Nat)
  | streamReset (streamId : Nat) (errorCode : Nat)
  | zeroRttRejected
  | error (e : H3Error)
deriving DecidableEq, Repr

/-- `H3State`. -/
inductive H3State where
  | initializing
  | ready
  | closing
  | closed
deriving DecidableEq, Repr

/-- `Role`. -/
inductive Role where
  | client
  | server
deriving DecidableEq, Repr

/-- `usize::MAX`. -/
def usizeMax : Nat := 2 ^ 64 - 1

/-- `H3Connection`. -/
structure H3Connection where
  state : H3State
  localSettings : Settings
  remoteSettings : Option Settings
  requestStreams : Table Nat RequestStream
  controlStreamId : Option Nat
  ourControlStream : Option Nat
  controlRecvBuf : List UInt8
  pendingUniStreams : List Nat
  partialUniTypeBufs : Table Nat (List UInt8)
  events : List H3Event
  settingsSent : Bool
  connId : Option Nat
  pendingSends : Table Nat PendingStream
  maxPendingBytes : Fin (2 ^ 64)
  role : Option Role

namespace H3Connection

/-- `H3Connection::new`. -/
def new (settings : Settings) : H3Connection where
  state := .initializing
  localSettings := settings
  remoteSettings := none
  requestStreams := .empty
  controlStreamId := none
  ourControlStream := none
  controlRecvBuf := []
  pendingUniStreams := []
  partialUniTypeBufs := .empty
  events := []
  settingsSent := false
  connId := none
  pendingSends := .empty
  maxPendingBytes := ⟨usizeMax, by decide⟩
  role := none

variable (c : H3Connection)

/-- `self.events.push_back`. -/
def push (e : H3Event) : H3Connection := { c with events := c.events ++ [e] }

/-- The bytes that wait in the queues of all streams. -/
def queuedBytes : Nat :=
  c.pendingSends.weight fun p => (p.queue.map List.length).sum

/-- `compute_pending_bytes` and `pending_bytes`: the sum as a `usize`. -/
def computePendingBytes : Nat := c.queuedBytes % 2 ^ 64

variable (stream : Nat)

/-- `has_pending_writes`. -/
def hasPendingWrites : Bool :=
  (c.pendingSends.get? stream).any fun p => !p.queue.isEmpty || p.pendingFin

/-- The queue of a stream is replaced. -/
def setPending (p : PendingStream) : H3Connection :=
  { c with pendingSends := c.pendingSends.insert stream p }

/-- `self.pending_sends.remove`. -/
def dropPending : H3Connection :=
  { c with pendingSends := c.pendingSends.erase stream }

/-- The state of a stream after one side of it has been closed; a closed stream is removed. -/
def setState (next : StreamState → StreamState) : H3Connection :=
  match c.requestStreams.get? stream with
  | none => c
  | some rs =>
    if next rs.state = .closed then { c with requestStreams := c.requestStreams.erase stream }
    else { c with
      requestStreams := c.requestStreams.insert stream { rs with state := next rs.state } }

/-- `finalize_local_close`. -/
def finalizeLocalClose : H3Connection :=
  c.setState stream StreamState.closeLocal

/-- `finalize_remote_close`. -/
def finalizeRemoteClose : H3Connection :=
  c.setState stream StreamState.closeRemote

/-- `cleanup_request_stream`. -/
def cleanupRequestStream : H3Connection :=
  { c with
    pendingSends := c.pendingSends.erase stream
    requestStreams := c.requestStreams.erase stream
    partialUniTypeBufs := c.partialUniTypeBufs.erase stream }

end H3Connection

/-- A connection and its transport. -/
structure Link where
  conn : H3Connection
  quic : Quic

namespace Link

variable (l : Link)

/-- A change of the connection. -/
def withConn (f : H3Connection → H3Connection) : Link := { l with conn := f l.conn }

/-- `fatal_error`. -/
def fatalError (e : H3Error) : Link :=
  let quic := if l.conn.connId.isSome && l.conn.state ≠ .closed then l.quic.closeConnection e else l.quic
  { conn := { l.conn with state := .closed }.push (.error e), quic := quic }

/-! ## Sending -/

/-- `queue_send` would put more bytes into the queues than allowed. -/
def overLimit (chunks : List (List UInt8)) : Bool :=
  l.conn.maxPendingBytes.val ≠ usizeMax &&
    l.conn.maxPendingBytes.val <
      min (l.conn.computePendingBytes + (chunks.map List.length).sum) usizeMax

/-- `queue_send`, after the transport has had its chance: `chunks` is what it has not taken. -/
def queueRest (stream : Nat) (chunks : List (List UInt8)) (fin : Bool)
    (answer : Except QuicError Unit) : Link × Except H3Error Unit :=
  let remaining := chunks.filter (· ≠ [])
  if remaining = [] ∧ fin = true then
    let finished := l.quic.streamFinish stream answer
    let l := { l with quic := finished.1 }
    match finished.2 with
    | .error e => (l, .error (.quic e))
    | .ok () => (l.withConn fun c => (c.finalizeLocalClose stream).dropPending stream, .ok ())
  else
    let p := (l.conn.pendingSends.get? stream).getD .default
    let p : PendingStream := ⟨p.queue ++ remaining, p.pendingFin || fin⟩
    -- entries with nothing to track are not kept
    if p.isDone then (l.withConn (·.dropPending stream), .ok ())
    else (l.withConn (·.setPending stream p), .ok ())

/-- `queue_send`. -/
def queueSend (ans : Answers) (stream : Nat) (chunks : List (List UInt8)) (fin : Bool) :
    Link × Except H3Error Unit :=
  if l.overLimit chunks then (l, .error .backpressureExceeded)
  else
    match (l.conn.pendingSends.get? stream).filter (!·.isDone) with
    | some pending =>
      -- behind what is queued already
      let p : PendingStream := ⟨pending.queue ++ chunks.filter (· ≠ []), pending.pendingFin || fin⟩
      (l.withConn (·.setPending stream p), .ok ())
    | none =>
      let sent := l.quic.streamSendChunks stream chunks (ans.writes.headD (.error (.write .blocked)))
      let l := { l with quic := sent.1 }
      match sent.2.1 with
      | .error e =>
        if e = .write .blocked then l.queueRest stream sent.2.2 fin ans.finish
        else (l, .error (.quic e))
      | .ok _ => l.queueRest stream sent.2.2 fin ans.finish

/-- The loop of `drain_pending_stream`, over what the transport answers.  The flag tells whether the
stream has failed. -/
def drainLoop (stream : Nat) : List (Except QuicError Nat) → Link → Link × Bool
  | answers, l =>
    match l.conn.pendingSends.get? stream with
    | none => (l, false)
    | some pending =>
      if pending.queue = [] then (l, false)
      else
        match answers with
        | [] => (l, false)
        | answer :: answers =>
          let sent := l.quic.streamSendChunks stream pending.queue answer
          let queue := sent.2.2.dropWhile (· = [])
          let l : Link := ⟨l.conn.setPending stream { pending with queue := queue }, sent.1⟩
          match sent.2.1 with
          | .ok 0 => (l, false)
          | .ok _ => drainLoop stream answers l
          | .error (.write .blocked) => (l, false)
          | .error e => (l.withConn fun c => (c.dropPending stream).push (.error (.quic e)), true)

/-- `drain_pending_stream`. -/
def drainPendingStream (ans : Answers) (stream : Nat) : Link × Except H3Error Unit :=
  let drained := drainLoop stream ans.writes l
  let l := drained.1
  if drained.2 then (l, .ok ())
  else
    match l.conn.pendingSends.get? stream with
    | none => (l, .ok ())
    | some pending =>
      if pending.queue = [] then
        let markSent := fun (c : H3Connection) =>
          if c.ourControlStream = some stream then { c with settingsSent := true } else c
        if pending.pendingFin then
          let finished := l.quic.streamFinish stream ans.finish
          let l := { l with quic := finished.1 }
          match finished.2 with
          | .error e => (l, .error (.quic e))
          | .ok () =>
            (l.withConn fun c => markSent ((c.finalizeLocalClose stream).dropPending stream), .ok ())
        else (l.withConn fun c => markSent (c.dropPending stream), .ok ())
      else (l, .ok ())

/-- `accept` and `initiate`. -/
def start (ans : Answers) (role : Role) (conn : Nat) : Link × Except H3Error Unit :=
  let l := l.withConn fun c => { c with connId := some conn, role := some role }
  match l.quic.openStream ans.opened with
  | .error e => (l, .error (.quic e))
  | .ok none => (l, .error (.internal "cannot open control stream"))
  | .ok (some stream) =>
    let l := l.withConn fun c => { c with ourControlStream := some stream }
    let buf := encodeVarint 0x00 ++ (Frame.settings l.conn.localSettings).encode
    let queued := l.queueSend ans stream [buf] false
    match queued.2 with
    | .error e => (queued.1, .error e)
    | .ok () =>
      (queued.1.withConn fun c => { c with settingsSent := !c.hasPendingWrites stream }, .ok ())

/-- The peer does not accept header sections of this size. -/
def tooLargeForPeer (headers : List HeaderField) : Bool :=
  l.conn.remoteSettings.any fun s => s.maxFieldSectionSize < fieldSectionSize headers

/-- `send_request`. -/
def sendRequest (ans : Answers) (headers : List HeaderField) (endStream : Bool) :
    Link × Except H3Error Nat :=
  if l.conn.state = .closing ∨ l.conn.state = .closed then
    (l, .error (.internal "connection is shutting down; cannot send new request"))
  else if l.tooLargeForPeer headers then (l, .error .excessiveSize)
  else if l.conn.connId.isNone then (l, .error (.internal "no connection"))
  else
    match l.quic.openStream ans.opened with
    | .error e => (l, .error (.quic e))
    | .ok none => (l, .error (.internal "cannot open bidi stream"))
    | .ok (some stream) =>
      let buf := (Frame.headers (Qpack.encode headers)).encode
      let rs := { RequestStream.new true with
        state := if endStream then StreamState.halfClosedLocal else .open }
      let l := l.withConn fun c => { c with requestStreams := c.requestStreams.insert stream rs }
      let queued := l.queueSend ans stream [buf] endStream
      match queued.2 with
      | .error e => (queued.1, .error e)
      | .ok () => (queued.1, .ok stream)

/-- A header section on a stream, as in `send_response` and `send_trailers`. -/
def sendHeaders (ans : Answers) (stream : Nat) (headers : List HeaderField) (endStream : Bool) :
    Link × Except H3Error Unit :=
  if l.tooLargeForPeer headers then (l, .error .excessiveSize)
  else if l.conn.connId.isNone then (l, .error (.internal "no connection"))
  else l.queueSend ans stream [(Frame.headers (Qpack.encode headers)).encode] endStream

/-- `send_response`. -/
def sendResponse (ans : Answers) (stream : Nat) (headers : List HeaderField) (endStream : Bool) :
    Link × Except H3Error Unit :=
  l.sendHeaders ans stream headers endStream

/-- `send_trailers`. -/
def sendTrailers (ans : Answers) (stream : Nat) (trailers : List HeaderField) :
    Link × Except H3Error Unit :=
  l.sendHeaders ans stream trailers true

/-- `send_data` and `send_data_bytes`. -/
def sendData (ans : Answers) (stream : Nat) (data : List UInt8) (endStream : Bool) :
    Link × Except H3Error Unit :=
  if l.conn.connId.isNone then (l, .error (.internal "no connection"))
  else l.queueSend ans stream [encodeFrameHeader 0x00 data.length, data] endStream

/-- `send_goaway`. -/
def sendGoaway (ans : Answers) (lastStreamId : Nat) : Link × Except H3Error Unit :=
  if l.conn.connId.isNone then (l, .error (.internal "no connection"))
  else
    match l.conn.ourControlStream with
    | none => (l, .error (.internal "no control stream"))
    | some control =>
      let queued := l.queueSend ans control [(Frame.goAway lastStreamId).encode] false
      match queued.2 with
      | .error e => (queued.1, .error e)
      | .ok () => (queued.1.withConn fun c => { c with state := .closing }, .ok ())

/-! ## Request streams -/

/-- How the loop over the frames of a stream goes on. -/
inductive Flow where
  | next
  | leave
  | abort
deriving DecidableEq, Repr

/-- The connection fails because of a frame. -/
def refuse (e : H3Error) : Link × Flow := (l.fatalError e, .abort)

/-- An update of the stream. -/
def updateStream (stream : Nat) (f : RequestStream → RequestStream) : Link :=
  l.withConn fun c => { c with requestStreams := c.requestStreams.modify stream f }

/-- A header section that has been decoded and checked. -/
def takeHeaders (stream : Nat) (rs : RequestStream) (headers : List HeaderField) (atEnd : Bool) :
    Link :=
  if rs.initialHeadersReceived then
    (l.updateStream stream fun rs => { rs with trailersReceived := true }).withConn fun c =>
      (c.finalizeRemoteClose stream).push (.trailers stream headers)
  else
    let l := l.updateStream stream fun rs => { rs with initialHeadersReceived := true }
    let l :=
      if atEnd then l.withConn (·.finalizeRemoteClose stream)
      else l.updateStream stream fun rs =>
        if rs.state = .waitingHeaders then { rs with state := .open } else rs
    if rs.clientInitiated then l.withConn (·.push (.response stream headers atEnd))
    else l.withConn (·.push (.request stream headers atEnd))

/-- A HEADERS frame in `process_request_frames`. -/
def onHeaders (stream : Nat) (rs : RequestStream) (encoded : List UInt8) (atEnd : Bool) :
    Link × Flow :=
  if rs.trailersReceived then l.refuse .frameUnexpected
  else if rs.initialHeadersReceived ∧ atEnd = false then l.refuse .frameUnexpected
  else
    match checkHeaders l.conn.localSettings.maxFieldSectionSize rs.headerKind encoded with
    | .error e => l.refuse e
    | .ok headers => (l.takeHeaders stream rs headers atEnd, .next)

/-- A DATA frame in `process_request_frames`. -/
def onData (stream : Nat) (rs : RequestStream) (payload : List UInt8) (atEnd : Bool) :
    Link × Flow :=
  if rs.initialHeadersReceived = false ∨ rs.trailersReceived = true then l.refuse .frameUnexpected
  else
    let l := if atEnd then l.withConn (·.finalizeRemoteClose stream) else l
    (l.withConn (·.push (.data stream payload atEnd)), .next)

/-- One frame in `process_request_frames`. -/
def onFrame (stream : Nat) (frame : Frame) (atEnd : Bool) : Link × Flow :=
  match frame with
  | .headers encoded =>
    match l.conn.requestStreams.get? stream with
    | none => (l, .leave)
    | some rs => l.onHeaders stream rs encoded atEnd
  | .data payload =>
    match l.conn.requestStreams.get? stream with
    | none => (l, .leave)
    | some rs => l.onData stream rs payload atEnd
  | .settings _ | .goAway _ => l.refuse .frameUnexpected
  | .unknown _ _ => (l, .next)

/-- The loop of `process_request_frames`: what is left of the buffer, and whether the connection has
failed.  Every frame takes a byte at least, so the length of the buffer is fuel enough. -/
def frameLoop (stream : Nat) (fin : Bool) : Nat → Link → List UInt8 → Link × List UInt8 × Bool
  | 0, l, buf => (l, buf, false)
  | fuel + 1, l, buf =>
    if buf = [] then (l, buf, false)
    else
      match decodeFrame buf with
      | .ok none => (l, buf, false)
      | .error e => (l.fatalError e, buf, true)
      | .ok (some decoded) =>
        let rest := buf.drop decoded.2
        let taken := l.onFrame stream decoded.1 (fin && rest.isEmpty)
        match taken.2 with
        | .next => frameLoop stream fin fuel taken.1 rest
        | .leave => (taken.1, rest, false)
        | .abort => (taken.1, rest, true)

/-- The end of a stream, once all its frames have been taken. -/
def endStream (stream : Nat) : Link :=
  let emitEmptyFin := (l.conn.requestStreams.get? stream).any fun rs => rs.state = .open
  let l := l.withConn (·.finalizeRemoteClose stream)
  if emitEmptyFin then l.withConn (·.push (.data stream [] true)) else l

/-- `process_request_frames`. -/
def processRequestFrames (stream : Nat) (fin : Bool) : Link :=
  match l.conn.requestStreams.get? stream with
  | none => l
  | some rs =>
    -- the buffer is taken out of the stream while it is worked on
    let l := l.updateStream stream fun rs => { rs with recvBuf := [] }
    let done := frameLoop stream fin (rs.recvBuf.length + 1) l rs.recvBuf
    if done.2.2 then done.1
    else
      let l := if fin ∧ done.2.1 = [] then done.1.endStream stream else done.1
      l.updateStream stream fun rs => { rs with recvBuf := done.2.1 }

/-- What a round of reads of a stream has given: the bytes, whether they end the stream, and the code
if the peer has reset it. -/
structure ReadRound where
  data : List UInt8
  fin : Bool
  reset : Option Nat

/-- The loop of `read_request_stream`. -/
def readLoop (closed : Bool) : List (Except QuicError (List UInt8 × Bool)) → ReadRound
  | [] => ⟨[], false, none⟩
  | answer :: answers =>
    if closed then ⟨[], false, none⟩
    else
      match answer with
      | .ok (data, fin) =>
        if data = [] ∨ fin = true then ⟨data, fin, none⟩
        else
          let later := readLoop closed answers
          { later with data := data ++ later.data }
      | .error (.read (.reset code)) => ⟨[], false, some code⟩
      | .error _ => ⟨[], false, none⟩

/-- `read_request_stream`. -/
def readRequestStream (ans : Answers) (stream : Nat) : Link :=
  match l.conn.requestStreams.get? stream with
  | none => l
  | some _ =>
    let round := readLoop l.quic.closed ans.reads
    match round.reset with
    | some code =>
      l.withConn fun c => (c.cleanupRequestStream stream).push (.streamReset stream code)
    | none =>
      (l.updateStream stream fun rs => { rs with recvBuf := rs.recvBuf ++ round.data }).processRequestFrames
        stream round.fin

/-! ## The control stream of the peer -/

/-- One frame of `process_control_frames`; the flag tells whether the connection goes on. -/
def onControlFrame (frame : Frame) : Link × Bool :=
  match frame, l.conn.remoteSettings with
  | .settings s, none =>
    (l.withConn fun c => { c with
      remoteSettings := some s
      state := if c.state = .initializing ∧ c.settingsSent = true then .ready else c.state }, true)
  | _, none => (l.fatalError .missingSettings, false)
  | .settings _, some _ => (l.fatalError .frameUnexpected, false)
  | .goAway streamId, some _ =>
    (l.withConn fun c => { c with state := .closing }.push (.goAway streamId), true)
  | .data _, some _ | .headers _, some _ => (l.fatalError .frameUnexpected, false)
  | .unknown _ _, some _ => (l, true)

/-- `process_control_frames`; the length of the buffer is fuel enough. -/
def processControlFrames : Nat → Link → Link
  | 0, l => l
  | fuel + 1, l =>
    if l.conn.controlRecvBuf = [] then l
    else
      match decodeFrame l.conn.controlRecvBuf with
      | .ok none => l
      | .error e => l.fatalError e
      | .ok (some decoded) =>
        let taken := l.onControlFrame decoded.1
        if taken.2 then
          processControlFrames fuel (taken.1.withConn fun c =>
            { c with controlRecvBuf := c.controlRecvBuf.drop decoded.2 })
        else taken.1

/-- `read_control_stream`.  A reset is an error like others here. -/
def readControlStream (reads : List (Except QuicError (List UInt8 × Bool))) : Link :=
  let round := readLoop l.quic.closed reads
  let l := l.withConn fun c => { c with controlRecvBuf := c.controlRecvBuf ++ round.data }
  if round.fin then l.fatalError .closedCriticalStream
  else processControlFrames (l.conn.controlRecvBuf.length + 1) l

/-- `stream_recv` into a buffer of `max` bytes: what is read, and what is left to read. -/
def streamRecv (closed : Bool) (max : Nat) :
    List (Except QuicError (List UInt8 × Bool)) →
      Except QuicError (List UInt8) × List (Except QuicError (List UInt8 × Bool))
  | reads =>
    if closed then (.error .invalidConnection, reads)
    else
      match reads with
      | [] => (.ok [], [])
      | .error e :: reads => (.error e, reads)
      | .ok (data, fin) :: reads =>
        -- the end of the stream is not reported while the buffer is full
        if data.length < max ∨ (data.length = max ∧ fin = false) then (.ok data, reads)
        else (.ok (data.take max), .ok (data.drop max, fin) :: reads)

/-- `identify_uni_stream`. -/
def identifyUniStream (ans : Answers) (stream : Nat) : Link × Except H3Error Unit :=
  let accumulated := (l.conn.partialUniTypeBufs.get? stream).getD []
  let l := l.withConn fun c => { c with partialUniTypeBufs := c.partialUniTypeBufs.erase stream }
  let read := streamRecv l.quic.closed (8 - accumulated.length) ans.reads
  match read.1 with
  | .error e => (l, .error (.quic e))
  | .ok data =>
    let accumulated := accumulated ++ data
    if accumulated = [] then
      (l.withConn fun c => { c with pendingUniStreams := c.pendingUniStreams ++ [stream] }, .ok ())
    else
      match decodeVarint accumulated with
      | none =>
        (l.withConn fun c => { c with
          partialUniTypeBufs := c.partialUniTypeBufs.insert stream accumulated
          pendingUniStreams := c.pendingUniStreams ++ [stream] }, .ok ())
      | some streamType =>
        if streamType.1 = 0x00 then
          if l.conn.controlStreamId.isSome then (l.fatalError .frameUnexpected, .ok ())
          else
            let l := l.withConn fun c => { c with
              controlStreamId := some stream
              controlRecvBuf := c.controlRecvBuf ++ accumulated.drop streamType.2 }
            (l.readControlStream read.2, .ok ())
        else (l, .ok ())

/-! ## Events of the transport -/

/-- `handle_stream_readable`. -/
def handleStreamReadable (ans : Answers) (stream : Nat) : Link × Except H3Error Unit :=
  if stream ∈ l.conn.pendingUniStreams then
    (l.withConn fun c => { c with
      pendingUniStreams := c.pendingUniStreams.erase stream }).identifyUniStream ans stream
  else if l.conn.controlStreamId = some stream then (l.readControlStream ans.reads, .ok ())
  else if (l.conn.requestStreams.get? stream).isSome then (l.readRequestStream ans stream, .ok ())
  else (l, .ok ())

/-- `QuicEvent`, as far as the connection looks at it. -/
inductive QuicEvent where
  | newConnection (conn : Nat)
  | connected (conn : Nat)
  | streamOpened (stream : Nat) (bidi : Bool)
  | streamReadable (stream : Nat)
  | streamWritable (stream : Nat)
  | zeroRttRejected
  | streamStopped (stream : Nat) (errorCode : Nat)
  | connectionClosed
  | other

/-- `handle_quic_event`. -/
def handleQuicEvent (ans : Answers) : QuicEvent → Link × Except H3Error Unit
  | .newConnection conn => l.start ans .server conn
  | .connected conn => l.start ans .client conn
  | .streamOpened stream true =>
    if l.conn.role = some .client then
      let code := H3Error.idError.code
      let quic := (l.quic.resetStream stream code).stopSending stream code
      ({ l with quic := quic }.fatalError .idError, .ok ())
    else
      ((l.withConn fun c => { c with
        requestStreams := c.requestStreams.insert stream (.new false) }).readRequestStream ans stream,
        .ok ())
  | .streamOpened stream false => l.identifyUniStream ans stream
  | .streamReadable stream => l.handleStreamReadable ans stream
  | .streamWritable stream => l.drainPendingStream ans stream
  | .zeroRttRejected =>
    (l.withConn fun c =>
      { c with pendingSends := .empty, requestStreams := .empty }.push .zeroRttRejected, .ok ())
  | .streamStopped stream errorCode =>
    (l.withConn fun c => (c.cleanupRequestStream stream).push (.streamReset stream errorCode), .ok ())
  | .connectionClosed =>
    (l.withConn fun c =>
      { c with
        state := .closed
        pendingSends := .empty
        requestStreams := .empty
        partialUniTypeBufs := .empty
        pendingUniStreams := []
        controlRecvBuf := [] }.push (.goAway 0), .ok ())
  | .other => (l, .ok ())

end Link
end Ringline.H3
