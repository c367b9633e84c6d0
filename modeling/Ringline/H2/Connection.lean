import Ringline.Base.Chunks
import Ringline.Base.Table
import Ringline.H2.Frame
import Ringline.H2.Hpack

/-!
# The HTTP/2 client connection

`ringline-h2/src/connection.rs` with `flowcontrol.rs` and `stream.rs`.  `H2Connection` performs no
input or output: the peer's bytes go in through `recv`, requests through `sendRequest`, `sendData`
and `resetStream`, and frames and events come out.

* The struct of the source is two structures here: `Client` is an `H2Connection` with its receive
  buffer in front.  Only `recv` and `process_recv_buf` look at the buffer, so the handlers, which
  work on the rest, cannot depend on how the peer's bytes arrive.
* A handler that fails keeps what it changed before the failure, so every handler returns the
  connection next to its result.
* `sendBuf` holds the frames appended to the send buffer; its bytes are `pendingSend`.  `sendBuf` and
  `events` are never drained here: `take_pending_send` and `poll_event` take from the front what the
  lists hold, and change nothing else.
* `streams` is a `Table`.  The iteration order of the hash map it stands for is a field of its own,
  `order`, about which nothing is assumed.
-/

set_option autoImplicit false

namespace Ringline.H2

/-! ## Flow control -/

/-- `FlowControl`. -/
structure FlowControl where
  window : Int
deriving DecidableEq, Repr

/-- `DEFAULT_WINDOW_SIZE`. -/
def defaultWindowSize : Int := 65535

namespace FlowControl

variable (fc : FlowControl)

def consume (amount : Nat) : Except H2Error FlowControl :=
  if fc.window - amount < 0 then .error .flowControlError else .ok ⟨fc.window - amount⟩

def increase (increment : Nat) : Except H2Error FlowControl :=
  if fc.window + increment > 0x7fffffff then .error .flowControlError
  else .ok ⟨fc.window + increment⟩

def adjust (delta : Int) : Except H2Error FlowControl :=
  if fc.window + delta > 0x7fffffff then .error .flowControlError else .ok ⟨fc.window + delta⟩

/-- `if amount > 0 { fc.consume(amount)? }`. -/
def debit (amount : Nat) : Except H2Error FlowControl :=
  if 0 < amount then fc.consume amount else .ok fc

/-- `let _ = fc.increase(n)`: a failure leaves the window alone. -/
def increaseOrKeep (increment : Nat) : FlowControl :=
  match fc.increase increment with
  | .ok fc => fc
  | .error _ => fc

end FlowControl

/-! ## Streams -/

inductive StreamState where
  | idle | open | halfClosedLocal | halfClosedRemote | closed
deriving DecidableEq, Repr

/-- The state of a stream after a frame of the peer with or without END_STREAM. -/
def StreamState.remote (state : StreamState) (endStream : Bool) : StreamState :=
  if endStream then if state = halfClosedLocal then closed else halfClosedRemote else state

structure H2Stream where
  state : StreamState
  recvWindow : FlowControl
  sendWindow : FlowControl
  headerBuf : List UInt8
  receivingHeaders : Bool
  headersEndStream : Bool
  receivedInitialResponse : Bool
deriving DecidableEq, Repr

/-- `H2Stream::new`. -/
def H2Stream.new (initialRecvWindow initialSendWindow : Int) : H2Stream where
  state := .open
  recvWindow := ⟨initialRecvWindow⟩
  sendWindow := ⟨initialSendWindow⟩
  headerBuf := []
  receivingHeaders := false
  headersEndStream := false
  receivedInitialResponse := false

/-! ## Header sections -/

/-- `String::from_utf8_lossy`, exact for names that are UTF-8. -/
def fromUtf8Lossy (bytes : List UInt8) : String :=
  (String.fromUTF8? ⟨bytes.toArray⟩).getD "\uFFFD"

/-- The headers that belong to one connection and are forbidden in HTTP/2. -/
def forbiddenHeaders : List (List UInt8) :=
  ["connection", "proxy-connection", "keep-alive", "transfer-encoding", "upgrade"].map bytesOf

/-- `validate_regular_header`. -/
def validateRegularHeader (h : HeaderField) : Except H2Error Unit :=
  if h.name.any fun b => 65 ≤ b.toNat ∧ b.toNat ≤ 90 then
    .error (.messageError ("uppercase header name: " ++ fromUtf8Lossy h.name))
  else if h.name ∈ forbiddenHeaders then
    .error (.messageError
      ("connection-specific header forbidden in HTTP/2: " ++ fromUtf8Lossy h.name))
  else if h.name = bytesOf "te" ∧ h.value ≠ bytesOf "trailers" then
    .error (.messageError "TE header may only contain `trailers` in HTTP/2")
  else .ok ()

/-- The loop of `validate_response`, with its two locals. -/
def validateResponseLoop (seenRegular : Bool) (statusCount : Nat) :
    List HeaderField → Except H2Error Nat
  | [] => .ok statusCount
  | h :: rest =>
    match h.name with
    | [] => .error (.messageError "empty header name")
    | b :: _ =>
      if b = 58 then
        if seenRegular then .error (.messageError "pseudo-header after regular header")
        else if h.name ≠ bytesOf ":status" then
          .error (.messageError
            ("unexpected pseudo-header in response: " ++ fromUtf8Lossy h.name))
        else if statusCount + 1 > 1 then .error (.messageError "duplicate :status")
        else validateResponseLoop seenRegular (statusCount + 1) rest
      else
        match validateRegularHeader h with
        | .error e => .error e
        | .ok () => validateResponseLoop true statusCount rest

/-- `validate_response`. -/
def validateResponse (headers : List HeaderField) : Except H2Error Unit :=
  match validateResponseLoop false 0 headers with
  | .error e => .error e
  | .ok statusCount =>
    if statusCount = 0 then .error (.messageError "missing :status pseudo-header") else .ok ()

/-- `validate_trailers`. -/
def validateTrailers : List HeaderField → Except H2Error Unit
  | [] => .ok ()
  | h :: rest =>
    match h.name with
    | [] => .error (.messageError "empty header name")
    | b :: _ =>
      if b = 58 then .error (.messageError "pseudo-header in trailers")
      else
        match validateRegularHeader h with
        | .error e => .error e
        | .ok () => validateTrailers rest

/-! ## The connection -/

/-- `H2Event`. -/
inductive H2Event where
  | response (streamId : Nat) (headers : List HeaderField) (endStream : Bool)
  | data (streamId : Nat) (data : List UInt8) (endStream : Bool)
  | trailers (streamId : Nat) (headers : List HeaderField)
  | streamReset (streamId : Nat) (errorCode : ErrorCode)
  | goAway (lastStreamId : Nat) (errorCode : ErrorCode) (debugData : List UInt8)
  | pingAcknowledged (opaqueData : List UInt8)
  | settingsAcknowledged
  | error (e : H2Error)
deriving DecidableEq, Repr

inductive ConnState where
  | waitingPreface | ready | closing | closed
deriving DecidableEq, Repr

/-- `matches!(state, Closing | Closed)`. -/
def ConnState.done : ConnState → Bool
  | closing | closed => true
  | _ => false

/-- `WINDOW_UPDATE_THRESHOLD`. -/
def windowUpdateThreshold : Int := 32768

/-- `MAX_STREAM_ID`. -/
def maxStreamId : Nat := 0x7fffffff

/-- `DEFAULT_MAX_RECV_BUF`. -/
def defaultMaxRecvBuf : Nat := 262144

/-- `H2Connection`, without `recv_buf`. -/
structure H2Connection where
  state : ConnState
  localSettings : Settings
  remoteSettings : Settings
  streams : Table Nat H2Stream
  /-- The order in which the hash map of streams is iterated. -/
  order : Table.Order Nat H2Stream
  nextStreamId : Nat
  connRecvWindow : FlowControl
  connSendWindow : FlowControl
  encoder : Encoder
  decoder : Decoder
  continuationStream : Option Nat
  sendBuf : List Frame
  events : List H2Event
  initialRecvWindow : Int
  maxRecvBuf : Nat
  receivedAnyFrame : Bool
  peerLastStreamId : Option Nat

/-- `CLIENT_PREFACE`. -/
def clientPreface : List UInt8 := bytesOf "PRI * HTTP/2.0\r\n\r\nSM\r\n\r\n"

namespace H2Connection

variable (c : H2Connection)

/-- Append a frame to the send buffer. -/
def emit (f : Frame) : H2Connection := { c with sendBuf := c.sendBuf ++ [f] }

/-- `events.push_back`. -/
def push (e : H2Event) : H2Connection := { c with events := c.events ++ [e] }

/-- Everything the connection has put into its send buffer. -/
def pendingSend : List UInt8 := clientPreface ++ c.sendBuf.flatMap Frame.encode

/-- `H2Connection::new`. -/
def new (settings : Settings) (order : Table.Order Nat H2Stream) : H2Connection where
  state := .waitingPreface
  localSettings := settings
  remoteSettings := {}
  streams := .empty
  order := order
  nextStreamId := 1
  connRecvWindow := ⟨settings.initialWindowSize⟩
  connSendWindow := ⟨defaultWindowSize⟩
  encoder := .new settings.headerTableSize
  decoder := .new 4096
  continuationStream := none
  sendBuf := .settings false settings ::
    if (settings.initialWindowSize : Int) > defaultWindowSize then
      [.windowUpdate 0 (settings.initialWindowSize - 65535)]
    else []
  events := []
  initialRecvWindow := settings.initialWindowSize
  maxRecvBuf := defaultMaxRecvBuf
  receivedAnyFrame := false
  peerLastStreamId := none

/-- `set_max_recv_buf`. -/
def setMaxRecvBuf (n : Nat) : H2Connection := { c with maxRecvBuf := n }

/-- `fatal_error`. -/
def fatalError (e : H2Error) : H2Connection :=
  if c.state.done then c
  else
    ({ c.emit (.goAway (c.nextStreamId - 2) e.code []) with state := .closing }).push (.error e)

/-! ## Requests -/

/-- The end of `send_request`: the request is accepted. -/
def openStream (headers : List HeaderField) (endStream : Bool) : H2Connection :=
  let streamId := c.nextStreamId
  let (encoder, encoded) := c.encoder.encode headers
  let stream := H2Stream.new c.initialRecvWindow c.remoteSettings.initialWindowSize
  let stream := if endStream then { stream with state := .halfClosedLocal } else stream
  ({ c with
      nextStreamId := c.nextStreamId + 2
      encoder := encoder
      streams := c.streams.insert streamId stream }).emit
    (.headers streamId encoded endStream true none)

/-- `send_request`. -/
def sendRequest (headers : List HeaderField) (endStream : Bool) :
    H2Connection × Except H2Error Nat :=
  let refused : Except H2Error Nat := .error (.connectionError .refusedStream)
  if c.state.done then (c, refused)
  else if c.remoteSettings.maxConcurrentStreams.any
      (· ≤ (c.streams.values.filter (·.state ≠ .closed)).length) then (c, refused)
  else if c.nextStreamId > maxStreamId then (c, refused)
  else (c.openStream headers endStream, .ok c.nextStreamId)

/-- DATA frames with these chunks, the last of which may end the stream. -/
def dataFrames (streamId : Nat) (endStream : Bool) : List (List UInt8) → List Frame
  | [] => []
  | [chunk] => [.data streamId chunk endStream]
  | chunk :: rest => .data streamId chunk false :: dataFrames streamId endStream rest

/-- The chunks of `send_data`; empty data is one empty chunk. -/
def dataChunks (maxFrame : Nat) (data : List UInt8) : List (List UInt8) :=
  if data = [] then [[]] else Chunks.chunks maxFrame data

/-- The end of `send_data`: the windows allow it. -/
def sendChunks (streamId : Nat) (stream : H2Stream) (data : List UInt8) (endStream : Bool) :
    H2Connection :=
  let len := data.length % 4294967296
  let state :=
    if endStream then
      if stream.state = .halfClosedRemote then StreamState.closed else .halfClosedLocal
    else stream.state
  { c with
    streams := c.streams.modify streamId fun s =>
      { s with sendWindow := ⟨s.sendWindow.window - len⟩, state := state }
    connSendWindow := ⟨c.connSendWindow.window - len⟩
    sendBuf := c.sendBuf ++
      dataFrames streamId endStream (dataChunks c.remoteSettings.maxFrameSize data) }

/-- `send_data`. -/
def sendData (streamId : Nat) (data : List UInt8) (endStream : Bool) :
    H2Connection × Except H2Error Unit :=
  match c.streams.get? streamId with
  | none => (c, .error (.internal "unknown stream"))
  | some stream =>
    if stream.state ≠ .open ∧ stream.state ≠ .halfClosedRemote then
      (c, .error (.streamError streamId .streamClosed))
    else
      let len := data.length % 4294967296
      if 0 < len ∧ stream.sendWindow.window < len then (c, .error .flowControlError)
      else if 0 < len ∧ c.connSendWindow.window < len then (c, .error .flowControlError)
      else (c.sendChunks streamId stream data endStream, .ok ())

/-- `reset_stream`. -/
def resetStream (streamId : Nat) (code : ErrorCode) : H2Connection :=
  { c.emit (.rstStream streamId code) with
    streams := c.streams.modify streamId fun s => { s with state := .closed } }

/-- `send_ping`. -/
def sendPing : H2Connection := c.emit (.ping false (List.replicate 8 0))

/-- `send_goaway`. -/
def sendGoaway (code : ErrorCode) : H2Connection :=
  { c.emit (.goAway 0 code []) with state := .closing }

/-! ## Handling one frame -/

/-- The update of one stream in `handle_settings`. -/
def adjustStream (delta : Int) (s : H2Stream) : Except H2Error H2Stream :=
  if s.state = .closed then .ok s
  else
    match s.sendWindow.adjust delta with
    | .error e => .error e
    | .ok fc => .ok { s with sendWindow := fc }

/-- The loop of `handle_settings` over the streams. -/
def adjustStreams (delta : Int) : Table Nat H2Stream × Except H2Error Unit :=
  if delta ≠ 0 then (c.order.walk c.streams).tryMap (adjustStream delta) else (c.streams, .ok ())

/-- `handle_settings`. -/
def handleSettings (ack : Bool) (settings : Settings) : H2Connection × Except H2Error Unit :=
  if ack then (c.push .settingsAcknowledged, .ok ())
  else
    let delta : Int := (settings.initialWindowSize : Int) - c.remoteSettings.initialWindowSize
    let r := c.adjustStreams delta
    let c := { c with
      remoteSettings := settings
      encoder := c.encoder.updateMaxTableSize settings.headerTableSize
      streams := r.1 }
    match r.2 with
    | .error e => (c, .error e)
    | .ok () =>
      let c := c.emit (.settings true {})
      (if c.state = .waitingPreface then { c with state := .ready } else c, .ok ())

/-- The checks of `decode_and_emit_headers` on decoded headers: the first block of a stream is its
response, a second one its trailers. -/
def checkHeaders (stream : H2Stream) (headers : List HeaderField) (endStream : Bool) :
    Except H2Error Unit :=
  if !stream.receivedInitialResponse then validateResponse headers
  else
    match validateTrailers headers with
    | .error e => .error e
    | .ok () =>
      if !endStream then .error (.protocolError "trailers without END_STREAM") else .ok ()

/-- The end of `decode_and_emit_headers`: the headers are accepted. -/
def deliverHeaders (streamId : Nat) (stream : H2Stream) (headers : List HeaderField)
    (endStream : Bool) : H2Connection :=
  let state := stream.state.remote endStream
  let c := { c with
    streams := c.streams.modify streamId fun s =>
      { s with receivedInitialResponse := true, state := state } }
  let c := c.push
    (if !stream.receivedInitialResponse then .response streamId headers endStream
      else .trailers streamId headers)
  if state = .closed then { c with streams := c.streams.erase streamId } else c

/-- The part of `decode_and_emit_headers` after decoding. -/
def emitHeaders (streamId : Nat) (headers : List HeaderField) (endStream : Bool) :
    H2Connection × Except H2Error Unit :=
  let total := (headers.map HeaderField.size).sum
  match c.localSettings.maxHeaderListSize.filter (· < total) with
  | some max =>
    (c, .error (.maxSizeExceeded
      s!"decoded header list size {total} exceeds SETTINGS_MAX_HEADER_LIST_SIZE ({max})"))
  | none =>
    match c.streams.get? streamId with
    | none => (c, .ok ())
    | some stream =>
      match checkHeaders stream headers endStream with
      | .error e => (c, .error e)
      | .ok () => (c.deliverHeaders streamId stream headers endStream, .ok ())

/-- `decode_and_emit_headers`. -/
def decodeAndEmitHeaders (streamId : Nat) (encoded : List UInt8) (endStream : Bool) :
    H2Connection × Except H2Error Unit :=
  match c.localSettings.maxHeaderListSize.filter (· < encoded.length) with
  | some max =>
    (c, .error (.maxSizeExceeded
      (s!"header block ({encoded.length} bytes) exceeds " ++
        s!"SETTINGS_MAX_HEADER_LIST_SIZE ({max})")))
  | none =>
    let (decoder, result) := c.decoder.decode encoded
    let c := { c with decoder := decoder }
    match result with
    | .error (.error e) => (c, .error e)
    | .error .panic => (c, .error (.internal "panic"))
    | .ok headers => c.emitHeaders streamId headers endStream

/-- `handle_headers`. -/
def handleHeaders (streamId : Nat) (encoded : List UInt8) (endStream endHeaders : Bool) :
    H2Connection × Except H2Error Unit :=
  match c.streams.get? streamId with
  | none => (c, .error (.protocolError s!"HEADERS on unknown stream {streamId}"))
  | some stream =>
    if endHeaders then
      decodeAndEmitHeaders
        { c with streams := c.streams.modify streamId fun s => { s with headerBuf := [] } }
        streamId (stream.headerBuf ++ encoded) endStream
    else
      ({ c with
          streams := c.streams.modify streamId fun s =>
            { s with
              headerBuf := s.headerBuf ++ encoded
              receivingHeaders := true
              headersEndStream := endStream }
          continuationStream := some streamId }, .ok ())

/-- `handle_continuation`. -/
def handleContinuation (streamId : Nat) (encoded : List UInt8) (endHeaders : Bool) :
    H2Connection × Except H2Error Unit :=
  match c.streams.get? streamId with
  | none => (c, .ok ())
  | some stream =>
    if endHeaders then
      decodeAndEmitHeaders
        { c with
          streams := c.streams.modify streamId fun s =>
            { s with headerBuf := [], receivingHeaders := false }
          continuationStream := none }
        streamId (stream.headerBuf ++ encoded) stream.headersEndStream
    else
      ({ c with
          streams := c.streams.modify streamId fun s =>
            { s with headerBuf := s.headerBuf ++ encoded } }, .ok ())

/-- `as u32` of a difference of windows. -/
def asU32 (n : Int) : Nat := (n % 4294967296).toNat

/-- The connection half of `maybe_send_window_updates`. -/
def updateConnWindow : H2Connection :=
  let increment := asU32 (c.initialRecvWindow - c.connRecvWindow.window)
  if c.connRecvWindow.window < windowUpdateThreshold ∧ 0 < increment then
    { c.emit (.windowUpdate 0 increment) with
      connRecvWindow := c.connRecvWindow.increaseOrKeep increment }
  else c

/-- The stream half of `maybe_send_window_updates`. -/
def updateStreamWindow (streamId : Nat) : H2Connection :=
  match c.streams.get? streamId with
  | none => c
  | some s =>
    let increment := asU32 (c.initialRecvWindow - s.recvWindow.window)
    if s.state ≠ .closed ∧ s.state ≠ .halfClosedRemote ∧
        s.recvWindow.window < windowUpdateThreshold ∧ 0 < increment then
      { c.emit (.windowUpdate streamId increment) with
        streams := c.streams.modify streamId fun s =>
          { s with recvWindow := s.recvWindow.increaseOrKeep increment } }
    else c

/-- `maybe_send_window_updates`. -/
def maybeSendWindowUpdates (streamId dataLen : Nat) : H2Connection :=
  if dataLen = 0 then c else c.updateConnWindow.updateStreamWindow streamId

/-- The answer to DATA on a stream that is gone: the connection window is restored and the stream
reset. -/
def refuseData (streamId dataLen : Nat) : H2Connection :=
  let c :=
    if 0 < dataLen then
      { c with connRecvWindow := c.connRecvWindow.increaseOrKeep dataLen }.emit
        (.windowUpdate 0 dataLen)
    else c
  c.emit (.rstStream streamId .streamClosed)

/-- The end of `handle_data`: the payload is accepted. -/
def deliverData (streamId : Nat) (stream : H2Stream) (recvWindow : FlowControl)
    (payload : List UInt8) (endStream : Bool) : H2Connection :=
  let state := stream.state.remote endStream
  let c := { c with
    streams := c.streams.modify streamId fun s =>
      { s with recvWindow := recvWindow, state := state } }
  let c := c.push (.data streamId payload endStream)
  let c := c.maybeSendWindowUpdates streamId (payload.length % 4294967296)
  if endStream ∧ state = .closed then { c with streams := c.streams.erase streamId } else c

/-- `handle_data`. -/
def handleData (streamId : Nat) (payload : List UInt8) (endStream : Bool) :
    H2Connection × Except H2Error Unit :=
  let dataLen := payload.length % 4294967296
  match c.connRecvWindow.debit dataLen with
  | .error e => (c, .error e)
  | .ok connRecvWindow =>
    let c := { c with connRecvWindow := connRecvWindow }
    match c.streams.get? streamId with
    | none => (c.refuseData streamId dataLen, .ok ())
    | some stream =>
      if stream.state = .closed ∨ stream.state = .halfClosedRemote then
        let c := c.refuseData streamId dataLen
        ({ c with streams := c.streams.erase streamId }, .ok ())
      else
        match stream.recvWindow.debit dataLen with
        | .error e => (c, .error e)
        | .ok recvWindow => (c.deliverData streamId stream recvWindow payload endStream, .ok ())

/-- `handle_window_update`. -/
def handleWindowUpdate (streamId increment : Nat) : H2Connection × Except H2Error Unit :=
  if streamId = 0 then
    match c.connSendWindow.increase increment with
    | .error e => (c, .error e)
    | .ok fc => ({ c with connSendWindow := fc }, .ok ())
  else
    match c.streams.get? streamId with
    | none => (c.emit (.rstStream streamId .streamClosed), .ok ())
    | some stream =>
      match stream.sendWindow.increase increment with
      | .ok fc =>
        ({ c with streams := c.streams.modify streamId fun s => { s with sendWindow := fc } },
          .ok ())
      | .error _ =>
        ((({ c with streams := c.streams.erase streamId }).emit
          (.rstStream streamId .flowControlError)).push
          (.streamReset streamId .flowControlError), .ok ())

/-- The loop over the streams a GOAWAY gives up. -/
def resetAll (c : H2Connection) : List Nat → H2Connection
  | [] => c
  | id :: rest =>
    (({ c with streams := c.streams.erase id }).push (.streamReset id .refusedStream)).resetAll rest

/-- The GOAWAY arm of `handle_frame`. -/
def handleGoAway (lastStreamId : Nat) (code : ErrorCode) (debugData : List UInt8) :
    H2Connection × Except H2Error Unit :=
  match c.peerLastStreamId.filter (· < lastStreamId) with
  | some prev =>
    (c, .error (.protocolError s!"GOAWAY last_stream_id {lastStreamId} > previous {prev}"))
  | none =>
    let c := ({ c with peerLastStreamId := some lastStreamId, state := .closing }).push
      (.goAway lastStreamId code debugData)
    (c.resetAll ((c.order.walk c.streams).keys.filter (lastStreamId < ·)), .ok ())

/-- The match at the end of `handle_frame`. -/
def dispatch : Frame → H2Connection × Except H2Error Unit
  | .settings ack settings => c.handleSettings ack settings
  | .headers streamId encoded endStream endHeaders _ =>
    c.handleHeaders streamId encoded endStream endHeaders
  | .continuation streamId encoded endHeaders => c.handleContinuation streamId encoded endHeaders
  | .data streamId payload endStream => c.handleData streamId payload endStream
  | .rstStream streamId code =>
    (({ c with streams := c.streams.erase streamId }).push (.streamReset streamId code), .ok ())
  | .ping ack opaqueData =>
    (if ack then c.push (.pingAcknowledged opaqueData) else c.emit (.ping true opaqueData), .ok ())
  | .goAway lastStreamId code debugData => c.handleGoAway lastStreamId code debugData
  | .windowUpdate streamId increment => c.handleWindowUpdate streamId increment
  | .priority _ _ => (c, .ok ())
  | .pushPromise _ promisedStreamId _ _ =>
    if !c.localSettings.enablePush then
      (c, .error (.protocolError "PUSH_PROMISE received but ENABLE_PUSH=0"))
    else (c.emit (.rstStream promisedStreamId .refusedStream), .ok ())
  | .unknown _ _ _ _ => (c, .ok ())

/-- Whether a frame can be the first one. -/
def opens : Frame → Bool
  | .settings false _ => true
  | _ => false

/-- The checks at the start of `handle_frame`: SETTINGS comes first, and nothing interrupts a header
block. -/
def admits (f : Frame) : Except H2Error Unit :=
  if !(c.receivedAnyFrame || opens f) then
    .error (.protocolError "first server frame must be SETTINGS")
  else
    match c.continuationStream, f with
    | some expected, .continuation streamId _ _ =>
      if streamId = expected then .ok ()
      else .error (.protocolError "expected CONTINUATION frame")
    | some _, _ => .error (.protocolError "expected CONTINUATION frame")
    | none, .continuation _ _ _ =>
      .error (.protocolError "CONTINUATION without preceding HEADERS without END_HEADERS")
    | none, _ => .ok ()

/-- `handle_frame`.  `received_any_frame` is set between the two checks. -/
def handleFrame (f : Frame) : H2Connection × Except H2Error Unit :=
  match c.admits f with
  | .error e => ({ c with receivedAnyFrame := c.receivedAnyFrame || opens f }, .error e)
  | .ok () => { c with receivedAnyFrame := true }.dispatch f

/-! ## Receiving -/

/-- The connection after a handler: a failure is fatal. -/
def settle : Except H2Error Unit → H2Connection
  | .ok () => c
  | .error e => c.fatalError e

/-- Handle a frame. -/
def takeFrame (f : Frame) : H2Connection :=
  (c.handleFrame f).1.settle (c.handleFrame f).2

/-- The error of a receive buffer that would grow too large. -/
def overflowError : H2Error :=
  .maxSizeExceeded s!"recv_buf would exceed {c.maxRecvBuf} bytes"

end H2Connection

/-- An `H2Connection` of the source: the connection and its `recv_buf`. -/
structure Client where
  conn : H2Connection
  recvBuf : List UInt8

namespace Client

/-- `H2Connection::new`. -/
def new (settings : Settings) (order : Table.Order Nat H2Stream) : Client := ⟨.new settings order, []⟩

/-- The loop of `process_recv_buf`.  A frame takes at least its header off the buffer, so the length
of the buffer is fuel enough. -/
def processLoop : Nat → Client → Client
  | 0, cl => cl
  | fuel + 1, cl =>
    if cl.conn.state.done then cl
    else
      match decodeFrame cl.recvBuf cl.conn.localSettings.maxFrameSize with
      | .ok none => cl
      | .error e => ⟨cl.conn.fatalError e, []⟩
      | .ok (some (f, consumed)) => processLoop fuel ⟨cl.conn.takeFrame f, cl.recvBuf.drop consumed⟩

/-- `process_recv_buf`. -/
def processRecvBuf (cl : Client) : Client := processLoop (cl.recvBuf.length + 1) cl

/-- `recv`. -/
def recv (cl : Client) (data : List UInt8) : Client :=
  if cl.conn.state.done then cl
  else if cl.conn.maxRecvBuf < cl.recvBuf.length + data.length then
    { cl with conn := cl.conn.fatalError cl.conn.overflowError }
  else processRecvBuf { cl with recvBuf := cl.recvBuf ++ data }

end Client
end Ringline.H2
