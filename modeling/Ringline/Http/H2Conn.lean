import Ringline.H2.Run
import Ringline.Http.Response

/-!
# The HTTP/2 client

`ringline-http/src/h2_conn.rs`.  `H2AsyncConn` drives an `H2Connection`: it opens a stream for every
request, feeds the bytes of the server to the connection (`pumpOnce`), and folds the events that come
out into one `PendingStream` for every request (`dispatch`).  A stream that is done is converted into a
response or an error.

* The two ways in which the bytes are read, `with_segments` and `with_data`, differ in what happens at
  the end: the closure is run on no bytes, or not at all.  Both are an `Input`.
* `H2Connection::recv` never fails; a connection error comes as an event.
* An `H2Connection` of the model keeps all its events.  `polled` of them have been taken by
  `poll_event`.
* Whether `send_nowait` succeeds is up to the runtime, and is a parameter of every step that calls it.
* `recv` and `recv_stream` pump until something is in `completed` and take it from there; they are the
  steps `pump`, `recv` and `recvStream`.  `send_request_streaming` and `next_chunk` are taken apart in
  the same way.
-/

set_option autoImplicit false

namespace Ringline.Http

open H2 (Client H2Error H2Event HeaderField)

/-! ## Streams -/

/-- `PendingStream`. -/
structure PendingStream where
  status : Option Nat
  headers : List (String × String)
  body : List UInt8
  done : Bool
  error : Option HttpError
  streaming : Bool
  chunks : List (List UInt8)
  contentEncoding : Option String
  headerBytes : Nat
  bodyBytes : Nat

namespace PendingStream

/-- `PendingStream::new`. -/
def new : PendingStream where
  status := none
  headers := []
  body := []
  done := false
  error := none
  streaming := false
  chunks := []
  contentEncoding := none
  headerBytes := 0
  bodyBytes := 0

/-- `PendingStream::fail`: the first error wins. -/
def fail (ps : PendingStream) (e : HttpError) : PendingStream :=
  { ps with error := ps.error.or (some e), done := true }

/-- `PendingStream::into_response`. -/
def intoResponse (features : Features) (ps : PendingStream) (maxDecompressedSize : Nat) :
    Except HttpError Response :=
  match ps.error with
  | some e => .error e
  | none =>
    match ps.status with
    | none => .error (.invalidMessage "response missing :status")
    | some status =>
      match ps.contentEncoding.filter (!isIdentityEncoding ·) with
      | none => .ok ⟨status, ps.headers, ps.body⟩
      | some encoding =>
        match features.decompress with
        | none => .error (.invalidMessage
            s!"unsupported content-encoding `{encoding}` (no decompressor compiled in)")
        | some decompress =>
          match decompress encoding ps.body maxDecompressedSize with
          | .error e => .error e
          | .ok body => .ok ⟨status, ps.headers, body⟩

end PendingStream

/-- `b.is_ascii_digit()`. -/
def isAsciiDigit (b : UInt8) : Bool := 48 ≤ b.toNat && b.toNat ≤ 57

/-- `parse_status`. -/
def parseStatus (value : List UInt8) : Option Nat :=
  if value.length ≠ 3 then none
  else if !value.all isAsciiDigit then none
  else
    let n := value.foldl (fun n b => 10 * n + (b.toNat - 48)) 0
    if 100 ≤ n ∧ n ≤ 999 then some n else none

variable (ps : PendingStream)

/-- A field other than `:status` in `handle_response_headers`. -/
def PendingStream.pushHeader (h : HeaderField) : PendingStream :=
  let name := fromUtf8Lossy h.name
  let value := fromUtf8Lossy h.value
  { ps with
    contentEncoding :=
      if eqIgnoreAsciiCase name "content-encoding" then some value else ps.contentEncoding
    headers := ps.headers ++ [(name, value)] }

/-- The loop of `handle_response_headers`; the flag says that it has returned early. -/
def takeHeaders (maxHeaderSection : Nat) (ps : PendingStream) :
    List HeaderField → PendingStream × Bool
  | [] => (ps, false)
  | h :: rest =>
    if h.name = bytesOf ":status" then
      match parseStatus h.value with
      | some n => takeHeaders maxHeaderSection { ps with status := some n } rest
      | none => (ps.fail (.invalidMessage s!"invalid :status `{fromUtf8Lossy h.value}`"), true)
    else
      let ps := { ps with headerBytes := ps.headerBytes + (h.name.length + h.value.length) }
      if maxHeaderSection < ps.headerBytes then
        (ps.fail (.maxSizeExceeded
          s!"response header section exceeds {maxHeaderSection} bytes"), true)
      else takeHeaders maxHeaderSection (ps.pushHeader h) rest

/-- `handle_response_headers`. -/
def handleResponseHeaders (headers : List HeaderField) (endStream : Bool) (maxHeaderSection : Nat) :
    PendingStream :=
  match takeHeaders maxHeaderSection ps headers with
  | (ps, true) => ps
  | (ps, false) =>
    if endStream then
      if ps.status = none ∧ ps.error = none then
        ps.fail (.invalidMessage "response HEADERS missing :status")
      else { ps with done := true }
    else ps

/-- `handle_response_data`. -/
def handleResponseData (payload : List UInt8) (endStream : Bool) (maxBodySize : Nat) :
    PendingStream :=
  if maxBodySize < ps.bodyBytes + payload.length then
    ps.fail (.maxSizeExceeded s!"response body exceeds {maxBodySize} bytes")
  else
    let ps := { ps with bodyBytes := ps.bodyBytes + payload.length }
    let ps :=
      if ps.streaming then { ps with chunks := ps.chunks ++ [payload] }
      else { ps with body := ps.body ++ payload }
    if endStream then { ps with done := true } else ps

/-! ## The connection -/

/-- `BlockedSend`. -/
structure BlockedSend where
  streamId : Nat
  data : List UInt8
  endStream : Bool

/-- `H2AsyncConn`. -/
structure H2AsyncConn where
  h2 : Client
  /-- How many events `poll_event` has taken. -/
  polled : Nat
  pendingStreams : Table Nat PendingStream
  /-- The order in which the hash map of streams is iterated. -/
  order : Table.Order Nat PendingStream
  blockedSends : List BlockedSend
  completed : List (Nat × Except HttpError Response)
  settingsAcked : Bool
  maxDecompressedSize : Nat
  maxHeaderSection : Nat
  maxBodySize : Nat
  goawayReceived : Bool

/-- `dispatch_h2_events` also fills in the error of the connection. -/
structure Dispatch where
  conn : H2AsyncConn
  connectionError : Option HttpError

namespace H2AsyncConn

/-- `from_conn`, before the settings are exchanged. -/
def new (h2Order : Table.Order Nat H2.H2Stream) (order : Table.Order Nat PendingStream) :
    H2AsyncConn where
  h2 := .new .clientDefault h2Order
  polled := 0
  pendingStreams := .empty
  order := order
  blockedSends := []
  completed := []
  settingsAcked := false
  maxDecompressedSize := 64 * 1024 * 1024
  maxHeaderSection := 64 * 1024
  maxBodySize := 16 * 1024 * 1024
  goawayReceived := false

variable (x : H2AsyncConn)

/-- `pending.get_mut(&stream_id)`. -/
def updateStream (streamId : Nat) (f : PendingStream → PendingStream) :
    H2AsyncConn := { x with pendingStreams := x.pendingStreams.modify streamId f }

/-- `pending.get_mut(&stream_id)` in `dispatch_h2_events`. -/
def onStream (d : Dispatch) (streamId : Nat) (f : PendingStream → PendingStream) : Dispatch :=
  { d with conn := d.conn.updateStream streamId f }

/-- One event in `dispatch_h2_events`. -/
def dispatchEvent (d : Dispatch) : H2Event → Dispatch
  | .settingsAcknowledged => { d with conn := { d.conn with settingsAcked := true } }
  | .response streamId headers endStream =>
    onStream d streamId fun ps =>
      handleResponseHeaders ps headers endStream d.conn.maxHeaderSection
  | .data streamId payload endStream =>
    onStream d streamId fun ps => handleResponseData ps payload endStream d.conn.maxBodySize
  | .trailers streamId _ => onStream d streamId fun ps => { ps with done := true }
  | .streamReset streamId errorCode =>
    onStream d streamId fun ps => ps.fail (.h2 (.streamError streamId errorCode))
  | .goAway _ _ _ =>
    { d with
      conn := { d.conn with
        goawayReceived := true
        pendingStreams := d.conn.pendingStreams.map fun ps => { ps with done := true } } }
  | .error e => { d with connectionError := some (.h2 e) }
  | .pingAcknowledged _ => d

/-- A call of the connection. -/
def withConn (c : H2.H2Connection) : H2AsyncConn :=
  { x with h2 := { x.h2 with conn := c } }

/-- The loop over the blocked sends in `dispatch_h2_events`. -/
def retryBlocked (x : H2AsyncConn) : List BlockedSend → H2AsyncConn
  | [] => x
  | bs :: rest =>
    let sent := x.h2.conn.sendData bs.streamId bs.data bs.endStream
    let x := x.withConn sent.1
    match sent.2 with
    | .ok () => x.retryBlocked rest
    | .error .flowControlError => { x with blockedSends := x.blockedSends ++ [bs] }.retryBlocked rest
    | .error e => (x.updateStream bs.streamId fun ps => ps.fail (.h2 e)).retryBlocked rest

/-- The events that have not been taken yet. -/
def unpolled : List H2Event := x.h2.conn.events.drop x.polled

/-- The loop over the events in `dispatch_h2_events`. -/
def dispatchEvents : Dispatch :=
  x.unpolled.foldl dispatchEvent ⟨{ x with polled := x.h2.conn.events.length }, none⟩

/-- `dispatch_h2_events`. -/
def dispatch : Dispatch :=
  let d := x.dispatchEvents
  { d with conn := { d.conn with blockedSends := [] }.retryBlocked d.conn.blockedSends }

/-- What comes of waiting for bytes. -/
inductive Input where
  /-- The closure is run on these bytes. -/
  | segments (segs : List (List UInt8))
  /-- The connection is closed, and the closure is not run. -/
  | closed
  /-- Reading fails. -/
  | failed

variable (features : Features)

/-- The streams that are done are moved to `completed`. -/
def complete (x : H2AsyncConn) : H2AsyncConn :=
  let finished := (x.order.walk x.pendingStreams).entries.filter fun e =>
    e.2.done && !e.2.streaming
  { x with
    pendingStreams := x.pendingStreams.eraseAll (finished.map Prod.fst)
    completed := x.completed ++
      finished.map fun e => (e.1, e.2.intoResponse features x.maxDecompressedSize) }

/-- The segments are fed to the connection. -/
def fed (segs : List (List UInt8)) : H2AsyncConn :=
  { x with h2 := Machine.run Client.recv x.h2 segs }

/-- `pump_once` after the closure was run. -/
def pumpSegments (x : H2AsyncConn) (segs : List (List UInt8)) (flushed : Bool) :
    H2AsyncConn × Except HttpError Unit :=
  let d := (x.fed segs).dispatch
  match d.connectionError with
  | some e => (d.conn, .error e)
  | none =>
    if segs.flatten = [] then (d.conn, .error .connectionClosed)
    else (d.conn.complete features, if flushed then .ok () else .error .io)

/-- `pump_once`, with what its two calls of `flush_pending_send` return. -/
def pumpOnce (x : H2AsyncConn) (flushed : Bool) (input : Input) (flushed' : Bool) :
    H2AsyncConn × Except HttpError Unit :=
  match flushed, input with
  | false, _ => (x, .error .io)
  | true, .failed => (x, .error .io)
  | true, .closed => (x, .error .connectionClosed)
  | true, .segments segs => x.pumpSegments features segs flushed'

/-! ## Requests -/

/-- The headers of a request in `fire_request`. -/
def requestHeaders (method path host : String) (extraHeaders : List (String × String)) :
    List HeaderField :=
  [⟨bytesOf ":method", bytesOf method⟩, ⟨bytesOf ":path", bytesOf path⟩,
    ⟨bytesOf ":scheme", bytesOf "https"⟩, ⟨bytesOf ":authority", bytesOf host⟩] ++
  extraHeaders.map (fun e => ⟨bytesOf e.1, bytesOf e.2⟩) ++
  if extraHeaders.any (eqIgnoreAsciiCase ·.1 "accept-encoding") then []
  else
    match features.acceptEncoding with
    | some ae => [⟨bytesOf "accept-encoding", bytesOf ae⟩]
    | none => []

/-- The end of `fire_request`, with what `flush_pending_send` returns. -/
def acceptRequest (streamId : Nat) (flushed : Bool) : H2AsyncConn × Except HttpError Nat :=
  ({ x with pendingStreams := x.pendingStreams.insert streamId .new },
    if flushed then .ok streamId else .error .io)

/-- `fire_request`. -/
def fireRequest (x : H2AsyncConn) (method path host : String)
    (extraHeaders : List (String × String)) (body : List UInt8) (flushed : Bool) :
    H2AsyncConn × Except HttpError Nat :=
  let headers := requestHeaders features method path host extraHeaders
  let opened := x.h2.conn.sendRequest headers (body = [])
  match opened.2 with
  | .error e => (x, .error (.h2 e))
  | .ok streamId =>
    let x := x.withConn opened.1
    if body = [] then x.acceptRequest streamId flushed
    else
      let sent := x.h2.conn.sendData streamId body true
      let x := x.withConn sent.1
      match sent.2 with
      | .ok () => x.acceptRequest streamId flushed
      | .error .flowControlError =>
        let blocked : BlockedSend := ⟨streamId, body, true⟩
        { x with blockedSends := x.blockedSends ++ [blocked] }.acceptRequest streamId flushed
      | .error e => (x, .error (.h2 e))

/-- `send_request_streaming`, up to its loop. -/
def fireStreaming (x : H2AsyncConn) (method path host : String)
    (extraHeaders : List (String × String)) (body : List UInt8) (flushed : Bool) :
    H2AsyncConn × Except HttpError Nat :=
  match x.fireRequest features method path host extraHeaders body flushed with
  | (x, .ok streamId) => (x.updateStream streamId fun ps => { ps with streaming := true }, .ok streamId)
  | failed => failed

/-- `ps.error.take()`, after which the stream is removed. -/
def takeError (streamId : Nat) : H2AsyncConn :=
  match x.pendingStreams.get? streamId with
  | some ps =>
    if ps.error.isSome then { x with pendingStreams := x.pendingStreams.erase streamId } else x
  | none => x

/-- `next_chunk`, up to its call of `pump_once`. -/
def nextChunk (streamId : Nat) : H2AsyncConn :=
  match x.pendingStreams.get? streamId with
  | none => x
  | some ps =>
    if ps.error.isSome then { x with pendingStreams := x.pendingStreams.erase streamId }
    else
      match ps.chunks with
      | _ :: rest => x.updateStream streamId fun ps => { ps with chunks := rest }
      | [] =>
        if ps.done then { x with pendingStreams := x.pendingStreams.erase streamId } else x

/-! ## Steps -/

inductive Event where
  | fireRequest (method path host : String) (extraHeaders : List (String × String))
      (body : List UInt8) (flushed : Bool)
  | fireStreaming (method path host : String) (extraHeaders : List (String × String))
      (body : List UInt8) (flushed : Bool)
  | pump (flushed : Bool) (input : Input) (flushed' : Bool)
  /-- `recv` takes what is first in `completed`. -/
  | recv
  /-- `recv_stream` takes what is there for a stream. -/
  | recvStream (streamId : Nat)
  /-- The loop of `send_request_streaming` looks at the stream. -/
  | takeError (streamId : Nat)
  | nextChunk (streamId : Nat)
  /-- An `H2StreamingResponse` is dropped. -/
  | dropStreaming (streamId : Nat)
  | setMaxDecompressedSize (n : Nat)
  | setMaxHeaderSection (n : Nat)
  | setMaxBodySize (n : Nat)

def step (x : H2AsyncConn) : Event → H2AsyncConn
  | .fireRequest method path host extraHeaders body flushed =>
    (x.fireRequest features method path host extraHeaders body flushed).1
  | .fireStreaming method path host extraHeaders body flushed =>
    (x.fireStreaming features method path host extraHeaders body flushed).1
  | .pump flushed input flushed' => (x.pumpOnce features flushed input flushed').1
  | .recv => { x with completed := x.completed.tail }
  | .recvStream streamId => { x with completed := x.completed.eraseP (·.1 = streamId) }
  | .takeError streamId => x.takeError streamId
  | .nextChunk streamId => x.nextChunk streamId
  | .dropStreaming streamId => { x with pendingStreams := x.pendingStreams.erase streamId }
  | .setMaxDecompressedSize n => { x with maxDecompressedSize := n }
  | .setMaxHeaderSection n => { x with maxHeaderSection := n }
  | .setMaxBodySize n => { x with maxBodySize := n }

end H2AsyncConn
end Ringline.Http
