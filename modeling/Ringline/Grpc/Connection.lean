import Ringline.Base.Text
import Ringline.Grpc.Message
import Ringline.H2.Run

/-!
# The gRPC client

`ringline-grpc/src/connection.rs` and `ringline-grpc/src/compress.rs`.  A `GrpcConnection` opens a
stream of its `H2Connection` for every call, and translates the events of the `H2Connection` into
events of its own (`translateEvent`): the response headers, the messages, which a `StreamState` for each
call puts together from the data, and the status.

* An `H2Connection` of the model keeps all its events; `polled` of them have been translated.  The
  events of the model's `GrpcConnection` are likewise all kept.
* The decompressors belong to other crates and are compiled in or not, and how a string is printed for
  debugging is up to the standard library, so a build is a parameter, `Build`.
-/

set_option autoImplicit false

namespace Ringline.Grpc

open H2 (Client ErrorCode H2Event HeaderField)

/-! ## Compression -/

/-- How the crate was compiled. -/
structure Build where
  /-- `decompress_gzip`, of the data and the cap. -/
  gzip : Option (List UInt8 → Nat → Except GrpcError (List UInt8))
  /-- `decompress_zstd`, of the data and the cap. -/
  zstd : Option (List UInt8 → Nat → Except GrpcError (List UInt8))
  /-- `{:?}` of a string. -/
  debugStr : String → String

/-- The crate without decompressors, and strings printed between quotes. -/
def Build.plain : Build := ⟨none, none, fun s => "\"" ++ s ++ "\""⟩

variable (build : Build)

/-- `decompress`. -/
def decompress (encoding : String) (data : List UInt8) (maxSize : Nat) :
    Except GrpcError (List UInt8) :=
  let unsupported := .error (.invalidMessage s!"unsupported grpc-encoding: {encoding}")
  if encoding = "gzip" then
    match build.gzip with
    | some gzip => gzip data maxSize
    | none => unsupported
  else if encoding = "zstd" then
    match build.zstd with
    | some zstd => zstd data maxSize
    | none => unsupported
  else if encoding = "identity" then
    if maxSize < data.length then
      .error (.maxSizeExceeded s!"identity message of {data.length} bytes exceeds cap {maxSize}")
    else .ok data
  else unsupported

/-- `accept_encoding_value`. -/
def acceptEncodingValue : Option String :=
  match build.gzip.isSome, build.zstd.isSome with
  | true, true => some "identity,gzip,zstd"
  | true, false => some "identity,gzip"
  | false, true => some "identity,zstd"
  | false, false => none

/-! ## Headers -/

/-- `u8::to_ascii_lowercase`. -/
def toAsciiLowercase (b : UInt8) : UInt8 := if 65 ≤ b.toNat ∧ b.toNat ≤ 90 then b + 32 else b

/-- `header_name_eq`. -/
def headerNameEq (a : List UInt8) (b : String) : Bool :=
  a.map toAsciiLowercase == (bytesOf b).map toAsciiLowercase

/-- `str::parse` of an unsigned integer up to `bound`, on the bytes of the string: digits, after an
optional plus sign. -/
def parseUnsigned (bound : Nat) (bytes : List UInt8) : Option Nat :=
  let digits := if bytes.head? = some 43 then bytes.tail else bytes
  if digits = [] then none
  else if !digits.all (fun b => 48 ≤ b.toNat && b.toNat ≤ 57) then none
  else
    let n := digits.foldl (fun n b => 10 * n + (b.toNat - 48)) 0
    if n ≤ bound then some n else none

/-- `hex_value`. -/
def hexValue (c : UInt8) : Option Nat :=
  let n := c.toNat
  if 48 ≤ n ∧ n ≤ 57 then some (n - 48)
  else if 97 ≤ n ∧ n ≤ 102 then some (n - 97 + 10)
  else if 65 ≤ n ∧ n ≤ 70 then some (n - 65 + 10)
  else none

/-- The loop of `percent_decode_to_string`. -/
def percentDecode : List UInt8 → List UInt8
  | 37 :: a :: b :: rest =>
    match hexValue a, hexValue b with
    | some hi, some lo => UInt8.ofNat (16 * hi + lo) :: percentDecode rest
    | _, _ => 37 :: percentDecode (a :: b :: rest)
  | c :: rest => c :: percentDecode rest
  | [] => []

/-- `percent_decode_to_string`. -/
def percentDecodeToString (input : List UInt8) : String := fromUtf8Lossy (percentDecode input)

variable (headers : List HeaderField)

/-- `extract_grpc_status`. -/
def extractGrpcStatus : GrpcStatus :=
  ((headers.find? fun h => h.name = bytesOf "grpc-status").bind fun h =>
    (parseUnsigned 255 h.value).map GrpcStatus.fromU8).getD .unknown

/-- `extract_grpc_message`. -/
def extractGrpcMessage : String :=
  match headers.find? fun h => headerNameEq h.name "grpc-message" with
  | some h => percentDecodeToString h.value
  | none => ""

/-- `derive_status`. -/
def deriveStatus (headers : List HeaderField) (httpStatusOverride : Option (GrpcStatus × String)) :
    GrpcStatus × String :=
  match httpStatusOverride with
  | some result => result
  | none =>
    match headers.find? fun h => headerNameEq h.name "grpc-status" with
    | none => (.internal, "missing grpc-status trailer")
    | some h =>
      match parseUnsigned 4294967295 h.value with
      | none => (.internal, "invalid grpc-status value: " ++ build.debugStr (fromUtf8Lossy h.value))
      | some n =>
        if n ≤ 16 then (GrpcStatus.fromU8 n, extractGrpcMessage headers)
        else (.internal, s!"invalid grpc-status value: {n}")

/-- `http_status_to_grpc_status`. -/
def httpStatusToGrpcStatus : Option (GrpcStatus × String) :=
  (headers.find? fun h => h.name = bytesOf ":status").bind fun h =>
    (parseUnsigned 65535 h.value).bind fun code =>
      if code = 200 then none
      else
        let status :=
          if code = 400 then GrpcStatus.internal
          else if code = 401 then .unauthenticated
          else if code = 403 then .permissionDenied
          else if code = 404 then .unimplemented
          else if code ∈ [429, 502, 503, 504] then .unavailable
          else .unknown
        some (status, s!"HTTP/2 :status {code}")

/-- `encode_grpc_timeout`, of a number of nanoseconds. -/
def encodeGrpcTimeout (nanos : Nat) : String :=
  if nanos ≤ 99999999 then s!"{nanos}n"
  else if nanos / 1000 ≤ 99999999 then s!"{nanos / 1000}u"
  else if nanos / 1000000 ≤ 99999999 then s!"{nanos / 1000000}m"
  else
    let secs := nanos / 1000000000
    if secs ≤ 99999999 then s!"{secs}S"
    else if secs / 60 ≤ 99999999 then s!"{secs / 60}M"
    else if secs / 3600 ≤ 99999999 then s!"{secs / 3600}H"
    else "99999999H"

/-! ## The connection -/

/-- `StreamState`. -/
structure StreamState where
  buffer : MessageBuffer
  encoding : Option String
  responseSeen : Bool

/-- `StreamState::new`. -/
def StreamState.new (maxMessageSize : Nat) : StreamState := ⟨.new maxMessageSize, none, false⟩

/-- `GrpcEvent`. -/
inductive GrpcEvent where
  | ready
  | response (streamId : Nat) (metadata : List HeaderField)
  | message (streamId : Nat) (data : List UInt8)
  | status (streamId : Nat) (status : GrpcStatus) (message : String) (metadata : List HeaderField)
  | goAway (lastStreamId : Nat) (errorCode : ErrorCode) (debugData : List UInt8)
  | error (e : GrpcError)

/-- `GrpcConnection`. -/
structure GrpcConnection where
  h2 : Client
  /-- How many events `poll_event` of the `H2Connection` has taken. -/
  polled : Nat
  ready : Bool
  buffers : Table Nat StreamState
  /-- The order in which the hash map of buffers is iterated. -/
  order : Table.Order Nat StreamState
  events : List GrpcEvent
  maxMessageSize : Nat

/-- What is done with a message: it is delivered, or the stream fails. -/
def unpack (encoding : Option String) (max : Nat) (compressed : Bool) (payload : List UInt8) :
    Except (GrpcStatus × String) (List UInt8) :=
  if compressed then
    match encoding with
    | some enc =>
      match decompress build enc payload max with
      | .ok data => .ok data
      | .error e => .error (.internal, "decompression failed: " ++ e.display)
    | none => .error (.internal, "compressed flag set but no grpc-encoding header")
  else .ok payload

/-- What the loop over the messages of a buffer has found: the messages, the failure that has stopped
it, and the buffer. -/
@[ext]
structure Reassembled where
  messages : List (List UInt8)
  failure : Option (GrpcStatus × String)
  buffer : MessageBuffer

/-- The loop over the messages in `handle_data`.  Every message takes its prefix off the buffer, so the
length of the buffer is fuel enough. -/
def reassemble (build : Build) (encoding : Option String) (max : Nat) :
    Nat → MessageBuffer → Reassembled
  | 0, buffer => ⟨[], none, buffer⟩
  | fuel + 1, buffer =>
    match buffer.tryDecode with
    | (.complete payload compressed, rest) =>
      match unpack build encoding max compressed payload with
      | .ok data =>
        let later := reassemble build encoding max fuel rest
        { later with messages := data :: later.messages }
      | .error failure => ⟨[], some failure, rest⟩
    | (.incomplete, rest) => ⟨[], none, rest⟩
    | (.tooLarge n, rest) =>
      ⟨[], some (.resourceExhausted, s!"message length {n} exceeds cap {max}"), rest⟩

namespace GrpcConnection

/-- `GrpcConnection::new`. -/
def new (settings : H2.Settings) (h2Order : Table.Order Nat H2.H2Stream)
    (order : Table.Order Nat StreamState) : GrpcConnection where
  h2 := .new settings h2Order
  polled := 0
  ready := false
  buffers := .empty
  order := order
  events := []
  maxMessageSize := defaultMaxMessageSize

/-- `self.events.push_back` and so on. -/
def push (g : GrpcConnection) (evs : List GrpcEvent) : GrpcConnection :=
  { g with events := g.events ++ evs }

/-- `self.buffers.remove`. -/
def remove (g : GrpcConnection) (streamId : Nat) : GrpcConnection :=
  { g with buffers := g.buffers.erase streamId }

/-- `self.h2.reset_stream`. -/
def resetStream (g : GrpcConnection) (streamId : Nat) (code : ErrorCode) : GrpcConnection :=
  { g with h2 := { g.h2 with conn := g.h2.conn.resetStream streamId code } }

/-- `fail_stream`. -/
def failStream (g : GrpcConnection) (streamId : Nat) (status : GrpcStatus) (message : String) :
    GrpcConnection :=
  ((g.resetStream streamId .cancel).remove streamId).push [.status streamId status message []]

/-- `emit_status_from_cleanup`. -/
def emitStatusFromCleanup (g : GrpcConnection) (streamId : Nat) : GrpcConnection :=
  let truncated := (g.buffers.get? streamId).any fun state => state.buffer.buf ≠ []
  let message :=
    if truncated then "stream ended mid-message without trailers" else "stream ended without trailers"
  (g.remove streamId).push [.status streamId .internal message []]

variable (build : Build)

/-- `handle_response`. -/
def handleResponse (g : GrpcConnection) (streamId : Nat) (headers : List HeaderField)
    (endStream : Bool) : GrpcConnection :=
  let state := (g.buffers.get? streamId).getD (.new g.maxMessageSize)
  let encoding := headers.foldl (fun encoding h =>
    if headerNameEq h.name "grpc-encoding" then some (fromUtf8Lossy h.value) else encoding)
    state.encoding
  let g := { g with
    buffers := g.buffers.insert streamId { state with responseSeen := true, encoding := encoding } }
  if endStream then
    let result := deriveStatus build headers (httpStatusToGrpcStatus headers)
    let metadata := headers.filter fun h =>
      !headerNameEq h.name "grpc-status" && !headerNameEq h.name "grpc-message"
    (g.remove streamId).push
      [.response streamId metadata, .status streamId result.1 result.2 metadata]
  else g.push [.response streamId headers]

/-- `handle_data`, once the response has been seen. -/
def takeData (g : GrpcConnection) (streamId : Nat) (state : StreamState) (data : List UInt8)
    (endStream : Bool) : GrpcConnection :=
  match state.buffer.push data with
  | .error e => g.failStream streamId .resourceExhausted e.display
  | .ok buffer =>
    let r := reassemble build state.encoding g.maxMessageSize (buffer.buf.length + 1) buffer
    let g := { g with buffers := g.buffers.insert streamId { state with buffer := r.buffer } }
    let g := g.push (r.messages.map (.message streamId))
    let g := match r.failure with
      | some failure => g.failStream streamId failure.1 failure.2
      | none => g
    if endStream then g.emitStatusFromCleanup streamId else g

/-- `handle_data`. -/
def handleData (g : GrpcConnection) (streamId : Nat) (data : List UInt8) (endStream : Bool) :
    GrpcConnection :=
  match (g.buffers.get? streamId).filter (·.responseSeen) with
  | none =>
    ((g.resetStream streamId .protocolError).remove streamId).push
      [.status streamId .internal "received DATA before HEADERS" []]
  | some state => g.takeData build streamId state data endStream

/-- The messages that are still in the buffer in `handle_trailers`.  What stops the loop is not looked
at. -/
def bufferedMessages (g : GrpcConnection) (streamId : Nat) : List (List UInt8) :=
  match g.buffers.get? streamId with
  | some state => (reassemble build state.encoding g.maxMessageSize
      (state.buffer.buf.length + 1) state.buffer).messages
  | none => []

/-- The trailers that are no part of the status. -/
def remainingHeaders (headers : List HeaderField) : List HeaderField :=
  headers.filter fun h => h.name ≠ bytesOf "grpc-status" ∧ h.name ≠ bytesOf "grpc-message"

/-- `handle_trailers`. -/
def handleTrailers (g : GrpcConnection) (streamId : Nat) (headers : List HeaderField) :
    GrpcConnection :=
  let messages := g.bufferedMessages build streamId
  ((g.push (messages.map (.message streamId))).push
    [.status streamId (extractGrpcStatus headers) (extractGrpcMessage headers)
      (remainingHeaders headers)]).remove streamId

/-- The streams that a GOAWAY leaves without an answer. -/
def stranded (g : GrpcConnection) (lastStreamId : Nat) : List Nat :=
  (g.order.walk g.buffers).keys.filter (lastStreamId < ·)

/-- One event in `translate_events`. -/
def translateEvent (g : GrpcConnection) : H2Event → GrpcConnection
  | .settingsAcknowledged => { g with ready := true }.push [.ready]
  | .response streamId headers endStream => g.handleResponse build streamId headers endStream
  | .data streamId data endStream => g.handleData build streamId data endStream
  | .trailers streamId headers => g.handleTrailers build streamId headers
  | .streamReset streamId errorCode =>
    (g.remove streamId).push
      [.status streamId .internal ("stream reset: " ++ errorCode.debug) []]
  | .goAway lastStreamId errorCode debugData =>
    { g with buffers := g.buffers.eraseAll (g.stranded lastStreamId) }.push
      ((g.stranded lastStreamId).map
          (fun id => GrpcEvent.status id .unavailable ("GoAway: " ++ errorCode.debug) []) ++
        [GrpcEvent.goAway lastStreamId errorCode debugData])
  | .error e => g.push [.error (.h2 e)]
  | .pingAcknowledged _ => g

/-- `translate_events`. -/
def translateEvents (g : GrpcConnection) : GrpcConnection :=
  (g.h2.conn.events.drop g.polled).foldl (translateEvent build)
    { g with polled := g.h2.conn.events.length }

/-- `recv`. -/
def recv (build : Build) (g : GrpcConnection) (data : List UInt8) : GrpcConnection :=
  { g with h2 := g.h2.recv data }.translateEvents build

/-! ## Calls -/

/-- The headers of `send_headers_with_deadline`. -/
def requestHeaders (service method : String) (metadata : List HeaderField) (deadline : Option Nat) :
    List HeaderField :=
  [⟨bytesOf ":method", bytesOf "POST"⟩, ⟨bytesOf ":path", bytesOf s!"/{service}/{method}"⟩,
    ⟨bytesOf ":scheme", bytesOf "https"⟩, ⟨bytesOf "content-type", bytesOf "application/grpc"⟩,
    ⟨bytesOf "te", bytesOf "trailers"⟩] ++
  ((acceptEncodingValue build).map fun enc =>
    ⟨bytesOf "grpc-accept-encoding", bytesOf enc⟩ : Option HeaderField).toList ++
  (deadline.map fun d =>
    ⟨bytesOf "grpc-timeout", bytesOf (encodeGrpcTimeout d)⟩ : Option HeaderField).toList ++ metadata

/-- A call of the `H2Connection`. -/
def withConn (g : GrpcConnection) (c : H2.H2Connection) : GrpcConnection :=
  { g with h2 := { g.h2 with conn := c } }

/-- `self.buffers.insert`, when a call has begun. -/
def begin (g : GrpcConnection) (streamId : Nat) : GrpcConnection :=
  { g with buffers := g.buffers.insert streamId (.new g.maxMessageSize) }

/-- `send_unary_inner`. -/
def sendUnary (g : GrpcConnection) (service method : String) (body : List UInt8)
    (metadata : List HeaderField) (deadline : Option Nat) : GrpcConnection × Except GrpcError Nat :=
  if !g.ready then (g, .error .notReady)
  else
    let opened := g.h2.conn.sendRequest (requestHeaders build service method metadata deadline) false
    let g := g.withConn opened.1
    match opened.2 with
    | .error e => (g, .error (.h2 e))
    | .ok streamId =>
      match encode body with
      | .error len => (g, .error (.invalidMessage (encodeTooLarge len)))
      | .ok framed =>
        let sent := g.h2.conn.sendData streamId framed true
        let g := g.withConn sent.1
        match sent.2 with
        | .error e => (g, .error (.h2 e))
        | .ok () => (g.begin streamId, .ok streamId)

/-- `start_request`. -/
def startRequest (g : GrpcConnection) (service method : String) (metadata : List HeaderField) :
    GrpcConnection × Except GrpcError Nat :=
  if !g.ready then (g, .error .notReady)
  else
    let opened := g.h2.conn.sendRequest (requestHeaders build service method metadata none) false
    let g := g.withConn opened.1
    match opened.2 with
    | .error e => (g, .error (.h2 e))
    | .ok streamId => (g.begin streamId, .ok streamId)

/-- `send_message`. -/
def sendMessage (g : GrpcConnection) (streamId : Nat) (body : List UInt8) (endStream : Bool) :
    GrpcConnection × Except GrpcError Unit :=
  match encode body with
  | .error len => (g, .error (.invalidMessage (encodeTooLarge len)))
  | .ok framed =>
    let sent := g.h2.conn.sendData streamId framed endStream
    (g.withConn sent.1, sent.2.mapError .h2)

/-- `cancel`. -/
def cancel (g : GrpcConnection) (streamId : Nat) : GrpcConnection :=
  let g := g.resetStream streamId .cancel
  if (g.buffers.get? streamId).isSome then
    (g.remove streamId).push [.status streamId .cancelled "cancelled by client" []]
  else g

/-! ## Steps -/

/-- What can happen to a connection.  The bytes of the server come in as the events that the
`H2Connection` makes of them. -/
inductive Action where
  | event (e : H2Event)
  | cancel (streamId : Nat)
  | sendUnary (service method : String) (body : List UInt8) (metadata : List HeaderField)
      (deadline : Option Nat)
  | startRequest (service method : String) (metadata : List HeaderField)
  | sendMessage (streamId : Nat) (body : List UInt8) (endStream : Bool)
  | setMaxMessageSize (n : Nat)

def step (g : GrpcConnection) : Action → GrpcConnection
  | .event e => g.translateEvent build e
  | .cancel streamId => g.cancel streamId
  | .sendUnary service method body metadata deadline =>
    (g.sendUnary build service method body metadata deadline).1
  | .startRequest service method metadata => (g.startRequest build service method metadata).1
  | .sendMessage streamId body endStream => (g.sendMessage streamId body endStream).1
  | .setMaxMessageSize n => { g with maxMessageSize := n }

/-- Receiving is translating the events that the bytes give. -/
theorem recv_eq_run (g : GrpcConnection) (data : List UInt8) : g.recv build data =
      Machine.run (step build) { g with
        h2 := g.h2.recv data, polled := (g.h2.recv data).conn.events.length }
        (((g.h2.recv data).conn.events.drop g.polled).map .event) := by
  rw [recv, translateEvents, Machine.run, List.foldl_map]
  rfl

end GrpcConnection
end Ringline.Grpc
