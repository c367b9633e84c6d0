import Ringline.Base.Framing
import Ringline.H2.Frame

/-!
# gRPC messages

`ringline-grpc/src/error.rs` and `ringline-grpc/src/message.rs`.  A message travels with a prefix of
five bytes, a flag and its length; `MessageBuffer` collects the pieces in which the messages arrive.
Sizes are natural numbers; the source adds them with `saturating_add`, which is the same as long as the
bytes fit into the memory.

`decode` finds a message at the front of the buffer whatever comes behind it (`decode_append`), and
finds what `encode` has written (`decode_encodeWith`).
-/

set_option autoImplicit false

namespace Ringline
namespace H2

/-- `{:?}` of an `ErrorCode`. -/
def ErrorCode.debug : ErrorCode → String
  | noError => "NoError"
  | protocolError => "ProtocolError"
  | internalError => "InternalError"
  | flowControlError => "FlowControlError"
  | settingsTimeout => "SettingsTimeout"
  | streamClosed => "StreamClosed"
  | frameSizeError => "FrameSizeError"
  | refusedStream => "RefusedStream"
  | cancel => "Cancel"
  | compressionError => "CompressionError"
  | connectError => "ConnectError"
  | enhanceYourCalm => "EnhanceYourCalm"
  | inadequateSecurity => "InadequateSecurity"
  | http11Required => "Http11Required"

/-- `{}` of an `H2Error`. -/
def H2Error.display : H2Error → String
  | frameError => "frame error"
  | protocolError message => s!"protocol error: {message}"
  | compressionError => "HPACK compression error"
  | flowControlError => "flow control error"
  | frameSizeError => "frame size error"
  | connectionError code => "connection error: " ++ code.debug
  | streamError streamId code => s!"stream {streamId} error: " ++ code.debug
  | messageError message => s!"message error: {message}"
  | maxSizeExceeded message => s!"max size exceeded: {message}"
  | internal message => s!"internal: {message}"

end H2

namespace Grpc

open H2 (be32 be32Bytes be32_be32Bytes)

/-! ## Errors -/

/-- `GrpcStatus`. -/
inductive GrpcStatus where
  | ok
  | cancelled
  | unknown
  | invalidArgument
  | deadlineExceeded
  | notFound
  | alreadyExists
  | permissionDenied
  | resourceExhausted
  | failedPrecondition
  | aborted
  | outOfRange
  | unimplemented
  | internal
  | unavailable
  | dataLoss
  | unauthenticated
deriving DecidableEq, Repr

/-- `GrpcStatus::from_u8`. -/
def GrpcStatus.fromU8 : Nat → GrpcStatus
  | 0 => ok
  | 1 => cancelled
  | 2 => unknown
  | 3 => invalidArgument
  | 4 => deadlineExceeded
  | 5 => notFound
  | 6 => alreadyExists
  | 7 => permissionDenied
  | 8 => resourceExhausted
  | 9 => failedPrecondition
  | 10 => aborted
  | 11 => outOfRange
  | 12 => unimplemented
  | 13 => internal
  | 14 => unavailable
  | 15 => dataLoss
  | 16 => unauthenticated
  | _ => unknown

/-- `GrpcError`. -/
inductive GrpcError where
  | h2 (e : H2.H2Error)
  | invalidMessage (message : String)
  | maxSizeExceeded (message : String)
  | notReady
deriving DecidableEq, Repr

/-- `{}` of a `GrpcError`. -/
def GrpcError.display : GrpcError → String
  | h2 e => "h2: " ++ e.display
  | invalidMessage message => s!"invalid grpc message: {message}"
  | maxSizeExceeded message => s!"max size exceeded: {message}"
  | notReady => "connection not ready"

/-! ## Encoding and decoding -/

/-- `DEFAULT_MAX_MESSAGE_SIZE`. -/
def defaultMaxMessageSize : Nat := 4 * 1024 * 1024

/-- A message with its prefix, or the length that does not fit into the prefix. -/
def encodeWith (flag : UInt8) (payload : List UInt8) : Except Nat (List UInt8) :=
  if payload.length < 2 ^ 32 then .ok (flag :: be32Bytes payload.length ++ payload)
  else .error payload.length

/-- `encode`. -/
def encode (payload : List UInt8) : Except Nat (List UInt8) := encodeWith 0 payload

/-- `encode_compressed`. -/
def encodeCompressed (payload : List UInt8) : Except Nat (List UInt8) := encodeWith 1 payload

/-- `{}` of an `EncodeTooLarge`. -/
def encodeTooLarge (len : Nat) : String :=
  s!"gRPC message payload {len} exceeds u32::MAX (4 GiB - 1)"

/-- `DecodeResult`. -/
inductive DecodeResult where
  | complete (payload : List UInt8) (compressed : Bool) (consumed : Nat)
  | incomplete (missing : Nat)
  | tooLarge (length : Nat)
deriving DecidableEq, Repr

/-- `decode`. -/
def decode (buf : List UInt8) (maxSize : Nat) : DecodeResult :=
  match buf with
  | flag :: a :: b :: c :: d :: _ =>
    let length := be32 a b c d
    if maxSize < length then .tooLarge length
    else
      let total := 5 + length
      if buf.length < total then .incomplete (total - buf.length)
      else .complete ((buf.take total).drop 5) (flag ≠ 0) total
  | _ => .incomplete (5 - buf.length)

/-- `MessageBuffer`. -/
structure MessageBuffer where
  buf : List UInt8
  maxMessageSize : Nat
deriving DecidableEq, Repr

/-- `BufferDecode`. -/
inductive BufferDecode where
  | complete (payload : List UInt8) (compressed : Bool)
  | incomplete
  | tooLarge (length : Nat)
deriving DecidableEq, Repr

namespace MessageBuffer

/-- `MessageBuffer::new`. -/
def new (maxMessageSize : Nat) : MessageBuffer := ⟨[], maxMessageSize⟩

/-- `push`. -/
def push (b : MessageBuffer) (data : List UInt8) : Except GrpcError MessageBuffer :=
  if b.maxMessageSize + 5 < b.buf.length + data.length then
    .error (.maxSizeExceeded s!"message reassembly buffer exceeds {b.maxMessageSize + 5} bytes")
  else .ok { b with buf := b.buf ++ data }

/-- `try_decode`. -/
def tryDecode (b : MessageBuffer) : BufferDecode × MessageBuffer :=
  match decode b.buf b.maxMessageSize with
  | .complete payload compressed consumed =>
    (.complete payload compressed, { b with buf := b.buf.drop consumed })
  | .incomplete _ => (.incomplete, b)
  | .tooLarge n => (.tooLarge n, b)

end MessageBuffer

/-! ## The decoder on a stream -/

/-- A buffer with a whole prefix. -/
theorem decode_cons (flag a b c d : UInt8) (tail : List UInt8) (maxSize : Nat) :
    decode (flag :: a :: b :: c :: d :: tail) maxSize =
      if maxSize < be32 a b c d then .tooLarge (be32 a b c d)
      else if tail.length < be32 a b c d then .incomplete (be32 a b c d - tail.length)
      else .complete (tail.take (be32 a b c d)) (flag ≠ 0) (5 + be32 a b c d) := by
  rw [decode]
  have hlen : (flag :: a :: b :: c :: d :: tail).length = 5 + tail.length := by
    simp only [List.length_cons]
    omega
  simp only [hlen, Nat.add_lt_add_iff_right, Nat.add_sub_add_right, Nat.add_comm 5, List.take_succ_cons,
    List.drop_succ_cons, List.drop_zero]

theorem decode_complete {buf payload : List UInt8} {maxSize consumed : Nat} {compressed : Bool}
    (h : decode buf maxSize = .complete payload compressed consumed) :
    5 ≤ consumed ∧ consumed ≤ buf.length := by
  match buf with
  | flag :: a :: b :: c :: d :: tail =>
    rw [decode_cons] at h
    split at h
    · cases h
    · split at h
      · cases h
      · injection h with _ _ hconsumed
        simp only [List.length_cons]
        omega
  | [] | [_] | [_, _] | [_, _, _] | [_, _, _, _] => cases h

/-- What is found does not depend on what comes behind. -/
theorem decode_append {buf : List UInt8} {maxSize : Nat} (h : ∀ n, decode buf maxSize ≠ .incomplete n)
    (rest : List UInt8) : decode (buf ++ rest) maxSize = decode buf maxSize := by
  match buf with
  | flag :: a :: b :: c :: d :: tail =>
    simp only [List.cons_append, decode_cons] at h ⊢
    split
    · rfl
    · rename_i hmax
      rw [if_neg hmax] at h
      have htail : ¬ tail.length < be32 a b c d := fun hlt => h _ (if_pos hlt)
      rw [if_neg htail, if_neg (by rw [List.length_append]; omega),
        List.take_append_of_le_length (by omega)]
  | [] | [_] | [_, _] | [_, _, _] | [_, _, _, _] => exact absurd rfl (h _)

theorem decode_encodeWith {flag : UInt8} {payload wire : List UInt8} {maxSize : Nat}
    (hwire : encodeWith flag payload = .ok wire) (hsize : payload.length ≤ maxSize)
    (rest : List UInt8) :
    decode (wire ++ rest) maxSize = .complete payload (flag ≠ 0) wire.length := by
  rw [encodeWith] at hwire
  split at hwire
  · rename_i hlen
    obtain rfl := Except.ok.inj hwire
    simp only [be32Bytes, List.cons_append, List.nil_append, decode_cons, be32_be32Bytes hlen]
    rw [if_neg (Nat.not_lt.mpr hsize), if_neg (by rw [List.length_append]; omega),
      List.take_append_of_le_length (Nat.le_refl _), List.take_length]
    simp only [List.length_cons]
    congr 1
    omega
  · cases hwire

end Grpc
end Ringline
