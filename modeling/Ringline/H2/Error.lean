/-!
# Errors of the HTTP/2 layer

`ringline-h2/src/error.rs`.  A modelled function that can fail returns `Except Failure`: either an
error of the source, or a panic of the source (an `unreachable!()`, a `panic!(..)` or an index out
of bounds), which the theorems show not to happen where it matters.
-/

set_option autoImplicit false

namespace Ringline.H2

/-- HTTP/2 error codes (`ErrorCode`). -/
inductive ErrorCode where
  | noError
  | protocolError
  | internalError
  | flowControlError
  | settingsTimeout
  | streamClosed
  | frameSizeError
  | refusedStream
  | cancel
  | compressionError
  | connectError
  | enhanceYourCalm
  | inadequateSecurity
  | http11Required
deriving DecidableEq, Repr

/-- `error_code as u32`. -/
def ErrorCode.toU32 : ErrorCode → Nat
  | noError => 0x0
  | protocolError => 0x1
  | internalError => 0x2
  | flowControlError => 0x3
  | settingsTimeout => 0x4
  | streamClosed => 0x5
  | frameSizeError => 0x6
  | refusedStream => 0x7
  | cancel => 0x8
  | compressionError => 0x9
  | connectError => 0xa
  | enhanceYourCalm => 0xb
  | inadequateSecurity => 0xc
  | http11Required => 0xd

/-- `ErrorCode::from_u32`: unknown codes fold to `internalError`. -/
def ErrorCode.fromU32 : Nat → ErrorCode
  | 0x0 => noError
  | 0x1 => protocolError
  | 0x2 => internalError
  | 0x3 => flowControlError
  | 0x4 => settingsTimeout
  | 0x5 => streamClosed
  | 0x6 => frameSizeError
  | 0x7 => refusedStream
  | 0x8 => cancel
  | 0x9 => compressionError
  | 0xa => connectError
  | 0xb => enhanceYourCalm
  | 0xc => inadequateSecurity
  | 0xd => http11Required
  | _ => internalError

/-- Errors produced by the HTTP/2 framing layer (`H2Error`). -/
inductive H2Error where
  /-- Frame decoding error. -/
  | frameError
  /-- Received a frame that violates the protocol. -/
  | protocolError (message : String)
  /-- HPACK header compression/decompression error. -/
  | compressionError
  /-- Flow control violation. -/
  | flowControlError
  /-- Frame size exceeds the maximum allowed. -/
  | frameSizeError
  /-- Connection-level error with an error code. -/
  | connectionError (code : ErrorCode)
  /-- Stream-level error with an error code. -/
  | streamError (streamId : Nat) (code : ErrorCode)
  /-- HTTP message semantic error. -/
  | messageError (message : String)
  /-- A resource cap was exceeded. -/
  | maxSizeExceeded (message : String)
  /-- Internal error with a description. -/
  | internal (message : String)
deriving DecidableEq, Repr

/-- `H2Error::code`: what a GOAWAY reports. -/
def H2Error.code : H2Error → ErrorCode
  | frameError | protocolError _ | messageError _ => .protocolError
  | compressionError => .compressionError
  | flowControlError => .flowControlError
  | frameSizeError => .frameSizeError
  | connectionError code => code
  | streamError _ code => code
  | maxSizeExceeded _ => .enhanceYourCalm
  | internal _ => .internalError

/-- How a modelled function can fail to return. -/
inductive Failure where
  /-- The source returns this error. -/
  | error (e : H2Error)
  /-- The source panics. -/
  | panic
deriving DecidableEq, Repr

end Ringline.H2
