import Ringline.Base.Text
import Ringline.H2.Connection

/-!
# Responses of the HTTP client

What `ringline-http` returns: `error.rs`, `response.rs`, and the part of `compress.rs` that decides
whether a body is to be decompressed.  The decompressors are those of other crates, and each of them is
compiled in or not, so a build of the crate is a parameter, `Features`.
-/

set_option autoImplicit false

namespace Ringline.Http

/-- `HttpError`. -/
inductive HttpError where
  | connectionClosed
  | h2 (e : H2.H2Error)
  | io
  | invalidUrl (message : String)
  | parse
  | invalidMessage (message : String)
  | maxSizeExceeded (message : String)
  | timeout
  | flowControl
  | allConnectionsFailed
  | protocol (message : String)
  | decompress (message : String)
deriving DecidableEq, Repr

/-- `Response`. -/
structure Response where
  status : Nat
  headers : List (String × String)
  body : List UInt8
deriving DecidableEq, Repr

/-! ## Compression -/

/-- How the crate was compiled. -/
structure Features where
  /-- `compress::accept_encoding_value`. -/
  acceptEncoding : Option String
  /-- `compress::decompress`, of the encoding, the body and the cap, if there is any decompressor. -/
  decompress : Option (String → List UInt8 → Nat → Except HttpError (List UInt8))

/-- The crate without decompressors, which is the default. -/
def Features.none : Features := ⟨.none, .none⟩

/-- `is_identity_encoding`. -/
def isIdentityEncoding (encoding : String) : Bool :=
  let e := trim encoding
  e == "" || eqIgnoreAsciiCase e "identity"

end Ringline.Http
