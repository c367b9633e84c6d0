import Ringline.H2.Hpack
import Ringline.H3.Frame

/-!
# QPACK

`ringline-h3/src/qpack.rs`: header sections with references to the static table only.  The prefix
integers and the Huffman code are those of HPACK, and the crate has copies of the two codecs; here they
are the ones of `Ringline.H2.PrefixInt` and `Ringline.H2.Huffman`.
-/

set_option autoImplicit false

namespace Ringline.H3

open H2 (HeaderField decodePrefixInt encodePrefixInt encodeStringLiteral)

/-- `STATIC_TABLE`: names and values, indexed from 0. -/
def staticTable : List (List UInt8 × List UInt8) := [
  (":authority", ""), (":path", "/"), ("age", "0"), ("content-disposition", ""),
  ("content-length", "0"), ("cookie", ""), ("date", ""), ("etag", ""), ("if-modified-since", ""),
  ("if-none-match", ""), ("last-modified", ""), ("link", ""), ("location", ""), ("referer", ""),
  ("set-cookie", ""), (":method", "CONNECT"), (":method", "DELETE"), (":method", "GET"),
  (":method", "HEAD"), (":method", "OPTIONS"), (":method", "POST"), (":method", "PUT"),
  (":scheme", "http"), (":scheme", "https"), (":status", "103"), (":status", "200"),
  (":status", "304"), (":status", "404"), (":status", "503"), ("accept", "*/*"),
  ("accept", "application/dns-message"), ("accept-encoding", "gzip, deflate, br"),
  ("accept-ranges", "bytes"), ("access-control-allow-headers", "cache-control"),
  ("access-control-allow-headers", "content-type"), ("access-control-allow-origin", "*"),
  ("cache-control", "max-age=0"), ("cache-control", "max-age=2592000"),
  ("cache-control", "max-age=604800"), ("cache-control", "no-cache"),
  ("cache-control", "no-store"), ("cache-control", "public, max-age=31536000"),
  ("content-encoding", "br"), ("content-encoding", "gzip"),
  ("content-type", "application/dns-message"), ("content-type", "application/javascript"),
  ("content-type", "application/json"), ("content-type", "application/x-www-form-urlencoded"),
  ("content-type", "image/gif"), ("content-type", "image/jpeg"), ("content-type", "image/png"),
  ("content-type", "text/css"), ("content-type", "text/html; charset=utf-8"),
  ("content-type", "text/plain"), ("content-type", "text/plain;charset=utf-8"),
  ("range", "bytes=0-"), ("strict-transport-security", "max-age=31536000"),
  ("strict-transport-security", "max-age=31536000; includesubdomains"),
  ("strict-transport-security", "max-age=31536000; includesubdomains; preload"),
  ("vary", "accept-encoding"), ("vary", "origin"), ("x-content-type-options", "nosniff"),
  ("x-xss-protection", "1; mode=block"), (":status", "100"), (":status", "204"),
  (":status", "206"), (":status", "302"), (":status", "400"), (":status", "403"),
  (":status", "421"), (":status", "425"), (":status", "500"), ("accept-language", ""),
  ("access-control-allow-credentials", "FALSE"), ("access-control-allow-credentials", "TRUE"),
  ("access-control-allow-headers", "*"), ("access-control-allow-methods", "get"),
  ("access-control-allow-methods", "get, post, options"),
  ("access-control-allow-methods", "options"),
  ("access-control-expose-headers", "content-length"),
  ("access-control-request-headers", "content-type"), ("access-control-request-method", "get"),
  ("access-control-request-method", "post"), ("alt-svc", "clear"), ("authorization", ""),
  ("content-security-policy", "script-src 'none'; object-src 'none'; base-uri 'none'"),
  ("early-data", "1"), ("expect-ct", ""), ("forwarded", ""), ("if-range", ""), ("origin", ""),
  ("purpose", "prefetch"), ("server", ""), ("timing-allow-origin", "*"),
  ("upgrade-insecure-requests", "1"), ("user-agent", ""), ("x-forwarded-for", ""),
  ("x-frame-options", "deny"), ("x-frame-options", "sameorigin")].map fun (name, value) => (bytesOf name, bytesOf value)

/-- `find_static_name_value`. -/
def findStaticNameValue (name value : List UInt8) : Option Nat :=
  staticTable.findIdx? fun e => e.1 == name && e.2 == value

/-- `find_static_name`. -/
def findStaticName (name : List UInt8) : Option Nat :=
  staticTable.findIdx? fun e => e.1 == name

namespace Qpack

/-- One field line of `encode`. -/
def encodeField (header : HeaderField) : List UInt8 :=
  match findStaticNameValue header.name header.value with
  | some index => encodePrefixInt index 6 0xc0
  | none =>
    match findStaticName header.name with
    | some nameIndex => encodePrefixInt nameIndex 4 0x50 ++ encodeStringLiteral header.value
    | none =>
      let hufLen := H2.Huffman.encodedLen header.name
      (if hufLen < header.name.length then
          encodePrefixInt hufLen 3 0x28 ++ H2.Huffman.encode header.name
        else encodePrefixInt header.name.length 3 0x20 ++ header.name) ++
        encodeStringLiteral header.value

/-- `encode`. -/
def encode (headers : List HeaderField) : List UInt8 :=
  encodePrefixInt 0 8 0x00 ++ encodePrefixInt 0 7 0x00 ++ headers.flatMap encodeField

/-- `MAX_HEADER_FIELDS`. -/
def maxHeaderFields : Nat := 256

/-- `.ok_or(H3Error::QpackDecodingFailed)`. -/
def okOr {α : Type} : Option α → Except H3Error α
  | some a => .ok a
  | none => .error .qpackDecodingFailed

variable (buf : List UInt8)

/-- A string behind a length with a prefix of `prefixBits` bits, and what comes behind the string. -/
def decodeString (prefixBits : Nat) (huffman : Bool) :
    Except H3Error (List UInt8 × List UInt8) := do
  let (len, n) ← okOr (decodePrefixInt buf prefixBits)
  let buf := buf.drop n
  if buf.length < len then throw .qpackDecodingFailed
  let data := buf.take len
  if huffman then
    match H2.Huffman.decode data with
    | .ok s => return (s, buf.drop len)
    | .error _ => throw .qpackDecodingFailed
  else return (data, buf.drop len)

/-- The value of a literal, whose first bit says whether it is Huffman-coded. -/
def decodeValue : Except H3Error (List UInt8 × List UInt8) :=
  decodeString buf 7 ((buf.head?.getD 0) &&& 0x80 ≠ 0)

/-- One field line of `decode`, and what comes behind it. -/
def decodeField (first : UInt8) (buf : List UInt8) : Except H3Error (HeaderField × List UInt8) := do
  if first &&& 0x80 ≠ 0 then
    -- indexed field line
    if first &&& 0x40 = 0 then throw .qpackDecodingFailed
    let (index, n) ← okOr (decodePrefixInt buf 6)
    let (name, value) ← okOr staticTable[index]?
    return (⟨name, value⟩, buf.drop n)
  else if first &&& 0x40 ≠ 0 then
    -- literal with name reference
    if first &&& 0x10 = 0 then throw .qpackDecodingFailed
    let (nameIndex, n) ← okOr (decodePrefixInt buf 4)
    let (name, _) ← okOr staticTable[nameIndex]?
    let (value, rest) ← decodeValue (buf.drop n)
    return (⟨name, value⟩, rest)
  else if first &&& 0x20 ≠ 0 then
    -- literal with literal name
    let (name, rest) ← decodeString buf 3 (first &&& 0x08 ≠ 0)
    let (value, rest) ← decodeValue rest
    return (⟨name, value⟩, rest)
  else
    -- the two kinds with a post-base index need the dynamic table
    throw .qpackDecodingFailed

/-- The loop of `decode`; every field line takes a byte at least. -/
def decodeFields : Nat → List HeaderField → List UInt8 → Except H3Error (List HeaderField)
  | _, headers, [] => .ok headers
  | 0, _, _ => .error .qpackDecodingFailed
  | fuel + 1, headers, first :: rest =>
    if maxHeaderFields ≤ headers.length then .error .qpackDecodingFailed
    else
      match decodeField first (first :: rest) with
      | .error e => .error e
      | .ok (header, rest) => decodeFields fuel (headers ++ [header]) rest

/-- `decode`. -/
def decode : Except H3Error (List HeaderField) := do
  if buf = [] then throw .qpackDecodingFailed
  let (ric, n) ← okOr (decodePrefixInt buf 8)
  if ric ≠ 0 then throw .qpackDecodingFailed
  let buf := buf.drop n
  if buf = [] then throw .qpackDecodingFailed
  let (_, n) ← okOr (decodePrefixInt buf 7)
  decodeFields (buf.length + 1) [] (buf.drop n)

/-! ## The one way to fail -/

/-- Nothing but `H3Error::QpackDecodingFailed` comes out of a decoder. -/
def FailsPlainly {α : Type} (x : Except H3Error α) : Prop :=
  ∀ e, x = .error e → e = .qpackDecodingFailed

theorem failsPlainly_ok {α : Type} (a : α) : FailsPlainly (.ok a) := nofun

theorem failsPlainly_error {α : Type} : FailsPlainly (.error .qpackDecodingFailed : Except H3Error α) :=
  fun _ h => (Except.error.inj h).symm

theorem failsPlainly_okOr {α : Type} (o : Option α) : FailsPlainly (okOr o) := by
  cases o with
  | none => exact failsPlainly_error
  | some a => exact failsPlainly_ok a

theorem FailsPlainly.bind {α β : Type} {x : Except H3Error α} {f : α → Except H3Error β}
    (hx : FailsPlainly x) (hf : ∀ a, FailsPlainly (f a)) : FailsPlainly (x >>= f) := by
  rcases x with e | a
  · intro e' h
    exact hx e' (congrArg Except.error (Except.error.inj h))
  · exact hf a

theorem failsPlainly_decodeString (prefixBits : Nat) (huffman : Bool) :
    FailsPlainly (decodeString buf prefixBits huffman) := by
  refine (failsPlainly_okOr _).bind fun p => ?_
  dsimp only
  split
  · exact failsPlainly_error
  · split
    · rcases H2.Huffman.decode ((buf.drop p.2).take p.1) with e | s
      · exact failsPlainly_error
      · exact failsPlainly_ok _
    · exact failsPlainly_ok _

theorem failsPlainly_decodeField (first : UInt8) (buf : List UInt8) :
    FailsPlainly (decodeField first buf) := by
  rw [decodeField]
  split
  · split
    · exact failsPlainly_error
    · exact (failsPlainly_okOr _).bind fun p =>
        (failsPlainly_okOr _).bind fun entry => failsPlainly_ok _
  · split
    · split
      · exact failsPlainly_error
      · exact (failsPlainly_okOr _).bind fun p => (failsPlainly_okOr _).bind fun entry =>
          (failsPlainly_decodeString _ _ _).bind fun value => failsPlainly_ok _
    · split
      · exact (failsPlainly_decodeString _ _ _).bind fun name =>
          (failsPlainly_decodeString _ _ _).bind fun value => failsPlainly_ok _
      · exact failsPlainly_error

theorem failsPlainly_decodeFields (fuel : Nat) (headers : List HeaderField) (buf : List UInt8) :
    FailsPlainly (decodeFields fuel headers buf) := by
  induction fuel generalizing headers buf with
  | zero =>
    cases buf with
    | nil => exact failsPlainly_ok _
    | cons first rest => exact failsPlainly_error
  | succ fuel ih =>
    cases buf with
    | nil => exact failsPlainly_ok _
    | cons first rest =>
      rw [decodeFields]
      split
      · exact failsPlainly_error
      · have hfield := failsPlainly_decodeField first (first :: rest)
        rcases hdecode : decodeField first (first :: rest) with e | field
        · rw [hfield e hdecode]
          exact failsPlainly_error
        · exact ih _ _

theorem failsPlainly_decode : FailsPlainly (decode buf) := by
  rw [decode]
  split
  · exact failsPlainly_error
  · refine (failsPlainly_okOr _).bind fun p => ?_
    dsimp only
    split
    · exact failsPlainly_error
    · split
      · exact failsPlainly_error
      · exact (failsPlainly_okOr _).bind fun q => failsPlainly_decodeFields _ _ _

end Qpack

/-! ## The copy of the Huffman code -/

namespace Huffman

open List ArrayTrie
open H2.Huffman hiding decode

/-- `decode` of `ringline-h3/src/huffman.rs`: the text of the HTTP/2 one, with the error of QPACK. -/
def decode (data : List UInt8) : Except H3Error (List UInt8) :=
  match H2.Huffman.decode data with
  | .ok s => .ok s
  | .error _ => .error .qpackDecodingFailed

end Huffman
end Ringline.H3
