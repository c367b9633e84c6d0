import Ringline.Base.Bits

/-!
# Text

What the clients do with text comes from Rust's `str`: trimming Unicode white space, comparing without
regard to ASCII case, and reading bytes as UTF-8.  `scanUtf8` reads one character, or the longest run
of bytes that begins one and goes wrong; `fromUtf8Lossy` replaces each such run by U+FFFD.
-/

set_option autoImplicit false

namespace Ringline

/-- `char::is_whitespace`. -/
def isWhitespace (c : Char) : Bool :=
  let n := c.toNat
  (9 ≤ n && n ≤ 13) || n == 0x20 || n == 0x85 || n == 0xa0 || n == 0x1680 ||
    (0x2000 ≤ n && n ≤ 0x200a) || n == 0x2028 || n == 0x2029 || n == 0x202f || n == 0x205f ||
    n == 0x3000

/-- `str::trim`. -/
def trim (s : String) : String :=
  String.ofList ((s.toList.dropWhile isWhitespace).reverse.dropWhile isWhitespace).reverse

/-- `eq_ignore_ascii_case`. -/
def eqIgnoreAsciiCase (s t : String) : Bool := s.toLower == t.toLower

/-! ## UTF-8 -/

/-- A byte that continues a character. -/
def isContinuation (b : UInt8) : Bool := 0x80 ≤ b.toNat && b.toNat ≤ 0xbf

/-- The byte after the first one of a character of three or four bytes. -/
def isSecond (first second : UInt8) : Bool :=
  let b := second.toNat
  match first.toNat with
  | 0xe0 => 0xa0 ≤ b && b ≤ 0xbf
  | 0xed => 0x80 ≤ b && b ≤ 0x9f
  | 0xf0 => 0x90 ≤ b && b ≤ 0xbf
  | 0xf4 => 0x80 ≤ b && b ≤ 0x8f
  | _ => isContinuation second

/-- The bits of a byte that belong to the character. -/
def payloadBits (b : UInt8) : Nat := b.toNat % 64

/-- The first character of these bytes and its length; without a character, the length of what is
skipped, which is the longest run that could have begun one. -/
def scanUtf8 : List UInt8 → Option Nat × Nat
  | [] => (none, 0)
  | b :: rest =>
    let n := b.toNat
    if n < 0x80 then (some n, 1)
    else if 0xc2 ≤ n ∧ n ≤ 0xdf then
      match rest with
      | c :: _ => if isContinuation c then (some ((n - 0xc0) * 64 + payloadBits c), 2) else (none, 1)
      | [] => (none, 1)
    else if 0xe0 ≤ n ∧ n ≤ 0xef then
      match rest with
      | c :: d :: _ =>
        if !isSecond b c then (none, 1)
        else if !isContinuation d then (none, 2)
        else (some (((n - 0xe0) * 64 + payloadBits c) * 64 + payloadBits d), 3)
      | [c] => (none, if isSecond b c then 2 else 1)
      | [] => (none, 1)
    else if 0xf0 ≤ n ∧ n ≤ 0xf4 then
      match rest with
      | c :: d :: e :: _ =>
        if !isSecond b c then (none, 1)
        else if !isContinuation d then (none, 2)
        else if !isContinuation e then (none, 3)
        else (some ((((n - 0xf0) * 64 + payloadBits c) * 64 + payloadBits d) * 64 + payloadBits e), 4)
      | [c, d] => (none, if !isSecond b c then 1 else if isContinuation d then 3 else 2)
      | [c] => (none, if isSecond b c then 2 else 1)
      | [] => (none, 1)
    else (none, 1)

/-- The loop of `String::from_utf8_lossy`. -/
def lossyChars : Nat → List UInt8 → List Char
  | 0, _ => []
  | _, [] => []
  | fuel + 1, bytes =>
    ((scanUtf8 bytes).1.map Char.ofNat).getD '�' :: lossyChars fuel (bytes.drop (scanUtf8 bytes).2)

/-- `String::from_utf8_lossy`. -/
def fromUtf8Lossy (bytes : List UInt8) : String := String.ofList (lossyChars bytes.length bytes)

end Ringline
