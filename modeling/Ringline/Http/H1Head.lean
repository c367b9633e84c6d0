import Ringline.Http.Response
import Mathlib.Data.List.TakeWhile

/-!
# The head of an HTTP/1.1 response

`parse_response_headers`: what stands before the empty line of a response is taken apart into the
status and the header fields, and the fields that frame the body are checked against each other.

RFC 9112 lets nothing come between the name of a field and its colon, and a line that begins with
white space has no meaning of its own.  A parser that is more generous than that, or that reads more
as a length than a string of digits, sees another message than its neighbours do.  This one trims
the names before it looks at them, and it leaves the lengths to `usize::from_str`, which takes a
sign.  `Strict` is what the RFC asks of a line, and `Plain` is a line without any of this: of the
heads that are accepted, those with plain lines only are the strict ones (`strict_iff`).
-/

set_option autoImplicit false

namespace Ringline.Http.H1

open List

/-! ## Text -/

/-- `str`. -/
abbrev Text := List Char

/-- The loop of `str::from_utf8`. -/
def utf8Chars : Nat → List UInt8 → Option Text
  | _, [] => some []
  | 0, _ => none
  | fuel + 1, bytes =>
    match (scanUtf8 bytes).1 with
    | some c => (utf8Chars fuel (bytes.drop (scanUtf8 bytes).2)).map (Char.ofNat c :: ·)
    | none => none

/-- `str::from_utf8`. -/
def fromUtf8 (bytes : List UInt8) : Option Text := utf8Chars bytes.length bytes

/-- `split("\r\n")`. -/
def splitCrlf : Text → List Text
  | [] => [[]]
  | '\r' :: '\n' :: rest => [] :: splitCrlf rest
  | c :: rest => (splitCrlf rest).modifyHead (c :: ·)

/-- `split_once`. -/
def splitOnce (sep : Char) (s : Text) : Option (Text × Text) :=
  match s.dropWhile (· ≠ sep) with
  | _ :: rest => some (s.takeWhile (· ≠ sep), rest)
  | [] => none

/-- The text without the characters of a kind at its ends. -/
def trimBy (p : Char → Bool) (s : Text) : Text := ((s.dropWhile p).reverse.dropWhile p).reverse

/-- `to_ascii_lowercase`. -/
def lower (s : Text) : Text := s.map Char.toLower

/-- A number without its sign. -/
def unsigned : Text → Text
  | '+' :: rest => rest
  | s => s

/-- `usize::from_str`. -/
def parseUsize (s : Text) : Option Nat :=
  let digits := unsigned s
  let n := digits.foldl (fun n c => n * 10 + (c.toNat - '0'.toNat)) 0
  if digits ≠ [] ∧ digits.all Char.isDigit ∧ n < 2 ^ 64 then some n else none

/-! ## The parser -/

inductive HttpVersion where
  | http10 | http11
deriving DecidableEq, Repr

structure ParsedHeaders where
  status : Nat
  version : HttpVersion
  headers : List (Text × Text)
  contentLength : Option Nat
  chunked : Bool
  contentEncoding : Option Text
  connectionClose : Bool
deriving DecidableEq, Repr

/-- The variables of the loop over the header lines. -/
structure Fields where
  headers : List (Text × Text) := []
  contentLengths : List Nat := []
  transferEncodings : List Text := []
  contentEncoding : Option Text := none
  connectionClose : Bool := false

/-- `is_token_char`. -/
def isTokenChar (c : Char) : Bool :=
  c ∈ ['!', '#', '$', '%', '&', '\'', '*', '+', '-', '.', '^', '_', '\x60', '|', '~'] ||
    ('0' ≤ c && c ≤ '9') || ('a' ≤ c && c ≤ 'z') || ('A' ≤ c && c ≤ 'Z')

/-- CR, LF or NUL. -/
def isForbidden (c : Char) : Bool := c = '\r' || c = '\n' || c = '\x00'

/-- `contains_token`. -/
def containsToken (field token : Text) : Bool :=
  (field.splitOn ',').any fun p => lower (trimBy isWhitespace p) = lower token

/-- What the fields that frame the message add. -/
def framing (acc : Fields) (name value : Text) : Except HttpError Fields :=
  let pieces := (value.splitOn ',').map (trimBy isWhitespace)
  if lower name = "content-length".toList then
    if pieces.all (parseUsize · |>.isSome) then
      .ok { acc with contentLengths := acc.contentLengths ++ pieces.filterMap parseUsize }
    else .error (.invalidMessage "malformed Content-Length")
  else if lower name = "transfer-encoding".toList then
    .ok { acc with transferEncodings := acc.transferEncodings ++ pieces.map lower }
  else if lower name = "content-encoding".toList then .ok { acc with contentEncoding := some value }
  else if lower name = "connection".toList ∧ containsToken value "close".toList then
    .ok { acc with connectionClose := true }
  else .ok acc

/-- One header line. -/
def field (acc : Fields) (line : Text) : Except HttpError Fields :=
  match splitOnce ':' line with
  | none => .error .parse
  | some (name, value) =>
    let name := trimBy isWhitespace name
    let value := trimBy isWhitespace value
    if value.any isForbidden then
      .error (.invalidMessage ("header \x60" ++ String.ofList name ++ "\x60 contains CR/LF/NUL"))
    else if name = [] ∨ name.any (!isTokenChar ·) then .error .parse
    else
      match framing acc name value with
      | .ok acc => .ok { acc with headers := acc.headers ++ [(name, value)] }
      | .error e => .error e

/-- The loop over the header lines, which ends at an empty one. -/
def fields : Fields → List Text → Except HttpError Fields
  | acc, [] | acc, [] :: _ => .ok acc
  | acc, line :: lines =>
    match field acc line with
    | .ok acc => fields acc lines
    | .error e => .error e

/-- The status line. -/
def statusLine (line : Text) : Except HttpError (HttpVersion × Nat) :=
  let (version, rest) := (splitOnce ' ' line).getD (line, [])
  let version? :=
    if version = "HTTP/1.0".toList then some HttpVersion.http10
    else if version = "HTTP/1.1".toList then some .http11
    else none
  let status := rest.takeWhile (· ≠ ' ')
  match version?, parseUsize status with
  | some version, some n =>
    if status.length = 3 ∧ status.all Char.isDigit then .ok (version, n) else .error .parse
  | _, _ => .error .parse

/-- What follows from all header lines together.  `debug` is how Rust shows a list of strings. -/
def finish (debug : List Text → String) (version : HttpVersion) (status : Nat) (acc : Fields) :
    Except HttpError ParsedHeaders :=
  let chunked := acc.transferEncodings ≠ []
  if acc.transferEncodings.any (· ≠ "chunked".toList) then
    .error (.invalidMessage ("unsupported Transfer-Encoding: " ++ debug acc.transferEncodings))
  else if chunked ∧ acc.contentLengths ≠ [] then
    .error (.invalidMessage "Transfer-Encoding and Content-Length both present")
  else if acc.contentLengths.any (some · ≠ acc.contentLengths.head?) then
    .error (.invalidMessage "conflicting Content-Length values")
  else .ok ⟨status, version, acc.headers, acc.contentLengths.head?, chunked, acc.contentEncoding,
    acc.connectionClose⟩

/-- `parse_response_headers`. -/
def parseResponseHeaders (debug : List Text → String) (data : List UInt8) :
    Except HttpError ParsedHeaders :=
  match (fromUtf8 data).map splitCrlf with
  | some (first :: lines) =>
    match statusLine first with
    | .ok (version, status) =>
      match fields {} lines with
      | .ok acc => finish debug version status acc
      | .error e => .error e
    | .error e => .error e
  | _ => .error .parse

/-! ## Lines as the RFC has them -/

/-- Optional white space. -/
def isOws (c : Char) : Bool := c = ' ' || c = '\t'

/-- A non-empty string of digits. -/
def Digits (s : Text) : Prop := s ≠ [] ∧ s.all Char.isDigit
deriving Decidable

/-- A field line: a token, a colon right behind it, and in Content-Length nothing but numbers. -/
def Strict (line : Text) : Prop :=
  ∃ x ∈ splitOnce ':' line, x.1 ≠ [] ∧ x.1.all isTokenChar ∧
    (lower x.1 = "content-length".toList →
      ∀ piece ∈ (trimBy isOws x.2).splitOn ',', Digits (trimBy isOws piece))
deriving Decidable

/-- No white space in the name, and in Content-Length no sign and only the usual white space. -/
def Plain (line : Text) : Prop :=
  ∀ x ∈ splitOnce ':' line, x.1.all (!isWhitespace ·) ∧
    (lower x.1 = "content-length".toList → x.2.all fun c => c ≠ '+' && (!isWhitespace c || isOws c))
deriving Decidable

/-- The header lines of a head. -/
def headerLines (data : List UInt8) : List Text :=
  (((fromUtf8 data).map splitCrlf).getD []).tail.takeWhile (· ≠ [])

/-! ### Trimming and splitting -/

section

variable {p q : Char → Bool} {s : Text} {c : Char}

theorem dropWhile_congr (h : ∀ c ∈ s, p c = q c) : s.dropWhile p = s.dropWhile q := by
  induction s with
  | nil => rfl
  | cons c s ih =>
    obtain ⟨hc, hs⟩ := forall_mem_cons.mp h
    simp only [dropWhile_cons, hc, ih hs]

theorem trimBy_congr (h : ∀ c ∈ s, p c = q c) : trimBy p s = trimBy q s := by
  have hdrop := dropWhile_congr h
  rw [trimBy, trimBy, hdrop]
  congr 1
  refine dropWhile_congr fun c hc => h c ?_
  exact (dropWhile_sublist q).subset (mem_reverse.mp hc)

theorem dropWhile_eq_self (h : ∀ c ∈ s, p c = false) : s.dropWhile p = s := by
  cases s with
  | nil => rfl
  | cons c s => simp [h c]

theorem trimBy_eq_self (h : ∀ c ∈ s, p c = false) : trimBy p s = s := by
  rw [trimBy, dropWhile_eq_self h, dropWhile_eq_self fun c hc => h c (mem_reverse.mp hc),
    reverse_reverse]

theorem mem_of_mem_trimBy (h : c ∈ trimBy p s) : c ∈ s := by
  rw [trimBy, mem_reverse] at h
  have hdrop := (dropWhile_sublist p).subset h
  exact (dropWhile_sublist p).subset (mem_reverse.mp hdrop)

theorem mem_dropWhile_or (h : c ∈ s) : c ∈ s.dropWhile p ∨ p c = true := by
  rw [← takeWhile_append_dropWhile (p := p) (l := s), mem_append] at h
  exact h.symm.imp_right mem_takeWhile_imp

/-- What is trimmed away is of the kind. -/
theorem mem_trimBy_or (h : c ∈ s) : c ∈ trimBy p s ∨ p c = true := by
  rcases mem_dropWhile_or (p := p) h with h | h
  · rw [trimBy, mem_reverse]
    exact mem_dropWhile_or (mem_reverse.mpr h)
  · exact .inr h

theorem flatten_splitOn (a : Char) (s : Text) : (s.splitOn a).flatten = s.filter (· != a) := by
  rw [splitOn]
  induction s with
  | nil => rfl
  | cons c s ih =>
    rw [splitOnP_cons_eq_if_modifyHead, filter_cons, ← ih]
    obtain ⟨piece, pieces, hsplit⟩ := exists_cons_of_ne_nil (splitOnP_ne_nil (· == a) s)
    rw [hsplit]
    by_cases hc : c = a <;> simp [hc]

theorem mem_of_mem_splitOn {a : Char} {piece : Text} (hpiece : piece ∈ s.splitOn a)
    (hc : c ∈ piece) : c ∈ s := by
  have hmem : c ∈ (s.splitOn a).flatten := mem_flatten.mpr ⟨piece, hpiece, hc⟩
  rw [flatten_splitOn] at hmem
  exact mem_of_mem_filter hmem

end

/-! ### Characters -/

theorem range_of_isTokenChar {c : Char} (h : isTokenChar c = true) :
    0x21 ≤ c.toNat ∧ c.toNat ≤ 0x7e := by
  simp only [isTokenChar, Bool.or_eq_true, Bool.and_eq_true, decide_eq_true_iff, Char.le_def,
    UInt32.le_iff_toNat_le, mem_cons, not_mem_nil, or_false] at h
  rcases h with ((h | h) | h) | h
  · rcases h with rfl | rfl | rfl | rfl | rfl | rfl | rfl | rfl | rfl | rfl | rfl | rfl | rfl |
      rfl | rfl <;> decide
  all_goals
    simp at h
    omega

theorem not_isWhitespace {c : Char} (h : 0x21 ≤ c.toNat ∧ c.toNat ≤ 0x7e) :
    isWhitespace c = false := by
  simp [isWhitespace]
  omega

theorem not_isWhitespace_of_isDigit {c : Char} (h : c.isDigit = true) :
    c ≠ '+' ∧ isWhitespace c = false := by
  simp only [Char.isDigit, Bool.and_eq_true, decide_eq_true_iff, ge_iff_le,
    UInt32.le_iff_toNat_le] at h
  have hrange : 48 ≤ c.toNat ∧ c.toNat ≤ 57 := h
  refine ⟨?_, not_isWhitespace (by omega)⟩
  rintro rfl
  exact absurd hrange.1 (by decide)

theorem digits_of_parseUsize {s : Text} (h : (parseUsize s).isSome = true) (hsign : '+' ∉ s) :
    Digits s := by
  have hunsigned : unsigned s = s := by
    rw [unsigned]
    rintro rest rfl
    exact hsign mem_cons_self
  rw [parseUsize, hunsigned] at h
  split at h
  · rename_i hs
    exact ⟨hs.1, hs.2.1⟩
  · cases h

/-! ### Accepted heads -/

/-- What is known of a line that was accepted. -/
structure Accepted (line name value : Text) : Prop where
  split : splitOnce ':' line = some (name, value)
  nonempty : trimBy isWhitespace name ≠ []
  token : ∀ c ∈ trimBy isWhitespace name, isTokenChar c = true
  lengths : lower (trimBy isWhitespace name) = "content-length".toList →
    ∀ piece ∈ (trimBy isWhitespace value).splitOn ',',
      (parseUsize (trimBy isWhitespace piece)).isSome = true

theorem accepted_of_field {acc acc' : Fields} {line : Text} (h : field acc line = .ok acc') :
    ∃ name value, Accepted line name value := by
  rw [field] at h
  rcases hsplit : splitOnce ':' line with _ | ⟨name, value⟩
  · simp [hsplit] at h
  · simp only [hsplit] at h
    split at h
    · cases h
    · split at h
      · cases h
      · rename_i hname
        simp only [not_or, any_eq_true, Bool.not_eq_true', not_exists, not_and,
          Bool.not_eq_false] at hname
        refine ⟨name, value, hsplit, hname.1, hname.2, fun hlength piece hpiece => ?_⟩
        rw [framing] at h
        split_ifs at h with hall
        exact all_eq_true.mp hall _ (mem_map_of_mem hpiece)

theorem accepted_of_fields {acc acc' : Fields} {lines : List Text}
    (h : fields acc lines = .ok acc') :
    ∀ line ∈ lines.takeWhile (· ≠ []), ∃ name value, Accepted line name value := by
  induction lines generalizing acc with
  | nil => simp
  | cons first lines ih =>
    cases first with
    | nil => simp
    | cons c cs =>
      rw [fields] at h
      split at h
      · rename_i hfield
        simp only [ne_eq, reduceCtorEq, not_false_eq_true, decide_true, takeWhile_cons_of_pos,
          forall_mem_cons]
        exact ⟨accepted_of_field hfield, ih h⟩
      · cases h
      · simp

theorem Accepted.strict_iff_plain {line name value : Text} (h : Accepted line name value) :
    Strict line ↔ Plain line := by
  constructor
  · rintro ⟨⟨name', value'⟩, hsplit, -, htoken, hlengths⟩ _ hsplit'
    cases hsplit.symm.trans hsplit'
    rw [all_eq_true] at htoken
    refine ⟨all_eq_true.mpr fun c hc => ?_, fun hname => all_eq_true.mpr fun c hc => ?_⟩
    · simp [not_isWhitespace (range_of_isTokenChar (htoken c hc))]
    -- every character of the value belongs to a number, or stands around one, or is a comma
    have hkind : c.isDigit = true ∨ isOws c = true ∨ c = ',' := by
      rcases mem_trimBy_or (p := isOws) hc with hc | hc
      · by_cases hcomma : c = ','
        · exact .inr (.inr hcomma)
        · have hflat : c ∈ ((trimBy isOws value').splitOn ',').flatten := by
            rw [flatten_splitOn]
            exact mem_filter.mpr ⟨hc, by simpa using hcomma⟩
          obtain ⟨piece, hpiece, hc⟩ := mem_flatten.mp hflat
          rcases mem_trimBy_or (p := isOws) hc with hc | hc
          · exact .inl (all_eq_true.mp (hlengths hname piece hpiece).2 c hc)
          · exact .inr (.inl hc)
      · exact .inr (.inl hc)
    rcases hkind with hdigit | hows | rfl
    · simp [not_isWhitespace_of_isDigit hdigit]
    · have hsign : c ≠ '+' := by
        rintro rfl
        exact absurd hows (by decide)
      simp [hows, hsign]
    · decide
  · intro hplain
    obtain ⟨hspace, hlengths⟩ := hplain (name, value) h.split
    simp only [all_eq_true, Bool.and_eq_true, Bool.or_eq_true, Bool.not_eq_true',
      decide_eq_true_iff] at hspace hlengths
    have hname : trimBy isWhitespace name = name := trimBy_eq_self hspace
    refine ⟨(name, value), h.split, hname ▸ h.nonempty,
      all_eq_true.mpr fun c hc => h.token c (hname.symm ▸ hc), fun hlower piece hpiece => ?_⟩
    have hows : ∀ c ∈ value, isOws c = isWhitespace c := fun c hc => by
      rw [Bool.eq_iff_iff]
      refine ⟨fun h => ?_, fun h => ?_⟩
      · simp only [isOws, Bool.or_eq_true, decide_eq_true_iff] at h
        rcases h with rfl | rfl <;> decide
      · simpa [h] using (hlengths hlower c hc).2
    rw [trimBy_congr hows] at hpiece
    have hvalue : ∀ c ∈ piece, c ∈ value := fun c hc =>
      mem_of_mem_trimBy (mem_of_mem_splitOn hpiece hc)
    rw [trimBy_congr fun c hc => hows c (hvalue c hc)]
    refine digits_of_parseUsize (h.lengths (hname.symm ▸ hlower) piece hpiece) fun hsign => ?_
    exact (hlengths hlower '+' (hvalue _ (mem_of_mem_trimBy hsign))).1 rfl

/-- **The heads that are accepted are strict exactly when their lines are plain.** -/
theorem strict_iff {debug : List Text → String} {data : List UInt8} {parsed : ParsedHeaders}
    (h : parseResponseHeaders debug data = .ok parsed) :
    (∀ line ∈ headerLines data, Strict line) ↔ ∀ line ∈ headerLines data, Plain line := by
  have haccepted : ∀ line ∈ headerLines data, ∃ name value, Accepted line name value := by
    rw [parseResponseHeaders] at h
    rw [headerLines]
    split at h
    · rename_i first lines hsplit
      rw [hsplit]
      split at h
      · split at h
        · rename_i hfields
          exact accepted_of_fields hfields
        · cases h
      · cases h
    · cases h
  refine forall₂_congr fun line hline => ?_
  obtain ⟨name, value, hline⟩ := haccepted line hline
  exact hline.strict_iff_plain

/-- Some way to show a list of strings. -/
def joined (texts : List Text) : String := String.join (texts.map String.ofList)

/-- A head with a list of lengths. -/
def listHead : List UInt8 := bytesOf "HTTP/1.1 200 OK\r\nContent-Length: 5, 5\r\nx:"

theorem strict_iff_list :
    (headerLines listHead).length = 2 ∧ ∀ line ∈ headerLines listHead, Strict line :=
  ⟨by decide +kernel, (@strict_iff joined _ ⟨200, .http11,
    [("Content-Length".toList, "5, 5".toList), (['x'], [])], some 5, false, none, false⟩
    (by decide +kernel)).mpr (by decide +kernel)⟩

/-- White space before a colon, a line that continues the one before, and a length with a sign. -/
theorem padded_head_accepted :
    let data := bytesOf "HTTP/1.1 200 OK\r\nContent-Length : +5\r\n x: y"
    parseResponseHeaders joined data = .ok ⟨200, .http11,
        [("Content-Length".toList, "+5".toList), (['x'], ['y'])], some 5, false, none, false⟩ ∧
      ¬∀ line ∈ headerLines data, Strict line := by
  decide +kernel

end Ringline.Http.H1
