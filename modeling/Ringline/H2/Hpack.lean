import Ringline.H2.Huffman
import Ringline.H2.PrefixInt

/-!
# HPACK header compression

The encoder and the decoder of `ringline-h2/src/hpack.rs`: the static table, the dynamic table with
its eviction, string literals (Huffman-coded when that is shorter), and the two walks over a header
block.  A function that appends to a buffer is modelled by what it appends; one that takes
`&mut self` returns the new state.  Sizes are natural numbers: they count bytes that are really
held in memory, so the source's `usize` sums do not wrap.
-/

set_option autoImplicit false

namespace Ringline.H2

/-- `MAX_HEADER_FIELDS`: cap on the fields decoded from one block. -/
def maxHeaderFields : Nat := 256

/-- A header name-value pair (`HeaderField`). -/
structure HeaderField where
  name : List UInt8
  value : List UInt8
deriving DecidableEq, Repr

/-- `HeaderField::size`: the size of a field for dynamic table accounting. -/
def HeaderField.size (field : HeaderField) : Nat := field.name.length + field.value.length + 32

/-! ## Static table -/

/-- `STATIC_TABLE`: names and values, indexed from 1 on the wire. -/
def staticTable : List (List UInt8 × List UInt8) := [
  (":authority", ""), (":method", "GET"), (":method", "POST"), (":path", "/"),
  (":path", "/index.html"), (":scheme", "http"), (":scheme", "https"), (":status", "200"),
  (":status", "204"), (":status", "206"), (":status", "304"), (":status", "400"),
  (":status", "404"), (":status", "500"), ("accept-charset", ""),
  ("accept-encoding", "gzip, deflate"), ("accept-language", ""), ("accept-ranges", ""),
  ("accept", ""), ("access-control-allow-origin", ""), ("age", ""), ("allow", ""),
  ("authorization", ""), ("cache-control", ""), ("content-disposition", ""),
  ("content-encoding", ""), ("content-language", ""), ("content-length", ""),
  ("content-location", ""), ("content-range", ""), ("content-type", ""), ("cookie", ""),
  ("date", ""), ("etag", ""), ("expect", ""), ("expires", ""), ("from", ""), ("host", ""),
  ("if-match", ""), ("if-modified-since", ""), ("if-none-match", ""), ("if-range", ""),
  ("if-unmodified-since", ""), ("last-modified", ""), ("link", ""), ("location", ""),
  ("max-forwards", ""), ("proxy-authenticate", ""), ("proxy-authorization", ""), ("range", ""),
  ("referer", ""), ("refresh", ""), ("retry-after", ""), ("server", ""), ("set-cookie", ""),
  ("strict-transport-security", ""), ("transfer-encoding", ""), ("user-agent", ""), ("vary", ""),
  ("via", ""), ("www-authenticate", "")
].map fun (name, value) => (bytesOf name, bytesOf value)

/-- `find_static_name_value`: the 1-based index of a static entry with this name and value. -/
def findStaticNameValue (name value : List UInt8) : Option Nat :=
  (staticTable.findIdx? fun e => e.1 == name && e.2 == value).map (· + 1)

/-- `find_static_name`: the 1-based index of the first static entry with this name. -/
def findStaticName (name : List UInt8) : Option Nat :=
  (staticTable.findIdx? fun e => e.1 == name).map (· + 1)

/-! ## Dynamic table -/

/-- The accounted size of a list of entries. -/
def entriesSize (entries : List HeaderField) : Nat := (entries.map HeaderField.size).sum

/-- `DynamicTable`, newest entry first.  The recorded size is that of the entries and stays within
the maximum. -/
structure DynamicTable where
  entries : List HeaderField
  size : Nat
  maxSize : Nat
  /-- The size is accounted for. -/
  size_eq : size = entriesSize entries
  /-- The size is within bounds. -/
  size_le : size ≤ maxSize

/-- The eviction loop `while size + extra > max_size && !entries.is_empty()`, which drops entries
from the back.  The fuel is the number of entries, one of which goes in each iteration. -/
def evictLoop (extra maxSize : Nat) : Nat → List HeaderField → Nat → List HeaderField × Nat
  | 0, entries, size => (entries, size)
  | fuel + 1, entries, size =>
    match entries.getLast? with
    | none => (entries, size)
    | some evicted =>
      if size + extra > maxSize then
        evictLoop extra maxSize fuel entries.dropLast (size - evicted.size)
      else (entries, size)

variable (extra maxSize : Nat)

/-- Evict until `extra` more bytes fit, or nothing is left. -/
def evict (entries : List HeaderField) (size : Nat) : List HeaderField × Nat :=
  evictLoop extra maxSize entries.length entries size

theorem entriesSize_dropLast {entries : List HeaderField} {evicted : HeaderField}
    (h : entries.getLast? = some evicted) :
    entriesSize entries = entriesSize entries.dropLast + evicted.size := by
  conv_lhs => rw [← List.dropLast_append_getLast? evicted h]
  simp [entriesSize]

/-- Eviction keeps the size accounted for, and makes room unless it empties the table. -/
theorem evictLoop_spec :
    ∀ (fuel : Nat) (entries : List HeaderField) (size : Nat), size = entriesSize entries →
      entries.length ≤ fuel →
      (evictLoop extra maxSize fuel entries size).2 =
          entriesSize (evictLoop extra maxSize fuel entries size).1 ∧
        ((evictLoop extra maxSize fuel entries size).2 + extra ≤ maxSize ∨
          (evictLoop extra maxSize fuel entries size).1 = []) := by
  intro fuel
  induction fuel with
  | zero =>
    intro entries size hsize hlen
    exact ⟨hsize, .inr (List.length_eq_zero_iff.mp (Nat.le_zero.mp hlen))⟩
  | succ fuel ih =>
    intro entries size hsize hlen
    rw [evictLoop]
    rcases hlast : entries.getLast? with _ | evicted
    · exact ⟨hsize, .inr (List.getLast?_eq_none_iff.mp hlast)⟩
    · simp only
      split
      · refine ih _ _ ?_ (by rw [List.length_dropLast]; omega)
        rw [hsize, entriesSize_dropLast hlast, Nat.add_sub_cancel]
      · exact ⟨hsize, .inl (by omega)⟩

theorem evict_spec (entries : List HeaderField) :
    (evict extra maxSize entries (entriesSize entries)).2 =
        entriesSize (evict extra maxSize entries (entriesSize entries)).1 ∧
      ((evict extra maxSize entries (entriesSize entries)).2 + extra ≤ maxSize ∨
        (evict extra maxSize entries (entriesSize entries)).1 = []) :=
  evictLoop_spec extra maxSize _ entries _ rfl le_rfl

namespace DynamicTable

/-- `DynamicTable::new`. -/
def new (maxSize : Nat) : DynamicTable where
  entries := []
  size := 0
  maxSize := maxSize
  size_eq := rfl
  size_le := Nat.zero_le _

variable (t : DynamicTable)

/-- `DynamicTable::get`: an entry by its 0-based index. -/
def get (index : Nat) : Option HeaderField := t.entries[index]?

/-- `DynamicTable::insert`: evict to make room, then add the field at the front; a field larger
than the whole table only clears it. -/
def insert (field : HeaderField) : DynamicTable :=
  let kept := evict field.size t.maxSize t.entries t.size
  if h : field.size > t.maxSize then
    { entries := [], size := 0, maxSize := t.maxSize, size_eq := rfl, size_le := Nat.zero_le _ }
  else
    { entries := field :: kept.1
      size := kept.2 + field.size
      maxSize := t.maxSize
      size_eq := by
        have hspec := (evict_spec field.size t.maxSize t.entries).1
        rw [← t.size_eq] at hspec
        simp only [kept, entriesSize, List.map_cons, List.sum_cons] at hspec ⊢
        omega
      size_le := by
        have hspec := evict_spec field.size t.maxSize t.entries
        rw [← t.size_eq] at hspec
        rcases hspec with ⟨hsize, hle | hnil⟩
        · exact hle
        · rw [hnil] at hsize
          simp only [kept, hsize, entriesSize, List.map_nil, List.sum_nil]
          omega }

/-- `DynamicTable::set_max_size`: change the maximum and evict what no longer fits. -/
def setMaxSize (maxSize : Nat) : DynamicTable :=
  let kept := evict 0 maxSize t.entries t.size
  { entries := kept.1
    size := kept.2
    maxSize := maxSize
    size_eq := by
      have hspec := (evict_spec 0 maxSize t.entries).1
      rwa [← t.size_eq] at hspec
    size_le := by
      have hspec := evict_spec 0 maxSize t.entries
      rw [← t.size_eq] at hspec
      rcases hspec with ⟨hsize, hle | hnil⟩
      · exact hle
      · rw [hnil] at hsize
        simp only [kept, hsize, entriesSize, List.map_nil, List.sum_nil]
        omega }

/-- `DynamicTable::find_name_value`: the wire index, 62 plus the position. -/
def findNameValue (name value : List UInt8) : Option Nat :=
  (t.entries.findIdx? fun h => h.name == name && h.value == value).map (· + 62)

/-- `DynamicTable::find_name`. -/
def findName (name : List UInt8) : Option Nat :=
  (t.entries.findIdx? fun h => h.name == name).map (· + 62)

end DynamicTable

/-! ## String literals -/

/-- `encode_string_literal`: Huffman-coded, with the H bit, when that is shorter. -/
def encodeStringLiteral (data : List UInt8) : List UInt8 :=
  let hufLen := Huffman.encodedLen data
  if hufLen < data.length then encodePrefixInt hufLen 7 0x80 ++ Huffman.encode data
  else encodePrefixInt data.length 7 0x00 ++ data

/-- `.ok_or(H2Error::CompressionError)`. -/
def okOrCompression {α : Type} : Option α → Except Failure α
  | some a => .ok a
  | none => .error (.error .compressionError)

/-- `decode_string_literal`: the string and the number of bytes it takes. -/
def decodeStringLiteral (buf : List UInt8) : Except Failure (List UInt8 × Nat) := do
  let first ← okOrCompression buf.head?
  let (strLen, n) ← okOrCompression (decodePrefixInt buf 7)
  let total := n + strLen
  if buf.length < total then throw (.error .compressionError)
  let data := (buf.drop n).take strLen
  if first &&& 0x80 ≠ 0 then
    let value ← Huffman.decode data
    return (value, total)
  else return (data, total)

/-! ## Encoder -/

/-- `Encoder`. -/
structure Encoder where
  dynamicTable : DynamicTable
  /-- Smallest table size queued since the last block. -/
  pendingMin : Option Nat
  /-- Last table size queued since the last block. -/
  pendingLatest : Option Nat

variable (table : DynamicTable)

/-- `Encoder::encode_header`, on the dynamic table, which is all of the encoder it touches. -/
def encodeHeader (header : HeaderField) : DynamicTable × List UInt8 :=
  -- 1. exact match in the static table, 2. exact match in the dynamic table
  match findStaticNameValue header.name header.value with
  | some index => (table, encodePrefixInt index 7 0x80)
  | none =>
  match table.findNameValue header.name header.value with
  | some index => (table, encodePrefixInt index 7 0x80)
  | none =>
  -- 3. name match in the static table, 4. name match in the dynamic table
  match findStaticName header.name with
  | some nameIndex =>
    (table.insert header, encodePrefixInt nameIndex 6 0x40 ++ encodeStringLiteral header.value)
  | none =>
  match table.findName header.name with
  | some nameIndex =>
    (table.insert header, encodePrefixInt nameIndex 6 0x40 ++ encodeStringLiteral header.value)
  | none =>
    -- 5. a new name
    (table.insert header,
      0x40 :: (encodeStringLiteral header.name ++ encodeStringLiteral header.value))

/-- The loop of `Encoder::encode` over the headers. -/
def encodeHeaders (table : DynamicTable) : List HeaderField → DynamicTable × List UInt8
  | [] => (table, [])
  | header :: headers =>
    let (table, bytes) := encodeHeader table header
    let (table, rest) := encodeHeaders table headers
    (table, bytes ++ rest)

namespace Encoder

/-- `Encoder::new`. -/
def new (maxTableSize : Nat) : Encoder where
  dynamicTable := .new maxTableSize
  pendingMin := none
  pendingLatest := none

/-- `Encoder::update_max_table_size`: queue a size update for the next block. -/
def updateMaxTableSize (enc : Encoder) (newSize : Nat) : Encoder :=
  { enc with
    pendingMin := some (match enc.pendingMin with
      | some m => min m newSize
      | none => newSize)
    pendingLatest := some newSize }

/-- The size updates at the start of `Encoder::encode`: the smallest size queued if it is not the
last one, then the last one. -/
def emitSizeUpdates (enc : Encoder) : Encoder × List UInt8 :=
  match enc.pendingLatest with
  | none => (enc, [])
  | some latest =>
    let minSize := enc.pendingMin.getD latest
    let (table, bytes) :=
      if minSize ≠ latest then
        (enc.dynamicTable.setMaxSize minSize, encodePrefixInt minSize 5 0x20)
      else (enc.dynamicTable, [])
    ({ dynamicTable := table.setMaxSize latest, pendingMin := none, pendingLatest := none },
      bytes ++ encodePrefixInt latest 5 0x20)

/-- `Encoder::encode`: the new encoder and the header block. -/
def encode (enc : Encoder) (headers : List HeaderField) : Encoder × List UInt8 :=
  let (enc, updates) := enc.emitSizeUpdates
  let (table, bytes) := encodeHeaders enc.dynamicTable headers
  ({ enc with dynamicTable := table }, updates ++ bytes)

end Encoder

/-! ## Decoder -/

/-- `Decoder`. -/
structure Decoder where
  dynamicTable : DynamicTable
  maxTableSize : Nat

/-- `Decoder::get_indexed`: the field at a wire index, static or dynamic. -/
def getIndexed (index : Nat) : Except Failure HeaderField :=
  if index = 0 then .error (.error .compressionError)
  else
    match staticTable[index - 1]? with
    | some (name, value) => .ok { name, value }
    | none => okOrCompression (table.get (index - staticTable.length - 1))

/-- `Decoder::get_name`: the name at a wire index. -/
def getName (index : Nat) : Except Failure (List UInt8) :=
  if index = 0 then .error (.error .compressionError)
  else
    match staticTable[index - 1]? with
    | some (name, _) => .ok name
    | none => okOrCompression ((table.get (index - staticTable.length - 1)).map HeaderField.name)

/-- The locals of `Decoder::decode`: the dynamic table, the fields so far, whether a field has been
seen, and the bytes from the current position on. -/
structure DecodeState where
  table : DynamicTable
  headers : List HeaderField
  seenHeader : Bool
  rest : List UInt8

/-- The cap on the number of fields, checked before a field is added. -/
def checkFieldCap (headers : List HeaderField) : Except Failure Unit :=
  if headers.length ≥ maxHeaderFields then
    .error (.error (.maxSizeExceeded "HPACK block exceeds MAX_HEADER_FIELDS (256)"))
  else .ok ()

/-- The part the three literal representations share: a name by index or as a string, a value, and
the cap.  Returns the field and the bytes after it. -/
def decodeLiteral (st : DecodeState) (prefixBits : Nat) :
    Except Failure (HeaderField × List UInt8) := do
  let (nameIndex, n) ← okOrCompression (decodePrefixInt st.rest prefixBits)
  let rest := st.rest.drop n
  let (name, rest) ←
    if nameIndex > 0 then do
      let name ← getName st.table nameIndex
      pure (name, rest)
    else do
      let (name, consumed) ← decodeStringLiteral rest
      pure (name, rest.drop consumed)
  let (value, consumed) ← decodeStringLiteral rest
  checkFieldCap st.headers
  return ({ name, value }, rest.drop consumed)

/-- One iteration of the loop of `Decoder::decode`, on a non-empty rest that starts with `first`.
An iteration that fails has not changed the table. -/
def decodeRepresentation (maxTableSize : Nat) (st : DecodeState) (first : UInt8) :
    Except Failure DecodeState :=
  if first &&& 0x80 ≠ 0 then do
    -- indexed header field
    let (index, n) ← okOrCompression (decodePrefixInt st.rest 7)
    checkFieldCap st.headers
    let field ← getIndexed st.table index
    return { st with headers := st.headers ++ [field], seenHeader := true, rest := st.rest.drop n }
  else if first &&& 0x40 ≠ 0 then do
    -- literal with incremental indexing
    let (field, rest) ← decodeLiteral st 6
    return { table := st.table.insert field, headers := st.headers ++ [field], seenHeader := true,
             rest }
  else if first &&& 0x20 ≠ 0 then do
    -- dynamic table size update
    if st.seenHeader then throw (.error .compressionError)
    let (newSize, n) ← okOrCompression (decodePrefixInt st.rest 5)
    if newSize > maxTableSize then throw (.error .compressionError)
    return { st with table := st.table.setMaxSize newSize, rest := st.rest.drop n }
  else do
    -- literal never indexed (`first & 0x10 != 0`) or without indexing: the same, and not added
    let (field, rest) ← decodeLiteral st 4
    return { st with headers := st.headers ++ [field], seenHeader := true, rest }

/-- The loop of `Decoder::decode`.  The fuel is the number of bytes: an iteration takes at least
one. -/
def decodeLoop (maxTableSize : Nat) : Nat → DecodeState → DecodeState × Except Failure Unit
  | 0, st => (st, if st.rest.isEmpty then .ok () else .error .panic)
  | fuel + 1, st =>
    match st.rest with
    | [] => (st, .ok ())
    | first :: _ =>
      match decodeRepresentation maxTableSize st first with
      | .ok st' => decodeLoop maxTableSize fuel st'
      | .error e => (st, .error e)

namespace Decoder

/-- `Decoder::new`. -/
def new (maxTableSize : Nat) : Decoder where
  dynamicTable := .new maxTableSize
  maxTableSize := maxTableSize

/-- `Decoder::decode`: the new decoder, and the fields or the error. -/
def decode (dec : Decoder) (buf : List UInt8) :
    Decoder × Except Failure (List HeaderField) :=
  let (st, result) := decodeLoop dec.maxTableSize buf.length
    { table := dec.dynamicTable, headers := [], seenHeader := false, rest := buf }
  ({ dec with dynamicTable := st.table }, result.map fun _ => st.headers)

end Decoder

end Ringline.H2
