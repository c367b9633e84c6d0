import Ringline.Base.Fit
import Ringline.Base.SwapRemove
import Ringline.H2.Hpack

/-!
# What a header block means

The meaning of a header block does not depend on this implementation: a block is a sequence of
representations, and each of them adds a field, changes the dynamic table, or both.  This file says
so (`apply`, `decode`), without the limits and the order of checks of `Decoder::decode`, and for a
dynamic table that is simply the longest beginning of the insertions that fits (`Table`).

The peer of a connection is described with it in both directions.  What the peer's encoder may send
is anything that is made of representations (`Block`), in whatever way it chooses them.  Two facts
connect this to the code.

* **`decode_encode`** — what `Encoder` writes means the headers it was given, for a reader whose table
  *tracks* the encoder's (`Table.Tracks`): it is the same, or it is *ahead*, with at least as much
  room, and the entries of the encoder's table in front (`Table.Ahead`).
* **`decoder_refines`** — what a block means is what `Decoder` reads, if the tables are equal, the
  limit is not larger, and there are at most 256 fields.
-/

set_option autoImplicit false

namespace Ringline.H2

open List Option UInt8 Huffman

variable {i v index maxTableSize : Nat} {table : DynamicTable}

/-! ## String literals -/

theorem huffman_flag (hv : v < 2 ^ 7) :
    ((0x80 : UInt8) ||| ofNat v) &&& 0x80 ≠ 0 ∧
      ((0x00 : UInt8) ||| ofNat v) &&& 0x80 = 0 := by
  revert v
  decide

@[simp] theorem okOrCompression_some {α : Type} (a : α) : okOrCompression (some a) = .ok a := rfl

/-- Reading a string literal: a length with its flag in the first byte, and that many bytes. -/
theorem decodeStringLiteral_of_length (pattern : UInt8) (data : List UInt8)
    (hpat : pattern.toNat % 2 ^ 7 = 0) (hlen : data.length < 2 ^ 63) (rest : List UInt8) :
    ∃ v, v < 2 ^ 7 ∧
      decodeStringLiteral (encodePrefixInt data.length 7 pattern ++ data ++ rest) =
        (if (pattern ||| ofNat v) &&& 0x80 ≠ 0 then decode data else .ok data).map
          (·, (encodePrefixInt data.length 7 pattern ++ data).length) := by
  obtain ⟨v, tail, hv, hhead⟩ := encodePrefixInt_head (p := 7) data.length pattern
  have hint := decodePrefixInt_encodePrefixInt data.length 7 pattern (by omega) hpat (by omega)
    (data ++ rest)
  have hfirst : (encodePrefixInt data.length 7 pattern ++ (data ++ rest)).head? =
      some (pattern ||| ofNat v) := by
    rw [hhead]
    rfl
  refine ⟨v, hv, ?_⟩
  rw [append_assoc]
  simp only [decodeStringLiteral, hfirst, hint, okOrCompression_some, bind, Except.bind, pure,
    Except.pure, length_append, Nat.not_lt.mpr (Nat.le_add_right _ _), if_false,
    ← Nat.add_assoc, drop_left, take_left]
  split
  · rcases decode data with _ | _ <;> rfl
  · rfl

/-! ## First bytes -/

/-- The first byte of a representation tells the decoder which one it is. -/
theorem pattern_indexed (hv : v < 2 ^ 7) :
    ((0x80 : UInt8) ||| ofNat v) &&& 0x80 ≠ 0 := (huffman_flag hv).1

theorem pattern_literal (hv : v < 2 ^ 6) :
    ((0x40 : UInt8) ||| ofNat v) &&& 0x80 = 0 ∧
      ((0x40 : UInt8) ||| ofNat v) &&& 0x40 ≠ 0 := by
  revert v
  decide

theorem pattern_sizeUpdate (hv : v < 2 ^ 5) :
    ((0x20 : UInt8) ||| ofNat v) &&& 0x80 = 0 ∧
      ((0x20 : UInt8) ||| ofNat v) &&& 0x40 = 0 ∧
      ((0x20 : UInt8) ||| ofNat v) &&& 0x20 ≠ 0 := by
  revert v
  decide

theorem pattern_without (hv : v < 2 ^ 4) :
    ((0x00 : UInt8) ||| ofNat v) &&& 0x80 = 0 ∧
      ((0x00 : UInt8) ||| ofNat v) &&& 0x40 = 0 ∧
      ((0x00 : UInt8) ||| ofNat v) &&& 0x20 = 0 ∧
      ((0x00 : UInt8) ||| ofNat v) &&& 0x10 = 0 := by
  revert v
  decide

theorem pattern_never (hv : v < 2 ^ 4) :
    ((0x10 : UInt8) ||| ofNat v) &&& 0x80 = 0 ∧
      ((0x10 : UInt8) ||| ofNat v) &&& 0x40 = 0 ∧
      ((0x10 : UInt8) ||| ofNat v) &&& 0x20 = 0 ∧
      ((0x10 : UInt8) ||| ofNat v) &&& 0x10 ≠ 0 := by
  revert v
  decide

/-- The largest table size that a size update can signal: five prefix bits and nine groups. -/
def maxSignalledSize : Nat := 2 ^ 63 + 30

namespace Reference

variable {bs : List UInt8}

/-! ## The dynamic table -/

/-- A dynamic table, newest entry first. -/
structure Table where
  entries : List HeaderField
  maxSize : Nat

namespace Table

/-- The table of a new connection. -/
def start : Table := ⟨[], 4096⟩

/-- A field is added, and what no longer fits is dropped. -/
def insert (t : Table) (field : HeaderField) : Table :=
  { t with entries := Fit.fit HeaderField.size t.maxSize (field :: t.entries) }

/-- The maximum size is changed, and what no longer fits is dropped. -/
def resize (t : Table) (n : Nat) : Table := ⟨Fit.fit HeaderField.size n t.entries, n⟩

/-- The field with a given index: the static table comes first, and indices start at 1. -/
def lookup (t : Table) (index : Nat) : Option HeaderField :=
  if index = 0 then none
  else (staticTable.map (fun e => ⟨e.1, e.2⟩) ++ t.entries)[index - 1]?

/-- Same entries in front, and at least as much room. -/
structure Ahead (t t' : Table) : Prop where
  entries : t.entries <+: t'.entries
  maxSize : t.maxSize ≤ t'.maxSize

theorem Ahead.insert {t t' : Table} (h : Ahead t t') (field : HeaderField) :
    Ahead (t.insert field) (t'.insert field) where
  entries := Fit.fit_mono h.maxSize (cons_prefix_cons.mpr ⟨rfl, h.entries⟩)
  maxSize := h.maxSize

theorem Ahead.resize {t t' : Table} (h : Ahead t t') (n : Nat) :
    Ahead (t.resize n) (t'.resize n) where
  entries := Fit.fit_mono le_rfl h.entries
  maxSize := le_rfl

/-- What a table knows, a table that is ahead of it knows under the same index. -/
theorem Ahead.lookup {t t' : Table} (h : Ahead t t') {index : Nat} {field : HeaderField}
    (hfield : t.lookup index = some field) : t'.lookup index = some field := by
  obtain ⟨rest, hrest⟩ := h.entries
  rw [Table.lookup] at hfield ⊢
  split at hfield
  · cases hfield
  · rename_i hindex
    rw [if_neg hindex, ← hrest, ← append_assoc]
    exact (List.getElem?_append_left (List.getElem?_eq_some_iff.mp hfield).1).trans hfield

/-- Tables that are related can be read in place of each other. -/
structure Tracks (R : Table → Table → Prop) : Prop where
  insert : ∀ {t t'}, R t t' → ∀ field, R (t.insert field) (t'.insert field)
  resize : ∀ {t t'}, R t t' → ∀ n, R (t.resize n) (t'.resize n)
  lookup : ∀ {t t'}, R t t' → ∀ {index field}, t.lookup index = some field →
    t'.lookup index = some field

theorem tracks_ahead : Tracks Ahead := ⟨Ahead.insert, Ahead.resize, Ahead.lookup⟩

theorem tracks_eq : Tracks Eq where
  insert h _ := by rw [h]
  resize h _ := by rw [h]
  lookup h _ _ hfield := h ▸ hfield

end Table

/-! ## Representations -/

/-- The name of a literal: that of an indexed field, or a string. -/
inductive Name where
  | index (i : Nat)
  | literal (s : List UInt8)

/-- Whether a literal is added to the table; one that never is must not be added by anyone. -/
inductive Indexing where
  | incremental
  | without
  | never
deriving DecidableEq

inductive Representation where
  | indexed (index : Nat)
  | literal (indexing : Indexing) (name : Name) (value : List UInt8)
  | sizeUpdate (n : Nat)

def Name.resolve (t : Table) : Name → Option (List UInt8)
  | .index i => (t.lookup i).map HeaderField.name
  | .literal s => some s

/-- The state while a block is read: the table and the fields so far. -/
structure Reading where
  table : Table
  headers : List HeaderField

/-- One representation, for a reader that allows tables up to the size `limit`.  A table that is
larger has to be resized before the first field. -/
def apply (limit : Nat) (r : Reading) : Representation → Option Reading
  | .indexed index =>
    if r.table.maxSize ≤ limit then
      (r.table.lookup index).map fun field => { r with headers := r.headers ++ [field] }
    else none
  | .literal indexing name value =>
    if r.table.maxSize ≤ limit then
      (name.resolve r.table).map fun name =>
        { table := if indexing = .incremental then r.table.insert ⟨name, value⟩ else r.table
          headers := r.headers ++ [⟨name, value⟩] }
    else none
  | .sizeUpdate n =>
    if r.headers = [] ∧ n ≤ limit then some { r with table := r.table.resize n } else none

/-- The representations of a block. -/
def applyAll (limit : Nat) (r : Reading) : List Representation → Option Reading
  | [] => some r
  | rep :: reps => (apply limit r rep).bind fun r' => applyAll limit r' reps

/-! ## Bytes -/

/-- The first bits of a literal. -/
def Indexing.pattern : Indexing → UInt8
  | .incremental => 0x40
  | .without => 0x00
  | .never => 0x10

/-- The bits of its first byte that are left for the index of the name. -/
def Indexing.prefixBits : Indexing → Nat
  | .incremental => 6
  | .without | .never => 4

/-- The bytes `bs` are a string literal for `s`, plain or with the Huffman code. -/
def StringBytes (s bs : List UInt8) : Prop :=
  (s.length < 2 ^ 63 ∧ bs = encodePrefixInt s.length 7 0x00 ++ s) ∨
    ((encode s).length < 2 ^ 63 ∧
      bs = encodePrefixInt (encode s).length 7 0x80 ++ encode s)

variable (indexing : Indexing)

/-- The bytes `bs` are a name, in a literal that starts with `pattern`. -/
def Name.Bytes : Name → List UInt8 → Prop
  | .index i, bs => 0 < i ∧ i < 2 ^ 63 ∧
      bs = encodePrefixInt i indexing.prefixBits indexing.pattern
  | .literal s, bs => ∃ sb, StringBytes s sb ∧
      bs = encodePrefixInt 0 indexing.prefixBits indexing.pattern ++ sb

/-- The bytes `bs` are a representation.  Integers are below 2⁶³. -/
def Representation.Bytes : Representation → List UInt8 → Prop
  | .indexed index, bs => index < 2 ^ 63 ∧ bs = encodePrefixInt index 7 0x80
  | .literal indexing name value, bs =>
    ∃ nb vb, name.Bytes indexing nb ∧ StringBytes value vb ∧ bs = nb ++ vb
  | .sizeUpdate n, bs => n < 2 ^ 63 ∧ bs = encodePrefixInt n 5 0x20

/-- The bytes `bs` are these representations, one after the other. -/
inductive Block : List Representation → List UInt8 → Prop
  | nil : Block [] []
  | cons {rep : Representation} {reps : List Representation} {bs bs' : List UInt8}
      (h : rep.Bytes bs) (hs : Block reps bs') : Block (rep :: reps) (bs ++ bs')

/-- Read a string literal. -/
def parseString (bs : List UInt8) : Option (List UInt8 × List UInt8) :=
  match decodeStringLiteral bs with
  | .ok (s, n) => some (s, bs.drop n)
  | .error _ => none

/-- Read a name. -/
def parseName (prefixBits : Nat) (bs : List UInt8) : Option (Name × List UInt8) :=
  match decodePrefixInt bs prefixBits with
  | none => none
  | some (index, n) =>
    if 0 < index then some (.index index, bs.drop n)
    else (parseString (bs.drop n)).map fun s => (.literal s.1, s.2)

/-- Read a literal. -/
def parseLiteral (bs : List UInt8) : Option (Representation × List UInt8) :=
  match parseName indexing.prefixBits bs with
  | none => none
  | some (name, rest) => (parseString rest).map fun v => (.literal indexing name v.1, v.2)

/-- Read a representation from bytes that start with `first`. -/
def parse (bs : List UInt8) (first : UInt8) : Option (Representation × List UInt8) :=
  if first &&& 0x80 ≠ 0 then (decodePrefixInt bs 7).map fun r => (.indexed r.1, bs.drop r.2)
  else if first &&& 0x40 ≠ 0 then parseLiteral .incremental bs
  else if first &&& 0x20 ≠ 0 then (decodePrefixInt bs 5).map fun r => (.sizeUpdate r.1, bs.drop r.2)
  else if first &&& 0x10 ≠ 0 then parseLiteral .never bs
  else parseLiteral .without bs

/-- Read a block.  The fuel is the number of bytes. -/
def read (limit : Nat) : Nat → Reading → List UInt8 → Option Reading
  | _, r, [] => some r
  | 0, _, _ :: _ => none
  | fuel + 1, r, first :: bs =>
    (parse (first :: bs) first).bind fun p =>
      (apply limit r p.1).bind fun r' => read limit fuel r' p.2

/-- **What a block means**: the headers, and the table afterwards. -/
def decode (limit : Nat) (t : Table) (bs : List UInt8) : Option (List HeaderField × Table) :=
  (read limit bs.length ⟨t, []⟩ bs).map fun r => (r.headers, r.table)

/-! ## Every block can be read -/

theorem parseString_complete {s : List UInt8} (h : StringBytes s bs) (rest : List UInt8) :
    parseString (bs ++ rest) = some (s, rest) := by
  rcases h with ⟨hlen, rfl⟩ | ⟨hlen, rfl⟩
  · obtain ⟨v, hv, h⟩ := decodeStringLiteral_of_length 0x00 s (by decide) hlen rest
    rw [if_neg (not_not.mpr (huffman_flag hv).2)] at h
    simp only [parseString, h, Except.map, drop_left]
  · obtain ⟨v, hv, h⟩ := decodeStringLiteral_of_length 0x80 (encode s) (by decide) hlen rest
    rw [if_pos (huffman_flag hv).1, decode_encode] at h
    simp only [parseString, h, Except.map, drop_left]

theorem pattern_fits :
    indexing.pattern.toNat % 2 ^ indexing.prefixBits = 0 ∧ indexing.prefixBits ≤ 8 := by
  cases indexing <;> decide

variable {indexing : Indexing} {name : Name}

theorem parseName_complete (h : name.Bytes indexing bs) (rest : List UInt8) :
    parseName indexing.prefixBits (bs ++ rest) = some (name, rest) := by
  obtain ⟨hpat, hbits⟩ := pattern_fits indexing
  cases name with
  | index i =>
    obtain ⟨hpos, hlt, rfl⟩ := h
    have hint := decodePrefixInt_encodePrefixInt i indexing.prefixBits indexing.pattern hbits hpat
      (by omega) rest
    simp only [parseName, hint, hpos, if_true, drop_left]
  | literal s =>
    obtain ⟨sb, hsb, rfl⟩ := h
    have hint := decodePrefixInt_encodePrefixInt 0 indexing.prefixBits indexing.pattern hbits hpat
      (by omega) (sb ++ rest)
    simp only [parseName, append_assoc, hint, Nat.lt_irrefl, if_false, drop_left,
      parseString_complete hsb rest, map_some]

theorem parseLiteral_complete {value nb vb : List UInt8} (hn : name.Bytes indexing nb)
    (hv : StringBytes value vb) (rest : List UInt8) :
    parseLiteral indexing (nb ++ vb ++ rest) = some (.literal indexing name value, rest) := by
  simp only [parseLiteral, append_assoc, parseName_complete hn, parseString_complete hv,
    map_some]

/-- A name starts with the pattern of its literal. -/
theorem Name.Bytes.head (h : name.Bytes indexing bs) :
    ∃ v tail, v < 2 ^ indexing.prefixBits ∧ bs = (indexing.pattern ||| ofNat v) :: tail := by
  cases name with
  | index i =>
    obtain ⟨-, -, rfl⟩ := h
    exact encodePrefixInt_head i indexing.pattern
  | literal s =>
    obtain ⟨sb, -, rfl⟩ := h
    obtain ⟨v, tail, hv, hhead⟩ := encodePrefixInt_head (p := indexing.prefixBits) 0 indexing.pattern
    exact ⟨v, tail ++ sb, hv, by rw [hhead, cons_append]⟩

/-- The first byte of a literal tells its indexing. -/
theorem parse_literal (hv : v < 2 ^ indexing.prefixBits) (bs : List UInt8) :
    parse bs (indexing.pattern ||| ofNat v) = parseLiteral indexing bs := by
  cases indexing with
  | incremental =>
    obtain ⟨h80, h40⟩ := pattern_literal hv
    rw [parse, Indexing.pattern, if_neg (not_not.mpr h80), if_pos h40]
  | without =>
    obtain ⟨h80, h40, h20, h10⟩ := pattern_without hv
    rw [parse, Indexing.pattern, if_neg (not_not.mpr h80), if_neg (not_not.mpr h40),
      if_neg (not_not.mpr h20), if_neg (not_not.mpr h10)]
  | never =>
    obtain ⟨h80, h40, h20, h10⟩ := pattern_never hv
    rw [parse, Indexing.pattern, if_neg (not_not.mpr h80), if_neg (not_not.mpr h40),
      if_neg (not_not.mpr h20), if_pos h10]

/-- The bytes `bs` are read as the representation `rep`, whatever follows them. -/
def Parses (rep : Representation) (bs : List UInt8) : Prop :=
  ∃ first tail, bs = first :: tail ∧ ∀ rest, parse (bs ++ rest) first = some (rep, rest)

theorem parses_sizeUpdate {n : Nat} (hn : n ≤ maxSignalledSize) :
    Parses (.sizeUpdate n) (encodePrefixInt n 5 0x20) := by
  obtain ⟨v, tail, hv, hhead⟩ := encodePrefixInt_head (p := 5) n 0x20
  refine ⟨_, tail, hhead, fun rest => ?_⟩
  unfold maxSignalledSize at hn
  have hint := decodePrefixInt_encodePrefixInt n 5 0x20 (by omega) (by decide) (by omega) rest
  obtain ⟨h80, h40, h20⟩ := pattern_sizeUpdate hv
  rw [parse, if_neg (not_not.mpr h80), if_neg (not_not.mpr h40), if_pos h20, hint]
  simp only [map_some, drop_left]

/-- **Every representation is read back.** -/
theorem Representation.parses (rep : Representation) (h : rep.Bytes bs) : Parses rep bs := by
  cases rep with
  | indexed index =>
    obtain ⟨hlt, rfl⟩ := h
    obtain ⟨v, tail, hv, hhead⟩ := encodePrefixInt_head (p := 7) index 0x80
    refine ⟨_, tail, hhead, fun rest => ?_⟩
    have hint := decodePrefixInt_encodePrefixInt index 7 0x80 (by omega) (by decide) (by omega) rest
    rw [parse, if_pos (pattern_indexed hv), hint]
    simp only [map_some, drop_left]
  | sizeUpdate n =>
    obtain ⟨hlt, rfl⟩ := h
    exact parses_sizeUpdate (hlt.le.trans (by decide))
  | literal indexing name value =>
    obtain ⟨nb, vb, hn, hv, rfl⟩ := h
    obtain ⟨v, tail, hlt, hhead⟩ := hn.head
    refine ⟨_, tail ++ vb, by rw [hhead, cons_append], fun rest => ?_⟩
    rw [parse_literal hlt, parseLiteral_complete hn hv]

/-- From `r`, the bytes `bs` are read up to `r'`, whatever follows them. -/
def Reads (limit : Nat) (r : Reading) (bs : List UInt8) (r' : Reading) : Prop :=
  ∀ rest fuel, (bs ++ rest).length ≤ fuel →
    ∃ fuel', rest.length ≤ fuel' ∧ read limit fuel r (bs ++ rest) = read limit fuel' r' rest

section
variable {limit : Nat} {r r₁ r' : Reading} {bs' : List UInt8}

theorem reads_nil (r : Reading) : Reads limit r [] r := fun _ fuel hfuel => ⟨fuel, hfuel, rfl⟩

theorem Reads.trans (h : Reads limit r bs r₁) (h' : Reads limit r₁ bs' r') :
    Reads limit r (bs ++ bs') r' := by
  intro rest fuel hfuel
  rw [append_assoc] at hfuel ⊢
  obtain ⟨fuel₁, hfuel₁, h₁⟩ := h _ fuel hfuel
  obtain ⟨fuel₂, hfuel₂, h₂⟩ := h' rest fuel₁ hfuel₁
  exact ⟨fuel₂, hfuel₂, h₁.trans h₂⟩

theorem Parses.reads {rep : Representation} (h : Parses rep bs) (happly : apply limit r rep = some r') :
    Reads limit r bs r' := by
  obtain ⟨first, tail, rfl, hparse⟩ := h
  intro rest fuel hfuel
  have hparse' := hparse rest
  rw [cons_append] at hparse' hfuel ⊢
  rw [length_cons, length_append] at hfuel
  obtain ⟨fuel, rfl⟩ : ∃ n, fuel = n + 1 := ⟨fuel - 1, by omega⟩
  refine ⟨fuel, by omega, ?_⟩
  rw [read, hparse', bind_some, happly, bind_some]

/-- **A block means what its representations mean.** -/
theorem Block.reads {reps : List Representation} (h : Block reps bs) :
    ∀ {r : Reading}, applyAll limit r reps = some r' → Reads limit r bs r' := by
  induction h with
  | nil =>
    intro r happly
    cases happly
    exact reads_nil r'
  | cons hrep _ ih =>
    intro r happly
    obtain ⟨r₁, happly₁, happly⟩ := bind_eq_some_iff.mp happly
    exact ((Representation.parses _ hrep).reads happly₁).trans (ih happly)

theorem Reads.decode_eq {t : Table} (h : Reads limit ⟨t, []⟩ bs r') :
    decode limit t bs = some (r'.headers, r'.table) := by
  obtain ⟨fuel, -, hread⟩ := h [] bs.length (by rw [append_nil])
  rw [append_nil] at hread
  rw [decode, hread]
  cases fuel <;> rfl

end

end Reference

/-! ## The tables of the code -/

variable (t : DynamicTable)

/-- The table of an encoder or a decoder, without its accounting. -/
def DynamicTable.reference : Reference.Table := ⟨t.entries, t.maxSize⟩

theorem evictLoop_eq_fit (extra maxSize : Nat) (hextra : extra ≤ maxSize) :
    ∀ (fuel : Nat) (entries : List HeaderField), entries.length ≤ fuel →
      (evictLoop extra maxSize fuel entries (entriesSize entries)).1 =
        Fit.fit HeaderField.size (maxSize - extra) entries := by
  intro fuel
  induction fuel with
  | zero =>
    intro entries hlen
    rw [length_eq_zero_iff.mp (Nat.le_zero.mp hlen)]
    rfl
  | succ fuel ih =>
    intro entries hlen
    rw [evictLoop]
    rcases hlast : entries.getLast? with _ | evicted
    · rw [getLast?_eq_none_iff.mp hlast]
      rfl
    · have hsplit : entries.dropLast ++ [evicted] = entries :=
        dropLast_append_getLast? evicted hlast
      dsimp only
      split
      · have hfit : Fit.fit HeaderField.size (maxSize - extra) entries =
            Fit.fit HeaderField.size (maxSize - extra) entries.dropLast := by
          conv_lhs => rw [← hsplit]
          refine Fit.fit_concat ?_
          rw [hsplit]
          change maxSize - extra < entriesSize entries
          omega
        rw [hfit, entriesSize_dropLast hlast, Nat.add_sub_cancel]
        exact ih _ (by rw [length_dropLast]; omega)
      · refine (Fit.fit_of_le ?_).symm
        change entriesSize entries ≤ maxSize - extra
        omega

theorem reference_insert (field : HeaderField) :
    (t.insert field).reference = t.reference.insert field := by
  simp only [DynamicTable.insert]
  split
  · change Reference.Table.mk [] t.maxSize = ⟨if field.size ≤ t.maxSize then _ else [], t.maxSize⟩
    rw [if_neg (by omega)]
  · have hevict := evictLoop_eq_fit field.size t.maxSize (by omega) _
      t.entries le_rfl
    rw [← t.size_eq] at hevict
    change Reference.Table.mk (field :: _) t.maxSize = ⟨if field.size ≤ t.maxSize then _ else [], t.maxSize⟩
    rw [if_pos (by omega), evict, hevict]
    rfl

theorem reference_setMaxSize (n : Nat) : (t.setMaxSize n).reference = t.reference.resize n := by
  have hevict := evictLoop_eq_fit 0 n (Nat.zero_le n) _ t.entries le_rfl
  rw [← t.size_eq] at hevict
  exact congrArg (Reference.Table.mk · n) hevict

/-! ## Indices -/

theorem length_staticTable : staticTable.length = 61 := rfl

/-- A table holds at most one entry for every 32 bytes of its maximum size. -/
theorem DynamicTable.length_entries_le : 32 * t.entries.length ≤ t.maxSize := by
  have hsum : ∀ entries : List HeaderField, 32 * entries.length ≤ entriesSize entries := by
    intro entries
    induction entries with
    | nil => rfl
    | cons e entries ih =>
      simp only [entriesSize, map_cons, sum_cons, length_cons,
        HeaderField.size] at ih ⊢
      omega
  exact (hsum t.entries).trans (t.size_eq ▸ t.size_le)

/-- A wire index that denotes a field: it is not `0`, and it is small enough for a prefix integer. -/
structure Denotes (table : DynamicTable) (index : Nat) (field : HeaderField) : Prop where
  pos : 0 < index
  lt : index < 2 ^ 63
  lookup : table.reference.lookup index = some field

theorem denotes_static {e : List UInt8 × List UInt8} (h : staticTable[i]? = some e) :
    Denotes table (i + 1) { name := e.1, value := e.2 } := by
  have hi : i < 61 := length_staticTable ▸ (List.getElem?_eq_some_iff.mp h).1
  refine ⟨by omega, by omega, ?_⟩
  rw [Reference.Table.lookup, if_neg (Nat.succ_ne_zero i), Nat.add_sub_cancel,
    getElem?_append_left (by rwa [length_map]), getElem?_map, h]
  rfl

theorem denotes_dynamic {field : HeaderField} (hmax : table.maxSize < 2 ^ 64)
    (h : table.entries[i]? = some field) :
    Denotes table (i + 62) field := by
  have hi := (List.getElem?_eq_some_iff.mp h).1
  have hlen := table.length_entries_le
  refine ⟨by omega, by omega, ?_⟩
  rw [Reference.Table.lookup, if_neg (Nat.succ_ne_zero _),
    getElem?_append_right (by rw [length_map]; exact Nat.le_add_left 61 i), length_map]
  exact h

variable {name : List UInt8}

theorem denotes_findStaticNameValue {value : List UInt8}
    (h : findStaticNameValue name value = some index) : Denotes table index { name, value } := by
  obtain ⟨i, hi, rfl⟩ := map_eq_some_iff.mp h
  obtain ⟨e, he, htest⟩ := getElem?_of_findIdx? hi
  simp only [Bool.and_eq_true, beq_iff_eq] at htest
  obtain ⟨rfl, rfl⟩ := htest
  exact denotes_static he

theorem denotes_findNameValue {value : List UInt8} (hmax : table.maxSize < 2 ^ 64)
    (h : table.findNameValue name value = some index) : Denotes table index { name, value } := by
  obtain ⟨i, hi, rfl⟩ := map_eq_some_iff.mp h
  obtain ⟨e, he, htest⟩ := getElem?_of_findIdx? hi
  simp only [Bool.and_eq_true, beq_iff_eq] at htest
  obtain ⟨rfl, rfl⟩ := htest
  exact denotes_dynamic hmax he

theorem denotes_findStaticName (table : DynamicTable) (h : findStaticName name = some index) :
    ∃ value, Denotes table index { name, value } := by
  obtain ⟨i, hi, rfl⟩ := map_eq_some_iff.mp h
  obtain ⟨e, he, htest⟩ := getElem?_of_findIdx? hi
  obtain rfl := beq_iff_eq.mp htest
  exact ⟨e.2, denotes_static he⟩

theorem denotes_findName (hmax : table.maxSize < 2 ^ 64) (h : table.findName name = some index) :
    ∃ value, Denotes table index { name, value } := by
  obtain ⟨i, hi, rfl⟩ := map_eq_some_iff.mp h
  obtain ⟨e, he, htest⟩ := getElem?_of_findIdx? hi
  obtain rfl := beq_iff_eq.mp htest
  exact ⟨e.value, denotes_dynamic hmax he⟩

/-! ## The encoder -/

/-- The `Vec`s of a header field: their lengths are at most `isize::MAX`. -/
structure HeaderField.Fits (field : HeaderField) : Prop where
  name : field.name.length < 2 ^ 63
  value : field.value.length < 2 ^ 63

@[simp] theorem maxSize_insert (field : HeaderField) : (t.insert field).maxSize = t.maxSize := by
  simp only [DynamicTable.insert]
  split <;> rfl

@[simp] theorem maxSize_encodeHeader (table : DynamicTable) (header : HeaderField) :
    (encodeHeader table header).1.maxSize = table.maxSize := by
  unfold encodeHeader
  repeat' split
  all_goals simp

@[simp] theorem maxSize_encodeHeaders (headers : List HeaderField) (table : DynamicTable) :
    (encodeHeaders table headers).1.maxSize = table.maxSize := by
  induction headers generalizing table with
  | nil => rfl
  | cons header headers ih => simp [encodeHeaders, ih]

section

open Reference

variable {limit : Nat} {bs rest : List UInt8} {R : Reference.Table → Reference.Table → Prop}
  {r : Reference.Table} {enc : Encoder} {headers : List HeaderField}

theorem stringBytes_encodeStringLiteral {data : List UInt8} (hlen : data.length < 2 ^ 63) :
    StringBytes data (encodeStringLiteral data) := by
  rw [encodeStringLiteral]
  split
  · have hcoded := length_encode data
    exact .inr ⟨by omega, by rw [hcoded]⟩
  · exact .inl ⟨hlen, rfl⟩

/-- What is queued in an encoder is within the reader's limit and can be signalled, and if nothing is
queued, its table is within the limit. -/
structure Admissible (limit : Nat) (enc : Encoder) (r : Reference.Table) : Prop where
  latest : ∀ n, enc.pendingLatest = some n → n ≤ limit ∧ n ≤ maxSignalledSize
  least : ∀ n, enc.pendingMin = some n → n ≤ limit ∧ n ≤ maxSignalledSize
  idle : enc.pendingLatest = none → r.maxSize ≤ limit
  size : enc.dynamicTable.maxSize < 2 ^ 64

/-- A size that is queued when the limit changes. -/
theorem Admissible.updateMaxTableSize {limit' n : Nat} (h : Admissible limit enc r) (hle : n ≤ limit')
    (hsignalled : n ≤ maxSignalledSize) : Admissible limit' (enc.updateMaxTableSize n) r where
  latest m hm := by
    cases hm
    exact ⟨hle, hsignalled⟩
  least m hm := by
    cases hm
    rcases enc.pendingMin with _ | k
    · exact ⟨hle, hsignalled⟩
    · exact ⟨(min_le_right k n).trans hle, (min_le_right k n).trans hsignalled⟩
  idle hnone := nomatch hnone
  size := h.size

section

variable (hR : Table.Tracks R)

include hR

/-- **One field.**  For a reader whose table tracks the encoder's, the encoder's representation means the
field, and the tables are related again. -/
theorem reads_encodeHeader {t : DynamicTable} {header : HeaderField} (hfits : header.Fits)
    (hmax : t.maxSize < 2 ^ 64) (h : R t.reference r) (hlimit : r.maxSize ≤ limit) :
    ∃ r', (∀ done, Reads limit ⟨r, done⟩ (encodeHeader t header).2 ⟨r', done ++ [header]⟩) ∧
      R (encodeHeader t header).1.reference r' ∧ r'.maxSize = r.maxSize := by
  have hvalue := stringBytes_encodeStringLiteral hfits.value
  have hindexed : ∀ {index : Nat}, Denotes t index header → ∀ done,
      Reads limit ⟨r, done⟩ (encodePrefixInt index 7 0x80) ⟨r, done ++ [header]⟩ := by
    intro index hden done
    refine (Representation.parses (.indexed index) ⟨hden.lt, rfl⟩).reads ?_
    rw [Reference.apply, if_pos hlimit, hR.lookup h hden.lookup]
    rfl
  have hinsert : R (t.insert header).reference (r.insert header) := by
    rw [reference_insert]
    exact hR.insert h header
  have hnamed : ∀ {index : Nat} {value : List UInt8}, Denotes t index ⟨header.name, value⟩ → ∀ done,
      Reads limit ⟨r, done⟩ (encodePrefixInt index 6 0x40 ++ encodeStringLiteral header.value)
        ⟨r.insert header, done ++ [header]⟩ := by
    intro index value hden done
    refine (Representation.parses (.literal .incremental (.index index) header.value)
      ⟨_, _, ⟨hden.pos, hden.lt, rfl⟩, hvalue, rfl⟩).reads ?_
    rw [Reference.apply, if_pos hlimit, Name.resolve, hR.lookup h hden.lookup]
    rfl
  have hnew : ∀ done, Reads limit ⟨r, done⟩
      (0x40 :: (encodeStringLiteral header.name ++ encodeStringLiteral header.value))
      ⟨r.insert header, done ++ [header]⟩ := by
    intro done
    refine (Representation.parses (.literal .incremental (.literal header.name) header.value)
      ⟨_, _, ⟨_, stringBytes_encodeStringLiteral hfits.name, rfl⟩, hvalue, rfl⟩).reads ?_
    rw [Reference.apply, if_pos hlimit]
    rfl
  unfold encodeHeader
  rcases h₁ : findStaticNameValue header.name header.value with _ | index
  · rcases h₂ : t.findNameValue header.name header.value with _ | index
    · rcases h₃ : findStaticName header.name with _ | index
      · rcases h₄ : t.findName header.name with _ | index
        · exact ⟨_, hnew, hinsert, rfl⟩
        · obtain ⟨value, hden⟩ := denotes_findName hmax h₄
          exact ⟨_, hnamed hden, hinsert, rfl⟩
      · obtain ⟨value, hden⟩ := denotes_findStaticName t h₃
        exact ⟨_, hnamed hden, hinsert, rfl⟩
    · exact ⟨_, hindexed (denotes_findNameValue hmax h₂), h, rfl⟩
  · exact ⟨_, hindexed (denotes_findStaticNameValue h₁), h, rfl⟩

/-- The fields of a block. -/
theorem reads_encodeHeaders (headers : List HeaderField) :
    ∀ (t : DynamicTable) (r : Reference.Table) (done : List HeaderField), (∀ h ∈ headers, h.Fits) →
      t.maxSize < 2 ^ 64 → R t.reference r → r.maxSize ≤ limit →
      ∃ r', Reads limit ⟨r, done⟩ (encodeHeaders t headers).2 ⟨r', done ++ headers⟩ ∧
        R (encodeHeaders t headers).1.reference r' ∧ r'.maxSize = r.maxSize := by
  induction headers with
  | nil =>
    intro t r done _ _ h _
    exact ⟨r, by rw [append_nil]; exact reads_nil _, h, rfl⟩
  | cons header headers ih =>
    intro t r done hfits hmax h hlimit
    obtain ⟨r₁, hreads, h₁, hmax₁⟩ := reads_encodeHeader hR (hfits header mem_cons_self) hmax h hlimit
    obtain ⟨r', hreads', h', hmax'⟩ := ih (encodeHeader t header).1 r₁ (done ++ [header])
      (fun h hh => hfits h (mem_cons_of_mem _ hh)) (by rwa [maxSize_encodeHeader]) h₁ (by omega)
    rw [append_assoc, singleton_append] at hreads'
    exact ⟨r', (hreads done).trans hreads', h', hmax'.trans hmax₁⟩

/-- The size updates in front of a block. -/
theorem reads_emitSizeUpdates (hr : R enc.dynamicTable.reference r) (h : Admissible limit enc r) :
    ∃ r', Reads limit ⟨r, []⟩ enc.emitSizeUpdates.2 ⟨r', []⟩ ∧
      R enc.emitSizeUpdates.1.dynamicTable.reference r' ∧ r'.maxSize ≤ limit ∧
      Admissible limit enc.emitSizeUpdates.1 r' := by
  have hupdate : ∀ (t : Reference.Table) {n}, n ≤ limit ∧ n ≤ maxSignalledSize →
      Reads limit ⟨t, []⟩ (encodePrefixInt n 5 0x20) ⟨t.resize n, []⟩ := fun t n hn =>
    (parses_sizeUpdate hn.2).reads (if_pos ⟨rfl, hn.1⟩)
  rw [Encoder.emitSizeUpdates.eq_def]
  rcases hlatest : enc.pendingLatest with _ | latest
  · exact ⟨r, reads_nil _, hr, h.idle hlatest, h⟩
  · have hle := h.latest latest hlatest
    have hmin : enc.pendingMin.getD latest ≤ limit ∧ enc.pendingMin.getD latest ≤ maxSignalledSize := by
      rcases hm : enc.pendingMin with _ | m
      · exact hle
      · exact h.least m hm
    have hflushed : ∀ (t : DynamicTable) (r' : Reference.Table), r'.maxSize ≤ limit →
        Admissible limit ⟨t.setMaxSize latest, none, none⟩ r' := fun t r' hr' =>
      ⟨nofun, nofun, fun _ => hr', hle.2.trans_lt (by decide)⟩
    dsimp only
    generalize enc.pendingMin.getD latest = least at hmin ⊢
    split
    · refine ⟨(r.resize least).resize latest, (hupdate r hmin).trans (hupdate _ hle), ?_, hle.1,
        hflushed _ _ hle.1⟩
      rw [reference_setMaxSize, reference_setMaxSize]
      exact hR.resize (hR.resize hr _) latest
    · refine ⟨r.resize latest, hupdate r hle, ?_, hle.1, hflushed _ _ hle.1⟩
      rw [reference_setMaxSize]
      exact hR.resize hr latest

/-- **What the encoder writes means its headers**, for a reader whose table tracks the encoder's; and
then the tables are related again. -/
theorem decode_encode (hr : R enc.dynamicTable.reference r) (h : Admissible limit enc r)
    (hfits : ∀ f ∈ headers, f.Fits) :
    ∃ r', decode limit r (enc.encode headers).2 = some (headers, r') ∧
      R (enc.encode headers).1.dynamicTable.reference r' ∧
      Admissible limit (enc.encode headers).1 r' := by
  obtain ⟨r₁, hreads, hr₁, hle₁, h₁⟩ := reads_emitSizeUpdates hR hr h
  obtain ⟨r', hreads', hr', hmax'⟩ := reads_encodeHeaders hR headers
    enc.emitSizeUpdates.1.dynamicTable r₁ [] hfits h₁.size hr₁ hle₁
  refine ⟨r', (hreads.trans hreads').decode_eq, hr', h₁.latest, h₁.least,
    fun _ => hmax'.trans_le hle₁, ?_⟩
  change (encodeHeaders enc.emitSizeUpdates.1.dynamicTable headers).1.maxSize < 2 ^ 64
  rw [maxSize_encodeHeaders]
  exact h₁.size

end

/-! ## The decoder -/

/-- A wire index is looked up as the table says. -/
theorem getIndexed_eq (t : DynamicTable) (index : Nat) :
    getIndexed t index = okOrCompression (t.reference.lookup index) := by
  rw [getIndexed, Reference.Table.lookup]
  split
  · rfl
  · rcases hstatic : staticTable[index - 1]? with _ | ⟨name, value⟩
    · have hlen : staticTable.length ≤ index - 1 := getElem?_eq_none_iff.mp hstatic
      rw [getElem?_append_right (by rwa [length_map]), length_map, Nat.sub_right_comm]
      rfl
    · have hlen : index - 1 < staticTable.length := (List.getElem?_eq_some_iff.mp hstatic).1
      rw [List.getElem?_append_left (by rwa [List.length_map]), List.getElem?_map, hstatic]
      rfl

theorem getName_eq (t : DynamicTable) (index : Nat) :
    getName t index = (getIndexed t index).map HeaderField.name := by
  rw [getName, getIndexed]
  split
  · rfl
  · rcases staticTable[index - 1]? with _ | e
    · cases t.get (index - staticTable.length - 1) <;> rfl
    · rfl

theorem checkFieldCap_ok (h : headers.length < maxHeaderFields) :
    checkFieldCap headers = .ok () := by
  rw [checkFieldCap, if_neg (by omega)]

variable {first : UInt8} {fuel : Nat} {st : DecodeState} {rep : Representation} {r r' : Reading}
  {indexing : Indexing} {name : Name} {value : List UInt8}

theorem decodeLoop_cons {st' : DecodeState} {tail : List UInt8} (hrest : st.rest = first :: tail)
    (h : decodeRepresentation maxTableSize st first = .ok st') :
    decodeLoop maxTableSize (fuel + 1) st = decodeLoop maxTableSize fuel st' := by
  rw [decodeLoop, hrest]
  simp only [h]

theorem decodeLoop_nil (hrest : st.rest = []) : decodeLoop maxTableSize fuel st = (st, .ok ()) := by
  cases fuel <;> simp [decodeLoop, hrest]

theorem parseString_eq_some {s : List UInt8} (h : parseString bs = some (s, rest)) :
    ∃ n, decodeStringLiteral bs = .ok (s, n) ∧ rest = bs.drop n := by
  rw [parseString] at h
  split at h
  · rename_i s' n hdec
    cases (some_inj.mp h)
    exact ⟨n, hdec, rfl⟩
  · cases h

/-- The decoder is at the same place as the reading. -/
structure Follows (st : DecodeState) (r : Reading) (bs : List UInt8) : Prop where
  table : st.table.reference = r.table
  headers : st.headers = r.headers
  seen : r.headers = [] → st.seenHeader = false
  rest : st.rest = bs

theorem decodeLiteral_refines {n : List UInt8} (h : Follows st r bs)
    (hparse : parseLiteral indexing bs = some (.literal indexing name value, rest))
    (hname : name.resolve r.table = some n) (hcap : r.headers.length < maxHeaderFields) :
    decodeLiteral st indexing.prefixBits = .ok (⟨n, value⟩, rest) := by
  rw [parseLiteral] at hparse
  split at hparse
  · cases hparse
  · rename_i name' rest' hname'
    obtain ⟨⟨value', rest''⟩, hvalue, heq⟩ := map_eq_some_iff.mp hparse
    obtain ⟨hrep, rfl⟩ := Prod.mk.inj heq
    obtain ⟨-, rfl, rfl⟩ := Representation.literal.inj hrep
    obtain ⟨m, hdecoded, rfl⟩ := parseString_eq_some hvalue
    have hcheck : checkFieldCap st.headers = .ok () := checkFieldCap_ok (by rwa [h.headers])
    rw [parseName] at hname'
    split at hname'
    · cases hname'
    · rename_i index k hint
      rw [← h.rest] at hint hname'
      split at hname'
      · rename_i hpos
        cases (some_inj.mp hname')
        have hget : getName st.table index = .ok n := by
          obtain ⟨field, hfield, rfl⟩ := map_eq_some_iff.mp hname
          rw [getName_eq, getIndexed_eq, h.table, hfield]
          rfl
        simp only [decodeLiteral, hint, okOrCompression_some, gt_iff_lt, hpos, if_true, hget,
          hdecoded, hcheck, bind, Except.bind, pure, Except.pure]
      · rename_i hzero
        obtain ⟨⟨s, rest₁⟩, hstring, heq⟩ := map_eq_some_iff.mp hname'
        cases heq
        obtain ⟨m₁, hdecodedName, rfl⟩ := parseString_eq_some hstring
        cases hname
        simp only [decodeLiteral, hint, okOrCompression_some, gt_iff_lt, hzero, if_false,
          hdecodedName, hdecoded, hcheck, bind, Except.bind, pure, Except.pure]

/-- Every literal adds one field. -/
theorem apply_literal (h : apply limit r (.literal indexing name value) = some r') :
    ∃ n, name.resolve r.table = some n ∧ r' =
      { table := if indexing = .incremental then r.table.insert ⟨n, value⟩ else r.table
        headers := r.headers ++ [⟨n, value⟩] } := by
  rw [Reference.apply] at h
  split at h
  · obtain ⟨n, hn, rfl⟩ := map_eq_some_iff.mp h
    exact ⟨n, hn, rfl⟩
  · cases h

/-- A literal is read by the decoder. -/
theorem refines_literal (indexing : Indexing)
    (hdec : decodeRepresentation maxTableSize st first =
      (decodeLiteral st indexing.prefixBits).map fun p =>
        { table := if indexing = .incremental then st.table.insert p.1 else st.table
          headers := st.headers ++ [p.1]
          seenHeader := true
          rest := p.2 }) (h : Follows st r bs)
    (hparse : parseLiteral indexing bs = some (rep, rest)) (happly : apply limit r rep = some r')
    (hcap : r'.headers.length ≤ maxHeaderFields) :
    ∃ st', decodeRepresentation maxTableSize st first = .ok st' ∧ Follows st' r' rest := by
  obtain ⟨name, value, rfl⟩ : ∃ name value, rep = .literal indexing name value := by
    rw [parseLiteral] at hparse
    split at hparse
    · cases hparse
    · obtain ⟨v, -, heq⟩ := map_eq_some_iff.mp hparse
      exact ⟨_, _, (Prod.mk.inj heq).1.symm⟩
  obtain ⟨n, hname, rfl⟩ := apply_literal happly
  rw [length_append, length_singleton] at hcap
  rw [decodeLiteral_refines h hparse hname (by omega)] at hdec
  refine ⟨_, hdec, ?_, ?_, ?_, rfl⟩
  · split
    · rw [reference_insert, h.table]
    · exact h.table
  · rw [h.headers]
  · intro hnil
    exact absurd hnil (by simp)

/-- **One representation.** -/
theorem decodeRepresentation_refines (hlimit : limit ≤ maxTableSize) (h : Follows st r bs)
    (hparse : parse bs first = some (rep, rest))
    (happly : apply limit r rep = some r') (hcap : r'.headers.length ≤ maxHeaderFields) :
    ∃ st', decodeRepresentation maxTableSize st first = .ok st' ∧ Follows st' r' rest := by
  rw [parse] at hparse
  split at hparse
  · rename_i h80
    obtain ⟨⟨index, n⟩, hint, heq⟩ := map_eq_some_iff.mp hparse
    cases heq
    rw [Reference.apply] at happly
    split at happly
    · obtain ⟨field, hfield, rfl⟩ := map_eq_some_iff.mp happly
      rw [length_append, length_singleton] at hcap
      have hcheck : checkFieldCap st.headers = .ok () :=
        checkFieldCap_ok (by rw [h.headers]; omega)
      have hget : getIndexed st.table index = .ok field := by
        rw [getIndexed_eq, h.table, hfield]
        rfl
      rw [← h.rest] at hint
      refine ⟨⟨st.table, st.headers ++ [field], true, st.rest.drop n⟩, ?_, h.table,
        by rw [h.headers], ?_, by rw [h.rest]⟩
      · rw [decodeRepresentation, if_pos h80]
        simp only [hint, okOrCompression_some, hcheck, hget, bind, Except.bind, pure, Except.pure]
      · intro hnil
        exact absurd hnil (by simp)
    · cases happly
  · rename_i h80
    split at hparse
    · rename_i h40
      refine refines_literal .incremental ?_ h hparse happly hcap
      rw [decodeRepresentation, if_neg h80, if_pos h40]
      change (decodeLiteral st 6).bind _ = (decodeLiteral st 6).map _
      cases decodeLiteral st 6 <;> rfl
    · rename_i h40
      split at hparse
      · rename_i h20
        obtain ⟨⟨n, k⟩, hint, heq⟩ := map_eq_some_iff.mp hparse
        cases heq
        rw [Reference.apply] at happly
        split at happly
        · rename_i hsize
          cases happly
          rw [← h.rest] at hint
          refine ⟨{ st with table := st.table.setMaxSize n, rest := st.rest.drop k }, ?_, ?_,
            h.headers, h.seen, by rw [h.rest]⟩
          · rw [decodeRepresentation, if_neg h80, if_neg h40, if_pos h20]
            simp only [h.seen hsize.1, Bool.false_eq_true, if_false, hint, okOrCompression_some,
              gt_iff_lt, Nat.not_lt.mpr (hsize.2.trans hlimit), bind, Except.bind, pure,
              Except.pure]
          · rw [reference_setMaxSize, h.table]
        · cases happly
      · rename_i h20
        have hplain : decodeRepresentation maxTableSize st first =
            (decodeLiteral st 4).map fun p =>
              { st with headers := st.headers ++ [p.1], seenHeader := true, rest := p.2 } := by
          rw [decodeRepresentation, if_neg h80, if_neg h40, if_neg h20]
          cases decodeLiteral st 4 <;> rfl
        split at hparse
        · exact refines_literal .never hplain h hparse happly hcap
        · exact refines_literal .without hplain h hparse happly hcap

theorem length_apply (h : apply limit r rep = some r') :
    r.headers.length ≤ r'.headers.length := by
  cases rep with
  | indexed index =>
    rw [Reference.apply] at h
    split at h
    · obtain ⟨field, -, rfl⟩ := map_eq_some_iff.mp h
      exact length_append ▸ Nat.le_add_right _ _
    · cases h
  | literal indexing name value =>
    obtain ⟨n, -, rfl⟩ := apply_literal h
    exact length_append ▸ Nat.le_add_right _ _
  | sizeUpdate n =>
    rw [Reference.apply] at h
    split at h
    · cases h
      exact le_rfl
    · cases h

theorem read_cons (h : read limit (fuel + 1) r (first :: bs) = some r') :
    ∃ rep rest r₁, parse (first :: bs) first = some (rep, rest) ∧ apply limit r rep = some r₁ ∧
      read limit fuel r₁ rest = some r' := by
  rw [Reference.read] at h
  obtain ⟨⟨rep, rest⟩, hparse, h⟩ := bind_eq_some_iff.mp h
  obtain ⟨r₁, happly, h⟩ := bind_eq_some_iff.mp h
  exact ⟨rep, rest, r₁, hparse, happly, h⟩

theorem length_read : ∀ (fuel : Nat) (r : Reading) (bs : List UInt8),
    read limit fuel r bs = some r' → r.headers.length ≤ r'.headers.length
  | fuel, r, [], h => by
    obtain rfl : r = r' := by
      cases fuel <;> exact some.inj h
    exact le_rfl
  | 0, r, _ :: _, h => nomatch h
  | fuel + 1, r, first :: bs, h => by
    obtain ⟨rep, rest, r₁, -, happly, hread⟩ := read_cons h
    exact (length_apply happly).trans (length_read fuel r₁ rest hread)

/-- The loop of the decoder reads what the block means. -/
theorem decodeLoop_refines (hlimit : limit ≤ maxTableSize) :
    ∀ (fuel : Nat) (st : DecodeState) (r : Reading) (bs : List UInt8),
      Follows st r bs → read limit fuel r bs = some r' → r'.headers.length ≤ maxHeaderFields →
      ∃ st', decodeLoop maxTableSize fuel st = (st', .ok ()) ∧ Follows st' r' []
  | fuel, st, r, [], h, hread, _ => by
    obtain rfl : r = r' := by
      cases fuel <;> exact some.inj hread
    exact ⟨st, decodeLoop_nil h.rest, h⟩
  | 0, _, _, _ :: _, _, hread, _ => nomatch hread
  | fuel + 1, st, r, first :: bs, h, hread, hcap => by
    obtain ⟨rep, rest, r₁, hparse, happly, hread⟩ := read_cons hread
    obtain ⟨st₁, hdec, h₁⟩ := decodeRepresentation_refines hlimit h hparse happly
      ((length_read fuel r₁ rest hread).trans hcap)
    rw [decodeLoop_cons h.rest hdec]
    exact decodeLoop_refines hlimit fuel st₁ r₁ rest h₁ hread hcap

/-- **The decoder reads what a block means**, if the limit of the peer is not larger than its own,
and the block has at most 256 fields; and then the tables are equal again. -/
theorem decoder_refines {dec : Decoder} {t' : Reference.Table}
    (hlimit : limit ≤ dec.maxTableSize)
    (h : Reference.decode limit dec.dynamicTable.reference bs = some (headers, t'))
    (hcap : headers.length ≤ maxHeaderFields) :
    (dec.decode bs).2 = .ok headers ∧ (dec.decode bs).1.dynamicTable.reference = t' := by
  rw [Reference.decode] at h
  obtain ⟨r', hread, heq⟩ := map_eq_some_iff.mp h
  cases heq
  obtain ⟨st', hloop, hfollows⟩ := decodeLoop_refines hlimit bs.length
    { table := dec.dynamicTable, headers := [], seenHeader := false, rest := bs } _ bs
    ⟨rfl, rfl, fun _ => rfl, rfl⟩ hread hcap
  simp only [Decoder.decode, hloop]
  exact ⟨congrArg Except.ok hfollows.headers, hfollows.table⟩

end

end Ringline.H2
