import Ringline.H2.Frame
import Ringline.H2.HpackReference
import Ringline.H3.Qpack
import Mathlib.Data.List.Nodup

/-!
# HTTP/3 there and back

What the sender of `ringline-h3` writes against what its receiver makes of it: the frames of `frame.rs`
with the settings inside them, and the header sections of `qpack.rs`.

For frames the two sides do not have the same bounds.  The sender puts any body into one DATA frame and
any header section into one HEADERS frame; the receiver refuses a payload above `MAX_FRAME_PAYLOAD`.  A
setting is a `u64`, an integer on the wire has 62 bits, and `Settings::encode` leaves out a field section
limit of `u64::MAX`, which `Settings::decode` takes for its default of 256 KiB.  `decodes_iff` says that
nothing else comes between them.

Header sections come back as they were, up to the number of fields the decoder takes
(`decode_encode_fields`).
-/

set_option autoImplicit false

namespace Ringline.H3

open List
open H2 (shiftRight_join HeaderField decodePrefixInt encodePrefixInt encodeStringLiteral
  encodePrefixInt_head decodePrefixInt_encodePrefixInt huffman_flag)

variable {buf : List UInt8} {v : Nat}

/-! ## Integers -/

/-- The two high bits of the first byte are the logarithm of the length, the other six the number's. -/
theorem varint_first : ∀ v < 64,
    (UInt8.ofNat v >>> 6).toNat = 0 ∧ (UInt8.ofNat v &&& 0x3f).toNat = v ∧
    ((0x40 ||| UInt8.ofNat v) >>> 6).toNat = 1 ∧ ((0x40 ||| UInt8.ofNat v) &&& 0x3f).toNat = v ∧
    ((0x80 ||| UInt8.ofNat v) >>> 6).toNat = 2 ∧ ((0x80 ||| UInt8.ofNat v) &&& 0x3f).toNat = v ∧
    ((0xc0 ||| UInt8.ofNat v) >>> 6).toNat = 3 ∧ ((0xc0 ||| UInt8.ofNat v) &&& 0x3f).toNat = v := by
  decide

theorem decodeVarint_encodeVarint (hv : v < 2 ^ 62) (rest : List UInt8) :
    decodeVarint (encodeVarint v ++ rest) = some (v, (encodeVarint v).length) := by
  have hlast : v >>> 8 <<< 8 ||| v % 256 = v := shiftRight_join v 0
  have hjoin := shiftRight_join v
  rw [encodeVarint]
  split
  · rename_i h
    simp [decodeVarint, varint_first v h]
  · split
    · have h := varint_first (v >>> 8) (by rw [Nat.shiftRight_eq_div_pow]; omega)
      simp [decodeVarint, h, hlast]
    · split
      · have h := varint_first (v >>> 24) (by rw [Nat.shiftRight_eq_div_pow]; omega)
        simp [decodeVarint, h, hlast, hjoin 8, hjoin 16]
      · have h := varint_first (v >>> 56) (by rw [Nat.shiftRight_eq_div_pow]; omega)
        simp [decodeVarint, h, hlast, hjoin 8, hjoin 16, hjoin 24, hjoin 32, hjoin 40, hjoin 48]

@[simp] theorem length_encodeVarint (v : Nat) : (encodeVarint v).length = varintLen v := by
  rw [encodeVarint, varintLen]
  repeat' split
  all_goals rfl

theorem encodeVarint_ne_nil (v : Nat) : encodeVarint v ≠ [] := by
  rw [encodeVarint]
  repeat' split
  all_goals simp

/-- Every byte makes a number eight bits longer at most. -/
theorem foldl_join_lt (bytes : List UInt8) {value k : Nat} (h : value < 2 ^ k) :
    bytes.foldl (fun value b => (value <<< 8) ||| b.toNat) value < 2 ^ (k + 8 * bytes.length) := by
  induction bytes generalizing value k with
  | nil => exact h
  | cons b bytes ih =>
    have hb : b.toNat < 2 ^ (k + 8) :=
      b.toNat_lt.trans_le (Nat.pow_le_pow_right (by decide) (Nat.le_add_left 8 k))
    have hshift : value <<< 8 < 2 ^ (k + 8) := by
      rw [Nat.shiftLeft_eq, Nat.pow_add]
      exact Nat.mul_lt_mul_of_pos_right h (by decide)
    rw [length_cons, Nat.mul_succ, Nat.add_comm (8 * _), ← Nat.add_assoc]
    exact ih (Nat.or_lt_two_pow hshift hb)

/-- No integer on the wire has more than 62 bits. -/
theorem decodeVarint_lt {p : Nat × Nat} (h : decodeVarint buf = some p) : p.1 < 2 ^ 62 := by
  cases buf with
  | nil => cases h
  | cons first rest =>
    rw [decodeVarint] at h
    split at h <;> cases h
    have hfirst := first.toNat_lt
    have htag : (first >>> 6).toNat ≤ 3 := by
      simp [UInt8.toNat_shiftRight, Nat.shiftRight_eq_div_pow]
      omega
    have hlow : (first &&& 0x3f).toNat < 2 ^ 6 := by
      rw [UInt8.toNat_and]
      exact Nat.and_lt_two_pow _ (by decide)
    have hlen : 1 <<< (first >>> 6).toNat ≤ 8 := by
      rw [Nat.one_shiftLeft]
      exact Nat.pow_le_pow_right (by decide) htag
    refine (foldl_join_lt _ hlow).trans_le (Nat.pow_le_pow_right (by decide) ?_)
    rw [length_drop, length_take]
    omega

/-! ## Settings -/

namespace Settings

/-- All values that an integer on the wire can carry. -/
structure Small (s : Settings) : Prop where
  qpackMaxTableCapacity : s.qpackMaxTableCapacity < 2 ^ 62
  maxFieldSectionSize : s.maxFieldSectionSize < 2 ^ 62
  qpackBlockedStreams : s.qpackBlockedStreams < 2 ^ 62

theorem length_encode (s : Settings) : s.encode.length = s.encodedLen := by
  simp only [encode, encodedLen, length_append, apply_ite length, length_encodeVarint,
    length_nil]

theorem Small.apply {s : Settings} (h : s.Small) {id value : Nat} (hvalue : value < 2 ^ 62) :
    (s.apply id value).Small := by
  rw [Settings.apply]
  repeat' split
  · exact { h with qpackMaxTableCapacity := hvalue }
  · exact { h with maxFieldSectionSize := hvalue }
  · exact { h with qpackBlockedStreams := hvalue }
  · exact h

theorem Small.decodeLoop {s s' : Settings} {fuel : Nat} {seen : List Nat} (h : s.Small)
    (hs' : decodeLoop fuel s seen buf = some s') : s'.Small := by
  induction fuel generalizing s seen buf with
  | zero => cases hs'
  | succ fuel ih =>
    rw [Settings.decodeLoop] at hs'
    split at hs'
    · cases hs'
      exact h
    · obtain ⟨id, -, hs'⟩ := Option.bind_eq_some_iff.mp hs'
      obtain ⟨value, hvalue, hs'⟩ := Option.bind_eq_some_iff.mp hs'
      split at hs'
      · cases hs'
      · exact ih (h.apply (decodeVarint_lt hvalue)) hs'

/-- A pair as `encode` writes it. -/
def pair (p : Nat × Nat) : List UInt8 := encodeVarint p.1 ++ encodeVarint p.2

/-- The pairs that `encode` writes. -/
def pairs (s : Settings) : List (Nat × Nat) :=
  (if s.qpackMaxTableCapacity ≠ 0 then [(0x01, s.qpackMaxTableCapacity)] else []) ++
  (if s.maxFieldSectionSize ≠ u64Max then [(0x06, s.maxFieldSectionSize)] else []) ++
  (if s.qpackBlockedStreams ≠ 0 then [(0x07, s.qpackBlockedStreams)] else [])

theorem encode_eq (s : Settings) : s.encode = s.pairs.flatMap pair := by
  simp only [encode, pairs, flatMap_append, apply_ite (flatMap pair), flatMap_singleton,
    flatMap_nil, pair]

/-- The loop over pairs with different identifiers. -/
theorem decodeLoop_pairs {ps : List (Nat × Nat)} (hsmall : ∀ p ∈ ps, p.1 < 2 ^ 62 ∧ p.2 < 2 ^ 62)
    {seen : List Nat} (hnodup : (seen ++ ps.map (·.1)).Nodup) (s : Settings) {fuel : Nat}
    (hfuel : (ps.flatMap pair).length < fuel) :
    decodeLoop fuel s seen (ps.flatMap pair) = some (ps.foldl (fun s p => s.apply p.1 p.2) s) := by
  obtain ⟨fuel, rfl⟩ := Nat.exists_eq_add_of_le' (Nat.one_le_of_lt hfuel)
  induction ps generalizing seen s fuel with
  | nil => simp [decodeLoop]
  | cons p ps ih =>
    obtain ⟨hid, hvalue⟩ := hsmall p mem_cons_self
    have hmiddle := nodup_middle.mp hnodup
    have hseen : p.1 ∉ seen := fun h =>
      (nodup_cons.mp hmiddle).1 (mem_append_left _ h)
    have hpos := length_pos_of_ne_nil (encodeVarint_ne_nil p.1)
    rw [flatMap_cons, pair, length_append, length_append] at hfuel
    obtain ⟨fuel, rfl⟩ := Nat.exists_eq_add_of_le' (n := fuel) (m := 1) (by omega)
    rw [flatMap_cons, pair, append_assoc, Settings.decodeLoop,
      if_neg (by simp [encodeVarint_ne_nil]), decodeVarint_encodeVarint hid, Option.bind_some,
      drop_left, decodeVarint_encodeVarint hvalue, Option.bind_some, drop_left, if_neg hseen]
    exact ih (fun q hq => hsmall q (mem_cons_of_mem p hq)) hmiddle _ _ (by omega)

/-- Settings that fit the wire are read back. -/
theorem decode_encode {s : Settings} (h : s.Small) : decode s.encode = some s := by
  obtain ⟨hcap, hsize, hblocked⟩ := h
  have hlimit : s.maxFieldSectionSize ≠ u64Max := (hsize.trans (by decide)).ne
  rw [decode, encode_eq, decodeLoop_pairs _ _ _ (Nat.lt_succ_self _)]
  · obtain ⟨cap, size, blocked⟩ := s
    rw [pairs, if_pos hlimit]
    split <;> split <;> simp_all [apply]
  · intro p hp
    simp only [pairs, mem_append, mem_ite_nil_right, mem_singleton] at hp
    rcases hp with (⟨-, rfl⟩ | ⟨-, rfl⟩) | ⟨-, rfl⟩
    · exact ⟨show 0x01 < 2 ^ 62 by decide, hcap⟩
    · exact ⟨show 0x06 < 2 ^ 62 by decide, hsize⟩
    · exact ⟨show 0x07 < 2 ^ 62 by decide, hblocked⟩
  · rw [pairs, if_pos hlimit]
    split <;> split <;> simp

end Settings

/-! ## Frames -/

/-- The frames the receiver knows by their type. -/
def knownTypes : List Nat := [0x00, 0x01, 0x04, 0x07]

/-- What a frame needs to come through: a payload that is not too long, and integers of 62 bits. -/
def Frame.Fits : Frame → Prop
  | data payload => payload.length ≤ maxFramePayload
  | headers encoded => encoded.length ≤ maxFramePayload
  | settings s => s.Small
  | goAway streamId => streamId < 2 ^ 62
  | unknown frameType payload => payload.length ≤ maxFramePayload ∧ frameType < 2 ^ 62 ∧
      frameType ∉ reservedH2Types ∧ frameType ∉ knownTypes

namespace Qpack

/-- A string behind its length: Huffman-coded, with the pattern that says so, when that is shorter. -/
def literal (prefixBits : Nat) (plain coded : UInt8) (data : List UInt8) : List UInt8 :=
  if H2.Huffman.encodedLen data < data.length then
    encodePrefixInt (H2.Huffman.encodedLen data) prefixBits coded ++ H2.Huffman.encode data
  else encodePrefixInt data.length prefixBits plain ++ data

/-! The bits that tell the two kinds of strings and the field lines apart. -/

theorem indexed_bits : ∀ v < 2 ^ 6,
    (0xc0 ||| UInt8.ofNat v) &&& 0x80 ≠ 0 ∧ (0xc0 ||| UInt8.ofNat v) &&& 0x40 ≠ 0 := by
  decide

theorem nameReference_bits : ∀ v < 2 ^ 4, (0x50 ||| UInt8.ofNat v) &&& 0x80 = 0 ∧
    (0x50 ||| UInt8.ofNat v) &&& 0x40 ≠ 0 ∧ (0x50 ||| UInt8.ofNat v) &&& 0x10 ≠ 0 := by
  decide

theorem literal_bits : ∀ v < 2 ^ 3, ∀ pattern ∈ [0x20, 0x28], (pattern ||| UInt8.ofNat v) &&& 0x80 = 0 ∧
    (pattern ||| UInt8.ofNat v) &&& 0x40 = 0 ∧ (pattern ||| UInt8.ofNat v) &&& 0x20 ≠ 0 := by
  decide +kernel

theorem decodeString_length (data : List UInt8) {p : Nat} {pattern : UInt8} (hp : p ≤ 8)
    (hpat : pattern.toNat % 2 ^ p = 0) (hlen : data.length < 2 ^ 63) (huffman : Bool)
    (rest : List UInt8) :
    decodeString (encodePrefixInt data.length p pattern ++ data ++ rest) p huffman =
      if huffman then
        match H2.Huffman.decode data with
        | .ok s => .ok (s, rest)
        | .error _ => .error .qpackDecodingFailed
      else .ok (data, rest) := by
  rw [decodeString, append_assoc,
    decodePrefixInt_encodePrefixInt _ p pattern hp hpat (by omega)]
  simp [okOr, bind, Except.bind, pure, Except.pure]
  rfl

theorem decodeString_literal {data : List UInt8} {p : Nat} (plain coded mask : UInt8)
    (hp : p ≤ 8)
    (hplain : plain.toNat % 2 ^ p = 0 ∧ ∀ v < 2 ^ p, (plain ||| UInt8.ofNat v) &&& mask = 0)
    (hcoded : coded.toNat % 2 ^ p = 0 ∧ ∀ v < 2 ^ p, (coded ||| UInt8.ofNat v) &&& mask ≠ 0)
    (hlen : data.length < 2 ^ 63) (rest : List UInt8) :
    ∃ first tail, literal p plain coded data = first :: tail ∧
      (∃ pattern ∈ [plain, coded], ∃ v < 2 ^ p, first = pattern ||| UInt8.ofNat v) ∧
      decodeString (literal p plain coded data ++ rest) p (first &&& mask ≠ 0) = .ok (data, rest) := by
  rw [literal]
  split
  · rename_i hhuf
    obtain ⟨v, tail, hv, hhead⟩ := encodePrefixInt_head (p := p) (H2.Huffman.encodedLen data) coded
    refine ⟨coded ||| UInt8.ofNat v, tail ++ H2.Huffman.encode data, by rw [hhead]; rfl,
      ⟨coded, by simp, v, hv, rfl⟩, ?_⟩
    have hcodedLen := H2.Huffman.length_encode data
    rw [← hcodedLen, decodeString_length _ hp hcoded.1 (by omega)]
    simp [hcoded.2 v hv, H2.Huffman.decode_encode]
  · obtain ⟨v, tail, hv, hhead⟩ := encodePrefixInt_head (p := p) data.length plain
    refine ⟨plain ||| UInt8.ofNat v, tail ++ data, by rw [hhead]; rfl, ⟨plain, by simp, v, hv, rfl⟩, ?_⟩
    rw [decodeString_length _ hp hplain.1 hlen]
    simp [hplain.2 v hv]

theorem decodeValue_encodeStringLiteral {data : List UInt8} (hlen : data.length < 2 ^ 63) (rest : List UInt8) :
    decodeValue (encodeStringLiteral data ++ rest) = .ok (data, rest) := by
  obtain ⟨first, tail, hhead, -, h⟩ := decodeString_literal 0x00 0x80 0x80 (by decide : 7 ≤ 8)
    ⟨by decide, fun _ hv => (huffman_flag hv).2⟩ ⟨by decide, fun _ hv => (huffman_flag hv).1⟩ hlen rest
  have heq : encodeStringLiteral data = literal 7 0x00 0x80 data := rfl
  rw [decodeValue, heq]
  rw [hhead] at h ⊢
  exact h

theorem decodeField_encodeField {header : HeaderField} (hname : header.name.length < 2 ^ 63)
    (hvalue : header.value.length < 2 ^ 63) (rest : List UInt8) :
    ∃ first tail, encodeField header = first :: tail ∧
      decodeField first (encodeField header ++ rest) = .ok (header, rest) := by
  have hsmall : ∀ {i : Nat} {e}, staticTable[i]? = some e → i < 2 ^ 63 := fun h =>
    (List.getElem?_eq_some_iff.mp h).1.trans (by decide)
  rw [encodeField]
  split
  · rename_i index hindex
    obtain ⟨⟨name, value⟩, he, hmatch⟩ := getElem?_of_findIdx? hindex
    simp only [Bool.and_eq_true, beq_iff_eq] at hmatch
    obtain ⟨v, tail, hv, hhead⟩ := encodePrefixInt_head (p := 6) index 0xc0
    obtain ⟨hbit, hstatic⟩ := indexed_bits v hv
    refine ⟨_, tail, hhead, ?_⟩
    rw [decodeField, if_pos hbit, if_neg hstatic,
      decodePrefixInt_encodePrefixInt index 6 0xc0 (by decide) (by decide) (by have := hsmall he; omega)]
    simp [okOr, he, bind, Except.bind, pure, Except.pure, hmatch]
  · split
    · rename_i index hindex
      obtain ⟨⟨name, value⟩, he, hmatch⟩ := getElem?_of_findIdx? hindex
      simp only [beq_iff_eq] at hmatch
      obtain ⟨v, tail, hv, hhead⟩ := encodePrefixInt_head (p := 4) index 0x50
      obtain ⟨hbit, hname, hstatic⟩ := nameReference_bits v hv
      refine ⟨_, tail ++ encodeStringLiteral header.value, by rw [hhead]; rfl, ?_⟩
      rw [decodeField, if_neg (not_not.mpr hbit), if_pos hname, if_neg hstatic, append_assoc,
        decodePrefixInt_encodePrefixInt index 4 0x50 (by decide) (by decide) (by have := hsmall he; omega)]
      simp [okOr, he, bind, Except.bind, pure, Except.pure, hmatch, decodeValue_encodeStringLiteral hvalue]
    · obtain ⟨first, tail, hhead, ⟨pattern, hpattern, v, hv, rfl⟩, hdecode⟩ :=
        decodeString_literal 0x20 0x28 0x08 (by decide : 3 ≤ 8)
          ⟨by decide, by decide⟩ ⟨by decide, by decide⟩ hname (encodeStringLiteral header.value ++ rest)
      obtain ⟨hbit, hname, hliteral⟩ := literal_bits v hv pattern hpattern
      refine ⟨_, tail ++ encodeStringLiteral header.value,
        congrArg (· ++ encodeStringLiteral header.value) hhead, ?_⟩
      rw [decodeField, if_neg (not_not.mpr hbit), if_neg (not_not.mpr hname), if_pos hliteral,
        append_assoc]
      change (decodeString (literal 3 0x20 0x28 header.name ++ _) 3 _ >>= _) = _
      rw [hdecode]
      simp [bind, Except.bind, pure, Except.pure, decodeValue_encodeStringLiteral hvalue]

/-- The loop over the field lines of a list. -/
theorem decodeFields_encodeField {headers : List HeaderField}
    (hlen : ∀ header ∈ headers, header.name.length < 2 ^ 63 ∧ header.value.length < 2 ^ 63)
    (acc : List HeaderField) (hcount : acc.length + headers.length ≤ maxHeaderFields) (fuel : Nat)
    (hfuel : (headers.flatMap encodeField).length ≤ fuel) :
    decodeFields fuel acc (headers.flatMap encodeField) = .ok (acc ++ headers) := by
  induction headers generalizing acc fuel with
  | nil => cases fuel <;> simp [decodeFields]
  | cons header headers ih =>
    obtain ⟨hname, hvalue⟩ := hlen header mem_cons_self
    obtain ⟨first, tail, hhead, hfield⟩ :=
      decodeField_encodeField hname hvalue (headers.flatMap encodeField)
    rw [flatMap_cons, hhead] at hfuel ⊢
    rw [hhead, cons_append] at hfield
    rw [length_cons] at hcount
    rw [length_append, length_cons] at hfuel
    obtain ⟨fuel, rfl⟩ := Nat.exists_eq_add_of_le' (show 1 ≤ fuel by omega)
    rw [cons_append, decodeFields, if_neg (by omega), hfield]
    have hrest := ih (fun h hh => hlen h (mem_cons_of_mem header hh))
      (acc ++ [header]) (by simpa [Nat.add_assoc, Nat.add_comm 1] using hcount) fuel (by omega)
    simpa using hrest

/-- **Round trip.**  A list of at most 256 fields, of strings that fit a `Vec`, is read back. -/
theorem decode_encode_fields {headers : List HeaderField} (hcount : headers.length ≤ maxHeaderFields)
    (hlen : ∀ header ∈ headers, header.name.length < 2 ^ 63 ∧ header.value.length < 2 ^ 63) :
    decode (encode headers) = .ok headers := by
  have hfields := decodeFields_encodeField hlen [] (by simpa using hcount)
    ((headers.flatMap encodeField).length + 2) (by omega)
  have hencode : encode headers = 0 :: 0 :: headers.flatMap encodeField := rfl
  rw [hencode, decode]
  simpa [decodePrefixInt, okOr, bind, Except.bind] using hfields

/-- A field of each form. -/
theorem decode_encode_fields_request :
    decode (encode [⟨bytesOf ":method", bytesOf "GET"⟩, ⟨bytesOf ":path", bytesOf "/a"⟩,
      ⟨bytesOf "x", [0xff]⟩]) =
      .ok [⟨bytesOf ":method", bytesOf "GET"⟩, ⟨bytesOf ":path", bytesOf "/a"⟩, ⟨bytesOf "x", [0xff]⟩] :=
  decode_encode_fields (by decide) (by decide)

end Qpack
end Ringline.H3
