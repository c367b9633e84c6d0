import Mathlib.Data.List.Induction
import Ringline.Base.Bits
import Ringline.Base.ArrayTrie
import Ringline.H2.Error

/-!
# Huffman coding of header strings

`ringline-h2/src/huffman.rs`: the code table of RFC 7541 Appendix B, the decode tree built from it
once, and the two byte-oriented loops over them.  `encode` keeps a 64-bit accumulator whose low
`bit_count` bits are pending and whose higher bits are stale; `decode` walks the tree bit by bit and
checks at the end that what it was left with is padding.

The tree is the array trie of `Ringline.ArrayTrie` for this table, so all that has to be computed
about the table is that it is prefix-free (`huffmanTable_prefixFree`).  The main result is
`decode_encode`: decoding gives back every byte string, for the concrete table and the concrete
tree, through the accumulator, the byte boundaries and the padding check.
-/

set_option autoImplicit false

namespace Ringline.H2.Huffman

open Bits ArrayTrie List

variable {tree : Array (Node Nat)}

/-- An entry of the code table: a code of `bits` bits. -/
structure HuffmanCode where
  /-- The code, right-aligned. -/
  code : Nat
  /-- Its length in bits. -/
  bits : Nat
deriving DecidableEq, Repr

/-- `HUFFMAN_TABLE`: the codes of the 256 bytes, and of the end-of-string symbol 256. -/
def huffmanTable : List HuffmanCode := [
  ⟨0x1ff8, 13⟩, ⟨0x7fffd8, 23⟩, ⟨0xfffffe2, 28⟩, ⟨0xfffffe3, 28⟩, ⟨0xfffffe4, 28⟩,
  ⟨0xfffffe5, 28⟩, ⟨0xfffffe6, 28⟩, ⟨0xfffffe7, 28⟩, ⟨0xfffffe8, 28⟩, ⟨0xffffea, 24⟩,
  ⟨0x3ffffffc, 30⟩, ⟨0xfffffe9, 28⟩, ⟨0xfffffea, 28⟩, ⟨0x3ffffffd, 30⟩, ⟨0xfffffeb, 28⟩,
  ⟨0xfffffec, 28⟩, ⟨0xfffffed, 28⟩, ⟨0xfffffee, 28⟩, ⟨0xfffffef, 28⟩, ⟨0xffffff0, 28⟩,
  ⟨0xffffff1, 28⟩, ⟨0xffffff2, 28⟩, ⟨0x3ffffffe, 30⟩, ⟨0xffffff3, 28⟩, ⟨0xffffff4, 28⟩,
  ⟨0xffffff5, 28⟩, ⟨0xffffff6, 28⟩, ⟨0xffffff7, 28⟩, ⟨0xffffff8, 28⟩, ⟨0xffffff9, 28⟩,
  ⟨0xffffffa, 28⟩, ⟨0xffffffb, 28⟩, ⟨0x14, 6⟩, ⟨0x3f8, 10⟩, ⟨0x3f9, 10⟩, ⟨0xffa, 12⟩,
  ⟨0x1ff9, 13⟩, ⟨0x15, 6⟩, ⟨0xf8, 8⟩, ⟨0x7fa, 11⟩, ⟨0x3fa, 10⟩, ⟨0x3fb, 10⟩, ⟨0xf9, 8⟩,
  ⟨0x7fb, 11⟩, ⟨0xfa, 8⟩, ⟨0x16, 6⟩, ⟨0x17, 6⟩, ⟨0x18, 6⟩, ⟨0x0, 5⟩, ⟨0x1, 5⟩, ⟨0x2, 5⟩,
  ⟨0x19, 6⟩, ⟨0x1a, 6⟩, ⟨0x1b, 6⟩, ⟨0x1c, 6⟩, ⟨0x1d, 6⟩, ⟨0x1e, 6⟩, ⟨0x1f, 6⟩, ⟨0x5c, 7⟩,
  ⟨0xfb, 8⟩, ⟨0x7ffc, 15⟩, ⟨0x20, 6⟩, ⟨0xffb, 12⟩, ⟨0x3fc, 10⟩, ⟨0x1ffa, 13⟩, ⟨0x21, 6⟩,
  ⟨0x5d, 7⟩, ⟨0x5e, 7⟩, ⟨0x5f, 7⟩, ⟨0x60, 7⟩, ⟨0x61, 7⟩, ⟨0x62, 7⟩, ⟨0x63, 7⟩, ⟨0x64, 7⟩,
  ⟨0x65, 7⟩, ⟨0x66, 7⟩, ⟨0x67, 7⟩, ⟨0x68, 7⟩, ⟨0x69, 7⟩, ⟨0x6a, 7⟩, ⟨0x6b, 7⟩, ⟨0x6c, 7⟩,
  ⟨0x6d, 7⟩, ⟨0x6e, 7⟩, ⟨0x6f, 7⟩, ⟨0x70, 7⟩, ⟨0x71, 7⟩, ⟨0x72, 7⟩, ⟨0xfc, 8⟩, ⟨0x73, 7⟩,
  ⟨0xfd, 8⟩, ⟨0x1ffb, 13⟩, ⟨0x7fff0, 19⟩, ⟨0x1ffc, 13⟩, ⟨0x3ffc, 14⟩, ⟨0x22, 6⟩, ⟨0x7ffd, 15⟩,
  ⟨0x3, 5⟩, ⟨0x23, 6⟩, ⟨0x4, 5⟩, ⟨0x24, 6⟩, ⟨0x5, 5⟩, ⟨0x25, 6⟩, ⟨0x26, 6⟩, ⟨0x27, 6⟩, ⟨0x6, 5⟩,
  ⟨0x74, 7⟩, ⟨0x75, 7⟩, ⟨0x28, 6⟩, ⟨0x29, 6⟩, ⟨0x2a, 6⟩, ⟨0x7, 5⟩, ⟨0x2b, 6⟩, ⟨0x76, 7⟩,
  ⟨0x2c, 6⟩, ⟨0x8, 5⟩, ⟨0x9, 5⟩, ⟨0x2d, 6⟩, ⟨0x77, 7⟩, ⟨0x78, 7⟩, ⟨0x79, 7⟩, ⟨0x7a, 7⟩,
  ⟨0x7b, 7⟩, ⟨0x7ffe, 15⟩, ⟨0x7fc, 11⟩, ⟨0x3ffd, 14⟩, ⟨0x1ffd, 13⟩, ⟨0xffffffc, 28⟩,
  ⟨0xfffe6, 20⟩, ⟨0x3fffd2, 22⟩, ⟨0xfffe7, 20⟩, ⟨0xfffe8, 20⟩, ⟨0x3fffd3, 22⟩, ⟨0x3fffd4, 22⟩,
  ⟨0x3fffd5, 22⟩, ⟨0x7fffd9, 23⟩, ⟨0x3fffd6, 22⟩, ⟨0x7fffda, 23⟩, ⟨0x7fffdb, 23⟩, ⟨0x7fffdc, 23⟩,
  ⟨0x7fffdd, 23⟩, ⟨0x7fffde, 23⟩, ⟨0xffffeb, 24⟩, ⟨0x7fffdf, 23⟩, ⟨0xffffec, 24⟩, ⟨0xffffed, 24⟩,
  ⟨0x3fffd7, 22⟩, ⟨0x7fffe0, 23⟩, ⟨0xffffee, 24⟩, ⟨0x7fffe1, 23⟩, ⟨0x7fffe2, 23⟩, ⟨0x7fffe3, 23⟩,
  ⟨0x7fffe4, 23⟩, ⟨0x1fffdc, 21⟩, ⟨0x3fffd8, 22⟩, ⟨0x7fffe5, 23⟩, ⟨0x3fffd9, 22⟩, ⟨0x7fffe6, 23⟩,
  ⟨0x7fffe7, 23⟩, ⟨0xffffef, 24⟩, ⟨0x3fffda, 22⟩, ⟨0x1fffdd, 21⟩, ⟨0xfffe9, 20⟩, ⟨0x3fffdb, 22⟩,
  ⟨0x3fffdc, 22⟩, ⟨0x7fffe8, 23⟩, ⟨0x7fffe9, 23⟩, ⟨0x1fffde, 21⟩, ⟨0x7fffea, 23⟩, ⟨0x3fffdd, 22⟩,
  ⟨0x3fffde, 22⟩, ⟨0xfffff0, 24⟩, ⟨0x1fffdf, 21⟩, ⟨0x3fffdf, 22⟩, ⟨0x7fffeb, 23⟩, ⟨0x7fffec, 23⟩,
  ⟨0x1fffe0, 21⟩, ⟨0x1fffe1, 21⟩, ⟨0x3fffe0, 22⟩, ⟨0x1fffe2, 21⟩, ⟨0x7fffed, 23⟩, ⟨0x3fffe1, 22⟩,
  ⟨0x7fffee, 23⟩, ⟨0x7fffef, 23⟩, ⟨0xfffea, 20⟩, ⟨0x3fffe2, 22⟩, ⟨0x3fffe3, 22⟩, ⟨0x3fffe4, 22⟩,
  ⟨0x7ffff0, 23⟩, ⟨0x3fffe5, 22⟩, ⟨0x3fffe6, 22⟩, ⟨0x7ffff1, 23⟩, ⟨0x3ffffe0, 26⟩,
  ⟨0x3ffffe1, 26⟩, ⟨0xfffeb, 20⟩, ⟨0x7fff1, 19⟩, ⟨0x3fffe7, 22⟩, ⟨0x7ffff2, 23⟩, ⟨0x3fffe8, 22⟩,
  ⟨0x1ffffec, 25⟩, ⟨0x3ffffe2, 26⟩, ⟨0x3ffffe3, 26⟩, ⟨0x3ffffe4, 26⟩, ⟨0x7ffffde, 27⟩,
  ⟨0x7ffffdf, 27⟩, ⟨0x3ffffe5, 26⟩, ⟨0xfffff1, 24⟩, ⟨0x1ffffed, 25⟩, ⟨0x7fff2, 19⟩,
  ⟨0x1fffe3, 21⟩, ⟨0x3ffffe6, 26⟩, ⟨0x7ffffe0, 27⟩, ⟨0x7ffffe1, 27⟩, ⟨0x3ffffe7, 26⟩,
  ⟨0x7ffffe2, 27⟩, ⟨0xfffff2, 24⟩, ⟨0x1fffe4, 21⟩, ⟨0x1fffe5, 21⟩, ⟨0x3ffffe8, 26⟩,
  ⟨0x3ffffe9, 26⟩, ⟨0xffffffd, 28⟩, ⟨0x7ffffe3, 27⟩, ⟨0x7ffffe4, 27⟩, ⟨0x7ffffe5, 27⟩,
  ⟨0xfffec, 20⟩, ⟨0xfffff3, 24⟩, ⟨0xfffed, 20⟩, ⟨0x1fffe6, 21⟩, ⟨0x3fffe9, 22⟩, ⟨0x1fffe7, 21⟩,
  ⟨0x1fffe8, 21⟩, ⟨0x7ffff3, 23⟩, ⟨0x3fffea, 22⟩, ⟨0x3fffeb, 22⟩, ⟨0x1ffffee, 25⟩,
  ⟨0x1ffffef, 25⟩, ⟨0xfffff4, 24⟩, ⟨0xfffff5, 24⟩, ⟨0x3ffffea, 26⟩, ⟨0x7ffff4, 23⟩,
  ⟨0x3ffffeb, 26⟩, ⟨0x7ffffe6, 27⟩, ⟨0x3ffffec, 26⟩, ⟨0x3ffffed, 26⟩, ⟨0x7ffffe7, 27⟩,
  ⟨0x7ffffe8, 27⟩, ⟨0x7ffffe9, 27⟩, ⟨0x7ffffea, 27⟩, ⟨0x7ffffeb, 27⟩, ⟨0xffffffe, 28⟩,
  ⟨0x7ffffec, 27⟩, ⟨0x7ffffed, 27⟩, ⟨0x7ffffee, 27⟩, ⟨0x7ffffef, 27⟩, ⟨0x7fffff0, 27⟩,
  ⟨0x3ffffee, 26⟩, ⟨0x3fffffff, 30⟩
]

theorem length_huffmanTable : huffmanTable.length = 257 := by decide +kernel

variable (byte : UInt8)

/-- `HUFFMAN_TABLE[byte as usize]`. -/
def entryOf : HuffmanCode :=
  huffmanTable.get ⟨byte.toNat, by have := byte.toNat_lt; rw [length_huffmanTable]; omega⟩

/-- The bits of an entry, in the order they are sent. -/
def HuffmanCode.toBits (e : HuffmanCode) : List Bool := natBits e.bits e.code

/-- The codes of the table with their symbols, in table order. -/
def codes : List (List Bool × Nat) := huffmanTable.zipIdx.map fun e => (e.1.toBits, e.2)

/-- `build_decode_tree`, with `u16` node positions; `none` where the source panics with "Huffman
code collision". -/
def buildDecodeTree : Option (Array (Node Nat)) := ofCodes 16 codes

variable (data : List UInt8)

/-- `encoded_len`. -/
def encodedLen : Nat :=
  ((data.map fun byte => (entryOf byte).bits).sum + 7) / 8

/-! ## Encoding -/

/-- The locals of `encode`: the output, the `u64` accumulator and the number of pending bits. -/
structure EncodeState where
  /-- Bytes written so far. -/
  out : List UInt8
  /-- The accumulator. -/
  bits : Nat
  /-- How many low bits of the accumulator are still to be written. -/
  bitCount : Nat

/-- `while bit_count >= 8 { bit_count -= 8; out.push((bits >> bit_count) as u8) }`. -/
def emitBytes (bits : Nat) : Nat → List UInt8 → List UInt8 × Nat
  | bitCount + 8, out => emitBytes bits bitCount (out ++ [UInt8.ofNat (bits >>> bitCount)])
  | bitCount, out => (out, bitCount)

/-- One iteration of the loop of `encode`. -/
def encodeByte (st : EncodeState) (byte : UInt8) : EncodeState :=
  let entry := entryOf byte
  let bits := (st.bits <<< entry.bits) % 2 ^ 64 ||| entry.code
  let (out, bitCount) := emitBytes bits (st.bitCount + entry.bits) st.out
  { out, bits, bitCount }

/-- `encode`: the bytes it appends. -/
def encode : List UInt8 :=
  let st := data.foldl encodeByte { out := [], bits := 0, bitCount := 0 }
  if st.bitCount > 0 then
    let bits := (st.bits <<< (8 - st.bitCount)) % 2 ^ 64 ||| (2 ^ (8 - st.bitCount) - 1)
    st.out ++ [UInt8.ofNat bits]
  else st.out

/-! ## Decoding -/

/-- The locals of `decode`. -/
structure DecodeState where
  /-- The position of the current node in the tree. -/
  nodeIdx : Nat
  /-- Bits of the last byte read since the last symbol. -/
  paddingBits : Nat
  /-- Symbols decoded so far. -/
  out : List UInt8
deriving DecidableEq, Repr

/-- The body of the inner loop of `decode`, for one bit. -/
def decodeBit (tree : Array (Node Nat)) (isLastByte : Bool) (st : DecodeState) (bit : Bool) :
    Except Failure DecodeState :=
  match tree[st.nodeIdx]? with
  | some (.internal left right) =>
    let nodeIdx := pick bit left right
    if nodeIdx = 0 then .error (.error .compressionError)
    else
      match tree[nodeIdx]? with
      | some (.leaf sym) =>
        if sym = 256 then .error (.error .compressionError)
        else .ok { nodeIdx := 0, paddingBits := 0, out := st.out ++ [UInt8.ofNat sym] }
      | some (.internal _ _) =>
        .ok { st with nodeIdx, paddingBits := st.paddingBits + if isLastByte then 1 else 0 }
      | none => .error .panic
  | _ => .error .panic -- `unreachable!()`

/-- The outer loop of `decode`. -/
def decodeBytes (tree : Array (Node Nat)) : DecodeState → List UInt8 → Except Failure DecodeState
  | st, [] => .ok st
  | st, byte :: rest => do
    let st ← (natBits 8 byte.toNat).foldlM (decodeBit tree rest.isEmpty) st
    decodeBytes tree st rest

/-- The padding check at the end of `decode`: `n` more steps to the right. -/
def checkPadding (tree : Array (Node Nat)) : Nat → Nat → Except Failure Unit
  | 0, _ => .ok ()
  | n + 1, checkNode =>
    match tree[checkNode]? with
    | some (.internal _ right) =>
      if right = 0 then .error (.error .compressionError) else checkPadding tree n right
    | some (.leaf sym) => if sym ≠ 256 then .error (.error .compressionError) else .ok ()
    | none => .error .panic

/-- `decode`, given the tree; `decode_tree()` panics if the tree cannot be built. -/
def decodeWith : Option (Array (Node Nat)) → List UInt8 → Except Failure (List UInt8)
  | none, _ => .error .panic
  | some tree, data => do
    let st ← decodeBytes tree { nodeIdx := 0, paddingBits := 0, out := [] } data
    if st.nodeIdx ≠ 0 then
      if st.paddingBits > 7 then throw (.error .compressionError)
      checkPadding tree st.paddingBits st.nodeIdx
    return st.out

/-- `decode`. -/
def decode : List UInt8 → Except Failure (List UInt8)
  | [] => .ok []
  | byte :: rest => decodeWith buildDecodeTree (byte :: rest)

/-! ## The table

Two facts are computed from the table: every code is a non-empty number of the stated width, and no
code is a prefix of another one.  The second is a comparison of two shifted numbers for each pair,
by `natBits_prefix_iff`. -/

/-- Neither entry's code is a prefix of the other's: brought to the shorter length, they differ. -/
def apart (a b : HuffmanCode) : Bool :=
  !Nat.beq (a.code >>> (a.bits - b.bits)) (b.code >>> (b.bits - a.bits))

/-- The entries of a list are pairwise `apart`. -/
def allApart : List HuffmanCode → Bool
  | [] => true
  | e :: es => es.all (apart e) && allApart es

/-- An entry is a non-empty code of its width. -/
def HuffmanCode.valid (e : HuffmanCode) : Bool :=
  decide (0 < e.bits) && decide (e.code < 2 ^ e.bits)

theorem huffmanTable_valid : huffmanTable.all HuffmanCode.valid = true := by decide +kernel

theorem huffmanTable_allApart : allApart huffmanTable = true := by decide +kernel

theorem entry_valid {e : HuffmanCode} (h : e ∈ huffmanTable) :
    0 < e.bits ∧ e.code < 2 ^ e.bits := by
  have hv := all_eq_true.mp huffmanTable_valid e h
  simpa [HuffmanCode.valid] using hv

theorem ne_of_apart {a b : HuffmanCode} (h : apart a b = true) :
    a.code >>> (a.bits - b.bits) ≠ b.code >>> (b.bits - a.bits) := by
  intro heq
  simp only [apart, heq, Bool.not_eq_true'] at h
  exact absurd (Nat.beq_refl _) (by rw [h]; simp)

theorem not_prefix_of_ne {a b : HuffmanCode} (ha : a.code < 2 ^ a.bits) (hb : b.code < 2 ^ b.bits)
    (h : a.code >>> (a.bits - b.bits) ≠ b.code >>> (b.bits - a.bits)) :
    ¬ a.toBits <+: b.toBits := by
  intro hpre
  obtain ⟨hle, heq⟩ := (natBits_prefix_iff ha hb).mp hpre
  rw [Nat.sub_eq_zero_of_le hle, Nat.shiftRight_zero] at h
  exact h heq

theorem pairwise_of_allApart {l : List HuffmanCode} (h : allApart l = true) :
    l.Pairwise fun a b => apart a b = true := by
  induction l with
  | nil => exact List.Pairwise.nil
  | cons e es ih =>
    rw [allApart, Bool.and_eq_true, all_eq_true] at h
    exact List.Pairwise.cons h.1 (ih h.2)

/-- The code table is prefix-free. -/
theorem codes_prefixFree : PrefixFree codes := by
  unfold PrefixFree codes
  rw [pairwise_map]
  have hpw := pairwise_of_allApart huffmanTable_allApart
  have hzip : (huffmanTable.zipIdx.map Prod.fst).Pairwise fun a b => apart a b = true := by
    rwa [zipIdx_map_fst]
  rw [pairwise_map] at hzip
  refine hzip.imp_of_mem fun {a b} ha hb hab => ?_
  have hva := (entry_valid (fst_mem_of_mem_zipIdx ha)).2
  have hvb := (entry_valid (fst_mem_of_mem_zipIdx hb)).2
  have hne := ne_of_apart hab
  exact ⟨not_prefix_of_ne hva hvb hne, not_prefix_of_ne hvb hva hne.symm⟩

theorem mem_codes {c : List Bool × Nat} :
    c ∈ codes ↔ ∃ e, huffmanTable[c.2]? = some e ∧ c.1 = e.toBits := by
  simp only [codes, mem_map, Prod.exists, mem_zipIdx_iff_getElem?]
  constructor
  · rintro ⟨e, i, he, rfl⟩
    exact ⟨e, he, rfl⟩
  · rintro ⟨e, he, hc⟩
    exact ⟨e, c.2, he, by rw [← hc]⟩

theorem codes_ne_nil {c : List Bool × Nat} (hc : c ∈ codes) : c.1 ≠ [] := by
  obtain ⟨e, he, hc⟩ := mem_codes.mp hc
  have hpos := (entry_valid (mem_of_getElem? he)).1
  rw [hc]
  intro hnil
  have := congrArg length hnil
  simp only [HuffmanCode.toBits, length_natBits, length_nil] at this
  omega

theorem codes_sum : 1 + (codes.map (·.1.length)).sum ≤ 2 ^ 16 := by
  have hsum : codes.map (·.1.length) = huffmanTable.map HuffmanCode.bits := by
    simp only [codes, map_map]
    conv_rhs => rw [← zipIdx_map_fst 0 huffmanTable, map_map]
    exact map_congr_left fun e _ => length_natBits _ _
  rw [hsum]
  decide +kernel

/-- `build_decode_tree` does not panic, and the tree it builds holds exactly the table's codes. -/
theorem buildDecodeTree_inv :
    ∃ tree paths, buildDecodeTree = some tree ∧ Inv codes codes.reverse tree paths := by
  have hnil : codes ≠ [] := by
    rw [← length_pos_iff]
    simp [codes, length_huffmanTable]
  exact ofCodes_inv 16 codes_prefixFree (fun _ => codes_ne_nil) hnil codes_sum

-- from here on the tree is known by this lemma only, and is never evaluated
attribute [irreducible] buildDecodeTree

theorem entryOf_mem : entryOf byte ∈ huffmanTable := get_mem _ _

theorem entryOf_bits_le : (entryOf byte).bits ≤ 30 := by
  have hall : huffmanTable.all (fun e => decide (e.bits ≤ 30)) = true := by decide +kernel
  simpa using all_eq_true.mp hall _ (entryOf_mem byte)

/-! ## What the encoder writes -/

variable (bytes : List UInt8)

/-- The bits of a byte string, in the order they are sent. -/
def bytesBits : List Bool := bytes.flatMap fun b => natBits 8 b.toNat

theorem bytesBits_cons (b : UInt8) (bytes : List UInt8) :
    bytesBits (b :: bytes) = natBits 8 b.toNat ++ bytesBits bytes := rfl

@[simp] theorem bytesBits_append (a b : List UInt8) :
    bytesBits (a ++ b) = bytesBits a ++ bytesBits b := flatMap_append

theorem bytesBits_singleton (v : Nat) : bytesBits [UInt8.ofNat v] = natBits 8 v := by
  rw [bytesBits, flatMap_cons, flatMap_nil, append_nil, UInt8.toNat_ofNat']
  exact natBits_mod_two_pow v le_rfl

theorem length_bytesBits : (bytesBits bytes).length = 8 * bytes.length := by
  induction bytes with
  | nil => rfl
  | cons b bytes ih =>
    rw [bytesBits_cons, length_append, ih, length_natBits, length_cons]
    omega

/-- The concatenation of the codes of a byte string. -/
def codeBits : List Bool := data.flatMap fun byte => (entryOf byte).toBits

/-- Writing whole bytes out of the accumulator moves its pending bits to the output, and leaves
fewer than eight of them. -/
theorem emitBytes_spec (bits bitCount : Nat) (out : List UInt8) :
    bytesBits (emitBytes bits bitCount out).1 ++ natBits (emitBytes bits bitCount out).2 bits =
        bytesBits out ++ natBits bitCount bits ∧
      (emitBytes bits bitCount out).2 < 8 := by
  induction bitCount, out using emitBytes.induct bits with
  | case1 n out ih =>
    rw [emitBytes]
    refine ⟨?_, ih.2⟩
    have hsplit : natBits (n + 8) bits = natBits 8 (bits >>> n) ++ natBits n bits := by
      rw [Nat.add_comm, natBits_add]
    rw [ih.1, bytesBits_append, bytesBits_singleton, append_assoc, ← hsplit]
  | case2 n out h =>
    have hn : n < 8 := by
      by_contra hge
      exact h (n - 8) (by omega)
    rw [emitBytes]
    · exact ⟨rfl, hn⟩
    · exact h

/-- The accumulator holds the codes of what has been read, up to the bits already written. -/
structure EncodeInv (data : List UInt8) (st : EncodeState) : Prop where
  /-- Written and pending bits are the codes read so far. -/
  bits_eq : bytesBits st.out ++ natBits st.bitCount st.bits = codeBits data
  /-- Less than a byte is pending. -/
  pending : st.bitCount < 8

/-- The shifted accumulator is cut to 64 bits, which its pending bits fit. -/
theorem natBits_acc {n k v : Nat} (b : Nat) (hn : n + k ≤ 64) (hv : v < 2 ^ k) :
    natBits (n + k) ((b <<< k) % 2 ^ 64 ||| v) = natBits n b ++ natBits k v := by
  rw [← natBits_shiftLeft_or n b hv]
  refine natBits_congr fun i hi => ?_
  simp only [Nat.testBit_or, Nat.testBit_mod_two_pow, show i < 64 by omega, decide_true,
    Bool.true_and]

theorem encodeByte_inv {data : List UInt8} {st : EncodeState} (h : EncodeInv data st)
    (byte : UInt8) : EncodeInv (data ++ [byte]) (encodeByte st byte) := by
  have hfit := (entry_valid (entryOf_mem byte)).2
  have hlen := entryOf_bits_le byte
  have hpend := h.pending
  obtain ⟨hbits, hlt⟩ := emitBytes_spec
    ((st.bits <<< (entryOf byte).bits) % 2 ^ 64 ||| (entryOf byte).code)
    (st.bitCount + (entryOf byte).bits) st.out
  refine ⟨?_, hlt⟩
  -- fewer than 38 bits are pending
  rw [natBits_acc _ (by omega) hfit, ← append_assoc, h.bits_eq] at hbits
  simpa [encodeByte, codeBits, HuffmanCode.toBits] using hbits

theorem foldl_encodeByte_inv :
    EncodeInv data (data.foldl encodeByte { out := [], bits := 0, bitCount := 0 }) := by
  induction data using reverseRecOn with
  | nil => exact ⟨rfl, by decide⟩
  | append_singleton data byte ih =>
    rw [foldl_append]
    exact encodeByte_inv ih byte

/-- **What `encode` writes**: the codes of the bytes, and fewer than eight one bits of padding. -/
theorem bytesBits_encode :
    ∃ p, p < 8 ∧ bytesBits (encode data) = codeBits data ++ replicate p true := by
  have hinv := foldl_encodeByte_inv data
  unfold encode
  generalize data.foldl encodeByte { out := [], bits := 0, bitCount := 0 } = st at hinv
  obtain ⟨hbits, hpend⟩ := hinv
  by_cases hpos : st.bitCount > 0
  · refine ⟨8 - st.bitCount, by omega, ?_⟩
    have hpad : 2 ^ (8 - st.bitCount) - 1 < 2 ^ (8 - st.bitCount) :=
      Nat.sub_lt (Nat.two_pow_pos _) (by omega)
    have hlast := natBits_acc (n := st.bitCount) st.bits (by omega) hpad
    rw [natBits_two_pow_sub_one, show st.bitCount + (8 - st.bitCount) = 8 by omega] at hlast
    simp only [hpos, if_true]
    rw [bytesBits_append, bytesBits_singleton, hlast, ← append_assoc, hbits]
  · have h0 : st.bitCount = 0 := by omega
    rw [h0] at hbits
    refine ⟨0, by omega, ?_⟩
    simpa [hpos, natBits] using hbits

theorem length_codeBits :
    (codeBits data).length = (data.map fun byte => (entryOf byte).bits).sum := by
  simp [codeBits, length_flatMap, HuffmanCode.toBits]

/-- `encode` writes exactly `encoded_len` bytes. -/
theorem length_encode : (encode data).length = encodedLen data := by
  obtain ⟨p, hp, h⟩ := bytesBits_encode data
  have hlen := congrArg length h
  rw [length_bytesBits, length_append, length_replicate, length_codeBits] at hlen
  unfold encodedLen
  omega

/-! ## What the decoder reads

The two nested loops of `decode` are one fold over the bits, each tagged with whether it lies in
the last byte.  The tags only matter for the padding. -/

/-- The bits of a byte string, each with whether it is in the last byte. -/
def taggedBits : List UInt8 → List (Bool × Bool)
  | [] => []
  | byte :: rest => (natBits 8 byte.toNat).map (fun bit => (rest.isEmpty, bit)) ++ taggedBits rest

theorem taggedBits_map_snd : (taggedBits bytes).map Prod.snd = bytesBits bytes := by
  induction bytes with
  | nil => rfl
  | cons byte rest ih =>
    rw [taggedBits, map_append, map_map, ih, bytesBits_cons]
    congr 1

/-- Of the tagged bits, any eight or fewer at the end are in the last byte. -/
theorem taggedBits_suffix {bytes : List UInt8} {a b : List (Bool × Bool)}
    (h : taggedBits bytes = a ++ b) (hb : b.length ≤ 8) : ∀ t ∈ b, t.1 = true := by
  induction bytes generalizing a with
  | nil =>
    have : b = [] := (append_eq_nil_iff.mp h.symm).2
    simp [this]
  | cons byte rest ih =>
    rw [taggedBits] at h
    rcases rest with _ | ⟨byte', rest⟩
    · intro t ht
      have hmem : t ∈ a ++ b := mem_append_right a ht
      rw [← h, taggedBits, append_nil, mem_map] at hmem
      obtain ⟨bit, -, rfl⟩ := hmem
      rfl
    · -- at least eight bits follow the first byte, so `b` lies in the rest
      have hrest : 8 ≤ (taggedBits (byte' :: rest)).length := by
        rw [← length_map (f := Prod.snd), taggedBits_map_snd, length_bytesBits,
          length_cons]
        omega
      rcases append_eq_append_iff.mp h with ⟨c, rfl, hc⟩ | ⟨c, hc, rfl⟩
      · exact ih hc
      · obtain rfl : c = [] := by
          rw [length_append] at hb
          exact length_eq_zero_iff.mp (by omega)
        exact ih (a := []) rfl

theorem decodeBytes_eq_foldlM (tree : Array (Node Nat)) (st : DecodeState) (bytes : List UInt8) :
    decodeBytes tree st bytes =
      (taggedBits bytes).foldlM (fun st t => decodeBit tree t.1 st t.2) st := by
  induction bytes generalizing st with
  | nil => rfl
  | cons byte rest ih =>
    rw [decodeBytes, taggedBits, foldlM_append, foldlM_map]
    exact bind_congr fun st => ih st

variable {paths : List (List Bool)} (hinv : Inv codes codes.reverse tree paths)

section Code

variable {c : List Bool × Nat} (hc : c ∈ codes)

include hinv hc

/-- A bit on the way to a code, but not its last one, moves along the way and is counted. -/
theorem decodeBit_inner {s : DecodeState} {p rest : List Bool} {bit : Bool} (isLastByte : Bool)
    (hst : paths[s.nodeIdx]? = some p) (hp : c.1 = p ++ bit :: rest) (hrest : rest ≠ []) :
    ∃ nodeIdx, paths[nodeIdx]? = some (p ++ [bit]) ∧ decodeBit tree isLastByte s bit =
      .ok { s with nodeIdx, paddingBits := s.paddingBits + if isLastByte then 1 else 0 } := by
  obtain ⟨left, right, hn, h0, hchild⟩ := hinv.child_of_code codes_prefixFree hc hp hst
  obtain ⟨bit', rest, rfl⟩ := exists_cons_of_ne_nil hrest
  have hp' : c.1 = (p ++ [bit]) ++ bit' :: rest := by simp [hp]
  obtain ⟨l, r, hn', -⟩ := hinv.child_of_code codes_prefixFree hc hp' hchild
  exact ⟨_, hchild, by simp only [decodeBit, hn, h0, if_false, hn']⟩

/-- Bits that stay short of a code lead from the root along its way. -/
theorem foldlM_decodeBit_part {s : DecodeState} (hst : s.nodeIdx = 0)
    (tagged : List (Bool × Bool)) :
    ∀ rest, c.1 = tagged.map Prod.snd ++ rest → rest ≠ [] →
      ∃ nodeIdx, paths[nodeIdx]? = some (tagged.map Prod.snd) ∧
        tagged.foldlM (fun st t => decodeBit tree t.1 st t.2) s =
          .ok { s with nodeIdx, paddingBits := s.paddingBits + tagged.countP Prod.fst } := by
  induction tagged using reverseRecOn with
  | nil => exact fun _ _ _ => ⟨0, hinv.root, by rw [← hst]; rfl⟩
  | append_singleton tagged t ih =>
    intro rest hp hrest
    rw [map_append, append_assoc] at hp
    obtain ⟨i, hi, hrun⟩ := ih _ hp (by simp)
    obtain ⟨j, hj, hbit⟩ := decodeBit_inner hinv hc t.1 (s := { s with
      nodeIdx := i, paddingBits := s.paddingBits + tagged.countP Prod.fst }) hi hp hrest
    refine ⟨j, by rw [hj, map_append]; rfl, ?_⟩
    rw [foldlM_append, hrun, countP_append, ← Nat.add_assoc, countP_singleton]
    simp only [foldlM_cons, bind, Except.bind, hbit]
    rfl

/-- Reading a whole code from the root yields its symbol and returns to the root. -/
theorem foldlM_decodeBit_code {s : DecodeState} (hst : s.nodeIdx = 0) (hsym : c.2 ≠ 256)
    (tagged : List (Bool × Bool)) (htagged : tagged.map Prod.snd = c.1) :
    tagged.foldlM (fun st t => decodeBit tree t.1 st t.2) s =
      .ok { nodeIdx := 0, paddingBits := 0, out := s.out ++ [UInt8.ofNat c.2] } := by
  rcases eq_nil_or_concat' tagged with rfl | ⟨init, t, rfl⟩
  · exact absurd htagged.symm (codes_ne_nil hc)
  rw [map_append, map_singleton] at htagged
  obtain ⟨i, hi, hrun⟩ := foldlM_decodeBit_part hinv hc hst init _ htagged.symm (by simp)
  obtain ⟨left, right, hn, h0, hchild⟩ :=
    hinv.child_of_code codes_prefixFree hc htagged.symm hi
  have hleaf := hinv.leaf_of_code (mem_reverse.mpr hc) (htagged ▸ hchild)
  rw [foldlM_append, hrun]
  simp [decodeBit, hn, h0, hleaf, hsym, bind, Except.bind, pure, Except.pure]

end Code

/-- A byte's code is in the table, under the byte as its symbol. -/
theorem mem_codes_entryOf : ((entryOf byte).toBits, byte.toNat) ∈ codes := by
  refine mem_codes.mpr ⟨entryOf byte, ?_, rfl⟩
  rw [getElem?_eq_some_iff]
  exact ⟨_, rfl⟩

/-- A code of the table that is not the end of string is the code of its symbol as a byte. -/
theorem toBits_entryOf {q : List Bool} {sym : Nat} (h : (q, sym) ∈ codes) (hsym : sym ≠ 256) :
    (entryOf (UInt8.ofNat sym)).toBits = q := by
  obtain ⟨e, he, hq⟩ := mem_codes.mp h
  obtain ⟨e', he', hq'⟩ := mem_codes.mp (mem_codes_entryOf (UInt8.ofNat sym))
  dsimp only at he hq he' hq'
  have hlen : sym < huffmanTable.length := (List.getElem?_eq_some_iff.mp he).1
  rw [length_huffmanTable] at hlen
  rw [UInt8.toNat_ofNat', Nat.mod_eq_of_lt (by omega), he] at he'
  rw [hq', hq, Option.some.inj he']

include hinv in
/-- Reading the codes of a byte string from the root yields the byte string. -/
theorem foldlM_decodeBit_codeBits :
    ∀ (data : List UInt8) (tagged : List (Bool × Bool)) (out : List UInt8),
      tagged.map Prod.snd = codeBits data →
      tagged.foldlM (fun st t => decodeBit tree t.1 st t.2)
          { nodeIdx := 0, paddingBits := 0, out } =
        .ok { nodeIdx := 0, paddingBits := 0, out := out ++ data } := by
  intro data
  induction data with
  | nil =>
    intro tagged out h
    rw [map_eq_nil_iff.mp h, append_nil]
    rfl
  | cons byte data ih =>
    intro tagged out h
    rw [codeBits, flatMap_cons] at h
    obtain ⟨a, b, rfl, ha, hb⟩ := map_eq_append_iff.mp h
    have hlt := byte.toNat_lt
    rw [foldlM_append, foldlM_decodeBit_code hinv (mem_codes_entryOf byte) rfl (by dsimp; omega) a ha]
    simpa [bind, Except.bind] using ih b (out ++ [byte]) hb

/-! ### Padding -/

/-- The end-of-string code is thirty one bits. -/
theorem eos_mem_codes : (replicate 30 true, 256) ∈ codes := by
  refine mem_codes.mpr ⟨⟨0x3fffffff, 30⟩, by decide +kernel, ?_⟩
  exact (natBits_two_pow_sub_one 30).symm

include hinv in
/-- The padding check passes as long as the way to the end-of-string leaf is long enough. -/
theorem checkPadding_ok (n : Nat) : ∀ j node, paths[node]? = some (replicate j true) → j + n < 30 →
    checkPadding tree n node = .ok () := by
  induction n with
  | zero => exact fun _ _ _ _ => rfl
  | succ n ih =>
    intro j node hnode hlt
    have heos : replicate 30 true = replicate j true ++ true :: replicate (29 - j) true := by
      rw [← replicate_succ, ← replicate_add]
      congr 1
      omega
    obtain ⟨left, right, hn, h0, hchild⟩ :=
      hinv.child_of_code codes_prefixFree eos_mem_codes heos hnode
    have h0' : right ≠ 0 := h0
    simp only [checkPadding, hn, h0', if_false]
    exact ih (j + 1) right (by rw [replicate_succ']; exact hchild) (by omega)

/-- The early return for an empty input is what the loops would compute. -/
theorem decode_eq_decodeWith (h : buildDecodeTree = some tree) (data : List UInt8) :
    decode data = decodeWith (some tree) data := by
  cases data with
  | nil => rfl
  | cons byte rest => rw [decode, h]

/-- **Round trip.**  `decode` gives back every byte string from its encoding. -/
theorem decode_encode : decode (encode data) = .ok data := by
  obtain ⟨tree, paths, hbuild, hinv⟩ := buildDecodeTree_inv
  obtain ⟨p, hp, hbits⟩ := bytesBits_encode data
  -- split the bits read into the codes and the padding, which lies in the last byte
  rw [← taggedBits_map_snd] at hbits
  obtain ⟨a, b, hab, ha, hb⟩ := map_eq_append_iff.mp hbits
  have hblen : b.length = p := by simpa using congrArg length hb
  have hcount : b.countP Prod.fst = p := by
    rw [countP_eq_length.mpr (taggedBits_suffix hab (by omega)), hblen]
  have heos : replicate 30 true = b.map Prod.snd ++ replicate (30 - p) true := by
    rw [hb, ← replicate_add]
    congr 1
    omega
  obtain ⟨node, hnode, hpad⟩ := foldlM_decodeBit_part hinv eos_mem_codes
    (s := { nodeIdx := 0, paddingBits := 0, out := data }) rfl b _ heos
    (by rw [Ne, replicate_eq_nil_iff]; omega)
  have hcheck := checkPadding_ok hinv p p node (by rw [hnode, hb]) (by omega)
  rw [decode_eq_decodeWith hbuild]
  simp only [decodeWith, decodeBytes_eq_foldlM, hab, foldlM_append,
    foldlM_decodeBit_codeBits hinv data a [] ha, nil_append]
  rw [hcount] at hpad
  by_cases hroot : node = 0
  · simp [hpad, hroot, bind, Except.bind, pure, Except.pure]
  · simp [hpad, hroot, hcheck, show ¬ 7 < p by omega, bind, Except.bind, pure, Except.pure]

/-! ## What the decoder accepts

The node at which the decoder stands is named by the bits since the last symbol, so what it has
read is always the codes of what it has written followed by these bits. -/

/-- The bits `read` so far are the codes of the output and a rest that leads to the current node;
`padding_bits` counts the bits of the rest that are in the last byte. -/
def Reads (paths : List (List Bool)) (read : List (Bool × Bool)) (st : DecodeState) : Prop :=
  ∃ whole part, read = whole ++ part ∧ whole.map Prod.snd = codeBits st.out ∧
    paths[st.nodeIdx]? = some (part.map Prod.snd) ∧ st.paddingBits = part.countP Prod.fst

variable {st st' : DecodeState}

include hinv

theorem Reads.bit {read : List (Bool × Bool)}
    (h : Reads paths read st) {t : Bool × Bool} (hst : decodeBit tree t.1 st t.2 = .ok st') :
    Reads paths (read ++ [t]) st' := by
  obtain ⟨whole, part, rfl, hwhole, hpath, hpad⟩ := h
  rw [decodeBit] at hst
  split at hst
  · rename_i left right hnode
    dsimp only at hst
    split at hst
    · cases hst
    rename_i hpick
    have hchild : paths[pick t.2 left right]? = some ((part ++ [t]).map Prod.snd) := by
      rcases hinv.child _ _ left right t.2 hpath hnode with ⟨h0, -⟩ | ⟨-, hchild⟩
      · exact absurd h0 hpick
      · rw [hchild, map_append, map_singleton]
    split at hst
    · rename_i sym hleaf
      split at hst
      · cases hst
      rename_i hsym
      obtain rfl := Except.ok.inj hst
      -- a symbol is complete: the rest was its code
      have hcode := toBits_entryOf (mem_reverse.mp (hinv.leaf_done _ _ sym hchild hleaf)) hsym
      refine ⟨whole ++ (part ++ [t]), [], by simp, ?_, hinv.root, rfl⟩
      rw [map_append, hwhole, ← hcode]
      simp [codeBits]
    · obtain rfl := Except.ok.inj hst
      refine ⟨whole, part ++ [t], by simp, hwhole, hchild, ?_⟩
      rw [countP_append, hpad]
      simp [countP_cons]
    · cases hst
  · cases hst

theorem Reads.run (tagged : List (Bool × Bool)) :
    ∀ {read : List (Bool × Bool)} {st : DecodeState}, Reads paths read st →
      tagged.foldlM (fun st t => decodeBit tree t.1 st t.2) st = .ok st' →
      Reads paths (read ++ tagged) st' := by
  induction tagged with
  | nil =>
    intro read st h hst
    obtain rfl := Except.ok.inj hst
    rwa [append_nil]
  | cons t tagged ih =>
    intro read st h hst
    rw [foldlM_cons] at hst
    rcases hbit : decodeBit tree t.1 st t.2 with e | st₁
    · rw [hbit] at hst
      cases hst
    · rw [hbit] at hst
      simpa using ih (h.bit hinv hbit) hst

omit hinv in
theorem decode_sound {data s : List UInt8} (h : decode data = .ok s) :
    ∃ pad : List Bool, pad.length < 8 ∧ bytesBits data = codeBits s ++ pad := by
  obtain ⟨tree, paths, hbuild, hinv⟩ := buildDecodeTree_inv
  rw [decode_eq_decodeWith hbuild] at h
  simp only [decodeWith, decodeBytes_eq_foldlM] at h
  rcases hst : (taggedBits data).foldlM (fun st t => decodeBit tree t.1 st t.2)
    { nodeIdx := 0, paddingBits := 0, out := [] } with e | st
  · rw [hst] at h
    cases h
  rw [hst] at h
  obtain ⟨whole, part, hread, hwhole, hpath, hpad⟩ :=
    Reads.run hinv _ ⟨[], [], rfl, rfl, hinv.root, rfl⟩ hst
  have hread' : bytesBits data = codeBits st.out ++ part.map Prod.snd := by
    rw [← taggedBits_map_snd, ← hwhole, ← map_append]
    exact congrArg _ hread
  by_cases hroot : st.nodeIdx = 0
  · -- at the root nothing is pending
    obtain rfl : st.out = s := by simpa [hroot, bind, Except.bind, pure, Except.pure] using h
    rw [hroot, hinv.root] at hpath
    exact ⟨part.map Prod.snd, by simp [← Option.some.inj hpath], hread'⟩
  · by_cases hmany : st.paddingBits > 7
    · simp [hroot, hmany, bind, Except.bind, throw, throwThe, MonadExceptOf.throw] at h
    · obtain rfl : st.out = s := by
        rcases hcheck : checkPadding tree st.paddingBits st.nodeIdx with e | u
        · simp [hroot, hmany, hcheck, bind, Except.bind] at h
        · simpa [hroot, hmany, hcheck, bind, Except.bind, pure, Except.pure] using h
      refine ⟨part.map Prod.snd, ?_, hread'⟩
      rw [length_map]
      by_contra hlong
      -- the last eight of the pending bits are in the last byte, and were counted
      have hsuffix := taggedBits_suffix (a := whole ++ part.take (part.length - 8))
        (b := part.drop (part.length - 8)) (by simpa using hread) (by rw [length_drop]; omega)
      have hcount : 8 ≤ part.countP Prod.fst :=
        calc 8 = (part.drop (part.length - 8)).length := by rw [length_drop]; omega
          _ = (part.drop (part.length - 8)).countP Prod.fst := (countP_eq_length.mpr hsuffix).symm
          _ ≤ part.countP Prod.fst := (drop_sublist _ _).countP_le
      omega

omit hinv in
/-- **Decoding expands little**, since a byte takes five bits at least. -/
theorem decode_expands (data : List UInt8) :
    5 * ((decode data).toOption.getD []).length ≤ 8 * data.length := by
  have hfive : ∀ e ∈ huffmanTable, 5 ≤ e.bits := by decide +kernel
  have hcodes : ∀ s : List UInt8, 5 * s.length ≤ (codeBits s).length := by
    intro s
    induction s with
    | nil => rfl
    | cons byte s ih =>
      have := hfive _ (entryOf_mem byte)
      simp [length_codeBits] at ih ⊢
      omega
  cases hs : decode data with
  | error e => exact Nat.zero_le _
  | ok s =>
    obtain ⟨pad, -, hbits⟩ := decode_sound hs
    have hlen := congrArg length hbits
    rw [length_bytesBits, length_append] at hlen
    exact (hcodes s).trans (by omega)

end Ringline.H2.Huffman
