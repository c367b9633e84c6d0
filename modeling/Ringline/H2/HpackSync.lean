import Ringline.H2.HpackReference

/-!
# The HPACK encoder and decoder stay in step

Encoder and decoder each keep a dynamic table, and every index on the wire means the entry that
is at that position *now*: one eviction that happens on one side only and every later index names
something else.  This file shows that it does not happen.  What the encoder writes means its headers
for a reader with the same table (`decode_encode`), and the decoder reads what a block means
(`decoder_refines`); after that the tables are the same again.  `Codec` is the pair of them on one
connection, and `InSync` is the invariant a run keeps (`Codec.exchange_inSync`).

The one limit is the prefix integer of a size update: the decoder reads sizes up to `2 ^ 63 + 30`
(`maxSignalledSize`), so an encoder told to use a larger table emits a block that the decoder
refuses.
-/

set_option autoImplicit false

namespace Ringline.H2

open List

/-- A list of headers that can be passed to `Encoder::encode` for one block: at most
`MAX_HEADER_FIELDS` of them, each made of two `Vec`s. -/
structure HeaderBlock where
  fields : List HeaderField
  count : fields.length ≤ maxHeaderFields
  fits : ∀ f ∈ fields, f.Fits

/-- What the owner of the encoder does: queue a table size, or encode a block, whose bytes go to
the decoder. -/
inductive Step where
  | updateMaxTableSize (n : UInt64)
  | encode (block : HeaderBlock)

/-- An encoder, and the decoder its blocks are fed to. -/
structure Codec where
  encoder : Encoder
  decoder : Decoder

/-- One block that went over: what was encoded, what `Decoder::decode` returned, and the pair
afterwards. -/
structure Exchange where
  sent : List HeaderField
  result : Except Failure (List HeaderField)
  after : Codec

namespace Codec

/-- A pair created with the same table size. -/
def new (tableSize : UInt64) : Codec where
  encoder := .new tableSize.toNat
  decoder := .new tableSize.toNat

/-- Encode a block and decode its bytes. -/
def exchange (c : Codec) (headers : List HeaderField) : Exchange :=
  let (encoder, bytes) := c.encoder.encode headers
  let (decoder, result) := c.decoder.decode bytes
  { sent := headers, result, after := { encoder, decoder } }

/-- The blocks that went over in a run. -/
def run (c : Codec) : List Step → List Exchange
  | [] => []
  | .updateMaxTableSize n :: steps =>
    run { c with encoder := c.encoder.updateMaxTableSize n.toNat } steps
  | .encode block :: steps =>
    let x := c.exchange block.fields
    x :: run x.after steps

/-- The invariant of a run: the two tables are equal and within the decoder's limit, and every
size queued in the encoder is one that the decoder will accept. -/
structure InSync (c : Codec) : Prop where
  tables : c.encoder.dynamicTable.reference = c.decoder.dynamicTable.reference
  admissible : Admissible c.decoder.maxTableSize c.encoder c.decoder.dynamicTable.reference

theorem new_inSync (tableSize : UInt64) : (new tableSize).InSync where
  tables := rfl
  admissible := ⟨nofun, nofun, fun _ => le_rfl, tableSize.toNat_lt⟩

theorem updateMaxTableSize_inSync {c : Codec} (h : c.InSync) {n : Nat}
    (hlimit : n ≤ c.decoder.maxTableSize) (hsig : n ≤ maxSignalledSize) :
    InSync { c with encoder := c.encoder.updateMaxTableSize n } where
  tables := h.tables
  admissible := h.admissible.updateMaxTableSize hlimit hsig

/-- **One block.**  A pair in sync exchanges a block without loss and is in sync afterwards. -/
theorem exchange_inSync {c : Codec} (h : c.InSync) (block : HeaderBlock) :
    (c.exchange block.fields).result = .ok block.fields ∧
      (c.exchange block.fields).after.InSync := by
  obtain ⟨r, hdecode, htables, hadmissible⟩ :=
    decode_encode Reference.Table.tracks_eq h.tables h.admissible block.fits
  obtain ⟨hresult, htable⟩ := decoder_refines le_rfl hdecode block.count
  refine ⟨hresult, htables.trans htable.symm, ?_⟩
  rw [← htable] at hadmissible
  exact hadmissible

/-- A run from a pair in sync exchanges every block without loss, and leaves the pair in sync. -/
theorem run_inSync (steps : List Step) :
    ∀ c : Codec, c.InSync →
      (∀ n, .updateMaxTableSize n ∈ steps →
        n.toNat ≤ c.decoder.maxTableSize ∧ n.toNat ≤ maxSignalledSize) →
      ∀ x ∈ c.run steps, x.result = .ok x.sent ∧ x.after.InSync := by
  induction steps with
  | nil => exact fun _ _ _ x hx => absurd hx not_mem_nil
  | cons step steps ih =>
    intro c hc hsizes x hx
    cases step with
    | updateMaxTableSize n =>
      obtain ⟨hlimit, hsig⟩ := hsizes n mem_cons_self
      exact ih _ (updateMaxTableSize_inSync hc hlimit hsig)
        (fun m hm => hsizes m (mem_cons_of_mem _ hm)) x hx
    | encode block =>
      obtain ⟨hresult, hafter⟩ := exchange_inSync hc block
      rcases mem_cons.mp hx with rfl | hx
      · exact ⟨hresult, hafter⟩
      · exact ih _ hafter (fun m hm => hsizes m (mem_cons_of_mem _ hm)) x hx

end Codec

/-- **Encoder and decoder stay in step.**  In every run of a pair created with the same table size,
whose size updates are within the decoder's limit and small enough to be signalled, every block
decodes to the headers that were encoded, and after it the two dynamic tables have the same entries
in the same order and the same maximum size. -/
theorem hpack_runs_in_step (tableSize : UInt64) (steps : List Step)
    (hsizes : ∀ n, .updateMaxTableSize n ∈ steps → n ≤ tableSize ∧ n.toNat ≤ maxSignalledSize) :
    ∀ x ∈ (Codec.new tableSize).run steps,
      x.result = .ok x.sent ∧
      x.after.encoder.dynamicTable.entries = x.after.decoder.dynamicTable.entries ∧
      x.after.encoder.dynamicTable.maxSize = x.after.decoder.dynamicTable.maxSize := by
  intro x hx
  obtain ⟨hresult, hsync⟩ := Codec.run_inSync steps _ (Codec.new_inSync tableSize)
    (fun n hn => ⟨UInt64.le_iff_toNat_le.mp (hsizes n hn).1, (hsizes n hn).2⟩) x hx
  exact ⟨hresult, congrArg Reference.Table.entries hsync.tables,
    congrArg Reference.Table.maxSize hsync.tables⟩

/-- A header block with one custom field. -/
def exampleBlock : HeaderBlock where
  fields := [{ name := bytesOf "x-trace", value := bytesOf "1" }]
  count := by decide
  fits := by
    intro f hf
    obtain rfl := mem_singleton.mp hf
    exact ⟨by decide, by decide⟩

/-- The table is dropped and restored before two blocks. -/
theorem hpack_runs_in_step_resized :
    ∃ x ∈ (Codec.new 4096).run [.updateMaxTableSize 0, .updateMaxTableSize 4096,
        .encode exampleBlock, .encode exampleBlock],
      x.result = .ok x.sent ∧
      x.after.encoder.dynamicTable.entries = x.after.decoder.dynamicTable.entries ∧
      x.after.encoder.dynamicTable.maxSize = x.after.decoder.dynamicTable.maxSize := by
  refine ⟨_, mem_cons_self, hpack_runs_in_step 4096 [.updateMaxTableSize 0,
    .updateMaxTableSize 4096, .encode exampleBlock, .encode exampleBlock] ?_ _ mem_cons_self⟩
  intro n hn
  simp only [mem_cons, reduceCtorEq, Step.updateMaxTableSize.injEq, not_mem_nil, or_false]
    at hn
  rcases hn with rfl | rfl <;> decide

/-- A size that is within the decoder's limit but takes a tenth group: the decoder's overflow guard
refuses the block, and nothing is decoded. -/
theorem hpack_size_update_refused :
    ∃ (tableSize : UInt64) (steps : List Step),
      (∀ n, .updateMaxTableSize n ∈ steps → n ≤ tableSize) ∧
      ∃ x ∈ (Codec.new tableSize).run steps, x.result = .error (.error .compressionError) := by
  refine ⟨0xffffffffffffffff, [.updateMaxTableSize 0xffffffffffffffff,
    .encode { fields := [], count := by decide, fits := by simp }], ?_, ?_⟩
  · simp
  · exact ⟨_, mem_singleton.mpr rfl, by rfl⟩

end Ringline.H2
