import Ringline.H2.Frame
import Mathlib.Data.Nat.Bitwise

/-!
# HTTP/2 frames there and back

`Frame::encode` against `decode_frame`: what is written can be read, whatever follows it, and nothing
is made of a frame before its last byte is there.

The decoder refuses what RFC 7540 tells it to refuse, and the encoder writes that as well: a frame of a
stream on stream 0, a window update of 0, settings out of their bounds.  It does not see the settings of
an acknowledgement, which are not written, nor that a frame of a known type was meant to be unknown.
`Frame.Proper` are the frames without any of that; they are the ones that come back.
-/

set_option autoImplicit false

namespace Ringline.H2

open FrameHeader Settings List

variable {f : Frame} {m : Nat}

/-! ## Numbers -/

theorem mask31_of_lt {n : Nat} (h : n < 2 ^ 31) : mask31 n = n :=
  (Nat.and_two_pow_sub_one_eq_mod n 31).trans (Nat.mod_eq_of_lt h)

theorem fromU32_toU32 (code : ErrorCode) : ErrorCode.fromU32 code.toU32 = code := by
  cases code <;> rfl

theorem toU32_lt (code : ErrorCode) : code.toU32 < 2 ^ 32 := by
  cases code <;> decide

theorem decodeFrameHeader_encodeFrameHeader {len sid : Nat} (hlen : len < 2 ^ 24) (hsid : sid < 2 ^ 31)
    (t flags : UInt8) (rest : List UInt8) :
    decodeFrameHeader (encodeFrameHeader len t flags sid ++ rest) = some ⟨len, t, flags, sid⟩ := by
  have htop : len >>> 16 % 256 = len >>> 16 :=
    Nat.mod_eq_of_lt (by rw [Nat.shiftRight_eq_div_pow]; omega)
  have hlast : len >>> 8 <<< 8 ||| len % 256 = len := shiftRight_join len 0
  have hjoin : len >>> 16 <<< 16 ||| (len >>> 8 % 256) <<< 8 ||| len % 256 = len := by
    rw [show 16 = 8 + 8 from rfl, Nat.shiftLeft_add, ← Nat.shiftLeft_or_distrib, shiftRight_join len 8,
      hlast]
  have hbe := be32_be32Bytes (hsid.trans (by decide))
  simp [encodeFrameHeader, be32Bytes, decodeFrameHeader, mask31_of_lt hsid, hbe, htop, hjoin]

/-! ## Settings -/

/-- Settings in their bounds, with the limit that the decoder fills in when it is missing. -/
structure Settings.Proper (s : Settings) : Prop where
  headerTableSize : s.headerTableSize ≤ maxPeerHeaderTableSize
  maxConcurrentStreams : ∀ n ∈ s.maxConcurrentStreams, n < 2 ^ 32
  initialWindowSize : s.initialWindowSize ≤ 0x7fffffff
  maxFrameSize : 16384 ≤ s.maxFrameSize ∧ s.maxFrameSize ≤ 16777215
  maxHeaderListSize : ∃ n < 2 ^ 32, s.maxHeaderListSize = some n

theorem params_encodeSetting {id value : Nat} (hid : id < 2 ^ 8) (hvalue : value < 2 ^ 32)
    (rest : List UInt8) :
    params (encodeSetting id value ++ rest) = (id, value) :: params rest := by
  have hhigh : id >>> 8 = 0 := by rw [Nat.shiftRight_eq_div_pow]; omega
  simp [encodeSetting, be32Bytes, params, be32_be32Bytes hvalue, hhigh]
  omega

theorem Settings.Proper.decode_encode {s : Settings} (h : s.Proper) : decode s.encode = .ok s := by
  obtain ⟨size, push, streams, window, frame, list⟩ := s
  obtain ⟨hsize, hstreams, hwindow, hframe, n, hn, rfl⟩ := h
  rw [maxPeerHeaderTableSize] at hsize
  dsimp only at hsize hstreams hwindow hframe hn
  have hwindow' : ¬ 0x7fffffff < window := Nat.not_lt.mpr hwindow
  have hframe' : ¬ (frame < 16384 ∨ 16777215 < frame) := by omega
  have hlen : ∀ id value, (encodeSetting id value).length = 6 := fun _ _ => rfl
  have hpush : (if push then 1 else 0) < 2 ^ 32 := by split <;> decide
  have hsize' := params_encodeSetting (by decide : 0x1 < 2 ^ 8) (show size < 2 ^ 32 by omega)
  have hpush' := params_encodeSetting (by decide : 0x2 < 2 ^ 8) hpush
  have hwin := params_encodeSetting (by decide : 0x4 < 2 ^ 8) (show window < 2 ^ 32 by omega)
  have hfr := params_encodeSetting (by decide : 0x5 < 2 ^ 8) (show frame < 2 ^ 32 by omega)
  have hlist' := params_encodeSetting (by decide : 0x6 < 2 ^ 8) hn []
  rw [append_nil] at hlist'
  cases streams with
  | none =>
    rw [decode, if_neg (by simp [encode, hlen])]
    simp only [encode, append_assoc, nil_append, hsize', hpush', hwin, hfr, hlist']
    cases push <;> simp [applyAll, apply, maxPeerHeaderTableSize, params, hsize, hwindow', hframe']
  | some k =>
    have hstreams' := params_encodeSetting (by decide : 0x3 < 2 ^ 8) (hstreams k rfl)
    rw [decode, if_neg (by simp [encode, hlen])]
    simp only [encode, append_assoc, hsize', hpush', hstreams', hwin, hfr, hlist']
    cases push <;> simp [applyAll, apply, maxPeerHeaderTableSize, params, hsize, hwindow', hframe']

/-! ## Frames -/

/-- An identifier of a stream. -/
def StreamId (sid : Nat) : Prop := 0 < sid ∧ sid < 2 ^ 31

/-- The frames the decoder takes for what they are. -/
def Frame.Proper : Frame → Prop
  | data sid _ _ | rstStream sid _ | continuation sid _ _ => StreamId sid
  | headers sid _ _ _ p => StreamId sid ∧ ∀ q ∈ p, q.dependency < 2 ^ 31
  | priority sid p => StreamId sid ∧ p.dependency < 2 ^ 31
  | settings true s => s = {}
  | settings false s => s.Proper
  | pushPromise sid psid _ _ => StreamId sid ∧ psid < 2 ^ 31
  | ping _ opaqueData => opaqueData.length = 8
  | goAway lsid _ _ => lsid < 2 ^ 31
  | windowUpdate sid inc => sid < 2 ^ 31 ∧ 0 < inc ∧ inc < 2 ^ 31
  | unknown t _ sid _ => 0x9 < t ∧ sid < 2 ^ 31

theorem takePriority_encode {p : Priority} (h : p.dependency < 2 ^ 31) (rest : List UInt8) :
    takePriority (p.encode ++ rest) = .ok (p, rest) := by
  obtain ⟨exclusive, dep, weight⟩ := p
  have hbit : ∀ n, (n &&& 0x80000000 ≠ 0) = (n.testBit 31 = true) := fun n => by
    rw [show 0x80000000 = 2 ^ 31 from rfl, Nat.and_two_pow]
    cases n.testBit 31 <;> simp
  have hclear := Nat.testBit_lt_two_pow h
  cases exclusive with
  | false =>
    have hbe := be32_be32Bytes (Nat.lt_trans h (by decide))
    simp [Priority.encode, be32Bytes, takePriority, hbe, mask31_of_lt h, hbit, hclear]
  | true =>
    have hbe := be32_be32Bytes
      (Nat.or_lt_two_pow (Nat.lt_trans h (by decide)) (by decide : 0x80000000 < 2 ^ 32))
    have hmask : mask31 (dep ||| 0x80000000) = dep := by
      refine (Nat.and_two_pow_sub_one_eq_mod _ 31).trans ?_
      rw [Nat.or_mod_two_pow, Nat.mod_eq_of_lt h]
      exact Nat.or_zero dep
    have htop : (dep ||| 0x80000000).testBit 31 = true := by
      rw [Nat.testBit_or, show Nat.testBit 0x80000000 31 = true by decide, Bool.or_true]
    simp only [Priority.encode, be32Bytes, if_true, cons_append, nil_append, takePriority,
      hbe, hmask, hbit, htop, decide_true]

theorem Frame.Proper.decodePayload_payload (h : f.Proper) :
    decodePayload ⟨f.payload.length, f.parts.1, f.parts.2.1, f.parts.2.2.1⟩ f.payload = .ok f := by
  cases f with
  | data sid payload es =>
    cases es <;> simp +decide [decodePayload, decodeData, Frame.parts, Frame.payload, Frame.flag,
      stripPadding, endStream, h.1.ne']
  | headers sid encoded es eh p =>
    obtain ⟨hsid, hp⟩ := h
    cases p with
    | none =>
      cases es <;> cases eh <;> simp +decide [decodePayload, decodeHeaders, Frame.parts,
        Frame.payload, Frame.flag, stripPadding, endStream, endHeaders,
        hsid.1.ne']
    | some p =>
      have hpri := takePriority_encode (hp p rfl) encoded
      cases es <;> cases eh <;> simp +decide [decodePayload, decodeHeaders, Frame.parts,
        Frame.payload, Frame.flag, stripPadding, endStream, endHeaders,
        hsid.1.ne', hpri]
  | priority sid p =>
    have hpri := takePriority_encode h.2 []
    rw [append_nil] at hpri
    have hlen : p.encode.length = 5 := rfl
    simp [decodePayload, decodePriority, Frame.parts, Frame.payload, h.1.1.ne', hlen, hpri]
  | rstStream sid code =>
    simp [decodePayload, decodeRstStream, Frame.payload, Frame.parts, be32Bytes, h.1.ne',
      be32_be32Bytes (toU32_lt code), fromU32_toU32]
  | settings ack s =>
    cases ack with
    | true =>
      cases (h : s = {})
      rfl
    | false =>
      have hdecode := Settings.Proper.decode_encode h
      have hsix : s.encode.length % 6 = 0 := by
        by_contra hne
        rw [decode, if_pos hne] at hdecode
        cases hdecode
      simp +decide [decodePayload, decodeSettings, Frame.payload, Frame.parts, Frame.flag, hsix,
        hdecode]
  | pushPromise sid psid encoded eh =>
    have hbe := be32_be32Bytes (h.2.trans (by decide))
    cases eh <;> simp +decide [decodePayload, decodePushPromise, Frame.payload, Frame.parts,
      be32Bytes, Frame.flag, stripPadding, mask31_of_lt h.2, hbe, h.1.1.ne', endHeaders]
  | ping ack d =>
    have hlen : d.length = 8 := h
    cases ack <;> simp +decide [decodePayload, decodePing, Frame.payload, Frame.parts, Frame.flag, hlen]
  | goAway lsid code d =>
    have hbe := be32_be32Bytes (Nat.lt_trans h (by decide))
    simp [decodePayload, decodeGoAway, Frame.payload, Frame.parts, be32Bytes, mask31_of_lt h, hbe,
      be32_be32Bytes (toU32_lt code), fromU32_toU32]
  | windowUpdate sid inc =>
    obtain ⟨hsid, hpos, hinc⟩ := h
    have hbe := be32_be32Bytes (hinc.trans (by decide))
    simp [decodePayload, decodeWindowUpdate, Frame.payload, Frame.parts, be32Bytes, mask31_of_lt hinc,
      hbe, hpos.ne']
  | continuation sid encoded eh =>
    cases eh <;> simp +decide [decodePayload, decodeContinuationFrame, Frame.payload, Frame.parts,
      Frame.flag, h.1.ne', endHeaders]
  | unknown t flags sid payload =>
    have hne : ∀ n : UInt8, n ≤ 0x9 → t ≠ n := fun n hn ht => by
      subst ht
      exact absurd h.1 (UInt8.not_lt.mpr hn)
    simp +decide [decodePayload, Frame.payload, Frame.parts, hne]

theorem Frame.Proper.decodeFrameHeader_encode (h : f.Proper) (hlen : f.payload.length < 2 ^ 24)
    (rest : List UInt8) :
    decodeFrameHeader (f.encode ++ rest) =
      some ⟨f.payload.length, f.parts.1, f.parts.2.1, f.parts.2.2.1⟩ := by
  have hsid : f.parts.2.2.1 < 2 ^ 31 := by
    cases f with
    | data | rstStream | continuation => exact h.2
    | headers sid _ _ _ p => cases p <;> exact h.1.2
    | priority | pushPromise => exact h.1.2
    | windowUpdate => exact h.1
    | unknown => exact h.2
    | settings | ping | goAway => exact Nat.two_pow_pos 31
  rw [Frame.encode, append_assoc]
  exact decodeFrameHeader_encodeFrameHeader hlen hsid _ _ _

/-- **Round trip.**  A proper frame that is not too long for its header or for the receiver is read back,
whatever follows it, and every cut of it asks for more. -/
theorem decodeFrame_encode_proper (h : f.Proper) (hlen : f.payload.length < 2 ^ 24)
    (hmax : f.payload.length ≤ m) :
    (∀ rest, decodeFrame (f.encode ++ rest) m = .ok (some (f, f.encode.length))) ∧
      ∀ n < f.encode.length, decodeFrame (f.encode.take n) m = .ok none := by
  have hsize : f.encode.length = 9 + f.payload.length := by
    rw [Frame.encode, length_append]
    rfl
  refine ⟨fun rest => ?_, fun n hn => ?_⟩
  · have hframed : Framed (f.encode ++ rest) m f f.encode.length _ :=
      ⟨h.decodeFrameHeader_encode hlen rest, hsize, by simp, hmax, ?_⟩
    · exact hframed.decodeFrame_eq
    · rw [take_left]
      exact h.decodePayload_payload
  · rw [decodeFrame]
    rcases hcut : decodeFrameHeader (f.encode.take n) with _ | head
    · rfl
    · have hwhole := decodeFrameHeader_append hcut (f.encode.drop n)
      have hheader := h.decodeFrameHeader_encode hlen []
      rw [append_nil] at hheader
      rw [take_append_drop, hheader] at hwhole
      cases hwhole
      exact if_pos (by simp; omega)

/-- A header block with a priority. -/
theorem decodeFrame_encode_proper_headers :
    (∀ rest, decodeFrame ((Frame.headers 1 [0x82] true true (some ⟨true, 0, 15⟩)).encode ++ rest) 16384 =
      .ok (some (.headers 1 [0x82] true true (some ⟨true, 0, 15⟩), 15))) ∧
    ∀ n < 15, decodeFrame ((Frame.headers 1 [0x82] true true (some ⟨true, 0, 15⟩)).encode.take n) 16384 =
      .ok none :=
  decodeFrame_encode_proper (f := .headers 1 [0x82] true true (some ⟨true, 0, 15⟩))
    ⟨⟨by decide, by decide⟩, by simp⟩ (by decide) (by decide)

/-- DATA on stream 0 is written and refused. -/
theorem data_on_stream_zero :
    decodeFrame (Frame.data 0 [] false).encode 16384 = .error (.protocolError "DATA on stream 0") := by
  decide

end Ringline.H2
