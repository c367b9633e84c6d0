import Ringline.Base.Framing
import Mathlib.Tactic.Ring

/-!
# HTTP/3 frames

`ringline-h3/src/frame.rs`, `settings.rs` and `error.rs`: the variable-length integers of QUIC, the
settings, and the frames with their encoding.  The decoder takes one frame off the start of a buffer,
asks for more bytes, or refuses.

Like the decoder of HTTP/2, it looks at nothing beyond the frame it decodes, so that the frames of a
stream are a `Framing` (`frames`).
-/

set_option autoImplicit false

namespace Ringline.H3

open UInt8 List

variable {buf : List UInt8}

/-! ## Errors -/

/-- `WriteError` of the transport. -/
inductive WriteError where
  | blocked
  | stopped (code : Nat)
  | closedStream
deriving DecidableEq, Repr

/-- `ReadError` of the transport. -/
inductive ReadError where
  | blocked
  | reset (code : Nat)
deriving DecidableEq, Repr

/-- `ringline_quic::Error`, as far as streams are concerned. -/
inductive QuicError where
  | connectionClosing
  | invalidConnection
  | write (e : WriteError)
  | read (e : ReadError)
  | readable
  | streamClosed
  | streamStopped (code : Nat)
deriving DecidableEq, Repr

/-- `H3Error`. -/
inductive H3Error where
  | quic (e : QuicError)
  | frameUnexpected
  | missingSettings
  | frameError
  | excessiveSize
  | qpackDecodingFailed
  | closedCriticalStream
  | messageError
  | idError
  | backpressureExceeded
  | internal (message : String)
deriving DecidableEq, Repr

/-- `H3Error::code`. -/
def H3Error.code : H3Error → Nat
  | quic _ | internal _ => 0x102
  | frameUnexpected => 0x105
  | missingSettings => 0x10a
  | frameError => 0x106
  | excessiveSize => 0x107
  | qpackDecodingFailed => 0x106
  | closedCriticalStream => 0x104
  | messageError => 0x10e
  | idError => 0x108
  | backpressureExceeded => 0x107

/-! ## Variable-length integers -/

/-- `encode_varint`. -/
def encodeVarint (value : Nat) : List UInt8 :=
  if value < 2 ^ 6 then [ofNat value]
  else if value < 2 ^ 14 then [(0x40 : UInt8) ||| ofNat (value >>> 8), ofNat value]
  else if value < 2 ^ 30 then
    [(0x80 : UInt8) ||| ofNat (value >>> 24), ofNat (value >>> 16), ofNat (value >>> 8),
      ofNat value]
  else
    [(0xc0 : UInt8) ||| ofNat (value >>> 56), ofNat (value >>> 48), ofNat (value >>> 40),
      ofNat (value >>> 32), ofNat (value >>> 24), ofNat (value >>> 16),
      ofNat (value >>> 8), ofNat value]

/-- `varint_len`. -/
def varintLen (value : Nat) : Nat :=
  if value < 2 ^ 6 then 1 else if value < 2 ^ 14 then 2 else if value < 2 ^ 30 then 4 else 8

/-- `decode_varint`: the value and the number of bytes it takes. -/
def decodeVarint (buf : List UInt8) : Option (Nat × Nat) :=
  match buf with
  | [] => none
  | first :: _ =>
    let len := 1 <<< (first >>> 6).toNat
    if buf.length < len then none
    else some (((buf.take len).drop 1).foldl (fun value b => (value <<< 8) ||| b.toNat)
      (first &&& 0x3f).toNat, len)

theorem decodeVarint_bound (value : Nat) {n : Nat} (h : decodeVarint buf = some (value, n)) :
    1 ≤ n ∧ n ≤ buf.length := by
  match buf with
  | [] => cases h
  | first :: rest =>
    rw [decodeVarint] at h
    split at h
    · cases h
    · rename_i hlen
      obtain ⟨-, rfl⟩ := Prod.mk.inj (Option.some.inj h)
      refine ⟨?_, Nat.not_lt.mp hlen⟩
      rw [Nat.one_shiftLeft]
      exact Nat.one_le_two_pow

/-- More bytes change nothing about an integer that is there. -/
theorem decodeVarint_append {v : Nat × Nat} (h : decodeVarint buf = some v) (rest : List UInt8) :
    decodeVarint (buf ++ rest) = some v := by
  match buf with
  | [] => cases h
  | first :: tail =>
    rw [decodeVarint] at h
    split at h
    · cases h
    · rename_i hlen
      rw [cons_append, decodeVarint]
      have hlen' : 1 <<< (first >>> 6).toNat ≤ (first :: tail).length := Nat.not_lt.mp hlen
      rw [if_neg, ← cons_append, take_append_of_le_length hlen', h]
      rw [← cons_append, length_append]
      omega

/-! ## Settings -/

/-- `u64::MAX`. -/
def u64Max : Nat := 2 ^ 64 - 1

/-- `Settings`. -/
structure Settings where
  qpackMaxTableCapacity : Nat := 0
  maxFieldSectionSize : Nat := 256 * 1024
  qpackBlockedStreams : Nat := 0
deriving DecidableEq, Repr

namespace Settings

/-- `Settings::encode`: only the values that are not the default. -/
def encode (s : Settings) : List UInt8 :=
  (if s.qpackMaxTableCapacity ≠ 0 then encodeVarint 0x01 ++ encodeVarint s.qpackMaxTableCapacity
    else []) ++
  (if s.maxFieldSectionSize ≠ u64Max then encodeVarint 0x06 ++ encodeVarint s.maxFieldSectionSize
    else []) ++
  (if s.qpackBlockedStreams ≠ 0 then encodeVarint 0x07 ++ encodeVarint s.qpackBlockedStreams
    else [])

/-- `Settings::encoded_len`. -/
def encodedLen (s : Settings) : Nat :=
  (if s.qpackMaxTableCapacity ≠ 0 then varintLen 0x01 + varintLen s.qpackMaxTableCapacity else 0) +
  (if s.maxFieldSectionSize ≠ u64Max then varintLen 0x06 + varintLen s.maxFieldSectionSize else 0) +
  (if s.qpackBlockedStreams ≠ 0 then varintLen 0x07 + varintLen s.qpackBlockedStreams else 0)

/-- One setting; unknown ones are ignored. -/
def apply (s : Settings) (id value : Nat) : Settings :=
  if id = 0x01 then { s with qpackMaxTableCapacity := value }
  else if id = 0x06 then { s with maxFieldSectionSize := value }
  else if id = 0x07 then { s with qpackBlockedStreams := value }
  else s

/-- The loop of `Settings::decode`.  Every pair takes two bytes at least. -/
def decodeLoop : Nat → Settings → List Nat → List UInt8 → Option Settings
  | 0, _, _, _ => none
  | fuel + 1, s, seen, buf =>
    if buf = [] then some s
    else
      (decodeVarint buf).bind fun id =>
        (decodeVarint (buf.drop id.2)).bind fun value =>
          if id.1 ∈ seen then none
          else decodeLoop fuel (s.apply id.1 value.1) (id.1 :: seen) ((buf.drop id.2).drop value.2)

/-- `Settings::decode`. -/
def decode (buf : List UInt8) : Option Settings := decodeLoop (buf.length + 1) {} [] buf

end Settings

/-! ## Frames -/

/-- `Frame`. -/
inductive Frame where
  | data (payload : List UInt8)
  | headers (encoded : List UInt8)
  | settings (s : Settings)
  | goAway (streamId : Nat)
  | unknown (frameType : Nat) (payload : List UInt8)
deriving DecidableEq, Repr

/-- `MAX_FRAME_PAYLOAD`. -/
def maxFramePayload : Nat := 16 * 1024 * 1024

/-- `RESERVED_H2_TYPES`. -/
def reservedH2Types : List Nat := [0x02, 0x03, 0x06, 0x08, 0x09]

/-- `encode_frame_header`. -/
def encodeFrameHeader (frameType payloadLen : Nat) : List UInt8 :=
  encodeVarint frameType ++ encodeVarint payloadLen

/-- `Frame::encode`. -/
def Frame.encode : Frame → List UInt8
  | data payload => encodeFrameHeader 0x00 payload.length ++ payload
  | headers encoded => encodeFrameHeader 0x01 encoded.length ++ encoded
  | settings s => encodeFrameHeader 0x04 s.encodedLen ++ s.encode
  | goAway streamId => encodeFrameHeader 0x07 (varintLen streamId) ++ encodeVarint streamId
  | unknown frameType payload => encodeFrameHeader frameType payload.length ++ payload

/-- `FrameLayout`. -/
structure FrameLayout where
  frameType : Nat
  headerLen : Nat
  payloadLen : Nat
deriving DecidableEq, Repr

/-- `FrameLayout::total_len`. -/
def FrameLayout.totalLen (layout : FrameLayout) : Nat := layout.headerLen + layout.payloadLen

/-- `peek_frame`. -/
def peekFrame (buf : List UInt8) : Except H3Error (Option FrameLayout) :=
  match decodeVarint buf with
  | none => .ok none
  | some frameType =>
    match decodeVarint (buf.drop frameType.2) with
    | none => .ok none
    | some payloadLen =>
      if maxFramePayload < payloadLen.1 then .error .excessiveSize
      else if frameType.1 ∈ reservedH2Types then .error .frameUnexpected
      else .ok (some ⟨frameType.1, frameType.2 + payloadLen.2, payloadLen.1⟩)

/-- `finish_frame`. -/
def finishFrame (layout : FrameLayout) (payload : List UInt8) : Except H3Error Frame :=
  if layout.frameType = 0x00 then .ok (.data payload)
  else if layout.frameType = 0x01 then .ok (.headers payload)
  else if layout.frameType = 0x04 then
    match Settings.decode payload with
    | some s => .ok (.settings s)
    | none => .error .frameError
  else if layout.frameType = 0x07 then
    match decodeVarint payload with
    | some streamId => .ok (.goAway streamId.1)
    | none => .error .frameError
  else .ok (.unknown layout.frameType payload)

/-- `decode_frame`: the frame and the number of bytes it takes. -/
def decodeFrame (buf : List UInt8) : Except H3Error (Option (Frame × Nat)) :=
  match peekFrame buf with
  | .error e => .error e
  | .ok none => .ok none
  | .ok (some layout) =>
    if buf.length < layout.totalLen then .ok none
    else
      match finishFrame layout ((buf.drop layout.headerLen).take layout.payloadLen) with
      | .error e => .error e
      | .ok frame => .ok (some (frame, layout.totalLen))

/-- `decode_frame_in`: the frame that starts at `offset`, whose payload is a slice of `parent`.
`none` where `&parent[offset..]` panics. -/
def decodeFrameIn (parent : List UInt8) (offset : Nat) :
    Option (Except H3Error (Option (Frame × Nat))) :=
  if parent.length < offset then none
  else
    let buf := parent.drop offset
    match peekFrame buf with
    | .error e => some (.error e)
    | .ok none => some (.ok none)
    | .ok (some layout) =>
      if buf.length < layout.totalLen then some (.ok none)
      else
        let payloadStart := offset + layout.headerLen
        let payloadEnd := payloadStart + layout.payloadLen
        match finishFrame layout ((parent.take payloadEnd).drop payloadStart) with
        | .error e => some (.error e)
        | .ok frame => some (.ok (some (frame, layout.totalLen)))

/-- **The two decoders agree.**  At every offset into every buffer, the decoder that slices the
payload out of the buffer gives what the copying one gives on the bytes from there on: the same
frame and length, the same request for more, the same error. -/
theorem decodeFrameIn_eq (parent : List UInt8) (offset : Nat) :
    decodeFrameIn parent offset =
      if offset ≤ parent.length then some (decodeFrame (parent.drop offset)) else none := by
  unfold decodeFrameIn decodeFrame
  by_cases hoff : parent.length < offset
  · rw [if_pos hoff, if_neg (by omega)]
  rw [if_neg hoff, if_pos (by omega)]
  -- the slice of the parent is the slice of what follows the offset
  have hslice : ∀ h n, (parent.take (offset + h + n)).drop (offset + h) =
      ((parent.drop offset).drop h).take n := by
    intro h n
    rw [drop_drop, drop_take, Nat.add_sub_cancel_left]
  simp only [hslice]
  rcases peekFrame (parent.drop offset) with e | _ | layout
  · rfl
  · rfl
  · dsimp only
    split
    · rfl
    · rcases finishFrame layout _ with e | frame
      · rfl
      · rfl

/-! ## The frames of a stream -/

theorem peekFrame_append (h : peekFrame buf ≠ .ok none) (rest : List UInt8) :
    peekFrame (buf ++ rest) = peekFrame buf := by
  rw [peekFrame] at h
  rcases htype : decodeVarint buf with _ | frameType
  · rw [htype] at h
    exact absurd rfl h
  · rw [htype] at h
    dsimp only at h
    have hbound := decodeVarint_bound frameType.1 htype
    rcases hlen : decodeVarint (buf.drop frameType.2) with _ | payloadLen
    · rw [hlen] at h
      exact absurd rfl h
    · rw [peekFrame, peekFrame, decodeVarint_append htype, htype]
      dsimp only
      rw [drop_append_of_le_length hbound.2, decodeVarint_append hlen, hlen]

theorem peekFrame_eq_some {layout : FrameLayout} (h : peekFrame buf = .ok (some layout)) :
    ∃ frameType payloadLen, decodeVarint buf = some frameType ∧
      decodeVarint (buf.drop frameType.2) = some payloadLen ∧ payloadLen.1 ≤ maxFramePayload ∧
      frameType.1 ∉ reservedH2Types ∧
      layout = ⟨frameType.1, frameType.2 + payloadLen.2, payloadLen.1⟩ := by
  rw [peekFrame] at h
  split at h
  · cases h
  · rename_i frameType htype
    split at h
    · cases h
    · rename_i payloadLen hlen
      split at h
      · cases h
      · rename_i hmax
        split at h <;> cases h
        rename_i hreserved
        exact ⟨frameType, payloadLen, htype, hlen, Nat.not_lt.mp hmax, hreserved, rfl⟩

theorem peekFrame_header {layout : FrameLayout} (h : peekFrame buf = .ok (some layout)) :
    1 ≤ layout.headerLen ∧ layout.headerLen ≤ buf.length := by
  obtain ⟨frameType, payloadLen, -, hlen, -, -, rfl⟩ := peekFrame_eq_some h
  have hbound := decodeVarint_bound payloadLen.1 hlen
  rw [length_drop] at hbound
  dsimp only
  omega

theorem decodeFrame_append (h : decodeFrame buf ≠ .ok none) (rest : List UInt8) :
    decodeFrame (buf ++ rest) = decodeFrame buf := by
  have hpeek : peekFrame buf ≠ .ok none := by
    intro hpeek
    rw [decodeFrame, hpeek] at h
    exact h rfl
  rw [decodeFrame, decodeFrame, peekFrame_append hpeek]
  rcases hp : peekFrame buf with e | layout
  · rfl
  · rcases layout with _ | layout
    · exact absurd hp hpeek
    · rw [decodeFrame, hp] at h
      dsimp only at h ⊢
      have hlen : ¬ buf.length < layout.totalLen := fun hlt => h (if_pos hlt)
      have hheader := (peekFrame_header hp).2
      have htotal : layout.totalLen = layout.headerLen + layout.payloadLen := rfl
      rw [if_neg hlen, if_neg (by rw [length_append]; omega),
        drop_append_of_le_length hheader, take_append_of_le_length]
      rw [length_drop]
      omega

theorem decodeFrame_eq_some {frame : Frame} {n : Nat} (h : decodeFrame buf = .ok (some (frame, n))) :
    ∃ layout, peekFrame buf = .ok (some layout) ∧ n = layout.totalLen ∧ n ≤ buf.length ∧
      finishFrame layout ((buf.drop layout.headerLen).take layout.payloadLen) = .ok frame := by
  rw [decodeFrame] at h
  split at h
  · cases h
  · cases h
  · rename_i layout hpeek
    split at h
    · cases h
    · rename_i hlen
      split at h <;> cases h
      rename_i hframe
      exact ⟨layout, hpeek, rfl, Nat.not_lt.mp hlen, hframe⟩

theorem decodeFrame_bound {frame : Frame} {n : Nat} (h : decodeFrame buf = .ok (some (frame, n))) :
    1 ≤ n ∧ n ≤ buf.length := by
  obtain ⟨layout, hpeek, rfl, hlen, -⟩ := decodeFrame_eq_some h
  exact ⟨Nat.le_trans (peekFrame_header hpeek).1 (Nat.le_add_right _ _), hlen⟩

/-- What is at the front of a buffer. -/
def nextFrame (buf : List UInt8) : Found UInt8 Frame H3Error :=
  match decodeFrame buf with
  | .ok (some (frame, consumed)) => .item frame (buf.drop consumed)
  | .ok none => .more
  | .error e => .bad e

theorem nextFrame_append (h : nextFrame buf ≠ .more) (rest : List UInt8) :
    nextFrame (buf ++ rest) =
      match nextFrame buf with
      | .item frame r => .item frame (r ++ rest)
      | other => other := by
  have hdecode : decodeFrame buf ≠ .ok none := by
    intro hd
    rw [nextFrame, hd] at h
    exact h rfl
  rw [nextFrame, nextFrame, decodeFrame_append hdecode]
  rcases hd : decodeFrame buf with e | _ | ⟨frame, consumed⟩
  · rfl
  · exact absurd hd hdecode
  · exact congrArg (Found.item frame) (drop_append_of_le_length (decodeFrame_bound hd).2)

/-- The frames in a buffer. -/
def frames : Framing UInt8 Frame H3Error where
  next := nextFrame
  shorter := by
    intro b frame r h
    rw [nextFrame] at h
    rcases hd : decodeFrame b with e | _ | ⟨f, consumed⟩
    · rw [hd] at h
      cases h
    · rw [hd] at h
      cases h
    · rw [hd] at h
      injection h with _ hr
      have hbound := decodeFrame_bound hd
      rw [← hr, length_drop]
      omega
  item_append := by
    intro b frame r c h
    rw [nextFrame_append (by rw [h]; nofun), h]
  bad_append := by
    intro b e c h
    rw [nextFrame_append (by rw [h]; nofun), h]

end Ringline.H3
