import Ringline.H2.Error
import Mathlib.Data.List.Basic
import Mathlib.Tactic.Ring

/-!
# HTTP/2 frames

`ringline-h2/src/frame.rs` and `settings.rs`: the frame types with their encoding, and the decoder,
which takes one frame off the start of a buffer, asks for more bytes, or refuses.

The decoder looks at nothing beyond the frame it decodes: once it has decided about a buffer, more
bytes behind it change neither the frame nor the error (`decodeFrame_append`).  That is what makes
the cutting of the byte stream irrelevant to everything built on it.
-/

set_option autoImplicit false

namespace Ringline.H2

open UInt8

variable {buf : List UInt8}

/-! ## Numbers on the wire -/

/-- Four bytes, most significant first, as a `u32`. -/
def be32 (a b c d : UInt8) : Nat :=
  (a.toNat <<< 24) ||| (b.toNat <<< 16) ||| (c.toNat <<< 8) ||| d.toNat

/-- The four bytes of a `u32`; `as u8` keeps the low eight bits. -/
def be32Bytes (n : Nat) : List UInt8 :=
  [ofNat (n >>> 24), ofNat (n >>> 16), ofNat (n >>> 8), ofNat n]

/-- `& 0x7fff_ffff`: clear the reserved bit. -/
def mask31 (n : Nat) : Nat := n &&& 0x7fffffff

/-- A number is read from its most significant byte on: one byte more. -/
theorem shiftRight_join (n k : Nat) : n >>> (k + 8) <<< 8 ||| n >>> k % 256 = n >>> k := by
  rw [Nat.shiftRight_add, ← Nat.shiftLeft_add_eq_or_of_lt (Nat.mod_lt _ (by decide)), Nat.shiftLeft_eq,
    Nat.shiftRight_eq_div_pow _ 8]
  exact Nat.div_add_mod' _ _

variable {n : Nat}

/-- What is written as four bytes can be read back. -/
theorem be32_be32Bytes (h : n < 2 ^ 32) :
    be32 (ofNat (n >>> 24)) (ofNat (n >>> 16)) (ofNat (n >>> 8)) (ofNat n) =
      n := by
  have htop : n >>> 24 % 256 = n >>> 24 :=
    Nat.mod_eq_of_lt (by rw [Nat.shiftRight_eq_div_pow]; omega)
  have hlast : n >>> 8 <<< 8 ||| n % 256 = n := shiftRight_join n 0
  calc be32 (ofNat (n >>> 24)) (ofNat (n >>> 16)) (ofNat (n >>> 8)) (ofNat n)
      = ((n >>> 24 <<< 8 ||| n >>> 16 % 256) <<< 8 ||| n >>> 8 % 256) <<< 8 ||| n % 256 := by
        simp [be32, htop, Nat.shiftLeft_or_distrib, ← Nat.shiftLeft_add]
    _ = n := by rw [shiftRight_join n 16, shiftRight_join n 8, hlast]

/-! ## Settings -/

/-- `Settings`. -/
structure Settings where
  headerTableSize : Nat := 4096
  enablePush : Bool := true
  maxConcurrentStreams : Option Nat := none
  initialWindowSize : Nat := 65535
  maxFrameSize : Nat := 16384
  maxHeaderListSize : Option Nat := some 262144
deriving DecidableEq, Repr

/-- `MAX_PEER_HEADER_TABLE_SIZE`. -/
def maxPeerHeaderTableSize : Nat := 65536

namespace Settings

/-- `Settings::client_default`. -/
def clientDefault : Settings := { enablePush := false }

/-- `encode_setting`. -/
def encodeSetting (id value : Nat) : List UInt8 :=
  [ofNat (id >>> 8), ofNat id] ++ be32Bytes value

/-- `Settings::encode`. -/
def encode (s : Settings) : List UInt8 :=
  encodeSetting 0x1 s.headerTableSize ++ encodeSetting 0x2 (if s.enablePush then 1 else 0) ++
    (match s.maxConcurrentStreams with
      | some v => encodeSetting 0x3 v
      | none => []) ++
    encodeSetting 0x4 s.initialWindowSize ++ encodeSetting 0x5 s.maxFrameSize ++
    (match s.maxHeaderListSize with
      | some v => encodeSetting 0x6 v
      | none => [])

/-- The `(id, value)` pairs of a payload. -/
def params : List UInt8 → List (Nat × Nat)
  | a :: b :: c :: d :: e :: f :: rest =>
    ((a.toNat <<< 8) ||| b.toNat, be32 c d e f) :: params rest
  | _ => []

/-- One iteration of the loop of `Settings::decode`. -/
def apply (s : Settings) : Nat × Nat → Except H2Error Settings
  | (0x1, value) => .ok { s with headerTableSize := min value maxPeerHeaderTableSize }
  | (0x2, value) =>
    if value > 1 then .error (.protocolError "ENABLE_PUSH must be 0 or 1")
    else .ok { s with enablePush := value == 1 }
  | (0x3, value) => .ok { s with maxConcurrentStreams := some value }
  | (0x4, value) =>
    if value > 0x7fffffff then .error .flowControlError
    else .ok { s with initialWindowSize := value }
  | (0x5, value) =>
    if value < 16384 ∨ 16777215 < value then .error (.protocolError "MAX_FRAME_SIZE out of range")
    else .ok { s with maxFrameSize := value }
  | (0x6, value) => .ok { s with maxHeaderListSize := some value }
  | _ => .ok s

/-- The loop of `Settings::decode`. -/
def applyAll : Settings → List (Nat × Nat) → Except H2Error Settings
  | s, [] => .ok s
  | s, p :: rest =>
    match s.apply p with
    | .error e => .error e
    | .ok s => applyAll s rest

/-- `Settings::decode`: a whole `Settings`, from the defaults. -/
def decode (buf : List UInt8) : Except H2Error Settings :=
  if buf.length % 6 ≠ 0 then .error .frameSizeError else applyAll {} (params buf)

end Settings

/-! ## Frames -/

/-- `Priority`. -/
structure Priority where
  exclusive : Bool
  dependency : Nat
  weight : UInt8
deriving DecidableEq, Repr

/-- `Frame`. -/
inductive Frame where
  | data (streamId : Nat) (payload : List UInt8) (endStream : Bool)
  | headers (streamId : Nat) (encoded : List UInt8) (endStream endHeaders : Bool)
      (priority : Option Priority)
  | priority (streamId : Nat) (priority : Priority)
  | rstStream (streamId : Nat) (errorCode : ErrorCode)
  | settings (ack : Bool) (settings : Settings)
  | pushPromise (streamId promisedStreamId : Nat) (encoded : List UInt8) (endHeaders : Bool)
  | ping (ack : Bool) (opaqueData : List UInt8)
  | goAway (lastStreamId : Nat) (errorCode : ErrorCode) (debugData : List UInt8)
  | windowUpdate (streamId increment : Nat)
  | continuation (streamId : Nat) (encoded : List UInt8) (endHeaders : Bool)
  | unknown (frameType flags : UInt8) (streamId : Nat) (payload : List UInt8)
deriving DecidableEq, Repr

namespace Priority

/-- The five bytes of a priority. -/
def encode (p : Priority) : List UInt8 :=
  be32Bytes (if p.exclusive then p.dependency ||| 0x80000000 else p.dependency) ++ [p.weight]

end Priority

/-- `encode_frame_header`. -/
def encodeFrameHeader (payloadLen : Nat) (frameType flags : UInt8) (streamId : Nat) :
    List UInt8 :=
  [ofNat (payloadLen >>> 16), ofNat (payloadLen >>> 8), ofNat payloadLen,
    frameType, flags] ++ be32Bytes (mask31 streamId)

namespace Frame

/-- A flag if it is set. -/
def flag (b : Bool) (f : UInt8) : UInt8 := if b then f else 0

/-- The type, the flags, the stream and the payload that `Frame::encode` writes. -/
def parts : Frame → UInt8 × UInt8 × Nat × List UInt8
  | data sid payload es => (0x0, flag es 0x1, sid, payload)
  | headers sid encoded es eh none => (0x1, flag es 0x1 ||| flag eh 0x4, sid, encoded)
  | headers sid encoded es eh (some p) =>
    (0x1, flag es 0x1 ||| flag eh 0x4 ||| 0x20, sid, p.encode ++ encoded)
  | priority sid p => (0x2, 0, sid, p.encode)
  | rstStream sid code => (0x3, 0, sid, be32Bytes code.toU32)
  | settings ack s => (0x4, flag ack 0x1, 0, if ack then [] else s.encode)
  | pushPromise sid psid encoded eh => (0x5, flag eh 0x4, sid, be32Bytes (mask31 psid) ++ encoded)
  | ping ack opaqueData => (0x6, flag ack 0x1, 0, opaqueData)
  | goAway lsid code debugData =>
    (0x7, 0, 0, be32Bytes (mask31 lsid) ++ be32Bytes code.toU32 ++ debugData)
  | windowUpdate sid inc => (0x8, 0, sid, be32Bytes (mask31 inc))
  | continuation sid encoded eh => (0x9, flag eh 0x4, sid, encoded)
  | unknown t f sid payload => (t, f, sid, payload)

/-- The payload of a frame as it is written. -/
def payload (f : Frame) : List UInt8 := f.parts.2.2.2

/-- `Frame::encode`. -/
def encode (f : Frame) : List UInt8 :=
  encodeFrameHeader f.payload.length f.parts.1 f.parts.2.1 f.parts.2.2.1 ++ f.payload

end Frame

/-! ## Decoding -/

/-- `FrameHeader`. -/
structure FrameHeader where
  length : Nat
  frameType : UInt8
  flags : UInt8
  streamId : Nat
deriving DecidableEq, Repr

/-- `decode_frame_header`. -/
def decodeFrameHeader : List UInt8 → Option FrameHeader
  | l₀ :: l₁ :: l₂ :: t :: f :: s₀ :: s₁ :: s₂ :: s₃ :: _ =>
    some ⟨(l₀.toNat <<< 16) ||| (l₁.toNat <<< 8) ||| l₂.toNat, t, f, mask31 (be32 s₀ s₁ s₂ s₃)⟩
  | _ => none

/-- `strip_padding`. -/
def stripPadding (payload : List UInt8) (flags : UInt8) : Except H2Error (List UInt8) :=
  if flags &&& 0x8 ≠ 0 then
    match payload with
    | [] => .error .frameSizeError
    | pad :: rest =>
      if payload.length ≤ pad.toNat then .error (.protocolError "padding exceeds payload")
      else .ok (rest.take (payload.length - pad.toNat - 1))
  else .ok payload

/-- The priority at the start of a payload, and what follows it. -/
def takePriority : List UInt8 → Except H2Error (Priority × List UInt8)
  | a :: b :: c :: d :: weight :: rest =>
    .ok (⟨be32 a b c d &&& 0x80000000 ≠ 0, mask31 (be32 a b c d), weight⟩, rest)
  | _ => .error .frameSizeError

/-! The arms of the match in `decode_frame`, one for each frame type. -/

def FrameHeader.endStream (h : FrameHeader) : Bool := h.flags &&& 0x1 ≠ 0

def FrameHeader.endHeaders (h : FrameHeader) : Bool := h.flags &&& 0x4 ≠ 0

def decodeData (h : FrameHeader) (payload : List UInt8) : Except H2Error Frame :=
  if h.streamId = 0 then .error (.protocolError "DATA on stream 0")
  else
    match stripPadding payload h.flags with
    | .error e => .error e
    | .ok data => .ok (.data h.streamId data h.endStream)

def decodeHeaders (h : FrameHeader) (payload : List UInt8) : Except H2Error Frame :=
  if h.streamId = 0 then .error (.protocolError "HEADERS on stream 0")
  else
    match stripPadding payload h.flags with
    | .error e => .error e
    | .ok data =>
      if h.flags &&& 0x20 ≠ 0 then
        match takePriority data with
        | .error e => .error e
        | .ok (p, block) => .ok (.headers h.streamId block h.endStream h.endHeaders (some p))
      else .ok (.headers h.streamId data h.endStream h.endHeaders none)

def decodePriority (h : FrameHeader) (payload : List UInt8) : Except H2Error Frame :=
  if h.streamId = 0 then .error (.protocolError "PRIORITY on stream 0")
  else if payload.length ≠ 5 then .error .frameSizeError
  else
    match takePriority payload with
    | .error e => .error e
    | .ok (p, _) => .ok (.priority h.streamId p)

def decodeRstStream (h : FrameHeader) (payload : List UInt8) : Except H2Error Frame :=
  if h.streamId = 0 then .error (.protocolError "RST_STREAM on stream 0")
  else
    match payload with
    | [a, b, c, d] => .ok (.rstStream h.streamId (.fromU32 (be32 a b c d)))
    | _ => .error .frameSizeError

def decodeSettings (h : FrameHeader) (payload : List UInt8) : Except H2Error Frame :=
  if h.streamId ≠ 0 then .error (.protocolError "SETTINGS on non-zero stream")
  else if h.flags &&& 0x1 ≠ 0 then
    if payload ≠ [] then .error .frameSizeError else .ok (.settings true {})
  else if payload.length % 6 ≠ 0 then .error .frameSizeError
  else
    match Settings.decode payload with
    | .error e => .error e
    | .ok s => .ok (.settings false s)

def decodePushPromise (h : FrameHeader) (payload : List UInt8) : Except H2Error Frame :=
  if h.streamId = 0 then .error (.protocolError "PUSH_PROMISE on stream 0")
  else
    match stripPadding payload h.flags with
    | .error e => .error e
    | .ok (a :: b :: c :: d :: block) =>
      .ok (.pushPromise h.streamId (mask31 (be32 a b c d)) block h.endHeaders)
    | .ok _ => .error .frameSizeError

def decodePing (h : FrameHeader) (payload : List UInt8) : Except H2Error Frame :=
  if h.streamId ≠ 0 then .error (.protocolError "PING on non-zero stream")
  else if payload.length ≠ 8 then .error .frameSizeError
  else .ok (.ping (h.flags &&& 0x1 ≠ 0) payload)

def decodeGoAway (h : FrameHeader) (payload : List UInt8) : Except H2Error Frame :=
  if h.streamId ≠ 0 then .error (.protocolError "GOAWAY on non-zero stream")
  else
    match payload with
    | a :: b :: c :: d :: e :: f :: g :: i :: debugData =>
      .ok (.goAway (mask31 (be32 a b c d)) (.fromU32 (be32 e f g i)) debugData)
    | _ => .error .frameSizeError

def decodeWindowUpdate (h : FrameHeader) (payload : List UInt8) : Except H2Error Frame :=
  match payload with
  | [a, b, c, d] =>
    if mask31 (be32 a b c d) = 0 then .error (.protocolError "WINDOW_UPDATE with 0 increment")
    else .ok (.windowUpdate h.streamId (mask31 (be32 a b c d)))
  | _ => .error .frameSizeError

def decodeContinuationFrame (h : FrameHeader) (payload : List UInt8) : Except H2Error Frame :=
  if h.streamId = 0 then .error (.protocolError "CONTINUATION on stream 0")
  else .ok (.continuation h.streamId payload h.endHeaders)

/-- The match of `decode_frame` on the frame type, once the payload is complete. -/
def decodePayload (h : FrameHeader) (payload : List UInt8) : Except H2Error Frame :=
  if h.frameType = 0x0 then decodeData h payload
  else if h.frameType = 0x1 then decodeHeaders h payload
  else if h.frameType = 0x2 then decodePriority h payload
  else if h.frameType = 0x3 then decodeRstStream h payload
  else if h.frameType = 0x4 then decodeSettings h payload
  else if h.frameType = 0x5 then decodePushPromise h payload
  else if h.frameType = 0x6 then decodePing h payload
  else if h.frameType = 0x7 then decodeGoAway h payload
  else if h.frameType = 0x8 then decodeWindowUpdate h payload
  else if h.frameType = 0x9 then decodeContinuationFrame h payload
  else .ok (.unknown h.frameType h.flags h.streamId payload)

/-- `decode_frame`: the first frame of `buf` and the bytes it takes, `none` if it is not complete. -/
def decodeFrame (buf : List UInt8) (maxFrameSize : Nat) : Except H2Error (Option (Frame × Nat)) :=
  match decodeFrameHeader buf with
  | none => .ok none
  | some h =>
    let total := 9 + h.length
    if buf.length < total then .ok none
    else if maxFrameSize < h.length then .error .frameSizeError
    else
      match decodePayload h ((buf.take total).drop 9) with
      | .error e => .error e
      | .ok frame => .ok (some (frame, total))

/-! ## What was decoded -/

section

variable {h : FrameHeader} {payload : List UInt8} {f : Frame}

/-- One arm of the match on the frame type. -/
theorem type_of_arm {t : UInt8} {arm rest : Except H2Error Frame}
    (harm : ∀ f, arm = .ok f → f.parts.1 = t) (hrest : ∀ f, rest = .ok f → f.parts.1 = h.frameType)
    (f : Frame) (hf : (if h.frameType = t then arm else rest) = .ok f) :
    f.parts.1 = h.frameType := by
  split at hf
  · rename_i htype
    rw [harm f hf, htype]
  · exact hrest f hf

/-- A decoded frame has the type that its header says. -/
theorem decodePayload_type (hf : decodePayload h payload = .ok f) : f.parts.1 = h.frameType := by
  rw [decodePayload] at hf
  refine (type_of_arm ?_ <| type_of_arm ?_ <| type_of_arm ?_ <| type_of_arm ?_ <|
    type_of_arm ?_ <| type_of_arm ?_ <| type_of_arm ?_ <| type_of_arm ?_ <| type_of_arm ?_ <|
    type_of_arm ?_ fun f hf => by cases hf; rfl) f hf
  all_goals
    intro f hf
    simp only [decodeData, decodeHeaders, decodePriority, decodeRstStream.eq_def, decodeSettings,
      decodePushPromise, decodePing, decodeGoAway.eq_def, decodeWindowUpdate.eq_def,
      decodeContinuationFrame] at hf
    repeat' split at hf
    all_goals cases hf
    all_goals rfl

theorem decodePayload_settings {s : Settings}
    (hf : decodePayload h payload = .ok (.settings false s)) :
    Settings.decode payload = .ok s := by
  have htype : (0x4 : UInt8) = h.frameType := decodePayload_type hf
  rw [decodePayload, ← htype] at hf
  change decodeSettings h payload = _ at hf
  rw [decodeSettings] at hf
  repeat' split at hf
  all_goals cases hf
  assumption

variable {data : List UInt8}

theorem stripPadding_length {flags : UInt8} (hp : stripPadding payload flags = .ok data) :
    data.length ≤ payload.length := by
  rw [stripPadding.eq_def] at hp
  split at hp
  · split at hp
    · cases hp
    · split at hp
      · cases hp
      · cases hp
        rw [List.length_take, List.length_cons]
        omega
  · cases hp
    exact le_rfl

theorem decodePayload_data {sid : Nat} {es : Bool}
    (hf : decodePayload h payload = .ok (.data sid data es)) :
    sid ≠ 0 ∧ data.length ≤ payload.length := by
  have htype : (0x0 : UInt8) = h.frameType := decodePayload_type hf
  rw [decodePayload, ← htype] at hf
  change decodeData h payload = _ at hf
  rw [decodeData] at hf
  split at hf
  · cases hf
  · rename_i hsid
    split at hf
    · cases hf
    · rename_i data' hstrip
      cases hf
      exact ⟨hsid, stripPadding_length hstrip⟩

theorem decodePayload_ping {ack : Bool} (hf : decodePayload h payload = .ok (.ping ack data)) :
    data.length = 8 := by
  have htype : (0x6 : UInt8) = h.frameType := decodePayload_type hf
  rw [decodePayload, ← htype] at hf
  change decodePing h payload = _ at hf
  rw [decodePing] at hf
  repeat' split at hf
  all_goals cases hf
  rename_i hlen
  exact not_not.mp hlen

end

/-! ## More bytes behind a decided frame -/

variable {h : FrameHeader}

theorem decodeFrameHeader_length_lt (hh : decodeFrameHeader buf = some h) : h.length < 2 ^ 24 := by
  rw [decodeFrameHeader.eq_def] at hh
  split at hh
  · rename_i l₀ l₁ l₂ t f s₀ s₁ s₂ s₃ rest
    cases hh
    have h₀ := l₀.toNat_lt
    have h₁ := l₁.toNat_lt
    have h₂ := l₂.toNat_lt
    refine Nat.or_lt_two_pow (Nat.or_lt_two_pow ?_ ?_) (by omega)
    · rw [Nat.shiftLeft_eq]
      omega
    · rw [Nat.shiftLeft_eq]
      omega
  · cases hh

theorem decodeFrameHeader_append (hh : decodeFrameHeader buf = some h) (more : List UInt8) :
    decodeFrameHeader (buf ++ more) = some h := by
  rw [decodeFrameHeader.eq_def] at hh
  split at hh
  · rw [← hh]
    rfl
  · cases hh

/-- A frame that was decoded: its header, and its payload in the buffer. -/
structure Framed (buf : List UInt8) (m : Nat) (frame : Frame) (n : Nat) (h : FrameHeader) :
    Prop where
  header : decodeFrameHeader buf = some h
  size : n = 9 + h.length
  le : n ≤ buf.length
  fits : h.length ≤ m
  payload : decodePayload h ((buf.take n).drop 9) = .ok frame

variable {frame : Frame} {m : Nat}

theorem decodeFrame_eq_some (h : decodeFrame buf m = .ok (some (frame, n))) :
    ∃ head, Framed buf m frame n head := by
  rw [decodeFrame] at h
  split at h
  · cases h
  · rename_i head hhead
    dsimp only at h
    split at h
    · cases h
    · split at h
      · cases h
      · split at h
        · cases h
        · rename_i f hpayload
          obtain ⟨rfl, rfl⟩ := Prod.mk.inj (Option.some_inj.mp (Except.ok.inj h))
          exact ⟨head, hhead, rfl, by omega, by omega, hpayload⟩

theorem Framed.decodeFrame_eq {head : FrameHeader} (h : Framed buf m frame n head) :
    decodeFrame buf m = .ok (some (frame, n)) := by
  have hle := h.le
  have hfits := h.fits
  have hpayload := h.payload
  rw [h.size] at hle hpayload
  simp only [decodeFrame, h.header, if_neg (Nat.not_lt.mpr hle), if_neg (Nat.not_lt.mpr hfits),
    hpayload, h.size]

/-- A frame that was decoded lies in the buffer, header and all. -/
theorem decodeFrame_some (h : decodeFrame buf m = .ok (some (frame, n))) : 9 ≤ n ∧ n ≤ buf.length := by
  obtain ⟨head, hframed⟩ := decodeFrame_eq_some h
  have hsize := hframed.size
  exact ⟨by omega, hframed.le⟩

/-- **Prefix stability.**  A buffer the decoder has decided about is decided in the same way, frame
or error, when more bytes follow. -/
theorem decodeFrame_append (h : decodeFrame buf m ≠ .ok none) (more : List UInt8) :
    decodeFrame (buf ++ more) m = decodeFrame buf m := by
  rw [decodeFrame] at h
  rw [decodeFrame, decodeFrame]
  rcases hh : decodeFrameHeader buf with _ | head
  · rw [hh] at h
    exact absurd rfl h
  · rw [hh] at h
    rw [decodeFrameHeader_append hh]
    dsimp only at h ⊢
    by_cases hlen : buf.length < 9 + head.length
    · rw [if_pos hlen] at h
      exact absurd rfl h
    · have hlen' : ¬ (buf ++ more).length < 9 + head.length := by
        rw [List.length_append]
        omega
      rw [if_neg hlen, if_neg hlen', List.take_append_of_le_length (by omega)]

theorem decodeFrameHeader_take (hh : decodeFrameHeader buf = some h) (hn : 9 ≤ n) :
    decodeFrameHeader (buf.take n) = some h := by
  rw [decodeFrameHeader.eq_def] at hh
  split at hh
  · obtain ⟨n, rfl⟩ := Nat.exists_eq_add_of_le' hn
    rw [← hh]
    rfl
  · cases hh

/-- The bytes of a decoded frame alone decode to it. -/
theorem decodeFrame_take (h : decodeFrame buf m = .ok (some (frame, n))) :
    decodeFrame (buf.take n) m = .ok (some (frame, n)) := by
  obtain ⟨head, hframed⟩ := decodeFrame_eq_some h
  have hsize := hframed.size
  have hshort : Framed (buf.take n) m frame n head := by
    refine ⟨decodeFrameHeader_take hframed.header (by omega), hsize, ?_, hframed.fits, ?_⟩
    · rw [List.length_take, Nat.min_eq_left hframed.le]
    · rw [List.take_take, Nat.min_self]
      exact hframed.payload
  exact hshort.decodeFrame_eq

end Ringline.H2
