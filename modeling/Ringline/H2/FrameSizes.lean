import Ringline.H2.SettingsLaw

/-!
# The sizes of the frames sent

A peer that advertises a maximum frame size does not accept larger frames.  `send_data` cuts its data
accordingly, the answers to frames are all short, but `send_request` puts its header block into one
HEADERS frame, whatever its length: it never sends CONTINUATION.  So the frames of a run are within
bounds if and only if every header block is (`frames_fit_iff`), and a single long header field
exceeds the bound (`header_block_too_long`).
-/

set_option autoImplicit false

namespace Ringline.H2

open List

/-- The maximum frame size that the peer advertises with the parameters received so far. -/
def advertisedFrameSize (ps : List (Nat × Nat)) : Nat := (lastOf 0x5 ps).getD 16384

/-- CONTINUATION frames with these pieces of a header block. -/
def continuations (sid : Nat) : List (List UInt8) → List Frame
  | [] => []
  | [piece] => [.continuation sid piece true]
  | piece :: rest => .continuation sid piece false :: continuations sid rest

/-- A header block as HEADERS followed by CONTINUATION frames. -/
def headerFrames (sid : Nat) (endStream : Bool) (first : List UInt8) (rest : List (List UInt8)) :
    List Frame :=
  .headers sid first endStream rest.isEmpty none :: continuations sid rest

namespace H2Connection

variable {c : H2Connection}

/-- The frames that a step adds to the send buffer. -/
def sent (c : H2Connection) (x : ConnStep) : List Frame := (c.step x).sendBuf.drop c.sendBuf.length

variable {x : ConnStep} {ps : List (Nat × Nat)}

theorem sent_of_append (fs : List Frame) (h : (c.step x).sendBuf = c.sendBuf ++ fs) :
    c.sent x = fs := by
  rw [sent, h, drop_left]

/-- What is asked of a step: its frames are not longer than the peer accepts, and those of a request
carry its header block. -/
structure WellSized (ps : List (Nat × Nat)) (c : H2Connection) (x : ConnStep) : Prop where
  fits : ∀ g ∈ c.sent x, g.payload.length ≤ advertisedFrameSize (recordParams ps c x)
  carries : ∀ headers endStream sid, x = .own (.sendRequest headers endStream) →
    (c.sendRequest headers endStream).2 = .ok sid →
    ∃ first rest, c.sent x = headerFrames sid endStream first rest ∧
      first ++ rest.flatten = (c.encoder.encode headers).2

/-- The header block of a request that is accepted fits into one frame. -/
def RequestFits (ps : List (Nat × Nat)) (c : H2Connection) (x : ConnStep) : Prop :=
  ∀ headers endStream sid, x = .own (.sendRequest headers endStream) →
    (c.sendRequest headers endStream).2 = .ok sid →
    (c.encoder.encode headers).2.length ≤ advertisedFrameSize ps

/-- The frame size in force is one that the protocol allows, and not larger than advertised. -/
structure FrameSizeInv (ps : List (Nat × Nat)) (c : H2Connection) : Prop where
  ge : 16384 ≤ c.remoteSettings.maxFrameSize
  le : c.remoteSettings.maxFrameSize ≤ advertisedFrameSize ps

/-! ## One step -/

theorem dataChunks_length {m : Nat} (hm : 0 < m) {data chunk : List UInt8}
    (h : chunk ∈ dataChunks m data) : chunk.length ≤ m := by
  rw [dataChunks] at h
  split at h
  · obtain rfl := mem_singleton.mp h
    exact Nat.zero_le m
  · exact (Chunks.mem_chunks hm h).2

theorem length_be32Bytes (n : Nat) : (be32Bytes n).length = 4 := rfl

/-- Answers are short, those to a PING of the right size included. -/
theorem Answers.length_le {f g : Frame} (hping : ∀ data, f = .ping false data → data.length = 8)
    (h : Answers f g) : g.payload.length ≤ 16384 := by
  rw [Answers.eq_def] at h
  split at h
  · exact Nat.zero_le _
  · simp [Frame.payload, Frame.parts, length_be32Bytes]
  · simp [Frame.payload, Frame.parts, length_be32Bytes]
  · subst h
    simp [Frame.payload, Frame.parts, length_be32Bytes]
  · rename_i data
    have hlen := hping data h
    simp only [Frame.payload, Frame.parts]
    omega
  · exact h.elim

theorem Replies.fits {c' : H2Connection} {f : Frame} (h : Replies f c c')
    (hping : ∀ data, f = .ping false data → data.length = 8) (hx : c.step x = c') :
    ∀ g ∈ c.sent x, g.payload.length ≤ 16384 := by
  obtain ⟨fs, hfs, hall⟩ := h
  rw [sent_of_append _ (hx ▸ hfs)]
  exact fun g hg => (hall g hg).length_le hping

/-- Frames that are sent without regard to the peer's settings are short. -/
theorem sent_short (hgen : c.Genuine x) (hreq : ∀ headers es, x ≠ .own (.sendRequest headers es))
    (hdata : ∀ sid data es, x ≠ .own (.sendData sid data es)) :
    ∀ g ∈ c.sent x, g.payload.length ≤ 16384 := by
  have hone : ∀ g, (c.step x).sendBuf = c.sendBuf ++ [g] → g.payload.length ≤ 16384 →
      ∀ g ∈ c.sent x, g.payload.length ≤ 16384 := by
    intro g hstep hle g' hg'
    rw [sent_of_append _ hstep] at hg'
    exact mem_singleton.mp hg' ▸ hle
  cases x with
  | own l =>
    cases l with
    | setMaxRecvBuf n =>
      rw [sent_of_append [] (append_nil _).symm]
      exact fun _ hg => absurd hg not_mem_nil
    | sendRequest headers es => exact absurd rfl (hreq headers es)
    | sendData sid data es => exact absurd rfl (hdata sid data es)
    | resetStream sid code =>
      exact hone (.rstStream sid code) rfl (by simp [Frame.payload, Frame.parts, length_be32Bytes])
    | sendPing => exact hone (.ping false (replicate 8 0)) rfl (by decide)
    | sendGoaway code =>
      exact hone (.goAway 0 code []) rfl (by simp [Frame.payload, Frame.parts, length_be32Bytes])
  | frame raw f =>
    refine (replies_takeFrame c f).fits ?_ rfl
    rintro data rfl
    obtain ⟨head, hpayload⟩ := hgen.payload
    exact decodePayload_ping hpayload
  | malformed e => exact (replies_fatalError (.settings true {}) c e).fits nofun rfl
  | overflow => exact (replies_fatalError (.settings true {}) c _).fits nofun rfl

theorem FrameSizeInv.advertised (h : FrameSizeInv ps c) :
    16384 ≤ advertisedFrameSize ps := h.ge.trans h.le

theorem frameSizeInv_step (hgen : c.Genuine x) (h : FrameSizeInv ps c) :
    FrameSizeInv (recordParams ps c x) (c.step x) := by
  have hadv := h.advertised
  rw [recordParams]
  rcases step_remoteSettings_cases hgen with ⟨raw, s, rfl, -, hdec, hs, hps⟩ | ⟨hs, hps⟩
  · rw [hps]
    refine ⟨by rw [hs]; exact (valid_decode hdec).maxFrameSize, ?_⟩
    rw [hs, (overlaid_decode hdec).maxFrameSize, advertisedFrameSize, lastOf_append]
    -- A frame without the parameter makes the source fall back to the least size there is.
    rcases lastOf 0x5 (Settings.params (raw.drop 9)) with _ | v
    · exact hadv
    · exact le_rfl
  · rw [hps, append_nil]
    exact ⟨hs ▸ h.ge, hs ▸ h.le⟩

/-- Data is cut to the frame size in force. -/
theorem sent_data_fits (h : FrameSizeInv ps c) (sid : Nat) (data : List UInt8) (es : Bool) :
    ∀ g ∈ c.sent (.own (.sendData sid data es)), g.payload.length ≤ advertisedFrameSize ps := by
  rcases sendData_cases c sid data es with ⟨e, herr⟩ | ⟨s, -, hok⟩
  · rw [sent_of_append [] (by rw [step, own, herr, append_nil])]
    exact fun _ hg => absurd hg not_mem_nil
  · intro g hg
    have hsent : c.sent (.own (.sendData sid data es)) =
        dataFrames sid es (dataChunks c.remoteSettings.maxFrameSize data) := by
      refine sent_of_append _ ?_
      rw [step, own, hok]
      rfl
    rw [hsent] at hg
    have hpos : 0 < c.remoteSettings.maxFrameSize := Nat.lt_of_lt_of_le (by decide) h.ge
    obtain ⟨chunk, hchunk, e, rfl⟩ := mem_dataFrames hg
    exact (dataChunks_length hpos hchunk).trans h.le

/-- The frames of a request are well sized if and only if it is refused or its header block fits. -/
theorem wellSized_request_iff (ps : List (Nat × Nat)) (c : H2Connection)
    (headers : List HeaderField) (es : Bool) :
    WellSized ps c (.own (.sendRequest headers es)) ↔
      RequestFits ps c (.own (.sendRequest headers es)) := by
  have hps : recordParams ps c (.own (.sendRequest headers es)) = ps := append_nil ps
  rcases sendRequest_cases c headers es with ⟨e, herr⟩ | hok
  · have hrefused : ∀ headers' es' sid, ConnStep.own (.sendRequest headers es) =
        .own (.sendRequest headers' es') → (c.sendRequest headers' es').2 ≠ .ok sid := by
      rintro _ _ sid hx hsid
      cases hx
      rw [herr] at hsid
      cases hsid
    refine iff_of_true ⟨?_, fun headers' es' sid hx hsid => absurd hsid (hrefused _ _ sid hx)⟩
      fun headers' es' sid hx hsid => absurd hsid (hrefused _ _ sid hx)
    rw [sent_of_append [] (by rw [step, own, herr, append_nil])]
    exact fun _ hg => absurd hg not_mem_nil
  · have hsent : c.sent (.own (.sendRequest headers es)) =
        headerFrames c.nextStreamId es (c.encoder.encode headers).2 [] := by
      refine sent_of_append _ ?_
      rw [step, own, hok]
      rfl
    constructor
    · intro hsized headers' es' sid hx _
      cases hx
      have hfits := hsized.fits
      rw [hsent, hps] at hfits
      exact hfits _ mem_cons_self
    · intro hfits
      refine ⟨fun g hg => ?_, ?_⟩
      · rw [hsent] at hg
        obtain rfl := mem_singleton.mp hg
        rw [hps]
        exact hfits headers es c.nextStreamId rfl (by rw [hok])
      · rintro _ _ sid hx hsid
        cases hx
        rw [hok] at hsid
        cases hsid
        exact ⟨_, [], hsent, by rw [flatten_nil, append_nil]⟩

/-- **One step.**  The frames of a step are well sized if and only if its header block is. -/
theorem wellSized_iff (hgen : c.Genuine x) (h : FrameSizeInv ps c) :
    WellSized ps c x ↔ RequestFits ps c x := by
  by_cases hreq : ∃ headers es, x = .own (.sendRequest headers es)
  · obtain ⟨headers, es, rfl⟩ := hreq
    exact wellSized_request_iff ps c headers es
  · have hother : ∀ headers es, x ≠ .own (.sendRequest headers es) :=
      fun headers es hx => hreq ⟨headers, es, hx⟩
    refine iff_of_true ⟨fun g hg => ?_, fun headers es _ hx => absurd hx (hother headers es)⟩
      fun headers es _ hx => absurd hx (hother headers es)
    by_cases hdata : ∃ sid data es, x = .own (.sendData sid data es)
    · obtain ⟨sid, data, es, rfl⟩ := hdata
      have hps : recordParams ps c (.own (.sendData sid data es)) = ps := append_nil ps
      rw [hps]
      exact sent_data_fits h sid data es g hg
    · have hshort := sent_short hgen hother fun sid data es hx => hdata ⟨sid, data, es, hx⟩
      exact (hshort g hg).trans (frameSizeInv_step hgen h).advertised

theorem length_encode_settings (s : Settings) : s.encode.length ≤ 36 := by
  rw [Settings.encode]
  rcases s.maxConcurrentStreams with _ | _ <;> rcases s.maxHeaderListSize with _ | _ <;>
    simp [Settings.encodeSetting, length_be32Bytes]

end H2Connection

/-! ## Runs -/

namespace Client

open H2Connection

/-- The steps of a run of calls, each with the state it starts from and the parameters of the peer
received until then. -/
def settingsTrace (cl : Client) (calls : List Call) :
    List ((List (Nat × Nat) × H2Connection) × ConnStep) :=
  Machine.trace (Machine.withHistory step recordParams) ([], cl.conn) (cl.stepsOf calls)

variable (settings : Settings) (order : Table.Order Nat H2Stream)

theorem frameSizeInv_new : FrameSizeInv [] (new settings order).conn := ⟨le_rfl, le_rfl⟩

theorem frameSizeInv_settingsTrace (calls : List Call) :
    ∀ x ∈ (new settings order).settingsTrace calls,
      x.1.2.Genuine x.2 ∧ FrameSizeInv x.1.1 x.1.2 := by
  have hgen : ∀ x ∈ (new settings order).settingsTrace calls, x.1.2.Genuine x.2 := fun x hx =>
    genuine_traceOf _ calls (x.1.2, x.2) (Machine.mem_trace_of_withHistory hx)
  intro x hx
  refine ⟨hgen x hx, ?_⟩
  exact Machine.trace_invariant (P := fun p => FrameSizeInv p.1 p.2)
    (frameSizeInv_new settings order) (fun y hy => frameSizeInv_step (hgen y hy)) x hx

/-- **The frames sent are not longer than the peer accepts if and only if every header block fits
into one frame.**  The frames that open the connection always are. -/
theorem frames_fit_iff (calls : List Call) :
    (∀ g ∈ (new settings order).conn.sendBuf, g.payload.length ≤ advertisedFrameSize []) ∧
    ((∀ x ∈ (new settings order).settingsTrace calls, WellSized x.1.1 x.1.2 x.2) ↔
      ∀ x ∈ (new settings order).settingsTrace calls, RequestFits x.1.1 x.1.2 x.2) := by
  refine ⟨fun g hg => ?_, forall₂_congr fun x hx => ?_⟩
  · have hsettings := length_encode_settings settings
    rcases mem_cons.mp hg with rfl | hg
    · exact hsettings.trans (by decide)
    · split at hg
      · obtain rfl := mem_singleton.mp hg
        exact (length_be32Bytes _).le.trans (by decide)
      · exact absurd hg not_mem_nil
  · obtain ⟨hgen, hinv⟩ := frameSizeInv_settingsTrace settings order calls x hx
    exact wellSized_iff hgen hinv

/-- A header field with a value of 20000 bytes. -/
def longField : HeaderField := ⟨[0x61], replicate 20000 0xff⟩

/-- A value that Huffman coding does not shorten is written as it is. -/
theorem length_encodeStringLiteral_longField :
    20000 ≤ (encodeStringLiteral longField.value).length := by
  have hlen : longField.value.length = 20000 := length_replicate
  have hhuf : ¬ Huffman.encodedLen longField.value < longField.value.length := by
    rw [hlen, Huffman.encodedLen, longField, map_replicate, sum_replicate_nat]
    decide
  simp only [encodeStringLiteral, hhuf, if_false, length_append]
  omega

/-- **A long header block goes out in one frame.** -/
theorem header_block_too_long :
    ∃ (settings : Settings) (order : Table.Order Nat H2Stream) (calls : List Call),
      ¬ ∀ x ∈ (new settings order).settingsTrace calls, WellSized x.1.1 x.1.2 x.2 := by
  refine ⟨.clientDefault, .listed, [.own (.sendRequest [longField] true)], fun h => ?_⟩
  have hsized := h _ mem_cons_self
  have hfits := (wellSized_request_iff _ _ [longField] true).mp hsized [longField] true 1 rfl rfl
  have hblock : ((Encoder.new 4096).encode [longField]).2 =
      0x40 :: (encodeStringLiteral longField.name ++ encodeStringLiteral longField.value) ++ [] := by
    rfl
  change ((Encoder.new 4096).encode [longField]).2.length ≤ 16384 at hfits
  have hlong := length_encodeStringLiteral_longField
  rw [hblock, append_nil, length_cons, length_append] at hfits
  omega

end Client
end Ringline.H2
