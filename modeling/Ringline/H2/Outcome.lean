import Ringline.H2.Run

/-!
# What handling a frame does

`Dispatched c f c' r` lists the ways in which `dispatch` can end: from `c`, the frame `f` leads to
`c'` with the result `r`.  There is one constructor for each path through the handlers that changes
the connection in its own way, with the guards of that path; `dispatch_cases` says that the list is
complete, and `takeFrame_cases` wraps it up with the checks before and the fatal errors after.  A
header block is the same whether one HEADERS frame brings it or a CONTINUATION frame completes it,
so its paths are stated once (`BlockOutcome`), about the block.
-/

set_option autoImplicit false

namespace Ringline.H2

open List FlowControl Table.Order

/-! ## Requests -/

namespace H2Connection

/-- A request is refused or opens a stream. -/
theorem sendRequest_cases (c : H2Connection) (headers : List HeaderField) (es : Bool) :
    (∃ e, c.sendRequest headers es = (c, .error e)) ∨
      c.sendRequest headers es = (c.openStream headers es, .ok c.nextStreamId) := by
  rw [sendRequest]
  split
  · exact .inl ⟨_, rfl⟩
  · split
    · exact .inl ⟨_, rfl⟩
    · split
      · exact .inl ⟨_, rfl⟩
      · exact .inr rfl

/-- What a refusal and an opened stream have in common holds after `send_request`. -/
theorem sendRequest_induction {P : H2Connection → Prop} {c : H2Connection} {es : Bool}
    {headers : List HeaderField} (h : P c) (hopened : P (c.openStream headers es)) :
    P (c.sendRequest headers es).1 := by
  rcases sendRequest_cases c headers es with ⟨e, heq⟩ | heq
  · rw [heq]
    exact h
  · rw [heq]
    exact hopened

/-- `send_data` may send on this stream. -/
structure MaySend (c : H2Connection) (sid : Nat) (s : H2Stream) (data : List UInt8) : Prop where
  stream : c.streams.get? sid = some s
  state : s.state = .open ∨ s.state = .halfClosedRemote
  window : data.length % 4294967296 = 0 ∨
    ((data.length % 4294967296 : Nat) : Int) ≤ s.sendWindow.window
  conn : data.length % 4294967296 = 0 ∨
    ((data.length % 4294967296 : Nat) : Int) ≤ c.connSendWindow.window

/-- Data is refused or sent. -/
theorem mem_dataFrames {sid : Nat} {es : Bool} {chunks : List (List UInt8)} {g : Frame}
    (h : g ∈ dataFrames sid es chunks) : ∃ chunk ∈ chunks, ∃ e, g = .data sid chunk e := by
  induction chunks using dataFrames.induct with
  | case1 => exact absurd h not_mem_nil
  | case2 chunk => exact ⟨chunk, mem_singleton.mpr rfl, es, mem_singleton.mp h⟩
  | case3 chunk rest hrest ih =>
    rw [dataFrames, mem_cons] at h
    · rcases h with rfl | h
      · exact ⟨chunk, mem_cons_self, false, rfl⟩
      · obtain ⟨chunk', hmem, e, rfl⟩ := ih h
        exact ⟨chunk', mem_cons_of_mem _ hmem, e, rfl⟩
    · exact hrest

theorem sendData_cases (c : H2Connection) (sid : Nat) (data : List UInt8) (es : Bool) :
    (∃ e, c.sendData sid data es = (c, .error e)) ∨
      ∃ s, c.MaySend sid s data ∧ c.sendData sid data es = (c.sendChunks sid s data es, .ok ()) := by
  rw [sendData]
  rcases hs : c.streams.get? sid with _ | s
  · exact .inl ⟨_, rfl⟩
  · dsimp only
    by_cases hstate : s.state ≠ .open ∧ s.state ≠ .halfClosedRemote
    · exact .inl ⟨_, by rw [if_pos hstate]⟩
    rw [if_neg hstate]
    by_cases hwindow : 0 < data.length % 4294967296 ∧
        s.sendWindow.window < (data.length % 4294967296 : Nat)
    · exact .inl ⟨_, by rw [if_pos hwindow]⟩
    rw [if_neg hwindow]
    by_cases hconn : 0 < data.length % 4294967296 ∧
        c.connSendWindow.window < (data.length % 4294967296 : Nat)
    · exact .inl ⟨_, by rw [if_pos hconn]⟩
    rw [if_neg hconn]
    refine .inr ⟨s, ⟨hs, ?_, by omega, by omega⟩, rfl⟩
    by_contra hne
    exact hstate ⟨fun h => hne (.inl h), fun h => hne (.inr h)⟩

/-- What a refusal and every send have in common holds after `send_data`. -/
theorem sendData_induction {P : H2Connection → Prop} {c : H2Connection} {sid : Nat}
    {data : List UInt8} {es : Bool} (h : P c)
    (hsent : ∀ s, c.MaySend sid s data → P (c.sendChunks sid s data es)) :
    P (c.sendData sid data es).1 := by
  rcases sendData_cases c sid data es with ⟨e, heq⟩ | ⟨s, hmay, heq⟩
  · rw [heq]
    exact h
  · rw [heq]
    exact hsent s hmay

end H2Connection

/-! ## Windows -/

namespace FlowControl

variable {fc : FlowControl} {n : Nat}

theorem debit_eq_ok {fc' : FlowControl} (h : fc.debit n = .ok fc') :
    fc'.window = fc.window - n ∧ (n = 0 ∨ (n : Int) ≤ fc.window) := by
  rw [debit] at h
  split at h
  · rw [consume] at h
    split at h
    · cases h
    · obtain rfl := Except.ok.inj h
      exact ⟨rfl, .inr (by omega)⟩
  · obtain rfl := Except.ok.inj h
    exact ⟨by omega, .inl (by omega)⟩

theorem debit_eq_error {e : H2Error} (h : fc.debit n = .error e) : fc.window < n := by
  rw [debit] at h
  split at h
  · rw [consume] at h
    split at h
    · omega
    · cases h
  · cases h

theorem increase_eq_ok {fc' : FlowControl} (h : fc.increase n = .ok fc') :
    fc'.window = fc.window + n ∧ fc'.window ≤ 0x7fffffff := by
  rw [increase] at h
  split at h
  · cases h
  · rename_i hle
    obtain rfl := Except.ok.inj h
    exact ⟨rfl, Int.not_lt.mp hle⟩

theorem increase_eq_error {e : H2Error} (h : fc.increase n = .error e) : fc.window + n > 0x7fffffff := by
  rw [increase] at h
  split at h
  · assumption
  · cases h

theorem increaseOrKeep_of_le (h : fc.window + n ≤ 0x7fffffff) :
    fc.increaseOrKeep n = ⟨fc.window + n⟩ := by
  rw [increaseOrKeep, increase, if_neg (by omega)]

end FlowControl

/-! ## Window updates -/

/-- A stream before and after, up to its receive window. -/
def SameSend (o o' : Option H2Stream) : Prop :=
  o'.map (fun s => { s with recvWindow := ⟨0⟩ }) = o.map fun s => { s with recvWindow := ⟨0⟩ }

/-- WINDOW_UPDATE frames are sent for receive windows, and nothing else changes. -/
theorem H2Connection.maybeSendWindowUpdates_eq (c : H2Connection) (sid n : Nat) :
    ∃ w t fs, c.maybeSendWindowUpdates sid n =
        { c with connRecvWindow := w, streams := t, sendBuf := c.sendBuf ++ fs } ∧
      (∀ j, SameSend (c.streams.get? j) (t.get? j)) ∧
      ∀ g ∈ fs, ∃ k inc, g = Frame.windowUpdate k inc := by
  have hnone : ∀ g ∈ ([] : List Frame), ∃ k inc, g = Frame.windowUpdate k inc :=
    fun _ hg => absurd hg not_mem_nil
  have hone : ∀ k inc, ∀ g ∈ [Frame.windowUpdate k inc], ∃ k inc, g = Frame.windowUpdate k inc :=
    fun k inc g hg => ⟨k, inc, mem_singleton.mp hg⟩
  have hconn : ∃ w fs, c.updateConnWindow =
      { c with connRecvWindow := w, sendBuf := c.sendBuf ++ fs } ∧
      ∀ g ∈ fs, ∃ k inc, g = Frame.windowUpdate k inc := by
    rw [updateConnWindow]
    split
    · exact ⟨_, _, rfl, hone _ _⟩
    · exact ⟨c.connRecvWindow, [], by rw [append_nil], hnone⟩
  have hstream : ∀ c : H2Connection, ∃ t fs, c.updateStreamWindow sid =
      { c with streams := t, sendBuf := c.sendBuf ++ fs } ∧
      (∀ j, SameSend (c.streams.get? j) (t.get? j)) ∧
      ∀ g ∈ fs, ∃ k inc, g = Frame.windowUpdate k inc := by
    intro c
    rw [updateStreamWindow]
    split
    · exact ⟨c.streams, [], by rw [append_nil], fun _ => rfl, hnone⟩
    · dsimp only
      split
      · refine ⟨_, _, rfl, fun j => ?_, hone _ _⟩
        rw [SameSend, Table.get?_modify]
        split
        · rw [Option.map_map]
          rfl
        · rfl
      · exact ⟨c.streams, [], by rw [append_nil], fun _ => rfl, hnone⟩
  rw [maybeSendWindowUpdates]
  split
  · exact ⟨c.connRecvWindow, c.streams, [], by rw [append_nil], fun _ => rfl, hnone⟩
  · obtain ⟨w, fs, hc, hfs⟩ := hconn
    obtain ⟨t, gs, hs, hsame, hgs⟩ := hstream c.updateConnWindow
    refine ⟨w, t, fs ++ gs, ?_, ?_, fun g hg => ?_⟩
    · rw [hs, hc, append_assoc]
    · rw [hc] at hsame
      exact hsame
    · rcases mem_append.mp hg with hg | hg
      · exact hfs g hg
      · exact hgs g hg

/-! ## Header blocks -/

/-- A complete header block. -/
structure Block where
  streamId : Nat
  encoded : List UInt8
  endStream : Bool

namespace H2Connection

variable {f : Frame} {c c' : H2Connection} {r : Except H2Error Unit}

/-- The header block that a frame completes, if its stream is in the table. -/
def completes (c : H2Connection) : Frame → Option Block
  | .headers sid encoded es true _ =>
    (c.streams.get? sid).map fun s => ⟨sid, s.headerBuf ++ encoded, es⟩
  | .continuation sid encoded true =>
    (c.streams.get? sid).map fun s => ⟨sid, s.headerBuf ++ encoded, s.headersEndStream⟩
  | _ => none

/-- The frames that complete a block: they end its headers, and their stream is in the table. -/
inductive Completes (c : H2Connection) : Frame → Block → Prop
  | headers {sid : Nat} {s : H2Stream} (encoded : List UInt8) (es : Bool) (p : Option Priority)
      (hs : c.streams.get? sid = some s) :
    Completes c (.headers sid encoded es true p) ⟨sid, s.headerBuf ++ encoded, es⟩
  | continuation {sid : Nat} {s : H2Stream} (encoded : List UInt8) (hs : c.streams.get? sid = some s) :
    Completes c (.continuation sid encoded true) ⟨sid, s.headerBuf ++ encoded, s.headersEndStream⟩

variable {b : Block} {s : Settings}

theorem completes_cases (hb : c.completes f = some b) : Completes c f b := by
  unfold completes at hb
  split at hb
  · obtain ⟨s, hs, rfl⟩ := Option.map_eq_some_iff.mp hb
    exact .headers _ _ _ hs
  · obtain ⟨s, hs, rfl⟩ := Option.map_eq_some_iff.mp hb
    exact .continuation _ hs
  · cases hb

/-- The connection once the block is taken out of the buffer of its stream. -/
def takeBlock (c : H2Connection) : Frame → H2Connection
  | .headers sid _ _ _ _ =>
    { c with streams := c.streams.modify sid fun s => { s with headerBuf := [] } }
  | .continuation sid _ _ =>
    { c with
      streams := c.streams.modify sid fun s => { s with headerBuf := [], receivingHeaders := false }
      continuationStream := none }
  | _ => c

/-- The decoder after a block. -/
def withDecoded (c : H2Connection) (b : Block) : H2Connection :=
  { c with decoder := (c.decoder.decode b.encoded).1 }

/-- How `decode_and_emit_headers` ends. -/
inductive BlockOutcome (c : H2Connection) (b : Block) : H2Connection → Except H2Error Unit → Prop
  | tooLong (e : H2Error) : BlockOutcome c b c (.error e)
  | refused (e : H2Error) : BlockOutcome c b (c.withDecoded b) (.error e)
  | gone (hgone : c.streams.get? b.streamId = none) : BlockOutcome c b (c.withDecoded b) (.ok ())
  | delivered (s : H2Stream) (headers : List HeaderField)
      (hstream : c.streams.get? b.streamId = some s)
      (hdecoded : (c.decoder.decode b.encoded).2 = .ok headers)
      (hcheck : checkHeaders s headers b.endStream = .ok ()) :
      BlockOutcome c b ((c.withDecoded b).deliverHeaders b.streamId s headers b.endStream) (.ok ())

variable (c)

theorem emitHeaders_cases (b : Block) {headers : List HeaderField}
    (h : (c.decoder.decode b.encoded).2 = .ok headers) :
    BlockOutcome c b ((c.withDecoded b).emitHeaders b.streamId headers b.endStream).1
      ((c.withDecoded b).emitHeaders b.streamId headers b.endStream).2 := by
  rw [emitHeaders]
  split
  · exact .refused _
  · rcases hs : (c.withDecoded b).streams.get? b.streamId with _ | s
    · exact .gone hs
    · rcases hcheck : checkHeaders s headers b.endStream with e | _
      · simp only [hcheck]
        exact .refused e
      · simp only [hcheck]
        exact .delivered s headers hs h hcheck

theorem decodeAndEmitHeaders_cases (b : Block) :
    BlockOutcome c b (c.decodeAndEmitHeaders b.streamId b.encoded b.endStream).1
      (c.decodeAndEmitHeaders b.streamId b.encoded b.endStream).2 := by
  rw [decodeAndEmitHeaders]
  split
  · exact .tooLong _
  · rcases hdec : (c.decoder.decode b.encoded).2 with (e | _) | headers
    · simp only [hdec]
      exact .refused e
    · simp only [hdec]
      exact .refused _
    · simp only [hdec]
      exact emitHeaders_cases c b hdec

/-! ## Frames -/

/-- DATA was not accepted for a stream: it is gone, or the peer had ended it. -/
def Unreceptive (sid : Nat) : Prop :=
  ∀ s, c.streams.get? sid = some s → s.state = .closed ∨ s.state = .halfClosedRemote

/-- The frames that can be ignored; a CONTINUATION is when its stream is gone. -/
def Passive : Frame → Prop
  | .priority _ _ => True
  | .unknown _ _ _ _ => True
  | .continuation sid _ _ => c.streams.get? sid = none
  | _ => False

/-- The frames that fail before anything is changed. -/
def Fails : Frame → Prop
  | .headers sid _ _ _ _ => c.streams.get? sid = none
  | .data _ payload _ => c.connRecvWindow.window < (payload.length % 4294967296 : Nat)
  | .goAway _ _ _ => True
  | .windowUpdate sid inc => sid = 0 ∧ c.connSendWindow.window + inc > 0x7fffffff
  | .pushPromise _ _ _ _ => True
  | _ => False

variable {c}

/-- How `dispatch` ends. -/
inductive Dispatched (c : H2Connection) : Frame → H2Connection → Except H2Error Unit → Prop
  | ignored {f : Frame} (h : c.Passive f) : Dispatched c f c (.ok ())
  | failed {f : Frame} (h : c.Fails f) (e : H2Error) : Dispatched c f c (.error e)
  | acknowledged (s : Settings) :
    Dispatched c (.settings true s) (c.push .settingsAcknowledged) (.ok ())
  | settings (s : Settings) :
    Dispatched c (.settings false s) (c.handleSettings false s).1 (c.handleSettings false s).2
  | headersBegun {sid : Nat} {encoded : List UInt8} {es : Bool} {p : Option Priority} {s : H2Stream}
      (hstream : c.streams.get? sid = some s) :
    Dispatched c (.headers sid encoded es false p)
      { c with
        streams := c.streams.modify sid fun s =>
          { s with
            headerBuf := s.headerBuf ++ encoded
            receivingHeaders := true
            headersEndStream := es }
        continuationStream := some sid } (.ok ())
  | headersContinued {sid : Nat} {encoded : List UInt8} {s : H2Stream}
      (hstream : c.streams.get? sid = some s) :
    Dispatched c (.continuation sid encoded false)
      { c with
        streams := c.streams.modify sid fun s =>
          { s with headerBuf := s.headerBuf ++ encoded } } (.ok ())
  | block {f : Frame} {b : Block} {c' : H2Connection} {r : Except H2Error Unit}
      (hb : c.completes f = some b) (h : BlockOutcome (c.takeBlock f) b c' r) : Dispatched c f c' r
  | dataRefused {sid : Nat} {payload : List UInt8} {es : Bool} {w : FlowControl}
      (hw : c.connRecvWindow.debit (payload.length % 4294967296) = .ok w)
      (hgone : c.Unreceptive sid) :
    Dispatched c (.data sid payload es)
      { ({ c with connRecvWindow := w } : H2Connection).refuseData sid
          (payload.length % 4294967296) with
        streams := c.streams.erase sid } (.ok ())
  | dataOverrun {sid : Nat} {payload : List UInt8} {es : Bool} {w : FlowControl} {s : H2Stream}
      (hw : c.connRecvWindow.debit (payload.length % 4294967296) = .ok w)
      (hstream : c.streams.get? sid = some s) (hclosed : s.state ≠ .closed)
      (hremote : s.state ≠ .halfClosedRemote)
      (hover : s.recvWindow.window < (payload.length % 4294967296 : Nat)) (e : H2Error) :
    Dispatched c (.data sid payload es) { c with connRecvWindow := w } (.error e)
  | dataDelivered {sid : Nat} {payload : List UInt8} {es : Bool} {w rw : FlowControl}
      {s : H2Stream} (hw : c.connRecvWindow.debit (payload.length % 4294967296) = .ok w)
      (hstream : c.streams.get? sid = some s) (hclosed : s.state ≠ .closed)
      (hremote : s.state ≠ .halfClosedRemote)
      (hrw : s.recvWindow.debit (payload.length % 4294967296) = .ok rw) :
    Dispatched c (.data sid payload es)
      (({ c with connRecvWindow := w } : H2Connection).deliverData sid s rw payload es) (.ok ())
  | reset (sid : Nat) (code : ErrorCode) :
    Dispatched c (.rstStream sid code)
      (({ c with streams := c.streams.erase sid } : H2Connection).push (.streamReset sid code))
      (.ok ())
  | pong (data : List UInt8) :
    Dispatched c (.ping true data) (c.push (.pingAcknowledged data)) (.ok ())
  | ping (data : List UInt8) : Dispatched c (.ping false data) (c.emit (.ping true data)) (.ok ())
  | goAway (last : Nat) (code : ErrorCode) (debugData : List UInt8) :
    Dispatched c (.goAway last code debugData)
      ((({ c with peerLastStreamId := some last, state := .closing } : H2Connection).push
        (.goAway last code debugData)).resetAll
          ((c.order.walk c.streams).keys.filter (last < ·))) (.ok ())
  | connCredit {inc : Nat} {w : FlowControl} (hw : c.connSendWindow.increase inc = .ok w) :
    Dispatched c (.windowUpdate 0 inc) { c with connSendWindow := w } (.ok ())
  | creditUnknown {sid inc : Nat} (hsid : sid ≠ 0) (hgone : c.streams.get? sid = none) :
    Dispatched c (.windowUpdate sid inc) (c.emit (.rstStream sid .streamClosed)) (.ok ())
  | credit {sid inc : Nat} {s : H2Stream} {w : FlowControl} (hsid : sid ≠ 0)
      (hstream : c.streams.get? sid = some s) (hw : s.sendWindow.increase inc = .ok w) :
    Dispatched c (.windowUpdate sid inc)
      { c with streams := c.streams.modify sid fun s => { s with sendWindow := w } } (.ok ())
  | creditOverflow {sid inc : Nat} {s : H2Stream} (hsid : sid ≠ 0)
      (hstream : c.streams.get? sid = some s) (hw : s.sendWindow.window + inc > 0x7fffffff) :
    Dispatched c (.windowUpdate sid inc)
      (((({ c with streams := c.streams.erase sid } : H2Connection)).emit
        (.rstStream sid .flowControlError)).push (.streamReset sid .flowControlError)) (.ok ())
  | pushRefused (sid promised : Nat) (encoded : List UInt8) (eh : Bool) :
    Dispatched c (.pushPromise sid promised encoded eh)
      (c.emit (.rstStream promised .refusedStream)) (.ok ())

theorem eq_settings_of_opens (h : opens f = true) : ∃ s, f = .settings false s := by
  cases f with
  | settings ack s =>
    cases ack with
    | true => cases h
    | false => exact ⟨s, rfl⟩
  | _ => cases h

/-- SETTINGS take one path only. -/
theorem Dispatched.settings_eq (h : Dispatched c (.settings false s) c' r) :
    c' = (c.handleSettings false s).1 ∧ r = (c.handleSettings false s).2 := by
  cases h with
  | settings => exact ⟨rfl, rfl⟩
  | ignored h => exact h.elim
  | failed h => exact h.elim
  | block hb => cases hb

section

variable (c : H2Connection)

theorem handleHeaders_cases (sid : Nat) (encoded : List UInt8) (es eh : Bool)
    (p : Option Priority) :
    Dispatched c (.headers sid encoded es eh p) (c.handleHeaders sid encoded es eh).1
      (c.handleHeaders sid encoded es eh).2 := by
  rw [handleHeaders]
  rcases hs : c.streams.get? sid with _ | s
  · exact .failed (by exact hs) _
  · cases eh with
    | false => exact .headersBegun hs
    | true =>
      exact .block (b := ⟨sid, s.headerBuf ++ encoded, es⟩) (by rw [completes, hs]; rfl)
        (decodeAndEmitHeaders_cases _ _)

theorem handleContinuation_cases (sid : Nat) (encoded : List UInt8) (eh : Bool) :
    Dispatched c (.continuation sid encoded eh) (c.handleContinuation sid encoded eh).1
      (c.handleContinuation sid encoded eh).2 := by
  rw [handleContinuation]
  rcases hs : c.streams.get? sid with _ | s
  · exact .ignored hs
  · cases eh with
    | false => exact .headersContinued hs
    | true =>
      exact .block (b := ⟨sid, s.headerBuf ++ encoded, s.headersEndStream⟩)
        (by rw [completes, hs]; rfl) (decodeAndEmitHeaders_cases _ _)

theorem handleData_cases (sid : Nat) (payload : List UInt8) (es : Bool) :
    Dispatched c (.data sid payload es) (c.handleData sid payload es).1
      (c.handleData sid payload es).2 := by
  rw [handleData]
  rcases hw : c.connRecvWindow.debit (payload.length % 4294967296) with e | w
  · exact .failed (by exact debit_eq_error hw) e
  · rcases hs : c.streams.get? sid with _ | s
    · have h : Dispatched c (.data sid payload es) _ _ :=
        .dataRefused hw fun s hs' => absurd (hs.symm.trans hs') (by simp)
      rw [Table.erase_of_get?_none hs] at h
      simp only [hs]
      convert h using 2
      rw [refuseData]
      split <;> rfl
    · by_cases hgone : s.state = .closed ∨ s.state = .halfClosedRemote
      · have h : Dispatched c (.data sid payload es) _ _ :=
          .dataRefused hw fun s' hs' => Option.some_inj.mp (hs.symm.trans hs') ▸ hgone
        simp only [hs, hgone, if_true]
        convert h using 3
        rw [refuseData]
        split <;> rfl
      · simp only [hs, hgone, if_false]
        rcases hrw : s.recvWindow.debit (payload.length % 4294967296) with e | rw
        · exact .dataOverrun hw hs (fun h => hgone (.inl h)) (fun h => hgone (.inr h))
            (debit_eq_error hrw) e
        · exact .dataDelivered hw hs (fun h => hgone (.inl h)) (fun h => hgone (.inr h)) hrw

theorem handleWindowUpdate_cases (sid inc : Nat) :
    Dispatched c (.windowUpdate sid inc) (c.handleWindowUpdate sid inc).1
      (c.handleWindowUpdate sid inc).2 := by
  rw [handleWindowUpdate]
  split
  · rename_i hsid
    subst hsid
    rcases hw : c.connSendWindow.increase inc with e | w
    · exact .failed (by exact ⟨rfl, increase_eq_error hw⟩) e
    · exact .connCredit hw
  · rename_i hsid
    rcases hs : c.streams.get? sid with _ | s
    · exact .creditUnknown hsid hs
    · rcases hw : s.sendWindow.increase inc with e | w
      · simp only [hw]
        exact .creditOverflow hsid hs (increase_eq_error hw)
      · simp only [hw]
        exact .credit hsid hs hw

/-- **The paths through the handlers.** -/
theorem dispatch_cases (f : Frame) : Dispatched c f (c.dispatch f).1 (c.dispatch f).2 := by
  cases f with
  | data sid payload es => exact handleData_cases c sid payload es
  | headers sid encoded es eh p => exact handleHeaders_cases c sid encoded es eh p
  | priority sid p => exact .ignored trivial
  | rstStream sid code => exact .reset sid code
  | settings ack s =>
    cases ack with
    | true => exact .acknowledged s
    | false => exact .settings s
  | pushPromise sid promised encoded eh =>
    rw [dispatch]
    split
    · exact .failed (by trivial) _
    · exact .pushRefused sid promised encoded eh
  | ping ack data =>
    cases ack with
    | true => exact .pong data
    | false => exact .ping data
  | goAway last code debugData =>
    rw [dispatch, handleGoAway]
    split
    · exact .failed (by trivial) _
    · exact .goAway last code debugData
  | windowUpdate sid inc => exact handleWindowUpdate_cases c sid inc
  | continuation sid encoded eh => exact handleContinuation_cases c sid encoded eh
  | unknown t fl sid payload => exact .ignored trivial

/-- **What handling a frame can do.**  Either the frame may not come now, which is fatal and
changes nothing else, or one of the paths through the handlers is taken. -/
theorem takeFrame_cases (f : Frame) :
    (∃ e b, c.admits f = .error e ∧
      c.takeFrame f = ({ c with receivedAnyFrame := b } : H2Connection).fatalError e) ∨
    (c.admits f = .ok () ∧ ∃ c' r,
      Dispatched { c with receivedAnyFrame := true } f c' r ∧ c.takeFrame f = c'.settle r) := by
  rw [takeFrame, handleFrame]
  rcases hadmits : c.admits f with e | _
  · exact .inl ⟨e, _, rfl, rfl⟩
  · exact .inr ⟨rfl, _, _, dispatch_cases _ f, rfl⟩

end

/-! ## What the handlers leave alone -/

/-- What delivering headers and data and resetting streams do not touch. -/
structure Inert where
  state : ConnState
  localSettings : Settings
  remoteSettings : Settings
  order : Table.Order Nat H2Stream
  nextStreamId : Nat
  connSendWindow : FlowControl
  encoder : Encoder
  decoder : Decoder
  continuationStream : Option Nat
  initialRecvWindow : Int
  maxRecvBuf : Nat
  receivedAnyFrame : Bool
  peerLastStreamId : Option Nat

def inert (c : H2Connection) : Inert where
  state := c.state
  localSettings := c.localSettings
  remoteSettings := c.remoteSettings
  order := c.order
  nextStreamId := c.nextStreamId
  connSendWindow := c.connSendWindow
  encoder := c.encoder
  decoder := c.decoder
  continuationStream := c.continuationStream
  initialRecvWindow := c.initialRecvWindow
  maxRecvBuf := c.maxRecvBuf
  receivedAnyFrame := c.receivedAnyFrame
  peerLastStreamId := c.peerLastStreamId

theorem inert_resetAll (ids : List Nat) (c : H2Connection) : (c.resetAll ids).inert = c.inert := by
  induction ids generalizing c with
  | nil => rfl
  | cons id ids ih =>
    rw [resetAll, ih]
    rfl

/-- What only SETTINGS or the client itself can change. -/
structure Setup where
  localSettings : Settings
  remoteSettings : Settings
  order : Table.Order Nat H2Stream
  nextStreamId : Nat
  encoder : Encoder
  initialRecvWindow : Int
  maxRecvBuf : Nat

def setup (c : H2Connection) : Setup where
  localSettings := c.localSettings
  remoteSettings := c.remoteSettings
  order := c.order
  nextStreamId := c.nextStreamId
  encoder := c.encoder
  initialRecvWindow := c.initialRecvWindow
  maxRecvBuf := c.maxRecvBuf

theorem setup_of_inert (h : c'.inert = c.inert) : c'.setup = c.setup :=
  congrArg (fun i => (⟨i.localSettings, i.remoteSettings, i.order, i.nextStreamId, i.encoder,
    i.initialRecvWindow, i.maxRecvBuf⟩ : Setup)) h

section

variable (c : H2Connection)

theorem inert_deliverHeaders (sid : Nat) (s : H2Stream) (headers : List HeaderField) (es : Bool) :
    (c.deliverHeaders sid s headers es).inert = c.inert := by
  rw [deliverHeaders]
  split <;> rfl

theorem inert_refuseData (sid n : Nat) : (c.refuseData sid n).inert = c.inert := by
  rw [refuseData]
  split <;> rfl

theorem inert_deliverData (sid : Nat) (s : H2Stream) (w : FlowControl) (payload : List UInt8)
    (es : Bool) : (c.deliverData sid s w payload es).inert = c.inert := by
  have hupdates : ∀ c : H2Connection,
      (c.maybeSendWindowUpdates sid (payload.length % 4294967296)).inert = c.inert := by
    intro c
    obtain ⟨w, t, fs, h, -, -⟩ := maybeSendWindowUpdates_eq c sid (payload.length % 4294967296)
    rw [h]
    rfl
  rw [deliverData]
  split <;> exact hupdates _

theorem setup_fatalError (e : H2Error) : (c.fatalError e).setup = c.setup := by
  rw [fatalError]
  split <;> rfl

theorem setup_settle (r : Except H2Error Unit) : (c.settle r).setup = c.setup := by
  rcases r with e | _
  · exact setup_fatalError c e
  · rfl

theorem setup_takeBlock (f : Frame) : (c.takeBlock f).setup = c.setup := by
  cases f <;> rfl

end

theorem BlockOutcome.setup_eq (h : BlockOutcome c b c' r) : c'.setup = c.setup := by
  cases h with
  | delivered s headers =>
    exact (setup_of_inert (inert_deliverHeaders (c.withDecoded b) _ s headers _)).trans rfl
  | _ => rfl

theorem Dispatched.setup_eq (h : Dispatched c f c' r) (hf : opens f = false) :
    c'.setup = c.setup := by
  cases h with
  | settings s => exact absurd hf nofun
  | block hb h => exact h.setup_eq.trans (setup_takeBlock c f)
  | @dataRefused sid payload es w hw hgone =>
    exact setup_of_inert (inert_refuseData { c with connRecvWindow := w } sid _)
  | dataDelivered hw hstream hclosed hremote hrw =>
    exact (setup_of_inert (inert_deliverData _ _ _ _ _ _)).trans rfl
  | goAway last code debugData => exact (setup_of_inert (inert_resetAll _ _)).trans rfl
  | _ => rfl

/-- Only a non-ACK SETTINGS frame changes the setup. -/
theorem setup_takeFrame (c : H2Connection) (hf : opens f = false) :
    (c.takeFrame f).setup = c.setup := by
  rcases takeFrame_cases c f with ⟨e, b, -, hc⟩ | ⟨-, c', r, h, hc⟩
  · rw [hc, setup_fatalError]
    rfl
  · rw [hc, setup_settle, h.setup_eq hf]
    rfl

/-! ## SETTINGS -/

/-- A stream before and after SETTINGS changed the initial window by `delta`. -/
inductive Adjusted (delta : Int) : Option H2Stream → Option H2Stream → Prop
  | same (s : Option H2Stream) : Adjusted delta s s
  | moved {s : H2Stream} (hopen : s.state ≠ .closed)
      (hle : s.sendWindow.window + delta ≤ 0x7fffffff) :
    Adjusted delta (some s) (some { s with sendWindow := ⟨s.sendWindow.window + delta⟩ })

/-- The change of the initial window that SETTINGS bring. -/
def delta (c : H2Connection) (s : Settings) : Int :=
  (s.initialWindowSize : Int) - c.remoteSettings.initialWindowSize

/-- The effect of a non-ACK SETTINGS frame. -/
structure SettingsApplied (c : H2Connection) (s : Settings) (c' : H2Connection)
    (r : Except H2Error Unit) : Prop where
  localSettings : c'.localSettings = c.localSettings
  remoteSettings : c'.remoteSettings = s
  order : c'.order = c.order
  nextStreamId : c'.nextStreamId = c.nextStreamId
  encoder : c'.encoder = c.encoder.updateMaxTableSize s.headerTableSize
  decoder : c'.decoder = c.decoder
  initialRecvWindow : c'.initialRecvWindow = c.initialRecvWindow
  maxRecvBuf : c'.maxRecvBuf = c.maxRecvBuf
  connRecvWindow : c'.connRecvWindow = c.connRecvWindow
  connSendWindow : c'.connSendWindow = c.connSendWindow
  continuationStream : c'.continuationStream = c.continuationStream
  events : c'.events = c.events
  done : c.state.done = false → c'.state.done = false
  sendBuf : c'.sendBuf = c.sendBuf ∨ c'.sendBuf = c.sendBuf ++ [.settings true {}]
  adjusted : ∀ sid, Adjusted (c.delta s) (c.streams.get? sid) (c'.streams.get? sid)
  /-- On success every stream that is not closed has moved. -/
  moved : r = .ok () → ∀ sid st, c.streams.get? sid = some st → st.state ≠ .closed →
    c'.streams.get? sid = some { st with sendWindow := ⟨st.sendWindow.window + c.delta s⟩ }
  /-- It fails only if a window overflows. -/
  failed : ∀ e, r = .error e → ∃ sid st, c.streams.get? sid = some st ∧ st.state ≠ .closed ∧
    st.sendWindow.window + c.delta s > 0x7fffffff

theorem adjustStream_eq_ok {d : Int} {s s' : H2Stream} (h : adjustStream d s = .ok s') :
    Adjusted d (some s) (some s') ∧
      (s.state ≠ .closed → s' = { s with sendWindow := ⟨s.sendWindow.window + d⟩ }) := by
  rw [adjustStream] at h
  split at h
  · rename_i hclosed
    obtain rfl := Except.ok.inj h
    exact ⟨.same _, fun hopen => absurd hclosed hopen⟩
  · rename_i hopen
    rcases hw : s.sendWindow.adjust d with e | w
    · rw [hw] at h
      cases h
    · rw [hw] at h
      obtain rfl := Except.ok.inj h
      rw [adjust] at hw
      split at hw
      · cases hw
      · obtain rfl := Except.ok.inj hw
        exact ⟨.moved hopen (by omega), fun _ => rfl⟩

theorem adjustStream_eq_error {d : Int} {s : H2Stream} {e : H2Error}
    (h : adjustStream d s = .error e) :
    s.state ≠ .closed ∧ s.sendWindow.window + d > 0x7fffffff := by
  rw [adjustStream] at h
  split at h
  · cases h
  · rename_i hopen
    rw [adjust] at h
    split at h
    · rename_i hw
      split at hw
      · exact ⟨hopen, by assumption⟩
      · cases hw
    · cases h

/-- The walk over the streams; it is left out when the initial window stays the same. -/
theorem adjusted_adjustStreams (c : H2Connection) (d : Int) :
    (∀ sid, Adjusted d (c.streams.get? sid) ((c.adjustStreams d).1.get? sid)) ∧
      ((c.adjustStreams d).2 = .ok () → ∀ sid st, c.streams.get? sid = some st →
        st.state ≠ .closed →
        (c.adjustStreams d).1.get? sid =
          some { st with sendWindow := ⟨st.sendWindow.window + d⟩ }) ∧
      (∀ e, (c.adjustStreams d).2 = .error e → ∃ sid st, c.streams.get? sid = some st ∧
        st.state ≠ .closed ∧ st.sendWindow.window + d > 0x7fffffff) := by
  rw [adjustStreams]
  split
  · refine ⟨fun sid => ?_, fun hok sid st hst hopen => ?_, fun e he => ?_⟩
    · rcases Table.get?_tryMap (c.order.walk c.streams) (adjustStream d) sid with
        ⟨h, -⟩ | ⟨s, s', hs, hadj, hs'⟩
      · rw [h, get?_walk]
        exact .same _
      · rw [get?_walk] at hs
        rw [hs, hs']
        exact (adjustStream_eq_ok hadj).1
    · rcases Table.get?_tryMap (c.order.walk c.streams) (adjustStream d) sid with
        ⟨-, hnone⟩ | ⟨s, s', hs, hadj, hs'⟩
      · cases hst.symm.trans ((get?_walk ..).symm.trans (hnone hok))
      · rw [get?_walk, hst] at hs
        obtain rfl := Option.some_inj.mp hs
        rw [hs', (adjustStream_eq_ok hadj).2 hopen]
    · obtain ⟨sid, st, hst, hadj⟩ := Table.exists_of_tryMap_error he
      rw [get?_walk] at hst
      exact ⟨sid, st, hst, adjustStream_eq_error hadj⟩
  · rename_i hd
    obtain rfl : d = 0 := not_not.mp hd
    refine ⟨fun sid => .same _, fun _ sid st hst _ => ?_, fun e he => by cases he⟩
    rw [hst]
    simp

/-- The connection with new settings of the peer in force. -/
def configured (c : H2Connection) (s : Settings) : H2Connection :=
  { c with
    remoteSettings := s
    encoder := c.encoder.updateMaxTableSize s.headerTableSize
    streams := (c.adjustStreams (c.delta s)).1 }

theorem handleSettings_of_error {e : H2Error} (h : (c.adjustStreams (c.delta s)).2 = .error e) :
    c.handleSettings false s = (c.configured s, .error e) := by
  rw [delta] at h
  simp only [handleSettings, Bool.false_eq_true, if_false, h]
  rfl

theorem handleSettings_of_ok (h : (c.adjustStreams (c.delta s)).2 = .ok ()) :
    c.handleSettings false s =
      ({ (c.configured s).emit (.settings true {}) with
          state := if c.state = .waitingPreface then .ready else c.state }, .ok ()) := by
  rw [delta] at h
  simp only [handleSettings, Bool.false_eq_true, if_false, h]
  change (if c.state = .waitingPreface then _ else _, _) = _
  split <;> rfl

/-- **What SETTINGS do.** -/
theorem settingsApplied (c : H2Connection) (s : Settings) :
    SettingsApplied c s (c.handleSettings false s).1 (c.handleSettings false s).2 := by
  obtain ⟨hadj, hmoved, hfailed⟩ := adjusted_adjustStreams c (c.delta s)
  rcases hr : (c.adjustStreams (c.delta s)).2 with e | _
  · rw [handleSettings_of_error hr]
    constructor
    case done => exact id
    case sendBuf => exact .inl rfl
    case adjusted => exact hadj
    case moved => exact fun h => by cases h
    case failed => exact fun e' _ => hfailed e hr
    all_goals rfl
  · rw [handleSettings_of_ok hr]
    constructor
    case done =>
      intro hdone
      simp only
      split
      · rfl
      · exact hdone
    case sendBuf => exact .inr rfl
    case adjusted => exact hadj
    case moved => exact fun _ => hmoved hr
    case failed => exact fun e' h => by cases h
    all_goals rfl

/-- The header block that a frame continues. -/
def continues : Frame → Option Nat
  | .continuation sid _ _ => some sid
  | _ => none

/-- A header block that has begun goes on, and nothing else does. -/
theorem continuationStream_of_admits (h : c.admits f = .ok ()) :
    c.continuationStream = continues f := by
  rcases hcont : c.continuationStream with _ | expected
  · cases f with
    | continuation sid encoded eh =>
      simp only [admits, hcont] at h
      split at h <;> cases h
    | _ => rfl
  · cases f with
    | continuation sid encoded eh =>
      simp only [admits, hcont] at h
      split at h
      · cases h
      · split at h
        · rename_i heq
          rw [heq]
          rfl
        · cases h
    | _ =>
      simp only [admits, hcont] at h
      split at h <;> cases h

theorem admit_settings (h : c.continuationStream = none) (s : Settings) :
    c.admits (.settings false s) = .ok () := by
  simp [admits, opens, h]

theorem admit_settings_ne (h : c.continuationStream ≠ none) (s : Settings) :
    ∃ e, c.admits (.settings false s) = .error e := by
  obtain ⟨sid, hsid⟩ := Option.ne_none_iff_exists'.mp h
  exact ⟨_, by simp only [admits, opens, hsid, Bool.or_true, Bool.not_true, Bool.false_eq_true,
    if_false]; rfl⟩

/-- SETTINGS that do not interrupt a header block are applied. -/
theorem takeFrame_settings (h : c.continuationStream = none) (s : Settings) :
    ∃ c' r, SettingsApplied c s c' r ∧ c.takeFrame (.settings false s) = c'.settle r := by
  have happlied := settingsApplied { c with receivedAnyFrame := true } s
  refine ⟨_, _, { happlied with }, ?_⟩
  rw [takeFrame, handleFrame, admit_settings h]
  rfl

/-! ## What is sent in answer -/

/-- A frame that the client sends in answer to `f` or because of it. -/
def Answers (f : Frame) : Frame → Prop
  | .settings true _ => True
  | .windowUpdate _ _ => True
  | .rstStream _ _ => True
  | .goAway _ _ debugData => debugData = []
  | .ping true data => f = .ping false data
  | _ => False

/-- What is in the send buffer stays, and only answers are added. -/
def Replies (f : Frame) (c c' : H2Connection) : Prop :=
  ∃ fs, c'.sendBuf = c.sendBuf ++ fs ∧ ∀ g ∈ fs, Answers f g

theorem Replies.same (h : c'.sendBuf = c.sendBuf) :
    Replies f c c' :=
  ⟨[], by rw [h, append_nil], fun _ hg => absurd hg not_mem_nil⟩

theorem Replies.trans {a b : H2Connection} (h₁ : Replies f a b) (h₂ : Replies f b c) :
    Replies f a c := by
  obtain ⟨fs, hfs, hall⟩ := h₁
  obtain ⟨gs, hgs, hall'⟩ := h₂
  refine ⟨fs ++ gs, by rw [hgs, hfs, append_assoc], fun g hg => ?_⟩
  rcases mem_append.mp hg with hg | hg
  · exact hall g hg
  · exact hall' g hg

theorem Replies.one {g : Frame} (h : c'.sendBuf = c.sendBuf ++ [g]) (hg : Answers f g) :
    Replies f c c' :=
  ⟨[g], h, fun _ h => mem_singleton.mp h ▸ hg⟩

section

variable (f : Frame) (c : H2Connection)

theorem replies_fatalError (e : H2Error) : Replies f c (c.fatalError e) := by
  rw [fatalError]
  split
  · exact .same rfl
  · exact .one rfl rfl

theorem replies_settle (r : Except H2Error Unit) : Replies f c (c.settle r) := by
  rcases r with e | _
  · exact replies_fatalError f c e
  · exact .same rfl

theorem replies_maybeSendWindowUpdates (sid n : Nat) :
    Replies f c (c.maybeSendWindowUpdates sid n) := by
  obtain ⟨w, t, fs, h, -, hfs⟩ := maybeSendWindowUpdates_eq c sid n
  refine ⟨fs, by rw [h], fun g hg => ?_⟩
  obtain ⟨k, inc, rfl⟩ := hfs g hg
  trivial

theorem replies_deliverHeaders (sid : Nat) (s : H2Stream) (headers : List HeaderField) (es : Bool) :
    Replies f c (c.deliverHeaders sid s headers es) := by
  rw [deliverHeaders]
  split <;> exact .same rfl

theorem replies_deliverData (sid : Nat) (s : H2Stream) (w : FlowControl) (payload : List UInt8)
    (es : Bool) : Replies f c (c.deliverData sid s w payload es) := by
  have h : ∀ c' : H2Connection, c'.sendBuf = c.sendBuf →
      Replies f c (c'.maybeSendWindowUpdates sid (payload.length % 4294967296)) :=
    fun c' hc => (Replies.same hc).trans (replies_maybeSendWindowUpdates f c' sid _)
  rw [deliverData]
  split <;> exact h _ rfl

theorem replies_refuseData (sid n : Nat) : Replies f c (c.refuseData sid n) := by
  rw [refuseData]
  split
  · exact .trans (.one (g := .windowUpdate 0 n) rfl trivial) (.one rfl trivial)
  · exact .one rfl trivial

end

theorem sendBuf_resetAll (ids : List Nat) (c : H2Connection) :
    (c.resetAll ids).sendBuf = c.sendBuf := by
  induction ids generalizing c with
  | nil => rfl
  | cons id ids ih =>
    rw [resetAll, ih]
    rfl

theorem sendBuf_takeBlock (c : H2Connection) (f : Frame) : (c.takeBlock f).sendBuf = c.sendBuf := by
  cases f <;> rfl

theorem BlockOutcome.replies (f : Frame) (h : BlockOutcome c b c' r) : Replies f c c' := by
  cases h with
  | delivered s headers => exact replies_deliverHeaders f (c.withDecoded b) _ s headers _
  | _ => exact .same rfl

theorem Dispatched.replies (h : Dispatched c f c' r) : Replies f c c' := by
  cases h with
  | settings s =>
    rcases (settingsApplied c s).sendBuf with h | h
    · exact .same h
    · exact .one h trivial
  | block hb h => exact .trans (.same (sendBuf_takeBlock c f)) (h.replies f)
  | @dataRefused sid payload es w hw hgone =>
    exact replies_refuseData _ { c with connRecvWindow := w } sid _
  | @dataDelivered sid payload es w rw s hw hstream hclosed hremote hrw =>
    exact replies_deliverData _ { c with connRecvWindow := w } sid s rw payload es
  | goAway last code debugData => exact .same (sendBuf_resetAll _ _)
  | ping data => exact .one rfl rfl
  | creditUnknown hsid hgone => exact .one rfl trivial
  | creditOverflow hsid hstream hw => exact .one rfl trivial
  | pushRefused sid promised encoded eh => exact .one rfl trivial
  | _ => exact .same rfl

/-- **Handling a frame only sends answers.** -/
theorem replies_takeFrame (c : H2Connection) (f : Frame) : Replies f c (c.takeFrame f) := by
  rcases takeFrame_cases c f with ⟨e, b, -, hc⟩ | ⟨-, c', r, h, hc⟩
  · rw [hc]
    exact replies_fatalError f { c with receivedAnyFrame := b } e
  · rw [hc]
    have h' : Replies f c c' := h.replies
    exact h'.trans (replies_settle f c' r)

end H2Connection
end Ringline.H2
