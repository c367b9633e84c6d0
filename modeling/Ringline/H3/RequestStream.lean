import Ringline.H3.Connection

/-!
# The receiving side of a request stream

What the peer sends on a request stream is a sequence of frames, and the connection looks at them one
by one: `take` says what a frame does to the stream and which events it gives, or that it is refused.
A round of reads adds bytes to the buffer of the stream and takes all frames that are complete
(`round`); if the stream ends there, the last frame is told so, and otherwise there may be an event for
the end alone.  A frame that is refused ends the connection, and nothing is read from then on.

This is the stream by itself.  `rounded_readRequestStream` says that the connection does just that: its
entry for the stream is the stream (`Tracks`), until the connection fails.
-/

set_option autoImplicit false

namespace Ringline
namespace H3

open List
open H2 (HeaderField)

/-! ## The stream by itself -/

/-- The events that something has given, and the stream after it, or the error that has ended the
connection. -/
@[ext]
structure Told where
  events : List H3Event
  result : Except H3Error RequestStream

/-- What comes next, unless the connection has failed. -/
def Told.andThen (t : Told) (f : RequestStream → Told) : Told :=
  match t.result with
  | .error e => ⟨t.events, .error e⟩
  | .ok rs => ⟨t.events ++ (f rs).events, (f rs).result⟩

/-- An event that says that the stream has ended, in whatever way. -/
def H3Event.terminal : H3Event → Bool
  | .request _ _ atEnd | .response _ _ atEnd | .data _ _ atEnd => atEnd
  | .trailers _ _ | .streamReset _ _ | .error _ => true
  | .goAway _ | .zeroRttRejected => false

namespace RequestStream

variable (rs : RequestStream)

/-- The event for the first header section. -/
def headEvent (sid : Nat) (headers : List HeaderField) (atEnd : Bool) : H3Event :=
  if rs.clientInitiated then .response sid headers atEnd else .request sid headers atEnd

/-- The stream after its first header section. -/
def begun (atEnd : Bool) : RequestStream :=
  { rs with
    initialHeadersReceived := true
    state :=
      if atEnd then rs.state.closeRemote
      else if rs.state = .waitingHeaders then .open
      else rs.state }

variable (limit sid : Nat)

/-- What a frame does to the stream. -/
def take (rs : RequestStream) (frame : Frame) (atEnd : Bool) :
    Except H3Error (RequestStream × List H3Event) :=
  match frame with
  | .headers encoded =>
    if rs.trailersReceived then .error .frameUnexpected
    else if rs.initialHeadersReceived ∧ atEnd = false then .error .frameUnexpected
    else
      match checkHeaders limit rs.headerKind encoded with
      | .error e => .error e
      | .ok headers =>
        if rs.initialHeadersReceived then
          .ok ({ rs with trailersReceived := true, state := rs.state.closeRemote },
            [.trailers sid headers])
        else .ok (rs.begun atEnd, [rs.headEvent sid headers atEnd])
  | .data payload =>
    if rs.initialHeadersReceived = false ∨ rs.trailersReceived = true then .error .frameUnexpected
    else
      .ok ({ rs with state := if atEnd then rs.state.closeRemote else rs.state },
        [.data sid payload atEnd])
  | .settings _ | .goAway _ => .error .frameUnexpected
  | .unknown _ _ => .ok (rs, [])

/-- One frame. -/
def takeOne (rs : RequestStream) (frame : Frame) (atEnd : Bool) : Told :=
  match rs.take limit sid frame atEnd with
  | .error e => ⟨[.error e], .error e⟩
  | .ok taken => ⟨taken.2, .ok taken.1⟩

/-- Several frames, of which the last one may be at the end of the stream. -/
def takeAll (limit sid : Nat) : RequestStream → List Frame → Bool → Told
  | rs, [], _ => ⟨[], .ok rs⟩
  | rs, frame :: rest, atEnd =>
    (rs.takeOne limit sid frame (atEnd && rest.isEmpty)).andThen (takeAll limit sid · rest atEnd)

/-- The event for the end of the stream alone. -/
def finEvents (sid : Nat) : List H3Event :=
  if rs.state = .open then [.data sid [] true] else []

/-- What happens after the frames that are complete: there may be something that is no frame, or the
end of the stream, and otherwise the rest stays in the buffer. -/
def settle (sid : Nat) (rs : RequestStream) (error : Option H3Error) (rest : List UInt8) (fin : Bool) :
    Told :=
  match error with
  | some e => ⟨[.error e], .error e⟩
  | none =>
    if fin ∧ rest = [] then
      ⟨rs.finEvents sid, .ok { rs with state := rs.state.closeRemote, recvBuf := [] }⟩
    else ⟨[], .ok { rs with recvBuf := rest }⟩

/-- A round of reads. -/
def round (rs : RequestStream) (data : List UInt8) (fin : Bool) : Told :=
  let d := frames.drain (rs.recvBuf ++ data)
  (takeAll limit sid { rs with recvBuf := [] } d.items (fin && d.rest.isEmpty)).andThen
    (settle sid · d.error d.rest fin)

/-- A frame leaves the buffer alone.  Unless it is the last one, it does not close the stream and
says nothing about the end. -/
theorem take_keeps {limit sid : Nat} {rs : RequestStream} {frame : Frame} {atEnd : Bool}
    {taken : RequestStream × List H3Event} (h : rs.take limit sid frame atEnd = .ok taken) :
    taken.1.recvBuf = rs.recvBuf ∧
      (atEnd = false → rs.state ≠ .closed → taken.1.state ≠ .closed) ∧
      (atEnd = false → ∀ ev ∈ taken.2, ev.terminal = false) := by
  cases frame with
  | headers encoded =>
    rw [take] at h
    split at h
    · cases h
    · split at h
      · cases h
      · rename_i hlate
        rcases hcheck : checkHeaders limit rs.headerKind encoded with e | headers
        · rw [hcheck] at h
          cases h
        · rw [hcheck] at h
          dsimp only at h
          split at h
          · rename_i hinitial
            rw [← Except.ok.inj h]
            exact ⟨rfl, fun hend => absurd ⟨hinitial, hend⟩ hlate,
              fun hend => absurd ⟨hinitial, hend⟩ hlate⟩
          · rw [← Except.ok.inj h]
            refine ⟨rfl, ?_, ?_⟩
            · rintro rfl hopen
              rw [begun, if_neg Bool.false_ne_true]
              split
              · exact fun hclosed => by cases hclosed
              · exact hopen
            · rintro rfl
              rw [forall_mem_singleton, headEvent]
              split <;> rfl
  | data payload =>
    rw [take] at h
    split at h
    · cases h
    · rw [← Except.ok.inj h]
      refine ⟨rfl, ?_, fun hend => forall_mem_singleton.mpr hend⟩
      rintro rfl hopen
      exact hopen
  | settings s => cases h
  | goAway id => cases h
  | unknown t payload =>
    rw [← Except.ok.inj h]
    exact ⟨rfl, fun _ hopen => hopen, nofun⟩

end RequestStream

/-! ## The frames of a buffer -/

variable {buf : List UInt8}

theorem next_frames : frames.next buf = nextFrame buf := rfl

theorem next_of_decode {decoded : Frame × Nat} (h : decodeFrame buf = .ok (some decoded)) :
    frames.next buf = .item decoded.1 (buf.drop decoded.2) := by
  rw [next_frames, nextFrame, h]

theorem next_of_incomplete (h : decodeFrame buf = .ok none) : frames.next buf = .more := by
  rw [next_frames, nextFrame, h]

theorem next_of_error {e : H3Error} (h : decodeFrame buf = .error e) : frames.next buf = .bad e := by
  rw [next_frames, nextFrame, h]

theorem drain_nil : frames.drain [] = ⟨[], none, []⟩ := rfl

/-- A buffer is empty if it has no frames and nothing is left. -/
theorem isEmpty_drain (buf : List UInt8) :
    buf.isEmpty = ((frames.drain buf).rest.isEmpty && (frames.drain buf).items.isEmpty) := by
  rw [Bool.eq_iff_iff, Bool.and_eq_true, List.isEmpty_iff, List.isEmpty_iff, List.isEmpty_iff]
  constructor
  · rintro rfl
    exact ⟨rfl, rfl⟩
  · rintro ⟨hrest, hitems⟩
    rw [← Framing.eq_rest_of_items_nil hitems, hrest]

/-! ## The stream in its connection -/

namespace Link

/-- The connection has this stream, and is alive. -/
structure Tracks (limit sid : Nat) (rs : RequestStream) (l : Link) : Prop where
  entry : l.conn.requestStreams.get? sid = if rs.state = .closed then none else some rs
  limit : l.conn.localSettings.maxFieldSectionSize = limit
  started : l.conn.connId.isSome = true
  alive : l.conn.state ≠ .closed
  running : l.quic.closed = false

/-- The connection has failed, and nothing is left of the stream to be looked at. -/
structure Failed (sid : Nat) (l : Link) : Prop where
  stopped : l.quic.closed = true
  entry : ∀ rs, l.conn.requestStreams.get? sid = some rs → rs.recvBuf = []

section
variable {limit sid : Nat} {rs : RequestStream} {l : Link}

section

variable (h : Tracks limit sid rs l)

include h

theorem Tracks.get? (hopen : rs.state ≠ .closed) : l.conn.requestStreams.get? sid = some rs := by
  rw [h.entry, if_neg hopen]

theorem Tracks.push (e : H3Event) :
    Tracks limit sid rs (l.withConn (·.push e)) := ⟨h.entry, h.limit, h.started, h.alive, h.running⟩

/-- Only the entry of the stream changes. -/
theorem Tracks.setStreams (rs' : RequestStream) {t : Table Nat RequestStream}
    (ht : t.get? sid = if rs'.state = .closed then none else some rs') :
    Tracks limit sid rs' (l.withConn fun c => { c with requestStreams := t }) :=
  ⟨ht, h.limit, h.started, h.alive, h.running⟩

theorem Tracks.update {f : RequestStream → RequestStream}
    (hf : (f rs).state = .closed ↔ rs.state = .closed) :
    Tracks limit sid (f rs) (l.updateStream sid f) := by
  refine h.setStreams (f rs) ?_
  rw [Table.get?_modify, if_pos rfl, h.entry]
  by_cases hclosed : rs.state = .closed
  · rw [if_pos hclosed, if_pos (hf.mpr hclosed)]
    rfl
  · rw [if_neg hclosed, if_neg fun hc => hclosed (hf.mp hc)]
    rfl

end

theorem events_updateStream (l : Link) (sid : Nat) (f : RequestStream → RequestStream) :
    (l.updateStream sid f).conn.events = l.conn.events := rfl

theorem events_setState (c : H3Connection) (sid : Nat) (next : StreamState → StreamState) :
    (c.setState sid next).events = c.events := by
  rw [H3Connection.setState]
  rcases c.requestStreams.get? sid with _ | rs
  · rfl
  · dsimp only
    split
    · rfl
    · rfl

theorem Tracks.closeRemote (h : Tracks limit sid rs l) :
    Tracks limit sid { rs with state := rs.state.closeRemote }
      (l.withConn (·.finalizeRemoteClose sid)) := by
  have hset : l.conn.finalizeRemoteClose sid = l.conn.setState sid StreamState.closeRemote := rfl
  rw [withConn, hset, H3Connection.setState]
  by_cases hclosed : rs.state = .closed
  · have hentry := h.entry
    rw [if_pos hclosed] at hentry
    rw [hentry]
    refine ⟨?_, h.limit, h.started, h.alive, h.running⟩
    rw [hentry, hclosed]
    rfl
  · rw [h.get? hclosed]
    dsimp only
    split
    · rename_i hnext
      refine h.setStreams { rs with state := rs.state.closeRemote } ?_
      rw [Table.get?_erase, if_pos rfl, if_pos hnext]
    · rename_i hnext
      refine h.setStreams { rs with state := rs.state.closeRemote } ?_
      rw [Table.get?_insert, if_pos rfl, if_neg hnext]

theorem failed_fatalError (h : Tracks limit sid rs l) (hbuf : rs.recvBuf = []) (e : H3Error) :
    Failed sid (l.fatalError e) ∧ (l.fatalError e).conn.events = l.conn.events ++ [.error e] := by
  refine ⟨⟨?_, fun rs' hrs' => ?_⟩, rfl⟩
  · rw [fatalError]
    rw [h.started, decide_eq_true h.alive, Bool.and_self, if_pos rfl, Quic.closeConnection, h.running]
    rfl
  · have hentry : l.conn.requestStreams.get? sid = some rs' := hrs'
    rw [h.entry] at hentry
    split at hentry
    · cases hentry
    · rw [← Option.some_inj.mp hentry]
      exact hbuf

/-! ## One frame -/

theorem tracks_takeHeaders (h : Tracks limit sid rs l) (headers : List HeaderField) (atEnd : Bool) :
    if rs.initialHeadersReceived then
      Tracks limit sid { rs with trailersReceived := true, state := rs.state.closeRemote }
        (l.takeHeaders sid rs headers atEnd) ∧
      (l.takeHeaders sid rs headers atEnd).conn.events = l.conn.events ++ [.trailers sid headers]
    else
      Tracks limit sid (rs.begun atEnd) (l.takeHeaders sid rs headers atEnd) ∧
      (l.takeHeaders sid rs headers atEnd).conn.events =
        l.conn.events ++ [rs.headEvent sid headers atEnd] := by
  rw [takeHeaders]
  split
  · have htrailers := (h.update (f := fun rs => { rs with trailersReceived := true }) Iff.rfl).closeRemote
    refine ⟨htrailers.push (.trailers sid headers), ?_⟩
    exact congrArg (· ++ [.trailers sid headers]) (events_setState _ sid _)
  · have hinitial := h.update (f := fun rs => { rs with initialHeadersReceived := true }) Iff.rfl
    dsimp only
    generalize hl : l.updateStream sid (fun rs => { rs with initialHeadersReceived := true }) = l₁
      at hinitial
    have hevents : l₁.conn.events = l.conn.events := by rw [← hl, events_updateStream]
    -- the state of the stream moves on
    obtain ⟨l₂, hl₂, hbegun, hevents₂⟩ : ∃ l₂, (if atEnd = true then
          l₁.withConn (·.finalizeRemoteClose sid)
        else l₁.updateStream sid fun rs =>
          if rs.state = .waitingHeaders then { rs with state := .open } else rs) = l₂ ∧
        Tracks limit sid (rs.begun atEnd) l₂ ∧ l₂.conn.events = l₁.conn.events := by
      refine ⟨_, rfl, ?_⟩
      cases atEnd with
      | true => exact ⟨hinitial.closeRemote, events_setState _ sid _⟩
      | false =>
        refine ⟨?_, rfl⟩
        by_cases hwaiting : rs.state = .waitingHeaders
        · have hupdate := hinitial.update (f := fun rs =>
            if rs.state = .waitingHeaders then { rs with state := .open } else rs) (by
              simp [hwaiting])
          simpa [RequestStream.begun, hwaiting] using hupdate
        · have hupdate := hinitial.update (f := fun rs =>
            if rs.state = .waitingHeaders then { rs with state := .open } else rs) (by
              simp [hwaiting])
          simpa [RequestStream.begun, hwaiting] using hupdate
    rw [hl₂, RequestStream.headEvent]
    split
    · exact ⟨hbegun.push _, congrArg (· ++ [_]) (hevents₂.trans hevents)⟩
    · exact ⟨hbegun.push _, congrArg (· ++ [_]) (hevents₂.trans hevents)⟩

/-- A frame in the connection and on its own: both refuse it, or both take it. -/
theorem onFrame_cases (h : Tracks limit sid rs l) (hopen : rs.state ≠ .closed) (frame : Frame)
    (atEnd : Bool) :
    (∃ e, rs.take limit sid frame atEnd = .error e ∧
        l.onFrame sid frame atEnd = (l.fatalError e, .abort)) ∨
      ∃ taken l', rs.take limit sid frame atEnd = .ok taken ∧
        l.onFrame sid frame atEnd = (l', .next) ∧ Tracks limit sid taken.1 l' ∧
          l'.conn.events = l.conn.events ++ taken.2 := by
  have hget := h.get? hopen
  cases frame with
  | headers encoded =>
    rw [onFrame, hget]
    dsimp only
    rw [onHeaders, h.limit, RequestStream.take]
    by_cases htrailers : rs.trailersReceived = true
    · exact .inl ⟨_, if_pos htrailers, if_pos htrailers⟩
    · rw [if_neg htrailers, if_neg htrailers]
      by_cases hlate : rs.initialHeadersReceived = true ∧ atEnd = false
      · exact .inl ⟨_, if_pos hlate, if_pos hlate⟩
      · rw [if_neg hlate, if_neg hlate]
        rcases checkHeaders limit rs.headerKind encoded with e | headers
        · exact .inl ⟨e, rfl, rfl⟩
        · have hspec := tracks_takeHeaders h headers atEnd
          refine .inr ?_
          by_cases hinitial : rs.initialHeadersReceived = true
          · rw [if_pos hinitial] at hspec
            exact ⟨_, _, if_pos hinitial, rfl, hspec⟩
          · rw [if_neg hinitial] at hspec
            exact ⟨_, _, if_neg hinitial, rfl, hspec⟩
  | data payload =>
    rw [onFrame, hget]
    dsimp only
    rw [onData, RequestStream.take]
    by_cases hnot : rs.initialHeadersReceived = false ∨ rs.trailersReceived = true
    · exact .inl ⟨_, if_pos hnot, if_pos hnot⟩
    · refine .inr ⟨_, _, if_neg hnot, if_neg hnot, ?_⟩
      cases atEnd with
      | true => exact ⟨h.closeRemote.push _, congrArg (· ++ [_]) (events_setState _ sid _)⟩
      | false => exact ⟨h.push _, rfl⟩
  | settings s => exact .inl ⟨_, rfl, rfl⟩
  | goAway id => exact .inl ⟨_, rfl, rfl⟩
  | unknown t payload => exact .inr ⟨_, _, rfl, rfl, h, (append_nil _).symm⟩

/-! ## A round -/

/-- What the loop over the frames comes to. -/
structure Looped (limit sid : Nat) (t : Told) (d : Drained UInt8 Frame H3Error) (events : List H3Event)
    (r : Link × List UInt8 × Bool) : Prop where
  refused : ∀ e, t.result = .error e → r.2.2 = true ∧ Failed sid r.1 ∧ r.1.conn.events = events ++ t.events
  bad : ∀ rs e, t.result = .ok rs → d.error = some e →
    r.2.2 = true ∧ Failed sid r.1 ∧ r.1.conn.events = events ++ (t.events ++ [.error e])
  done : ∀ rs, t.result = .ok rs → d.error = none →
    r.2.2 = false ∧ r.2.1 = d.rest ∧ Tracks limit sid rs r.1 ∧ r.1.conn.events = events ++ t.events

theorem looped_frameLoop {fuel : Nat} (hfuel : buf.length < fuel)
    (h : Tracks limit sid rs l) (hopen : rs.state ≠ .closed) (hbuf : rs.recvBuf = []) (fin : Bool) :
    Looped limit sid (rs.takeAll limit sid (frames.drain buf).items
      (fin && (frames.drain buf).rest.isEmpty)) (frames.drain buf) l.conn.events
      (frameLoop sid fin fuel l buf) := by
  induction fuel generalizing buf l rs with
  | zero => exact absurd hfuel (Nat.not_lt_zero _)
  | succ fuel ih =>
    rw [frameLoop]
    split
    · rename_i hnil
      rw [hnil, drain_nil]
      refine ⟨nofun, nofun, fun rs' hrs' _ => ⟨rfl, rfl, ?_, (append_nil _).symm⟩⟩
      rw [← Except.ok.inj hrs']
      exact h
    · rcases hdecode : decodeFrame buf with e | _ | decoded
      · rw [Framing.drain_of_bad (next_of_error hdecode)]
        obtain ⟨hfailed, hevents⟩ := failed_fatalError h hbuf e
        refine ⟨nofun, fun rs' e' _ he' => ⟨rfl, hfailed, ?_⟩, nofun⟩
        rw [← Option.some_inj.mp he']
        exact hevents
      · rw [Framing.drain_of_more (next_of_incomplete hdecode)]
        refine ⟨nofun, nofun, fun rs' hrs' _ => ⟨rfl, rfl, ?_, (append_nil _).symm⟩⟩
        rw [← Except.ok.inj hrs']
        exact h
      · have hshort := frames.shorter (next_of_decode hdecode)
        rw [Framing.drain_of_item (next_of_decode hdecode)]
        dsimp only [Drained.after]
        rw [singleton_append, RequestStream.takeAll]
        generalize buf.drop decoded.2 = rest at hshort
        have hend : (fin && (frames.drain rest).rest.isEmpty && (frames.drain rest).items.isEmpty) =
            (fin && rest.isEmpty) := by
          rw [Bool.and_assoc, ← isEmpty_drain]
        rw [hend]
        rw [RequestStream.takeOne]
        rcases onFrame_cases h hopen decoded.1 (fin && rest.isEmpty) with
          ⟨e, htake, hframe⟩ | ⟨taken, next, htake, hframe, htracks, hevents⟩
        · -- the frame is refused
          rw [htake, hframe]
          obtain ⟨hfailed, hevents⟩ := failed_fatalError h hbuf e
          refine ⟨fun e' _ => ⟨rfl, hfailed, hevents⟩, nofun, nofun⟩
        · obtain ⟨hkeeps, hstays, -⟩ := RequestStream.take_keeps htake
          rw [htake, hframe]
          dsimp only [Told.andThen]
          have hloop : Looped limit sid (taken.1.takeAll limit sid (frames.drain rest).items
              (fin && (frames.drain rest).rest.isEmpty)) (frames.drain rest) next.conn.events
              (frameLoop sid fin fuel next rest) := by
            rcases hlast : fin && rest.isEmpty with _ | _
            · exact ih (by omega) htracks (hstays hlast hopen) (hkeeps.trans hbuf)
            · -- nothing comes behind the last frame
              obtain rfl := isEmpty_iff.mp (Bool.and_eq_true_iff.mp hlast).2
              rw [drain_nil]
              have hstop : frameLoop sid fin fuel next [] = (next, [], false) := by
                cases fuel with
                | zero => rfl
                | succ n => rw [frameLoop, if_pos rfl]
              rw [hstop]
              refine ⟨nofun, nofun, fun rs' hrs' _ => ⟨rfl, rfl, ?_, (append_nil _).symm⟩⟩
              rw [← Except.ok.inj hrs']
              exact htracks
          have hassoc : ∀ evs, next.conn.events ++ evs = l.conn.events ++ (taken.2 ++ evs) := by
            intro evs
            rw [hevents, append_assoc]
          refine ⟨fun e he => ?_, fun rs' e hrs' he => ?_, fun rs' hrs' he => ?_⟩
          · obtain ⟨haborted, hfailed, hall⟩ := hloop.refused e he
            exact ⟨haborted, hfailed, hall.trans (hassoc _)⟩
          · obtain ⟨haborted, hfailed, hall⟩ := hloop.bad rs' e hrs' he
            refine ⟨haborted, hfailed, hall.trans ((hassoc _).trans ?_)⟩
            rw [← append_assoc taken.2]
          · obtain ⟨haborted, hrest, htracks', hall⟩ := hloop.done rs' hrs' he
            exact ⟨haborted, hrest, htracks', hall.trans (hassoc _)⟩

/-- The end of a stream. -/
theorem tracks_endStream (h : Tracks limit sid rs l) :
    Tracks limit sid { rs with state := rs.state.closeRemote } (l.endStream sid) ∧
      (l.endStream sid).conn.events = l.conn.events ++ rs.finEvents sid := by
  have hemit : ((l.conn.requestStreams.get? sid).any fun rs => decide (rs.state = .open)) =
      decide (rs.state = .open) := by
    rw [h.entry]
    split
    · rename_i hclosed
      rw [hclosed]
      rfl
    · rfl
  have hevents : (l.withConn (·.finalizeRemoteClose sid)).conn.events = l.conn.events :=
    events_setState _ sid _
  rw [endStream, hemit, RequestStream.finEvents]
  by_cases hopen : rs.state = .open
  · rw [if_pos (decide_eq_true hopen), if_pos hopen]
    exact ⟨h.closeRemote.push _, congrArg (· ++ [_]) hevents⟩
  · rw [if_neg (by simpa using hopen), if_neg hopen, append_nil]
    exact ⟨h.closeRemote, hevents⟩

/-- What a round comes to, in the connection. -/
structure Rounded (limit sid : Nat) (t : Told) (events : List H3Event) (l : Link) : Prop where
  ok : ∀ rs, t.result = .ok rs → Tracks limit sid rs l
  failed : ∀ e, t.result = .error e → Failed sid l
  events : l.conn.events = events ++ t.events

theorem rounded_processRequestFrames (rs : RequestStream) (hbuf : rs.recvBuf = [])
    (h : Tracks limit sid { rs with recvBuf := buf } l) (hopen : rs.state ≠ .closed) (fin : Bool) :
    Rounded limit sid ({ rs with recvBuf := buf }.round limit sid [] fin) l.conn.events
      (l.processRequestFrames sid fin) := by
  have hget := h.get? hopen
  have htaken := h.update (f := fun rs => { rs with recvBuf := [] }) Iff.rfl
  have hself : ({ rs with recvBuf := [] } : RequestStream) = rs := by rw [← hbuf]
  rw [show ({ ({ rs with recvBuf := buf } : RequestStream) with recvBuf := [] } : RequestStream) = rs
    from hself] at htaken
  have hloop := looped_frameLoop (Nat.lt_succ_self buf.length) htaken hopen hbuf fin
  rw [processRequestFrames, hget, RequestStream.round]
  dsimp only
  rw [append_nil, hself, Told.andThen]
  generalize frameLoop sid fin (buf.length + 1) (l.updateStream sid fun rs => { rs with recvBuf := [] })
    buf = r at hloop
  rcases hresult : (rs.takeAll limit sid (frames.drain buf).items
    (fin && (frames.drain buf).rest.isEmpty)).result with e | rs'
  · obtain ⟨haborted, hfailed, hevents⟩ := hloop.refused e hresult
    rw [haborted, if_pos rfl]
    exact ⟨nofun, fun _ _ => hfailed, hevents⟩
  · dsimp only [RequestStream.settle]
    rcases herror : (frames.drain buf).error with _ | e
    · obtain ⟨haborted, hrest, htracks, hevents⟩ := hloop.done rs' hresult herror
      rw [haborted, if_neg Bool.false_ne_true, hrest]
      dsimp only
      split
      · rename_i hfin
        obtain ⟨hended, hlast⟩ := tracks_endStream htracks
        have hupdate := hended.update (f := fun rs => { rs with recvBuf := (frames.drain buf).rest }) Iff.rfl
        refine ⟨fun rs'' hrs'' => ?_, nofun, ?_⟩
        · rw [← Except.ok.inj hrs'']
          rw [hfin.2] at hupdate ⊢
          exact hupdate
        · rw [events_updateStream, hlast, hevents, events_updateStream, append_assoc]
      · have hupdate := htracks.update (f := fun rs => { rs with recvBuf := (frames.drain buf).rest })
          Iff.rfl
        refine ⟨fun rs'' hrs'' => ?_, nofun, ?_⟩
        · rw [← Except.ok.inj hrs'']
          exact hupdate
        · rw [append_nil]
          exact hevents
    · obtain ⟨haborted, hfailed, hevents⟩ := hloop.bad rs' e hresult herror
      rw [haborted, if_pos rfl]
      exact ⟨nofun, fun _ _ => hfailed, hevents⟩

/-- **A round in the connection is a round of the stream.** -/
theorem rounded_readRequestStream (h : Tracks limit sid rs l) (hopen : rs.state ≠ .closed)
    {ans : Answers} {data : List UInt8} {fin : Bool} (hread : readLoop false ans.reads = ⟨data, fin, none⟩) :
    Rounded limit sid (rs.round limit sid data fin) l.conn.events (l.readRequestStream ans sid) := by
  have hupdate := h.update (f := fun rs => { rs with recvBuf := rs.recvBuf ++ data }) Iff.rfl
  have hround : rs.round limit sid data fin =
      ({ ({ rs with recvBuf := [] } : RequestStream) with recvBuf := rs.recvBuf ++ data }).round limit sid
        [] fin := by
    rw [RequestStream.round, RequestStream.round]
    rw [append_nil]
  rw [readRequestStream, h.get? hopen]
  rw [h.running, hread, hround]
  exact rounded_processRequestFrames { rs with recvBuf := [] } rfl hupdate hopen fin

/-- **Nothing is read from a connection that has failed.** -/
theorem failed_readRequestStream (h : Failed sid l) (ans : Answers) :
    Failed sid (l.readRequestStream ans sid) ∧
      (l.readRequestStream ans sid).conn.events = l.conn.events := by
  rw [readRequestStream]
  rcases hget : l.conn.requestStreams.get? sid with _ | rs
  · exact ⟨h, rfl⟩
  · have hread : readLoop true ans.reads = ⟨[], false, none⟩ := by
      cases ans.reads with
      | nil => rfl
      | cons answer answers => rfl
    rw [h.stopped, hread]
    dsimp only
    have hget₁ : (l.updateStream sid fun rs => { rs with recvBuf := rs.recvBuf ++ [] }).conn.requestStreams.get?
        sid = some rs := by
      rw [updateStream, withConn]
      rw [Table.get?_modify, if_pos rfl, hget]
      simp
    rw [processRequestFrames, hget₁]
    dsimp only
    rw [h.entry rs hget, frameLoop, if_pos rfl]
    rw [if_neg Bool.false_ne_true, if_neg fun hfin => Bool.false_ne_true hfin.1]
    refine ⟨⟨h.stopped, fun rs' hrs' => ?_⟩, rfl⟩
    have hlast : ∀ t : Table Nat RequestStream,
        (t.modify sid fun rs => { rs with recvBuf := [] }).get? sid = some rs' → rs'.recvBuf = [] := by
      intro t ht
      rw [Table.get?_modify, if_pos rfl] at ht
      obtain ⟨rs'', -, rfl⟩ := Option.map_eq_some_iff.mp ht
      rfl
    exact hlast _ hrs'

end

end Link
end H3
end Ringline
